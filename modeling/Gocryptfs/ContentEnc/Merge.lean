import Gocryptfs.ContentEnc.Block
/-!
# `Gocryptfs.ContentEnc.Merge` — `MergeBlocks`, the read-modify-write of one block

A write into the middle of a block reads the old plaintext block, merges the
new data into it at the write's offset, and seals the result.  `MergeBlocks`
does the merge: a fresh `plainBS`-byte buffer, the old block copied in, the
new data copied over it at `offset`, and the buffer cut to whichever ends
later, the old block or the new data.  Go's `copy` copies as many bytes as
fit; the two slice expressions panic when the new data runs past `plainBS`
or the result would be longer than it.  A fast path returns the new data
as it is when there is no old block and the offset is zero.

Within the bounds, the merged block is read off byte by byte: the new data
at the offset, the old bytes elsewhere below the old length, and zeros in any
gap; and the fast path returns what the general path returns.
-/

namespace Gocryptfs

/-- Go's built-in `copy(dst, src)`: the first `min(len(dst), len(src))` bytes
of `dst` become those of `src`. -/
def goCopy (dst src : Bytes) : Bytes := src.take dst.length ++ dst.drop src.length

theorem goCopy_of_length_le {dst src : Bytes} (h : src.length ≤ dst.length) :
    goCopy dst src = src ++ dst.drop src.length := by
  rw [goCopy, List.take_of_length_le h]

theorem goCopy_of_length_eq {dst src : Bytes} (h : dst.length = src.length) :
    goCopy dst src = src := by
  rw [goCopy_of_length_le h.ge, List.drop_of_length_le h.le, List.append_nil]

namespace ContentEnc

variable (be : ContentEnc)

/-- The code of `MergeBlocks` after its fast path.  `out[offset:offset+l]`
panics unless `0 ≤ offset` and `offset + l ≤ plainBS`, the capacity of `out`;
`out[0:outLen]` panics unless `outLen ≤ plainBS`. -/
def mergeBlocksGeneral (oldData newData : Bytes) (offset : Int) : Result Bytes :=
  let out := goCopy (List.replicate be.plainBS 0) oldData
  let l := newData.length
  if offset < 0 ∨ be.plainBS < offset + l then .panic
  else
    let o := offset.toNat
    let out := out.take o ++ goCopy ((out.drop o).take l) newData ++ out.drop (o + l)
    let outLen := oldData.length
    let newLen := o + newData.length
    let outLen := if outLen < newLen then newLen else outLen
    if be.plainBS < outLen then .panic else .ok (out.take outLen)

/-- `MergeBlocks`: the fast path for small-file creation, then the general path. -/
def mergeBlocks (oldData newData : Bytes) (offset : Int) : Result Bytes :=
  if oldData.length = 0 ∧ offset = 0 then .ok newData
  else be.mergeBlocksGeneral oldData newData offset

end ContentEnc

/-! ## Byte by byte

Within its bounds the general path computes the old block padded with zeros
to `plainBS`, with the new data written over it at the offset, cut to the
longer of the two (`mergeBlocksGeneral_eq`).  Each byte of that is read off
by two lemmas: one for the bytes the new data covers and the bytes around
them (`getElem?_splice`), one for the old block and its zero padding
(`getElem?_padded`). -/

theorem getElem?_splice {out d : Bytes} {off : Nat} (h : off + d.length ≤ out.length) (i : Nat) :
    (out.take off ++ d ++ out.drop (off + d.length))[i]? =
      if off ≤ i ∧ i < off + d.length then d[i - off]? else out[i]? := by
  have hA : (out.take off).length = off := by rw [List.length_take]; omega
  by_cases h₁ : i < off
  · rw [if_neg (by omega), List.getElem?_append_left (by simp; omega),
      List.getElem?_append_left (by omega), List.getElem?_take_of_lt h₁]
  by_cases h₂ : i < off + d.length
  · rw [if_pos ⟨by omega, h₂⟩, List.getElem?_append_left (by simp; omega),
      List.getElem?_append_right (by omega), hA]
  · rw [if_neg (by omega), List.getElem?_append_right (by simp; omega), List.getElem?_drop]
    congr 1
    simp; omega

theorem getElem?_padded {o : Bytes} {n : Nat} (h : o.length ≤ n) {i : Nat} (hi : i < n) :
    (o ++ List.replicate (n - o.length) 0)[i]? = if i < o.length then o[i]? else some 0 := by
  split
  · exact List.getElem?_append_left ‹_›
  · rw [List.getElem?_append_right (by omega), List.getElem?_replicate_of_lt (by omega)]

namespace ContentEnc

variable {be : ContentEnc}

theorem mergeBlocksGeneral_eq {o d : Bytes} {off : Nat} (ho : o.length ≤ be.plainBS)
    (hd : off + d.length ≤ be.plainBS) :
    be.mergeBlocksGeneral o d off =
      .ok (((o ++ List.replicate (be.plainBS - o.length) 0).take off ++ d ++
        (o ++ List.replicate (be.plainBS - o.length) 0).drop (off + d.length)).take
          (max o.length (off + d.length))) := by
  have hout : goCopy (List.replicate be.plainBS 0) o =
      o ++ List.replicate (be.plainBS - o.length) 0 := by
    rw [goCopy_of_length_le (by simpa using ho), List.drop_replicate]
  have hmid : goCopy (((o ++ List.replicate (be.plainBS - o.length) 0).drop off).take d.length) d =
      d :=
    goCopy_of_length_eq (by
      simp only [List.length_take, List.length_drop, List.length_append, List.length_replicate]
      omega)
  simp only [mergeBlocksGeneral, hout, Int.toNat_ofNat, hmid]
  rw [if_neg (by omega), if_neg (by split <;> omega)]
  congr 2
  split <;> omega

/-- For an old block of at most `plainBS` bytes and new data that ends within
`plainBS`: `MergeBlocks` returns the block `r` of length `max(len(o), off +
len(d))` with the new data at `off`, the old bytes elsewhere below `len(o)`,
and zeros at every other index; and the general path returns the same `r`,
also where the fast path is taken. -/
theorem mergeBlocks_bytes {o d : Bytes} {off : Nat} (ho : o.length ≤ be.plainBS)
    (hd : off + d.length ≤ be.plainBS) :
    ∃ r, be.mergeBlocks o d off = .ok r ∧ be.mergeBlocksGeneral o d off = .ok r ∧
      r.length = max o.length (off + d.length) ∧
      (∀ j < d.length, r[off + j]? = d[j]?) ∧
      (∀ i < o.length, (i < off ∨ off + d.length ≤ i) → r[i]? = o[i]?) ∧
      (∀ i < r.length, o.length ≤ i → (i < off ∨ off + d.length ≤ i) → r[i]? = some 0) := by
  set out := o ++ List.replicate (be.plainBS - o.length) 0
  have hout : out.length = be.plainBS := by
    simp only [out, List.length_append, List.length_replicate]; omega
  set r := (out.take off ++ d ++ out.drop (off + d.length)).take (max o.length (off + d.length))
  have hr : r.length = max o.length (off + d.length) := by
    simp only [r, List.length_take, List.length_append, List.length_drop, hout]; omega
  have hget : ∀ i < max o.length (off + d.length), r[i]? =
      if off ≤ i ∧ i < off + d.length then d[i - off]? else
        if i < o.length then o[i]? else some 0 := fun i hi => by
    rw [List.getElem?_take_of_lt hi, getElem?_splice (by omega),
      getElem?_padded ho (by omega)]
  have hg := mergeBlocksGeneral_eq ho hd
  refine ⟨r, ?_, hg, hr, fun j hj => ?_, fun i hi hside => ?_, fun i hi hlo hside => ?_⟩
  · unfold mergeBlocks
    split
    · next h =>
      obtain ⟨ho0, hoff⟩ := h
      obtain rfl : off = 0 := by exact_mod_cast hoff
      simp only [r, List.take_zero, List.nil_append, ho0, Nat.zero_add, Nat.zero_max, List.take_left]
    · exact hg
  · rw [hget _ (by omega), if_pos ⟨by omega, by omega⟩, Nat.add_sub_cancel_left]
  · rw [hget _ (by omega), if_neg (by omega), if_pos hi]
  · rw [hget _ (by omega), if_neg (by omega), if_neg (by omega)]

end ContentEnc

/-- A content encoder with four-byte plaintext blocks. -/
def fourByteEnc : ContentEnc := ⟨⟨16, AEAD.zeroTag⟩, 4, ParallelCrypto.new 1⟩

theorem mergeBlocks_bytes_gap :
    ([1, 2] : Bytes).length ≤ fourByteEnc.plainBS ∧ 3 + ([9] : Bytes).length ≤ fourByteEnc.plainBS ∧
    ∃ r, fourByteEnc.mergeBlocks [1, 2] [9] (3 : Nat) = .ok r ∧
      fourByteEnc.mergeBlocksGeneral [1, 2] [9] (3 : Nat) = .ok r ∧
      r.length = max ([1, 2] : Bytes).length (3 + ([9] : Bytes).length) ∧
      (∀ j < ([9] : Bytes).length, r[3 + j]? = ([9] : Bytes)[j]?) ∧
      (∀ i < ([1, 2] : Bytes).length, (i < 3 ∨ 3 + ([9] : Bytes).length ≤ i) →
        r[i]? = ([1, 2] : Bytes)[i]?) ∧
      (∀ i < r.length, ([1, 2] : Bytes).length ≤ i → (i < 3 ∨ 3 + ([9] : Bytes).length ≤ i) →
        r[i]? = some 0) :=
  ⟨by decide, by decide, ContentEnc.mergeBlocks_bytes (by decide) (by decide)⟩

end Gocryptfs
