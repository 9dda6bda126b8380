import Gocryptfs.Basic
/-!
# `Gocryptfs.Base64` — `base64.URLEncoding`, as `filenameauth` uses it

Go's `encoding/base64` is not under `src/`, but `VerifyFilename` accepts a
name exactly when its decoder does, so the decoder is part of what is
verified.  This is `URLEncoding`: the URL-safe alphabet, padding `=`, and not
`Strict`.

`encodeToString` is `Encode`, one three-byte quantum at a time.
`decodeString` is `Decode`'s loop of `decodeQuantum` calls, written as one
pass over the characters: the loop restarts `decodeQuantum` with `j = 0`
after each full quantum, so the two nested loops are one loop whose state is
the quantum read so far.  `Decode`'s fast paths decode eight or four alphabet
characters at once, exactly as `decodeQuantum` would, and are not written
separately.  An error is the text `CorruptInputError` prints, with the input
offset the code computes.

The decoder is lenient in two ways that matter: it skips `'\n'` and `'\r'`
anywhere, and, not being `Strict`, it ignores the bits a padded quantum's last
character carries beyond the data.  `decodeString_encodeToString_newlines`
is the round trip, with any newlines after it.
-/

namespace Gocryptfs

namespace Base64

/-- `encodeURL`, the alphabet of `URLEncoding`. -/
def encodeURL : List UInt8 :=
  "ABCDEFGHIJKLMNOPQRSTUVWXYZabcdefghijklmnopqrstuvwxyz0123456789-_".toList.map
    fun c => c.toNat.toUInt8

/-- `decodeMap`: each alphabet character's index; `none` is Go's `0xff`. -/
def decodeMap (c : UInt8) : Option Nat := encodeURL.indexOf? c

/-- `enc.encode[val & 0x3F]`. -/
def encodeChar (val : Nat) : UInt8 := encodeURL.getD (val % 64) 0

/-- `padChar`, `'='`. -/
def padChar : UInt8 := 61

/-- `Encode` with padding: each three bytes as `val` and four characters
(`val>>18`, `val>>12`, `val>>6`, `val`, each `& 0x3F`); a last one or two
bytes are padded with `=`. -/
def encodeToString : Bytes → Bytes
  | [] => []
  | [a] =>
    let val := a.toNat * 65536
    [encodeChar (val / 262144), encodeChar (val / 4096), padChar, padChar]
  | [a, b] =>
    let val := a.toNat * 65536 + b.toNat * 256
    [encodeChar (val / 262144), encodeChar (val / 4096), encodeChar (val / 64), padChar]
  | a :: b :: c :: rest =>
    let val := a.toNat * 65536 + b.toNat * 256 + c.toNat
    [encodeChar (val / 262144), encodeChar (val / 4096), encodeChar (val / 64), encodeChar val] ++
      encodeToString rest

/-- `CorruptInputError(i).Error()`. -/
def corruptInputError (i : Nat) : String :=
  "illegal base64 data at input byte " ++ toString i

/-- `'\n'` and `'\r'`, which the decoder skips. -/
def isNewline (c : UInt8) : Bool := c == 10 || c == 13

/-- The end of `decodeQuantum`: `dbuf` as `val`, and its first `dlen - 1`
bytes, `byte(val>>16)`, `byte(val>>8)`, `byte(val)`. -/
def quantumBytes (dbuf : List Nat) (dlen : Nat) : Bytes :=
  let val := dbuf.getD 0 0 * 262144 + dbuf.getD 1 0 * 4096 + dbuf.getD 2 0 * 64 + dbuf.getD 3 0
  ([val / 65536, val / 256, val].map UInt8.ofNat).take (dlen - 1)

/-- `decodeQuantum` after it read `=` as the `j`-th character of a quantum,
`j = dbuf.length`: two pads after two characters, then only newlines to the
end.  `n` is `len(src)` and the input left is `rest`, so `si = n - rest.length`. -/
def padded (n : Nat) (dbuf : List Nat) (out rest : Bytes) : Result Bytes :=
  if dbuf.length < 2 then .error (corruptInputError (n - rest.length - 1))
  else
    let second : Result Bytes :=
      if dbuf.length = 2 then
        match rest.dropWhile isNewline with
        | [] => .error (corruptInputError n)
        | c :: rest' =>
          if c ≠ padChar then .error (corruptInputError (n - rest'.length - 2)) else .ok rest'
      else .ok rest
    second >>= fun rest =>
      match rest.dropWhile isNewline with
      | [] => .ok (out ++ quantumBytes dbuf dbuf.length)
      | rest' => .error (corruptInputError (n - rest'.length))

/-- `Decode`'s loop, a character at a time: `dbuf` holds the current
quantum's values, `out` what earlier quanta decoded. -/
def decodeLoop (n : Nat) (dbuf : List Nat) (out : Bytes) : Bytes → Result Bytes
  | [] =>
    if dbuf.length = 0 then .ok out else .error (corruptInputError (n - dbuf.length))
  | c :: rest =>
    match decodeMap c with
    | some v =>
      if dbuf.length = 3 then decodeLoop n [] (out ++ quantumBytes (dbuf ++ [v]) 4) rest
      else decodeLoop n (dbuf ++ [v]) out rest
    | none =>
      if isNewline c then decodeLoop n dbuf out rest
      else if c ≠ padChar then .error (corruptInputError (n - rest.length - 1))
      else padded n dbuf out rest

/-- `DecodeString`, with its error: the bytes it returns beside an error are
not modelled, since no caller reads them. -/
def decodeString (s : Bytes) : Result Bytes := decodeLoop s.length [] [] s

/-! ## The decoder, a character at a time

The alphabet is checked entry by entry (`decodeMap_encodeChar`); each kind of
character then has its step lemma, and a quantum's arithmetic is `omega` on
the byte values. -/

theorem toNat_lt (a : UInt8) : a.toNat < 256 := a.toNat_lt_size

theorem ofNat_eq_of_mod {x : Nat} {a : UInt8} (h : x % 256 = a.toNat) : UInt8.ofNat x = a :=
  UInt8.toNat.inj (by simpa [UInt8.toNat, UInt8.ofNat] using h)

theorem decodeMap_encodeChar (val : Nat) : decodeMap (encodeChar val) = some (val % 64) := by
  have key : ∀ i : Fin 64, decodeMap (encodeURL.getD i 0) = some i := by decide
  exact key ⟨val % 64, Nat.mod_lt _ (by decide)⟩

theorem encodeChar_ne {v w : Nat} (h : v % 64 ≠ w % 64) : encodeChar v ≠ encodeChar w :=
  fun e => h (Option.some.inj ((decodeMap_encodeChar v).symm.trans (e ▸ decodeMap_encodeChar w)))

theorem decodeMap_of_isNewline {c : UInt8} (h : isNewline c = true) : decodeMap c = none := by
  simp only [isNewline, Bool.or_eq_true, beq_iff_eq] at h
  rcases h with rfl | rfl <;> decide

@[simp] theorem decodeLoop_encodeChar (n : Nat) (dbuf : List Nat) (out : Bytes) (val : Nat)
    (rest : Bytes) :
    decodeLoop n dbuf out (encodeChar val :: rest) =
      if dbuf.length = 3 then decodeLoop n [] (out ++ quantumBytes (dbuf ++ [val % 64]) 4) rest
      else decodeLoop n (dbuf ++ [val % 64]) out rest := by
  rw [decodeLoop, decodeMap_encodeChar]

theorem decodeMap_padChar : decodeMap padChar = none := by decide

@[simp] theorem isNewline_padChar : isNewline padChar = false := by decide

@[simp] theorem decodeLoop_padChar (n : Nat) (dbuf : List Nat) (out rest : Bytes) :
    decodeLoop n dbuf out (padChar :: rest) = padded n dbuf out rest := by
  rw [decodeLoop, decodeMap_padChar]
  simp

theorem decodeLoop_newlines (n : Nat) (out nl : Bytes) (h : ∀ c ∈ nl, isNewline c = true) :
    decodeLoop n [] out nl = .ok out := by
  induction nl with
  | nil => rfl
  | cons c nl ih =>
    have hc := h c (List.mem_cons_self c nl)
    simp only [decodeLoop, decodeMap_of_isNewline hc, hc, if_true]
    exact ih fun x hx => h x (List.mem_cons_of_mem c hx)

theorem dropWhile_newlines {nl : Bytes} (h : ∀ c ∈ nl, isNewline c = true) :
    nl.dropWhile isNewline = [] := List.dropWhile_eq_nil_iff.mpr h

theorem padded_two (n v₀ v₁ : Nat) (out nl : Bytes) (h : ∀ c ∈ nl, isNewline c = true) :
    padded n [v₀, v₁] out (padChar :: nl) = .ok (out ++ quantumBytes [v₀, v₁] 2) := by
  simp [padded, List.dropWhile_cons, dropWhile_newlines h]

theorem padded_three (n v₀ v₁ v₂ : Nat) (out nl : Bytes) (h : ∀ c ∈ nl, isNewline c = true) :
    padded n [v₀, v₁, v₂] out nl = .ok (out ++ quantumBytes [v₀, v₁, v₂] 3) := by
  simp [padded, dropWhile_newlines h]

theorem quantumBytes_full (a b c : UInt8) :
    let val := a.toNat * 65536 + b.toNat * 256 + c.toNat
    quantumBytes [val / 262144 % 64, val / 4096 % 64, val / 64 % 64, val % 64] 4 = [a, b, c] := by
  have := toNat_lt a; have := toNat_lt b; have := toNat_lt c
  simp only [quantumBytes, List.getD_cons_succ, List.getD_cons_zero, List.map, Nat.add_one_sub_one,
    List.take_succ_cons, List.take_zero, List.cons.injEq, and_true]
  refine ⟨ofNat_eq_of_mod ?_, ofNat_eq_of_mod ?_, ofNat_eq_of_mod ?_⟩ <;> omega

theorem quantumBytes_one (a : UInt8) :
    quantumBytes [a.toNat * 65536 / 262144 % 64, a.toNat * 65536 / 4096 % 64] 2 = [a] := by
  have := toNat_lt a
  simp only [quantumBytes, List.getD_cons_succ, List.getD_cons_zero, List.getD_nil, List.map,
    List.take_succ_cons, List.take_zero, List.cons.injEq, and_true]
  exact ofNat_eq_of_mod (by omega)

/-- Two bytes in a padded quantum; the third character's last `k < 4` bits
are not data, and are not checked. -/
theorem quantumBytes_two (a b : UInt8) (k : Nat) (hk : k < 4) :
    let val := a.toNat * 65536 + b.toNat * 256
    quantumBytes [val / 262144 % 64, val / 4096 % 64, (val / 64 + k) % 64] 3 = [a, b] := by
  have := toNat_lt a; have := toNat_lt b
  simp only [quantumBytes, List.getD_cons_succ, List.getD_cons_zero, List.getD_nil, List.map,
    List.take_succ_cons, List.take_zero, List.cons.injEq, and_true]
  exact ⟨ofNat_eq_of_mod (by omega), ofNat_eq_of_mod (by omega)⟩

theorem decodeLoop_quantum (n : Nat) (out rest : Bytes) (a b c : UInt8) :
    let val := a.toNat * 65536 + b.toNat * 256 + c.toNat
    decodeLoop n [] out ([encodeChar (val / 262144), encodeChar (val / 4096), encodeChar (val / 64),
      encodeChar val] ++ rest) = decodeLoop n [] (out ++ [a, b, c]) rest := by
  simp [quantumBytes_full]

/-! ## Round trip, and what else decodes the same -/

theorem decodeLoop_encodeToString (n : Nat) (m : Bytes) :
    ∀ (out nl : Bytes), (∀ c ∈ nl, isNewline c = true) →
      decodeLoop n [] out (encodeToString m ++ nl) = .ok (out ++ m) := by
  induction m using encodeToString.induct with
  | case1 => intro out nl h; simpa using decodeLoop_newlines n out nl h
  | case2 a => intro out nl h; simp [encodeToString, padded_two _ _ _ _ _ h, quantumBytes_one]
  | case3 a b =>
    intro out nl h
    simpa [encodeToString, padded_three _ _ _ _ _ _ h] using quantumBytes_two a b 0 (by decide)
  | case4 a b c rest ih =>
    intro out nl h
    rw [encodeToString, List.append_assoc, decodeLoop_quantum, ih _ _ h, List.append_assoc]
    rfl

theorem decodeString_encodeToString_newlines (m nl : Bytes) (h : ∀ c ∈ nl, isNewline c = true) :
    decodeString (encodeToString m ++ nl) = .ok m := by
  simpa using decodeLoop_encodeToString _ m [] nl h

theorem decodeLoop_encodeToString_append (n : Nat) (p : Bytes) :
    ∀ (out t : Bytes), p.length % 3 = 0 →
      decodeLoop n [] out (encodeToString p ++ t) = decodeLoop n [] (out ++ p) t := by
  induction p using encodeToString.induct with
  | case1 => intro out t _; simp [encodeToString]
  | case2 a => intro _ _ h; simp at h
  | case3 a b => intro _ _ h; simp at h
  | case4 a b c rest ih =>
    intro out t h
    rw [encodeToString, List.append_assoc, decodeLoop_quantum, ih _ _ (by simp at h; omega),
      List.append_assoc]
    rfl

theorem encodeToString_append (p q : Bytes) (hp : p.length % 3 = 0) :
    encodeToString (p ++ q) = encodeToString p ++ encodeToString q := by
  induction p using encodeToString.induct with
  | case1 => rfl
  | case2 a => simp at hp
  | case3 a b => simp at hp
  | case4 a b c rest ih =>
    rw [List.cons_append, List.cons_append, List.cons_append, encodeToString, encodeToString,
      ih (by simp at hp; omega), List.append_assoc]

/-- A padded two-byte quantum decodes the same with its third character
moved up by `k < 4`: a different string, the same bytes. -/
theorem decodeString_lastBits (p : Bytes) (hp : p.length % 3 = 0) (a b : UInt8) (k : Nat)
    (hk : k < 4) :
    let val := a.toNat * 65536 + b.toNat * 256
    decodeString (encodeToString p ++
      [encodeChar (val / 262144), encodeChar (val / 4096), encodeChar (val / 64 + k), padChar]) =
      .ok (p ++ [a, b]) := by
  intro val
  rw [decodeString, decodeLoop_encodeToString_append _ _ _ _ hp]
  simp [padded_three _ _ _ _ _ [] (by simp), quantumBytes_two a b k hk]

end Base64

end Gocryptfs
