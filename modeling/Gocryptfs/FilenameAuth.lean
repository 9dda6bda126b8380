import Gocryptfs.Base64
import Mathlib.Data.List.GetD
/-!
# `Gocryptfs.FilenameAuth` — the MAC suffix of an authenticated file name

`internal/filenameauth`.  `AuthenticateFilename` appends `.` and the
URL-safe base64 of an HMAC-SHA256 of the encrypted name; `VerifyFilename`
splits at the last `.`, decodes the suffix and compares the MAC.

The HMAC is a field, `calculateMAC`, and nothing is assumed of it: the key
derivation (`New`, HKDF) and SHA-256 are not modelled, and every theorem
holds for every MAC function.  Names are Go strings, that is bytes.

Verification is sound in one direction: a name built by
`AuthenticateFilename` verifies to the name it was built from, for every MAC
function and every name, dots included.  It does not pin the string down,
because `DecodeString` accepts more than `EncodeToString` produces: a newline
after the suffix, and for a 32-byte MAC a last data character moved within
its unused bits, give other strings that verify to the same name.
-/

namespace Gocryptfs

/-- `FilenameAuthMACLen`: the bytes of an HMAC-SHA256. -/
def filenameAuthMACLen : Nat := 32

/-- `FilenameAuthSeparator`, `"."`. -/
def filenameAuthSeparator : UInt8 := 46

/-- `FilenameAuth`: whether it is on, and `calculateMAC`, HMAC-SHA256 under
the key `New` derives. -/
structure FilenameAuth where
  enabled : Bool
  calculateMAC : Bytes → Bytes

/-- The loop of `splitAuthenticatedName`, `for i := len - 1; i >= 0; i--`,
from `i = k - 1` down: the last separator before position `k`. -/
def findLastSep (s : Bytes) : Nat → Option Nat
  | 0 => none
  | k + 1 => if s.getD k 0 = filenameAuthSeparator then some k else findLastSep s k

/-- `splitAuthenticatedName`: the name before the last separator and the
suffix after it, or the whole name if there is no separator. -/
def splitAuthenticatedName (authenticatedName : Bytes) : List Bytes :=
  match findLastSep authenticatedName authenticatedName.length with
  | none => [authenticatedName]
  | some lastSep => [authenticatedName.take lastSep, authenticatedName.drop (lastSep + 1)]

/-- `hmac.Equal`: the same length and the same bytes. -/
def hmacEqual (mac1 mac2 : Bytes) : Bool := mac1 == mac2

namespace FilenameAuth

/-- `AuthenticateFilename`. -/
def authenticateFilename (fa : FilenameAuth) (encryptedName : Bytes) : Result Bytes :=
  if !fa.enabled then .ok encryptedName
  else
    .ok (encryptedName ++ [filenameAuthSeparator] ++
      Base64.encodeToString (fa.calculateMAC encryptedName))

/-- `VerifyFilename`. -/
def verifyFilename (fa : FilenameAuth) (authenticatedName : Bytes) : Result Bytes :=
  if !fa.enabled then .ok authenticatedName
  else
    match splitAuthenticatedName authenticatedName with
    | [encryptedName, macB64] =>
      match Base64.decodeString macB64 with
      | .ok mac =>
        if !hmacEqual mac (fa.calculateMAC encryptedName) then
          .error "filename authentication failed: MAC mismatch"
        else .ok encryptedName
      | .error err => .error ("failed to decode MAC: " ++ err)
      | .panic => .panic
    | _ => .error "invalid authenticated filename format"

end FilenameAuth

/-! ## Splitting at the last separator

The suffix `AuthenticateFilename` appends never holds a separator, so the
split finds the one it put there, whatever separators the name holds. -/

theorem findLastSep_append (n t : Bytes) (ht : filenameAuthSeparator ∉ t) :
    ∀ j ≤ t.length, findLastSep (n ++ filenameAuthSeparator :: t) (n.length + 1 + j) =
      some n.length := by
  intro j hj
  induction j with
  | zero =>
    rw [Nat.add_zero, findLastSep, if_pos (by
      rw [List.getD_append_right _ _ _ _ le_rfl, Nat.sub_self, List.getD_cons_zero])]
  | succ j ih =>
    have hne : (n ++ filenameAuthSeparator :: t).getD (n.length + 1 + j) 0 ≠
        filenameAuthSeparator := by
      rw [List.getD_append_right _ _ _ _ (by omega), show n.length + 1 + j - n.length = j + 1 by omega,
        List.getD_cons_succ, List.getD_eq_getElem _ _ (by omega)]
      exact fun h => ht (h ▸ List.getElem_mem _)
    rw [← Nat.add_assoc, findLastSep, if_neg hne, ih (by omega)]

theorem splitAuthenticatedName_append (n t : Bytes) (ht : filenameAuthSeparator ∉ t) :
    splitAuthenticatedName (n ++ filenameAuthSeparator :: t) = [n, t] := by
  rw [splitAuthenticatedName, show (n ++ filenameAuthSeparator :: t).length = n.length + 1 + t.length
    by simp; omega, findLastSep_append n t ht t.length le_rfl]
  simp

@[simp] theorem separator_ne_encodeChar (v : Nat) : filenameAuthSeparator ≠ Base64.encodeChar v :=
  fun h => by
    have := Base64.decodeMap_encodeChar v
    rw [← h, show Base64.decodeMap filenameAuthSeparator = none by decide] at this
    exact Option.noConfusion this

@[simp] theorem separator_ne_padChar : filenameAuthSeparator ≠ Base64.padChar := by decide

theorem separator_not_mem_encodeToString (m : Bytes) :
    filenameAuthSeparator ∉ Base64.encodeToString m := by
  induction m using Base64.encodeToString.induct with
  | case4 _ _ _ _ ih => simp [Base64.encodeToString, ih]
  | _ => simp [Base64.encodeToString]

namespace FilenameAuth

theorem verifyFilename_suffix (fa : FilenameAuth) (hen : fa.enabled = true) (n nl : Bytes)
    (hnl : ∀ c ∈ nl, Base64.isNewline c = true) :
    fa.verifyFilename (n ++ [filenameAuthSeparator] ++
      (Base64.encodeToString (fa.calculateMAC n) ++ nl)) = .ok n := by
  have hsep : filenameAuthSeparator ∉ Base64.encodeToString (fa.calculateMAC n) ++ nl := by
    simp only [List.mem_append, not_or]
    exact ⟨separator_not_mem_encodeToString _, fun h => absurd (hnl _ h) (by decide)⟩
  simp [verifyFilename, hen, splitAuthenticatedName_append _ _ hsep,
    Base64.decodeString_encodeToString_newlines _ _ hnl, hmacEqual]

/-- What `AuthenticateFilename` builds verifies to the name it was built from. -/
theorem verifyFilename_authenticateFilename (fa : FilenameAuth) (n : Bytes) :
    (fa.authenticateFilename n >>= fa.verifyFilename) = .ok n := by
  cases hen : fa.enabled
  · simp [authenticateFilename, verifyFilename, hen]
  · simpa [authenticateFilename, hen] using verifyFilename_suffix fa hen n [] (by simp)

/-- For a MAC whose last quantum holds two bytes, as a 32-byte HMAC's does,
the authenticated name with its last data character moved up one place in
the alphabet is a different string that verifies to the same name. -/
theorem verifyFilename_lastBits (fa : FilenameAuth) (hen : fa.enabled = true) (n p : Bytes)
    (a b : UInt8) (hp : p.length % 3 = 0) (hmac : fa.calculateMAC n = p ++ [a, b]) :
    (let val := a.toNat * 65536 + b.toNat * 256
    let e₀ := Base64.encodeChar (val / 262144)
    let e₁ := Base64.encodeChar (val / 4096)
    fa.authenticateFilename n = .ok (n ++ [filenameAuthSeparator] ++
        (Base64.encodeToString p ++ [e₀, e₁, Base64.encodeChar (val / 64), Base64.padChar])) ∧
      Base64.encodeChar (val / 64 + 1) ≠ Base64.encodeChar (val / 64) ∧
      fa.verifyFilename (n ++ [filenameAuthSeparator] ++
        (Base64.encodeToString p ++ [e₀, e₁, Base64.encodeChar (val / 64 + 1), Base64.padChar])) =
        .ok n) := by
  intro val e₀ e₁
  have hb := Base64.toNat_lt b
  refine ⟨by simp [authenticateFilename, hen, hmac, Base64.encodeToString_append _ _ hp,
    Base64.encodeToString], Base64.encodeChar_ne (by omega), ?_⟩
  have hsep : filenameAuthSeparator ∉
      Base64.encodeToString p ++ [e₀, e₁, Base64.encodeChar (val / 64 + 1), Base64.padChar] := by
    simp [e₀, e₁, separator_not_mem_encodeToString]
  simp [verifyFilename, hen, splitAuthenticatedName_append _ _ hsep,
    Base64.decodeString_lastBits p hp a b 1 (by decide), hmacEqual, hmac]

theorem verifyFilename_lastBits_zeroMAC :
    (let val := (0 : UInt8).toNat * 65536 + (0 : UInt8).toNat * 256
    let e₀ := Base64.encodeChar (val / 262144)
    let e₁ := Base64.encodeChar (val / 4096)
    (⟨true, fun _ => [0, 0]⟩ : FilenameAuth).authenticateFilename [97] = .ok ([97] ++
        [filenameAuthSeparator] ++
        (Base64.encodeToString [] ++ [e₀, e₁, Base64.encodeChar (val / 64), Base64.padChar])) ∧
      Base64.encodeChar (val / 64 + 1) ≠ Base64.encodeChar (val / 64) ∧
      (⟨true, fun _ => [0, 0]⟩ : FilenameAuth).verifyFilename ([97] ++ [filenameAuthSeparator] ++
        (Base64.encodeToString [] ++ [e₀, e₁, Base64.encodeChar (val / 64 + 1), Base64.padChar])) =
        .ok [97]) :=
  verifyFilename_lastBits ⟨true, fun _ => [0, 0]⟩ rfl [97] [] 0 0 rfl rfl

end FilenameAuth

/-- With authentication on, for every MAC function and every name: the
authenticated name with a newline appended is another string that verifies to
the same name. -/
theorem verifyFilename_accepts_trailing_newline (calculateMAC : Bytes → Bytes) (n : Bytes) :
    let fa : FilenameAuth := ⟨true, calculateMAC⟩
    ∃ a, fa.authenticateFilename n = .ok a ∧ a ++ [10] ≠ a ∧ fa.verifyFilename (a ++ [10]) = .ok n :=
  ⟨_, rfl, by simp, by
    simpa using FilenameAuth.verifyFilename_suffix ⟨true, calculateMAC⟩ rfl n [10] (by decide)⟩

end Gocryptfs
