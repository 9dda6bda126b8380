import Gocryptfs.Basic
/-!
# `Gocryptfs.Cryptocore.AEAD` — the AEAD the crypto core hands out

`cipher.AEAD` as the code calls it: `Seal` and `Open`, with the `dst`
prefix left out.  Nothing is assumed of it in the definitions.  Where a
theorem needs it to work, it assumes `AEAD.Correct` — `Open` undoes `Seal`
under the same nonce and data, and the tag has the fixed length
`authTagLen` — which is the contract of `cipher.AEAD` the callers rely on.

`AEAD.zeroTag` is a stand-in for concrete runs: it is `Correct` and ignores
its nonce.
-/

namespace Gocryptfs

/-- Modelled from the spec: `cryptocore.AuthTagLen`, the GCM tag length in
bytes (cryptocore is not under `src/`). -/
def authTagLen : Nat := 16

/-- A Go `cipher.AEAD`, with the `dst` prefix left out:
`Seal nonce plaintext additionalData` and `Open nonce ciphertext additionalData`. -/
structure AEAD where
  Seal : Bytes → Bytes → Bytes → Bytes
  Open : Bytes → Bytes → Bytes → Result Bytes

/-- The contract of `cipher.AEAD` that its callers rely on. -/
structure AEAD.Correct (a : AEAD) : Prop where
  open_seal : ∀ nonce p ad, a.Open nonce (a.Seal nonce p ad) ad = .ok p
  length_seal : ∀ nonce p ad, (a.Seal nonce p ad).length = p.length + authTagLen

/-- A stand-in for AES-GCM in concrete runs: the tag is sixteen zero bytes,
and `Open` fails with GCM's message when it does not verify.  It is
`Correct`, so it instantiates the theorems that assume only that. -/
def AEAD.zeroTag : AEAD where
  Seal _ p _ := p ++ List.replicate authTagLen 0
  Open _ c _ :=
    if authTagLen ≤ c.length ∧ c.drop (c.length - authTagLen) = List.replicate authTagLen 0
    then .ok (c.take (c.length - authTagLen))
    else .error "cipher: message authentication failed"

theorem AEAD.zeroTag_correct : AEAD.zeroTag.Correct where
  open_seal _ p _ := by simp [AEAD.zeroTag]
  length_seal _ p _ := by simp [AEAD.zeroTag]

/-- The AEAD rejects what it sealed under a nonce of length `k` when it is
opened under any other nonce of that length. -/
def AEAD.NonceBinding (a : AEAD) (k : Nat) : Prop :=
  ∀ n n' p ad, n.length = k → n'.length = k → n ≠ n' → ∃ e, a.Open n' (a.Seal n p ad) ad = .error e

/-- A stand-in for AES-GCM that binds its nonce: the tag is the nonce, padded
or cut to sixteen bytes. -/
def AEAD.nonceTag : AEAD where
  Seal n p _ := p ++ (n ++ List.replicate authTagLen 0).take authTagLen
  Open n c _ :=
    if authTagLen ≤ c.length ∧
        c.drop (c.length - authTagLen) = (n ++ List.replicate authTagLen 0).take authTagLen
    then .ok (c.take (c.length - authTagLen))
    else .error "cipher: message authentication failed"

theorem AEAD.nonceTag_correct : AEAD.nonceTag.Correct where
  open_seal _ p _ := by simp [AEAD.nonceTag, authTagLen]
  length_seal _ p _ := by simp [AEAD.nonceTag, authTagLen]

theorem AEAD.nonceTag_binding {k : Nat} (hk : k ≤ authTagLen) : AEAD.nonceTag.NonceBinding k := by
  intro n n' p ad hn hn' hne
  refine ⟨"cipher: message authentication failed", if_neg fun h => hne ?_⟩
  have ht := congrArg (List.take k) h.2
  simp only [AEAD.nonceTag, List.length_append, List.length_take, List.length_append,
    List.length_replicate] at ht
  have h16 : n.take authTagLen = n'.take authTagLen := by
    simpa [List.drop_left', List.take_take, hn, hn', hk, List.take_append_eq_append_take] using ht
  rwa [List.take_of_length_le (hn ▸ hk), List.take_of_length_le (hn' ▸ hk)] at h16

/-- The fields of `cryptocore.CryptoCore` the codec reads. -/
structure CryptoCore where
  ivLen : Nat
  aeadCipher : AEAD

end Gocryptfs
