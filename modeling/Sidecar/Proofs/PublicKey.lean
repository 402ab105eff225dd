import Sidecar.Proofs.Bytes
import Sidecar.Proofs.Outcome
import Sidecar.Proofs.Rsa

/-!
# Sidecar.Proofs.PublicKey

What a signature has to be, and that a hash and a signature determine each
other under a key.

* `accepts_iff` — acceptance is an equation between the signature's power and
  the padded block;
* `classify_iff` — a wrong signature is a mismatch, and a computation that goes wrong is not
  taken for one;
* `accepts_iff_of_accepts` — an accepted signature is one of its hash only;
* `verify_strict` — under a key of any size, nothing but the whole padded block of
  the hash passes, and all else is a mismatch;
* `eq_of_accepts` — a hash has one accepted signature, if taking powers loses
  nothing;
* `accepts_sign` — what the private exponent makes is accepted.
-/

namespace Sidecar.PublicKey

/-! ## The padded block -/

@[simp] theorem length_paddedBlock (d : Sha256.Digest) :
    (paddedBlock d).length = signatureLength := by
  have hinfo : digestInfo.length = 19 := rfl
  simp only [paddedBlock, List.length_cons, List.length_append, List.length_replicate,
    d.length_bytes, hinfo, signatureLength]

/-- The block byte by byte. -/
theorem paddedBlock_eq (d : Sha256.Digest) :
    paddedBlock d = [0x00, 0x01] ++ List.replicate 458 0xFF ++ [0x00] ++ digestInfo ++ d.bytes := by
  have hpadding : signatureLength - 3 - digestInfo.length - 32 = 458 := rfl
  simp only [paddedBlock, hpadding, List.append_assoc, List.cons_append, List.nil_append]

/-- The block starts with a zero byte, so its number has fewer bytes than a signature. -/
theorem natOfBytes_paddedBlock_lt (d : Sha256.Digest) :
    natOfBytes (paddedBlock d) < 256 ^ (signatureLength - 1) := by
  have hcons : paddedBlock d = 0 :: (paddedBlock d).tail := rfl
  have htail : (paddedBlock d).tail.length = signatureLength - 1 := by
    rw [List.length_tail, length_paddedBlock]
  rw [hcons, natOfBytes_zero_cons, ← htail]
  exact natOfBytes_lt _

/-- The block holds the whole hash. -/
theorem paddedBlock_inj {d d' : Sha256.Digest} : paddedBlock d = paddedBlock d' ↔ d = d' := by
  constructor
  · intro h
    cases d
    cases d'
    simpa only [paddedBlock, List.cons.injEq, List.append_cancel_left_eq, true_and,
      Sha256.Digest.mk.injEq] using h
  · intro h
    rw [h]

/-! ## Acceptance -/

/-- Acceptance is stated about the power itself, however it is computed. -/
theorem accepts_iff {key : PublicKey} {d : Sha256.Digest} {s : Signature} :
    key.accepts d s = true ↔
      key.size = signatureLength ∧ s.toNat < key.modulus ∧
        bytesOfNat signatureLength (s.toNat ^ key.exponent % key.modulus) = paddedBlock d := by
  simp only [accepts, powMod_eq, Bool.and_eq_true, beq_iff_eq, decide_eq_true_eq, and_assoc]

/-- Whatever the check of a signature answers, a refused signature alone is read as
tampering, and a check that goes wrong is reported with its reason. -/
theorem classify_iff (answer : Except RsaFault Unit) :
    (classify answer = .ok () ↔ answer = .ok ()) ∧
      (classify answer = .error .signatureMismatch ↔ answer = .error .verification) ∧
        ∀ reason,
          classify answer = .error (.crypto reason) ↔ answer = .error (.internal reason) := by
  cases answer with
  | ok => simp [classify]
  | error fault => cases fault <;> simp [classify, RsaFault.failure]

/-- A signature passes exactly if the key accepts it. -/
theorem verify_eq_ok_iff {key : PublicKey} {d : Sha256.Digest} {s : Signature} :
    key.verify d s = .ok () ↔ key.accepts d s = true := by
  rw [verify, (classify_iff _).1, checkSignature]
  split <;> simp [*]

/-- All that is wrong with a signature is the same fault, and that is a mismatch. -/
theorem verify_of_not_accepts {key : PublicKey} {d : Sha256.Digest} {s : Signature}
    (h : ¬ key.accepts d s = true) : key.verify d s = .error .signatureMismatch := by
  rw [verify, (classify_iff _).2.1, checkSignature, if_neg h]

/-- The check itself never goes wrong: it finds no fault but the signature's. -/
theorem verify_eq (key : PublicKey) (d : Sha256.Digest) (s : Signature) :
    key.verify d s = if key.accepts d s = true then .ok () else .error .signatureMismatch := by
  split
  · next h => exact verify_eq_ok_iff.mpr h
  · next h => exact verify_of_not_accepts h

/-- A key of full size has a modulus of 512 bytes. -/
theorem size_eq_signatureLength_iff {key : PublicKey} :
    key.size = signatureLength ↔
      256 ^ (signatureLength - 1) ≤ key.modulus ∧ key.modulus < 256 ^ signatureLength :=
  byteLength_eq_iff (by decide)

/-- **One hash for a signature**: an accepted signature is accepted for its own
hash and for no other. -/
theorem accepts_iff_of_accepts {key : PublicKey} {d : Sha256.Digest} {s : Signature}
    (h : key.accepts d s = true) (d' : Sha256.Digest) : key.accepts d' s = true ↔ d' = d := by
  rw [accepts_iff] at h ⊢
  obtain ⟨hsize, hlt, hblock⟩ := h
  rw [hblock, paddedBlock_inj]
  constructor
  · rintro ⟨-, -, hd⟩
    exact hd.symm
  · intro hd
    exact ⟨hsize, hlt, hd.symm⟩

/-! ## Strictness -/

/-- Padding ends at the first byte that is not one of its own. -/
theorem replicate_append_cons_inj {a b : UInt8} (hab : a ≠ b) {m n : Nat} {xs ys : List UInt8} :
    List.replicate m a ++ b :: xs = List.replicate n a ++ b :: ys ↔ m = n ∧ xs = ys := by
  induction m generalizing n with
  | zero => cases n <;> simp [List.replicate_succ, hab.symm]
  | succ m ih => cases n <;> simp [List.replicate_succ, hab, ih]

/-- A block that looks like a padded one is the padded block only with all its padding
and with nothing but the header and the hash after it. -/
theorem eq_paddedBlock_iff {d : Sha256.Digest} {padding : Nat} {rest : List UInt8} :
    [0x00, 0x01] ++ List.replicate padding 0xFF ++ [0x00] ++ rest = paddedBlock d ↔
      padding = 458 ∧ rest = digestInfo ++ d.bytes := by
  rw [paddedBlock_eq]
  simp only [List.append_assoc, List.cons_append, List.nil_append, List.cons.injEq, true_and]
  rw [replicate_append_cons_inj (by decide)]

/-- **Strictness**: under a key of any size, a signature is accepted exactly if the
modulus has 512 bytes, the signature's number is below it, and that number's power
is the whole padded block of the hash; all others are a mismatch and no failure of
another kind. So a signature is one of at most one hash, and none opens to a block
with less padding, another header, or more after the header than the hash. -/
theorem verify_strict (n e : Nat) (d : Sha256.Digest) (s : Signature) :
    let opened := bytesOfNat 512 (natOfBytes s.bytes ^ e % n)
    (verify ⟨n, e⟩ d s = .ok () ↔
      (256 ^ 511 ≤ n ∧ n < 256 ^ 512) ∧ natOfBytes s.bytes < n ∧
        opened = [0x00, 0x01] ++ List.replicate 458 0xFF ++ [0x00] ++
          [0x30, 0x31, 0x30, 0x0d, 0x06, 0x09, 0x60, 0x86, 0x48, 0x01, 0x65, 0x03, 0x04, 0x02,
            0x01, 0x05, 0x00, 0x04, 0x20] ++ d.bytes) ∧
    (verify ⟨n, e⟩ d s ≠ .ok () → verify ⟨n, e⟩ d s = .error .signatureMismatch) ∧
    (verify ⟨n, e⟩ d s = .ok () →
      (∀ d', verify ⟨n, e⟩ d' s = .ok () → d' = d) ∧
      ∀ padding rest, opened = [0x00, 0x01] ++ List.replicate padding 0xFF ++ [0x00] ++ rest →
        padding = 458 ∧ rest = digestInfo ++ d.bytes) := by
  intro opened
  refine ⟨?_, ?_, ?_⟩
  · rw [verify_eq_ok_iff, accepts_iff, size_eq_signatureLength_iff, paddedBlock_eq]
    simp only [signatureLength, Nat.reduceSub, Signature.toNat, digestInfo, opened]
  · rw [ne_eq, verify_eq_ok_iff]
    exact verify_of_not_accepts
  · intro h
    have haccepts := verify_eq_ok_iff.mp h
    constructor
    · intro d' h'
      exact (accepts_iff_of_accepts haccepts d').mp (verify_eq_ok_iff.mp h')
    · intro padding rest hopened
      rw [← eq_paddedBlock_iff, ← hopened]
      exact (accepts_iff.mp haccepts).2.2

section TwoPrimes

variable {p q e : ℕ}

/-- **One signature for a hash**: two accepted signatures of a hash are the same,
if the exponent has an inverse. -/
theorem eq_of_accepts (hp : p.Prime) (hq : q.Prime) (hpq : p ≠ q)
    (he : e.Coprime ((p - 1) * (q - 1))) {d : Sha256.Digest} {s s' : Signature}
    (h : PublicKey.accepts ⟨p * q, e⟩ d s = true) (h' : PublicKey.accepts ⟨p * q, e⟩ d s' = true) :
    s = s' := by
  rw [accepts_iff] at h h'
  obtain ⟨hsize, hlt, hblock⟩ := h
  obtain ⟨-, hlt', hblock'⟩ := h'
  have hmodulus : p * q < 256 ^ signatureLength := (size_eq_signatureLength_iff.mp hsize).2
  have hpos : 0 < p * q := Nat.mul_pos hp.pos hq.pos
  have hpower : s.toNat ^ e % (p * q) = s'.toNat ^ e % (p * q) :=
    eq_of_bytesOfNat_eq (lt_trans (Nat.mod_lt _ hpos) hmodulus)
      (lt_trans (Nat.mod_lt _ hpos) hmodulus) (hblock.trans hblock'.symm)
  have hnumber : s.toNat = s'.toNat := eq_of_pow_mod_eq hp hq hpq he hlt hlt' hpower
  have hbytes : s.bytes = s'.bytes :=
    eq_of_natOfBytes_eq (s.length_bytes.trans s'.length_bytes.symm) hnumber
  cases s
  cases s'
  simpa only [Signature.mk.injEq] using hbytes

/-! ## Signing -/

/-- The signature of a hash under a private exponent: the padded block's power,
in as many bytes as a signature has. -/
def sign (modulus exponent : ℕ) (d : Sha256.Digest) : Signature where
  bytes := bytesOfNat signatureLength (natOfBytes (paddedBlock d) ^ exponent % modulus)
  length_bytes := length_bytesOfNat _ _

/-- **Signatures are accepted**: the public exponent undoes the private one. -/
theorem accepts_sign (hp : p.Prime) (hq : q.Prime) (hpq : p ≠ q) {d : ℕ}
    (hed : e * d ≡ 1 [MOD Nat.lcm (p - 1) (q - 1)])
    (hsize : PublicKey.size ⟨p * q, e⟩ = signatureLength) (digest : Sha256.Digest) :
    PublicKey.accepts ⟨p * q, e⟩ digest (sign (p * q) d digest) = true := by
  obtain ⟨hle, hlt⟩ := size_eq_signatureLength_iff.mp hsize
  have hpos : 0 < p * q := Nat.mul_pos hp.pos hq.pos
  have hpower : natOfBytes (paddedBlock digest) ^ d % (p * q) < p * q := Nat.mod_lt _ hpos
  have hnumber : (sign (p * q) d digest).toNat =
      natOfBytes (paddedBlock digest) ^ d % (p * q) := by
    rw [Signature.toNat, sign, natOfBytes_bytesOfNat, Nat.mod_eq_of_lt (lt_trans hpower hlt)]
  have hblock : natOfBytes (paddedBlock digest) < p * q :=
    lt_of_lt_of_le (natOfBytes_paddedBlock_lt digest) hle
  rw [accepts_iff, hnumber, pow_mod_pow_mod hp hq hpq hed hblock]
  refine ⟨hsize, hpower, ?_⟩
  rw [← length_paddedBlock digest, bytesOfNat_natOfBytes]

end TwoPrimes

end Sidecar.PublicKey
