import Mathlib.Tactic.NormNum.Prime
import Sidecar.Proofs.Verifier

/-!
# Sidecar.Proofs.Signing

A signed file verifies: raising the padded block of a file's hash to the private
exponent makes the bytes that the file's signature has to be, for every key
pair, every content and every place of the two files.

`ExampleKey` is a key pair to apply such statements to, with a directory of two
files that share a signature file. Its primes have the form `k * 2 ^ m + 1` with a
small prime `k`, which makes a short proof that they are primes
(`PublicKey.prime_of_powMod`).
-/

namespace Sidecar

/-! ## A key pair -/

namespace ExampleKey

def p : ℕ := 19 * 2 ^ 2038 + 1

def q : ℕ := 2237 * 2 ^ 2039 + 1

/-- The inverse of three modulo `lcm (p - 1) (q - 1)`. -/
def d : ℕ := (2 * Nat.lcm (p - 1) (q - 1) + 1) / 3

/-- The text of the public key `⟨p * q, 3⟩`. -/
def resource : KeyResource := ⟨Text.Utf8.encode (PublicKey.toInfoText ⟨p * q, 3⟩)⟩

/-- A power of three shows that `p` is prime. -/
theorem prime_p : p.Prime :=
  PublicKey.prime_of_powMod 3 (by norm_num) (by decide +kernel) (by decide +kernel)
    (by decide +kernel)

theorem prime_q : q.Prime :=
  PublicKey.prime_of_powMod 3 (by norm_num) (by decide +kernel) (by decide +kernel)
    (by decide +kernel)

theorem p_ne_q : p ≠ q := by
  have hpos := Nat.two_pow_pos 2038
  rw [p, q, Nat.pow_succ]
  omega

/-- `d` is the private exponent to the public exponent three. -/
theorem three_mul_d : 3 * d ≡ 1 [MOD Nat.lcm (p - 1) (q - 1)] := by decide +kernel

/-- Three is an exponent that can be undone under this modulus. -/
theorem coprime_three : Nat.Coprime 3 ((p - 1) * (q - 1)) := by
  have h (k m : ℕ) (hk : Nat.Coprime 3 k) : Nat.Coprime 3 (k * 2 ^ m) :=
    hk.mul_right (Nat.Coprime.pow_right m (by decide))
  rw [p, q, Nat.add_sub_cancel, Nat.add_sub_cancel]
  exact (h 19 2038 (by decide)).mul_right (h 2237 2039 (by decide))

/-- The text of the key is a usable key resource: its bytes are evaluated from end to end. -/
theorem usableKey_resource : resource.usableKey = .ok ⟨p * q, 3⟩ := by decide +kernel

/-- Its text is within the maximum. -/
theorem size_resource : resource.size ≤ 800 :=
  (KeyResource.usableKey_eq_ok_iff.mp usableKey_resource).1

/-- The key comes out of its text. -/
theorem materialize_resource : resource.materialize = .ok ⟨p * q, 3⟩ :=
  (KeyResource.usableKey_eq_ok_iff.mp usableKey_resource).2

/-! The files `tool` and `tool.bin` share the signature file `signatures/tool.sig`. -/

def tool : Path := ⟨ascii "tool"⟩

def toolBin : Path := ⟨ascii "tool.bin"⟩

def sidecar : Path := ⟨ascii "signatures/tool.sig"⟩

/-- Both files have their signature in one place. -/
theorem signaturePath_tool : tool.signaturePath = .ok sidecar := rfl

theorem signaturePath_toolBin : toolBin.signaturePath = .ok sidecar := rfl

/-- The signature of a content. -/
def signed (content : List UInt8) : List UInt8 :=
  bytesOfNat 512
    (natOfBytes ([0x00, 0x01] ++ List.replicate 458 0xFF ++ [0x00] ++ PublicKey.digestInfo ++
      (Sha256.digest content).bytes) ^ d % (p * q))

/-- Its bytes are what signing under the key gives. -/
theorem signed_eq_sign (content : List UInt8) :
    signed content = (PublicKey.sign (p * q) d (Sha256.digest content)).bytes := by
  rw [signed, ← PublicKey.paddedBlock_eq]
  rfl

/-- A signature is as long as the modulus. -/
theorem length_signed (content : List UInt8) : (signed content).length = 512 :=
  length_bytesOfNat _ _

/-- Flipping a bit of a signature makes another text. -/
theorem flipped_signed_ne (content : List UInt8) :
    (signed content).modify 0 (· ^^^ 1) ≠ signed content := by
  have hlength := length_signed content
  cases hsigned : signed content with
  | nil => simp [hsigned] at hlength
  | cons b bs =>
      intro h
      rw [List.modify_zero_cons] at h
      have hzero : b ^^^ 1 = b ^^^ 0 := (List.cons.inj h).1.trans UInt8.xor_zero.symm
      rw [UInt8.xor_right_inj] at hzero
      exact absurd hzero (by decide)

/-- A directory with the three files and nothing else. -/
def files (content other signature : List UInt8) : Opener := fun path =>
  if path = tool then .ok (.file content)
  else if path = toolBin then .ok (.file other)
  else if path = sidecar then .ok (.file signature)
  else .error .notFound

variable (content other signature : List UInt8)

/-- Each of the three files is found under its own path. -/
theorem files_tool : files content other signature tool = .ok (.file content) := if_pos rfl

theorem files_toolBin : files content other signature toolBin = .ok (.file other) := by
  rw [files, if_neg (by decide), if_pos rfl]

theorem files_sidecar : files content other signature sidecar = .ok (.file signature) := by
  rw [files, if_neg (by decide), if_neg (by decide), if_pos rfl]

end ExampleKey

/-! ## Signed files -/

/-- A check of a signed file passes. -/
theorem check_signed {p q e d : ℕ} (hp : p.Prime) (hq : q.Prime) (hpq : p ≠ q)
    (hed : e * d ≡ 1 [MOD Nat.lcm (p - 1) (q - 1)]) {opener : Opener} {key : KeyResource}
    {target sidecar : Path} {content : List UInt8} (hkey : key.usableKey = .ok ⟨p * q, e⟩)
    (hcontent : opener target = .ok (.file content)) (hsidecar : target.signaturePath = .ok sidecar)
    (hsignature : opener sidecar =
      .ok (.file (PublicKey.sign (p * q) d (Sha256.digest content)).bytes)) :
    (check opener key target).result = .ok () := by
  have hsize := KeyResource.size_of_materialize (KeyResource.usableKey_eq_ok_iff.mp hkey).2
  rw [check_eq_ok_iff]
  exact ⟨_, content, sidecar, _, hkey, hcontent, hsidecar, hsignature,
    PublicKey.accepts_sign hp hq hpq hed hsize _⟩

/-- A signed `tool` passes, whatever it holds. -/
theorem ExampleKey.check_tool (content other : List UInt8) :
    (check (files content other (signed content)) resource tool).result = .ok () := by
  rw [signed_eq_sign]
  exact check_signed prime_p prime_q p_ne_q three_mul_d
    usableKey_resource (files_tool _ _ _) signaturePath_tool (files_sidecar _ _ _)

/-- **Signed files verify**: for distinct primes and exponents that undo each
other, a file verifies whose signature file holds the private power of its hash's
padded block. What else a key needs, its size among it, is in the reading of the
key's text. -/
theorem verify_signed {p q e d : ℕ} (hp : p.Prime) (hq : q.Prime) (hpq : p ≠ q)
    (hed : e * d ≡ 1 [MOD Nat.lcm (p - 1) (q - 1)]) {opener : Opener} {key : KeyResource}
    {target sidecar : Path} {content : List UInt8} (hsize : key.bytes.length ≤ 800)
    (hkey : key.materialize = .ok ⟨p * q, e⟩) (hcontent : opener target = .ok (.file content))
    (hsidecar : target.signaturePath = .ok sidecar)
    (hsignature : opener sidecar = .ok (.file (bytesOfNat 512
      (natOfBytes ([0x00, 0x01] ++ List.replicate 458 0xFF ++ [0x00] ++ PublicKey.digestInfo ++
        (Sha256.digest content).bytes) ^ d % (p * q))))) :
    (verify opener key target).2.isOk = true ∧ (verify opener key target).2.reasons = [] ∧
      (verify opener key target).2.diagnostic = "" := by
  have husable := KeyResource.usableKey_eq_ok_iff.mpr ⟨hsize, hkey⟩
  rw [← PublicKey.paddedBlock_eq] at hsignature
  rw [snd_verify, check_signed hp hq hpq hed husable hcontent hsidecar hsignature]
  exact ⟨rfl, rfl, rfl⟩

theorem verify_signed_tool :
    let opener := ExampleKey.files [0x00] [] (ExampleKey.signed [0x00])
    (verify opener ExampleKey.resource ExampleKey.tool).2.isOk = true ∧
      (verify opener ExampleKey.resource ExampleKey.tool).2.reasons = [] ∧
      (verify opener ExampleKey.resource ExampleKey.tool).2.diagnostic = "" :=
  verify_signed ExampleKey.prime_p ExampleKey.prime_q ExampleKey.p_ne_q ExampleKey.three_mul_d
    ExampleKey.size_resource ExampleKey.materialize_resource (ExampleKey.files_tool _ _ _)
    ExampleKey.signaturePath_tool (ExampleKey.files_sidecar _ _ _)

end Sidecar
