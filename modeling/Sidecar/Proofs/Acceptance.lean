import Sidecar.Proofs.Verifier

/-!
# Sidecar.Proofs.Acceptance

When a check passes, for every opener, every key resource and every path: the
condition names the key's numbers, the two files' contents and one equation
between a power and a block of bytes, and none of the functions that a check
runs to find out.
-/

namespace Sidecar

/-- **Acceptance**: a check passes exactly if the key's text is short enough and
spells a modulus `n` of 512 bytes and an exponent `e`, the file can be read, its
signature file holds 512 bytes whose number is below `n`, and that number's
`e`-th power modulo `n` is the whole padded block of the file's hash. -/
theorem check_passes_iff (opener : Opener) (key : KeyResource) (path : Path) :
    (check opener key path).result = .ok () ↔
      ∃ n e content sidecar signature,
        key.bytes.length ≤ 800 ∧ key.materialize = .ok ⟨n, e⟩ ∧
        256 ^ 511 ≤ n ∧ n < 256 ^ 512 ∧
        opener path = .ok (.file content) ∧
        path.fileName? ≠ none ∧ path.signaturePath = .ok sidecar ∧
        opener sidecar = .ok (.file signature) ∧ signature.length = 512 ∧
        natOfBytes signature < n ∧
        bytesOfNat 512 (natOfBytes signature ^ e % n) =
          [0x00, 0x01] ++ List.replicate 458 0xFF ++ [0x00] ++
            [0x30, 0x31, 0x30, 0x0d, 0x06, 0x09, 0x60, 0x86, 0x48, 0x01, 0x65, 0x03, 0x04, 0x02,
              0x01, 0x05, 0x00, 0x04, 0x20] ++
            (Sha256.digest content).bytes := by
  rw [check_eq_ok_iff]
  constructor
  · rintro ⟨⟨n, e⟩, content, sidecar, ⟨signature, hlength⟩, hkey, hcontent, hsidecar, hsignature,
      haccepts⟩
    obtain ⟨hsize, hmaterialize⟩ := KeyResource.usableKey_eq_ok_iff.mp hkey
    obtain ⟨name, hname, -⟩ := Path.signaturePath_eq_ok_iff.mp hsidecar
    obtain ⟨hmodulus, hlt, hblock⟩ := PublicKey.accepts_iff.mp haccepts
    obtain ⟨hle, hlt'⟩ := PublicKey.size_eq_signatureLength_iff.mp hmodulus
    simp only [signatureLength, Nat.reduceSub] at hle hlt'
    rw [PublicKey.paddedBlock_eq] at hblock
    exact ⟨n, e, content, sidecar, signature, hsize, hmaterialize, hle, hlt', hcontent,
      by simp [hname], hsidecar, hsignature, hlength, hlt, hblock⟩
  · rintro ⟨n, e, content, sidecar, signature, hsize, hmaterialize, hle, hlt', hcontent, -, hsidecar,
      hsignature, hlength, hlt, hblock⟩
    have hkey := KeyResource.usableKey_eq_ok_iff.mpr ⟨hsize, hmaterialize⟩
    have hmodulus := KeyResource.size_of_materialize hmaterialize
    refine ⟨⟨n, e⟩, content, sidecar, ⟨signature, hlength⟩, hkey, hcontent, hsidecar, hsignature, ?_⟩
    rw [PublicKey.accepts_iff, PublicKey.paddedBlock_eq]
    exact ⟨hmodulus, hlt, hblock⟩

end Sidecar
