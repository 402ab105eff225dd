import Sidecar.Proofs.Handle
import Sidecar.Proofs.KeyResource
import Sidecar.Proofs.SignaturePath
import Sidecar.Verifier

/-!
# Sidecar.Proofs.Verifier

The result of a check from what its steps find. `result_check` is the chain of
the steps without their events; from it come the two views that statements
about whole checks use:

* `result_check_of_files` — what a check of files that can be read gives;
* `check_eq_ok_iff` — what stands behind a check that passes.
-/

namespace Sidecar

/-- The steps of a check, without the events on the way. -/
theorem result_check (opener : Opener) (key : KeyResource) (path : Path) :
    (check opener key path).result =
      (do
        let publicKey ← key.usableKey
        let digest ← hashFile opener path
        let sidecar ← path.signaturePath.mapError PathFault.failure
        let signature ← readSignature opener sidecar
        publicKey.verify digest signature) := by
  rw [check]
  simp only [Traced.result_bind, Traced.result_log, Traced.result_liftM, ok_bind, bind_ok_unit]

/-- A check without a key has looked at nothing. -/
theorem check_of_usableKey {key : KeyResource} {failure : Failure}
    (h : key.usableKey = .error failure) (opener : Opener) (path : Path) :
    check opener key path = ⟨[], .error failure⟩ := by
  rw [check, h]
  rfl

/-- Of a resource, what has a part in a check is the key that it gives or its failure. -/
theorem check_congr_key {key key' : KeyResource} (h : key'.usableKey = key.usableKey)
    (opener : Opener) (path : Path) : check opener key' path = check opener key path := by
  simp only [check, h]

/-- A verification is the record of its check. -/
theorem snd_verify (opener : Opener) (key : KeyResource) (path : Path) :
    (verify opener key path).2 = .ofResult (check opener key path).result := rfl

/-- What a check gives whose key can be used and whose files can be read. -/
theorem result_check_of_files {opener : Opener} {key : KeyResource} {publicKey : PublicKey}
    {path sidecar : Path} {content signature : List UInt8} (hkey : key.usableKey = .ok publicKey)
    (hcontent : opener path = .ok (.file content)) (hsidecar : path.signaturePath = .ok sidecar)
    (hsignature : opener sidecar = .ok (.file signature)) :
    (check opener key path).result =
      if hlength : signature.length = signatureLength then
        publicKey.verify (Sha256.digest content) ⟨signature, hlength⟩
      else .error (.signatureLength signatureLength (min signature.length chunkSize)) := by
  rw [result_check, hkey, hashFile_file hcontent, hsidecar, mapError_ok, ok_bind, ok_bind,
    ok_bind, readSignature_file hsignature]
  by_cases hlength : signature.length = signatureLength
  · rw [dif_pos hlength, dif_pos hlength, ok_bind]
  · rw [dif_neg hlength, dif_neg hlength, error_bind]

/-- What stands behind a check that passes: a usable key, the content of the file
and a signature in its place that the key accepts for the content's hash. -/
theorem check_eq_ok_iff {opener : Opener} {key : KeyResource} {path : Path} :
    (check opener key path).result = .ok () ↔
      ∃ publicKey content sidecar signature,
        key.usableKey = .ok publicKey ∧ opener path = .ok (.file content) ∧
        path.signaturePath = .ok sidecar ∧ opener sidecar = .ok (.file signature.bytes) ∧
        publicKey.accepts (Sha256.digest content) signature = true := by
  rw [result_check]
  simp only [bind_eq_ok_iff, hashFile_eq_ok_iff, mapError_eq_ok_iff, readSignature_eq_ok_iff,
    PublicKey.verify_eq_ok_iff]
  constructor
  · rintro ⟨publicKey, hkey, -, ⟨content, hcontent, rfl⟩, sidecar, hsidecar, signature, hsignature,
      haccepts⟩
    exact ⟨publicKey, content, sidecar, signature, hkey, hcontent, hsidecar, hsignature, haccepts⟩
  · rintro ⟨publicKey, content, sidecar, signature, hkey, hcontent, hsidecar, hsignature, haccepts⟩
    exact ⟨publicKey, hkey, _, ⟨content, hcontent, rfl⟩, sidecar, hsidecar, signature, hsignature,
      haccepts⟩

/-- What a check that passes says of files whose contents are known. -/
theorem accepts_of_check_eq_ok {opener : Opener} {key : KeyResource} {path sidecar : Path}
    {content signature : List UInt8} (hcheck : (check opener key path).result = .ok ())
    (hcontent : opener path = .ok (.file content)) (hsidecar : path.signaturePath = .ok sidecar)
    (hsignature : opener sidecar = .ok (.file signature)) :
    ∃ (publicKey : PublicKey) (hlength : signature.length = signatureLength),
      key.usableKey = .ok publicKey ∧
        publicKey.accepts (Sha256.digest content) ⟨signature, hlength⟩ = true := by
  obtain ⟨publicKey, content₀, sidecar₀, s, hkey, hcontent₀, hsidecar₀, hs, haccepts⟩ :=
    check_eq_ok_iff.mp hcheck
  rw [hsidecar] at hsidecar₀
  cases hsidecar₀
  rw [hcontent] at hcontent₀
  cases hcontent₀
  rw [hsignature] at hs
  cases hs
  exact ⟨publicKey, s.length_bytes, hkey, haccepts⟩

end Sidecar
