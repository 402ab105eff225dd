import Sidecar.Proofs.Signing

/-!
# Sidecar.Proofs.Binding

What an accepted signature is bound to. Both statements compare two checks under
one key, the first of which passes:

* with the same signature, the second check depends on the hash of its file
  alone (`check_same_signature`);
* with the same file and another signature, the second check fails
  (`check_other_signature`).
-/

namespace Sidecar

/-! ## The signature stays -/

/-- **A signature vouches for one hash**: once a check passes, a check of any file
beside the same signature passes if the file has the same hash, and otherwise
finds a mismatch. So a changed file, or another file that shares the signature
file, is reported as a mismatch unless the two contents have one hash. -/
theorem check_same_signature {opener opener' : Opener} {key : KeyResource}
    {path path' sidecar sidecar' : Path} {content content' signature : List UInt8}
    (hcheck : (check opener key path).result = .ok ())
    (hcontent : opener path = .ok (.file content))
    (hsidecar : path.signaturePath = .ok sidecar)
    (hsignature : opener sidecar = .ok (.file signature))
    (hcontent' : opener' path' = .ok (.file content'))
    (hsidecar' : path'.signaturePath = .ok sidecar')
    (hsignature' : opener' sidecar' = .ok (.file signature)) :
    (check opener' key path').result =
        (if Sha256.digest content' = Sha256.digest content then .ok ()
        else .error .signatureMismatch) ∧
      (Sha256.digest content' ≠ Sha256.digest content →
        (verify opener' key path').2.kind? = some .mismatch) := by
  obtain ⟨publicKey, hlength, hkey, haccepts⟩ :=
    accepts_of_check_eq_ok hcheck hcontent hsidecar hsignature
  have haccepts' := PublicKey.accepts_iff_of_accepts haccepts (Sha256.digest content')
  have hresult : (check opener' key path').result =
      if Sha256.digest content' = Sha256.digest content then .ok ()
      else .error .signatureMismatch := by
    rw [result_check_of_files hkey hcontent' hsidecar' hsignature', dif_pos hlength]
    by_cases hdigest : Sha256.digest content' = Sha256.digest content
    · rw [if_pos hdigest, PublicKey.verify_eq_ok_iff, haccepts']
      exact hdigest
    · rw [if_neg hdigest]
      exact PublicKey.verify_of_not_accepts (mt haccepts'.mp hdigest)
  refine ⟨hresult, fun hdigest => ?_⟩
  rw [snd_verify, hresult, if_neg hdigest]
  rfl

/-- The signature of `tool` is not one of `tool.bin`, which stands beside it. -/
theorem check_same_signature_toolBin :
    let opener := ExampleKey.files [0x00] [0x01] (ExampleKey.signed [0x00])
    (check opener ExampleKey.resource ExampleKey.toolBin).result = .error .signatureMismatch ∧
      (verify opener ExampleKey.resource ExampleKey.toolBin).2.kind? = some .mismatch := by
  intro opener
  have hsidecar : opener ExampleKey.sidecar = .ok (.file (ExampleKey.signed [0x00])) :=
    ExampleKey.files_sidecar _ _ _
  have hdigest : Sha256.digest [0x01] ≠ Sha256.digest [0x00] := by decide +kernel
  have h := check_same_signature (ExampleKey.check_tool [0x00] [0x01])
    (ExampleKey.files_tool _ _ _) ExampleKey.signaturePath_tool hsidecar
    (ExampleKey.files_toolBin [0x00] [0x01] _) ExampleKey.signaturePath_toolBin hsidecar
  rw [if_neg hdigest] at h
  exact ⟨h.1, h.2 hdigest⟩

/-! ## The file stays -/

/-- **Signatures are not malleable**: once a check passes under a key with two
distinct primes and an exponent that has an inverse, a check of the same content
beside any other signature fails, with a mismatch if it is as long as a signature
and with its length otherwise. -/
theorem check_other_signature {p q e : ℕ} (hp : p.Prime) (hq : q.Prime) (hpq : p ≠ q)
    (he : e.Coprime ((p - 1) * (q - 1))) {opener opener' : Opener} {key : KeyResource}
    {path sidecar : Path} {content signature signature' : List UInt8}
    (hkey : key.materialize = .ok ⟨p * q, e⟩)
    (hcheck : (check opener key path).result = .ok ())
    (hcontent : opener path = .ok (.file content))
    (hsidecar : path.signaturePath = .ok sidecar)
    (hsignature : opener sidecar = .ok (.file signature))
    (hcontent' : opener' path = .ok (.file content))
    (hsignature' : opener' sidecar = .ok (.file signature')) (hne : signature' ≠ signature) :
    (check opener' key path).result =
      .error (if signature'.length = 512 then .signatureMismatch
        else .signatureLength 512 (min signature'.length 65536)) := by
  obtain ⟨publicKey, hlength, husable, haccepts⟩ :=
    accepts_of_check_eq_ok hcheck hcontent hsidecar hsignature
  have hpublicKey : publicKey = ⟨p * q, e⟩ := by
    have hmaterialize := (KeyResource.usableKey_eq_ok_iff.mp husable).2
    rw [hkey] at hmaterialize
    exact (Except.ok.inj hmaterialize).symm
  rw [result_check_of_files husable hcontent' hsidecar hsignature']
  by_cases hlength' : signature'.length = signatureLength
  · rw [dif_pos hlength', if_pos (show signature'.length = 512 from hlength')]
    apply PublicKey.verify_of_not_accepts
    intro haccepts'
    rw [hpublicKey] at haccepts haccepts'
    have hsame := PublicKey.eq_of_accepts hp hq hpq he haccepts haccepts'
    exact hne (congrArg Signature.bytes hsame).symm
  · rw [dif_neg hlength', if_neg (show ¬ signature'.length = 512 from hlength')]
    rfl

/-- Neither one flipped bit nor one more zero at the front leaves a signature accepted. -/
theorem check_other_signature_tool :
    let signature := ExampleKey.signed [0x00]
    (check (ExampleKey.files [0x00] [] (signature.modify 0 (· ^^^ 1))) ExampleKey.resource
        ExampleKey.tool).result = .error .signatureMismatch ∧
      (check (ExampleKey.files [0x00] [] (0 :: signature)) ExampleKey.resource
        ExampleKey.tool).result = .error (.signatureLength 512 513) := by
  intro signature
  have hlength : signature.length = 512 := ExampleKey.length_signed [0x00]
  have hother := fun (signature' : List UInt8) (hne : signature' ≠ signature) =>
    check_other_signature ExampleKey.prime_p ExampleKey.prime_q ExampleKey.p_ne_q
      ExampleKey.coprime_three ExampleKey.materialize_resource (ExampleKey.check_tool [0x00] [])
      (ExampleKey.files_tool _ _ _) ExampleKey.signaturePath_tool (ExampleKey.files_sidecar _ _ _)
      (ExampleKey.files_tool _ [] signature') (ExampleKey.files_sidecar _ _ _) hne
  constructor
  · have hflipped : (signature.modify 0 (· ^^^ 1)).length = 512 := by
      rw [List.length_modify, hlength]
    rw [hother _ (ExampleKey.flipped_signed_ne [0x00]), if_pos hflipped]
  · have hlonger : (0 :: signature).length = 513 := by
      rw [List.length_cons, hlength]
    rw [hother _ (List.cons_ne_self _ _), hlonger]
    rfl

end Sidecar
