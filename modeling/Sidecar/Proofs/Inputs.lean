import Sidecar.Proofs.Verifier

/-!
# Sidecar.Proofs.Inputs

What a verification depends on. A check opens its target once the key is found
usable, and the target's signature once the target has been read (`Opens`). Two
file systems in which those paths open to the same give one result and one log
(`verify_congr`), whatever else they hold.
-/

namespace Sidecar

variable {opener opener' : Opener} {key : KeyResource} {path : Path}

/-! ## Single files -/

/-- A hash depends on what opening its path gives. -/
theorem hashFile_congr (h : opener' path = opener path) :
    hashFile opener' path = hashFile opener path := by
  simp only [hashFile, h]

/-- So does a signature that is read. -/
theorem readSignature_congr (h : opener' path = opener path) :
    readSignature opener' path = readSignature opener path := by
  simp only [readSignature, h]

/-! ## The files of a check -/

/-- The paths that a check opens. -/
inductive Opens (opener : Opener) (key : KeyResource) (path : Path) : Path → Prop where
  | target {publicKey : PublicKey} (hkey : key.usableKey = .ok publicKey) :
      Opens opener key path path
  | sidecar {publicKey : PublicKey} {content : List UInt8} {sidecar : Path}
      (hkey : key.usableKey = .ok publicKey) (hcontent : opener path = .ok (.file content))
      (hsidecar : path.signaturePath = .ok sidecar) : Opens opener key path sidecar

/-- What a check takes from the files are the hash of the target and the signature. -/
theorem check_congr_of_results (h : hashFile opener' path = hashFile opener path)
    (h' : ∀ digest sidecar, hashFile opener path = .ok digest → path.signaturePath = .ok sidecar →
      readSignature opener' sidecar = readSignature opener sidecar) :
    check opener' key path = check opener key path := by
  unfold check
  rw [h]
  cases key.usableKey with
  | error failure => rfl
  | ok publicKey =>
  cases htarget : hashFile opener path with
  | error failure => rfl
  | ok digest =>
  cases hsidecar : path.signaturePath with
  | error fault => rfl
  | ok sidecar =>
      simp only [mapError_ok, Traced.liftM_ok_bind, h' digest sidecar htarget hsidecar]

/-- Two checks take the same course if the files that one of them opens are the same. -/
theorem check_congr (h : ∀ p, Opens opener key path p → opener' p = opener p) :
    check opener' key path = check opener key path := by
  cases hkey : key.usableKey with
  | error failure => rw [check_of_usableKey hkey, check_of_usableKey hkey]
  | ok publicKey =>
      apply check_congr_of_results (hashFile_congr (h path (.target hkey)))
      intro digest sidecar htarget hsidecar
      obtain ⟨content, hcontent, -⟩ := hashFile_eq_ok_iff.mp htarget
      exact readSignature_congr (h sidecar (.sidecar hkey hcontent hsidecar))

/-- A verification depends on what opening its two paths gives, and on the second only once the
first has been hashed. -/
theorem verify_congr (h : ∀ p, Opens opener key path p → opener' p = opener p) :
    verify opener' key path = verify opener key path := by
  simp only [verify, check_congr h]

/-! ## Two file systems -/

/-- **Nothing but the inputs**: two file systems give one verification and one log
for a key that cannot be used; for a target that fails in both with the same error
to open or to be read, whatever was read before and whatever the signatures are; and for
a target and a signature that open to the same in both. What any other path opens to has no part
in it. -/
theorem verify_eq_of_same_files (opener opener' : Opener) (key : KeyResource) (path : Path) :
    ((∃ failure, key.checkSize = .error failure ∨ key.materialize = .error failure) →
      verify opener' key path = verify opener key path) ∧
    (∀ e, (opener path = .error e ∧ opener' path = .error e) ∨
        (∃ reading reading', opener path = .ok (.unreadable reading) ∧ reading.error = e ∧
          opener' path = .ok (.unreadable reading') ∧ reading'.error = e) →
      verify opener' key path = verify opener key path) ∧
    (opener' path = opener path →
      (∀ sidecar, path.signaturePath = .ok sidecar → opener' sidecar = opener sidecar) →
      verify opener' key path = verify opener key path) ∧
    verify (fun p => if p = path ∨ path.signaturePath = .ok p then opener p else opener' p) key
      path = verify opener key path := by
  refine ⟨?_, ?_, ?_, verify_congr fun p hp => ?_⟩
  · intro ⟨failure, hfailure⟩
    have hkey (publicKey : PublicKey) : key.usableKey ≠ .ok publicKey := by
      intro husable
      obtain ⟨hsize, hmaterialize⟩ := KeyResource.usableKey_eq_ok_iff.mp husable
      have hchecked : key.checkSize = .ok () := KeyResource.checkSize_eq_ok_iff.mpr hsize
      simp [hchecked, hmaterialize] at hfailure
    apply verify_congr
    intro p hp
    cases hp with
    | target husable => exact absurd husable (hkey _)
    | sidecar husable => exact absurd husable (hkey _)
  · intro e htarget
    have hfails : ∃ failure, hashFile opener path = .error failure ∧
        hashFile opener' path = .error failure := by
      obtain ⟨hopen, hopen'⟩ | ⟨reading, reading', hopen, rfl, hopen', hsame⟩ := htarget
      · exact ⟨_, hashFile_of_error hopen, hashFile_of_error hopen'⟩
      · exact ⟨_, hashFile_unreadable hopen, hsame ▸ hashFile_unreadable hopen'⟩
    obtain ⟨failure, hhash, hhash'⟩ := hfails
    have hcheck : check opener' key path = check opener key path := by
      apply check_congr_of_results (hhash'.trans hhash.symm)
      intro digest sidecar hdigest
      rw [hhash] at hdigest
      cases hdigest
    simp only [verify, hcheck]
  · intro htarget hsignature
    apply verify_congr
    intro p hp
    cases hp with
    | target => exact htarget
    | sidecar _ _ hsidecar => exact hsignature p hsidecar
  · cases hp with
    | target => exact if_pos (Or.inl rfl)
    | sidecar _ _ hsidecar => exact if_pos (Or.inr hsidecar)

end Sidecar
