import Sidecar.Proofs.FileTree
import Sidecar.Proofs.Handle

/-!
# Sidecar.Proofs.SignatureFile

What a signature's file gives, whatever its path opens to. No more than one chunk of it
is read, and yet no file is cut to a signature: a chunk is longer than that, so a file
with more than a signature in it is still too long when it has been cut to a chunk.
-/

namespace Sidecar

/-- **Whole signatures**: a file gives its content as a signature exactly if that has the
length of one, and else an error that tells how much of it was read, which is one chunk
at most. So files up to a chunk are read as their bytes are, and no longer one is
taken for its front. A path that does not open is named by the error, and so is
a directory's. -/
theorem readSignature_whole (opener : Opener) (path : Path) :
    (∀ content, opener path = .ok (.file content) →
      ((∃ s, readSignature opener path = .ok s ∧ s.bytes = content) ↔ content.length = 512) ∧
      (content.length ≠ 512 → readSignature opener path =
        .error (.signatureLength 512 (min content.length 65536))) ∧
      (content.length ≤ 65536 → readSignature opener path = Signature.ofBytes content) ∧
      (65536 < content.length → (∃ s, Signature.ofBytes (content.take 512) = .ok s) ∧
        readSignature opener path = .error (.signatureLength 512 65536))) ∧
    (∀ e, opener path = .error e → readSignature opener path = .error (.openSignature path e)) ∧
    ∀ (t : FileTree) (location : Location) (children : Children),
      t.locate .use path = .ok (.occupied location (.directory children)) →
        readSignature t.opener path = .error (.readSignature path .isDirectory) := by
  refine ⟨?_, fun e => readSignature_of_error, ?_⟩
  · intro content hcontent
    refine ⟨⟨?_, ?_⟩, readSignature_of_length_ne hcontent, readSignature_of_length_le hcontent, ?_⟩
    · intro ⟨s, hs, hbytes⟩
      rw [← hbytes]
      exact s.length_bytes
    · intro hlength
      exact ⟨⟨content, hlength⟩, readSignature_eq_ok_iff.mpr hcontent, rfl⟩
    · intro hlong
      have hne : content.length ≠ signatureLength := by
        rw [signatureLength]
        omega
      have hfront : (content.take 512).length = signatureLength := by
        rw [List.length_take, Nat.min_eq_left (by omega)]
        rfl
      have hchunk : min content.length chunkSize = 65536 := Nat.min_eq_right (Nat.le_of_lt hlong)
      refine ⟨⟨⟨content.take 512, hfront⟩, ?_⟩, ?_⟩
      · rw [Signature.ofBytes, dif_pos hfront]
      · rw [readSignature_of_length_ne hcontent hne, hchunk]
        rfl
  · intro t location children hdirectory
    exact readSignature_unreadable (FileTree.opener_directory hdirectory)

theorem readSignature_whole_padded :
    readSignature (fun _ => .ok (.file (List.replicate 65537 0))) ⟨ascii "tool.sig"⟩ =
      .error (.signatureLength 512 65536) :=
  (((readSignature_whole _ _).1 _ rfl).2.2.2 (by rw [List.length_replicate]; decide)).2

end Sidecar
