import Mathlib.Algebra.GroupWithZero.Nat
import Sidecar.Proofs.Sha256
import Sidecar.Reader

/-!
# Sidecar.Proofs.Reader

What hashing a reader comes to, from one read to a whole run:

* a read that is empty, hands out bytes or fails (`hashInto_of_read_nil`,
  `hashInto_of_read_ne_nil`, `hashInto_of_read_error`);
* a piece, which is handed out in as many reads as it has chunks and leaves the
  hasher of the message continued by the piece (`hashInto_current`);
* a step that the reading goes on after (`hashInto_of_continues`);
* all steps (`hashInto_ofSteps`): those up to the first that ends the reading
  count, and none after it.
-/

namespace Sidecar

open Sha256

namespace Reader

/-! ## One read -/

/-- A read takes from the bytes at hand before it takes a step. -/
theorem read_current {bytes : List UInt8} (steps : List ReadStep) (h : bytes ≠ []) :
    read ⟨bytes, steps⟩ = (.ok (bytes.take chunkSize), ⟨bytes.drop chunkSize, steps⟩) := by
  cases bytes with
  | nil => exact absurd rfl h
  | cons b bs => rfl

theorem take_chunkSize_ne_nil {bytes : List UInt8} (h : bytes ≠ []) :
    bytes.take chunkSize ≠ [] := by
  have hpos := List.length_pos_iff.mpr h
  rw [← List.length_pos_iff, List.length_take, chunkSize]
  omega

/-- An empty read ends the message. -/
theorem hashInto_of_read_nil {r rest : Reader} (hasher : Hasher) (reads : Nat)
    (h : r.read = (.ok [], rest)) :
    hashInto hasher reads r = ⟨.ok hasher.finish, reads + 1, rest⟩ := by
  rw [hashInto]
  split
  · next rest' h' =>
    rw [h] at h'
    cases h'
    rfl
  · next h' => simp [h] at h'
  · next h' => simp [h] at h'

/-- A read that hands out bytes continues the message. -/
theorem hashInto_of_read_ne_nil {r rest : Reader} {bytes : List UInt8} (hasher : Hasher)
    (reads : Nat) (h : r.read = (.ok bytes, rest)) (hbytes : bytes ≠ []) :
    hashInto hasher reads r = hashInto (hasher.update bytes) (reads + 1) rest := by
  rw [hashInto]
  split
  · next h' =>
    rw [h] at h'
    cases h'
    exact absurd rfl hbytes
  · next b bs rest' h' =>
    rw [h] at h'
    cases h'
    rfl
  · next h' => simp [h] at h'

/-- A failed read is made again if it was interrupted, and else ends the reading. -/
theorem hashInto_of_read_error {r rest : Reader} {e : IoError} (hasher : Hasher) (reads : Nat)
    (h : r.read = (.error e, rest)) :
    hashInto hasher reads r =
      if e.isInterrupted then hashInto hasher (reads + 1) rest
      else ⟨.error e, reads + 1, rest⟩ := by
  rw [hashInto]
  split
  · next h' => simp [h] at h'
  · next h' => simp [h] at h'
  · next e' rest' h' =>
    rw [h] at h'
    cases h'
    rfl

/-! ## One piece -/

/-- The number of reads that hand out so many bytes. -/
def readsOf (length : Nat) : Nat := if length = 0 then 0 else (length - 1) / chunkSize + 1

theorem readsOf_eq (length : Nat) : readsOf length = (length + 65535) / 65536 := by
  rw [readsOf, chunkSize]
  split <;> omega

/-- The piece being handed out continues the message, chunk by chunk. -/
theorem hashInto_current (message bytes : List UInt8) (steps : List ReadStep) (reads : Nat) :
    hashInto (.ofMessage message) reads ⟨bytes, steps⟩ =
      hashInto (.ofMessage (message ++ bytes)) (reads + readsOf bytes.length) ⟨[], steps⟩ := by
  induction hn : bytes.length using Nat.strongRecOn generalizing message bytes reads with
  | ind n ih =>
      by_cases hbytes : bytes = []
      · subst hbytes
        rw [← hn, List.append_nil]
        rfl
      · have hpos : 0 < bytes.length := List.length_pos_iff.mpr hbytes
        have hlt : (bytes.drop chunkSize).length < n := by
          rw [List.length_drop, chunkSize]
          omega
        have hreads : reads + 1 + readsOf (bytes.length - chunkSize) = reads + readsOf n := by
          simp only [readsOf_eq, chunkSize]
          omega
        rw [hashInto_of_read_ne_nil _ _ (read_current steps hbytes)
          (take_chunkSize_ne_nil hbytes), Hasher.update_ofMessage, ih _ hlt _ _ _ rfl,
          List.append_assoc, List.take_append_drop, List.length_drop, hreads]

end Reader

/-! ## One step -/

namespace ReadStep

def bytes : ReadStep → List UInt8
  | .data bytes => bytes
  | .fail _ => []

def isInterruption : ReadStep → Bool
  | .data _ => false
  | .fail e => e.isInterrupted

/-- Whether the reading goes on after a step: it hands out bytes or is an interruption. -/
def continues (step : ReadStep) : Bool := step.bytes != [] || step.isInterruption

/-- The number of reads that a step takes if the reading goes on after it. -/
def reads (step : ReadStep) : Nat :=
  Reader.readsOf step.bytes.length + if step.isInterruption then 1 else 0

@[simp] theorem continues_data (bs : List UInt8) :
    (ReadStep.data bs).continues = (bs != []) := by
  simp [continues, bytes, isInterruption]

@[simp] theorem continues_fail (e : IoError) : (ReadStep.fail e).continues = e.isInterrupted := by
  simp [continues, bytes, isInterruption]

@[simp] theorem reads_data (bs : List UInt8) :
    (ReadStep.data bs).reads = Reader.readsOf bs.length := by
  simp [reads, bytes, isInterruption]

@[simp] theorem reads_fail {e : IoError} (h : e.isInterrupted = true) :
    (ReadStep.fail e).reads = 1 := by
  simp [reads, bytes, isInterruption, h, Reader.readsOf]

end ReadStep

namespace Reader

/-- A step that the reading goes on after continues the message by what it hands out. The read
that takes the step up hands out its first chunk at once. -/
theorem hashInto_of_continues {step : ReadStep} (h : step.continues = true) (message : List UInt8)
    (reads : Nat) (steps : List ReadStep) :
    hashInto (.ofMessage message) reads (ofSteps (step :: steps)) =
      hashInto (.ofMessage (message ++ step.bytes)) (reads + step.reads) (ofSteps steps) := by
  cases step with
  | data bytes =>
      have hbytes : bytes ≠ [] := by simpa using h
      have hread : (ofSteps (.data bytes :: steps)).read =
          (.ok (bytes.take chunkSize), ⟨bytes.drop chunkSize, steps⟩) := rfl
      rw [ReadStep.reads_data, ReadStep.bytes]
      calc
        hashInto (.ofMessage message) reads (ofSteps (.data bytes :: steps)) =
            hashInto (.ofMessage message) reads ⟨bytes, steps⟩ := by
          rw [hashInto_of_read_ne_nil _ _ hread (take_chunkSize_ne_nil hbytes),
            hashInto_of_read_ne_nil _ _ (read_current steps hbytes) (take_chunkSize_ne_nil hbytes)]
        _ = hashInto (.ofMessage (message ++ bytes)) (reads + readsOf bytes.length)
            (ofSteps steps) := hashInto_current message bytes steps reads
  | fail e =>
      have he : e.isInterrupted = true := by simpa using h
      have hread : (ofSteps (.fail e :: steps)).read = (.error e, ofSteps steps) := rfl
      rw [hashInto_of_read_error _ _ hread, if_pos he, ReadStep.reads_fail he, ReadStep.bytes,
        List.append_nil]

/-- The reads of a script are those of its pieces and one for each interruption. -/
theorem sum_map_reads (steps : List ReadStep) :
    (steps.map ReadStep.reads).sum =
      (steps.map fun step => readsOf step.bytes.length).sum +
        steps.countP ReadStep.isInterruption := by
  induction steps with
  | nil => rfl
  | cons step steps ih =>
      simp only [List.map_cons, List.sum_cons, ih, List.countP_cons, ReadStep.reads]
      omega

/-! ## All steps -/

/-- What hashing comes to after a message, where the steps that are left begin
with the one that ends the reading. -/
def hashedAt (message : List UInt8) (reads : Nat) : List ReadStep → Hashed
  | .fail e :: steps => ⟨.error e, reads + 1, ofSteps steps⟩
  | left => ⟨.ok (Sha256.digest message), reads + 1, ofSteps left.tail⟩

/-- A step that the reading does not go on after ends it. -/
theorem hashInto_of_not_continues {step : ReadStep} (h : step.continues = false)
    (message : List UInt8) (reads : Nat) (steps : List ReadStep) :
    hashInto (.ofMessage message) reads (ofSteps (step :: steps)) =
      hashedAt message reads (step :: steps) := by
  cases step with
  | data bytes =>
      have hbytes : bytes = [] := by simpa using h
      subst hbytes
      have hread : (ofSteps (.data [] :: steps)).read = (.ok [], ofSteps steps) := rfl
      rw [hashInto_of_read_nil _ _ hread, Hasher.finish_ofMessage, hashedAt, List.tail_cons]
      nofun
  | fail e =>
      have he : ¬ e.isInterrupted = true := by simpa using h
      have hread : (ofSteps (.fail e :: steps)).read = (.error e, ofSteps steps) := rfl
      rw [hashInto_of_read_error _ _ hread, if_neg he, hashedAt]

/-- Hashing takes the steps up to the first that ends the reading. -/
theorem hashInto_ofSteps (message : List UInt8) (reads : Nat) (steps : List ReadStep) :
    hashInto (.ofMessage message) reads (ofSteps steps) =
      hashedAt (message ++ (steps.takeWhile ReadStep.continues).flatMap ReadStep.bytes)
        (reads + ((steps.takeWhile ReadStep.continues).map ReadStep.reads).sum)
        (steps.dropWhile ReadStep.continues) := by
  induction steps generalizing message reads with
  | nil =>
      rw [hashInto_of_read_nil _ _ (by rfl), Hasher.finish_ofMessage]
      simp [hashedAt, ofSteps]
  | cons step steps ih =>
      cases h : step.continues with
      | true => simp [hashInto_of_continues h, ih, h, Nat.add_assoc]
      | false => simp [hashInto_of_not_continues h, h]

/-- Interruptions have no part in the result. -/
theorem result_hashInto_filter (message : List UInt8) (reads reads' : Nat)
    (steps : List ReadStep) :
    (hashInto (.ofMessage message) reads
        (ofSteps (steps.filter fun step => !step.isInterruption))).result =
      (hashInto (.ofMessage message) reads' (ofSteps steps)).result := by
  induction steps generalizing message reads reads' with
  | nil => simp only [List.filter_nil, hashInto_ofSteps, List.dropWhile_nil, hashedAt]
  | cons step steps ih =>
      cases hinterruption : step.isInterruption with
      | true =>
          have hcontinues : step.continues = true := by simp [ReadStep.continues, hinterruption]
          have hbytes : step.bytes = [] := by
            cases step with
            | data bytes => simp [ReadStep.isInterruption] at hinterruption
            | fail e => rfl
          simp [hinterruption, hashInto_of_continues hcontinues, hbytes, ih _ _ (reads' + step.reads)]
      | false =>
          rw [List.filter_cons_of_pos (by simp [hinterruption])]
          cases hcontinues : step.continues with
          | true => simp [hashInto_of_continues hcontinues, ih _ _ (reads' + step.reads)]
          | false =>
              rw [hashInto_of_not_continues hcontinues, hashInto_of_not_continues hcontinues]
              cases step <;> simp [hashedAt]

/-- The outcome of hashing a script, by the steps that go on and the one that does not. -/
theorem hashed_eq_hashedAt (steps : List ReadStep) :
    (ofSteps steps).hashed =
      hashedAt ((steps.takeWhile ReadStep.continues).flatMap ReadStep.bytes)
        ((steps.takeWhile ReadStep.continues).map ReadStep.reads).sum
        (steps.dropWhile ReadStep.continues) := by
  simp [hashed, Hasher.empty_eq_ofMessage, hashInto_ofSteps]

/-- Hashing a reader of one piece and nothing else gives the hash of the piece. -/
theorem digest_data (bytes : List UInt8) :
    (ofSteps [.data bytes]).digest = .ok (Sha256.digest bytes) := by
  rw [digest, hashed_eq_hashedAt]
  cases hcontinues : (ReadStep.data bytes).continues with
  | true => simp [hcontinues, hashedAt, ReadStep.bytes]
  | false =>
      have hbytes : bytes = [] := by simpa using hcontinues
      simpa [hcontinues, hashedAt] using congrArg Sha256.digest hbytes.symm

/-- A failure that lasts ends the hashing, at once or after a piece. -/
theorem digest_of_lasting {steps : List ReadStep} {e : IoError} (h : e.isInterrupted = false)
    (hsteps : ∀ step ∈ steps, step.continues = true) :
    (ofSteps (steps ++ [.fail e])).digest = .error e := by
  have hstop : (ReadStep.fail e).continues = false := by simp [h]
  rw [digest, hashed_eq_hashedAt, List.dropWhile_append_of_pos hsteps,
    List.dropWhile_cons_of_neg (by simp [hstop]), hashedAt]

end Reader

end Sidecar
