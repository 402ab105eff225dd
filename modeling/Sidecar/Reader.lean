import Sidecar.IoError
import Sidecar.Sha256

/-!
# Sidecar.Reader

Sources of bytes that are read in pieces, and their hash.

A reader is given by what is left of the piece being handed out and the steps
after it. One `read` hands out at most `chunkSize` bytes, or fails; after the
last step every read is empty, which means the end. Hashing reads to the end,
repeats a read that was interrupted, and stops at any other failure:
`digest` is total because every read before the last one makes the reader
smaller (`weight_read_lt`).
-/

namespace Sidecar

/-- The most bytes that one read hands out. -/
def chunkSize : Nat := 65536

/-- What a reader does next: it hands out bytes, in as many reads as they need, where an
empty piece is one empty read, or it fails once. -/
inductive ReadStep where
  | data (bytes : List UInt8)
  | fail (error : IoError)
  deriving DecidableEq, Repr

/-- A source of bytes: the rest of the piece that is being handed out, and the steps that
are not begun. -/
structure Reader where
  current : List UInt8
  steps : List ReadStep
  deriving DecidableEq, Repr

namespace Reader

def ofSteps (steps : List ReadStep) : Reader := ⟨[], steps⟩

/-- One read: the bytes handed out, none at the end, or a failure; and the reader after it. -/
def read (r : Reader) : Except IoError (List UInt8) × Reader :=
  match r.current, r.steps with
  | [], [] => (.ok [], r)
  | [], .data bytes :: steps => (.ok (bytes.take chunkSize), ⟨bytes.drop chunkSize, steps⟩)
  | [], .fail e :: steps => (.error e, ⟨[], steps⟩)
  | bytes, steps => (.ok (bytes.take chunkSize), ⟨bytes.drop chunkSize, steps⟩)

/-! ## Progress -/

/-- A bound on the reads that steps can take. -/
def stepsWeight : List ReadStep → Nat
  | [] => 0
  | .data bytes :: steps => bytes.length + 1 + stepsWeight steps
  | .fail _ :: steps => 1 + stepsWeight steps

/-- A bound on the reads that the reader can still take. -/
def weight (r : Reader) : Nat := r.current.length + stepsWeight r.steps

/-- A read that gives bytes, or fails, uses up some of the reader. -/
theorem weight_read_lt {r : Reader} (h : r.read.1 ≠ .ok []) : r.read.2.weight < r.weight := by
  obtain ⟨current, steps⟩ := r
  cases current with
  | nil =>
      cases steps with
      | nil => exact absurd rfl h
      | cons step steps =>
          cases step with
          | data bytes =>
              simp only [read, weight, stepsWeight, List.length_drop, List.length_nil]
              omega
          | fail e => simp [read, weight, stepsWeight]
  | cons b bs =>
      simp only [read, weight, chunkSize, List.length_drop, List.length_cons]
      omega

/-! ## Hashing -/

/-- The outcome of hashing a reader to its end: the hash of the bytes handed out or the
failure that ended the reading, the number of reads, those that were interrupted or empty
included, and the reader after the last of them. -/
structure Hashed where
  result : Except IoError Sha256.Digest
  reads : Nat
  rest : Reader

/-- Reads to the end, into `hasher`, after `reads` reads. -/
def hashInto (hasher : Sha256.Hasher) (reads : Nat) (r : Reader) : Hashed :=
  match h : r.read with
  | (.ok [], rest) => ⟨.ok hasher.finish, reads + 1, rest⟩
  | (.ok (b :: bs), rest) => hashInto (hasher.update (b :: bs)) (reads + 1) rest
  | (.error e, rest) =>
      if e.isInterrupted then hashInto hasher (reads + 1) rest else ⟨.error e, reads + 1, rest⟩
termination_by r.weight
decreasing_by
  all_goals
    have := weight_read_lt (r := r) (by rw [h]; simp)
    simpa [h] using this

/-- The hash of everything the reader hands out before its end. -/
def hashed (r : Reader) : Hashed := hashInto .empty 0 r

/-- The hash of everything the reader hands out, or its failure. -/
def digest (r : Reader) : Except IoError Sha256.Digest := r.hashed.result

end Reader

end Sidecar
