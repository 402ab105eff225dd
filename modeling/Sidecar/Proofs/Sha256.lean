import Sidecar.Sha256

/-!
# Sidecar.Proofs.Sha256

A hasher that takes a message piece by piece gives the hash of the whole:

```
(((Hasher.empty.update m₁).update m₂)…).finish  =  digest (m₁ ++ m₂ ++ …)
```

`Hasher.ofMessage` says what a hasher holds after a message, however the message
was cut. `update_ofMessage` keeps that form and `finish_ofMessage` reads it off.
Both rest on `blocks_append`: full blocks are cut from the front, so only the
bytes after them wait for what follows.
-/

namespace Sidecar.Sha256

/-! ## Blocks of appended messages -/

/-- The bytes after the full blocks. -/
def unblocked (bs : List UInt8) : List UInt8 := bs.drop (64 * (bs.length / 64))

/-- Less than 64 bytes make no block. -/
theorem blocks_of_lt {bs : List UInt8} (h : bs.length < 64) : blocks bs = [] := by
  rw [blocks, if_neg]
  rw [List.length_take]
  omega

theorem blocks_of_le {bs : List UInt8} (h : 64 ≤ bs.length) :
    blocks bs = bs.take 64 :: blocks (bs.drop 64) := by
  rw [blocks, if_pos]
  rw [List.length_take]
  omega

theorem unblocked_of_lt {bs : List UInt8} (h : bs.length < 64) : unblocked bs = bs := by
  rw [unblocked, Nat.div_eq_of_lt h, Nat.mul_zero, List.drop_zero]

/-- What is left over does not depend on the blocks. -/
theorem unblocked_of_le {bs : List UInt8} (h : 64 ≤ bs.length) :
    unblocked bs = unblocked (bs.drop 64) := by
  rw [unblocked, unblocked, List.drop_drop, List.length_drop]
  congr 1
  omega

/-- Induction over the blocks of a message, from the front. -/
@[elab_as_elim]
theorem blocksRec {motive : List UInt8 → Prop}
    (short : ∀ bs, bs.length < 64 → motive bs)
    (block : ∀ bs, 64 ≤ bs.length → motive (bs.drop 64) → motive bs) (bs : List UInt8) :
    motive bs := by
  induction hn : bs.length using Nat.strongRecOn generalizing bs with
  | ind n ih =>
      by_cases h : 64 ≤ bs.length
      · have hlt : (bs.drop 64).length < n := by
          rw [List.length_drop]
          omega
        exact block bs h (ih _ hlt _ rfl)
      · exact short bs (by omega)

/-- The full blocks of an append are those of its front, and then those of what
its front left over together with its back. -/
theorem blocks_append (xs ys : List UInt8) :
    blocks (xs ++ ys) = blocks xs ++ blocks (unblocked xs ++ ys) := by
  induction xs using blocksRec with
  | short xs h => rw [blocks_of_lt h, unblocked_of_lt h, List.nil_append]
  | block xs h ih =>
      have hle : 64 ≤ (xs ++ ys).length := by rw [List.length_append]; omega
      rw [blocks_of_le hle, blocks_of_le h, unblocked_of_le h, List.take_append_of_le_length h,
        List.drop_append_of_le_length h, ih, List.cons_append]

/-- What an append leaves over is what its back leaves over after what its front did. -/
theorem unblocked_append (xs ys : List UInt8) :
    unblocked (xs ++ ys) = unblocked (unblocked xs ++ ys) := by
  induction xs using blocksRec with
  | short xs h => rw [unblocked_of_lt h]
  | block xs h ih =>
      have hle : 64 ≤ (xs ++ ys).length := by rw [List.length_append]; omega
      rw [unblocked_of_le hle, List.drop_append_of_le_length h, ih, unblocked_of_le h]

/-! ## Messages in pieces -/

namespace Hasher

def ofMessage (message : List UInt8) : Hasher where
  state := (blocks message).foldl State.compress State.initial
  pending := unblocked message
  length := message.length

/-- The state before any bytes is that of the empty message. -/
theorem empty_eq_ofMessage : empty = ofMessage [] := by
  rw [empty, ofMessage, blocks_of_lt (by simp), unblocked_of_lt (by simp)]
  rfl

/-- More bytes continue the message. -/
theorem update_ofMessage (message bs : List UInt8) :
    (ofMessage message).update bs = ofMessage (message ++ bs) := by
  have hstate : (blocks (unblocked message ++ bs)).foldl State.compress
      ((blocks message).foldl State.compress State.initial) =
      (blocks (message ++ bs)).foldl State.compress State.initial := by
    rw [blocks_append message bs, List.foldl_append]
  have hpending : (unblocked message ++ bs).drop (64 * ((unblocked message ++ bs).length / 64)) =
      unblocked (message ++ bs) := by
    rw [unblocked_append message bs, ← unblocked]
  simp only [update, ofMessage, hstate, hpending, ← List.length_append]

/-- **Streaming**: a message's hasher ends in the message's hash. -/
theorem finish_ofMessage (message : List UInt8) : (ofMessage message).finish = digest message := by
  rw [finish, digest, blocks_append message, List.foldl_append]
  rfl

example : ((empty.update (ascii "a")).update (ascii "bc")).finish.hex =
    "ba7816bf8f01cfea414140de5dae2223b00361a396177a9cb410ff61f20015ad" := by decide +kernel

end Hasher

end Sidecar.Sha256
