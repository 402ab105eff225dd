import Sidecar.Der.Window
import Sidecar.Proofs.Outcome

/-!
# Sidecar.Proofs.Der.Window

What the readers of a window take from its front. `Advances w bs w'` says that
the bytes `bs` lead from the window `w` to `w'`; each reader has one lemma
`…_eq_ok_iff` that says for which bytes it succeeds, and with what.
-/

namespace Sidecar.Der.Window

/-! ## Bytes at the front of a window -/

/-- The bytes `bs` stand at the front of `w`, and `w'` is what follows them. -/
structure Advances (w : Window) (bs : List UInt8) (w' : Window) : Prop where
  start_eq : w'.start = w.start
  offset_eq : w'.offset = w.offset + bs.length
  rest_eq : w.rest = bs ++ w'.rest

/-- The window after some bytes is determined by them, but for what is left to read. -/
theorem advances_iff {w w' : Window} {bs : List UInt8} :
    w.Advances bs w' ↔
      w' = ⟨w.start, w.offset + bs.length, w'.rest⟩ ∧ w.rest = bs ++ w'.rest := by
  obtain ⟨start, offset, rest⟩ := w'
  constructor
  · rintro ⟨rfl, rfl, hrest⟩
    exact ⟨rfl, hrest⟩
  · rintro ⟨hw', hrest⟩
    cases hw'
    exact ⟨rfl, rfl, hrest⟩

theorem Advances.length_rest {w w' : Window} {bs : List UInt8} (h : w.Advances bs w') :
    w.rest.length = bs.length + w'.rest.length := by
  rw [h.rest_eq, List.length_append]

/-- To read two parts is to read one after the other. -/
theorem advances_append_iff {w w'' : Window} {bs cs : List UInt8} :
    w.Advances (bs ++ cs) w'' ↔ ∃ w', w.Advances bs w' ∧ w'.Advances cs w'' := by
  constructor
  · rintro ⟨hstart, hoffset, hrest⟩
    refine ⟨⟨w.start, w.offset + bs.length, cs ++ w''.rest⟩, ⟨rfl, rfl, ?_⟩, hstart, ?_, rfl⟩
    · rw [hrest, List.append_assoc]
    · rw [hoffset, List.length_append, Nat.add_assoc]
  · rintro ⟨w', ⟨hstart, hoffset, hrest⟩, ⟨hstart', hoffset', hrest'⟩⟩
    refine ⟨hstart'.trans hstart, ?_, ?_⟩
    · rw [hoffset', hoffset, List.length_append, Nat.add_assoc]
    · rw [hrest, hrest', List.append_assoc]

theorem advances_cons_iff {w w'' : Window} {b : UInt8} {bs : List UInt8} :
    w.Advances (b :: bs) w'' ↔ ∃ w', w.Advances [b] w' ∧ w'.Advances bs w'' := by
  rw [← List.singleton_append, advances_append_iff]

/-- Reading `n` bytes at once takes the `n` bytes at the front, if there are so many. -/
theorem read_eq_ok_iff {w w' : Window} {n : Nat} {bs : List UInt8} :
    w.read n = .ok (bs, w') ↔ bs.length = n ∧ w.Advances bs w' := by
  rw [read]
  constructor
  · intro h
    split at h
    · next hn =>
      cases h
      have hlength : (w.rest.take n).length = n := by rw [List.length_take, Nat.min_eq_left hn]
      exact ⟨hlength, rfl, by rw [hlength], (List.take_append_drop n w.rest).symm⟩
    · cases h
  · rintro ⟨rfl, h⟩
    rw [if_pos (by rw [h.length_rest]; omega), h.rest_eq, List.take_left, List.drop_left]
    rw [(advances_iff.mp h).1]

/-- Reading a byte takes the one at the front. -/
theorem readByte_eq_ok_iff {w w' : Window} {b : UInt8} :
    w.readByte = .ok (b, w') ↔ w.Advances [b] w' := by
  obtain ⟨start, offset, rest⟩ := w
  obtain ⟨start', offset', rest'⟩ := w'
  rw [advances_iff]
  cases rest with
  | nil => simp [readByte]
  | cons b' rest =>
      simp only [readByte, Except.ok.injEq, Prod.mk.injEq, mk.injEq, List.length_singleton,
        List.singleton_append, List.cons.injEq, and_true]
      constructor
      · rintro ⟨rfl, rfl, rfl, rfl⟩
        exact ⟨⟨rfl, rfl⟩, rfl, rfl⟩
      · rintro ⟨⟨rfl, rfl⟩, rfl, rfl⟩
        exact ⟨rfl, rfl, rfl, rfl⟩

theorem advances_nil_iff {w w' : Window} : w.Advances [] w' ↔ w' = w := by
  rw [advances_iff]
  constructor
  · rintro ⟨hw', hrest⟩
    rw [hw', ← List.nil_append w'.rest, ← hrest]
    rfl
  · rintro rfl
    exact ⟨rfl, rfl⟩

/-- Reading byte by byte takes the same bytes as reading them at once. -/
theorem readBytes_eq_ok_iff {w w' : Window} {n : Nat} {bs : List UInt8} :
    w.readBytes n = .ok (bs, w') ↔ bs.length = n ∧ w.Advances bs w' := by
  induction n generalizing w w' bs with
  | zero =>
      rw [readBytes, List.length_eq_zero_iff]
      simp only [Except.ok.injEq, Prod.mk.injEq]
      constructor
      · rintro ⟨rfl, rfl⟩
        exact ⟨rfl, advances_nil_iff.mpr rfl⟩
      · rintro ⟨rfl, h⟩
        exact ⟨rfl, (advances_nil_iff.mp h).symm⟩
  | succ n ih =>
      simp only [readBytes, bind_eq_ok_iff, Prod.exists, readByte_eq_ok_iff, ih, pure_eq_ok,
        Except.ok.injEq, Prod.mk.injEq]
      constructor
      · rintro ⟨b, w₁, hb, bs, w₂, ⟨rfl, hbs⟩, rfl, rfl⟩
        exact ⟨rfl, advances_cons_iff.mpr ⟨w₁, hb, hbs⟩⟩
      · rintro ⟨hlength, h⟩
        cases bs with
        | nil => cases hlength
        | cons b bs =>
            obtain ⟨w₁, hb, hbs⟩ := advances_cons_iff.mp h
            exact ⟨b, w₁, hb, bs, w', ⟨Nat.succ.inj hlength, hbs⟩, rfl, rfl⟩

/-- A window is finished where nothing is left to read. -/
theorem finish_eq_ok_iff {w : Window} {u : Unit} : w.finish = .ok u ↔ w.rest = [] := by
  rw [finish]
  split <;> simp [*]

/-- Where a part of a structure stands matters to its faults only. -/
theorem field_eq_ok_iff {w : Window} {read : Window → Except Fault (α × Window)}
    {result : α × Window} : w.field read = .ok result ↔ read w = .ok result := by
  rw [field]
  split <;> simp [*]

/-- Nested contents are a window of their own, which has to be read to its end. -/
theorem nested_eq_ok_iff {w w' : Window} {n : Nat}
    {read : Window → Except Fault (α × Window)} {value : α} :
    w.nested n read = .ok (value, w') ↔
      ∃ contents inner, contents.length = n ∧ w.Advances contents w' ∧
        read ⟨w.offset, w.offset, contents⟩ = .ok (value, inner) ∧ inner.rest = [] := by
  rw [nested]
  constructor
  · intro h
    split at h
    · next hn =>
      simp only [bind_eq_ok_iff, Prod.exists, finish_eq_ok_iff, pure_eq_ok, Except.ok.injEq,
        Prod.mk.injEq] at h
      obtain ⟨value, inner, hread, -, hfinish, rfl, rfl⟩ := h
      have hlength : (w.rest.take n).length = n := by rw [List.length_take, Nat.min_eq_left hn]
      refine ⟨w.rest.take n, inner, hlength, ⟨rfl, ?_, ?_⟩, hread, hfinish⟩
      · rw [hlength]
      · exact (List.take_append_drop n w.rest).symm
    · cases h
  · rintro ⟨contents, inner, rfl, hw, hread, hfinish⟩
    rw [if_pos (by rw [hw.length_rest]; omega), hw.rest_eq, List.take_left, List.drop_left, hread,
      ok_bind]
    have hend : inner.finish = .ok () := finish_eq_ok_iff.mpr hfinish
    dsimp only
    rw [hend, ok_bind, pure_eq_ok, (advances_iff.mp hw).1]

end Sidecar.Der.Window
