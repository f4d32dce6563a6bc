import Mathlib.Data.List.Infix

/-! A byte stream seen through slices. A receiver that appends only bytes
taken from a slice at the position it has reached holds a prefix of the
stream, in whatever order, overlap or size the slices arrive. -/
namespace Machine.Stream

variable {α : Type*} {stream got : List α}

/-- `data` is what the stream holds from position `at` on. -/
def Slice (stream : List α) (position : Nat) (data : List α) : Prop :=
  data <+: stream.drop position

theorem Slice.length_le {position : Nat} {data : List α} (h : Slice stream position data) :
    position + data.length ≤ stream.length ∨ data = [] := by
  have hLength := List.IsPrefix.length_le h
  rw [List.length_drop] at hLength
  by_cases hData : data = []
  · exact Or.inr hData
  · have := List.length_pos_iff.mpr hData
    exact Or.inl (by omega)

/-- Dropping the first bytes of a slice moves its position on. -/
theorem Slice.drop {position count : Nat} {data : List α} (h : Slice stream position data) :
    Slice stream (position + count) (data.drop count) := by
  obtain ⟨tail, hTail⟩ := h
  unfold Slice
  rw [← List.drop_drop, ← hTail, List.drop_append]
  exact List.prefix_append _ _

theorem Slice.take {position count : Nat} {data : List α} (h : Slice stream position data) :
    Slice stream position (data.take count) :=
  (List.take_prefix _ _).trans h

/-- Appending a slice taken where the receiver stands keeps a prefix. -/
theorem append_prefix {data : List α} (hGot : got <+: stream)
    (hSlice : Slice stream got.length data) : got ++ data <+: stream := by
  obtain ⟨tail, hTail⟩ := hGot
  subst hTail
  unfold Slice at hSlice
  rw [List.drop_left] at hSlice
  exact List.prefix_append_right_inj got |>.mpr hSlice

/-- The receiver's step: part of a slice that reaches back to `position`,
of which `seen` bytes were already delivered. -/
theorem deliver_prefix {position seen : Nat} {data chunk : List α} (hGot : got <+: stream)
    (hSlice : Slice stream position data) (hPosition : position + seen = got.length)
    (hChunk : chunk <+: data.drop seen) : got ++ chunk <+: stream := by
  apply append_prefix hGot
  rw [← hPosition]
  exact hChunk.trans hSlice.drop

variable [DecidableEq α]

/-- How many elements two lists share at their front. -/
def agreement : List α → List α → Nat
  | a :: first, b :: second => if a = b then agreement first second + 1 else 0
  | _, _ => 0

theorem agreement_le (first second : List α) :
    agreement first second ≤ first.length ∧ agreement first second ≤ second.length := by
  induction first generalizing second with
  | nil => simp [agreement]
  | cons a first ih =>
      cases second with
      | nil => simp [agreement]
      | cons b second =>
          rw [agreement]
          split_ifs
          · simpa using ih second
          · simp

/-- Two lists agree as far as they begin alike. -/
theorem le_agreement {first second : List α} {count : Nat} (hCount : count ≤ first.length)
    (hPrefix : first.take count <+: second) : count ≤ agreement first second := by
  induction first generalizing second count with
  | nil => simp_all
  | cons a first ih =>
      cases count with
      | zero => exact Nat.zero_le _
      | succ count =>
          rw [List.take_succ_cons] at hPrefix
          obtain ⟨tail, rfl⟩ := hPrefix
          rw [List.cons_append, agreement, if_pos rfl]
          apply Nat.succ_le_succ
          exact ih (by simpa using hCount) ⟨tail, rfl⟩

end Machine.Stream
