import Tun2Http.Machine.Wire

/-! A buffer that bytes are stored into. It keeps the offsets that were
stored to, so that a bound on the writes does not depend on what they hit. -/
namespace Machine

/-- The bytes of a buffer, with the offsets written, oldest first. -/
structure Buffer where
  bytes : Memory
  written : List Nat

namespace Buffer

/-- Before anything is stored. -/
def fresh (bytes : Memory) : Buffer := ⟨bytes, []⟩

/-- Store one byte. -/
def put (b : Buffer) (offset : Nat) (value : UInt8) : Buffer where
  bytes := fun i => if i = offset then value else b.bytes i
  written := b.written ++ [offset]

/-- Store bytes one behind the other. -/
def copy (b : Buffer) (offset : Nat) : List UInt8 → Buffer
  | [] => b
  | value :: rest => (b.put offset value).copy (offset + 1) rest

/-- Every write lies in the first `size` bytes. -/
def Within (size : Nat) (b : Buffer) : Prop := ∀ offset ∈ b.written, offset < size

variable {b : Buffer} {size offset : Nat}

theorem within_fresh (size : Nat) (bytes : Memory) : Within size (fresh bytes) := by
  simp [Within, fresh]

@[simp] theorem within_put {value : UInt8} :
    Within size (b.put offset value) ↔ Within size b ∧ offset < size := by
  simp [Within, put, or_imp, forall_and]

/-- A copy stays in the buffer where its end does. -/
theorem within_copy_iff {values : List UInt8} :
    Within size (b.copy offset values) ↔
      Within size b ∧ (values = [] ∨ offset + values.length ≤ size) := by
  induction values generalizing b offset with
  | nil => simp [copy]
  | cons value rest ih =>
      rw [copy, ih, within_put, and_assoc]
      refine and_congr_right fun _ => ?_
      cases rest with
      | nil =>
          rw [or_iff_right (List.cons_ne_nil _ _), List.length_singleton]
          exact and_iff_left (Or.inl rfl)
      | cons _ _ =>
          simp only [List.cons_ne_nil, false_or, List.length_cons]
          omega

@[simp] theorem length_written_put (value : UInt8) :
    (b.put offset value).written.length = b.written.length + 1 := List.length_append

@[simp] theorem length_written_copy (values : List UInt8) :
    (b.copy offset values).written.length = b.written.length + values.length := by
  induction values generalizing b offset with
  | nil => rfl
  | cons value rest ih =>
      rw [copy, ih, length_written_put, List.length_cons]
      omega

@[simp] theorem bytes_put_self (value : UInt8) : (b.put offset value).bytes offset = value :=
  if_pos rfl

theorem bytes_put_of_ne {i : Nat} {value : UInt8} (h : i ≠ offset) :
    (b.put offset value).bytes i = b.bytes i := if_neg h

/-- Bytes that are stored in two parts. -/
theorem copy_append (first second : List UInt8) :
    b.copy offset (first ++ second) = (b.copy offset first).copy (offset + first.length) second := by
  induction first generalizing b offset with
  | nil => rfl
  | cons value rest ih =>
      rw [List.cons_append, copy, ih, copy, List.length_cons]
      congr 1
      omega

/-- What lies in front of a copy stays. -/
theorem bytes_copy_of_lt {i : Nat} {values : List UInt8} (h : i < offset) :
    (b.copy offset values).bytes i = b.bytes i := by
  induction values generalizing b offset with
  | nil => rfl
  | cons value rest ih => rw [copy, ih (by omega), bytes_put_of_ne (by omega)]

theorem holds_copy {values : List UInt8} : Holds (b.copy offset values).bytes offset values := by
  induction values generalizing b offset with
  | nil => trivial
  | cons value rest ih =>
      refine ⟨?_, ih⟩
      rw [copy, bytes_copy_of_lt (Nat.lt_succ_self _), bytes_put_self]

/-- A message in front of a copy is not touched. -/
theorem holds_copy_of_le {start : Nat} {front values : List UInt8}
    (h : Holds b.bytes start front) (hEnd : start + front.length ≤ offset) :
    Holds (b.copy offset values).bytes start front := by
  rw [holds_iff_get] at h ⊢
  intro i hi
  rw [bytes_copy_of_lt (by omega), h i hi]

theorem holds_put_of_le {start : Nat} {front : List UInt8} {value : UInt8}
    (h : Holds b.bytes start front) (hEnd : start + front.length ≤ offset) :
    Holds (b.put offset value).bytes start front := by
  rw [holds_iff_get] at h ⊢
  intro i hi
  rw [bytes_put_of_ne (by omega), h i hi]

/-- What lies behind a copy stays. -/
theorem bytes_copy_of_le {i : Nat} {values : List UInt8} (h : offset + values.length ≤ i) :
    (b.copy offset values).bytes i = b.bytes i := by
  induction values generalizing b offset with
  | nil => rfl
  | cons value rest ih =>
      rw [List.length_cons] at h
      rw [copy, ih (by omega), bytes_put_of_ne (by omega)]

/-- A message that a copy does not meet is not touched. -/
theorem holds_copy_of_apart {start : Nat} {front values : List UInt8}
    (h : Holds b.bytes start front)
    (hApart : start + front.length ≤ offset ∨ offset + values.length ≤ start) :
    Holds (b.copy offset values).bytes start front := by
  rcases hApart with hFront | hBack
  · exact holds_copy_of_le h hFront
  · rw [holds_iff_get] at h ⊢
    intro i hi
    rw [bytes_copy_of_le (by omega), h i hi]

/-- Blocks that are stored one after the other, each at its offset. -/
def stores (b : Buffer) (blocks : List (Nat × List UInt8)) : Buffer :=
  blocks.foldl (fun b block => b.copy block.1 block.2) b

/-- All blocks are in the buffer where each is. -/
theorem within_stores_iff {blocks : List (Nat × List UInt8)} :
    Within size (b.stores blocks) ↔ Within size b ∧
      ∀ block ∈ blocks, block.2 = [] ∨ block.1 + block.2.length ≤ size := by
  induction blocks generalizing b with
  | nil => simp [stores]
  | cons block rest ih =>
      have hStep : b.stores (block :: rest) = (b.copy block.1 block.2).stores rest := rfl
      rw [hStep, ih, within_copy_iff]
      simp [and_assoc]

theorem holds_stores_of_apart {start : Nat} {front : List UInt8} {blocks : List (Nat × List UInt8)}
    (h : Holds b.bytes start front)
    (hApart : ∀ block ∈ blocks,
      start + front.length ≤ block.1 ∨ block.1 + block.2.length ≤ start) :
    Holds (b.stores blocks).bytes start front := by
  induction blocks generalizing b with
  | nil => exact h
  | cons block rest ih =>
      exact ih (holds_copy_of_apart h (hApart block (List.mem_cons_self ..)))
        fun other hOther => hApart other (List.mem_cons_of_mem _ hOther)

/-- A block stays until one that meets it. -/
theorem holds_stores {offset : Nat} {values : List UInt8} {before after : List (Nat × List UInt8)}
    (hApart : ∀ block ∈ after,
      offset + values.length ≤ block.1 ∨ block.1 + block.2.length ≤ offset) :
    Holds (b.stores (before ++ (offset, values) :: after)).bytes offset values := by
  have hSplit : b.stores (before ++ (offset, values) :: after) =
      ((b.stores before).copy offset values).stores after := by
    simp [stores]
  rw [hSplit]
  exact holds_stores_of_apart holds_copy hApart

end Buffer

end Machine
