import Mathlib.Data.List.Basic

/-! Reading a memory that has more bytes than the object in it. A reader
returns its value together with the offsets it touched, so that a bound on
the reads is a statement about the reader and not about what lies behind. -/
namespace Machine

/-- Bytes by offset. Offsets past the object hold arbitrary bytes. -/
abbrev Memory := Nat → UInt8

/-- A computation that reads bytes, with the list of offsets it has read. -/
def Reader (α : Type) := Memory → α × List Nat

namespace Reader

variable {α β : Type}

/-- The result of the computation. -/
def value (x : Reader α) (mem : Memory) : α := (x mem).1

/-- The offsets read, in order. -/
def reads (x : Reader α) (mem : Memory) : List Nat := (x mem).2

/-- Every read lies in the first `length` bytes. -/
def Within (length : Nat) (x : Reader α) (mem : Memory) : Prop :=
  ∀ offset ∈ x.reads mem, offset < length

instance : Monad Reader where
  pure a := fun _ => (a, [])
  bind x f := fun mem => ((f (x mem).1 mem).1, (x mem).2 ++ (f (x mem).1 mem).2)

/-- Read one byte. -/
def byte (offset : Nat) : Reader UInt8 := fun mem => (mem offset, [offset])

@[simp] theorem value_pure (a : α) (mem : Memory) : value (pure a) mem = a := rfl

@[simp] theorem reads_pure (a : α) (mem : Memory) : reads (pure a) mem = [] := rfl

@[simp] theorem value_bind (x : Reader α) (f : α → Reader β) (mem : Memory) :
    value (x >>= f) mem = value (f (value x mem)) mem := rfl

@[simp] theorem reads_bind (x : Reader α) (f : α → Reader β) (mem : Memory) :
    reads (x >>= f) mem = reads x mem ++ reads (f (value x mem)) mem := rfl

@[simp] theorem value_byte (offset : Nat) (mem : Memory) : value (byte offset) mem = mem offset := rfl

@[simp] theorem reads_byte (offset : Nat) (mem : Memory) : reads (byte offset) mem = [offset] := rfl

@[simp] theorem within_pure (length : Nat) (a : α) (mem : Memory) :
    Within length (pure a) mem := by
  simp [Within]

@[simp] theorem within_byte (length offset : Nat) (mem : Memory) :
    Within length (byte offset) mem ↔ offset < length := by
  simp [Within]

/-- Bounds of a sequence are the bounds of its parts, the second part being
the one that the first part's value selects. -/
@[simp] theorem within_bind (length : Nat) (x : Reader α) (f : α → Reader β) (mem : Memory) :
    Within length (x >>= f) mem ↔ Within length x mem ∧ Within length (f (value x mem)) mem := by
  simp [Within, or_imp, forall_and]

theorem value_ite (p : Prop) [Decidable p] (x y : Reader α) (mem : Memory) :
    value (if p then x else y) mem = if p then value x mem else value y mem := by
  split <;> rfl

theorem reads_ite (p : Prop) [Decidable p] (x y : Reader α) (mem : Memory) :
    reads (if p then x else y) mem = if p then reads x mem else reads y mem := by
  split <;> rfl

theorem within_ite (length : Nat) (p : Prop) [Decidable p] (x y : Reader α) (mem : Memory) :
    Within length (if p then x else y) mem ↔
      if p then Within length x mem else Within length y mem := by
  split <;> rfl

/-- The computation reads in bounds, and its value is as wanted. -/
def Meets (length : Nat) (P : α → Prop) (x : Reader α) (mem : Memory) : Prop :=
  Within length x mem ∧ P (value x mem)

section Meets

variable {length : Nat} {P : α → Prop} {Q : β → Prop} {mem : Memory}

theorem meets_pure {a : α} (h : P a) : Meets length P (pure a) mem := ⟨within_pure length a mem, h⟩

theorem meets_bind {x : Reader α} {f : α → Reader β} (hFirst : Within length x mem)
    (hRest : Meets length Q (f (value x mem)) mem) : Meets length Q (x >>= f) mem :=
  ⟨(within_bind length x f mem).mpr ⟨hFirst, hRest.1⟩, hRest.2⟩

theorem meets_ite {p : Prop} [Decidable p] {x y : Reader α} (hThen : p → Meets length P x mem)
    (hElse : ¬ p → Meets length P y mem) : Meets length P (if p then x else y) mem := by
  split_ifs with h
  · exact hThen h
  · exact hElse h

end Meets

end Reader

end Machine
