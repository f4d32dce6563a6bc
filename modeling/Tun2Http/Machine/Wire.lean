import Mathlib.Data.List.TakeWhile
import Tun2Http.Machine.Memory

/-! Messages on the wire: a block of bytes that lies in a memory, and the
fields of two bytes that it is put together from. -/
namespace Machine

/-- The memory has `bytes` from `offset` on. -/
def Holds (mem : Memory) : Nat → List UInt8 → Prop
  | _, [] => True
  | offset, b :: rest => mem offset = b ∧ Holds mem (offset + 1) rest

/-- A 16-bit field in network order. -/
def field16 (n : Nat) : List UInt8 := [(n / 256).toUInt8, (n % 256).toUInt8]

@[simp] theorem length_field16 (n : Nat) : (field16 n).length = 2 := rfl

variable {mem : Memory} {offset : Nat}

@[simp] theorem holds_nil : Holds mem offset [] := trivial

@[simp] theorem holds_cons {b : UInt8} {rest : List UInt8} :
    Holds mem offset (b :: rest) ↔ mem offset = b ∧ Holds mem (offset + 1) rest := Iff.rfl

/-- A message lies where its parts lie one behind the other. -/
@[simp] theorem holds_append {front back : List UInt8} :
    Holds mem offset (front ++ back) ↔
      Holds mem offset front ∧ Holds mem (offset + front.length) back := by
  induction front generalizing offset with
  | nil => simp
  | cons b rest ih =>
      simp only [List.cons_append, holds_cons, ih, List.length_cons, and_assoc]
      rw [show offset + 1 + rest.length = offset + (rest.length + 1) by omega]

theorem Holds.get {bytes : List UInt8} (h : Holds mem offset bytes) {i : Nat}
    (hi : i < bytes.length) : mem (offset + i) = bytes[i] := by
  induction bytes generalizing offset i with
  | nil => simp at hi
  | cons b rest ih =>
      cases i with
      | zero => exact h.1
      | succ i =>
          have hRest := ih h.2 (Nat.lt_of_succ_lt_succ hi)
          rw [show offset + (i + 1) = offset + 1 + i by omega, hRest]
          rfl

theorem holds_iff_get {bytes : List UInt8} :
    Holds mem offset bytes ↔ ∀ i (hi : i < bytes.length), mem (offset + i) = bytes[i] := by
  refine ⟨fun h i hi => h.get hi, fun h => ?_⟩
  induction bytes generalizing offset with
  | nil => trivial
  | cons b rest ih =>
      refine ⟨h 0 (Nat.succ_pos _), ih fun i hi => ?_⟩
      have hNext := h (i + 1) (Nat.succ_lt_succ hi)
      rw [show offset + 1 + i = offset + (i + 1) by omega, hNext]
      rfl

/-- The first bytes of a message lie where it lies. -/
theorem Holds.take {bytes : List UInt8} (h : Holds mem offset bytes) (count : Nat) :
    Holds mem offset (bytes.take count) := by
  rw [← List.take_append_drop count bytes, holds_append] at h
  exact h.1

/-- So do its last ones, behind them. -/
theorem Holds.drop {bytes : List UInt8} (h : Holds mem offset bytes) {count : Nat}
    (hCount : count ≤ bytes.length) : Holds mem (offset + count) (bytes.drop count) := by
  rw [← List.take_append_drop count bytes, holds_append, List.length_take,
    Nat.min_eq_left hCount] at h
  exact h.2

/-- Of two messages in one place the shorter begins the longer. -/
theorem Holds.isPrefix_of_length_le {short long : List UInt8} (hShort : Holds mem offset short)
    (hLong : Holds mem offset long) (hLength : short.length ≤ long.length) : short <+: long := by
  rw [List.prefix_iff_eq_take]
  refine List.ext_getElem (List.length_take_of_le hLength).symm fun i hi hi' => ?_
  rw [List.getElem_take, ← hShort.get hi]
  exact hLong.get (by omega)

/-- A list can be laid into a memory. -/
theorem holds_getD (bytes : List UInt8) : Holds (fun i => bytes.getD i 0) 0 bytes := by
  rw [holds_iff_get]
  intro i hi
  simp [hi]

/-- A message with other bytes behind it. -/
def inFrontOf (bytes : List UInt8) (behind : Memory) : Memory := fun offset =>
  if h : offset < bytes.length then bytes[offset] else behind (offset - bytes.length)

theorem holds_inFrontOf (bytes : List UInt8) (behind : Memory) :
    Holds (inFrontOf bytes behind) 0 bytes := by
  rw [holds_iff_get]
  intro i hi
  simp [inFrontOf, hi]

end Machine
