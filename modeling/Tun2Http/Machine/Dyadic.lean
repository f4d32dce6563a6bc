import Mathlib.Algebra.Group.Nat.Defs
import Mathlib.Data.List.Basic

/-! Dyadic blocks: 2 ^ k numbers from a multiple of 2 ^ k on. Two blocks are
disjoint or one is a part of the other, so a range from which the longest block
there is gets cut off at its lower end, again and again, comes to as few blocks
as any. -/
namespace Machine

/-- The 2 ^ order numbers from `first` on. -/
structure DyadicBlock where
  first : Nat
  order : Nat
  aligned : 2 ^ order ∣ first

namespace DyadicBlock

variable {a b : DyadicBlock} {x y : Nat}

/-- The first number behind the block. -/
def stop (b : DyadicBlock) : Nat := b.first + 2 ^ b.order

instance : Membership Nat DyadicBlock := ⟨fun b x => b.first ≤ x ∧ x < b.stop⟩

theorem mem_iff : x ∈ b ↔ b.first ≤ x ∧ x < b.stop := Iff.rfl

theorem first_lt_stop (b : DyadicBlock) : b.first < b.stop :=
  Nat.lt_add_of_pos_right (Nat.two_pow_pos _)

theorem first_mem (b : DyadicBlock) : b.first ∈ b := ⟨Nat.le_refl _, b.first_lt_stop⟩

theorem last_mem (b : DyadicBlock) : b.stop - 1 ∈ b := by
  have hSome := b.first_lt_stop
  exact ⟨by omega, by omega⟩

/-- The numbers of a block agree but for their last `order` bits. -/
theorem mem_iff_div : x ∈ b ↔ x / 2 ^ b.order = b.first / 2 ^ b.order := by
  have hPos : 0 < 2 ^ b.order := Nat.two_pow_pos _
  have hFirst : 2 ^ b.order * (b.first / 2 ^ b.order) = b.first := Nat.mul_div_cancel' b.aligned
  rw [mem_iff, stop]
  constructor
  · rintro ⟨hLow, hHigh⟩
    apply Nat.div_eq_of_lt_le
    · rwa [Nat.mul_comm, hFirst]
    · rwa [Nat.mul_comm, Nat.mul_add, hFirst, Nat.mul_one]
  · intro hSame
    have hRest := Nat.div_add_mod x (2 ^ b.order)
    have hBound := Nat.mod_lt x hPos
    rw [hSame, hFirst] at hRest
    omega

/-- Of two blocks that meet the one of lower order is a part of the other. -/
theorem mem_of_order_le (hOrder : a.order ≤ b.order) (hA : x ∈ a) (hB : x ∈ b) (hY : y ∈ a) :
    y ∈ b := by
  rw [mem_iff_div] at hA hB hY ⊢
  have hSplit : ∀ n, n / 2 ^ b.order = n / 2 ^ a.order / 2 ^ (b.order - a.order) := fun n => by
    rw [Nat.div_div_eq_div_mul, ← Nat.pow_add, Nat.add_sub_cancel' hOrder]
  rw [hSplit, hY, ← hA, ← hSplit, hB]

/-- A block that begins below a power of two, and is not longer, ends there
at the latest. -/
theorem stop_le {width : Nat} (hOrder : b.order ≤ width) (hFirst : b.first < 2 ^ width) :
    b.stop ≤ 2 ^ width := by
  obtain ⟨q, hQ⟩ := b.aligned
  obtain ⟨r, hR⟩ := Nat.pow_dvd_pow 2 hOrder
  rw [hQ, hR] at hFirst
  rw [stop, hQ, hR, ← Nat.mul_succ]
  exact Nat.mul_le_mul_left _ (Nat.lt_of_mul_lt_mul_left hFirst)

/-- A mask of the first bits leaves the first number of the block. -/
theorem and_mask {n order width : Nat} (hOrder : order ≤ width) (hN : n < 2 ^ width) :
    n &&& (2 ^ width - 2 ^ order) = 2 ^ order * (n / 2 ^ order) := by
  have hMask : 2 ^ width - 2 ^ order = 2 ^ order * (2 ^ (width - order) - 1) := by
    rw [Nat.mul_sub, Nat.mul_one, ← Nat.pow_add, Nat.add_sub_cancel' hOrder]
  apply Nat.eq_of_testBit_eq
  intro i
  rw [hMask, Nat.testBit_and, Nat.testBit_two_pow_mul, Nat.testBit_two_pow_mul,
    Nat.testBit_two_pow_sub_one, Nat.testBit_div_two_pow]
  by_cases hLow : order ≤ i
  · by_cases hHigh : i < width
    · have hIn : i - order < width - order := by omega
      simp [hLow, hIn]
    · have hNone : n.testBit i = false :=
        Nat.testBit_lt_two_pow (Nat.lt_of_lt_of_le hN (Nat.pow_le_pow_right (by decide) (by omega)))
      simp [hLow, hNone]
  · simp [hLow]

end DyadicBlock

/-- The blocks cover the range and nothing else. -/
def Covers (blocks : List DyadicBlock) (first stop : Nat) : Prop :=
  ∀ x, (∃ b ∈ blocks, x ∈ b) ↔ first ≤ x ∧ x < stop

/-- Each block is the longest one that the rest of the range begins with. -/
inductive LongestFirst : Nat → Nat → List DyadicBlock → Prop where
  | done {first stop : Nat} (hDone : stop ≤ first) : LongestFirst first stop []
  | cut {stop : Nat} (b : DyadicBlock) {rest : List DyadicBlock} (hFits : b.stop ≤ stop)
      (hLongest : ∀ k, 2 ^ k ∣ b.first → b.first + 2 ^ k ≤ stop → k ≤ b.order)
      (hRest : LongestFirst b.stop stop rest) : LongestFirst b.first stop (b :: rest)

namespace LongestFirst

variable {first stop : Nat} {blocks other : List DyadicBlock}

theorem covers (h : LongestFirst first stop blocks) : Covers blocks first stop := by
  induction h with
  | done hDone =>
      intro x
      constructor
      · rintro ⟨b, hIn, -⟩
        exact absurd hIn List.not_mem_nil
      · rintro ⟨hLow, hHigh⟩
        omega
  | @cut stop b rest hFits hLongest hRest ih =>
      intro x
      have hStart := b.first_lt_stop
      rw [List.exists_mem_cons_iff, ih x, DyadicBlock.mem_iff]
      omega

/-- Each block begins behind those before it. -/
theorem ordered (h : LongestFirst first stop blocks) :
    blocks.Pairwise fun a b => a.stop ≤ b.first := by
  induction h with
  | done hDone => exact .nil
  | cut b hFits hLongest hRest ih =>
      refine List.pairwise_cons.mpr ⟨fun c hC => ?_, ih⟩
      exact ((hRest.covers c.first).mp ⟨c, hC, c.first_mem⟩).1

/-- A block in the range is a part of the longest one, or begins behind it. -/
theorem part_or_behind {b c : DyadicBlock}
    (hLongest : ∀ k, 2 ^ k ∣ b.first → b.first + 2 ^ k ≤ stop → k ≤ b.order)
    (hInside : ∀ x ∈ c, b.first ≤ x ∧ x < stop) : (∀ x ∈ c, x ∈ b) ∨ b.stop ≤ c.first := by
  by_cases hMeet : c.first ∈ b
  · by_cases hOrder : c.order ≤ b.order
    · exact .inl fun x => DyadicBlock.mem_of_order_le hOrder c.first_mem hMeet
    · -- A longer block holds all of `b`, so it would begin where `b` begins.
      have hFirst : b.first ∈ c :=
        DyadicBlock.mem_of_order_le (by omega) hMeet c.first_mem b.first_mem
      have hSame : c.first = b.first := Nat.le_antisymm hFirst.1 (hInside _ c.first_mem).1
      have hEnd := (hInside _ c.last_mem).2
      have hLong : c.order ≤ b.order := by
        apply hLongest _ (hSame ▸ c.aligned)
        have hStop : c.stop = b.first + 2 ^ c.order := by rw [DyadicBlock.stop, hSame]
        have hSome := c.first_lt_stop
        omega
      exact absurd hLong hOrder
  · have hLow := (hInside _ c.first_mem).1
    rw [DyadicBlock.mem_iff] at hMeet
    omega

/-- No blocks that cover the range are fewer. -/
theorem length_le (h : LongestFirst first stop blocks) (hOther : Covers other first stop) :
    blocks.length ≤ other.length := by
  induction h generalizing other with
  | done hDone => exact Nat.zero_le _
  | @cut stop b rest hFits hLongest hRest ih =>
      have hSides : ∀ c ∈ other, (∀ x ∈ c, x ∈ b) ∨ b.stop ≤ c.first := fun c hC =>
        part_or_behind hLongest fun x hX => (hOther x).mp ⟨c, hC, hX⟩
      have hStart := b.first_lt_stop
      -- What begins behind the first block covers the rest.
      have hBehind : Covers (other.filter fun c => b.stop ≤ c.first) b.stop stop := by
        intro x
        constructor
        · rintro ⟨c, hC, hX⟩
          obtain ⟨hC, hLater⟩ := List.mem_filter.mp hC
          have hRange := (hOther x).mp ⟨c, hC, hX⟩
          exact ⟨Nat.le_trans (of_decide_eq_true hLater) hX.1, hRange.2⟩
        · rintro ⟨hLow, hHigh⟩
          obtain ⟨c, hC, hX⟩ := (hOther x).mpr ⟨by omega, hHigh⟩
          refine ⟨c, List.mem_filter.mpr ⟨hC, decide_eq_true ?_⟩, hX⟩
          refine (hSides c hC).resolve_left fun hPart => ?_
          have hIn := (hPart x hX).2
          omega
      -- What holds the first number of the range does not.
      obtain ⟨c, hC, hFirst⟩ := (hOther b.first).mpr ⟨Nat.le_refl _, by omega⟩
      have hFewer : (other.filter fun c => b.stop ≤ c.first).length < other.length := by
        refine List.length_filter_lt_length_iff_exists.mpr ⟨c, hC, ?_⟩
        have hLow := hFirst.1
        simp only [decide_eq_true_eq]
        omega
      have hLess := ih hBehind
      rw [List.length_cons]
      omega

end LongestFirst

end Machine
