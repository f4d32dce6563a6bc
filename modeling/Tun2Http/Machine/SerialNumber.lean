import Mathlib.Data.BitVec

/-! Serial number arithmetic on 32-bit counters. Positions are measured as
distances from a moving base, so that order and overlap become arithmetic on
natural numbers as long as everything lies less than half the circle ahead. -/
namespace Machine.SerialNumber

/-- How far `x` lies ahead of `base` on the circle. -/
def ahead (base x : BitVec 32) : Nat := (x - base).toNat

/-- `a` comes serially before `b`: `b` is ahead by less than half the circle. -/
def Before (a b : BitVec 32) : Prop := 0 < ahead a b ∧ ahead a b < 2 ^ 31

instance (a b : BitVec 32) : Decidable (Before a b) := inferInstanceAs (Decidable (_ ∧ _))

@[simp] theorem ahead_self (base : BitVec 32) : ahead base base = 0 := by
  simp [ahead]

theorem ahead_eq_zero_iff {base x : BitVec 32} : ahead base x = 0 ↔ x = base := by
  unfold ahead
  constructor <;> intro h <;> bv_omega

theorem ahead_lt (base x : BitVec 32) : ahead base x < 2 ^ 32 := (x - base).isLt

theorem ahead_inj {base x y : BitVec 32} : ahead base x = ahead base y ↔ x = y := by
  unfold ahead
  constructor <;> intro h <;> bv_omega

theorem add_one_eq_iff {x y : BitVec 32} : x + 1 = y ↔ ahead x y = 1 := by
  unfold ahead
  constructor <;> intro h <;> bv_omega

/-- The distance from `x` to `y`, on the circle cut open at `base`. -/
theorem ahead_cases (base x y : BitVec 32) :
    (ahead base x ≤ ahead base y ∧ ahead x y = ahead base y - ahead base x) ∨
      (ahead base y < ahead base x ∧ ahead x y = ahead base y + 2 ^ 32 - ahead base x) := by
  unfold ahead
  bv_omega

/-- The signed order cuts the circle at `0x80000000`. -/
theorem toInt_lt_iff {x y : BitVec 32} :
    x.toInt < y.toInt ↔ ahead 0x80000000 x < ahead 0x80000000 y := by
  simp only [ahead, BitVec.toInt_eq_toNat_cond]
  constructor <;> intro h <;> bv_omega

/-- Moving the base by `n` places, not past `x`, subtracts `n`. -/
theorem ahead_advance {base x : BitVec 32} {n : Nat} (h : n ≤ ahead base x) :
    ahead (base + BitVec.ofNat 32 n) x = ahead base x - n := by
  unfold ahead at *
  bv_omega

/-- What does not come before `base` lies in the half circle ahead of it. -/
theorem not_before_iff {base x : BitVec 32} : ¬ Before x base ↔ ahead base x ≤ 2 ^ 31 := by
  unfold Before ahead
  constructor <;> intro h <;> bv_omega

theorem before_irrefl (a : BitVec 32) : ¬ Before a a := by simp [Before]

theorem add_ofNat_add (base : BitVec 32) (m n : Nat) :
    base + BitVec.ofNat 32 m + BitVec.ofNat 32 n = base + BitVec.ofNat 32 (m + n) := by
  bv_omega

end Machine.SerialNumber
