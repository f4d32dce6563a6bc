import Tun2Http.Native.Util

/-! How far `compare_u32` is the serial comparison that it cites. It compares
the numbers as `int` and subtracts; the order of `int` cuts the circle open at
`0x80000000`, and the subtraction overflows where the two lie on different sides. -/
namespace Tun2Http

open Machine.SerialNumber

/-- A subtraction that `compare_u32` evaluates is not an `int`. Each of the two
is behind a comparison. -/
def CompareOverflows (s1 s2 : U32) : Prop :=
  (s1.toInt < s2.toInt ∧ s2.ssubOverflow s1 = true) ∨
    (s2.toInt < s1.toInt ∧ s1.ssubOverflow s2 = true)

instance (s1 s2 : U32) : Decidable (CompareOverflows s1 s2) := inferInstanceAs (Decidable (_ ∨ _))

/-- The result that serial number arithmetic has for two numbers, where it has one. -/
structure SerialResult (s1 s2 : U32) (result : Int) : Prop where
  equal : s1 = s2 → result = 0
  before : Before s1 s2 → result = -1
  behind : Before s2 s1 → result = 1

/-- The comparison is defined, serial, and antisymmetric but for numbers half the
circle apart. -/
structure ComparesSerially (s1 s2 : U32) : Prop where
  defined : ¬ CompareOverflows s1 s2
  result : SerialResult s1 s2 (compareU32 s1 s2)
  antisymm : ahead s1 s2 ≠ 2 ^ 31 → compareU32 s2 s1 = -compareU32 s1 s2

/-- The distance of two numbers as `int`. -/
def intDistance (s1 s2 : U32) : Nat := (s1.toInt - s2.toInt).natAbs

theorem intDistance_comm (s1 s2 : U32) : intDistance s1 s2 = intDistance s2 s1 := by
  unfold intDistance
  omega

/-- The difference overflows where the signs differ and the numbers lie far apart. -/
theorem compareOverflows_iff (s1 s2 : U32) : CompareOverflows s1 s2 ↔ 2 ^ 31 ≤ intDistance s1 s2 := by
  have h1 := s1.toInt_lt
  have h2 := s2.toInt_lt
  unfold CompareOverflows intDistance
  simp only [BitVec.ssubOverflow, Bool.or_eq_true, decide_eq_true_eq]
  omega

/-- Numbers near to each other are as far apart on the circle. -/
theorem ahead_of_lt {s1 s2 : U32} (hLt : s1.toInt < s2.toInt) : ahead s1 s2 = intDistance s1 s2 := by
  have hBound := (s2 - s1).isLt
  unfold ahead intDistance
  rw [BitVec.toInt_eq_toNat_cond, BitVec.toInt_eq_toNat_cond] at *
  split_ifs at * <;> bv_omega

/-- Without an overflow the smaller number comes before the larger one. -/
theorem before_iff_lt {s1 s2 : U32} (hNear : intDistance s1 s2 < 2 ^ 31) :
    Before s1 s2 ↔ s1.toInt < s2.toInt := by
  rcases lt_trichotomy s1.toInt s2.toInt with hLt | hEq | hGt
  · refine iff_of_true ⟨?_, ?_⟩ hLt
    · rw [ahead_of_lt hLt]
      unfold intDistance
      omega
    · rwa [ahead_of_lt hLt]
  · rw [BitVec.eq_of_toInt_eq hEq]
    exact iff_of_false (before_irrefl s2) (lt_irrefl _)
  · have hBack := ahead_of_lt hGt
    rw [intDistance_comm] at hBack
    refine iff_of_false ?_ (not_lt.mpr hGt.le)
    rintro ⟨hSome, hHalf⟩
    rcases ahead_cases s2 s1 s2 with ⟨hLe, -⟩ | ⟨-, hDist⟩
    · rw [ahead_self] at hLe
      unfold intDistance at hBack
      omega
    · rw [ahead_self] at hDist
      omega

/-- The result, where the difference is an `int`. At the largest one it is wrong. -/
theorem compareU32_of_near {s1 s2 : U32} (hNear : intDistance s1 s2 < 2 ^ 31) : compareU32 s1 s2 =
    if s1 = s2 then 0 else if Before s1 s2 ∧ intDistance s1 s2 ≠ 2 ^ 31 - 1 then -1 else 1 := by
  have hBefore := before_iff_lt hNear
  have hNeg := @compareU32_neg_iff s1 s2
  have hZero := @compareU32_eq_zero_iff s1 s2
  have hSame : Before s1 s2 → ahead s1 s2 = intDistance s1 s2 := fun h => ahead_of_lt (hBefore.mp h)
  have hThree : compareU32 s1 s2 = 0 ∨ compareU32 s1 s2 = -1 ∨ compareU32 s1 s2 = 1 := by
    unfold compareU32
    dsimp only
    split_ifs <;> simp
  split_ifs with hEq hLess
  · exact hZero.mpr hEq
  · have := hNeg.mpr ⟨hBefore.mp hLess.1, by rw [hSame hLess.1]; exact hLess.2⟩
    omega
  · have hNone : compareU32 s1 s2 ≠ 0 := mt hZero.mp hEq
    have hNot : ¬ compareU32 s1 s2 < 0 := by
      intro h
      obtain ⟨hLt, hDist⟩ := hNeg.mp h
      exact hLess ⟨hBefore.mpr hLt, by rwa [← hSame (hBefore.mpr hLt)]⟩
    omega

/-- Nearer than `0x7FFFFFFF` the comparison is the serial one. -/
theorem serialResult_of_near {s1 s2 : U32} (hNear : intDistance s1 s2 < 2 ^ 31 - 1) :
    SerialResult s1 s2 (compareU32 s1 s2) := by
  have hDefined : intDistance s1 s2 < 2 ^ 31 := by omega
  rw [compareU32_of_near hDefined]
  constructor
  · exact fun hEq => if_pos hEq
  · intro hBefore
    have hNe : s1 ≠ s2 := fun hEq => before_irrefl s2 (hEq ▸ hBefore)
    rw [if_neg hNe, if_pos ⟨hBefore, hNear.ne⟩]
  · intro hBehind
    have hGt := (before_iff_lt (by rwa [intDistance_comm])).mp hBehind
    have hNot : ¬ Before s1 s2 := mt (before_iff_lt hDefined).mp (not_lt.mpr hGt.le)
    have hNe : s1 ≠ s2 := fun hEq => before_irrefl s2 (hEq ▸ hBehind)
    rw [if_neg hNe, if_neg fun h => hNot h.1]

/-- Of two numbers `0x7FFFFFFF` apart both are said to be the larger one. -/
theorem compareU32_of_far {s1 s2 : U32} (hFar : intDistance s1 s2 = 2 ^ 31 - 1) :
    compareU32 s1 s2 = 1 := by
  have hNe : s1 ≠ s2 := by
    rintro rfl
    simp [intDistance] at hFar
  rw [compareU32_of_near (by omega), if_neg hNe, if_neg fun h => h.2 hFar]

/-- Two different numbers that are near to each other are ordered one way or the other. -/
theorem before_or_before {s1 s2 : U32} (hNear : intDistance s1 s2 < 2 ^ 31) (hNe : s1 ≠ s2) :
    Before s1 s2 ∨ Before s2 s1 := by
  rw [before_iff_lt hNear, before_iff_lt (by rwa [intDistance_comm])]
  exact lt_or_gt_of_ne fun hEq => hNe (BitVec.eq_of_toInt_eq hEq)

/-- `compare_u32` is the serial comparison exactly for numbers that are less
than `0x7FFFFFFF` apart as `int`. -/
theorem compares_serially_iff (s1 s2 : U32) :
    ComparesSerially s1 s2 ↔ intDistance s1 s2 < 2 ^ 31 - 1 := by
  constructor
  · rintro ⟨hDefined, -, hAntisymm⟩
    rw [compareOverflows_iff] at hDefined
    by_contra hFar
    have hDist : intDistance s1 s2 = 2 ^ 31 - 1 := by omega
    have hNe : s1 ≠ s2 := by
      rintro rfl
      simp [intDistance] at hDist
    have hAhead : ahead s1 s2 ≠ 2 ^ 31 := by
      rcases before_or_before (by omega) hNe with hBefore | hBehind
      · exact hBefore.2.ne
      · have hBack := hBehind.2
        rcases ahead_cases s1 s1 s2 with ⟨-, h⟩ | ⟨h, -⟩
        · rcases ahead_cases s1 s2 s1 with ⟨hLe, h'⟩ | ⟨-, h'⟩
          · rw [ahead_self] at hLe
            omega
          · rw [ahead_self] at h'
            omega
        · rw [ahead_self] at h
          omega
    have hOpposite := hAntisymm hAhead
    rw [compareU32_of_far hDist, compareU32_of_far (by rwa [intDistance_comm])] at hOpposite
    omega
  · intro hNear
    have hBack : intDistance s2 s1 < 2 ^ 31 - 1 := by rwa [intDistance_comm]
    refine ⟨?_, serialResult_of_near hNear, fun _ => ?_⟩
    · rw [compareOverflows_iff]
      omega
    · have hResult := serialResult_of_near hNear
      have hReverse := serialResult_of_near hBack
      by_cases hEq : s1 = s2
      · rw [hResult.equal hEq, hReverse.equal hEq.symm]
        rfl
      · rcases before_or_before (by omega) hEq with hBefore | hBehind
        · rw [hResult.before hBefore, hReverse.behind hBefore]
          rfl
        · rw [hResult.behind hBehind, hReverse.before hBehind]

/-- 0 comes before `0x7FFFFFFF`, but the result is 1. -/
theorem compare_not_serial : ¬ ComparesSerially 0 0x7FFFFFFF := by
  intro h
  have hResult := h.result.before (by decide)
  revert hResult
  decide

end Tun2Http
