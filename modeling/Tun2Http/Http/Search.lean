import Mathlib.Data.List.Range
import Tun2Http.Native.Http

/-! What `find_data` finds: the first place at which the word stands, with its
first byte as it is and the others in either case. It looks for it in all the
data, and in what lies behind the data. -/
namespace Tun2Http

open Machine

/-- The bytes at `pos` are those of the text, in either case. -/
def SameText (mem : Memory) (text : List UInt8) (pos : Nat) : Prop :=
  ((readBytes pos text.length).value mem).map toLower = text.map toLower

/-- The word is compared at `pos`: its first byte is there, or it is the last
place but one, which the skipping of other bytes ends at. -/
def Compared (mem : Memory) (n : Nat) (word : List UInt8) (pos : Nat) : Prop :=
  (pos + 2 < n ∧ mem pos = word.headD 0) ∨ (pos + 2 = n ∧ 0 < pos ∧ mem (pos - 1) ≠ word.headD 0)

/-- `find_data` stops at `pos`. -/
def Occurs (mem : Memory) (dataLen : Nat) (word : List UInt8) (pos : Nat) : Prop :=
  SameText mem word pos ∧ Compared mem dataLen word pos

instance (mem : Memory) (text : List UInt8) (pos : Nat) : Decidable (SameText mem text pos) :=
  inferInstanceAs (Decidable (_ = _))

instance (mem : Memory) (n : Nat) (word : List UInt8) (pos : Nat) : Decidable (Compared mem n word pos) :=
  inferInstanceAs (Decidable (_ ∨ _))

instance (mem : Memory) (dataLen : Nat) (word : List UInt8) (pos : Nat) :
    Decidable (Occurs mem dataLen word pos) :=
  inferInstanceAs (Decidable (_ ∧ _))

/-- The first place where the word occurs. -/
def firstAt (mem : Memory) (dataLen : Nat) (word : List UInt8) : Option Nat :=
  (List.range dataLen).find? fun pos => decide (Occurs mem dataLen word pos)

variable {mem : Memory}

theorem SameText.get {text : List UInt8} {pos : Nat} (h : SameText mem text pos) {i : Nat}
    (hi : i < text.length) : toLower (mem (pos + i)) = toLower text[i] := by
  have hRead := (holds_readBytes mem pos text.length).get (by rwa [length_readBytes])
  rw [hRead]
  have hMap := List.getElem_of_eq h (i := i) (by simpa using hi)
  simpa using hMap

theorem Occurs.lt {dataLen pos : Nat} {word : List UInt8} (h : Occurs mem dataLen word pos) :
    pos < dataLen := by
  rcases h.2 with hInside | hLast <;> omega

theorem firstAt_eq_some_iff {dataLen pos : Nat} {word : List UInt8} :
    firstAt mem dataLen word = some pos ↔
      Occurs mem dataLen word pos ∧ ∀ before < pos, ¬ Occurs mem dataLen word before := by
  rw [firstAt, List.find?_range_eq_some]
  simp only [decide_eq_true_eq, List.mem_range, Bool.not_eq_true', decide_eq_false_iff_not]
  constructor
  · exact fun ⟨hOccurs, _, hFirst⟩ => ⟨hOccurs, hFirst⟩
  · exact fun ⟨hOccurs, hFirst⟩ => ⟨hOccurs, hOccurs.lt, hFirst⟩

theorem firstAt_eq_none_iff {dataLen : Nat} {word : List UInt8} :
    firstAt mem dataLen word = none ↔ ∀ pos, ¬ Occurs mem dataLen word pos := by
  rw [firstAt, List.find?_range_eq_none]
  simp only [Bool.not_eq_true', decide_eq_false_iff_not]
  exact ⟨fun h pos hOccurs => h pos hOccurs.lt hOccurs, fun h pos _ => h pos⟩

theorem value_caseEqual_iff {text : List UInt8} {pos : Nat} :
    (caseEqual text pos).value mem = true ↔ SameText mem text pos := by
  induction text generalizing pos with
  | nil => exact iff_of_true rfl rfl
  | cons v rest ih =>
      rw [caseEqual, Reader.value_bind, Reader.value_byte, Reader.value_ite]
      simp only [SameText, List.length_cons, readBytes, Reader.value_bind, Reader.value_byte,
        Reader.value_pure, List.map_cons, List.cons.injEq]
      split_ifs with hFirst
      · rw [ih, hFirst]
        exact (and_iff_right rfl).symm
      · exact iff_of_false id fun h => hFirst h.1.symm

variable (mem) in
/-- The skipping ends at the first byte of the word, or at the last two bytes. -/
theorem skipTo_spec (first : UInt8) {len pos dataLen : Nat} (hSum : pos + len = dataLen)
    (hLen : 2 < len) :
    ∃ left, (skipTo first len pos).value mem = (dataLen - left, left) ∧ left ≤ len ∧
      (∀ skipped, pos ≤ skipped → skipped < dataLen - left → mem skipped ≠ first) ∧
      ((2 < left ∧ mem (dataLen - left) = first) ∨ left = 2) := by
  induction len generalizing pos with
  | zero => omega
  | succ len ih =>
      rw [skipTo, Reader.value_bind, Reader.value_byte, Reader.value_ite]
      have hHere : dataLen - (len + 1) = pos := by omega
      by_cases hSkip : mem pos ≠ first ∧ len + 1 > 2
      · rw [if_pos hSkip]
        by_cases hMore : 2 < len
        · have hNext : pos + 1 + len = dataLen := by omega
          obtain ⟨left, hValue, hLeft, hSkipped, hEnd⟩ := ih hNext hMore
          refine ⟨left, hValue, by omega, fun skipped hFrom hTo => ?_, hEnd⟩
          rcases Nat.lt_or_eq_of_le hFrom with hLater | rfl
          · exact hSkipped skipped hLater hTo
          · exact hSkip.1
        · -- Two bytes are left, and nothing more is skipped.
          have hTwo : len = 2 := by omega
          subst hTwo
          refine ⟨2, ?_, by omega, fun skipped hFrom hTo => ?_, Or.inr rfl⟩
          · rw [skipTo, Reader.value_bind, Reader.value_byte, Reader.value_ite,
              if_neg fun h => absurd h.2 (by decide), Reader.value_pure]
            rw [show dataLen - 2 = pos + 1 by omega]
          · obtain rfl : skipped = pos := by omega
            exact hSkip.1
      · rw [if_neg hSkip]
        refine ⟨len + 1, ?_, Nat.le_refl _, fun skipped hFrom hTo => by omega, Or.inl ⟨hLen, ?_⟩⟩
        · rw [Reader.value_pure, hHere]
        · rw [hHere]
          exact not_not.mp fun h => hSkip ⟨h, hLen⟩

theorem Compared.le {n : Nat} {word : List UInt8} {pos : Nat} (h : Compared mem n word pos) :
    pos + 2 ≤ n := by
  rcases h with hInside | hLast <;> omega

variable (mem) in
/-- The word is compared where the skipping ends, and nowhere before. -/
theorem skipTo_compared (word : List UInt8) {len pos dataLen : Nat} (hSum : pos + len = dataLen)
    (hLen : 2 < len) :
    ∃ left, (skipTo (word.headD 0) len pos).value mem = (dataLen - left, left) ∧ 2 ≤ left ∧
      left ≤ len ∧ Compared mem dataLen word (dataLen - left) ∧
      (∀ before, pos ≤ before → before < dataLen - left → ¬ Compared mem dataLen word before) ∧
      (2 < left → mem (dataLen - left) = word.headD 0) := by
  obtain ⟨left, hValue, hLeft, hSkipped, hEnd⟩ := skipTo_spec mem (word.headD 0) hSum hLen
  have hTwo : 2 ≤ left := by rcases hEnd with hMore | hTwo <;> omega
  refine ⟨left, hValue, hTwo, hLeft, ?_, ?_, fun hMore => ?_⟩
  · rcases hEnd with ⟨hMore, hFirst⟩ | hTwo
    · exact Or.inl ⟨by omega, hFirst⟩
    · exact Or.inr ⟨by omega, by omega, hSkipped _ (by omega) (by omega)⟩
  · rintro before hFrom hTo (hInside | hLastTwo)
    · exact hSkipped before hFrom hTo hInside.2
    · omega
  · exact (hEnd.resolve_right (Nat.ne_of_gt hMore)).2

variable (mem) in
/-- The word is found at the first place from `pos` on, if the place before the
last two bytes was not passed over. -/
theorem findFrom_spec (word : List UInt8) {turns len pos dataLen : Nat} (hSum : pos + len = dataLen)
    (hTurns : len ≤ turns) (hLast : len = 2 → 0 < pos → mem (pos - 1) = word.headD 0) :
    match (findFrom word turns len pos).value mem with
    | some found => pos ≤ found ∧ Occurs mem dataLen word found ∧
        ∀ before, pos ≤ before → before < found → ¬ Occurs mem dataLen word before
    | none => ∀ later, pos ≤ later → ¬ Occurs mem dataLen word later := by
  induction turns generalizing len pos with
  | zero =>
      rintro later hLater ⟨-, hInside | hLastTwo⟩ <;> omega
  | succ turns ih =>
      rw [findFrom, Reader.value_ite]
      by_cases hLen : len > 2
      · obtain ⟨left, hValue, hTwo, hLeft, hHere, hNone, hFirst⟩ := skipTo_compared mem word hSum hLen
        rw [if_pos hLen, Reader.value_bind, hValue]
        dsimp only
        rw [Reader.value_bind, Reader.value_ite]
        by_cases hSame : SameText mem word (dataLen - left)
        · rw [if_pos (value_caseEqual_iff.mpr hSame), Reader.value_pure]
          exact ⟨by omega, ⟨hSame, hHere⟩, fun before hFrom hTo hOccurs =>
            hNone before hFrom hTo hOccurs.2⟩
        · rw [if_neg (mt value_caseEqual_iff.mp hSame)]
          have hNext : dataLen - left + 1 + (left - 1) = dataLen := by omega
          have hRest := ih hNext (by omega) fun hThree _ => hFirst (by omega)
          have hUpTo : ∀ before, pos ≤ before → before < dataLen - left + 1 →
              ¬ Occurs mem dataLen word before := by
            intro before hFrom hTo hOccurs
            rcases Nat.lt_succ_iff_lt_or_eq.mp hTo with hBefore | rfl
            · exact hNone before hFrom hBefore hOccurs.2
            · exact hSame hOccurs.1
          cases hFound : (findFrom word turns (left - 1) (dataLen - left + 1)).value mem with
          | none =>
              rw [hFound] at hRest
              intro later hLater
              by_cases hTo : later < dataLen - left + 1
              · exact hUpTo later hLater hTo
              · exact hRest later (not_lt.mp hTo)
          | some found =>
              rw [hFound] at hRest
              refine ⟨by omega, hRest.2.1, fun before hFrom hTo => ?_⟩
              by_cases hEarly : before < dataLen - left + 1
              · exact hUpTo before hFrom hEarly
              · exact hRest.2.2 before (not_lt.mp hEarly) hTo
      · rw [if_neg hLen, Reader.value_pure]
        rintro later hLater ⟨-, hInside | ⟨hTwo, hPos, hNot⟩⟩
        · omega
        · obtain rfl : later = pos := by omega
          exact hNot (hLast (by omega) hPos)

/-- `find_data` finds the first place where the word occurs. -/
theorem value_findData (dataLen : Nat) (word : List UInt8) :
    (findData dataLen word).value mem = firstAt mem dataLen word := by
  have hSpec := findFrom_spec mem word (Nat.zero_add dataLen) (Nat.le_refl _)
    fun _ hPos => absurd hPos (lt_irrefl 0)
  unfold findData
  cases hFound : (findFrom word dataLen dataLen 0).value mem with
  | none =>
      rw [hFound] at hSpec
      exact (firstAt_eq_none_iff.mpr fun pos => hSpec pos (Nat.zero_le _)).symm
  | some found =>
      rw [hFound] at hSpec
      exact (firstAt_eq_some_iff.mpr
        ⟨hSpec.2.1, fun before hBefore => hSpec.2.2 before (Nat.zero_le _) hBefore⟩).symm

end Tun2Http
