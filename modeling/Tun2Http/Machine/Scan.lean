import Mathlib.Data.List.DropRight
import Mathlib.Data.Nat.Log
import Mathlib.Tactic.IntervalCases

/-! Text that is printed and scanned as `printf` and `sscanf` do. A scan runs down its directives
and stops at the first that the text does not meet. Numbers that were printed in any padding are
scanned as themselves, and a file of short lines is read line by line. -/
namespace Machine.Scan

/-- `isspace`. -/
def IsSpace (c : UInt8) : Prop := c = 32 ∨ 9 ≤ c ∧ c ≤ 13

instance : DecidablePred IsSpace := fun c => inferInstanceAs (Decidable (c = 32 ∨ 9 ≤ c ∧ c ≤ 13))

/-- The value of a digit in a base up to 16. -/
def digitValue (base : Nat) (c : UInt8) : Option Nat :=
  let value :=
    if 48 ≤ c ∧ c ≤ 57 then c.toNat - 48
    else if 65 ≤ c ∧ c ≤ 70 then c.toNat - 55
    else if 97 ≤ c ∧ c ≤ 102 then c.toNat - 87
    else base
  if value < base then some value else none

def IsDigit (base : Nat) (c : UInt8) : Prop := (digitValue base c).isSome = true

instance (base : Nat) : DecidablePred (IsDigit base) := fun c =>
  inferInstanceAs (Decidable ((digitValue base c).isSome = true))

/-- The number that digits stand for. -/
def textValue (base : Nat) (text : List UInt8) : Nat :=
  text.foldl (fun n c => n * base + (digitValue base c).getD 0) 0

/-- `text` is the number `n` in digits. -/
structure Numeral (base : Nat) (text : List UInt8) (n : Nat) : Prop where
  some : text ≠ []
  digits : ∀ c ∈ text, IsDigit base c
  value : textValue base text = n

/-! Printing. -/

/-- A digit as it is printed. -/
def digit (value : Nat) : UInt8 :=
  if value < 10 then (48 + value).toUInt8 else (55 + value).toUInt8

/-- The last `width` digits of `n`. -/
def digits (base : Nat) : Nat → Nat → List UInt8
  | 0, _ => []
  | width + 1, n => digits base width (n / base) ++ [digit (n % base)]

/-- As many digits as `n` has. -/
def size (base n : Nat) : Nat := Nat.log base n + 1

/-- `%0<width>X` and the like: zeros in front up to `width`. -/
def padded (base width n : Nat) : List UInt8 := digits base (max width (size base n)) n

/-- `%<width>d` and the like: blanks in front up to `width`. -/
def spaced (base width n : Nat) : List UInt8 :=
  List.replicate (width - size base n) 32 ++ digits base (size base n) n

theorem digitValue_digit {base value : Nat} (hMost : base ≤ 16) (hValue : value < base) :
    digitValue base (digit value) = some value := by
  have hSmall : value < 16 := by omega
  unfold digitValue digit
  interval_cases value <;> simp_all

theorem length_digits (base width n : Nat) : (digits base width n).length = width := by
  induction width generalizing n with
  | zero => rfl
  | succ width ih => simp [digits, ih]

theorem textValue_append (base : Nat) (text : List UInt8) (c : UInt8) :
    textValue base (text ++ [c]) = textValue base text * base + (digitValue base c).getD 0 := by
  simp [textValue]

theorem numeral_digits {base width n : Nat} (hBase : 1 < base) (hMost : base ≤ 16) (hWidth : width ≠ 0)
    (hFits : n < base ^ width) : Numeral base (digits base width n) n := by
  have hPositive : 0 < base := by omega
  refine ⟨fun hNone => ?_, ?_, ?_⟩
  · rw [← length_digits base width n, hNone] at hWidth
    exact hWidth rfl
  · clear hFits hWidth
    induction width generalizing n with
    | zero => nofun
    | succ width ih =>
        intro c hIn
        rcases List.mem_append.mp hIn with hFront | hLast
        · exact ih c hFront
        · rw [List.mem_singleton.mp hLast, IsDigit, digitValue_digit hMost (Nat.mod_lt _ hPositive)]
          rfl
  · clear hWidth
    induction width generalizing n with
    | zero => simp_all [digits, textValue]
    | succ width ih =>
        have hFront : n / base < base ^ width := by
          rw [Nat.div_lt_iff_lt_mul hPositive, ← pow_succ]
          exact hFits
        rw [digits, textValue_append, ih hFront, digitValue_digit hMost (Nat.mod_lt _ hPositive)]
        exact Nat.div_add_mod' n base

theorem numeral_padded {base : Nat} (hBase : 1 < base) (hMost : base ≤ 16) (width n : Nat) :
    Numeral base (padded base width n) n := by
  apply numeral_digits hBase hMost (by unfold size; omega)
  exact (Nat.lt_pow_succ_log_self hBase n).trans_le (Nat.pow_le_pow_right (by omega) (le_max_right _ _))

theorem length_padded {base width n : Nat} (hWidth : width ≠ 0) (hFits : n < base ^ width) :
    (padded base width n).length = width := by
  have hSize : size base n ≤ width := Nat.log_lt_of_lt_pow' hWidth hFits
  rw [padded, length_digits, max_eq_left hSize]

/-- Blanks and a numeral. -/
theorem spaced_eq {base : Nat} (hBase : 1 < base) (hMost : base ≤ 16) (width n : Nat) :
    ∃ blanks text, spaced base width n = blanks ++ text ∧ (∀ c ∈ blanks, c = 32) ∧ Numeral base text n := by
  refine ⟨_, _, rfl, fun c hIn => List.eq_of_mem_replicate hIn, ?_⟩
  exact numeral_digits hBase hMost (by unfold size; omega) (Nat.lt_pow_succ_log_self hBase n)

/-! Scanning. -/

/-- What a format asks for. A conversion that is not kept is one with `*`. -/
inductive Directive where
  | space
  | char (c : UInt8)
  | number (base : Nat) (keep : Bool)
  | word (width : Nat) (keep : Bool)

/-- What a conversion stores. -/
inductive Value where
  | number (value : Int)
  | word (text : List UInt8)
  deriving DecidableEq

namespace Directive

/-- The directive stores what it converts. -/
def keeps : Directive → Bool
  | number _ keep => keep
  | word _ keep => keep
  | _ => false

end Directive

def skipSpace (text : List UInt8) : List UInt8 := text.dropWhile (IsSpace ·)

/-- `strtol` and `strtoul`: a sign, for hexadecimal numbers `0x`, and digits. -/
def readNumber (base : Nat) (text : List UInt8) : Option (Int × List UInt8) :=
  let sign : Int := if text.head? = some 45 then -1 else 1
  let text := if text.head? = some 45 ∨ text.head? = some 43 then text.tail else text
  let marked := base = 16 ∧ text.head? = some 48 ∧ (text[1]? = some 120 ∨ text[1]? = some 88) ∧
    ∃ c ∈ text[2]?, IsDigit base c
  let text := if marked then text.drop 2 else text
  let found := text.takeWhile (IsDigit base ·)
  if found = [] then none else some (sign * textValue base found, text.drop found.length)

/-- `sscanf`: what is stored before the text ends or does not match. -/
def scan : List Directive → List UInt8 → List Value
  | [], _ => []
  | .space :: more, text => scan more (skipSpace text)
  | .char c :: more, text => if text.head? = some c then scan more text.tail else []
  | .number base keep :: more, text =>
      match readNumber base (skipSpace text) with
      | none => []
      | some (value, rest) => if keep then .number value :: scan more rest else scan more rest
  | .word width keep :: more, text =>
      let found := ((skipSpace text).takeWhile (¬ IsSpace ·)).take width
      let rest := (skipSpace text).drop found.length
      if found = [] then []
      else if keep then .word found :: scan more rest
      else scan more rest

variable {base n : Nat} {blanks text tail : List UInt8} {more : List Directive}

/-- A number ends before `tail`. -/
def Ends (base : Nat) (tail : List UInt8) : Prop :=
  ∀ c ∈ tail.head?, ¬ IsDigit base c ∧ c ≠ 120 ∧ c ≠ 88

theorem not_isDigit_of_value {c : UInt8} (hDigit : ¬ (48 ≤ c ∧ c ≤ 57)) (hUpper : ¬ (65 ≤ c ∧ c ≤ 70))
    (hLower : ¬ (97 ≤ c ∧ c ≤ 102)) : ¬ IsDigit base c := by
  simp [IsDigit, digitValue, hDigit, hUpper, hLower]

theorem IsDigit.ne {c : UInt8} (h : IsDigit base c) : c ≠ 43 ∧ c ≠ 45 ∧ c ≠ 120 ∧ c ≠ 88 ∧ ¬ IsSpace c := by
  refine ⟨?_, ?_, ?_, ?_, fun hSpace => ?_⟩
  iterate 4 (rintro rfl; exact not_isDigit_of_value (by decide) (by decide) (by decide) h)
  rcases hSpace with rfl | ⟨-, hLast⟩
  · exact not_isDigit_of_value (by decide) (by decide) (by decide) h
  · refine not_isDigit_of_value ?_ ?_ ?_ h
    all_goals
      rintro ⟨hFirst, -⟩
      have hBounds := UInt8.le_trans hFirst hLast
      revert hBounds
      decide

theorem skipSpace_append (hBlanks : ∀ c ∈ blanks, IsSpace c) (hText : ∀ c ∈ text.head?, ¬ IsSpace c) :
    skipSpace (blanks ++ text) = text := by
  rw [skipSpace, List.dropWhile_append_of_pos (by simpa using hBlanks)]
  cases text with
  | nil => rfl
  | cons c text => exact List.dropWhile_cons_of_neg (by simpa using hText c rfl)

theorem skipSpace_skipSpace (text : List UInt8) : skipSpace (skipSpace text) = skipSpace text :=
  List.dropWhile_idempotent ..

theorem readNumber_numeral (hNumeral : Numeral base text n) (hEnds : Ends base tail) :
    readNumber base (text ++ tail) = some ((n : Int), tail) := by
  obtain ⟨hSome, hDigits, hValue⟩ := hNumeral
  obtain ⟨c, text, rfl⟩ := List.exists_cons_of_ne_nil hSome
  obtain ⟨hPlus, hMinus, -⟩ := (hDigits c (List.mem_cons_self ..)).ne
  have hMark : ∀ d ∈ (c :: text ++ tail)[1]?, d ≠ 120 ∧ d ≠ 88 := by
    intro d hd
    cases text with
    | nil =>
        have hHead : d ∈ tail.head? := by simpa [List.head?_eq_getElem?] using hd
        exact (hEnds d hHead).2
    | cons e text =>
        have hSame : e = d := by simpa using hd
        have hDigit := (hDigits e (List.mem_cons_of_mem _ (List.mem_cons_self ..))).ne
        exact hSame ▸ ⟨hDigit.2.2.1, hDigit.2.2.2.1⟩
  have hFound : (c :: text ++ tail).takeWhile (IsDigit base ·) = c :: text := by
    rw [List.takeWhile_append_of_pos (by simpa using hDigits)]
    cases tail with
    | nil => simp
    | cons d tail => simp [(hEnds d rfl).1]
  have hUnmarked : ¬ (base = 16 ∧ (c :: text ++ tail).head? = some 48 ∧
      ((c :: text ++ tail)[1]? = some 120 ∨ (c :: text ++ tail)[1]? = some 88) ∧
      ∃ d ∈ (c :: text ++ tail)[2]?, IsDigit base d) := by
    rintro ⟨-, -, hMarked | hMarked, -⟩
    · exact (hMark _ hMarked).1 rfl
    · exact (hMark _ hMarked).2 rfl
  have hUnsigned : (c :: text ++ tail).head? ≠ some 45 ∧ (c :: text ++ tail).head? ≠ some 43 := by
    simpa using ⟨hMinus, hPlus⟩
  unfold readNumber
  dsimp only
  rw [if_neg hUnsigned.1, if_neg (not_or.mpr hUnsigned), if_neg hUnmarked, hFound, if_neg hSome, hValue,
    List.drop_left, one_mul]

theorem scan_number (hBlanks : ∀ c ∈ blanks, IsSpace c) (hNumeral : Numeral base text n)
    (hEnds : Ends base tail) (keep : Bool) : scan (.number base keep :: more) (blanks ++ (text ++ tail)) =
      (if keep then [.number n] else []) ++ scan more tail := by
  have hHead : ∀ c ∈ (text ++ tail).head?, ¬ IsSpace c := by
    obtain ⟨c, rest, rfl⟩ := List.exists_cons_of_ne_nil hNumeral.some
    intro d hd
    obtain rfl : c = d := by simpa using hd
    exact (hNumeral.digits c (List.mem_cons_self ..)).ne.2.2.2.2
  rw [scan, skipSpace_append hBlanks hHead, readNumber_numeral hNumeral hEnds]
  cases keep <;> rfl

theorem scan_char (c : UInt8) : scan (.char c :: more) ([c] ++ tail) = scan more tail := by simp [scan]

theorem ends_append {c : UInt8} (hDigit : ¬ IsDigit base c) (hMark : c ≠ 120 ∧ c ≠ 88) :
    Ends base ([c] ++ tail) := by
  intro d hd
  obtain rfl : c = d := by simpa using hd
  exact ⟨hDigit, hMark⟩

/-- Blanks before a conversion are skipped in any case. -/
theorem scan_space_number (keep : Bool) :
    scan (.space :: .number base keep :: more) text = scan (.number base keep :: more) text := by
  rw [scan, scan, scan, skipSpace_skipSpace]

theorem scan_space_word (width : Nat) (keep : Bool) :
    scan (.space :: .word width keep :: more) text = scan (.word width keep :: more) text := by
  rw [scan, scan, scan, skipSpace_skipSpace]

theorem isSpace_blank : ∀ c ∈ ([32] : List UInt8), IsSpace c := List.forall_mem_singleton.mpr (Or.inl rfl)

/-- A number after a blank. -/
theorem scan_blank_number (hNumeral : Numeral base text n) (hEnds : Ends base tail) (keep : Bool) :
    scan (.space :: .number base keep :: more) ([32] ++ (text ++ tail)) =
      (if keep then [.number n] else []) ++ scan more tail := by
  rw [scan_space_number, scan_number isSpace_blank hNumeral hEnds]

/-- A number after a sign. -/
theorem scan_char_number (c : UInt8) (hNumeral : Numeral base text n) (hEnds : Ends base tail) (keep : Bool) :
    scan (.char c :: .number base keep :: more) ([c] ++ (text ++ tail)) =
      (if keep then [.number n] else []) ++ scan more tail := by
  rw [scan_char, ← List.nil_append (text ++ tail), scan_number (by simp) hNumeral hEnds]

theorem scan_word (hBlanks : ∀ c ∈ blanks, IsSpace c) (hText : ∀ c ∈ text, ¬ IsSpace c)
    (hSome : text ≠ []) (keep : Bool) :
    scan (.word text.length keep :: more) (blanks ++ (text ++ tail)) =
      (if keep then [.word text] else []) ++ scan more tail := by
  have hHead : ∀ c ∈ (text ++ tail).head?, ¬ IsSpace c := by
    obtain ⟨c, rest, rfl⟩ := List.exists_cons_of_ne_nil hSome
    intro d hd
    obtain rfl : c = d := by simpa using hd
    exact hText c (List.mem_cons_self ..)
  have hFound : ((text ++ tail).takeWhile (¬ IsSpace ·)).take text.length = text := by
    rw [List.takeWhile_append_of_pos (by simpa using hText)]
    exact List.take_left ..
  rw [scan, skipSpace_append hBlanks hHead]
  simp only [hFound, if_neg hSome, List.drop_left]
  cases keep <;> rfl

/-- Directives that keep nothing store nothing. -/
theorem scan_unkept (hKeeps : ∀ d ∈ more, d.keeps = false) (text : List UInt8) : scan more text = [] := by
  induction more generalizing text with
  | nil => rfl
  | cons d more ih =>
      have hRest := ih fun e he => hKeeps e (List.mem_cons_of_mem _ he)
      have hFirst := hKeeps d (List.mem_cons_self ..)
      cases d with
      | space => exact hRest _
      | char c =>
          rw [scan]
          split_ifs
          · exact hRest _
          · rfl
      | number base keep =>
          obtain rfl : keep = false := hFirst
          rw [scan]
          split
          · rfl
          · exact hRest _
      | word width keep =>
          obtain rfl : keep = false := hFirst
          simp only [scan, Bool.false_eq_true, if_false]
          split_ifs
          · rfl
          · exact hRest _

/-! Lines. -/

/-- `fgets` up to the end of a file, into a buffer for `room` bytes: `line` is what it has read
of the next line. -/
def getLines (room : Nat) : List UInt8 → List UInt8 → List (List UInt8)
  | line, [] => if line = [] then [] else [line]
  | line, c :: rest =>
      if c = 10 ∨ line.length + 1 = room then (line ++ [c]) :: getLines room [] rest
      else getLines room (line ++ [c]) rest

/-- A line that fits is read whole. -/
theorem getLines_line {room : Nat} {line : List UInt8} (hPlain : 10 ∉ text)
    (hFits : line.length + text.length < room) (rest : List UInt8) :
    getLines room line (text ++ 10 :: rest) = (line ++ text ++ [10]) :: getLines room [] rest := by
  induction text generalizing line with
  | nil => simp [getLines]
  | cons c text ih =>
      obtain ⟨hFirst, hRest⟩ := not_or.mp (List.mem_cons.not.mp hPlain)
      rw [List.length_cons] at hFits
      have hMore : ¬ (c = 10 ∨ line.length + 1 = room) := by
        rintro (rfl | hFull)
        · exact hFirst rfl
        · omega
      rw [List.cons_append, getLines, if_neg hMore, ih hRest (by simp; omega)]
      simp

/-- So is a file of such lines. -/
theorem getLines_file {room : Nat} {lines : List (List UInt8)}
    (hLines : ∀ line ∈ lines, 10 ∉ line ∧ line.length < room) :
    getLines room [] (lines.flatMap (· ++ [10])) = lines.map (· ++ [10]) := by
  induction lines with
  | nil => rfl
  | cons line lines ih =>
      obtain ⟨hPlain, hShort⟩ := hLines line (List.mem_cons_self ..)
      rw [List.flatMap_cons, List.append_assoc, List.singleton_append,
        getLines_line hPlain (by simpa using hShort), ih fun l hl => hLines l (List.mem_cons_of_mem _ hl)]
      rfl

end Machine.Scan
