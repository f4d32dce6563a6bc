import Tun2Http.Http.RequestLine
import Tun2Http.Machine.Buffer

/-! What `patch_http_url` reads and writes. Its search compares words without
regard to the end of the data, and takes the first byte of a word as it is;
the copy of the host and the look at the target go on until a byte differs. -/
namespace Tun2Http

open Machine

variable {mem : Memory} {n : Nat}

/-! The search as it is meant. -/

/-- The first place at which the whole word lies in the data, in either case. -/
def firstWhole (mem : Memory) (n : Nat) (word : List UInt8) : Option Nat :=
  (List.range n).find? fun pos => decide (pos + word.length ≤ n ∧ SameText mem word pos)

theorem firstWhole_eq_some_iff {word : List UInt8} (hSome : word ≠ []) {pos : Nat} :
    firstWhole mem n word = some pos ↔ (pos + word.length ≤ n ∧ SameText mem word pos) ∧
      ∀ before < pos, ¬ SameText mem word before := by
  have hLong := List.length_pos_iff.mpr hSome
  rw [firstWhole, List.find?_range_eq_some]
  simp only [decide_eq_true_eq, List.mem_range, Bool.not_eq_true', decide_eq_false_iff_not]
  constructor
  · exact fun ⟨hWhole, _, hFirst⟩ => ⟨hWhole, fun before hBefore hSame =>
      hFirst before hBefore ⟨by omega, hSame⟩⟩
  · exact fun ⟨hWhole, hFirst⟩ => ⟨hWhole, by omega, fun before hBefore hBoth =>
      hFirst before hBefore hBoth.2⟩

theorem firstWhole_eq_none_iff {word : List UInt8} (hSome : word ≠ []) :
    firstWhole mem n word = none ↔ ∀ pos, pos + word.length ≤ n → ¬ SameText mem word pos := by
  have hLong := List.length_pos_iff.mpr hSome
  rw [firstWhole, List.find?_range_eq_none]
  simp only [Bool.not_eq_true', decide_eq_false_iff_not, not_and]
  exact ⟨fun h pos hFits => h pos (by omega) hFits, fun h pos _ => h pos⟩

/-! Where the search compares. -/

/-- What is left of the data from `pos` on begins the word and does not end it. -/
def RunsOver (mem : Memory) (n : Nat) (word : List UInt8) (pos : Nat) : Prop :=
  n < pos + word.length ∧ SameText mem (word.take (n - pos)) pos

/-- What is left of the data from `pos` on begins the text, byte by byte, and
does not end it. -/
def CutOff (mem : Memory) (n : Nat) (text : List UInt8) (pos : Nat) : Prop :=
  n < pos + text.length ∧ Holds mem pos (text.take (n - pos))

instance (word : List UInt8) (pos : Nat) : Decidable (RunsOver mem n word pos) :=
  inferInstanceAs (Decidable (_ ∧ _))

theorem sameText_cons {v : UInt8} {rest : List UInt8} {pos : Nat} :
    SameText mem (v :: rest) pos ↔ toLower (mem pos) = toLower v ∧ SameText mem rest (pos + 1) := by
  simp only [SameText, List.length_cons, readBytes, Reader.value_bind, Reader.value_byte,
    Reader.value_pure, List.map_cons, List.cons.injEq]

/-- The comparison reads on until a byte differs or the word ends. -/
theorem within_caseEqual_iff {word : List UInt8} {pos : Nat} (hPos : pos ≤ n) :
    (caseEqual word pos).Within n mem ↔ ¬ RunsOver mem n word pos := by
  induction word generalizing pos with
  | nil =>
      refine iff_of_true (Reader.within_pure _ _ _) fun hOver => ?_
      have hLong := hOver.1
      rw [List.length_nil] at hLong
      omega
  | cons v rest ih =>
      rw [caseEqual, Reader.within_bind, Reader.within_byte, Reader.within_ite, Reader.value_byte,
        RunsOver, List.length_cons]
      by_cases hInside : pos < n
      · have hLeft : n - pos = n - (pos + 1) + 1 := by omega
        have hLong : n < pos + (rest.length + 1) ↔ n < pos + 1 + rest.length := by omega
        rw [and_iff_right hInside, hLeft, List.take_succ_cons, sameText_cons, hLong]
        split_ifs with hSame
        · rw [ih hInside, RunsOver, and_iff_right hSame.symm]
        · exact iff_of_true (Reader.within_pure _ _ _) fun hOver => hSame hOver.2.1.symm
      · have hNone : n - pos = 0 := by omega
        refine iff_of_false (fun h => hInside h.1) fun hNot => hNot ⟨by omega, ?_⟩
        rw [hNone]
        rfl

/-- So does the look at the target. -/
theorem within_targetIs_iff {text : List UInt8} {pos : Nat} (hPos : pos ≤ n) :
    (targetIs text pos).Within n mem ↔ ¬ CutOff mem n text pos := by
  induction text generalizing pos with
  | nil =>
      refine iff_of_true (Reader.within_pure _ _ _) fun hCut => ?_
      have hLong := hCut.1
      rw [List.length_nil] at hLong
      omega
  | cons v rest ih =>
      rw [targetIs, Reader.within_bind, Reader.within_byte, Reader.within_ite, Reader.value_byte,
        CutOff, List.length_cons]
      by_cases hInside : pos < n
      · have hLeft : n - pos = n - (pos + 1) + 1 := by omega
        have hLong : n < pos + (rest.length + 1) ↔ n < pos + 1 + rest.length := by omega
        rw [and_iff_right hInside, hLeft, List.take_succ_cons, holds_cons, hLong]
        split_ifs with hSame
        · rw [ih hInside, CutOff, and_iff_right hSame]
        · exact iff_of_true (Reader.within_pure _ _ _) fun hCut => hSame hCut.2.1
      · have hNone : n - pos = 0 := by omega
        refine iff_of_false (fun h => hInside h.1) fun hNot => hNot ⟨by omega, ?_⟩
        rw [hNone]
        trivial

/-- The skipping stays in the data while two bytes are left. -/
theorem within_skipTo (first : UInt8) {len pos : Nat} (hSum : pos + len = n) (hLen : 2 ≤ len) :
    (skipTo first len pos).Within n mem := by
  induction len generalizing pos with
  | zero => omega
  | succ len ih =>
      rw [skipTo, Reader.within_bind, Reader.within_byte, Reader.within_ite]
      refine ⟨by omega, ?_⟩
      split_ifs with hSkip
      · have hMore := hSkip.2
        exact ih (by omega) (by omega)
      · exact Reader.within_pure _ _ _

/-- From `pos` on, the end of the data does not cut the word where it is compared
before it has been found. -/
def InsideFrom (mem : Memory) (n : Nat) (word : List UInt8) (pos : Nat) : Prop :=
  ∀ place, pos ≤ place → Compared mem n word place →
    (∀ before, pos ≤ before → before < place → ¬ Occurs mem n word before) →
      ¬ RunsOver mem n word place

/-- The first place at which the word is compared may be where it is found. -/
theorem insideFrom_found_iff {word : List UInt8} {pos place : Nat} (hPos : pos ≤ place)
    (hNone : ∀ before, pos ≤ before → before < place → ¬ Compared mem n word before)
    (hFound : Occurs mem n word place) :
    InsideFrom mem n word pos ↔ ¬ RunsOver mem n word place := by
  constructor
  · exact fun hAll => hAll place hPos hFound.2 fun before hFrom hTo hOccurs =>
      hNone before hFrom hTo hOccurs.2
  · intro hInside other hOther hCompared hFirst
    rcases Nat.lt_trichotomy other place with hBefore | rfl | hAfter
    · exact absurd hCompared (hNone other hOther hBefore)
    · exact hInside
    · exact absurd hFound (hFirst place hPos hAfter)

/-- Or the word is not there, and is looked for behind it. -/
theorem insideFrom_missed_iff {word : List UInt8} {pos place : Nat} (hPos : pos ≤ place)
    (hNone : ∀ before, pos ≤ before → before < place → ¬ Compared mem n word before)
    (hHere : Compared mem n word place) (hDiffers : ¬ SameText mem word place) :
    InsideFrom mem n word pos ↔ ¬ RunsOver mem n word place ∧ InsideFrom mem n word (place + 1) := by
  have hMissed : ∀ before, pos ≤ before → before < place + 1 → ¬ Occurs mem n word before := by
    intro before hFrom hTo hOccurs
    rcases Nat.lt_succ_iff_lt_or_eq.mp hTo with hBefore | rfl
    · exact hNone before hFrom hBefore hOccurs.2
    · exact hDiffers hOccurs.1
  constructor
  · intro hAll
    refine ⟨hAll place hPos hHere fun before hFrom hTo => hMissed before hFrom (by omega),
      fun other hOther hCompared hFirst => hAll other (by omega) hCompared fun before hFrom hTo => ?_⟩
    by_cases hEarly : before < place + 1
    · exact hMissed before hFrom hEarly
    · exact hFirst before (not_lt.mp hEarly) hTo
  · rintro ⟨hInside, hRest⟩ other hOther hCompared hFirst
    rcases Nat.lt_trichotomy other place with hBefore | rfl | hAfter
    · exact absurd hCompared (hNone other hOther hBefore)
    · exact hInside
    · exact hRest other hAfter hCompared fun before hFrom => hFirst before (by omega)

/-- The search reads in the data unless, at a place where it compares before it
has found the word, the end of the data cuts the word. -/
theorem within_findFrom_iff (word : List UInt8) {turns len pos : Nat} (hSum : pos + len = n)
    (hTurns : len ≤ turns) (hLast : len = 2 → 0 < pos → mem (pos - 1) = word.headD 0) :
    (findFrom word turns len pos).Within n mem ↔ InsideFrom mem n word pos := by
  induction turns generalizing len pos with
  | zero =>
      refine iff_of_true (Reader.within_pure _ _ _) fun place hPlace hCompared => ?_
      have hEnd := hCompared.le
      omega
  | succ turns ih =>
      rw [findFrom, Reader.within_ite]
      split_ifs with hLen
      · obtain ⟨left, hValue, hTwo, hLeft, hHere, hNone, hFirst⟩ := skipTo_compared mem word hSum hLen
        rw [Reader.within_bind, and_iff_right (within_skipTo _ hSum (by omega)), hValue]
        dsimp only
        rw [Reader.within_bind, within_caseEqual_iff (by omega), Reader.within_ite]
        by_cases hSame : SameText mem word (n - left)
        · rw [if_pos (value_caseEqual_iff.mpr hSame), and_iff_left (Reader.within_pure _ _ _)]
          exact (insideFrom_found_iff (by omega) hNone ⟨hSame, hHere⟩).symm
        · have hNext : n - left + 1 + (left - 1) = n := by omega
          rw [if_neg (mt value_caseEqual_iff.mp hSame),
            ih hNext (by omega) fun hThree _ => hFirst (by omega)]
          exact (insideFrom_missed_iff (by omega) hNone hHere hSame).symm
      · refine iff_of_true (Reader.within_pure _ _ _) fun place hPlace hCompared => ?_
        rcases hCompared with hInside | ⟨hTwo, hPos, hNot⟩
        · omega
        · obtain rfl : place = pos := by omega
          exact absurd (hLast (by omega) hPos) hNot

theorem within_findData_iff (word : List UInt8) :
    (findData n word).Within n mem ↔ ∀ place, Compared mem n word place →
      (∀ before < place, ¬ Occurs mem n word before) → ¬ RunsOver mem n word place := by
  rw [findData, within_findFrom_iff word (Nat.zero_add n) (Nat.le_refl _)
    fun _ hPos => absurd hPos (lt_irrefl 0)]
  simp only [InsideFrom, Nat.zero_le, true_implies]

/-! When the search finds the first whole word. -/

/-- Where the word lies in the data, it begins with the byte that the search
skips to; where it does not, the bytes behind the data complete no word that is
compared. -/
def FindsWhole (mem : Memory) (n : Nat) (word : List UInt8) : Prop :=
  (∀ pos ∈ firstWhole mem n word, mem pos = word.headD 0) ∧ (firstWhole mem n word = none →
    ∀ pos < n, Compared mem n word pos → n < pos + word.length → ¬ SameText mem word pos)

/-- Where the word does not lie in the data, the end of the data does not cut it
at a place where it is compared. -/
def SearchInside (mem : Memory) (n : Nat) (word : List UInt8) : Prop :=
  firstWhole mem n word = none → ∀ pos < n, Compared mem n word pos → ¬ RunsOver mem n word pos

/-- A place in front of a whole word has room for the word. -/
theorem not_occurs_of_firstWhole {word : List UInt8} (hSome : word ≠ []) {pos before : Nat}
    (hFirst : firstWhole mem n word = some pos) (hBefore : before < pos) :
    ¬ Occurs mem n word before := fun hOccurs =>
  ((firstWhole_eq_some_iff hSome).mp hFirst).2 before hBefore hOccurs.1

theorem findData_whole_iff {word : List UInt8} (hLong : 3 ≤ word.length) :
    (findData n word).value mem = firstWhole mem n word ↔ FindsWhole mem n word := by
  have hSome : word ≠ [] := List.ne_nil_of_length_pos (by omega)
  rw [value_findData, FindsWhole]
  cases hWhole : firstWhole mem n word with
  | none =>
      rw [firstAt_eq_none_iff]
      constructor
      · intro hNone
        refine ⟨fun found hFound => ?_, fun _ pos _ hCompared _ hSame => hNone pos ⟨hSame, hCompared⟩⟩
        cases hFound
      · rintro ⟨-, hBehind⟩ pos ⟨hSame, hCompared⟩
        have hLate : n < pos + word.length :=
          not_le.mp fun hFits => (firstWhole_eq_none_iff hSome).mp hWhole pos hFits hSame
        exact hBehind rfl pos (by have := hCompared.le; omega) hCompared hLate hSame
  | some pos =>
      obtain ⟨⟨hFits, hSame⟩, -⟩ := (firstWhole_eq_some_iff hSome).mp hWhole
      rw [firstAt_eq_some_iff]
      constructor
      · rintro ⟨⟨-, ⟨-, hFirst⟩ | hLastTwo⟩, -⟩
        · refine ⟨fun found hFound => ?_, fun hNone => ?_⟩
          · obtain rfl : pos = found := Option.some.inj hFound
            exact hFirst
          · cases hNone
        · omega
      · exact fun hFirst => ⟨⟨hSame, Or.inl ⟨by omega, hFirst.1 pos rfl⟩⟩, fun before hBefore =>
          not_occurs_of_firstWhole hSome hWhole hBefore⟩

/-- A search for the right place reads in the data where the word is there, and
where the end does not cut it. -/
theorem within_findData_whole_iff {word : List UInt8} (hLong : 3 ≤ word.length)
    (hRight : FindsWhole mem n word) : (findData n word).Within n mem ↔ SearchInside mem n word := by
  have hSome : word ≠ [] := List.ne_nil_of_length_pos (by omega)
  rw [within_findData_iff, SearchInside]
  cases hWhole : firstWhole mem n word with
  | none =>
      have hNone := (findData_whole_iff hLong).mpr hRight
      rw [value_findData, hWhole, firstAt_eq_none_iff] at hNone
      constructor
      · exact fun hInside _ pos _ hCompared => hInside pos hCompared fun before _ => hNone before
      · intro hInside pos hCompared _
        have hEnd := hCompared.le
        exact hInside rfl pos (by omega) hCompared
  | some pos =>
      refine iff_of_true (fun place _ hFirst hOver => ?_) fun hNone => by cases hNone
      obtain ⟨⟨hFits, hSame⟩, -⟩ := (firstWhole_eq_some_iff hSome).mp hWhole
      have hFound : Occurs mem n word pos := ⟨hSame, Or.inl ⟨by omega, hRight.1 pos hWhole⟩⟩
      have hPlace : place ≤ pos := not_lt.mp fun hAfter => hFirst pos hAfter hFound
      have hCut := hOver.1
      omega

/-! The whole of `patch_http_url`. -/

def hostWord : List UInt8 := ascii ['H', 'o', 's', 't', ':', ' ']

/-- The words that are searched for. -/
def searchWords : List (List UInt8) := hostWord :: httpWords

theorem length_searchWords : ∀ word ∈ searchWords, 3 ≤ word.length := by decide

/-- The copy of the Host value ends in the data: at a carriage return, or when
`left` bytes are copied. The byte it ends at is read. -/
def CopyEnds (mem : Memory) (n host left : Nat) : Prop :=
  ∃ i ≤ left, host + i < n ∧ (i = left ∨ mem (host + i) = 13)

theorem within_copyHost_iff {host left : Nat} :
    (copyHost host left).Within n mem ↔ CopyEnds mem n host left := by
  induction left generalizing host with
  | zero =>
      rw [copyHost, Reader.within_bind, Reader.within_byte, and_iff_left (Reader.within_pure _ _ _)]
      constructor
      · exact fun h => ⟨0, Nat.le_refl 0, h, Or.inl rfl⟩
      · rintro ⟨i, -, hEnd, -⟩
        omega
  | succ left ih =>
      rw [copyHost, Reader.within_bind, Reader.within_byte, Reader.within_ite, Reader.value_byte]
      split_ifs with hReturn
      · rw [and_iff_left (Reader.within_pure _ _ _)]
        constructor
        · exact fun h => ⟨0, Nat.zero_le _, h, Or.inr hReturn⟩
        · rintro ⟨i, -, hEnd, -⟩
          omega
      · rw [Reader.within_bind, ih, and_iff_left (Reader.within_pure _ _ _)]
        constructor
        · rintro ⟨-, i, hLe, hEnd, hStop⟩
          refine ⟨i + 1, by omega, by omega, hStop.imp (fun h => by omega) fun h => ?_⟩
          rwa [show host + (i + 1) = host + 1 + i by omega]
        · rintro ⟨i, hLe, hEnd, hStop⟩
          cases i with
          | zero => exact absurd (hStop.resolve_left (by omega)) hReturn
          | succ i =>
              refine ⟨by omega, i, by omega, by omega, hStop.imp (fun h => by omega) fun h => ?_⟩
              rwa [show host + 1 + i = host + (i + 1) by omega]

/-- The searches for the methods, up to the one that is there, stay in the data. -/
def SearchesInside (mem : Memory) (n : Nat) : List (List UInt8) → Prop
  | [] => True
  | word :: rest =>
      SearchInside mem n word ∧ (firstWhole mem n word = none → SearchesInside mem n rest)

/-- The first of the words that lies in the data, and where. -/
def wholeWord (mem : Memory) (n : Nat) (words : List (List UInt8)) : Option (Nat × List UInt8) :=
  words.findSome? fun word => (firstWhole mem n word).map fun pos => (pos, word)

theorem value_findWord_whole {words : List (List UInt8)} (hLong : ∀ word ∈ words, 3 ≤ word.length)
    (hRight : ∀ word ∈ words, FindsWhole mem n word) :
    (findWord n words).value mem = wholeWord mem n words := by
  induction words with
  | nil => rfl
  | cons word rest ih =>
      have hFind := (findData_whole_iff (hLong word (List.mem_cons_self ..))).mpr
        (hRight word (List.mem_cons_self ..))
      rw [findWord, Reader.value_bind, hFind, wholeWord, List.findSome?_cons]
      cases firstWhole mem n word with
      | none =>
          exact ih (fun w h => hLong w (List.mem_cons_of_mem _ h))
            (fun w h => hRight w (List.mem_cons_of_mem _ h))
      | some pos => rfl

theorem within_findWord_iff {words : List (List UInt8)} (hLong : ∀ word ∈ words, 3 ≤ word.length)
    (hRight : ∀ word ∈ words, FindsWhole mem n word) :
    (findWord n words).Within n mem ↔ SearchesInside mem n words := by
  induction words with
  | nil => exact iff_of_true (Reader.within_pure _ _ _) trivial
  | cons word rest ih =>
      have hHere := hLong word (List.mem_cons_self ..)
      have hFound := hRight word (List.mem_cons_self ..)
      rw [findWord, Reader.within_bind, within_findData_whole_iff hHere hFound,
        (findData_whole_iff hHere).mpr hFound, SearchesInside]
      refine and_congr_right fun _ => ?_
      cases firstWhole mem n word with
      | none =>
          rw [imp_iff_right rfl]
          exact ih (fun w h => hLong w (List.mem_cons_of_mem _ h))
            (fun w h => hRight w (List.mem_cons_of_mem _ h))
      | some pos => exact iff_of_true (Reader.within_pure _ _ _) fun h => by cases h

theorem wholeWord_eq_some {words : List (List UInt8)} {pos : Nat} {word : List UInt8}
    (h : wholeWord mem n words = some (pos, word)) (hLong : ∀ word ∈ words, 3 ≤ word.length) :
    word ∈ words ∧ pos + word.length ≤ n := by
  obtain ⟨found, hWord, hFirst⟩ := List.exists_of_findSome?_eq_some h
  obtain ⟨place, hPlace, hPair⟩ := Option.map_eq_some_iff.mp hFirst
  obtain ⟨rfl, rfl⟩ := Prod.mk.inj hPair
  have hSome : found ≠ [] := List.ne_nil_of_length_pos (by have := hLong found hWord; omega)
  exact ⟨hWord, ((firstWhole_eq_some_iff hSome).mp hPlace).1.1⟩

/-- `patch_http_url`, whatever it makes of the request that it has found:
`patch` takes the end of the method and the host. -/
def patchHttpUrlWith {α : Type} (stop : α) (patch : Nat → List UInt8 → Reader α) (dataLen : Nat) :
    Reader α := do
  let host ← findData dataLen hostWord
  match host with
  | none => pure stop
  | some host => do
      let hostname ← copyHost (host + 6) 511
      let found ← findWord dataLen httpWords
      match found with
      | none => pure stop
      | some (pos, word) => do
          let pos1 := pos + word.length
          let patched ← targetIs scheme pos1
          if patched then pure stop else patch pos1 hostname

theorem patchHttpUrl_eq_with (dataLen : Nat) :
    patchHttpUrl dataLen = patchHttpUrlWith none (fun pos1 hostname => do
      let before ← readBytes 0 pos1
      let after ← readBytes pos1 ((dataLen + 2 ^ 32 - pos1) % 2 ^ 32)
      let buffer := before ++ schemeSlashes ++ hostname ++ after
      pure (some (buffer.take (dataLen + 7 + hostname.length)))) dataLen := rfl

/-- `*data_len - pos1`, the length of the last copy, before it is a `size_t`. -/
def patchRemaining (dataLen : Nat) : Reader (Option Int) :=
  patchHttpUrlWith none (fun pos1 _ => pure (some ((dataLen : Int) - pos1))) dataLen

/-- The bytes of `patch_buffer`: `2*MTU` elements of four bytes, where `MTU` is 10000. -/
def patchBufferSize : Nat := 2 * 10000 * 4

/-- `patch_http_url` with what it stores in `patch_buffer`. -/
def patchHttpUrlInto (dataLen : Nat) (patchBuffer : Buffer) : Reader Buffer :=
  patchHttpUrlWith patchBuffer (fun pos1 hostname => do
    let before ← readBytes 0 pos1
    let after ← readBytes pos1 ((dataLen + 2 ^ 32 - pos1) % 2 ^ 32)
    pure (patchBuffer.stores [(0, before), (pos1, schemeSlashes), (pos1 + 7, hostname),
      (pos1 + 7 + hostname.length, after)])) dataLen

/-- The end of the method and the host, where a request is rewritten. -/
def patchPlace (mem : Memory) (n : Nat) : Option (Nat × List UInt8) :=
  (hostText mem n).bind fun host => (wordText mem n).bind fun found =>
    if (targetIs scheme (found.1 + found.2.length)).value mem then none
    else some (found.1 + found.2.length, host)

theorem value_patchHttpUrlWith {α : Type} (stop : α) (patch : Nat → List UInt8 → Reader α) :
    (patchHttpUrlWith stop patch n).value mem =
      match patchPlace mem n with
      | none => stop
      | some (pos1, host) => (patch pos1 host).value mem := by
  have hWord : (findWord n httpWords).value mem = wordText mem n := value_findWord n httpWords
  rw [patchHttpUrlWith, Reader.value_bind, value_findData, patchPlace, hostText,
    show hostWord = ascii ['H', 'o', 's', 't', ':', ' '] from rfl]
  cases firstAt mem n (ascii ['H', 'o', 's', 't', ':', ' ']) with
  | none => rfl
  | some pos =>
      rw [Option.map_some, Option.bind_some]
      dsimp only
      rw [Reader.value_bind, value_copyHost, Reader.value_bind, hWord]
      cases wordText mem n with
      | none => rfl
      | some found =>
          rw [Option.bind_some]
          dsimp only
          rw [Reader.value_bind, Reader.value_ite]
          split_ifs <;> rfl

/-- What is stored are the four blocks in one piece. -/
theorem stores_patch {b : Buffer} {pos1 : Nat} {before hostname after : List UInt8}
    (hBefore : before.length = pos1) :
    b.stores [(0, before), (pos1, schemeSlashes), (pos1 + 7, hostname),
      (pos1 + 7 + hostname.length, after)] = b.copy 0 (before ++ schemeSlashes ++ hostname ++ after) := by
  have hSlashes : schemeSlashes.length = 7 := rfl
  simp only [Buffer.stores, List.foldl_cons, List.foldl_nil, Buffer.copy_append, List.length_append,
    hSlashes, hBefore, Nat.zero_add]

/-- The request that is returned stands at the start of the buffer. -/
theorem holds_patchHttpUrlInto {request : List UInt8} (patchBuffer : Buffer)
    (h : (patchHttpUrl n).value mem = some request) :
    Holds ((patchHttpUrlInto n patchBuffer).value mem).bytes 0 request := by
  rw [patchHttpUrl_eq_with, value_patchHttpUrlWith] at h
  rw [patchHttpUrlInto, value_patchHttpUrlWith]
  cases hPlace : patchPlace mem n with
  | none =>
      rw [hPlace] at h
      cases h
  | some place =>
      obtain ⟨pos1, host⟩ := place
      rw [hPlace] at h
      dsimp only at h ⊢
      rw [Reader.value_bind, Reader.value_bind, Reader.value_pure] at h ⊢
      rw [stores_patch (length_readBytes ..), ← Option.some.inj h]
      exact Buffer.holds_copy.take _

/-! The scan with its copies. -/

/-- Every search finds the first whole word, and the scan, with the copies that
follow it, stays in the data and in the buffer. -/
structure PatchSafe (mem : Memory) (n : Nat) : Prop where
  found : ∀ word ∈ searchWords, (findData n word).value mem = firstWhole mem n word
  reads : (patchHttpUrl n).Within n mem
  remaining : ∀ left ∈ (patchRemaining n).value mem, 0 ≤ left
  writes : ∀ bytes, ((patchHttpUrlInto n (.fresh bytes)).value mem).Within patchBufferSize

/-- The words in the data begin with the letter searched for, the end of the data
cuts no word that is compared, and the Host value and the target end in it. -/
structure PatchClear (mem : Memory) (n : Nat) : Prop where
  letters : ∀ word ∈ searchWords, FindsWhole mem n word
  host : SearchInside mem n hostWord
  value : ∀ host, firstWhole mem n hostWord = some host → CopyEnds mem n (host + 6) 511
  methods : ∀ host, firstWhole mem n hostWord = some host → SearchesInside mem n httpWords
  target : ∀ host, firstWhole mem n hostWord = some host → ∀ pos word,
    wholeWord mem n httpWords = some (pos, word) → ¬ CutOff mem n scheme (pos + word.length)

theorem length_httpWords : ∀ word ∈ httpWords, 3 ≤ word.length := fun word h =>
  length_searchWords word (List.mem_cons_of_mem _ h)

theorem within_patchHttpUrlWith_iff {α : Type} {stop : α} {patch : Nat → List UInt8 → Reader α}
    (hRight : ∀ word ∈ searchWords, FindsWhole mem n word)
    (hPatch : ∀ pos1 host, pos1 ≤ n → (patch pos1 host).Within n mem) :
    (patchHttpUrlWith stop patch n).Within n mem ↔ SearchInside mem n hostWord ∧
      ∀ host, firstWhole mem n hostWord = some host → CopyEnds mem n (host + 6) 511 ∧
        SearchesInside mem n httpWords ∧ ∀ pos word, wholeWord mem n httpWords = some (pos, word) →
          ¬ CutOff mem n scheme (pos + word.length) := by
  have hHost := hRight hostWord (List.mem_cons_self ..)
  have hMethods : ∀ word ∈ httpWords, FindsWhole mem n word := fun word h =>
    hRight word (List.mem_cons_of_mem _ h)
  have hLong := length_searchWords hostWord (List.mem_cons_self ..)
  rw [patchHttpUrlWith, Reader.within_bind, within_findData_whole_iff hLong hHost,
    (findData_whole_iff hLong).mpr hHost]
  refine and_congr_right fun _ => ?_
  cases firstWhole mem n hostWord with
  | none => exact iff_of_true (Reader.within_pure _ _ _) fun _ hNone => by cases hNone
  | some host =>
      simp only [Option.some.injEq, forall_eq']
      rw [Reader.within_bind, within_copyHost_iff, Reader.within_bind,
        within_findWord_iff length_httpWords hMethods, value_findWord_whole length_httpWords hMethods]
      refine and_congr_right fun _ => and_congr_right fun _ => ?_
      cases hWord : wholeWord mem n httpWords with
      | none => exact iff_of_true (Reader.within_pure _ _ _) fun _ _ hNone => by cases hNone
      | some found =>
          obtain ⟨pos, word⟩ := found
          have hFits := (wholeWord_eq_some hWord length_httpWords).2
          dsimp only
          rw [Reader.within_bind, within_targetIs_iff hFits, Reader.within_ite]
          constructor
          · rintro ⟨hTarget, -⟩ _ _ hSame
            obtain ⟨rfl, rfl⟩ := Prod.mk.inj (Option.some.inj hSame)
            exact hTarget
          · refine fun hTarget => ⟨hTarget pos word rfl, ?_⟩
            split_ifs
            · exact Reader.within_pure _ _ _
            · exact hPatch _ _ hFits

/-- The method that is found ends in the data, and the host has at most 511 bytes. -/
theorem patchPlace_bounds (hRight : ∀ word ∈ searchWords, FindsWhole mem n word) {pos1 : Nat}
    {host : List UInt8} (h : patchPlace mem n = some (pos1, host)) : pos1 ≤ n ∧ host.length ≤ 511 := by
  rw [patchPlace, Option.bind_eq_some_iff] at h
  obtain ⟨text, hText, h⟩ := h
  obtain ⟨⟨pos, word⟩, hWord, h⟩ := Option.bind_eq_some_iff.mp h
  split_ifs at h
  obtain ⟨rfl, rfl⟩ := Prod.mk.inj (Option.some.inj h)
  constructor
  · have hFound : wordText mem n = wholeWord mem n httpWords := by
      rw [← value_findWord_whole length_httpWords fun word h => hRight word (List.mem_cons_of_mem _ h)]
      exact (value_findWord n httpWords).symm
    exact (wholeWord_eq_some (hFound ▸ hWord) length_httpWords).2
  · obtain ⟨place, -, rfl⟩ := Option.map_eq_some_iff.mp hText
    have hTake := (List.takeWhile_prefix (l := (readBytes (place + 6) 511).value mem) (· ≠ 13)).length_le
    rwa [length_readBytes] at hTake

/-- Behind a method that is found there is no negative length left. -/
theorem patchRemaining_nonneg (hRight : ∀ word ∈ searchWords, FindsWhole mem n word) :
    ∀ left ∈ (patchRemaining n).value mem, 0 ≤ left := by
  rw [patchRemaining, value_patchHttpUrlWith]
  cases hPlace : patchPlace mem n with
  | none => exact fun _ hNone => by cases hNone
  | some place =>
      have hBounds := (patchPlace_bounds hRight hPlace).1
      intro left hLeft
      obtain rfl : (n : Int) - place.1 = left := Option.some.inj hLeft
      omega

/-- The request with its target has room in the buffer. -/
theorem within_patchHttpUrlInto (hRight : ∀ word ∈ searchWords, FindsWhole mem n word)
    (hSmall : n < 2 ^ 16) (bytes : Memory) :
    ((patchHttpUrlInto n (.fresh bytes)).value mem).Within patchBufferSize := by
  rw [patchHttpUrlInto, value_patchHttpUrlWith]
  cases hPlace : patchPlace mem n with
  | none => exact Buffer.within_fresh _ _
  | some place =>
      obtain ⟨pos1, host⟩ := place
      have hBounds := patchPlace_bounds hRight hPlace
      dsimp only
      rw [Reader.value_bind, Reader.value_bind, Reader.value_pure, stores_patch (length_readBytes ..),
        Buffer.within_copy_iff]
      refine ⟨Buffer.within_fresh _ _, Or.inr ?_⟩
      have hSlashes : schemeSlashes.length = 7 := rfl
      simp only [List.length_append, length_readBytes, hSlashes, patchBufferSize]
      omega

/-- The scan finds the first whole words and stays in the data, and what is
stored in the buffer, exactly if the words, the Host value and the target are
so that no end of the data is needed to stop it. -/
theorem patch_safe_iff {mem : Memory} {n : Nat} (hSmall : n < 2 ^ 16) :
    PatchSafe mem n ↔ PatchClear mem n := by
  have hFound : (∀ word ∈ searchWords, (findData n word).value mem = firstWhole mem n word) ↔
      ∀ word ∈ searchWords, FindsWhole mem n word :=
    forall₂_congr fun word h => findData_whole_iff (length_searchWords word h)
  have hCopies : ∀ pos1 (host : List UInt8), pos1 ≤ n → (do
      let before ← readBytes 0 pos1
      let after ← readBytes pos1 ((n + 2 ^ 32 - pos1) % 2 ^ 32)
      let buffer := before ++ schemeSlashes ++ host ++ after
      pure (some (buffer.take (n + 7 + host.length))) : Reader (Option (List UInt8))).Within n mem := by
    intro pos1 host hPos
    rw [Reader.within_bind, Reader.within_bind]
    exact ⟨within_readBytes (by omega), within_readBytes (by omega), Reader.within_pure _ _ _⟩
  constructor
  · rintro ⟨hSearch, hReads, -, -⟩
    have hRight := hFound.mp hSearch
    rw [patchHttpUrl_eq_with, within_patchHttpUrlWith_iff hRight hCopies] at hReads
    exact ⟨hRight, hReads.1, fun host h => (hReads.2 host h).1, fun host h => (hReads.2 host h).2.1,
      fun host h => (hReads.2 host h).2.2⟩
  · rintro ⟨hRight, hHost, hValue, hMethods, hTarget⟩
    refine ⟨hFound.mpr hRight, ?_, patchRemaining_nonneg hRight,
      within_patchHttpUrlInto hRight hSmall⟩
    rw [patchHttpUrl_eq_with, within_patchHttpUrlWith_iff hRight hCopies]
    exact ⟨hHost, fun host h => ⟨hValue host h, hMethods host h, hTarget host h⟩⟩

/-- A request of which nothing is cut. -/
def wholeRequest : List UInt8 :=
  ascii ['G', 'E', 'T', ' ', '/', ' ', '\r', '\n', 'H', 'o', 's', 't', ':', ' ', 'a', '\r', '\n']

theorem patch_safe_wholeRequest : PatchSafe (inFrontOf wholeRequest fun _ => 0) 17 := by
  have hWhole : firstWhole (inFrontOf wholeRequest fun _ => 0) 17 hostWord = some 8 := by decide
  have hGet : wholeWord (inFrontOf wholeRequest fun _ => 0) 17 httpWords =
      some (0, ascii ['G', 'E', 'T', ' ']) := by decide
  refine (patch_safe_iff (by decide)).mpr ⟨?_, ?_, ?_, ?_, ?_⟩
  · unfold FindsWhole
    decide
  · unfold SearchInside
    decide
  · intro host hHost
    obtain rfl : 8 = host := Option.some.inj (hWhole.symm.trans hHost)
    exact ⟨1, by decide, by decide, Or.inr (by decide)⟩
  · intro _ _
    unfold httpWords SearchesInside SearchInside
    exact ⟨fun _ => by decide, fun hNone => absurd hNone (by decide)⟩
  · intro _ _ pos word hWord
    obtain ⟨rfl, rfl⟩ : 0 = pos ∧ ascii ['G', 'E', 'T', ' '] = word :=
      Prod.mk.inj (Option.some.inj (hGet.symm.trans hWord))
    exact fun hCut => absurd hCut.1 (by decide)

/-- A request that ends with its Host value. -/
def cutRequest : List UInt8 :=
  ascii ['G', 'E', 'T', ' ', '/', ' ', '\r', '\n', 'H', 'o', 's', 't', ':', ' ', 'a']

/-- The host is looked for behind the data. -/
theorem cutRequest_not_safe : ¬ PatchSafe (inFrontOf cutRequest fun _ => 0) 15 := by
  intro h
  have hFirst : firstAt (inFrontOf cutRequest fun _ => 0) 15 hostWord = some 8 := by decide
  have hReads := h.reads
  rw [patchHttpUrl_eq_with, patchHttpUrlWith, Reader.within_bind, value_findData, hFirst] at hReads
  obtain ⟨i, -, hEnd, hStop⟩ := within_copyHost_iff.mp ((Reader.within_bind ..).mp hReads.2).1
  obtain rfl : i = 0 := by omega
  exact absurd hStop (by decide)

end Tun2Http
