import Tun2Http.Http.Search

/-! Making the request line absolute. The request is rewritten in the right way
where the words that `find_data` finds are the method at the start and the
value of the Host header; it looks for them anywhere. -/
namespace Tun2Http

open Machine

def scheme : List UInt8 := ascii ['h', 't', 't', 'p', ':']

def schemeSlashes : List UInt8 := ascii ['h', 't', 't', 'p', ':', '/', '/']

/-! What the rewriting is for. -/

/-- The lines of a text, without the last one if it does not end. -/
def textLines : List UInt8 → List (List UInt8)
  | [] => []
  | 13 :: 10 :: rest => [] :: textLines rest
  | b :: rest => match textLines rest with
      | [] => []
      | line :: more => (b :: line) :: more

/-- The lines between the request line and the first empty one. -/
def headerLines (d : List UInt8) : List (List UInt8) := ((textLines d).drop 1).takeWhile (· ≠ [])

/-- The line is a Host header; the name of a field is the same in either case. -/
def isHostLine (line : List UInt8) : Bool :=
  (ascii ['h', 'o', 's', 't', ':']).isPrefixOf (line.map toLower)

/-- The value of a field, without the blanks in front of it. -/
def fieldValue (line : List UInt8) : List UInt8 :=
  (line.drop 5).dropWhile fun b => decide (b = 32 ∨ b = 9)

/-- The value of the Host header. -/
def hostHeader (d : List UInt8) : Option (List UInt8) :=
  ((headerLines d).find? isHostLine).map fieldValue

/-- The method that the text begins with, with the space behind it. -/
def requestMethod (d : List UInt8) : Option (List UInt8) := httpWords.find? (·.isPrefixOf d)

/-- Where a request is to be rewritten: its method and its host. -/
def insertion (d : List UInt8) : Option (List UInt8 × List UInt8) :=
  (requestMethod d).bind fun word => (hostHeader d).bind fun host =>
    if scheme.isPrefixOf (d.drop word.length) ∨ 511 < host.length then none else some (word, host)

/-- The rewritten request, or `none` where the text is to stay as it is. -/
def rewritten (d : List UInt8) : Option (List UInt8) :=
  (insertion d).map fun (word, host) => word ++ schemeSlashes ++ host ++ d.drop word.length

/-! What the search of the source finds instead. -/

/-- What follows the first `Host: `, up to a carriage return or 511 bytes. -/
def hostText (mem : Memory) (dataLen : Nat) : Option (List UInt8) :=
  (firstAt mem dataLen (ascii ['H', 'o', 's', 't', ':', ' '])).map fun pos =>
    ((readBytes (pos + 6) 511).value mem).takeWhile (· ≠ 13)

/-- The first of the methods that occurs, and where. -/
def wordText (mem : Memory) (dataLen : Nat) : Option (Nat × List UInt8) :=
  httpWords.findSome? fun word => (firstAt mem dataLen word).map fun pos => (pos, word)

/-- Nothing is found to rewrite: no host, no method, or the target behind the
method found is absolute. -/
def NothingFound (mem : Memory) (dataLen : Nat) : Prop :=
  hostText mem dataLen = none ∨ wordText mem dataLen = none ∨
    ∃ pos word, wordText mem dataLen = some (pos, word) ∧ Holds mem (pos + word.length) scheme

/-- The words found are those of the request: the text behind the first `Host: `
is the value of its header, and no method tried before its own occurs. Where
there is nothing to rewrite, nothing is found. -/
def FoundRightly (mem : Memory) (d : List UInt8) : Prop :=
  match insertion d with
  | some (word, host) =>
      hostText mem d.length = some host ∧ wordText mem d.length = some (0, word)
  | none => NothingFound mem d.length

variable {mem : Memory}

theorem value_copyHost (host left : Nat) :
    (copyHost host left).value mem = ((readBytes host left).value mem).takeWhile (· ≠ 13) := by
  induction left generalizing host with
  | zero => rfl
  | succ left ih =>
      simp only [copyHost, readBytes, Reader.value_bind, Reader.value_byte, Reader.value_pure,
        List.takeWhile_cons]
      by_cases hReturn : mem host = 13
      · simp [hReturn]
      · simp [hReturn, ih]

theorem value_findWord (dataLen : Nat) (words : List (List UInt8)) :
    (findWord dataLen words).value mem =
      words.findSome? fun word => (firstAt mem dataLen word).map fun pos => (pos, word) := by
  induction words with
  | nil => rfl
  | cons word rest ih =>
      rw [findWord, Reader.value_bind, value_findData, List.findSome?_cons]
      cases firstAt mem dataLen word with
      | none => exact ih
      | some pos => rfl

theorem value_targetIs_iff {text : List UInt8} {pos : Nat} :
    (targetIs text pos).value mem = true ↔ Holds mem pos text := by
  induction text generalizing pos with
  | nil => exact iff_of_true rfl trivial
  | cons v rest ih =>
      rw [targetIs, Reader.value_bind, Reader.value_byte, Reader.value_ite, holds_cons]
      split_ifs with hFirst
      · rw [ih, and_iff_right hFirst]
      · exact iff_of_false Bool.false_ne_true fun h => hFirst h.1

/-- The buffer that the rewritten data is put together in, `dataLen + 7` bytes
and the host of it. -/
def patched (mem : Memory) (dataLen pos1 : Nat) (host : List UInt8) : List UInt8 :=
  ((readBytes 0 pos1).value mem ++ schemeSlashes ++ host ++
    (readBytes pos1 ((dataLen + 2 ^ 32 - pos1) % 2 ^ 32)).value mem).take (dataLen + 7 + host.length)

theorem value_patchHttpUrl (dataLen : Nat) :
    (patchHttpUrl dataLen).value mem =
      (hostText mem dataLen).bind fun host => (wordText mem dataLen).bind fun found =>
        if (targetIs scheme (found.1 + found.2.length)).value mem then none
        else some (patched mem dataLen (found.1 + found.2.length) host) := by
  have hWord : (findWord dataLen httpWords).value mem = wordText mem dataLen :=
    value_findWord dataLen httpWords
  rw [patchHttpUrl, Reader.value_bind, value_findData, hostText]
  cases firstAt mem dataLen (ascii ['H', 'o', 's', 't', ':', ' ']) with
  | none => rfl
  | some pos =>
      rw [Option.map_some, Option.bind_some]
      dsimp only
      rw [Reader.value_bind, value_copyHost, Reader.value_bind, hWord]
      cases wordText mem dataLen with
      | none => rfl
      | some found =>
          obtain ⟨place, word⟩ := found
          have hScheme : ascii ['h', 't', 't', 'p', ':'] = scheme := rfl
          have hSlashes : ascii ['h', 't', 't', 'p', ':', '/', '/'] = schemeSlashes := rfl
          rw [Option.bind_some]
          dsimp only
          rw [Reader.value_bind, Reader.value_ite, hScheme, hSlashes]
          split_ifs
          · rfl
          · rw [Reader.value_bind, Reader.value_bind, Reader.value_pure, patched]

theorem value_patch_eq_none_iff {dataLen : Nat} :
    (patchHttpUrl dataLen).value mem = none ↔ NothingFound mem dataLen := by
  rw [value_patchHttpUrl, NothingFound]
  cases hHost : hostText mem dataLen with
  | none => simp
  | some host =>
      cases hFound : wordText mem dataLen with
      | none => simp
      | some found =>
          obtain ⟨place, word⟩ := found
          simp only [Option.bind_some, ite_eq_left_iff, reduceCtorEq, imp_false, not_not,
            value_targetIs_iff, false_or, Option.some.injEq, Prod.mk.injEq]
          constructor
          · exact fun hTarget => ⟨place, word, ⟨rfl, rfl⟩, hTarget⟩
          · rintro ⟨_, _, ⟨rfl, rfl⟩, hTarget⟩
            exact hTarget

/-! The request line and the Host header. -/

theorem textLines_cons_some {d line : List UInt8} {more : List (List UInt8)}
    (h : textLines d = line :: more) : ∃ rest, d = line ++ 13 :: 10 :: rest ∧ more = textLines rest := by
  induction d using textLines.induct generalizing line more with
  | case1 => cases h
  | case2 rest ih =>
      rw [textLines] at h
      obtain ⟨rfl, rfl⟩ := List.cons.inj h
      exact ⟨rest, rfl, rfl⟩
  | case3 b rest hBreak hRest ih =>
      rw [textLines.eq_3 b rest hBreak, hRest] at h
      cases h
  | case4 b rest hBreak first others hRest ih =>
      rw [textLines.eq_3 b rest hBreak, hRest] at h
      obtain ⟨rfl, rfl⟩ := List.cons.inj h
      obtain ⟨behind, hEq, hMore⟩ := ih hRest
      exact ⟨behind, by rw [hEq, List.cons_append], hMore⟩

/-- Lines with their breaks fit the text. -/
theorem length_le_of_mem_textLines {d line : List UInt8} (h : line ∈ textLines d) :
    line.length + 2 ≤ d.length := by
  induction hLines : textLines d generalizing d with
  | nil => simp [hLines] at h
  | cons first more ih =>
      obtain ⟨rest, rfl, rfl⟩ := textLines_cons_some hLines
      rw [List.length_append, List.length_cons, List.length_cons]
      rw [hLines] at h
      rcases List.mem_cons.mp h with rfl | hMore
      · omega
      · have hRest := ih hMore rfl
        omega

theorem length_of_isHostLine {line : List UInt8} (h : isHostLine line = true) : 5 ≤ line.length := by
  have hPrefix := (List.isPrefixOf_iff_prefix.mp h).length_le
  simpa [ascii] using hPrefix

/-- Behind the method there is room for the Host header. -/
theorem length_of_insertion {d word host : List UInt8} (h : insertion d = some (word, host)) :
    word ∈ httpWords ∧ word <+: d ∧ ¬ scheme <+: d.drop word.length ∧ hostHeader d = some host ∧
      host.length ≤ 511 ∧ word.length + 5 ≤ d.length := by
  simp only [insertion, Option.bind_eq_some_iff] at h
  obtain ⟨word', hMethod, host', hHeader, hIf⟩ := h
  split_ifs at hIf with hReject
  obtain ⟨rfl, rfl⟩ : word = word' ∧ host = host' := by simpa [eq_comm] using hIf
  rw [not_or, List.isPrefixOf_iff_prefix, not_lt] at hReject
  have hWord := List.mem_of_find?_eq_some hMethod
  have hPrefix : word <+: d := by
    have hFound := List.find?_some hMethod
    exact List.isPrefixOf_iff_prefix.mp hFound
  refine ⟨hWord, hPrefix, hReject.1, hHeader, hReject.2, ?_⟩
  obtain ⟨line, hLine, -⟩ := Option.map_eq_some_iff.mp hHeader
  have hHost := length_of_isHostLine (List.find?_some hLine)
  have hDrop : line ∈ (textLines d).drop 1 :=
    (List.takeWhile_prefix _).subset (List.mem_of_find?_eq_some hLine)
  cases hLines : textLines d with
  | nil => simp [hLines] at hDrop
  | cons first more =>
      rw [hLines, List.drop_succ_cons, List.drop_zero] at hDrop
      obtain ⟨rest, rfl, rfl⟩ := textLines_cons_some hLines
      have hRest := length_le_of_mem_textLines hDrop
      -- A method has no carriage return, so it ends in the first line.
      have hInLine : word.length ≤ first.length := by
        by_contra hLong
        have hNoReturn : ∀ word ∈ httpWords, 13 ∉ word := by decide
        apply hNoReturn word hWord
        have hGet := hPrefix.getElem (not_le.mp hLong)
        rw [List.getElem_append_right (Nat.le_refl _)] at hGet
        simp only [Nat.sub_self, List.getElem_cons_zero] at hGet
        rw [← hGet]
        exact List.getElem_mem _
      rw [List.length_append, List.length_cons, List.length_cons]
      omega

/-! Where a method was found. -/

theorem eq_space_of_toLower {b : UInt8} (h : toLower b = 32) : b = 32 := by
  unfold toLower at h
  split_ifs at h with hUpper
  · have hZero : b = 0 := by simpa using h
    rw [hZero] at hUpper
    exact absurd hUpper (by decide)
  · exact h

/-- The text found ends with a space. -/
theorem space_of_wordText {dataLen place : Nat} {word : List UInt8}
    (h : wordText mem dataLen = some (place, word)) :
    word ∈ httpWords ∧ Occurs mem dataLen word place ∧ 4 ≤ word.length ∧ word.length ≤ 8 ∧
      mem (place + (word.length - 1)) = 32 := by
  obtain ⟨found, hWord, hFirst⟩ := List.exists_of_findSome?_eq_some h
  obtain ⟨pos, hPos, hPair⟩ := Option.map_eq_some_iff.mp hFirst
  obtain ⟨rfl, rfl⟩ := Prod.mk.inj hPair
  have hShape : ∀ word ∈ httpWords, 4 ≤ word.length ∧ word.length ≤ 8 ∧
      word[word.length - 1]? = some 32 := by decide
  obtain ⟨hFour, hEight, hLast⟩ := hShape found hWord
  have hOccurs := (firstAt_eq_some_iff.mp hPos).1
  obtain ⟨hi, hSpace⟩ := List.getElem?_eq_some_iff.mp hLast
  have hGet := hOccurs.1.get hi
  rw [hSpace] at hGet
  exact ⟨hWord, hOccurs, hFour, hEight, eq_space_of_toLower hGet⟩

variable {d : List UInt8}

/-- The buffer, where the method lies in the data. -/
theorem patched_eq (hHolds : Holds mem 0 d) (hSmall : d.length < 2 ^ 16) {pos1 : Nat}
    (hPos : pos1 ≤ d.length) (host : List UInt8) :
    patched mem d.length pos1 host = d.take pos1 ++ schemeSlashes ++ host ++ d.drop pos1 := by
  have hBefore : (readBytes 0 pos1).value mem = d.take pos1 := by
    have hRead := value_readBytes_of_holds (hHolds.take pos1)
    rwa [List.length_take, Nat.min_eq_left hPos] at hRead
  have hAfter : (readBytes pos1 (d.length - pos1)).value mem = d.drop pos1 := by
    have hRead := value_readBytes_of_holds (hHolds.drop hPos)
    rwa [List.length_drop, Nat.zero_add] at hRead
  have hCount : (d.length + 2 ^ 32 - pos1) % 2 ^ 32 = d.length - pos1 := by omega
  rw [patched, hCount, hBefore, hAfter, List.take_of_length_le]
  simp only [List.length_append, List.length_take, List.length_drop, schemeSlashes, ascii,
    List.length_map, List.length_cons, List.length_nil]
  omega

/-- The buffer begins with what stands in front of the target. -/
theorem patched_get {dataLen pos1 i : Nat} {host : List UInt8} (hPos : i < pos1)
    (hBound : pos1 ≤ dataLen + 7) : (patched mem dataLen pos1 host)[i]? = some (mem i) := by
  have hRead := (holds_readBytes mem 0 pos1).get (by rwa [length_readBytes])
  rw [Nat.zero_add] at hRead
  rw [patched, List.getElem?_take_of_lt (by omega), List.append_assoc, List.append_assoc,
    List.getElem?_append_left (by rwa [length_readBytes]), hRead, List.getElem?_eq_getElem]

/-- The rewritten request has the scheme behind the method. -/
theorem getElem?_scheme {word host rest : List UInt8} {i : Nat} (hi : i < 5) :
    (word ++ schemeSlashes ++ host ++ rest)[word.length + i]? = scheme[i]? := by
  rw [List.append_assoc, List.append_assoc, List.getElem?_append_right (Nat.le_add_right ..),
    Nat.add_sub_cancel_left, List.getElem?_append_left (by simp [schemeSlashes, ascii]; omega)]
  have hSame : ∀ i < 5, schemeSlashes[i]? = scheme[i]? := by decide
  exact hSame i hi

/-- A text of which the scheme is inserted in the right place, was searched for
the right place: what stands there otherwise ends with a space. -/
theorem place_of_patched {word host host' : List UInt8} (hInsertion : insertion d = some (word, host))
    (hHolds : Holds mem 0 d) {place : Nat} {found : List UInt8}
    (hFound : wordText mem d.length = some (place, found))
    (hPatched : patched mem d.length (place + found.length) host' =
      word ++ schemeSlashes ++ host ++ d.drop word.length) :
    place + found.length = word.length := by
  obtain ⟨hWord, hPrefix, hTarget, -, -, hRoom⟩ := length_of_insertion hInsertion
  obtain ⟨-, hOccurs, hFour, hEight, hSpace⟩ := space_of_wordText hFound
  have hInside := hOccurs.lt
  have hBound : place + found.length ≤ d.length + 7 := by omega
  have hGet : ∀ i < place + found.length,
      (word ++ schemeSlashes ++ host ++ d.drop word.length)[i]? = some (mem i) := by
    intro i hi
    rw [← hPatched]
    exact patched_get hi hBound
  have hLast : place + (found.length - 1) < place + found.length := by omega
  have hAtLast := hGet _ hLast
  rw [hSpace] at hAtLast
  rcases Nat.lt_trichotomy (place + found.length) word.length with hBefore | hSame | hBehind
  · -- The only space of a method is its last byte.
    have hOnly : ∀ word ∈ httpWords, ∀ i < word.length - 1, word[i]? ≠ some 32 := by decide
    rw [List.append_assoc, List.append_assoc, List.getElem?_append_left (by omega)] at hAtLast
    exact absurd hAtLast (hOnly word hWord _ (by omega))
  · exact hSame
  · by_cases hClose : place + found.length < word.length + 5
    · have hNoSpace : ∀ i < 5, scheme[i]? ≠ some 32 := by decide
      obtain ⟨i, hi⟩ : ∃ i, place + (found.length - 1) = word.length + i :=
        Nat.exists_eq_add_of_le (by omega)
      rw [hi, getElem?_scheme (by omega)] at hAtLast
      exact absurd hAtLast (hNoSpace i (by omega))
    · -- The target would begin with the scheme.
      have hScheme : Holds mem word.length scheme := by
        rw [holds_iff_get]
        intro i hi
        have hAt := hGet (word.length + i) (by have : scheme.length = 5 := rfl; omega)
        rw [getElem?_scheme hi, List.getElem?_eq_getElem hi] at hAt
        exact (Option.some.inj hAt).symm
      have hBehindWord := hHolds.drop (show word.length ≤ d.length by omega)
      rw [Nat.zero_add] at hBehindWord
      refine absurd (hScheme.isPrefix_of_length_le hBehindWord ?_) hTarget
      have : scheme.length = 5 := rfl
      rw [List.length_drop]
      omega

/-- A method ends another one only if it is the same. -/
theorem eq_of_sameText {word found : List UInt8} {place : Nat} (hWord : word ∈ httpWords)
    (hFound : found ∈ httpWords) (hHolds : Holds mem 0 word) (hSame : SameText mem found place)
    (hEnd : place + found.length = word.length) : place = 0 ∧ found = word := by
  have hEnds : ∀ word ∈ httpWords, ∀ found ∈ httpWords, ∀ place < word.length,
      place + found.length = word.length →
        (word.drop place).map toLower = found.map toLower → place = 0 ∧ found = word := by decide
  have hSpace : ∀ found ∈ httpWords, 0 < found.length := by decide
  have hPlace : place < word.length := by
    have := hSpace found hFound
    omega
  refine hEnds word hWord found hFound place hPlace hEnd ?_
  have hDrop := hHolds.drop (Nat.le_of_lt hPlace)
  have hRead := value_readBytes_of_holds hDrop
  have hLength : (word.drop place).length = found.length := by
    rw [List.length_drop]
    omega
  rw [Nat.zero_add, hLength] at hRead
  rw [← hRead]
  exact hSame

/-- With the method's end the buffer is the rewritten request. -/
theorem patched_insertion {word host : List UInt8} (hInsertion : insertion d = some (word, host))
    (hHolds : Holds mem 0 d) (hSmall : d.length < 2 ^ 16) (host' : List UInt8) :
    patched mem d.length word.length host' = word ++ schemeSlashes ++ host' ++ d.drop word.length := by
  obtain ⟨-, hPrefix, -, -, -, hRoom⟩ := length_of_insertion hInsertion
  rw [patched_eq hHolds hSmall (by omega), ← List.prefix_iff_eq_take.mp hPrefix]

/-- A request to be rewritten is rewritten in the right way only where its own
method and host were found. -/
theorem value_patch_insertion {word host : List UInt8}
    (hInsertion : insertion d = some (word, host)) (hHolds : Holds mem 0 d)
    (hSmall : d.length < 2 ^ 16) :
    (patchHttpUrl d.length).value mem = some (word ++ schemeSlashes ++ host ++ d.drop word.length) ↔
      hostText mem d.length = some host ∧ wordText mem d.length = some (0, word) := by
  obtain ⟨hWord, hPrefix, hTarget, -, -, hRoom⟩ := length_of_insertion hInsertion
  rw [value_patchHttpUrl]
  constructor
  · intro hPatch
    obtain ⟨host', hHost, hPatch⟩ := Option.bind_eq_some_iff.mp hPatch
    obtain ⟨⟨place, found⟩, hFound, hPatch⟩ := Option.bind_eq_some_iff.mp hPatch
    split_ifs at hPatch
    have hPatched := Option.some.inj hPatch
    have hEnd := place_of_patched hInsertion hHolds hFound hPatched
    obtain ⟨hFoundWord, hOccurs, -⟩ := space_of_wordText hFound
    have hHoldsWord : Holds mem 0 word := by
      obtain ⟨rest, rfl⟩ := hPrefix
      exact (holds_append.mp hHolds).1
    obtain ⟨rfl, rfl⟩ := eq_of_sameText hWord hFoundWord hHoldsWord hOccurs.1 hEnd
    rw [Nat.zero_add, patched_insertion hInsertion hHolds hSmall, List.append_left_inj,
      List.append_right_inj] at hPatched
    exact ⟨hPatched ▸ hHost, hFound⟩
  · rintro ⟨hHost, hFound⟩
    have hNoScheme : ¬ (targetIs scheme (0 + word.length)).value mem = true := by
      rw [value_targetIs_iff, Nat.zero_add]
      intro hScheme
      have hBehindWord := hHolds.drop (show word.length ≤ d.length by omega)
      rw [Nat.zero_add] at hBehindWord
      refine hTarget (hScheme.isPrefix_of_length_le hBehindWord ?_)
      have : scheme.length = 5 := rfl
      rw [List.length_drop]
      omega
    rw [hHost, hFound, Option.bind_some, Option.bind_some, if_neg hNoScheme, Nat.zero_add,
      patched_insertion hInsertion hHolds hSmall]

/-- The payload is rewritten if it is a request to be rewritten, and otherwise
left as it is, exactly if the words found are those of the request. -/
theorem patch_exact_iff (d : Payload) (behind : Memory) :
    (patchHttpUrl d.val.length).value (inFrontOf d.val behind) = rewritten d.val ↔
      FoundRightly (inFrontOf d.val behind) d.val := by
  have hHolds := holds_inFrontOf d.val behind
  generalize inFrontOf d.val behind = mem at hHolds
  rw [rewritten, FoundRightly]
  cases hInsertion : insertion d.val with
  | none => exact value_patch_eq_none_iff
  | some found =>
      obtain ⟨word, host⟩ := found
      exact value_patch_insertion hInsertion hHolds d.property

/-- A `POST` with `GET` in its path, and a Host header. -/
def postRequest : Payload :=
  ⟨ascii ['P', 'O', 'S', 'T', ' ', '/', '?', 'G', 'E', 'T', ' ', 'H', 'T', 'T', 'P', '/', '1', '.', '1',
    '\r', '\n', 'H', 'o', 's', 't', ':', ' ', 'a', '\r', '\n', '\r', '\n'], by decide⟩

/-- The host is put into the middle of its path. -/
theorem patch_inexact :
    (patchHttpUrl postRequest.val.length).value (inFrontOf postRequest.val fun _ => 0) ≠
      rewritten postRequest.val := by
  have hWrong : wordText (inFrontOf postRequest.val fun _ => 0) postRequest.val.length =
      some (7, ascii ['G', 'E', 'T', ' ']) := by decide
  have hInsertion : insertion postRequest.val =
      some (ascii ['P', 'O', 'S', 'T', ' '], ascii ['a']) := by decide
  rw [Ne, rewritten, hInsertion]
  intro hPatch
  have hFound := (value_patch_insertion hInsertion (holds_inFrontOf _ _) postRequest.property).mp hPatch
  rw [hWrong] at hFound
  exact absurd hFound.2 (by decide)

end Tun2Http
