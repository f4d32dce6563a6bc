import Tun2Http.Dns.Chain

/-! Names as they are encoded, and what `get_qname` makes of them. The labels
gather in a buffer of 256 bytes, whose position counts modulo 256: where
they fill it exactly, it is begun anew. -/
namespace Tun2Http

open Machine Relation

/-- A name as labels lies at `off`, and the message goes on behind it at
`next`. It ends with a zero byte or, compressed, with a pointer to the place
of its last labels. -/
inductive Encoded (mem : Memory) (datalen : Nat) : Bool → Nat → List (List UInt8) → Nat → Prop where
  | root {off : Nat} (hInside : off < datalen) (hZero : mem off = 0) :
      Encoded mem datalen false off [] (off + 1)
  | label {compressed : Bool} {off next : Nat} {label : List UInt8} {rest : List (List UInt8)}
      (hSome : label ≠ []) (hLegal : label.length < 64) (hInside : off + 1 + label.length ≤ datalen)
      (hLength : (mem off).toNat = label.length) (hBytes : Holds mem (off + 1) label)
      (hRest : Encoded mem datalen compressed (off + 1 + label.length) rest next) :
      Encoded mem datalen compressed off (label :: rest) next
  | pointer {compressed : Bool} {off next : Nat} {labels : List (List UInt8)}
      (hInside : off + 1 < datalen) (hPointer : 192 ≤ (mem off).toNat)
      (hEarlier : pointerTarget mem off < off)
      (hTarget : Encoded mem datalen compressed (pointerTarget mem off) labels next) :
      Encoded mem datalen true off labels (off + 2)

/-- The labels joined by dots. -/
def dotted (labels : List (List UInt8)) : List UInt8 := List.intercalate [46] labels

/-- The labels with a dot behind each. -/
def withDots (labels : List (List UInt8)) : List UInt8 := labels.flatMap (· ++ [46])

/-- How many bytes the labels take, with their dots. -/
def nameSize (labels : List (List UInt8)) : Nat := (withDots labels).length

@[simp] theorem nameSize_nil : nameSize [] = 0 := rfl

@[simp] theorem withDots_append (front back : List (List UInt8)) :
    withDots (front ++ back) = withDots front ++ withDots back := List.flatMap_append

@[simp] theorem nameSize_cons (label : List UInt8) (rest : List (List UInt8)) :
    nameSize (label :: rest) = label.length + 1 + nameSize rest := by
  simp only [nameSize, withDots, List.flatMap_cons, List.length_append, List.length_cons,
    List.length_nil]

@[simp] theorem nameSize_append (front back : List (List UInt8)) :
    nameSize (front ++ back) = nameSize front + nameSize back := by
  simp [nameSize]

/-- The last dot is one too many. -/
theorem withDots_eq {labels : List (List UInt8)} (h : labels ≠ []) :
    withDots labels = dotted labels ++ [46] := by
  induction labels with
  | nil => exact absurd rfl h
  | cons label rest ih =>
      cases rest with
      | nil => simp [withDots, dotted]
      | cons second rest =>
          have hRest := ih (List.cons_ne_nil _ _)
          simp only [withDots, dotted, List.flatMap_cons, List.intercalate,
            List.intersperse_cons_cons, List.flatten_cons] at hRest ⊢
          rw [hRest]
          simp

theorem length_dotted {labels : List (List UInt8)} (h : labels ≠ []) :
    (dotted labels).length + 1 = nameSize labels := by
  rw [nameSize, withDots_eq h, List.length_append]
  rfl

variable {mem : Memory} {datalen : Nat}

/-! What the buffer keeps of the labels. -/

/-- The labels of a name since the buffer was last begun, or `none` where one
does not fit. -/
def packs (kept : List (List UInt8)) : List (List UInt8) → Option (List (List UInt8))
  | [] => some kept
  | label :: rest =>
      if nameSize kept + label.length ≤ dnsQnameMax then
        packs (if nameSize (kept ++ [label]) = 256 then [] else kept ++ [label]) rest
      else none

/-- The labels fill the buffer exactly, once or more often, or never; `rest`
is behind, and leaves room. -/
def LeavesOver (labels rest : List (List UInt8)) : Prop :=
  ∃ full : List (List (List UInt8)), (∀ block ∈ full, nameSize block = 256) ∧
    labels = full.flatten ++ rest ∧ nameSize rest < 256

/-- Of two beginnings of a name the larger one is the longer. -/
theorem prefix_of_nameSize_le {labels first second : List (List UInt8)} (hFirst : first <+: labels)
    (hSecond : second <+: labels) (hSize : nameSize first ≤ nameSize second) : first <+: second := by
  rcases List.prefix_or_prefix_of_prefix hFirst hSecond with h | ⟨more, rfl⟩
  · exact h
  · cases more with
    | nil => simp
    | cons label more =>
        simp only [nameSize_append, nameSize_cons] at hSize
        omega

/-- Less than a block is all left over. -/
theorem leavesOver_short_iff {labels rest : List (List UInt8)} (hShort : nameSize labels < 256) :
    LeavesOver labels rest ↔ labels = rest := by
  constructor
  · rintro ⟨full, hFull, rfl, -⟩
    cases full with
    | nil => rfl
    | cons block full =>
        have hBlock := hFull block (List.mem_cons_self ..)
        simp only [List.flatten_cons, nameSize_append] at hShort
        omega
  · rintro rfl
    exact ⟨[], by simp, by simp, hShort⟩

/-- A name that does not fit begins with a block, if it leaves anything over. -/
theorem LeavesOver.first {labels rest : List (List UInt8)} (h : LeavesOver labels rest)
    (hLong : 256 ≤ nameSize labels) : ∃ block later, nameSize block = 256 ∧ labels = block ++ later ∧
      LeavesOver later rest := by
  obtain ⟨full, hFull, rfl, hRest⟩ := h
  cases full with
  | nil => exact absurd hLong (not_le.mpr hRest)
  | cons block full =>
      refine ⟨block, full.flatten ++ rest, hFull block (List.mem_cons_self ..), ?_, full,
        fun other hOther => hFull other (List.mem_cons_of_mem _ hOther), rfl, hRest⟩
      rw [List.flatten_cons, List.append_assoc]

/-- A block in front leaves nothing over. -/
theorem leavesOver_block_iff {block labels rest : List (List UInt8)} (hBlock : nameSize block = 256) :
    LeavesOver (block ++ labels) rest ↔ LeavesOver labels rest := by
  constructor
  · intro h
    obtain ⟨other, later, hOther, hSame, hLater⟩ := h.first (by rw [nameSize_append]; omega)
    -- Two beginnings of the same size are one.
    have hFront : block <+: block ++ labels := List.prefix_append ..
    have hStart : other <+: block ++ labels := ⟨later, hSame.symm⟩
    obtain rfl : other = block := (prefix_of_nameSize_le hStart hFront (by omega)).eq_of_length_le
      (prefix_of_nameSize_le hFront hStart (by omega)).length_le
    rwa [List.append_cancel_left hSame]
  · rintro ⟨full, hFull, rfl, hRest⟩
    refine ⟨block :: full, fun other hOther => ?_, ?_, hRest⟩
    · rcases List.mem_cons.mp hOther with rfl | hIn
      · exact hBlock
      · exact hFull other hIn
    · rw [List.flatten_cons, List.append_assoc]

/-- No block ends within a label. -/
theorem not_leavesOver_of_within {kept labels rest : List (List UInt8)} {label : List UInt8}
    (hKept : nameSize kept < 256) (hOver : 256 < nameSize (kept ++ [label])) :
    ¬ LeavesOver (kept ++ [label] ++ labels) rest := by
  intro h
  obtain ⟨block, later, hBlock, hSame, -⟩ := h.first (by rw [nameSize_append]; omega)
  have hStart : block <+: kept ++ [label] ++ labels := ⟨later, hSame.symm⟩
  have hFront : kept ++ [label] <+: kept ++ [label] ++ labels := List.prefix_append ..
  have hKeptStart : kept <+: kept ++ [label] ++ labels := (List.prefix_append kept [label]).trans hFront
  have hLong := prefix_of_nameSize_le hKeptStart hStart (by omega)
  have hShort := prefix_of_nameSize_le hStart hFront (by omega)
  have hLengths := hShort.length_le
  rw [List.length_append, List.length_singleton] at hLengths
  rcases Nat.lt_or_eq_of_le hLong.length_le with hMore | hEqual
  · have hWhole : block = kept ++ [label] :=
      hShort.eq_of_length (by rw [List.length_append, List.length_singleton]; omega)
    rw [hWhole] at hBlock
    omega
  · rw [← hLong.eq_of_length hEqual] at hBlock
    omega

/-- The labels in front of the last block that fits are gone. -/
theorem packs_eq_some_iff {kept labels rest : List (List UInt8)} (hKept : nameSize kept < 256) :
    packs kept labels = some rest ↔ LeavesOver (kept ++ labels) rest := by
  induction labels generalizing kept with
  | nil => rw [packs, Option.some.injEq, List.append_nil, leavesOver_short_iff hKept]
  | cons label labels ih =>
      have hSize : nameSize (kept ++ [label]) = nameSize kept + label.length + 1 := by
        simp [Nat.add_assoc]
      have hSplit : kept ++ label :: labels = kept ++ [label] ++ labels := List.append_cons ..
      rw [packs, hSplit, dnsQnameMax]
      by_cases hFits : nameSize kept + label.length ≤ 255
      · rw [if_pos hFits]
        by_cases hFull : nameSize (kept ++ [label]) = 256
        · rw [if_pos hFull, ih (by decide), List.nil_append, leavesOver_block_iff hFull]
        · rw [if_neg hFull, ih (by omega)]
      · rw [if_neg hFits]
        exact iff_of_false (by simp) (not_leavesOver_of_within hKept (by omega))

/-! The walk through an encoded name. -/

/-- The buffer holds the kept labels up to the position that the loop is at. -/
structure Stored (s : QnameState) (kept : List (List UInt8)) : Prop where
  noff : s.noff = nameSize kept
  room : nameSize kept < 256
  bytes : Holds s.qname.bytes 0 (withDots kept)

/-- A label that is stored behind the kept ones. -/
theorem holds_stored {s : QnameState} {kept : List (List UInt8)} {label : List UInt8}
    (h : Stored s kept) :
    Holds ((s.qname.copy s.noff label).put (s.noff + label.length) 46).bytes 0
      (withDots (kept ++ [label])) := by
  have hLength : (withDots kept).length = s.noff := h.noff.symm
  have hLast : withDots [label] = label ++ [46] := by simp [withDots]
  rw [withDots_append, hLast, holds_append, holds_append, hLength, Nat.zero_add]
  refine ⟨?_, ?_, Buffer.bytes_put_self _, trivial⟩
  · exact Buffer.holds_put_of_le (Buffer.holds_copy_of_le h.bytes (by omega)) (by omega)
  · exact Buffer.holds_put_of_le Buffer.holds_copy (Nat.le_refl _)

/-- A turn over a label that fits stores it. -/
theorem stored_label {s : QnameState} {kept : List (List UInt8)} {label : List UInt8} {ptr : Nat}
    {len : UInt8} (h : Stored s kept) (hFits : nameSize kept + label.length ≤ dnsQnameMax) :
    Stored { s with
        ptr := ptr
        len := len
        noff := (s.noff + (label.length + 1)) % 2 ^ 8
        qname := (s.qname.copy s.noff label).put (s.noff + label.length) 46 }
      (if nameSize (kept ++ [label]) = 256 then [] else kept ++ [label]) := by
  have hSize : nameSize (kept ++ [label]) = s.noff + (label.length + 1) := by
    rw [nameSize_append, nameSize_cons, nameSize_nil, h.noff]
  unfold dnsQnameMax at hFits
  have hNoff := h.noff
  split_ifs with hFull
  · exact ⟨by dsimp only; rw [← hSize, hFull]; rfl, by decide, trivial⟩
  · refine ⟨?_, by omega, holds_stored h⟩
    dsimp only
    rw [hSize, Nat.mod_eq_of_lt (by omega)]

/-- The loop walks to the end of an encoded name, or to the label that does not fit. -/
theorem walk_encoded {compressed : Bool} {off next : Nat} {labels : List (List UInt8)}
    (h : Encoded mem datalen compressed off labels next) (hMessage : datalen < 2 ^ 16) {start : Nat}
    {s : QnameState} {kept : List (List UInt8)} (hSound : s.Sound mem start) (hPtr : s.ptr = off)
    (hStored : Stored s kept) :
    ∃ t, ReflTransGen (GoesOn (qnameTurn datalen) mem) s t ∧
      (qnameTurn datalen t).value mem = .leave t ∧
      ((∃ rest, packs kept labels = some rest ∧ t.len = 0 ∧ Stored t rest ∧
          t.c = (s.c || compressed) ∧ (compressed = false → t.ptr + 1 = next)) ∨
        packs kept labels = none ∧ t.len ≠ 0) := by
  induction h generalizing s kept with
  | @root off hInside hZero =>
      have hLen : s.len = 0 := hSound.len.trans (hPtr ▸ hZero)
      refine ⟨s, .refl, ?_, Or.inl ⟨kept, rfl, hLen, hStored, by simp, fun _ => by rw [hPtr]⟩⟩
      rw [qnameTurn, if_pos hLen]
      rfl
  | @label compressed off next label rest hSome hLegal hInside hLength hBytes hRest ih =>
      have hLen : s.len.toNat = label.length := by rw [hSound.len, hPtr, hLength]
      have hLong : 0 < label.length := List.length_pos_iff.mpr hSome
      have hNoff := hStored.noff
      rcases qnameTurn_cases mem datalen s with
        ⟨hPointer, -⟩ | ⟨-, -, -, hName, hNext⟩ | ⟨-, hWhy, hLeave⟩
      · omega
      · have hFits : nameSize kept + label.length ≤ dnsQnameMax := by omega
        have hLabel : (readBytes (s.ptr + 1) s.len.toNat).value mem = label := by
          rw [hPtr, hLen]
          exact value_readBytes_of_holds hBytes
        rw [hLabel, hLen] at hNext
        have hPlace : (s.ptr + (label.length + 1)) % 2 ^ 16 = off + 1 + label.length := by
          rw [hPtr, Nat.mod_eq_of_lt (by omega)]
          omega
        obtain ⟨t, hReach, hStop, hEnd⟩ := ih (qnameTurn_sound hSound hNext) hPlace
          (stored_label hStored hFits)
        exact ⟨t, hReach.head hNext, hStop, by simpa only [packs, if_pos hFits] using hEnd⟩
      · have hFull : ¬ nameSize kept + label.length ≤ dnsQnameMax := by omega
        have hByte : s.len ≠ 0 := fun hZero => by
          rw [hZero] at hLen
          exact absurd hLen (Nat.ne_of_lt hLong)
        exact ⟨s, .refl, hLeave, Or.inr ⟨by rw [packs, if_neg hFull], hByte⟩⟩
  | @pointer compressed off next labels hInside hPointer hEarlier hTarget ih =>
      have hLen : s.len.toNat = (mem off).toNat := by rw [hSound.len, hPtr]
      rcases qnameTurn_cases mem datalen s with ⟨-, hNext⟩ | ⟨-, hSmall, -⟩ | ⟨hSmall, -⟩
      · have hPlace : s.len.toNat % 64 * 256 + (mem (s.ptr + 1)).toNat = pointerTarget mem off := by
          rw [hLen, hPtr]
          rfl
        obtain ⟨t, hReach, hStop, hEnd⟩ := ih (qnameTurn_sound hSound hNext) hPlace
          ⟨hStored.noff, hStored.room, hStored.bytes⟩
        refine ⟨t, hReach.head hNext, hStop, ?_⟩
        rcases hEnd with ⟨rest, hPacks, hZero, hLast, hC, -⟩ | hNone
        · exact Or.inl ⟨rest, hPacks, hZero, hLast, by simpa using hC, nofun⟩
        · exact Or.inr hNone
      · omega
      · omega

/-! What is left of a name. -/

theorem eq_nil_of_nameSize {labels : List (List UInt8)} (h : nameSize labels = 0) : labels = [] := by
  cases labels with
  | nil => rfl
  | cons label rest =>
      rw [nameSize_cons] at h
      omega

/-- A name that does not fill the buffer is left whole, one that just fills it not at all. -/
theorem leavesOver_of_le {labels rest : List (List UInt8)} (hSize : nameSize labels ≤ 256)
    (h : LeavesOver labels rest) : if nameSize labels = 256 then rest = [] else rest = labels := by
  rcases Nat.lt_or_eq_of_le hSize with hShort | hFull
  · rw [if_neg hShort.ne]
    exact ((leavesOver_short_iff hShort).mp h).symm
  · rw [if_pos hFull]
    rw [← List.append_nil labels, leavesOver_block_iff hFull, leavesOver_short_iff (by decide)] at h
    exact h.symm

/-- Behind a compressed name the message goes on two bytes after its pointer. -/
theorem encoded_next {compressed : Bool} {off next : Nat} {labels : List (List UInt8)}
    (h : Encoded mem datalen compressed off labels next) : next ≤ datalen ∧
      (compressed = true → (192 ≤ (mem off).toNat ∧ next = off + 2) ∨
        ((mem off).toNat < 192 ∧ off + 2 < next)) := by
  induction h with
  | root hInside hZero => exact ⟨hInside, nofun⟩
  | label hSome hLegal hInside hLength hBytes hRest ih =>
      refine ⟨ih.1, fun hC => Or.inr ⟨by omega, ?_⟩⟩
      have hLong := List.length_pos_iff.mpr hSome
      rcases ih.2 hC with ⟨-, hNext⟩ | ⟨-, hNext⟩ <;> omega
  | pointer hInside hPointer hEarlier hTarget ih => exact ⟨hInside, fun _ => Or.inl ⟨hPointer, rfl⟩⟩

theorem qnameResult_none {t : QnameState} (h : t.len ≠ 0 ∨ t.noff = 0) : (qnameResult t).1 = -1 := by
  unfold qnameResult
  rw [if_pos h]

/-- The labels kept are the name, with a zero where the last dot is. -/
theorem qnameResult_stored {t : QnameState} {rest : List (List UInt8)} (hZero : t.len = 0)
    (hStored : Stored t rest) (hSome : rest ≠ []) :
    (qnameResult t).1 = ((if t.c then t.off else (t.ptr + 1) % 2 ^ 16 : Nat) : Int) ∧
      Holds (qnameResult t).2.bytes 0 (dotted rest ++ [0]) := by
  have hNoff : t.noff ≠ 0 := fun h => hSome (eq_nil_of_nameSize (hStored.noff.symm.trans h))
  unfold qnameResult
  rw [if_neg (not_or.mpr ⟨not_not.mpr hZero, hNoff⟩)]
  refine ⟨rfl, ?_⟩
  have hBytes := hStored.bytes
  have hLength : (dotted rest).length = t.noff - 1 := by
    rw [hStored.noff, ← length_dotted hSome, Nat.add_sub_cancel]
  rw [withDots_eq hSome, holds_append] at hBytes
  rw [holds_append, hLength, Nat.zero_add]
  exact ⟨Buffer.holds_put_of_le hBytes.1 (by omega), Buffer.bytes_put_self _, trivial⟩

/-- `get_qname` on an encoded name stores what is left of it, and goes on two
bytes behind `off` where it is compressed. -/
theorem getQname_encoded {compressed : Bool} {off : U16} {next : Nat} {labels : List (List UInt8)}
    (h : Encoded mem datalen compressed off.toNat labels next) (hMessage : datalen < 2 ^ 16)
    (qname : Buffer) :
    ∃ turns result, (getQname turns datalen off qname).value mem = some result ∧
      ((∃ rest, rest ≠ [] ∧ LeavesOver labels rest ∧
          result.1 = ((if compressed then (off.toNat + 2) % 2 ^ 16 else next : Nat) : Int) ∧
          Holds result.2.bytes 0 (dotted rest ++ [0])) ∨
        (∀ rest, LeavesOver labels rest → rest = []) ∧ result.1 = -1) := by
  have hStart : Stored (qnameStart mem off qname) [] := ⟨rfl, by decide, trivial⟩
  have hSound := sound_qnameStart mem off qname
  obtain ⟨t, hReach, hLeave, hEnd⟩ := walk_encoded h hMessage hSound rfl hStart
  have hLast : t.Sound mem off.toNat :=
    reach_invariant (fun _ _ => qnameTurn_sound) hSound hReach
  obtain ⟨turns, hTurns⟩ := exists_loop_of_leave hReach hLeave
  refine ⟨turns, qnameResult t, by rw [value_getQname, hTurns]; rfl, ?_⟩
  have hPacks : ∀ rest, packs [] labels = some rest ↔ LeavesOver labels rest := fun rest => by
    rw [packs_eq_some_iff (by decide), List.nil_append]
  rcases hEnd with ⟨rest, hRest, hZero, hStored, hC, hNext⟩ | ⟨hNone, hLong⟩
  · by_cases hEmpty : rest = []
    · refine Or.inr ⟨fun other hOther => ?_, qnameResult_none (Or.inr ?_)⟩
      · rw [← hPacks, hRest] at hOther
        exact (Option.some.inj hOther).symm.trans hEmpty
      · rw [hStored.noff, hEmpty, nameSize_nil]
    · obtain ⟨hPlace, hBytes⟩ := qnameResult_stored hZero hStored hEmpty
      refine Or.inl ⟨rest, hEmpty, (hPacks rest).mp hRest, ?_, hBytes⟩
      have hOff := hLast.off
      change t.c = (false || compressed) at hC
      rw [Bool.false_or] at hC
      rw [hPlace, hC]
      rw [hC] at hOff
      cases compressed with
      | true => exact congrArg _ hOff
      | false =>
          have hInside := (encoded_next h).1
          have hPtr := hNext rfl
          rw [if_neg Bool.false_ne_true, if_neg Bool.false_ne_true, hPtr, Nat.mod_eq_of_lt (by omega)]
  · refine Or.inr ⟨fun rest hRest => ?_, qnameResult_none (Or.inl hLong)⟩
    rw [← hPacks, hNone] at hRest
    cases hRest

/-- The name is stored, and the message goes on at `next`. -/
def Decoded (labels : List (List UInt8)) (next : Nat) (result : Int × Buffer) : Prop :=
  result.1 = next ∧ Holds result.2.bytes 0 (dotted labels ++ [0])

/-- A name with room in the buffer is stored; the offset is right where no label
is in front of a pointer. -/
theorem getQname_short {compressed : Bool} {off : U16} {next : Nat} {labels : List (List UInt8)}
    (hMessage : datalen < 2 ^ 16) (hSome : labels ≠ [])
    (hEncoded : Encoded mem datalen compressed off.toNat labels next)
    (hShort : (dotted labels).length ≤ dnsQnameMax) (qname : Buffer) :
    ∃ turns result, (getQname turns datalen off qname).value mem = some result ∧
      (Decoded labels next result ↔ (dotted labels).length ≠ dnsQnameMax ∧
        (compressed = true → 192 ≤ (mem off.toNat).toNat)) := by
  obtain ⟨turns, result, hValue, hResult⟩ := getQname_encoded hEncoded hMessage qname
  refine ⟨turns, result, hValue, ?_⟩
  have hLength := length_dotted hSome
  unfold dnsQnameMax at hShort ⊢
  rcases hResult with ⟨rest, hRest, hLeft, hNext, hBytes⟩ | ⟨hNone, hFailed⟩
  · have hWhole := leavesOver_of_le (by omega) hLeft
    by_cases hFull : nameSize labels = 256
    · rw [if_pos hFull] at hWhole
      exact absurd hWhole hRest
    · rw [if_neg hFull] at hWhole
      subst hWhole
      rw [Decoded, and_iff_left hBytes, and_iff_right (by omega), hNext, Nat.cast_inj]
      obtain ⟨hInside, hPlace⟩ := encoded_next hEncoded
      cases compressed with
      | false => simp
      | true =>
          rw [if_pos rfl, forall_prop_of_true rfl]
          rcases hPlace rfl with ⟨hFirst, hTwo⟩ | ⟨hLabel, hLater⟩ <;> omega
  · by_cases hFull : nameSize labels = 256
    · refine iff_of_false (fun hDecoded => ?_) (fun h => h.1 (by omega))
      have hPlace := hFailed.symm.trans hDecoded.1
      omega
    · exact absurd (hNone labels ((leavesOver_short_iff (by omega)).mpr rfl)) hSome

/-- A longer name is refused where nothing of it is left over. -/
theorem getQname_long {compressed : Bool} {off : U16} {next : Nat} {labels : List (List UInt8)}
    (hMessage : datalen < 2 ^ 16) (hEncoded : Encoded mem datalen compressed off.toNat labels next)
    (qname : Buffer) : ∃ turns result, (getQname turns datalen off qname).value mem = some result ∧
      (result.1 = -1 ↔ ∀ rest, LeavesOver labels rest → rest = []) := by
  obtain ⟨turns, result, hValue, hResult⟩ := getQname_encoded hEncoded hMessage qname
  refine ⟨turns, result, hValue, ?_⟩
  rcases hResult with ⟨rest, hRest, hLeft, hNext, -⟩ | ⟨hNone, hFailed⟩
  · refine iff_of_false (fun hFailed => ?_) (fun hNone => hRest (hNone rest hLeft))
    have hPlace := hFailed.symm.trans hNext
    omega
  · exact iff_of_true hFailed hNone

/-- All runs of `get_qname` that return, return the same. -/
theorem exists_getQname_iff {off : U16} {qname : Buffer} {P : Int × Buffer → Prop} {turns : Nat}
    {result : Int × Buffer} (hValue : (getQname turns datalen off qname).value mem = some result) :
    (∃ turns result, (getQname turns datalen off qname).value mem = some result ∧ P result) ↔
      P result := by
  refine ⟨?_, fun h => ⟨turns, result, hValue, h⟩⟩
  rintro ⟨turns', other, hOther, h⟩
  rwa [getQname_unique hValue hOther]

/-- A name is decoded unless it has just 255 bytes, or labels in front of its
pointer. A longer one is refused unless its first labels fill the buffer. -/
theorem getQname_decodes_iff {compressed : Bool} {off : U16} {next : Nat}
    {labels : List (List UInt8)} (hMessage : datalen < 2 ^ 16) (hSome : labels ≠ [])
    (hEncoded : Encoded mem datalen compressed off.toNat labels next) (qname : Buffer) :
    (∃ turns result, (getQname turns datalen off qname).value mem = some result ∧
      if (dotted labels).length ≤ dnsQnameMax then Decoded labels next result else result.1 = -1) ↔
    if (dotted labels).length ≤ dnsQnameMax then
      (dotted labels).length ≠ dnsQnameMax ∧ (compressed = true → 192 ≤ (mem off.toNat).toNat)
    else ∀ rest, LeavesOver labels rest → rest = [] := by
  by_cases hShort : (dotted labels).length ≤ dnsQnameMax
  · obtain ⟨turns, result, hValue, hResult⟩ := getQname_short hMessage hSome hEncoded hShort qname
    rw [exists_getQname_iff hValue, if_pos hShort, if_pos hShort]
    exact hResult
  · obtain ⟨turns, result, hValue, hResult⟩ := getQname_long hMessage hEncoded qname
    rw [exists_getQname_iff hValue, if_neg hShort, if_neg hShort]
    exact hResult

/-- The name `a.b`, and behind it a pointer to that. -/
def pointedNames : Memory := fun i => ([1, 97, 1, 98, 0, 192, 0] : List UInt8).getD i 0

/-- Both are decoded as the name. -/
theorem getQname_decodes_pointed :
    (∃ turns result, (getQname turns 7 0 (.fresh fun _ => 0)).value pointedNames = some result ∧
      Decoded [[97], [98]] 5 result) ∧
    ∃ turns result, (getQname turns 7 5 (.fresh fun _ => 0)).value pointedNames = some result ∧
      Decoded [[97], [98]] 7 result := by
  have hMessage : 7 < 2 ^ 16 := by decide
  have hSome : ([[97], [98]] : List (List UInt8)) ≠ [] := List.cons_ne_nil _ _
  have hEnd : Encoded pointedNames 7 false 4 [] 5 := .root (by decide) rfl
  have hLast : Encoded pointedNames 7 false 2 [[98]] 5 :=
    .label (by decide) (by decide) (by decide) rfl ⟨rfl, trivial⟩ hEnd
  have hPlain : Encoded pointedNames 7 false (0 : U16).toNat [[97], [98]] 5 :=
    .label (by decide) (by decide) (by decide) rfl ⟨rfl, trivial⟩ hLast
  have hPointer : Encoded pointedNames 7 true (5 : U16).toNat [[97], [98]] 7 :=
    .pointer (by decide) (by decide) (by decide) hPlain
  exact ⟨(getQname_decodes_iff hMessage hSome hPlain (.fresh fun _ => 0)).mpr
      ⟨by decide, fun h => absurd h Bool.false_ne_true⟩,
    (getQname_decodes_iff hMessage hSome hPointer (.fresh fun _ => 0)).mpr ⟨by decide, fun _ => by decide⟩⟩

/-- The name `b`, and behind it the name `a.b` with a pointer to that. -/
def compressedNames : Memory := fun i => ([1, 98, 0, 1, 97, 192, 0] : List UInt8).getD i 0

theorem encoded_compressedNames : Encoded compressedNames 7 true 3 [[97], [98]] 7 := by
  have hEnd : Encoded compressedNames 7 false 2 [] 3 := .root (by decide) rfl
  have hPlain : Encoded compressedNames 7 false 0 [[98]] 3 :=
    .label (by decide) (by decide) (by decide) rfl ⟨rfl, trivial⟩ hEnd
  have hPointer : Encoded compressedNames 7 true 5 [[98]] 7 :=
    .pointer (by decide) (by decide) (by decide) hPlain
  exact .label (by decide) (by decide) (by decide) rfl ⟨rfl, trivial⟩ hPointer

/-- The second name is not decoded: the message is said to go on at its pointer. -/
theorem getQname_compressed_not_decoded :
    Encoded compressedNames 7 true 3 [[97], [98]] 7 ∧
      ¬ ∃ turns result, (getQname turns 7 3 (.fresh fun _ => 0)).value compressedNames = some result ∧
        Decoded [[97], [98]] 7 result := by
  refine ⟨encoded_compressedNames, ?_⟩
  rintro ⟨turns, result, hValue, hNext, -⟩
  have hRun : (getQname 4 7 3 (.fresh fun _ => 0)).value compressedNames = some (5, _) := rfl
  rw [getQname_unique hValue hRun] at hNext
  exact absurd hNext (by decide)

end Tun2Http
