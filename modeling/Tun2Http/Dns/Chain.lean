import Mathlib.Data.Fintype.Prod
import Mathlib.Data.Set.Finite.Basic
import Tun2Http.Native.Dns

/-! The way through an encoded name. It is a path over offsets of the message:
a pointer leads to its target, a label to what is behind it. `get_qname`
walks this path, and ends where it does. -/
namespace Tun2Http

open Machine Relation

/-- Where the way through a name stands: whether it has passed a pointer, its
offset, and the position in the name, which counts modulo 256. -/
@[ext] structure NameMark where
  compressed : Bool
  ptr : Nat
  noff : Nat
  deriving DecidableEq

/-- The offset in a pointer. -/
def pointerTarget (mem : Memory) (ptr : Nat) : Nat :=
  (mem ptr).toNat % 64 * 256 + (mem (ptr + 1)).toNat

/-- One step of the way. A label has to lie in the message, and to fit into
what is left of the name's 255 bytes. -/
inductive Hop (mem : Memory) (datalen : Nat) : NameMark → NameMark → Prop where
  | pointer {m : NameMark} (hPointer : 64 ≤ (mem m.ptr).toNat) :
      Hop mem datalen m ⟨true, pointerTarget mem m.ptr, m.noff⟩
  | label {m : NameMark} (hSome : (mem m.ptr).toNat ≠ 0) (hLabel : (mem m.ptr).toNat < 64)
      (hMessage : m.ptr + 1 + (mem m.ptr).toNat ≤ datalen)
      (hName : m.noff + (mem m.ptr).toNat ≤ dnsQnameMax) :
      Hop mem datalen m ⟨m.compressed, (m.ptr + ((mem m.ptr).toNat + 1)) % 2 ^ 16,
        (m.noff + ((mem m.ptr).toNat + 1)) % 2 ^ 8⟩

/-- The way through the name at `off` begins here. -/
def startMark (off : Nat) : NameMark := ⟨false, off, 0⟩

/-- The way through the name at `off` comes back to an offset, at the position
in the name that it had there before. -/
def Circular (mem : Memory) (datalen off : Nat) : Prop :=
  Returns (Hop mem datalen) (startMark off)

/-- The name at `off` ends with a zero byte, and a reader goes on at `next`.
With a pointer on the way that is two behind `off`. -/
def NameEnds (mem : Memory) (datalen off next : Nat) : Prop :=
  ∃ m, ReflTransGen (Hop mem datalen) (startMark off) m ∧ mem m.ptr = 0 ∧ m.noff ≠ 0 ∧
    next = if m.compressed then (off + 2) % 2 ^ 16 else (m.ptr + 1) % 2 ^ 16

variable {mem : Memory} {datalen : Nat}

theorem hop_rightUnique : Relator.RightUnique (Hop mem datalen) := by
  intro m first second hFirst hSecond
  cases hFirst with
  | pointer hPointer =>
      cases hSecond with
      | pointer _ => rfl
      | label _ hLabel _ _ => exact absurd hLabel (Nat.not_lt.mpr hPointer)
  | label _ hLabel _ _ =>
      cases hSecond with
      | pointer hPointer => exact absurd hLabel (Nat.not_lt.mpr hPointer)
      | label _ _ _ _ => rfl

theorem not_hop_of_zero {m t : NameMark} (hZero : mem m.ptr = 0) : ¬ Hop mem datalen m t := by
  have hNat : (mem m.ptr).toNat = 0 := congrArg UInt8.toNat hZero
  rintro (hPointer | hSome)
  · omega
  · exact hSome hNat

theorem pointerTarget_lt (mem : Memory) (ptr : Nat) : pointerTarget mem ptr < 2 ^ 14 := by
  have := (mem (ptr + 1)).toNat_lt
  unfold pointerTarget
  omega

/-- Offsets on the way fit into 16 bits and positions into 8. -/
theorem reach_bounds {start m : NameMark} (hStart : start.ptr < 2 ^ 16 ∧ start.noff < 2 ^ 8)
    (hReach : ReflTransGen (Hop mem datalen) start m) : m.ptr < 2 ^ 16 ∧ m.noff < 2 ^ 8 := by
  induction hReach with
  | refl => exact hStart
  | @tail m n _ hStep ih =>
      cases hStep with
      | pointer _ => exact ⟨(pointerTarget_lt mem m.ptr).trans (by decide), ih.2⟩
      | label _ _ _ _ => exact ⟨Nat.mod_lt _ (by decide), Nat.mod_lt _ (by decide)⟩

/-- All marks with offsets and positions that are small enough. -/
@[irreducible] def marksBelow (ptrs noffs : Nat) : Finset NameMark :=
  Finset.univ.image fun x : Bool × Fin ptrs × Fin noffs => ⟨x.1, x.2.1, x.2.2⟩

theorem mem_marksBelow {ptrs noffs : Nat} {m : NameMark} (hPtr : m.ptr < ptrs) (hNoff : m.noff < noffs) :
    m ∈ marksBelow ptrs noffs := by
  unfold marksBelow
  exact Finset.mem_image.mpr ⟨(m.compressed, ⟨m.ptr, hPtr⟩, ⟨m.noff, hNoff⟩), Finset.mem_univ _, rfl⟩

theorem card_marksBelow_le (ptrs noffs : Nat) : (marksBelow ptrs noffs).card ≤ 2 * ptrs * noffs := by
  unfold marksBelow
  refine Finset.card_image_le.trans_eq ?_
  rw [Finset.card_univ, Fintype.card_prod, Fintype.card_prod, Fintype.card_bool, Fintype.card_fin,
    Fintype.card_fin, Nat.mul_assoc]

theorem mem_marksBelow_of_reach {off : Nat} (hOff : off < 2 ^ 16) {m : NameMark}
    (hReach : ReflTransGen (Hop mem datalen) (startMark off) m) : m ∈ marksBelow (2 ^ 16) (2 ^ 8) :=
  have hBounds := reach_bounds ⟨hOff, Nat.two_pow_pos 8⟩ hReach
  mem_marksBelow hBounds.1 hBounds.2

theorem finite_reach {off : Nat} (hOff : off < 2 ^ 16) :
    {m | ReflTransGen (Hop mem datalen) (startMark off) m}.Finite :=
  (Finset.finite_toSet _).subset fun _ hReach => mem_marksBelow_of_reach hOff hReach

/-! The loop walks the way. -/

def QnameState.mark (s : QnameState) : NameMark := ⟨s.c, s.ptr, s.noff⟩

/-- The two top bits of a length byte tell a pointer from a label. -/
theorem and_pointerBits (b : UInt8) : b &&& 0xC0 ≠ 0 ↔ 64 ≤ b.toNat := by
  have hLow : (b.toNat &&& 192) % 2 ^ 6 = 0 := by
    rw [Nat.and_mod_two_pow]
    exact Nat.and_zero _
  have hHigh : (b.toNat &&& 192) / 2 ^ 6 = b.toNat / 2 ^ 6 % 2 ^ 2 := by
    rw [Nat.and_div_two_pow]
    exact Nat.and_two_pow_sub_one_eq_mod _ 2
  have hNat : (b &&& 0xC0).toNat = b.toNat &&& 192 := UInt8.toNat_and ..
  have hByte := b.toNat_lt
  have hZero : b &&& 0xC0 = 0 ↔ b.toNat &&& 192 = 0 := by
    rw [← hNat]
    exact ⟨congrArg UInt8.toNat, fun h => UInt8.toNat_inj.mp h⟩
  rw [Ne, hZero]
  omega

theorem and_offsetBits (b : UInt8) : (b &&& 0x3F).toNat = b.toNat % 64 :=
  (UInt8.toNat_and ..).trans (Nat.and_two_pow_sub_one_eq_mod b.toNat 6)

/-- The three kinds of turns. -/
theorem qnameTurn_cases (mem : Memory) (datalen : Nat) (s : QnameState) :
    (64 ≤ s.len.toNat ∧ (qnameTurn datalen s).value mem =
      .next { s with
        c := true
        off := if s.c then s.off else (s.off + 2) % 2 ^ 16
        ptr := s.len.toNat % 64 * 256 + (mem (s.ptr + 1)).toNat
        len := mem (s.len.toNat % 64 * 256 + (mem (s.ptr + 1)).toNat) }) ∨
    (s.len.toNat ≠ 0 ∧ s.len.toNat < 64 ∧ s.ptr + 1 + s.len.toNat ≤ datalen ∧
      s.noff + s.len.toNat ≤ dnsQnameMax ∧ (qnameTurn datalen s).value mem =
      .next { s with
        ptr := (s.ptr + (s.len.toNat + 1)) % 2 ^ 16
        len := mem ((s.ptr + (s.len.toNat + 1)) % 2 ^ 16)
        noff := (s.noff + (s.len.toNat + 1)) % 2 ^ 8
        qname := (s.qname.copy s.noff ((readBytes (s.ptr + 1) s.len.toNat).value mem)).put
          (s.noff + s.len.toNat) 46 }) ∨
    (s.len.toNat < 64 ∧ (s.len.toNat = 0 ∨ datalen < s.ptr + 1 + s.len.toNat ∨
      dnsQnameMax < s.noff + s.len.toNat) ∧ (qnameTurn datalen s).value mem = .leave s) := by
  unfold qnameTurn
  by_cases hZero : s.len = 0
  · have hNat : s.len.toNat = 0 := congrArg UInt8.toNat hZero
    refine Or.inr (Or.inr ⟨by omega, Or.inl hNat, ?_⟩)
    rw [if_pos hZero, Reader.value_pure]
  · have hNat : s.len.toNat ≠ 0 := fun h => hZero (UInt8.toNat_inj.mp h)
    rw [if_neg hZero]
    by_cases hPointer : s.len &&& 0xC0 ≠ 0
    · refine Or.inl ⟨(and_pointerBits _).mp hPointer, ?_⟩
      rw [if_pos hPointer, ← and_offsetBits]
      rfl
    · have hLabel : s.len.toNat < 64 := Nat.not_le.mp fun h => hPointer ((and_pointerBits _).mpr h)
      rw [if_neg hPointer]
      by_cases hFits : s.ptr + 1 + s.len.toNat ≤ datalen ∧ s.noff + s.len.toNat ≤ dnsQnameMax
      · rw [if_pos hFits]
        exact Or.inr (Or.inl ⟨hNat, hLabel, hFits.1, hFits.2, rfl⟩)
      · rw [if_neg hFits]
        refine Or.inr (Or.inr ⟨hLabel, Or.inr ?_, rfl⟩)
        rwa [not_and_or, Nat.not_le, Nat.not_le] at hFits

/-- At the head of the loop `len` is the byte at `ptr`, and `off` is moved on
with the first pointer. -/
structure QnameState.Sound (mem : Memory) (off : Nat) (s : QnameState) : Prop where
  len : s.len = mem s.ptr
  off : s.off = if s.c then (off + 2) % 2 ^ 16 else off

theorem qnameTurn_sound {off : Nat} {s t : QnameState} (h : s.Sound mem off)
    (hTurn : GoesOn (qnameTurn datalen) mem s t) : t.Sound mem off := by
  rcases qnameTurn_cases mem datalen s with ⟨-, hNext⟩ | ⟨-, -, -, -, hNext⟩ | ⟨-, -, hLeave⟩
  · cases hNext.symm.trans hTurn
    refine ⟨rfl, ?_⟩
    have hOff := h.off
    cases hC : s.c with
    | false => simp [hOff, hC]
    | true => simp [hOff, hC]
  · cases hNext.symm.trans hTurn
    exact ⟨rfl, h.off⟩
  · cases hLeave.symm.trans hTurn

theorem qnameTurn_hop {off : Nat} {s t : QnameState} (h : s.Sound mem off)
    (hTurn : GoesOn (qnameTurn datalen) mem s t) : Hop mem datalen s.mark t.mark := by
  have hLen : s.len = mem s.mark.ptr := h.len
  rcases qnameTurn_cases mem datalen s with
    ⟨hPointer, hNext⟩ | ⟨hSome, hLabel, hMessage, hName, hNext⟩ | ⟨-, -, hLeave⟩
  · cases hNext.symm.trans hTurn
    rw [hLen] at hPointer ⊢
    exact .pointer hPointer
  · cases hNext.symm.trans hTurn
    rw [hLen] at hSome hLabel hMessage hName ⊢
    exact .label hSome hLabel hMessage hName
  · cases hLeave.symm.trans hTurn

theorem qnameTurn_stop {off : Nat} {s t : QnameState} (h : s.Sound mem off)
    (hTurn : (qnameTurn datalen s).value mem = .leave t) :
    t = s ∧ ∀ m, ¬ Hop mem datalen s.mark m := by
  have hLen : s.len = mem s.mark.ptr := h.len
  rcases qnameTurn_cases mem datalen s with ⟨-, hNext⟩ | ⟨-, -, -, -, hNext⟩ | ⟨hSmall, hWhy, hLeave⟩
  · cases hNext.symm.trans hTurn
  · cases hNext.symm.trans hTurn
  · cases hLeave.symm.trans hTurn
    rw [hLen] at hSmall hWhy
    refine ⟨rfl, ?_⟩
    rintro m (hPointer | ⟨hSome, hLabel, hMessage, hName⟩)
    · omega
    · have hPtr : s.mark.ptr = s.ptr := rfl
      have hNoff : s.mark.noff = s.noff := rfl
      omega

/-- The first state of the loop. -/
def qnameStart (mem : Memory) (off : U16) (qname : Buffer) : QnameState :=
  { c := false, off := off.toNat, ptr := off.toNat, len := mem off.toNat, noff := 0,
    qname := qname.put 0 0 }

theorem sound_qnameStart (mem : Memory) (off : U16) (qname : Buffer) :
    (qnameStart mem off qname).Sound mem off.toNat := ⟨rfl, rfl⟩

theorem value_getQname (turns datalen : Nat) (off : U16) (qname : Buffer) (mem : Memory) :
    (getQname turns datalen off qname).value mem =
      ((loop (qnameTurn datalen) turns (qnameStart mem off qname)).value mem).map qnameResult := rfl

variable {turns : Nat} {off : U16} {qname : Buffer}

/-- The loop of `get_qname` ends where the way is not circular. -/
theorem getQname_ends_iff (off : U16) (qname : Buffer) :
    (∃ turns result, (getQname turns datalen off qname).value mem = some result) ↔
      ¬ Circular mem datalen off.toNat := by
  have hLoop : Ends (qnameTurn datalen) mem (qnameStart mem off qname) ↔
      Halts (Hop mem datalen) (startMark off.toNat) :=
    ends_iff_halts QnameState.mark hop_rightUnique (fun _ _ => qnameTurn_sound)
      (fun _ _ => qnameTurn_hop) (fun _ _ hSound hTurn => (qnameTurn_stop hSound hTurn).2)
      (sound_qnameStart mem off qname)
  rw [Circular, ← halts_iff_not_returns hop_rightUnique (finite_reach off.isLt), ← hLoop]
  constructor
  · rintro ⟨turns, result, hEnd⟩
    rw [value_getQname, Option.map_eq_some_iff] at hEnd
    obtain ⟨last, hLast, -⟩ := hEnd
    exact ⟨turns, last, hLast⟩
  · rintro ⟨turns, last, hLast⟩
    exact ⟨turns, qnameResult last, by rw [value_getQname, hLast]; rfl⟩

/-- As many turns as there are marks are enough. -/
theorem getQname_qnameTurns {off : U16} (h : ¬ Circular mem datalen off.toNat) (qname : Buffer) :
    ∃ result, (getQname qnameTurns datalen off qname).value mem = some result := by
  have hHalts := (halts_iff_not_returns hop_rightUnique (finite_reach off.isLt)).mpr h
  obtain ⟨last, hLast⟩ := loop_card QnameState.mark hop_rightUnique (fun _ _ => qnameTurn_sound)
    (fun _ _ => qnameTurn_hop) (sound_qnameStart mem off qname) (marksBelow (2 ^ 16) (2 ^ 8))
    (fun _ hReach => mem_marksBelow_of_reach off.isLt hReach) hHalts
  obtain ⟨more, hMore⟩ := Nat.exists_eq_add_of_le (card_marksBelow_le (2 ^ 16) (2 ^ 8))
  have hEnough : qnameTurns = (marksBelow (2 ^ 16) (2 ^ 8)).card + more := hMore
  refine ⟨qnameResult last, ?_⟩
  rw [value_getQname, hEnough, (loop_add hLast more).1]
  rfl

/-- More turns change nothing. -/
theorem getQname_add {result : Int × Buffer}
    (h : (getQname turns datalen off qname).value mem = some result) (more : Nat) :
    (getQname (turns + more) datalen off qname).value mem = some result := by
  rw [value_getQname, Option.map_eq_some_iff] at h ⊢
  obtain ⟨last, hLast, hResult⟩ := h
  exact ⟨last, (loop_add hLast more).1, hResult⟩

/-- So all runs that have ended have one result. -/
theorem getQname_unique {turns' : Nat} {first second : Int × Buffer}
    (hFirst : (getQname turns datalen off qname).value mem = some first)
    (hSecond : (getQname turns' datalen off qname).value mem = some second) : first = second := by
  have hSame := getQname_add hSecond turns
  rw [Nat.add_comm, getQname_add hFirst turns'] at hSame
  exact Option.some.inj hSame

/-- `get_qname` ends in the last state of the way. -/
theorem getQname_last {result : Int × Buffer}
    (h : (getQname turns datalen off qname).value mem = some result) :
    ∃ s, ReflTransGen (GoesOn (qnameTurn datalen) mem) (qnameStart mem off qname) s ∧
      s.Sound mem off.toNat ∧ ReflTransGen (Hop mem datalen) (startMark off.toNat) s.mark ∧
      (∀ m, ¬ Hop mem datalen s.mark m) ∧ result = qnameResult s := by
  rw [value_getQname, Option.map_eq_some_iff] at h
  obtain ⟨last, hLast, rfl⟩ := h
  obtain ⟨s, hReach, hLeave⟩ := exists_leave_of_loop hLast
  have hSound : s.Sound mem off.toNat :=
    reach_invariant (fun _ _ => qnameTurn_sound) (sound_qnameStart mem off qname) hReach
  obtain ⟨rfl, hStop⟩ := qnameTurn_stop hSound hLeave
  exact ⟨_, hReach, hSound, reach_view QnameState.mark (fun _ _ => qnameTurn_sound)
    (fun _ _ => qnameTurn_hop) (sound_qnameStart mem off qname) hReach, hStop, rfl⟩

/-- The value returned is where the name ends, or `-1`. -/
theorem getQname_returns {result : Int × Buffer}
    (h : (getQname turns datalen off qname).value mem = some result) :
    (result.1 = -1 ∧ ∀ next, ¬ NameEnds mem datalen off.toNat next) ∨
      ∃ next : Nat, result.1 = next ∧ ∀ other, NameEnds mem datalen off.toNat other ↔ other = next := by
  obtain ⟨s, -, hSound, hReach, hStop, rfl⟩ := getQname_last h
  -- The last mark of the way is the mark of this state.
  have hSame : ∀ m, ReflTransGen (Hop mem datalen) (startMark off.toNat) m → mem m.ptr = 0 →
      m = s.mark := fun m hOther hZero =>
    halt_unique hop_rightUnique hOther hReach (fun _ => not_hop_of_zero hZero) hStop
  have hLen : s.len = mem s.mark.ptr := hSound.len
  unfold qnameResult
  dsimp only
  by_cases hInvalid : s.len ≠ 0 ∨ s.noff = 0
  · rw [if_pos hInvalid]
    refine Or.inl ⟨rfl, ?_⟩
    rintro next ⟨m, hOther, hZero, hNoff, -⟩
    cases hSame m hOther hZero
    rcases hInvalid with hLong | hEmpty
    · exact hLong (hLen.trans hZero)
    · exact hNoff hEmpty
  · rw [if_neg hInvalid]
    obtain ⟨hZero, hNoff⟩ := not_or.mp hInvalid
    have hByte : mem s.mark.ptr = 0 := hLen ▸ not_not.mp hZero
    have hNext : (if s.c then s.off else (s.ptr + 1) % 2 ^ 16) =
        if s.mark.compressed then (off.toNat + 2) % 2 ^ 16 else (s.mark.ptr + 1) % 2 ^ 16 := by
      have hOff := hSound.off
      have hMark : s.mark.compressed = s.c := rfl
      rw [hMark]
      cases hC : s.c with
      | false => rfl
      | true => simpa [hC] using hOff
    refine Or.inr ⟨_, rfl, fun other => ?_⟩
    rw [hNext]
    constructor
    · rintro ⟨m, hOther, hEnd, -, rfl⟩
      rw [hSame m hOther hEnd]
    · rintro rfl
      exact ⟨s.mark, hReach, hByte, hNoff, rfl⟩

/-! The records of a message. -/

/-- The length of the record data, in the fixed part of a record. -/
def rdlength (mem : Memory) (off : Nat) : Nat := (be16 (off + 8)).value mem

/-- The name of the record at `off` ends at `fixed`, and its fixed part is in the message. -/
def FixedAt (mem : Memory) (datalen off fixed : Nat) : Prop :=
  NameEnds mem datalen (off % 2 ^ 16) fixed ∧ 0 < fixed ∧ fixed + 10 ≤ datalen

/-- The record at `off` is in the message, and the next one begins at `next`. -/
def RecordAt (mem : Memory) (datalen off next : Nat) : Prop :=
  ∃ fixed, FixedAt mem datalen off fixed ∧ fixed + 10 + rdlength mem fixed ≤ datalen ∧
    next = fixed + 10 + rdlength mem fixed

/-- Behind `count` records that begin at the first offset the second one is reached. -/
inductive RecordsTo (mem : Memory) (datalen : Nat) : Nat → Nat → Nat → Prop where
  | here (off : Nat) : RecordsTo mem datalen 0 off off
  | next {count off middle last : Nat} (hFirst : RecordAt mem datalen off middle)
      (hRest : RecordsTo mem datalen count middle last) :
      RecordsTo mem datalen (count + 1) off last

/-- What holds of the first record and of all behind it, holds of all. -/
theorem forall_recordsTo_succ {count off : Nat} {P : Nat → Prop} :
    (∀ k < count + 1, ∀ place, RecordsTo mem datalen k off place → P place) ↔
      P off ∧ ∀ next, RecordAt mem datalen off next →
        ∀ k < count, ∀ place, RecordsTo mem datalen k next place → P place := by
  constructor
  · exact fun hAll => ⟨hAll 0 (Nat.succ_pos _) off (.here off), fun next hRecord k hk place hPlace =>
      hAll (k + 1) (Nat.succ_lt_succ hk) place (.next hRecord hPlace)⟩
  · rintro ⟨hFirst, hRest⟩ k hk place hPlace
    cases hPlace with
    | here => exact hFirst
    | next hRecord hMore => exact hRest _ hRecord _ (Nat.lt_of_succ_lt_succ hk) place hMore

/-- The question is in the message, and the answers begin at `answers`. -/
def QuestionEnds (mem : Memory) (datalen answers : Nat) : Prop :=
  ∃ next, NameEnds mem datalen dnsHeaderLength next ∧ 0 < next ∧ next + 4 ≤ datalen ∧
    answers = next + 4

/-- The message has a header that the question of a query is looked for behind. -/
structure QueryHeader (mem : Memory) (datalen : Nat) : Prop where
  length : dnsHeaderLength + 1 ≤ datalen
  qr : dnsQr (mem 2) = 0
  opcode : dnsOpcode (mem 2) = 0
  qcount : 0 < (be16 4).value mem

/-- The message has a header that the answers of a response are looked for behind. -/
structure ResponseHeader (mem : Memory) (datalen : Nat) : Prop where
  length : dnsHeaderLength + 1 ≤ datalen
  qr : dnsQr (mem 2) = 1
  opcode : dnsOpcode (mem 2) = 0
  qcount : 0 < (be16 4).value mem
  acount : 0 < (be16 6).value mem

/-- `parse_dns_response` looks at the name at `off`: it is the question's, or
that of an answer which the records in front of it lead to. -/
def NameParsed (mem : Memory) (datalen off : Nat) : Prop :=
  off = dnsHeaderLength ∨ ∃ answers count last, QuestionEnds mem datalen answers ∧
    count < (be16 6).value mem ∧ RecordsTo mem datalen count answers last ∧ off = last % 2 ^ 16

/-- The name that `get_dns_query` looks at is circular. -/
def CircularQuery (mem : Memory) (datalen : Nat) : Prop :=
  QueryHeader mem datalen ∧ Circular mem datalen dnsHeaderLength

/-- One of the names that `parse_dns_response` looks at is circular. -/
def CircularResponse (mem : Memory) (datalen : Nat) : Prop :=
  ResponseHeader mem datalen ∧ ∃ off, NameParsed mem datalen off ∧ Circular mem datalen off

end Tun2Http
