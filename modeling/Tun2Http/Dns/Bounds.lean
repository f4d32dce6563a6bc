import Tun2Http.Dns.Termination

/-! What the functions of `dns.c` read and write. The bytes of a label are
looked for in the message before they are copied; a length byte, the second
byte of a pointer and the data of an address record are not. -/
namespace Tun2Http

open Machine Relation

/-- On the way through the name at `off` every length byte is in the message,
and both bytes of every pointer. -/
def NameInside (mem : Memory) (datalen off : Nat) : Prop :=
  ∀ m, ReflTransGen (Hop mem datalen) (startMark off) m →
    m.ptr < datalen ∧ (64 ≤ (mem m.ptr).toNat → m.ptr + 1 < datalen)

/-- The address that is read behind the fixed part at `fixed` is in the message. -/
def AddressInside (mem : Memory) (datalen fixed : Nat) : Prop :=
  fixed + 10 + rdataRead ((be16 (fixed + 2)).value mem) ((be16 fixed).value mem) ≤ datalen

/-- The record at `off` has its data looked at, behind the fixed part at `fixed`. -/
def DataParsed (mem : Memory) (datalen off fixed : Nat) : Prop :=
  FixedAt mem datalen off fixed ∧ fixed + 10 + rdlength mem fixed ≤ datalen

/-- The answer at `off` has its name in the message, and an address in its data. -/
def AnswerInside (mem : Memory) (datalen off : Nat) : Prop :=
  NameInside mem datalen (off % 2 ^ 16) ∧
    ∀ fixed, DataParsed mem datalen off fixed → AddressInside mem datalen fixed

/-- `parse_dns_response` looks at the answer at `off`. -/
def AnswerParsed (mem : Memory) (datalen off : Nat) : Prop :=
  ∃ answers count, QuestionEnds mem datalen answers ∧ count < (be16 6).value mem ∧
    RecordsTo mem datalen count answers off

variable {mem : Memory} {datalen turns : Nat} {name : Buffer} {result : Int × Buffer}

/-- There is one step at most from a mark. -/
theorem forall_hop_iff {m t : NameMark} {P : NameMark → Prop} (hHop : Hop mem datalen m t) :
    (∀ n, Hop mem datalen m n → P n) ↔ P t :=
  ⟨fun hAll => hAll t hHop, fun hOne _ hOther => hop_rightUnique hHop hOther ▸ hOne⟩

/-- A turn reads the second byte of a pointer, and the next length byte. -/
theorem within_qnameTurn {off : Nat} {s : QnameState} (h : s.Sound mem off) :
    (qnameTurn datalen s).Within datalen mem ↔
      (∀ m, Hop mem datalen s.mark m → m.ptr < datalen) ∧
        (64 ≤ (mem s.ptr).toNat → s.ptr + 1 < datalen) := by
  have hLen : s.len = mem s.mark.ptr := h.len
  have hPtr : s.mark.ptr = s.ptr := rfl
  unfold qnameTurn
  by_cases hZero : s.len = 0
  · rw [if_pos hZero]
    have hByte : mem s.mark.ptr = 0 := hLen ▸ hZero
    refine iff_of_true (Reader.within_pure _ _ _) ⟨fun m hHop => absurd hHop (not_hop_of_zero hByte), ?_⟩
    rw [← hPtr, hByte]
    exact fun h => absurd h (by decide)
  · have hSome : (mem s.mark.ptr).toNat ≠ 0 := fun h => hZero (hLen ▸ UInt8.toNat_inj.mp h)
    rw [if_neg hZero]
    by_cases hBits : s.len &&& 0xC0 ≠ 0
    · have hPointer : 64 ≤ (mem s.mark.ptr).toNat := hLen ▸ (and_pointerBits _).mp hBits
      have hTarget : (s.len &&& 0x3F).toNat * 256 + (mem (s.ptr + 1)).toNat =
          pointerTarget mem s.mark.ptr := by
        rw [and_offsetBits, hLen]
        rfl
      rw [if_pos hBits]
      simp only [Reader.within_bind, Reader.within_byte, Reader.within_pure, and_true,
        Reader.value_byte, hTarget]
      rw [forall_hop_iff (.pointer hPointer), ← hPtr, forall_prop_of_true hPointer]
      exact and_comm
    · have hLabel : (mem s.mark.ptr).toNat < 64 :=
        Nat.not_le.mp fun h => hBits ((and_pointerBits _).mpr (hLen ▸ h))
      rw [if_neg hBits]
      by_cases hFits : s.ptr + 1 + s.len.toNat ≤ datalen ∧ s.noff + s.len.toNat ≤ dnsQnameMax
      · have hHop : Hop mem datalen s.mark _ := .label hSome hLabel (hLen ▸ hFits.1) (hLen ▸ hFits.2)
        rw [if_pos hFits]
        simp only [Reader.within_bind, Reader.within_byte, Reader.within_pure, and_true,
          and_iff_right (within_readBytes hFits.1)]
        rw [hLen, forall_hop_iff hHop, ← hPtr, and_iff_left fun h => absurd h (Nat.not_le.mpr hLabel)]
      · rw [if_neg hFits]
        refine iff_of_true (Reader.within_pure _ _ _)
          ⟨fun m hHop => ?_, fun h => absurd h (Nat.not_le.mpr hLabel)⟩
        rcases hHop with hPointer | ⟨-, -, hMessage, hName⟩
        · exact absurd hLabel (Nat.not_lt.mpr hPointer)
        · rw [← hLen] at hMessage hName
          exact absurd ⟨hMessage, hName⟩ hFits

/-- A finished `get_qname` has read in the message where the way lies in it. -/
theorem within_getQname_iff {off : U16}
    (h : (getQname turns datalen off name).value mem = some result) :
    (getQname turns datalen off name).Within datalen mem ↔ NameInside mem datalen off.toNat := by
  rw [value_getQname, Option.map_eq_some_iff] at h
  obtain ⟨last, hLast, -⟩ := h
  have hSplit : (getQname turns datalen off name).Within datalen mem ↔ off.toNat < datalen ∧
      (loop (qnameTurn datalen) turns (qnameStart mem off name)).Within datalen mem := by
    unfold getQname
    simp only [Reader.within_bind, Reader.within_byte, Reader.within_pure, and_true]
    rfl
  have hSound := sound_qnameStart mem off name
  rw [hSplit, within_loop_iff hLast]
  constructor
  · rintro ⟨hStart, hTurns⟩ m hReach
    -- Every mark of the way is that of a state, whose turn reads the next one.
    have hMark : ∀ m, ReflTransGen (Hop mem datalen) (startMark off.toNat) m →
        (∀ n, Hop mem datalen m n → n.ptr < datalen) ∧
          (64 ≤ (mem m.ptr).toNat → m.ptr + 1 < datalen) := by
      intro m hReach
      obtain ⟨s, hWalked, rfl⟩ := exists_reach_of_view QnameState.mark hop_rightUnique
        (fun _ _ => qnameTurn_sound) (fun _ _ => qnameTurn_hop)
        (fun _ _ hSound hTurn => (qnameTurn_stop hSound hTurn).2) hSound hReach
      exact (within_qnameTurn (reach_invariant (fun _ _ => qnameTurn_sound) hSound hWalked)).mp
        (hTurns s hWalked)
    refine ⟨?_, (hMark m hReach).2⟩
    cases hReach with
    | refl => exact hStart
    | tail hFront hStep => exact (hMark _ hFront).1 m hStep
  · intro hInside
    refine ⟨(hInside _ .refl).1, fun s hWalked => ?_⟩
    have hReach := reach_view QnameState.mark (fun _ _ => qnameTurn_sound)
      (fun _ _ => qnameTurn_hop) hSound hWalked
    rw [within_qnameTurn (reach_invariant (fun _ _ => qnameTurn_sound) hSound hWalked)]
    exact ⟨fun m hHop => (hInside m (hReach.tail hHop)).1, (hInside _ hReach).2⟩

/-- The buffer has room for what the loop stores, and for the zero at its end. -/
theorem within_qname {off : U16} (hName : name.Within (dnsQnameMax + 1))
    (h : (getQname turns datalen off name).value mem = some result) :
    result.2.Within (dnsQnameMax + 1) := by
  obtain ⟨s, hReach, -, -, -, rfl⟩ := getQname_last h
  have hKept : s.qname.Within (dnsQnameMax + 1) ∧ s.noff < 2 ^ 8 := by
    refine reach_invariant (I := fun s => s.qname.Within (dnsQnameMax + 1) ∧ s.noff < 2 ^ 8)
      ?_ ⟨Buffer.within_put.mpr ⟨hName, Nat.succ_pos _⟩, Nat.two_pow_pos 8⟩ hReach
    rintro s t ⟨hBuffer, hNoff⟩ hTurn
    rcases qnameTurn_cases mem datalen s with ⟨-, hNext⟩ | ⟨-, -, -, hRoom, hNext⟩ | ⟨-, -, hLeave⟩
    · cases hNext.symm.trans hTurn
      exact ⟨hBuffer, hNoff⟩
    · cases hNext.symm.trans hTurn
      refine ⟨?_, Nat.mod_lt _ (Nat.two_pow_pos 8)⟩
      rw [Buffer.within_put, Buffer.within_copy_iff, length_readBytes]
      exact ⟨⟨hBuffer, Or.inr (Nat.le_succ_of_le hRoom)⟩, Nat.lt_succ_of_le hRoom⟩
    · cases hLeave.symm.trans hTurn
  unfold qnameResult
  dsimp only
  split
  · exact hKept.1
  · have hLast : s.noff - 1 < dnsQnameMax + 1 := by
      have := hKept.2
      unfold dnsQnameMax
      omega
    exact Buffer.within_put.mpr ⟨hKept.1, hLast⟩

/-! The records. -/

theorem within_readBytes_iff (length offset count : Nat) (mem : Memory) :
    (readBytes offset count).Within length mem ↔ count = 0 ∨ offset + count ≤ length := by
  induction count generalizing offset with
  | zero => simp [readBytes]
  | succ count ih =>
      simp only [readBytes, Reader.within_bind, Reader.within_byte, Reader.within_pure, and_true, ih]
      omega

/-- Where the name of an answer ends there is one fixed part. -/
theorem forall_dataParsed_iff {off next : Nat} {P : Nat → Prop}
    (hEnds : ∀ fixed, NameEnds mem datalen (off % 2 ^ 16) fixed ↔ fixed = next) :
    (∀ fixed, DataParsed mem datalen off fixed → P fixed) ↔
      (0 < next ∧ next + 10 + rdlength mem next ≤ datalen → P next) := by
  constructor
  · exact fun hAll hData => hAll next ⟨⟨(hEnds next).mpr rfl, hData.1, by omega⟩, hData.2⟩
  · rintro hNext fixed ⟨⟨hName, hSome, -⟩, hData⟩
    cases (hEnds fixed).mp hName
    exact hNext ⟨hSome, hData⟩

/-- Of an answer only the address can lie outside. -/
theorem within_parseRecord {off : Nat}
    (h : (getQname turns datalen (BitVec.ofInt 16 off) name).value mem = some result) :
    (parseRecord datalen result.1).Within datalen mem ↔
      ∀ fixed, DataParsed mem datalen off fixed → AddressInside mem datalen fixed := by
  rcases getQname_returns h with ⟨hFailed, hNone⟩ | ⟨next, hNext, hEnds⟩
  · rw [toNat_ofInt_natCast] at hNone
    rw [hFailed, parseRecord_failed]
    exact iff_of_true (Reader.within_pure _ _ _) fun fixed hData => absurd hData.1.1 (hNone fixed)
  · rw [toNat_ofInt_natCast] at hEnds
    rw [hNext, forall_dataParsed_iff hEnds, parseRecord]
    by_cases hFixed : 0 < next ∧ next + 10 ≤ datalen
    · rw [if_pos (by omega)]
      simp only [Reader.within_bind, within_be16, within_be32, Int.toNat_natCast, Reader.within_ite,
        Reader.within_pure, and_true]
      have hLength : (be16 (next + 8)).value mem = rdlength mem next := rfl
      rw [hLength]
      by_cases hData : next + 10 + rdlength mem next ≤ datalen
      · rw [if_pos (by omega), within_readBytes_iff]
        unfold AddressInside
        have hOff : ((next : Int) + 10).toNat = next + 10 := by omega
        rw [hOff]
        constructor
        · rintro ⟨-, -, -, -, hRead⟩ -
          omega
        · intro hRead
          have := hRead ⟨hFixed.1, hData⟩
          exact ⟨by omega, by omega, by omega, by omega, Or.inr this⟩
      · rw [if_neg (by omega)]
        exact iff_of_true ⟨by omega, by omega, by omega, by omega, trivial⟩
          fun hInside => absurd hInside.2 hData
    · rw [if_neg (by omega)]
      exact iff_of_true (Reader.within_pure _ _ _) fun hInside => absurd ⟨hInside.1, by omega⟩ hFixed

/-- A finished loop over the answers has read in the message where all the
answers that it looked at lie in it. -/
theorem within_parseAnswers_iff {count off : Nat} {last : Buffer}
    (h : (parseAnswers turns datalen count off name).value mem = some last) :
    (parseAnswers turns datalen count off name).Within datalen mem ↔
      ∀ k < count, ∀ place, RecordsTo mem datalen k off place → AnswerInside mem datalen place := by
  induction count generalizing off name with
  | zero => exact iff_of_true (Reader.within_pure _ _ _) fun k hk => absurd hk (Nat.not_lt_zero k)
  | succ count ih =>
      cases hName : (getQname turns datalen (BitVec.ofInt 16 off) name).value mem with
      | none => cases (parseAnswers_running hName).symm.trans h
      | some result =>
          have hFirst : AnswerInside mem datalen off ↔
              (getQname turns datalen (BitVec.ofInt 16 off) name).Within datalen mem ∧
                (parseRecord datalen result.1).Within datalen mem := by
            rw [AnswerInside, within_getQname_iff hName, within_parseRecord hName,
              toNat_ofInt_natCast]
          rw [forall_recordsTo_succ, hFirst]
          rcases parseRecord_cases hName with ⟨next, hRecord, hNext⟩ | ⟨hNone, hNext⟩
          · have hBehind := ih ((parseAnswers_next hName hNext).1 ▸ h)
            have hOnly : (∀ other, RecordAt mem datalen off other → ∀ k < count, ∀ place,
                RecordsTo mem datalen k other place → AnswerInside mem datalen place) ↔
                ∀ k < count, ∀ place, RecordsTo mem datalen k next place →
                  AnswerInside mem datalen place :=
              ⟨fun hAll => hAll next hRecord,
                fun hOne other hOther => recordAt_unique hRecord hOther ▸ hOne⟩
            rw [hOnly, ← hBehind]
            simp only [Reader.Within, (parseAnswers_next hName hNext).2, List.mem_append, or_imp,
              forall_and, and_assoc]
          · rw [and_iff_left fun next hRecord => absurd hRecord (hNone next)]
            simp only [Reader.Within, (parseAnswers_last hName hNext).2, List.mem_append, or_imp,
              forall_and]

/-! The two functions that look at messages. -/

theorem within_getDnsQuery_iff {answer : Option (Nat × Nat) × Buffer}
    (h : (getDnsQuery turns datalen name).value mem = some answer) :
    (getDnsQuery turns datalen name).Within datalen mem ↔
      (QueryHeader mem datalen → NameInside mem datalen dnsHeaderLength) := by
  rcases getDnsQuery_header turns name with ⟨hHeader, hValue, hWithin⟩ | ⟨hNone, -, hWithin⟩
  · cases hName : (getQname turns datalen (BitVec.ofNat 16 dnsHeaderLength) name).value mem with
    | none => cases (queryQuestion_running hName).symm.trans (hValue.symm.trans h)
    | some result =>
        have hInside := within_getQname_iff hName
        rw [toNat_headerLength] at hInside
        rw [hWithin, (queryQuestion_named hName).2, hInside, forall_prop_of_true hHeader]
  · exact iff_of_true hWithin fun hHeader => absurd hHeader hNone

theorem within_parseDnsResponse_iff {last : Buffer}
    (h : (parseDnsResponse turns datalen name).value mem = some last) :
    (parseDnsResponse turns datalen name).Within datalen mem ↔
      (ResponseHeader mem datalen → NameInside mem datalen dnsHeaderLength ∧
        ∀ off, AnswerParsed mem datalen off → AnswerInside mem datalen off) := by
  rcases parseDnsResponse_header turns name with ⟨hHeader, hValue, hWithin⟩ | ⟨hNone, -, hWithin⟩
  · cases hName : (getQname turns datalen (BitVec.ofNat 16 dnsHeaderLength) name).value mem with
    | none => cases (parseRecords_running hName).symm.trans (hValue.symm.trans h)
    | some result =>
        have hInside := within_getQname_iff hName
        rw [toNat_headerLength] at hInside
        rw [hWithin, forall_prop_of_true hHeader]
        rcases parseRecords_cases hName with ⟨answers, hQuestion, hSame, hBoth⟩ | ⟨hNone, -, hOnly⟩
        · rw [hBoth, hInside, within_parseAnswers_iff (hSame.symm.trans (hValue.symm.trans h))]
          refine and_congr_right fun _ => ⟨?_, ?_⟩
          · rintro hAll off ⟨other, count, hOther, hCount, hRecords⟩
            cases questionEnds_unique hQuestion hOther
            exact hAll count hCount off hRecords
          · exact fun hAll count hCount place hRecords =>
              hAll place ⟨answers, count, hQuestion, hCount, hRecords⟩
        · rw [hOnly, hInside, and_iff_left]
          rintro off ⟨answers, -, hQuestion, -⟩
          exact absurd hQuestion (hNone answers)
  · exact iff_of_true hWithin fun hHeader => absurd hHeader hNone

/-- A run of `dns.c` that has ended has read in the message where all it came
to lies there. What `get_qname` writes is in the buffer. -/
theorem dns_within_iff (mem : Memory) (datalen turns : Nat) (bytes : Memory) :
    (∀ off result, (getQname turns datalen off (.fresh bytes)).value mem = some result →
      ((getQname turns datalen off (.fresh bytes)).Within datalen mem ↔
        NameInside mem datalen off.toNat) ∧
      result.2.Within (dnsQnameMax + 1)) ∧
    (∀ answer, (getDnsQuery turns datalen (.fresh bytes)).value mem = some answer →
      ((getDnsQuery turns datalen (.fresh bytes)).Within datalen mem ↔
        (QueryHeader mem datalen → NameInside mem datalen dnsHeaderLength))) ∧
    (∀ last, (parseDnsResponse turns datalen (.fresh bytes)).value mem = some last →
      ((parseDnsResponse turns datalen (.fresh bytes)).Within datalen mem ↔
        (ResponseHeader mem datalen → NameInside mem datalen dnsHeaderLength ∧
          ∀ off, AnswerParsed mem datalen off → AnswerInside mem datalen off))) :=
  ⟨fun _ _ h => ⟨within_getQname_iff h, within_qname (Buffer.within_fresh _ _) h⟩,
    fun _ h => within_getDnsQuery_iff h, fun _ h => within_parseDnsResponse_iff h⟩

/-- A query for the name `a`. -/
def shortQuery : Memory := fun i =>
  ([0, 1, 1, 0, 0, 1, 0, 0, 0, 0, 0, 0, 1, 97, 0, 0, 1, 0, 1] : List UInt8).getD i 0

/-- The answer to it: the name is a pointer to that of the question, the address is 1.2.3.4. -/
def shortResponse : Memory := fun i =>
  ([0, 1, 129, 128, 0, 1, 0, 1, 0, 0, 0, 0, 1, 97, 0, 0, 1, 0, 1,
    192, 12, 0, 1, 0, 1, 0, 0, 0, 60, 0, 4, 1, 2, 3, 4] : List UInt8).getD i 0

theorem responseHeader_shortResponse : ResponseHeader shortResponse 35 := by
  constructor <;> decide

theorem dns_within_shortQuery :
    ((getQname 2 19 12 (.fresh fun _ => 0)).Within 19 shortQuery ↔ NameInside shortQuery 19 12) ∧
      ((getDnsQuery 2 19 (.fresh fun _ => 0)).Within 19 shortQuery ↔
        (QueryHeader shortQuery 19 → NameInside shortQuery 19 dnsHeaderLength)) ∧
      NameInside shortResponse 35 dnsHeaderLength ∧
      ∀ off, AnswerParsed shortResponse 35 off → AnswerInside shortResponse 35 off := by
  obtain ⟨hName, hQuery, -⟩ := dns_within_iff shortQuery 19 2 fun _ => 0
  obtain ⟨-, -, hResponse⟩ := dns_within_iff shortResponse 35 4 fun _ => 0
  have hInside : ∀ i ∈ (parseDnsResponse 4 35 (.fresh fun _ => 0)).reads shortResponse, i < 35 := by
    decide
  exact ⟨(hName 12 _ rfl).1, hQuery _ rfl, (hResponse _ rfl).mp hInside responseHeader_shortResponse⟩

/-- A query that ends with its last label: the next length byte is read behind it. -/
def cutQuery : Memory := fun i =>
  ([0, 1, 1, 0, 0, 1, 0, 0, 0, 0, 0, 0, 5, 97, 98, 99, 100, 101] : List UInt8).getD i 0

theorem cutQuery_not_within :
    ((getDnsQuery 2 18 (.fresh fun _ => 0)).value cutQuery).isSome ∧
      ¬ (getDnsQuery 2 18 (.fresh fun _ => 0)).Within 18 cutQuery := by
  refine ⟨rfl, fun h => ?_⟩
  have hBehind : 18 ∈ (getDnsQuery 2 18 (.fresh fun _ => 0)).reads cutQuery := by decide
  exact absurd (h 18 hBehind) (by decide)

end Tun2Http
