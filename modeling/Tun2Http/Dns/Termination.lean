import Tun2Http.Dns.Chain

/-! Where the functions of `dns.c` return. Only the loop over a name can run
on, and it does where the name leads back to itself. -/
namespace Tun2Http

open Machine Relation

variable {mem : Memory} {datalen turns : Nat} {off : Nat} {name : Buffer} {result : Int × Buffer}

theorem toNat_ofInt_natCast (off : Nat) : (BitVec.ofInt 16 off).toNat = off % 2 ^ 16 := by
  rw [BitVec.ofInt_natCast, BitVec.toNat_ofNat]

/-- Behind the fixed part at `fixed` the next record begins, where this one
is in the message. -/
theorem value_parseRecord (datalen fixed : Nat) :
    (parseRecord datalen fixed).value mem =
      if 0 < fixed ∧ fixed + 10 + rdlength mem fixed ≤ datalen then
        some ((fixed + 10 + rdlength mem fixed : Nat) : Int)
      else none := by
  rw [parseRecord, Reader.value_ite]
  by_cases hFixed : 0 < fixed ∧ fixed + 10 ≤ datalen
  · rw [if_pos (by omega)]
    simp only [Reader.value_bind, Int.toNat_natCast, Reader.value_ite, Reader.value_pure]
    have hSame : (be16 (fixed + 8)).value mem = rdlength mem fixed := rfl
    rw [hSame]
    by_cases hData : fixed + 10 + rdlength mem fixed ≤ datalen
    · rw [if_pos (by omega), if_pos ⟨hFixed.1, hData⟩]
      rfl
    · rw [if_neg (by omega), if_neg (fun h => hData h.2)]
  · rw [if_neg (by omega), if_neg (fun h => hFixed ⟨h.1, by omega⟩)]
    rfl

theorem parseRecord_failed (datalen : Nat) : parseRecord datalen (-1) = pure none := by
  rw [parseRecord, if_neg (by omega)]

theorem parseAnswers_running {off : Int} {count : Nat}
    (h : (getQname turns datalen (BitVec.ofInt 16 off) name).value mem = none) :
    (parseAnswers turns datalen (count + 1) off name).value mem = none := by
  rw [parseAnswers, Reader.value_bind, h]
  rfl

theorem parseAnswers_next {off next : Int} {count : Nat}
    (h : (getQname turns datalen (BitVec.ofInt 16 off) name).value mem = some result)
    (hNext : (parseRecord datalen result.1).value mem = some next) :
    (parseAnswers turns datalen (count + 1) off name).value mem =
        (parseAnswers turns datalen count next result.2).value mem ∧
      (parseAnswers turns datalen (count + 1) off name).reads mem =
        (getQname turns datalen (BitVec.ofInt 16 off) name).reads mem ++
          ((parseRecord datalen result.1).reads mem ++
            (parseAnswers turns datalen count next result.2).reads mem) := by
  obtain ⟨off', name'⟩ := result
  rw [parseAnswers, Reader.value_bind, Reader.reads_bind, h]
  dsimp only
  rw [Reader.value_bind, Reader.reads_bind, hNext]
  exact ⟨rfl, rfl⟩

theorem parseAnswers_last {off : Int} {count : Nat}
    (h : (getQname turns datalen (BitVec.ofInt 16 off) name).value mem = some result)
    (hNext : (parseRecord datalen result.1).value mem = none) :
    (parseAnswers turns datalen (count + 1) off name).value mem = some result.2 ∧
      (parseAnswers turns datalen (count + 1) off name).reads mem =
        (getQname turns datalen (BitVec.ofInt 16 off) name).reads mem ++
          (parseRecord datalen result.1).reads mem := by
  obtain ⟨off', name'⟩ := result
  rw [parseAnswers, Reader.value_bind, Reader.reads_bind, h]
  dsimp only
  rw [Reader.value_bind, Reader.reads_bind, hNext]
  exact ⟨rfl, congrArg _ (List.append_nil _)⟩

/-- A record that is in the message is passed, any other ends the loop. -/
theorem parseRecord_cases {off : Nat}
    (h : (getQname turns datalen (BitVec.ofInt 16 off) name).value mem = some result) :
    (∃ next : Nat, RecordAt mem datalen off next ∧
      (parseRecord datalen result.1).value mem = some (next : Int)) ∨
      ((∀ next, ¬ RecordAt mem datalen off next) ∧
        (parseRecord datalen result.1).value mem = none) := by
  rcases getQname_returns h with ⟨hFailed, hNone⟩ | ⟨fixed, hFixed, hEnds⟩
  · rw [toNat_ofInt_natCast] at hNone
    rw [hFailed, parseRecord_failed]
    exact Or.inr ⟨fun next ⟨fixed, hName, _⟩ => hNone fixed hName.1, rfl⟩
  · rw [toNat_ofInt_natCast] at hEnds
    rw [hFixed, value_parseRecord]
    split_ifs with hInside
    · exact Or.inl ⟨_, ⟨fixed, ⟨(hEnds fixed).mpr rfl, hInside.1, by omega⟩, hInside.2, rfl⟩, rfl⟩
    · refine Or.inr ⟨?_, rfl⟩
      rintro _ ⟨other, ⟨hName, hSome, -⟩, hFits, -⟩
      cases (hEnds other).mp hName
      exact hInside ⟨hSome, hFits⟩

/-- A name ends at one offset only. -/
theorem nameEnds_unique {first second : Nat} (hFirst : NameEnds mem datalen off first)
    (hSecond : NameEnds mem datalen off second) : first = second := by
  obtain ⟨m, hReach, hZero, -, hNext⟩ := hFirst
  obtain ⟨m', hReach', hZero', -, hNext'⟩ := hSecond
  cases halt_unique hop_rightUnique hReach hReach' (fun _ => not_hop_of_zero hZero)
    (fun _ => not_hop_of_zero hZero')
  rw [hNext, hNext']

/-- At most one record begins at an offset. -/
theorem recordAt_unique {first second : Nat} (hFirst : RecordAt mem datalen off first)
    (hSecond : RecordAt mem datalen off second) : first = second := by
  obtain ⟨fixed, hFixed, -, rfl⟩ := hFirst
  obtain ⟨fixed', hFixed', -, rfl⟩ := hSecond
  rw [nameEnds_unique hFixed.1 hFixed'.1]

theorem not_circular_of_getQname {off : U16}
    (h : (getQname turns datalen off name).value mem = some result) :
    ¬ Circular mem datalen off.toNat := (getQname_ends_iff off name).mp ⟨turns, result, h⟩

/-- The loop over the answers has ended only if it could walk through every name. -/
theorem not_circular_of_parseAnswers {count off : Nat} {last : Buffer}
    (h : (parseAnswers turns datalen count off name).value mem = some last) :
    ∀ k < count, ∀ place, RecordsTo mem datalen k off place →
      ¬ Circular mem datalen (place % 2 ^ 16) := by
  induction count generalizing off name with
  | zero => exact fun k hk => absurd hk (Nat.not_lt_zero k)
  | succ count ih =>
      cases hName : (getQname turns datalen (BitVec.ofInt 16 off) name).value mem with
      | none => cases (parseAnswers_running hName).symm.trans h
      | some result =>
          rw [forall_recordsTo_succ, ← toNat_ofInt_natCast]
          refine ⟨not_circular_of_getQname hName, fun next hRecord => ?_⟩
          rcases parseRecord_cases hName with ⟨other, hOther, hNext⟩ | ⟨hNone, -⟩
          · cases recordAt_unique hRecord hOther
            exact ih ((parseAnswers_next hName hNext).1 ▸ h)
          · exact absurd hRecord (hNone next)

/-- If it can, it ends. -/
theorem parseAnswers_settles {count : Nat} (off : Nat) (name : Buffer)
    (h : ∀ k < count, ∀ place, RecordsTo mem datalen k off place →
      ¬ Circular mem datalen (place % 2 ^ 16)) :
    ∃ last, (parseAnswers qnameTurns datalen count off name).value mem = some last := by
  induction count generalizing off name with
  | zero => exact ⟨name, rfl⟩
  | succ count ih =>
      obtain ⟨hStart, hBehind⟩ := forall_recordsTo_succ.mp h
      rw [← toNat_ofInt_natCast] at hStart
      obtain ⟨result, hName⟩ := getQname_qnameTurns hStart name
      rcases parseRecord_cases hName with ⟨next, hRecord, hNext⟩ | ⟨-, hNone⟩
      · rw [(parseAnswers_next hName hNext).1]
        exact ih next result.2 (hBehind next hRecord)
      · exact ⟨result.2, (parseAnswers_last hName hNone).1⟩

/-! The two functions that look at messages. -/

theorem toNat_headerLength : (BitVec.ofNat 16 dnsHeaderLength).toNat = dnsHeaderLength := rfl

/-- The checks of the header read in front of the names, and choose between
the functions' bodies and their returns. -/
theorem parseDnsResponse_header (turns : Nat) (name : Buffer) :
    (ResponseHeader mem datalen ∧
      (parseDnsResponse turns datalen name).value mem =
        (parseRecords turns datalen ((be16 6).value mem) name).value mem ∧
      ((parseDnsResponse turns datalen name).Within datalen mem ↔
        (parseRecords turns datalen ((be16 6).value mem) name).Within datalen mem)) ∨
    (¬ ResponseHeader mem datalen ∧ (parseDnsResponse turns datalen name).value mem = some name ∧
      (parseDnsResponse turns datalen name).Within datalen mem) := by
  by_cases hLength : datalen < dnsHeaderLength + 1
  · rw [parseDnsResponse, if_pos hLength]
    exact Or.inr ⟨fun h => absurd h.length (by omega), rfl, Reader.within_pure _ _ _⟩
  · have hShort : 12 < datalen := Nat.not_le.mp fun h => hLength (Nat.lt_succ_of_le h)
    rw [parseDnsResponse, if_neg hLength]
    rw [Reader.value_bind, Reader.value_bind, Reader.value_bind, Reader.within_bind,
      Reader.within_bind, Reader.within_bind, within_be16, within_be16, Reader.within_byte,
      Reader.value_byte]
    by_cases hFlags : dnsQr (mem 2) = 1 ∧ dnsOpcode (mem 2) = 0 ∧ 0 < (be16 4).value mem ∧
        0 < (be16 6).value mem
    · rw [if_pos hFlags]
      obtain ⟨hQr, hOpcode, hQcount, hAcount⟩ := hFlags
      exact Or.inl ⟨⟨Nat.not_lt.mp hLength, hQr, hOpcode, hQcount, hAcount⟩, rfl,
        fun h => h.2.2.2, fun h => ⟨by omega, by omega, by omega, h⟩⟩
    · rw [if_neg hFlags]
      exact Or.inr ⟨fun h => hFlags ⟨h.qr, h.opcode, h.qcount, h.acount⟩, rfl,
        by omega, by omega, by omega, Reader.within_pure _ _ _⟩

theorem getDnsQuery_header (turns : Nat) (name : Buffer) :
    (QueryHeader mem datalen ∧
      (getDnsQuery turns datalen name).value mem = (queryQuestion turns datalen name).value mem ∧
      ((getDnsQuery turns datalen name).Within datalen mem ↔
        (queryQuestion turns datalen name).Within datalen mem)) ∨
    (¬ QueryHeader mem datalen ∧ (getDnsQuery turns datalen name).value mem = some (none, name) ∧
      (getDnsQuery turns datalen name).Within datalen mem) := by
  by_cases hLength : datalen < dnsHeaderLength + 1
  · rw [getDnsQuery, if_pos hLength]
    exact Or.inr ⟨fun h => absurd h.length (by omega), rfl, Reader.within_pure _ _ _⟩
  · have hShort : 12 < datalen := Nat.not_le.mp fun h => hLength (Nat.lt_succ_of_le h)
    rw [getDnsQuery, if_neg hLength]
    rw [Reader.value_bind, Reader.value_bind, Reader.within_bind, Reader.within_bind, within_be16,
      Reader.within_byte, Reader.value_byte]
    by_cases hFlags : dnsQr (mem 2) = 0 ∧ dnsOpcode (mem 2) = 0 ∧ 0 < (be16 4).value mem
    · rw [if_pos hFlags]
      obtain ⟨hQr, hOpcode, hQcount⟩ := hFlags
      exact Or.inl ⟨⟨Nat.not_lt.mp hLength, hQr, hOpcode, hQcount⟩, rfl,
        fun h => h.2.2, fun h => ⟨by omega, by omega, h⟩⟩
    · rw [if_neg hFlags]
      exact Or.inr ⟨fun h => hFlags ⟨h.qr, h.opcode, h.qcount⟩, rfl,
        by omega, by omega, Reader.within_pure _ _ _⟩

/-- At most one offset is that of the answers. -/
theorem questionEnds_unique {first second : Nat} (hFirst : QuestionEnds mem datalen first)
    (hSecond : QuestionEnds mem datalen second) : first = second := by
  obtain ⟨next, hName, -, -, rfl⟩ := hFirst
  obtain ⟨next', hName', -, -, rfl⟩ := hSecond
  rw [nameEnds_unique hName hName']

theorem within_parseQuestion (datalen : Nat) (off : Int) :
    (parseQuestion datalen off).Within datalen mem := by
  rw [parseQuestion, Reader.within_ite]
  split_ifs
  · simp only [Reader.within_bind, within_be16, Reader.within_pure, and_true]
    omega
  · exact Reader.within_pure _ _ _

/-- A question that is in the message is passed, any other is the end. -/
theorem parseQuestion_cases
    (h : (getQname turns datalen (BitVec.ofNat 16 dnsHeaderLength) name).value mem = some result) :
    (∃ answers : Nat, QuestionEnds mem datalen answers ∧
      (parseQuestion datalen result.1).value mem = some (answers : Int)) ∨
    ((∀ answers, ¬ QuestionEnds mem datalen answers) ∧
      (parseQuestion datalen result.1).value mem = none) := by
  rw [parseQuestion, Reader.value_ite]
  rcases getQname_returns h with ⟨hFailed, hNone⟩ | ⟨next, hNext, hEnds⟩
  · rw [hFailed, if_neg (by omega)]
    exact Or.inr ⟨fun _ ⟨next, hQuestion, _⟩ => hNone next hQuestion, rfl⟩
  · rw [hNext]
    by_cases hInside : 0 < next ∧ next + 4 ≤ datalen
    · rw [if_pos (by omega)]
      exact Or.inl ⟨next + 4, ⟨next, (hEnds next).mpr rfl, hInside.1, hInside.2, rfl⟩, rfl⟩
    · rw [if_neg (by omega)]
      refine Or.inr ⟨?_, rfl⟩
      rintro _ ⟨other, hQuestion, hSome, hFits, -⟩
      cases (hEnds other).mp hQuestion
      exact hInside ⟨hSome, hFits⟩

theorem parseRecords_running {acount : Nat}
    (h : (getQname turns datalen (BitVec.ofNat 16 dnsHeaderLength) name).value mem = none) :
    (parseRecords turns datalen acount name).value mem = none := by
  rw [parseRecords, Reader.value_bind, h]
  rfl

/-- With the name walked, the answers are parsed where the question ends. -/
theorem parseRecords_cases {acount : Nat}
    (h : (getQname turns datalen (BitVec.ofNat 16 dnsHeaderLength) name).value mem = some result) :
    (∃ answers : Nat, QuestionEnds mem datalen answers ∧
      (parseRecords turns datalen acount name).value mem =
        (parseAnswers turns datalen acount answers result.2).value mem ∧
      ((parseRecords turns datalen acount name).Within datalen mem ↔
        (getQname turns datalen (BitVec.ofNat 16 dnsHeaderLength) name).Within datalen mem ∧
          (parseAnswers turns datalen acount answers result.2).Within datalen mem)) ∨
    ((∀ answers, ¬ QuestionEnds mem datalen answers) ∧
      (parseRecords turns datalen acount name).value mem = some result.2 ∧
      ((parseRecords turns datalen acount name).Within datalen mem ↔
        (getQname turns datalen (BitVec.ofNat 16 dnsHeaderLength) name).Within datalen mem)) := by
  have hCases := parseQuestion_cases h
  rw [parseRecords, Reader.value_bind, Reader.within_bind, h]
  obtain ⟨off, name'⟩ := result
  dsimp only at hCases ⊢
  rw [Reader.value_bind, Reader.within_bind, eq_true (within_parseQuestion datalen off), true_and]
  rcases hCases with ⟨answers, hQuestion, hValue⟩ | ⟨hNone, hValue⟩
  · rw [hValue]
    exact Or.inl ⟨answers, hQuestion, rfl, Iff.rfl⟩
  · rw [hValue]
    exact Or.inr ⟨hNone, rfl, and_iff_left (Reader.within_pure _ _ _)⟩

theorem parseRecords_settles {acount : Nat} (hFirst : ¬ Circular mem datalen dnsHeaderLength)
    (hBehind : ∀ answers, QuestionEnds mem datalen answers → ∀ count < acount, ∀ place,
      RecordsTo mem datalen count answers place → ¬ Circular mem datalen (place % 2 ^ 16)) :
    ∃ last, (parseRecords qnameTurns datalen acount name).value mem = some last := by
  obtain ⟨result, hName⟩ : ∃ result, (getQname qnameTurns datalen
      (BitVec.ofNat 16 dnsHeaderLength) name).value mem = some result :=
    getQname_qnameTurns hFirst name
  rcases parseRecords_cases hName with ⟨answers, hQuestion, hSame, -⟩ | ⟨-, hLast, -⟩
  · rw [hSame]
    exact parseAnswers_settles answers result.2 (hBehind answers hQuestion)
  · exact ⟨result.2, hLast⟩

theorem not_circular_of_parseRecords {acount : Nat} {last : Buffer}
    (hLast : (parseRecords turns datalen acount name).value mem = some last) :
    ¬ Circular mem datalen dnsHeaderLength ∧
      ∀ answers, QuestionEnds mem datalen answers → ∀ count < acount, ∀ place,
        RecordsTo mem datalen count answers place → ¬ Circular mem datalen (place % 2 ^ 16) := by
  cases hName : (getQname turns datalen (BitVec.ofNat 16 dnsHeaderLength) name).value mem with
  | none => cases (parseRecords_running hName).symm.trans hLast
  | some result =>
      refine ⟨not_circular_of_getQname hName, fun answers hQuestion => ?_⟩
      rcases parseRecords_cases hName with ⟨other, hOther, hSame, -⟩ | ⟨hNone, -⟩
      · cases questionEnds_unique hQuestion hOther
        exact not_circular_of_parseAnswers (hSame ▸ hLast)
      · exact absurd hQuestion (hNone answers)

theorem parseDnsResponse_settles (h : ¬ CircularResponse mem datalen) (name : Buffer) :
    ∃ last, (parseDnsResponse qnameTurns datalen name).value mem = some last := by
  rcases parseDnsResponse_header qnameTurns name with ⟨hHeader, hValue, -⟩ | ⟨-, hValue, -⟩
  · rw [hValue]
    have hAll : ∀ off, NameParsed mem datalen off → ¬ Circular mem datalen off :=
      fun off hParsed hCircular => h ⟨hHeader, off, hParsed, hCircular⟩
    exact parseRecords_settles (hAll _ (Or.inl rfl)) fun answers hQuestion count hCount place hRecords =>
      hAll _ (Or.inr ⟨answers, count, place, hQuestion, hCount, hRecords, rfl⟩)
  · exact ⟨name, hValue⟩

theorem not_circular_of_parseDnsResponse {last : Buffer}
    (hLast : (parseDnsResponse turns datalen name).value mem = some last) : ¬ CircularResponse mem datalen := by
  rintro ⟨hHeader, off, hParsed, hCircular⟩
  rcases parseDnsResponse_header turns name with ⟨-, hValue, -⟩ | ⟨hNone, -⟩
  · obtain ⟨hFirst, hBehind⟩ := not_circular_of_parseRecords (hValue ▸ hLast)
    rcases hParsed with rfl | ⟨answers, count, place, hQuestion, hCount, hRecords, rfl⟩
    · exact hFirst hCircular
    · exact hBehind answers hQuestion count hCount place hRecords hCircular
  · exact hNone hHeader

theorem parseDnsResponse_ends_iff :
    (∃ turns last, (parseDnsResponse turns datalen name).value mem = some last) ↔
      ¬ CircularResponse mem datalen :=
  ⟨fun ⟨_, _, hLast⟩ => not_circular_of_parseDnsResponse hLast,
    fun h => ⟨qnameTurns, parseDnsResponse_settles h name⟩⟩

theorem dnsResponseReturns_iff : dnsResponseReturns mem datalen = true ↔ ¬ CircularResponse mem datalen := by
  rw [dnsResponseReturns, Option.isSome_iff_exists]
  exact ⟨fun ⟨_, hLast⟩ => not_circular_of_parseDnsResponse hLast, fun h => parseDnsResponse_settles h _⟩

theorem queryQuestion_running
    (h : (getQname turns datalen (BitVec.ofNat 16 dnsHeaderLength) name).value mem = none) :
    (queryQuestion turns datalen name).value mem = none := by
  rw [queryQuestion, Reader.value_bind, h]
  rfl

/-- With the name walked the query is done: what it still reads ends with the message. -/
theorem queryQuestion_named
    (h : (getQname turns datalen (BitVec.ofNat 16 dnsHeaderLength) name).value mem = some result) :
    (∃ answer, (queryQuestion turns datalen name).value mem = some answer) ∧
      ((queryQuestion turns datalen name).Within datalen mem ↔
        (getQname turns datalen (BitVec.ofNat 16 dnsHeaderLength) name).Within datalen mem) := by
  rw [queryQuestion, Reader.value_bind, Reader.within_bind, h]
  obtain ⟨off, name'⟩ := result
  dsimp only
  rw [Reader.value_ite, Reader.within_ite]
  split_ifs
  · refine ⟨⟨_, rfl⟩, and_iff_left ?_⟩
    simp only [Reader.within_bind, within_be16, Reader.within_pure, and_true]
    omega
  · exact ⟨⟨_, rfl⟩, and_iff_left (Reader.within_pure _ _ _)⟩

theorem getDnsQuery_settles (h : ¬ CircularQuery mem datalen) (name : Buffer) :
    ∃ last, (getDnsQuery qnameTurns datalen name).value mem = some last := by
  rcases getDnsQuery_header qnameTurns name with ⟨hHeader, hValue, -⟩ | ⟨-, hValue, -⟩
  · rw [hValue]
    obtain ⟨result, hName⟩ : ∃ result, (getQname qnameTurns datalen
        (BitVec.ofNat 16 dnsHeaderLength) name).value mem = some result :=
      getQname_qnameTurns (fun hCircular => h ⟨hHeader, hCircular⟩) name
    exact (queryQuestion_named hName).1
  · exact ⟨(none, name), hValue⟩

theorem not_circular_of_getDnsQuery {last : Option (Nat × Nat) × Buffer}
    (hLast : (getDnsQuery turns datalen name).value mem = some last) : ¬ CircularQuery mem datalen := by
  rintro ⟨hHeader, hCircular⟩
  rcases getDnsQuery_header turns name with ⟨-, hValue, -⟩ | ⟨hNone, -⟩
  · cases hName : (getQname turns datalen (BitVec.ofNat 16 dnsHeaderLength) name).value mem with
    | none => cases (queryQuestion_running hName).symm.trans (hValue ▸ hLast)
    | some result => exact not_circular_of_getQname hName hCircular
  · exact hNone hHeader

theorem getDnsQuery_ends_iff :
    (∃ turns last, (getDnsQuery turns datalen name).value mem = some last) ↔
      ¬ CircularQuery mem datalen :=
  ⟨fun ⟨_, _, hLast⟩ => not_circular_of_getDnsQuery hLast,
    fun h => ⟨qnameTurns, getDnsQuery_settles h name⟩⟩

theorem dnsQueryReturns_iff : dnsQueryReturns mem datalen = true ↔ ¬ CircularQuery mem datalen := by
  rw [dnsQueryReturns, Option.isSome_iff_exists]
  exact ⟨fun ⟨_, hLast⟩ => not_circular_of_getDnsQuery hLast, fun h => getDnsQuery_settles h _⟩

/-- Whether the functions return is a property of the ways through the names
they walk: none of these may come back to an offset at the same position. -/
theorem dns_returns_iff (mem : Memory) (datalen : Nat) (name : Buffer) :
    (∀ off : U16, (∃ turns result, (getQname turns datalen off name).value mem = some result) ↔
      ¬ Circular mem datalen off.toNat) ∧
    ((∃ turns result, (getDnsQuery turns datalen name).value mem = some result) ↔
      ¬ (QueryHeader mem datalen ∧ Circular mem datalen dnsHeaderLength)) ∧
    ((∃ turns result, (parseDnsResponse turns datalen name).value mem = some result) ↔
      ¬ (ResponseHeader mem datalen ∧
        ∃ off, NameParsed mem datalen off ∧ Circular mem datalen off)) :=
  ⟨fun off => getQname_ends_iff off name, getDnsQuery_ends_iff, parseDnsResponse_ends_iff⟩

/-- A query whose name is a pointer to itself. -/
def selfPointerQuery : Memory := fun i =>
  ([0, 1, 1, 0, 0, 1, 0, 0, 0, 0, 0, 0, 0xC0, 0x0C, 0, 1, 0, 1] : List UInt8).getD i 0

/-- A name whose first two bytes point back to the first never ends. -/
theorem circular_of_selfPointer (h : 64 ≤ (mem off).toNat ∧ pointerTarget mem off = off) :
    Circular mem datalen off := by
  have hFirst : Hop mem datalen (startMark off) ⟨true, off, 0⟩ := by
    have hHop : Hop mem datalen (startMark off) ⟨true, pointerTarget mem off, 0⟩ := .pointer h.1
    rwa [h.2] at hHop
  have hAgain : Hop mem datalen ⟨true, off, 0⟩ ⟨true, off, 0⟩ := by
    have hHop : Hop mem datalen ⟨true, off, 0⟩ ⟨true, pointerTarget mem off, 0⟩ := .pointer h.1
    rwa [h.2] at hHop
  exact ⟨⟨true, off, 0⟩, .single hFirst, .single hAgain⟩

theorem circular_selfPointerQuery : Circular selfPointerQuery 18 dnsHeaderLength :=
  circular_of_selfPointer (by decide)

/-- The session thread never comes back from it. -/
theorem dns_selfPointer_runs :
    (¬ ∃ turns result, (getQname turns 18 12 (.fresh fun _ => 0)).value selfPointerQuery = some result) ∧
      ¬ ∃ turns result, (getDnsQuery turns 18 (.fresh fun _ => 0)).value selfPointerQuery = some result := by
  refine ⟨fun hEnds => (getQname_ends_iff 12 _).mp hEnds circular_selfPointerQuery, fun hEnds => ?_⟩
  exact getDnsQuery_ends_iff.mp hEnds
    ⟨⟨by decide, by decide, by decide, by decide⟩, circular_selfPointerQuery⟩

end Tun2Http
