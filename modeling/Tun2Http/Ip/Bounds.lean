import Tun2Http.Ip.Extension
import Tun2Http.Ip.Fragment

/-! Reads of a packet. The length checks subtract in `size_t`, so a header
behind the packet passes them; options and extensions are read as they say. -/
namespace Tun2Http

open Machine

/-- The header bytes that are read lie in the packet, and so does the payload
that the handler takes, however many turns the loops make. A segment that is
answered with a RST is not dropped: its data has been parsed, and its length is
acknowledged. -/
def PacketBounded (X : IpContext) (length : Nat) (mem : Memory) : Prop :=
  ∀ turns, (handlePacket X turns length).Within length mem ∧
    ∀ span, (handlePacket X turns length).value mem = some span → span.data + span.datalen ≤ length

/-- The option behind the one at `options`. -/
def nextOption (mem : Memory) (options : Nat) : Nat :=
  if mem options = 1 then options + 1 else options + (mem (options + 1)).toNat

/-- The options that the loop of `handle_tcp` comes to, from `options` on. -/
inductive OptionAt (mem : Memory) (stop : Nat) : Nat → Nat → Prop where
  | here {options : Nat} (hInside : options < stop) : OptionAt mem stop options options
  | later {options found : Nat} (hInside : options < stop) (hKind : mem options ≠ 0)
      (hRest : OptionAt mem stop (nextOption mem options) found) : OptionAt mem stop options found

/-- What is read of an option: kind and length, and the value of an MSS or a
window scale. -/
def OptionInside (length : Nat) (mem : Memory) (options : Nat) : Prop :=
  options + 1 < length ∧
    (mem options = 2 ∧ mem (options + 1) = 4 → options + 3 < length) ∧
    (mem options = 3 ∧ mem (options + 1) = 3 → options + 2 < length)

/-- The data starts in the packet, and a SYN without a session has its options
there. -/
def TcpInside (X : IpContext) (length version : Nat) (mem : Memory) (payload : Nat) : Prop :=
  let hdr := (readTcpHdr payload).value mem
  let data := payload + 20 + optLen (mem (payload + 12) >>> 4)
  data ≤ length ∧
    (findSession X ipprotoTcp version ((readAddresses version).value mem) hdr.source.toNat
        hdr.dest.toNat = none ∧ hdr.syn = true →
      ∀ options, OptionAt mem data (payload + 20) options → OptionInside length mem options)

/-- The transport header starts in the packet, and where a handler takes TCP
data it and its options lie there. -/
def HeaderInside (X : IpContext) (length version : Nat) (mem : Memory) (protocol : UInt8)
    (payload : Nat) : Prop :=
  (isUpperLayer protocol → payload ≤ length) ∧
    (protocol = ipprotoTcp → Admitted X length version mem protocol payload →
      ((readTcpHdr payload).value mem).urg = false → TcpInside X length version mem payload)

/-- What a packet must be like for the code to stay in it. -/
def Contained (X : IpContext) (length : Nat) (mem : Memory) : Prop :=
  if mem 0 >>> 4 = 4 then
    20 ≤ length → ¬ fragmentTest mem → (be16 2).value mem = length →
      HeaderInside X length 4 mem (mem 9) (20 + optLen (mem 0 &&& 0x0F))
  else if mem 0 >>> 4 = 6 then
    40 ≤ length →
      if isUpperLayer (mem 6) then HeaderInside X length 6 mem (mem 6) 40
      else WalkStops length mem 40
  else True

variable {X : IpContext} {length version payload : Nat} {mem : Memory} {protocol : UInt8}

/-- The fixed header of the version. -/
def fixedHeader (version : Nat) : Nat := if version = 4 then 20 else 40

theorem within_readAddresses (hHeader : fixedHeader version ≤ length) :
    (readAddresses version).Within length mem := by
  unfold fixedHeader at hHeader
  unfold readAddresses
  split_ifs at hHeader ⊢
  · simp only [Reader.within_bind, Reader.within_pure, and_true]
    exact ⟨within_readBytes (by omega), within_readBytes (by omega)⟩
  · simp only [Reader.within_bind, Reader.within_pure, and_true]
    exact ⟨within_readBytes (by omega), within_readBytes (by omega)⟩

theorem within_readPlen (hHeader : fixedHeader version ≤ length) :
    (readPlen version).Within length mem := by
  unfold fixedHeader at hHeader
  unfold readPlen
  split_ifs
  · rw [within_be16]
    split_ifs at hHeader <;> omega
  · exact Reader.within_pure _ _ _

theorem within_readTcpHdr (hPayload : payload + 20 ≤ length) :
    (readTcpHdr payload).Within length mem := by
  simp only [readTcpHdr, Reader.within_bind, within_be16, within_be32, Reader.within_byte,
    Reader.within_pure, and_true]
  omega

theorem within_hasUdpSession (hHeader : fixedHeader version ≤ length)
    (hPayload : payload + 8 ≤ length) : (hasUdpSession X version payload).Within length mem := by
  have hAddresses : (readAddresses version).Within length mem := within_readAddresses hHeader
  rw [hasUdpSession, Reader.within_bind, Reader.within_ite, within_be16]
  refine ⟨by omega, ?_⟩
  split_ifs
  · exact Reader.within_pure _ _ _
  · simp only [Reader.within_bind, within_be16, Reader.within_pure, and_true]
    exact ⟨by omega, hAddresses⟩

/-- A length check in `size_t` lets pass what starts behind the packet. -/
theorem within_checked_iff {size : Nat} {reader : Reader Bool} (hMtu : length ≤ getMtu)
    (hSmall : payload < 2 ^ 16) (hSize : size < 2 ^ 16)
    (hRead : payload + size ≤ length → reader.Within length mem)
    (hFirst : reader.Within length mem → payload < length) :
    (if remaining length payload < size then pure false else reader).Within length mem ↔
      payload ≤ length := by
  by_cases hPayload : payload ≤ length
  · refine iff_of_true ?_ hPayload
    rw [remaining_of_le hPayload hMtu]
    split_ifs
    · exact Reader.within_pure _ _ _
    · exact hRead (by omega)
  · refine iff_of_false (fun hWithin => ?_) hPayload
    rw [remaining_of_lt (not_le.mp hPayload) hSmall, if_neg (by omega)] at hWithin
    exact hPayload (hFirst hWithin).le

theorem within_limitSessions_iff (hMtu : length ≤ getMtu) (hSmall : payload < 2 ^ 16)
    (hHeader : fixedHeader version ≤ length) :
    (limitSessions X length version protocol payload).Within length mem ↔
      (isUpperLayer protocol → payload ≤ length) := by
  unfold limitSessions
  by_cases hIcmp : protocol = ipprotoIcmp ∨ protocol = ipprotoIcmpv6
  · have hUpper : isUpperLayer protocol := Or.inr (Or.inr hIcmp)
    rw [if_pos hIcmp, imp_iff_right hUpper]
    refine within_checked_iff hMtu hSmall (by decide) (fun hFits => ?_) fun hWithin => ?_
    · simp only [Reader.within_bind, within_be16, Reader.within_pure, and_true]
      omega
    · simp only [Reader.within_bind, within_be16] at hWithin
      omega
  rw [if_neg hIcmp]
  by_cases hUdp : protocol = ipprotoUdp
  · have hUpper : isUpperLayer protocol := Or.inr (Or.inl hUdp)
    rw [if_pos hUdp, imp_iff_right hUpper]
    refine within_checked_iff hMtu hSmall (by decide) (fun hFits => ?_) fun hWithin => ?_
    · simp only [Reader.within_bind, within_be16, Reader.within_pure, and_true]
      exact ⟨by omega, within_hasUdpSession hHeader hFits⟩
    · simp only [Reader.within_bind, within_be16] at hWithin
      omega
  rw [if_neg hUdp]
  by_cases hTcp : protocol = ipprotoTcp
  · have hUpper : isUpperLayer protocol := Or.inl hTcp
    rw [if_pos hTcp, imp_iff_right hUpper]
    refine within_checked_iff hMtu hSmall (by decide) (fun hFits => ?_) fun hWithin => ?_
    · simp only [Reader.within_bind, within_be16, Reader.within_byte, Reader.within_pure, and_true]
      omega
    · simp only [Reader.within_bind, within_be16] at hWithin
      omega
  · rw [if_neg hTcp]
    refine iff_of_true (Reader.within_pure _ _ _) fun hUpper => absurd hUpper ?_
    rintro (h | h | h | h)
    · exact hTcp h
    · exact hUdp h
    · exact hIcmp (Or.inl h)
    · exact hIcmp (Or.inr h)

theorem within_optionMss_iff {kind len : UInt8} {options : Nat} {mss : U16} :
    (optionMss kind len options mss).Within length mem ↔
      (kind = 2 ∧ len = 4 → options + 3 < length) := by
  unfold optionMss
  split_ifs with h
  · simp [h]
  · exact iff_of_true (Reader.within_pure _ _ _) fun hMss => absurd hMss h

theorem within_optionScale_iff {kind len : UInt8} {options : Nat} {ws : BitVec 8} :
    (optionScale kind len options ws).Within length mem ↔
      (kind = 3 ∧ len = 3 → options + 2 < length) := by
  unfold optionScale
  split_ifs with h
  · simp [h]
  · exact iff_of_true (Reader.within_pure _ _ _) fun hScale => absurd hScale h

/-- A turn of the option loop reads one option and goes on behind it. -/
theorem within_decodeOptions_succ {options stop : Nat} (hInside : options < stop) (mss : U16)
    (ws : BitVec 8) :
    ∃ mss' ws', ∀ turns,
      (decodeOptions (turns + 1) options (stop - options) mss ws).Within length mem ↔
        OptionInside length mem options ∧ (mem options ≠ 0 →
          (decodeOptions turns (nextOption mem options) (stop - (nextOption mem options : Nat))
            mss' ws').Within length mem) := by
  refine ⟨(optionMss (mem options) (mem (options + 1)) options mss).value mem,
    (optionScale (mem options) (mem (options + 1)) options ws).value mem, fun turns => ?_⟩
  rw [decodeOptions, if_pos (by omega), Reader.within_bind, Reader.within_bind, Reader.value_byte,
    Reader.value_byte, Reader.within_ite, Reader.within_byte, Reader.within_byte, OptionInside]
  by_cases hKind : mem options = 0
  · simp [hKind]
    omega
  · rw [if_neg hKind, imp_iff_right hKind, Reader.within_bind, Reader.within_bind,
      within_optionMss_iff, within_optionScale_iff, nextOption]
    by_cases hSkip : mem options = 1
    · rw [if_pos hSkip, if_pos hSkip, Int.sub_sub, Nat.cast_add]
      simp only [Nat.cast_one]
      constructor
      · rintro ⟨-, hLen, hMss, hScale, hRest⟩
        exact ⟨⟨hLen, hMss, hScale⟩, hRest⟩
      · rintro ⟨⟨hLen, hMss, hScale⟩, hRest⟩
        exact ⟨by omega, hLen, hMss, hScale, hRest⟩
    · rw [if_neg hSkip, if_neg hSkip, Int.sub_sub, Nat.cast_add]
      constructor
      · rintro ⟨-, hLen, hMss, hScale, hRest⟩
        exact ⟨⟨hLen, hMss, hScale⟩, hRest⟩
      · rintro ⟨⟨hLen, hMss, hScale⟩, hRest⟩
        exact ⟨by omega, hLen, hMss, hScale, hRest⟩

/-- The option loop stays in the packet exactly where the options do that it
comes to. -/
theorem within_decodeOptions_iff {options stop : Nat} (mss : U16) (ws : BitVec 8) :
    (∀ turns, (decodeOptions turns options (stop - options) mss ws).Within length mem) ↔
      ∀ found, OptionAt mem stop options found → OptionInside length mem found := by
  constructor
  · intro hWithin found hFound
    induction hFound generalizing mss ws with
    | here hInside =>
        obtain ⟨mss', ws', hTurn⟩ := within_decodeOptions_succ hInside mss ws
        exact ((hTurn 0).mp (hWithin 1)).1
    | later hInside hKind hRest ih =>
        obtain ⟨mss', ws', hTurn⟩ := within_decodeOptions_succ hInside mss ws
        exact ih mss' ws' fun turns => ((hTurn turns).mp (hWithin (turns + 1))).2 hKind
  · intro hOptions turns
    induction turns generalizing options mss ws with
    | zero => exact Reader.within_pure _ _ _
    | succ turns ih =>
        by_cases hInside : options < stop
        · obtain ⟨mss', ws', hTurn⟩ := within_decodeOptions_succ hInside mss ws
          refine (hTurn turns).mpr ⟨hOptions options (.here hInside), fun hKind => ?_⟩
          exact ih mss' ws' fun found hFound => hOptions found (.later hInside hKind hFound)
        · rw [decodeOptions, if_neg (by omega)]
          exact Reader.within_pure _ _ _

/-- What a handler takes lies in the packet. -/
def SpanInside (length : Nat) (span : Option Span) : Prop :=
  ∀ taken, span = some taken → taken.data + taken.datalen ≤ length

theorem spanInside_none (length : Nat) : SpanInside length none := fun _ h => by cases h

theorem spanInside_some_iff {data datalen : Nat} :
    SpanInside length (some ⟨data, datalen⟩) ↔ data + datalen ≤ length :=
  ⟨fun h => h _ rfl, fun h _ hTaken => Option.some.inj hTaken ▸ h⟩

theorem handleIcmp_inside (hMtu : length ≤ getMtu) (hHeader : fixedHeader version ≤ length)
    (hPayload : payload + 28 ≤ length) :
    (handleIcmp length version payload).Within length mem ∧
      SpanInside length ((handleIcmp length version payload).value mem) := by
  have hAddresses : (readAddresses version).Within length mem := within_readAddresses hHeader
  have hPlen : (readPlen version).Within length mem := within_readPlen hHeader
  rw [handleIcmp, Reader.within_bind, Reader.value_bind, Reader.within_ite, Reader.value_ite,
    Reader.within_byte]
  split_ifs
  · exact ⟨⟨by omega, Reader.within_pure _ _ _⟩, spanInside_none length⟩
  · simp only [Reader.within_bind, within_le16, Reader.within_pure, Reader.value_bind,
      Reader.value_pure, and_true, spanInside_some_iff]
    rw [remaining_of_le (by omega) hMtu]
    exact ⟨⟨by omega, hAddresses, by omega, hPlen⟩, by omega⟩

theorem handleUdp_inside (hMtu : length ≤ getMtu) (hHeader : fixedHeader version ≤ length)
    (hPayload : payload + 8 ≤ length) :
    (handleUdp X length version payload).Within length mem ∧
      SpanInside length ((handleUdp X length version payload).value mem) := by
  have hAddresses : (readAddresses version).Within length mem := within_readAddresses hHeader
  simp only [handleUdp, Reader.within_bind, Reader.value_bind, Reader.within_ite, Reader.value_ite,
    within_be16, Reader.within_pure, Reader.value_pure]
  split_ifs
  · exact ⟨⟨by omega, by omega, hAddresses, trivial⟩, spanInside_none length⟩
  · rw [spanInside_some_iff, remaining_of_le hPayload hMtu]
    exact ⟨⟨by omega, by omega, hAddresses, trivial⟩, by omega⟩

/-- A data length that wraps, in `size_t` and then in `uint16_t`, leads out of
the packet. -/
theorem datalen_inside_iff {data : Nat} (hMtu : length ≤ getMtu) (hSmall : data < 2 ^ 15) :
    data + remaining length data % 2 ^ 16 ≤ length ↔ data ≤ length := by
  unfold getMtu at hMtu
  by_cases hData : data ≤ length
  · rw [remaining_of_le hData hMtu]
    omega
  · rw [remaining_of_lt (not_le.mp hData) (by omega)]
    omega

theorem optLen_lt (words : UInt8) : optLen words < 256 := UInt8.toNat_lt _

/-- The head of `handle_tcp`, with all of the fixed header in the packet. -/
theorem handleTcp_inside_iff (hMtu : length ≤ getMtu) (hHeader : fixedHeader version ≤ length)
    (hPayload : payload + 20 ≤ length) :
    (∀ turns, (handleTcp X turns length version payload).Within length mem ∧
      SpanInside length ((handleTcp X turns length version payload).value mem)) ↔
      (((readTcpHdr payload).value mem).urg = false → TcpInside X length version mem payload) := by
  have hAddresses : (readAddresses version).Within length mem := within_readAddresses hHeader
  have hFields : (readTcpHdr payload).Within length mem := within_readTcpHdr hPayload
  have hDoff : payload + 12 < length := by omega
  have hLen := optLen_lt (mem (payload + 12) >>> 4)
  have hNear : payload + 20 + optLen (mem (payload + 12) >>> 4) < 2 ^ 15 := by
    unfold getMtu at hMtu
    omega
  have hSpan := datalen_inside_iff hMtu hNear
  simp only [handleTcp, Reader.within_bind, Reader.value_bind, Reader.value_byte, Reader.within_byte,
    Reader.within_ite, Reader.value_ite, Reader.within_pure, Reader.value_pure, hFields, hDoff,
    hAddresses, true_and, and_true]
  unfold TcpInside
  dsimp only
  cases hUrg : ((readTcpHdr payload).value mem).urg with
  | true => simp [spanInside_none]
  | false =>
      generalize optLen (mem (payload + 12) >>> 4) = tcpoptlen at hLen hSpan ⊢
      have hStart : (tcpoptlen : Int) = (payload + 20 + tcpoptlen : Nat) - (payload + 20 : Nat) := by
        omega
      simp only [Bool.false_eq_true, if_false, ite_self, spanInside_some_iff,
        hSpan, forall_and, forall_const]
      rw [and_comm]
      apply and_congr_right
      intro _
      by_cases hOpens : findSession X ipprotoTcp version ((readAddresses version).value mem)
          ((readTcpHdr payload).value mem).source.toNat ((readTcpHdr payload).value mem).dest.toNat =
            none ∧ ((readTcpHdr payload).value mem).syn = true
      · simp only [if_pos hOpens, imp_iff_right hOpens]
        rw [hStart]
        exact within_decodeOptions_iff _ _
      · simp only [if_neg hOpens, forall_const, true_iff]
        exact fun h => absurd h hOpens

/-- A part of `handle_ip` and the handler that it leads to stay in the packet. -/
def Bounded (X : IpContext) (turns length : Nat) (mem : Memory) (part : Reader IpResult) : Prop :=
  part.Within length mem ∧ (callHandler X turns length (part.value mem)).Within length mem ∧
    SpanInside length ((callHandler X turns length (part.value mem)).value mem)

theorem bounded_bind {α : Type} {turns : Nat} {reader : Reader α} {next : α → Reader IpResult} :
    Bounded X turns length mem (reader >>= next) ↔
      reader.Within length mem ∧ Bounded X turns length mem (next (reader.value mem)) := by
  simp only [Bounded, Reader.within_bind, Reader.value_bind, and_assoc]

theorem bounded_dropped (turns : Nat) : Bounded X turns length mem (pure .dropped) :=
  ⟨Reader.within_pure _ _ _, Reader.within_pure _ _ _, spanInside_none length⟩

theorem bounded_running (turns : Nat) : Bounded X turns length mem (pure .running) :=
  ⟨Reader.within_pure _ _ _, Reader.within_pure _ _ _, spanInside_none length⟩

/-- What `handle_ip` and the handler read of a transport header. -/
theorem bounded_handlePayload_iff (hMtu : length ≤ getMtu) (hHeader : fixedHeader version ≤ length)
    (hSmall : payload < 2 ^ 14) :
    (∀ turns, Bounded X turns length mem (handlePayload X length version protocol payload)) ↔
      HeaderInside X length version mem protocol payload := by
  have hAddresses : (readAddresses version).Within length mem := within_readAddresses hHeader
  have hAdmit : (limitSessions X length version protocol payload).Within length mem ↔
      (isUpperLayer protocol → payload ≤ length) := within_limitSessions_iff hMtu (by omega) hHeader
  have hWithin : (handlePayload X length version protocol payload).Within length mem ↔
      (isUpperLayer protocol → payload ≤ length) := by
    simp only [handlePayload, Reader.within_bind, hAddresses, Reader.within_pure, true_and, and_true,
      hAdmit]
  simp only [Bounded, hWithin, value_handlePayload, forall_and, forall_const, HeaderInside]
  apply and_congr_right
  intro hUpper
  by_cases hAdmitted : Admitted X length version mem protocol payload
  · rw [if_pos hAdmitted, imp_iff_right hAdmitted, ← forall_and]
    have hRemaining := remaining_of_le (hUpper hAdmitted.upper) hMtu
    unfold Admitted at hAdmitted
    simp only [callHandler]
    split_ifs at hAdmitted ⊢ with hIcmp hUdp hTcp
    · have hNotTcp : protocol ≠ ipprotoTcp := by
        rcases hIcmp with rfl | rfl <;> decide
      exact iff_of_true (fun _ => handleIcmp_inside hMtu hHeader (by omega)) fun h => absurd h hNotTcp
    · have hNotTcp : protocol ≠ ipprotoTcp := by rw [hUdp]; decide
      exact iff_of_true (fun _ => handleUdp_inside hMtu hHeader (by omega)) fun h => absurd h hNotTcp
    · rw [imp_iff_right hTcp]
      exact handleTcp_inside_iff hMtu hHeader (by omega)
  · rw [if_neg hAdmitted]
    apply iff_of_true ⟨fun _ => Reader.within_pure _ _ _, fun _ => spanInside_none length⟩
    exact fun _ h => absurd h hAdmitted

/-- The IPv4 branch. -/
theorem bounded_ip4_iff (hVersion : mem 0 >>> 4 = 4) (hLength : 1 ≤ length) (hMtu : length ≤ getMtu) :
    (∀ turns, Bounded X turns length mem (handleIp X turns length)) ↔
      (20 ≤ length → ¬ fragmentTest mem → (be16 2).value mem = length →
        HeaderInside X length 4 mem (mem 9) (20 + optLen (mem 0 &&& 0x0F))) := by
  have hOptions := optLen_lt (mem 0 &&& 0x0F)
  have hPayload : 20 ≤ length →
      ((∀ turns, Bounded X turns length mem
          (handlePayload X length 4 (mem 9) (20 + optLen (mem 0 &&& 0x0F)))) ↔
        HeaderInside X length 4 mem (mem 9) (20 + optLen (mem 0 &&& 0x0F))) :=
    fun hFull => bounded_handlePayload_iff hMtu (show fixedHeader 4 ≤ length from hFull) (by omega)
  have hTurn : ∀ turns, Bounded X turns length mem (handleIp X turns length) ↔
      (20 ≤ length → ¬ fragmentTest mem → (be16 2).value mem = length →
        Bounded X turns length mem
          (handlePayload X length 4 (mem 9) (20 + optLen (mem 0 &&& 0x0F)))) := by
    intro turns
    rw [handleIp, bounded_bind, Reader.value_byte, if_pos hVersion, Reader.within_byte,
      and_iff_right (by omega)]
    by_cases hShort : length < 20
    · rw [if_pos hShort]
      exact iff_of_true (bounded_dropped turns) fun hFull => absurd hShort (not_lt.mpr hFull)
    · rw [if_neg hShort, imp_iff_right (not_lt.mp hShort), bounded_bind, bounded_bind,
        Reader.within_byte, within_le16, and_iff_right (by omega), and_iff_right (by omega)]
      by_cases hTest : fragmentTest mem
      · rw [if_pos (show (le16 6).value mem &&& ipMf ≠ 0 from hTest)]
        exact iff_of_true (bounded_dropped turns) fun hWhole => absurd hTest hWhole
      · rw [if_neg (show ¬ (le16 6).value mem &&& ipMf ≠ 0 from hTest), imp_iff_right hTest,
          bounded_bind, within_be16, and_iff_right (by omega)]
        by_cases hTotal : (be16 2).value mem = length
        · rw [if_neg (not_not.mpr hTotal), imp_iff_right hTotal, Reader.value_byte]
        · rw [if_pos hTotal]
          exact iff_of_true (bounded_dropped turns) fun hSame => absurd hSame hTotal
  simp only [hTurn]
  constructor
  · intro hBounded hFull hTest hTotal
    exact (hPayload hFull).mp fun turns => hBounded turns hFull hTest hTotal
  · intro hInside turns hFull hTest hTotal
    exact (hPayload hFull).mpr (hInside hFull hTest hTotal) turns

/-- Without an upper layer no handler is called. -/
theorem bounded_handleIp6_of_not_upper (turns : Nat) (hMtu : length ≤ getMtu) (hFull : 40 ≤ length)
    (hUpper : ¬ isUpperLayer (mem 6)) :
    Bounded X turns length mem (handleIp6 X length ((ip6Payload turns).value mem)) := by
  rcases ip6Payload_of_not_upper turns hUpper with hFound | hFound
  · rw [hFound]
    exact bounded_running turns
  · rw [hFound]
    have hInside : HeaderInside X length 6 mem (mem 6) 40 :=
      ⟨fun h => absurd h hUpper, fun hTcp => absurd (Or.inl hTcp) hUpper⟩
    have hHeader : fixedHeader 6 ≤ length := hFull
    exact (bounded_handlePayload_iff hMtu hHeader (by decide)).mpr hInside turns

/-- The IPv6 branch. -/
theorem bounded_ip6_iff (hVersion : mem 0 >>> 4 = 6) (hLength : 1 ≤ length) (hMtu : length ≤ getMtu) :
    (∀ turns, Bounded X turns length mem (handleIp X turns length)) ↔
      (40 ≤ length → if isUpperLayer (mem 6) then HeaderInside X length 6 mem (mem 6) 40
        else WalkStops length mem 40) := by
  have hTurn : ∀ turns, Bounded X turns length mem (handleIp X turns length) ↔
      (40 ≤ length → (ip6Payload turns).Within length mem ∧
        Bounded X turns length mem (handleIp6 X length ((ip6Payload turns).value mem))) := by
    intro turns
    rw [handleIp, bounded_bind, Reader.value_byte, hVersion, if_neg (by decide), if_pos rfl,
      Reader.within_byte, and_iff_right (by omega)]
    by_cases hShort : length < 40
    · rw [if_pos hShort]
      exact iff_of_true (bounded_dropped turns) fun hFull => absurd hShort (not_lt.mpr hFull)
    · rw [if_neg hShort, bounded_bind, imp_iff_right (not_lt.mp hShort)]
  simp only [hTurn]
  rw [forall_comm]
  apply imp_congr_right
  intro hFull
  rw [forall_and]
  by_cases hUpper : isUpperLayer (mem 6)
  · have hFound : ∀ turns, (ip6Payload turns).value mem = some (mem 6, 40) := fun turns => by
      rw [ip6Payload, Reader.value_bind, Reader.value_ite, Reader.value_byte, if_pos hUpper]
      rfl
    simp only [hFound, handleIp6]
    rw [if_pos hUpper, and_iff_right (walkSafe_of_upper hFull hUpper).1]
    exact bounded_handlePayload_iff hMtu hFull (by decide)
  · rw [if_neg hUpper, within_ip6Payload_iff hFull hMtu hUpper, and_iff_left]
    exact fun turns => bounded_handleIp6_of_not_upper turns hMtu hFull hUpper

theorem packetBounded_iff :
    PacketBounded X length mem ↔
      ∀ turns, Bounded X turns length mem (handleIp X turns length) := by
  simp only [PacketBounded, handlePacket, Reader.within_bind, Reader.value_bind, and_assoc]
  rfl

/-- For every packet that can be read from the tun: the code stays in it exactly
where the headers are contained. -/
theorem packet_bounds_iff (hLength : 1 ≤ length) (hMtu : length ≤ getMtu) :
    PacketBounded X length mem ↔ Contained X length mem := by
  rw [packetBounded_iff, Contained]
  by_cases h4 : mem 0 >>> 4 = 4
  · rw [if_pos h4]
    exact bounded_ip4_iff h4 hLength hMtu
  rw [if_neg h4]
  by_cases h6 : mem 0 >>> 4 = 6
  · rw [if_pos h6]
    exact bounded_ip6_iff h6 hLength hMtu
  · rw [if_neg h6]
    refine iff_of_true (fun turns => ?_) trivial
    rw [handleIp, bounded_bind, Reader.within_byte, Reader.value_byte, if_neg h4, if_neg h6]
    exact ⟨by omega, bounded_dropped turns⟩

/-- A DNS query without data. -/
theorem packet_bounds_iff_udp :
    PacketBounded idleContext 28 (packetMemory (ip4Bytes 0 0)) ↔
      Contained idleContext 28 (packetMemory (ip4Bytes 0 0)) :=
  packet_bounds_iff (by decide) (by decide)

/-- A packet of 24 bytes with a header length of 60: the ports are read behind it. -/
theorem packet_unbounded : ∃ (length : Nat) (mem : Memory), 1 ≤ length ∧ length ≤ getMtu ∧
    ¬ PacketBounded idleContext length mem := by
  let bytes : List UInt8 := [0x4F, 0, 0, 24, 0, 0, 0, 0, 64, 17] ++ List.replicate 14 0
  refine ⟨24, packetMemory bytes, by decide, by decide, fun hBounded => ?_⟩
  have hVersion : packetMemory bytes 0 >>> 4 = 4 := by decide
  have hInside := (bounded_ip4_iff hVersion (by decide) (by decide)).mp (packetBounded_iff.mp hBounded)
    (by decide) (by decide) (by decide)
  exact absurd (hInside.1 (by decide)) (by decide)

end Tun2Http
