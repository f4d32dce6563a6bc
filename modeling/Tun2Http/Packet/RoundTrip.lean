import Tun2Http.Native.Ip
import Tun2Http.Native.Packet
import Tun2Http.Native.TcpRun

/-! The packets that go to the tun, read by the code that reads packets from the
tun: `handle_ip`, the headers and the option loop. -/
namespace Tun2Http

open Machine

variable {mem : Memory} {offset : Nat}

/-! Fields. -/

theorem value_be32_of_holds {value : U32} (h : Holds mem offset (field32 value)) :
    (be32 offset).value mem = value := by
  have hBound := value.isLt
  obtain ⟨hHigh, hLow⟩ := holds_append.mp h
  rw [length_field16] at hLow
  rw [be32, Reader.value_bind, Reader.value_bind, Reader.value_pure,
    value_be16_of_holds hHigh (by omega), value_be16_of_holds hLow (by omega)]
  apply BitVec.eq_of_toNat_eq
  rw [BitVec.toNat_ofNat]
  omega

/-- A port or a window. -/
theorem value_port_of_holds {value : U16} (h : Holds mem offset (field16 value.toNat)) :
    BitVec.ofNat 16 ((be16 offset).value mem) = value := by
  rw [value_be16_of_holds h value.isLt]
  exact BitVec.ofNat_toNat ..

/-- A field in host order is read with its bytes exchanged. -/
theorem value_be16_of_hostField16 {value : U16} (h : Holds mem offset (hostField16 value)) :
    (be16 offset).value mem = 256 * (value.toNat % 256) + value.toNat / 256 := by
  have hBound := value.isLt
  obtain ⟨hLow, hHigh, -⟩ := h
  rw [value_be16, hLow, hHigh]
  simp only [Nat.toUInt8_eq, UInt8.toNat_ofNat']
  omega

/-! The IP header. -/

section IpHeader

variable {version length : Nat} {protocol : UInt8} {saddr daddr : List UInt8}

/-- The addresses of a packet. -/
theorem readAddresses_ipHeader (h : Addressed version saddr daddr)
    (hHeader : Holds mem 0 (ipHeader version protocol saddr daddr length)) :
    (readAddresses version).value mem = (saddr, daddr) := by
  obtain ⟨hSaddr, hDaddr⟩ := h
  unfold addressLength at hSaddr hDaddr
  unfold ipHeader at hHeader
  unfold readAddresses
  dsimp only at hHeader
  rw [Reader.value_ite]
  split_ifs at hSaddr hDaddr hHeader ⊢
  · simp only [ip4Header, holds_append, List.length_append, length_field16, length_hostField16,
      List.length_cons, List.length_nil, hSaddr] at hHeader
    have hFirst := value_readBytes_of_holds hHeader.1.2
    have hSecond := value_readBytes_of_holds hHeader.2
    rw [hSaddr] at hFirst
    rw [hDaddr] at hSecond
    simp only [Reader.value_bind, Reader.value_pure]
    exact Prod.ext hFirst hSecond
  · simp only [ip6Header, holds_append, List.length_append, length_field16,
      List.length_cons, List.length_nil, hSaddr] at hHeader
    have hFirst := value_readBytes_of_holds hHeader.1.2
    have hSecond := value_readBytes_of_holds hHeader.2
    rw [hSaddr] at hFirst
    rw [hDaddr] at hSecond
    simp only [Reader.value_bind, Reader.value_pure]
    exact Prod.ext hFirst hSecond

/-- `handle_ip` gets through the header. -/
theorem handleIp_ipHeader (hVersion : version = 4 ∨ version = 6) (hUpper : isUpperLayer protocol)
    (hLength : ipHeaderLength version + length < 2 ^ 16)
    (hHeader : Holds mem 0 (ipHeader version protocol saddr daddr length)) (X : IpContext)
    (turns : Nat) :
    (handleIp X turns (ipHeaderLength version + length)).value mem =
      (handlePayload X (ipHeaderLength version + length) version protocol
        (ipHeaderLength version)).value mem := by
  rcases hVersion with rfl | rfl
  · simp only [ipHeader, if_true, ip4Header, holds_append, holds_cons] at hHeader
    obtain ⟨⟨⟨⟨⟨⟨hFirst, -⟩, hTotLen⟩, -, -, hHigh, hLow, -, hProtocol, -⟩, -⟩, -⟩, -⟩ := hHeader
    have hTotal : (be16 2).value mem = ipHeaderLength 4 + length := value_be16_of_holds hTotLen hLength
    have hHigh : mem 6 = 0 := hHigh
    have hLow : mem 7 = 0 := hLow
    have hProtocol : mem 9 = protocol := hProtocol
    have hFragment : (le16 6).value mem &&& ipMf = 0 := by
      rw [value_le16, hHigh, hLow]
      decide
    have hLong : ¬ ipHeaderLength 4 + length < 20 := by
      simp [ipHeaderLength]
    have hFour : (0x45 : UInt8) >>> 4 = 4 := by decide
    have hWords : 20 + optLen ((0x45 : UInt8) &&& 0x0F) = ipHeaderLength 4 := by decide
    rw [handleIp, Reader.value_bind, Reader.value_byte, hFirst, if_pos hFour, if_neg hLong,
      Reader.value_bind, Reader.value_byte, hProtocol, Reader.value_bind, Reader.value_ite,
      if_neg (not_not.mpr hFragment), Reader.value_bind, hTotal, Reader.value_ite,
      if_neg (not_not.mpr rfl), hWords]
  · have hSix : ¬ (6 : Nat) = 4 := by decide
    simp only [ipHeader, hSix, if_false, ip6Header, holds_append, holds_cons] at hHeader
    obtain ⟨⟨⟨⟨⟨hFirst, -⟩, -⟩, hNext, -⟩, -⟩, -⟩ := hHeader
    have hNext : mem 6 = protocol := hNext
    have hLong : ¬ ipHeaderLength 6 + length < 40 := by
      simp [ipHeaderLength]
    have hNotFour : ¬ (0x60 : UInt8) >>> 4 = 4 := by decide
    have hVersionSix : (0x60 : UInt8) >>> 4 = 6 := by decide
    have hFound : (ip6Payload turns).value mem = some (protocol, 40) := by
      rw [ip6Payload, Reader.value_bind, Reader.value_byte, hNext, if_pos hUpper, Reader.value_pure]
    rw [handleIp, Reader.value_bind, Reader.value_byte, hFirst, if_neg hNotFour, if_pos hVersionSix,
      if_neg hLong, Reader.value_bind, hFound]
    rfl

end IpHeader

/-! The TCP header. -/

/-- The header that is read is the one that was built. -/
def TcpPacket.hdr (packet : TcpPacket) : TcpHdr where
  source := packet.source
  dest := packet.dest
  seq := packet.seq
  ackSeq := packet.ackSeq
  window := packet.window
  syn := packet.syn
  ack := packet.ack
  psh := false
  fin := packet.fin
  rst := packet.rst
  urg := false

/-- The flags are told apart. -/
theorem TcpPacket.flags_and (packet : TcpPacket) :
    decide (packet.flags &&& 0x02 ≠ 0) = packet.syn ∧ decide (packet.flags &&& 0x10 ≠ 0) = packet.ack ∧
      decide (packet.flags &&& 0x08 ≠ 0) = false ∧ decide (packet.flags &&& 0x01 ≠ 0) = packet.fin ∧
      decide (packet.flags &&& 0x04 ≠ 0) = packet.rst ∧ decide (packet.flags &&& 0x20 ≠ 0) = false := by
  unfold TcpPacket.flags
  cases packet.syn <;> cases packet.ack <;> cases packet.fin <;> cases packet.rst <;> decide

theorem readTcpHdr_header {packet : TcpPacket} {check : U16}
    (h : Holds mem offset (packet.header check)) : (readTcpHdr offset).value mem = packet.hdr := by
  simp only [TcpPacket.header, holds_append, holds_cons] at h
  obtain ⟨⟨⟨⟨⟨⟨⟨hSource, hDest⟩, hSeq⟩, hAckSeq⟩, -, hFlags, -⟩, hWindow⟩, -⟩, -⟩ := h
  have hFlags : mem (offset + 13) = packet.flags := hFlags
  obtain ⟨hSyn, hAck, hPsh, hFin, hRst, hUrg⟩ := packet.flags_and
  have hDest : BitVec.ofNat 16 ((be16 (offset + 2)).value mem) = packet.dest :=
    value_port_of_holds hDest
  have hSeq : (be32 (offset + 4)).value mem = packet.seq := value_be32_of_holds hSeq
  have hAckSeq : (be32 (offset + 8)).value mem = packet.ackSeq := value_be32_of_holds hAckSeq
  have hWindow : BitVec.ofNat 16 ((be16 (offset + 14)).value mem) = packet.window :=
    value_port_of_holds hWindow
  simp only [readTcpHdr, Reader.value_bind, Reader.value_pure, Reader.value_byte, hFlags]
  rw [value_port_of_holds hSource, hDest, hSeq, hAckSeq, hWindow, hSyn, hAck, hPsh, hFin, hRst, hUrg]
  rfl

theorem dataOffset_header {packet : TcpPacket} {check : U16}
    (h : Holds mem offset (packet.header check)) : mem (offset + 12) = packet.dataOffset := by
  simp only [TcpPacket.header, holds_append, holds_cons] at h
  obtain ⟨⟨⟨⟨-, hDataOffset, -⟩, -⟩, -⟩, -⟩ := h
  exact hDataOffset

/-- The packet in its parts. -/
theorem TcpPacket.holds_bytes {packet : TcpPacket}
    (hAddressed : Addressed packet.version packet.saddr packet.daddr)
    (h : Holds mem 0 packet.bytes) :
    Holds mem 0 (ipHeader packet.version ipprotoTcp packet.saddr packet.daddr packet.upperLength) ∧
      Holds mem (ipHeaderLength packet.version) (packet.header (~~~ packet.csum)) ∧
      Holds mem (ipHeaderLength packet.version + 20) packet.options ∧
      Holds mem (ipHeaderLength packet.version + 20 + packet.options.length) packet.payload := by
  rw [TcpPacket.bytes, holds_append, holds_append, holds_append, length_ipHeader hAddressed,
    Nat.zero_add, List.length_append, TcpPacket.length_header, ← Nat.add_assoc] at h
  exact ⟨h.1, h.2.1.1, h.2.1.2, h.2.2⟩

theorem UdpPacket.holds_bytes {packet : UdpPacket}
    (hAddressed : Addressed packet.version packet.saddr packet.daddr)
    (h : Holds mem 0 packet.bytes) :
    Holds mem 0 (ipHeader packet.version ipprotoUdp packet.saddr packet.daddr
        (8 + packet.data.length)) ∧
      Holds mem (ipHeaderLength packet.version) (packet.header (~~~ packet.csum)) ∧
      Holds mem (ipHeaderLength packet.version + 8) packet.data := by
  rw [UdpPacket.bytes, holds_append, holds_append, length_ipHeader hAddressed, Nat.zero_add,
    UdpPacket.length_header] at h
  exact h

/-! The turns of the option loop. -/

section Options

variable {turns offset : Nat} {optlen : Int} {mss : U16} {ws : BitVec 8}

theorem decodeOptions_done (h : optlen ≤ 0) :
    (decodeOptions (turns + 1) offset optlen mss ws).value mem = some (mss, ws) := by
  rw [decodeOptions, if_neg (not_lt.mpr h), Reader.value_pure]

theorem decodeOptions_end (hSome : 0 < optlen) (hKind : mem offset = 0) :
    (decodeOptions (turns + 1) offset optlen mss ws).value mem = some (mss, ws) := by
  rw [decodeOptions, if_pos hSome, Reader.value_bind, Reader.value_bind, Reader.value_ite,
    Reader.value_byte, if_pos hKind, Reader.value_pure]

/-- An option that is no padding is passed over by its length. -/
theorem decodeOptions_option (hSome : 0 < optlen) (hEnd : mem offset ≠ 0) (hNop : mem offset ≠ 1) :
    (decodeOptions (turns + 1) offset optlen mss ws).value mem =
      (decodeOptions turns (offset + (mem (offset + 1)).toNat) (optlen - (mem (offset + 1)).toNat)
        ((optionMss (mem offset) (mem (offset + 1)) offset mss).value mem)
        ((optionScale (mem offset) (mem (offset + 1)) offset ws).value mem)).value mem := by
  rw [decodeOptions, if_pos hSome, Reader.value_bind, Reader.value_bind, Reader.value_ite,
    Reader.value_byte, Reader.value_byte, if_neg hEnd, Reader.value_bind, Reader.value_bind,
    Reader.value_ite, if_neg hNop]

theorem decodeOptions_mssOption (hSome : 0 < optlen) (hKind : mem offset = 2)
    (hLen : mem (offset + 1) = 4) :
    (decodeOptions (turns + 1) offset optlen mss ws).value mem =
      (decodeOptions turns (offset + 4) (optlen - 4)
        (BitVec.ofNat 16 ((be16 (offset + 2)).value mem)) ws).value mem := by
  rw [decodeOptions_option hSome (by rw [hKind]; decide) (by rw [hKind]; decide), hKind, hLen]
  rfl

theorem decodeOptions_scaleOption (hSome : 0 < optlen) (hKind : mem offset = 3)
    (hLen : mem (offset + 1) = 3) :
    (decodeOptions (turns + 1) offset optlen mss ws).value mem =
      (decodeOptions turns (offset + 3) (optlen - 3) mss (mem (offset + 2)).toBitVec).value mem := by
  rw [decodeOptions_option hSome (by rw [hKind]; decide) (by rw [hKind]; decide), hKind, hLen]
  rfl

end Options

/-! A packet of a session. -/

/-- What the code that reads packets from the tun finds in a packet of the
session: itself, with the two ends exchanged. -/
structure Decodes (cur : TcpSession) (payload : List UInt8) (syn ack fin rst : Bool) (length : Nat)
    (mem : Memory) : Prop where
  handled : ∀ X turns, X.sessions < X.maxsessions → (handleIp X turns length).value mem =
    .handler cur.version ipprotoTcp (ipHeaderLength cur.version)
  addresses : (readAddresses cur.version).value mem =
    (addressOf cur.version cur.daddr, addressOf cur.version cur.saddr)
  ports : let hdr := (readTcpHdr (ipHeaderLength cur.version)).value mem
    hdr.source = cur.dest ∧ hdr.dest = cur.source
  seq : ((readTcpHdr (ipHeaderLength cur.version)).value mem).seq = cur.localSeq
  ackSeq : ack = true → ((readTcpHdr (ipHeaderLength cur.version)).value mem).ackSeq = cur.remoteSeq
  flags : let hdr := (readTcpHdr (ipHeaderLength cur.version)).value mem
    hdr.syn = syn ∧ hdr.ack = ack ∧ hdr.psh = false ∧ hdr.fin = fin ∧ hdr.rst = rst ∧ hdr.urg = false
  window : ((readTcpHdr (ipHeaderLength cur.version)).value mem).window.toNat =
    (cur.recvWindow >>> cur.recvScale.toNat).toNat
  payload : ∀ X turns, ∃ span,
    (handleTcp X turns length cur.version (ipHeaderLength cur.version)).value mem = some span ∧
      (readBytes span.data span.datalen).value mem = payload
  options : syn = true → ∀ turns, 3 ≤ turns → (decodeOptions turns (ipHeaderLength cur.version + 20)
    (optLen (mem (ipHeaderLength cur.version + 12) >>> 4)) (getDefaultMss cur.version) 0).value mem =
      some (getDefaultMss cur.version, cur.recvScale)

/-- The packet is read as it was built, whatever lies behind it. -/
def RoundTrips (cur : TcpSession) (payload : List UInt8) (syn ack fin rst : Bool) : Prop :=
  let bytes := (buildTcp cur payload syn ack fin rst).bytes
  ∀ mem, Holds mem 0 bytes → Decodes cur payload syn ack fin rst bytes.length mem

section Session

variable {cur : TcpSession} {payload : List UInt8} {syn ack fin rst : Bool}

theorem length_options :
    (buildTcp cur payload syn ack fin rst).options.length = if syn then 8 else 0 := by
  cases syn <;> simp [buildTcp, synOptions]

/-- The length of the options is read as it was written. -/
theorem optLen_dataOffset : optLen ((buildTcp cur payload syn ack fin rst).dataOffset >>> 4) =
    (buildTcp cur payload syn ack fin rst).options.length := by
  rw [TcpPacket.dataOffset, length_options]
  cases syn <;> decide

/-- The option loop on the options of a SYN: the MSS is read with its bytes exchanged. -/
theorem decodeOptions_synOptions {turns : Nat} (hTurns : 3 ≤ turns) (mss : U16) (ws : BitVec 8)
    (h : Holds mem offset (synOptions cur)) :
    (decodeOptions turns offset 8 mss ws).value mem = some (BitVec.ofNat 16
      (256 * ((getDefaultMss cur.version).toNat % 256) + (getDefaultMss cur.version).toNat / 256),
      cur.recvScale) := by
  obtain ⟨turns, rfl⟩ := Nat.exists_eq_add_of_le' hTurns
  simp only [synOptions, holds_cons] at h
  obtain ⟨hMss, hMssLen, hLow, hHigh, hScale, hScaleLen, hShift, hEnd, -⟩ := h
  have hFirst : (be16 (offset + 2)).value mem = 256 * ((getDefaultMss cur.version).toNat % 256) +
      (getDefaultMss cur.version).toNat / 256 := value_be16_of_hostField16 ⟨hLow, hHigh, trivial⟩
  have hShift : (mem (offset + 4 + 2)).toBitVec = cur.recvScale := by
    rw [show mem (offset + 4 + 2) = _ from hShift]
    simp
  rw [decodeOptions_mssOption (by decide) hMss hMssLen, hFirst,
    decodeOptions_scaleOption (by decide) hScale hScaleLen, hShift, decodeOptions_end (by decide) hEnd]

/-- Without urgent data the handler takes what is behind the options. -/
theorem value_handleTcp {X : IpContext} {turns length version payload : Nat}
    (hUrg : ((readTcpHdr payload).value mem).urg = false) :
    (handleTcp X turns length version payload).value mem =
      some ⟨payload + 20 + optLen (mem (payload + 12) >>> 4),
        remaining length (payload + 20 + optLen (mem (payload + 12) >>> 4)) % 2 ^ 16⟩ := by
  simp only [Tun2Http.handleTcp, Reader.value_bind, Reader.value_ite, Reader.value_pure, hUrg,
    Bool.false_eq_true, if_false, Reader.value_byte, ite_self]

/-- There is room for a TCP header, and for a session. -/
theorem admitted_tcp {X : IpContext} {version length offset : Nat}
    (hRoom : X.sessions < X.maxsessions) (hMtu : offset + length ≤ 10000) (hHeader : 20 ≤ length) :
    Admitted X (offset + length) version mem ipprotoTcp offset := by
  have hIcmp : ¬ (ipprotoTcp = ipprotoIcmp ∨ ipprotoTcp = ipprotoIcmpv6) := by decide
  have hUdp : ipprotoTcp ≠ ipprotoUdp := by decide
  have hLeft := remaining_of_le (Nat.le_add_right offset length) hMtu
  rw [Admitted, if_neg hIcmp, if_neg hUdp, if_pos rfl, hLeft]
  exact ⟨by omega, Or.inl hRoom⟩

/-- The exchanged bytes give another MSS. -/
theorem exchanged_mss (version : Nat) :
    BitVec.ofNat 16 (256 * ((getDefaultMss version).toNat % 256) + (getDefaultMss version).toNat / 256) ≠
      getDefaultMss version := by
  unfold getDefaultMss
  split_ifs <;> decide

/-- A packet up to the MTU is read as it was built, but for a window that is cut
off and the MSS of a SYN. -/
theorem decodes_iff (hVersion : cur.version = 4 ∨ cur.version = 6)
    (hAddressed : Addressed cur.version (addressOf cur.version cur.daddr)
      (addressOf cur.version cur.saddr))
    (hFits : (buildTcp cur payload syn ack fin rst).bytes.length ≤ getMtu)
    (h : Holds mem 0 (buildTcp cur payload syn ack fin rst).bytes) :
    Decodes cur payload syn ack fin rst (buildTcp cur payload syn ack fin rst).bytes.length mem ↔
      syn = false ∧ (cur.recvWindow >>> cur.recvScale.toNat).toNat < 2 ^ 16 := by
  obtain ⟨hIp, hHeader, hOptions, hPayload⟩ := TcpPacket.holds_bytes hAddressed h
  set packet := buildTcp cur payload syn ack fin rst with hPacket
  have hSame : packet.version = cur.version := rfl
  rw [hSame] at hIp hHeader hOptions hPayload
  have hTotal : packet.bytes.length = ipHeaderLength cur.version + packet.upperLength :=
    TcpPacket.length_bytes hAddressed
  have hUpper : packet.upperLength = 20 + packet.options.length + payload.length := rfl
  have hMtu : ipHeaderLength cur.version + packet.upperLength ≤ 10000 := hTotal ▸ hFits
  have hHdr := readTcpHdr_header hHeader
  have hOptLen : optLen (mem (ipHeaderLength cur.version + 12) >>> 4) = packet.options.length := by
    rw [dataOffset_header hHeader]
    exact optLen_dataOffset
  have hWindow : packet.hdr.window.toNat =
      (cur.recvWindow >>> cur.recvScale.toNat).toNat % 2 ^ 16 := BitVec.toNat_setWidth ..
  constructor
  · intro hDecodes
    constructor
    · cases hSyn : syn with
      | false => rfl
      | true =>
          subst hSyn
          have hEight : packet.options.length = 8 := length_options
          have hRead := hDecodes.options rfl 3 (Nat.le_refl 3)
          rw [hOptLen, hEight, Nat.cast_ofNat, decodeOptions_synOptions (Nat.le_refl 3) _ _ hOptions,
            Option.some.injEq, Prod.mk.injEq] at hRead
          exact absurd hRead.1 (exchanged_mss cur.version)
    · have hRead := hDecodes.window
      rw [hHdr, hWindow] at hRead
      omega
  · rintro ⟨rfl, hSmall⟩
    have hOffset : ipHeaderLength cur.version ≤ packet.bytes.length := by omega
    refine ⟨fun X turns hRoom => ?_, readAddresses_ipHeader hAddressed hIp, ?_, ?_, fun hAck => ?_, ?_,
      ?_, fun X turns => ?_, fun hSyn => by cases hSyn⟩
    · rw [hTotal, handleIp_ipHeader hVersion (Or.inl rfl) (by omega) hIp, value_handlePayload]
      exact if_pos (admitted_tcp hRoom (by omega) (by omega))
    · rw [hHdr]
      exact ⟨rfl, rfl⟩
    · rw [hHdr]
      rfl
    · rw [hHdr]
      exact if_pos hAck
    · rw [hHdr]
      exact ⟨rfl, rfl, rfl, rfl, rfl, rfl⟩
    · rw [hHdr, hWindow, Nat.mod_eq_of_lt hSmall]
    · refine ⟨_, value_handleTcp (by rw [hHdr]; rfl), ?_⟩
      have hLeft : remaining packet.bytes.length
          (ipHeaderLength cur.version + 20 + packet.options.length) = payload.length := by
        rw [remaining_of_le (by omega) hFits]
        omega
      dsimp only
      rw [hOptLen, hLeft, Nat.mod_eq_of_lt (by omega)]
      exact value_readBytes_of_holds hPayload

/-- A packet up to the MTU is read back as it was built just when it is no SYN
and its window fits the field. -/
theorem round_trip_iff (hVersion : cur.version = 4 ∨ cur.version = 6)
    (hSaddr : addressLength cur.version ≤ cur.saddr.length)
    (hDaddr : addressLength cur.version ≤ cur.daddr.length)
    (hFits : (buildTcp cur payload syn ack fin rst).bytes.length ≤ getMtu) :
    RoundTrips cur payload syn ack fin rst ↔
      syn = false ∧ (cur.recvWindow >>> cur.recvScale.toNat).toNat < 2 ^ 16 := by
  have hAddressed := addressed_addressOf hSaddr hDaddr
  constructor
  · intro hTrip
    have hHolds := holds_inFrontOf (buildTcp cur payload syn ack fin rst).bytes fun _ => 0
    exact (decodes_iff hVersion hAddressed hFits hHolds).mp (hTrip _ hHolds)
  · intro hRight mem hHolds
    exact (decodes_iff hVersion hAddressed hFits hHolds).mpr hRight

end Session

/-- Two bytes of a session on IPv4. -/
theorem round_trip_hi :
    RoundTrips (synSession .willing clientInfo (clientSyn 80) .empty) [104, 105] false true false
      false :=
  (round_trip_iff (Or.inl rfl) (by decide) (by decide) (by decide)).mpr ⟨rfl, by decide⟩

/-- The SYN-ACK of the session: the MSS of 9960 bytes is read as 59430. -/
theorem synAck_misread :
    let cur := synSession .willing clientInfo (clientSyn 80) .empty
    (decodeOptions 3 40 8 (getDefaultMss 4) 0).value
        (packetMemory (buildTcp cur [] true true false false).bytes) = some (59430, 0) ∧
      getDefaultMss 4 = 9960 ∧ ¬ RoundTrips cur [] true true false false := by
  intro cur
  have hAddressed : Addressed cur.version (addressOf cur.version cur.daddr)
      (addressOf cur.version cur.saddr) := addressed_addressOf (by decide) (by decide)
  refine ⟨by decide, by decide, fun hTrip => ?_⟩
  have hHolds := holds_inFrontOf (buildTcp cur [] true true false false).bytes fun _ => 0
  have hBoth := (decodes_iff (Or.inl rfl) hAddressed (by decide) hHolds).mp (hTrip _ hHolds)
  exact absurd hBoth.1 (by decide)

end Tun2Http
