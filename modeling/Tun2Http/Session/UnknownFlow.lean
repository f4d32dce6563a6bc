import Tun2Http.Tcp.SegmentSize
import Tun2Http.Native.Session

/-! Resets for segments of no session: which segments `handle_tcp` answers as the
protocol asks. -/
namespace Tun2Http

/-- `packet` is the reset that the segment asks for. -/
structure AnswersUnknown (version : Nat) (addresses : List UInt8 × List UInt8) (hdr : TcpHdr)
    (datalen : Nat) (packet : TcpPacket) : Prop where
  rst : packet.rst = true
  version : packet.version = version
  addresses : (packet.daddr, packet.saddr) = addresses
  ports : packet.source = hdr.dest ∧ packet.dest = hdr.source
  numbers : if hdr.ack then packet.seq = hdr.ackSeq
    else packet.seq = 0 ∧ packet.ack = true ∧
      packet.ackSeq = hdr.seq + BitVec.ofNat 32 datalen + if hdr.fin then 1 else 0

/-- A reset is not answered, any other segment of no session by one reset; and
the list of the sessions stays. -/
structure ResetsUnknown (L : EventLoop) (K : Kernel) (pkt : Packet) (version payload datalen : Nat) :
    Prop where
  list : L.handleTcp K pkt version payload = L
  writes : if ((readTcpHdr payload).value pkt.mem).rst then L.unknownTcp K pkt version payload = []
    else ∃ packet whole, L.unknownTcp K pkt version payload = [.tun packet whole] ∧
      AnswersUnknown version ((readAddresses version).value pkt.mem)
        ((readTcpHdr payload).value pkt.mem) datalen packet

/-- What the code sends: always version 4, with the segment's acknowledgement number. -/
def unknownReset (addresses : List UInt8 × List UInt8) (hdr : TcpHdr) : TcpPacket where
  version := 4
  saddr := addresses.2.take 4
  daddr := addresses.1.take 4
  source := hdr.dest
  dest := hdr.source
  seq := hdr.ackSeq
  ackSeq := 0
  window := 0
  syn := false
  ack := false
  fin := false
  rst := true
  options := []
  payload := []

theorem log_resetUnknown (K : Kernel) (addresses : List UInt8 × List UInt8) (hdr : TcpHdr)
    (datalen : Nat) : (resetUnknown K addresses hdr datalen).log =
      [.tun (unknownReset addresses hdr) (K.tunWrite 0)] := by
  have hState : (rstSession addresses hdr datalen).state ≠ .listen := fun h => by cases h
  rw [resetUnknown, writeRst_of_ne_listen K _ hState]
  split_ifs <;> rfl

section Unknown

variable {L : EventLoop} {K : Kernel} {pkt : Packet} {version payload : Nat} {span : Span}

/-- A segment of no session that is no SYN leaves the sessions alone. -/
theorem handleTcp_unknown
    (hSpan : (handleTcp L.context pkt.turns pkt.length version payload).value pkt.mem = some span)
    (hNone : L.search (pkt.key ipprotoTcp version payload) = none)
    (hSyn : ((readTcpHdr payload).value pkt.mem).syn = false) :
    L.handleTcp K pkt version payload = L := by
  simp only [EventLoop.handleTcp, hSpan, hNone, hSyn, Bool.false_eq_true, if_false]

theorem unknownTcp_eq
    (hSpan : (handleTcp L.context pkt.turns pkt.length version payload).value pkt.mem = some span)
    (hNone : L.search (pkt.key ipprotoTcp version payload) = none)
    (hSyn : ((readTcpHdr payload).value pkt.mem).syn = false) :
    L.unknownTcp K pkt version payload =
      [.tun (unknownReset ((readAddresses version).value pkt.mem)
        ((readTcpHdr payload).value pkt.mem)) (K.tunWrite 0)] := by
  simp only [EventLoop.unknownTcp, hSpan, hNone, hSyn, Bool.false_eq_true, if_false]
  exact log_resetUnknown K _ _ _

/-- The reset that is sent answers segments of version 4 that acknowledge. -/
theorem answers_unknownReset_iff {addresses : List UInt8 × List UInt8} {hdr : TcpHdr} {datalen : Nat}
    (hAddresses : version = 4 → addresses.1.length = 4 ∧ addresses.2.length = 4) :
    AnswersUnknown version addresses hdr datalen (unknownReset addresses hdr) ↔
      version = 4 ∧ hdr.ack = true := by
  constructor
  · intro h
    refine ⟨h.version.symm, ?_⟩
    by_contra hAck
    have hNumbers := h.numbers
    rw [if_neg hAck] at hNumbers
    exact absurd hNumbers.2.1 (by simp [unknownReset])
  · rintro ⟨rfl, hAck⟩
    obtain ⟨hSaddr, hDaddr⟩ := hAddresses rfl
    refine ⟨rfl, rfl, ?_, ⟨rfl, rfl⟩, ?_⟩
    · simp only [unknownReset]
      rw [List.take_of_length_le hSaddr.le, List.take_of_length_le hDaddr.le]
    · rw [if_pos hAck]
      rfl

/-- A segment of no session without URG and SYN is answered as the protocol asks
just when it is of version 4, acknowledges, and is no reset itself. -/
theorem resets_unknown_iff
    (hSpan : (handleTcp L.context pkt.turns pkt.length version payload).value pkt.mem = some span)
    (hNone : L.search (pkt.key ipprotoTcp version payload) = none)
    (hSyn : ((readTcpHdr payload).value pkt.mem).syn = false) :
    ResetsUnknown L K pkt version payload span.datalen ↔
      version = 4 ∧ ((readTcpHdr payload).value pkt.mem).rst = false ∧
        ((readTcpHdr payload).value pkt.mem).ack = true := by
  have hWrites := unknownTcp_eq (K := K) hSpan hNone hSyn
  have hAddresses : version = 4 → ((readAddresses version).value pkt.mem).1.length = 4 ∧
      ((readAddresses version).value pkt.mem).2.length = 4 := by
    intro hVersion
    have hAddressed := addressed_readAddresses version pkt.mem
    rw [hVersion] at hAddressed ⊢
    exact ⟨hAddressed.saddr, hAddressed.daddr⟩
  have hAnswers : AnswersUnknown version ((readAddresses version).value pkt.mem)
      ((readTcpHdr payload).value pkt.mem) span.datalen (unknownReset
        ((readAddresses version).value pkt.mem) ((readTcpHdr payload).value pkt.mem)) ↔
      version = 4 ∧ ((readTcpHdr payload).value pkt.mem).ack = true :=
    answers_unknownReset_iff hAddresses
  constructor
  · intro hResets
    have hRst : ((readTcpHdr payload).value pkt.mem).rst = false := by
      by_contra hRst
      have hNothing := hResets.writes
      rw [if_pos (by simpa using hRst), hWrites] at hNothing
      cases hNothing
    have hOne := hResets.writes
    rw [if_neg (by simp [hRst]), hWrites] at hOne
    obtain ⟨packet, whole, hSame, hPacket⟩ := hOne
    simp only [List.cons.injEq, Io.tun.injEq, and_true] at hSame
    obtain ⟨rfl, -⟩ := hSame
    obtain ⟨hVersion, hAck⟩ := hAnswers.mp hPacket
    exact ⟨hVersion, hRst, hAck⟩
  · rintro ⟨hVersion, hRst, hAck⟩
    refine ⟨handleTcp_unknown hSpan hNone hSyn, ?_⟩
    rw [if_neg (by simp [hRst])]
    exact ⟨_, _, hWrites, hAnswers.mpr ⟨hVersion, hAck⟩⟩

end Unknown

/-- A segment of the client without a SYN, that acknowledges 7 or nothing. -/
def straySegment (version : Nat) (ack rst : Bool) : TcpPacket :=
  { mssSyn version 0 with ackSeq := 7, syn := false, ack := ack, rst := rst, options := [] }

/-- It comes from the tun. -/
def strayPacket (version : Nat) (ack rst : Bool) : Packet where
  mem := packetMemory (straySegment version ack rst).bytes
  length := if version = 4 then 40 else 60
  turns := 2
  uid := 10001

/-- On version 4 an acknowledgement is answered. -/
theorem resets_unknown_iff_stray :
    ResetsUnknown .init .willing (strayPacket 4 true false) 4 20 0 ↔
      4 = 4 ∧ ((readTcpHdr 20).value (strayPacket 4 true false).mem).rst = false ∧
        ((readTcpHdr 20).value (strayPacket 4 true false).mem).ack = true := by
  have hSpan : (handleTcp EventLoop.init.context (strayPacket 4 true false).turns
      (strayPacket 4 true false).length 4 20).value (strayPacket 4 true false).mem =
        some ⟨40, 0⟩ := by decide
  exact resets_unknown_iff hSpan rfl (by decide)

/-- It is not on version 6, nor is a segment without ACK, and a reset is. -/
theorem unknown_not_reset :
    ¬ ResetsUnknown .init .willing (strayPacket 6 true false) 6 40 0 ∧
      ¬ ResetsUnknown .init .willing (strayPacket 4 false false) 4 20 0 ∧
      ¬ ResetsUnknown .init .willing (strayPacket 4 true true) 4 20 0 := by
  have hRuns : ∀ version ack, (version, ack) ∈ [(4, false), (6, true)] →
      EventLoop.init.unknownTcp .willing (strayPacket version ack false) version
          (ipHeaderLength version) =
        [.tun (unknownReset ((readAddresses version).value (strayPacket version ack false).mem)
          ((readTcpHdr (ipHeaderLength version)).value (strayPacket version ack false).mem)) true] := by
    intro version ack hMem
    simp only [List.mem_cons, Prod.mk.injEq, List.not_mem_nil, or_false] at hMem
    obtain ⟨rfl, rfl⟩ | ⟨rfl, rfl⟩ := hMem <;> decide
  refine ⟨fun h => ?_, fun h => ?_, fun h => ?_⟩
  · obtain ⟨packet, whole, hWrites, hAnswers⟩ := h.writes
    cases (hRuns 6 true (by simp)).symm.trans hWrites
    exact absurd hAnswers.version (by decide)
  · obtain ⟨packet, whole, hWrites, hAnswers⟩ := h.writes
    cases (hRuns 4 false (by simp)).symm.trans hWrites
    exact absurd hAnswers.numbers.2.1 (by decide)
  · have hNothing := h.writes
    rw [if_pos (by decide)] at hNothing
    exact absurd hNothing (by decide)

end Tun2Http
