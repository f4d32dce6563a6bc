import Tun2Http.Packet.RoundTrip
import Tun2Http.Session.Idle
import Tun2Http.Session.SetUp

/-! The two ends of a TCP session. Whatever the loop does, a session writes only to the
ends that its SYN named, with the server's address in front, and is shown only packets
between them. -/
namespace Tun2Http

open Machine Relation

/-- The other direction. -/
def Key.reply (key : Key) : Key :=
  ⟨key.protocol, key.version, key.daddr, key.saddr, key.dest, key.source⟩

/-- The key that a segment has on its way. -/
def TcpPacket.key (packet : TcpPacket) : Key :=
  ⟨ipprotoTcp, packet.version, packet.saddr, packet.daddr, packet.source.toNat, packet.dest.toNat⟩

/-- The search of `handle_tcp` would look for this key. -/
theorem key_of_bytes {packet : TcpPacket} {pkt : Packet}
    (h : Addressed packet.version packet.saddr packet.daddr) (hBytes : Holds pkt.mem 0 packet.bytes) :
    pkt.key ipprotoTcp packet.version (ipHeaderLength packet.version) = packet.key := by
  obtain ⟨hIp, hHeader, -, -⟩ := TcpPacket.holds_bytes h hBytes
  simp only [TcpPacket.header, holds_append] at hHeader
  obtain ⟨⟨⟨⟨⟨⟨⟨hSource, hDest⟩, -⟩, -⟩, -⟩, -⟩, -⟩, -⟩ := hHeader
  have hPort : (be16 (ipHeaderLength packet.version + 2)).value pkt.mem = packet.dest.toNat :=
    value_be16_of_holds hDest packet.dest.isLt
  unfold Packet.key TcpPacket.key
  dsimp only
  rw [readAddresses_ipHeader h hIp, value_be16_of_holds hSource packet.source.isLt, hPort]

/-! One session. -/

/-- A segment to the tun is from the session's server, and to its client. -/
def Io.answers (t : TcpSession) : Io → Prop
  | .tun packet _ => ∃ u payload syn ack fin rst, TcpSession.endpoints u = t.endpoints ∧
      packet = buildTcp u payload syn ack fin rst
  | _ => True

/-- From `c` to `d` the ends stay, and nothing is written but between them. -/
structure Ends (c d : Cell) : Prop where
  endpoints : d.tcp.endpoints = c.tcp.endpoints
  calls : Calls (Io.answers c.tcp) c d

namespace Ends

variable {a b c d : Cell} {K : Kernel}

theorem of_log_eq (hEnds : d.tcp.endpoints = c.tcp.endpoints) (hLog : d.log = c.log) : Ends c d :=
  ⟨hEnds, .of_log_eq hLog⟩

theorem refl (c : Cell) : Ends c c := .of_log_eq rfl rfl

theorem trans (hFirst : Ends a b) (hSecond : Ends b c) : Ends a c := by
  refine ⟨hSecond.endpoints.trans hFirst.endpoints, hFirst.calls.trans (hSecond.calls.mono fun entry hEntry => ?_)⟩
  cases entry with
  | tun packet whole =>
      obtain ⟨u, payload, syn, ack, fin, rst, hEnds, hPacket⟩ := hEntry
      exact ⟨u, payload, syn, ack, fin, rst, hEnds.trans hFirst.endpoints, hPacket⟩
  | _ => trivial

theorem quiet (h : Quiet c d) : Ends c d := by
  obtain ⟨calls, hCalls, hLog⟩ := h.log
  refine ⟨h.endpoints, calls, fun entry hEntry => ?_, hLog⟩
  have hQuiet := hCalls entry hEntry
  cases entry with
  | tun packet whole => exact hQuiet.elim
  | _ => trivial

/-- A call that is not a write. -/
theorem one (hEnds : d.tcp.endpoints = c.tcp.endpoints) (entry : Io) (hLog : d.log = entry :: c.log)
    (hEntry : ∀ packet whole, entry ≠ .tun packet whole) : Ends c d := by
  refine ⟨hEnds, .one entry ?_ hLog⟩
  cases entry with
  | tun packet whole => exact absurd rfl (hEntry packet whole)
  | _ => trivial

theorem afterWrite {u : TcpSession} (hEnds : u.endpoints = c.tcp.endpoints) (payload : List UInt8)
    (syn ack fin rst whole : Bool) : Ends c (afterWrite c (buildTcp u payload syn ack fin rst) whole) := by
  have hPacket : Io.answers c.tcp (.tun (buildTcp u payload syn ack fin rst) whole) :=
    ⟨u, payload, syn, ack, fin, rst, hEnds, rfl⟩
  refine ⟨?_, .one _ hPacket (afterWrite_log ..)⟩
  rw [afterWrite_tcp]
  rfl

theorem countSyn (c : Cell) : Ends c c.countSyn := .one rfl .countSyn rfl nofun

theorem countFin (c : Cell) : Ends c c.countFin := .one rfl .countFin rfl nofun

theorem setState (c : Cell) (state : TcpState) : Ends c (c.setState state) := .of_log_eq rfl rfl

theorem closeSocket (c : Cell) : Ends c (closeSocket c) := .one rfl .close rfl nofun

theorem writeRst (K : Kernel) (c : Cell) : Ends c (writeRst K c) := by
  have hPacket : ∀ (d : Cell) ack, Ends d (d.call (.tun (buildTcp d.tcp [] false ack false true)
      (K.tunWrite d.calls))) := by
    intro d ack
    have hAnswers : Io.answers d.tcp (.tun (buildTcp d.tcp [] false ack false true) (K.tunWrite d.calls)) :=
      ⟨d.tcp, [], false, ack, false, true, rfl, rfl⟩
    exact ⟨rfl, .one _ hAnswers rfl⟩
  by_cases hState : c.tcp.state = .listen
  · rw [writeRst_of_listen K c hState]
    exact ((countSyn c).trans (hPacket _ true)).trans (.setState _ _)
  · rw [writeRst_of_ne_listen K c hState]
    split_ifs
    · exact hPacket c false
    · exact (hPacket c false).trans (.setState _ _)

theorem forwardTurn (K : Kernel) (seg : Segment) (rest : List Segment) (c : Cell) :
    Ends c (forwardTurn K seg rest c).1 := by
  have hSent : ∀ queue, Ends c ((sentOn K seg c).setForward queue) := fun queue =>
    .one rfl (.send (forwardRequest K c seg) (sendAnswer K seg c)) rfl nofun
  rw [forwardTurn_eq]
  split_ifs
  · exact hSent _
  · exact hSent _

theorem relay (K : Kernel) (bytes : List UInt8) (c : Cell) : Ends c (relay K bytes c) := by
  unfold Tun2Http.relay writeData
  dsimp only
  rw [writeOrClose_eq]
  dsimp only
  set e : Cell := { c with tcp := { c.tcp with received := c.tcp.received + BitVec.ofNat 64 bytes.length } }
    with hE
  have hCounted : Ends c e := .of_log_eq rfl rfl
  have hWritten : Ends e (Tun2Http.afterWrite e (buildTcp e.tcp bytes false true false false)
    (K.tunWrite e.calls)) := .afterWrite rfl bytes false true false false _
  split_ifs
  · exact (hCounted.trans hWritten).trans (.of_log_eq rfl rfl)
  · exact hCounted.trans hWritten

/-- A move goes between the ends. -/
theorem move {i : Input} {s : Cell} (h : Move K i s c d) : Ends c d := by
  cases h with
  | quiet h => exact .quiet h.toQuiet
  | write back fin whole hBack hOpen => 
      have hEnds : TcpSession.endpoints { c.tcp with remoteSeq := c.tcp.remoteSeq - back } = c.tcp.endpoints := rfl
      exact .afterWrite hEnds [] false true fin false whole
  | relay bytes hState hWindow hFirst hBytes hRead =>
      exact (Ends.quiet (quiet_recvFrom K c _)).trans (.relay K bytes _)
  | reset hReply => exact .writeRst K c
  | synAck ev whole hInput hError hRead hState =>
      have hWritten := (countSyn c).trans (.afterWrite (c := c.countSyn) rfl [] true true false false whole)
      dsimp only
      split_ifs
      · exact hWritten.trans (.setState _ _)
      · exact hWritten
  | forward seg rest hTurn hQueue hNext hState hSocket => exact .forwardTurn K seg rest c
  | confirmFin sndbuf outq data answer before hState hQueue hLog => exact .countFin c
  | queue hdr data hInput hSeq hQueue hSame hOpen => exact .of_log_eq rfl rfl
  | finQueued hState hQueue => exact .setState c _
  | fin next whole hState =>
      have hWritten := (countFin c).trans (.afterWrite (c := c.countFin) rfl [] false true false false whole)
      dsimp only
      split_ifs
      · exact hWritten.trans (.setState _ _)
      · exact hWritten
  | establish hState hTunnel => exact .setState c _
  | lastAck hState => exact .setState c _
  | abort hOpen => exact .setState c _
  | connect hdr data count hQuiet hInput hUrg hPort hSent hSocket hAnswer => exact .of_log_eq rfl rfl
  | reply hState hSent => exact .of_log_eq rfl rfl
  | shutdown next hQueue hState => exact (setState c _).trans (.closeSocket _)
  | closeSocket hState => exact .closeSocket c
  | closed hState hSocket => exact .setState c _

theorem step (c : Cell) (input : Kernel × Input) : Ends c (step c input) := by
  obtain ⟨K, i⟩ := input
  have hMoves := step_moves c K i
  generalize Tun2Http.step c (K, i) = d at hMoves
  induction hMoves with
  | refl => exact .refl c
  | tail _ hLast ih => exact ih.trans (.move hLast)

end Ends

/-- A session of the flow with the key `key`. -/
structure Translates (key : Key) (c : Cell) : Prop where
  named : (SessionData.tcp c).key = some key
  addressed : Addressed key.version key.saddr key.daddr
  written : ∀ packet whole, .tun packet whole ∈ c.log →
    packet.key = key.reply ∧ Addressed packet.version packet.saddr packet.daddr

namespace Translates

variable {key : Key} {c d : Cell}

theorem key_buildTcp {t u : TcpSession} (hEnds : u.endpoints = t.endpoints)
    (hKey : (⟨ipprotoTcp, t.version, t.saddr, t.daddr, t.source.toNat, t.dest.toNat⟩ : Key) = key)
    (h : Addressed key.version key.saddr key.daddr) (payload : List UInt8) (syn ack fin rst : Bool) :
    let packet := buildTcp u payload syn ack fin rst
    packet.key = key.reply ∧ Addressed packet.version packet.saddr packet.daddr := by
  simp only [TcpSession.endpoints, Prod.mk.injEq] at hEnds
  obtain ⟨hVersion, hSaddr, hDaddr, hSource, hDest⟩ := hEnds
  subst hKey
  have hFrom : addressOf t.version t.daddr = t.daddr := addressOf_of_length h.daddr
  have hTo : addressOf t.version t.saddr = t.saddr := addressOf_of_length h.saddr
  unfold buildTcp TcpPacket.key Key.reply
  dsimp only
  rw [hVersion, hSaddr, hDaddr, hSource, hDest, hFrom, hTo]
  exact ⟨rfl, h.daddr, h.saddr⟩

theorem ends (h : Translates key c) (hEnds : Ends c d) : Translates key d := by
  obtain ⟨calls, hCalls, hLog⟩ := hEnds.calls
  refine ⟨(SessionData.key_tcp hEnds.endpoints).trans h.named, h.addressed, fun packet whole hIn => ?_⟩
  rw [hLog] at hIn
  rcases List.mem_append.mp hIn with hNew | hOld
  · obtain ⟨u, payload, syn, ack, fin, rst, hSame, rfl⟩ := hCalls _ hNew
    exact key_buildTcp hSame (Option.some.inj h.named) h.addressed payload syn ack fin rst
  · exact h.written packet whole hOld

/-- Whatever is shown to it, it keeps to its flow. -/
theorem treat (h : Translates key c) (m : SessionInput) :
    ∃ d, (SessionData.tcp c).treat m = .tcp d ∧ Translates key d := by
  cases m with
  | allowed K => exact ⟨_, rfl, h.ends (.step c (K, .allowed))⟩
  | monitor K => exact ⟨_, rfl, h.ends (.step c _)⟩
  | check K sessions maxsessions => exact ⟨_, rfl, h.ends (.step c (K, .check sessions maxsessions))⟩
  | event K ev => exact ⟨_, rfl, h.ends (.step c _)⟩
  | echo K message => exact ⟨c, rfl, h⟩
  | datagram K mem source dest span => exact ⟨c, rfl, h⟩
  | segment K hdr data => exact ⟨_, rfl, h.ends (.step c _)⟩

theorem run (h : Translates key c) (inputs : List SessionInput) :
    ∃ d, Machine.run SessionData.treat (.tcp c) inputs = .tcp d ∧ Translates key d := by
  induction inputs generalizing c with
  | nil => exact ⟨c, rfl, h⟩
  | cons m rest ih =>
      obtain ⟨d, hTreat, hD⟩ := h.treat m
      rw [run_cons, hTreat]
      exact ih hD

end Translates

/-- A TCP session is of the flow of its key; the others have nothing to do with it. -/
def SessionData.Translated (data : SessionData) : Prop := ∀ c, data = .tcp c → ∃ key, Translates key c

theorem SessionData.translated_icmp (c : IcmpCell) : (icmp c).Translated := fun _ hData => by cases hData

theorem SessionData.translated_udp (c : UdpCell) : (udp c).Translated := fun _ hData => by cases hData

theorem SessionData.Translated.run {data : SessionData} (h : data.Translated) (inputs : List SessionInput) :
    (Machine.run treat data inputs).Translated := by
  intro d hData
  obtain ⟨c, rfl⟩ := exists_tcp_of_run hData
  obtain ⟨key, hC⟩ := h c rfl
  obtain ⟨e, hRun, hE⟩ := hC.run inputs
  rw [hRun] at hData
  cases hData
  exact ⟨key, hE⟩

namespace EventLoop

variable {L : EventLoop} {K : Kernel} {pkt : Packet}

/-- Every session that is known keeps to its flow. -/
def Translating (L : EventLoop) : Prop := ∀ t ∈ L.known, t.data.Translated

theorem Translating.store (h : Translating L) {pointer : Nat} {data : SessionData} (hData : data.Translated) :
    Translating (L.store pointer data) := by
  intro t ht
  rcases mem_known_update.mp ht with ⟨s, hs, rfl⟩ | hFreed
  · dsimp only
    split_ifs
    · exact hData
    · exact h s (List.mem_append_left _ hs)
  · exact h t (List.mem_append_right _ hFreed)

theorem Translating.register (h : Translating L) {data : SessionData} (hData : data.Translated) :
    Translating (L.register K data) := by
  intro t ht
  rcases List.mem_cons.mp ht with rfl | hKnown
  · exact hData
  · exact h t hKnown

/-- A new session is of the flow of its SYN. -/
theorem translates_newSession {version payload : Nat} {info : SynInfo} {hdr : TcpHdr} {data : Payload}
    {c : Cell} (hHdr : (readTcpHdr payload).value pkt.mem = hdr)
    (hInfo : pkt.synInfo version payload = some info) (hNew : newSession K info hdr data = some c) :
    Translates (pkt.key ipprotoTcp version payload) c := by
  refine ⟨key_newTcp hHdr hInfo hNew, addressed_readAddresses version pkt.mem, fun packet whole hIn => ?_⟩
  rw [(newSession_eq hNew).2.1, List.mem_singleton] at hIn
  cases hIn

theorem Translating.handled (h : Translating L) {M : EventLoop} (hHandled : Handled L K pkt M) :
    Translating M := by
  cases hHandled with
  | ignored => exact h
  | echo message hIn hData => exact h.store (SessionData.translated_icmp _)
  | datagram hTakes hKey hFound hData => exact h.store (SessionData.translated_udp _)
  | @segment version payload s c span hHands hFound hData =>
      obtain ⟨key, hKey⟩ := h s (List.mem_append_left _ (List.mem_of_find?_eq_some hFound)) c hData
      refine h.store fun d hD => ?_
      rw [← SessionData.tcp.inj hD]
      exact ⟨key, hKey.ends (.step c _)⟩
  | newIcmp message hHands hIcmp hEcho hNone hNew => exact h.register (SessionData.translated_icmp _)
  | newUdp hTakes hKey hNone hNew => exact h.register (SessionData.translated_udp _)
  | newTcp span hHands hHdr hUrg hNone hSyn hInfo hNew =>
      refine h.register fun d hD => ?_
      rw [← SessionData.tcp.inj hD]
      exact ⟨_, translates_newSession hHdr hInfo hNew⟩

theorem Translating.step (h : Translating L) (hSound : Sound L) (input : LoopInput) :
    Translating (stepLoop L input) := by
  intro t ht
  rcases continues_step hSound input ht with ⟨s, hs, -, hData⟩ | hBegins
  · rw [hData]
    exact (h s hs).run _
  · cases input with
    | packet K pkt => exact h.handled (handled_handleIp L K pkt) t ht
    | _ => cases hBegins

/-- A packet that is for a session has the key of the session. -/
theorem packetKey_of_addressed {t : NgSession} {m : SessionInput} (hFound : L.addressed K pkt = some (t, m)) :
    L.packetKey pkt = t.data.key := by
  unfold addressed at hFound
  cases hHands : (Tun2Http.handleIp L.context pkt.turns pkt.length).value pkt.mem with
  | dropped => simp [hHands] at hFound
  | running => simp [hHands] at hFound
  | handler version protocol payload =>
      simp only [hHands] at hFound
      split_ifs at hFound with hIcmp hUdp
      · unfold addressedIcmp at hFound
        split at hFound
        · cases hFound
        · obtain ⟨s, hSearch, hEq⟩ := Option.map_eq_some_iff.mp hFound
          cases hEq
          have hMeets := List.find?_some hSearch
          rw [packetKey_icmp hHands hIcmp]
          cases hData : t.data with
          | icmp c => rfl
          | udp c => simp [hData] at hMeets
          | tcp c => simp [hData] at hMeets
      · subst hUdp
        unfold addressedUdp at hFound
        split at hFound
        · cases hFound
        · obtain ⟨s, hSearch, hEq⟩ := Option.map_eq_some_iff.mp hFound
          cases hEq
          rw [packetKey_ports hHands (Or.inl rfl)]
          exact (search_key hSearch).2.symm
      · have hTcp : protocol = ipprotoTcp := by
          rcases ((handleIp_handler_iff _ hHands).mp hHands).upper with hTcp | hOther | hOther | hOther
          · exact hTcp
          · exact absurd hOther hUdp
          · exact absurd (Or.inl hOther) hIcmp
          · exact absurd (Or.inr hOther) hIcmp
        subst hTcp
        unfold addressedTcp at hFound
        split at hFound
        · cases hFound
        · obtain ⟨s, hSearch, hEq⟩ := Option.map_eq_some_iff.mp hFound
          cases hEq
          rw [packetKey_ports hHands (Or.inr rfl)]
          exact (search_key hSearch).2.symm

/-- Pointers are not used again. -/
theorem next_le_run (L : EventLoop) (inputs : List LoopInput) : L.next ≤ (run stepLoop L inputs).next := by
  induction inputs generalizing L with
  | nil => exact le_rfl
  | cons input rest ih =>
      have hStep : L.next ≤ (stepLoop L input).next := by
        by_cases hClear : input = .clear
        · subst hClear
          exact le_rfl
        · exact (grows_step L hClear).next
      exact hStep.trans (ih _)

theorem Sound.pointer_lt (h : Sound L) {t : NgSession} (ht : t ∈ L.known) : t.pointer < L.next := by
  rcases List.mem_append.mp ht with hList | hFreed
  · exact h.fresh t hList
  · exact (h.freed t hFreed).2.1

/-- A session that is known at the end of a run, and was in the list when it began, has run
from there. -/
theorem Sound.ran_from (h : Sound L) {inputs : List LoopInput} {s t : NgSession}
    (hKnown : s ∈ (run stepLoop L inputs).known) (hIn : t ∈ L.ngSession) (hPointer : t.pointer = s.pointer) :
    s.data = run SessionData.treat t.data (history stepLoop shown s.pointer L inputs) := by
  have hStep : ∀ (L : EventLoop) (i : LoopInput), L.Sound → ∀ p b, (stepLoop L i).Has p b →
      (∃ a, L.Has p a ∧ b = run SessionData.treat a (L.shown i p)) ∨ L.Begins i p b := by
    intro L i hSound p b hHas
    rcases continues_step hSound i hHas with ⟨⟨q, a⟩, ht, rfl, hData⟩ | hBegins
    · exact Or.inl ⟨a, ht, hData⟩
    · exact Or.inr hBegins
  have hHas : (run stepLoop L inputs).Has s.pointer s.data := hKnown
  rcases parts_run (fun L i (h : L.Sound) => h.step i) hStep h hHas with ⟨a, hA, hData⟩ |
    ⟨before, opening, after, birth, -, hBegins, -⟩
  · have hSame : a = t.data := by
      rcases List.mem_append.mp hA with hList | hFreed
      · exact congrArg NgSession.data (h.eq_of_pointer hIn hList hPointer.symm)
      · exact absurd hPointer ((h.freed _ hFreed).2.2 t hIn)
    rw [hData, hSame]
  · have hOld := h.fresh t hIn
    have hNew := next_le_run L before
    rw [hPointer, hBegins.pointer_eq] at hOld
    omega

end EventLoop

theorem translating_run (inputs : List LoopInput) : (run stepLoop .init inputs).Translating := by
  have hBoth : (run stepLoop .init inputs).Sound ∧ (run stepLoop .init inputs).Translating := by
    refine run_invariant_always (I := fun L : EventLoop => L.Sound ∧ L.Translating) inputs
      ⟨EventLoop.sound_init, ?_⟩
      fun L input h => ⟨h.1.step input, h.2.step h.1 input⟩
    exact fun t ht => absurd ht List.not_mem_nil
  exact hBoth.2

/-- Every TCP session that the loop has at any time has one flow. What it has written to
the tun, read as `handle_ip` and `handle_tcp` read a packet, is of the flow's other
direction; and at any earlier time it was shown only packets of the flow. -/
theorem flows_translated (inputs : List LoopInput) :
    ∀ s ∈ (run stepLoop .init inputs).known, ∀ c, s.data = .tcp c → ∃ key, s.data.key = some key ∧
      (∀ packet whole, .tun packet whole ∈ c.log → ∀ pkt : Packet, Holds pkt.mem 0 packet.bytes →
        pkt.key ipprotoTcp packet.version (ipHeaderLength packet.version) = key.reply) ∧
      ∀ before K pkt after, inputs = before ++ .packet K pkt :: after →
        (run stepLoop .init before).shown (.packet K pkt) s.pointer ≠ [] →
        (run stepLoop .init before).packetKey pkt = some key := by
  intro s hKnown c hData
  obtain ⟨key, hKey⟩ := translating_run inputs s hKnown c hData
  refine ⟨key, hData ▸ hKey.named, fun packet whole hIn pkt hBytes => ?_, ?_⟩
  · obtain ⟨hReply, hAddressed⟩ := hKey.written packet whole hIn
    rw [key_of_bytes hAddressed hBytes, hReply]
  · rintro before K pkt after rfl hShown
    have hSound := sound_run before
    have hTranslating := translating_run before
    rw [run_append] at hKnown
    generalize run stepLoop .init before = L at *
    have hListed : s.pointer ∈ L.ngSession.map (·.pointer) := by
      by_contra hNone
      exact hShown (if_neg hNone)
    obtain ⟨t, hIn, hPointer⟩ := List.mem_map.mp hListed
    have hRan := hSound.ran_from hKnown hIn hPointer
    obtain ⟨b, hB⟩ := SessionData.exists_tcp_of_run (hRan.symm.trans hData)
    obtain ⟨other, hOther⟩ := hTranslating t (List.mem_append_left _ hIn) b hB
    obtain ⟨d, hD, hRun⟩ := hOther.run (history stepLoop EventLoop.shown s.pointer
      L (.packet K pkt :: after))
    have hSame : other = key := by
      have hNamed : s.data.key = some other := by
        rw [hRan, hB, hD]
        exact hRun.named
      rw [hData, hKey.named] at hNamed
      exact (Option.some.inj hNamed).symm
    rw [← hPointer, EventLoop.shown_of_mem hIn] at hShown
    rcases EventLoop.parted_handleIp L K pkt with ⟨u, m, hFound, hU, -⟩ | ⟨hNone, -⟩
    · simp only [hFound] at hShown
      have hAt : u.pointer = t.pointer := by
        by_contra hOther
        exact hShown (if_neg hOther)
      obtain rfl := hSound.eq_of_pointer hIn hU hAt
      rw [EventLoop.packetKey_of_addressed hFound, hB, hOther.named, hSame]
    · simp [hNone] at hShown

/-- The loop begins, and a SYN opens a session. -/
def synInputs : List LoopInput :=
  [.start (fun _ => .willing) false 1, .pass (fun _ => .willing) true, .packet .willing EventLoop.dataSyn,
    .event .willing (3, 0) { epollout := true }]

/-- Its session, which has answered the SYN. -/
def firstSession : NgSession := (run stepLoop .init synInputs).ngSession.head (by decide)

theorem flows_translated_syn : ∃ c, firstSession.data = .tcp c ∧ ∃ key, firstSession.data.key = some key ∧
    (∀ packet whole, .tun packet whole ∈ c.log → ∀ pkt : Packet, Holds pkt.mem 0 packet.bytes →
      pkt.key ipprotoTcp packet.version (ipHeaderLength packet.version) = key.reply) ∧
    ∀ before K pkt after, synInputs = before ++ .packet K pkt :: after →
      (run stepLoop .init before).shown (.packet K pkt) firstSession.pointer ≠ [] →
      (run stepLoop .init before).packetKey pkt = some key := by
  have hIn : firstSession ∈ (run stepLoop .init synInputs).ngSession := List.head_mem _
  have hTcp : firstSession.data.key.map Key.protocol = some ipprotoTcp := by decide
  obtain ⟨key, hKey, hProtocol⟩ := Option.map_eq_some_iff.mp hTcp
  obtain ⟨c, hData⟩ := EventLoop.data_of_key_tcp hProtocol hKey
  exact ⟨c, hData, flows_translated synInputs firstSession (List.mem_append_left _ hIn) c hData⟩

end Tun2Http
