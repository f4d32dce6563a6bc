import Tun2Http.Session.Loop

/-! Echo replies. A session restores the identifier that it was opened with, for
whichever request the reply is to. -/
namespace Tun2Http

open Machine

/-- `icmp_id` and `icmp_seq` of a message, as the host loads them. -/
def identifier (message : List UInt8) : U16 := (le16 4).value (packetMemory message)

def sequence (message : List UInt8) : U16 := (le16 6).value (packetMemory message)

namespace SessionData

/-- The session, where it is an ICMP session. -/
def icmpCell : SessionData → Option IcmpCell
  | icmp c => some c
  | _ => none

/-- The identifier that an ICMP session restores. -/
def echoId (data : SessionData) : Option U16 := data.icmpCell.map (·.icmp.id)

end SessionData

/-- An echo request of an app, and the session that it is passed on by. -/
structure EchoRequest where
  pointer : Nat
  saddr : List UInt8
  daddr : List UInt8
  id : U16
  sequence : U16
  deriving DecidableEq

namespace EventLoop

/-- The session that an echo request is passed on by: one that there is, or a new
one, if it gets a socket. -/
def echoSession (L : EventLoop) (K : Kernel) (version : Nat) (addresses : List UInt8 × List UInt8) :
    Option Nat :=
  match L.searchIcmp version addresses with
  | some s => some s.pointer
  | none => if 0 ≤ openDatagramSocket K then some L.next else none

/-- The echo request in a packet, where it is passed on. -/
def asks (L : EventLoop) (K : Kernel) (pkt : Packet) : Option EchoRequest :=
  match (Tun2Http.handleIp L.context pkt.turns pkt.length).value pkt.mem with
  | .handler version protocol payload =>
      if (protocol = ipprotoIcmp ∨ protocol = ipprotoIcmpv6) ∧ pkt.mem payload = icmpEcho then
        let addresses := (readAddresses version).value pkt.mem
        (L.echoSession K version addresses).map fun pointer =>
          { pointer := pointer
            saddr := addresses.1
            daddr := addresses.2
            id := (le16 (payload + 4)).value pkt.mem
            sequence := (le16 (payload + 6)).value pkt.mem }
      else none
  | _ => none

end EventLoop

/-- The event loop, with the echo requests that were passed on. -/
structure Echoes where
  loop : EventLoop
  asked : List EchoRequest

/-- Before the first packet. -/
def Echoes.init : Echoes := ⟨.init, []⟩

/-- A step of the loop, under which the requests are collected. -/
def stepEchoes (E : Echoes) (input : LoopInput) : Echoes where
  loop := stepLoop E.loop input
  asked := match input with
    | .packet K pkt => (E.loop.asks K pkt).toList ++ E.asked
    | _ => E.asked

/-- The packets written to the tun. -/
def written (log : List IcmpIo) : List IcmpPacket :=
  log.filterMap fun
    | .tun packet _ => some packet
    | _ => none

/-- The packets that an event writes. -/
def replies (K : Kernel) (ev : EpollEvents) (c : IcmpCell) : List IcmpPacket :=
  let d := checkIcmpSocket K ev c
  written (d.log.take (d.calls - c.calls))

/-- The request was passed on by the session, between the same ends, and has the
sequence number of the reply. -/
def RepliesTo (s : NgSession) (packet : IcmpPacket) (request : EchoRequest) : Prop :=
  request.pointer = s.pointer ∧ request.saddr = packet.daddr ∧ request.daddr = packet.saddr ∧
    request.sequence = sequence packet.data

instance (s : NgSession) (packet : IcmpPacket) (request : EchoRequest) :
    Decidable (RepliesTo s packet request) :=
  inferInstanceAs (Decidable (_ ∧ _))

/-- A reply with a whole header has the identifier of the request that it answers. -/
def Identified (E : Echoes) : LoopInput → Prop
  | .event K registration ev => registration ∈ E.loop.epoll → ∀ s ∈ E.loop.ngSession,
      s.pointer = registration.2 → ∀ c ∈ s.data.icmpCell, ∀ packet ∈ replies K ev c,
        8 ≤ packet.data.length → ∀ request ∈ E.asked, RepliesTo s packet request →
          identifier packet.data = request.id
  | _ => True

instance (E : Echoes) : ∀ input, Decidable (Identified E input)
  | .event K registration ev => inferInstanceAs (Decidable (registration ∈ E.loop.epoll →
      ∀ s ∈ E.loop.ngSession, s.pointer = registration.2 → ∀ c ∈ s.data.icmpCell,
        ∀ packet ∈ replies K ev c, 8 ≤ packet.data.length → ∀ request ∈ E.asked,
          RepliesTo s packet request → identifier packet.data = request.id))
  | .packet _ _ => isTrue trivial
  | .start _ _ _ => isTrue trivial
  | .pass _ _ => isTrue trivial
  | .clear => isTrue trivial

/-- A request for a session that there is has the identifier of the session. -/
def SharesId (E : Echoes) : LoopInput → Prop
  | .packet K pkt => ∀ request ∈ E.loop.asks K pkt, ∀ s ∈ E.loop.ngSession,
      s.pointer = request.pointer → s.data.echoId = some request.id
  | _ => True

instance (E : Echoes) : ∀ input, Decidable (SharesId E input)
  | .packet K pkt => inferInstanceAs (Decidable (∀ request ∈ E.loop.asks K pkt,
      ∀ s ∈ E.loop.ngSession, s.pointer = request.pointer → s.data.echoId = some request.id))
  | .event _ _ _ => isTrue trivial
  | .start _ _ _ => isTrue trivial
  | .pass _ _ => isTrue trivial
  | .clear => isTrue trivial

/-! The identifier stays in the session. -/

theorem checkIcmpSocket_id (K : Kernel) (ev : EpollEvents) (c : IcmpCell) :
    (checkIcmpSocket K ev c).icmp.id = c.icmp.id := by
  unfold checkIcmpSocket
  dsimp only
  split_ifs
  · rfl
  · split
    · split_ifs <;> rfl
    · split_ifs <;> rfl
  · rfl

theorem forwardIcmp_id (K : Kernel) (message : List UInt8) (c : IcmpCell) :
    (forwardIcmp K message c).icmp.id = c.icmp.id := by
  unfold forwardIcmp
  dsimp only
  split
  · split_ifs <;> rfl
  · rfl

theorem newIcmp_id {K : Kernel} {uid : Int} {version : Nat} {addresses : List UInt8 × List UInt8}
    {id : U16} {c : IcmpCell} (hNew : newIcmp K uid version addresses id = some c) :
    c.icmp.id = id := by
  unfold newIcmp at hNew
  dsimp only at hNew
  split_ifs at hNew
  rw [← Option.some.inj hNew]

namespace SessionData

variable (K : Kernel) (s : SessionData)

theorem echoId_monitor : (s.monitor K).echoId = s.echoId := by cases s <;> rfl

theorem echoId_event (ev : EpollEvents) : (s.event K ev).echoId = s.echoId := by
  cases s with
  | icmp c => exact congrArg some (checkIcmpSocket_id K ev c)
  | udp c => rfl
  | tcp c => rfl

theorem echoId_check (sessions maxsessions : Int) :
    (s.check K sessions maxsessions).1.echoId = s.echoId := by
  cases s with
  | icmp c =>
      unfold check checkIcmpSession
      dsimp only
      split_ifs <;> rfl
  | udp c => rfl
  | tcp c => rfl

theorem echoId_allowed : (s.allowed K).1.echoId = s.echoId := by
  cases s with
  | icmp c =>
      unfold allowed
      dsimp only
      split_ifs <;> rfl
  | udp c =>
      unfold allowed
      dsimp only
      split_ifs <;> rfl
  | tcp c => rfl

end SessionData

/-! The fields of a reply. -/

/-- A stored field reads as it was stored. -/
theorem le16_storeLe16 {message : List UInt8} {offset : Nat} (value : U16)
    (hInside : offset + 1 < message.length) :
    (le16 offset).value (packetMemory (storeLe16 message offset value)) = value := by
  have hBound := value.isLt
  have hLow : (storeLe16 message offset value).getD offset 0 = (value.toNat % 256).toUInt8 := by
    simp [storeLe16, Nat.lt_of_succ_lt hInside]
  have hHigh : (storeLe16 message offset value).getD (offset + 1) 0 =
      (value.toNat / 256).toUInt8 := by
    simp [storeLe16, hInside]
  apply BitVec.eq_of_toNat_eq
  rw [value_le16]
  simp only [packetMemory, hLow, hHigh, BitVec.toNat_ofNat, Nat.toUInt8_eq, UInt8.toNat_ofNat']
  omega

/-- The other bytes stay. -/
theorem getD_storeLe16 (message : List UInt8) {offset i : Nat} (value : U16) (hBefore : i ≠ offset)
    (hBehind : i ≠ offset + 1) : (storeLe16 message offset value).getD i 0 = message.getD i 0 := by
  simp [storeLe16, hBefore.symm, hBehind.symm]

@[simp] theorem length_storeLe16 (message : List UInt8) (offset : Nat) (value : U16) :
    (storeLe16 message offset value).length = message.length := by
  simp [storeLe16]

/-- The checksum is not the identifier. -/
theorem identifier_storeChecksum (csum : U16) (message : List UInt8) :
    identifier (storeChecksum csum message) = identifier message := by
  have hByte : ∀ i, 4 ≤ i → (storeChecksum csum message).getD i 0 = message.getD i 0 := fun i hi => by
    rw [storeChecksum, getD_storeLe16 _ _ (by omega) (by omega)]
  unfold identifier
  rw [value_le16, value_le16]
  simp only [packetMemory, hByte 4 (Nat.le_refl 4), hByte 5 (by decide)]

/-- A reply gets the identifier of the session. -/
theorem identifier_icmpReply {cur : IcmpSession} {bytes : List UInt8}
    (hLength : 8 ≤ (icmpReply cur bytes).length) : identifier (icmpReply cur bytes) = cur.id := by
  unfold icmpReply at hLength ⊢
  simp only [storeChecksum, length_storeLe16] at hLength
  rw [identifier_storeChecksum]
  exact le16_storeLe16 cur.id (by omega)

/-- The packet in which a session passes on what has arrived. -/
def replyPacket (cur : IcmpSession) (arrived : List UInt8) : IcmpPacket where
  version := cur.version
  saddr := addressOf cur.version cur.daddr
  daddr := addressOf cur.version cur.saddr
  data := icmpReply cur (arrived.take (icmpMaxmsg cur.version))

/-- What an event writes to the tun is the reply that it read. -/
theorem mem_replies {K : Kernel} {ev : EpollEvents} {c : IcmpCell} {packet : IcmpPacket}
    (hPacket : packet ∈ replies K ev c) : ∃ arrived, packet = replyPacket c.icmp arrived := by
  suffices hNew : ∃ new, (checkIcmpSocket K ev c).log = new ++ c.log ∧
      ∀ packet ∈ written new, ∃ arrived, packet = replyPacket c.icmp arrived by
    obtain ⟨new, hLog, hData⟩ := hNew
    apply hData
    simpa [replies, IcmpCell.calls, hLog] using hPacket
  unfold checkIcmpSocket
  dsimp only
  split_ifs
  · exact ⟨[.time (K.time c.calls)], rfl, by simp [written]⟩
  · split
    · rename_i errno hRecv
      split_ifs <;> exact ⟨[.recv (.error errno), .time (K.time c.calls)], rfl, by simp [written]⟩
    · rename_i arrived hRecv
      set bytes := arrived.take (icmpMaxmsg (c.touch K).icmp.version) with hBytes
      have hReply : ∀ whole, ∀ other ∈ written [.tun (replyPacket c.icmp arrived) whole,
          .recv (.data bytes), .time (K.time c.calls)],
            ∃ arrived, other = replyPacket c.icmp arrived := by
        intro whole other hOther
        have hSame : other = replyPacket c.icmp arrived := by simpa [written] using hOther
        exact ⟨arrived, hSame⟩
      split_ifs
      · exact ⟨[.recv (.data bytes), .time (K.time c.calls)], rfl, by simp [written]⟩
      · exact ⟨_, rfl, hReply _⟩
      · exact ⟨_, rfl, hReply _⟩
  · exact ⟨[], rfl, by simp [written]⟩

namespace EventLoop

variable {L M : EventLoop} {f : NgSession → SessionData × Bool} {K : Kernel} {pkt : Packet}

/-- The sessions of `M` were in `L` and restore the same identifier, or are new. -/
structure Descends (L M : EventLoop) : Prop where
  next : L.next ≤ M.next
  stems : ∀ t ∈ M.ngSession,
    (∃ s ∈ L.ngSession, t.pointer = s.pointer ∧ t.data.echoId = s.data.echoId) ∨ L.next ≤ t.pointer

theorem Descends.refl (L : EventLoop) : Descends L L :=
  ⟨Nat.le_refl _, fun t ht => Or.inl ⟨t, ht, rfl, rfl⟩⟩

theorem descends_update (hId : ∀ s ∈ L.ngSession, (f s).1.echoId = s.data.echoId) :
    Descends L (L.update f) := by
  refine ⟨Nat.le_refl _, fun t ht => ?_⟩
  obtain ⟨s, hs, -, rfl⟩ := mem_update.mp ht
  exact Or.inl ⟨s, hs, rfl, hId s hs⟩

theorem descends_store (h : Sound L) {s : NgSession} {data : SessionData} (hIn : s ∈ L.ngSession)
    (hId : data.echoId = s.data.echoId) : Descends L (L.store s.pointer data) := by
  refine descends_update fun t ht => ?_
  dsimp only
  split_ifs with hPointer
  · rwa [h.eq_of_pointer hIn ht hPointer]
  · rfl

theorem descends_register (L : EventLoop) (K : Kernel) (data : SessionData) :
    Descends L (L.register K data) := by
  refine ⟨Nat.le_succ _, fun t ht => ?_⟩
  rcases List.mem_cons.mp ht with rfl | hBefore
  · exact Or.inr (Nat.le_refl _)
  · exact Or.inl ⟨t, hBefore, rfl, rfl⟩

theorem Descends.trans {N : EventLoop} (hFirst : Descends L M) (hSecond : Descends M N) :
    Descends L N := by
  refine ⟨hFirst.next.trans hSecond.next, fun u hu => ?_⟩
  rcases hSecond.stems u hu with ⟨t, ht, hPointer, hId⟩ | hNew
  · rcases hFirst.stems t ht with ⟨s, hs, hPointer', hId'⟩ | hNew
    · exact Or.inl ⟨s, hs, hPointer.trans hPointer', hId.trans hId'⟩
    · exact Or.inr (hPointer ▸ hNew)
  · exact Or.inr (hFirst.next.trans hNew)

theorem descends_handled (h : Sound L) (hHandled : Handled L K pkt M) : Descends L M := by
  cases hHandled with
  | ignored => exact .refl L
  | @echo s c message hIn hData =>
      apply descends_store h hIn
      rw [hData]
      exact congrArg some (forwardIcmp_id K message c)
  | @datagram version payload span key s c hTakes hKey hFound hData =>
      apply descends_store h (search_key hFound).1
      rw [hData]
      rfl
  | @segment version payload s c span hHands hFound hData =>
      apply descends_store h (search_key hFound).1
      rw [hData]
      rfl
  | newIcmp message hHands hIcmp hEcho hNone hNew => exact descends_register L K _
  | newUdp hTakes hKey hNone hNew => exact descends_register L K _
  | newTcp span hHands hHdr hUrg hNone hSyn hInfo hNew => exact descends_register L K _

theorem descends_pass (kernels : Nat → Kernel) (check : Bool) : Descends L (L.pass kernels check) := by
  have hCounted : Descends L { L with sessions := L.live } := ⟨Nat.le_refl _, (Descends.refl L).stems⟩
  have hMonitored := hCounted.trans (descends_update (f := fun s =>
    (s.data.monitor (kernels s.pointer), false)) fun s _ => s.data.echoId_monitor _)
  unfold EventLoop.pass
  dsimp only
  split_ifs
  · exact hMonitored.trans (descends_update fun s _ => s.data.echoId_check _ _ _)
  · exact hMonitored

theorem descends_step (h : Sound L) (input : LoopInput) : Descends L (stepLoop L input) := by
  cases input with
  | start kernels fwd53 maxsessions =>
      have hEnded : Descends L (L.update fun s => s.data.allowed (kernels s.pointer)) :=
        descends_update fun s _ => s.data.echoId_allowed _
      exact ⟨hEnded.next, hEnded.stems⟩
  | pass kernels check => exact descends_pass kernels check
  | packet K pkt => exact descends_handled h (handled_handleIp L K pkt)
  | event K registration ev =>
      show Descends L (L.event K registration ev)
      unfold EventLoop.event
      split_ifs
      · split
        · exact .refl L
        · rename_i s hFound
          exact descends_store h (List.mem_of_find?_eq_some hFound) (s.data.echoId_event K ev)
      · exact .refl L
  | clear => exact ⟨Nat.le_refl _, fun t ht => absurd ht List.not_mem_nil⟩

/-- A request that is passed on is passed on by a session of the list, or by a new
one, which gets its identifier. -/
theorem asks_cases {request : EchoRequest} (hAsks : L.asks K pkt = some request) :
    (∃ s ∈ L.ngSession, s.pointer = request.pointer) ∨
      (request.pointer = L.next ∧
        ∃ c, c.icmp.id = request.id ∧ L.handleIp K pkt = L.register K (.icmp c)) := by
  unfold asks at hAsks
  split at hAsks
  · rename_i version protocol payload hHands
    split_ifs at hAsks with hEcho
    obtain ⟨pointer, hSession, rfl⟩ := Option.map_eq_some_iff.mp hAsks
    unfold echoSession at hSession
    split at hSession
    · rename_i s hFound
      exact Or.inl ⟨s, List.mem_of_find?_eq_some hFound, Option.some.inj hSession⟩
    · rename_i hNone
      split_ifs at hSession with hSocket
      obtain ⟨c, hNew⟩ := Option.isSome_iff_exists.mp ((isSome_newIcmp K pkt.uid version
        ((readAddresses version).value pkt.mem) ((le16 (payload + 4)).value pkt.mem)).mpr hSocket)
      have hHandle : L.handleIp K pkt = L.register K (.icmp (forwardIcmp K
          (pkt.echo version payload ⟨payload, remaining pkt.length payload⟩) c)) := by
        rw [handleIp_eq hHands, if_pos hEcho.1, handleIcmp_new hEcho.2 hNone hNew]
      exact Or.inr ⟨(Option.some.inj hSession).symm, _,
        (forwardIcmp_id K _ c).trans (newIcmp_id hNew), hHandle⟩
  · cases hAsks

end EventLoop

/-- Every request was passed on by a session that restores its identifier, or
that is gone. -/
structure Traced (E : Echoes) : Prop where
  sound : E.loop.Sound
  fresh : ∀ request ∈ E.asked, request.pointer < E.loop.next
  ids : ∀ s ∈ E.loop.ngSession, ∀ request ∈ E.asked, request.pointer = s.pointer →
    s.data.echoId = some request.id

theorem traced_init : Traced .init :=
  ⟨EventLoop.sound_init, by simp [Echoes.init], by simp [Echoes.init]⟩

variable {E : Echoes}

/-- The requests before a step are still traced after it. -/
theorem Traced.before (h : Traced E) (input : LoopInput) {request : EchoRequest}
    (hAsked : request ∈ E.asked) : request.pointer < (stepLoop E.loop input).next ∧
      ∀ t ∈ (stepLoop E.loop input).ngSession, request.pointer = t.pointer →
        t.data.echoId = some request.id := by
  have hDescends := EventLoop.descends_step h.sound input
  have hFresh := h.fresh request hAsked
  refine ⟨Nat.lt_of_lt_of_le hFresh hDescends.next, fun t ht hPointer => ?_⟩
  rcases hDescends.stems t ht with ⟨s, hs, hSame, hId⟩ | hNew
  · rw [hId]
    exact h.ids s hs request hAsked (hPointer.trans hSame)
  · omega

/-- So is the one that the step passes on. -/
theorem Traced.asks (h : Traced E) {K : Kernel} {pkt : Packet} {request : EchoRequest}
    (hShares : SharesId E (.packet K pkt)) (hAsks : E.loop.asks K pkt = some request) :
    request.pointer < (stepLoop E.loop (.packet K pkt)).next ∧
      ∀ t ∈ (stepLoop E.loop (.packet K pkt)).ngSession, request.pointer = t.pointer →
        t.data.echoId = some request.id := by
  rcases EventLoop.asks_cases hAsks with ⟨s, hs, hPointer⟩ | ⟨hPointer, c, hId, hHandle⟩
  · have hDescends := EventLoop.descends_step h.sound (.packet K pkt)
    have hFresh := h.sound.fresh s hs
    refine ⟨Nat.lt_of_lt_of_le (hPointer ▸ hFresh) hDescends.next, fun t ht hSame => ?_⟩
    rcases hDescends.stems t ht with ⟨u, hu, hStem, hKept⟩ | hNew
    · rw [hKept]
      exact hShares request hAsks u hu (hStem.symm.trans hSame.symm)
    · omega
  · have hStep : stepLoop E.loop (.packet K pkt) = E.loop.register K (.icmp c) := hHandle
    rw [hStep]
    refine ⟨hPointer ▸ Nat.lt_succ_self _, fun t ht hSame => ?_⟩
    rcases List.mem_cons.mp ht with rfl | hBefore
    · exact congrArg some hId
    · have hFresh := h.sound.fresh t hBefore
      omega

theorem Traced.step (h : Traced E) {input : LoopInput} (hShares : SharesId E input) :
    Traced (stepEchoes E input) := by
  have hAsked : ∀ request ∈ (stepEchoes E input).asked,
      request.pointer < (stepLoop E.loop input).next ∧
        ∀ t ∈ (stepLoop E.loop input).ngSession, request.pointer = t.pointer →
          t.data.echoId = some request.id := by
    intro request hIn
    cases input with
    | packet K pkt =>
        rcases List.mem_append.mp hIn with hNew | hBefore
        · exact h.asks hShares (Option.mem_toList.mp hNew)
        · exact h.before _ hBefore
    | _ => exact h.before _ hIn
  exact ⟨h.sound.step input, fun request hIn => (hAsked request hIn).1,
    fun s hs request hIn => (hAsked request hIn).2 s hs⟩

/-- Where every session is asked with one identifier only, every reply has it. -/
theorem Traced.identified (h : Traced E) (input : LoopInput) : Identified E input := by
  cases input with
  | event K registration ev =>
      intro _ s hs _ c hCell packet hPacket hLength request hAsked hReply
      obtain ⟨arrived, rfl⟩ := mem_replies hPacket
      have hId := h.ids s hs request hAsked hReply.1
      rw [SessionData.echoId, Option.mem_def.mp hCell] at hId
      rw [replyPacket, identifier_icmpReply hLength]
      exact Option.some.inj hId
  | _ => trivial

/-- In a run in which no session takes over a request with another identifier,
every echo reply has the identifier of the request that it answers. -/
theorem echo_replies_identified (inputs : List LoopInput)
    (hRun : Along stepEchoes SharesId .init inputs) : Along stepEchoes Identified .init inputs :=
  along_of_invariant traced_init hRun (fun _ _ hTraced hShares => hTraced.step hShares)
    fun _ input hTraced _ => hTraced.identified input

/-- An echo message of 28 bytes. -/
def echoMessage (kind : UInt8) (id sequence : Nat) : List UInt8 :=
  [kind, 0, 0, 0] ++ field16 id ++ field16 sequence ++ List.replicate 20 0

/-- An echo request from `10.1.10.1` to `93.184.216.34`. -/
def ping (id sequence : Nat) : Packet where
  mem := packetMemory ([0x45, 0] ++ field16 48 ++ [0, 0, 0, 0, 64, 1, 0, 0, 10, 1, 10, 1, 93, 184, 216, 34] ++
    echoMessage icmpEcho id sequence)
  length := 48
  turns := 1
  uid := 10001

/-- The reply to it arrives. -/
def pong (id sequence : Nat) : LoopInput :=
  .event { Kernel.willing with recv := fun _ => .data (echoMessage 0 id sequence) } (3, 0)
    { epollin := true }

/-- Two requests with one identifier, and their replies. -/
theorem echo_replies_identified_sample : Along stepEchoes Identified .init
    [.start (fun _ => .willing) false 10, .packet .willing (ping 7 1), .packet .willing (ping 7 2),
      pong 9 2, pong 9 1] :=
  echo_replies_identified _ (by decide)

/-- Two requests with two identifiers: the reply to the second has the first. -/
theorem echo_reply_misdirected : ¬ Along stepEchoes Identified .init
    [.start (fun _ => .willing) false 10, .packet .willing (ping 7 1), .packet .willing (ping 8 2),
      pong 9 2] := by
  decide

end Tun2Http
