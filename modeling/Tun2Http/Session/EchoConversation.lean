import Tun2Http.Session.Conversation
import Tun2Http.Session.EchoChecksum

/-! Conversations by echo messages. Over any run of the loop a session passes on what is
asked between its two addresses, each request once and in order, and gives back what its
socket reads in the same way, under the identifier of the request that opened it. -/
namespace Tun2Http

open Machine

/-- From `before` to `after` the identifier is replaced, and with it the checksum. -/
structure Renamed (id : U16) (before after : List UInt8) : Prop where
  length : after.length = before.length
  identifier : 6 ≤ before.length → identifier after = id
  others : ∀ i, i < 2 ∨ 6 ≤ i → after.getD i 0 = before.getD i 0

/-- An echo request of an app, with the message that is passed on for it. -/
structure Query where
  version : Nat
  saddr : List UInt8
  daddr : List UInt8
  message : List UInt8
  passed : List UInt8
  deriving DecidableEq

/-- It is from the one end of the session to the other. -/
def Query.Between (q : Query) (u : IcmpSession) : Prop :=
  q.version = u.version ∧ q.saddr = u.saddr ∧ q.daddr = u.daddr

/-- The identifier is complemented on the way. -/
def Query.Complemented (q : Query) : Prop := Renamed (~~~ identifier q.message) q.message q.passed

/-- The echo request in a packet. -/
def Packet.query (pkt : Packet) (version payload : Nat) (span : Span) : Query where
  version := version
  saddr := ((readAddresses version).value pkt.mem).1
  daddr := ((readAddresses version).value pkt.mem).2
  message := (readBytes span.data span.datalen).value pkt.mem
  passed := pkt.echo version payload span

namespace EventLoop

/-- The echo request in a packet, where `handle_icmp` takes it. -/
def query (L : EventLoop) (pkt : Packet) : Option Query :=
  match (Tun2Http.handleIp L.context pkt.turns pkt.length).value pkt.mem with
  | .handler version protocol payload =>
      if protocol = ipprotoIcmp ∨ protocol = ipprotoIcmpv6 then
        ((Tun2Http.handleIcmp pkt.length version payload).value pkt.mem).map (pkt.query version payload)
      else none
  | _ => none

/-- What the session at `pointer` is asked: one of the list, or one that the packet opens. -/
def asked (L : EventLoop) (input : LoopInput) (pointer : Nat) : List Query :=
  match input with
  | .packet K pkt =>
      if pointer = L.next then
        if (L.handleIp K pkt).next = L.next then [] else (L.query pkt).toList
      else (L.shown input pointer).flatMap fun _ => (L.query pkt).toList
  | _ => []

end EventLoop

/-- What was passed to `sendto()`, newest first. -/
def requestsSent (log : List IcmpIo) : List (List UInt8) :=
  log.filterMap fun
    | .send message _ => some message
    | _ => none

/-- The messages that the socket gave, newest first. An empty one ends the session. -/
def echoesRead (log : List IcmpIo) : List (List UInt8) :=
  log.filterMap fun
    | .recv (.data bytes) => if bytes = [] then none else some bytes
    | _ => none

/-- The request that a session is shown. -/
def SessionInput.request : SessionInput → Option (List UInt8)
  | .echo _ message => some message
  | _ => none

/-- From `u` to `v` at most the clock and `stop` have changed. -/
def IcmpSession.Same (u v : IcmpSession) : Prop := v = { u with time := v.time, stop := v.stop }

theorem IcmpSession.Same.trans {u v w : IcmpSession} (hFirst : u.Same v) (hSecond : v.Same w) : u.Same w := by
  unfold IcmpSession.Same at hFirst hSecond ⊢
  rw [hFirst] at hSecond
  exact hSecond

/-! Messages under another identifier. -/

/-- Both ways a message is renamed. -/
theorem renamed_storeChecksum (csum : U16) (bytes : List UInt8) (id : U16) :
    Renamed id bytes (storeChecksum csum (storeLe16 bytes 4 id)) := by
  refine ⟨by rw [length_storeChecksum, length_storeLe16], fun hLong => ?_, fun i hi => ?_⟩
  · rw [identifier_storeChecksum]
    exact le16_storeLe16 id hLong
  · rw [storeChecksum, getD_storeLe16 _ _ (by omega) (by omega), getD_storeLe16 _ _ (by omega) (by omega)]

/-- The identifier of a message that is read from a packet. -/
theorem identifier_readBytes {count : Nat} (hLong : 6 ≤ count) (offset : Nat) (mem : Memory) :
    identifier ((readBytes offset count).value mem) = (le16 (offset + 4)).value mem := by
  have hByte : ∀ i, i < 6 → ((readBytes offset count).value mem).getD i 0 = mem (offset + i) := by
    intro i hi
    have hInside : i < ((readBytes offset count).value mem).length := by
      rw [length_readBytes]
      omega
    rw [List.getD_eq_getElem?_getD, List.getElem?_eq_getElem hInside, Option.getD_some]
    exact ((holds_readBytes mem offset count).get hInside).symm
  unfold identifier
  rw [value_le16, value_le16, packetMemory, packetMemory, hByte 4 (by decide), hByte 5 (by decide)]

/-- What `handle_icmp` takes is passed on with its identifier complemented. -/
theorem complemented_query {L : EventLoop} {pkt : Packet} {version payload : Nat} {protocol : UInt8}
    {span : Span} (hTakes : L.TakesIcmp pkt version payload protocol span) :
    (pkt.query version payload span).Complemented ∧
      identifier (pkt.query version payload span).message = (le16 (payload + 4)).value pkt.mem := by
  have hLong := length_of_hands hTakes.hands hTakes.icmp hTakes.taken
  have hData : span.data = payload := by
    have hTaken := hTakes.taken
    unfold Tun2Http.handleIcmp at hTaken
    rw [Reader.value_bind, Reader.value_ite] at hTaken
    split_ifs at hTaken
    · cases hTaken
    · simp only [Reader.value_bind, Reader.value_pure, Option.some.injEq] at hTaken
      rw [← hTaken]
  have hId : identifier (pkt.query version payload span).message = (le16 (payload + 4)).value pkt.mem := by
    rw [← hData]
    exact identifier_readBytes (by omega) _ _
  refine ⟨?_, hId⟩
  unfold Query.Complemented
  rw [hId]
  exact renamed_storeChecksum _ _ _

/-! What a session makes of its inputs. -/

namespace SessionData

theorem exists_icmp_of_run {s : SessionData} {shown : List SessionInput} {c : IcmpCell}
    (h : Machine.run treat s shown = icmp c) : ∃ b, s = icmp b := by
  induction shown generalizing s with
  | nil => exact ⟨c, h⟩
  | cons m rest ih =>
      obtain ⟨b, hB⟩ := ih h
      cases s with
      | icmp a => exact ⟨a, rfl⟩
      | tcp a => cases m <;> cases hB
      | udp a =>
          cases m with
          | allowed K =>
              unfold treat allowed at hB
              dsimp only at hB
              split_ifs at hB
          | _ => cases hB

end SessionData

/-- The session has passed on `requests`, and every message that it has read since. -/
structure Echoed (c d : IcmpCell) (requests : List (List UInt8)) : Prop where
  same : c.icmp.Same d.icmp
  log : ∃ calls, d.log = calls ++ c.log ∧ requestsSent calls = requests.reverse ∧
    written calls = (echoesRead calls).map (replyPacket c.icmp) ∧
    ∀ bytes ∈ echoesRead calls, bytes.length ≤ icmpMaxmsg c.icmp.version

namespace Echoed

variable {b c d : IcmpCell} {K : Kernel} {first second : List (List UInt8)}

theorem replyPacket_of_same (hSame : c.icmp.Same d.icmp) : replyPacket d.icmp = replyPacket c.icmp := by
  unfold replyPacket icmpReply
  rw [hSame]

theorem version_of_same (hSame : c.icmp.Same d.icmp) : d.icmp.version = c.icmp.version := by rw [hSame]

theorem trans (hFirst : Echoed b c first) (hSecond : Echoed c d second) : Echoed b d (first ++ second) := by
  obtain ⟨calls, hLog, hSent, hWritten, hShort⟩ := hFirst.log
  obtain ⟨more, hMore, hSentMore, hWrittenMore, hShortMore⟩ := hSecond.log
  refine ⟨hFirst.same.trans hSecond.same, more ++ calls, ?_, ?_, ?_, fun bytes hRead => ?_⟩
  · rw [hMore, hLog, List.append_assoc]
  · simp only [requestsSent, List.filterMap_append, List.reverse_append] at hSent hSentMore ⊢
    rw [hSentMore, hSent]
  · rw [replyPacket_of_same hFirst.same] at hWrittenMore
    simp only [written, echoesRead, List.filterMap_append, List.map_append] at hWritten hWrittenMore ⊢
    rw [hWrittenMore, hWritten]
  · simp only [echoesRead, List.filterMap_append] at hRead
    rcases List.mem_append.mp hRead with hLater | hEarlier
    · exact version_of_same hFirst.same ▸ hShortMore bytes hLater
    · exact hShort bytes hEarlier

/-- Calls that pass nothing on. -/
theorem silent (calls : List IcmpIo) (hSame : c.icmp.Same d.icmp) (hLog : d.log = calls ++ c.log)
    (hSent : requestsSent calls = []) (hWritten : written calls = []) (hRead : echoesRead calls = []) :
    Echoed c d [] := by
  refine ⟨hSame, calls, hLog, hSent, ?_, ?_⟩
  · rw [hWritten, hRead]
    rfl
  · rw [hRead]
    exact fun bytes hNone => absurd hNone List.not_mem_nil

theorem refl (c : IcmpCell) : Echoed c c [] := silent [] rfl rfl rfl rfl rfl

theorem forward (K : Kernel) (message : List UInt8) (c : IcmpCell) :
    Echoed c (forwardIcmp K message c) [message] := by
  unfold forwardIcmp
  dsimp only
  split
  · split_ifs
    · exact ⟨rfl, [.send message _, .time _], rfl, rfl, rfl, by simp [echoesRead]⟩
    · exact ⟨rfl, [.send message _, .time _], rfl, rfl, rfl, by simp [echoesRead]⟩
  · exact ⟨rfl, [.send message _, .time _], rfl, rfl, rfl, by simp [echoesRead]⟩

/-- A message that is read is cut at its longest length before it is renamed. -/
theorem replyPacket_take (u : IcmpSession) (arrived : List UInt8) :
    replyPacket u (arrived.take (icmpMaxmsg u.version)) = replyPacket u arrived := by
  unfold replyPacket
  rw [List.take_take, Nat.min_self]

theorem read (K : Kernel) (ev : EpollEvents) (c : IcmpCell) : Echoed c (checkIcmpSocket K ev c) [] := by
  unfold checkIcmpSocket
  dsimp only
  split_ifs
  · exact silent [.time _] rfl rfl rfl rfl rfl
  · split
    · split_ifs
      · exact silent [.recv (.error _), .time _] rfl rfl rfl rfl rfl
      · exact silent [.recv (.error _), .time _] rfl rfl rfl rfl rfl
    next arrived hRecv =>
      have hEchoed : ∀ whole, arrived.take (icmpMaxmsg c.icmp.version) ≠ [] → ∀ d : IcmpCell, c.icmp.Same d.icmp →
          d.log = [.tun (replyPacket c.icmp arrived) whole,
            .recv (.data (arrived.take (icmpMaxmsg c.icmp.version))), .time (K.time c.calls)] ++ c.log →
          Echoed c d [] := by
        intro whole hSome d hSame hLog
        have hRead : echoesRead [.tun (replyPacket c.icmp arrived) whole,
            .recv (.data (arrived.take (icmpMaxmsg c.icmp.version))), .time (K.time c.calls)] =
              [arrived.take (icmpMaxmsg c.icmp.version)] := by
          simp [echoesRead, hSome]
        refine ⟨hSame, _, hLog, rfl, ?_, ?_⟩
        · rw [hRead, List.map_singleton, replyPacket_take]
          rfl
        · rw [hRead]
          exact List.forall_mem_singleton.mpr (List.length_take_le _ _)
      split_ifs with hNone
      · rw [hNone]
        exact silent [.recv (.data []), .time _] rfl rfl rfl rfl rfl
      · exact hEchoed _ hNone _ rfl rfl
      · exact hEchoed _ hNone _ rfl rfl
  · exact refl c

theorem check (K : Kernel) (sessions maxsessions : Int) (c : IcmpCell) :
    Echoed c (checkIcmpSession K sessions maxsessions c).1 [] := by
  unfold checkIcmpSession
  dsimp only
  split_ifs
  · exact silent [.close, .time _] rfl rfl rfl rfl rfl
  · exact silent [.time _] rfl rfl rfl rfl rfl

/-- Whatever is shown to it, the session echoes it. -/
theorem treat (c : IcmpCell) (m : SessionInput) :
    ∃ d, (SessionData.icmp c).treat m = .icmp d ∧ Echoed c d m.request.toList := by
  cases m with
  | allowed K =>
      unfold SessionData.treat SessionData.allowed
      dsimp only
      split_ifs
      · exact ⟨_, rfl, refl c⟩
      · exact ⟨_, rfl, silent [] rfl rfl rfl rfl rfl⟩
  | monitor K => exact ⟨c, rfl, refl c⟩
  | check K sessions maxsessions => exact ⟨_, rfl, check K sessions maxsessions c⟩
  | event K ev => exact ⟨_, rfl, read K ev c⟩
  | echo K message => exact ⟨_, rfl, forward K message c⟩
  | datagram K mem source dest span => exact ⟨c, rfl, refl c⟩
  | segment K hdr data => exact ⟨c, rfl, refl c⟩

theorem run (c : IcmpCell) (shown : List SessionInput) :
    ∃ d, Machine.run SessionData.treat (.icmp c) shown = .icmp d ∧
      Echoed c d (shown.filterMap SessionInput.request) := by
  induction shown generalizing c with
  | nil => exact ⟨c, rfl, refl c⟩
  | cons m rest ih =>
      obtain ⟨b, hTreat, hFirst⟩ := treat c m
      obtain ⟨d, hRun, hRest⟩ := ih b
      refine ⟨d, by rw [run_cons, hTreat, hRun], ?_⟩
      have hRequests : (m :: rest).filterMap SessionInput.request =
          m.request.toList ++ rest.filterMap SessionInput.request := by
        cases hM : m.request <;> simp [hM]
      rw [hRequests]
      exact hFirst.trans hRest

end Echoed

/-- The session has passed on what was asked, and has given the app what was read. -/
structure Asked (asked : List Query) (c : IcmpCell) : Prop where
  version : c.icmp.version = 4 ∨ c.icmp.version = 6
  addressed : Addressed c.icmp.version c.icmp.saddr c.icmp.daddr
  queries : ∀ q ∈ asked, q.Between c.icmp ∧ q.Complemented
  sent : requestsSent c.log = (asked.map Query.passed).reverse
  answered : written c.log = (echoesRead c.log).map (replyPacket c.icmp)
  short : ∀ bytes ∈ echoesRead c.log, bytes.length ≤ icmpMaxmsg c.icmp.version

/-- More is asked, and passed on. -/
theorem Asked.echo {before more : List Query} {c d : IcmpCell} {requests : List (List UInt8)}
    (h : Asked before c) (hEchoed : Echoed c d requests) (hMore : more.map Query.passed = requests)
    (hQueries : ∀ q ∈ more, q.Between c.icmp ∧ q.Complemented) : Asked (before ++ more) d := by
  obtain ⟨calls, hLog, hSent, hWritten, hShort⟩ := hEchoed.log
  have hSame := hEchoed.same
  have hReply := Echoed.replyPacket_of_same hSame
  have hVersion := Echoed.version_of_same hSame
  have hEnds : d.icmp.saddr = c.icmp.saddr ∧ d.icmp.daddr = c.icmp.daddr := by
    rw [hSame]
    exact ⟨rfl, rfl⟩
  refine ⟨hVersion ▸ h.version, ?_, fun q hq => ?_, ?_, ?_, fun bytes hRead => ?_⟩
  · rw [hVersion, hEnds.1, hEnds.2]
    exact h.addressed
  · have hOld : q.Between c.icmp ∧ q.Complemented := by
      rcases List.mem_append.mp hq with hBefore | hNew
      · exact h.queries q hBefore
      · exact hQueries q hNew
    refine ⟨?_, hOld.2⟩
    unfold Query.Between
    rw [hVersion, hEnds.1, hEnds.2]
    exact hOld.1
  · simp only [requestsSent, hLog, List.filterMap_append, List.map_append, List.reverse_append] at hSent ⊢
    rw [hSent, hMore]
    exact congrArg _ h.sent
  · have hOld := h.answered
    rw [hReply]
    simp only [written, echoesRead, hLog, List.filterMap_append, List.map_append] at hWritten hOld ⊢
    rw [hWritten, hOld]
  · rw [hVersion]
    simp only [echoesRead, hLog, List.filterMap_append] at hRead
    rcases List.mem_append.mp hRead with hNew | hOld
    · exact hShort bytes hNew
    · exact h.short bytes hOld

namespace EventLoop

variable {L : EventLoop} {K : Kernel} {pkt : Packet}

theorem query_of_takes {version payload : Nat} {protocol : UInt8} {span : Span}
    (hTakes : L.TakesIcmp pkt version payload protocol span) :
    L.query pkt = some (pkt.query version payload span) := by
  unfold query
  rw [show (Tun2Http.handleIp L.context pkt.turns pkt.length).value pkt.mem = _ from hTakes.hands]
  dsimp only
  rw [if_pos hTakes.icmp, hTakes.taken]
  rfl

/-- What is for an ICMP session is an echo request between its ends. -/
theorem query_of_addressed {u : NgSession} {m : SessionInput} {c : IcmpCell}
    (hFound : L.addressed K pkt = some (u, m)) (hData : u.data = .icmp c) :
    ∃ q, L.query pkt = some q ∧ m.request = some q.passed ∧ q.Between c.icmp ∧ q.Complemented := by
  have hNoKey : ∀ key, L.search key ≠ some u := by
    intro key hSearch
    have hKey := (search_key hSearch).2
    rw [hData] at hKey
    cases hKey
  unfold addressed at hFound
  split at hFound
  next version protocol payload hHands =>
    split_ifs at hFound with hIcmp hUdp
    · unfold addressedIcmp at hFound
      split at hFound
      · cases hFound
      next span hTaken =>
        obtain ⟨s, hSearch, hEq⟩ := Option.map_eq_some_iff.mp hFound
        cases hEq
        have hEnds := List.find?_some hSearch
        rw [hData] at hEnds
        simp only [Bool.and_eq_true, decide_eq_true_eq] at hEnds
        obtain ⟨-, hVersion, hSaddr, hDaddr⟩ := hEnds
        have hTakes : L.TakesIcmp pkt version payload protocol span := ⟨hHands, hIcmp, hTaken⟩
        exact ⟨_, query_of_takes hTakes, rfl, ⟨hVersion.symm, hSaddr.symm, hDaddr.symm⟩,
          (complemented_query hTakes).1⟩
    · unfold addressedUdp at hFound
      split at hFound
      · cases hFound
      · obtain ⟨s, hSearch, hEq⟩ := Option.map_eq_some_iff.mp hFound
        cases hEq
        exact absurd hSearch (hNoKey _)
    · unfold addressedTcp at hFound
      split at hFound
      · cases hFound
      · obtain ⟨s, hSearch, hEq⟩ := Option.map_eq_some_iff.mp hFound
        cases hEq
        exact absurd hSearch (hNoKey _)
  · cases hFound

/-- Only packets ask. -/
theorem request_of_shown {u : NgSession} {input : LoopInput} (hOther : ∀ K pkt, input ≠ .packet K pkt)
    {m : SessionInput} (hm : m ∈ L.shown input u.pointer) : m.request = none := by
  unfold shown at hm
  split_ifs at hm
  · cases input with
    | start kernels fwd53 maxsessions =>
        rw [List.mem_singleton.mp hm]
        rfl
    | pass kernels check =>
        rcases List.mem_cons.mp hm with rfl | hCheck
        · rfl
        · split_ifs at hCheck
          · rw [List.mem_singleton.mp hCheck]
            rfl
          · cases hCheck
    | packet K pkt => exact absurd rfl (hOther K pkt)
    | event K registration ev =>
        dsimp only at hm
        split_ifs at hm
        · rw [List.mem_singleton.mp hm]
          rfl
        · cases hm
    | clear => cases hm
  · cases hm

/-- What an ICMP session is asked is what it is shown. -/
theorem asked_of_known (h : Sound L) {u : NgSession} {c : IcmpCell} (hKnown : u ∈ L.known)
    (hData : u.data = .icmp c) (input : LoopInput) :
    (L.asked input u.pointer).map Query.passed = (L.shown input u.pointer).filterMap SessionInput.request ∧
      ∀ q ∈ L.asked input u.pointer, q.Between c.icmp ∧ q.Complemented := by
  by_cases hPacket : ∃ K pkt, input = .packet K pkt
  · obtain ⟨K, pkt, rfl⟩ := hPacket
    have hAsked : L.asked (.packet K pkt) u.pointer =
        (L.shown (.packet K pkt) u.pointer).flatMap fun _ => (L.query pkt).toList :=
      if_neg (h.pointer_lt hKnown).ne
    rw [hAsked]
    rcases List.mem_append.mp hKnown with hIn | hFreed
    · rw [shown_of_mem hIn]
      dsimp only
      rcases parted_handleIp L K pkt with ⟨s, m, hFound, hs, -⟩ | ⟨hNone, -⟩
      · rw [hFound]
        dsimp only
        split_ifs with hPointer
        · obtain rfl := h.eq_of_pointer hIn hs hPointer
          obtain ⟨q, hQuery, hRequest, hBetween⟩ := query_of_addressed hFound hData
          rw [hQuery]
          refine ⟨by simp [hRequest], fun p hp => ?_⟩
          obtain rfl : p = q := by simpa using hp
          exact hBetween
        · exact ⟨rfl, fun q hq => absurd hq List.not_mem_nil⟩
      · rw [hNone]
        exact ⟨rfl, fun q hq => absurd hq List.not_mem_nil⟩
    · rw [h.shown_freed hFreed]
      exact ⟨rfl, fun q hq => absurd hq List.not_mem_nil⟩
  · have hOther : ∀ K pkt, input ≠ .packet K pkt := fun K pkt hSame => hPacket ⟨K, pkt, hSame⟩
    have hAsked : L.asked input u.pointer = [] := by
      cases input with
      | packet K pkt => exact absurd rfl (hOther K pkt)
      | _ => rfl
    have hNothing : (L.shown input u.pointer).filterMap SessionInput.request = [] :=
      List.filterMap_eq_nil_iff.mpr fun m hm => request_of_shown hOther hm
    rw [hAsked, hNothing]
    exact ⟨rfl, fun q hq => absurd hq List.not_mem_nil⟩

theorem asked_of_fresh (h : Sound L) {input : LoopInput} {p : Nat}
    (hFresh : (stepLoop L input).next ≤ p) : L.asked input p = [] := by
  have hOld : L.next ≤ p := (next_le_run L [input]).trans hFresh
  cases input with
  | packet K pkt =>
      unfold asked
      dsimp only
      rw [shown_of_fresh h hOld]
      split_ifs with hFirst hSame
      · rfl
      · have hGrows := (grows_handleIp L K pkt).next
        have hNext : (L.handleIp K pkt).next ≤ p := hFresh
        omega
      · rfl
  | _ => rfl

/-- The identifier of the session is that of the first request. -/
def OpenedBy (asked : List Query) (c : IcmpCell) : Prop :=
  asked.head?.map (identifier ·.message) = some c.icmp.id

/-- The packet that opens a session asks first. -/
theorem asked_opening {input : LoopInput} {p : Nat} {c : IcmpCell} (hBegins : L.Begins input p (.icmp c))
    (hNew : (stepLoop L input).next ≠ L.next) : Asked (L.asked input p) c ∧ OpenedBy (L.asked input p) c := by
  cases hBegins with
  | @icmp K pkt version payload protocol span b hTakes hB =>
      have hAsked : L.asked (.packet K pkt) L.next = [] ++ [pkt.query version payload span] := by
        unfold asked
        dsimp only
        rw [if_pos rfl, if_neg (show (L.handleIp K pkt).next ≠ L.next from hNew), query_of_takes hTakes]
        rfl
      obtain ⟨hComplemented, hId⟩ := complemented_query hTakes
      unfold newIcmp at hB
      dsimp only at hB
      split_ifs at hB
      have hCell := Option.some.inj hB
      have hStart : Asked [] b := by
        rw [← hCell]
        exact ⟨handleIp_version hTakes.hands, addressed_readAddresses _ _,
          fun q hq => absurd hq List.not_mem_nil, rfl, rfl, fun bytes hRead => absurd hRead List.not_mem_nil⟩
      have hBetween : (pkt.query version payload span).Between b.icmp := by
        rw [← hCell]
        exact ⟨rfl, rfl, rfl⟩
      have hFirst : b.icmp.id = (le16 (payload + 4)).value pkt.mem := by rw [← hCell]
      rw [hAsked]
      refine ⟨hStart.echo (Echoed.forward K (pkt.echo version payload span) b) rfl
        (List.forall_mem_singleton.mpr ⟨hBetween, hComplemented⟩), ?_⟩
      unfold OpenedBy
      rw [forwardIcmp_id, hFirst]
      exact congrArg some hId

/-- What the loop shows to a session continues the conversation. -/
theorem asked_shown (h : Sound L) (input : LoopInput) {u : NgSession} (hKnown : u ∈ L.known)
    {before : List Query} (hBefore : ∀ c, u.data = .icmp c → Asked before c ∧ OpenedBy before c) {c : IcmpCell}
    (hRun : run SessionData.treat u.data (L.shown input u.pointer) = .icmp c) :
    Asked (before ++ L.asked input u.pointer) c ∧ OpenedBy (before ++ L.asked input u.pointer) c := by
  obtain ⟨b, hB⟩ := SessionData.exists_icmp_of_run hRun
  obtain ⟨hAsked, hOpened⟩ := hBefore b hB
  obtain ⟨d, hD, hEchoed⟩ := Echoed.run b (L.shown input u.pointer)
  rw [hB, hD] at hRun
  cases hRun
  obtain ⟨hRequests, hQueries⟩ := asked_of_known h hKnown hB input
  refine ⟨hAsked.echo hEchoed hRequests hQueries, ?_⟩
  have hSame : c.icmp.id = b.icmp.id := by rw [hEchoed.same]
  unfold OpenedBy at hOpened ⊢
  rw [hSame, ← hOpened]
  cases before with
  | nil => cases hOpened
  | cons first rest => rfl

end EventLoop

/-! The packets of `write_icmp`. -/

/-- The packet reads as an echo message from the one end to the other, and has the message
under the identifier of the session. -/
structure Restores (u : IcmpSession) (arrived : List UInt8) (packet : IcmpPacket) : Prop where
  addresses : (readAddresses u.version).value (packetMemory packet.bytes) = (u.daddr, u.saddr)
  message : Renamed u.id arrived (packet.bytes.drop (ipHeaderLength u.version))
  ipLength : IpLengthReal u.version packet.bytes
  headerSum : u.version = 4 → onesSum (packet.bytes.take 20) = 0xFFFF
  handled : ∀ X turns, (handleIp X turns packet.bytes.length).value (packetMemory packet.bytes) =
    (handlePayload X packet.bytes.length u.version packet.protocol (ipHeaderLength u.version)).value
      (packetMemory packet.bytes)

theorem restores_replyPacket {u : IcmpSession} {arrived : List UInt8} (hVersion : u.version = 4 ∨ u.version = 6)
    (hAddressed : Addressed u.version u.saddr u.daddr) (hShort : arrived.length ≤ icmpMaxmsg u.version) :
    Restores u arrived (replyPacket u arrived) := by
  set packet := replyPacket u arrived with hPacket
  have hEnds : Addressed packet.version packet.saddr packet.daddr :=
    addressed_addressOf hAddressed.saddr.ge hAddressed.daddr.ge
  have hSaddr : addressOf u.version u.saddr = u.saddr := addressOf_of_length hAddressed.saddr
  have hDaddr : addressOf u.version u.daddr = u.daddr := addressOf_of_length hAddressed.daddr
  have hRenamed : Renamed u.id arrived packet.data := by
    have hWhole : arrived.take (icmpMaxmsg u.version) = arrived := List.take_of_length_le hShort
    rw [hPacket]
    unfold replyPacket icmpReply
    dsimp only
    rw [hWhole]
    exact renamed_storeChecksum _ _ _
  have hLength : packet.bytes.length = ipHeaderLength u.version + packet.data.length :=
    IcmpPacket.length_bytes hEnds
  have hFits : ipHeaderLength u.version + packet.data.length < 2 ^ 16 := by
    have hMaxmsg : icmpMaxmsg u.version + 8 + ipHeaderLength u.version = 65535 := by
      unfold icmpMaxmsg ipHeaderLength
      split_ifs <;> rfl
    have hData := hRenamed.length
    omega
  have hIp : Holds (packetMemory packet.bytes) 0
      (ipHeader u.version packet.protocol packet.saddr packet.daddr packet.data.length) :=
    (holds_append.mp (holds_getD packet.bytes)).1
  have hFront : (ipHeader packet.version packet.protocol packet.saddr packet.daddr packet.data.length).length =
      ipHeaderLength u.version := length_ipHeader hEnds _ _
  refine ⟨?_, ?_, IcmpPacket.ipLengthReal hEnds (hLength ▸ hFits), fun hFour => ?_, fun X turns => ?_⟩
  · exact (readAddresses_ipHeader hEnds hIp).trans (Prod.ext hDaddr hSaddr)
  · rw [IcmpPacket.bytes, ← hFront, List.drop_left]
    exact hRenamed
  · have hTwenty : ipHeaderLength u.version = 20 := if_pos hFour
    rw [IcmpPacket.bytes, ← hTwenty, ← hFront, List.take_left]
    exact onesSum_ipHeader hEnds hFour
  · have hUpper : isUpperLayer packet.protocol := by
      unfold IcmpPacket.protocol
      split_ifs <;> decide
    rw [hLength]
    exact handleIp_ipHeader hVersion hUpper hFits hIp X turns

/-- Every ICMP session of a run has passed on each request between its two addresses once and
in order, with the identifier complemented. Each message that arrived was given to the app
once and in order, from the other end, under the identifier of the request that opened the
session. -/
theorem echoes_conversed (inputs : List LoopInput) :
    ∀ s ∈ (run stepLoop .init inputs).known, ∀ c, s.data = .icmp c →
      let asked := history stepLoop EventLoop.asked s.pointer .init inputs
      (∀ q ∈ asked, q.Between c.icmp ∧ q.Complemented) ∧
        asked.head?.map (identifier ·.message) = some c.icmp.id ∧
        requestsSent c.log = (asked.map Query.passed).reverse ∧
        written c.log = (echoesRead c.log).map (replyPacket c.icmp) ∧
        ∀ bytes ∈ echoesRead c.log, Restores c.icmp bytes (replyPacket c.icmp bytes) := by
  intro s hKnown c hData
  have hAlways : Along stepLoop (fun _ _ => True) .init inputs := along_of_forall _ fun _ _ => trivial
  have hRun : Asked (history stepLoop EventLoop.asked s.pointer .init inputs) c ∧
      EventLoop.OpenedBy (history stepLoop EventLoop.asked s.pointer .init inputs) c :=
    EventLoop.told_of_known
      (P := fun asked data => ∀ c, data = .icmp c → Asked asked c ∧ EventLoop.OpenedBy asked c)
      (fun L input _ h u hu before hBefore c hRun => EventLoop.asked_shown h input hu hBefore hRun)
      (fun L input data _ hBegins hNew c hData => EventLoop.asked_opening (hData ▸ hBegins) hNew)
      (fun L input h p hFresh => EventLoop.asked_of_fresh h hFresh)
      hAlways hKnown c hData
  obtain ⟨hAsked, hOpened⟩ := hRun
  exact ⟨hAsked.queries, hOpened, hAsked.sent, hAsked.answered, fun bytes hRead =>
    restores_replyPacket hAsked.version hAsked.addressed (hAsked.short bytes hRead)⟩

/-- Two requests, and a reply. -/
def pingInputs : List LoopInput :=
  [.start (fun _ => .willing) false 10, .packet .willing (ping 7 1), .packet .willing (ping 7 2), pong 9 2]

/-- Their session. -/
def pingSession : NgSession := (run stepLoop .init pingInputs).ngSession.head (by decide)

theorem echoes_conversed_ping : ∃ c, pingSession.data = .icmp c ∧
    let asked := history stepLoop EventLoop.asked pingSession.pointer .init pingInputs
    (∀ q ∈ asked, q.Between c.icmp ∧ q.Complemented) ∧
      asked.head?.map (identifier ·.message) = some c.icmp.id ∧
      requestsSent c.log = (asked.map Query.passed).reverse ∧
      written c.log = (echoesRead c.log).map (replyPacket c.icmp) ∧
      ∀ bytes ∈ echoesRead c.log, Restores c.icmp bytes (replyPacket c.icmp bytes) := by
  have hIn : pingSession ∈ (run stepLoop .init pingInputs).ngSession := List.head_mem _
  have hIcmp : pingSession.data.icmpCell.isSome = true := by decide
  cases hData : pingSession.data with
  | icmp c => exact ⟨c, rfl, echoes_conversed pingInputs pingSession (List.mem_append_left _ hIn) c hData⟩
  | udp c =>
      rw [hData] at hIcmp
      cases hIcmp
  | tcp c =>
      rw [hData] at hIcmp
      cases hIcmp

end Tun2Http
