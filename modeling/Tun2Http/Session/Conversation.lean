import Tun2Http.Session.Datagram
import Tun2Http.Session.Flows

/-! Conversations over UDP. Over any run of the loop a session passes on what its app says,
each datagram once and in order, and what its socket reads goes to the app in the same
way; only a DHCP client is answered by the session itself. -/
namespace Tun2Http

open Machine

namespace EventLoop

variable {L : EventLoop}

theorem shown_of_fresh (h : Sound L) {p : Nat} (hFresh : L.next ≤ p) (input : LoopInput) :
    L.shown input p = [] := by
  refine if_neg fun hIn => ?_
  obtain ⟨t, ht, rfl⟩ := List.mem_map.mp hIn
  exact absurd (h.fresh t ht) (not_lt.mpr hFresh)

/-- What holds of a session and all that it was told. The packet that opens the session
begins with it, what the loop shows to the session keeps it, and nothing is told to
sessions to come. -/
theorem told_of_known {μ : Type*} {told : EventLoop → LoopInput → Nat → List μ}
    {P : List μ → SessionData → Prop} {ok : EventLoop → LoopInput → Prop}
    (hShown : ∀ L input, ok L input → Sound L → ∀ u ∈ L.known, ∀ before, P before u.data →
      P (before ++ told L input u.pointer) (run SessionData.treat u.data (L.shown input u.pointer)))
    (hOpening : ∀ L input data, ok L input → L.Begins input L.next data →
      (stepLoop L input).next ≠ L.next → P (told L input L.next) data)
    (hFresh : ∀ L input, Sound L → ∀ p, (stepLoop L input).next ≤ p → told L input p = [])
    {inputs : List LoopInput} (hRun : Along stepLoop ok .init inputs) {s : NgSession}
    (hKnown : s ∈ (run stepLoop .init inputs).known) :
    P (history stepLoop told s.pointer .init inputs) s.data := by
  refine history_of_parts Has (fun L p => L.next ≤ p) (fun L i (h : Sound L) => h.step i)
    (fun L i hOk h p b hHas => ?_) (fun L i h p hLater => ?_) sound_init ?_ hRun hKnown
  · rcases continues_step h i hHas with ⟨u, hu, hPointer, hRun⟩ | hBegins
    · have hPart : (⟨p, b⟩ : NgSession).pointer = u.pointer := hPointer.symm
      dsimp only at hPart hRun
      subst hPart hRun
      exact Or.inl ⟨u.data, hu, fun before hBefore => hShown L i hOk h u hu before hBefore⟩
    · obtain rfl : p = L.next := hBegins.pointer_eq
      have hLater := (h.step i).pointer_lt hHas
      exact Or.inr ⟨le_rfl, hOpening L i b hOk hBegins hLater.ne'⟩
  · exact ⟨(next_le_run L [i]).trans hLater, hFresh L i h p hLater⟩
  · exact fun p a hNone => absurd hNone List.not_mem_nil

end EventLoop

/-- The datagrams that the socket gave, newest first. An empty one ends the session. -/
def arrived (log : List UdpIo) : List (List UInt8) :=
  log.filterMap fun
    | .recv (.data bytes) => if bytes = [] then none else some bytes
    | _ => none

/-- The datagram that a session is shown. -/
def SessionInput.words : SessionInput → Option (List UInt8)
  | .datagram _ mem _ _ span => some ((readBytes span.data span.datalen).value mem)
  | _ => none

namespace EventLoop

/-- The datagram that a packet carries, where `handle_udp` takes it. -/
def datagram (L : EventLoop) (pkt : Packet) : Option (List UInt8) :=
  match (Tun2Http.handleIp L.context pkt.turns pkt.length).value pkt.mem with
  | .handler version protocol payload =>
      if protocol = ipprotoUdp then
        ((Tun2Http.handleUdp L.context pkt.length version payload).value pkt.mem).map fun span =>
          (readBytes span.data span.datalen).value pkt.mem
      else none
  | _ => none

/-- What the app says to the session at `pointer`, with the key of the packet: to a session
of the list, or to the one that the packet opens. -/
def said (L : EventLoop) (input : LoopInput) (pointer : Nat) : List (Option Key × List UInt8) :=
  match input with
  | .packet K pkt =>
      if pointer = L.next then
        if (L.handleIp K pkt).next = L.next then [] else (L.datagram pkt).toList.map (L.packetKey pkt, ·)
      else ((L.shown input pointer).filterMap SessionInput.words).map (L.packetKey pkt, ·)
  | _ => []

end EventLoop

/-- `parse_dns_response` comes back from what the event has for the session. -/
def ReadReturns (K : Kernel) (ev : EpollEvents) (c : UdpCell) : Prop :=
  ev.epollerr = false → ev.epollin = true →
    ∀ data, K.recv (c.touch K).calls = .data data → ¬ ResponseHangs K c (data.take c.udp.mss.toNat)

/-- The session comes back from the names that it is shown. -/
def SessionInput.Returns (c : UdpCell) : SessionInput → Prop
  | .event K ev => ReadReturns K ev c
  | .datagram _ mem _ dest span => ¬ QueryHangs mem dest span.data span.datalen
  | _ => True

namespace EventLoop

end EventLoop

/-- The session has passed on what was said, and has given the app what arrived. -/
structure Converses (said : List (Option Key × List UInt8)) (c : UdpCell) : Prop where
  fitted : c.udp.Fitted
  keys : ∀ m ∈ said, m.1 = (SessionData.udp c).key
  passed : sentTo c.log = (said.map Prod.snd).reverse
  answered : (tunWrites c.log).map Prod.fst = (arrived c.log).map (buildUdp c.udp)
  short : ∀ data ∈ arrived c.log, data.length ≤ (udpMaxmsg c.udp.version).toNat

/-- Neither end is a port of DHCP. -/
def UdpSession.Plain (u : UdpSession) : Prop := u.source ≠ 68 ∧ u.dest ≠ 67

namespace Converses

variable {K : Kernel} {c d : UdpCell} {said : List (Option Key × List UInt8)}

theorem key_of_same (hSame : c.udp.Same d.udp) : (SessionData.udp d).key = (SessionData.udp c).key := by
  simp only [SessionData.key]
  rw [hSame]

theorem version_of_same (hSame : c.udp.Same d.udp) : d.udp.version = c.udp.version := by rw [hSame]

theorem buildUdp_of_same (hSame : c.udp.Same d.udp) (data : List UInt8) :
    buildUdp d.udp data = buildUdp c.udp data := by
  unfold buildUdp
  rw [hSame]

/-- Calls that say nothing and write nothing. -/
theorem silent (h : Converses said c) (hSame : c.udp.Same d.udp) {calls : List UdpIo}
    (hLog : d.log = calls ++ c.log) (hSent : sentTo calls = []) (hWrites : tunWrites calls = [])
    (hArrived : arrived calls = []) : Converses said d := by
  have hLogs : sentTo d.log = sentTo c.log ∧ tunWrites d.log = tunWrites c.log ∧
      arrived d.log = arrived c.log := by
    simp only [sentTo, tunWrites, arrived] at hSent hWrites hArrived ⊢
    simp only [hLog, List.filterMap_append, hSent, hWrites, hArrived, List.nil_append, and_self]
  refine ⟨h.fitted.same hSame, ?_, ?_, ?_, ?_⟩
  · rw [key_of_same hSame]
    exact h.keys
  · rw [hLogs.1]
    exact h.passed
  · rw [hLogs.2.1, hLogs.2.2, h.answered]
    exact List.map_congr_left fun data _ => (buildUdp_of_same hSame data).symm
  · rw [hLogs.2.2, version_of_same hSame]
    exact h.short

/-- A datagram that is passed on. -/
theorem send (h : Converses said c) (message : List UInt8) :
    Converses (said ++ [((SessionData.udp c).key, message)]) (sendUdp K message c) := by
  have hSame := same_sendUdp K message c
  have hLog : (sendUdp K message c).log =
      [.send message (K.send (c.touch K).calls), .time (K.time c.calls)] ++ c.log := by
    unfold sendUdp
    dsimp only
    split
    · split_ifs <;> simp_all [UdpCell.finish, UdpCell.call, UdpCell.touch]
    · simp_all [UdpCell.call, UdpCell.touch]
  refine ⟨h.fitted.same hSame, fun m hm => ?_, ?_, ?_, ?_⟩
  · rw [key_of_same hSame]
    rcases List.mem_append.mp hm with hOld | hNew
    · exact h.keys m hOld
    · rw [List.mem_singleton.mp hNew]
  · rw [List.map_append, List.reverse_append, ← h.passed, hLog]
    rfl
  · rw [hLog]
    show (tunWrites c.log).map Prod.fst = (arrived c.log).map (buildUdp (sendUdp K message c).udp)
    rw [h.answered]
    exact List.map_congr_left fun data _ => (buildUdp_of_same hSame data).symm
  · rw [hLog, version_of_same hSame]
    exact h.short

/-- The calls of a read: at most one datagram goes through. -/
theorem checkUdpSocket_log {K : Kernel} {ev : EpollEvents} {c : UdpCell} (hReturns : ReadReturns K ev c) :
    (∃ calls, (checkUdpSocket K ev c).log = calls ++ c.log ∧
      sentTo calls = [] ∧ tunWrites calls = [] ∧ arrived calls = []) ∨
    ∃ bytes whole now, bytes ≠ [] ∧ bytes.length ≤ c.udp.mss.toNat ∧ (checkUdpSocket K ev c).log =
      [.tun (buildUdp c.udp bytes) whole, .recv (.data bytes), .time now] ++ c.log := by
  unfold checkUdpSocket
  dsimp only
  split_ifs with hError hIn
  · exact Or.inl ⟨[.time _], rfl, rfl, rfl, rfl⟩
  · split
    · split_ifs
      · exact Or.inl ⟨[.recv (.error _), .time _], rfl, rfl, rfl, rfl⟩
      · exact Or.inl ⟨[.recv (.error _), .time _], rfl, rfl, rfl, rfl⟩
    next bytes hRecv =>
      split_ifs with hNone hHangs
      · rw [hNone]
        exact Or.inl ⟨[.recv (.data []), .time _], rfl, rfl, rfl, rfl⟩
      · exact absurd ((responseHangs_iff K c _).mp hHangs) (hReturns (Bool.not_eq_true _ ▸ hError) hIn bytes hRecv)
      · exact Or.inr ⟨_, _, _, hNone, List.length_take_le _ _, rfl⟩
      · exact Or.inr ⟨_, _, _, hNone, List.length_take_le _ _, rfl⟩
  · exact Or.inl ⟨[], rfl, rfl, rfl, rfl⟩

/-- What is read goes to the app. -/
theorem read (h : Converses said c) {ev : EpollEvents} (hReturns : ReadReturns K ev c) :
    Converses said (checkUdpSocket K ev c) := by
  have hSame := same_checkUdpSocket K ev c
  rcases checkUdpSocket_log hReturns with
    ⟨calls, hLog, hSent, hWrites, hArrived⟩ | ⟨bytes, whole, now, hSome, hShort, hLog⟩
  · exact h.silent hSame hLog hSent hWrites hArrived
  · have hArrived : arrived ([.tun (buildUdp c.udp bytes) whole, .recv (.data bytes), .time now] ++ c.log) =
        bytes :: arrived c.log := by
      simp [arrived, hSome]
    refine ⟨h.fitted.same hSame, ?_, ?_, ?_, ?_⟩
    · rw [key_of_same hSame]
      exact h.keys
    · rw [hLog]
      exact h.passed
    · rw [hLog, hArrived, List.map_cons, buildUdp_of_same hSame]
      show buildUdp c.udp bytes :: (tunWrites c.log).map Prod.fst = _
      rw [h.answered]
      exact congrArg _ (List.map_congr_left fun data _ => (buildUdp_of_same hSame data).symm)
    · rw [hLog, hArrived, version_of_same hSame]
      refine List.forall_mem_cons.mpr ⟨?_, h.short⟩
      rwa [← h.fitted.mss]

/-- A check looks at the clock, and may close the socket. -/
theorem check (h : Converses said c) (sessions maxsessions : Int) :
    Converses said (checkUdpSession K sessions maxsessions c).1 := by
  have hSame := same_checkUdpSession K sessions maxsessions c
  have hTimeout : ∀ timeout now, ∀ d : UdpCell, (udpTimeout timeout now d).log = d.log := by
    intro timeout now d
    unfold udpTimeout
    split_ifs <;> rfl
  have hDrop : ∀ d : UdpCell, (udpDropCounts d).log = d.log := by
    intro d
    unfold udpDropCounts
    split_ifs <;> rfl
  have hFinished : ∀ d : UdpCell, (udpFinished K d).log = d.log ∨ ∃ now, (udpFinished K d).log =
      [.time now, .close] ++ d.log := by
    intro d
    unfold udpFinished
    split_ifs
    · exact Or.inr ⟨_, rfl⟩
    · exact Or.inl rfl
  have hLog : (checkUdpSession K sessions maxsessions c).1.log = (udpFinished K
      (udpTimeout (getUdpTimeout c.udp sessions maxsessions) (K.time c.calls)
        (c.call (.time (K.time c.calls))))).log :=
    hDrop _
  rcases hFinished (udpTimeout (getUdpTimeout c.udp sessions maxsessions) (K.time c.calls)
    (c.call (.time (K.time c.calls)))) with hKept | ⟨now, hClosed⟩
  · rw [hKept, hTimeout] at hLog
    exact h.silent hSame (show _ = [.time (K.time c.calls)] ++ c.log from hLog) rfl rfl rfl
  · rw [hClosed, hTimeout] at hLog
    exact h.silent hSame (show _ = [.time now, .close, .time (K.time c.calls)] ++ c.log from hLog) rfl rfl rfl

end Converses

/-- A datagram that is shown to the session is from its app to its server. -/
def SessionInput.Of (u : UdpSession) : SessionInput → Prop
  | .datagram _ _ source dest _ => source = u.source.toNat ∧ dest = u.dest.toNat
  | _ => True

namespace Converses

variable {c d : UdpCell} {said : List (Option Key × List UInt8)} {m : SessionInput}

theorem ports_of_same (hSame : c.udp.Same d.udp) : d.udp.source = c.udp.source ∧ d.udp.dest = c.udp.dest := by
  rw [hSame]
  exact ⟨rfl, rfl⟩

theorem of_of_same (hSame : c.udp.Same d.udp) (hOf : m.Of c.udp) : m.Of d.udp := by
  obtain ⟨hSource, hDest⟩ := ports_of_same hSame
  cases m with
  | datagram K mem source dest span => exact ⟨hSource ▸ hOf.1, hDest ▸ hOf.2⟩
  | _ => trivial

/-- Outside DHCP a datagram is sent. -/
theorem forwardUdp_of_plain (hPlain : c.udp.Plain) (K : Kernel) {mem : Memory} {data datalen : Nat}
    (hReturns : ¬ QueryHangs mem c.udp.dest.toNat data datalen) :
    forwardUdp K mem c.udp.source.toNat c.udp.dest.toNat data datalen c =
      sendUdp K ((readBytes data datalen).value mem) c := by
  have hPorts : ¬ (c.udp.source.toNat = 68 ∨ c.udp.dest.toNat = 67) := by
    rintro (hClient | hServer)
    · exact hPlain.1 (BitVec.eq_of_toNat_eq hClient)
    · exact hPlain.2 (BitVec.eq_of_toNat_eq hServer)
  unfold forwardUdp
  dsimp only
  rw [if_neg hReturns, if_neg hPorts]

/-- Whatever is shown to it, the session converses. -/
theorem treat (h : Converses said c) (hPlain : c.udp.Plain) (hOf : m.Of c.udp) (hReturns : m.Returns c) :
    ∃ d, (SessionData.udp c).treat m = .udp d ∧ c.udp.Same d.udp ∧
      Converses (said ++ m.words.toList.map ((SessionData.udp c).key, ·)) d := by
  have hSilent : ∀ d, Converses said d → Converses (said ++ []) d := fun d hd => by rwa [List.append_nil]
  cases m with
  | allowed K =>
      unfold SessionData.treat SessionData.allowed
      dsimp only
      split_ifs
      · exact ⟨_, rfl, rfl, hSilent _ (h.silent (d := c.finish) rfl (show _ = [] ++ c.log from rfl) rfl rfl rfl)⟩
      · exact ⟨_, rfl, rfl, hSilent _ h⟩
  | monitor K => exact ⟨c, rfl, rfl, hSilent _ h⟩
  | check K sessions maxsessions =>
      exact ⟨_, rfl, same_checkUdpSession K sessions maxsessions c, hSilent _ (h.check sessions maxsessions)⟩
  | event K ev =>
      unfold SessionData.treat SessionData.event
      dsimp only
      split_ifs
      · exact ⟨_, rfl, same_checkUdpSocket K ev c, hSilent _ (h.read hReturns)⟩
      · exact ⟨_, rfl, rfl, hSilent _ h⟩
  | echo K message => exact ⟨c, rfl, rfl, hSilent _ h⟩
  | datagram K mem source dest span =>
      obtain ⟨rfl, rfl⟩ := hOf
      refine ⟨_, rfl, ?_, ?_⟩
      · rw [forwardUdp_of_plain hPlain K hReturns]
        exact same_sendUdp K _ c
      · rw [forwardUdp_of_plain hPlain K hReturns]
        exact h.send _
  | segment K hdr data => exact ⟨c, rfl, rfl, hSilent _ h⟩

theorem run (h : Converses said c) (hPlain : c.udp.Plain) {shown : List SessionInput}
    (hOf : ∀ m ∈ shown, m.Of c.udp)
    (hReturns : Along SessionData.treat (fun data m => ∀ c, data = .udp c → m.Returns c) (.udp c) shown) :
    ∃ d, Machine.run SessionData.treat (.udp c) shown = .udp d ∧ c.udp.Same d.udp ∧
      Converses (said ++ (shown.filterMap SessionInput.words).map ((SessionData.udp c).key, ·)) d := by
  induction shown generalizing c said with
  | nil => exact ⟨c, rfl, rfl, by rwa [List.filterMap_nil, List.map_nil, List.append_nil]⟩
  | cons m rest ih =>
      obtain ⟨b, hTreat, hFirst, hB⟩ := h.treat hPlain (hOf m (List.mem_cons_self ..)) (hReturns.1 c rfl)
      obtain ⟨hSource, hDest⟩ := ports_of_same hFirst
      obtain ⟨d, hRun, hRest, hD⟩ := ih hB ⟨hSource ▸ hPlain.1, hDest ▸ hPlain.2⟩
        (fun n hn => of_of_same hFirst (hOf n (List.mem_cons_of_mem _ hn))) (hTreat ▸ hReturns.2)
      refine ⟨d, by rw [run_cons, hTreat, hRun], hFirst.trans hRest, ?_⟩
      rw [key_of_same hFirst] at hD
      have hWords : ((m :: rest).filterMap SessionInput.words).map ((SessionData.udp c).key, ·) =
          m.words.toList.map ((SessionData.udp c).key, ·) ++
            (rest.filterMap SessionInput.words).map ((SessionData.udp c).key, ·) := by
        cases hM : m.words <;> simp [hM]
      rwa [hWords, ← List.append_assoc]

end Converses

/-! The ports of a session, DHCP or not. -/

namespace SessionData

end SessionData

namespace EventLoop

variable {L : EventLoop} {K : Kernel} {pkt : Packet}

end EventLoop

end Tun2Http
