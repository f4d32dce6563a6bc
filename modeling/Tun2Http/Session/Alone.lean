import Tun2Http.Machine.Parts
import Tun2Http.Session.Keys

/-! Every session runs alone. What the loop of `handle_events` makes of a session is
what the session makes of the packets of its own flow, the events of its own socket,
and the passes of the loop; so what holds of every run of one session holds of all
sessions of the loop. -/
namespace Tun2Http

open Machine

/-- What the loop does with a session, of any protocol. -/
inductive SessionInput where
  | allowed (K : Kernel)
  | monitor (K : Kernel)
  | check (K : Kernel) (sessions maxsessions : Int)
  | event (K : Kernel) (ev : EpollEvents)
  | echo (K : Kernel) (message : List UInt8)
  | datagram (K : Kernel) (mem : Memory) (source dest : Nat) (span : Span)
  | segment (K : Kernel) (hdr : TcpHdr) (data : Payload)

/-- The machine of one session. -/
def SessionData.treat (s : SessionData) : SessionInput → SessionData
  | .allowed K => (s.allowed K).1
  | .monitor K => s.monitor K
  | .check K sessions maxsessions => (s.check K sessions maxsessions).1
  | .event K ev => s.event K ev
  | .echo K message => match s with
      | icmp c => icmp (forwardIcmp K message c)
      | s => s
  | .datagram K mem source dest span => match s with
      | udp c => udp (forwardUdp K mem source dest span.data span.datalen c)
      | s => s
  | .segment K hdr data => match s with
      | tcp c => tcp (step c (K, .segment hdr data))
      | s => s

namespace EventLoop

variable {L : EventLoop} {f : NgSession → SessionData × Bool} {K : Kernel} {pkt : Packet}

/-- The sessions of the list, and those that were freed. -/
def known (L : EventLoop) : List NgSession := L.ngSession ++ L.freed

/-- There is or was a session with `data` at `pointer`. -/
def Has (L : EventLoop) (pointer : Nat) (data : SessionData) : Prop := ⟨pointer, data⟩ ∈ L.known

/-- The session that an echo request is for, and what the request is to it. -/
def addressedIcmp (L : EventLoop) (K : Kernel) (pkt : Packet) (version payload : Nat) :
    Option (NgSession × SessionInput) :=
  match (Tun2Http.handleIcmp pkt.length version payload).value pkt.mem with
  | none => none
  | some span => (L.searchIcmp version ((readAddresses version).value pkt.mem)).map
      (·, .echo K (pkt.echo version payload span))

/-- The session that a datagram is for. -/
def addressedUdp (L : EventLoop) (K : Kernel) (pkt : Packet) (version payload : Nat) :
    Option (NgSession × SessionInput) :=
  match (Tun2Http.handleUdp L.context pkt.length version payload).value pkt.mem with
  | none => none
  | some span =>
      let key := pkt.key ipprotoUdp version payload
      (L.search key).map (·, .datagram K pkt.mem key.source key.dest span)

/-- The session that a segment is for. -/
def addressedTcp (L : EventLoop) (K : Kernel) (pkt : Packet) (version payload : Nat) :
    Option (NgSession × SessionInput) :=
  match (Tun2Http.handleTcp L.context pkt.turns pkt.length version payload).value pkt.mem with
  | none => none
  | some span => (L.search (pkt.key ipprotoTcp version payload)).map
      (·, .segment K ((readTcpHdr payload).value pkt.mem) (pkt.payload span))

/-- The session that a packet is for, and what the packet is to it. -/
def addressed (L : EventLoop) (K : Kernel) (pkt : Packet) : Option (NgSession × SessionInput) :=
  match (Tun2Http.handleIp L.context pkt.turns pkt.length).value pkt.mem with
  | .handler version protocol payload =>
      if protocol = ipprotoIcmp ∨ protocol = ipprotoIcmpv6 then L.addressedIcmp K pkt version payload
      else if protocol = ipprotoUdp then L.addressedUdp K pkt version payload
      else L.addressedTcp K pkt version payload
  | _ => none

attribute [local instance] decideRegistered

/-- What a step of the loop shows to the session at `pointer`. -/
def shown (L : EventLoop) (input : LoopInput) (pointer : Nat) : List SessionInput :=
  if pointer ∈ L.ngSession.map (·.pointer) then
    match input with
    | .start kernels _ _ => [.allowed (kernels pointer)]
    | .pass kernels check => .monitor (kernels pointer) ::
        if check then [.check (kernels pointer) L.live L.maxsessions] else []
    | .packet K pkt => match L.addressed K pkt with
        | some (s, input) => if s.pointer = pointer then [input] else []
        | none => []
    | .event K registration ev =>
        if registration ∈ L.epoll ∧ registration.2 = pointer then [.event K ev] else []
    | .clear => []
  else []

/-- `handle_icmp` takes the message. -/
structure TakesIcmp (L : EventLoop) (pkt : Packet) (version payload : Nat) (protocol : UInt8) (span : Span) :
    Prop where
  hands : L.Hands pkt version protocol payload
  icmp : protocol = ipprotoIcmp ∨ protocol = ipprotoIcmpv6
  taken : (Tun2Http.handleIcmp pkt.length version payload).value pkt.mem = some span

/-- The packet opens a session, which is then at `pointer`. A session of a datagram
protocol passes the first message on at once. -/
inductive Begins (L : EventLoop) : LoopInput → Nat → SessionData → Prop where
  | icmp {K : Kernel} {pkt : Packet} {version payload : Nat} {protocol : UInt8} {span : Span} {c : IcmpCell}
      (hTakes : L.TakesIcmp pkt version payload protocol span)
      (hNew : newIcmp K pkt.uid version ((readAddresses version).value pkt.mem)
        ((le16 (payload + 4)).value pkt.mem) = some c) :
      Begins L (.packet K pkt) L.next (.icmp (forwardIcmp K (pkt.echo version payload span) c))
  | udp {K : Kernel} {pkt : Packet} {version payload : Nat} {span : Span} {key : Key} {c : UdpCell}
      (hTakes : L.TakesUdp pkt version payload span) (hKey : pkt.key ipprotoUdp version payload = key)
      (hNew : newUdp K pkt.uid key.version (key.saddr, key.daddr) (BitVec.ofNat 16 key.source)
        (BitVec.ofNat 16 key.dest) = some c) :
      Begins L (.packet K pkt) L.next
        (.udp (forwardUdp K pkt.mem key.source key.dest span.data span.datalen c))
  | tcp {K : Kernel} {pkt : Packet} {info : SynInfo} {hdr : TcpHdr} {data : Payload} {c : Cell}
      (hSyn : hdr.syn = true ∧ hdr.urg = false) (hNew : newSession K info hdr data = some c) :
      Begins L (.packet K pkt) L.next (.tcp c)

/-! What one step does to the known sessions. -/

theorem mem_known_update {t : NgSession} : t ∈ (L.update f).known ↔
    (∃ s ∈ L.ngSession, t = ⟨s.pointer, (f s).1⟩) ∨ t ∈ L.freed := by
  simp only [known, List.mem_append, mem_update, mem_freed_update]
  constructor
  · rintro (⟨s, hs, -, rfl⟩ | ⟨s, hs, -, rfl⟩ | hFreed)
    · exact Or.inl ⟨s, hs, rfl⟩
    · exact Or.inl ⟨s, hs, rfl⟩
    · exact Or.inr hFreed
  · rintro (⟨s, hs, rfl⟩ | hFreed)
    · cases hGone : (f s).2 with
      | false => exact Or.inl ⟨s, hs, hGone, rfl⟩
      | true => exact Or.inr (Or.inl ⟨s, hs, hGone, rfl⟩)
    · exact Or.inr (Or.inr hFreed)

/-- What is done with a packet that is `found` to be for a session: it is shown to the
session; or there is none, and it opens one or changes nothing. -/
def Parted (L : EventLoop) (K : Kernel) (pkt : Packet) (found : Option (NgSession × SessionInput))
    (M : EventLoop) : Prop :=
  (∃ s input, found = some (s, input) ∧ s ∈ L.ngSession ∧ M = L.store s.pointer (s.data.treat input)) ∨
    (found = none ∧ (M = L ∨ ∃ data, Begins L (.packet K pkt) L.next data ∧ M = L.register K data))

theorem parted_handleIcmp {version payload : Nat} {protocol : UInt8}
    (hHands : L.Hands pkt version protocol payload) (hIcmp : protocol = ipprotoIcmp ∨ protocol = ipprotoIcmpv6) :
    Parted L K pkt (L.addressedIcmp K pkt version payload) (L.handleIcmp K pkt version payload) := by
  unfold addressedIcmp EventLoop.handleIcmp
  cases hSpan : (Tun2Http.handleIcmp pkt.length version payload).value pkt.mem with
  | none => exact Or.inr ⟨rfl, Or.inl rfl⟩
  | some span =>
      dsimp only
      cases hFound : L.searchIcmp version ((readAddresses version).value pkt.mem) with
      | some s =>
          have hIn : s ∈ L.ngSession := List.mem_of_find?_eq_some hFound
          obtain ⟨pointer, data⟩ := s
          cases data with
          | icmp c => exact Or.inl ⟨_, _, rfl, hIn, rfl⟩
          | udp c => simpa using List.find?_some hFound
          | tcp c => simpa using List.find?_some hFound
      | none =>
          dsimp only [Option.map_none]
          cases hNew : newIcmp K pkt.uid version ((readAddresses version).value pkt.mem)
            ((le16 (payload + 4)).value pkt.mem) with
          | none => exact Or.inr ⟨rfl, Or.inl rfl⟩
          | some c => exact Or.inr ⟨rfl, Or.inr ⟨_, .icmp ⟨hHands, hIcmp, hSpan⟩ hNew, rfl⟩⟩

theorem parted_handleUdp {version payload : Nat} (hHands : L.Hands pkt version ipprotoUdp payload) :
    Parted L K pkt (L.addressedUdp K pkt version payload) (L.handleUdp K pkt version payload) := by
  unfold addressedUdp EventLoop.handleUdp
  cases hSpan : (Tun2Http.handleUdp L.context pkt.length version payload).value pkt.mem with
  | none => exact Or.inr ⟨rfl, Or.inl rfl⟩
  | some span =>
      dsimp only
      set key := pkt.key ipprotoUdp version payload with hPacket
      cases hFound : L.search key with
      | some s =>
          obtain ⟨hIn, hKey⟩ := search_key hFound
          obtain ⟨c, hData⟩ := data_of_key_udp rfl hKey
          obtain ⟨pointer, data⟩ := s
          subst hData
          exact Or.inl ⟨_, _, rfl, hIn, rfl⟩
      | none =>
          dsimp only [Option.map_none]
          cases hNew : newUdp K pkt.uid version (key.saddr, key.daddr) (BitVec.ofNat 16 key.source)
            (BitVec.ofNat 16 key.dest) with
          | none => exact Or.inr ⟨rfl, Or.inl rfl⟩
          | some c => exact Or.inr ⟨rfl, Or.inr ⟨_, .udp ⟨hHands, hSpan⟩ hPacket.symm hNew, rfl⟩⟩

/-- A key of TCP is a TCP session's. -/
theorem data_of_key_tcp {data : SessionData} {key : Key} (hProtocol : key.protocol = ipprotoTcp)
    (hKey : data.key = some key) : ∃ c, data = .tcp c := by
  cases data with
  | icmp c => cases hKey
  | udp c =>
      simp only [SessionData.key, Option.some.injEq] at hKey
      rw [← hKey] at hProtocol
      cases hProtocol
  | tcp c => exact ⟨c, rfl⟩

theorem parted_handleTcp (L : EventLoop) (K : Kernel) (pkt : Packet) (version payload : Nat) :
    Parted L K pkt (L.addressedTcp K pkt version payload) (L.handleTcp K pkt version payload) := by
  unfold addressedTcp EventLoop.handleTcp
  cases hSpan : (Tun2Http.handleTcp L.context pkt.turns pkt.length version payload).value pkt.mem with
  | none => exact Or.inr ⟨rfl, Or.inl rfl⟩
  | some span =>
      dsimp only
      cases hFound : L.search (pkt.key ipprotoTcp version payload) with
      | some s =>
          obtain ⟨hIn, hKey⟩ := search_key hFound
          obtain ⟨c, hData⟩ := data_of_key_tcp rfl hKey
          obtain ⟨pointer, data⟩ := s
          subst hData
          exact Or.inl ⟨_, _, rfl, hIn, rfl⟩
      | none =>
          dsimp only [Option.map_none]
          have hUrg : ((readTcpHdr payload).value pkt.mem).urg = false := by
            by_contra hUrgent
            have hDrop : ((readTcpHdr payload).value pkt.mem).urg = true := by simpa using hUrgent
            simp [Tun2Http.handleTcp, hDrop] at hSpan
          split_ifs with hSyn
          · cases hInfo : pkt.synInfo version payload with
            | none => exact Or.inr ⟨rfl, Or.inl rfl⟩
            | some info =>
                dsimp only
                cases hNew : newSession K info ((readTcpHdr payload).value pkt.mem) (pkt.payload span) with
                | none => exact Or.inr ⟨rfl, Or.inl rfl⟩
                | some c => exact Or.inr ⟨rfl, Or.inr ⟨_, .tcp ⟨hSyn, hUrg⟩ hNew, rfl⟩⟩
          · exact Or.inr ⟨rfl, Or.inl rfl⟩

theorem parted_handleIp (L : EventLoop) (K : Kernel) (pkt : Packet) :
    Parted L K pkt (L.addressed K pkt) (L.handleIp K pkt) := by
  unfold addressed EventLoop.handleIp
  cases hHands : (Tun2Http.handleIp L.context pkt.turns pkt.length).value pkt.mem with
  | handler version protocol payload =>
      dsimp only
      split_ifs with hIcmp hUdp
      · exact parted_handleIcmp hHands hIcmp
      · exact parted_handleUdp (hUdp ▸ hHands)
      · exact parted_handleTcp L K pkt version payload
  | dropped => exact Or.inr ⟨rfl, Or.inl rfl⟩
  | running => exact Or.inr ⟨rfl, Or.inl rfl⟩

theorem shown_of_mem {s : NgSession} (hIn : s ∈ L.ngSession) (input : LoopInput) :
    L.shown input s.pointer = match input with
      | .start kernels _ _ => [.allowed (kernels s.pointer)]
      | .pass kernels check => .monitor (kernels s.pointer) ::
          if check then [.check (kernels s.pointer) L.live L.maxsessions] else []
      | .packet K pkt => match L.addressed K pkt with
          | some (t, input) => if t.pointer = s.pointer then [input] else []
          | none => []
      | .event K registration ev =>
          if registration ∈ L.epoll ∧ registration.2 = s.pointer then [.event K ev] else []
      | .clear => [] :=
  if_pos (List.mem_map_of_mem hIn)

/-- Nothing is shown to a session that is freed. -/
theorem Sound.shown_freed (h : Sound L) {s : NgSession} (hFreed : s ∈ L.freed) (input : LoopInput) :
    L.shown input s.pointer = [] := by
  refine if_neg fun hIn => ?_
  obtain ⟨t, ht, hSame⟩ := List.mem_map.mp hIn
  exact (h.freed s hFreed).2.2 t ht hSame

/-- The session at `pointer` was known, and is what it makes of what it was shown. -/
def Continues (L : EventLoop) (input : LoopInput) (t : NgSession) : Prop :=
  ∃ s ∈ L.known, s.pointer = t.pointer ∧
    t.data = run SessionData.treat s.data (L.shown input t.pointer)

theorem continues_of_list {s : NgSession} {data : SessionData} {input : LoopInput}
    (hIn : s ∈ L.ngSession) (hData : data = run SessionData.treat s.data (L.shown input s.pointer)) :
    L.Continues input ⟨s.pointer, data⟩ :=
  ⟨s, List.mem_append_left _ hIn, rfl, hData⟩

theorem Sound.continues_of_freed (h : Sound L) {t : NgSession} (hFreed : t ∈ L.freed)
    (input : LoopInput) : L.Continues input t :=
  ⟨t, List.mem_append_right _ hFreed, rfl, by rw [h.shown_freed hFreed]; rfl⟩

/-- A pass monitors the sessions, and then it may check them. -/
theorem pass_true (L : EventLoop) (kernels : Nat → Kernel) :
    L.pass kernels true = (L.pass kernels false).update fun s =>
      s.data.check (kernels s.pointer) L.live L.maxsessions :=
  rfl

theorem mem_pass_false {kernels : Nat → Kernel} {t : NgSession} :
    (t ∈ (L.pass kernels false).ngSession ↔
        ∃ s ∈ L.ngSession, t = ⟨s.pointer, s.data.monitor (kernels s.pointer)⟩) ∧
      (t ∈ (L.pass kernels false).freed ↔ t ∈ L.freed) := by
  constructor
  · refine mem_update.trans ⟨?_, ?_⟩
    · rintro ⟨s, hs, -, rfl⟩
      exact ⟨s, hs, rfl⟩
    · rintro ⟨s, hs, rfl⟩
      exact ⟨s, hs, rfl, rfl⟩
  · refine mem_freed_update.trans ⟨?_, Or.inr⟩
    rintro (⟨s, -, hGone, -⟩ | hFreed)
    · cases hGone
    · exact hFreed

theorem continues_pass (h : Sound L) {kernels : Nat → Kernel} {check : Bool} {t : NgSession}
    (ht : t ∈ (L.pass kernels check).known) : L.Continues (.pass kernels check) t := by
  have hFreed : t ∈ (L.pass kernels false).freed → L.Continues (.pass kernels check) t := fun hGone =>
    h.continues_of_freed (mem_pass_false.2.mp hGone) _
  cases check with
  | false =>
      rcases List.mem_append.mp ht with hList | hGone
      · obtain ⟨s, hs, rfl⟩ := mem_pass_false.1.mp hList
        refine continues_of_list hs ?_
        rw [shown_of_mem hs]
        rfl
      · exact hFreed hGone
  | true =>
      rw [pass_true] at ht
      rcases mem_known_update.mp ht with ⟨u, hu, rfl⟩ | hGone
      · obtain ⟨s, hs, rfl⟩ := mem_pass_false.1.mp hu
        refine continues_of_list (s := s) hs ?_
        rw [shown_of_mem hs]
        rfl
      · exact hFreed hGone

/-- One session is treated, and the others are shown nothing. -/
theorem continues_store (h : Sound L) {input : LoopInput} {s t : NgSession} {data : SessionData}
    (hIn : s ∈ L.ngSession) (hData : data = run SessionData.treat s.data (L.shown input s.pointer))
    (hOthers : ∀ u ∈ L.ngSession, u.pointer ≠ s.pointer → L.shown input u.pointer = [])
    (ht : t ∈ (L.store s.pointer data).known) : L.Continues input t := by
  rcases mem_known_update.mp ht with ⟨u, hu, rfl⟩ | hFreed
  · refine continues_of_list hu ?_
    dsimp only
    split_ifs with hPointer
    · rw [h.eq_of_pointer hIn hu hPointer]
      exact hData
    · rw [hOthers u hu hPointer]
      rfl
  · exact h.continues_of_freed hFreed _

/-- A session to which nothing is shown is as it was. -/
theorem Sound.continues_unseen (h : Sound L) {input : LoopInput}
    (hNothing : ∀ u ∈ L.ngSession, L.shown input u.pointer = []) {t : NgSession} (ht : t ∈ L.known) :
    L.Continues input t := by
  rcases List.mem_append.mp ht with hList | hFreed
  · refine continues_of_list hList ?_
    rw [hNothing t hList]
    rfl
  · exact h.continues_of_freed hFreed _

theorem continues_start (h : Sound L) {kernels : Nat → Kernel} {fwd53 : Bool} {maxsessions : Int}
    {t : NgSession} (ht : t ∈ (L.start kernels fwd53 maxsessions).known) :
    L.Continues (.start kernels fwd53 maxsessions) t := by
  rcases mem_known_update.mp ht with ⟨s, hs, rfl⟩ | hFreed
  · refine continues_of_list hs ?_
    rw [shown_of_mem hs]
    rfl
  · exact h.continues_of_freed hFreed _

theorem continues_packet (h : Sound L) {K : Kernel} {pkt : Packet} {t : NgSession}
    (ht : t ∈ (L.handleIp K pkt).known) :
    L.Continues (.packet K pkt) t ∨ L.Begins (.packet K pkt) t.pointer t.data := by
  have hShown : ∀ u ∈ L.ngSession, L.shown (.packet K pkt) u.pointer =
      match L.addressed K pkt with
        | some (s, input) => if s.pointer = u.pointer then [input] else []
        | none => [] := fun u hu => shown_of_mem hu _
  have hSame : ∀ u ∈ L.known, L.addressed K pkt = none → L.Continues (.packet K pkt) u := by
    intro u hu hNone
    refine h.continues_unseen (fun v hv => ?_) hu
    rw [hShown v hv, hNone]
  rcases parted_handleIp L K pkt with ⟨s, input, hFound, hs, hStore⟩ | ⟨hNone, hM⟩
  · refine Or.inl (continues_store h hs (show s.data.treat input = _ from ?_) (fun u hu hOther => ?_) ?_)
    · rw [hShown s hs, hFound]
      dsimp only
      rw [if_pos rfl]
      rfl
    · rw [hShown u hu, hFound]
      exact if_neg fun hPointer => hOther hPointer.symm
    · rw [← hStore]
      exact ht
  · rcases hM with hL | ⟨data, hBegins, hRegister⟩
    · refine Or.inl (hSame t ?_ hNone)
      rw [← hL]
      exact ht
    · have hKnown : t = ⟨L.next, data⟩ ∨ t ∈ L.known := by
        have hIn : t ∈ (L.register K data).known := hRegister ▸ ht
        exact List.mem_cons.mp hIn
      rcases hKnown with rfl | hBefore
      · exact Or.inr hBegins
      · exact Or.inl (hSame t hBefore hNone)

theorem continues_event (h : Sound L) {K : Kernel} {registration : Int × Nat} {ev : EpollEvents}
    {t : NgSession} (ht : t ∈ (L.event K registration ev).known) :
    L.Continues (.event K registration ev) t := by
  have hShown : ∀ u ∈ L.ngSession, L.shown (.event K registration ev) u.pointer =
      if registration ∈ L.epoll ∧ registration.2 = u.pointer then [.event K ev] else [] :=
    fun u hu => shown_of_mem hu _
  unfold EventLoop.event at ht
  split_ifs at ht with hRegistered
  · split at ht
    · rename_i hNone
      refine h.continues_unseen (fun u hu => (hShown u hu).trans (if_neg ?_)) ht
      rintro ⟨-, hPointer⟩
      simpa [hPointer] using List.find?_eq_none.mp hNone u hu
    · rename_i s hFound
      have hs := List.mem_of_find?_eq_some hFound
      have hPointer : s.pointer = registration.2 := by simpa using List.find?_some hFound
      refine continues_store h hs ?_ (fun u hu hOther => ?_) ht
      · rw [hShown s hs, if_pos ⟨hRegistered, hPointer.symm⟩]
        rfl
      · exact (hShown u hu).trans (if_neg fun hBoth => hOther (hBoth.2.symm.trans hPointer.symm))
  · exact h.continues_unseen (fun u hu => (hShown u hu).trans (if_neg fun hBoth => hRegistered hBoth.1)) ht

/-- Every session that is known after a step was known before, or is opened by it. -/
theorem continues_step (h : Sound L) (input : LoopInput) {t : NgSession}
    (ht : t ∈ (stepLoop L input).known) :
    L.Continues input t ∨ L.Begins input t.pointer t.data := by
  cases input with
  | start kernels fwd53 maxsessions => exact Or.inl (continues_start h ht)
  | pass kernels check => exact Or.inl (continues_pass h ht)
  | packet K pkt => exact continues_packet h ht
  | event K registration ev => exact Or.inl (continues_event h ht)
  | clear => exact Or.inl (h.continues_of_freed (by simpa [stepLoop, clear, known] using ht) _)

/-- A packet and an event are shown to one session at most. -/
theorem shown_apart {input : LoopInput} (hPass : ∀ kernels check, input ≠ .pass kernels check)
    (hStart : ∀ kernels fwd53 maxsessions, input ≠ .start kernels fwd53 maxsessions) {p q : Nat}
    (hp : L.shown input p ≠ []) (hq : L.shown input q ≠ []) : p = q := by
  unfold shown at hp hq
  cases input with
  | start kernels fwd53 maxsessions => exact absurd rfl (hStart _ _ _)
  | pass kernels check => exact absurd rfl (hPass _ _)
  | packet K pkt =>
      cases hFound : L.addressed K pkt with
      | none => simp [hFound] at hp
      | some found =>
          have hHere : ∀ r, (if r ∈ L.ngSession.map (·.pointer) then
              if found.1.pointer = r then [found.2] else [] else []) ≠ [] → found.1.pointer = r := by
            intro r hShown
            by_contra hOther
            simp [hOther] at hShown
          simp only [hFound] at hp hq
          exact (hHere p hp).symm.trans (hHere q hq)
  | event K registration ev =>
      have hHere : ∀ r, (if r ∈ L.ngSession.map (·.pointer) then
          if registration ∈ L.epoll ∧ registration.2 = r then [SessionInput.event K ev] else [] else [])
            ≠ [] → registration.2 = r := by
        intro r hShown
        by_contra hOther
        simp [hOther] at hShown
      exact (hHere p hp).symm.trans (hHere q hq)
  | clear => simp at hp

end EventLoop

/-! A TCP session by itself is the machine of `step`. -/

/-- What an input is to a TCP session that `check_allowed` does not end. -/
def SessionInput.steps : SessionInput → List (Kernel × Input)
  | monitor K => [(K, .monitor)]
  | check K sessions maxsessions => [(K, .check sessions maxsessions)]
  | event K ev => [(K, .event ev)]
  | segment K hdr data => [(K, .segment hdr data)]
  | _ => []

namespace SessionData

theorem treat_tcp {c : Cell} {m : SessionInput} (hGoes : ∀ K, m ≠ .allowed K) :
    (tcp c).treat m = tcp (run step c m.steps) := by
  cases m with
  | allowed K => exact absurd rfl (hGoes K)
  | _ => rfl

theorem run_treat_tcp {c : Cell} {inputs : List SessionInput}
    (hGoes : ∀ m ∈ inputs, ∀ K, m ≠ .allowed K) :
    run treat (tcp c) inputs = tcp (run step c (inputs.flatMap SessionInput.steps)) := by
  induction inputs generalizing c with
  | nil => rfl
  | cons m rest ih =>
      rw [run_cons, treat_tcp (hGoes m (List.mem_cons_self ..)),
        ih fun n hn => hGoes n (List.mem_cons_of_mem _ hn), List.flatMap_cons, run_append]

/-- The protocol of a session stays. -/
theorem exists_tcp_of_treat {s : SessionData} {m : SessionInput} {c : Cell} (h : s.treat m = tcp c) :
    ∃ b, s = tcp b := by
  cases s with
  | icmp b => cases m <;> cases h
  | udp b =>
      cases m with
      | allowed K =>
          simp only [treat, allowed] at h
          split_ifs at h
      | _ => cases h
  | tcp b => exact ⟨b, rfl⟩

theorem exists_tcp_of_run {s : SessionData} {inputs : List SessionInput} {c : Cell}
    (h : run treat s inputs = tcp c) : ∃ b, s = tcp b := by
  induction inputs generalizing s with
  | nil => exact ⟨c, h⟩
  | cons m rest ih =>
      obtain ⟨b, hb⟩ := ih h
      exact exists_tcp_of_treat hb

end SessionData

/-- A packet does not make `check_allowed` run. -/
theorem EventLoop.addressed_goes {L : EventLoop} {K : Kernel} {pkt : Packet} {s : NgSession}
    {m : SessionInput} (h : L.addressed K pkt = some (s, m)) (k : Kernel) : m ≠ .allowed k := by
  have hMap : ∀ {o : Option NgSession} {n : SessionInput}, o.map (·, n) = some (s, m) → n = m := by
    rintro (_ | t) n hSome
    · cases hSome
    · exact congrArg Prod.snd (Option.some.inj hSome)
  unfold addressed at h
  split at h
  · split_ifs at h
    · unfold addressedIcmp at h
      split at h
      · cases h
      · rw [← hMap h]
        nofun
    · unfold addressedUdp at h
      split at h
      · cases h
      · rw [← hMap h]
        nofun
    · unfold addressedTcp at h
      split at h
      · cases h
      · rw [← hMap h]
        nofun
  · cases h

/-- Where `handle_events` does not begin anew, it ends no session by `check_allowed`. -/
theorem history_goes {pointer : Nat} {L : EventLoop} {inputs : List LoopInput}
    (hGoes : ∀ i ∈ inputs, ∀ kernels fwd53 maxsessions, i ≠ .start kernels fwd53 maxsessions) :
    ∀ m ∈ history stepLoop EventLoop.shown pointer L inputs, ∀ K, m ≠ .allowed K := by
  refine history_forall ((along_of_forall L hGoes).imp fun M i hi m hm K => ?_)
  rintro rfl
  unfold EventLoop.shown at hm
  split_ifs at hm
  · split at hm
    · exact hi _ _ _ rfl
    · split_ifs at hm <;> simp at hm
    · split at hm
      · rename_i hFound
        split_ifs at hm
        · exact EventLoop.addressed_goes hFound K (List.mem_singleton.mp hm).symm
        · cases hm
      · cases hm
    · split_ifs at hm <;> simp at hm
    · cases hm
  · cases hm

/-- What a session makes of its history is a run of its own, in the sense of `Reachable`,
as long as `handle_events` does not begin anew. -/
theorem reachable_of_history {L : EventLoop} {opening : LoopInput} {birth : SessionData} {pointer : Nat}
    {after : List LoopInput} {M : EventLoop} {c : Cell} (hBegins : L.Begins opening pointer birth)
    (hGoes : ∀ i ∈ after, ∀ kernels fwd53 maxsessions, i ≠ .start kernels fwd53 maxsessions)
    (hTcp : run SessionData.treat birth (history stepLoop EventLoop.shown pointer M after) = .tcp c) :
    Reachable c := by
  cases hBegins with
  | icmp hTakes hNew =>
      obtain ⟨b, hb⟩ := SessionData.exists_tcp_of_run hTcp
      cases hb
  | udp hTakes hKey hNew =>
      obtain ⟨b, hb⟩ := SessionData.exists_tcp_of_run hTcp
      cases hb
  | tcp hSyn hNew =>
      rw [SessionData.run_treat_tcp (history_goes hGoes)] at hTcp
      exact ⟨_, _, _, _, _, _, hNew, SessionData.tcp.inj hTcp⟩

/-- A packet of `inputs` has opened the session, and it is what it makes of what the loop
showed to it since; a TCP session is then a run of the machine of `step`. -/
def RanAlone (inputs : List LoopInput) (s : NgSession) : Prop :=
  ∃ before opening after birth, inputs = before ++ opening :: after ∧
    (run stepLoop .init before).Begins opening s.pointer birth ∧
    s.data = run SessionData.treat birth (history stepLoop EventLoop.shown s.pointer
      (run stepLoop .init (before ++ [opening])) after) ∧
    ((∀ i ∈ after, ∀ kernels fwd53 maxsessions, i ≠ .start kernels fwd53 maxsessions) →
      ∀ c, s.data = .tcp c → Reachable c)

/-- Every session that the loop has at any time, in its list or freed, has run alone; and
no packet and no event is ever shown to two of them. -/
theorem sessions_run_alone (inputs : List LoopInput) :
    (∀ s ∈ (run stepLoop .init inputs).known, RanAlone inputs s) ∧
      ∀ input : LoopInput, (∀ kernels check, input ≠ .pass kernels check) →
        (∀ kernels fwd53 maxsessions, input ≠ .start kernels fwd53 maxsessions) →
        ∀ p q, (run stepLoop .init inputs).shown input p ≠ [] →
          (run stepLoop .init inputs).shown input q ≠ [] → p = q := by
  refine ⟨fun s hKnown => ?_, fun input hPass hStart p q => EventLoop.shown_apart hPass hStart⟩
  have hStep : ∀ (L : EventLoop) (i : LoopInput), L.Sound → ∀ p b, (stepLoop L i).Has p b →
      (∃ a, L.Has p a ∧ b = run SessionData.treat a (L.shown i p)) ∨ L.Begins i p b := by
    intro L i hSound p b hHas
    rcases EventLoop.continues_step hSound i hHas with ⟨⟨q, a⟩, ht, rfl, hData⟩ | hBegins
    · exact Or.inl ⟨a, ht, hData⟩
    · exact Or.inr hBegins
  have hHas : (run stepLoop .init inputs).Has s.pointer s.data := hKnown
  rcases parts_run (fun L i (h : L.Sound) => h.step i) hStep EventLoop.sound_init hHas with
    ⟨a, hNone, -⟩ | ⟨before, opening, after, birth, rfl, hBegins, hData⟩
  · simp [EventLoop.Has, EventLoop.known, EventLoop.init] at hNone
  · have hNext : run stepLoop .init (before ++ [opening]) =
        stepLoop (run stepLoop .init before) opening := run_append ..
    rw [← hNext] at hData
    refine ⟨before, opening, after, birth, rfl, hBegins, hData, fun hGoes c hTcp => ?_⟩
    exact reachable_of_history hBegins hGoes (hData.symm.trans hTcp)

end Tun2Http
