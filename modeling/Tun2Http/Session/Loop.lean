import Tun2Http.Machine.Table
import Tun2Http.Session.Handlers

/-! The loop of `handle_events` over the list of sessions: what a step does to
the list, and that no session is freed while its socket is open. -/
namespace Tun2Http

open Machine

/-- The packet has a handler, were there no limit on sessions. -/
def Packet.Arrives (pkt : Packet) (version : Nat) (protocol : UInt8) (payload : Nat) : Prop :=
  (Tun2Http.handleIp idleContext pkt.turns pkt.length).value pkt.mem =
    .handler version protocol payload

theorem Admitted.idle {X : IpContext} {length version payload : Nat} {mem : Memory}
    {protocol : UInt8} (h : Admitted X length version mem protocol payload) :
    Admitted idleContext length version mem protocol payload := by
  have hFree : idleContext.sessions < idleContext.maxsessions := by decide
  unfold Admitted at h ⊢
  split_ifs at h ⊢
  · exact ⟨h.1, hFree⟩
  · exact ⟨h.1, Or.inl hFree⟩
  · exact ⟨h.1, Or.inl hFree⟩

namespace EventLoop

variable {L : EventLoop} {f : NgSession → SessionData × Bool} {K : Kernel} {pkt : Packet}

/-! The operations on the list. -/

theorem mem_update {t : NgSession} : t ∈ (L.update f).ngSession ↔
    ∃ s ∈ L.ngSession, (f s).2 = false ∧ t = ⟨s.pointer, (f s).1⟩ := by
  simp only [update, List.mem_filterMap, Option.ite_none_left_eq_some, Bool.not_eq_true,
    Option.some.injEq, eq_comm (a := t)]

theorem mem_store {s : NgSession} {data : SessionData} (hIn : s ∈ L.ngSession) :
    ⟨s.pointer, data⟩ ∈ (L.store s.pointer data).ngSession :=
  mem_update.mpr ⟨s, hIn, rfl, by rw [if_pos rfl]⟩

theorem mem_freed_update {t : NgSession} : t ∈ (L.update f).freed ↔
    (∃ s ∈ L.ngSession, (f s).2 = true ∧ t = ⟨s.pointer, (f s).1⟩) ∨ t ∈ L.freed := by
  simp only [update, List.mem_append, List.mem_filterMap, Option.ite_none_right_eq_some,
    Option.some.injEq, eq_comm (a := t)]

theorem mem_epoll_update {r : Int × Nat} : r ∈ (L.update f).epoll ↔
    r ∈ L.epoll ∧ ∀ s ∈ L.ngSession, (f s).1.socket ≠ s.data.socket → s.data.socket ≠ r.1 := by
  simp [update]

/-- What holds of the loop between any two steps. A registration of epoll
leads to a session of the list, which has the socket. -/
structure Sound (L : EventLoop) : Prop where
  pointers : Keyed (fun s => some s.pointer) L.ngSession
  fresh : ∀ s ∈ L.ngSession, s.pointer < L.next
  sessions : ∀ s ∈ L.ngSession, s.data.Sound
  epoll : ∀ r ∈ L.epoll, 0 ≤ r.1 ∧ ∃ s ∈ L.ngSession, s.pointer = r.2 ∧ s.data.socket = r.1
  freed : ∀ s ∈ L.freed, s.data.socket = -1 ∧ s.pointer < L.next ∧
    ∀ t ∈ L.ngSession, t.pointer ≠ s.pointer

theorem sound_init : Sound .init :=
  ⟨keyed_nil _, by simp [init], by simp [init], by simp [init], by simp [init]⟩

theorem Sound.eq_of_pointer (h : Sound L) {s t : NgSession} (hs : s ∈ L.ngSession)
    (ht : t ∈ L.ngSession) (hPointer : t.pointer = s.pointer) : t = s :=
  h.pointers.eq_of_key ht hs rfl (congrArg some hPointer.symm)

/-- Every session is treated, and one that is freed has given its socket up. -/
theorem Sound.update (h : Sound L) (hKeep : ∀ s ∈ L.ngSession, s.data.Keeps (f s).1)
    (hFreed : ∀ s ∈ L.ngSession, (f s).2 = true → (f s).1.socket = -1) : Sound (L.update f) := by
  refine ⟨h.pointers.filterMap fun s hs t hTreat => ?_, fun t ht => ?_, fun t ht => ?_,
    fun r hr => ?_, fun t ht => ?_⟩
  · split_ifs at hTreat
    cases hTreat
    rfl
  · obtain ⟨s, hs, -, rfl⟩ := mem_update.mp ht
    exact h.fresh s hs
  · obtain ⟨s, hs, -, rfl⟩ := mem_update.mp ht
    exact (hKeep s hs).sound
  · obtain ⟨hIn, hOpen⟩ := mem_epoll_update.mp hr
    obtain ⟨hNonneg, s, hs, hPointer, hSocket⟩ := h.epoll r hIn
    have hSame : (f s).1.socket = s.data.socket := by_contra fun hClosed => hOpen s hs hClosed hSocket
    have hKept : (f s).2 = false := by
      by_contra hGone
      have hMinus := hFreed s hs (by simpa using hGone)
      omega
    exact ⟨hNonneg, _, mem_update.mpr ⟨s, hs, hKept, rfl⟩, hPointer, hSame.trans hSocket⟩
  · rcases mem_freed_update.mp ht with ⟨s, hs, hGone, rfl⟩ | hBefore
    · refine ⟨hFreed s hs hGone, h.fresh s hs, fun u hu hPointer => ?_⟩
      obtain ⟨v, hv, hStays, rfl⟩ := mem_update.mp hu
      rw [h.eq_of_pointer hs hv hPointer, hGone] at hStays
      cases hStays
    · obtain ⟨hSocket, hFresh, hApart⟩ := h.freed t hBefore
      refine ⟨hSocket, hFresh, fun u hu => ?_⟩
      obtain ⟨v, hv, -, rfl⟩ := mem_update.mp hu
      exact hApart v hv

theorem Sound.store (h : Sound L) {s : NgSession} {data : SessionData} (hs : s ∈ L.ngSession)
    (hKeep : s.data.Keeps data) : Sound (L.store s.pointer data) := by
  refine h.update (fun t ht => ?_) fun t ht hGone => by cases hGone
  dsimp only
  split_ifs with hPointer
  · rwa [h.eq_of_pointer hs ht hPointer]
  · exact ⟨h.sessions t ht, Or.inl rfl⟩

theorem Sound.register (h : Sound L) {data : SessionData} (hData : data.Sound)
    (hSocket : 0 ≤ data.socket) : Sound (L.register K data) := by
  refine ⟨?_, fun t ht => ?_, fun t ht => ?_, fun r hr => ?_, fun t ht => ?_⟩
  · refine keyed_cons_iff.mpr ⟨fun p hp t ht hSame => ?_, h.pointers⟩
    have hFresh := h.fresh t ht
    simp only [Option.some.injEq] at hp hSame
    omega
  · rcases List.mem_cons.mp ht with rfl | hBefore
    · exact Nat.lt_succ_self _
    · exact (h.fresh t hBefore).trans (Nat.lt_succ_self _)
  · rcases List.mem_cons.mp ht with rfl | hBefore
    · exact hData
    · exact h.sessions t hBefore
  · have hCases : r = (data.socket, L.next) ∨ r ∈ L.epoll := by
      unfold EventLoop.register at hr
      dsimp only at hr
      split_ifs at hr
      · exact List.mem_cons.mp hr
      · exact Or.inr hr
    rcases hCases with rfl | hBefore
    · exact ⟨hSocket, ⟨L.next, data⟩, List.mem_cons_self .., rfl, rfl⟩
    · obtain ⟨hNonneg, s, hs, hBoth⟩ := h.epoll r hBefore
      exact ⟨hNonneg, s, List.mem_cons_of_mem _ hs, hBoth⟩
  · obtain ⟨hMinus, hFresh, hApart⟩ := h.freed t ht
    refine ⟨hMinus, hFresh.trans (Nat.lt_succ_self _), fun u hu => ?_⟩
    rcases List.mem_cons.mp hu with rfl | hBefore
    · exact (Nat.ne_of_lt hFresh).symm
    · exact hApart u hBefore

/-! What happens to a packet. -/

/-- Up to the limit on sessions nothing depends on the context. -/
theorem handleIp_cases (turns length : Nat) (mem : Memory) :
    (∀ X, (Tun2Http.handleIp X turns length).value mem = .dropped) ∨
      (∀ X, (Tun2Http.handleIp X turns length).value mem = .running) ∨
      ∃ version protocol payload, ∀ X, (Tun2Http.handleIp X turns length).value mem =
        (handlePayload X length version protocol payload).value mem := by
  by_cases hFour : mem 0 >>> 4 = 4
  · by_cases hShort : length < 20
    · exact Or.inl fun X => by simp [Tun2Http.handleIp, hFour, hShort]
    · by_cases hFragment : (le16 6).value mem &&& ipMf = 0#16
      · by_cases hTotal : (be16 2).value mem = length
        · refine Or.inr (Or.inr ⟨4, mem 9, 20 + optLen (mem 0 &&& 0x0F), fun X => ?_⟩)
          simp [Tun2Http.handleIp, hFour, hShort, hFragment, hTotal, -value_le16, -value_be16]
        · exact Or.inl fun X => by
            simp [Tun2Http.handleIp, hFour, hShort, hFragment, hTotal, -value_le16, -value_be16]
      · exact Or.inl fun X => by simp [Tun2Http.handleIp, hFour, hShort, hFragment, -value_le16]
  · by_cases hSix : mem 0 >>> 4 = 6
    · by_cases hShort : length < 40
      · exact Or.inl fun X => by simp [Tun2Http.handleIp, hSix, hShort]
      · cases hFound : (ip6Payload turns).value mem with
        | none =>
            exact Or.inr (Or.inl fun X => by
              simp [Tun2Http.handleIp, hSix, hShort, hFound, handleIp6])
        | some found =>
            refine Or.inr (Or.inr ⟨6, found.1, found.2, fun X => ?_⟩)
            simp [Tun2Http.handleIp, hSix, hShort, hFound, handleIp6]
    · exact Or.inl fun X => by simp [Tun2Http.handleIp, hFour, hSix]

/-- The context decides on nothing but the limit. -/
theorem handleIp_handler_iff {turns length version payload : Nat} {protocol : UInt8} {mem : Memory}
    {X : IpContext} (Y : IpContext)
    (h : (Tun2Http.handleIp X turns length).value mem = .handler version protocol payload) :
    (Tun2Http.handleIp Y turns length).value mem = .handler version protocol payload ↔
      Admitted Y length version mem protocol payload := by
  rcases handleIp_cases turns length mem with hDropped | hRunning | ⟨v, p, o, hPayload⟩
  · rw [hDropped] at h
    cases h
  · rw [hRunning] at h
    cases h
  · rw [hPayload, value_handlePayload] at h ⊢
    split_ifs at h
    cases h
    split_ifs with hAdmitted <;> simp [hAdmitted]

/-- Handlers are called for the versions 4 and 6. -/
theorem handleIp_version {turns length version payload : Nat} {protocol : UInt8} {mem : Memory}
    {X : IpContext}
    (h : (Tun2Http.handleIp X turns length).value mem = .handler version protocol payload) :
    version = 4 ∨ version = 6 := by
  have hPayload : ∀ v p o, (handlePayload X length v p o).value mem = .handler version protocol payload →
      version = v := by
    intro v p o hHandler
    rw [value_handlePayload] at hHandler
    split_ifs at hHandler
    cases hHandler
    rfl
  rw [Tun2Http.handleIp, Reader.value_bind, Reader.value_ite] at h
  split_ifs at h with hFour hShort hSix hShort
  · cases h
  · simp only [Reader.value_bind, Reader.value_ite] at h
    split_ifs at h
    · cases h
    · cases h
    · exact Or.inl (hPayload _ _ _ h)
  · cases h
  · rw [Reader.value_bind] at h
    cases hFound : (ip6Payload turns).value mem with
    | none =>
        rw [hFound] at h
        cases h
    | some found =>
        rw [hFound] at h
        exact Or.inr (hPayload _ _ _ h)
  · cases h

/-- `handle_ip` calls the handler of `protocol`. -/
def Hands (L : EventLoop) (pkt : Packet) (version : Nat) (protocol : UInt8) (payload : Nat) : Prop :=
  (Tun2Http.handleIp L.context pkt.turns pkt.length).value pkt.mem = .handler version protocol payload

/-- `handle_udp` takes the datagram. -/
structure TakesUdp (L : EventLoop) (pkt : Packet) (version payload : Nat) (span : Span) : Prop where
  hands : L.Hands pkt version ipprotoUdp payload
  taken : (Tun2Http.handleUdp L.context pkt.length version payload).value pkt.mem = some span

/-- What `handle_ip` may do: nothing, pass the packet on in its session, or
register a session. -/
inductive Handled (L : EventLoop) (K : Kernel) (pkt : Packet) : EventLoop → Prop where
  | ignored : Handled L K pkt L
  | echo {s : NgSession} {c : IcmpCell} (message : List UInt8) (hIn : s ∈ L.ngSession)
      (hData : s.data = .icmp c) :
      Handled L K pkt (L.store s.pointer (.icmp (forwardIcmp K message c)))
  | datagram {version payload : Nat} {span : Span} {key : Key} {s : NgSession} {c : UdpCell}
      (hTakes : L.TakesUdp pkt version payload span)
      (hKey : pkt.key ipprotoUdp version payload = key)
      (hFound : L.search key = some s) (hData : s.data = .udp c) :
      Handled L K pkt (L.store s.pointer
        (.udp (forwardUdp K pkt.mem key.source key.dest span.data span.datalen c)))
  | segment {version payload : Nat} {s : NgSession} {c : Cell} (span : Span)
      (hHands : L.Hands pkt version ipprotoTcp payload)
      (hFound : L.search (pkt.key ipprotoTcp version payload) = some s) (hData : s.data = .tcp c) :
      Handled L K pkt (L.store s.pointer
        (.tcp (step c (K, .segment ((readTcpHdr payload).value pkt.mem) (pkt.payload span)))))
  | newIcmp {version payload : Nat} {protocol : UInt8} {c : IcmpCell} (message : List UInt8)
      (hHands : L.Hands pkt version protocol payload)
      (hIcmp : protocol = ipprotoIcmp ∨ protocol = ipprotoIcmpv6)
      (hEcho : pkt.mem payload = icmpEcho)
      (hNone : L.searchIcmp version ((readAddresses version).value pkt.mem) = none)
      (hNew : newIcmp K pkt.uid version ((readAddresses version).value pkt.mem)
        ((le16 (payload + 4)).value pkt.mem) = some c) :
      Handled L K pkt (L.register K (.icmp (forwardIcmp K message c)))
  | newUdp {version payload : Nat} {span : Span} {key : Key} {c : UdpCell}
      (hTakes : L.TakesUdp pkt version payload span)
      (hKey : pkt.key ipprotoUdp version payload = key)
      (hNone : L.search key = none)
      (hNew : newUdp K pkt.uid version (key.saddr, key.daddr) (BitVec.ofNat 16 key.source)
        (BitVec.ofNat 16 key.dest) = some c) :
      Handled L K pkt (L.register K
        (.udp (forwardUdp K pkt.mem key.source key.dest span.data span.datalen c)))
  | newTcp {version payload : Nat} {info : SynInfo} {hdr : TcpHdr} {c : Cell} (span : Span)
      (hHands : L.Hands pkt version ipprotoTcp payload)
      (hHdr : (readTcpHdr payload).value pkt.mem = hdr)
      (hUrg : hdr.urg = false)
      (hNone : L.search (pkt.key ipprotoTcp version payload) = none)
      (hSyn : hdr.syn = true)
      (hInfo : pkt.synInfo version payload = some info)
      (hNew : newSession K info hdr (pkt.payload span) = some c) :
      Handled L K pkt (L.register K (.tcp c))

theorem hands_iff {version payload : Nat} {protocol : UInt8} :
    L.Hands pkt version protocol payload ↔ pkt.Arrives version protocol payload ∧
      Admitted L.context pkt.length version pkt.mem protocol payload := by
  constructor
  · intro hHands
    have hAdmitted := (handleIp_handler_iff _ hHands).mp hHands
    exact ⟨(handleIp_handler_iff _ hHands).mpr hAdmitted.idle, hAdmitted⟩
  · rintro ⟨hArrives, hAdmitted⟩
    exact (handleIp_handler_iff _ hArrives).mpr hAdmitted

/-- The handlers and `handle_ip` find the same session. -/
theorem findSession_context (L : EventLoop) (key : Key) :
    findSession L.context key.protocol key.version (key.saddr, key.daddr) key.source key.dest =
      (L.search key).bind (·.data.flow) := by
  unfold findSession search context
  rw [List.find?_filterMap]
  congr 2
  funext s
  unfold SessionData.flow
  cases s.data.key with
  | none => simp
  | some k =>
      obtain ⟨protocol, version, saddr, daddr, source, dest⟩ := k
      obtain ⟨protocol', version', saddr', daddr', source', dest'⟩ := key
      simp only [Option.map_some, Option.any_some, Option.some.injEq, Key.mk.injEq, decide_eq_decide]
      tauto

/-- A session that is found has the key, so it is of the protocol. -/
theorem search_key {key : Key} {s : NgSession} (hFound : L.search key = some s) :
    s ∈ L.ngSession ∧ s.data.key = some key :=
  ⟨List.mem_of_find?_eq_some hFound, by simpa using List.find?_some hFound⟩

theorem search_none {key : Key} (hNone : L.search key = none) {s : NgSession}
    (hIn : s ∈ L.ngSession) : s.data.key ≠ some key := by
  simpa using List.find?_eq_none.mp hNone s hIn

/-- A datagram is taken where there is no session that is over. -/
theorem takesUdp_iff {version payload : Nat} {span : Span} :
    L.TakesUdp pkt version payload span ↔ L.Hands pkt version ipprotoUdp payload ∧
      (∀ s, L.search (pkt.key ipprotoUdp version payload) = some s → s.data.active = true) ∧
      span = ⟨payload + 8, remaining pkt.length (payload + 8)⟩ := by
  set key := pkt.key ipprotoUdp version payload with hKey
  have hTaken : (Tun2Http.handleUdp L.context pkt.length version payload).value pkt.mem = some span ↔
      (∀ s, L.search key = some s → s.data.active = true) ∧
        span = ⟨payload + 8, remaining pkt.length (payload + 8)⟩ := by
    have hFind := findSession_context L key
    have hValue : (Tun2Http.handleUdp L.context pkt.length version payload).value pkt.mem =
        if ((L.search key).bind (·.data.flow)).any (!·.active) then none
        else some ⟨payload + 8, remaining pkt.length (payload + 8)⟩ := by
      rw [← hFind]
      simp only [Tun2Http.handleUdp, Reader.value_bind]
      exact Reader.value_ite _ _ _ _
    rw [hValue]
    cases hSearch : L.search key with
    | none => simp [eq_comm (a := span)]
    | some s =>
        have hFlow : s.data.flow = some ⟨key.protocol, key.version, key.saddr, key.daddr, key.source,
            key.dest, s.data.active⟩ := by
          rw [SessionData.flow, (search_key hSearch).2, Option.map_some]
        cases hActive : s.data.active <;> simp [hFlow, hActive, eq_comm (a := span)]
  exact ⟨fun h => ⟨h.hands, hTaken.mp h.taken⟩, fun h => ⟨h.1, hTaken.mpr h.2⟩⟩

theorem handled_handleIcmp {version payload : Nat} {protocol : UInt8}
    (hHands : L.Hands pkt version protocol payload)
    (hIcmp : protocol = ipprotoIcmp ∨ protocol = ipprotoIcmpv6) :
    Handled L K pkt (L.handleIcmp K pkt version payload) := by
  unfold EventLoop.handleIcmp
  split
  · exact .ignored
  · rename_i span hSpan
    dsimp only
    split
    · rename_i pointer c hFound
      have hIn : (⟨pointer, .icmp c⟩ : NgSession) ∈ L.ngSession := List.mem_of_find?_eq_some hFound
      exact .echo _ hIn rfl
    · exact .ignored
    · rename_i hNone
      split
      · exact .ignored
      · rename_i c hNew
        have hEcho : pkt.mem payload = icmpEcho := by
          by_contra hOther
          simp [Tun2Http.handleIcmp, hOther] at hSpan
        exact .newIcmp _ hHands hIcmp hEcho hNone hNew

theorem handled_handleUdp {version payload : Nat}
    (hHands : L.Hands pkt version ipprotoUdp payload) :
    Handled L K pkt (L.handleUdp K pkt version payload) := by
  unfold EventLoop.handleUdp
  split
  · exact .ignored
  · rename_i span hSpan
    have hTakes : L.TakesUdp pkt version payload span := ⟨hHands, hSpan⟩
    dsimp only
    split
    · rename_i pointer c hFound
      exact .datagram (s := ⟨pointer, .udp c⟩) hTakes rfl hFound rfl
    · exact .ignored
    · rename_i hNone
      split
      · exact .ignored
      · rename_i c hNew
        exact .newUdp hTakes rfl hNone hNew

theorem handled_handleTcp {version payload : Nat}
    (hHands : L.Hands pkt version ipprotoTcp payload) :
    Handled L K pkt (L.handleTcp K pkt version payload) := by
  unfold EventLoop.handleTcp
  split
  · exact .ignored
  · rename_i span hSpan
    dsimp only
    split
    · rename_i pointer c hFound
      exact .segment (s := ⟨pointer, .tcp c⟩) span hHands hFound rfl
    · exact .ignored
    · rename_i hNone
      split_ifs with hSyn
      · split
        · exact .ignored
        · rename_i info hInfo
          split
          · exact .ignored
          · rename_i c hNew
            have hUrg : ((readTcpHdr payload).value pkt.mem).urg = false := by
              by_contra hUrgent
              have hDrop : ((readTcpHdr payload).value pkt.mem).urg = true := by simpa using hUrgent
              simp [Tun2Http.handleTcp, hDrop] at hSpan
            exact .newTcp span hHands rfl hUrg hNone hSyn hInfo hNew
      · exact .ignored

theorem handled_handleIp (L : EventLoop) (K : Kernel) (pkt : Packet) :
    Handled L K pkt (L.handleIp K pkt) := by
  unfold EventLoop.handleIp
  split
  · rename_i version protocol payload hHands
    split_ifs with hIcmp hUdp
    · exact handled_handleIcmp hHands hIcmp
    · subst hUdp
      exact handled_handleUdp hHands
    · have hAdmitted := (handleIp_handler_iff _ hHands).mp hHands
      have hTcp : protocol = ipprotoTcp := by
        rcases hAdmitted.upper with hTcp | hOther | hOther | hOther
        · exact hTcp
        · exact absurd hOther hUdp
        · exact absurd (Or.inl hOther) hIcmp
        · exact absurd (Or.inr hOther) hIcmp
      subst hTcp
      exact handled_handleTcp hHands
  · exact .ignored

/-! The cases of the handlers, one at a time. -/

theorem handleIp_eq {version payload : Nat} {protocol : UInt8}
    (hHands : L.Hands pkt version protocol payload) : L.handleIp K pkt =
      if protocol = ipprotoIcmp ∨ protocol = ipprotoIcmpv6 then L.handleIcmp K pkt version payload
      else if protocol = ipprotoUdp then L.handleUdp K pkt version payload
      else L.handleTcp K pkt version payload := by
  unfold EventLoop.handleIp
  rw [show (Tun2Http.handleIp L.context pkt.turns pkt.length).value pkt.mem = _ from hHands]

theorem handleIp_udp {version payload : Nat} (hHands : L.Hands pkt version ipprotoUdp payload) :
    L.handleIp K pkt = L.handleUdp K pkt version payload :=
  handleIp_eq hHands

theorem handleIp_tcp {version payload : Nat} (hHands : L.Hands pkt version ipprotoTcp payload) :
    L.handleIp K pkt = L.handleTcp K pkt version payload :=
  handleIp_eq hHands

theorem handleIcmp_new {version payload : Nat} {c : IcmpCell} (hEcho : pkt.mem payload = icmpEcho)
    (hNone : L.searchIcmp version ((readAddresses version).value pkt.mem) = none)
    (hNew : newIcmp K pkt.uid version ((readAddresses version).value pkt.mem)
      ((le16 (payload + 4)).value pkt.mem) = some c) :
    L.handleIcmp K pkt version payload = L.register K (.icmp (forwardIcmp K
      (pkt.echo version payload ⟨payload, remaining pkt.length payload⟩) c)) := by
  have hTaken : (Tun2Http.handleIcmp pkt.length version payload).value pkt.mem =
      some ⟨payload, remaining pkt.length payload⟩ := by
    simp [Tun2Http.handleIcmp, hEcho]
  unfold EventLoop.handleIcmp
  rw [hTaken]
  dsimp only
  rw [hNone]
  dsimp only
  rw [hNew]

theorem handleUdp_found {version payload : Nat} {span : Span} {s : NgSession} {c : UdpCell}
    (hTakes : L.TakesUdp pkt version payload span)
    (hFound : L.search (pkt.key ipprotoUdp version payload) = some s) (hData : s.data = .udp c) :
    L.handleUdp K pkt version payload = L.store s.pointer (.udp (forwardUdp K pkt.mem
      (pkt.key ipprotoUdp version payload).source (pkt.key ipprotoUdp version payload).dest
      span.data span.datalen c)) := by
  obtain ⟨pointer, data⟩ := s
  subst hData
  unfold EventLoop.handleUdp
  rw [hTakes.taken]
  dsimp only
  rw [hFound]

theorem handleUdp_new {version payload : Nat} {span : Span} {c : UdpCell}
    (hTakes : L.TakesUdp pkt version payload span)
    (hNone : L.search (pkt.key ipprotoUdp version payload) = none)
    (hNew : newUdp K pkt.uid version ((pkt.key ipprotoUdp version payload).saddr,
      (pkt.key ipprotoUdp version payload).daddr)
      (BitVec.ofNat 16 (pkt.key ipprotoUdp version payload).source)
      (BitVec.ofNat 16 (pkt.key ipprotoUdp version payload).dest) = some c) :
    L.handleUdp K pkt version payload = L.register K (.udp (forwardUdp K pkt.mem
      (pkt.key ipprotoUdp version payload).source (pkt.key ipprotoUdp version payload).dest
      span.data span.datalen c)) := by
  unfold EventLoop.handleUdp
  rw [hTakes.taken]
  dsimp only
  rw [hNone]
  dsimp only
  rw [hNew]

/-- Where a segment has no urgent data, its handler takes it. -/
theorem exists_handleTcp (X : IpContext) (turns length version : Nat) {payload : Nat} {mem : Memory}
    (hUrg : ((readTcpHdr payload).value mem).urg = false) :
    ∃ span, (Tun2Http.handleTcp X turns length version payload).value mem = some span := by
  simp only [Tun2Http.handleTcp, Reader.value_bind, Reader.value_ite, Reader.value_pure, hUrg,
    Bool.false_eq_true, if_false]
  split_ifs <;> exact ⟨_, rfl⟩

theorem handleTcp_found {version payload : Nat} {s : NgSession} {c : Cell}
    (hUrg : ((readTcpHdr payload).value pkt.mem).urg = false)
    (hFound : L.search (pkt.key ipprotoTcp version payload) = some s) (hData : s.data = .tcp c) :
    ∃ data, L.handleTcp K pkt version payload = L.store s.pointer
      (.tcp (step c (K, .segment ((readTcpHdr payload).value pkt.mem) data))) := by
  obtain ⟨pointer, data⟩ := s
  obtain ⟨span, hTaken⟩ := exists_handleTcp L.context pkt.turns pkt.length version hUrg
  subst hData
  refine ⟨pkt.payload span, ?_⟩
  unfold EventLoop.handleTcp
  rw [hTaken]
  dsimp only
  rw [hFound]

theorem handleTcp_new {version payload : Nat} {info : SynInfo}
    (hUrg : ((readTcpHdr payload).value pkt.mem).urg = false)
    (hSyn : ((readTcpHdr payload).value pkt.mem).syn = true)
    (hNone : L.search (pkt.key ipprotoTcp version payload) = none)
    (hInfo : pkt.synInfo version payload = some info) (hSocket : 0 ≤ openTcpSocket K) :
    ∃ c, L.handleTcp K pkt version payload = L.register K (.tcp c) := by
  obtain ⟨span, hTaken⟩ := exists_handleTcp L.context pkt.turns pkt.length version hUrg
  obtain ⟨c, hNew⟩ := Option.isSome_iff_exists.mp ((isSome_newSession K info
    ((readTcpHdr payload).value pkt.mem) (pkt.payload span)).mpr hSocket)
  refine ⟨c, ?_⟩
  unfold EventLoop.handleTcp
  rw [hTaken]
  dsimp only
  rw [hNone]
  dsimp only
  rw [if_pos hSyn, hInfo]
  dsimp only
  rw [hNew]

/-! Every step keeps the loop sound. -/

theorem Sound.handled {M : EventLoop} (h : Sound L) (hHandled : Handled L K pkt M) : Sound M := by
  cases hHandled with
  | ignored => exact h
  | @echo s c message hIn hData =>
      apply h.store hIn
      rw [hData]
      exact (SessionData.evolves_forwardIcmp K message c).toKeeps
  | @datagram version payload span key s c hTakes hKey hFound hData =>
      have hIn := List.mem_of_find?_eq_some hFound
      have hSound := h.sessions s hIn
      apply h.store hIn
      rw [hData] at hSound ⊢
      exact (SessionData.keeps_forwardUdp hSound K _ _ _ _ _).1
  | @segment version payload s c span hHands hFound hData =>
      have hIn := List.mem_of_find?_eq_some hFound
      have hSound := h.sessions s hIn
      apply h.store hIn
      rw [hData] at hSound ⊢
      exact SessionData.keeps_step hSound _
  | @newIcmp version payload protocol c message hHands hIcmp hEcho hNone hNew =>
      have hSound := (SessionData.evolves_forwardIcmp K message c).sound
      have hOpen := (newIcmp_eq hNew).1
      rw [← forwardIcmp_socket K message c] at hOpen
      exact h.register hSound hOpen
  | @newUdp version payload span key c hTakes hKey hNone hNew =>
      obtain ⟨hOpen, hState, -⟩ := newUdp_eq hNew
      have hStart : (SessionData.udp c).Sound := fun hOver => by simp [hState] at hOver
      have hKeeps := (SessionData.keeps_forwardUdp hStart K pkt.mem key.source key.dest span.data
        span.datalen).1
      have hSocket := forwardUdp_socket K pkt.mem key.source key.dest span.data span.datalen c
      rw [← hSocket] at hOpen
      exact h.register hKeeps.sound hOpen
  | @newTcp version payload info hdr c span hHands hHdr hUrg hNone hSyn hInfo hNew =>
      exact h.register ⟨lifecycle_newSession hNew, descriptor_newSession hNew⟩ (newSession_eq hNew).1

theorem Sound.pass (h : Sound L) (kernels : Nat → Kernel) (check : Bool) :
    Sound (L.pass kernels check) := by
  have hCounted : Sound { L with sessions := L.live } := ⟨h.pointers, h.fresh, h.sessions, h.epoll, h.freed⟩
  have hMonitored : Sound (({ L with sessions := L.live } : EventLoop).update fun s =>
      (s.data.monitor (kernels s.pointer), false)) :=
    hCounted.update (fun s hs => (SessionData.evolves_monitor (h.sessions s hs) _).toKeeps)
      fun s hs hGone => by cases hGone
  unfold EventLoop.pass
  dsimp only
  split_ifs
  · exact hMonitored.update (fun s hs =>
      (SessionData.evolves_check (hMonitored.sessions s hs) _ _ _).toKeeps)
      fun s hs => SessionData.check_freed (hMonitored.sessions s hs)
  · exact hMonitored

theorem Sound.start (h : Sound L) (kernels : Nat → Kernel) (fwd53 : Bool) (maxsessions : Int) :
    Sound (L.start kernels fwd53 maxsessions) := by
  have hEnded : Sound (L.update fun s => s.data.allowed (kernels s.pointer)) :=
    h.update (fun s hs => (SessionData.evolves_allowed (h.sessions s hs) _).1.toKeeps)
      fun s hs => SessionData.allowed_freed (h.sessions s hs)
  exact ⟨hEnded.pointers, hEnded.fresh, hEnded.sessions, by simp [EventLoop.start], hEnded.freed⟩

theorem Sound.event (h : Sound L) (K : Kernel) (registration : Int × Nat) (ev : EpollEvents) :
    Sound (L.event K registration ev) := by
  unfold EventLoop.event
  split_ifs
  · split
    · exact h
    · rename_i s hFound
      have hIn := List.mem_of_find?_eq_some hFound
      exact h.store hIn (SessionData.evolves_event (h.sessions s hIn) K ev).toKeeps
  · exact h

theorem Sound.step (h : Sound L) (input : LoopInput) : Sound (stepLoop L input) := by
  cases input with
  | start kernels fwd53 maxsessions => exact h.start kernels fwd53 maxsessions
  | pass kernels check => exact h.pass kernels check
  | packet K pkt => exact h.handled (handled_handleIp L K pkt)
  | event K registration ev => exact h.event K registration ev
  | clear =>
      refine ⟨keyed_nil _, by simp [stepLoop, clear], by simp [stepLoop, clear],
        by simp [stepLoop, clear], fun s hs => ?_⟩
      obtain ⟨hSocket, hFresh, -⟩ := h.freed s hs
      exact ⟨hSocket, hFresh, by simp [stepLoop, clear]⟩

end EventLoop

theorem sound_run (inputs : List LoopInput) : (run stepLoop .init inputs).Sound :=
  run_invariant_always inputs EventLoop.sound_init fun _ input h => h.step input

/-- A session of any protocol that is freed has no socket: a TCP session that is
over has given it up. So no registration of epoll points to a freed session. -/
theorem sessions_freed_closed (inputs : List LoopInput) :
    let L := run stepLoop .init inputs
    (∀ s ∈ L.freed, s.data.socket = -1) ∧
      (∀ s ∈ L.ngSession, ∀ c, s.data = .tcp c →
        c.tcp.state = .finWait1 ∨ c.tcp.state = .lastAck ∨ c.tcp.state = .close → c.socket = -1) ∧
      ∀ r ∈ L.epoll, (∃ s ∈ L.ngSession, s.pointer = r.2 ∧ s.data.socket = r.1) ∧
        ∀ s ∈ L.freed, s.pointer ≠ r.2 := by
  have h := sound_run inputs
  refine ⟨fun s hs => (h.freed s hs).1, fun s hs c hData hOver => ?_, fun r hr => ?_⟩
  · have hSound := h.sessions s hs
    rw [hData] at hSound
    exact (hSound.2 (hSound.1.socket hOver)).1
  · obtain ⟨-, s, hs, hPointer, hSocket⟩ := h.epoll r hr
    refine ⟨⟨s, hs, hPointer, hSocket⟩, fun t ht hSame => ?_⟩
    exact (h.freed t ht).2.2 s hs (hPointer.trans hSame.symm)

end Tun2Http
