import Tun2Http.Session.Loop

/-! The limit on sessions. They are counted at the top of the loop, while the
packets of a burst are handled one after the other. -/
namespace Tun2Http

open Machine

/-- `handle_events` begins with room for a session. -/
def LoopInput.Roomy : LoopInput → Prop
  | .start _ _ maxsessions => 1 ≤ maxsessions
  | _ => True

namespace EventLoop

variable {L M : EventLoop} {f : NgSession → SessionData × Bool} {K : Kernel} {pkt : Packet}

/-- No session of `M` is new. -/
def Settled (L M : EventLoop) : Prop :=
  ∀ t ∈ M.ngSession, ∃ s ∈ L.ngSession, s.pointer = t.pointer

/-- As many sessions as allowed are live, or were counted. -/
def AtLimit (L : EventLoop) : Prop := L.maxsessions ≤ L.live ∨ L.maxsessions ≤ L.sessions

/-- After the step no more sessions are live than allowed, and at the limit no
packet registers a session. -/
structure KeepsLimit (L : EventLoop) (input : LoopInput) : Prop where
  live : (stepLoop L input).live ≤ (stepLoop L input).maxsessions
  settled : ∀ K pkt, input = .packet K pkt → L.AtLimit → Settled L (stepLoop L input)

/-- The packet belongs to no session, and asks for one that can be opened. -/
inductive Opens (L : EventLoop) (K : Kernel) (pkt : Packet) : Prop where
  | echo {version payload : Nat} {protocol : UInt8} (hArrives : pkt.Arrives version protocol payload)
      (hIcmp : protocol = ipprotoIcmp ∨ protocol = ipprotoIcmpv6)
      (hEcho : pkt.mem payload = icmpEcho)
      (hNone : L.searchIcmp version ((readAddresses version).value pkt.mem) = none)
      (hSocket : 0 ≤ openDatagramSocket K)
  | datagram {version payload : Nat} (hArrives : pkt.Arrives version ipprotoUdp payload)
      (hNone : L.search (pkt.key ipprotoUdp version payload) = none)
      (hSocket : 0 ≤ openDatagramSocket K)
  | syn {version payload : Nat} (hArrives : pkt.Arrives version ipprotoTcp payload)
      (hSyn : ((readTcpHdr payload).value pkt.mem).syn = true)
      (hUrg : ((readTcpHdr payload).value pkt.mem).urg = false)
      (hOptions : (pkt.synInfo version payload).isSome = true)
      (hNone : L.search (pkt.key ipprotoTcp version payload) = none)
      (hSocket : 0 ≤ openTcpSocket K)

/-- The packet is a datagram to port 53, which is not forwarded. -/
def AsksName (L : EventLoop) (pkt : Packet) : Prop :=
  L.fwd53 = false ∧ ∃ version payload, pkt.Arrives version ipprotoUdp payload ∧
    (be16 (payload + 2)).value pkt.mem = 53

/-- The packet is a segment that revives its closing session. -/
def Reopens (L : EventLoop) (K : Kernel) (pkt : Packet) : Prop :=
  ∃ version payload s c data, pkt.Arrives version ipprotoTcp payload ∧
    Admitted L.context pkt.length version pkt.mem ipprotoTcp payload ∧
    L.search (pkt.key ipprotoTcp version payload) = some s ∧ s.data = .tcp c ∧
    Revives c (K, .segment ((readTcpHdr payload).value pkt.mem) data)

/-- At the limit a packet opens a session, because fewer were counted or it is
a datagram to port 53; or one revives a session. -/
def Overruns (L : EventLoop) : LoopInput → Prop
  | .packet K pkt =>
      (L.AtLimit ∧ L.Opens K pkt ∧ (L.sessions < L.maxsessions ∨ L.AsksName pkt)) ∨
        (L.maxsessions ≤ L.live ∧ L.Reopens K pkt)
  | _ => False

/-! How many sessions are live. -/

theorem live_update_le
    (hLive : ∀ s ∈ L.ngSession, (f s).1.live = true → s.data.live = true) :
    (L.update f).live ≤ L.live := by
  refine countP_filterMap_le fun s hs t hTreat hAfter => ?_
  split_ifs at hTreat
  cases hTreat
  exact hLive s hs hAfter

theorem live_store_le (h : Sound L) {s : NgSession} {data : SessionData} (hIn : s ∈ L.ngSession)
    (hLive : data.live = true → s.data.live = true) : (L.store s.pointer data).live ≤ L.live := by
  refine live_update_le fun t ht hAfter => ?_
  dsimp only at hAfter
  split_ifs at hAfter with hPointer
  · rw [h.eq_of_pointer hIn ht hPointer]
    exact hLive hAfter
  · exact hAfter

theorem live_store_le_succ (h : Sound L) (pointer : Nat) (data : SessionData) :
    (L.store pointer data).live ≤ L.live + 1 := by
  refine countP_filterMap_le_succ (k := pointer) h.pointers fun s hs hOther t hTreat hAfter => ?_
  have hPointer : s.pointer ≠ pointer := fun hSame => hOther (congrArg some hSame)
  simp only [if_neg hPointer, Bool.false_eq_true, if_false, Option.some.injEq] at hTreat
  subst hTreat
  exact hAfter

theorem live_lt_store (h : Sound L) {s : NgSession} {data : SessionData} (hIn : s ∈ L.ngSession)
    (hBefore : s.data.live = false) (hAfter : data.live = true) :
    L.live < (L.store s.pointer data).live := by
  refine countP_lt_filterMap hIn (b := ⟨s.pointer, data⟩) (by simp) hBefore hAfter
    fun t ht hLive => ⟨t, ?_, hLive⟩
  have hPointer : t.pointer ≠ s.pointer := fun hSame => by
    rw [h.eq_of_pointer hIn ht hSame, hBefore] at hLive
    cases hLive
  simp [hPointer]

theorem live_register_le (K : Kernel) (data : SessionData) :
    (L.register K data).live ≤ L.live + 1 := by
  unfold live EventLoop.register
  rw [List.countP_cons]
  split_ifs <;> omega

/-! Which packets register a session. -/

theorem settled_store (L : EventLoop) (pointer : Nat) (data : SessionData) :
    Settled L (L.store pointer data) := by
  intro t ht
  obtain ⟨s, hs, -, rfl⟩ := mem_update.mp ht
  exact ⟨s, hs, rfl⟩

theorem not_settled_register (h : Sound L) (K : Kernel) (data : SessionData) :
    ¬ Settled L (L.register K data) := by
  intro hSettled
  obtain ⟨s, hs, hPointer⟩ := hSettled ⟨L.next, data⟩ (List.mem_cons_self ..)
  exact absurd hPointer (Nat.ne_of_lt (h.fresh s hs))

/-- The packet has one header. -/
theorem arrives_unique {version version' payload payload' : Nat} {protocol protocol' : UInt8}
    (h : pkt.Arrives version protocol payload) (h' : pkt.Arrives version' protocol' payload') :
    version = version' ∧ protocol = protocol' ∧ payload = payload' := by
  have hSame := h.symm.trans h'
  simpa using hSame

/-- Of a datagram without a session, `has_udp_session` knows only port 53. -/
theorem hasUdpSession_iff {version payload : Nat}
    (hNone : L.search (pkt.key ipprotoUdp version payload) = none) :
    (hasUdpSession L.context version payload).value pkt.mem = true ↔
      L.fwd53 = false ∧ (be16 (payload + 2)).value pkt.mem = 53 := by
  have hFind := findSession_context L (pkt.key ipprotoUdp version payload)
  rw [hNone, Option.bind_none] at hFind
  have hUnknown : findSession L.context ipprotoUdp version ((readAddresses version).value pkt.mem)
      ((be16 payload).value pkt.mem) ((be16 (payload + 2)).value pkt.mem) = none := hFind
  have hFwd : L.context.fwd53 = L.fwd53 := rfl
  simp only [hasUdpSession, Reader.value_bind, Reader.value_ite, Reader.value_pure, hFwd]
  split_ifs with hName
  · exact iff_of_true rfl ⟨by simpa using hName.2, hName.1⟩
  · rw [hUnknown]
    refine iff_of_false (by simp) fun hBoth => hName ⟨hBoth.2, by simp [hBoth.1]⟩

/-- Where there is room or a name is asked for, a packet that opens a session
is handed on. -/
theorem Opens.handed (h : L.Opens K pkt)
    (hRoom : L.sessions < L.maxsessions ∨ L.AsksName pkt) :
    ∃ data, L.handleIp K pkt = L.register K data := by
  cases h with
  | @echo version payload protocol hArrives hIcmp hEcho hNone hSocket =>
      have hAdmitted := (handleIp_handler_iff _ hArrives).mp hArrives
      rw [Admitted, if_pos hIcmp] at hAdmitted
      have hCount : L.sessions < L.maxsessions := by
        refine hRoom.resolve_right fun hName => ?_
        obtain ⟨-, v, o, hArrives', -⟩ := hName
        rw [(arrives_unique hArrives hArrives').2.1] at hIcmp
        exact absurd hIcmp (by decide)
      have hHands : L.Hands pkt version protocol payload :=
        hands_iff.mpr ⟨hArrives, by rw [Admitted, if_pos hIcmp]; exact ⟨hAdmitted.1, hCount⟩⟩
      obtain ⟨c, hNew⟩ := Option.isSome_iff_exists.mp ((isSome_newIcmp K pkt.uid version
        ((readAddresses version).value pkt.mem) ((le16 (payload + 4)).value pkt.mem)).mpr hSocket)
      exact ⟨_, by rw [handleIp_eq hHands, if_pos hIcmp, handleIcmp_new hEcho hNone hNew]⟩
  | @datagram version payload hArrives hNone hSocket =>
      have hAdmitted := (handleIp_handler_iff _ hArrives).mp hArrives
      rw [Admitted, if_neg (by decide), if_pos rfl] at hAdmitted
      have hKnown : L.sessions < L.maxsessions ∨
          (hasUdpSession L.context version payload).value pkt.mem = true := by
        refine hRoom.imp id fun hName => (hasUdpSession_iff hNone).mpr ?_
        obtain ⟨hFwd, v, o, hArrives', hPort⟩ := hName
        rw [← (arrives_unique hArrives hArrives').2.2] at hPort
        exact ⟨hFwd, hPort⟩
      have hHands : L.Hands pkt version ipprotoUdp payload := by
        refine hands_iff.mpr ⟨hArrives, ?_⟩
        rw [Admitted, if_neg (by decide), if_pos rfl]
        exact ⟨hAdmitted.1, hKnown⟩
      have hTakes := takesUdp_iff.mpr
        ⟨hHands, fun s hFound => absurd (hNone.symm.trans hFound) (by simp), rfl⟩
      obtain ⟨c, hNew⟩ := Option.isSome_iff_exists.mp ((isSome_newUdp K pkt.uid version
        ((pkt.key ipprotoUdp version payload).saddr, (pkt.key ipprotoUdp version payload).daddr)
        (BitVec.ofNat 16 (pkt.key ipprotoUdp version payload).source)
        (BitVec.ofNat 16 (pkt.key ipprotoUdp version payload).dest)).mpr hSocket)
      exact ⟨_, by rw [handleIp_udp hHands, handleUdp_new hTakes hNone hNew]⟩
  | @syn version payload hArrives hSyn hUrg hOptions hNone hSocket =>
      have hAdmitted := (handleIp_handler_iff _ hArrives).mp hArrives
      rw [Admitted, if_neg (by decide), if_neg (by decide), if_pos rfl] at hAdmitted
      have hCount : L.sessions < L.maxsessions := by
        refine hRoom.resolve_right fun hName => ?_
        obtain ⟨-, v, o, hArrives', -⟩ := hName
        exact absurd (arrives_unique hArrives hArrives').2.1 (by decide)
      have hHands : L.Hands pkt version ipprotoTcp payload := by
        refine hands_iff.mpr ⟨hArrives, ?_⟩
        rw [Admitted, if_neg (by decide), if_neg (by decide), if_pos rfl]
        exact ⟨hAdmitted.1, Or.inl hCount⟩
      obtain ⟨info, hInfo⟩ := Option.isSome_iff_exists.mp hOptions
      obtain ⟨c, hNew⟩ := handleTcp_new hUrg hSyn hNone hInfo hSocket
      exact ⟨_, by rw [handleIp_tcp hHands, hNew]⟩

/-- Exactly the packets that open a session register one, where there is room
or a name is asked for. -/
theorem not_settled_iff (h : Sound L) : ¬ Settled L (L.handleIp K pkt) ↔
    L.Opens K pkt ∧ (L.sessions < L.maxsessions ∨ L.AsksName pkt) := by
  constructor
  · intro hNew
    have hHandled := handled_handleIp L K pkt
    generalize L.handleIp K pkt = M at hNew hHandled
    cases hHandled with
    | ignored => exact absurd (fun t ht => ⟨t, ht, rfl⟩) hNew
    | echo => exact absurd (settled_store L _ _) hNew
    | datagram => exact absurd (settled_store L _ _) hNew
    | segment => exact absurd (settled_store L _ _) hNew
    | newIcmp message hHands hIcmp hEcho hNone hNewIcmp =>
        obtain ⟨hArrives, hAdmitted⟩ := hands_iff.mp hHands
        rw [Admitted, if_pos hIcmp] at hAdmitted
        exact ⟨.echo hArrives hIcmp hEcho hNone ((isSome_newIcmp ..).mp
          (Option.isSome_of_eq_some hNewIcmp)), Or.inl hAdmitted.2⟩
    | newUdp hTakes hKey hNone hNewUdp =>
        obtain ⟨hArrives, hAdmitted⟩ := hands_iff.mp hTakes.hands
        subst hKey
        rw [Admitted, if_neg (by decide), if_pos rfl, hasUdpSession_iff hNone] at hAdmitted
        refine ⟨.datagram hArrives hNone ((isSome_newUdp ..).mp (Option.isSome_of_eq_some hNewUdp)), ?_⟩
        exact hAdmitted.2.imp id fun hName => ⟨hName.1, _, _, hArrives, hName.2⟩
    | newTcp span hHands hHdr hUrg hNone hSyn hInfo hNewTcp =>
        obtain ⟨hArrives, hAdmitted⟩ := hands_iff.mp hHands
        subst hHdr
        rw [Admitted, if_neg (by decide), if_neg (by decide), if_pos rfl] at hAdmitted
        have hFlag := of_decide_eq_true hSyn
        exact ⟨.syn hArrives hSyn hUrg (Option.isSome_of_eq_some hInfo) hNone
          ((isSome_newSession ..).mp (Option.isSome_of_eq_some hNewTcp)),
          Or.inl (hAdmitted.2.resolve_right hFlag)⟩
  · rintro ⟨hOpens, hRoom⟩
    obtain ⟨data, hStep⟩ := hOpens.handed hRoom
    rw [hStep]
    exact not_settled_register h K data

/-! What a step does to the number of live sessions. -/

/-- A segment that revives its session leaves it live. -/
theorem live_revived {c : Cell} {input : Kernel × Input} (hRevives : Revives c input) :
    (SessionData.tcp c).live = false ∧ (SessionData.tcp (step c input)).live = true := by
  have hState := revived_state hRevives
  exact ⟨by simp [SessionData.live, hRevives.1], by simp [SessionData.live, hState]⟩

theorem live_reopens (h : Sound L) (hReopens : L.Reopens K pkt) :
    L.live < (L.handleIp K pkt).live := by
  obtain ⟨version, payload, s, c, data, hArrives, hAdmitted, hFound, hData, hRevives⟩ := hReopens
  obtain ⟨hIn, -⟩ := search_key hFound
  have hHands : L.Hands pkt version ipprotoTcp payload := hands_iff.mpr ⟨hArrives, hAdmitted⟩
  have hUrg : ((readTcpHdr payload).value pkt.mem).urg = false := by
    obtain ⟨-, -, -, -, ⟨hdr, other, hInput, hPlain⟩, -⟩ := hRevives
    cases hInput
    exact hPlain
  obtain ⟨other, hStep⟩ := handleTcp_found (K := K) hUrg hFound hData
  have hOther : Revives c (K, .segment ((readTcpHdr payload).value pkt.mem) other) := by
    obtain ⟨hState, hSent, hPort, hSocket, -, hAnswer⟩ := hRevives
    exact ⟨hState, hSent, hPort, hSocket, ⟨_, other, rfl, hUrg⟩, hAnswer⟩
  obtain ⟨hBefore, hAfter⟩ := live_revived hOther
  rw [handleIp_tcp hHands, hStep]
  exact live_lt_store h hIn (hData ▸ hBefore) hAfter

theorem live_handled_le_succ {M : EventLoop} (h : Sound L) (hHandled : Handled L K pkt M) :
    M.live ≤ L.live + 1 := by
  cases hHandled with
  | ignored => exact Nat.le_succ _
  | echo => exact live_store_le_succ h _ _
  | datagram => exact live_store_le_succ h _ _
  | segment => exact live_store_le_succ h _ _
  | newIcmp => exact live_register_le K _
  | newUdp => exact live_register_le K _
  | newTcp => exact live_register_le K _

/-- A packet that neither registers nor revives a session leaves no more live. -/
theorem live_handled_le {M : EventLoop} (h : Sound L) (hHandled : Handled L K pkt M)
    (hSettled : Settled L M) (hStill : ¬ L.Reopens K pkt) : M.live ≤ L.live := by
  cases hHandled with
  | ignored => exact le_rfl
  | @echo s c message hIn hData =>
      refine live_store_le h hIn ?_
      rw [hData]
      exact (SessionData.evolves_forwardIcmp K message c).live
  | @datagram version payload span key s c hTakes hKey hFound hData =>
      obtain ⟨hIn, -⟩ := search_key hFound
      have hSound := h.sessions s hIn
      refine live_store_le h hIn ?_
      rw [hData] at hSound ⊢
      exact (SessionData.keeps_forwardUdp hSound K _ _ _ _ _).2
  | @segment version payload s c span hHands hFound hData =>
      obtain ⟨hIn, -⟩ := search_key hFound
      obtain ⟨hArrives, hAdmitted⟩ := hands_iff.mp hHands
      have hSound := h.sessions s hIn
      refine live_store_le h hIn ?_
      rw [hData] at hSound ⊢
      exact SessionData.live_step hSound fun hRevives =>
        hStill ⟨version, payload, s, c, _, hArrives, hAdmitted, hFound, hData, hRevives⟩
  | newIcmp => exact absurd hSettled (not_settled_register h K _)
  | newUdp => exact absurd hSettled (not_settled_register h K _)
  | newTcp => exact absurd hSettled (not_settled_register h K _)

theorem live_start (h : Sound L) (kernels : Nat → Kernel) (fwd53 : Bool) (maxsessions : Int) :
    (L.start kernels fwd53 maxsessions).live = 0 := by
  refine List.countP_eq_zero.mpr fun t ht => ?_
  obtain ⟨s, hs, -, rfl⟩ := mem_update.mp ht
  simp [(SessionData.evolves_allowed (h.sessions s hs) (kernels s.pointer)).2]

theorem live_pass_le (h : Sound L) (kernels : Nat → Kernel) (check : Bool) :
    (L.pass kernels check).live ≤ L.live := by
  have hMonitored : (({ L with sessions := L.live } : EventLoop).update fun s =>
      (s.data.monitor (kernels s.pointer), false)).live ≤ L.live :=
    live_update_le fun s hs => (SessionData.evolves_monitor (h.sessions s hs) _).live
  have hSound := h.pass kernels false
  unfold EventLoop.pass at hSound ⊢
  dsimp only at hSound ⊢
  split_ifs
  · exact (live_update_le fun s hs =>
      (SessionData.evolves_check (hSound.sessions s hs) _ _ _).live).trans hMonitored
  · exact hMonitored

theorem live_event_le (h : Sound L) (K : Kernel) (registration : Int × Nat) (ev : EpollEvents) :
    (L.event K registration ev).live ≤ L.live := by
  unfold EventLoop.event
  split_ifs
  · split
    · exact le_rfl
    · rename_i s hFound
      have hIn := List.mem_of_find?_eq_some hFound
      exact live_store_le h hIn (SessionData.evolves_event (h.sessions s hIn) K ev).live
  · exact le_rfl

theorem maxsessions_handled {M : EventLoop} (hHandled : Handled L K pkt M) :
    M.maxsessions = L.maxsessions := by
  cases hHandled <;> rfl

theorem maxsessions_event (L : EventLoop) (K : Kernel) (registration : Int × Nat)
    (ev : EpollEvents) : (L.event K registration ev).maxsessions = L.maxsessions := by
  unfold EventLoop.event
  split_ifs
  · split <;> rfl
  · rfl

theorem maxsessions_pass (L : EventLoop) (kernels : Nat → Kernel) (check : Bool) :
    (L.pass kernels check).maxsessions = L.maxsessions := by
  unfold EventLoop.pass
  dsimp only
  split_ifs <;> rfl

/-- A step that does not overrun the limit keeps it. -/
theorem keepsLimit_step (h : Sound L) (hLimit : L.live ≤ L.maxsessions) {input : LoopInput}
    (hStill : ¬ Overruns L input) (hRoomy : input.Roomy) : KeepsLimit L input := by
  cases input with
  | start kernels fwd53 maxsessions =>
      refine ⟨?_, fun K pkt hInput => by cases hInput⟩
      have hLive : (stepLoop L (.start kernels fwd53 maxsessions)).live = 0 :=
        live_start h kernels fwd53 maxsessions
      have hMax : (stepLoop L (.start kernels fwd53 maxsessions)).maxsessions = maxsessions := rfl
      have hRoom : 1 ≤ maxsessions := hRoomy
      omega
  | pass kernels check =>
      refine ⟨?_, fun K pkt hInput => by cases hInput⟩
      have hLive : (stepLoop L (.pass kernels check)).live ≤ L.live := live_pass_le h kernels check
      have hMax : (stepLoop L (.pass kernels check)).maxsessions = L.maxsessions :=
        maxsessions_pass L kernels check
      omega
  | event K registration ev =>
      refine ⟨?_, fun K pkt hInput => by cases hInput⟩
      have hLive : (stepLoop L (.event K registration ev)).live ≤ L.live :=
        live_event_le h K registration ev
      have hMax : (stepLoop L (.event K registration ev)).maxsessions = L.maxsessions :=
        maxsessions_event L K registration ev
      omega
  | clear =>
      refine ⟨?_, fun K pkt hInput => by cases hInput⟩
      have hLive : (stepLoop L .clear).live = 0 := rfl
      have hMax : (stepLoop L .clear).maxsessions = L.maxsessions := rfl
      omega
  | packet K pkt =>
      obtain ⟨hOpens, hReopens⟩ := not_or.mp hStill
      have hHandled : Handled L K pkt (stepLoop L (.packet K pkt)) := handled_handleIp L K pkt
      have hMax := maxsessions_handled hHandled
      have hSettled : L.AtLimit → Settled L (stepLoop L (.packet K pkt)) := fun hAt =>
        by_contra fun hNew => hOpens ⟨hAt, (not_settled_iff h).mp hNew⟩
      refine ⟨?_, fun _ _ hInput => by cases hInput; exact hSettled⟩
      by_cases hFull : L.maxsessions ≤ L.live
      · have hLive := live_handled_le h hHandled (hSettled (Or.inl hFull)) fun hRevived =>
          hReopens ⟨hFull, hRevived⟩
        omega
      · have hLive := live_handled_le_succ h hHandled
        omega

theorem not_keepsLimit (h : Sound L) {input : LoopInput} (hOverruns : Overruns L input) :
    ¬ KeepsLimit L input := by
  intro hKeeps
  cases input with
  | packet K pkt =>
      rcases hOverruns with ⟨hAt, hOpens⟩ | ⟨hFull, hReopens⟩
      · exact (not_settled_iff h).mpr hOpens (hKeeps.settled K pkt rfl hAt)
      · have hLive : L.live < (stepLoop L (.packet K pkt)).live := live_reopens h hReopens
        have hKept := hKeeps.live
        have hMax : (stepLoop L (.packet K pkt)).maxsessions = L.maxsessions :=
          maxsessions_handled (handled_handleIp L K pkt)
        omega
  | start => exact hOverruns
  | pass => exact hOverruns
  | event => exact hOverruns
  | clear => exact hOverruns

end EventLoop

/-- The limit is kept in exactly the runs in which no packet overruns it. -/
theorem session_limit_iff (inputs : List LoopInput) (hRoomy : ∀ input ∈ inputs, input.Roomy) :
    Along stepLoop EventLoop.KeepsLimit .init inputs ↔
      Along stepLoop (fun L input => ¬ EventLoop.Overruns L input) .init inputs := by
  constructor
  · intro hAlong
    exact along_of_invariant EventLoop.sound_init hAlong (fun L input h _ => h.step input)
      fun L input h hKeeps hOverruns => EventLoop.not_keepsLimit h hOverruns hKeeps
  · intro hAlong
    have hBoth := hAlong.and (along_of_forall EventLoop.init hRoomy)
    have hStart : EventLoop.init.Sound ∧ (EventLoop.init.live : Int) ≤ EventLoop.init.maxsessions :=
      ⟨EventLoop.sound_init, le_rfl⟩
    exact along_of_invariant (I := fun L => L.Sound ∧ (L.live : Int) ≤ L.maxsessions) hStart hBoth
      (fun L input h hOk => ⟨h.1.step input, (EventLoop.keepsLimit_step h.1 h.2 hOk.1 hOk.2).live⟩)
      fun L input h hOk => EventLoop.keepsLimit_step h.1 h.2 hOk.1 hOk.2

/-- An empty UDP datagram of the client, from `source` to `dest`. -/
def clientDatagram (source dest : UInt8) : Packet where
  mem := packetMemory [0x45, 0, 0, 28, 0, 0, 0, 0, 64, 17, 0, 0, 10, 1, 10, 1, 8, 8, 8, 8,
    0, source, 0, dest, 0, 8, 0, 0]
  length := 28
  turns := 0
  uid := 10001

/-- A datagram within the limit. -/
theorem session_limit_iff_client :
    Along stepLoop EventLoop.KeepsLimit .init [.start (fun _ => .willing) false 1,
        .pass (fun _ => .willing) true, .packet .willing (clientDatagram 1 100)] ↔
      Along stepLoop (fun L input => ¬ EventLoop.Overruns L input) .init
        [.start (fun _ => .willing) false 1, .pass (fun _ => .willing) true,
          .packet .willing (clientDatagram 1 100)] :=
  session_limit_iff _ (by simp [LoopInput.Roomy])

/-- Two datagrams of one burst open two sessions where one is allowed. -/
theorem session_limit_exceeded : ∃ inputs : List LoopInput, (∀ input ∈ inputs, input.Roomy) ∧
    ¬ Along stepLoop EventLoop.KeepsLimit .init inputs := by
  refine ⟨[.start (fun _ => .willing) false 1, .pass (fun _ => .willing) true,
    .packet .willing (clientDatagram 1 100), .packet .willing (clientDatagram 2 100)],
    by simp [LoopInput.Roomy], fun hAlong => ?_⟩
  have hLive := hAlong.2.2.2.1.live
  revert hLive
  decide

end Tun2Http
