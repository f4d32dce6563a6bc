import Tun2Http.Native.TcpMoves

/-! The life cycle of a session: which states go with an open socket, an
established tunnel and an empty queue, and in which order they come. -/
namespace Tun2Http

open Machine

/-- What holds of a session between any two steps. -/
structure Lifecycle (c : Cell) : Prop where
  set : c.tcp.state ≠ .unset
  socket : c.tcp.state = .finWait1 ∨ c.tcp.state = .lastAck ∨ c.tcp.state = .close → c.socket < 0
  empty : c.tcp.state = .finWait1 ∨ c.tcp.state = .lastAck → c.tcp.forward = []
  tunnel : c.tcp.dest = 443 → c.tcp.state = .established ∨ c.tcp.state = .closeWait ∨
    c.tcp.state = .finWait1 ∨ c.tcp.state = .lastAck → c.tcp.connectSent = .established
  proxied : c.tcp.connectSent = .sent → c.tcp.dest = 443

/-- A closing session meets every condition but the one on its port. -/
theorem Lifecycle.of_closing {c : Cell} (hState : c.tcp.state = .closing)
    (hProxied : c.tcp.connectSent = .sent → c.tcp.dest = 443) : Lifecycle c := by
  constructor <;> simp [hState]
  exact hProxied

variable {K : Kernel} {i : Input} {start c d : Cell}

/-- Where the FIN of the client is counted nothing is queued. -/
theorem Lifecycle.empty_of_fin {next : TcpState} (h : Lifecycle c)
    (hState : (c.tcp.state = .established ∧ c.tcp.forward = [] ∧ next = .closeWait) ∨
      (c.tcp.state = .finWait1 ∧ next = .close)) : c.tcp.forward = [] := by
  rcases hState with ⟨-, hQueue, -⟩ | ⟨hState, -⟩
  · exact hQueue
  · exact h.empty (Or.inl hState)

theorem Lifecycle.quiet (h : Lifecycle c) (hQuiet : Quiet c d) : Lifecycle d := by
  obtain ⟨hSet, hSocket, hEmpty, hTunnel, hProxied⟩ := h
  constructor <;> simpa only [hQuiet.state, hQuiet.socket, hQuiet.forward, hQuiet.dest,
    hQuiet.connectSent]

theorem Lifecycle.afterWrite (h : Lifecycle c) (packet : TcpPacket) (whole : Bool) :
    Lifecycle (afterWrite c packet whole) := by
  cases whole with
  | false => exact .of_closing rfl h.proxied
  | true => exact ⟨h.set, h.socket, h.empty, h.tunnel, h.proxied⟩

theorem Lifecycle.writeRst (h : Lifecycle c) : Lifecycle (writeRst K c) := by
  have hState := writeRst_state K c
  obtain ⟨hForward, hDest, hConnect, -⟩ := writeRst_tcp (K := K) c
  by_cases hClose : c.tcp.state = .close
  · rw [if_pos hClose] at hState
    constructor <;> simp only [hState, hForward, hDest, hConnect, writeRst_socket]
    · simp
    · exact fun _ => h.socket (Or.inr (Or.inr hClose))
    · simp
    · simp
    · exact h.proxied
  · rw [if_neg hClose] at hState
    exact .of_closing hState (by rw [hConnect, hDest]; exact h.proxied)

/-- A move keeps the life cycle. -/
theorem Lifecycle.move (h : Lifecycle c) (hMove : Move K i start c d) : Lifecycle d := by
  cases hMove with
  | quiet hSilent => exact h.quiet hSilent.toQuiet
  | write => exact h.afterWrite _ _
  | relay bytes =>
      obtain ⟨d, whole, hBefore, hAfter⟩ := relay_quiet (K := K) bytes c (readSize c.tcp)
      exact ((h.quiet hBefore).afterWrite _ whole).quiet hAfter
  | reset => exact h.writeRst
  | synAck ev whole hInput hError hRead hState =>
      cases whole with
      | false => exact .of_closing rfl h.proxied
      | true => exact ⟨by simp, by simp, by simp, by simp, h.proxied⟩
  | forward seg rest hTurn hQueue hNext hState hSocket =>
      have hOpen : ¬ (c.tcp.state = .finWait1 ∨ c.tcp.state = .lastAck) := fun hDone =>
        not_le.mpr (h.socket (hDone.elim Or.inl fun h => Or.inr (Or.inl h))) hSocket
      rw [forwardTurn_eq]
      split_ifs
      · exact ⟨h.set, h.socket, fun hDone => absurd hDone hOpen, h.tunnel, h.proxied⟩
      · exact ⟨h.set, h.socket, fun hDone => absurd hDone hOpen, h.tunnel, h.proxied⟩
  | confirmFin => exact ⟨h.set, h.socket, h.empty, h.tunnel, h.proxied⟩
  | queue hdr data hInput hSeq hQueue hSame hOpen =>
      refine ⟨h.set, h.socket, fun hDone => ?_, h.tunnel, h.proxied⟩
      rcases hOpen with ⟨hPort, hSent⟩ | ⟨hData, hSocket, hRest⟩
      · exact absurd (h.tunnel hPort (Or.inr (Or.inr hDone))) hSent
      · exact absurd hSocket (not_le.mpr (h.socket (hDone.elim Or.inl fun h => Or.inr (Or.inl h))))
  | finQueued hState hQueue =>
      exact ⟨by simp, by simp, by simp, fun hPort _ => h.tunnel hPort (Or.inl hState), h.proxied⟩
  | fin next whole hState =>
      cases whole with
      | false => exact .of_closing rfl h.proxied
      | true =>
          rcases hState with ⟨hState, hQueue, rfl⟩ | ⟨hState, rfl⟩
          · exact ⟨by simp, by simp, by simp, fun hPort _ => h.tunnel hPort (Or.inl hState), h.proxied⟩
          · exact ⟨by simp, fun _ => h.socket (Or.inl hState), by simp, by simp, h.proxied⟩
  | establish hState hTunnel =>
      exact ⟨by simp, by simp, by simp, fun hPort _ => hTunnel hPort, h.proxied⟩
  | lastAck hState => exact .of_closing rfl h.proxied
  | abort hOpen => exact .of_closing rfl h.proxied
  | connect hdr data count hQuiet hInput hUrg hPort hSent hSocket hAnswer =>
      exact ⟨by simp, by simp, by simp, by simp, fun _ => hPort⟩
  | reply hState hSent => exact ⟨by simp, by simp, by simp, fun _ _ => rfl, by simp⟩
  | shutdown next hQueue hState =>
      have hClosed : (Tun2Http.closeSocket (c.setState next)).socket < 0 := Int.negSucc_lt_zero 0
      refine ⟨?_, fun _ => hClosed, fun _ => hQueue, fun hPort _ => ?_, h.proxied⟩
      · rcases hState with ⟨-, rfl⟩ | ⟨-, rfl⟩ <;> simp [Tun2Http.closeSocket]
      · rcases hState with ⟨hState, -⟩ | ⟨hState, -⟩
        · exact h.tunnel hPort (Or.inl hState)
        · exact h.tunnel hPort (Or.inr (Or.inl hState))
  | closeSocket hState => exact .of_closing hState h.proxied
  | closed hState hSocket => exact ⟨by simp, fun _ => hSocket, by simp, by simp, h.proxied⟩

/-- A session that a SYN opens begins its life cycle. -/
theorem lifecycle_newSession {info : SynInfo} {hdr : TcpHdr} {data : Payload}
    (hNew : newSession K info hdr data = some c) : Lifecycle c := by
  obtain ⟨-, -, window, hTcp⟩ := newSession_eq hNew
  constructor <;> simp only [hTcp, synSession]
  · simp
  · simp
  · simp
  · simp
  · split_ifs <;> simp

theorem Lifecycle.step (h : Lifecycle c) (input : Kernel × Input) : Lifecycle (step c input) :=
  moves_invariant (step_moves c input.1 input.2) h fun _ _ hInv hMove => hInv.move hMove

theorem Reachable.lifecycle (h : Reachable c) : Lifecycle c := by
  obtain ⟨K, info, hdr, data, start, inputs, hNew, rfl⟩ := h
  exact run_invariant_always inputs (lifecycle_newSession hNew) fun c i hc => hc.step i

/-- The session is closing or closed. -/
def Closed (c : Cell) : Prop := c.tcp.state = .closing ∨ c.tcp.state = .close

instance (c : Cell) : Decidable (Closed c) := inferInstanceAs (Decidable (_ ∨ _))

/-- The descriptor is given up only on the way out, and is `-1` from then on. -/
def Descriptor (c : Cell) : Prop :=
  c.socket < 0 → c.socket = -1 ∧ (c.tcp.state = .finWait1 ∨ c.tcp.state = .lastAck ∨
    c.tcp.state = .closing ∨ c.tcp.state = .close)

theorem Descriptor.of_nonneg (hSocket : 0 ≤ c.socket) : Descriptor c :=
  fun hClosed => absurd hSocket (not_le.mpr hClosed)

/-- The descriptor stays what it is, and the state stays or is closed. -/
theorem Descriptor.of_eq (h : Descriptor c) (hSocket : d.socket = c.socket)
    (hState : d.tcp.state = c.tcp.state ∨ d.tcp.state = .closing ∨ d.tcp.state = .close) :
    Descriptor d := by
  intro hClosed
  obtain ⟨hMinus, hOut⟩ := h (hSocket ▸ hClosed)
  refine ⟨hSocket.trans hMinus, ?_⟩
  rcases hState with hSame | hClosing | hClose
  · rwa [hSame]
  · exact Or.inr (Or.inr (Or.inl hClosing))
  · exact Or.inr (Or.inr (Or.inr hClose))

theorem afterWrite_state_cases (c : Cell) (packet : TcpPacket) (whole : Bool) :
    (afterWrite c packet whole).tcp.state = c.tcp.state ∨
      (afterWrite c packet whole).tcp.state = .closing ∨
      (afterWrite c packet whole).tcp.state = .close := by
  cases whole with
  | false => exact Or.inr (Or.inl rfl)
  | true => exact Or.inl rfl

/-- An open state has an open socket. -/
theorem Descriptor.nonneg (h : Descriptor c) (hState : ¬ (c.tcp.state = .finWait1 ∨
    c.tcp.state = .lastAck ∨ c.tcp.state = .closing ∨ c.tcp.state = .close)) : 0 ≤ c.socket :=
  not_lt.mp fun hClosed => hState (h hClosed).2

/-- A move keeps the descriptor. -/
theorem Descriptor.move (h : Descriptor c) (hMove : Move K i start c d) : Descriptor d := by
  cases hMove with
  | quiet hSilent => exact h.of_eq hSilent.socket (Or.inl hSilent.state)
  | write => exact h.of_eq (afterWrite_socket _ _ _) (afterWrite_state_cases _ _ _)
  | relay bytes hState =>
      obtain ⟨e, whole, hBefore, hAfter⟩ := relay_quiet (K := K) bytes c (readSize c.tcp)
      have hRead := h.of_eq hBefore.socket (Or.inl hBefore.state)
      exact (hRead.of_eq (afterWrite_socket e _ whole) (afterWrite_state_cases e _ whole)).of_eq
        hAfter.socket (Or.inl hAfter.state)
  | reset =>
      apply h.of_eq (writeRst_socket c)
      rw [writeRst_state]
      split_ifs <;> simp
  | synAck ev whole hInput hError hRead hState =>
      have hOpen : 0 ≤ start.socket := h.nonneg (by simp [hState])
      cases whole <;> exact .of_nonneg hOpen
  | forward seg rest hTurn hQueue hNext hState hSocket =>
      exact .of_nonneg ((forwardTurn_socket (K := K) seg rest c).symm ▸ hSocket)
  | confirmFin => exact h.of_eq rfl (Or.inl rfl)
  | queue => exact h.of_eq rfl (Or.inl rfl)
  | finQueued hState =>
      have hOpen : 0 ≤ c.socket := h.nonneg (by simp [hState])
      exact .of_nonneg hOpen
  | fin next whole hState =>
      cases whole with
      | false => exact h.of_eq rfl (Or.inr (Or.inl rfl))
      | true =>
          rcases hState with ⟨hState, -, rfl⟩ | ⟨hState, rfl⟩
          · have hOpen : 0 ≤ c.socket := h.nonneg (by simp [hState])
            exact .of_nonneg hOpen
          · exact h.of_eq rfl (Or.inr (Or.inr rfl))
  | establish hState hTunnel =>
      have hOpen : 0 ≤ c.socket := h.nonneg (by simp [hState])
      exact .of_nonneg hOpen
  | lastAck => exact h.of_eq rfl (Or.inr (Or.inl rfl))
  | abort => exact h.of_eq rfl (Or.inr (Or.inl rfl))
  | connect hdr data count hQuiet hInput hUrg hPort hSent hSocket => exact .of_nonneg hSocket
  | reply hState hSent =>
      have hOpen : 0 ≤ c.socket := h.nonneg (by simp [hState])
      exact .of_nonneg hOpen
  | shutdown next hQueue hState =>
      intro _
      refine ⟨rfl, ?_⟩
      rcases hState with ⟨-, rfl⟩ | ⟨-, rfl⟩ <;> simp [Tun2Http.closeSocket]
  | closeSocket hState => exact fun _ => ⟨rfl, Or.inr (Or.inr (Or.inl hState))⟩
  | closed => exact h.of_eq rfl (Or.inr (Or.inr rfl))

theorem Descriptor.step (h : Descriptor c) (input : Kernel × Input) : Descriptor (step c input) :=
  moves_invariant (step_moves c input.1 input.2) h fun _ _ hInv hMove => hInv.move hMove

theorem descriptor_newSession {info : SynInfo} {hdr : TcpHdr} {data : Payload}
    (hNew : newSession K info hdr data = some c) : Descriptor c :=
  .of_nonneg (newSession_eq hNew).1

theorem Reachable.descriptor (h : Reachable c) : Descriptor c := by
  obtain ⟨K, info, hdr, data, start, inputs, hNew, rfl⟩ := h
  exact run_invariant_always inputs (descriptor_newSession hNew) fun c i hc => hc.step i

/-- How far a state is on the way out. -/
def TcpState.closed : TcpState → Nat
  | .closing => 1
  | .close => 2
  | _ => 0

theorem TcpState.closed_le_iff (a b : TcpState) :
    a.closed ≤ b.closed ↔
      ((a = .closing ∨ a = .close) → (b = .closing ∨ b = .close)) ∧ (a = .close → b = .close) := by
  cases a <;> cases b <;> simp [closed]

/-- At no later moment of the run is a closing session open, or a closed one
anything else. -/
def ClosingFinal (start : Cell) (inputs : List (Kernel × Input)) : Prop :=
  ∀ first second third, inputs = first ++ second ++ third →
    let earlier := (run step start first).tcp.state
    let later := (run step start (first ++ second)).tcp.state
    ((earlier = .closing ∨ earlier = .close) → (later = .closing ∨ later = .close)) ∧
      (earlier = .close → later = .close)

/-- The step is a packet for port 443 in `TCP_CLOSING`, before any CONNECT was
sent and with the socket still open, and `send()` takes the request. -/
def Revives (c : Cell) (input : Kernel × Input) : Prop :=
  c.tcp.state = .closing ∧ c.tcp.connectSent = .notSent ∧ c.tcp.dest = 443 ∧ 0 ≤ c.socket ∧
    (∃ hdr data, input.2 = .segment hdr data ∧ hdr.urg = false) ∧
    ∃ count, input.1.send c.calls = .accepted count

theorem TcpState.closed_le_one {s : TcpState} (h : s ≠ .close) : s.closed ≤ 1 := by
  cases s <;> simp_all [closed]

theorem Lifecycle.not_close (h : Lifecycle c) (hOpen : c.tcp.state ≠ .close ∨ 0 ≤ c.socket) :
    c.tcp.state ≠ .close :=
  hOpen.elim id fun hSocket hClose => not_le.mpr (h.socket (Or.inr (Or.inr hClose))) hSocket

theorem closed_afterWrite (packet : TcpPacket) (whole : Bool) (hClose : c.tcp.state ≠ .close) :
    c.tcp.state.closed ≤ (afterWrite c packet whole).tcp.state.closed := by
  rw [afterWrite_tcp]
  cases whole with
  | false => exact TcpState.closed_le_one hClose
  | true => exact le_rfl

/-- No other move leads back. -/
theorem closed_move (h : Lifecycle c) (hMove : Move K i start c d)
    (hStart : ¬ Revives start (K, i)) : c.tcp.state.closed ≤ d.tcp.state.closed := by
  cases hMove with
  | quiet hQuiet => rw [hQuiet.state]
  | write back fin whole hBack hOpen =>
      exact closed_afterWrite _ whole (h.not_close hOpen)
  | relay bytes hState =>
      obtain ⟨d, whole, hBefore, hAfter⟩ := relay_quiet (K := K) bytes c (readSize c.tcp)
      rw [hAfter.state, ← hBefore.state]
      apply closed_afterWrite _ whole
      rw [hBefore.state]
      rcases hState with h | h <;> rw [h] <;> decide
  | reset =>
      rw [writeRst_state]
      split_ifs with hClose
      · rw [hClose]
      · exact TcpState.closed_le_one hClose
  | synAck ev whole hInput hError hRead hState => simp [hState, TcpState.closed]
  | forward => rw [forwardTurn_state]
  | confirmFin => exact le_rfl
  | queue => exact le_rfl
  | finQueued hState => simp [hState, TcpState.closed]
  | fin next whole hState =>
      rcases hState with ⟨hState, -⟩ | ⟨hState, -⟩ <;> simp [hState, TcpState.closed]
  | establish hState => simp [hState, TcpState.closed]
  | lastAck hState => simp [hState, TcpState.closed]
  | abort hOpen => exact TcpState.closed_le_one (h.not_close hOpen)
  | connect hdr data count hQuiet hInput hUrg hPort hSent hSocket hAnswer =>
      have hClosing : c.tcp.state ≠ .closing := fun hState => hStart
        ⟨hQuiet.state ▸ hState, hQuiet.connectSent ▸ hSent, hQuiet.dest ▸ hPort,
          hQuiet.socket ▸ hSocket, ⟨hdr, data, hInput, hUrg⟩, count, hAnswer⟩
      have hClose := h.not_close (Or.inr hSocket)
      revert hClosing hClose
      cases c.tcp.state <;> simp [TcpState.closed]
  | reply hState => simp [hState, TcpState.closed]
  | shutdown next hQueue hState =>
      rcases hState with ⟨hState, -⟩ | ⟨hState, -⟩ <;> simp [hState, TcpState.closed]
  | closeSocket => exact le_rfl
  | closed hState => simp [hState, TcpState.closed]

/-- A packet that sends the CONNECT request puts the session in `TCP_LISTEN`. -/
theorem revived_state (hRevives : Revives c (K, i)) :
    (Tun2Http.step c (K, i)).tcp.state = .listen := by
  obtain ⟨-, hSent, hPort, hSocket, ⟨hdr, data, rfl, hUrg⟩, count, hAnswer⟩ := hRevives
  rcases connectPhase_cases (K := K) data c with ⟨hTried, -⟩ | hFailed | hConnected
  · exact absurd hSent hTried
  · obtain ⟨d, -, -, hRefused, -⟩ := hFailed
    exact absurd ⟨hSocket, count, hAnswer⟩ hRefused
  · obtain ⟨d, count, -, -, -, -, hEq⟩ := hConnected
    simp [Tun2Http.step, existingSession, hUrg, hPort, tunnelSegment, hEq]

/-- A step moves a session back exactly where it revives it. -/
theorem closed_step_iff (h : Lifecycle c) (input : Kernel × Input) :
    c.tcp.state.closed ≤ (Tun2Http.step c input).tcp.state.closed ↔ ¬ Revives c input := by
  constructor
  · intro hRank hRevives
    rw [revived_state hRevives, hRevives.1] at hRank
    exact absurd hRank (by decide)
  · intro hStart
    have hMoves := moves_invariant
      (I := fun d => Lifecycle d ∧ c.tcp.state.closed ≤ d.tcp.state.closed)
      (step_moves c input.1 input.2) ⟨h, le_rfl⟩ fun a b hInv hMove =>
        ⟨hInv.1.move hMove, hInv.2.trans (closed_move hInv.1 hMove hStart)⟩
    exact hMoves.2

/-- Closing is final in exactly the runs in which no CONNECT is accepted for a
closing session. -/
theorem closing_final_iff {info : SynInfo} {hdr : TcpHdr} {data : Payload}
    (hNew : newSession K info hdr data = some start) (inputs : List (Kernel × Input)) :
    ClosingFinal start inputs ↔ Along step (fun c input => ¬ Revives c input) start inputs := by
  have hRank : ClosingFinal start inputs ↔ ∀ first second third, inputs = first ++ second ++ third →
      (run step start first).tcp.state.closed ≤ (run step start (first ++ second)).tcp.state.closed := by
    simp only [ClosingFinal, TcpState.closed_le_iff]
  rw [hRank, ← along_rank_iff step (fun c => c.tcp.state.closed)]
  exact along_congr (lifecycle_newSession hNew) (fun c input hc => hc.step input)
    fun c input hc => closed_step_iff hc input

/-- The socket fails, the session is closed by a check, and the client goes on. -/
def failedRun : List (Kernel × Input) :=
  [(.willing, .event { epollerr := true }), (.willing, .check 0 1),
    (.willing, .segment (clientSegment 443 1 1001) .empty)]

theorem closing_final_iff_failed :
    (run step (clientCell 443 .empty) (failedRun.take 1)).tcp.state = .closing ∧
      (run step (clientCell 443 .empty) failedRun).tcp.state = .close ∧
      ClosingFinal (clientCell 443 .empty) failedRun := by
  have hNot : Along step (fun c input => ¬ Revives c input) (clientCell 443 .empty) failedRun := by
    refine ⟨fun h => ?_, fun h => ?_, fun h => ?_, trivial⟩
    · obtain ⟨-, -, -, -, ⟨hdr, data, hInput, -⟩, -⟩ := h
      cases hInput
    · obtain ⟨-, -, -, -, ⟨hdr, data, hInput, -⟩, -⟩ := h
      cases hInput
    · have hClosed : (run step (clientCell 443 .empty) (failedRun.take 2)).tcp.state = .close := by decide
      exact TcpState.noConfusion (hClosed.symm.trans h.1)
  exact ⟨by decide, by decide, (closing_final_iff (newSession_client 443 .empty) failedRun).mpr hNot⟩

/-- `send()` refuses the CONNECT of a retransmitted SYN, which resets the
session, and takes the one of the next. -/
theorem closing_not_final : ∃ inputs, ¬ ClosingFinal (clientCell 443 .empty) inputs := by
  refine ⟨[({ Kernel.willing with send := fun _ => .error eagain }, .segment (clientSyn 443) .empty),
    (.willing, .segment (clientSyn 443) .empty)], fun hFinal => ?_⟩
  have hLater := (hFinal [_] [_] [] rfl).1 (Or.inl (by decide))
  revert hLater
  decide

end Tun2Http
