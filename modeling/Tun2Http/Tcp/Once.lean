import Tun2Http.Tcp.Lifecycle

/-! The SYN and the FIN of the client take one number each. The FIN is counted
at most once in any run; the SYN is, unless `TCP_LISTEN` is entered again and
not left by the open tunnel. -/
namespace Tun2Http

open Machine

/-- How often the SYN was counted. -/
def syns (log : List Io) : Nat := log.count .countSyn

/-- How often the FIN was counted. -/
def fins (log : List Io) : Nat := log.count .countFin

/-- The FIN was counted and no data was sent after it. -/
def finished : List Io → Prop
  | [] => False
  | .countFin :: _ => True
  | .send _ _ :: _ => False
  | _ :: before => finished before

@[simp] theorem syns_cons (entry : Io) (log : List Io) :
    syns (entry :: log) = syns log + if entry = .countSyn then 1 else 0 := by
  simp [syns, List.count_cons]

@[simp] theorem fins_cons (entry : Io) (log : List Io) :
    fins (entry :: log) = fins log + if entry = .countFin then 1 else 0 := by
  simp [fins, List.count_cons]

/-- A FIN was counted: nothing is queued any more, and nothing will be. -/
structure Done (c : Cell) : Prop where
  log : finished c.log
  forward : c.tcp.forward = []
  state : c.tcp.state = .closeWait ∨ c.tcp.state = .lastAck ∨ c.tcp.state = .closing ∨
    c.tcp.state = .close
  tunnel : c.tcp.dest = 443 → c.tcp.connectSent = .established

/-- The FIN was not counted, or once and nothing follows it. -/
structure FinOnce (c : Cell) : Prop where
  fins : fins c.log ≤ 1
  done : Tun2Http.fins c.log = 0 ∨ Done c

/-- The SYN was not counted in `TCP_LISTEN`, but for the wait for the proxy. -/
structure SynOnce (c : Cell) : Prop where
  syns : syns c.log ≤ 1
  listen : c.tcp.state = .listen →
    Tun2Http.syns c.log = 0 ∨ (c.tcp.dest = 443 ∧ c.tcp.connectSent = .sent)

/-- The SYN was counted, and the event does not open the tunnel but counts it
again. -/
def CountsAgain (c : Cell) (input : Kernel × Input) : Prop :=
  Tun2Http.syns c.log ≠ 0 ∧ c.tcp.state = .listen ∧ Declined c input

variable {K : Kernel} {i : Input} {s c d : Cell}

theorem syns_quiet (h : Quiet c d) : syns d.log = syns c.log :=
  h.log_eq syns fun entry log hEntry => by cases entry <;> simp_all [Io.quiet]

theorem fins_quiet (h : Quiet c d) : fins d.log = fins c.log :=
  h.log_eq fins fun entry log hEntry => by cases entry <;> simp_all [Io.quiet]

theorem finished_quiet (h : Quiet c d) : finished d.log = finished c.log :=
  h.log_eq finished fun entry log hEntry => by cases entry <;> simp_all [Io.quiet, finished]

theorem Done.quiet (h : Done c) (hQuiet : Quiet c d) : Done d :=
  ⟨finished_quiet hQuiet ▸ h.log, hQuiet.forward.trans h.forward, by rw [hQuiet.state]; exact h.state,
    by rw [hQuiet.dest, hQuiet.connectSent]; exact h.tunnel⟩

namespace FinOnce

theorem of_none (hNone : Tun2Http.fins c.log = 0) : FinOnce c := ⟨by omega, Or.inl hNone⟩

theorem quiet (h : FinOnce c) (hQuiet : Quiet c d) : FinOnce d := by
  obtain ⟨hFins, hDone⟩ := h
  constructor <;> rw [fins_quiet hQuiet]
  · exact hFins
  · exact hDone.imp_right fun hAll => hAll.quiet hQuiet

/-- After a FIN the state may change to closed ones. -/
theorem setState (h : FinOnce c) {next : TcpState}
    (hNext : next = .closeWait ∨ next = .lastAck ∨ next = .closing ∨ next = .close) :
    FinOnce (c.setState next) :=
  ⟨h.fins, h.done.imp_right fun hDone => ⟨hDone.log, hDone.forward, hNext, hDone.tunnel⟩⟩

/-- A call that sends and counts nothing. -/
theorem call (h : FinOnce c) (entry : Io) (hEntry : entry ≠ .countFin)
    (hLog : finished c.log → finished (entry :: c.log)) : FinOnce (c.call entry) := by
  obtain ⟨hFins, hDone⟩ := h
  refine ⟨by simpa [hEntry] using hFins, ?_⟩
  refine Or.imp (by simp [hEntry]) (fun hAll => ?_) hDone
  exact ⟨hLog hAll.log, hAll.forward, hAll.state, hAll.tunnel⟩

theorem afterWrite (h : FinOnce c) (packet : TcpPacket) (whole : Bool) :
    FinOnce (afterWrite c packet whole) := by
  have hCall := h.call (.tun packet whole) (by simp) id
  cases whole with
  | false => exact hCall.setState (by decide)
  | true => exact hCall

theorem countSyn (h : FinOnce c) : FinOnce c.countSyn := by
  obtain ⟨hFins, hDone⟩ := h
  refine ⟨by simpa using hFins, ?_⟩
  refine Or.imp (by simp) (fun hAll => ?_) hDone
  exact ⟨hAll.log, hAll.forward, hAll.state, hAll.tunnel⟩

theorem writeRst (h : FinOnce c) : FinOnce (writeRst K c) := by
  by_cases hState : c.tcp.state = .listen
  · rw [writeRst_of_listen K c hState]
    exact (h.countSyn.call (.tun _ _) (by simp) id).setState (by decide)
  · have hCall := h.call (.tun (buildTcp c.tcp [] false false false true) (K.tunWrite c.calls))
      (by simp) id
    rw [writeRst_of_ne_listen K c hState]
    split_ifs
    · exact hCall
    · exact hCall.setState (by decide)

theorem close (h : FinOnce c) : FinOnce (closeSocket c) := by
  obtain ⟨hFins, hDone⟩ := h
  refine ⟨by simpa [closeSocket] using hFins, ?_⟩
  refine Or.imp (by simp [closeSocket]) (fun hAll => ?_) hDone
  exact ⟨hAll.log, hAll.forward, hAll.state, hAll.tunnel⟩

/-- In an open state the FIN was not counted. -/
theorem none (h : FinOnce c)
    (hState : ¬ (c.tcp.state = .closeWait ∨ c.tcp.state = .lastAck ∨ c.tcp.state = .closing ∨
      c.tcp.state = .close)) : Tun2Http.fins c.log = 0 :=
  h.done.resolve_right fun hDone => hState hDone.state

/-- Nor where something is queued. -/
theorem none_of_queue (h : FinOnce c) (hQueue : c.tcp.forward ≠ []) : Tun2Http.fins c.log = 0 :=
  h.done.resolve_right fun hDone => hQueue hDone.forward

/-- Nor where data was sent last. -/
theorem none_of_sent (h : FinOnce c) (hLog : ¬ finished c.log) : Tun2Http.fins c.log = 0 :=
  h.done.resolve_right fun hDone => hLog hDone.log

/-- Nor where data may still be queued. -/
theorem none_of_open (h : FinOnce c) (hLife : Lifecycle c)
    (hOpen : (c.tcp.dest = 443 ∧ c.tcp.connectSent ≠ .established) ∨
      (0 ≤ c.socket ∧ c.tcp.state ≠ .closeWait ∧ c.tcp.state ≠ .closing ∧ c.tcp.state ≠ .close)) :
    Tun2Http.fins c.log = 0 := by
  apply h.done.resolve_right
  intro hDone
  rcases hOpen with ⟨hTunnel, hSent⟩ | ⟨hSocket, hWait, hClosing, hClose⟩
  · exact hSent (hDone.tunnel hTunnel)
  · rcases hDone.state with hState | hState | hState | hState
    · exact hWait hState
    · exact not_le.mpr (hLife.socket (Or.inr (Or.inl hState))) hSocket
    · exact hClosing hState
    · exact hClose hState

/-- The FIN is counted when the queue is empty and no data is taken any more. -/
theorem countFin (hNone : Tun2Http.fins c.log = 0) (hForward : c.tcp.forward = [])
    (hState : c.tcp.state = .closeWait ∨ c.tcp.state = .lastAck ∨ c.tcp.state = .closing ∨
      c.tcp.state = .close)
    (hTunnel : c.tcp.dest = 443 → c.tcp.connectSent = .established) : FinOnce c.countFin :=
  ⟨by simp [hNone], Or.inr ⟨trivial, hForward, hState, hTunnel⟩⟩

/-- Every move counts the FIN at most once. -/
theorem move (h : FinOnce c) (hLife : Lifecycle c) (hMove : Move K i s c d) : FinOnce d := by
  cases hMove with
  | quiet hSilent => exact h.quiet hSilent.toQuiet
  | write => exact h.afterWrite _ _
  | relay bytes =>
      obtain ⟨e, whole, hBefore, hAfter⟩ := relay_quiet (K := K) bytes c (readSize c.tcp)
      exact ((h.quiet hBefore).afterWrite _ whole).quiet hAfter
  | reset => exact h.writeRst
  | synAck ev whole hInput hError hRead hState =>
      have hNone := h.none (by simp [hState])
      cases whole <;> exact .of_none (by simpa [Tun2Http.afterWrite] using hNone)
  | forward seg rest hTurn hQueue =>
      have hNone := h.none_of_queue (by simp [hQueue])
      rw [forwardTurn_eq]
      split_ifs <;> exact .of_none (by simpa [sentOn] using hNone)
  | confirmFin sndbuf outq data answer before hState hQueue hLog =>
      exact countFin (h.none_of_sent (by rw [hLog]; exact id)) hQueue (Or.inl hState)
        fun hTunnel => hLife.tunnel hTunnel (Or.inr (Or.inl hState))
  | queue hdr data hInput hSeq hQueue hSame hOpen =>
      exact .of_none (h.none_of_open hLife (hOpen.imp_right fun hPlain => hPlain.2))
  | finQueued => exact h.setState (by decide)
  | fin next whole hState =>
      have hNone : Tun2Http.fins c.log = 0 :=
        h.none (by rcases hState with ⟨hState, -⟩ | ⟨hState, -⟩ <;> simp [hState])
      have hForward := hLife.empty_of_fin hState
      have hTunnel : c.tcp.dest = 443 → c.tcp.connectSent = .established := fun hTunnel =>
        hLife.tunnel hTunnel (hState.elim (fun h => Or.inl h.1) fun h => Or.inr (Or.inr (Or.inl h.1)))
      have hNext : next = .closeWait ∨ next = .lastAck ∨ next = .closing ∨ next = .close :=
        hState.elim (fun h => Or.inl h.2.2) fun h => Or.inr (Or.inr (Or.inr h.2))
      have hCounted : ∀ state packet, (state = .closeWait ∨ state = .lastAck ∨ state = .closing ∨
          state = .close) → FinOnce ((c.countFin.call (.tun packet whole)).setState state) := by
        intro state packet hState
        exact ⟨by simp [hNone], Or.inr ⟨trivial, hForward, hState, hTunnel⟩⟩
      cases whole with
      | false => exact hCounted .closing _ (by decide)
      | true => exact hCounted next _ hNext
  | establish hState => exact .of_none (h.none (by simp [hState]))
  | lastAck => exact h.setState (by decide)
  | abort => exact h.setState (by decide)
  | connect hdr data count hQuiet hInput hUrg hTunnel hSent =>
      exact .of_none (h.none_of_open hLife (Or.inl ⟨hTunnel, by simp [hSent]⟩))
  | reply hState => exact .of_none (h.none (by simp [hState]))
  | shutdown next hQueue hState =>
      rcases hState with ⟨hState, rfl⟩ | ⟨hState, rfl⟩
      · exact (of_none (c := c.setState .finWait1) (h.none (by simp [hState]))).close
      · exact (h.setState (by decide)).close
  | closeSocket => exact h.close
  | closed => exact h.setState (by decide)

theorem step (h : FinOnce c) (hLife : Lifecycle c) (input : Kernel × Input) :
    FinOnce (Tun2Http.step c input) :=
  (moves_invariant (I := fun d => Lifecycle d ∧ FinOnce d) (step_moves c input.1 input.2) ⟨hLife, h⟩
    fun _ _ hInv hMove => ⟨hInv.1.move hMove, hInv.2.move hInv.1 hMove⟩).2

end FinOnce

namespace SynOnce

theorem quiet (h : SynOnce c) (hQuiet : Quiet c d) : SynOnce d := by
  obtain ⟨hSyns, hListen⟩ := h
  constructor <;> rw [syns_quiet hQuiet]
  · exact hSyns
  · rw [hQuiet.state, hQuiet.dest, hQuiet.connectSent]
    exact hListen

/-- The SYN was counted as often as before, and `TCP_LISTEN` is not entered. -/
theorem of_eq (h : SynOnce c) (hSyns : Tun2Http.syns d.log = Tun2Http.syns c.log)
    (hState : d.tcp.state ≠ .listen ∨ (d.tcp.state = c.tcp.state ∧ d.tcp.dest = c.tcp.dest ∧
      d.tcp.connectSent = c.tcp.connectSent)) : SynOnce d := by
  refine ⟨hSyns ▸ h.syns, fun hListen => ?_⟩
  rcases hState with hOther | ⟨hSame, hDest, hSent⟩
  · exact absurd hListen hOther
  · rw [hSyns, hDest, hSent]
    exact h.listen (hSame ▸ hListen)

/-- The SYN is counted on the way out of `TCP_LISTEN`. -/
theorem counted (hNone : Tun2Http.syns c.log = 0) (hSyns : Tun2Http.syns d.log = Tun2Http.syns c.log + 1)
    (hState : d.tcp.state ≠ .listen) : SynOnce d :=
  ⟨by omega, fun hListen => absurd hListen hState⟩

theorem afterWrite (h : SynOnce c) (packet : TcpPacket) (whole : Bool) :
    SynOnce (afterWrite c packet whole) := by
  apply h.of_eq
  · simp
  · cases whole with
    | false => exact Or.inl (by simp [Tun2Http.afterWrite])
    | true => exact Or.inr ⟨rfl, rfl, rfl⟩

/-- A move counts the SYN once, where no event counts it again. -/
theorem move (h : SynOnce c) (hOnce : ¬ CountsAgain s (K, i)) (hMove : Move K i s c d) :
    SynOnce d := by
  cases hMove with
  | quiet hSilent => exact h.quiet hSilent.toQuiet
  | write => exact h.afterWrite _ _
  | relay bytes =>
      obtain ⟨e, whole, hBefore, hAfter⟩ := relay_quiet (K := K) bytes c (readSize c.tcp)
      exact ((h.quiet hBefore).afterWrite _ whole).quiet hAfter
  | reset _ hReply =>
      have hClosed := writeRst_state K c
      have hNot : (Tun2Http.writeRst K c).tcp.state ≠ .listen := by
        rw [hClosed]
        split_ifs <;> decide
      by_cases hState : c.tcp.state = .listen
      · have hNone : Tun2Http.syns c.log = 0 := by
          rcases h.listen hState with hNone | ⟨hTunnel, hSent⟩
          · exact hNone
          · obtain ⟨hSilent, hDeclined⟩ := hReply hTunnel hState hSent
            by_contra hSyns
            exact hOnce ⟨syns_quiet hSilent.toQuiet ▸ hSyns, hSilent.state ▸ hState, hDeclined⟩
        refine counted hNone ?_ hNot
        rw [writeRst_of_listen K c hState]
        simp
      · refine h.of_eq ?_ (Or.inl hNot)
        rw [writeRst_of_ne_listen K c hState]
        split_ifs <;> simp
  | synAck ev whole hInput hError hRead hState =>
      have hNone : Tun2Http.syns s.log = 0 := by
        by_contra hSyns
        exact hOnce ⟨hSyns, hState, Or.inr ⟨ev, hInput, fun hAll => by simp [hRead] at hAll⟩⟩
      cases whole with
      | false => exact counted hNone (by simp [Tun2Http.afterWrite]) (by simp [Tun2Http.afterWrite])
      | true => exact counted hNone (by simp [Tun2Http.afterWrite]) (by simp)
  | forward seg rest hTurn hQueue hNext hState =>
      refine h.of_eq ?_ (Or.inl (by rwa [forwardTurn_state]))
      rw [forwardTurn_eq]
      split_ifs <;> simp [sentOn]
  | confirmFin sndbuf outq data answer before hState => exact h.of_eq (by simp) (Or.inl (by simp [hState]))
  | queue => exact h.of_eq rfl (Or.inr ⟨rfl, rfl, rfl⟩)
  | finQueued => exact h.of_eq rfl (Or.inl (by simp))
  | fin next whole hState =>
      have hNext : next ≠ .listen := by
        rcases hState with ⟨-, -, rfl⟩ | ⟨-, rfl⟩ <;> decide
      cases whole with
      | false => exact h.of_eq (by simp [Tun2Http.afterWrite]) (Or.inl (by simp [Tun2Http.afterWrite]))
      | true => exact h.of_eq (by simp [Tun2Http.afterWrite]) (Or.inl hNext)
  | establish => exact h.of_eq rfl (Or.inl (by simp))
  | lastAck => exact h.of_eq rfl (Or.inl (by simp))
  | abort => exact h.of_eq rfl (Or.inl (by simp))
  | connect hdr data count hQuiet hInput hUrg hTunnel => exact ⟨h.syns, fun _ => Or.inr ⟨hTunnel, rfl⟩⟩
  | reply => exact h.of_eq rfl (Or.inl (by simp))
  | shutdown next hQueue hState =>
      refine h.of_eq (by simp [Tun2Http.closeSocket]) (Or.inl ?_)
      rcases hState with ⟨-, rfl⟩ | ⟨-, rfl⟩ <;> simp [Tun2Http.closeSocket]
  | closeSocket hState =>
      exact h.of_eq (by simp [Tun2Http.closeSocket]) (Or.inr ⟨rfl, rfl, rfl⟩)
  | closed => exact h.of_eq rfl (Or.inl (by simp))

theorem step (h : SynOnce c) (input : Kernel × Input) (hOnce : ¬ CountsAgain c input) :
    SynOnce (Tun2Http.step c input) :=
  moves_invariant (step_moves c input.1 input.2) h fun _ _ hInv hMove => hInv.move hOnce hMove

end SynOnce

/-- A new session has counted neither. -/
theorem once_newSession {info : SynInfo} {hdr : TcpHdr} {data : Payload}
    (hNew : newSession K info hdr data = some c) : SynOnce c ∧ FinOnce c := by
  obtain ⟨-, hLog, -⟩ := newSession_eq hNew
  exact ⟨⟨by simp [hLog, syns], fun _ => Or.inl (by simp [hLog, syns])⟩, .of_none (by simp [hLog, fins])⟩

end Tun2Http
