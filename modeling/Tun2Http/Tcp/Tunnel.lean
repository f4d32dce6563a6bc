import Tun2Http.Tcp.Lifecycle

/-! The reply of the proxy, and the bytes that follow it. What the session has
read of them is compared with what it has written to the tun. -/
namespace Tun2Http

open Machine

/-- The bytes that the tun has taken, in order. -/
def relayed : List Io → List UInt8
  | [] => []
  | .tun packet true :: before => relayed before ++ packet.payload
  | _ :: before => relayed before

/-- An answer that accepts the CONNECT, up to its empty line. -/
def ReplyHead (head : List UInt8) : Prop :=
  head.take 12 ∈ proxyAccepts ∧ ascii ['\r', '\n', '\r', '\n'] <:+ head

instance (head : List UInt8) : Decidable (ReplyHead head) := inferInstanceAs (Decidable (_ ∧ _))

/-- What the session in `d` has not read of the bytes that came since `c`. -/
def pending (stream : List UInt8) (c d : Cell) : List UInt8 :=
  stream.drop ((taken d.log).length - (taken c.log).length)

/-- The kernel has `arrived` in the socket: what is next in the stream, and
where that is nothing an error or the end. -/
structure Serves (stream : List UInt8) (c d : Cell) (K : Kernel) (arrived : List UInt8) : Prop where
  next : arrived <+: pending stream c d
  recv : ∀ n, arrived ≠ [] → K.recv n = .data arrived
  empty : ∀ n bytes, arrived = [] → K.recv n = .data bytes → bytes = []
  drain : ∀ n, K.drain n = arrived.drop 12

/-- What the tun took since `c` is a prefix of `data`. While the session is
not closed, the rest of it is what is still to be read. -/
def Relays (stream data : List UInt8) (c d : Cell) : Prop :=
  ∃ written, relayed d.log = relayed c.log ++ written ∧ written <+: data ∧
    (d.tcp.state ≠ .closing → d.tcp.state ≠ .close → written ++ pending stream c d = data)

/-- What holds of an open tunnel between two moves. Bytes are lost only where
the tun did not take them, which closes the session. -/
structure Carrying (stream data : List UInt8) (c d : Cell) : Prop where
  tunnel : d.tcp.connectSent = .established
  listen : d.tcp.state ≠ .listen
  since : (taken c.log).length ≤ (taken d.log).length
  progress : ∃ written lost, relayed d.log = relayed c.log ++ written ∧
    written ++ lost ++ pending stream c d = data ∧ (lost = [] ∨ 0 < d.tcp.state.closed)

variable {K : Kernel} {i : Input} {s c d e : Cell} {stream data head arrived : List UInt8}

theorem relayed_quiet (h : Quiet c d) : relayed d.log = relayed c.log :=
  h.log_eq relayed fun entry log hEntry => by cases entry <;> simp_all [Io.quiet, relayed]

/-- A packet without payload adds nothing. -/
theorem relayed_tun {packet : TcpPacket} (hPayload : packet.payload = []) (whole : Bool)
    (log : List Io) : relayed (.tun packet whole :: log) = relayed log := by
  cases whole <;> simp [relayed, hPayload]

theorem writeRst_logs (c : Cell) :
    taken (writeRst K c).log = taken c.log ∧ relayed (writeRst K c).log = relayed c.log := by
  by_cases hState : c.tcp.state = .listen
  · rw [writeRst_of_listen K c hState]
    exact ⟨rfl, relayed_tun rfl _ _⟩
  · rw [writeRst_of_ne_listen K c hState]
    split_ifs <;> exact ⟨rfl, relayed_tun rfl _ _⟩

theorem TcpState.closed_pos_iff {s : TcpState} : 0 < s.closed ↔ s = .closing ∨ s = .close := by
  cases s <;> simp [closed]

theorem Carrying.same (h : Carrying stream data c d)
    (hRank : d.tcp.state.closed ≤ e.tcp.state.closed)
    (hTunnel : e.tcp.connectSent = d.tcp.connectSent) (hListen : e.tcp.state ≠ .listen)
    (hTaken : taken e.log = taken d.log) (hRelayed : relayed e.log = relayed d.log) :
    Carrying stream data c e := by
  obtain ⟨written, lost, hWritten, hData, hLost⟩ := h.progress
  refine ⟨hTunnel.trans h.tunnel, hListen, hTaken ▸ h.since, written, lost, ?_, ?_, ?_⟩
  · rw [hRelayed, hWritten]
  · rw [pending, hTaken]
    exact hData
  · exact hLost.imp_right (lt_of_lt_of_le · hRank)

/-- The bytes relayed are the next of the stream. -/
theorem Carrying.relay (h : Carrying stream data c d)
    (hState : d.tcp.state = .established ∨ d.tcp.state = .closeWait) {bytes : List UInt8}
    (hNext : bytes <+: pending stream c d) {size : Nat}
    (hRead : (recvFrom K d size).2 = .data bytes) :
    Carrying stream data c (relay K bytes (recvFrom K d size).1) := by
  obtain ⟨written, lost, hWritten, hData, hLost⟩ := h.progress
  obtain ⟨t, whole, hQuiet, hSameLog, hEq⟩ := relay_eq (K := K) bytes (recvFrom K d size).1
  have hNone : lost = [] := by
    apply hLost.resolve_right
    intro hClosed
    rcases hState with hState | hState <;> rw [hState] at hClosed <;> exact absurd hClosed (by decide)
  have hLog : t.log = .recv (.data bytes) :: d.log := by
    rw [hSameLog, ← hRead]
    rfl
  obtain ⟨rest, hRest⟩ := hNext
  have hPending : stream.drop ((taken d.log ++ bytes).length - (taken c.log).length) = rest := by
    have hSince := h.since
    rw [List.length_append, Nat.sub_add_comm hSince, ← List.drop_drop]
    change (pending stream c d).drop bytes.length = rest
    rw [← hRest, List.drop_left]
  have hTState : t.tcp.state = d.tcp.state := hQuiet.state
  have hTunnel : t.tcp.connectSent = .established := hQuiet.connectSent.trans h.tunnel
  rw [hNone, List.append_nil] at hData
  rw [hEq]
  cases whole with
  | false =>
      refine ⟨hTunnel, by simp [afterWrite], ?_, written, bytes, ?_, ?_, Or.inr Nat.zero_lt_one⟩
      · simp [afterWrite, hLog, taken, h.since, Nat.le_add_right_of_le]
      · simpa [afterWrite, hLog, relayed] using hWritten
      · simp only [pending, afterWrite, Bool.false_eq_true, if_false, Cell.setState_log,
          Cell.call_log, hLog, taken, hPending]
        rw [List.append_assoc, hRest, hData]
  | true =>
      refine ⟨hTunnel, ?_, ?_, written ++ bytes, [], ?_, ?_, Or.inl rfl⟩
      · simp only [if_true, afterWrite, Cell.advanceLocal_tcp, Cell.call_tcp]
        rw [hTState]
        exact h.listen
      · simp [afterWrite, hLog, taken, h.since, Nat.le_add_right_of_le]
      · simp [afterWrite, hLog, relayed, hWritten, buildTcp]
      · simp only [pending, afterWrite, if_true, Cell.advanceLocal_log, Cell.call_log, hLog, taken,
          hPending]
        rw [List.append_nil, List.append_assoc, hRest, hData]

/-- The kernel's answer, cut to the room there is. -/
theorem Serves.read (h : Serves stream c s K arrived) {size : Nat} {bytes : List UInt8}
    (hBytes : bytes ≠ []) (hRead : (recvFrom K d size).2 = .data bytes)
    (hTaken : taken d.log = taken s.log) : bytes <+: pending stream c d := by
  have hSame : pending stream c d = pending stream c s := by rw [pending, hTaken, pending]
  have hCut : bytes <+: arrived := by
    simp only [recvFrom] at hRead
    by_cases hArrived : arrived = []
    · cases hAnswer : K.recv d.calls with
      | error errno => simp [hAnswer] at hRead
      | data all =>
          have hNone := h.empty d.calls all hArrived hAnswer
          simp only [hAnswer, hNone, List.take_nil, RecvResult.data.injEq] at hRead
          exact absurd hRead.symm hBytes
    · simp only [h.recv d.calls hArrived, RecvResult.data.injEq] at hRead
      exact hRead ▸ List.take_prefix _ _
  rw [hSame]
  exact hCut.trans h.next

/-- A move keeps an open tunnel in step with the stream. -/
theorem Carrying.move (h : Carrying stream data c d) (hLife : Lifecycle d)
    (hRevives : ¬ Revives s (K, i)) (hServes : ∃ arrived, Serves stream c s K arrived)
    (hMove : Move K i s d e) : Carrying stream data c e := by
  have hRank := closed_move hLife hMove hRevives
  cases hMove with
  | quiet hSilent =>
      exact h.same hRank hSilent.connectSent (hSilent.state ▸ h.listen)
        (hSilent.read.resolve_left h.listen) (relayed_quiet hSilent.toQuiet)
  | write back fin whole =>
      refine h.same hRank ?_ ?_ ?_ ?_
      · rw [afterWrite_tcp]
      · rw [afterWrite_tcp]
        cases whole with
        | false => simp
        | true => exact h.listen
      · rw [afterWrite_log]
        rfl
      · rw [afterWrite_log]
        exact relayed_tun rfl _ _
  | relay bytes hState hWindow hFirst hBytes hRead =>
      obtain ⟨arrived, hServes⟩ := hServes
      exact h.relay hState (hServes.read hBytes hRead hFirst) hRead
  | reset =>
      obtain ⟨hTaken, hRelayed⟩ := writeRst_logs (K := K) d
      refine h.same hRank (writeRst_tcp d).2.2.1 ?_ hTaken hRelayed
      rw [writeRst_state]
      split_ifs <;> simp
  | synAck ev whole hInput hError hRead hState => exact absurd hState h.listen
  | forward seg rest =>
      refine h.same hRank ?_ ?_ ?_ ?_
      · rw [forwardTurn_eq]
        split_ifs <;> rfl
      · rw [forwardTurn_state]
        exact h.listen
      · rw [forwardTurn_eq]
        split_ifs <;> rfl
      · rw [forwardTurn_eq]
        split_ifs <;> rfl
  | confirmFin => exact h.same hRank rfl h.listen rfl rfl
  | queue => exact h.same hRank rfl h.listen rfl rfl
  | finQueued => exact h.same hRank rfl (by simp) rfl rfl
  | fin next whole hState =>
      have hNext : next ≠ .listen := by
        rcases hState with ⟨-, -, rfl⟩ | ⟨-, rfl⟩ <;> decide
      cases whole with
      | false => exact h.same hRank rfl (by simp [afterWrite]) rfl rfl
      | true => exact h.same hRank rfl hNext rfl (relayed_tun rfl true _)
  | establish => exact h.same hRank rfl (by simp) rfl rfl
  | lastAck => exact h.same hRank rfl (by simp) rfl rfl
  | abort => exact h.same hRank rfl (by simp) rfl rfl
  | connect hdr data count hQuiet hInput hUrg hPort hSent =>
      rw [h.tunnel] at hSent
      cases hSent
  | reply hState hSent =>
      rw [h.tunnel] at hSent
      cases hSent
  | shutdown next hQueue hState =>
      have hNext : next ≠ .listen := by
        rcases hState with ⟨-, rfl⟩ | ⟨-, rfl⟩ <;> decide
      exact h.same hRank rfl hNext rfl rfl
  | closeSocket => exact h.same hRank rfl h.listen rfl rfl
  | closed => exact h.same hRank rfl (by simp) rfl rfl

theorem Carrying.step (h : Carrying stream data c d) (hLife : Lifecycle d)
    (input : Kernel × Input) (hServes : ∃ arrived, Serves stream c d input.1 arrived) :
    Lifecycle (Tun2Http.step d input) ∧ Carrying stream data c (Tun2Http.step d input) := by
  have hRevives : ¬ Revives d input := fun hRevives => by
    have hSent := hRevives.2.1
    rw [h.tunnel] at hSent
    cases hSent
  exact moves_invariant (I := fun e => Lifecycle e ∧ Carrying stream data c e)
    (step_moves d input.1 input.2) ⟨hLife, h⟩ fun _ _ hInv hMove =>
      ⟨hInv.1.move hMove, hInv.2.move hInv.1 hRevives hServes hMove⟩

theorem Carrying.relays (h : Carrying stream data c d) : Relays stream data c d := by
  obtain ⟨written, lost, hWritten, hData, hLost⟩ := h.progress
  refine ⟨written, hWritten, ?_, fun hClosing hClose => ?_⟩
  · rw [← hData, List.append_assoc]
    exact List.prefix_append _ _
  · have hNone := hLost.resolve_right fun hClosed =>
      (TcpState.closed_pos_iff.mp hClosed).elim hClosing hClose
    rw [← hData, hNone, List.append_nil]

/-- A readable event in `TCP_LISTEN`, with the CONNECT request sent. -/
theorem listen_event {ev : EpollEvents} (hSocket : 0 ≤ c.socket) (hState : c.tcp.state = .listen)
    (hSent : c.tcp.connectSent = .sent) (hError : ev.epollerr = false) (hRead : ev.epollin = true)
    (hServes : Serves stream c c K arrived) (hArrived : arrived ≠ []) :
    step c (K, .event ev) =
      let d := c.call (.recv (.data (arrived.take 12)))
      if cString (arrived.take 12) ∈ proxyAccepts then
        { d.call (.drain (arrived.drop 12)) with
          tcp := { d.tcp with connectSent := .established, state := .synRecv } }
      else writeRst K d := by
  have hAnswer : recvFrom K c 12 =
      (c.call (.recv (.data (arrived.take 12))), .data (arrived.take 12)) := by
    simp [recvFrom, hServes.recv c.calls hArrived]
  simp only [step, checkTcpSocket, socketListen, hSocket, hState, hError, hRead, hAnswer,
    listenReceived, Cell.call_tcp, hSent, hServes.drain, if_true, Bool.false_eq_true, if_false]

/-- An accepted status line is twelve bytes without a NUL. -/
theorem cString_accepts {line : List UInt8} (hLine : line ∈ proxyAccepts) :
    cString line = line ∧ line.length = 12 := by
  revert line
  decide

/-- What has arrived is accepted where it holds the whole status line. -/
theorem accepts_iff (hHead : ReplyHead head) (hArrived : arrived <+: head ++ data) :
    cString (arrived.take 12) ∈ proxyAccepts ↔ 12 ≤ arrived.length := by
  have hStatus := hHead.1
  have hLength : 12 ≤ head.length := by
    have := (cString_accepts hStatus).2
    rw [List.length_take] at this
    omega
  constructor
  · intro hAccept
    have hLine := (cString_accepts hAccept).2
    have hCut := (List.takeWhile_prefix (l := arrived.take 12) (· ≠ 0)).length_le
    change (cString (arrived.take 12)).length ≤ _ at hCut
    rw [hLine, List.length_take] at hCut
    omega
  · intro hAll
    have hSame : arrived.take 12 = head.take 12 := by
      rw [List.prefix_iff_eq_take.mp hArrived, List.take_take, Nat.min_eq_left hAll,
        List.take_append_of_le_length hLength]
    rw [hSame, (cString_accepts hStatus).1]
    exact hStatus

/-- The event that opens the tunnel read what had arrived and relayed nothing. -/
structure Opened (arrived : List UInt8) (c d : Cell) : Prop where
  tunnel : d.tcp.connectSent = .established
  state : d.tcp.state = .synRecv
  read : taken d.log = taken c.log ++ arrived
  relayed : relayed d.log = relayed c.log

theorem Opened.pending_eq (h : Opened arrived c d) (stream : List UInt8) :
    pending stream c d = stream.drop arrived.length := by
  simp [pending, h.read]

/-- After the whole head the tunnel carries the data. -/
theorem Opened.carrying (h : Opened head c d) : Carrying (head ++ data) data c d := by
  refine ⟨h.tunnel, by simp [h.state], by simp [h.read], [], [], ?_, ?_, Or.inl rfl⟩
  · simp [h.relayed]
  · simp [h.pending_eq]

/-- Where the data is what is left to be read, the head was read and no more. -/
theorem Opened.whole (h : Opened arrived c d) (hNext : arrived <+: head ++ data)
    (hRelays : Relays (head ++ data) data c d) : arrived = head := by
  obtain ⟨written, hWritten, -, hAll⟩ := hRelays
  rw [h.relayed, List.self_eq_append_right] at hWritten
  have hRest := hAll (by simp [h.state]) (by simp [h.state])
  rw [hWritten, List.nil_append, h.pending_eq] at hRest
  have hLengths := congrArg List.length hRest
  have hFits := hNext.length_le
  simp only [List.length_drop, List.length_append] at hLengths hFits
  have hLength : arrived.length = head.length := by omega
  rw [List.prefix_iff_eq_take.mp hNext, hLength, List.take_left]

end Tun2Http
