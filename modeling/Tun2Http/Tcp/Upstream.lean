import Tun2Http.Tcp.Counting
import Tun2Http.Tcp.Frame

/-! What a step takes from the client, and that it answers after it took it:
every acknowledgement of a step but the keep alive repeats the `remote_seq`
that the step leaves. -/
namespace Tun2Http

open Machine

/-- What a call may do between taking and the end of the step: it sends
nothing, counts nothing, and acknowledges `seq`. -/
def Io.acks (seq : U32) : Io → Prop
  | .tun packet _ => packet.ack = true → packet.ackSeq = seq
  | .send _ _ | .sendConnect _ _ | .epollMod _ _ | .countSyn | .countFin => False
  | _ => True

/-- The call writes nothing to the tun and does not ask for a tunnel. -/
def Io.unwritten : Io → Prop
  | .tun _ _ | .sendConnect _ _ | .epollMod _ _ => False
  | _ => True

/-- From `c` to `d` nothing is taken from the client, and `remote_seq` is repeated. -/
structure Repeats (c d : Cell) : Prop where
  remoteSeq : d.tcp.remoteSeq = c.tcp.remoteSeq
  forward : d.tcp.forward = c.tcp.forward
  events : d.events = c.events
  tried : d.tcp.connectSent = .notSent → c.tcp.connectSent = .notSent
  calls : Calls (Io.acks c.tcp.remoteSeq) c d

/-- From `c` to `d` the socket took `count` bytes of the client, and nothing was written. -/
structure Taken (count : Nat) (c d : Cell) : Prop where
  remoteSeq : d.tcp.remoteSeq + BitVec.ofNat 32 (syns c.log + fins c.log) =
    c.tcp.remoteSeq + BitVec.ofNat 32 (count + syns d.log + fins d.log)
  events : d.events = c.events
  tried : d.tcp.connectSent = .notSent → c.tcp.connectSent = .notSent
  calls : Calls Io.unwritten c d

/-- From `c` to `d` at most the CONNECT request was passed to `send()`, and only
where it had not been sent. -/
structure Asks (c d : Cell) : Prop where
  remoteSeq : d.tcp.remoteSeq = c.tcp.remoteSeq
  events : d.events = c.events
  log : (d.log = c.log ∧ d.tcp.connectSent = c.tcp.connectSent) ∨
    (c.tcp.connectSent = .notSent ∧ ∃ request result, d.log = .sendConnect request result :: c.log ∧
      (d.tcp.connectSent = .notSent → ∃ errno, result = .error errno))

/-- A step that takes `count` bytes and then repeats. The queue may still grow
when the answer is written. -/
def Answers (count : Nat) (c d : Cell) : Prop :=
  ∃ m e, Taken count c m ∧ Repeats m e ∧ ∃ queue, d = e.setForward queue

variable {K : Kernel} {a b c d : Cell}

namespace Repeats

theorem of_log_eq (hSeq : d.tcp.remoteSeq = c.tcp.remoteSeq)
    (hForward : d.tcp.forward = c.tcp.forward) (hEvents : d.events = c.events)
    (hTried : d.tcp.connectSent = c.tcp.connectSent) (hLog : d.log = c.log) : Repeats c d :=
  ⟨hSeq, hForward, hEvents, fun h => hTried.symm.trans h, .of_log_eq hLog⟩

theorem refl (c : Cell) : Repeats c c := .of_log_eq rfl rfl rfl rfl rfl

theorem trans (hFirst : Repeats a b) (hSecond : Repeats b c) : Repeats a c := by
  have hCalls := hSecond.calls
  rw [hFirst.remoteSeq] at hCalls
  exact ⟨hSecond.remoteSeq.trans hFirst.remoteSeq, hSecond.forward.trans hFirst.forward,
    hSecond.events.trans hFirst.events, fun h => hFirst.tried (hSecond.tried h),
    hFirst.calls.trans hCalls⟩

theorem syns (h : Repeats c d) : Tun2Http.syns d.log = Tun2Http.syns c.log :=
  h.calls.log_eq Tun2Http.syns fun entry log hEntry => by cases entry <;> simp_all [Io.acks]

theorem fins (h : Repeats c d) : Tun2Http.fins d.log = Tun2Http.fins c.log :=
  h.calls.log_eq Tun2Http.fins fun entry log hEntry => by cases entry <;> simp_all [Io.acks]

end Repeats

theorem Frame.repeats (h : Frame c.tcp.remoteSeq c d) : Repeats c d :=
  ⟨h.remoteSeq, h.forward, h.events, fun hSent => h.connectSent.symm.trans hSent,
    h.calls.mono fun entry hEntry => by cases entry <;> simp_all [Io.repeats, Io.acks]⟩

namespace Taken

theorem refl (c : Cell) : Taken 0 c c := ⟨by simp, rfl, id, .of_log_eq rfl⟩

theorem trans {m n : Nat} (hFirst : Taken m a b) (hSecond : Taken n b c) : Taken (m + n) a c := by
  refine ⟨?_, hSecond.events.trans hFirst.events, fun h => hFirst.tried (hSecond.tried h),
    hFirst.calls.trans hSecond.calls⟩
  have hLeft := hFirst.remoteSeq
  have hRight := hSecond.remoteSeq
  bv_omega

/-- Where the calls neither write nor count nor send anything. -/
theorem of_quiet (h : Quiet c d) (hEvents : d.events = c.events) (hCalls : Calls Io.unwritten c d) :
    Taken 0 c d :=
  ⟨by rw [h.remoteSeq, syns_quiet h, fins_quiet h, Nat.zero_add], hEvents,
    fun hSent => h.connectSent.symm.trans hSent, hCalls⟩

theorem touch (K : Kernel) (c : Cell) : Taken 0 c (touch K c) :=
  .of_quiet (silent_touch K c).toQuiet rfl (.one (.time _) trivial rfl)

theorem refresh (K : Kernel) (hdr : TcpHdr) (c : Cell) : Taken 0 c (refresh K hdr c) :=
  .of_quiet (silent_refresh hdr c).toQuiet rfl (.one (.time (K.time c.calls)) trivial rfl)

theorem recvFrom (K : Kernel) (c : Cell) (size : Nat) : Taken 0 c (recvFrom K c size).1 :=
  .of_quiet (quiet_recvFrom K c size) rfl (.one (.recv _) trivial rfl)

theorem getReceiveBuffer (K : Kernel) (c : Cell) : Taken 0 c (getReceiveBuffer K c).1 := by
  rcases getReceiveBuffer_cases K c with h | h <;> rw [h]
  · exact .refl c
  · exact .of_quiet (Quiet.call c _ trivial) rfl (.one (.buffer _ _) trivial rfl)

theorem countSyn (c : Cell) : Taken 0 c c.countSyn := by
  refine ⟨?_, rfl, id, .one .countSyn trivial rfl⟩
  simp only [Cell.countSyn_tcp, Cell.countSyn_log, syns_cons, fins_cons, if_true, reduceCtorEq,
    if_false]
  bv_omega

theorem countFin (c : Cell) : Taken 0 c c.countFin := by
  refine ⟨?_, rfl, id, .one .countFin trivial rfl⟩
  simp only [Cell.countFin_tcp, Cell.countFin_log, syns_cons, fins_cons, if_true, reduceCtorEq,
    if_false]
  bv_omega

end Taken

namespace Answers

theorem mk {n : Nat} {m : Cell} (hTaken : Taken n c m) (h : Repeats m d) : Answers n c d :=
  ⟨m, d, hTaken, h, d.tcp.forward, rfl⟩

theorem of_repeats (h : Repeats c d) : Answers 0 c d := .mk (.refl c) h

theorem before {m n : Nat} (hTaken : Taken m a b) (h : Answers n b c) : Answers (m + n) a c := by
  obtain ⟨d, e, hMore, hRest⟩ := h
  exact ⟨d, e, hTaken.trans hMore, hRest⟩

theorem queueTcp {n : Nat} (h : Answers n c d) (hdr : TcpHdr) (data : Payload) :
    Answers n c (queueTcp hdr data d) := by
  obtain ⟨m, e, hTaken, hRepeats, queue, rfl⟩ := h
  unfold Tun2Http.queueTcp
  split_ifs
  · exact ⟨m, e, hTaken, hRepeats, queue, rfl⟩
  · exact ⟨m, e, hTaken, hRepeats, _, rfl⟩

end Answers

theorem repeats_recvFrom (K : Kernel) (c : Cell) (size : Nat) : Repeats c (recvFrom K c size).1 :=
  ⟨rfl, rfl, rfl, id, .one (.recv _) trivial rfl⟩

theorem repeats_advanceLocal (c : Cell) (count : Nat) : Repeats c (c.advanceLocal count) :=
  .of_log_eq rfl rfl rfl rfl rfl

theorem repeats_setState (c : Cell) (state : TcpState) : Repeats c (c.setState state) :=
  .of_log_eq rfl rfl rfl rfl rfl

/-- A segment that acknowledges `remote_seq`. -/
theorem repeats_afterWrite {packet : TcpPacket} (whole : Bool)
    (hAck : packet.ack = true → packet.ackSeq = c.tcp.remoteSeq) :
    Repeats c (afterWrite c packet whole) :=
  ⟨by rw [afterWrite_tcp], by rw [afterWrite_tcp], by cases whole <;> rfl,
    fun h => by rwa [afterWrite_tcp] at h, .one (.tun packet whole) hAck (afterWrite_log c packet whole)⟩

/-- The server's data goes out with an acknowledgement. -/
theorem repeats_relay (K : Kernel) (bytes : List UInt8) (c : Cell) : Repeats c (relay K bytes c) := by
  set d : Cell := { c with tcp := { c.tcp with
    received := c.tcp.received + BitVec.ofNat 64 bytes.length } } with hD
  have hReceived : Repeats c d := .of_log_eq rfl rfl rfl rfl rfl
  have hWrite : Repeats d (writeData K d bytes).1 := by
    rw [writeData, writeOrClose_eq]
    exact repeats_afterWrite _ fun _ => rfl
  have hEq : relay K bytes c = if (writeData K d bytes).2 then
      (writeData K d bytes).1.advanceLocal bytes.length else (writeData K d bytes).1 := rfl
  rw [hEq]
  apply hReceived.trans
  split_ifs
  · exact hWrite.trans (repeats_advanceLocal _ _)
  · exact hWrite

/-- The end of the server's stream, in any state but `TCP_LISTEN`. -/
theorem repeats_socketEof (hState : c.tcp.state ≠ .listen) : Repeats c (socketEof K c) := by
  unfold socketEof
  split_ifs with hQueue
  · have hClose : ∀ d, Repeats c d → Repeats c (closeSocket d) := fun d h =>
      h.trans (frame_closeSocket _ d).repeats
    have hWrite : Repeats c (writeFinAck K c).1 := (frame_writeOrClose K c true).repeats
    dsimp only
    generalize writeFinAck K c = result at hWrite ⊢
    have hSent : Repeats c (if result.2 then result.1.advanceLocal 1 else result.1) := by
      split_ifs
      · exact hWrite.trans (repeats_advanceLocal _ _)
      · exact hWrite
    generalize (if result.2 then result.1.advanceLocal 1 else result.1) = sent at hSent ⊢
    apply hClose
    split_ifs
    · exact hSent.trans (repeats_setState _ _)
    · exact hSent.trans (repeats_setState _ _)
    · exact hSent
  · exact ((frame_writeRst K _ hState).repeats).trans (frame_closeSocket _ _).repeats

/-- Reading from the socket takes nothing from the client. -/
theorem repeats_socketRead (ev : EpollEvents) (hState : c.tcp.state ≠ .listen) :
    Repeats c (socketRead K ev c) := by
  unfold socketRead
  split_ifs with hRead
  · set received := recvFrom K (touch K c) (readSize c.tcp) with hReceived
    have hRecv : Repeats c received.1 :=
      (frame_touch K _ c).repeats.trans (repeats_recvFrom K _ _)
    have hSame : received.1.tcp.state ≠ .listen := hState
    apply hRecv.trans
    unfold socketReceived
    dsimp only
    split
    · split_ifs
      · exact (frame_writeRst K _ hSame).repeats
      · exact .refl _
    · exact repeats_socketEof hSame
    · exact repeats_relay K _ _
  · exact .refl c

/-- A reset, also one that counts the SYN. -/
theorem answers_writeRst (K : Kernel) (c : Cell) : Answers 0 c (writeRst K c) := by
  by_cases hState : c.tcp.state = .listen
  · rw [writeRst_of_listen K c hState]
    refine .mk (.countSyn c) ⟨rfl, rfl, rfl, id, ?_⟩
    exact .one (.tun (buildTcp c.countSyn.tcp [] false true false true)
      (K.tunWrite c.countSyn.calls)) (fun _ => rfl) rfl
  · exact .of_repeats (frame_writeRst K _ hState).repeats

/-! The forward loop. -/

/-- By how much the loop moves `remote_seq`. -/
def countedTurn (K : Kernel) (t : Cell) : Nat :=
  match t.tcp.forward with
  | [] => 0
  | seg :: _ => counted K seg t

/-- The bytes that the turns of a step count. -/
def countedStep (c : Cell) (input : Kernel × Input) : Nat :=
  ((turns c input).map (countedTurn input.1)).sum

theorem taken_sentOn {seg : Segment} (queue : List Segment)
    (hNext : seg.seq + BitVec.ofNat 32 seg.sent = c.tcp.remoteSeq) :
    Taken (counted K seg c) c ((sentOn K seg c).setForward queue) := by
  refine ⟨?_, rfl, id, .one (.send (forwardRequest K c seg) (sendAnswer K seg c)) trivial rfl⟩
  simp only [sentOn, Cell.setForward_tcp, Cell.setForward_log, Cell.call_tcp, Cell.call_log,
    syns_cons, fins_cons, reduceCtorEq, if_false, ← hNext]
  bv_omega

/-- The loop takes what its turns count. -/
theorem taken_forwardLoop (queue : List Segment) (bufferSize : U32) (fwd : Bool) (c : Cell)
    (hQueue : c.tcp.forward = queue) :
    Taken ((forwardTurns K queue bufferSize c).map (countedTurn K)).sum c
      (forwardLoop K queue bufferSize fwd c).1 := by
  induction queue generalizing bufferSize fwd c with
  | nil => exact .refl c
  | cons seg rest ih =>
      have hCounted : countedTurn K c = counted K seg c := by rw [countedTurn, hQueue]
      rw [forwardLoop, forwardTurns]
      by_cases hForward : canForward c seg bufferSize
      · rw [if_pos hForward, if_pos hForward, List.map_cons, List.sum_cons, forwardTurn_eq, hCounted]
        by_cases hAll : counted K seg c = seg.unsent
        · simp only [if_pos hAll]
          have hTurn := taken_sentOn (K := K) rest hForward.1
          exact hTurn.trans (ih _ true ((sentOn K seg c).setForward rest) rfl)
        · simp only [if_neg hAll, List.map_nil, List.sum_nil, Nat.add_zero]
          exact taken_sentOn _ hForward.1
      · rw [if_neg hForward, if_neg hForward]
        exact .refl c

/-- `acknowledge` counts the FIN first, where it does. -/
def confirmFin (fwd : Bool) (c : Cell) : Cell :=
  if fwd ∧ c.tcp.forward = [] ∧ c.tcp.state = .closeWait then c.countFin else c

theorem taken_confirmFin (fwd : Bool) (c : Cell) : Taken 0 c (confirmFin fwd c) := by
  unfold confirmFin
  split_ifs
  · exact .countFin c
  · exact .refl c

theorem acknowledge_eq (K : Kernel) (fwd : Bool) (c : Cell) : acknowledge K fwd c =
    let result := writeAck K (confirmFin fwd c)
    if result.2 then touch K result.1 else result.1 := rfl

theorem repeats_acknowledge (K : Kernel) (fwd : Bool) (c : Cell) :
    Repeats (confirmFin fwd c) (acknowledge K fwd c) := by
  have hWrite := (frame_writeOrClose K (confirmFin fwd c) false).repeats
  rw [acknowledge_eq]
  dsimp only
  split_ifs
  · exact hWrite.trans (frame_touch K _ _).repeats
  · exact hWrite

/-- The window that an event stores after the forward loop. -/
def storeWindow (K : Kernel) (c : Cell) : Cell :=
  let window := getReceiveWindow K c
  { window.1 with tcp := { window.1.tcp with recvWindow := window.2 } }

theorem frame_storeWindow (K : Kernel) (seq : U32) (c : Cell) : Frame seq c (storeWindow K c) :=
  (frame_getReceiveBuffer K seq c).trans (frame_setRecvWindow seq _ _)

theorem taken_storeWindow (K : Kernel) (c : Cell) : Taken 0 c (storeWindow K c) := by
  obtain ⟨hSeq, hEvents, hTried, hCalls⟩ := Taken.getReceiveBuffer K c
  exact ⟨hSeq, hEvents, hTried, hCalls⟩

/-- What an event outside `TCP_LISTEN` takes: the loop, and perhaps the FIN. -/
def readyTaken (K : Kernel) (ev : EpollEvents) (c : Cell) : Cell :=
  let forwarded := if ev.epollout then forwardData K c else (c, false)
  confirmFin forwarded.2 (storeWindow K forwarded.1)

/-- An event outside `TCP_LISTEN`, up to where it reads. -/
def beforeRead (K : Kernel) (ev : EpollEvents) (c : Cell) : Cell :=
  let forwarded := if ev.epollout then forwardData K c else (c, false)
  let window := getReceiveWindow K forwarded.1
  if forwarded.2 ∨ (window.1.tcp.recvWindow = 0 ∧ 0 < window.2) then
    acknowledge K forwarded.2 (storeWindow K forwarded.1)
  else storeWindow K forwarded.1

theorem socketReady_eq (K : Kernel) (ev : EpollEvents) (c : Cell) : socketReady K ev c =
    if (beforeRead K ev c).tcp.state = .established ∨ (beforeRead K ev c).tcp.state = .closeWait then
      socketRead K ev (beforeRead K ev c)
    else beforeRead K ev c := rfl

/-- What the forward loop, the window and the acknowledgement keep, an event
keeps up to where it reads. -/
theorem beforeRead_keeps {P : Cell → Prop} {ev : EpollEvents} (h : P c)
    (hForward : P (forwardData K c).1) (hStore : ∀ d, P d → P (storeWindow K d))
    (hAcknowledge : ∀ fwd d, P d → P (acknowledge K fwd d)) : P (beforeRead K ev c) := by
  have hForwarded : P (if ev.epollout then forwardData K c else (c, false)).1 := by
    split_ifs
    · exact hForward
    · exact h
  have hStored := hStore _ hForwarded
  unfold beforeRead
  dsimp only
  generalize (if ev.epollout then forwardData K c else (c, false)) = forwarded at hStored ⊢
  split_ifs
  · exact hAcknowledge _ _ hStored
  · exact hStored

theorem confirmFin_false (c : Cell) : confirmFin false c = c := by simp [confirmFin]

/-- After it has taken what it takes, an event only repeats. -/
theorem repeats_socketReady (K : Kernel) (ev : EpollEvents) (c : Cell) :
    Repeats (readyTaken K ev c) (socketReady K ev c) := by
  have hAcknowledged : Repeats (readyTaken K ev c) (beforeRead K ev c) := by
    unfold readyTaken beforeRead
    dsimp only
    generalize (if ev.epollout then forwardData K c else (c, false)) = forwarded
    split_ifs with hAck
    · exact repeats_acknowledge K _ _
    · have hNone : forwarded.2 = false := by
        cases h : forwarded.2 with
        | false => rfl
        | true => exact absurd (Or.inl h) hAck
      rw [hNone, confirmFin_false]
      exact .refl _
  rw [socketReady_eq]
  split_ifs with hRead
  · apply hAcknowledged.trans
    apply repeats_socketRead
    rcases hRead with h | h <;> rw [h] <;> decide
  · exact hAcknowledged

/-- What it takes is what its turns count, and a FIN. -/
theorem taken_ready (ev : EpollEvents) (hSocket : 0 ≤ c.socket) (hError : ev.epollerr = false)
    (hState : c.tcp.state ≠ .listen) :
    Taken (countedStep c (K, .event ev)) c (readyTaken K ev c) := by
  have hRest : ∀ forwarded : Cell × Bool,
      Taken 0 forwarded.1 (confirmFin forwarded.2 (storeWindow K forwarded.1)) := fun forwarded =>
    (taken_storeWindow K forwarded.1).trans (taken_confirmFin _ _)
  unfold readyTaken countedStep turns
  dsimp only
  by_cases hWrite : ev.epollout = true
  · rw [if_pos hWrite, if_pos ⟨hSocket, by simp [hError], hState, hWrite⟩]
    have hBuffer := Taken.getReceiveBuffer K c
    have hLoop := taken_forwardLoop (K := K) (getReceiveBuffer K c).1.tcp.forward
      (BitVec.ofInt 32 (getReceiveBuffer K c).2) false (getReceiveBuffer K c).1 rfl
    have hAll := (hBuffer.trans hLoop).trans (hRest (forwardData K c))
    rwa [Nat.zero_add, Nat.add_zero] at hAll
  · rw [if_neg hWrite, if_neg (fun h => hWrite h.2.2.2)]
    exact hRest (c, false)

/-! The other handlers. -/

/-- Events in `TCP_LISTEN` count at most the SYN. -/
theorem answers_socketListen (ev : EpollEvents) (c : Cell) : Answers 0 c (socketListen K ev c) := by
  unfold socketListen
  split_ifs with hRead
  · have hRecv : Repeats c (recvFrom K c 12).1 := repeats_recvFrom K c 12
    have hTaken := Taken.recvFrom K c 12
    dsimp only
    unfold listenReceived
    split
    · exact .before hTaken (answers_writeRst K _)
    · split_ifs
      · refine .of_repeats (hRecv.trans ⟨rfl, rfl, rfl, (fun h => by cases h), ?_⟩)
        exact .one (.drain _) trivial rfl
      · exact .before hTaken (answers_writeRst K _)
      · exact .of_repeats hRecv
  · have hWrite : Repeats c.countSyn (writeSynAck K c.countSyn).1 := by
      rw [writeSynAck, writeOrClose_eq]
      exact repeats_afterWrite _ fun _ => rfl
    refine .mk (.countSyn c) ?_
    dsimp only
    split_ifs
    · exact ((hWrite.trans (frame_touch K _ _).repeats).trans (repeats_advanceLocal _ 1)).trans
        (repeats_setState _ _)
    · exact hWrite

/-- An event takes what its turns count, and answers. -/
theorem answers_checkTcpSocket (ev : EpollEvents) (hSocket : 0 ≤ c.socket) :
    Answers (countedStep c (K, .event ev)) c (checkTcpSocket K ev c) := by
  have hNone : ¬ (ev.epollerr = false ∧ c.tcp.state ≠ .listen) →
      countedStep c (K, .event ev) = 0 := by
    intro h
    simp only [countedStep, turns]
    rw [if_neg fun hAll => h ⟨by simpa using hAll.2.1, hAll.2.2.1⟩]
    rfl
  unfold checkTcpSocket
  split_ifs with hError hState
  · rw [hNone fun h => by simp [hError] at h]
    exact .before (.touch K c) (answers_writeRst K _)
  · rw [hNone fun h => h.2 hState]
    exact answers_socketListen ev c
  · exact .mk (taken_ready ev hSocket (by simpa using hError) hState) (repeats_socketReady K ev c)

theorem taken_queueTcp (hdr : TcpHdr) (data : Payload) (c : Cell) :
    Taken 0 c (queueTcp hdr data c) := by
  unfold queueTcp
  split_ifs
  · exact .refl c
  · exact ⟨by simp, rfl, id, .of_log_eq rfl⟩

/-- A FIN is counted and acknowledged, or only noted. -/
theorem answers_handleFin (c : Cell) : Answers 0 c (handleFin K c) := by
  have hWrite : Repeats c.countFin (writeAck K c.countFin).1 :=
    (frame_writeOrClose K c.countFin false).repeats
  have hCounted : ∀ next, Answers 0 c
      (if (writeAck K c.countFin).2 then (writeAck K c.countFin).1.setState next
        else (writeAck K c.countFin).1) := by
    intro next
    refine .mk (.countFin c) ?_
    split_ifs
    · exact hWrite.trans (repeats_setState _ _)
    · exact hWrite
  unfold handleFin
  split
  · split_ifs
    · exact hCounted .closeWait
    · exact .of_repeats (repeats_setState c _)
  · exact hCounted .close
  · exact .of_repeats (.refl c)

theorem answers_handleFlags (hdr : TcpHdr) (c : Cell) : Answers 0 c (handleFlags K hdr c) := by
  have hAcked : ∀ ackSeq : U32, Repeats c { c with tcp := { c.tcp with acked := ackSeq } } :=
    fun _ => .of_log_eq rfl rfl rfl rfl rfl
  have hAck : Repeats c (handleAck hdr.ackSeq c) :=
    handleAck_keeps (hAcked hdr.ackSeq) fun d next h => h.trans (repeats_setState d next)
  have hOther : Answers 0 c (handleOtherAck K hdr.ackSeq c) := by
    apply handleOtherAck_keeps (.of_repeats (.refl c))
    · exact .of_repeats ⟨rfl, rfl, rfl, id, .one .keepAlive trivial rfl⟩
    · exact fun _ => .of_repeats (hAcked hdr.ackSeq)
    · exact answers_writeRst K c
  exact handleFlags_keeps (.of_repeats (.refl c)) (.of_repeats (repeats_setState c _))
    (answers_handleFin c) (fun _ _ => .of_repeats hAck) hOther

/-- A segment is queued, and its flags are answered. -/
theorem answers_tunnelSegment (rport : U16) (hdr : TcpHdr) (data : Payload) (c : Cell) :
    Answers 0 c (tunnelSegment K rport hdr data c) := by
  have hQueued : Answers 0 c (queueTcp hdr data c) := (Answers.of_repeats (.refl c)).queueTcp hdr data
  have hRefresh := Taken.refresh K hdr c
  unfold tunnelSegment handleSegment
  dsimp only
  split_ifs
  · exact hQueued
  · exact answers_writeRst K c
  · exact .before hRefresh (answers_writeRst K _)
  · exact .before hRefresh (answers_writeRst K _)
  · exact .before hRefresh (.before (taken_queueTcp hdr data _) (answers_handleFlags hdr _))
  · exact .before hRefresh (answers_handleFlags hdr _)

/-- The CONNECT phase asks at most once, and resets the session where that fails. -/
theorem asks_connectPhase (K : Kernel) (data : Payload) (c : Cell) : ∃ d, Asks c d ∧
    (connectPhase K data c = d ∨
      (connectPhase K data c = writeRst K d ∧ d.tcp.connectSent ≠ .established)) := by
  have hNamed := silent_storeHostname (connectHost data.val c) c
  have hSame : (storeHostname (connectHost data.val c) c).events = c.events ∧
      (storeHostname (connectHost data.val c) c).log = c.log := by
    unfold storeHostname
    split_ifs <;> exact ⟨rfl, rfl⟩
  unfold connectPhase
  dsimp only
  set named := storeHostname (connectHost data.val c) c
  by_cases hFirst : named.tcp.connectSent = .notSent ∧ 0 < (connectHost data.val c).length
  · rw [if_pos hFirst]
    set request := connectRequest named.tcp.hostname
    have hNotSent : c.tcp.connectSent = .notSent := hNamed.connectSent.symm.trans hFirst.1
    cases hResult : (sendConnect K named request).2 with
    | error errno =>
        refine ⟨(sendConnect K named request).1, ⟨hNamed.remoteSeq, hSame.1, Or.inr ⟨hNotSent, request,
          .error errno, ?_, fun _ => ⟨errno, rfl⟩⟩⟩, Or.inr ⟨rfl, ?_⟩⟩
        · rw [← hResult, ← hSame.2]
          rfl
        · exact fun h => by simp [sendConnect, hFirst.1] at h
    | accepted count =>
        let asked := (sendConnect K named request).1
        refine ⟨{ asked with tcp := { asked.tcp with connectSent := .sent, state := .listen } },
          ⟨hNamed.remoteSeq, hSame.1, Or.inr ⟨hNotSent, request, .accepted count, ?_,
            fun h => by cases h⟩⟩, Or.inl rfl⟩
        rw [← hResult, ← hSame.2]
        rfl
  · rw [if_neg hFirst]
    exact ⟨named, ⟨hNamed.remoteSeq, hSame.1, Or.inl ⟨hSame.2, hNamed.connectSent⟩⟩, Or.inl rfl⟩

namespace Asks

theorem refl (c : Cell) : Asks c c := ⟨rfl, rfl, Or.inl ⟨rfl, rfl⟩⟩

theorem calls (h : Asks c d) : Calls (fun entry => ∃ request result,
    entry = .sendConnect request result) c d := by
  rcases h.log with ⟨hLog, -⟩ | ⟨-, request, result, hLog, -⟩
  · exact .of_log_eq hLog
  · exact .one _ ⟨request, result, rfl⟩ hLog

theorem syns (h : Asks c d) : Tun2Http.syns d.log = Tun2Http.syns c.log :=
  h.calls.log_eq Tun2Http.syns fun entry log hEntry => by
    obtain ⟨request, result, rfl⟩ := hEntry
    simp

theorem fins (h : Asks c d) : Tun2Http.fins d.log = Tun2Http.fins c.log :=
  h.calls.log_eq Tun2Http.fins fun entry log hEntry => by
    obtain ⟨request, result, rfl⟩ := hEntry
    simp

end Asks

theorem answers_existingSession (hdr : TcpHdr) (data : Payload) (c : Cell) :
    ∃ d, Asks c d ∧ Answers 0 d (existingSession K c.tcp.dest hdr data c) := by
  unfold existingSession
  split_ifs with hUrg hPort
  · exact ⟨c, .refl c, .of_repeats (.refl c)⟩
  · obtain ⟨d, hAsks, hEq | ⟨hEq, hSent⟩⟩ := asks_connectPhase K data c
    · rw [hEq]
      exact ⟨d, hAsks, answers_tunnelSegment _ hdr data d⟩
    · have hNot : (writeRst K d).tcp.connectSent ≠ .established := by
        rwa [(writeRst_tcp d).2.2.1]
      rw [hEq, tunnelSegment, if_pos ⟨hPort, hNot⟩]
      exact ⟨d, hAsks, (answers_writeRst K d).queueTcp hdr data⟩
  · exact ⟨c, .refl c, answers_tunnelSegment _ hdr data c⟩

/-- Every step but a monitor pass may ask for the tunnel first. Then it takes
what its turns count, and answers. -/
theorem answers_step (c : Cell) (K : Kernel) {i : Input} (hInput : i ≠ .monitor) :
    ∃ d, Asks c d ∧ Answers (countedStep c (K, i)) d (step c (K, i)) := by
  cases i with
  | segment hdr data => exact answers_existingSession hdr data c
  | event ev =>
      refine ⟨c, .refl c, ?_⟩
      unfold step
      dsimp only
      split_ifs with hSocket
      · exact answers_checkTcpSocket ev hSocket
      · have hNone : countedStep c (K, .event ev) = 0 := by
          simp only [countedStep, turns]
          rw [if_neg fun h => hSocket h.1]
          rfl
        rw [hNone]
        exact .of_repeats (.refl c)
  | monitor => exact absurd rfl hInput
  | check sessions maxsessions =>
      exact ⟨c, .refl c, .of_repeats (frame_checkTcpSession K _ sessions maxsessions c).repeats⟩
  | allowed => exact ⟨c, .refl c, checkAllowed_keeps (.of_repeats (.refl c)) (answers_writeRst K c)⟩

/-- In a monitor pass the mask may be changed besides. -/
def Io.probes (seq : U32) : Io → Prop
  | .epollMod _ _ => True
  | entry => entry.acks seq

/-- A monitor pass takes nothing, and writes at most the keep alive, which
acknowledges one number less. -/
theorem monitor_probes (K : Kernel) (c : Cell) :
    (step c (K, .monitor)).tcp.remoteSeq = c.tcp.remoteSeq ∧
      Calls (Io.probes (c.tcp.remoteSeq - 1)) c (step c (K, .monitor)) := by
  have hWanted := frame_wantedEvents K c
  have hCalls : Calls (Io.probes (c.tcp.remoteSeq - 1)) c (wantedEvents K c).1 :=
    hWanted.calls.mono fun entry hEntry => by
      cases entry <;> simp_all [Io.repeats, Io.acks, Io.probes]
  unfold step
  dsimp only
  split_ifs
  · unfold monitorTcpSession
    dsimp only
    split_ifs
    · exact ⟨hWanted.remoteSeq, hCalls.trans (.one (.epollMod _ _) trivial rfl)⟩
    · exact ⟨hWanted.remoteSeq, hCalls.trans (.one (.epollMod _ _) trivial rfl)⟩
    · exact ⟨hWanted.remoteSeq, hCalls⟩
  · exact ⟨rfl, .of_log_eq rfl⟩

/-- A step only adds calls. -/
theorem step_log (c : Cell) (input : Kernel × Input) :
    ∃ entries, (step c input).log = entries ++ c.log := by
  obtain ⟨K, i⟩ := input
  by_cases hInput : i = .monitor
  · subst hInput
    obtain ⟨entries, -, hLog⟩ := (monitor_probes K c).2
    exact ⟨entries, hLog⟩
  · obtain ⟨b, hAsks, m, e, hTaken, hRepeats, queue, hEq⟩ := answers_step c K hInput
    obtain ⟨first, -, hFirst⟩ := hAsks.calls
    obtain ⟨second, -, hSecond⟩ := hTaken.calls
    obtain ⟨third, -, hThird⟩ := hRepeats.calls
    exact ⟨third ++ (second ++ first), by
      rw [hEq, Cell.setForward_log, hThird, hSecond, hFirst, List.append_assoc, List.append_assoc]⟩

end Tun2Http
