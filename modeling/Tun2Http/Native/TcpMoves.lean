import Tun2Http.Native.TcpRules

/-! Every step of a session is a sequence of atomic moves. The moves say once
what the handlers can do to the state, the queue and the sequence numbers;
the invariants of a session are proved for a move at a time. -/
namespace Tun2Http

open Machine Relation

/-- Calls that neither write to the tun, nor take client data, nor close. -/
def Io.quiet : Io → Prop
  | .tun _ _ | .send _ _ | .close | .countSyn | .countFin => False
  | _ => True

/-- The bytes read from the socket, in order. -/
def taken : List Io → List UInt8
  | [] => []
  | .recv (.data bytes) :: before => taken before ++ bytes
  | .drain bytes :: before => taken before ++ bytes
  | _ :: before => taken before

/-- The two ends that a session connects. -/
def TcpSession.endpoints (t : TcpSession) : Nat × List UInt8 × List UInt8 × U16 × U16 :=
  (t.version, t.saddr, t.daddr, t.source, t.dest)

/-- `d` is `c` after quiet calls, up to clocks, windows and byte counts. -/
structure Quiet (c d : Cell) : Prop where
  socket : d.socket = c.socket
  endpoints : d.tcp.endpoints = c.tcp.endpoints
  remoteSeq : d.tcp.remoteSeq = c.tcp.remoteSeq
  remoteStart : d.tcp.remoteStart = c.tcp.remoteStart
  dest : d.tcp.dest = c.tcp.dest
  state : d.tcp.state = c.tcp.state
  forward : d.tcp.forward = c.tcp.forward
  connectSent : d.tcp.connectSent = c.tcp.connectSent
  log : ∃ calls : List Io, (∀ entry ∈ calls, entry.quiet) ∧ d.log = calls ++ c.log

namespace Quiet

/-- What quiet calls do not change in a log, they do not change in a session. -/
theorem log_eq {α : Type} {c d : Cell} (h : Quiet c d) (f : List Io → α)
    (hf : ∀ entry log, entry.quiet → f (entry :: log) = f log) : f d.log = f c.log := by
  obtain ⟨calls, hCalls, hLog⟩ := h.log
  rw [hLog]
  clear hLog
  induction calls with
  | nil => rfl
  | cons entry rest ih =>
      rw [List.cons_append, hf _ _ (hCalls entry (List.mem_cons_self ..))]
      exact ih fun e he => hCalls e (List.mem_cons_of_mem _ he)

theorem refl (c : Cell) : Quiet c c := by
  constructor <;> first | rfl | exact ⟨[], by simp⟩

theorem trans {a b c : Cell} (hFirst : Quiet a b) (hSecond : Quiet b c) : Quiet a c := by
  obtain ⟨calls, hCalls, hLog⟩ := hFirst.log
  obtain ⟨more, hMore, hLog'⟩ := hSecond.log
  refine ⟨hSecond.socket.trans hFirst.socket, hSecond.endpoints.trans hFirst.endpoints,
    hSecond.remoteSeq.trans hFirst.remoteSeq, hSecond.remoteStart.trans hFirst.remoteStart,
    hSecond.dest.trans hFirst.dest, hSecond.state.trans hFirst.state,
    hSecond.forward.trans hFirst.forward, hSecond.connectSent.trans hFirst.connectSent,
    more ++ calls, ?_, by simp [hLog', hLog]⟩
  intro entry hEntry
  rcases List.mem_append.mp hEntry with h | h
  · exact hMore entry h
  · exact hCalls entry h

theorem call (c : Cell) (entry : Io) (h : entry.quiet) : Quiet c (c.call entry) := by
  constructor <;> first | rfl | exact ⟨[entry], by simpa using h, rfl⟩

end Quiet

/-- The quiet calls read nothing from the socket, but for a reply in `TCP_LISTEN`. -/
structure Silent (c d : Cell) : Prop extends Quiet c d where
  read : c.tcp.state = .listen ∨ taken d.log = taken c.log

namespace Silent

theorem refl (c : Cell) : Silent c c := ⟨Quiet.refl c, Or.inr rfl⟩

theorem trans {a b c : Cell} (hFirst : Silent a b) (hSecond : Silent b c) : Silent a c := by
  refine ⟨hFirst.toQuiet.trans hSecond.toQuiet, ?_⟩
  rcases hFirst.read with hListen | hRead
  · exact Or.inl hListen
  · exact hSecond.read.imp (hFirst.state ▸ ·) (·.trans hRead)

theorem call (c : Cell) (entry : Io) (h : entry.quiet)
    (hRead : c.tcp.state = .listen ∨ taken (entry :: c.log) = taken c.log) :
    Silent c (c.call entry) :=
  ⟨Quiet.call c entry h, hRead⟩

end Silent

theorem quiet_recvFrom (K : Kernel) (c : Cell) (size : Nat) : Quiet c (recvFrom K c size).1 :=
  Quiet.call c (.recv _) trivial

theorem silent_recvFrom (K : Kernel) {c : Cell} (size : Nat) (hState : c.tcp.state = .listen) :
    Silent c (recvFrom K c size).1 :=
  ⟨quiet_recvFrom K c size, Or.inl hState⟩

theorem silent_touch (K : Kernel) (c : Cell) : Silent c (touch K c) := by
  refine ⟨?_, Or.inr rfl⟩
  constructor <;> first | rfl | exact ⟨[.time (K.time c.calls)], by simp [Io.quiet], rfl⟩

theorem silent_advanceLocal (c : Cell) (count : Nat) : Silent c (c.advanceLocal count) := by
  refine ⟨?_, Or.inr rfl⟩
  constructor <;> first | rfl | exact ⟨[], by simp⟩

theorem silent_getReceiveBuffer (K : Kernel) (c : Cell) : Silent c (getReceiveBuffer K c).1 := by
  rcases getReceiveBuffer_cases K c with h | h <;> rw [h]
  · exact Silent.refl c
  · exact Silent.call c (.buffer _ _) trivial (Or.inr rfl)

/-- A packet goes to the tun; where it is not taken whole the session closes. -/
def afterWrite (c : Cell) (packet : TcpPacket) (whole : Bool) : Cell :=
  let d := c.call (.tun packet whole)
  if whole then d else d.setState .closing

theorem writeOrClose_eq (K : Kernel) (c : Cell) (payload : List UInt8) (syn fin : Bool) :
    writeOrClose K c payload syn fin =
      (afterWrite c (buildTcp c.tcp payload syn true fin false) (K.tunWrite c.calls),
        K.tunWrite c.calls) := by
  cases hWhole : K.tunWrite c.calls <;> simp [writeOrClose, writeTcp, afterWrite, hWhole]

@[simp] theorem afterWrite_socket (c : Cell) (packet : TcpPacket) (whole : Bool) :
    (afterWrite c packet whole).socket = c.socket := by
  cases whole <;> rfl

@[simp] theorem afterWrite_log (c : Cell) (packet : TcpPacket) (whole : Bool) :
    (afterWrite c packet whole).log = .tun packet whole :: c.log := by
  cases whole <;> rfl

theorem afterWrite_tcp (c : Cell) (packet : TcpPacket) (whole : Bool) :
    (afterWrite c packet whole).tcp =
      { c.tcp with state := if whole then c.tcp.state else .closing } := by
  cases whole <;> rfl

/-- The atomic moves of the step that starts in `s` with the input `i`. -/
inductive Move (K : Kernel) (i : Input) (s : Cell) : Cell → Cell → Prop where
  | quiet {c d : Cell} (h : Silent c d) : Move K i s c d
  /-- An acknowledgement without data; a keep alive steps one back. -/
  | write {c : Cell} (back : U32) (fin whole : Bool) (hBack : back = 0 ∨ back = 1)
      (hOpen : c.tcp.state ≠ .close ∨ 0 ≤ c.socket) :
      Move K i s c (afterWrite c
        (buildTcp { c.tcp with remoteSeq := c.tcp.remoteSeq - back } [] false true fin false) whole)
  /-- The first bytes that the step reads go to the tun. -/
  | relay {c : Cell} (bytes : List UInt8)
      (hState : c.tcp.state = .established ∨ c.tcp.state = .closeWait)
      (hWindow : 0 < getSendWindow c.tcp) (hFirst : taken c.log = taken s.log)
      (hBytes : bytes ≠ []) (hRead : (recvFrom K c (readSize c.tcp)).2 = .data bytes)
      (hSize : readSize c.tcp = readSize s.tcp) :
      Move K i s c (relay K bytes (recvFrom K c (readSize c.tcp)).1)
  | reset (c : Cell) (hReply : c.tcp.dest = 443 → c.tcp.state = .listen →
      c.tcp.connectSent = .sent → Silent s c ∧ Declined s (K, i)) : Move K i s c (writeRst K c)
  | synAck (ev : EpollEvents) (whole : Bool) (hInput : i = .event ev) (hError : ev.epollerr = false)
      (hRead : ev.epollin = false) (hState : s.tcp.state = .listen) :
      Move K i s s
        (let d := afterWrite s.countSyn (buildTcp s.countSyn.tcp [] true true false false) whole
        if whole then d.setState .synRecv else d)
  | forward {c : Cell} (seg : Segment) (rest : List Segment) (hTurn : c ∈ turns s (K, i))
      (hQueue : c.tcp.forward = seg :: rest)
      (hNext : seg.seq + BitVec.ofNat 32 seg.sent = c.tcp.remoteSeq)
      (hState : c.tcp.state ≠ .listen) (hSocket : 0 ≤ c.socket) :
      Move K i s c (forwardTurn K seg rest c).1
  /-- The FIN is counted with the last of the data before it. -/
  | confirmFin {c : Cell} (sndbuf outq : Int) (data : List UInt8) (answer : SendResult)
      (before : List Io) (hState : c.tcp.state = .closeWait) (hQueue : c.tcp.forward = [])
      (hLog : c.log = .buffer sndbuf outq :: .send data answer :: before) :
      Move K i s c c.countFin
  | queue {c : Cell} (hdr : TcpHdr) (data : Payload) (hInput : i = .segment hdr data)
      (hSeq : ¬ compareU32 hdr.seq c.tcp.remoteSeq < 0)
      (hQueue : c.tcp.forward = s.tcp.forward)
      (hSame : c.tcp.state = .closing ∨ c.tcp.state = .close ∨
        (c.tcp.remoteSeq = s.tcp.remoteSeq ∧ Queues K s hdr data))
      (hOpen : (c.tcp.dest = 443 ∧ c.tcp.connectSent ≠ .established) ∨
        (data.val ≠ [] ∧ 0 ≤ c.socket ∧ c.tcp.state ≠ .closeWait ∧ c.tcp.state ≠ .closing ∧
          c.tcp.state ≠ .close)) :
      Move K i s c (c.setForward (insertSegment hdr data c.tcp.forward))
  | finQueued {c : Cell} (hState : c.tcp.state = .established) (hQueue : c.tcp.forward ≠ []) :
      Move K i s c (c.setState .closeWait)
  | fin {c : Cell} (next : TcpState) (whole : Bool)
      (hState : (c.tcp.state = .established ∧ c.tcp.forward = [] ∧ next = .closeWait) ∨
        (c.tcp.state = .finWait1 ∧ next = .close)) :
      Move K i s c
        (let d := afterWrite c.countFin (buildTcp c.countFin.tcp [] false true false false) whole
        if whole then d.setState next else d)
  | establish {c : Cell} (hState : c.tcp.state = .synRecv)
      (hTunnel : c.tcp.dest = 443 → c.tcp.connectSent = .established)
      (hInput : ∃ hdr data, i = .segment hdr data ∧ hdr.ack = true) :
      Move K i s c (c.setState .established)
  | lastAck {c : Cell} (hState : c.tcp.state = .lastAck) : Move K i s c (c.setState .closing)
  /-- A reset of the client, a timeout, or a socket that cannot be watched. -/
  | abort {c : Cell} (hOpen : c.tcp.state ≠ .close ∨ 0 ≤ c.socket) :
      Move K i s c (c.setState .closing)
  | connect {c : Cell} (hdr : TcpHdr) (data : Payload) (count : Nat) (hQuiet : Silent s c)
      (hInput : i = .segment hdr data) (hUrg : hdr.urg = false) (hPort : c.tcp.dest = 443)
      (hSent : c.tcp.connectSent = .notSent) (hSocket : 0 ≤ c.socket)
      (hAnswer : K.send s.calls = .accepted count) :
      Move K i s c { c with tcp := { c.tcp with connectSent := .sent, state := .listen } }
  | reply {c : Cell} (hState : c.tcp.state = .listen) (hSent : c.tcp.connectSent = .sent) :
      Move K i s c
        { c with tcp := { c.tcp with connectSent := .established, state := .synRecv } }
  /-- The end of the server's stream, once our FIN is written. -/
  | shutdown {c : Cell} (next : TcpState) (hQueue : c.tcp.forward = [])
      (hState : (c.tcp.state = .established ∧ next = .finWait1) ∨
        (c.tcp.state = .closeWait ∧ next = .lastAck)) :
      Move K i s c (closeSocket (c.setState next))
  | closeSocket {c : Cell} (hState : c.tcp.state = .closing) : Move K i s c (closeSocket c)
  | closed {c : Cell} (hState : c.tcp.state = .closing) (hSocket : c.socket < 0) :
      Move K i s c (c.setState .close)

/-- Sequences of moves of one step. -/
abbrev Moves (K : Kernel) (i : Input) (s : Cell) := ReflTransGen (Move K i s)

section

variable {K : Kernel} {i : Input} {s : Cell}

theorem Silent.moves {c d : Cell} (h : Silent c d) : Moves K i s c d := .single (.quiet h)

/-- Outside `TCP_LISTEN` a reset needs no reason. -/
theorem reset_of_state {c : Cell} (hState : c.tcp.state ≠ .listen) : Move K i s c (writeRst K c) :=
  .reset c fun _ hListen => absurd hListen hState

/-- Nor does it where no reply of the proxy is outstanding. -/
theorem reset_of_tunnel {c : Cell} (hSent : c.tcp.dest = 443 → c.tcp.connectSent ≠ .sent) :
    Move K i s c (writeRst K c) :=
  .reset c fun hPort _ hOutstanding => absurd hOutstanding (hSent hPort)

/-- The helpers that acknowledge are a write. -/
theorem writeOrClose_moves (c : Cell) (fin : Bool) (hOpen : c.tcp.state ≠ .close ∨ 0 ≤ c.socket) :
    Moves K i s c (writeOrClose K c [] false fin).1 := by
  rw [writeOrClose_eq]
  have hMove := Move.write (K := K) (i := i) (s := s) 0 fin (K.tunWrite c.calls)
    (Or.inl rfl) hOpen
  simp only [BitVec.ofNat_eq_ofNat, BitVec.sub_zero] at hMove
  exact .single hMove

@[simp] theorem sentOn_state (seg : Segment) (c : Cell) :
    (sentOn K seg c).tcp.state = c.tcp.state := rfl

@[simp] theorem sentOn_socket (seg : Segment) (c : Cell) : (sentOn K seg c).socket = c.socket := rfl

theorem forwardTurn_state (seg : Segment) (rest : List Segment) (c : Cell) :
    (forwardTurn K seg rest c).1.tcp.state = c.tcp.state := by
  rw [forwardTurn_eq]
  split_ifs <;> rfl

theorem forwardTurn_socket (seg : Segment) (rest : List Segment) (c : Cell) :
    (forwardTurn K seg rest c).1.socket = c.socket := by
  rw [forwardTurn_eq]
  split_ifs <;> rfl

/-- The forward loop is a sequence of turns. They keep the state and the
socket, and when the loop emptied the queue its last call was a `send()`. -/
theorem forwardLoop_moves (queue : List Segment) (bufferSize : U32) (fwd : Bool) (c : Cell)
    (hQueue : c.tcp.forward = queue)
    (hTurns : ∀ t ∈ forwardTurns K queue bufferSize c, t ∈ turns s (K, i))
    (hState : c.tcp.state ≠ .listen) (hSocket : 0 ≤ c.socket) :
    Moves K i s c (forwardLoop K queue bufferSize fwd c).1 ∧
      (forwardLoop K queue bufferSize fwd c).1.tcp.state = c.tcp.state ∧
      (forwardLoop K queue bufferSize fwd c).1.socket = c.socket := by
  induction queue generalizing bufferSize fwd c with
  | nil => exact ⟨.refl, rfl, rfl⟩
  | cons seg rest ih =>
      rw [forwardLoop]
      rw [forwardTurns] at hTurns
      by_cases hForward : canForward c seg bufferSize
      · rw [if_pos hForward] at hTurns ⊢
        have hMove : Move K i s c (forwardTurn K seg rest c).1 :=
          .forward seg rest (hTurns c (List.mem_cons_self ..)) hQueue hForward.1 hState hSocket
        have hTurnState := forwardTurn_state (K := K) seg rest c
        have hTurnSocket := forwardTurn_socket (K := K) seg rest c
        rw [forwardTurn_eq] at hTurns hMove hTurnState hTurnSocket ⊢
        by_cases hAll : counted K seg c = seg.unsent
        · simp only [hAll, if_true] at hTurns hMove hTurnState hTurnSocket ⊢
          obtain ⟨hMoves, hLoopState, hLoopSocket⟩ := ih (bufferSize - BitVec.ofNat 32 seg.unsent)
            true ((sentOn K seg c).setForward rest) rfl
            (fun t ht => hTurns t (List.mem_cons_of_mem _ ht)) hState hSocket
          exact ⟨.head hMove hMoves, hLoopState, hLoopSocket⟩
        · simp only [hAll, if_false] at hMove hTurnState hTurnSocket ⊢
          exact ⟨.single hMove, hTurnState, hTurnSocket⟩
      · rw [if_neg hForward]
        exact ⟨.refl, rfl, rfl⟩

/-- Nothing is read from the socket in the loop. -/
theorem forwardLoop_taken (queue : List Segment) (bufferSize : U32) (fwd : Bool) (c : Cell) :
    taken (forwardLoop K queue bufferSize fwd c).1.log = taken c.log :=
  forwardLoop_keeps (P := fun d => taken d.log = taken c.log) (fun _ _ _ h => h) queue bufferSize fwd
    rfl

/-- The last call of the session was a `send()` of client data. -/
def SentLast (c : Cell) : Prop := ∃ data answer before, c.log = .send data answer :: before

/-- Where the loop forwarded something and left no queue, its last call was
the `send()` that took the last of it. -/
theorem forwardLoop_sentLast (queue : List Segment) (bufferSize : U32) (fwd : Bool) (c : Cell)
    (hQueue : c.tcp.forward = queue) (hFwd : fwd = true → SentLast c)
    (hLoop : (forwardLoop K queue bufferSize fwd c).2 = true)
    (hEmpty : (forwardLoop K queue bufferSize fwd c).1.tcp.forward = []) :
    SentLast (forwardLoop K queue bufferSize fwd c).1 := by
  induction queue generalizing bufferSize fwd c with
  | nil => exact hFwd hLoop
  | cons seg rest ih =>
      rw [forwardLoop] at hLoop hEmpty ⊢
      by_cases hForward : canForward c seg bufferSize
      · rw [if_pos hForward, forwardTurn_eq] at hLoop hEmpty ⊢
        by_cases hAll : counted K seg c = seg.unsent
        · simp only [hAll, if_true] at hLoop hEmpty ⊢
          exact ih _ true _ rfl (fun _ => ⟨_, _, _, rfl⟩) hLoop hEmpty
        · simp only [hAll, if_false, Cell.setForward_tcp] at hEmpty
          cases hEmpty
      · rw [if_neg hForward] at hEmpty
        rw [hQueue] at hEmpty
        cases hEmpty

theorem forwardData_moves (ev : EpollEvents) (hInput : i = .event ev)
    (hError : ev.epollerr = false) (hWrite : ev.epollout = true)
    (hState : s.tcp.state ≠ .listen) (hSocket : 0 ≤ s.socket) :
    Moves K i s s (forwardData K s).1 ∧
      (forwardData K s).1.tcp.state = s.tcp.state ∧
      (forwardData K s).1.socket = s.socket := by
  have hBuffer := silent_getReceiveBuffer K s
  have hTurns : turns s (K, i) = forwardTurns K (getReceiveBuffer K s).1.tcp.forward
      (BitVec.ofInt 32 (getReceiveBuffer K s).2) (getReceiveBuffer K s).1 := by
    simp [turns, hInput, hSocket, hError, hState, hWrite]
  obtain ⟨hMoves, hLoopState, hLoopSocket⟩ := forwardLoop_moves (K := K) (i := i) (s := s)
    (getReceiveBuffer K s).1.tcp.forward (BitVec.ofInt 32 (getReceiveBuffer K s).2) false
    (getReceiveBuffer K s).1 rfl (fun t ht => by rwa [hTurns])
    (by rw [hBuffer.state]; exact hState) (by rw [hBuffer.socket]; exact hSocket)
  exact ⟨.head (.quiet hBuffer) hMoves, hLoopState.trans hBuffer.state,
    hLoopSocket.trans hBuffer.socket⟩

theorem forwardData_taken (c : Cell) : taken (forwardData K c).1.log = taken c.log := by
  apply (forwardLoop_taken _ _ false _).trans
  rcases getReceiveBuffer_cases K c with h | h <;> rw [h]
  rfl

theorem forwardData_sentLast (c : Cell) (hLoop : (forwardData K c).2 = true)
    (hEmpty : (forwardData K c).1.tcp.forward = []) : SentLast (forwardData K c).1 :=
  forwardLoop_sentLast _ _ false _ rfl (fun h => by cases h) hLoop hEmpty

/-- The acknowledgement after the loop. A FIN is confirmed only where the
loop sent the last of the queue, and only the buffer was looked at since. -/
theorem acknowledge_moves (fwd : Bool) (c : Cell) (hSocket : 0 ≤ c.socket)
    (hSent : fwd = true → c.tcp.forward = [] → ∃ sndbuf outq data answer before,
      c.log = .buffer sndbuf outq :: .send data answer :: before) :
    Moves K i s c (acknowledge K fwd c) ∧ (acknowledge K fwd c).socket = c.socket := by
  unfold acknowledge
  set d := if fwd ∧ c.tcp.forward = [] ∧ c.tcp.state = .closeWait then c.countFin else c with hD
  have hConfirm : Moves K i s c d ∧ d.socket = c.socket := by
    rw [hD]
    split_ifs with h
    · obtain ⟨sndbuf, outq, data, answer, before, hLog⟩ := hSent h.1 h.2.1
      exact ⟨.single (.confirmFin sndbuf outq data answer before h.2.2 h.2.1 hLog), rfl⟩
    · exact ⟨.refl, rfl⟩
  have hWrite := writeOrClose_moves (K := K) (i := i) (s := s) d false
    (Or.inr (by rw [hConfirm.2]; exact hSocket))
  simp only [writeAck, writeOrClose_eq] at hWrite ⊢
  generalize K.tunWrite d.calls = whole at hWrite ⊢
  cases whole with
  | false => exact ⟨hConfirm.1.trans hWrite, hConfirm.2⟩
  | true => exact ⟨hConfirm.1.trans (hWrite.tail (.quiet (silent_touch K _))), hConfirm.2⟩

/-- The room to read depends on the segment size, the window and what is acknowledged. -/
theorem readSize_congr {t u : TcpSession} (hMss : t.mss = u.mss) (hWindow : t.sendWindow = u.sendWindow)
    (hLocal : t.localSeq = u.localSeq) (hAcked : t.acked = u.acked) : readSize t = readSize u := by
  rw [readSize, readSize, getSendWindow, getSendWindow, hMss, hWindow, hLocal, hAcked]

/-- The forward loop leaves it alone. -/
theorem forwardData_readSize (c : Cell) : readSize (forwardData K c).1.tcp = readSize c.tcp := by
  refine forwardLoop_keeps (P := fun d => readSize d.tcp = readSize c.tcp) (fun seg queue d h => ?_) _ _ false ?_
  · exact (readSize_congr rfl rfl rfl rfl).trans h
  · rcases getReceiveBuffer_cases K c with h | h <;> rw [h]
    rfl

theorem acknowledge_readSize (fwd : Bool) (c : Cell) :
    readSize (acknowledge K fwd c).tcp = readSize c.tcp := by
  unfold acknowledge
  simp only [writeAck, writeOrClose_eq]
  split_ifs <;> apply readSize_congr <;> simp [afterWrite_tcp]

theorem acknowledge_taken (fwd : Bool) (c : Cell) :
    taken (acknowledge K fwd c).log = taken c.log := by
  unfold acknowledge
  simp only [writeAck, writeOrClose_eq]
  split_ifs <;> simp [taken]

theorem writeRst_socket (c : Cell) : (writeRst K c).socket = c.socket := by
  by_cases hState : c.tcp.state = .listen
  · simp [writeRst_of_listen K c hState]
  · rw [writeRst_of_ne_listen K c hState]
    split_ifs <;> rfl

/-- The end of the stream. Whatever happens to the FIN, the socket is closed. -/
theorem socketEof_moves (c : Cell)
    (hState : c.tcp.state = .established ∨ c.tcp.state = .closeWait) :
    Moves K i s c (socketEof K c) := by
  have hOpen : c.tcp.state ≠ .close := by rcases hState with h | h <;> rw [h] <;> decide
  unfold socketEof
  by_cases hQueue : c.tcp.forward = []
  · have hWrite := writeOrClose_moves (K := K) (i := i) (s := s) c true (Or.inl hOpen)
    rw [if_pos hQueue, writeFinAck]
    rw [writeOrClose_eq] at hWrite ⊢
    generalize K.tunWrite c.calls = whole at hWrite ⊢
    cases whole with
    | false =>
        apply hWrite.tail
        exact .closeSocket (c := afterWrite c (buildTcp c.tcp [] false true true false) false) rfl
    | true =>
        set d := (afterWrite c (buildTcp c.tcp [] false true true false) true).advanceLocal 1 with hD
        have hMoves : Moves K i s c d := hWrite.tail (.quiet (silent_advanceLocal _ 1))
        have hDState : d.tcp.state = c.tcp.state := rfl
        simp only [if_true, ← hD, hDState]
        rcases hState with h | h
        · rw [if_pos h]
          exact hMoves.tail (.shutdown .finWait1 hQueue (Or.inl ⟨h, rfl⟩))
        · rw [if_neg (by rw [h]; decide), if_pos h]
          exact hMoves.tail (.shutdown .lastAck hQueue (Or.inr ⟨h, rfl⟩))
  · rw [if_neg hQueue]
    have hListen : c.tcp.state ≠ .listen := by rcases hState with h | h <;> rw [h] <;> decide
    refine .tail (.single (reset_of_state hListen)) (.closeSocket ?_)
    rw [writeRst_state, if_neg hOpen]

/-- The bytes read are written to the tun, whether it takes them or not. -/
theorem relay_eq (bytes : List UInt8) (c : Cell) : ∃ d whole, Quiet c d ∧ d.log = c.log ∧
    relay K bytes c =
      let e := afterWrite d (buildTcp d.tcp bytes false true false false) whole
      if whole then e.advanceLocal bytes.length else e := by
  refine ⟨{ c with tcp := { c.tcp with
    received := c.tcp.received + BitVec.ofNat 64 bytes.length } }, K.tunWrite c.calls, ?_, rfl, ?_⟩
  · constructor <;> first | rfl | exact ⟨[], by simp⟩
  · simp only [relay, writeData, writeOrClose_eq]
    rfl

/-- To read and relay is a write between two quiet steps. -/
theorem relay_quiet (bytes : List UInt8) (c : Cell) (size : Nat) : ∃ d whole, Quiet c d ∧
    Quiet (afterWrite d (buildTcp d.tcp bytes false true false false) whole)
      (relay K bytes (recvFrom K c size).1) := by
  obtain ⟨d, whole, hQuiet, -, hEq⟩ := relay_eq (K := K) bytes (recvFrom K c size).1
  refine ⟨d, whole, (quiet_recvFrom K c size).trans hQuiet, ?_⟩
  rw [hEq]
  cases whole with
  | false => exact Quiet.refl _
  | true => exact (silent_advanceLocal _ bytes.length).toQuiet

/-- Of what the socket gives after `TCP_LISTEN`, only bytes go to the tun. -/
theorem socketRead_moves (ev : EpollEvents) (c : Cell)
    (hState : c.tcp.state = .established ∨ c.tcp.state = .closeWait)
    (hFirst : taken c.log = taken s.log) (hSize : readSize c.tcp = readSize s.tcp) :
    Moves K i s c (socketRead K ev c) := by
  have hListen : c.tcp.state ≠ .listen := by rcases hState with h | h <;> rw [h] <;> decide
  have hTouch := silent_touch K c
  unfold socketRead
  split_ifs with hRead
  · refine .head (.quiet hTouch) ?_
    dsimp only
    have hQuiet := quiet_recvFrom K (touch K c) (readSize c.tcp)
    have hLog : (recvFrom K (touch K c) (readSize c.tcp)).1.log =
        .recv (recvFrom K (touch K c) (readSize c.tcp)).2 :: (touch K c).log := rfl
    cases hResult : (recvFrom K (touch K c) (readSize c.tcp)).2 with
    | error errno =>
        rw [hResult] at hLog
        refine .head (.quiet ⟨hQuiet, Or.inr (by rw [hLog]; rfl)⟩) ?_
        unfold socketReceived
        dsimp only
        split_ifs
        · exact .single (reset_of_state (by rw [hQuiet.state]; exact hListen))
        · exact .refl
    | data bytes =>
        rw [hResult] at hLog
        cases bytes with
        | nil =>
            refine .head (.quiet ⟨hQuiet, Or.inr (by rw [hLog]; simp [taken])⟩) ?_
            exact socketEof_moves _ (by rw [hQuiet.state]; exact hState)
        | cons first rest =>
            exact .single (.relay (first :: rest) hState hRead.2 hFirst (List.cons_ne_nil first rest) hResult hSize)
  · exact .refl

theorem listenReceived_moves (result : RecvResult) (c : Cell) (hState : c.tcp.state = .listen)
    (hStart : Silent s c) (hDeclined : (∀ bytes, result = .data bytes → cString bytes ∉ proxyAccepts) →
      Declined s (K, i)) :
    Moves K i s c (listenReceived K result c) := by
  cases result with
  | error errno =>
      have hReason := hDeclined fun bytes h => by cases h
      exact .single (.reset c fun _ _ _ => ⟨hStart, hReason⟩)
  | data bytes =>
      unfold listenReceived
      dsimp only
      split_ifs with hSent hAccept
      · exact .head (.quiet (Silent.call _ (.drain _) trivial (Or.inl hState)))
          (.single (.reply hState hSent))
      · have hReason := hDeclined fun other h => by
          cases h
          exact hAccept
        exact .single (.reset c fun _ _ _ => ⟨hStart, hReason⟩)
      · exact .refl

theorem socketListen_moves (ev : EpollEvents) (hInput : i = .event ev)
    (hError : ev.epollerr = false) (hState : s.tcp.state = .listen) :
    Moves K i s s (socketListen K ev s) := by
  unfold socketListen
  split_ifs with hRead
  · have hQuiet := silent_recvFrom K 12 hState
    refine .head (.quiet hQuiet) (listenReceived_moves _ _ (hQuiet.state.trans hState) hQuiet fun hNone => ?_)
    refine Or.inr ⟨ev, hInput, fun hAll => ?_⟩
    obtain ⟨bytes, hBytes, hAccept⟩ : Accepts K s := hAll.2.2
    exact hNone (bytes.take 12) (by simp [recvFrom, hBytes]) hAccept
  · have hMove := Move.synAck (K := K) (i := i) (s := s) ev
      (K.tunWrite s.countSyn.calls) hInput hError (by simpa using hRead) hState
    simp only [writeSynAck, writeOrClose_eq]
    generalize K.tunWrite s.countSyn.calls = whole at hMove ⊢
    cases whole with
    | false => exact .single hMove
    | true =>
        refine .head hMove (.single (.quiet ⟨?_, Or.inr rfl⟩))
        constructor <;> first | rfl | exact ⟨[_], by simp [Io.quiet], rfl⟩

theorem socketReady_moves (ev : EpollEvents) (hInput : i = .event ev)
    (hError : ev.epollerr = false) (hState : s.tcp.state ≠ .listen) (hSocket : 0 ≤ s.socket) :
    Moves K i s s (socketReady K ev s) := by
  unfold socketReady
  dsimp only
  set forwarded := if ev.epollout then forwardData K s else (s, false) with hForwarded
  have hLoop : Moves K i s s forwarded.1 ∧ forwarded.1.socket = s.socket ∧
      (forwarded.2 = true → forwarded.1.tcp.forward = [] → SentLast forwarded.1) ∧
      taken forwarded.1.log = taken s.log := by
    rw [hForwarded]
    split_ifs with hWrite
    · obtain ⟨hMoves, -, hLoopSocket⟩ :=
        forwardData_moves (K := K) ev hInput hError hWrite hState hSocket
      exact ⟨hMoves, hLoopSocket, forwardData_sentLast s, forwardData_taken s⟩
    · exact ⟨.refl, rfl, (fun h => nomatch h), rfl⟩
  obtain ⟨hMoves, hLoopSocket, hSent, hTaken⟩ := hLoop
  set window := getReceiveWindow K forwarded.1 with hWindow
  set d : Cell := { window.1 with tcp := { window.1.tcp with recvWindow := window.2 } } with hD
  have hLog : d.log = .buffer (K.sndbuf forwarded.1.calls) (K.outq forwarded.1.calls) ::
      forwarded.1.log := by
    simp [hD, hWindow, getReceiveBuffer, hLoopSocket, not_lt.mpr hSocket]
  have hQuiet : Silent forwarded.1 d := by
    refine ⟨?_, Or.inr (by rw [hLog]; rfl)⟩
    constructor <;> first | (simp [hD, hWindow, TcpSession.endpoints]; done) |
      exact ⟨[_], by simp [Io.quiet], hLog⟩
  set e := if forwarded.2 = true ∨ window.1.tcp.recvWindow = 0 ∧ 0 < window.2 then
    acknowledge K forwarded.2 d else d with hE
  have hAcknowledged : Moves K i s s e := by
    rw [hE]
    split_ifs
    · refine (hMoves.tail (.quiet hQuiet)).trans (acknowledge_moves forwarded.2 d ?_ ?_).1
      · rw [hQuiet.socket, hLoopSocket]
        exact hSocket
      · intro hFwd hEmpty
        obtain ⟨data, answer, before, hBefore⟩ := hSent hFwd (hQuiet.forward ▸ hEmpty)
        exact ⟨_, _, data, answer, before, by rw [hLog, hBefore]⟩
    · exact hMoves.tail (.quiet hQuiet)
  have hSize : readSize e.tcp = readSize s.tcp := by
    have hForwardSize : readSize forwarded.1.tcp = readSize s.tcp := by
      rw [hForwarded]
      split_ifs
      · exact forwardData_readSize s
      · rfl
    have hWindowSize : readSize d.tcp = readSize forwarded.1.tcp := by
      rcases getReceiveBuffer_cases K forwarded.1 with h | h <;> simp only [hD, hWindow, getReceiveWindow, h] <;> rfl
    rw [hE]
    split_ifs
    · rw [acknowledge_readSize, hWindowSize, hForwardSize]
    · rw [hWindowSize, hForwardSize]
  have hFirst : taken e.log = taken s.log := by
    have hLooked : taken d.log = taken s.log := by rw [hLog]; exact hTaken
    rw [hE]
    split_ifs
    · exact (acknowledge_taken forwarded.2 d).trans hLooked
    · exact hLooked
  split_ifs with hRead
  · exact hAcknowledged.trans (socketRead_moves ev e hRead hFirst hSize)
  · exact hAcknowledged

/-- An event is a sequence of moves. -/
theorem checkTcpSocket_moves (ev : EpollEvents) (hInput : i = .event ev)
    (hSocket : 0 ≤ s.socket) : Moves K i s s (checkTcpSocket K ev s) := by
  unfold checkTcpSocket
  split_ifs with hError hState
  · refine .head (.quiet (silent_touch K s)) (.single (.reset _ fun _ _ _ => ?_))
    exact ⟨silent_touch K s, Or.inr ⟨ev, hInput, fun hAll => by simp [hError] at hAll⟩⟩
  · exact socketListen_moves ev hInput (by simpa using hError) hState
  · exact socketReady_moves ev hInput (by simpa using hError) hState hSocket

/-- A write that is made one step back and then undone is a plain write. -/
theorem afterWrite_restore (c : Cell) (packet : TcpPacket) (whole : Bool) :
    let d := afterWrite { c with tcp := { c.tcp with remoteSeq := c.tcp.remoteSeq - 1 } } packet whole
    { d with tcp := { d.tcp with remoteSeq := d.tcp.remoteSeq + 1 } } = afterWrite c packet whole := by
  cases whole <;> simp [afterWrite, Cell.call, Cell.setState]

theorem silent_lastKeepAlive (ms : Int) (c : Cell) :
    Silent c ({ c with tcp := { c.tcp with lastKeepAlive := ms } }.call (.clock ms)) := by
  refine ⟨?_, Or.inr rfl⟩
  constructor <;> first | rfl | exact ⟨[.clock ms], by simp [Io.quiet], rfl⟩

theorem keepAliveProbe_moves (c : Cell) (hSocket : 0 ≤ c.socket) :
    Moves K i s c (keepAliveProbe K c) ∧ (keepAliveProbe K c).socket = c.socket := by
  unfold keepAliveProbe
  dsimp only
  split_ifs
  · have hQuiet := silent_lastKeepAlive (K.clock c.calls) c
    have hMove := Move.write (K := K) (i := i) (s := s) 1 false
      (K.tunWrite (c.call (.clock (K.clock c.calls))).calls) (Or.inr rfl)
      (Or.inr (hQuiet.socket.symm ▸ hSocket))
    rw [← afterWrite_restore] at hMove
    rw [writeAck, writeOrClose_eq]
    exact ⟨hQuiet.moves.tail hMove, afterWrite_socket _ _ _⟩
  · exact ⟨.single (.quiet (Silent.call c (.clock _) trivial (Or.inr rfl))), rfl⟩

theorem silent_queueEvents (readable : Bool) (c : Cell) : Silent c (queueEvents K readable c).1 := by
  unfold queueEvents
  split
  · exact Silent.refl c
  · exact silent_getReceiveBuffer K c

/-- The monitor probes, looks at the buffer, or does nothing. -/
theorem wantedEvents_moves (c : Cell) (hSocket : 0 ≤ c.socket) :
    Moves K i s c (wantedEvents K c).1 ∧ (wantedEvents K c).1.socket = c.socket := by
  have hProbe : ∀ readable : Bool,
      Moves K i s c (if readable then c else keepAliveProbe K c) ∧
        (if readable then c else keepAliveProbe K c).socket = c.socket := by
    intro readable
    cases readable with
    | false => exact keepAliveProbe_moves c hSocket
    | true => exact ⟨.refl, rfl⟩
  unfold wantedEvents
  split_ifs with hState hTunnel hOpen
  · exact ⟨.refl, rfl⟩
  · exact ⟨.refl, rfl⟩
  · obtain ⟨hMoves, hProbeSocket⟩ := hProbe (decide (0 < getSendWindow c.tcp))
    have hQuiet := silent_queueEvents (K := K) (decide (0 < getSendWindow c.tcp))
      (if decide (0 < getSendWindow c.tcp) then c else keepAliveProbe K c)
    exact ⟨hMoves.tail (.quiet hQuiet), hQuiet.socket.trans hProbeSocket⟩
  · exact ⟨.refl, rfl⟩

theorem monitorTcpSession_moves (c : Cell) (hSocket : 0 ≤ c.socket) :
    Moves K i s c (monitorTcpSession K c).1 := by
  obtain ⟨hMoves, hWantedSocket⟩ := wantedEvents_moves (K := K) (i := i) (s := s) c hSocket
  unfold monitorTcpSession
  dsimp only
  split_ifs with hEvents hOk
  · refine hMoves.tail (.quiet ⟨?_, Or.inr rfl⟩)
    constructor <;> first | rfl | exact ⟨[_], by simp [Io.quiet], rfl⟩
  · refine (hMoves.tail (.quiet (d := Cell.call _ _) ⟨?_, Or.inr rfl⟩)).tail (.abort (Or.inr ?_))
    · constructor <;> first | rfl | exact ⟨[_], by simp [Io.quiet], rfl⟩
    · exact hWantedSocket ▸ hSocket
  · exact hMoves

theorem checkTimeout_moves (timeout now : Int) (c : Cell) :
    Moves K i s c (checkTimeout K timeout now c) := by
  unfold checkTimeout
  split_ifs with hTimeout hListen
  · exact .single (.abort (Or.inl hTimeout.2.1))
  · exact .single (reset_of_state hListen)
  · exact .refl

theorem checkClosing_moves (c : Cell) : Moves K i s c (checkClosing K c) := by
  unfold checkClosing
  split_ifs with hState hSocket
  · refine .head (.closeSocket hState) (.head (.quiet (silent_touch K _)) (.single (.closed ?_ ?_)))
    · exact hState
    · exact Int.negSucc_lt_zero 0
  · exact .head (.quiet (silent_touch K c)) (.single (.closed hState (not_le.mp hSocket)))
  · exact .refl

theorem silent_dropCounts (c : Cell) : Silent c (dropCounts c) := by
  unfold dropCounts
  split_ifs
  · refine ⟨?_, Or.inr rfl⟩
    constructor <;> first | rfl | exact ⟨[], by simp⟩
  · exact Silent.refl c

/-- Where a session times out it is reset, and where it is closing it is closed. -/
theorem checkTcpSession_moves (sessions maxsessions : Int) (c : Cell) :
    Moves K i s c (checkTcpSession K sessions maxsessions c).1 :=
  .head (.quiet (Silent.call c (.time _) trivial (Or.inr rfl)))
    (((checkTimeout_moves _ _ _).trans (checkClosing_moves _)).tail (.quiet (silent_dropCounts _)))

theorem handleFin_moves (c : Cell) : Moves K i s c (handleFin K c) := by
  have hFin := fun next hState =>
    Move.fin (K := K) (i := i) (s := s) (c := c) next (K.tunWrite c.countFin.calls) hState
  unfold handleFin
  split
  · rename_i hState
    split_ifs with hQueue
    · have hMove := hFin .closeWait (Or.inl ⟨hState, hQueue, rfl⟩)
      simp only [writeAck, writeOrClose_eq]
      exact .single hMove
    · exact .single (.finQueued hState hQueue)
  · rename_i hState
    have hMove := hFin .close (Or.inr ⟨hState, rfl⟩)
    simp only [writeAck, writeOrClose_eq]
    exact .single hMove
  · exact .refl

theorem silent_acked (ackSeq : U32) (c : Cell) :
    Silent c { c with tcp := { c.tcp with acked := ackSeq } } := by
  refine ⟨?_, Or.inr rfl⟩
  constructor <;> first | rfl | exact ⟨[], by simp⟩

theorem handleAck_moves (ackSeq : U32) (c : Cell)
    (hTunnel : c.tcp.dest = 443 → c.tcp.connectSent = .established)
    (hInput : ∃ hdr data, i = .segment hdr data ∧ hdr.ack = true) :
    Moves K i s c (handleAck ackSeq c) := by
  have hQuiet : Move K i s c _ := .quiet (silent_acked ackSeq c)
  unfold handleAck
  dsimp only
  split
  · rename_i hState
    exact .head hQuiet (.single (.establish hState hTunnel hInput))
  · rename_i hState
    exact .head hQuiet (.single (.lastAck hState))
  · exact .single hQuiet

theorem handleOtherAck_moves (ackSeq : U32) (c : Cell)
    (hTunnel : c.tcp.dest = 443 → c.tcp.connectSent = .established) :
    Moves K i s c (handleOtherAck K ackSeq c) := by
  apply handleOtherAck_keeps .refl
  · exact .single (.quiet (Silent.call c .keepAlive trivial (Or.inr rfl)))
  · exact fun _ => .single (.quiet (silent_acked ackSeq c))
  · exact .single (reset_of_tunnel fun hPort => by simp [hTunnel hPort])

theorem handleFlags_moves {hdr : TcpHdr} {data : Payload} (hInput : i = .segment hdr data) (c : Cell)
    (hState : c.tcp.state ≠ .close)
    (hTunnel : c.tcp.dest = 443 → c.tcp.connectSent = .established) :
    Moves K i s c (handleFlags K hdr c) := by
  apply handleFlags_keeps .refl
  · exact .single (.abort (Or.inl hState))
  · exact handleFin_moves c
  · exact fun hAck _ => handleAck_moves _ c hTunnel ⟨hdr, data, hInput, hAck⟩
  · exact handleOtherAck_moves _ c hTunnel

theorem queueTcp_moves {hdr : TcpHdr} {data : Payload} {c : Cell}
    (hInput : i = .segment hdr data) (hQueue : c.tcp.forward = s.tcp.forward)
    (hSame : c.tcp.state = .closing ∨ c.tcp.state = .close ∨
      (c.tcp.remoteSeq = s.tcp.remoteSeq ∧ Queues K s hdr data))
    (hOpen : (c.tcp.dest = 443 ∧ c.tcp.connectSent ≠ .established) ∨
      (data.val ≠ [] ∧ 0 ≤ c.socket ∧ c.tcp.state ≠ .closeWait ∧ c.tcp.state ≠ .closing ∧
        c.tcp.state ≠ .close)) :
    Moves K i s c (queueTcp hdr data c) := by
  unfold queueTcp
  split_ifs with hSeq
  · exact .refl
  · exact .single (.queue hdr data hInput hSeq hQueue hSame hOpen)

@[simp] theorem queueTcp_state (hdr : TcpHdr) (data : Payload) (c : Cell) :
    (queueTcp hdr data c).tcp.state = c.tcp.state := by
  unfold queueTcp
  split_ifs <;> rfl

@[simp] theorem queueTcp_dest (hdr : TcpHdr) (data : Payload) (c : Cell) :
    (queueTcp hdr data c).tcp.dest = c.tcp.dest := by
  unfold queueTcp
  split_ifs <;> rfl

@[simp] theorem queueTcp_connectSent (hdr : TcpHdr) (data : Payload) (c : Cell) :
    (queueTcp hdr data c).tcp.connectSent = c.tcp.connectSent := by
  unfold queueTcp
  split_ifs <;> rfl

theorem silent_refresh (hdr : TcpHdr) (c : Cell) : Silent c (refresh K hdr c) := by
  refine ⟨?_, Or.inr rfl⟩
  constructor <;> first | rfl | exact ⟨[_], by simp [Io.quiet], rfl⟩

theorem handleSegment_moves {hdr : TcpHdr} {data : Payload} {c : Cell}
    (hInput : i = .segment hdr data) (hStart : Silent s c) (hUrg : hdr.urg = false)
    (hClosing : c.tcp.state ≠ .closing) (hClose : c.tcp.state ≠ .close)
    (hTunnel : c.tcp.dest = 443 → c.tcp.connectSent = .established) :
    Moves K i s c (handleSegment K hdr data c) := by
  have hRefresh := silent_refresh (K := K) hdr c
  have hQuiet := hStart.trans hRefresh
  have hRefreshClose : (refresh K hdr c).tcp.state ≠ .close := by rwa [hRefresh.state]
  have hRefreshTunnel :
      (refresh K hdr c).tcp.dest = 443 → (refresh K hdr c).tcp.connectSent = .established := by
    rwa [hRefresh.dest, hRefresh.connectSent]
  have hReset : Move K i s (refresh K hdr c) _ :=
    reset_of_tunnel fun hPort => by simp [hRefreshTunnel hPort]
  refine .head (.quiet hRefresh) ?_
  unfold handleSegment
  dsimp only
  split_ifs with hData hSocket hWait
  · exact .single hReset
  · exact .single hReset
  · have hRest : data.val ≠ [] ∧ 0 ≤ (refresh K hdr c).socket ∧
        (refresh K hdr c).tcp.state ≠ .closeWait ∧ (refresh K hdr c).tcp.state ≠ .closing ∧
        (refresh K hdr c).tcp.state ≠ .close :=
      ⟨hData, not_lt.mp hSocket, hWait, by rwa [hRefresh.state], hRefreshClose⟩
    have hQueues : Queues K s hdr data := by
      have hAfter : ¬ (s.tcp.dest = 443 ∧ s.tcp.connectSent ≠ .established) := by
        rintro ⟨hPort, hBefore⟩
        have hSent := hRefreshTunnel (hQuiet.dest.trans hPort)
        exact hBefore (hQuiet.connectSent ▸ hSent)
      refine ⟨hUrg, ?_⟩
      rw [if_neg hAfter]
      rwa [hQuiet.socket, hQuiet.state] at hRest
    exact (queueTcp_moves hInput hQuiet.forward (Or.inr (Or.inr ⟨hQuiet.remoteSeq, hQueues⟩))
      (Or.inr hRest)).trans (handleFlags_moves hInput _ (by rwa [queueTcp_state])
        (by rwa [queueTcp_dest, queueTcp_connectSent]))
  · exact handleFlags_moves hInput _ hRefreshClose hRefreshTunnel

theorem silent_storeHostname (hostname : List UInt8) (c : Cell) :
    Silent c (storeHostname hostname c) := by
  unfold storeHostname
  split_ifs
  · refine ⟨?_, Or.inr rfl⟩
    constructor <;> first | rfl | exact ⟨[], by simp⟩
  · exact Silent.refl c

theorem silent_sendConnect (request : List UInt8) (c : Cell) :
    Silent c (sendConnect K c request).1 :=
  Silent.call c (.sendConnect _ _) trivial (Or.inr rfl)

theorem decimal_ne_nil (n : Nat) : decimal n ≠ [] := by
  unfold decimal
  split_ifs <;> simp

/-- There is always a host to connect to, if only the address in digits. -/
theorem connectHost_length_pos (data : List UInt8) (c : Cell) : 0 < (connectHost data c).length := by
  unfold connectHost
  split_ifs with hTls
  · exact hTls
  · have hFirst := List.length_pos_iff.mpr (decimal_ne_nil (c.tcp.daddr.getD 0 0).toNat)
    simp only [lookupHostname, inetNtoa, List.length_take, List.length_append]
    omega

/-- The CONNECT phase stores the host name. It sends the request where none
was sent, and then listens for the reply, or resets the session. -/
theorem connectPhase_cases (data : Payload) (c : Cell) :
    (c.tcp.connectSent ≠ .notSent ∧ Silent c (connectPhase K data c)) ∨
      (∃ d, Silent c d ∧ c.tcp.connectSent = .notSent ∧
        ¬ (0 ≤ c.socket ∧ ∃ count, K.send c.calls = .accepted count) ∧
        connectPhase K data c = writeRst K d) ∨
      ∃ d count, Silent c d ∧ c.tcp.connectSent = .notSent ∧ 0 ≤ c.socket ∧
        K.send c.calls = .accepted count ∧
        connectPhase K data c =
          { d with tcp := { d.tcp with connectSent := .sent, state := .listen } } := by
  have hHost := connectHost_length_pos data.val c
  unfold connectPhase
  dsimp only
  set named := storeHostname (connectHost data.val c) c with hNamed
  have hQuiet : Silent c named := silent_storeHostname _ c
  have hCalls : named.calls = c.calls := by
    rw [hNamed, storeHostname, if_pos hHost]
    rfl
  split_ifs with hFirst
  · have hSend := hQuiet.trans (silent_sendConnect (K := K) (connectRequest named.tcp.hostname) named)
    have hNotSent := hQuiet.connectSent ▸ hFirst.1
    apply Or.inr
    unfold sendConnect at hSend ⊢
    dsimp only at hSend ⊢
    by_cases hSocket : named.socket < 0
    · simp only [if_pos hSocket] at hSend ⊢
      refine Or.inl ⟨_, hSend, hNotSent, fun h => ?_, rfl⟩
      exact absurd (hQuiet.socket ▸ h.1) (not_le.mpr hSocket)
    · simp only [if_neg hSocket, hCalls] at hSend ⊢
      cases hAnswer : K.send c.calls with
      | error errno =>
          rw [hAnswer] at hSend
          refine Or.inl ⟨_, hSend, hNotSent, fun h => ?_, rfl⟩
          obtain ⟨-, count, hCount⟩ := h
          cases hCount
      | accepted count =>
          rw [hAnswer] at hSend
          exact Or.inr ⟨_, count, hSend, hNotSent, hQuiet.socket ▸ not_lt.mp hSocket, rfl, rfl⟩
  · refine Or.inl ⟨fun h => hFirst ⟨hQuiet.connectSent.trans h, hHost⟩, hQuiet⟩

/-- Once the request was sent only the host name is stored. -/
theorem connectPhase_of_tried (K : Kernel) (data : Payload) {c : Cell}
    (hSent : c.tcp.connectSent ≠ .notSent) :
    connectPhase K data c = storeHostname (connectHost data.val c) c := by
  unfold connectPhase
  dsimp only
  rw [if_neg fun h => hSent ((silent_storeHostname _ c).connectSent ▸ h.1)]

/-- What follows the CONNECT phase, where it left the session as it was. -/
theorem tunnelSegment_moves {hdr : TcpHdr} {data : Payload} {c : Cell}
    (hInput : i = .segment hdr data) (hStart : Silent s c) (hUrg : hdr.urg = false)
    (hTried : s.tcp.dest = 443 → s.tcp.connectSent ≠ .notSent) :
    Moves K i s c (tunnelSegment K s.tcp.dest hdr data c) := by
  unfold tunnelSegment
  split_ifs with hTunnel hState
  · refine queueTcp_moves hInput hStart.forward ?_ (Or.inl ⟨hStart.dest.trans hTunnel.1, hTunnel.2⟩)
    rw [← or_assoc, or_iff_not_imp_left, not_or]
    intro hState
    refine ⟨hStart.remoteSeq, hUrg, ?_⟩
    rw [if_pos ⟨hTunnel.1, hStart.connectSent ▸ hTunnel.2⟩, TunnelOpening,
      if_neg (hTried hTunnel.1), ← hStart.state]
    exact hState
  · refine .single (reset_of_state fun hListen => ?_)
    rcases hState with h | h <;> rw [h] at hListen <;> cases hListen
  · rw [not_or] at hState
    apply handleSegment_moves hInput hStart hUrg hState.1 hState.2
    intro hPort
    exact by_contra fun hSent => hTunnel ⟨hStart.dest ▸ hPort, hSent⟩

theorem writeRst_tcp (c : Cell) :
    (writeRst K c).tcp.forward = c.tcp.forward ∧ (writeRst K c).tcp.dest = c.tcp.dest ∧
      (writeRst K c).tcp.connectSent = c.tcp.connectSent ∧
      (writeRst K c).tcp.remoteStart = c.tcp.remoteStart := by
  by_cases hState : c.tcp.state = .listen
  · simp [writeRst_of_listen K c hState]
  · rw [writeRst_of_ne_listen K c hState]
    split_ifs <;> simp

/-- A segment is a sequence of moves. -/
theorem existingSession_moves {hdr : TcpHdr} {data : Payload} (hInput : i = .segment hdr data) :
    Moves K i s s (existingSession K s.tcp.dest hdr data s) := by
  unfold existingSession
  by_cases hUrg : hdr.urg = true
  · rw [if_pos hUrg]
  have hPlain : hdr.urg = false := by simpa using hUrg
  by_cases hPort : s.tcp.dest = 443
  · rw [if_neg hUrg, if_pos hPort]
    rcases connectPhase_cases (K := K) data s with ⟨hTried, hQuiet⟩ | hFailed | hConnected
    · exact .head (.quiet hQuiet) (tunnelSegment_moves hInput hQuiet hPlain fun _ => hTried)
    · obtain ⟨d, hQuiet, hSent, -, hEq⟩ := hFailed
      obtain ⟨hForward, hDest, hConnect, -⟩ := writeRst_tcp (K := K) d
      have hNot : (writeRst K d).tcp.connectSent ≠ .established := by
        rw [hConnect, hQuiet.connectSent, hSent]
        decide
      rw [hEq, tunnelSegment, if_pos ⟨hPort, hNot⟩]
      have hReset : Move K i s d _ := reset_of_tunnel fun _ => by simp [hQuiet.connectSent, hSent]
      refine .head (.quiet hQuiet) (.head hReset (queueTcp_moves hInput ?_ ?_ ?_))
      · exact hForward.trans hQuiet.forward
      · rw [writeRst_state]
        split_ifs <;> simp
      · exact Or.inl ⟨hDest.trans (hQuiet.dest.trans hPort), hNot⟩
    · obtain ⟨d, count, hQuiet, hSent, hSocket, hAnswer, hEq⟩ := hConnected
      rw [hEq, tunnelSegment, if_pos ⟨hPort, by simp⟩]
      have hQueues : Queues K s hdr data := by
        refine ⟨hPlain, ?_⟩
        rw [if_pos ⟨hPort, by simp [hSent]⟩, TunnelOpening, if_pos hSent]
        exact ⟨hSocket, count, hAnswer⟩
      refine .head (.quiet hQuiet) (.head (.connect hdr data count hQuiet hInput hPlain
        (hQuiet.dest.trans hPort) (hQuiet.connectSent.trans hSent) (hQuiet.socket ▸ hSocket) hAnswer)
        (queueTcp_moves hInput hQuiet.forward (Or.inr (Or.inr ⟨hQuiet.remoteSeq, hQueues⟩)) ?_))
      exact Or.inl ⟨hQuiet.dest.trans hPort, by simp⟩
  · rw [if_neg hUrg, if_neg hPort]
    exact tunnelSegment_moves hInput (Silent.refl s) hPlain fun h => absurd h hPort

/-- Every step of a session is a sequence of moves. -/
theorem step_moves (c : Cell) (K : Kernel) (i : Input) : Moves K i c c (step c (K, i)) := by
  unfold step
  dsimp only
  split
  · exact existingSession_moves rfl
  · split_ifs with hSocket
    · exact checkTcpSocket_moves _ rfl hSocket
    · exact .refl
  · split_ifs with hSocket
    · exact monitorTcpSession_moves c hSocket
    · exact .refl
  · exact checkTcpSession_moves _ _ c
  · unfold checkAllowed
    split_ifs
    · exact .single (.reset c fun _ _ _ => ⟨Silent.refl c, Or.inl rfl⟩)
    · exact .refl

theorem writeRst_endpoints (K : Kernel) (c : Cell) :
    (writeRst K c).tcp.endpoints = c.tcp.endpoints := by
  by_cases hState : c.tcp.state = .listen
  · simp [writeRst_of_listen K c hState, TcpSession.endpoints]
  · rw [writeRst_of_ne_listen K c hState]
    split_ifs <;> rfl

/-- A move changes neither the ends nor where the stream starts, and it only closes the socket. -/
theorem move_kept {c d : Cell} (hMove : Move K i s c d) :
    d.tcp.endpoints = c.tcp.endpoints ∧ d.tcp.remoteStart = c.tcp.remoteStart ∧
      (d.socket = c.socket ∨ d.socket = -1) := by
  cases hMove with
  | quiet hSilent => exact ⟨hSilent.endpoints, hSilent.remoteStart, Or.inl hSilent.socket⟩
  | reset =>
      exact ⟨writeRst_endpoints K c, (writeRst_tcp c).2.2.2, Or.inl (writeRst_socket c)⟩
  | forward seg rest =>
      rw [forwardTurn_eq]
      split_ifs <;> exact ⟨rfl, rfl, Or.inl rfl⟩
  | write back fin whole => cases whole <;> exact ⟨rfl, rfl, Or.inl rfl⟩
  | relay bytes =>
      obtain ⟨d, whole, hBefore, hAfter⟩ := relay_quiet (K := K) bytes c (readSize c.tcp)
      rw [hAfter.endpoints, hAfter.remoteStart, hAfter.socket, afterWrite_tcp, afterWrite_socket]
      exact ⟨hBefore.endpoints, hBefore.remoteStart, Or.inl hBefore.socket⟩
  | synAck ev whole => cases whole <;> exact ⟨rfl, rfl, Or.inl rfl⟩
  | fin next whole => cases whole <;> exact ⟨rfl, rfl, Or.inl rfl⟩
  | shutdown => exact ⟨rfl, rfl, Or.inr rfl⟩
  | closeSocket => exact ⟨rfl, rfl, Or.inr rfl⟩
  | _ => exact ⟨rfl, rfl, Or.inl rfl⟩

end

end Tun2Http
