import Tun2Http.Machine.Progress
import Tun2Http.Tcp.Monitor
import Tun2Http.Tcp.Settings

/-! The upload goes on. While the kernel serves the session, the monitor asks for the
event that the queue waits for, the event sends, and after finitely many rounds of both
the socket has all bytes that follow each other from `remote_seq` on. -/
namespace Tun2Http

open Machine

/-- The segments at the head of the queue that follow each other, the first at `seq`. -/
def readyPart : U32 → List Segment → List Segment
  | _, [] => []
  | seq, s :: rest =>
      if s.seq + BitVec.ofNat 32 s.sent = seq then s :: readyPart (seq + BitVec.ofNat 32 s.unsent) rest
      else []

namespace Cell

/-- What the forward loop can send without another segment of the client. -/
def ready (c : Cell) : List Segment := readyPart c.tcp.remoteSeq c.tcp.forward

def readyBytes (c : Cell) : List UInt8 := c.ready.flatMap Segment.rest

/-- The bytes of them, and a turn for each. -/
def work (c : Cell) : Nat := (c.ready.map fun s => s.unsent + 1).sum

theorem work_pos {c : Cell} : 0 < c.work ↔ c.ready ≠ [] := by
  rw [work]
  cases c.ready with
  | nil => simp
  | cons seg rest =>
      simp only [List.map_cons, List.sum_cons, ne_eq, reduceCtorEq, not_false_eq_true, iff_true]
      omega

end Cell

/-- The kernel answers every call as it does for a socket that is free: writes to the tun
and `epoll_ctl` succeed, `send()` takes a part at least, and `longest` bytes have room. -/
structure Kernel.Serves (K : Kernel) (longest : Nat) : Prop where
  tun : ∀ call, K.tunWrite call = true
  epoll : ∀ call, K.epollCtl call = true
  send : ∀ call, ∃ count, 0 < count ∧ K.send call = .accepted count
  room : ∀ call, 0 ≤ K.outq call ∧ K.sndbuf call < 2 ^ 31 ∧ K.outq call + longest < (K.sndbuf call).tdiv 2

/-- A session that can upload, what is ready in parts of at most `longest` bytes. -/
structure Uploads (longest : Nat) (c : Cell) : Prop where
  state : c.tcp.state = .established ∨ c.tcp.state = .closeWait
  socket : 0 ≤ c.socket
  parts : ∀ seg ∈ c.ready, seg.unsent ≤ longest

/-- A round of the loop: the session is monitored, and where epoll waits for the socket
to be writable, that is reported. -/
def serve (c : Cell) (round : Kernel × Kernel) : Cell :=
  let d := step c (round.1, .monitor)
  step d (round.2, .event { epollout := d.events.epollout })

/-- From `c` to `d` the socket took some of the bytes that were ready. -/
structure Sends (c d : Cell) : Prop where
  port : d.tcp.dest = c.tcp.dest
  bytes : c.tcp.dest ≠ 80 → accepted d.log ++ d.readyBytes = accepted c.log ++ c.readyBytes
  work : d.work ≤ c.work
  parts : ∀ seg ∈ d.ready, ∃ part ∈ c.ready, seg.unsent ≤ part.unsent

section

variable {K : Kernel} {c d : Cell} {seg : Segment} {rest : List Segment} {longest : Nat}

theorem Sends.refl (c : Cell) : Sends c c := ⟨rfl, fun _ => rfl, le_rfl, fun seg hSeg => ⟨seg, hSeg, le_rfl⟩⟩

theorem Sends.trans {e : Cell} (hFirst : Sends c d) (hSecond : Sends d e) : Sends c e := by
  refine ⟨hSecond.port.trans hFirst.port, fun hPort => ?_, hSecond.work.trans hFirst.work, fun seg hSeg => ?_⟩
  · rw [hSecond.bytes (hFirst.port ▸ hPort), hFirst.bytes hPort]
  · obtain ⟨part, hPart, hLess⟩ := hSecond.parts seg hSeg
    obtain ⟨whole, hWhole, hMore⟩ := hFirst.parts part hPart
    exact ⟨whole, hWhole, hLess.trans hMore⟩

/-- Where what is ready stays, and nothing is sent. -/
theorem Sends.of_same (hPort : d.tcp.dest = c.tcp.dest) (hReady : d.ready = c.ready)
    (hLog : accepted d.log = accepted c.log) : Sends c d := by
  refine ⟨hPort, fun _ => ?_, ?_, fun seg hSeg => ⟨seg, hReady ▸ hSeg, le_rfl⟩⟩
  · rw [Cell.readyBytes, Cell.readyBytes, hReady, hLog]
  · rw [Cell.work, Cell.work, hReady]

/-! The forward loop. -/

theorem ready_head (hQueue : c.tcp.forward = seg :: rest)
    (hNext : seg.seq + BitVec.ofNat 32 seg.sent = c.tcp.remoteSeq) :
    c.ready = seg :: readyPart (c.tcp.remoteSeq + BitVec.ofNat 32 seg.unsent) rest := by
  rw [Cell.ready, hQueue, readyPart, if_pos hNext]

/-- What is ready behind a turn. -/
theorem ready_turn (K : Kernel) (rest : List Segment)
    (hNext : seg.seq + BitVec.ofNat 32 seg.sent = c.tcp.remoteSeq) :
    (forwardTurn K seg rest c).1.ready =
      (if counted K seg c = seg.unsent then [] else [seg.advance (counted K seg c) (counted_le K seg c)]) ++
        readyPart (c.tcp.remoteSeq + BitVec.ofNat 32 seg.unsent) rest := by
  have hCounted := counted_le K seg c
  have hSplit : seg.unsent = counted K seg c + (seg.unsent - counted K seg c) := by omega
  rw [forwardTurn_eq]
  split_ifs with hAll
  · show readyPart (seg.seq + BitVec.ofNat 32 (seg.sent + counted K seg c)) rest = _
    rw [hAll, BitVec.ofNat_add, ← BitVec.add_assoc, hNext, List.nil_append]
  · have hUnsent : (seg.advance (counted K seg c) hCounted).unsent = seg.unsent - counted K seg c := by
      simp only [Segment.unsent, Segment.advance_len, Segment.advance_sent]
      omega
    have hHead : (seg.advance (counted K seg c) hCounted).seq +
        BitVec.ofNat 32 (seg.advance (counted K seg c) hCounted).sent =
          seg.seq + BitVec.ofNat 32 (seg.sent + counted K seg c) := rfl
    show readyPart (seg.seq + BitVec.ofNat 32 (seg.sent + counted K seg c))
      (seg.advance (counted K seg c) hCounted :: rest) = _
    rw [readyPart, if_pos hHead, hUnsent, BitVec.ofNat_add, ← BitVec.add_assoc, hNext, BitVec.add_assoc,
      ← BitVec.ofNat_add, ← hSplit]
    rfl

theorem rest_advance {count : Nat} (h : count ≤ seg.unsent) :
    seg.rest = seg.rest.take count ++ (seg.advance count h).rest := by
  have hUnsent : (seg.advance count h).unsent = seg.unsent - count := by
    simp only [Segment.unsent, Segment.advance_len, Segment.advance_sent]
    omega
  have hRest : (seg.advance count h).rest = seg.rest.drop count := by
    rw [Segment.rest, Segment.rest, hUnsent, List.drop_take, List.drop_drop, Segment.advance_data,
      Segment.advance_sent]
  rw [hRest, List.take_append_drop]

/-- A turn sends some of the head. -/
theorem sends_turn (hQueue : c.tcp.forward = seg :: rest)
    (hNext : seg.seq + BitVec.ofNat 32 seg.sent = c.tcp.remoteSeq) {count : Nat} (hPositive : 0 < count)
    (hAnswer : K.send c.calls = .accepted count) :
    Sends c (forwardTurn K seg rest c).1 ∧ (forwardTurn K seg rest c).1.work < c.work := by
  have hCounted := counted_le K seg c
  have hMin : counted K seg c = min count seg.unsent := counted_of_accepted hAnswer
  have hReady := ready_head hQueue hNext
  have hTurn := ready_turn K rest hNext
  have hLess : (forwardTurn K seg rest c).1.work < c.work := by
    rw [Cell.work, Cell.work, hReady, hTurn, List.map_cons, List.sum_cons, List.map_append, List.sum_append]
    split_ifs with hAll
    · simp
    · simp only [List.map_cons, List.map_nil, List.sum_cons, List.sum_nil, Segment.unsent, Segment.advance_len,
        Segment.advance_sent] at hCounted hAll hMin ⊢
      omega
  refine ⟨⟨?_, fun hPort => ?_, hLess.le, fun part hPart => ?_⟩, hLess⟩
  · rw [forwardTurn_eq]
    split_ifs <;> rfl
  · have hLog : (forwardTurn K seg rest c).1.log = (sentOn K seg c).log := by
      rw [forwardTurn_eq]
      split_ifs <;> rfl
    rw [hLog, accepted_sentOn hPort hAnswer, Cell.readyBytes, Cell.readyBytes, hReady, hTurn,
      List.flatMap_cons, List.flatMap_append, List.append_assoc]
    congr 1
    rw [← List.append_assoc]
    congr 1
    split_ifs with hAll
    · rw [hAll, List.flatMap_nil, List.append_nil, ← Segment.length_rest, List.take_length]
    · rw [List.flatMap_cons, List.flatMap_nil, List.append_nil, ← rest_advance]
  · rw [hTurn] at hPart
    rcases List.mem_append.mp hPart with hHead | hTail
    · split_ifs at hHead
      · cases hHead
      · rw [List.mem_singleton.mp hHead]
        refine ⟨seg, hReady ▸ List.mem_cons_self, ?_⟩
        simp only [Segment.unsent, Segment.advance_len, Segment.advance_sent]
        omega
    · exact ⟨part, hReady ▸ List.mem_cons_of_mem _ hTail, le_rfl⟩

/-- Some bytes are taken in every turn; where the head fits the buffer there is one. -/
theorem sends_loop (hSend : ∀ call, ∃ count, 0 < count ∧ K.send call = .accepted count)
    (queue : List Segment) (bufferSize : U32) (fwd : Bool) (hQueue : c.tcp.forward = queue) :
    Sends c (forwardLoop K queue bufferSize fwd c).1 ∧
      ∀ seg rest, queue = seg :: rest → canForward c seg bufferSize →
        (forwardLoop K queue bufferSize fwd c).1.work < c.work := by
  induction queue generalizing bufferSize fwd c with
  | nil => exact ⟨.refl c, nofun⟩
  | cons seg rest ih =>
      rw [forwardLoop]
      by_cases hForward : canForward c seg bufferSize
      · obtain ⟨count, hPositive, hAnswer⟩ := hSend c.calls
        obtain ⟨hSends, hLess⟩ := sends_turn hQueue hForward.1 hPositive hAnswer
        rw [if_pos hForward]
        rw [forwardTurn_eq] at hSends hLess ⊢
        by_cases hAll : counted K seg c = seg.unsent
        · simp only [if_pos hAll] at hSends hLess ⊢
          have hRest := (ih (c := (sentOn K seg c).setForward rest)
            (bufferSize - BitVec.ofNat 32 (counted K seg c)) true rfl).1
          exact ⟨hSends.trans hRest, fun _ _ _ _ => hRest.work.trans_lt hLess⟩
        · simp only [if_neg hAll] at hSends hLess ⊢
          exact ⟨hSends, fun _ _ _ _ => hLess⟩
      · rw [if_neg hForward]
        refine ⟨.refl c, fun head tail hEq hHead => ?_⟩
        cases hEq
        exact absurd hHead hForward

/-! The rest of an event. -/

theorem Sends.of_frame {seq : U32} (h : Frame seq c d) : Sends c d := by
  refine .of_same h.dest ?_ ?_
  · rw [Cell.ready, Cell.ready, h.remoteSeq, h.forward]
  · exact h.calls.log_eq accepted fun entry log hEntry => by cases entry <;> simp_all [Io.repeats, accepted]

/-- From `c` to `d` the session stays open. -/
structure Lives (c d : Cell) : Prop extends Sends c d where
  state : d.tcp.state = c.tcp.state
  socket : d.socket = c.socket

namespace Lives

theorem refl (c : Cell) : Lives c c := ⟨.refl c, rfl, rfl⟩

theorem trans {e : Cell} (hFirst : Lives c d) (hSecond : Lives d e) : Lives c e :=
  ⟨hFirst.toSends.trans hSecond.toSends, hSecond.state.trans hFirst.state, hSecond.socket.trans hFirst.socket⟩

theorem uploads (h : Lives c d) (hUploads : Uploads longest c) : Uploads longest d := by
  refine ⟨h.state ▸ hUploads.state, h.socket ▸ hUploads.socket, fun seg hSeg => ?_⟩
  obtain ⟨part, hPart, hLess⟩ := h.parts seg hSeg
  exact hLess.trans (hUploads.parts part hPart)

theorem getReceiveBuffer (K : Kernel) (c : Cell) : Lives c (getReceiveBuffer K c).1 :=
  ⟨.of_frame (frame_getReceiveBuffer K 0 c), by rw [getReceiveBuffer_tcp], by rw [getReceiveBuffer_socket]⟩

theorem touch (K : Kernel) (c : Cell) : Lives c (touch K c) := ⟨.of_frame (frame_touch K 0 c), rfl, rfl⟩

theorem storeWindow (K : Kernel) (c : Cell) : Lives c (storeWindow K c) := by
  refine ⟨.of_frame (frame_storeWindow K 0 c), ?_, ?_⟩
  · show (Tun2Http.getReceiveBuffer K c).1.tcp.state = c.tcp.state
    rw [getReceiveBuffer_tcp]
  · exact getReceiveBuffer_socket K c

/-- An acknowledgement that the tun takes. -/
theorem writeAck (hTun : ∀ call, K.tunWrite call = true) (c : Cell) :
    Lives c (writeAck K c).1 ∧ (Tun2Http.writeAck K c).2 = true := by
  have hFrame := frame_writeOrClose K c false
  unfold Tun2Http.writeAck
  rw [writeOrClose_eq] at hFrame ⊢
  dsimp only at hFrame ⊢
  refine ⟨⟨.of_frame hFrame, ?_, afterWrite_socket ..⟩, hTun _⟩
  rw [afterWrite_tcp, hTun]
  rfl

/-- The FIN is counted where nothing is ready any more. -/
theorem confirmFin (fwd : Bool) (c : Cell) : Lives c (confirmFin fwd c) := by
  unfold Tun2Http.confirmFin
  split_ifs with hFin
  · refine ⟨.of_same rfl ?_ rfl, rfl, rfl⟩
    rw [Cell.ready, Cell.ready, Cell.countFin_tcp, hFin.2.1]
    rfl
  · exact refl c

theorem acknowledge (hTun : ∀ call, K.tunWrite call = true) (fwd : Bool) (c : Cell) :
    Lives c (acknowledge K fwd c) := by
  obtain ⟨hAck, hWhole⟩ := writeAck hTun (Tun2Http.confirmFin fwd c)
  have hEq : Tun2Http.acknowledge K fwd c =
      Tun2Http.touch K (Tun2Http.writeAck K (Tun2Http.confirmFin fwd c)).1 := by
    unfold Tun2Http.acknowledge
    exact if_pos hWhole
  rw [hEq]
  exact ((confirmFin fwd c).trans hAck).trans (touch K _)

theorem forwardData (hSend : ∀ call, ∃ count, 0 < count ∧ K.send call = .accepted count) (c : Cell) :
    Lives c (forwardData K c).1 := by
  have hBuffer := getReceiveBuffer K c
  set buffer := Tun2Http.getReceiveBuffer K c with hEq
  have hLoop := (sends_loop hSend buffer.1.tcp.forward (BitVec.ofInt 32 buffer.2) false rfl).1
  have hKept : (forwardLoop K buffer.1.tcp.forward (BitVec.ofInt 32 buffer.2) false buffer.1).1.tcp.state =
        buffer.1.tcp.state ∧
      (forwardLoop K buffer.1.tcp.forward (BitVec.ofInt 32 buffer.2) false buffer.1).1.socket = buffer.1.socket :=
    forwardLoop_keeps (P := fun d => d.tcp.state = buffer.1.tcp.state ∧ d.socket = buffer.1.socket)
      (fun _ _ _ h => h) _ _ _ ⟨rfl, rfl⟩
  exact hBuffer.trans ⟨hLoop, hKept.1, hKept.2⟩

end Lives

/-- There is room for a part. -/
theorem unsent_lt_buffer (hServes : K.Serves longest) (hSocket : 0 ≤ c.socket) (hPart : seg.unsent ≤ longest) :
    BitVec.ofNat 32 seg.unsent < BitVec.ofInt 32 (getReceiveBuffer K c).2 := by
  obtain ⟨hOutq, hSndbuf, hRoom⟩ := hServes.room c.calls
  have hUnsent := seg.unsent_lt
  have hSome : ¬ K.sndbuf c.calls = 0 := by
    intro hNone
    rw [hNone] at hRoom
    simp at hRoom
    omega
  have hHalf : (K.sndbuf c.calls).tdiv 2 ≤ K.sndbuf c.calls := by
    rcases le_or_gt 0 (K.sndbuf c.calls) with hPositive | hNegative
    · rw [Int.tdiv_eq_ediv_of_nonneg hPositive]
      omega
    · have hNeg : (K.sndbuf c.calls).tdiv 2 = -((-K.sndbuf c.calls) / 2) := by
        rw [← Int.tdiv_eq_ediv_of_nonneg (by omega), Int.neg_tdiv, Int.neg_neg]
      omega
  have hValue : (getReceiveBuffer K c).2 = (K.sndbuf c.calls).tdiv 2 - K.outq c.calls := by
    unfold getReceiveBuffer
    rw [if_neg (not_lt.mpr hSocket)]
    dsimp only
    rw [if_neg hSome, if_pos (by omega)]
  rw [hValue]
  have hRange : (seg.unsent : Int) < (K.sndbuf c.calls).tdiv 2 - K.outq c.calls ∧
      (K.sndbuf c.calls).tdiv 2 - K.outq c.calls < 2 ^ 31 := by omega
  obtain ⟨room, hNat⟩ := Int.eq_ofNat_of_zero_le (show 0 ≤ (K.sndbuf c.calls).tdiv 2 - K.outq c.calls by omega)
  rw [hNat] at hRange ⊢
  rw [BitVec.ofInt_natCast, BitVec.lt_def, BitVec.toNat_ofNat, BitVec.toNat_ofNat, Nat.mod_eq_of_lt (by omega),
    Nat.mod_eq_of_lt (by omega)]
  omega

/-- Where the socket is writable, the head of what is ready goes out. -/
theorem work_forwardData (hServes : K.Serves longest) (h : Uploads longest c) (hReady : c.ready ≠ []) :
    (forwardData K c).1.work < c.work := by
  unfold forwardData
  have hBuffer := (Lives.getReceiveBuffer K c).work
  have hTcp : (getReceiveBuffer K c).1.tcp = c.tcp := getReceiveBuffer_tcp K c
  dsimp only
  refine lt_of_lt_of_le ?_ hBuffer
  cases hQueue : c.tcp.forward with
  | nil => exact absurd (by rw [Cell.ready, hQueue]; rfl) hReady
  | cons seg rest =>
      have hNext : seg.seq + BitVec.ofNat 32 seg.sent = c.tcp.remoteSeq := by
        by_contra hLater
        exact hReady (by rw [Cell.ready, hQueue, readyPart, if_neg hLater])
      refine (sends_loop hServes.send _ _ false rfl).2 seg rest (by rw [hTcp, hQueue]) ⟨?_, ?_⟩
      · rw [hTcp]
        exact hNext
      · exact unsent_lt_buffer hServes h.socket (h.parts seg (ready_head hQueue hNext ▸ List.mem_cons_self))

/-- An event that is no error and nothing to read: the session stays open, and where the
socket is writable it sends. -/
theorem lives_event (hServes : K.Serves longest) (h : Uploads longest c) (writable : Bool) :
    Lives c (step c (K, .event { epollout := writable })) ∧ (writable = true → c.ready ≠ [] →
      (step c (K, .event { epollout := writable })).work < c.work) := by
  have hState : c.tcp.state ≠ .listen := by
    rcases h.state with hOpen | hWait
    · rw [hOpen]; decide
    · rw [hWait]; decide
  have hStep : step c (K, .event { epollout := writable }) = beforeRead K { epollout := writable } c := by
    have hReady : step c (K, .event { epollout := writable }) = socketReady K { epollout := writable } c := by
      simp [step, checkTcpSocket, h.socket, hState]
    have hRead : ∀ d, socketRead K { epollout := writable } d = d := fun d => if_neg (by simp)
    rw [hReady, socketReady_eq, hRead, ite_self]
  have hRest : ∀ forwarded : Cell × Bool, Lives forwarded.1
      (if forwarded.2 ∨ ((getReceiveWindow K forwarded.1).1.tcp.recvWindow = 0 ∧
          0 < (getReceiveWindow K forwarded.1).2) then
        acknowledge K forwarded.2 (storeWindow K forwarded.1)
      else storeWindow K forwarded.1) := by
    intro forwarded
    split_ifs
    · exact (Lives.storeWindow K _).trans (.acknowledge hServes.tun _ _)
    · exact .storeWindow K _
  rw [hStep]
  unfold beforeRead
  dsimp only
  cases writable with
  | true =>
      have hAfter := hRest (forwardData K c)
      refine ⟨(Lives.forwardData hServes.send c).trans hAfter, fun _ hReady => ?_⟩
      exact hAfter.work.trans_lt (work_forwardData hServes h hReady)
  | false => exact ⟨hRest (c, false), fun hNever => absurd hNever (by decide)⟩

/-! The monitor. -/

theorem lives_keepAliveProbe (hServes : K.Serves longest) (c : Cell) : Lives c (keepAliveProbe K c) := by
  refine ⟨.of_frame (frame_keepAliveProbe K c), ?_, ?_⟩
  · unfold keepAliveProbe
    dsimp only
    split_ifs
    · rw [writeAck, writeOrClose_eq]
      simp [afterWrite_tcp, hServes.tun]
    · rfl
  · unfold keepAliveProbe
    dsimp only
    split_ifs
    · rw [writeAck, writeOrClose_eq]
      simp
    · rfl

/-- It waits for the socket to be writable wherever the head is ready. -/
theorem lives_queueEvents (hServes : K.Serves longest) (h : Uploads longest c) (readable : Bool) :
    Lives c (queueEvents K readable c).1 ∧
      (c.ready ≠ [] → (queueEvents K readable c).2.1.epollout = true) := by
  unfold queueEvents
  cases hQueue : c.tcp.forward with
  | nil => exact ⟨.refl c, fun hReady => absurd (by rw [Cell.ready, hQueue]; rfl) hReady⟩
  | cons seg rest =>
      refine ⟨.getReceiveBuffer K c, fun hReady => ?_⟩
      have hNext : seg.seq + BitVec.ofNat 32 seg.sent = c.tcp.remoteSeq := by
        by_contra hLater
        exact hReady (by rw [Cell.ready, hQueue, readyPart, if_neg hLater])
      exact decide_eq_true
        ⟨hNext, unsent_lt_buffer hServes h.socket (h.parts seg (ready_head hQueue hNext ▸ List.mem_cons_self))⟩

/-- The mask is set, and `epoll_ctl` takes it. -/
theorem lives_monitorTcpSession (hServes : K.Serves longest) (c : Cell) :
    Lives (wantedEvents K c).1 (monitorTcpSession K c).1 := by
  unfold monitorTcpSession
  dsimp only
  rw [hServes.epoll, if_pos rfl]
  split_ifs
  · exact ⟨.of_same rfl rfl rfl, rfl, rfl⟩
  · exact .refl _

theorem lives_monitor (hServes : K.Serves longest) (h : Uploads longest c) : Lives c (step c (K, .monitor)) ∧
    (c.ready ≠ [] → (step c (K, .monitor)).events.epollout = true) := by
  have hStep : step c (K, .monitor) = (monitorTcpSession K c).1 := if_pos h.socket
  have hListen : c.tcp.state ≠ .listen := by rcases h.state with hState | hState <;> rw [hState] <;> decide
  have hWanted : wantedEvents K c = queueEvents K (decide (0 < getSendWindow c.tcp))
      (if decide (0 < getSendWindow c.tcp) then c else keepAliveProbe K c) := by
    rw [wantedEvents, if_neg hListen, if_pos h.state]
  have hProbe : Lives c (if decide (0 < getSendWindow c.tcp) then c else keepAliveProbe K c) ∧
      (if decide (0 < getSendWindow c.tcp) then c else keepAliveProbe K c).ready = c.ready := by
    split_ifs
    · exact ⟨.refl c, rfl⟩
    · have hFrame := frame_keepAliveProbe K c
      refine ⟨lives_keepAliveProbe hServes c, ?_⟩
      rw [Cell.ready, Cell.ready, hFrame.remoteSeq, hFrame.forward]
  obtain ⟨hQueue, hOut⟩ := lives_queueEvents hServes (hProbe.1.uploads h) (decide (0 < getSendWindow c.tcp))
  have hSet := lives_monitorTcpSession hServes c
  rw [hStep]
  refine ⟨hProbe.1.trans (hQueue.trans (hWanted ▸ hSet)), fun hReady => ?_⟩
  rw [monitorTcpSession_events, hWanted]
  exact hOut (by rwa [hProbe.2])

/-! A round, and a run of them. -/

theorem lives_serve {round : Kernel × Kernel} (hMonitor : round.1.Serves longest) (hEvent : round.2.Serves longest)
    (h : Uploads longest c) : Lives c (serve c round) ∧ (c.ready ≠ [] → (serve c round).work < c.work) := by
  obtain ⟨hFirst, hAsks⟩ := lives_monitor hMonitor h
  obtain ⟨hSecond, hLess⟩ := lives_event hEvent (hFirst.uploads h) (step c (round.1, .monitor)).events.epollout
  refine ⟨hFirst.trans hSecond, fun hReady => ?_⟩
  by_cases hStill : (step c (round.1, .monitor)).ready = []
  · have hNone : (step c (round.1, .monitor)).work = 0 := by rw [Cell.work, hStill]; rfl
    exact (hSecond.work.trans hNone.le).trans_lt (Cell.work_pos.mpr hReady)
  · exact (hLess (hAsks hReady) hStill).trans_le hFirst.work

end

/-- As many rounds as there is work leave nothing ready. On port 80 there is `patch_http_url`, which
a request that is cut off can bring down. -/
theorem upload_drains (c : Cell) (longest : Nat) (rounds : List (Kernel × Kernel)) (hStart : Uploads longest c)
    (hPort : c.tcp.dest ≠ 80) (hServes : ∀ round ∈ rounds, round.1.Serves longest ∧ round.2.Serves longest)
    (hLong : c.work ≤ rounds.length) :
    let d := run serve c rounds
    d.ready = [] ∧ d.tcp.state = c.tcp.state ∧ d.socket = c.socket ∧
      accepted d.log = accepted c.log ++ c.readyBytes := by
  have hAlong : Along serve (fun _ round => round.1.Serves longest ∧ round.2.Serves longest) c rounds :=
    along_of_forall c hServes
  have hStep : ∀ d round, Lives c d → round.1.Serves longest ∧ round.2.Serves longest →
      Lives c (serve d round) ∧ (serve d round).work ≤ d.work - 1 := by
    intro d round hLives hRound
    obtain ⟨hServe, hLess⟩ := lives_serve hRound.1 hRound.2 (hLives.uploads hStart)
    refine ⟨hLives.trans hServe, ?_⟩
    by_cases hReady : d.ready = []
    · have hNone : d.work = 0 := by rw [Cell.work, hReady]; rfl
      have hKept := hServe.work
      omega
    · have hDone := hLess hReady
      omega
  obtain ⟨hLives, hWork⟩ := run_done (Lives.refl c) hAlong hStep hLong
  have hNone : (run serve c rounds).ready = [] := by
    by_contra hSome
    exact absurd (Cell.work_pos.mpr hSome) (by omega)
  refine ⟨hNone, hLives.state, hLives.socket, ?_⟩
  have hBytes := hLives.bytes hPort
  rwa [Cell.readyBytes, hNone, List.flatMap_nil, List.append_nil] at hBytes

/-- A socket that takes one byte at a time. -/
def Kernel.slow : Kernel := { Kernel.willing with send := fun _ => .accepted 1 }

theorem Kernel.serves_slow : Kernel.slow.Serves 1460 := by
  refine ⟨fun _ => rfl, fun _ => rfl, fun _ => ⟨1, by decide, rfl⟩, fun _ => ?_⟩
  show (0 : Int) ≤ 0 ∧ (16384 : Int) < 2 ^ 31 ∧ (0 : Int) + 1460 < (16384 : Int).tdiv 2
  decide

/-- Two bytes of the client and a socket that takes them one by one. -/
theorem upload_drains_slowly :
    let c := run step (clientCell 22 .empty) uploadRun
    let d := run serve c (List.replicate 3 (.slow, .slow))
    d.ready = [] ∧ d.tcp.state = c.tcp.state ∧ d.socket = c.socket ∧
      accepted d.log = accepted c.log ++ c.readyBytes := by
  refine upload_drains _ 1460 _ ⟨by decide, by decide, by decide⟩ (by decide) (fun round hRound => ?_) (by decide)
  rw [List.eq_of_mem_replicate hRound]
  exact ⟨Kernel.serves_slow, Kernel.serves_slow⟩

example : accepted (run serve (run step (clientCell 22 .empty) uploadRun) (List.replicate 3 (.slow, .slow))).log =
    [104, 105] := by decide

end Tun2Http
