import Tun2Http.Tcp.Lifecycle

/-! What the small helpers leave alone. They look at clocks and buffers, write
acknowledgements and resets, and give a session up; numbers, queue and tunnel
stay as they are. -/
namespace Tun2Http

/-- The calls made from `c` to `d` all meet `p`. -/
def Calls (p : Io → Prop) (c d : Cell) : Prop :=
  ∃ calls : List Io, (∀ entry ∈ calls, p entry) ∧ d.log = calls ++ c.log

namespace Calls

variable {p q : Io → Prop} {a b c d : Cell}

theorem of_log_eq (h : d.log = c.log) : Calls p c d := ⟨[], by simp, h⟩

theorem one (entry : Io) (hEntry : p entry) (h : d.log = entry :: c.log) : Calls p c d :=
  ⟨[entry], by simpa using hEntry, h⟩

theorem trans (hFirst : Calls p a b) (hSecond : Calls p b c) : Calls p a c := by
  obtain ⟨calls, hCalls, hLog⟩ := hFirst
  obtain ⟨more, hMore, hLog'⟩ := hSecond
  refine ⟨more ++ calls, fun entry hEntry => ?_, by rw [hLog', hLog, List.append_assoc]⟩
  rcases List.mem_append.mp hEntry with h | h
  · exact hMore entry h
  · exact hCalls entry h

theorem mono (h : Calls p c d) (hImp : ∀ entry, p entry → q entry) : Calls q c d := by
  obtain ⟨calls, hCalls, hLog⟩ := h
  exact ⟨calls, fun entry hEntry => hImp entry (hCalls entry hEntry), hLog⟩

/-- What such calls do not change in a log, they do not change in a session. -/
theorem log_eq {α : Type} (h : Calls p c d) (f : List Io → α)
    (hf : ∀ entry log, p entry → f (entry :: log) = f log) : f d.log = f c.log := by
  obtain ⟨calls, hCalls, hLog⟩ := h
  rw [hLog]
  clear hLog
  induction calls with
  | nil => rfl
  | cons entry rest ih =>
      rw [List.cons_append, hf _ _ (hCalls entry (List.mem_cons_self ..))]
      exact ih fun e he => hCalls e (List.mem_cons_of_mem _ he)

end Calls

/-- Clocks, buffers, and segments without data or SYN that acknowledge `seq`. -/
def Io.repeats (seq : U32) : Io → Prop
  | .tun packet _ =>
      packet.payload = [] ∧ packet.syn = false ∧ (packet.ack = true → packet.ackSeq = seq)
  | .time _ | .clock _ | .buffer _ _ | .keepAlive | .close => True
  | _ => False

/-- A write to the tun is taken whole. -/
def Io.whole : Io → Prop
  | .tun _ whole => whole = true
  | _ => True

/-- From `c` to `d` the session was at most given up, and acknowledged `seq`. -/
structure Frame (seq : U32) (c d : Cell) : Prop where
  tcp : d.tcp = { c.tcp with
    time := d.tcp.time, recvWindow := d.tcp.recvWindow, lastKeepAlive := d.tcp.lastKeepAlive,
    sent := d.tcp.sent, received := d.tcp.received, state := d.tcp.state }
  events : d.events = c.events
  state : d.tcp.state = c.tcp.state ∨ Closed d
  calls : Calls (Io.repeats seq) c d
  whole : ¬ Closed d → Calls Io.whole c d

namespace Frame

variable {seq : U32} {a b c d : Cell}

theorem remoteSeq (h : Frame seq c d) : d.tcp.remoteSeq = c.tcp.remoteSeq := by rw [h.tcp]
theorem remoteStart (h : Frame seq c d) : d.tcp.remoteStart = c.tcp.remoteStart := by rw [h.tcp]
theorem localSeq (h : Frame seq c d) : d.tcp.localSeq = c.tcp.localSeq := by rw [h.tcp]
theorem localStart (h : Frame seq c d) : d.tcp.localStart = c.tcp.localStart := by rw [h.tcp]
theorem acked (h : Frame seq c d) : d.tcp.acked = c.tcp.acked := by rw [h.tcp]
theorem sendWindow (h : Frame seq c d) : d.tcp.sendWindow = c.tcp.sendWindow := by rw [h.tcp]
theorem sendScale (h : Frame seq c d) : d.tcp.sendScale = c.tcp.sendScale := by rw [h.tcp]
theorem dest (h : Frame seq c d) : d.tcp.dest = c.tcp.dest := by rw [h.tcp]
theorem forward (h : Frame seq c d) : d.tcp.forward = c.tcp.forward := by rw [h.tcp]
theorem connectSent (h : Frame seq c d) : d.tcp.connectSent = c.tcp.connectSent := by rw [h.tcp]

/-- Where only the state can change, and no call was made. -/
theorem of_log_eq (hTcp : d.tcp = { c.tcp with
      time := d.tcp.time, recvWindow := d.tcp.recvWindow, lastKeepAlive := d.tcp.lastKeepAlive,
      sent := d.tcp.sent, received := d.tcp.received, state := d.tcp.state })
    (hEvents : d.events = c.events) (hState : d.tcp.state = c.tcp.state ∨ Closed d)
    (hLog : d.log = c.log) : Frame seq c d :=
  ⟨hTcp, hEvents, hState, .of_log_eq hLog, fun _ => .of_log_eq hLog⟩

theorem refl (seq : U32) (c : Cell) : Frame seq c c := .of_log_eq rfl rfl (Or.inl rfl) rfl

theorem trans (hFirst : Frame seq a b) (hSecond : Frame seq b c) : Frame seq a c := by
  have hClosed : Closed b → Closed c := fun h => hSecond.state.elim (fun hSame => by
    rwa [Closed, hSame]) id
  refine ⟨?_, hSecond.events.trans hFirst.events, ?_, hFirst.calls.trans hSecond.calls, fun hOpen =>
    (hFirst.whole (mt hClosed hOpen)).trans (hSecond.whole hOpen)⟩
  · rw [hSecond.tcp, hFirst.tcp]
  · rcases hSecond.state with hSame | hGone
    · rcases hFirst.state with hState | hGone
      · exact Or.inl (hSame.trans hState)
      · exact Or.inr (hClosed hGone)
    · exact Or.inr hGone

/-- One call that writes nothing. -/
theorem call (c : Cell) (entry : Io) (hRepeats : entry.repeats seq) (hWhole : entry.whole) :
    Frame seq c (c.call entry) :=
  ⟨rfl, rfl, Or.inl rfl, .one entry hRepeats rfl, fun _ => .one entry hWhole rfl⟩

end Frame

variable {K : Kernel} {seq : U32} {c : Cell}

theorem frame_touch (K : Kernel) (seq : U32) (c : Cell) : Frame seq c (touch K c) :=
  ⟨rfl, rfl, Or.inl rfl, .one (.time (K.time c.calls)) trivial rfl,
    fun _ => .one (.time (K.time c.calls)) trivial rfl⟩

theorem frame_getReceiveBuffer (K : Kernel) (seq : U32) (c : Cell) :
    Frame seq c (getReceiveBuffer K c).1 := by
  rcases getReceiveBuffer_cases K c with h | h <;> rw [h]
  · exact .refl seq c
  · exact .call c (.buffer _ _) trivial trivial

/-- The session is given up. -/
theorem frame_setState {state : TcpState} (hState : state = .closing ∨ state = .close) (seq : U32)
    (c : Cell) : Frame seq c (c.setState state) :=
  .of_log_eq rfl rfl (Or.inr hState) rfl

theorem frame_setRecvWindow (seq : U32) (c : Cell) (window : U32) :
    Frame seq c { c with tcp := { c.tcp with recvWindow := window } } :=
  .of_log_eq rfl rfl (Or.inl rfl) rfl

/-- A segment without data or SYN, which closes the session where it is not taken. -/
theorem frame_afterWrite {packet : TcpPacket} (whole : Bool) (hPayload : packet.payload = [])
    (hSyn : packet.syn = false) (hAck : packet.ack = true → packet.ackSeq = seq) :
    Frame seq c (afterWrite c packet whole) := by
  have hRepeats : Io.repeats seq (.tun packet whole) := ⟨hPayload, hSyn, hAck⟩
  cases whole with
  | false =>
      exact ⟨rfl, rfl, Or.inr (Or.inl rfl), .one _ hRepeats rfl, fun h => absurd (Or.inl rfl) h⟩
  | true => exact .call c _ hRepeats rfl

/-- The acknowledgements and the FIN. -/
theorem frame_writeOrClose (K : Kernel) (c : Cell) (fin : Bool) :
    Frame c.tcp.remoteSeq c (writeOrClose K c [] false fin).1 := by
  rw [writeOrClose_eq]
  exact frame_afterWrite _ rfl rfl fun _ => rfl

/-- A reset outside `TCP_LISTEN` acknowledges nothing. -/
theorem frame_writeRst (K : Kernel) (seq : U32) (hState : c.tcp.state ≠ .listen) :
    Frame seq c (writeRst K c) := by
  have hRepeats : Io.repeats seq (.tun (buildTcp c.tcp [] false false false true)
      (K.tunWrite c.calls)) := ⟨rfl, rfl, fun h => by cases h⟩
  rw [writeRst_of_ne_listen K c hState]
  split_ifs with hClose
  · exact ⟨rfl, rfl, Or.inl rfl, .one _ hRepeats rfl, fun h => absurd (Or.inr hClose) h⟩
  · exact ⟨rfl, rfl, Or.inr (Or.inl rfl), .one _ hRepeats rfl, fun h => absurd (Or.inl rfl) h⟩

theorem frame_closeSocket (seq : U32) (c : Cell) : Frame seq c (closeSocket c) :=
  ⟨rfl, rfl, Or.inl rfl, .one .close trivial rfl, fun _ => .one .close trivial rfl⟩

/-- The periodic check at most gives a session up. -/
theorem frame_checkTcpSession (K : Kernel) (seq : U32) (sessions maxsessions : Int) (c : Cell) :
    Frame seq c (checkTcpSession K sessions maxsessions c).1 := by
  have hTimeout : ∀ timeout now, ∀ d : Cell, Frame seq d (checkTimeout K timeout now d) := by
    intro timeout now d
    unfold checkTimeout
    split_ifs with hOut hListen
    · exact frame_setState (Or.inl rfl) seq d
    · exact frame_writeRst K seq hListen
    · exact .refl seq d
  have hClosing : ∀ d : Cell, Frame seq d (checkClosing K d) := by
    intro d
    unfold checkClosing
    split_ifs
    · exact ((frame_closeSocket seq d).trans (frame_touch K seq _)).trans
        (frame_setState (Or.inr rfl) seq _)
    · exact (frame_touch K seq d).trans (frame_setState (Or.inr rfl) seq _)
    · exact .refl seq d
  have hDrop : ∀ d : Cell, Frame seq d (dropCounts d) := by
    intro d
    unfold dropCounts
    split_ifs
    · exact .of_log_eq rfl rfl (Or.inl rfl) rfl
    · exact .refl seq d
  exact (((Frame.call c (.time _) trivial trivial).trans (hTimeout _ _ _)).trans
    (hClosing _)).trans (hDrop _)

/-- The keep alive acknowledges one number less. -/
theorem frame_keepAliveProbe (K : Kernel) (c : Cell) :
    Frame (c.tcp.remoteSeq - 1) c (keepAliveProbe K c) := by
  unfold keepAliveProbe
  dsimp only
  split_ifs
  · set d : Cell := { c with tcp := { c.tcp with lastKeepAlive := K.clock c.calls } }.call
      (.clock (K.clock c.calls)) with hD
    have hClock : Frame (c.tcp.remoteSeq - 1) c d :=
      ⟨rfl, rfl, Or.inl rfl, .one (.clock (K.clock c.calls)) trivial rfl,
        fun _ => .one (.clock (K.clock c.calls)) trivial rfl⟩
    have hProbe : Frame (c.tcp.remoteSeq - 1) d
        (afterWrite d (buildTcp { d.tcp with remoteSeq := d.tcp.remoteSeq - 1 } [] false true false false)
          (K.tunWrite d.calls)) := frame_afterWrite _ rfl rfl fun _ => rfl
    rw [← afterWrite_restore] at hProbe
    simp only [writeAck, writeOrClose_eq]
    exact hClock.trans hProbe
  · exact .call c (.clock _) trivial trivial

/-- The monitor probes and looks at the buffer before it sets the mask. -/
theorem frame_wantedEvents (K : Kernel) (c : Cell) :
    Frame (c.tcp.remoteSeq - 1) c (wantedEvents K c).1 := by
  have hQueue : ∀ (readable : Bool) (d : Cell),
      Frame (c.tcp.remoteSeq - 1) d (queueEvents K readable d).1 := by
    intro readable d
    unfold queueEvents
    split
    · exact .refl _ d
    · exact frame_getReceiveBuffer K _ d
  unfold wantedEvents
  dsimp only
  split_ifs
  · exact .refl _ c
  · exact .refl _ c
  · exact hQueue _ c
  · exact (frame_keepAliveProbe K c).trans (hQueue _ _)
  · exact .refl _ c

end Tun2Http
