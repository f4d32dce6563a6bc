import Tun2Http.Machine.Progress
import Tun2Http.Tcp.WindowScale

/-! The bytes of the tunnel reach the client. While its end of the connection is open,
each readable event passes some of them on, and it can always ask for the next. -/
namespace Tun2Http

open Machine

/-- The tun took a SYN-ACK. -/
def Io.synAcks : Io → Bool
  | .tun packet true => packet.syn
  | _ => false

/-- The tun took a reset. -/
def Io.resets : Io → Bool
  | .tun packet true => packet.rst
  | _ => false

/-- The client's end of the connection is open: it got a SYN-ACK and no reset. -/
def Joined (log : List Io) : Prop := log.any Io.synAcks = true ∧ log.any Io.resets = false

instance (log : List Io) : Decidable (Joined log) := inferInstanceAs (Decidable (_ ∧ _))

/-- The client acknowledges only on an open connection, and nothing that was not sent. -/
def Plays (c : Cell) (input : Kernel × Input) : Prop :=
  ∀ hdr data, input.2 = .segment hdr data → hdr.ack = true →
    Joined c.log ∧ hdr.ackSeq - c.tcp.localStart ≤ c.tcp.localSeq - c.tcp.localStart

/-- Something waits in the socket of an open session, the client has room for it and
the tun takes it. -/
structure Readable (c : Cell) (input : Kernel × Input) : Prop where
  event : ∃ ev, input.2 = .event ev ∧ ev.epollerr = false ∧ ev.epollin = true
  socket : 0 ≤ c.socket
  state : c.tcp.state = .established ∨ c.tcp.state = .closeWait
  window : 0 < getSendWindow c.tcp
  tun : ∀ call, input.1.tunWrite call = true
  data : ∃ bytes, bytes ≠ [] ∧ ∀ call, input.1.recv call = .data bytes

/-- The kernel serves the stream, as far as the session has not read it since `c`. -/
def Streams (stream : List UInt8) (c d : Cell) (input : Kernel × Input) : Prop :=
  ∃ arrived, Serves stream c d input.1 arrived

/-- Both sides keep to the protocol. -/
def Fair (stream : List UInt8) (c d : Cell) (input : Kernel × Input) : Prop :=
  Streams stream c d input ∧ Plays d input

/-- The input opens the tunnel. Whatever happens then, cut as it may be, the client gets
nothing of `head` and the next of `data`, all of it once there were as many readable
events as bytes. And it can come to that. -/
structure Handled (head data : List UInt8) (c : Cell) (input : Kernel × Input) : Prop where
  tunnel : (step c input).tcp.connectSent = .established
  stays : ¬ Closed (step c input)
  next : ∀ later, Along step (Streams (head ++ data) c) (step c input) later →
    Relays (head ++ data) data c (run step (step c input) later)
  all : ∀ later count, Along step (Streams (head ++ data) c) (step c input) later →
    Hits step Readable (step c input) later count → data.length ≤ count →
    relayed (run step (step c input) later).log = relayed c.log ++ data
  comes : ∃ later, Along step (Fair (head ++ data) c) (step c input) later ∧
    relayed (run step (step c input) later).log = relayed c.log ++ data

/-- Bytes can get to the client: its end is open, its segments hold some, and its window
can be opened. -/
def CanReceive (c : Cell) : Prop :=
  Joined c.log ∧ 0 < c.tcp.mss ∧
    ∃ window : U16, (window.setWidth 32 : U32) <<< c.tcp.sendScale.toNat ≠ 0

variable {K : Kernel} {i : Input} {s c d e : Cell} {stream data head arrived : List UInt8}

/-! What a readable event passes on. -/

/-- Neither data nor a reset is written. -/
def Io.plain : Io → Prop
  | .tun packet _ => packet.payload = [] ∧ packet.rst = false
  | _ => True

/-- From `c` to `d` the session stays as open as it was, and nothing is passed on. -/
structure Steady (c d : Cell) : Prop where
  state : d.tcp.state = c.tcp.state
  socket : d.socket = c.socket
  window : getSendWindow d.tcp = getSendWindow c.tcp
  size : readSize d.tcp = readSize c.tcp
  calls : Calls Io.plain c d

theorem joined_cons {entry : Io} {log : List Io} (hReset : entry.resets = false) (h : Joined log) :
    Joined (entry :: log) := by
  simp only [Joined, List.any_cons, hReset, Bool.false_or, Bool.or_eq_true]
  exact ⟨Or.inr h.1, h.2⟩

theorem Io.plain.resets {entry : Io} (h : entry.plain) : entry.resets = false := by
  cases entry with
  | tun packet whole =>
      cases whole
      · rfl
      · exact h.2
  | _ => rfl

theorem Calls.joined (h : Calls Io.plain c d) (hJoined : Joined c.log) : Joined d.log := by
  obtain ⟨calls, hCalls, hLog⟩ := h
  rw [hLog]
  clear hLog
  induction calls with
  | nil => exact hJoined
  | cons entry rest ih =>
      exact joined_cons (hCalls entry (List.mem_cons_self ..)).resets
        (ih fun other hOther => hCalls other (List.mem_cons_of_mem _ hOther))

theorem Calls.relayed (h : Calls Io.plain c d) : relayed d.log = relayed c.log :=
  h.log_eq Tun2Http.relayed fun entry log hEntry => by
    cases entry with
    | tun packet whole => exact relayed_tun hEntry.1 whole log
    | _ => rfl

namespace Steady

theorem refl (c : Cell) : Steady c c := ⟨rfl, rfl, rfl, rfl, .of_log_eq rfl⟩

theorem trans (hFirst : Steady c d) (hSecond : Steady d e) : Steady c e :=
  ⟨hSecond.state.trans hFirst.state, hSecond.socket.trans hFirst.socket,
    hSecond.window.trans hFirst.window, hSecond.size.trans hFirst.size,
    hFirst.calls.trans hSecond.calls⟩

/-- One call that changes neither the state nor the window. -/
theorem one (entry : Io) (hEntry : entry.plain) (hLog : d.log = entry :: c.log)
    (hSocket : d.socket = c.socket) (hState : d.tcp.state = c.tcp.state) (hMss : d.tcp.mss = c.tcp.mss)
    (hWindow : d.tcp.sendWindow = c.tcp.sendWindow) (hLocal : d.tcp.localSeq = c.tcp.localSeq)
    (hAcked : d.tcp.acked = c.tcp.acked) : Steady c d := by
  refine ⟨hState, hSocket, ?_, readSize_congr hMss hWindow hLocal hAcked, .one entry hEntry hLog⟩
  rw [getSendWindow, getSendWindow, hWindow, hLocal, hAcked]

theorem getReceiveBuffer (K : Kernel) (c : Cell) : Steady c (getReceiveBuffer K c).1 := by
  rcases getReceiveBuffer_cases K c with h | h <;> rw [h]
  · exact refl c
  · exact one (.buffer _ _) trivial rfl rfl rfl rfl rfl rfl rfl

theorem touch (K : Kernel) (c : Cell) : Steady c (touch K c) :=
  one (.time _) trivial rfl rfl rfl rfl rfl rfl rfl

theorem storeWindow (K : Kernel) (c : Cell) : Steady c (storeWindow K c) := by
  have hBuffer := getReceiveBuffer K c
  exact ⟨hBuffer.state, hBuffer.socket, hBuffer.window, hBuffer.size, hBuffer.calls⟩

theorem forwardData (K : Kernel) (c : Cell) : Steady c (forwardData K c).1 := by
  apply forwardLoop_keeps (P := Steady c) _ _ _ false (getReceiveBuffer K c)
  intro seg queue d h
  exact h.trans (one (.send _ _) trivial rfl rfl rfl rfl rfl rfl rfl)

theorem acknowledge (hTun : ∀ call, K.tunWrite call = true) (fwd : Bool) (c : Cell) :
    Steady c (acknowledge K fwd c) := by
  have hConfirm : Steady c (confirmFin fwd c) := by
    unfold confirmFin
    split_ifs
    · exact one .countFin trivial rfl rfl rfl rfl rfl rfl rfl
    · exact refl c
  have hWrite : Steady (confirmFin fwd c) (writeAck K (confirmFin fwd c)).1 := by
    simp only [writeAck, writeOrClose_eq, hTun]
    exact one (.tun _ true) ⟨rfl, rfl⟩ rfl rfl rfl rfl rfl rfl rfl
  rw [acknowledge_eq]
  dsimp only
  split_ifs
  · exact (hConfirm.trans hWrite).trans (touch K _)
  · exact hConfirm.trans hWrite

theorem beforeRead (hTun : ∀ call, K.tunWrite call = true) (ev : EpollEvents) (c : Cell) :
    Steady c (beforeRead K ev c) :=
  beforeRead_keeps (P := Steady c) (refl c) (forwardData K c) (fun d h => h.trans (storeWindow K d))
    fun fwd d h => h.trans (acknowledge hTun fwd d)

end Steady

/-- Bytes that the tun takes leave the session as it was. -/
theorem relay_whole (hTun : ∀ call, K.tunWrite call = true) (bytes : List UInt8) (c : Cell) :
    relayed (relay K bytes c).log = relayed c.log ++ bytes ∧ (relay K bytes c).tcp.state = c.tcp.state ∧
      (relay K bytes c).socket = c.socket ∧ (Joined c.log → Joined (relay K bytes c).log) := by
  have hLog := relay_log K bytes c
  rw [hTun] at hLog
  refine ⟨by rw [hLog]; rfl, ?_, ?_, fun h => ?_⟩
  · simp [relay, writeData, writeOrClose_eq, hTun, afterWrite]
  · simp [relay, writeData, writeOrClose_eq, hTun, afterWrite]
  · rw [hLog]
    exact joined_cons rfl h

/-- A readable event passes bytes on and leaves the session open. -/
theorem Readable.relays {input : Kernel × Input} (h : Readable c input) (hMss : 0 < c.tcp.mss) :
    ∃ bytes, bytes ≠ [] ∧ relayed (step c input).log = relayed c.log ++ bytes ∧
      (step c input).tcp.state = c.tcp.state ∧ (step c input).socket = c.socket ∧
      (Joined c.log → Joined (step c input).log) := by
  obtain ⟨K, i⟩ := input
  obtain ⟨ev, rfl, hError, hIn⟩ : ∃ ev, i = .event ev ∧ ev.epollerr = false ∧ ev.epollin = true := h.event
  obtain ⟨arrived, hArrived, hRecv⟩ := h.data
  have hSteady : Steady c (beforeRead K ev c) := .beforeRead h.tun ev c
  set d := beforeRead K ev c with hD
  have hReading : reading c (K, .event ev) = some d := by
    have hListen : c.tcp.state ≠ .listen := by rcases h.state with h | h <;> rw [h] <;> decide
    simp only [reading]
    rw [if_pos]
    exact ⟨h.socket, by simp [hError], hListen, hSteady.state ▸ h.state, hIn, hSteady.window ▸ h.window⟩
  obtain ⟨-, -, -, hStep⟩ := step_of_reading hReading
  have hSize : 0 < readSize d.tcp := hSteady.size ▸ readSize_pos hMss h.window
  have hRead : (readFrom K d).2 = .data (arrived.take (readSize d.tcp)) := by
    rw [readFrom, recvFrom]
    dsimp only
    rw [show K.recv (touch K d).calls = .data arrived from hRecv _]
  have hBytes : arrived.take (readSize d.tcp) ≠ [] := by
    simp [hArrived, hSize.ne']
  have hRelay : step c (K, .event ev) = relay K (arrived.take (readSize d.tcp)) (readFrom K d).1 := by
    rw [hStep, hRead]
    obtain ⟨first, rest, hCons⟩ := List.exists_cons_of_ne_nil hBytes
    rw [hCons]
    rfl
  have hCalls : Calls Io.plain d (readFrom K d).1 :=
    (Steady.touch K d).calls.trans (.one (.recv (readFrom K d).2) trivial rfl)
  obtain ⟨hRelayed, hState, hSocket, hJoined⟩ :=
    relay_whole h.tun (arrived.take (readSize d.tcp)) (readFrom K d).1
  refine ⟨arrived.take (readSize d.tcp), hBytes, ?_, ?_, ?_, fun hJoin => ?_⟩
  · rw [hRelay, hRelayed, hCalls.relayed, hSteady.calls.relayed]
  · rw [hRelay]
    exact hState.trans hSteady.state
  · rw [hRelay]
    exact hSocket.trans hSteady.socket
  · rw [hRelay]
    exact hJoined ((hSteady.calls.trans hCalls).joined hJoin)

/-! The client can ask for everything. -/

/-- A kernel that refuses nothing and holds `arrived` in the socket. -/
def Kernel.holding (arrived : List UInt8) : Kernel :=
  { Kernel.willing with
    recv := fun _ => if arrived = [] then .error eagain else .data arrived
    drain := fun _ => arrived.drop 12 }

theorem serves_holding (hNext : arrived <+: pending stream c d) :
    Serves stream c d (.holding arrived) arrived := by
  refine ⟨hNext, fun n hArrived => if_neg hArrived, fun n bytes hArrived hRecv => ?_, fun n => rfl⟩
  simp [Kernel.holding, hArrived] at hRecv

/-- The acknowledgement of all that the session sent, with the window `window`. -/
def ackAll (c : Cell) (window : U16) : TcpHdr where
  source := c.tcp.source
  dest := c.tcp.dest
  seq := c.tcp.remoteSeq
  ackSeq := c.tcp.localSeq
  window := window
  syn := false
  ack := true
  psh := false
  fin := false
  rst := false
  urg := false

/-- It opens an established tunnel, and the client's window. -/
theorem step_ackAll (K : Kernel) (window : U16) (hTunnel : c.tcp.connectSent = .established)
    (hState : c.tcp.state = .synRecv ∨ c.tcp.state = .established) :
    let d := step c (K, .segment (ackAll c window) .empty)
    d.tcp.state = .established ∧ d.socket = c.socket ∧ d.tcp.acked = d.tcp.localSeq ∧
      d.tcp.sendWindow = window.setWidth 32 <<< c.tcp.sendScale.toNat ∧
      d.tcp.sendScale = c.tcp.sendScale ∧ Calls Io.plain c d := by
  have hClosed : ¬ (c.tcp.state = .closing ∨ c.tcp.state = .close) := by
    rcases hState with h | h <;> rw [h] <;> decide
  obtain ⟨hostname, hNamed⟩ : ∃ hostname, (if c.tcp.dest = 443 then connectPhase K .empty c else c) =
      { c with tcp := { c.tcp with hostname := hostname } } := by
    split_ifs
    · rw [connectPhase_of_tried K _ (by simp [hTunnel]), storeHostname]
      split_ifs
      · exact ⟨_, rfl⟩
      · exact ⟨c.tcp.hostname, rfl⟩
    · exact ⟨c.tcp.hostname, rfl⟩
  set named : Cell := { c with tcp := { c.tcp with hostname := hostname } } with hName
  have hStep : step c (K, .segment (ackAll c window) .empty) =
      handleAck c.tcp.localSeq (refresh K (ackAll c window) named) := by
    dsimp only [step, existingSession]
    rw [hNamed, if_neg (by simp [ackAll]), tunnelSegment, if_neg (by simp [hName, hTunnel]),
      if_neg hClosed, handleSegment, if_neg (by simp [Payload.empty])]
    simp [handleFlags, ackAll, refresh, hName]
  have hCalls : Calls Io.plain c (refresh K (ackAll c window) named) := .one (.time _) trivial rfl
  rw [hStep, handleAck]
  rcases hState with hState | hState
  · have hNow : (refresh K (ackAll c window) named).tcp.state = .synRecv := hState
    simp only [hNow]
    exact ⟨rfl, rfl, rfl, rfl, rfl, hCalls⟩
  · have hNow : (refresh K (ackAll c window) named).tcp.state = .established := hState
    simp only [hNow]
    exact ⟨trivial, rfl, rfl, rfl, rfl, hCalls⟩

/-- Where all is acknowledged, the window is what the client says. -/
theorem getSendWindow_acked {t : TcpSession} (h : t.acked = t.localSeq) : getSendWindow t = t.sendWindow := by
  have hNone : compareU32 t.localSeq t.localSeq ≤ 0 := by simp [compareU32]
  rw [getSendWindow, h]
  simp only [hNone, if_true, BitVec.sub_self]
  split_ifs with hPos
  · exact BitVec.sub_zero _
  · bv_omega

/-- The client waits for the rest of `data`, at an open session. -/
structure Waiting (stream data : List UInt8) (c d : Cell) : Prop where
  life : Lifecycle d
  carrying : Carrying stream data c d
  state : d.tcp.state = .synRecv ∨ d.tcp.state = .established
  socket : 0 ≤ d.socket
  receives : CanReceive d

/-- An open session has relayed all of the data that it has read. -/
theorem Waiting.relayed_pending (h : Waiting stream data c d) :
    ∃ written, relayed d.log = relayed c.log ++ written ∧ written ++ pending stream c d = data := by
  obtain ⟨written, hWritten, -, hRest⟩ := h.carrying.relays
  refine ⟨written, hWritten, hRest ?_ ?_⟩ <;> rcases h.state with hState | hState <;> simp [hState]

/-- The client acknowledges and is ready for more. -/
theorem Waiting.ask (h : Waiting stream data c d) : ∃ input, Fair stream c d input ∧
    Waiting stream data c (step d input) ∧ (step d input).tcp.state = .established ∧
    0 < getSendWindow (step d input).tcp ∧ relayed (step d input).log = relayed d.log := by
  obtain ⟨hJoined, hMss, window, hWindow⟩ := h.receives
  set input : Kernel × Input := (.holding [], .segment (ackAll d window) .empty) with hInput
  have hStreams : Streams stream c d input := ⟨[], serves_holding List.nil_prefix⟩
  obtain ⟨hState, hSocket, hAcked, hSend, hScale, hCalls⟩ :=
    step_ackAll (.holding []) window h.carrying.tunnel h.state
  obtain ⟨hLife, hCarrying⟩ := h.carrying.step h.life input hStreams
  refine ⟨input, ⟨hStreams, ?_⟩, ⟨hLife, hCarrying, Or.inr hState, hSocket ▸ h.socket, ?_⟩, hState, ?_,
    hCalls.relayed⟩
  · rintro hdr payload hSegment -
    obtain ⟨rfl, -⟩ := Input.segment.inj hSegment
    exact ⟨hJoined, BitVec.le_refl _⟩
  · exact ⟨hCalls.joined hJoined, step_mss d input ▸ hMss, window, hScale ▸ hWindow⟩
  · rw [getSendWindow_acked hAcked, hSend]
    exact (BitVec.pos_iff_ne_zero _).mpr hWindow

/-- Then what is in the socket is read, as much as there is room for. -/
theorem Waiting.fetch (h : Waiting stream data c d) (hState : d.tcp.state = .established)
    (hWindow : 0 < getSendWindow d.tcp) (hMore : pending stream c d ≠ []) : ∃ input, Fair stream c d input ∧
    Waiting stream data c (step d input) ∧
    ∃ bytes, bytes ≠ [] ∧ relayed (step d input).log = relayed d.log ++ bytes := by
  set K := Kernel.holding (pending stream c d) with hK
  set input : Kernel × Input := (K, .event { epollin := true }) with hInput
  have hServes : Serves stream c d K (pending stream c d) := serves_holding List.prefix_rfl
  have hReadable : Readable d input :=
    ⟨⟨_, rfl, rfl, rfl⟩, h.socket, Or.inl hState, hWindow, fun _ => rfl, _, hMore,
      fun call => hServes.recv call hMore⟩
  obtain ⟨hJoined, hMss, window, hShift⟩ := h.receives
  obtain ⟨bytes, hBytes, hRelayed, hSame, hSocket, hStill⟩ := hReadable.relays hMss
  obtain ⟨hLife, hCarrying⟩ := h.carrying.step h.life input ⟨_, hServes⟩
  have hScaling := step_keepsScaling d K (i := .event { epollin := true }) fun _ _ h => by cases h
  refine ⟨input, ⟨⟨_, hServes⟩, fun hdr payload hSegment => by cases hSegment⟩,
    ⟨hLife, hCarrying, Or.inr (hSame.trans hState), hSocket ▸ h.socket, hStill hJoined, step_mss d input ▸ hMss,
      window, hScaling.sendScale ▸ hShift⟩, bytes, hBytes, hRelayed⟩

/-- So all of the data can come, by induction on what is left. -/
theorem Waiting.comes (left : Nat) : ∀ d, Waiting stream data c d → (pending stream c d).length ≤ left →
    ∃ later, Along step (Fair stream c) d later ∧ relayed (run step d later).log = relayed c.log ++ data := by
  induction left with
  | zero =>
      intro d h hLeft
      obtain ⟨written, hWritten, hData⟩ := h.relayed_pending
      rw [List.length_eq_zero_iff.mp (Nat.le_zero.mp hLeft), List.append_nil] at hData
      exact ⟨[], trivial, hData ▸ hWritten⟩
  | succ left ih =>
      intro d h hLeft
      by_cases hMore : pending stream c d = []
      · obtain ⟨written, hWritten, hData⟩ := h.relayed_pending
        rw [hMore, List.append_nil] at hData
        exact ⟨[], trivial, hData ▸ hWritten⟩
      · obtain ⟨written, hWritten, hData⟩ := h.relayed_pending
        obtain ⟨asks, hAsks, hAsked, hState, hWindow, hQuiet⟩ := h.ask
        obtain ⟨before, hBefore, hDataBefore⟩ := hAsked.relayed_pending
        have hSame : before = written := by
          rw [hQuiet, hWritten] at hBefore
          exact (List.append_cancel_left hBefore).symm
        have hPending : pending stream c (step d asks) = pending stream c d := by
          rw [hSame, ← hData] at hDataBefore
          exact List.append_cancel_left hDataBefore
        obtain ⟨reads, hReads, hFetched, bytes, hBytes, hPassed⟩ := hAsked.fetch hState hWindow (hPending ▸ hMore)
        obtain ⟨after, hAfter, hDataAfter⟩ := hFetched.relayed_pending
        have hGrown : after = written ++ bytes := by
          rw [hPassed, hQuiet, hWritten, List.append_assoc] at hAfter
          exact (List.append_cancel_left hAfter).symm
        have hLess : (pending stream c (step (step d asks) reads)).length ≤ left := by
          have hLengths := congrArg List.length (hDataAfter.trans hData.symm)
          have hSome := List.length_pos_iff.mpr hBytes
          rw [hGrown] at hLengths
          simp only [List.length_append] at hLengths
          omega
        obtain ⟨later, hLater, hEnd⟩ := ih _ hFetched hLess
        exact ⟨asks :: reads :: later, ⟨hAsks, hReads, hLater⟩, hEnd⟩

/-! Every readable event passes bytes on. -/

theorem relayed_append (entries log : List Io) : relayed (entries ++ log) = relayed log ++ relayed entries := by
  induction entries with
  | nil => simp [relayed]
  | cons entry rest ih =>
      rw [List.cons_append]
      cases entry with
      | tun packet whole =>
          cases whole
          · exact ih
          · rw [relayed, ih, relayed, List.append_assoc]
      | _ => exact ih

theorem relayed_step (c : Cell) (input : Kernel × Input) : relayed c.log <+: relayed (step c input).log := by
  obtain ⟨entries, hLog⟩ := step_log c input
  rw [hLog, relayed_append]
  exact List.prefix_append _ _

/-- How many bytes of `data` the tun has not taken since `c`. -/
def missing (data : List UInt8) (c d : Cell) : Nat :=
  data.length - ((relayed d.log).length - (relayed c.log).length)

/-- As many readable events as bytes bring all of them. -/
theorem relayed_of_hits (h : Carrying stream data c d) (hLife : Lifecycle d) (hMss : 0 < d.tcp.mss)
    {later : List (Kernel × Input)} {count : Nat} (hRun : Along step (Streams stream c) d later)
    (hHits : Hits step Readable d later count) (hEnough : data.length ≤ count) :
    relayed (run step d later).log = relayed c.log ++ data := by
  have hKeeps : ∀ e input, (Lifecycle e ∧ Carrying stream data c e ∧ 0 < e.tcp.mss) → Streams stream c e input →
      Lifecycle (step e input) ∧ Carrying stream data c (step e input) ∧ 0 < (step e input).tcp.mss := by
    rintro e input ⟨hLife, hCarrying, hMss⟩ hStreams
    obtain ⟨hLife', hCarrying'⟩ := hCarrying.step hLife input hStreams
    exact ⟨hLife', hCarrying', step_mss e input ▸ hMss⟩
  have hStart : Lifecycle d ∧ Carrying stream data c d ∧ 0 < d.tcp.mss := ⟨hLife, h, hMss⟩
  have hWork : missing data c (run step d later) ≤ missing data c d - count := by
    refine hHits.work hStart hRun fun e input hInv hStreams =>
      ⟨hKeeps e input hInv hStreams, ?_, fun hReadable => ?_⟩
    · have hMore := (relayed_step e input).length_le
      simp only [missing]
      omega
    · obtain ⟨bytes, hBytes, hRelayed, -⟩ := hReadable.relays hInv.2.2
      obtain ⟨written, -, hWritten, -⟩ := hInv.2.1.progress
      have hSome := List.length_pos_iff.mpr hBytes
      simp only [missing, hRelayed, hWritten, List.length_append]
      omega
  obtain ⟨-, hEnd, -⟩ := run_invariant
    (I := fun e => Lifecycle e ∧ Carrying stream data c e ∧ 0 < e.tcp.mss) hStart hRun hKeeps
  obtain ⟨written, hWritten, hPrefix, -⟩ := hEnd.relays
  have hLong : data.length ≤ written.length := by
    simp only [missing, hWritten, List.length_append] at hWork
    omega
  rw [hWritten, hPrefix.eq_of_length_le hLong]

/-! Where nothing can come. -/

/-- Without room to read nothing is passed on. -/
theorem relayed_move (hMove : Move K i s c d)
    (hNone : c.tcp.state = .established ∨ c.tcp.state = .closeWait → readSize s.tcp = 0) :
    relayed d.log = relayed c.log := by
  cases hMove with
  | quiet hSilent => exact relayed_quiet hSilent.toQuiet
  | write back fin whole =>
      rw [afterWrite_log]
      exact relayed_tun rfl whole _
  | relay bytes hState hWindow hFirst hBytes hRead hSize =>
      have hLength := length_recvFrom hRead
      rw [hSize, hNone hState, Nat.le_zero, List.length_eq_zero_iff] at hLength
      exact absurd hLength hBytes
  | reset => exact (writeRst_logs _).2
  | synAck ev whole => cases whole <;> exact relayed_tun rfl _ _
  | forward seg rest =>
      rw [forwardTurn_eq]
      split_ifs <;> rfl
  | fin next whole => cases whole <;> exact relayed_tun rfl _ _
  | confirmFin => rfl
  | queue => rfl
  | finQueued => rfl
  | establish => rfl
  | lastAck => rfl
  | abort => rfl
  | connect => rfl
  | reply => rfl
  | shutdown => rfl
  | closeSocket => rfl
  | closed => rfl

theorem relayed_of_readSize (hNone : readSize c.tcp = 0) (input : Kernel × Input) :
    relayed (step c input).log = relayed c.log :=
  moves_invariant (I := fun d => relayed d.log = relayed c.log) (step_moves c input.1 input.2) rfl
    fun _ _ hSame hMove => (relayed_move hMove fun _ => hNone).trans hSame

/-- The window is one that the client announced, shifted by `ws`. -/
structure Announced (ws : BitVec 8) (c : Cell) : Prop where
  scale : c.tcp.sendScale = ws
  window : ∃ window : U16, c.tcp.sendWindow = window.setWidth 32 <<< ws.toNat

theorem Announced.keeps {ws : BitVec 8} (h : Announced ws c) (hKeeps : KeepsScaling c d) : Announced ws d :=
  ⟨hKeeps.sendScale.trans h.scale, hKeeps.sendWindow ▸ h.window⟩

theorem Announced.step {ws : BitVec 8} (h : Announced ws c) (input : Kernel × Input) :
    Announced ws (step c input) := by
  obtain ⟨K, i⟩ := input
  by_cases hInput : ∃ hdr data, i = .segment hdr data
  · obtain ⟨hdr, data, rfl⟩ := hInput
    by_cases hStores : StoresWindow K hdr data c
    · have hScaling := segment_scaling hStores
      simp only [TcpSession.scaling, Prod.mk.injEq] at hScaling
      exact ⟨hScaling.2.1.trans h.scale, hdr.window, h.scale ▸ hScaling.2.2⟩
    · exact h.keeps (segment_keepsScaling hStores)
  · exact h.keeps (step_keepsScaling c K fun hdr data hSegment => hInput ⟨hdr, data, hSegment⟩)

theorem Reachable.announced (h : Reachable c) : Announced c.tcp.sendScale c := by
  obtain ⟨K, info, hdr, data, start, inputs, hNew, rfl⟩ := h
  obtain ⟨-, -, window, hTcp⟩ := newSession_eq hNew
  have hStart : Announced info.ws start := ⟨by rw [hTcp]; rfl, hdr.window, by rw [hTcp]; rfl⟩
  have hEnd : Announced info.ws (run step start inputs) :=
    run_invariant_always inputs hStart fun _ input h => h.step input
  exact hEnd.scale ▸ hEnd

/-- Segments that hold nothing, or a window that stays shut, leave no room. -/
theorem relayed_of_no_room {ws : BitVec 8} (h : Announced ws c)
    (hNone : c.tcp.mss = 0 ∨ ∀ window : U16, (window.setWidth 32 : U32) <<< ws.toNat = 0)
    (later : List (Kernel × Input)) : relayed (run step c later).log = relayed c.log := by
  refine (run_invariant_always (I := fun d => (Announced ws d ∧ d.tcp.mss = c.tcp.mss) ∧
    relayed d.log = relayed c.log) later ⟨⟨h, rfl⟩, rfl⟩ ?_).2
  rintro d input ⟨⟨hAnnounced, hMss⟩, hSame⟩
  refine ⟨⟨hAnnounced.step input, (step_mss d input).trans hMss⟩, ?_⟩
  refine (relayed_of_readSize ?_ input).trans hSame
  rcases hNone with hNone | hNone
  · rw [readSize, hMss, hNone]
    split_ifs <;> bv_omega
  · obtain ⟨window, hWindow⟩ := hAnnounced.window
    have hShut : getSendWindow d.tcp = 0 := by
      rw [getSendWindow, hWindow, hNone]
      split_ifs <;> bv_omega
    rw [readSize, hShut]
    split_ifs <;> bv_omega

/-- The tunnel is open, and the client has not joined. -/
structure Unjoined (d : Cell) : Prop where
  tunnel : d.tcp.connectSent = .established
  state : d.tcp.state = .synRecv ∨ Closed d
  joined : ¬ Joined d.log

theorem not_joined_cons {entry : Io} {log : List Io} (hSyn : entry.synAcks = false) (h : ¬ Joined log) :
    ¬ Joined (entry :: log) := by
  intro hJoined
  simp only [Joined, List.any_cons, hSyn, Bool.false_or, Bool.or_eq_false_iff] at hJoined
  exact h ⟨hJoined.1, hJoined.2.2⟩

theorem not_joined_afterWrite {packet : TcpPacket} (hSyn : packet.syn = false) (whole : Bool)
    (h : ¬ Joined c.log) : ¬ Joined (afterWrite c packet whole).log := by
  rw [afterWrite_log]
  cases whole
  · exact not_joined_cons rfl h
  · exact not_joined_cons hSyn h

theorem not_joined_writeRst (h : ¬ Joined c.log) : ¬ Joined (writeRst K c).log := by
  have hTun : ∀ log whole packet, packet.syn = false → ¬ Joined log → ¬ Joined (.tun packet whole :: log) := by
    intro log whole packet hSyn hLog
    cases whole
    · exact not_joined_cons rfl hLog
    · exact not_joined_cons hSyn hLog
  by_cases hState : c.tcp.state = .listen
  · rw [writeRst_of_listen K c hState]
    have hCounted : ¬ Joined (.countSyn :: c.log) := not_joined_cons rfl h
    exact hTun _ _ _ rfl hCounted
  · rw [writeRst_of_ne_listen K c hState]
    split_ifs <;> exact hTun _ _ _ rfl h

theorem Quiet.not_joined (h : Quiet c d) (hJoined : ¬ Joined c.log) : ¬ Joined d.log := by
  obtain ⟨calls, hCalls, hLog⟩ := h.log
  rw [hLog]
  clear hLog
  induction calls with
  | nil => exact hJoined
  | cons entry rest ih =>
      have hEntry := hCalls entry (List.mem_cons_self ..)
      refine not_joined_cons ?_ (ih fun other hOther => hCalls other (List.mem_cons_of_mem _ hOther))
      cases entry with
      | tun packet whole => exact hEntry.elim
      | _ => rfl

/-- Who has not joined does not acknowledge, and without an acknowledgement the session
is never established. -/
theorem Unjoined.move (h : Unjoined c) (hStart : Unjoined s) (hPlays : Plays s (K, i))
    (hMove : Move K i s c d) : Unjoined d := by
  have hNot : ∀ state, state ≠ .synRecv → state ≠ .closing → state ≠ .close → c.tcp.state ≠ state := by
    rintro state hSyn hClosing hClose rfl
    exact h.state.elim hSyn fun hClosed => hClosed.elim hClosing hClose
  cases hMove with
  | quiet hSilent =>
      refine ⟨hSilent.connectSent.trans h.tunnel, ?_, hSilent.toQuiet.not_joined h.joined⟩
      rw [Closed, hSilent.state]
      exact h.state
  | write back fin whole =>
      refine ⟨by rw [afterWrite_tcp]; exact h.tunnel, ?_, not_joined_afterWrite rfl whole h.joined⟩
      cases whole
      · exact Or.inr (Or.inl rfl)
      · exact h.state
  | relay bytes hState =>
      exact (hState.elim (hNot _ (by simp) (by simp) (by simp)) (hNot _ (by simp) (by simp) (by simp))).elim
  | reset =>
      refine ⟨(writeRst_tcp c).2.2.1.trans h.tunnel, Or.inr ?_, not_joined_writeRst h.joined⟩
      rw [Closed, writeRst_state]
      split_ifs <;> simp
  | synAck ev whole hInput hError hRead hState => exact (hNot _ (by simp) (by simp) (by simp) hState).elim
  | forward seg rest hTurn hQueue hNext hState =>
      rw [forwardTurn_eq]
      have hSend : ∀ bytes count, ¬ Joined (.send bytes count :: c.log) := fun _ _ => not_joined_cons rfl h.joined
      split_ifs <;> exact ⟨h.tunnel, h.state, hSend _ _⟩
  | confirmFin sndbuf outq data answer before hState =>
      exact (hNot _ (by simp) (by simp) (by simp) hState).elim
  | queue => exact ⟨h.tunnel, h.state, h.joined⟩
  | finQueued hState => exact (hNot _ (by simp) (by simp) (by simp) hState).elim
  | fin next whole hState =>
      rcases hState with ⟨hState, -⟩ | ⟨hState, -⟩ <;> exact (hNot _ (by simp) (by simp) (by simp) hState).elim
  | establish hState hTunnel hInput =>
      obtain ⟨hdr, data, hSegment, hAck⟩ := hInput
      exact (hStart.joined (hPlays hdr data hSegment hAck).1).elim
  | lastAck hState => exact (hNot _ (by simp) (by simp) (by simp) hState).elim
  | abort => exact ⟨h.tunnel, Or.inr (Or.inl rfl), h.joined⟩
  | connect hdr data count hQuiet hInput hUrg hPort hSent =>
      rw [h.tunnel] at hSent
      cases hSent
  | reply hState => exact (hNot _ (by simp) (by simp) (by simp) hState).elim
  | shutdown next hQueue hState =>
      rcases hState with ⟨hState, -⟩ | ⟨hState, -⟩ <;> exact (hNot _ (by simp) (by simp) (by simp) hState).elim
  | closeSocket hState =>
      have hClosed : ¬ Joined (.close :: c.log) := not_joined_cons rfl h.joined
      exact ⟨h.tunnel, Or.inr (Or.inl hState), hClosed⟩
  | closed => exact ⟨h.tunnel, Or.inr (Or.inr rfl), h.joined⟩

/-- So nothing is passed on. -/
theorem relayed_of_unjoined (h : Unjoined c) {later : List (Kernel × Input)} (hRun : Along step Plays c later) :
    relayed (run step c later).log = relayed c.log := by
  refine (run_invariant (I := fun d => Unjoined d ∧ relayed d.log = relayed c.log) ⟨h, rfl⟩ hRun ?_).2
  rintro d input ⟨hUnjoined, hSame⟩ hPlays
  refine moves_invariant (I := fun e => Unjoined e ∧ relayed e.log = relayed c.log)
    (step_moves d input.1 input.2) ⟨hUnjoined, hSame⟩ fun a b hInv hMove =>
      ⟨hInv.1.move hUnjoined hPlays hMove, (relayed_move hMove fun hOpen => ?_).trans hInv.2⟩
  rcases hInv.1.state with hState | hState | hState <;> simp [hState] at hOpen

/-- Where bytes come that were not there before, the client can receive them. -/
theorem canReceive_of_comes {ws : BitVec 8} (hOpened : Opened arrived c d) (hAnnounced : Announced ws d)
    (hData : data ≠ []) {later : List (Kernel × Input)} (hPlays : Along step Plays d later)
    (hComes : relayed (run step d later).log = relayed c.log ++ data) : CanReceive d := by
  have hSome : relayed (run step d later).log ≠ relayed d.log := by
    rw [hComes, hOpened.relayed]
    simp [hData]
  by_contra hNot
  by_cases hJoined : Joined d.log
  · refine hSome (relayed_of_no_room hAnnounced ?_ later)
    by_contra hRoom
    simp only [not_or, not_forall] at hRoom
    exact hNot ⟨hJoined, (BitVec.pos_iff_ne_zero _).mpr hRoom.1, hAnnounced.scale ▸ hRoom.2⟩
  · exact hSome (relayed_of_unjoined ⟨hOpened.tunnel, Or.inl hOpened.state, hJoined⟩ hPlays)

/-- After the whole head the data comes, and nothing else. -/
theorem handled_of_opened {input : Kernel × Input} (hOpened : Opened head c (step c input))
    (hLife : Lifecycle (step c input)) (hSocket : 0 ≤ (step c input).socket)
    (hReceive : data = [] ∨ CanReceive (step c input)) : Handled head data c input := by
  have hCarrying : Carrying (head ++ data) data c (step c input) := hOpened.carrying
  have hNext : ∀ later, Along step (Streams (head ++ data) c) (step c input) later →
      Relays (head ++ data) data c (run step (step c input) later) := fun later hLater =>
    (run_invariant ⟨hLife, hCarrying⟩ hLater
      fun e input (he : Lifecycle e ∧ Carrying (head ++ data) data c e) hStreams =>
        he.2.step he.1 input hStreams).2.relays
  refine ⟨hOpened.tunnel, by simp [Closed, hOpened.state], hNext, fun later count hLater hHits hEnough => ?_, ?_⟩
  · rcases hReceive with rfl | hReceive
    · obtain ⟨written, hWritten, hPrefix, -⟩ := hNext later hLater
      rw [hWritten, List.prefix_nil.mp hPrefix]
    · exact relayed_of_hits hCarrying hLife hReceive.2.1 hLater hHits hEnough
  · rcases hReceive with rfl | hReceive
    · exact ⟨[], trivial, by simp [hOpened.relayed]⟩
    · exact Waiting.comes _ _ ⟨hLife, hCarrying, Or.inl hOpened.state, hSocket, hReceive⟩ le_rfl

/-- The reply is handled exactly where the first readable event finds all of its head and
nothing more, and what follows it, if anything does, can get to the client. -/
theorem connect_reply_iff (hReachable : Reachable c) (hSocket : 0 ≤ c.socket)
    (hState : c.tcp.state = .listen) (hSent : c.tcp.connectSent = .sent) {ev : EpollEvents}
    (hError : ev.epollerr = false) (hRead : ev.epollin = true) (hHead : ReplyHead head)
    (hServes : Serves (head ++ data) c c K arrived) (hArrived : arrived ≠ []) :
    Handled head data c (K, .event ev) ↔ arrived = head ∧ (data = [] ∨ CanReceive c) := by
  have hNext : arrived <+: head ++ data := by simpa [pending] using hServes.next
  have hEvent := listen_event hSocket hState hSent hError hRead hServes hArrived
  have hAccepts := accepts_iff hHead hNext
  by_cases hLine : 12 ≤ arrived.length
  · have hOpened : Opened arrived c (step c (K, .event ev)) := by
      constructor <;> simp [hEvent, hAccepts.mpr hLine, taken, relayed]
    have hReceives : CanReceive (step c (K, .event ev)) ↔ CanReceive c := by
      simp [hEvent, hAccepts.mpr hLine, CanReceive, Joined, Io.synAcks, Io.resets]
    constructor
    · intro hHandled
      refine ⟨hOpened.whole hNext (hHandled.next [] trivial), or_iff_not_imp_left.mpr fun hData => ?_⟩
      obtain ⟨later, hLater, hComes⟩ := hHandled.comes
      have hAnnounced := hReachable.announced.step (K, .event ev)
      exact hReceives.mp (canReceive_of_comes hOpened hAnnounced hData (hLater.imp fun _ _ h => h.2) hComes)
    · rintro ⟨rfl, hReceive⟩
      have hKept : (step c (K, .event ev)).socket = c.socket := by simp [hEvent, hAccepts.mpr hLine]
      exact handled_of_opened hOpened (hReachable.lifecycle.step _) (hKept ▸ hSocket)
        (hReceive.imp_right hReceives.mpr)
  · refine iff_of_false ?_ ?_
    · intro hHandled
      have hClosed : Closed (step c (K, .event ev)) := by
        rw [hEvent]
        dsimp only
        rw [if_neg (mt hAccepts.mp hLine), Closed, writeRst_state]
        split_ifs <;> simp
      exact hHandled.stays hClosed
    · rintro ⟨rfl, -⟩
      have hLength := (cString_accepts hHead.1).2
      rw [List.length_take] at hLength
      omega

/-- The session on port 443 whose first packet after the handshake had its
CONNECT request taken. -/
def connectingCell : Cell :=
  run step (clientCell 443 .empty)
    [(.willing, .event { epollout := true }), (.willing, .segment (clientSegment 443 1 1001) .empty)]

/-- The head of a reply that accepts the CONNECT. -/
def replyHead : List UInt8 :=
  ascii ['H', 'T', 'T', 'P', '/', '1', '.', '0', ' ', '2', '0', '0', ' ', 'O', 'K',
    '\r', '\n', '\r', '\n']

/-- The head comes in one piece and three bytes of the tunnel follow. -/
theorem connect_reply_iff_whole :
    Handled replyHead [1, 2, 3] connectingCell (.holding replyHead, .event { epollin := true }) :=
  (connect_reply_iff (reachable_client 443 .empty _) (by decide) (by decide) (by decide) rfl rfl
    (by decide) (serves_holding (by decide)) (by decide)).mpr
      ⟨rfl, Or.inr ⟨by decide, by decide, 65535, by decide⟩⟩

/-- The last line of the head comes later. The client gets it with the bytes of
the tunnel. -/
theorem reply_cut : ∃ arrived, arrived ≠ [] ∧
    Serves (replyHead ++ [1, 2, 3]) connectingCell connectingCell (.holding arrived) arrived ∧
      ¬ Handled replyHead [1, 2, 3] connectingCell (.holding arrived, .event { epollin := true }) := by
  refine ⟨replyHead.take 17, by decide, serves_holding (by decide), fun hHandled => ?_⟩
  obtain ⟨written, hWritten, hPrefix, -⟩ := hHandled.next
    [(.holding [], .segment (clientSegment 443 1 1001) .empty),
      (.holding [13, 10, 1, 2, 3], .event { epollin := true })]
    ⟨⟨_, serves_holding List.nil_prefix⟩, ⟨_, serves_holding (by decide)⟩, trivial⟩
  have hGot : written = [13, 10, 1, 2, 3] := hWritten.symm.trans (by decide)
  rw [hGot] at hPrefix
  exact absurd hPrefix (by decide)

end Tun2Http
