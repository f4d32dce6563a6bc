import Tun2Http.Native.TcpEpoll
import Tun2Http.Tcp.Tunnel
import Tun2Http.Tcp.Upstream

/-! The server's data on its way to the client, outside port 443: the tun gets
what the socket gave, in order and numbered by its place in the stream, and no
more than the client's window is unacknowledged. -/
namespace Tun2Http

open Machine Machine.SerialNumber

/-- A packet with data goes to the tun, taken or not. -/
def Io.carriesData : Io → Bool
  | .tun packet _ => packet.payload ≠ []
  | _ => false

/-- How often data was written to the tun. -/
def dataWrites (log : List Io) : Nat := log.countP Io.carriesData

/-- A write to the tun failed. -/
def Refused (log : List Io) : Prop := ∃ packet, .tun packet false ∈ log

/-- Every packet with data is numbered by the bytes before it, and none comes
after a failed write. -/
def DataNumbered (base : U32) (log : List Io) : Prop :=
  ∀ after packet whole before, log = after ++ .tun packet whole :: before → packet.payload ≠ [] →
    packet.seq = base + 1 + BitVec.ofNat 32 (relayed before).length ∧ ¬ Refused before

/-- The tun has the bytes of the socket in order, up to a failed write. -/
structure DataInOrder (c : Cell) : Prop where
  order : relayed c.log <+: taken c.log
  complete : ¬ Refused c.log → relayed c.log = taken c.log
  numbered : DataNumbered c.tcp.localStart c.log

/-- Where data was written, what is not acknowledged fits the window. -/
def WindowKept (c d : Cell) : Prop :=
  dataWrites c.log < dataWrites d.log → d.tcp.localSeq - d.tcp.acked ≤ d.tcp.sendWindow

/-- `acked` does not come after `localSeq`, as far as `get_send_window` is
concerned: a number from `2^30` on is as good as a closed window. -/
def Behind (acked localSeq : U32) : Prop :=
  compareU32 acked localSeq ≤ 0 ∨ 2 ^ 30 ≤ acked.toNat

/-- What holds of a session between two steps. -/
structure Downloading (c : Cell) : Prop where
  port : c.tcp.dest ≠ 443
  scale : c.tcp.sendScale.toNat ≤ 14
  window : c.tcp.sendWindow.toNat < 2 ^ 30
  sound : DataInOrder c
  listen : c.tcp.state = .listen → c.tcp.localSeq = c.tcp.localStart ∧
    (registered c.log).epollin = false
  handshake : c.tcp.state = .synRecv → c.tcp.localSeq = c.tcp.localStart + 1
  empty : c.tcp.state = .listen ∨ c.tcp.state = .synRecv → taken c.log = [] ∧ ¬ Refused c.log
  flowing : c.tcp.state = .established ∨ c.tcp.state = .closeWait →
    c.tcp.localSeq = c.tcp.localStart + 1 + BitVec.ofNat 32 (relayed c.log).length ∧
      Behind c.tcp.acked c.tcp.localSeq ∧ ¬ Refused c.log

/-- Entries that move none of the server's data, and leave the mask. -/
def Io.idle : Io → Prop
  | .tun packet _ => packet.payload = []
  | .recv (.data bytes) => bytes = []
  | .drain _ | .epollMod _ _ => False
  | _ => True

/-- From `c` to `d` no data moves, and the session stays what it should be. -/
structure Pauses (c d : Cell) : Prop where
  calls : Calls Io.idle c d
  keeps : Downloading c → Downloading d

/-- What fits the window that `get_send_window` finds fits the client's. -/
theorem behind_advance {t : TcpSession} {count : Nat} (hWindow : t.sendWindow.toNat < 2 ^ 30)
    (hBehind : Behind t.acked t.localSeq) (hOpen : 0 < getSendWindow t)
    (hCount : count ≤ (getSendWindow t).toNat) :
    t.localSeq + BitVec.ofNat 32 count - t.acked ≤ t.sendWindow ∧
      Behind t.acked (t.localSeq + BitVec.ofNat 32 count) := by
  unfold getSendWindow at hOpen hCount
  dsimp only at hOpen hCount
  have hOrder : compareU32 t.acked t.localSeq ≤ 0 := by
    by_contra hAfter
    have hFar := hBehind.resolve_left hAfter
    rw [if_neg hAfter, if_neg (by bv_omega)] at hOpen
    exact absurd hOpen (by simp)
  rw [if_pos hOrder] at hOpen hCount
  have hRoom : t.localSeq - t.acked < t.sendWindow := by
    by_contra hFull
    rw [if_neg hFull] at hOpen
    exact absurd hOpen (by simp)
  rw [if_pos hRoom] at hCount
  have hFits : (t.localSeq + BitVec.ofNat 32 count - t.acked).toNat ≤ t.sendWindow.toNat := by
    bv_omega
  refine ⟨hFits, ?_⟩
  by_cases hFar : 2 ^ 30 ≤ t.acked.toNat
  · exact Or.inr hFar
  · -- below the cut the signed order is that of the distances
    left
    rw [compareU32_nonpos_iff, toInt_lt_iff, ← ahead_eq_zero_iff (x := t.acked)]
    unfold ahead
    bv_omega

theorem Io.repeats.idle {seq : U32} {entry : Io} (h : entry.repeats seq) : entry.idle := by
  cases entry <;> simp_all [Io.repeats, Io.idle]

variable {K : Kernel} {i : Input} {c d e : Cell}

/-- Idle calls change neither what was read nor what was written. -/
theorem idle_logs (h : Calls Io.idle c d) : relayed d.log = relayed c.log ∧
    taken d.log = taken c.log ∧ dataWrites d.log = dataWrites c.log ∧
      registered d.log = registered c.log := by
  refine ⟨?_, ?_, ?_, ?_⟩
  · exact h.log_eq relayed fun entry log hEntry => by
      cases entry <;> simp_all [Io.idle, relayed, relayed_tun]
  · apply h.log_eq taken
    intro entry log hEntry
    cases entry with
    | recv result => cases result <;> simp_all [Io.idle, taken]
    | drain bytes => cases hEntry
    | _ => rfl
  · exact h.log_eq dataWrites fun entry log hEntry => by
      cases entry <;> simp_all [Io.idle, dataWrites, Io.carriesData]
  · exact h.log_eq registered fun entry log hEntry =>
      registered_cons log fun events ok hMod => by simp [hMod, Io.idle] at hEntry

/-- One more entry is numbered as it must be where it carries data. -/
theorem DataNumbered.cons {base : U32} {log : List Io} (h : DataNumbered base log) {entry : Io}
    (hEntry : ∀ packet whole, entry = .tun packet whole → packet.payload ≠ [] →
      packet.seq = base + 1 + BitVec.ofNat 32 (relayed log).length ∧ ¬ Refused log) :
    DataNumbered base (entry :: log) := by
  intro after packet whole before hSplit hData
  cases after with
  | nil =>
      obtain ⟨rfl, rfl⟩ := List.cons.inj hSplit
      exact hEntry packet whole rfl hData
  | cons other after =>
      obtain ⟨-, rfl⟩ := List.cons.inj hSplit
      exact h after packet whole before rfl hData

theorem DataNumbered.idle {base : U32} (h : DataNumbered base c.log) (hCalls : Calls Io.idle c d) :
    DataNumbered base d.log := by
  obtain ⟨calls, hIdle, hLog⟩ := hCalls
  rw [hLog]
  clear hLog
  induction calls with
  | nil => exact h
  | cons entry rest ih =>
      apply (ih fun e he => hIdle e (List.mem_cons_of_mem _ he)).cons
      rintro packet whole rfl hData
      exact absurd (hIdle _ (List.mem_cons_self ..)) hData

/-- Idle calls keep the order, whatever becomes of the session. -/
theorem DataInOrder.idle (h : DataInOrder c) (hStart : d.tcp.localStart = c.tcp.localStart)
    (hCalls : Calls Io.idle c d) : DataInOrder d := by
  obtain ⟨hRelayed, hTaken, -, -⟩ := idle_logs hCalls
  refine ⟨?_, fun hNone => ?_, ?_⟩
  · rw [hRelayed, hTaken]
    exact h.order
  · rw [hRelayed, hTaken]
    apply h.complete
    rintro ⟨packet, hMem⟩
    obtain ⟨calls, -, hLog⟩ := hCalls
    exact hNone ⟨packet, hLog ▸ List.mem_append_right _ hMem⟩
  · rw [hStart]
    exact h.numbered.idle hCalls

/-- Nothing was refused where nothing was refused before and the calls were taken whole. -/
theorem not_refused (h : ¬ Refused c.log) (hWhole : Calls Io.whole c d) : ¬ Refused d.log := by
  obtain ⟨calls, hCalls, hLog⟩ := hWhole
  rintro ⟨packet, hMem⟩
  rw [hLog] at hMem
  rcases List.mem_append.mp hMem with hNew | hOld
  · exact absurd (hCalls _ hNew) (by simp [Io.whole])
  · exact h ⟨packet, hOld⟩

/-- Where the numbers stay, and the state stays or the session is given up. -/
theorem Downloading.same (h : Downloading c) (hDest : d.tcp.dest = c.tcp.dest)
    (hScale : d.tcp.sendScale = c.tcp.sendScale) (hStart : d.tcp.localStart = c.tcp.localStart)
    (hLocal : d.tcp.localSeq = c.tcp.localSeq) (hAcked : d.tcp.acked = c.tcp.acked)
    (hWindow : d.tcp.sendWindow.toNat < 2 ^ 30) (hCalls : Calls Io.idle c d)
    (hState : d.tcp.state = c.tcp.state ∨ Closed d) (hWhole : ¬ Closed d → Calls Io.whole c d) :
    Downloading d := by
  obtain ⟨hRelayed, hTaken, -, hMask⟩ := idle_logs hCalls
  have hSame : ∀ state, state ≠ .closing → state ≠ .close → d.tcp.state = state →
      c.tcp.state = state ∧ (¬ Refused c.log → ¬ Refused d.log) := by
    intro state hClosing hClose hNow
    have hOpen : ¬ Closed d := by simp [Closed, hNow, hClosing, hClose]
    exact ⟨(hState.resolve_right hOpen).symm.trans hNow, fun hNone => not_refused hNone (hWhole hOpen)⟩
  refine ⟨hDest ▸ h.port, hScale ▸ h.scale, hWindow, h.sound.idle hStart hCalls, fun hNow => ?_,
    fun hNow => ?_, fun hNow => ?_, fun hNow => ?_⟩
  · rw [hLocal, hStart, hMask]
    exact h.listen (hSame _ (by simp) (by simp) hNow).1
  · rw [hLocal, hStart]
    exact h.handshake (hSame _ (by simp) (by simp) hNow).1
  · rw [hTaken]
    rcases hNow with hNow | hNow
    · obtain ⟨hBefore, hNone⟩ := hSame _ (by simp) (by simp) hNow
      exact (h.empty (Or.inl hBefore)).imp_right hNone
    · obtain ⟨hBefore, hNone⟩ := hSame _ (by simp) (by simp) hNow
      exact (h.empty (Or.inr hBefore)).imp_right hNone
  · rw [hLocal, hStart, hAcked, hRelayed]
    rcases hNow with hNow | hNow
    · obtain ⟨hBefore, hNone⟩ := hSame _ (by simp) (by simp) hNow
      exact (h.flowing (Or.inl hBefore)).imp_right fun hBoth => hBoth.imp_right hNone
    · obtain ⟨hBefore, hNone⟩ := hSame _ (by simp) (by simp) hNow
      exact (h.flowing (Or.inr hBefore)).imp_right fun hBoth => hBoth.imp_right hNone

/-- A session that is given up has no more data to order. -/
theorem Downloading.given_up (h : Downloading c) (hDest : d.tcp.dest = c.tcp.dest)
    (hScale : d.tcp.sendScale = c.tcp.sendScale) (hStart : d.tcp.localStart = c.tcp.localStart)
    (hWindow : d.tcp.sendWindow = c.tcp.sendWindow) (hCalls : Calls Io.idle c d)
    (hState : ¬ (d.tcp.state = .listen ∨ d.tcp.state = .synRecv ∨ d.tcp.state = .established ∨
      d.tcp.state = .closeWait)) : Downloading d := by
  simp only [not_or] at hState
  obtain ⟨hListen, hSyn, hOpen, hWait⟩ := hState
  exact ⟨hDest ▸ h.port, hScale ▸ h.scale, hWindow ▸ h.window, h.sound.idle hStart hCalls,
    fun h => absurd h hListen, fun h => absurd h hSyn, fun h => absurd h (by simp [hListen, hSyn]),
    fun h => absurd h (by simp [hOpen, hWait])⟩

namespace Pauses

theorem refl (c : Cell) : Pauses c c := ⟨.of_log_eq rfl, id⟩

theorem trans (hFirst : Pauses c d) (hSecond : Pauses d e) : Pauses c e :=
  ⟨hFirst.calls.trans hSecond.calls, fun h => hSecond.keeps (hFirst.keeps h)⟩

theorem frame {seq : U32} (h : Frame seq c d) : Pauses c d := by
  have hIdle : Calls Io.idle c d := h.calls.mono fun _ => Io.repeats.idle
  exact ⟨hIdle, fun hDown => hDown.same h.dest h.sendScale h.localStart h.localSeq h.acked
    (h.sendWindow ▸ hDown.window) hIdle h.state h.whole⟩

/-- Only fields that no number depends on have changed. -/
theorem of_tcp (hTcp : d.tcp = { c.tcp with
      time := d.tcp.time, remoteSeq := d.tcp.remoteSeq, sent := d.tcp.sent, forward := d.tcp.forward })
    (hCalls : Calls Io.idle c d) (hWhole : Calls Io.whole c d) : Pauses c d := by
  refine ⟨hCalls, fun h => h.same ?_ ?_ ?_ ?_ ?_ ?_ hCalls ?_ fun _ => hWhole⟩
  · rw [hTcp]
  · rw [hTcp]
  · rw [hTcp]
  · rw [hTcp]
  · rw [hTcp]
  · rw [hTcp]
    exact h.window
  · rw [hTcp]
    exact Or.inl rfl

theorem setForward (c : Cell) (queue : List Segment) : Pauses c (c.setForward queue) :=
  of_tcp rfl (.of_log_eq rfl) (.of_log_eq rfl)

theorem countFin (c : Cell) : Pauses c c.countFin :=
  of_tcp rfl (.one .countFin trivial rfl) (.one .countFin trivial rfl)

theorem countSyn (c : Cell) : Pauses c c.countSyn :=
  of_tcp rfl (.one .countSyn trivial rfl) (.one .countSyn trivial rfl)

theorem queueTcp (hdr : TcpHdr) (data : Payload) (c : Cell) : Pauses c (queueTcp hdr data c) := by
  unfold Tun2Http.queueTcp
  split_ifs
  · exact refl c
  · exact setForward c _

/-- A packet without data, which gives the session up where it is not taken. -/
theorem afterWrite {packet : TcpPacket} (whole : Bool) (hPayload : packet.payload = []) :
    Pauses c (afterWrite c packet whole) := by
  cases whole with
  | false =>
      have hCalls : Calls Io.idle c (Tun2Http.afterWrite c packet false) :=
        .one (.tun packet false) hPayload rfl
      exact ⟨hCalls, fun h => h.given_up rfl rfl rfl rfl hCalls (by simp [Tun2Http.afterWrite])⟩
  | true => exact of_tcp rfl (.one (.tun packet true) hPayload rfl) (.one (.tun packet true) rfl rfl)

theorem writeRst (K : Kernel) (c : Cell) : Pauses c (writeRst K c) := by
  by_cases hState : c.tcp.state = .listen
  · have hIdle : Calls Io.idle c (Tun2Http.writeRst K c) := by
      rw [writeRst_of_listen K c hState]
      exact ⟨[.tun _ _, .countSyn], by simp [Io.idle, buildTcp], rfl⟩
    refine ⟨hIdle, fun h => ?_⟩
    apply h.given_up _ _ _ _ hIdle
    · rw [writeRst_state]
      simp [hState]
    all_goals rw [writeRst_of_listen K c hState]; rfl
  · exact frame (frame_writeRst K 0 hState)

end Pauses

/-- The FIN of the client is counted, and an open session waits for its own. -/
theorem pauses_handleFin (K : Kernel) (c : Cell) : Pauses c (handleFin K c) := by
  have hWrite : Pauses c (writeAck K c.countFin).1 :=
    (Pauses.countFin c).trans (.frame (frame_writeOrClose K c.countFin false))
  unfold handleFin
  split
  · rename_i hState
    have hWait : ∀ d, d.tcp.state = .established → Pauses d (d.setState .closeWait) := by
      intro d hOpen
      refine ⟨.of_log_eq rfl, fun h => ?_⟩
      exact ⟨h.port, h.scale, h.window, h.sound.idle rfl (.of_log_eq rfl), by simp, by simp,
        by simp, fun _ => h.flowing (Or.inl hOpen)⟩
    dsimp only
    split_ifs with hQueue hWhole
    · refine hWrite.trans (hWait _ ?_)
      simp only [writeAck, writeOrClose_eq] at hWhole ⊢
      rw [afterWrite_tcp, if_pos hWhole]
      exact hState
    · exact hWrite
    · exact hWait c hState
  · dsimp only
    split_ifs
    · exact hWrite.trans (.frame (frame_setState (Or.inr rfl) 0 _))
    · exact hWrite
  · exact .refl c

/-- A number is stored that the window can be measured from. -/
theorem pauses_setAcked {acked : U32} (hBehind : Behind acked c.tcp.localSeq) :
    Pauses c { c with tcp := { c.tcp with acked := acked } } :=
  ⟨.of_log_eq rfl, fun h => ⟨h.port, h.scale, h.window, h.sound.idle rfl (.of_log_eq rfl), h.listen,
    h.handshake, h.empty, fun hState =>
      ⟨(h.flowing hState).1, hBehind, (h.flowing hState).2.2⟩⟩⟩

/-- Nothing was relayed before the handshake is over. -/
theorem pauses_establish (hState : c.tcp.state = .synRecv)
    (hBehind : Behind c.tcp.acked c.tcp.localSeq) : Pauses c (c.setState .established) := by
  refine ⟨.of_log_eq rfl, fun h => ?_⟩
  obtain ⟨hTaken, hNone⟩ := h.empty (Or.inr hState)
  have hRelayed : relayed c.log = [] := by
    have hOrder := h.sound.order
    rw [hTaken] at hOrder
    exact List.prefix_nil.mp hOrder
  refine ⟨h.port, h.scale, h.window, h.sound.idle rfl (.of_log_eq rfl), by simp, by simp, by simp,
    fun _ => ⟨?_, hBehind, hNone⟩⟩
  rw [Cell.setState_tcp, Cell.setState_log, hRelayed]
  simpa using h.handshake hState

/-- Everything sent is acknowledged, which opens a session after its handshake. -/
theorem pauses_handleAck (c : Cell) : Pauses c (handleAck c.tcp.localSeq c) := by
  have hBehind : Behind c.tcp.localSeq c.tcp.localSeq := Or.inl (by simp)
  have hAcked := pauses_setAcked hBehind
  unfold handleAck
  dsimp only
  split
  · rename_i hState
    exact hAcked.trans (pauses_establish hState hBehind)
  · exact hAcked.trans (.frame (frame_setState (Or.inl rfl) 0 _))
  · exact hAcked

theorem pauses_handleFlags (K : Kernel) (hdr : TcpHdr) (c : Cell) :
    Pauses c (handleFlags K hdr c) := by
  have hOther : Pauses c (handleOtherAck K hdr.ackSeq c) := by
    apply handleOtherAck_keeps (.refl c)
    · exact .of_tcp rfl (.one .keepAlive trivial rfl) (.one .keepAlive trivial rfl)
    · exact fun hPast => pauses_setAcked (Or.inl hPast.le)
    · exact .writeRst K c
  apply handleFlags_keeps (.refl c)
  · exact .frame (frame_setState (Or.inl rfl) 0 c)
  · exact pauses_handleFin K c
  · intro _ hExact
    rw [hExact]
    exact pauses_handleAck c
  · exact hOther

/-- The window of a segment is below `2^16`, and shifted by at most 14. -/
theorem shifted_lt (window : U16) {scale : Nat} (hScale : scale ≤ 14) :
    ((window.setWidth 32 : U32) <<< scale).toNat < 2 ^ 30 := by
  have hWindow := window.isLt
  have hPower : 2 ^ scale ≤ 2 ^ 14 := Nat.pow_le_pow_right (by decide) hScale
  rw [toNat_shifted window hScale]
  calc window.toNat * 2 ^ scale
      ≤ window.toNat * 2 ^ 14 := Nat.mul_le_mul_left _ hPower
    _ < 2 ^ 30 := by omega

theorem pauses_refresh (K : Kernel) (hdr : TcpHdr) (c : Cell) : Pauses c (refresh K hdr c) := by
  have hCalls : Calls Io.idle c (refresh K hdr c) := .one (.time (K.time c.calls)) trivial rfl
  have hWhole : Calls Io.whole c (refresh K hdr c) := .one (.time (K.time c.calls)) trivial rfl
  exact ⟨hCalls, fun h => h.same rfl rfl rfl rfl rfl (shifted_lt hdr.window h.scale) hCalls
    (Or.inl rfl) fun _ => hWhole⟩

theorem pauses_segment (K : Kernel) (hdr : TcpHdr) (data : Payload) (hPort : c.tcp.dest ≠ 443) :
    Pauses c (existingSession K c.tcp.dest hdr data c) := by
  unfold existingSession
  rw [if_neg hPort]
  split_ifs
  · exact .refl c
  · apply tunnelSegment_keeps (P := Pauses c) (.refl c) (pauses_refresh K hdr c)
    · exact fun d h => h.trans (.queueTcp hdr data d)
    · exact fun d h => h.trans (.writeRst K d)
    · exact fun d h => h.trans (pauses_handleFlags K hdr d)

/-- A change of the mask, which in `TCP_LISTEN` does not ask for data. -/
theorem Downloading.epollMod (h : Downloading c) {events : EpollEvents}
    (hListen : c.tcp.state = .listen → events.epollin = false) (ok : Bool) :
    Downloading ({ c with events := events }.call (.epollMod events ok)) := by
  have hRefused : ∀ log, Refused (.epollMod events ok :: log) ↔ Refused log := by simp [Refused]
  refine ⟨h.port, h.scale, h.window, ⟨h.sound.order, fun hNone => ?_, ?_⟩, fun hState => ?_,
    h.handshake, fun hState => ?_, fun hState => ?_⟩
  · exact h.sound.complete (mt (hRefused c.log).mpr hNone)
  · exact h.sound.numbered.cons fun packet whole hEntry => by cases hEntry
  · refine ⟨(h.listen hState).1, ?_⟩
    cases ok with
    | true => exact hListen hState
    | false => exact (h.listen hState).2
  · exact (h.empty hState).imp_right (mt (hRefused c.log).mp)
  · exact (h.flowing hState).imp_right fun hBoth => hBoth.imp_right (mt (hRefused c.log).mp)

/-- The monitor never asks for data in `TCP_LISTEN`. -/
theorem downloading_monitor (h : Downloading c) (K : Kernel) :
    Downloading (step c (K, .monitor)) ∧
      dataWrites (step c (K, .monitor)).log = dataWrites c.log := by
  unfold step
  dsimp only
  by_cases hSocket : 0 ≤ c.socket
  · rw [if_pos hSocket]
    have hFrame := frame_wantedEvents K c
    have hPauses := Pauses.frame hFrame
    have hWanted := hPauses.keeps h
    have hWrites := (idle_logs hPauses.calls).2.2.1
    have hListen : (wantedEvents K c).1.tcp.state = .listen → (wantedEvents K c).2.1.epollin = false := by
      intro hState
      have hSame : c.tcp.state = .listen := by
        rcases hFrame.state with hSame | hClosed | hClosed
        · rwa [← hSame]
        · simp [hClosed] at hState
        · simp [hClosed] at hState
      have hPort : ¬ (c.tcp.connectSent = .sent ∧ c.tcp.dest = 443) := fun hBoth => h.port hBoth.2
      unfold wantedEvents
      rw [if_pos hSame, if_neg hPort]
    unfold monitorTcpSession
    dsimp only
    by_cases hChange : (wantedEvents K c).2.1 ≠ (wantedEvents K c).1.events
    · simp only [if_pos hChange]
      have hMod := hWanted.epollMod hListen
      cases K.epollCtl (wantedEvents K c).1.calls with
      | true => exact ⟨hMod true, by simpa [dataWrites, Io.carriesData] using hWrites⟩
      | false =>
          exact ⟨(Pauses.frame (frame_setState (Or.inl rfl) 0 _)).keeps (hMod false),
            by simpa [dataWrites, Io.carriesData] using hWrites⟩
    · simp only [if_neg hChange]
      exact ⟨hWanted, hWrites⟩
  · rw [if_neg hSocket]
    exact ⟨h, rfl⟩

/-! The socket. -/

theorem pauses_forwardData (K : Kernel) (c : Cell) : Pauses c (forwardData K c).1 := by
  apply forwardLoop_keeps _ _ _ _ (Pauses.frame (frame_getReceiveBuffer K 0 c))
  intro seg queue d h
  have hTurn : Pauses d ((sentOn K seg d).setForward queue) :=
    .of_tcp rfl (.one (.send (forwardRequest K d seg) (sendAnswer K seg d)) trivial rfl)
      (.one (.send (forwardRequest K d seg) (sendAnswer K seg d)) trivial rfl)
  exact h.trans hTurn

theorem pauses_acknowledge (K : Kernel) (fwd : Bool) (c : Cell) : Pauses c (acknowledge K fwd c) := by
  have hConfirm : Pauses c (confirmFin fwd c) := by
    unfold confirmFin
    split_ifs
    · exact .countFin c
    · exact .refl c
  have hWrite := hConfirm.trans (.frame (frame_writeOrClose K (confirmFin fwd c) false))
  rw [acknowledge_eq]
  dsimp only
  split_ifs
  · exact hWrite.trans (.frame (frame_touch K 0 _))
  · exact hWrite

/-- The end of the server's stream ends the data. -/
theorem pauses_socketEof (hState : c.tcp.state = .established ∨ c.tcp.state = .closeWait) :
    Pauses c (socketEof K c) := by
  unfold socketEof
  split_ifs with hQueue
  · simp only [writeFinAck, writeOrClose_eq]
    generalize K.tunWrite c.calls = whole
    set packet := buildTcp c.tcp [] false true true false
    have hDone : ∀ d : Cell, d.tcp = { c.tcp with localSeq := d.tcp.localSeq, state := d.tcp.state } →
        d.log = .tun packet whole :: c.log →
        (d.tcp.state = .closing ∨ d.tcp.state = .finWait1 ∨ d.tcp.state = .lastAck) →
        Pauses c (closeSocket d) := by
      intro d hTcp hLog hGone
      have hCalls : Calls Io.idle c (closeSocket d) :=
        ⟨[.close, .tun packet whole], by simp [Io.idle, packet, buildTcp], by simp [closeSocket, hLog]⟩
      refine ⟨hCalls, fun h => h.given_up ?_ ?_ ?_ ?_ hCalls ?_⟩
      · show d.tcp.dest = c.tcp.dest
        rw [hTcp]
      · show d.tcp.sendScale = c.tcp.sendScale
        rw [hTcp]
      · show d.tcp.localStart = c.tcp.localStart
        rw [hTcp]
      · show d.tcp.sendWindow = c.tcp.sendWindow
        rw [hTcp]
      · show ¬ (d.tcp.state = .listen ∨ d.tcp.state = .synRecv ∨ d.tcp.state = .established ∨
          d.tcp.state = .closeWait)
        rcases hGone with hGone | hGone | hGone <;> simp [hGone]
    cases whole with
    | false => exact hDone (afterWrite c packet false) rfl rfl (Or.inl rfl)
    | true =>
        have hSame : ((afterWrite c packet true).advanceLocal 1).tcp.state = c.tcp.state := rfl
        simp only [if_true]
        rw [hSame]
        rcases hState with hState | hState <;> rw [hState]
        · exact hDone _ rfl rfl (Or.inr (Or.inl rfl))
        · exact hDone _ rfl rfl (Or.inr (Or.inr rfl))
  · exact (Pauses.writeRst K c).trans (.frame (frame_closeSocket 0 _))

/-- What is read within the window is written within the window. -/
theorem downloading_relay (h : Downloading c)
    (hState : c.tcp.state = .established ∨ c.tcp.state = .closeWait)
    (hOpen : 0 < getSendWindow c.tcp) {bytes : List UInt8}
    (hCount : bytes.length ≤ (getSendWindow c.tcp).toNat) :
    let d := relay K bytes (c.call (.recv (.data bytes)))
    Downloading d ∧ WindowKept c d := by
  obtain ⟨hLocal, hBehind, hNone⟩ := h.flowing hState
  have hWhole : relayed c.log = taken c.log := h.sound.complete hNone
  have hStays : c.tcp.localSeq - c.tcp.acked ≤ c.tcp.sendWindow := by
    simpa using (behind_advance h.window hBehind hOpen (Nat.zero_le _)).1
  have hMoves := behind_advance h.window hBehind hOpen hCount
  have hRead : ¬ Refused (.recv (.data bytes) :: c.log) := by simpa [Refused] using hNone
  have hNumbered : ∀ whole, DataNumbered c.tcp.localStart
      (.tun (buildTcp c.tcp bytes false true false false) whole :: .recv (.data bytes) :: c.log) := by
    intro whole
    apply DataNumbered.cons
    · exact h.sound.numbered.cons fun packet whole hEntry => by cases hEntry
    · intro packet other hEntry hData
      cases hEntry
      exact ⟨hLocal, hRead⟩
  simp only [relay, writeData, writeOrClose_eq]
  generalize K.tunWrite _ = whole
  cases whole with
  | false =>
      refine ⟨⟨h.port, h.scale, h.window, ⟨?_, fun hOk => ?_, hNumbered false⟩, by simp [afterWrite],
        by simp [afterWrite], by simp [afterWrite], by simp [afterWrite]⟩, fun _ => ?_⟩
      · exact h.sound.order.trans (List.prefix_append _ _)
      · exact absurd ⟨_, List.mem_cons_self ..⟩ hOk
      · exact hStays
  | true =>
      have hTaken : ¬ Refused (.tun (buildTcp c.tcp bytes false true false false) true ::
          .recv (.data bytes) :: c.log) := by simpa [Refused] using hNone
      have hOther : ∀ state : TcpState, state ≠ .established → state ≠ .closeWait →
          c.tcp.state ≠ state := by
        rintro state hNot hNot' rfl
        exact hState.elim hNot hNot'
      refine ⟨⟨h.port, h.scale, h.window, ⟨?_, fun _ => ?_, hNumbered true⟩, fun hListen => ?_,
        fun hSyn => ?_, fun hEmpty => ?_, fun _ => ⟨?_, hMoves.2, hTaken⟩⟩, fun _ => hMoves.1⟩
      · show relayed c.log ++ bytes <+: taken c.log ++ bytes
        rw [hWhole]
      · show relayed c.log ++ bytes = taken c.log ++ bytes
        rw [hWhole]
      · exact absurd hListen (hOther _ (by simp) (by simp))
      · exact absurd hSyn (hOther _ (by simp) (by simp))
      · exact hEmpty.elim (fun hListen => absurd hListen (hOther _ (by simp) (by simp)))
          fun hSyn => absurd hSyn (hOther _ (by simp) (by simp))
      · show c.tcp.localSeq + BitVec.ofNat 32 bytes.length =
          c.tcp.localStart + 1 + BitVec.ofNat 32 (relayed c.log ++ bytes).length
        rw [hLocal, List.length_append, add_ofNat_add]

theorem readSize_le (t : TcpSession) : readSize t ≤ (getSendWindow t).toNat := by
  unfold readSize
  dsimp only
  split_ifs with hLess
  · exact hLess.le
  · exact le_rfl

/-- No more is read than was asked for. -/
theorem length_recvFrom {size : Nat} {bytes : List UInt8}
    (h : (recvFrom K c size).2 = .data bytes) : bytes.length ≤ size := by
  unfold recvFrom at h
  dsimp only at h
  cases hRecv : K.recv c.calls with
  | error errno =>
      rw [hRecv] at h
      cases h
  | data arrived =>
      rw [hRecv] at h
      cases h
      exact List.length_take_le ..

theorem downloading_socketRead (h : Downloading c)
    (hState : c.tcp.state = .established ∨ c.tcp.state = .closeWait) (ev : EpollEvents) :
    Downloading (socketRead K ev c) ∧ WindowKept c (socketRead K ev c) := by
  have hStill : ∀ {d}, Pauses c d → Downloading d ∧ WindowKept c d := fun hPauses =>
    ⟨hPauses.keeps h, fun hMore => absurd (idle_logs hPauses.calls).2.2.1 (ne_of_gt hMore)⟩
  unfold socketRead
  split_ifs with hRead
  · have hTouch : Pauses c (touch K c) := .frame (frame_touch K 0 c)
    have hRecv : (recvFrom K (touch K c) (readSize c.tcp)).1 =
        (touch K c).call (.recv (recvFrom K (touch K c) (readSize c.tcp)).2) := rfl
    have hSize : ∀ {bytes}, (recvFrom K (touch K c) (readSize c.tcp)).2 = .data bytes →
        bytes.length ≤ readSize c.tcp := length_recvFrom
    dsimp only
    rw [hRecv]
    generalize (recvFrom K (touch K c) (readSize c.tcp)).2 = result at hSize
    have hCall : Io.idle (.recv result) → Pauses c ((touch K c).call (.recv result)) := fun hIdle =>
      hTouch.trans (.of_tcp rfl (.one (.recv result) hIdle rfl) (.one (.recv result) trivial rfl))
    unfold socketReceived
    split
    · split_ifs
      · exact hStill ((hCall trivial).trans (.writeRst K _))
      · exact hStill (hCall trivial)
    · exact hStill ((hCall rfl).trans (pauses_socketEof hState))
    · exact downloading_relay (hTouch.keeps h) hState hRead.2 ((hSize rfl).trans (readSize_le _))
  · exact hStill (.refl c)

/-- Outside `TCP_LISTEN` data moves only while the session is open. -/
theorem downloading_socketReady (h : Downloading c) (ev : EpollEvents) :
    Downloading (socketReady K ev c) ∧ WindowKept c (socketReady K ev c) := by
  have hPauses : Pauses c (beforeRead K ev c) := by
    apply beforeRead_keeps (P := Pauses c) (.refl c)
    · exact pauses_forwardData K c
    · exact fun d h => h.trans (.frame (frame_storeWindow K 0 d))
    · exact fun fwd d h => h.trans (pauses_acknowledge K fwd d)
  have hSame := (idle_logs hPauses.calls).2.2.1
  rw [socketReady_eq]
  split_ifs with hOpen
  · have hBoth := downloading_socketRead (K := K) (hPauses.keeps h) hOpen ev
    exact ⟨hBoth.1, fun hMore => hBoth.2 (hSame.trans_lt hMore)⟩
  · exact ⟨hPauses.keeps h, fun hMore => absurd hSame (ne_of_gt hMore)⟩

/-- The connected socket answers the SYN. -/
theorem pauses_socketListen (h : Downloading c) (hState : c.tcp.state = .listen)
    {ev : EpollEvents} (hWithin : ev.Within (registered c.log)) : Pauses c (socketListen K ev c) := by
  have hRead : ¬ ev.epollin = true := fun hIn => by
    have hMask := hWithin.1 hIn
    rw [(h.listen hState).2] at hMask
    cases hMask
  have hWrite : Pauses c (afterWrite c.countSyn (buildTcp c.countSyn.tcp [] true true false false)
      (K.tunWrite c.countSyn.calls)) := (Pauses.countSyn c).trans (.afterWrite _ rfl)
  unfold socketListen
  rw [if_neg hRead]
  simp only [writeSynAck, writeOrClose_eq]
  cases hWhole : K.tunWrite c.countSyn.calls with
  | false => rwa [hWhole] at hWrite
  | true =>
      rw [hWhole] at hWrite
      have hTouch := hWrite.trans (.frame (frame_touch K 0 _))
      have hListen := hTouch.keeps h
      simp only [if_true]
      refine ⟨hTouch.calls, fun _ => ⟨hListen.port, hListen.scale, hListen.window,
        hListen.sound.idle rfl (.of_log_eq rfl), by simp, fun _ => ?_, fun _ => ?_, by simp⟩⟩
      · exact congrArg (· + BitVec.ofNat 32 1) (hListen.listen hState).1
      · exact hListen.empty (Or.inl hState)

/-- Every step keeps the order and the window. -/
theorem downloading_step (h : Downloading c) {input : Kernel × Input} (hMasked : Masked c input) :
    Downloading (step c input) ∧ WindowKept c (step c input) := by
  have hStill : ∀ {d}, Pauses c d → Downloading d ∧ WindowKept c d := fun hPauses =>
    ⟨hPauses.keeps h, fun hMore => absurd (idle_logs hPauses.calls).2.2.1 (ne_of_gt hMore)⟩
  obtain ⟨K, i⟩ := input
  cases i with
  | segment hdr data => exact hStill (pauses_segment K hdr data h.port)
  | monitor =>
      obtain ⟨hDown, hSame⟩ := downloading_monitor h K
      exact ⟨hDown, fun hMore => absurd hSame (ne_of_gt hMore)⟩
  | check sessions maxsessions => exact hStill (.frame (frame_checkTcpSession K 0 _ _ c))
  | allowed => exact hStill (checkAllowed_keeps (.refl c) (.writeRst K c))
  | event ev =>
      unfold step checkTcpSocket
      dsimp only
      split_ifs with hSocket hError hState
      · exact hStill ((Pauses.frame (frame_touch K 0 c)).trans (.writeRst K _))
      · exact hStill (pauses_socketListen h hState (hMasked ev rfl))
      · exact downloading_socketReady h ev
      · exact hStill (.refl c)

/-- A new session has neither read nor written. -/
theorem downloading_newSession {info : SynInfo} {hdr : TcpHdr} {data : Payload}
    (hNew : newSession K info hdr data = some c) (hPort : hdr.dest ≠ 443)
    (hScale : info.ws.toNat ≤ 14) : Downloading c := by
  obtain ⟨-, hLog, window, hTcp⟩ := newSession_eq hNew
  have hNone : ¬ Refused c.log := by simp [Refused, hLog]
  have hState : c.tcp.state = .listen := by rw [hTcp]; rfl
  constructor
  · rw [hTcp]
    exact hPort
  · rw [hTcp]
    exact hScale
  · rw [hTcp]
    exact shifted_lt hdr.window hScale
  · refine ⟨?_, fun _ => ?_, ?_⟩
    · rw [hLog]
      exact List.prefix_rfl
    · rw [hLog]
      rfl
    · intro after packet whole before hSplit
      have hMem : Io.tun packet whole ∈ c.log := by simp [hSplit]
      simp [hLog] at hMem
  · refine fun _ => ⟨by rw [hTcp]; rfl, ?_⟩
    rw [hLog]
    rfl
  · simp [hState]
  · refine fun _ => ⟨?_, hNone⟩
    rw [hLog]
    rfl
  · simp [hState]

/-- In every run on another port than 443 the tun has the bytes of the socket
in order, and after every write of data what is not acknowledged fits the window. -/
theorem downstream_in_order {info : SynInfo} {hdr : TcpHdr} {data : Payload} {start : Cell}
    (hNew : newSession K info hdr data = some start) (hPort : hdr.dest ≠ 443)
    (hScale : info.ws.toNat ≤ 14) (inputs : List (Kernel × Input))
    (hMasked : Along step Masked start inputs) :
    DataInOrder (run step start inputs) ∧
      Along step (fun c input => WindowKept c (step c input)) start inputs := by
  have hStart := downloading_newSession hNew hPort hScale
  constructor
  · exact (run_invariant hStart hMasked fun c input hc hOk => (downloading_step hc hOk).1).sound
  · exact along_of_invariant hStart hMasked (fun c input hc hOk => (downloading_step hc hOk).1)
      fun c input hc hOk => (downloading_step hc hOk).2

/-- The handshake, and two bytes of the server. -/
theorem downstream_in_order_hi :
    let inputs : List (Kernel × Input) := uploadRun ++ [(.willing, .monitor),
      ({ Kernel.willing with recv := fun _ => .data [104, 105] }, .event { epollin := true })]
    DataInOrder (run step (clientCell 22 .empty) inputs) ∧
      Along step (fun c input => WindowKept c (step c input)) (clientCell 22 .empty) inputs := by
  apply downstream_in_order (newSession_client 22 .empty) (by decide) (by decide)
  refine ⟨?_, ?_, ?_, ?_, ?_, trivial⟩ <;> rintro ev ⟨⟩ <;> decide

end Tun2Http
