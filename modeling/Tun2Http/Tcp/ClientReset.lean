import Tun2Http.Tcp.Retransmission

/-! A reset of the client. `handle_tcp` looks at the flag after the CONNECT
phase, the closed states and the data, each of which can leave it first. -/
namespace Tun2Http

open Machine

/-- The entry hands bytes to `send()`. -/
def Io.isSend : Io → Bool
  | .send _ _ | .sendConnect _ _ => true
  | _ => false

/-- How often `send()` was called. -/
def sends (log : List Io) : Nat := log.countP Io.isSend

@[simp] theorem sends_cons (entry : Io) (log : List Io) :
    sends (entry :: log) = sends log + if entry.isSend then 1 else 0 := List.countP_cons ..

/-- The segments of a queue that hold data. A packet without data can be queued too. -/
def dataSegments (queue : List Segment) : List Segment := queue.filter fun s => s.data ≠ []

/-- From `c` to `d` a reset of the client was honoured. -/
structure Honoured (c d : Cell) : Prop where
  closed : d.tcp.state = .closing ∨ d.tcp.state = .close
  queue : dataSegments d.tcp.forward = dataSegments c.tcp.forward
  sends : sends d.log = sends c.log
  resets : resets d.log = resets c.log

/-- The sessions that honour a reset with this header and data. While the
CONNECT is outstanding only a session that is closed already does; after that
only one that is not, and that does not refuse or queue the data. -/
def HonoursReset (hdr : TcpHdr) (data : Payload) (c : Cell) : Prop :=
  if c.tcp.dest = 443 ∧ c.tcp.connectSent = .notSent then False
  else if c.tcp.dest = 443 ∧ c.tcp.connectSent = .sent then
    (c.tcp.state = .closing ∨ c.tcp.state = .close) ∧ (data.val = [] ∨ Known hdr data c.tcp)
  else
    ¬ (c.tcp.state = .closing ∨ c.tcp.state = .close) ∧
      (data.val ≠ [] → 0 ≤ c.socket ∧ c.tcp.state ≠ .closeWait ∧ Known hdr data c.tcp)

variable {K : Kernel} {hdr : TcpHdr} {data : Payload} {c d : Cell}

/-- A packet with data leaves the data in the queue as it was exactly where it
is held already. -/
theorem dataSegments_insert_iff (hData : data.val ≠ []) (queue : List Segment) :
    dataSegments (insertSegment hdr data queue) = dataSegments queue ↔ Held hdr data queue := by
  unfold dataSegments
  induction queue with
  | nil => simp [insertSegment, Held, Segment.ofPayload, hData]
  | cons s rest ih =>
      unfold insertSegment Held
      split_ifs with hBefore hAfter hSeq hSame hSmaller
      · by_cases hEmpty : s.data = [] <;> simpa [List.filter_cons, hEmpty] using ih
      · have hNe : s.seq ≠ hdr.seq := fun h => by simp [h] at hAfter
        refine iff_of_false (fun h => ?_) (fun h => hNe h.1)
        simpa [List.filter_cons, Segment.ofPayload, hData] using congrArg List.length h
      · simp [hSeq, hSame]
      · have hReplaced : (s.replaceData data hSmaller).data ≠ [] := hData
        have hLonger := not_le.mpr hSmaller
        by_cases hEmpty : s.data = []
        · refine iff_of_false (fun h => ?_) (fun h => ?_)
          · simpa [List.filter_cons, hReplaced, hEmpty] using congrArg List.length h
          · rcases h.2 with hLength | hEqual
            · exact hLonger hLength
            · exact hData (hEqual.symm.trans hEmpty)
        · simp [hEmpty, hReplaced, hSeq, replaceData_eq_iff, hLonger]
      · simp [hSeq, not_lt.mp hSmaller]
      · exact absurd (compareU32_eq_zero_iff.mp (by omega)) hSeq

/-- A packet without data leaves it as it was. -/
theorem dataSegments_insert_nil (hData : data.val = []) (queue : List Segment) :
    dataSegments (insertSegment hdr data queue) = dataSegments queue := by
  unfold dataSegments
  induction queue with
  | nil => simp [insertSegment, Segment.ofPayload, hData]
  | cons s rest ih =>
      unfold insertSegment
      split_ifs with hBefore hAfter hSeq hSame hSmaller
      · simp only [List.filter_cons, ih]
      · simp [List.filter_cons, Segment.ofPayload, hData]
      · rfl
      · simp [hData] at hSmaller
      · rfl
      · rfl

/-- `queue_tcp` queues no new data exactly where there is none or it is known. -/
theorem dataSegments_queueTcp_iff :
    dataSegments (queueTcp hdr data c).tcp.forward = dataSegments c.tcp.forward ↔
      data.val = [] ∨ Known hdr data c.tcp := by
  unfold queueTcp Known
  by_cases hSeq : compareU32 hdr.seq c.tcp.remoteSeq < 0
  · simp [hSeq]
  · rw [if_neg hSeq, or_iff_right hSeq]
    by_cases hData : data.val = []
    · exact iff_of_true (dataSegments_insert_nil hData _) (Or.inl hData)
    · rw [or_iff_right hData]
      exact dataSegments_insert_iff hData _

/-- A reset written back dishonours the client's. -/
theorem not_honoured_writeRst (hResets : resets d.log = resets c.log) :
    ¬ Honoured c (writeRst K d) := by
  intro h
  have hMore := h.resets
  rw [resets_writeRst, hResets] at hMore
  omega

/-- While the CONNECT is outstanding the packet is only queued. -/
theorem honoured_queueTcp_iff :
    Honoured c (queueTcp hdr data c) ↔ (c.tcp.state = .closing ∨ c.tcp.state = .close) ∧
      (data.val = [] ∨ Known hdr data c.tcp) := by
  rw [← dataSegments_queueTcp_iff]
  constructor
  · intro h
    have hClosed := h.closed
    rw [queueTcp_state] at hClosed
    exact ⟨hClosed, h.queue⟩
  · intro h
    exact ⟨by rw [queueTcp_state]; exact h.1, h.2, by rw [queueTcp_log], by rw [queueTcp_log]⟩

/-- Past the CONNECT phase the flag is honoured where the data is not refused
and nothing of it is queued. -/
theorem honoured_handleSegment_iff (hRst : hdr.rst = true) :
    Honoured c (handleSegment K hdr data c) ↔
      (data.val ≠ [] → 0 ≤ c.socket ∧ c.tcp.state ≠ .closeWait ∧ Known hdr data c.tcp) := by
  have hResets : resets (refresh K hdr c).log = resets c.log := by simp [refresh, Io.isReset]
  have hSends : sends (refresh K hdr c).log = sends c.log := by simp [refresh, Io.isSend]
  have hKnown : Known hdr data (refresh K hdr c).tcp ↔ Known hdr data c.tcp := Iff.rfl
  have hState : (refresh K hdr c).tcp.state = c.tcp.state := rfl
  have hSocket : (refresh K hdr c).socket = c.socket := rfl
  unfold handleSegment
  dsimp only
  by_cases hData : data.val ≠ []
  · rw [if_pos hData, hState, hSocket]
    by_cases hOpen : c.socket < 0
    · rw [if_pos hOpen]
      exact iff_of_false (not_honoured_writeRst hResets) fun h => not_le.mpr hOpen (h hData).1
    rw [if_neg hOpen]
    by_cases hWait : c.tcp.state = .closeWait
    · rw [if_pos hWait]
      exact iff_of_false (not_honoured_writeRst hResets) fun h => (h hData).2.1 hWait
    rw [if_neg hWait, handleFlags, if_pos hRst]
    have hQueue : dataSegments (queueTcp hdr data (refresh K hdr c)).tcp.forward =
        dataSegments (refresh K hdr c).tcp.forward ↔ Known hdr data c.tcp := by
      rw [dataSegments_queueTcp_iff, or_iff_right hData, hKnown]
    constructor
    · intro h _
      exact ⟨not_lt.mp hOpen, hWait, hQueue.mp h.queue⟩
    · intro h
      refine ⟨Or.inl rfl, hQueue.mpr (h hData).2.2, ?_, ?_⟩
      · rw [Cell.setState_log, queueTcp_log, hSends]
      · rw [Cell.setState_log, queueTcp_log, hResets]
  · rw [if_neg hData, handleFlags, if_pos hRst]
    exact iff_of_true ⟨Or.inl rfl, rfl, hSends, hResets⟩ fun h => absurd h hData

/-- Before the CONNECT request was sent a reset sends it, or is answered by one. -/
theorem not_honoured_of_notSent (hPort : c.tcp.dest = 443) (hSent : c.tcp.connectSent = .notSent) :
    ¬ Honoured c (tunnelSegment K c.tcp.dest hdr data (connectPhase K data c)) := by
  intro h
  rcases connectPhase_cases (K := K) data c with ⟨hTried, -⟩ | hFailed | hConnected
  · exact hTried hSent
  · obtain ⟨d, hSilent, -, -, hEq⟩ := hFailed
    have hConnect : (writeRst K d).tcp.connectSent ≠ .established := by
      rw [(writeRst_tcp d).2.2.1, hSilent.connectSent, hSent]
      decide
    rw [hEq, tunnelSegment, if_pos ⟨hPort, hConnect⟩] at h
    have hResets := h.resets
    rw [queueTcp_log, resets_writeRst, resets_quiet hSilent.toQuiet] at hResets
    omega
  · obtain ⟨d, count, -, -, -, -, hEq⟩ := hConnected
    rw [hEq, tunnelSegment, if_pos ⟨hPort, by simp⟩] at h
    have hClosed := h.closed
    rw [queueTcp_state] at hClosed
    rcases hClosed with hListen | hListen <;> cases hListen

/-- What follows the CONNECT phase honours the reset in the sessions named. -/
theorem honoured_tunnelSegment_iff (hRst : hdr.rst = true)
    (hTried : c.tcp.dest = 443 → c.tcp.connectSent ≠ .notSent) :
    Honoured c (tunnelSegment K c.tcp.dest hdr data c) ↔ HonoursReset hdr data c := by
  have hOther : ¬ (c.tcp.dest = 443 ∧ c.tcp.connectSent = .notSent) := fun h => hTried h.1 h.2
  have hSent : (c.tcp.dest = 443 ∧ c.tcp.connectSent ≠ .established) ↔
      (c.tcp.dest = 443 ∧ c.tcp.connectSent = .sent) := by
    constructor <;> rintro ⟨hPort, h⟩
    · have := hTried hPort
      cases hConnect : c.tcp.connectSent <;> simp_all
    · exact ⟨hPort, by rw [h]; decide⟩
  unfold tunnelSegment HonoursReset
  rw [if_neg hOther]
  by_cases hTunnel : c.tcp.dest = 443 ∧ c.tcp.connectSent = .sent
  · rw [if_pos (hSent.mpr hTunnel), if_pos hTunnel]
    exact honoured_queueTcp_iff
  · rw [if_neg (mt hSent.mp hTunnel), if_neg hTunnel]
    by_cases hClosed : c.tcp.state = .closing ∨ c.tcp.state = .close
    · rw [if_pos hClosed]
      exact iff_of_false (not_honoured_writeRst rfl) fun h => h.1 hClosed
    · rw [if_neg hClosed, honoured_handleSegment_iff hRst]
      exact ⟨fun h => ⟨hClosed, h⟩, fun h => h.2⟩

/-- The host name plays no part. -/
theorem honoured_storeHostname_iff (hostname : List UInt8) :
    Honoured (storeHostname hostname c) d ↔ Honoured c d := by
  unfold storeHostname
  split_ifs
  · exact ⟨fun h => ⟨h.closed, h.queue, h.sends, h.resets⟩,
      fun h => ⟨h.closed, h.queue, h.sends, h.resets⟩⟩
  · exact Iff.rfl

theorem honoursReset_storeHostname_iff (hostname : List UInt8) :
    HonoursReset hdr data (storeHostname hostname c) ↔ HonoursReset hdr data c := by
  unfold storeHostname
  split_ifs <;> exact Iff.rfl

/-- A reset of the client is honoured exactly by these sessions. -/
theorem reset_honoured_iff (hRst : hdr.rst = true) (hUrg : hdr.urg = false) :
    Honoured c (step c (K, .segment hdr data)) ↔ HonoursReset hdr data c := by
  unfold step
  dsimp only
  rw [existingSession, if_neg (by simp [hUrg])]
  by_cases hPort : c.tcp.dest = 443
  · rw [if_pos hPort]
    by_cases hSent : c.tcp.connectSent = .notSent
    · refine iff_of_false (not_honoured_of_notSent hPort hSent) fun h => ?_
      rwa [HonoursReset, if_pos ⟨hPort, hSent⟩] at h
    · rw [← honoured_storeHostname_iff (connectHost data.val c),
        ← honoursReset_storeHostname_iff (connectHost data.val c), connectPhase_of_tried K data hSent]
      have hSilent := silent_storeHostname (connectHost data.val c) c
      rw [← hSilent.dest]
      apply honoured_tunnelSegment_iff hRst
      intro _
      rwa [hSilent.connectSent]
  · rw [if_neg hPort]
    exact honoured_tunnelSegment_iff hRst fun h => absurd h hPort

/-- The client of `port` resets its session. -/
def clientRst (port : U16) : TcpHdr := { clientSegment port 1 1001 with rst := true }

/-- Before the socket is connected, on a port without a proxy. -/
theorem reset_honoured_iff_listen :
    Honoured (clientCell 22 .empty) (step (clientCell 22 .empty) (.willing, .segment (clientRst 22) .empty)) ↔
      HonoursReset (clientRst 22) .empty (clientCell 22 .empty) :=
  reset_honoured_iff rfl rfl

/-- On port 443 the reset sends the CONNECT request. -/
theorem reset_not_honoured : ∃ inputs hdr,
    let c := run step (clientCell 443 .empty) inputs
    hdr.rst = true ∧ hdr.urg = false ∧ ¬ Honoured c (step c (.willing, .segment hdr .empty)) ∧
      (step c (.willing, .segment hdr .empty)).tcp.state = .listen ∧
      sends (step c (.willing, .segment hdr .empty)).log = sends c.log + 1 := by
  refine ⟨[], clientRst 443, rfl, rfl, fun h => ?_, by decide, by decide⟩
  have hSends := h.sends
  revert hSends
  decide

end Tun2Http
