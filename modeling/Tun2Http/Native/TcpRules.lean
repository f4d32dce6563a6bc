import Tun2Http.Native.TcpRun

/-! Rules for the handlers of a session: what all parts of a handler keep, the
handler keeps. -/
namespace Tun2Http

section Keeps

variable {K : Kernel} {c : Cell} {hdr : TcpHdr} {data : Payload} {P : Cell → Prop}

/-- Every turn of the forward loop keeps it, whatever it leaves of the queue. -/
theorem forwardLoop_keeps
    (hTurn : ∀ seg queue d, P d → P ((sentOn K seg d).setForward queue)) (queue : List Segment)
    (bufferSize : U32) (fwd : Bool) (h : P c) : P (forwardLoop K queue bufferSize fwd c).1 := by
  induction queue generalizing bufferSize fwd c with
  | nil => exact h
  | cons seg rest ih =>
      rw [forwardLoop]
      by_cases hForward : canForward c seg bufferSize
      · rw [if_pos hForward, forwardTurn_eq]
        by_cases hAll : counted K seg c = seg.unsent
        · simp only [if_pos hAll]
          exact ih _ true (hTurn seg rest c h)
        · simp only [if_neg hAll]
          exact hTurn seg _ c h
      · rw [if_neg hForward]
        exact h

theorem handleFin_keeps (h : P c) (hWrite : P (writeAck K c.countFin).1)
    (hState : ∀ d next, P d → P (d.setState next)) : P (handleFin K c) := by
  unfold handleFin
  dsimp only
  split
  · split_ifs
    · exact hState _ _ hWrite
    · exact hWrite
    · exact hState c _ h
  · split_ifs
    · exact hState _ _ hWrite
    · exact hWrite
  · exact h

theorem handleAck_keeps {ackSeq : U32} (hAcked : P { c with tcp := { c.tcp with acked := ackSeq } })
    (hState : ∀ d next, P d → P (d.setState next)) : P (handleAck ackSeq c) := by
  unfold handleAck
  dsimp only
  split
  · exact hState _ _ hAcked
  · exact hState _ _ hAcked
  · exact hAcked

/-- The number of a previous ACK is stored; a future ACK resets the session. -/
theorem handleOtherAck_keeps {ackSeq : U32} (h : P c) (hKeepAlive : P (c.call .keepAlive))
    (hAcked : compareU32 ackSeq c.tcp.localSeq < 0 →
      P { c with tcp := { c.tcp with acked := ackSeq } })
    (hReset : P (writeRst K c)) : P (handleOtherAck K ackSeq c) := by
  unfold handleOtherAck
  split_ifs with hLast hOpen hPast hRepeated
  · exact hKeepAlive
  · exact h
  · exact h
  · exact hAcked hPast
  · exact hReset

theorem handleFlags_keeps (h : P c) (hRst : P (c.setState .closing)) (hFin : P (handleFin K c))
    (hAck : hdr.ack = true → hdr.ackSeq = c.tcp.localSeq → P (handleAck hdr.ackSeq c))
    (hOther : P (handleOtherAck K hdr.ackSeq c)) : P (handleFlags K hdr c) := by
  unfold handleFlags
  split_ifs with hReset hExact hSyn hEnd hPlain
  · exact hRst
  · exact h
  · exact hFin
  · exact hAck hPlain (hExact.resolve_left (not_not.mpr hPlain))
  · exact h
  · exact hOther

/-- Data is queued before the flags are looked at; what comes too late resets. -/
theorem tunnelSegment_keeps {rport : U16} (h : P c) (hRefresh : P (refresh K hdr c))
    (hQueue : ∀ d, P d → P (queueTcp hdr data d)) (hReset : ∀ d, P d → P (writeRst K d))
    (hFlags : ∀ d, P d → P (handleFlags K hdr d)) : P (tunnelSegment K rport hdr data c) := by
  unfold tunnelSegment handleSegment
  dsimp only
  split_ifs
  · exact hQueue c h
  · exact hReset c h
  · exact hReset _ hRefresh
  · exact hReset _ hRefresh
  · exact hFlags _ (hQueue _ hRefresh)
  · exact hFlags _ hRefresh

end Keeps

end Tun2Http
