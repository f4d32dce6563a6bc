import Mathlib.Algebra.Order.Ring.Int
import Tun2Http.Session.Alone
import Tun2Http.Session.Limit
import Tun2Http.Session.Sweep
import Tun2Http.Tcp.Frame

/-! No session outlives its use. A session that is shown nothing but the passes of the
loop is closed by the first check behind its timeout, and freed by the first check
behind the time that a closed session is kept. -/
namespace Tun2Http

open Machine

/-- The clock does not read past `limit`. -/
def Kernel.Until (limit : Int) (K : Kernel) : Prop := ∀ call, K.time call ≤ limit

/-- What goes on with a session that nobody uses, before the clock has passed `limit`. -/
def SessionInput.Idle (limit : Int) : SessionInput → Prop
  | monitor _ => True
  | check K _ maxsessions => K.Until limit ∧ 0 < maxsessions
  | _ => False

namespace SessionData

/-- The session is closed, and only the check that frees it is left. -/
def Over : SessionData → Prop
  | icmp c => c.icmp.stop = true
  | udp c => c.udp.state = .closed ∨ c.udp.state = .blocked
  | tcp c => c.tcp.state = .close

/-- For how long a closed session is kept: `UDP_KEEP_TIMEOUT` and `TCP_KEEP_TIMEOUT`. -/
def keep : SessionData → Int
  | icmp _ => 0
  | udp _ => 60
  | tcp _ => 300

/-- The timeout of a session that is the only one. -/
def longest : SessionData → Int
  | icmp _ => 15
  | udp c => if c.udp.dest = 53 then 15 else 300
  | tcp c => if c.tcp.state = .established then 3600 else 30

/-- A session is idle from `s` on, and is now `t`: it is not given more time, or it is over. -/
structure Idles (limit : Int) (s t : SessionData) : Prop where
  sound : t.Sound
  keep : t.keep = s.keep
  waits : t.time + t.longest ≤ s.time + s.longest ∨ (t.Over ∧ t.time ≤ limit)

/-- The session is over since `limit`, at the latest. -/
structure Ended (limit : Int) (t : SessionData) : Prop where
  sound : t.Sound
  quiet : t.Over
  time : t.time ≤ limit

/-! The timeouts. -/

theorem scaled_le {timeout sessions maxsessions : Int} (hTimeout : 0 ≤ timeout) (hSessions : 0 ≤ sessions)
    (hMax : 0 < maxsessions) :
    (timeout * (100 - (sessions * 100).tdiv maxsessions)).tdiv 100 ≤ timeout := by
  have hShare : 0 ≤ (sessions * 100).tdiv maxsessions := Int.tdiv_nonneg (by omega) hMax.le
  have hProduct : timeout * (100 - (sessions * 100).tdiv maxsessions) ≤ timeout * 100 :=
    mul_le_mul_of_nonneg_left (by omega) hTimeout
  calc (timeout * (100 - (sessions * 100).tdiv maxsessions)).tdiv 100
      ≤ (timeout * 100).tdiv 100 := Int.tdiv_le_tdiv (by decide) hProduct
    _ = timeout := Int.mul_tdiv_cancel _ (by decide)

theorem longest_pos (s : SessionData) : 0 < s.longest := by
  unfold longest
  split
  · decide
  · split_ifs <;> decide
  · split_ifs <;> decide

/-- A session among others times out no later than one that is alone. -/
theorem timeout_le {sessions maxsessions : Int} (s : SessionData) (hSessions : 0 ≤ sessions)
    (hMax : 0 < maxsessions) : s.timeout sessions maxsessions ≤ s.longest := by
  cases s with
  | icmp c => exact scaled_le (by decide) hSessions hMax
  | udp c => exact scaled_le (by split_ifs <;> decide) hSessions hMax
  | tcp c =>
      have hBase : (if c.tcp.state = .listen ∨ c.tcp.state = .synRecv then (30 : Int)
          else if c.tcp.state = .established then 3600 else 30) = (tcp c).longest := by
        cases hState : c.tcp.state <;> simp [longest, hState]
      unfold timeout getTcpTimeout
      dsimp only
      rw [hBase]
      exact scaled_le (longest_pos (tcp c)).le hSessions hMax

/-! The monitor. -/

theorem keepAliveProbe_time (K : Kernel) (c : Cell) : (keepAliveProbe K c).tcp.time = c.tcp.time := by
  unfold keepAliveProbe
  dsimp only
  split_ifs
  · rw [writeAck, writeOrClose_eq]
    simp [afterWrite_tcp]
  · rfl

theorem queueEvents_time (K : Kernel) (readable : Bool) (c : Cell) :
    (queueEvents K readable c).1.tcp.time = c.tcp.time := by
  unfold queueEvents
  split
  · rfl
  · rcases getReceiveBuffer_cases K c with h | h <;> rw [h]
    rfl

theorem wantedEvents_time (K : Kernel) (c : Cell) : (wantedEvents K c).1.tcp.time = c.tcp.time := by
  unfold wantedEvents
  dsimp only
  split_ifs <;> simp only [queueEvents_time, keepAliveProbe_time]

theorem monitorTcpSession_time (K : Kernel) (c : Cell) :
    (monitorTcpSession K c).1.tcp.time = c.tcp.time := by
  unfold monitorTcpSession
  dsimp only
  split_ifs
  · exact wantedEvents_time K c
  · exact wantedEvents_time K c
  · exact wantedEvents_time K c

/-- The monitor keeps the state, or has the session closed. -/
theorem monitorTcpSession_state (K : Kernel) (c : Cell) :
    (monitorTcpSession K c).1.tcp.state = c.tcp.state ∨
      (monitorTcpSession K c).1.tcp.state = .closing ∨ (monitorTcpSession K c).1.tcp.state = .close := by
  have hWanted := (frame_wantedEvents K c).state
  unfold monitorTcpSession
  dsimp only
  split_ifs
  · exact hWanted
  · exact Or.inr (Or.inl rfl)
  · exact hWanted

theorem Idles.refl {limit : Int} {s : SessionData} (h : s.Sound) : Idles limit s s :=
  ⟨h, rfl, Or.inl le_rfl⟩

section

variable {limit sessions maxsessions : Int} {K : Kernel} {s t : SessionData}

/-- A TCP session that is monitored is not given more time. -/
theorem idles_monitor (h : Idles limit s t) (K : Kernel) : Idles limit s (t.monitor K) := by
  refine ⟨(evolves_monitor h.sound K).sound, ?_, ?_⟩
  · rw [← h.keep]
    cases t <;> rfl
  cases t with
  | icmp c => exact h.waits
  | udp c => exact h.waits
  | tcp c =>
      by_cases hSocket : 0 ≤ c.socket
      · have hStep : (tcp c).monitor K = tcp (monitorTcpSession K c).1 := by
          simp [monitor, step, hSocket]
        have hOpen : c.tcp.state ≠ .close := fun hClose =>
          absurd hSocket (not_le.mpr (h.sound.1.socket (Or.inr (Or.inr hClose))))
        rcases h.waits with hTime | ⟨hOver, -⟩
        · refine Or.inl (le_trans ?_ hTime)
          rw [hStep]
          simp only [time, longest, monitorTcpSession_time]
          rcases monitorTcpSession_state K c with hSame | hClosing | hClose
          · rw [hSame]
          · rw [hClosing, if_neg (by decide)]
            split_ifs <;> omega
          · rw [hClose, if_neg (by decide)]
            split_ifs <;> omega
        · exact absurd hOver hOpen
      · have hStep : (tcp c).monitor K = tcp c := by simp [monitor, step, hSocket]
        rw [hStep]
        exact h.waits

/-! The check. -/

theorem dropCounts_time (c : Cell) : (dropCounts c).tcp.time = c.tcp.time := by
  unfold dropCounts
  split_ifs <;> rfl

/-- A TCP session that was closing is closed now. -/
theorem checkClosing_time {c : Cell} (hState : c.tcp.state = .closing) :
    ∃ call, (checkClosing K c).tcp.time = K.time call := by
  unfold checkClosing
  rw [if_pos hState]
  exact ⟨_, rfl⟩

/-- The check of a TCP session leaves it as it is, or it is closed behind it. -/
theorem checkTcpSession_cases (K : Kernel) (sessions maxsessions : Int) (c : Cell) :
    let d := (checkTcpSession K sessions maxsessions c).1
    (d.tcp = c.tcp ∧ K.time c.calls ≤ c.tcp.time + getTcpTimeout c.tcp sessions maxsessions) ∨
      (d.tcp.state = .close ∧
        ((c.tcp.state = .close ∧ d.tcp.time = c.tcp.time) ∨
          (c.tcp.state ≠ .close ∧ ∃ call, d.tcp.time = K.time call))) := by
  intro d
  by_cases hLive : (tcp d).live = true
  · exact Or.inl (checkTcpSession_live hLive)
  · refine Or.inr ?_
    set timed := c.call (.time (K.time c.calls)) with hTimed
    set out := checkTimeout K (getTcpTimeout timed.tcp sessions maxsessions) (K.time c.calls) timed
      with hOut
    have hD : d = dropCounts (checkClosing K out) := rfl
    have hOver : d.tcp.state = .closing ∨ d.tcp.state = .close := by
      simpa [live, imp_iff_not_or] using hLive
    rw [hD, dropCounts_state, dropCounts_time, checkClosing_state] at *
    by_cases hClosing : out.tcp.state = .closing
    · have hOpen : c.tcp.state ≠ .close := by
        intro hClose
        have hKept : out = timed := if_neg fun hOut => hOut.2.1 hClose
        rw [hKept] at hClosing
        exact absurd (hClosing.symm.trans hClose) (by decide)
      rw [if_pos hClosing]
      exact ⟨rfl, Or.inr ⟨hOpen, checkClosing_time hClosing⟩⟩
    · rw [if_neg hClosing] at hOver ⊢
      have hClose : out.tcp.state = .close := hOver.resolve_left hClosing
      have hKept : out = timed := by
        by_contra hChanged
        rw [hOut] at hChanged
        refine hClosing (checkTimeout_state ?_)
        by_contra hIn
        exact hChanged (if_neg hIn)
      rw [hKept] at hClose ⊢
      have hSame : checkClosing K timed = timed := if_neg (by rw [hClose]; decide)
      rw [hSame]
      exact ⟨hClose, Or.inl ⟨hClose, rfl⟩⟩

theorem udpDropCounts_time (c : UdpCell) : (udpDropCounts c).udp.time = c.udp.time := by
  unfold udpDropCounts
  split_ifs <;> rfl

theorem udpDropCounts_dest (c : UdpCell) : (udpDropCounts c).udp.dest = c.udp.dest := by
  unfold udpDropCounts
  split_ifs <;> rfl

/-- A UDP session that is finished is closed, and keeps its port. -/
theorem udpFinished_finish (K : Kernel) {c : UdpCell} (hState : c.udp.state = .finishing) :
    (udpFinished K c).udp.state = .closed ∧ (udpFinished K c).udp.dest = c.udp.dest ∧
      ∃ call, (udpFinished K c).udp.time = K.time call := by
  unfold udpFinished
  rw [if_pos hState]
  exact ⟨rfl, rfl, _, rfl⟩

/-- So does the check of a UDP session. -/
theorem checkUdpSession_cases (K : Kernel) (sessions maxsessions : Int) (c : UdpCell) :
    let d := (checkUdpSession K sessions maxsessions c).1
    (d.udp = c.udp ∧ (c.udp.state = .active ∧
        K.time c.calls ≤ c.udp.time + getUdpTimeout c.udp sessions maxsessions ∨
        c.udp.state = .blocked)) ∨
      (d.udp.state = .closed ∧ d.udp.dest = c.udp.dest ∧
        ((c.udp.state = .closed ∧ d.udp.time = c.udp.time) ∨
          ((c.udp.state = .active ∨ c.udp.state = .finishing) ∧ ∃ call, d.udp.time = K.time call))) := by
  intro d
  set timed := c.call (.time (K.time c.calls)) with hTimed
  have hUdp : timed.udp = c.udp := rfl
  have hD : d = udpDropCounts (udpFinished K
    (udpTimeout (getUdpTimeout timed.udp sessions maxsessions) (K.time c.calls) timed)) := rfl
  have hFinish : ∀ e : UdpCell, e.udp.state = .finishing → e.udp.dest = c.udp.dest →
      d = udpDropCounts (udpFinished K e) → d.udp.state = .closed ∧ d.udp.dest = c.udp.dest ∧
        ∃ call, d.udp.time = K.time call := by
    intro e hState hDest hE
    obtain ⟨hClosed, hPort, call, hTime⟩ := udpFinished_finish K hState
    rw [hE, udpDropCounts_state, udpDropCounts_dest, udpDropCounts_time]
    exact ⟨hClosed, hPort.trans hDest, call, hTime⟩
  cases hState : c.udp.state with
  | active =>
      by_cases hOver : timed.udp.time + getUdpTimeout timed.udp sessions maxsessions < K.time c.calls
      · rw [udpTimeout, if_pos ⟨hState, hOver⟩] at hD
        obtain ⟨hClosed, hDest, hTime⟩ := hFinish _ (UdpCell.finish_state timed) rfl hD
        exact Or.inr ⟨hClosed, hDest, Or.inr ⟨Or.inl rfl, hTime⟩⟩
      · rw [udpTimeout, if_neg fun hBoth => hOver hBoth.2, udpFinished, if_neg (by simp [hUdp, hState]),
          udpDropCounts, if_neg (by simp [hUdp, hState])] at hD
        exact Or.inl ⟨by rw [hD, hUdp], Or.inl ⟨rfl, not_lt.mp hOver⟩⟩
  | finishing =>
      rw [udpTimeout, if_neg (by simp [hUdp, hState])] at hD
      obtain ⟨hClosed, hDest, hTime⟩ := hFinish timed hState rfl hD
      exact Or.inr ⟨hClosed, hDest, Or.inr ⟨Or.inr rfl, hTime⟩⟩
  | closed =>
      rw [udpTimeout, if_neg (by simp [hUdp, hState]), udpFinished, if_neg (by simp [hUdp, hState])] at hD
      rw [hD, udpDropCounts_state, udpDropCounts_dest, udpDropCounts_time]
      exact Or.inr ⟨hState, rfl, Or.inl ⟨rfl, rfl⟩⟩
  | blocked =>
      rw [udpTimeout, if_neg (by simp [hUdp, hState]), udpFinished, if_neg (by simp [hUdp, hState]),
        udpDropCounts, if_neg (by simp [hUdp, hState])] at hD
      exact Or.inl ⟨by rw [hD, hUdp], Or.inr rfl⟩

/-- The check of an ICMP session frees it, or leaves it as it is. -/
theorem checkIcmpSession_cases (K : Kernel) (sessions maxsessions : Int) (c : IcmpCell) :
    (checkIcmpSession K sessions maxsessions c).1.icmp = c.icmp ∧
      ((checkIcmpSession K sessions maxsessions c).2 = true ↔
        c.icmp.stop = true ∨ c.icmp.time + getIcmpTimeout sessions maxsessions < K.time c.calls) := by
  unfold checkIcmpSession
  dsimp only
  split_ifs with hOver
  · exact ⟨rfl, iff_of_true rfl hOver⟩
  · exact ⟨rfl, iff_of_false nofun hOver⟩

/-- The check gives an idle session no more time. -/
theorem idles_check (h : Idles limit s t) (hUntil : K.Until limit) (sessions maxsessions : Int) :
    Idles limit s (t.check K sessions maxsessions).1 := by
  refine ⟨(evolves_check h.sound K sessions maxsessions).sound, ?_, ?_⟩
  · rw [← h.keep]
    cases t <;> rfl
  cases t with
  | icmp c =>
      have hSame := (checkIcmpSession_cases K sessions maxsessions c).1
      simpa only [check, time, longest, Over, hSame] using h.waits
  | udp c =>
      rcases checkUdpSession_cases K sessions maxsessions c with ⟨hSame, -⟩ | ⟨hClosed, hTime⟩
      · simpa only [check, time, longest, Over, hSame] using h.waits
      · obtain ⟨hDest, hTime⟩ := hTime
        rcases hTime with ⟨hBefore, hTime⟩ | ⟨-, call, hTime⟩
        · simpa only [check, time, longest, Over, hClosed, hBefore, hDest, hTime] using h.waits
        · exact Or.inr ⟨Or.inl hClosed, hTime.trans_le (hUntil call)⟩
  | tcp c =>
      rcases checkTcpSession_cases K sessions maxsessions c with ⟨hSame, -⟩ | ⟨hClose, hTime⟩
      · simpa only [check, time, longest, Over, hSame] using h.waits
      · rcases hTime with ⟨hBefore, hTime⟩ | ⟨-, call, hTime⟩
        · simpa only [check, time, longest, Over, hClose, hBefore, hTime] using h.waits
        · exact Or.inr ⟨hClose, hTime.trans_le (hUntil call)⟩

theorem idles_treat (h : Idles limit s t) {m : SessionInput} (hIdle : m.Idle limit) :
    Idles limit s (t.treat m) := by
  cases m with
  | monitor K => exact idles_monitor h K
  | check K sessions maxsessions => exact idles_check h hIdle.1 sessions maxsessions
  | _ => exact absurd hIdle id

theorem Idles.run (h : Idles limit s t) {ms : List SessionInput} (hIdle : ∀ m ∈ ms, m.Idle limit) :
    Idles limit s (Machine.run treat t ms) :=
  run_invariant h (along_of_forall t hIdle) fun _ _ hd hm => idles_treat hd hm

theorem ended_monitor (h : Ended limit t) (K : Kernel) : Ended limit (t.monitor K) := by
  cases t with
  | icmp c => exact h
  | udp c => exact h
  | tcp c =>
      have hSocket : c.socket < 0 := h.sound.1.socket (Or.inr (Or.inr h.quiet))
      have hStep : (tcp c).monitor K = tcp c := by simp [monitor, step, hSocket]
      rw [hStep]
      exact h

/-- A closed session stays as it is until it is freed. -/
theorem ended_check (h : Ended limit t) (K : Kernel) (sessions maxsessions : Int) :
    Ended limit (t.check K sessions maxsessions).1 := by
  have hSound := (evolves_check h.sound K sessions maxsessions).sound
  have hOver := h.quiet
  have hTime := h.time
  cases t with
  | icmp c =>
      have hSame := (checkIcmpSession_cases K sessions maxsessions c).1
      refine ⟨hSound, ?_, ?_⟩ <;> simpa only [check, Over, time, hSame]
  | udp c =>
      rcases checkUdpSession_cases K sessions maxsessions c with ⟨hSame, -⟩ | ⟨hClosed, -, hAfter⟩
      · refine ⟨hSound, ?_, ?_⟩ <;> simpa only [check, Over, time, hSame]
      · rcases hAfter with ⟨-, hSame⟩ | ⟨hOpen, -⟩
        · exact ⟨hSound, Or.inl hClosed, hSame.trans_le hTime⟩
        · simp only [Over] at hOver
          rcases hOver with h | h <;> rcases hOpen with hOpen | hOpen <;> rw [h] at hOpen <;> cases hOpen
  | tcp c =>
      rcases checkTcpSession_cases K sessions maxsessions c with ⟨hSame, -⟩ | ⟨hClose, hAfter⟩
      · refine ⟨hSound, ?_, ?_⟩ <;> simpa only [check, Over, time, hSame]
      · rcases hAfter with ⟨-, hSame⟩ | ⟨hOpen, -⟩
        · exact ⟨hSound, hClose, hSame.trans_le hTime⟩
        · exact absurd hOver hOpen

theorem Ended.run (h : Ended limit t) {ms : List SessionInput} (hIdle : ∀ m ∈ ms, m.Idle limit) :
    Ended limit (Machine.run treat t ms) := by
  refine run_invariant h (along_of_forall t hIdle) fun d m hd hm => ?_
  cases m with
  | monitor K => exact ended_monitor hd K
  | check K sessions maxsessions => exact ended_check hd K sessions maxsessions
  | _ => exact absurd hm id

/-- The first check behind the deadline closes an idle session, or has it freed. -/
theorem over_check (h : Idles limit s t) (hUntil : K.Until limit) (hSessions : 0 ≤ sessions)
    (hMax : 0 < maxsessions) (hLate : s.time + s.longest < K.time t.calls) :
    (t.check K sessions maxsessions).2 = true ∨ Ended limit (t.check K sessions maxsessions).1 := by
  have hSound := (evolves_check h.sound K sessions maxsessions).sound
  have hDeadline : t.Over ∨ t.time + t.timeout sessions maxsessions < K.time t.calls := by
    have hTimeout := timeout_le t hSessions hMax
    rcases h.waits with hTime | ⟨hOver, -⟩
    · exact Or.inr (by omega)
    · exact Or.inl hOver
  have hTime : t.time ≤ limit := by
    have hPos := longest_pos t
    have hNow := hUntil t.calls
    rcases h.waits with hTime | ⟨-, hTime⟩
    · omega
    · exact hTime
  cases t with
  | icmp c => exact Or.inl ((checkIcmpSession_cases K sessions maxsessions c).2.mpr hDeadline)
  | udp c =>
      refine Or.inr ?_
      rcases checkUdpSession_cases K sessions maxsessions c with ⟨hSame, hBefore⟩ | ⟨hClosed, -, hAfter⟩
      · have hState : c.udp.state = .closed ∨ c.udp.state = .blocked := by
          rcases hBefore with ⟨hActive, hEarly⟩ | hBlocked
          · exact hDeadline.resolve_right (not_lt.mpr hEarly)
          · exact Or.inr hBlocked
        refine ⟨hSound, ?_, ?_⟩
        · simpa only [check, Over, hSame] using hState
        · simpa only [check, time, hSame] using hTime
      · refine ⟨hSound, Or.inl hClosed, ?_⟩
        rcases hAfter with ⟨-, hSame⟩ | ⟨-, call, hRead⟩
        · exact hSame.trans_le hTime
        · exact hRead.trans_le (hUntil call)
  | tcp c =>
      refine Or.inr ?_
      rcases checkTcpSession_cases K sessions maxsessions c with ⟨hSame, hEarly⟩ | ⟨hClose, hAfter⟩
      · have hState : c.tcp.state = .close := hDeadline.resolve_right (not_lt.mpr hEarly)
        refine ⟨hSound, ?_, ?_⟩
        · simpa only [check, Over, hSame] using hState
        · simpa only [check, time, hSame] using hTime
      · refine ⟨hSound, hClose, ?_⟩
        rcases hAfter with ⟨-, hSame⟩ | ⟨-, call, hRead⟩
        · exact hSame.trans_le hTime
        · exact hRead.trans_le (hUntil call)

/-- A closed session is freed once it was kept long enough. -/
theorem freed_check (h : Ended limit t) (sessions maxsessions : Int)
    (hLate : limit + t.keep < K.time t.calls) : (t.check K sessions maxsessions).2 = true := by
  have hOver := h.quiet
  have hTime := h.time
  cases t with
  | icmp c => exact (checkIcmpSession_cases K sessions maxsessions c).2.mpr (Or.inl hOver)
  | udp c =>
      have hState : c.udp.state = .closed ∨ c.udp.state = .blocked := hOver
      simp only [time, keep, calls] at hTime hLate
      show decide _ = true
      refine decide_eq_true ?_
      show ((checkUdpSession K sessions maxsessions c).1.udp.state = .closed ∨
        (checkUdpSession K sessions maxsessions c).1.udp.state = .blocked) ∧
        (checkUdpSession K sessions maxsessions c).1.udp.time + 60 < K.time c.calls
      rcases checkUdpSession_cases K sessions maxsessions c with ⟨hSame, -⟩ | ⟨hClosed, -, hClosing⟩
      · rw [hSame]
        exact ⟨hState, by omega⟩
      · rcases hClosing with ⟨-, hTime⟩ | ⟨hOpen, -⟩
        · rw [hTime]
          exact ⟨Or.inl hClosed, by omega⟩
        · rcases hState with h | h <;> rcases hOpen with hOpen | hOpen <;> rw [h] at hOpen <;> cases hOpen
  | tcp c =>
      have hClose : c.tcp.state = .close := hOver
      simp only [time, keep, calls] at hTime hLate
      show decide _ = true
      refine decide_eq_true ?_
      show (checkTcpSession K sessions maxsessions c).1.tcp.state = .close ∧
        (checkTcpSession K sessions maxsessions c).1.tcp.time + 300 < K.time c.calls
      rcases checkTcpSession_cases K sessions maxsessions c with ⟨hSame, -⟩ | ⟨hState, hClosing⟩
      · rw [hSame]
        exact ⟨hClose, by omega⟩
      · rcases hClosing with ⟨-, hTime⟩ | ⟨hOpen, -⟩
        · rw [hTime]
          exact ⟨hState, by omega⟩
        · exact absurd hClose hOpen

end

end SessionData

namespace EventLoop

variable {L : EventLoop} {limit : Int} {s : SessionData} {pointer : Nat} {kernels : Nat → Kernel}

theorem Begins.pointer_eq {input : LoopInput} {data : SessionData} (h : L.Begins input pointer data) :
    pointer = L.next := by
  cases h <;> rfl

/-- From `L` to `M` no session was forgotten, and none that was freed came back. -/
structure Grows (L M : EventLoop) : Prop where
  next : L.next ≤ M.next
  freed : ∀ t ∈ L.freed, t ∈ M.freed
  known : ∀ t ∈ L.known, ∃ u ∈ M.known, u.pointer = t.pointer

theorem Grows.refl (L : EventLoop) : Grows L L := ⟨le_rfl, fun _ ht => ht, fun t ht => ⟨t, ht, rfl⟩⟩

theorem Grows.trans {M N : EventLoop} (hFirst : Grows L M) (hSecond : Grows M N) : Grows L N := by
  refine ⟨hFirst.next.trans hSecond.next, fun t ht => hSecond.freed t (hFirst.freed t ht), fun t ht => ?_⟩
  obtain ⟨u, hu, hPointer⟩ := hFirst.known t ht
  obtain ⟨v, hv, hSame⟩ := hSecond.known u hu
  exact ⟨v, hv, hSame.trans hPointer⟩

theorem grows_update (L : EventLoop) (f : NgSession → SessionData × Bool) : Grows L (L.update f) := by
  refine ⟨le_rfl, fun t ht => mem_freed_update.mpr (Or.inr ht), fun t ht => ?_⟩
  rcases List.mem_append.mp ht with hList | hFreed
  · exact ⟨⟨t.pointer, (f t).1⟩, mem_known_update.mpr (Or.inl ⟨t, hList, rfl⟩), rfl⟩
  · exact ⟨t, mem_known_update.mpr (Or.inr hFreed), rfl⟩

theorem grows_pass (L : EventLoop) (kernels : Nat → Kernel) (check : Bool) :
    Grows L (L.pass kernels check) := by
  have hCounted : Grows L { L with sessions := L.live } := ⟨le_rfl, fun _ ht => ht, fun t ht => ⟨t, ht, rfl⟩⟩
  cases check with
  | false => exact hCounted.trans (grows_update _ _)
  | true => exact (hCounted.trans (grows_update _ _)).trans (grows_update _ _)

theorem grows_register (L : EventLoop) (K : Kernel) (data : SessionData) :
    Grows L (L.register K data) :=
  ⟨Nat.le_succ _, fun _ ht => ht, fun t ht => ⟨t, List.mem_cons_of_mem _ ht, rfl⟩⟩

theorem grows_handleIp (L : EventLoop) (K : Kernel) (pkt : Packet) : Grows L (L.handleIp K pkt) := by
  rcases parted_handleIp L K pkt with ⟨s, m, -, -, hStore⟩ | ⟨-, hSame | ⟨data, -, hRegister⟩⟩
  · rw [hStore]
    exact grows_update L _
  · rw [hSame]
    exact .refl L
  · rw [hRegister]
    exact grows_register L K data

/-- Only `clear` forgets sessions. -/
theorem grows_step (L : EventLoop) {input : LoopInput} (hClear : input ≠ .clear) :
    Grows L (stepLoop L input) := by
  cases input with
  | start kernels fwd53 maxsessions =>
      have hEnded := grows_update L fun s => s.data.allowed (kernels s.pointer)
      exact ⟨hEnded.next, hEnded.freed, hEnded.known⟩
  | pass kernels check => exact grows_pass L kernels check
  | packet K pkt => exact grows_handleIp L K pkt
  | event K registration ev =>
      simp only [stepLoop, EventLoop.event]
      split_ifs
      · split
        · exact .refl L
        · exact grows_update L _
      · exact .refl L
  | clear => exact absurd rfl hClear

/-- A session of the list that is not new was in the list, and was treated. -/
theorem continues_list (h : Sound L) {input : LoopInput} (hClear : input ≠ .clear) {t : NgSession}
    (ht : t ∈ (stepLoop L input).ngSession) (hOld : t.pointer < L.next) :
    ∃ u ∈ L.ngSession, u.pointer = t.pointer ∧
      t.data = run SessionData.treat u.data (L.shown input t.pointer) := by
  rcases continues_step h input (List.mem_append_left _ ht) with ⟨u, hu, hPointer, hData⟩ | hBegins
  · refine ⟨u, (List.mem_append.mp hu).resolve_right fun hFreed => ?_, hPointer, hData⟩
    exact ((h.step input).freed u ((grows_step L hClear).freed u hFreed)).2.2 t ht hPointer.symm
  · exact absurd hBegins.pointer_eq hOld.ne

/-- Nothing but the passes of the loop is shown to the session at `pointer`. -/
def Leaves (limit : Int) (pointer : Nat) (L : EventLoop) (input : LoopInput) : Prop :=
  input ≠ .clear ∧ ∀ m ∈ L.shown input pointer, m.Idle limit

/-- The session at `pointer`, where it is still in the list, is idle since `s`. -/
structure Waits (limit : Int) (s : SessionData) (pointer : Nat) (L : EventLoop) : Prop where
  sound : Sound L
  known : ∃ t ∈ L.known, t.pointer = pointer
  idles : ∀ t ∈ L.ngSession, t.pointer = pointer → SessionData.Idles limit s t.data

/-- Where it is still in the list, it is closed. -/
structure Closes (limit : Int) (s : SessionData) (pointer : Nat) (L : EventLoop) : Prop
    extends Waits limit s pointer L where
  ended : ∀ t ∈ L.ngSession, t.pointer = pointer → t.data.Ended limit

theorem Waits.old (h : Waits limit s pointer L) : pointer < L.next := by
  obtain ⟨t, ht, rfl⟩ := h.known
  rcases List.mem_append.mp ht with hList | hFreed
  · exact h.sound.fresh t hList
  · exact (h.sound.freed t hFreed).2.1

theorem Waits.step (h : Waits limit s pointer L) {input : LoopInput}
    (hLeaves : Leaves limit pointer L input) : Waits limit s pointer (stepLoop L input) := by
  refine ⟨h.sound.step input, ?_, ?_⟩
  · obtain ⟨t, ht, hPointer⟩ := h.known
    obtain ⟨u, hu, hSame⟩ := (grows_step L hLeaves.1).known t ht
    exact ⟨u, hu, hSame.trans hPointer⟩
  · rintro t ht rfl
    obtain ⟨u, hu, hPointer, hData⟩ := continues_list h.sound hLeaves.1 ht h.old
    rw [hData]
    exact (h.idles u hu hPointer).run hLeaves.2

theorem Closes.step (h : Closes limit s pointer L) {input : LoopInput}
    (hLeaves : Leaves limit pointer L input) : Closes limit s pointer (stepLoop L input) := by
  refine ⟨h.toWaits.step hLeaves, ?_⟩
  rintro t ht rfl
  obtain ⟨u, hu, hPointer, hData⟩ := continues_list h.sound hLeaves.1 ht h.old
  rw [hData]
  exact (h.ended u hu hPointer).run hLeaves.2

/-- A check of an idle session: what the monitor left of it is checked, and not given up. -/
theorem exists_of_mem_pass {t : NgSession} (ht : t ∈ (L.pass kernels true).ngSession) :
    ∃ u ∈ L.ngSession, u.pointer = t.pointer ∧
      (((u.data.monitor (kernels t.pointer)).check (kernels t.pointer) L.live L.maxsessions).2 = false) ∧
      t.data = ((u.data.monitor (kernels t.pointer)).check (kernels t.pointer) L.live L.maxsessions).1 := by
  rw [pass_true] at ht
  obtain ⟨v, hv, hKept, rfl⟩ := mem_update.mp ht
  obtain ⟨u, hu, rfl⟩ := mem_pass_false.1.mp hv
  exact ⟨u, hu, rfl, hKept, rfl⟩

theorem leaves_pass {check : Bool} (hLeaves : Leaves limit pointer L (.pass kernels check))
    (hIn : ∃ t ∈ L.ngSession, t.pointer = pointer) (hCheck : check = true) :
    (kernels pointer).Until limit ∧ 0 < L.maxsessions := by
  obtain ⟨t, ht, rfl⟩ := hIn
  refine hLeaves.2 (.check (kernels t.pointer) L.live L.maxsessions) ?_
  rw [shown_of_mem ht]
  simp [hCheck]

/-- The first check behind the deadline closes the session. -/
theorem Waits.close (h : Waits limit s pointer L) (hLeaves : Leaves limit pointer L (.pass kernels true))
    (hLate : ∀ call, s.time + s.longest < (kernels pointer).time call) :
    Closes limit s pointer (stepLoop L (.pass kernels true)) := by
  refine ⟨h.step hLeaves, ?_⟩
  rintro t ht rfl
  obtain ⟨u, hu, hPointer, hKept, hData⟩ := exists_of_mem_pass ht
  obtain ⟨hUntil, hMax⟩ := leaves_pass hLeaves ⟨u, hu, hPointer⟩ rfl
  have hMonitored := SessionData.idles_monitor (h.idles u hu hPointer) (kernels t.pointer)
  rw [hData]
  refine (SessionData.over_check hMonitored hUntil (Int.natCast_nonneg _) hMax (hLate _)).resolve_left ?_
  rw [hKept]
  exact Bool.false_ne_true

/-- The first check behind the time that a closed session is kept frees it. -/
theorem Closes.free (h : Closes limit s pointer L)
    (hLate : ∀ call, limit + s.keep < (kernels pointer).time call) :
    ∀ t ∈ (stepLoop L (.pass kernels true)).ngSession, t.pointer ≠ pointer := by
  rintro t ht rfl
  obtain ⟨u, hu, hPointer, hKept, -⟩ := exists_of_mem_pass ht
  have hKeep := SessionData.idles_monitor (h.idles u hu hPointer) (kernels t.pointer)
  have hEnded := SessionData.ended_monitor (h.ended u hu hPointer) (kernels t.pointer)
  have hFreed := SessionData.freed_check (K := kernels t.pointer) hEnded L.live L.maxsessions (by
    rw [hKeep.keep]
    exact hLate _)
  rw [hFreed] at hKept
  cases hKept

end EventLoop

/-- A session that is shown nothing but the passes of the loop is freed, with its socket
closed: a check behind its timeout closes it at the latest, and a check behind the time
that a closed session is kept frees it. Of the timeout only its largest value counts,
that of a session alone, and of the clock that it has not passed `limit` in between. -/
theorem idle_sessions_freed {inputs first second : List LoopInput} {kernels later : Nat → Kernel}
    {limit : Int} {s : NgSession} (hIn : s ∈ (run stepLoop .init inputs).ngSession)
    (hLeft : Along stepLoop (EventLoop.Leaves limit s.pointer) (run stepLoop .init inputs)
      (first ++ .pass kernels true :: second))
    (hLate : ∀ call, s.data.time + s.data.longest < (kernels s.pointer).time call)
    (hLater : ∀ call, limit + s.data.keep < (later s.pointer).time call) :
    let M := run stepLoop .init (inputs ++ (first ++ .pass kernels true :: second) ++ [.pass later true])
    (∀ t ∈ M.ngSession, t.pointer ≠ s.pointer) ∧
      ∃ t ∈ M.freed, t.pointer = s.pointer ∧ t.data.socket = -1 := by
  intro M
  set L := run stepLoop .init inputs with hL
  have hSound : L.Sound := sound_run inputs
  have hStart : EventLoop.Waits limit s.data s.pointer L := by
    refine ⟨hSound, ⟨s, List.mem_append_left _ hIn, rfl⟩, fun t ht hPointer => ?_⟩
    rw [hSound.eq_of_pointer hIn ht hPointer]
    exact .refl (hSound.sessions s hIn)
  obtain ⟨hFirst, hPass, hSecond⟩ := along_append.mp hLeft
  have hWaits := run_invariant hStart hFirst fun N i hN hi => hN.step hi
  have hCloses := run_invariant (hWaits.close hPass hLate) hSecond fun N i hN hi => hN.step hi
  have hM : M = stepLoop (run stepLoop (stepLoop (run stepLoop L first) (.pass kernels true)) second)
      (.pass later true) := by
    simp only [M, run_append, run_cons, run_nil, hL]
  have hGone := hCloses.free hLater
  rw [← hM] at hGone
  refine ⟨hGone, ?_⟩
  obtain ⟨t, ht, hPointer⟩ := hCloses.known
  obtain ⟨u, hu, hSame⟩ := (EventLoop.grows_pass _ later true).known t ht
  have hKnown : u ∈ M.known := hM ▸ hu
  have hFreed : u ∈ M.freed :=
    (List.mem_append.mp hKnown).resolve_left fun hList => hGone u hList (hSame.trans hPointer)
  exact ⟨u, hFreed, hSame.trans hPointer, ((sound_run _).freed u hFreed).1⟩

/-- A willing kernel at the time `now`. -/
def Kernel.willingAt (now : Int) : Kernel := { Kernel.willing with time := fun _ => now }

/-- The loop begins, and a datagram opens a session. -/
def datagramInputs : List LoopInput :=
  [.start (fun _ => .willing) false 1, .pass (fun _ => .willing) true,
    .packet .willing (clientDatagram 1 100)]

/-- Its session. -/
def idleSession : NgSession :=
  (run stepLoop .init datagramInputs).ngSession.head (by decide)

/-- The session of a datagram is freed by two checks, five minutes and six minutes later. -/
theorem idle_sessions_freed_datagram :
    let M := run stepLoop .init (datagramInputs ++ ([] ++ .pass (fun _ => .willingAt 301) true :: []) ++
      [.pass (fun _ => .willingAt 362) true])
    (∀ t ∈ M.ngSession, t.pointer ≠ idleSession.pointer) ∧
      ∃ t ∈ M.freed, t.pointer = idleSession.pointer ∧ t.data.socket = -1 := by
  have hIn : idleSession ∈ (run stepLoop .init datagramInputs).ngSession := List.head_mem _
  have hLeft : Along stepLoop (EventLoop.Leaves 301 idleSession.pointer)
      (run stepLoop .init datagramInputs) ([] ++ .pass (fun _ => .willingAt 301) true :: []) := by
    refine ⟨⟨nofun, fun m hm => ?_⟩, trivial⟩
    rw [EventLoop.shown_of_mem hIn] at hm
    rcases List.mem_cons.mp hm with rfl | hCheck
    · trivial
    · rw [List.mem_singleton.mp hCheck]
      exact ⟨fun _ => le_rfl, by decide⟩
  have hLate : idleSession.data.time + idleSession.data.longest < 301 := by decide
  have hLater : 301 + idleSession.data.keep < 362 := by decide
  exact idle_sessions_freed hIn hLeft (fun _ => hLate) fun _ => hLater

end Tun2Http
