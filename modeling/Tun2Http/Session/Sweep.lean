import Tun2Http.Machine.LinkedList
import Tun2Http.Session.Loop

/-! The sweep of `handle_events` over its linked list. Every session is checked,
those that the check gives up are unlinked, and the time to wait is cut down to
what the next session has left. -/
namespace Tun2Http

open Machine

/-- `EPOLL_TIMEOUT`, in seconds. -/
def epollTimeout : Int := 3600

/-- A difference of times as an `int`. -/
def toInt32 (value : Int) : Int := (BitVec.ofInt 32 value).toInt

namespace SessionData

/-- The time of the last use. -/
def time : SessionData → Int
  | icmp c => c.icmp.time
  | udp c => c.udp.time
  | tcp c => c.tcp.time

/-- `get_icmp_timeout`, `get_udp_timeout` and `get_tcp_timeout`. -/
def timeout (sessions maxsessions : Int) : SessionData → Int
  | icmp _ => getIcmpTimeout sessions maxsessions
  | udp c => getUdpTimeout c.udp sessions maxsessions
  | tcp c => getTcpTimeout c.tcp sessions maxsessions

/-- How many calls were made for the session. -/
def calls : SessionData → Nat
  | icmp c => c.calls
  | udp c => c.calls
  | tcp c => c.calls

end SessionData

section Sweep

variable (kernels : Nat → Kernel) (now sessions maxsessions : Int)

/-- The sweep at one session: its check, whether it is given up, and the time to wait. -/
def sweepSession (pointer : Nat) (s : SessionData) (timeout : Int) : SessionData × Bool × Int :=
  let result := s.check (kernels pointer) sessions maxsessions
  let del := result.2
  let s := result.1
  let stimeout := toInt32 (s.time + s.timeout sessions maxsessions - now + 1)
  (s, del, if s.live ∧ ¬ del ∧ 0 < stimeout ∧ stimeout < timeout then stimeout else timeout)

/-- The sweep over the list that begins at `head`. -/
def sweepSessions (turns : Nat) (head : Option Nat) (heap : Heap SessionData) :
    Option (Sweep SessionData Int) :=
  Sweep.sweepFrom (sweepSession kernels now sessions maxsessions) turns head
    ⟨head, none, heap, epollTimeout⟩

/-- What the check leaves of a session. -/
def afterCheck (entry : Nat × SessionData) : Option (Nat × SessionData) :=
  let result := entry.2.check (kernels entry.1) sessions maxsessions
  if result.2 then none else some (entry.1, result.1)

/-- What the sweep is for: the sessions given up are gone, and the others are in their
order; those that are live are not over, and the wait ends a second after the first
of them may be. -/
structure WellSwept (list : List (Nat × SessionData)) (w : Sweep SessionData Int) : Prop where
  linked : w.heap.Linked none w.head (list.filterMap (afterCheck kernels sessions maxsessions))
  gone : ∀ entry ∈ list, (entry.2.check (kernels entry.1) sessions maxsessions).2 = true →
    w.heap entry.1 = none
  current : ∀ entry ∈ list.filterMap (afterCheck kernels sessions maxsessions),
    entry.2.live = true → now ≤ entry.2.time + entry.2.timeout sessions maxsessions
  wait : 1 ≤ w.gathered ∧ w.gathered ≤ epollTimeout
  early : ∀ entry ∈ list.filterMap (afterCheck kernels sessions maxsessions),
    entry.2.live = true →
      w.gathered ≤ entry.2.time + entry.2.timeout sessions maxsessions - now + 1

end Sweep

/-! The checks. -/

section Checks

variable {K : Kernel} {sessions maxsessions : Int}

theorem dropCounts_of_live {c : Cell} (h : c.tcp.state ≠ .closing ∧ c.tcp.state ≠ .close) :
    dropCounts c = c := if_neg fun hOver => hOver.1.elim h.1 h.2

/-- A session that is over is closing. -/
theorem checkTimeout_state {timeout now : Int} {c : Cell}
    (h : c.tcp.state ≠ .closing ∧ c.tcp.state ≠ .close ∧ c.tcp.time + timeout < now) :
    (checkTimeout K timeout now c).tcp.state = .closing := by
  rw [checkTimeout, if_pos h]
  split_ifs
  · rfl
  · rw [writeRst_state, if_neg h.2.1]

/-- A TCP session that is live behind its check was not over, and is as it was. -/
theorem checkTcpSession_live {c : Cell}
    (hLive : (SessionData.tcp (checkTcpSession K sessions maxsessions c).1).live = true) :
    (checkTcpSession K sessions maxsessions c).1.tcp = c.tcp ∧
      K.time c.calls ≤ c.tcp.time + getTcpTimeout c.tcp sessions maxsessions := by
  have hState : (checkTcpSession K sessions maxsessions c).1.tcp.state ≠ .closing ∧
      (checkTcpSession K sessions maxsessions c).1.tcp.state ≠ .close := of_decide_eq_true hLive
  unfold checkTcpSession at hState ⊢
  dsimp only at hState ⊢
  set timed := c.call (.time (K.time c.calls)) with hTimed
  have hSame : timed.tcp = c.tcp := rfl
  rw [dropCounts_state, checkClosing_state] at hState
  by_cases hOver : timed.tcp.state ≠ .closing ∧ timed.tcp.state ≠ .close ∧
      timed.tcp.time + getTcpTimeout timed.tcp sessions maxsessions < K.time c.calls
  · rw [checkTimeout_state hOver, if_pos rfl] at hState
    exact absurd rfl hState.2
  · have hKept : checkTimeout K (getTcpTimeout timed.tcp sessions maxsessions) (K.time c.calls) timed =
        timed := if_neg hOver
    rw [hKept] at hState ⊢
    have hOpen : timed.tcp.state ≠ .closing := by
      intro hClosing
      rw [if_pos hClosing] at hState
      exact hState.2 rfl
    rw [if_neg hOpen] at hState
    have hNotClosing : checkClosing K timed = timed := if_neg hOpen
    rw [hNotClosing, dropCounts_of_live hState]
    rw [hSame] at hState hOver
    exact ⟨hSame, not_lt.mp fun hLate => hOver ⟨hState.1, hState.2, hLate⟩⟩

theorem udpDropCounts_state (c : UdpCell) : (udpDropCounts c).udp.state = c.udp.state := by
  unfold udpDropCounts
  split_ifs <;> rfl

theorem udpFinished_state (K : Kernel) (c : UdpCell) :
    (udpFinished K c).udp.state = if c.udp.state = .finishing then .closed else c.udp.state := by
  unfold udpFinished
  split_ifs <;> rfl

/-- So is a UDP session. -/
theorem checkUdpSession_live {c : UdpCell}
    (hLive : (checkUdpSession K sessions maxsessions c).1.udp.state = .active) :
    (checkUdpSession K sessions maxsessions c).1.udp = c.udp ∧
      K.time c.calls ≤ c.udp.time + getUdpTimeout c.udp sessions maxsessions := by
  unfold checkUdpSession at hLive ⊢
  dsimp only at hLive ⊢
  set timed := c.call (.time (K.time c.calls)) with hTimed
  rw [udpDropCounts_state, udpFinished_state] at hLive
  by_cases hOver : timed.udp.state = .active ∧
      timed.udp.time + getUdpTimeout timed.udp sessions maxsessions < K.time c.calls
  · rw [udpTimeout, if_pos hOver, UdpCell.finish_state, if_pos rfl] at hLive
    cases hLive
  · have hKept : udpTimeout (getUdpTimeout timed.udp sessions maxsessions) (K.time c.calls) timed =
        timed := if_neg hOver
    rw [hKept] at hLive ⊢
    have hOpen : timed.udp.state ≠ .finishing := by
      intro hFinishing
      rw [if_pos hFinishing] at hLive
      cases hLive
    rw [if_neg hOpen] at hLive
    have hNotFinishing : udpFinished K timed = timed := if_neg hOpen
    have hCounts : udpDropCounts timed = timed := if_neg fun hClosed => by
      rw [hLive] at hClosed
      cases hClosed.1
    rw [hNotFinishing, hCounts]
    exact ⟨rfl, not_lt.mp fun hLate => hOver ⟨hLive, hLate⟩⟩

/-- A session that is live behind its check was not over when the check began, and
has the time and the timeout that it had. -/
theorem check_live {s : SessionData} (hLive : (s.check K sessions maxsessions).1.live = true)
    (hKept : (s.check K sessions maxsessions).2 = false) :
    K.time s.calls ≤ (s.check K sessions maxsessions).1.time +
      (s.check K sessions maxsessions).1.timeout sessions maxsessions := by
  cases s with
  | icmp c =>
      unfold SessionData.check checkIcmpSession at hLive hKept ⊢
      dsimp only at hLive hKept ⊢
      split_ifs at hLive hKept ⊢ with hOver
      exact not_lt.mp fun hLate => hOver (Or.inr hLate)
  | udp c =>
      obtain ⟨hSame, hTime⟩ := checkUdpSession_live (of_decide_eq_true hLive)
      show K.time c.calls ≤ (checkUdpSession K sessions maxsessions c).1.udp.time +
        getUdpTimeout (checkUdpSession K sessions maxsessions c).1.udp sessions maxsessions
      rw [hSame]
      exact hTime
  | tcp c =>
      obtain ⟨hSame, hTime⟩ := checkTcpSession_live hLive
      show K.time c.calls ≤ (checkTcpSession K sessions maxsessions c).1.tcp.time +
        getTcpTimeout (checkTcpSession K sessions maxsessions c).1.tcp sessions maxsessions
      rw [hSame]
      exact hTime

end Checks

/-! The time to wait. -/

/-- A difference that is an `int` is itself, and a larger one becomes no larger. -/
theorem toInt32_le {value : Int} (h : 0 ≤ value) : toInt32 value ≤ value := by
  rw [toInt32, BitVec.toInt_ofInt, Int.bmod]
  split_ifs <;> omega

theorem toInt32_of_small {value : Int} (hLow : 0 ≤ value) (hHigh : value ≤ epollTimeout) :
    toInt32 value = value := by
  unfold epollTimeout at hHigh
  rw [toInt32, BitVec.toInt_ofInt, Int.bmod]
  split_ifs <;> omega

section Sweep

variable {kernels : Nat → Kernel} {now sessions maxsessions : Int}

theorem afterCheck_eq_some_iff {entry after : Nat × SessionData} :
    afterCheck kernels sessions maxsessions entry = some after ↔
      (entry.2.check (kernels entry.1) sessions maxsessions).2 = false ∧
        after = (entry.1, (entry.2.check (kernels entry.1) sessions maxsessions).1) := by
  unfold afterCheck
  dsimp only
  split_ifs with hDel
  · simp [hDel]
  · simp [Bool.eq_false_iff.mpr hDel, eq_comm]

variable (kernels now sessions maxsessions) in
/-- At one session the wait is cut down to what the session has left, if at all. -/
theorem sweepSession_timeout (pointer : Nat) (s : SessionData) {timeout : Int} (hSome : 1 ≤ timeout)
    (hMost : timeout ≤ epollTimeout) :
    1 ≤ (sweepSession kernels now sessions maxsessions pointer s timeout).2.2 ∧
      (sweepSession kernels now sessions maxsessions pointer s timeout).2.2 ≤ timeout ∧
      ∀ left, left = (s.check (kernels pointer) sessions maxsessions).1.time +
          (s.check (kernels pointer) sessions maxsessions).1.timeout sessions maxsessions - now + 1 →
        (s.check (kernels pointer) sessions maxsessions).1.live = true →
        (s.check (kernels pointer) sessions maxsessions).2 = false → 1 ≤ left →
          (sweepSession kernels now sessions maxsessions pointer s timeout).2.2 ≤ left := by
  unfold sweepSession
  dsimp only
  split_ifs with hCut
  · refine ⟨hCut.2.2.1, hCut.2.2.2.le, ?_⟩
    rintro left rfl - - hLeft
    exact toInt32_le (by omega)
  · refine ⟨hSome, le_refl _, ?_⟩
    rintro left rfl hLive hKept hLeft
    by_contra hMore
    have hSmall := toInt32_of_small (by omega) (le_of_lt ((not_le.mp hMore).trans_le hMost))
    refine hCut ⟨hLive, by simp [hKept], ?_⟩
    rw [hSmall]
    omega

variable (kernels now sessions maxsessions) in
/-- The list that is left is the list of the sessions that are not given up. -/
theorem swept_sweepSession (list : List (Nat × SessionData)) (timeout : Int) :
    (Sweep.swept (sweepSession kernels now sessions maxsessions) list timeout).1 =
      list.filterMap (afterCheck kernels sessions maxsessions) := by
  induction list generalizing timeout with
  | nil => rfl
  | cons entry rest ih =>
      rw [Sweep.swept, List.filterMap_cons, afterCheck]
      dsimp only
      rw [ih]
      unfold sweepSession
      dsimp only
      split_ifs <;> rfl

/-- Over a list the wait becomes no longer than what any live session has left. -/
theorem swept_timeout {list : List (Nat × SessionData)} {timeout : Int} (hSome : 1 ≤ timeout)
    (hMost : timeout ≤ epollTimeout)
    (hCurrent : ∀ entry ∈ list.filterMap (afterCheck kernels sessions maxsessions),
      entry.2.live = true → now ≤ entry.2.time + entry.2.timeout sessions maxsessions) :
    1 ≤ (Sweep.swept (sweepSession kernels now sessions maxsessions) list timeout).2 ∧
      (Sweep.swept (sweepSession kernels now sessions maxsessions) list timeout).2 ≤ timeout ∧
      ∀ entry ∈ list.filterMap (afterCheck kernels sessions maxsessions), entry.2.live = true →
        (Sweep.swept (sweepSession kernels now sessions maxsessions) list timeout).2 ≤
          entry.2.time + entry.2.timeout sessions maxsessions - now + 1 := by
  induction list generalizing timeout with
  | nil => exact ⟨hSome, le_refl _, fun entry hNone => by cases hNone⟩
  | cons entry rest ih =>
      obtain ⟨hSomeHere, hCut, hHere⟩ :=
        sweepSession_timeout kernels now sessions maxsessions entry.1 entry.2 hSome hMost
      obtain ⟨hFirst, hLess, hRest⟩ := ih hSomeHere (hCut.trans hMost) fun other hOther =>
        hCurrent other (((List.sublist_cons_self entry rest).filterMap _).subset hOther)
      refine ⟨hFirst, hLess.trans hCut, fun other hOther hLive => ?_⟩
      obtain ⟨before, hIn, hAfter⟩ := List.mem_filterMap.mp hOther
      rcases List.mem_cons.mp hIn with rfl | hLater
      · have hTime := hCurrent other hOther hLive
        obtain ⟨hKept, rfl⟩ := afterCheck_eq_some_iff.mp hAfter
        exact hLess.trans (hHere _ rfl hLive hKept (by omega))
      · exact hRest other (List.mem_filterMap.mpr ⟨before, hLater, hAfter⟩) hLive

variable (sessions maxsessions) in
/-- The sessions that are left and live are not over, by a clock that does not go back. -/
theorem current_of_clock {list : List (Nat × SessionData)}
    (hClock : ∀ entry ∈ list, now ≤ (kernels entry.1).time entry.2.calls) :
    ∀ entry ∈ list.filterMap (afterCheck kernels sessions maxsessions), entry.2.live = true →
      now ≤ entry.2.time + entry.2.timeout sessions maxsessions := by
  intro entry hEntry hLive
  obtain ⟨before, hIn, hAfter⟩ := List.mem_filterMap.mp hEntry
  obtain ⟨hKept, rfl⟩ := afterCheck_eq_some_iff.mp hAfter
  exact (hClock before hIn).trans (check_live hLive hKept)

/-- A session that is given up is not in the list that is left. -/
theorem not_mem_of_freed {list : List (Nat × SessionData)} (hApart : (list.map Prod.fst).Nodup)
    {entry : Nat × SessionData} (hIn : entry ∈ list)
    (hDel : (entry.2.check (kernels entry.1) sessions maxsessions).2 = true) :
    entry.1 ∉ (list.filterMap (afterCheck kernels sessions maxsessions)).map Prod.fst := by
  intro hLeft
  obtain ⟨after, hAfter, hSame⟩ := List.mem_map.mp hLeft
  obtain ⟨other, hOther, hChecked⟩ := List.mem_filterMap.mp hAfter
  obtain ⟨hKept, rfl⟩ := afterCheck_eq_some_iff.mp hChecked
  obtain rfl := List.inj_on_of_nodup_map hApart hOther hIn hSame
  rw [hKept] at hDel
  cases hDel

variable (kernels now sessions maxsessions) in
/-- The sweep ends. The sessions given up are freed, and the others are left in their order. -/
theorem sweepSessions_done {heap : Heap SessionData} {head : Option Nat}
    {list : List (Nat × SessionData)} {turns : Nat} (hLinked : heap.Linked none head list)
    (hApart : (list.map Prod.fst).Nodup) (hTurns : list.length < turns) :
    ∃ w, sweepSessions kernels now sessions maxsessions turns head heap = some w ∧
      w.heap.Linked none w.head (list.filterMap (afterCheck kernels sessions maxsessions)) ∧
      (∀ entry ∈ list, (entry.2.check (kernels entry.1) sessions maxsessions).2 = true →
        w.heap entry.1 = none) ∧
      w.gathered = (Sweep.swept (sweepSession kernels now sessions maxsessions) list epollTimeout).2 := by
  have hAt : Sweep.At (⟨head, none, heap, epollTimeout⟩ : Sweep SessionData Int) [] head list :=
    ⟨rfl, rfl, hLinked, hApart⟩
  obtain ⟨w, hEnd, hDone⟩ : ∃ w, sweepSessions kernels now sessions maxsessions turns head heap = some w ∧
      Sweep.Done (sweepSession kernels now sessions maxsessions) _ w [] list :=
    Sweep.sweepFrom_done hAt hTurns
  have hKept := swept_sweepSession kernels now sessions maxsessions list epollTimeout
  refine ⟨w, hEnd, ?_, fun entry hIn hDel => hDone.freed entry hIn ?_, hDone.gathered⟩
  · rw [← hKept]
    exact hDone.linked
  · rw [hKept]
    exact not_mem_of_freed hApart hIn hDel

variable (sessions maxsessions) in
/-- The sweep sweeps well, whatever the sessions and their number are, if the clock of
the checks does not go back behind `now`. -/
theorem sweep_never_oversleeps {heap : Heap SessionData} {head : Option Nat}
    {list : List (Nat × SessionData)} {turns : Nat} (hLinked : heap.Linked none head list)
    (hApart : (list.map Prod.fst).Nodup) (hTurns : list.length < turns)
    (hClock : ∀ entry ∈ list, now ≤ (kernels entry.1).time entry.2.calls) :
    ∃ w, sweepSessions kernels now sessions maxsessions turns head heap = some w ∧
      WellSwept kernels now sessions maxsessions list w := by
  obtain ⟨w, hEnd, hLeft, hGone, hGathered⟩ :=
    sweepSessions_done kernels now sessions maxsessions hLinked hApart hTurns
  have hCurrent := current_of_clock sessions maxsessions hClock
  obtain ⟨hSome, hMost, hEarly⟩ := swept_timeout (by decide) (le_refl epollTimeout) hCurrent
  rw [← hGathered] at hSome hMost hEarly
  exact ⟨w, hEnd, hLeft, hGone, hCurrent, ⟨hSome, hMost⟩, hEarly⟩

end Sweep

/-- An echo session that was used at the time 0. -/
def idleEcho : SessionData :=
  .icmp
    { icmp :=
        { time := 0, uid := 10001, version := 4, saddr := [10, 1, 10, 1], daddr := [93, 184, 216, 34],
          id := 7, stop := false }
      socket := 3
      log := [] }

/-- A session of a name server that was used at the time 95. -/
def recentQuery : SessionData :=
  .udp
    { udp :=
        { time := 95, uid := 10001, version := 4, mss := udpMaxmsg 4, sent := 0, received := 0,
          saddr := [10, 1, 10, 1], source := 40000, daddr := [8, 8, 8, 8], dest := 53, state := .active }
      socket := 4
      log := [] }

/-- Both of them in a heap. -/
def twoSessions : Heap SessionData := fun address =>
  if address = 1 then some ⟨idleEcho, some 2⟩ else if address = 2 then some ⟨recentQuery, none⟩ else none

/-- At the time 100. -/
theorem sweep_never_oversleeps_two : ∃ w,
    sweepSessions (fun _ => { Kernel.willing with time := fun _ => 100 }) 100 2 10 3 (some 1) twoSessions =
      some w ∧
    WellSwept (fun _ => { Kernel.willing with time := fun _ => 100 }) 100 2 10
      [(1, idleEcho), (2, recentQuery)] w :=
  sweep_never_oversleeps 2 10 ⟨rfl, some 2, rfl, rfl, none, rfl, rfl⟩ (by decide) (by decide)
    fun _ _ => le_refl _

/-! The list of the loop. -/

/-- The sessions at their addresses. -/
def entries (list : List NgSession) : List (Nat × SessionData) :=
  list.map fun s => (s.pointer, s.data)

/-- A pass of the loop that checks leaves the list that the sweep leaves. -/
theorem linked_pass {L counted : EventLoop} (hSound : L.Sound) (kernels : Nat → Kernel) (now : Int)
    (hCounted : counted = L.pass kernels false) {heap : Heap SessionData} {head : Option Nat}
    {turns : Nat} (hLinked : heap.Linked none head (entries counted.ngSession))
    (hTurns : counted.ngSession.length < turns) :
    ∃ w, sweepSessions kernels now counted.sessions counted.maxsessions turns head heap = some w ∧
      w.heap.Linked none w.head (entries (L.pass kernels true).ngSession) := by
  have hPass : (L.pass kernels true).ngSession = (counted.update fun s =>
      s.data.check (kernels s.pointer) counted.sessions counted.maxsessions).ngSession := by
    rw [hCounted]
    rfl
  have hApart : ((entries counted.ngSession).map Prod.fst).Nodup := by
    have hPointers := (hSound.pass kernels false).pointers
    rw [← hCounted] at hPointers
    simpa [Keyed, entries, List.filterMap_eq_map', Function.comp_def] using hPointers
  obtain ⟨w, hEnd, hLeft, -⟩ := sweepSessions_done kernels now counted.sessions counted.maxsessions
    hLinked hApart (by simpa [entries] using hTurns)
  refine ⟨w, hEnd, ?_⟩
  have hSame : (entries counted.ngSession).filterMap
      (afterCheck kernels counted.sessions counted.maxsessions) =
        entries (L.pass kernels true).ngSession := by
    rw [hPass, entries, entries, EventLoop.update, List.filterMap_map, List.map_filterMap]
    congr 1
    funext s
    simp only [Function.comp_apply, afterCheck]
    split_ifs <;> rfl
  rwa [← hSame]

end Tun2Http
