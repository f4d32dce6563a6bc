import Tun2Http.App.VpnService
import Tun2Http.Session.StopRequest

/-! How long the tun is open. While the callbacks of the service do not overlap, it closes a
descriptor only when no event thread uses it any more, however the callbacks and the event
threads interleave. -/
namespace Tun2Http

open Machine

/-! The moves of the threads, between the calls of the service. -/

namespace Signal

variable {s s' : Signal} {m : SignalMove} {thread : Nat}

/-- The thread has its tun, and has not yet taken itself out of `thread_id`. -/
def Uses (s : Signal) (thread : Nat) : Prop := s.phase thread ≠ .cleared ∧ s.phase thread ≠ .gone

theorem InLoop.uses (h : s.InLoop thread) : s.Uses thread := by
  refine ⟨fun hCleared => ?_, h.ne_gone⟩
  rw [InLoop, hCleared] at h
  cases h

/-- What the threads leave to the calls: no thread is new, one that is out of its loop does
not come back, and a byte is taken from the pipe only by a thread that leaves with it. -/
structure Onward (s s' : Signal) : Prop where
  starts : s'.starts = s.starts
  stops : s'.stops = s.stops
  length : s'.threads.length = s.threads.length
  uses : ∀ thread, s'.Uses thread → s.Uses thread
  inLoop : ∀ thread, s'.InLoop thread → s.InLoop thread
  threadId : s'.threadId = s.threadId ∨ ∃ thread, s.Uses thread ∧ ¬ s'.Uses thread
  pipe : s'.pipe = s.pipe ∨ ∃ thread, s.InLoop thread ∧ ¬ s'.InLoop thread

theorem Onward.refl (s : Signal) : Onward s s :=
  ⟨rfl, rfl, rfl, fun _ h => h, fun _ h => h, Or.inl rfl, Or.inl rfl⟩

theorem ne_gone_of_phase {before : ThreadPhase} (hPhase : s.phase thread = before) (hBefore : before ≠ .gone) :
    s.phase thread ≠ .gone := fun hGone => hBefore (hPhase.symm.trans hGone)

theorem uses_setPhase (hThread : s.phase thread ≠ .gone) (next : ThreadPhase) (other : Nat) :
    (s.setPhase thread next).Uses other ↔
      if other = thread then next ≠ .cleared ∧ next ≠ .gone else s.Uses other := by
  unfold Uses
  rw [phase_setPhase hThread]
  split_ifs <;> rfl

/-- A thread in its loop goes on. -/
theorem onward_inLoop (hIn : s.InLoop thread) (next : ThreadPhase) : Onward s (s.setPhase thread next) := by
  refine ⟨rfl, rfl, length_setPhase .., fun other hUses => ?_, fun other hOther => ?_, Or.inl rfl, Or.inl rfl⟩
  · rw [uses_setPhase hIn.ne_gone] at hUses
    split_ifs at hUses with hSame
    · exact hSame ▸ hIn.uses
    · exact hUses
  · rw [inLoop_setPhase hIn.ne_gone] at hOther
    split_ifs at hOther with hSame
    · exact hSame ▸ hIn
    · exact hOther

theorem onward_handleEvents {events : List ThreadEvent} (hBatch : s.phase thread = .batch events) :
    Onward s (s.handleEvents thread events) := by
  have hIn : s.InLoop thread := inLoop_of_phase hBatch rfl
  cases events with
  | nil => exact onward_inLoop hIn _
  | cons event rest =>
      cases event with
      | pipe =>
          have hLeaves : ¬ (s.setPhase thread .leaving).InLoop thread := by
            rw [inLoop_setPhase hIn.ne_gone, if_pos rfl]
            exact Bool.false_ne_true
          have hOnward := onward_inLoop hIn .leaving
          exact ⟨rfl, rfl, hOnward.length, hOnward.uses, hOnward.inLoop, Or.inl rfl,
            Or.inr ⟨thread, hIn, hLeaves⟩⟩
      | tun failed => exact onward_inLoop hIn _
      | socket => exact onward_inLoop hIn _
      | endless => exact .refl s

theorem onward_epollWait (hWaiting : s.phase thread = .waiting) (result : WaitResult) :
    Onward s (s.epollWait thread result) := by
  have hIn : s.InLoop thread := inLoop_of_phase hWaiting rfl
  cases result with
  | interrupted => exact .refl s
  | failed => exact onward_inLoop hIn _
  | ready events =>
      unfold epollWait
      dsimp only
      split_ifs
      · exact .refl s
      · exact onward_inLoop hIn _

theorem onward_clears (hLeaving : s.phase thread = .leaving) :
    Onward s { s.setPhase thread .cleared with threadId := none } := by
  have hThread := ne_gone_of_phase hLeaving ThreadPhase.noConfusion
  have hUses : s.Uses thread := ⟨by rw [hLeaving]; exact ThreadPhase.noConfusion, hThread⟩
  have hNow := uses_setPhase hThread .cleared
  have hIn := inLoop_setPhase hThread .cleared
  refine ⟨rfl, rfl, length_setPhase .., fun other hOther => ?_, fun other hOther => ?_,
    Or.inr ⟨thread, hUses, fun hStill => ?_⟩, Or.inl rfl⟩
  · have hOther := (hNow other).mp hOther
    split_ifs at hOther with hSame
    · exact absurd rfl hOther.1
    · exact hOther
  · have hOther := (hIn other).mp hOther
    split_ifs at hOther with hSame
    · cases hOther
    · exact hOther
  · have hStill := (hNow thread).mp hStill
    rw [if_pos rfl] at hStill
    exact hStill.1 rfl

theorem onward_ends (hCleared : s.phase thread = .cleared) : Onward s (s.setPhase thread .gone) := by
  have hThread := ne_gone_of_phase hCleared ThreadPhase.noConfusion
  refine ⟨rfl, rfl, length_setPhase .., fun other hUses => ?_, fun other hOther => ?_, Or.inl rfl, Or.inl rfl⟩
  · rw [uses_setPhase hThread] at hUses
    split_ifs at hUses with hSame
    · exact absurd rfl hUses.2
    · exact hUses
  · rw [inLoop_setPhase hThread] at hOther
    split_ifs at hOther with hSame
    · cases hOther
    · exact hOther

theorem onward_step (s : Signal) (hThread : m.ofThread = true) : Onward s (s.step m) := by
  cases m with
  | attaches thread ok =>
      by_cases hPhase : s.phase thread = .attaching
      · rw [step, if_pos hPhase]
        exact onward_inLoop (inLoop_of_phase hPhase rfl) _
      · rw [step, if_neg hPhase]
        exact .refl s
  | opens thread ok =>
      by_cases hPhase : s.phase thread = .opening
      · rw [step, if_pos hPhase]
        exact onward_inLoop (inLoop_of_phase hPhase rfl) _
      · rw [step, if_neg hPhase]
        exact .refl s
  | waits thread result =>
      unfold step
      dsimp only
      split_ifs with hPhase
      · exact onward_epollWait hPhase result
      · exact .refl s
  | handles thread =>
      unfold step
      dsimp only
      split
      next events hBatch => exact onward_handleEvents hBatch
      next => exact .refl s
  | clears thread =>
      unfold step
      dsimp only
      split_ifs with hPhase
      · exact onward_clears hPhase
      · exact .refl s
  | ends thread =>
      unfold step
      dsimp only
      split_ifs with hPhase
      · exact onward_ends hPhase
      · exact .refl s
  | _ => cases hThread

/-- A call of `jni_stop` is about the thread that it finds in `thread_id`. -/
theorem stopCalled_phase (s : Signal) : ∃ phase, (s.step .stopCalled).stops[s.stops.length]? = some phase ∧
    (phase = .done → s.threadId = none) ∧
    (∀ request, phase.request = some request → s.threadId = some request.thread) ∧
    ∀ request, phase ≠ .joining request := by
  have hLast : (s.step .stopCalled).stops[s.stops.length]? = some _ := List.getElem?_concat_length
  cases hId : s.threadId with
  | none =>
      rw [hId] at hLast
      refine ⟨.done, hLast, fun _ => rfl, fun request hRequest => ?_, fun _ => StopPhase.noConfusion⟩
      cases hRequest
  | some thread =>
      rw [hId] at hLast
      refine ⟨.testing ⟨thread, s.threads.length⟩, hLast, StopPhase.noConfusion, fun request hRequest => ?_,
        fun _ => StopPhase.noConfusion⟩
      cases hRequest
      rfl

theorem uses_created (starts : List StartPhase) (other : Nat) :
    Uses { s with threads := s.threads ++ [.attaching], threadId := some s.threads.length, starts := starts }
      other ↔ other = s.threads.length ∨ s.Uses other := by
  unfold Uses
  rw [phase_created]
  split_ifs with hNew
  · exact iff_of_true ⟨ThreadPhase.noConfusion, ThreadPhase.noConfusion⟩ (Or.inl hNew)
  · exact (or_iff_right hNew).symm

end Signal

namespace VpnService

variable {S : VpnService} {m : ServiceMove} {on : ServiceThread} {caller : StopCaller}

/-- How far a native call is. While a thread is created there is no other one; and a stop
waits for the only thread that there may be, with a byte in the pipe for as long as the
thread is in its loop. -/
def Calls (S : VpnService) : NativeCall → Prop
  | .none => True
  | .start call tun => S.vpn = some tun ∧ ∀ phase, S.signal.starts[call]? = some phase →
      phase ≠ .done → ∀ thread, ¬ S.signal.Uses thread
  | .stop call _ => S.vpn ≠ none ∧ ∃ phase, S.signal.stops[call]? = some phase ∧
      (phase = .done → ∀ thread, ¬ S.signal.Uses thread) ∧
      (∀ request, phase.request = some request → ∀ thread, S.signal.Uses thread → thread = request.thread) ∧
      ∀ request, phase = .joining request → S.signal.InLoop request.thread → S.signal.pipe ≠ []
  | .revoked => S.vpn = none

/-- No other thread of the service is in a callback. -/
def Alone (S : VpnService) (on : ServiceThread) : Prop := ∀ other, other ≠ on → S.native other = .none

/-- A thread that uses its tun is the one in `thread_id`, and its tun is that of the service.
Every other descriptor has been closed, once. -/
structure Sound (S : VpnService) : Prop where
  tuns : S.tuns.length = S.signal.threads.length
  uses : ∀ thread, S.signal.Uses thread → S.signal.threadId = some thread ∧
    ∃ tun, S.tuns[thread]? = some tun ∧ S.vpn = some tun
  calls : ∀ on, S.Calls (S.native on)
  alone : ∃ on, S.Alone on
  created : S.created = false → (∀ on, S.native on = .none) ∧ S.vpn = none
  closed : S.closed.Nodup
  open_iff : ∀ tun, tun < S.established ∧ tun ∉ S.closed ↔ S.vpn = some tun
  before : ∀ tun ∈ S.closed, tun < S.established

/-- A thread that is in a callback is the only one. -/
theorem Sound.alone_of (h : Sound S) {call : NativeCall} (hNative : S.native on = call) (hCall : call ≠ .none) :
    S.Alone on := by
  obtain ⟨first, hFirst⟩ := h.alone
  have hSame : on = first := by
    by_contra hOther
    exact hCall (hNative.symm.trans (hFirst on hOther))
  exact hSame ▸ hFirst

/-- Where only one thread is in a callback, only its call is to be looked at. -/
theorem calls_of_alone {T : VpnService} (hAlone : T.Alone on) (hCall : T.Calls (T.native on))
    (other : ServiceThread) : T.Calls (T.native other) := by
  by_cases hSame : other = on
  · exact hSame ▸ hCall
  · rw [hAlone other hSame]
    trivial

theorem calls_of_free {T : VpnService} (hFree : ∀ on, T.native on = .none) (on : ServiceThread) :
    T.Calls (T.native on) := by
  rw [hFree on]
  trivial

@[simp] theorem goes_native (S : VpnService) (on : ServiceThread) (call : NativeCall) :
    (S.goes on call).native on = call := Function.update_self ..

theorem Alone.goes (hAlone : S.Alone on) (call : NativeCall) : (S.goes on call).Alone on :=
  fun other hOther => (Function.update_of_ne hOther ..).trans (hAlone other hOther)

theorem Alone.goes_none (hAlone : S.Alone on) (other : ServiceThread) : (S.goes on .none).native other = .none := by
  by_cases hSame : other = on
  · rw [hSame, goes_native]
  · exact hAlone.goes .none other hSame

/-- The thread goes on to another call, of which the same can be said. -/
theorem Sound.goes (h : Sound S) (hAlone : S.Alone on) {call : NativeCall} (hCall : S.Calls call)
    (hCreated : S.created = true) : Sound (S.goes on call) := by
  have hCalls : ∀ other, (S.goes on call).Calls ((S.goes on call).native other) := by
    refine calls_of_alone (hAlone.goes call) ?_
    rw [goes_native]
    exact hCall
  refine ⟨h.tuns, h.uses, hCalls, ⟨on, hAlone.goes call⟩, fun hNot => ?_, h.closed, h.open_iff, h.before⟩
  exact absurd (hCreated.symm.trans hNot) Bool.noConfusion

theorem Sound.created_of (h : Sound S) {call : NativeCall} (hNative : S.native on = call) (hCall : call ≠ .none) :
    S.created = true := by
  by_contra hNot
  exact hCall (hNative.symm.trans ((h.created (by simpa using hNot)).1 on))

theorem Sound.starting (h : Sound S) {call tun : Nat} (hNative : S.native on = .start call tun) :
    S.vpn = some tun ∧ ∀ phase, S.signal.starts[call]? = some phase → phase ≠ .done →
      ∀ thread, ¬ S.signal.Uses thread := by
  have hCalls := h.calls on
  rw [hNative] at hCalls
  exact hCalls

/-- Where the phase of the call of `jni_stop` is known. -/
theorem Sound.stopping (h : Sound S) {call : Nat} (hNative : S.native on = .stop call caller)
    {phase : StopPhase} (hCall : S.signal.stops[call]? = some phase) :
    S.vpn ≠ none ∧ (phase = .done → ∀ thread, ¬ S.signal.Uses thread) ∧
      (∀ request, phase.request = some request → ∀ thread, S.signal.Uses thread → thread = request.thread) ∧
      ∀ request, phase = .joining request → S.signal.InLoop request.thread → S.signal.pipe ≠ [] := by
  have hCalls := h.calls on
  rw [hNative] at hCalls
  obtain ⟨hOpen, found, hFound, hRest⟩ := hCalls
  obtain rfl : phase = found := Option.some.inj (hCall.symm.trans hFound)
  exact ⟨hOpen, hRest⟩

theorem Sound.exists_phase (h : Sound S) {call : Nat} (hNative : S.native on = .stop call caller) :
    ∃ phase, S.signal.stops[call]? = some phase := by
  have hCalls := h.calls on
  rw [hNative] at hCalls
  obtain ⟨-, phase, hCall, -⟩ := hCalls
  exact ⟨phase, hCall⟩

theorem Sound.nobody (h : Sound S) (hClosed : S.vpn = none) (thread : Nat) : ¬ S.signal.Uses thread := by
  intro hUses
  obtain ⟨-, tun, -, hOpen⟩ := h.uses thread hUses
  rw [hClosed] at hOpen
  cases hOpen

theorem sound_init (host : String) (port : Int) (running : Bool) : Sound (init host port running) := by
  have hNobody : ∀ thread, ¬ (init host port running).signal.Uses thread := fun thread hUses => hUses.2 rfl
  refine ⟨rfl, fun thread hUses => absurd hUses (hNobody thread), fun _ => trivial, ⟨.main, fun _ _ => rfl⟩,
    fun _ => ⟨fun _ => rfl, rfl⟩, List.nodup_nil, fun tun => ⟨fun hOpen => ?_, fun hOpen => ?_⟩,
    fun tun hIn => absurd hIn List.not_mem_nil⟩
  · exact absurd hOpen.1 (Nat.not_lt_zero tun)
  · cases hOpen

/-! The threads. -/

theorem Sound.onward (h : Sound S) {s' : Signal} (hOnward : S.signal.Onward s') :
    Sound { S with signal := s' } := by
  refine ⟨h.tuns.trans hOnward.length.symm, fun thread hUses => ?_, fun on => ?_, h.alone, h.created, h.closed,
    h.open_iff, h.before⟩
  · obtain ⟨hId, hTun⟩ := h.uses thread (hOnward.uses thread hUses)
    refine ⟨?_, hTun⟩
    rcases hOnward.threadId with hSame | ⟨other, hOther, hGone⟩
    · exact hSame.trans hId
    · -- The thread that has gone out of `thread_id` is the only one.
      have hOnly := (h.uses other hOther).1
      rw [hId] at hOnly
      cases hOnly
      exact absurd hUses hGone
  · have hCalls := h.calls on
    dsimp only
    cases hNative : S.native on with
    | none => trivial
    | start call tun =>
        rw [hNative] at hCalls
        refine ⟨hCalls.1, fun phase hPhase hDone thread hUses => ?_⟩
        exact hCalls.2 phase (hOnward.starts ▸ hPhase) hDone thread (hOnward.uses thread hUses)
    | stop call caller =>
        rw [hNative] at hCalls
        obtain ⟨hOpen, phase, hPhase, hDone, hOnly, hJoining⟩ := hCalls
        refine ⟨hOpen, phase, hOnward.stops ▸ hPhase, fun hLast thread hUses => ?_,
          fun request hRequest thread hUses => ?_, fun request hJoins hIn => ?_⟩
        · exact hDone hLast thread (hOnward.uses thread hUses)
        · exact hOnly request hRequest thread (hOnward.uses thread hUses)
        · rcases hOnward.pipe with hSame | ⟨other, hOther, hLeft⟩
          · exact hSame ▸ hJoining request hJoins (hOnward.inLoop _ hIn)
          · -- Who has left with the byte is who is waited for.
            have hWho := hOnly request (hJoins ▸ rfl) other hOther.uses
            exact absurd (hWho ▸ hIn) hLeft
    | revoked =>
        rw [hNative] at hCalls
        exact hCalls

/-! `start`. -/

theorem Sound.establish (h : Sound S) (hClosed : S.vpn = none) (hCreated : S.created = true)
    (hFree : ∀ on, S.native on = .none) :
    Sound { S with vpn := some S.established, established := S.established + 1 } := by
  refine ⟨h.tuns, fun thread hUses => absurd hUses (h.nobody hClosed thread), calls_of_free hFree, h.alone,
    fun hNot => ?_, h.closed, fun tun => ⟨fun hOpen => ?_, fun hOpen => ?_⟩,
    fun tun hIn => Nat.lt_succ_of_lt (h.before tun hIn)⟩
  · exact absurd (hCreated.symm.trans hNot) Bool.noConfusion
  · rcases Nat.lt_or_eq_of_le (Nat.le_of_lt_succ hOpen.1) with hOld | hNew
    · have hSome := (h.open_iff tun).mp ⟨hOld, hOpen.2⟩
      rw [hClosed] at hSome
      cases hSome
    · exact congrArg some hNew.symm
  · obtain rfl := Option.some.inj hOpen
    exact ⟨Nat.lt_succ_self _, fun hIn => absurd (h.before _ hIn) (Nat.lt_irrefl _)⟩

theorem Sound.startNative (h : Sound S) {tun : Nat} (hOpen : S.vpn = some tun) (hCreated : S.created = true)
    (hFree : ∀ on, S.native on = .none) (hNobody : ∀ thread, ¬ S.signal.Uses thread) :
    Sound (S.startNative tun) := by
  unfold VpnService.startNative
  split_ifs with hProxy
  · have hCalled : Sound { S with signal := S.signal.step .startCalled } :=
      ⟨h.tuns, h.uses, calls_of_free hFree, h.alone, h.created, h.closed, h.open_iff, h.before⟩
    exact hCalled.goes (fun other _ => hFree other) ⟨hOpen, fun phase _ _ thread => hNobody thread⟩ hCreated
  · exact h

theorem Sound.start (h : Sound S) (hCreated : S.created = true) (hFree : ∀ on, S.native on = .none)
    (established : Bool) : Sound (S.start established) := by
  unfold VpnService.start
  split
  · exact h
  next hClosed =>
    split_ifs
    · exact (h.establish hClosed hCreated hFree).startNative rfl hCreated hFree (h.nobody hClosed)
    · exact h

/-! `stop`. -/

theorem Sound.leaves (h : Sound S) (hClosed : S.vpn = none) (hCreated : S.created = true) (hAlone : S.Alone on)
    (caller : StopCaller) : Sound (S.leaves on caller) := by
  cases caller with
  | onStartCommand => exact h.goes hAlone trivial hCreated
  | onRevoke => exact h.goes hAlone hClosed hCreated
  | onDestroy =>
      have hNone := hAlone.goes_none
      exact ⟨h.tuns, h.uses, calls_of_free hNone, ⟨on, hAlone.goes .none⟩, fun _ => ⟨hNone, hClosed⟩, h.closed,
        h.open_iff, h.before⟩

theorem Sound.stop (h : Sound S) (hCreated : S.created = true) (hFree : ∀ on, S.native on = .none)
    (on : ServiceThread) (caller : StopCaller) : Sound (S.stop on caller) := by
  have hAlone : S.Alone on := fun other _ => hFree other
  unfold VpnService.stop
  split
  next tun hOpen =>
    have hSome : S.vpn ≠ none := by rw [hOpen]; exact Option.some_ne_none _
    obtain ⟨phase, hPhase, hDone, hRequest, hJoins⟩ := S.signal.stopCalled_phase
    have hCalled : Sound { S with signal := S.signal.step .stopCalled } :=
      ⟨h.tuns, h.uses, calls_of_free hFree, h.alone, h.created, h.closed, h.open_iff, h.before⟩
    refine hCalled.goes hAlone ⟨hSome, phase, hPhase, fun hNow thread hUses => ?_,
      fun request hNow thread hUses => ?_, fun request hNow => absurd hNow (hJoins request)⟩ hCreated
    · have hId := (h.uses thread hUses).1
      rw [hDone hNow] at hId
      cases hId
    · have hId := (h.uses thread hUses).1
      rw [hRequest request hNow] at hId
      exact (Option.some.inj hId).symm
  next hClosed => exact h.leaves hClosed hCreated hAlone caller

/-- The descriptor is closed when nobody uses it. -/
theorem Sound.stopped (h : Sound S) {call : Nat} (hNative : S.native on = .stop call caller) (hOpen : S.vpn ≠ none)
    (hNobody : ∀ thread, ¬ S.signal.Uses thread) : Sound (S.stopped on caller) := by
  obtain ⟨tun, hTun⟩ := Option.ne_none_iff_exists'.mp hOpen
  obtain ⟨hKnown, hNew⟩ := (h.open_iff tun).mpr hTun
  have hAlone := h.alone_of hNative NativeCall.noConfusion
  -- Before it goes on, the thread is behind the call, as if it had none.
  let T : VpnService := { S with running := false, closed := tun :: S.closed, vpn := none }
  have hClosed : (T.goes on .none).Sound := by
    refine ⟨h.tuns, fun thread hUses => absurd hUses (hNobody thread), calls_of_free hAlone.goes_none,
      ⟨on, hAlone.goes .none⟩, fun _ => ⟨hAlone.goes_none, rfl⟩, List.nodup_cons.mpr ⟨hNew, h.closed⟩,
      fun other => ⟨fun hOther => ?_, fun hOther => ?_⟩, fun other hIn => ?_⟩
    · have hStill := (h.open_iff other).mp ⟨hOther.1, fun hIn => hOther.2 (List.mem_cons_of_mem _ hIn)⟩
      rw [hTun] at hStill
      obtain rfl := Option.some.inj hStill
      exact absurd (List.mem_cons_self ..) hOther.2
    · cases hOther
    · rcases List.mem_cons.mp hIn with rfl | hBefore
      · exact hKnown
      · exact h.before other hBefore
  have hLeaves := hClosed.leaves rfl (h.created_of hNative NativeCall.noConfusion) (hAlone.goes .none) caller
  unfold VpnService.stopped
  rw [hTun]
  cases caller <;> simpa only [VpnService.leaves, VpnService.goes, Function.update_idem] using hLeaves

/-! The native calls. -/

/-- A call of `jni_start` goes on, and nobody has been there while it could create a thread. -/
theorem Sound.starts (h : Sound S) {call tun : Nat} (hNative : S.native on = .start call tun)
    {starts : List StartPhase} (hNobody : ∀ thread, ¬ S.signal.Uses thread) :
    Sound { S with signal := { S.signal with starts := starts } } := by
  have hAlone := h.alone_of hNative NativeCall.noConfusion
  refine ⟨h.tuns, h.uses, ?_, h.alone, h.created, h.closed, h.open_iff, h.before⟩
  refine calls_of_alone hAlone ?_
  dsimp only
  rw [hNative]
  exact ⟨(h.starting hNative).1, fun phase hPhase hDone thread => hNobody thread⟩

theorem Sound.created_thread (h : Sound S) {call tun : Nat} (hNative : S.native on = .start call tun)
    (hCall : S.signal.starts[call]? = some .creating) (hNobody : ∀ thread, ¬ S.signal.Uses thread) :
    Sound { S with
      signal := { S.signal with
        threads := S.signal.threads ++ [.attaching], threadId := some S.signal.threads.length,
        starts := S.signal.starts.set call .done }
      tuns := S.tuns ++ [tun] } := by
  have hTun := (h.starting hNative).1
  have hAlone := h.alone_of hNative NativeCall.noConfusion
  have hUses := Signal.uses_created (s := S.signal) (S.signal.starts.set call .done)
  refine ⟨?_, fun thread hThread => ?_, ?_, h.alone, h.created, h.closed, h.open_iff, h.before⟩
  · simp [h.tuns]
  · obtain rfl := ((hUses thread).mp hThread).resolve_right (hNobody thread)
    refine ⟨rfl, tun, ?_, hTun⟩
    rw [← h.tuns]
    exact List.getElem?_concat_length
  · refine calls_of_alone hAlone ?_
    dsimp only
    rw [hNative]
    refine ⟨hTun, fun phase hPhase hDone => ?_⟩
    have hSet : (S.signal.starts.set call StartPhase.done)[call]? = some .done := by
      rw [List.getElem?_set_self', hCall]
      rfl
    rw [hSet] at hPhase
    exact absurd (Option.some.inj hPhase).symm hDone

/-- A call of `jni_stop` goes on with the same request. -/
theorem Sound.stops (h : Sound S) {call : Nat} (hNative : S.native on = .stop call caller)
    {phase next : StopPhase} {pipe : List StopRequest} (hCall : S.signal.stops[call]? = some phase)
    (hRequest : ∀ request, next.request = some request → phase.request = some request)
    (hDone : next = .done → ∀ thread, ¬ S.signal.Uses thread)
    (hJoins : ∀ request, next = .joining request → S.signal.InLoop request.thread → pipe ≠ []) :
    Sound { S with signal := { S.signal with stops := S.signal.stops.set call next, pipe := pipe } } := by
  obtain ⟨hOpen, -, hOnly, -⟩ := h.stopping hNative hCall
  have hAlone := h.alone_of hNative NativeCall.noConfusion
  have hSet : (S.signal.stops.set call next)[call]? = some next := by
    rw [List.getElem?_set_self', hCall]
    rfl
  refine ⟨h.tuns, h.uses, ?_, h.alone, h.created, h.closed, h.open_iff, h.before⟩
  refine calls_of_alone hAlone ?_
  dsimp only
  rw [hNative]
  exact ⟨hOpen, next, hSet, hDone, fun request hNext => hOnly request (hRequest request hNext), hJoins⟩

/-- The thread that a call of `jni_stop` is about is the only one that there may be. -/
theorem Sound.nobody_of_gone (h : Sound S) {call : Nat} (hNative : S.native on = .stop call caller)
    {phase : StopPhase} (hCall : S.signal.stops[call]? = some phase) {request : StopRequest}
    (hRequest : phase.request = some request) (hGone : S.signal.phase request.thread = .gone) (thread : Nat) :
    ¬ S.signal.Uses thread := by
  intro hUses
  obtain ⟨-, -, hOnly, -⟩ := h.stopping hNative hCall
  rw [hOnly request hRequest thread hUses] at hUses
  exact hUses.2 hGone

/-- The byte is written to the pipe, and the thread is joined. -/
def Served (S : VpnService) : ServiceMove → Prop
  | .native on answer => match S.native on with
      | .stop call _ => match S.signal.stops[call]? with
          | some (.writing _) | some (.joining _) => answer = true
          | _ => True
      | _ => True
  | _ => True

instance (S : VpnService) : ∀ m, Decidable (S.Served m)
  | .native on answer => by
      unfold Served
      dsimp only
      split
      · split <;> infer_instance
      · infer_instance
  | .onCreate | .onStartCommand _ _ | .onRevoke | .onDestroy | .saves _ _ | .thread _ => isTrue trivial

/-- A callback does not come while another thread is in one. -/
def Apart (S : VpnService) : ServiceMove → Prop
  | .onStartCommand _ _ | .onDestroy => S.native .binder = .none
  | .onRevoke => S.native .main = .none
  | _ => True

instance (S : VpnService) : ∀ m, Decidable (S.Apart m)
  | .onStartCommand _ _ | .onDestroy => inferInstanceAs (Decidable (S.native .binder = .none))
  | .onRevoke => inferInstanceAs (Decidable (S.native .main = .none))
  | .onCreate | .saves _ _ | .native _ _ | .thread _ => isTrue trivial

theorem Sound.stepStart (h : Sound S) {call tun : Nat} (hNative : S.native on = .start call tun) (answer : Bool) :
    Sound (S.stepStart on call tun answer) := by
  obtain ⟨hOpen, hNobody⟩ := h.starting hNative
  unfold VpnService.stepStart
  split
  next hCall =>
    rw [Signal.step, if_pos hCall]
    exact h.starts hNative (hNobody _ hCall StartPhase.noConfusion)
  next hCall =>
    have hAlone := hNobody _ hCall StartPhase.noConfusion
    rw [Signal.step, if_pos hCall]
    cases answer with
    | true => exact h.created_thread hNative hCall hAlone
    | false => exact h.starts hNative hAlone
  next =>
    have hRuns : Sound { S with running := true } :=
      ⟨h.tuns, h.uses, h.calls, h.alone, h.created, h.closed, h.open_iff, h.before⟩
    exact hRuns.goes (h.alone_of hNative NativeCall.noConfusion) trivial
      (h.created_of hNative NativeCall.noConfusion)

theorem Sound.stepStop (h : Sound S) {call : Nat} {answer : Bool} (hNative : S.native on = .stop call caller)
    (hServed : S.Served (.native on answer)) : Sound (S.stepStop on call caller answer) := by
  obtain ⟨phase, hCall⟩ := h.exists_phase hNative
  obtain ⟨hOpen, hDone, -⟩ := h.stopping hNative hCall
  unfold Served at hServed
  dsimp only at hServed
  rw [hNative] at hServed
  dsimp only at hServed
  rw [hCall] at hServed
  unfold VpnService.stepStop
  rw [hCall]
  cases phase with
  | testing request =>
      dsimp only
      rw [Signal.step]
      dsimp only
      rw [hCall]
      dsimp only
      split_ifs with hFound
      · exact h.stops hNative hCall (fun _ hNext => hNext) StopPhase.noConfusion
          fun _ hNext => StopPhase.noConfusion hNext
      · have hGone : S.signal.phase request.thread = .gone := by
          by_contra hThere
          simp [Signal.pthreadKill, hThere] at hFound
        exact h.stops hNative hCall (fun _ hNext => by cases hNext)
          (fun _ => h.nobody_of_gone hNative hCall rfl hGone) fun _ hNext => StopPhase.noConfusion hNext
  | writing request =>
      have hAnswer : answer = true := hServed
      subst hAnswer
      dsimp only
      rw [Signal.step, hCall]
      dsimp only
      rw [if_pos rfl]
      exact h.stops hNative hCall (fun _ hNext => hNext) StopPhase.noConfusion
        fun _ _ _ => List.append_ne_nil_of_right_ne_nil _ (List.cons_ne_nil _ _)
  | joining request =>
      have hAnswer : answer = true := hServed
      subst hAnswer
      dsimp only
      rw [Signal.step, hCall]
      dsimp only
      split_ifs with hThere
      · exact h
      · have hGone : S.signal.phase request.thread = .gone := not_not.mp fun hNot => hThere ⟨rfl, hNot⟩
        exact h.stops hNative hCall (fun _ hNext => by cases hNext)
          (fun _ => h.nobody_of_gone hNative hCall rfl hGone) fun _ hNext => StopPhase.noConfusion hNext
  | done => exact h.stopped hNative hOpen (hDone rfl)

theorem Sound.stepNative (h : Sound S) {answer : Bool} (hServed : S.Served (.native on answer)) :
    Sound (S.stepNative on answer) := by
  unfold VpnService.stepNative
  split
  next => exact h
  next call tun hNative => exact h.stepStart hNative answer
  next call caller hNative => exact h.stepStop hNative hServed
  next hNative =>
    have hClosed : S.vpn = none := by
      have hCalls := h.calls on
      rw [hNative] at hCalls
      exact hCalls
    have hSame : { S with vpn := none } = S := by rw [← hClosed]
    rw [hSame]
    exact h.goes (h.alone_of hNative NativeCall.noConfusion) trivial
      (h.created_of hNative NativeCall.noConfusion)

/-- A callback that finds its thread idle, and does not overlap with another one, is alone. -/
theorem free_of_idle {other : ServiceThread} (hIdle : S.Idle on) (hOther : S.native other = .none)
    (hBoth : ∀ third, third = on ∨ third = other) (third : ServiceThread) : S.native third = .none := by
  rcases hBoth third with rfl | rfl
  · exact hIdle.2
  · exact hOther

theorem Sound.step (h : Sound S) (hServed : S.Served m) (hApart : S.Apart m) : Sound (S.step m) := by
  have hMain : ∀ third : ServiceThread, third = .main ∨ third = .binder := by rintro (_ | _) <;> simp
  have hBinder : ∀ third : ServiceThread, third = .binder ∨ third = .main := by rintro (_ | _) <;> simp
  cases m with
  | onCreate =>
      unfold VpnService.step
      dsimp only
      split_ifs with hCreated
      · exact h
      · obtain ⟨hNative, hClosed⟩ := h.created (by simpa using hCreated)
        exact ⟨h.tuns, h.uses, calls_of_free hNative, h.alone, fun hNot => Bool.noConfusion hNot, h.closed,
          h.open_iff, h.before⟩
  | onStartCommand action established =>
      unfold VpnService.step
      dsimp only
      split_ifs with hIdle
      · have hFree := free_of_idle hIdle hApart hMain
        cases action with
        | start => exact h.start hIdle.1 hFree established
        | stop => exact h.stop hIdle.1 hFree .main .onStartCommand
        | other => exact h
      · exact h
  | onRevoke =>
      unfold VpnService.step
      dsimp only
      split_ifs with hIdle
      · exact h.stop hIdle.1 (free_of_idle hIdle hApart hBinder) .binder .onRevoke
      · exact h
  | onDestroy =>
      unfold VpnService.step
      dsimp only
      split_ifs with hIdle
      · exact h.stop hIdle.1 (free_of_idle hIdle hApart hMain) .main .onDestroy
      · exact h
  | saves host port =>
      unfold VpnService.step
      dsimp only
      split_ifs
      · exact ⟨h.tuns, h.uses, h.calls, h.alone, h.created, h.closed, h.open_iff, h.before⟩
      · exact h
  | native on answer => exact h.stepNative hServed
  | thread move =>
      unfold VpnService.step
      dsimp only
      split_ifs with hThread
      · exact h.onward (Signal.onward_step _ hThread)
      · exact h

theorem sound_run {host : String} {port : Int} {running : Bool} {moves : List ServiceMove}
    (hServed : Along step Served (init host port running) moves)
    (hApart : Along step Apart (init host port running) moves) :
    Sound (run step (init host port running) moves) :=
  run_invariant (sound_init host port running) (hServed.and hApart) fun _ _ h hMove => h.step hMove.1 hMove.2

/-- While the callbacks do not overlap, and however they and the threads interleave, a thread
that uses its tun uses the one that the service has open, and it is the only one. Every
descriptor is closed once, but for the one that is open, and `jni_stop` frees the sessions only
where no thread is left. -/
theorem tun_open_while_used (host : String) (port : Int) (running : Bool) {moves : List ServiceMove}
    (hServed : Along step Served (init host port running) moves)
    (hApart : Along step Apart (init host port running) moves) :
    let S := run step (init host port running) moves
    (∀ thread, S.signal.Uses thread → ∃ tun, S.tuns[thread]? = some tun ∧ S.vpn = some tun ∧ tun ∉ S.closed) ∧
      (∀ first second, S.signal.Uses first → S.signal.Uses second → first = second) ∧
      S.closed.Nodup ∧ (∀ tun < S.established, tun ∈ S.closed ↔ S.vpn ≠ some tun) ∧
      ∀ on call caller, S.native on = .stop call caller → S.signal.stops[call]? = some .done →
        ∀ thread, ¬ S.signal.Uses thread := by
  intro S
  have h : Sound S := sound_run hServed hApart
  refine ⟨fun thread hUses => ?_, fun first second hFirst hSecond => ?_, h.closed, fun tun hTun => ?_,
    fun on call caller hNative hDone => ?_⟩
  · obtain ⟨-, tun, hTun, hOpen⟩ := h.uses thread hUses
    exact ⟨tun, hTun, hOpen, ((h.open_iff tun).mpr hOpen).2⟩
  · have hSame := (h.uses first hFirst).1.symm.trans (h.uses second hSecond).1
    exact Option.some.inj hSame
  · rw [Ne, ← h.open_iff tun, and_iff_right hTun, not_not]
  · exact (h.stopping hNative hDone).2.1 rfl

/-- The service opens its tun, and the thread takes it. -/
def openingMoves : List ServiceMove :=
  [.onCreate, .saves "10.0.0.1" 8080, .onStartCommand .start true, .native .main true, .native .main true,
    .thread (.attaches 0 true), .thread (.opens 0 true)]

/-- The service is asked to stop while the thread is in its wait. -/
def stoppingMoves : List ServiceMove :=
  openingMoves ++ [.onStartCommand .stop true, .native .main true, .native .main true,
    .thread (.waits 0 (.ready [.socket, .pipe])), .thread (.handles 0)]

theorem tun_open_while_used_stopping :
    let S := run step (init "" 0 false) stoppingMoves
    S.signal.Uses 0 ∧ S.vpn = some 0 ∧ S.native .main = .stop 0 .onStartCommand ∧
      ∃ tun, S.tuns[0]? = some tun ∧ S.vpn = some tun ∧ tun ∉ S.closed := by
  have hServed : Along step Served (init "" 0 false) stoppingMoves := by decide
  have hApart : Along step Apart (init "" 0 false) stoppingMoves := by decide
  have hUses : (run step (init "" 0 false) stoppingMoves).signal.Uses 0 := by constructor <;> decide
  exact ⟨hUses, by decide, by decide, (tun_open_while_used "" 0 false hServed hApart).1 0 hUses⟩

/-- The permission is revoked, and before `onRevoke` has made `vpn` null once more, the service
is started again. -/
def revokingMoves : List ServiceMove :=
  openingMoves ++ [.onRevoke, .native .binder true, .native .binder true,
    .thread (.waits 0 (.ready [.pipe])), .thread (.handles 0), .thread (.clears 0), .thread (.ends 0),
    .native .binder true, .native .binder true, .onStartCommand .start true, .native .main true,
    .native .main true, .native .binder true]

/-- Then the new thread has a tun that the service has lost: it is open, and will not be closed. -/
theorem tun_lost_revoking :
    let S := run step (init "" 0 false) revokingMoves
    S.signal.phase 1 = .attaching ∧ S.tuns[1]? = some 1 ∧ S.vpn = none ∧ S.closed = [0] ∧
      (S.step (.onStartCommand .stop true)).signal = S.signal := by
  decide

end VpnService

end Tun2Http
