import Tun2Http.App.TunLifetime

/-! Whether stopping comes to its end: while the callbacks of the service do not overlap, it can
do so from everywhere, unless a thread is in a handler that does not. -/
namespace Tun2Http

open Machine

/-- A batch has an entry that its handler never comes back from, and none before it makes the
thread leave. -/
def endlessBatch : List ThreadEvent → Bool
  | [] => false
  | .pipe :: _ | .tun true :: _ => false
  | .endless :: _ => true
  | .tun false :: rest | .socket :: rest => endlessBatch rest

/-- A thread that does not come out of its batch any more. -/
def ThreadPhase.stuck : ThreadPhase → Bool
  | batch events => endlessBatch events
  | _ => false

namespace Signal

variable {s : Signal} {m : SignalMove} {thread other : Nat}

/-- The thread is in such a batch. -/
def Stuck (s : Signal) (thread : Nat) : Prop := (s.phase thread).stuck = true

instance (s : Signal) (thread : Nat) : Decidable (s.Stuck thread) := inferInstanceAs (Decidable (_ = true))

theorem Stuck.inLoop (h : s.Stuck thread) : s.InLoop thread := by
  unfold Stuck at h
  cases hPhase : s.phase thread with
  | batch events => exact inLoop_of_phase hPhase rfl
  | _ =>
      rw [hPhase] at h
      cases h

theorem Stuck.ne_of_phase (h : s.Stuck thread) {phase : ThreadPhase} (hPhase : s.phase other = phase)
    (hNot : phase.stuck = false) : other ≠ thread := by
  rintro rfl
  rw [Stuck, hPhase, hNot] at h
  cases h

theorem Stuck.setPhase (h : s.Stuck thread) (hOther : s.phase other ≠ .gone) {next : ThreadPhase}
    (hNext : other = thread → next.stuck = true) : (s.setPhase other next).Stuck thread := by
  unfold Stuck
  rw [phase_setPhase hOther]
  split_ifs with hSame
  · exact hNext hSame.symm
  · exact h

/-- Another thread goes on from a phase that it could not be stuck in. -/
theorem Stuck.goes_on (h : s.Stuck thread) {before : ThreadPhase} (hPhase : s.phase other = before)
    (hBefore : before ≠ .gone) (hNot : before.stuck = false) (next : ThreadPhase) :
    (s.setPhase other next).Stuck thread :=
  h.setPhase (ne_gone_of_phase hPhase hBefore) fun hSame => absurd hSame (h.ne_of_phase hPhase hNot)

theorem Stuck.handleEvents (h : s.Stuck thread) {events : List ThreadEvent}
    (hBatch : s.phase other = .batch events) : (s.handleEvents other events).Stuck thread := by
  have hThere := ne_gone_of_phase hBatch ThreadPhase.noConfusion
  have hEndless : other = thread → endlessBatch events = true := by
    rintro rfl
    rw [Stuck, hBatch] at h
    exact h
  cases events with
  | nil => exact h.goes_on hBatch ThreadPhase.noConfusion rfl _
  | cons event rest =>
      cases event with
      | pipe => exact h.goes_on hBatch ThreadPhase.noConfusion rfl .leaving
      | tun failed =>
          cases failed with
          | true => exact h.goes_on hBatch ThreadPhase.noConfusion rfl _
          | false => exact h.setPhase hThere hEndless
      | socket => exact h.setPhase hThere hEndless
      | endless => exact h

theorem Stuck.epollWait (h : s.Stuck thread) (hWaiting : s.phase other = .waiting) (result : WaitResult) :
    (s.epollWait other result).Stuck thread := by
  have hNext := h.goes_on hWaiting ThreadPhase.noConfusion rfl
  cases result with
  | interrupted => exact h
  | failed => exact hNext _
  | ready events =>
      unfold Signal.epollWait
      dsimp only
      split_ifs
      · exact h
      · exact hNext _

/-- No move of any party brings the thread on. -/
theorem Stuck.step (h : s.Stuck thread) (m : SignalMove) : (s.step m).Stuck thread := by
  unfold Signal.step
  cases m with
  | startCalled => exact h
  | startTests call found =>
      dsimp only
      split_ifs <;> exact h
  | startCreates call ok =>
      dsimp only
      split_ifs
      · cases ok with
        | true =>
            unfold Stuck
            rw [pthreadCreate, if_pos rfl, phase_created, if_neg (Nat.ne_of_lt h.inLoop.lt)]
            exact h
        | false => exact h
      · exact h
  | stopCalled => exact h
  | stopTests call found =>
      dsimp only
      split <;> exact h
  | stopWrites call ok =>
      dsimp only
      split
      · split_ifs <;> exact h
      · exact h
  | stopJoins call ok =>
      dsimp only
      split
      · split_ifs <;> exact h
      · exact h
  | attaches other ok =>
      dsimp only
      split_ifs with hPhase
      · exact h.goes_on hPhase ThreadPhase.noConfusion rfl _
      · exact h.goes_on hPhase ThreadPhase.noConfusion rfl _
      · exact h
  | opens other ok =>
      dsimp only
      split_ifs with hPhase
      · exact h.goes_on hPhase ThreadPhase.noConfusion rfl _
      · exact h.goes_on hPhase ThreadPhase.noConfusion rfl _
      · exact h
  | waits other result =>
      dsimp only
      split_ifs with hPhase
      · exact h.epollWait hPhase result
      · exact h
  | handles other =>
      dsimp only
      split
      next events hBatch => exact h.handleEvents hBatch
      next => exact h
  | clears other =>
      dsimp only
      split_ifs with hPhase
      · exact h.goes_on hPhase ThreadPhase.noConfusion rfl .cleared
      · exact h
  | ends other =>
      dsimp only
      split_ifs with hPhase
      · exact h.goes_on hPhase ThreadPhase.noConfusion rfl _
      · exact h

/-- There are moves of the threads after which the thread is gone. -/
def Leaves (s : Signal) (thread : Nat) : Prop :=
  ∃ moves : List SignalMove, (∀ m ∈ moves, m.ofThread = true) ∧ (run step s moves).phase thread = .gone

theorem Leaves.of_step (hThread : m.ofThread = true) (h : Leaves (s.step m) thread) : Leaves s thread := by
  obtain ⟨moves, hMoves, hGone⟩ := h
  exact ⟨m :: moves, List.forall_mem_cons.mpr ⟨hThread, hMoves⟩, hGone⟩

/-- A thread that is in a phase goes on to the next one. -/
theorem phase_setPhase_self {before : ThreadPhase} (hPhase : s.phase thread = before) (hBefore : before ≠ .gone)
    (next : ThreadPhase) : (s.setPhase thread next).phase thread = next := by
  rw [phase_setPhase (ne_gone_of_phase hPhase hBefore), if_pos rfl]

theorem leaves_cleared (hCleared : s.phase thread = .cleared) : Leaves s thread := by
  refine Leaves.of_step (m := .ends thread) rfl ⟨[], fun m hm => absurd hm List.not_mem_nil, ?_⟩
  rw [run_nil, step, if_pos hCleared]
  exact phase_setPhase_self hCleared ThreadPhase.noConfusion _

theorem leaves_leaving (hLeaving : s.phase thread = .leaving) : Leaves s thread := by
  refine Leaves.of_step (m := .clears thread) rfl (leaves_cleared ?_)
  rw [step, if_pos hLeaving]
  exact phase_setPhase_self hLeaving ThreadPhase.noConfusion .cleared

/-- The thread takes the byte. -/
theorem leaves_pipe {rest : List ThreadEvent} (hBatch : s.phase thread = .batch (.pipe :: rest)) :
    Leaves s thread := by
  refine Leaves.of_step (m := .handles thread) rfl (leaves_leaving ?_)
  rw [step, hBatch]
  exact phase_setPhase_self hBatch ThreadPhase.noConfusion .leaving

/-- A thread that waits is told of the byte. -/
theorem leaves_waiting (hWaiting : s.phase thread = .waiting) (hPipe : s.pipe ≠ []) : Leaves s thread := by
  have hTold : (s.step (.waits thread (.ready [.pipe]))).phase thread = .batch [.pipe] := by
    rw [step, if_pos hWaiting, epollWait, if_neg fun hNone => hPipe hNone.2]
    exact phase_setPhase_self hWaiting ThreadPhase.noConfusion _
  exact Leaves.of_step (m := .waits thread (.ready [.pipe])) rfl (leaves_pipe hTold)

/-- Where the handlers come back, the thread leaves, or comes back to its wait. -/
theorem leaves_batch {events : List ThreadEvent} (hBatch : s.phase thread = .batch events)
    (hEnds : endlessBatch events = false) (hPipe : s.pipe ≠ []) : Leaves s thread := by
  induction events generalizing s with
  | nil =>
      refine Leaves.of_step (m := .handles thread) rfl ?_
      rw [step, hBatch]
      exact leaves_waiting (phase_setPhase_self hBatch ThreadPhase.noConfusion _) hPipe
  | cons event rest ih =>
      cases event with
      | pipe => exact leaves_pipe hBatch
      | tun failed =>
          refine Leaves.of_step (m := .handles thread) rfl ?_
          rw [step, hBatch]
          cases failed with
          | true => exact leaves_leaving (phase_setPhase_self hBatch ThreadPhase.noConfusion _)
          | false => exact ih (phase_setPhase_self hBatch ThreadPhase.noConfusion _) hEnds hPipe
      | socket =>
          refine Leaves.of_step (m := .handles thread) rfl ?_
          rw [step, hBatch]
          exact ih (phase_setPhase_self hBatch ThreadPhase.noConfusion _) hEnds hPipe
      | endless => cases hEnds

theorem leaves_opening (hOpening : s.phase thread = .opening) (hPipe : s.pipe ≠ []) : Leaves s thread := by
  refine Leaves.of_step (m := .opens thread true) rfl ?_
  rw [step, if_pos hOpening, if_pos rfl]
  exact leaves_waiting (phase_setPhase_self hOpening ThreadPhase.noConfusion _) hPipe

theorem leaves_attaching (hAttaching : s.phase thread = .attaching) (hPipe : s.pipe ≠ []) : Leaves s thread := by
  refine Leaves.of_step (m := .attaches thread true) rfl ?_
  rw [step, if_pos hAttaching, if_pos rfl]
  exact leaves_opening (phase_setPhase_self hAttaching ThreadPhase.noConfusion _) hPipe

/-- A thread that is not stuck can come to its end, if a byte is there for as long as it is in
its loop. -/
theorem leaves_of_pipe (hPipe : s.InLoop thread → s.pipe ≠ []) (hFree : ¬ s.Stuck thread) :
    Leaves s thread := by
  cases hPhase : s.phase thread with
  | attaching => exact leaves_attaching hPhase (hPipe (inLoop_of_phase hPhase rfl))
  | opening => exact leaves_opening hPhase (hPipe (inLoop_of_phase hPhase rfl))
  | waiting => exact leaves_waiting hPhase (hPipe (inLoop_of_phase hPhase rfl))
  | batch events =>
      have hEnds : endlessBatch events = false := by
        rw [Stuck, hPhase] at hFree
        exact Bool.not_eq_true _ ▸ hFree
      exact leaves_batch hPhase hEnds (hPipe (inLoop_of_phase hPhase rfl))
  | leaving => exact leaves_leaving hPhase
  | cleared => exact leaves_cleared hPhase
  | gone => exact ⟨[], fun m hm => absurd hm List.not_mem_nil, hPhase⟩

theorem stops_run {moves : List SignalMove} (hThreads : ∀ m ∈ moves, m.ofThread = true) :
    (run step s moves).stops = s.stops := by
  induction moves generalizing s with
  | nil => rfl
  | cons m rest ih =>
      rw [run_cons, ih fun n hn => hThreads n (List.mem_cons_of_mem _ hn)]
      exact (onward_step s (hThreads m (List.mem_cons_self ..))).stops

end Signal

/-- A move that goes on with what the parties are about. -/
def ServiceMove.Continues : ServiceMove → Prop
  | native _ answer => answer = true
  | thread m => m.ofThread = true
  | _ => False

namespace VpnService

variable {S : VpnService} {m : ServiceMove} {on : ServiceThread} {caller : StopCaller} {call : Nat}
  {request : StopRequest}

/-- What a move of the service does to what the event threads share with it. -/
theorem signal_step (S : VpnService) (m : ServiceMove) :
    (S.step m).signal = S.signal ∨ (S.step m).signal = { S.signal with pipe := [] } ∨
      ∃ n, (S.step m).signal = S.signal.step n := by
  have hLeaves : ∀ T : VpnService, ∀ on caller, (T.leaves on caller).signal = T.signal := by
    intro T on caller
    cases caller <;> rfl
  have hStop : ∀ on caller, (S.stop on caller).signal = S.signal ∨ ∃ n, (S.stop on caller).signal = S.signal.step n := by
    intro on caller
    unfold stop
    split
    · exact Or.inr ⟨.stopCalled, rfl⟩
    · exact Or.inl (hLeaves ..)
  have hStopped : ∀ on caller, (S.stopped on caller).signal = S.signal := by
    intro on caller
    unfold stopped
    split <;> exact hLeaves ..
  unfold step
  cases m with
  | onCreate =>
      dsimp only
      split_ifs
      · exact Or.inl rfl
      · exact Or.inr (Or.inl rfl)
  | onStartCommand action established =>
      dsimp only
      split_ifs
      · cases action with
        | start =>
            dsimp only
            unfold start
            split
            · exact Or.inl rfl
            · split_ifs
              · unfold startNative
                split_ifs
                · exact Or.inr (Or.inr ⟨.startCalled, rfl⟩)
                · exact Or.inl rfl
              · exact Or.inl rfl
        | stop => exact (hStop ..).imp_right Or.inr
        | other => exact Or.inl rfl
      · exact Or.inl rfl
  | onRevoke =>
      dsimp only
      split_ifs
      · exact (hStop ..).imp_right Or.inr
      · exact Or.inl rfl
  | onDestroy =>
      dsimp only
      split_ifs
      · exact (hStop ..).imp_right Or.inr
      · exact Or.inl rfl
  | saves host port =>
      dsimp only
      split_ifs <;> exact Or.inl rfl
  | native on answer =>
      dsimp only
      unfold stepNative
      split
      · exact Or.inl rfl
      · unfold stepStart
        split
        · exact Or.inr (Or.inr ⟨.startTests _ answer, rfl⟩)
        · exact Or.inr (Or.inr ⟨.startCreates _ answer, rfl⟩)
        · exact Or.inl rfl
      · unfold stepStop
        split
        · exact Or.inr (Or.inr ⟨.stopTests _ answer, rfl⟩)
        · exact Or.inr (Or.inr ⟨.stopWrites _ answer, rfl⟩)
        · exact Or.inr (Or.inr ⟨.stopJoins _ answer, rfl⟩)
        · exact Or.inl (hStopped ..)
      · exact Or.inl rfl
  | thread move =>
      dsimp only
      split_ifs
      · exact Or.inr (Or.inr ⟨move, rfl⟩)
      · exact Or.inl rfl

/-- A thread that is stuck stays so, whatever the service does. -/
theorem stuck_run {thread : Nat} (hStuck : S.signal.Stuck thread) (moves : List ServiceMove) :
    (run step S moves).signal.Stuck thread := by
  refine run_invariant_always (I := fun T : VpnService => T.signal.Stuck thread) moves hStuck fun T m h => ?_
  rcases T.signal_step m with hSame | hPipe | ⟨n, hStep⟩
  · rw [hSame]
    exact h
  · rw [hPipe]
    exact h
  · rw [hStep]
    exact h.step n

theorem apart_of_continues (S : VpnService) (hContinues : m.Continues) : S.Apart m := by
  cases m with
  | native | thread => trivial
  | _ => cases hContinues

/-- The parties can go on to where the callback is over, and the tun is closed. -/
def Returns (S : VpnService) (on : ServiceThread) : Prop :=
  ∃ more : List ServiceMove, (∀ m ∈ more, m.Continues) ∧ Along step Served S more ∧
    (run step S more).native on = .none ∧ (run step S more).vpn = none

theorem Returns.of_step (hContinues : m.Continues) (hServed : S.Served m) (h : Returns (S.step m) on) :
    Returns S on := by
  obtain ⟨more, hMore, hAlong, hEnd⟩ := h
  exact ⟨m :: more, List.forall_mem_cons.mpr ⟨hContinues, hMore⟩, ⟨hServed, hAlong⟩, hEnd⟩

theorem Returns.of_threads {moves : List SignalMove} (hThreads : ∀ m ∈ moves, m.ofThread = true)
    (h : Returns { S with signal := run Signal.step S.signal moves } on) : Returns S on := by
  induction moves generalizing S with
  | nil => exact h
  | cons m rest ih =>
      have hThread := hThreads m (List.mem_cons_self ..)
      have hStep : S.step (.thread m) = { S with signal := S.signal.step m } := if_pos hThread
      refine Returns.of_step (m := .thread m) hThread trivial ?_
      rw [hStep]
      exact ih (fun n hn => hThreads n (List.mem_cons_of_mem _ hn)) h

theorem served_true (S : VpnService) (on : ServiceThread) : S.Served (.native on true) := by
  unfold Served
  dsimp only
  split
  · split <;> trivial
  · trivial

theorem Returns.of_native (h : Returns (S.step (.native on true)) on) : Returns S on :=
  Returns.of_step (m := .native on true) rfl (S.served_true on) h

theorem Returns.of_done (hNative : S.native on = .none) (hClosed : S.vpn = none) : Returns S on :=
  ⟨[], fun _ hm => absurd hm List.not_mem_nil, trivial, hNative, hClosed⟩

theorem step_stopping (hNative : S.native on = .stop call caller) :
    S.step (.native on true) = S.stepStop on call caller true := by
  change S.stepNative on true = _
  unfold stepNative
  rw [hNative]

/-- Behind `jni_stop` the tun is closed. -/
theorem returns_done (h : Sound S) (hNative : S.native on = .stop call caller)
    (hCall : S.signal.stops[call]? = some .done) : Returns S on := by
  obtain ⟨tun, hTun⟩ := Option.ne_none_iff_exists'.mp (h.stopping hNative hCall).1
  have hStep : S.step (.native on true) =
      { S with running := false, closed := tun :: S.closed, vpn := none }.leaves on caller := by
    rw [step_stopping hNative, stepStop, hCall]
    dsimp only
    rw [stopped, hTun]
  refine Returns.of_native ?_
  rw [hStep]
  cases caller with
  | onStartCommand => exact .of_done (goes_native ..) rfl
  | onDestroy => exact .of_done (goes_native ..) rfl
  | onRevoke =>
      refine Returns.of_native (.of_done ?_ ?_)
      · change (stepNative _ on true).native on = .none
        rw [stepNative, leaves, goes_native]
        exact goes_native ..
      · change (stepNative _ on true).vpn = none
        rw [stepNative, leaves, goes_native]
        rfl

/-- A call of `jni_stop` has moved on, in the list of the calls. -/
theorem stops_set {phase : StopPhase} (hCall : S.signal.stops[call]? = some phase) (next : StopPhase) :
    (S.signal.stops.set call next)[call]? = some next := by
  rw [List.getElem?_set_self', hCall]
  rfl

/-- `pthread_join` returns when the thread is gone. -/
theorem returns_joined (h : Sound S) (hNative : S.native on = .stop call caller)
    (hCall : S.signal.stops[call]? = some (.joining request)) (hGone : S.signal.phase request.thread = .gone) :
    Returns S on := by
  have hAfter := h.step (m := .native on true) (S.served_true on) trivial
  have hStep : S.step (.native on true) = { S with signal := { S.signal with
      stops := S.signal.stops.set call .done } } := by
    rw [step_stopping hNative, stepStop, hCall]
    dsimp only
    rw [Signal.step, hCall]
    dsimp only
    rw [if_neg fun hThere => hThere.2 hGone]
  rw [hStep] at hAfter
  refine Returns.of_native ?_
  rw [hStep]
  exact returns_done hAfter hNative (stops_set hCall .done)

theorem Sound.threads_run (h : Sound S) {moves : List SignalMove} (hThreads : ∀ m ∈ moves, m.ofThread = true) :
    Sound { S with signal := run Signal.step S.signal moves } := by
  induction moves generalizing S with
  | nil => exact h
  | cons m rest ih =>
      exact ih (h.onward (Signal.onward_step S.signal (hThreads m (List.mem_cons_self ..))))
        fun n hn => hThreads n (List.mem_cons_of_mem _ hn)

/-- The thread that is waited for leaves. -/
theorem returns_joining (h : Sound S) (hNative : S.native on = .stop call caller)
    (hCall : S.signal.stops[call]? = some (.joining request)) (hFree : ∀ thread, ¬ S.signal.Stuck thread) :
    Returns S on := by
  obtain ⟨-, -, -, hPipe⟩ := h.stopping hNative hCall
  obtain ⟨moves, hThreads, hGone⟩ := Signal.leaves_of_pipe (hPipe request rfl) (hFree request.thread)
  refine Returns.of_threads hThreads (returns_joined (h.threads_run hThreads) hNative ?_ hGone)
  exact (congrArg (·[call]?) (Signal.stops_run hThreads)).trans hCall

/-- The byte is written. -/
theorem returns_writing (h : Sound S) (hNative : S.native on = .stop call caller)
    (hCall : S.signal.stops[call]? = some (.writing request)) (hFree : ∀ thread, ¬ S.signal.Stuck thread) :
    Returns S on := by
  have hAfter := h.step (m := .native on true) (S.served_true on) trivial
  have hStep : S.step (.native on true) = { S with signal := { S.signal with
      pipe := S.signal.pipe ++ [request], stops := S.signal.stops.set call (.joining request) } } := by
    rw [step_stopping hNative, stepStop, hCall]
    dsimp only
    rw [Signal.step, hCall]
    rfl
  rw [hStep] at hAfter
  refine Returns.of_native ?_
  rw [hStep]
  exact returns_joining hAfter hNative (stops_set hCall _) hFree

/-- The thread is found, or it is gone. -/
theorem returns_testing (h : Sound S) (hNative : S.native on = .stop call caller)
    (hCall : S.signal.stops[call]? = some (.testing request)) (hFree : ∀ thread, ¬ S.signal.Stuck thread) :
    Returns S on := by
  have hAfter := h.step (m := .native on true) (S.served_true on) trivial
  have hFound : S.signal.pthreadKill (some request.thread) true = true := Bool.or_true _
  have hStep : S.step (.native on true) = { S with signal := { S.signal with
      stops := S.signal.stops.set call (.writing request) } } := by
    rw [step_stopping hNative, stepStop, hCall]
    dsimp only
    rw [Signal.step, hCall]
    dsimp only
    rw [if_pos hFound]
  rw [hStep] at hAfter
  refine Returns.of_native ?_
  rw [hStep]
  exact returns_writing hAfter hNative (stops_set hCall _) hFree

/-- Where a callback is in `jni_stop`, the parties can go on to where it is over and the tun is
closed, if and only if no thread is in a handler that never comes back: no other wait is for what
nothing will bring about. -/
theorem stop_returns_iff (host : String) (port : Int) (running : Bool) {moves : List ServiceMove}
    (hServed : Along step Served (init host port running) moves)
    (hApart : Along step Apart (init host port running) moves)
    (hNative : (run step (init host port running) moves).native on = .stop call caller) :
    (∃ more : List ServiceMove, (∀ m ∈ more, m.Continues) ∧
      Along step Served (init host port running) (moves ++ more) ∧
      (run step (init host port running) (moves ++ more)).native on = .none ∧
      (run step (init host port running) (moves ++ more)).vpn = none ∧
      ∀ thread, ¬ (run step (init host port running) (moves ++ more)).signal.Uses thread) ↔
      ∀ thread, ¬ (run step (init host port running) moves).signal.Stuck thread := by
  have h : Sound (run step (init host port running) moves) := sound_run hServed hApart
  constructor
  · rintro ⟨more, -, -, -, -, hNobody⟩ thread hStuck
    rw [run_append] at hNobody
    exact hNobody thread (stuck_run hStuck more).inLoop.uses
  · intro hFree
    have hReturns : Returns (run step (init host port running) moves) on := by
      obtain ⟨phase, hPhase⟩ := h.exists_phase hNative
      cases phase with
      | testing request => exact returns_testing h hNative hPhase hFree
      | writing request => exact returns_writing h hNative hPhase hFree
      | joining request => exact returns_joining h hNative hPhase hFree
      | done => exact returns_done h hNative hPhase
    obtain ⟨more, hMore, hAlong, hReturned, hClosed⟩ := hReturns
    have hApartMore : Along step Apart (run step (init host port running) moves) more :=
      (along_of_forall _ hMore).imp fun T m hContinues => T.apart_of_continues hContinues
    have hAll := along_append.mpr ⟨hServed, hAlong⟩
    have hSound := sound_run hAll (along_append.mpr ⟨hApart, hApartMore⟩)
    refine ⟨more, hMore, hAll, ?_⟩
    rw [run_append] at hSound ⊢
    exact ⟨hReturned, hClosed, hSound.nobody hClosed⟩

/-- The thread has been handed a name that points at itself when the service is asked to stop. -/
def stuckMoves : List ServiceMove :=
  openingMoves ++ [.thread (.waits 0 (.ready [.endless])), .onStartCommand .stop true, .native .main true,
    .native .main true]

theorem stop_returns_iff_stopping :
    (∃ more : List ServiceMove, (run step (init "" 0 false) (stoppingMoves ++ more)).native .main = .none ∧
      (run step (init "" 0 false) (stoppingMoves ++ more)).vpn = none) ∧
      ¬ ∃ more : List ServiceMove, (∀ m ∈ more, m.Continues) ∧
        Along step Served (init "" 0 false) (stuckMoves ++ more) ∧
        (run step (init "" 0 false) (stuckMoves ++ more)).native .main = .none ∧
        (run step (init "" 0 false) (stuckMoves ++ more)).vpn = none ∧
        ∀ thread, ¬ (run step (init "" 0 false) (stuckMoves ++ more)).signal.Uses thread := by
  have hStopping : Along step Served (init "" 0 false) stoppingMoves ∧
      Along step Apart (init "" 0 false) stoppingMoves ∧
      (run step (init "" 0 false) stoppingMoves).native .main = .stop 0 .onStartCommand := by decide
  have hFree : ∀ thread, ¬ (run step (init "" 0 false) stoppingMoves).signal.Stuck thread := by
    intro thread hStuck
    have hOnly : ∀ other < (run step (init "" 0 false) stoppingMoves).signal.threads.length,
        ¬ (run step (init "" 0 false) stoppingMoves).signal.Stuck other := by decide
    exact hOnly thread hStuck.inLoop.lt hStuck
  have hStuck : Along step Served (init "" 0 false) stuckMoves ∧ Along step Apart (init "" 0 false) stuckMoves ∧
      (run step (init "" 0 false) stuckMoves).native .main = .stop 0 .onStartCommand ∧
      (run step (init "" 0 false) stuckMoves).signal.Stuck 0 := by decide
  constructor
  · obtain ⟨more, -, -, hReturned, hClosed, -⟩ :=
      (stop_returns_iff "" 0 false hStopping.1 hStopping.2.1 hStopping.2.2).mpr hFree
    exact ⟨more, hReturned, hClosed⟩
  · exact fun hReturns =>
      (stop_returns_iff "" 0 false hStuck.1 hStuck.2.1 hStuck.2.2.1).mp hReturns 0 hStuck.2.2.2

end VpnService

end Tun2Http
