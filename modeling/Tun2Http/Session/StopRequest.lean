import Tun2Http.Native.Signal

/-! Stop requests: which thread a byte of the pipe stops. -/
namespace Tun2Http

open Machine

/-- The request that a call of `jni_stop` is about. -/
def StopPhase.request : StopPhase → Option StopRequest
  | testing request | writing request | joining request => some request
  | done => none

namespace Signal

/-- The thread has not left its loop. -/
def InLoop (s : Signal) (thread : Nat) : Prop := (s.phase thread).inLoop = true

/-- The thread leaves its loop, or never comes to it, and does not read the pipe. -/
def leavesUnread (s : Signal) : SignalMove → Bool
  | .attaches thread ok => s.phase thread = .attaching ∧ ok = false
  | .opens thread ok => s.phase thread = .opening ∧ ok = false
  | .waits thread result => s.phase thread = .waiting ∧ result = .failed
  | .handles thread =>
      match s.phase thread with
      | .batch (.tun true :: _) => true
      | _ => false
  | _ => false

/-- A thread is created. -/
def creates (s : Signal) : SignalMove → Bool
  | .startCreates call true => s.starts[call]? = some .creating
  | _ => false

/-- The request that is written. -/
def written (s : Signal) : SignalMove → Option StopRequest
  | .stopWrites call true =>
      match s.stops[call]? with
      | some (.writing request) => some request
      | _ => none
  | _ => none

theorem written_eq_some {s : Signal} {m : SignalMove} {request : StopRequest}
    (h : s.written m = some request) :
    ∃ call, m = .stopWrites call true ∧ s.stops[call]? = some (.writing request) := by
  unfold written at h
  split at h
  · rename_i call
    split at h
    · rename_i other hCall
      cases h
      exact ⟨call, rfl, hCall⟩
    · cases h
  · cases h

theorem creates_eq_true {s : Signal} {m : SignalMove} (h : s.creates m = true) :
    ∃ call, m = .startCreates call true ∧ s.starts[call]? = some .creating := by
  unfold creates at h
  split at h
  · exact ⟨_, rfl, by simpa using h⟩
  · cases h

/-! ### What a move can do -/

/-- The effect of a move, with what it finds. -/
inductive Taken (s : Signal) : SignalMove → Signal → Prop where
  | refused (m : SignalMove) : Taken s m s
  | startCalled : Taken s .startCalled
      { s with starts := s.starts ++ [if s.threadId = none then .creating else .testing] }
  | startTested {call : Nat} (found : Bool) (hCall : s.starts[call]? = some .testing) :
      Taken s (.startTests call found) { s with
        starts := s.starts.set call (if s.pthreadKill s.threadId found then .done else .creating) }
  | notCreated {call : Nat} (hCall : s.starts[call]? = some .creating) :
      Taken s (.startCreates call false) { s with starts := s.starts.set call .done }
  | created {call : Nat} (hCall : s.starts[call]? = some .creating) :
      Taken s (.startCreates call true) { s with
        threads := s.threads ++ [.attaching], threadId := some s.threads.length,
        starts := s.starts.set call .done }
  | stopCalled {next : StopPhase} (hNext : ∀ request, next.request = some request →
      s.threadId = some request.thread ∧ request.created = s.threads.length) :
      Taken s .stopCalled { s with stops := s.stops ++ [next] }
  | stopMoved (m : SignalMove) {call : Nat} {stop next : StopPhase} (hCall : s.stops[call]? = some stop)
      (hNext : ∀ request, next.request = some request → stop.request = some request) :
      Taken s m { s with stops := s.stops.set call next }
  | wrote {call : Nat} {request : StopRequest} (hCall : s.stops[call]? = some (.writing request)) :
      Taken s (.stopWrites call true) { s with
        pipe := s.pipe ++ [request], stops := s.stops.set call (.joining request) }
  | stayed (m : SignalMove) {thread : Nat} {next : ThreadPhase} (hIn : s.InLoop thread)
      (hNext : next.inLoop = true)
      (hBatch : ∀ events, next = .batch events → .pipe ∈ events → s.pipe ≠ [] ∨
        ∃ before, s.phase thread = .batch before ∧ .pipe ∈ before) :
      Taken s m (s.setPhase thread next)
  | left {m : SignalMove} {thread : Nat} {next : ThreadPhase} (hIn : s.InLoop thread)
      (hUnread : s.leavesUnread m = true) (hNext : next.inLoop = false) : Taken s m (s.setPhase thread next)
  | stopped {thread : Nat} {rest : List ThreadEvent} (hBatch : s.phase thread = .batch (.pipe :: rest)) :
      Taken s (.handles thread) { s.setPhase thread .leaving with
        pipe := s.pipe.tail, exits := s.exits ++ [(thread, s.pipe.head?)] }
  | cleared {thread : Nat} (hLeaving : s.phase thread = .leaving) :
      Taken s (.clears thread) { s.setPhase thread .cleared with threadId := none }
  | ended {thread : Nat} (hCleared : s.phase thread = .cleared) :
      Taken s (.ends thread) (s.setPhase thread .gone)

variable {s s' : Signal} {m : SignalMove} {thread : Nat}

theorem inLoop_of_phase {phase : ThreadPhase} (hPhase : s.phase thread = phase)
    (hIn : phase.inLoop = true) : s.InLoop thread := by
  rw [InLoop, hPhase]
  exact hIn

theorem taken_handleEvents {events : List ThreadEvent} (hBatch : s.phase thread = .batch events) :
    Taken s (.handles thread) (s.handleEvents thread events) := by
  have hIn : s.InLoop thread := inLoop_of_phase hBatch rfl
  have hOlder : ∀ (event : ThreadEvent) (rest : List ThreadEvent), events = event :: rest →
      ∀ later, ThreadPhase.batch rest = .batch later → .pipe ∈ later → s.pipe ≠ [] ∨
        ∃ before, s.phase thread = .batch before ∧ .pipe ∈ before := by
    rintro event rest rfl later hLater hPipe
    cases hLater
    exact Or.inr ⟨_, hBatch, List.mem_cons_of_mem _ hPipe⟩
  cases events with
  | nil => exact .stayed _ hIn rfl fun _ hEvents => by cases hEvents
  | cons event rest =>
      cases event with
      | pipe => exact .stopped hBatch
      | tun failed =>
          cases failed with
          | true => exact .left hIn (by simp [leavesUnread, hBatch]) rfl
          | false => exact .stayed _ hIn rfl (hOlder _ _ rfl)
      | socket => exact .stayed _ hIn rfl (hOlder _ _ rfl)
      | endless => exact .refused _

theorem taken_epollWait {result : WaitResult} (hWaiting : s.phase thread = .waiting) :
    Taken s (.waits thread result) (s.epollWait thread result) := by
  have hIn : s.InLoop thread := inLoop_of_phase hWaiting rfl
  cases result with
  | interrupted => exact .refused _
  | failed => exact .left hIn (by simp [leavesUnread, hWaiting]) rfl
  | ready events =>
      unfold epollWait
      dsimp only
      split_ifs with hEmpty
      · exact .refused _
      · refine .stayed _ hIn rfl fun later hLater hPipe => Or.inl fun hNone => ?_
        cases hLater
        exact hEmpty ⟨hPipe, hNone⟩

theorem taken_step (s : Signal) (m : SignalMove) : Taken s m (s.step m) := by
  cases m with
  | startCalled => exact .startCalled
  | startTests call found =>
      by_cases hCall : s.starts[call]? = some .testing
      · rw [step, if_pos hCall]
        exact .startTested found hCall
      · rw [step, if_neg hCall]
        exact .refused _
  | startCreates call ok =>
      unfold step
      dsimp only
      split_ifs with hCall
      · cases ok with
        | true => exact .created hCall
        | false => exact .notCreated hCall
      · exact .refused _
  | stopCalled =>
      apply Taken.stopCalled
      intro request hNext
      cases hThread : s.threadId with
      | none => simp [hThread, StopPhase.request] at hNext
      | some thread =>
          rw [hThread] at hNext
          cases hNext
          exact ⟨rfl, rfl⟩
  | stopTests call found =>
      unfold step
      dsimp only
      split
      · rename_i request hCall
        refine .stopMoved _ hCall fun other hNext => ?_
        split_ifs at hNext
        · exact hNext
        · cases hNext
      · exact .refused _
  | stopWrites call ok =>
      unfold step
      dsimp only
      split
      · rename_i request hCall
        cases ok with
        | true => exact .wrote hCall
        | false => exact .stopMoved _ hCall fun other hNext => by cases hNext
      · exact .refused _
  | stopJoins call ok =>
      unfold step
      dsimp only
      split
      · rename_i request hCall
        split_ifs
        · exact .refused _
        · exact .stopMoved _ hCall fun other hNext => by cases hNext
      · exact .refused _
  | attaches thread ok =>
      unfold step
      dsimp only
      split_ifs with hPhase hOk
      · exact .stayed _ (inLoop_of_phase hPhase rfl) rfl fun _ hEvents => by cases hEvents
      · exact .left (inLoop_of_phase hPhase rfl) (by simp [leavesUnread, hPhase, hOk]) rfl
      · exact .refused _
  | opens thread ok =>
      unfold step
      dsimp only
      split_ifs with hPhase hOk
      · exact .stayed _ (inLoop_of_phase hPhase rfl) rfl fun _ hEvents => by cases hEvents
      · exact .left (inLoop_of_phase hPhase rfl) (by simp [leavesUnread, hPhase, hOk]) rfl
      · exact .refused _
  | waits thread result =>
      unfold step
      dsimp only
      split_ifs with hPhase
      · exact taken_epollWait hPhase
      · exact .refused _
  | handles thread =>
      unfold step
      dsimp only
      split
      · rename_i events hBatch
        exact taken_handleEvents hBatch
      · exact .refused _
  | clears thread =>
      unfold step
      dsimp only
      split_ifs with hPhase
      · exact .cleared hPhase
      · exact .refused _
  | ends thread =>
      unfold step
      dsimp only
      split_ifs with hPhase
      · exact .ended hPhase
      · exact .refused _

/-! ### Phases -/

theorem lt_of_phase (hThread : s.phase thread ≠ .gone) : thread < s.threads.length := by
  by_contra hOut
  exact hThread (by rw [phase, List.getElem?_eq_none (by omega)]; rfl)

theorem InLoop.ne_gone (hIn : s.InLoop thread) : s.phase thread ≠ .gone := fun hGone => by
  rw [InLoop, hGone] at hIn
  cases hIn

theorem InLoop.lt (hIn : s.InLoop thread) : thread < s.threads.length := lt_of_phase hIn.ne_gone

theorem phase_setPhase (hThread : s.phase thread ≠ .gone) (next : ThreadPhase) (other : Nat) :
    (s.setPhase thread next).phase other = if other = thread then next else s.phase other := by
  have hLt := lt_of_phase hThread
  unfold phase setPhase
  dsimp only
  rw [List.getElem?_set]
  split_ifs with hSame hBoth hBoth
  · rfl
  · exact absurd hSame.symm hBoth
  · exact absurd hBoth.symm hSame
  · rfl

@[simp] theorem length_setPhase (s : Signal) (thread : Nat) (next : ThreadPhase) :
    (s.setPhase thread next).threads.length = s.threads.length := List.length_set

theorem inLoop_setPhase (hThread : s.phase thread ≠ .gone) (next : ThreadPhase) (other : Nat) :
    (s.setPhase thread next).InLoop other ↔
      if other = thread then next.inLoop = true else s.InLoop other := by
  unfold InLoop
  rw [phase_setPhase hThread]
  split_ifs <;> rfl

/-- A thread that has just been created is the newest one. -/
theorem phase_created (starts : List StartPhase) (other : Nat) :
    phase { s with threads := s.threads ++ [.attaching], threadId := some s.threads.length, starts := starts }
      other = if other = s.threads.length then .attaching else s.phase other := by
  unfold phase
  dsimp only
  rw [List.getElem?_append]
  split_ifs with hLt hSame hSame
  · omega
  · rfl
  · simp [hSame]
  · rw [List.getElem?_eq_none (by simp; omega), List.getElem?_eq_none (by omega)]

/-! ### Requests -/

/-- A request is for a thread that had been created when the call was made. -/
def Known (s : Signal) (request : StopRequest) : Prop :=
  request.thread < request.created ∧ request.created ≤ s.threads.length

structure Sound (s : Signal) : Prop where
  threadId : ∀ thread, s.threadId = some thread → thread < s.threads.length
  stops : ∀ stop ∈ s.stops, ∀ request, stop.request = some request → s.Known request
  pipe : ∀ request ∈ s.pipe, s.Known request

theorem Known.mono {request : StopRequest} (h : s.Known request)
    (hMore : s.threads.length ≤ s'.threads.length) : s'.Known request := ⟨h.1, Nat.le_trans h.2 hMore⟩

theorem Sound.setPhase (h : Sound s) {next : ThreadPhase} : Sound (s.setPhase thread next) := by
  have hMore : s.threads.length ≤ (s.setPhase thread next).threads.length := by simp
  exact ⟨fun thread hThread => Nat.lt_of_lt_of_le (h.threadId thread hThread) hMore,
    fun stop hStop request hRequest => (h.stops stop hStop request hRequest).mono hMore,
    fun request hIn => (h.pipe request hIn).mono hMore⟩

theorem Sound.taken (h : Sound s) (hTaken : Taken s m s') : Sound s' := by
  cases hTaken with
  | refused => exact h
  | startCalled => exact ⟨h.threadId, h.stops, h.pipe⟩
  | startTested => exact ⟨h.threadId, h.stops, h.pipe⟩
  | notCreated => exact ⟨h.threadId, h.stops, h.pipe⟩
  | created hCall =>
      have hMore : s.threads.length ≤ (s.threads ++ [ThreadPhase.attaching]).length := by simp
      refine ⟨fun thread hThread => ?_, fun stop hStop request hRequest => ?_, fun request hIn => ?_⟩
      · cases hThread
        simp
      · exact (h.stops stop hStop request hRequest).mono hMore
      · exact (h.pipe request hIn).mono hMore
  | stopCalled hNext =>
      refine ⟨h.threadId, fun stop hStop request hRequest => ?_, h.pipe⟩
      rcases List.mem_append.mp hStop with hOld | hNew
      · exact h.stops stop hOld request hRequest
      · obtain rfl := List.mem_singleton.mp hNew
        obtain ⟨hThread, hCreated⟩ := hNext request hRequest
        exact ⟨hCreated ▸ h.threadId _ hThread, Nat.le_of_eq hCreated⟩
  | stopMoved m hCall hNext =>
      refine ⟨h.threadId, fun stop hStop request hRequest => ?_, h.pipe⟩
      rcases List.mem_or_eq_of_mem_set hStop with hOld | rfl
      · exact h.stops stop hOld request hRequest
      · exact h.stops _ (List.mem_of_getElem? hCall) request (hNext request hRequest)
  | wrote hCall =>
      have hKnown := h.stops _ (List.mem_of_getElem? hCall) _ rfl
      refine ⟨h.threadId, fun stop hStop request hRequest => ?_, fun request hIn => ?_⟩
      · rcases List.mem_or_eq_of_mem_set hStop with hOld | rfl
        · exact h.stops stop hOld request hRequest
        · cases hRequest
          exact hKnown
      · rcases List.mem_append.mp hIn with hOld | hNew
        · exact h.pipe request hOld
        · obtain rfl := List.mem_singleton.mp hNew
          exact hKnown
  | stayed => exact h.setPhase
  | left => exact h.setPhase
  | @stopped thread =>
      have hSet : Sound (s.setPhase thread .leaving) := h.setPhase
      exact ⟨hSet.threadId, hSet.stops, fun request hIn => hSet.pipe request (List.mem_of_mem_tail hIn)⟩
  | @cleared thread =>
      have hSet : Sound (s.setPhase thread .cleared) := h.setPhase
      exact ⟨fun _ hThread => (nomatch hThread), hSet.stops, hSet.pipe⟩
  | ended => exact h.setPhase

theorem sound_run (moves : List SignalMove) : Sound (run step init moves) := by
  apply run_invariant_always
  · exact ⟨fun _ hThread => (nomatch hThread), fun _ hStop => (nomatch hStop),
      fun _ hIn => (nomatch hIn)⟩
  · exact fun s m h => h.taken (taken_step s m)

/-! ### Whose request a byte is -/

/-- What a thread that has left its loop through the pipe has read. -/
def ReadOwn (exit : Nat × Option StopRequest) : Prop :=
  ∃ request, exit.2 = some request ∧ request.thread = exit.1 ∧ exit.1 < request.created

/-- A thread has left its loop through the pipe only on a request for it, of a call that
was made after it had been created, and no request for an earlier thread awaits a later
one. -/
structure OwnStops (s : Signal) : Prop where
  exits : ∀ exit ∈ s.exits, ReadOwn exit
  pipe : ∀ request ∈ s.pipe, ∀ thread < s.threads.length, thread ≤ request.thread

/-- A request is written while its thread is in its loop and no other one waits, a thread
does not leave its loop behind a request that it has not read, and none is created while
another one is in its loop. -/
structure Timely (s : Signal) (m : SignalMove) : Prop where
  writes : ∀ request, s.written m = some request → s.InLoop request.thread ∧ s.pipe = []
  leaves : s.leavesUnread m = true → s.pipe = []
  creates : s.creates m = true → ∀ thread, ¬ s.InLoop thread

instance (s : Signal) (thread : Nat) : Decidable (s.InLoop thread) :=
  inferInstanceAs (Decidable (_ = true))

instance (s : Signal) (m : SignalMove) : Decidable (s.Timely m) :=
  decidable_of_iff ((∀ request ∈ s.written m, s.InLoop request.thread ∧ s.pipe = []) ∧
      (s.leavesUnread m = true → s.pipe = []) ∧
      (s.creates m = true → ∀ thread < s.threads.length, ¬ s.InLoop thread))
    ⟨fun h => ⟨h.1, h.2.1, fun hCreates _ hIn => h.2.2 hCreates _ hIn.lt hIn⟩,
      fun h => ⟨h.writes, h.leaves, fun hCreates _ _ => h.creates hCreates _⟩⟩

/-- Only the newest thread is in its loop, and what waits in the pipe is one request for it. -/
structure Settled (s : Signal) : Prop where
  sound : Sound s
  newest : ∀ thread, s.InLoop thread → thread + 1 = s.threads.length
  one : s.pipe.length ≤ 1
  pipe : ∀ request ∈ s.pipe, s.InLoop request.thread
  batch : ∀ thread events, s.phase thread = .batch events → .pipe ∈ events → s.pipe ≠ []
  exits : ∀ exit ∈ s.exits, ReadOwn exit

theorem Settled.ownStops (h : Settled s) : OwnStops s := by
  refine ⟨h.exits, fun request hIn thread hThread => ?_⟩
  have hNewest := h.newest _ (h.pipe request hIn)
  omega

/-- A thread goes on, on its side of the end of its loop. -/
theorem Settled.setPhase (h : Settled s) (hThread : s.phase thread ≠ .gone) {next : ThreadPhase}
    (hSide : next.inLoop = (s.phase thread).inLoop)
    (hBatch : ∀ events, next = .batch events → .pipe ∈ events → s.pipe ≠ []) :
    Settled (s.setPhase thread next) := by
  have hAll : ∀ other, (s.setPhase thread next).InLoop other ↔ s.InLoop other := by
    intro other
    rw [inLoop_setPhase hThread]
    split_ifs with hSame
    · rw [hSame, hSide, InLoop]
    · rfl
  refine ⟨h.sound.setPhase, fun other hOther => ?_, h.one, ?_, ?_, h.exits⟩
  · simpa using h.newest other ((hAll other).mp hOther)
  · exact fun request hRequest => (hAll _).mpr (h.pipe request hRequest)
  · intro other events hEvents hPipe
    rw [phase_setPhase hThread] at hEvents
    split_ifs at hEvents with hSame
    · exact hBatch events hEvents hPipe
    · exact h.batch other events hEvents hPipe

theorem Settled.left (h : Settled s) (hIn : s.InLoop thread) (hEmpty : s.pipe = []) {next : ThreadPhase}
    (hNext : next.inLoop = false) : Settled (s.setPhase thread next) := by
  have hOthers : ∀ other, (s.setPhase thread next).InLoop other → s.InLoop other := by
    intro other hOther
    rw [inLoop_setPhase hIn.ne_gone] at hOther
    split_ifs at hOther with hSame
    · simp [hNext] at hOther
    · exact hOther
  refine ⟨h.sound.setPhase, fun other hOther => ?_, h.one, ?_, ?_, h.exits⟩
  · simpa using h.newest other (hOthers other hOther)
  · intro request hRequest
    change request ∈ s.pipe at hRequest
    simp [hEmpty] at hRequest
  · intro other events hBatch hPipe
    rw [phase_setPhase hIn.ne_gone] at hBatch
    split_ifs at hBatch with hSame
    · simp [hBatch, ThreadPhase.inLoop] at hNext
    · exact h.batch other events hBatch hPipe

/-- The only request that waits is for the thread that reads it. -/
theorem Settled.stopped (h : Settled s) {rest : List ThreadEvent}
    (hBatch : s.phase thread = .batch (.pipe :: rest)) :
    Settled { s.setPhase thread .leaving with
      pipe := s.pipe.tail, exits := s.exits ++ [(thread, s.pipe.head?)] } := by
  have hIn : s.InLoop thread := inLoop_of_phase hBatch rfl
  have hOne := h.one
  cases hPipe : s.pipe with
  | nil => exact absurd hPipe (h.batch thread _ hBatch (List.mem_cons_self ..))
  | cons request others =>
      obtain rfl : others = [] := by
        rw [hPipe, List.length_cons] at hOne
        exact List.eq_nil_of_length_eq_zero (by omega)
      have hHere : request ∈ s.pipe := by simp [hPipe]
      have hOwn : request.thread = thread := by
        have hNewest := h.newest thread hIn
        have hOther := h.newest _ (h.pipe request hHere)
        omega
      have hRead : ReadOwn (thread, some request) :=
        ⟨request, rfl, hOwn, hOwn ▸ (h.sound.pipe request hHere).1⟩
      have hNone : ∀ other, ¬ (s.setPhase thread .leaving).InLoop other := by
        intro other hOther
        rw [inLoop_setPhase hIn.ne_gone] at hOther
        split_ifs at hOther with hSame
        · cases hOther
        · have hNewest := h.newest thread hIn
          have hLater := h.newest other hOther
          omega
      refine ⟨?_, fun other hOther => absurd hOther (hNone other), by simp, ?_, ?_, ?_⟩
      · have hSet : Sound (s.setPhase thread .leaving) := h.sound.setPhase
        exact ⟨hSet.threadId, hSet.stops, fun request hRequest => by simp at hRequest⟩
      · exact fun other hOther => by simp at hOther
      · intro other events hEvents
        change (s.setPhase thread .leaving).phase other = .batch events at hEvents
        exact absurd (inLoop_of_phase hEvents rfl) (hNone other)
      · intro exit hExit
        rcases List.mem_append.mp hExit with hOld | hNew
        · exact h.exits exit hOld
        · obtain rfl := List.mem_singleton.mp hNew
          exact hRead

theorem Settled.created (h : Settled s) (hAlone : ∀ thread, ¬ s.InLoop thread) {starts : List StartPhase}
    (hSound : Sound { s with
      threads := s.threads ++ [.attaching], threadId := some s.threads.length, starts := starts }) :
    Settled { s with
      threads := s.threads ++ [.attaching], threadId := some s.threads.length, starts := starts } := by
  have hEmpty : s.pipe = [] := List.eq_nil_iff_forall_not_mem.mpr fun request hIn =>
    hAlone _ (h.pipe request hIn)
  refine ⟨hSound, fun other hOther => ?_, h.one, ?_, ?_, h.exits⟩
  · rw [InLoop, phase_created] at hOther
    split_ifs at hOther with hNew
    · simp [hNew]
    · exact absurd hOther (hAlone other)
  · intro request hRequest
    change request ∈ s.pipe at hRequest
    simp [hEmpty] at hRequest
  · intro other events hEvents hPipe
    rw [phase_created] at hEvents
    split_ifs at hEvents with hNew
    exact h.batch other events hEvents hPipe

theorem Settled.wrote (h : Settled s) {request : StopRequest} (hIn : s.InLoop request.thread)
    (hEmpty : s.pipe = []) {stops : List StopPhase}
    (hSound : Sound { s with pipe := s.pipe ++ [request], stops := stops }) :
    Settled { s with pipe := s.pipe ++ [request], stops := stops } := by
  refine ⟨hSound, h.newest, by simp [hEmpty], ?_, ?_, h.exits⟩
  · intro other hOther
    change other ∈ s.pipe ++ [request] at hOther
    rw [hEmpty, List.nil_append, List.mem_singleton] at hOther
    rw [hOther]
    exact hIn
  · exact fun other events hEvents hPipe => by simp

theorem Settled.taken (h : Settled s) (hTaken : Taken s m s') (hTimely : Timely s m) : Settled s' := by
  have hSound : Sound s' := h.sound.taken hTaken
  cases hTaken with
  | refused => exact h
  | startCalled => exact ⟨hSound, h.newest, h.one, h.pipe, h.batch, h.exits⟩
  | startTested => exact ⟨hSound, h.newest, h.one, h.pipe, h.batch, h.exits⟩
  | notCreated => exact ⟨hSound, h.newest, h.one, h.pipe, h.batch, h.exits⟩
  | created hCall => exact h.created (hTimely.creates (by simp [creates, hCall])) hSound
  | stopCalled => exact ⟨hSound, h.newest, h.one, h.pipe, h.batch, h.exits⟩
  | stopMoved => exact ⟨hSound, h.newest, h.one, h.pipe, h.batch, h.exits⟩
  | @wrote call request hCall =>
      obtain ⟨hIn, hEmpty⟩ := hTimely.writes request (by simp [written, hCall])
      exact h.wrote hIn hEmpty hSound
  | @stayed m thread next hIn hNext hBatch =>
      refine h.setPhase hIn.ne_gone (hNext.trans hIn.symm) fun events hEvents hPipe => ?_
      rcases hBatch events hEvents hPipe with hSome | ⟨before, hBefore, hHere⟩
      · exact hSome
      · exact h.batch thread before hBefore hHere
  | left hIn hUnread hNext => exact h.left hIn (hTimely.leaves hUnread) hNext
  | stopped hBatch => exact h.stopped hBatch
  | @cleared thread hLeaving =>
      have hSet : Settled (s.setPhase thread .cleared) :=
        h.setPhase (by simp [hLeaving]) (by rw [hLeaving]; rfl) fun _ hEvents => (nomatch hEvents)
      exact ⟨hSound, hSet.newest, hSet.one, hSet.pipe, hSet.batch, hSet.exits⟩
  | ended hCleared =>
      exact h.setPhase (by simp [hCleared]) (by rw [hCleared]; rfl) fun _ hEvents => (nomatch hEvents)

theorem settled_run {moves : List SignalMove} (hTimely : Along step Timely init moves) :
    Settled (run step init moves) := by
  refine run_invariant ?_ hTimely fun s m h hMove => h.taken (taken_step s m) hMove
  exact ⟨sound_run [], fun _ hIn => (nomatch hIn), Nat.zero_le _, fun _ hIn => (nomatch hIn),
    fun _ _ hEvents => (nomatch hEvents), fun _ hExit => (nomatch hExit)⟩

/-! ### What is left unread

A thread reads one byte and leaves. Where more bytes wait than threads are in their
loops, one is left for the next thread. -/

/-- A byte waits that no thread is there to read. -/
def Unread (s : Signal) : Prop := s.threads.countP ThreadPhase.inLoop < s.pipe.length

theorem countP_setPhase (hThread : s.phase thread ≠ .gone) (next : ThreadPhase) :
    (s.setPhase thread next).threads.countP ThreadPhase.inLoop +
        (if (s.phase thread).inLoop then 1 else 0) =
      s.threads.countP ThreadPhase.inLoop + if next.inLoop then 1 else 0 := by
  have hLt := lt_of_phase hThread
  have hPhase : s.phase thread = s.threads[thread] := by
    rw [phase, List.getElem?_eq_getElem hLt]
    rfl
  have hCount : (if (s.phase thread).inLoop then 1 else 0) ≤ s.threads.countP ThreadPhase.inLoop := by
    split_ifs with hIn
    · exact List.countP_pos_iff.mpr ⟨_, List.getElem_mem hLt, hPhase ▸ hIn⟩
    · exact Nat.zero_le _
  rw [setPhase, List.countP_set hLt, ← hPhase]
  omega

theorem Unread.taken (h : Unread s) (hTaken : Taken s m s') (hCreates : s.creates m = false) : Unread s' := by
  unfold Unread at h ⊢
  cases hTaken with
  | refused => exact h
  | startCalled => exact h
  | startTested => exact h
  | notCreated => exact h
  | created hCall => simp [creates, hCall] at hCreates
  | stopCalled => exact h
  | stopMoved => exact h
  | wrote =>
      dsimp only
      rw [List.length_append]
      exact Nat.lt_add_right _ h
  | @stayed m thread next hIn hNext =>
      have hCount := countP_setPhase hIn.ne_gone next
      rw [InLoop] at hIn
      rw [if_pos hIn, if_pos hNext] at hCount
      change _ < s.pipe.length
      omega
  | @left m thread next hIn hUnread hNext =>
      have hCount := countP_setPhase hIn.ne_gone next
      rw [InLoop] at hIn
      rw [if_pos hIn, if_neg (by simp [hNext])] at hCount
      change _ < s.pipe.length
      omega
  | @stopped thread rest hBatch =>
      have hIn : s.InLoop thread := inLoop_of_phase hBatch rfl
      have hCount := countP_setPhase hIn.ne_gone .leaving
      rw [InLoop] at hIn
      rw [if_pos hIn, if_neg (by decide)] at hCount
      dsimp only
      rw [List.length_tail]
      omega
  | @cleared thread hLeaving =>
      have hThread : s.phase thread ≠ .gone := by simp [hLeaving]
      have hCount := countP_setPhase hThread .cleared
      rw [if_neg (by rw [hLeaving]; decide), if_neg (by decide)] at hCount
      change (s.setPhase thread .cleared).threads.countP _ < s.pipe.length
      omega
  | @ended thread hCleared =>
      have hThread : s.phase thread ≠ .gone := by simp [hCleared]
      have hCount := countP_setPhase hThread .gone
      rw [if_neg (by rw [hCleared]; decide), if_neg (by decide)] at hCount
      change _ < s.pipe.length
      omega

/-- A request that is not read is there for the next thread. -/
theorem Unread.not_ownStops (h : Unread s) (hSound : Sound s) {moves : List SignalMove}
    (hNone : Along step (fun s m => s.creates m = false) s moves)
    (hCreates : (run step s moves).creates m = true) : ¬ OwnStops ((run step s moves).step m) := by
  have hLater : Unread (run step s moves) ∧ Sound (run step s moves) :=
    run_invariant (I := fun t => Unread t ∧ Sound t) ⟨h, hSound⟩ hNone fun t m ht hMove =>
      ⟨ht.1.taken (taken_step t m) hMove, ht.2.taken (taken_step t m)⟩
  generalize run step s moves = t at hLater hCreates
  obtain ⟨hUnread, hKnown⟩ := hLater
  obtain ⟨call, rfl, hCall⟩ := creates_eq_true hCreates
  intro hOwn
  cases hPipe : t.pipe with
  | nil => simp [Unread, hPipe] at hUnread
  | cons request rest =>
      have hThere := hKnown.pipe request (by simp [hPipe])
      have hNewer := hOwn.pipe request (by simp [step, hCall, pthreadCreate, hPipe]) t.threads.length
        (by simp [step, hCall, pthreadCreate])
      have := hThere.1
      have := hThere.2
      omega

theorem step_of_leavesUnread (h : s.leavesUnread m = true) : ∃ thread next, s.InLoop thread ∧
    next.inLoop = false ∧ s.step m = s.setPhase thread next := by
  cases m with
  | attaches thread ok =>
      obtain ⟨hPhase, rfl⟩ : s.phase thread = .attaching ∧ ok = false := by simpa [leavesUnread] using h
      exact ⟨thread, .gone, inLoop_of_phase hPhase rfl, rfl, by rw [step, if_pos hPhase]; rfl⟩
  | opens thread ok =>
      obtain ⟨hPhase, rfl⟩ : s.phase thread = .opening ∧ ok = false := by simpa [leavesUnread] using h
      exact ⟨thread, .leaving, inLoop_of_phase hPhase rfl, rfl, by rw [step, if_pos hPhase]; rfl⟩
  | waits thread result =>
      obtain ⟨hPhase, rfl⟩ : s.phase thread = .waiting ∧ result = .failed := by
        simpa [leavesUnread] using h
      exact ⟨thread, .leaving, inLoop_of_phase hPhase rfl, rfl, by rw [step, if_pos hPhase]; rfl⟩
  | handles thread =>
      unfold leavesUnread at h
      dsimp only at h
      split at h
      · rename_i rest hPhase
        exact ⟨thread, .leaving, inLoop_of_phase hPhase rfl, rfl, by simp [step, hPhase, handleEvents]⟩
      · cases h
  | _ => cases h

theorem countP_of_none (hNone : ∀ thread, ¬ s.InLoop thread) :
    s.threads.countP ThreadPhase.inLoop = 0 := by
  refine List.countP_eq_zero.mpr fun next hNext hIn => ?_
  obtain ⟨thread, hThread⟩ := List.mem_iff_getElem?.mp hNext
  exact hNone thread (by rw [InLoop, phase, hThread]; exact hIn)

theorem Settled.countP_le (h : Settled s) : s.threads.countP ThreadPhase.inLoop ≤ 1 := by
  by_cases hSome : ∃ thread, s.InLoop thread
  · obtain ⟨thread, hIn⟩ := hSome
    -- without the one that is in its loop there is none
    have hCount := countP_setPhase hIn.ne_gone .gone
    have hNone : ∀ other, ¬ (s.setPhase thread .gone).InLoop other := by
      intro other hOther
      rw [inLoop_setPhase hIn.ne_gone] at hOther
      split_ifs at hOther with hSame
      · cases hOther
      · have hNewest := h.newest thread hIn
        have hLater := h.newest other hOther
        omega
    rw [InLoop] at hIn
    rw [countP_of_none hNone, if_pos hIn, if_neg (by decide)] at hCount
    omega
  · rw [countP_of_none fun thread hIn => hSome ⟨thread, hIn⟩]
    exact Nat.zero_le _

/-- An untimely write or exit leaves a request unread, or there is a later thread already. -/
theorem Settled.unread (h : Settled s)
    (hUntimely : (∃ request, s.written m = some request ∧ ¬ (s.InLoop request.thread ∧ s.pipe = [])) ∨
      (s.leavesUnread m = true ∧ s.pipe ≠ [])) :
    Unread (s.step m) ∨ ¬ OwnStops (s.step m) := by
  have hCount := h.countP_le
  rcases hUntimely with ⟨request, hWritten, hNot⟩ | ⟨hLeaves, hPipe⟩
  · obtain ⟨call, rfl, hCall⟩ := written_eq_some hWritten
    have hStep : s.step (.stopWrites call true) = { s with
        pipe := s.pipe ++ [request], stops := s.stops.set call (.joining request) } := by
      simp [step, hCall]
    rw [hStep]
    by_cases hPipe : s.pipe = []
    · have hOut : ¬ s.InLoop request.thread := fun hIn => hNot ⟨hIn, hPipe⟩
      by_cases hSome : ∃ thread, s.InLoop thread
      · obtain ⟨thread, hIn⟩ := hSome
        refine Or.inr fun hOwn => ?_
        have hNewest := h.newest thread hIn
        have hNewer := hOwn.pipe request (by simp) thread hIn.lt
        have hKnown := h.sound.stops _ (List.mem_of_getElem? hCall) request rfl
        have hSame : request.thread = thread := by
          have := hKnown.1
          have := hKnown.2
          omega
        exact hOut (hSame ▸ hIn)
      · left
        change s.threads.countP _ < (s.pipe ++ [request]).length
        rw [countP_of_none fun thread hIn => hSome ⟨thread, hIn⟩]
        simp
    · left
      change s.threads.countP _ < (s.pipe ++ [request]).length
      have hSome := List.length_pos_iff.mpr hPipe
      rw [List.length_append, List.length_singleton]
      omega
  · obtain ⟨thread, next, hIn, hNext, hStep⟩ := step_of_leavesUnread hLeaves
    left
    have hAfter := countP_setPhase hIn.ne_gone next
    have hSome := List.length_pos_iff.mpr hPipe
    rw [InLoop] at hIn
    rw [if_pos hIn, if_neg (by simp [hNext])] at hAfter
    rw [hStep]
    change (s.setPhase thread next).threads.countP _ < s.pipe.length
    omega

/-- Behind a timely run, an untimely write or exit goes wrong at once, or with the next
thread that is created. -/
theorem untimely_reaches_next {before after : List SignalMove} {last : SignalMove}
    (hTimely : Along step Timely init before)
    (hUntimely : (∃ request, (run step init before).written m = some request ∧
        ¬ ((run step init before).InLoop request.thread ∧ (run step init before).pipe = [])) ∨
      ((run step init before).leavesUnread m = true ∧ (run step init before).pipe ≠ []))
    (hNone : Along step (fun s m => s.creates m = false) (run step init (before ++ [m])) after)
    (hCreates : (run step init (before ++ m :: after)).creates last = true) :
    ¬ OwnStops (run step init (before ++ [m])) ∨
      ¬ OwnStops (run step init (before ++ m :: after ++ [last])) := by
  have hNext : run step init (before ++ [m]) = (run step init before).step m := by
    rw [run_append]
    rfl
  have hLast : run step init (before ++ m :: after) = run step (run step init (before ++ [m])) after := by
    rw [← run_append, List.append_assoc]
    rfl
  rcases (settled_run hTimely).unread hUntimely with hUnread | hWrong
  · right
    rw [← hNext] at hUnread
    rw [hLast] at hCreates
    rw [run_append, hLast]
    exact hUnread.not_ownStops (sound_run _) hNone hCreates
  · exact Or.inl (hNext ▸ hWrong)

/-! ### Calls of `jni_start` that follow one another -/

/-- No call of `jni_start` is made while another one is under way. -/
def StartsInTurn (s : Signal) (m : SignalMove) : Prop :=
  m = .startCalled → ∀ start ∈ s.starts, start = .done

end Signal

/-- The thread has not reset `thread_id` at its end. -/
def ThreadPhase.registered : ThreadPhase → Bool
  | cleared | gone => false
  | _ => true

namespace Signal

variable {s s' : Signal} {m : SignalMove} {thread : Nat}

/-- The one thread that is not at its end is the one in `thread_id`, and the one call that
is under way creates a thread only where there is none. -/
structure Alone (s : Signal) : Prop where
  threadId : ∀ thread, (s.phase thread).registered = true → s.threadId = some thread
  creating : .creating ∈ s.starts → ∀ thread, (s.phase thread).registered = false
  one : ∀ call other : Nat, ∀ start, s.starts[call]? = some start → start ≠ .done →
    ∀ later, s.starts[other]? = some later → later ≠ .done → call = other

theorem registered_of_inLoop (hIn : s.InLoop thread) : (s.phase thread).registered = true := by
  unfold InLoop at hIn
  generalize s.phase thread = phase at hIn
  cases phase <;> first | rfl | cases hIn

/-- A thread goes on to its end. -/
theorem Alone.setPhase (h : Alone s) (hThread : s.phase thread ≠ .gone) {next : ThreadPhase}
    (hNext : next.registered = true → (s.phase thread).registered = true) :
    Alone (s.setPhase thread next) := by
  have hAll : ∀ other, ((s.setPhase thread next).phase other).registered = true →
      (s.phase other).registered = true := by
    intro other hOther
    rw [phase_setPhase hThread] at hOther
    split_ifs at hOther with hSame
    · exact hSame ▸ hNext hOther
    · exact hOther
  refine ⟨fun other hOther => h.threadId other (hAll other hOther), fun hCreating other => ?_, h.one⟩
  have hNone := h.creating hCreating other
  cases hOther : ((s.setPhase thread next).phase other).registered with
  | false => rfl
  | true => simp [hAll other hOther] at hNone

/-- A call of `jni_start` goes on. -/
theorem Alone.setStart (h : Alone s) {call : Nat} {start next : StartPhase}
    (hCall : s.starts[call]? = some start) (hUnder : start ≠ .done)
    (hNext : next = .creating → ∀ thread, (s.phase thread).registered = false) :
    Alone { s with starts := s.starts.set call next } := by
  have hBefore : ∀ (other : Nat) (later : StartPhase), (s.starts.set call next)[other]? = some later →
      later ≠ .done → other = call ∨ s.starts[other]? = some later := by
    intro other later hLater hNot
    rw [List.getElem?_set] at hLater
    split_ifs at hLater with hSame hLt
    · exact Or.inl hSame.symm
    · exact Or.inr hLater
  have hSame : ∀ (other : Nat) (later : StartPhase), (s.starts.set call next)[other]? = some later →
      later ≠ .done → other = call := by
    intro other later hLater hNot
    rcases hBefore other later hLater hNot with hHere | hOld
    · exact hHere
    · exact h.one other call later hOld hNot start hCall hUnder
  refine ⟨h.threadId, fun hCreating thread => ?_, fun i j start hStart hNot later hLater hLaterNot => ?_⟩
  · rcases List.mem_or_eq_of_mem_set hCreating with hOld | hNew
    · exact h.creating hOld thread
    · exact hNext hNew.symm thread
  · rw [hSame i start hStart hNot, hSame j later hLater hLaterNot]

theorem Alone.startCalled (h : Alone s) (hDone : ∀ start ∈ s.starts, start = .done) :
    Alone { s with starts := s.starts ++ [if s.threadId = none then .creating else .testing] } := by
  have hLast : ∀ (call : Nat) (start next : StartPhase), (s.starts ++ [next])[call]? = some start →
      start ≠ .done → call = s.starts.length := by
    intro call start next hStart hNot
    rw [List.getElem?_append] at hStart
    split_ifs at hStart with hLt
    · exact absurd (hDone start (List.mem_of_getElem? hStart)) hNot
    · have hZero := (List.getElem?_eq_some_iff.mp hStart).1
      rw [List.length_singleton] at hZero
      omega
  refine ⟨h.threadId, fun hCreating thread => ?_, fun i j start hStart hNot later hLater hLaterNot => ?_⟩
  · rcases List.mem_append.mp hCreating with hOld | hNew
    · exact absurd (hDone _ hOld) (by decide)
    · cases hRegistered : (s.phase thread).registered with
      | false => exact hRegistered
      | true => simp [h.threadId thread hRegistered] at hNew
  · rw [hLast i start _ hStart hNot, hLast j later _ hLater hLaterNot]

theorem Alone.created (h : Alone s) {call : Nat} (hCall : s.starts[call]? = some .creating) :
    Alone { s with
      threads := s.threads ++ [.attaching], threadId := some s.threads.length,
      starts := s.starts.set call .done } := by
  have hStarts : Alone { s with starts := s.starts.set call .done } :=
    h.setStart hCall (by decide) fun hNext => (nomatch hNext)
  refine ⟨fun other hOther => ?_, fun hCreating => ?_, hStarts.one⟩
  · rw [phase_created] at hOther
    split_ifs at hOther with hNew
    · rw [hNew]
    · simp [h.creating (List.mem_of_getElem? hCall) other] at hOther
  · obtain ⟨other, hOther⟩ := List.mem_iff_getElem?.mp hCreating
    dsimp only at hOther
    rw [List.getElem?_set] at hOther
    split_ifs at hOther with hSame
    · cases hOther
    · exact absurd (h.one call other _ hCall (by decide) _ hOther (by decide)) hSame

theorem Alone.cleared (h : Alone s) (hLeaving : s.phase thread = .leaving) :
    Alone { s.setPhase thread .cleared with threadId := none } := by
  have hThread : s.phase thread ≠ .gone := by simp [hLeaving]
  have hSet : Alone (s.setPhase thread .cleared) := h.setPhase hThread fun hNext => by cases hNext
  refine ⟨fun other hOther => ?_, hSet.creating, hSet.one⟩
  -- the thread in `thread_id` was this one
  have hHere := h.threadId thread (by rw [hLeaving]; rfl)
  have hThere := hSet.threadId other hOther
  change s.threadId = some other at hThere
  change ((s.setPhase thread .cleared).phase other).registered = true at hOther
  rw [hHere] at hThere
  cases hThere
  rw [phase_setPhase hThread, if_pos rfl] at hOther
  cases hOther

theorem Alone.taken (h : Alone s) (hTaken : Taken s m s') (hTurn : StartsInTurn s m) : Alone s' := by
  cases hTaken with
  | refused => exact h
  | startCalled => exact h.startCalled (hTurn rfl)
  | @startTested call found hCall =>
      refine h.setStart hCall (by decide) fun hNext thread => ?_
      cases hRegistered : (s.phase thread).registered with
      | false => rfl
      | true =>
          have hAlive : s.phase thread ≠ .gone := fun hGone => by
            simp [hGone, ThreadPhase.registered] at hRegistered
          simp [h.threadId thread hRegistered, pthreadKill, hAlive] at hNext
  | notCreated hCall => exact h.setStart hCall (by decide) fun hNext => (nomatch hNext)
  | created hCall => exact h.created hCall
  | stopCalled => exact ⟨h.threadId, h.creating, h.one⟩
  | stopMoved => exact ⟨h.threadId, h.creating, h.one⟩
  | wrote => exact ⟨h.threadId, h.creating, h.one⟩
  | stayed m hIn => exact h.setPhase hIn.ne_gone fun _ => registered_of_inLoop hIn
  | left hIn => exact h.setPhase hIn.ne_gone fun _ => registered_of_inLoop hIn
  | @stopped thread rest hBatch =>
      have hSet : Alone (s.setPhase thread .leaving) :=
        h.setPhase (by simp [hBatch]) fun _ => by rw [hBatch]; rfl
      exact ⟨hSet.threadId, hSet.creating, hSet.one⟩
  | cleared hLeaving => exact h.cleared hLeaving
  | ended hCleared => exact h.setPhase (by simp [hCleared]) fun hNext => by cases hNext

theorem alone_run {moves : List SignalMove} (hTurn : Along step StartsInTurn init moves) :
    Alone (run step init moves) := by
  refine run_invariant ?_ hTurn fun s m h hMove => h.taken (taken_step s m) hMove
  exact ⟨fun _ hRegistered => (nomatch hRegistered), fun hCreating => (nomatch hCreating),
    fun _ _ _ hStart => (nomatch hStart)⟩

/-- Where calls of `jni_start` follow one another, none creates a thread while another one
is in its loop. -/
theorem created_alone {moves : List SignalMove} (hTurn : Along step StartsInTurn init moves)
    (hCreates : (run step init moves).creates m = true) (thread : Nat) :
    ¬ (run step init moves).InLoop thread := by
  obtain ⟨call, -, hCall⟩ := creates_eq_true hCreates
  intro hIn
  have hNone := (alone_run hTurn).creating (List.mem_of_getElem? hCall) thread
  simp [registered_of_inLoop hIn] at hNone

end Signal

/-- In a run of timely moves a stop request stops its own thread only, and none is left
for a later one. -/
theorem stops_own_thread {moves : List SignalMove} (hTimely : Along Signal.step Signal.Timely .init moves) :
    Signal.OwnStops (run Signal.step .init moves) := (Signal.settled_run hTimely).ownStops

/-- A thread is stopped. -/
def stopRun : List SignalMove :=
  [.startCalled, .startCreates 0 true, .attaches 0 true, .opens 0 true, .stopCalled, .stopTests 0 true,
    .waits 0 (.ready [.tun false]), .stopWrites 0 true, .handles 0, .handles 0,
    .waits 0 (.ready [.socket, .pipe]), .handles 0, .handles 0, .clears 0, .ends 0, .stopJoins 0 true]

theorem stops_own_thread_once : Signal.OwnStops (run Signal.step .init stopRun) :=
  stops_own_thread (by decide)

/-- The thread leaves its loop on an error of the tun, between the test of `jni_stop` and
its write. -/
def staleRun : List SignalMove :=
  [.startCalled, .startCreates 0 true, .attaches 0 true, .opens 0 true, .stopCalled, .stopTests 0 true,
    .waits 0 (.ready [.tun true]), .handles 0, .stopWrites 0 true, .clears 0, .ends 0, .stopJoins 0 true,
    .startCalled, .startCreates 1 true, .attaches 1 true, .opens 1 true, .waits 1 (.ready [.pipe]),
    .handles 1]

/-- The next thread is stopped by the byte. -/
theorem stale_byte_stops_next : ¬ Signal.OwnStops (run Signal.step .init staleRun) := by
  intro hOwn
  have hExit : (1, some ⟨0, 1⟩) ∈ (run Signal.step .init staleRun).exits := by decide
  obtain ⟨request, hRead, hThread, -⟩ := hOwn.exits _ hExit
  cases hRead
  cases hThread

end Tun2Http
