import Tun2Http.Machine.Execution

/-! The parties of a stop request: the calls of `jni_start` and `jni_stop`, and the
event threads, which run `handle_events`. They share `thread_id` and the pipe; a move
is what one of them does between two accesses to these. Threads, and the calls of either
kind, are counted in the order in which they begin. -/
namespace Tun2Http

/-- An entry of the batch that `epoll_wait` reports: the pipe, the tun, of which
`check_tun` fails or not, a socket, or one that its handler never comes back from. -/
inductive ThreadEvent where
  | pipe
  | tun (failed : Bool)
  | socket
  | endless
  deriving DecidableEq

/-- How far a thread is in `handle_events`. -/
inductive ThreadPhase where
  | attaching
  | opening
  | waiting
  | batch (events : List ThreadEvent)
  | leaving
  | cleared
  | gone
  deriving DecidableEq

/-- A thread that may still come to the pipe. -/
def ThreadPhase.inLoop : ThreadPhase → Bool
  | attaching | opening | waiting | batch _ => true
  | leaving | cleared | gone => false

/-- What `epoll_wait` returns: `EINTR`, another error, or the entries, none on a timeout. -/
inductive WaitResult where
  | interrupted
  | failed
  | ready (events : List ThreadEvent)
  deriving DecidableEq

/-- How far a call of `jni_start` is. -/
inductive StartPhase where
  | testing
  | creating
  | done
  deriving DecidableEq

/-- What a call of `jni_stop` asks for: that the thread it has read in `thread_id`
stops. With it, for the proofs, how many threads had been created when the call was made. -/
structure StopRequest where
  thread : Nat
  created : Nat
  deriving DecidableEq

/-- How far a call of `jni_stop` is. -/
inductive StopPhase where
  | testing (request : StopRequest)
  | writing (request : StopRequest)
  | joining (request : StopRequest)
  | done
  deriving DecidableEq

/-- What the parties share, and how far each of them is. A byte of the pipe is known
by the call that has written it; `exits` are the threads that have left their loop
through the pipe, with the byte each of them has read. -/
structure Signal where
  threadId : Option Nat
  threads : List ThreadPhase
  starts : List StartPhase
  stops : List StopPhase
  pipe : List StopRequest
  exits : List (Nat × Option StopRequest)
  deriving DecidableEq

/-- The moves. A failing call of the system is an argument of the move that makes it. -/
inductive SignalMove where
  | startCalled
  | startTests (call : Nat) (found : Bool)
  | startCreates (call : Nat) (ok : Bool)
  | stopCalled
  | stopTests (call : Nat) (found : Bool)
  | stopWrites (call : Nat) (ok : Bool)
  | stopJoins (call : Nat) (ok : Bool)
  | attaches (thread : Nat) (ok : Bool)
  | opens (thread : Nat) (ok : Bool)
  | waits (thread : Nat) (result : WaitResult)
  | handles (thread : Nat)
  | clears (thread : Nat)
  | ends (thread : Nat)

namespace Signal

/-- After `jni_init`. -/
def init : Signal where
  threadId := none
  threads := []
  starts := []
  stops := []
  pipe := []
  exits := []

def phase (s : Signal) (thread : Nat) : ThreadPhase := s.threads[thread]?.getD .gone

def setPhase (s : Signal) (thread : Nat) (phase : ThreadPhase) : Signal :=
  { s with threads := s.threads.set thread phase }

/-- `pthread_kill(thread, 0) == 0`. Of a thread that has ended, and of 0, the answer
is `found`: the system may know the thread still, or give its number to another one. -/
def pthreadKill (s : Signal) (thread : Option Nat) (found : Bool) : Bool :=
  match thread with
  | none => found
  | some thread => s.phase thread != .gone || found

/-- `pthread_create`. A failing one leaves `thread_id` as it is. -/
def pthreadCreate (s : Signal) (ok : Bool) : Signal :=
  if ok then { s with threads := s.threads ++ [.attaching], threadId := some s.threads.length } else s

/-- `handle_events` on the entries of a batch that are left. -/
def handleEvents (s : Signal) (thread : Nat) : List ThreadEvent → Signal
  | [] => s.setPhase thread .waiting
  | .pipe :: _ =>
      { s.setPhase thread .leaving with
        pipe := s.pipe.tail, exits := s.exits ++ [(thread, s.pipe.head?)] }
  | .tun failed :: rest => s.setPhase thread (if failed then .leaving else .batch rest)
  | .socket :: rest => s.setPhase thread (.batch rest)
  | .endless :: _ => s

/-- `epoll_wait`. The pipe is reported only where it is readable. -/
def epollWait (s : Signal) (thread : Nat) : WaitResult → Signal
  | .interrupted => s
  | .failed => s.setPhase thread .leaving
  | .ready events => if .pipe ∈ events ∧ s.pipe = [] then s else s.setPhase thread (.batch events)

/-- One move; a move that its party cannot make changes nothing. `jni_start` and
`jni_stop` read `thread_id` when they are called, and `jni_start` once more to test it. -/
def step (s : Signal) : SignalMove → Signal
  | .startCalled =>
      { s with starts := s.starts ++ [if s.threadId = none then .creating else .testing] }
  | .startTests call found =>
      if s.starts[call]? = some .testing then
        let next := if s.pthreadKill s.threadId found then .done else .creating
        { s with starts := s.starts.set call next }
      else s
  | .startCreates call ok =>
      if s.starts[call]? = some .creating then
        { s.pthreadCreate ok with starts := s.starts.set call .done }
      else s
  | .stopCalled =>
      { s with stops := s.stops ++ [match s.threadId with
        | none => .done
        | some thread => .testing ⟨thread, s.threads.length⟩] }
  | .stopTests call found =>
      match s.stops[call]? with
      | some (.testing request) =>
          let next := if s.pthreadKill (some request.thread) found then .writing request else .done
          { s with stops := s.stops.set call next }
      | _ => s
  | .stopWrites call ok =>
      match s.stops[call]? with
      | some (.writing request) =>
          if ok then
            { s with pipe := s.pipe ++ [request], stops := s.stops.set call (.joining request) }
          else { s with stops := s.stops.set call .done }
      | _ => s
  | .stopJoins call ok =>
      match s.stops[call]? with
      | some (.joining request) =>
          if ok ∧ s.phase request.thread ≠ .gone then s
          else { s with stops := s.stops.set call .done }
      | _ => s
  | .attaches thread ok =>
      if s.phase thread = .attaching then s.setPhase thread (if ok then .opening else .gone) else s
  | .opens thread ok =>
      if s.phase thread = .opening then s.setPhase thread (if ok then .waiting else .leaving) else s
  | .waits thread result => if s.phase thread = .waiting then s.epollWait thread result else s
  | .handles thread =>
      match s.phase thread with
      | .batch events => s.handleEvents thread events
      | _ => s
  | .clears thread =>
      if s.phase thread = .leaving then { s.setPhase thread .cleared with threadId := none } else s
  | .ends thread => if s.phase thread = .cleared then s.setPhase thread .gone else s

end Signal

end Tun2Http
