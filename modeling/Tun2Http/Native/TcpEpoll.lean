import Tun2Http.Native.TcpRun

/-! `session.c`: which events `handle_events` can hand to a session. The loop
passes over all sessions with the monitor, then waits with `epoll_wait`, and
handles a batch in which a socket has at most one event. -/
namespace Tun2Http

open Machine

/-- The mask that epoll has for the socket: that of `handle_tcp`, or of the
last change that `epoll_ctl` did not refuse. -/
def registered : List Io → EpollEvents
  | [] => { epollout := true, epollerr := true }
  | .epollMod events true :: _ => events
  | _ :: before => registered before

/-- The event is within the mask; `EPOLLERR` and `EPOLLHUP` are reported always. -/
def EpollEvents.Within (ev mask : EpollEvents) : Prop :=
  (ev.epollin = true → mask.epollin = true) ∧ (ev.epollout = true → mask.epollout = true)

instance (ev mask : EpollEvents) : Decidable (ev.Within mask) :=
  inferInstanceAs (Decidable ((_ → _) ∧ (_ → _)))

/-- The events of the step are within the mask that epoll has. -/
def Masked (c : Cell) (input : Kernel × Input) : Prop :=
  ∀ ev, input.2 = .event ev → ev.Within (registered c.log)

/-- A session, and whether `epoll_wait` may have an event for it that was not
handled yet. -/
structure Watched where
  cell : Cell
  armed : Bool

/-- A step under the event loop: the monitor pass comes before the wait, and a
batch has one event. -/
def watch (w : Watched) (input : Kernel × Input) : Watched where
  cell := step w.cell input
  armed := match input.2 with
    | .event _ => false
    | .monitor => true
    | _ => w.armed

/-- Only a batch has events, and only within the mask. -/
def Scheduled (w : Watched) (input : Kernel × Input) : Prop :=
  match input.2 with
  | .event ev => w.armed = true ∧ ev.Within (registered w.cell.log)
  | _ => True

instance (w : Watched) : ∀ input : Kernel × Input, Decidable (Scheduled w input)
  | (_, .event ev) =>
      inferInstanceAs (Decidable (w.armed = true ∧ ev.Within (registered w.cell.log)))
  | (_, .segment _ _) => isTrue trivial
  | (_, .monitor) => isTrue trivial
  | (_, .check _ _) => isTrue trivial
  | (_, .allowed) => isTrue trivial

theorem watch_cell (w : Watched) (input : Kernel × Input) :
    (watch w input).cell = step w.cell input := rfl

/-- Only a change of the mask changes the mask. -/
theorem registered_cons {entry : Io} (log : List Io)
    (hEntry : ∀ events ok, entry ≠ .epollMod events ok) :
    registered (entry :: log) = registered log := by
  cases entry <;> first | rfl | exact absurd rfl (hEntry _ _)

/-- A new session is watched under the mask that it has. -/
theorem newSession_registered {K : Kernel} {info : SynInfo} {hdr : TcpHdr} {data : Payload}
    {c : Cell} (hNew : newSession K info hdr data = some c) : c.events = registered c.log := by
  rw [(newSession_eq hNew).2.1]
  unfold newSession at hNew
  dsimp only at hNew
  split_ifs at hNew
  simp only [Option.some.injEq] at hNew
  subst hNew
  simp only [getReceiveWindow_fst]
  rcases getReceiveBuffer_cases K _ with h | h <;> rw [h] <;> rfl

end Tun2Http
