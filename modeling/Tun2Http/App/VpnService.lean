import Tun2Http.Native.Signal

/-! `Tun2HttpVpnService`, which opens the tun and closes it. Its callbacks come on two threads:
`onCreate`, `onStartCommand` and `onDestroy` on the main thread, and `onRevoke` on that of the
binder, which does not wait for the main thread. Both call `jni_stop`, and the main thread
`jni_start`, while the event threads run. What a caller does between two native calls is one move
here, but for the assignment at the end of `onRevoke`. -/
namespace Tun2Http

/-- The action of an intent: `ACTION_START`, `ACTION_STOP`, or neither. -/
inductive ServiceAction where
  | start
  | stop
  | other
  deriving DecidableEq

/-- The threads that the callbacks come on. -/
inductive ServiceThread where
  | main
  | binder
  deriving DecidableEq

/-- The callback that has called `stop`, or has what `stop` does in its own body. -/
inductive StopCaller where
  | onStartCommand
  | onRevoke
  | onDestroy
  deriving DecidableEq

/-- The native call that a thread is in, by its number among the calls of its kind, with the
descriptor it was given; or the end of `onRevoke`, behind `stop`. -/
inductive NativeCall where
  | none
  | start (call tun : Nat)
  | stop (call : Nat) (caller : StopCaller)
  | revoked
  deriving DecidableEq

/-- The service with the saved settings, and what it shares with the event threads. The
descriptors of the tun are counted as they are established; `tuns` has the `args->tun` of
every thread. -/
structure VpnService where
  created : Bool
  vpn : Option Nat
  established : Nat
  closed : List Nat
  proxyHost : String
  proxyPort : Int
  running : Bool
  native : ServiceThread → NativeCall
  signal : Signal
  tuns : List Nat

/-- A move that an event thread makes. -/
def SignalMove.ofThread : SignalMove → Bool
  | attaches _ _ | opens _ _ | waits _ _ | handles _ | clears _ | ends _ => true
  | _ => false

/-- The callbacks, the settings that the activity saves, the answer of the system to what
a thread of the service does next in its native call, and the moves of the event threads. -/
inductive ServiceMove where
  | onCreate
  | onStartCommand (action : ServiceAction) (established : Bool)
  | onRevoke
  | onDestroy
  | saves (host : String) (port : Int)
  | native (on : ServiceThread) (answer : Bool)
  | thread (m : SignalMove)

namespace VpnService

/-- Before the service is created. -/
def init (host : String) (port : Int) (running : Bool) : VpnService where
  created := false
  vpn := none
  established := 0
  closed := []
  proxyHost := host
  proxyPort := port
  running := running
  native := fun _ => .none
  signal := .init
  tuns := []

/-- The thread goes on to a native call, or behind it. -/
def goes (S : VpnService) (on : ServiceThread) (call : NativeCall) : VpnService :=
  { S with native := Function.update S.native on call }

/-- `startNative`. Without a proxy there is no thread. -/
def startNative (S : VpnService) (tun : Nat) : VpnService :=
  if S.proxyPort ≠ 0 ∧ S.proxyHost ≠ "" then
    { S with signal := S.signal.step .startCalled }.goes .main (.start S.signal.starts.length tun)
  else S

/-- `start`. Where `establish` returns no descriptor, it throws. -/
def start (S : VpnService) (established : Bool) : VpnService :=
  match S.vpn with
  | some _ => S
  | none =>
      if established then
        { S with vpn := some S.established, established := S.established + 1 }.startNative S.established
      else S

/-- What the callbacks do behind `stop`: `onRevoke` has an assignment left, and `onDestroy` calls
`jni_done`. -/
def leaves (S : VpnService) (on : ServiceThread) : StopCaller → VpnService
  | .onStartCommand => S.goes on .none
  | .onRevoke => S.goes on .revoked
  | .onDestroy => { S with created := false }.goes on .none

/-- `stop`, and what `onDestroy` has of it: both begin with `stopNative`. -/
def stop (S : VpnService) (on : ServiceThread) (caller : StopCaller) : VpnService :=
  match S.vpn with
  | some _ => { S with signal := S.signal.step .stopCalled }.goes on (.stop S.signal.stops.length caller)
  | none => S.leaves on caller

/-- Behind `jni_stop`: the rest of `stopNative`, and `stopVPN`. Where another callback has made
`vpn` null, `close` throws, and only `onDestroy` catches it. -/
def stopped (S : VpnService) (on : ServiceThread) (caller : StopCaller) : VpnService :=
  match S.vpn with
  | some tun => { S with running := false, closed := tun :: S.closed, vpn := none }.leaves on caller
  | none =>
      let behind : StopCaller := if caller = .onDestroy then .onDestroy else .onStartCommand
      { S with running := false }.leaves on behind

/-- What a thread does next in `jni_start`, and behind it. -/
def stepStart (S : VpnService) (on : ServiceThread) (call tun : Nat) (answer : Bool) : VpnService :=
  match S.signal.starts[call]? with
  | some .testing => { S with signal := S.signal.step (.startTests call answer) }
  | some .creating =>
      { S with
        signal := S.signal.step (.startCreates call answer)
        tuns := if answer then S.tuns ++ [tun] else S.tuns }
  | _ => { S with running := true }.goes on .none

/-- What it does next in `jni_stop`, and behind it. -/
def stepStop (S : VpnService) (on : ServiceThread) (call : Nat) (caller : StopCaller) (answer : Bool) :
    VpnService :=
  match S.signal.stops[call]? with
  | some (.testing _) => { S with signal := S.signal.step (.stopTests call answer) }
  | some (.writing _) => { S with signal := S.signal.step (.stopWrites call answer) }
  | some (.joining _) => { S with signal := S.signal.step (.stopJoins call answer) }
  | _ => S.stopped on caller

/-- What a thread of the service does next in its native call. -/
def stepNative (S : VpnService) (on : ServiceThread) (answer : Bool) : VpnService :=
  match S.native on with
  | .none => S
  | .start call tun => S.stepStart on call tun answer
  | .stop call caller => S.stepStop on call caller answer
  | .revoked => { S with vpn := none }.goes on .none

/-- The thread is there for a callback of the service. -/
def Idle (S : VpnService) (on : ServiceThread) : Prop := S.created = true ∧ S.native on = .none

instance (S : VpnService) (on : ServiceThread) : Decidable (S.Idle on) := inferInstanceAs (Decidable (_ ∧ _))

/-- One move; a callback waits for its thread. `onCreate` calls `jni_init`, which opens a new
pipe. -/
def step (S : VpnService) : ServiceMove → VpnService
  | .onCreate =>
      if S.created then S else { S with created := true, signal := { S.signal with pipe := [] } }
  | .onStartCommand action established =>
      if S.Idle .main then
        match action with
        | .start => S.start established
        | .stop => S.stop .main .onStartCommand
        | .other => S
      else S
  | .onRevoke => if S.Idle .binder then S.stop .binder .onRevoke else S
  | .onDestroy => if S.Idle .main then S.stop .main .onDestroy else S
  | .saves host port =>
      if S.native .main = .none then { S with proxyHost := host, proxyPort := port } else S
  | .native on answer => S.stepNative on answer
  | .thread m => if m.ofThread then { S with signal := S.signal.step m } else S

end VpnService

end Tun2Http
