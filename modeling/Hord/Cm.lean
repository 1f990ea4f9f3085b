import Mathlib.Logic.Function.Basic
import Hord.Lib.Typestate
import Hord.Lib.Wp
import Hord.Config

/- Connection management (`hord-core/src/lib.rs`): the listener and the connections on their
   way from a connect request to the last drop, as the calls they make of librdmacm and of
   the verbs, each of which the device may refuse. What is dropped on the way out of a scope
   is written where the scope ends, with the calls of its destructors in their order.

   Correspondence (Rust ↔ Lean):
     `SharedPd::for_context` / `single_pd`        ↔ `forContext` / `singlePd`
     `Listener::bind_inner`, `register_external`  ↔ `bindInner`, `registerExternal`
     `Listener::process_event`, `try_accept`      ↔ `processEvent`, `tryAccept`
     `Endpoint::build`, `Connection::new`         ↔ `Endpoint.build`, `Connection.new`
     `Connection::connect`, `connect_finish`      ↔ `connect`, `Connection.connectFinish`
     `accept_establish_begin`, `accept_finish`    ↔ the functions of `Connection` of the same name
     `poll_established`, `check_disconnect`       ↔ the same
     `do_disconnect`, `shutdown`, `Drop`          ↔ `Connection.doDisconnect`, `shutdown`, `drop`
     `wait_event`, `try_wait_event`               ↔ `waitEvent`, `tryWaitEvent`
     `Event::ack`, and an `Event` dropped         ↔ `ack`, `World.acked`
     `Identifier`, dropped                        ↔ `World.dropId`
   A `World` keeps every call made, on which object and with what answer. `faults` answers
   them as it does for `Hord.Connection`. The destructors of an event, a PD, an identifier
   and an event channel make a call whose answer nobody looks at (`World.made`); those of a
   QP, a CQ and a completion channel assert that their call succeeded (`World.freed`), and a
   run ends where one panics. The blocking `accept` is the loop of `try_accept` on a channel
   that waits where this one is empty. -/
namespace Hord
namespace Cm

open Prog Typestate

inductive QpState where
  | reset
  | init
  | readyToReceive
  | readyToSend
  deriving DecidableEq, Repr

inductive EventType where
  | addressResolved
  | addressError
  | routeResolved
  | routeError
  | connectRequest
  | connectResponse
  | connectError
  | unreachable
  | rejected
  | established
  | disconnected
  | deviceRemoval
  | multicastJoin
  | multicastError
  | addressChange
  | timewaitExit
  deriving DecidableEq, Repr

/-- The `Debug` text of an event type. -/
def EventType.text : EventType → String
  | .addressResolved => "AddressResolved"
  | .addressError => "AddressError"
  | .routeResolved => "RouteResolved"
  | .routeError => "RouteError"
  | .connectRequest => "ConnectRequest"
  | .connectResponse => "ConnectResponse"
  | .connectError => "ConnectError"
  | .unreachable => "Unreachable"
  | .rejected => "Rejected"
  | .established => "Established"
  | .disconnected => "Disconnected"
  | .deviceRemoval => "DeviceRemoval"
  | .multicastJoin => "MulticastJoin"
  | .multicastError => "MulticastError"
  | .addressChange => "AddressChange"
  | .timewaitExit => "TimewaitExit"

/-- An event on a channel. A connect request comes with a new identifier, bound to the device
    `context`, if to any. -/
structure Event where
  eventType : EventType
  cmId : Nat
  context : Option Nat
  status : Int
  deriving DecidableEq, Repr

/-- What calls are made on: the listener, an identifier with the endpoint built for it, or a
    device with the protection domain that connections on it share. -/
inductive Obj where
  | listener
  | id (n : Nat)
  | context (n : Nat)
  deriving DecidableEq, Repr

/-- `takeRequest` is the `getEvent` that takes a connect request off the listener's channel,
    and `noEvent` one that takes nothing, because the channel is empty or cannot be read.
    `dropEvent` acknowledges an event that is dropped. -/
inductive Call where
  | takeRequest
  | getEvent (t : EventType)
  | noEvent
  | ackEvent
  | dropEvent
  | createChannel
  | setNonblocking
  | createId
  | bindAddr
  | listen
  | resolveAddr
  | resolveRoute
  | migrate
  | allocPd
  | regMr
  | createCompChannel
  | setCompNonblocking
  | createCq (cqe : Nat)
  | queryDevice
  | createQp (sendWr recvWr sendSge : Nat)
  | getQpAttr (s : QpState)
  | modifyQp (s : QpState)
  | post
  | connect
  | accept
  | establish
  | reject
  | disconnect
  | destroyQp
  | destroyCq
  | destroyCompChannel
  | deallocPd
  | destroyId
  | destroyChannel
  deriving DecidableEq, Repr

/-- The errors of this layer; `to_io` gives a device error the kind `other`. -/
inductive Error where
  | io (e : IoError)
  | deviceRemoved
  | connectionSetupFailed (cause : String)
  deriving DecidableEq, Repr

def Error.other (msg : String) : Error := .io ⟨.other, msg⟩

def invalidIp (ip : String) : Error := .io ⟨.invalidInput, "invalid ip address: " ++ ip⟩

/-- What is printed for an error. -/
def Error.text : Error → String
  | .io e => e.msg
  | .deviceRemoved => "RDMA device removed while listening for connections"
  | .connectionSetupFailed cause => "incoming connection setup failed (peer rejected): " ++ cause

/-- The calls made so far with their answers, the events waiting on each channel, the
    identifiers whose events go to a channel of their own, the registry of `SharedPd`, and
    the `max_sge` of each device. -/
structure World where
  faults : List Bool
  log : List (Obj × Call × Bool)
  channel : Obj → List Event
  own : Nat → Bool
  pds : List (Nat × Nat)
  nextPd : Nat
  maxSge : Nat → Nat

abbrev CmM := EStateM Error World

/-- What `x` ends in. -/
def exec {α : Type} (x : CmM α) (w : World) : Except Error α × World :=
  match x w with
  | .ok a v => (.ok a, v)
  | .error e v => (.error e, v)

namespace World

def blank (faults : List Bool) (maxSge : Nat → Nat) : World where
  faults := faults
  log := []
  channel := fun _ => []
  own := fun _ => false
  pds := []
  nextPd := 0
  maxSge := maxSge

/-- Whether the device refuses the next call. -/
def refuses (w : World) : Bool := w.faults.headD false

/-- A call is made, and answered. -/
def made (o : Obj) (c : Call) (w : World) : World :=
  { w with faults := w.faults.tail, log := w.log ++ [(o, c, !w.refuses)] }

/-- The call of a destructor that asserts its success. -/
def freed (o : Obj) (c : Call) (w : World) : World := { w with log := w.log ++ [(o, c, true)] }

/-- An event is acknowledged. If that fails it is dropped unacknowledged, and dropping it
    acknowledges it again, whatever comes of that. -/
def acked (o : Obj) (w : World) : World :=
  if w.refuses then (w.made o .ackEvent).made o .dropEvent else w.made o .ackEvent

/-- The last handle of an identifier goes, and with it the channel only it holds. -/
def dropId (k : Nat) (w : World) : World :=
  let w := w.made (.id k) .destroyId
  if w.own k then { w.made (.id k) .destroyChannel with own := Function.update w.own k false } else w

/-- Events reach a channel. -/
def arrive (o : Obj) (es : List Event) (w : World) : World :=
  { w with channel := Function.update w.channel o (w.channel o ++ es) }

end World

def call (o : Obj) (c : Call) : CmM Unit := fun w =>
  if w.refuses then .error (.other "device call failed") (w.made o c) else .ok () (w.made o c)

def ack (o : Obj) : CmM Unit := fun w =>
  if w.refuses then .error (.other "device call failed") (w.acked o) else .ok () (w.acked o)

/-- How taking an event off channel `o` is logged: a connect request with the identifier it
    comes with. -/
def Event.taken (o : Obj) (e : Event) : Obj × Call :=
  match o, e.eventType with
  | .listener, .connectRequest => (.id e.cmId, .takeRequest)
  | o, t => (o, .getEvent t)

/-- Take the next event off a non-blocking channel. -/
def getCmEvent (o : Obj) : CmM (Option Event) := fun w =>
  if w.refuses then .error (.other "device call failed") (w.made o .noEvent)
  else
    match w.channel o with
    | [] => .ok none (w.made o .noEvent)
    | e :: es =>
      .ok (some e) { w with faults := w.faults.tail
                            channel := Function.update w.channel o es
                            log := w.log ++ [((e.taken o).1, (e.taken o).2, true)] }

/-! Protection domains. -/

def allocPd (o : Obj) : CmM Nat := do
  call o .allocPd
  let w ← get
  set { w with nextPd := w.nextPd + 1 }
  return w.nextPd

/-- The one PD of a device, allocated when it is first asked for. -/
def forContext (ctx : Nat) : CmM Nat := do
  let w ← get
  match w.pds.lookup ctx with
  | some pd => return pd
  | none =>
    let pd ← allocPd (.context ctx)
    modify fun w => { w with pds := w.pds ++ [(ctx, pd)] }
    return pd

/-- The registry's PD, and the device it is on. -/
def singlePd : CmM (Nat × Nat) := do
  let w ← get
  match w.pds with
  | [x] => return x
  | [] =>
    throw (.other "listener shared PD has no resolved RDMA device; bind to a concrete RDMA address or accept a connection first")
  | _ => throw (.other "listener shared PD spans multiple devices; register against a specific device")

/-- Register caller-owned memory with the listener; returns the PD the region is on. -/
def registerExternal (shared : Bool) : CmM Nat := do
  if !shared then throw (.other "listener was not bound with a shared PD")
  let x ← singlePd
  call (.context x.1) .regMr
  return x.2

/-! Endpoints and connections. -/

/-- The verbs resources of one connection, as far as they differ between connections. -/
structure Endpoint where
  context : Nat
  pd : Nat
  ownPd : Bool
  maxSendSge : Nat
  deriving DecidableEq, Repr

/-- A handle of the PD goes; the registry keeps its own. -/
def dropPd (k : Nat) (ownPd : Bool) (w : World) : World :=
  if ownPd then w.made (.id k) .deallocPd else w

/-- The PD a connection is built on. -/
def choosePd (k ctx : Nat) (shared : Bool) : CmM Nat :=
  if shared then forContext ctx else allocPd (.id k)

/-- PD, completion channel, CQ and QP on the device of the identifier. The sizes are cast to
    32 bits. -/
def Endpoint.build (k : Nat) (context : Option Nat) (sendWr recvWr : Nat) (shared : Bool) :
    CmM Endpoint := do
  match context with
  | none => throw (.other "cm id is not bound to a device yet")
  | some ctx =>
    let pd ← choosePd k ctx shared
    orDrop (do
      call (.id k) .createCompChannel
      orDrop (do
        call (.id k) .setCompNonblocking
        call (.id k) (.createCq ((sendWr + recvWr + 16) % 2 ^ 32))
        orDrop (do
          call (.id k) .queryDevice
          let w ← get
          let maxSendSge := min (max (w.maxSge ctx) 1) maxWriteSge
          call (.id k) (.createQp (sendWr % 2 ^ 32) (recvWr % 2 ^ 32) maxSendSge)
          return ⟨ctx, pd, !shared, maxSendSge⟩) (World.freed (.id k) .destroyCq))
        (World.freed (.id k) .destroyCompChannel))
      (dropPd k !shared)

inductive Role where
  | server
  | client
  deriving DecidableEq, Repr

structure Connection where
  id : Nat
  role : Role
  ep : Endpoint
  qp : Bool
  disconnected : Bool
  deriving DecidableEq, Repr

namespace Connection

def new (k : Nat) (ep : Endpoint) (role : Role) : Connection where
  id := k
  role := role
  ep := ep
  qp := true
  disconnected := false

/-- Error if the connection has been shut down. -/
def withQp (c : Connection) (x : CmM Unit) : CmM Unit :=
  if c.qp then x else throw (.other "connection has been shut down")

/-- Drive the QP towards a state, with the attributes the CM computes. -/
def modifyQp (c : Connection) (s : QpState) : CmM Unit := do
  call (.id c.id) (.getQpAttr s)
  c.withQp (call (.id c.id) (.modifyQp s))

/-- A work request on either queue. -/
def post (c : Connection) : CmM Unit := c.withQp (call (.id c.id) .post)

/-- `rdma_disconnect`, at most once, its result unseen. -/
def doDisconnect (c : Connection) (w : World) : Connection × World :=
  if c.disconnected then (c, w) else ({ c with disconnected := true }, w.made (.id c.id) .disconnect)

/-- Disconnect and destroy the QP; idempotent. -/
def shutdown (c : Connection) (w : World) : Connection × World :=
  let r := c.doDisconnect w
  if r.1.qp then ({ r.1 with qp := false }, r.2.freed (.id c.id) .destroyQp) else r

/-- The connection goes, but for its identifier: `shutdown`, then the fields in their order. -/
def dropEndpoint (c : Connection) (w : World) : World :=
  dropPd c.id c.ep.ownPd
    (((c.shutdown w).2.freed (.id c.id) .destroyCq).freed (.id c.id) .destroyCompChannel)

/-- The last handle of a connection goes. -/
def drop (c : Connection) (w : World) : World := (c.dropEndpoint w).dropId c.id

end Connection

/-! The listener. -/

/-- Bind and listen; `context` is the device the address resolves to, if it does. -/
def bindInner (ip : String) (parses : Bool) (context : Option Nat) (shared : Bool) : CmM Unit := do
  if !parses then throw (invalidIp ip)
  call .listener .createChannel
  orDrop (do
    call .listener .createId
    orDrop (do
      call .listener .bindAddr
      match shared, context with
      | true, some ctx =>
        let _ ← forContext ctx
        pure ()
      | _, _ => pure ()
      call .listener .listen) (World.made .listener .destroyId))
    (World.made .listener .destroyChannel)

/-- The identifier's events go to a channel of its own from here on. -/
def migrate (k : Nat) : CmM Unit := do
  call (.id k) .migrate
  modify fun w => { w with own := Function.update w.own k true }

/-- This connection's setup: a channel of its own, the migration, the endpoint, the step to
    INIT. -/
def setup (shared : Bool) (sendWr recvWr : Nat) (e : Event) : CmM Connection := do
  call (.id e.cmId) .createChannel
  orDrop (migrate e.cmId) (World.made (.id e.cmId) .destroyChannel)
  let ep ← Endpoint.build e.cmId e.context sendWr recvWr shared
  let conn := Connection.new e.cmId ep .server
  orDrop (conn.modifyQp .init) conn.dropEndpoint
  return conn

/-- The setup, and where it fails the peer is rejected and the error tagged. -/
def setupOrReject (shared : Bool) (sendWr recvWr : Nat) (e : Event) : CmM Connection := fun w =>
  match setup shared sendWr recvWr e w with
  | .ok conn v => .ok conn v
  | .error err v =>
    .error (.connectionSetupFailed err.text) ((v.made (.id e.cmId) .reject).dropId e.cmId)

/-- Handle one event of the listener's channel. -/
def processEvent (shared : Bool) (sendWr recvWr : Nat) (e : Event) : CmM (Option Connection) :=
  match e.eventType with
  | .connectRequest => do
    orDrop (ack (.id e.cmId)) (World.dropId e.cmId)
    some <$> setupOrReject shared sendWr recvWr e
  | .deviceRemoval => do
    modify (World.acked .listener)
    throw .deviceRemoved
  | _ => do
    modify (World.acked .listener)
    return none

/-- The loop of `try_accept`; every turn but the last takes one event. -/
def tryAcceptLoop (shared : Bool) (sendWr recvWr : Nat) : Nat → CmM (Option Connection)
  | 0 => return none
  | fuel + 1 => do
    match ← getCmEvent .listener with
    | none => return none
    | some e =>
      match ← processEvent shared sendWr recvWr e with
      | some conn => return some conn
      | none => tryAcceptLoop shared sendWr recvWr fuel

def tryAccept (shared : Bool) (sendWr recvWr : Nat) : CmM (Option Connection) := do
  let w ← get
  tryAcceptLoop shared sendWr recvWr ((w.channel .listener).length + 1)

/-! Waiting for an event. -/

/-- One step towards the event `want`: whether it has arrived. Another event is an error. -/
def tryWaitEvent (o : Obj) (want : EventType) : CmM Bool := do
  match ← getCmEvent o with
  | none => return false
  | some e =>
    ack o
    if e.eventType = want then return true
    else
      throw (.other ("expected CM event " ++ want.text ++ ", got " ++ e.eventType.text ++ " (status " ++
        toString e.status ++ ")"))

/-- One turn of `wait_event`: what reaches the channel before it looks, the clock as it is
    read when nothing has, and whether the `poll` it then parks in fails. -/
structure Tick where
  arrivals : List Event
  now : Nat
  pollFails : Bool

/-- What a wait sees: the clock when it starts, turns, and what has reached the channel at the
    turn after them, in which the clock has passed any deadline. -/
structure Wait where
  start : Nat
  ticks : List Tick
  last : List Event

def timedOut (want : EventType) : Error := .io ⟨.timedOut, "timed out waiting for CM event " ++ want.text⟩

def waitLoop (o : Obj) (want : EventType) (deadline : Nat) (last : List Event) : List Tick → CmM Unit
  | [] => do
    modify (World.arrive o last)
    if ← tryWaitEvent o want then return ()
    else throw (timedOut want)
  | t :: ts => do
    modify (World.arrive o t.arrivals)
    if ← tryWaitEvent o want then return ()
    else if deadline ≤ t.now then throw (timedOut want)
    else if t.pollFails then throw (.other "poll failed")
    else waitLoop o want deadline last ts

/-- Wait for the next event and require it to be `want`, for `timeout` milliseconds. -/
def waitEvent (o : Obj) (want : EventType) (timeout : Nat) (t : Wait) : CmM Unit := do
  call o .setNonblocking
  waitLoop o want (t.start + timeout) t.last t.ticks

/-- `ESTABLISH_TIMEOUT`, in milliseconds. -/
def establishTimeout : Nat := 10000

/-- The backstop of the client's two resolve steps: at least twice the resolve timeout. -/
def resolveWait (resolveTimeoutMs : Int) : Nat := max (resolveTimeoutMs.toNat * 2) establishTimeout

/-- The client's side up to INIT, on a new identifier. -/
def connect (k : Nat) (ip : String) (parses : Bool) (context : Option Nat) (sendWr recvWr : Nat)
    (resolveTimeoutMs : Int) (addr route : Wait) : CmM Connection := do
  if !parses then throw (invalidIp ip)
  call (.id k) .createChannel
  orDrop (do
    call (.id k) .createId
    modify fun w => { w with own := Function.update w.own k true })
    (World.made (.id k) .destroyChannel)
  orDrop (do
    call (.id k) .resolveAddr
    waitEvent (.id k) .addressResolved (resolveWait resolveTimeoutMs) addr
    call (.id k) .resolveRoute
    waitEvent (.id k) .routeResolved (resolveWait resolveTimeoutMs) route
    let ep ← Endpoint.build k context sendWr recvWr false
    let conn := Connection.new k ep .client
    orDrop (conn.modifyQp .init) conn.dropEndpoint
    return conn) (World.dropId k)

namespace Connection

def connectFinish (c : Connection) (t : Wait) : CmM Unit := do
  c.withQp (pure ())
  call (.id c.id) .connect
  waitEvent (.id c.id) .connectResponse establishTimeout t
  c.modifyQp .readyToReceive
  c.modifyQp .readyToSend
  call (.id c.id) .establish

def acceptEstablishBegin (c : Connection) : CmM Unit := do
  c.withQp (pure ())
  c.modifyQp .readyToReceive
  c.modifyQp .readyToSend
  call (.id c.id) .accept
  call (.id c.id) .setNonblocking

def acceptFinish (c : Connection) (t : Wait) : CmM Unit := do
  c.acceptEstablishBegin
  waitEvent (.id c.id) .established establishTimeout t

def pollEstablished (c : Connection) : CmM Bool := tryWaitEvent (.id c.id) .established

/-- Whether the next event says that the peer is gone. -/
def checkDisconnect (c : Connection) : CmM Bool := do
  match ← getCmEvent (.id c.id) with
  | none => return false
  | some e =>
    modify (World.acked (.id c.id))
    return decide (e.eventType = .disconnected ∨ e.eventType = .deviceRemoval ∨ e.eventType = .connectError)

end Connection

end Cm

end Hord
