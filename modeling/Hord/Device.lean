import Hord.Wire

/- The connection as the stream layer uses it (`hord-core/src/lib.rs`): one queue
   pair with its posted work requests, one completion queue for both directions,
   the connection manager's event queue. `Connection` holds what the NIC holds
   between two calls; the calls here are those of `Connection` in hord-core, each
   of which may be refused by the device.

   Correspondence (Rust ↔ Lean):
     `post_recv` / `post_send` / `post_write_gather` ↔ `postRecv` / `postSend` /
                                                        `postWriteGather`
     `poll`                                           ↔ `poll`
     `check_disconnect`                               ↔ `checkDisconnect`
     `register_buffer`                                ↔ `registerBuffer`
     `disconnect` / `shutdown` / `with_qp`            ↔ `disconnect` / `shutdown` / `withQp`

   `faults` is the oracle for refusals: each device call consumes one entry and
   fails when it is `true` (an exhausted list never fails), so quantifying over it
   covers every way the calls can succeed or fail. Work requests the NIC has not
   yet carried out are in `out`; those carried out but not yet completed are in
   `await`; both are in posting order. -/
namespace Hord

/-- How a call ends other than by returning: an `io::Error`, or a panic. -/
inductive Fail where
  | io (e : IoError)
  | panic (msg : String)
  deriving DecidableEq, Repr

/-- `io::Error::other`, the kind every device error is given (`to_io`). -/
def Fail.other (msg : String) : Fail := .io ⟨.other, msg⟩

inductive Opcode where
  | send
  | rdmaWrite
  | recv
  | recvRdmaWithImm
  | other (raw : Nat)
  deriving DecidableEq, Repr

/-- A single work completion drained from the CQ. -/
structure Completion where
  wrId : Nat
  byteLen : Nat
  opcode : Opcode
  status : Nat
  immData : Nat
  deriving DecidableEq, Repr

def Completion.isSuccess (wc : Completion) : Bool := wc.status == 0

/-- The memory regions a work request can name by its `lkey`. -/
inductive Mr where
  | recv
  | splitRecv
  | send
  | handshake
  deriving DecidableEq, Repr

/-- A posted receive: `length` bytes at `off` of region `mr`. -/
structure RecvWr where
  wrId : Nat
  mr : Mr
  off : Nat
  length : Nat
  deriving DecidableEq, Repr

/-- One local scatter/gather entry of a one-sided write. -/
structure Sge where
  addr : Nat
  length : Nat
  lkey : Nat
  deriving DecidableEq, Repr

/-- A posted send-queue work request: a two-sided send out of one of the
    stream's own regions, or a one-sided write of a gather list. -/
inductive SendWr where
  | send (wrId : Nat) (mr : Mr) (off length : Nat)
  | write (wrId : Nat) (sges : List Sge) (remoteAddr rkey : Nat) (imm : Option Nat)
  deriving DecidableEq, Repr

def SendWr.wrId : SendWr → Nat
  | .send w _ _ _ => w
  | .write w _ _ _ _ => w

/-- The opcode a successful completion of the request carries. -/
def SendWr.opcode : SendWr → Opcode
  | .send .. => .send
  | .write .. => .rdmaWrite

/-- Connection-manager events, as far as `check_disconnect` tells them apart. -/
inductive CmEvent where
  | disconnected
  | deviceRemoval
  | connectError
  | other
  deriving DecidableEq, Repr

def CmEvent.gone : CmEvent → Bool
  | .disconnected => true
  | .deviceRemoval => true
  | .connectError => true
  | .other => false

structure Connection where
  qp : Bool
  disconnected : Bool
  maxSendSge : Nat
  rq : List RecvWr
  out : List SendWr
  await : List SendWr
  cq : List Completion
  cmq : List CmEvent
  faults : List Bool
  deriving DecidableEq, Repr

/-- A freshly established connection. -/
def Connection.new (maxSendSge : Nat) : Connection where
  qp := true
  disconnected := false
  maxSendSge := maxSendSge
  rq := []
  out := []
  await := []
  cq := []
  cmq := []
  faults := []

/-- `MAX_WRITE_SGE`: the most gather entries one write request carries. -/
def maxWriteSge : Nat := 16

/-- No 64-bit platform maps more than `2 ^ 56` bytes of user memory, so a longer
    buffer cannot be allocated (Rust's own bound is `isize::MAX`). -/
def allocMax : Nat := 2 ^ 56

/-- A queue pair is created with a 32-bit send-queue depth. -/
def sqLimit : Nat := 2 ^ 32 - 1

/-- Send-queue requests not yet reaped; their ids lie above every receive slot. -/
def Connection.sqUsed (c : Connection) : Nat :=
  c.out.length + c.await.length + c.cq.countP fun wc => decide (2 ^ 60 ≤ wc.wrId)

abbrev DevM := EStateM Fail Connection

namespace Connection

/-- Every device call first consumes one entry of the fault oracle. -/
def deviceCall : DevM Unit := fun c =>
  match c.faults with
  | [] => .ok () c
  | f :: fs =>
    if f then .error (.other "device call failed") { c with faults := fs }
    else .ok () { c with faults := fs }

/-- Run `f` with the live QP, or error if the connection has been shut down. -/
def withQp {α : Type} (f : DevM α) : DevM α := fun c =>
  if c.qp then f c else .error (.other "connection has been shut down") c

def postRecv (wr : RecvWr) : DevM Unit :=
  withQp (do deviceCall; modify fun c => { c with rq := c.rq ++ [wr] })

/-- The device refuses a request beyond the depth of the send queue. -/
def postSend (wr : SendWr) : DevM Unit :=
  withQp (do
    deviceCall
    let c ← get
    if c.sqUsed < sqLimit then set { c with out := c.out ++ [wr] }
    else throw (.other "send queue full"))

/-- A one-sided gather write. The two `assert!`s bound the gather list and
    reject a write of nothing that carries no immediate. -/
def postWriteGather (wrId : Nat) (sges : List Sge) (remoteAddr rkey : Nat) (imm : Option Nat) :
    DevM Unit :=
  if sges.length > maxWriteSge then
    throw (.panic s!"post_write_gather: sg_list len {sges.length} exceeds MAX_WRITE_SGE {maxWriteSge}")
  else if sges.isEmpty && imm.isNone then
    throw (.panic "post_write_gather: a 0-SGE write requires an immediate (imm-only signal)")
  else postSend (.write wrId sges remoteAddr rkey imm)

/-- Poll once for a completion; `none` means the CQ was empty. -/
def poll : DevM (Option Completion) := do
  deviceCall
  let c ← get
  match c.cq with
  | [] => return none
  | wc :: rest =>
    set { c with cq := rest }
    return some wc

/-- Non-blocking check for a peer-initiated teardown: reads one CM event. -/
def checkDisconnect : DevM Bool := do
  deviceCall
  let c ← get
  match c.cmq with
  | [] => return false
  | e :: rest =>
    set { c with cmq := rest }
    return e.gone

/-- Allocate and register `len` zeroed bytes. -/
def registerBuffer (len : Nat) : DevM Bytes :=
  if len > allocMax then throw (.panic "memory allocation failed")
  else do
    deviceCall
    return List.replicate len 0

/-- `rdma_disconnect`, at most once. -/
def disconnect : DevM Unit := modify fun c => { c with disconnected := true }

/-- Disconnect and destroy the QP; idempotent. -/
def shutdown : DevM Unit := do
  disconnect
  modify fun c => { c with qp := false }

end Connection

end Hord
