import Hord.Config

/- The stream state machine (`hord-stream/src/stream.rs`): `HordStream`, its
   completion handling, credit accounting, the receive and send pools and the
   non-blocking byte-stream calls. A call is an `EStateM` action: what it changed
   before failing stays changed, as in the source.

   Correspondence (Rust ↔ Lean):
     `handle_completion` / `pump(false)`          ↔ `handleCompletion` / `pumpOnce`
     `drain_completions`                          ↔ `drainCompletions`
     `recv_slot` / `post_recv_slot`               ↔ `recvSlot` / `postRecvSlot`
     `post_data_message` / `post_into`            ↔ `postDataMessage` / `postInto`
     `send_credit_return` / `maybe_return_credits` ↔ `sendCreditReturn` /
                                                     `maybeReturnCredits`
     `try_write` / `try_flush_stage` / `try_read` ↔ `tryWrite` / `tryFlushStage` / `tryRead`
     `poll_cm_disconnect`                         ↔ `pollCmDisconnect`
   `Vec` used as a stack (`send_free`) is a list whose head is the top; `u32`
   counters are `Nat`s whose additions are reduced modulo `2 ^ 32`. -/
namespace Hord

open Region

/-- The sizes a stream is built with; they never change afterwards. A value
    exists only if the message size holds an envelope and the two eager regions
    can be allocated. -/
structure Geometry where
  msgSize : Nat
  recvPool : Nat
  splitBase : Nat
  splitHeadroom : Nat
  sendPool : Nat
  ctrlSlot : Nat
  envelope_lt : envelopeLen < msgSize
  splitBase_eq : splitBase = recvPool + ctrlRecvSlack
  ctrlSlot_eq : ctrlSlot = sendPool
  recv_fits : splitBase * msgSize ≤ allocMax
  send_fits : (sendPool + ctrlSendSlots) * msgSize ≤ allocMax
  deriving DecidableEq

/-- A received message still in its receive buffer; `start` and `stop` are
    offsets in the region `slot` lives in. -/
structure ReadyMsg where
  slot : Nat
  start : Nat
  stop : Nat
  deriving DecidableEq, Repr

/-- One span of a scatter-gather write source. -/
structure WriteSegment where
  localAddr : Nat
  lkey : Nat
  len : Nat
  deriving DecidableEq, Repr

structure HordStream where
  conn : Connection
  geo : Geometry
  recv : Bytes
  splitRecv : Option Bytes
  send : Bytes
  handshake : Bytes
  payloadCap : Nat
  sendFree : List Nat
  sendCredits : Nat
  grantPending : Nat
  ctrlSendBusy : Bool
  txStage : Bytes
  rxReady : List ReadyMsg
  peerClosed : Bool
  cmWatch : Bool
  zeroCopy : Bool
  writesOutstanding : Nat
  splitMode : Bool
  completedTransfers : List Nat
  peerSplitCredits : Nat
  immOutstanding : Nat
  hsGotSend : Bool
  hsGotRecv : Bool
  hsRecvLen : Nat
  deriving DecidableEq

abbrev M := EStateM Fail HordStream

/-- A `u32` addition. -/
def u32Add (a b : Nat) : Nat := (a + b) % 2 ^ 32

def u32Max : Nat := 2 ^ 32 - 1
def u16Max : Nat := 2 ^ 16 - 1

/-- A call on the connection the stream owns. -/
def dev {α : Type} (x : DevM α) : M α := fun s =>
  match x s.conn with
  | .ok a c => .ok a { s with conn := c }
  | .error e c => .error e { s with conn := c }

/-- `if let Err(e) = x`: an error becomes a value, a panic still unwinds. -/
def attempt {α : Type} (x : M α) : M (Except IoError α) := fun s =>
  match x s with
  | .ok a t => .ok (.ok a) t
  | .error (.io e) t => .ok (.error e) t
  | .error (.panic m) t => .error (.panic m) t

def ioErr {α : Type} (kind : ErrorKind) (msg : String) : M α := throw (.io ⟨kind, msg⟩)

/-- `RegisteredBuffer::copy_out`, with its bound assertion. -/
def copyOut (buf : Bytes) (off n : Nat) : M Bytes :=
  if n ≤ buf.length ∧ off ≤ buf.length - n then return readAt buf off n
  else throw (.panic "copy_out out of bounds")

/-- `RegisteredBuffer::copy_in`, with its bound assertion. -/
def copyIn (buf : Bytes) (off : Nat) (src : Bytes) : M Bytes :=
  if src.length ≤ buf.length ∧ off ≤ buf.length - src.length then return writeAt buf off src
  else throw (.panic "copy_in out of bounds")

def markClosed : M Unit := modify fun s => { s with peerClosed := true }

/-- The bytes of the region a slot lives in. -/
def HordStream.region (s : HordStream) : Mr → Bytes
  | .recv => s.recv
  | .splitRecv => s.splitRecv.getD []
  | .send => s.send
  | .handshake => s.handshake

def HordStream.setRegion (s : HordStream) (mr : Mr) (b : Bytes) : HordStream :=
  match mr with
  | .recv => { s with recv := b }
  | .splitRecv => { s with splitRecv := s.splitRecv.map fun _ => b }
  | .send => { s with send := b }
  | .handshake => { s with handshake := b }

/-- Where slot `slot` lives: its region and its offset there. -/
def Geometry.place (g : Geometry) (slot : Nat) : Mr × Nat :=
  if slot < g.splitBase then (.recv, slot * g.msgSize)
  else (.splitRecv, (slot - g.splitBase) * g.msgSize)

/-- Resolve a receive slot; a split slot needs the split region. -/
def recvSlot (slot : Nat) : M (Mr × Nat) := do
  let s ← get
  if slot < s.geo.splitBase ∨ s.splitRecv.isSome then return s.geo.place slot
  else throw (.panic "recv on a split slot with no split MR registered")

/-- Post (or re-post) the receive request of `slot`. -/
def postRecvSlot (slot : Nat) : M Unit := do
  let (mr, off) ← recvSlot slot
  let s ← get
  match ← attempt (dev (Connection.postRecv ⟨recvWrId slot, mr, off, s.geo.msgSize % 2 ^ 32⟩)) with
  | .ok () => return ()
  | .error e =>
    markClosed
    throw (.io e)

def reclaimSend (wrId : Nat) : M Unit :=
  if isCtrlSend wrId then modify fun s => { s with ctrlSendBusy := false }
  else modify fun s => { s with sendFree := slotOf wrId :: s.sendFree }

/-- The receive branch of `handle_completion`. -/
def handleRecv (wc : Completion) : M Unit := do
  let slot := slotOf wc.wrId
  let (mr, off) ← recvSlot slot
  let s ← get
  let n := min wc.byteLen s.geo.msgSize
  if n < envelopeLen then
    ioErr .invalidData s!"runt message: {n} bytes < envelope header"
  else
    let hdr ← copyOut (s.region mr) off envelopeLen
    let env := Envelope.decode hdr
    modify fun s => { s with sendCredits := min (s.sendCredits + env.credits.toNat) u32Max }
    let avail := n - envelopeLen
    let plen := if env.isCreditOnly then 0 else min env.length.toNat avail
    if 0 < plen then
      let start := off + envelopeLen
      modify fun s => { s with rxReady := s.rxReady ++ [⟨slot, start, start + plen⟩] }
    else if env.isCreditOnly then
      postRecvSlot slot
    else
      postRecvSlot slot
      modify fun s => { s with grantPending := u32Add s.grantPending 1 }

def handleCompletion (wc : Completion) : M Unit :=
  if wc.opcode = .recvRdmaWithImm then
    if !wc.isSuccess then markClosed
    else do
      modify fun s => { s with completedTransfers := s.completedTransfers ++ [wc.immData] }
      postRecvSlot (slotOf wc.wrId)
  else if isWrite wc.wrId then do
    modify fun s => { s with writesOutstanding := s.writesOutstanding - 1 }
    if isImmWrite wc.wrId then
      modify fun s => { s with immOutstanding := s.immOutstanding - 1 }
    if !wc.isSuccess then markClosed
  else if !wc.isSuccess then do
    markClosed
    if isSend wc.wrId then reclaimSend wc.wrId
  else if isSend wc.wrId then reclaimSend wc.wrId
  else handleRecv wc

/-- `pump(false)`: process one completion if there is one. -/
def pumpOnce : M Bool := do
  match ← dev Connection.poll with
  | some wc =>
    handleCompletion wc
    return true
  | none => return false

/-- `drain_completions`, counting from `n`. Every round but the last takes one
    completion off the queue, so its length bounds the rounds. -/
def drainLoop : Nat → Nat → M Nat
  | 0, n => return n
  | fuel + 1, n => do
    if ← pumpOnce then drainLoop fuel (n + 1) else return n

def drainCompletions : M Nat := do
  let s ← get
  drainLoop (s.conn.cq.length + 1) 0

/-- Peer half-close check of the blocking loop: a no-op unless the CM channel is
    being watched. -/
def pollCmDisconnect : M Bool := do
  let s ← get
  if !s.cmWatch then return false
  else if ← dev Connection.checkDisconnect then
    markClosed
    return true
  else return false

/-! Sending. -/

def HordStream.canSendData (s : HordStream) : Bool :=
  !s.peerClosed && !s.sendFree.isEmpty && decide (0 < s.sendCredits)

/-- Stamp `env` and `payload` into send slot `slot` and post it. -/
def postInto (slot wrId : Nat) (env : Envelope) (payload : Bytes) : M Unit := do
  let s ← get
  let off := slot * s.geo.msgSize
  let b ← copyIn s.send off env.encode
  modify fun s => { s with send := b }
  let b ← copyIn b (off + envelopeLen) payload
  modify fun s => { s with send := b }
  dev (Connection.postSend (.send wrId .send off ((envelopeLen + payload.length) % 2 ^ 32)))

/-- The grant an outgoing envelope can carry. -/
def HordStream.grant (s : HordStream) : Nat := min s.grantPending u16Max

def postDataMessage (payload : Bytes) : M Unit := do
  let s ← get
  match s.sendFree with
  | [] => throw (.panic "called `Option::unwrap()` on a `None` value")
  | slot :: rest =>
    set { s with sendFree := rest }
    let env : Envelope := ⟨UInt32.ofNat payload.length, UInt16.ofNat s.grant, 0⟩
    match ← attempt (postInto slot (sendWrId slot) env payload) with
    | .ok () =>
      modify fun t => { t with sendCredits := t.sendCredits - 1,
                               grantPending := t.grantPending - s.grant }
    | .error e =>
      modify fun t => { t with sendFree := slot :: t.sendFree, peerClosed := true }
      throw (.io e)

/-- Return owed credits over the control lane, at most one message in flight. -/
def sendCreditReturn : M Unit := do
  let s ← get
  if s.ctrlSendBusy ∨ s.peerClosed ∨ s.grantPending = 0 then return ()
  else
    let env : Envelope := ⟨0, UInt16.ofNat s.grant, creditOnly⟩
    match ← attempt (postInto s.geo.ctrlSlot (ctrlSendWrId s.geo.ctrlSlot) env []) with
    | .ok () =>
      modify fun t => { t with ctrlSendBusy := true, grantPending := t.grantPending - s.grant }
    | .error e =>
      markClosed
      throw (.io e)

def maybeReturnCredits (threshold : Nat) : M Unit := do
  let s ← get
  if threshold ≤ s.grantPending then sendCreditReturn

/-- A quarter of the data pool. -/
def HordStream.proactiveThreshold (s : HordStream) : Nat :=
  max (s.geo.recvPool % 2 ^ 32 / 4) 1

def returnOwedCredits (urgent : Bool) : M Unit := do
  let s ← get
  maybeReturnCredits (if urgent then 1 else s.proactiveThreshold)

/-- Steps 2 and 3 of `try_write`: whole messages straight from the input, then
    the rest is staged. Each round sends at least one byte. -/
def sendWhole (cap : Nat) : Nat → Bytes → Nat → M Nat
  | 0, _, consumed => return consumed
  | fuel + 1, input, consumed => do
    if cap ≤ input.length then
      if !(← get).canSendData then
        maybeReturnCredits 1
        return consumed
      else
        postDataMessage (input.take cap)
        sendWhole cap fuel (input.drop cap) (consumed + cap)
    else
      modify fun s => { s with txStage := s.txStage ++ input }
      return consumed + input.length

def tryWrite (buf : Bytes) : M Nat := do
  let s ← get
  if s.peerClosed then ioErr .brokenPipe "connection closed"
  else
    let cap := s.payloadCap
    if s.txStage.isEmpty then sendWhole cap (buf.length + 1) buf 0
    else
      let need := cap - s.txStage.length
      let take := min need buf.length
      if take < need then
        modify fun s => { s with txStage := s.txStage ++ buf }
        return buf.length
      else if !s.canSendData then
        maybeReturnCredits 1
        return 0
      else
        modify fun s => { s with txStage := [] }
        postDataMessage (s.txStage ++ buf.take take)
        sendWhole cap (buf.length + 1) (buf.drop take) take

def tryFlushStage : M Bool := do
  let s ← get
  if s.txStage.isEmpty then return true
  else if !s.canSendData then
    maybeReturnCredits 1
    return false
  else
    modify fun s => { s with txStage := [] }
    postDataMessage s.txStage
    return true

def HordStream.sendsOutstanding (s : HordStream) : Bool :=
  decide (s.sendFree.length < s.geo.sendPool)

def HordStream.writesPending (s : HordStream) : Bool := decide (0 < s.writesOutstanding)

/-! Receiving. -/

/-- The loop of `try_read`: fill up to `want` more bytes from the messages held.
    Every round but the last one uses a message up. -/
def drainReady : Nat → Nat → Bytes → M Bytes
  | 0, _, acc => return acc
  | fuel + 1, want, acc => do
    if want = 0 then return acc
    else
      let s ← get
      match s.rxReady with
      | [] => return acc
      | msg :: rest =>
        let take := min (msg.stop - msg.start) want
        let (mr, _) ← recvSlot msg.slot
        let bs ← copyOut (s.region mr) msg.start take
        if msg.start + take = msg.stop then
          modify fun s => { s with rxReady := rest }
          postRecvSlot msg.slot
          modify fun s => { s with grantPending := u32Add s.grantPending 1 }
          drainReady fuel (want - take) (acc ++ bs)
        else
          modify fun s => { s with rxReady := { msg with start := msg.start + take } :: rest }
          drainReady fuel (want - take) (acc ++ bs)

/-- `try_read` into a buffer of `n` bytes: `none` would block, `some bs` are the
    bytes copied (`some []` for a non-empty buffer is end of stream). -/
def tryRead (n : Nat) : M (Option Bytes) := do
  let s ← get
  if n = 0 then return some []
  else if s.rxReady.isEmpty then
    return if s.peerClosed then some [] else none
  else
    let bs ← drainReady (s.rxReady.length + 1) n []
    maybeReturnCredits s.proactiveThreshold
    return some bs

/-- `next_completed_transfer`. -/
def nextCompletedTransfer : M (Option Nat) := do
  let s ← get
  match s.completedTransfers with
  | [] => return none
  | id :: rest =>
    set { s with completedTransfers := rest }
    return some id

end Hord
