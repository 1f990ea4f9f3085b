import Hord.Stream

/- One-sided RDMA writes (`hord-stream/src/stream.rs`): packing a segment list
   into work requests, planning the batches of an over-cap gather, admission, and
   the posting core all write entry points share.

   Correspondence (Rust ↔ Lean):
     `plan_gather`                    ↔ `planGather` (generic in the monad of `emit`)
     `next_batch_len` / `next_gather_batch` ↔ `nextBatchLen` / `nextGatherBatch`
     `check_write_capacity`           ↔ `checkWriteCapacity`
     `begin_rdma_write_gather_inner`  ↔ `beginRdmaWriteGatherInner`
     the one segment of `begin_rdma_write_inner` ↔ `WriteSegment.fromRegistered`
   A segment's last address is assumed to be a valid one, so the local address of
   a gather entry is an unbounded sum; remote addresses wrap as `u64`. -/
namespace Hord

/-- Bytes per RDMA-write work request. -/
def writeWrMax : Nat := 2 ^ 30

/-- The packer's progress: the gather entries and bytes of the work request being
    filled, its offset from the start of the gather, and the requests emitted. -/
structure Packer where
  sges : List Sge
  wrBytes : Nat
  remoteOff : Nat
  wrCount : Nat
  deriving DecidableEq, Repr

def Packer.start : Packer := ⟨[], 0, 0, 0⟩

/-- Whether the work request being filled is full, by entries or by bytes. -/
def Packer.full (maxSge : Nat) (p : Packer) : Prop :=
  p.sges.length = maxSge ∨ writeWrMax ≤ p.wrBytes

instance (maxSge : Nat) (p : Packer) : Decidable (p.full maxSge) :=
  inferInstanceAs (Decidable (_ ∨ _))

/-- Start the next work request. -/
def Packer.flushed (p : Packer) : Packer :=
  ⟨[], 0, p.remoteOff + p.wrBytes, p.wrCount + 1⟩

/-- Take the next piece of `seg` from `segOff` on, `take` bytes long. -/
def Packer.push (p : Packer) (seg : WriteSegment) (segOff take : Nat) : Packer :=
  { p with sges := p.sges ++ [⟨seg.localAddr + segOff, take % 2 ^ 32, seg.lkey⟩]
           wrBytes := p.wrBytes + take }

def clampSge (maxSge : Nat) : Nat := max 1 (min maxSge maxWriteSge)

section Planning
variable {m : Type → Type} [Monad m]

/-- The inner loop of `plan_gather` over one segment; every round takes at least
    one byte, so the segment's length bounds the rounds. -/
def planSegment (maxSge : Nat) (emit : Nat → List Sge → m Unit) (seg : WriteSegment) :
    Nat → Nat → Packer → m Packer
  | 0, _, p => pure p
  | fuel + 1, segOff, p =>
    if segOff < seg.len then do
      let p ← if p.full maxSge then do
                emit p.remoteOff p.sges
                pure p.flushed
              else pure p
      let take := min (seg.len - segOff) (writeWrMax - p.wrBytes)
      planSegment maxSge emit seg fuel (segOff + take) (p.push seg segOff take)
    else pure p

def planSegments (maxSge : Nat) (emit : Nat → List Sge → m Unit) :
    List WriteSegment → Packer → m Packer
  | [], p => pure p
  | seg :: rest, p => do
    let p ← planSegment maxSge emit seg seg.len 0 p
    planSegments maxSge emit rest p

def planGather (segments : List WriteSegment) (maxSge : Nat) (emit : Nat → List Sge → m Unit) :
    m Nat := do
  let p ← planSegments (clampSge maxSge) emit segments .start
  if p.sges.isEmpty then pure p.wrCount
  else do
    emit p.remoteOff p.sges
    pure (p.wrCount + 1)

end Planning

/-! Batches of a gather that needs more requests than the send pool holds. -/

/-- What `next_batch_len` tracks: entries and bytes of the request being filled
    and the requests already full. -/
structure Count where
  nSge : Nat
  wrBytes : Nat
  wrCount : Nat
  deriving DecidableEq, Repr

def countSegment (maxSge len : Nat) : Nat → Nat → Count → Count
  | 0, _, c => c
  | fuel + 1, segOff, c =>
    if segOff < len then
      let c := if c.nSge = maxSge ∨ writeWrMax ≤ c.wrBytes then ⟨0, 0, c.wrCount + 1⟩ else c
      let take := min (len - segOff) (writeWrMax - c.wrBytes)
      countSegment maxSge len fuel (segOff + take) ⟨c.nSge + 1, c.wrBytes + take, c.wrCount⟩
    else c

/-- Requests if the batch were sealed now. -/
def Count.sealed (c : Count) : Nat := c.wrCount + if 0 < c.nSge then 1 else 0

/-- The loop over segments: `fitSegs` segments of `fitBytes` bytes fit so far. -/
def batchLoop (maxSge budget : Nat) : List WriteSegment → Count → Nat → Nat → Nat × Nat
  | [], _, fitSegs, bytes => (fitSegs, bytes)
  | seg :: rest, c, fitSegs, bytes =>
    let c := countSegment maxSge seg.len seg.len 0 c
    if c.sealed ≤ budget then batchLoop maxSge budget rest c (fitSegs + 1) (bytes + seg.len)
    else (fitSegs, bytes)

/-- How many leading segments pack into at most `wrBudget` requests, and their
    bytes. A first segment over the budget is taken alone; an empty list indexes
    `segments[0]` and panics. -/
def nextBatchLen (segments : List WriteSegment) (maxSge wrBudget : Nat) : Except Fail (Nat × Nat) :=
  let fit := batchLoop (clampSge maxSge) (max wrBudget 1) segments ⟨0, 0, 0⟩ 0 0
  if fit.1 = 0 then
    match segments with
    | [] => .error (.panic "index out of bounds: the len is 0 but the index is 0")
    | seg :: _ => .ok (1, seg.len)
  else .ok fit

def HordStream.nextGatherBatch (s : HordStream) (segments : List WriteSegment) (start : Nat) :
    Except Fail (Nat × Nat) :=
  nextBatchLen (segments.drop start) s.conn.maxSendSge s.geo.sendPool

/-! Admission and posting. -/

/-- Admission of a write of `nWrs` requests; posts nothing. -/
def checkWriteCapacity (nWrs : Nat) (hasImm : Bool) : M Unit := do
  let s ← get
  let freeSlots := s.sendFree.length - s.writesOutstanding
  if nWrs > s.geo.sendPool then
    ioErr .invalidInput ("zero-copy write needs " ++ toString nWrs ++
      " send-queue slots, exceeds the send pool of " ++ toString s.geo.sendPool)
  else if nWrs > freeSlots then ioErr .wouldBlock "operation would block"
  else if hasImm && decide (s.peerSplitCredits ≤ s.immOutstanding) then
    ioErr .wouldBlock "operation would block"
  else return ()

/-- The posting closure of `begin_rdma_write_gather_inner`; the state counts the
    requests posted so far, and the immediate rides the last one. -/
def postWrite (nWrs peerAddr peerRkey : Nat) (imm : Option Nat) (remoteOff : Nat)
    (sges : List Sge) : StateT Nat M Unit := fun idx => do
  let immHere := if idx = nWrs - 1 then imm else none
  let wrId := if immHere.isSome then immWriteWrId idx else writeWrId idx
  dev (Connection.postWriteGather wrId sges ((peerAddr + remoteOff) % 2 ^ 64) peerRkey immHere)
  modify fun s => { s with writesOutstanding := u32Add s.writesOutstanding 1 }
  if immHere.isSome then
    modify fun s => { s with immOutstanding := u32Add s.immOutstanding 1 }
  return ((), idx + 1)

def beginRdmaWriteGatherInner (segments : List WriteSegment) (peerAddr peerRkey : Nat)
    (imm : Option Nat) : M Unit := do
  let s ← get
  if s.peerClosed then ioErr .brokenPipe "connection closed"
  else
    let maxSge := s.conn.maxSendSge
    let nDataWrs ← planGather segments maxSge fun _ _ => (pure () : M Unit)
    let nWrs := if nDataWrs = 0 ∧ imm.isSome then 1 else nDataWrs
    if nWrs = 0 then return ()
    else
      checkWriteCapacity nWrs imm.isSome
      if nDataWrs = 0 then
        -- all-empty gather: one immediate-only request
        match ← attempt (dev (Connection.postWriteGather (immWriteWrId 0) [] peerAddr peerRkey imm)) with
        | .ok () =>
          modify fun s => { s with writesOutstanding := u32Add s.writesOutstanding 1,
                                   immOutstanding := u32Add s.immOutstanding 1 }
        | .error e =>
          markClosed
          throw (.io e)
      else
        match ← attempt ((planGather segments maxSge (postWrite nWrs peerAddr peerRkey imm)).run' 0) with
        | .ok _ => return ()
        | .error e =>
          markClosed
          throw (.io e)

/-- A registered buffer as a write source: its address, key and bytes. -/
structure RegisteredBuffer where
  addr : Nat
  lkey : Nat
  storage : Bytes
  deriving DecidableEq, Repr

/-- `WriteSegment::from_registered`, with its bound assertion. -/
def WriteSegment.fromRegistered (buf : RegisteredBuffer) (off len : Nat) :
    Except Fail WriteSegment :=
  if off + len ≤ buf.storage.length then .ok ⟨buf.addr + off, buf.lkey, len⟩
  else .error (.panic "WriteSegment::from_registered span out of bounds")

end Hord
