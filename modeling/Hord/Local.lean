import Hord.Lib.Run
import Hord.Lib.Wp
import Hord.OneSided

/- What the stream can do, one elementary change at a time. `Local s o t` lists
   every elementary change a call on an established stream makes to it, with what
   it shows to the outside (`Obs`); `Handled` is the part of it that handles one
   completion. The theorems say that every call of the API, whatever it returns
   and wherever it fails, is a run of `Local` steps, so an invariant of the stream
   is proved once per step and holds after every sequence of calls. -/
namespace Hord

open Region Prog Transition

/-! Names for the places the calls touch. -/

/-- The receive request `post_recv_slot` posts for a slot. -/
def Geometry.slotWr (g : Geometry) (slot : Nat) : RecvWr :=
  ⟨recvWrId slot, (g.place slot).1, (g.place slot).2, g.msgSize % 2 ^ 32⟩

namespace HordStream
variable (s : HordStream)

/-- The receive slots that exist: the eager pool, and the split headroom once it
    is registered. -/
def slotCount : Nat :=
  s.geo.splitBase + if s.splitRecv.isSome then s.geo.splitHeadroom else 0

def setFaults (fs : List Bool) : HordStream := { s with conn := { s.conn with faults := fs } }
def setCq (cq : List Completion) : HordStream := { s with conn := { s.conn with cq := cq } }
def pushRq (w : RecvWr) : HordStream := { s with conn := { s.conn with rq := s.conn.rq ++ [w] } }
def pushOut (w : SendWr) : HordStream := { s with conn := { s.conn with out := s.conn.out ++ [w] } }
def close : HordStream := { s with peerClosed := true }
def pushTransfer (id : Nat) : HordStream :=
  { s with completedTransfers := s.completedTransfers ++ [id] }

/-- A send completion gives its slot back. -/
def reclaimed (wrId : Nat) : HordStream :=
  if isCtrlSend wrId then { s with ctrlSendBusy := false }
  else { s with sendFree := slotOf wrId :: s.sendFree }

/-- A write completion lowers the write counters. -/
def writeDone (wrId : Nat) : HordStream :=
  { s with writesOutstanding := s.writesOutstanding - 1
           immOutstanding := if isImmWrite wrId then s.immOutstanding - 1 else s.immOutstanding }

/-- The envelope in front of a received message. -/
def envelopeAt (slot : Nat) : Envelope :=
  Envelope.decode (readAt (s.region (s.geo.place slot).1) (s.geo.place slot).2 envelopeLen)

/-- Payload bytes of the message a receive completion reports. -/
def payloadLen (wc : Completion) : Nat :=
  let env := s.envelopeAt (slotOf wc.wrId)
  if env.isCreditOnly then 0
  else min env.length.toNat (min wc.byteLen s.geo.msgSize - envelopeLen)

/-- The peer's grant is added to the send window, saturating. -/
def granted (wc : Completion) : HordStream :=
  let credits := (s.envelopeAt (slotOf wc.wrId)).credits.toNat
  { s with sendCredits := min (s.sendCredits + credits) u32Max }

/-- A message with payload is held in its buffer. -/
def hold (wc : Completion) : HordStream :=
  let start := (s.geo.place (slotOf wc.wrId)).2 + envelopeLen
  { s with rxReady := s.rxReady ++ [⟨slotOf wc.wrId, start, start + s.payloadLen wc⟩] }

/-- One more credit is owed to the peer. -/
def owe : HordStream := { s with grantPending := u32Add s.grantPending 1 }

/-- The unread bytes of a held message. -/
def msgBytes (msg : ReadyMsg) : Bytes :=
  readAt (s.region (s.geo.place msg.slot).1) msg.start (msg.stop - msg.start)

end HordStream

/-! Handling one completion, already taken off the queue. -/

/-- The outcomes of `handle_completion`, and whether it returns `Ok`; the `Lost`
    ones are those where the receive slot could not be re-posted, which closes the
    stream. -/
inductive Handled (s : HordStream) (wc : Completion) : Bool → HordStream → Prop
  | imm (hop : wc.opcode = .recvRdmaWithImm) (hok : wc.isSuccess = true) :
      Handled s wc true ((s.pushTransfer wc.immData).pushRq (s.geo.slotWr (slotOf wc.wrId)))
  | immLost (hop : wc.opcode = .recvRdmaWithImm) (hok : wc.isSuccess = true) :
      Handled s wc false (s.pushTransfer wc.immData).close
  | immFailed (hop : wc.opcode = .recvRdmaWithImm) (hbad : wc.isSuccess = false) :
      Handled s wc true s.close
  | write (hop : wc.opcode ≠ .recvRdmaWithImm) (hw : isWrite wc.wrId = true)
      (hok : wc.isSuccess = true) :
      Handled s wc true (s.writeDone wc.wrId)
  | writeFailed (hop : wc.opcode ≠ .recvRdmaWithImm) (hw : isWrite wc.wrId = true)
      (hbad : wc.isSuccess = false) :
      Handled s wc true (s.writeDone wc.wrId).close
  | failed (hop : wc.opcode ≠ .recvRdmaWithImm) (hw : isWrite wc.wrId = false)
      (hbad : wc.isSuccess = false) :
      Handled s wc true (if isSend wc.wrId then s.close.reclaimed wc.wrId else s.close)
  | sent (hop : wc.opcode ≠ .recvRdmaWithImm) (hw : isWrite wc.wrId = false)
      (hok : wc.isSuccess = true) (hs : isSend wc.wrId = true) :
      Handled s wc true (s.reclaimed wc.wrId)
  | runt (hop : wc.opcode ≠ .recvRdmaWithImm) (hw : isWrite wc.wrId = false)
      (hok : wc.isSuccess = true) (hs : isSend wc.wrId = false)
      (hn : min wc.byteLen s.geo.msgSize < envelopeLen) :
      Handled s wc false s
  | held (hop : wc.opcode ≠ .recvRdmaWithImm) (hw : isWrite wc.wrId = false)
      (hok : wc.isSuccess = true) (hs : isSend wc.wrId = false)
      (hn : envelopeLen ≤ min wc.byteLen s.geo.msgSize) (hp : 0 < s.payloadLen wc) :
      Handled s wc true ((s.granted wc).hold wc)
  | credit (hop : wc.opcode ≠ .recvRdmaWithImm) (hw : isWrite wc.wrId = false)
      (hok : wc.isSuccess = true) (hs : isSend wc.wrId = false)
      (hn : envelopeLen ≤ min wc.byteLen s.geo.msgSize)
      (hc : (s.envelopeAt (slotOf wc.wrId)).isCreditOnly = true) :
      Handled s wc true ((s.granted wc).pushRq (s.geo.slotWr (slotOf wc.wrId)))
  | zero (hop : wc.opcode ≠ .recvRdmaWithImm) (hw : isWrite wc.wrId = false)
      (hok : wc.isSuccess = true) (hs : isSend wc.wrId = false)
      (hn : envelopeLen ≤ min wc.byteLen s.geo.msgSize)
      (hc : (s.envelopeAt (slotOf wc.wrId)).isCreditOnly = false) (hp : s.payloadLen wc = 0) :
      Handled s wc true ((s.granted wc).pushRq (s.geo.slotWr (slotOf wc.wrId))).owe
  | emptyLost (hop : wc.opcode ≠ .recvRdmaWithImm) (hw : isWrite wc.wrId = false)
      (hok : wc.isSuccess = true) (hs : isSend wc.wrId = false)
      (hn : envelopeLen ≤ min wc.byteLen s.geo.msgSize) (hp : s.payloadLen wc = 0) :
      Handled s wc false (s.granted wc).close

/-- `f` sees nothing of what a receive changes, nor of a close. -/
structure UnseenReceiving {γ : Type} (f : HordStream → γ) : Prop where
  closing : ∀ s, f { s with peerClosed := true } = f s
  recvQueue : ∀ s rq, f { s with conn := { s.conn with rq := rq } } = f s
  receiving : ∀ s credits ready owed ids, f { s with sendCredits := credits, rxReady := ready
                                                     grantPending := owed, completedTransfers := ids } = f s

/-- Only the completion of a post changes what neither a receive nor a close does. -/
theorem Handled.sending {γ : Type} {f : HordStream → γ} (hf : UnseenReceiving f) {s t : HordStream}
    {wc : Completion} {ok : Bool} (h : Handled s wc ok t) :
    f t = f s ∨ f t = f (s.writeDone wc.wrId) ∨ f t = f (s.reclaimed wc.wrId) := by
  have granted : f (s.granted wc) = f s := hf.receiving s _ _ _ _
  have tagged : f (s.pushTransfer wc.immData) = f s := hf.receiving s _ _ _ _
  cases h with
  | imm => exact .inl ((hf.recvQueue (s.pushTransfer wc.immData) _).trans tagged)
  | immLost => exact .inl ((hf.closing (s.pushTransfer wc.immData)).trans tagged)
  | immFailed => exact .inl (hf.closing s)
  | write => exact .inr (.inl rfl)
  | writeFailed => exact .inr (.inl (hf.closing (s.writeDone wc.wrId)))
  | failed =>
    split
    · have hclosed : s.close.reclaimed wc.wrId = (s.reclaimed wc.wrId).close := by
        unfold HordStream.reclaimed HordStream.close
        split <;> rfl
      rw [hclosed]
      exact .inr (.inr (hf.closing _))
    · exact .inl (hf.closing s)
  | sent => exact .inr (.inr rfl)
  | runt => exact .inl rfl
  | held => exact .inl ((hf.receiving (s.granted wc) _ _ _ _).trans granted)
  | credit => exact .inl ((hf.recvQueue (s.granted wc) _).trans granted)
  | zero =>
    have posted := (hf.recvQueue (s.granted wc) (s.conn.rq ++ [s.geo.slotWr (slotOf wc.wrId)])).trans granted
    exact .inl ((hf.receiving ((s.granted wc).pushRq (s.geo.slotWr (slotOf wc.wrId))) _ _ _ _).trans posted)
  | emptyLost => exact .inl ((hf.closing (s.granted wc)).trans granted)

/-- `f` sees nothing of what handling a completion changes. -/
structure UnseenHandling {γ : Type} (f : HordStream → γ) : Prop where
  closing : ∀ s, f { s with peerClosed := true } = f s
  recvQueue : ∀ s rq, f { s with conn := { s.conn with rq := rq } } = f s
  receiving : ∀ s credits ready owed ids, f { s with sendCredits := credits, rxReady := ready
                                                     grantPending := owed, completedTransfers := ids } = f s
  sending : ∀ s free busy writes imms, f { s with sendFree := free, ctrlSendBusy := busy
                                                  writesOutstanding := writes, immOutstanding := imms } = f s

theorem Handled.unseen {γ : Type} {f : HordStream → γ} (hf : UnseenHandling f) {s t : HordStream}
    {wc : Completion} {ok : Bool} (h : Handled s wc ok t) : f t = f s := by
  rcases h.sending ⟨hf.closing, hf.recvQueue, hf.receiving⟩ with hsame | hdone | hreclaimed
  · exact hsame
  · exact hdone.trans (hf.sending s _ _ _ _)
  · rw [hreclaimed, HordStream.reclaimed]
    split
    · exact hf.sending s _ _ _ _
    · exact hf.sending s _ _ _ _

/-- What an elementary change shows to the outside. -/
inductive Obs where
  | silent
  | handled (wc : Completion)
  | staged (bs : Bytes)
  | posted (extra : Bytes)
  | lost
  | copied (bs : Bytes)
  | dropped (bs : Bytes)
  | transfer (id : Nat)
  | cm (e : CmEvent)
  deriving DecidableEq

/-- The envelope a message of `len` payload bytes is stamped with. -/
def HordStream.stamp (s : HordStream) (len : Nat) (flags : UInt16) : Envelope :=
  ⟨UInt32.ofNat len, UInt16.ofNat s.grant, flags⟩

/-- The elementary changes of an established stream. -/
inductive Local : HordStream → Obs → HordStream → Prop
  | tick (s : HordStream) (fs : List Bool) : Local s .silent (s.setFaults fs)
  | close (s : HordStream) : Local s .silent s.close
  /-- Bytes are copied into a send slot that is not posted. -/
  | scribble (s : HordStream) (slot i : Nat) (bs : Bytes)
      (hslot : slot ∈ s.sendFree ∨ slot = s.geo.ctrlSlot ∧ s.ctrlSendBusy = false)
      (hin : i + bs.length ≤ s.geo.msgSize) (hopen : s.peerClosed = false) :
      Local s .silent { s with send := writeAt s.send (slot * s.geo.msgSize + i) bs }
  | stage (s : HordStream) (bs : Bytes) (hlt : (s.txStage ++ bs).length < s.payloadCap) :
      Local s (.staged bs) { s with txStage := s.txStage ++ bs }
  /-- The stage and `extra` leave as one data message. -/
  | post (s : HordStream) (slot : Nat) (rest : List Nat) (extra : Bytes)
      (hopen : s.peerClosed = false) (hroom : s.conn.sqUsed < sqLimit) (hcred : 0 < s.sendCredits)
      (hfree : s.sendFree = slot :: rest)
      (hne : s.txStage ++ extra ≠ []) (hcap : (s.txStage ++ extra).length ≤ s.payloadCap)
      (hmem : readAt s.send (slot * s.geo.msgSize) (envelopeLen + (s.txStage ++ extra).length) =
        (s.stamp (s.txStage ++ extra).length 0).encode ++ (s.txStage ++ extra)) :
      Local s (.posted extra)
        { s with sendFree := rest
                 txStage := []
                 sendCredits := s.sendCredits - 1
                 grantPending := s.grantPending - s.grant
                 conn := { s.conn with out := s.conn.out ++
                   [.send (sendWrId slot) .send (slot * s.geo.msgSize)
                     ((envelopeLen + (s.txStage ++ extra).length) % 2 ^ 32)] } }
  /-- The stage is lost with a message the device refused. -/
  | lose (s : HordStream) (hclosed : s.peerClosed = true) : Local s .lost { s with txStage := [] }
  /-- Owed credits leave on the control lane. -/
  | ctrl (s : HordStream) (hopen : s.peerClosed = false) (hroom : s.conn.sqUsed < sqLimit)
      (hbusy : s.ctrlSendBusy = false) (howed : 0 < s.grantPending)
      (hmem : readAt s.send (s.geo.ctrlSlot * s.geo.msgSize) envelopeLen =
        (s.stamp 0 creditOnly).encode) :
      Local s .silent
        { s with ctrlSendBusy := true
                 grantPending := s.grantPending - s.grant
                 conn := { s.conn with out := s.conn.out ++
                   [.send (ctrlSendWrId s.geo.ctrlSlot) .send (s.geo.ctrlSlot * s.geo.msgSize)
                     envelopeLen] } }
  | handle (s t : HordStream) (wc : Completion) (rest : List Completion)
      (ok : Bool) (hcq : s.conn.cq = wc :: rest) (h : Handled (s.setCq rest) wc ok t) :
      Local s (.handled wc) t
  /-- A read takes part of the oldest message. -/
  | take (s : HordStream) (msg : ReadyMsg) (rest : List ReadyMsg) (k : Nat)
      (hready : s.rxReady = msg :: rest) (hk : msg.start + k < msg.stop) :
      Local s (.copied ((s.msgBytes msg).take k))
        { s with rxReady := { msg with start := msg.start + k } :: rest }
  /-- A read uses the oldest message up: its slot is re-posted, a credit owed. -/
  | finish (s : HordStream) (msg : ReadyMsg) (rest : List ReadyMsg)
      (hready : s.rxReady = msg :: rest) :
      Local s (.copied (s.msgBytes msg))
        ({ s with rxReady := rest }.pushRq (s.geo.slotWr msg.slot)).owe
  /-- The same, but the slot could not be re-posted: the stream is closed. -/
  | finishLost (s : HordStream) (msg : ReadyMsg) (rest : List ReadyMsg)
      (hready : s.rxReady = msg :: rest) :
      Local s (.dropped (s.msgBytes msg)) { s with rxReady := rest }.close
  /-- A one-sided write is posted. -/
  | write (s : HordStream) (chunk : Nat) (sges : List Sge) (addr rkey : Nat) (imm : Option Nat)
      (hchunk : chunk < s.geo.sendPool) (hopen : s.peerClosed = false)
      (hroom : s.conn.sqUsed < sqLimit) :
      Local s .silent
        { s with writesOutstanding := u32Add s.writesOutstanding 1
                 immOutstanding :=
                   if imm.isSome then u32Add s.immOutstanding 1 else s.immOutstanding
                 conn := { s.conn with out := s.conn.out ++
                   [.write (if imm.isSome then immWriteWrId chunk else writeWrId chunk)
                     sges addr rkey imm] } }
  | transfer (s : HordStream) (id : Nat) (rest : List Nat)
      (h : s.completedTransfers = id :: rest) :
      Local s (.transfer id) { s with completedTransfers := rest }
  | cm (s : HordStream) (e : CmEvent) (rest : List CmEvent) (h : s.conn.cmq = e :: rest) :
      Local s (.cm e) { s with conn := { s.conn with cmq := rest } }
  /-- The connection is disconnected, or its queue pair destroyed. -/
  | link (s : HordStream) (qp gone : Bool) :
      Local s .silent { s with conn := { s.conn with qp := qp, disconnected := gone } }

/-! Well-formed streams: regions have their sizes, every slot and every work
    request is one the stream could have posted. -/

/-- A held message lies inside its slot, behind the envelope. -/
structure ReadyOk (g : Geometry) (count : Nat) (m : ReadyMsg) : Prop where
  slot_lt : m.slot < count
  start_ge : (g.place m.slot).2 + envelopeLen ≤ m.start
  start_lt : m.start < m.stop
  stop_le : m.stop ≤ (g.place m.slot).2 + g.msgSize

/-- The send-queue requests a stream posts. -/
inductive SqOk (g : Geometry) (cap : Nat) : SendWr → Prop
  | data (slot len : Nat) (hslot : slot < g.sendPool) (hlo : envelopeLen < len)
      (hhi : len ≤ cap + envelopeLen) :
      SqOk g cap (.send (sendWrId slot) .send (slot * g.msgSize) len)
  | ctrl : SqOk g cap (.send (ctrlSendWrId g.ctrlSlot) .send (g.ctrlSlot * g.msgSize) envelopeLen)
  | write (chunk : Nat) (sges : List Sge) (addr rkey : Nat) (imm : Option Nat)
      (hchunk : chunk < g.sendPool) :
      SqOk g cap
        (.write (if imm.isSome then immWriteWrId chunk else writeWrId chunk) sges addr rkey imm)

/-- Completions of the stream's own requests: a successful one carries the opcode
    of its request, the opcode of a failed one is arbitrary. -/
inductive WcOk (g : Geometry) (count : Nat) (wc : Completion) : Prop
  | recv (slot : Nat) (hslot : slot < count) (hid : wc.wrId = recvWrId slot)
      (hop : wc.isSuccess = true → wc.opcode = .recv ∨ wc.opcode = .recvRdmaWithImm)
  | data (slot : Nat) (hslot : slot < g.sendPool) (hid : wc.wrId = sendWrId slot)
      (hop : wc.isSuccess = true → wc.opcode = .send)
  | ctrl (hid : wc.wrId = ctrlSendWrId g.ctrlSlot) (hop : wc.isSuccess = true → wc.opcode = .send)
  | write (chunk : Nat) (imm : Bool) (hchunk : chunk < g.sendPool)
      (hid : wc.wrId = if imm then immWriteWrId chunk else writeWrId chunk)
      (hop : wc.isSuccess = true → wc.opcode = .rdmaWrite)

structure Wf (s : HordStream) : Prop where
  recv_len : s.recv.length = s.geo.splitBase * s.geo.msgSize
  send_len : s.send.length = (s.geo.sendPool + ctrlSendSlots) * s.geo.msgSize
  split_len : ∀ b, s.splitRecv = some b →
    b.length = s.geo.splitHeadroom * s.geo.msgSize ∧ b.length ≤ allocMax
  cap_pos : 0 < s.payloadCap
  cap_fits : s.payloadCap + envelopeLen ≤ s.geo.msgSize
  cap_u32 : s.payloadCap + envelopeLen < 2 ^ 32
  stage_lt : s.txStage.length < s.payloadCap
  free_lt : ∀ slot ∈ s.sendFree, slot < s.geo.sendPool
  ready : ∀ m ∈ s.rxReady, ReadyOk s.geo s.slotCount m
  rq : ∀ w ∈ s.conn.rq, ∃ slot < s.slotCount, w = s.geo.slotWr slot
  sq : ∀ w ∈ s.conn.out ++ s.conn.await, SqOk s.geo s.payloadCap w
  cq : ∀ wc ∈ s.conn.cq, WcOk s.geo s.slotCount wc

theorem Geometry.pool_lt (g : Geometry) : g.splitBase < 2 ^ 53 ∧ g.sendPool + 1 < 2 ^ 53 := by
  have h1 := g.recv_fits
  have h2 := g.send_fits
  have he := g.envelope_lt
  simp only [envelopeLen, allocMax, ctrlSendSlots] at *
  constructor
  · by_contra hge
    have := Nat.mul_le_mul (Nat.le_of_not_lt hge) (Nat.succ_le_of_lt he)
    omega
  · by_contra hge
    have := Nat.mul_le_mul (Nat.le_of_not_lt hge) (Nat.succ_le_of_lt he)
    omega

theorem Geometry.sendSlot_lt (g : Geometry) {slot : Nat} (h : slot ≤ g.sendPool) :
    slot < slotLimit := by
  have := g.pool_lt.2
  unfold slotLimit
  omega

theorem Wf.slotCount_lt {s : HordStream} (h : Wf s) {slot : Nat} (hs : slot < s.slotCount) :
    slot < slotLimit := by
  have hb := s.geo.pool_lt.1
  have he := s.geo.envelope_lt
  unfold HordStream.slotCount at hs
  unfold slotLimit
  cases hsp : s.splitRecv with
  | none => simp [hsp] at hs; omega
  | some b =>
    obtain ⟨hlen, hmax⟩ := h.split_len b hsp
    simp only [hsp, Option.isSome_some, if_true] at hs
    have : s.geo.splitHeadroom < 2 ^ 53 := by
      by_contra hge
      simp only [envelopeLen, allocMax] at *
      have := Nat.mul_le_mul (Nat.le_of_not_lt hge) (Nat.succ_le_of_lt he)
      omega
    omega

/-- A slot lies inside its region. -/
theorem Wf.slot_in {s : HordStream} (h : Wf s) {slot : Nat} (hs : slot < s.slotCount) :
    (s.geo.place slot).2 + s.geo.msgSize ≤ (s.region (s.geo.place slot).1).length := by
  unfold HordStream.slotCount at hs
  unfold Geometry.place
  split
  · next hlt =>
    simp only [HordStream.region, h.recv_len]
    have := Nat.mul_le_mul_right s.geo.msgSize (Nat.succ_le_of_lt hlt)
    rw [Nat.succ_mul] at this
    exact this
  · next hge =>
    cases hsp : s.splitRecv with
    | none => simp [hsp] at hs; omega
    | some b =>
      simp only [hsp, Option.isSome_some, if_true] at hs
      simp only [HordStream.region, hsp, Option.getD_some, (h.split_len b hsp).1]
      have hlt : slot - s.geo.splitBase < s.geo.splitHeadroom := by omega
      have := Nat.mul_le_mul_right s.geo.msgSize (Nat.succ_le_of_lt hlt)
      rw [Nat.succ_mul] at this
      exact this

/-- A slot below the count can be resolved. -/
theorem slot_resolves {s : HordStream} {slot : Nat} (hs : slot < s.slotCount) :
    slot < s.geo.splitBase ∨ s.splitRecv.isSome := by
  unfold HordStream.slotCount at hs
  cases hsp : s.splitRecv with
  | none => simp [hsp] at hs; exact .inl hs
  | some b => exact .inr rfl

/-- A send slot lies inside the send region. -/
theorem Wf.sendSlot_in {s : HordStream} (h : Wf s) {slot : Nat} (hs : slot ≤ s.geo.sendPool) :
    slot * s.geo.msgSize + s.geo.msgSize ≤ s.send.length := by
  rw [h.send_len, ← Nat.succ_mul]
  exact Nat.mul_le_mul_right _ (Nat.succ_le_succ hs)

/-! Every elementary change keeps a stream well-formed. -/

section WfSteps
variable {s t : HordStream} {wc : Completion}

theorem Wf.close (h : Wf s) : Wf s.close := { h with }

theorem Wf.granted (h : Wf s) (wc : Completion) : Wf (s.granted wc) := { h with }

theorem Wf.pushTransfer (h : Wf s) (id : Nat) : Wf (s.pushTransfer id) := { h with }

theorem Wf.writeDone (h : Wf s) (wrId : Nat) : Wf (s.writeDone wrId) := { h with }

theorem Wf.owe (h : Wf s) : Wf s.owe := { h with }

theorem Wf.pushRq (h : Wf s) {slot : Nat} (hs : slot < s.slotCount) :
    Wf (s.pushRq (s.geo.slotWr slot)) :=
  { h with
    rq := by
      intro w hw
      rcases List.mem_append.mp hw with hw | hw
      · exact h.rq w hw
      · rw [List.mem_singleton] at hw
        exact ⟨slot, hs, hw⟩ }

theorem Wf.pushOut (h : Wf s) {w : SendWr} (hw : SqOk s.geo s.payloadCap w) : Wf (s.pushOut w) :=
  { h with
    sq := by
      intro v hv
      rw [HordStream.pushOut, List.append_assoc, List.mem_append, List.mem_append,
        List.mem_singleton] at hv
      rcases hv with hv | hv | hv
      · exact h.sq v (List.mem_append_left _ hv)
      · exact hv ▸ hw
      · exact h.sq v (List.mem_append_right _ hv) }

/-- A receive completion names a slot. -/
theorem WcOk.slot (hwf : Wf s) (hwc : WcOk s.geo s.slotCount wc) (hs : isSend wc.wrId = false)
    (hw : isWrite wc.wrId = false) : slotOf wc.wrId < s.slotCount := by
  cases hwc with
  | recv slot hslot hid =>
    rw [hid, slotOf_recvWrId (hwf.slotCount_lt hslot)]
    exact hslot
  | data slot hslot hid =>
    rw [hid, (sendWrId_kind (s.geo.sendSlot_lt hslot.le)).1] at hs
    cases hs
  | ctrl hid =>
    rw [hid, (ctrlSendWrId_kind (s.geo.sendSlot_lt s.geo.ctrlSlot_eq.le)).1] at hs
    cases hs
  | write chunk imm hchunk hid =>
    have hlt := s.geo.sendSlot_lt hchunk.le
    cases imm with
    | true =>
      rw [hid, if_pos rfl, (immWriteWrId_kind hlt).2.1] at hw
      cases hw
    | false =>
      rw [hid, if_neg (by decide), (writeWrId_kind hlt).2.1] at hw
      cases hw

/-- So does a successful completion with an immediate. -/
theorem WcOk.imm_slot (hwf : Wf s) (hwc : WcOk s.geo s.slotCount wc) (hok : wc.isSuccess = true)
    (hop : wc.opcode = .recvRdmaWithImm) : slotOf wc.wrId < s.slotCount := by
  cases hwc with
  | recv slot hslot hid =>
    rw [hid, slotOf_recvWrId (hwf.slotCount_lt hslot)]
    exact hslot
  | data slot hslot hid h => rw [h hok] at hop; cases hop
  | ctrl hid h => rw [h hok] at hop; cases hop
  | write chunk imm hchunk hid h => rw [h hok] at hop; cases hop

/-- A send completion that is not the control message's names a data slot. -/
theorem WcOk.sendSlot (hwf : Wf s) (hwc : WcOk s.geo s.slotCount wc) (hs : isSend wc.wrId = true)
    (hc : isCtrlSend wc.wrId = false) : slotOf wc.wrId < s.geo.sendPool := by
  cases hwc with
  | recv slot hslot hid =>
    rw [hid, (recvWrId_kind (hwf.slotCount_lt hslot)).1] at hs
    cases hs
  | data slot hslot hid =>
    rw [hid, slotOf_sendWrId (s.geo.sendSlot_lt hslot.le)]
    exact hslot
  | ctrl hid =>
    rw [hid, (ctrlSendWrId_kind (s.geo.sendSlot_lt s.geo.ctrlSlot_eq.le)).2.1] at hc
    cases hc
  | write chunk imm hchunk hid =>
    have hlt := s.geo.sendSlot_lt hchunk.le
    cases imm with
    | true =>
      rw [hid, if_pos rfl, (immWriteWrId_kind hlt).1] at hs
      cases hs
    | false =>
      rw [hid, if_neg (by decide), (writeWrId_kind hlt).1] at hs
      cases hs

theorem Wf.reclaimed (h : Wf s) (hwc : WcOk s.geo s.slotCount wc) (hs : isSend wc.wrId = true) :
    Wf (s.reclaimed wc.wrId) := by
  unfold HordStream.reclaimed
  split
  · exact { h with }
  · next hc =>
    have hback : slotOf wc.wrId < s.geo.sendPool := hwc.sendSlot h hs (by simpa using hc)
    refine { h with free_lt := ?_ }
    intro slot hslot
    rcases List.mem_cons.mp hslot with rfl | hslot
    · exact hback
    · exact h.free_lt slot hslot

theorem Wf.hold (h : Wf s) (hslot : slotOf wc.wrId < s.slotCount) (hp : 0 < s.payloadLen wc) :
    Wf (s.hold wc) :=
  { h with
    ready := by
      intro m hm
      rcases List.mem_append.mp hm with hm | hm
      · exact h.ready m hm
      · rw [List.mem_singleton] at hm
        subst hm
        have hle : s.payloadLen wc ≤ s.geo.msgSize - envelopeLen := by
          unfold HordStream.payloadLen
          simp only
          split <;> omega
        have := s.geo.envelope_lt
        refine ⟨hslot, Nat.le_refl _, ?_, ?_⟩
        · show (s.geo.place (slotOf wc.wrId)).2 + envelopeLen <
            (s.geo.place (slotOf wc.wrId)).2 + envelopeLen + s.payloadLen wc
          omega
        · show (s.geo.place (slotOf wc.wrId)).2 + envelopeLen + s.payloadLen wc ≤
            (s.geo.place (slotOf wc.wrId)).2 + s.geo.msgSize
          omega }

theorem Handled.wf {ok : Bool} (h : Wf s) (hwc : WcOk s.geo s.slotCount wc)
    (hh : Handled s wc ok t) : Wf t := by
  cases hh with
  | imm hop hok =>
    have hslot : slotOf wc.wrId < s.slotCount := hwc.imm_slot h hok hop
    exact (h.pushTransfer _).pushRq hslot
  | immLost => exact (h.pushTransfer _).close
  | immFailed => exact h.close
  | write => exact h.writeDone _
  | writeFailed => exact (h.writeDone _).close
  | failed _ hw hbad =>
    split
    · next hs => exact h.close.reclaimed hwc hs
    · exact h.close
  | sent _ _ _ hs => exact h.reclaimed hwc hs
  | runt => exact h
  | held _ hw _ hs _ hp =>
    have hslot : slotOf wc.wrId < s.slotCount := hwc.slot h hs hw
    exact (h.granted wc).hold hslot hp
  | credit _ hw _ hs =>
    have hslot : slotOf wc.wrId < s.slotCount := hwc.slot h hs hw
    exact (h.granted wc).pushRq hslot
  | zero _ hw _ hs =>
    have hslot : slotOf wc.wrId < s.slotCount := hwc.slot h hs hw
    exact ((h.granted wc).pushRq hslot).owe
  | emptyLost => exact (h.granted wc).close

theorem Local.wf {o : Obs} (h : Wf s) (hl : Local s o t) : Wf t := by
  cases hl with
  | tick => exact { h with }
  | close => exact h.close
  | scribble slot i bs hslot hin =>
    have hle : slot ≤ s.geo.sendPool := by
      rcases hslot with hslot | ⟨rfl, -⟩
      · exact (h.free_lt slot hslot).le
      · exact s.geo.ctrlSlot_eq.le
    have := h.sendSlot_in hle
    exact { h with send_len := by rw [length_writeAt (by omega)]; exact h.send_len }
  | stage bs hlt => exact { h with stage_lt := hlt }
  | post slot rest extra _ _ _ hfree hne hcap =>
    have hslot : slot < s.geo.sendPool := h.free_lt slot (by simp [hfree])
    have hpos : 0 < (s.txStage ++ extra).length := List.length_pos_iff.mpr hne
    have hu := h.cap_u32
    have hmod : (envelopeLen + (s.txStage ++ extra).length) % 2 ^ 32 =
        envelopeLen + (s.txStage ++ extra).length := Nat.mod_eq_of_lt (by omega)
    have hw : SqOk s.geo s.payloadCap (.send (sendWrId slot) .send (slot * s.geo.msgSize)
        ((envelopeLen + (s.txStage ++ extra).length) % 2 ^ 32)) := by
      rw [hmod]
      exact .data slot _ hslot (by omega) (by omega)
    exact { h.pushOut hw with
            stage_lt := h.cap_pos
            free_lt := fun x hx => h.free_lt x (by rw [hfree]; exact List.mem_cons_of_mem _ hx) }
  | lose => exact { h with stage_lt := h.cap_pos }
  | ctrl => exact { h.pushOut .ctrl with }
  | handle _ wc rest _ hcq hh =>
    have hrest : Wf (s.setCq rest) :=
      { h with cq := fun v hv => h.cq v (by rw [hcq]; exact List.mem_cons_of_mem _ hv) }
    exact hh.wf hrest (h.cq wc (by rw [hcq]; exact List.mem_cons_self ..))
  | take msg rest k hready hk =>
    refine { h with ready := ?_ }
    intro m hm
    have hmsg := h.ready msg (by rw [hready]; exact List.mem_cons_self ..)
    rcases List.mem_cons.mp hm with rfl | hm
    · have := hmsg.start_ge
      exact ⟨hmsg.slot_lt, by simp only; omega, hk, hmsg.stop_le⟩
    · exact h.ready m (by rw [hready]; exact List.mem_cons_of_mem _ hm)
  | finish msg rest hready =>
    have hmsg := h.ready msg (by rw [hready]; exact List.mem_cons_self ..)
    have hrest : Wf { s with rxReady := rest } :=
      { h with ready := fun m hm => h.ready m (by rw [hready]; exact List.mem_cons_of_mem _ hm) }
    exact (hrest.pushRq hmsg.slot_lt).owe
  | finishLost msg rest hready =>
    have hrest : Wf { s with rxReady := rest } :=
      { h with ready := fun m hm => h.ready m (by rw [hready]; exact List.mem_cons_of_mem _ hm) }
    exact hrest.close
  | write chunk sges addr rkey imm hchunk => exact { h.pushOut (.write chunk sges addr rkey imm hchunk) with }
  | transfer => exact { h with }
  | cm => exact { h with }
  | link => exact { h with }

end WfSteps

end Hord
