import Hord.Paths

/- The stream's books. Every receive slot is posted, completed or held by one
   message; every send slot is free or on its way; the control flag and the two
   write counters count the requests they stand for. `Books` says so by counting,
   for each slot and each kind of request, the places it occurs in; one elementary
   change moves at most one request from one place to another. -/
namespace Hord

open Region Transition

namespace Connection

/-- How often a receive slot is posted, and how often completed but unhandled. -/
def posted (c : Connection) (slot : Nat) : Nat := c.rq.countP fun w => w.wrId == recvWrId slot
def completed (c : Connection) (slot : Nat) : Nat := c.cq.countP fun wc => wc.wrId == recvWrId slot

/-- Send-queue requests whose id satisfies `p`: not yet carried out, carried out,
    or completed but unhandled. -/
def sqCount (c : Connection) (p : Nat → Bool) : Nat :=
  c.out.countP (fun w => p w.wrId) + c.await.countP (fun w => p w.wrId) +
    c.cq.countP (fun wc => p wc.wrId)

end Connection

/-- Messages held in a receive slot. -/
def HordStream.heldIn (s : HordStream) (slot : Nat) : Nat := s.rxReady.countP fun m => m.slot == slot

/-- The places a receive slot occurs in. -/
def HordStream.uses (s : HordStream) (slot : Nat) : Nat :=
  s.conn.posted slot + s.conn.completed slot + s.heldIn slot

/-- An immediate-bearing write. -/
def isImmId (wrId : Nat) : Bool := isWrite wrId && isImmWrite wrId

/-- `a` accounts for `b`: for all of it while the stream is open. -/
def Tally (s : HordStream) (a b : Nat) : Prop := a ≤ b ∧ (s.peerClosed = false → a = b)

structure Books (s : HordStream) : Prop where
  recv : ∀ slot < slotLimit, s.uses slot ≤ if slot < s.slotCount then 1 else 0
  send : ∀ slot < slotLimit,
    Tally s (s.sendFree.count slot + s.conn.sqCount (· == sendWrId slot))
      (if slot < s.geo.sendPool then 1 else 0)
  ctrl : Tally s (s.conn.sqCount (· == ctrlSendWrId s.geo.ctrlSlot)) s.ctrlSendBusy.toNat
  writes : Tally s (s.conn.sqCount isWrite) s.writesOutstanding
  imms : Tally s (s.conn.sqCount isImmId) s.immOutstanding

/-- No slot has leaked. -/
def SlotsFull (s : HordStream) : Prop := ∀ slot < s.slotCount, s.uses slot = 1

/-! Ids of different kinds differ. -/

section Ids
variable {a b : Nat}

theorem beq_false_of_isSend {v w : Nat} (h : isSend v ≠ isSend w) : (v == w) = false :=
  beq_false_of_ne fun e => h (by rw [e])

theorem beq_false_of_isCtrl {v w : Nat} (h : isCtrlSend v ≠ isCtrlSend w) : (v == w) = false :=
  beq_false_of_ne fun e => h (by rw [e])

theorem beq_false_of_isWrite {v w : Nat} (h : isWrite v ≠ isWrite w) : (v == w) = false :=
  beq_false_of_ne fun e => h (by rw [e])

theorem sendWrId_beq (ha : a < slotLimit) (hb : b < slotLimit) :
    (sendWrId a == sendWrId b) = (a == b) := by
  by_cases h : a = b
  · simp [h]
  · have hne : sendWrId a ≠ sendWrId b := fun e => h (by
      rw [← slotOf_sendWrId ha, e, slotOf_sendWrId hb])
    rw [beq_false_of_ne hne, beq_false_of_ne h]

end Ids

/-- What an id is: the kinds of request a stream posts. -/
inductive IdKind where
  | recv (slot : Nat)
  | data (slot : Nat)
  | ctrl
  | write (imm : Bool)
  deriving DecidableEq

/-- `wrId` is the id of a request of kind `k` of the stream. -/
def IdKind.Of (g : Geometry) (count : Nat) (wrId : Nat) : IdKind → Prop
  | .recv slot => slot < count ∧ slot < slotLimit ∧ wrId = recvWrId slot
  | .data slot => slot < g.sendPool ∧ slot < slotLimit ∧ wrId = sendWrId slot
  | .ctrl => wrId = ctrlSendWrId g.ctrlSlot
  | .write imm => ∃ chunk < slotLimit, wrId = if imm then immWriteWrId chunk else writeWrId chunk

namespace IdKind

@[simp]
def onSend : IdKind → Bool
  | .data _ => true
  | .ctrl => true
  | _ => false

@[simp]
def onCtrl : IdKind → Bool
  | .ctrl => true
  | _ => false

@[simp]
def onWrite : IdKind → Bool
  | .write _ => true
  | _ => false

@[simp]
def onImm : IdKind → Bool
  | .write imm => imm
  | _ => false

@[simp]
def onRecv (slot : Nat) : IdKind → Bool
  | .recv v => v == slot
  | _ => false

@[simp]
def onData (slot : Nat) : IdKind → Bool
  | .data v => v == slot
  | _ => false

@[simp]
def slot (wrId : Nat) : IdKind → Nat
  | .recv v => v
  | .data v => v
  | _ => slotOf wrId

end IdKind

/-- How an id of kind `k` answers the questions the code and the books ask. -/
structure IdFacts (g : Geometry) (wrId : Nat) (k : IdKind) : Prop where
  send : isSend wrId = k.onSend
  ctrl : isSend wrId = true → isCtrlSend wrId = k.onCtrl
  write : isWrite wrId = k.onWrite
  imm : isImmId wrId = k.onImm
  recvId : ∀ slot < slotLimit, (wrId == recvWrId slot) = k.onRecv slot
  dataId : ∀ slot < slotLimit, (wrId == sendWrId slot) = k.onData slot
  ctrlId : (wrId == ctrlSendWrId g.ctrlSlot) = k.onCtrl
  slot : slotOf wrId = k.slot wrId

theorem IdKind.Of.facts {g : Geometry} {count wrId : Nat} {k : IdKind} (h : k.Of g count wrId) :
    IdFacts g wrId k := by
  have hctrl := ctrlSendWrId_kind (g.sendSlot_lt g.ctrlSlot_eq.le)
  cases k with
  | recv v =>
    obtain ⟨-, hv, hid⟩ := h
    have hk := recvWrId_kind hv
    have hslot := slotOf_recvWrId hv
    rw [← hid] at hk hslot
    refine ⟨hk.1, fun h => absurd h (by simp [hk.1]), hk.2, by simp [isImmId, hk.2],
      fun slot _ => by rw [hid]; rfl, fun slot hs => ?_, ?_, hslot⟩
    · exact beq_false_of_isSend (by rw [hk.1, (sendWrId_kind hs).1]; decide)
    · exact beq_false_of_isSend (by rw [hk.1, hctrl.1]; decide)
  | data v =>
    obtain ⟨-, hv, rfl⟩ := h
    have hk := sendWrId_kind hv
    refine ⟨hk.1, fun _ => hk.2.1, hk.2.2, by simp [isImmId, hk.2.2], fun slot hs => ?_,
      fun slot hs => sendWrId_beq hv hs, ?_, slotOf_sendWrId hv⟩
    · exact beq_false_of_isSend (by rw [hk.1, (recvWrId_kind hs).1]; decide)
    · exact beq_false_of_isCtrl (by rw [hk.2.1, hctrl.2.1]; decide)
  | ctrl =>
    cases h
    refine ⟨hctrl.1, fun _ => hctrl.2.1, hctrl.2.2, by simp [isImmId, hctrl.2.2], fun slot hs => ?_,
      fun slot hs => ?_, by simp, rfl⟩
    · exact beq_false_of_isSend (by rw [hctrl.1, (recvWrId_kind hs).1]; decide)
    · exact beq_false_of_isCtrl (by rw [hctrl.2.1, (sendWrId_kind hs).2.1]; decide)
  | write imm =>
    obtain ⟨chunk, hc, rfl⟩ := h
    have hk : isSend (if imm then immWriteWrId chunk else writeWrId chunk) = false ∧
        isWrite (if imm then immWriteWrId chunk else writeWrId chunk) = true ∧
        isImmWrite (if imm then immWriteWrId chunk else writeWrId chunk) = imm := by
      cases imm with
      | true => exact immWriteWrId_kind hc
      | false => exact writeWrId_kind hc
    refine ⟨hk.1, fun h => absurd h (by simp [hk.1]), hk.2.1, by simp [isImmId, hk.2], fun slot hs => ?_,
      fun slot hs => ?_, ?_, rfl⟩
    · exact beq_false_of_isWrite (by rw [hk.2.1, (recvWrId_kind hs).2]; decide)
    · exact beq_false_of_isWrite (by rw [hk.2.1, (sendWrId_kind hs).2.2]; decide)
    · exact beq_false_of_isWrite (by rw [hk.2.1, hctrl.2.2]; decide)

/-- Every completion on the queue is of a request of the stream. -/
theorem WcOk.kind {s : HordStream} (hwf : Wf s) {wc : Completion} (h : WcOk s.geo s.slotCount wc) :
    ∃ k : IdKind, k.Of s.geo s.slotCount wc.wrId := by
  cases h with
  | recv slot hslot hid => exact ⟨.recv slot, hslot, hwf.slotCount_lt hslot, hid⟩
  | data slot hslot hid => exact ⟨.data slot, hslot, s.geo.sendSlot_lt hslot.le, hid⟩
  | ctrl hid => exact ⟨.ctrl, hid⟩
  | write chunk imm hchunk hid => exact ⟨.write imm, chunk, s.geo.sendSlot_lt hchunk.le, hid⟩

/-! One change, one move. -/

section Counting
variable {c : Connection} {wc : Completion} {w : SendWr} {rest : List Completion}

theorem sqCount_cons (h : c.cq = wc :: rest) (p : Nat → Bool) :
    c.sqCount p = { c with cq := rest }.sqCount p + (p wc.wrId).toNat := by
  unfold Connection.sqCount
  rw [h, List.countP_cons]
  cases p wc.wrId
  · simp
  · simp; omega

theorem completed_cons (h : c.cq = wc :: rest) (slot : Nat) :
    c.completed slot = { c with cq := rest }.completed slot + (wc.wrId == recvWrId slot).toNat := by
  unfold Connection.completed
  rw [h, List.countP_cons]
  cases wc.wrId == recvWrId slot <;> simp

theorem sqCount_push (c : Connection) (w : SendWr) (p : Nat → Bool) :
    { c with out := c.out ++ [w] }.sqCount p = c.sqCount p + (p w.wrId).toNat := by
  unfold Connection.sqCount
  rw [List.countP_append, List.countP_singleton]
  cases p w.wrId
  · simp
  · simp; omega

theorem posted_push (c : Connection) (g : Geometry) (v slot : Nat) :
    { c with rq := c.rq ++ [g.slotWr v] }.posted slot = c.posted slot + (v == slot).toNat := by
  unfold Connection.posted
  rw [List.countP_append, List.countP_singleton]
  have : ((g.slotWr v).wrId == recvWrId slot) = (v == slot) := rfl
  rw [this]
  cases v == slot <;> simp

theorem isWrite_ge {wrId : Nat} (h : isWrite wrId = true) : 2 ^ 60 ≤ wrId := by
  rw [isWrite_eq] at h
  have := Nat.ge_two_pow_of_testBit h
  omega

/-- The send queue has room for one more, so the write counter does not wrap. -/
theorem sqCount_isWrite_lt (h : c.sqUsed < sqLimit) : c.sqCount isWrite + 1 < 2 ^ 32 := by
  have h1 : c.out.countP (fun w => isWrite w.wrId) ≤ c.out.length := List.countP_le_length
  have h2 : c.await.countP (fun w => isWrite w.wrId) ≤ c.await.length := List.countP_le_length
  have h3 : c.cq.countP (fun wc => isWrite wc.wrId) ≤
      c.cq.countP fun wc => decide (2 ^ 60 ≤ wc.wrId) := by
    apply List.countP_mono_left
    intro wc _ hw
    exact decide_eq_true (isWrite_ge hw)
  unfold Connection.sqUsed sqLimit at h
  unfold Connection.sqCount
  omega

theorem sqCount_isImmId_le (c : Connection) : c.sqCount isImmId ≤ c.sqCount isWrite := by
  have key : ∀ v, isImmId v = true → isWrite v = true := by
    intro v hv
    simp only [isImmId, Bool.and_eq_true] at hv
    exact hv.1
  unfold Connection.sqCount
  have h1 := List.countP_mono_left (l := c.out) fun w _ h => key w.wrId h
  have h2 := List.countP_mono_left (l := c.await) fun w _ h => key w.wrId h
  have h3 := List.countP_mono_left (l := c.cq) fun w _ h => key w.wrId h
  omega

end Counting

/-- The books of a stream that has just taken a completion of kind `k` off its
    queue and not yet handled it. -/
structure BooksBut (s : HordStream) (k : IdKind) : Prop where
  recv : ∀ slot < slotLimit,
    s.uses slot + (k.onRecv slot).toNat ≤ if slot < s.slotCount then 1 else 0
  send : ∀ slot < slotLimit,
    Tally s (s.sendFree.count slot + s.conn.sqCount (· == sendWrId slot) + (k.onData slot).toNat)
      (if slot < s.geo.sendPool then 1 else 0)
  ctrl : Tally s (s.conn.sqCount (· == ctrlSendWrId s.geo.ctrlSlot) + k.onCtrl.toNat)
    s.ctrlSendBusy.toNat
  writes : Tally s (s.conn.sqCount isWrite + k.onWrite.toNat) s.writesOutstanding
  imms : Tally s (s.conn.sqCount isImmId + k.onImm.toNat) s.immOutstanding

section BooksSteps
variable {s t : HordStream} {wc : Completion} {k : IdKind}

theorem Books.pop (h : Books s) {rest : List Completion} (hcq : s.conn.cq = wc :: rest)
    (hf : IdFacts s.geo wc.wrId k) : BooksBut (s.setCq rest) k := by
  have hsq : ∀ p, s.conn.sqCount p = (s.setCq rest).conn.sqCount p + (p wc.wrId).toNat :=
    sqCount_cons hcq
  refine ⟨fun slot hs => ?_, fun slot hs => ?_, ?_, ?_, ?_⟩
  · have h1 := h.recv slot hs
    have h2 : s.conn.completed slot = (s.setCq rest).conn.completed slot + _ :=
      completed_cons hcq slot
    rw [hf.recvId slot hs] at h2
    show (s.setCq rest).conn.posted slot + (s.setCq rest).conn.completed slot + s.heldIn slot + _ ≤
      if slot < s.slotCount then 1 else 0
    have h3 : (s.setCq rest).conn.posted slot = s.conn.posted slot := rfl
    unfold HordStream.uses at h1
    omega
  · have h1 := h.send slot hs
    rw [hsq, hf.dataId slot hs, ← Nat.add_assoc] at h1
    exact h1
  · have h1 := h.ctrl
    rw [hsq, hf.ctrlId] at h1
    exact h1
  · have h1 := h.writes
    rw [hsq, hf.write] at h1
    exact h1
  · have h1 := h.imms
    rw [hsq, hf.imm] at h1
    exact h1

/-- Dropping the completion on a stream that is now closed keeps the books. -/
theorem BooksBut.closed (h : BooksBut s k) : Books s.close := by
  have hle : ∀ {a b : Nat}, a ≤ b → Tally s.close a b := fun hab => ⟨hab, fun hc => by cases hc⟩
  refine ⟨fun slot hs => ?_, fun slot hs => hle ?_, hle ?_, hle ?_, hle ?_⟩
  · exact Nat.le_trans (Nat.le_add_right _ _) (h.recv slot hs)
  · exact Nat.le_trans (Nat.le_add_right _ _) (h.send slot hs).1
  · exact Nat.le_trans (Nat.le_add_right _ _) h.ctrl.1
  · exact Nat.le_trans (Nat.le_add_right _ _) h.writes.1
  · exact Nat.le_trans (Nat.le_add_right _ _) h.imms.1

/-- Re-posting the slot of a receive completion settles it. -/
theorem BooksBut.repost {v : Nat} (h : BooksBut s (.recv v)) : Books (s.pushRq (s.geo.slotWr v)) := by
  refine ⟨fun slot hs => ?_, fun slot hs => h.send slot hs, h.ctrl, h.writes, h.imms⟩
  have h1 := h.recv slot hs
  have h2 : (s.pushRq (s.geo.slotWr v)).conn.posted slot = s.conn.posted slot + (v == slot).toNat :=
    posted_push s.conn s.geo v slot
  show (s.pushRq (s.geo.slotWr v)).conn.posted slot + s.conn.completed slot + s.heldIn slot ≤
    if slot < s.slotCount then 1 else 0
  unfold HordStream.uses at h1
  simp only [IdKind.onRecv] at h1
  omega

/-- Holding the message settles it too. -/
theorem BooksBut.hold {v : Nat} (h : BooksBut s (.recv v)) (hv : slotOf wc.wrId = v) :
    Books (s.hold wc) := by
  refine ⟨fun slot hs => ?_, fun slot hs => h.send slot hs, h.ctrl, h.writes, h.imms⟩
  have h1 := h.recv slot hs
  have h2 : (s.hold wc).heldIn slot = s.heldIn slot + (v == slot).toNat := by
    unfold HordStream.heldIn HordStream.hold
    rw [List.countP_append, List.countP_singleton]
    simp only [hv]
    cases v == slot <;> simp
  show s.conn.posted slot + s.conn.completed slot + (s.hold wc).heldIn slot ≤
    if slot < s.slotCount then 1 else 0
  unfold HordStream.uses at h1
  simp only [IdKind.onRecv] at h1
  omega

theorem BooksBut.runt {v : Nat} (h : BooksBut s (.recv v)) : Books s :=
  ⟨fun slot hs => Nat.le_trans (Nat.le_add_right _ _) (h.recv slot hs), h.send, h.ctrl, h.writes,
    h.imms⟩

/-- A send completion gives its slot, or the control lane, back. -/
theorem BooksBut.reclaimed (h : BooksBut s k) (hf : IdFacts s.geo wc.wrId k)
    (hs : isSend wc.wrId = true) : Books (s.reclaimed wc.wrId) := by
  have hc := hf.ctrl hs
  rw [hf.send] at hs
  unfold HordStream.reclaimed
  rw [hc]
  cases k with
  | recv v => cases hs
  | write imm => cases hs
  | ctrl =>
    refine ⟨h.recv, h.send, ?_, h.writes, h.imms⟩
    have h1 := h.ctrl
    have hb := Bool.toNat_le s.ctrlSendBusy
    refine ⟨?_, fun hopen => ?_⟩
    · show s.conn.sqCount (· == ctrlSendWrId s.geo.ctrlSlot) ≤ 0
      have := h1.1
      simp only [IdKind.onCtrl, Bool.toNat_true] at this
      omega
    · show s.conn.sqCount (· == ctrlSendWrId s.geo.ctrlSlot) = 0
      have := h1.2 hopen
      simp only [IdKind.onCtrl, Bool.toNat_true] at this
      omega
  | data v =>
    refine ⟨h.recv, fun slot hslot => ?_, h.ctrl, h.writes, h.imms⟩
    have h1 := h.send slot hslot
    have h2 : (slotOf wc.wrId :: s.sendFree).count slot = s.sendFree.count slot + (v == slot).toNat := by
      rw [hf.slot, List.count_cons]
      simp only [IdKind.slot]
      by_cases hv : v = slot
      · simp [hv]
      · simp [hv]
    have h3 : (slotOf wc.wrId :: s.sendFree).count slot + s.conn.sqCount (· == sendWrId slot) =
        s.sendFree.count slot + s.conn.sqCount (· == sendWrId slot) + (v == slot).toNat := by
      rw [h2]
      omega
    simp only [IdKind.onCtrl, Bool.false_eq_true, if_false]
    show Tally s ((slotOf wc.wrId :: s.sendFree).count slot + s.conn.sqCount (· == sendWrId slot)) _
    rw [h3]
    exact h1

/-- A write completion is counted off. -/
theorem BooksBut.writeDone (h : BooksBut s k) (hf : IdFacts s.geo wc.wrId k)
    (hw : isWrite wc.wrId = true) : Books (s.writeDone wc.wrId) := by
  have himm := hf.imm
  have hw' := hw
  rw [hf.write] at hw'
  simp only [isImmId, hw, Bool.true_and] at himm
  cases k with
  | recv v => cases hw'
  | data v => cases hw'
  | ctrl => cases hw'
  | write imm =>
    have h1 := h.writes
    have h2 := h.imms
    simp only [IdKind.onWrite, Bool.toNat_true, IdKind.onImm] at h1 h2
    refine ⟨h.recv, h.send, h.ctrl, ⟨?_, fun hopen => ?_⟩, ?_⟩
    · have := h1.1
      show s.conn.sqCount _ ≤ s.writesOutstanding - 1
      omega
    · have := h1.2 hopen
      show s.conn.sqCount _ = s.writesOutstanding - 1
      omega
    · show Tally s (s.conn.sqCount isImmId)
        (if isImmWrite wc.wrId then s.immOutstanding - 1 else s.immOutstanding)
      rw [himm]
      cases imm with
      | false => exact h2
      | true =>
        simp only [IdKind.onImm, if_true, Bool.toNat_true] at h2 ⊢
        exact ⟨by have := h2.1; omega, fun hopen => by have := h2.2 hopen; omega⟩

theorem Tally.close {a b : Nat} (h : Tally s a b) : Tally s.close a b :=
  ⟨h.1, fun hc => by cases hc⟩

theorem Books.close (h : Books s) : Books s.close :=
  ⟨h.recv, fun slot hs => (h.send slot hs).close, h.ctrl.close, h.writes.close, h.imms.close⟩

theorem BooksBut.close (h : BooksBut s k) : BooksBut s.close k :=
  ⟨h.recv, fun slot hs => (h.send slot hs).close, h.ctrl.close, h.writes.close, h.imms.close⟩

theorem BooksBut.granted (h : BooksBut s k) (wc : Completion) : BooksBut (s.granted wc) k := { h with }

theorem BooksBut.pushTransfer (h : BooksBut s k) (id : Nat) : BooksBut (s.pushTransfer id) k :=
  { h with }

/-- A receive completion is of kind `recv`. -/
theorem IdFacts.recv_of (hf : IdFacts s.geo wc.wrId k) (hs : isSend wc.wrId = false)
    (hw : isWrite wc.wrId = false) : ∃ v, k = .recv v ∧ slotOf wc.wrId = v := by
  have hslot := hf.slot
  rw [hf.send] at hs
  rw [hf.write] at hw
  cases k with
  | recv v => exact ⟨v, rfl, hslot⟩
  | data v => cases hs
  | ctrl => cases hs
  | write imm => cases hw

theorem IdFacts.recv_of_imm (hf : IdFacts s.geo wc.wrId k) (hwf : Wf s)
    (hwc : WcOk s.geo s.slotCount wc) (hok : wc.isSuccess = true)
    (hop : wc.opcode = .recvRdmaWithImm) : ∃ v, k = .recv v ∧ slotOf wc.wrId = v := by
  cases hwc with
  | recv slot hslot hid =>
    have hk := recvWrId_kind (hwf.slotCount_lt hslot)
    rw [← hid] at hk
    exact hf.recv_of hk.1 hk.2
  | data slot hslot hid h => rw [h hok] at hop; cases hop
  | ctrl hid h => rw [h hok] at hop; cases hop
  | write chunk imm hchunk hid h => rw [h hok] at hop; cases hop

theorem Handled.books {ok : Bool} (hh : Handled s wc ok t) (hwf : Wf s)
    (hwc : WcOk s.geo s.slotCount wc) (hf : IdFacts s.geo wc.wrId k) (hb : BooksBut s k) : Books t := by
  cases hh with
  | imm hop hok =>
    obtain ⟨v, rfl, hv⟩ := hf.recv_of_imm hwf hwc hok hop
    rw [hv]
    exact (hb.pushTransfer wc.immData).repost
  | immLost => exact (hb.pushTransfer wc.immData).closed
  | immFailed => exact hb.closed
  | write _ hw => exact hb.writeDone hf hw
  | writeFailed _ hw => exact (hb.writeDone hf hw).close
  | failed _ hw =>
    split
    · next hs => exact hb.close.reclaimed hf hs
    · exact hb.closed
  | sent _ _ _ hs => exact hb.reclaimed hf hs
  | runt _ hw _ hs =>
    obtain ⟨v, rfl, hv⟩ := hf.recv_of hs hw
    exact hb.runt
  | held _ hw _ hs =>
    obtain ⟨v, rfl, hv⟩ := hf.recv_of hs hw
    exact (hb.granted wc).hold hv
  | credit _ hw _ hs =>
    obtain ⟨v, rfl, hv⟩ := hf.recv_of hs hw
    rw [hv]
    exact (hb.granted wc).repost
  | zero _ hw _ hs =>
    obtain ⟨v, rfl, hv⟩ := hf.recv_of hs hw
    rw [hv]
    exact { (hb.granted wc).repost with }
  | emptyLost => exact (hb.granted wc).closed

/-- The books once one more request is on the send queue, before the counters
    follow. -/
theorem Books.queued (h : Books s) (hopen : s.peerClosed = false) {w : SendWr}
    (hf : IdFacts s.geo w.wrId k) :
    let c := { s.conn with out := s.conn.out ++ [w] }
    (∀ slot < slotLimit, s.sendFree.count slot + c.sqCount (· == sendWrId slot) =
      (if slot < s.geo.sendPool then 1 else 0) + (k.onData slot).toNat) ∧
    c.sqCount (· == ctrlSendWrId s.geo.ctrlSlot) = s.ctrlSendBusy.toNat + k.onCtrl.toNat ∧
    c.sqCount isWrite = s.writesOutstanding + k.onWrite.toNat ∧
    c.sqCount isImmId = s.immOutstanding + k.onImm.toNat := by
  intro c
  have hsq : ∀ p, c.sqCount p = s.conn.sqCount p + (p w.wrId).toNat := sqCount_push s.conn w
  refine ⟨fun slot hs => ?_, ?_, ?_, ?_⟩
  · rw [hsq, hf.dataId slot hs, ← Nat.add_assoc, (h.send slot hs).2 hopen]
  · rw [hsq, hf.ctrlId, h.ctrl.2 hopen]
  · rw [hsq, hf.write, h.writes.2 hopen]
  · rw [hsq, hf.imm, h.imms.2 hopen]

theorem tally_of_eq {a b : Nat} (h : a = b) : Tally s a b := ⟨h.le, fun _ => h⟩

theorem heldIn_cons {msg : ReadyMsg} {rest : List ReadyMsg} (h : s.rxReady = msg :: rest) (slot : Nat) :
    s.heldIn slot = { s with rxReady := rest }.heldIn slot + (msg.slot == slot).toNat := by
  unfold HordStream.heldIn
  rw [h, List.countP_cons]
  cases msg.slot == slot <;> simp

/-- With room on the send queue of an open stream neither write counter is at its maximum. -/
theorem Books.write_lt (h : Books s) (hopen : s.peerClosed = false) (hroom : s.conn.sqUsed < sqLimit) :
    s.writesOutstanding + 1 < 2 ^ 32 ∧ s.immOutstanding + 1 < 2 ^ 32 := by
  have hlt := sqCount_isWrite_lt hroom
  have hle := sqCount_isImmId_le s.conn
  rw [h.writes.2 hopen] at hlt hle
  rw [h.imms.2 hopen] at hle
  omega

/-- Every elementary change keeps the books. -/
theorem Local.books {o : Obs} (hl : Local s o t) (hwf : Wf s) (h : Books s) : Books t := by
  have hctrl := ctrlSendWrId_kind (s.geo.sendSlot_lt s.geo.ctrlSlot_eq.le)
  cases hl with
  | tick => exact { h with }
  | close => exact h.close
  | scribble => exact { h with }
  | stage => exact { h with }
  | post slot rest extra hopen hroom hcred hfree =>
    have hslot : slot < s.geo.sendPool := hwf.free_lt slot (by rw [hfree]; exact List.mem_cons_self ..)
    have hlim := s.geo.sendSlot_lt hslot.le
    have hof : (IdKind.data slot).Of s.geo s.slotCount (sendWrId slot) := ⟨hslot, hlim, rfl⟩
    obtain ⟨h1, h2, h3, h4⟩ := h.queued hopen (w := .send (sendWrId slot) .send (slot * s.geo.msgSize)
      ((envelopeLen + (s.txStage ++ extra).length) % 2 ^ 32)) hof.facts
    refine ⟨h.recv, fun v hv => tally_of_eq ?_, tally_of_eq h2, tally_of_eq h3, tally_of_eq h4⟩
    have hv' := h1 v hv
    rw [hfree, List.count_cons] at hv'
    by_cases he : slot = v
    · simp only [he, beq_self_eq_true, if_true, IdKind.onData, Bool.toNat_true] at hv' ⊢
      omega
    · simp only [IdKind.onData, beq_false_of_ne he, Bool.false_eq_true, if_false, Bool.toNat_false,
        Nat.add_zero] at hv'
      exact hv'
  | lose => exact { h with }
  | ctrl hopen hroom hbusy =>
    have hof : IdKind.ctrl.Of s.geo s.slotCount (ctrlSendWrId s.geo.ctrlSlot) := rfl
    obtain ⟨h1, h2, h3, h4⟩ := h.queued hopen (w := .send (ctrlSendWrId s.geo.ctrlSlot) .send
      (s.geo.ctrlSlot * s.geo.msgSize) envelopeLen) hof.facts
    rw [hbusy] at h2
    exact ⟨h.recv, fun v hv => tally_of_eq (h1 v hv), tally_of_eq h2, tally_of_eq h3, tally_of_eq h4⟩
  | handle _ wc rest _ hcq hh =>
    have hrest : Wf (s.setCq rest) :=
      { hwf with cq := fun v hv => hwf.cq v (by rw [hcq]; exact List.mem_cons_of_mem _ hv) }
    have hwc := hwf.cq wc (by rw [hcq]; exact List.mem_cons_self ..)
    obtain ⟨k, hk⟩ := hwc.kind hwf
    exact hh.books hrest hwc hk.facts (h.pop hcq hk.facts)
  | take msg rest k hready hk =>
    refine { h with recv := fun slot hs => ?_ }
    have h1 := h.recv slot hs
    have h2 : { s with rxReady := { msg with start := msg.start + k } :: rest }.heldIn slot =
        s.heldIn slot := by
      rw [heldIn_cons hready, heldIn_cons (s := { s with rxReady := _ :: rest }) rfl]
    show s.conn.posted slot + s.conn.completed slot + _ ≤ _
    rw [h2]
    exact h1
  | finish msg rest hready =>
    have hbut : BooksBut { s with rxReady := rest } (.recv msg.slot) := by
      refine ⟨fun slot hs => ?_, h.send, h.ctrl, h.writes, h.imms⟩
      have h1 := h.recv slot hs
      unfold HordStream.uses at h1
      rw [heldIn_cons hready] at h1
      show s.conn.posted slot + s.conn.completed slot + _ + _ ≤ if slot < s.slotCount then 1 else 0
      simp only [IdKind.onRecv]
      omega
    exact { hbut.repost with }
  | finishLost msg rest hready =>
    refine Books.close { h with recv := fun slot hs => ?_ }
    have h1 := h.recv slot hs
    unfold HordStream.uses at h1
    rw [heldIn_cons hready] at h1
    show s.conn.posted slot + s.conn.completed slot + _ ≤ if slot < s.slotCount then 1 else 0
    omega
  | write chunk sges addr rkey imm hchunk hopen hroom =>
    have hof : (IdKind.write imm.isSome).Of s.geo s.slotCount
        (if imm.isSome then immWriteWrId chunk else writeWrId chunk) :=
      ⟨chunk, s.geo.sendSlot_lt hchunk.le, rfl⟩
    obtain ⟨h1, h2, h3, h4⟩ := h.queued hopen
      (w := .write (if imm.isSome then immWriteWrId chunk else writeWrId chunk) sges addr rkey imm)
      hof.facts
    obtain ⟨hwrites, himms⟩ := h.write_lt hopen hroom
    refine ⟨h.recv, fun v hv => tally_of_eq (h1 v hv), tally_of_eq h2, tally_of_eq ?_, tally_of_eq ?_⟩
    · rw [h3]
      exact (Nat.mod_eq_of_lt hwrites).symm
    · rw [h4]
      cases imm with
      | none => rfl
      | some id => exact (Nat.mod_eq_of_lt himms).symm
  | transfer => exact { h with }
  | cm => exact { h with }
  | link => exact { h with }

theorem Handled.geo {ok : Bool} (hh : Handled s wc ok t) : t.geo = s.geo :=
  hh.unseen ⟨fun _ => rfl, fun _ _ => rfl, fun _ _ _ _ _ => rfl, fun _ _ _ _ _ => rfl⟩

theorem Local.geo {o : Obs} (hl : Local s o t) : t.geo = s.geo := by
  cases hl with
  | handle _ _ _ _ _ hh => exact hh.geo
  | _ => rfl

/-- A closed stream stays closed. -/
theorem Local.stays_closed {o : Obs} (hl : Local s o t) (h : s.peerClosed = true) :
    t.peerClosed = true := by
  cases hl with
  | handle _ wc rest ok hcq hh =>
    have h' : (s.setCq rest).peerClosed = true := h
    cases hh with
    | failed =>
      unfold HordStream.reclaimed
      split
      · split <;> rfl
      · rfl
    | sent =>
      unfold HordStream.reclaimed
      split
      · exact h'
      · exact h'
    | immLost => rfl
    | immFailed => rfl
    | writeFailed => rfl
    | emptyLost => rfl
    | _ => exact h'
  | close => rfl
  | finishLost => rfl
  | _ => exact h

/-! Slots that cannot leak: only a runt, or a change that closes the stream, loses
    one. -/

/-- The completion of a message too short to hold an envelope. -/
structure IsRunt (wc : Completion) : Prop where
  opcode : wc.opcode ≠ .recvRdmaWithImm
  success : wc.isSuccess = true
  send : isSend wc.wrId = false
  write : isWrite wc.wrId = false
  short : wc.byteLen < envelopeLen

theorem reclaimed_uses (s : HordStream) (wrId slot : Nat) :
    (s.reclaimed wrId).uses slot = s.uses slot := by
  unfold HordStream.reclaimed
  split <;> rfl

theorem pushRq_uses (s : HordStream) (v slot : Nat) :
    (s.pushRq (s.geo.slotWr v)).uses slot = s.uses slot + (v == slot).toNat := by
  have h : (s.pushRq (s.geo.slotWr v)).conn.posted slot = s.conn.posted slot + (v == slot).toNat :=
    posted_push s.conn s.geo v slot
  show (s.pushRq (s.geo.slotWr v)).conn.posted slot + s.conn.completed slot + s.heldIn slot = _
  unfold HordStream.uses
  omega

theorem Handled.slotCount {ok : Bool} (hh : Handled s wc ok t) : t.slotCount = s.slotCount :=
  hh.unseen ⟨fun _ => rfl, fun _ _ => rfl, fun _ _ _ _ _ => rfl, fun _ _ _ _ _ => rfl⟩

theorem Local.slotCount {o : Obs} (hl : Local s o t) : t.slotCount = s.slotCount := by
  cases hl with
  | handle _ _ _ _ _ hh => exact hh.slotCount
  | _ => rfl

/-- A handled completion's slot is put somewhere, unless the stream is closed or
    the message was a runt. -/
theorem Handled.uses {ok : Bool} (hh : Handled s wc ok t) (hwf : Wf s)
    (hwc : WcOk s.geo s.slotCount wc) (hf : IdFacts s.geo wc.wrId k) :
    t.peerClosed = true ∨ IsRunt wc ∨ ∀ slot, t.uses slot = s.uses slot + (k.onRecv slot).toNat := by
  have henv := s.geo.envelope_lt
  cases hh with
  | imm hop hok =>
    obtain ⟨v, rfl, hv⟩ := hf.recv_of_imm hwf hwc hok hop
    rw [hv]
    exact .inr (.inr (pushRq_uses (s.pushTransfer wc.immData) v))
  | immLost => exact .inl rfl
  | immFailed => exact .inl rfl
  | write _ hw =>
    refine .inr (.inr fun slot => ?_)
    rw [hf.write] at hw
    cases k with
    | write imm => rfl
    | _ => cases hw
  | writeFailed => exact .inl rfl
  | failed =>
    refine .inl ?_
    unfold HordStream.reclaimed
    split
    · split <;> rfl
    · rfl
  | sent _ _ _ hs =>
    refine .inr (.inr fun slot => ?_)
    rw [reclaimed_uses]
    rw [hf.send] at hs
    cases k with
    | data v => rfl
    | ctrl => rfl
    | _ => cases hs
  | runt hop hw hok hs hn => exact .inr (.inl ⟨hop, hok, hs, hw, by omega⟩)
  | held _ hw _ hs =>
    obtain ⟨v, rfl, hv⟩ := hf.recv_of hs hw
    refine .inr (.inr fun slot => ?_)
    show s.conn.posted slot + s.conn.completed slot + ((s.granted wc).hold wc).heldIn slot = _
    have h2 : ((s.granted wc).hold wc).heldIn slot = s.heldIn slot + (v == slot).toNat := by
      unfold HordStream.heldIn HordStream.hold
      rw [List.countP_append, List.countP_singleton]
      simp only [hv]
      show s.rxReady.countP _ + _ = s.rxReady.countP _ + _
      cases v == slot <;> simp
    rw [h2]
    unfold HordStream.uses
    simp only [IdKind.onRecv]
    omega
  | credit _ hw _ hs =>
    obtain ⟨v, rfl, hv⟩ := hf.recv_of hs hw
    rw [hv]
    exact .inr (.inr (pushRq_uses (s.granted wc) v))
  | zero _ hw _ hs =>
    obtain ⟨v, rfl, hv⟩ := hf.recv_of hs hw
    rw [hv]
    exact .inr (.inr (pushRq_uses (s.granted wc) v))
  | emptyLost => exact .inl rfl

theorem Local.full {o : Obs} (hl : Local s o t) (hwf : Wf s) (h : SlotsFull s) :
    t.peerClosed = true ∨ (∃ wc, o = .handled wc ∧ IsRunt wc) ∨ SlotsFull t := by
  have hcount := hl.slotCount
  unfold SlotsFull
  rw [hcount]
  cases hl with
  | close => exact .inl rfl
  | finishLost => exact .inl rfl
  | take msg rest k hready hk =>
    refine .inr (.inr fun slot hs => ?_)
    have h1 := h slot hs
    unfold HordStream.uses at h1
    rw [heldIn_cons hready] at h1
    show s.conn.posted slot + s.conn.completed slot + _ = 1
    rw [heldIn_cons (s := { s with rxReady := _ :: rest }) rfl]
    exact h1
  | finish msg rest hready =>
    refine .inr (.inr fun slot hs => ?_)
    have h1 := h slot hs
    unfold HordStream.uses at h1
    rw [heldIn_cons hready] at h1
    have h2 := pushRq_uses { s with rxReady := rest } msg.slot slot
    show ({ s with rxReady := rest }.pushRq (s.geo.slotWr msg.slot)).uses slot = 1
    rw [h2]
    show s.conn.posted slot + s.conn.completed slot + _ + _ = 1
    omega
  | handle _ wc rest ok hcq hh =>
    have hrest : Wf (s.setCq rest) :=
      { hwf with cq := fun v hv => hwf.cq v (by rw [hcq]; exact List.mem_cons_of_mem _ hv) }
    have hwc := hwf.cq wc (by rw [hcq]; exact List.mem_cons_self ..)
    obtain ⟨k, hk⟩ := hwc.kind hwf
    rcases hh.uses hrest hwc hk.facts with hc | hr | hu
    · exact .inl hc
    · exact .inr (.inl ⟨wc, rfl, hr⟩)
    · refine .inr (.inr fun slot hs => ?_)
      have h1 := h slot hs
      have h2 : s.conn.completed slot = (s.setCq rest).conn.completed slot + _ :=
        completed_cons hcq slot
      rw [hk.facts.recvId slot (hwf.slotCount_lt hs)] at h2
      rw [hu slot]
      show s.conn.posted slot + (s.setCq rest).conn.completed slot + s.heldIn slot + _ = 1
      unfold HordStream.uses at h1
      omega
  | _ => exact .inr (.inr h)

end BooksSteps

end Hord
