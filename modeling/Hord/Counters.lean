import Hord.Accounts
import Hord.Drained
import Hord.Traffic

/- The stream's arithmetic with overflow checks on. The functions below are those of
   `stream.rs` once more, each counter and offset computed in its own type: an operation
   that leaves it panics, as it does in a build with overflow checks, where a build
   without them wraps. A call that does the same with and without the checks has computed
   every one of them within its type (`Act.checked_eq_iff`).

   Correspondence (Rust ↔ Lean):
     `grant_pending += 1`, `writes_outstanding += 1`, `imm_outstanding += 1` ↔ `add 32`
     `send_credits -= 1`, `grant_pending -= grant`, `end - start`,
     `n - ENVELOPE_LEN`, `cap - tx_stage.len()`, `slot - split_base`         ↔ `sub`
     `slot * msg_size`                                                       ↔ `mul 64`
     `off + ENVELOPE_LEN`, `start + plen`, `start + take`                    ↔ `add 64`
   Saturating operations, which no check applies to, are as in the stream. -/
namespace Hord

open Region Prog Transition

namespace Checked

def add (w a b : Nat) : M Nat :=
  if a + b < 2 ^ w then return a + b else throw (.panic "attempt to add with overflow")

def sub (a b : Nat) : M Nat :=
  if b ≤ a then return a - b else throw (.panic "attempt to subtract with overflow")

def mul (w a b : Nat) : M Nat :=
  if a * b < 2 ^ w then return a * b else throw (.panic "attempt to multiply with overflow")

def recvSlot (slot : Nat) : M (Mr × Nat) := do
  let s ← get
  if slot < s.geo.splitBase then
    let off ← mul 64 slot s.geo.msgSize
    return (.recv, off)
  else if s.splitRecv.isSome then
    let i ← sub slot s.geo.splitBase
    let off ← mul 64 i s.geo.msgSize
    return (.splitRecv, off)
  else throw (.panic "recv on a split slot with no split MR registered")

def postRecvSlot (slot : Nat) : M Unit := do
  let (mr, off) ← recvSlot slot
  let s ← get
  match ← attempt (dev (Connection.postRecv ⟨recvWrId slot, mr, off, s.geo.msgSize % 2 ^ 32⟩)) with
  | .ok () => return ()
  | .error e =>
    markClosed
    throw (.io e)

/-- `grant_pending += 1`. -/
def owe : M Unit := do
  let s ← get
  let owed ← add 32 s.grantPending 1
  modify fun s => { s with grantPending := owed }

/-- `grant_pending -= grant`. -/
def unowe (grant : Nat) : M Unit := do
  let s ← get
  let owed ← sub s.grantPending grant
  modify fun s => { s with grantPending := owed }

/-- The receive branch of `handle_completion`. -/
def handleRecv (wc : Completion) : M Unit := do
  let slot := slotOf wc.wrId
  let (mr, off) ← recvSlot slot
  let s ← get
  let n := min wc.byteLen s.geo.msgSize
  if n < envelopeLen then
    ioErr .invalidData s!"runt message: {n} bytes < envelope header"
  else
    let hdr ← copyOut (s.region mr) off envelopeLen
    let env := Envelope.decode hdr
    modify fun s => { s with sendCredits := min (s.sendCredits + env.credits.toNat) u32Max }
    let avail ← sub n envelopeLen
    let plen := if env.isCreditOnly then 0 else min env.length.toNat avail
    if 0 < plen then
      let start ← add 64 off envelopeLen
      let stop ← add 64 start plen
      modify fun s => { s with rxReady := s.rxReady ++ [⟨slot, start, stop⟩] }
    else if env.isCreditOnly then
      postRecvSlot slot
    else
      postRecvSlot slot
      owe

def handleCompletion (wc : Completion) : M Unit :=
  if wc.opcode = .recvRdmaWithImm then
    if !wc.isSuccess then markClosed
    else do
      modify fun s => { s with completedTransfers := s.completedTransfers ++ [wc.immData] }
      postRecvSlot (slotOf wc.wrId)
  else if isWrite wc.wrId then do
    modify fun s => { s with writesOutstanding := s.writesOutstanding - 1 }
    if isImmWrite wc.wrId then
      modify fun s => { s with immOutstanding := s.immOutstanding - 1 }
    if !wc.isSuccess then markClosed
  else if !wc.isSuccess then do
    markClosed
    if isSend wc.wrId then reclaimSend wc.wrId
  else if isSend wc.wrId then reclaimSend wc.wrId
  else handleRecv wc

def pumpOnce : M Bool := do
  match ← dev Connection.poll with
  | some wc =>
    handleCompletion wc
    return true
  | none => return false

def postInto (slot wrId : Nat) (env : Envelope) (payload : Bytes) : M Unit := do
  let s ← get
  let off ← mul 64 slot s.geo.msgSize
  let b ← copyIn s.send off env.encode
  modify fun s => { s with send := b }
  let body ← add 64 off envelopeLen
  let b ← copyIn b body payload
  modify fun s => { s with send := b }
  dev (Connection.postSend (.send wrId .send off ((envelopeLen + payload.length) % 2 ^ 32)))

def postDataMessage (payload : Bytes) : M Unit := do
  let s ← get
  match s.sendFree with
  | [] => throw (.panic "called `Option::unwrap()` on a `None` value")
  | slot :: rest =>
    set { s with sendFree := rest }
    let env : Envelope := ⟨UInt32.ofNat payload.length, UInt16.ofNat s.grant, 0⟩
    match ← attempt (postInto slot (sendWrId slot) env payload) with
    | .ok () =>
      let t ← get
      let credits ← sub t.sendCredits 1
      modify fun t => { t with sendCredits := credits }
      unowe s.grant
    | .error e =>
      modify fun t => { t with sendFree := slot :: t.sendFree, peerClosed := true }
      throw (.io e)

def sendCreditReturn : M Unit := do
  let s ← get
  if s.ctrlSendBusy ∨ s.peerClosed ∨ s.grantPending = 0 then return ()
  else
    let env : Envelope := ⟨0, UInt16.ofNat s.grant, creditOnly⟩
    match ← attempt (postInto s.geo.ctrlSlot (ctrlSendWrId s.geo.ctrlSlot) env []) with
    | .ok () =>
      modify fun t => { t with ctrlSendBusy := true }
      unowe s.grant
    | .error e =>
      markClosed
      throw (.io e)

def maybeReturnCredits (threshold : Nat) : M Unit := do
  let s ← get
  if threshold ≤ s.grantPending then sendCreditReturn

def returnOwedCredits (urgent : Bool) : M Unit := do
  let s ← get
  maybeReturnCredits (if urgent then 1 else s.proactiveThreshold)

def sendWhole (cap : Nat) : Nat → Bytes → Nat → M Nat
  | 0, _, consumed => return consumed
  | fuel + 1, input, consumed => do
    if cap ≤ input.length then
      if !(← get).canSendData then
        maybeReturnCredits 1
        return consumed
      else
        postDataMessage (input.take cap)
        sendWhole cap fuel (input.drop cap) (consumed + cap)
    else
      modify fun s => { s with txStage := s.txStage ++ input }
      return consumed + input.length

def tryWrite (buf : Bytes) : M Nat := do
  let s ← get
  if s.peerClosed then ioErr .brokenPipe "connection closed"
  else
    let cap := s.payloadCap
    if s.txStage.isEmpty then sendWhole cap (buf.length + 1) buf 0
    else
      let need ← sub cap s.txStage.length
      let take := min need buf.length
      if take < need then
        modify fun s => { s with txStage := s.txStage ++ buf }
        return buf.length
      else if !s.canSendData then
        maybeReturnCredits 1
        return 0
      else
        modify fun s => { s with txStage := [] }
        postDataMessage (s.txStage ++ buf.take take)
        sendWhole cap (buf.length + 1) (buf.drop take) take

def tryFlushStage : M Bool := do
  let s ← get
  if s.txStage.isEmpty then return true
  else if !s.canSendData then
    maybeReturnCredits 1
    return false
  else
    modify fun s => { s with txStage := [] }
    postDataMessage s.txStage
    return true

def drainReady : Nat → Nat → Bytes → M Bytes
  | 0, _, acc => return acc
  | fuel + 1, want, acc => do
    if want = 0 then return acc
    else
      let s ← get
      match s.rxReady with
      | [] => return acc
      | msg :: rest =>
        let held ← sub msg.stop msg.start
        let take := min held want
        let (mr, _) ← recvSlot msg.slot
        let bs ← copyOut (s.region mr) msg.start take
        let start ← add 64 msg.start take
        if start = msg.stop then
          modify fun s => { s with rxReady := rest }
          postRecvSlot msg.slot
          owe
          drainReady fuel (want - take) (acc ++ bs)
        else
          modify fun s => { s with rxReady := { msg with start := start } :: rest }
          drainReady fuel (want - take) (acc ++ bs)

def tryRead (n : Nat) : M (Option Bytes) := do
  let s ← get
  if n = 0 then return some []
  else if s.rxReady.isEmpty then
    return if s.peerClosed then some [] else none
  else
    let bs ← drainReady (s.rxReady.length + 1) n []
    maybeReturnCredits s.proactiveThreshold
    return some bs

/-- `writes_outstanding += 1`, and `imm_outstanding += 1` for a request with an immediate. -/
def countWrite (imm : Bool) : M Unit := do
  let s ← get
  let writes ← add 32 s.writesOutstanding 1
  modify fun s => { s with writesOutstanding := writes }
  if imm then
    let imms ← add 32 s.immOutstanding 1
    modify fun s => { s with immOutstanding := imms }

def postWrite (nWrs peerAddr peerRkey : Nat) (imm : Option Nat) (remoteOff : Nat)
    (sges : List Sge) : StateT Nat M Unit := fun idx => do
  let immHere := if idx = nWrs - 1 then imm else none
  let wrId := if immHere.isSome then immWriteWrId idx else writeWrId idx
  dev (Connection.postWriteGather wrId sges ((peerAddr + remoteOff) % 2 ^ 64) peerRkey immHere)
  countWrite immHere.isSome
  return ((), idx + 1)

def beginRdmaWriteGatherInner (segments : List WriteSegment) (peerAddr peerRkey : Nat)
    (imm : Option Nat) : M Unit := do
  let s ← get
  if s.peerClosed then ioErr .brokenPipe "connection closed"
  else
    let maxSge := s.conn.maxSendSge
    let nDataWrs ← planGather segments maxSge fun _ _ => (pure () : M Unit)
    let nWrs := if nDataWrs = 0 ∧ imm.isSome then 1 else nDataWrs
    if nWrs = 0 then return ()
    else
      checkWriteCapacity nWrs imm.isSome
      if nDataWrs = 0 then
        match ← attempt (dev (Connection.postWriteGather (immWriteWrId 0) [] peerAddr peerRkey imm)) with
        | .ok () => countWrite true
        | .error e =>
          markClosed
          throw (.io e)
      else
        match ← attempt ((planGather segments maxSge (postWrite nWrs peerAddr peerRkey imm)).run' 0) with
        | .ok _ => return ()
        | .error e =>
          markClosed
          throw (.io e)

end Checked

/-- A call with overflow checks on. -/
def Act.checked : Act → M Res
  | .tryWrite buf => do return .count (← Checked.tryWrite buf)
  | .tryFlushStage => do return .flag (← Checked.tryFlushStage)
  | .tryRead n => do return .bytes (← Checked.tryRead n)
  | .returnOwedCredits urgent => do
    Checked.returnOwedCredits urgent
    return .unit
  | .pump => do return .flag (← Checked.pumpOnce)
  | .beginWrite segments peerAddr peerRkey imm => do
    Checked.beginRdmaWriteGatherInner segments peerAddr peerRkey imm
    return .unit
  | a => a.run

/-! When the credits owed stay within their type. -/

/-- The completion reports a data message without payload. -/
def HordStream.emptyData (s : HordStream) (wc : Completion) : Bool :=
  wc.isSuccess && wc.opcode != .recvRdmaWithImm && !isWrite wc.wrId && !isSend wc.wrId &&
    decide (envelopeLen ≤ min wc.byteLen s.geo.msgSize) &&
    !(s.envelopeAt (slotOf wc.wrId)).isCreditOnly && s.payloadLen wc == 0

/-- A data message without payload is not handled with the owed credits at their maximum;
    the device takes the poll and the re-post before they are counted. -/
def HordStream.PumpRoom (s : HordStream) : Prop :=
  s.conn.takes 2 = true → ∀ wc ∈ s.conn.cq.head?, s.emptyData wc = true → s.grantPending < u32Max

/-- The messages a read of `n` bytes uses up and the credits owed already stay within the
    maximum; the device takes every re-post up to the first one too many. -/
def HordStream.ReadRoom (s : HordStream) (n : Nat) : Prop :=
  s.conn.takes (u32Max + 1 - s.grantPending) = true → s.grantPending + usedUp n s.rxReady ≤ u32Max

def Act.Room (s : HordStream) : Act → Prop
  | .pump => s.PumpRoom
  | .tryRead n => s.ReadRoom n
  | _ => True

/-! Operations that stay within their types. -/

namespace Checked

section Primitives
variable {s : HordStream} {w a b : Nat}

theorem attempt_agree {α : Type} {x y : M α} (h : x s = y s) : attempt x s = attempt y s := by
  unfold attempt
  rw [h]

theorem add_eq (h : a + b < 2 ^ w) : add w a b = pure (a + b) := if_pos h

theorem sub_eq (h : b ≤ a) : sub a b = pure (a - b) := if_pos h

theorem mul_eq (h : a * b < 2 ^ w) : mul w a b = pure (a * b) := if_pos h

/-- No region is longer than an allocation can be. -/
theorem region_lt (hwf : Wf s) (mr : Mr) (hmr : mr ≠ .handshake) : (s.region mr).length < 2 ^ 57 := by
  have hr := s.geo.recv_fits
  have hs := s.geo.send_fits
  unfold allocMax at hr hs
  cases mr with
  | recv =>
    have := hwf.recv_len
    simp only [HordStream.region]
    omega
  | send =>
    have := hwf.send_len
    simp only [HordStream.region]
    omega
  | splitRecv =>
    cases hsp : s.splitRecv with
    | none => simp [HordStream.region, hsp]
    | some b =>
      have := (hwf.split_len b hsp).2
      unfold allocMax at this
      simp only [HordStream.region, hsp, Option.getD_some]
      omega
  | handshake => exact absurd rfl hmr

/-- The offset of a receive slot, and what lies behind it in the slot. -/
theorem slot_lt (hwf : Wf s) {slot : Nat} (hs : slot < s.slotCount) :
    (s.geo.place slot).2 + s.geo.msgSize < 2 ^ 57 := by
  have hin := hwf.slot_in hs
  have hmr : (s.geo.place slot).1 ≠ .handshake := by
    unfold Geometry.place
    split <;> simp
  have := region_lt hwf _ hmr
  omega

theorem recvSlot_eq (hwf : Wf s) {slot : Nat} (hs : slot < s.slotCount) :
    recvSlot slot s = Hord.recvSlot slot s := by
  have hlt := slot_lt hwf hs
  have hplain : Hord.recvSlot slot s = .ok (s.geo.place slot) s := by
    show (if _ then _ else _ : M (Mr × Nat)) s = _
    rw [if_pos (slot_resolves hs)]
    rfl
  rw [hplain]
  unfold Geometry.place at hlt ⊢
  show (if _ then _ else _ : M (Mr × Nat)) s = _
  by_cases hbase : slot < s.geo.splitBase
  · rw [if_pos hbase] at hlt
    rw [if_pos hbase, if_pos hbase, mul_eq (by simp only at hlt; omega)]
    rfl
  · have hsplit : s.splitRecv.isSome = true := (slot_resolves hs).resolve_left hbase
    rw [if_neg hbase] at hlt
    rw [if_neg hbase, if_neg hbase, if_pos hsplit, sub_eq (by omega), pure_bind,
      mul_eq (by simp only at hlt; omega)]
    rfl

theorem postRecvSlot_eq (hwf : Wf s) {slot : Nat} (hs : slot < s.slotCount) :
    postRecvSlot slot s = Hord.postRecvSlot slot s := by
  refine bind_agree (recvSlot_eq hwf hs) (recvSlot_wp hs ?_)
  rintro _ ⟨⟩
  rfl

theorem postInto_eq (hwf : Wf s) {slot : Nat} (hs : slot ≤ s.geo.sendPool) (wrId : Nat) (env : Envelope)
    (payload : Bytes) : postInto slot wrId env payload s = Hord.postInto slot wrId env payload s := by
  have hin := hwf.sendSlot_in hs
  have hlt := region_lt hwf .send (by simp)
  have he := s.geo.envelope_lt
  simp only [HordStream.region] at hlt
  show (mul 64 slot s.geo.msgSize >>= _) s = _
  rw [mul_eq (by omega), pure_bind]
  show _ = (copyIn s.send (slot * s.geo.msgSize) env.encode >>= _) s
  refine bind_agree rfl (wp_mono (wp_true _ s) fun r t _ b _ => ?_)
  show (add 64 (slot * s.geo.msgSize) envelopeLen >>= _) { t with send := b } = _
  rw [add_eq (by omega), pure_bind]
  rfl

end Primitives

/-! Sending. -/

section Sending
variable {s : HordStream}

theorem unowe_eq {t : HordStream} {grant : Nat} (h : grant ≤ t.grantPending) :
    unowe grant t = .ok () { t with grantPending := t.grantPending - grant } := by
  show (sub t.grantPending grant >>= _) t = _
  rw [sub_eq h]
  rfl

theorem grant_le : s.grant ≤ s.grantPending := Nat.min_le_left _ _

/-- A data message is posted on a free slot and a credit. -/
theorem postDataMessage_eq (hwf : Wf s) (hcan : s.canSendData = true) {payload : Bytes}
    (hcap : payload.length ≤ s.payloadCap) :
    postDataMessage payload s = Hord.postDataMessage payload s := by
  obtain ⟨-, hfree, hcred⟩ := canSendData_iff.mp hcan
  obtain ⟨slot, rest, hsf⟩ := List.exists_cons_of_ne_nil hfree
  have hslot : slot ≤ s.geo.sendPool :=
    (hwf.free_lt slot (by rw [hsf]; exact List.mem_cons_self ..)).le
  have hin := hwf.sendSlot_in hslot
  have hfit : envelopeLen + payload.length ≤ s.geo.msgSize := by
    have := hwf.cap_fits
    omega
  have hwf' : Wf { s with sendFree := rest } :=
    { hwf with free_lt := fun v hv => hwf.free_lt v (by rw [hsf]; exact List.mem_cons_of_mem _ hv) }
  have hgrant := grant_le (s := s)
  refine get_agree ?_
  simp only [hsf]
  have hpost := postInto_eq hwf' hslot (sendWrId slot)
    ⟨UInt32.ofNat payload.length, UInt16.ofNat s.grant, 0⟩ payload
  refine bind_agree (s := { s with sendFree := rest }) (attempt_agree hpost) ?_
  rw [attempt_wp]
  refine postInto_wp (s := { s with sendFree := rest }) hin hfit (fun fs _ => ?_) (fun fs e => ?_)
  · rintro _ ⟨⟩
    show (sub s.sendCredits 1 >>= _) _ = _
    rw [sub_eq hcred, pure_bind]
    exact unowe_eq hgrant
  · rintro _ ⟨⟩
    rfl

theorem sendCreditReturn_eq (hwf : Wf s) : sendCreditReturn s = Hord.sendCreditReturn s := by
  have hslot := s.geo.ctrlSlot_eq.le
  have hin := hwf.sendSlot_in hslot
  have hfit : envelopeLen + ([] : Bytes).length ≤ s.geo.msgSize := by
    have := s.geo.envelope_lt
    simpa using this.le
  have hgrant := grant_le (s := s)
  refine ite_agree (fun _ => rfl) fun _ => ?_
  have hpost := postInto_eq hwf hslot (ctrlSendWrId s.geo.ctrlSlot) ⟨0, UInt16.ofNat s.grant, creditOnly⟩ []
  refine bind_agree (attempt_agree hpost) ?_
  rw [attempt_wp]
  refine postInto_wp hin hfit (fun fs _ => ?_) (fun fs e => ?_)
  · rintro _ ⟨⟩
    exact unowe_eq hgrant
  · rintro _ ⟨⟩
    rfl

theorem maybeReturnCredits_eq (hwf : Wf s) (threshold : Nat) :
    maybeReturnCredits threshold s = Hord.maybeReturnCredits threshold s :=
  ite_agree (fun _ => sendCreditReturn_eq hwf) fun _ => rfl

theorem returnOwedCredits_eq (hwf : Wf s) (urgent : Bool) :
    returnOwedCredits urgent s = Hord.returnOwedCredits urgent s :=
  maybeReturnCredits_eq hwf _

/-- Returning credits, then returning. -/
theorem return_agree {α : Type} (hwf : Wf s) (a : α) :
    (maybeReturnCredits 1 >>= fun _ => (pure a : M α)) s = (Hord.maybeReturnCredits 1 >>= fun _ => pure a) s := by
  refine bind_agree (maybeReturnCredits_eq hwf 1) (wp_mono (wp_true _ s) ?_)
  intro r t _ _ _
  rfl

theorem sendWhole_eq {cap : Nat} (fuel : Nat) (input : Bytes) (consumed : Nat) (hwf : Wf s)
    (hcap : cap = s.payloadCap) (hstage : s.txStage = []) :
    sendWhole cap fuel input consumed s = Hord.sendWhole cap fuel input consumed s := by
  induction fuel generalizing s input consumed with
  | zero => rfl
  | succ fuel ih =>
    refine ite_agree (fun hge => ?_) fun _ => rfl
    refine ite_agree (x := maybeReturnCredits 1 >>= _) (fun _ => return_agree hwf _) fun hcan => ?_
    have hcan' : s.canSendData = true := by simpa using hcan
    have hlen : (input.take cap).length ≤ s.payloadCap := by simp [hcap]
    refine bind_agree (postDataMessage_eq hwf hcan' hlen) ?_
    refine wp_mono (postWhole_wp hwf hcap hstage hcan' hge) ?_
    intro r t hr a ha
    subst ha
    obtain ⟨hc, hst, hcp⟩ := hr
    exact ih _ _ (hc.wf hwf) (hcap.trans hcp.symm) hst

theorem tryWrite_eq (buf : Bytes) (hwf : Wf s) : tryWrite buf s = Hord.tryWrite buf s := by
  have hlt := hwf.stage_lt
  refine ite_agree (fun _ => rfl) fun _ => ?_
  refine ite_agree (fun hstage => ?_) fun hstage => ?_
  · exact sendWhole_eq _ _ _ hwf rfl (List.isEmpty_iff.mp hstage)
  · have hne : s.txStage ≠ [] := fun h => hstage (by rw [h]; rfl)
    show (sub s.payloadCap s.txStage.length >>= _) s = _
    rw [sub_eq hlt.le, pure_bind]
    refine ite_agree (fun _ => rfl) fun hfull => ?_
    refine ite_agree (x := maybeReturnCredits 1 >>= _) (fun _ => return_agree hwf _) fun hcan => ?_
    -- the stage is filled and leaves as one message
    have hcan' : s.canSendData = true := by simpa using hcan
    have htake : min (s.payloadCap - s.txStage.length) buf.length = s.payloadCap - s.txStage.length := by
      omega
    have hcap : (s.txStage ++ buf.take (s.payloadCap - s.txStage.length)).length ≤ s.payloadCap := by
      rw [List.length_append, List.length_take]
      omega
    have hwf' : Wf { s with txStage := [] } := { hwf with stage_lt := hwf.cap_pos }
    have hcan'' : HordStream.canSendData { s with txStage := [] } = true := hcan'
    rw [htake]
    refine bind_agree (s := { s with txStage := [] }) (postDataMessage_eq hwf' hcan'' hcap) ?_
    refine wp_mono (postDataMessage_wp hwf hcan' _ (fun h => hne (List.append_eq_nil_iff.mp h).1) hcap) ?_
    intro r t hr a ha
    subst ha
    obtain ⟨hc, hst, hcp⟩ := hr
    exact sendWhole_eq _ _ _ (hc.wf hwf) hcp.symm hst

theorem tryFlushStage_eq (hwf : Wf s) : tryFlushStage s = Hord.tryFlushStage s := by
  refine ite_agree (fun _ => rfl) fun _ => ?_
  refine ite_agree (x := maybeReturnCredits 1 >>= _) (fun _ => return_agree hwf _) fun hcan => ?_
  have hcan' : s.canSendData = true := by simpa using hcan
  have hcan'' : HordStream.canSendData { s with txStage := [] } = true := hcan'
  have hwf' : Wf { s with txStage := [] } := { hwf with stage_lt := hwf.cap_pos }
  refine bind_agree (s := { s with txStage := [] })
    (postDataMessage_eq hwf' hcan'' hwf.stage_lt.le) (wp_mono (wp_true _ _) ?_)
  intro r t _ _ _
  rfl

end Sending

/-! One-sided writes. -/

section Writing
variable {s : HordStream}

theorem countWrite_eq {t : HordStream} (imm : Bool) (hwrites : t.writesOutstanding + 1 < 2 ^ 32)
    (himms : t.immOutstanding + 1 < 2 ^ 32) :
    countWrite imm t = .ok () { t with
      writesOutstanding := u32Add t.writesOutstanding 1
      immOutstanding := if imm then u32Add t.immOutstanding 1 else t.immOutstanding } := by
  have hw : u32Add t.writesOutstanding 1 = t.writesOutstanding + 1 := Nat.mod_eq_of_lt hwrites
  have hi : u32Add t.immOutstanding 1 = t.immOutstanding + 1 := Nat.mod_eq_of_lt himms
  show (add 32 t.writesOutstanding 1 >>= _) t = _
  rw [add_eq hwrites, pure_bind, hw, hi]
  cases imm with
  | false => rfl
  | true =>
    show (add 32 t.immOutstanding 1 >>= _) { t with writesOutstanding := t.writesOutstanding + 1 } = _
    rw [add_eq himms]
    rfl

theorem postWrite_eq {n peerAddr peerRkey : Nat} {imm : Option Nat} {idx : Nat} {w : Planned} (hi : Inv s)
    (hw : w.2.length ≤ maxWriteSge ∧ w.2 ≠ []) (hopen : s.peerClosed = false) :
    postWrite n peerAddr peerRkey imm w.1 w.2 idx s = Hord.postWrite n peerAddr peerRkey imm w.1 w.2 idx s := by
  refine bind_agree rfl ?_
  rw [dev_wp]
  refine postWriteGather_wp hw.1 (.inl hw.2) (fun fs hroom => ?_) (fun fs m => ?_)
  · rintro _ ⟨⟩
    obtain ⟨hwrites, himms⟩ := hi.books.write_lt hopen hroom
    generalize (if idx = n - 1 then imm else none) = here
    refine (bind_ok (countWrite_eq here.isSome ?_ ?_)).trans ?_
    · exact hwrites
    · exact himms
    · cases here <;> rfl
  · rintro _ ⟨⟩

/-- Posting a plan from index `idx` on. -/
theorem emitAll_postWrite_eq (n peerAddr peerRkey : Nat) (imm : Option Nat) (ws : List Planned) (idx : Nat)
    (hi : Inv s) (hws : ∀ w ∈ ws, w.2.length ≤ maxWriteSge ∧ w.2 ≠ []) (hopen : s.peerClosed = false)
    (hidx : idx + ws.length ≤ s.geo.sendPool) :
    emitAll (postWrite n peerAddr peerRkey imm) ws idx s =
      emitAll (Hord.postWrite n peerAddr peerRkey imm) ws idx s := by
  induction ws generalizing s idx with
  | nil => rfl
  | cons w ws ih =>
    have hw := hws w (List.mem_cons_self ..)
    have hlen : idx + 1 + ws.length ≤ s.geo.sendPool := by
      rw [List.length_cons] at hidx
      omega
    show (postWrite n peerAddr peerRkey imm w.1 w.2 idx >>= fun p =>
      emitAll (postWrite n peerAddr peerRkey imm) ws p.2) s = _
    refine bind_agree (postWrite_eq hi hw hopen) ?_
    refine wp_mono (postWrite_wp hw hopen (by omega)) ?_
    intro r t hr p hp
    subst hp
    obtain ⟨i, j⟩ := p
    obtain ⟨hc, hj, fs, ht⟩ := hr
    have hinv := hc.reaches.inv hi
    subst ht hj
    exact ih (s := (s.wrote (plannedWr n peerAddr peerRkey imm idx w)).setFaults fs) (idx + 1) hinv
      (fun v hv => hws v (List.mem_cons_of_mem _ hv)) hopen hlen

theorem beginRdmaWriteGatherInner_eq (segments : List WriteSegment) (peerAddr peerRkey : Nat)
    (imm : Option Nat) (hi : Inv s) :
    beginRdmaWriteGatherInner segments peerAddr peerRkey imm s =
      Hord.beginRdmaWriteGatherInner segments peerAddr peerRkey imm s := by
  refine ite_agree (fun _ => rfl) fun hopen => ?_
  have hopen' : s.peerClosed = false := by simpa using hopen
  -- admission bounds the writes by the free slots, and so the counters by the pool
  have hpost := plan_postable segments s.conn.maxSendSge
  have hcap := checkWriteCapacity_wp (writeWrs s.conn.maxSendSge segments peerAddr peerRkey imm) imm hopen'
  have hpool : plannedCount s.conn.maxSendSge segments imm ≤ s.geo.sendPool →
      (plan segments s.conn.maxSendSge).length ≤ s.geo.sendPool := by
    unfold plannedCount
    simp only
    split <;> omega
  rw [writeWrs_length] at hcap
  rw [planGather_count, pure_bind, pure_bind]
  refine ite_agree (fun _ => rfl) fun hsome => ?_
  refine bind_agree rfl (wp_mono hcap ?_)
  intro r t hr _ hok
  subst hok
  obtain ⟨ht, hadm⟩ := hr
  subst ht
  refine ite_agree (fun hnone => ?_) fun _ => ?_
  · -- an immediate and no data
    have himm : imm.isSome = true := by
      by_contra hn
      exact hsome ((if_neg fun h => hn h.2).trans hnone)
    refine bind_agree rfl ?_
    rw [attempt_wp, dev_wp]
    refine postWriteGather_wp (Nat.zero_le _) (.inr himm) (fun fs hroom => ?_) (fun fs m => ?_)
    · rintro _ ⟨⟩
      obtain ⟨hwrites, himms⟩ := hi.books.write_lt hopen' hroom
      exact countWrite_eq true hwrites himms
    · rintro _ ⟨⟩
      rfl
  · have hlen : 0 + (plan segments t.conn.maxSendSge).length ≤ t.geo.sendPool := by
      have := hpool (by rw [← writeWrs_length _ _ peerAddr peerRkey]; exact hadm.pool)
      omega
    rw [planGather_eq, planGather_eq]
    refine bind_agree (attempt_agree (map_agree Prod.fst ?_)) (wp_mono (wp_true _ _) fun r u _ _ _ => rfl)
    refine bind_agree (emitAll_postWrite_eq _ peerAddr peerRkey imm _ 0 hi hpost hopen' hlen) ?_
    exact wp_mono (wp_true _ _) fun r u _ _ _ => rfl

end Writing

/-! Receiving: the only counter without a bound of its own is what is owed to the peer. -/

section Receiving
variable {s : HordStream} {wc : Completion}

/-- A re-post succeeds exactly if the device takes it. -/
theorem postRecvSlot_takes {slot : Nat} (hs : slot < s.slotCount) :
    wp (Hord.postRecvSlot slot) s fun r t =>
      match r with
      | .ok _ => s.conn.takes 1 = true ∧ t = (s.setFaults s.conn.faults.tail).pushRq (s.geo.slotWr slot)
      | .error (.io _) => s.conn.takes 1 = false
      | .error (.panic _) => False := by
  simp only [Hord.postRecvSlot, wp_bind]
  refine recvSlot_wp hs ?_
  simp only [wp_bind, wp_get, attempt_wp, dev_wp]
  refine postRecv_takes (fun htakes => ?_) fun hrefused fs e => ?_
  · exact ⟨htakes, rfl⟩
  · exact hrefused

theorem owe_fits {t : HordStream} (h : t.grantPending < u32Max) : owe t = .ok () t.owe := by
  unfold u32Max at h
  have hlt : t.grantPending + 1 < 2 ^ 32 := by omega
  have hsum : u32Add t.grantPending 1 = t.grantPending + 1 := Nat.mod_eq_of_lt hlt
  show (add 32 t.grantPending 1 >>= _) t = .ok () { t with grantPending := u32Add t.grantPending 1 }
  rw [add_eq hlt, hsum]
  rfl

theorem owe_wp {t : HordStream} {Q : Except Fail Unit → HordStream → Prop}
    (hfits : t.grantPending < u32Max → Q (.ok ()) t.owe)
    (hfull : u32Max ≤ t.grantPending → Q (.error (.panic "attempt to add with overflow")) t) :
    wp owe t Q := by
  by_cases h : t.grantPending < u32Max
  · exact wp_agree (y := fun _ => .ok () t.owe) (owe_fits h) (hfits h)
  · have hge : ¬t.grantPending + 1 < 2 ^ 32 := by
      unfold u32Max at h
      omega
    show wp (add 32 t.grantPending 1 >>= _) t Q
    unfold add
    rw [if_neg hge]
    exact hfull (Nat.not_lt.mp h)

theorem handleRecv_eq (hwf : Wf s) (hslot : slotOf wc.wrId < s.slotCount)
    (hroom : s.conn.takes 1 = true → envelopeLen ≤ min wc.byteLen s.geo.msgSize →
      (s.envelopeAt (slotOf wc.wrId)).isCreditOnly = false → s.payloadLen wc = 0 → s.grantPending < u32Max) :
    handleRecv wc s = Hord.handleRecv wc s := by
  have hin := hwf.slot_in hslot
  have hlt := slot_lt hwf hslot
  have henv := s.geo.envelope_lt
  refine bind_agree (recvSlot_eq hwf hslot) (recvSlot_wp hslot ?_)
  rintro _ ⟨⟩
  dsimp only
  -- past the runt check the subtraction of the envelope is exact
  refine ite_agree (fun _ => rfl) fun hn => ?_
  have hn' : envelopeLen ≤ min wc.byteLen s.geo.msgSize := Nat.le_of_not_lt hn
  refine bind_agree rfl (copyOut_wp (by omega) ?_)
  rintro _ ⟨⟩
  show (sub (min wc.byteLen s.geo.msgSize) envelopeLen >>= _) (s.granted wc) = _
  rw [sub_eq hn', pure_bind]
  refine ite_agree (fun hp => ?_) fun hp => ?_
  · have hle : s.payloadLen wc ≤ s.geo.msgSize := by
      unfold HordStream.payloadLen
      simp only
      split <;> omega
    -- both sums stay within the slot, which lies in the region
    show (add 64 (s.geo.place (slotOf wc.wrId)).2 envelopeLen >>= fun start =>
      add 64 start (s.payloadLen wc) >>= _) (s.granted wc) = _
    rw [add_eq (by omega), pure_bind, add_eq (by omega)]
    rfl
  · refine ite_agree (fun _ => postRecvSlot_eq (hwf.granted wc) hslot) fun hc => ?_
    have hzero : s.payloadLen wc = 0 := Nat.eq_zero_of_not_pos hp
    refine bind_agree (postRecvSlot_eq (hwf.granted wc) hslot) ?_
    refine wp_mono (postRecvSlot_takes (s := s.granted wc) hslot) ?_
    intro r t hr _ hok
    subst hok
    obtain ⟨htakes, ht⟩ := hr
    subst ht
    -- the one addition the code itself does not bound
    exact owe_fits (hroom htakes hn' (eq_false_of_ne_true hc) hzero)

theorem handleCompletion_eq (hwf : Wf s) (hwc : WcOk s.geo s.slotCount wc)
    (hroom : s.conn.takes 1 = true → s.emptyData wc = true → s.grantPending < u32Max) :
    handleCompletion wc s = Hord.handleCompletion wc s := by
  refine ite_agree (fun hop => ?_) fun hop => ?_
  · refine ite_agree (fun _ => rfl) fun hok => ?_
    have hok' : wc.isSuccess = true := by simpa using hok
    have hslot : slotOf wc.wrId < s.slotCount := hwc.imm_slot hwf hok' hop
    exact postRecvSlot_eq (s := s.pushTransfer wc.immData) (hwf.pushTransfer _) hslot
  · refine ite_agree (fun _ => rfl) fun hw => ite_agree (fun _ => rfl) fun hok =>
      ite_agree (fun _ => rfl) fun hs => ?_
    have hw' : isWrite wc.wrId = false := by simpa using hw
    have hs' : isSend wc.wrId = false := by simpa using hs
    have hok' : wc.isSuccess = true := by simpa using hok
    refine handleRecv_eq hwf (hwc.slot hwf hs' hw') fun htakes hn hdata hzero => hroom htakes ?_
    simp [HordStream.emptyData, hok', hop, hw', hs', hn, hdata, hzero]

/-- The oldest completion, if the device answers the poll. -/
theorem poll_head {c : Connection} {Q : Except Fail (Option Completion) → Connection → Prop}
    (hnone : c.cq = [] → Q (.ok none) { c with faults := c.faults.tail })
    (hsome : ∀ wc rest, c.cq = wc :: rest → c.faults.headD false = false →
      Q (.ok (some wc)) { c with faults := c.faults.tail, cq := rest })
    (herr : c.faults.headD false = true → ∀ m, Q (.error (.other m)) { c with faults := c.faults.tail }) :
    wp Connection.poll c Q := by
  simp only [Connection.poll, wp_bind, wp_get]
  refine deviceCall_head (fun hf => ?_) herr
  cases hcq : c.cq with
  | nil =>
    simp only [hcq, forall_const] at hnone ⊢
    exact hnone
  | cons wc rest => exact hsome wc rest hcq hf

theorem pumpOnce_eq (hwf : Wf s) (hroom : s.PumpRoom) : pumpOnce s = Hord.pumpOnce s := by
  refine bind_agree rfl ?_
  rw [dev_wp]
  refine poll_head (fun _ => ?_) (fun wc rest hcq hf => ?_) fun _ m => ?_
  · rintro _ ⟨⟩
    rfl
  · rintro _ ⟨⟩
    have hwf' : Wf ((s.setCq rest).setFaults s.conn.faults.tail) :=
      { hwf with cq := fun v hv => hwf.cq v (by rw [hcq]; exact List.mem_cons_of_mem _ hv) }
    have hwc := hwf.cq wc (by rw [hcq]; exact List.mem_cons_self ..)
    refine bind_agree (s := (s.setCq rest).setFaults s.conn.faults.tail)
      (handleCompletion_eq hwf' hwc fun htakes hdata => ?_) (wp_mono (wp_true _ _) fun r t _ _ _ => rfl)
    refine hroom ?_ wc (by rw [hcq]; rfl) hdata
    rw [takes_succ, hf]
    exact htakes
  · rintro _ ⟨⟩

/-- A stream after the oldest message is used up and its slot posted again. -/
def used (s : HordStream) (msg : ReadyMsg) (rest : List ReadyMsg) : HordStream :=
  (({ s with rxReady := rest }.setFaults s.conn.faults.tail).pushRq (s.geo.slotWr msg.slot)).owe

theorem used_wf (hwf : Wf s) {msg : ReadyMsg} {rest : List ReadyMsg} (hready : s.rxReady = msg :: rest) :
    Wf (used s msg rest) :=
  Local.wf (s := s.setFaults s.conn.faults.tail) { hwf with } (.finish _ msg rest hready)

theorem used_room {n : Nat} {msg : ReadyMsg} {rest : List ReadyMsg} (hready : s.rxReady = msg :: rest)
    (hn : n ≠ 0) (hle : msg.stop - msg.start ≤ n) (htakes : s.conn.takes 1 = true)
    (hlt : s.grantPending < u32Max) :
    (used s msg rest).ReadRoom (n - (msg.stop - msg.start)) ↔ s.ReadRoom n := by
  have hmax : s.grantPending + 1 < 2 ^ 32 := by
    unfold u32Max at hlt
    omega
  have hone : (used s msg rest).grantPending = s.grantPending + 1 := Nat.mod_eq_of_lt hmax
  have hcount : u32Max + 1 - s.grantPending = (u32Max + 1 - (s.grantPending + 1)) + 1 := by omega
  have hhead : s.conn.faults.headD false = false := by
    rw [takes_succ] at htakes
    cases hf : s.conn.faults.headD false with
    | false => rfl
    | true => rw [hf] at htakes; cases htakes
  have hsame : (used s msg rest).conn.takes (u32Max + 1 - (s.grantPending + 1)) =
      s.conn.takes (u32Max + 1 - s.grantPending) := by
    rw [hcount, takes_succ, hhead]
    rfl
  have hsum : s.grantPending + 1 + usedUp (n - (msg.stop - msg.start)) rest =
      s.grantPending + (usedUp (n - (msg.stop - msg.start)) rest + 1) := by omega
  unfold HordStream.ReadRoom
  rw [hone, hsame, hready, usedUp_all rest hn hle, ← hsum]
  rfl

/-- A full counter leaves no room for a message the device lets be used up. -/
theorem ReadRoom.lt {n : Nat} {msg : ReadyMsg} {rest : List ReadyMsg} (h : s.ReadRoom n)
    (hready : s.rxReady = msg :: rest) (hn : n ≠ 0) (hle : msg.stop - msg.start ≤ n)
    (htakes : s.conn.takes 1 = true) : s.grantPending < u32Max := by
  by_contra hge
  have hroom := h (takes_mono htakes (by omega))
  rw [hready, usedUp_all rest hn hle] at hroom
  omega

theorem drainReady_eq (fuel n : Nat) (acc : Bytes) (hwf : Wf s) (hroom : s.ReadRoom n) :
    drainReady fuel n acc s = Hord.drainReady fuel n acc s := by
  -- on the fuel; the room for the credits carries over to what is left to read
  induction fuel generalizing s n acc with
  | zero => rfl
  | succ fuel ih =>
    refine ite_agree (fun _ => rfl) fun hn => get_agree ?_
    cases hready : s.rxReady with
    | nil => rfl
    | cons msg rest =>
      have hmsg := hwf.ready msg (by rw [hready]; exact List.mem_cons_self ..)
      have hin := hwf.slot_in hmsg.slot_lt
      have hlt := slot_lt hwf hmsg.slot_lt
      have hlo := hmsg.start_lt
      have hhi := hmsg.stop_le
      simp only
      rw [sub_eq hlo.le, pure_bind]
      refine bind_agree (recvSlot_eq hwf hmsg.slot_lt) (recvSlot_wp hmsg.slot_lt ?_)
      rintro _ ⟨⟩
      refine bind_agree rfl (copyOut_wp (by omega) ?_)
      rintro _ ⟨⟩
      rw [add_eq (by omega), pure_bind]
      refine ite_agree (fun hall => ?_) fun hpart => ?_
      · -- the message is used up
        have hle : msg.stop - msg.start ≤ n := by omega
        have htake : min (msg.stop - msg.start) n = msg.stop - msg.start := by omega
        have hwf' : Wf { s with rxReady := rest } :=
          { hwf with ready := fun m hm => hwf.ready m (by rw [hready]; exact List.mem_cons_of_mem _ hm) }
        rw [htake]
        refine bind_agree (s := { s with rxReady := rest }) (postRecvSlot_eq hwf' hmsg.slot_lt) ?_
        refine wp_mono (postRecvSlot_takes (s := { s with rxReady := rest }) hmsg.slot_lt) ?_
        intro r t hr _ hok
        subst hok
        obtain ⟨htakes, ht⟩ := hr
        subst ht
        have hfits := ReadRoom.lt hroom hready hn hle htakes
        refine (bind_ok (owe_fits ?_)).trans ?_
        · exact hfits
        · exact ih _ _ (used_wf hwf hready) ((used_room hready hn hle htakes hfits).mpr hroom)
      · -- a partial read ends the loop
        have hshort : n < msg.stop - msg.start := by omega
        have htake : min (msg.stop - msg.start) n = n := by omega
        rw [htake, Nat.sub_self]
        have hstep : Wf { s with rxReady := { msg with start := msg.start + n } :: rest } :=
          Local.wf hwf (.take s msg rest n hready (by omega))
        refine ih (s := { s with rxReady := { msg with start := msg.start + n } :: rest }) _ _ hstep ?_
        intro htakes
        have hsame := hroom htakes
        rw [hready, usedUp_part rest hshort] at hsame
        rw [usedUp_zero]
        exact hsame

/-- The addition that leaves `u32`. -/
def Overflows {α : Type} (r : Except Fail α) (_ : HordStream) : Prop :=
  r = .error (.panic "attempt to add with overflow")

theorem drainReady_overflows (fuel n : Nat) (acc : Bytes) (hwf : Wf s) (hfuel : s.rxReady.length < fuel)
    (hroom : ¬s.ReadRoom n) (hmax : s.grantPending ≤ u32Max) : wp (drainReady fuel n acc) s Overflows := by
  induction fuel generalizing s n acc with
  | zero => exact absurd hfuel (Nat.not_lt_zero _)
  | succ fuel ih =>
    have hover : s.conn.takes (u32Max + 1 - s.grantPending) = true ∧
        u32Max < s.grantPending + usedUp n s.rxReady := by
      unfold HordStream.ReadRoom at hroom
      simpa using hroom
    obtain ⟨htakes, hmany⟩ := hover
    have htakes' : s.conn.takes 1 = true := takes_mono htakes (by omega)
    cases hready : s.rxReady with
    | nil =>
      rw [hready] at hmany
      simp only [usedUp] at hmany
      omega
    | cons msg rest =>
      have hn : n ≠ 0 := by
        rintro rfl
        rw [usedUp_zero] at hmany
        omega
      have hle : msg.stop - msg.start ≤ n := by
        by_contra hlt
        rw [hready, usedUp_part rest (Nat.not_le.mp hlt)] at hmany
        omega
      have hmsg := hwf.ready msg (by rw [hready]; exact List.mem_cons_self ..)
      have hin := hwf.slot_in hmsg.slot_lt
      have hlt := slot_lt hwf hmsg.slot_lt
      have hlo := hmsg.start_lt
      have hhi := hmsg.stop_le
      have htake : min (msg.stop - msg.start) n = msg.stop - msg.start := by omega
      have hstart : msg.start + (msg.stop - msg.start) = msg.stop := by omega
      have hwf' : Wf { s with rxReady := rest } :=
        { hwf with ready := fun m hm => hwf.ready m (by rw [hready]; exact List.mem_cons_of_mem _ hm) }
      simp only [drainReady, wp_bind, wp_get, wp_ite, if_neg hn, hready]
      rw [sub_eq hlo.le]
      simp only [wp_pure, htake]
      refine wp_agree (recvSlot_eq hwf hmsg.slot_lt) (recvSlot_wp hmsg.slot_lt ?_)
      refine copyOut_wp (by omega) ?_
      rw [add_eq (by omega)]
      simp only [wp_pure, hstart, if_true, wp_modify]
      refine wp_agree (s := { s with rxReady := rest }) (postRecvSlot_eq hwf' hmsg.slot_lt) ?_
      refine wp_mono (postRecvSlot_takes (s := { s with rxReady := rest }) hmsg.slot_lt) ?_
      intro r t hr
      cases r with
      | error e =>
        cases e with
        | io e =>
          have hrefused : s.conn.takes 1 = false := hr
          rw [htakes'] at hrefused
          cases hrefused
        | panic _ => exact hr.elim
      | ok _ =>
        obtain ⟨-, ht⟩ := hr
        subst ht
        refine owe_wp (fun hfits => ?_) fun _ => rfl
        -- one more is counted, the rest is too many
        have hcount : (used s msg rest).grantPending ≤ u32Max := by
          have := Nat.mod_lt (s.grantPending + 1) (Nat.two_pow_pos 32)
          exact Nat.le_pred_of_lt this
        have hlen : rest.length < fuel := by
          rw [hready, List.length_cons] at hfuel
          omega
        have hnot : ¬(used s msg rest).ReadRoom (n - (msg.stop - msg.start)) :=
          fun h => hroom ((used_room hready hn hle htakes' hfits).mp h)
        exact ih _ _ (used_wf hwf hready) hlen hnot hcount

theorem tryRead_eq (n : Nat) (hwf : Wf s) (hroom : s.ReadRoom n) : tryRead n s = Hord.tryRead n s := by
  refine get_agree (ite_agree (fun _ => rfl) fun _ => ite_agree (fun _ => rfl) fun _ => ?_)
  refine bind_agree (drainReady_eq _ n [] hwf hroom) (wp_mono (drainReady_path _ n [] hwf) ?_)
  intro r t hr bs hok
  subst hok
  obtain ⟨out, -, hc, -⟩ := hr
  refine bind_agree (maybeReturnCredits_eq (hc.wf hwf) _) (wp_mono (wp_true _ t) ?_)
  intro _ _ _ _ _
  rfl

theorem tryRead_overflows (n : Nat) (hwf : Wf s) (hroom : ¬s.ReadRoom n) (hmax : s.grantPending ≤ u32Max) :
    wp (tryRead n) s Overflows := by
  have hmany : 0 < usedUp n s.rxReady := by
    unfold HordStream.ReadRoom at hroom
    push Not at hroom
    omega
  have hn : n ≠ 0 := by
    rintro rfl
    simp at hmany
  have hready : s.rxReady.isEmpty = false := by
    cases hr : s.rxReady with
    | nil => rw [hr] at hmany; exact absurd hmany (Nat.lt_irrefl 0)
    | cons _ _ => rfl
  simp only [tryRead, wp_bind, wp_get, wp_ite, if_neg hn, hready, Bool.false_eq_true, if_false]
  refine wp_mono (drainReady_overflows _ n [] hwf (Nat.lt_succ_self _) hroom hmax) ?_
  intro r t hr
  unfold Overflows at hr
  subst hr
  rfl

/-- A data message without payload is handled up to the credit it gives back. -/
theorem handleRecv_empty (hwf : Wf s) (hslot : slotOf wc.wrId < s.slotCount) (htakes : s.conn.takes 1 = true)
    (hn : envelopeLen ≤ min wc.byteLen s.geo.msgSize)
    (hcredit : (s.envelopeAt (slotOf wc.wrId)).isCreditOnly = false) (hzero : s.payloadLen wc = 0)
    {Q : Except Fail Unit → HordStream → Prop}
    (hq : wp owe (((s.granted wc).setFaults s.conn.faults.tail).pushRq (s.geo.slotWr (slotOf wc.wrId))) Q) :
    wp (handleRecv wc) s Q := by
  have hin := hwf.slot_in hslot
  have henv := s.geo.envelope_lt
  have hcredit' : (Envelope.decode (readAt (s.region (s.geo.place (slotOf wc.wrId)).1)
      (s.geo.place (slotOf wc.wrId)).2 envelopeLen)).isCreditOnly = false := hcredit
  simp only [handleRecv, wp_bind]
  refine wp_agree (recvSlot_eq hwf hslot) (recvSlot_wp hslot ?_)
  simp only [wp_bind, wp_get, wp_ite, if_neg (Nat.not_lt.mpr hn)]
  refine copyOut_wp (by omega) ?_
  rw [sub_eq hn]
  simp only [wp_modify, wp_pure]
  change if 0 < s.payloadLen wc then _ else _
  rw [if_neg (by omega)]
  simp only [hcredit', Bool.false_eq_true, if_false]
  -- the device takes the re-post, and only the addition is left
  refine wp_agree (s := s.granted wc) (postRecvSlot_eq (hwf.granted wc) hslot) ?_
  refine wp_mono (postRecvSlot_takes (s := s.granted wc) hslot) ?_
  intro r t hr
  cases r with
  | error e =>
    cases e with
    | io e =>
      have hrefused : s.conn.takes 1 = false := hr
      rw [htakes] at hrefused
      cases hrefused
    | panic _ => exact hr.elim
  | ok _ =>
    obtain ⟨-, ht⟩ := hr
    subst ht
    exact hq

/-- A stream that has taken such a message off its queue and posted its slot again. -/
def emptied (s : HordStream) (wc : Completion) (rest : List Completion) : HordStream :=
  ((((s.setCq rest).setFaults s.conn.faults.tail).granted wc).setFaults s.conn.faults.tail.tail).pushRq
    (s.geo.slotWr (slotOf wc.wrId))

theorem pumpOnce_empty (hwf : Wf s) {rest : List Completion} (hcq : s.conn.cq = wc :: rest)
    (htakes : s.conn.takes 2 = true) (hdata : s.emptyData wc = true) {Q : Except Fail Bool → HordStream → Prop}
    (hq : wp owe (emptied s wc rest) fun r t => Q (r.map fun _ => true) t) : wp pumpOnce s Q := by
  rw [takes_succ] at htakes
  simp only [Bool.and_eq_true, Bool.not_eq_true'] at htakes
  obtain ⟨hf, htakes⟩ := htakes
  simp only [HordStream.emptyData, Bool.and_eq_true, Bool.not_eq_true', bne_iff_ne, ne_eq,
    decide_eq_true_eq, beq_iff_eq] at hdata
  obtain ⟨⟨⟨⟨⟨⟨hok, hop⟩, hw⟩, hs⟩, hn⟩, hcredit⟩, hzero⟩ := hdata
  have hslot : slotOf wc.wrId < s.slotCount :=
    WcOk.slot hwf (hwf.cq wc (by rw [hcq]; exact List.mem_cons_self ..)) hs hw
  simp only [pumpOnce, wp_bind, dev_wp]
  refine poll_head (fun hnil => ?_) (fun v vs hvs _ => ?_) fun hrefused m => ?_
  · rw [hcq] at hnil
    cases hnil
  · rw [hcq] at hvs
    injection hvs with hv hvs
    subst hv hvs
    have hwf' : Wf ((s.setCq rest).setFaults s.conn.faults.tail) :=
      { hwf with cq := fun u hu => hwf.cq u (by rw [hcq]; exact List.mem_cons_of_mem _ hu) }
    -- neither an immediate, nor a write, nor a send: the receive branch
    have hrecv : handleCompletion wc = handleRecv wc := by
      simp only [handleCompletion, if_neg hop, hw, hok, hs, Bool.not_true, Bool.false_eq_true, if_false]
    show wp (handleCompletion wc >>= fun _ => pure true) ((s.setCq rest).setFaults s.conn.faults.tail) _
    rw [hrecv, wp_bind]
    refine handleRecv_empty (s := (s.setCq rest).setFaults s.conn.faults.tail) hwf' hslot htakes hn hcredit hzero ?_
    refine wp_mono hq ?_
    intro r t hr
    cases r <;> exact hr
  · rw [hf] at hrefused
    cases hrefused

theorem pumpOnce_overflows (hwf : Wf s) (hroom : ¬s.PumpRoom) : wp pumpOnce s Overflows := by
  unfold HordStream.PumpRoom at hroom
  push Not at hroom
  obtain ⟨htakes, wc, hhead, hdata, hfull⟩ := hroom
  obtain ⟨rest, hcq⟩ := List.head?_eq_some_iff.mp hhead
  refine pumpOnce_empty hwf hcq htakes hdata (owe_wp (fun hfits => ?_) fun _ => rfl)
  exact absurd hfull (Nat.not_le.mpr hfits)

end Receiving

end Checked

/-! Calls. -/

section Calls
variable {s : HordStream}

/-- In a stream whose books are in order a call does the same with overflow checks and
    without, exactly when what it is about to owe still fits. -/
theorem Act.checked_eq_iff (a : Act) (hi : Inv s) (hmax : s.grantPending ≤ u32Max) :
    a.checked s = a.run s ↔ a.Room s := by
  have returns : ∀ {α : Type} {x y : M α} (f : α → Res), x s = y s →
      (x >>= fun v => (pure (f v) : M Res)) s = (y >>= fun v => pure (f v)) s := by
    intro α x y f h
    exact bind_agree h (wp_mono (wp_true y s) fun r t _ v _ => rfl)
  have panics : ∀ {α : Type} {x : M α} (f : α → Res), wp x s Checked.Overflows →
      (x >>= fun v => (pure (f v) : M Res)) s ≠ a.run s := by
    intro α x f hx heq
    have hpanic : wp (x >>= fun v => (pure (f v) : M Res)) s Checked.Overflows := by
      rw [wp_bind]
      refine wp_mono hx ?_
      intro r t hr
      unfold Checked.Overflows at hr
      subst hr
      rfl
    -- the call without the checks never panics
    refine wp_false (wp_mono (wp_and (a.run_path hi.wf) (wp_agree heq.symm hpanic)) ?_)
    rintro r t ⟨hpath, hr⟩
    unfold Checked.Overflows at hr
    subst hr
    exact hpath
  cases a with
  | tryWrite buf => exact iff_of_true (returns _ (Checked.tryWrite_eq buf hi.wf)) trivial
  | tryFlushStage => exact iff_of_true (returns _ (Checked.tryFlushStage_eq hi.wf)) trivial
  | returnOwedCredits urgent =>
    exact iff_of_true (returns _ (Checked.returnOwedCredits_eq hi.wf urgent)) trivial
  | beginWrite segments peerAddr peerRkey imm =>
    exact iff_of_true (returns _ (Checked.beginRdmaWriteGatherInner_eq segments peerAddr peerRkey imm hi)) trivial
  | tryRead n =>
    by_cases hroom : s.ReadRoom n
    · exact iff_of_true (returns _ (Checked.tryRead_eq n hi.wf hroom)) hroom
    · exact iff_of_false (panics _ (Checked.tryRead_overflows n hi.wf hroom hmax)) hroom
  | pump =>
    by_cases hroom : s.PumpRoom
    · exact iff_of_true (returns _ (Checked.pumpOnce_eq hi.wf hroom)) hroom
    · exact iff_of_false (panics _ (Checked.pumpOnce_overflows hi.wf hroom)) hroom
  | _ => exact iff_of_true rfl trivial

/-! The credits owed are a `u32`. -/

theorem u32Add_le (a b : Nat) : u32Add a b ≤ u32Max := Nat.le_pred_of_lt (Nat.mod_lt _ (Nat.two_pow_pos 32))

variable {t : HordStream}

theorem Handled.owed_le {wc : Completion} {ok : Bool} (h : Handled s wc ok t) (hs : s.grantPending ≤ u32Max) :
    t.grantPending ≤ u32Max := by
  have reclaimed : ∀ u : HordStream, (u.reclaimed wc.wrId).grantPending = u.grantPending := by
    intro u
    unfold HordStream.reclaimed
    split <;> rfl
  cases h with
  | zero => exact u32Add_le _ _
  | failed =>
    split
    · rw [reclaimed]
      exact hs
    · exact hs
  | sent =>
    rw [reclaimed]
    exact hs
  | _ => exact hs

theorem Local.owed_le {o : Obs} (h : Local s o t) (hs : s.grantPending ≤ u32Max) : t.grantPending ≤ u32Max := by
  cases h with
  | post => exact (Nat.sub_le _ _).trans hs
  | ctrl => exact (Nat.sub_le _ _).trans hs
  | handle _ wc rest ok hcq hh => exact hh.owed_le hs
  | finish => exact u32Add_le _ _
  | _ => exact hs

theorem Reaches.owed_le (h : Reaches s t) (hs : s.grantPending ≤ u32Max) : t.grantPending ≤ u32Max := by
  obtain ⟨os, hr⟩ := h
  exact hr.inv (I := fun u => u.grantPending ≤ u32Max) (fun _ _ _ hu hl => hl.owed_le hu) hs

theorem Env.owed_le (h : Env s t) (hs : s.grantPending ≤ u32Max) : t.grantPending ≤ u32Max := by
  obtain ⟨_, _, _, _, _, rfl, -⟩ := h.fields
  exact hs

theorem Party.Init.owed_le {p q : Party} {ms : List Hord.Move} (hinit : p.Init) (hrun : Run Party.Step p ms q)
    (hup : q.phase = .up) : q.stream.grantPending ≤ u32Max := by
  refine hinit.established hrun (I := fun s => s.grantPending ≤ u32Max) ?_ (fun _ hr hs => hr.owed_le hs)
    (fun _ he hs => he.owed_le hs) hup
  intro config s t peer hpre _ happly
  obtain ⟨-, -, -, howed, -⟩ := idle_fields hpre.idle
  obtain ⟨-, -, watch, fs, rfl⟩ := wp_ok (applyPeer_wp s peer) happly
  have hsame : (s.finished peer watch fs).grantPending = s.grantPending := by
    simp only [HordStream.finished]
    split <;> rfl
  rw [hsame, howed]
  exact Nat.zero_le _

end Calls

/-! Runs. -/

/-! A peer that ignores its credits. -/

/-- A data message without payload. -/
def emptyMessage : Bytes := Envelope.encode ⟨0, 0, 0⟩

/-- An established stream with a receive posted, nothing arrived and `k` credits owed, on a
    device that refuses nothing. -/
structure Overrun (q : Party) (k : Nat) : Prop where
  up : q.phase = .up
  inv : Inv q.stream
  qp : q.stream.conn.qp = true
  faults : q.stream.conn.faults = []
  cq : q.stream.conn.cq = []
  posted : q.stream.conn.rq ≠ []
  room : envelopeLen ≤ q.stream.geo.msgSize % 2 ^ 32
  owed : q.stream.grantPending = k

/-- What lands in a slot is what its envelope is read from. -/
theorem landed_envelope {s : HordStream} (hwf : Wf s) {slot : Nat} (hslot : slot < s.slotCount) (rs : List RecvWr)
    (env : Envelope) (wc : Completion) :
    (s.landed (s.geo.slotWr slot) rs env.encode wc).envelopeAt slot = env := by
  have hin := hwf.slot_in hslot
  have henv := s.geo.envelope_lt
  have hlen := env.encode_length
  have hsplit : (s.geo.place slot).1 = .splitRecv → s.splitRecv.isSome = true := by
    intro hmr
    rcases slot_resolves hslot with hbase | hsome
    · rw [Geometry.place, if_pos hbase] at hmr
      cases hmr
    · exact hsome
  have hgeo : (s.landed (s.geo.slotWr slot) rs env.encode wc).geo = s.geo := by
    obtain ⟨recv, split, heq⟩ := landed_slot_eq s slot rs env.encode wc
    rw [heq]
  have hregion : ∀ mr, (s.landed (s.geo.slotWr slot) rs env.encode wc).region mr =
      (s.setRegion (s.geo.place slot).1 (writeAt (s.region (s.geo.place slot).1) (s.geo.place slot).2
        env.encode)).region mr := by
    intro mr
    cases mr <;> rfl
  unfold HordStream.envelopeAt
  rw [hgeo, hregion, region_setRegion_same s _ hsplit, ← hlen, readAt_writeAt_same (by omega)]
  simpa using Envelope.decode_encode env []

/-- The message arrives. -/
theorem Overrun.arrives {q : Party} {k : Nat} (h : Overrun q k) : ∃ s wc, Env q.stream s ∧ Inv s ∧
    s.emptyData wc = true ∧ s.conn.takes 2 = true ∧ s.conn.cq = [wc] ∧ s.conn.qp = true ∧ s.conn.faults = [] ∧
    s.geo = q.stream.geo ∧ s.grantPending = k := by
  obtain ⟨r, rs, hrq⟩ := List.exists_cons_of_ne_nil h.posted
  obtain ⟨slot, hslot, rfl⟩ := h.inv.wf.rq r (by rw [hrq]; exact List.mem_cons_self ..)
  have hlen : emptyMessage.length = envelopeLen := Envelope.encode_length _
  have henv := q.stream.geo.envelope_lt
  -- an envelope alone, of length 0, fits the receive
  have hland : Env q.stream (q.stream.landed (q.stream.geo.slotWr slot) rs emptyMessage
      ⟨recvWrId slot, envelopeLen, .recv, 0, 0⟩) :=
    .land _ _ _ _ _ hrq rfl rfl (.inl rfl) (by rw [hlen]; exact h.room)
  have hkind : (IdKind.recv slot).Of q.stream.geo q.stream.slotCount (recvWrId slot) :=
    ⟨hslot, h.inv.wf.slotCount_lt hslot, rfl⟩
  have hread := landed_envelope h.inv.wf hslot rs ⟨0, 0, 0⟩ ⟨recvWrId slot, envelopeLen, .recv, 0, 0⟩
  obtain ⟨recv, split, heq⟩ := landed_slot_eq q.stream slot rs emptyMessage
    ⟨recvWrId slot, envelopeLen, .recv, 0, 0⟩
  rw [heq] at hland
  rw [show Envelope.encode ⟨0, 0, 0⟩ = emptyMessage from rfl, heq] at hread
  refine ⟨_, ⟨recvWrId slot, envelopeLen, .recv, 0, 0⟩, hland, hland.inv h.inv, ?_, ?_, ?_, h.qp, h.faults, rfl,
    h.owed⟩
  · have hslotOf : slotOf (recvWrId slot) = slot := hkind.facts.slot
    have hcredit : Envelope.isCreditOnly ⟨0, 0, 0⟩ = false := rfl
    have hw : isWrite (recvWrId slot) = false := hkind.facts.write
    have hs : isSend (recvWrId slot) = false := hkind.facts.send
    have hn : envelopeLen ≤ min envelopeLen q.stream.geo.msgSize := by omega
    simp only [HordStream.emptyData, HordStream.payloadLen, hslotOf, hread, hcredit, hw, hs]
    simp [Completion.isSuccess, hn]
  · simp [Connection.takes, h.qp, h.faults]
  · show q.stream.conn.cq ++ _ = _
    rw [h.cq]
    rfl

/-- It is handled, its receive is posted again, and one more credit is owed. -/
theorem Overrun.next {q : Party} {k : Nat} (h : Overrun q k) (hk : k < u32Max) :
    ∃ ms q', Run Party.Step q ms q' ∧ Overrun q' (k + 1) := by
  obtain ⟨s, wc, hland, hi, hdata, htakes, hcq, hqp, hfaults, hgeo, howed⟩ := h.arrives
  -- below the maximum the checked pump is the plain one
  have hroom : s.PumpRoom := fun _ _ _ _ => howed ▸ hk
  have hpump : wp Act.pump.run s fun r t => r = .ok (.flag true) ∧ t = (Checked.emptied s wc []).owe := by
    simp only [Act.run, wp_bind]
    refine wp_agree (Checked.pumpOnce_eq hi.wf hroom).symm ?_
    refine Checked.pumpOnce_empty hi.wf hcq htakes hdata (Checked.owe_wp (fun _ => ?_) fun hfull => ?_)
    · exact ⟨rfl, rfl⟩
    · have hsame : (Checked.emptied s wc []).grantPending = s.grantPending := rfl
      rw [hsame, howed] at hfull
      omega
  cases hrun : Act.pump.run s with
  | error e t => exact absurd (wp_error hpump hrun).1 (by simp)
  | ok v t =>
    obtain ⟨-, ht⟩ := wp_ok hpump hrun
    have hstep : Run Party.Step q [.env, .act .pump (.ok v)] { q with stream := t } :=
      .cons (.env q s hland) (.single (.act { q with stream := s } t .pump v h.up hrun))
    refine ⟨_, _, hstep, h.up, Act.run_inv hi hrun, ?_, ?_, ?_, ?_, ?_, ?_⟩
    all_goals subst ht
    · exact hqp
    · show s.conn.faults.tail.tail = []
      rw [hfaults]
      rfl
    · rfl
    · simp [Checked.emptied, HordStream.owe, HordStream.pushRq]
    · show envelopeLen ≤ s.geo.msgSize % 2 ^ 32
      rw [hgeo]
      exact h.room
    · show u32Add s.grantPending 1 = k + 1
      rw [howed]
      exact Nat.mod_eq_of_lt (by unfold u32Max at hk; omega)

/-- As many credits as a `u32` can count. -/
theorem Overrun.rises {q : Party} (h : Overrun q 0) (k : Nat) (hk : k ≤ u32Max) :
    ∃ ms q', Run Party.Step q ms q' ∧ Overrun q' k := by
  induction k with
  | zero => exact ⟨[], q, .nil q, h⟩
  | succ k ih =>
    obtain ⟨ms, q', hrun, hq⟩ := ih (by omega)
    obtain ⟨ms', q'', hrun', hq'⟩ := hq.next (by omega)
    exact ⟨ms ++ ms', q'', hrun.append hrun', hq'⟩

/-- Every operation of the call is computed within its type. -/
def Party.Fits (p : Party) : Hord.Move → Prop
  | .act a _ => a.checked p.stream = a.run p.stream
  | _ => True

/-- The call has room for what it is about to owe. -/
def Party.Room (p : Party) : Hord.Move → Prop
  | .act a _ => a.Room p.stream
  | _ => True

/-- In every reachable state a call computes all its counters and offsets within their
    types exactly when what it is about to owe still fits; so no operation of a run wraps
    or panics exactly when every call of it finds that room. -/
theorem counters_fit {p : Party} (hinit : p.Init) :
    (∀ ms q, Run Party.Step p ms q → q.phase = .up →
      ∀ a : Act, a.checked q.stream = a.run q.stream ↔ a.Room q.stream) ∧
    ∀ ms q, Run (fun p m q => Party.Step p m q ∧ p.Room m) p ms q ↔
      Run (fun p m q => Party.Step p m q ∧ p.Fits m) p ms q := by
  have hcall : ∀ ms q, Run Party.Step p ms q → q.phase = .up →
      ∀ a : Act, a.checked q.stream = a.run q.stream ↔ a.Room q.stream :=
    fun ms q hrun hup a => a.checked_eq_iff (hinit.inv hrun hup) (hinit.owed_le hrun hup)
  have hmove : ∀ {ms q m r}, Run Party.Step p ms q → Party.Step q m r → (q.Fits m ↔ q.Room m) := by
    intro ms q m r hrun hstep
    cases hstep with
    | act t a v hup hr => exact hcall ms q hrun hup a
    | actErr t a e hup hr => exact hcall ms q hrun hup a
    | _ => exact Iff.rfl
  refine ⟨hcall, fun ms q => ⟨fun hrun => ?_, fun hrun => ?_⟩⟩
  · induction hrun with
    | nil => exact .nil _
    | snoc hr hs ih => exact ih.snoc ⟨hs.1, (hmove (hr.mono fun _ _ _ h => h.1) hs.1).mpr hs.2⟩
  · induction hrun with
    | nil => exact .nil _
    | snoc hr hs ih => exact ih.snoc ⟨hs.1, (hmove (hr.mono fun _ _ _ h => h.1) hs.1).mp hs.2⟩

/-- The first message without payload, on a stream that owes nothing. -/
theorem counters_fit_first : ∃ p ms q, p.Init ∧ Run Party.Step p ms q ∧ q.phase = .up ∧
    q.stream.conn.cq.any q.stream.emptyData = true ∧ Act.pump.checked q.stream = Act.pump.run q.stream := by
  obtain ⟨p, ms, q, hinit, hrun, hq⟩ := Party.launch_run (fun _ _ => true) tinyConfig
    (tinySetup ++ [.land emptyMessage ⟨recvWrId 0, envelopeLen, .recv, 0, 0⟩])
    (fun q => q.phase = .up && q.stream.conn.cq.any q.stream.emptyData && q.stream.grantPending == 0)
    (by decide +kernel)
  simp only [Bool.and_eq_true, decide_eq_true_eq, beq_iff_eq] at hq
  obtain ⟨⟨hup, hdata⟩, howed⟩ := hq
  have hsteps : Run Party.Step p ms q := hrun.mono fun _ _ _ hs => hs.1
  have hroom : q.stream.PumpRoom := fun _ _ _ _ => howed ▸ Nat.zero_lt_succ _
  exact ⟨p, ms, q, hinit, hsteps, hup, hdata, ((counters_fit hinit).1 ms q hsteps hup .pump).mpr hroom⟩

/-- A peer that ignores its credits sends `2 ^ 32` data messages without payload: handling
    the last one adds to a full `grant_pending`. -/
theorem grant_pending_overflows : ¬∀ (p q : Party) (ms : List Hord.Move), p.Init → Run Party.Step p ms q →
    q.phase = .up → ∀ a : Act, a.checked q.stream = a.run q.stream := by
  intro h
  obtain ⟨p, ms, q, hinit, hrun, hq⟩ := Party.launch_run (fun _ _ => true) tinyConfig tinySetup
    (fun q => q.phase = .up && q.stream.conn.qp && q.stream.conn.faults.isEmpty && q.stream.conn.cq.isEmpty &&
      !q.stream.conn.rq.isEmpty && decide (envelopeLen ≤ q.stream.geo.msgSize % 2 ^ 32) &&
      q.stream.grantPending == 0) (by decide +kernel)
  simp only [Bool.and_eq_true, Bool.not_eq_true', decide_eq_true_eq, beq_iff_eq, List.isEmpty_iff,
    List.isEmpty_eq_false_iff] at hq
  obtain ⟨⟨⟨⟨⟨⟨hup, hqp⟩, hfaults⟩, hcq⟩, hposted⟩, hroom⟩, howed⟩ := hq
  have hsteps : Run Party.Step p ms q := hrun.mono fun _ _ _ hs => hs.1
  have hstart : Overrun q 0 := ⟨hup, hinit.inv hsteps hup, hqp, hfaults, hcq, hposted, hroom, howed⟩
  obtain ⟨ms', q', hrun', hfull⟩ := hstart.rises u32Max (Nat.le_refl _)
  obtain ⟨s, wc, hland, hi, hdata, htakes, hcq', -, -, -, howed'⟩ := hfull.arrives
  have hlast : Run Party.Step p (ms ++ (ms' ++ [.env])) { q' with stream := s } :=
    hsteps.append (hrun'.append (.single (.env q' s hland)))
  have hsame := h p _ _ hinit hlast hfull.up .pump
  have hnone := (Act.checked_eq_iff .pump hi (howed' ▸ Nat.le_refl _)).mp hsame
  have hlt := hnone htakes wc (by rw [hcq']; rfl) hdata
  rw [howed'] at hlt
  exact Nat.lt_irrefl _ hlt

end Hord
