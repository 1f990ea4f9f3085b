import Hord.Books
import Hord.Writes
import Hord.Bringup

/- One endpoint among the calls of its owner and the moves of its device. A `Party`
   is a stream with the stage of its life: built, exchanging handshakes, established.
   `Env` is everything the device may do to it between two calls, whoever the peer
   is: carry requests out, land messages of any content and length in the posted
   receives, complete requests in any order and with any status, report connection
   events, refuse later calls.

   Correspondence (Rust ↔ Lean):
     a non-blocking call, or one atomic segment of a blocking one ↔ `Act`
     `exchange_handshake`, `finish_handshake`                      ↔ the moves `hello`,
                                                                      `poll`, `apply`
     `poll_cm_event` once the CM fd is readable                    ↔ `pollCmEvent` -/
namespace Hord

open Region Prog Transition

/-- The async reactor's reading of one CM event. -/
def pollCmEvent : M Bool := do
  if ← dev Connection.checkDisconnect then
    markClosed
    return true
  else return false

/-- What the owner of an established stream can have it do in one step. -/
inductive Act where
  | tryWrite (buf : Bytes)
  | tryFlushStage
  | tryRead (n : Nat)
  | returnOwedCredits (urgent : Bool)
  | pump
  | pollCmDisconnect
  | pollCmEvent
  | armCq
  | nextCompletedTransfer
  | beginWrite (segments : List WriteSegment) (peerAddr peerRkey : Nat) (imm : Option Nat)
  | disconnect
  | shutdown
  deriving DecidableEq

/-- What a call returns. -/
inductive Res where
  | unit
  | flag (b : Bool)
  | count (n : Nat)
  | bytes (bs : Option Bytes)
  | transfer (id : Option Nat)
  deriving DecidableEq

def Act.run : Act → M Res
  | .tryWrite buf => do return .count (← Hord.tryWrite buf)
  | .tryFlushStage => do return .flag (← Hord.tryFlushStage)
  | .tryRead n => do return .bytes (← Hord.tryRead n)
  | .returnOwedCredits urgent => do
    Hord.returnOwedCredits urgent
    return .unit
  | .pump => do return .flag (← pumpOnce)
  | .pollCmDisconnect => do return .flag (← Hord.pollCmDisconnect)
  | .pollCmEvent => do return .flag (← Hord.pollCmEvent)
  | .armCq => do
    dev Connection.deviceCall
    return .unit
  | .nextCompletedTransfer => do return .transfer (← Hord.nextCompletedTransfer)
  | .beginWrite segments peerAddr peerRkey imm => do
    beginRdmaWriteGatherInner segments peerAddr peerRkey imm
    return .unit
  | .disconnect => do
    dev Connection.disconnect
    return .unit
  | .shutdown => do
    dev Connection.shutdown
    return .unit

/-! The device. -/

/-- A message lands in the posted receive `r`: its bytes are placed, its
    completion queued. -/
def HordStream.landed (s : HordStream) (r : RecvWr) (rs : List RecvWr) (bytes : Bytes)
    (wc : Completion) : HordStream :=
  { s.setRegion r.mr (writeAt (s.region r.mr) r.off bytes) with
    conn := { s.conn with rq := rs, cq := s.conn.cq ++ [wc] } }

inductive Env : HordStream → HordStream → Prop
  | oracle (s : HordStream) (fs : List Bool) : Env s (s.setFaults fs)
  /-- The oldest request leaves the wire side of the send queue. -/
  | carry (s : HordStream) (w : SendWr) (rest : List SendWr) (h : s.conn.out = w :: rest) :
      Env s { s with conn := { s.conn with out := rest, await := s.conn.await ++ [w] } }
  /-- A message, or the immediate of a peer's write, lands in the oldest posted
      receive. -/
  | land (s : HordStream) (r : RecvWr) (rs : List RecvWr) (bytes : Bytes) (wc : Completion)
      (h : s.conn.rq = r :: rs) (hid : wc.wrId = r.wrId) (hok : wc.isSuccess = true)
      (hop : wc.opcode = .recv ∨ wc.opcode = .recvRdmaWithImm) (hfit : bytes.length ≤ r.length) :
      Env s (s.landed r rs bytes wc)
  /-- A posted receive is flushed with an error. -/
  | reject (s : HordStream) (ls rs : List RecvWr) (r : RecvWr) (wc : Completion)
      (h : s.conn.rq = ls ++ r :: rs) (hid : wc.wrId = r.wrId) (hbad : wc.isSuccess = false) :
      Env s { s with conn := { s.conn with rq := ls ++ rs, cq := s.conn.cq ++ [wc] } }
  /-- A request completes, carried out or not, with any status. -/
  | reap (s : HordStream) (ls rs : List SendWr) (w : SendWr) (wc : Completion)
      (h : s.conn.await = ls ++ w :: rs) (hid : wc.wrId = w.wrId)
      (hop : wc.isSuccess = true → wc.opcode = w.opcode) :
      Env s { s with conn := { s.conn with await := ls ++ rs, cq := s.conn.cq ++ [wc] } }
  | flush (s : HordStream) (ls rs : List SendWr) (w : SendWr) (wc : Completion)
      (h : s.conn.out = ls ++ w :: rs) (hid : wc.wrId = w.wrId) (hbad : wc.isSuccess = false) :
      Env s { s with conn := { s.conn with out := ls ++ rs, cq := s.conn.cq ++ [wc] } }
  | cm (s : HordStream) (e : CmEvent) :
      Env s { s with conn := { s.conn with cmq := s.conn.cmq ++ [e] } }

/-! An established stream under calls and device moves. -/

/-- Well-formed, with the books in order. -/
structure Inv (s : HordStream) : Prop where
  wf : Wf s
  books : Books s

section Established
variable {s t : HordStream}

theorem Reaches.inv (h : Reaches s t) (hi : Inv s) : Inv t := by
  obtain ⟨os, hr⟩ := h
  exact hr.inv (fun _ _ _ hi hl => ⟨hl.wf hi.wf, hl.books hi.wf hi.books⟩) hi

theorem Reaches.stays_closed (h : Reaches s t) (hc : s.peerClosed = true) : t.peerClosed = true := by
  obtain ⟨os, hr⟩ := h
  exact hr.inv (I := fun u => u.peerClosed = true) (fun _ _ _ hu hl => hl.stays_closed hu) hc

theorem pollCmEvent_path (s : HordStream) : wp pollCmEvent s fun r t =>
    Clean s t [] [] [] ∧ (∀ m, r ≠ .error (.panic m)) := by
  simp only [pollCmEvent, wp_bind, dev_wp, wp_ite]
  refine checkDisconnect_wp (fun fs _ => ⟨.tick s fs, by simp⟩) (fun fs e rest hcm => ?_)
    (fun fs e _ => ⟨.tick s fs, by simp⟩)
  have hcm' : Clean s { s with conn := { s.conn with faults := fs, cmq := rest } } [] [] [] :=
    (Clean.tick s fs).after
      ⟨[.cm e], .single (.cm (s.setFaults fs) e rest hcm), rfl, rfl, rfl, by simp [NoLoss]⟩
  cases hg : e.gone with
  | true =>
    simp only [markClosed, if_true, wp_modify, wp_pure]
    exact ⟨hcm'.after (.silent (.close _)), by simp⟩
  | false => exact ⟨hcm', by simp⟩

/-- What a step of the owner shows: the bytes accepted, read out, the transfer
    taken. -/
def Act.accepted : Act → Res → Bytes
  | .tryWrite buf, .count n => buf.take n
  | _, _ => []

def Res.read : Res → Bytes
  | .bytes (some bs) => bs
  | _ => []

def Res.ids : Res → List Nat
  | .transfer (some id) => [id]
  | _ => []

/-- Every call is a run of elementary changes; when it returns, the run loses
    nothing and shows what the call reports. It never panics. -/
theorem Act.run_path (a : Act) (hwf : Wf s) :
    wp a.run s fun r t =>
      match r with
      | .ok v => Clean s t (a.accepted v) v.read v.ids
      | .error (.io _) => Reaches s t
      | .error (.panic _) => False := by
  cases a with
  | tryWrite buf =>
    simp only [Act.run, wp_bind]
    refine wp_mono (tryWrite_path buf hwf) ?_
    intro r t hr
    cases r with
    | ok n => exact hr.2
    | error e =>
      cases e with
      | io _ => exact hr.1
      | panic _ => exact hr
  | tryFlushStage =>
    simp only [Act.run, wp_bind]
    refine wp_mono (tryFlushStage_path hwf) ?_
    intro r t hr
    cases r with
    | ok n => exact hr
    | error e =>
      cases e with
      | io _ => exact hr.1
      | panic _ => exact hr
  | tryRead n =>
    simp only [Act.run, wp_bind]
    refine wp_mono (tryRead_path n hwf) ?_
    intro r t hr
    cases r with
    | ok v =>
      cases v with
      | none =>
        obtain ⟨rfl, -⟩ := hr
        exact .refl t
      | some bs => exact hr.1
    | error e =>
      cases e with
      | io _ => exact hr.1
      | panic _ => exact hr
  | returnOwedCredits urgent =>
    simp only [Act.run, wp_bind]
    refine wp_mono (returnOwedCredits_path urgent hwf) ?_
    intro r t hr
    cases r with
    | ok _ => exact hr
    | error e =>
      cases e with
      | io _ => exact hr.1.reaches
      | panic _ => exact hr
  | pump =>
    simp only [Act.run, wp_bind]
    refine wp_mono (pumpOnce_wp hwf) ?_
    intro r t hr
    cases r with
    | ok b => exact Pumped.clean (r := .ok b) hr
    | error e =>
      cases e with
      | io e => exact (Pumped.clean (r := .error (.io e)) hr).reaches
      | panic _ => exact hr
  | pollCmDisconnect =>
    simp only [Act.run, wp_bind]
    refine wp_mono (pollCmDisconnect_path s) ?_
    intro r t hr
    cases r with
    | ok b => exact hr.1
    | error e =>
      cases e with
      | io e => exact hr.1.reaches
      | panic m => exact hr.2 m rfl
  | pollCmEvent =>
    simp only [Act.run, wp_bind]
    refine wp_mono (pollCmEvent_path s) ?_
    intro r t hr
    cases r with
    | ok b => exact hr.1
    | error e =>
      cases e with
      | io e => exact hr.1.reaches
      | panic m => exact hr.2 m rfl
  | armCq =>
    simp only [Act.run, wp_bind, dev_wp]
    exact deviceCall_wp (fun fs => .tick s fs) (fun fs _ => (Clean.tick s fs).reaches)
  | nextCompletedTransfer =>
    simp only [Act.run, wp_bind]
    refine wp_mono (nextCompletedTransfer_path s) ?_
    intro r t hr
    cases r with
    | ok v =>
      cases v with
      | none =>
        obtain ⟨rfl, -⟩ := hr
        exact .refl t
      | some id => exact hr.1
    | error e =>
      cases e with
      | io _ => exact hr.elim
      | panic _ => exact hr
  | beginWrite segments peerAddr peerRkey imm =>
    simp only [Act.run, wp_bind]
    refine wp_mono (beginRdmaWriteGatherInner_wp segments peerAddr peerRkey imm) ?_
    intro r t hr
    cases r with
    | ok _ => exact hr.1
    | error e =>
      cases e with
      | io _ => exact hr.1.reaches
      | panic _ => exact hr.2
  | disconnect => exact .silent (.link s s.conn.qp true)
  | shutdown => exact .silent (.link s false true)

theorem Act.reaches_wp (a : Act) (hwf : Wf s) : wp a.run s fun _ t => Reaches s t := by
  refine wp_mono (a.run_path hwf) ?_
  intro r t hr
  cases r with
  | ok v => exact hr.reaches
  | error e =>
    cases e with
    | io _ => exact hr
    | panic _ => exact hr.elim

theorem Reaches.geo (h : Reaches s t) : t.geo = s.geo := by
  obtain ⟨os, hr⟩ := h
  exact hr.inv (I := fun u => u.geo = s.geo) (fun _ _ _ hi hl => hl.geo.trans hi) rfl

theorem Act.run_reaches {a : Act} {v : Res} (hi : Inv s) (h : a.run s = .ok v t) : Reaches s t :=
  (wp_ok (a.run_path hi.wf) h).reaches

theorem Act.run_inv {a : Act} {v : Res} (hi : Inv s) (h : a.run s = .ok v t) : Inv t :=
  (Act.run_reaches hi h).inv hi

theorem Act.run_reaches_error {a : Act} {e : Fail} (hi : Inv s) (h : a.run s = .error e t) :
    Reaches s t ∧ ∃ err, e = .io err := by
  have hp := wp_error (a.run_path hi.wf) h
  match e with
  | .io err => exact ⟨hp, err, rfl⟩
  | .panic _ => exact hp.elim

/-! The device keeps an established stream well-formed and its books in order. -/

theorem slotWr_length_le (g : Geometry) (slot : Nat) : (g.slotWr slot).length ≤ g.msgSize :=
  Nat.mod_le _ _

theorem region_setRegion_length {mr : Mr} {b : Bytes} (hlen : b.length = (s.region mr).length)
    (mr' : Mr) : ((s.setRegion mr b).region mr').length = (s.region mr').length := by
  cases mr <;> cases mr' <;> try rfl
  case recv.recv => exact hlen
  case splitRecv.splitRecv =>
    cases hs : s.splitRecv with
    | none => simp [HordStream.setRegion, HordStream.region, hs]
    | some v => simpa [HordStream.setRegion, HordStream.region, hs] using hlen
  case send.send => exact hlen
  case handshake.handshake => exact hlen

/-- Landing a message touches one region and the two queues. -/
theorem landed_eq (r : RecvWr) (rs : List RecvWr) (bytes : Bytes) (wc : Completion) :
    ∃ recv splitRecv send handshake, s.landed r rs bytes wc =
      { s with recv := recv, splitRecv := splitRecv, send := send, handshake := handshake
               conn := { s.conn with rq := rs, cq := s.conn.cq ++ [wc] } } ∧
      splitRecv.isSome = s.splitRecv.isSome := by
  unfold HordStream.landed
  cases r.mr with
  | splitRecv => exact ⟨_, _, _, _, rfl, Option.isSome_map⟩
  | _ => exact ⟨_, _, _, _, rfl, rfl⟩

theorem landed_region_length {r : RecvWr} (rs : List RecvWr) {bytes : Bytes} (wc : Completion)
    (hlen : (writeAt (s.region r.mr) r.off bytes).length = (s.region r.mr).length) (mr : Mr) :
    ((s.landed r rs bytes wc).region mr).length = (s.region mr).length := by
  rw [← region_setRegion_length hlen mr]
  cases mr <;> rfl

theorem slotCount_congr (hgeo : t.geo = s.geo) (hsplit : t.splitRecv.isSome = s.splitRecv.isSome) :
    t.slotCount = s.slotCount := by
  unfold HordStream.slotCount
  rw [hgeo, hsplit]

theorem landed_wf (hwf : Wf s) {slot : Nat} (hslot : slot < s.slotCount) {rs : List RecvWr}
    {bytes : Bytes} {wc : Completion} (hrq : s.conn.rq = s.geo.slotWr slot :: rs)
    (hwc : WcOk s.geo s.slotCount wc) (hfit : bytes.length ≤ (s.geo.slotWr slot).length) :
    Wf (s.landed (s.geo.slotWr slot) rs bytes wc) := by
  have hin := hwf.slot_in hslot
  have hle := slotWr_length_le s.geo slot
  have hlen : (writeAt (s.region (s.geo.slotWr slot).mr) (s.geo.slotWr slot).off bytes).length =
      (s.region (s.geo.slotWr slot).mr).length :=
    length_writeAt (Nat.le_trans (Nat.add_le_add_left (Nat.le_trans hfit hle) _) hin)
  have hreg := landed_region_length rs wc hlen
  obtain ⟨recv, split, send, hs, heq, hsome⟩ := landed_eq (s := s) (s.geo.slotWr slot) rs bytes wc
  rw [heq] at hreg ⊢
  have hcount : HordStream.slotCount { s with
      recv := recv, splitRecv := split, send := send, handshake := hs
      conn := { s.conn with rq := rs, cq := s.conn.cq ++ [wc] } } = s.slotCount :=
    slotCount_congr rfl hsome
  refine { hwf with
    recv_len := (hreg .recv).trans hwf.recv_len
    send_len := (hreg .send).trans hwf.send_len
    split_len := ?_
    ready := ?_
    rq := ?_
    cq := ?_ }
  · intro b hb
    have hb' := hreg .splitRecv
    simp only [HordStream.region] at hb'
    cases hsp : s.splitRecv with
    | none => rw [hsp] at hsome; simp only at hb; rw [hb] at hsome; cases hsome
    | some v =>
      obtain ⟨h1, h2⟩ := hwf.split_len v hsp
      simp only at hb
      rw [hb, hsp] at hb'
      simp only [Option.getD_some] at hb'
      rw [hb']
      exact ⟨h1, h2⟩
  · rw [hcount]
    exact hwf.ready
  · rw [hcount]
    exact fun w hw => hwf.rq w (by rw [hrq]; exact List.mem_cons_of_mem _ hw)
  · rw [hcount]
    intro v hv
    rcases List.mem_append.mp hv with hv | hv
    · exact hwf.cq v hv
    · rw [List.mem_singleton] at hv
      exact hv ▸ hwc

/-- The completion of a request the stream posted is one it knows. -/
theorem SqOk.completion {w : SendWr} {wc : Completion} (h : SqOk s.geo s.payloadCap w)
    (hid : wc.wrId = w.wrId) (hop : wc.isSuccess = true → wc.opcode = w.opcode) :
    WcOk s.geo s.slotCount wc := by
  cases h with
  | data slot len hslot => exact .data slot hslot hid hop
  | ctrl => exact .ctrl hid hop
  | write chunk sges addr rkey imm hchunk => exact .write chunk imm.isSome hchunk hid hop

theorem Env.wf (h : Env s t) (hwf : Wf s) : Wf t := by
  cases h with
  | oracle => exact { hwf with }
  | carry w rest hout =>
    refine { hwf with sq := fun v hv => hwf.sq v ?_ }
    rw [hout]
    simp only [List.mem_append, List.cons_append, List.mem_cons] at hv ⊢
    tauto
  | land r rs bytes wc hrq hid hok hop hfit =>
    obtain ⟨slot, hslot, rfl⟩ := hwf.rq r (by rw [hrq]; exact List.mem_cons_self ..)
    exact landed_wf hwf hslot hrq (.recv slot hslot hid fun _ => hop) hfit
  | reject ls rs r wc hrq hid hbad =>
    obtain ⟨slot, hslot, rfl⟩ := hwf.rq r (by rw [hrq]; simp)
    refine { hwf with rq := fun v hv => hwf.rq v ?_, cq := fun v hv => ?_ }
    · rw [hrq]
      simp only [List.mem_append, List.mem_cons] at hv ⊢
      tauto
    · rcases List.mem_append.mp hv with hv | hv
      · exact hwf.cq v hv
      · rw [List.mem_singleton] at hv
        subst hv
        exact .recv slot hslot hid (fun h => by rw [hbad] at h; cases h)
  | reap ls rs w wc hout hid hop =>
    have hw := hwf.sq w (by rw [hout]; simp)
    refine { hwf with sq := fun v hv => hwf.sq v ?_, cq := fun v hv => ?_ }
    · rw [hout]
      simp only [List.mem_append, List.mem_cons] at hv ⊢
      tauto
    · rcases List.mem_append.mp hv with hv | hv
      · exact hwf.cq v hv
      · rw [List.mem_singleton] at hv
        subst hv
        exact hw.completion hid hop
  | flush ls rs w wc hout hid hbad =>
    have hw := hwf.sq w (by rw [hout]; simp)
    refine { hwf with sq := fun v hv => hwf.sq v ?_, cq := fun v hv => ?_ }
    · rw [hout]
      simp only [List.mem_append, List.mem_cons] at hv ⊢
      tauto
    · rcases List.mem_append.mp hv with hv | hv
      · exact hwf.cq v hv
      · rw [List.mem_singleton] at hv
        subst hv
        exact hw.completion hid fun h => by rw [hbad] at h; cases h
  | cm => exact { hwf with }

/-- The device touches the connection and the registered memory only. -/
theorem Env.fields (h : Env s t) : ∃ conn recv splitRecv send handshake,
    t = { s with conn := conn, recv := recv, splitRecv := splitRecv, send := send
                 handshake := handshake } ∧ splitRecv.isSome = s.splitRecv.isSome := by
  cases h with
  | land r rs bytes wc =>
    obtain ⟨recv, split, send, hs, heq, hsome⟩ := landed_eq (s := s) r rs bytes wc
    exact ⟨_, recv, split, send, hs, heq, hsome⟩
  | _ => exact ⟨_, s.recv, s.splitRecv, s.send, s.handshake, rfl, rfl⟩

theorem Env.closed (h : Env s t) : t.peerClosed = s.peerClosed := by
  obtain ⟨_, _, _, _, _, rfl, -⟩ := h.fields
  rfl

/-- Posted and completed receives whose id satisfies `p`. -/
def Connection.rqCount (c : Connection) (p : Nat → Bool) : Nat :=
  c.rq.countP (fun w => p w.wrId) + c.cq.countP (fun wc => p wc.wrId)

/-- A receive moves from the queue to the completions, in any position. -/
theorem rqCount_move {ls rs : List RecvWr} {r : RecvWr} {wc : Completion} {c : Connection}
    (hrq : c.rq = ls ++ r :: rs) (hid : wc.wrId = r.wrId) (p : Nat → Bool) :
    { c with rq := ls ++ rs, cq := c.cq ++ [wc] }.rqCount p = c.rqCount p := by
  unfold Connection.rqCount
  rw [hrq]
  simp only [List.countP_append, List.countP_cons, List.countP_nil, hid]
  omega

theorem sqCount_move (ls rs : List SendWr) {w : SendWr} {wc : Completion} (p : Nat → Bool)
    (hid : wc.wrId = w.wrId) (cq : List Completion) :
    (ls ++ w :: rs).countP (fun w => p w.wrId) + cq.countP (fun wc => p wc.wrId) =
      (ls ++ rs).countP (fun w => p w.wrId) + (cq ++ [wc]).countP (fun wc => p wc.wrId) := by
  simp only [List.countP_append, List.countP_cons, List.countP_nil, hid]
  omega

/-- The device neither adds nor removes a receive. -/
theorem Env.rqCount (h : Env s t) {p : Nat → Bool}
    (hsq : ∀ w ∈ s.conn.out ++ s.conn.await, p w.wrId = false) :
    t.conn.rqCount p = s.conn.rqCount p := by
  have hsame : ∀ {w : SendWr} {wc : Completion}, w ∈ s.conn.out ++ s.conn.await → wc.wrId = w.wrId →
      (s.conn.cq ++ [wc]).countP (fun wc => p wc.wrId) = s.conn.cq.countP fun wc => p wc.wrId := by
    intro w wc hw hid
    rw [List.countP_append, List.countP_singleton, hid, hsq w hw]
    rfl
  cases h with
  | land r rs bytes wc hrq hid =>
    obtain ⟨_, _, _, _, heq, -⟩ := landed_eq (s := s) r rs bytes wc
    rw [heq]
    exact rqCount_move (show s.conn.rq = [] ++ r :: rs from hrq) hid p
  | reject ls rs r wc hrq hid => exact rqCount_move hrq hid p
  | reap ls rs w wc hout hid =>
    have hcq := hsame (w := w) (by rw [hout]; simp) hid
    unfold Connection.rqCount
    rw [← hcq]
  | flush ls rs w wc hout hid =>
    have hcq := hsame (w := w) (by rw [hout]; simp) hid
    unfold Connection.rqCount
    rw [← hcq]
  | _ => rfl

theorem Env.uses (h : Env s t) {slot : Nat}
    (hsq : ∀ w ∈ s.conn.out ++ s.conn.await, (w.wrId == recvWrId slot) = false) :
    t.uses slot = s.uses slot := by
  have hcount := h.rqCount (p := (· == recvWrId slot)) hsq
  have hheld : t.heldIn slot = s.heldIn slot := by
    obtain ⟨_, _, _, _, _, rfl, -⟩ := h.fields
    rfl
  show t.conn.rqCount (· == recvWrId slot) + t.heldIn slot = _
  rw [hcount, hheld]
  rfl

/-- Nor a send-queue request. -/
theorem Env.sqCount (h : Env s t) {p : Nat → Bool} (hrq : ∀ r ∈ s.conn.rq, p r.wrId = false) :
    t.conn.sqCount p = s.conn.sqCount p := by
  have hsame : ∀ {r : RecvWr} {wc : Completion}, r ∈ s.conn.rq → wc.wrId = r.wrId →
      (s.conn.cq ++ [wc]).countP (fun wc => p wc.wrId) = s.conn.cq.countP fun wc => p wc.wrId := by
    intro r wc hr hid
    rw [List.countP_append, List.countP_singleton, hid, hrq r hr]
    rfl
  cases h with
  | carry w rest hout =>
    unfold Connection.sqCount
    rw [hout]
    simp only [List.countP_append, List.countP_cons, List.countP_nil]
    omega
  | land r rs bytes wc hq hid =>
    obtain ⟨_, _, _, _, heq, -⟩ := landed_eq (s := s) r rs bytes wc
    have hcq := hsame (r := r) (by rw [hq]; exact List.mem_cons_self ..) hid
    rw [heq]
    unfold Connection.sqCount
    show s.conn.out.countP _ + s.conn.await.countP _ + (s.conn.cq ++ [wc]).countP _ = _
    rw [hcq]
  | reject ls rs r wc hq hid =>
    have hcq := hsame (r := r) (by rw [hq]; simp) hid
    unfold Connection.sqCount
    show s.conn.out.countP _ + s.conn.await.countP _ + (s.conn.cq ++ [wc]).countP _ = _
    rw [hcq]
  | reap ls rs w wc hout hid =>
    have hmove := sqCount_move ls rs p hid s.conn.cq
    unfold Connection.sqCount
    show s.conn.out.countP _ + (ls ++ rs).countP _ + (s.conn.cq ++ [wc]).countP _ = _
    rw [hout]
    omega
  | flush ls rs w wc hout hid =>
    have hmove := sqCount_move ls rs p hid s.conn.cq
    unfold Connection.sqCount
    show (ls ++ rs).countP _ + s.conn.await.countP _ + (s.conn.cq ++ [wc]).countP _ = _
    rw [hout]
    omega
  | _ => rfl

theorem Env.slotCount (h : Env s t) : t.slotCount = s.slotCount := by
  obtain ⟨_, _, _, _, _, rfl, hsome⟩ := h.fields
  exact slotCount_congr rfl hsome

theorem SqOk.kind {w : SendWr} (h : SqOk s.geo s.payloadCap w) :
    ∃ k : IdKind, k.Of s.geo s.slotCount w.wrId ∧ ∀ slot, k.onRecv slot = false := by
  cases h with
  | data slot len hslot => exact ⟨.data slot, ⟨hslot, s.geo.sendSlot_lt hslot.le, rfl⟩, fun _ => rfl⟩
  | ctrl => exact ⟨.ctrl, rfl, fun _ => rfl⟩
  | write chunk sges addr rkey imm hchunk =>
    exact ⟨.write imm.isSome, ⟨chunk, s.geo.sendSlot_lt hchunk.le, rfl⟩, fun _ => rfl⟩

theorem Wf.sq_not_recv (hwf : Wf s) {slot : Nat} (hs : slot < slotLimit) :
    ∀ w ∈ s.conn.out ++ s.conn.await, (w.wrId == recvWrId slot) = false := by
  intro w hw
  obtain ⟨k, hk, hno⟩ := (hwf.sq w hw).kind
  rw [hk.facts.recvId slot hs, hno slot]

/-- Ids of posted receives answer no to every question about the send queue. -/
theorem Wf.rq_facts (hwf : Wf s) : ∀ r ∈ s.conn.rq, ∃ v, IdFacts s.geo r.wrId (.recv v) := by
  intro r hr
  obtain ⟨v, hv, rfl⟩ := hwf.rq r hr
  have hof : (IdKind.recv v).Of s.geo s.slotCount (s.geo.slotWr v).wrId :=
    ⟨hv, hwf.slotCount_lt hv, rfl⟩
  exact ⟨v, hof.facts⟩

theorem Env.books (h : Env s t) (hwf : Wf s) (hb : Books s) : Books t := by
  have hrq := hwf.rq_facts
  have hsend : ∀ slot < slotLimit, t.conn.sqCount (· == sendWrId slot) =
      s.conn.sqCount (· == sendWrId slot) := fun slot hs => h.sqCount fun r hr => by
    obtain ⟨v, hf⟩ := hrq r hr
    exact hf.dataId slot hs
  have hctrl : t.conn.sqCount (· == ctrlSendWrId s.geo.ctrlSlot) =
      s.conn.sqCount (· == ctrlSendWrId s.geo.ctrlSlot) := h.sqCount fun r hr => by
    obtain ⟨v, hf⟩ := hrq r hr
    exact hf.ctrlId
  have hwrite : t.conn.sqCount isWrite = s.conn.sqCount isWrite := h.sqCount fun r hr => by
    obtain ⟨v, hf⟩ := hrq r hr
    exact hf.write
  have himm : t.conn.sqCount isImmId = s.conn.sqCount isImmId := h.sqCount fun r hr => by
    obtain ⟨v, hf⟩ := hrq r hr
    exact hf.imm
  have huses : ∀ slot < slotLimit, t.uses slot = s.uses slot := fun slot hs =>
    h.uses (hwf.sq_not_recv hs)
  have hcount := h.slotCount
  obtain ⟨conn, recv, split, send, hs, rfl, -⟩ := h.fields
  refine ⟨fun slot hs => ?_, fun slot hs => ?_, ?_, ?_, ?_⟩
  · rw [huses slot hs, hcount]
    exact hb.recv slot hs
  · have := hb.send slot hs
    rw [← hsend slot hs] at this
    exact this
  · have := hb.ctrl
    rw [← hctrl] at this
    exact this
  · have := hb.writes
    rw [← hwrite] at this
    exact this
  · have := hb.imms
    rw [← himm] at this
    exact this

theorem Env.inv (h : Env s t) (hi : Inv s) : Inv t := ⟨h.wf hi.wf, h.books hi.wf hi.books⟩

theorem Env.full (h : Env s t) (hwf : Wf s) (hfull : SlotsFull s) : SlotsFull t := by
  intro slot hs
  rw [h.slotCount] at hs
  rw [h.uses (hwf.sq_not_recv (hwf.slotCount_lt hs))]
  exact hfull slot hs

end Established

end Hord
