import Hord.Accepting
import Hord.Drive

/- No write is left outstanding behind a caller's back. The blocking `rdma_write_all` and
   `rdma_write_gather_all` calls and the async `drive_write` return only once every posted
   write is reaped, or the queue pair is gone; a future that is dropped destroys it
   (`no_return_with_writes_outstanding`). The exception is an error of the completion loop
   itself, which all of them hand on at once with `?`: a refused device call, or a message
   too short for an envelope, ends the drain with writes outstanding
   (`returns_with_write_outstanding`). -/
namespace Hord

open Region Prog Transition

/-- The next device call is refused. -/
def HordStream.refuses (s : HordStream) : Bool := s.conn.faults.headD false

/-- Handling `wc` posts its receive again. -/
def HordStream.reposts (s : HordStream) (wc : Completion) : Bool :=
  wc.isSuccess && (decide (wc.opcode = .recvRdmaWithImm) ||
    !isWrite wc.wrId && !isSend wc.wrId && s.payloadLen wc == 0)

/-- A step of a completion loop finds no device call refused and no runt to handle. -/
def HordStream.calm (s : HordStream) : Act → Bool
  | .pump =>
    !s.refuses && match s.conn.cq with
      | [] => true
      | wc :: _ => !decide (IsRunt wc) && !(s.reposts wc && s.conn.faults.tail.headD false)
  | .pollCmDisconnect => !s.cmWatch || !s.refuses
  | _ => !s.refuses

/-- The steps of a completion loop. -/
def Act.polls : Act → Bool
  | .pump => true
  | .pollCmDisconnect => true
  | .pollCmEvent => true
  | .armCq => true
  | _ => false

/-- No write is outstanding, or the queue pair is destroyed. -/
def HordStream.Safe (s : HordStream) : Prop := s.writesOutstanding = 0 ∨ s.conn.qp = false

/-- While writes are outstanding on a live queue pair, the step is calm. -/
def HordStream.Ready (s : HordStream) (a : Act) : Prop := s.Safe ∨ s.calm a = true

section Polls
variable {s t : HordStream}

theorem postRecv_passes {c : Connection} (hqp : c.qp = true) (hf : c.faults.headD false = false) {w : RecvWr}
    {Q : Except Fail Unit → Connection → Prop}
    (hok : Q (.ok ()) { c with faults := c.faults.tail, rq := c.rq ++ [w] }) :
    wp (Connection.postRecv w) c Q := by
  unfold Connection.postRecv Connection.withQp
  unfold wp
  simp only [hqp, if_true]
  change wp (Connection.deviceCall >>= fun _ => modify fun c => { c with rq := c.rq ++ [w] }) c Q
  simp only [wp_bind, wp_modify]
  exact deviceCall_passes hf hok

theorem postRecvSlot_passes {slot : Nat} (hs : slot < s.slotCount) (hqp : s.conn.qp = true)
    (hf : s.refuses = false) {Q : Except Fail Unit → HordStream → Prop}
    (hq : ∀ t, Q (.ok ()) t) : wp (postRecvSlot slot) s Q := by
  simp only [postRecvSlot, wp_bind]
  refine recvSlot_wp hs ?_
  simp only [wp_bind, wp_get, attempt_wp, dev_wp]
  exact postRecv_passes hqp hf (hq _)

/-- With no refusal due, only a runt makes a handler fail. -/
theorem handleCompletion_calm {wc : Completion} (hwf : Wf s) (hwc : WcOk s.geo s.slotCount wc)
    (hqp : s.conn.qp = true) (hf : s.reposts wc = true → s.refuses = false) (hrunt : ¬IsRunt wc) :
    wp (handleCompletion wc) s fun r _ => r = .ok () := by
  simp only [handleCompletion, wp_ite]
  split
  · next hop =>
    cases hok : wc.isSuccess with
    | false => rfl
    | true =>
      have hslot : slotOf wc.wrId < s.slotCount := hwc.imm_slot hwf hok hop
      have hf' : s.refuses = false := hf (by simp [HordStream.reposts, hok, hop])
      simp only [Bool.not_true, Bool.false_eq_true, if_false, wp_bind, wp_modify]
      exact postRecvSlot_passes (s := s.pushTransfer wc.immData) hslot hqp hf' fun _ => rfl
  · next hop =>
    split
    · simp only [wp_bind, wp_modify, wp_ite]
      repeat' split
      all_goals rfl
    · next hw =>
      have hw' : isWrite wc.wrId = false := by simpa using hw
      split
      · simp only [markClosed, reclaimSend, wp_bind, wp_modify, wp_ite]
        repeat' split
        all_goals trivial
      · next hok =>
        split
        · simp only [reclaimSend, wp_ite, wp_modify]
          split <;> trivial
        · next hs =>
          have hok' : wc.isSuccess = true := by simpa using hok
          have hs' : isSend wc.wrId = false := by simpa using hs
          have hslot : slotOf wc.wrId < s.slotCount := hwc.slot hwf hs' hw'
          have hin := hwf.slot_in hslot
          have henv := s.geo.envelope_lt
          -- what is left is a message, and not a runt
          have hlen : envelopeLen ≤ wc.byteLen := by
            by_contra hlt
            exact hrunt ⟨hop, hok', hs', hw', by omega⟩
          simp only [handleRecv, wp_bind]
          refine recvSlot_wp hslot ?_
          simp only [wp_bind, wp_get, wp_ite]
          split
          · next hn => omega
          · refine copyOut_wp (by omega) ?_
            simp only [wp_modify]
            change if 0 < s.payloadLen wc then _ else _
            split
            · trivial
            · next hlen0 =>
              have hzero : s.payloadLen wc = 0 := by omega
              -- without payload the receive goes back at once
              have hf' : s.refuses = false := hf (by simp [HordStream.reposts, hok', hw', hs', hzero])
              split
              · exact postRecvSlot_passes (s := s.granted wc) hslot hqp hf' fun _ => rfl
              · exact postRecvSlot_passes (s := s.granted wc) hslot hqp hf' fun _ => trivial

theorem pump_calm (hwf : Wf s) (hqp : s.conn.qp = true) (hcalm : s.calm .pump = true) :
    wp Act.pump.run s fun r _ => ∃ v, r = .ok v := by
  simp only [HordStream.calm, Bool.and_eq_true, Bool.not_eq_true'] at hcalm
  obtain ⟨hf, hhead⟩ := hcalm
  simp only [Act.run, pumpOnce, wp_bind, dev_wp, Connection.poll, wp_get]
  refine deviceCall_passes hf ?_
  cases hcq : s.conn.cq with
  | nil => exact ⟨_, rfl⟩
  | cons wc rest =>
    rw [hcq] at hhead
    simp only [Bool.and_eq_true, Bool.not_eq_true', decide_eq_false_iff_not] at hhead
    obtain ⟨hrunt, hpost⟩ := hhead
    have hrest : Wf ((s.setCq rest).setFaults s.conn.faults.tail) :=
      { hwf with cq := fun v hv => hwf.cq v (by rw [hcq]; exact List.mem_cons_of_mem _ hv) }
    have hwc := hwf.cq wc (by rw [hcq]; exact List.mem_cons_self ..)
    have hhandled := handleCompletion_calm hrest hwc hqp (fun hr => by
      have hr' : s.reposts wc = true := hr
      rw [hr', Bool.true_and] at hpost
      exact hpost) hrunt
    simp only [wp_bind, wp_set, wp_pure]
    refine wp_mono hhandled ?_
    rintro r t rfl
    exact ⟨_, rfl⟩

/-- A calm step of a completion loop does not fail. -/
theorem Act.polls_calm {a : Act} (ha : a.polls = true) (hwf : Wf s) (hqp : s.conn.qp = true)
    (hcalm : s.calm a = true) : wp a.run s fun r _ => ∃ v, r = .ok v := by
  have refused : ∀ {fs : List Bool}, s.refuses = false → s.conn.faults ≠ true :: fs := by
    intro fs hf hfs
    unfold HordStream.refuses at hf
    rw [hfs] at hf
    cases hf
  cases a with
  | pump => exact pump_calm hwf hqp hcalm
  | pollCmDisconnect =>
    simp only [Act.run, Hord.pollCmDisconnect, wp_bind, wp_get, wp_ite, dev_wp]
    split
    · exact ⟨_, rfl⟩
    · next hwatch =>
      have hf : s.refuses = false := by
        simp only [HordStream.calm] at hcalm
        simpa [hwatch] using hcalm
      refine checkDisconnect_wp (fun _ _ => ⟨_, rfl⟩) (fun fs e rest _ => ?_)
        (fun _ _ hfs => (refused hf hfs).elim)
      cases e.gone <;> exact ⟨_, rfl⟩
  | pollCmEvent =>
    have hf : s.refuses = false := by simpa [HordStream.calm] using hcalm
    simp only [Act.run, Hord.pollCmEvent, wp_bind, wp_ite, dev_wp]
    refine checkDisconnect_wp (fun _ _ => ⟨_, rfl⟩) (fun fs e rest _ => ?_)
      (fun _ _ hfs => (refused hf hfs).elim)
    cases e.gone <;> exact ⟨_, rfl⟩
  | armCq =>
    have hf : s.refuses = false := by simpa [HordStream.calm] using hcalm
    simp only [Act.run, wp_bind, dev_wp]
    exact deviceCall_passes hf ⟨_, rfl⟩
  | _ => cases ha

theorem Handled.writes_le {wc : Completion} {ok : Bool} (h : Handled s wc ok t) :
    t.writesOutstanding ≤ s.writesOutstanding := by
  rcases h.sending (f := HordStream.writesOutstanding)
    ⟨fun _ => rfl, fun _ _ => rfl, fun _ _ _ _ _ => rfl⟩ with hsame | hdone | hreclaimed
  · exact hsame.le
  · rw [hdone]
    exact Nat.sub_le _ _
  · rw [hreclaimed]
    unfold HordStream.reclaimed
    split
    · exact Nat.le_refl _
    · exact Nat.le_refl _

/-- A step of a completion loop posts no write and leaves the queue pair alone. -/
theorem Act.polls_safe {a : Act} (ha : a.polls = true) (hwf : Wf s) (hsafe : s.Safe) :
    wp a.run s fun _ t => t.Safe := by
  -- handling a completion posts no write
  have handled : ∀ {wc : Completion} {rest : List Completion} {fs : List Bool} {ok : Bool} {t : HordStream},
      Handled ((s.setCq rest).setFaults fs) wc ok t → t.Safe := by
    intro wc rest fs ok t h
    rcases hsafe with hz | hqp
    · exact .inl (Nat.le_zero.mp (h.writes_le.trans (Nat.le_of_eq hz)))
    · exact .inr ((h.unseen (f := fun u => u.conn.qp) ⟨fun _ => rfl, fun _ _ => rfl, fun _ _ _ _ _ => rfl,
        fun _ _ _ _ _ => rfl⟩).trans hqp)
  cases a with
  | pump =>
    simp only [Act.run, wp_bind]
    refine wp_mono (pumpOnce_wp hwf) ?_
    intro r t hr
    cases r with
    | ok v =>
      cases v with
      | true =>
        obtain ⟨fs, wc, rest, -, hh⟩ := hr
        exact handled hh
      | false =>
        obtain ⟨-, fs, rfl⟩ := hr
        exact hsafe
    | error e =>
      cases e with
      | io e =>
        rcases hr with ⟨fs, -, rfl⟩ | ⟨fs, wc, rest, -, hh⟩
        · exact hsafe
        · exact handled hh
      | panic m => exact hr.elim
  | pollCmDisconnect =>
    simp only [Act.run, Hord.pollCmDisconnect, wp_bind, wp_get, wp_ite, dev_wp]
    split
    · exact hsafe
    · refine checkDisconnect_wp (fun _ _ => hsafe) (fun fs e rest _ => ?_) (fun _ _ _ => hsafe)
      cases e.gone <;> exact hsafe
  | pollCmEvent =>
    simp only [Act.run, Hord.pollCmEvent, wp_bind, wp_ite, dev_wp]
    refine checkDisconnect_wp (fun _ _ => hsafe) (fun fs e rest _ => ?_) (fun _ _ _ => hsafe)
    cases e.gone <;> exact hsafe
  | armCq =>
    simp only [Act.run, wp_bind, dev_wp]
    exact deviceCall_wp (fun _ => hsafe) fun _ _ => hsafe
  | _ => cases ha

/-- A step that is ready fails only where nothing is outstanding. -/
theorem Act.polls_ready {a : Act} (ha : a.polls = true) (hwf : Wf s) (hready : s.Ready a) :
    wp a.run s fun r t => match r with
      | .ok _ => True
      | .error _ => t.Safe := by
  have safe : s.Safe → wp a.run s fun r t => match r with
      | .ok _ => True
      | .error _ => t.Safe := by
    intro hsafe
    refine wp_mono (Act.polls_safe ha hwf hsafe) ?_
    intro r t ht
    match r with
    | .ok _ => trivial
    | .error _ => exact ht
  rcases hready with hsafe | hcalm
  · exact safe hsafe
  · cases hqp : s.conn.qp with
    | false => exact safe (.inr hqp)
    | true =>
      refine wp_mono (Act.polls_calm ha hwf hqp hcalm) ?_
      rintro r t ⟨v, rfl⟩
      trivial

end Polls

/-! The blocking calls. -/

/-- The calls that post one-sided writes and wait for them. -/
def Call.rdma : Call → Bool
  | .rdmaWriteAll .. => true
  | .rdmaWriteGatherAll .. => true
  | _ => false

/-- Where a write call stands: it has returned with nothing outstanding, or panicked. -/
def Next.Drained (s : HordStream) : Next → Prop
  | .cont (.doing (.post _)) => True
  | .cont (.waiting (.post _) _) => True
  | .cont (.waiting (.drain _ _) _) => True
  | .cont _ => False
  | .ret (.error (.panic _)) => True
  | .ret _ => s.Safe

section Blocking
variable {s t : HordStream}

theorem nextBatchLen_panics {segments : List WriteSegment} {maxSge budget : Nat} {e : Fail}
    (h : nextBatchLen segments maxSge budget = .error e) : ∃ m, e = .panic m := by
  unfold nextBatchLen at h
  dsimp only at h
  split at h
  · split at h
    · cases h
      exact ⟨_, rfl⟩
    · cases h
  · cases h

theorem Gather.loop_drained (g : Gather) (h : g.start < g.segments.length ∨ s.Safe) :
    (g.loop s).Drained s := by
  unfold Gather.loop
  split
  · split
    · next e he =>
      obtain ⟨m, rfl⟩ := nextBatchLen_panics he
      trivial
    · trivial
  · next hstart => exact h.resolve_left hstart

theorem drainWrites_drained (g : Gather) (posted : Except Fail Unit) :
    (drainWrites s g posted).Drained s := by
  unfold drainWrites
  split
  · trivial
  · next hw =>
    have hz : s.writesOutstanding = 0 := by
      simpa [HordStream.writesPending] using hw
    split
    · next e =>
      cases e with
      | io e => exact .inl hz
      | panic m => trivial
    · split
      · exact .inl hz
      · exact Gather.loop_drained _ (.inr (.inl hz))

theorem Call.start_drained {c : Call} (hc : c.rdma = true) : (c.start s).Drained s := by
  cases c with
  | rdmaWriteAll src srcOff peerAddr peerRkey len imm =>
    simp only [Call.start]
    split
    · next e he =>
      unfold WriteSegment.fromRegistered at he
      split at he <;> cases he
      trivial
    · trivial
  | rdmaWriteGatherAll segments peerAddr peerRkey imm =>
    simp only [Call.start]
    split
    · trivial
    · next hne =>
      exact Gather.loop_drained _ (.inl (List.length_pos_iff.mpr (by simpa using hne)))
  | _ => cases hc

/-- A step of a wait is ready. -/
def Job.Ready (s : HordStream) : Job → Prop
  | .waiting _ w => s.Ready w.act
  | .doing _ => True

/-- A post returns nothing, a poll whether it found something. -/
theorem beginWrite_unit (segments : List WriteSegment) (peerAddr peerRkey : Nat) (imm : Option Nat) :
    wp (Act.beginWrite segments peerAddr peerRkey imm).run s fun r _ => ∀ v, r = .ok v → v = .unit := by
  simp only [Act.run, wp_bind]
  refine wp_mono (wp_true _ _) ?_
  intro r t _
  cases r with
  | ok _ => exact fun v hv => by cases hv; rfl
  | error e => simp

theorem Wait.act_flag (w : Wait) : wp w.act.run s fun r _ => ∀ v, r = .ok v → ∃ b, v = .flag b := by
  cases w with
  | poll spins =>
    simp only [Wait.act, Act.run, wp_bind]
    refine wp_mono (wp_true _ _) ?_
    intro r t _
    cases r with
    | ok b => exact fun v hv => by cases hv; exact ⟨b, rfl⟩
    | error e => simp
  | cm =>
    simp only [Wait.act, Act.run, wp_bind]
    refine wp_mono (wp_true _ _) ?_
    intro r t _
    cases r with
    | ok b => exact fun v hv => by cases hv; exact ⟨b, rfl⟩
    | error e => simp

theorem Wait.act_polls (w : Wait) : w.act.polls = true := by cases w <;> rfl

/-- A step of a write call. -/
theorem Next.Drained.step {j : Job} {r : Except Fail Res} (h : (Next.cont j).Drained s) (hwf : Wf s)
    (hstep : j.act.outcome s = (r, t)) (hready : j.Ready s) : (j.next t r).Drained t := by
  have hout : ∀ {Q : Except Fail Res → HordStream → Prop}, wp j.act.run s Q → Q r t := by
    intro Q hq
    have := Act.outcome_wp hq
    rwa [hstep] at this
  -- both waits go on, return to a loop that drains, or fail with nothing outstanding
  have wait : ∀ (l : Loop) (w : Wait), j = .waiting l w → s.Ready w.act → (l.next t).Drained t →
      (∀ w', (Next.cont (.waiting l w')).Drained t) → (j.next t r).Drained t := by
    rintro l w rfl hs hl hw
    have hfail := hout (Act.polls_ready w.act_polls hwf hs)
    have hflag := hout w.act_flag
    match r with
    | .ok v =>
      obtain ⟨b, rfl⟩ := hflag v rfl
      simp only [Job.next]
      split
      · exact hw _
      · exact hl
    | .error (.io e) => exact hfail
    | .error (.panic m) => trivial
  match j, h with
  | .doing (.post g), _ =>
    have hunit := hout (beginWrite_unit _ _ _ _)
    match r with
    | .ok v =>
      obtain rfl := hunit v rfl
      simp only [Job.next, Point.next]
      exact drainWrites_drained g _
    | .error (.io e) =>
      simp only [Job.next, Point.next]
      split
      · split
        · exact drainWrites_drained g _
        · trivial
      · exact drainWrites_drained g _
    | .error (.panic m) => trivial
  | .waiting (.post g) w, _ => exact wait _ w rfl hready trivial fun _ => trivial
  | .waiting (.drain g posted) w, _ =>
    exact wait _ w rfl hready (drainWrites_drained g posted) fun _ => trivial

/-- The device posts no write, reaps none, and leaves the queue pair alone. -/
theorem Env.safe (h : Env s t) (hs : s.Safe) : t.Safe := by
  have hw : t.writesOutstanding = s.writesOutstanding := by
    obtain ⟨_, _, _, _, _, rfl, -⟩ := h.fields
    rfl
  have hqp : t.conn.qp = s.conn.qp := by
    cases h <;> rfl
  unfold HordStream.Safe
  rw [hw, hqp]
  exact hs

theorem Next.Drained.env {n : Next} (h : n.Drained s) (henv : Env s t) : n.Drained t := by
  match n, h with
  | .cont (.doing (.post _)), _ => trivial
  | .cont (.waiting (.post _) _), _ => trivial
  | .cont (.waiting (.drain _ _) _), _ => trivial
  | .ret (.error (.panic _)), _ => trivial
  | .ret (.error (.io _)), h => exact henv.safe h
  | .ret (.ok _), h => exact henv.safe h

end Blocking

/-- What is no call of an established endpoint is a move of its device. -/
theorem Party.Step.device {p q : Party} {m : Hord.Move} (h : Party.Step p m q) (hm : m.isAct = false)
    (hup : p.phase = .up) : ∃ t, Env p.stream t ∧ q = { p with stream := t } := by
  cases h with
  | env t henv => exact ⟨t, henv, rfl⟩
  | hello t hp hr => rw [hp] at hup; cases hup
  | wait t hp hr => rw [hp] at hup; cases hup
  | peer t k hp hr => rw [hp] at hup; cases hup
  | apply t k hp hr => rw [hp] at hup; cases hup
  | broke t e hr => rcases hr with ⟨hp, -⟩ | ⟨hp, -⟩ | ⟨_, hp, -⟩ <;> rw [hp] at hup <;> cases hup
  | act => cases hm
  | actErr => cases hm

namespace Owner
variable {o o' : Owner} {l : Doing}

/-- A step of a write call in a wait is ready. -/
def Ready (o : Owner) (l : Doing) : Prop :=
  match o.call, l with
  | some ⟨c, .cont j, _⟩, .move (.act _ _) => c.rdma = true → j.Ready o.stream
  | _, _ => True

/-- Where a write call stands, in any state of its owner. -/
structure Drained (o : Owner) : Prop where
  ok : o.party.Ok
  up : ∀ r, o.call = some r → o.party.phase = .up
  call : ∀ r, o.call = some r → r.call.rdma = true → r.now.Drained o.stream

theorem Drained.step (hi : o.Drained) (h : Owner.Step o l o') (hready : o.Ready l) : o'.Drained := by
  cases h with
  | enter c hup hidle =>
    refine ⟨hi.ok, fun _ _ => hup, fun r hr hc => ?_⟩
    cases hr
    exact Call.start_drained hc
  | leave c r took hcall =>
    have idle : ∀ r', none ≠ some (r' : Running) := fun r' => (Option.some_ne_none r').symm
    exact ⟨hi.ok, fun r' hr => (idle r' hr).elim, fun r' hr => (idle r' hr).elim⟩
  | other m q h hm =>
    -- an established endpoint is moved by the device only
    refine ⟨h.ok hi.ok, fun r hr => ?_, fun r hr hc => ?_⟩
    · obtain ⟨t, henv, rfl⟩ := h.device hm (hi.up r hr)
      exact hi.up r hr
    · obtain ⟨t, henv, rfl⟩ := h.device hm (hi.up r hr)
      exact (hi.call r hr hc).env henv
  | act c j took r q hcall h =>
    obtain ⟨hup, rfl, rfl⟩ := h.outcome
    refine ⟨h.ok hi.ok, fun _ _ => hup, fun r hr hc => ?_⟩
    cases hr
    have hj : c.rdma = true → j.Ready o.stream := by
      unfold Owner.Ready at hready
      rw [hcall] at hready
      exact hready
    exact (hi.call _ hcall hc).step (hi.ok.inv hup).wf rfl (hj hc)

theorem Drained.run {ls : List Doing} {o₀ : Owner} (hinit : o₀.Init)
    (hrun : Run (fun o l o' => Owner.Step o l o' ∧ o.Ready l) o₀ ls o) : o.Drained := by
  refine hrun.inv (I := Owner.Drained) (fun _ _ _ hi hs => hi.step hs.1 hs.2) ⟨hinit.1.ok, ?_, ?_⟩
  · intro r hr
    rw [hinit.2] at hr
    cases hr
  · intro r hr
    rw [hinit.2] at hr
    cases hr

end Owner

/-! The async driver. -/

/-- The call of the stream that the reactor makes next. -/
def Pc.act : Pc → Option Act
  | .drain _ => some .pump
  | .cmRead _ => some .pollCmEvent
  | .arm => some .armCq
  | .redrain _ => some .pump
  | .rearm _ => some .armCq
  | .drainWoken _ _ => some .pump
  | _ => none

/-- The reactor's next call is ready, and while writes are outstanding no readiness poll
    fails. -/
def Reactor.Ready (r : Reactor) (l : Turned) : Prop :=
  match r.pc.act with
  | some a => r.stream.Ready a
  | none => r.stream.Safe ∨ l ≠ .failed

/-- `poll_events` fails by the call it makes, or where it polls for readiness. -/
theorem Reactor.Step.failed {r r' : Reactor} (h : Reactor.Step r .failed r') :
    (∃ a e, r.pc.act = some a ∧ a.polls = true ∧ a.run r.stream = .error e r'.stream) ∨
      r.pc.act = none ∧ r'.stream = r.stream := by
  -- a turn fails where the call it makes fails: once for a call, the arming and the drains
  have acted : ∀ {a : Act} {k : Res → Turned × Pc}, (∀ v, (k v).1 ≠ .failed) → r.act a k = (.failed, r') →
      ∃ e, a.run r.stream = .error e r'.stream := by
    intro a k hk hact
    unfold Reactor.act at hact
    split at hact
    · next v t hrun => exact absurd (congrArg Prod.fst hact) (hk v)
    · next e t hrun =>
      cases hact
      exact ⟨e, hrun⟩
  have armed : ∀ {next : Pc}, r.armStep next = (.failed, r') → ∃ e, Act.armCq.run r.stream = .error e r'.stream := by
    intro next hact
    unfold Reactor.armStep at hact
    split at hact
    · cases hact
    · next e t hrun =>
      cases hact
      exact ⟨e, hrun⟩
  have drained : ∀ {more : Pc} {done : Turned × Pc}, done.1 ≠ .failed →
      r.drainStep more done = (.failed, r') → ∃ e, Act.pump.run r.stream = .error e r'.stream := by
    intro more done hdone hact
    refine acted (fun v => ?_) hact
    split
    · nofun
    · exact hdone
  cases h with
  | refused hpc =>
    refine .inr ⟨?_, rfl⟩
    rcases hpc with hpc | hpc
    · rw [hpc]
      rfl
    · rw [hpc]
      rfl
  | advance _ _ hadv =>
    unfold Reactor.advance at hadv
    -- by the place `poll_events` is at; those without a call never fail
    cases hpc : r.pc with
    | idle => simp [hpc] at hadv
    | parked => simp [hpc] at hadv
    | drain n =>
      simp only [hpc, Option.some.injEq] at hadv
      obtain ⟨e, hrun⟩ := drained (by split <;> nofun) hadv
      exact .inl ⟨.pump, e, rfl, rfl, hrun⟩
    | cmReady =>
      simp only [hpc] at hadv
      split at hadv
      · cases hadv
      · split at hadv <;> cases hadv
    | cmRead guard =>
      simp only [hpc, Option.some.injEq] at hadv
      obtain ⟨e, hrun⟩ := acted (fun v hv => by cases hv) hadv
      exact .inl ⟨.pollCmEvent, e, rfl, rfl, hrun⟩
    | cmClear guard gone =>
      simp only [hpc, Option.some.injEq, Prod.mk.injEq] at hadv
      cases gone <;> cases hadv.1
    | arm =>
      simp only [hpc, Option.some.injEq] at hadv
      obtain ⟨e, hrun⟩ := armed hadv
      exact .inl ⟨.armCq, e, rfl, rfl, hrun⟩
    | redrain n =>
      simp only [hpc, Option.some.injEq] at hadv
      obtain ⟨e, hrun⟩ := drained (by split <;> nofun) hadv
      exact .inl ⟨.pump, e, rfl, rfl, hrun⟩
    | park =>
      simp only [hpc] at hadv
      split at hadv <;> cases hadv
    | consume guard =>
      simp [hpc] at hadv
    | rearm guard =>
      simp only [hpc, Option.some.injEq] at hadv
      obtain ⟨e, hrun⟩ := armed hadv
      exact .inl ⟨.armCq, e, rfl, rfl, hrun⟩
    | drainWoken guard n =>
      simp only [hpc, Option.some.injEq] at hadv
      obtain ⟨e, hrun⟩ := drained (by dsimp only; split <;> nofun) hadv
      exact .inl ⟨.pump, e, rfl, rfl, hrun⟩
    | clear guard n =>
      simp only [hpc, Option.some.injEq, Prod.mk.injEq] at hadv
      have hl := hadv.1
      split at hl <;> cases hl

theorem Reactor.Step.failed_safe {r r' : Reactor} (h : Reactor.Step r .failed r') (hwf : Wf r.stream)
    (hready : r.Ready .failed) : r'.stream.Safe := by
  unfold Reactor.Ready at hready
  rcases h.failed with ⟨a, e, hpc, ha, hrun⟩ | ⟨hpc, hstream⟩
  · rw [hpc] at hready
    exact wp_error (Act.polls_ready ha hwf hready) hrun
  · rw [hpc] at hready
    rw [hstream]
    exact hready.resolve_right fun hne => hne rfl

namespace Drive
variable {u v : Drive} {l : DriveEvent} {config : HordConfig}

/-- A future that is over has left nothing outstanding. -/
def Done (u : Drive) : Prop := u.pc.over = true → u.stream.Safe

theorem safe_of_idle {s : HordStream} (h : s.writesPending = false) : s.Safe :=
  .inl (by simpa [HordStream.writesPending] using h)

theorem cancel_safe (u : Drive) : u.cancel.stream.Safe := by
  change HordStream.Safe (if u.stream.writesPending then _ else _)
  cases hw : u.stream.writesPending with
  | true => exact .inr rfl
  | false => exact safe_of_idle hw

theorem plan_done (u : Drive) : u.plan.Done := by
  unfold plan
  split
  · nofun
  · split
    · nofun
    · exact fun _ => u.cancel_safe

theorem settle_done (u : Drive) (posted : Except Fail Unit) : (u.settle posted).Done := by
  unfold settle
  split
  · cases posted <;> nofun
  · next hw =>
    have hsafe : u.stream.Safe := safe_of_idle (by simpa using hw)
    split
    · exact fun _ => hsafe
    · split
      · exact fun _ => hsafe
      · split
        · exact fun _ => hsafe
        · exact plan_done _

theorem posted_done (u : Drive) : u.posted.Done := by
  unfold posted
  generalize u.gather.act.outcome u.stream = o
  dsimp only
  split
  · exact settle_done _ _
  · exact fun _ => cancel_safe _
  · split
    · split
      · next hidle =>
        simp only [Bool.and_eq_true, Bool.not_eq_true'] at hidle
        exact fun _ => safe_of_idle hidle.2
      · nofun
    · exact settle_done _ _

/-- A future that has come to its end has left nothing outstanding. -/
theorem Step.done (hs : Step u l v) (hwf : Wf u.stream) (hpc : u.pc.over = false)
    (hready : ∀ m, l = .events m → u.reactor.Ready m) : v.Done := by
  have still : ∀ {w : Drive}, w.pc = u.pc → w.Done := by
    intro w hw ho
    rw [hw, hpc] at ho
    cases ho
  cases hs with
  | outer m r hl h => exact still rfl
  | others m r hp hl h => exact still rfl
  | poll hp hr hpc =>
    unfold Drive.poll
    dsimp only
    split
    · exact plan_done _
    · exact settle_done _ _
    · nofun
  | post hp hpc => exact u.posted_done
  | events m r hp hpc hl h =>
    unfold after
    dsimp only
    split
    · split
      · exact settle_done _ _
      · nofun
    · exact fun _ => h.failed_safe hwf (hready _ rfl)
    · exact still rfl
    · exact still rfl
  | drop hp hr hpc => exact fun _ => u.cancel_safe

theorem cancel_ok (h : Party.Ok ⟨config, u.stream, .up⟩) : Party.Ok ⟨config, u.cancel.stream, .up⟩ := by
  change Party.Ok ⟨config, if u.stream.writesPending then _ else _, .up⟩
  cases hw : u.stream.writesPending with
  | true => exact Split.ok_reaches h (.single (.link u.stream false true))
  | false => exact h

theorem plan_ok (h : Party.Ok ⟨config, u.stream, .up⟩) : Party.Ok ⟨config, u.plan.stream, .up⟩ := by
  unfold plan
  split
  · exact h
  · split
    · exact h
    · exact cancel_ok h

theorem settle_ok (posted : Except Fail Unit) (h : Party.Ok ⟨config, u.stream, .up⟩) :
    Party.Ok ⟨config, (u.settle posted).stream, .up⟩ := by
  unfold settle
  split
  · exact h
  · split
    · exact h
    · split
      · exact h
      · split
        · exact h
        · exact plan_ok h

theorem posted_ok (h : Party.Ok ⟨config, u.stream, .up⟩) : Party.Ok ⟨config, u.posted.stream, .up⟩ := by
  have hout : Party.Ok ⟨config, (u.gather.act.outcome u.stream).2, .up⟩ :=
    (u.gather.act.outcome_step (p := ⟨config, u.stream, .up⟩) rfl).ok h
  unfold posted
  generalize u.gather.act.outcome u.stream = o at *
  dsimp only
  split
  · exact settle_ok _ hout
  · exact cancel_ok hout
  · split
    · split
      · exact hout
      · exact hout
    · exact settle_ok _ hout

theorem Step.ok (hs : Step u l v) (h : Party.Ok ⟨config, u.stream, .up⟩) : Party.Ok ⟨config, v.stream, .up⟩ := by
  cases hs with
  | outer m r hl hr => exact Split.ok_reactor h hr
  | others m r hp hl hr => exact Split.ok_reactor h hr
  | poll hp hr hpc =>
    unfold Drive.poll
    dsimp only
    split
    · exact plan_ok h
    · exact settle_ok _ h
    · exact h
  | post hp hpc => exact posted_ok h
  | events m r hp hpc hl hr =>
    have hok := Split.ok_reactor h hr
    unfold after
    dsimp only
    split
    · split
      · exact settle_ok _ hok
      · exact hok
    · exact hok
    · exact hok
    · exact hok
  | drop hp hr hpc => exact cancel_ok h

end Drive

/-- In every run in which a completion loop that waits for writes, on a live queue pair,
    has no device call refused, no readiness poll fail and no runt to handle: a blocking
    write call that returns, and an async one that resolves or is dropped, leaves no write
    outstanding, or the queue pair destroyed. -/
theorem no_return_with_writes_outstanding (ls : List Doing) (es : List DriveEvent) :
    (∀ o₀ o : Owner, o₀.Init →
      Run (fun o l o' => Owner.Step o l o' ∧ o.Ready l) o₀ ls o →
      ∀ c r took, o.call = some ⟨c, .ret r, took⟩ → c.rdma = true → (∀ m, r ≠ .error (.panic m)) →
        o.stream.writesOutstanding = 0 ∨ o.stream.conn.qp = false) ∧
    ∀ (config : HordConfig) (segments : List WriteSegment) (peerAddr peerRkey : Nat) (imm : Option Nat)
      (u₀ u v : Drive) (l : DriveEvent), u₀.Init config segments peerAddr peerRkey imm →
      Run (fun u l v => Drive.Step u l v) u₀ es u → Drive.Step u l v → u.pc.over = false →
      (∀ m, l = .events m → u.reactor.Ready m) → v.pc.over = true →
        v.stream.writesOutstanding = 0 ∨ v.stream.conn.qp = false := by
  refine ⟨fun o₀ o hinit hrun c r took hcall hc hr => ?_, fun config segments peerAddr peerRkey imm u₀ u v l
    hinit hrun hs hpc hready hover => ?_⟩
  · have hd := (Owner.Drained.run hinit hrun).call _ hcall hc
    match r, hr with
    | .ok _, _ => exact hd
    | .error (.io _), _ => exact hd
    | .error (.panic m), hr => exact absurd rfl (hr m)
  · have hok := hrun.inv (I := fun u => Party.Ok ⟨config, u.stream, .up⟩) (fun _ _ _ hu hs => hs.ok hu) hinit.1
    exact hs.done hok.1.wf hpc hready hover

/-! Runs that can be computed. -/

instance HordStream.decidableReady (s : HordStream) (a : Act) : Decidable (s.Ready a) :=
  inferInstanceAs (Decidable ((_ ∨ _) ∨ _))

instance Job.decidableReady (s : HordStream) (j : Job) : Decidable (j.Ready s) :=
  match j with
  | .waiting _ w => inferInstanceAs (Decidable (s.Ready w.act))
  | .doing _ => .isTrue trivial

/-- `Owner.Ready`, computed. -/
def Owner.ready (o : Owner) (l : Doing) : Bool :=
  match o.call, l with
  | some ⟨c, .cont j, _⟩, .move (.act _ _) => !c.rdma || decide (j.Ready o.stream)
  | _, _ => true

theorem Owner.ready_iff {o : Owner} {l : Doing} (h : o.ready l = true) : o.Ready l := by
  unfold Owner.ready at h
  unfold Owner.Ready
  split at h
  · intro hc
    simpa [hc] using h
  · trivial

def smallSource : RegisteredBuffer := ⟨4096, 5, [1, 2, 3, 4]⟩

/-- Whether the owner's write call has returned, and how. -/
def Owner.returned (o : Owner) : Option Bool :=
  match o.call with
  | some ⟨c, .ret (.ok _), _⟩ => if c.rdma then some true else none
  | some ⟨c, .ret (.error (.io _)), _⟩ => if c.rdma then some false else none
  | _ => none

theorem Owner.returned_call {o : Owner} {b : Bool} (h : o.returned = some b) : ∃ c r took,
    o.call = some ⟨c, .ret r, took⟩ ∧ c.rdma = true ∧ ∀ m, r ≠ .error (.panic m) := by
  unfold Owner.returned at h
  split at h
  · next c v took hcall =>
    split at h
    · next hc => exact ⟨c, _, took, hcall, hc, nofun⟩
    · cases h
  · next c e took hcall =>
    split at h
    · next hc => exact ⟨c, _, took, hcall, hc, nofun⟩
    · cases h
  · cases h

/-- Whether the future has resolved, and how. -/
def DrivePc.outcome : DrivePc → Option Bool
  | .resolved (.ok _) => some true
  | .resolved (.error _) => some false
  | _ => none

theorem DrivePc.outcome_over {pc : DrivePc} {b : Bool} (h : pc.outcome = some b) : pc.over = true := by
  cases pc with
  | resolved r => rfl
  | _ => cases h

instance Reactor.decidableReady (r : Reactor) (l : Turned) : Decidable (r.Ready l) :=
  match h : r.pc.act with
  | some a => decidable_of_iff (r.stream.Ready a) (by unfold Reactor.Ready; rw [h])
  | none => decidable_of_iff ((r.stream.writesOutstanding = 0 ∨ r.stream.conn.qp = false) ∨ l ≠ .failed)
      (by unfold Reactor.Ready; rw [h]; rfl)

/-- The last step of a script. -/
theorem Drive.exec_last {u : Drive} {c : Drive.Prompt} (good : DriveEvent → Drive → Bool)
    (h : (u.exec c).any (fun o => good o.1 o.2) = true) : ∃ l v, Drive.Step u l v ∧ good l v = true := by
  cases ho : u.exec c with
  | none => rw [ho] at h; cases h
  | some o =>
    rw [ho] at h
    exact ⟨o.1, o.2, u.exec_step c o.1 o.2 ho, h⟩

/-- Whether a step of the future that its reactor makes is ready. -/
def Drive.ready (u : Drive) : DriveEvent → Bool
  | .events m => decide (u.reactor.Ready m)
  | _ => true

theorem Drive.ready_iff {u : Drive} {l : DriveEvent} (h : u.ready l = true) (m : Turned) (hl : l = .events m) :
    u.reactor.Ready m := by
  subst hl
  exact of_decide_eq_true h

/-- One write, acknowledged: both drivers return, with nothing outstanding. -/
theorem no_return_with_writes_outstanding_one :
    (∃ o₀ ls o, o₀.Init ∧ Run (fun o l o' => Owner.Step o l o' ∧ o.Ready l) o₀ ls o ∧
      o.returned = some true ∧ (o.stream.writesOutstanding = 0 ∨ o.stream.conn.qp = false)) ∧
    ∃ config u₀ ls u l v, u₀.Init config [⟨4096, 5, 4⟩] 1000 9 none ∧ Run Drive.Step u₀ ls u ∧
      Drive.Step u l v ∧ v.pc.outcome = some true ∧
      (v.stream.writesOutstanding = 0 ∨ v.stream.conn.qp = false) := by
  constructor
  -- the blocking driver
  · obtain ⟨o₀, ls, o, hinit, hrun, hgood⟩ := Owner.launch_run Owner.ready tinyConfig
      (tinySetup.map .cmd ++ [.enter (.rdmaWriteAll smallSource 0 1000 9 4 none), .act, .cmd .carry,
        .cmd (.reap ⟨writeWrId 0, 0, .rdmaWrite, 0, 0⟩), .act])
      (fun _ o => decide (o.returned = some true)) (by decide +kernel)
    have hret := of_decide_eq_true hgood
    have hready : Run (fun o l o' => Owner.Step o l o' ∧ o.Ready l) o₀ ls o :=
      hrun.mono fun _ _ _ hs => ⟨hs.1, Owner.ready_iff hs.2⟩
    obtain ⟨c, r, took, hcall, hc, hr⟩ := Owner.returned_call hret
    exact ⟨o₀, ls, o, hinit, hready, hret,
      (no_return_with_writes_outstanding ls []).1 o₀ o hinit hready c r took hcall hc hr⟩
  -- the async one
  · obtain ⟨config, u₀, ls, u, hinit, hrun, hgood⟩ := Drive.launch_run tinyConfig tinySetup [⟨4096, 5, 4⟩] 1000 9
      none [.poll, .post, .poke (.nic .carry), .poke (.nic (.reap ⟨writeWrId 0, 0, .rdmaWrite, 0, 0⟩)),
        .poke .step]
      (fun _ u => !u.pc.over && (u.exec (.poke .step)).any fun (o : DriveEvent × Drive) => decide (o.2.pc.outcome = some true) &&
        u.ready o.1) (by decide +kernel)
    simp only [Bool.and_eq_true, Bool.not_eq_true'] at hgood
    obtain ⟨l, v, hs, hlast⟩ := Drive.exec_last (c := .poke .step)
      (fun l v => decide (v.pc.outcome = some true) && u.ready l) hgood.2
    simp only [Bool.and_eq_true, decide_eq_true_eq] at hlast
    exact ⟨config, u₀, ls, u, l, v, hinit, hrun, hs, hlast.1,
      (no_return_with_writes_outstanding [] ls).2 config _ _ _ _ u₀ u v l hinit hrun hs hgood.1
        (Drive.ready_iff hlast.2) (DrivePc.outcome_over hlast.1)⟩

/-- A message of four bytes lands while a write is outstanding: the completion loop fails on
    it and both drivers return, on a live queue pair, with the write outstanding. -/
theorem returns_with_write_outstanding :
    ¬((∀ (o₀ : Owner) (ls : List Doing) (o : Owner), o₀.Init → Run Owner.Step o₀ ls o →
      ∀ c r took, o.call = some ⟨c, .ret r, took⟩ → c.rdma = true → (∀ m, r ≠ .error (.panic m)) →
        o.stream.writesOutstanding = 0 ∨ o.stream.conn.qp = false)) ∧
    ¬∀ (config : HordConfig) (segments : List WriteSegment) (peerAddr peerRkey : Nat) (imm : Option Nat)
      (u₀ : Drive) (ls : List DriveEvent) (u v : Drive) (l : DriveEvent),
      u₀.Init config segments peerAddr peerRkey imm → Run Drive.Step u₀ ls u → Drive.Step u l v →
      u.pc.over = false → v.pc.over = true →
        v.stream.writesOutstanding = 0 ∨ v.stream.conn.qp = false := by
  constructor
  · intro h
    -- four bytes are less than an envelope
    obtain ⟨o₀, ls, o, hinit, hrun, hgood⟩ := Owner.launch_run (fun _ _ => true) tinyConfig
      (tinySetup.map .cmd ++ [.enter (.rdmaWriteAll smallSource 0 1000 9 4 none), .act,
        .cmd (.land [1, 2, 3, 4] ⟨0, 4, .recv, 0, 0⟩), .act])
      (fun _ o => decide (o.returned = some false) && o.stream.writesOutstanding == 1 && o.stream.conn.qp)
      (by decide +kernel)
    simp only [Bool.and_eq_true, decide_eq_true_eq, beq_iff_eq] at hgood
    obtain ⟨⟨hret, hone⟩, hqp⟩ := hgood
    obtain ⟨c, r, took, hcall, hc, hr⟩ := Owner.returned_call hret
    rcases h o₀ ls o hinit (hrun.mono fun _ _ _ hs => hs.1) c r took hcall hc hr with hz | hdown
    · omega
    · rw [hqp] at hdown
      cases hdown
  · intro h
    obtain ⟨config, u₀, ls, u, hinit, hrun, hgood⟩ := Drive.launch_run tinyConfig tinySetup [⟨4096, 5, 4⟩] 1000 9
      none [.poll, .post, .poke (.nic (.land [1, 2, 3, 4] ⟨0, 4, .recv, 0, 0⟩))]
      (fun _ u => !u.pc.over && (u.exec (.poke .step)).any fun (o : DriveEvent × Drive) => decide (o.2.pc.outcome = some false) &&
        o.2.stream.writesOutstanding == 1 && o.2.stream.conn.qp) (by decide +kernel)
    simp only [Bool.and_eq_true, Bool.not_eq_true'] at hgood
    obtain ⟨l, v, hs, hlast⟩ := Drive.exec_last (c := .poke .step) (fun _ v =>
      decide (v.pc.outcome = some false) && v.stream.writesOutstanding == 1 && v.stream.conn.qp) hgood.2
    simp only [Bool.and_eq_true, decide_eq_true_eq, beq_iff_eq] at hlast
    obtain ⟨⟨hout, hone⟩, hqp⟩ := hlast
    rcases h config _ _ _ _ u₀ ls u v l hinit hrun hs hgood.1 (DrivePc.outcome_over hout) with hz | hdown
    · omega
    · rw [hqp] at hdown
      cases hdown

end Hord
