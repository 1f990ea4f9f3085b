import Hord.Frames
import Hord.Negotiation

/- An endpoint from `new_common` on. The handshake exchange takes only the two
   handshake completions off the queue (`HsStep`); whatever else has arrived by then
   stays on it. `Party.Step` is one move of the endpoint or of its device, and
   `Party.Step.ok` the invariant of every run: before the stream is established the
   pools are as built and each handshake request is in one place, afterwards the
   stream is well-formed with its books in order. -/
namespace Hord

open Region Prog Transition

/-! The exchange. -/

/-- One completion of the handshake is taken off the queue. -/
inductive HsStep : HordStream → Option Completion → HordStream → Prop
  | tick (s : HordStream) (fs : List Bool) : HsStep s none (s.setFaults fs)
  | recv (s : HordStream) (wc : Completion) (rest : List Completion) (hcq : s.conn.cq = wc :: rest)
      (hid : wc.wrId = hsRecvWrId) (hok : wc.isSuccess = true) :
      HsStep s (some wc) { s.setCq rest with hsGotRecv := true, hsRecvLen := wc.byteLen }
  | send (s : HordStream) (wc : Completion) (rest : List Completion) (hcq : s.conn.cq = wc :: rest)
      (hid : wc.wrId = hsSendWrId) (hok : wc.isSuccess = true) :
      HsStep s (some wc) { s.setCq rest with hsGotSend := true }

/-- Why the exchange gives up in state `u`: the device refuses the poll, or the
    oldest completion failed or is not one of the handshake's. -/
def HsStuck (u : HordStream) : Prop :=
  (∃ fs, u.conn.faults = true :: fs) ∨
  ∃ wc rest, u.conn.cq = wc :: rest ∧
    (wc.isSuccess = false ∨ wc.wrId ≠ hsRecvWrId ∧ wc.wrId ≠ hsSendWrId)

def HordStream.hsDone (s : HordStream) : Bool := s.hsGotRecv && s.hsGotSend

theorem handshakeLoop_wp (fuel : Nat) {s : HordStream} (hfuel : s.conn.cq.length < fuel) :
    wp (handshakeLoop fuel) s fun r t =>
      match r with
      | .ok b => (∃ ls, Run HsStep s ls t) ∧ b = t.hsDone ∧ (b = false → t.conn.cq = [])
      | .error (.io _) => ∃ ls u, Run HsStep s ls u ∧ u.hsDone = false ∧ HsStuck u
      | .error (.panic _) => False := by
  -- on the fuel, which the queue bounds: every round but the last takes a completion off
  induction fuel generalizing s with
  | zero => omega
  | succ fuel ih =>
    simp only [handshakeLoop, wp_bind, wp_get, wp_ite, dev_wp]
    split
    · next hdone => exact ⟨⟨[], .nil s⟩, hdone.symm, by simp⟩
    · next hdone =>
      have hnot : s.hsDone = false := eq_false_of_ne_true hdone
      refine poll_wp (fun fs he => ?_) (fun fs wc rest hcq => ?_) (fun fs e hf => ?_)
      · exact ⟨⟨[none], .single (.tick s fs)⟩, hnot.symm, fun _ => he⟩
      · -- one completion, taken off the queue and examined
        have hlen : rest.length < fuel := by
          rw [hcq] at hfuel
          simpa using hfuel
        simp only [wp_ite, ioErr]
        split
        · next hbad =>
          exact ⟨[], s, .nil s, hnot, .inr ⟨wc, rest, hcq, .inl (by simpa using hbad)⟩⟩
        · next hok =>
          have hok' : wc.isSuccess = true := by simpa using hok
          -- a handshake completion is noted, and the rest of the loop goes on from there
          have onward : ∀ {u : HordStream} {ls : List (Option Completion)}, Run HsStep s ls u →
              u.conn.cq.length < fuel → wp (handshakeLoop fuel) u fun r t =>
                match r with
                | .ok b => (∃ ls, Run HsStep s ls t) ∧ b = t.hsDone ∧ (b = false → t.conn.cq = [])
                | .error (.io _) => ∃ ls u, Run HsStep s ls u ∧ u.hsDone = false ∧ HsStuck u
                | .error (.panic _) => False := by
            intro u ls hu hl
            refine wp_mono (ih hl) ?_
            intro r t hr
            cases r with
            | ok b =>
              obtain ⟨⟨ms, hms⟩, hb, hcq⟩ := hr
              exact ⟨⟨ls ++ ms, hu.append hms⟩, hb, hcq⟩
            | error e =>
              cases e with
              | io _ =>
                obtain ⟨ms, v, hms, hv⟩ := hr
                exact ⟨ls ++ ms, v, hu.append hms, hv⟩
              | panic _ => exact hr
          split
          · next hid =>
            simp only [wp_bind, wp_modify]
            have hstep : Run HsStep s [none, some wc] { (s.setFaults fs).setCq rest with
                hsGotRecv := true, hsRecvLen := wc.byteLen } :=
              .cons (.tick s fs) (.single (.recv (s.setFaults fs) wc rest hcq hid hok'))
            exact onward hstep hlen
          · next hnr =>
            split
            · next hid =>
              simp only [wp_bind, wp_modify]
              have hstep : Run HsStep s [none, some wc] { (s.setFaults fs).setCq rest with
                  hsGotSend := true } :=
                .cons (.tick s fs) (.single (.send (s.setFaults fs) wc rest hcq hid hok'))
              exact onward hstep hlen
            · next hns =>
              exact ⟨[], s, .nil s, hnot, .inr ⟨wc, rest, hcq, .inr ⟨hnr, hns⟩⟩⟩
      · exact ⟨[], s, .nil s, hnot, .inl ⟨fs, hf⟩⟩

/-- The bytes of the peer's handshake, as far as they were received. -/
def HordStream.hsBytes (s : HordStream) : Bytes :=
  (readAt s.handshake 0 handshakeLen).take (min s.hsRecvLen handshakeLen)

theorem HsStep.handshake {s t : HordStream} {l : Option Completion} (h : HsStep s l t) :
    t.handshake = s.handshake := by
  cases h <;> rfl

/-- The end of `poll_handshake`, the peer's frame at hand. -/
theorem decodeReply_wp {t : HordStream} {buf : Bytes} {Q : Except Fail (Option Handshake) → HordStream → Prop}
    (hok : ∀ peer, Handshake.decode buf = .ok peer → Q (.ok (some peer)) t)
    (herr : ∀ e, Handshake.decode buf = .error e → Q (.error (.io e)) t) :
    wp (match Handshake.decode buf with
      | .ok peer => (pure (some peer) : M (Option Handshake))
      | .error e => throw (.io e)) t Q := by
  cases hdec : Handshake.decode buf with
  | ok peer => exact hok peer hdec
  | error e => exact herr e hdec

theorem pollHandshake_wp {s : HordStream} (hlen : handshakeLen ≤ s.handshake.length) :
    wp pollHandshake s fun r t =>
      match r with
      | .ok none => (∃ ls, Run HsStep s ls t) ∧ t.hsDone = false ∧ t.conn.cq = []
      | .ok (some peer) => (∃ ls, Run HsStep s ls t) ∧ t.hsDone = true ∧
          Handshake.decode t.hsBytes = .ok peer
      | .error (.io _) => ∃ ls u, Run HsStep s ls u ∧
          (u.hsDone = false ∧ HsStuck u ∨ u.hsDone = true ∧ ∃ e, Handshake.decode u.hsBytes = .error e)
      | .error (.panic _) => False := by
  simp only [pollHandshake, wp_bind, wp_get, wp_ite]
  refine wp_mono (handshakeLoop_wp _ (Nat.lt_succ_self _)) ?_
  intro r t hr
  cases r with
  | ok v =>
    cases v with
    | false =>
      obtain ⟨hrun, hdone, hcq⟩ := hr
      exact ⟨hrun, hdone.symm, hcq rfl⟩
    | true =>
      obtain ⟨⟨ls, hrun⟩, hdone, -⟩ := hr
      -- the completions leave the buffer alone, so the copy stays within it
      have hsame : t.handshake = s.handshake :=
        hrun.inv (I := fun u => u.handshake = s.handshake)
          (fun u l v hu hstep => hstep.handshake.trans hu) rfl
      simp only [if_true]
      refine copyOut_wp (by rw [hsame]; omega) ?_
      exact decodeReply_wp (fun peer hdec => ⟨⟨ls, hrun⟩, hdone.symm, hdec⟩)
        (fun e hdec => ⟨ls, t, hrun, .inr ⟨hdone.symm, e, hdec⟩⟩)
  | error e =>
    cases e with
    | io _ =>
      obtain ⟨ls, u, hrun, hu⟩ := hr
      exact ⟨ls, u, hrun, .inl hu⟩
    | panic _ => exact hr

/-- Our handshake, posted out of the send half of its region. -/
def hsSendWr : SendWr := .send hsSendWrId .handshake handshakeLen handshakeLen

theorem beginHandshakeSend_wp {s : HordStream} (config : HordConfig)
    (hlen : s.handshake.length = 2 * handshakeLen) :
    wp (beginHandshakeSend config) s fun r t =>
      match r with
      | .ok () => ∃ fs, t = { s with
          handshake := writeAt s.handshake handshakeLen (myHandshake config).encode
          conn := { s.conn with faults := fs, out := s.conn.out ++ [hsSendWr] } }
      | .error (.io _) => True
      | .error (.panic _) => False := by
  have henc := (myHandshake config).encode_length
  simp only [beginHandshakeSend, wp_bind, wp_get]
  refine copyIn_wp (by omega) ?_
  simp only [wp_modify, dev_wp]
  exact postSend_wp (fun fs _ => ⟨fs, rfl⟩) (fun _ _ => trivial)

/-! The life of an endpoint. -/

inductive Phase where
  | fresh
  | exchanging
  | got (peer : Handshake)
  | up
  | failed
  deriving DecidableEq

structure Party where
  config : HordConfig
  stream : HordStream
  phase : Phase
  deriving DecidableEq

/-- What one step of an endpoint was. -/
inductive Move where
  | env
  | hello
  | poll (r : Option Handshake)
  | apply
  | broke (e : Fail)
  | act (a : Act) (r : Except Fail Res)

inductive Party.Step : Party → Move → Party → Prop
  | env (p : Party) (t : HordStream) (h : Env p.stream t) :
      Party.Step p .env { p with stream := t }
  | hello (p : Party) (t : HordStream) (hp : p.phase = .fresh)
      (h : beginHandshakeSend p.config p.stream = .ok () t) :
      Party.Step p .hello { p with stream := t, phase := .exchanging }
  | wait (p : Party) (t : HordStream) (hp : p.phase = .exchanging)
      (h : pollHandshake p.stream = .ok none t) :
      Party.Step p (.poll none) { p with stream := t }
  | peer (p : Party) (t : HordStream) (peer : Handshake) (hp : p.phase = .exchanging)
      (h : pollHandshake p.stream = .ok (some peer) t) :
      Party.Step p (.poll (some peer)) { p with stream := t, phase := .got peer }
  | apply (p : Party) (t : HordStream) (peer : Handshake) (hp : p.phase = .got peer)
      (h : applyPeer peer p.stream = .ok () t) :
      Party.Step p .apply { p with stream := t, phase := .up }
  | broke (p : Party) (t : HordStream) (e : Fail)
      (h : (p.phase = .fresh ∧ beginHandshakeSend p.config p.stream = .error e t) ∨
        (p.phase = .exchanging ∧ pollHandshake p.stream = .error e t) ∨
        (∃ peer, p.phase = .got peer ∧ applyPeer peer p.stream = .error e t)) :
      Party.Step p (.broke e) { p with stream := t, phase := .failed }
  | act (p : Party) (t : HordStream) (a : Act) (v : Res) (hp : p.phase = .up)
      (h : a.run p.stream = .ok v t) :
      Party.Step p (.act a (.ok v)) { p with stream := t }
  | actErr (p : Party) (t : HordStream) (a : Act) (e : Fail) (hp : p.phase = .up)
      (h : a.run p.stream = .error e t) :
      Party.Step p (.act a (.error e)) { p with stream := t }

theorem Party.Step.config {p q : Party} {m : Move} (h : Party.Step p m q) : q.config = p.config := by
  cases h <;> rfl

theorem Party.run_config {p q : Party} {ms : List Move} (h : Run Party.Step p ms q) :
    q.config = p.config :=
  h.inv (I := fun u => u.config = p.config) (fun _ _ _ hu hs => hs.config.trans hu) rfl

/-- A pump that handles a completion. -/
def Move.pumped : Move := .act .pump (.ok (.flag true))

theorem pumpOnce_step (config : HordConfig) (s : HordStream) : wp pumpOnce s fun r t =>
    Party.Step ⟨config, s, .up⟩ (.act .pump (r.map .flag)) ⟨config, t, .up⟩ := by
  unfold wp
  cases hrun : pumpOnce s with
  | ok more t =>
    refine .act ⟨config, s, .up⟩ t .pump (.flag more) rfl ?_
    simp only [Act.run, bind, EStateM.bind, hrun, pure, EStateM.pure]
  | error e t =>
    refine .actErr ⟨config, s, .up⟩ t .pump e rfl ?_
    simp only [Act.run, bind, EStateM.bind, hrun]

/-- A call of `drain_completions` that counts the completions from `n`: one pump for each,
    and a last one that finds the queue empty or fails. -/
theorem drainLoop_run (config : HordConfig) {s : HordStream} (fuel n : Nat) (hwf : Wf s)
    (hfuel : s.conn.cq.length < fuel) : wp (drainLoop fuel n) s fun r t => ∃ k,
      Run Party.Step ⟨config, s, .up⟩
        (List.replicate k .pumped ++ [.act .pump (r.map fun _ => .flag false)]) ⟨config, t, .up⟩ ∧
      ∀ m, r = .ok m → m = n + k ∧ t.conn.cq = [] := by
  -- on the fuel: a pump that handled a completion leaves a shorter queue
  induction fuel generalizing s n with
  | zero => omega
  | succ fuel ih =>
    simp only [drainLoop, wp_bind]
    refine wp_mono (wp_and (pumpOnce_wp hwf) (pumpOnce_step config s)) ?_
    rintro r t ⟨hp, hstep⟩
    cases r with
    | error e => exact ⟨0, .single hstep, fun m hm => (by cases hm)⟩
    | ok more =>
      cases more with
      | false =>
        obtain ⟨hcq, fs, rfl⟩ := hp
        exact ⟨0, .single hstep, fun m hm => ⟨(Except.ok.inj hm).symm, hcq⟩⟩
      | true =>
        have hclean : Clean s t [] [] [] := hp.clean
        obtain ⟨fs, wc, rest, hcq, hh⟩ := hp
        have hlen : t.conn.cq.length < fuel := by
          have hrest : t.conn.cq = rest := hh.cq
          rw [hcq, List.length_cons] at hfuel
          rw [hrest]
          exact Nat.lt_of_succ_lt_succ hfuel
        refine wp_mono (ih (n + 1) (hclean.wf hwf) hlen) ?_
        rintro r u ⟨k, hrest, hcount⟩
        refine ⟨k + 1, ?_, fun m hm => ⟨?_, (hcount m hm).2⟩⟩
        · rw [List.replicate_succ, List.cons_append]
          exact (Run.single hstep).append hrest
        · rw [(hcount m hm).1]
          omega

/-- Draining is pumping until the queue is empty: what holds of every run of an endpoint
    holds across its drains. -/
theorem drainCompletions_run (config : HordConfig) {s : HordStream} (hwf : Wf s) :
    wp drainCompletions s fun r t => ∃ k,
      Run Party.Step ⟨config, s, .up⟩
        (List.replicate k .pumped ++ [.act .pump (r.map fun _ => .flag false)]) ⟨config, t, .up⟩ ∧
      ∀ m, r = .ok m → m = k ∧ t.conn.cq = [] := by
  simp only [drainCompletions, wp_bind, wp_get]
  refine wp_mono (drainLoop_run config _ 0 hwf (Nat.lt_succ_self _)) ?_
  rintro r t ⟨k, hrun, hcount⟩
  exact ⟨k, hrun, fun m hm => ⟨by rw [(hcount m hm).1, Nat.zero_add], (hcount m hm).2⟩⟩

/-- An endpoint as `new_common` returns it. -/
def Party.Init (p : Party) : Prop :=
  p.phase = .fresh ∧
    ∃ sge fs, newCommon { Connection.new sge with faults := fs } p.config = .ok p.stream

/-- The pools are as built; only the connection, the registered memory and the
    exchange's own fields have moved. -/
def Idle (config : HordConfig) (s : HordStream) : Prop :=
  s = { HordStream.blank s.conn s.geo config with
    recv := s.recv, send := s.send, handshake := s.handshake
    hsGotSend := s.hsGotSend, hsGotRecv := s.hsGotRecv, hsRecvLen := s.hsRecvLen }

/-- Completions that can be on the queue before the stream is established. -/
def HsWcOk (g : Geometry) (wc : Completion) : Prop :=
  wc.wrId = hsRecvWrId ∨ wc.wrId = hsSendWrId ∨
    ∃ slot < g.splitBase, wc.wrId = recvWrId slot ∧
      (wc.isSuccess = true → wc.opcode = .recv ∨ wc.opcode = .recvRdmaWithImm)

/-- The invariant before the stream is established: every receive is posted or
    completed, each of the handshake's two requests is in one place. -/
structure Pre (config : HordConfig) (sent : Bool) (s : HordStream) : Prop where
  geo : Geometry.ofConfig config = .ok s.geo
  idle : Idle config s
  recv_len : s.recv.length = s.geo.splitBase * s.geo.msgSize
  send_len : s.send.length = (s.geo.sendPool + ctrlSendSlots) * s.geo.msgSize
  hs_len : s.handshake.length = 2 * handshakeLen
  rq : ∀ w ∈ s.conn.rq, w = hsRecvWr ∨ ∃ slot < s.geo.splitBase, w = s.geo.slotWr slot
  sq : ∀ w ∈ s.conn.out ++ s.conn.await, w = hsSendWr
  cq : ∀ wc ∈ s.conn.cq, HsWcOk s.geo wc
  slots : ∀ slot < slotLimit, s.uses slot = if slot < s.geo.splitBase then 1 else 0
  hsRecv : s.conn.rq.countP (fun w => w.wrId == hsRecvWrId) +
    s.conn.cq.countP (fun wc => wc.wrId == hsRecvWrId) + s.hsGotRecv.toNat = 1
  hsSend : s.conn.sqCount (· == hsSendWrId) + s.hsGotSend.toNat = sent.toNat

def Party.Ok (p : Party) : Prop :=
  match p.phase with
  | .fresh => Pre p.config false p.stream
  | .exchanging => Pre p.config true p.stream
  | .got _ => Pre p.config true p.stream ∧ p.stream.hsDone = true
  | .up => Inv p.stream ∧ Geometry.ofConfig p.config = .ok p.stream.geo
  | .failed => True

section Setup
variable {config : HordConfig} {sent : Bool} {s t : HordStream}

theorem Idle.update (h : Idle config s) (conn : Connection) (recv send handshake : Bytes)
    (gotSend gotRecv : Bool) (len : Nat) :
    Idle config { s with conn := conn, recv := recv, send := send, handshake := handshake
                         hsGotSend := gotSend, hsGotRecv := gotRecv, hsRecvLen := len } := by
  unfold Idle at *
  rw [HordStream.mk.injEq] at h ⊢
  obtain ⟨-, -, -, h⟩ := h
  tauto

theorem Idle.splitRecv (h : Idle config s) : s.splitRecv = none := by
  unfold Idle at h
  rw [h]
  rfl

theorem hsIds_ne {slot : Nat} (h : slot < slotLimit) :
    (hsRecvWrId == recvWrId slot) = false ∧ (hsSendWrId == recvWrId slot) = false := by
  unfold slotLimit at h
  constructor
  · refine beq_false_of_ne fun e => ?_
    have : u64Max = slot := e
    unfold u64Max at this
    omega
  · refine beq_false_of_ne fun e => ?_
    have : u64Max - 1 = slot := e
    unfold u64Max at this
    omega

theorem Geometry.slot_lt (g : Geometry) {slot : Nat} (h : slot < g.splitBase) : slot < slotLimit := by
  have := g.pool_lt.1
  unfold slotLimit
  omega

theorem slotWr_wrId_ne (g : Geometry) {slot : Nat} (h : slot < g.splitBase) :
    ((g.slotWr slot).wrId == hsRecvWrId) = false ∧ ((g.slotWr slot).wrId == hsSendWrId) = false := by
  have hne := hsIds_ne (g.slot_lt h)
  exact ⟨by rw [BEq.comm]; exact hne.1, by rw [BEq.comm]; exact hne.2⟩

theorem countP_slotWr_range (g : Geometry) (n slot : Nat) :
    ((List.range n).map g.slotWr).countP (fun w => w.wrId == recvWrId slot) =
      if slot < n then 1 else 0 := by
  rw [List.countP_map]
  show (List.range n).countP (fun v => v == slot) = _
  exact List.count_range

/-- A stream as built satisfies the invariant. -/
theorem Pre.init {conn : Connection} (hconn : conn.out = [] ∧ conn.await = [] ∧ conn.cq = [] ∧
    conn.rq = []) (h : newCommon conn config = .ok s) : Pre config false s := by
  obtain ⟨geo, fs, hgeo, rfl⟩ := newCommon_ok h
  obtain ⟨hout, hawait, hcq, hrq⟩ := hconn
  have hids : ∀ slot < geo.splitBase, ((geo.slotWr slot).wrId == hsRecvWrId) = false :=
    fun slot hs => (slotWr_wrId_ne geo hs).1
  refine ⟨hgeo, rfl, List.length_replicate, List.length_replicate, List.length_replicate, ?_, ?_, ?_,
    ?_, ?_, ?_⟩
  · intro w hw
    simp only [HordStream.fresh, hrq, List.nil_append, List.mem_cons, List.mem_map,
      List.mem_range] at hw
    rcases hw with rfl | ⟨slot, hslot, rfl⟩
    · exact .inl rfl
    · exact .inr ⟨slot, hslot, rfl⟩
  · intro w hw
    simp [HordStream.fresh, hout, hawait] at hw
  · intro wc hwc
    simp [HordStream.fresh, hcq] at hwc
  · intro slot hslot
    have hpost : (HordStream.fresh conn geo config fs).conn.posted slot =
        if slot < geo.splitBase then 1 else 0 := by
      unfold Connection.posted HordStream.fresh
      simp only [hrq, List.nil_append, List.countP_cons]
      rw [countP_slotWr_range, show (hsRecvWr.wrId == recvWrId slot) = false from (hsIds_ne hslot).1]
      rfl
    have hcomp : (HordStream.fresh conn geo config fs).conn.completed slot = 0 := by
      unfold Connection.completed HordStream.fresh
      simp only [hcq, List.countP_nil]
    show _ + _ + 0 = _
    rw [hpost, hcomp]
    rfl
  · have hpost : (HordStream.fresh conn geo config fs).conn.rq.countP
        (fun w => w.wrId == hsRecvWrId) = 1 := by
      unfold HordStream.fresh
      simp only [hrq, List.nil_append, List.countP_cons]
      rw [List.countP_eq_zero.mpr]
      · rfl
      · intro w hw
        obtain ⟨slot, hslot, rfl⟩ := List.mem_map.mp hw
        rw [hids slot (List.mem_range.mp hslot)]
        decide
    have hcomp : (HordStream.fresh conn geo config fs).conn.cq.countP
        (fun wc => wc.wrId == hsRecvWrId) = 0 := by
      unfold HordStream.fresh
      simp only [hcq, List.countP_nil]
    rw [hpost, hcomp]
    rfl
  · show Connection.sqCount _ _ + 0 = 0
    unfold Connection.sqCount HordStream.fresh
    simp [hout, hawait, hcq]

/-- Posting our handshake. -/
theorem Pre.hello (h : Pre config false s) (hstep : beginHandshakeSend config s = .ok () t) :
    Pre config true t := by
  obtain ⟨fs, rfl⟩ := wp_ok (beginHandshakeSend_wp config h.hs_len) hstep
  have henc := (myHandshake config).encode_length
  have hlen := h.hs_len
  have hwr : (writeAt s.handshake handshakeLen (myHandshake config).encode).length =
      s.handshake.length := length_writeAt (by omega)
  refine { h with
    idle := h.idle.update _ _ _ _ _ _ _
    hs_len := hwr.trans hlen
    sq := ?_
    hsSend := ?_ }
  · intro w hw
    simp only [List.append_assoc, List.mem_append, List.mem_singleton] at hw
    rcases hw with hw | hw | hw
    · exact h.sq w (List.mem_append_left _ hw)
    · exact hw
    · exact h.sq w (List.mem_append_right _ hw)
  · have hcount := sqCount_push { s.conn with faults := fs } hsSendWr (· == hsSendWrId)
    have h0 := h.hsSend
    have hsame : { s.conn with faults := fs }.sqCount (· == hsSendWrId) =
        s.conn.sqCount (· == hsSendWrId) := rfl
    rw [hsame] at hcount
    have hone : (hsSendWr.wrId == hsSendWrId).toNat = 1 := rfl
    show Connection.sqCount _ _ + s.hsGotSend.toNat = 1
    simp only [Bool.toNat_false] at h0
    rw [hcount]
    omega

/-- Taking a handshake completion off the queue. -/
theorem Pre.hsStep (h : Pre config sent s) {l : Option Completion} (hstep : HsStep s l t) :
    Pre config sent t := by
  cases hstep with
  | tick fs => exact { h with idle := h.idle.update _ _ _ _ _ _ _ }
  | recv wc rest hcq hid hok =>
    -- the id of neither handshake request is the id of a slot
    have hne : ∀ slot < slotLimit, (wc.wrId == recvWrId slot) = false := fun slot hs => by
      rw [hid]; exact (hsIds_ne hs).1
    refine { h with idle := h.idle.update _ _ _ _ _ _ _, cq := ?_, slots := ?_, hsRecv := ?_,
                    hsSend := ?_ }
    · exact fun v hv => h.cq v (by rw [hcq]; exact List.mem_cons_of_mem _ hv)
    · intro slot hs
      have h1 := h.slots slot hs
      have h2 : s.conn.completed slot = (s.setCq rest).conn.completed slot + _ :=
        completed_cons hcq slot
      rw [hne slot hs, Bool.toNat_false, Nat.add_zero] at h2
      unfold HordStream.uses at h1
      rw [h2] at h1
      exact h1
    · have h1 := h.hsRecv
      rw [hcq, List.countP_cons, hid] at h1
      simp only [beq_self_eq_true, if_true] at h1
      show s.conn.rq.countP _ + rest.countP _ + 1 = 1
      omega
    · have h1 := h.hsSend
      rw [sqCount_cons hcq, hid] at h1
      exact h1
  | send wc rest hcq hid hok =>
    have hne : ∀ slot < slotLimit, (wc.wrId == recvWrId slot) = false := fun slot hs => by
      rw [hid]; exact (hsIds_ne hs).2
    refine { h with idle := h.idle.update _ _ _ _ _ _ _, cq := ?_, slots := ?_, hsRecv := ?_,
                    hsSend := ?_ }
    · exact fun v hv => h.cq v (by rw [hcq]; exact List.mem_cons_of_mem _ hv)
    · intro slot hs
      have h1 := h.slots slot hs
      have h2 : s.conn.completed slot = (s.setCq rest).conn.completed slot + _ :=
        completed_cons hcq slot
      rw [hne slot hs, Bool.toNat_false, Nat.add_zero] at h2
      unfold HordStream.uses at h1
      rw [h2] at h1
      exact h1
    · have h1 := h.hsRecv
      rw [hcq, List.countP_cons, hid] at h1
      exact h1
    · have h1 := h.hsSend
      rw [sqCount_cons hcq, hid] at h1
      change (s.setCq rest).conn.sqCount (· == hsSendWrId) + 1 + s.hsGotSend.toNat = sent.toNat at h1
      show (s.setCq rest).conn.sqCount (· == hsSendWrId) + 1 = sent.toNat
      have hb := Bool.toNat_le sent
      omega

/-- The device's moves before the stream is established. -/
theorem Pre.env (h : Pre config sent s) (hstep : Env s t) : Pre config sent t := by
  have hsq : ∀ w ∈ s.conn.out ++ s.conn.await, w.wrId = hsSendWrId := fun w hw => by
    rw [h.sq w hw]
    rfl
  have huses : ∀ slot < slotLimit, t.uses slot = s.uses slot := fun slot hs =>
    hstep.uses fun w hw => by rw [hsq w hw]; exact (hsIds_ne hs).2
  have hrecv : t.conn.rqCount (· == hsRecvWrId) = s.conn.rqCount (· == hsRecvWrId) :=
    hstep.rqCount fun w hw => by rw [hsq w hw]; decide
  have hsend : t.conn.sqCount (· == hsSendWrId) = s.conn.sqCount (· == hsSendWrId) := by
    refine hstep.sqCount fun r hr => ?_
    rcases h.rq r hr with rfl | ⟨slot, hslot, rfl⟩
    · decide
    · exact (slotWr_wrId_ne s.geo hslot).2
  have hrecv' : t.conn.rqCount (· == hsRecvWrId) + s.hsGotRecv.toNat = 1 := by
    rw [hrecv]; exact h.hsRecv
  have hsend' : t.conn.sqCount (· == hsSendWrId) + s.hsGotSend.toNat = sent.toNat := by
    rw [hsend]; exact h.hsSend
  have hslots : ∀ slot < slotLimit, t.uses slot = if slot < s.geo.splitBase then 1 else 0 :=
    fun slot hs => (huses slot hs).trans (h.slots slot hs)
  cases hstep with
  | oracle fs => exact { h with idle := h.idle.update _ _ _ _ _ _ _ }
  | cm e => exact { h with idle := h.idle.update _ _ _ _ _ _ _ }
  | carry w rest hout =>
    refine { h with idle := h.idle.update _ _ _ _ _ _ _, sq := fun v hv => h.sq v ?_
                    slots := hslots, hsRecv := hrecv', hsSend := hsend' }
    rw [hout]
    simp only [List.mem_append, List.cons_append, List.mem_cons] at hv ⊢
    tauto
  | reject ls rs r wc hrq hid hbad =>
    refine { h with idle := h.idle.update _ _ _ _ _ _ _, rq := fun v hv => h.rq v ?_
                    cq := fun v hv => ?_, slots := hslots, hsRecv := hrecv', hsSend := hsend' }
    · rw [hrq]
      simp only [List.mem_append, List.mem_cons] at hv ⊢
      tauto
    · rcases List.mem_append.mp hv with hv | hv
      · exact h.cq v hv
      · rw [List.mem_singleton] at hv
        subst hv
        rcases h.rq r (by rw [hrq]; simp) with rfl | ⟨slot, hslot, rfl⟩
        · exact .inl hid
        · exact .inr (.inr ⟨slot, hslot, hid, fun hok => by rw [hbad] at hok; cases hok⟩)
  | reap ls rs w wc hout hid hop =>
    refine { h with idle := h.idle.update _ _ _ _ _ _ _, sq := fun v hv => h.sq v ?_
                    cq := fun v hv => ?_, slots := hslots, hsRecv := hrecv', hsSend := hsend' }
    · rw [hout]
      simp only [List.mem_append, List.mem_cons] at hv ⊢
      tauto
    · rcases List.mem_append.mp hv with hv | hv
      · exact h.cq v hv
      · rw [List.mem_singleton] at hv
        subst hv
        exact .inr (.inl (hid.trans (hsq w (by rw [hout]; simp))))
  | flush ls rs w wc hout hid hbad =>
    refine { h with idle := h.idle.update _ _ _ _ _ _ _, sq := fun v hv => h.sq v ?_
                    cq := fun v hv => ?_, slots := hslots, hsRecv := hrecv', hsSend := hsend' }
    · rw [hout]
      simp only [List.mem_append, List.mem_cons] at hv ⊢
      tauto
    · rcases List.mem_append.mp hv with hv | hv
      · exact h.cq v hv
      · rw [List.mem_singleton] at hv
        subst hv
        exact .inr (.inl (hid.trans (hsq w (by rw [hout]; simp))))
  | land r rs bytes wc hrq hid hok hop hfit =>
    have hr := h.rq r (by rw [hrq]; exact List.mem_cons_self ..)
    -- the receive lies inside its region
    have hin : r.off + bytes.length ≤ (s.region r.mr).length := by
      rcases hr with rfl | ⟨slot, hslot, rfl⟩
      · have := h.hs_len
        show 0 + bytes.length ≤ s.handshake.length
        have : bytes.length ≤ handshakeLen := hfit
        omega
      · have hle := slotWr_length_le s.geo slot
        have hmul := Nat.mul_le_mul_right s.geo.msgSize (Nat.succ_le_of_lt hslot)
        rw [Nat.succ_mul, ← h.recv_len] at hmul
        simp only [Geometry.slotWr, Geometry.place, if_pos hslot, HordStream.region] at hfit hle ⊢
        omega
    have hreg := landed_region_length rs wc (length_writeAt hin)
    obtain ⟨recv, split, send, hs, heq, hsome⟩ := landed_eq (s := s) r rs bytes wc
    rw [h.idle.splitRecv] at hsome
    have hnone : split = s.splitRecv := by
      rw [h.idle.splitRecv]
      cases split with
      | none => rfl
      | some b => cases hsome
    rw [heq] at hreg hslots hrecv' hsend' ⊢
    rw [hnone] at hreg hslots hrecv' hsend' ⊢
    refine { h with
      idle := h.idle.update _ _ _ _ _ _ _
      recv_len := (hreg .recv).trans h.recv_len
      send_len := (hreg .send).trans h.send_len
      hs_len := (hreg .handshake).trans h.hs_len
      rq := fun v hv => h.rq v ?_
      cq := fun v hv => ?_
      slots := hslots, hsRecv := hrecv', hsSend := hsend' }
    · rw [hrq]
      exact List.mem_cons_of_mem _ hv
    · rcases List.mem_append.mp hv with hv | hv
      · exact h.cq v hv
      · rw [List.mem_singleton] at hv
        subst hv
        rcases hr with rfl | ⟨slot, hslot, rfl⟩
        · exact .inl hid
        · exact .inr (.inr ⟨slot, hslot, hid, fun _ => hop⟩)

/-- The established stream: the agreed windows and modes, and `n` split receives
    behind the eager ones. -/
def HordStream.established (s : HordStream) (peer : Handshake) (split : Option Bytes) (n : Nat)
    (watch : Bool) (fs : List Bool) : HordStream :=
  { s.agreed peer with
    splitRecv := split
    cmWatch := watch
    conn := { s.conn with
      rq := s.conn.rq ++ (List.range' s.geo.splitBase n).map s.geo.slotWr
      faults := fs } }

/-- The split region fits its `n` receives. -/
def SplitOk (g : Geometry) (split : Option Bytes) (n : Nat) : Prop :=
  split = none ∧ n = 0 ∨
    n = g.splitHeadroom ∧ n * g.msgSize ≤ allocMax ∧ split = some (List.replicate (n * g.msgSize) 0)

theorem finished_established {peer : Handshake} (watch : Bool) (fs : List Bool)
    (hnone : s.splitRecv = none)
    (hfit : ((s.agreed peer).splitMode && decide (0 < s.geo.splitHeadroom)) = true →
      s.geo.splitHeadroom * s.geo.msgSize ≤ allocMax) :
    ∃ split n, SplitOk s.geo split n ∧
      s.finished peer watch fs = s.established peer split n watch fs := by
  by_cases hc : ((s.agreed peer).splitMode && decide (0 < s.geo.splitHeadroom)) = true
  · refine ⟨some (List.replicate (s.geo.splitHeadroom * s.geo.msgSize) 0), s.geo.splitHeadroom,
      .inr ⟨rfl, hfit hc, rfl⟩, ?_⟩
    unfold HordStream.finished
    simp only
    rw [if_pos (show ((s.agreed peer).splitMode && decide (0 < (s.agreed peer).geo.splitHeadroom)) =
      true from hc)]
    rfl
  · refine ⟨none, 0, .inl ⟨rfl, rfl⟩, ?_⟩
    unfold HordStream.finished
    simp only
    rw [if_neg (show ¬((s.agreed peer).splitMode &&
      decide (0 < (s.agreed peer).geo.splitHeadroom)) = true from hc)]
    unfold HordStream.established
    rw [HordStream.mk.injEq]
    simp [HordStream.agreed, hnone]

theorem established_slotCount (peer : Handshake) {split : Option Bytes} {n : Nat} (watch : Bool)
    (fs : List Bool) (h : SplitOk s.geo split n) :
    (s.established peer split n watch fs).slotCount = s.geo.splitBase + n := by
  unfold HordStream.slotCount HordStream.established HordStream.agreed
  rcases h with ⟨rfl, rfl⟩ | ⟨rfl, -, rfl⟩ <;> simp

theorem countP_slotWr_range' (g : Geometry) (n slot : Nat) :
    ((List.range' g.splitBase n).map g.slotWr).countP (fun w => w.wrId == recvWrId slot) =
      if g.splitBase ≤ slot ∧ slot < g.splitBase + n then 1 else 0 := by
  rw [List.countP_map]
  exact List.count_range_1'

/-- Once both handshake completions are in, no handshake request is left anywhere:
    the connection holds eager receives only. -/
theorem Pre.settled (h : Pre config true s) (hdone : s.hsDone = true) :
    s.conn.out = [] ∧ s.conn.await = [] ∧
    (∀ w ∈ s.conn.rq, ∃ slot < s.geo.splitBase, w = s.geo.slotWr slot) ∧
    (∀ wc ∈ s.conn.cq, ∃ slot < s.geo.splitBase, wc.wrId = recvWrId slot ∧
      (wc.isSuccess = true → wc.opcode = .recv ∨ wc.opcode = .recvRdmaWithImm)) := by
  simp only [HordStream.hsDone, Bool.and_eq_true] at hdone
  have hr := h.hsRecv
  have hs := h.hsSend
  rw [hdone.1, Bool.toNat_true] at hr
  rw [hdone.2, Bool.toNat_true] at hs
  simp only [Connection.sqCount] at hs
  -- each handshake request was counted once, and that was its completion
  have hout : s.conn.out.countP (fun w => w.wrId == hsSendWrId) = 0 := by omega
  have hawait : s.conn.await.countP (fun w => w.wrId == hsSendWrId) = 0 := by omega
  have hcqs : s.conn.cq.countP (fun wc => wc.wrId == hsSendWrId) = 0 := by omega
  have hrq : s.conn.rq.countP (fun w => w.wrId == hsRecvWrId) = 0 := by omega
  have hcqr : s.conn.cq.countP (fun wc => wc.wrId == hsRecvWrId) = 0 := by omega
  rw [List.countP_eq_zero] at hout hawait hcqs hrq hcqr
  refine ⟨?_, ?_, fun w hw => ?_, fun wc hwc => ?_⟩
  · refine List.eq_nil_iff_forall_not_mem.mpr fun w hw => hout w hw ?_
    rw [h.sq w (List.mem_append_left _ hw)]
    rfl
  · refine List.eq_nil_iff_forall_not_mem.mpr fun w hw => hawait w hw ?_
    rw [h.sq w (List.mem_append_right _ hw)]
    rfl
  · rcases h.rq w hw with rfl | hslot
    · exact absurd rfl (hrq hsRecvWr hw)
    · exact hslot
  · rcases h.cq wc hwc with hid | hid | hslot
    · exact absurd (by rw [hid]; rfl) (hcqr wc hwc)
    · exact absurd (by rw [hid]; rfl) (hcqs wc hwc)
    · exact hslot

theorem idle_fields (h : Idle config s) : s.sendFree = List.range s.geo.sendPool ∧
    s.txStage = [] ∧ s.rxReady = [] ∧ s.grantPending = 0 ∧ s.ctrlSendBusy = false ∧
    s.writesOutstanding = 0 ∧ s.immOutstanding = 0 ∧ s.completedTransfers = [] ∧
    s.peerClosed = false ∧ s.zeroCopy = config.zeroCopy ∧ s.splitMode = config.splitMode := by
  unfold Idle at h
  rw [h]
  exact ⟨rfl, rfl, rfl, rfl, rfl, rfl, rfl, rfl, rfl, rfl, rfl⟩

theorem sqCount_eq_zero {c : Connection} {p : Nat → Bool} (hout : c.out = []) (hawait : c.await = [])
    (hcq : ∀ wc ∈ c.cq, p wc.wrId = false) : c.sqCount p = 0 := by
  have hz : c.cq.countP (fun wc => p wc.wrId) = 0 := by
    rw [List.countP_eq_zero]
    intro wc hwc
    rw [hcq wc hwc]
    decide
  unfold Connection.sqCount
  rw [hout, hawait, hz]
  rfl

theorem applyPeer_geo {peer : Handshake} (h : applyPeer peer s = .ok () t) : t.geo = s.geo := by
  obtain ⟨-, -, watch, fs, rfl⟩ := wp_ok (applyPeer_wp s peer) h
  unfold HordStream.finished
  simp only
  split <;> rfl

/-- An established stream starts well-formed, with its books in order and every
    slot in one place. -/
theorem Pre.established (h : Pre config true s) (hdone : s.hsDone = true) {peer : Handshake}
    (hstep : applyPeer peer s = .ok () t) : Inv t ∧ SlotsFull t := by
  obtain ⟨hout, hawait, hrq, hcq⟩ := h.settled hdone
  obtain ⟨hfree, hstage, hready, -, hbusy, hwr, himm, -, -, -, -⟩ := idle_fields h.idle
  obtain ⟨heff, hfit, watch, fs, rfl⟩ := wp_ok (applyPeer_wp s peer) hstep
  obtain ⟨split, n, hsplit, heq⟩ := finished_established watch fs h.idle.splitRecv hfit
  have hcount := established_slotCount peer watch fs hsplit
  have hmax := peer.maxMessageSize.toNat_lt
  have hle : s.effective peer ≤ s.geo.msgSize ∧ s.effective peer ≤ peer.maxMessageSize.toNat :=
    ⟨Nat.min_le_left _ _, Nat.min_le_right _ _⟩
  have hfacts : ∀ wc ∈ s.conn.cq, ∃ v, IdFacts s.geo wc.wrId (.recv v) := by
    intro wc hwc
    obtain ⟨v, hv, hid, -⟩ := hcq wc hwc
    have hof : (IdKind.recv v).Of s.geo s.geo.splitBase wc.wrId := ⟨hv, s.geo.slot_lt hv, hid⟩
    exact ⟨v, hof.facts⟩
  rw [heq]
  -- the stream was idle until now, so only the receives speak about slots
  have hwf : Wf (s.established peer split n watch fs) := by
    refine ⟨h.recv_len, h.send_len, ?_, ?_, ?_, ?_, ?_, ?_, ?_, ?_, ?_, ?_⟩
    · intro b hb
      rcases hsplit with ⟨rfl, -⟩ | ⟨hn, hmem, rfl⟩
      · cases hb
      · cases hb
        rw [List.length_replicate]
        exact ⟨by rw [hn]; rfl, hmem⟩
    · show 0 < s.effective peer - envelopeLen
      omega
    · show s.effective peer - envelopeLen + envelopeLen ≤ s.geo.msgSize
      omega
    · show s.effective peer - envelopeLen + envelopeLen < 2 ^ 32
      omega
    · show s.txStage.length < s.effective peer - envelopeLen
      rw [hstage, List.length_nil]
      omega
    · intro slot hslot
      have : slot ∈ s.sendFree := hslot
      rw [hfree, List.mem_range] at this
      exact this
    · intro m hm
      have : m ∈ s.rxReady := hm
      rw [hready] at this
      cases this
    · rw [hcount]
      intro w hw
      rcases List.mem_append.mp hw with hw | hw
      · obtain ⟨slot, hslot, rfl⟩ := hrq w hw
        exact ⟨slot, by omega, rfl⟩
      · obtain ⟨slot, hslot, rfl⟩ := List.mem_map.mp hw
        exact ⟨slot, (List.mem_range'_1.mp hslot).2, rfl⟩
    · intro w hw
      have : w ∈ s.conn.out ++ s.conn.await := hw
      rw [hout, hawait] at this
      cases this
    · rw [hcount]
      intro wc hwc
      obtain ⟨slot, hslot, hid, hop⟩ := hcq wc hwc
      exact .recv slot (by omega) hid hop
  -- the eager slots were posted before, the split ones just now
  have huses : ∀ slot < slotLimit, (s.established peer split n watch fs).uses slot =
      if slot < s.geo.splitBase + n then 1 else 0 := by
    intro slot hs
    have h1 := h.slots slot hs
    have h2 := countP_slotWr_range' s.geo n slot
    have h3 : (s.established peer split n watch fs).conn.posted slot = s.conn.posted slot + _ :=
      List.countP_append
    show (s.established peer split n watch fs).conn.posted slot + s.conn.completed slot +
      s.heldIn slot = _
    unfold HordStream.uses at h1
    rw [h3, h2]
    by_cases hlo : slot < s.geo.splitBase
    · rw [if_pos hlo] at h1
      rw [if_neg (by omega), if_pos (by omega)]
      omega
    · rw [if_neg hlo] at h1
      by_cases hhi : slot < s.geo.splitBase + n
      · rw [if_pos ⟨by omega, hhi⟩, if_pos hhi]
        omega
      · rw [if_neg (by omega), if_neg hhi]
        omega
  -- nothing was sent yet: every tally is zero on both sides
  refine ⟨⟨hwf, ?_, ?_, ?_, ?_, ?_⟩, ?_⟩
  · intro slot hs
    rw [huses slot hs, hcount]
  · intro slot hs
    have hz : s.conn.sqCount (· == sendWrId slot) = 0 := sqCount_eq_zero hout hawait fun wc hwc => by
      obtain ⟨v, hf⟩ := hfacts wc hwc
      exact hf.dataId slot hs
    refine tally_of_eq ?_
    show s.sendFree.count slot + s.conn.sqCount (· == sendWrId slot) = _
    rw [hz, hfree]
    exact List.count_range
  · have hz : s.conn.sqCount (· == ctrlSendWrId s.geo.ctrlSlot) = 0 :=
      sqCount_eq_zero hout hawait fun wc hwc => by
        obtain ⟨v, hf⟩ := hfacts wc hwc
        exact hf.ctrlId
    refine tally_of_eq ?_
    show s.conn.sqCount (· == ctrlSendWrId s.geo.ctrlSlot) = s.ctrlSendBusy.toNat
    rw [hz, hbusy]
    rfl
  · have hz : s.conn.sqCount isWrite = 0 := sqCount_eq_zero hout hawait fun wc hwc => by
      obtain ⟨v, hf⟩ := hfacts wc hwc
      exact hf.write
    refine tally_of_eq ?_
    show s.conn.sqCount isWrite = s.writesOutstanding
    rw [hz, hwr]
  · have hz : s.conn.sqCount isImmId = 0 := sqCount_eq_zero hout hawait fun wc hwc => by
      obtain ⟨v, hf⟩ := hfacts wc hwc
      exact hf.imm
    refine tally_of_eq ?_
    show s.conn.sqCount isImmId = s.immOutstanding
    rw [hz, himm]
  · intro slot hs
    rw [huses slot (hwf.slotCount_lt hs), if_pos (by rw [← hcount]; exact hs)]

end Setup

/-- Every move keeps the invariant of an endpoint. -/
theorem Party.Step.ok {p q : Party} {m : Move} (h : Party.Step p m q) (hp : p.Ok) : q.Ok := by
  unfold Party.Ok at *
  cases h with
  | env t he =>
    cases hph : p.phase with
    | fresh => rw [hph] at hp; exact Pre.env hp he
    | exchanging => rw [hph] at hp; exact Pre.env hp he
    | got peer =>
      rw [hph] at hp
      refine ⟨Pre.env hp.1 he, ?_⟩
      obtain ⟨_, _, _, _, _, rfl, -⟩ := he.fields
      exact hp.2
    | up =>
      rw [hph] at hp
      have hgeo : t.geo = p.stream.geo := by
        obtain ⟨_, _, _, _, _, rfl, -⟩ := he.fields
        rfl
      exact ⟨he.inv hp.1, hgeo ▸ hp.2⟩
    | failed => trivial
  | hello t hph hr => rw [hph] at hp; exact hp.hello hr
  | wait t hph hr =>
    rw [hph] at hp
    have hlen : handshakeLen ≤ p.stream.handshake.length := by rw [hp.hs_len]; decide
    obtain ⟨⟨ls, hrun⟩, -⟩ := wp_ok (pollHandshake_wp hlen) hr
    have ht : Pre p.config true t := hrun.inv (fun _ _ _ hi hs => Pre.hsStep hi hs) hp
    rw [hph]
    exact ht
  | peer t peer hph hr =>
    rw [hph] at hp
    have hlen : handshakeLen ≤ p.stream.handshake.length := by rw [hp.hs_len]; decide
    obtain ⟨⟨ls, hrun⟩, hdone, -⟩ := wp_ok (pollHandshake_wp hlen) hr
    exact ⟨hrun.inv (fun _ _ _ hi hs => Pre.hsStep hi hs) hp, hdone⟩
  | apply t peer hph hr =>
    rw [hph] at hp
    exact ⟨(hp.1.established hp.2 hr).1, applyPeer_geo hr ▸ hp.1.geo⟩
  | broke t e hr => trivial
  | act t a v hph hr =>
    rw [hph] at hp
    rw [hph]
    exact ⟨Act.run_inv hp.1 hr, (Act.run_reaches hp.1 hr).geo ▸ hp.2⟩
  | actErr t a e hph hr =>
    rw [hph] at hp
    rw [hph]
    have hreach := (Act.run_reaches_error hp.1 hr).1
    exact ⟨hreach.inv hp.1, hreach.geo ▸ hp.2⟩

theorem Party.Init.ok {p : Party} (h : p.Init) : p.Ok := by
  obtain ⟨hph, sge, fs, hnew⟩ := h
  unfold Party.Ok
  rw [hph]
  exact Pre.init ⟨rfl, rfl, rfl, rfl⟩ hnew

/-- An established stream of a run from the start satisfies its invariant. -/
theorem Party.Init.inv {p q : Party} {ms : List Move} (hinit : p.Init) (hrun : Run Party.Step p ms q)
    (hup : q.phase = .up) : Inv q.stream := by
  have hok : q.Ok := hrun.inv (fun _ _ _ hp hs => hs.ok hp) hinit.ok
  rw [Party.Ok, hup] at hok
  exact hok.1

/-- What holds of a stream once the peer's handshake is applied, and is kept by its calls
    and by its device, holds of every established stream. -/
theorem Party.Init.established {I : HordStream → Prop} {p q : Party} {ms : List Move} (hinit : p.Init)
    (hrun : Run Party.Step p ms q)
    (hstart : ∀ {config s t peer}, Pre config true s → s.hsDone = true → applyPeer peer s = .ok () t → I t)
    (hcalls : ∀ {s t}, Inv s → Reaches s t → I s → I t) (henv : ∀ {s t}, Inv s → Env s t → I s → I t)
    (hup : q.phase = .up) : I q.stream := by
  refine (hrun.inv (I := fun u : Party => u.Ok ∧ (u.phase = .up → I u.stream))
    (fun u m v hu hs => ⟨hs.ok hu.1, ?_⟩) ⟨hinit.ok, fun h => ?_⟩).2 hup
  · obtain ⟨hok, hI⟩ := hu
    unfold Party.Ok at hok
    intro hv
    cases hs with
    | env t he =>
      have hph : u.phase = .up := hv
      rw [hph] at hok
      exact henv hok.1 he (hI hph)
    | hello t hph hr => cases hv
    | wait t hph hr =>
      rw [hph] at hv
      cases hv
    | peer t k hph hr => cases hv
    | apply t k hph hr =>
      rw [hph] at hok
      exact hstart hok.1 hok.2 hr
    | broke t e hr => cases hv
    | act t a r hph hr =>
      rw [hph] at hok
      exact hcalls hok.1 (Act.run_reaches hok.1 hr) (hI hph)
    | actErr t a e hph hr =>
      rw [hph] at hok
      exact hcalls hok.1 (Act.run_reaches_error hok.1 hr).1 (hI hph)
  · rw [hinit.1] at h
    cases h

/-! Runs that can be computed. -/

/-- One move, as a script names it. -/
inductive Cmd where
  | oracle (fs : List Bool)
  | carry
  | land (bytes : Bytes) (wc : Completion)
  | reap (wc : Completion)
  | cm (e : CmEvent)
  | setup
  | act (a : Act)

/-- The next setup call of an endpoint. -/
def Party.setup (p : Party) : Option (Move × Party) :=
  match p.phase with
  | .fresh =>
    match beginHandshakeSend p.config p.stream with
    | .ok _ t => some (.hello, { p with stream := t, phase := .exchanging })
    | .error e t => some (.broke e, { p with stream := t, phase := .failed })
  | .exchanging =>
    match pollHandshake p.stream with
    | .ok none t => some (.poll none, { p with stream := t })
    | .ok (some peer) t => some (.poll (some peer), { p with stream := t, phase := .got peer })
    | .error e t => some (.broke e, { p with stream := t, phase := .failed })
  | .got peer =>
    match applyPeer peer p.stream with
    | .ok _ t => some (.apply, { p with stream := t, phase := .up })
    | .error e t => some (.broke e, { p with stream := t, phase := .failed })
  | .up => none
  | .failed => none

/-- A device move on a stream; `none` when it is not possible. -/
def Cmd.device (s : HordStream) : Cmd → Option HordStream
  | .oracle fs => some (s.setFaults fs)
  | .carry =>
    match s.conn.out with
    | [] => none
    | w :: rest => some { s with conn := { s.conn with out := rest, await := s.conn.await ++ [w] } }
  | .land bytes wc =>
    match s.conn.rq with
    | [] => none
    | r :: rs =>
      if wc.wrId = r.wrId ∧ wc.isSuccess = true ∧
          (wc.opcode = .recv ∨ wc.opcode = .recvRdmaWithImm) ∧ bytes.length ≤ r.length then
        some (s.landed r rs bytes wc)
      else none
  | .reap wc =>
    match s.conn.await with
    | [] => none
    | w :: rs =>
      if wc.wrId = w.wrId ∧ (wc.isSuccess = true → wc.opcode = w.opcode) then
        some { s with conn := { s.conn with await := rs, cq := s.conn.cq ++ [wc] } }
      else none
  | .cm e => some { s with conn := { s.conn with cmq := s.conn.cmq ++ [e] } }
  | .setup => none
  | .act _ => none

def Party.exec (p : Party) : Cmd → Option (Move × Party)
  | .setup => p.setup
  | .act a =>
    if p.phase = .up then
      match a.run p.stream with
      | .ok v t => some (.act a (.ok v), { p with stream := t })
      | .error e t => some (.act a (.error e), { p with stream := t })
    else none
  | c => (c.device p.stream).map fun t => (.env, { p with stream := t })

/-- Carry a script out, as long as `guard` allows every move. -/
def Party.script (guard : Party → Move → Bool) (p : Party) : List Cmd → Option Party
  | [] => some p
  | c :: cs =>
    match p.exec c with
    | none => none
    | some (m, q) => if guard p m then q.script guard cs else none

theorem Cmd.device_env {s t : HordStream} {c : Cmd} (h : c.device s = some t) : Env s t := by
  cases c with
  | oracle fs => cases h; exact .oracle s fs
  | carry =>
    simp only [Cmd.device] at h
    split at h
    · cases h
    · next w rest hout => cases h; exact .carry s w rest hout
  | land bytes wc =>
    simp only [Cmd.device] at h
    split at h
    · cases h
    · next r rs hrq =>
      split at h
      · next hc =>
        cases h
        exact .land s r rs bytes wc hrq hc.1 hc.2.1 hc.2.2.1 hc.2.2.2
      · cases h
  | reap wc =>
    simp only [Cmd.device] at h
    split at h
    · cases h
    · next w rs hout =>
      split at h
      · next hc =>
        cases h
        exact .reap s [] rs w wc hout hc.1 hc.2
      · cases h
  | cm e => cases h; exact .cm s e
  | setup => cases h
  | act a => cases h

theorem Party.exec_step {p q : Party} {c : Cmd} {m : Move} (h : p.exec c = some (m, q)) :
    Party.Step p m q := by
  have device : ∀ c : Cmd, (c.device p.stream).map (fun t => (Move.env, { p with stream := t })) =
      some (m, q) → Party.Step p m q := by
    intro c h
    cases ht : c.device p.stream with
    | none => rw [ht] at h; cases h
    | some t =>
      rw [ht] at h
      cases h
      exact .env p t (Cmd.device_env ht)
  cases c with
  | setup =>
    simp only [Party.exec, Party.setup] at h
    split at h
    · next hp =>
      split at h
      · next t hr => cases h; exact .hello p t hp hr
      · next e t hr => cases h; exact .broke p t e (.inl ⟨hp, hr⟩)
    · next hp =>
      split at h
      · next t hr => cases h; exact .wait p t hp hr
      · next peer t hr => cases h; exact .peer p t peer hp hr
      · next e t hr => cases h; exact .broke p t e (.inr (.inl ⟨hp, hr⟩))
    · next peer hp =>
      split at h
      · next t hr => cases h; exact .apply p t peer hp hr
      · next e t hr => cases h; exact .broke p t e (.inr (.inr ⟨peer, hp, hr⟩))
    · cases h
    · cases h
  | act a =>
    simp only [Party.exec] at h
    split at h
    · next hp =>
      split at h
      · next v t hr => cases h; exact .act p t a v hp hr
      · next e t hr => cases h; exact .actErr p t a e hp hr
    · cases h
  | oracle fs => exact device (.oracle fs) h
  | carry => exact device .carry h
  | land bytes wc => exact device (.land bytes wc) h
  | reap wc => exact device (.reap wc) h
  | cm e => exact device (.cm e) h

theorem Party.script_run {guard : Party → Move → Bool} (cs : List Cmd) {p q : Party}
    (h : p.script guard cs = some q) :
    ∃ ms, Run (fun p m q => Party.Step p m q ∧ guard p m = true) p ms q := by
  induction cs generalizing p with
  | nil => cases h; exact ⟨[], .nil _⟩
  | cons c cs ih =>
    simp only [Party.script] at h
    split at h
    · cases h
    · next m r hr =>
      split at h
      · next hg =>
        obtain ⟨ms, hrun⟩ := ih h
        exact ⟨m :: ms, .cons ⟨Party.exec_step hr, hg⟩ hrun⟩
      · cases h

/-- Build an endpoint on a connection the device never refuses and carry a script
    out. -/
def Party.launch (guard : Party → Move → Bool) (config : HordConfig) (cs : List Cmd) : Option Party :=
  match newCommon (Connection.new 1) config with
  | .ok s => Party.script guard ⟨config, s, .fresh⟩ cs
  | .error _ => none

theorem Party.launch_run (guard : Party → Move → Bool) (config : HordConfig) (cs : List Cmd)
    (good : Party → Bool) (h : (Party.launch guard config cs).any good = true) :
    ∃ p ms q, p.Init ∧ Run (fun p m q => Party.Step p m q ∧ guard p m = true) p ms q ∧
      good q = true := by
  unfold Party.launch at h
  cases hnew : newCommon (Connection.new 1) config with
  | error e => rw [hnew] at h; cases h
  | ok s =>
    rw [hnew] at h
    simp only at h
    cases hs : Party.script guard ⟨config, s, .fresh⟩ cs with
    | none => rw [hs] at h; cases h
    | some q =>
      rw [hs] at h
      obtain ⟨ms, hrun⟩ := Party.script_run cs hs
      exact ⟨⟨config, s, .fresh⟩, ms, q, ⟨rfl, 1, [], hnew⟩, hrun, h⟩

/-- The same for a machine built around the endpoint. -/
theorem Party.play_run {σ ℓ κ : Type} {step : σ → ℓ → σ → Prop} {exec : σ → κ → Option (ℓ × σ)}
    (hexec : ∀ u c l v, exec u c = some (l, v) → step u l v) (start : Party → σ) (guard : σ → ℓ → Bool)
    (config : HordConfig) (cs : List κ) (good : List ℓ → σ → Bool)
    (h : (newCommon (Connection.new 1) config).toOption.any (fun s =>
      (play exec guard (start ⟨config, s, .fresh⟩) cs).any fun r => good r.1 r.2) = true) :
    ∃ p ls u, p.Init ∧ Run (fun u l v => step u l v ∧ guard u l = true) (start p) ls u ∧ good ls u = true := by
  cases hnew : newCommon (Connection.new 1) config with
  | error e => rw [hnew] at h; cases h
  | ok s =>
    rw [hnew] at h
    obtain ⟨ls, u, hrun, hgood⟩ := play_good hexec h
    exact ⟨⟨config, s, .fresh⟩, ls, u, ⟨rfl, 1, [], hnew⟩, hrun, hgood⟩

end Hord
