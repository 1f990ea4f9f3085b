import Hord.Conservation

/- The windows an endpoint sends into. The sizes of a configuration are `usize` and go
   through three casts, to the `u16` window and the `u32` size on the wire and to the
   `u32` length of a receive request; whether they fit or not, an endpoint that took its
   peer's handshake starts with no more credits than the peer posted receives, and posts
   no message that is longer than they are (`windows_fit`). -/
namespace Hord

open Region Prog Transition

/-! An endpoint towards the peer whose handshake it was given. -/

/-- The largest message is the smaller of the endpoint's own and of the size in `peer`. -/
def Party.CapOf (peer : Handshake) (p : Party) : Prop :=
  p.phase = .up →
    p.stream.payloadCap + envelopeLen = min p.stream.geo.msgSize peer.maxMessageSize.toNat

/-- The endpoint knows no other handshake than `peer`, and sends no more than it allows. -/
structure Party.Heeds (peer : Handshake) (p : Party) : Prop where
  got : ∀ h, p.phase = .got h → h = peer
  cap : p.CapOf peer

section Heeding
variable {s t : HordStream} {p q : Party} {m : Hord.Move} {peer : Handshake}

theorem Handled.payloadCap {wc : Completion} {ok : Bool} (h : Handled s wc ok t) :
    t.payloadCap = s.payloadCap :=
  h.unseen ⟨fun _ => rfl, fun _ _ => rfl, fun _ _ _ _ _ => rfl, fun _ _ _ _ _ => rfl⟩

theorem Local.payloadCap {o : Obs} (h : Local s o t) : t.payloadCap = s.payloadCap := by
  cases h with
  | handle _ _ _ _ _ hh => exact hh.payloadCap
  | _ => rfl

theorem Reaches.payloadCap (h : Reaches s t) : t.payloadCap = s.payloadCap := by
  obtain ⟨os, hr⟩ := h
  exact hr.inv (I := fun u => u.payloadCap = s.payloadCap)
    (fun u o v hu hl => hl.payloadCap.trans hu) rfl

/-- A call of an established endpoint, whatever it returns, is a run of changes. -/
theorem Party.Step.reaches {a : Act} {r : Except Fail Res} (h : Party.Step p (.act a r) q)
    (hok : p.Ok) : p.phase = .up ∧ q.phase = .up ∧ Inv p.stream ∧ Reaches p.stream q.stream := by
  rw [Party.Ok] at hok
  cases h with
  | act t _ v hph hr =>
    rw [hph] at hok
    exact ⟨hph, hph, hok.1, Act.run_reaches hok.1 hr⟩
  | actErr t _ e hph hr =>
    rw [hph] at hok
    exact ⟨hph, hph, hok.1, (Act.run_reaches_error hok.1 hr).1⟩

theorem applyPeer_window (h : applyPeer peer s = .ok () t) :
    t.sendCredits = peer.maxRecvBuffers.toNat ∧
      t.payloadCap + envelopeLen = min t.geo.msgSize peer.maxMessageSize.toNat := by
  have hgeo := applyPeer_geo h
  obtain ⟨heff, -, watch, fs, rfl⟩ := wp_ok (applyPeer_wp s peer) h
  have hcap : s.effective peer - envelopeLen + envelopeLen = s.effective peer :=
    Nat.sub_add_cancel heff.le
  -- the split headroom touches neither field
  have hfields : (s.finished peer watch fs).sendCredits = peer.maxRecvBuffers.toNat ∧
      (s.finished peer watch fs).payloadCap = s.effective peer - envelopeLen := by
    simp only [HordStream.finished]
    split <;> exact ⟨rfl, rfl⟩
  rw [hgeo, hfields.1, hfields.2, hcap]
  exact ⟨rfl, rfl⟩

/-- Every move keeps the largest message, which the peer's handshake fixes. -/
theorem Party.Step.capOf (h : Party.Step p m q) (hok : p.Ok) (hgot : ∀ k, p.phase = .got k → k = peer)
    (hp : p.CapOf peer) : q.CapOf peer := by
  cases h with
  | env t he =>
    obtain ⟨_, _, _, _, _, heq, -⟩ := he.fields
    intro hup
    rw [heq]
    exact hp hup
  | hello t hph hr => nofun
  | wait t hph hr =>
    intro hup
    rw [hph] at hup
    cases hup
  | peer t k hph hr => nofun
  | apply t k hph hr =>
    intro _
    rw [← hgot k hph]
    exact (applyPeer_window hr).2
  | broke t e hr => nofun
  | act t a v hph hr =>
    have hreach := ((Party.Step.act p t a v hph hr).reaches hok).2.2.2
    intro _
    rw [hreach.payloadCap, hreach.geo]
    exact hp hph
  | actErr t a e hph hr =>
    have hreach := ((Party.Step.actErr p t a e hph hr).reaches hok).2.2.2
    intro _
    rw [hreach.payloadCap, hreach.geo]
    exact hp hph

/-- Every move keeps to the peer's handshake, as long as the exchange yields no other. -/
theorem Party.Step.heeds (h : Party.Step p m q) (hok : p.Ok) (hp : p.Heeds peer)
    (hm : ∀ k, m = .poll (some k) → k = peer) : q.Heeds peer := by
  refine ⟨fun k hk => ?_, h.capOf hok hp.got hp.cap⟩
  cases h with
  | peer t k' hph hr =>
    cases hk
    exact hm k rfl
  | hello t hph hr => cases hk
  | apply t k' hph hr => cases hk
  | broke t e hr => cases hk
  | env t he => exact hp.got k hk
  | wait t hph hr => exact hp.got k hk
  | act t a v hph hr => exact hp.got k hk
  | actErr t a e hph hr => exact hp.got k hk

theorem heeds_run {ms : List Hord.Move} (hrun : Run Party.Step p ms q) (hok : p.Ok)
    (hp : p.Heeds peer) (hm : ∀ k, .poll (some k) ∈ ms → k = peer) : q.Ok ∧ q.Heeds peer := by
  refine hrun.inv_of_labels (I := fun u => u.Ok ∧ u.Heeds peer)
    (P := fun m => ∀ k, m = .poll (some k) → k = peer) (fun u m v hu hl hs => ?_) (fun m hmem => ?_)
    ⟨hok, hp⟩
  · exact ⟨hs.ok hu.1, hs.heeds hu.1 hu.2 hl⟩
  · rintro k rfl
    exact hm k hmem

theorem Party.Step.stays_up (h : Party.Step p m q) (hup : p.phase = .up) :
    q.phase = .up ∧ ∀ k, m ≠ .poll (some k) := by
  cases h with
  | env t he => exact ⟨hup, nofun⟩
  | hello t hph hr => rw [hph] at hup; cases hup
  | wait t hph hr => rw [hph] at hup; cases hup
  | peer t k hph hr => rw [hph] at hup; cases hup
  | apply t k hph hr => rw [hph] at hup; cases hup
  | broke t e hr =>
    rcases hr with ⟨hph, -⟩ | ⟨hph, -⟩ | ⟨k, hph, -⟩
    all_goals
      rw [hph] at hup
      cases hup
  | act t a v hph hr => exact ⟨hph, nofun⟩
  | actErr t a e hph hr => exact ⟨hph, nofun⟩

theorem up_run {ms : List Hord.Move} (hrun : Run Party.Step p ms q) (hup : p.phase = .up) :
    q.phase = .up ∧ ∀ k, .poll (some k) ∉ ms := by
  refine hrun.inv_trace (I := fun ms u => u.phase = .up ∧ ∀ k, .poll (some k) ∉ ms)
    (fun ms u m v hu hs => ?_) ⟨hup, nofun⟩
  obtain ⟨hv, hno⟩ := hs.stays_up hu.1
  refine ⟨hv, fun k hk => ?_⟩
  rcases List.mem_append.mp hk with hk | hk
  · exact hu.2 k hk
  · exact hno k (List.mem_singleton.mp hk).symm

end Heeding

theorem window_le (config : HordConfig) :
    (myHandshake config).maxRecvBuffers.toNat ≤ config.recvPoolSize := by
  rw [(myHandshake_fields config).2.2.1]
  exact Nat.mod_le _ _

/-- Every receive an endpoint has posted, the handshake's apart, is as long as the size
    it advertises. -/
theorem Party.Ok.rq_length {q : Party} (h : q.Ok) (halive : q.phase ≠ .failed) {r : RecvWr}
    (hr : r ∈ q.stream.conn.rq) (hne : r ≠ hsRecvWr) :
    r.length = (myHandshake q.config).maxMessageSize.toNat := by
  have hsize : ∀ {g : Geometry} (slot : Nat), Geometry.ofConfig q.config = .ok g →
      (g.slotWr slot).length = (myHandshake q.config).maxMessageSize.toNat := by
    intro g slot hg
    rw [(myHandshake_fields q.config).2.1, ← (ofConfig_ok hg).1]
    rfl
  have pre : ∀ sent, Pre q.config sent q.stream →
      r.length = (myHandshake q.config).maxMessageSize.toNat := by
    intro sent hpre
    rcases hpre.rq r hr with rfl | ⟨slot, -, rfl⟩
    · exact absurd rfl hne
    · exact hsize slot hpre.geo
  rw [Party.Ok] at h
  revert h
  cases hph : q.phase with
  | fresh => exact fun hpre => pre false hpre
  | exchanging => exact fun hpre => pre true hpre
  | got k => exact fun hpre => pre true hpre.1
  | up =>
    intro hinv
    obtain ⟨slot, -, rfl⟩ := hinv.1.wf.rq r hr
    exact hsize slot hinv.2
  | failed => exact absurd hph halive

/-- The receives `new_common` posts besides the handshake's. -/
theorem Party.Init.postedWrs {q : Party} (h : q.Init) :
    q.stream.conn.postedWrs = q.config.recvPoolSize + ctrlRecvSlack := by
  obtain ⟨-, sge, fs, hnew⟩ := h
  obtain ⟨geo, gs, hgeo, heq⟩ := newCommon_ok hnew
  have hrq : q.stream.conn.rq = hsRecvWr :: (List.range geo.splitBase).map geo.slotWr := by
    rw [heq]
    rfl
  have hall : ((List.range geo.splitBase).map geo.slotWr).countP (fun w => w.wrId != hsRecvWrId) =
      ((List.range geo.splitBase).map geo.slotWr).length := by
    refine List.countP_eq_length.mpr fun w hw => ?_
    obtain ⟨slot, hslot, rfl⟩ := List.mem_map.mp hw
    have hne := (slotWr_wrId_ne geo (List.mem_range.mp hslot)).1
    simp [bne, hne]
  calc q.stream.conn.postedWrs
      = (hsRecvWr :: (List.range geo.splitBase).map geo.slotWr).countP
          (fun w => w.wrId != hsRecvWrId) := by rw [Connection.postedWrs, hrq]
    _ = geo.splitBase := by
        rw [List.countP_cons_of_neg (by decide), hall, List.length_map, List.length_range]
    _ = q.config.recvPoolSize + ctrlRecvSlack := by rw [geo.splitBase_eq, (ofConfig_ok hgeo).2.1]

/-- A request with which a stream sends one of its messages: it lies in one send slot,
    and is no longer than the largest message. -/
theorem Wf.message {s : HordStream} (h : Wf s) {id off len : Nat}
    (hw : .send id .send off len ∈ s.conn.out ++ s.conn.await) :
    len ≤ s.payloadCap + envelopeLen ∧
      ∃ slot ≤ s.geo.sendPool, off = slot * s.geo.msgSize ∧ off + s.geo.msgSize ≤ s.send.length := by
  generalize hwr : SendWr.send id .send off len = w at hw
  have hcap := h.cap_pos
  cases h.sq w hw with
  | data slot n hslot hlo hhi =>
    cases hwr
    exact ⟨hhi, slot, hslot.le, rfl, h.sendSlot_in hslot.le⟩
  | ctrl =>
    cases hwr
    exact ⟨by omega, s.geo.ctrlSlot, s.geo.ctrlSlot_eq.le, rfl, h.sendSlot_in s.geo.ctrlSlot_eq.le⟩
  | write => cases hwr

/-- The negotiated windows never overrun the peer. `p` completes the exchange with the
    handshake of `q`'s configuration and then does anything; `q` is at any point of its
    own life. `p` starts with no more credits than data receives `q` posted, and every
    message it can post, or has posted, fits the send slot it lies in and every receive
    `q` has posted. -/
theorem windows_fit {p q u v p' q' : Party} {ms ns ks : List Hord.Move} (hp : p.Init) (hq : q.Init)
    (hrun : Run Party.Step p ms u) (happly : Party.Step u .apply v) (hlater : Run Party.Step v ns p')
    (hpeer : ∀ h, .poll (some h) ∈ ms → h = myHandshake q.config)
    (hother : Run Party.Step q ks q') (halive : q'.phase ≠ .failed) :
    q.stream.conn.postedWrs = q.config.recvPoolSize + ctrlRecvSlack ∧
      v.stream.sendCredits ≤ q.config.recvPoolSize ∧
      (∀ n ≤ p'.stream.payloadCap, envelopeLen + n ≤ p'.stream.geo.msgSize ∧
        ∀ r ∈ q'.stream.conn.rq, r ≠ hsRecvWr → envelopeLen + n ≤ r.length) ∧
      (∀ id off len, .send id .send off len ∈ p'.stream.conn.out ++ p'.stream.conn.await →
        (∃ slot ≤ p'.stream.geo.sendPool, off = slot * p'.stream.geo.msgSize ∧
          len ≤ p'.stream.geo.msgSize ∧ off + p'.stream.geo.msgSize ≤ p'.stream.send.length) ∧
        ∀ r ∈ q'.stream.conn.rq, r ≠ hsRecvWr → len ≤ r.length) := by
  have hfresh : p.Heeds (myHandshake q.config) := by
    refine ⟨fun h hh => ?_, fun hup => ?_⟩
    · rw [hp.1] at hh
      cases hh
    · rw [hp.1] at hup
      cases hup
  obtain ⟨huok, hu⟩ := heeds_run hrun hp.ok hfresh hpeer
  have hvok := happly.ok huok
  have hv := happly.heeds huok hu nofun
  have hvup : v.phase = .up := by cases happly with | apply => rfl
  obtain ⟨hup, hno⟩ := up_run hlater hvup
  obtain ⟨hok, hheeds⟩ := heeds_run hlater hvok hv fun h hh => absurd hh (hno h)
  have hqok : q'.Ok := hother.inv (fun _ _ _ hi hs => hs.ok hi) hq.ok
  have hconf : q'.config = q.config := Party.run_config hother
  have hlen : ∀ r ∈ q'.stream.conn.rq, r ≠ hsRecvWr →
      r.length = (myHandshake q.config).maxMessageSize.toNat := by
    intro r hr hne
    rw [← hconf]
    exact hqok.rq_length halive hr hne
  have hwf : Wf p'.stream := by
    rw [Party.Ok, hup] at hok
    exact hok.1.wf
  have hcap := hheeds.cap hup
  have hfits := hwf.cap_fits
  refine ⟨hq.postedWrs, ?_, fun n hn => ⟨by omega, fun r hr hne => ?_⟩, fun id off len hw => ?_⟩
  · cases happly with
    | apply t k hph hr =>
      show t.sendCredits ≤ _
      rw [(applyPeer_window hr).1, hu.got k hph]
      exact window_le q.config
  · rw [hlen r hr hne]
    omega
  · obtain ⟨hle, slot, hslot, hoff, hin⟩ := hwf.message hw
    refine ⟨⟨slot, hslot, hoff, by omega, hin⟩, fun r hr hne => ?_⟩
    rw [hlen r hr hne]
    omega

/-- The only handshake a move of the exchange may yield. -/
def Move.yieldsOnly (peer : Handshake) : Hord.Move → Bool
  | .poll (some h) => h == peer
  | _ => true

theorem Move.yieldsOnly_eq {peer h : Handshake} (hm : (Move.poll (some h)).yieldsOnly peer = true) :
    h = peer := by
  simpa [Move.yieldsOnly] using hm

/-- The endpoint after `apply_peer`, where that is the call it is at. -/
def Party.applied (p : Party) : Option Party :=
  match p.setup with
  | some (.apply, q) => some q
  | _ => none

theorem Party.applied_step {p q : Party} (h : p.applied = some q) : Party.Step p .apply q := by
  unfold Party.applied at h
  split at h
  · next v hv =>
    cases h
    exact Party.exec_step (c := .setup) hv
  · cases h

/-- Two endpoints of the tiny configuration, one of them just established with its only
    credit. -/
theorem windows_fit_tiny : ∃ p ms u v, p.Init ∧ p.config = tinyConfig ∧ Run Party.Step p ms u ∧
    Party.Step u .apply v ∧ v.stream.sendCredits = 1 ∧ v.stream.sendCredits ≤ p.config.recvPoolSize ∧
    ∀ n ≤ v.stream.payloadCap, envelopeLen + n ≤ v.stream.geo.msgSize ∧
      ∀ r ∈ p.stream.conn.rq, r ≠ hsRecvWr → envelopeLen + n ≤ r.length := by
  obtain ⟨p, ms, u, hinit, hrun, hgood⟩ := Party.launch_run
    (fun _ m => m.yieldsOnly (myHandshake tinyConfig)) tinyConfig (tinySetup.take 5)
    (fun u => decide (u.config = tinyConfig) && u.applied.any fun (v : Party) => decide (v.stream.sendCredits = 1))
    (by decide +kernel)
  rw [Bool.and_eq_true, decide_eq_true_eq, Option.any_eq_true] at hgood
  obtain ⟨hconf, v, happlied, hgood⟩ := hgood
  have hstep : Run Party.Step p ms u := hrun.mono fun _ _ _ h => h.1
  have hp : p.config = tinyConfig := (Party.run_config hstep).symm.trans hconf
  have happly := Party.applied_step happlied
  obtain ⟨-, hcred, hfit, -⟩ := windows_fit hinit hinit hstep happly (.nil v)
    (fun h hh => by rw [hp]; exact Move.yieldsOnly_eq (hrun.labels _ hh)) (.nil p)
    (by rw [hinit.1]; decide)
  exact ⟨p, ms, u, v, hinit, hp, hstep, happly, of_decide_eq_true hgood, hcred, hfit⟩

end Hord
