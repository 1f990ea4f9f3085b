import Mathlib.Data.List.Count
import Hord.Integrity

/- Credits between two endpoints. Every credit of a window is in one place: spendable,
   spent on a message not yet handled, on one held, owed, or on its way back. As unread
   data never takes more than the pool, a drained queue leaves the control slack (and
   the split headroom) posted. Nothing is assumed of the calls; a call that fails keeps
   the sum or leaves the stream closed. -/
namespace Hord

open Region Prog Transition CreditLink

/-- A two-sided message that does not only return credits. -/
def Parcel.isData : Parcel → Bool
  | .message raw => !(Envelope.decode raw).isCreditOnly
  | .immediate _ => false

/-- The `credits` field of a message's envelope. -/
def Parcel.credits : Parcel → Nat
  | .message raw => (Envelope.decode raw).credits.toNat
  | .immediate _ => 0

/-- Messages of `a` that `b` has not handled: posted, or arrived. -/
def unhandled (a b : HordStream) : List Parcel := b.inParcels ++ a.outParcels

section Counting

theorem bodies_data_count {ps : List Parcel} (h : ∀ p ∈ ps, p.Honest) :
    (bodies (ps.map Parcel.packet)).length = ps.countP Parcel.isData := by
  induction ps with
  | nil => rfl
  | cons p ps ih =>
    have hp := h p (List.mem_cons_self ..)
    have hone : p.packet.bodies.length = if p.isData then 1 else 0 := by
      cases p with
      | immediate id => rfl
      | message raw =>
        have hpay : payloadOf raw = [] ↔ (Envelope.decode raw).isCreditOnly = true := by
          constructor
          · intro hnil
            by_contra hc
            exact hp.2 (by simpa using hc) hnil
          · intro hc
            unfold payloadOf
            rw [if_pos hc]
        show (if (payloadOf raw).isEmpty = true then [] else [payloadOf raw]).length =
          if (!(Envelope.decode raw).isCreditOnly) = true then 1 else 0
        cases hc : (Envelope.decode raw).isCreditOnly with
        | true =>
          rw [hpay.mpr hc]
          rfl
        | false =>
          have hne : payloadOf raw ≠ [] := fun hnil => by rw [hpay.mp hnil] at hc; cases hc
          simp [hne]
    rw [List.map_cons, bodies_cons, List.length_append, List.countP_cons,
      ih fun q hq => h q (List.mem_cons_of_mem _ hq), hone, Nat.add_comm]

theorem grants_credits (ps : List Parcel) :
    grants (ps.map Parcel.packet) = (ps.map Parcel.credits).sum := by
  induction ps with
  | nil => rfl
  | cons p ps ih =>
    rw [List.map_cons, grants_cons, ih, List.map_cons, List.sum_cons]
    cases p <;> rfl

/-- A list that has every number below `n` once, and no other, has `n` of them. -/
theorem length_of_count {l : List Nat} {n : Nat} (h : ∀ v, l.count v = if v < n then 1 else 0) :
    l.length = n := by
  have hperm : l.Perm (List.range n) := by
    rw [List.perm_iff_count]
    intro v
    rw [h v, List.count_range]
  rw [hperm.length_eq, List.length_range]

/-- With the queue drained, every slot is posted or holds a message. -/
theorem posted_length {s : HordStream} (hi : Inv s) (hfull : SlotsFull s) (hcq : s.conn.cq = []) :
    s.conn.rq.length + s.rxReady.length = s.slotCount := by
  have hcount : ∀ v, ((s.conn.rq.map RecvWr.wrId) ++ s.rxReady.map ReadyMsg.slot).count v =
      if v < s.slotCount then 1 else 0 := by
    intro v
    have hrq : (s.conn.rq.map RecvWr.wrId).count v = s.conn.posted v := by
      rw [List.count_eq_countP, List.countP_map]
      rfl
    have hready : (s.rxReady.map ReadyMsg.slot).count v = s.heldIn v := by
      rw [List.count_eq_countP, List.countP_map]
      rfl
    rw [List.count_append, hrq, hready]
    by_cases hv : v < s.slotCount
    · have hone := hfull v hv
      unfold HordStream.uses Connection.completed at hone
      rw [hcq, List.countP_nil] at hone
      rw [if_pos hv]
      exact hone
    · -- nothing is posted or held beyond the slots
      have h1 : s.conn.posted v = 0 := by
        refine List.countP_eq_zero.mpr fun w hw he => ?_
        obtain ⟨slot, hslot, rfl⟩ := hi.wf.rq w hw
        have : slot = v := of_decide_eq_true he
        exact hv (this ▸ hslot)
      have h2 : s.heldIn v = 0 := by
        refine List.countP_eq_zero.mpr fun m hm he => ?_
        have : m.slot = v := by simpa using he
        exact hv (this ▸ (hi.wf.ready m hm).slot_lt)
      rw [h1, h2, if_neg hv]
  have hlen := length_of_count hcount
  rwa [List.length_append, List.length_map, List.length_map] at hlen

end Counting

/-! Split mode keeps its headroom posted. -/

/-- A stream that negotiated split mode owns the headroom's slots. -/
def Party.SplitSlots (p : Party) : Prop :=
  p.phase = .up → p.stream.splitMode = true →
    p.stream.slotCount = p.stream.geo.splitBase + p.stream.geo.splitHeadroom

theorem Handled.splitMode {s t : HordStream} {wc : Completion} {ok : Bool} (h : Handled s wc ok t) :
    t.splitMode = s.splitMode :=
  h.unseen ⟨fun _ => rfl, fun _ _ => rfl, fun _ _ _ _ _ => rfl, fun _ _ _ _ _ => rfl⟩

theorem run_split {s t : HordStream} {os : List Obs} (hr : Run Local s os t) :
    t.splitMode = s.splitMode ∧ t.slotCount = s.slotCount ∧ t.geo = s.geo := by
  refine hr.inv (I := fun u => u.splitMode = s.splitMode ∧ u.slotCount = s.slotCount ∧ u.geo = s.geo)
    (fun u o v hu hl => ?_) ⟨rfl, rfl, rfl⟩
  refine ⟨Eq.trans ?_ hu.1, hl.slotCount.trans hu.2.1, hl.geo.trans hu.2.2⟩
  cases hl with
  | handle _ _ _ _ _ hh => exact hh.splitMode
  | _ => rfl

theorem Party.Step.splitSlots {p q : Party} {m : Hord.Move} (h : Party.Step p m q) (hok : p.Ok)
    (hs : p.SplitSlots) : q.SplitSlots := by
  unfold Party.Ok at hok
  cases h with
  | env t he =>
    intro hup hmode
    obtain ⟨_, _, _, _, _, heq, hsome⟩ := he.fields
    have hcount := he.slotCount
    have hmode' : p.stream.splitMode = true := by
      rw [heq] at hmode
      exact hmode
    have hgeo : t.geo = p.stream.geo := by rw [heq]
    show t.slotCount = t.geo.splitBase + t.geo.splitHeadroom
    rw [hcount, hgeo]
    exact hs hup hmode'
  | hello t hph hr => nofun
  | wait t hph hr => intro hup; rw [hph] at hup; cases hup
  | peer t peer hph hr => nofun
  | apply t peer hph hr =>
    rw [hph] at hok
    intro _ hmode
    obtain ⟨-, -, watch, fs, rfl⟩ := wp_ok (applyPeer_wp p.stream peer) hr
    unfold HordStream.finished at hmode ⊢
    simp only at hmode ⊢
    split at hmode
    · next hc =>
      rw [if_pos hc]
      rfl
    · next hc =>
      rw [if_neg hc]
      have hzero : p.stream.geo.splitHeadroom = 0 := by
        have hmode' : (p.stream.agreed peer).splitMode = true := hmode
        rw [hmode', Bool.true_and, decide_eq_true_eq] at hc
        exact Nat.eq_zero_of_not_pos hc
      show p.stream.slotCount = p.stream.geo.splitBase + p.stream.geo.splitHeadroom
      unfold HordStream.slotCount
      rw [hzero]
      split <;> rfl
  | broke t e hr => nofun
  | act t a v hph hr =>
    rw [hph] at hok
    obtain ⟨os, hrun⟩ := Act.run_reaches hok.1 hr
    obtain ⟨h1, h2, h3⟩ := run_split hrun
    intro hup hmode
    show t.slotCount = t.geo.splitBase + t.geo.splitHeadroom
    rw [h2, h3]
    exact hs hup (h1 ▸ hmode)
  | actErr t a e hph hr =>
    rw [hph] at hok
    obtain ⟨os, hrun⟩ := (Act.run_reaches_error hok.1 hr).1
    obtain ⟨h1, h2, h3⟩ := run_split hrun
    intro hup hmode
    show t.slotCount = t.geo.splitBase + t.geo.splitHeadroom
    rw [h2, h3]
    exact hs hup (h1 ▸ hmode)

/-! The invariant of a run in which no request fails. -/

/-- An end whose handshake failed or whose stream is closed. -/
def Party.Gone (p : Party) : Prop :=
  p.phase = .failed ∨ p.phase = .up ∧ p.stream.peerClosed = true

theorem Party.Step.gone {p q : Party} {m : Hord.Move} (h : Party.Step p m q) (hok : p.Ok)
    (hg : p.Gone) : q.Gone := by
  have closed : ∀ {t : HordStream} {os : List Obs}, Run Local p.stream os t →
      p.stream.peerClosed = true → t.peerClosed = true := fun hr hc =>
    hr.inv (I := fun u => u.peerClosed = true) (fun _ _ _ hu hl => hl.stays_closed hu) hc
  unfold Party.Ok at hok
  rcases hg with hf | ⟨hup, hc⟩
  · cases h with
    | env t he => exact .inl hf
    | hello t hph hr => rw [hph] at hf; cases hf
    | wait t hph hr => rw [hph] at hf; cases hf
    | peer t peer hph hr => rw [hph] at hf; cases hf
    | apply t peer hph hr => rw [hph] at hf; cases hf
    | broke t e hr => exact .inl rfl
    | act t a v hph hr => rw [hph] at hf; cases hf
    | actErr t a e hph hr => rw [hph] at hf; cases hf
  · cases h with
    | env t he =>
      obtain ⟨_, _, _, _, _, heq, -⟩ := he.fields
      refine .inr ⟨hup, ?_⟩
      rw [heq]
      exact hc
    | hello t hph hr => rw [hph] at hup; cases hup
    | wait t hph hr => rw [hph] at hup; cases hup
    | peer t peer hph hr => rw [hph] at hup; cases hup
    | apply t peer hph hr => rw [hph] at hup; cases hup
    | broke t e hr => exact .inl rfl
    | act t a v hph hr =>
      rw [hph] at hok
      obtain ⟨os, hrun⟩ := Act.run_reaches hok.1 hr
      exact .inr ⟨hph, closed hrun hc⟩
    | actErr t a e hph hr =>
      rw [hph] at hok
      obtain ⟨os, hrun⟩ := (Act.run_reaches_error hok.1 hr).1
      exact .inr ⟨hph, closed hrun hc⟩

/-- An honest peer sends no runt. -/
theorem HordStream.Honest.not_runt {s : HordStream} (h : s.Honest) {wc : Completion}
    {rest : List Completion} (hcq : s.conn.cq = wc :: rest) (hshort : min wc.byteLen s.geo.msgSize < envelopeLen) :
    ¬IsRunt wc := by
  intro hrunt
  have hparcel : s.inParcel wc = some (.message (s.slotBytes (slotOf wc.wrId)
      (min wc.byteLen s.geo.msgSize))) := by
    simp [HordStream.inParcel, hrunt.opcode, hrunt.success, hrunt.send, hrunt.write]
  have hhon := h.arrived _ (by
    rw [inParcels_cons hcq, hparcel]
    exact List.mem_append_left _ (List.mem_singleton_self _))
  have hlen : (s.slotBytes (slotOf wc.wrId) (min wc.byteLen s.geo.msgSize)).length ≤
      min wc.byteLen s.geo.msgSize := List.length_take_le _ _
  have hlong := hhon.1
  omega

theorem Party.Fine.noRunt {p : Party} (h : p.Fine) (m : Hord.Move) : p.noRunt m = true := by
  match m with
  | .act .pump r =>
    rw [Party.noRunt]
    cases htaking : p.stream.conn.taking with
    | none => rfl
    | some wc =>
      have hno : ¬IsRunt wc := by
        intro hrunt
        obtain ⟨rest, hcq⟩ := Connection.taking_cq htaking
        have hshort := hrunt.short
        exact h.honest.not_runt hcq (by omega) hrunt
      simp [hno]
  | .act (.tryWrite _) _ => rfl
  | .act .tryFlushStage _ => rfl
  | .act (.tryRead _) _ => rfl
  | .act (.returnOwedCredits _) _ => rfl
  | .act .pollCmDisconnect _ => rfl
  | .act .pollCmEvent _ => rfl
  | .act .armCq _ => rfl
  | .act .nextCompletedTransfer _ => rfl
  | .act (.beginWrite _ _ _ _) _ => rfl
  | .act .disconnect _ => rfl
  | .act .shutdown _ => rfl
  | .env => rfl
  | .hello => rfl
  | .poll _ => rfl
  | .apply => rfl
  | .broke _ => rfl

/-- No request of either end fails before it is carried out, no receive is flushed. -/
def Event.delivers : Event → Bool
  | .drop _ => false
  | .reject _ => false
  | _ => true

/-- Every credit and every slot is in its place. -/
structure Duo.Balanced (d : Duo) : Prop where
  healthy : d.Healthy
  credited : ∀ x, d.Credited x
  kept : ∀ x, (d.get x).SlotsKept
  split : ∀ x, (d.get x).SplitSlots

section Balance
variable {d e : Duo} {l : Event}

theorem Duo.Init.balanced (h : d.Init) : d.Balanced := by
  refine ⟨h.healthy, fun x => (h.laws x).2, fun x => ?_, fun x => ?_⟩
  · have hok := (h x).ok
    unfold Party.Ok at hok
    rw [(h x).1] at hok
    exact .inr (.inr hok.full)
  · intro hup
    rw [(h x).1] at hup
    cases hup

/-- A call that fails keeps the credits, or closes its stream. -/
theorem Duo.Step.credited_error {x : Side} {a : Act} {er : Fail}
    (h : Duo.Step d (.call x (.act a (.error er))) e) (hd : d.Healthy)
    (halive : ∀ x, (e.get x).phase ≠ .failed) {y : Side} (hc : d.Credited y) :
    (e.get x).Gone ∨ e.Credited y := by
  have hother := (h.traffic hd halive).1
  have hconf := h.config
  cases h with
  | call _ _ p hp hm =>
    rw [Duo.get_set]
    have hup : p.phase = .up := by cases hp with | actErr t _ _ hph hr => exact hph
    rcases hp.carries_error (w := window (d.get x.other).config) (hd.fine x).ok (hd.fine x).honest with
      hclosed | ⟨_, _, _, ls, hrun, -⟩
    · exact .inl (.inr ⟨hup, hclosed⟩)
    · right
      have hx : (d.set x p).traffic x = p.traffic (window (d.get x.other).config) := by
        unfold Duo.traffic
        rw [Duo.get_set, Duo.get_set_other]
      rw [← hx] at hrun
      have hw := window_lt (d.get y.other).config
      unfold Duo.Credited at hc ⊢
      rw [hconf]
      rcases x.eq_or_other y with rfl | rfl
      · rw [hother]
        exact Credited.send_run hrun hc hw
      · rw [Side.other_other] at hc hw ⊢
        rw [hother]
        exact Credited.recv_run hrun hc hw

/-- One step keeps the balance, or an end is gone. -/
theorem Duo.Step.balanced (h : Duo.Step d l e) (hd : d.Balanced) (hl : l.delivers = true) :
    (∃ x, (e.get x).Gone) ∨ e.Balanced := by
  by_cases hgone : ∃ x, (e.get x).Gone
  · exact .inl hgone
  · have halive : ∀ x, (e.get x).phase ≠ .failed := fun x hf => hgone ⟨x, .inl hf⟩
    have htame : l.Tame d := by
      cases l with
      | drop x => cases hl
      | reject x => cases hl
      | _ => trivial
    refine .inr ⟨h.healthy hd.healthy htame halive, fun y => ?_, fun y => ?_, fun y => ?_⟩
    · by_cases hloss : l.Lossless
      · exact h.credited hd.healthy halive hloss (hd.credited y)
      · match l with
        | .call x (.act a (.error er)) =>
          rcases h.credited_error hd.healthy halive (hd.credited y) with hg | hc
          · exact absurd ⟨x, hg⟩ hgone
          · exact hc
        | .drop x => cases hl
        | .call x .env => exact absurd trivial hloss
        | .call x .hello => exact absurd trivial hloss
        | .call x (.poll r) => exact absurd trivial hloss
        | .call x .apply => exact absurd trivial hloss
        | .call x (.broke er) => exact absurd trivial hloss
        | .call x (.act a (.ok v)) => exact absurd trivial hloss
        | .deliver x w => exact absurd trivial hloss
        | .complete x w wc => exact absurd trivial hloss
        | .reject x => cases hl
        | .oracle x => exact absurd trivial hloss
        | .cm x ev => exact absurd trivial hloss
    · rcases h.party y with heq | ⟨m, hp⟩
      · rw [heq]
        exact hd.kept y
      · have hfine := hd.healthy.fine y
        exact hp.kept hfine.ok (hfine.noRunt m) (hd.kept y)
    · rcases h.party y with heq | ⟨m, hp⟩
      · rw [heq]
        exact hd.split y
      · exact hp.splitSlots (hd.healthy.fine y).ok (hd.split y)

theorem balanced_run {ls : List Event} (hinit : d.Init) (hrun : Run Duo.Step d ls e)
    (hdel : ∀ l ∈ ls, l.delivers = true) : (∃ x, (e.get x).Gone) ∨ e.Balanced := by
  have hboth : (∀ x, (e.get x).Ok) ∧ ((∃ x, (e.get x).Gone) ∨ e.Balanced) := by
    refine (hrun.restrict hdel).inv
      (I := fun u => (∀ x, (u.get x).Ok) ∧ ((∃ x, (u.get x).Gone) ∨ u.Balanced))
      (fun s l t hi hs => ⟨hs.1.ok hi.1, ?_⟩) ⟨fun x => (hinit x).ok, .inr hinit.balanced⟩
    rcases hi.2 with ⟨x, hg⟩ | hb
    · -- an end that is gone stays gone
      refine .inl ⟨x, ?_⟩
      rcases hs.1.party x with heq | ⟨m, hp⟩
      · rw [heq]
        exact hg
      · exact hp.gone (hi.1 x) hg
    · exact hs.1.balanced hb hs.2
  exact hboth.2

end Balance

/-- Credit conservation and the control slack, in every state a run of two endpoints
    reaches, as long as no request failed and neither end is closed. -/
theorem credits_conserved {d e : Duo} {ls : List Event} (hinit : d.Init) (hrun : Run Duo.Step d ls e)
    (hdel : ∀ l ∈ ls, l.delivers = true) (hup : ∀ x, (e.get x).phase = .up)
    (hopen : ∀ x, (e.get x).stream.peerClosed = false) (x : Side) :
    let a := (e.get x).stream
    let b := (e.get x.other).stream
    a.sendCredits + (unhandled a b).countP Parcel.isData + b.rxReady.length + b.grantPending +
        ((unhandled b a).map Parcel.credits).sum = (myHandshake (e.get x.other).config).maxRecvBuffers.toNat ∧
      b.rxReady.length + b.inParcels.countP Parcel.isData ≤ (e.get x.other).config.recvPoolSize ∧
      (b.conn.cq = [] →
        ctrlRecvSlack + (if b.splitMode then b.geo.splitHeadroom else 0) ≤ b.conn.rq.length) := by
  intro a b
  have hb : e.Balanced := by
    rcases balanced_run hinit hrun hdel with ⟨y, hf | ⟨-, hc⟩⟩ | hb
    · rw [hup y] at hf
      cases hf
    · rw [hopen y] at hc
      cases hc
    · exact hb
  have hfa := hb.healthy.fine x
  have hfb := hb.healthy.fine x.other
  -- the credit law, read at the two streams
  have hcred := hb.credited x
  unfold Duo.Credited CreditLink.Credited Duo.traffic transit at hcred
  rw [Side.other_other, Party.traffic_up _ (hup x), Party.traffic_up _ (hup x.other)] at hcred
  have hsum : a.sendCredits + (unhandled a b).countP Parcel.isData + b.rxReady.length + b.grantPending +
      ((unhandled b a).map Parcel.credits).sum = window (e.get x.other).config := by
    have hin : bodies b.traffic.inbox = bodies (b.inParcels.map Parcel.packet) := rfl
    have hout : bodies a.traffic.outbox = bodies (a.outParcels.map Parcel.packet) := rfl
    have hheld : b.traffic.held.length = b.rxReady.length := List.length_map _
    have hga : grants a.traffic.inbox = (a.inParcels.map Parcel.credits).sum := grants_credits _
    have hgb : grants b.traffic.outbox = (b.outParcels.map Parcel.credits).sum := grants_credits _
    have hlaw : a.sendCredits + (b.traffic.held ++ bodies b.traffic.inbox ++
        bodies a.traffic.outbox).length + b.grantPending + grants a.traffic.inbox +
        grants b.traffic.outbox = window (e.get x.other).config := hcred
    have hdata : (bodies (b.inParcels.map Parcel.packet)).length = b.inParcels.countP Parcel.isData :=
      bodies_data_count hfb.honest.arrived
    have hsent : (bodies (a.outParcels.map Parcel.packet)).length = a.outParcels.countP Parcel.isData :=
      bodies_data_count hfa.honest.out
    rw [List.length_append, List.length_append, hin, hout, hheld, hga, hgb, hdata, hsent] at hlaw
    unfold unhandled
    rw [List.countP_append, List.map_append, List.sum_append]
    omega
  have hwin : window (e.get x.other).config ≤ (e.get x.other).config.recvPoolSize := by
    show (UInt16.ofNat (e.get x.other).config.recvPoolSize).toNat ≤ _
    rw [UInt16.toNat_ofNat']
    exact Nat.mod_le _ _
  have hpool : b.rxReady.length + b.inParcels.countP Parcel.isData ≤
      (e.get x.other).config.recvPoolSize := by
    unfold unhandled at hsum
    rw [List.countP_append] at hsum
    omega
  refine ⟨hsum, hpool, fun hcq => ?_⟩
  have hokb := hfb.ok
  unfold Party.Ok at hokb
  rw [hup x.other] at hokb
  obtain ⟨hinv, hgeo⟩ := hokb
  have hfull : SlotsFull b := by
    rcases hb.kept x.other with hf | hc | hf
    · rw [hup x.other] at hf
      cases hf
    · rw [hopen x.other] at hc
      cases hc
    · exact hf
  have hlen : b.conn.rq.length + b.rxReady.length = b.slotCount := posted_length hinv hfull hcq
  obtain ⟨-, hrp, -, -⟩ := ofConfig_ok hgeo
  have hbase := b.geo.splitBase_eq
  have hslots : b.geo.splitBase + (if b.splitMode then b.geo.splitHeadroom else 0) ≤ b.slotCount := by
    by_cases hmode : b.splitMode = true
    · rw [if_pos hmode]
      exact (hb.split x.other (hup x.other) hmode).ge
    · rw [if_neg hmode]
      exact Nat.le_add_right _ _
  have hrp' : b.geo.recvPool = (e.get x.other).config.recvPoolSize := hrp
  omega

/-- One message held at the other end: the window's only credit is with it. -/
theorem credits_conserved_held : ∃ d ls e, d.Init ∧ Run Duo.Step d ls e ∧
    (∀ l ∈ ls, l.delivers = true) ∧ (∀ x, (e.get x).phase = .up) ∧
    (∀ x, (e.get x).stream.peerClosed = false) ∧ (e.get .right).stream.rxReady.length = 1 ∧
    (e.get .left).stream.sendCredits +
        (unhandled (e.get .left).stream (e.get .right).stream).countP Parcel.isData +
        (e.get .right).stream.rxReady.length + (e.get .right).stream.grantPending +
        ((unhandled (e.get .right).stream (e.get .left).stream).map Parcel.credits).sum =
      (myHandshake (e.get .right).config).maxRecvBuffers.toNat := by
  obtain ⟨d, ls, e, hinit, hrun, hgood⟩ := Duo.launch_run (fun _ l => l.delivers) tinyConfig tinyConfig
    (tinyPair ++ [.act .left (.tryWrite [1, 2, 3]), .act .left .tryFlushStage, .deliver .left,
      .act .right .pump])
    (fun _ e => e.left.phase = .up && e.right.phase = .up && !e.left.stream.peerClosed &&
      !e.right.stream.peerClosed && e.right.stream.rxReady.length == 1) (by decide +kernel)
  simp only [Bool.and_eq_true, decide_eq_true_eq, Bool.not_eq_true', beq_iff_eq] at hgood
  obtain ⟨⟨⟨⟨hl, hr⟩, hlo⟩, hro⟩, hone⟩ := hgood
  have hup : ∀ x, (e.get x).phase = .up := fun x => by cases x; exacts [hl, hr]
  have hopen : ∀ x, (e.get x).stream.peerClosed = false := fun x => by cases x; exacts [hlo, hro]
  have hstep : Run Duo.Step d ls e := hrun.mono fun _ _ _ h => h.1
  exact ⟨d, ls, e, hinit, hstep, hrun.labels, hup, hopen, hone,
    (credits_conserved hinit hstep hrun.labels hup hopen .left).1⟩

end Hord
