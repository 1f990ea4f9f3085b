import Hord.Credits
import Hord.Eof
import Hord.Windows
import Hord.Lib.Backlog

/- Bounded buffering. What one end has accepted and the other has not read is bounded by
   the window the reader advertised and the stage, in every state of every run
   (`buffering_bounded`). The backlog of the link (`CreditLink.Backlog`) carries the
   argument through everything that succeeds, and through requests that are flushed. A
   call that fails may lose what it held: if it leaves the stream closed, a reader grants
   nothing any more and a writer accepts nothing any more, so that three cases are kept,
   both ends working, the reader shut and the writer shut (`Slack`). -/
namespace Hord

open Region Prog Transition CreditLink

/-! What a failing call does to the grants on their way. -/

section Failing
variable {s t : HordStream} {o : Obs} {os : List Obs}

/-- Even what is lost does not raise what an end has given or will owe. -/
theorem Local.dues_le (hi : Inv s) (hhon : s.Honest) (hl : Local s o t) :
    t.traffic.dues ≤ s.traffic.dues := by
  cases hloss : o.loses with
  | false => exact (hl.traffic hi hhon hloss).dues_le
  | true =>
    cases hl with
    | lose hclosed => exact Nat.le_refl _
    | finishLost msg rest hready =>
      have hheld : s.traffic.held = s.msgBytes msg :: rest.map s.msgBytes := by
        show s.rxReady.map s.msgBytes = _
        rw [hready]
        rfl
      show grants s.traffic.outbox + s.traffic.owed +
        (rest.map s.msgBytes ++ bodies s.traffic.inbox).length ≤ s.traffic.dues
      simp only [End.dues, End.received, hheld, List.length_append, List.length_cons]
      omega
    | _ => cases hloss

theorem run_dues_le (hr : Run Local s os t) (hi : Inv s) (hhon : s.Honest) :
    t.traffic.dues ≤ s.traffic.dues := by
  have hall := hr.inv (I := fun u => Inv u ∧ u.Honest ∧ u.traffic.dues ≤ s.traffic.dues)
    (fun u o v hu hl => ⟨⟨hl.wf hu.1.wf, hl.books hu.1.wf hu.1.books⟩, hl.honest hu.1 hu.2.1,
      (hl.dues_le hu.1 hu.2.1).trans hu.2.2⟩) ⟨hi, hhon, Nat.le_refl _⟩
  exact hall.2.2

theorem sendCreditReturn_failed (hwf : Wf s) : wp sendCreditReturn s fun r t => match r with
    | .ok _ => True
    | .error _ => t.conn.out = s.conn.out := by
  simp only [sendCreditReturn, wp_bind, wp_get, wp_ite, attempt_wp]
  split
  · trivial
  · have hin := hwf.sendSlot_in s.geo.ctrlSlot_eq.le
    have hfit : envelopeLen + ([] : Bytes).length ≤ s.geo.msgSize := by
      have := s.geo.envelope_lt
      simpa using this.le
    apply postInto_wp hin hfit
    · intro fs hroom
      trivial
    · intro fs e
      simp only [markClosed, wp_modify, wp_throw]
      rfl

/-- A read that fails has posted nothing: the credits go out last. -/
theorem tryRead_failed (n : Nat) (hwf : Wf s) : wp (tryRead n) s fun r t => match r with
    | .ok _ => True
    | .error _ => t.conn.out = s.conn.out := by
  have unseen : UnseenRead (fun u : HordStream => u.conn.out) id :=
    ⟨⟨fun _ _ _ => rfl, fun _ => rfl⟩, fun _ _ => rfl, fun _ _ => rfl⟩
  simp only [tryRead, wp_bind, wp_get, wp_ite]
  split
  · trivial
  · split
    · trivial
    · refine wp_mono (wp_and (drainReady_path _ n [] hwf) (keeps_drainReady unseen _ n [] s)) ?_
      intro r t hr
      cases r with
      | error _ => exact hr.2
      | ok bs =>
        obtain ⟨⟨out, -, hclean, -⟩, hout⟩ := hr
        simp only [maybeReturnCredits, wp_bind, wp_get, wp_ite]
        split
        · refine wp_mono (sendCreditReturn_failed (hclean.wf hwf)) ?_
          intro r u hu
          cases r with
          | ok _ => trivial
          | error _ => exact hu.trans hout
        · trivial

/-- A handler that fails posts nothing either. -/
theorem pump_failed (hwf : Wf s) : wp Act.pump.run s fun r t => match r with
    | .ok _ => True
    | .error _ => t.outParcels = s.outParcels := by
  simp only [Act.run, wp_bind]
  refine wp_mono (pumpOnce_wp hwf) ?_
  intro r t hr
  cases r with
  | ok _ => trivial
  | error e =>
    cases e with
    | io _ =>
      rcases hr with ⟨fs, -, rfl⟩ | ⟨fs, wc, rest, hcq, hh⟩
      · rfl
      · exact hh.parcels.1
    | panic _ => exact hr.elim

/-- A call that fails has granted at most what the stream owed before. -/
theorem Act.failed_grants {a : Act} {e : Fail} (hi : Inv s) (hhon : s.Honest) (hr : a.run s = .error e t) :
    grants t.traffic.outbox ≤ grants s.traffic.outbox + s.traffic.owed := by
  obtain ⟨⟨os, hrun⟩, -⟩ := Act.run_reaches_error hi hr
  have same : t.outParcels = s.outParcels →
      grants t.traffic.outbox ≤ grants s.traffic.outbox + s.traffic.owed := by
    intro h
    show grants (t.outParcels.map _) ≤ _
    rw [h]
    exact Nat.le_add_right _ _
  by_cases hread : ∃ n, a = .tryRead n
  · obtain ⟨n, rfl⟩ := hread
    have hfail : wp (Act.tryRead n).run s fun r t => match r with
        | .ok _ => True
        | .error _ => t.conn.out = s.conn.out := by
      simp only [Act.run, wp_bind]
      refine wp_mono (tryRead_failed n hi.wf) ?_
      intro r u hu
      cases r with
      | ok _ => trivial
      | error _ => exact hu
    exact same ((run_posts hrun hi).1.parcels (wp_error hfail hr))
  by_cases hpump : a = .pump
  · subst hpump
    exact same (wp_error (pump_failed hi.wf) hr)
  -- nothing was read, so the messages received are all still there
  have hready : t.rxReady = s.rxReady :=
    (Act.keeps_ready (fun n hn => hread ⟨n, hn⟩) hpump).error hr
  have hcq : t.conn.cq = s.conn.cq := (Act.keeps_cq hpump).error hr
  have hreceived : t.traffic.received.length = s.traffic.received.length := by
    have hin : t.inParcels = s.inParcels := by
      rw [HordStream.inParcels, hcq, run_received hrun]
      rfl
    show (t.rxReady.map _ ++ bodies (t.inParcels.map _)).length = _
    rw [hready, hin]
    simp [End.received, HordStream.traffic]
  have hdues := run_dues_le hrun hi hhon
  simp only [End.dues, hreceived] at hdues
  omega

/-- An honest peer's completions make no handler fail with the stream open. -/
theorem Act.failed_traffic {a : Act} {e : Fail} (hi : Inv s) (hhon : s.Honest) (hr : a.run s = .error e t) :
    t.peerClosed = true ∨ t.traffic = s.traffic := by
  rcases wp_error (Act.run_failed a hi.wf) hr with hc | ⟨fs, rfl⟩ | ⟨-, fs, wc, rest, hcq, hh⟩
  · exact .inl hc
  · exact .inr rfl
  · generalize hok : false = ok at hh
    cases hh with
    | immLost => exact .inl rfl
    | emptyLost => exact .inl rfl
    | runt hop hw hsucc hs hn =>
      have hn' : min wc.byteLen s.geo.msgSize < envelopeLen := hn
      have hlt := s.geo.envelope_lt
      exact absurd ⟨hop, hsucc, hs, hw, by omega⟩ (hhon.not_runt hcq hn')
    | _ => cases hok

end Failing

/-! An end that is gone. -/

section Gone
variable {p q : Party} {m : Hord.Move}

/-- It accepts nothing. -/
theorem Party.Step.gone_accepted (h : Party.Step p m q) (hg : p.Gone) : m.accepted = [] := by
  cases h with
  | act t a v hph hr =>
    rcases hg with hf | ⟨-, hc⟩
    · rw [hph] at hf
      cases hf
    · exact wp_ok (Act.closed_accepts hc) hr
  | _ => rfl

/-- It posts nothing. -/
theorem Party.Step.gone_parcels (h : Party.Step p m q) (hm : m.isEnv = false) (hok : p.Ok) (hg : p.Gone)
    (halive : q.phase ≠ .failed) : q.stream.outParcels = p.stream.outParcels := by
  have calls : ∀ {a : Act} {r : Except Fail Res}, Party.Step p (.act a r) q →
      q.stream.outParcels = p.stream.outParcels := by
    intro a r ha
    obtain ⟨hup, -, hi, os, hrun⟩ := ha.reaches hok
    rcases hg with hf | ⟨-, hc⟩
    · rw [hup] at hf
      cases hf
    · exact (run_posts hrun hi).1.closed hc
  have fresh : ∀ {ph : Phase}, p.phase = ph → ph ≠ .up → ph ≠ .failed → False := by
    rintro ph rfl hup hf
    rcases hg with hfail | ⟨h, -⟩
    · exact hf hfail
    · exact hup h
  cases h with
  | env t he => cases hm
  | hello t hph hr => exact (fresh hph nofun nofun).elim
  | wait t hph hr => exact (fresh hph nofun nofun).elim
  | peer t k hph hr => exact (fresh hph nofun nofun).elim
  | apply t k hph hr => exact (fresh hph nofun nofun).elim
  | broke t er hr => exact absurd rfl halive
  | act t a v hph hr => exact calls (.act p t a v hph hr)
  | actErr t a er hph hr => exact calls (.actErr p t a er hph hr)

end Gone

/-! The largest payload. -/

/-- The largest payload `x` sends, as the two configurations fix it. -/
def Duo.cap (d : Duo) (x : Side) : Nat :=
  min (d.get x).config.maxMessageSize (myHandshake (d.get x.other).config).maxMessageSize.toNat - envelopeLen

/-- Each end sends no more than the other's handshake allows. -/
def Duo.Capped (d : Duo) : Prop := ∀ x, (d.get x).CapOf (myHandshake (d.get x.other).config)

section Sizes
variable {d e : Duo} {l : Event} {x : Side}

theorem Duo.Step.cap (h : Duo.Step d l e) (x : Side) : e.cap x = d.cap x := by
  simp only [Duo.cap, h.config]

theorem Duo.Init.capped (h : d.Init) : d.Capped := by
  intro x hup
  rw [(h x).1] at hup
  cases hup

theorem Duo.Step.capped (h : Duo.Step d l e) (hd : d.Healthy) (hc : d.Capped) : e.Capped := by
  intro x
  rw [h.config]
  rcases h.party x with heq | ⟨m, hp⟩
  · rw [heq]
    exact hc x
  · have hback := hd.hs x.other
    rw [Side.other_other] at hback
    exact hp.capOf (hd.fine x).ok (fun k hk => hback.got (hd.fine x).ok hk) (hc x)

theorem Duo.Capped.eq (hc : d.Capped) (hd : d.Healthy) (hup : (d.get x).phase = .up) :
    (d.get x).stream.payloadCap = d.cap x := by
  have hcap := hc x hup
  have hok := (hd.fine x).ok
  rw [Party.Ok, hup] at hok
  rw [(ofConfig_ok hok.2).1] at hcap
  rw [Duo.cap, ← hcap, Nat.add_sub_cancel]

/-- What one request brings is within the largest payload. -/
theorem Wf.within {s : HordStream} (h : Wf s) {w : SendWr} (hw : w ∈ s.conn.out) {v : Parcel}
    (hv : s.outParcel w = some v) : Within s.payloadCap v.packet.bodies := by
  -- a message of `len` bytes has at most `len - 8` bytes of payload
  have short : ∀ off len, len ≤ s.payloadCap + envelopeLen →
      Within s.payloadCap (Parcel.message (readAt s.send off len)).packet.bodies := by
    intro off len hlen m hm
    have hpay : (payloadOf (readAt s.send off len)).length ≤ s.payloadCap := by
      rw [payloadOf]
      split
      · exact Nat.zero_le _
      · have htake := List.length_take_le len (s.send.drop off)
        rw [List.length_take, List.length_drop, readAt]
        omega
    simp only [Parcel.packet, Packet.bodies] at hm
    split at hm
    · cases hm
    · rw [List.mem_singleton.mp hm]
      exact hpay
  cases h.sq w (List.mem_append_left _ hw) with
  | data slot len hslot hlo hhi =>
    cases hv
    exact short _ _ hhi
  | ctrl =>
    cases hv
    exact short _ _ (Nat.le_add_left _ _)
  | write chunk sges addr rkey imm hchunk =>
    cases imm with
    | none => cases hv
    | some id =>
      cases hv
      exact List.forall_mem_nil _

/-- Everything `x` has on the way is. -/
theorem Duo.Healthy.within (hd : d.Healthy) (hc : d.Capped) (x : Side) :
    Within (d.cap x) (bodies (d.traffic x).outbox) := by
  intro m hm
  rw [Duo.traffic, ((d.get x).traffic_boxes _).2] at hm
  obtain ⟨packet, hpacket, hm⟩ := List.mem_flatMap.mp hm
  obtain ⟨v, hv, rfl⟩ := List.mem_map.mp hpacket
  obtain ⟨w, hw, hwv⟩ := List.mem_filterMap.mp hv
  by_cases hup : (d.get x).phase = .up
  · rw [← hc.eq hd hup]
    exact ((hd.fine x).ok.inv hup).wf.within hw hwv m hm
  · -- before that only the handshake is posted, which is no traffic
    obtain ⟨sent, hpre⟩ := (hd.fine x).ok.pre hup (hd.fine x).alive
    rw [hpre.sq w (List.mem_append_left _ hw)] at hwv
    cases hwv

end Sizes

/-! The bound along a run. -/

/-- What `x` may have accepted: the backlog, with the reader shut once it is gone; or, once
    `x` is gone, no more than the bound. -/
def Duo.Slack (x : Side) (acc rd : Nat) (d : Duo) : Prop :=
  (Backlog (d.cap x) (window (d.get x.other).config) acc rd (d.traffic x) (d.traffic x.other) ∧
    Within (d.cap x) (d.traffic x.other).received) ∨
  ((d.get x.other).Gone ∧
    Backlog (d.cap x) (window (d.get x.other).config) acc rd (d.traffic x) (d.traffic x.other).shut) ∨
  ((d.get x).Gone ∧ acc ≤ rd + d.cap x * window (d.get x.other).config + (d.cap x - 1))

section Bound
variable {d e : Duo} {l : Event} {x : Side} {acc rd : Nat}

theorem Duo.Step.gone (h : Duo.Step d l e) (hd : d.Healthy) {y : Side} (hg : (d.get y).Gone) :
    (e.get y).Gone := by
  rcases h.party y with heq | ⟨m, hp⟩
  · rw [heq]
    exact hg
  · exact hp.gone (hd.fine y).ok hg

theorem Duo.Slack.le (hs : d.Slack x acc rd) (hd : d.Healthy) (hc : d.Capped)
    (hup : (d.get x).phase = .up) :
    acc ≤ rd + d.cap x * window (d.get x.other).config + (d.cap x - 1) := by
  have hstage : (d.traffic x).stage.length < d.cap x := by
    rw [Duo.traffic, Party.traffic_up _ hup, ← hc.eq hd hup]
    exact ((hd.fine x).ok.inv hup).wf.stage_lt
  rcases hs with ⟨hb, hin⟩ | ⟨-, hb⟩ | ⟨-, hle⟩
  · have := hb.le (hin.append (hd.within hc x))
    omega
  · have hout : Within (d.cap x) (transit (d.traffic x) (d.traffic x.other).shut) := hd.within hc x
    have := hb.le hout
    omega
  · exact hle

/-- A request that is flushed leaves the others as they were. -/
theorem Duo.Step.drop_outbox (h : Duo.Step d (.drop x) e) :
    (e.traffic x).outbox.Sublist (d.traffic x).outbox := by
  rw [Duo.traffic, Duo.traffic, ((e.get x).traffic_boxes _).2, ((d.get x).traffic_boxes _).2]
  cases h with
  | drop _ ls rs w wc ho hid hbad =>
    rw [Duo.get_set]
    have hsub : (ls ++ rs).Sublist (d.get x).stream.conn.out := by
      rw [ho]
      exact (List.Sublist.refl ls).append (List.sublist_cons_self w rs)
    exact (hsub.filterMap _).map _

/-- A call that returns. -/
theorem Duo.Step.slack_call {z : Side} {m : Hord.Move} (h : Duo.Step d (.call z m) e) (hd : d.Healthy)
    (halive : ∀ y, (e.get y).phase ≠ .failed) (hres : ∀ a er, m ≠ .act a (.error er))
    (hs : d.Slack x acc rd) : e.Slack x (acc + ((Event.call z m).accepted x).length)
      (rd + ((Event.call z m).read x.other).length) := by
  obtain ⟨hother, ls, hrun, hacc, hrd, -⟩ := h.call_run hd halive hres
  have hgone := fun y => h.gone hd (y := y)
  have hcap := h.cap x
  have hconf := h.config x.other
  have halive' := halive z
  unfold Duo.Slack at *
  rw [hcap, hconf]
  cases h with
  | call _ _ p hp hm =>
    rw [Duo.get_set] at halive'
    rcases x.eq_or_other z with rfl | rfl
    · simp only [Event.accepted, Event.read, if_true, if_neg (Side.ne_other z), List.length_nil, Nat.add_zero]
      rw [hother]
      rcases hs with ⟨hb, hin⟩ | ⟨hg, hb⟩ | ⟨hg, hle⟩
      · have hb' := hb.send_run hrun
        rw [hacc] at hb'
        exact .inl ⟨hb', hin⟩
      · have hb' := hb.send_run hrun
        rw [hacc] at hb'
        exact .inr (.inl ⟨hgone _ hg, hb'⟩)
      · rw [hp.gone_accepted hg]
        exact .inr (.inr ⟨hgone _ hg, hle⟩)
    · rw [Side.other_other] at hother
      simp only [Event.accepted, Event.read, if_true, if_neg (Side.other_ne x), List.length_nil, Nat.add_zero]
      rw [hother]
      rcases hs with ⟨hb, hin⟩ | ⟨hg, hb⟩ | ⟨hg, hle⟩
      · have hb' := hb.recv_run hrun
        rw [hrd] at hb'
        exact .inl ⟨hb', hin.received_run hrun⟩
      · -- a closed reader has posted nothing
        have hout := hp.gone_parcels hm (hd.fine x.other).ok hg halive'
        refine .inr (.inl ⟨hgone _ hg, (hb.shut (List.forall_mem_nil _) ?_).mono _⟩)
        show grants ((d.set x.other p).traffic x.other).outbox ≤ grants (d.traffic x.other).outbox + 0
        rw [Duo.traffic, Duo.traffic, (Party.traffic_boxes _ _).2, (Party.traffic_boxes _ _).2,
          Duo.get_set, hout, Nat.add_zero]
      · exact .inr (.inr ⟨hgone _ hg, by omega⟩)

theorem Duo.Slack.quiet (hs : d.Slack x acc rd) (h : Duo.Step d l e) (hd : d.Healthy)
    (hsame : ∀ y, e.traffic y = d.traffic y) : e.Slack x acc rd := by
  have hgone := fun y => h.gone hd (y := y)
  unfold Duo.Slack at *
  rw [h.cap, h.config, hsame, hsame]
  rcases hs with hb | ⟨hg, hb⟩ | ⟨hg, hle⟩
  · exact .inl hb
  · exact .inr (.inl ⟨hgone _ hg, hb⟩)
  · exact .inr (.inr ⟨hgone _ hg, hle⟩)

/-- A call that fails shows nothing; if it closes the stream, the end is gone. -/
theorem Duo.Step.slack_failed {z : Side} {a : Act} {er : Fail}
    (h : Duo.Step d (.call z (.act a (.error er))) e) (hd : d.Healthy) (hc : d.Capped)
    (halive : ∀ y, (e.get y).phase ≠ .failed) (hs : d.Slack x acc rd) : e.Slack x acc rd := by
  have hother := (h.traffic hd halive).1
  have hgone := fun y => h.gone hd (y := y)
  have hcap := h.cap x
  have hconf := h.config
  have hself := hs.quiet h hd
  cases h with
  | call _ _ p hp hm =>
    cases hp with
    | actErr t _ _ hup hr =>
      have hi := (hd.fine z).ok.inv hup
      have hhon := (hd.fine z).honest
      rcases Act.failed_traffic hi hhon hr with hclosed | hsame
      · have hz : ((d.set z { d.get z with stream := t }).get z).Gone := by
          rw [Duo.get_set]
          exact .inr ⟨hup, hclosed⟩
        rcases x.eq_or_other z with rfl | rfl
        · have hle := hs.le hd hc hup
          unfold Duo.Slack
          rw [hcap, hconf]
          exact .inr (.inr ⟨hz, hle⟩)
        · rw [Side.other_other] at hother
          have hpark : ∀ w, (Party.traffic w { d.get x.other with stream := t }) = t.traffic :=
            fun w => Party.traffic_up w hup
          have hgrants : grants ((d.set x.other { d.get x.other with stream := t }).traffic x.other).outbox ≤
              grants (d.traffic x.other).outbox + (d.traffic x.other).owed := by
            rw [Duo.traffic, Duo.traffic, Duo.get_set, hpark, Party.traffic_up _ hup]
            exact Act.failed_grants hi hhon hr
          unfold Duo.Slack at hs ⊢
          rw [hcap, hconf, hother]
          rcases hs with ⟨hb, hin⟩ | ⟨hg, hb⟩ | ⟨hg, hle⟩
          · exact .inr (.inl ⟨hz, hb.shut hin hgrants⟩)
          · have hout := (Party.Step.actErr _ t a er hup hr).gone_parcels hm (hd.fine x.other).ok hg
              (by rw [hup]; simp)
            refine .inr (.inl ⟨hz, hb.shut (List.forall_mem_nil _) ?_⟩)
            show grants ((d.set x.other _).traffic x.other).outbox ≤ grants (d.traffic x.other).outbox + 0
            rw [Duo.traffic, Duo.traffic, (Party.traffic_boxes _ _).2, (Party.traffic_boxes _ _).2,
              Duo.get_set, hout, Nat.add_zero]
          · exact .inr (.inr ⟨hgone _ hg, hle⟩)
      · refine hself fun y => ?_
        rcases z.eq_or_other y with rfl | rfl
        · rw [Duo.traffic, Duo.traffic, Duo.get_set, Duo.get_set_other]
          exact Party.traffic_same hsame
        · exact hother

/-- Every step keeps the bound. -/
theorem Duo.Step.slack (h : Duo.Step d l e) (hd : d.Healthy) (hc : d.Capped)
    (halive : ∀ y, (e.get y).phase ≠ .failed) (hs : d.Slack x acc rd) :
    e.Slack x (acc + (l.accepted x).length) (rd + (l.read x.other).length) := by
  have htraffic := h.traffic hd halive
  have hgone := fun y => h.gone hd (y := y)
  cases l with
  | call z m =>
    by_cases hres : ∃ a er, m = .act a (.error er)
    · obtain ⟨a, er, rfl⟩ := hres
      have hzero : ((Event.call z (.act a (.error er))).accepted x).length = 0 ∧
          ((Event.call z (.act a (.error er))).read x.other).length = 0 := by
        simp [Event.accepted, Event.read, Move.accepted, Move.read]
      rw [hzero.1, hzero.2]
      exact h.slack_failed hd hc halive hs
    · exact h.slack_call hd halive (fun a er hm => hres ⟨a, er, hm⟩) hs
  | deliver z w =>
    obtain ⟨ps, hdel⟩ := htraffic
    show e.Slack x acc rd
    unfold Duo.Slack at hs ⊢
    rw [h.cap, h.config]
    rcases x.eq_or_other z with rfl | rfl
    · have hout := hd.within hc z
      rw [hdel.sender, hdel.receiver]
      rcases hs with ⟨hb, hin⟩ | ⟨hg, hb⟩ | ⟨hg, hle⟩
      · refine .inl ⟨hb.carry hdel.taken, ?_⟩
        rw [hdel.taken, bodies_append] at hout
        show Within _ ((d.traffic z.other).held ++ bodies ((d.traffic z.other).inbox ++ ps))
        rw [bodies_append, ← List.append_assoc]
        exact hin.append (hout.sublist (List.sublist_append_left _ _))
      · -- what a closed reader receives it will not read
        refine .inr (.inl ⟨hgone _ hg, hb.drop hout ?_⟩)
        rw [hdel.taken]
        exact List.sublist_append_right _ _
      · exact .inr (.inr ⟨hgone _ hg, hle⟩)
    · have hrecv := hdel.receiver
      rw [Side.other_other] at hrecv
      rw [hdel.sender, hrecv]
      rcases hs with ⟨hb, hin⟩ | ⟨hg, hb⟩ | ⟨hg, hle⟩
      · exact .inl ⟨hb.carryBack hdel.taken, hin⟩
      · exact .inr (.inl ⟨hgone _ hg, hb.carryBack hdel.taken⟩)
      · exact .inr (.inr ⟨hgone _ hg, hle⟩)
  | drop z =>
    obtain ⟨hother, hsame⟩ := htraffic
    have hsub := h.drop_outbox
    show e.Slack x acc rd
    unfold Duo.Slack at hs ⊢
    rw [h.cap, h.config]
    rcases x.eq_or_other z with rfl | rfl
    · have hout := hd.within hc z
      rw [hother, hsame]
      rcases hs with ⟨hb, hin⟩ | ⟨hg, hb⟩ | ⟨hg, hle⟩
      · exact .inl ⟨hb.drop hout hsub, hin⟩
      · exact .inr (.inl ⟨hgone _ hg, hb.drop hout hsub⟩)
      · exact .inr (.inr ⟨hgone _ hg, hle⟩)
    · rw [Side.other_other] at hother
      rw [hother, hsame]
      rcases hs with ⟨hb, hin⟩ | ⟨hg, hb⟩ | ⟨hg, hle⟩
      · exact .inl ⟨hb.dropBack hsub, hin⟩
      · exact .inr (.inl ⟨hgone _ hg, hb.dropBack (y := (d.traffic x.other).shut) hsub⟩)
      · exact .inr (.inr ⟨hgone _ hg, hle⟩)
  | complete z w wc => exact hs.quiet h hd htraffic
  | reject z => exact hs.quiet h hd htraffic
  | oracle z => exact hs.quiet h hd htraffic
  | cm z ev => exact hs.quiet h hd htraffic

theorem Duo.Init.slack (h : d.Init) (x : Side) : d.Slack x 0 0 := by
  refine .inl ⟨?_, ?_⟩
  · rw [h.traffic x, h.traffic x.other]
    simp [Backlog, transit]
  · rw [h.traffic x.other]
    exact List.forall_mem_nil _

theorem slack_run {ls : List Event} (hinit : d.Init)
    (hrun : Run (fun d l e => Duo.Step d l e ∧ l.Tame d) d ls e) (halive : ∀ y, (e.get y).phase ≠ .failed) :
    e.Healthy ∧ e.Capped ∧ ∀ x, e.Slack x (ls.flatMap (Event.accepted x)).length
      (ls.flatMap (Event.read x.other)).length := by
  refine hrun.inv_trace (I := fun ls u => (∀ y, (u.get y).phase ≠ .failed) → u.Healthy ∧ u.Capped ∧
    ∀ x, u.Slack x (ls.flatMap (Event.accepted x)).length (ls.flatMap (Event.read x.other)).length)
    (fun ls s l t hi hs ht => ?_) (fun _ => ⟨hinit.healthy, hinit.capped, hinit.slack⟩) halive
  obtain ⟨hstep, htame⟩ := hs
  obtain ⟨hd, hc, hslack⟩ := hi (hstep.was_alive ht)
  refine ⟨hstep.healthy hd htame ht, hstep.capped hd hc, fun x => ?_⟩
  have hnext := hstep.slack hd hc ht (hslack x)
  simpa [List.flatMap_append] using hnext

end Bound

/-- Bounded buffering: in every run of two endpoints, whatever fails in it, the bytes an
    established end has accepted exceed those the other has read by at most the reader's
    receive pool of largest payloads and one byte less than another. -/
theorem buffering_bounded {d e : Duo} {ls : List Event} (hinit : d.Init)
    (hrun : Run (fun d l e => Duo.Step d l e ∧ l.Tame d) d ls e) {x : Side}
    (hup : (e.get x).phase = .up) (hother : (e.get x.other).phase ≠ .failed) :
    (ls.flatMap (Event.accepted x)).length ≤ (ls.flatMap (Event.read x.other)).length +
      (e.get x.other).config.recvPoolSize * (e.get x).stream.payloadCap +
      ((e.get x).stream.payloadCap - 1) := by
  have halive : ∀ y, (e.get y).phase ≠ .failed := by
    intro y
    rcases x.eq_or_other y with rfl | rfl
    · rw [hup]
      nofun
    · exact hother
  obtain ⟨hd, hc, hslack⟩ := slack_run hinit hrun halive
  have hle := (hslack x).le hd hc hup
  have hwindow : e.cap x * window (e.get x.other).config ≤
      (e.get x.other).config.recvPoolSize * e.cap x := by
    rw [Nat.mul_comm]
    exact Nat.mul_le_mul_right _ (window_le _)
  rw [hc.eq hd hup]
  omega

/-- The bound is reached: one message of eight bytes and a stage of seven, with nothing
    read. -/
theorem buffering_bounded_tiny : ∃ d ls e, d.Init ∧
    Run (fun d l e => Duo.Step d l e ∧ l.Tame d) d ls e ∧ (e.get .left).phase = .up ∧
    (e.get .right).phase = .up ∧ (ls.flatMap (Event.accepted .left)).length = 1 * 8 + (8 - 1) ∧
    (e.get .right).config.recvPoolSize = 1 ∧ (e.get .left).stream.payloadCap = 8 ∧
    (ls.flatMap (Event.accepted .left)).length ≤ (ls.flatMap (Event.read .right)).length +
      (e.get .right).config.recvPoolSize * (e.get .left).stream.payloadCap +
      ((e.get .left).stream.payloadCap - 1) := by
  obtain ⟨d, ls, e, hinit, hrun, hgood⟩ := Duo.launch_run (fun _ l => l.faithful) tinyConfig tinyConfig
    (tinyPair ++ [.act .left (.tryWrite (List.replicate 20 1)), .deliver .left, .complete .left,
      .act .left .pump, .act .left (.tryWrite (List.replicate 7 2)),
      .act .left (.tryWrite (List.replicate 12 3))])
    (fun ls e => decide ((ls.flatMap (Event.accepted .left)).length = 15) &&
      decide ((e.get .left).phase = .up ∧ (e.get .right).phase = .up) &&
      decide ((e.get .right).config.recvPoolSize = 1 ∧ (e.get .left).stream.payloadCap = 8))
    (by decide +kernel)
  simp only [Bool.and_eq_true, decide_eq_true_eq] at hgood
  obtain ⟨⟨hacc, hleft, hright⟩, hpool, hcap⟩ := hgood
  have htame : Run (fun d l e => Duo.Step d l e ∧ l.Tame d) d ls e := by
    refine hrun.mono fun d l e hs => ⟨hs.1, ?_⟩
    have hl := hs.2
    cases l with
    | drop y => cases hl
    | reject y => cases hl
    | _ => trivial
  exact ⟨d, ls, e, hinit, htame, hleft, hright, hacc, hpool, hcap,
    buffering_bounded hinit htame hleft (by rw [Side.other, hright]; simp)⟩

end Hord
