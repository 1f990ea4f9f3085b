import Hord.Delivery
import Hord.Conservation

/- What holds between two endpoints over every interleaving of their calls with the
   transport: the bytes read are those accepted, in order, once (`byte_stream_integrity`);
   credits are conserved and the control slack stays posted (`credits_conserved`). -/
namespace Hord

open Region Prog Transition CreditLink

/-- One end on the link, towards the window the other advertised. -/
def Duo.traffic (d : Duo) (x : Side) : End UInt8 := (d.get x).traffic (window (d.get x.other).config)

/-- Receives are flushed only after one of the ends was established, requests only after
    this one was. -/
def Event.Tame (d : Duo) : Event → Prop
  | .reject x => (d.get x.other).phase = .up ∨ (d.get x).phase = .up
  | .drop x => (d.get x).phase = .up
  | _ => True

section Healthy
variable {d e : Duo} {l : Event}

theorem Party.Init.fine {p : Party} (h : p.Init) : p.Fine ∧ p.phase = .fresh ∧
    p.stream.conn.out = [] ∧ p.stream.conn.cq = [] ∧ p.stream.rxReady = [] ∧ p.stream.txStage = [] ∧
    p.stream.grantPending = 0 ∧ p.stream.completedTransfers = [] ∧
    ∃ rs, p.stream.conn.rq = hsRecvWr :: rs := by
  have hok := h.ok
  obtain ⟨hph, sge, fs, hnew⟩ := h
  obtain ⟨geo, gs, -, heq⟩ := newCommon_ok hnew
  have hout : p.stream.conn.out = [] := by rw [heq]; rfl
  have hcq : p.stream.conn.cq = [] := by rw [heq]; rfl
  refine ⟨⟨hok, by rw [hph]; nofun, ⟨?_, ?_⟩, ?_⟩, hph, hout, hcq, by rw [heq]; rfl, by rw [heq]; rfl,
    by rw [heq]; rfl, by rw [heq]; rfl, (List.range geo.splitBase).map geo.slotWr, by rw [heq]; rfl⟩
  · intro v hv
    unfold HordStream.outParcels at hv
    rw [hout] at hv
    cases hv
  · intro v hv
    unfold HordStream.inParcels at hv
    rw [hcq] at hv
    cases hv
  · intro v hv
    rw [hcq] at hv
    cases hv

theorem Duo.Init.healthy (h : d.Init) : d.Healthy := by
  refine ⟨fun x => (h x).fine.1, fun x => ?_⟩
  obtain ⟨-, hph, hout, -⟩ := (h x).fine
  obtain ⟨-, -, -, -, -, -, -, -, rs, hrq⟩ := (h x.other).fine
  exact .unsent rs hph hout hrq

/-- Every step keeps the pair healthy, as long as neither handshake fails. -/
theorem Duo.Step.healthy (h : Duo.Step d l e) (hd : d.Healthy) (htame : l.Tame d)
    (halive : ∀ x, (e.get x).phase ≠ .failed) : e.Healthy := by
  have hok := h.ok (fun x => (hd.fine x).ok)
  cases h with
  | call x m p hp hm =>
    have hok' := hok x
    have halive' := halive x
    rw [Duo.get_set] at hok' halive'
    have hfine := hd.fine x
    obtain ⟨hhon, hplain⟩ := hp.honest hm hfine.ok halive' hfine.honest hfine.plain
    have hback := hd.hs x.other
    rw [Side.other_other] at hback
    exact hd.set ⟨hok', halive', hhon, hplain⟩ ((hd.hs x).sender hp hm hfine.ok halive')
      (hback.receiver hp hm hfine.ok halive')
  | deliver x w rest r rs bytes wc hout hrq hl hfit =>
    have hback := hd.hs x.other
    rw [Side.other_other] at hback
    have hp := hd.fine x
    have hq := hd.fine x.other
    obtain ⟨hpf, hqf, -⟩ := deliver_fine hp hq (hd.hs x) hout hrq hl hfit
    have hsend := (hd.hs x).deliver hq.ok hq.alive hout hrq hl
    have hrecv := (hback.landed_sender hq.ok wc hq.alive hrq hfit).carried_receiver w rest
    refine Duo.Healthy.of_both x ?_ ?_ ?_ ?_
    · rw [Duo.get_set_other', Duo.get_set]
      exact hpf
    · rw [Duo.get_set]
      exact hqf
    · rw [Duo.get_set_other', Duo.get_set, Duo.get_set]
      exact hsend
    · rw [Duo.get_set_other', Duo.get_set, Duo.get_set]
      exact hrecv
  | deliverWrite x id sges addr rkey rest hout =>
    have hok' := hok x
    rw [Duo.get_set] at hok'
    have hback := hd.hs x.other
    rw [Side.other_other] at hback
    have hfine := hd.fine x
    refine hd.set ⟨hok', hfine.alive, ⟨fun v hv => hfine.honest.out v ?_, hfine.honest.arrived⟩,
      hfine.plain⟩ ((hd.hs x).carried_sender hout (by simp [hsSendWr])) (hback.carried_receiver _ _)
    rw [outParcels_cons hout]
    exact List.mem_append_right _ hv
  | complete x ls rs w wc ha hid hop =>
    have hok' := hok x
    rw [Duo.get_set] at hok'
    have hback := hd.hs x.other
    rw [Side.other_other] at hback
    have hfine := hd.fine x
    have hmem : w ∈ (d.get x).stream.conn.out ++ (d.get x).stream.conn.await := by
      rw [ha]
      simp
    obtain ⟨hnone, hne, hop'⟩ := hfine.sq_completion hmem hid hop
    obtain ⟨h1, h2, -⟩ := queued_traffic (d.get x).stream _ (ls ++ rs) hnone rfl
    refine hd.set ⟨hok', hfine.alive, ⟨?_, ?_⟩, plain_append hfine.plain hop' rfl⟩
      ((hd.hs x).sender_env rfl rfl)
      (hback.receiver_env (.inl rfl) rfl (fun v hv => ?_) ⟨rfl, rfl⟩)
    · exact fun v hv => hfine.honest.out v (h2 ▸ hv)
    · exact fun v hv => hfine.honest.arrived v (h1 ▸ hv)
    · rcases List.mem_append.mp hv with hv | hv
      · exact .inl hv
      · rw [List.mem_singleton] at hv
        exact .inr (hv ▸ hne)
  | reject x ls rs r wc hr hid hbad =>
    have hok' := hok x
    rw [Duo.get_set] at hok'
    have hback := hd.hs x.other
    rw [Side.other_other] at hback
    have hfine := hd.fine x
    have hmem : r ∈ (d.get x).stream.conn.rq := by
      rw [hr]
      simp
    have hgone : hsRecvWr ∉ (d.get x).stream.conn.rq := by
      rcases htame with hup | hup
      · exact (hback.of_up hup).2.1
      · exact (hfine.ok.inv hup).no_handshake.2
    have hne : wc.wrId ≠ hsRecvWrId := by
      rcases hfine.ok.rq hfine.alive hmem with rfl | ⟨slot, -, hlt, rfl⟩
      · exact absurd hmem hgone
      · intro he
        rw [hid] at he
        have hkind := (recvWrId_kind hlt).2
        rw [show recvWrId slot = hsRecvWrId from he] at hkind
        exact absurd hkind (by decide)
    have hnone : (d.get x).stream.inParcel wc = none := by simp [HordStream.inParcel, hbad]
    obtain ⟨h1, h2, -⟩ := queued_traffic (d.get x).stream (ls ++ rs) (d.get x).stream.conn.await hnone rfl
    refine hd.set ⟨hok', hfine.alive, ⟨?_, ?_⟩, plain_append hfine.plain (fun h => ?_) rfl⟩
      ((hd.hs x).sender_env rfl rfl)
      (hback.receiver_env (.inr ⟨hgone, ?_⟩) rfl (fun v hv => ?_) ⟨rfl, rfl⟩)
    · exact fun v hv => hfine.honest.out v (h2 ▸ hv)
    · exact fun v hv => hfine.honest.arrived v (h1 ▸ hv)
    · rw [hbad] at h
      cases h
    · rw [hr]
      exact (List.sublist_cons_self r rs).append_left ls
    · rcases List.mem_append.mp hv with hv | hv
      · exact .inl hv
      · rw [List.mem_singleton] at hv
        exact .inr (hv ▸ hne)
  | drop x ls rs w wc ho hid hbad =>
    have hok' := hok x
    rw [Duo.get_set] at hok'
    have hback := hd.hs x.other
    rw [Side.other_other] at hback
    have hfine := hd.fine x
    have hmem : w ∈ (d.get x).stream.conn.out ++ (d.get x).stream.conn.await := by
      rw [ho]
      simp
    have hsub : ∀ v ∈ ls ++ rs, v ∈ (d.get x).stream.conn.out := by
      intro v hv
      rw [ho]
      simp only [List.mem_append, List.mem_cons] at hv ⊢
      tauto
    obtain ⟨hnone, hne, hop'⟩ := hfine.sq_completion hmem hid (fun h => by rw [hbad] at h; cases h)
    have hin := (queued_traffic (d.get x).stream (d.get x).stream.conn.rq (d.get x).stream.conn.await
      hnone rfl).1
    obtain ⟨hno, hrq, hgot⟩ := (hd.hs x).of_up htame
    refine hd.set ⟨hok', hfine.alive, ⟨fun v hv => ?_, ?_⟩, plain_append hfine.plain hop' rfl⟩ ?_
      (hback.receiver_env (.inl rfl) rfl (fun v hv => ?_) ⟨rfl, rfl⟩)
    · obtain ⟨u, hu, huv⟩ := List.mem_filterMap.mp hv
      exact hfine.honest.out v (List.mem_filterMap.mpr ⟨u, hsub u hu, huv⟩)
    · exact fun v hv => hfine.honest.arrived v (hin ▸ hv)
    · refine .delivered ?_ (fun hv => hno (hsub _ hv)) hrq hgot
      show (d.get x).phase ≠ _
      rw [show (d.get x).phase = .up from htame]
      simp
    · rcases List.mem_append.mp hv with hv | hv
      · exact .inl hv
      · rw [List.mem_singleton] at hv
        exact .inr (hv ▸ hne)
  | oracle x fs =>
    have hok' := hok x
    rw [Duo.get_set] at hok'
    have hback := hd.hs x.other
    rw [Side.other_other] at hback
    have hfine := hd.fine x
    exact hd.set ⟨hok', hfine.alive, ⟨hfine.honest.out, hfine.honest.arrived⟩, hfine.plain⟩
      ((hd.hs x).sender_env rfl rfl) (hback.receiver_env (.inl rfl) rfl (fun _ hv => .inl hv) ⟨rfl, rfl⟩)
  | cm x ev =>
    have hok' := hok x
    rw [Duo.get_set] at hok'
    have hback := hd.hs x.other
    rw [Side.other_other] at hback
    have hfine := hd.fine x
    exact hd.set ⟨hok', hfine.alive, ⟨hfine.honest.out, hfine.honest.arrived⟩, hfine.plain⟩
      ((hd.hs x).sender_env rfl rfl) (hback.receiver_env (.inl rfl) rfl (fun _ hv => .inl hv) ⟨rfl, rfl⟩)

end Healthy

/-! The laws of the link, step by step. -/

/-- What a step shows at end `x`. -/
def Event.accepted (x : Side) : Event → Bytes
  | .call y m => if y = x then m.accepted else []
  | _ => []

def Event.read (x : Side) : Event → Bytes
  | .call y m => if y = x then m.read else []
  | _ => []

/-- The call returns, and no request is lost. -/
def Event.Lossless : Event → Prop
  | .call _ (.act _ (.error _)) => False
  | .drop _ => False
  | _ => True

/-- The call returns, and no request of `x` is lost. -/
def Event.Keeps (x : Side) : Event → Prop
  | .call _ (.act _ (.error _)) => False
  | .drop y => y ≠ x
  | _ => True

section Laws
variable {d e : Duo} {l : Event}

/-- A delivery on the link. -/
structure Duo.Delivered (d e : Duo) (x : Side) (ps : List (Packet UInt8)) : Prop where
  taken : (d.traffic x).outbox = ps ++ (e.traffic x).outbox
  sender : e.traffic x = { d.traffic x with outbox := (e.traffic x).outbox }
  receiver : e.traffic x.other =
    { d.traffic x.other with inbox := (d.traffic x.other).inbox ++ ps }

/-- What each step does to the link. -/
theorem Duo.Step.traffic (h : Duo.Step d l e) (hd : d.Healthy)
    (halive : ∀ x, (e.get x).phase ≠ .failed) :
    match l with
    | .call x m => e.traffic x.other = d.traffic x.other ∧
        ((∀ a er, m ≠ .act a (.error er)) → Carries (window (d.get x.other).config) (d.get x) (e.get x)
          m.accepted m.read m.ids)
    | .deliver x _ => ∃ ps, Duo.Delivered d e x ps
    | .drop x => e.traffic x.other = d.traffic x.other ∧
        e.traffic x = { d.traffic x with outbox := (e.traffic x).outbox }
    | _ => ∀ y, e.traffic y = d.traffic y := by
  have hconf := h.config
  -- one end changes but not its traffic
  have quiet : ∀ x (t : HordStream), t.traffic = (d.get x).stream.traffic →
      ∀ y, (d.set x { d.get x with stream := t }).traffic y = d.traffic y := by
    intro x t ht y
    unfold Duo.traffic
    rcases x.eq_or_other y with rfl | rfl
    · rw [Duo.get_set, Duo.get_set_other]
      exact Party.traffic_same ht
    · rw [Duo.get_set_other, Side.other_other, Duo.get_set]
  have other : ∀ x p, p.config = (d.get x).config → (d.set x p).traffic x.other = d.traffic x.other := by
    intro x p hp
    unfold Duo.traffic
    rw [Duo.get_set_other, Side.other_other, Duo.get_set, hp]
  cases h with
  | call x m p hp hm =>
    have hfine := hd.fine x
    have halive' := halive x
    rw [Duo.get_set] at halive'
    refine ⟨other x p hp.config, fun hres => ?_⟩
    rw [Duo.get_set]
    have hback := hd.hs x.other
    rw [Side.other_other] at hback
    refine hp.carries hm hfine.ok halive' hfine.honest hfine.plain (fun peer hph => ?_) hres
    rw [hback.got hfine.ok hph]
    rfl
  | deliver x w rest r rs bytes wc hout hrq hl hfit =>
    obtain ⟨-, -, ps, hps, hland⟩ := deliver_fine (hd.fine x) (hd.fine x.other) (hd.hs x) hout hrq hl hfit
    have hcar : ((d.get x).stream.carried w rest).traffic = { (d.get x).stream.traffic with
        outbox := ((d.get x).stream.carried w rest).outParcels.map Parcel.packet } := rfl
    have hex : ((d.set x ((d.get x).carried w rest)).set x.other
        ((d.get x.other).landed r rs bytes wc)).traffic x =
        ((d.get x).carried w rest).traffic (window (d.get x.other).config) := by
      unfold Duo.traffic
      rw [Duo.get_set_other', Duo.get_set, Duo.get_set]
      rfl
    have hey : ((d.set x ((d.get x).carried w rest)).set x.other
        ((d.get x.other).landed r rs bytes wc)).traffic x.other =
        ((d.get x.other).landed r rs bytes wc).traffic (window (d.get x).config) := by
      unfold Duo.traffic
      rw [Duo.get_set, Side.other_other, Duo.get_set_other', Duo.get_set]
      rfl
    refine ⟨ps.map Parcel.packet, ?_, ?_, ?_⟩
    · rw [hex, Duo.traffic, ((d.get x).traffic_boxes _).2,
        (((d.get x).carried w rest).traffic_boxes _).2, hps, List.map_append]
    · rw [hex, (((d.get x).carried w rest).traffic_boxes _).2]
      exact Party.traffic_outbox hcar
    · rw [hey, Duo.traffic, Side.other_other, ((d.get x.other).traffic_boxes _).1]
      exact Party.traffic_inbox hland
  | deliverWrite x id sges addr rkey rest hout =>
    have hps := outParcels_cons hout
    have hcar : ((d.get x).stream.carried (.write id sges addr rkey none) rest).traffic =
        (d.get x).stream.traffic := by
      unfold HordStream.traffic
      rw [hps]
      rfl
    have hsame := quiet x _ hcar
    refine ⟨[], ?_, ?_, ?_⟩
    · exact congrArg End.outbox (hsame x).symm
    · rw [show (d.set x ((d.get x).carried (.write id sges addr rkey none) rest)).traffic x =
        d.traffic x from hsame x]
    · rw [List.append_nil]
      exact hsame x.other
  | complete x ls rs w wc ha hid hop =>
    have hmem : w ∈ (d.get x).stream.conn.out ++ (d.get x).stream.conn.await := by
      rw [ha]
      simp
    have hnone := ((hd.fine x).sq_completion hmem hid hop).1
    exact quiet x _ (queued_traffic (d.get x).stream _ (ls ++ rs) hnone rfl).2.2
  | reject x ls rs r wc hr hid hbad =>
    have hnone : (d.get x).stream.inParcel wc = none := by simp [HordStream.inParcel, hbad]
    exact quiet x _ (queued_traffic (d.get x).stream (ls ++ rs) (d.get x).stream.conn.await hnone rfl).2.2
  | drop x ls rs w wc ho hid hbad =>
    refine ⟨other x _ rfl, ?_⟩
    have hmem : w ∈ (d.get x).stream.conn.out ++ (d.get x).stream.conn.await := by
      rw [ho]
      simp
    have hnone := ((hd.fine x).sq_completion hmem hid (fun h => by rw [hbad] at h; cases h)).1
    have hin := (queued_traffic (d.get x).stream (d.get x).stream.conn.rq (d.get x).stream.conn.await
      hnone rfl).1
    unfold Duo.traffic
    rw [Duo.get_set, Duo.get_set_other, (Party.traffic_boxes _ _).2]
    refine Party.traffic_outbox ?_
    unfold HordStream.traffic
    rw [← hin]
    rfl
  | oracle x fs => exact quiet x _ rfl
  | cm x ev => exact quiet x _ rfl

/-- A call that returns is a run of the link's moves. -/
theorem Duo.Step.call_run {x : Side} {m : Hord.Move} (h : Duo.Step d (.call x m) e) (hd : d.Healthy)
    (halive : ∀ x, (e.get x).phase ≠ .failed) (hres : ∀ a er, m ≠ .act a (.error er)) :
    e.traffic x.other = d.traffic x.other ∧
    ∃ ls, Run (CreditLink.Move counterLimit) (d.traffic x) ls (e.traffic x) ∧
      ls.flatMap Label.accepted = m.accepted ∧ ls.flatMap Label.reads = m.read ∧
      ls.flatMap Label.taken = m.ids := by
  obtain ⟨hother, hcar⟩ := h.traffic hd halive
  refine ⟨hother, ?_⟩
  have hcar' := hcar hres
  unfold Carries at hcar'
  have hconf := h.config x.other
  unfold Duo.traffic
  rw [hconf]
  exact hcar'

theorem Event.Lossless.keeps (h : l.Lossless) (x : Side) : l.Keeps x := by
  unfold Event.Lossless at h
  unfold Event.Keeps
  split at h
  · exact h
  · exact h.elim
  · trivial

theorem Event.Keeps.returns {x z : Side} {m : Hord.Move} (h : (Event.call z m).Keeps x) (a : Act)
    (er : Fail) : m ≠ .act a (.error er) := by
  rintro rfl
  exact h

/-- A step that loses nothing of `x` keeps the order of what it sends. -/
theorem Duo.Step.ordered (h : Duo.Step d l e) (hd : d.Healthy) (halive : ∀ x, (e.get x).phase ≠ .failed)
    {x : Side} (hl : l.Keeps x) {acc rd : Bytes}
    (ho : Ordered (d.traffic x) (d.traffic x.other) acc rd) :
    Ordered (e.traffic x) (e.traffic x.other) (acc ++ l.accepted x) (rd ++ l.read x.other) := by
  have quiet : (∀ y, e.traffic y = d.traffic y) →
      Ordered (e.traffic x) (e.traffic x.other) (acc ++ []) (rd ++ []) := by
    intro hsame
    rw [hsame, hsame, List.append_nil, List.append_nil]
    exact ho
  cases l with
  | call z m =>
    obtain ⟨hother, ls, hrun, hacc, hrd, -⟩ := h.call_run hd halive hl.returns
    rcases x.eq_or_other z with rfl | rfl
    · have hsend := Ordered.send_run hrun ho
      rw [hacc] at hsend
      rw [hother]
      simpa [Event.accepted, Event.read] using hsend
    · rw [Side.other_other] at hother
      have hrecv := Ordered.recv_run hrun ho
      rw [hrd] at hrecv
      rw [hother]
      simpa [Event.accepted, Event.read] using hrecv
  | deliver z w =>
    obtain ⟨ps, hdel⟩ := h.traffic hd halive
    simp only [Event.accepted, Event.read, List.append_nil]
    rcases x.eq_or_other z with rfl | rfl
    · rw [hdel.sender, hdel.receiver]
      exact ho.carry hdel.taken
    · -- the other direction does not see its packets
      have hrecv := hdel.receiver
      rw [Side.other_other] at hrecv
      rw [hdel.sender, hrecv]
      exact ho
  | drop z =>
    obtain ⟨hother, hsame⟩ := h.traffic hd halive
    simp only [Event.accepted, Event.read, List.append_nil]
    rcases x.eq_or_other z with rfl | rfl
    · exact absurd rfl hl
    · -- only the other end's own packets are gone
      rw [Side.other_other] at hother
      rw [hother, hsame]
      exact ho
  | complete z w wc => exact quiet (h.traffic hd halive)
  | reject z => exact quiet (h.traffic hd halive)
  | oracle z => exact quiet (h.traffic hd halive)
  | cm z ev => exact quiet (h.traffic hd halive)

/-- Each direction's window. -/
def Duo.Credited (d : Duo) (x : Side) : Prop :=
  CreditLink.Credited (window (d.get x.other).config) (d.traffic x) (d.traffic x.other)

theorem window_lt (config : HordConfig) : window config < counterLimit :=
  Nat.lt_trans (UInt16.toNat_lt _) (by decide)

/-- A lossless step keeps the credits of each direction. -/
theorem Duo.Step.credited (h : Duo.Step d l e) (hd : d.Healthy) (halive : ∀ x, (e.get x).phase ≠ .failed)
    (hl : l.Lossless) {x : Side} (hc : d.Credited x) : e.Credited x := by
  have hw := window_lt (d.get x.other).config
  have hconf := h.config x.other
  unfold Duo.Credited at *
  rw [hconf]
  have quiet : (∀ y, e.traffic y = d.traffic y) →
      CreditLink.Credited (window (d.get x.other).config) (e.traffic x) (e.traffic x.other) := by
    intro hsame
    rw [hsame, hsame]
    exact hc
  cases l with
  | call z m =>
    obtain ⟨hother, ls, hrun, -⟩ := h.call_run hd halive (hl.keeps x).returns
    rcases x.eq_or_other z with rfl | rfl
    · rw [hother]
      exact Credited.send_run hrun hc hw
    · rw [Side.other_other] at hother
      rw [hother]
      exact Credited.recv_run hrun hc hw
  | deliver z w =>
    obtain ⟨ps, hdel⟩ := h.traffic hd halive
    rcases x.eq_or_other z with rfl | rfl
    · rw [hdel.sender, hdel.receiver]
      exact hc.carry hdel.taken
    · have hrecv := hdel.receiver
      rw [Side.other_other] at hrecv
      rw [hdel.sender, hrecv]
      exact hc.carryBack hdel.taken
  | drop z => exact hl.elim
  | complete z w wc => exact quiet (h.traffic hd halive)
  | reject z => exact quiet (h.traffic hd halive)
  | oracle z => exact quiet (h.traffic hd halive)
  | cm z ev => exact quiet (h.traffic hd halive)

/-- Before anything happens the link is empty. -/
theorem Duo.Init.traffic (h : d.Init) (x : Side) :
    d.traffic x = ⟨window (d.get x.other).config, 0, [], [], [], [], []⟩ := by
  obtain ⟨-, hph, hout, hcq, hready, hstage, howed, htags, -⟩ := (h x).fine
  have hin : (d.get x).stream.inParcels = [] := by
    unfold HordStream.inParcels
    rw [hcq]
    rfl
  have hout' : (d.get x).stream.outParcels = [] := by
    unfold HordStream.outParcels
    rw [hout]
    rfl
  unfold Duo.traffic
  rw [Party.traffic_of_ne _ (by rw [hph]; nofun)]
  unfold HordStream.traffic
  simp only [hin, hout', hready, hstage, howed, htags, List.map_nil]

theorem Duo.Init.laws (h : d.Init) (x : Side) :
    Ordered (d.traffic x) (d.traffic x.other) [] [] ∧ d.Credited x := by
  unfold Duo.Credited
  rw [h.traffic x, h.traffic x.other]
  exact ⟨rfl, rfl⟩

end Laws

/-! Whole runs. -/

/-- A step of a run in which every call returns and no request is flushed. -/
def Event.clean : Event → Bool
  | .call _ (.act _ (.error _)) => false
  | .call _ (.broke _) => false
  | .drop _ => false
  | .reject _ => false
  | _ => true

/-- The transport as assumed: nothing is lost or flushed, every completion succeeds, no
    device call is refused, and every call on an established stream returns. -/
def Event.faithful : Event → Bool
  | .call _ (.act _ (.error _)) => false
  | .complete _ _ wc => wc.isSuccess
  | .drop _ => false
  | .reject _ => false
  | .oracle _ => false
  | _ => true

section Runs
variable {d e : Duo} {l : Event}

theorem Party.Step.alive {p q : Party} {m : Hord.Move} (h : Party.Step p m q) (hp : p.phase ≠ .failed)
    (hm : ∀ er, m ≠ .broke er) : q.phase ≠ .failed := by
  cases h with
  | env t he => exact hp
  | hello t hph hr => nofun
  | wait t hph hr => exact hp
  | peer t peer hph hr => nofun
  | apply t peer hph hr => nofun
  | broke t er hr => exact absurd rfl (hm er)
  | act t a v hph hr => exact hp
  | actErr t a er hph hr => exact hp

/-- Only a failed handshake takes an end out of the pair. -/
theorem Duo.Step.alive (h : Duo.Step d l e) (hd : ∀ x, (d.get x).phase ≠ .failed)
    (hl : ∀ x er, l ≠ .call x (.broke er)) (y : Side) : (e.get y).phase ≠ .failed := by
  have one : ∀ x p, p.phase ≠ .failed → ((d.set x p).get y).phase ≠ .failed := by
    intro x p hp
    rcases x.eq_or_other y with rfl | rfl
    · rw [Duo.get_set]
      exact hp
    · rw [Duo.get_set_other]
      exact hd _
  cases h with
  | call x m p hp hm =>
    exact one x p (hp.alive (hd x) fun er hm => hl x er (by rw [hm]))
  | deliver x w rest r rs bytes wc hout hrq hld hfit =>
    rcases x.eq_or_other y with rfl | rfl
    · rw [Duo.get_set_other', Duo.get_set]
      exact hd y
    · rw [Duo.get_set]
      exact hd x.other
  | deliverWrite x => exact one x _ (hd x)
  | complete x => exact one x _ (hd x)
  | reject x => exact one x _ (hd x)
  | drop x => exact one x _ (hd x)
  | oracle x => exact one x _ (hd x)
  | cm x => exact one x _ (hd x)

theorem Party.Step.stays_failed {p q : Party} {m : Hord.Move} (h : Party.Step p m q) (hf : p.phase = .failed) : q.phase = .failed := by
  cases h with
  | env t henv => exact hf
  | hello t hph hr => rw [hph] at hf; cases hf
  | wait t hph hr => rw [hph] at hf; cases hf
  | peer t k hph hr => rw [hph] at hf; cases hf
  | apply t k hph hr => rw [hph] at hf; cases hf
  | broke t er hr => rfl
  | act t a v hph hr => rw [hph] at hf; cases hf
  | actErr t a er hph hr => rw [hph] at hf; cases hf

/-- An end that is not failed never was. -/
theorem Duo.Step.was_alive (h : Duo.Step d l e) (he : ∀ y, (e.get y).phase ≠ .failed) (y : Side) :
    (d.get y).phase ≠ .failed := by
  intro hf
  rcases h.party y with heq | ⟨m, hp⟩
  · exact he y (by rw [heq]; exact hf)
  · exact he y (hp.stays_failed hf)

theorem Event.clean_facts (h : l.clean = true) :
    l.Lossless ∧ l.Tame d ∧ ∀ x er, l ≠ .call x (.broke er) := by
  match l with
  | .call x (.act a (.error er)) => cases h
  | .call x (.broke er) => cases h
  | .call x .env => exact ⟨trivial, trivial, nofun⟩
  | .call x .hello => exact ⟨trivial, trivial, nofun⟩
  | .call x (.poll r) => exact ⟨trivial, trivial, nofun⟩
  | .call x .apply => exact ⟨trivial, trivial, nofun⟩
  | .call x (.act a (.ok v)) => exact ⟨trivial, trivial, nofun⟩
  | .deliver x w => exact ⟨trivial, trivial, nofun⟩
  | .complete x w wc => exact ⟨trivial, trivial, nofun⟩
  | .reject x => cases h
  | .drop x => cases h
  | .oracle x => exact ⟨trivial, trivial, nofun⟩
  | .cm x ev => exact ⟨trivial, trivial, nofun⟩

/-- A clean run keeps the pair healthy and each direction in order. -/
theorem clean_run {ls : List Event} (hinit : d.Init) (hrun : Run Duo.Step d ls e)
    (hclean : ∀ l ∈ ls, l.clean = true) :
    e.Healthy ∧ ∀ x, Ordered (e.traffic x) (e.traffic x.other) (ls.flatMap (Event.accepted x))
      (ls.flatMap (Event.read x.other)) := by
  refine (hrun.restrict hclean).inv_trace (I := fun ls u => u.Healthy ∧ ∀ x,
    Ordered (u.traffic x) (u.traffic x.other) (ls.flatMap (Event.accepted x))
      (ls.flatMap (Event.read x.other))) (fun ls s l t hi hs => ?_)
    ⟨hinit.healthy, fun x => (hinit.laws x).1⟩
  obtain ⟨hl, htame, hbroke⟩ := Event.clean_facts (d := s) hs.2
  have halive := hs.1.alive (fun x => (hi.1.fine x).alive) hbroke
  refine ⟨hs.1.healthy hi.1 htame halive, fun x => ?_⟩
  have hstep := hs.1.ordered hi.1 halive (hl.keeps x) (hi.2 x)
  simpa [List.flatMap_append] using hstep

/-- An end with nothing staged, held or waiting, and no send on its way out. -/
theorem traffic_idle (x : Side) (hout : ∀ w ∈ (e.get x).stream.conn.out, w.opcode ≠ .send) :
    bodies (e.traffic x).outbox = [] := by
  unfold Duo.traffic
  rw [((e.get x).traffic_boxes _).2]
  have himm : ∀ p ∈ (e.get x).stream.outParcels, ∃ id, p = .immediate id := by
    intro p hp
    obtain ⟨w, hw, hwp⟩ := List.mem_filterMap.mp hp
    match w with
    | .send id mr off len => exact absurd rfl (hout _ hw)
    | .write id sges addr rkey none => cases hwp
    | .write id sges addr rkey (some v) => cases hwp; exact ⟨v, rfl⟩
  generalize (e.get x).stream.outParcels = ps at himm
  induction ps with
  | nil => rfl
  | cons p ps ih =>
    obtain ⟨id, rfl⟩ := himm p (List.mem_cons_self ..)
    rw [List.map_cons, bodies_cons, ih fun q hq => himm q (List.mem_cons_of_mem _ hq)]
    rfl

/-- With nothing staged, in flight, waiting or held, the link is empty. -/
theorem Duo.drained {x : Side} (hstage : (e.get x).stream.txStage = [])
    (hout : ∀ w ∈ (e.get x).stream.conn.out, w.opcode ≠ .send)
    (hcq : (e.get x.other).stream.conn.cq = []) (hready : (e.get x.other).stream.rxReady = []) :
    (e.traffic x.other).held = [] ∧ bodies (e.traffic x.other).inbox = [] ∧
      bodies (e.traffic x).outbox = [] ∧ (e.traffic x).stage = [] := by
  refine ⟨?_, ?_, traffic_idle x hout, ?_⟩
  · have hnil : (e.get x.other).stream.traffic.held = [] := by
      show (e.get x.other).stream.rxReady.map _ = []
      rw [hready]
      rfl
    unfold Duo.traffic Party.traffic
    split <;> exact hnil
  · unfold Duo.traffic
    rw [((e.get x.other).traffic_boxes _).1]
    unfold HordStream.inParcels
    rw [hcq]
    rfl
  · unfold Duo.traffic Party.traffic
    split <;> exact hstage

end Runs

/-- Byte-stream integrity: in every run of the pair in which every call returns, what
    one end has read is a first part of what the other has accepted; it is all of it
    once nothing is staged, in flight, waiting or held. -/
theorem byte_stream_integrity {d e : Duo} {ls : List Event} (hinit : d.Init)
    (hrun : Run Duo.Step d ls e) (hclean : ∀ l ∈ ls, l.clean = true) (x : Side) :
    ls.flatMap (Event.read x.other) <+: ls.flatMap (Event.accepted x) ∧
      ((e.get x).stream.txStage = [] → (∀ w ∈ (e.get x).stream.conn.out, w.opcode ≠ .send) →
        (e.get x.other).stream.conn.cq = [] → (e.get x.other).stream.rxReady = [] →
        ls.flatMap (Event.read x.other) = ls.flatMap (Event.accepted x)) := by
  have hord := (clean_run hinit hrun hclean).2 x
  refine ⟨hord.read_le, fun hstage hout hcq hready => ?_⟩
  obtain ⟨hheld, hin, hout', hstage'⟩ := Duo.drained hstage hout hcq hready
  exact hord.complete hheld hin hout' hstage'

/-- Both ends set up, with the tiny configuration. -/
def tinyPair : List Turn :=
  [.setup .left, .setup .right, .deliver .left, .deliver .right, .complete .left, .complete .right,
    .setup .left, .setup .right, .setup .left, .setup .right]

/-- Three bytes, staged, flushed, delivered and read. -/
theorem byte_stream_integrity_three : ∃ d ls e, d.Init ∧ Run Duo.Step d ls e ∧
    (∀ l ∈ ls, l.clean = true) ∧ ls.flatMap (Event.read .right) = [1, 2, 3] ∧
    ls.flatMap (Event.read .right) <+: ls.flatMap (Event.accepted .left) ∧
      ((e.get .left).stream.txStage = [] → (∀ w ∈ (e.get .left).stream.conn.out, w.opcode ≠ .send) →
        (e.get .right).stream.conn.cq = [] → (e.get .right).stream.rxReady = [] →
        ls.flatMap (Event.read .right) = ls.flatMap (Event.accepted .left)) := by
  obtain ⟨d, ls, e, hinit, hrun, hgood⟩ := Duo.launch_run (fun _ l => l.clean) tinyConfig tinyConfig
    (tinyPair ++ [.act .left (.tryWrite [1, 2, 3]), .act .left .tryFlushStage, .deliver .left,
      .act .right .pump, .act .right (.tryRead 16)])
    (fun ls _ => decide (ls.flatMap (Event.read .right) = [1, 2, 3])) (by decide +kernel)
  have hstep : Run Duo.Step d ls e := hrun.mono fun _ _ _ h => h.1
  have hclean := hrun.labels
  exact ⟨d, ls, e, hinit, hstep, hclean, of_decide_eq_true hgood,
    byte_stream_integrity hinit hstep hclean .left⟩

end Hord
