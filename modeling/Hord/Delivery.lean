import Hord.Exchange
import Hord.Frames

/- The two laws of the link hold between the endpoints, from before the handshake
   on: setting up leaves the link alone, every call of an established stream is a run
   of its moves, and a delivery carries one packet across. -/
namespace Hord

open Region Prog Transition CreditLink

/-- The window a configuration advertises. -/
def window (config : HordConfig) : Nat := (myHandshake config).maxRecvBuffers.toNat

/-- An endpoint on the link, towards a peer with window `w`: until it is established,
    all of the window is still there. -/
def Party.traffic (w : Nat) (p : Party) : End UInt8 :=
  if p.phase = .up then p.stream.traffic else { p.stream.traffic with credits := w }

/-- What a move shows to the user of the stream. -/
def Move.accepted : Hord.Move → Bytes
  | .act a (.ok v) => a.accepted v
  | _ => []

/-- A closed stream accepts nothing. -/
theorem Act.closed_accepts {a : Act} {s : HordStream} (hc : s.peerClosed = true) : wp a.run s fun r _ =>
    (Move.act a r).accepted = [] := by
  cases a with
  | tryWrite buf =>
    simp only [Act.run, Hord.tryWrite, wp_bind, wp_get, hc, if_true]
    rfl
  | _ =>
    refine wp_mono (wp_true _ s) ?_
    intro r t _
    cases r <;> rfl

def Move.read : Hord.Move → Bytes
  | .act _ (.ok v) => v.read
  | _ => []

def Move.ids : Hord.Move → List Nat
  | .act _ (.ok v) => v.ids
  | _ => []

/-- From `p` to `p'` the link makes a run of moves that accept `acc`, read `rd` and
    take `ids`. -/
def Carries (w : Nat) (p p' : Party) (acc rd : Bytes) (ids : List Nat) : Prop :=
  ∃ ls, Run (CreditLink.Move counterLimit) (p.traffic w) ls (p'.traffic w) ∧
    ls.flatMap Label.accepted = acc ∧ ls.flatMap Label.reads = rd ∧ ls.flatMap Label.taken = ids

theorem Carries.of_eq {w : Nat} {p p' : Party} (h : p'.traffic w = p.traffic w) :
    Carries w p p' [] [] [] := by
  refine ⟨[], ?_, rfl, rfl, rfl⟩
  rw [h]
  exact .nil _

section Labels

theorem label_accepted (os : List Obs) : (os.map Obs.label).flatMap Label.accepted = acceptedOf os := by
  induction os with
  | nil => rfl
  | cons o os ih =>
    rw [List.map_cons, List.flatMap_cons, ih]
    cases o <;> rfl

theorem label_reads (os : List Obs) : (os.map Obs.label).flatMap Label.reads = copiedOf os := by
  induction os with
  | nil => rfl
  | cons o os ih =>
    rw [List.map_cons, List.flatMap_cons, ih]
    cases o <;> rfl

theorem label_taken (os : List Obs) : (os.map Obs.label).flatMap Label.taken = transfersOf os := by
  induction os with
  | nil => rfl
  | cons o os ih =>
    rw [List.map_cons, List.flatMap_cons, ih]
    cases o <;> rfl

theorem NoLoss.loses {os : List Obs} (h : NoLoss os) : ∀ o ∈ os, o.loses = false := by
  intro o ho
  obtain ⟨h1, h2⟩ := h o ho
  cases o with
  | lost => exact absurd rfl h1
  | dropped bs => exact absurd rfl (h2 bs)
  | _ => rfl

end Labels

section Setup
variable {s t : HordStream}

/-- Posting the handshake leaves the link alone. -/
theorem hello_traffic (s : HordStream) (b : Bytes) (fs : List Bool) {t : HordStream}
    (ht : t = { s with handshake := b
                       conn := { s.conn with faults := fs, out := s.conn.out ++ [hsSendWr] } }) :
    t.inParcels = s.inParcels ∧ t.outParcels = s.outParcels ∧ t.traffic = s.traffic := by
  obtain ⟨hheld, hin'⟩ := received_congr (s := s) (t := t) (by rw [ht]) (by rw [ht]) (by rw [ht])
  have hin : t.inParcels = s.inParcels := by
    unfold HordStream.inParcels
    rw [hin', ht]
  have hout : t.outParcels = s.outParcels := by
    rw [ht]
    show (s.conn.out ++ [hsSendWr]).filterMap s.outParcel = _
    rw [List.filterMap_append]
    exact List.append_nil _
  refine ⟨hin, hout, ?_⟩
  unfold HordStream.traffic
  rw [hin, hout, hheld, ht]

/-- Taking handshake completions off the queue leaves the link alone. -/
theorem run_hsStep_traffic {ls : List (Option Completion)} (h : Run HsStep s ls t) (hp : s.Plain) :
    t.inParcels = s.inParcels ∧ t.outParcels = s.outParcels ∧ t.traffic = s.traffic ∧ t.Plain := by
  have quiet : ∀ {u v : HordStream} {wc : Completion} {rest : List Completion}, u.Plain →
      u.conn.cq = wc :: rest → (wc.wrId = hsRecvWrId ∨ wc.wrId = hsSendWrId) → wc.isSuccess = true →
      (u.setCq rest).inParcels = u.inParcels ∧ (u.setCq rest).traffic = u.traffic ∧
        (u.setCq rest).Plain := by
    intro u v wc rest hu hcq hid hok
    have hw : isWrite wc.wrId = true := by
      rcases hid with hid | hid
      · rw [hid]; exact hsWrId_kind.1
      · rw [hid]; exact hsWrId_kind.2
    have hop := hu wc (by rw [hcq]; exact List.mem_cons_self ..) hw hok
    have hnone : u.inParcel wc = none := by simp [HordStream.inParcel, hop, hw]
    refine ⟨?_, traffic_quiet hcq hnone, fun v hv => hu v (by rw [hcq]; exact List.mem_cons_of_mem _ hv)⟩
    rw [inParcels_cons hcq, hnone]
    rfl
  refine h.inv (I := fun u => u.inParcels = s.inParcels ∧ u.outParcels = s.outParcels ∧
    u.traffic = s.traffic ∧ u.Plain) (fun u l v hi hs => ?_) ⟨rfl, rfl, rfl, hp⟩
  obtain ⟨h1, h2, h3, h4⟩ := hi
  cases hs with
  | tick fs => exact ⟨h1, h2, h3, h4⟩
  | recv wc rest hcq hid hok =>
    obtain ⟨q1, q2, q3⟩ := quiet (v := u) h4 hcq (.inl hid) hok
    exact ⟨q1.trans h1, h2, q2.trans h3, q3⟩
  | send wc rest hcq hid hok =>
    obtain ⟨q1, q2, q3⟩ := quiet (v := u) h4 hcq (.inr hid) hok
    exact ⟨q1.trans h1, h2, q2.trans h3, q3⟩

/-- Establishing the stream only turns the peer's window into credits. -/
theorem applyPeer_traffic {config : HordConfig} (h : Pre config true s) (hdone : s.hsDone = true)
    {peer : Handshake} (hr : applyPeer peer s = .ok () t) :
    t.inParcels = s.inParcels ∧ t.outParcels = s.outParcels ∧
      t.traffic = { s.traffic with credits := peer.maxRecvBuffers.toNat } ∧ t.conn.cq = s.conn.cq ∧
      t.peerClosed = s.peerClosed ∧ t.conn.await = s.conn.await ∧
      ∀ wc ∈ s.conn.cq, t.inParcel wc = s.inParcel wc := by
  obtain ⟨-, -, -, hcq⟩ := h.settled hdone
  obtain ⟨-, -, hready, -⟩ := idle_fields h.idle
  obtain ⟨-, hfit, watch, fs, rfl⟩ := wp_ok (applyPeer_wp s peer) hr
  obtain ⟨split, n, -, heq⟩ := finished_established watch fs h.idle.splitRecv hfit
  rw [heq]
  -- what has arrived lies in the eager region
  have heach : ∀ wc ∈ s.conn.cq, (s.established peer split n watch fs).inParcel wc = s.inParcel wc := by
    intro wc hwc
    obtain ⟨slot, hslot, hid, -⟩ := hcq wc hwc
    have hplace : s.geo.place (slotOf wc.wrId) = (.recv, slotOf wc.wrId * s.geo.msgSize) := by
      rw [hid, slotOf_recvWrId (s.geo.slot_lt hslot)]
      exact if_pos hslot
    have hbytes : (s.established peer split n watch fs).slotBytes (slotOf wc.wrId)
        (min wc.byteLen s.geo.msgSize) = s.slotBytes (slotOf wc.wrId) (min wc.byteLen s.geo.msgSize) := by
      show readAt (HordStream.region _ (s.geo.place (slotOf wc.wrId)).1)
        (s.geo.place (slotOf wc.wrId)).2 _ = _
      unfold HordStream.slotBytes
      rw [hplace]
      rfl
    unfold HordStream.inParcel
    rw [show (s.established peer split n watch fs).geo = s.geo from rfl, hbytes]
  have hin : (s.established peer split n watch fs).inParcels = s.inParcels := List.filterMap_congr heach
  have hheld : (s.established peer split n watch fs).rxReady = [] := hready
  refine ⟨hin, rfl, ?_, rfl, rfl, rfl, heach⟩
  show ({ (s.established peer split n watch fs).traffic with } : End UInt8) = _
  unfold HordStream.traffic
  rw [hin, hheld, hready]
  rfl

end Setup

section Calls
variable {p p' : Party} {m : Hord.Move}

/-- Only a closed stream loses what it held, and it stays closed. -/
theorem run_lossy_closed {s t : HordStream} {os : List Obs} (hr : Run Local s os t) {o : Obs}
    (ho : o ∈ os) (hl : o.loses = true) : t.peerClosed = true := by
  induction hr with
  | nil => cases ho
  | snoc hr hs ih =>
    rcases List.mem_append.mp ho with ho | ho
    · exact hs.stays_closed (ih ho)
    · rw [List.mem_singleton] at ho
      subst ho
      cases hs with
      | lose hclosed => exact hclosed
      | finishLost => rfl
      | _ => cases hl

theorem Party.traffic_up (w : Nat) (h : p.phase = .up) : p.traffic w = p.stream.traffic := if_pos h

theorem Party.traffic_of_ne (w : Nat) (h : p.phase ≠ .up) :
    p.traffic w = { p.stream.traffic with credits := w } := if_neg h

/-- A run of elementary changes keeps an established stream plain and honest. -/
theorem run_honest {s t : HordStream} {os : List Obs} (hr : Run Local s os t) (hi : Inv s)
    (h : s.Honest) (hp : s.Plain) : t.Honest ∧ t.Plain := by
  refine ⟨?_, fun wc hwc => hp wc ?_⟩
  · have hboth := hr.inv (I := fun u => Inv u ∧ u.Honest) (fun u o v hu hl =>
      ⟨⟨hl.wf hu.1.wf, hl.books hu.1.wf hu.1.books⟩, hl.honest hu.1 hu.2⟩) ⟨hi, h⟩
    exact hboth.2
  · rw [Hord.run_cq hr]
    exact List.mem_append_right _ hwc

/-- Every call keeps what is on its way honest and the queue plain. -/
theorem Party.Step.honest (hs : Party.Step p m p') (hm : m.isEnv = false) (hok : p.Ok)
    (hf : p'.phase ≠ .failed) (h : p.stream.Honest) (hp : p.stream.Plain) :
    p'.stream.Honest ∧ p'.stream.Plain := by
  unfold Party.Ok at hok
  cases hs with
  | env t he => cases hm
  | hello t hph hr =>
    rw [hph] at hok
    obtain ⟨fs, ht⟩ := wp_ok (beginHandshakeSend_wp p.config hok.hs_len) hr
    obtain ⟨h1, h2, -⟩ := hello_traffic _ _ _ ht
    refine ⟨⟨by rw [h2]; exact h.out, by rw [h1]; exact h.arrived⟩, fun wc hwc => hp wc ?_⟩
    rw [ht] at hwc
    exact hwc
  | wait t hph hr =>
    rw [hph] at hok
    have hlen : handshakeLen ≤ p.stream.handshake.length := by rw [hok.hs_len]; decide
    obtain ⟨⟨ls, hrun⟩, -⟩ := wp_ok (pollHandshake_wp hlen) hr
    obtain ⟨h1, h2, -, h4⟩ := run_hsStep_traffic hrun hp
    exact ⟨⟨by rw [h2]; exact h.out, by rw [h1]; exact h.arrived⟩, h4⟩
  | peer t peer hph hr =>
    rw [hph] at hok
    have hlen : handshakeLen ≤ p.stream.handshake.length := by rw [hok.hs_len]; decide
    obtain ⟨⟨ls, hrun⟩, -⟩ := wp_ok (pollHandshake_wp hlen) hr
    obtain ⟨h1, h2, -, h4⟩ := run_hsStep_traffic hrun hp
    exact ⟨⟨by rw [h2]; exact h.out, by rw [h1]; exact h.arrived⟩, h4⟩
  | apply t peer hph hr =>
    rw [hph] at hok
    obtain ⟨h1, h2, -, h4, -⟩ := applyPeer_traffic hok.1 hok.2 hr
    refine ⟨⟨by rw [h2]; exact h.out, by rw [h1]; exact h.arrived⟩, fun wc hwc => hp wc ?_⟩
    rw [← h4]
    exact hwc
  | broke t e hr => exact absurd rfl hf
  | act t a v hph hr =>
    rw [hph] at hok
    obtain ⟨os, hrun⟩ := Act.run_reaches hok.1 hr
    exact run_honest hrun hok.1 h hp
  | actErr t a e hph hr =>
    rw [hph] at hok
    obtain ⟨os, hrun⟩ := (Act.run_reaches_error hok.1 hr).1
    exact run_honest hrun hok.1 h hp

/-- A call that returns moves the link by what it reports. -/
theorem Party.Step.carries {w : Nat} (hs : Party.Step p m p') (hm : m.isEnv = false) (hok : p.Ok)
    (hf : p'.phase ≠ .failed) (h : p.stream.Honest) (hp : p.stream.Plain)
    (hpeer : ∀ peer, p.phase = .got peer → peer.maxRecvBuffers.toNat = w)
    (hres : ∀ a e, m ≠ .act a (.error e)) : Carries w p p' m.accepted m.read m.ids := by
  unfold Party.Ok at hok
  cases hs with
  | env t he => cases hm
  | hello t hph hr =>
    rw [hph] at hok
    obtain ⟨fs, ht⟩ := wp_ok (beginHandshakeSend_wp p.config hok.hs_len) hr
    obtain ⟨-, -, h3⟩ := hello_traffic _ _ _ ht
    refine Carries.of_eq ?_
    rw [Party.traffic_of_ne w (p := p) (by rw [hph]; nofun), Party.traffic_of_ne w Phase.noConfusion]
    simp only [h3]
  | wait t hph hr =>
    rw [hph] at hok
    have hlen : handshakeLen ≤ p.stream.handshake.length := by rw [hok.hs_len]; decide
    obtain ⟨⟨ls, hrun⟩, -⟩ := wp_ok (pollHandshake_wp hlen) hr
    obtain ⟨-, -, h3, -⟩ := run_hsStep_traffic hrun hp
    refine Carries.of_eq ?_
    rw [Party.traffic_of_ne w (p := p) (by rw [hph]; nofun),
      Party.traffic_of_ne w (p := { p with stream := t }) (by rw [hph]; nofun)]
    simp only [h3]
  | peer t peer hph hr =>
    rw [hph] at hok
    have hlen : handshakeLen ≤ p.stream.handshake.length := by rw [hok.hs_len]; decide
    obtain ⟨⟨ls, hrun⟩, -⟩ := wp_ok (pollHandshake_wp hlen) hr
    obtain ⟨-, -, h3, -⟩ := run_hsStep_traffic hrun hp
    refine Carries.of_eq ?_
    rw [Party.traffic_of_ne w (p := p) (by rw [hph]; nofun), Party.traffic_of_ne w Phase.noConfusion]
    simp only [h3]
  | apply t peer hph hr =>
    rw [hph] at hok
    obtain ⟨-, -, h3, -⟩ := applyPeer_traffic hok.1 hok.2 hr
    refine Carries.of_eq ?_
    rw [Party.traffic_of_ne w (p := p) (by rw [hph]; nofun), Party.traffic_up w rfl, ← hpeer peer hph]
    exact h3
  | broke t e hr => exact absurd rfl hf
  | act t a v hph hr =>
    rw [hph] at hok
    obtain ⟨os, hrun, hacc, hcop, hids, hloss⟩ := wp_ok (a.run_path hok.1.wf) hr
    have hmoves := (run_traffic hrun hloss.loses hok.1 h).1
    refine ⟨os.map Obs.label, ?_, ?_, ?_, ?_⟩
    · rw [Party.traffic_up w hph, Party.traffic_up w (p := { p with stream := t }) hph]
      exact hmoves
    · rw [label_accepted]
      exact hacc
    · rw [label_reads]
      exact hcop
    · rw [label_taken]
      exact hids
  | actErr t a e hph hr => exact absurd rfl (hres a e)

/-- A call that fails moves the link, or leaves the stream closed. -/
theorem Party.Step.carries_error {w : Nat} {a : Act} {e : Fail}
    (hs : Party.Step p (.act a (.error e)) p') (hok : p.Ok) (h : p.stream.Honest) :
    p'.stream.peerClosed = true ∨ ∃ acc rd ids, Carries w p p' acc rd ids := by
  unfold Party.Ok at hok
  cases hs with
  | actErr t _ _ hph hr =>
    rw [hph] at hok
    obtain ⟨os, hrun⟩ := (Act.run_reaches_error hok.1 hr).1
    by_cases hloss : ∀ o ∈ os, o.loses = false
    · have hmoves := (run_traffic hrun hloss hok.1 h).1
      refine .inr ⟨_, _, _, os.map Obs.label, ?_, rfl, rfl, rfl⟩
      rw [Party.traffic_up w hph, Party.traffic_up w (p := { p with stream := t }) hph]
      exact hmoves
    · -- only a closed stream loses anything
      refine .inl ?_
      simp only [Classical.not_forall, Bool.not_eq_false] at hloss
      obtain ⟨o, ho, hl⟩ := hloss
      exact run_lossy_closed hrun ho hl

end Calls

section Transport
variable {p q : Party}

/-- A posted receive slot is spare before the stream is established, too. -/
theorem Pre.spare {config : HordConfig} {sent : Bool} {s : HordStream} (h : Pre config sent s)
    {slot : Nat} (hslot : slot < s.geo.splitBase) (hmem : s.geo.slotWr slot ∈ s.conn.rq) :
    Spare s slot := by
  have hlt := s.geo.slot_lt hslot
  obtain ⟨-, -, hready, -⟩ := idle_fields h.idle
  have hposted : 0 < s.conn.posted slot := List.countP_pos_iff.mpr ⟨_, hmem, beq_self_eq_true _⟩
  have hone := h.slots slot hlt
  rw [if_pos hslot] at hone
  unfold HordStream.uses at hone
  refine ⟨hlt, ?_, fun wc hwc hs hw he => ?_, fun m hm => ?_⟩
  · have hplace : s.geo.place slot = (.recv, slot * s.geo.msgSize) := if_pos hslot
    rw [hplace]
    show slot * s.geo.msgSize + s.geo.msgSize ≤ s.recv.length
    rw [h.recv_len, ← Nat.succ_mul]
    exact Nat.mul_le_mul_right _ hslot
  · rcases h.cq wc hwc with hid | hid | ⟨v, hv, hid, -⟩
    · rw [hid, hsWrId_kind.1] at hw
      cases hw
    · rw [hid, hsWrId_kind.2] at hw
      cases hw
    · rw [hid, slotOf_recvWrId (s.geo.slot_lt hv)] at he
      subst he
      have : 0 < s.conn.completed v :=
        List.countP_pos_iff.mpr ⟨wc, hwc, by rw [hid]; exact beq_self_eq_true _⟩
      omega
  · rw [hready] at hm
    cases hm

theorem Party.Fine.spare (h : q.Fine) {slot : Nat} (hmem : q.stream.geo.slotWr slot ∈ q.stream.conn.rq)
    (hslot : slot < q.stream.slotCount) : Spare q.stream slot := by
  by_cases hup : q.phase = .up
  · exact (h.ok.inv hup).spare hslot hmem
  · obtain ⟨sent, hpre⟩ := h.ok.pre hup h.alive
    rcases hpre.rq _ hmem with he | ⟨v, hv, he⟩
    · exact absurd he (slotWr_ne _ _)
    · have : slot = v := congrArg RecvWr.wrId he
      exact hpre.spare (this ▸ hv) hmem

/-- A change of the queues is the same change on the link, established or not. -/
theorem Party.traffic_inbox {w : Nat} {t : HordStream} {ps : List (Packet UInt8)}
    (h : t.traffic = { p.stream.traffic with inbox := ps }) :
    Party.traffic w { p with stream := t } = { p.traffic w with inbox := ps } := by
  unfold Party.traffic
  simp only [h]
  split <;> rfl

theorem Party.traffic_outbox {w : Nat} {t : HordStream} {ps : List (Packet UInt8)}
    (h : t.traffic = { p.stream.traffic with outbox := ps }) :
    Party.traffic w { p with stream := t } = { p.traffic w with outbox := ps } := by
  unfold Party.traffic
  simp only [h]
  split <;> rfl

theorem Party.traffic_same {w : Nat} {t : HordStream} (h : t.traffic = p.stream.traffic) :
    Party.traffic w { p with stream := t } = p.traffic w := by
  unfold Party.traffic
  simp only [h]

theorem Party.traffic_boxes (w : Nat) (p : Party) :
    (p.traffic w).inbox = p.stream.inParcels.map Parcel.packet ∧
      (p.traffic w).outbox = p.stream.outParcels.map Parcel.packet := by
  unfold Party.traffic
  split <;> exact ⟨rfl, rfl⟩

/-- A request that is not the handshake's is on the link as what it lands as. -/
theorem lands_parcel (hp : p.Fine) {w : SendWr} {r : RecvWr} {bytes : Bytes} {wc : Completion}
    (hw : w ∈ p.stream.conn.out) (hne : w ≠ hsSendWr) (hl : p.stream.lands r w = some (bytes, wc)) :
    ∃ parcel, p.stream.outParcel w = some parcel ∧
      (wc.opcode = .recv ∧ wc.byteLen = bytes.length ∧ parcel = .message bytes ∨
        wc.opcode = .recvRdmaWithImm ∧ parcel = .immediate wc.immData) := by
  have hup : p.phase = .up := by
    by_contra hup
    obtain ⟨sent, hpre⟩ := hp.ok.pre hup hp.alive
    exact hne (hpre.sq w (List.mem_append_left _ hw))
  have hwf := (hp.ok.inv hup).wf
  have henv := p.stream.geo.envelope_lt
  have hcap := hwf.cap_fits
  -- the message lies inside its send slot
  have inside : ∀ slot ≤ p.stream.geo.sendPool, ∀ len ≤ p.stream.geo.msgSize,
      (readAt p.stream.send (slot * p.stream.geo.msgSize) len).length = len := by
    intro slot hslot len hlen
    have := hwf.sendSlot_in hslot
    exact length_readAt (by omega)
  cases hwf.sq w (List.mem_append_left _ hw) with
  | data slot len hslot hlo hhi =>
    injection hl with hl
    injection hl with hb hwc
    subst hb hwc
    exact ⟨_, rfl, .inl ⟨rfl, (inside slot hslot.le len (by omega)).symm, rfl⟩⟩
  | ctrl =>
    injection hl with hl
    injection hl with hb hwc
    subst hb hwc
    exact ⟨_, rfl, .inl ⟨rfl, (inside _ p.stream.geo.ctrlSlot_eq.le _ henv.le).symm, rfl⟩⟩
  | write chunk sges addr rkey imm hchunk =>
    cases imm with
    | none => cases hl
    | some id =>
      injection hl with hl
      injection hl with hb hwc
      subst hb hwc
      exact ⟨_, rfl, .inr ⟨rfl, rfl⟩⟩

/-- A delivery, seen on the link: the handshake passes unnoticed, everything else
    takes one packet across. Both ends stay fine. -/
theorem deliver_fine (hp : p.Fine) (hq : q.Fine) (hhs : HsState p q) {w : SendWr} {rest : List SendWr}
    {r : RecvWr} {rs : List RecvWr} {bytes : Bytes} {wc : Completion}
    (hout : p.stream.conn.out = w :: rest) (hrq : q.stream.conn.rq = r :: rs)
    (hl : p.stream.lands r w = some (bytes, wc)) (hfit : bytes.length ≤ r.length) :
    (p.carried w rest).Fine ∧ (q.landed r rs bytes wc).Fine ∧
      ∃ ps : List Parcel, p.stream.outParcels = ps ++ (p.carried w rest).stream.outParcels ∧
        (q.landed r rs bytes wc).stream.traffic =
          { q.stream.traffic with inbox := q.stream.traffic.inbox ++ ps.map Parcel.packet } := by
  have hmem : w ∈ p.stream.conn.out := by rw [hout]; exact List.mem_cons_self ..
  have hrmem : r ∈ q.stream.conn.rq := by rw [hrq]; exact List.mem_cons_self ..
  have hsplit := outParcels_cons hout
  have hokp := (p.carried_step hout).ok hp.ok
  have hokq := (q.landed_step hrq hl hfit).ok hq.ok
  have hpcar : (p.carried w rest).Fine := by
    refine ⟨hokp, hp.alive, ⟨fun v hv => hp.honest.out v ?_, hp.honest.arrived⟩, hp.plain⟩
    rw [hsplit]
    exact List.mem_append_right _ hv
  obtain ⟨hid, hok, -⟩ := lands_eq hl
  rcases hq.ok.rq hq.alive hrmem with rfl | ⟨slot, hslot, hlt, rfl⟩
  · -- the handshake
    have hw : w = hsSendWr := by
      cases hhs with
      | unsent ws _ hnil _ => rw [hnil] at hout; cases hout
      | posted ws _ hone _ _ => rw [hone] at hout; injection hout with hw; exact hw.symm
      | delivered _ _ hno _ => exact absurd hrmem hno
    subst hw
    have hop : wc.opcode = .recv := by
      injection hl with hl
      injection hl with _ hwc
      rw [← hwc]
    obtain ⟨h1, h2, h3⟩ := landed_handshake q.stream rs bytes hid hop rfl
    refine ⟨hpcar, ⟨hokq, hq.alive, ⟨?_, ?_⟩, ?_⟩, [], ?_, ?_⟩
    · show ∀ v ∈ (HordStream.landed _ _ _ _ _).outParcels, _
      rw [h2]
      exact hq.honest.out
    · show ∀ v ∈ (HordStream.landed _ _ _ _ _).inParcels, _
      rw [h1]
      exact hq.honest.arrived
    · intro v hv hvw hvok
      have hv' : v ∈ q.stream.conn.cq ++ [wc] := hv
      rcases List.mem_append.mp hv' with hv' | hv'
      · exact hq.plain v hv' hvw hvok
      · rw [List.mem_singleton] at hv'
        rw [hv', hop]
        nofun
    · exact hsplit
    · rw [List.map_nil, List.append_nil]
      exact h3
  · -- everything else
    have hw : w ≠ hsSendWr := by
      cases hhs with
      | unsent ws _ hnil _ => rw [hnil] at hout; cases hout
      | posted ws _ _ _ hq' =>
        rw [hq'] at hrq
        injection hrq with hr
        exact absurd hr.symm (slotWr_ne _ _)
      | delivered _ hno _ _ =>
        rintro rfl
        exact hno hmem
    obtain ⟨parcel, hparcel, hwc⟩ := lands_parcel hp hmem hw hl
    have hfit' : bytes.length ≤ q.stream.geo.msgSize := Nat.le_trans hfit (slotWr_length_le _ _)
    obtain ⟨h1, h2, h3⟩ := landed_traffic (hq.spare hrmem hslot) rs hfit' hid hok hwc rfl
    have hhonest : parcel.Honest := hp.honest.out parcel (by
      rw [hsplit, hparcel]
      exact List.mem_append_left _ (List.mem_singleton_self _))
    refine ⟨hpcar, ⟨hokq, hq.alive, ⟨?_, ?_⟩, ?_⟩, [parcel], ?_, h3⟩
    · show ∀ v ∈ (HordStream.landed _ _ _ _ _).outParcels, _
      rw [h2]
      exact hq.honest.out
    · show ∀ v ∈ (HordStream.landed _ _ _ _ _).inParcels, _
      rw [h1]
      intro v hv
      rcases List.mem_append.mp hv with hv | hv
      · exact hq.honest.arrived v hv
      · rw [List.mem_singleton] at hv
        rw [hv]
        exact hhonest
    · intro v hv hvw hvok
      have hv' : v ∈ q.stream.conn.cq ++ [wc] := hv
      rcases List.mem_append.mp hv' with hv' | hv'
      · exact hq.plain v hv' hvw hvok
      · rw [List.mem_singleton] at hv'
        rw [hv', hid, show (q.stream.geo.slotWr slot).wrId = recvWrId slot from rfl,
          (recvWrId_kind hlt).2] at hvw
        cases hvw
    · rw [hsplit, hparcel]
      rfl

end Transport

section Device
variable {p q : Party} {t : HordStream}

/-- The sender's queues change around its handshake. -/
theorem HsState.sender_env (h : HsState p q) (hout : t.conn.out = p.stream.conn.out)
    (hmem : t.handshake = p.stream.handshake) : HsState { p with stream := t } q := by
  cases h with
  | unsent rs hp ho hrq => exact .unsent rs hp (hout.trans ho) hrq
  | posted rs hp ho hm hrq => exact .posted rs hp (hout.trans ho) (by simp only [hmem]; exact hm) hrq
  | delivered hp ho hrq hgot => exact .delivered hp (by simp only [hout]; exact ho) hrq hgot

/-- The receiver's queues change around the handshake. -/
theorem HsState.receiver_env (h : HsState p q)
    (hrq : t.conn.rq = q.stream.conn.rq ∨
      hsRecvWr ∉ q.stream.conn.rq ∧ t.conn.rq.Sublist q.stream.conn.rq)
    (hmem : t.handshake = q.stream.handshake)
    (hcq : ∀ wc ∈ t.conn.cq, wc ∈ q.stream.conn.cq ∨ wc.wrId ≠ hsRecvWrId)
    (hgot : t.hsGotRecv = q.stream.hsGotRecv ∧ t.hsRecvLen = q.stream.hsRecvLen) :
    HsState p { q with stream := t } := by
  have same : ∀ {rs : List RecvWr}, q.stream.conn.rq = hsRecvWr :: rs →
      t.conn.rq = hsRecvWr :: rs := by
    intro rs hq
    rcases hrq with h | ⟨h, -⟩
    · exact h.trans hq
    · exact absurd (by rw [hq]; exact List.mem_cons_self ..) h
  cases h with
  | unsent rs hp ho hq => exact .unsent rs hp ho (same hq)
  | posted rs hp ho hm hq => exact .posted rs hp ho hm (same hq)
  | delivered hp ho hq hg =>
    refine .delivered hp ho (fun hin => hq ?_) ?_
    · rcases hrq with h | ⟨-, h⟩
      · exact h ▸ hin
      · exact h.subset hin
    · have keep : (∀ wc ∈ q.stream.conn.cq, wc.wrId = hsRecvWrId → wc.byteLen = handshakeLen) →
          ∀ wc ∈ t.conn.cq, wc.wrId = hsRecvWrId → wc.byteLen = handshakeLen := by
        intro hold wc hwc hid
        rcases hcq wc hwc with hin | hne
        · exact hold wc hin hid
        · exact absurd hid hne
      unfold HsGot at hg ⊢
      revert hg
      simp only [hmem, hgot.1, hgot.2]
      cases q.phase with
      | up => exact id
      | failed => exact id
      | got peer => exact id
      | fresh => exact fun hg => ⟨hg.1, keep hg.2.1, hg.2.2⟩
      | exchanging => exact fun hg => ⟨hg.1, keep hg.2.1, hg.2.2⟩

/-- A request that is not the handshake's leaves the queue. -/
theorem HsState.carried_sender (h : HsState p q) {w : SendWr} {rest : List SendWr}
    (hout : p.stream.conn.out = w :: rest) (hne : w ≠ hsSendWr) : HsState (p.carried w rest) q := by
  cases h with
  | unsent rs hp ho hrq => rw [ho] at hout; cases hout
  | posted rs hp ho hm hrq =>
    rw [ho] at hout
    injection hout with hw
    exact absurd hw.symm hne
  | delivered hp ho hrq hgot =>
    refine .delivered hp (fun hin => ho ?_) hrq hgot
    rw [hout]
    exact List.mem_cons_of_mem _ hin

/-- Requests of a fine endpoint are its handshake, sends and writes. -/
theorem Party.Fine.sq_id (h : p.Fine) {w : SendWr} (hw : w ∈ p.stream.conn.out ++ p.stream.conn.await) :
    (isSend w.wrId || isWrite w.wrId) = true ∧ w.wrId ≠ hsRecvWrId := by
  by_cases hup : p.phase = .up
  · have hwf := (h.ok.inv hup).wf
    obtain ⟨k, hk, hno⟩ := (hwf.sq w hw).kind
    have hf := hk.facts
    have hsq := hwf.sq w hw
    constructor
    · rw [hf.send, hf.write]
      cases k with
      | recv slot =>
        have := hno slot
        simp at this
      | _ => rfl
    · -- the flags of an id the stream posts differ from those of the handshake's
      intro he
      cases hsq with
      | data slot len hslot =>
        have hkind := sendWrId_kind (p.stream.geo.sendSlot_lt hslot.le)
        rw [show sendWrId slot = hsRecvWrId from he] at hkind
        exact absurd hkind.2.2 (by decide)
      | ctrl =>
        have hkind := ctrlSendWrId_kind (p.stream.geo.sendSlot_lt p.stream.geo.ctrlSlot_eq.le)
        rw [show ctrlSendWrId p.stream.geo.ctrlSlot = hsRecvWrId from he] at hkind
        exact absurd hkind.2.2 (by decide)
      | write chunk sges addr rkey imm hchunk =>
        have hlt := p.stream.geo.sendSlot_lt hchunk.le
        cases imm with
        | none =>
          have hkind := writeWrId_kind hlt
          rw [show writeWrId chunk = hsRecvWrId from he] at hkind
          exact absurd hkind.1 (by decide)
        | some id =>
          have hkind := immWriteWrId_kind hlt
          rw [show immWriteWrId chunk = hsRecvWrId from he] at hkind
          exact absurd hkind.1 (by decide)
  · obtain ⟨sent, hpre⟩ := h.ok.pre hup h.alive
    rw [hpre.sq w hw]
    decide

/-- A completion of the send queue reports no arrival. -/
theorem Party.Fine.sq_completion (h : p.Fine) {w : SendWr}
    (hw : w ∈ p.stream.conn.out ++ p.stream.conn.await) {wc : Completion} (hid : wc.wrId = w.wrId)
    (hop : wc.isSuccess = true → wc.opcode = w.opcode) :
    p.stream.inParcel wc = none ∧ wc.wrId ≠ hsRecvWrId ∧
      (wc.isSuccess = true → wc.opcode ≠ .recvRdmaWithImm) := by
  obtain ⟨hkind, hne⟩ := h.sq_id hw
  have hop' : wc.isSuccess = true → wc.opcode ≠ .recvRdmaWithImm := by
    intro hok
    rw [hop hok]
    cases w <;> nofun
  refine ⟨?_, by rw [hid]; exact hne, hop'⟩
  unfold HordStream.inParcel
  split
  · rfl
  · next hok =>
    rw [if_neg (hop' (by simpa using hok)), hid, if_pos hkind]

theorem plain_append {s : HordStream} (h : s.Plain) {wc : Completion}
    (hwc : wc.isSuccess = true → wc.opcode ≠ .recvRdmaWithImm)
    (hcq : t.conn.cq = s.conn.cq ++ [wc]) : t.Plain := by
  intro v hv hvw hvok
  rw [hcq] at hv
  rcases List.mem_append.mp hv with hv | hv
  · exact h v hv hvw hvok
  · rw [List.mem_singleton] at hv
    subst hv
    exact hwc hvok

end Device

end Hord
