import Hord.Integrity

/- Data that overtakes the handshake. The end that finishes first may send at once, so
   the other's queue can hold its messages while the exchange is still going on. They
   are in the way of nothing as long as our own handshake's completion is ahead of them:
   then the exchange never fails, both ends decode exactly what the other sent, and the
   early messages are read like any other (`early_data_survives`). A message that is
   ahead of that completion ends the exchange (`early_data_fails`). -/
namespace Hord

open Region Prog Transition CreditLink

/-- A completion of `id` is ahead of every completion of a receive slot. -/
def precedes (id : Nat) : List Completion → Bool
  | [] => true
  | wc :: rest => wc.wrId == id || (isWrite wc.wrId && precedes id rest)

theorem precedes_append {id : Nat} {cq : List Completion} (wc : Completion) (h : precedes id cq = true)
    (hwc : isWrite wc.wrId = true ∨ ∃ v ∈ cq, v.wrId = id) : precedes id (cq ++ [wc]) = true := by
  induction cq with
  | nil =>
    rcases hwc with hw | ⟨v, hv, -⟩
    · simp [precedes, hw]
    · cases hv
  | cons v rest ih =>
    simp only [List.cons_append, precedes, Bool.or_eq_true, beq_iff_eq, Bool.and_eq_true] at h ⊢
    rcases h with h | ⟨hv, h⟩
    · exact .inl h
    · by_cases he : v.wrId = id
      · exact .inl he
      · refine .inr ⟨hv, ih h ?_⟩
        rcases hwc with hw | ⟨u, hu, hid⟩
        · exact .inl hw
        · rcases List.mem_cons.mp hu with rfl | hu
          · exact absurd hid he
          · exact .inr ⟨u, hu, hid⟩

/-- Taking the oldest completion off, other than that of `id`. -/
theorem precedes_tail {id : Nat} {wc : Completion} {rest : List Completion}
    (h : precedes id (wc :: rest) = true) (hne : wc.wrId ≠ id) : precedes id rest = true := by
  simp only [precedes, Bool.or_eq_true, beq_iff_eq, Bool.and_eq_true] at h
  rcases h with h | h
  · exact absurd h hne
  · exact h.2

/-! The exchange on a queue in order. -/

/-- The device will not refuse, no completion failed, and nothing is ahead of the
    handshake's two completions. -/
structure HsClear (s : HordStream) : Prop where
  willing : ∀ f ∈ s.conn.faults, f = false
  success : ∀ wc ∈ s.conn.cq, wc.isSuccess = true
  ids : ∀ wc ∈ s.conn.cq, isWrite wc.wrId = true → wc.wrId = hsRecvWrId ∨ wc.wrId = hsSendWrId
  send : s.hsGotSend = true ∨ precedes hsSendWrId s.conn.cq = true
  recv : s.hsGotRecv = true ∨ precedes hsRecvWrId s.conn.cq = true

/-- A call of a device that will not refuse. -/
theorem deviceCall_willing {c : Connection} {Q : Except Fail Unit → Connection → Prop}
    (hw : ∀ f ∈ c.faults, f = false)
    (hok : ∀ fs, (∀ f ∈ fs, f = false) → Q (.ok ()) { c with faults := fs }) :
    wp Connection.deviceCall c Q := by
  unfold wp Connection.deviceCall
  cases hf : c.faults with
  | nil =>
    have := hok [] nofun
    rwa [← hf] at this
  | cons f fs =>
    rw [hf] at hw
    have hfalse := hw f (List.mem_cons_self ..)
    subst hfalse
    exact hok fs fun g hg => hw g (List.mem_cons_of_mem _ hg)

/-- A poll of such a device. -/
theorem poll_willing {c : Connection} {Q : Except Fail (Option Completion) → Connection → Prop}
    (hw : ∀ f ∈ c.faults, f = false)
    (hempty : ∀ fs, (∀ f ∈ fs, f = false) → c.cq = [] → Q (.ok none) { c with faults := fs })
    (hsome : ∀ fs wc rest, (∀ f ∈ fs, f = false) → c.cq = wc :: rest →
      Q (.ok (some wc)) { c with faults := fs, cq := rest }) :
    wp Connection.poll c Q := by
  simp only [Connection.poll, wp_bind, wp_get]
  refine deviceCall_willing hw fun fs hfs => ?_
  cases hcq : c.cq with
  | nil =>
    have := hempty fs hfs hcq
    simpa [hcq] using this
  | cons wc rest =>
    simp only [wp_bind, wp_set, wp_pure]
    exact hsome fs wc rest hfs hcq

/-- On such a queue the loop returns. -/
theorem handshakeLoop_clear (fuel : Nat) {s : HordStream} (hfuel : s.conn.cq.length < fuel)
    (h : HsClear s) : wp (handshakeLoop fuel) s fun r _ => ∃ b, r = .ok b := by
  induction fuel generalizing s with
  | zero => omega
  | succ fuel ih =>
    simp only [handshakeLoop, wp_bind, wp_get, wp_ite, dev_wp]
    split
    · exact ⟨true, rfl⟩
    · next hnot =>
      refine poll_willing h.willing (fun fs _ _ => ⟨false, rfl⟩) (fun fs wc rest hfs hcq => ?_)
      have hlen : rest.length < fuel := by
        rw [hcq] at hfuel
        simpa using hfuel
      have hmem : wc ∈ s.conn.cq := by rw [hcq]; exact List.mem_cons_self ..
      have hsub : ∀ v ∈ rest, v ∈ s.conn.cq := fun v hv => by
        rw [hcq]
        exact List.mem_cons_of_mem _ hv
      have hok := h.success wc hmem
      simp only [wp_ite, hok, Bool.not_true, Bool.false_eq_true, if_false]
      have hsend := h.send
      have hrecv := h.recv
      rw [hcq] at hsend hrecv
      split
      · next hid =>
        simp only [wp_bind, wp_modify]
        refine ih hlen ⟨hfs, fun v hv => h.success v (hsub v hv), fun v hv => h.ids v (hsub v hv), ?_,
          .inl rfl⟩
        rcases hsend with hg | hp
        · exact .inl hg
        · exact .inr (precedes_tail hp (by rw [hid]; decide))
      · next hnr =>
        split
        · next hid =>
          simp only [wp_bind, wp_modify]
          refine ih hlen ⟨hfs, fun v hv => h.success v (hsub v hv), fun v hv => h.ids v (hsub v hv),
            .inl rfl, ?_⟩
          rcases hrecv with hg | hp
          · exact .inl hg
          · exact .inr (precedes_tail hp hnr)
        · next hns =>
          -- a message this far ahead would find both completions already taken
          have hdata : isWrite wc.wrId = false := by
            by_contra hw
            rcases h.ids wc hmem (by simpa using hw) with hid | hid
            · exact hnr hid
            · exact hns hid
          exfalso
          refine hnot ?_
          have hs : s.hsGotSend = true := by
            rcases hsend with hg | hp
            · exact hg
            · simp [precedes, hns, hdata] at hp
          have hr : s.hsGotRecv = true := by
            rcases hrecv with hg | hp
            · exact hg
            · simp [precedes, hnr, hdata] at hp
          rw [hs, hr]
          rfl

/-! What an honest peer's messages can be ahead of. -/

/-- No completion failed, and during the exchange the peer's handshake is ahead of its
    messages. -/
structure Party.Orderly (q : Party) : Prop where
  success : ∀ wc ∈ q.stream.conn.cq, wc.isSuccess = true
  recv : q.phase = .fresh ∨ q.phase = .exchanging →
    q.stream.hsGotRecv = true ∨ precedes hsRecvWrId q.stream.conn.cq = true

section Orderly
variable {p q q' : Party} {m : Hord.Move}

theorem run_hsStep_orderly {s t : HordStream} {ls : List (Option Completion)} (h : Run HsStep s ls t)
    (hr : s.hsGotRecv = true ∨ precedes hsRecvWrId s.conn.cq = true) :
    (t.hsGotRecv = true ∨ precedes hsRecvWrId t.conn.cq = true) ∧ ∀ wc ∈ t.conn.cq, wc ∈ s.conn.cq := by
  refine h.inv (I := fun u => (u.hsGotRecv = true ∨ precedes hsRecvWrId u.conn.cq = true) ∧
    ∀ wc ∈ u.conn.cq, wc ∈ s.conn.cq) (fun u l v hi hs => ?_) ⟨hr, fun _ h => h⟩
  cases hs with
  | tick fs => exact hi
  | recv wc rest hcq hid hok =>
    exact ⟨.inl rfl, fun v hv => hi.2 v (by rw [hcq]; exact List.mem_cons_of_mem _ hv)⟩
  | send wc rest hcq hid hok =>
    refine ⟨?_, fun v hv => hi.2 v (by rw [hcq]; exact List.mem_cons_of_mem _ hv)⟩
    rcases hi.1 with hg | hp
    · exact .inl hg
    · rw [hcq] at hp
      exact .inr (precedes_tail hp (by rw [hid]; decide))

/-- A call keeps the queue in order. -/
theorem Party.Step.orderly (h : Party.Step q m q') (hm : m.isEnv = false) (hok : q.Ok)
    (hf : q'.phase ≠ .failed) (ho : q.Orderly) : q'.Orderly := by
  unfold Party.Ok at hok
  cases h with
  | env t he => cases hm
  | hello t hph hr =>
    rw [hph] at hok
    obtain ⟨fs, rfl⟩ := wp_ok (beginHandshakeSend_wp q.config hok.hs_len) hr
    exact ⟨ho.success, fun _ => ho.recv (.inl hph)⟩
  | wait t hph hr =>
    rw [hph] at hok
    have hlen : handshakeLen ≤ q.stream.handshake.length := by rw [hok.hs_len]; decide
    obtain ⟨⟨ls, hrun⟩, -⟩ := wp_ok (pollHandshake_wp hlen) hr
    obtain ⟨h1, h2⟩ := run_hsStep_orderly hrun (ho.recv (.inr hph))
    exact ⟨fun wc hwc => ho.success wc (h2 wc hwc), fun _ => h1⟩
  | peer t peer hph hr =>
    rw [hph] at hok
    have hlen : handshakeLen ≤ q.stream.handshake.length := by rw [hok.hs_len]; decide
    obtain ⟨⟨ls, hrun⟩, -⟩ := wp_ok (pollHandshake_wp hlen) hr
    obtain ⟨-, h2⟩ := run_hsStep_orderly hrun (ho.recv (.inr hph))
    exact ⟨fun wc hwc => ho.success wc (h2 wc hwc), nofun⟩
  | apply t peer hph hr =>
    rw [hph] at hok
    have hcq := (applyPeer_traffic hok.1 hok.2 hr).2.2.2.1
    exact ⟨fun wc hwc => ho.success wc (hcq ▸ hwc), nofun⟩
  | broke t e hr => exact absurd rfl hf
  | act t a v hph hr =>
    rw [hph] at hok
    obtain ⟨os, hrun⟩ := Act.run_reaches hok.1 hr
    refine ⟨fun wc hwc => ho.success wc ?_, fun h => ?_⟩
    · rw [Hord.run_cq hrun]
      exact List.mem_append_right _ hwc
    · simp only [hph] at h
      rcases h with h | h
      · cases h
      · cases h
  | actErr t a e hph hr =>
    rw [hph] at hok
    obtain ⟨os, hrun⟩ := (Act.run_reaches_error hok.1 hr).1
    refine ⟨fun wc hwc => ho.success wc ?_, fun h => ?_⟩
    · rw [Hord.run_cq hrun]
      exact List.mem_append_right _ hwc
    · simp only [hph] at h
      rcases h with h | h
      · cases h
      · cases h

/-- A completion is queued behind the peer's handshake, or is one of the exchange's. -/
theorem Party.Orderly.queued (ho : q.Orderly) {wc : Completion} (hok : wc.isSuccess = true)
    (hwc : q.phase = .fresh ∨ q.phase = .exchanging → isWrite wc.wrId = true ∨
      q.stream.hsGotRecv = true ∨ ∃ v ∈ q.stream.conn.cq, v.wrId = hsRecvWrId)
    {t : HordStream} (hcq : t.conn.cq = q.stream.conn.cq ++ [wc])
    (hgot : t.hsGotRecv = q.stream.hsGotRecv) : Party.Orderly { q with stream := t } := by
  refine ⟨fun v hv => ?_, fun hph => ?_⟩
  · rw [show ({ q with stream := t } : Party).stream.conn.cq = q.stream.conn.cq ++ [wc] from hcq] at hv
    rcases List.mem_append.mp hv with hv | hv
    · exact ho.success v hv
    · rw [List.mem_singleton] at hv
      exact hv ▸ hok
  · show t.hsGotRecv = true ∨ precedes hsRecvWrId t.conn.cq = true
    rw [hcq, hgot]
    rcases ho.recv hph with hg | hp
    · exact .inl hg
    · rcases hwc hph with hw | hg | hin
      · exact .inr (precedes_append wc hp (.inl hw))
      · exact .inl hg
      · exact .inr (precedes_append wc hp (.inr hin))

/-- Once the handshake's receive is gone, its completion is queued or taken. -/
theorem Pre.arrived {config : HordConfig} {sent : Bool} {s : HordStream} (h : Pre config sent s)
    (hrq : hsRecvWr ∉ s.conn.rq) : s.hsGotRecv = true ∨ ∃ v ∈ s.conn.cq, v.wrId = hsRecvWrId := by
  have hcount := h.hsRecv
  have hzero : s.conn.rq.countP (fun w => w.wrId == hsRecvWrId) = 0 := by
    refine List.countP_eq_zero.mpr fun w hw he => ?_
    rcases h.rq w hw with rfl | ⟨slot, hslot, rfl⟩
    · exact hrq hw
    · rw [(slotWr_wrId_ne s.geo hslot).1] at he
      cases he
  cases hg : s.hsGotRecv with
  | true => exact .inl rfl
  | false =>
    rw [hg, hzero, Bool.toNat_false] at hcount
    have hpos : 0 < s.conn.cq.countP fun wc => wc.wrId == hsRecvWrId := by omega
    obtain ⟨v, hv, hid⟩ := List.countP_pos_iff.mp hpos
    exact .inr ⟨v, hv, by simpa using hid⟩

/-- A delivery keeps the receiver's queue in order. -/
theorem Party.Orderly.deliver (ho : q.Orderly) (hq : q.Fine) (hhs : HsState p q) {w : SendWr}
    {rest : List SendWr} {r : RecvWr} {rs : List RecvWr} {bytes : Bytes} {wc : Completion}
    (hout : p.stream.conn.out = w :: rest) (hrq : q.stream.conn.rq = r :: rs)
    (hl : p.stream.lands r w = some (bytes, wc)) : (q.landed r rs bytes wc).Orderly := by
  obtain ⟨hid, hok, -⟩ := lands_eq hl
  have hmem : r ∈ q.stream.conn.rq := by rw [hrq]; exact List.mem_cons_self ..
  refine ho.queued hok (fun hph => ?_) rfl ?_
  · have hup : q.phase ≠ .up := by
      rcases hph with hph | hph
      · rw [hph]; nofun
      · rw [hph]; nofun
    obtain ⟨sent, hpre⟩ := hq.ok.pre hup hq.alive
    rcases hpre.rq r hmem with rfl | ⟨slot, hslot, rfl⟩
    · exact .inl (by rw [hid]; exact hsWrId_kind.1)
    · -- a message only lands after the handshake did
      right
      refine hpre.arrived ?_
      cases hhs with
      | unsent ws _ hnil _ => rw [hnil] at hout; cases hout
      | posted ws _ _ _ hq' =>
        rw [hq'] at hrq
        injection hrq with hr
        exact absurd hr.symm (slotWr_ne _ _)
      | delivered _ _ hno _ => exact hno
  · obtain ⟨_, _, _, _, heq, -⟩ := landed_eq (s := q.stream) r rs bytes wc
    show (q.stream.landed r rs bytes wc).hsGotRecv = _
    rw [heq]

end Orderly

/-! The exchange of an end whose own completion is in order. -/

/-- The device refuses no poll, and our handshake's completion was seen or is ahead of
    every message. -/
def Party.hsInOrder (p : Party) : Bool :=
  p.stream.conn.faults.all (fun f => !f) &&
    (p.stream.hsGotSend || precedes hsSendWrId p.stream.conn.cq)

/-- Both completions of the exchange have reached the queue. -/
def HordStream.hsArrived (s : HordStream) : Prop :=
  (s.hsGotRecv = true ∨ ∃ wc ∈ s.conn.cq, wc.wrId = hsRecvWrId) ∧
    (s.hsGotSend = true ∨ ∃ wc ∈ s.conn.cq, wc.wrId = hsSendWrId)

section Polling
variable {p q : Party}

theorem hsClear_of_inOrder (hq : q.Fine) (ho : q.Orderly) (hph : q.phase = .exchanging)
    (hin : q.hsInOrder = true) : HsClear q.stream := by
  simp only [Party.hsInOrder, Bool.and_eq_true, List.all_eq_true, Bool.not_eq_true',
    Bool.or_eq_true] at hin
  obtain ⟨sent, hpre⟩ := hq.ok.pre (by rw [hph]; nofun) hq.alive
  refine ⟨hin.1, ho.success, fun wc hwc hw => ?_, hin.2, ho.recv (.inr hph)⟩
  rcases hpre.cq wc hwc with hid | hid | ⟨slot, hslot, hid, -⟩
  · exact .inl hid
  · exact .inr hid
  · rw [hid, (recvWrId_kind (q.stream.geo.slot_lt hslot)).2] at hw
    cases hw

/-- Arrived completions stay, or have been taken. -/
theorem run_hsStep_arrived {s t : HordStream} {ls : List (Option Completion)} (h : Run HsStep s ls t)
    (ha : s.hsArrived) : t.hsArrived := by
  refine h.inv (I := HordStream.hsArrived) (fun u l v hi hs => ?_) ha
  have keep : ∀ {wc : Completion} {rest : List Completion} {id : Nat}, u.conn.cq = wc :: rest →
      wc.wrId ≠ id → (∃ v ∈ u.conn.cq, v.wrId = id) → ∃ v ∈ rest, v.wrId = id := by
    rintro wc rest id hcq hne ⟨v, hv, hid⟩
    rw [hcq] at hv
    rcases List.mem_cons.mp hv with rfl | hv
    · exact absurd hid hne
    · exact ⟨v, hv, hid⟩
  cases hs with
  | tick fs => exact hi
  | recv wc rest hcq hid hok =>
    refine ⟨.inl rfl, ?_⟩
    rcases hi.2 with hg | hin
    · exact .inl hg
    · exact .inr (keep hcq (by rw [hid]; decide) hin)
  | send wc rest hcq hid hok =>
    refine ⟨?_, .inl rfl⟩
    rcases hi.1 with hg | hin
    · exact .inl hg
    · exact .inr (keep hcq (by rw [hid]; decide) hin)

/-- The exchange returns, and with both completions in it returns the peer's handshake. -/
theorem pollHandshake_inOrder (hq : q.Fine) (ho : q.Orderly) (hhs : HsState p q)
    (hph : q.phase = .exchanging) (hin : q.hsInOrder = true) :
    ∃ r t, pollHandshake q.stream = .ok r t ∧
      (∀ peer, r = some peer → peer = myHandshake p.config) ∧
      (q.stream.hsArrived → r = some (myHandshake p.config)) := by
  have hclear := hsClear_of_inOrder hq ho hph hin
  have hok := hq.ok
  unfold Party.Ok at hok
  rw [hph] at hok
  have hlen : handshakeLen ≤ q.stream.handshake.length := by rw [hok.hs_len]; decide
  have exact_peer : ∀ peer t, pollHandshake q.stream = .ok (some peer) t →
      peer = myHandshake p.config := by
    intro peer t hr
    have hstep : Party.Step q (.poll (some peer)) { q with stream := t, phase := .got peer } :=
      .peer q t peer hph hr
    exact (hhs.receiver hstep rfl hq.ok (by simp)).got (hstep.ok hq.ok) rfl
  -- the loop returns, so only decoding could fail
  have hret : ∃ r t, pollHandshake q.stream = .ok r t := by
    have hloop := wp_and (handshakeLoop_wp _ (Nat.lt_succ_self _))
      (handshakeLoop_clear _ (Nat.lt_succ_self _) hclear)
    have hpoll : wp pollHandshake q.stream fun r _ => ∃ v, r = .ok v := by
      simp only [pollHandshake, wp_bind, wp_get]
      refine wp_mono hloop ?_
      rintro r t ⟨hr, b, rfl⟩
      obtain ⟨⟨ls, hrun⟩, hdone, -⟩ := hr
      cases b with
      | false => exact ⟨none, rfl⟩
      | true =>
        obtain ⟨-, hrq', hmem'⟩ := run_hsStep_conn hrun
        have hpre : Pre q.config true t := hrun.inv (fun _ _ _ hi hs => Pre.hsStep hi hs) hok
        have hgone := (hpre.no_handshake hdone.symm).2
        rw [hrq'] at hgone
        have hgot : HsGot p.config q := by
          cases hhs with
          | unsent rs _ _ hrq => exact absurd (by rw [hrq]; exact List.mem_cons_self ..) hgone
          | posted rs _ _ _ hrq => exact absurd (by rw [hrq]; exact List.mem_cons_self ..) hgone
          | delivered _ _ _ hgot => exact hgot
        unfold HsGot at hgot
        rw [hph] at hgot
        have hl := (run_hsStep_len hrun hgot.2.1 hgot.2.2).2 (by
          have := hdone.symm
          simp only [HordStream.hsDone, Bool.and_eq_true] at this
          exact this.1)
        have hbytes : t.hsBytes = (myHandshake p.config).encode := by
          unfold HordStream.hsBytes
          rw [hmem', hgot.1, hl, Nat.min_self]
          exact List.take_of_length_le (Handshake.encode_length _).le
        simp only [if_true, wp_bind, wp_get]
        refine copyOut_wp (by rw [hmem']; omega) ?_
        refine decodeReply_wp (fun _ _ => ⟨_, rfl⟩) fun e hdec => ?_
        have hbad : Handshake.decode t.hsBytes = .error e := hdec
        rw [hbytes, Handshake.decode_encode _ rfl] at hbad
        cases hbad
    cases hx : pollHandshake q.stream with
    | ok r t => exact ⟨r, t, rfl⟩
    | error e t =>
      obtain ⟨v, hv⟩ := wp_error hpoll hx
      cases hv
  obtain ⟨r, t, hr⟩ := hret
  refine ⟨r, t, hr, ?_, fun harr => ?_⟩
  · rintro peer rfl
    exact exact_peer peer t hr
  · cases r with
    | some peer => rw [exact_peer peer t hr]
    | none =>
      obtain ⟨⟨ls, hrun⟩, hnot, hcq⟩ := wp_ok (pollHandshake_wp hlen) hr
      have harr' := run_hsStep_arrived hrun harr
      unfold HordStream.hsArrived at harr'
      simp only [hcq, List.not_mem_nil, false_and, exists_false, or_false] at harr'
      unfold HordStream.hsDone at hnot
      rw [harr'.1, harr'.2] at hnot
      cases hnot

end Polling

/-- The steps of a run in which every completion succeeds, every call on an established
    stream returns, and no end polls its exchange out of order; only the exchange is
    given the chance to fail. -/
def Duo.inOrder (d : Duo) : Event → Bool
  | .call x (.poll _) => (d.get x).hsInOrder
  | .call x (.broke _) => (d.get x).phase = .exchanging && (d.get x).hsInOrder
  | .call _ (.act _ (.error _)) => false
  | .complete _ _ wc => wc.isSuccess
  | .drop _ => false
  | .reject _ => false
  | _ => true

section Runs
variable {d e : Duo} {l : Event}

/-- Such a step is clean: the exchange did not fail. -/
theorem Duo.Step.clean_of_inOrder (h : Duo.Step d l e) (hd : d.Healthy) (ho : ∀ x, (d.get x).Orderly)
    (hin : d.inOrder l = true) : l.clean = true := by
  match l with
  | .call x (.broke er) =>
    exfalso
    simp only [Duo.inOrder, Bool.and_eq_true, decide_eq_true_eq] at hin
    have hback := hd.hs x.other
    rw [Side.other_other] at hback
    obtain ⟨r, t, hr, -⟩ := pollHandshake_inOrder (hd.fine x) (ho x) hback hin.1 hin.2
    cases h with
    | call _ _ p hp hm =>
      cases hp with
      | broke t' _ hb =>
        rcases hb with ⟨hph, -⟩ | ⟨-, hb⟩ | ⟨peer, hph, -⟩
        · rw [hin.1] at hph; cases hph
        · rw [hr] at hb; cases hb
        · rw [hin.1] at hph; cases hph
  | .call x .env => rfl
  | .call x .hello => rfl
  | .call x (.poll r) => rfl
  | .call x .apply => rfl
  | .call x (.act a (.ok v)) => rfl
  | .call x (.act a (.error er)) => cases hin
  | .deliver x w => rfl
  | .complete x w wc => rfl
  | .reject x => cases hin
  | .drop x => cases hin
  | .oracle x => rfl
  | .cm x ev => rfl

/-- Every step keeps the queues in order. -/
theorem Duo.Step.orderly (h : Duo.Step d l e) (hd : d.Healthy) (halive : ∀ x, (e.get x).phase ≠ .failed)
    (hin : d.inOrder l = true) (ho : ∀ x, (d.get x).Orderly) (y : Side) : (e.get y).Orderly := by
  have one : ∀ x p, p.Orderly → ((d.set x p).get y).Orderly := by
    intro x p hp
    rcases x.eq_or_other y with rfl | rfl
    · rw [Duo.get_set]
      exact hp
    · rw [Duo.get_set_other]
      exact ho _
  cases h with
  | call x m p hp hm =>
    have halive' := halive x
    rw [Duo.get_set] at halive'
    exact one x p (hp.orderly hm (hd.fine x).ok halive' (ho x))
  | deliver x w rest r rs bytes wc hout hrq hl hfit =>
    rcases x.eq_or_other y with rfl | rfl
    · rw [Duo.get_set_other', Duo.get_set]
      exact ⟨(ho y).success, (ho y).recv⟩
    · rw [Duo.get_set]
      exact (ho x.other).deliver (hd.fine x.other) (hd.hs x) hout hrq hl
  | deliverWrite x => exact one x _ ⟨(ho x).success, (ho x).recv⟩
  | complete x ls rs w wc ha hid hop =>
    refine one x _ ((ho x).queued hin (fun hph => .inl ?_) rfl rfl)
    have hup : (d.get x).phase ≠ .up := by
      rcases hph with hph | hph
      · rw [hph]; nofun
      · rw [hph]; nofun
    obtain ⟨sent, hpre⟩ := (hd.fine x).ok.pre hup (hd.fine x).alive
    have hw := hpre.sq w (by rw [ha]; simp)
    rw [hid, hw]
    exact hsWrId_kind.2
  | reject x => cases hin
  | drop x => cases hin
  | oracle x => exact one x _ ⟨(ho x).success, (ho x).recv⟩
  | cm x => exact one x _ ⟨(ho x).success, (ho x).recv⟩

/-- A poll that returned a handshake returned the other end's. -/
theorem Duo.Step.exact_peer {x : Side} {peer : Handshake} (h : Duo.Step d (.call x (.poll (some peer))) e)
    (hd : d.Healthy) : peer = myHandshake (d.get x.other).config := by
  have hback := hd.hs x.other
  rw [Side.other_other] at hback
  cases h with
  | call _ _ p hp hm =>
    have hgot := hback.receiver hp hm (hd.fine x).ok (by cases hp; nofun)
    cases hp with
    | peer t _ hph hr => exact hgot.got ((Party.Step.peer _ t peer hph hr).ok (hd.fine x).ok) rfl

/-- What every run in order keeps, with the steps so far. -/
structure Duo.EarlyInv (ls : List Event) (d : Duo) : Prop where
  healthy : d.Healthy
  orderly : ∀ x, (d.get x).Orderly
  clean : ∀ l ∈ ls, l.clean = true
  peers : ∀ x peer, .call x (.poll (some peer)) ∈ ls → peer = myHandshake (d.get x.other).config

theorem Duo.Init.early (h : d.Init) : Duo.EarlyInv [] d := by
  refine ⟨h.healthy, fun x => ⟨fun wc hwc => ?_, fun _ => .inr ?_⟩, fun _ hl => (by cases hl), fun _ _ hl => (by cases hl)⟩
  · rw [(h x).fine.2.2.2.1] at hwc
    cases hwc
  · rw [(h x).fine.2.2.2.1]
    rfl

theorem Duo.Step.early {ls : List Event} (h : Duo.Step d l e) (hin : d.inOrder l = true)
    (hi : Duo.EarlyInv ls d) : Duo.EarlyInv (ls ++ [l]) e := by
  have hclean := h.clean_of_inOrder hi.healthy hi.orderly hin
  obtain ⟨hl, htame, hbroke⟩ := Event.clean_facts (d := d) hclean
  have halive := h.alive (fun x => (hi.healthy.fine x).alive) hbroke
  refine ⟨h.healthy hi.healthy htame halive, h.orderly hi.healthy halive hin hi.orderly, fun l' hl' => ?_,
    fun x peer hx => ?_⟩
  · rcases List.mem_append.mp hl' with hl' | hl'
    · exact hi.clean l' hl'
    · rw [List.mem_singleton] at hl'
      exact hl' ▸ hclean
  · rw [h.config]
    rcases List.mem_append.mp hx with hx | hx
    · exact hi.peers x peer hx
    · rw [List.mem_singleton] at hx
      subst hx
      exact h.exact_peer hi.healthy

theorem early_run {ls : List Event} (hinit : d.Init)
    (hrun : Run (fun d l e => Duo.Step d l e ∧ d.inOrder l = true) d ls e) : Duo.EarlyInv ls e :=
  hrun.inv_trace (I := Duo.EarlyInv) (fun _ _ _ _ hi hs => hs.1.early hs.2 hi) hinit.early

end Runs

/-- In every run of the pair in which no end polls its exchange with a message ahead of
    its own handshake's completion: no exchange fails, each decodes exactly what the other
    end sent, with both completions in the next poll returns it, and everything accepted,
    early or not, is read, in order and once. -/
theorem early_data_survives {d e : Duo} {ls : List Event} (hinit : d.Init)
    (hrun : Run (fun d l e => Duo.Step d l e ∧ d.inOrder l = true) d ls e) (x : Side) :
    (∀ er, .call x (.broke er) ∉ ls) ∧
    (∀ peer, .call x (.poll (some peer)) ∈ ls → peer = myHandshake (e.get x.other).config) ∧
    ((e.get x).phase = .exchanging → (e.get x).hsInOrder = true → (e.get x).stream.hsArrived →
      ∃ t, pollHandshake (e.get x).stream = .ok (some (myHandshake (e.get x.other).config)) t) ∧
    ls.flatMap (Event.read x) <+: ls.flatMap (Event.accepted x.other) ∧
    ((e.get x.other).stream.txStage = [] →
      (∀ w ∈ (e.get x.other).stream.conn.out, w.opcode ≠ .send) →
      (e.get x).stream.conn.cq = [] → (e.get x).stream.rxReady = [] →
      ls.flatMap (Event.read x) = ls.flatMap (Event.accepted x.other)) := by
  have hi := early_run hinit hrun
  have hback := hi.healthy.hs x.other
  rw [Side.other_other] at hback
  have hord := (clean_run hinit (hrun.mono fun _ _ _ h => h.1) hi.clean).2 x.other
  rw [Side.other_other] at hord
  refine ⟨fun er hmem => ?_, hi.peers x, fun hph hin harr => ?_, hord.read_le, fun hstage hout hcq hready => ?_⟩
  · have := hi.clean _ hmem
    cases this
  · obtain ⟨r, t, hr, -, hall⟩ := pollHandshake_inOrder (hi.healthy.fine x) (hi.orderly x) hback hph hin
    rw [hall harr] at hr
    exact ⟨t, hr⟩
  · have hdrained := Duo.drained (x := x.other) hstage hout (by rwa [Side.other_other])
      (by rwa [Side.other_other])
    rw [Side.other_other] at hdrained
    exact hord.complete hdrained.1 hdrained.2.1 hdrained.2.2.1 hdrained.2.2.2

/-- Setup up to the left end's last poll: the right end's send is not completed yet. -/
def leftFirst : List Turn :=
  [.setup .left, .setup .right, .deliver .left, .deliver .right, .complete .left, .setup .left,
    .setup .left, .act .left (.tryWrite [1, 2, 3]), .act .left .tryFlushStage]

/-- The left end finishes first; its three bytes land while the right end is still in its
    exchange, behind that end's own completion. -/
theorem early_data_survives_three : ∃ d ls e, d.Init ∧
    Run (fun d l e => Duo.Step d l e ∧ d.inOrder l = true) d ls e ∧
    ls.flatMap (Event.read .right) = [1, 2, 3] ∧
    (∀ er, .call .right (.broke er) ∉ ls) ∧
    (∀ peer, .call .right (.poll (some peer)) ∈ ls → peer = myHandshake (e.get .left).config) ∧
    ((e.get .right).phase = .exchanging → (e.get .right).hsInOrder = true →
      (e.get .right).stream.hsArrived →
      ∃ t, pollHandshake (e.get .right).stream = .ok (some (myHandshake (e.get .left).config)) t) ∧
    ls.flatMap (Event.read .right) <+: ls.flatMap (Event.accepted .left) ∧
    ((e.get .left).stream.txStage = [] → (∀ w ∈ (e.get .left).stream.conn.out, w.opcode ≠ .send) →
      (e.get .right).stream.conn.cq = [] → (e.get .right).stream.rxReady = [] →
      ls.flatMap (Event.read .right) = ls.flatMap (Event.accepted .left)) := by
  obtain ⟨d, ls, e, hinit, hrun, hgood⟩ := Duo.launch_run Duo.inOrder tinyConfig tinyConfig
    (leftFirst ++ [.complete .right, .deliver .left, .setup .right, .setup .right,
      .act .right .pump, .act .right (.tryRead 16)])
    (fun ls _ => decide (ls.flatMap (Event.read .right) = [1, 2, 3])) (by decide +kernel)
  exact ⟨d, ls, e, hinit, hrun, of_decide_eq_true hgood, early_data_survives hinit hrun .right⟩

/-- The poll of an exchange fails. -/
def Party.pollFails (p : Party) : Bool :=
  match pollHandshake p.stream with
  | .error (.io _) _ => true
  | _ => false

theorem Party.pollFails_error {p : Party} (h : p.pollFails = true) :
    ∃ er t, pollHandshake p.stream = .error (.io er) t := by
  unfold Party.pollFails at h
  split at h
  · next er t hr => exact ⟨er, t, hr⟩
  · cases h

/-- The same with the message ahead of the completion: the left end is established, and
    the right end's exchange fails. -/
theorem early_data_fails : ∃ d ls e, d.Init ∧
    Run (fun d l e => Duo.Step d l e ∧ l.faithful = true) d ls e ∧
    (e.get .left).phase = .up ∧ (e.get .right).phase = .exchanging ∧
    (e.get .left).config = tinyConfig ∧ (e.get .right).config = tinyConfig ∧
    ∃ er t, pollHandshake (e.get .right).stream = .error (.io er) t := by
  obtain ⟨d, ls, e, hinit, hrun, hgood⟩ := Duo.launch_run (fun _ l => l.faithful) tinyConfig tinyConfig
    (leftFirst ++ [.deliver .left])
    (fun _ e => (e.get .left).phase = .up && (e.get .right).phase = .exchanging &&
      (e.get .left).config = tinyConfig && (e.get .right).config = tinyConfig &&
      (e.get .right).pollFails) (by decide +kernel)
  simp only [Bool.and_eq_true, decide_eq_true_eq] at hgood
  obtain ⟨⟨⟨⟨hl, hr⟩, hcl⟩, hcr⟩, hfail⟩ := hgood
  exact ⟨d, ls, e, hinit, hrun, hl, hr, hcl, hcr, Party.pollFails_error hfail⟩

end Hord
