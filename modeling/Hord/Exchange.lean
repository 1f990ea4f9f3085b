import Hord.Duo

/- The handshakes of the pair. Each end's handshake is the first request it posts and
   the other end's first receive is reserved for it, so it is unsent, posted or
   delivered (`HsState`), and what the other end decodes is exactly what was sent. -/
namespace Hord

open Region Prog Transition CreditLink

/-- What the receiver of a handshake knows of it, once delivered. -/
def HsGot (config : HordConfig) (q : Party) : Prop :=
  match q.phase with
  | .up => True
  | .failed => True
  | .got peer => peer = myHandshake config
  | _ => readAt q.stream.handshake 0 handshakeLen = (myHandshake config).encode ∧
      (∀ wc ∈ q.stream.conn.cq, wc.wrId = hsRecvWrId → wc.byteLen = handshakeLen) ∧
      (q.stream.hsGotRecv = true → q.stream.hsRecvLen = handshakeLen)

/-- Where the handshake from `p` to `q` is. -/
inductive HsState (p q : Party) : Prop
  | unsent (rs : List RecvWr) (hp : p.phase = .fresh) (hout : p.stream.conn.out = [])
      (hrq : q.stream.conn.rq = hsRecvWr :: rs)
  | posted (rs : List RecvWr) (hp : p.phase = .exchanging) (hout : p.stream.conn.out = [hsSendWr])
      (hmem : readAt p.stream.handshake handshakeLen handshakeLen = (myHandshake p.config).encode)
      (hrq : q.stream.conn.rq = hsRecvWr :: rs)
  | delivered (hp : p.phase ≠ .fresh) (hout : hsSendWr ∉ p.stream.conn.out)
      (hrq : hsRecvWr ∉ q.stream.conn.rq) (hgot : HsGot p.config q)

section Facts
variable {p q : Party}

theorem Party.Ok.inv (h : p.Ok) (hup : p.phase = .up) : Inv p.stream := by
  unfold Party.Ok at h
  rw [hup] at h
  exact h.1

/-- Before the stream is established. -/
theorem Party.Ok.pre (h : p.Ok) (hup : p.phase ≠ .up) (hf : p.phase ≠ .failed) :
    ∃ sent, Pre p.config sent p.stream := by
  unfold Party.Ok at h
  cases hph : p.phase with
  | fresh => rw [hph] at h; exact ⟨_, h⟩
  | exchanging => rw [hph] at h; exact ⟨_, h⟩
  | got peer => rw [hph] at h; exact ⟨_, h.1⟩
  | up => exact absurd hph hup
  | failed => exact absurd hph hf

theorem slotWr_ne (g : Geometry) (slot : Nat) : g.slotWr slot ≠ hsRecvWr := by
  intro h
  have hmr : (g.place slot).1 = Mr.handshake := congrArg RecvWr.mr h
  unfold Geometry.place at hmr
  split at hmr
  · cases hmr
  · cases hmr

/-- An established stream has no handshake request left. -/
theorem Inv.no_handshake {s : HordStream} (h : Inv s) : hsSendWr ∉ s.conn.out ∧ hsRecvWr ∉ s.conn.rq := by
  constructor
  · intro hmem
    have hok := h.wf.sq hsSendWr (List.mem_append_left _ hmem)
    generalize hw : hsSendWr = w at hok
    cases hok with
    | data => cases congrArg SendWr.opcode hw; injection hw with _ hmr; cases hmr
    | ctrl => injection hw with _ hmr; cases hmr
    | write => cases hw
  · intro hmem
    obtain ⟨slot, -, he⟩ := h.wf.rq _ hmem
    exact slotWr_ne _ _ he.symm

/-- Both completions in, no handshake request is left either. -/
theorem Pre.no_handshake {config : HordConfig} {s : HordStream} (h : Pre config true s)
    (hdone : s.hsDone = true) : s.conn.out = [] ∧ hsRecvWr ∉ s.conn.rq := by
  obtain ⟨hout, -, hrq, -⟩ := h.settled hdone
  refine ⟨hout, fun hmem => ?_⟩
  obtain ⟨slot, -, he⟩ := hrq _ hmem
  exact slotWr_ne _ _ he.symm

/-- The handshake's receive is posted once. -/
theorem Pre.rq_tail {config : HordConfig} {sent : Bool} {s : HordStream} (h : Pre config sent s)
    {rs : List RecvWr} (hrq : s.conn.rq = hsRecvWr :: rs) :
    hsRecvWr ∉ rs ∧ s.hsGotRecv = false ∧ ∀ wc ∈ s.conn.cq, wc.wrId ≠ hsRecvWrId := by
  have hcount := h.hsRecv
  rw [hrq, List.countP_cons] at hcount
  have hone : (hsRecvWr.wrId == hsRecvWrId) = true := beq_self_eq_true _
  rw [if_pos hone] at hcount
  refine ⟨fun hmem => ?_, ?_, fun wc hwc he => ?_⟩
  · have : 0 < rs.countP fun w => w.wrId == hsRecvWrId := List.countP_pos_iff.mpr ⟨_, hmem, hone⟩
    omega
  · cases hg : s.hsGotRecv with
    | false => rfl
    | true =>
      rw [hg, Bool.toNat_true] at hcount
      omega
  · have : 0 < s.conn.cq.countP fun wc => wc.wrId == hsRecvWrId :=
      List.countP_pos_iff.mpr ⟨wc, hwc, by rw [he]; exact beq_self_eq_true _⟩
    omega

/-- An end whose first receive is still the handshake's has not got it. -/
theorem Party.Ok.waiting (h : q.Ok) (hf : q.phase ≠ .failed) {rs : List RecvWr}
    (hrq : q.stream.conn.rq = hsRecvWr :: rs) : q.phase = .fresh ∨ q.phase = .exchanging := by
  have hmem : hsRecvWr ∈ q.stream.conn.rq := by rw [hrq]; exact List.mem_cons_self ..
  unfold Party.Ok at h
  cases hph : q.phase with
  | fresh => exact .inl rfl
  | exchanging => exact .inr rfl
  | got peer =>
    rw [hph] at h
    exact absurd hmem (h.1.no_handshake h.2).2
  | up =>
    rw [hph] at h
    exact absurd hmem h.1.no_handshake.2
  | failed => exact absurd hph hf

theorem HsStep.conn {s t : HordStream} {l : Option Completion} (h : HsStep s l t) :
    t.conn.out = s.conn.out ∧ t.conn.rq = s.conn.rq ∧ t.handshake = s.handshake := by
  cases h <;> exact ⟨rfl, rfl, rfl⟩

theorem run_hsStep_conn {s t : HordStream} {ls : List (Option Completion)} (h : Run HsStep s ls t) :
    t.conn.out = s.conn.out ∧ t.conn.rq = s.conn.rq ∧ t.handshake = s.handshake :=
  h.inv (I := fun u => u.conn.out = s.conn.out ∧ u.conn.rq = s.conn.rq ∧ u.handshake = s.handshake)
    (fun _ _ _ hi hs => ⟨hs.conn.1.trans hi.1, hs.conn.2.1.trans hi.2.1, hs.conn.2.2.trans hi.2.2⟩)
    ⟨rfl, rfl, rfl⟩

/-- The length of a received handshake is that of its completion. -/
theorem run_hsStep_len {s t : HordStream} {ls : List (Option Completion)} (h : Run HsStep s ls t)
    (hcq : ∀ wc ∈ s.conn.cq, wc.wrId = hsRecvWrId → wc.byteLen = handshakeLen)
    (hlen : s.hsGotRecv = true → s.hsRecvLen = handshakeLen) :
    (∀ wc ∈ t.conn.cq, wc.wrId = hsRecvWrId → wc.byteLen = handshakeLen) ∧
      (t.hsGotRecv = true → t.hsRecvLen = handshakeLen) := by
  refine h.inv (I := fun u => (∀ wc ∈ u.conn.cq, wc.wrId = hsRecvWrId → wc.byteLen = handshakeLen) ∧
    (u.hsGotRecv = true → u.hsRecvLen = handshakeLen)) (fun u l v hi hs => ?_) ⟨hcq, hlen⟩
  cases hs with
  | tick fs => exact hi
  | recv wc rest hq hid hok =>
    refine ⟨fun w hw => hi.1 w (by rw [hq]; exact List.mem_cons_of_mem _ hw), fun _ => ?_⟩
    exact hi.1 wc (by rw [hq]; exact List.mem_cons_self ..) hid
  | send wc rest hq hid hok =>
    exact ⟨fun w hw => hi.1 w (by rw [hq]; exact List.mem_cons_of_mem _ hw), hi.2⟩

end Facts

section Calls
variable {p p' q q' : Party} {m : Hord.Move}

/-- A call of the sender of a handshake. -/
theorem HsState.sender (h : HsState p q) (hs : Party.Step p m p') (hm : m.isEnv = false) (hok : p.Ok)
    (hf : p'.phase ≠ .failed) : HsState p' q := by
  have hok' := hs.ok hok
  unfold Party.Ok at hok
  cases hs with
  | env t he => cases hm
  | hello t hph hr =>
    rw [hph] at hok
    have hlen := hok.hs_len
    have henc := (myHandshake p.config).encode_length
    obtain ⟨fs, rfl⟩ := wp_ok (beginHandshakeSend_wp p.config hok.hs_len) hr
    cases h with
    | unsent rs hp hout hrq =>
      refine .posted rs rfl (by simp [hout]) ?_ hrq
      simp only
      rw [← henc]
      exact readAt_writeAt_same (by omega)
    | posted rs hp => rw [hph] at hp; cases hp
    | delivered hp => exact absurd hph hp
  | wait t hph hr =>
    rw [hph] at hok
    have hlen : handshakeLen ≤ p.stream.handshake.length := by rw [hok.hs_len]; decide
    obtain ⟨⟨ls, hrun⟩, -⟩ := wp_ok (pollHandshake_wp hlen) hr
    obtain ⟨hout', -, hmem'⟩ := run_hsStep_conn hrun
    cases h with
    | unsent rs hp => rw [hph] at hp; cases hp
    | posted rs hp hout hmem hrq => exact .posted rs hp (hout'.trans hout) (by rw [← hmem, ← hmem']) hrq
    | delivered hp hout hrq hgot => exact .delivered hp (by rw [hout']; exact hout) hrq hgot
  | peer t peer hph hr =>
    have hnone := hok'.1.no_handshake hok'.2
    cases h with
    | unsent rs hp => rw [hph] at hp; cases hp
    | posted rs hp hout hmem hrq =>
      rw [hph] at hok
      have hlen : handshakeLen ≤ p.stream.handshake.length := by rw [hok.hs_len]; decide
      obtain ⟨⟨ls, hrun⟩, -⟩ := wp_ok (pollHandshake_wp hlen) hr
      have hout' := (run_hsStep_conn hrun).1
      rw [hnone.1, hout] at hout'
      cases hout'
    | delivered hp hout hrq hgot =>
      exact .delivered nofun (by rw [hnone.1]; exact List.not_mem_nil) hrq hgot
  | apply t peer hph hr =>
    have hnone := (hok'.inv rfl).no_handshake
    cases h with
    | unsent rs hp => rw [hph] at hp; cases hp
    | posted rs hp => rw [hph] at hp; cases hp
    | delivered hp hout hrq hgot => exact .delivered nofun hnone.1 hrq hgot
  | broke t e hr => exact absurd rfl hf
  | act t a v hph hr =>
    have hnone := (hok'.inv hph).no_handshake
    cases h with
    | unsent rs hp => rw [hph] at hp; cases hp
    | posted rs hp => rw [hph] at hp; cases hp
    | delivered hp hout hrq hgot => exact .delivered hp hnone.1 hrq hgot
  | actErr t a e hph hr =>
    have hnone := (hok'.inv hph).no_handshake
    cases h with
    | unsent rs hp => rw [hph] at hp; cases hp
    | posted rs hp => rw [hph] at hp; cases hp
    | delivered hp hout hrq hgot => exact .delivered hp hnone.1 hrq hgot

/-- A call of its receiver. -/
theorem HsState.receiver (h : HsState p q) (hs : Party.Step q m q') (hm : m.isEnv = false) (hok : q.Ok)
    (hf : q'.phase ≠ .failed) : HsState p q' := by
  have hok' := hs.ok hok
  have hnf : q.phase ≠ .failed := by
    intro hfail
    cases hs with
    | env t he => cases hm
    | hello t hph hr => rw [hph] at hfail; cases hfail
    | wait t hph hr => rw [hph] at hfail; cases hfail
    | peer t peer hph hr => rw [hph] at hfail; cases hfail
    | apply t peer hph hr => rw [hph] at hfail; cases hfail
    | broke t e hr => exact absurd rfl hf
    | act t a v hph hr => rw [hph] at hfail; cases hfail
    | actErr t a e hph hr => rw [hph] at hfail; cases hfail
  -- a receiver that has the handshake no longer waits for it
  have settled : ∀ {rs : List RecvWr}, q.phase ≠ .fresh → q.phase ≠ .exchanging →
      q.stream.conn.rq = hsRecvWr :: rs → False := by
    intro rs h1 h2 hrq
    rcases hok.waiting hnf hrq with hph | hph
    · exact h1 hph
    · exact h2 hph
  cases hs with
  | env t he => cases hm
  | hello t hph hr =>
    unfold Party.Ok at hok
    rw [hph] at hok
    have hlen := hok.hs_len
    have henc := (myHandshake q.config).encode_length
    obtain ⟨fs, rfl⟩ := wp_ok (beginHandshakeSend_wp q.config hok.hs_len) hr
    cases h with
    | unsent rs hp hout hrq => exact .unsent rs hp hout hrq
    | posted rs hp hout hmem hrq => exact .posted rs hp hout hmem hrq
    | delivered hp hout hrq hgot =>
      refine .delivered hp hout hrq ?_
      unfold HsGot at hgot ⊢
      rw [hph] at hgot
      refine ⟨?_, hgot.2⟩
      simp only
      rw [readAt_writeAt_disjoint (by omega) (.inl (by omega))]
      exact hgot.1
  | wait t hph hr =>
    unfold Party.Ok at hok
    rw [hph] at hok
    have hlen : handshakeLen ≤ q.stream.handshake.length := by rw [hok.hs_len]; decide
    obtain ⟨⟨ls, hrun⟩, -⟩ := wp_ok (pollHandshake_wp hlen) hr
    obtain ⟨-, hrq', hmem'⟩ := run_hsStep_conn hrun
    cases h with
    | unsent rs hp hout hrq => exact .unsent rs hp hout (hrq'.trans hrq)
    | posted rs hp hout hmem hrq => exact .posted rs hp hout hmem (hrq'.trans hrq)
    | delivered hp hout hrq hgot =>
      refine .delivered hp hout (by rw [hrq']; exact hrq) ?_
      unfold HsGot at hgot ⊢
      rw [hph] at hgot
      simp only [hph]
      exact ⟨by rw [hmem']; exact hgot.1, run_hsStep_len hrun hgot.2.1 hgot.2.2⟩
  | peer t peer hph hr =>
    have hnone := hok'.1.no_handshake hok'.2
    unfold Party.Ok at hok
    rw [hph] at hok
    have hlen : handshakeLen ≤ q.stream.handshake.length := by rw [hok.hs_len]; decide
    obtain ⟨⟨ls, hrun⟩, hdone, hdec⟩ := wp_ok (pollHandshake_wp hlen) hr
    obtain ⟨-, hrq', hmem'⟩ := run_hsStep_conn hrun
    cases h with
    | unsent rs hp hout hrq =>
      exact absurd (by rw [hrq', hrq]; exact List.mem_cons_self ..) hnone.2
    | posted rs hp hout hmem hrq =>
      exact absurd (by rw [hrq', hrq]; exact List.mem_cons_self ..) hnone.2
    | delivered hp hout hrq hgot =>
      refine .delivered hp hout (by rw [hrq']; exact hrq) ?_
      unfold HsGot at hgot ⊢
      rw [hph] at hgot
      have hlen' := (run_hsStep_len hrun hgot.2.1 hgot.2.2).2 (by
        simp only [HordStream.hsDone, Bool.and_eq_true] at hdone
        exact hdone.1)
      -- the bytes received are the encoding, whole
      have hbytes : t.hsBytes = (myHandshake p.config).encode := by
        unfold HordStream.hsBytes
        rw [hmem', hgot.1, hlen', Nat.min_self]
        exact List.take_of_length_le (Handshake.encode_length _).le
      rw [hbytes, Handshake.decode_encode _ rfl] at hdec
      injection hdec with hdec
      exact hdec.symm
  | apply t peer hph hr =>
    have hnone := (hok'.inv rfl).no_handshake
    cases h with
    | unsent rs hp hout hrq => exact (settled (by rw [hph]; simp) (by rw [hph]; simp) hrq).elim
    | posted rs hp hout hmem hrq =>
      exact (settled (by rw [hph]; simp) (by rw [hph]; simp) hrq).elim
    | delivered hp hout hrq hgot => exact .delivered hp hout hnone.2 trivial
  | broke t e hr => exact absurd rfl hf
  | act t a v hph hr =>
    have hnone := (hok'.inv hph).no_handshake
    cases h with
    | unsent rs hp hout hrq => exact (settled (by rw [hph]; simp) (by rw [hph]; simp) hrq).elim
    | posted rs hp hout hmem hrq =>
      exact (settled (by rw [hph]; simp) (by rw [hph]; simp) hrq).elim
    | delivered hp hout hrq hgot =>
      refine .delivered hp hout hnone.2 ?_
      unfold HsGot
      simp only [hph]
  | actErr t a e hph hr =>
    have hnone := (hok'.inv hph).no_handshake
    cases h with
    | unsent rs hp hout hrq => exact (settled (by rw [hph]; simp) (by rw [hph]; simp) hrq).elim
    | posted rs hp hout hmem hrq =>
      exact (settled (by rw [hph]; simp) (by rw [hph]; simp) hrq).elim
    | delivered hp hout hrq hgot =>
      refine .delivered hp hout hnone.2 ?_
      unfold HsGot
      simp only [hph]

end Calls

section Transport
variable {p q : Party}

/-- A posted receive of a healthy end is the handshake's or a slot's. -/
theorem Party.Ok.rq (h : q.Ok) (hf : q.phase ≠ .failed) {r : RecvWr} (hr : r ∈ q.stream.conn.rq) :
    r = hsRecvWr ∨
      ∃ slot < q.stream.slotCount, slot < slotLimit ∧ r = q.stream.geo.slotWr slot := by
  by_cases hup : q.phase = .up
  · have hwf := (h.inv hup).wf
    obtain ⟨slot, hslot, he⟩ := hwf.rq r hr
    exact .inr ⟨slot, hslot, hwf.slotCount_lt hslot, he⟩
  · obtain ⟨sent, hp⟩ := h.pre hup hf
    rcases hp.rq r hr with rfl | ⟨slot, hslot, rfl⟩
    · exact .inl rfl
    · exact .inr ⟨slot, Nat.lt_of_lt_of_le hslot (Nat.le_add_right _ _), q.stream.geo.slot_lt hslot, rfl⟩

theorem HsState.carried_receiver (h : HsState p q) (w : SendWr) (rest : List SendWr) :
    HsState p (q.carried w rest) := by
  cases h with
  | unsent rs hp hout hrq => exact .unsent rs hp hout hrq
  | posted rs hp hout hmem hrq => exact .posted rs hp hout hmem hrq
  | delivered hp hout hrq hgot => exact .delivered hp hout hrq hgot

/-- What lands at the sender of a handshake leaves the handshake it posted. -/
theorem HsState.landed_sender (h : HsState p q) (hok : p.Ok) {r : RecvWr} {rs : List RecvWr}
    {bytes : Bytes} (wc : Completion) (hf : p.phase ≠ .failed) (hrq : p.stream.conn.rq = r :: rs)
    (hfit : bytes.length ≤ r.length) : HsState (p.landed r rs bytes wc) q := by
  cases h with
  | unsent ws hp hout hq => exact .unsent ws hp hout hq
  | posted ws hp hout hmem hq =>
    refine .posted ws hp hout ?_ hq
    have hlen : p.stream.handshake.length = 2 * handshakeLen := by
      obtain ⟨sent, hpre⟩ := hok.pre (by rw [hp]; nofun) hf
      exact hpre.hs_len
    show _ = (myHandshake p.config).encode
    rw [← hmem]
    rcases hok.rq hf (r := r) (by rw [hrq]; exact List.mem_cons_self ..) with rfl | ⟨slot, -, -, rfl⟩
    · have hfit' : bytes.length ≤ handshakeLen := hfit
      show readAt (writeAt p.stream.handshake 0 bytes) _ _ = _
      exact readAt_writeAt_disjoint (by omega) (.inr (by omega))
    · obtain ⟨_, _, heq⟩ := landed_slot_eq p.stream slot rs bytes wc
      show readAt (p.stream.landed (p.stream.geo.slotWr slot) rs bytes wc).handshake _ _ = _
      rw [heq]
  | delivered hp hout hq hgot => exact .delivered hp hout hq hgot

/-- A request is carried out and lands at the receiver. -/
theorem HsState.deliver (h : HsState p q) (hokq : q.Ok) (hfq : q.phase ≠ .failed) {w : SendWr}
    {rest : List SendWr} {r : RecvWr} {rs : List RecvWr} {bytes : Bytes} {wc : Completion}
    (hout : p.stream.conn.out = w :: rest) (hrq : q.stream.conn.rq = r :: rs)
    (hl : p.stream.lands r w = some (bytes, wc)) :
    HsState (p.carried w rest) (q.landed r rs bytes wc) := by
  have hmem : r ∈ q.stream.conn.rq := by rw [hrq]; exact List.mem_cons_self ..
  have hsub : ∀ v ∈ rest, v ∈ p.stream.conn.out := fun v hv => by
    rw [hout]
    exact List.mem_cons_of_mem _ hv
  have hrsub : ∀ v ∈ rs, v ∈ q.stream.conn.rq := fun v hv => by
    rw [hrq]
    exact List.mem_cons_of_mem _ hv
  cases h with
  | unsent ws hp hnil hq =>
    rw [hnil] at hout
    cases hout
  | posted ws hp hone hbytes hq =>
    rw [hone] at hout
    injection hout with hw hrest
    subst hw hrest
    rw [hq] at hrq
    injection hrq with hr hrs
    subst hr hrs
    obtain ⟨sent, hpre⟩ := hokq.pre (by
      intro hup
      exact absurd hmem (hokq.inv hup).no_handshake.2) hfq
    obtain ⟨htail, hgot, hcq⟩ := hpre.rq_tail hq
    injection hl with hl
    injection hl with hb hwc
    have hhalf : bytes = (myHandshake p.config).encode := by
      rw [← hb, ← hbytes]
      rfl
    refine .delivered (by show p.phase ≠ _; rw [hp]; nofun) List.not_mem_nil htail ?_
    have hwait := hokq.waiting hfq hq
    -- the receive region holds the encoding, and its completion says so
    have hlen := hpre.hs_len
    have henc := (myHandshake p.config).encode_length
    have hread : readAt (q.landed hsRecvWr ws bytes wc).stream.handshake 0 handshakeLen =
        (myHandshake p.config).encode := by
      show readAt (writeAt q.stream.handshake 0 bytes) 0 handshakeLen = _
      rw [hhalf, ← henc]
      exact readAt_writeAt_same (by omega)
    have hnew : ∀ v ∈ (q.landed hsRecvWr ws bytes wc).stream.conn.cq, v.wrId = hsRecvWrId →
        v.byteLen = handshakeLen := by
      intro v hv hid
      have hv' : v ∈ q.stream.conn.cq ++ [wc] := hv
      rcases List.mem_append.mp hv' with hv' | hv'
      · exact absurd hid (hcq v hv')
      · rw [List.mem_singleton] at hv'
        rw [hv', ← hwc]
    have hflag : (q.landed hsRecvWr ws bytes wc).stream.hsGotRecv = true →
        (q.landed hsRecvWr ws bytes wc).stream.hsRecvLen = handshakeLen := by
      intro hg
      rw [show (q.landed hsRecvWr ws bytes wc).stream.hsGotRecv = q.stream.hsGotRecv from rfl, hgot] at hg
      cases hg
    unfold HsGot
    rcases hwait with hph | hph
    · rw [show (q.landed hsRecvWr ws bytes wc).phase = .fresh from hph]
      exact ⟨hread, hnew, hflag⟩
    · rw [show (q.landed hsRecvWr ws bytes wc).phase = .exchanging from hph]
      exact ⟨hread, hnew, hflag⟩
  | delivered hp hno hq hgot =>
    refine .delivered hp (fun hv => hno (hsub _ hv)) (fun hv => hq (hrsub _ hv)) ?_
    rcases hokq.rq hfq hmem with rfl | ⟨slot, -, hlt, rfl⟩
    · exact absurd hmem hq
    · have hid := (lands_eq hl).1
      have hne : wc.wrId ≠ hsRecvWrId := by
        intro he
        rw [hid] at he
        have := (hsIds_ne hlt).1
        rw [← he, show (q.stream.geo.slotWr slot).wrId = recvWrId slot from rfl, beq_self_eq_true] at this
        cases this
      obtain ⟨recv, split, heq⟩ := landed_slot_eq q.stream slot rs bytes wc
      unfold HsGot at hgot ⊢
      unfold Party.landed
      rw [heq]
      revert hgot
      cases q.phase with
      | up => exact id
      | failed => exact id
      | got peer => exact id
      | fresh =>
        rintro ⟨h1, h2, h3⟩
        refine ⟨h1, fun v hv hvid => ?_, h3⟩
        rcases List.mem_append.mp hv with hv | hv
        · exact h2 v hv hvid
        · rw [List.mem_singleton] at hv
          exact absurd (hv ▸ hvid) hne
      | exchanging =>
        rintro ⟨h1, h2, h3⟩
        refine ⟨h1, fun v hv hvid => ?_, h3⟩
        rcases List.mem_append.mp hv with hv | hv
        · exact h2 v hv hvid
        · rw [List.mem_singleton] at hv
          exact absurd (hv ▸ hvid) hne

end Transport

/-! The invariant of the pair. -/

/-- No completion of the send queue or of the handshake reports an immediate. -/
def HordStream.Plain (s : HordStream) : Prop :=
  ∀ wc ∈ s.conn.cq, isWrite wc.wrId = true → wc.isSuccess = true → wc.opcode ≠ .recvRdmaWithImm

/-- An endpoint whose handshake has not failed and whose traffic is honest. -/
structure Party.Fine (p : Party) : Prop where
  ok : p.Ok
  alive : p.phase ≠ .failed
  honest : p.stream.Honest
  plain : p.stream.Plain

structure Duo.Healthy (d : Duo) : Prop where
  fine : ∀ x, (d.get x).Fine
  hs : ∀ x, HsState (d.get x) (d.get x.other)

/-- One end changes. -/
theorem Duo.Healthy.set {d : Duo} (h : d.Healthy) {x : Side} {p : Party} (hp : p.Fine)
    (hsend : HsState p (d.get x.other)) (hrecv : HsState (d.get x.other) p) : (d.set x p).Healthy := by
  refine ⟨fun y => ?_, fun y => ?_⟩
  · rcases x.eq_or_other y with rfl | rfl
    · rw [Duo.get_set]
      exact hp
    · rw [Duo.get_set_other]
      exact h.fine _
  · rcases x.eq_or_other y with rfl | rfl
    · rw [Duo.get_set, Duo.get_set_other]
      exact hsend
    · rw [Duo.get_set_other, Side.other_other, Duo.get_set]
      exact hrecv

/-- Both ends change. -/
theorem Duo.Healthy.of_both {d : Duo} (x : Side) (hp : (d.get x).Fine) (hq : (d.get x.other).Fine)
    (hsend : HsState (d.get x) (d.get x.other)) (hrecv : HsState (d.get x.other) (d.get x)) :
    d.Healthy := by
  refine ⟨fun y => ?_, fun y => ?_⟩
  · rcases x.eq_or_other y with rfl | rfl
    · exact hp
    · exact hq
  · rcases x.eq_or_other y with rfl | rfl
    · exact hsend
    · rw [Side.other_other]
      exact hrecv

/-- The peer of an end is established: its own handshake has been delivered. -/
theorem HsState.of_up {p q : Party} (h : HsState p q) (hup : p.phase = .up) :
    hsSendWr ∉ p.stream.conn.out ∧ hsRecvWr ∉ q.stream.conn.rq ∧ HsGot p.config q := by
  cases h with
  | unsent rs hp => rw [hup] at hp; cases hp
  | posted rs hp => rw [hup] at hp; cases hp
  | delivered hp hout hrq hgot => exact ⟨hout, hrq, hgot⟩

/-- What an end decoded is what the other sent. -/
theorem HsState.got {p q : Party} (h : HsState p q) (hq : q.Ok) {peer : Handshake}
    (hph : q.phase = .got peer) : peer = myHandshake p.config := by
  have hnf : q.phase ≠ .failed := by rw [hph]; nofun
  cases h with
  | unsent rs hp hout hrq =>
    rcases hq.waiting hnf hrq with hw | hw
    · rw [hph] at hw; cases hw
    · rw [hph] at hw; cases hw
  | posted rs hp hout hmem hrq =>
    rcases hq.waiting hnf hrq with hw | hw
    · rw [hph] at hw; cases hw
    · rw [hph] at hw; cases hw
  | delivered hp hout hrq hgot =>
    unfold HsGot at hgot
    rw [hph] at hgot
    exact hgot

end Hord
