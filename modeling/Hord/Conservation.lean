import Mathlib.Data.List.Nodup
import Mathlib.Data.List.Perm.Subperm
import Hord.Frames
import Hord.Party

/- Receive slots are conserved, against any peer. In every run that handles no
   message shorter than an envelope, each receive slot of an open stream is posted,
   completed or held by one message, exactly once (`slots_conserved`). The short
   message is the exception: its handler returns the error without re-posting the
   slot or closing the stream, and the slot is lost (`runt_leaks_slot`). -/
namespace Hord

open Region Prog Transition

instance (wc : Completion) : Decidable (IsRunt wc) :=
  decidable_of_iff (wc.opcode ≠ .recvRdmaWithImm ∧ wc.isSuccess = true ∧ isSend wc.wrId = false ∧
      isWrite wc.wrId = false ∧ wc.byteLen < envelopeLen)
    ⟨fun h => ⟨h.1, h.2.1, h.2.2.1, h.2.2.2.1, h.2.2.2.2⟩,
      fun h => ⟨h.opcode, h.success, h.send, h.write, h.short⟩⟩

/-- The completion a pump takes off the queue: none if the poll is refused. -/
def Connection.taking (c : Connection) : Option Completion :=
  if c.faults.head? = some true then none else c.cq.head?

/-- Pumping does not handle a message shorter than an envelope. -/
def Party.noRunt (p : Party) : Move → Bool
  | .act .pump _ => !p.stream.conn.taking.any fun wc => decide (IsRunt wc)
  | _ => true

theorem Connection.taking_cq {c : Connection} {wc : Completion} (h : c.taking = some wc) :
    ∃ rest, c.cq = wc :: rest := by
  unfold Connection.taking at h
  split at h
  · cases h
  · exact List.head?_eq_some_iff.mp h

/-- Posted receives, leaving out the handshake's own. -/
def Connection.postedWrs (c : Connection) : Nat := c.rq.countP fun w => w.wrId != hsRecvWrId

/-- Every receive slot is posted, completed or held by one message, once. -/
def Party.SlotsKept (p : Party) : Prop :=
  p.phase = .failed ∨ p.stream.peerClosed = true ∨ SlotsFull p.stream

/-- A list of distinct slots below `n` has at most `n` of them. -/
theorem length_le_of_count {l : List Nat} {n : Nat} (hlt : ∀ v ∈ l, v < n)
    (hone : ∀ v ∈ l, l.count v ≤ 1) : l.length ≤ n := by
  have hnodup : l.Nodup := List.nodup_iff_count_le_one.mpr fun v => by
    by_cases hv : v ∈ l
    · exact hone v hv
    · rw [List.count_eq_zero_of_not_mem hv]
      omega
  have hsub : l.Subperm (List.range n) :=
    hnodup.subperm fun v hv => List.mem_range.mpr (hlt v hv)
  have := hsub.length_le
  rwa [List.length_range] at this

/-- Receives posted for distinct slots below `n`. -/
theorem rq_length_le {g : Geometry} {rq : List RecvWr} {n : Nat} (hrq : ∀ w ∈ rq, ∃ slot < n, w = g.slotWr slot)
    (hone : ∀ slot < n, rq.countP (fun w => w.wrId == recvWrId slot) ≤ 1) : rq.length ≤ n := by
  have hmap : ∀ slot, (rq.map RecvWr.wrId).count slot = rq.countP fun w => w.wrId == recvWrId slot := by
    intro slot
    rw [List.count_eq_countP, List.countP_map]
    rfl
  have hlt : ∀ v ∈ rq.map RecvWr.wrId, v < n := by
    intro v hv
    obtain ⟨w, hw, rfl⟩ := List.mem_map.mp hv
    obtain ⟨slot, hslot, rfl⟩ := hrq w hw
    exact hslot
  have := length_le_of_count hlt fun v hv => by
    rw [hmap]
    exact hone v (hlt v hv)
  rwa [List.length_map] at this

section Conserved
variable {p q : Party} {m : Move}

theorem slotCount_le {config : HordConfig} {s : HordStream} (hgeo : Geometry.ofConfig config = .ok s.geo) :
    s.slotCount ≤ recvWrCount config := by
  obtain ⟨-, hpool, hhead, -⟩ := ofConfig_ok hgeo
  have hbase := s.geo.splitBase_eq
  unfold HordStream.slotCount recvWrCount recvBaseCount
  rw [hbase, hpool, hhead]
  split <;> omega

/-- The handshake's receive apart, no more receives are posted than the queue was
    sized for. -/
theorem Party.Ok.posted_le (h : p.Ok) : p.phase = .failed ∨
    p.stream.conn.postedWrs ≤ recvWrCount p.config := by
  have pre : ∀ sent, Pre p.config sent p.stream → p.stream.conn.postedWrs ≤ recvWrCount p.config := by
    intro sent hp
    have hcount := slotCount_le hp.geo
    have hlen : (p.stream.conn.rq.filter fun w => w.wrId != hsRecvWrId).length ≤
        p.stream.geo.splitBase := by
      refine rq_length_le (g := p.stream.geo) (fun w hw => ?_) (fun slot hs => ?_)
      · obtain ⟨hw, hne⟩ := List.mem_filter.mp hw
        rcases hp.rq w hw with rfl | hslot
        · cases hne
        · exact hslot
      · have h1 := hp.slots slot (p.stream.geo.slot_lt hs)
        rw [if_pos hs] at h1
        have h2 : (p.stream.conn.rq.filter fun w => w.wrId != hsRecvWrId).countP
            (fun w => w.wrId == recvWrId slot) ≤ p.stream.conn.posted slot :=
          List.filter_sublist.countP_le
        unfold HordStream.uses at h1
        omega
    unfold Connection.postedWrs
    rw [List.countP_eq_length_filter]
    have hbase : p.stream.geo.splitBase ≤ p.stream.slotCount := Nat.le_add_right _ _
    omega
  unfold Party.Ok at h
  cases hph : p.phase with
  | fresh => rw [hph] at h; exact .inr (pre _ h)
  | exchanging => rw [hph] at h; exact .inr (pre _ h)
  | got peer => rw [hph] at h; exact .inr (pre _ h.1)
  | failed => exact .inl rfl
  | up =>
    rw [hph] at h
    obtain ⟨hi, hgeo⟩ := h
    have hlen : p.stream.conn.rq.length ≤ p.stream.slotCount := by
      refine rq_length_le hi.wf.rq fun slot hs => ?_
      have h1 := hi.books.recv slot (hi.wf.slotCount_lt hs)
      rw [if_pos hs] at h1
      have h2 : p.stream.conn.posted slot ≤ 1 := by
        unfold HordStream.uses at h1
        omega
      exact h2
    have hle : p.stream.conn.postedWrs ≤ p.stream.conn.rq.length := List.countP_le_length
    have := slotCount_le hgeo
    exact .inr (by omega)

/-- A pump whose poll is refused fails, and leaves the stream alone. -/
theorem pump_refused {s : HordStream} (hf : s.conn.faults.head? = some true) :
    wp (Act.run .pump) s fun r t => (∀ v, r ≠ .ok v) ∧ ∃ fs, t = s.setFaults fs := by
  obtain ⟨fs, hfs⟩ := List.head?_eq_some_iff.mp hf
  simp only [Act.run, pumpOnce, wp_bind, dev_wp, Connection.poll, wp_get]
  unfold wp Connection.deviceCall
  simp only [hfs, if_true]
  exact ⟨fun v h => (by cases h), fs, rfl⟩

/-- A pump that returns has taken the oldest completion. -/
theorem pump_cq {s t : HordStream} {v : Res} (hi : Inv s) (hr : Act.run .pump s = .ok v t)
    {wc : Completion} {rest : List Completion} (hcq : s.conn.cq = wc :: rest) : t.conn.cq = rest := by
  have h : wp (Act.run .pump) s fun r t => ∀ v, r = .ok v → t.conn.cq = rest := by
    simp only [Act.run, wp_bind]
    refine wp_mono (pumpOnce_wp hi.wf) ?_
    intro r u hu
    cases r with
    | ok v =>
      cases v with
      | true =>
        obtain ⟨fs, wc', rest', hcq', hh⟩ := hu
        rw [hcq] at hcq'
        cases hcq'
        exact fun _ _ => hh.cq
      | false =>
        rw [hu.1] at hcq
        cases hcq
    | error _ => exact fun v hv => by cases hv
  exact wp_ok h hr v rfl

/-- A call that returns, other than a pump that handles a runt, keeps the slots. -/
theorem act_kept {s t : HordStream} {a : Act} {v : Res} (hi : Inv s)
    (hkept : s.peerClosed = true ∨ SlotsFull s) (hr : a.run s = .ok v t)
    (hno : a = .pump → ∀ wc, s.conn.taking = some wc → ¬IsRunt wc) :
    t.peerClosed = true ∨ SlotsFull t := by
  obtain ⟨os, hrun⟩ := Act.run_reaches hi hr
  have hcq := Hord.run_cq hrun
  refine run_full hrun hi.wf hkept fun wc hwc => ?_
  by_cases ha : a = .pump
  · -- at most the oldest completion is handled
    subst ha
    cases hs : s.conn.cq with
    | nil =>
      rw [hs] at hcq
      rw [(List.append_eq_nil_iff.mp hcq.symm).1] at hwc
      cases hwc
    | cons wc' rest =>
      have hlen := pump_cq hi hr hs
      have hone : handledOf os = [wc'] := by
        rw [hs, hlen, ← List.singleton_append] at hcq
        exact (List.append_cancel_right hcq).symm
      rw [hone, List.mem_singleton] at hwc
      have hpolled : s.conn.faults.head? ≠ some true := fun hf =>
        (wp_ok (pump_refused hf) hr).1 v rfl
      have htaking : s.conn.taking = some wc' := by
        rw [Connection.taking, if_neg hpolled, hs, List.head?_cons]
      rw [hwc]
      exact hno rfl wc' htaking
  · have hsame := Act.run_cq ha hr
    rw [hsame, ← List.nil_append s.conn.cq] at hcq
    rw [← List.append_cancel_right hcq] at hwc
    cases hwc

/-- A call that fails closes the stream or leaves the slots alone, unless it is a
    pump that handles a runt. -/
theorem act_kept_error {s t : HordStream} {a : Act} {e : Fail} (hi : Inv s)
    (hkept : s.peerClosed = true ∨ SlotsFull s) (hr : a.run s = .error e t)
    (hno : a = .pump → ∀ wc, s.conn.taking = some wc → ¬IsRunt wc) :
    t.peerClosed = true ∨ SlotsFull t := by
  rcases wp_error (Act.run_failed a hi.wf) hr with hc | ⟨fs, rfl⟩ | ⟨ha, fs, wc, rest, hcq, hh⟩
  · exact .inl hc
  · exact hkept
  by_cases hf : s.conn.faults.head? = some true
  · -- the poll was refused: whatever is oldest stays on the queue
    subst ha
    obtain ⟨-, gs, rfl⟩ := wp_error (pump_refused hf) hr
    exact hkept
  · have htaking : s.conn.taking = some wc := by
      rw [Connection.taking, if_neg hf, hcq, List.head?_cons]
    have hl : Local (s.setFaults fs) (.handled wc) t := .handle (s.setFaults fs) t wc rest false hcq hh
    have hwf : Wf (s.setFaults fs) := Local.wf hi.wf (.tick s fs)
    rcases hkept with hc | hf
    · exact .inl (hl.stays_closed hc)
    · rcases hl.full hwf hf with hc | ⟨wc', hwc, hrunt⟩ | hf
      · exact .inl hc
      · cases hwc
        exact absurd hrunt (hno ha wc htaking)
      · exact .inr hf

theorem noRunt_pump {a : Act} {r : Except Fail Res} (hg : p.noRunt (.act a r) = true) :
    a = .pump → ∀ wc, p.stream.conn.taking = some wc → ¬IsRunt wc := by
  rintro rfl wc htaking
  simpa [Party.noRunt, htaking] using hg

theorem Pre.full {config : HordConfig} {sent : Bool} {s : HordStream} (h : Pre config sent s) :
    SlotsFull s := by
  intro slot hs
  have hcount : s.slotCount = s.geo.splitBase := by
    unfold HordStream.slotCount
    rw [h.idle.splitRecv]
    simp
  rw [hcount] at hs
  rw [h.slots slot (s.geo.slot_lt hs), if_pos hs]

/-- One step keeps the slots. -/
theorem Party.Step.kept (h : Party.Step p m q) (hok : p.Ok) (hg : p.noRunt m = true)
    (hkept : p.SlotsKept) : q.SlotsKept := by
  have hqok := h.ok hok
  -- before the stream is established the invariant itself says so
  have pre : ∀ sent, Pre q.config sent q.stream → q.SlotsKept := fun sent hp => .inr (.inr hp.full)
  unfold Party.Ok at hok hqok
  cases h with
  | env t he =>
    have hcase : p.phase = .failed ∨ p.phase = .up ∨ ∃ sent, Pre p.config sent t := by
      revert hqok
      cases p.phase with
      | fresh => exact fun hp => .inr (.inr ⟨_, hp⟩)
      | exchanging => exact fun hp => .inr (.inr ⟨_, hp⟩)
      | got peer => exact fun hp => .inr (.inr ⟨_, hp.1⟩)
      | failed => exact fun _ => .inl rfl
      | up => exact fun _ => .inr (.inl rfl)
    rcases hcase with hph | hph | ⟨sent, hp⟩
    · exact .inl hph
    · rw [hph] at hok
      rcases hkept with hf | hc | hf
      · rw [hph] at hf; cases hf
      · obtain ⟨_, _, _, _, _, rfl, -⟩ := he.fields
        exact .inr (.inl hc)
      · exact .inr (.inr (he.full hok.1.wf hf))
    · exact pre sent hp
  | hello t hph hr => exact pre _ hqok
  | wait t hph hr =>
    rw [hph] at hqok
    exact pre _ hqok
  | peer t peer hph hr => exact pre _ hqok.1
  | apply t peer hph hr =>
    rw [hph] at hok
    exact .inr (.inr (hok.1.established hok.2 hr).2)
  | broke t e hr => exact .inl rfl
  | act t a v hph hr =>
    rw [hph] at hok
    rcases hkept with hf | hk
    · rw [hph] at hf; cases hf
    · exact .inr (act_kept hok.1 hk hr (noRunt_pump hg))
  | actErr t a e hph hr =>
    rw [hph] at hok
    rcases hkept with hf | hk
    · rw [hph] at hf; cases hf
    · exact .inr (act_kept_error hok.1 hk hr (noRunt_pump hg))

end Conserved

/-- Receive-slot conservation: in every run from a freshly built endpoint, against
    any peer and device, that handles no message shorter than an envelope. -/
theorem slots_conserved {p q : Party} {ms : List Move} (hinit : p.Init)
    (hrun : Run (fun p m q => Party.Step p m q ∧ p.noRunt m = true) p ms q) :
    q.phase = .failed ∨
      (q.stream.peerClosed = true ∨
        ∀ slot < q.stream.slotCount,
          q.stream.conn.posted slot + q.stream.conn.completed slot + q.stream.heldIn slot = 1) ∧
      q.stream.conn.postedWrs ≤ recvWrCount q.config := by
  have hinv : q.Ok ∧ q.SlotsKept := by
    refine hrun.inv (I := fun p => p.Ok ∧ p.SlotsKept) (fun s m t hi hs => ?_) ⟨hinit.ok, ?_⟩
    · exact ⟨hs.1.ok hi.1, hs.1.kept hi.1 hs.2 hi.2⟩
    · have hok := hinit.ok
      unfold Party.Ok at hok
      rw [hinit.1] at hok
      exact .inr (.inr hok.full)
  rcases hinv.2 with hf | hk
  · exact .inl hf
  · rcases hinv.1.posted_le with hf | hle
    · exact .inl hf
    · exact .inr ⟨hk, hle⟩

/-- One receive buffer and one send buffer, of 16 bytes each. -/
def tinyConfig : HordConfig where
  maxMessageSize := 16
  recvPoolSize := 1
  sendPoolSize := 1
  zeroCopy := false
  splitMode := false
  splitCredits := 0

/-- A handshake with a peer of the same configuration. -/
def tinySetup : List Cmd :=
  [.setup, .carry, .reap ⟨hsSendWrId, 0, .send, 0, 0⟩,
    .land (myHandshake tinyConfig).encode ⟨hsRecvWrId, handshakeLen, .recv, 0, 0⟩, .setup, .setup]

/-- A run up to the first message, which fills its slot. -/
theorem slots_conserved_tiny : ∃ p ms q, p.Init ∧
    Run (fun p m q => Party.Step p m q ∧ p.noRunt m = true) p ms q ∧
    q.stream.heldIn 0 = 1 ∧
    (q.phase = .failed ∨
      (q.stream.peerClosed = true ∨
        ∀ slot < q.stream.slotCount,
          q.stream.conn.posted slot + q.stream.conn.completed slot + q.stream.heldIn slot = 1) ∧
      q.stream.conn.postedWrs ≤ recvWrCount q.config) := by
  obtain ⟨p, ms, q, hinit, hrun, hq⟩ := Party.launch_run Party.noRunt tinyConfig
    (tinySetup ++ [.land ((Envelope.mk 2 0 0).encode ++ [7, 8]) ⟨0, 10, .recv, 0, 0⟩, .act .pump])
    (fun q => q.stream.heldIn 0 == 1) (by decide +kernel)
  exact ⟨p, ms, q, hinit, hrun, by simpa using hq, slots_conserved hinit hrun⟩

/-- A message of four bytes is handled with an error, and its slot is in none of the
    three places although the stream stays open. -/
theorem runt_leaks_slot : ¬∀ (p q : Party) (ms : List Move), p.Init → Run Party.Step p ms q →
    q.phase = .failed ∨
      (q.stream.peerClosed = true ∨
        ∀ slot < q.stream.slotCount,
          q.stream.conn.posted slot + q.stream.conn.completed slot + q.stream.heldIn slot = 1) ∧
      q.stream.conn.postedWrs ≤ recvWrCount q.config := by
  intro h
  obtain ⟨p, ms, q, hinit, hrun, hq⟩ := Party.launch_run (fun _ _ => true) tinyConfig
    (tinySetup ++ [.land [1, 2, 3, 4] ⟨0, 4, .recv, 0, 0⟩, .act .pump])
    (fun q => q.phase = .up && !q.stream.peerClosed && decide (0 < q.stream.slotCount) &&
      q.stream.conn.posted 0 + q.stream.conn.completed 0 + q.stream.heldIn 0 == 0)
    (by decide +kernel)
  simp only [Bool.and_eq_true, decide_eq_true_eq, Bool.not_eq_true', beq_iff_eq] at hq
  obtain ⟨⟨⟨hup, hopen⟩, hpos⟩, hnone⟩ := hq
  rcases h p q ms hinit (hrun.mono fun _ _ _ hs => hs.1) with hf | ⟨hc | hone, -⟩
  · rw [hup] at hf
    cases hf
  · rw [hopen] at hc
    cases hc
  · have := hone 0 hpos
    omega

end Hord
