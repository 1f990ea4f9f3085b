import Hord.Windows

/- The messages an endpoint holds. Lengths come from the peer and are clamped twice, by
   the completion's byte count and by the slot; entries are read in fragments, in any
   order with the calls. `Arrived` traces each entry back to the pump that queued it;
   `held_in_slots` says that every entry stays inside its slot, whoever the peer is. -/
namespace Hord

open Region Prog Transition

/-- In a run from `p`, the message `m` was put into `q`'s queue by a pump, as long as its
    envelope and its completion said, and clamped to the slot. -/
def Arrived (p : Party) (ms : List Hord.Move) (q : Party) (m : ReadyMsg) : Prop :=
  ∃ ms₁ ms₂ u v wc rest, ms = ms₁ ++ .act .pump (.ok (.flag true)) :: ms₂ ∧ Run Party.Step p ms₁ u ∧
    Party.Step u (.act .pump (.ok (.flag true))) v ∧ Run Party.Step v ms₂ q ∧
    u.stream.conn.cq = wc :: rest ∧ slotOf wc.wrId = m.slot ∧
    m.stop = (u.stream.geo.place m.slot).2 + envelopeLen +
      min (u.stream.envelopeAt m.slot).length.toNat (min wc.byteLen u.stream.geo.msgSize - envelopeLen)

section Held
variable {s t : HordStream}

/-- Every message held in `t` is one held in `s`, perhaps partly read. -/
def Descends (s t : HordStream) : Prop :=
  ∀ m ∈ t.rxReady, ∃ m' ∈ s.rxReady, m'.slot = m.slot ∧ m'.stop = m.stop

theorem Descends.of_sub (h : ∀ m ∈ t.rxReady, m ∈ s.rxReady) : Descends s t :=
  fun m hm => ⟨m, h m hm, rfl, rfl⟩

/-- Apart from handling a completion, no elementary change adds a message. -/
theorem Local.descends {o : Obs} (h : Local s o t) (ho : handledOf [o] = []) : Descends s t := by
  cases h with
  | handle _ wc rest ok hcq hh => cases ho
  | take msg rest k hready hk =>
    intro m hm
    rw [hready]
    rcases List.mem_cons.mp hm with rfl | hm
    · exact ⟨msg, List.mem_cons_self .., rfl, rfl⟩
    · exact ⟨m, List.mem_cons_of_mem _ hm, rfl, rfl⟩
  | finish msg rest hready =>
    refine .of_sub fun m hm => ?_
    rw [hready]
    exact List.mem_cons_of_mem _ hm
  | finishLost msg rest hready =>
    refine .of_sub fun m hm => ?_
    rw [hready]
    exact List.mem_cons_of_mem _ hm
  | _ => exact .of_sub fun m hm => hm

theorem run_descends {os : List Obs} (hr : Run Local s os t) (ho : handledOf os = []) :
    Descends s t := by
  induction hr with
  | nil => exact .of_sub fun m hm => hm
  | @snoc u v os o hr hl ih =>
    rw [handledOf_append, List.append_eq_nil_iff] at ho
    intro m hm
    obtain ⟨m₁, hm₁, hslot₁, hstop₁⟩ := hl.descends ho.2 m hm
    obtain ⟨m₂, hm₂, hslot₂, hstop₂⟩ := ih ho.1 m₁ hm₁
    exact ⟨m₂, hm₂, hslot₂.trans hslot₁, hstop₂.trans hstop₁⟩

/-- Handling a completion adds at most the message it reports. -/
theorem Handled.holds {wc : Completion} {ok : Bool} (h : Handled s wc ok t) {m : ReadyMsg}
    (hm : m ∈ t.rxReady) : m ∈ s.rxReady ∨ ok = true ∧ slotOf wc.wrId = m.slot ∧
      m.stop = (s.geo.place m.slot).2 + envelopeLen +
        min (s.envelopeAt m.slot).length.toNat (min wc.byteLen s.geo.msgSize - envelopeLen) := by
  have reclaimed : ∀ u : HordStream, (u.reclaimed wc.wrId).rxReady = u.rxReady := by
    intro u
    rw [HordStream.reclaimed]
    split <;> rfl
  cases h with
  | failed =>
    left
    split at hm
    · rw [reclaimed] at hm
      exact hm
    · exact hm
  | sent =>
    left
    rw [reclaimed] at hm
    exact hm
  | held hop hw hok hs hn hp =>
    rcases List.mem_append.mp hm with hm | hm
    · exact .inl hm
    · rw [List.mem_singleton] at hm
      have hnot : (s.envelopeAt (slotOf wc.wrId)).isCreditOnly = false := by
        cases hc : (s.envelopeAt (slotOf wc.wrId)).isCreditOnly with
        | false => rfl
        | true => simp [HordStream.payloadLen, hc] at hp
      have hlen : (s.granted wc).payloadLen wc = min (s.envelopeAt (slotOf wc.wrId)).length.toNat
          (min wc.byteLen s.geo.msgSize - envelopeLen) := by
        show s.payloadLen wc = _
        rw [HordStream.payloadLen]
        simp [hnot]
      right
      rw [hm]
      refine ⟨rfl, rfl, ?_⟩
      show (s.geo.place (slotOf wc.wrId)).2 + envelopeLen + (s.granted wc).payloadLen wc = _
      rw [hlen]
  | _ => exact .inl hm

end Held

section Arrival
variable {p q u v : Party} {ms : List Hord.Move} {m : Hord.Move}

theorem Arrived.extend {msg msg' : ReadyMsg} (h : Arrived p ms u msg) (hs : Party.Step u m v)
    (hslot : msg.slot = msg'.slot) (hstop : msg.stop = msg'.stop) : Arrived p (ms ++ [m]) v msg' := by
  obtain ⟨ms₁, ms₂, a, b, wc, rest, rfl, hpre, hpump, hpost, hcq, hid, hend⟩ := h
  refine ⟨ms₁, ms₂ ++ [m], a, b, wc, rest, by simp, hpre, hpump, hpost.snoc hs, hcq, hid.trans hslot, ?_⟩
  rw [← hslot, ← hstop]
  exact hend

/-- A call other than a pump only reads the messages held. -/
theorem Party.Step.descends {a : Act} {r : Except Fail Res} (h : Party.Step u (.act a r) v)
    (hok : u.Ok) (ha : a ≠ .pump) : Descends u.stream v.stream := by
  obtain ⟨hup, -, hinv, os, hrun⟩ := h.reaches hok
  have hkeep := Act.keeps_cq ha
  have hcq : v.stream.conn.cq = u.stream.conn.cq := by
    cases h with
    | act t _ w hph hr => exact hkeep.ok hr
    | actErr t _ e hph hr => exact hkeep.error hr
  refine run_descends hrun ?_
  have hhandled := Hord.run_cq hrun
  rw [hcq, ← List.nil_append u.stream.conn.cq] at hhandled
  exact (List.append_cancel_right hhandled).symm

/-- A pump that handles the oldest completion, and whether it returned. -/
theorem pump_handled {s t : HordStream} {r : Except Fail Res} (hwf : Wf s)
    (h : (∃ v, r = .ok v ∧ Act.run .pump s = .ok v t) ∨ ∃ e, r = .error e ∧ Act.run .pump s = .error e t) :
    t.rxReady = s.rxReady ∨ ∃ fs wc rest ok, s.conn.cq = wc :: rest ∧
      Handled ((s.setCq rest).setFaults fs) wc ok t ∧ (ok = true → r = .ok (.flag true)) := by
  have hpump : wp (Act.run .pump) s fun r t => t.rxReady = s.rxReady ∨ ∃ fs wc rest ok,
      s.conn.cq = wc :: rest ∧ Handled ((s.setCq rest).setFaults fs) wc ok t ∧
        (ok = true → r = .ok (.flag true)) := by
    simp only [Act.run, wp_bind]
    refine wp_mono (pumpOnce_wp hwf) ?_
    intro r t hr
    cases r with
    | ok v =>
      cases v with
      | true =>
        obtain ⟨fs, wc, rest, hcq, hh⟩ := hr
        exact .inr ⟨fs, wc, rest, true, hcq, hh, fun _ => rfl⟩
      | false =>
        obtain ⟨-, fs, rfl⟩ := hr
        exact .inl rfl
    | error e =>
      cases e with
      | io _ =>
        rcases hr with ⟨fs, -, rfl⟩ | ⟨fs, wc, rest, hcq, hh⟩
        · exact .inl rfl
        · exact .inr ⟨fs, wc, rest, false, hcq, hh, by simp⟩
      | panic _ => exact hr.elim
  rcases h with ⟨v, rfl, hr⟩ | ⟨e, rfl, hr⟩
  · exact wp_ok hpump hr
  · exact wp_error hpump hr

/-- One call: whatever is held afterwards was held before, or has just arrived. -/
theorem Party.Step.arrivals_act {a : Act} {r : Except Fail Res} (h : Party.Step u (.act a r) v)
    (hok : u.Ok) (hrun : Run Party.Step p ms u)
    (hu : ∀ msg ∈ u.stream.rxReady, Arrived p ms u msg) :
    ∀ msg ∈ v.stream.rxReady, Arrived p (ms ++ [.act a r]) v msg := by
  intro msg hmsg
  by_cases ha : a = .pump
  · subst ha
    have hinv := (h.reaches hok).2.2.1
    have hcall : (∃ w, r = .ok w ∧ Act.run .pump u.stream = .ok w v.stream) ∨
        ∃ e, r = .error e ∧ Act.run .pump u.stream = .error e v.stream := by
      cases h with
      | act t _ w hph hr => exact .inl ⟨w, rfl, hr⟩
      | actErr t _ e hph hr => exact .inr ⟨e, rfl, hr⟩
    rcases pump_handled hinv.wf hcall with hsame | ⟨fs, wc, rest, ok, hcq, hh, hres⟩
    · rw [hsame] at hmsg
      exact (hu msg hmsg).extend h rfl rfl
    · rcases hh.holds hmsg with hold | ⟨hok', hslot, hstop⟩
      · exact (hu msg hold).extend h rfl rfl
      · cases hres hok'
        exact ⟨ms, [], u, v, wc, rest, rfl, hrun, h, .nil v, hcq, hslot, hstop⟩
  · obtain ⟨msg', hmsg', hslot, hstop⟩ := h.descends hok ha msg hmsg
    exact (hu msg' hmsg').extend h hslot hstop

theorem Party.Step.arrivals (h : Party.Step u m v) (hok : u.Ok) (hrun : Run Party.Step p ms u)
    (hu : u.phase = .up → ∀ msg ∈ u.stream.rxReady, Arrived p ms u msg) :
    v.phase = .up → ∀ msg ∈ v.stream.rxReady, Arrived p (ms ++ [m]) v msg := by
  cases h with
  | env t he =>
    intro hup msg hmsg
    have hready : t.rxReady = u.stream.rxReady := by
      obtain ⟨_, _, _, _, _, heq, -⟩ := he.fields
      rw [heq]
    have hmsg' : msg ∈ u.stream.rxReady := hready ▸ hmsg
    exact (hu hup msg hmsg').extend (.env u t he) rfl rfl
  | hello t hph hr => simp
  | wait t hph hr =>
    intro hup
    rw [hph] at hup
    cases hup
  | peer t k hph hr => simp
  | apply t k hph hr =>
    -- nothing is held when the stream is established
    rw [Party.Ok, hph] at hok
    obtain ⟨-, -, hready, -⟩ := idle_fields hok.1.idle
    obtain ⟨-, -, watch, fs, rfl⟩ := wp_ok (applyPeer_wp u.stream k) hr
    have hsame : (u.stream.finished k watch fs).rxReady = u.stream.rxReady := by
      simp only [HordStream.finished]
      split <;> rfl
    intro _ msg hmsg
    have hmsg' : msg ∈ (u.stream.finished k watch fs).rxReady := hmsg
    rw [hsame, hready] at hmsg'
    cases hmsg'
  | broke t e hr => simp
  | act t a w hph hr =>
    exact fun _ => (Party.Step.act u t a w hph hr).arrivals_act hok hrun (hu hph)
  | actErr t a e hph hr =>
    exact fun _ => (Party.Step.actErr u t a e hph hr).arrivals_act hok hrun (hu hph)

theorem arrivals_run (hinit : p.Init) (hrun : Run Party.Step p ms q) (hup : q.phase = .up) :
    ∀ msg ∈ q.stream.rxReady, Arrived p ms q msg := by
  have hinv : q.Ok ∧ Run Party.Step p ms q ∧
      (q.phase = .up → ∀ msg ∈ q.stream.rxReady, Arrived p ms q msg) := by
    refine hrun.inv_trace (I := fun ms u => u.Ok ∧ Run Party.Step p ms u ∧
      (u.phase = .up → ∀ msg ∈ u.stream.rxReady, Arrived p ms u msg)) (fun ms u m v hu hs => ?_)
      ⟨hinit.ok, .nil p, fun hf => ?_⟩
    · exact ⟨hs.ok hu.1, hu.2.1.snoc hs, hs.arrivals hu.1 hu.2.1 hu.2.2⟩
    · rw [hinit.1] at hf
      cases hf
  exact hinv.2.2 hup

end Arrival

/-- No two messages are held in one slot. -/
theorem Inv.held_nodup {s : HordStream} (h : Inv s) : (s.rxReady.map ReadyMsg.slot).Nodup := by
  refine List.nodup_iff_count_le_one.mpr fun slot => ?_
  by_cases hmem : slot ∈ s.rxReady.map ReadyMsg.slot
  · obtain ⟨m, hm, rfl⟩ := List.mem_map.mp hmem
    have hbook := h.books.recv m.slot (h.wf.slotCount_lt (h.wf.ready m hm).slot_lt)
    have hcount : (s.rxReady.map ReadyMsg.slot).count m.slot = s.heldIn m.slot := by
      rw [List.count_eq_countP, List.countP_map]
      rfl
    rw [if_pos (h.wf.ready m hm).slot_lt, HordStream.uses] at hbook
    omega
  · rw [List.count_eq_zero_of_not_mem hmem]
    exact Nat.zero_le _

/-- Whatever the peer sends and the device reports, in every state of every run: the
    messages held lie behind the envelope of their own slot, inside the region the slot
    resolves to; no two share a slot; each is as long as its envelope and its completion
    said when it arrived, clamped to the slot; no call panics; and a read of a non-empty
    buffer returns no byte only at the end of a closed stream. -/
theorem held_in_slots {p q : Party} {ms : List Hord.Move} (hinit : p.Init)
    (hrun : Run Party.Step p ms q) (hup : q.phase = .up) :
    (∀ m ∈ q.stream.rxReady,
      (q.stream.geo.place m.slot).2 + envelopeLen ≤ m.start ∧ m.start < m.stop ∧
      m.stop ≤ (q.stream.geo.place m.slot).2 + q.stream.geo.msgSize ∧
      (q.stream.geo.place m.slot).2 + q.stream.geo.msgSize ≤
        (q.stream.region (q.stream.geo.place m.slot).1).length ∧
      recvSlot m.slot q.stream = .ok (q.stream.geo.place m.slot) q.stream ∧ Arrived p ms q m) ∧
    (q.stream.rxReady.map ReadyMsg.slot).Nodup ∧
    (∀ (a : Act) (t : HordStream) (msg : String), a.run q.stream ≠ .error (.panic msg) t) ∧
    (∀ (n : Nat) (t : HordStream), 0 < n → tryRead n q.stream = .ok (some []) t →
      q.stream.rxReady = [] ∧ q.stream.peerClosed = true) := by
  have hok : q.Ok := hrun.inv (fun _ _ _ hi hs => hs.ok hi) hinit.ok
  rw [Party.Ok, hup] at hok
  have hinv := hok.1
  refine ⟨fun m hm => ?_, hinv.held_nodup, fun a t msg hr => ?_, fun n t hn hr => ?_⟩
  · have hready := hinv.wf.ready m hm
    have hres : recvSlot m.slot q.stream = .ok (q.stream.geo.place m.slot) q.stream := by
      show (if _ then _ else _ : M (Mr × Nat)) q.stream = _
      rw [if_pos (slot_resolves hready.slot_lt)]
      rfl
    exact ⟨hready.start_ge, hready.start_lt, hready.stop_le, hinv.wf.slot_in hready.slot_lt, hres,
      arrivals_run hinit hrun hup m hm⟩
  · exact wp_error (a.run_path hinv.wf) hr
  · rcases (wp_ok (tryRead_path n hinv.wf) hr).2 rfl with ⟨-, hz | hend⟩
    · omega
    · exact hend

/-- An oversized envelope: the peer announces 1000 bytes in a message of ten. -/
theorem held_in_slots_clamped : ∃ p ms q m, p.Init ∧ Run Party.Step p ms q ∧ q.phase = .up ∧
    q.stream.rxReady = [m] ∧ m.stop = 10 ∧ Arrived p ms q m := by
  obtain ⟨p, ms, q, hinit, hrun, hq⟩ := Party.launch_run (fun _ _ => true) tinyConfig
    (tinySetup ++ [.land ((Envelope.mk 1000 0 0).encode ++ [7, 8]) ⟨0, 10, .recv, 0, 0⟩, .act .pump])
    (fun q => q.phase = .up && q.stream.rxReady == [⟨0, 8, 10⟩]) (by decide +kernel)
  rw [Bool.and_eq_true, decide_eq_true_eq, beq_iff_eq] at hq
  have hstep : Run Party.Step p ms q := hrun.mono fun _ _ _ h => h.1
  obtain ⟨hheld, -⟩ := held_in_slots hinit hstep hq.1
  obtain ⟨-, -, -, -, -, harr⟩ := hheld ⟨0, 8, 10⟩ (by rw [hq.2]; exact List.mem_singleton_self _)
  exact ⟨p, ms, q, ⟨0, 8, 10⟩, hinit, hstep, hq.1, hq.2, rfl, harr⟩

end Hord
