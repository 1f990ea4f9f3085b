import Hord.Accounts
import Hord.Drained

/- Back-pressure on one-sided writes. A gather write is refused with `WouldBlock` while the
   send queue or the peer's window is full, and its drivers retry it as long as a data send
   or a write is outstanding. On an open stream the two tests they make are exact
   (`Inv.sendsOutstanding_iff`, `Inv.writesPending_iff`), so a refused request that could
   be admitted has something to wait for, and a stall reported is permanent
   (`stall_exact`). The drivers do not look at the peer's window, though: a request that can
   never be admitted is first waited for (`waits_in_vain`). -/
namespace Hord

open Prog Transition

section Flags
variable {s t : HordStream}

/-- Some data send is unacknowledged exactly if one is on the queue. -/
theorem Inv.sendsOutstanding_iff (hi : Inv s) (hopen : s.peerClosed = false) :
    s.sendsOutstanding = true ↔ 0 < s.conn.sqCount isDataId := by
  rw [HordStream.sendsOutstanding, decide_eq_true_eq]
  constructor
  · intro hlt
    by_contra hnone
    -- every slot is free, so the free list is no shorter than the pool
    have hall : List.range s.geo.sendPool ⊆ s.sendFree := by
      intro slot hslot
      have hlt := List.mem_range.mp hslot
      have hlim := s.geo.sendSlot_lt hlt.le
      have hbook := (hi.books.send slot hlim).2 hopen
      rw [if_pos hlt] at hbook
      have hkind := sendWrId_kind hlim
      have hle : s.conn.sqCount (· == sendWrId slot) ≤ s.conn.sqCount isDataId := by
        rw [sqCount_eq, sqCount_eq]
        refine List.countP_mono_left fun id _ hid => ?_
        rw [beq_iff_eq.mp hid, isDataId, hkind.1, hkind.2.1]
        rfl
      exact List.count_pos_iff.mp (by omega)
    have hlen := (List.nodup_range.subperm hall).length_le
    rw [List.length_range] at hlen
    omega
  · intro hpos
    have hle := hi.data_le
    omega

theorem Inv.writesPending_iff (hi : Inv s) (hopen : s.peerClosed = false) :
    s.writesPending = true ↔ 0 < s.conn.sqCount isWrite := by
  rw [HordStream.writesPending, decide_eq_true_eq, hi.books.writes.2 hopen]

/-- No write pending, no immediate either. -/
theorem Inv.imms_idle (hi : Inv s) (hopen : s.peerClosed = false) (hidle : s.writesPending = false) :
    s.immOutstanding = 0 := by
  have hle := sqCount_isImmId_le s.conn
  rw [hi.books.writes.2 hopen, hi.books.imms.2 hopen] at hle
  rw [HordStream.writesPending, decide_eq_false_iff_not] at hidle
  omega

/-- A request that fits the pool and is refused with nothing outstanding carries an immediate
    the peer has no window for. -/
theorem Refused.stalled {ws : List SendWr} {imm : Option Nat} (h : Refused s ws imm .wouldBlock) (hi : Inv s)
    (hsends : s.sendsOutstanding = false) (hwrites : s.writesPending = false) :
    imm.isSome = true ∧ s.peerSplitCredits = 0 := by
  cases h with
  | full hopen hpool hfull =>
    have himm := hi.imms_idle hopen hwrites
    rw [HordStream.sendsOutstanding, decide_eq_false_iff_not] at hsends
    rw [HordStream.writesPending, decide_eq_false_iff_not] at hwrites
    rcases hfull with hslots | hwin
    · omega
    · exact ⟨hwin.1, by omega⟩

theorem Refused.not_admitted {ws : List SendWr} {imm : Option Nat} {kind : ErrorKind} (h : Refused s ws imm kind) :
    ¬Admitted s ws imm := by
  intro hadm
  cases h with
  | closed hclosed => exact absurd (hadm.opened.symm.trans hclosed) (by decide)
  | tooMany _ hmany => exact absurd hadm.pool (Nat.not_le.mpr hmany)
  | full _ _ hfull =>
    rcases hfull with hslots | ⟨hsome, hwin⟩
    · exact absurd hadm.slots (Nat.not_le.mpr hslots)
    · exact absurd (hadm.window hsome) (Nat.not_lt.mpr hwin)

/-- With nothing outstanding every other request of that size is admitted. -/
theorem Inv.admits {ws : List SendWr} {imm : Option Nat} (hi : Inv s) (hopen : s.peerClosed = false)
    (hsends : s.sendsOutstanding = false) (hwrites : s.writesPending = false)
    (hpool : ws.length ≤ s.geo.sendPool) (hwin : ¬(imm.isSome = true ∧ s.peerSplitCredits = 0)) :
    Admitted s ws imm := by
  have himm := hi.imms_idle hopen hwrites
  rw [HordStream.sendsOutstanding, decide_eq_false_iff_not] at hsends
  rw [HordStream.writesPending, decide_eq_false_iff_not] at hwrites
  refine ⟨hopen, hpool, by omega, fun hsome => ?_⟩
  rw [himm]
  exact Nat.pos_of_ne_zero fun hzero => hwin ⟨hsome, hzero⟩

end Flags

/-! What stays as it is from establishment on. -/

/-- The peer's window, the pools and the device's limit. -/
def HordStream.terms (s : HordStream) : Nat × Geometry × Nat := (s.peerSplitCredits, s.geo, s.conn.maxSendSge)

section Terms
variable {s t : HordStream} {p q : Party}

theorem Local.terms {o : Obs} (hl : Local s o t) : t.terms = s.terms := by
  cases hl with
  | handle _ wc rest ok hcq hh =>
    exact hh.unseen (f := HordStream.terms) ⟨fun _ => rfl, fun _ _ => rfl, fun _ _ _ _ _ => rfl, fun _ _ _ _ _ => rfl⟩
  | _ => rfl

theorem Reaches.terms (h : Reaches s t) : t.terms = s.terms := by
  obtain ⟨os, hrun⟩ := h
  exact hrun.inv (I := fun u => u.terms = s.terms) (fun _ _ _ hu hl => hl.terms.trans hu) rfl

theorem Env.terms (h : Env s t) : t.terms = s.terms := by
  cases h with
  | land r rs bytes wc =>
    obtain ⟨recv, split, send, hs, heq, -⟩ := landed_eq (s := s) r rs bytes wc
    rw [heq]
    rfl
  | _ => rfl

theorem Party.Step.terms {m : Hord.Move} (h : Party.Step p m q) (hok : p.Ok) (hup : p.phase = .up) :
    q.stream.terms = p.stream.terms := by
  rw [Party.Ok, hup] at hok
  cases h with
  | env t he => exact he.terms
  | act t a v hph hr => exact (Act.run_reaches hok.1 hr).terms
  | actErr t a e hph hr => exact (Act.run_reaches_error hok.1 hr).1.terms
  | broke t e hr => simp_all
  | _ => simp_all

theorem terms_run {ms : List Hord.Move} (hrun : Run Party.Step p ms q) (hok : p.Ok) (hup : p.phase = .up) :
    q.Ok ∧ q.phase = .up ∧ q.stream.terms = p.stream.terms := by
  refine hrun.inv (I := fun u => u.Ok ∧ u.phase = .up ∧ u.stream.terms = p.stream.terms)
    (fun u m v hu hs => ⟨hs.ok hu.1, ?_, (hs.terms hu.1 hu.2.1).trans hu.2.2⟩) ⟨hok, hup, rfl⟩
  exact (hs.stays_up hu.2.1).1

end Terms

/-! Waiting for what is outstanding. -/

/-- A step that only completes what is outstanding: of the device, or a reaping that
    succeeds, with every completion so far a success. -/
def Party.settles (p : Party) (m : Hord.Move) : Prop :=
  (m = .env ∨ ∃ b, m = .act .pump (.ok (.flag b))) ∧ ∀ wc ∈ p.stream.conn.cq, wc.isSuccess = true

section Settling
variable {p q : Party} {segments : List WriteSegment} {peerAddr peerRkey : Nat} {imm : Option Nat}

theorem Handled.stays_open {s t : HordStream} {wc : Completion} (h : Handled s wc true t)
    (hok : wc.isSuccess = true) : t.peerClosed = s.peerClosed := by
  cases h with
  | immFailed _ hbad => rw [hbad] at hok; cases hok
  | writeFailed _ _ hbad => rw [hbad] at hok; cases hok
  | failed _ _ hbad => rw [hbad] at hok; cases hok
  | sent =>
    rw [HordStream.reclaimed]
    split <;> rfl
  | _ => rfl

theorem Party.Step.stays_open {m : Hord.Move} (h : Party.Step p m q) (hok : p.Ok) (hm : p.settles m)
    (hup : p.phase = .up) : q.stream.peerClosed = p.stream.peerClosed := by
  rw [Party.Ok, hup] at hok
  rcases hm with ⟨rfl | ⟨b, rfl⟩, hall⟩
  · cases h with
    | env t he => exact he.closed
  · cases h with
    | act t a v hph hr =>
      have hspec : wp (Act.run .pump) p.stream fun r t => ∀ b, r = .ok (.flag b) →
          t.peerClosed = p.stream.peerClosed := by
        rw [Act.run, wp_bind]
        refine wp_mono (pumpOnce_wp hok.1.wf) ?_
        intro r t hr
        cases r with
        | ok v =>
          cases v with
          | true =>
            obtain ⟨fs, wc, rest, hcq, hh⟩ := hr
            intro b hb
            exact hh.stays_open (hall wc (by rw [hcq]; exact List.mem_cons_self ..))
          | false =>
            obtain ⟨-, fs, rfl⟩ := hr
            exact fun _ _ => rfl
        | error _ => exact fun b hb => by cases hb
      exact wp_ok hspec hr b rfl

theorem settled_run {ms : List Hord.Move} (hrun : Run (fun p m q => Party.Step p m q ∧ p.settles m) p ms q)
    (hok : p.Ok) (hup : p.phase = .up) : q.stream.peerClosed = p.stream.peerClosed := by
  have hinv : (q.Ok ∧ q.phase = .up) ∧ q.stream.peerClosed = p.stream.peerClosed := by
    refine hrun.inv (I := fun u => (u.Ok ∧ u.phase = .up) ∧ u.stream.peerClosed = p.stream.peerClosed)
      (fun u m v hu hs => ⟨⟨hs.1.ok hu.1.1, (hs.1.stays_up hu.1.2).1⟩, ?_⟩) ⟨⟨hok, hup⟩, rfl⟩
    exact (hs.1.stays_open hu.1.1 hs.2 hu.1.2).trans hu.2
  exact hinv.2

/-- An immediate the peer has no window for is never posted. -/
theorem Party.Step.no_window {r : Except Fail Res}
    (h : Party.Step p (.act (.beginWrite segments peerAddr peerRkey imm) r) q) (himm : imm.isSome = true)
    (hcred : p.stream.peerSplitCredits = 0) : r ≠ .ok .unit := by
  rintro rfl
  obtain ⟨⟨-, hnone, -⟩ | hadm, -⟩ := h.begun
  · rw [hnone] at himm
    cases himm
  · have hlt := hadm.window himm
    rw [hcred] at hlt
    exact absurd hlt (Nat.not_lt_zero _)

/-- An admitted request is posted, unless the device refuses it. -/
theorem Party.Step.admitted {r : Except Fail Res}
    (h : Party.Step p (.act (.beginWrite segments peerAddr peerRkey imm) r) q)
    (hadm : Admitted p.stream (writeWrs p.stream.conn.maxSendSge segments peerAddr peerRkey imm) imm) :
    r = .ok .unit ∨ ∃ e, r = .error (.io e) ∧ e.kind = .other := by
  have hbegun := h.begun
  match r with
  | .ok v =>
    obtain ⟨-, -, hr⟩ := h.outcome
    have hunit := Act.outcome_wp (beginWrite_unit segments peerAddr peerRkey imm (s := p.stream))
    exact .inl (congrArg _ (hunit v hr.symm))
  | .error (.io e) =>
    refine .inr ⟨e, rfl, ?_⟩
    rcases hbegun with ⟨hrefused, -⟩ | ⟨hother, -⟩
    · exact absurd hadm hrefused.not_admitted
    · exact hother
  | .error (.panic _) => exact hbegun.elim

end Settling

/-! The two drivers. -/

/-- The error of a stall. -/
def backPressured : Fail := .other "RDMA write back-pressured with nothing in flight to drain"

/-- A data send or a write is on the send queue. -/
def HordStream.InFlight (s : HordStream) : Prop :=
  0 < s.conn.sqCount isDataId ∨ 0 < s.conn.sqCount isWrite

/-- The immediate of the batch being delivered. -/
def Gather.immHere (g : Gather) : Option Nat := if g.start + g.count = g.segments.length then g.imm else none

/-- No later call of it is ever posted. -/
def Party.NeverPosts (p : Party) (a : Act) : Prop :=
  ∀ ms q r q', Run Party.Step p ms q → Party.Step q (.act a r) q' → r ≠ .ok .unit

section Drivers
variable {s : HordStream} {p q : Party}

/-- What a refusal with `WouldBlock` means for the stream the drivers then test. -/
theorem Party.Step.pressed {g : Gather} {e : IoError} (h : Party.Step p (.act g.act (.error (.io e))) q)
    (hok : p.Ok) (hup : p.phase = .up) (hkind : e.kind = .wouldBlock) :
    q.stream = p.stream ∧ ((q.stream.sendsOutstanding || q.stream.writesPending) = true ∧ q.stream.InFlight ∨
      (q.stream.sendsOutstanding || q.stream.writesPending) = false ∧ g.immHere.isSome = true ∧
        q.stream.peerSplitCredits = 0) := by
  rw [Party.Ok, hup] at hok
  rcases h.begun with ⟨hrefused, hsame⟩ | ⟨hother, -⟩
  · rw [hsame]
    refine ⟨rfl, ?_⟩
    rw [hkind] at hrefused
    have hopen : p.stream.peerClosed = false := by
      cases hrefused with
      | full hopen => exact hopen
    cases hflags : p.stream.sendsOutstanding || p.stream.writesPending with
    | true =>
      rw [Bool.or_eq_true, hok.1.sendsOutstanding_iff hopen, hok.1.writesPending_iff hopen] at hflags
      exact .inl ⟨rfl, hflags⟩
    | false =>
      rw [Bool.or_eq_false_iff] at hflags
      exact .inr ⟨rfl, hrefused.stalled hok.1 hflags.1 hflags.2⟩
  · rw [hkind] at hother
    cases hother

theorem never_posts {g : Gather} (hok : p.Ok) (hup : p.phase = .up) (himm : g.immHere.isSome = true)
    (hcred : p.stream.peerSplitCredits = 0) : p.NeverPosts g.act := by
  intro ms q r q' hrun hstep
  obtain ⟨-, -, hterms⟩ := terms_run hrun hok hup
  exact hstep.no_window himm ((congrArg Prod.fst hterms).trans hcred)

/-- The blocking driver waits if something is outstanding and reports a stall otherwise. -/
theorem Point.next_pressed (g : Gather) {e : IoError} (hkind : e.kind = .wouldBlock) :
    (Point.post g).next s (.error (.io e)) =
      if s.sendsOutstanding || s.writesPending then .cont (.waiting (.post g) (.poll 0))
      else .ret (.error backPressured) := by
  rw [Point.next, if_pos hkind, drainWrites]
  cases s.sendsOutstanding <;> cases s.writesPending <;> rfl

/-- And so does the async one. -/
theorem Drive.posted_pressed (u : Drive) {e : IoError} (hout : (u.gather.act.outcome u.stream).1 = .error (.io e))
    (hkind : e.kind = .wouldBlock) : u.posted.stream = (u.gather.act.outcome u.stream).2 ∧
      u.posted.pc = if u.posted.stream.sendsOutstanding || u.posted.stream.writesPending then .pressed
        else .resolved (.error (some backPressured)) := by
  generalize hnew : (u.gather.act.outcome u.stream).2 = t
  have hposted : u.posted = if t.sendsOutstanding || t.writesPending then (u.setStream t).await .pressed
      else (u.setStream t).resolve (.error (some backPressured)) := by
    simp only [Drive.posted, hout, if_pos hkind, hnew]
    show (if !t.sendsOutstanding && !t.writesPending then _ else _) = _
    cases t.sendsOutstanding <;> cases t.writesPending <;> rfl
  have hstream : u.posted.stream = t := by
    rw [hposted]
    split <;> rfl
  rw [hstream, hposted]
  refine ⟨rfl, ?_⟩
  split <;> rfl

/-- The moves of an owner's endpoint are those of an endpoint. -/
theorem Owner.party_run {o o' : Owner} {ls : List Doing} (h : Run Owner.Step o ls o') :
    ∃ ms, Run Party.Step o.party ms o'.party := by
  refine h.inv (I := fun u => ∃ ms, Run Party.Step o.party ms u.party) (fun u l v hu hs => ?_) ⟨[], .nil _⟩
  obtain ⟨ms, hrun⟩ := hu
  cases hs with
  | enter => exact ⟨ms, hrun⟩
  | leave => exact ⟨ms, hrun⟩
  | act c j took r q hcall hq => exact ⟨_, hrun.snoc hq⟩
  | other m q hq hm => exact ⟨_, hrun.snoc hq⟩

theorem Owner.Step.acted {o o' : Owner} {a : Act} {r : Except Fail Res} {c : Call} {j : Job} {took : Bool}
    (h : Owner.Step o (.move (.act a r)) o') (hcall : o.call = some ⟨c, .cont j, took⟩) :
    j.act = a ∧ Party.Step o.party (.act a r) o'.party ∧ ∃ took', o'.call = some ⟨c, j.next o'.stream r, took'⟩ := by
  generalize hl : Doing.move (.act a r) = l at h
  cases h with
  | enter => cases hl
  | leave => cases hl
  | other m q hq hm =>
    cases hl
    cases hm
  | act c' j' took' r' q hcall' hq =>
    obtain ⟨rfl, rfl⟩ := Move.act.inj (Doing.move.inj hl)
    rw [hcall] at hcall'
    cases hcall'
    exact ⟨rfl, hq, _, rfl⟩

end Drivers

/-- Back-pressure, in every reachable state of an established stream and for every request
    that fits the send pool. Refused with nothing outstanding, it carries an immediate and
    the peer's window is zero, and it is never posted later on. Once everything outstanding
    has completed successfully it is admitted, but for that case. A driver whose request is
    refused with `WouldBlock` waits exactly if a data send or a write is on the queue, and
    the stall it reports otherwise never clears. -/
theorem stall_exact :
    (∀ (p q : Party) (ms : List Hord.Move), p.Init → Run Party.Step p ms q → q.phase = .up →
      ∀ (segments : List WriteSegment) (peerAddr peerRkey : Nat) (imm : Option Nat),
      plannedCount q.stream.conn.maxSendSge segments imm ≤ q.stream.geo.sendPool →
      (∀ e q', Party.Step q (.act (.beginWrite segments peerAddr peerRkey imm) (.error (.io e))) q' →
        e.kind = .wouldBlock → q.stream.sendsOutstanding = false → q.stream.writesPending = false →
        imm.isSome = true ∧ q.stream.peerSplitCredits = 0 ∧
          q.NeverPosts (.beginWrite segments peerAddr peerRkey imm)) ∧
      ∀ ns q', q.stream.peerClosed = false →
        Run (fun p m q => Party.Step p m q ∧ p.settles m) q ns q' →
        q'.stream.conn.sqCount isDataId = 0 → q'.stream.conn.sqCount isWrite = 0 →
        ¬(imm.isSome = true ∧ q.stream.peerSplitCredits = 0) → ∀ r q'',
          Party.Step q' (.act (.beginWrite segments peerAddr peerRkey imm) r) q'' →
          r = .ok .unit ∨ ∃ e, r = .error (.io e) ∧ e.kind = .other) ∧
    (∀ (o₀ o o' : Owner) (ls : List Doing) (c : Call) (g : Gather) (took : Bool) (e : IoError), o₀.Init →
      Run Owner.Step o₀ ls o → o.call = some ⟨c, .cont (.doing (.post g)), took⟩ →
      Owner.Step o (.move (.act g.act (.error (.io e)))) o' → e.kind = .wouldBlock → ∃ took',
        o'.call = some ⟨c, .cont (.waiting (.post g) (.poll 0)), took'⟩ ∧ o'.stream.InFlight ∨
        o'.call = some ⟨c, .ret (.error backPressured), took'⟩ ∧ g.immHere.isSome = true ∧
          o'.stream.peerSplitCredits = 0 ∧ o'.party.NeverPosts g.act) ∧
    ∀ (config : HordConfig) (segments : List WriteSegment) (peerAddr peerRkey : Nat) (imm : Option Nat)
      (u₀ u v : Drive) (ls : List DriveEvent) (e : IoError), u₀.Init config segments peerAddr peerRkey imm →
      Run Drive.Step u₀ ls u → Drive.Step u .posted v →
      (u.gather.act.outcome u.stream).1 = .error (.io e) → e.kind = .wouldBlock →
        v.pc = .pressed ∧ v.stream.InFlight ∨
        v.pc = .resolved (.error (some backPressured)) ∧ u.gather.immHere.isSome = true ∧
          v.stream.peerSplitCredits = 0 ∧ Party.NeverPosts ⟨config, v.stream, .up⟩ u.gather.act := by
  refine ⟨?_, ?_, ?_⟩
  · intro p q ms hinit hrun hup segments peerAddr peerRkey imm hpool
    have hok : q.Ok := hrun.inv (fun _ _ _ hp hs => hs.ok hp) hinit.ok
    have hi := hinit.inv hrun hup
    constructor
    · intro e q' hstep hkind hsends hwrites
      have hstall : imm.isSome = true ∧ q.stream.peerSplitCredits = 0 := by
        rcases hstep.begun with ⟨hrefused, -⟩ | ⟨hother, -⟩
        · rw [hkind] at hrefused
          exact hrefused.stalled hi hsends hwrites
        · rw [hkind] at hother
          cases hother
      refine ⟨hstall.1, hstall.2, fun ns u r u' hlater hcall => ?_⟩
      obtain ⟨-, -, hterms⟩ := terms_run hlater hok hup
      exact hcall.no_window hstall.1 ((congrArg Prod.fst hterms).trans hstall.2)
    · intro ns q' hopen hsettle hdata hwrite hwin r q'' hstep
      obtain ⟨hok', hup', hterms⟩ := terms_run (hsettle.mono fun _ _ _ hs => hs.1) hok hup
      have hopen' : q'.stream.peerClosed = false := (settled_run hsettle hok hup).trans hopen
      rw [Party.Ok, hup'] at hok'
      obtain ⟨hcred, hgeo⟩ := Prod.mk.inj hterms
      obtain ⟨hgeo, hsge⟩ := Prod.mk.inj hgeo
      have hsends : q'.stream.sendsOutstanding = false := by
        rw [← Bool.not_eq_true, hok'.1.sendsOutstanding_iff hopen', hdata]
        exact Nat.lt_irrefl 0
      have hwrites : q'.stream.writesPending = false := by
        rw [← Bool.not_eq_true, hok'.1.writesPending_iff hopen', hwrite]
        exact Nat.lt_irrefl 0
      refine hstep.admitted (hok'.1.admits hopen' hsends hwrites ?_ (by rw [hcred]; exact hwin))
      rw [writeWrs_length, hgeo, hsge]
      exact hpool
  · intro o₀ o o' ls c g took e hinit hrun hcall hstep hkind
    obtain ⟨ms, hparty⟩ := Owner.party_run hrun
    have hok : o.party.Ok := hparty.inv (fun _ _ _ hp hs => hs.ok hp) hinit.1.ok
    obtain ⟨-, hq, took', hnext⟩ := hstep.acted hcall
    obtain ⟨hup, -, -⟩ := hq.outcome
    obtain ⟨-, hpressed⟩ := hq.pressed hok hup hkind
    rw [Job.next, Point.next_pressed g hkind] at hnext
    refine ⟨took', ?_⟩
    rcases hpressed with ⟨hflags, hflight⟩ | ⟨hflags, himm, hcred⟩
    · rw [Owner.stream, if_pos hflags] at hnext
      exact .inl ⟨hnext, hflight⟩
    · rw [Owner.stream, if_neg (by rw [hflags]; decide)] at hnext
      exact .inr ⟨hnext, himm, hcred, never_posts (hq.ok hok) (hq.stays_up hup).1 himm hcred⟩
  · intro config segments peerAddr peerRkey imm u₀ u v ls e hinit hrun hstep hout hkind
    have hok := hrun.inv (I := fun u => Party.Ok ⟨config, u.stream, .up⟩) (fun _ _ _ hu hs => hs.ok hu) hinit.1
    cases hstep with
    | post hp hpc =>
      obtain ⟨hstream, hnext⟩ := u.posted_pressed hout hkind
      have hq := Act.outcome_step (p := ⟨config, u.stream, .up⟩) u.gather.act rfl
      rw [hout, ← hstream] at hq
      obtain ⟨-, hpressed⟩ := hq.pressed hok rfl hkind
      rcases hpressed with ⟨hflags, hflight⟩ | ⟨hflags, himm, hcred⟩
      · rw [if_pos hflags] at hnext
        exact .inl ⟨hnext, hflight⟩
      · rw [if_neg (by rw [hflags]; decide)] at hnext
        exact .inr ⟨hnext, himm, hcred, never_posts (hq.ok hok) rfl himm hcred⟩

/-- The device, or a reaping that succeeds. -/
def Move.reaps : Hord.Move → Bool
  | .env => true
  | .act .pump (.ok (.flag _)) => true
  | _ => false

def Party.settling (p : Party) (m : Hord.Move) : Bool := m.reaps && p.stream.conn.cq.all Completion.isSuccess

theorem Party.settles_of {p : Party} {m : Hord.Move} (h : p.settling m = true) : p.settles m := by
  rw [Party.settling, Bool.and_eq_true, List.all_eq_true] at h
  refine ⟨?_, h.2⟩
  have hm := h.1
  unfold Move.reaps at hm
  split at hm
  · exact .inl rfl
  · exact .inr ⟨_, rfl⟩
  · cases hm

/-- A data message takes the only slot; once it is acknowledged the write is posted. -/
theorem stall_exact_one : ∃ p ms q ns q', p.Init ∧ Run Party.Step p ms q ∧ q.stream.sendsOutstanding = true ∧
    Run (fun p m q => Party.Step p m q ∧ p.settles m) q ns q' ∧
    ∀ r q'', Party.Step q' (.act (.beginWrite [⟨0, 0, 4⟩] 0 0 none) r) q'' →
      r = .ok .unit ∨ ∃ e, r = .error (.io e) ∧ e.kind = .other := by
  obtain ⟨p, ms, q, hinit, hrun, hq⟩ := Party.launch_run (fun _ _ => true) tinyConfig
    (tinySetup ++ [.act (.tryWrite (List.replicate 8 7))])
    (fun q => decide (q.phase = .up) && q.stream.sendsOutstanding && !q.stream.peerClosed &&
      decide (plannedCount q.stream.conn.maxSendSge [⟨0, 0, 4⟩] none ≤ q.stream.geo.sendPool) &&
      (q.script Party.settling [.carry, .reap ⟨sendWrId 0, 0, .send, 0, 0⟩, .act .pump]).any fun q' =>
        q'.stream.conn.sqCount isDataId == 0 && q'.stream.conn.sqCount isWrite == 0) (by decide +kernel)
  simp only [Bool.and_eq_true, decide_eq_true_eq, Bool.not_eq_true', Option.any_eq_true, beq_iff_eq] at hq
  obtain ⟨⟨⟨⟨hup, hsends⟩, hopen⟩, hpool⟩, q', hscript, hdata, hwrite⟩ := hq
  have hsteps : Run Party.Step p ms q := hrun.mono fun _ _ _ hs => hs.1
  obtain ⟨ns, hsettle⟩ := Party.script_run _ hscript
  have hsettles : Run (fun p m q => Party.Step p m q ∧ p.settles m) q ns q' :=
    hsettle.mono fun _ _ _ hs => ⟨hs.1, Party.settles_of hs.2⟩
  exact ⟨p, ms, q, ns, q', hinit, hsteps, hsends, hsettles,
    (stall_exact.1 p q ms hinit hsteps hup [⟨0, 0, 4⟩] 0 0 none hpool).2 ns q' hopen hsettles hdata hwrite (by simp)⟩

/-- The gather that the owner is about to post, if it fails, with its error. -/
def Owner.pressed (o : Owner) : Option (Gather × IoError × HordStream) :=
  match o.call with
  | some ⟨_, .cont (.doing (.post g)), _⟩ =>
    match g.act.outcome o.stream with
    | (.error (.io e), t) => some (g, e, t)
    | _ => none
  | _ => none

theorem Owner.pressed_call {o : Owner} {g : Gather} {e : IoError} {t : HordStream} (h : o.pressed = some (g, e, t)) :
    ∃ c took, o.call = some ⟨c, .cont (.doing (.post g)), took⟩ ∧
      g.act.outcome o.party.stream = (.error (.io e), t) := by
  unfold Owner.pressed at h
  split at h
  · next c g' took hcall =>
    split at h
    · next e' t' hout =>
      cases h
      exact ⟨c, took, hcall, hout⟩
    · cases h
  · cases h

/-- With a data message unacknowledged, the blocking driver waits on behalf of an immediate
    that the peer has no window for and that is never posted. -/
theorem waits_in_vain : ¬∀ (o₀ o o' : Owner) (ls : List Doing) (c : Call) (g : Gather) (took : Bool) (e : IoError),
    o₀.Init → Run Owner.Step o₀ ls o → o.call = some ⟨c, .cont (.doing (.post g)), took⟩ →
    Owner.Step o (.move (.act g.act (.error (.io e)))) o' → e.kind = .wouldBlock →
    (∃ w took', o'.call = some ⟨c, .cont (.waiting (.post g) w), took'⟩) → ¬o'.party.NeverPosts g.act := by
  intro h
  obtain ⟨o₀, ls, o, hinit, hrun, hgood⟩ := Owner.launch_run (fun _ _ => true) threeConfig
    (threeSetup.map .cmd ++ [.enter (.act (.tryWrite (List.replicate 8 7))), .act, .leave,
      .enter (.rdmaWriteGatherAll [] 0 0 (some 5))])
    (fun _ o => decide (o.party.phase = .up) && o.pressed.any fun (x : Gather × IoError × HordStream) =>
      decide (x.2.1.kind = .wouldBlock) && x.2.2.sendsOutstanding && decide (x.2.2.peerSplitCredits = 0) &&
        x.1.immHere.isSome) (by decide +kernel)
  rw [Bool.and_eq_true, decide_eq_true_eq, Option.any_eq_true] at hgood
  obtain ⟨hup, ⟨g, e, t⟩, hpressed, hgood⟩ := hgood
  simp only [Bool.and_eq_true, decide_eq_true_eq] at hgood
  obtain ⟨⟨⟨hkind, hsends⟩, hcred⟩, himm⟩ := hgood
  obtain ⟨c, took, hcall, hout⟩ := Owner.pressed_call hpressed
  have hq := Act.outcome_step g.act hup
  rw [hout] at hq
  have hsteps : Run Owner.Step o₀ ls o := hrun.mono fun _ _ _ hs => hs.1
  obtain ⟨ms, hparty⟩ := Owner.party_run hsteps
  have hok : o.party.Ok := hparty.inv (fun _ _ _ hp hs => hs.ok hp) hinit.1.ok
  have hwait : (Job.doing (.post g)).next t (.error (.io e)) = .cont (.waiting (.post g) (.poll 0)) := by
    rw [Job.next, Point.next_pressed g hkind, if_pos (by rw [hsends]; rfl)]
  exact h o₀ o _ ls c g took e hinit hsteps hcall (.act o c (.doing (.post g)) took _ _ hcall hq) hkind
    ⟨.poll 0, _, congrArg (fun n => some (Running.mk c n _)) hwait⟩ (never_posts (hq.ok hok) hup himm hcred)

end Hord
