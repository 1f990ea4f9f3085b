import Hord.Batches
import Hord.Stall

/- Gather writes that fail half-way. A gather that needs more requests than the send queue
   holds is delivered in batches, each admitted on its own. A request that cannot be posted
   closes the stream, but a batch refused at admission and an error of the completion loop
   do not. So a call can fail on an open stream with earlier batches delivered
   (`gather_fails_midway`): a segment of more than `send_pool` GiB behind another one, an
   immediate the peer has no window for, a refused poll, a runt. Without these every write
   that fails on an open stream has posted nothing (`midway_failure_closes`). -/
namespace Hord

open Prog Transition

/-! The completion loop. -/

/-- The next step of a completion loop has no device call refused and no runt to handle. -/
def HordStream.steady (s : HordStream) : Act → Bool
  | .pump => !s.refuses && !s.conn.cq.head?.any fun wc => decide (IsRunt wc)
  | .pollCmDisconnect => !s.cmWatch || !s.refuses
  | _ => !s.refuses

section Polling
variable {s t : HordStream}

theorem not_refused (h : s.refuses = false) {fs : List Bool} : s.conn.faults ≠ true :: fs := by
  intro hfs
  rw [HordStream.refuses, hfs] at h
  cases h

/-- A handler that fails on anything but a runt has closed the stream. -/
theorem Handled.failure_closes {wc : Completion} (h : Handled s wc false t) (hrunt : ¬IsRunt wc) :
    t.peerClosed = true := by
  cases h with
  | immLost => rfl
  | runt hop hw hok hs hn =>
    have henv := s.geo.envelope_lt
    exact absurd ⟨hop, hok, hs, hw, by omega⟩ hrunt
  | emptyLost => rfl

/-- A steady step of a completion loop fails only by closing the stream. -/
theorem Act.polls_steady {a : Act} (ha : a.polls = true) (hwf : Wf s) (h : s.steady a = true) :
    wp a.run s fun r t => match r with
      | .ok _ => True
      | .error _ => t.peerClosed = true := by
  cases a with
  | pump =>
    simp only [HordStream.steady, Bool.and_eq_true, Bool.not_eq_true'] at h
    simp only [Act.run, wp_bind]
    refine wp_mono (pumpOnce_wp hwf) ?_
    intro r t hr
    cases r with
    | ok _ => trivial
    | error e =>
      cases e with
      | io _ =>
        rcases hr with ⟨fs, hfs, -⟩ | ⟨fs, wc, rest, hcq, hh⟩
        · exact absurd hfs (not_refused h.1)
        · have hrunt : ¬IsRunt wc := by simpa [hcq] using h.2
          exact hh.failure_closes hrunt
      | panic _ => exact hr.elim
  | pollCmDisconnect =>
    simp only [Act.run, Hord.pollCmDisconnect, wp_bind, wp_get, wp_ite, dev_wp]
    split
    · trivial
    · next hwatch =>
      have hf : s.refuses = false := by
        simp only [HordStream.steady] at h
        simpa [hwatch] using h
      refine checkDisconnect_wp (fun _ _ => trivial) (fun fs e rest _ => ?_)
        (fun _ _ hfs => absurd hfs (not_refused hf))
      cases e.gone <;> trivial
  | pollCmEvent =>
    have hf : s.refuses = false := by simpa [HordStream.steady] using h
    simp only [Act.run, Hord.pollCmEvent, wp_bind, wp_ite, dev_wp]
    refine checkDisconnect_wp (fun _ _ => trivial) (fun fs e rest _ => ?_)
      (fun _ _ hfs => absurd hfs (not_refused hf))
    cases e.gone <;> trivial
  | armCq =>
    have hf : s.refuses = false := by simpa [HordStream.steady] using h
    simp only [Act.run, wp_bind, dev_wp]
    exact deviceCall_wp (fun _ => trivial) (fun _ hfs => absurd hfs (not_refused hf))
  | _ => cases ha

/-- A step of a completion loop posts nothing. -/
theorem Act.polls_out {a : Act} (ha : a.polls = true) (hwf : Wf s) :
    wp a.run s fun _ t => t.conn.out = s.conn.out := by
  cases a with
  | pump =>
    simp only [Act.run, wp_bind]
    refine wp_mono (pumpOnce_wp hwf) ?_
    intro r t hr
    cases r with
    | ok v =>
      cases v with
      | true =>
        obtain ⟨fs, wc, rest, -, hh⟩ := hr
        exact hh.sends.1
      | false =>
        obtain ⟨-, fs, rfl⟩ := hr
        rfl
    | error e =>
      cases e with
      | io _ =>
        rcases hr with ⟨fs, -, rfl⟩ | ⟨fs, wc, rest, -, hh⟩
        · rfl
        · exact hh.sends.1
      | panic _ => exact hr.elim
  | pollCmDisconnect =>
    simp only [Act.run, Hord.pollCmDisconnect, wp_bind, wp_get, wp_ite, dev_wp]
    split
    · exact rfl
    · refine checkDisconnect_wp (fun _ _ => rfl) (fun fs e rest _ => ?_) (fun _ _ _ => rfl)
      cases e.gone <;> rfl
  | pollCmEvent =>
    simp only [Act.run, Hord.pollCmEvent, wp_bind, wp_ite, dev_wp]
    refine checkDisconnect_wp (fun _ _ => rfl) (fun fs e rest _ => ?_) (fun _ _ _ => rfl)
    cases e.gone <;> rfl
  | armCq =>
    simp only [Act.run, wp_bind, dev_wp]
    exact deviceCall_wp (fun _ => rfl) fun _ _ => rfl
  | _ => cases ha

end Polling

/-! Posting a batch. -/

/-- The batch was cut off by the planner; an empty gather has one empty batch. -/
def Gather.Planned (s : HordStream) (g : Gather) : Prop :=
  g.segments = [] ∨ s.nextGatherBatch g.segments g.start = .ok (g.count, g.bytes)

/-- The batch starts with a segment the send pool can carry, and the peer has a window for
    the immediate it brings. -/
def Gather.Fits (s : HordStream) (g : Gather) : Prop :=
  (∀ seg ∈ (g.segments.drop g.start).head?, seg.len ≤ s.geo.sendPool * writeWrMax) ∧
    (g.immHere.isSome = true → 0 < s.peerSplitCredits)

/-- The requests of the batch. -/
def Gather.wrs (s : HordStream) (g : Gather) : List SendWr :=
  writeWrs s.conn.maxSendSge ((g.segments.drop g.start).take g.count) ((g.peerAddr + g.base) % 2 ^ 64)
    g.peerRkey g.immHere

section Posting
variable {s t : HordStream} {g : Gather}

theorem Gather.Planned.congr (h : g.Planned s) (hterms : t.terms = s.terms) : g.Planned t := by
  simp only [HordStream.terms, Prod.mk.injEq] at hterms
  refine h.imp_right fun hbatch => ?_
  rw [HordStream.nextGatherBatch, hterms.2.1, hterms.2.2]
  exact hbatch

/-- A batch that fits takes no more requests than the send pool holds. -/
theorem Gather.Fits.pool (h : g.Fits s) (hplanned : g.Planned s) (hpos : 0 < s.geo.sendPool) :
    (g.wrs s).length ≤ s.geo.sendPool := by
  have hplan : (Hord.plan ((g.segments.drop g.start).take g.count) s.conn.maxSendSge).length ≤ s.geo.sendPool := by
    cases hhead : (g.segments.drop g.start).head? with
    | none =>
      rw [List.head?_eq_none_iff.mp hhead, List.take_nil]
      exact Nat.zero_le _
    | some seg =>
      rcases hplanned with hnil | hbatch
      · rw [hnil, List.drop_nil] at hhead
        cases hhead
      · exact nextBatchLen_fits hbatch hhead hpos (h.1 seg hhead)
  rw [Gather.wrs, writeWrs_length, plannedCount]
  split
  · exact hpos
  · exact hplan

/-- What posting a batch can come to: it is admitted or refused as a whole, or the stream is
    closed; with something outstanding a refusal to wait is not final. -/
inductive Batched (s : HordStream) (g : Gather) : Except Fail Res → HordStream → Prop
  | ok (v : Res) (t : HordStream) (hpool : s.conn.out ≠ t.conn.out → 0 < s.geo.sendPool) : Batched s g (.ok v) t
  | closed (e : IoError) (t : HordStream) (h : t.peerClosed = true) (hkind : e.kind ≠ .wouldBlock)
      (hpool : s.conn.out ≠ t.conn.out → 0 < s.geo.sendPool) : Batched s g (.error (.io e)) t
  | tooMany (e : IoError) (h : s.geo.sendPool < (g.wrs s).length) (hkind : e.kind ≠ .wouldBlock) :
      Batched s g (.error (.io e)) s
  | pressed (e : IoError) (hkind : e.kind = .wouldBlock)
      (h : (s.sendsOutstanding || s.writesPending) = true) : Batched s g (.error (.io e)) s
  | stalled (e : IoError) (hkind : e.kind = .wouldBlock)
      (h : (s.sendsOutstanding || s.writesPending) = false) (himm : g.immHere.isSome = true)
      (hwindow : s.peerSplitCredits = 0) : Batched s g (.error (.io e)) s

theorem Gather.batched (g : Gather) (hi : Inv s) {r : Except Fail Res} (h : g.act.outcome s = (r, t)) :
    Batched s g r t := by
  have hbegun : Begun s (g.wrs s) g.immHere (r.map fun _ => ()) t := by
    have hspec : wp g.act.run s fun r t => Begun s (g.wrs s) g.immHere (r.map fun _ => ()) t :=
      beginWrite_begun _ _ _ _ s
    have hout := Act.outcome_wp hspec
    rw [h] at hout
    exact hout
  -- what is admitted fits the pool, and what posts something is not empty
  have pool : ∀ {k : Nat}, Admitted s (g.wrs s) g.immHere →
      s.conn.out ≠ s.conn.out ++ (g.wrs s).take k → 0 < s.geo.sendPool := by
    intro k hadm hne
    by_contra hzero
    have hnil : g.wrs s = [] := List.eq_nil_of_length_eq_zero (by have := hadm.pool; omega)
    rw [hnil, List.take_nil, List.append_nil] at hne
    exact hne rfl
  match r with
  | .ok v =>
    obtain ⟨hadm, fs, rfl⟩ := hbegun
    refine .ok v _ fun hne => ?_
    have hout : ((List.foldl HordStream.wrote s (g.wrs s)).setFaults fs).conn.out =
        s.conn.out ++ (g.wrs s).take (g.wrs s).length := by
      rw [List.take_length, HordStream.setFaults, foldl_wrote_conn]
    rw [hout] at hne
    rcases hadm with ⟨hnil, -, -⟩ | hadm
    · rw [hnil, List.take_nil, List.append_nil] at hne
      exact absurd rfl hne
    · exact pool hadm hne
  | .error (.io e) =>
    rcases hbegun with ⟨hrefused, rfl⟩ | ⟨hother, hadm, k, hk, fs, rfl⟩
    · generalize hkind : e.kind = kind at hrefused
      cases hrefused with
      | closed hclosed =>
        exact .closed e t hclosed (by rw [hkind]; decide) fun hne => absurd rfl hne
      | tooMany hopen hmany => exact .tooMany e hmany (by rw [hkind]; decide)
      | full hopen hpool hfull =>
        cases hflags : t.sendsOutstanding || t.writesPending with
        | true => exact .pressed e hkind hflags
        | false =>
          rw [Bool.or_eq_false_iff] at hflags
          obtain ⟨himm, hwindow⟩ := (Refused.full hopen hpool hfull).stalled hi hflags.1 hflags.2
          exact .stalled e hkind (by rw [hflags.1, hflags.2]; rfl) himm hwindow
    · refine .closed e _ rfl (by rw [hother]; decide) fun hne => pool (k := k) hadm ?_
      have hout : (((List.foldl HordStream.wrote s ((g.wrs s).take k)).setFaults fs).close).conn.out =
          s.conn.out ++ (g.wrs s).take k := by
        rw [HordStream.close, HordStream.setFaults, foldl_wrote_conn]
      rw [hout] at hne
      exact hne
  | .error (.panic _) => exact hbegun.elim

end Posting

/-! The blocking calls. -/

/-- A failed write is excused: the stream is closed, or the call posted nothing. -/
def Excused (s : HordStream) (wrote : Bool) : Prop := s.peerClosed = true ∨ wrote = false

/-- A batch that fits once a request is posted is refused for good only if excused. -/
theorem Gather.excused {s : HordStream} {g : Gather} {wrote : Bool}
    (hfits : wrote = true → s.peerClosed = false → g.Fits s)
    (h : g.Fits s → wrote = true → False) : Excused s wrote := by
  cases hwr : wrote with
  | false => exact .inr rfl
  | true =>
    cases hclosed : s.peerClosed with
    | true => exact .inl hclosed
    | false => exact (h (hfits hwr hclosed) hwr).elim

/-- Where a gather write stands; `wrote` when one of its requests has been posted. -/
def Next.Whole (s : HordStream) (wrote : Bool) : Next → Prop
  | .cont (.doing (.post g)) => g.Planned s
  | .cont (.waiting (.post g) _) => g.Planned s
  | .cont (.waiting (.drain _ (.ok ())) _) => True
  | .cont (.waiting (.drain _ (.error _)) _) => Excused s wrote
  | .cont _ => False
  | .ret (.ok _) => True
  | .ret (.error _) => Excused s wrote

/-- The jobs of a gather write. -/
inductive Job.Whole (s : HordStream) (wrote : Bool) : Job → Prop
  | post (g : Gather) (hplanned : g.Planned s) : Job.Whole s wrote (.doing (.post g))
  | waitPost (g : Gather) (w : Wait) (hplanned : g.Planned s) : Job.Whole s wrote (.waiting (.post g) w)
  | drain (g : Gather) (w : Wait) : Job.Whole s wrote (.waiting (.drain g (.ok ())) w)
  | drainFailed (g : Gather) (e : Fail) (w : Wait) (hex : Excused s wrote) :
      Job.Whole s wrote (.waiting (.drain g (.error e)) w)

theorem Next.Whole.job {s : HordStream} {wrote : Bool} {j : Job} (h : (Next.cont j).Whole s wrote) :
    j.Whole s wrote := by
  match j, h with
  | .doing (.post g), hplanned => exact .post g hplanned
  | .waiting (.post g) w, hplanned => exact .waitPost g w hplanned
  | .waiting (.drain g (.ok ())) w, _ => exact .drain g w
  | .waiting (.drain g (.error e)) w, hex => exact .drainFailed g e w hex

/-- The next step of a gather write that has posted a request: the batch it is about to post
    fits, or the completion loop it is in is steady. -/
def Job.Fits (s : HordStream) : Job → Prop
  | .doing (.post g) => g.Fits s
  | .waiting _ w => s.steady w.act = true
  | _ => True

section Blocking
variable {s t : HordStream} {wrote : Bool}

theorem nextBatchLen_ok {segments : List WriteSegment} (hne : segments ≠ []) (limit budget : Nat) :
    ∃ r, nextBatchLen segments limit budget = .ok r := by
  cases segments with
  | nil => exact absurd rfl hne
  | cons seg rest =>
    rw [nextBatchLen]
    split
    · exact ⟨_, rfl⟩
    · exact ⟨_, rfl⟩

theorem Gather.loop_whole (g : Gather) : (g.loop s).Whole s wrote := by
  rw [Gather.loop]
  split
  · next hlt =>
    have hne : g.segments.drop g.start ≠ [] := by
      rw [Ne, List.drop_eq_nil_iff]
      omega
    obtain ⟨⟨count, bytes⟩, hbatch⟩ := nextBatchLen_ok hne s.conn.maxSendSge s.geo.sendPool
    have hnext : s.nextGatherBatch g.segments g.start = .ok (count, bytes) := hbatch
    rw [hnext]
    exact .inr hnext
  · trivial

theorem drainWrites_whole (g : Gather) {posted : Except Fail Unit}
    (h : ∀ e, posted = .error e → Excused s wrote) : (drainWrites s g posted).Whole s wrote := by
  unfold drainWrites
  split
  · match posted with
    | .ok () => trivial
    | .error e => exact h e rfl
  · match posted with
    | .error e => exact h e rfl
    | .ok () =>
      dsimp only
      split
      · next hclosed => exact .inl hclosed
      · exact Gather.loop_whole _

theorem Call.start_whole (segments : List WriteSegment) (peerAddr peerRkey : Nat) (imm : Option Nat) :
    ((Call.rdmaWriteGatherAll segments peerAddr peerRkey imm).start s).Whole s wrote := by
  rw [Call.start]
  split
  · exact .inl rfl
  · exact Gather.loop_whole _

/-- Whether the call has posted a request by now. -/
def posts (wrote : Bool) (s t : HordStream) : Bool := wrote || decide (s.conn.out ≠ t.conn.out)

theorem posts_same (h : t.conn.out = s.conn.out) : posts wrote s t = wrote := by
  rw [posts, h]
  simp

/-- One step of a gather write. -/
theorem Next.Whole.step {j : Job} {r : Except Fail Res} (h : (Next.cont j).Whole s wrote) (hi : Inv s)
    (hpos : wrote = true → 0 < s.geo.sendPool) (hstep : j.act.outcome s = (r, t))
    (hfits : wrote = true → s.peerClosed = false → j.Fits s) :
    (j.next t r).Whole t (posts wrote s t) ∧ (posts wrote s t = true → 0 < s.geo.sendPool) := by
  have hout : ∀ {Q : Except Fail Res → HordStream → Prop}, wp j.act.run s Q → Q r t := by
    intro Q hq
    have := Act.outcome_wp hq
    rwa [hstep] at this
  have hreach : Reaches s t := Act.outcome_reaches hi.wf hstep
  have stays : Excused s wrote → Excused t wrote := fun hx => hx.imp_left hreach.stays_closed
  -- a wait posts nothing; if it fails the stream is closed, or nothing was posted before
  have wait : ∀ (l : Loop) (w : Wait), j = .waiting l w → (l.next t).Whole t wrote →
      (∀ w', (Next.cont (.waiting l w')).Whole t wrote) →
      (j.next t r).Whole t (posts wrote s t) ∧ (posts wrote s t = true → 0 < s.geo.sendPool) := by
    rintro l w rfl hl hw
    have hsame : posts wrote s t = wrote := posts_same (hout (Act.polls_out w.act_polls hi.wf))
    rw [hsame]
    refine ⟨?_, hpos⟩
    have hflag := hout w.act_flag
    cases r with
    | ok v =>
      obtain ⟨b, rfl⟩ := hflag v rfl
      simp only [Job.next]
      split
      · exact hw _
      · exact hl
    | error e =>
      show Excused t wrote
      cases hwr : wrote with
      | false => exact .inr rfl
      | true =>
        cases hclosed : s.peerClosed with
        | true => exact .inl (hreach.stays_closed hclosed)
        | false => exact .inl (hout (Act.polls_steady w.act_polls hi.wf (hfits hwr hclosed)))
  cases h.job with
  | waitPost g w hplanned =>
    have hnext : g.Planned t := Gather.Planned.congr hplanned hreach.terms
    exact wait _ w rfl hnext fun _ => hnext
  | drain g w => exact wait _ w rfl (drainWrites_whole g (by simp)) fun _ => trivial
  | drainFailed g e w hex =>
    exact wait _ w rfl (drainWrites_whole g fun _ _ => stays hex) fun _ => stays hex
  | post g hplanned =>
    -- a batch refused on an open stream is the first to have a request, or it fits
    have hunit := hout (beginWrite_unit _ _ _ _)
    cases g.batched hi hstep with
    | ok v t hpool =>
      obtain rfl := hunit v rfl
      refine ⟨?_, fun hp => ?_⟩
      · simp only [Job.next, Point.next]
        exact drainWrites_whole g (by simp)
      · rw [posts, Bool.or_eq_true, decide_eq_true_eq] at hp
        exact hp.elim hpos hpool
    | closed e t hclosed hkind hpool =>
      refine ⟨?_, fun hp => ?_⟩
      · simp only [Job.next, Point.next, if_neg hkind]
        exact drainWrites_whole g fun _ _ => .inl hclosed
      · rw [posts, Bool.or_eq_true, decide_eq_true_eq] at hp
        exact hp.elim hpos hpool
    | tooMany e hmany hkind =>
      rw [posts_same rfl]
      refine ⟨?_, hpos⟩
      simp only [Job.next, Point.next, if_neg hkind]
      exact drainWrites_whole g fun _ _ => Gather.excused hfits fun hg hwr =>
        absurd (hg.pool hplanned (hpos hwr)) (Nat.not_le.mpr hmany)
    | pressed e hkind hflags =>
      rw [posts_same rfl]
      refine ⟨?_, hpos⟩
      simp only [Job.next]
      rw [Point.next_pressed g hkind, if_pos hflags]
      exact hplanned
    | stalled e hkind hflags himm hwindow =>
      rw [posts_same rfl]
      refine ⟨?_, hpos⟩
      simp only [Job.next]
      rw [Point.next_pressed g hkind, if_neg (by rw [hflags]; decide)]
      exact Gather.excused hfits fun hg _ => absurd (hg.2 himm) (by omega)

/-- The device changes nothing a gather write looks at. -/
theorem Next.Whole.env {n : Next} (h : n.Whole s wrote) (henv : Env s t) : n.Whole t wrote := by
  have hex : Excused s wrote → Excused t wrote := fun hx => hx.imp_left henv.closed.trans
  have hplan : ∀ {g : Gather}, g.Planned s → g.Planned t := fun hg => hg.congr henv.terms
  match n, h with
  | .cont (.doing (.post g)), h => exact hplan h
  | .cont (.waiting (.post g) _), h => exact hplan h
  | .cont (.waiting (.drain _ (.ok ())) _), _ => trivial
  | .cont (.waiting (.drain _ (.error _)) _), h => exact hex h
  | .ret (.ok _), _ => trivial
  | .ret (.error _), h => exact hex h

end Blocking

/-- An owner's endpoint, and whether the call its owner is in has posted a request. -/
structure Writing where
  owner : Owner
  wrote : Bool

namespace Writing

def stream (u : Writing) : HordStream := u.owner.stream

/-- What has been posted when a step is over: entering a call starts afresh. -/
def after (u : Writing) (t : HordStream) : Doing → Bool
  | .enter _ => false
  | .move (.act _ _) => posts u.wrote u.stream t
  | _ => u.wrote

def Step (u : Writing) (l : Doing) (v : Writing) : Prop :=
  Owner.Step u.owner l v.owner ∧ v.wrote = u.after v.stream l

def Init (u : Writing) : Prop := u.owner.Init ∧ u.wrote = false

/-- Once a gather write has posted a request on a stream that is still open, its next step
    fits. -/
def Fits (u : Writing) (l : Doing) : Prop :=
  match u.owner.call, l with
  | some ⟨.rdmaWriteGatherAll _ _ _ _, .cont j, _⟩, .move (.act _ _) =>
    u.wrote = true → u.stream.peerClosed = false → j.Fits u.stream
  | _, _ => True

/-- Where a gather write stands, in any state of its owner. -/
structure Ok (u : Writing) : Prop where
  party : u.owner.party.Ok
  up : ∀ r, u.owner.call = some r → u.owner.party.phase = .up
  call : ∀ segments peerAddr peerRkey imm n took,
    u.owner.call = some ⟨.rdmaWriteGatherAll segments peerAddr peerRkey imm, n, took⟩ →
      n.Whole u.stream u.wrote ∧ (u.wrote = true → 0 < u.stream.geo.sendPool)

variable {u v : Writing} {l : Doing}

theorem Ok.step (h : u.Ok) (hs : Step u l v) (hfits : u.Fits l) : v.Ok := by
  obtain ⟨o, wrote⟩ := u
  obtain ⟨o', wrote'⟩ := v
  obtain ⟨hstep, hafter⟩ := hs
  obtain ⟨hparty, hup, hcall⟩ := h
  simp only [Writing.stream] at *
  have idle : ∀ {r : Running}, none ≠ some r := fun {r} => (Option.some_ne_none r).symm
  cases hstep with
  | enter c hph hidle =>
    refine ⟨hparty, fun _ _ => hph, fun segments peerAddr peerRkey imm n took hc => ?_⟩
    cases hc
    subst hafter
    exact ⟨Call.start_whole segments peerAddr peerRkey imm, nofun⟩
  | leave c r took hc => exact ⟨hparty, fun r hr => (idle hr).elim, fun _ _ _ _ _ _ hr => (idle hr).elim⟩
  | other m q hm hact =>
    -- an established endpoint is moved by the device only
    have hsame : wrote' = wrote := by
      cases m <;> first | exact hafter | cases hact
    subst hsame
    refine ⟨hm.ok hparty, fun r hr => (hm.stays_up (hup r hr)).1, fun segments peerAddr peerRkey imm n took hc => ?_⟩
    obtain ⟨hn, hpos⟩ := hcall segments peerAddr peerRkey imm n took hc
    obtain ⟨t, henv, rfl⟩ := hm.device hact (hup _ hc)
    have hgeo : t.geo = o.party.stream.geo := congrArg (·.2.1) henv.terms
    exact ⟨hn.env henv, fun hw => hgeo ▸ hpos hw⟩
  | act c j took r q hc hq =>
    obtain ⟨hph, rfl, rfl⟩ := hq.outcome
    refine ⟨hq.ok hparty, fun _ _ => hph, fun segments peerAddr peerRkey imm n took' hc' => ?_⟩
    cases hc'
    have hinv := hparty.inv hph
    obtain ⟨hn, hpos⟩ := hcall segments peerAddr peerRkey imm (.cont j) took hc
    have hj : wrote = true → o.stream.peerClosed = false → j.Fits o.stream := by
      simp only [Writing.Fits, hc] at hfits
      exact hfits
    have hnext := hn.step hinv hpos (r := (j.act.outcome o.party.stream).1)
      (t := (j.act.outcome o.party.stream).2) rfl hj
    have hreach := hq.reaches hparty
    have hgeo : (j.act.outcome o.party.stream).2.geo = o.party.stream.geo := hreach.2.2.2.geo
    subst hafter
    exact ⟨hnext.1, fun hw => hgeo ▸ hnext.2 hw⟩

theorem Ok.run {ls : List Doing} {u₀ : Writing} (hinit : u₀.Init)
    (hrun : Run (fun u l v => Step u l v ∧ u.Fits l) u₀ ls u) : u.Ok := by
  refine hrun.inv (I := Writing.Ok) (fun _ _ _ h hs => h.step hs.1 hs.2) ⟨hinit.1.1.ok, ?_, ?_⟩
  · intro r hr
    rw [hinit.1.2] at hr
    cases hr
  · intro _ _ _ _ _ _ hr
    rw [hinit.1.2] at hr
    cases hr

end Writing

/-! The async driver. -/

/-- The reactor's next call is steady, and no readiness poll fails. -/
def Reactor.Steady (r : Reactor) (l : Turned) : Prop :=
  match r.pc.act with
  | some a => r.stream.steady a = true
  | none => l ≠ .failed

theorem Reactor.Step.failed_closes {r r' : Reactor} (h : Reactor.Step r .failed r') (hwf : Wf r.stream)
    (hsteady : r.Steady .failed) : r'.stream.peerClosed = true := by
  rw [Reactor.Steady] at hsteady
  rcases h.failed with ⟨a, e, hpc, ha, hrun⟩ | ⟨hpc, -⟩
  · rw [hpc] at hsteady
    exact wp_error (Act.polls_steady ha hwf hsteady) hrun
  · rw [hpc] at hsteady
    exact absurd rfl hsteady

/-- Whatever happens to an established stream, its terms stay and a closed one stays closed. -/
structure Onward (s t : HordStream) : Prop where
  terms : t.terms = s.terms
  closed : s.peerClosed = true → t.peerClosed = true

theorem Onward.excused {s t : HordStream} {wrote : Bool} (h : Onward s t) (hx : Excused s wrote) :
    Excused t wrote :=
  hx.imp_left h.closed

theorem Onward.trans {s t u : HordStream} (h : Onward s t) (h' : Onward t u) : Onward s u :=
  ⟨h'.terms.trans h.terms, fun hc => h'.closed (h.closed hc)⟩

theorem Reactor.Step.onward {config : HordConfig} {r r' : Reactor} {l : Turned} (h : Reactor.Step r l r')
    (hok : Party.Ok ⟨config, r.stream, .up⟩) : Onward r.stream r'.stream := by
  obtain ⟨ms, hrun⟩ := h.party config
  have hall := hrun.inv (I := fun p => p.Ok ∧ p.phase = .up ∧ Onward r.stream p.stream) ?_ ⟨hok, rfl, rfl, id⟩
  · exact hall.2.2
  · intro p m q ⟨hp, hup, hon⟩ hs
    refine ⟨hs.ok hp, (hs.stays_up hup).1, hon.trans ⟨hs.terms hp hup, ?_⟩⟩
    intro hc
    cases hm : m.isAct with
    | false =>
      obtain ⟨t, henv, rfl⟩ := hs.device hm hup
      exact henv.closed.trans hc
    | true =>
      match m, hm with
      | .act a r, _ => exact (hs.reaches hp).2.2.2.stays_closed hc

namespace Drive
variable {u v : Drive} {l : DriveEvent} {config : HordConfig} {wrote : Bool}

/-- Where a write stands; `wrote` when one of its requests has been posted. -/
def Whole (u : Drive) (wrote : Bool) : Prop :=
  match u.pc with
  | .start => wrote = false
  | .post => u.gather.Planned u.stream
  | .pressed => u.gather.Planned u.stream
  | .draining (.ok ()) => True
  | .draining (.error _) => Excused u.stream wrote
  | .resolved (.ok ()) => True
  | .resolved (.error _) => Excused u.stream wrote
  | .cancelled => True

/-- The stream has moved on; the future has not. -/
theorem Whole.onward (h : u.Whole wrote) {w : Drive} (hon : Onward u.stream w.stream) (hpc : w.pc = u.pc)
    (hgather : w.gather = u.gather) : w.Whole wrote := by
  rw [Whole, hpc, hgather]
  rw [Whole] at h
  match hu : u.pc, h with
  | .start, h => exact h
  | .post, h => exact Gather.Planned.congr h hon.terms
  | .pressed, h => exact Gather.Planned.congr h hon.terms
  | .draining (.ok ()), _ => trivial
  | .draining (.error _), h => exact hon.excused h
  | .resolved (.ok ()), _ => trivial
  | .resolved (.error _), h => exact hon.excused h
  | .cancelled, _ => trivial

theorem plan_whole (u : Drive) : u.plan.Whole wrote := by
  unfold plan
  split
  · next hempty => exact .inl (List.isEmpty_iff.mp hempty)
  · split
    · next count bytes hbatch => exact .inr hbatch
    · trivial

theorem settle_whole (u : Drive) {posted : Except Fail Unit}
    (h : ∀ e, posted = .error e → Excused u.stream wrote) : (u.settle posted).Whole wrote := by
  unfold settle
  split
  · match posted with
    | .ok () => trivial
    | .error e => exact h e rfl
  · match posted with
    | .error e => exact h e rfl
    | .ok () =>
      dsimp only
      split
      · next hclosed => exact .inl hclosed
      · split
        · trivial
        · exact plan_whole _

/-- Once the write has posted a request on a stream that is still open, its next step fits. -/
def Fits (u : Drive) (wrote : Bool) (l : DriveEvent) : Prop :=
  wrote = true → u.stream.peerClosed = false → match l with
    | .posted => u.gather.Fits u.stream
    | .events m => u.reactor.Steady m
    | _ => True

theorem posted_whole (hi : Inv u.stream) (hplanned : u.gather.Planned u.stream)
    (hpos : wrote = true → 0 < u.stream.geo.sendPool) (hfits : u.Fits wrote .posted) :
    u.posted.Whole (posts wrote u.stream (u.gather.act.outcome u.stream).2) ∧
      (posts wrote u.stream (u.gather.act.outcome u.stream).2 = true → 0 < u.stream.geo.sendPool) := by
  unfold posted
  generalize hout : u.gather.act.outcome u.stream = o
  obtain ⟨r, t⟩ := o
  dsimp only
  have hbatch := u.gather.batched hi hout
  have hg : wrote = true → u.stream.peerClosed = false → u.gather.Fits u.stream := hfits
  unfold Fits at hfits
  generalize u.stream = s at *
  cases hbatch with
  | ok v t hpool =>
    refine ⟨settle_whole _ nofun, fun hp => ?_⟩
    rw [posts, Bool.or_eq_true, decide_eq_true_eq] at hp
    exact hp.elim hpos hpool
  | closed e t hclosed hkind hpool =>
    refine ⟨?_, fun hp => ?_⟩
    · simp only [if_neg hkind]
      exact settle_whole _ fun _ _ => .inl hclosed
    · rw [posts, Bool.or_eq_true, decide_eq_true_eq] at hp
      exact hp.elim hpos hpool
  | tooMany e hmany hkind =>
    rw [posts_same rfl]
    refine ⟨?_, hpos⟩
    simp only [if_neg hkind]
    exact settle_whole _ fun _ _ => Gather.excused hg fun hfit hwr =>
      absurd (hfit.pool hplanned (hpos hwr)) (Nat.not_le.mpr hmany)
  | pressed e hkind hflags =>
    rw [posts_same rfl]
    refine ⟨?_, hpos⟩
    have hbusy : (!t.sendsOutstanding && !t.writesPending) = false := by
      rw [← Bool.not_or, hflags]
      rfl
    simp only [if_pos hkind]
    change Whole (if (!t.sendsOutstanding && !t.writesPending) = true then _ else _) wrote
    rw [hbusy]
    exact hplanned
  | stalled e hkind hflags himm hwindow =>
    rw [posts_same rfl]
    refine ⟨?_, hpos⟩
    have hidle : (!t.sendsOutstanding && !t.writesPending) = true := by
      rw [← Bool.not_or, hflags]
      rfl
    simp only [if_pos hkind]
    change Whole (if (!t.sendsOutstanding && !t.writesPending) = true then _ else _) wrote
    rw [hidle]
    show Excused t wrote
    exact Gather.excused hg fun hfit _ => absurd (hfit.2 himm) (by omega)

end Drive

/-- An async write, and whether it has posted a request. -/
structure Driven where
  drive : Drive
  wrote : Bool

namespace Driven

/-- What has been posted when a step is over. -/
def after (u : Driven) : DriveEvent → Bool
  | .posted => posts u.wrote u.drive.stream (u.drive.gather.act.outcome u.drive.stream).2
  | _ => u.wrote

def Step (u : Driven) (l : DriveEvent) (v : Driven) : Prop :=
  Drive.Step u.drive l v.drive ∧ v.wrote = u.after l

def Init (config : HordConfig) (segments : List WriteSegment) (peerAddr peerRkey : Nat)
    (imm : Option Nat) (u : Driven) : Prop :=
  u.drive.Init config segments peerAddr peerRkey imm ∧ u.wrote = false

/-- Where an async write stands. -/
structure Ok (config : HordConfig) (u : Driven) : Prop where
  party : Party.Ok ⟨config, u.drive.stream, .up⟩
  whole : u.drive.Whole u.wrote
  pool : u.wrote = true → 0 < u.drive.stream.geo.sendPool

variable {u v : Driven} {l : DriveEvent} {config : HordConfig}

theorem Ok.step (h : u.Ok config) (hs : Step u l v) (hfits : u.drive.Fits u.wrote l) : v.Ok config := by
  obtain ⟨d, wrote⟩ := u
  obtain ⟨d', wrote'⟩ := v
  obtain ⟨hstep, hafter⟩ := hs
  obtain ⟨hparty, hwhole, hpos⟩ := h
  simp only at hstep hafter hparty hwhole hpos hfits
  have hparty' := hstep.ok hparty
  have hgeo : d'.stream.geo = d.stream.geo := Except.ok.inj (hparty'.2.symm.trans hparty.2)
  -- every other step has posted what was posted before
  have quiet : wrote' = wrote → d'.Whole wrote → (⟨d', wrote'⟩ : Driven).Ok config := by
    rintro rfl hw
    exact ⟨hparty', hw, fun hwr => hgeo ▸ hpos hwr⟩
  cases hstep with
  | outer m r hl hr => exact quiet hafter (hwhole.onward (hr.onward hparty) rfl rfl)
  | others m r hp hl hr => exact quiet hafter (hwhole.onward (hr.onward hparty) rfl rfl)
  | drop hp hr hpc => exact quiet hafter trivial
  | poll hp hr hpc =>
    refine quiet hafter ?_
    unfold Drive.poll
    rw [Drive.Whole] at hwhole
    match hd : d.pc, hpc with
    | .start, _ => exact Drive.plan_whole _
    | .draining posted, _ =>
      rw [hd] at hwhole
      refine Drive.settle_whole _ fun e he => ?_
      subst he
      exact hwhole
    | .pressed, _ =>
      rw [hd] at hwhole
      exact hwhole
    | .post, hpc => rcases hpc with hpc | hpc <;> cases hpc
    | .resolved _, hpc => rcases hpc with hpc | hpc <;> cases hpc
    | .cancelled, hpc => rcases hpc with hpc | hpc <;> cases hpc
  | post hp hpc =>
    rw [Drive.Whole, hpc] at hwhole
    obtain ⟨hw, hpool⟩ := Drive.posted_whole hparty.1 hwhole hpos hfits
    have hafter' : wrote' = posts wrote d.stream (d.gather.act.outcome d.stream).2 := hafter
    subst hafter'
    exact ⟨hparty', hw, fun hwr => hgeo ▸ hpool hwr⟩
  | events m r hp hpc hl hr =>
    refine quiet hafter ?_
    have hon := hr.onward hparty
    have still : ∀ {w : Drive}, w.stream = r.stream → w.pc = d.pc → w.gather = d.gather → w.Whole wrote := by
      intro w hstream hpcw hg
      exact hwhole.onward (hstream ▸ hon) hpcw hg
    unfold Drive.after
    match m with
    | .ready =>
      rw [Drive.Whole] at hwhole
      match hd : d.pc, hpc with
      | .draining posted, _ =>
        rw [hd] at hwhole
        refine Drive.settle_whole _ fun e he => ?_
        subst he
        exact hon.excused hwhole
      | .pressed, _ =>
        rw [hd] at hwhole
        exact Gather.Planned.congr hwhole hon.terms
    | .failed =>
      -- the completion loop has failed: the stream is closed, or nothing was posted
      show Excused r.stream wrote
      cases hwr : wrote with
      | false => exact .inr rfl
      | true =>
        cases hclosed : d.stream.peerClosed with
        | true => exact .inl (hon.closed hclosed)
        | false => exact .inl (hr.failed_closes hparty.1.wf (hfits hwr hclosed))
    | .pending => exact still rfl rfl rfl
    | .nic _ => exact still rfl rfl rfl
    | .driver => exact still rfl rfl rfl
    | .owner _ => exact still rfl rfl rfl
    | .start => exact still rfl rfl rfl
    | .call => exact still rfl rfl rfl
    | .empty => exact still rfl rfl rfl
    | .quiet => exact still rfl rfl rfl

theorem Ok.run {segments : List WriteSegment} {peerAddr peerRkey : Nat} {imm : Option Nat}
    {ls : List DriveEvent} {u₀ : Driven} (hinit : u₀.Init config segments peerAddr peerRkey imm)
    (hrun : Run (fun u l v => Step u l v ∧ u.drive.Fits u.wrote l) u₀ ls u) : u.Ok config := by
  refine hrun.inv (I := Driven.Ok config) (fun _ _ _ h hs => h.step hs.1 hs.2) ⟨hinit.1.1, ?_, ?_⟩
  · rw [Drive.Whole, hinit.1.2.2.2.1]
    exact hinit.2
  · intro hwr
    rw [hinit.2] at hwr
    cases hwr

end Driven

/-- In every run in which, once a request of a gather write has been posted on a stream that
    is still open, every further batch starts with a segment of at most `send_pool` GiB, the
    peer has a window for the immediate of the last one, no device call of the completion
    loop is refused, no readiness poll fails and no runt is handled: a gather write that
    fails, blocking or async, leaves the stream closed or has posted nothing. -/
theorem midway_failure_closes (segments : List WriteSegment) (peerAddr peerRkey : Nat) (imm : Option Nat) :
    (∀ (u₀ : Writing) (ls : List Doing) (u : Writing), u₀.Init →
      Run (fun u l v => Writing.Step u l v ∧ u.Fits l) u₀ ls u →
      ∀ e took, u.owner.call = some ⟨.rdmaWriteGatherAll segments peerAddr peerRkey imm, .ret (.error e), took⟩ →
        u.stream.peerClosed = true ∨ u.wrote = false) ∧
    ∀ (config : HordConfig) (u₀ : Driven) (ls : List DriveEvent) (u : Driven),
      u₀.Init config segments peerAddr peerRkey imm →
      Run (fun u l v => Driven.Step u l v ∧ u.drive.Fits u.wrote l) u₀ ls u →
      ∀ e, u.drive.pc = .resolved (.error e) → u.drive.stream.peerClosed = true ∨ u.wrote = false := by
  constructor
  · intro u₀ ls u hinit hrun e took hcall
    exact ((Writing.Ok.run hinit hrun).call segments peerAddr peerRkey imm _ took hcall).1
  · intro config u₀ ls u hinit hrun e hpc
    have hw := (Driven.Ok.run hinit hrun).whole
    rw [Drive.Whole, hpc] at hw
    exact hw

/-! Runs that can be computed. -/

instance Gather.decidableFits (s : HordStream) (g : Gather) : Decidable (g.Fits s) :=
  inferInstanceAs (Decidable (_ ∧ _))

instance Job.decidableFits (s : HordStream) (j : Job) : Decidable (j.Fits s) :=
  match j with
  | .doing (.post g) => g.decidableFits s
  | .waiting _ w => inferInstanceAs (Decidable (s.steady w.act = true))
  | .doing (.tryRead _) => .isTrue trivial
  | .doing (.returnOwedCredits _) => .isTrue trivial
  | .doing (.tryWrite _ _) => .isTrue trivial
  | .doing .tryFlushStage => .isTrue trivial
  | .doing .nextCompletedTransfer => .isTrue trivial
  | .doing (.once _) => .isTrue trivial

namespace Writing

/-- `Writing.Fits`, computed. -/
def fits (u : Writing) (l : Doing) : Bool :=
  match u.owner.call, l with
  | some ⟨.rdmaWriteGatherAll _ _ _ _, .cont j, _⟩, .move (.act _ _) =>
    decide (u.wrote = true → u.stream.peerClosed = false → j.Fits u.stream)
  | _, _ => true

theorem fits_iff {u : Writing} {l : Doing} (h : u.fits l = true) : u.Fits l := by
  unfold fits at h
  unfold Fits
  split at h
  · exact of_decide_eq_true h
  · trivial

def exec (u : Writing) (c : Play) : Option (Doing × Writing) :=
  (u.owner.exec c).map fun r => (r.1, ⟨r.2, u.after r.2.stream r.1⟩)

theorem exec_step (u : Writing) (c : Play) (l : Doing) (v : Writing) (h : u.exec c = some (l, v)) :
    Step u l v := by
  simp only [exec, Option.map_eq_some_iff] at h
  obtain ⟨⟨l', o⟩, hexec, heq⟩ := h
  cases heq
  exact ⟨Owner.exec_step _ _ _ _ hexec, rfl⟩

/-- Whether a gather write has failed. -/
def failed (u : Writing) : Bool :=
  match u.owner.call with
  | some ⟨.rdmaWriteGatherAll _ _ _ _, .ret (.error _), _⟩ => true
  | _ => false

theorem failed_call {u : Writing} (h : u.failed = true) : ∃ segments peerAddr peerRkey imm e took,
    u.owner.call = some ⟨.rdmaWriteGatherAll segments peerAddr peerRkey imm, .ret (.error e), took⟩ := by
  unfold failed at h
  split at h
  · next segments peerAddr peerRkey imm e took hcall => exact ⟨segments, peerAddr, peerRkey, imm, e, took, hcall⟩
  · cases h

/-- Build an endpoint in no call and carry a script out. -/
theorem launch_run (guard : Writing → Doing → Bool) (config : HordConfig) (cs : List Play)
    (good : List Doing → Writing → Bool)
    (h : (newCommon (Connection.new 1) config).toOption.any (fun s =>
      (play exec guard ⟨⟨⟨config, s, .fresh⟩, none⟩, false⟩ cs).any fun r => good r.1 r.2) = true) :
    ∃ u₀ ls u, u₀.Init ∧ Run (fun u l v => Step u l v ∧ guard u l = true) u₀ ls u ∧ good ls u = true := by
  obtain ⟨p, ls, u, hinit, hrun, hgood⟩ := Party.play_run exec_step (fun p => ⟨⟨p, none⟩, false⟩) guard config cs
    good h
  exact ⟨⟨⟨p, none⟩, false⟩, ls, u, ⟨⟨hinit, rfl⟩, rfl⟩, hrun, hgood⟩

end Writing

namespace Driven

/-- `Drive.Fits`, computed. -/
def fits (u : Driven) (l : DriveEvent) : Bool :=
  !u.wrote || u.drive.stream.peerClosed || match l with
    | .posted => decide (u.drive.gather.Fits u.drive.stream)
    | .events m =>
      match u.drive.reactor.pc.act with
      | some a => u.drive.stream.steady a
      | none => decide (m ≠ .failed)
    | _ => true

theorem fits_iff {u : Driven} {l : DriveEvent} (h : u.fits l = true) : u.drive.Fits u.wrote l := by
  intro hwr hopen
  match l with
  | .posted => simpa [fits, hwr, hopen] using h
  | .events m =>
    show Reactor.Steady _ m
    rw [Reactor.Steady]
    cases hpc : u.drive.reactor.pc.act with
    | some a =>
      have hsteady : u.drive.stream.steady a = true := by simpa [fits, hwr, hopen, hpc] using h
      exact hsteady
    | none => simpa [fits, hwr, hopen, hpc] using h
  | .outer _ => trivial
  | .others _ => trivial
  | .polled => trivial
  | .dropped => trivial

def exec (u : Driven) (c : Drive.Prompt) : Option (DriveEvent × Driven) :=
  (u.drive.exec c).map fun r => (r.1, ⟨r.2, u.after r.1⟩)

theorem exec_step (u : Driven) (c : Drive.Prompt) (l : DriveEvent) (v : Driven) (h : u.exec c = some (l, v)) :
    Step u l v := by
  simp only [exec, Option.map_eq_some_iff] at h
  obtain ⟨⟨l', d⟩, hexec, heq⟩ := h
  cases heq
  exact ⟨Drive.exec_step _ _ _ _ hexec, rfl⟩

/-- An established stream of a configuration, and a script for a write on it. -/
theorem launch_run (guard : Driven → DriveEvent → Bool) (config : HordConfig) (setup : List Cmd)
    (segments : List WriteSegment) (peerAddr peerRkey : Nat) (imm : Option Nat) (cs : List Drive.Prompt)
    (good : List DriveEvent → Driven → Bool)
    (h : (Party.launch (fun _ _ => true) config setup).any (fun q => decide (q.phase = .up) &&
      (play exec guard ⟨Drive.begin q.stream segments peerAddr peerRkey imm, false⟩ cs).any
        fun r => good r.1 r.2) = true) :
    ∃ config' u₀ ls u, u₀.Init config' segments peerAddr peerRkey imm ∧
      Run (fun u l v => Step u l v ∧ guard u l = true) u₀ ls u ∧ good ls u = true := by
  obtain ⟨p, ms, q, hinit, hrun, hq⟩ := Party.launch_run (fun _ _ => true) config setup _ h
  rw [Bool.and_eq_true, decide_eq_true_eq] at hq
  obtain ⟨ls, u, hsteps, hgood⟩ := play_good exec_step hq.2
  have hbegin := Drive.begin_init hinit (hrun.mono fun _ _ _ hs => hs.1) hq.1 segments peerAddr peerRkey imm
  exact ⟨q.config, _, ls, u, ⟨hbegin, rfl⟩, hsteps, hgood⟩

theorem failed_pc {u : Driven} (h : u.drive.pc.outcome = some false) : ∃ e, u.drive.pc = .resolved (.error e) := by
  cases hpc : u.drive.pc with
  | resolved r =>
    match r with
    | .ok () => rw [hpc] at h; cases h
    | .error e => exact ⟨e, rfl⟩
  | _ => rw [hpc] at h; cases h

end Driven

/-- Two segments of four bytes: two requests, in two batches on one send slot. -/
def twoSegments : List WriteSegment := [⟨4096, 5, 4⟩, ⟨8192, 5, 4⟩]

/-- The first batch fails on the wire: both drivers fail, and the stream is closed. -/
theorem midway_failure_closes_two :
    (∃ u₀ ls u, u₀.Init ∧ Run (fun u l v => Writing.Step u l v ∧ u.Fits l) u₀ ls u ∧ u.wrote = true ∧
      u.stream.peerClosed = true) ∧
    ∃ config u₀ ls u, u₀.Init config twoSegments 1000 9 none ∧
      Run (fun u l v => Driven.Step u l v ∧ u.drive.Fits u.wrote l) u₀ ls u ∧ u.wrote = true ∧
      u.drive.stream.peerClosed = true := by
  constructor
  · obtain ⟨u₀, ls, u, hinit, hrun, hgood⟩ := Writing.launch_run Writing.fits tinyConfig
      (tinySetup.map .cmd ++ [.enter (.rdmaWriteGatherAll twoSegments 1000 9 none), .act, .cmd .carry,
        .cmd (.reap ⟨writeWrId 0, 0, .rdmaWrite, 5, 0⟩), .act])
      (fun _ u => u.failed && u.wrote) (by decide +kernel)
    rw [Bool.and_eq_true] at hgood
    obtain ⟨segments, peerAddr, peerRkey, imm, e, took, hcall⟩ := Writing.failed_call hgood.1
    have hfits : Run (fun u l v => Writing.Step u l v ∧ u.Fits l) u₀ ls u :=
      hrun.mono fun _ _ _ hs => ⟨hs.1, Writing.fits_iff hs.2⟩
    rcases (midway_failure_closes segments peerAddr peerRkey imm).1 u₀ ls u hinit hfits e took hcall with hclosed | hnone
    · exact ⟨u₀, ls, u, hinit, hfits, hgood.2, hclosed⟩
    · rw [hgood.2] at hnone
      cases hnone
  · obtain ⟨config, u₀, ls, u, hinit, hrun, hgood⟩ := Driven.launch_run Driven.fits tinyConfig tinySetup twoSegments
      1000 9 none [.poll, .post, .poke (.nic .carry), .poke (.nic (.reap ⟨writeWrId 0, 0, .rdmaWrite, 5, 0⟩)),
        .poke .step, .poke .step]
      (fun _ u => decide (u.drive.pc.outcome = some false) && u.wrote) (by decide +kernel)
    rw [Bool.and_eq_true, decide_eq_true_eq] at hgood
    obtain ⟨e, hpc⟩ := Driven.failed_pc hgood.1
    have hfits : Run (fun u l v => Driven.Step u l v ∧ u.drive.Fits u.wrote l) u₀ ls u :=
      hrun.mono fun _ _ _ hs => ⟨hs.1, Driven.fits_iff hs.2⟩
    rcases (midway_failure_closes twoSegments 1000 9 none).2 config u₀ ls u hinit hfits e hpc with hclosed | hnone
    · exact ⟨config, u₀, ls, u, hinit, hfits, hgood.2, hclosed⟩
    · rw [hgood.2] at hnone
      cases hnone

/-- Four bytes and a segment of one byte over 1 GiB, for a send pool of one. -/
def overSegments : List WriteSegment := [⟨4096, 5, 4⟩, ⟨8192, 5, 2 ^ 30 + 1⟩]

/-- The first four bytes are delivered, then the second batch is refused: both drivers fail
    on an open stream, having written a part. -/
theorem gather_fails_midway :
    ¬(∀ (u₀ : Writing) (ls : List Doing) (u : Writing), u₀.Init → Run Writing.Step u₀ ls u →
      ∀ segments peerAddr peerRkey imm e took,
        u.owner.call = some ⟨.rdmaWriteGatherAll segments peerAddr peerRkey imm, .ret (.error e), took⟩ →
        u.stream.peerClosed = true ∨ u.wrote = false) ∧
    ¬∀ (config : HordConfig) (segments : List WriteSegment) (peerAddr peerRkey : Nat) (imm : Option Nat)
      (u₀ : Driven) (ls : List DriveEvent) (u : Driven), u₀.Init config segments peerAddr peerRkey imm →
      Run Driven.Step u₀ ls u →
      ∀ e, u.drive.pc = .resolved (.error e) → u.drive.stream.peerClosed = true ∨ u.wrote = false := by
  constructor
  · intro h
    obtain ⟨u₀, ls, u, hinit, hrun, hgood⟩ := Writing.launch_run (fun _ _ => true) tinyConfig
      (tinySetup.map .cmd ++ [.enter (.rdmaWriteGatherAll overSegments 1000 9 none), .act, .cmd .carry,
        .cmd (.reap ⟨writeWrId 0, 0, .rdmaWrite, 0, 0⟩), .act, .act])
      (fun _ u => u.failed && (u.wrote && !u.stream.peerClosed)) (by decide +kernel)
    rw [Bool.and_eq_true, Bool.and_eq_true, Bool.not_eq_true'] at hgood
    obtain ⟨segments, peerAddr, peerRkey, imm, e, took, hcall⟩ := Writing.failed_call hgood.1
    rcases h u₀ ls u hinit (hrun.mono fun _ _ _ hs => hs.1) _ _ _ _ _ _ hcall with hclosed | hnone
    · rw [hgood.2.2] at hclosed
      cases hclosed
    · rw [hgood.2.1] at hnone
      cases hnone
  · intro h
    obtain ⟨config, u₀, ls, u, hinit, hrun, hgood⟩ := Driven.launch_run (fun _ _ => true) tinyConfig tinySetup
      overSegments 1000 9 none [.poll, .post, .poke (.nic .carry),
        .poke (.nic (.reap ⟨writeWrId 0, 0, .rdmaWrite, 0, 0⟩)), .poke .step, .poke .step, .post]
      (fun _ u => decide (u.drive.pc.outcome = some false) && (u.wrote && !u.drive.stream.peerClosed))
      (by decide +kernel)
    rw [Bool.and_eq_true, Bool.and_eq_true, Bool.not_eq_true', decide_eq_true_eq] at hgood
    obtain ⟨e, hpc⟩ := Driven.failed_pc hgood.1
    rcases h config _ _ _ _ u₀ ls u hinit (hrun.mono fun _ _ _ hs => hs.1) e hpc with hclosed | hnone
    · rw [hgood.2.2] at hclosed
      cases hclosed
    · rw [hgood.2.1] at hnone
      cases hnone

end Hord
