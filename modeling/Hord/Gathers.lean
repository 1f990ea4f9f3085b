import Hord.Barrier
import Hord.MidWrite

/- The requests of a gather write, whichever driver delivers it. `gatherWrs` is the sequence
   of all batches: together they place every byte of the segments, in order, at contiguous
   addresses from the peer's on, and the immediate rides the last of them. At any time what
   either driver has posted is a beginning of that sequence, and it is the whole of it when
   the driver returns `Ok` (`Next.Sends`, `Drive.Sends`). A batch is refused for good only if
   it needs more requests than the send pool holds, which a segment of at most `send_pool`
   GiB does not, or for want of a window for its immediate (`gathers_deliver`). -/
namespace Hord

open Prog Transition

/-- What a gather write is asked for. -/
structure GatherReq where
  segments : List WriteSegment
  peerAddr : Nat
  peerRkey : Nat
  imm : Option Nat
  deriving DecidableEq

/-- The requests of the segments that are left, batch after batch, when `base` bytes are
    delivered. Every batch takes a segment, so their number is fuel enough. -/
def restWrs (maxSge pool : Nat) (q : GatherReq) : Nat → List WriteSegment → Nat → List SendWr
  | 0, _, _ => []
  | _, [], _ => []
  | fuel + 1, seg :: rest, base =>
    match nextBatchLen (seg :: rest) maxSge pool with
    | .error _ => []
    | .ok (n, bytes) =>
      writeWrs maxSge ((seg :: rest).take n) ((q.peerAddr + base) % 2 ^ 64) q.peerRkey
          (if n = (seg :: rest).length then q.imm else none) ++
        restWrs maxSge pool q fuel ((seg :: rest).drop n) (base + bytes)

/-- All requests of a gather write; an empty one is a batch of its own. -/
def gatherWrs (maxSge pool : Nat) (q : GatherReq) : List SendWr :=
  if q.segments.isEmpty then writeWrs maxSge [] (q.peerAddr % 2 ^ 64) q.peerRkey q.imm
  else restWrs maxSge pool q q.segments.length q.segments 0

section Sequence
variable {maxSge pool : Nat} {q : GatherReq}

/-- One batch and the rest. -/
theorem restWrs_batch (maxSge pool : Nat) (q : GatherReq) (segments : List WriteSegment) (hne : segments ≠ [])
    (fuel base : Nat) :
    ∃ n bytes, nextBatchLen segments maxSge pool = .ok (n, bytes) ∧ Batch segments maxSge (max pool 1) n bytes ∧
      restWrs maxSge pool q (fuel + 1) segments base =
        writeWrs maxSge (segments.take n) ((q.peerAddr + base) % 2 ^ 64) q.peerRkey
            (if n = segments.length then q.imm else none) ++
          restWrs maxSge pool q fuel (segments.drop n) (base + bytes) := by
  obtain ⟨n, bytes, hnext, hbatch⟩ := nextBatchLen_batch hne maxSge pool
  refine ⟨n, bytes, hnext, hbatch, ?_⟩
  cases segments with
  | nil => exact absurd rfl hne
  | cons seg rest => simp only [restWrs, hnext]

theorem restWrs_nil (fuel base : Nat) : restWrs maxSge pool q fuel [] base = [] := by
  cases fuel <;> rfl

/-- More fuel than segments makes no difference. -/
theorem restWrs_fuel (fuel fuel' : Nat) (segments : List WriteSegment) (base : Nat) (h : segments.length ≤ fuel)
    (h' : segments.length ≤ fuel') :
    restWrs maxSge pool q fuel segments base = restWrs maxSge pool q fuel' segments base := by
  induction fuel generalizing fuel' segments base with
  | zero =>
    rw [List.length_eq_zero_iff.mp (Nat.le_zero.mp h), restWrs_nil, restWrs_nil]
  | succ fuel ih =>
    by_cases hne : segments = []
    · rw [hne, restWrs_nil, restWrs_nil]
    · have hpos := List.length_pos_iff.mpr hne
      obtain ⟨k, rfl⟩ : ∃ k, fuel' = k + 1 := ⟨fuel' - 1, by omega⟩
      obtain ⟨n, bytes, hnext, hbatch, heq⟩ := restWrs_batch maxSge pool q segments hne fuel base
      obtain ⟨n', bytes', hnext', -, heq'⟩ := restWrs_batch maxSge pool q segments hne k base
      cases hnext.symm.trans hnext'
      have hn := hbatch.pos
      rw [heq, heq', ih k _ _ (by rw [List.length_drop]; omega) (by rw [List.length_drop]; omega)]

/-- Every byte goes to its place, in order. -/
theorem restWrs_placed (fuel : Nat) (segments : List WriteSegment) (base : Nat) (h : segments.length ≤ fuel) :
    (restWrs maxSge pool q fuel segments base).flatMap SendWr.placed =
      placedFrom (q.peerAddr + base) (segments.flatMap WriteSegment.bytes) := by
  induction fuel generalizing segments base with
  | zero =>
    rw [List.length_eq_zero_iff.mp (Nat.le_zero.mp h), restWrs_nil]
    rfl
  | succ fuel ih =>
    by_cases hne : segments = []
    · rw [hne, restWrs_nil]
      rfl
    · obtain ⟨n, bytes, -, hbatch, heq⟩ := restWrs_batch maxSge pool q segments hne fuel base
      have hn := hbatch.pos
      have hlen : ((segments.take n).flatMap WriteSegment.bytes).length = bytes := by
        rw [hbatch.bytes]
        simp only [List.length_flatMap, WriteSegment.bytes, spanBytes_length]
      have hcut : segments.flatMap WriteSegment.bytes =
          (segments.take n).flatMap WriteSegment.bytes ++ (segments.drop n).flatMap WriteSegment.bytes := by
        rw [← List.flatMap_append, List.take_append_drop]
      rw [heq, List.flatMap_append, writeWrs_placed, placedFrom_mod, ih _ _ (by rw [List.length_drop]; omega), hcut,
        placedFrom_append, hlen, Nat.add_assoc]

theorem gatherWrs_placed (maxSge pool : Nat) (q : GatherReq) :
    (gatherWrs maxSge pool q).flatMap SendWr.placed = placedFrom q.peerAddr (q.segments.flatMap WriteSegment.bytes) := by
  rw [gatherWrs]
  split
  · next hnil => rw [writeWrs_placed, placedFrom_mod, List.isEmpty_iff.mp hnil]
  · exact restWrs_placed _ _ 0 (Nat.le_refl _)

theorem writeWrs_none (segments : List WriteSegment) (peerAddr peerRkey : Nat) :
    ∀ w ∈ writeWrs maxSge segments peerAddr peerRkey none, w.imm = none := by
  intro w hw
  obtain ⟨init, last, heq, hinit, hlast⟩ := writeWrs_last (List.ne_nil_of_mem hw)
  rw [heq] at hw
  rcases List.mem_append.mp hw with hw | hw
  · exact hinit w hw
  · rw [List.mem_singleton.mp hw]
    exact hlast

/-- Without an immediate no request carries one. -/
theorem restWrs_none (himm : q.imm = none) (fuel : Nat) (segments : List WriteSegment) (base : Nat) :
    ∀ w ∈ restWrs maxSge pool q fuel segments base, w.imm = none := by
  induction fuel generalizing segments base with
  | zero => exact fun w hw => absurd hw List.not_mem_nil
  | succ fuel ih =>
    by_cases hne : segments = []
    · rw [hne, restWrs_nil]
      exact fun w hw => absurd hw List.not_mem_nil
    · obtain ⟨n, bytes, -, -, heq⟩ := restWrs_batch maxSge pool q segments hne fuel base
      have hnone : (if n = segments.length then q.imm else none) = none := by
        rw [himm]
        split <;> rfl
      rw [heq, hnone]
      intro w hw
      rcases List.mem_append.mp hw with hw | hw
      · exact writeWrs_none _ _ _ w hw
      · exact ih _ _ w hw

/-- The immediate rides the last request of the last batch, and no other. -/
theorem restWrs_last {id : Nat} (himm : q.imm = some id) (fuel : Nat) (segments : List WriteSegment) (base : Nat)
    (hne : segments ≠ []) (hfuel : segments.length ≤ fuel) :
    ∃ init last, restWrs maxSge pool q fuel segments base = init ++ [last] ∧
      (∀ w ∈ init, w.imm = none) ∧ last.imm = some id := by
  induction fuel generalizing segments base with
  | zero => exact absurd (List.length_eq_zero_iff.mp (Nat.le_zero.mp hfuel)) hne
  | succ fuel ih =>
    obtain ⟨n, bytes, -, hbatch, heq⟩ := restWrs_batch maxSge pool q segments hne fuel base
    have hn := hbatch.pos
    rw [heq]
    by_cases hlast : n = segments.length
    · rw [if_pos hlast, himm, hlast, List.drop_length, restWrs_nil, List.append_nil]
      exact writeWrs_last (writeWrs_ne_nil _ _ _ _ _)
    · have hrest : segments.drop n ≠ [] := by
        have hle := hbatch.le
        rw [Ne, List.drop_eq_nil_iff]
        omega
      obtain ⟨init, last, hrec, hinit, himm'⟩ := ih (segments.drop n) (base + bytes) hrest
        (by rw [List.length_drop]; omega)
      rw [if_neg hlast, hrec, ← List.append_assoc]
      refine ⟨_, last, rfl, fun w hw => ?_, himm'⟩
      rcases List.mem_append.mp hw with hw | hw
      · exact writeWrs_none _ _ _ w hw
      · exact hinit w hw

theorem gatherWrs_last {id : Nat} (himm : q.imm = some id) :
    ∃ init last, gatherWrs maxSge pool q = init ++ [last] ∧ (∀ w ∈ init, w.imm = none) ∧ last.imm = some id := by
  rw [gatherWrs]
  split
  · rw [himm]
    exact writeWrs_last (writeWrs_ne_nil _ _ _ _ _)
  · next hne => exact restWrs_last himm _ _ 0 (by simpa using hne) (Nat.le_refl _)

theorem gatherWrs_none (himm : q.imm = none) : ∀ w ∈ gatherWrs maxSge pool q, w.imm = none := by
  rw [gatherWrs]
  split
  · rw [himm]
    exact writeWrs_none _ _ _
  · exact restWrs_none himm _ _ 0

/-- Without bytes there is one batch, of no request or of the one that carries the immediate. -/
theorem gatherWrs_empty (h : (q.segments.map WriteSegment.len).sum = 0) :
    gatherWrs maxSge pool q = writeWrs maxSge [] (q.peerAddr % 2 ^ 64) q.peerRkey q.imm := by
  have hwrs : ∀ (segments : List WriteSegment) (addr : Nat), (segments.map WriteSegment.len).sum = 0 →
      writeWrs maxSge segments addr q.peerRkey q.imm = writeWrs maxSge [] addr q.peerRkey q.imm := by
    intro segments addr hzero
    rw [writeWrs, writeWrs, plan_nil_of_empty hzero, plan_nil_of_empty rfl]
  rw [gatherWrs]
  split
  · rfl
  · next hne =>
    have hne' : q.segments ≠ [] := by simpa using hne
    have hpos := List.length_pos_iff.mpr hne'
    obtain ⟨k, hk⟩ : ∃ k, q.segments.length = k + 1 := ⟨q.segments.length - 1, by omega⟩
    obtain ⟨n, bytes, -, hbatch, heq⟩ := restWrs_batch maxSge pool q q.segments hne' k 0
    -- a part of the segments has no bytes either, so the first batch takes them all
    have hpart : ∀ m, ((q.segments.take m).map WriteSegment.len).sum = 0 := by
      intro m
      have hcut : ((q.segments.take m).map WriteSegment.len).sum + ((q.segments.drop m).map WriteSegment.len).sum = 0 := by
        rw [← List.sum_append, ← List.map_append, List.take_append_drop, h]
      omega
    have hall : n = q.segments.length := by
      rcases hbatch.cut with ⟨-, hmax⟩ | ⟨-, seg, hhead, hover, -⟩
      · have hle := hbatch.le
        by_contra hn
        have hover := hmax (by omega)
        rw [plan_nil_of_empty (hpart (n + 1)), List.length_nil] at hover
        omega
      · have hseg : q.segments.take 1 = [seg] := by
          obtain ⟨rest, hrest⟩ := List.head?_eq_some_iff.mp hhead
          rw [hrest, List.take_succ_cons, List.take_zero]
        have hzero := hpart 1
        rw [hseg] at hzero
        rw [plan_nil_of_empty hzero, List.length_nil] at hover
        omega
    rw [hk, heq, if_pos hall, hall, List.take_length, List.drop_length, restWrs_nil, List.append_nil, hwrs _ _ h,
      Nat.add_zero]

end Sequence

/-! What a driver still has to post. -/

def Gather.req (g : Gather) : GatherReq := ⟨g.segments, g.peerAddr, g.peerRkey, g.imm⟩

/-- The requests of a batch. -/
def Gather.requests (maxSge : Nat) (g : Gather) : List SendWr :=
  writeWrs maxSge ((g.segments.drop g.start).take g.count) ((g.peerAddr + g.base) % 2 ^ 64) g.peerRkey g.immHere

/-- The batches the loop of either driver plans, one after the other; it gets past a batch
    only if its requests fit the send pool. -/
inductive GatherReq.Turn (maxSge pool : Nat) (q : GatherReq) : Gather → Prop
  | empty (h : q.segments = []) : GatherReq.Turn maxSge pool q ⟨[], q.peerAddr, q.peerRkey, q.imm, 0, 0, 0, 0⟩
  | first (n bytes : Nat) (h : nextBatchLen q.segments maxSge pool = .ok (n, bytes)) :
      GatherReq.Turn maxSge pool q ⟨q.segments, q.peerAddr, q.peerRkey, q.imm, 0, 0, n, bytes⟩
  | next (g : Gather) (hg : GatherReq.Turn maxSge pool q g) (hfits : (g.requests maxSge).length ≤ pool) (n bytes : Nat)
      (h : nextBatchLen (q.segments.drop (g.start + g.count)) maxSge pool = .ok (n, bytes)) :
      GatherReq.Turn maxSge pool q
        ⟨q.segments, q.peerAddr, q.peerRkey, q.imm, g.start + g.count, g.base + g.bytes, n, bytes⟩

/-- All requests of a gather write on the stream. -/
def HordStream.gathered (s : HordStream) (q : GatherReq) : List SendWr :=
  gatherWrs s.conn.maxSendSge s.geo.sendPool q

/-- Those behind the first `start` segments. -/
def HordStream.behind (s : HordStream) (q : GatherReq) (start base : Nat) : List SendWr :=
  restWrs s.conn.maxSendSge s.geo.sendPool q q.segments.length (q.segments.drop start) base

/-- The send pool can carry every segment. -/
def GatherReq.Fits (s : HordStream) (q : GatherReq) : Prop :=
  0 < s.geo.sendPool ∧ ∀ seg ∈ q.segments, seg.len ≤ s.geo.sendPool * writeWrMax

/-- The stream is closed, or the peer has no window for the immediate. -/
def GatherReq.Blocked (s : HordStream) (q : GatherReq) : Prop :=
  s.peerClosed = true ∨ q.imm.isSome = true ∧ s.peerSplitCredits = 0

/-- The driver is about to post the batch `g` of `q`, having posted `log`. -/
structure Gather.Ahead (s : HordStream) (q : GatherReq) (log : List SendWr) (g : Gather) : Prop where
  turn : q.Turn s.conn.maxSendSge s.geo.sendPool g
  log : log ++ (g.wrs s ++ s.behind q (g.start + g.count) (g.base + g.bytes)) = s.gathered q

/-- The driver has posted the batch `g` of `q`, and `log` with it. -/
structure Gather.Posted (s : HordStream) (q : GatherReq) (log : List SendWr) (g : Gather) : Prop where
  turn : q.Turn s.conn.maxSendSge s.geo.sendPool g
  fits : (g.wrs s).length ≤ s.geo.sendPool
  log : log ++ s.behind q (g.start + g.count) (g.base + g.bytes) = s.gathered q

/-- A write that failed; `calm` if nothing else was to go wrong. -/
structure GatherReq.Failed (s : HordStream) (q : GatherReq) (log : List SendWr) (calm : Prop) : Prop where
  log : log <+: s.gathered q
  why : calm → q.Blocked s

section Remaining
variable {s t : HordStream} {q : GatherReq} {g : Gather} {log : List SendWr} {calm : Prop}

theorem HordStream.gathered_congr (hterms : t.terms = s.terms) (q : GatherReq) : t.gathered q = s.gathered q := by
  simp only [HordStream.terms, Prod.mk.injEq] at hterms
  rw [HordStream.gathered, hterms.2.1, hterms.2.2]
  rfl

theorem HordStream.behind_congr (hterms : t.terms = s.terms) (q : GatherReq) (start base : Nat) :
    t.behind q start base = s.behind q start base := by
  simp only [HordStream.terms, Prod.mk.injEq] at hterms
  rw [HordStream.behind, hterms.2.1, hterms.2.2]
  rfl

theorem Gather.wrs_congr (hterms : t.terms = s.terms) (g : Gather) : g.wrs t = g.wrs s := by
  simp only [HordStream.terms, Prod.mk.injEq] at hterms
  rw [Gather.wrs, hterms.2.2]
  rfl

theorem GatherReq.Turn.congr (h : q.Turn s.conn.maxSendSge s.geo.sendPool g) (hterms : t.terms = s.terms) :
    q.Turn t.conn.maxSendSge t.geo.sendPool g := by
  simp only [HordStream.terms, Prod.mk.injEq] at hterms
  rw [hterms.2.1, hterms.2.2]
  exact h

theorem Gather.Ahead.congr (h : g.Ahead s q log) (hterms : t.terms = s.terms) : g.Ahead t q log := by
  refine ⟨h.turn.congr hterms, ?_⟩
  rw [g.wrs_congr hterms, HordStream.behind_congr hterms, HordStream.gathered_congr hterms]
  exact h.log

theorem Gather.Posted.congr (h : g.Posted s q log) (hterms : t.terms = s.terms) : g.Posted t q log := by
  have hgeo : t.geo = s.geo := congrArg (·.2.1) hterms
  refine ⟨h.turn.congr hterms, ?_, ?_⟩
  · rw [g.wrs_congr hterms, hgeo]
    exact h.fits
  · rw [HordStream.behind_congr hterms, HordStream.gathered_congr hterms]
    exact h.log

theorem GatherReq.Blocked.onward (h : q.Blocked s) (hterms : t.terms = s.terms)
    (hclosed : s.peerClosed = true → t.peerClosed = true) : q.Blocked t := by
  have hwindow : t.peerSplitCredits = s.peerSplitCredits := congrArg (·.1) hterms
  exact h.imp hclosed fun h => ⟨h.1, hwindow.trans h.2⟩

theorem GatherReq.Failed.onward (h : q.Failed s log calm) (hterms : t.terms = s.terms)
    (hclosed : s.peerClosed = true → t.peerClosed = true) : q.Failed t log calm := by
  refine ⟨?_, fun hcalm => (h.why hcalm).onward hterms hclosed⟩
  rw [HordStream.gathered_congr hterms]
  exact h.log

/-- A batch and what is behind it. -/
theorem HordStream.behind_batch {start count bytes : Nat} (hlt : start < q.segments.length)
    (hnext : s.nextGatherBatch q.segments start = .ok (count, bytes)) (base : Nat) :
    s.behind q start base = writeWrs s.conn.maxSendSge ((q.segments.drop start).take count)
        ((q.peerAddr + base) % 2 ^ 64) q.peerRkey (if start + count = q.segments.length then q.imm else none) ++
      s.behind q (start + count) (base + bytes) := by
  have hne : q.segments.drop start ≠ [] := by
    rw [Ne, List.drop_eq_nil_iff]
    omega
  have hlen : (q.segments.drop start).length = q.segments.length - start := List.length_drop
  obtain ⟨n, b, hnext', hbatch, heq⟩ :=
    restWrs_batch s.conn.maxSendSge s.geo.sendPool q (q.segments.drop start) hne (q.segments.length - 1) base
  cases hnext.symm.trans hnext'
  have hpos := hbatch.pos
  have hfuel : q.segments.length - 1 + 1 = q.segments.length := by omega
  have himm : count = (q.segments.drop start).length ↔ start + count = q.segments.length := by omega
  rw [hfuel, List.drop_drop] at heq
  simp only [himm] at heq
  rw [HordStream.behind, heq, HordStream.behind]
  congr 1
  refine restWrs_fuel _ _ _ _ ?_ ?_
  · rw [List.length_drop]
    omega
  · rw [List.length_drop]
    omega

theorem HordStream.behind_end {start : Nat} (h : q.segments.length ≤ start) (base : Nat) : s.behind q start base = [] := by
  rw [HordStream.behind, List.drop_eq_nil_of_le h, restWrs_nil]

theorem HordStream.gathered_behind (h : q.segments ≠ []) : s.gathered q = s.behind q 0 0 := by
  rw [HordStream.gathered, gatherWrs, if_neg (by simpa using h)]
  rfl

/-! The batches. -/

/-- A batch belongs to its request, and the planner has cut it off. -/
theorem GatherReq.Turn.spec {maxSge pool : Nat} (h : q.Turn maxSge pool g) : g.req = q ∧
    (q.segments = [] ∨ nextBatchLen (q.segments.drop g.start) maxSge pool = .ok (g.count, g.bytes)) := by
  cases h with
  | empty hnil =>
    refine ⟨?_, .inl hnil⟩
    rw [Gather.req, ← hnil]
  | first n bytes hnext => exact ⟨rfl, .inr hnext⟩
  | next g hg hfits n bytes hnext => exact ⟨rfl, .inr hnext⟩

theorem Gather.Ahead.req (h : g.Ahead s q log) : g.req = q := h.turn.spec.1

theorem Gather.Posted.req (h : g.Posted s q log) : g.req = q := h.turn.spec.1

theorem Gather.Ahead.planned (h : g.Ahead s q log) : g.Planned s := by
  obtain ⟨hreq, hplan⟩ := h.turn.spec
  subst hreq
  exact hplan

/-- A batch ends within the segments. -/
theorem GatherReq.Turn.bound {maxSge pool : Nat} (h : q.Turn maxSge pool g) (hne : q.segments ≠ []) :
    g.start + g.count ≤ q.segments.length := by
  have hbatch := h.spec.2.resolve_left hne
  by_cases hdrop : q.segments.drop g.start = []
  · rw [hdrop] at hbatch
    cases hbatch
  · obtain ⟨n, bytes, hnext, hcut⟩ := nextBatchLen_batch hdrop maxSge pool
    cases hbatch.symm.trans hnext
    have hle := hcut.le
    rw [List.length_drop] at hle
    rw [List.drop_eq_nil_iff] at hdrop
    omega

/-- The batch the planner cuts off next. -/
theorem Gather.Ahead.next {start base count bytes : Nat} (hlt : start < q.segments.length)
    (hturn : q.Turn s.conn.maxSendSge s.geo.sendPool
      ⟨q.segments, q.peerAddr, q.peerRkey, q.imm, start, base, count, bytes⟩)
    (hlog : log ++ s.behind q start base = s.gathered q) :
    Gather.Ahead s q log ⟨q.segments, q.peerAddr, q.peerRkey, q.imm, start, base, count, bytes⟩ := by
  have hne : q.segments ≠ [] := by
    intro hnil
    rw [hnil] at hlt
    exact Nat.not_lt_zero _ hlt
  have hnext : s.nextGatherBatch q.segments start = .ok (count, bytes) := hturn.spec.2.resolve_left hne
  refine ⟨hturn, ?_⟩
  rw [← hlog, s.behind_batch hlt hnext base]
  rfl

/-- The only batch of an empty gather. -/
theorem Gather.Ahead.empty (hnil : q.segments = []) :
    Gather.Ahead s q [] ⟨[], q.peerAddr, q.peerRkey, q.imm, 0, 0, 0, 0⟩ := by
  refine ⟨.empty hnil, ?_⟩
  rw [s.behind_end (by rw [hnil]; exact Nat.zero_le _), List.append_nil, List.nil_append, HordStream.gathered, gatherWrs,
    if_pos (by rw [hnil]; rfl)]
  rfl

/-- The batch behind one that has been posted. -/
theorem Gather.Posted.onward (h : g.Posted s q log) (n bytes : Nat)
    (hnext : nextBatchLen (q.segments.drop (g.start + g.count)) s.conn.maxSendSge s.geo.sendPool = .ok (n, bytes)) :
    q.Turn s.conn.maxSendSge s.geo.sendPool
      ⟨q.segments, q.peerAddr, q.peerRkey, q.imm, g.start + g.count, g.base + g.bytes, n, bytes⟩ :=
  .next g h.turn h.fits n bytes hnext

/-! Posting a batch. -/

/-- What the driver has posted by now when it posts the batch. -/
theorem Gather.Ahead.outcome (h : g.Ahead s q log) {r : Except Fail Res} (hout : g.act.outcome s = (r, t)) :
    (∀ v, r = .ok v → g.Posted t q (log ++ posted s t)) ∧
    (∀ e, r = .error e → log ++ posted s t <+: s.gathered q) ∧
    (∀ e, r = .error (.io e) → e.kind = .wouldBlock → posted s t = []) ∧
    (∀ e, r = .error (.io e) → e.kind = .invalidInput → s.geo.sendPool < (g.wrs s).length) := by
  have hbegun : Begun s (g.wrs s) g.immHere (r.map fun _ => ()) t := by
    have hspec : wp g.act.run s fun r t => Begun s (g.wrs s) g.immHere (r.map fun _ => ()) t :=
      beginWrite_begun _ _ _ _ s
    have := Act.outcome_wp hspec
    rwa [hout] at this
  have hsame : posted s s = [] := List.drop_length
  have hsent : ∀ {ws : List SendWr} {u : HordStream}, u.conn.out = s.conn.out ++ ws → posted s u = ws := by
    intro ws u hu
    rw [posted, hu, List.drop_left]
  cases r with
  | ok v =>
    obtain ⟨hadm, fs, rfl⟩ := hbegun
    have hterms : ((List.foldl HordStream.wrote s (g.wrs s)).setFaults fs).terms = s.terms := by
      have hgeo : ∀ (ws : List SendWr) (s : HordStream), (ws.foldl HordStream.wrote s).terms = s.terms := by
        intro ws
        induction ws with
        | nil => exact fun _ => rfl
        | cons w ws ih => exact fun s => (ih (s.wrote w)).trans rfl
      exact hgeo (g.wrs s) s
    have hposted : posted s ((List.foldl HordStream.wrote s (g.wrs s)).setFaults fs) = g.wrs s := by
      refine hsent ?_
      rw [HordStream.setFaults, foldl_wrote_conn]
    refine ⟨fun w _ => ⟨h.turn.congr hterms, ?_, ?_⟩, fun e he => (by cases he), fun e he => (by cases he), fun e he => (by cases he)⟩
    · have hgeo : ((List.foldl HordStream.wrote s (g.wrs s)).setFaults fs).geo = s.geo := congrArg (·.2.1) hterms
      rw [g.wrs_congr hterms, hgeo]
      rcases hadm with ⟨hnil, -, -⟩ | hadm
      · rw [hnil]
        exact Nat.zero_le _
      · exact hadm.pool
    · rw [hposted, HordStream.behind_congr hterms, HordStream.gathered_congr hterms, List.append_assoc]
      exact h.log
  | error e =>
    refine ⟨fun v hv => (by cases hv), ?_⟩
    cases e with
    | panic m => exact hbegun.elim
    | io e =>
      rcases hbegun with ⟨hrefused, rfl⟩ | ⟨hother, -, k, -, fs, rfl⟩
      · rw [hsame, List.append_nil]
        refine ⟨fun _ _ => ⟨_, h.log⟩, fun _ _ _ => rfl, fun e' he hkind => ?_⟩
        cases he
        rw [hkind] at hrefused
        cases hrefused with
        | tooMany _ hmany => exact hmany
      · have hposted : posted s (((List.foldl HordStream.wrote s ((g.wrs s).take k)).setFaults fs).close) =
            (g.wrs s).take k := by
          refine hsent ?_
          rw [HordStream.close, HordStream.setFaults, foldl_wrote_conn]
        rw [hposted]
        refine ⟨fun _ _ => ?_, fun e' he hkind => ?_, fun e' he hkind => ?_⟩
        · rw [← h.log]
          refine (List.prefix_append_right_inj log).mpr ?_
          exact (List.take_prefix _ _).trans (List.prefix_append _ _)
        · cases he
          rw [hkind] at hother
          cases hother
        · cases he
          rw [hkind] at hother
          cases hother

/-- A batch of segments that fit is not too much for the send pool. -/
theorem Gather.Ahead.pool (h : g.Ahead s q log) (hfits : q.Fits s) : (g.wrs s).length ≤ s.geo.sendPool := by
  have hsegments : g.segments = q.segments := congrArg GatherReq.segments h.req
  have hplan : (plan ((g.segments.drop g.start).take g.count) s.conn.maxSendSge).length ≤ s.geo.sendPool := by
    cases hhead : (g.segments.drop g.start).head? with
    | none =>
      rw [List.head?_eq_none_iff.mp hhead, List.take_nil]
      exact Nat.zero_le _
    | some seg =>
      rcases h.planned with hnil | hbatch
      · rw [hnil, List.drop_nil] at hhead
        cases hhead
      · have hmem : seg ∈ q.segments := hsegments ▸ List.mem_of_mem_drop (List.mem_of_mem_head? hhead)
        exact nextBatchLen_fits hbatch hhead hfits.1 (hfits.2 seg hmem)
  rw [Gather.wrs, writeWrs_length, plannedCount]
  split
  · exact hfits.1
  · exact hplan

end Remaining

/-! The blocking driver. -/

/-- Where a gather write stands: the log and what is still to come make up the sequence. -/
inductive Next.Sends (s : HordStream) (q : GatherReq) (log : List SendWr) (calm : Prop) : Next → Prop
  | post (g : Gather) (h : g.Ahead s q log) : Next.Sends s q log calm (.cont (.doing (.post g)))
  | wait (g : Gather) (w : Wait) (h : g.Ahead s q log) : Next.Sends s q log calm (.cont (.waiting (.post g) w))
  | drain (g : Gather) (w : Wait) (h : g.Posted s q log) :
      Next.Sends s q log calm (.cont (.waiting (.drain g (.ok ())) w))
  | drainFailed (g : Gather) (e : Fail) (w : Wait) (h : q.Failed s log calm) :
      Next.Sends s q log calm (.cont (.waiting (.drain g (.error e)) w))
  | ok (v : Res) (hlog : log = s.gathered q) (hdone : s.writesPending = false) (hopen : s.peerClosed = false) :
      Next.Sends s q log calm (.ret (.ok v))
  | failed (e : Fail) (h : q.Failed s log calm) : Next.Sends s q log calm (.ret (.error e))

/-- The completion loop of a wait is steady. -/
def Job.Calm (s : HordStream) : Job → Prop
  | .waiting _ w => s.steady w.act = true
  | .doing _ => True

section Blocking
variable {s t : HordStream} {q : GatherReq} {g : Gather} {log : List SendWr} {calm : Prop}

theorem Gather.loop_sends (hreq : g.req = q)
    (hturn : ∀ n bytes, nextBatchLen (q.segments.drop g.start) s.conn.maxSendSge s.geo.sendPool = .ok (n, bytes) →
      q.Turn s.conn.maxSendSge s.geo.sendPool ⟨q.segments, q.peerAddr, q.peerRkey, q.imm, g.start, g.base, n, bytes⟩)
    (hlog : log ++ s.behind q g.start g.base = s.gathered q)
    (hend : q.segments.length ≤ g.start → s.writesPending = false ∧ s.peerClosed = false) :
    (g.loop s).Sends s q log calm := by
  subst hreq
  rw [Gather.loop]
  split
  · next hlt =>
    have hne : g.segments.drop g.start ≠ [] := by
      rw [Ne, List.drop_eq_nil_iff]
      omega
    obtain ⟨⟨count, bytes⟩, hbatch⟩ := nextBatchLen_ok hne s.conn.maxSendSge s.geo.sendPool
    have hnext : s.nextGatherBatch g.segments g.start = .ok (count, bytes) := hbatch
    rw [hnext]
    exact .post _ (Gather.Ahead.next hlt (hturn count bytes hbatch) hlog)
  · next hge =>
    have hge' : g.req.segments.length ≤ g.start := Nat.le_of_not_lt hge
    obtain ⟨hdone, hopen⟩ := hend hge'
    rw [s.behind_end hge', List.append_nil] at hlog
    exact .ok _ hlog hdone hopen

theorem drainWrites_sends (h : g.Posted s q log) : (drainWrites s g (.ok ())).Sends s q log calm := by
  unfold drainWrites
  split
  · exact .drain g _ h
  · next hdone =>
    have hdone' : s.writesPending = false := by simpa using hdone
    dsimp only
    split
    · next hclosed => exact .failed _ ⟨⟨_, h.log⟩, fun _ => .inl hclosed⟩
    · next hopen => exact Gather.loop_sends h.req h.onward h.log fun _ => ⟨hdone', by simpa using hopen⟩

theorem drainWrites_failed (g : Gather) (e : Fail) (h : q.Failed s log calm) :
    (drainWrites s g (.error e)).Sends s q log calm := by
  unfold drainWrites
  split
  · exact .drainFailed g e _ h
  · exact .failed e h

/-- A device call changes nothing a gather write looks at. -/
theorem Next.Sends.env {n : Next} (h : n.Sends s q log calm) (henv : Env s t) : n.Sends t q log calm := by
  have hterms := henv.terms
  have hclosed : s.peerClosed = true → t.peerClosed = true := henv.closed.trans
  cases h with
  | post g h => exact .post g (h.congr hterms)
  | wait g w h => exact .wait g w (h.congr hterms)
  | drain g w h => exact .drain g w (h.congr hterms)
  | drainFailed g e w h => exact .drainFailed g e w (h.onward hterms hclosed)
  | ok v hlog hdone hopen =>
    refine .ok v (hlog.trans (HordStream.gathered_congr hterms q).symm) ?_ (henv.closed.trans hopen)
    obtain ⟨_, _, _, _, _, rfl, -⟩ := henv.fields
    exact hdone
  | failed e h => exact .failed e (h.onward hterms hclosed)

/-- A wait posts nothing, and in calm it fails only by closing the stream. -/
theorem Next.Sends.waited {l : Loop} {w : Wait} {r : Except Fail Res} (hi : Inv s)
    (hstep : w.act.outcome s = (r, t)) (hcalm : calm → s.steady w.act = true) (hlog : log <+: t.gathered q)
    (hnext : (l.next t).Sends t q log calm) (hmore : ∀ w', (Next.cont (.waiting l w')).Sends t q log calm) :
    posted s t = [] ∧ ((Job.waiting l w).next t r).Sends t q log calm := by
  have hout : ∀ {Q : Except Fail Res → HordStream → Prop}, wp w.act.run s Q → Q r t := by
    intro Q hq
    have := Act.outcome_wp hq
    rwa [hstep] at this
  have hsame : t.conn.out = s.conn.out := hout (Act.polls_out w.act_polls hi.wf)
  refine ⟨by rw [posted, hsame, List.drop_length], ?_⟩
  have hflag := hout w.act_flag
  cases r with
  | ok v =>
    obtain ⟨b, rfl⟩ := hflag v rfl
    simp only [Job.next]
    split
    · exact hmore _
    · exact hnext
  | error e =>
    have hclosed : calm → t.peerClosed = true := fun hc => hout (Act.polls_steady w.act_polls hi.wf (hcalm hc))
    exact .failed e ⟨hlog, fun hc => .inl (hclosed hc)⟩

/-- Posting a batch. -/
theorem Gather.Ahead.sends (h : g.Ahead s q log) (hi : Inv s) (hcalm : calm → q.Fits s) {r : Except Fail Res}
    (hterms : t.terms = s.terms) (hstep : g.act.outcome s = (r, t)) :
    ((Point.post g).next t r).Sends t q (log ++ posted s t) calm := by
  obtain ⟨hok, herr, hpressed, -⟩ := h.outcome hstep
  have hunit : ∀ v, r = .ok v → v = .unit := by
    have hspec : wp g.act.run s fun r _ => ∀ v, r = .ok v → v = .unit := beginWrite_unit _ _ _ _
    have := Act.outcome_wp hspec
    rwa [hstep] at this
  have hbegun : ∀ e, r = .error e → log ++ posted s t <+: t.gathered q := by
    intro e he
    rw [HordStream.gathered_congr hterms]
    exact herr e he
  have hsame : posted s s = [] := List.drop_length
  cases g.batched hi hstep with
  | ok v t hpool =>
    obtain rfl := hunit v rfl
    exact drainWrites_sends (hok _ rfl)
  | closed e t hclosed hkind hpool =>
    simp only [Point.next, if_neg hkind]
    exact drainWrites_failed g _ ⟨hbegun _ rfl, fun _ => .inl hclosed⟩
  | tooMany e hmany hkind =>
    simp only [Point.next, if_neg hkind]
    refine drainWrites_failed g _ ⟨hbegun _ rfl, fun hc => ?_⟩
    exact absurd (h.pool (hcalm hc)) (Nat.not_le.mpr hmany)
  | pressed e hkind hflags =>
    rw [hsame, List.append_nil, Point.next_pressed g hkind, if_pos hflags]
    exact .wait g _ h
  | stalled e hkind hflags himm hwindow =>
    rw [hsame, List.append_nil, Point.next_pressed g hkind, if_neg (by rw [hflags]; decide)]
    refine .failed _ ⟨⟨_, h.log⟩, fun _ => .inr ⟨?_, hwindow⟩⟩
    have himm' : g.imm = q.imm := congrArg GatherReq.imm h.req
    rw [Gather.immHere] at himm
    split at himm
    · rw [← himm']
      exact himm
    · cases himm

/-- One step of a gather write. -/
theorem Next.Sends.step {j : Job} {r : Except Fail Res} (h : (Next.cont j).Sends s q log calm) (hi : Inv s)
    (hstep : j.act.outcome s = (r, t)) (hcalm : calm → q.Fits s ∧ j.Calm s) :
    (j.next t r).Sends t q (log ++ posted s t) calm := by
  have hreach : Reaches s t := Act.outcome_reaches hi.wf hstep
  have hterms := hreach.terms
  have hbegun : ∀ {ws : List SendWr}, log ++ ws = s.gathered q → log <+: t.gathered q := by
    intro ws hws
    rw [HordStream.gathered_congr hterms, ← hws]
    exact List.prefix_append ..
  cases h with
  | post g h => exact h.sends hi (fun hc => (hcalm hc).1) hterms hstep
  | wait g w h =>
    have h' := h.congr hterms
    obtain ⟨hnone, hsends⟩ := Next.Sends.waited (l := .post g) hi hstep (fun hc => (hcalm hc).2) (hbegun h.log)
      (.post g h') (fun w' => .wait g w' h')
    rw [hnone, List.append_nil]
    exact hsends
  | drain g w h =>
    have h' := h.congr hterms
    obtain ⟨hnone, hsends⟩ := Next.Sends.waited (l := .drain g (.ok ())) hi hstep (fun hc => (hcalm hc).2)
      (hbegun h.log) (drainWrites_sends h') (fun w' => .drain g w' h')
    rw [hnone, List.append_nil]
    exact hsends
  | drainFailed g e w h =>
    have h' : q.Failed t log calm := h.onward hterms hreach.stays_closed
    obtain ⟨hnone, hsends⟩ := Next.Sends.waited (l := .drain g (.error e)) hi hstep (fun hc => (hcalm hc).2) h'.log
      (drainWrites_failed g e h') (fun w' => .drainFailed g e w' h')
    rw [hnone, List.append_nil]
    exact hsends

/-- The gather write a call makes, if it is one. -/
def Call.request : Call → Option GatherReq
  | .rdmaWriteAll src srcOff peerAddr peerRkey len imm =>
    match WriteSegment.fromRegistered src srcOff len with
    | .ok seg => some ⟨[seg], peerAddr, peerRkey, imm⟩
    | .error _ => none
  | .rdmaWriteGatherAll segments peerAddr peerRkey imm => some ⟨segments, peerAddr, peerRkey, imm⟩
  | _ => none

/-- A single segment is a batch. -/
theorem nextGatherBatch_single (s : HordStream) (seg : WriteSegment) : s.nextGatherBatch [seg] 0 = .ok (1, seg.len) := by
  obtain ⟨n, bytes, hnext, hbatch⟩ :=
    nextBatchLen_batch (List.cons_ne_nil seg []) s.conn.maxSendSge s.geo.sendPool
  have hn : n = 1 := Nat.le_antisymm hbatch.le hbatch.pos
  have hbytes : bytes = seg.len := by
    rw [hbatch.bytes, hn]
    simp
  rw [← hn, ← hbytes]
  exact hnext

theorem Call.start_sends {c : Call} (h : c.request = some q) : (c.start s).Sends s q [] calm := by
  cases c with
  | rdmaWriteAll src srcOff peerAddr peerRkey len imm =>
    simp only [Call.request, Call.start] at h ⊢
    split at h
    · next seg hseg =>
      cases h
      have hlen : seg.len = len := by
        rw [WriteSegment.fromRegistered] at hseg
        split at hseg
        · cases hseg
          rfl
        · cases hseg
      simp only [hseg]
      refine .post _ (Gather.Ahead.next (q := ⟨[seg], peerAddr, peerRkey, imm⟩) (Nat.zero_lt_one) ?_ ?_)
      · refine .first 1 len ?_
        rw [← hlen]
        exact nextGatherBatch_single s seg
      · rw [List.nil_append]
        exact (HordStream.gathered_behind (List.cons_ne_nil seg [])).symm
    · cases h
  | rdmaWriteGatherAll segments peerAddr peerRkey imm =>
    cases h
    rw [Call.start]
    split
    · next hnil => exact .post _ (Gather.Ahead.empty (List.isEmpty_iff.mp hnil))
    · next hne =>
      have hne' : segments ≠ [] := by simpa using hne
      refine Gather.loop_sends rfl (fun n bytes hnext => .first n bytes hnext) ?_ fun hle => ?_
      · rw [List.nil_append]
        exact (HordStream.gathered_behind hne').symm
      · exact absurd (List.length_pos_iff.mpr hne') (Nat.not_lt.mpr hle)
  | _ => cases h

end Blocking

/-- What the call its owner is in has posted when a step is over. -/
def logged (log : List SendWr) (s t : HordStream) : Doing → List SendWr
  | .enter _ => []
  | .move (.act _ _) => log ++ posted s t
  | _ => log

/-- A step of an owner's endpoint, with the requests the call its owner is in has posted. -/
def Owner.Logged (u : Owner × List SendWr) (l : Doing) (v : Owner × List SendWr) : Prop :=
  Owner.Step u.1 l v.1 ∧ v.2 = logged u.2 u.1.stream v.1.stream l

/-- The send pool can carry every segment of the gather write the owner is in, and the
    completion loop it waits in does not fail. -/
def Owner.Calm (o : Owner) (l : Doing) : Prop :=
  match o.call, l with
  | some ⟨c, .cont j, _⟩, .move (.act _ _) => ∀ q, c.request = some q → q.Fits o.stream ∧ j.Calm o.stream
  | _, _ => True

/-- Where the gather write of an owner stands. -/
def Owner.Sends (calm : Prop) (u : Owner × List SendWr) : Prop :=
  u.1.party.Ok ∧ ∀ c q n took, u.1.call = some ⟨c, n, took⟩ → u.1.party.phase = .up ∧
    (c.request = some q → n.Sends u.1.stream q u.2 calm)

section Owners
variable {calm : Prop} {u v : Owner × List SendWr} {l : Doing}

theorem Owner.Sends.step (h : Owner.Sends calm u) (hs : Owner.Logged u l v) (hcalm : calm → u.1.Calm l) :
    Owner.Sends calm v := by
  obtain ⟨o, log⟩ := u
  obtain ⟨o', log'⟩ := v
  obtain ⟨hstep, hlog⟩ := hs
  obtain ⟨hok, hcall⟩ := h
  simp only at hstep hlog hok hcall hcalm
  subst hlog
  cases hstep with
  | enter c hup hidle =>
    refine ⟨hok, fun c' q n took hc => ?_⟩
    cases hc
    exact ⟨hup, Call.start_sends⟩
  | leave c r took hc => exact ⟨hok, fun c' q n took hc' => (by cases hc')⟩
  | other m p hm hact =>
    refine ⟨hm.ok hok, fun c q n took hc => ?_⟩
    obtain ⟨hup, hn⟩ := hcall c q n took hc
    obtain ⟨t, henv, rfl⟩ := hm.device hact hup
    have hsame : logged log o.stream t (.move m) = log := by
      cases m <;> first | rfl | cases hact
    refine ⟨hup, fun hq => ?_⟩
    show n.Sends t q (logged log o.stream t (.move m)) calm
    rw [hsame]
    exact (hn hq).env henv
  | act c j took r p hc hp =>
    obtain ⟨hup, rfl, rfl⟩ := hp.outcome
    refine ⟨hp.ok hok, fun c' q n took' hc' => ?_⟩
    cases hc'
    refine ⟨hup, fun hq => ?_⟩
    refine ((hcall c q _ took hc).2 hq).step (hok.inv hup) rfl fun hcalm' => ?_
    have hjob := hcalm hcalm'
    simp only [Owner.Calm, hc] at hjob
    exact hjob q hq

theorem Owner.Sends.run {o₀ : Owner} {log : List SendWr} {ls : List Doing} (hinit : o₀.Init)
    (hrun : Run (fun u l v => Owner.Logged u l v ∧ (calm → u.1.Calm l)) (o₀, log) ls u) : Owner.Sends calm u := by
  refine hrun.inv (I := Owner.Sends calm) (fun _ _ _ h hs => h.step hs.1 hs.2) ⟨hinit.1.ok, ?_⟩
  intro c q n took hc
  rw [show o₀.call = none from hinit.2] at hc
  cases hc

end Owners

/-! The async driver. -/

namespace Drive
variable {u v : Drive} {q : GatherReq} {log : List SendWr} {calm : Prop} {l : DriveEvent} {config : HordConfig}

/-- Where an async write stands: the log and what is still to come make up the sequence. -/
def Sends (u : Drive) (q : GatherReq) (log : List SendWr) (calm : Prop) : Prop :=
  match u.pc with
  | .start => u.gather = ⟨q.segments, q.peerAddr, q.peerRkey, q.imm, 0, 0, 0, 0⟩ ∧ log = []
  | .post => u.gather.Ahead u.stream q log
  | .pressed => u.gather.Ahead u.stream q log
  | .draining (.ok ()) => u.gather.Posted u.stream q log
  | .draining (.error _) => q.Failed u.stream log calm
  | .resolved (.ok ()) => log = u.stream.gathered q
  | .resolved (.error _) => q.Failed u.stream log calm
  | .cancelled => log <+: u.stream.gathered q

/-- The stream has moved on; the future has not. -/
theorem Sends.onward (h : u.Sends q log calm) {w : Drive} (hon : Onward u.stream w.stream) (hpc : w.pc = u.pc)
    (hgather : w.gather = u.gather) : w.Sends q log calm := by
  have hsame := HordStream.gathered_congr hon.terms q
  rw [Sends, hpc, hgather]
  rw [Sends] at h
  cases hu : u.pc with
  | start =>
    rw [hu] at h
    exact h
  | post =>
    rw [hu] at h
    exact Gather.Ahead.congr h hon.terms
  | pressed =>
    rw [hu] at h
    exact Gather.Ahead.congr h hon.terms
  | draining posted =>
    rw [hu] at h
    cases posted with
    | ok _ => exact Gather.Posted.congr h hon.terms
    | error _ => exact GatherReq.Failed.onward h hon.terms hon.closed
  | resolved r =>
    rw [hu] at h
    cases r with
    | ok _ => exact Eq.trans h hsame.symm
    | error _ => exact GatherReq.Failed.onward h hon.terms hon.closed
  | cancelled =>
    rw [hu] at h
    rw [hsame]
    exact h

/-- What has been posted is a beginning of the sequence. -/
theorem Sends.begun (h : u.Sends q log calm) : log <+: u.stream.gathered q := by
  rw [Sends] at h
  cases hu : u.pc with
  | start =>
    rw [hu] at h
    rw [h.2]
    exact List.nil_prefix
  | post =>
    rw [hu] at h
    exact ⟨_, h.log⟩
  | pressed =>
    rw [hu] at h
    exact ⟨_, h.log⟩
  | draining posted =>
    rw [hu] at h
    cases posted with
    | ok _ => exact ⟨_, h.log⟩
    | error _ => exact h.log
  | resolved r =>
    rw [hu] at h
    cases r with
    | ok _ =>
      have hall : log = u.stream.gathered q := h
      exact hall ▸ List.prefix_refl log
    | error _ => exact h.log
  | cancelled =>
    rw [hu] at h
    exact h

/-- The future is given up. -/
theorem cancel_sends (h : log <+: u.stream.gathered q) : u.cancel.Sends q log calm := by
  have hterms : u.cancel.stream.terms = u.stream.terms := by
    have hstream : u.cancel.stream =
        if u.stream.writesPending then
          { u.stream with conn := { u.stream.conn with disconnected := true, qp := false } }
        else u.stream := rfl
    rw [hstream]
    cases u.stream.writesPending <;> rfl
  show log <+: u.cancel.stream.gathered q
  rw [HordStream.gathered_congr hterms]
  exact h

/-- The next batch is planned. -/
theorem plan_sends (hreq : u.gather.req = q) (hlt : u.gather.start < q.segments.length)
    (hturn : ∀ n bytes, nextBatchLen (q.segments.drop u.gather.start) u.stream.conn.maxSendSge u.stream.geo.sendPool =
        .ok (n, bytes) →
      q.Turn u.stream.conn.maxSendSge u.stream.geo.sendPool
        ⟨q.segments, q.peerAddr, q.peerRkey, q.imm, u.gather.start, u.gather.base, n, bytes⟩)
    (hlog : log ++ u.stream.behind q u.gather.start u.gather.base = u.stream.gathered q) : u.plan.Sends q log calm := by
  subst hreq
  have hne : u.gather.segments.drop u.gather.start ≠ [] := by
    rw [Ne, List.drop_eq_nil_iff]
    exact Nat.not_le.mpr hlt
  obtain ⟨⟨count, bytes⟩, hbatch⟩ := nextBatchLen_ok hne u.stream.conn.maxSendSge u.stream.geo.sendPool
  have hnext : u.stream.nextGatherBatch u.gather.segments u.gather.start = .ok (count, bytes) := hbatch
  have hsome : ¬u.gather.segments.isEmpty = true := by
    intro hnil
    rw [List.isEmpty_iff.mp hnil, List.drop_nil] at hne
    exact hne rfl
  rw [plan, if_neg hsome, hnext]
  exact Gather.Ahead.next hlt (hturn count bytes hbatch) hlog

theorem start_sends (h : u.gather = ⟨q.segments, q.peerAddr, q.peerRkey, q.imm, 0, 0, 0, 0⟩) :
    u.plan.Sends q [] calm := by
  by_cases hnil : q.segments = []
  · have hempty : u.gather = ⟨[], q.peerAddr, q.peerRkey, q.imm, 0, 0, 0, 0⟩ := by rw [h, hnil]
    rw [plan, hempty]
    exact Gather.Ahead.empty hnil
  · refine plan_sends (by rw [h]; rfl) ?_ ?_ ?_
    · rw [h]
      exact List.length_pos_iff.mpr hnil
    · rw [h]
      exact fun n bytes hnext => .first n bytes hnext
    · rw [h, List.nil_append]
      exact (HordStream.gathered_behind hnil).symm

/-- A batch that has been posted is over when its writes are acknowledged. -/
theorem settle_sends (h : u.gather.Posted u.stream q log) : (u.settle (.ok ())).Sends q log calm := by
  have hsegments : u.gather.segments = q.segments := congrArg GatherReq.segments h.req
  unfold settle
  split
  · exact h
  · dsimp only
    split
    · next hclosed => exact ⟨⟨_, h.log⟩, fun _ => .inl hclosed⟩
    · split
      · next hlast =>
        -- nothing is behind the last batch
        have hend : q.segments.length ≤ u.gather.start + u.gather.count := by
          rw [isLast, hsegments, Bool.or_eq_true, beq_iff_eq] at hlast
          rcases hlast with hnil | hall
          · rw [List.isEmpty_iff.mp hnil]
            exact Nat.zero_le _
          · exact hall.ge
        have hlog := h.log
        rw [u.stream.behind_end hend, List.append_nil] at hlog
        exact hlog
      · next hmore =>
        rw [isLast, hsegments, Bool.or_eq_true, not_or, beq_iff_eq] at hmore
        have hbound := h.turn.bound fun hnil => hmore.1 (List.isEmpty_iff.mpr hnil)
        exact plan_sends h.req (Nat.lt_of_le_of_ne hbound hmore.2) h.onward h.log

theorem settle_failed {e : Fail} (h : q.Failed u.stream log calm) : (u.settle (.error e)).Sends q log calm := by
  unfold settle
  split
  · exact h
  · exact h

/-- Posting a batch. -/
theorem posted_sends (hi : Inv u.stream) (h : u.gather.Ahead u.stream q log) (hcalm : calm → q.Fits u.stream) :
    u.posted.Sends q (log ++ Hord.posted u.stream (u.gather.act.outcome u.stream).2) calm := by
  unfold posted
  generalize hout : u.gather.act.outcome u.stream = o
  obtain ⟨r, t⟩ := o
  dsimp only
  have hbatch := u.gather.batched hi hout
  obtain ⟨hok, herr, -, -⟩ := h.outcome hout
  have hterms : t.terms = u.stream.terms := (Act.outcome_reaches hi.wf hout).terms
  have hbegun : ∀ e, r = .error e → log ++ Hord.posted u.stream t <+: t.gathered q := by
    intro e he
    rw [HordStream.gathered_congr hterms]
    exact herr e he
  have hsame : Hord.posted u.stream u.stream = [] := List.drop_length
  generalize hstream : u.stream = s at *
  cases hbatch with
  | ok v t hpool => exact settle_sends (hok v rfl)
  | closed e t hclosed hkind hpool =>
    simp only [if_neg hkind]
    exact settle_failed ⟨hbegun _ rfl, fun _ => .inl hclosed⟩
  | tooMany e hmany hkind =>
    simp only [if_neg hkind]
    refine settle_failed ⟨hbegun _ rfl, fun hc => ?_⟩
    exact absurd (h.pool (hcalm hc)) (Nat.not_le.mpr hmany)
  | pressed e hkind hflags =>
    have hbusy : (!t.sendsOutstanding && !t.writesPending) = false := by
      rw [← Bool.not_or, hflags]
      rfl
    rw [hsame, List.append_nil]
    simp only [if_pos hkind]
    change Sends (if (!t.sendsOutstanding && !t.writesPending) = true then _ else _) q log calm
    rw [hbusy]
    exact h
  | stalled e hkind hflags himm hwindow =>
    have hidle : (!t.sendsOutstanding && !t.writesPending) = true := by
      rw [← Bool.not_or, hflags]
      rfl
    have himm' : u.gather.imm = q.imm := congrArg GatherReq.imm h.req
    rw [hsame, List.append_nil]
    simp only [if_pos hkind]
    change Sends (if (!t.sendsOutstanding && !t.writesPending) = true then _ else _) q log calm
    rw [hidle]
    refine ⟨⟨_, h.log⟩, fun _ => .inr ⟨?_, hwindow⟩⟩
    rw [Gather.immHere] at himm
    split at himm
    · rw [← himm']
      exact himm
    · cases himm

/-- The send pool can carry every segment, and the completion loop does not fail. -/
def Calm (u : Drive) (q : GatherReq) : DriveEvent → Prop
  | .posted => q.Fits u.stream
  | .events m => u.reactor.Steady m
  | _ => True

/-- A step of an async write, with the requests it has posted. -/
def Logged (u : Drive × List SendWr) (l : DriveEvent) (v : Drive × List SendWr) : Prop :=
  Step u.1 l v.1 ∧ v.2 = match l with
    | .posted => u.2 ++ Hord.posted u.1.stream (u.1.gather.act.outcome u.1.stream).2
    | _ => u.2

/-- Where an async write and its stream stand. -/
def Sending (config : HordConfig) (q : GatherReq) (calm : Prop) (u : Drive × List SendWr) : Prop :=
  Party.Ok ⟨config, u.1.stream, .up⟩ ∧ u.1.Sends q u.2 calm

section Steps
variable {u v : Drive × List SendWr}

theorem Sending.step (h : Sending config q calm u) (hs : Logged u l v) (hcalm : calm → u.1.Calm q l) :
    Sending config q calm v := by
  obtain ⟨d, log⟩ := u
  obtain ⟨d', log'⟩ := v
  obtain ⟨hstep, hlog⟩ := hs
  obtain ⟨hparty, hsends⟩ := h
  simp only at hstep hlog hparty hsends hcalm
  subst hlog
  refine ⟨hstep.ok hparty, ?_⟩
  cases hstep with
  | outer m r hl hr => exact hsends.onward (hr.onward hparty) rfl rfl
  | others m r hp hl hr => exact hsends.onward (hr.onward hparty) rfl rfl
  | drop hp hr hpc => exact cancel_sends hsends.begun
  | poll hp hr hpc =>
    unfold poll
    rw [Sends] at hsends
    cases hd : d.pc with
    | start =>
      rw [hd] at hsends
      obtain ⟨hg, rfl⟩ := hsends
      exact start_sends hg
    | draining posted =>
      rw [hd] at hsends
      cases posted with
      | ok _ => exact settle_sends hsends
      | error _ => exact settle_failed hsends
    | pressed =>
      rw [hd] at hsends
      exact hsends
    | _ =>
      rw [hd] at hpc
      rcases hpc with hpc | hpc <;> cases hpc
  | post hp hpc =>
    rw [Sends, hpc] at hsends
    exact posted_sends hparty.1 hsends hcalm
  | events m r hp hpc hl hr =>
    have hon := hr.onward hparty
    have hnow : Sends { d with reactor := r } q log calm := hsends.onward hon rfl rfl
    have hbegun : log <+: r.stream.gathered q := hnow.begun
    unfold Drive.after
    cases m with
    | ready =>
      rw [Sends] at hnow
      cases hd : d.pc with
      | draining posted =>
        simp only [hd] at hnow
        cases posted with
        | ok _ => exact settle_sends hnow
        | error _ => exact settle_failed hnow
      | pressed =>
        simp only [hd] at hnow
        exact hnow
      | _ =>
        rw [hd] at hpc
        cases hpc
    | failed => exact ⟨hbegun, fun hc => .inl (hr.failed_closes hparty.1.wf (hcalm hc))⟩
    | _ => exact hnow

theorem Sending.run {u₀ : Drive} {ls : List DriveEvent} (hinit : u₀.Init config q.segments q.peerAddr q.peerRkey q.imm)
    (hrun : Run (fun u l v => Logged u l v ∧ (calm → u.1.Calm q l)) (u₀, []) ls u) : Sending config q calm u := by
  refine hrun.inv (I := Sending config q calm) (fun _ _ _ h hs => h.step hs.1 hs.2) ⟨hinit.1, ?_⟩
  rw [Sends, hinit.2.2.2.1]
  exact ⟨hinit.2.2.2.2, rfl⟩

end Steps

end Drive

/-! Delivery. -/

/-- What the requests of a gather write deliver: every byte of the segments, in order, at
    contiguous addresses from the peer's on, and the immediate with the last of them. -/
structure GatherReq.Delivers (q : GatherReq) (ws : List SendWr) : Prop where
  placed : ws.flatMap SendWr.placed = placedFrom q.peerAddr (q.segments.flatMap WriteSegment.bytes)
  plain : q.imm = none → ∀ w ∈ ws, w.imm = none
  signalled : ∀ id, q.imm = some id →
    ∃ init last, ws = init ++ [last] ∧ (∀ w ∈ init, w.imm = none) ∧ last.imm = some id
  empty : (q.segments.map WriteSegment.len).sum = 0 →
    ws = if q.imm.isSome then [.write (immWriteWrId 0) [] (q.peerAddr % 2 ^ 64) q.peerRkey q.imm] else []

theorem gatherWrs_delivers (maxSge pool : Nat) (q : GatherReq) : q.Delivers (gatherWrs maxSge pool q) where
  placed := gatherWrs_placed maxSge pool q
  plain := gatherWrs_none
  signalled _ himm := gatherWrs_last himm
  empty hzero := by
    rw [gatherWrs_empty hzero, writeWrs, plan_nil_of_empty rfl]
    rfl

section Delivery
variable {s : HordStream} {q : GatherReq} {g : Gather} {log : List SendWr} {calm : Prop}

theorem Next.Sends.begun {n : Next} (h : n.Sends s q log calm) : log <+: s.gathered q := by
  cases h with
  | post g h => exact ⟨_, h.log⟩
  | wait g w h => exact ⟨_, h.log⟩
  | drain g w h => exact ⟨_, h.log⟩
  | drainFailed g e w h => exact h.log
  | ok v hlog hdone hopen => exact hlog ▸ List.prefix_refl log
  | failed e h => exact h.log

/-- A batch of segments that fit is never invalid. -/
theorem Gather.Ahead.valid (h : g.Ahead s q log) (hfits : q.Fits s) {e : IoError}
    (herr : (g.act.outcome s).1 = .error (.io e)) : e.kind ≠ .invalidInput := by
  intro hkind
  obtain ⟨-, -, -, hmany⟩ := h.outcome (r := (g.act.outcome s).1) (t := (g.act.outcome s).2) rfl
  exact absurd (h.pool hfits) (Nat.not_le.mpr (hmany e herr hkind))

end Delivery

/-- A gather write posts a beginning of one sequence of requests, whichever driver it has,
    and the whole of it when it returns `Ok`; no batch of segments that fit the send pool is
    invalid. If also the completion loop does not fail, it fails only where the stream is
    closed, or where an immediate finds a peer without a window. -/
theorem gathers_deliver (q : GatherReq) :
    (∀ maxSge pool, q.Delivers (gatherWrs maxSge pool q)) ∧
    (∀ (o₀ : Owner) (ls : List Doing) (u : Owner × List SendWr), o₀.Init → Run Owner.Logged (o₀, []) ls u →
      ∀ c n took, u.1.call = some ⟨c, n, took⟩ → c.request = some q →
        u.2 <+: u.1.stream.gathered q ∧ (∀ v, n = .ret (.ok v) → u.2 = u.1.stream.gathered q) ∧
        ∀ g e, n = .cont (.doing (.post g)) → q.Fits u.1.stream →
          (g.act.outcome u.1.stream).1 = .error (.io e) → e.kind ≠ .invalidInput) ∧
    (∀ (config : HordConfig) (u₀ : Drive) (ls : List DriveEvent) (u : Drive × List SendWr),
      u₀.Init config q.segments q.peerAddr q.peerRkey q.imm → Run Drive.Logged (u₀, []) ls u →
        u.2 <+: u.1.stream.gathered q ∧ (u.1.pc = .resolved (.ok ()) → u.2 = u.1.stream.gathered q) ∧
        ∀ e, u.1.pc = .post → q.Fits u.1.stream →
          (u.1.gather.act.outcome u.1.stream).1 = .error (.io e) → e.kind ≠ .invalidInput) ∧
    (∀ (o₀ : Owner) (ls : List Doing) (u : Owner × List SendWr), o₀.Init →
      Run (fun u l v => Owner.Logged u l v ∧ u.1.Calm l) (o₀, []) ls u →
      ∀ c e took, u.1.call = some ⟨c, .ret (.error e), took⟩ → c.request = some q → q.Blocked u.1.stream) ∧
    ∀ (config : HordConfig) (u₀ : Drive) (ls : List DriveEvent) (u : Drive × List SendWr),
      u₀.Init config q.segments q.peerAddr q.peerRkey q.imm →
      Run (fun u l v => Drive.Logged u l v ∧ u.1.Calm q l) (u₀, []) ls u →
        ∀ e, u.1.pc = .resolved (.error e) → q.Blocked u.1.stream := by
  refine ⟨fun maxSge pool => gatherWrs_delivers maxSge pool q, ?_, ?_, ?_, ?_⟩
  · intro o₀ ls u hinit hrun c n took hcall hreq
    have hany : Run (fun u l v => Owner.Logged u l v ∧ (False → u.1.Calm l)) (o₀, []) ls u :=
      hrun.mono fun _ _ _ hs => ⟨hs, False.elim⟩
    have hn := ((Owner.Sends.run hinit hany).2 c q n took hcall).2 hreq
    refine ⟨hn.begun, fun v hv => ?_, fun g e hg hfits herr => ?_⟩
    · subst hv
      cases hn with
      | ok v hlog hdone hopen => exact hlog
    · subst hg
      cases hn with
      | post g h => exact h.valid hfits herr
  · intro config u₀ ls u hinit hrun
    have hany : Run (fun u l v => Drive.Logged u l v ∧ (False → u.1.Calm q l)) (u₀, []) ls u :=
      hrun.mono fun _ _ _ hs => ⟨hs, False.elim⟩
    have hu := (Drive.Sending.run hinit hany).2
    refine ⟨Drive.Sends.begun hu, fun hpc => ?_, fun e hpc hfits herr => ?_⟩
    · rw [Drive.Sends, hpc] at hu
      exact hu
    · rw [Drive.Sends, hpc] at hu
      exact hu.valid hfits herr
  · intro o₀ ls u hinit hrun c e took hcall hreq
    have hcalm : Run (fun u l v => Owner.Logged u l v ∧ (True → u.1.Calm l)) (o₀, []) ls u :=
      hrun.mono fun _ _ _ hs => ⟨hs.1, fun _ => hs.2⟩
    have hn := ((Owner.Sends.run hinit hcalm).2 c q _ took hcall).2 hreq
    cases hn with
    | failed e h => exact h.why trivial
  · intro config u₀ ls u hinit hrun e hpc
    have hcalm : Run (fun u l v => Drive.Logged u l v ∧ (True → u.1.Calm q l)) (u₀, []) ls u :=
      hrun.mono fun _ _ _ hs => ⟨hs.1, fun _ => hs.2⟩
    have hu := (Drive.Sending.run hinit hcalm).2
    rw [Drive.Sends, hpc] at hu
    exact hu.why trivial

/-! Runs that can be computed. -/

instance GatherReq.decidableFits (s : HordStream) (q : GatherReq) : Decidable (q.Fits s) :=
  inferInstanceAs (Decidable (_ ∧ _))

instance Job.decidableCalm (s : HordStream) (j : Job) : Decidable (j.Calm s) :=
  match j with
  | .waiting _ w => inferInstanceAs (Decidable (s.steady w.act = true))
  | .doing _ => .isTrue trivial

namespace Owner

/-- `Owner.Calm`, computed. -/
def calmly (o : Owner) (l : Doing) : Bool :=
  match o.call, l with
  | some ⟨c, .cont j, _⟩, .move (.act _ _) =>
    match c.request with
    | some q => decide (q.Fits o.stream) && decide (j.Calm o.stream)
    | none => true
  | _, _ => true

theorem calmly_iff {o : Owner} {l : Doing} (h : o.calmly l = true) : o.Calm l := by
  unfold calmly at h
  unfold Calm
  split at h
  · split at h
    · next q hq =>
      rw [Bool.and_eq_true, decide_eq_true_eq, decide_eq_true_eq] at h
      intro q' hq'
      cases hq.symm.trans hq'
      exact h
    · next hnone =>
      intro q' hq'
      cases hnone.symm.trans hq'
  · trivial

def execLogged (u : Owner × List SendWr) (c : Play) : Option (Doing × (Owner × List SendWr)) :=
  (u.1.exec c).map fun r => (r.1, (r.2, logged u.2 u.1.stream r.2.stream r.1))

theorem execLogged_step (u : Owner × List SendWr) (c : Play) (l : Doing) (v : Owner × List SendWr)
    (h : execLogged u c = some (l, v)) : Logged u l v := by
  simp only [execLogged, Option.map_eq_some_iff] at h
  obtain ⟨⟨l', o⟩, hexec, heq⟩ := h
  cases heq
  exact ⟨exec_step _ _ _ _ hexec, rfl⟩

/-- Build an endpoint in no call and carry a script out, in calm. -/
theorem launch_logged (config : HordConfig) (cs : List Play) (good : Owner × List SendWr → Bool)
    (h : (newCommon (Connection.new 1) config).toOption.any (fun s =>
      (play execLogged (fun u l => u.1.calmly l) (⟨⟨config, s, .fresh⟩, none⟩, []) cs).any
        fun r => good r.2) = true) :
    ∃ o₀ ls u, o₀.Init ∧ Run (fun u l v => Logged u l v ∧ u.1.Calm l) (o₀, []) ls u ∧ good u = true := by
  obtain ⟨p, ls, u, hinit, hrun, hgood⟩ := Party.play_run execLogged_step (fun p => (⟨p, none⟩, []))
    (fun u l => u.1.calmly l) config cs (fun _ u => good u) h
  exact ⟨⟨p, none⟩, ls, u, ⟨hinit, rfl⟩, hrun.mono fun _ _ _ hs => ⟨hs.1, calmly_iff hs.2⟩, hgood⟩

/-- Whether the call `c` has returned, and how. -/
def ended (o : Owner) (c : Call) (ok : Bool) : Bool :=
  match o.call with
  | some ⟨c', .ret r, _⟩ => decide (c' = c) && (r.toBool == ok)
  | _ => false

theorem ended_call {o : Owner} {c : Call} {ok : Bool} (h : o.ended c ok = true) :
    ∃ r took, o.call = some ⟨c, .ret r, took⟩ ∧ r.toBool = ok := by
  unfold ended at h
  split at h
  · next c' r took hcall =>
    rw [Bool.and_eq_true, decide_eq_true_eq, beq_iff_eq] at h
    rw [← h.1]
    exact ⟨r, took, hcall, h.2⟩
  · cases h

end Owner

namespace Drive

/-- `Drive.Calm`, computed. -/
def calmly (q : GatherReq) (u : Drive) : DriveEvent → Bool
  | .posted => decide (q.Fits u.stream)
  | .events m =>
    match u.reactor.pc.act with
    | some a => u.stream.steady a
    | none => decide (m ≠ .failed)
  | _ => true

theorem calmly_iff {q : GatherReq} {u : Drive} {l : DriveEvent} (h : u.calmly q l = true) : u.Calm q l := by
  cases l with
  | posted =>
    show q.Fits u.stream
    exact of_decide_eq_true h
  | events m =>
    show Reactor.Steady _ m
    rw [Reactor.Steady]
    rw [calmly] at h
    cases hpc : u.reactor.pc.act with
    | some a =>
      rw [hpc] at h
      exact h
    | none =>
      rw [hpc] at h
      exact of_decide_eq_true h
  | _ => trivial

def execLogged (u : Drive × List SendWr) (c : Prompt) : Option (DriveEvent × (Drive × List SendWr)) :=
  (u.1.exec c).map fun r => (r.1, (r.2, match r.1 with
    | .posted => u.2 ++ Hord.posted u.1.stream (u.1.gather.act.outcome u.1.stream).2
    | _ => u.2))

theorem execLogged_step (u : Drive × List SendWr) (c : Prompt) (l : DriveEvent) (v : Drive × List SendWr)
    (h : execLogged u c = some (l, v)) : Logged u l v := by
  simp only [execLogged, Option.map_eq_some_iff] at h
  obtain ⟨⟨l', o⟩, hexec, heq⟩ := h
  cases heq
  exact ⟨exec_step _ _ _ _ hexec, rfl⟩

/-- A script for a write on an established stream, in calm. -/
theorem launch_logged (config : HordConfig) (setup : List Cmd) (q : GatherReq) (cs : List Prompt)
    (good : List DriveEvent → Drive × List SendWr → Bool)
    (h : (Party.launch (fun _ _ => true) config setup).any (fun p => decide (p.phase = .up) &&
      (play execLogged (fun u l => u.1.calmly q l)
        (begin p.stream q.segments q.peerAddr q.peerRkey q.imm, []) cs).any fun r => good r.1 r.2) = true) :
    ∃ config' u₀ ls u, u₀.Init config' q.segments q.peerAddr q.peerRkey q.imm ∧
      Run (fun u l v => Logged u l v ∧ u.1.Calm q l) (u₀, []) ls u ∧ good ls u = true := by
  obtain ⟨p, ms, p', hinit, hrun, hp⟩ := Party.launch_run (fun _ _ => true) config setup _ h
  rw [Bool.and_eq_true, decide_eq_true_eq] at hp
  obtain ⟨ls, u, hsteps, hgood⟩ := play_good execLogged_step hp.2
  exact ⟨p'.config, _, ls, u,
    begin_init hinit (hrun.mono fun _ _ _ hs => hs.1) hp.1 q.segments q.peerAddr q.peerRkey q.imm,
    hsteps.mono fun _ _ _ hs => ⟨hs.1, calmly_iff hs.2⟩, hgood⟩

end Drive

/-- Two segments in two batches on one send slot: both drivers post both requests. -/
theorem gathers_deliver_two :
    (∃ o₀ ls u, Owner.Init o₀ ∧ Run (fun u l v => Owner.Logged u l v ∧ u.1.Calm l) (o₀, []) ls u ∧
      u.2 = u.1.stream.gathered ⟨twoSegments, 1000, 9, none⟩ ∧ u.2.length = 2) ∧
    ∃ config u₀ ls u, Drive.Init config twoSegments 1000 9 none u₀ ∧
      Run (fun u l v => Drive.Logged u l v ∧ u.1.Calm ⟨twoSegments, 1000, 9, none⟩ l) (u₀, []) ls u ∧
      u.2 = u.1.stream.gathered ⟨twoSegments, 1000, 9, none⟩ ∧ u.2.length = 2 := by
  have hclaim := gathers_deliver ⟨twoSegments, 1000, 9, none⟩
  constructor
  · obtain ⟨o₀, ls, u, hinit, hrun, hgood⟩ := Owner.launch_logged tinyConfig
      (tinySetup.map .cmd ++ [.enter (.rdmaWriteGatherAll twoSegments 1000 9 none), .act, .cmd .carry,
        .cmd (.reap ⟨writeWrId 0, 0, .rdmaWrite, 0, 0⟩), .act, .act, .cmd .carry,
        .cmd (.reap ⟨writeWrId 0, 0, .rdmaWrite, 0, 0⟩), .act])
      (fun u => u.1.ended (.rdmaWriteGatherAll twoSegments 1000 9 none) true && decide (u.2.length = 2))
      (by decide +kernel)
    rw [Bool.and_eq_true, decide_eq_true_eq] at hgood
    obtain ⟨r, took, hcall, hok⟩ := Owner.ended_call hgood.1
    cases r with
    | error e => cases hok
    | ok v =>
      have hall := (hclaim.2.1 o₀ ls u hinit (hrun.mono fun _ _ _ hs => hs.1) _ _ took hcall rfl).2.1 v rfl
      exact ⟨o₀, ls, u, hinit, hrun, hall, hgood.2⟩
  · obtain ⟨config, u₀, ls, u, hinit, hrun, hgood⟩ := Drive.launch_logged tinyConfig tinySetup
      ⟨twoSegments, 1000, 9, none⟩
      [.poll, .post, .poke (.nic .carry), .poke (.nic (.reap ⟨writeWrId 0, 0, .rdmaWrite, 0, 0⟩)), .poke .step,
        .poke .step, .post, .poke (.nic .carry), .poke (.nic (.reap ⟨writeWrId 0, 0, .rdmaWrite, 0, 0⟩)),
        .poke .step, .poke .step]
      (fun _ u => decide (u.1.pc.outcome = some true) && decide (u.2.length = 2)) (by decide +kernel)
    rw [Bool.and_eq_true, decide_eq_true_eq, decide_eq_true_eq] at hgood
    have hpc : u.1.pc = .resolved (.ok ()) := by
      have hout := hgood.1
      cases hp : u.1.pc with
      | resolved r =>
        cases r with
        | ok _ => rfl
        | error _ =>
          rw [hp] at hout
          cases hout
      | _ =>
        rw [hp] at hout
        cases hout
    have hall := (hclaim.2.2.1 config u₀ ls u hinit (hrun.mono fun _ _ _ hs => hs.1)).2.1 hpc
    exact ⟨config, u₀, ls, u, hinit, hrun, hall, hgood.2⟩

/-- An immediate for a peer that has advertised no window: nothing fails, and the call
    returns an error with the last request not posted. -/
theorem immediate_undelivered :
    ¬∀ (q : GatherReq) (o₀ : Owner) (ls : List Doing) (u : Owner × List SendWr), o₀.Init →
      Run (fun u l v => Owner.Logged u l v ∧ u.1.Calm l) (o₀, []) ls u →
      ∀ c r took, u.1.call = some ⟨c, .ret r, took⟩ → c.request = some q → u.1.stream.peerClosed = false →
        u.2 = u.1.stream.gathered q := by
  intro h
  obtain ⟨o₀, ls, u, hinit, hrun, hgood⟩ := Owner.launch_logged tinyConfig
    (tinySetup.map .cmd ++ [.enter (.rdmaWriteGatherAll twoSegments 1000 9 (some 3)), .act, .cmd .carry,
      .cmd (.reap ⟨writeWrId 0, 0, .rdmaWrite, 0, 0⟩), .act, .act])
    (fun u => u.1.ended (.rdmaWriteGatherAll twoSegments 1000 9 (some 3)) false &&
      (!u.1.stream.peerClosed && decide (u.2 ≠ u.1.stream.gathered ⟨twoSegments, 1000, 9, some 3⟩)))
    (by decide +kernel)
  rw [Bool.and_eq_true, Bool.and_eq_true, Bool.not_eq_true', decide_eq_true_eq] at hgood
  obtain ⟨r, took, hcall, -⟩ := Owner.ended_call hgood.1
  exact hgood.2.2 (h _ o₀ ls u hinit hrun _ r took hcall rfl hgood.2.1)

end Hord
