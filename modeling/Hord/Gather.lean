import Mathlib.Algebra.Order.BigOperators.Group.List
import Mathlib.Algebra.Order.Group.Nat
import Hord.OneSided

/- Packing a gather list. `packSegments` is the pure core of `plan_gather`: the
   work requests flushed so far and the one being filled. `planGather_eq` says
   that `plan_gather`, in any monad, hands exactly the requests of `plan` to its
   callback, in order, and returns their number; the rest says what those requests
   are: within the hardware limits, at contiguous remote offsets, and with gather
   entries that cut the segments up, in order (`gather_within_limits`). -/
namespace Hord

/-- A planned work request: its remote offset and its gather list. -/
abbrev Planned := Nat × List Sge

def packSegment (maxSge : Nat) (seg : WriteSegment) : Nat → Nat → Packer → List Planned × Packer
  | 0, _, p => ([], p)
  | fuel + 1, segOff, p =>
    if segOff < seg.len then
      let q := if p.full maxSge then p.flushed else p
      let take := min (seg.len - segOff) (writeWrMax - q.wrBytes)
      let (ws, r) := packSegment maxSge seg fuel (segOff + take) (q.push seg segOff take)
      (if p.full maxSge then (p.remoteOff, p.sges) :: ws else ws, r)
    else ([], p)

def packSegments (maxSge : Nat) : List WriteSegment → Packer → List Planned × Packer
  | [], p => ([], p)
  | seg :: rest, p =>
    let (ws, q) := packSegment maxSge seg seg.len 0 p
    let (vs, r) := packSegments maxSge rest q
    (ws ++ vs, r)

/-- The last work request, if anything is staged. -/
def Packer.tail (p : Packer) : List Planned :=
  if p.sges.isEmpty then [] else [(p.remoteOff, p.sges)]

/-- The work requests of a gather list, in posting order. -/
def plan (segments : List WriteSegment) (maxSge : Nat) : List Planned :=
  let (ws, p) := packSegments (clampSge maxSge) segments .start
  ws ++ p.tail

section Planning
variable {m : Type → Type} [Monad m]

/-- Hand every planned request to `emit`, in order. -/
def emitAll (emit : Nat → List Sge → m Unit) : List Planned → m Unit
  | [] => pure ()
  | w :: ws => do
    emit w.1 w.2
    emitAll emit ws

variable [LawfulMonad m] (emit : Nat → List Sge → m Unit)

theorem emitAll_append (ws vs : List Planned) :
    emitAll emit (ws ++ vs) = (emitAll emit ws >>= fun _ => emitAll emit vs) := by
  induction ws with
  | nil => simp [emitAll]
  | cons w ws ih => simp [emitAll, ih]

theorem planSegment_eq (maxSge : Nat) (seg : WriteSegment) (fuel segOff : Nat) (p : Packer) :
    planSegment maxSge emit seg fuel segOff p =
      (emitAll emit (packSegment maxSge seg fuel segOff p).1 >>= fun _ =>
        pure (packSegment maxSge seg fuel segOff p).2) := by
  induction fuel generalizing segOff p with
  | zero => simp [planSegment, packSegment, emitAll]
  | succ fuel ih =>
    by_cases hlt : segOff < seg.len
    · by_cases hfull : p.full maxSge
      · simp [planSegment, packSegment, hlt, hfull, emitAll, ih]
      · simp [planSegment, packSegment, hlt, hfull, ih]
    · simp [planSegment, packSegment, hlt, emitAll]

theorem planSegments_eq (maxSge : Nat) (segments : List WriteSegment) (p : Packer) :
    planSegments maxSge emit segments p =
      (emitAll emit (packSegments maxSge segments p).1 >>= fun _ =>
        pure (packSegments maxSge segments p).2) := by
  induction segments generalizing p with
  | nil => simp [planSegments, packSegments, emitAll]
  | cons seg rest ih => simp [planSegments, packSegments, planSegment_eq, ih, emitAll_append]

end Planning

/-! What is planned. -/

/-- Every byte of a span, as its key and address. -/
def spanBytes (lkey addr len : Nat) : List (Nat × Nat) :=
  (List.range' addr len).map fun a => (lkey, a)

def Sge.bytes (e : Sge) : List (Nat × Nat) := spanBytes e.lkey e.addr e.length

def WriteSegment.bytes (seg : WriteSegment) : List (Nat × Nat) :=
  spanBytes seg.lkey seg.localAddr seg.len

/-- The bytes of a gather list. -/
def sgesBytes (sges : List Sge) : List (Nat × Nat) := sges.flatMap Sge.bytes

def sgesLen (sges : List Sge) : Nat := (sges.map Sge.length).sum

theorem spanBytes_append (lkey addr n k : Nat) :
    spanBytes lkey addr n ++ spanBytes lkey (addr + n) k = spanBytes lkey addr (n + k) := by
  rw [spanBytes, spanBytes, spanBytes, ← List.map_append, List.range'_append_1]

@[simp]
theorem spanBytes_length (lkey addr n : Nat) : (spanBytes lkey addr n).length = n := by
  simp [spanBytes]

theorem sgesBytes_length (sges : List Sge) : (sgesBytes sges).length = sgesLen sges := by
  induction sges with
  | nil => rfl
  | cons e sges ih => simp_all [sgesBytes, sgesLen, Sge.bytes]

/-- Consecutive, non-empty pieces of a registered span, from `addr` on up to `stop`. -/
inductive Slices (lkey : Nat) : Nat → List Sge → Nat → Prop
  | nil (addr : Nat) : Slices lkey addr [] addr
  | cons {addr stop len : Nat} {es : List Sge} (hpos : 0 < len) (hrest : Slices lkey (addr + len) es stop) :
      Slices lkey addr (⟨addr, len, lkey⟩ :: es) stop

/-- The entries are the segment, cut up. -/
def WriteSegment.Cut (seg : WriteSegment) (es : List Sge) : Prop :=
  Slices seg.lkey seg.localAddr es (seg.localAddr + seg.len)

section Cuts
variable {lkey addr stop : Nat} {es : List Sge}

theorem Slices.le (h : Slices lkey addr es stop) : addr ≤ stop := by
  induction h with
  | nil addr => exact Nat.le_refl _
  | cons hpos hrest ih => omega

/-- Each piece lies in the span. -/
theorem Slices.mem (h : Slices lkey addr es stop) {e : Sge} (he : e ∈ es) :
    e.lkey = lkey ∧ addr ≤ e.addr ∧ e.addr + e.length ≤ stop := by
  induction h with
  | nil addr => cases he
  | cons hpos hrest ih =>
    rcases List.mem_cons.mp he with rfl | he
    · exact ⟨rfl, Nat.le_refl _, hrest.le⟩
    · obtain ⟨hkey, hle, hstop⟩ := ih he
      exact ⟨hkey, by omega, hstop⟩

theorem Slices.bytes (h : Slices lkey addr es stop) : sgesBytes es = spanBytes lkey addr (stop - addr) := by
  induction h with
  | nil addr => rw [Nat.sub_self]; rfl
  | @cons addr stop len es hpos hrest ih =>
    have hle := hrest.le
    calc sgesBytes (⟨addr, len, lkey⟩ :: es) = spanBytes lkey addr len ++ sgesBytes es := rfl
      _ = spanBytes lkey addr len ++ spanBytes lkey (addr + len) (stop - (addr + len)) := by rw [ih]
      _ = spanBytes lkey addr (len + (stop - (addr + len))) := spanBytes_append _ _ _ _
      _ = spanBytes lkey addr (stop - addr) := by congr 1; omega

theorem WriteSegment.Cut.bytes {seg : WriteSegment} (h : seg.Cut es) : sgesBytes es = seg.bytes := by
  have hbytes := Slices.bytes h
  rwa [Nat.add_sub_cancel_left] at hbytes

theorem cuts_bytes {segments : List WriteSegment} {cuts : List (List Sge)}
    (h : List.Forall₂ WriteSegment.Cut segments cuts) :
    sgesBytes cuts.flatten = segments.flatMap WriteSegment.bytes := by
  induction h with
  | nil => rfl
  | cons hcut _ ih =>
    rw [List.flatMap_cons, ← ih, ← hcut.bytes, List.flatten_cons]
    exact List.flatMap_append

theorem cuts_mem {segments : List WriteSegment} {cuts : List (List Sge)}
    (h : List.Forall₂ WriteSegment.Cut segments cuts) {e : Sge} (he : e ∈ cuts.flatten) :
    ∃ seg ∈ segments, e.lkey = seg.lkey ∧ seg.localAddr ≤ e.addr ∧ e.addr + e.length ≤ seg.localAddr + seg.len := by
  induction h with
  | nil => cases he
  | @cons seg es segments cuts hcut _ ih =>
    rw [List.flatten_cons, List.mem_append] at he
    rcases he with he | he
    · exact ⟨seg, List.mem_cons_self .., Slices.mem hcut he⟩
    · obtain ⟨seg', hmem, hin⟩ := ih he
      exact ⟨seg', List.mem_cons_of_mem _ hmem, hin⟩

end Cuts

/-- A gather list one request can carry. -/
structure SgesOk (maxSge : Nat) (sges : List Sge) : Prop where
  count : sges.length ≤ maxSge
  bytes : sgesLen sges ≤ writeWrMax
  pos : ∀ e ∈ sges, 0 < e.length

/-- The requests of a plan: each within the limits and not empty, each at the
    offset where the one before it ends; `off` is where the list starts and `stop`
    where it ends. -/
inductive PlanOk (maxSge : Nat) : Nat → List Planned → Nat → Prop
  | nil (off : Nat) : PlanOk maxSge off [] off
  | cons {off stop : Nat} {sges : List Sge} {ws : List Planned} (hok : SgesOk maxSge sges)
      (hne : sges ≠ []) (hrest : PlanOk maxSge (off + sgesLen sges) ws stop) :
      PlanOk maxSge off ((off, sges) :: ws) stop

theorem PlanOk.append {maxSge off mid stop : Nat} {ws vs : List Planned}
    (h₁ : PlanOk maxSge off ws mid) (h₂ : PlanOk maxSge mid vs stop) :
    PlanOk maxSge off (ws ++ vs) stop := by
  induction h₁ with
  | nil => exact h₂
  | cons hok hne _ ih => exact .cons hok hne (ih h₂)

/-- The request being filled stays within the limits and its byte count is right. -/
structure PackerOk (maxSge : Nat) (p : Packer) : Prop where
  sges : SgesOk maxSge p.sges
  wrBytes : p.wrBytes = sgesLen p.sges

theorem PackerOk.start (maxSge : Nat) : PackerOk maxSge .start :=
  ⟨⟨Nat.zero_le _, Nat.zero_le _, by simp [Packer.start]⟩, rfl⟩

theorem PackerOk.flushed {maxSge : Nat} (p : Packer) : PackerOk maxSge p.flushed :=
  ⟨⟨Nat.zero_le _, Nat.zero_le _, by simp [Packer.flushed]⟩, rfl⟩

section Packing
variable {maxSge : Nat}

theorem mod_of_le_writeWrMax {take : Nat} (htake : take ≤ writeWrMax) : take % 2 ^ 32 = take :=
  Nat.mod_eq_of_lt (Nat.lt_of_le_of_lt htake (by decide))

theorem sgesLen_push (p : Packer) (seg : WriteSegment) (segOff : Nat) {take : Nat} (htake : take ≤ writeWrMax) :
    sgesLen (p.push seg segOff take).sges = sgesLen p.sges + take := by
  simp only [Packer.push, sgesLen, List.map_append, List.map_cons, List.map_nil,
    List.sum_append, List.sum_cons, List.sum_nil, mod_of_le_writeWrMax htake, Nat.add_zero]

theorem PackerOk.push {p : Packer} (h : PackerOk maxSge p) (seg : WriteSegment) (segOff : Nat)
    {take : Nat} (hfull : ¬p.full maxSge) (hpos : 0 < take) (htake : take ≤ writeWrMax - p.wrBytes) :
    PackerOk maxSge (p.push seg segOff take) := by
  have hle : take ≤ writeWrMax := by omega
  have hlen := sgesLen_push p seg segOff hle
  have hbytes := h.wrBytes
  simp only [Packer.full, not_or] at hfull
  have hcount := h.sges.count
  refine ⟨⟨?_, ?_, ?_⟩, ?_⟩
  · simp only [Packer.push, List.length_append, List.length_singleton]
    omega
  · rw [hlen]
    omega
  · intro e he
    rcases List.mem_append.mp he with he | he
    · exact h.sges.pos e he
    · rw [List.mem_singleton] at he
      subst he
      show 0 < take % 2 ^ 32
      rwa [mod_of_le_writeWrMax hle]
  · rw [hlen]
    simp [Packer.push, hbytes]

theorem sges_push (p : Packer) (seg : WriteSegment) (segOff : Nat) {take : Nat} (htake : take ≤ writeWrMax) :
    (p.push seg segOff take).sges = p.sges ++ [⟨seg.localAddr + segOff, take, seg.lkey⟩] := by
  simp only [Packer.push, mod_of_le_writeWrMax htake]

/-- What packing from `p` on adds: requests starting at `p`'s offset, a packer
    that continues them, the entries `es` after those already staged, and the
    count. -/
structure Packs (maxSge : Nat) (p : Packer) (es : List Sge) (r : List Planned × Packer) :
    Prop where
  plan : PlanOk maxSge p.remoteOff r.1 r.2.remoteOff
  ok : PackerOk maxSge r.2
  count : r.2.wrCount = p.wrCount + r.1.length
  sges : r.1.flatMap Prod.snd ++ r.2.sges = p.sges ++ es

theorem Packs.refl {p : Packer} (h : PackerOk maxSge p) : Packs maxSge p [] ([], p) :=
  ⟨.nil _, h, by simp, by simp⟩

theorem Packs.trans {p : Packer} {es fs : List Sge} {ws vs : List Planned} {q r : Packer}
    (h₁ : Packs maxSge p es (ws, q)) (h₂ : Packs maxSge q fs (vs, r)) :
    Packs maxSge p (es ++ fs) (ws ++ vs, r) := by
  refine ⟨h₁.plan.append h₂.plan, h₂.ok, ?_, ?_⟩
  · have e1 := h₁.count
    have e2 := h₂.count
    simp only [List.length_append] at *
    omega
  · have e1 := h₁.sges
    have e2 := h₂.sges
    simp only at e1 e2
    rw [List.flatMap_append, List.append_assoc, e2, ← List.append_assoc, e1, List.append_assoc]

/-- Flushing a full request. -/
theorem Packs.flush {p : Packer} (h : PackerOk maxSge p) (hne : p.sges ≠ []) :
    Packs maxSge p [] ([(p.remoteOff, p.sges)], p.flushed) := by
  refine ⟨.cons h.sges hne ?_, .flushed p, by simp [Packer.flushed], by simp [Packer.flushed]⟩
  rw [← h.wrBytes]
  exact .nil _

theorem full_ne_nil (hm : 0 < maxSge) {p : Packer} (h : PackerOk maxSge p) (hf : p.full maxSge) :
    p.sges ≠ [] := by
  intro hnil
  have hb := h.wrBytes
  rcases hf with hf | hf
  · rw [hnil] at hf
    simp at hf
    omega
  · rw [hb, hnil] at hf
    exact absurd hf (by decide)

theorem packSegment_spec (hm : 0 < maxSge) (seg : WriteSegment) (fuel segOff : Nat) (p : Packer) (h : PackerOk maxSge p)
    (hoff : segOff ≤ seg.len) (hfuel : seg.len - segOff ≤ fuel) :
    ∃ es, Slices seg.lkey (seg.localAddr + segOff) es (seg.localAddr + seg.len) ∧
      Packs maxSge p es (packSegment maxSge seg fuel segOff p) := by
  induction fuel generalizing segOff p with
  | zero =>
    have hend : segOff = seg.len := by omega
    exact ⟨[], hend ▸ .nil _, Packs.refl h⟩
  | succ fuel ih =>
    by_cases hlt : segOff < seg.len
    · -- the request taken from, after the flush if `p` was full
      have key : ∀ q : Packer, PackerOk maxSge q → ¬q.full maxSge →
          ∃ es, Slices seg.lkey (seg.localAddr + segOff) es (seg.localAddr + seg.len) ∧ Packs maxSge q es
            (packSegment maxSge seg fuel (segOff + min (seg.len - segOff) (writeWrMax - q.wrBytes))
              (q.push seg segOff (min (seg.len - segOff) (writeWrMax - q.wrBytes)))) := by
        intro q hq hqf
        have hlow : q.wrBytes < writeWrMax := by
          simp only [Packer.full, not_or] at hqf
          omega
        generalize htk : min (seg.len - segOff) (writeWrMax - q.wrBytes) = take
        have hpos : 0 < take := by omega
        have hle : take ≤ writeWrMax - q.wrBytes := by omega
        have hsg : take ≤ seg.len - segOff := by omega
        have hpush := hq.push seg segOff hqf hpos hle
        obtain ⟨es, hes, hrec⟩ := ih (segOff + take) (q.push seg segOff take) hpush (by omega) (by omega)
        rw [← Nat.add_assoc] at hes
        refine ⟨_, .cons hpos hes, hrec.plan, hrec.ok, hrec.count, ?_⟩
        rw [hrec.sges, sges_push q seg segOff (by omega), List.append_assoc, List.singleton_append]
      by_cases hfull : p.full maxSge
      · have hne := full_ne_nil hm h hfull
        have hnot : ¬p.flushed.full maxSge := by
          simp only [Packer.full, Packer.flushed, not_or]
          exact ⟨by simp; omega, by decide⟩
        obtain ⟨es, hes, hrest⟩ := key p.flushed (.flushed p) hnot
        have hall := (Packs.flush h hne).trans hrest
        exact ⟨es, hes, by simpa [packSegment, hlt, hfull] using hall⟩
      · obtain ⟨es, hes, hrest⟩ := key p h hfull
        exact ⟨es, hes, by simpa [packSegment, hlt, hfull] using hrest⟩
    · have hend : segOff = seg.len := by omega
      refine ⟨[], hend ▸ .nil _, ?_⟩
      simpa [packSegment, hlt] using Packs.refl h

theorem packSegments_spec (hm : 0 < maxSge) (segments : List WriteSegment) (p : Packer)
    (h : PackerOk maxSge p) :
    ∃ cuts, List.Forall₂ WriteSegment.Cut segments cuts ∧
      Packs maxSge p cuts.flatten (packSegments maxSge segments p) := by
  induction segments generalizing p with
  | nil => exact ⟨[], .nil, Packs.refl h⟩
  | cons seg rest ih =>
    obtain ⟨es, hes, h₁⟩ := packSegment_spec hm seg seg.len 0 p h (Nat.zero_le _) (by omega)
    obtain ⟨cuts, hcuts, h₂⟩ := ih (packSegment maxSge seg seg.len 0 p).2 h₁.ok
    refine ⟨es :: cuts, .cons hes hcuts, ?_⟩
    simpa [packSegments] using h₁.trans h₂

end Packing

theorem clampSge_pos (maxSge : Nat) : 0 < clampSge maxSge := by
  unfold clampSge; omega

theorem clampSge_le (maxSge : Nat) : clampSge maxSge ≤ maxWriteSge := by
  unfold clampSge maxWriteSge; omega

/-- The plan cuts every segment up, in order. -/
theorem plan_cuts (segments : List WriteSegment) (maxSge : Nat) :
    (∃ stop, PlanOk (clampSge maxSge) 0 (plan segments maxSge) stop) ∧
    ∃ cuts, List.Forall₂ WriteSegment.Cut segments cuts ∧
      (plan segments maxSge).flatMap Prod.snd = cuts.flatten := by
  obtain ⟨cuts, hcuts, h⟩ := packSegments_spec (clampSge_pos maxSge) segments .start (.start _)
  generalize hr : packSegments (clampSge maxSge) segments .start = r at h
  obtain ⟨ws, p⟩ := r
  have hplan : PlanOk (clampSge maxSge) 0 ws p.remoteOff := h.plan
  have hsges : ws.flatMap Prod.snd ++ p.sges = cuts.flatten := h.sges
  have heq : plan segments maxSge = ws ++ p.tail := by simp only [plan, hr]
  rw [heq, List.flatMap_append]
  by_cases hnil : p.sges = []
  · have htail : p.tail = [] := by simp [Packer.tail, hnil]
    rw [hnil] at hsges
    rw [htail, List.append_nil]
    exact ⟨⟨_, hplan⟩, cuts, hcuts, hsges⟩
  · have htail : p.tail = [(p.remoteOff, p.sges)] := by simp [Packer.tail, hnil]
    rw [htail, List.flatMap_singleton]
    exact ⟨⟨_, hplan.append (.cons h.ok.sges hnil (.nil _))⟩, cuts, hcuts, hsges⟩

theorem planned_bytes (ws : List Planned) : ws.flatMap (fun w => sgesBytes w.2) = sgesBytes (ws.flatMap Prod.snd) := by
  rw [sgesBytes, List.flatMap_assoc]
  rfl

/-- Everything the packer guarantees about a plan: limits, contiguous offsets from
    0, and the bytes of the segments, each once and in order. -/
theorem plan_spec (segments : List WriteSegment) (maxSge : Nat) :
    (∃ stop, PlanOk (clampSge maxSge) 0 (plan segments maxSge) stop) ∧
    (plan segments maxSge).flatMap (fun w => sgesBytes w.2) = segments.flatMap WriteSegment.bytes := by
  obtain ⟨hok, cuts, hcuts, hsges⟩ := plan_cuts segments maxSge
  exact ⟨hok, by rw [planned_bytes, hsges, cuts_bytes hcuts]⟩

/-- `plan_gather` hands the requests of `plan` to its callback and returns how
    many they are. -/
theorem planGather_eq {m : Type → Type} [Monad m] [LawfulMonad m] (segments : List WriteSegment)
    (maxSge : Nat) (emit : Nat → List Sge → m Unit) :
    planGather segments maxSge emit =
      (emitAll emit (plan segments maxSge) >>= fun _ => pure (plan segments maxSge).length) := by
  obtain ⟨cuts, -, h⟩ := packSegments_spec (clampSge_pos maxSge) segments .start (.start _)
  have hcount := h.count
  simp only [planGather, planSegments_eq, plan]
  generalize packSegments (clampSge maxSge) segments .start = r at *
  obtain ⟨ws, p⟩ := r
  simp only [Packer.start, Nat.zero_add] at hcount
  by_cases hnil : p.sges = []
  · simp [Packer.tail, hnil, hcount]
  · simp [Packer.tail, hnil, hcount, emitAll_append, emitAll]

/-! The limits. -/

/-- The inner loop has run to its end when the fuel is used up: more fuel changes nothing. -/
theorem planSegment_ends {m : Type → Type} [Monad m] [LawfulMonad m] (emit : Nat → List Sge → m Unit) (maxSge : Nat)
    (seg : WriteSegment) (fuel : Nat) (segOff : Nat) (p : Packer) (hfuel : seg.len - segOff ≤ fuel) (more : Nat) :
    planSegment maxSge emit seg (fuel + more) segOff p = planSegment maxSge emit seg fuel segOff p := by
  have hmax : 0 < writeWrMax := by decide
  induction fuel generalizing segOff p with
  | zero =>
    have hend : ¬segOff < seg.len := by omega
    cases more with
    | zero => rfl
    | succ more =>
      rw [Nat.zero_add]
      simp only [planSegment, if_neg hend]
  | succ fuel ih =>
    rw [Nat.succ_add]
    by_cases hlt : segOff < seg.len
    · -- every round takes a byte: a request that is not full has room
      have round : ∀ q : Packer, q.wrBytes < writeWrMax →
          planSegment maxSge emit seg (fuel + more) (segOff + min (seg.len - segOff) (writeWrMax - q.wrBytes))
            (q.push seg segOff (min (seg.len - segOff) (writeWrMax - q.wrBytes))) =
          planSegment maxSge emit seg fuel (segOff + min (seg.len - segOff) (writeWrMax - q.wrBytes))
            (q.push seg segOff (min (seg.len - segOff) (writeWrMax - q.wrBytes))) :=
        fun q hq => ih _ _ (by omega)
      by_cases hfull : p.full maxSge
      · simp only [planSegment, if_pos hlt, if_pos hfull, pure_bind]
        rw [round p.flushed hmax]
      · have hlow : p.wrBytes < writeWrMax := by
          simp only [Packer.full, not_or] at hfull
          omega
        simp only [planSegment, if_pos hlt, if_neg hfull, pure_bind]
        rw [round p hlow]
    · simp only [planSegment, if_neg hlt]

section Limits
variable {maxSge off stop : Nat} {ws vs : List Planned} {w : Planned}

/-- Each request starts where those before it end. -/
theorem PlanOk.offset (h : PlanOk maxSge off (ws ++ w :: vs) stop) :
    w.1 = off + (ws.map fun v => sgesLen v.2).sum := by
  induction ws generalizing off with
  | nil =>
    cases h with
    | cons hok hne hrest => rfl
  | cons v ws ih =>
    cases h with
    | cons hok hne hrest =>
      have hw := ih hrest
      simp only [List.map_cons, List.sum_cons]
      omega

theorem PlanOk.sges (h : PlanOk maxSge off ws stop) (hw : w ∈ ws) : SgesOk maxSge w.2 ∧ w.2 ≠ [] := by
  induction h with
  | nil off => cases hw
  | cons hok hne hrest ih =>
    rcases List.mem_cons.mp hw with rfl | hw
    · exact ⟨hok, hne⟩
    · exact ih hw

theorem SgesOk.pos_of_ne {sges : List Sge} (h : SgesOk maxSge sges) (hne : sges ≠ []) : 0 < sgesLen sges := by
  obtain ⟨e, es, rfl⟩ := List.exists_cons_of_ne_nil hne
  have he := h.pos e (List.mem_cons_self ..)
  rw [sgesLen, List.map_cons, List.sum_cons]
  omega

/-- The bytes of a plan are those of the segments. -/
theorem planned_total (segments : List WriteSegment) (limit : Nat) :
    ((plan segments limit).map fun w => sgesLen w.2).sum = (segments.map WriteSegment.len).sum := by
  have hlens : ∀ ws : List Planned, (ws.flatMap fun w => sgesBytes w.2).length = (ws.map fun w => sgesLen w.2).sum := by
    intro ws
    simp only [List.length_flatMap, sgesBytes_length]
  have hsegs : (segments.flatMap WriteSegment.bytes).length = (segments.map WriteSegment.len).sum := by
    simp only [List.length_flatMap, WriteSegment.bytes, spanBytes_length]
  rw [← hlens, (plan_spec segments limit).2, hsegs]

/-- Nothing is planned for segments without bytes. -/
theorem plan_nil_of_empty {segments : List WriteSegment} (h : (segments.map WriteSegment.len).sum = 0) :
    plan segments maxSge = [] := by
  cases hplan : plan segments maxSge with
  | nil => rfl
  | cons w ws =>
    obtain ⟨⟨stop, hok⟩, -⟩ := plan_spec segments maxSge
    have htotal := planned_total segments maxSge
    rw [hplan, List.map_cons, List.sum_cons, h] at htotal
    rw [hplan] at hok
    cases hok with
    | cons hsges hne hrest =>
      obtain ⟨e, es, hes⟩ := List.exists_cons_of_ne_nil hne
      have hpos := hsges.pos e (by rw [hes]; exact List.mem_cons_self ..)
      rw [hes] at htotal
      simp only [sgesLen, List.map_cons, List.sum_cons] at htotal
      omega

end Limits

/-- What `plan_gather` hands to its callback, for every segment list and every limit: the
    requests of `plan`, as many as it returns, with an inner loop that ends. Each has
    between 1 and the clamped limit of entries and between 1 and `WRITE_WR_MAX` bytes, at
    the offset where those before it end; no entry is empty, its length fits 32 bits, and it
    lies in one segment. The entries of all requests are the segments, cut up in order. -/
theorem gather_within_limits (segments : List WriteSegment) (maxSge : Nat) :
    (∀ (m : Type → Type) [Monad m] [LawfulMonad m] (emit : Nat → List Sge → m Unit),
      planGather segments maxSge emit =
        (emitAll emit (plan segments maxSge) >>= fun _ => pure (plan segments maxSge).length) ∧
      ∀ (limit : Nat) (seg : WriteSegment) (p : Packer) (more : Nat),
        planSegment limit emit seg (seg.len + more) 0 p = planSegment limit emit seg seg.len 0 p) ∧
    (∀ ws w vs, plan segments maxSge = ws ++ w :: vs →
      (1 ≤ w.2.length ∧ w.2.length ≤ max 1 (min maxSge maxWriteSge)) ∧
      (1 ≤ sgesLen w.2 ∧ sgesLen w.2 ≤ writeWrMax) ∧
      w.1 = (ws.map fun v => sgesLen v.2).sum ∧
      ((segments.map WriteSegment.len).sum < 2 ^ 64 → w.1 + sgesLen w.2 < 2 ^ 64) ∧
      ∀ e ∈ w.2, 0 < e.length ∧ e.length < 2 ^ 32 ∧ ∃ seg ∈ segments,
        e.lkey = seg.lkey ∧ seg.localAddr ≤ e.addr ∧ e.addr + e.length ≤ seg.localAddr + seg.len) ∧
    ∃ cuts, List.Forall₂ WriteSegment.Cut segments cuts ∧
      (plan segments maxSge).flatMap Prod.snd = cuts.flatten := by
  obtain ⟨⟨stop, hok⟩, cuts, hcuts, hsges⟩ := plan_cuts segments maxSge
  refine ⟨?_, ?_, cuts, hcuts, hsges⟩
  · intro m _ _ emit
    exact ⟨planGather_eq segments maxSge emit,
      fun limit seg p more => planSegment_ends emit limit seg seg.len 0 p (by omega) more⟩
  · intro ws w vs heq
    have hmem : w ∈ plan segments maxSge := by
      rw [heq]
      simp
    obtain ⟨hlimits, hne⟩ := hok.sges hmem
    have hpos := hlimits.pos_of_ne hne
    rw [heq] at hok
    have hoff := hok.offset
    rw [Nat.zero_add] at hoff
    refine ⟨⟨List.length_pos_of_ne_nil hne, hlimits.count⟩, ⟨hpos, hlimits.bytes⟩, hoff, fun htotal => ?_, ?_⟩
    · -- the request and those before it are a part of the whole
      have hsum := planned_total segments maxSge
      rw [heq, List.map_append, List.sum_append, List.map_cons, List.sum_cons] at hsum
      omega
    · intro e he
      have hlen : e.length ≤ sgesLen w.2 := List.le_sum_of_mem (List.mem_map_of_mem he)
      have hin : e ∈ cuts.flatten := by
        rw [← hsges, List.mem_flatMap]
        exact ⟨w, hmem, he⟩
      refine ⟨hlimits.pos e he, ?_, cuts_mem hcuts hin⟩
      calc e.length ≤ writeWrMax := hlen.trans hlimits.bytes
        _ < 2 ^ 32 := by decide

/-- Three segments, one of them empty, and a limit of 0: two requests of one entry. -/
theorem gather_within_limits_three :
    plan [⟨4096, 5, 3⟩, ⟨8192, 6, 0⟩, ⟨9000, 7, 2⟩] 0 = [(0, [⟨4096, 3, 5⟩]), (3, [⟨9000, 2, 7⟩])] ∧
    (planGather [⟨4096, 5, 3⟩, ⟨8192, 6, 0⟩, ⟨9000, 7, 2⟩] 0
      fun off sges => (modify (· ++ [(off, sges)]) : StateM (List Planned) Unit)).run [] =
      (2, [(0, [⟨4096, 3, 5⟩]), (3, [⟨9000, 2, 7⟩])]) ∧
    3 + sgesLen [⟨9000, 2, 7⟩] < 2 ^ 64 := by
  obtain ⟨hemit, hlimits, -⟩ := gather_within_limits [⟨4096, 5, 3⟩, ⟨8192, 6, 0⟩, ⟨9000, 7, 2⟩] 0
  have hplan : plan [⟨4096, 5, 3⟩, ⟨8192, 6, 0⟩, ⟨9000, 7, 2⟩] 0 =
      [(0, [⟨4096, 3, 5⟩]), (3, [⟨9000, 2, 7⟩])] := by decide
  refine ⟨hplan, ?_, ?_⟩
  · rw [(hemit (StateM (List Planned)) _).1, hplan]
    rfl
  · obtain ⟨-, -, -, hfits, -⟩ := hlimits [(0, [⟨4096, 3, 5⟩])] (3, [⟨9000, 2, 7⟩]) [] hplan
    exact hfits (by decide)

end Hord
