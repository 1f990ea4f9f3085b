import Hord.Gather

/- The batch planner. `next_batch_len` counts the work requests of a prefix of a gather
   list without building them; `planned_eq_sealed` says that it counts what `plan_gather`
   plans for that prefix. So a batch it cuts off needs no more requests than the budget,
   unless its first segment alone does, and one segment more would need more; a segment
   needs one request for every 1 GiB. Cut after cut, the batches are the list
   (`batches_maximal`). -/
namespace Hord

/-- What the counter sees of a packer. -/
def Packer.count (p : Packer) : Count := ⟨p.sges.length, p.wrBytes, p.wrCount⟩

theorem Packer.push_count (p : Packer) (seg : WriteSegment) (segOff take : Nat) :
    (p.push seg segOff take).count = ⟨p.count.nSge + 1, p.count.wrBytes + take, p.count.wrCount⟩ := by
  simp [Packer.push, Packer.count]

/-- Count a list of segments. -/
def countSegments (maxSge : Nat) (segments : List WriteSegment) (c : Count) : Count :=
  segments.foldl (fun c seg => countSegment maxSge seg.len seg.len 0 c) c

section Counting
variable (maxSge : Nat)

/-- One segment is counted as it is packed. -/
theorem packSegment_count (seg : WriteSegment) (fuel segOff : Nat) (p : Packer) :
    (packSegment maxSge seg fuel segOff p).2.count = countSegment maxSge seg.len fuel segOff p.count := by
  induction fuel generalizing segOff p with
  | zero => rfl
  | succ fuel ih =>
    by_cases hlt : segOff < seg.len
    · by_cases hfull : p.full maxSge
      · have hfull' : p.count.nSge = maxSge ∨ writeWrMax ≤ p.count.wrBytes := hfull
        simp only [packSegment, countSegment, if_pos hlt, if_pos hfull, if_pos hfull']
        exact ih _ _
      · have hfull' : ¬(p.count.nSge = maxSge ∨ writeWrMax ≤ p.count.wrBytes) := hfull
        simp only [packSegment, countSegment, if_pos hlt, if_neg hfull, if_neg hfull']
        rw [ih, Packer.push_count]
        rfl
    · simp only [packSegment, countSegment, if_neg hlt]

theorem packSegments_count (segments : List WriteSegment) (p : Packer) :
    (packSegments maxSge segments p).2.count = countSegments maxSge segments p.count := by
  induction segments generalizing p with
  | nil => rfl
  | cons seg rest ih =>
    simp only [packSegments, countSegments, List.foldl_cons]
    rw [ih, packSegment_count]
    rfl

/-- The counter seals as many requests as are planned. -/
theorem planned_eq_sealed (segments : List WriteSegment) (limit : Nat) :
    (plan segments limit).length = (countSegments (clampSge limit) segments ⟨0, 0, 0⟩).sealed := by
  obtain ⟨cuts, -, hpacks⟩ := packSegments_spec (clampSge_pos limit) segments .start (.start _)
  have hcount := packSegments_count (clampSge limit) segments .start
  have hwrs := hpacks.count
  rw [show countSegments (clampSge limit) segments ⟨0, 0, 0⟩ = _ from hcount.symm]
  simp only [plan]
  generalize packSegments (clampSge limit) segments .start = r at *
  obtain ⟨ws, p⟩ := r
  have hlen : p.wrCount = ws.length := by simpa [Packer.start] using hwrs
  cases hsges : p.sges with
  | nil => simp [Packer.count, Count.sealed, Packer.tail, hsges, hlen]
  | cons e es => simp [Packer.count, Count.sealed, Packer.tail, hsges, hlen]

/-- The loop takes on segments while they fit the budget, and stops at the first that does not. -/
theorem batchLoop_cut (budget : Nat) (segments : List WriteSegment) (c : Count) (fit bytes : Nat) :
    ∃ k ≤ segments.length,
      batchLoop maxSge budget segments c fit bytes = (fit + k, bytes + ((segments.take k).map WriteSegment.len).sum) ∧
      (k ≠ 0 → (countSegments maxSge (segments.take k) c).sealed ≤ budget) ∧
      (k < segments.length → budget < (countSegments maxSge (segments.take (k + 1)) c).sealed) := by
  induction segments generalizing c fit bytes with
  | nil => exact ⟨0, Nat.le_refl _, rfl, fun h => absurd rfl h, fun h => absurd h (Nat.lt_irrefl _)⟩
  | cons seg rest ih =>
    simp only [batchLoop]
    split
    · next hfits =>
      obtain ⟨k, hk, hres, hbudget, hover⟩ := ih (countSegment maxSge seg.len seg.len 0 c) (fit + 1) (bytes + seg.len)
      refine ⟨k + 1, Nat.succ_le_succ hk, ?_, fun _ => ?_, fun hlt => hover (Nat.lt_of_succ_lt_succ hlt)⟩
      · rw [hres, List.take_succ_cons, List.map_cons, List.sum_cons, ← Nat.add_assoc bytes, Nat.add_right_comm fit]
        rfl
      · -- the segments behind the first were counted on, or there are none
        by_cases hzero : k = 0
        · rw [hzero]
          exact hfits
        · exact hbudget hzero
    · next hover =>
      refine ⟨0, Nat.zero_le _, rfl, fun h => absurd rfl h, fun _ => ?_⟩
      exact Nat.lt_of_not_le hover

end Counting

/-- Where the counter stands `segOff` bytes into a segment it started afresh: at the start
    of a request, at the end of a full one, or at the end of the segment. -/
structure Afresh (len segOff : Nat) (c : Count) : Prop where
  le : segOff ≤ len
  bytes : c.wrCount * writeWrMax + c.wrBytes = segOff
  place : c.nSge = 0 ∧ c.wrBytes = 0 ∨ 0 < c.nSge ∧ 0 < c.wrBytes ∧ (c.wrBytes = writeWrMax ∨ segOff = len)

theorem countSegment_afresh {maxSge len : Nat} (hsge : 0 < maxSge) (fuel segOff : Nat) (c : Count)
    (h : Afresh len segOff c) (hfuel : len - segOff ≤ fuel) :
    Afresh len len (countSegment maxSge len fuel segOff c) := by
  have hmax : 0 < writeWrMax := by decide
  induction fuel generalizing segOff c with
  | zero =>
    have hend : segOff = len := by
      have := h.le
      omega
    exact hend ▸ h
  | succ fuel ih =>
    rw [countSegment]
    split
    · next hlt =>
      -- the next piece starts a request
      have next : ∀ n : Nat, n * writeWrMax = segOff →
          Afresh len len (countSegment maxSge len fuel (segOff + min (len - segOff) (writeWrMax - 0))
            ⟨0 + 1, 0 + min (len - segOff) (writeWrMax - 0), n⟩) := by
        intro n hn
        refine ih _ _ ⟨by omega, ?_, .inr ⟨Nat.one_pos, ?_, ?_⟩⟩ (by omega)
        · show n * writeWrMax + (0 + min (len - segOff) (writeWrMax - 0)) = _
          omega
        · show 0 < 0 + min (len - segOff) (writeWrMax - 0)
          omega
        · show 0 + min (len - segOff) (writeWrMax - 0) = writeWrMax ∨ segOff + min (len - segOff) (writeWrMax - 0) = len
          omega
      obtain ⟨nSge, wrBytes, wrCount⟩ := c
      have hbytes : wrCount * writeWrMax + wrBytes = segOff := h.bytes
      rcases h.place with ⟨hn, hb⟩ | ⟨hn, hb, hfull⟩
      · simp only at hn hb
        subst hn hb
        have hnot : ¬(0 = maxSge ∨ writeWrMax ≤ 0) := by omega
        simp only [if_neg hnot]
        exact next wrCount (by omega)
      · simp only at hn hb hfull
        have hge : writeWrMax ≤ wrBytes := by omega
        have hover : nSge = maxSge ∨ writeWrMax ≤ wrBytes := .inr hge
        simp only [if_pos hover]
        refine next (wrCount + 1) ?_
        rw [Nat.succ_mul]
        omega
    · next hge =>
      have hend : segOff = len := by
        have := h.le
        omega
      exact hend ▸ h

/-- A segment of at most `budget` GiB takes at most `budget` requests on its own. -/
theorem sealed_single {maxSge len budget : Nat} (hsge : 0 < maxSge) (hlen : len ≤ budget * writeWrMax) :
    (countSegment maxSge len len 0 ⟨0, 0, 0⟩).sealed ≤ budget := by
  have hmax : 0 < writeWrMax := by decide
  have hend := countSegment_afresh hsge len 0 ⟨0, 0, 0⟩ ⟨Nat.zero_le _, rfl, .inl ⟨rfl, rfl⟩⟩ (Nat.le_refl _)
  generalize countSegment maxSge len len 0 ⟨0, 0, 0⟩ = c at hend
  have hbytes := hend.bytes
  rw [Count.sealed]
  rcases hend.place with ⟨hn, hb⟩ | ⟨hn, hb, -⟩
  · rw [if_neg (by omega), Nat.add_zero]
    exact Nat.le_of_mul_le_mul_right (by omega) hmax
  · rw [if_pos hn]
    exact Nat.lt_of_mul_lt_mul_right (a := writeWrMax) (by omega)

/-- A plan of `n` requests carries at most `n` GiB. -/
theorem planned_total_le (segments : List WriteSegment) (limit : Nat) :
    (segments.map WriteSegment.len).sum ≤ (plan segments limit).length * writeWrMax := by
  obtain ⟨⟨stop, hok⟩, -⟩ := plan_cuts segments limit
  have hle : ∀ n ∈ (plan segments limit).map (fun w => sgesLen w.2), n ≤ writeWrMax := by
    intro n hn
    obtain ⟨w, hw, rfl⟩ := List.mem_map.mp hn
    exact (hok.sges hw).1.bytes
  have hsum := List.sum_le_card_nsmul _ _ hle
  rw [planned_total, List.length_map] at hsum
  exact hsum

/-- A segment needs more than `budget` requests exactly if it is longer than `budget` GiB. -/
theorem planned_single_iff (seg : WriteSegment) (limit budget : Nat) :
    budget < (plan [seg] limit).length ↔ budget * writeWrMax < seg.len := by
  constructor
  · intro hover
    by_contra hle
    have hfits := sealed_single (clampSge_pos limit) (Nat.le_of_not_lt hle)
    rw [planned_eq_sealed] at hover
    exact absurd hover (Nat.not_lt.mpr hfits)
  · intro hlong
    by_contra hle
    have htotal := planned_total_le [seg] limit
    have hmul := Nat.mul_le_mul_right writeWrMax (Nat.le_of_not_lt hle)
    rw [List.map_singleton, List.sum_singleton] at htotal
    omega

/-- What a batch is: as many segments as the budget has room for, or a first segment that
    is too long for it. -/
structure Batch (segments : List WriteSegment) (limit budget n bytes : Nat) : Prop where
  pos : 1 ≤ n
  le : n ≤ segments.length
  bytes : bytes = ((segments.take n).map WriteSegment.len).sum
  cut : (plan (segments.take n) limit).length ≤ budget ∧
      (n < segments.length → budget < (plan (segments.take (n + 1)) limit).length) ∨
    n = 1 ∧ ∃ seg, segments.head? = some seg ∧ budget < (plan [seg] limit).length ∧ budget * writeWrMax < seg.len

theorem nextBatchLen_batch {segments : List WriteSegment} (hne : segments ≠ []) (limit budget : Nat) :
    ∃ n bytes, nextBatchLen segments limit budget = .ok (n, bytes) ∧
      Batch segments limit (max budget 1) n bytes := by
  obtain ⟨seg, rest, rfl⟩ := List.exists_cons_of_ne_nil hne
  obtain ⟨k, hk, hres, hbudget, hover⟩ :=
    batchLoop_cut (clampSge limit) (max budget 1) (seg :: rest) ⟨0, 0, 0⟩ 0 0
  rw [Nat.zero_add, Nat.zero_add] at hres
  simp only [← planned_eq_sealed] at hbudget hover
  by_cases hzero : k = 0
  · -- the first segment is over the budget
    subst hzero
    have hlong : max budget 1 < (plan [seg] limit).length := hover (Nat.succ_pos _)
    refine ⟨1, seg.len, by rw [nextBatchLen, hres]; rfl, Nat.le_refl _, Nat.succ_le_succ (Nat.zero_le _), ?_, ?_⟩
    · rw [List.take_succ_cons, List.take_zero, List.map_singleton, List.sum_singleton]
    · exact .inr ⟨rfl, seg, rfl, hlong, (planned_single_iff seg limit _).mp hlong⟩
  · refine ⟨k, _, by rw [nextBatchLen, hres]; simp only [if_neg hzero], Nat.pos_of_ne_zero hzero, hk, rfl, ?_⟩
    exact .inl ⟨hbudget hzero, hover⟩

/-- A batch whose first segment fits the budget fits it as a whole. -/
theorem nextBatchLen_fits {segments : List WriteSegment} {limit budget count bytes : Nat} {seg : WriteSegment}
    (h : nextBatchLen segments limit budget = .ok (count, bytes)) (hhead : segments.head? = some seg)
    (hpos : 0 < budget) (hlen : seg.len ≤ budget * writeWrMax) :
    (plan (segments.take count) limit).length ≤ budget := by
  have hmax : max budget 1 = budget := by omega
  have hne : segments ≠ [] := by
    rintro rfl
    cases hhead
  obtain ⟨n, b, hnext, hbatch⟩ := nextBatchLen_batch hne limit budget
  rw [h] at hnext
  cases hnext
  rw [hmax] at hbatch
  rcases hbatch.cut with ⟨hfits, -⟩ | ⟨-, seg', hseg, -, hlong⟩
  · exact hfits
  · rw [hhead] at hseg
    cases hseg
    exact absurd hlen (Nat.not_le.mpr hlong)

/-- The batches of a list, cut after cut; `none` if the fuel runs out before the list. -/
def batches (limit budget : Nat) : Nat → List WriteSegment → Option (List (List WriteSegment))
  | _, [] => some []
  | 0, _ :: _ => none
  | fuel + 1, seg :: rest =>
    match nextBatchLen (seg :: rest) limit budget with
    | .ok (n, _) => (batches limit budget fuel ((seg :: rest).drop n)).map (List.cons ((seg :: rest).take n))
    | .error _ => none

/-- Every cut takes a segment, so the length of the list is fuel enough. -/
theorem batches_all (limit budget fuel : Nat) (segments : List WriteSegment) (hfuel : segments.length ≤ fuel) :
    ∃ bs, batches limit budget fuel segments = some bs ∧ bs.flatten = segments ∧ ∀ b ∈ bs, b ≠ [] := by
  induction fuel generalizing segments with
  | zero =>
    have hnil := List.length_eq_zero_iff.mp (Nat.le_zero.mp hfuel)
    subst hnil
    exact ⟨[], rfl, rfl, List.forall_mem_nil _⟩
  | succ fuel ih =>
    cases segments with
    | nil => exact ⟨[], rfl, rfl, List.forall_mem_nil _⟩
    | cons seg rest =>
      obtain ⟨n, bytes, hnext, hbatch⟩ := nextBatchLen_batch (List.cons_ne_nil seg rest) limit budget
      have hpos := hbatch.pos
      have hdrop : ((seg :: rest).drop n).length ≤ fuel := by
        rw [List.length_drop]
        omega
      obtain ⟨bs, hbs, hflat, hall⟩ := ih _ hdrop
      refine ⟨(seg :: rest).take n :: bs, by simp only [batches, hnext, hbs]; rfl, ?_, ?_⟩
      · rw [List.flatten_cons, hflat, List.take_append_drop]
      · intro b hb
        rcases List.mem_cons.mp hb with rfl | hb
        · rw [Ne, List.take_eq_nil_iff]
          exact fun h => h.elim (by omega) (List.cons_ne_nil _ _)
        · exact hall b hb

/-- The batch planner counts what the packer packs, and cuts as late as the budget allows:
    for every list that is not empty it takes at least one segment and reports their bytes,
    and either they need at most the budget of requests and one segment more would need
    more, or it takes the first segment alone, which needs more by itself, being longer than
    the budget in GiB. Cut after cut it comes to the end of the list, and the batches are
    the list. -/
theorem batches_maximal (segments : List WriteSegment) (limit wrBudget : Nat) :
    (segments ≠ [] → ∃ n bytes, nextBatchLen segments limit wrBudget = .ok (n, bytes) ∧
      1 ≤ n ∧ n ≤ segments.length ∧ bytes = ((segments.take n).map WriteSegment.len).sum ∧
      ((plan (segments.take n) limit).length ≤ max wrBudget 1 ∧
        (n ≠ segments.length → max wrBudget 1 < (plan (segments.take (n + 1)) limit).length) ∨
      n = 1 ∧ ∃ seg, segments.head? = some seg ∧ max wrBudget 1 < (plan [seg] limit).length ∧
        max wrBudget 1 * writeWrMax < seg.len)) ∧
    ∃ bs, batches limit wrBudget segments.length segments = some bs ∧ bs.flatten = segments ∧ ∀ b ∈ bs, b ≠ [] := by
  refine ⟨fun hne => ?_, batches_all limit wrBudget segments.length segments (Nat.le_refl _)⟩
  obtain ⟨n, bytes, hnext, hbatch⟩ := nextBatchLen_batch hne limit wrBudget
  refine ⟨n, bytes, hnext, hbatch.pos, hbatch.le, hbatch.bytes, hbatch.cut.imp_left fun h => ⟨h.1, fun hn => ?_⟩⟩
  exact h.2 (Nat.lt_of_le_of_ne hbatch.le hn)

/-- Five segments of two entries a request and two requests a batch. -/
theorem batches_maximal_five :
    (∃ n bytes, nextBatchLen (List.replicate 5 ⟨4096, 5, 3⟩) 2 2 = .ok (n, bytes) ∧ 1 ≤ n ∧ n ≤ 5) ∧
    batches 2 2 5 (List.replicate 5 ⟨4096, 5, 3⟩) =
      some [List.replicate 4 ⟨4096, 5, 3⟩, [⟨4096, 5, 3⟩]] := by
  obtain ⟨hcut, -⟩ := batches_maximal (List.replicate 5 ⟨4096, 5, 3⟩) 2 2
  obtain ⟨n, bytes, hnext, hpos, hle, -⟩ := hcut (by decide)
  exact ⟨⟨n, bytes, hnext, hpos, hle⟩, by decide⟩

end Hord
