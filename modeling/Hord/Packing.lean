import Hord.Batches
import Hord.Lib.Cutting

/- Where the requests of a one-sided write begin, said of the lengths of its segments alone.
   A request has room for a stretch of the bytes if it is at most 1 GiB and has bytes of at
   most as many segments as a gather list has entries (`Room`). The packer cuts greedily: it
   ends a request where its room ends (`plan_begins`), so it takes as few as can be
   (`plan_covers`). A batch is as many segments as the send pool can carry, or a first one
   that it cannot (`nextBatchLen_next`). -/
namespace Hord

open Cutting

/-- How many of the segments have bytes from `a` up to `b`. -/
def segmentsIn : List Nat → Nat → Nat → Nat
  | [], _, _ => 0
  | n :: lens, a, b => (if a < min n b then 1 else 0) + segmentsIn lens (a - n) (b - n)

/-- One request has room for the bytes from `a` up to `b`. -/
def Room (sges : Nat) (lens : List Nat) (a b : Nat) : Prop := b ≤ a + writeWrMax ∧ segmentsIn lens a b ≤ sges

section Counts
variable {lens : List Nat} {sges a b c : Nat}

theorem segmentsIn_mono (lens : List Nat) {a a' b b' : Nat} (ha : a ≤ a') (hb : b' ≤ b) :
    segmentsIn lens a' b' ≤ segmentsIn lens a b := by
  induction lens generalizing a a' b b' with
  | nil => exact Nat.le_refl _
  | cons n lens ih =>
    have hrest := ih (Nat.sub_le_sub_right ha n) (Nat.sub_le_sub_right hb n)
    have hhead : (if a' < min n b' then 1 else 0) ≤ if a < min n b then 1 else 0 := by
      split <;> split <;> omega
    exact Nat.add_le_add hhead hrest

theorem segmentsIn_append_le (lens more : List Nat) (a b : Nat) : segmentsIn lens a b ≤ segmentsIn (lens ++ more) a b := by
  induction lens generalizing a b with
  | nil => exact Nat.zero_le _
  | cons n lens ih => exact Nat.add_le_add_left (ih _ _) _

/-- A segment without bytes is in no request. -/
theorem segmentsIn_append_zero (lens : List Nat) (a b : Nat) : segmentsIn (lens ++ [0]) a b = segmentsIn lens a b := by
  induction lens generalizing a b with
  | nil =>
    show (if a < min 0 b then 1 else 0) + 0 = 0
    rw [if_neg (by omega)]
  | cons n lens ih => exact congrArg _ (ih _ _)

theorem segmentsIn_empty (lens : List Nat) (h : b ≤ a) : segmentsIn lens a b = 0 := by
  induction lens generalizing a b with
  | nil => rfl
  | cons n lens ih =>
    rw [segmentsIn, ih (Nat.sub_le_sub_right h n), if_neg (by omega)]

theorem segmentsIn_pos (h : a < b) (hb : b ≤ lens.sum) : 0 < segmentsIn lens a b := by
  induction lens generalizing a b with
  | nil =>
    rw [List.sum_nil] at hb
    omega
  | cons n lens ih =>
    rw [List.sum_cons] at hb
    rw [segmentsIn]
    by_cases hn : a < n
    · rw [if_pos (by omega)]
      omega
    · have hrest := ih (a := a - n) (b := b - n) (by omega) (by omega)
      omega

/-- Up to `s` bytes into a segment: those of the segments before it, and this one. -/
theorem segmentsIn_at (pre : List Nat) (n : Nat) (post : List Nat) {s : Nat} (hs : s ≤ n) (a : Nat) :
    segmentsIn (pre ++ n :: post) a (pre.sum + s) = segmentsIn pre a pre.sum + if a < pre.sum + s ∧ 0 < s then 1 else 0 := by
  induction pre generalizing a with
  | nil =>
    have hpost := segmentsIn_empty (a := a - n) (b := s - n) post (by omega)
    rw [List.nil_append, List.sum_nil, Nat.zero_add]
    show (if a < min n s then 1 else 0) + segmentsIn post (a - n) (s - n) = 0 + _
    rw [hpost]
    split <;> split <;> omega
  | cons m pre ih =>
    have hsum : m + pre.sum + s - m = pre.sum + s := by omega
    rw [List.cons_append, List.sum_cons, segmentsIn, segmentsIn, hsum, ih, Nat.add_sub_cancel_left]
    split <;> split <;> split <;> split <;> omega

theorem Room.shrinks (sges : Nat) (lens : List Nat) : Shrinks (Room sges lens) where
  left h hab := ⟨by have := h.1; omega, (segmentsIn_mono lens hab (Nat.le_refl _)).trans h.2⟩
  right h hbc := ⟨hbc.trans h.1, (segmentsIn_mono lens (Nat.le_refl _) hbc).trans h.2⟩

end Counts

/-! The packer. -/

/-- The packer has handled the first `pos` bytes: its request holds those from its offset
    on, each segment in an entry of its own. -/
structure Packer.Stands (sges : Nat) (lens : List Nat) (p : Packer) (pos : Nat) : Prop where
  offset : p.remoteOff + p.wrBytes = pos
  entries : p.sges.length = segmentsIn lens p.remoteOff pos
  room : Room sges lens p.remoteOff pos
  some : p.wrBytes = 0 → pos = 0

section Packing
variable {sges : Nat} {lens : List Nat} {p : Packer}

theorem Packer.Stands.start (sges : Nat) (lens : List Nat) : Packer.Stands sges lens .start 0 :=
  ⟨rfl, (segmentsIn_empty lens (Nat.le_refl 0)).symm,
    ⟨Nat.zero_le _, (segmentsIn_empty lens (Nat.le_refl 0)).trans_le (Nat.zero_le _)⟩, fun _ => rfl⟩

/-- One segment is packed: what is flushed begins where full requests do. -/
theorem packSegment_stands (hsges : 0 < sges) (pre post : List Nat) (seg : WriteSegment) (fuel s : Nat) (p : Packer)
    (h : p.Stands sges (pre ++ seg.len :: post) (pre.sum + s)) (hs : s ≤ seg.len) (hfuel : seg.len - s ≤ fuel)
    (hplace : s = 0 ∨ s = seg.len ∨ p.wrBytes = writeWrMax) :
    (packSegment sges seg fuel s p).2.Stands sges (pre ++ seg.len :: post) (pre.sum + seg.len) ∧
      Cut (Room sges (pre ++ seg.len :: post)) p.remoteOff ((packSegment sges seg fuel s p).1.map Prod.fst)
        (packSegment sges seg fuel s p).2.remoteOff := by
  have hmax : 0 < writeWrMax := by decide
  -- on the fuel, which bounds what is left of the segment; a piece takes at least one byte
  induction fuel generalizing s p with
  | zero =>
    have hend : s = seg.len := by omega
    exact ⟨hend ▸ h, .nil _⟩
  | succ fuel ih =>
    by_cases hlt : s < seg.len
    · -- the next piece of the segment, in a request `q` that has room for it
      have take : ∀ q : Packer, q.remoteOff + q.wrBytes = pre.sum + s → q.wrBytes < writeWrMax →
          q.sges.length < sges → q.sges.length = segmentsIn pre q.remoteOff pre.sum →
          (packSegment sges seg fuel (s + min (seg.len - s) (writeWrMax - q.wrBytes))
            (q.push seg s (min (seg.len - s) (writeWrMax - q.wrBytes)))).2.Stands sges (pre ++ seg.len :: post)
              (pre.sum + seg.len) ∧
          Cut (Room sges (pre ++ seg.len :: post)) q.remoteOff
            ((packSegment sges seg fuel (s + min (seg.len - s) (writeWrMax - q.wrBytes))
              (q.push seg s (min (seg.len - s) (writeWrMax - q.wrBytes)))).1.map Prod.fst)
            (packSegment sges seg fuel (s + min (seg.len - s) (writeWrMax - q.wrBytes))
              (q.push seg s (min (seg.len - s) (writeWrMax - q.wrBytes)))).2.remoteOff := by
        intro q hpos hlow hfew hlen
        generalize htake : min (seg.len - s) (writeWrMax - q.wrBytes) = take
        have hcount : segmentsIn (pre ++ seg.len :: post) q.remoteOff (pre.sum + (s + take)) = q.sges.length + 1 := by
          rw [segmentsIn_at pre seg.len post (by omega), ← hlen, if_pos ⟨by omega, by omega⟩]
        refine ih (s + take) (q.push seg s take) ⟨?_, ?_, ⟨?_, ?_⟩, ?_⟩ (by omega) (by omega) ?_
        · show q.remoteOff + (q.wrBytes + take) = pre.sum + (s + take)
          omega
        · show (q.sges ++ [_]).length = segmentsIn _ q.remoteOff _
          rw [hcount, List.length_append, List.length_singleton]
        · show pre.sum + (s + take) ≤ q.remoteOff + writeWrMax
          omega
        · show segmentsIn _ q.remoteOff _ ≤ sges
          omega
        · intro hzero
          have hzero' : q.wrBytes + take = 0 := hzero
          omega
        · show _ ∨ _ ∨ q.wrBytes + take = writeWrMax
          omega
      have hroom := h.room
      have hpos := h.offset
      have hentries := h.entries
      rw [segmentsIn_at pre seg.len post hs] at hentries
      by_cases hfull : p.full sges
      · -- the request is full: it has no room for the next byte
        have hover : ¬Room sges (pre ++ seg.len :: post) p.remoteOff (pre.sum + s + 1) := by
          rintro ⟨hbytes, hcount⟩
          rw [Nat.add_assoc, segmentsIn_at pre seg.len post (by omega)] at hcount
          rcases hfull with hfull | hfull
          · rw [if_pos ⟨by omega, by omega⟩] at hcount
            rcases hplace with hzero | hend | hmaxed
            · rw [if_neg (by omega)] at hentries
              omega
            · omega
            · omega
          · omega
        have hbegun : p.remoteOff < pre.sum + s := by
          rcases hfull with hfull | hfull
          · by_contra hge
            rw [if_neg (by omega), segmentsIn_empty pre (by omega)] at hentries
            omega
          · omega
        have hrest := take p.flushed (by show p.remoteOff + p.wrBytes + 0 = _; omega) hmax hsges
          (by
            show 0 = segmentsIn pre (p.remoteOff + p.wrBytes) pre.sum
            exact (segmentsIn_empty pre (by omega)).symm)
        simp only [packSegment, if_pos hlt, if_pos hfull]
        refine ⟨hrest.1, ?_⟩
        have hflushed : p.flushed.remoteOff = pre.sum + s := hpos
        refine .cons ⟨hbegun, hroom, hover⟩ ?_
        rw [← hflushed]
        exact hrest.2
      · have hlow : p.wrBytes < writeWrMax := by
          simp only [Packer.full, not_or] at hfull
          omega
        have hfew : p.sges.length < sges := by
          simp only [Packer.full, not_or] at hfull
          have := hroom.2
          rw [← h.entries] at this
          omega
        have hzero : s = 0 := by omega
        rw [if_neg (by omega), Nat.add_zero] at hentries
        simp only [packSegment, if_pos hlt, if_neg hfull]
        exact take p hpos hlow hfew hentries
    · have hend : s = seg.len := by omega
      simp only [packSegment, if_neg hlt]
      exact ⟨hend ▸ h, .nil _⟩

theorem packSegments_stands (hsges : 0 < sges) (segments : List WriteSegment) (pre : List Nat) (p : Packer)
    (h : p.Stands sges (pre ++ segments.map WriteSegment.len) pre.sum) :
    (packSegments sges segments p).2.Stands sges (pre ++ segments.map WriteSegment.len)
        (pre.sum + (segments.map WriteSegment.len).sum) ∧
      Cut (Room sges (pre ++ segments.map WriteSegment.len)) p.remoteOff ((packSegments sges segments p).1.map Prod.fst)
        (packSegments sges segments p).2.remoteOff := by
  induction segments generalizing pre p with
  | nil => exact ⟨h, .nil _⟩
  | cons seg rest ih =>
    obtain ⟨hseg, hcut⟩ := packSegment_stands hsges pre (rest.map WriteSegment.len) seg seg.len 0 p h (Nat.zero_le _)
      (Nat.le_refl _) (.inl rfl)
    have hlist : pre ++ (seg :: rest).map WriteSegment.len = (pre ++ [seg.len]) ++ rest.map WriteSegment.len := by
      rw [List.map_cons, List.append_assoc, List.singleton_append]
    have hsum : (pre ++ [seg.len]).sum = pre.sum + seg.len := by
      rw [List.sum_append, List.sum_singleton]
    have hnext := ih (pre ++ [seg.len]) (packSegment sges seg seg.len 0 p).2 (by
      rw [← hlist, hsum]
      exact hseg)
    rw [← hlist, hsum, Nat.add_assoc] at hnext
    refine ⟨hnext.1, ?_⟩
    have hall := hcut.append hnext.2
    rw [← List.map_append] at hall
    exact hall

/-- The requests of a plan that has bytes: full ones, and one that has room for the rest. -/
theorem plan_cut (segments : List WriteSegment) (limit : Nat) (hpos : 0 < (segments.map WriteSegment.len).sum) :
    ∃ xs c, (plan segments limit).map Prod.fst = xs ++ [c] ∧
      Cut (Room (clampSge limit) (segments.map WriteSegment.len)) 0 xs c ∧ c < (segments.map WriteSegment.len).sum ∧
      Room (clampSge limit) (segments.map WriteSegment.len) c (segments.map WriteSegment.len).sum := by
  obtain ⟨hend, hcut⟩ := packSegments_stands (clampSge_pos limit) segments [] .start (Packer.Stands.start _ _)
  rw [List.nil_append, List.sum_nil, Nat.zero_add] at hend
  rw [List.nil_append] at hcut
  have hbytes := hend.offset
  have hsome : (packSegments (clampSge limit) segments .start).2.wrBytes ≠ 0 := by
    intro hzero
    have hnone := hend.some hzero
    omega
  have hne : (packSegments (clampSge limit) segments .start).2.sges ≠ [] := by
    intro hnil
    have hentries := hend.entries
    have hmore : 0 < segmentsIn (segments.map WriteSegment.len)
        (packSegments (clampSge limit) segments .start).2.remoteOff (segments.map WriteSegment.len).sum :=
      segmentsIn_pos (by omega) (Nat.le_refl _)
    rw [hnil, List.length_nil] at hentries
    omega
  refine ⟨_, _, ?_, hcut, by omega, hend.room⟩
  rw [plan, List.map_append, Packer.tail, if_neg (by simpa using hne)]
  rfl

/-- A request begins exactly where greedy cutting begins one. -/
theorem plan_begins (segments : List WriteSegment) (limit x : Nat) :
    (∃ w ∈ plan segments limit, w.1 = x) ↔
      Begins (Room (clampSge limit) (segments.map WriteSegment.len)) (segments.map WriteSegment.len).sum x := by
  rcases Nat.eq_zero_or_pos (segments.map WriteSegment.len).sum with hzero | hpos
  · rw [plan_nil_of_empty hzero, hzero]
    constructor
    · rintro ⟨w, hw, -⟩
      cases hw
    · intro h
      cases h with
      | first h => exact absurd h (Nat.lt_irrefl _)
      | next _ _ h => exact absurd h (Nat.not_lt_zero _)
  · obtain ⟨xs, c, hxs, hcut, hc, hlast⟩ := plan_cut segments limit hpos
    rw [hcut.begins_iff (Room.shrinks _ _) hc hlast, ← hxs, List.mem_map]

/-- As few requests are planned as can carry the segments. -/
theorem plan_covers (segments : List WriteSegment) (limit n : Nat) :
    Covers (Room (clampSge limit) (segments.map WriteSegment.len)) (segments.map WriteSegment.len).sum n 0 ↔
      (plan segments limit).length ≤ n := by
  rcases Nat.eq_zero_or_pos (segments.map WriteSegment.len).sum with hzero | hpos
  · rw [plan_nil_of_empty hzero, hzero]
    exact iff_of_true (.done (Nat.le_refl 0)) (Nat.zero_le n)
  · obtain ⟨xs, c, hxs, hcut, hc, hlast⟩ := plan_cut segments limit hpos
    have hlen : (plan segments limit).length = xs.length + 1 := by
      rw [← List.length_map Prod.fst, hxs, List.length_append, List.length_singleton]
    rw [hlen]
    exact hcut.covers_iff (Room.shrinks _ _) hc hlast

end Packing

/-! The batches. -/

/-- Requests of at most `sges` entries carry the segments if `pool` of them have room. -/
def RoomFor (sges pool : Nat) (lens : List Nat) : Prop := Covers (Room sges lens) lens.sum pool 0

/-- The next `n` segments go together: as many as can be carried, or a first one that cannot. -/
def NextBatch (sges pool : Nat) (lens : List Nat) (n : Nat) : Prop :=
  1 ≤ n ∧ n ≤ lens.length ∧
    (RoomFor sges pool (lens.take n) ∧ (n < lens.length → ¬RoomFor sges pool (lens.take (n + 1))) ∨
      n = 1 ∧ ¬RoomFor sges pool (lens.take 1))

section Batches
variable {sges pool n m : Nat} {lens : List Nat}

theorem RoomFor.of_prefix {more : List Nat} (h : RoomFor sges pool (lens ++ more)) : RoomFor sges pool lens := by
  refine h.shorter (fun a b hroom => ⟨hroom.1, (segmentsIn_append_le lens more a b).trans hroom.2⟩) ?_
  rw [List.sum_append]
  exact Nat.le_add_right ..

theorem RoomFor.of_take (h : RoomFor sges pool (lens.take m)) (hle : n ≤ m) : RoomFor sges pool (lens.take n) := by
  obtain ⟨more, hmore⟩ := List.take_prefix_take_left (l := lens) hle
  rw [← hmore] at h
  exact h.of_prefix

theorem RoomFor.mono (h : RoomFor sges pool lens) (hle : pool ≤ n) : RoomFor sges n lens := Covers.mono h hle

theorem RoomFor.append_zero (h : RoomFor sges pool lens) : RoomFor sges pool (lens ++ [0]) := by
  refine h.shorter (fun a b hroom => ⟨hroom.1, ?_⟩) ?_
  · rw [segmentsIn_append_zero]
    exact hroom.2
  · rw [List.sum_append, List.sum_singleton]
    exact Nat.le_refl _

/-- Behind a batch that can be carried there are bytes: a segment without any would have gone with it. -/
theorem NextBatch.rest_pos (h : NextBatch sges pool lens n) (hroom : RoomFor sges pool (lens.take n))
    (hlt : n < lens.length) : 0 < (lens.drop n).sum := by
  obtain ⟨-, -, ⟨-, hover⟩ | ⟨rfl, hlong⟩⟩ := h
  · by_contra hnone
    have hzero : lens[n] = 0 := by
      rw [List.drop_eq_getElem_cons hlt, List.sum_cons] at hnone
      omega
    refine hover hlt ?_
    rw [List.take_succ_eq_append_getElem hlt, hzero]
    exact hroom.append_zero
  · exact absurd hroom hlong

/-- A longer batch would not have stopped here. -/
theorem NextBatch.not_lt (hn : NextBatch sges pool lens n) (hm : NextBatch sges pool lens m) : ¬n < m := by
  intro hlt
  obtain ⟨hpos, -, hcut⟩ := hn
  obtain ⟨-, hlen, hcut'⟩ := hm
  rcases hcut' with ⟨hroom, -⟩ | ⟨hone, -⟩
  · rcases hcut with ⟨-, hover⟩ | ⟨rfl, hlong⟩
    · exact hover (by omega) (hroom.of_take hlt)
    · exact hlong (hroom.of_take hlt.le)
  · omega

theorem NextBatch.unique (hn : NextBatch sges pool lens n) (hm : NextBatch sges pool lens m) : n = m := by
  have hlt := hn.not_lt hm
  have hgt := hm.not_lt hn
  omega

theorem roomFor_iff (segments : List WriteSegment) (limit : Nat) :
    RoomFor (clampSge limit) pool (segments.map WriteSegment.len) ↔ (plan segments limit).length ≤ pool :=
  plan_covers segments limit pool

/-- The batch the code plans is the next one. -/
theorem Batch.next {segments : List WriteSegment} {limit bytes : Nat} (h : Batch segments limit pool n bytes) :
    NextBatch (clampSge limit) pool (segments.map WriteSegment.len) n := by
  have htake : ∀ k, RoomFor (clampSge limit) pool ((segments.map WriteSegment.len).take k) ↔
      (plan (segments.take k) limit).length ≤ pool := fun k => by
    rw [← List.map_take, roomFor_iff]
  refine ⟨h.pos, by rw [List.length_map]; exact h.le, ?_⟩
  simp only [htake, List.length_map]
  rcases h.cut with ⟨hfits, hover⟩ | ⟨hone, seg, hhead, hlong, -⟩
  · exact .inl ⟨hfits, fun hlt => Nat.not_le.mpr (hover hlt)⟩
  · refine .inr ⟨hone, ?_⟩
    obtain ⟨rest, rfl⟩ := List.head?_eq_some_iff.mp hhead
    exact Nat.not_le.mpr hlong

/-- `next_batch_len` takes `n` segments exactly if they are the next batch. -/
theorem nextBatchLen_next {segments : List WriteSegment} (hne : segments ≠ []) (limit budget : Nat) :
    (∃ bytes, nextBatchLen segments limit budget = .ok (n, bytes)) ↔
      NextBatch (clampSge limit) (max budget 1) (segments.map WriteSegment.len) n := by
  obtain ⟨k, bytes, hnext, hbatch⟩ := nextBatchLen_batch hne limit budget
  constructor
  · rintro ⟨bytes', hn⟩
    cases hnext.symm.trans hn
    exact hbatch.next
  · intro hn
    cases hn.unique hbatch.next
    exact ⟨bytes, hnext⟩

end Batches

/-- The batches of a gather: the segment each begins at and how many it takes. The next is
    cut once the one before it has been carried. -/
inductive BatchAt (sges pool : Nat) (lens : List Nat) : Nat → Nat → Prop
  | first {n : Nat} (h : NextBatch sges (max pool 1) lens n) : BatchAt sges pool lens 0 n
  | next {i n m : Nat} (hi : BatchAt sges pool lens i n) (hroom : RoomFor sges pool ((lens.drop i).take n))
      (h : NextBatch sges (max pool 1) (lens.drop (i + n)) m) : BatchAt sges pool lens (i + n) m

/-- Where a gather's batches begin, and the requests of those that can be carried, in bytes
    from its start. -/
inductive BeginsAt (sges pool : Nat) (lens : List Nat) : Nat → Prop
  | start : BeginsAt sges pool lens 0
  | batch {i n : Nat} (hi : BatchAt sges pool lens i n) : BeginsAt sges pool lens (lens.take i).sum
  | request {i n a : Nat} (hi : BatchAt sges pool lens i n) (hroom : RoomFor sges pool ((lens.drop i).take n))
      (ha : Begins (Room sges ((lens.drop i).take n)) ((lens.drop i).take n).sum a) :
      BeginsAt sges pool lens ((lens.take i).sum + a)

section Places
variable {sges pool i n a : Nat} {lens : List Nat}

theorem BatchAt.batch (h : BatchAt sges pool lens i n) : NextBatch sges (max pool 1) (lens.drop i) n := by
  cases h with
  | first h => exact h
  | next _ _ h => exact h

theorem take_sum_add (lens : List Nat) (i : Nat) : (lens.take i).sum + (lens.drop i).sum = lens.sum := by
  rw [← List.sum_append, List.take_append_drop]

/-- Nothing begins behind the last byte, unless there is none. -/
theorem BeginsAt.lt (h : BeginsAt sges pool lens a) : a = 0 ∨ a < lens.sum := by
  cases h with
  | start => exact .inl rfl
  | @batch i n hi =>
    cases hi with
    | first h => exact .inl rfl
    | @next i n m hi hroom hm =>
      have hlt : n < (lens.drop i).length := by
        obtain ⟨hpos, hle, -⟩ := hm
        rw [List.length_drop] at hle ⊢
        omega
      have hrest := hi.batch.rest_pos (hroom.mono (Nat.le_max_left ..)) hlt
      rw [List.drop_drop] at hrest
      have hall := take_sum_add lens (i + n)
      omega
  | @request i n a hi hroom ha =>
    have hlt := ha.lt
    have hslice := take_sum_add (lens.drop i) n
    have hall := take_sum_add lens i
    omega

end Places

end Hord
