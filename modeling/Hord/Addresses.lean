import Hord.Gathers
import Hord.Header
import Hord.Packing

/- The addresses of a one-sided write. The buffer is what the peer's request header says:
   any 64-bit address and length. The drivers add the bytes of the batches before to the
   address, and admission passed the offset of each request to that, in 64 bits and without
   a check. A request that begins below the top of the address space stays within the
   buffer, wherever it ends; so no sum overflows and every request stays within the buffer
   exactly if no batch and no request begins at the top or beyond (`addresses_fit_iff`). -/
namespace Hord

open Prog Transition Cutting

/-- The sums a driver computes for a batch: its address, and those of its requests if they
    are admitted. -/
def Gather.sums (maxSge pool : Nat) (g : Gather) : List Nat :=
  (g.peerAddr + g.base) ::
    if (g.requests maxSge).length ≤ pool then
      (plan ((g.segments.drop g.start).take g.count) maxSge).map fun w => (g.peerAddr + g.base) % 2 ^ 64 + w.1
    else []

/-- The requests of a batch, if they are admitted. -/
def Gather.admitted (maxSge pool : Nat) (g : Gather) : List SendWr :=
  if (g.requests maxSge).length ≤ pool then g.requests maxSge else []

/-- The range a write targets lies in the `len` bytes from `addr` on. -/
def SendWr.Within (addr len : Nat) : SendWr → Prop
  | .send .. => True
  | .write _ sges remoteAddr _ _ => addr ≤ remoteAddr ∧ remoteAddr + sgesLen sges ≤ addr + len

/-- No sum of the batch overflows, and its requests stay within the peer's `len` bytes. -/
structure Gather.InBuffer (maxSge pool len : Nat) (g : Gather) : Prop where
  sums : ∀ x ∈ g.sums maxSge pool, x < 2 ^ 64
  target : ∀ w ∈ g.admitted maxSge pool, w.Within g.peerAddr len

/-- That holds of every batch a driver plans. -/
def GatherReq.InBuffer (maxSge pool len : Nat) (q : GatherReq) : Prop :=
  ∀ g, q.Turn maxSge pool g → g.InBuffer maxSge pool len

def totalLen (segments : List WriteSegment) : Nat := (segments.map WriteSegment.len).sum

/-- A batch or a request of the write begins `a` bytes from the peer's address. -/
def GatherReq.BeginsAt (maxSge pool : Nat) (q : GatherReq) (a : Nat) : Prop :=
  Hord.BeginsAt (clampSge maxSge) pool (q.segments.map WriteSegment.len) a

/-! Where the batches lie. -/

section Turns
variable {q : GatherReq} {g : Gather} {maxSge pool len : Nat}

/-- The segments of a batch. -/
def Gather.slice (g : Gather) : List WriteSegment := (g.segments.drop g.start).take g.count

theorem GatherReq.Turn.segments (h : q.Turn maxSge pool g) : g.segments = q.segments :=
  congrArg GatherReq.segments h.spec.1

theorem GatherReq.Turn.peerAddr (h : q.Turn maxSge pool g) : g.peerAddr = q.peerAddr :=
  congrArg GatherReq.peerAddr h.spec.1

theorem GatherReq.Turn.slice_lens (h : q.Turn maxSge pool g) :
    g.slice.map WriteSegment.len = ((q.segments.map WriteSegment.len).drop g.start).take g.count := by
  rw [Gather.slice, h.segments, List.map_take, List.map_drop]

theorem Gather.planned_le (maxSge : Nat) (g : Gather) : (plan g.slice maxSge).length ≤ (g.requests maxSge).length := by
  rw [Gather.requests, writeWrs_length, plannedCount]
  split
  · next hnil =>
    rw [← Gather.slice] at hnil
    omega
  · exact Nat.le_refl _

/-- The send pool can carry an admitted batch. -/
theorem GatherReq.Turn.room (h : q.Turn maxSge pool g) (hfits : (g.requests maxSge).length ≤ pool) :
    RoomFor (clampSge maxSge) pool (((q.segments.map WriteSegment.len).drop g.start).take g.count) := by
  rw [← h.slice_lens, roomFor_iff]
  exact (g.planned_le maxSge).trans hfits

/-- Of a batch that has requests to send, or is not the last, those are all. -/
theorem GatherReq.Turn.fits (h : q.Turn maxSge pool g)
    (hroom : RoomFor (clampSge maxSge) pool (((q.segments.map WriteSegment.len).drop g.start).take g.count))
    (hmore : plan g.slice maxSge ≠ [] ∨ g.immHere = none) : (g.requests maxSge).length ≤ pool := by
  rw [← h.slice_lens, roomFor_iff] at hroom
  rw [Gather.requests, writeWrs_length, plannedCount, ← Gather.slice]
  split
  · next hone =>
    rcases hmore with hne | hnone
    · exact absurd (List.length_eq_zero_iff.mp hone.1) hne
    · rw [hnone] at hone
      exact absurd hone.2 Bool.false_ne_true
  · exact hroom

theorem nextBatchLen_ne_nil {segments : List WriteSegment} {n bytes : Nat}
    (h : nextBatchLen segments maxSge pool = .ok (n, bytes)) : segments ≠ [] := by
  rintro rfl
  cases h

/-- The batches a driver plans are those of the lengths of its segments. -/
theorem GatherReq.Turn.batchAt (h : q.Turn maxSge pool g) (hne : q.segments ≠ []) :
    BatchAt (clampSge maxSge) pool (q.segments.map WriteSegment.len) g.start g.count ∧
      g.base = ((q.segments.map WriteSegment.len).take g.start).sum := by
  have bytes : ∀ {n bytes : Nat} {segments : List WriteSegment}, nextBatchLen segments maxSge pool = .ok (n, bytes) →
      NextBatch (clampSge maxSge) (max pool 1) (segments.map WriteSegment.len) n ∧
        bytes = ((segments.map WriteSegment.len).take n).sum := by
    intro n bytes segments hnext
    have hsegs := nextBatchLen_ne_nil hnext
    obtain ⟨k, b, hk, hbatch⟩ := nextBatchLen_batch hsegs maxSge pool
    cases hk.symm.trans hnext
    exact ⟨hbatch.next, by rw [hbatch.bytes, List.map_take]⟩
  have hspec : ∀ {g : Gather}, q.Turn maxSge pool g → g.bytes =
      (((q.segments.map WriteSegment.len).drop g.start).take g.count).sum := by
    intro g hg
    have hbytes := (bytes (hg.spec.2.resolve_left hne)).2
    rwa [List.map_drop] at hbytes
  induction h with
  | empty hnil => exact absurd hnil hne
  | first n _ hnext => exact ⟨.first (bytes hnext).1, rfl⟩
  | next g hg hfits n b hnext ih =>
    refine ⟨.next ih.1 (hg.room hfits) ?_, ?_⟩
    · rw [← List.map_drop]
      exact (bytes hnext).1
    · show g.base + g.bytes = _
      rw [ih.2, hspec hg, List.take_add, List.sum_append]

/-- And each of those is planned. -/
theorem BatchAt.turn {i n : Nat} (h : BatchAt (clampSge maxSge) pool (q.segments.map WriteSegment.len) i n) :
    ∃ g, q.Turn maxSge pool g ∧ g.start = i ∧ g.count = n := by
  induction h with
  | first h =>
    have hne : q.segments ≠ [] := by
      intro hnil
      obtain ⟨hpos, hle, -⟩ := h
      rw [hnil] at hle
      exact absurd (hpos.trans hle) (by decide)
    obtain ⟨bytes, hnext⟩ := (nextBatchLen_next hne maxSge pool).mpr h
    exact ⟨_, .first _ bytes hnext, rfl, rfl⟩
  | @next i n m hi hroom hm ih =>
    obtain ⟨g, hg, rfl, rfl⟩ := ih
    have hlen : g.start + g.count + m ≤ q.segments.length ∧ 1 ≤ m := by
      obtain ⟨hpos, hle, -⟩ := hm
      rw [List.length_drop, List.length_map] at hle
      omega
    have himm : g.immHere = none := by
      rw [Gather.immHere, hg.segments, if_neg (by omega)]
    have hdrop : q.segments.drop (g.start + g.count) ≠ [] := by
      rw [Ne, List.drop_eq_nil_iff]
      omega
    rw [← List.map_drop] at hm
    obtain ⟨bytes, hnext⟩ := (nextBatchLen_next hdrop maxSge pool).mpr hm
    exact ⟨_, .next g hg (hg.fits hroom (.inr himm)) m bytes hnext, rfl, rfl⟩

/-! What is computed for a batch. -/

/-- A batch begins where it should. -/
theorem GatherReq.Turn.base_begins (h : q.Turn maxSge pool g) : q.BeginsAt maxSge pool g.base := by
  by_cases hne : q.segments = []
  · cases h with
    | empty _ => exact .start
    | first _ _ hnext => exact absurd hne (nextBatchLen_ne_nil hnext)
    | next _ _ _ _ _ hnext =>
      rw [hne, List.drop_nil] at hnext
      exact absurd rfl (nextBatchLen_ne_nil hnext)
  · obtain ⟨hat, hbase⟩ := h.batchAt hne
    rw [hbase]
    exact .batch hat

/-- And so does each of its requests, if they are admitted. -/
theorem GatherReq.Turn.request_begins (h : q.Turn maxSge pool g) (hfits : (g.requests maxSge).length ≤ pool)
    {w : Planned} (hw : w ∈ plan g.slice maxSge) : q.BeginsAt maxSge pool (g.base + w.1) := by
  have hne : q.segments ≠ [] := by
    intro hnil
    rw [Gather.slice, h.segments, hnil, List.drop_nil, List.take_nil] at hw
    cases hw
  obtain ⟨hat, hbase⟩ := h.batchAt hne
  rw [hbase]
  refine .request hat (h.room hfits) ?_
  rw [← h.slice_lens]
  exact (plan_begins g.slice maxSge w.1).mp ⟨w, hw, rfl⟩

/-- The bytes of an admitted request lie among those of the segments. -/
theorem GatherReq.Turn.request_end (h : q.Turn maxSge pool g) {w : Planned} (hw : w ∈ plan g.slice maxSge) :
    g.base + w.1 + sgesLen w.2 ≤ totalLen q.segments := by
  have hne : q.segments ≠ [] := by
    intro hnil
    rw [Gather.slice, h.segments, hnil, List.drop_nil, List.take_nil] at hw
    cases hw
  obtain ⟨-, hbase⟩ := h.batchAt hne
  have hend : w.1 + sgesLen w.2 ≤ (g.slice.map WriteSegment.len).sum := by
    obtain ⟨⟨stop, hok⟩, -⟩ := plan_spec g.slice maxSge
    obtain ⟨ws, vs, hsplit⟩ := List.append_of_mem hw
    have htotal := planned_total g.slice maxSge
    rw [hsplit] at hok htotal
    rw [hok.offset, ← htotal, List.map_append, List.map_cons, List.sum_append, List.sum_cons]
    omega
  rw [h.slice_lens] at hend
  have hslice := take_sum_add ((q.segments.map WriteSegment.len).drop g.start) g.count
  have hall := take_sum_add (q.segments.map WriteSegment.len) g.start
  rw [totalLen, hbase]
  omega

theorem mem_plannedWrs {n peerAddr peerRkey idx : Nat} {imm : Option Nat} {ws : List Planned} {v : SendWr}
    (h : v ∈ plannedWrs n peerAddr peerRkey imm idx ws) : ∃ i, ∃ w ∈ ws, v = plannedWr n peerAddr peerRkey imm i w := by
  induction ws generalizing idx with
  | nil => cases h
  | cons w ws ih =>
    rcases List.mem_cons.mp h with rfl | h
    · exact ⟨idx, w, List.mem_cons_self .., rfl⟩
    · obtain ⟨i, u, hu, rfl⟩ := ih h
      exact ⟨i, u, List.mem_cons_of_mem _ hu, rfl⟩

/-- The requests of a batch are those planned, or the one that only carries the immediate. -/
theorem Gather.mem_requests {v : SendWr} (h : v ∈ g.requests maxSge) :
    (∃ id imm, ∃ w ∈ plan g.slice maxSge,
      v = .write id w.2 (((g.peerAddr + g.base) % 2 ^ 64 + w.1) % 2 ^ 64) g.peerRkey imm) ∨
    ∃ id imm, v = .write id [] ((g.peerAddr + g.base) % 2 ^ 64) g.peerRkey imm := by
  rw [Gather.requests, writeWrs, ← Gather.slice] at h
  split at h
  · split at h
    · rw [List.mem_singleton] at h
      exact .inr ⟨_, _, h⟩
    · cases h
  · obtain ⟨i, w, hw, hv⟩ := mem_plannedWrs h
    exact .inl ⟨_, _, w, hw, hv⟩

/-- If all that begins does so below the top of the address space, nothing overflows. -/
theorem GatherReq.inBuffer_of_begins (hlen : totalLen q.segments ≤ len)
    (h : ∀ a, q.BeginsAt maxSge pool a → q.peerAddr + a < 2 ^ 64) : q.InBuffer maxSge pool len := by
  -- the batch begins somewhere, and so does each request of it that is admitted
  intro g hg
  have hpeer := hg.peerAddr
  have hsum : g.peerAddr + g.base < 2 ^ 64 := by
    rw [hpeer]
    exact h _ hg.base_begins
  have hrequest : ∀ {w : Planned}, (g.requests maxSge).length ≤ pool → w ∈ plan g.slice maxSge →
      g.peerAddr + g.base + w.1 < 2 ^ 64 := by
    intro w hfits hw
    rw [hpeer, Nat.add_assoc]
    exact h _ (hg.request_begins hfits hw)
  constructor
  · intro x hx
    rw [Gather.sums, Nat.mod_eq_of_lt hsum, ← Gather.slice] at hx
    rcases List.mem_cons.mp hx with rfl | hx
    · exact hsum
    · split at hx
      · next hfits =>
        obtain ⟨w, hw, rfl⟩ := List.mem_map.mp hx
        exact hrequest hfits hw
      · cases hx
  · intro v hv
    rw [Gather.admitted] at hv
    split at hv
    · next hfits =>
      have hend : g.base ≤ totalLen q.segments := by
        rcases hg.base_begins.lt with hzero | hlt
        · rw [hzero]
          exact Nat.zero_le _
        · exact hlt.le
      rcases Gather.mem_requests hv with ⟨id, imm, w, hw, rfl⟩ | ⟨id, imm, rfl⟩
      · have hlast := hg.request_end hw
        rw [Nat.mod_eq_of_lt hsum, Nat.mod_eq_of_lt (hrequest hfits hw)]
        show g.peerAddr ≤ g.peerAddr + g.base + w.1 ∧ g.peerAddr + g.base + w.1 + sgesLen w.2 ≤ g.peerAddr + len
        omega
      · rw [Nat.mod_eq_of_lt hsum]
        show g.peerAddr ≤ g.peerAddr + g.base ∧ g.peerAddr + g.base + 0 ≤ g.peerAddr + len
        omega
    · cases hv

/-- And whatever begins, a driver computes its address. -/
theorem GatherReq.begins_of_inBuffer (haddr : q.peerAddr < 2 ^ 64) (h : q.InBuffer maxSge pool len) {a : Nat}
    (ha : q.BeginsAt maxSge pool a) : q.peerAddr + a < 2 ^ 64 := by
  -- a driver comes to every batch, and sums its address first
  have batch : ∀ {i n : Nat}, BatchAt (clampSge maxSge) pool (q.segments.map WriteSegment.len) i n →
      ∃ g, q.Turn maxSge pool g ∧ g.start = i ∧ g.count = n ∧
        g.base = ((q.segments.map WriteSegment.len).take i).sum ∧ q.peerAddr + g.base < 2 ^ 64 := by
    intro i n hi
    obtain ⟨g, hg, rfl, rfl⟩ := hi.turn
    have hne : q.segments ≠ [] := by
      intro hnil
      obtain ⟨hpos, hle, -⟩ := hi.batch
      rw [hnil, List.map_nil, List.drop_nil] at hle
      exact absurd (hpos.trans hle) (by decide)
    have hsum := (h g hg).sums _ (List.mem_cons_self ..)
    rw [hg.peerAddr] at hsum
    exact ⟨g, hg, rfl, rfl, (hg.batchAt hne).2, hsum⟩
  cases ha with
  | start => exact haddr
  | batch hi =>
    obtain ⟨g, -, -, -, hbase, hsum⟩ := batch hi
    rwa [hbase] at hsum
  | @request i n a hi hroom ha =>
    obtain ⟨g, hg, rfl, rfl, hbase, hsum⟩ := batch hi
    rw [← hg.slice_lens] at ha
    obtain ⟨w, hw, rfl⟩ := (plan_begins g.slice maxSge a).mpr ha
    have hfits := hg.fits hroom (.inl (List.ne_nil_of_mem hw))
    have hrequest := (h g hg).sums ((g.peerAddr + g.base) % 2 ^ 64 + w.1) (by
      rw [Gather.sums, if_pos hfits, ← Gather.slice]
      exact List.mem_cons_of_mem _ (List.mem_map_of_mem hw))
    rw [hg.peerAddr, Nat.mod_eq_of_lt hsum, hbase] at hrequest
    rwa [← Nat.add_assoc]

/-- The sums of a write stay within 64 bits and its requests within the peer's buffer exactly
    if nothing begins at the top of the address space or beyond. -/
theorem GatherReq.inBuffer_iff (haddr : q.peerAddr < 2 ^ 64) (hlen : totalLen q.segments ≤ len) :
    q.InBuffer maxSge pool len ↔ ∀ a, q.BeginsAt maxSge pool a → q.peerAddr + a < 2 ^ 64 :=
  ⟨fun h _ ha => q.begins_of_inBuffer haddr h ha, q.inBuffer_of_begins hlen⟩

/-- Nothing does if the last byte does not. -/
theorem GatherReq.begins_lt (haddr : q.peerAddr < 2 ^ 64) (hend : q.peerAddr + totalLen q.segments ≤ 2 ^ 64) {a : Nat}
    (ha : q.BeginsAt maxSge pool a) : q.peerAddr + a < 2 ^ 64 := by
  rcases ha.lt with rfl | hlt
  · exact haddr
  · have htotal : a < totalLen q.segments := hlt
    omega

end Turns

/-! The requests a step posts. -/

/-- A driver posts admitted requests only. -/
theorem Gather.posted_admitted {s : HordStream} {g : Gather} {w : SendWr}
    (hw : w ∈ posted s (g.act.outcome s).2) : w ∈ g.admitted s.conn.maxSendSge s.geo.sendPool := by
  have hbegun : Begun s (g.wrs s) g.immHere ((g.act.outcome s).1.map fun _ => ()) (g.act.outcome s).2 := by
    have hspec : wp g.act.run s fun r t => Begun s (g.wrs s) g.immHere (r.map fun _ => ()) t :=
      beginWrite_begun _ _ _ _ s
    exact Act.outcome_wp hspec
  generalize g.act.outcome s = o at hbegun hw
  obtain ⟨r, t⟩ := o
  simp only at hbegun hw
  -- all of the batch was posted, or a first part of it before the device refused
  have hadmitted : ∀ {ws : List SendWr}, (ws ⊆ g.wrs s) → Admitted s (g.wrs s) g.immHere → w ∈ ws →
      w ∈ g.admitted s.conn.maxSendSge s.geo.sendPool := by
    intro ws hsub hadm hmem
    have hfits : (g.requests s.conn.maxSendSge).length ≤ s.geo.sendPool := hadm.pool
    rw [Gather.admitted, if_pos hfits]
    exact hsub hmem
  have hsent : ∀ (ws : List SendWr) {u : HordStream}, u.conn.out = s.conn.out ++ ws → posted s u = ws := by
    intro ws u hu
    rw [posted, hu, List.drop_left]
  cases r with
  | ok v =>
    obtain ⟨hadm, fs, rfl⟩ := hbegun
    rw [hsent (g.wrs s) (by rw [HordStream.setFaults, foldl_wrote_conn])] at hw
    rcases hadm with ⟨hnil, -, -⟩ | hadm
    · rw [hnil] at hw
      cases hw
    · exact hadmitted (List.Subset.refl _) hadm hw
  | error e =>
    cases e with
    | panic m => exact hbegun.elim
    | io e =>
      rcases hbegun with ⟨-, rfl⟩ | ⟨-, hadm, k, -, fs, rfl⟩
      · rw [posted, List.drop_length] at hw
        cases hw
      · rw [hsent ((g.wrs s).take k) (by rw [HordStream.close, HordStream.setFaults, foldl_wrote_conn])] at hw
        exact hadmitted (List.take_subset _ _) hadm hw

/-- The gather write a response makes out of the client's buffer. -/
def RdmaWriteReq.gather (r : RdmaWriteReq) (segments : List WriteSegment) (imm : Option Nat) : GatherReq :=
  ⟨segments, r.addr.toNat, r.rkey.toNat, imm⟩

/-- For every request header, every object that fits the client's buffer and every
    segmentation: the sums of every batch stay within 64 bits and its requests within the
    buffer exactly if every batch and request begins below the top of the address space,
    as they do if the object ends there; then so does whatever either driver posts, in every
    run. -/
theorem addresses_fit_iff (r : RdmaWriteReq) (objectSize : UInt64) (hfits : objectSize ≤ r.len)
    (segments : List WriteSegment) (hsegments : totalLen segments = objectSize.toNat) (imm : Option Nat) :
    (∀ maxSge pool, ((r.gather segments imm).InBuffer maxSge pool r.len.toNat ↔
        ∀ a, (r.gather segments imm).BeginsAt maxSge pool a → r.addr.toNat + a < 2 ^ 64) ∧
      (r.addr.toNat + objectSize.toNat ≤ 2 ^ 64 →
        ∀ a, (r.gather segments imm).BeginsAt maxSge pool a → r.addr.toNat + a < 2 ^ 64)) ∧
    (∀ (o₀ : Owner) (ls : List Doing) (u : Owner × List SendWr), o₀.Init → Run Owner.Logged (o₀, []) ls u →
      ∀ c g took, u.1.call = some ⟨c, .cont (.doing (.post g)), took⟩ → c.request = some (r.gather segments imm) →
        (∀ a, (r.gather segments imm).BeginsAt u.1.stream.conn.maxSendSge u.1.stream.geo.sendPool a →
          r.addr.toNat + a < 2 ^ 64) →
          (∀ x ∈ g.sums u.1.stream.conn.maxSendSge u.1.stream.geo.sendPool, x < 2 ^ 64) ∧
          ∀ w ∈ posted u.1.stream (g.act.outcome u.1.stream).2, w.Within r.addr.toNat r.len.toNat) ∧
    ∀ (config : HordConfig) (u₀ : Drive) (ls : List DriveEvent) (u : Drive × List SendWr),
      u₀.Init config segments r.addr.toNat r.rkey.toNat imm → Run Drive.Logged (u₀, []) ls u → u.1.pc = .post →
        (∀ a, (r.gather segments imm).BeginsAt u.1.stream.conn.maxSendSge u.1.stream.geo.sendPool a →
          r.addr.toNat + a < 2 ^ 64) →
          (∀ x ∈ u.1.gather.sums u.1.stream.conn.maxSendSge u.1.stream.geo.sendPool, x < 2 ^ 64) ∧
          ∀ w ∈ posted u.1.stream (u.1.gather.act.outcome u.1.stream).2, w.Within r.addr.toNat r.len.toNat := by
  have haddr : r.addr.toNat < 2 ^ 64 := r.addr.toNat_lt
  have hlen : totalLen segments ≤ r.len.toNat := by
    rw [hsegments]
    exact UInt64.le_iff_toNat_le.mp hfits
  -- a batch the driver is about to post
  have step : ∀ (s : HordStream) (g : Gather) (log : List SendWr), g.Ahead s (r.gather segments imm) log →
      (∀ a, (r.gather segments imm).BeginsAt s.conn.maxSendSge s.geo.sendPool a → r.addr.toNat + a < 2 ^ 64) →
        (∀ x ∈ g.sums s.conn.maxSendSge s.geo.sendPool, x < 2 ^ 64) ∧
        ∀ w ∈ posted s (g.act.outcome s).2, w.Within r.addr.toNat r.len.toNat := by
    intro s g log hg hbegins
    have hall : (r.gather segments imm).InBuffer s.conn.maxSendSge s.geo.sendPool r.len.toNat :=
      GatherReq.inBuffer_of_begins hlen hbegins
    have hroom := hall g hg.turn
    have hpeer : g.peerAddr = r.addr.toNat := congrArg GatherReq.peerAddr hg.req
    refine ⟨hroom.sums, fun w hw => ?_⟩
    have htarget := hroom.target w (Gather.posted_admitted hw)
    rwa [hpeer] at htarget
  refine ⟨fun maxSge pool => ⟨GatherReq.inBuffer_iff haddr hlen, fun hend a => ?_⟩, ?_, ?_⟩
  · rw [← hsegments] at hend
    exact GatherReq.begins_lt haddr hend
  · intro o₀ ls u hinit hrun c g took hcall hreq hbegins
    have hany : Run (fun u l v => Owner.Logged u l v ∧ (False → u.1.Calm l)) (o₀, []) ls u :=
      hrun.mono fun _ _ _ hs => ⟨hs, False.elim⟩
    have hn := ((Owner.Sends.run hinit hany).2 c _ _ took hcall).2 hreq
    cases hn with
    | post g h => exact step _ g _ h hbegins
  · intro config u₀ ls u hinit hrun hpc hbegins
    have hany : Run (fun u l v => Drive.Logged u l v ∧ (False → u.1.Calm (r.gather segments imm) l)) (u₀, []) ls u :=
      hrun.mono fun _ _ _ hs => ⟨hs, False.elim⟩
    have hu := (Drive.Sending.run hinit hany).2
    rw [Drive.Sends, hpc] at hu
    exact step _ _ _ hu hbegins

/-- A buffer of eight bytes of which the last four lie beyond the address space is filled by
    one request, which begins below the top. -/
theorem addresses_fit_eight :
    (RdmaWriteReq.mk 0xfffffffffffffffc 7 8 none).gather twoSegments none |>.InBuffer 2 1 8 := by
  have hfits := addresses_fit_iff ⟨0xfffffffffffffffc, 7, 8, none⟩ 8 (by decide) twoSegments rfl none
  -- one batch, of one request
  have hone : ∀ i n, BatchAt (clampSge 2) 1 (twoSegments.map WriteSegment.len) i n → i = 0 ∧ n = 2 := by
    intro i n hi
    induction hi with
    | first h =>
      obtain ⟨bytes, hnext⟩ := (nextBatchLen_next (by decide) 2 1).mpr h
      cases (show nextBatchLen twoSegments 2 1 = .ok (2, 8) by decide).symm.trans hnext
      exact ⟨rfl, rfl⟩
    | next _ _ hm ih =>
      obtain ⟨rfl, rfl⟩ := ih
      exact absurd (hm.1.trans hm.2.1) (by decide)
  have hstart : ∀ a, ((RdmaWriteReq.mk 0xfffffffffffffffc 7 8 none).gather twoSegments none).BeginsAt 2 1 a → a = 0 := by
    intro a ha
    cases ha with
    | start => rfl
    | batch hi =>
      obtain ⟨rfl, rfl⟩ := hone _ _ hi
      rfl
    | request hi _ ha =>
      obtain ⟨rfl, rfl⟩ := hone _ _ hi
      obtain ⟨w, hw, rfl⟩ := (plan_begins twoSegments 2 _).mpr ha
      rw [show plan twoSegments 2 = [(0, [⟨4096, 4, 5⟩, ⟨8192, 4, 5⟩])] by decide, List.mem_singleton] at hw
      rw [hw]
      rfl
  refine (hfits.1 2 1).1.mpr fun a ha => ?_
  rw [hstart a ha]
  exact (0xfffffffffffffffc : UInt64).toNat_lt

/-- The same buffer, with one segment a request: the second request begins beyond the top of
    the address space, and is posted to address 0. -/
theorem addresses_overflow :
    ¬∀ (value : List Char) (r : RdmaWriteReq), RdmaWriteReq.parse value = some r → ∀ objectSize : UInt64,
      objectSize ≤ r.len → ∀ (segments : List WriteSegment) (imm : Option Nat), totalLen segments = objectSize.toNat →
        ∀ (o₀ : Owner) (ls : List Doing) (u : Owner × List SendWr), o₀.Init → Run Owner.Logged (o₀, []) ls u →
          ∀ c n took, u.1.call = some ⟨c, n, took⟩ → c.request = some (r.gather segments imm) →
            ∀ w ∈ u.2, w.Within r.addr.toNat r.len.toNat := by
  intro h
  have hparse : RdmaWriteReq.parse "addr=0xfffffffffffffffc;rkey=0x7;len=8".toList =
      some ⟨0xfffffffffffffffc, 7, 8, none⟩ := by decide +kernel
  obtain ⟨o₀, ls, u, hinit, hrun, hgood⟩ := Owner.launch_logged tinyConfig
    (tinySetup.map .cmd ++ [.enter (.rdmaWriteGatherAll twoSegments 0xfffffffffffffffc 7 none), .act, .cmd .carry,
      .cmd (.reap ⟨writeWrId 0, 0, .rdmaWrite, 0, 0⟩), .act, .act, .cmd .carry,
      .cmd (.reap ⟨writeWrId 0, 0, .rdmaWrite, 0, 0⟩), .act])
    (fun u => u.1.ended (.rdmaWriteGatherAll twoSegments 0xfffffffffffffffc 7 none) true &&
      u.2.any fun w => decide (w = .write (writeWrId 0) [⟨8192, 4, 5⟩] 0 7 none)) (by decide +kernel)
  rw [Bool.and_eq_true, List.any_eq_true] at hgood
  obtain ⟨hend, w, hw, hzero⟩ := hgood
  obtain ⟨r, took, hcall, -⟩ := Owner.ended_call hend
  have htarget := h _ _ hparse 8 (by decide) twoSegments none rfl o₀ ls u hinit (hrun.mono fun _ _ _ hs => hs.1) _ _
    took hcall rfl w hw
  rw [of_decide_eq_true hzero] at htarget
  exact absurd htarget.1 (by decide)

end Hord
