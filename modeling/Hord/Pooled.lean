import Hord.Serve

/- Pooled and unpooled serving (`serve_rdma_write_pooled` of hord-zerocopy and hord-async). A
   buffer out of the pool is as large as the slab and still holds the bytes of an earlier
   response; an unpooled one is as large as it is asked for. The write names the first
   `object_size` bytes of either, and `fill` has overwritten these. So whichever of the four
   entry points returns `Ok`, whatever the pool has been through, the client sees the same
   status, bytes and transfer ID (`pooled_serves_alike`). -/
namespace Hord

open Prog Transition

/-- What becomes of a pool and its leases: besides what `Pool.Step` says, the holder of a
    lease writes into its buffer. -/
inductive Pool.Life : Pool → Option PoolEvent → Pool → Prop
  | step (u : Pool) (l : PoolEvent) (v : Pool) (h : Pool.Step u l v) : Pool.Life u (some l) v
  | filled (u : Pool) (ls rs : List SourceLease) (lease : SourceLease) (storage : Bytes)
      (h : u.leases = ls ++ lease :: rs) (hlen : storage.length = lease.buf.storage.length) :
      Pool.Life u none { u with leases := ls ++ { lease with buf := { lease.buf with storage := storage } } :: rs }

section Lives
variable {u v : Pool} {capacity slab : Nat}

/-- Writing into a buffer changes neither its size nor its place. -/
theorem Pool.Sound.filled (h : u.Sound capacity slab) {ls rs : List SourceLease} {lease : SourceLease} {storage : Bytes}
    (hl : u.leases = ls ++ lease :: rs) (hlen : storage.length = lease.buf.storage.length) :
    (Pool.mk u.inner (ls ++ { lease with buf := { lease.buf with storage := storage } } :: rs)).Sound capacity slab := by
  have hcount := h.counted
  have hapart := h.apart
  have hsize := h.lent_size
  rw [Pool.lent, hl] at hcount
  rw [Pool.buffers, hl] at hapart
  rw [hl] at hsize
  refine ⟨h.config, ?_, h.bounded, h.free_size, ?_, ?_⟩
  · rw [Pool.lent, ← hcount, List.countP_append, List.countP_append, List.countP_cons, List.countP_cons]
  · intro l hmem hp
    rcases List.mem_append.mp hmem with hmem | hmem
    · exact hsize l (List.mem_append_left _ hmem) hp
    · rcases List.mem_cons.mp hmem with rfl | hmem
      · exact hlen.trans (hsize lease (List.mem_append_right _ (List.mem_cons_self ..)) hp)
      · exact hsize l (List.mem_append_right _ (List.mem_cons_of_mem _ hmem)) hp
  · rw [Pool.buffers]
    simp only [List.map_append, List.map_cons] at hapart ⊢
    exact hapart

theorem Pool.Life.sound {l : Option PoolEvent} (hs : Pool.Life u l v) (h : u.Sound capacity slab) : v.Sound capacity slab := by
  cases hs with
  | step l w hs => exact (hs.sound h).1
  | filled ls rs lease storage hl hlen => exact h.filled hl hlen

theorem Pool.life_sound {bufSize : Nat} {es : List (Option PoolEvent)}
    (h : Run Pool.Life (Pool.new capacity bufSize) es u) : u.Sound capacity (max bufSize 1) :=
  h.inv (fun _ _ _ hu hs => hs.sound hu) (Pool.new_sound capacity bufSize)

/-- What the pool lends is large enough, whatever it holds. -/
theorem Pool.Sound.lend_size (h : u.Sound capacity slab) {register : Nat → Except IoError RegisteredBuffer}
    (hregister : Registers u register) {n : Nat} {src : RegisteredBuffer} (hsrc : u.inner.lend register n = .ok src) :
    n ≤ src.storage.length := by
  rw [PoolInner.lend] at hsrc
  generalize hacq : u.inner.acquire n register = r at hsrc
  obtain ⟨r, p⟩ := r
  cases r with
  | error e => cases hsrc
  | ok lease =>
    cases hsrc
    exact (h.acquired hregister hacq).2.1

end Lives

/-- `fill` puts the body into the first bytes of the source, and leaves its size alone. -/
structure Fills (body : Bytes) (fill : RegisteredBuffer → RegisteredBuffer) : Prop where
  body : ∀ src, body.length ≤ src.storage.length → (fill src).storage.take body.length = body
  size : ∀ src, (fill src).storage.length = src.storage.length

/-- A response as its client sees it: the status, the bytes placed at its addresses, and the
    transfer IDs its data plane is signalled. -/
structure Delivery where
  status : RdmaWriteStatus
  bytes : List (Nat × Option UInt8)
  transfers : List Nat

/-- A blocking entry point has returned `Ok`, in some run of its stream. -/
inductive ServePlan.Returned : ServePlan Call → Delivery → Prop
  | respond (status : RdmaWriteStatus) : ServePlan.Returned (.respond status) ⟨status, [], []⟩
  | write (src : RegisteredBuffer) (c : Call) (status : RdmaWriteStatus) (o₀ : Owner) (ls : List Doing)
      (u : Owner × List SendWr) (v : Res) (took : Bool) (hinit : o₀.Init) (hrun : Run Owner.Logged (o₀, []) ls u)
      (hcall : u.1.call = some ⟨c, .ret (.ok v), took⟩) :
      ServePlan.Returned (.write src c status) ⟨status, fetched src u.2, u.2.filterMap SendWr.imm⟩

/-- An async one has resolved to `Ok`. -/
inductive ServePlan.Resolved : ServePlan (Except Fail GatherReq) → Delivery → Prop
  | respond (status : RdmaWriteStatus) : ServePlan.Resolved (.respond status) ⟨status, [], []⟩
  | write (src : RegisteredBuffer) (q : GatherReq) (status : RdmaWriteStatus) (config : HordConfig) (u₀ : Drive)
      (ls : List DriveEvent) (u : Drive × List SendWr) (hinit : u₀.Init config q.segments q.peerAddr q.peerRkey q.imm)
      (hrun : Run Drive.Logged (u₀, []) ls u) (hpc : u.1.pc = .resolved (.ok ())) :
      ServePlan.Resolved (.write src (.ok q) status) ⟨status, fetched src u.2, u.2.filterMap SendWr.imm⟩

/-- One of the four entry points has returned `Ok`, with a pool as it is then. -/
inductive Serves (pool : PoolInner) (register : Nat → Except IoError RegisteredBuffer) (req : RdmaWriteReq)
    (objectSize : UInt64) (split : Bool) (fill : RegisteredBuffer → RegisteredBuffer) (d : Delivery) : Prop
  | plain (h : (serveRdmaWrite register req objectSize split fill).Returned d)
  | pooled (h : (serveRdmaWritePooled pool register req objectSize split fill).Returned d)
  | async (h : (SharedAsyncStream.serveRdmaWrite register req objectSize split fill).Resolved d)
  | asyncPooled (h : (SharedAsyncStream.serveRdmaWritePooled pool register req objectSize split fill).Resolved d)

/-- The response the policy asks for. -/
def RdmaWriteReq.delivery (req : RdmaWriteReq) (objectSize : UInt64) (split : Bool) (body : Bytes) : Delivery :=
  if req.len < objectSize then ⟨.tooLarge objectSize, [], []⟩
  else ⟨.complete objectSize, bodyAt req.addr.toNat body, (req.transferId split).toList⟩

section Deliveries
variable {W : Type} {acquire : Nat → Except IoError RegisteredBuffer} {req : RdmaWriteReq} {objectSize : UInt64}
  {split : Bool} {fill : RegisteredBuffer → RegisteredBuffer} {body : Bytes}

/-- The transfer IDs the requests of a gather write signal. -/
theorem GatherReq.Delivers.transfers {q : GatherReq} {ws : List SendWr} (h : q.Delivers ws) :
    ws.filterMap SendWr.imm = q.imm.toList := by
  cases himm : q.imm with
  | none => exact List.filterMap_eq_nil_iff.mpr (h.plain himm)
  | some id =>
    obtain ⟨init, last, rfl, hinit, hlast⟩ := h.signalled id himm
    rw [List.filterMap_append, List.filterMap_eq_nil_iff.mpr hinit, List.filterMap_cons_some hlast]
    rfl

/-- What is served out of any source that is large enough. -/
theorem serveWith_sources (write : RegisteredBuffer → Nat → Nat → Nat → Nat → Option Nat → W) (req : RdmaWriteReq)
    (split : Bool) (hacquire : ∀ n src, acquire n = .ok src → n ≤ src.storage.length)
    (hbody : body.length = objectSize.toNat) (hfill : Fills body fill) :
    (∀ status, serveWith write acquire req objectSize split fill = .respond status →
      req.delivery objectSize split body = ⟨status, [], []⟩) ∧
    ∀ src w status, serveWith write acquire req objectSize split fill = .write src w status →
      ¬req.len < objectSize ∧ status = .complete objectSize ∧ body.length ≤ src.storage.length ∧
        src.storage.take body.length = body ∧
        w = write src 0 req.addr.toNat req.rkey.toNat body.length (req.transferId split) := by
  rcases serveWith_cases write acquire req objectSize split fill with ⟨hlarge, heq⟩ | ⟨hfits, hid, hzero, heq⟩ |
    ⟨n, hfits, hle, ⟨e, -, heq⟩ | ⟨src₀, hsrc, heq⟩⟩
  · refine ⟨fun status h => ?_, fun src w status h => ?_⟩
    · cases h.symm.trans heq
      rw [RdmaWriteReq.delivery, if_pos hlarge]
    · cases h.symm.trans heq
  · refine ⟨fun status h => ?_, fun src w status h => ?_⟩
    · cases h.symm.trans heq
      have hnil : body = [] := by
        rw [hzero] at hbody
        exact List.eq_nil_of_length_eq_zero hbody
      rw [RdmaWriteReq.delivery, if_neg hfits, hid, hnil]
      rfl
    · cases h.symm.trans heq
  · refine ⟨fun status h => ?_, fun src w status h => ?_⟩
    · cases h.symm.trans heq
    · cases h.symm.trans heq
  · have hroom : body.length ≤ src₀.storage.length := by
      have := hacquire n src₀ hsrc
      omega
    rw [← hbody] at heq
    refine ⟨fun status h => ?_, fun src w status h => ?_⟩
    · cases h.symm.trans heq
    · cases h.symm.trans heq
      refine ⟨hfits, rfl, ?_, ?_, rfl⟩
      · split
        · rw [hfill.size]
          exact hroom
        · exact hroom
      · split
        · exact hfill.body src₀ hroom
        · next hzero =>
          have hnil : body = [] := List.eq_nil_of_length_eq_zero (by omega)
          rw [hnil]
          rfl

/-- A whole write out of a filled source is the delivery asked for. -/
theorem delivery_of_source {src : RegisteredBuffer} (hfits : ¬req.len < objectSize)
    (hroom : body.length ≤ src.storage.length) (htake : src.storage.take body.length = body) (maxSge pool : Nat)
    {ws : List SendWr} (hws : ws = gatherWrs maxSge pool
      ⟨[⟨src.addr, src.lkey, body.length⟩], req.addr.toNat, req.rkey.toNat, req.transferId split⟩) :
    (⟨.complete objectSize, fetched src ws, ws.filterMap SendWr.imm⟩ : Delivery) = req.delivery objectSize split body := by
  rw [RdmaWriteReq.delivery, if_neg hfits, hws, gathered_fetched hroom, htake, (gatherWrs_delivers _ _ _).transfers]

theorem ServePlan.Returned.delivery {d : Delivery} (h : (serveWith Call.rdmaWriteAll acquire req objectSize split fill).Returned d)
    (hacquire : ∀ n src, acquire n = .ok src → n ≤ src.storage.length) (hbody : body.length = objectSize.toNat)
    (hfill : Fills body fill) : d = req.delivery objectSize split body := by
  obtain ⟨hrespond, hwrite⟩ := serveWith_sources Call.rdmaWriteAll req split hacquire hbody hfill
  generalize serveWith Call.rdmaWriteAll acquire req objectSize split fill = plan at h hrespond hwrite
  cases h with
  | respond status => exact (hrespond status rfl).symm
  | write src c status o₀ ls u v took hinit hrun hcall =>
    obtain ⟨hfits, rfl, hroom, htake, rfl⟩ := hwrite src c status rfl
    have hany : Run (fun u l v => Owner.Logged u l v ∧ (False → u.1.Calm l)) (o₀, []) ls u :=
      hrun.mono fun _ _ _ hs => ⟨hs, False.elim⟩
    have hn := ((Owner.Sends.run hinit hany).2 _ _ _ took hcall).2 (Call.request_rdmaWriteAll hroom _ _ _)
    cases hn with
    | ok v hlog hdone hopen => exact delivery_of_source hfits hroom htake _ _ hlog

theorem ServePlan.Resolved.delivery {d : Delivery}
    (h : (serveWith SharedAsyncStream.rdmaWrite acquire req objectSize split fill).Resolved d)
    (hacquire : ∀ n src, acquire n = .ok src → n ≤ src.storage.length) (hbody : body.length = objectSize.toNat)
    (hfill : Fills body fill) : d = req.delivery objectSize split body := by
  obtain ⟨hrespond, hwrite⟩ := serveWith_sources SharedAsyncStream.rdmaWrite req split hacquire hbody hfill
  generalize serveWith SharedAsyncStream.rdmaWrite acquire req objectSize split fill = plan at h hrespond hwrite
  cases h with
  | respond status => exact (hrespond status rfl).symm
  | write src q status config u₀ ls u hinit hrun hpc =>
    obtain ⟨hfits, rfl, hroom, htake, hq⟩ := hwrite src _ status rfl
    have hseg : WriteSegment.fromRegistered src 0 body.length = .ok ⟨src.addr, src.lkey, body.length⟩ := by
      rw [WriteSegment.fromRegistered, if_pos (by omega)]
      rfl
    rw [SharedAsyncStream.rdmaWrite, hseg] at hq
    cases hq
    have hany : Run (fun u l v => Drive.Logged u l v ∧ (False → u.1.Calm
        ⟨[⟨src.addr, src.lkey, body.length⟩], req.addr.toNat, req.rkey.toNat, req.transferId split⟩ l)) (u₀, []) ls u :=
      hrun.mono fun _ _ _ hs => ⟨hs, False.elim⟩
    have hu := (Drive.Sending.run hinit hany).2
    rw [Drive.Sends, hpc] at hu
    exact delivery_of_source hfits hroom htake _ _ hu

end Deliveries

/-- Whichever entry point has served the request, after whatever the pool has been through. -/
theorem Serves.delivery {pool : PoolInner} {register : Nat → Except IoError RegisteredBuffer} {req : RdmaWriteReq}
    {objectSize : UInt64} {split : Bool} {fill : RegisteredBuffer → RegisteredBuffer} {body : Bytes} {d : Delivery}
    (h : Serves pool register req objectSize split fill d)
    (hregister : ∀ n src, register n = .ok src → n ≤ src.storage.length)
    (hlend : ∀ n src, pool.lend register n = .ok src → n ≤ src.storage.length)
    (hbody : body.length = objectSize.toNat) (hfill : Fills body fill) : d = req.delivery objectSize split body := by
  cases h with
  | plain h => exact h.delivery hregister hbody hfill
  | pooled h => exact h.delivery hlend hbody hfill
  | async h => exact h.delivery hregister hbody hfill
  | asyncPooled h => exact h.delivery hlend hbody hfill

/-- Two responses to one request with one body, by any of the four entry points, each with a
    pool of any history: if both return `Ok`, they have the same status, have placed the same
    bytes at the same addresses and signalled the same transfer ID, those the request asks
    for. -/
theorem pooled_serves_alike {capacity bufSize capacity' bufSize' : Nat} {es es' : List (Option PoolEvent)} {u u' : Pool}
    (hu : Run Pool.Life (Pool.new capacity bufSize) es u) (hu' : Run Pool.Life (Pool.new capacity' bufSize') es' u')
    (register register' : Nat → Except IoError RegisteredBuffer) (hregister : Registers u register)
    (hregister' : Registers u' register') (req : RdmaWriteReq) (objectSize : UInt64) (split : Bool) (body : Bytes)
    (hbody : body.length = objectSize.toNat) (fill fill' : RegisteredBuffer → RegisteredBuffer) (hfill : Fills body fill)
    (hfill' : Fills body fill') (d d' : Delivery) (h : Serves u.inner register req objectSize split fill d)
    (h' : Serves u'.inner register' req objectSize split fill' d') :
    d = d' ∧ d = req.delivery objectSize split body := by
  have hd : d = req.delivery objectSize split body :=
    h.delivery (fun n src hsrc => (hregister.size n src hsrc).ge)
      (fun n src hsrc => (Pool.life_sound hu).lend_size hregister hsrc) hbody hfill
  have hd' : d' = req.delivery objectSize split body :=
    h'.delivery (fun n src hsrc => (hregister'.size n src hsrc).ge)
      (fun n src hsrc => (Pool.life_sound hu').lend_size hregister' hsrc) hbody hfill'
  exact ⟨hd.trans hd'.symm, hd⟩

/-- Copy a body to the front of a source that can hold it. -/
def copyFront (body : Bytes) (src : RegisteredBuffer) : RegisteredBuffer :=
  if body.length ≤ src.storage.length then { src with storage := body ++ src.storage.drop body.length } else src

theorem copyFront_fills (body : Bytes) : Fills body (copyFront body) where
  body src h := by
    rw [copyFront, if_pos h]
    exact List.take_left
  size src := by
    rw [copyFront]
    split
    · next h =>
      rw [List.length_append, List.length_drop]
      omega
    · rfl

/-- Memory apart from what the pool holds. -/
def elsewhere (n : Nat) : Except IoError RegisteredBuffer := .ok ⟨8192, 6, List.replicate n 0⟩

/-- A slab of three bytes that an earlier response has filled with nines, and new memory:
    the body of two bytes arrives alike. -/
theorem pooled_serves_alike_nines : ∃ es u d d', Run Pool.Life (Pool.new 1 3) es u ∧
    u.inner.free = [⟨4096, 5, [9, 9, 9]⟩] ∧
    (serveRdmaWritePooled u.inner elsewhere ⟨1000, 9, 3, none⟩ 2 false (copyFront [7, 8])).Returned d ∧
    (serveRdmaWrite elsewhere ⟨1000, 9, 3, none⟩ 2 false (copyFront [7, 8])).Returned d' ∧ d = d' ∧
    d.bytes = [(1000, some 7), (1001, some 8)] := by
  have hreg : Registers (Pool.new 1 3) zeroed := by
    refine ⟨fun n buf h => ?_, fun n buf h => List.not_mem_nil⟩
    cases h
    exact List.length_replicate
  let lent : Pool := ⟨⟨3, 1, [], 1, 0⟩, [⟨⟨4096, 5, [0, 0, 0]⟩, true⟩]⟩
  let used : Pool := ⟨⟨3, 1, [], 1, 0⟩, [⟨⟨4096, 5, [9, 9, 9]⟩, true⟩]⟩
  let idle : Pool := ⟨⟨3, 1, [⟨4096, 5, [9, 9, 9]⟩], 1, 0⟩, []⟩
  have hacquire : Pool.Life (Pool.new 1 3) (some (.acquired 2 ⟨⟨4096, 5, [0, 0, 0]⟩, true⟩)) lent :=
    .step _ _ _ (.acquire _ 2 zeroed _ _ hreg rfl)
  have hfilled : Pool.Life lent none used := .filled lent [] [] ⟨⟨4096, 5, [0, 0, 0]⟩, true⟩ [9, 9, 9] rfl rfl
  have hdropped : Pool.Life used (some (.dropped ⟨⟨4096, 5, [9, 9, 9]⟩, true⟩)) idle :=
    .step _ _ _ (.drop used [] [] ⟨⟨4096, 5, [9, 9, 9]⟩, true⟩ rfl)
  have hidle := ((Run.single hacquire).snoc hfilled).snoc hdropped
  have helse : Registers idle elsewhere := by
    refine ⟨fun n buf h => ?_, fun n buf h => ?_⟩
    · cases h
      exact List.length_replicate
    · cases h
      show (8192 : Nat) ∉ [4096]
      decide
  -- a write of two bytes out of either source
  have returned : ∀ src : RegisteredBuffer, src = ⟨4096, 5, [7, 8, 9]⟩ ∨ src = ⟨8192, 6, [7, 8]⟩ →
      ∃ d, ServePlan.Returned (.write src (.rdmaWriteAll src 0 1000 9 2 none) (.complete 2)) d := by
    intro src hsrc
    have hscript : ∃ o₀ ls u, Owner.Init o₀ ∧ Run (fun u l v => Owner.Logged u l v ∧ u.1.Calm l) (o₀, []) ls u ∧
        u.1.ended (.rdmaWriteAll src 0 1000 9 2 none) true = true := by
      rcases hsrc with rfl | rfl
      · exact Owner.launch_logged tinyConfig
          (tinySetup.map .cmd ++ [.enter (.rdmaWriteAll ⟨4096, 5, [7, 8, 9]⟩ 0 1000 9 2 none), .act, .cmd .carry,
            .cmd (.reap ⟨writeWrId 0, 0, .rdmaWrite, 0, 0⟩), .act])
          (fun u => u.1.ended (.rdmaWriteAll ⟨4096, 5, [7, 8, 9]⟩ 0 1000 9 2 none) true) (by decide +kernel)
      · exact Owner.launch_logged tinyConfig
          (tinySetup.map .cmd ++ [.enter (.rdmaWriteAll ⟨8192, 6, [7, 8]⟩ 0 1000 9 2 none), .act, .cmd .carry,
            .cmd (.reap ⟨writeWrId 0, 0, .rdmaWrite, 0, 0⟩), .act])
          (fun u => u.1.ended (.rdmaWriteAll ⟨8192, 6, [7, 8]⟩ 0 1000 9 2 none) true) (by decide +kernel)
    obtain ⟨o₀, ls, u, hinit, hrun, hgood⟩ := hscript
    obtain ⟨r, took, hcall, hok⟩ := Owner.ended_call hgood
    cases r with
    | error e => cases hok
    | ok v => exact ⟨_, .write _ _ _ o₀ ls u v took hinit (hrun.mono fun _ _ _ hs => hs.1) hcall⟩
  obtain ⟨d, hd⟩ := returned _ (.inl rfl)
  obtain ⟨d', hd'⟩ := returned _ (.inr rfl)
  have hpooled : (serveRdmaWritePooled idle.inner elsewhere ⟨1000, 9, 3, none⟩ 2 false (copyFront [7, 8])).Returned d := hd
  have hplain : (serveRdmaWrite elsewhere ⟨1000, 9, 3, none⟩ 2 false (copyFront [7, 8])).Returned d' := hd'
  obtain ⟨heq, hbytes⟩ := pooled_serves_alike hidle hidle elsewhere elsewhere helse helse ⟨1000, 9, 3, none⟩ 2 false [7, 8]
    rfl _ _ (copyFront_fills _) (copyFront_fills _) d d' (.pooled hpooled) (.plain hplain)
  refine ⟨_, idle, d, d', hidle, rfl, hpooled, hplain, heq, ?_⟩
  rw [hbytes]
  rfl

end Hord
