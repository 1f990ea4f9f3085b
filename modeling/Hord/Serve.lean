import Hord.Gathers
import Hord.Header
import Hord.SourcePool

/- Serving a zero-copy response (`serve_rdma_write` of hord-zerocopy and of hord-async).
   `RdmaWriteAction::decide` settles what to do; a body is copied into a source buffer and
   written out of it, and the status is reported once the write returns `Ok`. `Ledger`
   keeps, beside an endpoint, a ticket for every request posted in the call its owner is in.
   A write that returns `Ok` leaves none of them unanswered or failed, and what they have
   placed at the client is the body (`serve_truthful`).

   Correspondence (Rust ↔ Lean):
     `serve_rdma_write` / `serve_rdma_write_pooled` ↔ `serveRdmaWrite` / `serveRdmaWritePooled`
     the same of `SharedAsyncStream`                ↔ the same of `SharedAsyncStream`
     `run_write_plan`                               ↔ `runWritePlan`
     `SharedAsyncStream::rdma_write(_with_imm)`     ↔ `SharedAsyncStream.rdmaWrite`
   `fill` maps the source as it is lent to the source as it leaves it. -/
namespace Hord

open Prog Transition Tickets

/-- What serving a request comes to: an answer at once, a source that cannot be had, or a
    write out of the filled source, with the status of one that returns `Ok`. -/
inductive ServePlan (W : Type) where
  | respond (status : RdmaWriteStatus)
  | refused (e : IoError)
  | write (src : RegisteredBuffer) (w : W) (status : RdmaWriteStatus)

/-- Fill the source, if there is anything to fill, and write out of it. -/
def runWritePlan {W : Type} (write : RegisteredBuffer → Nat → Nat → Nat → Nat → Option Nat → W)
    (src : RegisteredBuffer) (req : RdmaWriteReq) (payloadLen : Nat) (transferId : Option UInt32)
    (fill : RegisteredBuffer → RegisteredBuffer) : RegisteredBuffer × W :=
  let src := if 0 < payloadLen then fill src else src
  (src, write src 0 req.addr.toNat req.rkey.toNat payloadLen (transferId.map UInt32.toNat))

/-- What the four entry points share: `acquire` is where the source comes from, `write` the
    one-sided write. -/
def serveWith {W : Type} (write : RegisteredBuffer → Nat → Nat → Nat → Nat → Option Nat → W)
    (acquire : Nat → Except IoError RegisteredBuffer) (req : RdmaWriteReq) (objectSize : UInt64) (split : Bool)
    (fill : RegisteredBuffer → RegisteredBuffer) : ServePlan W :=
  match RdmaWriteAction.decide req objectSize split with
  | .respond status => .respond status
  | .write payloadLen sourceLen transferId =>
    match acquire sourceLen with
    | .error e => .refused e
    | .ok src =>
      let plan := runWritePlan write src req payloadLen transferId fill
      .write plan.1 plan.2 (.complete (UInt64.ofNat payloadLen))

/-- The buffer of a lease of the pool. -/
def PoolInner.lend (pool : PoolInner) (register : Nat → Except IoError RegisteredBuffer) (len : Nat) :
    Except IoError RegisteredBuffer :=
  (pool.acquire len register).1.map SourceLease.buf

def serveRdmaWrite (register : Nat → Except IoError RegisteredBuffer) :=
  serveWith Call.rdmaWriteAll register

def serveRdmaWritePooled (pool : PoolInner) (register : Nat → Except IoError RegisteredBuffer) :=
  serveWith Call.rdmaWriteAll (pool.lend register)

namespace SharedAsyncStream

def rdmaWrite (src : RegisteredBuffer) (srcOff peerAddr peerRkey len : Nat) (imm : Option Nat) :
    Except Fail GatherReq := do
  let seg ← WriteSegment.fromRegistered src srcOff len
  return ⟨[seg], peerAddr, peerRkey, imm⟩

def serveRdmaWrite (register : Nat → Except IoError RegisteredBuffer) :=
  serveWith rdmaWrite register

def serveRdmaWritePooled (pool : PoolInner) (register : Nat → Except IoError RegisteredBuffer) :=
  serveWith rdmaWrite (pool.lend register)

end SharedAsyncStream

/-- The transfer ID the last request carries. -/
def RdmaWriteReq.transferId (req : RdmaWriteReq) (split : Bool) : Option Nat :=
  (req.id.filter fun _ => split).map UInt32.toNat

section Plans
variable {W : Type} {write : RegisteredBuffer → Nat → Nat → Nat → Nat → Option Nat → W}
  {acquire : Nat → Except IoError RegisteredBuffer} {req : RdmaWriteReq} {objectSize : UInt64} {split : Bool}
  {fill : RegisteredBuffer → RegisteredBuffer}

/-- What serving can come to. -/
theorem serveWith_cases (write : RegisteredBuffer → Nat → Nat → Nat → Nat → Option Nat → W)
    (acquire : Nat → Except IoError RegisteredBuffer) (req : RdmaWriteReq) (objectSize : UInt64) (split : Bool)
    (fill : RegisteredBuffer → RegisteredBuffer) :
    (req.len < objectSize ∧ serveWith write acquire req objectSize split fill = .respond (.tooLarge objectSize)) ∨
    (¬req.len < objectSize ∧ req.transferId split = none ∧ objectSize = 0 ∧
      serveWith write acquire req objectSize split fill = .respond (.complete objectSize)) ∨
    ∃ sourceLen, ¬req.len < objectSize ∧ objectSize.toNat ≤ sourceLen ∧
      ((∃ e, acquire sourceLen = .error e ∧ serveWith write acquire req objectSize split fill = .refused e) ∨
      ∃ src, acquire sourceLen = .ok src ∧ serveWith write acquire req objectSize split fill =
        .write (if 0 < objectSize.toNat then fill src else src)
          (write (if 0 < objectSize.toNat then fill src else src) 0 req.addr.toNat req.rkey.toNat objectSize.toNat
            (req.transferId split)) (.complete objectSize)) := by
  rcases RdmaWriteAction.decide_cases req objectSize split with ⟨hlarge, h⟩ | ⟨hfits, hid, hzero, h⟩ |
    ⟨sourceLen, hfits, hle, -, h⟩
  · refine .inl ⟨hlarge, ?_⟩
    rw [serveWith, h]
  · refine .inr (.inl ⟨hfits, ?_, hzero, ?_⟩)
    · rw [RdmaWriteReq.transferId, hid]
      rfl
    · rw [serveWith, h]
  · refine .inr (.inr ⟨sourceLen, hfits, hle, ?_⟩)
    cases hsrc : acquire sourceLen with
    | error e =>
      refine .inl ⟨e, rfl, ?_⟩
      rw [serveWith, h]
      simp only [hsrc]
    | ok src =>
      refine .inr ⟨src, rfl, ?_⟩
      rw [serveWith, h]
      simp only [hsrc, runWritePlan, UInt64.ofNat_toNat, RdmaWriteReq.transferId]

/-- A response without a write is the policy's alone. -/
theorem serveWith_respond_iff {status : RdmaWriteStatus} : serveWith write acquire req objectSize split fill = .respond status ↔
    RdmaWriteAction.decide req objectSize split = .respond status := by
  rw [serveWith]
  cases RdmaWriteAction.decide req objectSize split with
  | respond status' => simp
  | write payloadLen sourceLen transferId =>
    cases hsrc : acquire sourceLen with
    | error e => simp [hsrc]
    | ok src => simp [hsrc]

end Plans

/-! What a response delivers. -/

/-- The byte of the source an entry of a request names. -/
def RegisteredBuffer.fetch (src : RegisteredBuffer) (b : Nat × Nat) : Option UInt8 :=
  if b.1 = src.lkey ∧ src.addr ≤ b.2 then src.storage[b.2 - src.addr]? else none

/-- What requests place at the client when the NIC reads the source: addresses and bytes. -/
def fetched (src : RegisteredBuffer) (ws : List SendWr) : List (Nat × Option UInt8) :=
  (ws.flatMap SendWr.placed).map fun b => (b.1, src.fetch b.2)

/-- A body from an address on. -/
def bodyAt (addr : Nat) (body : Bytes) : List (Nat × Option UInt8) :=
  body.zipIdx.map fun b => ((addr + b.2) % 2 ^ 64, some b.1)

/-- The first `n` bytes of a source arrive in order, and nothing else does. -/
theorem fetched_span {src : RegisteredBuffer} {ws : List SendWr} {n addr : Nat} (hn : n ≤ src.storage.length)
    (h : ws.flatMap SendWr.placed = placedFrom addr (spanBytes src.lkey src.addr n)) :
    fetched src ws = bodyAt addr (src.storage.take n) := by
  rw [fetched, h, placedFrom, bodyAt, List.map_map]
  apply List.ext_getElem
  · simp [spanBytes_length, hn]
  · intro i hi hi'
    have hlt : i < n := by simpa [spanBytes_length] using hi
    have hin : i < src.storage.length := Nat.lt_of_lt_of_le hlt hn
    have hbyte : src.fetch (src.lkey, src.addr + i) = some src.storage[i] := by
      rw [RegisteredBuffer.fetch, if_pos ⟨rfl, Nat.le_add_right ..⟩, Nat.add_sub_cancel_left]
      exact List.getElem?_eq_getElem _
    simp [spanBytes, hbyte]

/-! The ledger of a call. -/

/-- The audit of an endpoint, with how many tickets there were when its owner entered the
    call it is in, and the requests posted since. -/
structure Ledger where
  audit : Audit
  mark : Nat
  log : List SendWr

/-- The tickets of the requests the call has posted. -/
def Ledger.tickets (L : Ledger) : List (Ticket Nat Bytes Bool) := L.audit.sent.drop L.mark

def Ledger.blank : Ledger := ⟨.blank, 0, []⟩

def Ledger.note (L : Ledger) (s t : HordStream) (l : Doing) : Ledger where
  audit := L.audit.heed s t l
  mark := match l with
    | .enter _ => L.audit.sent.length
    | _ => L.mark
  log := logged L.log s t l

/-- A step of an owner's endpoint, with the ledger of its call. -/
def Owner.Kept (u : Owner × Ledger) (l : Doing) (v : Owner × Ledger) : Prop :=
  Owner.Step u.1 l v.1 ∧ v.2 = u.2.note u.1.stream v.1.stream l

/-- Every request of the call has its ticket, under the tag of what it is. -/
structure Ledger.Kept (L : Ledger) : Prop where
  mark : L.mark ≤ L.audit.sent.length
  names : L.tickets.map Ticket.name = (L.log.filter fun w => isPayloadId w.wrId).map SendWr.wrId
  tags : ∀ w ∈ L.log, isWrite w.wrId = w.oneSided

section Ledgers
variable {s t : HordStream} {L : Ledger}

theorem tickets_names (t : HordStream) (ws : List SendWr) :
    (ws.filterMap t.ticket).map Ticket.name = (ws.filter fun w => isPayloadId w.wrId).map SendWr.wrId := by
  induction ws with
  | nil => rfl
  | cons w ws ih =>
    cases hid : isPayloadId w.wrId with
    | true =>
      have hticket : t.ticket w = some ⟨w.wrId, (t.body w).getD [], none⟩ := by
        rw [HordStream.ticket, if_pos hid]
      rw [List.filterMap_cons_some hticket, List.filter_cons, hid, if_pos rfl, List.map_cons, List.map_cons, ih]
    | false =>
      have hticket : t.ticket w = none := by
        rw [HordStream.ticket, hid]
        rfl
      rw [List.filterMap_cons_none hticket, List.filter_cons, hid, if_neg Bool.false_ne_true, ih]

/-- A step of the call keeps the ledger. -/
theorem Ledger.Kept.act (h : L.Kept) (hwf : Wf t) (a : Act) (r : Except Fail Res) :
    (L.note s t (.move (.act a r))).Kept := by
  have hsent : (L.note s t (.move (.act a r))).audit.sent =
      settleAll L.audit.sent ((reaped s t).map fun wc => (wc.wrId, wc.isSuccess)) ++ (posted s t).filterMap t.ticket := rfl
  have hlen : (settleAll L.audit.sent ((reaped s t).map fun wc => (wc.wrId, wc.isSuccess))).length =
      L.audit.sent.length := by
    have hnames := congrArg List.length
      (settleAll_name ((reaped s t).map fun wc => (wc.wrId, wc.isSuccess)) L.audit.sent)
    rwa [List.length_map, List.length_map] at hnames
  refine ⟨?_, ?_, ?_⟩
  · show L.mark ≤ _
    rw [hsent, List.length_append, hlen]
    exact Nat.le_trans h.mark (Nat.le_add_right ..)
  · show ((L.note s t (.move (.act a r))).audit.sent.drop L.mark).map Ticket.name = _
    rw [hsent, List.drop_append_of_le_length (hlen ▸ h.mark), List.map_append, List.map_drop, settleAll_name,
      ← List.map_drop, tickets_names]
    show L.tickets.map Ticket.name ++ _ = ((L.log ++ posted s t).filter _).map _
    rw [h.names, List.filter_append, List.map_append]
  · intro w hw
    have hmem : w ∈ L.log ++ posted s t := hw
    rcases List.mem_append.mp hmem with hold | hnew
    · exact h.tags w hold
    · have hout : w ∈ t.conn.out := List.mem_of_mem_drop hnew
      exact (hwf.sq w (List.mem_append_left _ hout)).tags.1

theorem Owner.Kept.step {u v : Owner × Ledger} {l : Doing} (h : Owner.Kept u l v)
    (hu : Party.Balanced (u.1.party, u.2.audit) ∧ u.2.Kept) : Party.Balanced (v.1.party, v.2.audit) ∧ v.2.Kept := by
  obtain ⟨o, L⟩ := u
  obtain ⟨o', L'⟩ := v
  obtain ⟨hstep, hnote⟩ := h
  simp only at hstep hnote hu
  subst hnote
  have haudited : Owner.Audited (o, L.audit) l (o', L.audit.heed o.stream o'.stream l) := ⟨hstep, rfl⟩
  have hbal : Party.Balanced (o'.party, L.audit.heed o.stream o'.stream l) := haudited.balanced hu.1
  refine ⟨hbal, ?_⟩
  cases hstep with
  | enter c hup hidle =>
    refine ⟨Nat.le_refl _, ?_, fun w hw => absurd hw List.not_mem_nil⟩
    show (L.audit.sent.drop L.audit.sent.length).map Ticket.name = []
    rw [List.drop_length]
    rfl
  | leave c r took hc => exact hu.2
  | other m p hm hact =>
    cases m with
    | act a r => cases hact
    | _ => exact hu.2
  | act c j took r p hc hp =>
    obtain ⟨hup, rfl, rfl⟩ := hp.outcome
    exact hu.2.act ((hp.ok hu.1.1).inv hup).wf j.act _

/-- The ledger of a run, and where the write its owner is in stands. -/
theorem Owner.Kept.run {o₀ : Owner} {ls : List Doing} {u : Owner × Ledger} (hinit : o₀.Init)
    (hrun : Run Owner.Kept (o₀, .blank) ls u) :
    (Party.Balanced (u.1.party, u.2.audit) ∧ u.2.Kept) ∧ Owner.Sends False (u.1, u.2.log) := by
  constructor
  · refine hrun.inv (I := fun u => Party.Balanced (u.1.party, u.2.audit) ∧ u.2.Kept)
      (fun _ _ _ hu hs => Owner.Kept.step hs hu) ⟨⟨hinit.1.ok, ?_⟩, ?_⟩
    · rw [if_neg (by rw [hinit.1.1]; intro hup; cases hup)]
      rfl
    · exact ⟨Nat.le_refl _, rfl, fun w hw => absurd hw List.not_mem_nil⟩
  · refine hrun.inv (I := fun u => Owner.Sends False (u.1, u.2.log)) (fun u l v hu hs => ?_) ⟨hinit.1.ok, ?_⟩
    · have hlogged : Owner.Logged (u.1, u.2.log) l (v.1, v.2.log) := ⟨hs.1, congrArg Ledger.log hs.2⟩
      exact hu.step hlogged False.elim
    · intro c q n took hc
      rw [show o₀.call = none from hinit.2] at hc
      cases hc

/-- With no write outstanding, the ticket of every write is answered. -/
theorem Inv.unwritten_count (hi : Inv s) (hwrites : s.writesPending = false) {id : Nat} (hid : isWrite id = true) :
    s.conn.sqCount (· == id) = 0 := by
  have hle : s.conn.sqCount (· == id) ≤ s.conn.sqCount isWrite :=
    sqCount_mono fun v hv => by rw [beq_iff_eq.mp hv]; exact hid
  have hnone : s.writesOutstanding = 0 := by
    rw [HordStream.writesPending, decide_eq_false_iff_not] at hwrites
    omega
  have hcount := hi.books.writes.1
  omega

theorem writeWrs_oneSided (maxSge : Nat) (segments : List WriteSegment) (peerAddr peerRkey : Nat) (imm : Option Nat) :
    ∀ w ∈ writeWrs maxSge segments peerAddr peerRkey imm, w.oneSided = true := by
  have hplanned : ∀ (n idx : Nat) (ws : List Planned), ∀ w ∈ plannedWrs n peerAddr peerRkey imm idx ws,
      w.oneSided = true := by
    intro n idx ws
    induction ws generalizing idx with
    | nil => exact fun w hw => absurd hw List.not_mem_nil
    | cons v vs ih =>
      intro w hw
      rcases List.mem_cons.mp hw with rfl | hw
      · rfl
      · exact ih (idx + 1) w hw
  unfold writeWrs
  dsimp only
  split
  · split
    · intro w hw
      rw [List.mem_singleton.mp hw]
      rfl
    · exact fun w hw => absurd hw List.not_mem_nil
  · exact hplanned _ 0 _

/-- A gather write posts one-sided writes only. -/
theorem gatherWrs_oneSided (maxSge pool : Nat) (q : GatherReq) : ∀ w ∈ gatherWrs maxSge pool q, w.oneSided = true := by
  have hrest : ∀ (fuel : Nat) (segments : List WriteSegment) (base : Nat),
      ∀ w ∈ restWrs maxSge pool q fuel segments base, w.oneSided = true := by
    intro fuel
    induction fuel with
    | zero => exact fun segments base w hw => absurd hw List.not_mem_nil
    | succ fuel ih =>
      intro segments base w hw
      by_cases hne : segments = []
      · rw [hne, restWrs_nil] at hw
        cases hw
      · obtain ⟨n, bytes, -, -, heq⟩ := restWrs_batch maxSge pool q segments hne fuel base
        rw [heq] at hw
        rcases List.mem_append.mp hw with hw | hw
        · exact writeWrs_oneSided _ _ _ _ _ w hw
        · exact ih _ _ w hw
  rw [gatherWrs]
  split
  · exact writeWrs_oneSided _ _ _ _ _
  · exact hrest _ _ _

/-- Where no write is outstanding on an open stream, every write of the call has completed
    successfully. -/
theorem Ledger.Kept.completed (h : L.Kept) (hi : Inv s) (hbal : L.audit.Balanced s) (hopen : s.peerClosed = false)
    (hdone : s.writesPending = false) (hwrites : ∀ w ∈ L.log, w.oneSided = true) :
    L.tickets.map Ticket.name = L.log.map SendWr.wrId ∧ ∀ k ∈ L.tickets, k.answer = some true := by
  have hall : (L.log.filter fun w => isPayloadId w.wrId) = L.log := by
    refine List.filter_eq_self.mpr fun w hw => ?_
    rw [isPayloadId, h.tags w hw, hwrites w hw, Bool.or_true]
  have hnames : L.tickets.map Ticket.name = L.log.map SendWr.wrId := by rw [h.names, hall]
  refine ⟨hnames, fun k hk => ?_⟩
  have hmem : k ∈ L.audit.sent := List.mem_of_mem_drop hk
  have hid : isWrite k.name = true := by
    have hname : k.name ∈ L.log.map SendWr.wrId := hnames ▸ List.mem_map_of_mem hk
    obtain ⟨w, hw, heq⟩ := List.mem_map.mp hname
    rw [← heq, h.tags w hw, hwrites w hw]
  cases ha : k.answer with
  | none =>
    -- an unanswered ticket would be a write on the send queue
    have hpos : 0 < Tickets.pending k.name L.audit.sent :=
      List.countP_pos_iff.mpr ⟨k, hmem, by simp [ha]⟩
    rw [hbal.pending _ (by rw [isPayloadId, hid, Bool.or_true]), hi.unwritten_count hdone hid] at hpos
    exact absurd hpos (Nat.lt_irrefl 0)
  | some b =>
    cases b with
    | true => rfl
    | false => exact absurd ha (hbal.sound (hbal.whole hopen).1 k hmem)

end Ledgers

/-- The gather write of a source that is long enough. -/
theorem Call.request_rdmaWriteAll {src : RegisteredBuffer} {len : Nat} (h : len ≤ src.storage.length)
    (peerAddr peerRkey : Nat) (imm : Option Nat) : (Call.rdmaWriteAll src 0 peerAddr peerRkey len imm).request =
      some ⟨[⟨src.addr, src.lkey, len⟩], peerAddr, peerRkey, imm⟩ := by
  have hseg : WriteSegment.fromRegistered src 0 len = .ok ⟨src.addr, src.lkey, len⟩ := by
    rw [WriteSegment.fromRegistered, if_pos (by omega)]
    rfl
  simp only [Call.request, hseg]

/-- All requests of a write out of one source: its first `len` bytes arrive. -/
theorem gathered_fetched {src : RegisteredBuffer} {len : Nat} (h : len ≤ src.storage.length)
    (maxSge pool peerAddr peerRkey : Nat) (imm : Option Nat) :
    fetched src (gatherWrs maxSge pool ⟨[⟨src.addr, src.lkey, len⟩], peerAddr, peerRkey, imm⟩) =
      bodyAt peerAddr (src.storage.take len) := by
  refine fetched_span h ?_
  rw [gatherWrs_placed, List.flatMap_singleton]
  rfl

/-- A source is registered with as many bytes as it is asked for, and `fill` leaves their
    number alone. Then, whatever the device answers: a response without a write has needed
    neither source nor write; one with a write reports the object's size, which fits the
    client's buffer, and where the write has returned `Ok` its requests have all completed
    successfully, have placed the object's bytes in order from the client's address on and
    nothing else, the last of them with the transfer ID in split mode. Where one of them has
    failed the write returns an error. -/
theorem serve_truthful (req : RdmaWriteReq) (objectSize : UInt64) (split : Bool)
    (register : Nat → Except IoError RegisteredBuffer) (fill : RegisteredBuffer → RegisteredBuffer)
    (hregister : ∀ n src, register n = .ok src → src.storage.length = n)
    (hfill : ∀ src, (fill src).storage.length = src.storage.length) :
    (∀ status, serveRdmaWrite register req objectSize split fill = .respond status →
      (req.len < objectSize ∧ status = .tooLarge objectSize ∨
        objectSize ≤ req.len ∧ status = .complete objectSize ∧ objectSize = 0 ∧ req.transferId split = none) ∧
      ∀ register' fill', serveRdmaWrite register' req objectSize split fill' = .respond status) ∧
    ∀ src c status, serveRdmaWrite register req objectSize split fill = .write src c status →
      status = .complete objectSize ∧ objectSize ≤ req.len ∧ objectSize.toNat ≤ src.storage.length ∧
      (∃ n src₀, register n = .ok src₀ ∧ src = if 0 < objectSize.toNat then fill src₀ else src₀) ∧
      ∀ (o₀ : Owner) (ls : List Doing) (u : Owner × Ledger) (r : Except Fail Res) (took : Bool), o₀.Init →
        Run Owner.Kept (o₀, .blank) ls u → u.1.call = some ⟨c, .ret r, took⟩ →
          (∀ v, r = .ok v →
            u.2.tickets.map Ticket.name = u.2.log.map SendWr.wrId ∧ (∀ k ∈ u.2.tickets, k.answer = some true) ∧
            fetched src u.2.log = bodyAt req.addr.toNat (src.storage.take objectSize.toNat) ∧
            (∀ id, req.transferId split = some id →
              ∃ init last, u.2.log = init ++ [last] ∧ (∀ w ∈ init, w.imm = none) ∧ last.imm = some id) ∧
            (req.transferId split = none → ∀ w ∈ u.2.log, w.imm = none)) ∧
          ((∃ k ∈ u.2.tickets, k.answer = some false) → ∃ e, r = .error e) := by
  have hspec := serveWith_cases Call.rdmaWriteAll register req objectSize split fill
  constructor
  · intro status h
    refine ⟨?_, fun register' fill' => serveWith_respond_iff.mpr (serveWith_respond_iff.mp h)⟩
    rcases hspec with ⟨hlarge, heq⟩ | ⟨hfits, hid, hzero, heq⟩ | ⟨n, -, -, ⟨e, -, heq⟩ | ⟨src, -, heq⟩⟩
    · cases h.symm.trans heq
      exact .inl ⟨hlarge, rfl⟩
    · cases h.symm.trans heq
      exact .inr ⟨UInt64.not_lt.mp hfits, rfl, hzero, hid⟩
    · cases h.symm.trans heq
    · cases h.symm.trans heq
  · intro src c status h
    rcases hspec with ⟨-, heq⟩ | ⟨-, -, -, heq⟩ | ⟨n, hfits, hle, ⟨e, -, heq⟩ | ⟨src₀, hsrc, heq⟩⟩
    · cases h.symm.trans heq
    · cases h.symm.trans heq
    · cases h.symm.trans heq
    · have hlong : objectSize.toNat ≤ (if 0 < objectSize.toNat then fill src₀ else src₀).storage.length := by
        have hlen := hregister n src₀ hsrc
        split
        · rw [hfill, hlen]
          exact hle
        · rw [hlen]
          exact hle
      cases h.symm.trans heq
      refine ⟨rfl, UInt64.not_lt.mp hfits, hlong, ⟨n, src₀, hsrc, rfl⟩, ?_⟩
      generalize (if 0 < objectSize.toNat then fill src₀ else src₀) = src at hlong
      intro o₀ ls u r took hinit hrun hcall
      obtain ⟨⟨hbal, hkept⟩, hok, hsends⟩ := Owner.Kept.run hinit hrun
      obtain ⟨hup, hn⟩ := hsends _ _ _ took hcall
      have hinv : Inv u.1.stream := hok.inv hup
      have hbal' : u.2.audit.Balanced u.1.stream := by
        have hboth := hbal.2
        rwa [if_pos hup] at hboth
      have hnow := hn (Call.request_rdmaWriteAll hlong _ _ _)
      have hall : ∀ v, r = .ok v → u.2.log = u.1.stream.gathered
            ⟨[⟨src.addr, src.lkey, objectSize.toNat⟩], req.addr.toNat, req.rkey.toNat, req.transferId split⟩ ∧
          u.2.tickets.map Ticket.name = u.2.log.map SendWr.wrId ∧ ∀ k ∈ u.2.tickets, k.answer = some true := by
        rintro v rfl
        cases hnow with
        | ok v hlog hdone hopen =>
          have hlog' : u.2.log = u.1.stream.gathered _ := hlog
          refine ⟨hlog', hkept.completed hinv hbal' hopen hdone ?_⟩
          rw [hlog']
          exact gatherWrs_oneSided _ _ _
      constructor
      · intro v hv
        obtain ⟨hlog, hnames, hanswers⟩ := hall v hv
        refine ⟨hnames, hanswers, ?_, fun id hid => ?_, fun hid => ?_⟩
        · rw [hlog]
          exact gathered_fetched hlong _ _ _ _ _
        · rw [hlog]
          exact gatherWrs_last hid
        · rw [hlog]
          exact gatherWrs_none hid
      · rintro ⟨k, hk, hbad⟩
        cases r with
        | error e => exact ⟨e, rfl⟩
        | ok v =>
          have hgood := (hall v rfl).2.2 k hk
          rw [hbad] at hgood
          cases hgood

/-! Runs that can be computed. -/

def Owner.execKept (u : Owner × Ledger) (c : Play) : Option (Doing × (Owner × Ledger)) :=
  (u.1.exec c).map fun r => (r.1, (r.2, u.2.note u.1.stream r.2.stream r.1))

theorem Owner.execKept_step (u : Owner × Ledger) (c : Play) (l : Doing) (v : Owner × Ledger)
    (h : Owner.execKept u c = some (l, v)) : Owner.Kept u l v := by
  simp only [Owner.execKept, Option.map_eq_some_iff] at h
  obtain ⟨⟨l', o⟩, hexec, heq⟩ := h
  cases heq
  exact ⟨Owner.exec_step _ _ _ _ hexec, rfl⟩

/-- Zeroed memory at a fixed place. -/
def zeroed (n : Nat) : Except IoError RegisteredBuffer := .ok ⟨4096, 5, List.replicate n 0⟩

/-- Every byte a seven. -/
def sevens (src : RegisteredBuffer) : RegisteredBuffer := { src with storage := src.storage.map fun _ => 7 }

/-- An object of two bytes for a buffer of three at 1000: both are written. -/
theorem serve_truthful_two : ∃ src c status o₀ ls u,
    serveRdmaWrite zeroed ⟨1000, 9, 3, none⟩ 2 false sevens = .write src c status ∧ status = .complete 2 ∧
    Owner.Init o₀ ∧ Run Owner.Kept (o₀, .blank) ls u ∧ (∀ k ∈ u.2.tickets, k.answer = some true) ∧
    fetched src u.2.log = [(1000, some 7), (1001, some 7)] := by
  have hregister : ∀ n src, zeroed n = .ok src → src.storage.length = n := by
    intro n src h
    cases h
    exact List.length_replicate
  have hfill : ∀ src, (sevens src).storage.length = src.storage.length := fun src => List.length_map _
  have hplan : serveRdmaWrite zeroed ⟨1000, 9, 3, none⟩ 2 false sevens =
      .write ⟨4096, 5, [7, 7]⟩ (.rdmaWriteAll ⟨4096, 5, [7, 7]⟩ 0 1000 9 2 none) (.complete 2) := by rfl
  obtain ⟨p, ls, u, hinit, hrun, hgood⟩ := Party.play_run Owner.execKept_step (fun p => (⟨p, none⟩, .blank))
    (fun _ _ => true) tinyConfig
    (tinySetup.map .cmd ++ [.enter (.rdmaWriteAll ⟨4096, 5, [7, 7]⟩ 0 1000 9 2 none), .act, .cmd .carry,
      .cmd (.reap ⟨writeWrId 0, 0, .rdmaWrite, 0, 0⟩), .act])
    (fun _ u => u.1.ended (.rdmaWriteAll ⟨4096, 5, [7, 7]⟩ 0 1000 9 2 none) true) (by decide +kernel)
  obtain ⟨r, took, hcall, hok⟩ := Owner.ended_call hgood
  have hsteps : Run Owner.Kept (⟨p, none⟩, .blank) ls u := hrun.mono fun _ _ _ hs => hs.1
  obtain ⟨hstatus, -, -, -, hruns⟩ := (serve_truthful ⟨1000, 9, 3, none⟩ 2 false zeroed sevens hregister hfill).2 _ _ _ hplan
  cases r with
  | error e => cases hok
  | ok v =>
    obtain ⟨-, hanswers, hbytes, -⟩ := (hruns _ ls u _ took ⟨hinit, rfl⟩ hsteps hcall).1 v rfl
    exact ⟨_, _, _, _, ls, u, hplan, hstatus, ⟨hinit, rfl⟩, hsteps, hanswers, hbytes⟩

end Hord
