import Mathlib.Data.List.Nodup
import Hord.OneSided
import Hord.Lib.Run

/- The pool of registered source buffers (`SourcePool` of hord-zerocopy). A response
   borrows a buffer, writes out of it, and gives it back when its lease is dropped; a
   payload that does not fit the slab, or finds every pooled buffer lent, gets a buffer
   of its own. While a lease lives the NIC may read its buffer, so no buffer may be lent
   twice (`source_pool_sound`).

   Correspondence (Rust ↔ Lean):
     `SourcePool::new` / `acquire`  ↔ `PoolInner.new` / `PoolInner.acquire`
     `SourceLease { buf, pool }`    ↔ `SourceLease`, `pooled` when `pool` is `Some`
     `SourceLease::drop`            ↔ `PoolInner.giveBack`
     clones of one pool             ↔ the one `PoolInner` they share
   `register` is the owner's `register_source`: it fails, or allocates as many bytes as it
   is asked for (`Registers`). A buffer is named by its address, which no other live
   buffer has. `free` is listed from the end `pop` and `push` work on. -/
namespace Hord

open Transition

structure PoolInner where
  bufSize : Nat
  capacity : Nat
  free : List RegisteredBuffer
  registered : Nat
  fallbacks : Nat
  deriving DecidableEq, Repr

structure SourceLease where
  buf : RegisteredBuffer
  pooled : Bool
  deriving DecidableEq, Repr

namespace PoolInner

/-- A zero-length MR is not portable, so the slab has at least one byte. -/
def new (capacity bufSize : Nat) : PoolInner where
  bufSize := max bufSize 1
  capacity := capacity
  free := []
  registered := 0
  fallbacks := 0

/-- The fast path: a free pooled buffer, if the request fits the slab. -/
def popFree (p : PoolInner) (len : Nat) : Option (RegisteredBuffer × PoolInner) :=
  if len ≤ p.bufSize then
    match p.free with
    | [] => none
    | buf :: rest => some (buf, { p with free := rest })
  else none

/-- Whether a request that found no free buffer may add one to the pool. -/
def grow (p : PoolInner) (len : Nat) : Bool := decide (len ≤ p.bufSize) && decide (p.registered < p.capacity)

def acquire (p : PoolInner) (len : Nat) (register : Nat → Except IoError RegisteredBuffer) :
    Except IoError SourceLease × PoolInner :=
  match p.popFree len with
  | some (buf, p) => (.ok ⟨buf, true⟩, p)
  | none =>
    if p.grow len then
      match register p.bufSize with
      | .error e => (.error e, p)
      | .ok buf => (.ok ⟨buf, true⟩, { p with registered := p.registered + 1 })
    else
      match register (max len 1) with
      | .error e => (.error e, p)
      | .ok buf => (.ok ⟨buf, false⟩, { p with fallbacks := p.fallbacks + 1 })

/-- A lease is dropped: a pooled buffer returns, any other is deregistered. -/
def giveBack (p : PoolInner) (lease : SourceLease) : PoolInner :=
  if lease.pooled then { p with free := lease.buf :: p.free } else p

end PoolInner

/-- A pool and the leases that are alive. -/
structure Pool where
  inner : PoolInner
  leases : List SourceLease
  deriving DecidableEq, Repr

namespace Pool

def new (capacity bufSize : Nat) : Pool := ⟨PoolInner.new capacity bufSize, []⟩

/-- The pooled buffers that are lent out. -/
def lent (u : Pool) : Nat := u.leases.countP (·.pooled)

/-- Every buffer that is registered: free, lent, or a lease's own. -/
def buffers (u : Pool) : List RegisteredBuffer := u.inner.free ++ u.leases.map (·.buf)

end Pool

/-- `register` allocates what it is asked for, apart from everything in use. -/
structure Registers (u : Pool) (register : Nat → Except IoError RegisteredBuffer) : Prop where
  size : ∀ n buf, register n = .ok buf → buf.storage.length = n
  fresh : ∀ n buf, register n = .ok buf → buf.addr ∉ u.buffers.map (·.addr)

inductive PoolEvent where
  | acquired (len : Nat) (lease : SourceLease)
  | refused (len : Nat)
  | dropped (lease : SourceLease)

/-- A lease handed out on a buffer of its own. -/
def PoolEvent.oneOff : PoolEvent → Bool
  | .acquired _ lease => !lease.pooled
  | _ => false

inductive Pool.Step : Pool → PoolEvent → Pool → Prop
  | acquire (u : Pool) (len : Nat) (register : Nat → Except IoError RegisteredBuffer)
      (lease : SourceLease) (p : PoolInner) (hreg : Registers u register)
      (h : u.inner.acquire len register = (.ok lease, p)) :
      Pool.Step u (.acquired len lease) ⟨p, lease :: u.leases⟩
  | refuse (u : Pool) (len : Nat) (register : Nat → Except IoError RegisteredBuffer) (e : IoError)
      (p : PoolInner) (hreg : Registers u register) (h : u.inner.acquire len register = (.error e, p)) :
      Pool.Step u (.refused len) { u with inner := p }
  | drop (u : Pool) (ls rs : List SourceLease) (lease : SourceLease) (h : u.leases = ls ++ lease :: rs) :
      Pool.Step u (.dropped lease) ⟨u.inner.giveBack lease, ls ++ rs⟩

/-- What a request can come to. -/
theorem PoolInner.acquire_cases {p q : PoolInner} {len : Nat} {r : Except IoError SourceLease}
    {register : Nat → Except IoError RegisteredBuffer} (h : p.acquire len register = (r, q)) :
    (∃ buf rest, len ≤ p.bufSize ∧ p.free = buf :: rest ∧ r = .ok ⟨buf, true⟩ ∧ q = { p with free := rest }) ∨
    (∃ buf, len ≤ p.bufSize ∧ p.free = [] ∧ p.registered < p.capacity ∧ register p.bufSize = .ok buf ∧
      r = .ok ⟨buf, true⟩ ∧ q = { p with registered := p.registered + 1 }) ∨
    (∃ buf, (p.bufSize < len ∨ p.free = [] ∧ p.capacity ≤ p.registered) ∧ register (max len 1) = .ok buf ∧
      r = .ok ⟨buf, false⟩ ∧ q = { p with fallbacks := p.fallbacks + 1 }) ∨
    (∃ e, r = .error e) ∧ q = p := by
  simp only [acquire] at h
  split at h
  · next buf p' hpop =>
    simp only [popFree] at hpop
    split at hpop
    · next hfits =>
      split at hpop
      · cases hpop
      · next b rest hfree =>
        cases hpop
        cases h
        exact .inl ⟨buf, rest, hfits, hfree, rfl, rfl⟩
    · cases hpop
  · next hpop =>
    -- nothing free for it: too large for the slab, or every pooled buffer is lent
    have hnone : p.bufSize < len ∨ p.free = [] := by
      simp only [popFree] at hpop
      split at hpop
      · split at hpop
        · next hfree => exact .inr hfree
        · cases hpop
      · next hlarge => exact .inl (by omega)
    split at h
    · next hgrow =>
      simp only [grow, Bool.and_eq_true, decide_eq_true_eq] at hgrow
      split at h
      · next e he =>
        cases h
        exact .inr (.inr (.inr ⟨⟨e, rfl⟩, rfl⟩))
      · next buf hbuf =>
        cases h
        exact .inr (.inl ⟨buf, hgrow.1, hnone.resolve_left (by omega), hgrow.2, hbuf, rfl, rfl⟩)
    · next hfull =>
      simp only [grow, Bool.and_eq_true, decide_eq_true_eq] at hfull
      split at h
      · next e he =>
        cases h
        exact .inr (.inr (.inr ⟨⟨e, rfl⟩, rfl⟩))
      · next buf hbuf =>
        cases h
        refine .inr (.inr (.inl ⟨buf, ?_, hbuf, rfl, rfl⟩))
        rcases hnone with hlarge | hfree
        · exact .inl hlarge
        · by_cases hlen : len ≤ p.bufSize
          · exact .inr ⟨hfree, by omega⟩
          · exact .inl (by omega)

namespace Pool
variable {u v : Pool} {l : PoolEvent}

/-- What holds of a pool of buffers of `slab` bytes, `capacity` of them at most. -/
structure Sound (capacity slab : Nat) (u : Pool) : Prop where
  config : u.inner.capacity = capacity ∧ u.inner.bufSize = slab
  counted : u.inner.free.length + u.lent = u.inner.registered
  bounded : u.inner.registered ≤ capacity
  free_size : ∀ buf ∈ u.inner.free, buf.storage.length = slab
  lent_size : ∀ lease ∈ u.leases, lease.pooled = true → lease.buf.storage.length = slab
  apart : (u.buffers.map (·.addr)).Nodup

theorem new_sound (capacity bufSize : Nat) : (new capacity bufSize).Sound capacity (max bufSize 1) where
  config := ⟨rfl, rfl⟩
  counted := rfl
  bounded := Nat.zero_le _
  free_size := nofun
  lent_size := nofun
  apart := List.nodup_nil

section Steps
variable {capacity slab : Nat}

/-- A lease on a newly registered buffer. -/
theorem Sound.apart_cons (h : u.Sound capacity slab) {buf : RegisteredBuffer} {pooled : Bool} {p : PoolInner}
    (hfree : p.free = u.inner.free) (hfresh : buf.addr ∉ u.buffers.map (·.addr)) :
    ((Pool.mk p (⟨buf, pooled⟩ :: u.leases)).buffers.map (·.addr)).Nodup := by
  simp only [buffers, hfree, List.map_append, List.map_cons]
  rw [List.nodup_middle]
  refine List.nodup_cons.mpr ⟨?_, ?_⟩
  · simpa [buffers] using hfresh
  · simpa [buffers] using h.apart

theorem lent_cons (p : PoolInner) (lease : SourceLease) (leases : List SourceLease) :
    (Pool.mk p (lease :: leases)).lent = leases.countP (·.pooled) + lease.pooled.toNat := by
  simp only [lent, List.countP_cons]
  cases lease.pooled <;> rfl

/-- What a granted request leaves, and the lease it gets. -/
theorem Sound.acquired (h : u.Sound capacity slab) {len : Nat} {lease : SourceLease} {p : PoolInner}
    {register : Nat → Except IoError RegisteredBuffer} (hreg : Registers u register)
    (hacq : u.inner.acquire len register = (.ok lease, p)) :
    (Pool.mk p (lease :: u.leases)).Sound capacity slab ∧ len ≤ lease.buf.storage.length ∧
      (lease.pooled = false → slab < len ∨ u.lent = capacity) ∧
      p.fallbacks = u.inner.fallbacks + (!lease.pooled).toNat := by
  obtain ⟨hcap, hslab⟩ := h.config
  have hcount := h.counted
  have hbound := h.bounded
  rcases PoolInner.acquire_cases hacq with ⟨buf, rest, hfits, hfree, hr, rfl⟩ |
    ⟨buf, hfits, hfree, hbelow, hbuf, hr, rfl⟩ | ⟨buf, hwhy, hbuf, hr, rfl⟩ | ⟨⟨e, hr⟩, -⟩
  · -- a free buffer changes hands: the buffers in use are the same
    cases hr
    have hsize : buf.storage.length = slab := h.free_size buf (by simp [hfree])
    have hroom : len ≤ buf.storage.length := by omega
    refine ⟨⟨h.config, ?_, hbound, ?_, ?_, ?_⟩, hroom, nofun, rfl⟩
    · rw [lent_cons]
      simp only [lent, hfree, List.length_cons] at hcount
      simp only [Bool.toNat_true]
      omega
    · exact fun b hb => h.free_size b (by simp [hfree, hb])
    · intro l hl hp
      rcases List.mem_cons.mp hl with rfl | hl
      · exact hsize
      · exact h.lent_size l hl hp
    · have hapart := h.apart
      simp only [buffers, hfree, List.map_append, List.map_cons, List.cons_append] at hapart ⊢
      exact List.nodup_middle.mpr hapart
  · -- the pool grows by the new buffer, which is lent at once
    cases hr
    have hsize : buf.storage.length = slab := (hreg.size _ _ hbuf).trans hslab
    have hroom : len ≤ buf.storage.length := by omega
    refine ⟨⟨h.config, ?_, ?_, h.free_size, ?_, h.apart_cons rfl (hreg.fresh _ _ hbuf)⟩, hroom, nofun, rfl⟩
    · rw [lent_cons]
      simp only [lent] at hcount
      simp only [Bool.toNat_true]
      omega
    · show u.inner.registered + 1 ≤ capacity
      omega
    · intro l hl hp
      rcases List.mem_cons.mp hl with rfl | hl
      · exact hsize
      · exact h.lent_size l hl hp
  · -- a buffer of the lease's own
    cases hr
    have hroom : len ≤ buf.storage.length := by
      rw [hreg.size _ _ hbuf]
      exact Nat.le_max_left ..
    refine ⟨⟨h.config, ?_, hbound, h.free_size, ?_, h.apart_cons rfl (hreg.fresh _ _ hbuf)⟩, hroom, fun _ => ?_,
      rfl⟩
    · rw [lent_cons]
      simp only [lent] at hcount
      simp only [Bool.toNat_false]
      omega
    · intro l hl hp
      rcases List.mem_cons.mp hl with rfl | hl
      · cases hp
      · exact h.lent_size l hl hp
    · rcases hwhy with hlarge | ⟨hfree, hfull⟩
      · exact .inl (by omega)
      · simp only [hfree, List.length_nil] at hcount
        exact .inr (by omega)
  · cases hr

theorem Sound.dropped (h : u.Sound capacity slab) {ls rs : List SourceLease} {lease : SourceLease}
    (hl : u.leases = ls ++ lease :: rs) : (Pool.mk (u.inner.giveBack lease) (ls ++ rs)).Sound capacity slab := by
  have hmem : ∀ l, l ∈ ls ++ rs → l ∈ u.leases := by
    intro l hm
    rw [hl]
    simp only [List.mem_append, List.mem_cons] at hm ⊢
    exact hm.imp_right .inr
  have hapart := h.apart
  have hcount := h.counted
  simp only [buffers, lent, hl, List.map_append, List.map_cons, List.countP_append, List.countP_cons]
    at hapart hcount
  unfold PoolInner.giveBack
  cases hp : lease.pooled with
  | true =>
    -- the buffer moves from the leases to the free list
    simp only [hp, if_true] at hcount ⊢
    refine ⟨h.config, ?_, h.bounded, ?_, fun l hm => h.lent_size l (hmem l hm), ?_⟩
    · simp only [lent, List.countP_append, List.length_cons]
      omega
    · intro b hb
      rcases List.mem_cons.mp hb with rfl | hb
      · exact h.lent_size lease (by rw [hl]; simp) hp
      · exact h.free_size b hb
    · simp only [buffers, List.map_append, List.map_cons, List.cons_append]
      rw [← List.append_assoc] at hapart
      simpa [List.append_assoc] using List.nodup_middle.mp hapart
  | false =>
    simp only [hp, Bool.false_eq_true, if_false] at hcount ⊢
    refine ⟨h.config, ?_, h.bounded, h.free_size, fun l hm => h.lent_size l (hmem l hm), ?_⟩
    · simp only [lent, List.countP_append]
      omega
    · rw [← List.append_assoc] at hapart
      have := (List.nodup_cons.mp (List.nodup_middle.mp hapart)).2
      simpa [buffers, List.append_assoc] using this

/-- A request that cannot be registered leaves the pool as it was. -/
theorem acquire_refused {len : Nat} {e : IoError} {p : PoolInner}
    {register : Nat → Except IoError RegisteredBuffer} (h : u.inner.acquire len register = (.error e, p)) :
    p = u.inner := by
  rcases PoolInner.acquire_cases h with ⟨_, _, _, _, hr, _⟩ | ⟨_, _, _, _, _, hr, _⟩ | ⟨_, _, _, hr, _⟩ | ⟨-, hp⟩
  · cases hr
  · cases hr
  · cases hr
  · exact hp

theorem Step.sound (hs : Step u l v) (h : u.Sound capacity slab) :
    v.Sound capacity slab ∧ v.inner.fallbacks = u.inner.fallbacks + l.oneOff.toNat := by
  cases hs with
  | acquire len register lease p hreg hacq =>
    obtain ⟨hv, -, -, hf⟩ := h.acquired hreg hacq
    exact ⟨hv, hf⟩
  | refuse len register e p hreg hacq =>
    obtain rfl := acquire_refused hacq
    exact ⟨h, rfl⟩
  | drop ls rs lease hl =>
    refine ⟨h.dropped hl, ?_⟩
    show (u.inner.giveBack lease).fallbacks = _
    unfold PoolInner.giveBack
    split <;> rfl

theorem Sound.run {bufSize : Nat} {ls : List PoolEvent} (hrun : Run Step (new capacity bufSize) ls u) :
    u.Sound capacity (max bufSize 1) ∧ u.inner.fallbacks = ls.countP PoolEvent.oneOff := by
  refine hrun.inv_trace (I := fun ls u => u.Sound capacity (max bufSize 1) ∧
    u.inner.fallbacks = ls.countP PoolEvent.oneOff) (fun ls u l v hi hs => ?_) ⟨new_sound capacity bufSize, rfl⟩
  obtain ⟨hv, hf⟩ := hs.sound hi.1
  refine ⟨hv, ?_⟩
  calc v.inner.fallbacks = u.inner.fallbacks + l.oneOff.toNat := hf
    _ = ls.countP PoolEvent.oneOff + l.oneOff.toNat := by rw [hi.2]
    _ = (ls ++ [l]).countP PoolEvent.oneOff := by
      rw [List.countP_append, List.countP_singleton]
      cases l.oneOff <;> rfl

end Steps
end Pool

/-- After any sequence of requests and drops: the free and the lent buffers are those the
    pool has registered, at most `capacity` and each of the slab size; no buffer is in two
    places; `fallbacks` counts the leases on buffers of their own. And of the next request:
    its lease has room for it, it gets a buffer of its own only if it is too large for the
    slab or every pooled buffer is lent, and if it fails the pool is unchanged. -/
theorem source_pool_sound {capacity bufSize : Nat} {ls : List PoolEvent} {u : Pool}
    (hrun : Run Pool.Step (Pool.new capacity bufSize) ls u) :
    u.inner.free.length + u.lent = u.inner.registered ∧ u.inner.registered ≤ capacity ∧
    (∀ buf ∈ u.inner.free, buf.storage.length = max bufSize 1) ∧
    (∀ lease ∈ u.leases, lease.pooled = true → lease.buf.storage.length = max bufSize 1) ∧
    (u.buffers.map (·.addr)).Nodup ∧
    u.inner.fallbacks = ls.countP PoolEvent.oneOff ∧
    ∀ l v, Pool.Step u l v → match l with
      | .acquired len lease => len ≤ lease.buf.storage.length ∧
          (lease.pooled = false → max bufSize 1 < len ∨ u.lent = capacity)
      | .refused _ => v = u
      | .dropped lease => lease ∈ u.leases := by
  obtain ⟨h, hf⟩ := Pool.Sound.run hrun
  refine ⟨h.counted, h.bounded, h.free_size, h.lent_size, h.apart, hf, fun l v hs => ?_⟩
  cases hs with
  | acquire len register lease p hreg hacq =>
    obtain ⟨-, hroom, hwhy, -⟩ := h.acquired hreg hacq
    exact ⟨hroom, hwhy⟩
  | refuse len register e p hreg hacq =>
    obtain rfl := Pool.acquire_refused hacq
    rfl
  | drop ls rs lease hl =>
    rw [hl]
    exact List.mem_append_right _ (List.mem_cons_self ..)

/-- Zeroed memory at `addr`, as much as it takes. -/
def registerAt (addr : Nat) (n : Nat) : Except IoError RegisteredBuffer := .ok ⟨addr, 7, List.replicate n 0⟩

theorem registerAt_registers {u : Pool} {addr : Nat} (h : addr ∉ u.buffers.map (·.addr)) :
    Registers u (registerAt addr) where
  size n buf hb := by
    cases hb
    exact List.length_replicate
  fresh n buf hb := by
    cases hb
    exact h

/-- One buffer of four bytes: the first response has it, the second gets its own, and the
    first gives it back. -/
theorem source_pool_sound_two : ∃ ls u, Run Pool.Step (Pool.new 1 4) ls u ∧ u.inner.fallbacks = 1 ∧
    u.inner.free.length = 1 ∧ u.inner.free.length + u.lent = u.inner.registered ∧
    u.inner.registered ≤ 1 := by
  let first : SourceLease := ⟨⟨4096, 7, [0, 0, 0, 0]⟩, true⟩
  let second : SourceLease := ⟨⟨8192, 7, [0, 0]⟩, false⟩
  have h₁ : Pool.Step (Pool.new 1 4) (.acquired 3 first) ⟨⟨4, 1, [], 1, 0⟩, [first]⟩ :=
    .acquire _ 3 (registerAt 4096) _ _ (registerAt_registers (by decide)) rfl
  have h₂ : Pool.Step ⟨⟨4, 1, [], 1, 0⟩, [first]⟩ (.acquired 2 second) ⟨⟨4, 1, [], 1, 1⟩, [second, first]⟩ :=
    .acquire _ 2 (registerAt 8192) _ _ (registerAt_registers (by decide)) rfl
  have h₃ : Pool.Step ⟨⟨4, 1, [], 1, 1⟩, [second, first]⟩ (.dropped first) ⟨⟨4, 1, [first.buf], 1, 1⟩, [second]⟩ :=
    .drop _ [second] [] first rfl
  have hrun := ((Run.single h₁).snoc h₂).snoc h₃
  obtain ⟨hcount, hbound, -⟩ := source_pool_sound hrun
  exact ⟨_, _, hrun, rfl, rfl, hcount, hbound⟩

end Hord
