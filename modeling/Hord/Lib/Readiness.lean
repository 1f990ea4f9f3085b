/- Readiness of a file descriptor under an edge-triggered event loop. The kernel
   raises an edge when the descriptor becomes readable; the loop's driver takes the
   edge up, sets the readiness the tasks see and wakes the one that registered.
   A task that was told of readiness holds a guard; clearing through the guard does
   not look at the descriptor, and erases only what the driver had recorded when the
   guard was taken. Every record of the driver advances `tick`, and the tick of a
   guard says which one it saw.

   `Hot` is what a waiting task depends on: readiness that is set or that the driver
   will set. `HotSince g` is what survives clearing through the guard `g`. -/
namespace Readiness

structure AsyncFd where
  edge : Bool
  ready : Bool
  tick : Nat
  waker : Bool
  deriving DecidableEq, Repr

namespace AsyncFd

/-- The descriptor becomes readable. -/
def signal (f : AsyncFd) : AsyncFd := { f with edge := true }

/-- The driver records readiness and takes the registered waker. -/
def record (f : AsyncFd) : AsyncFd :=
  { edge := false, ready := true, tick := f.tick + 1, waker := false }

/-- A guard if readiness is set; otherwise the caller's waker is registered. -/
def pollReadReady (f : AsyncFd) : Option Nat × AsyncFd :=
  if f.ready then (some f.tick, f) else (none, { f with waker := true })

def clearReady (f : AsyncFd) (guard : Nat) : AsyncFd :=
  if f.tick = guard then { f with ready := false } else f

def Hot (f : AsyncFd) : Prop := f.edge = true ∨ f.ready = true

def HotSince (f : AsyncFd) (guard : Nat) : Prop :=
  f.edge = true ∨ f.ready = true ∧ guard < f.tick

variable {f : AsyncFd} {g : Nat}

theorem HotSince.hot (h : f.HotSince g) : f.Hot := h.imp_right And.left

theorem signal_hot (f : AsyncFd) : f.signal.Hot := .inl rfl

theorem signal_hotSince (f : AsyncFd) (g : Nat) : f.signal.HotSince g := .inl rfl

theorem record_hot (f : AsyncFd) : f.record.Hot := .inr rfl

theorem record_hotSince (h : g ≤ f.tick) : f.record.HotSince g :=
  .inr ⟨rfl, Nat.lt_succ_of_le h⟩

/-- Clearing through a guard leaves what came after it. -/
theorem HotSince.cleared (h : f.HotSince g) : (f.clearReady g).Hot := by
  unfold clearReady
  split
  · next heq =>
    rcases h with he | ⟨-, hlt⟩
    · exact .inl he
    · omega
  · exact h.hot

/-- Readiness the guard had seen is no longer the latest, or the edge is up. -/
theorem Hot.since (h : f.Hot) (hg : g ≤ f.tick) (hnew : f.edge = true ∨ f.tick ≠ g) :
    f.HotSince g := by
  rcases hnew with he | hne
  · exact .inl he
  · rcases h with he | hr
    · exact .inl he
    · exact .inr ⟨hr, by omega⟩

end AsyncFd

end Readiness
