import Mathlib.Data.List.Perm.Basic
import Mathlib.Data.List.Nodup
import Mathlib.Logic.Function.Basic
import Hord.Lib.Run

/- The acceptor of the listener (`acceptor_loop` and `dispatch` in
   `hord-async/src/listener.rs`). Each wakeup drains the listener's channel, a bounded
   number of connections at a time, and hands every connection to a worker whose queue
   takes it. No connection is lost or handed out twice, and the loop ends at the first
   device removal or after a run of listener errors (`acceptor_dispatches`). A peer whose
   setup fails changes nothing of this; it can, however, put the loop to sleep for an error
   of an earlier wakeup (`setup_failures_do_not_count`, `backoff_without_error`).

   Correspondence (Rust ↔ Lean):
     `HordStream::try_accept_begin`       ↔ `Attempt`, one result of it
     `dispatch`                           ↔ `dispatch`, `Acceptor.dispatched`
     the arms of the inner `match`        ↔ `Acceptor.attempt`
     what follows the inner loop          ↔ `Acceptor.settle`
     `fd.readable()`                      ↔ the step `wake`
     the sleep of `ACCEPT_ERROR_BACKOFF`  ↔ the place `backoff`, left by the step `slept`
     `shutdown`, `stop`, a failing fd     ↔ the step `signal`
   Whether a worker's queue takes a connection is known only when it is tried, and each is
   tried once for each connection: `accepts` says what it answers then. -/
namespace Hord

open Transition

def maxDrainPerWakeup : Nat := 64

def maxConsecutiveAcceptErrors : Nat := 50

/-- A result of `try_accept_begin`. A connection comes with what each worker's queue will
    answer: that it is neither full nor closed. -/
inductive Attempt (α : Type) where
  | conn (c : α) (accepts : Nat → Bool)
  | empty
  | setupFailed
  | removed
  | error

/-- Where the loop stands: in the `select!`, in a wakeup that has handled so many events,
    asleep, or returned. -/
inductive AcceptPc where
  | parked
  | draining (handled : Nat)
  | backoff
  | stopped
  deriving DecidableEq, Repr

/-- The acceptor, with the connections it has sent to each worker so far. -/
structure Acceptor (α : Type) where
  workers : Nat
  next : Nat
  errors : Nat
  queues : Nat → List α
  dropped : List α
  pc : AcceptPc

inductive AcceptEvent (α : Type) where
  | woke
  | attempt (o : Attempt α)
  | slept
  | signal

/-- The worker a connection goes to, and where the next round starts; `tries` workers are
    left to be tried. -/
def dispatch (workers : Nat) (accepts : Nat → Bool) : (tries next : Nat) → Option Nat × Nat
  | 0, next => (none, next)
  | tries + 1, next =>
    if accepts next then (some next, (next + 1) % workers)
    else dispatch workers accepts tries ((next + 1) % workers)

namespace Acceptor
variable {α : Type}

def new (workers : Nat) : Acceptor α where
  workers := workers
  next := 0
  errors := 0
  queues := fun _ => []
  dropped := []
  pc := .parked

def dispatched (a : Acceptor α) (c : α) (accepts : Nat → Bool) : Acceptor α :=
  match dispatch a.workers accepts a.workers a.next with
  | (some w, next) => { a with next := next, queues := Function.update a.queues w (a.queues w ++ [c]) }
  | (none, next) => { a with next := next, dropped := a.dropped ++ [c] }

/-- The inner loop is left. -/
def settle (a : Acceptor α) (drained fatal : Bool) : Acceptor α :=
  { a with pc :=
      if fatal then .stopped
      else if drained then .parked
      else if maxConsecutiveAcceptErrors ≤ a.errors then .stopped
      else if 0 < a.errors then .backoff
      else .parked }

/-- One more event of this wakeup is handled. -/
def count (a : Acceptor α) (handled : Nat) : Acceptor α :=
  if maxDrainPerWakeup ≤ handled + 1 then a.settle false false
  else { a with pc := .draining (handled + 1) }

/-- One turn of the inner loop. -/
def attempt (a : Acceptor α) (handled : Nat) : Attempt α → Acceptor α
  | .conn c accepts => ({ a with errors := 0 }.dispatched c accepts).count handled
  | .empty => a.settle true false
  | .removed => a.settle false true
  | .setupFailed => a.count handled
  | .error => { a with errors := a.errors + 1 }.settle false false

inductive Step : Acceptor α → AcceptEvent α → Acceptor α → Prop
  | wake (a : Acceptor α) (hpc : a.pc = .parked) : Step a .woke { a with pc := .draining 0 }
  | attempt (a : Acceptor α) (handled : Nat) (o : Attempt α) (hpc : a.pc = .draining handled) :
      Step a (.attempt o) (a.attempt handled o)
  | sleep (a : Acceptor α) (hpc : a.pc = .backoff) : Step a .slept { a with pc := .parked }
  | signal (a : Acceptor α) (hpc : a.pc = .parked) : Step a .signal { a with pc := .stopped }

end Acceptor

section Trace
variable {α : Type}

/-- The results of `try_accept_begin` in a run. -/
def outcomes (ls : List (AcceptEvent α)) : List (Attempt α) :=
  ls.filterMap fun
    | .attempt o => some o
    | _ => none

/-- The connections among them. -/
def accepted (os : List (Attempt α)) : List α :=
  os.filterMap fun
    | .conn c _ => some c
    | _ => none

def Attempt.isConn : Attempt α → Bool
  | .conn _ _ => true
  | _ => false

def Attempt.isError : Attempt α → Bool
  | .error => true
  | _ => false

def Attempt.isSetupFailure : Attempt α → Bool
  | .setupFailed => true
  | _ => false

/-- The listener errors since the last connection. -/
def errorsSince (os : List (Attempt α)) : Nat :=
  (os.reverse.takeWhile fun o => !o.isConn).countP (·.isError)

/-- The last result is a device removal, or the error that makes the run of errors too
    long. -/
def Ends (os : List (Attempt α)) : Prop :=
  ∃ pre o, os = pre ++ [o] ∧ (o = .removed ∨ o = .error ∧ errorsSince os = maxConsecutiveAcceptErrors)

/-- The results since the loop last woke. -/
def wakeup (ls : List (AcceptEvent α)) : List (Attempt α) :=
  outcomes (ls.reverse.takeWhile fun
    | .woke => false
    | _ => true).reverse

@[simp] theorem errorsSince_nil : errorsSince ([] : List (Attempt α)) = 0 := rfl

theorem errorsSince_snoc (os : List (Attempt α)) (o : Attempt α) :
    errorsSince (os ++ [o]) = if o.isConn then 0 else errorsSince os + o.isError.toNat := by
  unfold errorsSince
  rw [List.reverse_append, List.reverse_singleton, List.singleton_append, List.takeWhile_cons]
  cases hc : o.isConn with
  | true => simp
  | false =>
    simp only [Bool.not_false, if_true, List.countP_cons]
    cases o.isError <;> rfl

theorem outcomes_snoc (ls : List (AcceptEvent α)) (o : Attempt α) :
    outcomes (ls ++ [.attempt o]) = outcomes ls ++ [o] := by
  simp [outcomes]

theorem outcomes_other (ls : List (AcceptEvent α)) {l : AcceptEvent α} (h : ∀ o, l ≠ .attempt o) :
    outcomes (ls ++ [l]) = outcomes ls := by
  cases l with
  | attempt o => exact absurd rfl (h o)
  | _ => simp [outcomes]

end Trace

/-! One connection. -/

section Dispatch
variable {workers : Nat} {accepts : Nat → Bool}

/-- The first worker in cyclic order that takes the connection, if there is one. -/
theorem dispatch_cases (hw : 1 ≤ workers) (tries next : Nat) (hnext : next < workers) :
    (dispatch workers accepts tries next).2 < workers ∧
    match (dispatch workers accepts tries next).1 with
    | some w => ∃ k < tries, w = (next + k) % workers ∧ accepts w = true ∧
        ∀ j < k, accepts ((next + j) % workers) = false
    | none => ∀ j < tries, accepts ((next + j) % workers) = false := by
  induction tries generalizing next with
  | zero => exact ⟨hnext, nofun⟩
  | succ tries ih =>
    have hmod : next % workers = next := Nat.mod_eq_of_lt hnext
    have hstep : (next + 1) % workers < workers := Nat.mod_lt _ hw
    -- the candidates of the next round are those of this one, shifted by one
    have hshift : ∀ j, ((next + 1) % workers + j) % workers = (next + (j + 1)) % workers := by
      intro j
      rw [Nat.mod_add_mod]
      congr 1
      omega
    simp only [dispatch]
    cases hacc : accepts next with
    | true =>
      simp only [if_true]
      exact ⟨hstep, 0, Nat.succ_pos _, by simp [hmod], hacc, nofun⟩
    | false =>
      simp only [Bool.false_eq_true, if_false]
      obtain ⟨hlt, hres⟩ := ih _ hstep
      refine ⟨hlt, ?_⟩
      have hfirst : ∀ j, (∀ i < j, accepts (((next + 1) % workers + i) % workers) = false) →
          ∀ i < j + 1, accepts ((next + i) % workers) = false := by
        intro j hj i hi
        cases i with
        | zero => simpa [hmod] using hacc
        | succ i =>
          rw [← hshift]
          exact hj i (by omega)
      split at hres
      · next w hw' =>
        obtain ⟨k, hk, hwk, hyes, hno⟩ := hres
        exact ⟨k + 1, by omega, by rw [hwk, hshift], hyes, hfirst k hno⟩
      · next hw' => exact hfirst tries hres

/-- All workers are tried before a connection is given up. -/
theorem dispatch_none {next : Nat} (hnext : next < workers)
    (hno : ∀ j < workers, accepts ((next + j) % workers) = false) : ∀ w < workers, accepts w = false := by
  intro w hlt
  by_cases hle : next ≤ w
  · have := hno (w - next) (by omega)
    rwa [show next + (w - next) = w by omega, Nat.mod_eq_of_lt hlt] at this
  · have := hno (workers - next + w) (by omega)
    rwa [show next + (workers - next + w) = w + workers by omega, Nat.add_mod_right, Nat.mod_eq_of_lt hlt] at this

end Dispatch

/-- One more entry at the end of one queue. -/
theorem flatMap_update_perm {α : Type} {q : Nat → List α} {w : Nat} {c : α} {ws : List Nat} (hnd : ws.Nodup)
    (hw : w ∈ ws) : (ws.flatMap (Function.update q w (q w ++ [c]))).Perm (c :: ws.flatMap q) := by
  induction ws with
  | nil => cases hw
  | cons v ws ih =>
    obtain ⟨hv, hnd⟩ := List.nodup_cons.mp hnd
    rw [List.flatMap_cons, List.flatMap_cons]
    by_cases hvw : v = w
    · subst hvw
      have hrest : ws.flatMap (Function.update q v (q v ++ [c])) = ws.flatMap q := by
        refine List.flatMap_congr fun x hx => ?_
        have hne : x ≠ v := fun hxv => hv (hxv ▸ hx)
        exact Function.update_of_ne hne ..
      rw [Function.update_self, hrest, List.append_assoc, List.singleton_append]
      exact List.perm_middle
    · have hmem : w ∈ ws := (List.mem_cons.mp hw).resolve_left (Ne.symm hvw)
      rw [Function.update_of_ne hvw]
      exact (List.Perm.append_left _ (ih hnd hmem)).trans List.perm_middle

namespace Acceptor
variable {α : Type} {a b : Acceptor α} {n : Nat}

/-- What an accepted connection comes to. -/
theorem dispatched_cases (a : Acceptor α) (hw : 1 ≤ a.workers) (hnext : a.next < a.workers) (c : α)
    (accepts : Nat → Bool) : (a.dispatched c accepts).next < a.workers ∧
      ((∃ k < a.workers, accepts ((a.next + k) % a.workers) = true ∧
          (∀ j < k, accepts ((a.next + j) % a.workers) = false) ∧
          (a.dispatched c accepts).queues = Function.update a.queues ((a.next + k) % a.workers)
            (a.queues ((a.next + k) % a.workers) ++ [c]) ∧ (a.dispatched c accepts).dropped = a.dropped) ∨
        (∀ w < a.workers, accepts w = false) ∧ (a.dispatched c accepts).queues = a.queues ∧
          (a.dispatched c accepts).dropped = a.dropped ++ [c]) := by
  obtain ⟨hlt, hres⟩ := @dispatch_cases a.workers accepts hw a.workers a.next hnext
  unfold dispatched
  split
  · next w next hd =>
    rw [hd] at hlt hres
    obtain ⟨k, hk, rfl, hyes, hno⟩ := hres
    exact ⟨hlt, .inl ⟨k, hk, hyes, hno, rfl, rfl⟩⟩
  · next next hd =>
    rw [hd] at hlt hres
    exact ⟨hlt, .inr ⟨dispatch_none hnext hres, rfl, rfl⟩⟩

/-! What a run comes to, but for the wakeups it is cut into. -/

/-- The accounts of an acceptor: all that a result can change and that outlives the
    wakeup. -/
structure Ledger (α : Type) where
  next : Nat
  errors : Nat
  queues : Nat → List α
  dropped : List α
  ended : Bool

def ledger (a : Acceptor α) : Ledger α :=
  ⟨a.next, a.errors, a.queues, a.dropped, decide (a.pc = .stopped)⟩

/-- One result, as the accounts see it. -/
def Ledger.take (workers : Nat) (b : Ledger α) : Attempt α → Ledger α
  | .conn c accepts =>
    match dispatch workers accepts workers b.next with
    | (some w, next) =>
      { b with next := next, errors := 0, queues := Function.update b.queues w (b.queues w ++ [c]) }
    | (none, next) => { b with next := next, errors := 0, dropped := b.dropped ++ [c] }
  | .empty => b
  | .removed => { b with ended := true }
  | .setupFailed => b
  | .error => { b with errors := b.errors + 1, ended := decide (maxConsecutiveAcceptErrors ≤ b.errors + 1) }

/-- Running, with fewer errors than it stops at. -/
def Live (n : Nat) (a : Acceptor α) : Prop := a.workers = n ∧ (a.pc ≠ .stopped → a.errors < maxConsecutiveAcceptErrors)

theorem settle_stopped (a : Acceptor α) (drained fatal : Bool) : (a.settle drained fatal).pc = .stopped ↔
    fatal = true ∨ drained = false ∧ maxConsecutiveAcceptErrors ≤ a.errors := by
  by_cases hmax : maxConsecutiveAcceptErrors ≤ a.errors
  · cases fatal <;> cases drained <;> simp [settle, hmax]
  · by_cases hpos : 0 < a.errors
    · cases fatal <;> cases drained <;> simp [settle, hmax, hpos]
    · cases fatal <;> cases drained <;> simp [settle, hmax, hpos]

theorem count_live (a : Acceptor α) (handled : Nat) (h : a.errors < maxConsecutiveAcceptErrors) :
    (a.count handled).pc ≠ .stopped := by
  unfold count
  split
  · intro hs
    rcases (settle_stopped a false false).mp hs with hf | ⟨-, hmax⟩
    · cases hf
    · omega
  · nofun

/-- Neither the number of events handled nor where the loop goes on is on the accounts. -/
theorem count_ledger (a : Acceptor α) (handled : Nat) (h : a.errors < maxConsecutiveAcceptErrors) :
    (a.count handled).ledger = ⟨a.next, a.errors, a.queues, a.dropped, false⟩ := by
  have hpc := count_live a handled h
  unfold ledger
  rw [decide_eq_false hpc]
  unfold count
  split <;> rfl

theorem attempt_ledger {handled : Nat} (hlive : a.Live n) (hpc : a.pc = .draining handled) (o : Attempt α) :
    (a.attempt handled o).ledger = a.ledger.take n o ∧ (a.attempt handled o).Live n := by
  obtain ⟨hw, herr⟩ := hlive
  have hopen : decide (a.pc = .stopped) = false := by
    rw [hpc]
    rfl
  have hlow : a.errors < maxConsecutiveAcceptErrors := herr (by rw [hpc]; nofun)
  cases o with
  | conn c accepts =>
    have hzero : ({ a with errors := 0 }.dispatched c accepts).errors < maxConsecutiveAcceptErrors := by
      unfold dispatched
      split <;> exact Nat.zero_lt_succ _
    refine ⟨?_, ?_, fun _ => ?_⟩
    · simp only [attempt]
      rw [count_ledger _ _ hzero]
      simp only [dispatched, ledger, Ledger.take, hw, hopen]
      split <;> rfl
    · simp only [attempt, count, dispatched]
      split <;> split <;> exact hw
    · simp only [attempt, count]
      split <;> exact hzero
  | empty =>
    refine ⟨?_, hw, fun _ => hlow⟩
    simp [attempt, settle, ledger, Ledger.take, hopen]
  | removed =>
    refine ⟨?_, hw, fun hne => ?_⟩
    · simp [attempt, settle, ledger, Ledger.take]
    · simp [attempt, settle] at hne
  | setupFailed =>
    refine ⟨?_, ?_, fun _ => ?_⟩
    · simp only [attempt]
      rw [count_ledger a handled hlow]
      simp only [ledger, Ledger.take, hopen]
    · simp only [attempt, count]
      split <;> exact hw
    · simp only [attempt, count]
      split <;> exact hlow
  | error =>
    have hstop := settle_stopped { a with errors := a.errors + 1 } false false
    simp only [Bool.false_eq_true, false_or, true_and] at hstop
    refine ⟨?_, hw, fun hne => ?_⟩
    · simp only [attempt, ledger, Ledger.take, Ledger.mk.injEq]
      exact ⟨rfl, rfl, rfl, rfl, decide_eq_decide.mpr hstop⟩
    · have := mt hstop.mpr hne
      show a.errors + 1 < maxConsecutiveAcceptErrors
      omega

/-- A step that is no signal is one result, or is not on the accounts. -/
theorem Step.ledger {l : AcceptEvent α} (h : Step a l b) (hsig : l ≠ .signal) (hlive : a.Live n) :
    b.Live n ∧ ((∃ o, l = .attempt o ∧ a.pc ≠ .stopped ∧ b.ledger = a.ledger.take n o) ∨
      (∀ o, l ≠ .attempt o) ∧ b.ledger = a.ledger) := by
  have kept : ∀ pc, a.pc ≠ .stopped → pc ≠ .stopped → ({ a with pc := pc } : Acceptor α).Live n ∧
      ({ a with pc := pc } : Acceptor α).ledger = a.ledger := by
    intro pc hne hpc
    refine ⟨⟨hlive.1, fun _ => hlive.2 hne⟩, ?_⟩
    simp only [Acceptor.ledger, decide_eq_false hne, decide_eq_false hpc]
  cases h with
  | wake hpc =>
    obtain ⟨h₁, h₂⟩ := kept (.draining 0) (by rw [hpc]; nofun) nofun
    exact ⟨h₁, .inr ⟨nofun, h₂⟩⟩
  | sleep hpc =>
    obtain ⟨h₁, h₂⟩ := kept .parked (by rw [hpc]; nofun) nofun
    exact ⟨h₁, .inr ⟨nofun, h₂⟩⟩
  | attempt handled o hpc =>
    obtain ⟨h₁, h₂⟩ := attempt_ledger hlive hpc o
    exact ⟨h₂, .inl ⟨o, rfl, by rw [hpc]; nofun, h₁⟩⟩
  | signal hpc => exact absurd rfl hsig

/-- The accounts after the results `os`. -/
def Ledger.after (n : Nat) (os : List (Attempt α)) : Ledger α := os.foldl (Ledger.take n) (new n).ledger

theorem Ledger.after_snoc (os : List (Attempt α)) (o : Attempt α) :
    Ledger.after n (os ++ [o]) = (Ledger.after n os).take n o := by
  simp [Ledger.after]

theorem ledger_run {ls : List (AcceptEvent α)} (hrun : Run Step (new n) ls a) (hsig : ∀ l ∈ ls, l ≠ .signal) :
    a.Live n ∧ a.ledger = Ledger.after n (outcomes ls) := by
  have hstep : Run (fun a l b => Step a l b ∧ l ≠ AcceptEvent.signal) (new n) ls a := hrun.restrict hsig
  refine hstep.inv_trace (I := fun ls a => a.Live n ∧ a.ledger = Ledger.after n (outcomes ls)) (fun ls a l b hi hs => ?_)
    ⟨⟨rfl, fun _ => Nat.zero_lt_succ _⟩, rfl⟩
  obtain ⟨hlive, hkeep⟩ := hs.1.ledger hs.2 hi.1
  refine ⟨hlive, ?_⟩
  rcases hkeep with ⟨o, rfl, -, htake⟩ | ⟨hno, hsame⟩
  · rw [htake, hi.2, outcomes_snoc, Ledger.after_snoc]
  · rw [hsame, hi.2, outcomes_other ls hno]

/-! Where the connections go. -/

/-- What the workers are sent. -/
def sent (a : Acceptor α) : Nat × Nat × (Nat → List α) × List α := (a.workers, a.next, a.queues, a.dropped)

theorem count_sent (a : Acceptor α) (handled : Nat) : (a.count handled).sent = a.sent := by
  unfold count
  split <;> rfl

/-- Only a connection is dispatched. -/
theorem attempt_sent (a : Acceptor α) (handled : Nat) (o : Attempt α) (ho : o.isConn = false) :
    (a.attempt handled o).sent = a.sent := by
  cases o with
  | conn c accepts => cases ho
  | setupFailed => exact count_sent a handled
  | _ => rfl

/-- The workers' queues and the connections dropped hold what was accepted, each once. -/
structure Placed (n : Nat) (os : List (Attempt α)) (a : Acceptor α) : Prop where
  workers : a.workers = n
  next : a.next < n
  perm : ((List.range n).flatMap a.queues ++ a.dropped).Perm (accepted os)

theorem Placed.of_sent {os : List (Attempt α)} (h : a.Placed n os) (hsent : b.sent = a.sent) : b.Placed n os := by
  simp only [sent, Prod.mk.injEq] at hsent
  obtain ⟨hw, hn, hq, hd⟩ := hsent
  refine ⟨hw.trans h.workers, hn ▸ h.next, ?_⟩
  rw [hq, hd]
  exact h.perm

theorem accepted_snoc (os : List (Attempt α)) (c : α) (accepts : Nat → Bool) :
    accepted (os ++ [.conn c accepts]) = accepted os ++ [c] := by
  simp [accepted]

theorem accepted_other (os : List (Attempt α)) {o : Attempt α} (h : o.isConn = false) :
    accepted (os ++ [o]) = accepted os := by
  cases o with
  | conn c accepts => cases h
  | _ => simp [accepted]

theorem Placed.dispatched {os : List (Attempt α)} (hn : 1 ≤ n) (h : a.Placed n os) (c : α)
    (accepts : Nat → Bool) : (a.dispatched c accepts).Placed n (os ++ [.conn c accepts]) := by
  have hnext : a.next < a.workers := by
    rw [h.workers]
    exact h.next
  have hworkers : (a.dispatched c accepts).workers = n := by
    unfold Acceptor.dispatched
    split <;> exact h.workers
  obtain ⟨hlt, hwhere⟩ := a.dispatched_cases (by rw [h.workers]; exact hn) hnext c accepts
  rw [h.workers] at hlt hwhere
  refine ⟨hworkers, hlt, ?_⟩
  rw [accepted_snoc]
  rcases hwhere with ⟨k, -, -, -, hq, hd⟩ | ⟨-, hq, hd⟩
  · have hmem : (a.next + k) % n ∈ List.range n := List.mem_range.mpr (Nat.mod_lt _ hn)
    rw [hq, hd]
    calc ((List.range n).flatMap (Function.update a.queues ((a.next + k) % n)
            (a.queues ((a.next + k) % n) ++ [c])) ++ a.dropped)
        |>.Perm (c :: (List.range n).flatMap a.queues ++ a.dropped) :=
          (flatMap_update_perm List.nodup_range hmem).append_right _
      _ |>.Perm (c :: accepted os) := h.perm.cons c
      _ |>.Perm (accepted os ++ [c]) := (List.perm_append_singleton c _).symm
  · rw [hq, hd, ← List.append_assoc]
    exact h.perm.append_right [c]

theorem Step.placed {ls : List (AcceptEvent α)} {l : AcceptEvent α} (hn : 1 ≤ n) (hs : Step a l b)
    (h : a.Placed n (outcomes ls)) : b.Placed n (outcomes (ls ++ [l])) := by
  cases hs with
  | attempt handled o hpc =>
    rw [outcomes_snoc]
    cases ho : o.isConn with
    | false =>
      have hsame := h.of_sent (attempt_sent a handled o ho)
      exact ⟨hsame.workers, hsame.next, by rw [accepted_other _ ho]; exact hsame.perm⟩
    | true =>
      match o, ho with
      | .conn c accepts, _ =>
        have hzero : ({ a with errors := 0 } : Acceptor α).Placed n (outcomes ls) := h.of_sent rfl
        exact (hzero.dispatched hn c accepts).of_sent (count_sent _ handled)
  | wake hpc =>
    rw [outcomes_other ls (l := .woke) nofun]
    exact h.of_sent rfl
  | sleep hpc =>
    rw [outcomes_other ls (l := .slept) nofun]
    exact h.of_sent rfl
  | signal hpc =>
    rw [outcomes_other ls (l := .signal) nofun]
    exact h.of_sent rfl

theorem placed_run {ls : List (AcceptEvent α)} (hn : 1 ≤ n) (hrun : Run Step (new n) ls a) :
    a.Placed n (outcomes ls) := by
  refine hrun.inv_trace (I := fun ls a => a.Placed n (outcomes ls)) (fun ls a l b hi hs => hs.placed hn hi)
    ⟨rfl, hn, ?_⟩
  have hempty : (List.range n).flatMap (fun _ => ([] : List α)) = [] := by
    simp
  show ((List.range n).flatMap (fun _ => ([] : List α)) ++ []).Perm []
  rw [hempty]
  exact List.Perm.refl _

/-! When the loop ends. -/

theorem Ledger.take_errors (b : Ledger α) (o : Attempt α) :
    (b.take n o).errors = if o.isConn then 0 else b.errors + o.isError.toNat := by
  cases o with
  | conn c accepts =>
    simp only [Ledger.take]
    split <;> rfl
  | _ => rfl

theorem Ledger.take_ended {b : Ledger α} (h : b.ended = false) (o : Attempt α) :
    (b.take n o).ended = true ↔ o = .removed ∨ o = .error ∧ maxConsecutiveAcceptErrors ≤ b.errors + 1 := by
  cases o with
  | conn c accepts =>
    simp only [Ledger.take]
    split <;> simp [h]
  | empty => simp [Ledger.take, h]
  | setupFailed => simp [Ledger.take, h]
  | removed => simp [Ledger.take]
  | error => simp [Ledger.take]

theorem ends_snoc (os : List (Attempt α)) (o : Attempt α) : Ends (os ++ [o]) ↔
    o = .removed ∨ o = .error ∧ errorsSince os + 1 = maxConsecutiveAcceptErrors := by
  constructor
  · rintro ⟨pre, o', heq, h⟩
    obtain ⟨rfl, ho⟩ := List.append_inj' heq rfl
    cases ho
    rcases h with h | ⟨rfl, h⟩
    · exact .inl h
    · rw [errorsSince_snoc] at h
      exact .inr ⟨rfl, h⟩
  · rintro (rfl | ⟨rfl, h⟩)
    · exact ⟨os, _, rfl, .inl rfl⟩
    · refine ⟨os, _, rfl, .inr ⟨rfl, ?_⟩⟩
      rw [errorsSince_snoc]
      exact h

/-- The loop has stopped exactly at the end of the results it read. -/
structure Timely (os : List (Attempt α)) (b : Ledger α) : Prop where
  errors : b.errors = errorsSince os
  ended : b.ended = true ↔ Ends os
  first : ∀ pre suf, os = pre ++ suf → suf ≠ [] → ¬Ends pre

theorem Timely.take {os : List (Attempt α)} {b : Ledger α} (h : Timely os b) (hopen : b.ended = false)
    (hlow : b.errors < maxConsecutiveAcceptErrors) (o : Attempt α) : Timely (os ++ [o]) (b.take n o) := by
  have hnot : ¬Ends os := by
    rw [← h.ended, hopen]
    nofun
  refine ⟨?_, ?_, fun pre suf heq hne => ?_⟩
  · rw [Ledger.take_errors, errorsSince_snoc, h.errors]
  · rw [Ledger.take_ended hopen, ends_snoc, ← h.errors]
    refine or_congr Iff.rfl (and_congr Iff.rfl ?_)
    omega
  · -- a proper part of the new results is all of the old ones, or a proper part of these
    obtain ⟨suf, o', rfl⟩ : ∃ suf' o', suf = suf' ++ [o'] := ⟨_, _, (List.dropLast_append_getLast hne).symm⟩
    rw [← List.append_assoc] at heq
    obtain ⟨hos, -⟩ := List.append_inj' heq rfl
    cases suf with
    | nil =>
      rw [List.append_nil] at hos
      exact hos ▸ hnot
    | cons x xs => exact h.first pre (x :: xs) hos (List.cons_ne_nil x xs)

theorem timely_run {ls : List (AcceptEvent α)} (hrun : Run Step (new n) ls a) (hsig : ∀ l ∈ ls, l ≠ .signal) :
    Timely (outcomes ls) a.ledger := by
  have hstep : Run (fun a l b => Step a l b ∧ l ≠ AcceptEvent.signal) (new n) ls a := hrun.restrict hsig
  have hinit : Timely ([] : List (Attempt α)) (new n).ledger := by
    refine ⟨rfl, ⟨nofun, ?_⟩, fun pre suf heq hne => ?_⟩
    · rintro ⟨pre, o, heq, -⟩
      simp at heq
    · exact absurd (List.append_eq_nil_iff.mp heq.symm).2 hne
  refine (hstep.inv_trace (I := fun ls (a : Acceptor α) => a.Live n ∧ Timely (outcomes ls) a.ledger)
    (fun ls a l b hi hs => ?_) ⟨⟨rfl, fun _ => Nat.zero_lt_succ _⟩, hinit⟩).2
  obtain ⟨hlive, hkeep⟩ := hs.1.ledger hs.2 hi.1
  refine ⟨hlive, ?_⟩
  rcases hkeep with ⟨o, rfl, hpc, htake⟩ | ⟨hno, hsame⟩
  · rw [htake, outcomes_snoc]
    exact hi.2.take (decide_eq_false hpc) (hi.1.2 hpc) o
  · rw [hsame, outcomes_other ls hno]
    exact hi.2

end Acceptor

/-- In every run: the workers' queues and the dropped connections hold exactly the accepted
    ones; the next connection goes to the first worker in cyclic order that takes it, and is
    dropped only if none does. Unless it is told to stop, the loop has ended exactly when
    its last result was a device removal, or the last of a run of listener errors as long
    as allowed; no earlier result was. -/
theorem acceptor_dispatches {α : Type} {n : Nat} {ls : List (AcceptEvent α)} {a : Acceptor α} (hn : 1 ≤ n)
    (hrun : Run Acceptor.Step (Acceptor.new n) ls a) :
    a.next < n ∧
    ((List.range n).flatMap a.queues ++ a.dropped).Perm (accepted (outcomes ls)) ∧
    (∀ c accepts b, Acceptor.Step a (.attempt (.conn c accepts)) b →
      (∃ k < n, accepts ((a.next + k) % n) = true ∧ (∀ j < k, accepts ((a.next + j) % n) = false) ∧
        b.queues = Function.update a.queues ((a.next + k) % n) (a.queues ((a.next + k) % n) ++ [c]) ∧
        b.dropped = a.dropped) ∨
      (∀ w < n, accepts w = false) ∧ b.queues = a.queues ∧ b.dropped = a.dropped ++ [c]) ∧
    ((∀ l ∈ ls, l ≠ .signal) →
      (a.pc = .stopped ↔ Ends (outcomes ls)) ∧
      ∀ pre suf, outcomes ls = pre ++ suf → suf ≠ [] → ¬Ends pre) := by
  have hplaced := Acceptor.placed_run hn hrun
  refine ⟨hplaced.next, hplaced.perm, fun c accepts b hs => ?_, fun hsig => ?_⟩
  · cases hs with
    | attempt handled _ hpc =>
      have hw := hplaced.workers
      have hnext := hplaced.next
      subst hw
      obtain ⟨-, hwhere⟩ := Acceptor.dispatched_cases { a with errors := 0 } hn hnext c accepts
      have hsent := Acceptor.count_sent (({ a with errors := 0 } : Acceptor α).dispatched c accepts) handled
      simp only [Acceptor.sent, Prod.mk.injEq] at hsent
      obtain ⟨-, -, hq, hd⟩ := hsent
      simp only [Acceptor.attempt]
      rw [hq, hd]
      exact hwhere
  · have htimely := Acceptor.timely_run hrun hsig
    refine ⟨?_, htimely.first⟩
    rw [← htimely.ended]
    simp [Acceptor.ledger]

/-- Two workers, the first of them with a full queue; then the device is removed. -/
theorem acceptor_dispatches_two : ∃ (ls : List (AcceptEvent Nat)) (a : Acceptor Nat),
    Run Acceptor.Step (Acceptor.new 2) ls a ∧ a.queues 1 = [7] ∧ a.pc = .stopped ∧
    ((List.range 2).flatMap a.queues ++ a.dropped).Perm (accepted (outcomes ls)) ∧ Ends (outcomes ls) := by
  let conn : Attempt Nat := .conn 7 fun w => w == 1
  have hnew : Run Acceptor.Step (Acceptor.new 2 : Acceptor Nat) [] (Acceptor.new 2) := .nil _
  have hrun := ((hnew.snoc (.wake _ rfl)).snoc (.attempt _ 0 conn rfl)).snoc (.attempt _ 1 .removed rfl)
  obtain ⟨-, hperm, -, hends⟩ := acceptor_dispatches (by decide) hrun
  refine ⟨_, _, hrun, rfl, rfl, hperm, (hends fun l hl => ?_).1.mp rfl⟩
  simp only [List.nil_append, List.cons_append, List.mem_cons, List.not_mem_nil, or_false] at hl
  rcases hl with rfl | rfl | rfl <;> nofun

/-! Peers whose setup fails. -/

section Setup
variable {α : Type} {n : Nat} {a b : Acceptor α} {ls : List (AcceptEvent α)}

theorem Ledger.after_filter (os : List (Attempt α)) :
    Acceptor.Ledger.after n os = Acceptor.Ledger.after n (os.filter fun o => !o.isSetupFailure) := by
  unfold Acceptor.Ledger.after
  generalize (Acceptor.new n).ledger = b
  induction os generalizing b with
  | nil => rfl
  | cons o os ih =>
    cases ho : o.isSetupFailure with
    | true =>
      have htake : b.take n o = b := by
        cases o with
        | setupFailed => rfl
        | _ => cases ho
      rw [List.filter_cons_of_neg (by simp [ho]), List.foldl_cons, htake]
      exact ih b
    | false =>
      rw [List.filter_cons_of_pos (by simp [ho]), List.foldl_cons, List.foldl_cons]
      exact ih _

theorem wakeup_attempt (ls : List (AcceptEvent α)) (o : Attempt α) :
    wakeup (ls ++ [.attempt o]) = wakeup ls ++ [o] := by
  unfold wakeup
  rw [List.reverse_append, List.reverse_singleton, List.singleton_append, List.takeWhile_cons]
  simp only [if_true, List.reverse_cons]
  exact outcomes_snoc _ o

theorem wakeup_woke (ls : List (AcceptEvent α)) : wakeup (ls ++ [.woke]) = [] := by
  unfold wakeup
  rw [List.reverse_append, List.reverse_singleton, List.singleton_append, List.takeWhile_cons]
  rfl

/-- A wakeup that has read setup failures only, `handled` of them, and began with errors
    of earlier ones. -/
def Flooded (n handled : Nat) (ls : List (AcceptEvent α)) (a : Acceptor α) : Prop :=
  ∃ pre b, ls = pre ++ .woke :: List.replicate handled (.attempt .setupFailed) ∧ Run Acceptor.Step (.new n) pre b ∧
    Run Acceptor.Step b (.woke :: List.replicate handled (.attempt .setupFailed)) a ∧ 0 < b.errors

theorem Flooded.snoc {handled : Nat} (h : Flooded n handled ls a)
    (hs : Acceptor.Step a (.attempt .setupFailed) b) : Flooded n (handled + 1) (ls ++ [.attempt .setupFailed]) b := by
  obtain ⟨pre, c, rfl, hpre, hrun, herr⟩ := h
  have hsnoc : AcceptEvent.woke :: List.replicate (handled + 1) (AcceptEvent.attempt (.setupFailed : Attempt α)) =
      (.woke :: List.replicate handled (.attempt .setupFailed)) ++ [.attempt .setupFailed] := by
    rw [List.replicate_succ', List.cons_append]
  refine ⟨pre, c, ?_, hpre, ?_, herr⟩
  · rw [hsnoc, List.append_assoc]
  · rw [hsnoc]
    exact hrun.snoc hs

/-- The accounts of a wakeup: without a connection, errors are those it began with. -/
def Carried (n : Nat) (ls : List (AcceptEvent α)) (a : Acceptor α) : Prop :=
  match a.pc with
  | .draining handled => handled < maxDrainPerWakeup ∧ (a.errors = 0 ∨ Flooded n handled ls a)
  | .backoff => .error ∈ wakeup ls ∨ Flooded n maxDrainPerWakeup ls a
  | _ => True

theorem carried_count {handled : Nat} (hlt : handled < maxDrainPerWakeup)
    (h : a.errors = 0 ∨ Flooded n (handled + 1) ls (a.count handled)) : Carried n ls (a.count handled) := by
  by_cases hcap : maxDrainPerWakeup ≤ handled + 1
  · have hcount : handled + 1 = maxDrainPerWakeup := by omega
    have heq : a.count handled = a.settle false false := by
      unfold Acceptor.count
      rw [if_pos hcap]
    rcases h with hzero | hflood
    · have hpc : (a.count handled).pc = .parked := by
        rw [heq]
        simp [Acceptor.settle, hzero, maxConsecutiveAcceptErrors]
      unfold Carried
      rw [hpc]
      trivial
    · rw [hcount] at hflood
      unfold Carried
      split
      · next k hk =>
        rw [heq] at hk
        simp only [Acceptor.settle, Bool.false_eq_true, if_false] at hk
        split at hk
        · cases hk
        · split at hk <;> cases hk
      · exact .inr hflood
      · trivial
  · have hpc : (a.count handled).pc = .draining (handled + 1) := by
      unfold Acceptor.count
      rw [if_neg hcap]
    have herr : (a.count handled).errors = a.errors := by
      unfold Acceptor.count
      rw [if_neg hcap]
    unfold Carried
    rw [hpc]
    exact ⟨by omega, herr ▸ h⟩

theorem Acceptor.Step.carried {l : AcceptEvent α} (hrun : Run Acceptor.Step (.new n) ls a)
    (hs : Acceptor.Step a l b) (h : Carried n ls a) : Carried n (ls ++ [l]) b := by
  have hlast := hs
  cases hs with
  | wake hpc =>
    refine ⟨by decide, ?_⟩
    rcases Nat.eq_zero_or_pos a.errors with hzero | hpos
    · exact .inl hzero
    · exact .inr ⟨ls, a, rfl, hrun, .single hlast, hpos⟩
  | sleep hpc => trivial
  | signal hpc => trivial
  | attempt handled o hpc =>
    unfold Carried at h
    rw [hpc] at h
    obtain ⟨hlt, herr⟩ := h
    cases o with
    | conn c accepts =>
      refine carried_count hlt (.inl ?_)
      unfold Acceptor.dispatched
      split <;> rfl
    | empty =>
      simp only [Carried, Acceptor.attempt, Acceptor.settle]
      trivial
    | removed =>
      simp only [Carried, Acceptor.attempt, Acceptor.settle]
      trivial
    | setupFailed => exact carried_count hlt (herr.imp_right fun hf => hf.snoc hlast)
    | error =>
      have hmem : .error ∈ wakeup (ls ++ [.attempt (.error : Attempt α)]) := by
        rw [wakeup_attempt]
        simp
      unfold Carried
      split
      · next k hk =>
        simp only [Acceptor.attempt, Acceptor.settle, Bool.false_eq_true, if_false] at hk
        split at hk
        · cases hk
        · split at hk <;> cases hk
      · exact .inl hmem
      · trivial

/-- A flood of setup failures ends in the back-off. -/
theorem Acceptor.flood_backoff {k : Nat} (hk : k ≤ maxDrainPerWakeup) (hpos : 0 < b.errors)
    (hlow : b.errors < maxConsecutiveAcceptErrors)
    (hrun : Run Acceptor.Step b (.woke :: List.replicate k (.attempt .setupFailed)) a) :
    a.errors = b.errors ∧ a.pc = if k = maxDrainPerWakeup then .backoff else .draining k := by
  induction k generalizing a with
  | zero =>
    obtain ⟨c, hs, hnil⟩ := hrun.uncons
    obtain rfl := hnil.eq_of_nil
    cases hs
    exact ⟨rfl, rfl⟩
  | succ k ih =>
    rw [List.replicate_succ', ← List.cons_append] at hrun
    obtain ⟨c, hk', hs⟩ := hrun.unsnoc
    obtain ⟨herr, hpc⟩ := ih (by omega) hk'
    rw [if_neg (by omega)] at hpc
    cases hs with
    | attempt handled _ hpc' =>
      rw [hpc] at hpc'
      cases hpc'
      simp only [Acceptor.attempt, Acceptor.count]
      by_cases hcap : maxDrainPerWakeup ≤ k + 1
      · rw [if_pos hcap, if_pos (by omega)]
        refine ⟨herr, ?_⟩
        have hmax : ¬maxConsecutiveAcceptErrors ≤ c.errors := by omega
        have hpos' : 0 < c.errors := by omega
        simp [Acceptor.settle, hmax, hpos']
      · rw [if_neg hcap, if_neg (by omega)]
        exact ⟨herr, rfl⟩

/-- And nothing keeps it from being read. -/
theorem Acceptor.flood_run {k : Nat} (hk : k ≤ maxDrainPerWakeup) (hpc : b.pc = .parked) (hpos : 0 < b.errors)
    (hlow : b.errors < maxConsecutiveAcceptErrors) :
    ∃ a, Run Acceptor.Step b (.woke :: List.replicate k (.attempt .setupFailed)) a := by
  induction k with
  | zero => exact ⟨_, .single (.wake b hpc)⟩
  | succ k ih =>
    obtain ⟨a, hrun⟩ := ih (by omega)
    have hdrain := (Acceptor.flood_backoff (by omega) hpos hlow hrun).2
    rw [if_neg (by omega)] at hdrain
    rw [List.replicate_succ', ← List.cons_append]
    exact ⟨_, hrun.snoc (.attempt a k .setupFailed hdrain)⟩

theorem Acceptor.live_run (hrun : Run Acceptor.Step (.new n) ls a) : a.Live n := by
  refine hrun.inv (I := Acceptor.Live n) (fun a l b hi hs => ?_) ⟨rfl, fun _ => Nat.zero_lt_succ _⟩
  by_cases hsig : l = .signal
  · subst hsig
    cases hs with
    | signal hpc => exact ⟨hi.1, fun hne => absurd rfl hne⟩
  · exact (hs.ledger hsig hi).1

theorem wakeup_flood (pre : List (AcceptEvent α)) (k : Nat) :
    wakeup (pre ++ .woke :: List.replicate k (.attempt .setupFailed)) = List.replicate k .setupFailed := by
  induction k with
  | zero => exact wakeup_woke pre
  | succ k ih =>
    rw [List.replicate_succ', ← List.cons_append, ← List.append_assoc, wakeup_attempt, ih, List.replicate_succ']

/-- The loop, unless it has ended, takes whatever the next result is. -/
theorem Acceptor.progress (hpc : a.pc ≠ .stopped) (o : Attempt α) :
    ∃ ms b, Run Acceptor.Step a ms b ∧ outcomes ms = [o] ∧ ∀ l ∈ ms, l ≠ .signal := by
  have draining : ∀ {c : Acceptor α} {ms : List (AcceptEvent α)} {handled : Nat}, c.pc = .draining handled →
      Run Acceptor.Step a ms c → outcomes ms = [] → (∀ l ∈ ms, l ≠ .signal) →
      ∃ ms b, Run Acceptor.Step a ms b ∧ outcomes ms = [o] ∧ ∀ l ∈ ms, l ≠ .signal := by
    intro c ms handled hc hrun hnone hsig
    refine ⟨ms ++ [.attempt o], _, hrun.snoc (.attempt c handled o hc), ?_, fun l hl => ?_⟩
    · rw [outcomes_snoc, hnone, List.nil_append]
    · rcases List.mem_append.mp hl with hl | hl
      · exact hsig l hl
      · rw [List.mem_singleton] at hl
        rw [hl]
        nofun
  cases h : a.pc with
  | stopped => exact absurd h hpc
  | draining handled => exact draining h (.nil a) rfl nofun
  | parked => exact draining rfl (.single (.wake a h)) rfl (by simp)
  | backoff => exact draining rfl ((Run.single (.sleep a h)).snoc (.wake _ rfl)) rfl (by simp)

end Setup

/-- Runs that differ in setup failures only agree in the errors counted, in what each worker
    was sent and in whether the loop has ended. The back-off is entered in a wakeup with a
    listener error, unless the wakeup began with errors of earlier ones and read nothing
    but setup failures until its cap. -/
theorem setup_failures_do_not_count {α : Type} {n : Nat} :
    (∀ (ls ls' : List (AcceptEvent α)) (a a' : Acceptor α),
      Run Acceptor.Step (.new n) ls a → Run Acceptor.Step (.new n) ls' a' →
      (∀ l ∈ ls, l ≠ .signal) → (∀ l ∈ ls', l ≠ .signal) →
      ((outcomes ls').filter fun o => !o.isSetupFailure) = ((outcomes ls).filter fun o => !o.isSetupFailure) →
      a'.errors = a.errors ∧ a'.next = a.next ∧ a'.queues = a.queues ∧ a'.dropped = a.dropped ∧
        (a'.pc = .stopped ↔ a.pc = .stopped)) ∧
    (∀ (a : Acceptor α), a.pc ≠ .stopped → ∀ o, ∃ ms b, Run Acceptor.Step a ms b ∧ outcomes ms = [o] ∧
      ∀ l ∈ ms, l ≠ .signal) ∧
    ∀ (ls : List (AcceptEvent α)) (a : Acceptor α), Run Acceptor.Step (.new n) ls a →
      ((a.pc = .backoff → .error ∈ wakeup ls) ↔
        ¬∃ pre b, ls = pre ++ .woke :: List.replicate maxDrainPerWakeup (.attempt .setupFailed) ∧
          Run Acceptor.Step (.new n) pre b ∧
          Run Acceptor.Step b (.woke :: List.replicate maxDrainPerWakeup (.attempt .setupFailed)) a ∧
          0 < b.errors) := by
  refine ⟨fun ls ls' a a' hrun hrun' hsig hsig' hsame => ?_, fun a hpc o => Acceptor.progress hpc o,
    fun ls a hrun => ⟨fun hback => ?_, fun hno hpc => ?_⟩⟩
  · have hledger : a'.ledger = a.ledger := by
      rw [(Acceptor.ledger_run hrun hsig).2, (Acceptor.ledger_run hrun' hsig').2, Ledger.after_filter, hsame,
        ← Ledger.after_filter]
    simp only [Acceptor.ledger, Acceptor.Ledger.mk.injEq] at hledger
    obtain ⟨hnext, herr, hq, hd, hover⟩ := hledger
    exact ⟨herr, hnext, hq, hd, decide_eq_decide.mp hover⟩
  · rintro ⟨pre, b, rfl, hpre, hflood, hpos⟩
    have hlow : b.errors < maxConsecutiveAcceptErrors := by
      refine (Acceptor.live_run hpre).2 fun hstop => ?_
      obtain ⟨c, hs, -⟩ := hflood.uncons
      cases hs with
      | wake hpc =>
        rw [hpc] at hstop
        cases hstop
    have hpc := (Acceptor.flood_backoff (Nat.le_refl _) hpos hlow hflood).2
    have hmem := hback (by simpa using hpc)
    rw [wakeup_flood] at hmem
    have := List.eq_of_mem_replicate hmem
    cases this
  · -- the invariant of the wakeup says how it came to the back-off
    have hcarried : Carried n ls a :=
      (hrun.inv_trace (I := fun ls a => Run Acceptor.Step (.new n) ls a ∧ Carried n ls a)
        (fun ls a l b hi hs => ⟨hi.1.snoc hs, hs.carried hi.1 hi.2⟩) ⟨.nil _, trivial⟩).2
    unfold Carried at hcarried
    rw [hpc] at hcarried
    exact hcarried.resolve_right hno

/-- A connection, and the same after a peer whose setup failed. -/
theorem setup_failures_do_not_count_one : ∃ (ls ls' : List (AcceptEvent Nat)) (a a' : Acceptor Nat),
    Run Acceptor.Step (.new 1) ls a ∧ Run Acceptor.Step (.new 1) ls' a' ∧
    outcomes ls' = .setupFailed :: outcomes ls ∧ a.queues 0 = [7] ∧ a'.queues = a.queues ∧
    a'.errors = a.errors ∧ (a'.pc = .backoff → .error ∈ wakeup ls') := by
  let conn : Attempt Nat := .conn 7 fun _ => true
  have hnew : Run Acceptor.Step (Acceptor.new 1 : Acceptor Nat) [] (Acceptor.new 1) := .nil _
  have hrun := (hnew.snoc (.wake _ rfl)).snoc (.attempt _ 0 conn rfl)
  have hrun' := ((hnew.snoc (.wake _ rfl)).snoc (.attempt _ 0 .setupFailed rfl)).snoc (.attempt _ 1 conn rfl)
  obtain ⟨hsame, -, hback⟩ := setup_failures_do_not_count (α := Nat) (n := 1)
  obtain ⟨herr, -, hq, -⟩ := hsame _ _ _ _ hrun hrun' (by simp) (by simp) rfl
  refine ⟨_, _, _, _, hrun, hrun', rfl, rfl, hq, herr, (hback _ _ hrun').mpr ?_⟩
  rintro ⟨pre, b, hls, -⟩
  have := congrArg List.length hls
  simp only [List.nil_append, List.cons_append, List.length_append, List.length_cons, List.length_replicate,
    List.length_nil, maxDrainPerWakeup] at this
  omega

/-- After one listener error, a wakeup that reads setup failures up to its cap backs off. -/
theorem backoff_without_error : ¬∀ (n : Nat) (ls : List (AcceptEvent Nat)) (a : Acceptor Nat),
    Run Acceptor.Step (.new n) ls a → a.pc = .backoff → .error ∈ wakeup ls := by
  intro h
  let after : Acceptor Nat := { Acceptor.new 1 with errors := 1 }
  have hpre : Run Acceptor.Step (Acceptor.new 1) [.woke, .attempt .error, .slept] after :=
    (((Run.nil (Acceptor.new 1)).snoc (.wake _ rfl)).snoc (.attempt _ 0 .error rfl)).snoc (.sleep _ rfl)
  obtain ⟨a, hflood⟩ := Acceptor.flood_run (b := after) (Nat.le_refl maxDrainPerWakeup) rfl (by decide) (by decide)
  have hpc := (Acceptor.flood_backoff (Nat.le_refl _) (by decide) (by decide) hflood).2
  have hmem := h 1 _ a (hpre.append hflood) (by simpa using hpc)
  rw [wakeup_flood] at hmem
  have := List.eq_of_mem_replicate hmem
  cases this

end Hord
