import Hord.Reactor
import Hord.Accepting

/- A stream split into handles (`into_split` of hord-async): the read half, the write
   half and the data plane run the non-blocking calls of the stream and park on a
   shared list of wakers; one pump task owns the reactor, and after each advance of the
   stream wakes every parked handle. All of them share one thread, so a handle is
   polled only while the pump is not.

   Correspondence (Rust ↔ Lean):
     `try_read_into` / `try_write_from`      ↔ `tryReadInto` / `tryWriteFrom`
     `poll_flush_ready` / `next_transfer`    ↔ `pollFlushReady` / `nextTransfer`
     `poll_read`, `poll_write`, `poll_flush` (`poll_shutdown`), `poll_next` of the
       handles                               ↔ `Poll.run`, `none` for `Pending`
     `Shared::register` / `Shared::wake_all` ↔ `register` / `Split.wake`
     `pump_loop`                             ↔ `PumpState`, the steps `pump` and `wake`
   A waker is named by its task. -/
namespace Hord

open Region Prog Transition Readiness

def tryReadInto (n : Nat) : M (Option Bytes) := do
  match ← tryRead n with
  | some bs => return some bs
  | none =>
    returnOwedCredits true
    return none

def tryWriteFrom (buf : Bytes) : M (Option Nat) := do
  let n ← tryWrite buf
  return if 0 < n then some n else none

/-- The delivery barrier of a flush. -/
def pollFlushReady : M (Option Unit) := do
  let stageClear ← tryFlushStage
  let s ← get
  if stageClear && !s.sendsOutstanding && !s.writesPending then return some ()
  else if s.peerClosed then
    ioErr .brokenPipe "connection closed before all sends were acknowledged"
  else return none

/-- The next transfer, or the end of them. -/
def nextTransfer : M (Option (Option Nat)) := do
  match ← nextCompletedTransfer with
  | some id => return some (some id)
  | none => return if (← get).peerClosed then some none else none

/-- A poll of one of the handles. -/
inductive Poll where
  | read (n : Nat)
  | write (buf : Bytes)
  | flush
  | next
  deriving DecidableEq

def Poll.run : Poll → M (Option Res)
  | .read n => do return (← tryReadInto n).map fun bs => .bytes (some bs)
  | .write buf =>
    if buf.isEmpty then return some (.count 0)
    else do return (← tryWriteFrom buf).map .count
  | .flush => do return (← pollFlushReady).map fun _ => .unit
  | .next => do return (← nextTransfer).map .transfer

/-- The device refuses the poll none of its posts. A read that finds nothing returns the
    credits it owes. -/
def Poll.Granted (s : HordStream) : Poll → Prop
  | .read n => s.Grants (.tryRead n) ∧ (n ≠ 0 → s.rxReady = [] → s.Grants (.returnOwedCredits true))
  | .write buf => buf = [] ∨ s.Grants (.tryWrite buf)
  | .flush => s.Grants .tryFlushStage
  | .next => True

instance Poll.decidableGranted (s : HordStream) (a : Poll) : Decidable (a.Granted s) :=
  match a with
  | .read n => inferInstanceAs (Decidable (s.Grants (.tryRead n) ∧
      (n ≠ 0 → s.rxReady = [] → s.Grants (.returnOwedCredits true))))
  | .write buf => inferInstanceAs (Decidable (buf = [] ∨ s.Grants (.tryWrite buf)))
  | .flush => inferInstanceAs (Decidable (s.Grants .tryFlushStage))
  | .next => .isTrue trivial

/-- Where the pump task stands outside `poll_reactor`. -/
inductive PumpState where
  | driving
  | waking (ok : Bool)
  | stopped
  deriving DecidableEq, Repr

structure Split where
  reactor : Reactor
  wakers : List Nat
  pump : PumpState

inductive SplitEvent where
  | device (l : Turned)
  | pumped (l : Turned)
  | woke (wakers : List Nat)
  | polled (task : Nat) (a : Poll) (pending : Bool)
  | disconnected

/-- Record a waker, once. -/
def register (wakers : List Nat) (task : Nat) : List Nat :=
  if task ∈ wakers then wakers else wakers ++ [task]

/-- The steps of the reactor's surroundings, not of the call. -/
def Turned.outer : Turned → Bool
  | .nic _ => true
  | .driver => true
  | _ => false

def Turned.owned : Turned → Bool
  | .owner _ => true
  | _ => false

/-- What the pump does next after a step of `poll_reactor`. -/
def Turned.pump : Turned → PumpState
  | .ready => .waking true
  | .failed => .waking false
  | _ => .driving

namespace Split

/-- `wake_all`, then stop on a closed stream or call `poll_reactor` again; after an
    error the stream is marked closed first. -/
def wake (u : Split) (ok : Bool) : Split :=
  if ok then
    if u.reactor.stream.peerClosed then { u with wakers := [], pump := .stopped }
    else { u with wakers := [], pump := .driving, reactor := { u.reactor with pc := .drain 0 } }
  else
    { reactor := { u.reactor with stream := u.reactor.stream.close }, wakers := [], pump := .stopped }

/-- The pump is not being polled. -/
def resting (u : Split) : Bool :=
  u.pump = .stopped || decide (u.pump = .driving) && u.reactor.resting

/-- A handle is polled by `task`; only a `Pending` registers it. -/
def polled (u : Split) (task : Nat) (a : Poll) : Bool × Split :=
  match a.run u.reactor.stream with
  | .ok (some _) t => (false, { u with reactor := { u.reactor with stream := t } })
  | .ok none t =>
    (true, { u with reactor := { u.reactor with stream := t }, wakers := register u.wakers task })
  | .error _ t => (false, { u with reactor := { u.reactor with stream := t } })

inductive Step : Split → SplitEvent → Split → Prop
  | device (u : Split) (l : Turned) (r : Reactor) (hl : l.outer = true)
      (h : Reactor.Step u.reactor l r) : Step u (.device l) { u with reactor := r }
  | pump (u : Split) (l : Turned) (r : Reactor) (hp : u.pump = .driving) (hl : l.outer = false)
      (ho : l.owned = false) (h : Reactor.Step u.reactor l r) :
      Step u (.pumped l) { u with reactor := r, pump := l.pump }
  | wake (u : Split) (ok : Bool) (hp : u.pump = .waking ok) : Step u (.woke u.wakers) (u.wake ok)
  | poll (u : Split) (task : Nat) (a : Poll) (hr : u.resting = true) :
      Step u (.polled task a (u.polled task a).1) (u.polled task a).2
  /-- `DataPlane::disconnect`. -/
  | disconnect (u : Split) (v : Res) (t : HordStream) (hr : u.resting = true)
      (h : Act.disconnect.run u.reactor.stream = .ok v t) :
      Step u .disconnected { u with reactor := { u.reactor with stream := t } }

/-- As `into_split` makes it of an established stream. -/
def Init (config : HordConfig) (u : Split) : Prop :=
  u.reactor.Init ∧ u.wakers = [] ∧ u.pump = .driving ∧ Party.Ok ⟨config, u.reactor.stream, .up⟩

end Split

/-! What one poll of a handle can do. -/

section Polls
variable {s : HordStream}

/-- The outcome of a poll: it parks on an open stream only, closes it only with an
    error, and leaves the completions alone. -/
def Polled {α : Type} (s : HordStream) (r : Except Fail (Option α)) (t : HordStream) : Prop :=
  Reaches s t ∧ t.conn.cq = s.conn.cq ∧ match r with
    | .ok none => s.peerClosed = false ∧ t.peerClosed = false
    | .ok (some _) => t.peerClosed = s.peerClosed
    | .error (.io _) => t.peerClosed = true
    | .error (.panic _) => False

theorem Polled.map {α β : Type} {f : α → β} {x : M (Option α)} (h : wp x s (Polled s)) :
    wp (do return (← x).map f) s (Polled s) := by
  rw [wp_bind]
  refine wp_mono h ?_
  intro r t hr
  match r with
  | .ok none => exact hr
  | .ok (some _) => exact hr
  | .error (.io _) => exact hr
  | .error (.panic _) => exact hr

theorem tryReadInto_polled (n : Nat) (hwf : Wf s) : wp (tryReadInto n) s (Polled s) := by
  obtain ⟨hseen, hsent⟩ := unseen_watched
  have hread : Keeps HordStream.watched Prod.snd (tryRead n) := keeps_tryRead hseen hsent.toUnseenSend n
  have howed : Keeps HordStream.watched Prod.snd (returnOwedCredits true) :=
    keeps_returnOwedCredits hsent.toUnseenSend true
  simp only [tryReadInto, wp_bind]
  refine wp_mono (wp_and (tryRead_path n hwf) (hread s)) ?_
  rintro r t ⟨hpath, hkeep⟩
  cases r with
  | ok v =>
    cases v with
    | some bs => exact ⟨hpath.1.reaches, congrArg Prod.snd hkeep, congrArg Prod.fst hkeep⟩
    | none =>
      obtain ⟨rfl, -, hopen, -⟩ := hpath
      simp only [wp_bind]
      refine wp_mono (wp_and (returnOwedCredits_path true hwf) (howed t)) ?_
      rintro r u ⟨hpath, hkeep⟩
      cases r with
      | ok _ =>
        exact ⟨hpath.reaches, congrArg Prod.snd hkeep, hopen, (congrArg Prod.fst hkeep).trans hopen⟩
      | error e =>
        cases e with
        | io _ => exact ⟨hpath.1.reaches, hkeep, hpath.2⟩
        | panic _ => exact hpath.elim
  | error e =>
    cases e with
    | io _ => exact ⟨hpath.1, hkeep, hpath.2⟩
    | panic _ => exact hpath.elim

theorem tryWriteFrom_polled (buf : Bytes) (hwf : Wf s) : wp (tryWriteFrom buf) s (Polled s) := by
  have hkeeps : Keeps HordStream.watched Prod.snd (tryWrite buf) := keeps_tryWrite unseen_watched.2 buf
  -- a closed stream refuses every write, so a write that returns left it open
  have hclosed : s.peerClosed = true → ∀ n t, tryWrite buf s ≠ .ok n t := by
    intro hc n t h
    have hfail : wp (tryWrite buf) s fun r _ => ∃ e, r = .error e := by
      simp only [tryWrite, wp_bind, wp_get, wp_ite, hc, if_true]
      exact ⟨_, rfl⟩
    obtain ⟨e, he⟩ := wp_ok hfail h
    cases he
  simp only [tryWriteFrom, wp_bind]
  cases hrun : tryWrite buf s with
  | ok n t =>
    have hopen : s.peerClosed = false := eq_false_of_ne_true fun hc => hclosed hc n t hrun
    have hpath := wp_ok (tryWrite_path buf hwf) hrun
    have hkeep := hkeeps.ok hrun
    unfold wp
    simp only [hrun]
    change Polled s (.ok (if 0 < n then some n else none)) t
    split
    · exact ⟨hpath.2.reaches, congrArg Prod.snd hkeep, congrArg Prod.fst hkeep⟩
    · exact ⟨hpath.2.reaches, congrArg Prod.snd hkeep, hopen, (congrArg Prod.fst hkeep).trans hopen⟩
  | error e t =>
    have hpath := wp_error (tryWrite_path buf hwf) hrun
    have hkeep := hkeeps.error hrun
    unfold wp
    simp only [hrun]
    cases e with
    | io _ => exact ⟨hpath.1, hkeep, hpath.2⟩
    | panic _ => exact hpath.elim

theorem pollFlushReady_polled (hwf : Wf s) : wp pollFlushReady s (Polled s) := by
  have hkeeps : Keeps HordStream.watched Prod.snd tryFlushStage := keeps_tryFlushStage unseen_watched.2
  simp only [pollFlushReady, wp_bind, wp_get, wp_ite]
  refine wp_mono (wp_and (tryFlushStage_path hwf) (hkeeps s)) ?_
  rintro r t ⟨hpath, hkeep⟩
  cases r with
  | ok clear =>
    have hcq : t.conn.cq = s.conn.cq := congrArg Prod.snd hkeep
    have hcl : t.peerClosed = s.peerClosed := congrArg Prod.fst hkeep
    show if _ then _ else _
    split
    · exact ⟨hpath.reaches, hcq, hcl⟩
    · cases ht : t.peerClosed with
      | true => exact ⟨hpath.reaches, hcq, ht⟩
      | false =>
        refine ⟨hpath.reaches, hcq, ?_, ht⟩
        rw [← hcl]
        exact ht
  | error e =>
    cases e with
    | io _ => exact ⟨hpath.1, hkeep, hpath.2⟩
    | panic _ => exact hpath.elim

theorem nextTransfer_polled : wp nextTransfer s (Polled s) := by
  have hkeeps : Keeps HordStream.watched Prod.snd nextCompletedTransfer :=
    keeps_nextCompletedTransfer fun _ _ => rfl
  simp only [nextTransfer, wp_bind]
  refine wp_mono (wp_and (nextCompletedTransfer_path s) (hkeeps s)) ?_
  rintro r t ⟨hpath, hkeep⟩
  cases r with
  | ok v =>
    cases v with
    | some id => exact ⟨hpath.1.reaches, congrArg Prod.snd hkeep, congrArg Prod.fst hkeep⟩
    | none =>
      obtain ⟨rfl, -⟩ := hpath
      simp only [wp_bind, wp_get]
      change Polled t (.ok (if t.peerClosed then some none else none)) t
      cases ht : t.peerClosed with
      | true => exact ⟨.refl t, rfl, rfl⟩
      | false => exact ⟨.refl t, rfl, ht, ht⟩
  | error _ => exact hpath.elim

theorem Poll.run_polled (a : Poll) (hwf : Wf s) : wp a.run s (Polled s) := by
  cases a with
  | read n => exact Polled.map (tryReadInto_polled n hwf)
  | write buf =>
    simp only [Poll.run, wp_ite]
    split
    · exact ⟨.refl s, rfl, rfl⟩
    · exact Polled.map (tryWriteFrom_polled buf hwf)
  | flush => exact Polled.map (pollFlushReady_polled hwf)
  | next => exact Polled.map nextTransfer_polled

/-- A poll of an open stream that is granted its posts does not fail. -/
theorem Poll.run_granted (a : Poll) (hwf : Wf s) (hg : a.Granted s) (hopen : s.peerClosed = false) :
    wp a.run s fun r _ => ∀ e, r ≠ .error (.io e) := by
  -- what follows the call, and does not fail, does not matter
  have after : ∀ {α β : Type} {x : M α} {k : α → M β} {u : HordStream},
      wp x u (Unrefused 0 0) → (∀ v t, x u = .ok v t → wp (k v) t fun r _ => ∀ e, r ≠ .error (.io e)) →
      wp (x >>= k) u fun r _ => ∀ e, r ≠ .error (.io e) := by
    intro α β x k u hx hk
    rw [wp_bind]
    unfold wp at *
    cases hrun : x u with
    | ok v t => exact hk v t hrun
    | error e t =>
      rw [hrun] at hx
      cases e with
      | io _ => exact hx.elim
      | panic _ => simp
  cases a with
  | read n =>
    obtain ⟨hread, howed⟩ := hg
    simp only [Poll.run, tryReadInto, bind_assoc]
    refine after (tryRead_unrefused n hwf hread.accepting) fun v t hrun => ?_
    cases v with
    | some bs => simp
    | none =>
      obtain ⟨rfl, hready, -, hn⟩ := wp_ok (tryRead_path n hwf) hrun
      simp only [bind_assoc]
      refine after (returnOwedCredits_unrefused (howed (Nat.ne_of_gt hn) hready).accepting) fun _ _ _ => ?_
      simp
  | write buf =>
    simp only [Poll.run, wp_ite]
    split
    · simp
    · next hbuf =>
      have hpost : s.Grants (.tryWrite buf) := hg.resolve_left fun hnil => hbuf (by rw [hnil]; rfl)
      simp only [tryWriteFrom, bind_assoc]
      refine after (tryWrite_unrefused hwf hopen buf hpost.accepting) fun n t _ => ?_
      simp
  | flush =>
    have hkeeps : Keeps HordStream.watched Prod.snd tryFlushStage := keeps_tryFlushStage unseen_watched.2
    simp only [Poll.run, pollFlushReady, bind_assoc]
    refine after (tryFlushStage_unrefused hg.accepting) fun clear t hrun => ?_
    have hcl : t.peerClosed = false := (congrArg Prod.fst ((wp_ok (hkeeps s) hrun))).trans hopen
    simp only [wp_bind, wp_get, wp_ite]
    split
    · simp
    · simp [hcl]
  | next =>
    simp only [Poll.run, nextTransfer, wp_bind]
    refine wp_mono (nextCompletedTransfer_path s) ?_
    intro r t hr
    cases r with
    | ok v =>
      cases v with
      | some id => simp
      | none => exact fun e he => by cases he
    | error _ => exact hr.elim

end Polls

/-! What the pump's own steps can do. -/

/-- The call has taken something up and will return `Ready` or an error. -/
def Pc.counted : Pc → Bool
  | .drain n => decide (0 < n)
  | .redrain n => decide (0 < n)
  | .drainWoken _ n => decide (0 < n)
  | .clear _ n => decide (0 < n)
  | .cmClear _ gone => gone
  | _ => false

/-- A reading of the CM channel that found no teardown closes nothing. -/
theorem pollCmEvent_open {s t : HordStream} {v : Res} (hrun : Act.pollCmEvent.run s = .ok v t)
    (hv : v ≠ .flag true) : t.peerClosed = s.peerClosed := by
  have hwp : wp Act.pollCmEvent.run s fun r t => ∀ v, r = .ok v → v ≠ .flag true →
      t.peerClosed = s.peerClosed := by
    simp only [Act.run, Hord.pollCmEvent, wp_bind, dev_wp, wp_ite]
    refine checkDisconnect_wp (fun fs _ => ?_) (fun fs e rest _ => ?_) (fun fs e _ => (by simp))
    · exact fun _ _ _ => rfl
    · cases e.gone with
      | true => exact fun v hv hne => absurd (Except.ok.inj hv).symm hne
      | false => exact fun _ _ _ => rfl
  exact wp_ok hwp hrun v rfl hv

section Pump
variable {r r' : Reactor} {l : Turned}

/-- The call shows nothing of its surroundings. -/
theorem advance_inner (h : r.advance = some (l, r')) : l.outer = false := by
  have drained : ∀ {more : Pc} {done : Turned × Pc}, done.1.outer = false →
      r.drainStep more done = (l, r') → l.outer = false := by
    intro more done hdone h
    obtain ⟨t, -, ⟨rfl, -⟩ | ⟨-, -, -, rfl, -⟩ | ⟨rfl, -⟩⟩ := Reactor.drainStep_cases h
    · rfl
    · exact hdone
    · rfl
  have armed : ∀ {next : Pc}, r.armStep next = (l, r') → l.outer = false := by
    intro next h
    obtain ⟨t, -, -, ⟨rfl, -⟩ | ⟨rfl, -⟩⟩ := Reactor.armStep_cases h
    · rfl
    · rfl
  unfold Reactor.advance at h
  split at h
  · cases h
  · cases h
  · exact drained (by split <;> rfl) (Option.some.inj h)
  · split at h
    · cases h; rfl
    · split at h <;> cases h <;> rfl
  · have hact := Option.some.inj h
    unfold Reactor.act at hact
    split at hact <;> cases hact <;> rfl
  · next g gone _ => cases gone <;> cases h <;> rfl
  · exact armed (Option.some.inj h)
  · exact drained (by split <;> rfl) (Option.some.inj h)
  · split at h <;> cases h <;> rfl
  · cases h; rfl
  · exact armed (Option.some.inj h)
  · exact drained (by simp only; split <;> rfl) (Option.some.inj h)
  · next g n _ => cases n <;> cases h <;> rfl

/-- A step of `poll_reactor` returns, or has taken something up, or leaves the closed
    flag and the completions as they were. -/
def Passed (r : Reactor) (l : Turned) (r' : Reactor) : Prop :=
  (l = .ready ∨ l = .failed) ∨ r'.pc.counted = true ∨
    r.pc.counted = false ∧ r'.stream.peerClosed = r.stream.peerClosed ∧
      r'.stream.conn.cq = r.stream.conn.cq

theorem Passed.drainStep {more : Pc} {done : Turned × Pc} (hmore : more.counted = true)
    (hdone : r.pc.counted = false ∨ done.1 = .ready ∨ done.2.counted = true)
    (h : r.drainStep more done = (l, r')) : Passed r l r' := by
  obtain ⟨t, -, ⟨rfl, rfl⟩ | ⟨h1, h2, hcl, rfl, rfl⟩ | ⟨rfl, rfl⟩⟩ := Reactor.drainStep_cases h
  · exact .inr (.inl hmore)
  · rcases hdone with hn | hr | hc
    · exact .inr (.inr ⟨hn, hcl, by rw [h1]; exact h2⟩)
    · exact .inl (.inl hr)
    · exact .inr (.inl hc)
  · exact .inl (.inr rfl)

theorem Passed.armStep {next : Pc} (hpc : r.pc.counted = false) (h : r.armStep next = (l, r')) :
    Passed r l r' := by
  obtain ⟨t, hcq, -, ⟨rfl, hcl, rfl⟩ | ⟨rfl, rfl⟩⟩ := Reactor.armStep_cases h
  · exact .inr (.inr ⟨hpc, hcl, hcq⟩)
  · exact .inl (.inr rfl)

theorem Passed.still (hpc : r.pc.counted = false) (h : r'.stream = r.stream) : Passed r l r' :=
  .inr (.inr ⟨hpc, by rw [h], by rw [h]⟩)

theorem Reactor.Step.passed (hs : Reactor.Step r l r') (hl : l.outer = false) (ho : l.owned = false) :
    Passed r l r' := by
  have resting : ∀ {q : Reactor}, q.resting = true → q.pc.counted = false := by
    intro q hq
    simp only [Reactor.resting, Bool.or_eq_true, decide_eq_true_eq] at hq
    rcases hq with hq | hq
    · rw [hq]; rfl
    · rw [hq]; rfl
  cases hs with
  | nic => cases hl
  | driver => cases hl
  | driverCm => cases hl
  | owner => cases ho
  | ownerErr => cases ho
  | start hpc => exact .still (resting hpc) rfl
  | refused hpc => exact .inl (.inr rfl)
  | advance _ _ hadv =>
    unfold Reactor.advance at hadv
    -- a drain that is not the last counts; a place without a drain leaves the queue and the close alone
    cases hpc : r.pc with
    | idle => simp [hpc] at hadv
    | parked => simp [hpc] at hadv
    | drain n =>
      simp only [hpc, Option.some.injEq] at hadv
      refine .drainStep (by simp [Pc.counted]) ?_ hadv
      rw [hpc]
      cases n with
      | zero => exact .inl rfl
      | succ n => exact .inr (.inl rfl)
    | redrain n =>
      simp only [hpc, Option.some.injEq] at hadv
      refine .drainStep (by simp [Pc.counted]) ?_ hadv
      rw [hpc]
      cases n with
      | zero => exact .inl rfl
      | succ n => exact .inr (.inl rfl)
    | drainWoken g n =>
      simp only [hpc, Option.some.injEq] at hadv
      refine .drainStep (by simp [Pc.counted]) ?_ hadv
      rw [hpc]
      cases n with
      | zero => exact .inl rfl
      | succ n => exact .inr (.inr (by simp [Pc.counted]))
    | arm =>
      simp only [hpc, Option.some.injEq] at hadv
      exact .armStep (by rw [hpc]; rfl) hadv
    | rearm g =>
      simp only [hpc, Option.some.injEq] at hadv
      exact .armStep (by rw [hpc]; rfl) hadv
    | cmReady =>
      simp only [hpc] at hadv
      split at hadv
      · cases hadv
        exact .still (by rw [hpc]; rfl) rfl
      · split at hadv
        · cases hadv
          exact .still (by rw [hpc]; rfl) rfl
        · cases hadv
          exact .still (by rw [hpc]; rfl) rfl
    | cmRead g =>
      simp only [hpc, Option.some.injEq, Reactor.act] at hadv
      cases hrun : Act.pollCmEvent.run r.stream with
      | error e t =>
        rw [hrun] at hadv
        cases hadv
        exact .inl (.inr rfl)
      | ok v t =>
        rw [hrun] at hadv
        cases hadv
        by_cases hv : v = .flag true
        · exact .inr (.inl (by simp [Pc.counted, hv]))
        · exact .inr (.inr ⟨by rw [hpc]; rfl, pollCmEvent_open hrun hv,
            (wp_ok (pollCmEvent_queues r.stream) hrun).1⟩)
    | cmClear g gone =>
      simp only [hpc] at hadv
      cases gone with
      | true =>
        cases hadv
        exact .inl (.inl rfl)
      | false =>
        cases hadv
        exact .still (by rw [hpc]; rfl) rfl
    | park =>
      simp only [hpc] at hadv
      split at hadv
      · cases hadv
        exact .still (by rw [hpc]; rfl) rfl
      · cases hadv
        exact .still (by rw [hpc]; rfl) rfl
    | consume g =>
      simp only [hpc] at hadv
      cases hadv
      exact .still (by rw [hpc]; rfl) rfl
    | clear g n =>
      simp only [hpc] at hadv
      cases n with
      | zero =>
        cases hadv
        exact .still (by rw [hpc]; rfl) rfl
      | succ n =>
        cases hadv
        exact .inl (.inl rfl)

end Pump

namespace Split

/-- A `wake_all` is still to come from the pump where it stands. -/
def due (u : Split) : Bool :=
  match u.pump with
  | .driving => u.reactor.pc.counted
  | .waking _ => true
  | .stopped => false

/-- The pump is running, or has been woken, or is about to be. -/
def scheduled (u : Split) : Bool :=
  decide (u.pump = .driving) && (decide (u.reactor.pc ≠ .parked) || u.reactor.woken || u.reactor.cq.edge)

/-- A handle of an open stream is polled with somebody parked and nothing on the
    completion queue only if the device refuses it nothing. -/
def Safe (u : Split) : SplitEvent → Prop
  | .polled _ a _ => u.wakers = [] ∨ u.reactor.stream.conn.cq ≠ [] ∨
      u.reactor.stream.peerClosed = true ∨ a.Granted u.reactor.stream
  | _ => True

structure Sound (config : HordConfig) (u : Split) : Prop where
  ok : Party.Ok ⟨config, u.reactor.stream, .up⟩
  assertion : ∃ late, u.reactor.Sound late
  stopped : u.pump = .stopped → u.reactor.stream.peerClosed = true ∧ u.wakers = []
  woken : u.reactor.stream.peerClosed = true →
    u.wakers = [] ∨ u.reactor.stream.conn.cq ≠ [] ∨ u.due = true

section Sound
variable {config : HordConfig} {u v : Split} {l : SplitEvent}

theorem ok_reaches {s t : HordStream} (h : Party.Ok ⟨config, s, .up⟩) (hr : Reaches s t) :
    Party.Ok ⟨config, t, .up⟩ :=
  ⟨hr.inv h.1, hr.geo.symm ▸ h.2⟩

theorem ok_reactor {r r' : Reactor} {l : Turned} (h : Party.Ok ⟨config, r.stream, .up⟩)
    (hs : Reactor.Step r l r') : Party.Ok ⟨config, r'.stream, .up⟩ := by
  obtain ⟨ms, hrun⟩ := hs.party config
  exact hrun.inv (I := Party.Ok) (fun _ _ _ hp hstep => hstep.ok hp) h

/-- The surroundings of the reactor close nothing and take no completion. -/
theorem outer_frame {r r' : Reactor} {l : Turned} (hs : Reactor.Step r l r') (hl : l.outer = true) :
    r'.stream.peerClosed = r.stream.peerClosed ∧ r'.pc = r.pc ∧
      (r.stream.conn.cq ≠ [] → r'.stream.conn.cq ≠ []) := by
  cases hs with
  | nic t landed henv hcq =>
    refine ⟨henv.closed, rfl, fun hne => ?_⟩
    show t.conn.cq ≠ []
    rw [hcq]
    simp [hne]
  | driver => exact ⟨rfl, rfl, id⟩
  | driverCm fd hfd => exact ⟨rfl, rfl, id⟩
  | owner => cases hl
  | ownerErr => cases hl
  | start => cases hl
  | refused => cases hl
  | advance _ _ hadv => exact absurd hl (by rw [advance_inner hadv]; decide)

theorem Sound.device {l : Turned} {r : Reactor} (h : u.Sound config) (hl : l.outer = true)
    (hs : Reactor.Step u.reactor l r) : Sound config { u with reactor := r } := by
  obtain ⟨hclosed, hpc, hcq⟩ := outer_frame hs hl
  obtain ⟨late, hlate⟩ := h.assertion
  refine ⟨ok_reactor h.ok hs, ⟨_, hs.sound hlate⟩, fun hst => ?_, fun hc => ?_⟩
  · exact ⟨hclosed.trans (h.stopped hst).1, (h.stopped hst).2⟩
  · have hdue : ({ u with reactor := r } : Split).due = u.due := by
      simp only [due, hpc]
    rw [hdue]
    exact (h.woken (hclosed.symm.trans hc)).imp_right fun ho => ho.imp_left hcq

theorem Sound.pumped {l : Turned} {r : Reactor} (h : u.Sound config) (hp : u.pump = .driving)
    (hl : l.outer = false) (ho : l.owned = false) (hs : Reactor.Step u.reactor l r) :
    Sound config { u with reactor := r, pump := l.pump } := by
  obtain ⟨late, hlate⟩ := h.assertion
  refine ⟨ok_reactor h.ok hs, ⟨_, hs.sound hlate⟩, fun hst => ?_, fun hc => ?_⟩
  · cases l <;> cases hst
  · rcases hs.passed hl ho with (rfl | rfl) | hcount | ⟨hcount, hclosed, hcq⟩
    · exact .inr (.inr rfl)
    · exact .inr (.inr rfl)
    · refine .inr (.inr ?_)
      -- whatever the step returns to, the pump is bound to wake everybody
      cases l <;> first | exact hcount | rfl
    · have hdue : u.due = false := by
        unfold due
        rw [hp]
        exact hcount
      rcases h.woken (hclosed.symm.trans hc) with hw | hne | hd
      · exact .inl hw
      · exact .inr (.inl (by rw [hcq]; exact hne))
      · rw [hdue] at hd
        cases hd

theorem Sound.wake {ok : Bool} (h : u.Sound config) : (u.wake ok).Sound config := by
  obtain ⟨late, hlate⟩ := h.assertion
  have hnoted : u.reactor.Noted := Reactor.SoundAt.noted hlate
  unfold Split.wake
  split
  · split
    · next hc => exact ⟨h.ok, h.assertion, fun _ => ⟨hc, rfl⟩, fun _ => .inl rfl⟩
    · exact ⟨h.ok, ⟨late, hnoted⟩, nofun, fun _ => .inl rfl⟩
  · refine ⟨ok_reaches h.ok (.single (.close u.reactor.stream)), ⟨late, ?_⟩, fun _ => ⟨rfl, rfl⟩,
      fun _ => .inl rfl⟩
    exact Reactor.SoundAt.owner hlate rfl

theorem Sound.polled (h : u.Sound config) (task : Nat) (a : Poll)
    (hsafe : u.wakers = [] ∨ u.reactor.stream.conn.cq ≠ [] ∨ u.reactor.stream.peerClosed = true ∨
      a.Granted u.reactor.stream) : (u.polled task a).2.Sound config := by
  obtain ⟨late, hlate⟩ := h.assertion
  have hwf : Wf u.reactor.stream := h.ok.1.wf
  have hpolled := a.run_polled hwf
  have settled : ∀ (t : HordStream), Reaches u.reactor.stream t →
      t.conn.cq = u.reactor.stream.conn.cq →
      (t.peerClosed = true → u.reactor.stream.peerClosed = true ∨ u.wakers = [] ∨
        u.reactor.stream.conn.cq ≠ []) →
      Sound config { u with reactor := { u.reactor with stream := t } } := by
    intro t hreach hcq hclosed
    refine ⟨ok_reaches h.ok hreach, ⟨late, Reactor.SoundAt.owner hlate hcq⟩, fun hst => ?_, fun hc => ?_⟩
    · exact ⟨hreach.stays_closed (h.stopped hst).1, (h.stopped hst).2⟩
    · rcases hclosed hc with hwas | hnone | hne
      · exact (h.woken hwas).imp_right fun ho => ho.imp_left fun hne => by
          show t.conn.cq ≠ []
          rw [hcq]
          exact hne
      · exact .inl hnone
      · refine .inr (.inl ?_)
        show t.conn.cq ≠ []
        rw [hcq]
        exact hne
  unfold Split.polled
  cases hrun : a.run u.reactor.stream with
  | ok v t =>
    have hp := wp_ok hpolled hrun
    cases v with
    | some v => exact settled t hp.1 hp.2.1 fun hc => .inl (hp.2.2.symm.trans hc)
    | none =>
      -- the handle parks, and the stream is open before and after
      obtain ⟨hreach, hcq, hopen, hopen'⟩ := hp
      refine ⟨ok_reaches h.ok hreach, ⟨late, Reactor.SoundAt.owner hlate hcq⟩, fun hst => ?_, fun hc => ?_⟩
      · have hc := (h.stopped hst).1
        rw [hopen] at hc
        cases hc
      · have hc' : t.peerClosed = true := hc
        rw [hopen'] at hc'
        cases hc'
  | error e t =>
    have hp := wp_error hpolled hrun
    refine settled t hp.1 hp.2.1 fun _ => ?_
    rcases hsafe with hnone | hne | hwas | hacc
    · exact .inr (.inl hnone)
    · exact .inr (.inr hne)
    · exact .inl hwas
    · cases hopen : u.reactor.stream.peerClosed with
      | true => exact .inl rfl
      | false =>
        match e with
        | .io e => exact absurd rfl (wp_error (a.run_granted hwf hacc hopen) hrun e)
        | .panic _ => exact hp.2.2.elim

theorem Step.sound (hs : Step u l v) (hsafe : u.Safe l) (h : u.Sound config) : v.Sound config := by
  cases hs with
  | device l r hl hstep => exact h.device hl hstep
  | pump l r hp hl ho hstep => exact h.pumped hp hl ho hstep
  | wake ok hp => exact h.wake
  | poll task a hr => exact h.polled task a hsafe
  | disconnect w t hr hrun =>
    cases hrun
    obtain ⟨late, hlate⟩ := h.assertion
    exact ⟨ok_reaches h.ok (.single (.link u.reactor.stream _ true)),
      ⟨late, Reactor.SoundAt.owner hlate rfl⟩, h.stopped, h.woken⟩

end Sound

end Split

/-- In a run in which no handle is refused a post while another is parked and nothing
    is on the completion queue: on a closed stream nobody is parked unless a completion
    is there with the pump about to run for it, or the pump is about to wake everybody;
    and no poll of a handle parks. -/
theorem split_not_parked_closed {config : HordConfig} {u₀ u : Split} {ls : List SplitEvent}
    (h₀ : u₀.Init config) (hrun : Run (fun u l v => Split.Step u l v ∧ u.Safe l) u₀ ls u)
    (hclosed : u.reactor.stream.peerClosed = true) :
    (u.wakers = [] ∨ u.reactor.stream.conn.cq ≠ [] ∧ u.scheduled = true ∨ u.due = true) ∧
      ∀ task a, (u.polled task a).1 = false := by
  obtain ⟨hinit, hnone, hdriving, hok⟩ := h₀
  have hstart : u₀.Sound config := by
    refine ⟨hok, ⟨[], ?_⟩, fun hst => ?_, fun _ => .inl hnone⟩
    · unfold Reactor.Sound
      rw [hinit.1]
      exact hinit.2
    · rw [hdriving] at hst
      cases hst
  have h := hrun.inv (I := Split.Sound config) (fun _ _ _ hu hs => hs.1.sound hs.2 hu) hstart
  constructor
  · rcases h.woken hclosed with hw | hne | hdue
    · exact .inl hw
    · cases hp : u.pump with
      | stopped => exact .inl (h.stopped hp).2
      | waking ok =>
        refine .inr (.inr ?_)
        unfold Split.due
        rw [hp]
      | driving =>
        refine .inr (.inl ⟨hne, ?_⟩)
        obtain ⟨late, hlate⟩ := h.assertion
        -- a parked pump has been woken for what is on the queue
        by_cases hpc : u.reactor.pc = .parked
        · unfold Reactor.Sound at hlate
          rw [hpc] at hlate
          obtain ⟨-, -, -, -, hcq⟩ := hlate
          rcases hcq hne with he | hwoken
          · simp [Split.scheduled, hp, he]
          · simp [Split.scheduled, hp, hwoken]
        · simp [Split.scheduled, hp, hpc]
    · exact .inr (.inr hdue)
  · intro task a
    unfold Split.polled
    cases hr : a.run u.reactor.stream with
    | ok v t =>
      cases v with
      | some v => rfl
      | none =>
        have hopen : u.reactor.stream.peerClosed = false := (wp_ok (a.run_polled h.ok.1.wf) hr).2.2.1
        rw [hclosed] at hopen
        cases hopen
    | error e t => rfl

/-! Runs that can be computed. -/

/-- One turn, as a script names it. -/
inductive Nudge where
  | poke (c : Poke)
  | wake
  | poll (task : Nat) (a : Poll)

def Split.exec (u : Split) : Nudge → Option (SplitEvent × Split)
  | .poke c =>
    match u.reactor.exec c with
    | none => none
    | some (l, r) =>
      if l.outer then some (.device l, { u with reactor := r })
      else if u.pump = .driving ∧ l.owned = false then
        some (.pumped l, { u with reactor := r, pump := l.pump })
      else none
  | .wake =>
    match u.pump with
    | .waking ok => some (.woke u.wakers, u.wake ok)
    | _ => none
  | .poll task a =>
    if u.resting then some (.polled task a (u.polled task a).1, (u.polled task a).2) else none

theorem Split.exec_step {u v : Split} {c : Nudge} {l : SplitEvent} (h : u.exec c = some (l, v)) :
    Split.Step u l v := by
  cases c with
  | poke c =>
    simp only [Split.exec] at h
    split at h
    · cases h
    · next k r hr =>
      have hs := Reactor.exec_step hr
      split at h
      · next hl =>
        cases h
        exact .device u k r hl hs
      · next hl =>
        split at h
        · next hp =>
          cases h
          exact .pump u k r hp.1 (eq_false_of_ne_true hl) hp.2 hs
        · cases h
  | wake =>
    simp only [Split.exec] at h
    split at h
    · next ok hp =>
      cases h
      exact .wake u ok hp
    · cases h
  | poll task a =>
    simp only [Split.exec] at h
    split at h
    · next hr =>
      cases h
      exact .poll u task a hr
    · cases h

instance (u : Split) (l : SplitEvent) : Decidable (u.Safe l) :=
  match l with
  | .polled _ _ _ => inferInstanceAs (Decidable (_ ∨ _ ∨ _ ∨ _))
  | .device _ => .isTrue trivial
  | .pumped _ => .isTrue trivial
  | .woke _ => .isTrue trivial
  | .disconnected => .isTrue trivial

/-- Carry a script out, as long as `guard` allows every step. -/
def Split.script (guard : Split → SplitEvent → Bool) (u : Split) :
    List Nudge → Option (List SplitEvent × Split)
  | [] => some ([], u)
  | c :: cs =>
    match u.exec c with
    | none => none
    | some (l, v) =>
      if guard u l then (v.script guard cs).map fun (ls, w) => (l :: ls, w) else none

theorem Split.script_run {guard : Split → SplitEvent → Bool} (cs : List Nudge) {u w : Split}
    {ls : List SplitEvent} (h : u.script guard cs = some (ls, w)) :
    Run (fun u l v => Split.Step u l v ∧ guard u l = true) u ls w := by
  induction cs generalizing u ls with
  | nil =>
    cases h
    exact .nil _
  | cons c cs ih =>
    simp only [Split.script] at h
    split at h
    · cases h
    · next l v hv =>
      split at h
      · next hg =>
        simp only [Option.map_eq_some_iff] at h
        obtain ⟨⟨ms, x⟩, hms, heq⟩ := h
        cases heq
        exact .cons ⟨Split.exec_step hv, hg⟩ (ih hms)
      · cases h

/-- `into_split` of a stream with its fds just registered. -/
def Split.into (s : HordStream) : Split := ⟨Reactor.wrap s, [], .driving⟩

theorem Split.launch_run (guard : Split → SplitEvent → Bool) (cs : List Nudge) (good : Split → Bool)
    (h : (Party.launch (fun _ _ => true) tinyConfig tinySetup).any (fun q =>
      decide (q.phase = .up) && ((Split.into q.stream).script guard cs).any fun o => good o.2) = true) :
    ∃ p ms q ls u, p.Init ∧ Run Party.Step p ms q ∧ q.phase = .up ∧
      Run (fun u l v => Split.Step u l v ∧ guard u l = true) (Split.into q.stream) ls u ∧
      good u = true := by
  obtain ⟨p, ms, q, hinit, hrun, hq⟩ := Party.launch_run (fun _ _ => true) tinyConfig tinySetup _ h
  rw [Bool.and_eq_true, decide_eq_true_eq] at hq
  obtain ⟨hup, hscript⟩ := hq
  cases hs : (Split.into q.stream).script guard cs with
  | none => rw [hs] at hscript; cases hscript
  | some o =>
    rw [hs] at hscript
    exact ⟨p, ms, q, o.1, o.2, hinit, hrun.mono fun _ _ _ hp => hp.1, hup,
      Split.script_run cs hs, hscript⟩

theorem Split.into_init {p q : Party} {ms : List Move} (hinit : p.Init) (hrun : Run Party.Step p ms q)
    (hup : q.phase = .up) : (Split.into q.stream).Init q.config := by
  have hok : q.Ok := hrun.inv (I := Party.Ok) (fun _ _ _ hp hs => hs.ok hp) hinit.ok
  refine ⟨Reactor.wrap_init q.stream, rfl, rfl, ?_⟩
  rw [← hup]
  exact hok

/-- The pump's first call: it drains nothing and parks. -/
def pumpParks : List Nudge :=
  [.poke .start, .poke .step, .poke .step, .poke .step, .poke .step, .poke .step]

/-- A reader parks; then the peer disconnects, the pump runs and wakes it. -/
theorem split_not_parked_closed_reader : ∃ p ms q ls u, p.Init ∧ Run Party.Step p ms q ∧
    q.phase = .up ∧ Run (fun u l v => Split.Step u l v ∧ u.Safe l) (Split.into q.stream) ls u ∧
    u.wakers = [1] ∧ u.reactor.stream.peerClosed = true ∧ u.due = true := by
  obtain ⟨p, ms, q, ls, u, hinit, hrun, hup, hsplit, hgood⟩ := Split.launch_run
    (fun u l => decide (u.Safe l))
    (pumpParks ++ [.poll 1 (.read 4), .poke (.nic (.cm .disconnected)), .poke .driverCm,
      .poke .start, .poke .step, .poke .step, .poke .step])
    (fun u => decide (u.wakers = [1]) && u.reactor.stream.peerClosed && u.reactor.stream.conn.cq.isEmpty)
    (by decide +kernel)
  simp only [Bool.and_eq_true, decide_eq_true_eq, List.isEmpty_iff] at hgood
  obtain ⟨⟨hwakers, hclosed⟩, hcq⟩ := hgood
  have hsafe : Run (fun u l v => Split.Step u l v ∧ u.Safe l) (Split.into q.stream) ls u :=
    hsplit.mono fun _ _ _ hs => ⟨hs.1, of_decide_eq_true hs.2⟩
  have h := (split_not_parked_closed (Split.into_init hinit hrun hup) hsafe hclosed).1
  rw [hwakers, hcq] at h
  refine ⟨p, ms, q, ls, u, hinit, hrun, hup, hsafe, hwakers, hclosed, ?_⟩
  rcases h with h | h | h
  · cases h
  · exact absurd rfl h.1
  · exact h

/-- A reader parks; the writer's post is refused, which closes the stream under the
    reader, and nothing is there to run the pump. -/
theorem reader_left_parked : ¬∀ (p : Party) (ms : List Move) (q : Party) (ls : List SplitEvent)
    (u : Split), p.Init → Run Party.Step p ms q → q.phase = .up →
    Run Split.Step (Split.into q.stream) ls u → u.reactor.stream.peerClosed = true →
    u.wakers = [] ∨ u.reactor.stream.conn.cq ≠ [] ∨ u.reactor.stream.conn.cmq ≠ [] ∨
      u.scheduled = true ∨ u.due = true := by
  intro h
  obtain ⟨p, ms, q, ls, u, hinit, hrun, hup, hsplit, hgood⟩ := Split.launch_run (fun _ _ => true)
    (pumpParks ++ [.poll 1 (.read 4), .poke (.nic (.oracle [true])), .poll 2 (.write (List.replicate 8 7))])
    (fun u => decide (u.wakers = [1]) && u.reactor.stream.peerClosed && u.reactor.stream.conn.cq.isEmpty &&
      u.reactor.stream.conn.cmq.isEmpty && !u.scheduled && !u.due)
    (by decide +kernel)
  simp only [Bool.and_eq_true, decide_eq_true_eq, List.isEmpty_iff, Bool.not_eq_true'] at hgood
  obtain ⟨⟨⟨⟨⟨hwakers, hclosed⟩, hcq⟩, hcmq⟩, hsched⟩, hdue⟩ := hgood
  have hor := h p ms q ls u hinit hrun hup (hsplit.mono fun _ _ _ hs => hs.1) hclosed
  rw [hwakers, hcq, hcmq, hsched, hdue] at hor
  simp at hor

end Hord
