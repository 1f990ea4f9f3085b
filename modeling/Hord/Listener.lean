import Hord.Conservation
import Mathlib.Data.List.AList

/- One worker of the listener (`hord-async/src/listener.rs`): it spawns a task for
   every accepted connection, keeps a handle to each task's connection, and at the
   end waits for the tasks, for a bounded time, before it drops them. A task that is
   dropped mid-way frees memory its connection may still be reading, so every
   connection still in use must have been torn down by then.

   Correspondence (Rust ↔ Lean):
     `HordStream::accept_prepare`             ↔ `acceptPrepare`
     `reap_one` / `reap_finished`             ↔ `reapOne` / `reapFinished`
     the body of `worker_loop`'s accept loop  ↔ `Worker.accept`
     `tasks.join_next_with_id` and `reap_one` ↔ the step `join`
     the grace timeout                        ↔ `Worker.timeout`
     `JoinSet`, `HashMap<Id, ConnTeardown>`   ↔ `tasks`, `teardowns`
   A `ConnTeardown` is the connection it shares, named by the order of acceptance.
   The worker and its tasks share one thread: from one `await` of the worker to the
   next no task runs, so what lies between two of them is one step. A task id is
   unique among the tasks that are running. The CM transitions of `accept_prepare`
   are a parameter, they succeed or not; a panic in it ends the worker. -/
namespace Hord

open Prog Transition

/-- How a finished task ended. -/
inductive Outcome where
  | done
  | panicked
  deriving DecidableEq, Repr

/-- A connection task; before its endpoint is up it is inside `accept_async`. -/
structure Task where
  id : Nat
  conn : Nat
  party : Party
  finished : Option Outcome

/-- The connection of each task, keyed by task id. -/
abbrev Teardowns := AList fun _ : Nat => Nat

inductive WorkerPc where
  | accepting
  | draining
  | dropped
  deriving DecidableEq, Repr

structure Worker where
  config : HordConfig
  tasks : List Task
  teardowns : Teardowns
  accepted : Nat
  pc : WorkerPc

def Worker.new (config : HordConfig) : Worker where
  config := config
  tasks := []
  teardowns := ∅
  accepted := 0
  pc := .accepting

def acceptPrepare (conn : Connection) (config : HordConfig) (begun : Except IoError Unit) :
    Except Fail HordStream :=
  match newCommon conn config with
  | .error e => .error e
  | .ok s =>
    match begun with
    | .ok () => .ok s
    | .error e => .error (.io e)

/-- Drop the handle of a finished task, whether it returned or panicked. -/
def reapOne (id : Nat) (res : Outcome) (teardowns : Teardowns) : Teardowns :=
  match res with
  | .done => teardowns.erase id
  | .panicked => teardowns.erase id

/-- Join every task that has finished. -/
def reapFinished : List Task → Teardowns → List Task × Teardowns
  | [], m => ([], m)
  | t :: ts, m =>
    match t.finished with
    | some res => reapFinished ts (reapOne t.id res m)
    | none =>
      let (ts', m') := reapFinished ts m
      (t :: ts', m')

/-- Accept one connection: reap, prepare, and spawn a task with id `id` whose handle
    goes into the map; a connection that cannot be prepared is dropped. -/
def Worker.accept (w : Worker) (conn : Connection) (begun : Except IoError Unit) (id : Nat) :
    Option Worker :=
  let (tasks, teardowns) := reapFinished w.tasks w.teardowns
  match acceptPrepare conn w.config begun with
  | .error (.panic _) => none
  | .error (.io _) =>
    some { w with tasks := tasks, teardowns := teardowns, accepted := w.accepted + 1 }
  | .ok s =>
    some { w with
      tasks := tasks ++ [⟨id, w.accepted, ⟨w.config, s, .fresh⟩, none⟩]
      teardowns := teardowns.insert id w.accepted
      accepted := w.accepted + 1 }

/-- `ConnTeardown::force_teardown`: destroy the connection's QP. -/
def forceTeardown (s : HordStream) : HordStream :=
  match dev Connection.shutdown s with
  | .ok _ t => t
  | .error _ t => t

/-- Tear the connection `conn` down, wherever it is in use. -/
def Task.tornDown (conn : Nat) (t : Task) : Task :=
  if t.conn = conn then { t with party := { t.party with stream := forceTeardown t.party.stream } }
  else t

/-- The grace time is over: every handle in the map is torn down, the set of tasks
    is about to be dropped. -/
def Worker.timeout (w : Worker) : Worker :=
  { w with
    tasks := w.teardowns.entries.foldl (fun ts e => ts.map (Task.tornDown e.2)) w.tasks
    pc := .dropped }

inductive WorkerEvent where
  | ran (id : Nat)
  | finished (id : Nat) (res : Outcome)
  | accepted
  | closed
  | joined (id : Nat)
  | drained
  | timedOut

inductive Worker.Step : Worker → WorkerEvent → Worker → Prop
  /-- A task runs while the worker waits: its endpoint makes a move. -/
  | run (w : Worker) (ls rs : List Task) (t : Task) (m : Move) (p : Party) (hpc : w.pc ≠ .dropped)
      (h : w.tasks = ls ++ t :: rs) (hlive : t.finished = none) (hp : Party.Step t.party m p) :
      Worker.Step w (.ran t.id) { w with tasks := ls ++ { t with party := p } :: rs }
  | finish (w : Worker) (ls rs : List Task) (t : Task) (res : Outcome) (hpc : w.pc ≠ .dropped)
      (h : w.tasks = ls ++ t :: rs) (hlive : t.finished = none) :
      Worker.Step w (.finished t.id res) { w with tasks := ls ++ { t with finished := some res } :: rs }
  | accept (w w' : Worker) (conn : Connection) (begun : Except IoError Unit) (id : Nat)
      (hpc : w.pc = .accepting) (hid : ∀ t ∈ w.tasks, t.finished = none → t.id ≠ id)
      (h : w.accept conn begun id = some w') : Worker.Step w .accepted w'
  /-- The acceptor closed the channel. -/
  | close (w : Worker) (hpc : w.pc = .accepting) :
      Worker.Step w .closed { w with pc := .draining }
  | join (w : Worker) (ls rs : List Task) (t : Task) (res : Outcome) (hpc : w.pc = .draining)
      (h : w.tasks = ls ++ t :: rs) (hdone : t.finished = some res) :
      Worker.Step w (.joined t.id)
        { w with tasks := ls ++ rs, teardowns := reapOne t.id res w.teardowns }
  | drained (w : Worker) (hpc : w.pc = .draining) (h : w.tasks = []) :
      Worker.Step w .drained { w with pc := .dropped }
  | timeout (w : Worker) (hpc : w.pc = .draining) : Worker.Step w .timedOut w.timeout

/-! The map covers every running task. -/

/-- Every running task has its connection in the map under its own id, and no two
    tasks of the set share an id. -/
structure Worker.Covered (w : Worker) : Prop where
  ids : (w.tasks.map Task.id).Nodup
  entry : ∀ t ∈ w.tasks, t.finished = none → w.teardowns.lookup t.id = some t.conn

theorem reapOne_lookup {id other : Nat} (res : Outcome) (m : Teardowns) (h : other ≠ id) :
    (reapOne id res m).lookup other = m.lookup other := by
  cases res with
  | done => exact AList.lookup_erase_ne h
  | panicked => exact AList.lookup_erase_ne h

/-- Reaping leaves the running tasks, and the entry of every id no finished task had. -/
theorem reapFinished_spec (ts : List Task) (m : Teardowns) :
    (reapFinished ts m).1 = ts.filter (fun t => t.finished.isNone) ∧
      ∀ id, (∀ t ∈ ts, t.finished ≠ none → t.id ≠ id) →
        (reapFinished ts m).2.lookup id = m.lookup id := by
  induction ts generalizing m with
  | nil => exact ⟨rfl, fun _ _ => rfl⟩
  | cons t ts ih =>
    cases hf : t.finished with
    | some res =>
      obtain ⟨hts, hmap⟩ := ih (reapOne t.id res m)
      simp only [reapFinished, hf]
      refine ⟨?_, fun id hid => ?_⟩
      · rw [hts]
        simp [hf]
      · have hne : t.id ≠ id := hid t (by simp) (by simp [hf])
        calc (reapFinished ts (reapOne t.id res m)).2.lookup id
            = (reapOne t.id res m).lookup id := hmap id fun u hu => hid u (by simp [hu])
          _ = m.lookup id := reapOne_lookup res m hne.symm
    | none =>
      obtain ⟨hts, hmap⟩ := ih m
      simp only [reapFinished, hf]
      refine ⟨?_, fun id hid => hmap id fun u hu => hid u (by simp [hu])⟩
      rw [hts]
      simp [hf]

section Step
variable {w w' : Worker}

/-- In a set without repeated ids, what identifies the tasks by position does so by id. -/
theorem Worker.Covered.others (h : w.Covered) {ls rs : List Task} {t : Task}
    (htasks : w.tasks = ls ++ t :: rs) : ∀ u ∈ ls ++ rs, u.id ≠ t.id := by
  intro u hu heq
  have hids := h.ids
  rw [htasks, List.map_append, List.map_cons, List.nodup_middle] at hids
  have hmem : t.id ∈ ls.map Task.id ++ rs.map Task.id := by
    rw [← List.map_append, ← heq]
    exact List.mem_map_of_mem hu
  exact (List.nodup_cons.mp hids).1 hmem

/-- Changing one task in place, but not its id or connection. -/
theorem Worker.Covered.replace (h : w.Covered) {ls rs : List Task} {t u : Task}
    (htasks : w.tasks = ls ++ t :: rs) (hid : u.id = t.id) (hconn : u.conn = t.conn)
    (hlive : u.finished = none → t.finished = none) :
    Worker.Covered { w with tasks := ls ++ u :: rs } := by
  have hids := h.ids
  have hentry := h.entry
  rw [htasks] at hids hentry
  constructor
  · simpa [hid] using hids
  · intro v hv hf
    simp only [List.mem_append, List.mem_cons] at hv
    rcases hv with hv | rfl | hv
    · exact hentry v (by simp [hv]) hf
    · rw [hid, hconn]
      exact hentry t (by simp) (hlive hf)
    · exact hentry v (by simp [hv]) hf

/-- Joining a finished task takes its own entry only. -/
theorem Worker.Covered.join (h : w.Covered) {ls rs : List Task} {t : Task} {res : Outcome}
    (htasks : w.tasks = ls ++ t :: rs) :
    Worker.Covered { w with tasks := ls ++ rs, teardowns := reapOne t.id res w.teardowns } := by
  have hne := h.others htasks
  have hids := h.ids
  constructor
  · rw [htasks, List.map_append, List.map_cons, List.nodup_middle, ← List.map_append] at hids
    exact (List.nodup_cons.mp hids).2
  · intro u hu hf
    have hmem : u ∈ w.tasks := by
      rw [htasks]
      simp only [List.mem_append, List.mem_cons] at hu ⊢
      tauto
    calc (reapOne t.id res w.teardowns).lookup u.id
        = w.teardowns.lookup u.id := reapOne_lookup res _ (hne u hu)
      _ = some u.conn := h.entry u hmem hf

/-- The lazy reap before an accept. -/
theorem Worker.Covered.reap (h : w.Covered) :
    Worker.Covered { w with tasks := (reapFinished w.tasks w.teardowns).1
                            teardowns := (reapFinished w.tasks w.teardowns).2 } ∧
      ∀ t ∈ (reapFinished w.tasks w.teardowns).1, t ∈ w.tasks ∧ t.finished = none := by
  obtain ⟨hts, hmap⟩ := reapFinished_spec w.tasks w.teardowns
  have hrun : ∀ t ∈ (reapFinished w.tasks w.teardowns).1, t ∈ w.tasks ∧ t.finished = none := by
    intro t ht
    rw [hts, List.mem_filter] at ht
    exact ⟨ht.1, Option.isNone_iff_eq_none.mp ht.2⟩
  refine ⟨⟨?_, fun t ht hf => ?_⟩, hrun⟩
  · simp only [hts]
    exact h.ids.sublist (List.filter_sublist.map Task.id)
  · obtain ⟨hmem, hlive⟩ := hrun t ht
    refine (hmap t.id fun u hu hfin heq => ?_).trans (h.entry t hmem hlive)
    -- a finished task with the same id would be the same task
    have hsame : u = t := List.inj_on_of_nodup_map h.ids hu hmem heq
    rw [hsame] at hfin
    exact hfin hlive

/-- A new task takes an id that no running task has, and by then no finished task is
    left to be reaped under it. -/
theorem Worker.Covered.accept (h : w.Covered) {conn : Connection} {begun : Except IoError Unit}
    {id : Nat} (hid : ∀ t ∈ w.tasks, t.finished = none → t.id ≠ id)
    (hacc : w.accept conn begun id = some w') : w'.Covered := by
  obtain ⟨hreap, hrun⟩ := h.reap
  unfold Worker.accept at hacc
  cases hprep : acceptPrepare conn w.config begun with
  | error e =>
    cases e with
    | panic m => simp [hprep] at hacc
    | io e =>
      simp only [hprep, Option.some.injEq] at hacc
      subst hacc
      exact ⟨hreap.ids, hreap.entry⟩
  | ok s =>
    simp only [hprep, Option.some.injEq] at hacc
    subst hacc
    have hfresh : ∀ t ∈ (reapFinished w.tasks w.teardowns).1, t.id ≠ id := fun t ht =>
      hid t (hrun t ht).1 (hrun t ht).2
    constructor
    · simp only [List.map_append, List.map_cons, List.map_nil]
      refine List.nodup_append.mpr ⟨hreap.ids, by simp, fun a ha b hb => ?_⟩
      obtain ⟨t, ht, rfl⟩ := List.mem_map.mp ha
      rw [List.mem_singleton.mp hb]
      exact hfresh t ht
    · intro t ht hf
      rcases List.mem_append.mp ht with ht | ht
      · calc ((reapFinished w.tasks w.teardowns).2.insert id w.accepted).lookup t.id
            = (reapFinished w.tasks w.teardowns).2.lookup t.id := AList.lookup_insert_ne (hfresh t ht)
          _ = some t.conn := hreap.entry t ht hf
      · rw [List.mem_singleton.mp ht]
        exact AList.lookup_insert _

/-! Tearing down. -/

theorem tornDown_id (conn : Nat) (t : Task) : (t.tornDown conn).id = t.id ∧
    (t.tornDown conn).conn = t.conn ∧ (t.tornDown conn).finished = t.finished := by
  unfold Task.tornDown
  split
  · exact ⟨rfl, rfl, rfl⟩
  · exact ⟨rfl, rfl, rfl⟩

theorem tornDown_qp {conn : Nat} {t : Task} (h : t.conn = conn ∨ t.party.stream.conn.qp = false) :
    (t.tornDown conn).party.stream.conn.qp = false := by
  unfold Task.tornDown
  split
  · rfl
  · next hne => exact h.resolve_left hne

/-- After the handles `es` have been torn down, a task whose connection is among
    them, or was down before, has no QP; ids, connections and states are as before. -/
theorem tornDown_all (es : List (Sigma fun _ : Nat => Nat)) (ts : List Task) :
    ∀ u ∈ es.foldl (fun ts e => ts.map (Task.tornDown e.2)) ts, ∃ t ∈ ts,
      u.id = t.id ∧ u.conn = t.conn ∧ u.finished = t.finished ∧
      ((∃ e ∈ es, e.2 = t.conn) ∨ t.party.stream.conn.qp = false → u.party.stream.conn.qp = false) := by
  induction es generalizing ts with
  | nil =>
    intro u hu
    refine ⟨u, hu, rfl, rfl, rfl, fun h => h.resolve_left ?_⟩
    simp
  | cons e es ih =>
    intro u hu
    obtain ⟨v, hv, hid, hconn, hfin, hqp⟩ := ih _ u hu
    obtain ⟨t, ht, rfl⟩ := List.mem_map.mp hv
    obtain ⟨hid', hconn', hfin'⟩ := tornDown_id e.2 t
    refine ⟨t, ht, hid.trans hid', hconn.trans hconn', hfin.trans hfin', fun h => hqp ?_⟩
    rw [hconn']
    rcases h with ⟨f, hf, hc⟩ | hdown
    · rcases List.mem_cons.mp hf with rfl | hf
      · exact .inr (tornDown_qp (.inl hc.symm))
      · exact .inl ⟨f, hf, hc⟩
    · exact .inr (tornDown_qp (.inr hdown))

theorem map_tornDown_ids (es : List (Sigma fun _ : Nat => Nat)) (ts : List Task) :
    (es.foldl (fun ts e => ts.map (Task.tornDown e.2)) ts).map Task.id = ts.map Task.id := by
  induction es generalizing ts with
  | nil => rfl
  | cons e es ih =>
    calc (es.foldl _ (ts.map (Task.tornDown e.2))).map Task.id
        = (ts.map (Task.tornDown e.2)).map Task.id := ih _
      _ = ts.map (Task.id ∘ Task.tornDown e.2) := List.map_map
      _ = ts.map Task.id := by
        congr 1
        funext t
        exact (tornDown_id e.2 t).1

theorem Worker.Covered.timeout (h : w.Covered) : w.timeout.Covered ∧
    ∀ t ∈ w.timeout.tasks, t.finished = none → t.party.stream.conn.qp = false := by
  have hall := tornDown_all w.teardowns.entries w.tasks
  refine ⟨⟨?_, fun u hu hf => ?_⟩, fun u hu hf => ?_⟩
  · simp only [Worker.timeout, map_tornDown_ids]
    exact h.ids
  · obtain ⟨t, ht, hid, hconn, hfin, -⟩ := hall u hu
    rw [hid, hconn]
    exact h.entry t ht (hfin ▸ hf)
  · obtain ⟨t, ht, hid, hconn, hfin, hqp⟩ := hall u hu
    have hentry := h.entry t ht (hfin ▸ hf)
    exact hqp (.inl ⟨⟨t.id, t.conn⟩, AList.mem_lookup_iff.mp hentry, rfl⟩)

/-- Covered, and after the drop no running task is left with a QP. -/
structure Worker.Sound (w : Worker) : Prop where
  covered : w.Covered
  quiesced : w.pc = .dropped → ∀ t ∈ w.tasks, t.finished = none → t.party.stream.conn.qp = false

theorem Worker.Step.sound {l : WorkerEvent} (hs : Worker.Step w l w') (h : w.Sound) : w'.Sound := by
  obtain ⟨hcov, -⟩ := h
  cases hs with
  | run ls rs t m p hpc htasks hlive hp =>
    exact ⟨hcov.replace htasks rfl rfl fun _ => hlive, fun hd => absurd hd hpc⟩
  | finish ls rs t res hpc htasks hlive =>
    exact ⟨hcov.replace htasks rfl rfl nofun, fun hd => absurd hd hpc⟩
  | accept _ conn begun id hpc hid hacc =>
    refine ⟨hcov.accept hid hacc, fun hd => ?_⟩
    have hsame : w'.pc = w.pc := by
      unfold Worker.accept at hacc
      split at hacc
      split at hacc
      · cases hacc
      · cases hacc; rfl
      · cases hacc; rfl
    rw [hsame, hpc] at hd
    cases hd
  | close hpc => exact ⟨⟨hcov.ids, hcov.entry⟩, nofun⟩
  | join ls rs t res hpc htasks hdone =>
    refine ⟨hcov.join htasks, fun hd => ?_⟩
    rw [show w.pc = .dropped from hd] at hpc
    cases hpc
  | drained hpc hnone =>
    refine ⟨⟨hcov.ids, hcov.entry⟩, fun _ t ht => ?_⟩
    rw [show w.tasks = [] from hnone] at ht
    cases ht
  | timeout hpc => exact ⟨hcov.timeout.1, fun _ => hcov.timeout.2⟩

end Step

/-- At every point of a worker's life the map has the connection of every spawned
    task that has not finished, and when the tasks are dropped no such task has a
    connection with a live QP, whatever stage it is in. -/
theorem no_task_dropped_live {config : HordConfig} {w : Worker} {ls : List WorkerEvent}
    (hrun : Run Worker.Step (Worker.new config) ls w) :
    (∀ t ∈ w.tasks, t.finished = none → w.teardowns.lookup t.id = some t.conn) ∧
      (w.pc = .dropped → ∀ t ∈ w.tasks, t.finished = none → t.party.stream.conn.qp = false) := by
  have hnone : ∀ t ∈ (Worker.new config).tasks, False := fun _ ht => List.not_mem_nil ht
  have hstart : (Worker.new config).Sound :=
    ⟨⟨List.nodup_nil, fun t ht => (hnone t ht).elim⟩, fun _ t ht => (hnone t ht).elim⟩
  have h := hrun.inv (I := Worker.Sound) (fun _ _ _ hw hs => hs.sound hw) hstart
  exact ⟨h.covered.entry, h.quiesced⟩

/-- A task is spawned, another connection is refused, the channel closes, and the
    grace time runs out with the task inside its handshake. -/
theorem no_task_dropped_live_handshake : ∃ ls w t, Run Worker.Step (Worker.new tinyConfig) ls w ∧
    w.pc = .dropped ∧ w.tasks = [t] ∧ t.party.phase = .fresh ∧ t.finished = none ∧
    t.party.stream.conn.qp = false := by
  have hbuilt : (newCommon (Connection.new 1) tinyConfig).toOption.isSome = true := by decide +kernel
  cases hnew : newCommon (Connection.new 1) tinyConfig with
  | error e =>
    rw [hnew] at hbuilt
    cases hbuilt
  | ok s =>
    let t : Task := ⟨7, 0, ⟨tinyConfig, s, .fresh⟩, none⟩
    let w : Worker := ⟨tinyConfig, [t], (∅ : Teardowns).insert 7 0, 1, .accepting⟩
    have hspawn : (Worker.new tinyConfig).accept (Connection.new 1) (.ok ()) 7 = some w := by
      simp [Worker.accept, Worker.new, reapFinished, acceptPrepare, hnew, w, t]
    have hrefuse : w.accept (Connection.new 1) (.error ⟨.other, "rdma_accept failed"⟩) 8 =
        some { w with accepted := 2 } := by
      simp [Worker.accept, reapFinished, acceptPrepare, hnew, w, t]
    have hrun : Run Worker.Step (Worker.new tinyConfig) [.accepted, .accepted, .closed, .timedOut]
        (Worker.timeout { w with accepted := 2, pc := .draining }) := by
      refine .cons (.accept _ _ _ _ 7 rfl (fun _ ht => ?_) hspawn) ?_
      · exact (List.not_mem_nil ht).elim
      refine .cons (.accept _ _ _ _ 8 rfl (fun u hu _ => ?_) hrefuse) ?_
      · rw [List.mem_singleton.mp hu]
        exact (by decide : (7 : Nat) ≠ 8)
      exact .cons (.close _ rfl) (.single (.timeout _ rfl))
    have hdropped := (no_task_dropped_live hrun).2 rfl
    have htasks : (Worker.timeout { w with accepted := 2, pc := .draining }).tasks =
        [t.tornDown 0] := rfl
    exact ⟨_, _, t.tornDown 0, hrun, rfl, htasks, rfl, rfl,
      hdropped _ (by rw [htasks]; exact List.mem_singleton.mpr rfl) rfl⟩

end Hord
