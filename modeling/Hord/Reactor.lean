import Hord.Conservation
import Hord.Lib.Readiness

/- The async reactor (`poll_reactor` and `poll_cm_event` of hord-async): one call
   drains the completion queue, looks for a peer disconnect, arms the queue, drains
   again and parks on the completion channel. The NIC, the event loop's driver and
   the call take turns in any order; the call is cut wherever one of the others can
   be seen to act, and `Pc` says where it stands.

   Correspondence (Rust ↔ Lean):
     `poll_reactor`, steps 1 to 4            ↔ `Reactor.advance` from `drain 0` on
     `poll_cm_event`                         ↔ the counters `cmReady`, `cmRead`, `cmClear`
     `arm_cq` / `consume_cq_events`          ↔ `Reactor.armStep` / the counter `consume`
     the completion channel's events         ↔ `events`, of which the first after `armed`
                                                makes the channel's fd readable
     a return of `poll_reactor`              ↔ `ready`, `failed`, `pending`
     `poll_cm_event` returning `Ok(false)`   ↔ `quiet`

   `arm_cq` asks for one notification: the next completion queues an event on the
   channel and disarms it. The channel's fd signals only when it becomes readable,
   the CM fd whenever an event is queued. -/
namespace Hord

open Prog Transition Readiness

/-- Where a call of `poll_reactor` stands; between calls the task is `idle`, or
    `parked` after a call that returned `Pending`. A guard is named by its tick, a
    drain by what it has counted. -/
inductive Pc where
  | idle
  | parked
  | drain (n : Nat)
  | cmReady
  | cmRead (guard : Nat)
  | cmClear (guard : Nat) (gone : Bool)
  | arm
  | redrain (n : Nat)
  | park
  | consume (guard : Nat)
  | rearm (guard : Nat)
  | drainWoken (guard n : Nat)
  | clear (guard n : Nat)
  deriving DecidableEq, Repr

structure Reactor where
  stream : HordStream
  armed : Bool
  events : Nat
  cq : AsyncFd
  cm : Option AsyncFd
  woken : Bool
  pc : Pc
  deriving DecidableEq

/-- What a step shows. -/
inductive Turned where
  | nic (landed : List Completion)
  | driver
  | owner (a : Act)
  | start
  | call
  | empty
  | quiet
  | ready
  | failed
  | pending
  deriving DecidableEq

namespace Reactor

/-- A call of the stream made by the reactor; `?` returns its error. -/
def act (r : Reactor) (a : Act) (k : Res → Turned × Pc) : Turned × Reactor :=
  match a.run r.stream with
  | .ok v t => ((k v).1, { r with stream := t, pc := (k v).2 })
  | .error _ t => (.failed, { r with stream := t, pc := .idle })

/-- One round of `drain_completions`. -/
def drainStep (r : Reactor) (more : Pc) (done : Turned × Pc) : Turned × Reactor :=
  r.act .pump fun v => if v = .flag true then (.call, more) else done

def armStep (r : Reactor) (next : Pc) : Turned × Reactor :=
  match Act.armCq.run r.stream with
  | .ok _ t => (.call, { r with stream := t, armed := true, pc := next })
  | .error _ t => (.failed, { r with stream := t, pc := .idle })

/-- The next step of the call. Reading a CM event marks the stream closed at once
    where the source clears the guard first: nobody looks at the flag in between. -/
def advance (r : Reactor) : Option (Turned × Reactor) :=
  match r.pc with
  | .idle => none
  | .parked => none
  | .drain n =>
    some (r.drainStep (.drain (n + 1)) (if n = 0 then (.empty, .cmReady) else (.ready, .idle)))
  | .cmReady =>
    match r.cm with
    | none => some (.quiet, { r with pc := .arm })
    | some fd =>
      match fd.pollReadReady with
      | (some guard, fd) => some (.call, { r with cm := some fd, pc := .cmRead guard })
      | (none, fd) => some (.quiet, { r with cm := some fd, pc := .arm })
  | .cmRead guard =>
    some (r.act .pollCmEvent fun v => (.call, .cmClear guard (decide (v = .flag true))))
  | .cmClear guard gone =>
    some (if gone then .ready else .call,
      { r with cm := r.cm.map (·.clearReady guard), pc := if gone then .idle else .cmReady })
  | .arm => some (r.armStep (.redrain 0))
  | .redrain n =>
    some (r.drainStep (.redrain (n + 1)) (if n = 0 then (.empty, .park) else (.ready, .idle)))
  | .park =>
    match r.cq.pollReadReady with
    | (some guard, fd) => some (.call, { r with cq := fd, pc := .consume guard })
    | (none, fd) => some (.pending, { r with cq := fd, pc := .parked })
  | .consume guard => some (.call, { r with events := 0, pc := .rearm guard })
  | .rearm guard => some (r.armStep (.drainWoken guard 0))
  | .drainWoken guard n =>
    some (r.drainStep (.drainWoken guard (n + 1))
      (if n = 0 then .empty else .call, .clear guard n))
  | .clear guard n =>
    some (if n = 0 then .call else .ready,
      { r with cq := r.cq.clearReady guard, pc := if n = 0 then .park else .idle })

/-- Between two calls the owner may use the stream. -/
def resting (r : Reactor) : Bool := r.pc = .idle || r.pc = .parked

/-- The NIC has changed the stream to `t`: a completion on an armed queue notifies
    the channel, a CM event signals its fd. -/
def noticed (r : Reactor) (t : HordStream) : Reactor :=
  let notify := r.armed && decide (t.conn.cq ≠ r.stream.conn.cq)
  { r with
    stream := t
    armed := r.armed && !notify
    events := if notify then r.events + 1 else r.events
    cq := if notify && r.events == 0 then r.cq.signal else r.cq
    cm := if t.conn.cmq ≠ r.stream.conn.cmq then r.cm.map AsyncFd.signal else r.cm }

end Reactor

/-- The calls of the owner that leave completions and CM events to the reactor. -/
def Act.ownerly (a : Act) : Bool := !a.watches && a != .armCq

theorem Act.unwatched {a : Act} (h : a.ownerly = true) : a.watches = false := by
  simp only [Act.ownerly, Bool.and_eq_true, Bool.not_eq_true'] at h
  exact h.1

inductive Reactor.Step : Reactor → Turned → Reactor → Prop
  | nic (r : Reactor) (t : HordStream) (landed : List Completion) (h : Env r.stream t)
      (hcq : t.conn.cq = r.stream.conn.cq ++ landed) : Reactor.Step r (.nic landed) (r.noticed t)
  /-- The event loop's driver reports the channel, for an edge or for nothing. -/
  | driver (r : Reactor) :
      Reactor.Step r .driver { r with cq := r.cq.record, woken := r.woken || r.cq.waker }
  | driverCm (r : Reactor) (fd : AsyncFd) (h : r.cm = some fd) :
      Reactor.Step r .driver { r with cm := some fd.record, woken := r.woken || fd.waker }
  | owner (r : Reactor) (a : Act) (v : Res) (t : HordStream) (hpc : r.resting = true)
      (ha : a.ownerly = true) (h : a.run r.stream = .ok v t) :
      Reactor.Step r (.owner a) { r with stream := t }
  | ownerErr (r : Reactor) (a : Act) (e : Fail) (t : HordStream) (hpc : r.resting = true)
      (ha : a.ownerly = true) (h : a.run r.stream = .error e t) :
      Reactor.Step r (.owner a) { r with stream := t }
  /-- The task is polled, woken or not. -/
  | start (r : Reactor) (hpc : r.resting = true) :
      Reactor.Step r .start { r with pc := .drain 0, woken := false }
  | advance (r r' : Reactor) (l : Turned) (h : r.advance = some (l, r')) : Reactor.Step r l r'
  /-- `poll_read_ready` itself fails. -/
  | refused (r : Reactor) (hpc : r.pc = .cmReady ∨ r.pc = .park) :
      Reactor.Step r .failed { r with pc := .idle }

/-- As the fds are registered: an event already on the channel is signalled. -/
def Reactor.Init (r : Reactor) : Prop := r.pc = .idle ∧ (0 < r.events → r.cq.Hot)

/-! What the reactor's calls take off the two queues. -/

theorem keeps_handleCompletion_cmq (wc : Completion) :
    Keeps (fun s : HordStream => s.conn.cmq) id (handleCompletion wc) := by
  have hpost : ∀ slot, Keeps (fun s : HordStream => s.conn.cmq) id (postRecvSlot slot) := fun slot =>
    keeps_postRecvSlot ⟨fun _ _ _ => rfl, fun _ => rfl⟩ slot
  have hreclaim : Keeps (fun s : HordStream => s.conn.cmq) id (reclaimSend wc.wrId) :=
    .ite (.modify fun _ => rfl) (.modify fun _ => rfl)
  have hrecv : Keeps (fun s : HordStream => s.conn.cmq) id (handleRecv wc) := by
    refine .bind (keeps_recvSlot _) fun p => .bind .get fun s => .ite (.throw _) ?_
    refine .bind (keeps_copyOut _ _ _) fun hdr => .bind (.modify fun _ => rfl) fun _ => ?_
    exact .ite (.modify fun _ => rfl) (.ite (hpost _) (.bind (hpost _) fun _ => .modify fun _ => rfl))
  refine .ite (.ite (.modify fun _ => rfl) (.bind (.modify fun _ => rfl) fun _ => hpost _)) ?_
  refine .ite (.bind (.modify fun _ => rfl) fun _ => ?_) ?_
  · have hfail : Keeps (fun s : HordStream => s.conn.cmq) id
        (if (!wc.isSuccess) = true then markClosed else pure ()) :=
      .ite (.modify fun _ => rfl) (.pure _)
    exact .ite (.bind (.modify fun _ => rfl) fun _ => hfail) hfail
  · exact .ite (.bind (.modify fun _ => rfl) fun _ => .ite hreclaim (.pure _)) (.ite hreclaim hrecv)

/-- One `pump(false)`: it returns `false` on an empty queue only, and reads no CM event. -/
theorem pump_queues (s : HordStream) : wp Act.pump.run s fun r t =>
    t.conn.cmq = s.conn.cmq ∧ (∀ v, r = .ok v → v ≠ .flag true →
      s.conn.cq = [] ∧ t.conn.cq = [] ∧ t.peerClosed = s.peerClosed) := by
  simp only [Act.run, pumpOnce, wp_bind, dev_wp]
  refine poll_wp (fun fs hcq => ?_) (fun fs wc rest hcq => ?_) (fun fs e _ => ⟨rfl, by simp⟩)
  · exact ⟨rfl, fun v _ _ => ⟨hcq, hcq, rfl⟩⟩
  · simp only [wp_bind]
    refine wp_mono (keeps_handleCompletion_cmq wc _) ?_
    intro r t hr
    cases r with
    | ok _ =>
      refine ⟨hr, fun v hv hne => ?_⟩
      cases hv
      exact absurd rfl hne
    | error e => exact ⟨hr, by simp⟩

/-- One reading of the CM channel. -/
theorem pollCmEvent_queues (s : HordStream) : wp Act.pollCmEvent.run s fun r t =>
    t.conn.cq = s.conn.cq ∧ match r with
      | .ok _ => t.conn.cmq = s.conn.cmq.tail
      | .error _ => t.conn.cmq = s.conn.cmq := by
  simp only [Act.run, pollCmEvent, wp_bind, dev_wp, wp_ite]
  refine checkDisconnect_wp (fun fs hcm => ?_) (fun fs e rest hcm => ?_) (fun fs e _ => ⟨rfl, rfl⟩)
  · exact ⟨rfl, by rw [hcm]; rfl⟩
  · have htail : rest = s.conn.cmq.tail := by rw [hcm]; rfl
    cases e.gone with
    | true => exact ⟨rfl, htail⟩
    | false => exact ⟨rfl, htail⟩

/-- A reading of the CM channel that the device refuses fails. -/
theorem pollCmEvent_refused {s : HordStream} (hf : s.conn.faults.head? = some true) :
    wp Act.pollCmEvent.run s fun r _ => ∀ v, r ≠ .ok v := by
  obtain ⟨fs, hfs⟩ := List.head?_eq_some_iff.mp hf
  simp only [Act.run, pollCmEvent, wp_bind, dev_wp, Connection.checkDisconnect, wp_get]
  unfold wp Connection.deviceCall
  simp only [hfs, if_true]
  intro v h
  cases h

namespace Reactor
variable {r r' : Reactor} {l : Turned}

/-- A round of a drain takes a completion and goes on, finds the queue empty, or fails. -/
theorem drainStep_cases {more : Pc} {done : Turned × Pc} (h : r.drainStep more done = (l, r')) :
    ∃ t : HordStream, t.conn.cmq = r.stream.conn.cmq ∧
      (l = .call ∧ r' = { r with stream := t, pc := more } ∨
        r.stream.conn.cq = [] ∧ t.conn.cq = [] ∧ t.peerClosed = r.stream.peerClosed ∧ l = done.1 ∧
          r' = { r with stream := t, pc := done.2 } ∨
        l = .failed ∧ r' = { r with stream := t, pc := .idle }) := by
  unfold drainStep act at h
  cases hrun : Act.pump.run r.stream with
  | error e t =>
    rw [hrun] at h
    cases h
    exact ⟨t, (wp_error (pump_queues r.stream) hrun).1, .inr (.inr ⟨rfl, rfl⟩)⟩
  | ok v t =>
    obtain ⟨hcm, hempty⟩ := wp_ok (pump_queues r.stream) hrun
    rw [hrun] at h
    refine ⟨t, hcm, ?_⟩
    by_cases hv : v = .flag true
    · subst hv
      cases h
      exact .inl ⟨rfl, rfl⟩
    · simp only [hv, if_false] at h
      cases h
      obtain ⟨h1, h2, h3⟩ := hempty v rfl hv
      exact .inr (.inl ⟨h1, h2, h3, rfl, rfl⟩)

theorem armStep_cases {next : Pc} (h : r.armStep next = (l, r')) :
    ∃ t : HordStream, t.conn.cq = r.stream.conn.cq ∧ t.conn.cmq = r.stream.conn.cmq ∧
      (l = .call ∧ t.peerClosed = r.stream.peerClosed ∧
          r' = { r with stream := t, armed := true, pc := next } ∨
        l = .failed ∧ r' = { r with stream := t, pc := .idle }) := by
  have hkeep := Act.keeps_queues (a := .armCq) rfl
  unfold armStep at h
  cases hrun : Act.armCq.run r.stream with
  | error e t =>
    rw [hrun] at h
    cases h
    exact ⟨t, congrArg Prod.fst (hkeep.error hrun), congrArg Prod.snd (hkeep.error hrun),
      .inr ⟨rfl, rfl⟩⟩
  | ok v t =>
    rw [hrun] at h
    cases h
    exact ⟨t, congrArg Prod.fst (hkeep.ok hrun), congrArg Prod.snd (hkeep.ok hrun),
      .inl ⟨rfl, congrArg Prod.fst ((Act.run_keeps (a := .armCq) rfl).ok hrun), rfl⟩⟩

end Reactor

/-! The completion channel. -/

/-- The completions that landed since a poll last found the queue empty. -/
def Turned.since (late : List Completion) : Turned → List Completion
  | .nic landed => late ++ landed
  | .empty => []
  | _ => late

def sinceEmpty (ls : List Turned) : List Completion := ls.foldl Turned.since []

theorem sinceEmpty_snoc (ls : List Turned) (l : Turned) :
    sinceEmpty (ls ++ [l]) = l.since (sinceEmpty ls) := by
  simp [sinceEmpty]

namespace Reactor

/-- An event on the channel is or will be reported. -/
def Noted (r : Reactor) : Prop := 0 < r.events → r.cq.Hot

/-- An event on the channel is or will be reported even after a clear through `g`. -/
def NotedSince (r : Reactor) (g : Nat) : Prop :=
  g ≤ r.cq.tick ∧ (0 < r.events → r.cq.HotSince g)

/-- The next completion queues an event, or one is there. -/
def Watched (r : Reactor) : Prop := r.armed = true ∨ 0 < r.events

/-- Whatever is on the queue used the notification up. -/
def Covered (r : Reactor) : Prop := r.stream.conn.cq ≠ [] → r.armed = false

/-- The parked task will be woken for what is on the queue. -/
def Wakeable (r : Reactor) : Prop :=
  (r.cq.waker = true ∨ r.woken = true) ∧ (r.cq.ready = true → r.woken = true) ∧
    (r.stream.conn.cq ≠ [] → r.cq.edge = true ∨ r.woken = true)

/-- The assertion at each place of the call; `late` are the completions that landed
    since the queue was last found empty. -/
def SoundAt (late : List Completion) (r : Reactor) : Pc → Prop
  | .idle => r.Noted
  | .parked => r.Noted ∧ r.Watched ∧ r.Wakeable
  | .drain _ => r.Noted
  | .cmReady => r.Noted ∧ r.stream.conn.cq = late
  | .cmRead _ => r.Noted ∧ r.stream.conn.cq = late
  | .cmClear _ _ => r.Noted ∧ r.stream.conn.cq = late
  | .arm => r.Noted ∧ r.stream.conn.cq = late
  | .redrain n => r.Noted ∧ r.Watched ∧ (n = 0 → r.stream.conn.cq = late)
  | .park => r.Noted ∧ r.Watched ∧ r.stream.conn.cq = late ∧ r.Covered
  | .consume g => r.Noted ∧ g ≤ r.cq.tick ∧ r.stream.conn.cq = late
  | .rearm g => r.NotedSince g ∧ r.stream.conn.cq = late
  | .drainWoken g n => r.NotedSince g ∧ r.Watched ∧ (n = 0 → r.stream.conn.cq = late)
  | .clear g n => r.NotedSince g ∧ r.Watched ∧ (n = 0 → r.stream.conn.cq = late ∧ r.Covered)

def Sound (late : List Completion) (r : Reactor) : Prop := r.SoundAt late r.pc

/-! The NIC and the driver disturb no assertion. -/

section Stable
variable {r : Reactor} {t : HordStream} {landed : List Completion}

theorem noticed_cases (r : Reactor) (t : HordStream) :
    (r.armed = true ∧ t.conn.cq ≠ r.stream.conn.cq ∧ (r.noticed t).armed = false ∧
        (r.noticed t).events = r.events + 1 ∧
        (r.noticed t).cq = (if r.events = 0 then r.cq.signal else r.cq)) ∨
      ((r.armed = false ∨ t.conn.cq = r.stream.conn.cq) ∧ (r.noticed t).armed = r.armed ∧
        (r.noticed t).events = r.events ∧ (r.noticed t).cq = r.cq) := by
  by_cases ha : r.armed = true <;> by_cases hcq : t.conn.cq = r.stream.conn.cq <;>
    simp [noticed, ha, hcq]

theorem Noted.nic (h : r.Noted) (t : HordStream) : (r.noticed t).Noted := by
  intro hpos
  rcases noticed_cases r t with ⟨-, -, -, -, hfd⟩ | ⟨-, -, hev, hfd⟩
  · rw [hfd]
    split
    · exact r.cq.signal_hot
    · next hne => exact h (Nat.pos_of_ne_zero hne)
  · rw [hfd]
    exact h (hev ▸ hpos)

theorem NotedSince.nic {g : Nat} (h : r.NotedSince g) (t : HordStream) :
    (r.noticed t).NotedSince g := by
  rcases noticed_cases r t with ⟨-, -, -, -, hfd⟩ | ⟨-, -, hev, hfd⟩
  · unfold NotedSince
    rw [hfd]
    split
    · exact ⟨h.1, fun _ => r.cq.signal_hotSince g⟩
    · next hne => exact ⟨h.1, fun _ => h.2 (Nat.pos_of_ne_zero hne)⟩
  · unfold NotedSince
    rw [hfd, hev]
    exact h

theorem Watched.nic (h : r.Watched) (t : HordStream) : (r.noticed t).Watched := by
  rcases noticed_cases r t with ⟨-, -, -, hev, -⟩ | ⟨-, harm, hev, -⟩
  · exact .inr (by rw [hev]; exact Nat.succ_pos _)
  · unfold Watched
    rw [harm, hev]
    exact h

theorem Covered.nic (h : r.Covered) (t : HordStream) : (r.noticed t).Covered := by
  intro hne
  rcases noticed_cases r t with ⟨-, -, harm, -, -⟩ | ⟨hor, harm, -, -⟩
  · exact harm
  · rw [harm]
    rcases hor with hf | hsame
    · exact hf
    · apply h
      rw [← hsame]
      exact hne

/-- A completion that lands while the task is parked finds the queue armed, or an
    event already queued. -/
theorem Wakeable.nic (h : r.Wakeable) (hn : r.Noted) (hw : r.Watched) (t : HordStream) :
    (r.noticed t).Wakeable := by
  obtain ⟨hreg, hready, hcq⟩ := h
  have hpos : (r.noticed t).stream.conn.cq ≠ [] → 0 < (r.noticed t).events ∨
      t.conn.cq = r.stream.conn.cq := by
    intro _
    rcases noticed_cases r t with ⟨-, -, -, hev, -⟩ | ⟨hor, harm, hev, -⟩
    · exact .inl (by rw [hev]; exact Nat.succ_pos _)
    · rcases hor with hf | hsame
      · rcases hw with ha | hp
        · rw [hf] at ha
          cases ha
        · exact .inl (by rw [hev]; exact hp)
      · exact .inr hsame
  have hfd : (r.noticed t).cq.waker = r.cq.waker ∧ (r.noticed t).cq.ready = r.cq.ready ∧
      (r.cq.edge = true → (r.noticed t).cq.edge = true) := by
    rcases noticed_cases r t with ⟨-, -, -, -, hfd⟩ | ⟨-, -, -, hfd⟩
    · rw [hfd]
      split
      · exact ⟨rfl, rfl, fun _ => rfl⟩
      · exact ⟨rfl, rfl, id⟩
    · rw [hfd]
      exact ⟨rfl, rfl, id⟩
  refine ⟨by rw [hfd.1]; exact hreg, by rw [hfd.2.1]; exact hready, fun hne => ?_⟩
  rcases hpos hne with hp | hsame
  · rcases hn.nic t hp with he | hr
    · exact .inl he
    · exact .inr (hready (hfd.2.1 ▸ hr))
  · exact (hcq (by rw [← hsame]; exact hne)).imp_left hfd.2.2

theorem SoundAt.nic {late : List Completion} {pc : Pc} (h : r.SoundAt late pc)
    (hcq : t.conn.cq = r.stream.conn.cq ++ landed) : (r.noticed t).SoundAt (late ++ landed) pc := by
  have hleft : r.stream.conn.cq = late → (r.noticed t).stream.conn.cq = late ++ landed := by
    intro he
    rw [← he]
    exact hcq
  cases pc with
  | idle => exact Noted.nic h t
  | parked => exact ⟨h.1.nic t, h.2.1.nic t, h.2.2.nic h.1 h.2.1 t⟩
  | drain n => exact Noted.nic h t
  | cmReady => exact ⟨h.1.nic t, hleft h.2⟩
  | cmRead g => exact ⟨h.1.nic t, hleft h.2⟩
  | cmClear g gone => exact ⟨h.1.nic t, hleft h.2⟩
  | arm => exact ⟨h.1.nic t, hleft h.2⟩
  | redrain n => exact ⟨h.1.nic t, h.2.1.nic t, fun hn => hleft (h.2.2 hn)⟩
  | park => exact ⟨h.1.nic t, h.2.1.nic t, hleft h.2.2.1, h.2.2.2.nic t⟩
  | consume g =>
    refine ⟨h.1.nic t, ?_, hleft h.2.2⟩
    rcases noticed_cases r t with ⟨-, -, -, -, hfd⟩ | ⟨-, -, -, hfd⟩
    · rw [hfd]
      split
      · exact h.2.1
      · exact h.2.1
    · rw [hfd]
      exact h.2.1
  | rearm g => exact ⟨h.1.nic t, hleft h.2⟩
  | drainWoken g n => exact ⟨h.1.nic t, h.2.1.nic t, fun hn => hleft (h.2.2 hn)⟩
  | clear g n =>
    exact ⟨h.1.nic t, h.2.1.nic t, fun hn => ⟨hleft (h.2.2 hn).1, (h.2.2 hn).2.nic t⟩⟩

/-- The driver's report of the channel wakes whoever is registered. -/
theorem SoundAt.driver {late : List Completion} {pc : Pc} (h : r.SoundAt late pc) :
    SoundAt late { r with cq := r.cq.record, woken := r.woken || r.cq.waker } pc := by
  have hnoted : Noted { r with cq := r.cq.record, woken := r.woken || r.cq.waker } :=
    fun _ => r.cq.record_hot
  have hsince : ∀ g, r.NotedSince g →
      NotedSince { r with cq := r.cq.record, woken := r.woken || r.cq.waker } g :=
    fun g hg => ⟨Nat.le_succ_of_le hg.1, fun _ => AsyncFd.record_hotSince hg.1⟩
  cases pc with
  | parked =>
    obtain ⟨-, hw, hreg, -⟩ := h
    have hwoken : (r.woken || r.cq.waker) = true := by
      rcases hreg with hr | hr
      · simp [hr]
      · simp [hr]
    exact ⟨hnoted, hw, .inr hwoken, fun _ => hwoken, fun _ => .inr hwoken⟩
  | idle => exact hnoted
  | drain n => exact hnoted
  | cmReady => exact ⟨hnoted, h.2⟩
  | cmRead g => exact ⟨hnoted, h.2⟩
  | cmClear g gone => exact ⟨hnoted, h.2⟩
  | arm => exact ⟨hnoted, h.2⟩
  | redrain n => exact ⟨hnoted, h.2⟩
  | park => exact ⟨hnoted, h.2⟩
  | consume g => exact ⟨hnoted, Nat.le_succ_of_le h.2.1, h.2.2⟩
  | rearm g => exact ⟨hsince g h.1, h.2⟩
  | drainWoken g n => exact ⟨hsince g h.1, h.2⟩
  | clear g n => exact ⟨hsince g h.1, h.2⟩

/-- A wake-up from elsewhere disturbs nothing either. -/
theorem SoundAt.wake {late : List Completion} {pc : Pc} (h : r.SoundAt late pc) (cm : Option AsyncFd)
    (w : Bool) : SoundAt late { r with cm := cm, woken := r.woken || w } pc := by
  cases pc with
  | parked =>
    obtain ⟨hn, hw, hreg, hready, hcq⟩ := h
    have hor : r.woken = true → (r.woken || w) = true := fun hr => by simp [hr]
    exact ⟨hn, hw, hreg.imp_right hor, fun hr => hor (hready hr), fun hne => (hcq hne).imp_right hor⟩
  | _ => exact h

/-- Nor does a call of the owner. -/
theorem SoundAt.owner {late : List Completion} {pc : Pc} (h : r.SoundAt late pc)
    (hcq : t.conn.cq = r.stream.conn.cq) : SoundAt late { r with stream := t } pc := by
  unfold SoundAt Wakeable Covered Watched Noted NotedSince at *
  simp only [hcq]
  exact h

theorem SoundAt.noted {late : List Completion} {pc : Pc} (h : r.SoundAt late pc) : r.Noted := by
  have since : ∀ g, r.NotedSince g → r.Noted := fun g hg hpos => (hg.2 hpos).hot
  cases pc with
  | idle => exact h
  | drain n => exact h
  | rearm g => exact since g h.1
  | drainWoken g n => exact since g h.1
  | clear g n => exact since g h.1
  | _ => exact h.1

end Stable

/-! The steps of the call itself. -/

section Advance
variable {r r' : Reactor} {l : Turned} {late : List Completion}

/-- A drain round: whatever the next place asserts about what is left holds, since a
    round that ends the drain found the queue empty. -/
theorem Sound.drainStep {more : Pc} {done : Turned × Pc} (h : r.Sound late)
    (hstep : r.drainStep more done = (l, r'))
    (hmore : ∀ t : HordStream, SoundAt late { r with stream := t, pc := more } more)
    (hdone : ∀ t : HordStream, r.stream.conn.cq = [] → t.conn.cq = [] →
      SoundAt (done.1.since late) { r with stream := t, pc := done.2 } done.2) :
    r'.Sound (l.since late) := by
  obtain ⟨t, -, ⟨rfl, rfl⟩ | ⟨h1, h2, -, rfl, rfl⟩ | ⟨rfl, rfl⟩⟩ := drainStep_cases hstep
  · exact hmore t
  · exact hdone t h1 h2
  · exact h.noted

theorem Sound.armStep {next : Pc} (h : r.Sound late) (hstep : r.armStep next = (l, r'))
    (hnext : ∀ t : HordStream, t.conn.cq = r.stream.conn.cq →
      SoundAt late { r with stream := t, armed := true, pc := next } next) :
    r'.Sound (l.since late) := by
  obtain ⟨t, hcq, -, ⟨rfl, -, rfl⟩ | ⟨rfl, rfl⟩⟩ := armStep_cases hstep
  · exact hnext t hcq
  · exact h.noted

theorem Sound.advance (h : r.Sound late) (hstep : r.advance = some (l, r')) :
    r'.Sound (l.since late) := by
  have h' := h
  unfold Sound at h'
  unfold Reactor.advance at hstep
  cases hpc : r.pc with
  | idle => simp [hpc] at hstep
  | parked => simp [hpc] at hstep
  | drain n =>
    simp only [hpc, Option.some.injEq] at hstep
    rw [hpc] at h'
    refine h.drainStep hstep (fun t => h') fun t h1 h2 => ?_
    cases n with
    | zero => exact ⟨h', h2⟩
    | succ n => exact h'
  | cmReady =>
    simp only [hpc] at hstep
    rw [hpc] at h'
    split at hstep
    · cases hstep
      exact h'
    · split at hstep
      · cases hstep
        exact h'
      · cases hstep
        exact h'
  | cmRead g =>
    simp only [hpc, Option.some.injEq, act] at hstep
    rw [hpc] at h'
    have hq := pollCmEvent_queues r.stream
    cases hrun : Act.pollCmEvent.run r.stream with
    | ok v t =>
      rw [hrun] at hstep
      cases hstep
      exact ⟨h'.1, (wp_ok hq hrun).1.trans h'.2⟩
    | error e t =>
      rw [hrun] at hstep
      cases hstep
      exact h'.1
  | cmClear g gone =>
    simp only [hpc, Option.some.injEq] at hstep
    rw [hpc] at h'
    cases gone with
    | true =>
      cases hstep
      exact h'.1
    | false =>
      cases hstep
      exact h'
  | arm =>
    simp only [hpc, Option.some.injEq] at hstep
    rw [hpc] at h'
    exact h.armStep hstep fun t hcq => ⟨h'.1, .inl rfl, fun _ => hcq.trans h'.2⟩
  | redrain n =>
    simp only [hpc, Option.some.injEq] at hstep
    rw [hpc] at h'
    refine h.drainStep hstep (fun t => ⟨h'.1, h'.2.1, nofun⟩) fun t h1 h2 => ?_
    cases n with
    | zero => exact ⟨h'.1, h'.2.1, h2, fun hne => absurd h2 hne⟩
    | succ n => exact h'.1
  | park =>
    simp only [hpc, AsyncFd.pollReadReady] at hstep
    rw [hpc] at h'
    obtain ⟨hn, hw, hleft, hcov⟩ := h'
    cases hr : r.cq.ready with
    | true =>
      simp only [hr, if_true] at hstep
      cases hstep
      exact ⟨hn, Nat.le_refl _, hleft⟩
    | false =>
      simp only [hr, Bool.false_eq_true, if_false] at hstep
      cases hstep
      have hedge : 0 < r.events → r.cq.edge = true := by
        intro hpos
        rcases hn hpos with he | hready
        · exact he
        · rw [hr] at hready
          cases hready
      refine ⟨fun hpos => .inl (hedge hpos), hw, .inl rfl, nofun, fun hne => .inl (hedge ?_)⟩
      -- what is on the queue has used the notification up, so its event is still to be reported
      rcases hw with ha | hp
      · rw [hcov hne] at ha
        cases ha
      · exact hp
  | consume g =>
    simp only [hpc] at hstep
    rw [hpc] at h'
    cases hstep
    exact ⟨⟨h'.2.1, fun hpos => absurd hpos (Nat.lt_irrefl 0)⟩, h'.2.2⟩
  | rearm g =>
    simp only [hpc, Option.some.injEq] at hstep
    rw [hpc] at h'
    exact h.armStep hstep fun t hcq => ⟨h'.1, .inl rfl, fun _ => hcq.trans h'.2⟩
  | drainWoken g n =>
    simp only [hpc, Option.some.injEq] at hstep
    rw [hpc] at h'
    refine h.drainStep hstep (fun t => ⟨h'.1, h'.2.1, nofun⟩) fun t h1 h2 => ?_
    cases n with
    | zero => exact ⟨h'.1, h'.2.1, fun _ => ⟨h2, fun hne => absurd h2 hne⟩⟩
    | succ n => exact ⟨h'.1, h'.2.1, nofun⟩
  | clear g n =>
    simp only [hpc, Option.some.injEq] at hstep
    rw [hpc] at h'
    have hnoted : Noted { r with cq := r.cq.clearReady g, pc := if n = 0 then .park else .idle } :=
      fun hpos => (h'.1.2 hpos).cleared
    cases n with
    | zero =>
      cases hstep
      exact ⟨hnoted, h'.2.1, (h'.2.2 rfl).1, (h'.2.2 rfl).2⟩
    | succ n =>
      cases hstep
      exact hnoted

theorem Step.sound (hs : Step r l r') (h : r.Sound late) : r'.Sound (l.since late) := by
  cases hs with
  | nic t landed henv hcq => exact SoundAt.nic h hcq
  | driver => exact SoundAt.driver h
  | driverCm fd hfd => exact SoundAt.wake h (some fd.record) fd.waker
  | owner a v t hpc ha hrun =>
    exact SoundAt.owner h (congrArg Prod.fst ((Act.keeps_queues (Act.unwatched ha)).ok hrun))
  | ownerErr a e t hpc ha hrun =>
    exact SoundAt.owner h (congrArg Prod.fst ((Act.keeps_queues (Act.unwatched ha)).error hrun))
  | start hpc =>
    have hn : r.Noted := SoundAt.noted h
    exact hn
  | advance _ _ hadv => exact h.advance hadv
  | refused hpc => exact SoundAt.noted h

/-- Every place of every call has its assertion. -/
theorem run_sound {r₀ : Reactor} {ls : List Turned} (h₀ : r₀.Init) (hrun : Run Step r₀ ls r) :
    r.Sound (sinceEmpty ls) := by
  refine hrun.inv_trace (I := fun ls r => Sound (sinceEmpty ls) r) (fun ls s l t hs hstep => ?_) ?_
  · rw [sinceEmpty_snoc]
    exact hstep.sound hs
  · unfold Sound
    rw [h₀.1]
    exact h₀.2

/-- Only parking returns `Pending`, and it registers the waker. -/
theorem Step.pending_inv (hs : Step r .pending r') :
    r.pc = .park ∧ r.cq.ready = false ∧
      r' = { r with cq := { r.cq with waker := true }, pc := .parked } := by
  have undrained : ∀ {more : Pc} {done : Turned × Pc}, r.drainStep more done = (.pending, r') →
      done.1 = .pending := by
    intro more done h
    obtain ⟨t, -, ⟨hl, -⟩ | ⟨-, -, -, hl, -⟩ | ⟨hl, -⟩⟩ := drainStep_cases h
    · cases hl
    · exact hl.symm
    · cases hl
  have unarmed : ∀ {next : Pc}, r.armStep next ≠ (.pending, r') := by
    intro next h
    obtain ⟨t, -, -, ⟨hl, -⟩ | ⟨hl, -⟩⟩ := armStep_cases h
    · cases hl
    · cases hl
  obtain _ | _ | _ | _ | _ | _ | ⟨_, _, hadv⟩ | _ := hs
  unfold Reactor.advance at hadv
  -- every other place goes on, returns or fails
  cases hpc : r.pc with
  | park =>
    simp only [hpc, AsyncFd.pollReadReady] at hadv
    cases hr : r.cq.ready with
    | true => simp [hr] at hadv
    | false =>
      simp only [hr, Bool.false_eq_true, if_false] at hadv
      cases hadv
      exact ⟨rfl, rfl, by rw [← hr]⟩
  | idle => simp [hpc] at hadv
  | parked => simp [hpc] at hadv
  | drain n =>
    simp only [hpc, Option.some.injEq] at hadv
    have := undrained hadv
    split at this <;> cases this
  | redrain n =>
    simp only [hpc, Option.some.injEq] at hadv
    have := undrained hadv
    split at this <;> cases this
  | drainWoken g n =>
    simp only [hpc, Option.some.injEq] at hadv
    have := undrained hadv
    simp only at this
    split at this <;> cases this
  | arm =>
    simp only [hpc, Option.some.injEq] at hadv
    exact absurd hadv unarmed
  | rearm g =>
    simp only [hpc, Option.some.injEq] at hadv
    exact absurd hadv unarmed
  | cmReady =>
    simp only [hpc] at hadv
    split at hadv
    · cases hadv
    · split at hadv <;> cases hadv
  | cmRead g =>
    simp only [hpc, Option.some.injEq, act] at hadv
    split at hadv <;> cases hadv
  | cmClear g gone =>
    simp only [hpc] at hadv
    cases gone <;> cases hadv
  | consume g =>
    simp only [hpc] at hadv
    cases hadv
  | clear g n =>
    simp only [hpc] at hadv
    cases n <;> cases hadv

end Advance

end Reactor

/-- No completion is lost. When a call returns `Pending`, all that is on the queue
    landed after the call last found it empty, the task is registered with the
    channel, and the queue is armed or the channel is about to be reported, the latter
    if anything is on the queue. While the task is parked nothing sits on the queue
    without a wake-up made or due. -/
theorem reactor_keeps_completions {r₀ r : Reactor} {ls : List Turned} (h₀ : r₀.Init)
    (hrun : Run Reactor.Step r₀ ls r) :
    (∀ ms, ls = ms ++ [.pending] →
      r.stream.conn.cq = sinceEmpty ms ∧ r.cq.waker = true ∧
        (r.armed = true ∨ r.cq.edge = true) ∧ (r.stream.conn.cq ≠ [] → r.cq.edge = true)) ∧
    (r.pc = .parked → r.stream.conn.cq ≠ [] →
      r.woken = true ∨ r.cq.edge = true ∧ r.cq.waker = true) := by
  constructor
  · intro ms hms
    subst hms
    -- the state in which the call parks is sound, and its channel was not ready
    obtain ⟨t, hbefore, hlast⟩ := hrun.unsnoc
    obtain ⟨hpc, hready, rfl⟩ := hlast.pending_inv
    have hs := Reactor.run_sound h₀ hbefore
    unfold Reactor.Sound at hs
    rw [hpc] at hs
    obtain ⟨hn, hw, hleft, hcov⟩ := hs
    have hedge : 0 < t.events → t.cq.edge = true := fun hpos => by
      rcases hn hpos with he | hr
      · exact he
      · rw [hready] at hr
        cases hr
    refine ⟨hleft, rfl, hw.imp_right hedge, fun hne => hedge ?_⟩
    rcases hw with ha | hp
    · rw [hcov hne] at ha
      cases ha
    · exact hp
  · intro hpc hne
    have hs := Reactor.run_sound h₀ hrun
    unfold Reactor.Sound at hs
    rw [hpc] at hs
    obtain ⟨-, -, hreg, -, hcq⟩ := hs
    rcases hcq hne with he | hwoken
    · exact hreg.symm.imp_right fun hw => ⟨he, hw⟩
    · exact .inl hwoken

/-! Runs that can be computed. -/

/-- One turn, as a script names it. -/
inductive Poke where
  | nic (c : Cmd)
  | driver
  | driverCm
  | start
  | step

def Reactor.exec (r : Reactor) : Poke → Option (Turned × Reactor)
  | .nic c =>
    (c.device r.stream).map fun t => (.nic (t.conn.cq.drop r.stream.conn.cq.length), r.noticed t)
  | .driver => some (.driver, { r with cq := r.cq.record, woken := r.woken || r.cq.waker })
  | .driverCm =>
    r.cm.map fun fd => (.driver, { r with cm := some fd.record, woken := r.woken || fd.waker })
  | .start => if r.resting then some (.start, { r with pc := .drain 0, woken := false }) else none
  | .step => r.advance

/-- Carry a script out, as long as `guard` allows every step. -/
def Reactor.script (guard : Reactor → Bool) (r : Reactor) : List Poke → Option (List Turned × Reactor)
  | [] => some ([], r)
  | c :: cs =>
    match r.exec c with
    | none => none
    | some (l, r') =>
      if guard r then (r'.script guard cs).map fun (ls, q) => (l :: ls, q) else none

theorem Env.cq_grows {s t : HordStream} (h : Env s t) : ∃ landed, t.conn.cq = s.conn.cq ++ landed := by
  cases h with
  | land r rs bytes wc => exact ⟨[wc], rfl⟩
  | reject ls rs r wc => exact ⟨[wc], rfl⟩
  | reap ls rs w wc => exact ⟨[wc], rfl⟩
  | flush ls rs w wc => exact ⟨[wc], rfl⟩
  | _ => exact ⟨[], (List.append_nil _).symm⟩

theorem Reactor.exec_step {r r' : Reactor} {c : Poke} {l : Turned} (h : r.exec c = some (l, r')) :
    Reactor.Step r l r' := by
  cases c with
  | nic c =>
    simp only [Reactor.exec, Option.map_eq_some_iff] at h
    obtain ⟨t, ht, heq⟩ := h
    cases heq
    obtain ⟨landed, hcq⟩ := (Cmd.device_env ht).cq_grows
    refine .nic r t _ (Cmd.device_env ht) ?_
    rw [hcq, List.drop_left]
  | driver =>
    cases h
    exact .driver r
  | driverCm =>
    simp only [Reactor.exec, Option.map_eq_some_iff] at h
    obtain ⟨fd, hfd, heq⟩ := h
    cases heq
    exact .driverCm r fd hfd
  | start =>
    simp only [Reactor.exec] at h
    split at h
    · next hpc =>
      cases h
      exact .start r hpc
    · cases h
  | step => exact .advance r r' l h

theorem Reactor.script_run {guard : Reactor → Bool} (cs : List Poke) {r q : Reactor} {ls : List Turned}
    (h : r.script guard cs = some (ls, q)) :
    Run (fun r l r' => Reactor.Step r l r' ∧ guard r = true) r ls q := by
  induction cs generalizing r ls with
  | nil =>
    cases h
    exact .nil _
  | cons c cs ih =>
    simp only [Reactor.script] at h
    split at h
    · cases h
    · next l r' hr =>
      split at h
      · next hg =>
        simp only [Option.map_eq_some_iff] at h
        obtain ⟨⟨ms, u⟩, hms, heq⟩ := h
        cases heq
        exact .cons ⟨Reactor.exec_step hr, hg⟩ (ih hms)
      · cases h

/-- A stream with its two fds just registered; a readable fd is reported at once. -/
def Reactor.wrap (s : HordStream) : Reactor where
  stream := s
  armed := false
  events := 0
  cq := ⟨false, false, 0, false⟩
  cm := some ⟨!s.conn.cmq.isEmpty, false, 0, false⟩
  woken := false
  pc := .idle

/-- A reactor over a stream that has just been established with a peer of its own
    configuration, and a script for it. -/
theorem Reactor.launch_run (guard : Reactor → Bool) (cs : List Poke) (good : List Turned → Reactor → Bool)
    (h : (Party.launch (fun _ _ => true) tinyConfig tinySetup).any (fun q =>
      decide (q.phase = .up) &&
        ((Reactor.wrap q.stream).script guard cs).any fun o => good o.1 o.2) = true) :
    ∃ p ms q ls r, p.Init ∧ Run Party.Step p ms q ∧ q.phase = .up ∧
      Run (fun r l r' => Reactor.Step r l r' ∧ guard r = true) (Reactor.wrap q.stream) ls r ∧
      good ls r = true := by
  obtain ⟨p, ms, q, hinit, hrun, hq⟩ := Party.launch_run (fun _ _ => true) tinyConfig tinySetup _ h
  rw [Bool.and_eq_true, decide_eq_true_eq] at hq
  obtain ⟨hup, hscript⟩ := hq
  cases hs : (Reactor.wrap q.stream).script guard cs with
  | none => rw [hs] at hscript; cases hscript
  | some o =>
    rw [hs] at hscript
    exact ⟨p, ms, q, o.1, o.2, hinit, hrun.mono fun _ _ _ hp => hp.1, hup,
      Reactor.script_run cs hs, hscript⟩

/-- A call that parks after a completion landed behind its back. -/
def parkLate : List Poke :=
  [.start, .step, .step, .step, .step,
    .nic (.land ((Envelope.mk 2 0 0).encode ++ [7, 8]) ⟨0, 10, .recv, 0, 0⟩), .step]

theorem parkLate_run : ∃ p ms q ls r, p.Init ∧ Run Party.Step p ms q ∧ q.phase = .up ∧
    Run Reactor.Step (Reactor.wrap q.stream) (ls ++ [.pending]) r ∧ r.stream.conn.cq ≠ [] := by
  obtain ⟨p, ms, q, ls, r, hinit, hrun, hup, hreact, hgood⟩ := Reactor.launch_run (fun _ => true) parkLate
    (fun ls r => decide (ls.getLast? = some .pending) && !r.stream.conn.cq.isEmpty) (by decide +kernel)
  rw [Bool.and_eq_true, decide_eq_true_eq, Bool.not_eq_true', List.isEmpty_eq_false_iff] at hgood
  obtain ⟨hlast, hne⟩ := hgood
  obtain ⟨ns, rfl⟩ := List.getLast?_eq_some_iff.mp hlast
  exact ⟨p, ms, q, ns, r, hinit, hrun, hup, hreact.mono fun _ _ _ hs => hs.1, hne⟩

theorem Reactor.wrap_init (s : HordStream) : (Reactor.wrap s).Init := ⟨rfl, nofun⟩

theorem reactor_keeps_completions_late : ∃ p ms q ls r, p.Init ∧ Run Party.Step p ms q ∧
    q.phase = .up ∧ Run Reactor.Step (Reactor.wrap q.stream) (ls ++ [.pending]) r ∧
    r.stream.conn.cq ≠ [] ∧ r.cq.edge = true := by
  obtain ⟨p, ms, q, ls, r, hinit, hrun, hup, hreact, hne⟩ := parkLate_run
  have hkept := reactor_keeps_completions (Reactor.wrap_init q.stream) hreact
  exact ⟨p, ms, q, ls, r, hinit, hrun, hup, hreact, hne, (hkept.1 ls rfl).2.2.2 hne⟩

/-- A completion can be on the queue when the call returns `Pending`. -/
theorem completion_behind_pending : ¬∀ (p : Party) (ms : List Move) (q : Party) (ls : List Turned)
    (r : Reactor), p.Init → Run Party.Step p ms q → q.phase = .up →
    Run Reactor.Step (Reactor.wrap q.stream) (ls ++ [.pending]) r →
    r.stream.conn.cq = [] ∧
      (r.armed = true ∧ r.cq.waker = true ∨ r.cq.edge = true ∨ r.cq.ready = true) := by
  intro h
  obtain ⟨p, ms, q, ls, r, hinit, hrun, hup, hreact, hne⟩ := parkLate_run
  exact hne (h p ms q ls r hinit hrun hup hreact).1

/-! The connection-manager channel. -/

/-- A teardown event is on the CM channel, unread. -/
def Connection.tornDown (c : Connection) : Bool := c.cmq.any CmEvent.gone

namespace Reactor

/-- A teardown event on the CM channel is or will be reported; while a guard is held
    it has to be so without what the guard saw. -/
def CmNotedAt (r : Reactor) (fd : AsyncFd) : Pc → Prop
  | .cmRead g => g ≤ fd.tick ∧ (r.stream.conn.tornDown = true → fd.Hot)
  | .cmClear g _ => g ≤ fd.tick ∧ (r.stream.conn.tornDown = true → fd.HotSince g)
  | _ => r.stream.conn.tornDown = true → fd.Hot

def CmNoted (r : Reactor) : Prop := ∀ fd, r.cm = some fd → r.CmNotedAt fd r.pc

/-- When the call reads an event off the CM channel, the read being let through, no
    teardown event is queued behind it, or the fd has signalled anew since readiness was
    polled. -/
def unburied (r : Reactor) : Bool :=
  match r.cm, r.pc with
  | some fd, .cmRead g => r.stream.conn.faults.head? == some true ||
      !r.stream.conn.cmq.tail.any CmEvent.gone || fd.edge || fd.tick != g
  | _, _ => true

section Cm
variable {r r' : Reactor} {l : Turned} {fd : AsyncFd} {pc : Pc} {t : HordStream}

theorem CmNotedAt.hot (h : r.CmNotedAt fd pc) : r.stream.conn.tornDown = true → fd.Hot := by
  cases pc with
  | cmRead g => exact h.2
  | cmClear g gone => exact fun ht => (h.2 ht).hot
  | _ => exact h

/-- Nothing but the CM queue and the CM fd matters. -/
theorem CmNotedAt.congr (h : r.CmNotedAt fd pc) (hcm : r'.stream.conn.cmq = r.stream.conn.cmq) :
    r'.CmNotedAt fd pc := by
  unfold CmNotedAt Connection.tornDown at *
  rw [hcm]
  exact h

theorem CmNotedAt.signal (h : r.CmNotedAt fd pc) : r'.CmNotedAt fd.signal pc := by
  cases pc with
  | cmRead g => exact ⟨h.1, fun _ => fd.signal_hot⟩
  | cmClear g gone => exact ⟨h.1, fun _ => fd.signal_hotSince g⟩
  | _ => exact fun _ => fd.signal_hot

theorem CmNotedAt.record (h : r.CmNotedAt fd pc) : r'.CmNotedAt fd.record pc := by
  cases pc with
  | cmRead g => exact ⟨Nat.le_succ_of_le h.1, fun _ => fd.record_hot⟩
  | cmClear g gone => exact ⟨Nat.le_succ_of_le h.1, fun _ => AsyncFd.record_hotSince h.1⟩
  | _ => exact fun _ => fd.record_hot

/-- A new event on the CM channel signals its fd, so only the old ones matter. -/
theorem CmNoted.nic (h : r.CmNoted) : (r.noticed t).CmNoted := by
  intro fd' hfd'
  by_cases hsame : t.conn.cmq = r.stream.conn.cmq
  · have hcm : r.cm = some fd' := by simpa [noticed, hsame] using hfd'
    exact (h fd' hcm).congr hsame
  · have hcm : r.cm.map AsyncFd.signal = some fd' := by simpa [noticed, hsame] using hfd'
    obtain ⟨fd, hfd, rfl⟩ := Option.map_eq_some_iff.mp hcm
    exact (h fd hfd).signal

/-- A step to a place where no guard of the CM fd is held. -/
theorem CmNoted.unguarded (h : r.CmNoted) (hfd : r'.cm = r.cm)
    (hcm : r'.stream.conn.cmq = r.stream.conn.cmq) (hread : ∀ g, r'.pc ≠ .cmRead g)
    (hclear : ∀ g gone, r'.pc ≠ .cmClear g gone) : r'.CmNoted := by
  intro fd hr
  have hhot : r'.stream.conn.tornDown = true → fd.Hot := by
    unfold Connection.tornDown
    rw [hcm]
    exact (h fd (hfd ▸ hr)).hot
  cases hpc : r'.pc with
  | cmRead g => exact absurd hpc (hread g)
  | cmClear g gone => exact absurd hpc (hclear g gone)
  | _ => exact hhot

theorem CmNoted.drainStep {more : Pc} {done : Turned × Pc} (h : r.CmNoted)
    (hstep : r.drainStep more done = (l, r')) (hread : ∀ g, more ≠ .cmRead g ∧ done.2 ≠ .cmRead g)
    (hclear : ∀ g gone, more ≠ .cmClear g gone ∧ done.2 ≠ .cmClear g gone) : r'.CmNoted := by
  obtain ⟨t, hcm, ⟨rfl, rfl⟩ | ⟨-, -, -, rfl, rfl⟩ | ⟨rfl, rfl⟩⟩ := drainStep_cases hstep
  · exact h.unguarded rfl hcm (fun g => (hread g).1) fun g gone => (hclear g gone).1
  · exact h.unguarded rfl hcm (fun g => (hread g).2) fun g gone => (hclear g gone).2
  · exact h.unguarded rfl hcm nofun nofun

theorem CmNoted.armStep {next : Pc} (h : r.CmNoted) (hstep : r.armStep next = (l, r'))
    (hread : ∀ g, next ≠ .cmRead g) (hclear : ∀ g gone, next ≠ .cmClear g gone) : r'.CmNoted := by
  obtain ⟨t, -, hcm, ⟨rfl, -, rfl⟩ | ⟨rfl, rfl⟩⟩ := armStep_cases hstep
  · exact h.unguarded rfl hcm hread hclear
  · exact h.unguarded rfl hcm nofun nofun

/-- The steps of the call. Reading an event is the one that can lose something: the
    event behind it is left to readiness the guard will clear. -/
theorem CmNoted.advance (h : r.CmNoted) (hbury : r.unburied = true) (hstep : r.advance = some (l, r')) :
    r'.CmNoted := by
  unfold Reactor.advance at hstep
  cases hpc : r.pc with
  | idle => simp [hpc] at hstep
  | parked => simp [hpc] at hstep
  | drain n =>
    simp only [hpc, Option.some.injEq] at hstep
    refine h.drainStep hstep (fun g => ⟨nofun, ?_⟩) fun g gone => ⟨nofun, ?_⟩ <;> split <;> nofun
  | redrain n =>
    simp only [hpc, Option.some.injEq] at hstep
    refine h.drainStep hstep (fun g => ⟨nofun, ?_⟩) fun g gone => ⟨nofun, ?_⟩ <;> split <;> nofun
  | drainWoken g n =>
    simp only [hpc, Option.some.injEq] at hstep
    exact h.drainStep hstep (fun g => ⟨nofun, nofun⟩) fun g gone => ⟨nofun, nofun⟩
  | arm =>
    simp only [hpc, Option.some.injEq] at hstep
    exact h.armStep hstep nofun nofun
  | rearm g =>
    simp only [hpc, Option.some.injEq] at hstep
    exact h.armStep hstep nofun nofun
  | park =>
    simp only [hpc] at hstep
    split at hstep
    · cases hstep
      exact h.unguarded rfl rfl nofun nofun
    · cases hstep
      exact h.unguarded rfl rfl nofun nofun
  | consume g =>
    simp only [hpc] at hstep
    cases hstep
    exact h.unguarded rfl rfl nofun nofun
  | clear g n =>
    simp only [hpc] at hstep
    cases hstep
    refine h.unguarded rfl rfl (fun g => ?_) (fun g gone => ?_) <;> simp only <;> split <;> nofun
  | cmReady =>
    simp only [hpc] at hstep
    cases hcm : r.cm with
    | none =>
      simp only [hcm] at hstep
      cases hstep
      exact h.unguarded hcm.symm rfl nofun nofun
    | some fd =>
      have hfd := h fd hcm
      simp only [hcm, AsyncFd.pollReadReady] at hstep
      cases hr : fd.ready with
      | true =>
        simp only [hr, if_true] at hstep
        cases hstep
        intro fd' heq
        cases heq
        exact ⟨Nat.le_refl _, hfd.hot⟩
      | false =>
        simp only [hr, Bool.false_eq_true, if_false] at hstep
        cases hstep
        intro fd' heq
        cases heq
        intro ht
        exact (hfd.hot ht).imp_right fun hready => by rw [hr] at hready; exact hready
  | cmRead g =>
    simp only [hpc, Option.some.injEq, act] at hstep
    have hq := pollCmEvent_queues r.stream
    cases hrun : Act.pollCmEvent.run r.stream with
    | error e t =>
      rw [hrun] at hstep
      cases hstep
      exact h.unguarded rfl (wp_error hq hrun).2 nofun nofun
    | ok v t =>
      rw [hrun] at hstep
      cases hstep
      intro fd (hcm : r.cm = some fd)
      have hfd := h fd hcm
      rw [hpc] at hfd
      refine ⟨hfd.1, fun ht => ?_⟩
      -- a teardown behind the event just read was signalled after the guard was taken
      have htail : r.stream.conn.cmq.tail.any CmEvent.gone = true := by
        have : t.conn.cmq = r.stream.conn.cmq.tail := (wp_ok hq hrun).2
        rw [← this]
        exact ht
      have htorn : r.stream.conn.tornDown = true := by
        obtain ⟨e, he, hgone⟩ := List.any_eq_true.mp htail
        exact List.any_eq_true.mpr ⟨e, List.mem_of_mem_tail he, hgone⟩
      have hread : r.stream.conn.faults.head? ≠ some true := fun hf =>
        wp_ok (pollCmEvent_refused hf) hrun v rfl
      simp only [unburied, hcm, hpc, htail, Bool.not_true, Bool.or_false, Bool.or_eq_true, beq_iff_eq,
        hread, false_or, bne_iff_ne] at hbury
      exact (hfd.2 htorn).since hfd.1 hbury
  | cmClear g gone =>
    simp only [hpc, Option.some.injEq] at hstep
    cases hstep
    intro fd' hcm'
    obtain ⟨fd, hcm, rfl⟩ := Option.map_eq_some_iff.mp hcm'
    have hfd := h fd hcm
    rw [hpc] at hfd
    cases gone with
    | true => exact fun ht => (hfd.2 ht).cleared
    | false => exact fun ht => (hfd.2 ht).cleared

theorem Step.cmNoted (hs : Step r l r') (hbury : r.unburied = true) (h : r.CmNoted) : r'.CmNoted := by
  cases hs with
  | nic t landed henv hcq => exact h.nic
  | driver => exact fun fd hfd => (h fd hfd).congr rfl
  | driverCm fd hfd =>
    intro fd' heq
    cases heq
    exact (h fd hfd).record
  | owner a v t hpc ha hrun =>
    have hcm := congrArg Prod.snd ((Act.keeps_queues (Act.unwatched ha)).ok hrun)
    exact fun fd hfd => (h fd hfd).congr hcm
  | ownerErr a e t hpc ha hrun =>
    have hcm := congrArg Prod.snd ((Act.keeps_queues (Act.unwatched ha)).error hrun)
    exact fun fd hfd => (h fd hfd).congr hcm
  | start hpc => exact h.unguarded rfl rfl nofun nofun
  | advance _ _ hadv => exact h.advance hbury hadv
  | refused hpc => exact h.unguarded rfl rfl nofun nofun

end Cm

end Reactor

/-- In a run in which no event is read in front of a teardown event that only the
    guard's readiness covers, `poll_cm_event` returns `Ok(false)` with the channel free of
    teardown events or its fd about to be reported. -/
theorem cm_teardown_noted {r₀ r : Reactor} {ls : List Turned} (h₀ : r₀.pc = .idle)
    (hsig : ∀ fd, r₀.cm = some fd → r₀.stream.conn.tornDown = true → fd.Hot)
    (hrun : Run (fun r l r' => Reactor.Step r l r' ∧ r.unburied = true) r₀ ls r) :
    ∀ ms fd, ls = ms ++ [.quiet] → r.cm = some fd →
      r.stream.conn.tornDown = false ∨ fd.edge = true ∨ fd.ready = true := by
  have hstart : r₀.CmNoted := fun fd hfd => by
    rw [h₀]
    exact hsig fd hfd
  have hnoted := hrun.inv (I := Reactor.CmNoted) (fun _ _ _ h hs => hs.1.cmNoted hs.2 h) hstart
  intro ms fd _ hfd
  cases ht : r.stream.conn.tornDown with
  | false => exact .inl rfl
  | true => exact .inr ((hnoted fd hfd).hot ht)

/-- A CM event is read, and a disconnect arrives before its readiness is cleared. -/
theorem cm_teardown_noted_late : ∃ p ms q ls r fd, p.Init ∧ Run Party.Step p ms q ∧ q.phase = .up ∧
    Run (fun r l r' => Reactor.Step r l r' ∧ r.unburied = true) (Reactor.wrap q.stream)
      (ls ++ [.quiet]) r ∧
    r.cm = some fd ∧ r.stream.conn.tornDown = true ∧ (fd.edge = true ∨ fd.ready = true) := by
  obtain ⟨p, ms, q, ls, r, hinit, hrun, hup, hreact, hgood⟩ := Reactor.launch_run Reactor.unburied
    [.nic (.cm .other), .driverCm, .start, .step, .step, .step, .nic (.cm .disconnected), .step, .step]
    (fun ls r => decide (ls.getLast? = some .quiet) && r.stream.conn.tornDown && r.cm.isSome)
    (by decide +kernel)
  rw [Bool.and_eq_true, Bool.and_eq_true, decide_eq_true_eq, Option.isSome_iff_exists] at hgood
  obtain ⟨⟨hlast, htorn⟩, fd, hfd⟩ := hgood
  obtain ⟨ns, rfl⟩ := List.getLast?_eq_some_iff.mp hlast
  have hnoted := cm_teardown_noted (Reactor.wrap_init q.stream).1
    (fun fd hfd ht => ?_) hreact ns fd rfl hfd
  · rw [htorn] at hnoted
    exact ⟨p, ms, q, ns, r, fd, hinit, hrun, hup, hreact, hfd, htorn, hnoted.resolve_left nofun⟩
  · cases hfd
    refine .inl ?_
    simp only [Reactor.wrap, Connection.tornDown] at ht ⊢
    cases hq : q.stream.conn.cmq with
    | nil => rw [hq] at ht; cases ht
    | cons e es => rfl

/-- Two CM events are queued when the call looks: it reads the first, clears the
    readiness of both, and reports no disconnect with one unread. -/
theorem cm_teardown_buried : ¬∀ (p : Party) (ms : List Move) (q : Party) (ls : List Turned)
    (r : Reactor) (fd : AsyncFd), p.Init → Run Party.Step p ms q → q.phase = .up →
    Run Reactor.Step (Reactor.wrap q.stream) (ls ++ [.quiet]) r → r.cm = some fd →
    r.stream.conn.tornDown = false ∨ fd.edge = true ∨ fd.ready = true := by
  intro h
  obtain ⟨p, ms, q, ls, r, hinit, hrun, hup, hreact, hgood⟩ := Reactor.launch_run (fun _ => true)
    [.nic (.cm .other), .nic (.cm .disconnected), .driverCm, .start, .step, .step, .step, .step, .step]
    (fun ls r => decide (ls.getLast? = some .quiet) && r.stream.conn.tornDown &&
      r.cm.any fun fd => !fd.edge && !fd.ready) (by decide +kernel)
  rw [Bool.and_eq_true, Bool.and_eq_true, decide_eq_true_eq, Option.any_eq_true] at hgood
  obtain ⟨⟨hlast, htorn⟩, fd, hfd, hcold⟩ := hgood
  obtain ⟨ns, rfl⟩ := List.getLast?_eq_some_iff.mp hlast
  have hor := h p ms q ns r fd hinit hrun hup (hreact.mono fun _ _ _ hs => hs.1) hfd
  rw [htorn] at hor
  simp only [Bool.and_eq_true, Bool.not_eq_true'] at hcold
  rcases hor.resolve_left nofun with he | hr
  · rw [hcold.1] at he
    cases he
  · rw [hcold.2] at hr
    cases hr

/-! The stream inside the reactor. -/

/-- A step of the reactor is at most one move of the endpoint it drives, so all that
    holds of endpoints holds of it. -/
theorem Reactor.Step.party {r r' : Reactor} {l : Turned} (hs : Reactor.Step r l r') (config : HordConfig) :
    ∃ ms, Run Party.Step ⟨config, r.stream, .up⟩ ms ⟨config, r'.stream, .up⟩ := by
  have acted : ∀ {a : Act} {k : Res → Turned × Pc}, r.act a k = (l, r') →
      ∃ ms, Run Party.Step ⟨config, r.stream, .up⟩ ms ⟨config, r'.stream, .up⟩ := by
    intro a k h
    unfold Reactor.act at h
    split at h
    · next v t hrun =>
      cases h
      exact ⟨_, .single (.act ⟨config, r.stream, .up⟩ t a v rfl hrun)⟩
    · next e t hrun =>
      cases h
      exact ⟨_, .single (.actErr ⟨config, r.stream, .up⟩ t a e rfl hrun)⟩
  have armed : ∀ {next : Pc}, r.armStep next = (l, r') →
      ∃ ms, Run Party.Step ⟨config, r.stream, .up⟩ ms ⟨config, r'.stream, .up⟩ := by
    intro next h
    unfold Reactor.armStep at h
    split at h
    · next v t hrun =>
      cases h
      exact ⟨_, .single (.act ⟨config, r.stream, .up⟩ t .armCq v rfl hrun)⟩
    · next e t hrun =>
      cases h
      exact ⟨_, .single (.actErr ⟨config, r.stream, .up⟩ t .armCq e rfl hrun)⟩
  have still : r'.stream = r.stream →
      ∃ ms, Run Party.Step ⟨config, r.stream, .up⟩ ms ⟨config, r'.stream, .up⟩ := by
    intro h
    rw [h]
    exact ⟨[], .nil _⟩
  -- the waker, the reactor and the start of a call leave the stream alone
  cases hs with
  | nic t landed henv hcq => exact ⟨_, .single (.env ⟨config, r.stream, .up⟩ t henv)⟩
  | owner a v t hpc ha hrun => exact ⟨_, .single (.act ⟨config, r.stream, .up⟩ t a v rfl hrun)⟩
  | ownerErr a e t hpc ha hrun => exact ⟨_, .single (.actErr ⟨config, r.stream, .up⟩ t a e rfl hrun)⟩
  | driver => exact still rfl
  | driverCm fd hfd => exact still rfl
  | start hpc => exact still rfl
  | refused hpc => exact still rfl
  | advance _ _ hadv =>
    unfold Reactor.advance at hadv
    split at hadv
    · cases hadv
    · cases hadv
    · exact acted (Option.some.inj hadv)
    · split at hadv
      · cases hadv; exact still rfl
      · split at hadv <;> cases hadv <;> exact still rfl
    · exact acted (Option.some.inj hadv)
    · cases hadv; exact still rfl
    · exact armed (Option.some.inj hadv)
    · exact acted (Option.some.inj hadv)
    · split at hadv <;> cases hadv <;> exact still rfl
    · cases hadv; exact still rfl
    · exact armed (Option.some.inj hadv)
    · exact acted (Option.some.inj hadv)
    · cases hadv; exact still rfl

end Hord
