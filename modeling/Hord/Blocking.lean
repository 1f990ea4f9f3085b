import Hord.Integrity

/- The blocking calls of a stream (`hord-stream/src/stream.rs`). Each is a loop around the
   non-blocking calls and `pump(true)`, which busy-polls the completion queue and now and
   then looks at the connection manager. Between two of its steps the device and the other
   end move, so a call is a small machine: a `Job` says which step comes next, `Job.next`
   what follows from its result. The tests between two steps read only fields the device
   does not touch, so they belong to the step before them.

   Correspondence (Rust ↔ Lean):
     `pump(true)`                                   ↔ `Wait`, `Wait.next`
     `Read::read` / `Write::write` / `Write::flush` ↔ `Call.read` / `Call.write` / `Call.flush`
     `poll_completed_transfer`                      ↔ `Call.pollCompletedTransfer`
     `drive_write_all`                              ↔ `Point.post`, `drainWrites`
     `rdma_write_gather_all_inner`                  ↔ `Call.rdmaWriteGatherAll`, `Gather.loop`
     `rdma_write_all_inner`                         ↔ `Call.rdmaWriteAll`
   A `Session` is the pair of endpoints with the call each of their owners is in. -/
namespace Hord

open Region Prog Transition CreditLink

/-- Empty polls before the CM channel is looked at. -/
def cmDisconnectPollSpins : Nat := 4096

/-- Inside `pump(true)`: about to poll, after so many empty polls, or about to look at the
    CM channel. -/
inductive Wait where
  | poll (spins : Nat)
  | cm
  deriving DecidableEq

def Wait.act : Wait → Act
  | .poll _ => .pump
  | .cm => .pollCmDisconnect

/-- What a step of `pump(true)` leads to; `none` when it returns. -/
def Wait.next : Wait → Bool → Option Wait
  | .poll _, true => none
  | .poll spins, false =>
    if cmDisconnectPollSpins ≤ spins + 1 then some .cm else some (.poll (spins + 1))
  | .cm, true => none
  | .cm, false => some (.poll 0)

/-- A gather on its way: `start` segments and `base` bytes are delivered, the batch being
    delivered has `count` segments and `bytes` bytes. -/
structure Gather where
  segments : List WriteSegment
  peerAddr : Nat
  peerRkey : Nat
  imm : Option Nat
  start : Nat
  base : Nat
  count : Nat
  bytes : Nat
  deriving DecidableEq

/-- Post the batch; the immediate rides the last one. -/
def Gather.act (g : Gather) : Act :=
  .beginWrite ((g.segments.drop g.start).take g.count) ((g.peerAddr + g.base) % 2 ^ 64) g.peerRkey
    (if g.start + g.count = g.segments.length then g.imm else none)

/-- A step of a blocking call other than a wait. -/
inductive Point where
  | tryRead (n : Nat)
  | returnOwedCredits (n : Nat)
  | tryWrite (data : Bytes) (off : Nat)
  | tryFlushStage
  | nextCompletedTransfer
  | post (g : Gather)
  | once (a : Act)
  deriving DecidableEq

/-- The loop a wait belongs to. -/
inductive Loop where
  | read (n : Nat)
  | write (data : Bytes) (off : Nat)
  | flushStage
  | flushSends
  | transfer
  | post (g : Gather)
  | drain (g : Gather) (posted : Except Fail Unit)

/-- The next step of a blocking call. -/
inductive Job where
  | doing (p : Point)
  | waiting (l : Loop) (w : Wait)

def Point.act : Point → Act
  | .tryRead n => .tryRead n
  | .returnOwedCredits _ => .returnOwedCredits false
  | .tryWrite data off => .tryWrite (data.drop off)
  | .tryFlushStage => .tryFlushStage
  | .nextCompletedTransfer => .nextCompletedTransfer
  | .post g => g.act
  | .once a => a

def Job.act : Job → Act
  | .doing p => p.act
  | .waiting _ w => w.act

/-- A call goes on, or returns. -/
inductive Next where
  | cont (j : Job)
  | ret (r : Except Fail Res)

/-- Enter `pump(true)`. -/
def Loop.pump (l : Loop) : Next := .cont (.waiting l (.poll 0))

/-- `while off < data.len()`. -/
def writeLoop (data : Bytes) (off : Nat) : Next :=
  if off < data.length then .cont (.doing (.tryWrite data off)) else .ret (.ok (.count data.length))

def unacknowledged : Fail :=
  .io ⟨.brokenPipe, "connection closed before all sends were acknowledged"⟩

/-- The second loop of `flush`. -/
def drainSends (s : HordStream) : Next :=
  if s.sendsOutstanding || s.writesPending then
    if s.peerClosed then .ret (.error unacknowledged) else Loop.flushSends.pump
  else .ret (.ok .unit)

/-- `while start < segments.len()`. -/
def Gather.loop (s : HordStream) (g : Gather) : Next :=
  if g.start < g.segments.length then
    match s.nextGatherBatch g.segments g.start with
    | .error e => .ret (.error e)
    | .ok (count, bytes) => .cont (.doing (.post { g with count := count, bytes := bytes }))
  else .ret (.ok .unit)

/-- The drain of `drive_write_all`, and what the batch ends with. -/
def drainWrites (s : HordStream) (g : Gather) (posted : Except Fail Unit) : Next :=
  if s.writesPending then (Loop.drain g posted).pump
  else match posted with
    | .error e => .ret (.error e)
    | .ok () =>
      if s.peerClosed then
        .ret (.error (.io ⟨.brokenPipe, "connection closed before the RDMA write completed"⟩))
      else Gather.loop s { g with start := g.start + g.count, base := g.base + g.bytes }

/-- What follows a step with result `r` that left the stream in `s`. -/
def Point.next (s : HordStream) : Point → Except Fail Res → Next
  | .once _, r => .ret r
  | .post g, .error (.io e) =>
    if e.kind = .wouldBlock then
      if !s.sendsOutstanding && !s.writesPending then
        drainWrites s g (.error (.other "RDMA write back-pressured with nothing in flight to drain"))
      else (Loop.post g).pump
    else drainWrites s g (.error (.io e))
  | .post g, .ok .unit => drainWrites s g (.ok ())
  | _, .error e => .ret (.error e)
  | .tryRead n, .ok (.bytes none) => .cont (.doing (.returnOwedCredits n))
  | .returnOwedCredits n, .ok .unit => (Loop.read n).pump
  | .tryWrite data off, .ok (.count n) =>
    if n = 0 then (Loop.write data off).pump else writeLoop data (off + n)
  | .tryFlushStage, .ok (.flag true) => drainSends s
  | .tryFlushStage, .ok (.flag false) =>
    if s.peerClosed then .ret (.error unacknowledged) else Loop.flushStage.pump
  | .nextCompletedTransfer, .ok (.transfer none) =>
    if s.peerClosed then .ret (.ok (.transfer none)) else Loop.transfer.pump
  | _, .ok v => .ret (.ok v)

/-- What follows when `pump(true)` returns. -/
def Loop.next (s : HordStream) : Loop → Next
  | .read n => .cont (.doing (.tryRead n))
  | .write data off => writeLoop data off
  | .flushStage => .cont (.doing .tryFlushStage)
  | .flushSends => drainSends s
  | .transfer => .cont (.doing .nextCompletedTransfer)
  | .post g => .cont (.doing (.post g))
  | .drain g posted => drainWrites s g posted

def Job.next (s : HordStream) : Job → Except Fail Res → Next
  | .doing p, r => p.next s r
  | .waiting l w, .ok (.flag b) =>
    match w.next b with
    | some w => .cont (.waiting l w)
    | none => l.next s
  | .waiting _ _, r => .ret r

/-- A call of the owner: one of the blocking ones, or a single non-blocking step. -/
inductive Call where
  | read (n : Nat)
  | write (data : Bytes)
  | flush
  | pollCompletedTransfer
  | rdmaWriteAll (src : RegisteredBuffer) (srcOff peerAddr peerRkey len : Nat) (imm : Option Nat)
  | rdmaWriteGatherAll (segments : List WriteSegment) (peerAddr peerRkey : Nat) (imm : Option Nat)
  | act (a : Act)
  deriving DecidableEq

/-- What a call does first. -/
def Call.start (s : HordStream) : Call → Next
  | .read n => .cont (.doing (.tryRead n))
  | .write data =>
    if s.peerClosed then .ret (.error (.io ⟨.brokenPipe, "connection closed"⟩)) else writeLoop data 0
  | .flush => .cont (.doing .tryFlushStage)
  | .pollCompletedTransfer => .cont (.doing .nextCompletedTransfer)
  | .rdmaWriteAll src srcOff peerAddr peerRkey len imm =>
    match WriteSegment.fromRegistered src srcOff len with
    | .error e => .ret (.error e)
    | .ok seg => .cont (.doing (.post ⟨[seg], peerAddr, peerRkey, imm, 0, 0, 1, len⟩))
  | .rdmaWriteGatherAll segments peerAddr peerRkey imm =>
    if segments.isEmpty then .cont (.doing (.post ⟨[], peerAddr, peerRkey, imm, 0, 0, 0, 0⟩))
    else Gather.loop s ⟨segments, peerAddr, peerRkey, imm, 0, 0, 0, 0⟩
  | .act a => .cont (.doing (.once a))

/-- The bytes on their way out: posted and not yet carried, then staged. -/
def HordStream.outgoing (s : HordStream) : Bytes := s.traffic.outgoing

/-- A call its owner is in; `took` when one of its steps has changed what is on its way
    out. -/
structure Running where
  call : Call
  now : Next
  took : Bool

/-- One endpoint with the call its owner is in. -/
structure Owner where
  party : Party
  call : Option Running

/-- What happened in one step of an owner's endpoint. -/
inductive Doing where
  | enter (c : Call)
  | move (m : Hord.Move)
  | leave (c : Call) (r : Except Fail Res)

/-- A step of an established stream, which only its owner's call makes. -/
def Move.isAct : Hord.Move → Bool
  | .act _ _ => true
  | _ => false

namespace Owner

def stream (o : Owner) : HordStream := o.party.stream

inductive Step : Owner → Doing → Owner → Prop
  | enter (o : Owner) (c : Call) (hup : o.party.phase = .up) (hidle : o.call = none) :
      Step o (.enter c) { o with call := some ⟨c, c.start o.stream, false⟩ }
  | act (o : Owner) (c : Call) (j : Job) (took : Bool) (r : Except Fail Res) (q : Party)
      (hcall : o.call = some ⟨c, .cont j, took⟩) (h : Party.Step o.party (.act j.act r) q) :
      Step o (.move (.act j.act r))
        ⟨q, some ⟨c, j.next q.stream r, took || q.stream.outgoing != o.stream.outgoing⟩⟩
  /-- Setting up, and the device under any peer. -/
  | other (o : Owner) (m : Hord.Move) (q : Party) (h : Party.Step o.party m q) (hm : m.isAct = false) :
      Step o (.move m) { o with party := q }
  | leave (o : Owner) (c : Call) (r : Except Fail Res) (took : Bool)
      (hcall : o.call = some ⟨c, .ret r, took⟩) : Step o (.leave c r) { o with call := none }

/-- As `new_common` returns the endpoint, in no call. -/
def Init (o : Owner) : Prop := o.party.Init ∧ o.call = none

end Owner

structure Session where
  duo : Duo
  calls : Side → Option Running

/-- What happened in one step of a session. -/
inductive Deed where
  | enter (x : Side) (c : Call)
  | move (l : Event)
  | leave (x : Side) (c : Call) (r : Except Fail Res)

def Event.isAct : Event → Bool
  | .call _ m => m.isAct
  | _ => false

namespace Session

def stream (u : Session) (x : Side) : HordStream := (u.duo.get x).stream

def setCall (u : Session) (x : Side) (r : Option Running) : Session :=
  { u with calls := Function.update u.calls x r }

@[simp] theorem setCall_duo (u : Session) (x : Side) (r : Option Running) : (u.setCall x r).duo = u.duo := rfl

@[simp] theorem setCall_calls (u : Session) (x : Side) (r : Option Running) : (u.setCall x r).calls x = r :=
  Function.update_self ..

@[simp] theorem setCall_other (u : Session) (x : Side) (r : Option Running) :
    (u.setCall x r).calls x.other = u.calls x.other :=
  Function.update_of_ne (Side.other_ne x) ..

@[simp] theorem setCall_other' (u : Session) (x : Side) (r : Option Running) :
    (u.setCall x.other r).calls x = u.calls x :=
  Function.update_of_ne (Side.ne_other x) ..

inductive Step : Session → Deed → Session → Prop
  | enter (u : Session) (x : Side) (c : Call) (hup : (u.duo.get x).phase = .up)
      (hidle : u.calls x = none) :
      Step u (.enter x c) (u.setCall x (some ⟨c, c.start (u.stream x), false⟩))
  | act (u : Session) (x : Side) (c : Call) (j : Job) (took : Bool) (r : Except Fail Res) (e : Duo)
      (hcall : u.calls x = some ⟨c, .cont j, took⟩) (h : Duo.Step u.duo (.call x (.act j.act r)) e) :
      Step u (.move (.call x (.act j.act r)))
        (Session.mk e u.calls |>.setCall x (some ⟨c, j.next (e.get x).stream r,
          took || (e.get x).stream.outgoing != (u.stream x).outgoing⟩))
  /-- Setting up, the transport, the device. -/
  | other (u : Session) (l : Event) (e : Duo) (h : Duo.Step u.duo l e) (hl : l.isAct = false) :
      Step u (.move l) { u with duo := e }
  | leave (u : Session) (x : Side) (c : Call) (r : Except Fail Res) (took : Bool)
      (hcall : u.calls x = some ⟨c, .ret r, took⟩) : Step u (.leave x c r) (u.setCall x none)

/-- Both ends as `new_common` returns them, neither in a call. -/
def Init (u : Session) : Prop := u.duo.Init ∧ ∀ x, u.calls x = none

/-- A step of a session is a step of the pair, or leaves the pair alone. -/
theorem Step.duo {u v : Session} {l : Deed} (h : Step u l v) :
    (∃ m, l = .move m ∧ Duo.Step u.duo m v.duo) ∨ (∀ m, l ≠ .move m) ∧ v.duo = u.duo := by
  cases h with
  | enter x c => exact .inr ⟨fun _ hm => (by cases hm), rfl⟩
  | act x c j took r e hcall h => exact .inl ⟨_, rfl, h⟩
  | other m e h => exact .inl ⟨m, rfl, h⟩
  | leave x c r took hcall => exact .inr ⟨fun _ hm => (by cases hm), rfl⟩

end Session

/-! What a step of a call reports. -/

/-- The bytes a result delivers. -/
def delivered : Except Fail Res → Bytes
  | .ok v => v.read
  | .error _ => []

/-- The bytes a call is about to return. -/
def Next.delivered : Next → Bytes
  | .cont _ => []
  | .ret r => Hord.delivered r

section Reports
variable (s : HordStream)

@[simp] theorem Loop.pump_delivered (l : Loop) : l.pump.delivered = [] := rfl

@[simp] theorem writeLoop_delivered (data : Bytes) (off : Nat) : (writeLoop data off).delivered = [] := by
  unfold writeLoop
  split <;> rfl

@[simp] theorem drainSends_delivered : (drainSends s).delivered = [] := by
  unfold drainSends
  split
  · split <;> rfl
  · rfl

@[simp] theorem Gather.loop_delivered (g : Gather) : (g.loop s).delivered = [] := by
  unfold Gather.loop
  split
  · split <;> rfl
  · rfl

@[simp] theorem drainWrites_delivered (g : Gather) (posted : Except Fail Unit) :
    (drainWrites s g posted).delivered = [] := by
  unfold drainWrites
  split
  · rfl
  · split
    · rfl
    · split
      · rfl
      · exact Gather.loop_delivered s _

theorem Loop.next_delivered (l : Loop) : (l.next s).delivered = [] := by
  cases l with
  | write data off => exact writeLoop_delivered data off
  | flushSends => exact drainSends_delivered s
  | drain g posted => exact drainWrites_delivered s g posted
  | _ => rfl

theorem Point.next_delivered (p : Point) (r : Except Fail Res) : (p.next s r).delivered = delivered r := by
  fun_cases Point.next s p r with
  | case1 => rfl
  | case2 => exact drainWrites_delivered s _ _
  | case3 => rfl
  | case4 => exact drainWrites_delivered s _ _
  | case5 => exact drainWrites_delivered s _ _
  | _ => first | rfl | simp [delivered, Res.read]

/-- A call returns the bytes its step read, and keeps none of them back. -/
theorem Job.next_delivered (j : Job) (r : Except Fail Res) : (j.next s r).delivered = delivered r := by
  fun_cases Job.next s j r with
  | case1 p r => exact p.next_delivered s r
  | case2 l w b w' hw => rfl
  | case3 l w b hw => exact l.next_delivered s
  | case4 => rfl

theorem Call.start_delivered (c : Call) : (c.start s).delivered = [] := by
  fun_cases Call.start s c with
  | case3 data hopen => exact writeLoop_delivered data 0
  | case9 segments peerAddr peerRkey imm hne => exact Gather.loop_delivered s _
  | _ => rfl

end Reports

/-! Sessions that can be computed. -/

/-- One step of a session, as a script names it. -/
inductive Cue where
  | turn (c : Turn)
  | enter (x : Side) (c : Call)
  | act (x : Side)
  | leave (x : Side)

/-- The result of a call and the stream it leaves. -/
def Act.outcome (a : Act) (s : HordStream) : Except Fail Res × HordStream :=
  match a.run s with
  | .ok v t => (.ok v, t)
  | .error e t => (.error e, t)

def Session.exec (u : Session) : Cue → Option (Deed × Session)
  | .turn c =>
    match u.duo.exec c with
    | none => none
    | some (l, e) => if l.isAct then none else some (.move l, { u with duo := e })
  | .enter x c =>
    if (u.duo.get x).phase = .up ∧ (u.calls x).isNone then
      some (.enter x c, u.setCall x (some ⟨c, c.start (u.stream x), false⟩))
    else none
  | .act x =>
    match u.calls x with
    | some ⟨c, .cont j, took⟩ =>
      if (u.duo.get x).phase = .up then
        let o := j.act.outcome (u.stream x)
        some (.move (.call x (.act j.act o.1)),
          Session.mk (u.duo.set x { u.duo.get x with stream := o.2 }) u.calls |>.setCall x
            (some ⟨c, j.next o.2 o.1, took || o.2.outgoing != (u.stream x).outgoing⟩))
      else none
    | _ => none
  | .leave x =>
    match u.calls x with
    | some ⟨c, .ret r, _⟩ => some (.leave x c r, u.setCall x none)
    | _ => none

theorem Act.outcome_step {p : Party} (a : Act) (hup : p.phase = .up) :
    Party.Step p (.act a (a.outcome p.stream).1) { p with stream := (a.outcome p.stream).2 } := by
  unfold Act.outcome
  split
  · next v t hr => exact .act p t a v hup hr
  · next e t hr => exact .actErr p t a e hup hr

theorem Act.outcome_wp {a : Act} {s : HordStream} {Q : Except Fail Res → HordStream → Prop}
    (h : wp a.run s Q) : Q (a.outcome s).1 (a.outcome s).2 := by
  unfold wp at h
  unfold Act.outcome
  split at h
  · next hr => rw [hr]; exact h
  · next hr => rw [hr]; exact h

theorem Act.outcome_reaches {a : Act} {s t : HordStream} {r : Except Fail Res} (hwf : Wf s)
    (h : a.outcome s = (r, t)) : Reaches s t := by
  have := Act.outcome_wp (a.reaches_wp hwf)
  rwa [h] at this

/-- A step of an established stream is a run of its call. -/
theorem Party.Step.outcome {p q : Party} {a : Act} {r : Except Fail Res}
    (h : Party.Step p (.act a r) q) : p.phase = .up ∧ q = { p with stream := (a.outcome p.stream).2 } ∧
      r = (a.outcome p.stream).1 := by
  unfold Act.outcome
  cases h with
  | act t _ v hph hr =>
    rw [hr]
    exact ⟨hph, rfl, rfl⟩
  | actErr t _ e hph hr =>
    rw [hr]
    exact ⟨hph, rfl, rfl⟩

theorem Session.exec_step {u v : Session} {c : Cue} {l : Deed} (h : u.exec c = some (l, v)) :
    Session.Step u l v := by
  cases c with
  | turn c =>
    simp only [Session.exec] at h
    split at h
    · cases h
    · next m e he =>
      split at h
      · cases h
      · next hm =>
        cases h
        exact .other u m e (Duo.exec_step he) (eq_false_of_ne_true hm)
  | enter x c =>
    simp only [Session.exec] at h
    split at h
    · next hx =>
      cases h
      exact .enter u x c hx.1 (Option.isNone_iff_eq_none.mp hx.2)
    · cases h
  | act x =>
    simp only [Session.exec] at h
    split at h
    · next c j took hcall =>
      split at h
      · next hup =>
        cases h
        have hstep := Duo.Step.call u.duo x _ _ (j.act.outcome_step hup) rfl
        have hact := Session.Step.act u x c j took _ _ hcall hstep
        simp only [Duo.get_set] at hact
        exact hact
      · cases h
    · cases h
  | leave x =>
    simp only [Session.exec] at h
    split at h
    · next c r took hcall =>
      cases h
      exact .leave u x c r took hcall
    · cases h

/-- One step of an owner's endpoint, as a script names it. -/
inductive Play where
  | cmd (c : Cmd)
  | enter (c : Call)
  | act
  | leave

def Owner.exec (o : Owner) : Play → Option (Doing × Owner)
  | .cmd c =>
    match o.party.exec c with
    | none => none
    | some (m, q) => if m.isAct then none else some (.move m, { o with party := q })
  | .enter c =>
    if o.party.phase = .up ∧ o.call.isNone then
      some (.enter c, { o with call := some ⟨c, c.start o.stream, false⟩ })
    else none
  | .act =>
    match o.call with
    | some ⟨c, .cont j, took⟩ =>
      if o.party.phase = .up then
        let r := j.act.outcome o.stream
        some (.move (.act j.act r.1), ⟨{ o.party with stream := r.2 },
          some ⟨c, j.next r.2 r.1, took || r.2.outgoing != o.stream.outgoing⟩⟩)
      else none
    | _ => none
  | .leave =>
    match o.call with
    | some ⟨c, .ret r, _⟩ => some (.leave c r, { o with call := none })
    | _ => none

theorem Owner.exec_step (o : Owner) (c : Play) (l : Doing) (o' : Owner) (h : o.exec c = some (l, o')) :
    Owner.Step o l o' := by
  cases c with
  | cmd c =>
    simp only [Owner.exec] at h
    split at h
    · cases h
    · next m q hq =>
      split at h
      · cases h
      · next hm =>
        cases h
        exact .other o m q (Party.exec_step hq) (eq_false_of_ne_true hm)
  | enter c =>
    simp only [Owner.exec] at h
    split at h
    · next hx =>
      cases h
      exact .enter o c hx.1 (Option.isNone_iff_eq_none.mp hx.2)
    · cases h
  | act =>
    simp only [Owner.exec] at h
    split at h
    · next c j took hcall =>
      split at h
      · next hup =>
        cases h
        exact .act o c j took _ _ hcall (j.act.outcome_step hup)
      · cases h
    · cases h
  | leave =>
    simp only [Owner.exec] at h
    split at h
    · next c r took hcall =>
      cases h
      exact .leave o c r took hcall
    · cases h

/-- Build an endpoint in no call and carry a script out. -/
theorem Owner.launch_run (guard : Owner → Doing → Bool) (config : HordConfig) (cs : List Play)
    (good : List Doing → Owner → Bool)
    (h : (newCommon (Connection.new 1) config).toOption.any (fun s =>
      (play Owner.exec guard ⟨⟨config, s, .fresh⟩, none⟩ cs).any fun r => good r.1 r.2) = true) :
    ∃ o₀ ls o, o₀.Init ∧ Run (fun o l o' => Owner.Step o l o' ∧ guard o l = true) o₀ ls o ∧
      good ls o = true := by
  obtain ⟨p, ls, o, hinit, hrun, hgood⟩ := Party.play_run Owner.exec_step (Owner.mk · none) guard config cs good h
  exact ⟨⟨p, none⟩, ls, o, ⟨hinit, rfl⟩, hrun, hgood⟩

end Hord
