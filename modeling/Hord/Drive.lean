import Hord.Blocking
import Hord.Split

/- The async one-sided write (`drive_write` and `poll_rdma_write` of hord-async). The future
   posts a batch, waits in `poll_events` until its writes are acknowledged, and goes on with
   the next one. Between two polls other handles of the stream are polled, and the future
   may be dropped; a guard, armed until it resolves, then destroys the queue pair if writes
   are outstanding.

   Correspondence (Rust ↔ Lean):
     `poll_rdma_write`             ↔ `Drive.poll`, `Drive.posted`, `Drive.settle`
     `poll_events`                 ↔ the steps of the reactor, `Drive.after`
     the batch loop of `drive_write` ↔ `Drive.plan`
     `WriteCancelGuard::drop`      ↔ `Drive.cancel`
   A poll is not interrupted by other handles, only by the NIC and the event loop's
   driver. -/
namespace Hord

open Prog Transition

/-- Where the future stands. The error of a `poll_events` that failed is left out. -/
inductive DrivePc where
  | start
  | post
  | pressed
  | draining (posted : Except Fail Unit)
  | resolved (r : Except (Option Fail) Unit)
  | cancelled

structure Drive where
  reactor : Reactor
  gather : Gather
  pc : DrivePc
  polling : Bool

inductive DriveEvent where
  | outer (l : Turned)
  | others (l : Turned)
  | polled
  | posted
  | events (l : Turned)
  | dropped

def DrivePc.over : DrivePc → Bool
  | .resolved _ => true
  | .cancelled => true
  | _ => false

/-- Parked at an await point. -/
def DrivePc.awaits : DrivePc → Bool
  | .pressed => true
  | .draining _ => true
  | _ => false

/-- The future's own steps of the reactor. -/
def Turned.inner : Turned → Bool
  | .nic _ => false
  | .driver => false
  | .owner _ => false
  | .start => false
  | _ => true

namespace Drive

def stream (u : Drive) : HordStream := u.reactor.stream

def setStream (u : Drive) (t : HordStream) : Drive := { u with reactor := { u.reactor with stream := t } }

/-- `force_teardown`, if writes are outstanding. -/
def cancel (u : Drive) : Drive :=
  let s := u.stream
  let t := if s.writesPending then { s with conn := { s.conn with disconnected := true, qp := false } } else s
  { u.setStream t with pc := .cancelled, polling := false }

def resolve (u : Drive) (r : Except (Option Fail) Unit) : Drive :=
  { u with pc := .resolved r, polling := false }

/-- Call `poll_events`. -/
def await (u : Drive) (pc : DrivePc) : Drive :=
  { u with pc := pc, reactor := { u.reactor with pc := .drain 0 } }

/-- Plan the next batch; a panic drops the armed guard. -/
def plan (u : Drive) : Drive :=
  if u.gather.segments.isEmpty then
    { u with gather := { u.gather with count := 0, bytes := 0 }, pc := .post }
  else match u.stream.nextGatherBatch u.gather.segments u.gather.start with
    | .ok (count, bytes) => { u with gather := { u.gather with count := count, bytes := bytes }, pc := .post }
    | .error _ => u.cancel

def isLast (u : Drive) : Bool :=
  u.gather.segments.isEmpty || u.gather.start + u.gather.count == u.gather.segments.length

/-- Drain every write that was posted; then the batch is over. -/
def settle (u : Drive) (posted : Except Fail Unit) : Drive :=
  if u.stream.writesPending then u.await (.draining posted)
  else match posted with
    | .error e => u.resolve (.error (some e))
    | .ok () =>
      if u.stream.peerClosed then
        u.resolve (.error (some (.io ⟨.brokenPipe, "connection closed before the RDMA write completed"⟩)))
      else if u.isLast then u.resolve (.ok ())
      else plan { u with gather := { u.gather with start := u.gather.start + u.gather.count
                                                   base := u.gather.base + u.gather.bytes } }

/-- Post the batch. -/
def posted (u : Drive) : Drive :=
  let o := u.gather.act.outcome u.stream
  let v := u.setStream o.2
  match o.1 with
  | .ok _ => v.settle (.ok ())
  | .error (.panic _) => v.cancel
  | .error (.io e) =>
    if e.kind = .wouldBlock then
      if !v.stream.sendsOutstanding && !v.stream.writesPending then
        v.resolve (.error (some (.other "RDMA write back-pressured with nothing in flight to drain")))
      else v.await .pressed
    else v.settle (.error (.io e))

/-- The future is polled. -/
def poll (u : Drive) : Drive :=
  let v := { u with polling := true, reactor := { u.reactor with woken := false } }
  match u.pc with
  | .start => v.plan
  | .draining posted => v.settle posted
  | _ => { v with pc := .post }

/-- A step of `poll_events` has led the reactor to `r`. -/
def after (u : Drive) (l : Turned) (r : Reactor) : Drive :=
  let v := { u with reactor := r }
  match l with
  | .ready =>
    match u.pc with
    | .draining posted => v.settle posted
    | _ => { v with pc := .post }
  | .failed => v.resolve (.error none)
  | .pending => { v with polling := false }
  | _ => v

inductive Step : Drive → DriveEvent → Drive → Prop
  | outer (u : Drive) (l : Turned) (r : Reactor) (hl : l.outer = true)
      (h : Reactor.Step u.reactor l r) : Step u (.outer l) { u with reactor := r }
  /-- Another handle of the stream is polled. -/
  | others (u : Drive) (l : Turned) (r : Reactor) (hp : u.polling = false) (hl : l.outer = false)
      (h : Reactor.Step u.reactor l r) : Step u (.others l) { u with reactor := r }
  | poll (u : Drive) (hp : u.polling = false) (hr : u.reactor.resting = true)
      (hpc : u.pc = .start ∨ u.pc.awaits = true) : Step u .polled u.poll
  | post (u : Drive) (hp : u.polling = true) (hpc : u.pc = .post) : Step u .posted u.posted
  | events (u : Drive) (l : Turned) (r : Reactor) (hp : u.polling = true) (hpc : u.pc.awaits = true)
      (hl : l.inner = true) (h : Reactor.Step u.reactor l r) : Step u (.events l) (u.after l r)
  | drop (u : Drive) (hp : u.polling = false) (hr : u.reactor.resting = true)
      (hpc : u.pc.awaits = true) : Step u .dropped u.cancel

/-- `drive_write` of an established stream, not yet polled. -/
def Init (config : HordConfig) (segments : List WriteSegment) (peerAddr peerRkey : Nat)
    (imm : Option Nat) (u : Drive) : Prop :=
  Party.Ok ⟨config, u.stream, .up⟩ ∧ u.reactor.resting = true ∧ u.polling = false ∧ u.pc = .start ∧
    u.gather = ⟨segments, peerAddr, peerRkey, imm, 0, 0, 0, 0⟩

/-! Runs that can be computed. -/

/-- One step, as a script names it. -/
inductive Prompt where
  | poke (c : Poke)
  | poll
  | post
  | drop

def exec (u : Drive) : Prompt → Option (DriveEvent × Drive)
  | .poke c =>
    match u.reactor.exec c with
    | none => none
    | some (l, r) =>
      if l.outer then some (.outer l, { u with reactor := r })
      else if u.polling && u.pc.awaits && l.inner then some (.events l, u.after l r)
      else none
  | .poll =>
    if u.polling = false ∧ u.reactor.resting = true then
      match u.pc with
      | .start => some (.polled, u.poll)
      | _ => if u.pc.awaits then some (.polled, u.poll) else none
    else none
  | .post =>
    match u.pc with
    | .post => if u.polling then some (.posted, u.posted) else none
    | _ => none
  | .drop =>
    if u.polling = false ∧ u.reactor.resting = true ∧ u.pc.awaits = true then some (.dropped, u.cancel)
    else none

theorem exec_step (u : Drive) (c : Prompt) (l : DriveEvent) (v : Drive) (h : u.exec c = some (l, v)) :
    Step u l v := by
  cases c with
  | poke c =>
    simp only [exec] at h
    split at h
    · cases h
    · next m r hr =>
      split at h
      · next hm =>
        cases h
        exact .outer u m r hm (Reactor.exec_step hr)
      · split at h
        · next hm =>
          simp only [Bool.and_eq_true] at hm
          cases h
          exact .events u m r hm.1.1 hm.1.2 hm.2 (Reactor.exec_step hr)
        · cases h
  | poll =>
    simp only [exec] at h
    split at h
    · next hrest =>
      split at h
      · next hpc =>
        cases h
        exact .poll u hrest.1 hrest.2 (.inl hpc)
      · split at h
        · next hpc =>
          cases h
          exact .poll u hrest.1 hrest.2 (.inr hpc)
        · cases h
    · cases h
  | post =>
    simp only [exec] at h
    split at h
    · next hpc =>
      split at h
      · next hp =>
        cases h
        exact .post u hp hpc
      · cases h
    · cases h
  | drop =>
    simp only [exec] at h
    split at h
    · next hd =>
      cases h
      exact .drop u hd.1 hd.2.1 hd.2.2
    · cases h

/-- `drive_write` over a stream whose fds were just registered. -/
def begin (s : HordStream) (segments : List WriteSegment) (peerAddr peerRkey : Nat) (imm : Option Nat) : Drive :=
  ⟨Reactor.wrap s, ⟨segments, peerAddr, peerRkey, imm, 0, 0, 0, 0⟩, .start, false⟩

theorem begin_init {p q : Party} {ms : List Move} (hinit : p.Init) (hrun : Run Party.Step p ms q)
    (hup : q.phase = .up) (segments : List WriteSegment) (peerAddr peerRkey : Nat) (imm : Option Nat) :
    (begin q.stream segments peerAddr peerRkey imm).Init q.config segments peerAddr peerRkey imm := by
  have hok := hrun.inv (I := Party.Ok) (fun _ _ _ hp hs => hs.ok hp) hinit.ok
  obtain ⟨config, s, phase⟩ := q
  obtain rfl : phase = .up := hup
  exact ⟨hok, rfl, rfl, rfl, rfl⟩

/-- An established stream of a configuration, and a script for a write on it. -/
theorem launch_run (config : HordConfig) (setup : List Cmd) (segments : List WriteSegment)
    (peerAddr peerRkey : Nat) (imm : Option Nat) (cs : List Prompt) (good : List DriveEvent → Drive → Bool)
    (h : (Party.launch (fun _ _ => true) config setup).any (fun q => decide (q.phase = .up) &&
      (play exec (fun _ _ => true) (begin q.stream segments peerAddr peerRkey imm) cs).any
        fun r => good r.1 r.2) = true) :
    ∃ q u₀ ls u, u₀.Init q segments peerAddr peerRkey imm ∧ Run Step u₀ ls u ∧ good ls u = true := by
  obtain ⟨p, ms, q, hinit, hrun, hq⟩ := Party.launch_run (fun _ _ => true) config setup _ h
  rw [Bool.and_eq_true, decide_eq_true_eq] at hq
  obtain ⟨ls, u, hsteps, hgood⟩ := play_good exec_step hq.2
  exact ⟨q.config, _, ls, u, begin_init hinit (hrun.mono fun _ _ _ hs => hs.1) hq.1 segments peerAddr peerRkey imm,
    hsteps.mono fun _ _ _ hs => hs.1, hgood⟩

end Drive

end Hord
