import Mathlib.Data.List.Nodup
import Hord.Lib.Run
import Hord.Cm

/- The life of an identifier, from a connect request or a client's `connect` to the last drop,
   as the calls made on it and on the endpoint built for it. `Stage` is the protocol that
   librdmacm and the verbs ask for: an event is acknowledged before any other call, the QP
   goes through its states in order, it is disconnected once before it goes, what was made is
   destroyed once, users first. A destructor is not called again when its call was refused:
   the process has let go, and what the device keeps of it is accounted for by the calls
   alone (`Stage.accounted`). -/
namespace Hord
namespace Cm

open Prog Typestate Transition

/-! The protocol of an object. -/

/-- Whether an event is held, and is to be acknowledged or, that refused, to be dropped. -/
inductive Unacked where
  | none
  | due
  | retry
  deriving DecidableEq, Repr

/-- What is held of an object, and what has been done with it. `own` says that the identifier's
    events go to its own channel, `joined` that it was connected or accepted. -/
structure Stage where
  event : Unacked := .none
  id : Bool := false
  channel : Bool := false
  own : Bool := false
  pd : Bool := false
  comp : Bool := false
  cq : Bool := false
  qp : Option QpState := none
  joined : Bool := false
  rejected : Bool := false
  disconnected : Bool := false
  deriving DecidableEq, Repr

/-- The state a QP is driven to from one. -/
def QpState.following : QpState → Option QpState
  | .reset => some .init
  | .init => some .readyToReceive
  | .readyToReceive => some .readyToSend
  | .readyToSend => none

/-- The calls that may be made with no event waiting to be acknowledged. -/
def Stage.ready (s : Stage) : Call → Bool
  | .takeRequest => s == {}
  | .ackEvent | .dropEvent => false
  | .getEvent _ | .noEvent => s.id && s.own
  | .createChannel => !s.channel
  | .setNonblocking => s.channel
  | .createId => s.channel && !s.id
  | .bindAddr | .listen | .resolveAddr | .resolveRoute => s.id && s.own && s.qp.isNone
  | .migrate => s.id && s.channel && !s.own
  | .allocPd => !s.pd
  | .regMr => s.pd
  | .createCompChannel => s.id && !s.comp
  | .setCompNonblocking => s.comp
  | .createCq _ => s.comp && !s.cq
  | .queryDevice | .getQpAttr _ => s.id
  | .createQp .. => s.cq && s.own && s.qp.isNone
  | .modifyQp t => s.qp.any fun q => q.following == some t
  | .post => s.qp.isSome
  | .connect => s.qp == some .init && s.own && !s.joined
  | .accept => s.qp == some .readyToSend && s.own && !s.joined
  | .establish => s.qp == some .readyToSend && s.joined
  | .reject => s.id && s.qp.isNone && !s.joined && !s.rejected
  | .disconnect => s.id && s.qp.isSome && !s.disconnected
  | .destroyQp => s.qp.isSome && s.disconnected
  | .destroyCq => s.cq && s.qp.isNone
  | .destroyCompChannel => s.comp && !s.cq
  | .deallocPd => s.pd && s.qp.isNone
  | .destroyId => s.id && s.qp.isNone && !s.cq && !s.comp && !s.pd
  | .destroyChannel => s.channel && (!s.id || !s.own)

/-- The calls in turn. -/
def Stage.allows (s : Stage) (c : Call) : Bool :=
  match s.event with
  | .none => s.ready c
  | .due => c == .ackEvent
  | .retry => c == .dropEvent

/-- What a call does, by its answer. -/
def Stage.make (s : Stage) (c : Call) (ok : Bool) : Stage :=
  match c with
  | .takeRequest => { s with id := ok, event := if ok then .due else .none }
  | .getEvent _ => { s with event := if ok then .due else .none }
  | .ackEvent => { s with event := if ok then .none else .retry }
  | .dropEvent => { s with event := .none }
  | .createChannel => { s with channel := ok }
  | .createId => { s with id := ok, own := ok }
  | .migrate => { s with own := ok }
  | .allocPd => { s with pd := ok }
  | .createCompChannel => { s with comp := ok }
  | .createCq _ => { s with cq := ok }
  | .createQp .. => { s with qp := if ok then some .reset else none }
  | .modifyQp t => { s with qp := if ok then some t else s.qp }
  | .connect | .accept => { s with joined := ok }
  | .reject => { s with rejected := true }
  | .disconnect => { s with disconnected := true }
  | .destroyQp => { s with qp := none }
  | .destroyCq => { s with cq := false }
  | .destroyCompChannel => { s with comp := false }
  | .deallocPd => { s with pd := false }
  | .destroyId => { s with id := false }
  | .destroyChannel => { s with channel := false, own := false }
  | _ => s

def Stage.next (s : Stage) (e : Call × Bool) : Option Stage :=
  if s.allows e.1 then some (s.make e.1 e.2) else none

/-- Nothing of the object is held. -/
def Stage.Clean (s : Stage) : Prop :=
  s.event = .none ∧ s.id = false ∧ s.channel = false ∧ s.pd = false ∧ s.comp = false ∧ s.cq = false ∧
    s.qp = none

/-! What the device keeps. -/

/-- What calls make and free. -/
inductive Resource where
  | event
  | id
  | channel
  | pd
  | comp
  | cq
  | qp
  deriving DecidableEq, Repr

def Call.makes : Call → List Resource
  | .takeRequest => [.event, .id]
  | .getEvent _ => [.event]
  | .createId => [.id]
  | .createChannel => [.channel]
  | .allocPd => [.pd]
  | .createCompChannel => [.comp]
  | .createCq _ => [.cq]
  | .createQp .. => [.qp]
  | _ => []

def Call.frees : Call → Option Resource
  | .ackEvent | .dropEvent => some .event
  | .destroyId => some .id
  | .destroyChannel => some .channel
  | .deallocPd => some .pd
  | .destroyCompChannel => some .comp
  | .destroyCq => some .cq
  | .destroyQp => some .qp
  | _ => none

/-- Whether another call frees what this one, refused, has not. -/
def Call.retried : Call → Bool
  | .ackEvent => true
  | _ => false

namespace Resource

/-- A call that was granted and made one. -/
def made (r : Resource) (e : Call × Bool) : Bool := e.2 && e.1.makes.contains r

/-- A call that was granted and freed one. -/
def freed (r : Resource) (e : Call × Bool) : Bool := e.2 && e.1.frees == some r

/-- The last call to free one, refused: the device keeps it. -/
def kept (r : Resource) (e : Call × Bool) : Bool := !e.2 && e.1.frees == some r && !e.1.retried

end Resource

def Stage.holds (s : Stage) : Resource → Bool
  | .event => s.event != .none
  | .id => s.id
  | .channel => s.channel
  | .pd => s.pd
  | .comp => s.comp
  | .cq => s.cq
  | .qp => s.qp.isSome

theorem Stage.allows_cases {s : Stage} {c : Call} (h : s.allows c) :
    s.event = .due ∧ c = .ackEvent ∨ s.event = .retry ∧ c = .dropEvent ∨ s.event = .none ∧ s.ready c := by
  unfold Stage.allows at h
  split at h
  · next hev => exact .inr (.inr ⟨hev, h⟩)
  · next hev => exact .inl ⟨hev, eq_of_beq h⟩
  · next hev => exact .inr (.inl ⟨hev, eq_of_beq h⟩)

/-- What a call is to make is not there yet. -/
theorem Stage.allows_makes {s : Stage} {c : Call} {r : Resource} (h : s.allows c) (hr : r ∈ c.makes) :
    s.holds r = false := by
  obtain ⟨-, rfl⟩ | ⟨-, rfl⟩ | ⟨hev, h⟩ := Stage.allows_cases h
  · simp [Call.makes] at hr
  · simp [Call.makes] at hr
  · cases c <;> simp only [Call.makes, List.mem_cons, List.not_mem_nil, or_false] at hr <;>
      simp_all [Stage.ready, Stage.holds]
    obtain rfl | rfl := hr <;> rfl

/-- What a call is to free is there. -/
theorem Stage.allows_frees {s : Stage} {c : Call} {r : Resource} (h : s.allows c) (hr : c.frees = some r) :
    s.holds r = true := by
  obtain ⟨hev, rfl⟩ | ⟨hev, rfl⟩ | ⟨hev, h⟩ := Stage.allows_cases h
  · obtain rfl := Option.some.inj hr
    simp [Stage.holds, hev]
  · obtain rfl := Option.some.inj hr
    simp [Stage.holds, hev]
  · cases c <;> simp only [Call.frees, reduceCtorEq, Option.some.injEq] at hr <;> subst hr <;>
      simp_all [Stage.ready, Stage.holds]

theorem Stage.make_makes (s : Stage) {c : Call} {r : Resource} (hr : r ∈ c.makes) (ok : Bool) :
    (s.make c ok).holds r = ok := by
  cases c <;> simp only [Call.makes, List.mem_cons, List.not_mem_nil, or_false] at hr <;>
    rcases hr with rfl | rfl <;> cases ok <;> rfl

theorem Stage.make_frees (s : Stage) {c : Call} {r : Resource} (hr : c.frees = some r) (ok : Bool) :
    (s.make c ok).holds r = (!ok && c.retried) := by
  cases c <;> simp only [Call.frees, reduceCtorEq, Option.some.injEq] at hr <;> subst hr <;> cases ok <;> rfl

/-- Everything else is unchanged. -/
theorem Stage.make_others {s : Stage} {c : Call} {r : Resource} (h : s.allows c) (hmakes : r ∉ c.makes)
    (hfrees : c.frees ≠ some r) (ok : Bool) : (s.make c ok).holds r = s.holds r := by
  cases c with
  | modifyQp t =>
    -- a QP is there to be modified, and it stays whatever the answer
    have hqp : s.qp.isSome := by
      obtain ⟨-, hc⟩ | ⟨-, hc⟩ | ⟨-, h⟩ := Stage.allows_cases h
      · cases hc
      · cases hc
      · obtain ⟨q, hq, -⟩ := (Option.any_eq_true _ _).mp h
        rw [hq]
        rfl
    cases r <;> cases ok <;> simp [Stage.make, Stage.holds, hqp]
  | _ => cases r <;> first | rfl | exact absurd rfl hfrees | exact absurd (by simp [Call.makes]) hmakes

theorem Call.frees_of_makes {c : Call} {r : Resource} (hr : r ∈ c.makes) : c.frees = none := by
  cases c <;> first | rfl | cases hr

/-- One call keeps account of every resource. -/
theorem Stage.next_accounted (r : Resource) (s : Stage) (e : Call × Bool) (t : Stage) (h : s.next e = some t) :
    (s.holds r).toNat + (r.made e).toNat = (t.holds r).toNat + (r.freed e).toNat + (r.kept e).toNat := by
  obtain ⟨c, ok⟩ := e
  unfold Stage.next at h
  split at h
  · next hall =>
    obtain rfl := Option.some.inj h
    unfold Resource.made Resource.freed Resource.kept
    by_cases hmakes : r ∈ c.makes
    · rw [Stage.allows_makes hall hmakes, Stage.make_makes s hmakes, Call.frees_of_makes hmakes]
      simp [hmakes]
    · by_cases hfrees : c.frees = some r
      · rw [Stage.allows_frees hall hfrees, Stage.make_frees s hfrees, hfrees]
        cases ok <;> cases c.retried <;> simp [hmakes]
      · rw [Stage.make_others hall hmakes hfrees]
        simp [hmakes, beq_eq_false_iff_ne.mpr hfrees]
  · cases h

theorem Stage.Clean.holds {s : Stage} (h : s.Clean) (r : Resource) : s.holds r = false := by
  obtain ⟨hevent, hid, hchannel, hpd, hcomp, hcq, hqp⟩ := h
  cases r <;> simp [Stage.holds, hevent, hid, hchannel, hpd, hcomp, hcq, hqp]

/-- What the calls have made of a resource is held, or was freed, or is kept by the device, which
    refused to free it. -/
def Accounted (s : Stage) (r : Resource) (ks : List (Call × Bool)) : Prop :=
  ks.countP r.made = (s.holds r).toNat + ks.countP r.freed + ks.countP r.kept

theorem Stage.accounted {s : Stage} {ks : List (Call × Bool)} (h : after Stage.next {} ks = some s) (r : Resource) :
    Accounted s r ks := by
  have hcount := after_count (Stage.next_accounted r) h
  have hnone : (({} : Stage).holds r).toNat = 0 := by
    cases r <;> rfl
  rwa [hnone, Nat.zero_add] at hcount

/-- An identifier on a channel of its own, as the bound listener is. -/
def Stage.housed : Stage := { id := true, channel := true, own := true }

/-- The stages of an identifier with its channel and endpoint. -/
def Stage.live (ownPd : Bool) (qp : Option QpState) (joined disconnected : Bool) : Stage where
  id := true
  channel := true
  own := true
  pd := ownPd
  comp := true
  cq := true
  qp := qp
  joined := joined
  disconnected := disconnected

/-! Worlds and the stages of their objects. -/

namespace World

/-- The stage an object is at. -/
def At (w : World) (o : Obj) (s : Stage) : Prop := Typestate.At Stage.next {} o w.log s

/-- The stage an identifier is at, which says where its events go. -/
structure On (w : World) (k : Nat) (s : Stage) : Prop where
  stage : w.At (.id k) s
  own : w.own k = s.own

/-- The registry has one PD for each device, allocated once, and no two devices share one. -/
structure Coherent (w : World) : Prop where
  contexts : (w.pds.map Prod.fst).Nodup
  numbers : (w.pds.map Prod.snd).Nodup
  used : ∀ x ∈ w.pds, x.2 < w.nextPd
  stage : ∀ c, w.At (.context c) { pd := (w.pds.lookup c).isSome }

/-- What work on identifier `k` leaves as it was. -/
structure Kept (k : Nat) (w v : World) : Prop where
  coherent : w.Coherent → v.Coherent
  grows : w.pds <+: v.pds
  fresh : ∀ x ∈ v.pds, x ∈ w.pds ∨ w.nextPd ≤ x.2
  nextPd : w.nextPd ≤ v.nextPd
  log : w.log <+: v.log
  channel : ∀ o, o ≠ .id k → v.channel o = w.channel o
  others : ∀ n, n ≠ k → callsOn (.id n) v.log = callsOn (.id n) w.log ∧ v.own n = w.own n
  listener : callsOn .listener v.log = callsOn .listener w.log

variable {k : Nat} {w v u : World} {s t : Stage} {o : Obj} {c : Call}

theorem Kept.refl (k : Nat) (w : World) : w.Kept k w where
  coherent := id
  grows := List.prefix_rfl
  fresh := fun _ => .inl
  nextPd := Nat.le_refl _
  log := List.prefix_rfl
  channel := fun _ _ => rfl
  others := fun _ _ => ⟨rfl, rfl⟩
  listener := rfl

theorem Kept.trans (h : w.Kept k v) (h' : v.Kept k u) : w.Kept k u where
  coherent := fun hc => h'.coherent (h.coherent hc)
  grows := h.grows.trans h'.grows
  fresh := by
    intro x hx
    rcases h'.fresh x hx with hx | hx
    · exact h.fresh x hx
    · exact .inr (Nat.le_trans h.nextPd hx)
  nextPd := Nat.le_trans h.nextPd h'.nextPd
  log := h.log.trans h'.log
  channel := fun o ho => (h'.channel o ho).trans (h.channel o ho)
  others := fun n hn => ⟨(h'.others n hn).1.trans (h.others n hn).1, (h'.others n hn).2.trans (h.others n hn).2⟩
  listener := h'.listener.trans h.listener

/-- Calls on the identifier alone, and nothing else that is shared. -/
theorem Kept.of_log (ms : List (Obj × Call × Bool)) (hlog : v.log = w.log ++ ms)
    (hms : ∀ e ∈ ms, e.1 = .id k) (hpds : v.pds = w.pds) (hnext : v.nextPd = w.nextPd)
    (hch : ∀ o, o ≠ .id k → v.channel o = w.channel o) (hown : ∀ n, n ≠ k → v.own n = w.own n) :
    w.Kept k v := by
  have hfree : ∀ o, o ≠ .id k → callsOn o v.log = callsOn o w.log := by
    intro o ho
    rw [hlog, callsOn_append, callsOn_eq_nil fun e he heq => ho (heq.symm.trans (hms e he)), List.append_nil]
  refine ⟨fun hc => ⟨?_, ?_, ?_, ?_⟩, ?_, ?_, ?_, ⟨ms, hlog.symm⟩, hch, ?_, hfree _ (by simp)⟩
  · rw [hpds]
    exact hc.contexts
  · rw [hpds]
    exact hc.numbers
  · rw [hpds, hnext]
    exact hc.used
  · intro c
    have h := hc.stage c
    unfold At Typestate.At at *
    rw [hfree _ (by simp), hpds]
    exact h
  · exact hpds ▸ List.prefix_rfl
  · rw [hpds]
    exact fun _ => .inl
  · rw [hnext]
  · exact fun n hn => ⟨hfree _ (by simpa using hn), hown n hn⟩

theorem Kept.made (k : Nat) (w : World) (c : Call) : w.Kept k (w.made (.id k) c) :=
  .of_log [(.id k, c, !w.refuses)] rfl (by simp) rfl rfl (fun _ _ => rfl) fun _ _ => rfl

theorem Kept.freed (k : Nat) (w : World) (c : Call) : w.Kept k (w.freed (.id k) c) :=
  .of_log [(.id k, c, true)] rfl (by simp) rfl rfl (fun _ _ => rfl) fun _ _ => rfl

theorem Kept.then_made (h : w.Kept k v) (c : Call) : w.Kept k (v.made (.id k) c) := h.trans (.made k v c)

theorem Kept.then_freed (h : w.Kept k v) (c : Call) : w.Kept k (v.freed (.id k) c) := h.trans (.freed k v c)

theorem Kept.then_acked (h : w.Kept k v) : w.Kept k (v.acked (.id k)) := by
  unfold World.acked
  split
  · exact (h.then_made _).then_made _
  · exact h.then_made _

/-- The flag of an identifier's channel is the identifier's own. -/
theorem Kept.then_own (h : w.Kept k v) (b : Bool) :
    w.Kept k { v with own := Function.update v.own k b } :=
  h.trans (.of_log [] (by simp) (by simp) rfl rfl (fun _ _ => rfl) fun n hn => by simp [hn])

theorem Kept.then_dropId (h : w.Kept k v) : w.Kept k (v.dropId k) := by
  unfold World.dropId
  simp only
  split
  · exact ((h.then_made _).then_made _).then_own false
  · exact h.then_made _

theorem Kept.then_arrive (h : w.Kept k v) (es : List Event) : w.Kept k (v.arrive (.id k) es) :=
  h.trans (.of_log [] (by simp [World.arrive]) (by simp) rfl rfl
    (fun o ho => by simp [World.arrive, ho]) fun _ _ => rfl)

end World

/-- The calls after which an identifier's events go elsewhere. -/
def Call.rehomes : Call → Bool
  | .createId => true
  | .migrate => true
  | .destroyChannel => true
  | _ => false

/-- The calls that set a connection up. -/
def Call.preparatory : Call → Bool
  | .createChannel | .migrate | .allocPd | .createCompChannel | .setCompNonblocking => true
  | .createCq _ | .queryDevice | .createQp .. | .getQpAttr _ | .modifyQp _ => true
  | _ => false

theorem Stage.next_own {s t : Stage} {c : Call} {b : Bool} (h : s.next (c, b) = some t)
    (hc : c.rehomes = false) : t.own = s.own := by
  unfold Stage.next at h
  split at h
  · obtain rfl := Option.some.inj h
    cases c with
    | createId => cases hc
    | migrate => cases hc
    | destroyChannel => cases hc
    | _ => rfl
  · cases h

/-! What the calls do to the stage of an identifier. `w₀` is the world the work on it began
    in. -/

namespace World
variable {k : Nat} {w₀ w v : World} {s t u : Stage} {c : Call}

theorem On.freed (h : w.On k s) (hc : c.rehomes = false) (hn : s.next (c, true) = some t) :
    (w.freed (.id k) c).On k t :=
  ⟨h.stage.call hn, h.own.trans (Stage.next_own hn hc).symm⟩

/-- A call whose answer is not looked at. -/
theorem On.made (h : w.On k s) (hc : c.rehomes = false) (hn : ∀ b, s.next (c, b) = some t) :
    (w.made (.id k) c).On k t :=
  ⟨h.stage.call (hn _), h.own.trans (Stage.next_own (hn true) hc).symm⟩

theorem call_wp {o : Obj} {Q : Except Error Unit → World → Prop}
    (yes : w.refuses = false → Q (.ok ()) (w.made o c)) (no : ∀ e, w.refuses = true → Q (.error e) (w.made o c)) :
    wp (call o c) w Q := by
  unfold wp call
  cases hf : w.refuses with
  | false => exact yes hf
  | true => exact no _ hf

theorem On.call_to {Q : Except Error Unit → World → Prop} (h : w.On k s) (hk : w₀.Kept k w)
    (hc : c.rehomes = false) (hok : s.next (c, true) = some t) (hno : s.next (c, false) = some u)
    (yes : ∀ v, v.On k t → w₀.Kept k v → Q (.ok ()) v)
    (no : ∀ e v, v.On k u → w₀.Kept k v → Q (.error e) v) : wp (call (.id k) c) w Q := by
  refine call_wp (fun hf => yes _ ⟨?_, ?_⟩ (hk.then_made c)) fun e hf => no e _ ⟨?_, ?_⟩ (hk.then_made c)
  · refine h.stage.call ?_
    rw [hf]
    exact hok
  · exact h.own.trans (Stage.next_own hok hc).symm
  · refine h.stage.call ?_
    rw [hf]
    exact hno
  · exact h.own.trans (Stage.next_own hno hc).symm

/-- An event that is due is acknowledged or, if that is refused, dropped. -/
theorem acked_at {o : Obj} (h : w.At o s) (he : s.event = .due) : (w.acked o).At o { s with event := .none } := by
  unfold World.acked
  split
  · next hf =>
    have hmade : (w.made o .ackEvent).At o { s with event := .retry } := by
      refine h.call ?_
      rw [hf]
      simp [Stage.next, Stage.allows, Stage.make, he]
    refine hmade.call ?_
    simp [Stage.next, Stage.allows, Stage.make]
  · next hf =>
    refine h.call ?_
    rw [Bool.not_eq_true] at hf
    rw [hf]
    simp [Stage.next, Stage.allows, Stage.make, he]

/-- Acknowledging calls on the event's object and changes nothing else. -/
theorem acked_log (o : Obj) (w : World) : ∃ ms, (w.acked o).log = w.log ++ ms ∧ (∀ e ∈ ms, e.1 = o) ∧
    (w.acked o).own = w.own ∧ (w.acked o).pds = w.pds ∧ (w.acked o).nextPd = w.nextPd ∧
    (w.acked o).channel = w.channel := by
  unfold World.acked
  split
  · refine ⟨[(o, .ackEvent, !w.refuses), (o, .dropEvent, !(w.made o .ackEvent).refuses)], ?_, by simp, rfl, rfl, rfl, rfl⟩
    show (w.log ++ _) ++ _ = _
    rw [List.append_assoc]
    rfl
  · exact ⟨[(o, .ackEvent, !w.refuses)], rfl, by simp, rfl, rfl, rfl, rfl⟩

theorem On.acked (h : w.On k s) (he : s.event = .due) : (w.acked (.id k)).On k { s with event := .none } := by
  obtain ⟨-, -, -, hown, -⟩ := acked_log (.id k) w
  exact ⟨acked_at h.stage he, (congrFun hown k).trans h.own⟩

/-- The answer to the acknowledgement. -/
theorem acked_answer (o : Obj) (w : World) : (o, .ackEvent, !w.refuses) ∈ (w.acked o).log := by
  unfold World.acked
  split
  · exact List.mem_append_left _ (List.mem_append_right _ (List.mem_singleton.mpr rfl))
  · exact List.mem_append_right _ (List.mem_singleton.mpr rfl)

theorem On.ack_to {Q : Except Error Unit → World → Prop} (h : w.On k s) (hk : w₀.Kept k w)
    (he : s.event = .due) (yes : ∀ v, v.On k { s with event := .none } → w₀.Kept k v →
      (Obj.id k, Call.ackEvent, true) ∈ v.log → Q (.ok ()) v)
    (no : ∀ v, v.On k { s with event := .none } → w₀.Kept k v →
      (Obj.id k, Call.ackEvent, false) ∈ v.log → Q (.error (.other "device call failed")) v) :
    wp (ack (.id k)) w Q := by
  have hanswer := acked_answer (.id k) w
  unfold wp ack
  cases hf : w.refuses with
  | false =>
    rw [hf] at hanswer
    exact yes _ (h.acked he) hk.then_acked hanswer
  | true =>
    rw [hf] at hanswer
    exact no _ (h.acked he) hk.then_acked hanswer

/-- The identifier goes, with the channel it alone holds. -/
theorem On.dropId (h : w.On k s) (hid : s.id = true) (he : s.event = .none) (hqp : s.qp = none)
    (hcq : s.cq = false) (hcomp : s.comp = false) (hpd : s.pd = false) (hch : s.channel = s.own) :
    (w.dropId k).On k { s with id := false, channel := false, own := false } := by
  have hfreed : (w.made (.id k) .destroyId).On k { s with id := false } := by
    refine h.made rfl fun b => ?_
    simp [Stage.next, Stage.allows, Stage.ready, Stage.make, hid, he, hqp, hcq, hcomp, hpd]
  unfold World.dropId
  simp only
  split
  · next hw =>
    have hown : s.own = true := h.own.symm.trans hw
    refine ⟨hfreed.stage.call ?_, by simp⟩
    simp [Stage.next, Stage.allows, Stage.ready, Stage.make, he, hch, hown]
  · next hw =>
    have hown : s.own = false := h.own.symm.trans (Bool.eq_false_iff.mpr hw)
    have heq : { s with id := false, channel := false, own := false } = { s with id := false } := by
      rw [← hown, ← hch]
    rw [heq]
    exact hfreed

theorem On.arrive (h : w.On k s) (es : List Event) : (w.arrive (.id k) es).On k s := ⟨h.stage, h.own⟩

/-- Taking an event off the identifier's own channel. -/
theorem On.getCmEvent_to {Q : Except Error (Option Event) → World → Prop} (h : w.On k s)
    (hk : w₀.Kept k w) (hid : s.id = true) (hown : s.own = true) (he : s.event = .none)
    (none : ∀ v, v.On k s → w₀.Kept k v → Q (.ok none) v)
    (some : ∀ e v, v.On k { s with event := .due } → w₀.Kept k v → Q (.ok (some e)) v)
    (fails : ∀ e v, v.On k s → w₀.Kept k v → Q (.error e) v) : wp (getCmEvent (.id k)) w Q := by
  have hidle : (w.made (.id k) .noEvent).On k s := by
    refine h.made rfl fun b => ?_
    simp [Stage.next, Stage.allows, Stage.ready, Stage.make, hid, hown, he]
  unfold wp getCmEvent
  split
  · next heq =>
    split at heq
    · cases heq
    · split at heq
      · cases heq
        exact none _ hidle (hk.then_made _)
      · next e es _ =>
        cases heq
        refine some e _ ⟨h.stage.call ?_, h.own⟩ (hk.trans (.of_log
          [((e.taken (.id k)).1, (e.taken (.id k)).2, true)] rfl ?_ rfl rfl ?_ fun _ _ => rfl))
        · simp [Stage.next, Event.taken, Stage.allows, Stage.ready, Stage.make, hid, hown, he]
        · simp [Event.taken]
        · intro o ho
          simp [ho]
  · next heq =>
    split at heq
    · cases heq
      exact fails _ _ hidle (hk.then_made _)
    · split at heq <;> cases heq

/-! The waits leave the identifier at the stage they found it at. -/

theorem On.tryWaitEvent_to {want : EventType} {Q : Except Error Bool → World → Prop} (h : w.On k s)
    (hk : w₀.Kept k w) (hid : s.id = true) (hown : s.own = true) (he : s.event = .none)
    (yes : ∀ b v, v.On k s → w₀.Kept k v → Q (.ok b) v)
    (no : ∀ e v, v.On k s → w₀.Kept k v → Q (.error e) v) : wp (tryWaitEvent (.id k) want) w Q := by
  have hback : { { s with event := .due } with event := .none } = s := by
    rw [← he]
  unfold tryWaitEvent
  rw [wp_bind]
  refine h.getCmEvent_to hk hid hown he (fun v hv kv => yes _ v hv kv) (fun e v hv kv => ?_) no
  simp only [wp_bind]
  refine hv.ack_to kv rfl (fun v hv kv _ => ?_) (fun v hv kv _ => no _ v (hback ▸ hv) kv)
  rw [hback] at hv
  simp only [wp_ite, wp_pure, wp_throw]
  split
  · exact yes _ v hv kv
  · exact no _ v hv kv

theorem On.waitLoop_to {want : EventType} {deadline : Nat} {last : List Event} (ts : List Tick)
    {Q : Except Error Unit → World → Prop} (h : w.On k s)
    (hk : w₀.Kept k w) (hid : s.id = true) (hown : s.own = true) (he : s.event = .none)
    (yes : ∀ v, v.On k s → w₀.Kept k v → Q (.ok ()) v)
    (no : ∀ e v, v.On k s → w₀.Kept k v → Q (.error e) v) :
    wp (waitLoop (.id k) want deadline last ts) w Q := by
  induction ts generalizing w with
  | nil =>
    simp only [waitLoop, wp_bind, wp_modify]
    refine (h.arrive last).tryWaitEvent_to (hk.then_arrive last) hid hown he (fun b v hv kv => ?_) no
    simp only [wp_ite, wp_pure, wp_throw]
    split
    · exact yes v hv kv
    · exact no _ v hv kv
  | cons t ts ih =>
    simp only [waitLoop, wp_bind, wp_modify]
    refine (h.arrive _).tryWaitEvent_to (hk.then_arrive _) hid hown he (fun b v hv kv => ?_) no
    simp only [wp_ite, wp_pure, wp_throw]
    split
    · exact yes v hv kv
    · split
      · exact no _ v hv kv
      · split
        · exact no _ v hv kv
        · exact ih hv kv

theorem On.waitEvent_to {want : EventType} {timeout : Nat} {t : Wait}
    {Q : Except Error Unit → World → Prop} (h : w.On k s) (hk : w₀.Kept k w) (hid : s.id = true)
    (hch : s.channel = true) (hown : s.own = true) (he : s.event = .none)
    (yes : ∀ v, v.On k s → w₀.Kept k v → Q (.ok ()) v)
    (no : ∀ e v, v.On k s → w₀.Kept k v → Q (.error e) v) :
    wp (waitEvent (.id k) want timeout t) w Q := by
  have hnext : ∀ b, s.next (.setNonblocking, b) = some s := by
    intro b
    simp [Stage.next, Stage.allows, Stage.ready, Stage.make, hch, he]
  simp only [waitEvent, wp_bind]
  refine h.call_to hk rfl (hnext true) (hnext false) (fun v hv kv => ?_) no
  exact hv.waitLoop_to _ kv hid hown he yes no

/-! The endpoint. -/

/-- Where an endpoint's PD comes from: the registry, or an allocation of its own since `w₀`. -/
def Placed (w₀ v : World) (context pd : Nat) (ownPd : Bool) : Prop :=
  if ownPd then w₀.nextPd ≤ pd ∧ pd < v.nextPd ∧ ∀ x ∈ v.pds, x.2 ≠ pd else (context, pd) ∈ v.pds

theorem Placed.mono {w₀ w v : World} {context pd : Nat} {ownPd : Bool} (h : Placed w₀ w context pd ownPd)
    (hk : w.Kept k v) : Placed w₀ v context pd ownPd := by
  unfold Placed at *
  cases ownPd with
  | true =>
    refine ⟨h.1, Nat.lt_of_lt_of_le h.2.1 hk.nextPd, fun x hx heq => ?_⟩
    rcases hk.fresh x hx with hx | hx
    · exact h.2.2 x hx heq
    · exact Nat.not_le_of_lt h.2.1 (heq ▸ hx)
  | false => exact hk.grows.subset h

theorem lookup_snoc {ps : List (Nat × Nat)} {ctx : Nat} (pd : Nat) (h : ps.lookup ctx = none) (c : Nat) :
    ((ps ++ [(ctx, pd)]).lookup c).isSome = if c = ctx then true else (ps.lookup c).isSome := by
  rw [List.lookup_append]
  by_cases hc : c = ctx
  · subst hc
    simp [h]
  · have hbeq : (c == ctx) = false := by simpa using hc
    simp [hc, List.lookup_cons, hbeq]

theorem mem_of_lookup {ps : List (Nat × Nat)} {c pd : Nat} (h : ps.lookup c = some pd) : (c, pd) ∈ ps := by
  obtain ⟨l, r, rfl, -⟩ := List.lookup_eq_some_iff.mp h
  simp

theorem lookup_none_not_mem {ps : List (Nat × Nat)} {c : Nat} (h : ps.lookup c = none) :
    c ∉ ps.map Prod.fst := by
  intro hc
  obtain ⟨x, hx, rfl⟩ := List.mem_map.mp hc
  have := List.lookup_eq_none_iff.mp h x hx
  simp at this

/-- A PD is asked of a device that has none in the registry. -/
theorem Coherent.asked (h : w.Coherent) {ctx : Nat} (hl : w.pds.lookup ctx = none) (c : Nat) :
    (w.made (.context ctx) .allocPd).At (.context c)
      { pd := if c = ctx then !w.refuses else (w.pds.lookup c).isSome } := by
  have hc := h.stage c
  by_cases heq : c = ctx
  · subst heq
    rw [hl] at hc
    refine hc.call ?_
    simp [Stage.next, Stage.allows, Stage.ready, Stage.make]
  · rw [if_neg heq]
    exact hc.other (by simpa using Ne.symm heq) _

/-- What a call on a device leaves as it was. -/
theorem Kept.on_context {ctx : Nat} (hlog : v.log = w.log ++ [(.context ctx, c, !w.refuses)])
    (hco : w.Coherent → v.Coherent) (hpds : w.pds <+: v.pds)
    (hfresh : ∀ x ∈ v.pds, x ∈ w.pds ∨ w.nextPd ≤ x.2) (hnext : w.nextPd ≤ v.nextPd)
    (hch : v.channel = w.channel) (hown : v.own = w.own) : w.Kept k v where
  coherent := hco
  grows := hpds
  fresh := hfresh
  nextPd := hnext
  log := ⟨_, hlog.symm⟩
  channel := fun o _ => by rw [hch]
  others := fun n _ => ⟨by rw [hlog, callsOn_append, callsOn_cons_other (by simp)]; simp [callsOn], by rw [hown]⟩
  listener := by rw [hlog, callsOn_append, callsOn_cons_other (by simp)]; simp [callsOn]

theorem On.on_context {ctx : Nat} (h : w.On k s) (hlog : v.log = w.log ++ [(.context ctx, c, !w.refuses)])
    (hown : v.own = w.own) : v.On k s := by
  refine ⟨?_, by rw [hown, h.own]⟩
  have hstage := h.stage.other (p := .context ctx) (by simp) (c, !w.refuses)
  unfold At at *
  rw [hlog]
  exact hstage

theorem On.forContext_to {ctx : Nat} {Q : Except Error Nat → World → Prop} (h : w.On k s)
    (hk : w₀.Kept k w) (hw : w.Coherent)
    (yes : ∀ pd v, v.On k s → w₀.Kept k v → (ctx, pd) ∈ v.pds → Q (.ok pd) v)
    (no : ∀ e v, v.On k s → w₀.Kept k v → Q (.error e) v) : wp (forContext ctx) w Q := by
  unfold forContext
  simp only [wp_bind, wp_get]
  split
  -- the device has a PD, or is given the next one
  · next pd hl => exact yes pd w h hk (mem_of_lookup hl)
  · next hl =>
    have hasked := hw.asked hl
    simp only [wp_bind, allocPd, wp_get, wp_set, wp_pure, wp_modify]
    refine call_wp (fun hf => ?_) fun e hf => ?_
    · refine yes _ _ (h.on_context rfl rfl) (hk.trans (.on_context rfl (fun _ => ⟨?_, ?_, ?_, ?_⟩) ?_ ?_ ?_ rfl rfl)) ?_
      · show ((w.pds ++ [(ctx, w.nextPd)]).map Prod.fst).Nodup
        rw [List.map_append, List.nodup_append]
        refine ⟨hw.contexts, by simp, ?_⟩
        intro c hc d hd heq
        simp only [List.map_cons, List.map_nil, List.mem_singleton] at hd
        exact lookup_none_not_mem hl (hd ▸ heq ▸ hc)
      · show ((w.pds ++ [(ctx, w.nextPd)]).map Prod.snd).Nodup
        rw [List.map_append, List.nodup_append]
        refine ⟨hw.numbers, by simp, ?_⟩
        intro p hp q hq heq
        simp only [List.map_cons, List.map_nil, List.mem_singleton] at hq
        obtain ⟨x, hx, rfl⟩ := List.mem_map.mp hp
        have := hw.used x hx
        omega
      · intro x hx
        show x.2 < w.nextPd + 1
        rcases List.mem_append.mp hx with hx | hx
        · exact Nat.lt_succ_of_lt (hw.used x hx)
        · rw [List.mem_singleton] at hx
          rw [hx]
          exact Nat.lt_succ_self _
      · intro c
        have hc := hasked c
        rw [hf] at hc
        show At _ _ { pd := ((w.pds ++ [(ctx, w.nextPd)]).lookup c).isSome }
        rw [lookup_snoc _ hl]
        exact hc
      · exact List.prefix_append _ _
      · intro x hx
        rcases List.mem_append.mp hx with hx | hx
        · exact .inl hx
        · rw [List.mem_singleton] at hx
          exact .inr (hx ▸ Nat.le_refl _)
      · exact Nat.le_succ _
      · exact List.mem_append_right _ (List.mem_singleton.mpr rfl)
    -- refused: the registry is as it was, and its PD still to be allocated
    · refine no e _ (h.on_context rfl rfl) (hk.trans (.on_context rfl (fun _ => ⟨hw.contexts, hw.numbers, hw.used, ?_⟩)
        List.prefix_rfl (fun _ => .inl) (Nat.le_refl _) rfl rfl))
      intro c
      have hc := hasked c
      rw [hf] at hc
      by_cases heq : c = ctx
      · subst heq
        rw [if_pos rfl] at hc
        show At _ _ { pd := (w.pds.lookup c).isSome }
        rw [hl]
        exact hc
      · rw [if_neg heq] at hc
        exact hc

theorem Kept.then_spent (h : w.Kept k v) : w.Kept k { v with nextPd := v.nextPd + 1 } := by
  refine h.trans ⟨fun hc => ⟨hc.contexts, hc.numbers, ?_, hc.stage⟩, List.prefix_rfl, fun _ => .inl, Nat.le_succ _,
    List.prefix_rfl, fun _ _ => rfl, fun _ _ => ⟨rfl, rfl⟩, rfl⟩
  exact fun x hx => Nat.lt_succ_of_lt (hc.used x hx)

theorem On.choosePd_to {ctx : Nat} {shared : Bool} {Q : Except Error Nat → World → Prop}
    (h : w.On k s) (hk : w₀.Kept k w) (hw : w₀.Coherent) (he : s.event = .none)
    (hpd : s.pd = false) (yes : ∀ pd v, v.On k { s with pd := !shared } → w₀.Kept k v → Placed w₀ v ctx pd (!shared) → Q (.ok pd) v)
    (no : ∀ e v, v.On k s → w₀.Kept k v → Q (.error e) v) : wp (choosePd k ctx shared) w Q := by
  have hsame : { s with pd := false } = s := by
    rw [← hpd]
  unfold choosePd
  cases shared with
  | true =>
    refine h.forContext_to hk (hk.coherent hw) (fun pd v hv kv hmem => yes pd v ?_ kv hmem) no
    rw [Bool.not_true, hsame]
    exact hv
  | false =>
    have hnext : ∀ b, s.next (.allocPd, b) = some { s with pd := b } := by
      intro b
      simp [Stage.next, Stage.allows, Stage.ready, Stage.make, he, hpd]
    simp only [Bool.false_eq_true, if_false, allocPd, wp_bind, wp_get, wp_set, wp_pure]
    refine h.call_to hk rfl (hnext true) (hnext false) (fun v hv kv => ?_) fun e v hv kv => no e v (hsame ▸ hv) kv
    refine yes _ _ ⟨hv.stage, hv.own⟩ kv.then_spent ⟨kv.nextPd, Nat.lt_succ_self _, fun x hx => ?_⟩
    exact Nat.ne_of_lt ((kv.coherent hw).used x hx)

theorem On.dropPd {ownPd : Bool} (h : w.On k s) (he : s.event = .none) (hpd : s.pd = ownPd) (hqp : s.qp = none) :
    (dropPd k ownPd w).On k { s with pd := false } := by
  cases ownPd with
  | true =>
    refine h.made rfl fun b => ?_
    simp [Stage.next, Stage.allows, Stage.ready, Stage.make, he, hpd, hqp]
  | false =>
    have hsame : { s with pd := false } = s := by
      rw [← hpd]
    rw [hsame]
    exact h

theorem Kept.then_dropPd (h : w.Kept k v) (ownPd : Bool) : w.Kept k (Cm.dropPd k ownPd v) := by
  cases ownPd with
  | true => exact h.then_made _
  | false => exact h

theorem On.build_to {context : Option Nat} {sendWr recvWr : Nat} {shared : Bool}
    {Q : Except Error Endpoint → World → Prop} (h : w.On k .housed) (hk : w₀.Kept k w) (hw : w₀.Coherent)
    (yes : ∀ ep v, context = some ep.context → ep.ownPd = !shared →
      v.On k (.live (!shared) (some .reset) false false) → w₀.Kept k v →
      Placed w₀ v ep.context ep.pd (!shared) → Q (.ok ep) v)
    (no : ∀ e v, v.On k .housed → w₀.Kept k v → Q (.error e) v) :
    wp (Endpoint.build k context sendWr recvWr shared) w Q := by
  unfold Endpoint.build
  cases context with
  | none => exact no _ w h hk
  | some ctx =>
    simp only [wp_bind, wp_orDrop, wp_get, wp_pure]
    refine h.choosePd_to hk hw rfl rfl (fun pd v hv kv hpl => ?_) no
    -- with the PD; what fails from here on lets go of it last
    have hdrop : ∀ e v, v.On k { Stage.housed with pd := !shared } → w₀.Kept k v →
        Q (.error e) (Cm.dropPd k (!shared) v) :=
      fun e v hv kv => no e _ (hv.dropPd rfl rfl rfl) (kv.then_dropPd _)
    have hcomp : ∀ e v, v.On k { Stage.housed with pd := !shared, comp := true } → w₀.Kept k v →
        Q (.error e) (Cm.dropPd k (!shared) (v.freed (.id k) .destroyCompChannel)) :=
      fun e v hv kv => hdrop e _ (hv.freed rfl rfl) (kv.then_freed _)
    have hcq : ∀ e v, v.On k { Stage.housed with pd := !shared, comp := true, cq := true } → w₀.Kept k v →
        Q (.error e) (Cm.dropPd k (!shared) ((v.freed (.id k) .destroyCq).freed (.id k) .destroyCompChannel)) :=
      fun e v hv kv => hcomp e _ (hv.freed rfl rfl) (kv.then_freed _)
    have hrest : ∀ u, v.Kept k u → Placed w₀ u ctx pd (!shared) := fun u hu => hpl.mono hu
    have hbase := Kept.refl k v
    refine hv.call_to hbase rfl rfl rfl (fun v₁ hv₁ kv₁ => ?_) fun e u hu ku => hdrop e u hu (kv.trans ku)
    refine hv₁.call_to kv₁ rfl rfl rfl (fun v₂ hv₂ kv₂ => ?_) fun e u hu ku => hcomp e u hu (kv.trans ku)
    refine hv₂.call_to kv₂ rfl rfl rfl (fun v₃ hv₃ kv₃ => ?_) fun e u hu ku => hcomp e u hu (kv.trans ku)
    refine hv₃.call_to kv₃ rfl rfl rfl (fun v₄ hv₄ kv₄ => ?_) fun e u hu ku => hcq e u hu (kv.trans ku)
    refine hv₄.call_to kv₄ rfl rfl rfl (fun v₅ hv₅ kv₅ => ?_) fun e u hu ku => hcq e u hu (kv.trans ku)
    exact yes _ v₅ rfl rfl hv₅ (kv.trans kv₅) (hrest v₅ kv₅)

/-! Connections. -/

/-- The stage a connection's identifier is at. Until the caller has gone on to establish it,
    which it does once, the QP is in INIT. -/
def Fits (c : Connection) (begun : Bool) (s : Stage) : Prop :=
  ∃ q joined, s = .live c.ep.ownPd (if c.qp then some q else none) joined c.disconnected ∧
    (begun = false → q = .init ∧ joined = false) ∧ (c.qp = false → c.disconnected = true)

/-- One state further; an error leaves the QP where it was. -/
theorem On.modifyQp_to {conn : Connection} {q r : QpState} {ownPd joined disconnected : Bool}
    {Q : Except Error Unit → World → Prop} (hid : conn.id = k) (hqp : conn.qp = true)
    (h : w.On k (.live ownPd (some q) joined disconnected)) (hk : w₀.Kept k w) (hq : q.following = some r)
    (yes : ∀ v, v.On k (.live ownPd (some r) joined disconnected) → w₀.Kept k v → Q (.ok ()) v)
    (no : ∀ e v, v.On k (.live ownPd (some q) joined disconnected) → w₀.Kept k v → Q (.error e) v) :
    wp (conn.modifyQp r) w Q := by
  subst hid
  have hnext : ∀ b, (Stage.live ownPd (some q) joined disconnected).next (.modifyQp r, b) =
      some (.live ownPd (some (if b then r else q)) joined disconnected) := by
    intro b
    cases b <;> simp [Stage.next, Stage.allows, Stage.ready, Stage.make, Stage.live, hq]
  simp only [Connection.modifyQp, Connection.withQp, hqp, if_true, wp_bind]
  refine h.call_to hk rfl rfl rfl (fun v hv kv => ?_) no
  exact hv.call_to kv rfl (hnext true) (hnext false) yes no

theorem doDisconnect_conn (conn : Connection) (w : World) :
    (conn.doDisconnect w).1 = { conn with disconnected := true } := by
  unfold Connection.doDisconnect
  split
  · next hd => rw [← hd]
  · rfl

theorem Kept.then_doDisconnect {conn : Connection} (hid : conn.id = k) (hk : w₀.Kept k w) :
    w₀.Kept k (conn.doDisconnect w).2 := by
  subst hid
  unfold Connection.doDisconnect
  split
  · exact hk
  · exact hk.then_made _

theorem Kept.then_shutdown {conn : Connection} (hid : conn.id = k) (hk : w₀.Kept k w) :
    w₀.Kept k (conn.shutdown w).2 := by
  have hdis := hk.then_doDisconnect hid
  subst hid
  unfold Connection.shutdown
  simp only
  split
  · exact hdis.then_freed _
  · exact hdis

theorem On.doDisconnect {conn : Connection} {q : QpState} {ownPd joined : Bool} (hid : conn.id = k) (h : w.On k (.live ownPd (some q) joined conn.disconnected)) :
    (conn.doDisconnect w).2.On k (.live ownPd (some q) joined true) := by
  subst hid
  unfold Connection.doDisconnect
  split
  · next hd =>
    rw [hd] at h
    exact h
  · next hd =>
    rw [Bool.not_eq_true] at hd
    rw [hd] at h
    exact h.made rfl fun _ => rfl

section Drop
variable {conn : Connection} {q : QpState} {joined : Bool}

/-- What a shutdown leaves, of the connection and of the stage. -/
theorem On.shutdown (hid : conn.id = k) (hdown : conn.qp = false → conn.disconnected = true)
    (h : w.On k (.live conn.ep.ownPd (if conn.qp then some q else none) joined conn.disconnected)) :
    (conn.shutdown w).1 = { conn with qp := false, disconnected := true } ∧
      (conn.shutdown w).2.On k (.live conn.ep.ownPd none joined true) := by
  unfold Connection.shutdown
  cases hqp : conn.qp with
  | false =>
    have hd := hdown hqp
    have hsame : conn.doDisconnect w = (conn, w) := by
      unfold Connection.doDisconnect
      rw [if_pos hd]
    simp only [hsame, hqp, Bool.false_eq_true, if_false]
    rw [hqp, hd] at h
    refine ⟨?_, h⟩
    rw [← hd, ← hqp]
  | true =>
    rw [hqp] at h
    have hdis := h.doDisconnect hid
    simp only [doDisconnect_conn, hqp, if_true]
    refine ⟨trivial, ?_⟩
    rw [hid]
    exact hdis.freed rfl rfl

theorem On.dropEndpoint (hid : conn.id = k) (hdown : conn.qp = false → conn.disconnected = true)
    (h : w.On k (.live conn.ep.ownPd (if conn.qp then some q else none) joined conn.disconnected)) :
    (conn.dropEndpoint w).On k { Stage.housed with joined := joined, disconnected := true } := by
  have hshut := (h.shutdown hid hdown).2
  have hcq : ((conn.shutdown w).2.freed (.id k) .destroyCq).On k
      { Stage.live conn.ep.ownPd none joined true with cq := false } := hshut.freed rfl rfl
  have hcomp : (((conn.shutdown w).2.freed (.id k) .destroyCq).freed (.id k) .destroyCompChannel).On k
      { Stage.live conn.ep.ownPd none joined true with cq := false, comp := false } := hcq.freed rfl rfl
  unfold Connection.dropEndpoint
  rw [hid]
  exact hcomp.dropPd rfl rfl rfl

theorem Kept.then_dropEndpoint (hid : conn.id = k) (hk : w₀.Kept k w) : w₀.Kept k (conn.dropEndpoint w) := by
  unfold Connection.dropEndpoint
  rw [hid]
  exact (((hk.then_shutdown hid).then_freed _).then_freed _).then_dropPd _

theorem Kept.then_drop (hid : conn.id = k) (hk : w₀.Kept k w) : w₀.Kept k (conn.drop w) := by
  unfold Connection.drop
  rw [hid]
  exact (hk.then_dropEndpoint hid).then_dropId

/-- The last handle of a connection leaves nothing. -/
theorem On.drop {begun : Bool} (hid : conn.id = k) (h : w.On k s) (hf : Fits conn begun s) :
    ∃ t, (conn.drop w).On k t ∧ t.Clean := by
  obtain ⟨q, joined, rfl, -, hdown⟩ := hf
  have hep := h.dropEndpoint hid hdown
  unfold Connection.drop
  rw [hid]
  exact ⟨_, hep.dropId rfl rfl rfl rfl rfl rfl rfl, rfl, rfl, rfl, rfl, rfl, rfl, rfl⟩

end Drop

/-! Setting up a connection for a request. -/

/-- A connection as it is handed out: on its request's identifier and device, its QP in INIT. -/
structure Handed (w₀ v : World) (k : Nat) (context : Option Nat) (role : Role) (shared : Bool)
    (conn : Connection) : Prop where
  id : conn.id = k
  role : conn.role = role
  context : context = some conn.ep.context
  ownPd : conn.ep.ownPd = !shared
  open_ : conn.qp = true ∧ conn.disconnected = false
  stage : v.On k (.live (!shared) (some .init) false false)
  placed : Placed w₀ v conn.ep.context conn.ep.pd (!shared)

theorem Handed.fits {context : Option Nat} {role : Role} {shared : Bool} {conn : Connection}
    (h : Handed w₀ v k context role shared conn) :
    Fits conn false (.live (!shared) (some .init) false false) := by
  refine ⟨.init, false, ?_, fun _ => ⟨rfl, rfl⟩, fun hq => absurd (h.open_.1.symm.trans hq) (by decide)⟩
  rw [h.ownPd, h.open_.1, h.open_.2]
  rfl

/-- An identifier whose endpoint is gone, if it had one, and which was not accepted or
    rejected. -/
def Left (s : Stage) : Prop :=
  ∃ own disconnected, s = { id := true, channel := own, own := own, disconnected := disconnected }

theorem On.endpoint_to {context : Option Nat} {role : Role} {sendWr recvWr : Nat} {shared : Bool}
    {Q : Except Error Connection → World → Prop} (h : w.On k .housed) (hk : w₀.Kept k w)
    (hw : w₀.Coherent) (yes : ∀ conn v, Handed w₀ v k context role shared conn → w₀.Kept k v → Q (.ok conn) v)
    (no : ∀ e v s, Left s → v.On k s → w₀.Kept k v → Q (.error e) v) :
    wp (do
      let ep ← Endpoint.build k context sendWr recvWr shared
      let conn := Connection.new k ep role
      orDrop (conn.modifyQp .init) conn.dropEndpoint
      return conn) w Q := by
  simp only [wp_bind]
  refine h.build_to hk hw (fun ep v hc hown hv kv hpl => ?_) fun e v hv kv => no e v _ ⟨true, false, rfl⟩ hv kv
  simp only [wp_orDrop, wp_pure]
  refine On.modifyQp_to rfl rfl hv (.refl k v) rfl (fun u hu ku => ?_) fun e u hu ku => ?_
  · exact yes _ u ⟨rfl, rfl, hc, hown, ⟨rfl, rfl⟩, hu, hpl.mono ku⟩ (kv.trans ku)
  · have hep : ((Connection.new k ep role).dropEndpoint u).On k
        { Stage.housed with joined := false, disconnected := true } := by
      refine On.dropEndpoint (q := .reset) rfl (fun hq => by cases hq) ?_
      show u.On k (.live ep.ownPd _ _ _)
      rw [hown]
      exact hu
    exact no e _ _ ⟨true, true, rfl⟩ hep ((kv.trans ku).then_dropEndpoint rfl)

theorem On.migrate_to {Q : Except Error Unit → World → Prop} (h : w.On k { id := true, channel := true })
    (hk : w₀.Kept k w) (yes : ∀ v, v.On k .housed → w₀.Kept k v → Q (.ok ()) v)
    (no : ∀ e v, v.On k { id := true, channel := true } → w₀.Kept k v → Q (.error e) v) :
    wp (migrate k) w Q := by
  simp only [migrate, wp_bind, wp_modify]
  refine call_wp (fun hf => ?_) fun e hf => ?_
  · refine yes _ ⟨h.stage.call ?_, by simp; rfl⟩ ((hk.then_made _).then_own true)
    rw [hf]
    rfl
  · refine no e _ ⟨h.stage.call ?_, h.own⟩ (hk.then_made _)
    rw [hf]
    rfl

theorem On.setup_to {e : Event} {sendWr recvWr : Nat} {shared : Bool}
    {Q : Except Error Connection → World → Prop} (h : w.On e.cmId { id := true }) (hk : w₀.Kept e.cmId w)
    (hw : w₀.Coherent)
    (yes : ∀ conn v, Handed w₀ v e.cmId e.context .server shared conn → w₀.Kept e.cmId v → Q (.ok conn) v)
    (no : ∀ err v s, Left s → v.On e.cmId s → w₀.Kept e.cmId v → Q (.error err) v) :
    wp (setup shared sendWr recvWr e) w Q := by
  unfold setup
  rw [wp_bind]
  refine h.call_to hk rfl rfl rfl (fun v hv kv => ?_) fun err v hv kv => no err v _ ⟨false, false, rfl⟩ hv kv
  simp only
  rw [wp_bind, wp_orDrop]
  refine hv.migrate_to kv (fun v hv kv => ?_) fun err v hv kv => ?_
  · exact hv.endpoint_to kv hw yes no
  · exact no err _ { id := true } ⟨false, false, rfl⟩ ⟨hv.stage.call rfl, hv.own⟩ (kv.then_made _)

theorem setupOrReject_wp (shared : Bool) (sendWr recvWr : Nat) (e : Event) (w : World)
    (Q : Except Error Connection → World → Prop) :
    wp (setupOrReject shared sendWr recvWr e) w Q ↔ wp (setup shared sendWr recvWr e) w fun r v =>
      match r with
      | .ok conn => Q (.ok conn) v
      | .error err =>
        Q (.error (.connectionSetupFailed err.text)) ((v.made (.id e.cmId) .reject).dropId e.cmId) := by
  unfold wp setupOrReject
  cases setup shared sendWr recvWr e w <;> rfl

/-- Why a request is not set up: a call of the setup was refused, or its identifier is not on a
    device. -/
def Blamed (log : List (Obj × Call × Bool)) (e : Event) (err : Error) : Prop :=
  (err = .other "device call failed" ∧ ∃ o c, (o, c, false) ∈ log ∧ c.preparatory = true ∧
    (o = .id e.cmId ∨ ∃ ctx, e.context = some ctx ∧ o = .context ctx)) ∨
  (err = .other "cm id is not bound to a device yet" ∧ e.context = none)

theorem Blamed.mono {log log' : List (Obj × Call × Bool)} {e : Event} {err : Error} (h : Blamed log e err)
    (hlog : log <+: log') : Blamed log' e err := by
  rcases h with ⟨rfl, o, c, hmem, hrest⟩ | h
  · exact .inl ⟨rfl, o, c, hlog.subset hmem, hrest⟩
  · exact .inr h

/-- A call of the setup. -/
theorem call_blamed {e : Event} {o : Obj} {Q : Except Error Unit → World → Prop} (hc : c.preparatory = true)
    (ho : o = .id e.cmId ∨ ∃ ctx, e.context = some ctx ∧ o = .context ctx) (yes : ∀ v, Q (.ok ()) v)
    (no : ∀ err v, Blamed v.log e err → Q (.error err) v) : wp (call o c) w Q := by
  unfold wp call
  cases hf : w.refuses with
  | false => exact yes _
  | true =>
    refine no _ _ (.inl ⟨rfl, o, c, ?_, hc, ho⟩)
    have hlast : (o, c, !w.refuses) ∈ (w.made o c).log := List.mem_append_right _ (List.mem_singleton.mpr rfl)
    rwa [hf] at hlast

theorem freed_log (o : Obj) (c : Call) (w : World) : w.log <+: (w.freed o c).log := List.prefix_append _ _
theorem made_log (o : Obj) (c : Call) (w : World) : w.log <+: (w.made o c).log := List.prefix_append _ _

theorem build_blamed {e : Event} {sendWr recvWr : Nat} {shared : Bool} {Q : Except Error Endpoint → World → Prop}
    (yes : ∀ ep v, Q (.ok ep) v) (no : ∀ err v, Blamed v.log e err → Q (.error err) v) :
    wp (Endpoint.build e.cmId e.context sendWr recvWr shared) w Q := by
  unfold Endpoint.build
  cases hctx : e.context with
  | none => exact no _ _ (.inr ⟨rfl, hctx⟩)
  | some ctx =>
    -- what is dropped on the way out only adds to the log
    have hdrop : ∀ err (v : World), Blamed v.log e err → Q (.error err) (dropPd e.cmId (!shared) v) :=
      fun err v h => no err _ (h.mono ((Kept.refl e.cmId v).then_dropPd _).log)
    have hcomp : ∀ err (v : World), Blamed v.log e err →
        Q (.error err) (dropPd e.cmId (!shared) (v.freed (.id e.cmId) .destroyCompChannel)) :=
      fun err v h => hdrop err _ (h.mono (freed_log ..))
    have hcq : ∀ err (v : World), Blamed v.log e err → Q (.error err) (dropPd e.cmId (!shared)
        ((v.freed (.id e.cmId) .destroyCq).freed (.id e.cmId) .destroyCompChannel)) :=
      fun err v h => hcomp err _ (h.mono (freed_log ..))
    have hpd : ∀ {Q' : Except Error Nat → World → Prop}, (∀ pd v, Q' (.ok pd) v) →
        (∀ err v, Blamed v.log e err → Q' (.error err) v) → wp (choosePd e.cmId ctx shared) w Q' := by
      intro Q' yes no
      unfold choosePd forContext allocPd
      cases shared with
      | true =>
        simp only [if_true, wp_bind, wp_get]
        split
        · exact yes _ _
        · simp only [wp_bind]
          exact call_blamed rfl (.inr ⟨ctx, hctx, rfl⟩) (fun v => yes _ _) no
      | false =>
        simp only [Bool.false_eq_true, if_false, wp_bind]
        exact call_blamed rfl (.inl rfl) (fun v => yes _ _) no
    simp only [wp_bind, wp_orDrop, wp_get, wp_pure]
    refine hpd (fun pd v => ?_) no
    refine call_blamed rfl (.inl rfl) (fun v => ?_) hdrop
    refine call_blamed rfl (.inl rfl) (fun v => ?_) hcomp
    refine call_blamed rfl (.inl rfl) (fun v => ?_) hcomp
    refine call_blamed rfl (.inl rfl) (fun v => ?_) hcq
    exact call_blamed rfl (.inl rfl) (fun v => yes _ _) hcq

/-- A setup fails for a reason. -/
theorem setup_blamed (shared : Bool) (sendWr recvWr : Nat) (e : Event) (w : World) :
    wp (setup shared sendWr recvWr e) w fun r v => ∀ err, r = .error err → Blamed v.log e err := by
  have hno : ∀ err (v : World), Blamed v.log e err →
      ∀ err', (.error err : Except Error Connection) = .error err' → Blamed v.log e err' := by
    intro err v h err' heq
    exact Except.error.inj heq ▸ h
  have hyes : ∀ conn (v : World) err, (.ok conn : Except Error Connection) = .error err → Blamed v.log e err :=
    fun conn v err heq => (by cases heq)
  unfold setup migrate
  simp only [wp_bind, wp_orDrop, wp_modify]
  refine call_blamed rfl (.inl rfl) (fun v => ?_) hno
  refine call_blamed rfl (.inl rfl) (fun v => ?_) fun err v h => hno err _ (h.mono (made_log ..))
  refine build_blamed (fun ep v => ?_) hno
  have hep : ∀ err (v : World), Blamed v.log e err → ∀ err', (.error err : Except Error Connection) = .error err' →
      Blamed ((Connection.new e.cmId ep .server).dropEndpoint v).log e err' :=
    fun err v h => hno err _ (h.mono ((Kept.refl e.cmId v).then_dropEndpoint rfl).log)
  simp only [Connection.modifyQp, Connection.withQp, Connection.new, if_true, wp_bind, wp_pure]
  refine call_blamed rfl (.inl rfl) (fun v => ?_) hep
  exact call_blamed rfl (.inl rfl) (fun v => hyes _ _) hep

/-- Where the setup fails the peer has been rejected, and nothing is held. -/
theorem On.setupOrReject_to {e : Event} {sendWr recvWr : Nat} {shared : Bool}
    {Q : Except Error Connection → World → Prop} (h : w.On e.cmId { id := true }) (hk : w₀.Kept e.cmId w)
    (hw : w₀.Coherent)
    (yes : ∀ conn v, Handed w₀ v e.cmId e.context .server shared conn → w₀.Kept e.cmId v → Q (.ok conn) v)
    (no : ∀ err v t, t.Clean → v.On e.cmId t → w₀.Kept e.cmId v → Blamed v.log e err →
      (∃ ok, (Obj.id e.cmId, Call.reject, ok) ∈ v.log) → Q (.error (.connectionSetupFailed err.text)) v) :
    wp (setupOrReject shared sendWr recvWr e) w Q := by
  rw [setupOrReject_wp]
  have hblamed := setup_blamed shared sendWr recvWr e w
  have hsetup : wp (setup shared sendWr recvWr e) w fun r v =>
      (∀ err, r = .error err → Blamed v.log e err) → match r with
        | .ok conn => Q (.ok conn) v
        | .error err =>
          Q (.error (.connectionSetupFailed err.text)) ((v.made (.id e.cmId) .reject).dropId e.cmId) := by
    refine h.setup_to hk hw (fun conn v hc kv _ => yes conn v hc kv) fun err v s hs hv kv hb => ?_
    obtain ⟨own, disconnected, rfl⟩ := hs
    have hrej := hv.made (c := .reject) rfl fun _ => rfl
    have hlog := ((Kept.refl e.cmId (v.made (.id e.cmId) .reject)).then_dropId).log
    refine no err _ _ ?_ (hrej.dropId rfl rfl rfl rfl rfl rfl rfl) (kv.then_made _).then_dropId ?_ ?_
    · exact ⟨rfl, rfl, rfl, rfl, rfl, rfl, rfl⟩
    · exact ((hb err rfl).mono (made_log ..)).mono hlog
    · exact ⟨_, hlog.subset (List.mem_append_right _ (List.mem_singleton.mpr rfl))⟩
  exact wp_mono (wp_and hsetup hblamed) fun r v hr => hr.1 hr.2

/-- What becomes of a connect request. -/
theorem On.processEvent_to {e : Event} {sendWr recvWr : Nat} {shared : Bool}
    {Q : Except Error (Option Connection) → World → Prop} (hreq : e.eventType = .connectRequest)
    (h : w.On e.cmId { id := true, event := .due }) (hk : w₀.Kept e.cmId w) (hw : w₀.Coherent)
    (yes : ∀ conn v, Handed w₀ v e.cmId e.context .server shared conn → w₀.Kept e.cmId v →
      (Obj.id e.cmId, Call.ackEvent, true) ∈ v.log → Q (.ok (some conn)) v)
    (rejected : ∀ err v t, t.Clean → v.On e.cmId t → w₀.Kept e.cmId v → Blamed v.log e err →
      (Obj.id e.cmId, Call.ackEvent, true) ∈ v.log → (∃ ok, (Obj.id e.cmId, Call.reject, ok) ∈ v.log) →
      Q (.error (.connectionSetupFailed err.text)) v)
    (unacked : ∀ v t, t.Clean → v.On e.cmId t → w₀.Kept e.cmId v → (Obj.id e.cmId, Call.ackEvent, false) ∈ v.log →
      Q (.error (.other "device call failed")) v) :
    wp (processEvent shared sendWr recvWr e) w Q := by
  unfold processEvent
  rw [hreq]
  simp only [wp_bind, wp_orDrop]
  refine h.ack_to hk rfl (fun v hv kv hack => ?_) fun v hv kv hack => ?_
  · rw [wp_map]
    -- what is called later leaves the acknowledgement on record
    have hgrows : wp (setupOrReject shared sendWr recvWr e) v fun _ u => v.log <+: u.log :=
      hv.setupOrReject_to (.refl _ v) (kv.coherent hw) (fun _ _ _ ku => ku.log) fun _ _ _ _ _ ku _ _ => ku.log
    have hgo : wp (setupOrReject shared sendWr recvWr e) v fun r u => v.log <+: u.log → Q (r.map some) u :=
      hv.setupOrReject_to kv hw (fun conn u hc ku hlog => yes conn u hc ku (hlog.subset hack))
        fun err u t ht hu ku hb hrej hlog => rejected err u t ht hu ku hb (hlog.subset hack) hrej
    exact wp_mono (wp_and hgo hgrows) fun r u hr => hr.1 hr.2
  · refine unacked _ _ ⟨rfl, rfl, rfl, rfl, rfl, rfl, rfl⟩ (hv.dropId rfl rfl rfl rfl rfl rfl rfl) kv.then_dropId ?_
    exact ((Kept.refl e.cmId v).then_dropId).log.subset hack

/-! A client. -/

theorem On.connect_to {ip : String} {parses : Bool} {context : Option Nat} {sendWr recvWr : Nat}
    {resolveTimeoutMs : Int} {addr route : Wait} {Q : Except Error Connection → World → Prop}
    (h : w.On k {}) (hk : w₀.Kept k w) (hw : w₀.Coherent)
    (yes : ∀ conn v, Handed w₀ v k context .client false conn → w₀.Kept k v → Q (.ok conn) v)
    (no : ∀ e v t, t.Clean → v.On k t → w₀.Kept k v → Q (.error e) v) :
    wp (connect k ip parses context sendWr recvWr resolveTimeoutMs addr route) w Q := by
  have hclean : ∀ e v s, Left s → v.On k s → w₀.Kept k v → Q (.error e) (v.dropId k) := by
    intro e v s hs hv kv
    obtain ⟨own, disconnected, rfl⟩ := hs
    exact no e _ _ ⟨rfl, rfl, rfl, rfl, rfl, rfl, rfl⟩ (hv.dropId rfl rfl rfl rfl rfl rfl rfl) kv.then_dropId
  have hhoused : ∀ e v, v.On k .housed → w₀.Kept k v → Q (.error e) (v.dropId k) :=
    fun e v => hclean e v _ ⟨true, false, rfl⟩
  unfold connect
  simp only [wp_bind, wp_ite, wp_throw]
  split
  · exact no _ w _ ⟨rfl, rfl, rfl, rfl, rfl, rfl, rfl⟩ h hk
  · refine h.call_to (t := { channel := true }) (u := {}) hk rfl rfl rfl (fun v hv kv => ?_) fun e v hv kv =>
      no e v _ ⟨rfl, rfl, rfl, rfl, rfl, rfl, rfl⟩ hv kv
    simp only
    rw [wp_orDrop, wp_bind]
    -- the identifier is made on its own channel, so its events go there from the start
    refine call_wp (fun hf => ?_) fun e hf => ?_
    · have hv₁ : ({ v.made (.id k) .createId with own := Function.update v.own k true } : World).On k .housed := by
        refine ⟨hv.stage.call ?_, by simp; rfl⟩
        rw [hf]
        rfl
      have kv₁ := (kv.then_made .createId).then_own true
      simp only [wp_modify]
      rw [wp_orDrop, wp_bind]
      refine hv₁.call_to kv₁ rfl rfl rfl (fun v hv kv => ?_) hhoused
      simp only
      rw [wp_bind]
      refine hv.waitEvent_to kv rfl rfl rfl rfl (fun v hv kv => ?_) hhoused
      simp only
      rw [wp_bind]
      refine hv.call_to kv rfl rfl rfl (fun v hv kv => ?_) hhoused
      simp only
      rw [wp_bind]
      refine hv.waitEvent_to kv rfl rfl rfl rfl (fun v hv kv => ?_) hhoused
      exact hv.endpoint_to kv hw yes hclean
    · refine no e _ {} ⟨rfl, rfl, rfl, rfl, rfl, rfl, rfl⟩ ?_ ((kv.then_made _).then_made _)
      have hv₁ : (v.made (.id k) .createId).On k { channel := true } := by
        refine ⟨hv.stage.call ?_, hv.own⟩
        rw [hf]
        rfl
      exact ⟨hv₁.stage.call rfl, hv₁.own⟩

/-! Establishing a connection, and what is called on it later. -/

theorem Fits.began {conn : Connection} {begun : Bool} (hf : Fits conn begun s) : Fits conn true s := by
  obtain ⟨q, joined, rfl, -, hdown⟩ := hf
  exact ⟨q, joined, rfl, fun h => (by cases h), hdown⟩

section Establish
variable {conn : Connection} {begun : Bool} {Q : Except Error Unit → World → Prop}

/-- The stage of a connection whose QP lives. -/
theorem Fits.alive {q : QpState} {joined : Bool} (hqp : conn.qp = true) :
    Fits conn true (.live conn.ep.ownPd (some q) joined conn.disconnected) := by
  refine ⟨q, joined, ?_, fun h => (by cases h), fun h => by rw [hqp] at h; cases h⟩
  rw [hqp]
  rfl

/-- Before it is established a connection has its QP in INIT, or none. -/
theorem On.before (h : w.On k s) (hf : Fits conn false s) (hqp : conn.qp = true) :
    w.On k (.live conn.ep.ownPd (some .init) false conn.disconnected) := by
  obtain ⟨q, joined, rfl, hfirst, -⟩ := hf
  obtain ⟨rfl, rfl⟩ := hfirst rfl
  rw [hqp] at h
  exact h

theorem On.connectFinish_to {t : Wait} (hid : conn.id = k) (h : w.On k s) (hf : Fits conn false s)
    (hk : w₀.Kept k w)
    (yes : ∀ v, conn.qp = true → v.On k (.live conn.ep.ownPd (some .readyToSend) true conn.disconnected) →
      w₀.Kept k v → Q (.ok ()) v)
    (no : ∀ e v t, Fits conn true t → v.On k t → w₀.Kept k v → Q (.error e) v) :
    wp (conn.connectFinish t) w Q := by
  unfold Connection.connectFinish Connection.withQp
  cases hqp : conn.qp with
  | false =>
    simp only [Bool.false_eq_true, if_false, wp_bind, wp_throw]
    exact no _ w s hf.began h hk
  | true =>
    have hno : ∀ q joined e v, v.On k (.live conn.ep.ownPd (some q) joined conn.disconnected) → w₀.Kept k v →
        Q (.error e) v := fun q joined e v hv kv => no e v _ (.alive hqp) hv kv
    simp only [if_true, wp_bind, wp_pure]
    rw [hid]
    refine (h.before hf hqp).call_to hk rfl rfl rfl (fun v hv kv => ?_) (hno _ _)
    refine hv.waitEvent_to kv rfl rfl rfl rfl (fun v hv kv => ?_) (hno _ _)
    refine hv.modifyQp_to hid hqp kv rfl (fun v hv kv => ?_) (hno _ _)
    refine hv.modifyQp_to hid hqp kv rfl (fun v hv kv => ?_) (hno _ _)
    exact hv.call_to kv rfl rfl rfl (fun v => yes v hqp) (hno _ _)

theorem On.acceptEstablishBegin_to (hid : conn.id = k) (h : w.On k s) (hf : Fits conn false s)
    (hk : w₀.Kept k w)
    (yes : ∀ v, conn.qp = true → v.On k (.live conn.ep.ownPd (some .readyToSend) true conn.disconnected) →
      w₀.Kept k v → Q (.ok ()) v)
    (no : ∀ e v t, Fits conn true t → v.On k t → w₀.Kept k v → Q (.error e) v) :
    wp conn.acceptEstablishBegin w Q := by
  unfold Connection.acceptEstablishBegin Connection.withQp
  cases hqp : conn.qp with
  | false =>
    simp only [Bool.false_eq_true, if_false, wp_bind, wp_throw]
    exact no _ w s hf.began h hk
  | true =>
    have hno : ∀ q joined e v, v.On k (.live conn.ep.ownPd (some q) joined conn.disconnected) → w₀.Kept k v →
        Q (.error e) v := fun q joined e v hv kv => no e v _ (.alive hqp) hv kv
    simp only [if_true, wp_bind, wp_pure]
    rw [hid]
    refine (h.before hf hqp).modifyQp_to hid hqp hk rfl (fun v hv kv => ?_) (hno _ _)
    refine hv.modifyQp_to hid hqp kv rfl (fun v hv kv => ?_) (hno _ _)
    refine hv.call_to kv rfl rfl rfl (fun v hv kv => ?_) (hno _ _)
    exact hv.call_to kv rfl rfl rfl (fun v => yes v hqp) (hno _ _)

theorem On.acceptFinish_to {t : Wait} (hid : conn.id = k) (h : w.On k s) (hf : Fits conn false s)
    (hk : w₀.Kept k w)
    (yes : ∀ v, conn.qp = true → v.On k (.live conn.ep.ownPd (some .readyToSend) true conn.disconnected) →
      w₀.Kept k v → Q (.ok ()) v)
    (no : ∀ e v t, Fits conn true t → v.On k t → w₀.Kept k v → Q (.error e) v) :
    wp (conn.acceptFinish t) w Q := by
  unfold Connection.acceptFinish
  rw [wp_bind]
  refine h.acceptEstablishBegin_to hid hf hk (fun v hqp hv kv => ?_) no
  simp only
  rw [hid]
  exact hv.waitEvent_to kv rfl rfl rfl rfl (fun v => yes v hqp) fun e v => no e v _ (.alive hqp)

end Establish

section Later
variable {conn : Connection} {begun : Bool}

theorem On.post_to {Q : Except Error Unit → World → Prop} (hid : conn.id = k) (h : w.On k s)
    (hf : Fits conn begun s) (hk : w₀.Kept k w) (all : ∀ r v, v.On k s → w₀.Kept k v → Q r v) :
    wp conn.post w Q := by
  obtain ⟨q, joined, rfl, -, -⟩ := hf
  unfold Connection.post Connection.withQp
  cases hqp : conn.qp with
  | false =>
    rw [hqp] at h all
    exact all _ w h hk
  | true =>
    rw [hqp] at h all
    rw [hid]
    exact h.call_to hk rfl rfl rfl (all _) fun e => all _

/-- What is asked of an identifier on its own channel. -/
theorem Fits.housed (hf : Fits conn begun s) : s.id = true ∧ s.own = true ∧ s.event = .none := by
  obtain ⟨q, joined, rfl, -, -⟩ := hf
  exact ⟨rfl, rfl, rfl⟩

theorem On.pollEstablished_to {Q : Except Error Bool → World → Prop} (hid : conn.id = k) (h : w.On k s)
    (hf : Fits conn begun s) (hk : w₀.Kept k w) (all : ∀ r v, v.On k s → w₀.Kept k v → Q r v) :
    wp conn.pollEstablished w Q := by
  obtain ⟨hi, ho, he⟩ := hf.housed
  unfold Connection.pollEstablished
  rw [hid]
  exact h.tryWaitEvent_to hk hi ho he (fun b => all _) fun e => all _

theorem On.checkDisconnect_to {Q : Except Error Bool → World → Prop} (hid : conn.id = k) (h : w.On k s)
    (hf : Fits conn begun s) (hk : w₀.Kept k w) (all : ∀ r v, v.On k s → w₀.Kept k v → Q r v) :
    wp conn.checkDisconnect w Q := by
  obtain ⟨hi, ho, he⟩ := hf.housed
  have hback : { { s with event := .due } with event := .none } = s := by
    rw [← he]
  unfold Connection.checkDisconnect
  rw [wp_bind, hid]
  refine h.getCmEvent_to hk hi ho he (all _) (fun e v hv kv => ?_) fun e => all _
  simp only [wp_bind, wp_modify, wp_pure]
  refine all _ _ ?_ kv.then_acked
  have hacked := hv.acked rfl
  rw [hback] at hacked
  exact hacked

end Later

end World

end Cm

end Hord
