import Hord.Lifecycle

/- A process with a listener, the connections accepted from it and connections of its own,
   over every run: connect requests arrive and are taken off the listener's channel, events
   reach the connections' channels, the connections are established, used, shut down and
   dropped by their owners in any order, and every call may be refused.

     * the calls made on each identifier keep its protocol, and of one that no connection
       holds any more everything has been let go of (`calls_in_turn`);
     * the events of the listener's channel are handled in order, once each, and what
       becomes of each is decided by its kind (`events_handled`);
     * connections that share a PD are on one for each device, the one that caller-owned
       memory is registered on (`pd_of_device`). -/
namespace Hord
namespace Cm

open Prog Typestate Transition

/-- The process. A connection comes with whether its owner has gone on to establish it. -/
structure Host where
  shared : Bool
  sendWr : Nat
  recvWr : Nat
  world : World
  conns : List (Connection × Bool)

/-- What the owner of a connection may do with it. -/
inductive Op where
  | begin
  | finish (t : Wait)
  | poll
  | check
  | post
  | disconnect
  | shutdown

/-- A connection is established once: its owner takes it by value to do so. The two steps of
    `begin` and `poll` are the server's. -/
def Op.allowed (op : Op) (c : Connection × Bool) : Prop :=
  match op with
  | .begin => c.2 = false ∧ c.1.role = .server
  | .finish _ => c.2 = false
  | _ => True

def Connection.finish (c : Connection) (t : Wait) : CmM Unit :=
  match c.role with
  | .server => c.acceptFinish t
  | .client => c.connectFinish t

/-- What an operation leaves of the connection and of the world. -/
def Op.run (op : Op) (c : Connection × Bool) (w : World) : (Connection × Bool) × World :=
  match op with
  | .begin => ((c.1, true), (exec c.1.acceptEstablishBegin w).2)
  | .finish t => ((c.1, true), (exec (c.1.finish t) w).2)
  | .poll => (c, (exec c.1.pollEstablished w).2)
  | .check => (c, (exec c.1.checkDisconnect w).2)
  | .post => (c, (exec c.1.post w).2)
  | .disconnect => (((c.1.doDisconnect w).1, c.2), (c.1.doDisconnect w).2)
  | .shutdown => (((c.1.shutdown w).1, c.2), (c.1.shutdown w).2)

inductive Label where
  | arrive (e : Event)
  | empty
  | unread (e : Error)
  | handled (e : Event) (r : Except Error (Option Connection))
  | reach (k : Nat) (es : List Event)
  | registered (r : Except Error Nat)
  | connected (k : Nat) (r : Except Error Connection)
  | op (k : Nat) (op : Op)
  | dropped (k : Nat)

/-- The connection a call has returned, if it has. -/
def handed : Except Error (Option Connection) → List (Connection × Bool)
  | .ok (some c) => [(c, false)]
  | _ => []

namespace Host

def ids (y : Host) : List Nat := y.conns.map fun c => c.1.id

/-- The connect requests on the listener's channel, by their identifiers. -/
def requests (w : World) : List Nat :=
  ((w.channel .listener).filter fun e => e.eventType == .connectRequest).map Event.cmId

/-- An identifier that has not been used and is not about to be. -/
def Unused (w : World) (k : Nat) : Prop :=
  callsOn (.id k) w.log = [] ∧ w.own k = false ∧ k ∉ requests w

/-- `handle` is the rest of a turn of `accept` or `try_accept` after `get_cm_event` has
    returned an event. -/
inductive Step : Host → Label → Host → Prop
  | arrive (y : Host) (e : Event) (hnew : e.eventType = .connectRequest → Unused y.world e.cmId) :
      Step y (.arrive e) { y with world := y.world.arrive .listener [e] }
  | empty (y : Host) (v : World) (h : exec (getCmEvent .listener) y.world = (.ok none, v)) :
      Step y .empty { y with world := v }
  | unread (y : Host) (e : Error) (v : World) (h : exec (getCmEvent .listener) y.world = (.error e, v)) :
      Step y (.unread e) { y with world := v }
  | handle (y : Host) (e : Event) (r : Except Error (Option Connection)) (u v : World)
      (hget : exec (getCmEvent .listener) y.world = (.ok (some e), u))
      (h : exec (processEvent y.shared y.sendWr y.recvWr e) u = (r, v)) :
      Step y (.handled e r) { y with world := v, conns := y.conns ++ handed r }
  | reach (y : Host) (k : Nat) (es : List Event) :
      Step y (.reach k es) { y with world := y.world.arrive (.id k) es }
  | register (y : Host) (r : Except Error Nat) (v : World)
      (h : exec (registerExternal y.shared) y.world = (r, v)) :
      Step y (.registered r) { y with world := v }
  | connect (y : Host) (k : Nat) (ip : String) (parses : Bool) (context : Option Nat)
      (sendWr recvWr : Nat) (resolveTimeoutMs : Int) (addr route : Wait)
      (r : Except Error Connection) (v : World) (hnew : Unused y.world k)
      (h : exec (Cm.connect k ip parses context sendWr recvWr resolveTimeoutMs addr route) y.world = (r, v)) :
      Step y (.connected k r) { y with world := v, conns := y.conns ++ handed (r.map some) }
  | op (y : Host) (ls rs : List (Connection × Bool)) (c : Connection × Bool) (op : Op)
      (hc : y.conns = ls ++ c :: rs) (hop : op.allowed c) :
      Step y (.op c.1.id op) { y with world := (op.run c y.world).2
                                      conns := ls ++ (op.run c y.world).1 :: rs }
  | drop (y : Host) (ls rs : List (Connection × Bool)) (c : Connection × Bool)
      (hc : y.conns = ls ++ c :: rs) :
      Step y (.dropped c.1.id) { y with world := c.1.drop y.world, conns := ls ++ rs }

/-- The process after `bind_inner` has returned. -/
def Bound (y : Host) : Prop :=
  ∃ faults maxSge ip parses context, y.conns = [] ∧
    exec (bindInner ip parses context y.shared) (World.blank faults maxSge) = (.ok (), y.world)

end Host

theorem exec_wp {α : Type} {x : CmM α} {w v : World} {r : Except Error α} {Q : Except Error α → World → Prop}
    (hq : wp x w Q) (h : exec x w = (r, v)) : Q r v := by
  unfold exec at h
  unfold wp at hq
  split at h
  · next heq =>
    rw [heq] at hq
    cases h
    exact hq
  · next heq =>
    rw [heq] at hq
    cases h
    exact hq

theorem exec_to {α : Type} {x : CmM α} {w : World} {Q : Except Error α → World → Prop} (hq : wp x w Q) :
    Q (exec x w).1 (exec x w).2 := exec_wp hq rfl

/-! What one step keeps. -/

/-- The connections are at stages that fit them, nothing is held of other identifiers, and
    the requests that wait are for new ones. -/
structure Host.Sound (y : Host) : Prop where
  coherent : y.world.Coherent
  listener : y.world.At .listener .housed
  nodup : y.ids.Nodup
  live : ∀ c ∈ y.conns, ∃ s, World.Fits c.1 c.2 s ∧ y.world.On c.1.id s
  gone : ∀ k, k ∉ y.ids → ∃ s : Stage, s.Clean ∧ y.world.On k s
  distinct : (Host.requests y.world).Nodup
  waiting : ∀ k ∈ Host.requests y.world, callsOn (.id k) y.world.log = [] ∧ y.world.own k = false

namespace World
variable {k n : Nat} {w v : World} {s : Stage}

theorem On.kept (h : w.On n s) (hk : w.Kept k v) (hn : n ≠ k) : v.On n s := by
  obtain ⟨hcalls, hown⟩ := hk.others n hn
  refine ⟨?_, hown.trans h.own⟩
  have hstage := h.stage
  unfold World.At Typestate.At at *
  rw [hcalls]
  exact hstage

theorem Kept.requests (hk : w.Kept k v) : Host.requests v = Host.requests w := by
  unfold Host.requests
  rw [hk.channel .listener (by simp)]

/-- An identifier that has been worked on is not one of those that wait. -/
theorem On.used (h : w.On k s) (hs : s.id = true) : callsOn (.id k) w.log ≠ [] := by
  intro hnil
  have hstart := h.stage.unique (Typestate.At.start hnil)
  rw [hstart] at hs
  cases hs

end World

/-- The same of everything but identifier `k`, which no connection holds and which does not
    wait. -/
structure Others (k : Nat) (w : World) (conns : List (Connection × Bool)) : Prop where
  coherent : w.Coherent
  listener : w.At .listener .housed
  nodup : (conns.map fun c => c.1.id).Nodup
  absent : k ∉ conns.map fun c => c.1.id
  live : ∀ c ∈ conns, ∃ s, World.Fits c.1 c.2 s ∧ w.On c.1.id s
  gone : ∀ n, n ≠ k → n ∉ (conns.map fun c => c.1.id) → ∃ s : Stage, s.Clean ∧ w.On n s
  distinct : (Host.requests w).Nodup
  waiting : ∀ n ∈ Host.requests w, n ≠ k ∧ callsOn (.id n) w.log = [] ∧ w.own n = false

section Parts
variable {y : Host} {k : Nat} {w v : World} {conns ls rs : List (Connection × Bool)} {c : Connection × Bool}

theorem Others.kept (h : Others k w conns) (hk : w.Kept k v) : Others k v conns where
  coherent := hk.coherent h.coherent
  listener := by
    have hl := h.listener
    unfold World.At Typestate.At at *
    rw [hk.listener]
    exact hl
  nodup := h.nodup
  absent := h.absent
  live := by
    intro c hc
    obtain ⟨s, hf, hs⟩ := h.live c hc
    exact ⟨s, hf, hs.kept hk fun heq => h.absent (List.mem_map.mpr ⟨c, hc, heq⟩)⟩
  gone := by
    intro n hne hn
    obtain ⟨s, hs, hon⟩ := h.gone n hne hn
    exact ⟨s, hs, hon.kept hk hne⟩
  distinct := by
    rw [hk.requests]
    exact h.distinct
  waiting := by
    intro n hn
    rw [hk.requests] at hn
    obtain ⟨hne, hnil, hfree⟩ := h.waiting n hn
    obtain ⟨hcalls, hown⟩ := hk.others n hne
    exact ⟨hne, hcalls.trans hnil, hown.trans hfree⟩

/-- The identifier belongs to a connection. -/
theorem Others.join (ls rs : List (Connection × Bool)) (c : Connection × Bool) (h : Others c.1.id w (ls ++ rs))
    (hc : ∃ s, World.Fits c.1 c.2 s ∧ w.On c.1.id s) (hw : y.world = w) (hy : y.conns = ls ++ c :: rs) :
    y.Sound := by
  subst hw
  have hperm : (y.conns).Perm (c :: (ls ++ rs)) := by
    rw [hy]
    exact List.perm_middle
  have hids := hperm.map fun c : Connection × Bool => c.1.id
  refine ⟨h.coherent, h.listener, ?_, ?_, ?_, h.distinct, fun n hn => (h.waiting n hn).2⟩
  · exact hids.nodup_iff.mpr (List.nodup_cons.mpr ⟨h.absent, h.nodup⟩)
  · intro d hd
    rcases List.mem_cons.mp (hperm.mem_iff.mp hd) with rfl | hd
    · exact hc
    · exact h.live d hd
  · intro n hn
    have hn' : n ∉ c.1.id :: (ls ++ rs).map fun c => c.1.id := fun hmem => hn (hids.mem_iff.mpr hmem)
    rw [List.mem_cons, not_or] at hn'
    exact h.gone n hn'.1 hn'.2

/-- Nothing is held of the identifier. -/
theorem Others.leave (h : Others k w conns) (hk : ∃ s : Stage, s.Clean ∧ w.On k s) (hw : y.world = w)
    (hy : y.conns = conns) : y.Sound := by
  subst hw hy
  refine ⟨h.coherent, h.listener, h.nodup, h.live, ?_, h.distinct, fun n hn => (h.waiting n hn).2⟩
  intro n hn
  by_cases heq : n = k
  · subst heq
    exact hk
  · exact h.gone n heq hn

/-- A connection apart from the others. -/
theorem Host.Sound.apart (h : y.Sound) (hc : y.conns = ls ++ c :: rs) :
    Others c.1.id y.world (ls ++ rs) ∧ ∃ s, World.Fits c.1 c.2 s ∧ y.world.On c.1.id s := by
  have hperm : (y.conns).Perm (c :: (ls ++ rs)) := by
    rw [hc]
    exact List.perm_middle
  have hids := hperm.map fun c : Connection × Bool => c.1.id
  have hnd := List.nodup_cons.mp (hids.nodup_iff.mp h.nodup)
  have hself := h.live c (hperm.mem_iff.mpr (List.mem_cons_self ..))
  refine ⟨⟨h.coherent, h.listener, hnd.2, hnd.1, ?_, ?_, h.distinct, ?_⟩, hself⟩
  · exact fun d hd => h.live d (hperm.mem_iff.mpr (List.mem_cons_of_mem _ hd))
  · intro n hne hn
    refine h.gone n fun hmem => ?_
    rcases List.mem_cons.mp (hids.mem_iff.mp hmem) with heq | hmem
    · exact hne heq
    · exact hn hmem
  · intro n hn
    obtain ⟨hnil, hfree⟩ := h.waiting n hn
    refine ⟨?_, hnil, hfree⟩
    rintro rfl
    obtain ⟨s, hf, hs⟩ := hself
    exact hs.used hf.housed.1 hnil

/-- An identifier that is used for the first time. -/
theorem Host.Sound.unused (h : y.Sound) (hk : Host.Unused y.world k) :
    Others k y.world y.conns ∧ y.world.On k {} := by
  obtain ⟨hnil, hfree, hwait⟩ := hk
  refine ⟨⟨h.coherent, h.listener, h.nodup, ?_, h.live, fun n _ hn => h.gone n hn, h.distinct, ?_⟩,
    Typestate.At.start hnil, hfree⟩
  · intro hmem
    obtain ⟨c, hc, rfl⟩ := List.mem_map.mp hmem
    obtain ⟨s, hf, hs⟩ := h.live c hc
    exact hs.used hf.housed.1 hnil
  · intro n hn
    exact ⟨fun heq => hwait (heq ▸ hn), h.waiting n hn⟩

end Parts

section Asides
variable {y : Host} {v : World}

/-- Calls on the listener, and events that come and go. -/
theorem Host.Sound.aside (h : y.Sound) (ms : List (Obj × Call × Bool)) (hlog : v.log = y.world.log ++ ms) (hms : ∀ e ∈ ms, e.1 = .listener)
    (hl : v.At .listener .housed) (hown : v.own = y.world.own) (hpds : v.pds = y.world.pds)
    (hnext : v.nextPd = y.world.nextPd) (hreq : (Host.requests v).Nodup)
    (hwait : ∀ k ∈ Host.requests v, callsOn (.id k) y.world.log = [] ∧ y.world.own k = false) :
    ({ y with world := v } : Host).Sound := by
  -- the calls of every other object are what they were
  have hcalls : ∀ o, o ≠ .listener → callsOn o v.log = callsOn o y.world.log := by
    intro o ho
    rw [hlog, callsOn_append, callsOn_eq_nil fun e he heq => ho (heq.symm.trans (hms e he)), List.append_nil]
  have hat : ∀ o s, o ≠ .listener → y.world.At o s → v.At o s := by
    intro o s ho hs
    unfold World.At Typestate.At at *
    rw [hcalls o ho]
    exact hs
  have hon : ∀ k s, y.world.On k s → v.On k s :=
    fun k s hs => ⟨hat _ _ (by simp) hs.stage, (congrFun hown k).trans hs.own⟩
  refine ⟨⟨?_, ?_, ?_, ?_⟩, hl, h.nodup, ?_, ?_, hreq, ?_⟩
  · rw [hpds]
    exact h.coherent.contexts
  · rw [hpds]
    exact h.coherent.numbers
  · rw [hpds, hnext]
    exact h.coherent.used
  · intro c
    rw [hpds]
    exact hat _ _ (by simp) (h.coherent.stage c)
  · intro c hc
    obtain ⟨s, hf, hs⟩ := h.live c hc
    exact ⟨s, hf, hon _ _ hs⟩
  · intro k hk
    obtain ⟨s, hs, hk⟩ := h.gone k hk
    exact ⟨s, hs, hon _ _ hk⟩
  · intro k hk
    obtain ⟨hnil, hfree⟩ := hwait k hk
    exact ⟨(hcalls _ (by simp)).trans hnil, (congrFun hown k).trans hfree⟩

/-- The same where nothing was called. -/
theorem Host.Sound.idle (h : y.Sound) (hlog : v.log = y.world.log) (hown : v.own = y.world.own)
    (hpds : v.pds = y.world.pds) (hnext : v.nextPd = y.world.nextPd)
    (hch : v.channel .listener = y.world.channel .listener) : ({ y with world := v } : Host).Sound := by
  have hreq : Host.requests v = Host.requests y.world := by
    unfold Host.requests
    rw [hch]
  have hl := h.listener
  unfold World.At Typestate.At at hl
  refine h.aside [] (by rw [hlog, List.append_nil]) (by simp) ?_ hown hpds hnext (hreq ▸ h.distinct)
    fun k hk => h.waiting k (hreq ▸ hk)
  unfold World.At Typestate.At
  rw [hlog]
  exact hl

/-- Nothing was taken off the listener's channel. -/
theorem Host.Sound.looked (h : y.Sound) : ({ y with world := y.world.made .listener .noEvent } : Host).Sound :=
  h.aside [(.listener, .noEvent, !y.world.refuses)] rfl (by simp) (h.listener.call rfl) rfl rfl rfl h.distinct h.waiting

/-- Calls on a device alone. -/
theorem Host.Sound.device (h : y.Sound) (hk : ∀ k, y.world.Kept k v) : ({ y with world := v } : Host).Sound := by
  have hon : ∀ k s, y.world.On k s → v.On k s := fun k s hs => hs.kept (hk (k + 1)) (Nat.ne_of_lt (Nat.lt_succ_self k))
  refine ⟨(hk 0).coherent h.coherent, ?_, h.nodup, ?_, ?_, ?_, ?_⟩
  · have hl := h.listener
    unfold World.At Typestate.At at *
    rw [(hk 0).listener]
    exact hl
  · intro c hc
    obtain ⟨s, hf, hs⟩ := h.live c hc
    exact ⟨s, hf, hon _ _ hs⟩
  · intro k hk
    obtain ⟨s, hs, hk⟩ := h.gone k hk
    exact ⟨s, hs, hon _ _ hk⟩
  · show (Host.requests v).Nodup
    rw [(hk 0).requests]
    exact h.distinct
  · intro k hw
    change k ∈ Host.requests v at hw
    rw [(hk 0).requests] at hw
    obtain ⟨hnil, hfree⟩ := h.waiting k hw
    obtain ⟨hcalls, hown⟩ := (hk (k + 1)).others k (Nat.ne_of_lt (Nat.lt_succ_self k))
    exact ⟨hcalls.trans hnil, hown.trans hfree⟩

end Asides

/-! The steps. -/

/-- Taking an event off the listener's channel. -/
theorem getCmEvent_listener {w v : World} {r : Except Error (Option Event)}
    (h : exec (getCmEvent .listener) w = (r, v)) :
    (∃ e es, r = .ok (some e) ∧ w.channel .listener = e :: es ∧
      v = { w with faults := w.faults.tail
                   channel := Function.update w.channel .listener es
                   log := w.log ++ [((e.taken .listener).1, (e.taken .listener).2, true)] }) ∨
    (r = .ok none ∧ w.channel .listener = [] ∨ r = .error (.other "device call failed") ∧ w.refuses = true) ∧
      v = w.made .listener .noEvent := by
  unfold exec getCmEvent at h
  cases hf : w.refuses with
  | true =>
    simp only [hf, if_true] at h
    cases h
    exact .inr ⟨.inr ⟨rfl, rfl⟩, rfl⟩
  | false =>
    simp only [hf, Bool.false_eq_true, if_false] at h
    cases hch : w.channel .listener with
    | nil =>
      simp only [hch] at h
      cases h
      exact .inr ⟨.inl ⟨rfl, rfl⟩, rfl⟩
    | cons e es =>
      simp only [hch] at h
      cases h
      exact .inl ⟨e, es, rfl, rfl, rfl⟩

/-- What becomes of an event, by its kind, as `log` has it. A request becomes a connection, or its
    setup fails and the peer is rejected, where the acknowledgement of its event was granted;
    it is an error of the listener where that was refused. -/
def Verdict (log : List (Obj × Call × Bool)) (e : Event) (r : Except Error (Option Connection)) : Prop :=
  match e.eventType with
  | .connectRequest =>
    ((Obj.id e.cmId, Call.ackEvent, true) ∈ log ∧
      ((∃ c, r = .ok (some c) ∧ c.id = e.cmId ∧ e.context = some c.ep.context ∧ c.role = .server ∧ c.qp = true) ∨
        ∃ err, r = .error (.connectionSetupFailed err.text) ∧ World.Blamed log e err ∧
          ∃ ok, (Obj.id e.cmId, Call.reject, ok) ∈ log)) ∨
    ((Obj.id e.cmId, Call.ackEvent, false) ∈ log ∧ r = .error (.other "device call failed"))
  | .deviceRemoval => r = .error .deviceRemoved
  | _ => r = .ok none

theorem Verdict.mono {log log' : List (Obj × Call × Bool)} {e : Event} {r : Except Error (Option Connection)}
    (h : Verdict log e r) (hlog : log <+: log') : Verdict log' e r := by
  unfold Verdict at h ⊢
  split at h
  · rcases h with ⟨hack, hconn | ⟨err, hr, hb, ok, hrej⟩⟩ | ⟨hack, hr⟩
    · exact .inl ⟨hlog.subset hack, .inl hconn⟩
    · exact .inl ⟨hlog.subset hack, .inr ⟨err, hr, hb.mono hlog, ok, hlog.subset hrej⟩⟩
    · exact .inr ⟨hlog.subset hack, hr⟩
  · exact h
  · exact h

theorem Verdict.handed_nil {log : List (Obj × Call × Bool)} {e : Event} {r : Except Error (Option Connection)}
    (h : Verdict log e r)
    (he : e.eventType ≠ .connectRequest) : handed r = [] := by
  unfold Verdict at h
  split at h
  · next heq => exact absurd heq he
  · rw [h]
    rfl
  · rw [h]
    rfl

/-- Another event than a connect request is acknowledged, whatever comes of that. -/
theorem processEvent_other {shared : Bool} {sendWr recvWr : Nat} {e : Event} {w v : World}
    {r : Except Error (Option Connection)} (he : e.eventType ≠ .connectRequest)
    (h : exec (processEvent shared sendWr recvWr e) w = (r, v)) : v = w.acked .listener ∧ Verdict v.log e r := by
  unfold processEvent at h
  split at h
  · next heq => exact absurd heq he
  · next heq =>
    cases h
    refine ⟨rfl, ?_⟩
    simp only [Verdict, heq]
  · next h1 h2 =>
    cases h
    refine ⟨rfl, ?_⟩
    unfold Verdict
    split
    · next heq => exact absurd heq he
    · next heq => exact absurd heq h2
    · rfl

section Taken
variable {y : Host} {e : Event} {es : List Event}

/-- The world after `e` has been taken off the listener's channel. -/
def World.taken (w : World) (e : Event) (es : List Event) : World :=
  { w with faults := w.faults.tail
           channel := Function.update w.channel .listener es
           log := w.log ++ [((e.taken .listener).1, (e.taken .listener).2, true)] }

theorem requests_taken (w : World) (e : Event) (es : List Event) :
    Host.requests (w.taken e es) = (es.filter fun e => e.eventType == .connectRequest).map Event.cmId := by
  unfold Host.requests World.taken
  simp

/-- The requests that wait, with the event at the head. -/
theorem requests_head {w : World} (hch : w.channel .listener = e :: es) :
    Host.requests w = (if e.eventType = .connectRequest then [e.cmId] else []) ++ Host.requests (w.taken e es) := by
  rw [requests_taken]
  unfold Host.requests
  rw [hch]
  by_cases he : e.eventType = .connectRequest
  · simp [he]
  · simp [he]

/-- A connect request is taken: its identifier is in use from here on. -/
theorem Host.Sound.request (h : y.Sound) (hch : y.world.channel .listener = e :: es)
    (he : e.eventType = .connectRequest) :
    Others e.cmId (y.world.taken e es) y.conns ∧
      (y.world.taken e es).On e.cmId { id := true, event := .due } := by
  have hreq := requests_head hch
  rw [if_pos he] at hreq
  have hnd := h.distinct
  rw [hreq] at hnd
  have hfirst := h.waiting e.cmId (by rw [hreq]; simp)
  have htaken : e.taken .listener = (.id e.cmId, .takeRequest) := by
    unfold Event.taken
    rw [he]
  have hlog : (y.world.taken e es).log = y.world.log ++ [(.id e.cmId, .takeRequest, true)] := by
    unfold World.taken
    rw [htaken]
  have hat : ∀ o s, o ≠ .id e.cmId → y.world.At o s → (y.world.taken e es).At o s := by
    intro o s ho hs
    unfold World.At at *
    rw [hlog]
    exact Typestate.At.other hs ho.symm _
  have hon : ∀ n s, n ≠ e.cmId → y.world.On n s → (y.world.taken e es).On n s :=
    fun n s hn hs => ⟨hat _ _ (by simpa using hn) hs.stage, hs.own⟩
  -- an identifier in use has been called, and this one never was
  have habsent : e.cmId ∉ y.ids := by
    intro hmem
    obtain ⟨c, hc, heq⟩ := List.mem_map.mp hmem
    obtain ⟨s, hf, hs⟩ := h.live c hc
    exact hs.used hf.housed.1 (heq ▸ hfirst.1)
  refine ⟨⟨⟨h.coherent.contexts, h.coherent.numbers, h.coherent.used, ?_⟩, ?_, h.nodup, habsent, ?_, ?_, ?_, ?_⟩, ?_, hfirst.2⟩
  · exact fun c => hat _ _ (by simp) (h.coherent.stage c)
  · exact hat _ _ (by simp) h.listener
  · intro c hc
    obtain ⟨s, hf, hs⟩ := h.live c hc
    exact ⟨s, hf, hon _ _ (fun heq => habsent (List.mem_map.mpr ⟨c, hc, heq⟩)) hs⟩
  · intro n hne hn
    obtain ⟨s, hs, hk⟩ := h.gone n hn
    exact ⟨s, hs, hon _ _ hne hk⟩
  · exact (List.nodup_append.mp hnd).2.1
  · intro n hn
    have hne : n ≠ e.cmId := fun heq => (List.nodup_append.mp hnd).2.2 e.cmId (by simp) n hn heq.symm
    obtain ⟨hnil, hfree⟩ := h.waiting n (by rw [hreq]; exact List.mem_append_right _ hn)
    refine ⟨hne, ?_, hfree⟩
    rw [hlog, callsOn_append, hnil, callsOn_cons_other (by simpa using hne.symm)]
    rfl
  · unfold World.At
    rw [hlog]
    exact (Typestate.At.start hfirst.1).call rfl

/-- Another event is taken and acknowledged: the listener is as before. -/
theorem Host.Sound.other (h : y.Sound) (hch : y.world.channel .listener = e :: es)
    (he : e.eventType ≠ .connectRequest) :
    ({ y with world := (y.world.taken e es).acked .listener } : Host).Sound := by
  have hreq := requests_head hch
  rw [if_neg he, List.nil_append] at hreq
  have htaken : e.taken .listener = (.listener, .getEvent e.eventType) := by
    unfold Event.taken
    split
    · next heq => exact absurd heq he
    · rfl
  have hlog : (y.world.taken e es).log = y.world.log ++ [(.listener, .getEvent e.eventType, true)] := by
    unfold World.taken
    rw [htaken]
  have hdue : (y.world.taken e es).At .listener { Stage.housed with event := .due } := by
    unfold World.At
    rw [hlog]
    exact Typestate.At.call h.listener rfl
  obtain ⟨ms, hms, hobj, hown, hpds, hnext, hchan⟩ := World.acked_log .listener (y.world.taken e es)
  have hreq' : Host.requests ((y.world.taken e es).acked .listener) = Host.requests y.world := by
    rw [hreq]
    unfold Host.requests
    rw [hchan]
  refine h.aside ((.listener, .getEvent e.eventType, true) :: ms) ?_ ?_ (World.acked_at hdue rfl) hown hpds hnext
    (hreq' ▸ h.distinct) fun k hk => h.waiting k (hreq' ▸ hk)
  · rw [hms, hlog, List.append_assoc]
    rfl
  · intro x hx
    rcases List.mem_cons.mp hx with rfl | hx
    · rfl
    · exact hobj x hx

end Taken

/-! What a step does to what all connections share. -/

/-- The registry and the record of calls only grow, the registry by PDs that are new. -/
structure World.Advances (w v : World) : Prop where
  grows : w.pds <+: v.pds
  fresh : ∀ x ∈ v.pds, x ∈ w.pds ∨ w.nextPd ≤ x.2
  nextPd : w.nextPd ≤ v.nextPd
  log : w.log <+: v.log

theorem World.Kept.advances {k : Nat} {w v : World} (h : w.Kept k v) : w.Advances v :=
  ⟨h.grows, h.fresh, h.nextPd, h.log⟩

theorem World.Advances.trans {w v u : World} (h : w.Advances v) (h' : v.Advances u) : w.Advances u where
  grows := h.grows.trans h'.grows
  fresh := by
    intro x hx
    rcases h'.fresh x hx with hx | hx
    · exact h.fresh x hx
    · exact .inr (Nat.le_trans h.nextPd hx)
  nextPd := Nat.le_trans h.nextPd h'.nextPd
  log := h.log.trans h'.log

theorem World.Advances.of_same {w v : World} (ms : List (Obj × Call × Bool)) (hlog : v.log = w.log ++ ms)
    (hpds : v.pds = w.pds) (hnext : v.nextPd = w.nextPd) : w.Advances v :=
  ⟨hpds ▸ List.prefix_rfl, fun _ hx => .inl (hpds ▸ hx), hnext ▸ Nat.le_refl _, ⟨ms, hlog.symm⟩⟩

/-- A connection of this process, on a PD it found, or made after `w` if it does not share one. -/
def Host.Gave (w v : World) (role : Role) (shared : Bool) (r : Except Error (Option Connection)) : Prop :=
  ∀ c, r = .ok (some c) → c.role = role ∧ c.ep.ownPd = !shared ∧ World.Placed w v c.ep.context c.ep.pd c.ep.ownPd

section Steps
variable {y : Host} {e : Event} {es : List Event} {u v : World} {r : Except Error (Option Connection)}

/-- What handling an event of the listener's channel comes to. -/
structure Handling (y : Host) (e : Event) (es : List Event) (r : Except Error (Option Connection)) (v : World) :
    Prop where
  sound : ({ y with world := v, conns := y.conns ++ handed r } : Host).Sound
  verdict : Verdict v.log e r
  gave : Host.Gave y.world v .server y.shared r
  channel : v.channel .listener = es
  advances : y.world.Advances v

theorem taken_advances (w : World) (e : Event) (es : List Event) : w.Advances (w.taken e es) :=
  .of_same [((e.taken .listener).1, (e.taken .listener).2, true)] rfl rfl rfl

theorem Host.Sound.handle (h : y.Sound) (hch : y.world.channel .listener = e :: es)
    (hp : exec (processEvent y.shared y.sendWr y.recvWr e) (y.world.taken e es) = (r, v)) :
    Handling y e es r v := by
  by_cases he : e.eventType = .connectRequest
  · obtain ⟨hoth, hon⟩ := h.request hch he
    have hchan : ∀ v, (y.world.taken e es).Kept e.cmId v → v.channel .listener = es := by
      intro v hv
      rw [hv.channel .listener (by simp)]
      simp [World.taken]
    have hadv : ∀ v, (y.world.taken e es).Kept e.cmId v → y.world.Advances v :=
      fun v hv => (taken_advances _ e es).trans hv.advances
    refine exec_wp (Q := fun r v => Handling y e es r v) (hon.processEvent_to he (.refl _ _) hoth.coherent ?_ ?_ ?_) hp
    -- the connection is open
    · intro c v hc kv hack
      refine ⟨?_, ?_, ?_, hchan v kv, hadv v kv⟩
      · refine Others.join y.conns [] (c, false) ?_ ⟨_, hc.fits, ?_⟩ rfl rfl
        · rw [List.append_nil]
          exact hc.id ▸ hoth.kept kv
        · exact hc.id ▸ hc.stage
      · unfold Verdict
        rw [he]
        exact .inl ⟨hack, .inl ⟨c, rfl, hc.id, hc.context, hc.role, hc.open_.1⟩⟩
      · intro d hd
        cases hd
        exact ⟨hc.role, hc.ownPd, hc.ownPd ▸ hc.placed⟩
    -- a call of the setup was refused, and so is the peer
    · intro err v t ht hv kv hb hack hrej
      refine ⟨?_, ?_, fun _ h => (by cases h), hchan v kv, hadv v kv⟩
      · exact (hoth.kept kv).leave ⟨t, ht, hv⟩ rfl (List.append_nil _)
      · unfold Verdict
        rw [he]
        exact .inl ⟨hack, .inr ⟨err, rfl, hb, hrej⟩⟩
    -- the event could not be acknowledged
    · intro v t ht hv kv hack
      refine ⟨?_, ?_, fun _ h => (by cases h), hchan v kv, hadv v kv⟩
      · exact (hoth.kept kv).leave ⟨t, ht, hv⟩ rfl (List.append_nil _)
      · unfold Verdict
        rw [he]
        exact .inr ⟨hack, rfl⟩
  · obtain ⟨rfl, hv⟩ := processEvent_other he hp
    obtain ⟨ms, hms, -, -, hpds, hnext, hchan⟩ := World.acked_log .listener (y.world.taken e es)
    have hnil := hv.handed_nil he
    refine ⟨?_, hv, ?_, ?_, (taken_advances _ e es).trans (.of_same _ hms hpds hnext)⟩
    · rw [hnil, List.append_nil]
      exact h.other hch he
    · rintro c rfl
      cases hnil
    · rw [hchan]
      simp [World.taken]

theorem Host.Sound.connect {k : Nat} {ip : String} {parses : Bool} {context : Option Nat} {sendWr recvWr : Nat}
    {resolveTimeoutMs : Int} {addr route : Wait} {res : Except Error Connection} (h : y.Sound)
    (hnew : Host.Unused y.world k)
    (hp : exec (Cm.connect k ip parses context sendWr recvWr resolveTimeoutMs addr route) y.world = (res, v)) :
    ({ y with world := v, conns := y.conns ++ handed (res.map some) } : Host).Sound ∧
      Host.Gave y.world v .client false (res.map some) ∧ y.world.Kept k v := by
  obtain ⟨hoth, hon⟩ := h.unused hnew
  refine exec_wp (Q := fun res v => ({ y with world := v, conns := y.conns ++ handed (res.map some) } : Host).Sound ∧
    Host.Gave y.world v .client false (res.map some) ∧ y.world.Kept k v) (hon.connect_to (.refl _ _) h.coherent ?_ ?_) hp
  · intro c v hc kv
    refine ⟨Others.join y.conns [] (c, false) ?_ ⟨_, hc.fits, ?_⟩ rfl rfl, ?_, kv⟩
    · rw [List.append_nil]
      exact hc.id ▸ hoth.kept kv
    · exact hc.id ▸ hc.stage
    · intro d hd
      cases hd
      exact ⟨hc.role, hc.ownPd, hc.ownPd ▸ hc.placed⟩
  · intro err v t ht hv kv
    exact ⟨(hoth.kept kv).leave ⟨t, ht, hv⟩ rfl (List.append_nil _), fun _ hd => (by cases hd), kv⟩

end Steps

section Device
variable {w v : World} {r : Except Error Nat}

/-- Registering memory asks the one device of the registry. -/
theorem registerExternal_to {shared : Bool} (hw : w.Coherent)
    (h : exec (registerExternal shared) w = (r, v)) :
    (∀ k, w.Kept k v) ∧ ∀ pd, r = .ok pd → shared = true ∧ ∃ ctx, w.pds = [(ctx, pd)] := by
  refine exec_wp (Q := fun r v => (∀ k, w.Kept k v) ∧
    ∀ pd, r = .ok pd → shared = true ∧ ∃ ctx, w.pds = [(ctx, pd)]) ?_ h
  cases shared with
  | false => exact ⟨fun k => .refl k w, fun _ h => (by cases h)⟩
  | true =>
    simp only [registerExternal, Bool.not_true, Bool.false_eq_true, if_false, wp_bind, wp_pure, singlePd, wp_get]
    split
    · next x hx =>
      have hstage : ∀ ok, Stage.next { pd := true } (.regMr, ok) = some { pd := true } := fun _ => rfl
      have hmade : ∀ k, w.Kept k (w.made (.context x.1) .regMr) := by
        intro k
        refine .on_context rfl (fun hc => ⟨hc.contexts, hc.numbers, hc.used, fun c => ?_⟩) List.prefix_rfl
          (fun _ => .inl) (Nat.le_refl _) rfl rfl
        have hc := hw.stage c
        by_cases heq : c = x.1
        · subst heq
          rw [hx] at hc
          show World.At _ _ { pd := (w.pds.lookup x.1).isSome }
          rw [hx]
          have hsome : ([x].lookup x.1).isSome = true := by simp
          rw [hsome] at hc ⊢
          exact hc.call (hstage _)
        · exact hc.other (by simpa using Ne.symm heq) _
      simp only [wp_pure]
      refine World.call_wp (fun _ => ⟨hmade, fun pd hpd => ?_⟩) fun e _ => ⟨hmade, fun _ h => (by cases h)⟩
      cases hpd
      exact ⟨trivial, x.1, hx⟩
    · exact ⟨fun k => .refl k w, fun _ h => (by cases h)⟩
    · exact ⟨fun k => .refl k w, fun _ h => (by cases h)⟩

end Device

section Operate
variable {y : Host} {c : Connection × Bool} {w : World} {s : Stage}

/-- An operation keeps to its connection, and leaves it at a stage that fits it. -/
theorem Op.run_to (op : Op) (hop : op.allowed c) (h : w.On c.1.id s) (hf : World.Fits c.1 c.2 s) :
    w.Kept c.1.id (op.run c w).2 ∧ (op.run c w).1.1.id = c.1.id ∧
      ∃ t, World.Fits (op.run c w).1.1 (op.run c w).1.2 t ∧ (op.run c w).2.On c.1.id t := by
  have hk := World.Kept.refl c.1.id w
  obtain ⟨c, begun⟩ := c
  -- begin and finish may fail and leave the QP where it was; the reads change no stage
  cases op with
  | begin =>
    obtain ⟨rfl, -⟩ := hop
    have hgo := exec_to (Q := fun r v => w.Kept c.id v ∧ ∃ t, World.Fits c true t ∧ v.On c.id t)
      (h.acceptEstablishBegin_to rfl hf hk (fun v hqp hv kv => ⟨kv, _, .alive hqp, hv⟩)
        fun e v t ht hv kv => ⟨kv, t, ht, hv⟩)
    exact ⟨hgo.1, rfl, hgo.2⟩
  | finish t =>
    obtain rfl : begun = false := hop
    have hgo := exec_to (x := c.finish t) (w := w)
      (Q := fun r v => w.Kept c.id v ∧ ∃ t, World.Fits c true t ∧ v.On c.id t) (by
        unfold Connection.finish
        cases c.role with
        | server =>
          exact h.acceptFinish_to rfl hf hk (fun v hqp hv kv => ⟨kv, _, .alive hqp, hv⟩)
            fun e v t ht hv kv => ⟨kv, t, ht, hv⟩
        | client =>
          exact h.connectFinish_to rfl hf hk (fun v hqp hv kv => ⟨kv, _, .alive hqp, hv⟩)
            fun e v t ht hv kv => ⟨kv, t, ht, hv⟩)
    exact ⟨hgo.1, rfl, hgo.2⟩
  | poll =>
    have hgo := exec_to (Q := fun r v => v.On c.id s ∧ w.Kept c.id v)
      (h.pollEstablished_to rfl hf hk fun r v hv kv => ⟨hv, kv⟩)
    exact ⟨hgo.2, rfl, s, hf, hgo.1⟩
  | check =>
    have hgo := exec_to (Q := fun r v => v.On c.id s ∧ w.Kept c.id v)
      (h.checkDisconnect_to rfl hf hk fun r v hv kv => ⟨hv, kv⟩)
    exact ⟨hgo.2, rfl, s, hf, hgo.1⟩
  | post =>
    have hgo := exec_to (Q := fun r v => v.On c.id s ∧ w.Kept c.id v)
      (h.post_to rfl hf hk fun r v hv kv => ⟨hv, kv⟩)
    exact ⟨hgo.2, rfl, s, hf, hgo.1⟩
  | disconnect =>
    obtain ⟨q, joined, rfl, hfirst, hdown⟩ := hf
    refine ⟨hk.then_doDisconnect rfl, ?_, _, ⟨q, joined, rfl, hfirst, ?_⟩, ?_⟩
    · show (c.doDisconnect w).1.id = c.id
      rw [World.doDisconnect_conn]
    · show _ → (c.doDisconnect w).1.disconnected = true
      rw [World.doDisconnect_conn]
      exact fun _ => rfl
    · show (c.doDisconnect w).2.On c.id (.live (c.doDisconnect w).1.ep.ownPd
        (if (c.doDisconnect w).1.qp then some q else none) joined (c.doDisconnect w).1.disconnected)
      rw [World.doDisconnect_conn]
      -- without a QP the connection was disconnected before
      cases hqp : c.qp with
      | true =>
        rw [hqp] at h
        exact h.doDisconnect rfl
      | false =>
        have hd := hdown hqp
        rw [hqp, hd] at h
        unfold Connection.doDisconnect
        rw [if_pos hd]
        exact h
  | shutdown =>
    obtain ⟨q, joined, rfl, hfirst, hdown⟩ := hf
    obtain ⟨hconn, hon⟩ := h.shutdown rfl hdown
    refine ⟨hk.then_shutdown rfl, ?_, _, ⟨q, joined, rfl, hfirst, ?_⟩, ?_⟩
    · show (c.shutdown w).1.id = c.id
      rw [hconn]
    · show _ → (c.shutdown w).1.disconnected = true
      rw [hconn]
      exact fun _ => rfl
    · show (c.shutdown w).2.On c.id (.live (c.shutdown w).1.ep.ownPd (if (c.shutdown w).1.qp then some q else none) joined
        (c.shutdown w).1.disconnected)
      rw [hconn]
      exact hon

end Operate

/-! Binding. -/

/-- A process that has used nothing but the listener. -/
structure Starting (w : World) (s : Stage) : Prop where
  coherent : w.Coherent
  ids : ∀ k, w.On k {}
  channel : w.channel .listener = []
  stage : w.At .listener s

section Bind
variable {w : World} {s t : Stage} {c : Call} {Q : Except Error Unit → World → Prop}

theorem Starting.call_to (h : Starting w s) (hok : s.next (c, true) = some t)
    (yes : ∀ v, Starting v t → Q (.ok ()) v) (no : ∀ e v, Q (.error e) v) : wp (call .listener c) w Q := by
  refine World.call_wp (fun hf => yes _ ⟨⟨h.coherent.contexts, h.coherent.numbers, h.coherent.used, ?_⟩, ?_, h.channel, ?_⟩)
    fun e _ => no e _
  · exact fun c => (h.coherent.stage c).other (by simp) _
  · exact fun k => ⟨(h.ids k).stage.other (by simp) _, (h.ids k).own⟩
  · refine h.stage.call ?_
    rw [hf]
    exact hok

theorem Starting.forContext_to {ctx : Nat} {Q : Except Error Nat → World → Prop} (h : Starting w s)
    (yes : ∀ pd v, Starting v s → Q (.ok pd) v) (no : ∀ e v, Q (.error e) v) : wp (forContext ctx) w Q := by
  refine (h.ids 0).forContext_to (.refl 0 w) h.coherent (fun pd v hv kv _ => yes pd v ⟨kv.coherent h.coherent, ?_, ?_, ?_⟩)
    fun e v _ _ => no e v
  · intro k
    by_cases hk : k = 0
    · rw [hk]
      exact hv
    · exact (h.ids k).kept kv hk
  · rw [kv.channel .listener (by simp)]
    exact h.channel
  · have hl := h.stage
    unfold World.At Typestate.At at *
    rw [kv.listener]
    exact hl

theorem Host.Bound.starting {y : Host} (h : y.Bound) : Starting y.world .housed := by
  obtain ⟨faults, maxSge, ip, parses, context, -, hbind⟩ := h
  have hblank : Starting (World.blank faults maxSge) {} :=
    ⟨⟨List.nodup_nil, List.nodup_nil, fun _ hx => (by cases hx), fun _ => rfl⟩, fun _ => ⟨rfl, rfl⟩, rfl, rfl⟩
  have hrun : wp (bindInner ip parses context y.shared) (World.blank faults maxSge) fun r v =>
      r = .ok () → Starting v .housed := by
    unfold bindInner
    simp only [wp_bind, wp_ite, wp_throw, wp_orDrop]
    split
    · exact fun h => (by cases h)
    · refine hblank.call_to (t := { channel := true }) rfl (fun v hv => ?_) fun e v h => (by cases h)
      refine hv.call_to (t := .housed) rfl (fun v hv => ?_) fun e v h => (by cases h)
      refine hv.call_to (t := .housed) rfl (fun v hv => ?_) fun e v h => (by cases h)
      cases y.shared with
      | false => exact hv.call_to (t := .housed) rfl (fun v hv _ => hv) fun e v h => (by cases h)
      | true =>
        cases context with
        | none => exact hv.call_to (t := .housed) rfl (fun v hv _ => hv) fun e v h => (by cases h)
        | some ctx =>
          simp only [wp_bind]
          refine hv.forContext_to (fun pd v hv => ?_) fun e v h => (by cases h)
          exact hv.call_to (t := .housed) rfl (fun v hv _ => hv) fun e v h => (by cases h)
  exact exec_wp hrun hbind rfl

theorem Host.Bound.channel {y : Host} (h : y.Bound) : y.world.channel .listener = [] := h.starting.channel

theorem Host.Bound.sound {y : Host} (h : y.Bound) : y.Sound := by
  have hs := h.starting
  obtain ⟨faults, maxSge, ip, parses, context, hconns, hbind⟩ := h
  have hreq : Host.requests y.world = [] := by
    unfold Host.requests
    rw [hs.channel]
    rfl
  refine ⟨hs.coherent, hs.stage, ?_, ?_, ?_, ?_, ?_⟩
  · unfold Host.ids
    rw [hconns]
    exact List.nodup_nil
  · rw [hconns]
    exact fun c hc => absurd hc List.not_mem_nil
  · exact fun k _ => ⟨{}, ⟨rfl, rfl, rfl, rfl, rfl, rfl, rfl⟩, hs.ids k⟩
  · rw [hreq]
    exact List.nodup_nil
  · rw [hreq]
    exact fun k hk => absurd hk List.not_mem_nil

end Bind

/-- One step keeps the process sound, and what is shared only grows. -/
theorem Host.Step.sound {y z : Host} {l : Label} (hs : Host.Step y l z) (h : y.Sound) :
    z.Sound ∧ y.world.Advances z.world := by
  cases hs with
  | arrive e hnew =>
    have hreq : Host.requests (y.world.arrive .listener [e]) =
        Host.requests y.world ++ if e.eventType = .connectRequest then [e.cmId] else [] := by
      unfold Host.requests World.arrive
      by_cases he : e.eventType = .connectRequest
      · simp [he]
      · simp [he]
    refine ⟨h.aside [] (List.append_nil _).symm (by simp) h.listener rfl rfl rfl ?_ ?_,
      .of_same [] (List.append_nil _).symm rfl rfl⟩
    · rw [hreq]
      split
      · next he =>
        rw [List.nodup_append]
        refine ⟨h.distinct, by simp, fun a ha b hb heq => ?_⟩
        rw [List.mem_singleton] at hb
        exact (hnew he).2.2 (hb ▸ heq ▸ ha)
      · rw [List.append_nil]
        exact h.distinct
    · intro k hk
      rw [hreq] at hk
      -- the requests that waited, and the new one, whose identifier is unused
      rcases List.mem_append.mp hk with hk | hk
      · exact h.waiting k hk
      · split at hk
        · next he =>
          rw [List.mem_singleton] at hk
          exact hk ▸ ⟨(hnew he).1, (hnew he).2.1⟩
        · cases hk
  | empty v hget =>
    rcases getCmEvent_listener hget with ⟨e, es, hr, -⟩ | ⟨-, rfl⟩
    · cases hr
    · exact ⟨h.looked, .of_same [(.listener, .noEvent, !y.world.refuses)] rfl rfl rfl⟩
  | unread e v hget =>
    rcases getCmEvent_listener hget with ⟨e, es, hr, -⟩ | ⟨-, rfl⟩
    · cases hr
    · exact ⟨h.looked, .of_same [(.listener, .noEvent, !y.world.refuses)] rfl rfl rfl⟩
  | handle e r u v hget hp =>
    rcases getCmEvent_listener hget with ⟨e', es, hr, hch, rfl⟩ | ⟨hr, -⟩
    · cases hr
      have hh := h.handle hch hp
      exact ⟨hh.sound, hh.advances⟩
    · rcases hr with ⟨hr, -⟩ | ⟨hr, -⟩
      · cases hr
      · cases hr
  | reach k es =>
    exact ⟨h.idle rfl rfl rfl rfl (by simp [World.arrive]), .of_same [] (List.append_nil _).symm rfl rfl⟩
  | register r v hp =>
    obtain ⟨hk, -⟩ := registerExternal_to h.coherent hp
    exact ⟨h.device hk, (hk 0).advances⟩
  | connect k ip parses context sendWr recvWr resolveTimeoutMs addr route r v hnew hp =>
    obtain ⟨hsound, -, hk⟩ := h.connect hnew hp
    exact ⟨hsound, hk.advances⟩
  | op ls rs c op hc hop =>
    -- the other connections keep their stages, this one gets a stage that fits it
    obtain ⟨hoth, s, hf, hs⟩ := h.apart hc
    obtain ⟨hk, hid, hfit⟩ := op.run_to hop hs hf
    refine ⟨Others.join ls rs (op.run c y.world).1 ?_ ?_ rfl rfl, hk.advances⟩
    · rw [hid]
      exact hoth.kept hk
    · rw [hid]
      exact hfit
  | drop ls rs c hc =>
    obtain ⟨hoth, s, hf, hs⟩ := h.apart hc
    have hk : y.world.Kept c.1.id (c.1.drop y.world) := (World.Kept.refl c.1.id y.world).then_drop rfl
    obtain ⟨t, ht, hclean⟩ := hs.drop rfl hf
    exact ⟨(hoth.kept hk).leave ⟨t, hclean, ht⟩ rfl rfl, hk.advances⟩

/-! A listener on device 0, asked for two connections. -/

def Host.listening : Host where
  shared := true
  sendWr := 4
  recvWr := 4
  world := (exec (bindInner "10.0.0.1" true (some 0) true) (World.blank [] fun _ => 30)).2
  conns := []

theorem Host.listening_bound : Host.listening.Bound := ⟨[], fun _ => 30, "10.0.0.1", true, some 0, rfl, rfl⟩

def request (k : Nat) : Event := ⟨.connectRequest, k, some 0, 0⟩

/-- The connection that comes of it. -/
def answered (k : Nat) : Connection := .new k ⟨0, 0, false, 16⟩ .server

/-- Memory is registered between the two; the first is dropped. -/
def twoRequests : List Label :=
  [.arrive (request 1), .arrive (request 2), .handled (request 1) (.ok (some (answered 1))), .registered (.ok 0),
    .handled (request 2) (.ok (some (answered 2))), .dropped 1]

theorem twoRequests_run : ∃ z, Run Host.Step .listening twoRequests z ∧ z.ids = [2] :=
  ⟨_, .cons (.arrive _ (request 1) fun _ => ⟨rfl, rfl, by decide⟩) <|
    .cons (.arrive _ (request 2) fun _ => ⟨rfl, rfl, by decide⟩) <|
    .cons (.handle _ (request 1) _ _ _ rfl rfl) <|
    .cons (.register _ _ _ rfl) <|
    .cons (.handle _ (request 2) _ _ _ rfl rfl) <|
    .single (.drop _ [] [(answered 2, false)] (answered 1, false) rfl), rfl⟩

/-! Runs. -/

section Runs
variable {y z : Host} {ls : List Label}

theorem Host.Bound.run_sound (h : y.Bound) (hr : Run Host.Step y ls z) : z.Sound :=
  hr.inv (fun _ _ _ hs hstep => (hstep.sound hs).1) h.sound

/-- **Every call in turn, everything let go of.** After any run the calls made on each object have
    been in turn, and account for what they have made: it is held, or was freed, or the last
    call that could free it was refused. A connection's identifier is where the connection
    says it is; of an identifier no connection holds nothing is held: no event, QP, CQ,
    completion channel, PD of its own, event channel or identifier, so that all there can be
    left of it is what the device refused to free. -/
theorem calls_in_turn (h : y.Bound) (hr : Run Host.Step y ls z) :
    (∀ o, ∃ s, z.world.At o s ∧ ∀ r, Accounted s r (callsOn o z.world.log)) ∧
      (∀ c ∈ z.conns, ∃ q joined, z.world.At (.id c.1.id)
        (.live c.1.ep.ownPd (if c.1.qp then some q else none) joined c.1.disconnected)) ∧
      ∀ k, k ∉ z.ids → (∃ s : Stage, s.Clean ∧ z.world.At (.id k) s) ∧
        ∀ r : Resource, (callsOn (.id k) z.world.log).countP r.made =
          (callsOn (.id k) z.world.log).countP r.freed + (callsOn (.id k) z.world.log).countP r.kept := by
  have hs := h.run_sound hr
  have hlive : ∀ c ∈ z.conns, ∃ q joined, z.world.At (.id c.1.id)
      (.live c.1.ep.ownPd (if c.1.qp then some q else none) joined c.1.disconnected) := by
    intro c hc
    obtain ⟨s, ⟨q, joined, rfl, -⟩, hon⟩ := hs.live c hc
    exact ⟨q, joined, hon.stage⟩
  have hgone : ∀ k, k ∉ z.ids → ∃ s : Stage, s.Clean ∧ z.world.At (.id k) s := by
    intro k hk
    obtain ⟨s, hclean, hon⟩ := hs.gone k hk
    exact ⟨s, hclean, hon.stage⟩
  have hall : ∀ o, ∃ s, z.world.At o s := by
    intro o
    cases o with
    | listener => exact ⟨_, hs.listener⟩
    | context c => exact ⟨_, hs.coherent.stage c⟩
    | id k =>
      -- an identifier is a connection's, or nothing is held of it
      by_cases hk : k ∈ z.ids
      · obtain ⟨c, hc, rfl⟩ := List.mem_map.mp hk
        obtain ⟨q, joined, hat⟩ := hlive c hc
        exact ⟨_, hat⟩
      · obtain ⟨s, -, hat⟩ := hgone k hk
        exact ⟨s, hat⟩
  refine ⟨fun o => ?_, hlive, fun k hk => ⟨hgone k hk, fun r => ?_⟩⟩
  · obtain ⟨s, hat⟩ := hall o
    exact ⟨s, hat, Stage.accounted hat⟩
  · obtain ⟨s, hclean, hat⟩ := hgone k hk
    have hcount := Stage.accounted hat r
    rw [Accounted, hclean.holds] at hcount
    rw [hcount, Bool.toNat_false, Nat.zero_add]

/-- The first of two connections has gone. -/
theorem calls_in_turn_dropped : ∃ z : Host, z.ids = [2] ∧ (∃ s : Stage, s.Clean ∧ z.world.At (.id 1) s) ∧
    ∀ r : Resource, (callsOn (.id 1) z.world.log).countP r.made =
      (callsOn (.id 1) z.world.log).countP r.freed + (callsOn (.id 1) z.world.log).countP r.kept := by
  obtain ⟨z, hr, hids⟩ := twoRequests_run
  exact ⟨z, hids, (calls_in_turn Host.listening_bound hr).2.2 1 (by rw [hids]; decide)⟩

/-- The events that have arrived on the listener's channel. -/
def arrivals (ls : List Label) : List Event :=
  ls.filterMap fun
    | .arrive e => some e
    | _ => none

/-- The events that have been handled, with what became of them. -/
def handlings (ls : List Label) : List (Event × Except Error (Option Connection)) :=
  ls.filterMap fun
    | .handled e r => some (e, r)
    | _ => none

theorem arrivals_append (ls ms : List Label) : arrivals (ls ++ ms) = arrivals ls ++ arrivals ms :=
  List.filterMap_append

theorem handlings_snoc (ls : List Label) (l : Label) : handlings (ls ++ [l]) = handlings ls ++ handlings [l] :=
  List.filterMap_append

/-- What a step does to the listener's channel. -/
theorem Host.Step.channel {l : Label} (hs : Host.Step y l z) (h : y.Sound) :
    y.world.channel .listener ++ arrivals [l] = (handlings [l]).map Prod.fst ++ z.world.channel .listener ∧
      ∀ x ∈ handlings [l], Verdict z.world.log x.1 x.2 := by
  have hquiet : ∀ {v : World}, v.channel .listener = y.world.channel .listener →
      y.world.channel .listener ++ [] = ([] : List Event) ++ v.channel .listener := by
    intro v hv
    rw [hv, List.append_nil, List.nil_append]
  have hnone : ∀ {P : Event × Except Error (Option Connection) → Prop}, ∀ x ∈ ([] : List _), P x :=
    fun x hx => absurd hx List.not_mem_nil
  cases hs with
  | arrive e hnew =>
    refine ⟨?_, hnone⟩
    simp [arrivals, handlings, World.arrive]
  | empty v hget =>
    rcases getCmEvent_listener hget with ⟨e, es, hr, -⟩ | ⟨-, rfl⟩
    · cases hr
    · exact ⟨hquiet rfl, hnone⟩
  | unread e v hget =>
    rcases getCmEvent_listener hget with ⟨e, es, hr, -⟩ | ⟨-, rfl⟩
    · cases hr
    · exact ⟨hquiet rfl, hnone⟩
  | handle e r u v hget hp =>
    rcases getCmEvent_listener hget with ⟨e', es, hr, hch, rfl⟩ | ⟨hr, -⟩
    · cases hr
      have hh := h.handle hch hp
      refine ⟨?_, ?_⟩
      · show y.world.channel .listener ++ [] = [e] ++ v.channel .listener
        rw [hch, hh.channel, List.append_nil]
        rfl
      · intro x hx
        obtain rfl := List.mem_singleton.mp hx
        exact hh.verdict
    · rcases hr with ⟨hr, -⟩ | ⟨hr, -⟩
      · cases hr
      · cases hr
  | reach k es => exact ⟨hquiet (by simp [World.arrive]), hnone⟩
  | register r v hp =>
    obtain ⟨hk, -⟩ := registerExternal_to h.coherent hp
    exact ⟨hquiet ((hk 0).channel .listener (by simp)), hnone⟩
  | connect k ip parses context sendWr recvWr resolveTimeoutMs addr route r v hnew hp =>
    obtain ⟨-, -, hk⟩ := h.connect hnew hp
    exact ⟨hquiet (hk.channel .listener (by simp)), hnone⟩
  | op ls rs c op hc hop =>
    obtain ⟨-, s, hf, hs⟩ := h.apart hc
    obtain ⟨hk, -, -⟩ := op.run_to hop hs hf
    exact ⟨hquiet (hk.channel .listener (by simp)), hnone⟩
  | drop ls rs c hc =>
    have hk : y.world.Kept c.1.id (c.1.drop y.world) := (World.Kept.refl c.1.id y.world).then_drop rfl
    exact ⟨hquiet (hk.channel .listener (by simp)), hnone⟩

/-- The same over a run. -/
theorem Host.run_handled (h : y.Sound) (hr : Run Host.Step y ls z) :
    y.world.channel .listener ++ arrivals ls = (handlings ls).map Prod.fst ++ z.world.channel .listener ∧
      ∀ x ∈ handlings ls, Verdict z.world.log x.1 x.2 := by
  refine (hr.inv_trace (I := fun ls z => z.Sound ∧
    y.world.channel .listener ++ arrivals ls = (handlings ls).map Prod.fst ++ z.world.channel .listener ∧
      ∀ x ∈ handlings ls, Verdict z.world.log x.1 x.2) ?_ ⟨h, List.append_nil _, ?_⟩).2
  · rintro ls s l t ⟨hsound, heq, hall⟩ hstep
    obtain ⟨hnext, hadv⟩ := hstep.sound hsound
    obtain ⟨hchan, hnew⟩ := hstep.channel hsound
    refine ⟨hnext, ?_, ?_⟩
    · rw [arrivals_append, handlings_snoc, ← List.append_assoc, heq, List.append_assoc, hchan, List.map_append,
        List.append_assoc]
    · intro x hx
      rw [handlings_snoc] at hx
      rcases List.mem_append.mp hx with hx | hx
      · exact (hall x hx).mono hadv.log
      · exact hnew x hx
  · exact fun x hx => absurd hx List.not_mem_nil

/-- **Every event is handled once, in order.** The events that have been handled and those still
    on the listener's channel are those that arrived, in their order; what became of each is
    decided by its kind: a connect request became a connection on its identifier, or its setup
    failed for a reason and its peer was rejected, or the acknowledgement of its event was
    refused; a device removal is an error of its own; anything else is skipped. -/
theorem events_handled (h : y.Bound) (hr : Run Host.Step y ls z) :
    arrivals ls = (handlings ls).map Prod.fst ++ z.world.channel .listener ∧
      ∀ x ∈ handlings ls, Verdict z.world.log x.1 x.2 := by
  have hnil : y.world.channel .listener = [] := h.channel
  obtain ⟨hchan, hall⟩ := Host.run_handled h.sound hr
  rw [hnil, List.nil_append] at hchan
  exact ⟨hchan, hall⟩

theorem events_handled_two : ∃ z : Host, z.world.channel .listener = [] ∧
    ∀ x ∈ handlings twoRequests, Verdict z.world.log x.1 x.2 := by
  obtain ⟨z, hr, -⟩ := twoRequests_run
  obtain ⟨hchan, hall⟩ := events_handled Host.listening_bound hr
  exact ⟨z, (List.self_eq_append_right.mp (show [request 1, request 2] = [request 1, request 2] ++ _ from hchan)), hall⟩

end Runs

/-! Protection domains. -/

/-- The connections a run has accepted. -/
def accepted (ls : List Label) : List Connection :=
  ls.flatMap fun
    | .handled _ r => (handed r).map Prod.fst
    | _ => []

/-- The connections it has made itself. -/
def outgoing (ls : List Label) : List Connection :=
  ls.flatMap fun
    | .connected _ r => (handed (r.map some)).map Prod.fst
    | _ => []

/-- All of them, in their order. -/
def made (ls : List Label) : List Connection := ls.flatMap fun l => accepted [l] ++ outgoing [l]

/-- Two connections are on one PD exactly if they share that of their device. -/
def SamePd (c d : Connection) : Prop :=
  c.ep.pd = d.ep.pd ↔ c.ep.ownPd = false ∧ d.ep.ownPd = false ∧ c.ep.context = d.ep.context

/-- A connection's PD is that of its device in the registry, or its own. -/
def Settled (w : World) (c : Connection) : Prop :=
  if c.ep.ownPd then c.ep.pd < w.nextPd ∧ ∀ x ∈ w.pds, x.2 ≠ c.ep.pd else (c.ep.context, c.ep.pd) ∈ w.pds

section Pds
variable {w v : World} {c d : Connection}

theorem Settled.advance (h : Settled w c) (ha : w.Advances v) : Settled v c := by
  unfold Settled at *
  cases hown : c.ep.ownPd with
  | true =>
    simp only [hown, if_true] at h ⊢
    refine ⟨Nat.lt_of_lt_of_le h.1 ha.nextPd, fun x hx heq => ?_⟩
    rcases ha.fresh x hx with hx | hx
    · exact h.2 x hx heq
    · exact Nat.not_le_of_lt h.1 (heq ▸ hx)
  | false =>
    simp only [hown, Bool.false_eq_true, if_false] at h ⊢
    exact ha.grows.subset h

theorem Settled.of_placed (h : World.Placed w v c.ep.context c.ep.pd c.ep.ownPd) : Settled v c := by
  unfold World.Placed at h
  unfold Settled
  cases hown : c.ep.ownPd with
  | true =>
    simp only [hown, if_true] at h ⊢
    exact h.2
  | false =>
    simp only [hown, Bool.false_eq_true, if_false] at h ⊢
    exact h

/-- In the registry a device and its PD determine each other. -/
theorem World.Coherent.pd_iff {a b p q : Nat} (h : w.Coherent) (hp : (a, p) ∈ w.pds) (hq : (b, q) ∈ w.pds) :
    p = q ↔ a = b := by
  constructor
  · rintro rfl
    exact congrArg Prod.fst (List.inj_on_of_nodup_map h.numbers hp hq rfl)
  · rintro rfl
    exact congrArg Prod.snd (List.inj_on_of_nodup_map h.contexts hp hq rfl)

/-- A connection that is made after `c`. -/
theorem Settled.samePd (hv : v.Coherent) (h : Settled w c) (ha : w.Advances v)
    (hd : World.Placed w v d.ep.context d.ep.pd d.ep.ownPd) : SamePd c d := by
  have hc := h.advance ha
  unfold SamePd
  unfold Settled at h hc
  unfold World.Placed at hd
  cases hcown : c.ep.ownPd with
  | true =>
    simp only [hcown, if_true] at h hc
    cases hdown : d.ep.ownPd with
    | true =>
      simp only [hdown, if_true] at hd
      simp only [reduceCtorEq, false_and, iff_false]
      exact Nat.ne_of_lt (Nat.lt_of_lt_of_le h.1 hd.1)
    | false =>
      simp only [hdown, Bool.false_eq_true, if_false] at hd
      simp only [reduceCtorEq, false_and, iff_false]
      exact fun heq => hc.2 _ hd heq.symm
  | false =>
    simp only [hcown, Bool.false_eq_true, if_false] at hc
    cases hdown : d.ep.ownPd with
    | true =>
      simp only [hdown, if_true] at hd
      simp only [reduceCtorEq, false_and, and_false, iff_false]
      exact hd.2.2 _ hc
    | false =>
      simp only [hdown, Bool.false_eq_true, if_false] at hd
      simp only [true_and]
      exact hv.pd_iff hc hd

end Pds

/-- What a step makes, and what registering memory finds. -/
structure Makes (y z : Host) (l : Label) : Prop where
  shared : z.shared = y.shared
  placed : made [l] = [] ∨ ∃ d, made [l] = [d] ∧ World.Placed y.world z.world d.ep.context d.ep.pd d.ep.ownPd
  accepts : ∀ c ∈ accepted [l], c.ep.ownPd = !y.shared
  connects : ∀ c ∈ outgoing [l], c.ep.ownPd = true
  registered : ∀ pd, l = .registered (.ok pd) → y.shared = true ∧ ∃ ctx, y.world.pds = [(ctx, pd)]

theorem Makes.nothing {y z : Host} {l : Label} (hshared : z.shared = y.shared) (ha : accepted [l] = [])
    (ho : outgoing [l] = []) (hreg : ∀ pd, l = .registered (.ok pd) → y.shared = true ∧ ∃ ctx, y.world.pds = [(ctx, pd)]) :
    Makes y z l where
  shared := hshared
  placed := .inl (by simp [made, ha, ho])
  accepts := by rw [ha]; exact fun c hc => absurd hc List.not_mem_nil
  connects := by rw [ho]; exact fun c hc => absurd hc List.not_mem_nil
  registered := hreg

theorem Host.Step.makes {y z : Host} {l : Label} (hs : Host.Step y l z) (h : y.Sound) : Makes y z l := by
  cases hs with
  | handle e r u v hget hp =>
    rcases getCmEvent_listener hget with ⟨e', es, hr, hch, rfl⟩ | ⟨hr, -⟩
    · cases hr
      have hh := h.handle hch hp
      cases r with
      | error err => exact .nothing rfl rfl rfl fun pd hl => by cases hl
      | ok o =>
        cases o with
        | none => exact .nothing rfl rfl rfl fun pd hl => by cases hl
        | some d =>
          obtain ⟨-, hown, hpl⟩ := hh.gave d rfl
          refine ⟨rfl, .inr ⟨d, rfl, hpl⟩, ?_, fun c hc => absurd hc List.not_mem_nil, fun pd hl => by cases hl⟩
          intro c hc
          obtain rfl : c = d := List.mem_singleton.mp hc
          exact hown
    · rcases hr with ⟨hr, -⟩ | ⟨hr, -⟩
      · cases hr
      · cases hr
  | connect k ip parses context sendWr recvWr resolveTimeoutMs addr route r v hnew hp =>
    obtain ⟨-, hgave, -⟩ := h.connect hnew hp
    cases r with
    | error err => exact .nothing rfl rfl rfl fun pd hl => by cases hl
    | ok d =>
      obtain ⟨-, hown, hpl⟩ := hgave d rfl
      refine ⟨rfl, .inr ⟨d, rfl, hpl⟩, fun c hc => absurd hc List.not_mem_nil, ?_, fun pd hl => by cases hl⟩
      intro c hc
      obtain rfl : c = d := List.mem_singleton.mp hc
      exact hown
  | register r v hp =>
    obtain ⟨-, hreg⟩ := registerExternal_to h.coherent hp
    refine .nothing rfl rfl rfl fun pd hl => ?_
    cases hl
    exact hreg pd rfl
  | arrive e hnew => exact .nothing rfl rfl rfl fun pd hl => by cases hl
  | empty v hget => exact .nothing rfl rfl rfl fun pd hl => by cases hl
  | unread e v hget => exact .nothing rfl rfl rfl fun pd hl => by cases hl
  | reach k es => exact .nothing rfl rfl rfl fun pd hl => by cases hl
  | op ls rs c op hc hop => exact .nothing rfl rfl rfl fun pd hl => by cases hl
  | drop ls rs c hc => exact .nothing rfl rfl rfl fun pd hl => by cases hl

theorem made_snoc (ls : List Label) (l : Label) : made (ls ++ [l]) = made ls ++ made [l] := List.flatMap_append
theorem accepted_snoc (ls : List Label) (l : Label) : accepted (ls ++ [l]) = accepted ls ++ accepted [l] :=
  List.flatMap_append
theorem outgoing_snoc (ls : List Label) (l : Label) : outgoing (ls ++ [l]) = outgoing ls ++ outgoing [l] :=
  List.flatMap_append

theorem accepted_made {c : Connection} {ls : List Label} (h : c ∈ accepted ls) : c ∈ made ls := by
  obtain ⟨l, hl, hc⟩ := List.mem_flatMap.mp h
  refine List.mem_flatMap.mpr ⟨l, hl, List.mem_append_left _ ?_⟩
  exact List.mem_flatMap.mpr ⟨l, List.mem_singleton.mpr rfl, hc⟩

/-- The PDs of a run so far. -/
structure Pds (ls : List Label) (y : Host) : Prop where
  settled : ∀ c ∈ made ls, Settled y.world c
  pairwise : (made ls).Pairwise SamePd
  accepts : ∀ c ∈ accepted ls, c.ep.ownPd = !y.shared
  connects : ∀ c ∈ outgoing ls, c.ep.ownPd = true
  registered : ∀ before after pd, ls = before ++ .registered (.ok pd) :: after →
    y.shared = true ∧ ∃ ctx, (ctx, pd) ∈ y.world.pds ∧
      ∀ c ∈ made before, c.ep.ownPd = false → c.ep.context = ctx ∧ c.ep.pd = pd

theorem Pds.step {ls : List Label} {y z : Host} {l : Label} (h : Pds ls y) (hy : y.Sound)
    (hs : Host.Step y l z) : Pds (ls ++ [l]) z := by
  obtain ⟨hz, hadv⟩ := hs.sound hy
  have hm := hs.makes hy
  have hold : ∀ c ∈ made ls, Settled z.world c := fun c hc => (h.settled c hc).advance hadv
  refine ⟨?_, ?_, ?_, ?_, ?_⟩
  · intro c hc
    rw [made_snoc] at hc
    rcases List.mem_append.mp hc with hc | hc
    · exact hold c hc
    · rcases hm.placed with hd | ⟨d, hd, hpl⟩
      · rw [hd] at hc
        exact absurd hc List.not_mem_nil
      · rw [hd, List.mem_singleton] at hc
        exact hc ▸ .of_placed hpl
  · rw [made_snoc, List.pairwise_append]
    refine ⟨h.pairwise, ?_, ?_⟩
    · rcases hm.placed with hd | ⟨d, hd, -⟩
      · rw [hd]
        exact List.Pairwise.nil
      · rw [hd]
        exact List.pairwise_singleton _ _
    · intro c hc d hd
      rcases hm.placed with hnil | ⟨d', hd', hpl⟩
      · rw [hnil] at hd
        exact absurd hd List.not_mem_nil
      · rw [hd', List.mem_singleton] at hd
        exact hd ▸ (h.settled c hc).samePd hz.coherent hadv hpl
  · intro c hc
    rw [hm.shared]
    rw [accepted_snoc] at hc
    exact (List.mem_append.mp hc).elim (h.accepts c) (hm.accepts c)
  · intro c hc
    rw [outgoing_snoc] at hc
    exact (List.mem_append.mp hc).elim (h.connects c) (hm.connects c)
  · intro before after pd heq
    rw [hm.shared]
    rcases List.eq_nil_or_concat after with rfl | ⟨after, l', rfl⟩
    · obtain ⟨rfl, hl⟩ := List.append_inj' heq rfl
      obtain ⟨hsh, ctx, hpds⟩ := hm.registered pd (List.singleton_inj.mp hl)
      refine ⟨hsh, ctx, hadv.grows.subset (by rw [hpds]; exact List.mem_singleton.mpr rfl), fun c hc hown => ?_⟩
      have hc := h.settled c hc
      unfold Settled at hc
      rw [hown, hpds] at hc
      simp only [Bool.false_eq_true, if_false, List.mem_singleton, Prod.mk.injEq] at hc
      exact hc
    · rw [List.concat_eq_append, ← List.cons_append, ← List.append_assoc] at heq
      obtain ⟨heq, -⟩ := List.append_inj' heq rfl
      obtain ⟨hsh, ctx, hmem, hall⟩ := h.registered before after pd heq
      exact ⟨hsh, ctx, hadv.grows.subset hmem, hall⟩

/-- **One PD for each device.** A connection has a PD of its own exactly if it was made by the
    process itself, or accepted on a listener that does not share PDs. Two connections of a
    run are on one PD exactly if both share that of their device. Memory registered with the
    listener is on the PD of every connection accepted before, and of those accepted later
    over the same device. -/
theorem pd_of_device {y z : Host} {ls : List Label} (h : y.Bound) (hr : Run Host.Step y ls z) :
    (∀ c ∈ accepted ls, c.ep.ownPd = !z.shared) ∧ (∀ c ∈ outgoing ls, c.ep.ownPd = true) ∧
      (made ls).Pairwise SamePd ∧
      ∀ before after pd, ls = before ++ .registered (.ok pd) :: after → z.shared = true ∧
        ∃ ctx, (∀ c ∈ accepted before, c.ep.pd = pd) ∧ ∀ c ∈ accepted ls, (c.ep.pd = pd ↔ c.ep.context = ctx) := by
  have hinv : z.Sound ∧ Pds ls z := by
    refine hr.inv_trace (I := fun ls z => z.Sound ∧ Pds ls z) ?_ ⟨h.sound, ?_⟩
    · rintro ls s l t ⟨hsound, hpds⟩ hstep
      exact ⟨(hstep.sound hsound).1, hpds.step hsound hstep⟩
    · refine ⟨fun c hc => absurd hc List.not_mem_nil, List.Pairwise.nil, fun c hc => absurd hc List.not_mem_nil,
        fun c hc => absurd hc List.not_mem_nil, ?_⟩
      intro before after pd heq
      simp at heq
  obtain ⟨hsound, hpds⟩ := hinv
  refine ⟨hpds.accepts, hpds.connects, hpds.pairwise, fun before after pd heq => ?_⟩
  obtain ⟨hsh, ctx, hmem, hbefore⟩ := hpds.registered before after pd heq
  have hshares : ∀ c ∈ accepted ls, c.ep.ownPd = false := by
    intro c hc
    rw [hpds.accepts c hc, hsh]
    rfl
  refine ⟨hsh, ctx, fun c hc => ?_, fun c hc => ?_⟩
  · have hlater : c ∈ accepted ls := by
      rw [heq, accepted, List.flatMap_append]
      exact List.mem_append_left _ hc
    exact (hbefore c (accepted_made hc) (hshares c hlater)).2
  · have hset := hpds.settled c (accepted_made hc)
    unfold Settled at hset
    rw [hshares c hc] at hset
    exact hsound.coherent.pd_iff hset hmem

theorem pd_of_device_two : SamePd (answered 1) (answered 2) ∧ (answered 1).ep.ownPd = false ∧
    ∃ ctx, ∀ c ∈ accepted twoRequests, (c.ep.pd = 0 ↔ c.ep.context = ctx) := by
  obtain ⟨z, hr, -⟩ := twoRequests_run
  obtain ⟨hacc, -, hpair, hreg⟩ := pd_of_device Host.listening_bound hr
  obtain ⟨hsh, ctx, -, hall⟩ := hreg (twoRequests.take 3) (twoRequests.drop 4) 0 rfl
  have hown := hacc (answered 1) (List.mem_cons_self ..)
  rw [hsh] at hown
  exact ⟨(List.pairwise_cons.mp hpair).1 _ (List.mem_singleton.mpr rfl), hown, ctx, hall⟩

end Cm

end Hord
