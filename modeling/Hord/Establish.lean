import Hord.Connections

/- What accepting and waiting come to. `try_accept` skips what the listener has no use for and
   ends with the first event that decides, or with an empty channel (`try_accept_drains`). A
   wait is decided by the first event to reach the identifier's channel before the deadline,
   and takes no other; a handshake that ends well has its QP in RTS (`finish_exact`). -/
namespace Hord
namespace Cm

open Prog Typestate Transition

/-- A sequence ends where its second part does, or where the first fails. -/
theorem exec_bind {α β : Type} {x : CmM α} {f : α → CmM β} {w v : World} {r : Except Error β}
    (h : exec (x >>= f) w = (r, v)) :
    (∃ a u, exec x w = (.ok a, u) ∧ exec (f a) u = (r, v)) ∨ ∃ e, exec x w = (.error e, v) ∧ r = .error e := by
  unfold exec at *
  simp only [bind, EStateM.bind] at h
  cases hx : x w with
  | ok a u =>
    rw [hx] at h
    exact .inl ⟨a, u, rfl, h⟩
  | error e u =>
    rw [hx] at h
    cases h
    exact .inr ⟨e, rfl, rfl⟩

/-! Accepting. -/

/-- An event the listener has no use for. -/
def Benign (e : Event) : Prop := e.eventType ≠ .connectRequest ∧ e.eventType ≠ .deviceRemoval

/-- The turn a call of `try_accept` that leaves `v` ends with, from the events it has come to. -/
inductive LastTurn (v : World) : List Event → Except Error (Option Connection) → Label → Prop
  | empty (h : v.channel .listener = []) : LastTurn v [] (.ok none) .empty
  | decided (e : Event) (r : Except Error (Option Connection)) (he : ¬ Benign e) (h : Verdict v.log e r) :
      LastTurn v (e :: v.channel .listener) r (.handled e r)
  | unread (h : v.log.getLast? = some (.listener, .noEvent, false)) :
      LastTurn v (v.channel .listener) (.error (.other "device call failed")) (.unread (.other "device call failed"))

section Verdicts
variable {log : List (Obj × Call × Bool)} {e : Event} {r : Except Error (Option Connection)}

theorem Verdict.of_benign (h : Verdict log e r) (he : Benign e) : r = .ok none := by
  unfold Verdict at h
  split at h
  · next heq => exact absurd heq he.1
  · next heq => exact absurd heq he.2
  · exact h

theorem Verdict.benign (h : Verdict log e (.ok none)) : Benign e := by
  unfold Verdict at h
  split at h
  · rcases h with ⟨-, ⟨c, hc, -⟩ | ⟨err, hc, -⟩⟩ | ⟨-, hc⟩
    · cases hc
    · cases hc
    · cases hc
  · cases h
  · next h1 h2 => exact ⟨h1, h2⟩

/-- The turn ends the call unless its event was skipped. -/
theorem Verdict.decides (h : Verdict log e r) (hr : r ≠ .ok none) : ¬ Benign e := fun he => hr (h.of_benign he)

end Verdicts

theorem tryAcceptLoop_run (fuel : Nat) {y : Host} {r : Except Error (Option Connection)} {v : World} (h : y.Sound)
    (hfuel : (y.world.channel .listener).length < fuel)
    (hx : exec (tryAcceptLoop y.shared y.sendWr y.recvWr fuel) y.world = (r, v)) :
    ∃ skipped rest last, (∀ e ∈ skipped, Benign e) ∧ y.world.channel .listener = skipped ++ rest ∧
      LastTurn v rest r last ∧
      Run Host.Step y (skipped.map (fun e => .handled e (.ok none)) ++ [last])
        { y with world := v, conns := y.conns ++ handed r } := by
  -- on the fuel, which what is queued bounds: every turn but the last skips an event
  induction fuel generalizing y with
  | zero => exact absurd hfuel (Nat.not_lt_zero _)
  | succ fuel ih =>
    have hidle : ∀ u : World, ({ y with world := u, conns := y.conns ++ [] } : Host) = { y with world := u } := by
      intro u
      rw [List.append_nil]
    rcases exec_bind hx with ⟨o, u, hget, hx⟩ | ⟨err, hget, rfl⟩
    · rcases getCmEvent_listener hget with ⟨e, es, hr, hch, hu⟩ | ⟨hr, hu⟩
      · -- an event is taken and handled
        obtain rfl := Except.ok.inj hr
        subst hu
        simp only at hx
        rcases exec_bind hx with ⟨o, u, hp, hx⟩ | ⟨err, hp, rfl⟩
        · have hh := h.handle hch hp
          have hturn := Host.Step.handle y e _ _ u hget hp
          cases o with
          | some c =>
            cases hx
            exact ⟨[], e :: es, _, by simp, hch, hh.channel ▸ .decided e _ (hh.verdict.decides (by simp)) hh.verdict,
              .single hturn⟩
          | none =>
            rw [show handed (.ok none) = [] from rfl, hidle] at hturn
            have hsound := hh.sound
            rw [show handed (.ok none) = [] from rfl, hidle] at hsound
            -- skipped: the loop goes on with the events behind it
            have hlen : (u.channel .listener).length < fuel := by
              rw [hh.channel]
              rw [hch] at hfuel
              exact Nat.lt_of_succ_lt_succ hfuel
            obtain ⟨skipped, rest, last, hskip, hrest, hlast, hrun⟩ := ih hsound hlen hx
            refine ⟨e :: skipped, rest, last, ?_, ?_, hlast, .cons hturn hrun⟩
            · intro e' he'
              rcases List.mem_cons.mp he' with rfl | he'
              · exact hh.verdict.benign
              · exact hskip e' he'
            · rw [hch, ← hh.channel, hrest, List.cons_append]
        · have hh := h.handle hch hp
          exact ⟨[], e :: es, _, by simp, hch, hh.channel ▸ .decided e _ (hh.verdict.decides (by simp)) hh.verdict,
            .single (Host.Step.handle y e _ _ v hget hp)⟩
      · rcases hr with ⟨hr, hch⟩ | ⟨hr, -⟩
        · obtain rfl := Except.ok.inj hr
          cases hx
          have hturn := Host.Step.empty y v hget
          rw [← hidle v] at hturn
          refine ⟨[], [], _, by simp, hch, .empty ?_, .single hturn⟩
          rw [hu]
          exact hch
        · cases hr
    · rcases getCmEvent_listener hget with ⟨e, es, hr, -⟩ | ⟨hr, hv⟩
      · cases hr
      · rcases hr with ⟨hr, -⟩ | ⟨hr, href⟩
        · cases hr
        · obtain rfl := Except.error.inj hr
          have hturn := Host.Step.unread y _ v hget
          rw [← hidle v] at hturn
          refine ⟨[], y.world.channel .listener, _, by simp, rfl, ?_, .single hturn⟩
          have hlast : v.log.getLast? = some (.listener, .noEvent, false) := by
            rw [hv, World.made, href]
            exact List.getLast?_concat
          rw [show y.world.channel .listener = v.channel .listener by rw [hv]; rfl]
          exact .unread hlast

/-- **Accepting without blocking drains.** In any state a process can be in, `try_accept` takes
    events in their order and skips only those the listener has no use for: it answers that no
    request is queued only with the channel empty, and otherwise with what has become of the
    first event that decides, with those behind it left on the channel. -/
theorem try_accept_drains {y z : Host} {ls : List Label} {r : Except Error (Option Connection)} {v : World}
    (h : y.Bound) (hr : Run Host.Step y ls z)
    (hx : exec (tryAccept z.shared z.sendWr z.recvWr) z.world = (r, v)) :
    ∃ skipped rest last, (∀ e ∈ skipped, Benign e) ∧ z.world.channel .listener = skipped ++ rest ∧
      LastTurn v rest r last ∧
      Run Host.Step z (skipped.map (fun e => .handled e (.ok none)) ++ [last])
        { z with world := v, conns := z.conns ++ handed r } :=
  tryAcceptLoop_run _ (h.run_sound hr) (Nat.lt_succ_self _) hx

theorem try_accept_drains_stray : ∃ (z : Host) (v : World) (skipped rest : List Event) (last : Label),
    (∀ e ∈ skipped, Benign e) ∧ z.world.channel .listener = skipped ++ rest ∧
      LastTurn v rest (.ok (some (answered 1))) last := by
  have hrun := (Run.single (Host.Step.arrive .listening ⟨.timewaitExit, 0, none, 0⟩ fun h => by cases h)).snoc
    (.arrive _ (request 1) fun _ => ⟨rfl, rfl, by decide⟩)
  obtain ⟨skipped, rest, last, hskip, hrest, hlast, -⟩ := try_accept_drains (r := .ok (some (answered 1)))
    Host.listening_bound hrun rfl
  exact ⟨_, _, skipped, rest, last, hskip, hrest, hlast⟩

/-! Waiting. -/

/-- Turns of a wait in which nothing came, the deadline had not passed and `poll` worked. -/
def Quiet (deadline : Nat) (ts : List Tick) : Prop :=
  ∀ t ∈ ts, t.arrivals = [] ∧ t.now < deadline ∧ t.pollFails = false

/-- The turn after the quiet ones: what came in it, and the turn, unless it is the last. -/
inductive Looks (ts : List Tick) (last : List Event) (quiet : List Tick) : List Event → Option Tick → Prop
  | turn (t : Tick) (rest : List Tick) (h : ts = quiet ++ t :: rest) : Looks ts last quiet t.arrivals (some t)
  | last (h : ts = quiet) : Looks ts last quiet last none

/-- The calls made on identifier `k` between two worlds. -/
def Since (k : Nat) (w₀ w : World) (calls : List (Call × Bool)) : Prop :=
  callsOn (.id k) w.log = callsOn (.id k) w₀.log ++ calls

def Granted (calls : List (Call × Bool)) : Prop := ∀ x ∈ calls, x.2 = true

def Refused (calls : List (Call × Bool)) : Prop := ∃ c, (c, false) ∈ calls

/-- The error of an event that was not waited for. -/
def mismatch (want : EventType) (e : Event) : Error :=
  .other ("expected CM event " ++ want.text ++ ", got " ++ e.eventType.text ++ " (status " ++ toString e.status ++ ")")

/-- How a wait for `want` ends: with the first event to reach the channel, with the first turn
    past the deadline, with a `poll` that fails, or with a call that is refused. The calls on
    the identifier are `calls`, and but for the last case they were all granted. -/
inductive Awaited (want : EventType) (deadline : Nat) (ts : List Tick) (last queue left : List Event)
    (calls : List (Call × Bool)) : Except Error Unit → Prop
  | arrived (quiet : List Tick) (come : List Event) (t : Option Tick) (e : Event) (hq : Quiet deadline quiet)
      (hl : Looks ts last quiet come t) (hfirst : quiet ≠ [] → queue = []) (h : queue ++ come = e :: left)
      (he : e.eventType = want) (hall : Granted calls) : Awaited want deadline ts last queue left calls (.ok ())
  | another (quiet : List Tick) (come : List Event) (t : Option Tick) (e : Event) (hq : Quiet deadline quiet)
      (hl : Looks ts last quiet come t) (hfirst : quiet ≠ [] → queue = []) (h : queue ++ come = e :: left)
      (he : e.eventType ≠ want) (hall : Granted calls) :
      Awaited want deadline ts last queue left calls (.error (mismatch want e))
  | late (quiet : List Tick) (t : Option Tick) (hq : Quiet deadline quiet) (hl : Looks ts last quiet [] t)
      (hqueue : queue = []) (hleft : left = []) (hlate : ∀ t' ∈ t, deadline ≤ t'.now) (hall : Granted calls) :
      Awaited want deadline ts last queue left calls
        (.error (.io ⟨.timedOut, "timed out waiting for CM event " ++ want.text⟩))
  | unpolled (quiet : List Tick) (t : Tick) (hq : Quiet deadline quiet) (hl : Looks ts last quiet [] (some t))
      (hqueue : queue = []) (hleft : left = []) (hnow : t.now < deadline) (hp : t.pollFails = true)
      (hall : Granted calls) : Awaited want deadline ts last queue left calls (.error (.other "poll failed"))
  | refused (h : Refused calls) : Awaited want deadline ts last queue left calls (.error (.other "device call failed"))

section Waiting
variable {k : Nat} {want : EventType} {deadline : Nat} {last queue left : List Event} {ts : List Tick}
  {calls : List (Call × Bool)} {w₀ w : World} {r : Except Error Unit}

theorem Since.refl (k : Nat) (w : World) : Since k w w [] := (List.append_nil _).symm

theorem Since.made (h : Since k w₀ w calls) (c : Call) : Since k w₀ (w.made (.id k) c) (calls ++ [(c, !w.refuses)]) := by
  unfold Since at *
  rw [World.made, callsOn_append, h, callsOn_cons_self, List.append_assoc]
  rfl

theorem Granted.nil : Granted [] := fun _ hx => absurd hx List.not_mem_nil

theorem Granted.snoc (h : Granted calls) (c : Call) : Granted (calls ++ [(c, true)]) := by
  intro x hx
  rcases List.mem_append.mp hx with hx | hx
  · exact h x hx
  · rw [List.mem_singleton.mp hx]

theorem Refused.of_last (calls : List (Call × Bool)) (c : Call) : Refused (calls ++ [(c, false)]) :=
  ⟨c, List.mem_append_right _ (List.mem_singleton.mpr rfl)⟩

/-- One more quiet turn before. -/
theorem Awaited.after {t : Tick} (h : Awaited want deadline ts last [] left calls r) (ht : t.arrivals = [])
    (hnow : t.now < deadline) (hp : t.pollFails = false) : Awaited want deadline (t :: ts) last [] left calls r := by
  have hquiet : ∀ {quiet}, Quiet deadline quiet → Quiet deadline (t :: quiet) := by
    intro quiet hq t' ht'
    rcases List.mem_cons.mp ht' with rfl | ht'
    · exact ⟨ht, hnow, hp⟩
    · exact hq t' ht'
  have hlooks : ∀ {quiet come t'}, Looks ts last quiet come t' → Looks (t :: ts) last (t :: quiet) come t' := by
    intro quiet come t' hl
    cases hl with
    | turn t' rest h => exact .turn t' rest (by rw [h, List.cons_append])
    | last h => exact .last (by rw [h])
  cases h with
  | arrived quiet come t' e hq hl hfirst h he hall =>
    exact .arrived _ come t' e (hquiet hq) (hlooks hl) (fun _ => rfl) h he hall
  | another quiet come t' e hq hl hfirst h he hall =>
    exact .another _ come t' e (hquiet hq) (hlooks hl) (fun _ => rfl) h he hall
  | late quiet t' hq hl hqueue hleft hlate hall => exact .late _ t' (hquiet hq) (hlooks hl) rfl hleft hlate hall
  | unpolled quiet t' hq hl hqueue hleft hnow hp hall =>
    exact .unpolled _ t' (hquiet hq) (hlooks hl) rfl hleft hnow hp hall
  | refused h => exact .refused h

theorem acked_channel (o : Obj) (w : World) : (w.acked o).channel = w.channel := by
  obtain ⟨-, -, -, -, -, -, h⟩ := World.acked_log o w
  exact h

/-! Each rule takes calls that were all granted so far, and says so of one more. -/

theorem call_gives {c : Call} {Q : Except Error Unit → World → Prop} (hs : Since k w₀ w calls) (hg : Granted calls)
    (yes : ∀ v calls, v.channel = w.channel → Since k w₀ v calls → Granted calls → Q (.ok ()) v)
    (no : ∀ v calls, Since k w₀ v calls → Refused calls → Q (.error (.other "device call failed")) v) :
    wp (call (.id k) c) w Q := by
  have hmade := hs.made c
  unfold wp call
  cases hf : w.refuses with
  | false =>
    rw [hf] at hmade
    exact yes _ _ rfl hmade (hg.snoc c)
  | true =>
    rw [hf] at hmade
    exact no _ _ hmade (.of_last _ c)

theorem ack_gives {Q : Except Error Unit → World → Prop} (hs : Since k w₀ w calls) (hg : Granted calls)
    (yes : ∀ v calls, v.channel = w.channel → Since k w₀ v calls → Granted calls → Q (.ok ()) v)
    (no : ∀ v calls, Since k w₀ v calls → Refused calls → Q (.error (.other "device call failed")) v) :
    wp (ack (.id k)) w Q := by
  have hmade := hs.made .ackEvent
  have hchan := acked_channel (.id k) w
  unfold wp ack
  unfold World.acked at hchan ⊢
  cases hf : w.refuses with
  | false =>
    rw [hf] at hmade hchan
    exact yes _ _ hchan hmade (hg.snoc _)
  | true =>
    rw [hf] at hmade
    exact no _ _ (hmade.made .dropEvent) ⟨.ackEvent, by simp⟩

theorem getCmEvent_gives {Q : Except Error (Option Event) → World → Prop} (hs : Since k w₀ w calls) (hg : Granted calls)
    (none : ∀ v calls, v.channel = w.channel → w.channel (.id k) = [] → Since k w₀ v calls → Granted calls → Q (.ok none) v)
    (some : ∀ e v calls, w.channel (.id k) = e :: v.channel (.id k) → Since k w₀ v calls → Granted calls →
      Q (.ok (some e)) v)
    (fails : ∀ v calls, Since k w₀ v calls → Refused calls → Q (.error (.other "device call failed")) v) :
    wp (getCmEvent (.id k)) w Q := by
  have hmade := hs.made .noEvent
  unfold wp getCmEvent
  cases hf : w.refuses with
  | true =>
    rw [hf] at hmade
    exact fails _ _ hmade (.of_last _ _)
  | false =>
    rw [hf] at hmade
    cases hch : w.channel (.id k) with
    | nil => exact none _ _ rfl hch hmade (hg.snoc _)
    | cons e es =>
      refine some e _ (calls ++ [(.getEvent e.eventType, true)]) (by rw [hch]; simp) ?_ (hg.snoc _)
      unfold Since at *
      rw [callsOn_append, hs, show e.taken (.id k) = (.id k, .getEvent e.eventType) from rfl, callsOn_cons_self,
        List.append_assoc]
      rfl

/-- One look at the channel: the first event on it is taken and decides, or nothing is there. -/
theorem tryWaitEvent_looks (hs : Since k w₀ w calls) (hg : Granted calls) : wp (tryWaitEvent (.id k) want) w fun r v =>
    ∃ calls, Since k w₀ v calls ∧ match r with
    | .ok true => Granted calls ∧ ∃ e, w.channel (.id k) = e :: v.channel (.id k) ∧ e.eventType = want
    | .ok false => Granted calls ∧ w.channel (.id k) = [] ∧ v.channel (.id k) = []
    | .error err => (Granted calls ∧ ∃ e, w.channel (.id k) = e :: v.channel (.id k) ∧ e.eventType ≠ want ∧
        err = mismatch want e) ∨ (Refused calls ∧ err = .other "device call failed") := by
  unfold tryWaitEvent
  rw [wp_bind]
  refine getCmEvent_gives hs hg (fun v calls hv hch hs hg => ?_) (fun e v calls hch hs hg => ?_)
    fun v calls hs hr => ⟨calls, hs, .inr ⟨hr, rfl⟩⟩
  · exact ⟨calls, hs, hg, hch, hv ▸ hch⟩
  · simp only [wp_bind]
    refine ack_gives hs hg (fun v' calls hv' hs hg => ?_) fun v calls hs hr => ⟨calls, hs, .inr ⟨hr, rfl⟩⟩
    rw [← hv'] at hch
    simp only [wp_ite, wp_pure, wp_throw]
    split
    · next he => exact ⟨calls, hs, hg, e, hch, he⟩
    · next he => exact ⟨calls, hs, .inl ⟨hg, e, hch, he, rfl⟩⟩

theorem waitLoop_awaited (ts : List Tick) (hs : Since k w₀ w calls) (hg : Granted calls) :
    wp (waitLoop (.id k) want deadline last ts) w fun r v =>
      ∃ calls, Since k w₀ v calls ∧
        Awaited want deadline ts last (w.channel (.id k)) (v.channel (.id k)) calls r := by
  -- on the ticks: a look that finds nothing uses one up
  induction ts generalizing w calls with
  | nil =>
    simp only [waitLoop, wp_bind, wp_modify]
    refine wp_mono (tryWaitEvent_looks (w := w.arrive (.id k) last) hs hg) ?_
    intro r v hr
    obtain ⟨calls, hs, hr⟩ := hr
    rw [show (w.arrive (.id k) last).channel (.id k) = w.channel (.id k) ++ last by simp [World.arrive]] at hr
    cases r with
    | error err =>
      refine ⟨calls, hs, ?_⟩
      rcases hr with ⟨hg, e, hch, he, rfl⟩ | ⟨href, rfl⟩
      · exact .another [] last none e (by simp [Quiet]) (.last rfl) (by simp) hch he hg
      · exact .refused href
    | ok b =>
      cases b with
      | true =>
        obtain ⟨hg, e, hch, he⟩ := hr
        exact ⟨calls, hs, .arrived [] last none e (by simp [Quiet]) (.last rfl) (by simp) hch he hg⟩
      | false =>
        obtain ⟨hg, hch, hleft⟩ := hr
        obtain ⟨hqueue, hlast⟩ := List.append_eq_nil_iff.mp hch
        refine ⟨calls, hs, .late [] none (by simp [Quiet]) ?_ hqueue hleft (by simp) hg⟩
        exact hlast ▸ .last rfl
  | cons t ts ih =>
    simp only [waitLoop, wp_bind, wp_modify]
    refine wp_mono (tryWaitEvent_looks (w := w.arrive (.id k) t.arrivals) hs hg) ?_
    intro r v hr
    obtain ⟨calls, hs, hr⟩ := hr
    rw [show (w.arrive (.id k) t.arrivals).channel (.id k) = w.channel (.id k) ++ t.arrivals by simp [World.arrive]] at hr
    cases r with
    | error err =>
      refine ⟨calls, hs, ?_⟩
      rcases hr with ⟨hg, e, hch, he, rfl⟩ | ⟨href, rfl⟩
      · exact .another [] t.arrivals (some t) e (by simp [Quiet]) (.turn t ts rfl) (by simp) hch he hg
      · exact .refused href
    | ok b =>
      cases b with
      | true =>
        obtain ⟨hg, e, hch, he⟩ := hr
        exact ⟨calls, hs, .arrived [] t.arrivals (some t) e (by simp [Quiet]) (.turn t ts rfl) (by simp) hch he hg⟩
      | false =>
        obtain ⟨hg, hch, hleft⟩ := hr
        obtain ⟨hqueue, hnone⟩ := List.append_eq_nil_iff.mp hch
        -- nothing has come: the deadline is checked first, then the poll
        have hlooks : Looks (t :: ts) last [] [] (some t) := hnone ▸ .turn t ts rfl
        simp only [Bool.false_eq_true, if_false, wp_ite, wp_throw]
        split
        · next hlate =>
          refine ⟨calls, hs, .late [] (some t) (by simp [Quiet]) hlooks hqueue hleft ?_ hg⟩
          rintro t' ht'
          exact Option.some.inj ht' ▸ hlate
        · next hlate =>
          split
          · next hp =>
            exact ⟨calls, hs, .unpolled [] t (by simp [Quiet]) hlooks hqueue hleft (Nat.lt_of_not_le hlate) hp hg⟩
          · next hp =>
            refine wp_mono (ih hs hg) ?_
            rintro r u ⟨calls, hs, hr⟩
            rw [hleft] at hr
            rw [hqueue]
            exact ⟨calls, hs, hr.after hnone (Nat.lt_of_not_le hlate) (Bool.eq_false_iff.mpr hp)⟩

theorem waitEvent_awaited {timeout : Nat} {t : Wait} (hs : Since k w₀ w calls) (hg : Granted calls) :
    wp (waitEvent (.id k) want timeout t) w fun r v =>
      ∃ calls, Since k w₀ v calls ∧
        Awaited want (t.start + timeout) t.ticks t.last (w.channel (.id k)) (v.channel (.id k)) calls r := by
  simp only [waitEvent, wp_bind]
  refine call_gives hs hg (fun v calls hv hs hg => ?_) fun v calls hs href => ⟨calls, hs, .refused href⟩
  rw [← hv]
  exact waitLoop_awaited t.ticks hs hg

end Waiting

/-! A handshake. -/

/-- What the CM reports once the peer has gone along. -/
def Connection.wants (c : Connection) : EventType :=
  match c.role with
  | .server => .established
  | .client => .connectResponse

section Finish
variable {w₀ w : World} {c : Connection} {t : Wait} {calls : List (Call × Bool)}

theorem modifyQp_gives {s : QpState} {Q : Except Error Unit → World → Prop} (hqp : c.qp = true)
    (hs : Since c.id w₀ w calls) (hg : Granted calls)
    (yes : ∀ v calls, v.channel = w.channel → Since c.id w₀ v calls → Granted calls → Q (.ok ()) v)
    (no : ∀ v calls, Since c.id w₀ v calls → Refused calls → Q (.error (.other "device call failed")) v) :
    wp (c.modifyQp s) w Q := by
  simp only [Connection.modifyQp, Connection.withQp, hqp, if_true, wp_bind]
  refine call_gives hs hg (fun v calls hv hs hg => ?_) no
  exact call_gives hs hg (fun u calls hu => yes u calls (hu.trans hv)) no

theorem finish_awaited (hqp : c.qp = true) : wp (c.finish t) w fun r v =>
    ∃ calls, Since c.id w v calls ∧
      Awaited c.wants (t.start + establishTimeout) t.ticks t.last (w.channel (.id c.id)) (v.channel (.id c.id)) calls r := by
  have hs := Since.refl c.id w
  have hno : ∀ {want} (v : World) calls, Since c.id w v calls → Refused calls → ∃ calls, Since c.id w v calls ∧
      Awaited want (t.start + establishTimeout) t.ticks t.last (w.channel (.id c.id)) (v.channel (.id c.id)) calls
        (.error (.other "device call failed")) := fun v calls hs href => ⟨calls, hs, .refused href⟩
  unfold Connection.finish Connection.wants
  cases c.role with
  | server =>
    simp only [Connection.acceptFinish, Connection.acceptEstablishBegin, Connection.withQp, hqp, if_true, wp_bind, wp_pure]
    refine modifyQp_gives hqp hs .nil (fun v₁ calls h₁ hs hg => ?_) hno
    refine modifyQp_gives hqp hs hg (fun v₂ calls h₂ hs hg => ?_) hno
    refine call_gives hs hg (fun v₃ calls h₃ hs hg => ?_) hno
    refine call_gives hs hg (fun v₄ calls h₄ hs hg => ?_) hno
    rw [← ((h₄.trans h₃).trans h₂).trans h₁]
    exact waitEvent_awaited hs hg
  | client =>
    simp only [Connection.connectFinish, Connection.withQp, hqp, if_true, wp_bind, wp_pure]
    refine call_gives hs .nil (fun v₁ calls h₁ hs hg => ?_) hno
    refine wp_mono (waitEvent_awaited hs hg) ?_
    rintro r v ⟨calls, hs, hr⟩
    rw [h₁] at hr
    cases r with
    | error e => exact ⟨calls, hs, hr⟩
    | ok _ =>
      -- the event has come; what is still to be called may be refused
      obtain ⟨quiet, come, t', e, hq, hl, hfirst, h, he, hg⟩ := hr
      refine modifyQp_gives hqp hs hg (fun v₂ calls h₂ hs hg => ?_) hno
      refine modifyQp_gives hqp hs hg (fun v₃ calls h₃ hs hg => ?_) hno
      refine call_gives hs hg (fun v₄ calls h₄ hs hg => ?_) hno
      rw [(h₄.trans h₃).trans h₂]
      exact ⟨calls, hs, .arrived quiet come t' e hq hl hfirst h he hg⟩

theorem finish_down (hqp : c.qp = false) (w : World) :
    exec (c.finish t) w = (.error (.other "connection has been shut down"), w) := by
  unfold exec Connection.finish
  cases c.role with
  | server =>
    simp only [Connection.acceptFinish, Connection.acceptEstablishBegin, Connection.withQp, hqp, Bool.false_eq_true, if_false]
    rfl
  | client =>
    simp only [Connection.connectFinish, Connection.withQp, hqp, Bool.false_eq_true, if_false]
    rfl

end Finish

/-- **The first event decides a handshake.** For any connection of a process that has not been
    established yet, whatever its peer does and whatever calls fail: finishing the handshake
    succeeds only on the event it wants, as the first one to come, and then with the QP in RTS
    and that event alone taken. Another event, and nothing by the first look past the deadline,
    are the two errors that say so; every other error is that of a call on the identifier that
    was refused, of a `poll` that failed, or of a connection that has been shut down. -/
theorem finish_exact {y z : Host} {ls : List Label} {c : Connection × Bool} {t : Wait} {r : Except Error Unit}
    {v : World} (h : y.Bound) (hr : Run Host.Step y ls z) (hc : c ∈ z.conns) (hfirst : c.2 = false)
    (hx : exec (c.1.finish t) z.world = (r, v)) :
    (c.1.qp = false → r = .error (.other "connection has been shut down") ∧ v = z.world) ∧
      (c.1.qp = true → ∃ calls, callsOn (.id c.1.id) v.log = callsOn (.id c.1.id) z.world.log ++ calls ∧
        Awaited c.1.wants (t.start + establishTimeout) t.ticks t.last (z.world.channel (.id c.1.id))
          (v.channel (.id c.1.id)) calls r) ∧
      (r = .ok () → c.1.qp = true ∧
        v.At (.id c.1.id) (.live c.1.ep.ownPd (some .readyToSend) true c.1.disconnected)) := by
  obtain ⟨s, hf, hs⟩ := (h.run_sound hr).live c hc
  rw [hfirst] at hf
  refine ⟨fun hqp => ?_, fun hqp => exec_wp (finish_awaited hqp) hx, exec_wp (Q := fun r v => r = .ok () → c.1.qp = true ∧
    v.At (.id c.1.id) (.live c.1.ep.ownPd (some .readyToSend) true c.1.disconnected)) ?_ hx⟩
  · rw [finish_down hqp] at hx
    cases hx
    exact ⟨rfl, rfl⟩
  · unfold Connection.finish
    cases c.1.role with
    | server =>
      exact hs.acceptFinish_to rfl hf (.refl _ _) (fun v hqp hv _ _ => ⟨hqp, hv.stage⟩) fun e v t _ _ _ he => by cases he
    | client =>
      exact hs.connectFinish_to rfl hf (.refl _ _) (fun v hqp hv _ _ => ⟨hqp, hv.stage⟩) fun e v t _ _ _ he => by cases he

/-- The peer answers in the second turn. -/
theorem finish_exact_established : ∃ v : World, v.At (.id 1) (.live false (some .readyToSend) true false) := by
  have hrun := (Run.single (Host.Step.arrive .listening (request 1) fun _ => ⟨rfl, rfl, by decide⟩)).snoc
    (.handle _ (request 1) (.ok (some (answered 1))) _ _ rfl rfl)
  obtain ⟨-, -, hok⟩ := finish_exact (c := (answered 1, false)) (r := .ok ())
    (t := ⟨0, [⟨[], 5, false⟩, ⟨[⟨.established, 1, none, 0⟩], 9, false⟩], []⟩) Host.listening_bound hrun
    (List.mem_singleton.mpr rfl) rfl rfl
  exact ⟨_, (hok rfl).2⟩

end Cm

end Hord
