import Mathlib.Data.List.Flatten
import Mathlib.Algebra.Order.Monoid.Unbundled.Basic
import Mathlib.Algebra.Ring.Nat
import Hord.Lib.Run

/- A link with credit flow control. Each end stages what it accepts, posts it in
   packets while it has credits, holds what it receives until it is read, and owes one
   credit for every packet read to the end; owed credits travel back as grants on the
   packets of the other direction. Tags share the queue and touch no credit.

   Over any interleaving of the two ends and of the transport, each direction keeps two
   laws: what was accepted is what was read followed by everything on the way
   (`Ordered`), and credits, packets on the way, owed credits and grants on the way back
   add up to the window (`Credited`). Counters may saturate or wrap at `limit`; below it they never do. -/
namespace CreditLink

open Transition

variable {α : Type*}

inductive Packet (α : Type*) where
  | data (grant : Nat) (body : List α)
  | tag (id : Nat)

namespace Packet

/-- The body, if there is one: a packet without is pure control. -/
def bodies : Packet α → List (List α)
  | .data _ body => if body.isEmpty then [] else [body]
  | .tag _ => []

theorem bodies_data (g : Nat) {body : List α} (h : body ≠ []) :
    (Packet.data g body).bodies = [body] := by
  unfold bodies
  simp [h]

def grant : Packet α → Nat
  | .data g _ => g
  | .tag _ => 0

def ids : Packet α → List Nat
  | .data _ _ => []
  | .tag id => [id]

end Packet

def bodies (ps : List (Packet α)) : List (List α) := ps.flatMap Packet.bodies
def grants (ps : List (Packet α)) : Nat := (ps.map Packet.grant).sum
def ids (ps : List (Packet α)) : List Nat := ps.flatMap Packet.ids

section Packets
variable (p : Packet α) (ps qs : List (Packet α))

@[simp] theorem bodies_nil : bodies ([] : List (Packet α)) = [] := rfl
@[simp] theorem grants_nil : grants ([] : List (Packet α)) = 0 := rfl
@[simp] theorem ids_nil : ids ([] : List (Packet α)) = [] := rfl

@[simp] theorem bodies_cons : bodies (p :: ps) = p.bodies ++ bodies ps := rfl
@[simp] theorem grants_cons : grants (p :: ps) = p.grant + grants ps := by simp [grants]
@[simp] theorem ids_cons : ids (p :: ps) = p.ids ++ ids ps := rfl

@[simp] theorem bodies_append : bodies (ps ++ qs) = bodies ps ++ bodies qs := List.flatMap_append
@[simp] theorem grants_append : grants (ps ++ qs) = grants ps + grants qs := by simp [grants]
@[simp] theorem ids_append : ids (ps ++ qs) = ids ps ++ ids qs := List.flatMap_append

end Packets

/-- One end: `inbox` has arrived and is not yet handled, `outbox` is posted and not
    yet carried. -/
structure End (α : Type*) where
  credits : Nat
  owed : Nat
  stage : List α
  held : List (List α)
  tags : List Nat
  inbox : List (Packet α)
  outbox : List (Packet α)

/-- What a move shows to the user of the end. -/
inductive Label (α : Type*) where
  | stay
  | accept (xs : List α)
  | read (xs : List α)
  | took (id : Nat)

namespace Label

def accepted : Label α → List α
  | .accept xs => xs
  | _ => []

def reads : Label α → List α
  | .read xs => xs
  | _ => []

def taken : Label α → List Nat
  | .took id => [id]
  | _ => []

end Label

inductive Move (limit : Nat) : End α → Label α → End α → Prop
  | idle (e : End α) : Move limit e .stay e
  | stage (e : End α) (xs : List α) :
      Move limit e (.accept xs) { e with stage := e.stage ++ xs }
  /-- The stage and `xs` leave as one packet, with a grant. -/
  | post (e : End α) (xs : List α) (g : Nat) (hcred : 0 < e.credits) (hg : g ≤ e.owed)
      (hne : e.stage ++ xs ≠ []) :
      Move limit e (.accept xs)
        { e with stage := [], credits := e.credits - 1, owed := e.owed - g
                 outbox := e.outbox ++ [.data g (e.stage ++ xs)] }
  | grant (e : End α) (g : Nat) (hg : g ≤ e.owed) :
      Move limit e .stay { e with owed := e.owed - g, outbox := e.outbox ++ [.data g []] }
  | mark (e : End α) (id : Nat) :
      Move limit e .stay { e with outbox := e.outbox ++ [.tag id] }
  | receive (e : End α) (g : Nat) (body : List α) (rest : List (Packet α))
      (h : e.inbox = .data g body :: rest) :
      Move limit e .stay
        { e with inbox := rest, credits := min (e.credits + g) (limit - 1)
                 held := e.held ++ (Packet.data g body).bodies }
  | receiveTag (e : End α) (id : Nat) (rest : List (Packet α)) (h : e.inbox = .tag id :: rest) :
      Move limit e .stay { e with inbox := rest, tags := e.tags ++ [id] }
  | read (e : End α) (m : List α) (rest : List (List α)) (k : Nat) (h : e.held = m :: rest) :
      Move limit e (.read (m.take k)) { e with held := m.drop k :: rest }
  | finish (e : End α) (m : List α) (rest : List (List α)) (h : e.held = m :: rest) :
      Move limit e (.read m) { e with held := rest, owed := (e.owed + 1) % limit }
  | take (e : End α) (id : Nat) (rest : List Nat) (h : e.tags = id :: rest) :
      Move limit e (.took id) { e with tags := rest }

/-- Packets with a body on the way from `x` to the reader of `y`, oldest first. -/
def transit (x y : End α) : List (List α) := y.held ++ bodies y.inbox ++ bodies x.outbox

/-- The order law from `x` to `y`: `acc` was accepted at `x`, `rd` read at `y`. -/
def Ordered (x y : End α) (acc rd : List α) : Prop := acc = rd ++ (transit x y).flatten ++ x.stage

/-- The credit law from `x` to `y`, which granted a window of `w`. -/
def Credited (w : Nat) (x y : End α) : Prop :=
  x.credits + (transit x y).length + y.owed + grants x.inbox + grants y.outbox = w

/-- Tags arrived at `y`: taken, waiting, or not yet handled. -/
def Tagged (y : End α) (arrived took : List Nat) : Prop := arrived = took ++ y.tags ++ ids y.inbox

section Laws
variable {limit w : Nat} {x x' y y' : End α} {acc rd : List α} {l : Label α}

theorem transit_receive {g : Nat} {body : List α} {rest : List (Packet α)} {credits : Nat}
    (h : y.inbox = .data g body :: rest) :
    transit x { y with inbox := rest, credits := credits
                       held := y.held ++ (Packet.data g body).bodies } = transit x y := by
  simp [transit, h]

theorem transit_receiveTag {id : Nat} {rest : List (Packet α)} (h : y.inbox = .tag id :: rest) :
    transit x { y with inbox := rest, tags := y.tags ++ [id] } = transit x y := by
  simp [transit, h, Packet.bodies]

theorem transit_post {g : Nat} {xs : List α} (hne : x.stage ++ xs ≠ []) {credits owed : Nat} :
    transit { x with stage := [], credits := credits, owed := owed
                     outbox := x.outbox ++ [.data g (x.stage ++ xs)] } y =
      transit x y ++ [x.stage ++ xs] := by
  simp [transit, Packet.bodies_data g hne]

theorem transit_carry {ps rest : List (Packet α)} (h : x.outbox = ps ++ rest) :
    transit { x with outbox := rest } { y with inbox := y.inbox ++ ps } = transit x y := by
  simp [transit, h]

/-- A move of the sending end. -/
theorem Ordered.send (h : Ordered x y acc rd) (hm : Move limit x l x') :
    Ordered x' y (acc ++ l.accepted) rd := by
  unfold Ordered at *
  cases hm with
  | stage xs =>
    rw [h]
    simp [transit, Label.accepted]
  | post xs g hcred hg hne =>
    rw [transit_post hne, h]
    simp [Label.accepted]
  | grant g hg => simpa [transit, Packet.bodies, Label.accepted] using h
  | mark id => simpa [transit, Packet.bodies, Label.accepted] using h
  | _ => simpa [transit, Label.accepted] using h

/-- A move of the receiving end. -/
theorem Ordered.recv (h : Ordered x y acc rd) (hm : Move limit y l y') :
    Ordered x y' acc (rd ++ l.reads) := by
  unfold Ordered at *
  cases hm with
  | receive g body rest hin =>
    rw [transit_receive hin]
    simpa [Label.reads] using h
  | receiveTag id rest hin =>
    rw [transit_receiveTag hin]
    simpa [Label.reads] using h
  | read m rest k hh =>
    simp only [Label.reads, transit] at h ⊢
    rw [h, hh]
    simp only [List.cons_append, List.flatten_cons, List.append_assoc]
    rw [← List.append_assoc (m.take k), List.take_append_drop]
  | finish m rest hh =>
    simp only [Label.reads, transit] at h ⊢
    rw [h, hh]
    simp
  | _ => simpa [transit, Label.reads] using h

theorem Credited.send (h : Credited w x y) (hw : w < limit) (hm : Move limit x l x') :
    Credited w x' y := by
  unfold Credited at *
  cases hm with
  | post xs g hcred hg hne =>
    rw [transit_post hne, List.length_append, List.length_singleton]
    simp only
    omega
  | grant g hg => simpa [transit, Packet.bodies] using h
  | mark id => simpa [transit, Packet.bodies] using h
  | receive g body rest hin =>
    rw [hin, grants_cons] at h
    -- the grant was part of the window, so the counter cannot saturate
    have hle : x.credits + g ≤ limit - 1 := by
      simp only [Packet.grant] at h
      omega
    simp only [transit, Nat.min_eq_left hle, Packet.grant] at h ⊢
    omega
  | receiveTag id rest hin =>
    rw [hin, grants_cons] at h
    simpa [transit, Packet.grant] using h
  | _ => exact h

theorem Credited.recv (h : Credited w x y) (hw : w < limit) (hm : Move limit y l y') :
    Credited w x y' := by
  unfold Credited at *
  cases hm with
  | post xs g hcred hg hne =>
    simp only [transit, grants_append, grants_cons, grants_nil, Packet.grant] at h ⊢
    omega
  | grant g hg =>
    simp only [transit, grants_append, grants_cons, grants_nil, Packet.grant] at h ⊢
    omega
  | mark id => simpa [transit, Packet.grant] using h
  | receive g body rest hin =>
    rw [transit_receive hin]
    exact h
  | receiveTag id rest hin =>
    rw [transit_receiveTag hin]
    exact h
  | read m rest k hh => simpa [transit, hh] using h
  | finish m rest hh =>
    have hlen : (transit x y).length = (transit x { y with held := rest }).length + 1 := by
      simp [transit, hh]
    -- a held packet was part of the window, so one more credit can be owed
    have hlt : y.owed + 1 < limit := by omega
    simp only [transit, List.length_append, Nat.mod_eq_of_lt hlt] at h hlen ⊢
    omega
  | _ => exact h

/-- The oldest packets of `x` arrive at `y`. -/
theorem Ordered.carry (h : Ordered x y acc rd) {ps rest : List (Packet α)}
    (hout : x.outbox = ps ++ rest) :
    Ordered { x with outbox := rest } { y with inbox := y.inbox ++ ps } acc rd := by
  unfold Ordered
  rw [transit_carry hout]
  exact h

theorem Credited.carry (h : Credited w x y) {ps rest : List (Packet α)}
    (hout : x.outbox = ps ++ rest) :
    Credited w { x with outbox := rest } { y with inbox := y.inbox ++ ps } := by
  unfold Credited
  rw [transit_carry hout]
  exact h

/-- Packets of the other direction arrive: their grants stay on the books. -/
theorem Credited.carryBack (h : Credited w x y) {ps rest : List (Packet α)}
    (hout : y.outbox = ps ++ rest) :
    Credited w { x with inbox := x.inbox ++ ps } { y with outbox := rest } := by
  unfold Credited at *
  simp only [hout, grants_append, transit] at h
  simp only [grants_append, transit]
  omega

theorem Ordered.read_le (h : Ordered x y acc rd) : rd <+: acc := by
  rw [h, List.append_assoc]
  exact List.prefix_append ..

/-- With nothing on the way, everything accepted has been read. -/
theorem Ordered.complete (h : Ordered x y acc rd) (hheld : y.held = []) (hin : bodies y.inbox = [])
    (hout : bodies x.outbox = []) (hstage : x.stage = []) : rd = acc := by
  rw [h, transit, hheld, hin, hout, hstage]
  simp

theorem Tagged.move {arrived took : List Nat} (h : Tagged y arrived took) (hm : Move limit y l y') :
    Tagged y' arrived (took ++ l.taken) := by
  unfold Tagged at *
  cases hm with
  | receive g body rest hin => simpa [hin, Packet.ids, Label.taken] using h
  | receiveTag id rest hin => simpa [hin, Packet.ids, Label.taken] using h
  | take id rest hh => simpa [hh, Label.taken] using h
  | _ => simpa [Label.taken] using h

/-! Whole runs of one end. -/

variable {ls : List (Label α)}

theorem Ordered.send_run (hr : Run (Move limit) x ls x') (h : Ordered x y acc rd) :
    Ordered x' y (acc ++ ls.flatMap Label.accepted) rd := by
  induction hr with
  | nil => simpa using h
  | snoc _ hm ih =>
    have := ih.send hm
    simpa [List.flatMap_append] using this

theorem Ordered.recv_run (hr : Run (Move limit) y ls y') (h : Ordered x y acc rd) :
    Ordered x y' acc (rd ++ ls.flatMap Label.reads) := by
  induction hr with
  | nil => simpa using h
  | snoc _ hm ih =>
    have := ih.recv hm
    simpa [List.flatMap_append] using this

theorem Credited.send_run (hr : Run (Move limit) x ls x') (h : Credited w x y) (hw : w < limit) :
    Credited w x' y :=
  hr.inv (I := fun e => Credited w e y) (fun _ _ _ hc hm => hc.send hw hm) h

theorem Credited.recv_run (hr : Run (Move limit) y ls y') (h : Credited w x y) (hw : w < limit) :
    Credited w x y' :=
  hr.inv (I := fun e => Credited w x e) (fun _ _ _ hc hm => hc.recv hw hm) h

/-- What an end has posted or staged. -/
def End.outgoing (x : End α) : List α := (bodies x.outbox).flatten ++ x.stage

/-- An end with nothing on its way in or out. -/
def End.blank : End α := ⟨0, 0, [], [], [], [], []⟩

/-- What leaves an end is what it accepted: the order law towards a silent reader. -/
theorem outgoing_run (hr : Run (Move limit) x ls x') :
    x'.outgoing = x.outgoing ++ ls.flatMap Label.accepted := by
  have hord : Ordered x .blank x.outgoing [] := by
    simp [Ordered, transit, End.outgoing, End.blank]
  have hend := Ordered.send_run hr hord
  simpa [Ordered, transit, End.outgoing, End.blank] using hend.symm

/-- What an end has received is read or still there: the order law from a silent sender. -/
theorem received_run (hr : Run (Move limit) y ls y') :
    (y.held ++ bodies y.inbox).flatten =
      ls.flatMap Label.reads ++ (y'.held ++ bodies y'.inbox).flatten := by
  have hord : Ordered .blank y (y.held ++ bodies y.inbox).flatten [] := by
    simp [Ordered, transit, End.blank]
  have hend := Ordered.recv_run hr hord
  simpa [Ordered, transit, End.blank] using hend

/-- Only the transport takes packets off the outbox. -/
theorem outbox_run (hr : Run (Move limit) x ls x') : ∃ ps, x'.outbox = x.outbox ++ ps := by
  refine hr.inv (I := fun e => ∃ ps, e.outbox = x.outbox ++ ps) (fun e l e' hi hm => ?_)
    ⟨[], (List.append_nil _).symm⟩
  obtain ⟨ps, hps⟩ := hi
  have push : ∀ p, ∃ qs, e.outbox ++ [p] = x.outbox ++ qs := by
    intro p
    exact ⟨ps ++ [p], by rw [hps, List.append_assoc]⟩
  cases hm with
  | post xs g hcred hg hne => exact push _
  | grant g hg => exact push _
  | mark id => exact push _
  | _ => exact ⟨ps, hps⟩

theorem Tagged.run {arrived took : List Nat} (hr : Run (Move limit) y ls y') (h : Tagged y arrived took) :
    Tagged y' arrived (took ++ ls.flatMap Label.taken) := by
  induction hr with
  | nil => simpa using h
  | snoc _ hm ih =>
    have := ih.move hm
    simpa [List.flatMap_append] using this

end Laws

end CreditLink
