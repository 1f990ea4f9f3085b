import Hord.Lib.CreditLink

/- The backlog of a credit link: what one end has accepted and the other has not yet
   read. If no packet has more than `cap` elements, a window of `w` packets bounds it by
   `cap * w` and the stage, however the elements are cut into packets and reads. The
   inequality `Backlog` is the order law and the credit law weighed against each other;
   unlike the two it survives losses: a packet that is dropped takes its credit with it,
   and an end that is shut grants nothing any more. -/
namespace CreditLink

open Transition

variable {α : Type*}

def Backlog (cap w acc rd : Nat) (x y : End α) : Prop :=
  acc + cap * (x.credits + (transit x y).length + y.owed + grants x.inbox + grants y.outbox) ≤
    rd + cap * w + (transit x y).flatten.length + x.stage.length

/-- No body has more than `cap` elements. -/
def Within (cap : Nat) (ms : List (List α)) : Prop := ∀ m ∈ ms, m.length ≤ cap

/-- What an end has received. -/
def End.received (y : End α) : List (List α) := y.held ++ bodies y.inbox

/-- An end as the other one sees it once nothing is read from it or granted any more. -/
def End.shut (y : End α) : End α := { y with owed := 0, held := [], inbox := [] }

theorem transit_eq (x y : End α) : transit x y = y.received ++ bodies x.outbox := rfl

@[simp] theorem received_shut (y : End α) : y.shut.received = [] := rfl

section Sizes
variable {cap : Nat} {ms ns : List (List α)}

theorem Within.sublist (h : Within cap ms) (hs : ns.Sublist ms) : Within cap ns :=
  fun m hm => h m (hs.subset hm)

theorem Within.append (h : Within cap ms) (h' : Within cap ns) : Within cap (ms ++ ns) := by
  intro m hm
  rcases List.mem_append.mp hm with hm | hm
  · exact h m hm
  · exact h' m hm

theorem Within.flatten_le (h : Within cap ms) : ms.flatten.length ≤ cap * ms.length := by
  induction ms with
  | nil => simp
  | cons m ms ih =>
    have hm := h m (List.mem_cons_self ..)
    have hrest := ih fun n hn => h n (List.mem_cons_of_mem _ hn)
    rw [List.flatten_cons, List.length_append, List.length_cons, Nat.mul_succ]
    omega

/-- Leaving bodies out frees at least their elements. -/
theorem Within.shed (h : Within cap ms) (hs : ns.Sublist ms) :
    cap * ns.length + ms.flatten.length ≤ cap * ms.length + ns.flatten.length := by
  induction hs with
  | slnil => exact Nat.le_refl _
  | @cons ns ms m hs ih =>
    have hm := h m (List.mem_cons_self ..)
    have hrest := ih fun n hn => h n (List.mem_cons_of_mem _ hn)
    rw [List.flatten_cons, List.length_append, List.length_cons, Nat.mul_succ]
    omega
  | @cons_cons ns ms m hs ih =>
    have hrest := ih fun n hn => h n (List.mem_cons_of_mem _ hn)
    simp only [List.flatten_cons, List.length_append, List.length_cons, Nat.mul_succ]
    omega

theorem bodies_sublist {ps qs : List (Packet α)} (h : ps.Sublist qs) : (bodies ps).Sublist (bodies qs) :=
  h.flatMap Packet.bodies

theorem grants_sublist {ps qs : List (Packet α)} (h : ps.Sublist qs) : grants ps ≤ grants qs := by
  induction h with
  | slnil => exact Nat.le_refl _
  | cons p _ ih =>
    rw [grants_cons]
    omega
  | cons_cons p _ ih =>
    rw [grants_cons, grants_cons]
    omega

end Sizes

section Laws
variable {limit cap w acc rd : Nat} {x x' y y' : End α} {l : Label α}

/-- The bound itself. -/
theorem Backlog.le (h : Backlog cap w acc rd x y) (hb : Within cap (transit x y)) :
    acc ≤ rd + cap * w + x.stage.length := by
  have hsum := hb.flatten_le
  simp only [Backlog, Nat.mul_add] at h
  omega

theorem Backlog.mono (h : Backlog cap w acc rd x y) (n : Nat) : Backlog cap w acc (rd + n) x y := by
  simp only [Backlog] at h ⊢
  omega

theorem Backlog.send (h : Backlog cap w acc rd x y) (hm : Move limit x l x') :
    Backlog cap w (acc + l.accepted.length) rd x' y := by
  simp only [Backlog, Nat.mul_add] at h ⊢
  cases hm with
  | stage xs =>
    simp only [transit, Label.accepted, List.length_append] at h ⊢
    omega
  | post xs g hcred hg hne =>
    obtain ⟨c, hc⟩ := Nat.exists_eq_add_of_lt hcred
    rw [Nat.zero_add] at hc
    rw [transit_post hne]
    simp only [Label.accepted, hc, Nat.add_sub_cancel, List.length_append, List.length_singleton,
      List.flatten_append, List.flatten_singleton, List.length_nil, Nat.mul_add, Nat.mul_one] at h ⊢
    omega
  | grant g hg => simpa [transit, Packet.bodies, Label.accepted] using h
  | mark id => simpa [transit, Packet.bodies, Label.accepted] using h
  | receive g body rest hin =>
    -- the counter may saturate, which only takes credits away
    have hcred : cap * min (x.credits + g) (limit - 1) ≤ cap * (x.credits + g) :=
      Nat.mul_le_mul_left _ (Nat.min_le_left _ _)
    rw [hin] at h
    simp only [transit, Label.accepted, grants_cons, Packet.grant, Nat.mul_add, List.length_nil] at h hcred ⊢
    omega
  | receiveTag id rest hin =>
    rw [hin] at h
    simpa [transit, Packet.grant, Label.accepted] using h
  | _ => simpa [transit, Label.accepted] using h

theorem Backlog.recv (h : Backlog cap w acc rd x y) (hm : Move limit y l y') :
    Backlog cap w acc (rd + l.reads.length) x y' := by
  simp only [Backlog, Nat.mul_add] at h ⊢
  cases hm with
  | post xs g hcred hg hne =>
    have howed : cap * y.owed = cap * (y.owed - g) + cap * g := by
      rw [← Nat.mul_add, Nat.sub_add_cancel hg]
    simp only [transit, Label.reads, grants_append, grants_cons, grants_nil, Packet.grant, Nat.mul_add,
      List.length_nil, Nat.add_zero] at h ⊢
    omega
  | grant g hg =>
    have howed : cap * y.owed = cap * (y.owed - g) + cap * g := by
      rw [← Nat.mul_add, Nat.sub_add_cancel hg]
    simp only [transit, Label.reads, grants_append, grants_cons, grants_nil, Packet.grant, Nat.mul_add,
      List.length_nil, Nat.add_zero] at h ⊢
    omega
  | mark id => simpa [transit, Packet.grant, Label.reads] using h
  | receive g body rest hin =>
    rw [transit_receive hin]
    simpa [Label.reads] using h
  | receiveTag id rest hin =>
    rw [transit_receiveTag hin]
    simpa [Label.reads] using h
  | read m rest k hh =>
    have hlen : (m.take k).length + (m.drop k).length = m.length := by
      rw [← List.length_append, List.take_append_drop]
    simp only [transit, Label.reads, hh, List.cons_append, List.length_cons, List.flatten_cons,
      List.length_append] at h ⊢
    omega
  | finish m rest hh =>
    have howed : cap * ((y.owed + 1) % limit) ≤ cap * y.owed + cap := by
      rw [← Nat.mul_succ]
      exact Nat.mul_le_mul_left _ (Nat.mod_le _ _)
    simp only [transit, Label.reads, hh, List.cons_append, List.length_cons, List.flatten_cons,
      List.length_append, Nat.mul_add, Nat.mul_one] at h ⊢
    omega
  | _ => simpa [transit, Label.reads] using h

theorem Backlog.carry (h : Backlog cap w acc rd x y) {ps rest : List (Packet α)}
    (hout : x.outbox = ps ++ rest) :
    Backlog cap w acc rd { x with outbox := rest } { y with inbox := y.inbox ++ ps } := by
  rw [Backlog, transit_carry hout]
  exact h

/-- Packets of the other direction arrive. -/
theorem Backlog.carryBack (h : Backlog cap w acc rd x y) {ps rest : List (Packet α)}
    (hout : y.outbox = ps ++ rest) :
    Backlog cap w acc rd { x with inbox := x.inbox ++ ps } { y with outbox := rest } := by
  simp only [Backlog, transit, hout, grants_append, Nat.mul_add] at h ⊢
  omega

/-- Packets of the sending end are lost. -/
theorem Backlog.drop (h : Backlog cap w acc rd x y) (hb : Within cap (bodies x.outbox))
    {rest : List (Packet α)} (hs : rest.Sublist x.outbox) :
    Backlog cap w acc rd { x with outbox := rest } y := by
  have hshed := hb.shed (bodies_sublist hs)
  simp only [Backlog, transit_eq, List.length_append, List.flatten_append, Nat.mul_add] at h ⊢
  simp only [End.received] at h ⊢
  omega

/-- Packets of the other direction are lost, and their grants with them. -/
theorem Backlog.dropBack (h : Backlog cap w acc rd x y) {rest : List (Packet α)}
    (hs : rest.Sublist y.outbox) : Backlog cap w acc rd x { y with outbox := rest } := by
  have hle : cap * grants rest ≤ cap * grants y.outbox := Nat.mul_le_mul_left _ (grants_sublist hs)
  simp only [Backlog, transit, Nat.mul_add] at h ⊢
  omega

/-- The receiving end is shut, having granted at most what it owed. -/
theorem Backlog.shut (h : Backlog cap w acc rd x y) (hb : Within cap y.received)
    (hg : grants y'.outbox ≤ grants y.outbox + y.owed) : Backlog cap w acc rd x y'.shut := by
  have hsum := hb.flatten_le
  have hle : cap * grants y'.outbox ≤ cap * grants y.outbox + cap * y.owed := by
    rw [← Nat.mul_add]
    exact Nat.mul_le_mul_left _ hg
  simp only [Backlog, transit_eq, received_shut, List.length_append, List.flatten_append,
    Nat.mul_add] at h ⊢
  simp only [End.shut, List.length_nil, List.flatten_nil, Nat.mul_zero] at h ⊢
  omega

/-- Credits an end has given, owes, or will owe once it has read what it received. -/
def End.dues (y : End α) : Nat := grants y.outbox + y.owed + y.received.length

/-- No move makes them more. -/
theorem Move.dues_le (hm : Move limit y l y') : y'.dues ≤ y.dues := by
  simp only [End.dues, End.received, List.length_append]
  cases hm with
  | post xs g hcred hg hne =>
    simp only [grants_append, grants_cons, grants_nil, Packet.grant]
    omega
  | grant g hg =>
    simp only [grants_append, grants_cons, grants_nil, Packet.grant]
    omega
  | mark id => simp [Packet.grant]
  | receive g body rest hin =>
    simp only [hin, bodies_cons, List.length_append]
    omega
  | receiveTag id rest hin => simp [hin, Packet.bodies]
  | read m rest k hh => simp [hh]
  | finish m rest hh =>
    have hmod : (y.owed + 1) % limit ≤ y.owed + 1 := Nat.mod_le _ _
    simp only [hh, List.length_cons]
    omega
  | _ => exact Nat.le_refl _

/-! Whole runs of one end. -/

variable {ls : List (Label α)}

theorem Backlog.send_run (hr : Run (Move limit) x ls x') (h : Backlog cap w acc rd x y) :
    Backlog cap w (acc + (ls.flatMap Label.accepted).length) rd x' y := by
  induction hr with
  | nil => simpa using h
  | snoc _ hm ih =>
    have := ih.send hm
    simpa [List.flatMap_append, Nat.add_assoc] using this

theorem Backlog.recv_run (hr : Run (Move limit) y ls y') (h : Backlog cap w acc rd x y) :
    Backlog cap w acc (rd + (ls.flatMap Label.reads).length) x y' := by
  induction hr with
  | nil => simpa using h
  | snoc _ hm ih =>
    have := ih.recv hm
    simpa [List.flatMap_append, Nat.add_assoc] using this

/-- An end never lengthens what it has received. -/
theorem Within.received (h : Within cap y.received) (hm : Move limit y l y') : Within cap y'.received := by
  cases hm with
  | receive g body rest hin =>
    simp only [End.received, hin, bodies_cons, List.append_assoc] at h ⊢
    exact h
  | receiveTag id rest hin =>
    simp only [End.received, hin, bodies_cons, Packet.bodies, List.nil_append] at h ⊢
    exact h
  | read m rest k hh =>
    simp only [End.received, hh] at h ⊢
    intro n hn
    rcases List.mem_cons.mp hn with rfl | hn
    · have hm := h m (List.mem_cons_self ..)
      exact Nat.le_trans (by rw [List.length_drop]; exact Nat.sub_le _ _) hm
    · exact h n (List.mem_cons_of_mem _ hn)
  | finish m rest hh =>
    simp only [End.received, hh] at h ⊢
    exact fun n hn => h n (List.mem_cons_of_mem _ hn)
  | _ => exact h

theorem Within.received_run (hr : Run (Move limit) y ls y') (h : Within cap y.received) :
    Within cap y'.received :=
  hr.inv (I := fun e => Within cap e.received) (fun _ _ _ he hm => he.received hm) h

end Laws

end CreditLink
