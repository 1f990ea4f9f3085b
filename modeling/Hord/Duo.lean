import Hord.Party
import Hord.Traffic

/- Two endpoints and the reliable connection between them. Per direction, requests
   are carried out in posting order; a message, or the immediate of a write, lands in
   the oldest posted receive of the other end and waits while there is none; the
   completion of a carried request appears at any later time. Device refusals and the
   connection manager's events come at any time.

   A step of the pair is a step of each endpoint (`Duo.Step.party`). `Duo.Healthy` is
   the invariant the laws of the link rest on: both endpoints keep their own, each
   handshake is unsent, posted or delivered, and everything in transit is honest. -/
namespace Hord

open Region Prog Transition CreditLink

inductive Side where
  | left
  | right
  deriving DecidableEq

def Side.other : Side → Side
  | .left => .right
  | .right => .left

@[simp] theorem Side.other_other (x : Side) : x.other.other = x := by cases x <;> rfl
@[simp] theorem Side.other_ne (x : Side) : x.other ≠ x := by cases x <;> decide
@[simp] theorem Side.ne_other (x : Side) : x ≠ x.other := by cases x <;> decide

theorem Side.eq_or_other (x y : Side) : y = x ∨ y = x.other := by
  cases x <;> cases y <;> simp [Side.other]

structure Duo where
  left : Party
  right : Party
  deriving DecidableEq

namespace Duo

def get (d : Duo) : Side → Party
  | .left => d.left
  | .right => d.right

def set (d : Duo) (x : Side) (p : Party) : Duo :=
  match x with
  | .left => { d with left := p }
  | .right => { d with right := p }

@[simp] theorem get_set (d : Duo) (x : Side) (p : Party) : (d.set x p).get x = p := by
  cases x <;> rfl

@[simp] theorem get_set_other (d : Duo) (x : Side) (p : Party) :
    (d.set x p).get x.other = d.get x.other := by
  cases x <;> rfl

@[simp] theorem get_set_other' (d : Duo) (x : Side) (p : Party) :
    (d.set x.other p).get x = d.get x := by
  cases x <;> rfl

end Duo

/-- What a request of `s` brings to the receive `r` of the other end: nothing, unless
    it is a send or carries an immediate. -/
def HordStream.lands (s : HordStream) (r : RecvWr) : SendWr → Option (Bytes × Completion)
  | .send _ mr off len => some (readAt (s.region mr) off len, ⟨r.wrId, len, .recv, 0, 0⟩)
  | .write _ sges _ _ (some id) =>
    some ([], ⟨r.wrId, (sges.map Sge.length).sum, .recvRdmaWithImm, 0, id⟩)
  | .write _ _ _ _ none => none

def Party.carried (p : Party) (w : SendWr) (rest : List SendWr) : Party :=
  { p with stream := p.stream.carried w rest }

def Party.landed (p : Party) (r : RecvWr) (rs : List RecvWr) (bytes : Bytes) (wc : Completion) : Party :=
  { p with stream := p.stream.landed r rs bytes wc }

/-- What happened in one step of the pair. -/
inductive Event where
  | call (x : Side) (m : Hord.Move)
  | deliver (x : Side) (w : SendWr)
  | complete (x : Side) (w : SendWr) (wc : Completion)
  | reject (x : Side)
  | drop (x : Side)
  | oracle (x : Side)
  | cm (x : Side) (e : CmEvent)

def Move.isEnv : Hord.Move → Bool
  | .env => true
  | _ => false

inductive Duo.Step : Duo → Event → Duo → Prop
  /-- The owner of one end makes a call. -/
  | call (d : Duo) (x : Side) (m : Hord.Move) (p : Party) (h : Party.Step (d.get x) m p)
      (hm : m.isEnv = false) : Duo.Step d (.call x m) (d.set x p)
  /-- The oldest request is carried out and lands at the other end. -/
  | deliver (d : Duo) (x : Side) (w : SendWr) (rest : List SendWr) (r : RecvWr) (rs : List RecvWr)
      (bytes : Bytes) (wc : Completion) (hout : (d.get x).stream.conn.out = w :: rest)
      (hrq : (d.get x.other).stream.conn.rq = r :: rs)
      (hl : (d.get x).stream.lands r w = some (bytes, wc)) (hfit : bytes.length ≤ r.length) :
      Duo.Step d (.deliver x w)
        ((d.set x ((d.get x).carried w rest)).set x.other ((d.get x.other).landed r rs bytes wc))
  /-- A one-sided write without an immediate concerns no receive. -/
  | deliverWrite (d : Duo) (x : Side) (id : Nat) (sges : List Sge) (addr rkey : Nat)
      (rest : List SendWr) (hout : (d.get x).stream.conn.out = .write id sges addr rkey none :: rest) :
      Duo.Step d (.deliver x (.write id sges addr rkey none))
        (d.set x ((d.get x).carried (.write id sges addr rkey none) rest))
  /-- A request that was carried out completes, with any status. -/
  | complete (d : Duo) (x : Side) (ls rs : List SendWr) (w : SendWr) (wc : Completion)
      (h : (d.get x).stream.conn.await = ls ++ w :: rs) (hid : wc.wrId = w.wrId)
      (hop : wc.isSuccess = true → wc.opcode = w.opcode) :
      Duo.Step d (.complete x w wc) (d.set x { d.get x with stream :=
        { (d.get x).stream with conn :=
          { (d.get x).stream.conn with await := ls ++ rs, cq := (d.get x).stream.conn.cq ++ [wc] } } })
  /-- A posted receive is flushed. -/
  | reject (d : Duo) (x : Side) (ls rs : List RecvWr) (r : RecvWr) (wc : Completion)
      (h : (d.get x).stream.conn.rq = ls ++ r :: rs) (hid : wc.wrId = r.wrId)
      (hbad : wc.isSuccess = false) :
      Duo.Step d (.reject x) (d.set x { d.get x with stream :=
        { (d.get x).stream with conn :=
          { (d.get x).stream.conn with rq := ls ++ rs, cq := (d.get x).stream.conn.cq ++ [wc] } } })
  /-- A request is flushed without having been carried out. -/
  | drop (d : Duo) (x : Side) (ls rs : List SendWr) (w : SendWr) (wc : Completion)
      (h : (d.get x).stream.conn.out = ls ++ w :: rs) (hid : wc.wrId = w.wrId)
      (hbad : wc.isSuccess = false) :
      Duo.Step d (.drop x) (d.set x { d.get x with stream :=
        { (d.get x).stream with conn :=
          { (d.get x).stream.conn with out := ls ++ rs, cq := (d.get x).stream.conn.cq ++ [wc] } } })
  | oracle (d : Duo) (x : Side) (fs : List Bool) :
      Duo.Step d (.oracle x) (d.set x { d.get x with stream := (d.get x).stream.setFaults fs })
  | cm (d : Duo) (x : Side) (e : CmEvent) :
      Duo.Step d (.cm x e) (d.set x { d.get x with stream :=
        { (d.get x).stream with conn :=
          { (d.get x).stream.conn with cmq := (d.get x).stream.conn.cmq ++ [e] } } })

/-- Both ends as `new_common` returns them. -/
def Duo.Init (d : Duo) : Prop := ∀ x, (d.get x).Init

section Projection
variable {d e : Duo} {l : Event}

theorem lands_eq {s : HordStream} {r : RecvWr} {w : SendWr} {bytes : Bytes} {wc : Completion}
    (h : s.lands r w = some (bytes, wc)) : wc.wrId = r.wrId ∧ wc.isSuccess = true ∧
      ((∃ id mr off len, w = .send id mr off len ∧ bytes = readAt (s.region mr) off len ∧
          wc = ⟨r.wrId, len, .recv, 0, 0⟩) ∨
        ∃ id sges addr rkey imm, w = .write id sges addr rkey (some imm) ∧ bytes = [] ∧
          wc = ⟨r.wrId, (sges.map Sge.length).sum, .recvRdmaWithImm, 0, imm⟩) := by
  match w with
  | .send id mr off len =>
    cases h
    exact ⟨rfl, rfl, .inl ⟨id, mr, off, len, rfl, rfl, rfl⟩⟩
  | .write id sges addr rkey (some imm) =>
    cases h
    exact ⟨rfl, rfl, .inr ⟨id, sges, addr, rkey, imm, rfl, rfl, rfl⟩⟩
  | .write _ _ _ _ none => cases h

/-- Carrying a request out is a move of the device of its endpoint. -/
theorem Party.carried_step (p : Party) {w : SendWr} {rest : List SendWr}
    (hout : p.stream.conn.out = w :: rest) : Party.Step p .env (p.carried w rest) :=
  .env p _ (.carry p.stream w rest hout)

theorem Party.landed_step (p : Party) {s : HordStream} {w : SendWr} {r : RecvWr} {rs : List RecvWr}
    {bytes : Bytes} {wc : Completion} (hrq : p.stream.conn.rq = r :: rs)
    (hl : s.lands r w = some (bytes, wc)) (hfit : bytes.length ≤ r.length) :
    Party.Step p .env (p.landed r rs bytes wc) := by
  obtain ⟨hid, hok, hw⟩ := lands_eq hl
  refine .env p _ (.land p.stream r rs bytes wc hrq hid hok ?_ hfit)
  rcases hw with ⟨_, _, _, _, _, _, rfl⟩ | ⟨_, _, _, _, _, _, _, rfl⟩
  · exact .inl rfl
  · exact .inr rfl

/-- A step of the pair is a step of each endpoint, or leaves it alone. -/
theorem Duo.Step.party (h : Duo.Step d l e) (y : Side) :
    e.get y = d.get y ∨ ∃ m, Party.Step (d.get y) m (e.get y) := by
  have one : ∀ x m p, Party.Step (d.get x) m p → (d.set x p).get y = d.get y ∨
      ∃ m, Party.Step (d.get y) m ((d.set x p).get y) := by
    intro x m p hp
    rcases x.eq_or_other y with rfl | rfl
    · rw [Duo.get_set]
      exact .inr ⟨m, hp⟩
    · rw [Duo.get_set_other]
      exact .inl rfl
  cases h with
  | call x m p hp hm => exact one x m p hp
  | deliver x w rest r rs bytes wc hout hrq hl hfit =>
    right
    rcases x.eq_or_other y with rfl | rfl
    · rw [Duo.get_set_other', Duo.get_set]
      exact ⟨_, (d.get y).carried_step hout⟩
    · rw [Duo.get_set]
      exact ⟨_, (d.get x.other).landed_step hrq hl hfit⟩
  | deliverWrite x id sges addr rkey rest hout => exact one x _ _ ((d.get x).carried_step hout)
  | complete x ls rs w wc ha hid hop => exact one x _ _ (.env _ _ (.reap _ ls rs w wc ha hid hop))
  | reject x ls rs r wc hr hid hbad => exact one x _ _ (.env _ _ (.reject _ ls rs r wc hr hid hbad))
  | drop x ls rs w wc ho hid hbad => exact one x _ _ (.env _ _ (.flush _ ls rs w wc ho hid hbad))
  | oracle x fs => exact one x _ _ (.env _ _ (.oracle _ fs))
  | cm x ev => exact one x _ _ (.env _ _ (.cm _ ev))

theorem Duo.Step.ok (h : Duo.Step d l e) (hok : ∀ x, (d.get x).Ok) (x : Side) : (e.get x).Ok := by
  rcases h.party x with heq | ⟨m, hp⟩
  · rw [heq]
    exact hok x
  · exact hp.ok (hok x)

theorem Duo.Step.config (h : Duo.Step d l e) (x : Side) : (e.get x).config = (d.get x).config := by
  rcases h.party x with heq | ⟨m, hp⟩
  · rw [heq]
  · exact hp.config

end Projection

/-! Runs of the pair that can be computed. -/

/-- One step, as a script names it; completions are successful. -/
inductive Turn where
  | setup (x : Side)
  | act (x : Side) (a : Act)
  | deliver (x : Side)
  | complete (x : Side)
  | oracle (x : Side) (fs : List Bool)
  | cm (x : Side) (e : CmEvent)

def Duo.exec (d : Duo) : Turn → Option (Event × Duo)
  | .setup x => (d.get x).setup.map fun r => (.call x r.1, d.set x r.2)
  | .act x a => ((d.get x).exec (.act a)).map fun r => (.call x r.1, d.set x r.2)
  | .deliver x =>
    match (d.get x).stream.conn.out with
    | [] => none
    | .write id sges addr rkey none :: rest =>
      some (.deliver x (.write id sges addr rkey none),
        d.set x ((d.get x).carried (.write id sges addr rkey none) rest))
    | w :: rest =>
      match (d.get x.other).stream.conn.rq with
      | [] => none
      | r :: rs =>
        match (d.get x).stream.lands r w with
        | none => none
        | some (bytes, wc) =>
          if bytes.length ≤ r.length then
            some (.deliver x w, (d.set x ((d.get x).carried w rest)).set x.other
              ((d.get x.other).landed r rs bytes wc))
          else none
  | .complete x =>
    match (d.get x).stream.conn.await with
    | [] => none
    | w :: rs =>
      let wc : Completion := ⟨w.wrId, 0, w.opcode, 0, 0⟩
      some (.complete x w wc, d.set x { d.get x with stream :=
        { (d.get x).stream with conn :=
          { (d.get x).stream.conn with await := rs, cq := (d.get x).stream.conn.cq ++ [wc] } } })
  | .oracle x fs =>
    some (.oracle x, d.set x { d.get x with stream := (d.get x).stream.setFaults fs })
  | .cm x e =>
    some (.cm x e, d.set x { d.get x with stream :=
      { (d.get x).stream with conn :=
        { (d.get x).stream.conn with cmq := (d.get x).stream.conn.cmq ++ [e] } } })

/-- Carry a script out, as long as `guard` allows every step, and collect the events. -/
def Duo.script (guard : Duo → Event → Bool) (d : Duo) : List Turn → Option (List Event × Duo)
  | [] => some ([], d)
  | c :: cs =>
    match d.exec c with
    | none => none
    | some (l, e) =>
      if guard d l then (e.script guard cs).map fun r => (l :: r.1, r.2) else none

/-- Build two endpoints on connections the device never refuses and carry a script
    out. -/
def Duo.launch (guard : Duo → Event → Bool) (left right : HordConfig) (cs : List Turn) :
    Option (List Event × Duo) :=
  match newCommon (Connection.new 1) left, newCommon (Connection.new 1) right with
  | .ok s, .ok t => Duo.script guard ⟨⟨left, s, .fresh⟩, ⟨right, t, .fresh⟩⟩ cs
  | _, _ => none

theorem Party.setup_step {p q : Party} {m : Hord.Move} (h : p.setup = some (m, q)) :
    Party.Step p m q ∧ m.isEnv = false := by
  refine ⟨Party.exec_step (c := .setup) h, ?_⟩
  unfold Party.setup at h
  repeat' split at h
  all_goals
    first
    | cases h; rfl
    | cases h

theorem Party.act_step {p q : Party} {a : Act} {m : Hord.Move} (h : p.exec (.act a) = some (m, q)) :
    Party.Step p m q ∧ m.isEnv = false := by
  refine ⟨Party.exec_step h, ?_⟩
  simp only [Party.exec] at h
  repeat' split at h
  all_goals
    first
    | cases h; rfl
    | cases h

theorem Duo.exec_step {d e : Duo} {c : Turn} {l : Event} (h : d.exec c = some (l, e)) :
    Duo.Step d l e := by
  cases c with
  | setup x =>
    simp only [Duo.exec, Option.map_eq_some_iff] at h
    obtain ⟨⟨m, p⟩, hp, he⟩ := h
    cases he
    exact .call d x m p (Party.setup_step hp).1 (Party.setup_step hp).2
  | act x a =>
    simp only [Duo.exec, Option.map_eq_some_iff] at h
    obtain ⟨⟨m, p⟩, hp, he⟩ := h
    cases he
    exact .call d x m p (Party.act_step hp).1 (Party.act_step hp).2
  | deliver x =>
    simp only [Duo.exec] at h
    split at h
    · cases h
    · next id sges addr rkey rest hout =>
      cases h
      exact .deliverWrite d x id sges addr rkey rest hout
    · next w rest _ hout =>
      split at h
      · cases h
      · next r rs hrq =>
        split at h
        · cases h
        · next bytes wc hl =>
          split at h
          · next hfit =>
            cases h
            exact .deliver d x w rest r rs bytes wc hout hrq hl hfit
          · cases h
  | complete x =>
    simp only [Duo.exec] at h
    split at h
    · cases h
    · next w rs ha =>
      cases h
      exact .complete d x [] rs w _ ha rfl (fun _ => rfl)
  | oracle x fs => cases h; exact .oracle d x fs
  | cm x ev => cases h; exact .cm d x ev

theorem Duo.script_run {guard : Duo → Event → Bool} (cs : List Turn) {d e : Duo} {ls : List Event}
    (h : d.script guard cs = some (ls, e)) :
    Run (fun d l e => Duo.Step d l e ∧ guard d l = true) d ls e := by
  induction cs generalizing d ls with
  | nil => cases h; exact .nil _
  | cons c cs ih =>
    simp only [Duo.script] at h
    split at h
    · cases h
    · next l d' hd =>
      split at h
      · next hg =>
        simp only [Option.map_eq_some_iff] at h
        obtain ⟨⟨ms, e'⟩, hr, he⟩ := h
        cases he
        exact .cons ⟨Duo.exec_step hd, hg⟩ (ih hr)
      · cases h

theorem Duo.launch_run (guard : Duo → Event → Bool) (left right : HordConfig) (cs : List Turn)
    (good : List Event → Duo → Bool)
    (h : (Duo.launch guard left right cs).any (fun r => good r.1 r.2) = true) :
    ∃ d ls e, d.Init ∧ Run (fun d l e => Duo.Step d l e ∧ guard d l = true) d ls e ∧
      good ls e = true := by
  unfold Duo.launch at h
  split at h
  · next s t hs ht =>
    cases hrun : Duo.script guard ⟨⟨left, s, .fresh⟩, ⟨right, t, .fresh⟩⟩ cs with
    | none => rw [hrun] at h; cases h
    | some r =>
      rw [hrun] at h
      refine ⟨_, r.1, r.2, ?_, Duo.script_run cs hrun, h⟩
      intro x
      cases x with
      | left => exact ⟨rfl, 1, [], hs⟩
      | right => exact ⟨rfl, 1, [], ht⟩
  · cases h

/-- The same in two parts, each with its own guard. -/
theorem Duo.launch_run_then (guard guard' : Duo → Event → Bool) (left right : HordConfig)
    (cs cs' : List Turn) (good : List Event → Duo → List Event → Duo → Bool)
    (h : (Duo.launch guard left right cs).any (fun r =>
      (r.2.script guard' cs').any fun r' => good r.1 r.2 r'.1 r'.2) = true) :
    ∃ d ls e ms f, d.Init ∧ Run (fun d l e => Duo.Step d l e ∧ guard d l = true) d ls e ∧
      Run (fun d l e => Duo.Step d l e ∧ guard' d l = true) e ms f ∧ good ls e ms f = true := by
  obtain ⟨d, ls, e, hinit, hrun, hgood⟩ := Duo.launch_run guard left right cs
    (fun ls e => (e.script guard' cs').any fun r' => good ls e r'.1 r'.2) h
  cases hscript : e.script guard' cs' with
  | none => rw [hscript] at hgood; cases hgood
  | some r =>
    rw [hscript] at hgood
    exact ⟨d, ls, e, r.1, r.2, hinit, hrun, Duo.script_run cs' hscript, hgood⟩

end Hord
