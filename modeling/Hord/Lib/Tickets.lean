import Mathlib.Data.List.Basic

/- Requests that are answered later, each by an answer that gives its name. Names are
   reused, so an answer is for the oldest unanswered request of its name. Answers take as
   many requests off the unanswered ones as there are answers (`pending_settleAll`), and an
   answer that meets an unanswered request stays with it (`settleAll_answers`). -/
namespace Tickets

variable {κ α β : Type*} [DecidableEq κ]

/-- A request: its name, what it carries and its answer, once there is one. -/
structure Ticket (κ α β : Type*) where
  name : κ
  load : α
  answer : Option β
  deriving DecidableEq

/-- The unanswered requests of a name. -/
def pending (k : κ) (ts : List (Ticket κ α β)) : Nat :=
  ts.countP fun t => decide (t.name = k) && t.answer.isNone

/-- The oldest unanswered request of that name gets the answer. -/
def settle (k : κ) (b : β) : List (Ticket κ α β) → List (Ticket κ α β)
  | [] => []
  | t :: ts =>
    if t.name = k ∧ t.answer.isNone then { t with answer := some b } :: ts else t :: settle k b ts

/-- The answers come in one after the other. -/
def settleAll (ts : List (Ticket κ α β)) (as : List (κ × β)) : List (Ticket κ α β) :=
  as.foldl (fun ts a => settle a.1 a.2 ts) ts

section One
variable {k l : κ} {b c : β} {t : Ticket κ α β} {ts : List (Ticket κ α β)}

theorem pending_cons (k : κ) (t : Ticket κ α β) (ts : List (Ticket κ α β)) :
    pending k (t :: ts) = pending k ts + (decide (t.name = k) && t.answer.isNone).toNat := by
  rw [pending, pending, List.countP_cons]
  cases decide (t.name = k) && t.answer.isNone <;> rfl

/-- A request that is passed over is not of that name, or answered. -/
theorem not_pending (h : ¬(t.name = k ∧ t.answer.isNone = true)) :
    (decide (t.name = k) && t.answer.isNone) = false := by
  rw [Bool.eq_false_iff, ne_eq, Bool.and_eq_true, decide_eq_true_eq]
  exact h

theorem pending_append (k : κ) (ts us : List (Ticket κ α β)) :
    pending k (ts ++ us) = pending k ts + pending k us :=
  List.countP_append

theorem pending_settle (k l : κ) (b : β) (ts : List (Ticket κ α β)) :
    pending l (settle k b ts) = pending l ts - (decide (k = l)).toNat := by
  induction ts with
  | nil => simp [settle, pending]
  | cons t ts ih =>
    by_cases hit : t.name = k ∧ t.answer.isNone
    · rw [settle, if_pos hit, pending_cons, pending_cons, hit.1, hit.2]
      simp
    · rw [settle, if_neg hit, pending_cons, pending_cons, ih]
      by_cases hl : k = l
      · subst hl
        rw [not_pending hit]
        simp
      · simp [hl]

theorem settle_name (k : κ) (b : β) (ts : List (Ticket κ α β)) :
    (settle k b ts).map Ticket.name = ts.map Ticket.name := by
  induction ts with
  | nil => rfl
  | cons t ts ih =>
    rw [settle]
    split
    · rfl
    · rw [List.map_cons, List.map_cons, ih]

theorem settle_load (k : κ) (b : β) (ts : List (Ticket κ α β)) :
    (settle k b ts).map Ticket.load = ts.map Ticket.load := by
  induction ts with
  | nil => rfl
  | cons t ts ih =>
    rw [settle]
    split
    · rfl
    · rw [List.map_cons, List.map_cons, ih]

/-- What is answered stays answered. -/
theorem mem_settle (h : t ∈ ts) (ha : t.answer = some c) (k : κ) (b : β) : t ∈ settle k b ts := by
  induction ts with
  | nil => cases h
  | cons u ts ih =>
    rw [settle]
    split
    · next hit =>
      rcases List.mem_cons.mp h with rfl | h
      · rw [ha] at hit
        cases hit.2
      · exact List.mem_cons_of_mem _ h
    · rcases List.mem_cons.mp h with rfl | h
      · exact List.mem_cons_self ..
      · exact List.mem_cons_of_mem _ (ih h)

/-- An answer is an old one, or the one just given. -/
theorem of_mem_settle (h : t ∈ settle k b ts) (ha : t.answer = some c) :
    t ∈ ts ∨ t.name = k ∧ c = b := by
  induction ts with
  | nil => cases h
  | cons u ts ih =>
    rw [settle] at h
    split at h
    · next hit =>
      rcases List.mem_cons.mp h with rfl | h
      · exact .inr ⟨hit.1, (Option.some.inj ha).symm⟩
      · exact .inl (List.mem_cons_of_mem _ h)
    · rcases List.mem_cons.mp h with rfl | h
      · exact .inl (List.mem_cons_self ..)
      · exact (ih h).imp_left (List.mem_cons_of_mem _)

/-- An answer finds its request. -/
theorem settle_answers (h : 0 < pending k ts) (b : β) :
    ∃ t ∈ settle k b ts, t.answer = some b := by
  induction ts with
  | nil => cases h
  | cons u ts ih =>
    rw [settle]
    split
    · exact ⟨_, List.mem_cons_self .., rfl⟩
    · next hit =>
      rw [pending_cons, not_pending hit] at h
      obtain ⟨t, ht, ha⟩ := ih h
      exact ⟨t, List.mem_cons_of_mem _ ht, ha⟩

end One

section All
variable {k : κ} {b : β} {t : Ticket κ α β} {ts : List (Ticket κ α β)} {as : List (κ × β)}

theorem settleAll_cons (ts : List (Ticket κ α β)) (a : κ × β) (as : List (κ × β)) :
    settleAll ts (a :: as) = settleAll (settle a.1 a.2 ts) as := rfl

theorem pending_settleAll (k : κ) (as : List (κ × β)) (ts : List (Ticket κ α β)) :
    pending k (settleAll ts as) = pending k ts - as.countP fun a => decide (a.1 = k) := by
  induction as generalizing ts with
  | nil => rfl
  | cons a as ih =>
    rw [settleAll_cons, ih, pending_settle, List.countP_cons, Nat.sub_sub, Nat.add_comm]
    by_cases h : a.1 = k <;> simp [h]

theorem settleAll_name (as : List (κ × β)) (ts : List (Ticket κ α β)) :
    (settleAll ts as).map Ticket.name = ts.map Ticket.name := by
  induction as generalizing ts with
  | nil => rfl
  | cons a as ih => rw [settleAll_cons, ih, settle_name]

theorem settleAll_load (as : List (κ × β)) (ts : List (Ticket κ α β)) :
    (settleAll ts as).map Ticket.load = ts.map Ticket.load := by
  induction as generalizing ts with
  | nil => rfl
  | cons a as ih => rw [settleAll_cons, ih, settle_load]

theorem mem_settleAll (h : t ∈ ts) (ha : t.answer = some b) (as : List (κ × β)) : t ∈ settleAll ts as := by
  induction as generalizing ts with
  | nil => exact h
  | cons a as ih => exact ih (mem_settle h ha a.1 a.2)

theorem of_mem_settleAll (h : t ∈ settleAll ts as) (ha : t.answer = some b) :
    t ∈ ts ∨ (t.name, b) ∈ as := by
  induction as generalizing ts with
  | nil => exact .inl h
  | cons a as ih =>
    rcases ih h with hold | hnew
    · rcases of_mem_settle hold ha with hold | ⟨hname, rfl⟩
      · exact .inl hold
      · refine .inr ?_
        rw [hname]
        exact List.mem_cons_self ..
    · exact .inr (List.mem_cons_of_mem _ hnew)

/-- With enough unanswered requests of its name, an answer is kept. -/
theorem settleAll_answers {a : κ × β} (h : a ∈ as)
    (henough : (as.countP fun x => decide (x.1 = a.1)) ≤ pending a.1 ts) :
    ∃ t ∈ settleAll ts as, t.answer = some a.2 := by
  induction as generalizing ts with
  | nil => cases h
  | cons x as ih =>
    rw [settleAll_cons]
    rw [List.countP_cons] at henough
    rcases List.mem_cons.mp h with rfl | h
    · rw [decide_eq_true rfl, if_pos rfl] at henough
      obtain ⟨t, ht, ha⟩ := settle_answers (Nat.lt_of_lt_of_le (Nat.succ_pos _) henough) a.2
      exact ⟨t, mem_settleAll ht ha as, ha⟩
    · refine ih h ?_
      rw [pending_settle]
      by_cases hx : x.1 = a.1 <;> simp [hx] at henough ⊢ <;> omega

end All

end Tickets
