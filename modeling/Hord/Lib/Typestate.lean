import Mathlib.Data.List.Basic

/- Protocols of calls on objects. `next` is the protocol of one object: a machine that takes
   the calls made on it, one after another, and refuses one made out of turn. A trace holds
   the calls on many objects; an object is at a state (`At`) when its own calls, in the order
   of the trace, have been taken and led there. A call on one object moves that object only
   (`At.call`, `At.other`). What calls make of a resource is held at the end, or was given
   up by other calls in one of two ways, if that is so of each call (`after_count`). -/
namespace Typestate

variable {σ κ ι : Type*}

/-- The state after the calls, if none was out of turn. -/
def after (next : σ → κ → Option σ) (s : σ) (ks : List κ) : Option σ := ks.foldlM next s

/-- The calls on one object. -/
def callsOn [DecidableEq ι] (o : ι) (log : List (ι × κ)) : List κ :=
  log.filterMap fun e => if e.1 = o then some e.2 else none

/-- Object `o`, which was at `init`, is at `s`. -/
def At [DecidableEq ι] (next : σ → κ → Option σ) (init : σ) (o : ι) (log : List (ι × κ)) (s : σ) : Prop :=
  after next init (callsOn o log) = some s

section One
variable {next : σ → κ → Option σ} {s t : σ} {c : κ} {ks ms : List κ}

theorem after_append (next : σ → κ → Option σ) (s : σ) (ks ms : List κ) :
    after next s (ks ++ ms) = (after next s ks).bind fun t => after next t ms :=
  List.foldlM_append

theorem after_trans (h : after next s ks = some t) (ms : List κ) :
    after next s (ks ++ ms) = after next t ms := by
  rw [after_append, h, Option.bind_some]

/-- Where each call that is taken keeps account of what is held, so do all of them. -/
theorem after_count {makes frees leaves : κ → Bool} {held : σ → Nat}
    (hstep : ∀ s c t, next s c = some t →
      held s + (makes c).toNat = held t + (frees c).toNat + (leaves c).toNat)
    (h : after next s ks = some t) :
    held s + ks.countP makes = held t + ks.countP frees + ks.countP leaves := by
  induction ks generalizing s with
  | nil =>
    obtain rfl : s = t := Option.some.inj h
    simp
  | cons c ks ih =>
    rw [after, List.foldlM_cons, Option.bind_eq_bind, Option.bind_eq_some_iff] at h
    obtain ⟨u, hc, hrest⟩ := h
    have hone := hstep s c u hc
    have hmore := ih hrest
    have hcount : ∀ p : κ → Bool, (c :: ks).countP p = ks.countP p + (p c).toNat := by
      intro p
      rw [List.countP_cons]
      cases p c with
      | true => rfl
      | false => rfl
    rw [hcount, hcount, hcount]
    omega

end One

section Many
variable [DecidableEq ι] {next : σ → κ → Option σ} {init s t : σ} {o p : ι} {log ms : List (ι × κ)} {c : κ}

theorem callsOn_append (o : ι) (log ms : List (ι × κ)) : callsOn o (log ++ ms) = callsOn o log ++ callsOn o ms :=
  List.filterMap_append

theorem callsOn_cons_self (o : ι) (c : κ) (ms : List (ι × κ)) : callsOn o ((o, c) :: ms) = c :: callsOn o ms := by
  simp [callsOn]

theorem callsOn_cons_other (h : p ≠ o) (c : κ) (ms : List (ι × κ)) : callsOn o ((p, c) :: ms) = callsOn o ms := by
  simp [callsOn, h]

theorem callsOn_eq_nil (h : ∀ e ∈ log, e.1 ≠ o) : callsOn o log = [] := by
  rw [callsOn, List.filterMap_eq_nil_iff]
  intro e he
  exact if_neg (h e he)

theorem At.start (h : callsOn o log = []) : At next init o log init := by
  rw [At, h]
  rfl

theorem At.append (h : At next init o log s) (hms : after next s (callsOn o ms) = some t) :
    At next init o (log ++ ms) t := by
  rw [At, callsOn_append, after_trans h]
  exact hms

/-- A call in turn. -/
theorem At.call (h : At next init o log s) (hc : next s c = some t) : At next init o (log ++ [(o, c)]) t := by
  refine h.append ?_
  rw [callsOn_cons_self]
  simp only [callsOn, after, List.filterMap_nil, List.foldlM_cons, hc, List.foldlM_nil]
  rfl

/-- A call on another object. -/
theorem At.other (h : At next init o log s) (hp : p ≠ o) (c : κ) : At next init o (log ++ [(p, c)]) s := by
  refine h.append ?_
  rw [callsOn_cons_other hp]
  rfl

theorem At.unique (h : At next init o log s) (h' : At next init o log t) : s = t :=
  Option.some.inj (h.symm.trans h')

end Many

end Typestate
