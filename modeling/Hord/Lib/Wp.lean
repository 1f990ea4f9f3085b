/- Weakest preconditions for stateful, fallible programs (`EStateM`). A program
   run from `s` either returns a value or fails, and in both cases leaves a state;
   `wp x s Q` says that `Q` holds of that outcome and state. The equations below
   execute a program symbolically; a call is cut off by a lemma about the callee,
   weakened to what is needed with `wp_mono`. -/
namespace Prog

universe u
variable {ε σ α β : Type u}

/-- `Q` holds of the outcome of `x` from `s` and of the state it leaves. -/
def wp (x : EStateM ε σ α) (s : σ) (Q : Except ε α → σ → Prop) : Prop :=
  match x s with
  | .ok a t => Q (.ok a) t
  | .error e t => Q (.error e) t

theorem wp_mono {x : EStateM ε σ α} {s : σ} {Q R : Except ε α → σ → Prop}
    (h : wp x s Q) (hqr : ∀ r t, Q r t → R r t) : wp x s R := by
  unfold wp at *
  split
  · next heq => rw [heq] at h; exact hqr _ _ h
  · next heq => rw [heq] at h; exact hqr _ _ h

theorem wp_ok {x : EStateM ε σ α} {s t : σ} {a : α} {Q : Except ε α → σ → Prop}
    (h : wp x s Q) (hx : x s = .ok a t) : Q (.ok a) t := by
  unfold wp at h
  rwa [hx] at h

theorem wp_error {x : EStateM ε σ α} {s t : σ} {e : ε} {Q : Except ε α → σ → Prop}
    (h : wp x s Q) (hx : x s = .error e t) : Q (.error e) t := by
  unfold wp at h
  rwa [hx] at h

theorem wp_and {x : EStateM ε σ α} {s : σ} {Q R : Except ε α → σ → Prop}
    (hq : wp x s Q) (hr : wp x s R) : wp x s fun r t => Q r t ∧ R r t := by
  unfold wp at *
  split
  · next heq => rw [heq] at hq hr; exact ⟨hq, hr⟩
  · next heq => rw [heq] at hq hr; exact ⟨hq, hr⟩

theorem wp_false {x : EStateM ε σ α} {s : σ} (h : wp x s fun _ _ => False) : False := by
  unfold wp at h
  split at h
  · exact h
  · exact h

theorem wp_true (x : EStateM ε σ α) (s : σ) : wp x s fun _ _ => True := by
  unfold wp
  split <;> trivial

@[simp]
theorem wp_pure (a : α) (s : σ) (Q : Except ε α → σ → Prop) :
    wp (pure a : EStateM ε σ α) s Q ↔ Q (.ok a) s := Iff.rfl

@[simp]
theorem wp_throw (e : ε) (s : σ) (Q : Except ε α → σ → Prop) :
    wp (throw e : EStateM ε σ α) s Q ↔ Q (.error e) s := Iff.rfl

@[simp]
theorem wp_get (s : σ) (Q : Except ε σ → σ → Prop) :
    wp (get : EStateM ε σ σ) s Q ↔ Q (.ok s) s := Iff.rfl

@[simp]
theorem wp_bind (x : EStateM ε σ α) (f : α → EStateM ε σ β) (s : σ)
    (Q : Except ε β → σ → Prop) :
    wp (x >>= f) s Q ↔
      wp x s fun r t => match r with
        | .ok a => wp (f a) t Q
        | .error e => Q (.error e) t := by
  unfold wp
  simp only [bind, EStateM.bind]
  cases x s <;> rfl

@[simp]
theorem wp_map (f : α → β) (x : EStateM ε σ α) (s : σ) (Q : Except ε β → σ → Prop) :
    wp (f <$> x) s Q ↔ wp x s fun r t => Q (r.map f) t := by
  unfold wp
  simp only [Functor.map, EStateM.map]
  cases x s <;> rfl

@[simp]
theorem wp_ite {c : Prop} [Decidable c] (x y : EStateM ε σ α) (s : σ)
    (Q : Except ε α → σ → Prop) :
    wp (if c then x else y) s Q ↔ if c then wp x s Q else wp y s Q := by
  split <;> rfl

end Prog

namespace Prog

variable {ε σ : Type}

@[simp]
theorem wp_set (t s : σ) (Q : Except ε PUnit → σ → Prop) :
    wp (set t : EStateM ε σ PUnit) s Q ↔ Q (.ok ⟨⟩) t := Iff.rfl

@[simp]
theorem wp_modify (f : σ → σ) (s : σ) (Q : Except ε PUnit → σ → Prop) :
    wp (modify f : EStateM ε σ PUnit) s Q ↔ Q (.ok ⟨⟩) (f s) := Iff.rfl

end Prog

/-! Frames: what a program leaves as it was. -/

namespace Prog

variable {ε σ α β γ δ : Type}

/-- Whenever `x` returns, `f` of the state is as before; when it fails, at least `g` of
    that is. -/
def Keeps (f : σ → γ) (g : γ → δ) (x : EStateM ε σ α) : Prop :=
  ∀ s, wp x s fun r t => match r with
    | .ok _ => f t = f s
    | .error _ => g (f t) = g (f s)

/-- `x` never returns, and leaves `g` of `f` of the state as it was. -/
def Fails (f : σ → γ) (g : γ → δ) (x : EStateM ε σ α) : Prop :=
  ∀ s, wp x s fun r t => match r with
    | .ok _ => False
    | .error _ => g (f t) = g (f s)

namespace Keeps
variable {f : σ → γ} {g : γ → δ}

theorem ok {x : EStateM ε σ α} (h : Keeps f g x) {s t : σ} {a : α} (hx : x s = .ok a t) : f t = f s :=
  wp_ok (h s) hx

theorem error {x : EStateM ε σ α} (h : Keeps f g x) {s t : σ} {e : ε} (hx : x s = .error e t) :
    g (f t) = g (f s) :=
  wp_error (h s) hx

theorem pure (a : α) : Keeps f g (pure a : EStateM ε σ α) := fun _ => rfl

theorem throw (e : ε) : Keeps f g (throw e : EStateM ε σ α) := fun _ => rfl

theorem get : Keeps f g (get : EStateM ε σ σ) := fun _ => rfl

theorem modify {m : σ → σ} (h : ∀ s, f (m s) = f s) :
    Keeps f g (modify m : EStateM ε σ PUnit) := fun s => h s

theorem bind {x : EStateM ε σ α} {k : α → EStateM ε σ β} (hx : Keeps f g x)
    (hk : ∀ a, Keeps f g (k a)) : Keeps f g (x >>= k) := by
  intro s
  rw [wp_bind]
  refine wp_mono (hx s) ?_
  intro r t hr
  match r with
  | .error _ => exact hr
  | .ok a =>
    refine wp_mono (hk a t) ?_
    intro r u hu
    match r with
    | .error _ => exact hu.trans (congrArg g hr)
    | .ok b => exact hu.trans hr

theorem ite {c : Prop} [Decidable c] {x y : EStateM ε σ α} (hx : Keeps f g x) (hy : Keeps f g y) :
    Keeps f g (if c then x else y) := by
  split
  · exact hx
  · exact hy

end Keeps

end Prog

/-! Agreement: two programs that do the same from one state. -/

namespace Prog

variable {ε σ α β : Type}

/-- They agree on what comes first and, from what it leaves, on the rest. -/
theorem bind_agree {x y : EStateM ε σ α} {k l : α → EStateM ε σ β} {s : σ} (hx : x s = y s)
    (hk : wp y s fun r t => ∀ a, r = .ok a → k a t = l a t) : (x >>= k) s = (y >>= l) s := by
  simp only [bind, EStateM.bind, hx]
  unfold wp at hk
  split at hk
  · next heq =>
    rw [heq]
    exact hk _ rfl
  · next heq => rw [heq]

theorem bind_ok {x : EStateM ε σ α} {k : α → EStateM ε σ β} {s t : σ} {a : α} (h : x s = .ok a t) :
    (x >>= k) s = k a t := by
  simp only [bind, EStateM.bind, h]

theorem get_agree {k l : σ → EStateM ε σ β} {s : σ} (h : k s s = l s s) : (get >>= k) s = (get >>= l) s := h

theorem ite_agree {c : Prop} [Decidable c] {x y x' y' : EStateM ε σ α} {s : σ} (hx : c → x s = x' s)
    (hy : ¬c → y s = y' s) : (if c then x else y) s = (if c then x' else y') s := by
  by_cases hc : c
  · rw [if_pos hc, if_pos hc]
    exact hx hc
  · rw [if_neg hc, if_neg hc]
    exact hy hc

theorem map_agree {x y : EStateM ε σ α} {s : σ} (f : α → β) (h : x s = y s) : (f <$> x) s = (f <$> y) s := by
  simp only [Functor.map, EStateM.map, h]

/-- What holds of one program's outcome holds of the other's. -/
theorem wp_agree {x y : EStateM ε σ α} {s : σ} {Q : Except ε α → σ → Prop} (h : x s = y s)
    (hq : wp y s Q) : wp x s Q := by
  unfold wp at *
  rw [h]
  exact hq

end Prog

/-! Scopes: what is let go when a call in them fails. -/

namespace Prog

variable {ε σ α : Type}

/-- `x` with values in scope: when `x` fails they are dropped, and the error goes on. A drop
    returns nothing and cannot fail. -/
def orDrop (x : EStateM ε σ α) (drops : σ → σ) : EStateM ε σ α := fun s =>
  match x s with
  | .ok a t => .ok a t
  | .error e t => .error e (drops t)

theorem wp_orDrop (x : EStateM ε σ α) (drops : σ → σ) (s : σ) (Q : Except ε α → σ → Prop) :
    wp (orDrop x drops) s Q ↔ wp x s fun r t => match r with
      | .ok a => Q (.ok a) t
      | .error e => Q (.error e) (drops t) := by
  unfold wp orDrop
  cases x s <;> rfl

end Prog
