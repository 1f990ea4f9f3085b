import Mathlib.Data.List.Basic

/- Labelled transition systems. A `Run` is a finite sequence of steps together
   with the labels it emits, oldest first. The rules here are the ones every
   safety argument needs: an invariant that one step preserves holds after every
   run, and runs compose. -/
namespace Transition

variable {σ : Type*} {ℓ : Type*}

/-- `Run step s ls t`: from `s`, the steps labelled `ls` lead to `t`. -/
inductive Run (step : σ → ℓ → σ → Prop) : σ → List ℓ → σ → Prop
  | nil (s : σ) : Run step s [] s
  | snoc {s t u : σ} {ls : List ℓ} {l : ℓ} :
      Run step s ls t → step t l u → Run step s (ls ++ [l]) u

namespace Run

variable {step : σ → ℓ → σ → Prop} {s t u : σ} {ls ms : List ℓ} {l : ℓ}

theorem single (h : step s l t) : Run step s [l] t := by
  simpa using (Run.nil s).snoc h

theorem append (h₁ : Run step s ls t) (h₂ : Run step t ms u) : Run step s (ls ++ ms) u := by
  induction h₂ with
  | nil => simpa using h₁
  | snoc _ hstep ih =>
    rw [← List.append_assoc]
    exact ih.snoc hstep

theorem cons (h : step s l t) (hr : Run step t ls u) : Run step s (l :: ls) u :=
  (single h).append hr

theorem eq_of_nil (h : Run step s [] t) : t = s := by
  generalize hls : [] = ls at h
  cases h with
  | nil => rfl
  | snoc _ _ => simp at hls

/-- The first step of a run. -/
theorem uncons (h : Run step s (l :: ls) u) : ∃ t, step s l t ∧ Run step t ls u := by
  generalize hls : l :: ls = ms at h
  induction h generalizing ls with
  | nil => cases hls
  | @snoc t u ks k hr hs ih =>
    cases ks with
    | nil =>
      obtain rfl := hr.eq_of_nil
      cases hls
      exact ⟨u, hs, .nil u⟩
    | cons a ks =>
      injection hls with ha hks
      subst ha hks
      obtain ⟨v, hv, hrest⟩ := ih rfl
      exact ⟨v, hv, hrest.snoc hs⟩

/-- The last step of a run. -/
theorem unsnoc (h : Run step s (ls ++ [l]) u) : ∃ t, Run step s ls t ∧ step t l u := by
  generalize hms : ls ++ [l] = ms at h
  cases h with
  | nil => simp at hms
  | snoc hr hs =>
    obtain ⟨rfl, hl⟩ := List.append_inj' hms rfl
    cases hl
    exact ⟨_, hr, hs⟩

theorem mono {step' : σ → ℓ → σ → Prop} (hle : ∀ s l t, step s l t → step' s l t)
    (h : Run step s ls t) : Run step' s ls t := by
  induction h with
  | nil => exact .nil _
  | snoc _ hs ih => exact ih.snoc (hle _ _ _ hs)

/-- A run all of whose labels satisfy `P` is a run of the steps that do. -/
theorem restrict {P : ℓ → Prop} (h : Run step s ls t) (hP : ∀ l ∈ ls, P l) :
    Run (fun s l t => step s l t ∧ P l) s ls t := by
  induction h with
  | nil => exact .nil _
  | snoc _ hs ih =>
    exact (ih fun l hl => hP l (by simp [hl])).snoc ⟨hs, hP _ (by simp)⟩

theorem labels {P : ℓ → Prop} (h : Run (fun s l t => step s l t ∧ P l) s ls t) : ∀ l ∈ ls, P l := by
  induction h with
  | nil => exact nofun
  | snoc _ hs ih =>
    intro l hl
    rcases List.mem_append.mp hl with hl | hl
    · exact ih l hl
    · rw [List.mem_singleton] at hl
      exact hl ▸ hs.2

/-- An invariant kept by every step holds after every run. -/
theorem inv {I : σ → Prop} (hstep : ∀ s l t, I s → step s l t → I t)
    (h : Run step s ls t) (h0 : I s) : I t := by
  induction h with
  | nil => exact h0
  | snoc _ hs ih => exact hstep _ _ _ ih hs

/-- An invariant kept by every step whose label satisfies `P` holds after every
    run all of whose labels do. -/
theorem inv_of_labels {I : σ → Prop} {P : ℓ → Prop}
    (hstep : ∀ s l t, I s → P l → step s l t → I t)
    (h : Run step s ls t) (hP : ∀ l ∈ ls, P l) (h0 : I s) : I t := by
  induction h with
  | nil => exact h0
  | snoc _ hs ih =>
    refine hstep _ _ _ (ih fun l hl => hP l (by simp [hl])) (hP _ (by simp)) hs

/-- The same for a property of the state and of what has been emitted so far. -/
theorem inv_trace {I : List ℓ → σ → Prop}
    (hstep : ∀ ls s l t, I ls s → step s l t → I (ls ++ [l]) t)
    (h : Run step s ls t) (h0 : I [] s) : I ls t := by
  induction h with
  | nil => exact h0
  | snoc _ hs ih => exact hstep _ _ _ _ ih hs

end Run

/-! Runs that can be computed. -/

section Play
variable {κ : Type*} {step : σ → ℓ → σ → Prop} {exec : σ → κ → Option (ℓ × σ)} {guard : σ → ℓ → Bool}

/-- Carry commands out, each of them one step, as long as `guard` allows every step. -/
def play (exec : σ → κ → Option (ℓ × σ)) (guard : σ → ℓ → Bool) (s : σ) : List κ → Option (List ℓ × σ)
  | [] => some ([], s)
  | c :: cs =>
    match exec s c with
    | none => none
    | some (l, t) =>
      if guard s l then (play exec guard t cs).map fun (ls, u) => (l :: ls, u) else none

theorem play_run (hexec : ∀ s c l t, exec s c = some (l, t) → step s l t) (cs : List κ) {s u : σ}
    {ls : List ℓ} (h : play exec guard s cs = some (ls, u)) :
    Run (fun s l t => step s l t ∧ guard s l = true) s ls u := by
  induction cs generalizing s ls with
  | nil =>
    cases h
    exact .nil _
  | cons c cs ih =>
    simp only [play] at h
    split at h
    · cases h
    · next l t ht =>
      split at h
      · next hg =>
        simp only [Option.map_eq_some_iff] at h
        obtain ⟨⟨ms, v⟩, hms, heq⟩ := h
        cases heq
        exact .cons ⟨hexec s c l t ht, hg⟩ (ih hms)
      · cases h

/-- A script that ends well is a run that does. -/
theorem play_good (hexec : ∀ s c l t, exec s c = some (l, t) → step s l t) {cs : List κ} {s : σ}
    {good : List ℓ → σ → Bool} (h : (play exec guard s cs).any (fun r => good r.1 r.2) = true) :
    ∃ ls u, Run (fun s l t => step s l t ∧ guard s l = true) s ls u ∧ good ls u = true := by
  cases hp : play exec guard s cs with
  | none => rw [hp] at h; cases h
  | some r =>
    rw [hp] at h
    exact ⟨r.1, r.2, play_run hexec cs hp, h⟩

end Play

end Transition
