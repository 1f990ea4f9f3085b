import Mathlib.Data.List.Basic

/- Cutting a stretch of positions into pieces. `room a b` says that one piece can hold the
   positions from `a` up to `b`, and then it can hold any part of them (`Shrinks`). Cutting
   greedily, a piece ends where its room does. Where the pieces begin is then settled by the
   room alone (`Cut.begins_iff`), and no other way to cut needs fewer pieces
   (`Cut.covers_iff`). -/
namespace Cutting

variable {room : Nat → Nat → Prop} {a b c stop n : Nat} {xs : List Nat}

/-- A piece that holds a stretch holds every part of it. -/
structure Shrinks (room : Nat → Nat → Prop) : Prop where
  left : ∀ {a b c}, room a c → a ≤ b → room b c
  right : ∀ {a b c}, room a c → b ≤ c → room a b

/-- A piece from `a` to `b` can hold no more. -/
def Full (room : Nat → Nat → Prop) (a b : Nat) : Prop := a < b ∧ room a b ∧ ¬room a (b + 1)

/-- Where the pieces of the stretch up to `stop` begin, cut greedily. -/
inductive Begins (room : Nat → Nat → Prop) (stop : Nat) : Nat → Prop
  | first (h : 0 < stop) : Begins room stop 0
  | next {a b : Nat} (ha : Begins room stop a) (hfull : Full room a b) (h : b < stop) : Begins room stop b

/-- `n` pieces from `a` on reach `stop`. -/
inductive Covers (room : Nat → Nat → Prop) (stop : Nat) : Nat → Nat → Prop
  | done {n a : Nat} (h : stop ≤ a) : Covers room stop n a
  | piece {n a b : Nat} (h : room a b) (hrest : Covers room stop n b) : Covers room stop (n + 1) a

/-- Full pieces one after the other, from `a` to `c`: `xs` is where they begin. -/
inductive Cut (room : Nat → Nat → Prop) : Nat → List Nat → Nat → Prop
  | nil (a : Nat) : Cut room a [] a
  | cons {a b c : Nat} {xs : List Nat} (hfull : Full room a b) (hrest : Cut room b xs c) : Cut room a (a :: xs) c

theorem Full.unique (hs : Shrinks room) (hb : Full room a b) (hc : Full room a c) : b = c := by
  rcases Nat.lt_trichotomy b c with h | h | h
  · exact absurd (hs.right hc.2.1 h) hb.2.2
  · exact h
  · exact absurd (hs.right hb.2.1 h) hc.2.2

theorem Begins.lt (h : Begins room stop a) : a < stop := by
  cases h with
  | first h => exact h
  | next _ _ h => exact h

theorem Cut.le (h : Cut room a xs c) : a ≤ c := by
  induction h with
  | nil a => exact Nat.le_refl _
  | cons hfull _ ih => exact Nat.le_trans (Nat.le_of_lt hfull.1) ih

theorem Cut.append {ys : List Nat} (h : Cut room a xs b) (h' : Cut room b ys c) : Cut room a (xs ++ ys) c := by
  induction h with
  | nil a => exact h'
  | cons hfull _ ih => exact .cons hfull (ih h')

theorem Cut.begins (h : Cut room a xs c) (ha : Begins room stop a) (hc : c < stop) :
    ∀ x ∈ xs ++ [c], Begins room stop x := by
  induction h with
  | nil a =>
    intro x hx
    rw [List.nil_append, List.mem_singleton] at hx
    exact hx ▸ ha
  | cons hfull hrest ih =>
    intro x hx
    rcases List.mem_cons.mp hx with hx | hx
    · exact hx ▸ ha
    · exact ih (.next ha hfull (Nat.lt_of_le_of_lt hrest.le hc)) hc x hx

/-- What follows on a full piece of the cut. -/
theorem Cut.next_mem (hs : Shrinks room) (h : Cut room a xs c) {x y : Nat} (hx : x ∈ xs) (hfull : Full room x y) :
    y ∈ xs ++ [c] := by
  induction h with
  | nil a => cases hx
  | @cons a b c xs hab hrest ih =>
    rcases List.mem_cons.mp hx with rfl | hx
    · have hy : b = y := hab.unique hs hfull
      subst hy
      refine List.mem_cons_of_mem _ ?_
      cases hrest with
      | nil => exact List.mem_singleton_self _
      | cons => exact List.mem_cons_self ..
    · exact List.mem_cons_of_mem _ (ih hx)

/-- The pieces begin where the full ones do, and where the last does. -/
theorem Cut.begins_iff (hs : Shrinks room) (h : Cut room 0 xs c) (hc : c < stop) (hlast : room c stop) {x : Nat} :
    Begins room stop x ↔ x ∈ xs ++ [c] := by
  constructor
  · intro hx
    induction hx with
    | first _ =>
      cases h with
      | nil => exact List.mem_singleton_self _
      | cons => exact List.mem_cons_self ..
    | @next a b _ hfull hb ih =>
      rcases List.mem_append.mp ih with ha | ha
      · exact h.next_mem hs ha hfull
      · -- the last piece has room to the end
        rw [List.mem_singleton] at ha
        subst ha
        exact absurd (hs.right hlast hb) hfull.2.2
  · exact h.begins (.first (Nat.zero_lt_of_lt hc)) hc x

/-- Pieces that begin no later than those of the cut are at least as many. -/
theorem Cut.le_of_covers (hs : Shrinks room) (h : Cut room a xs c) (hc : c < stop) {d : Nat} (hd : d ≤ a)
    (hcov : Covers room stop n d) : xs.length + 1 ≤ n := by
  induction h generalizing d n with
  | nil a =>
    cases hcov with
    | done h => exact absurd (Nat.le_trans h hd) (Nat.not_le.mpr hc)
    | piece h hrest => exact Nat.succ_le_succ (Nat.zero_le _)
  | @cons a b c xs hfull hrest ih =>
    have hlt : a < stop := Nat.lt_of_lt_of_le hfull.1 (Nat.le_trans hrest.le (Nat.le_of_lt hc))
    cases hcov with
    | done h => exact absurd (Nat.le_trans h hd) (Nat.not_le.mpr hlt)
    | @piece m _ e h hcov =>
      have he : e ≤ b := by
        by_contra hlong
        exact hfull.2.2 (hs.right (hs.left h hd) (Nat.lt_of_not_le hlong))
      exact Nat.succ_le_succ (ih hc he hcov)

theorem Cut.covers (h : Cut room a xs c) (hlast : room c stop) : Covers room stop (xs.length + 1) a := by
  induction h with
  | nil a => exact .piece hlast (.done (Nat.le_refl _))
  | cons hfull _ ih => exact .piece hfull.2.1 (ih hlast)

theorem Covers.mono {m : Nat} (h : Covers room stop n a) (hm : n ≤ m) : Covers room stop m a := by
  induction h generalizing m with
  | done h => exact .done h
  | piece h _ ih =>
    obtain ⟨m, rfl⟩ := Nat.exists_eq_add_of_le' (Nat.one_le_of_lt hm)
    exact .piece h (ih (Nat.le_of_succ_le_succ hm))

/-- A shorter stretch, with at least the room, needs no more pieces. -/
theorem Covers.shorter {room' : Nat → Nat → Prop} {stop' : Nat} (h : Covers room stop n a)
    (hroom : ∀ b c, room b c → room' b c) (hstop : stop' ≤ stop) : Covers room' stop' n a := by
  induction h with
  | done h => exact .done (Nat.le_trans hstop h)
  | piece h _ ih => exact .piece (hroom _ _ h) ih

/-- Cutting greedily takes as few pieces as there can be. -/
theorem Cut.covers_iff (hs : Shrinks room) (h : Cut room 0 xs c) (hc : c < stop) (hlast : room c stop) :
    Covers room stop n 0 ↔ xs.length + 1 ≤ n :=
  ⟨fun hcov => h.le_of_covers hs hc (Nat.le_refl _) hcov, fun hle => (h.covers hlast).mono hle⟩

end Cutting
