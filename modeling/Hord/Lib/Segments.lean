import Mathlib.Data.List.Basic
import Mathlib.Data.List.Flatten

/- Cutting a stream into blocks of `cap` elements as it comes in. A sender keeps what
   does not fill a block yet; a flush sends that too. What has been sent after any
   sequence of inputs is a function of the pieces between the flushes alone
   (`fed_eq`), not of how a piece was handed over. -/
namespace Segments

variable {α : Type*} {cap : Nat}

/-- The whole blocks of `cap` elements at the front of a list. -/
def blocks (cap : Nat) (xs : List α) : List (List α) :=
  (List.range (xs.length / cap)).map fun i => (xs.drop (i * cap)).take cap

/-- What is left behind the whole blocks. -/
def remainder (cap : Nat) (xs : List α) : List α := xs.drop (xs.length / cap * cap)

/-- What a flush sends of a stage. -/
def ending (xs : List α) : List (List α) := if xs.isEmpty then [] else [xs]

/-- The segments of a piece that ends with a flush. -/
def messages (cap : Nat) (xs : List α) : List (List α) := blocks cap xs ++ ending (remainder cap xs)

section Blocks
variable {xs ys : List α}

theorem blocks_of_lt (h : xs.length < cap) : blocks cap xs = [] := by
  rw [blocks, Nat.div_eq_of_lt h]
  rfl

theorem remainder_of_lt (h : xs.length < cap) : remainder cap xs = xs := by
  rw [remainder, Nat.div_eq_of_lt h, Nat.zero_mul]
  rfl

/-- A list of at least `cap` elements starts with a block. -/
theorem blocks_of_le (hcap : 0 < cap) (h : cap ≤ xs.length) :
    blocks cap xs = xs.take cap :: blocks cap (xs.drop cap) := by
  have hdiv : xs.length / cap = (xs.drop cap).length / cap + 1 := by
    rw [List.length_drop, Nat.div_eq_sub_div hcap h]
  rw [blocks, hdiv, List.range_succ_eq_map, List.map_cons, List.map_map, Nat.zero_mul, List.drop_zero,
    blocks]
  congr 1
  apply List.map_congr_left
  intro i _
  show (xs.drop ((i + 1) * cap)).take cap = ((xs.drop cap).drop (i * cap)).take cap
  rw [List.drop_drop, Nat.succ_mul, Nat.add_comm]

theorem remainder_of_le (hcap : 0 < cap) (h : cap ≤ xs.length) :
    remainder cap xs = remainder cap (xs.drop cap) := by
  have hdiv : xs.length / cap = (xs.drop cap).length / cap + 1 := by
    rw [List.length_drop, Nat.div_eq_sub_div hcap h]
  rw [remainder, remainder, hdiv, List.drop_drop, Nat.succ_mul, Nat.add_comm]

/-- Blocks can be cut off before the rest of the list is known. -/
theorem blocks_append (hcap : 0 < cap) (xs ys : List α) :
    blocks cap (xs ++ ys) = blocks cap xs ++ blocks cap (remainder cap xs ++ ys) ∧
      remainder cap (xs ++ ys) = remainder cap (remainder cap xs ++ ys) := by
  -- by induction on the blocks of `xs`
  induction hn : xs.length using Nat.strongRecOn generalizing xs with
  | _ n ih =>
    by_cases hlt : xs.length < cap
    · rw [blocks_of_lt hlt, remainder_of_lt hlt]
      exact ⟨rfl, rfl⟩
    · have hle : cap ≤ xs.length := Nat.le_of_not_lt hlt
      have hle' : cap ≤ (xs ++ ys).length := by
        rw [List.length_append]
        omega
      have hdrop : (xs ++ ys).drop cap = xs.drop cap ++ ys := List.drop_append_of_le_length hle
      have htake : (xs ++ ys).take cap = xs.take cap := List.take_append_of_le_length hle
      obtain ⟨hb, hr⟩ := ih (xs.drop cap).length (by rw [List.length_drop]; omega) (xs.drop cap) rfl
      rw [blocks_of_le hcap hle', remainder_of_le hcap hle', blocks_of_le hcap hle,
        remainder_of_le hcap hle, hdrop, htake, hb, hr]
      exact ⟨rfl, rfl⟩

theorem blocks_flatten (hcap : 0 < cap) : (blocks cap xs).flatten ++ remainder cap xs = xs := by
  induction hn : xs.length using Nat.strongRecOn generalizing xs with
  | _ n ih =>
    by_cases hlt : xs.length < cap
    · rw [blocks_of_lt hlt, remainder_of_lt hlt]
      rfl
    · have hle : cap ≤ xs.length := Nat.le_of_not_lt hlt
      have hrest := ih (xs.drop cap).length (by rw [List.length_drop]; omega) rfl
      rw [blocks_of_le hcap hle, remainder_of_le hcap hle, List.flatten_cons, List.append_assoc, hrest,
        List.take_append_drop]

end Blocks

/-- What a sender is given. -/
inductive Input (α : Type*) where
  | put (xs : List α)
  | flush

/-- What has been sent, and what waits for the block to fill. -/
structure Sender (α : Type*) where
  sent : List (List α)
  stage : List α

def feed (cap : Nat) (u : Sender α) : Input α → Sender α
  | .put xs => ⟨u.sent ++ blocks cap (u.stage ++ xs), remainder cap (u.stage ++ xs)⟩
  | .flush => ⟨u.sent ++ ending u.stage, []⟩

section Feeding
variable {u : Sender α} {xs ys : List α}

/-- Too little for a block is kept. -/
theorem feed_put_short (h : (u.stage ++ xs).length < cap) :
    feed cap u (.put xs) = ⟨u.sent, u.stage ++ xs⟩ := by
  rw [feed, blocks_of_lt h, remainder_of_lt h, List.append_nil]

/-- What fills the block exactly is sent. -/
theorem feed_put_full (hcap : 0 < cap) (h : (u.stage ++ xs).length = cap) :
    feed cap u (.put xs) = ⟨u.sent ++ [u.stage ++ xs], []⟩ := by
  have hnil : ((u.stage ++ xs).drop cap).length < cap := by
    rw [List.length_drop]
    omega
  have hle : cap ≤ (u.stage ++ xs).length := Nat.le_of_eq h.symm
  rw [feed, blocks_of_le hcap hle, remainder_of_le hcap hle, blocks_of_lt hnil, remainder_of_lt hnil,
    List.drop_eq_nil_of_le (Nat.le_of_eq h), List.take_of_length_le (Nat.le_of_eq h)]

/-- Handing over in two parts is handing over the whole. -/
theorem feed_put_append (hcap : 0 < cap) :
    feed cap (feed cap u (.put xs)) (.put ys) = feed cap u (.put (xs ++ ys)) := by
  obtain ⟨hb, hr⟩ := blocks_append hcap (u.stage ++ xs) ys
  simp only [feed]
  rw [← List.append_assoc u.stage xs ys, hb, hr, List.append_assoc]

end Feeding

/-- The elements between two flushes, flush by flush, and those behind the last one. A
    flush with nothing in front of it cuts nothing off. -/
structure Pieces (α : Type*) where
  flushed : List (List α)
  last : List α
  deriving DecidableEq

def Pieces.add (c : Pieces α) : Input α → Pieces α
  | .put xs => { c with last := c.last ++ xs }
  | .flush => if c.last.isEmpty then c else ⟨c.flushed ++ [c.last], []⟩

def pieces (is : List (Input α)) : Pieces α := is.foldl Pieces.add ⟨[], []⟩

/-- What a sender with blocks of `cap` makes of the pieces. -/
def Pieces.sender (cap : Nat) (c : Pieces α) : Sender α :=
  ⟨c.flushed.flatMap (messages cap) ++ blocks cap c.last, remainder cap c.last⟩

theorem feed_sender (hcap : 0 < cap) (c : Pieces α) (i : Input α) :
    feed cap (c.sender cap) i = (c.add i).sender cap := by
  cases i with
  | put xs =>
    obtain ⟨hb, hr⟩ := blocks_append hcap c.last xs
    simp only [feed, Pieces.sender, Pieces.add]
    rw [hb, hr, List.append_assoc]
  | flush =>
    have hnil : blocks cap ([] : List α) = [] := blocks_of_lt hcap
    have hrem : remainder cap ([] : List α) = [] := remainder_of_lt hcap
    simp only [feed, Pieces.sender, Pieces.add]
    by_cases hlast : c.last = []
    · simp [hlast, hnil, hrem, ending]
    · have hnot : c.last.isEmpty = false := by simpa using hlast
      simp [hnot, hnil, hrem, messages]

/-- What a sender has sent and staged is a function of the pieces alone. -/
theorem fed_eq (hcap : 0 < cap) (is : List (Input α)) :
    is.foldl (feed cap) ⟨[], []⟩ = (pieces is).sender cap := by
  have hgen : ∀ c : Pieces α, is.foldl (feed cap) (c.sender cap) =
      (is.foldl Pieces.add c).sender cap := by
    induction is with
    | nil => exact fun c => rfl
    | cons i is ih =>
      intro c
      rw [List.foldl_cons, List.foldl_cons, feed_sender hcap, ih]
  have h0 : (⟨[], []⟩ : Sender α) = Pieces.sender cap ⟨[], []⟩ := by
    have hlt : ([] : List α).length < cap := hcap
    rw [Pieces.sender, blocks_of_lt hlt, remainder_of_lt hlt]
    rfl
  rw [h0]
  exact hgen ⟨[], []⟩

end Segments
