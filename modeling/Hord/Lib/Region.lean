import Mathlib.Data.List.Basic

/- Flat memory regions as lists, read and written a range at a time. `readAt`
   and `writeAt` are total; the lemmas say what they do inside the bounds: a
   range written is read back, and a range disjoint from the write is unchanged. -/
namespace Region

variable {α : Type*}

/-- The `n` cells starting at `off`. -/
def readAt (m : List α) (off n : Nat) : List α := (m.drop off).take n

/-- `m` with `src` laid down from `off` on. -/
def writeAt (m : List α) (off : Nat) (src : List α) : List α :=
  m.take off ++ src ++ m.drop (off + src.length)

theorem length_readAt {m : List α} {off n : Nat} (h : off + n ≤ m.length) :
    (readAt m off n).length = n := by
  simp only [readAt, List.length_take, List.length_drop]
  omega

theorem length_writeAt {m : List α} {off : Nat} {src : List α} (h : off + src.length ≤ m.length) :
    (writeAt m off src).length = m.length := by
  simp only [writeAt, List.length_append, List.length_take, List.length_drop]
  omega

theorem getElem?_readAt (m : List α) (off n i : Nat) :
    (readAt m off n)[i]? = if i < n then m[off + i]? else none := by
  simp only [readAt, List.getElem?_take, List.getElem?_drop]

theorem getElem?_writeAt {m : List α} {off : Nat} {src : List α}
    (h : off + src.length ≤ m.length) (i : Nat) :
    (writeAt m off src)[i]? =
      if i < off then m[i]? else if i < off + src.length then src[i - off]? else m[i]? := by
  have hlen : (m.take off).length = off := by simp only [List.length_take]; omega
  unfold writeAt
  rw [List.append_assoc, List.getElem?_append, hlen]
  split
  · next hi => rw [List.getElem?_take, if_pos hi]
  · next hi =>
    rw [List.getElem?_append]
    split
    · next hs => rw [if_pos (by omega)]
    · next hs =>
      rw [if_neg (by omega), List.getElem?_drop]
      congr 1
      omega

@[simp]
theorem readAt_zero (m : List α) (off : Nat) : readAt m off 0 = [] := by
  simp [readAt]

/-- A range read whole is the concatenation of its two halves. -/
theorem readAt_add (m : List α) (off n k : Nat) :
    readAt m off (n + k) = readAt m off n ++ readAt m (off + n) k := by
  simp only [readAt, List.take_add, List.drop_drop]

theorem take_readAt (m : List α) (off n k : Nat) :
    (readAt m off n).take k = readAt m off (min k n) := by
  simp only [readAt, List.take_take]

/-- Reading past a first block reads the second one. -/
theorem readAt_append_right {a b : List α} {off n : Nat} (h : a.length ≤ off) :
    readAt (a ++ b) off n = readAt b (off - a.length) n := by
  simp only [readAt, List.drop_append, List.drop_of_length_le h, List.nil_append]

/-- The first block of a concatenation is read back whole. -/
theorem readAt_append_left {a b : List α} {n : Nat} (h : a.length = n) :
    readAt (a ++ b) 0 n = a := by
  simp [readAt, ← h]

/-- Reading inside a first block does not see the second one. -/
theorem readAt_append_of_le {a b : List α} {off n : Nat} (h : off + n ≤ a.length) :
    readAt (a ++ b) off n = readAt a off n := by
  unfold readAt
  rw [List.drop_append_of_le_length (by omega), List.take_append_of_le_length (by rw [List.length_drop]; omega)]

/-- Reading inside a range just written reads the source. -/
theorem readAt_writeAt_inside {m : List α} {off : Nat} {src : List α}
    (h : off + src.length ≤ m.length) {i n : Nat} (hin : i + n ≤ src.length) :
    readAt (writeAt m off src) (off + i) n = readAt src i n := by
  apply List.ext_getElem?
  intro j
  rw [getElem?_readAt, getElem?_readAt, getElem?_writeAt h]
  split
  · next hj =>
    rw [if_neg (by omega), if_pos (by omega)]
    congr 1
    omega
  · rfl

theorem readAt_writeAt_same {m : List α} {off : Nat} {src : List α}
    (h : off + src.length ≤ m.length) :
    readAt (writeAt m off src) off src.length = src := by
  have := readAt_writeAt_inside h (i := 0) (n := src.length) (by omega)
  simpa [readAt] using this

/-- A range disjoint from the one written is unchanged. -/
theorem readAt_writeAt_disjoint {m : List α} {off : Nat} {src : List α}
    (h : off + src.length ≤ m.length) {o n : Nat} (hd : o + n ≤ off ∨ off + src.length ≤ o) :
    readAt (writeAt m off src) o n = readAt m o n := by
  apply List.ext_getElem?
  intro j
  rw [getElem?_readAt, getElem?_readAt, getElem?_writeAt h]
  split
  · next hj =>
    rcases hd with hd | hd
    · rw [if_pos (by omega)]
    · rw [if_neg (by omega), if_neg (by omega)]
  · rfl

end Region
