import Mathlib.Data.List.DropRight
import Mathlib.Tactic.IntervalCases

/- Text as a list of characters: trimming white space, cutting at the first separator, and
   reading numbers in a radix up to sixteen. A number printed with `Nat.toDigits` is read
   back whenever it fits (`fromStrRadix_toDigits`), and a text set between white space is
   found again by trimming (`trim_padded`, `trim_cut`). -/
namespace Text

/-- The characters with the Unicode property `White_Space`. -/
def isWhitespace (c : Char) : Bool :=
  let n := c.toNat
  (9 ≤ n && n ≤ 13) || n == 0x20 || n == 0x85 || n == 0xa0 || n == 0x1680 || (0x2000 ≤ n && n ≤ 0x200a) ||
    n == 0x2028 || n == 0x2029 || n == 0x202f || n == 0x205f || n == 0x3000

def trimStart (s : List Char) : List Char := s.dropWhile isWhitespace
def trimEnd (s : List Char) : List Char := s.rdropWhile isWhitespace
def trim (s : List Char) : List Char := trimEnd (trimStart s)

/-- The text before and after the first `sep`. -/
def splitOnce (sep : Char) : List Char → Option (List Char × List Char)
  | [] => none
  | c :: s => if c = sep then some ([], s) else (splitOnce sep s).map fun kv => (c :: kv.1, kv.2)

/-- The text after `pre`, if it starts with it. -/
def stripPrefix (pre s : List Char) : Option (List Char) :=
  if pre.isPrefixOf s then some (s.drop pre.length) else none

/-- Nothing but white space. -/
def Blank (s : List Char) : Prop := ∀ c ∈ s, isWhitespace c = true

instance Blank.decidable (s : List Char) : Decidable (Blank s) := List.decidableBAll _ s

/-- No white space at all. -/
def Solid (s : List Char) : Prop := ∀ c ∈ s, isWhitespace c = false

instance Solid.decidable (s : List Char) : Decidable (Solid s) := List.decidableBAll _ s

section Trimming
variable {a b s k v : List Char} {sep : Char}

theorem Blank.not_mem (h : Blank a) {c : Char} (hc : isWhitespace c = false) : c ∉ a := by
  intro hmem
  rw [h c hmem] at hc
  cases hc

theorem trimStart_solid (ha : Blank a) (hs : Solid s) (hne : s ≠ []) (b : List Char) :
    trimStart (a ++ s ++ b) = s ++ b := by
  rw [trimStart, List.append_assoc, List.dropWhile_append_of_pos ha]
  cases s with
  | nil => exact absurd rfl hne
  | cons c s =>
    have hc := hs c (List.mem_cons_self ..)
    exact List.dropWhile_cons_of_neg (by rw [hc]; decide)

theorem trimEnd_solid (hb : Blank b) (hs : Solid s) (hne : s ≠ []) (a : List Char) :
    trimEnd (a ++ s ++ b) = a ++ s := by
  have hrev : trimStart (b.reverse ++ s.reverse ++ a.reverse) = s.reverse ++ a.reverse :=
    trimStart_solid (fun c hc => hb c (List.mem_reverse.mp hc)) (fun c hc => hs c (List.mem_reverse.mp hc))
      (by simpa using hne) _
  have hall : trimEnd (a ++ s ++ b) = (trimStart (b.reverse ++ s.reverse ++ a.reverse)).reverse := by
    simp [trimEnd, trimStart, List.rdropWhile]
  rw [hall, hrev]
  simp

/-- White space around a text without any is trimmed off. -/
theorem trim_padded (ha : Blank a) (hs : Solid s) (hb : Blank b) : trim (a ++ s ++ b) = s := by
  by_cases hne : s = []
  · have hall : Blank (a ++ s ++ b) := by
      intro c hc
      rw [hne, List.append_nil] at hc
      exact (List.mem_append.mp hc).elim (ha c) (hb c)
    rw [trim, trimStart, List.dropWhile_eq_nil_iff.mpr hall, hne]
    rfl
  · have hend := trimEnd_solid hb hs hne []
    rw [List.nil_append] at hend
    rw [trim, trimStart_solid ha hs hne, hend]

theorem trim_solid (hs : Solid s) : trim s = s := by
  have h := trim_padded (a := []) (b := []) (fun _ hc => absurd hc List.not_mem_nil) hs
    (fun _ hc => absurd hc List.not_mem_nil)
  rwa [List.nil_append, List.append_nil] at h

theorem trim_blank (ha : Blank a) : trim a = [] := by
  have h := trim_padded (s := []) (b := []) ha (fun _ hc => absurd hc List.not_mem_nil)
    (fun _ hc => absurd hc List.not_mem_nil)
  rwa [List.append_nil, List.append_nil] at h

/-- Trimming a text with a separator in it trims the two outer ends. -/
theorem trim_cut (hsep : isWhitespace sep = false) (k v : List Char) :
    trim (k ++ sep :: v) = trimStart k ++ sep :: trimEnd v := by
  have hneg : ¬isWhitespace sep = true := by rw [hsep]; decide
  have hstart : trimStart (k ++ sep :: v) = trimStart k ++ sep :: v := by
    rw [trimStart, List.dropWhile_append, List.dropWhile_cons_of_neg hneg]
    split
    · next hnil => rw [trimStart, List.isEmpty_iff.mp hnil, List.nil_append]
    · rfl
  have hend : trimEnd (trimStart k ++ sep :: v) = trimStart k ++ sep :: trimEnd v := by
    rw [trimEnd, trimEnd, List.rdropWhile, List.rdropWhile, List.reverse_append, List.reverse_cons,
      List.append_assoc, List.dropWhile_append, List.singleton_append, List.dropWhile_cons_of_neg hneg]
    split
    · next hnil => simp [List.isEmpty_iff.mp hnil]
    · simp
  rw [trim, hstart, hend]

theorem trim_trimStart (s : List Char) : trim (trimStart s) = trim s := by
  rw [trim, trimStart, trimStart, List.dropWhile_idempotent, trim, trimStart]

/-- White space at the end makes no difference to what is left. -/
theorem trim_append_blank (hb : Blank b) (s : List Char) : trim (s ++ b) = trim s := by
  have hb' : ∀ c ∈ b.reverse, isWhitespace c = true := fun c hc => hb c (List.mem_reverse.mp hc)
  rw [trim, trimStart, List.dropWhile_append]
  split
  · next hnil =>
    rw [List.dropWhile_eq_nil_iff.mpr hb, trim, trimStart, List.isEmpty_iff.mp hnil]
  · rw [trim, trimStart, trimEnd, trimEnd, List.rdropWhile, List.rdropWhile, List.reverse_append,
      List.dropWhile_append_of_pos hb']

theorem trim_trimEnd (s : List Char) : trim (trimEnd s) = trim s := by
  have hblank : Blank (s.reverse.takeWhile isWhitespace).reverse := by
    intro c hc
    exact List.mem_takeWhile_imp (List.mem_reverse.mp hc)
  have hcut : s = trimEnd s ++ (s.reverse.takeWhile isWhitespace).reverse := by
    rw [trimEnd, List.rdropWhile, ← List.reverse_append, List.takeWhile_append_dropWhile, List.reverse_reverse]
  calc trim (trimEnd s) = trim (trimEnd s ++ (s.reverse.takeWhile isWhitespace).reverse) :=
        (trim_append_blank hblank _).symm
    _ = trim s := by rw [← hcut]

theorem trim_trim (s : List Char) : trim (trim s) = trim s := by
  calc trim (trim s) = trim (trimStart s) := trim_trimEnd (trimStart s)
    _ = trim s := trim_trimStart s

theorem stripPrefix_eq_some_iff {pre r : List Char} : stripPrefix pre s = some r ↔ s = pre ++ r := by
  rw [stripPrefix]
  split
  · next h =>
    obtain ⟨t, rfl⟩ := List.isPrefixOf_iff_prefix.mp h
    simp
  · next h =>
    simp only [reduceCtorEq, false_iff]
    rintro rfl
    exact h (List.isPrefixOf_iff_prefix.mpr (List.prefix_append _ _))

theorem splitOnce_cut (hk : sep ∉ k) (v : List Char) : splitOnce sep (k ++ sep :: v) = some (k, v) := by
  induction k with
  | nil => simp [splitOnce]
  | cons c k ih =>
    rw [List.mem_cons, not_or] at hk
    rw [List.cons_append, splitOnce, if_neg (Ne.symm hk.1), ih hk.2]
    rfl

theorem not_mem_trimStart (hk : sep ∉ k) : sep ∉ trimStart k :=
  fun h => hk ((List.dropWhile_suffix _).subset h)

theorem not_mem_trimEnd (hk : sep ∉ k) : sep ∉ trimEnd k :=
  fun h => hk ((List.rdropWhile_prefix _ _).subset h)

end Trimming

/-! Numbers. -/

/-- The value of a digit or letter. -/
def digitValue (c : Char) : Option Nat :=
  let n := c.toNat
  if 48 ≤ n ∧ n ≤ 57 then some (n - 48)
  else if 97 ≤ n ∧ n ≤ 122 then some (n - 97 + 10)
  else if 65 ≤ n ∧ n ≤ 90 then some (n - 65 + 10)
  else none

def digit (radix : Nat) (c : Char) : Option Nat := (digitValue c).filter (· < radix)

/-- The digits read onto `acc`, unless the number reaches `limit`. -/
def fromDigits (radix limit : Nat) : List Char → Nat → Option Nat
  | [], acc => some acc
  | c :: cs, acc =>
    match digit radix c with
    | none => none
    | some d => if acc * radix + d < limit then fromDigits radix limit cs (acc * radix + d) else none

/-- A number, with an optional plus sign in front. -/
def fromStrRadix (radix limit : Nat) : List Char → Option Nat
  | [] => none
  | ['+'] => none
  | '+' :: cs => fromDigits radix limit cs 0
  | cs => fromDigits radix limit cs 0

/-- The value of the digits `ds` read onto `acc`. -/
def valueFrom (radix : Nat) (ds : List Char) (acc : Nat) : Nat :=
  ds.foldl (fun acc c => acc * radix + (digit radix c).getD 0) acc

/-- One or more digits whose value is below `limit`, and nothing else. -/
structure Numeral (radix limit : Nat) (ds : List Char) : Prop where
  ne_nil : ds ≠ []
  digits : ∀ c ∈ ds, (digit radix c).isSome
  fits : valueFrom radix ds 0 < limit

instance Numeral.decidable (radix limit : Nat) (ds : List Char) : Decidable (Numeral radix limit ds) :=
  letI : Decidable (∀ c ∈ ds, (digit radix c).isSome) := List.decidableBAll _ ds
  decidable_of_iff (ds ≠ [] ∧ (∀ c ∈ ds, (digit radix c).isSome) ∧ valueFrom radix ds 0 < limit)
    ⟨fun h => ⟨h.1, h.2.1, h.2.2⟩, fun h => ⟨h.1, h.2, h.3⟩⟩

/-- Starts with a plus sign. -/
def Signed (s : List Char) : Prop := s.head? = some '+'

instance Signed.decidable (s : List Char) : Decidable (Signed s) := inferInstanceAs (Decidable (s.head? = some '+'))

/-- The text after an optional plus sign. -/
def dropPlus (s : List Char) : List Char := if Signed s then s.tail else s

section Numbers
variable {radix limit n : Nat}

theorem digit_digitChar {d : Nat} (hd : d < radix) (hr : radix ≤ 16) : digit radix d.digitChar = some d := by
  have hall : ∀ d < 16, digitValue d.digitChar = some d := by decide
  rw [digit, hall d (Nat.lt_of_lt_of_le hd hr)]
  simp [hd]

theorem fromDigits_append (ds es : List Char) (acc : Nat) :
    fromDigits radix limit (ds ++ es) acc = (fromDigits radix limit ds acc).bind (fromDigits radix limit es) := by
  induction ds generalizing acc with
  | nil => rfl
  | cons c ds ih =>
    rw [List.cons_append, fromDigits, fromDigits]
    cases digit radix c with
    | none => rfl
    | some d =>
      simp only
      split
      · exact ih _
      · rfl

theorem fromDigits_toDigits (hr : 1 < radix) (hr' : radix ≤ 16) (hn : n < limit) :
    fromDigits radix limit (Nat.toDigits radix n) 0 = some n := by
  induction n using Nat.strongRecOn with
  | ind n ih =>
    rw [Nat.toDigits_eq_if hr]
    split
    · next hlt =>
      rw [fromDigits, digit_digitChar hlt hr']
      simp only [Nat.zero_mul, Nat.zero_add, if_pos hn]
      rfl
    · next hge =>
      have hpos : 0 < radix := Nat.lt_trans Nat.zero_lt_one hr
      have hdiv : n / radix < n := Nat.div_lt_self (by omega) hr
      have hmod := Nat.mod_lt n hpos
      have hsum : n / radix * radix + n % radix = n := Nat.div_add_mod' n radix
      rw [fromDigits_append, ih (n / radix) hdiv (Nat.lt_trans hdiv hn), Option.bind_some, fromDigits,
        digit_digitChar hmod hr']
      simp only [hsum, if_pos hn]
      rfl

/-- The characters a number is printed with. -/
theorem mem_toDigits (hr : 1 < radix) (hr' : radix ≤ 16) {c : Char} (hc : c ∈ Nat.toDigits radix n) :
    ∃ d < 16, c = d.digitChar := by
  induction n using Nat.strongRecOn with
  | ind n ih =>
    rw [Nat.toDigits_eq_if hr] at hc
    split at hc
    · next hlt =>
      rw [List.mem_singleton] at hc
      exact ⟨n, Nat.lt_of_lt_of_le hlt hr', hc⟩
    · next hge =>
      rcases List.mem_append.mp hc with hc | hc
      · exact ih (n / radix) (Nat.div_lt_self (by omega) hr) hc
      · rw [List.mem_singleton] at hc
        exact ⟨n % radix, Nat.lt_of_lt_of_le (Nat.mod_lt n (by omega)) hr', hc⟩

/-- None of them is white space, a sign or a separator. -/
theorem toDigits_plain (hr : 1 < radix) (hr' : radix ≤ 16) {c : Char} (hc : c ∈ Nat.toDigits radix n) :
    isWhitespace c = false ∧ c ≠ ';' ∧ c ≠ '=' ∧ c ≠ '+' ∧ c ≠ 'x' ∧ c ≠ 'X' := by
  obtain ⟨d, hd, rfl⟩ := mem_toDigits hr hr' hc
  have hall : ∀ d < 16, isWhitespace d.digitChar = false ∧ d.digitChar ≠ ';' ∧ d.digitChar ≠ '=' ∧
      d.digitChar ≠ '+' ∧ d.digitChar ≠ 'x' ∧ d.digitChar ≠ 'X' := by decide
  exact hall d hd

/-! What the readers accept. -/

theorem le_valueFrom (hr : 0 < radix) (ds : List Char) (acc : Nat) : acc ≤ valueFrom radix ds acc := by
  induction ds generalizing acc with
  | nil => exact Nat.le_refl acc
  | cons c ds ih =>
    calc acc ≤ acc * radix := Nat.le_mul_of_pos_right acc hr
      _ ≤ acc * radix + (digit radix c).getD 0 := Nat.le_add_right _ _
      _ ≤ valueFrom radix (c :: ds) acc := ih _

/-- The digits are read exactly when every character is one and the whole number fits. -/
theorem fromDigits_eq_some_iff (hr : 0 < radix) (ds : List Char) (acc : Nat) (hacc : acc < limit) :
    fromDigits radix limit ds acc = some n ↔
      (∀ c ∈ ds, (digit radix c).isSome) ∧ valueFrom radix ds acc < limit ∧ valueFrom radix ds acc = n := by
  induction ds generalizing acc with
  | nil => simp [fromDigits, valueFrom, hacc]
  | cons c ds ih =>
    have hvalue : valueFrom radix (c :: ds) acc = valueFrom radix ds (acc * radix + (digit radix c).getD 0) := rfl
    rw [fromDigits, hvalue]
    cases hc : digit radix c with
    | none => simp [hc]
    | some d =>
      simp only [Option.getD_some, List.forall_mem_cons, hc, Option.isSome_some, true_and]
      split
      · next hfit => exact ih _ hfit
      · next hover =>
        -- a number past the limit does not come back below it
        have hle := le_valueFrom hr ds (acc * radix + d)
        simp only [reduceCtorEq, false_iff]
        omega

theorem digit_plus (radix : Nat) : digit radix '+' = none := rfl

/-- The reader takes a numeral with an optional plus sign, and nothing else. -/
theorem fromStrRadix_eq_some_iff (hr : 0 < radix) (hl : 0 < limit) (s : List Char) :
    fromStrRadix radix limit s = some n ↔ Numeral radix limit (dropPlus s) ∧ valueFrom radix (dropPlus s) 0 = n := by
  have hread : ∀ ds, ds ≠ [] → (fromDigits radix limit ds 0 = some n ↔
      Numeral radix limit ds ∧ valueFrom radix ds 0 = n) := by
    intro ds hne
    rw [fromDigits_eq_some_iff hr ds 0 hl]
    exact ⟨fun h => ⟨⟨hne, h.1, h.2.1⟩, h.2.2⟩, fun h => ⟨h.1.digits, h.1.fits, h.2⟩⟩
  have hempty : ¬Numeral radix limit [] := fun h => h.ne_nil rfl
  unfold fromStrRadix
  split
  · simp [dropPlus, Signed, hempty]
  · simp [dropPlus, Signed, hempty]
  · next cs hne =>
    rw [hread cs (fun h => hne (by rw [h]))]
    simp [dropPlus, Signed]
  · next hnil hsign hplus =>
    have hsigned : ¬Signed s := by
      intro h
      obtain ⟨cs, hcs⟩ := List.head?_eq_some_iff.mp h
      exact hplus cs hcs
    rw [hread s hnil, dropPlus, if_neg hsigned]

theorem Numeral.unsigned {s : List Char} (h : Numeral radix limit s) : ¬Signed s := by
  intro hhead
  have hplus := h.digits '+' (List.mem_of_mem_head? hhead)
  rw [digit_plus] at hplus
  cases hplus

/-- A text the reader takes is a numeral exactly when it has no sign. -/
theorem numeral_iff_unsigned (hr : 0 < radix) (hl : 0 < limit) {s : List Char}
    (h : (fromStrRadix radix limit s).isSome) : Numeral radix limit s ↔ ¬Signed s := by
  refine ⟨Numeral.unsigned, fun hsign => ?_⟩
  obtain ⟨n, hn⟩ := Option.isSome_iff_exists.mp h
  have hnum := ((fromStrRadix_eq_some_iff hr hl s).mp hn).1
  rwa [dropPlus, if_neg hsign] at hnum

/-- Numerals are read. -/
theorem Numeral.read (hr : 0 < radix) {s : List Char} (h : Numeral radix limit s) :
    fromStrRadix radix limit s = some (valueFrom radix s 0) := by
  have hl : 0 < limit := Nat.lt_of_le_of_lt (Nat.zero_le _) h.fits
  have hdrop : dropPlus s = s := by rw [dropPlus, if_neg h.unsigned]
  rw [fromStrRadix_eq_some_iff hr hl, hdrop]
  exact ⟨h, rfl⟩

theorem digitValue_of_digit {c : Char} (h : (digit radix c).isSome) : (digitValue c).isSome := by
  rw [digit] at h
  cases hc : digitValue c with
  | none => rw [hc] at h; cases h
  | some d => rfl

theorem isWhitespace_digit {c : Char} (h : (digit radix c).isSome) : isWhitespace c = false := by
  have hvalue := digitValue_of_digit h
  simp only [digitValue] at hvalue
  simp only [isWhitespace, Bool.or_eq_false_iff, Bool.and_eq_false_iff, decide_eq_false_iff_not, beq_eq_false_iff_ne]
  split at hvalue
  · omega
  · split at hvalue
    · omega
    · split at hvalue
      · omega
      · cases hvalue

theorem digit_ne {c d : Char} (h : (digit radix c).isSome) (hd : digit radix d = none) : c ≠ d := by
  rintro rfl
  rw [hd] at h
  cases h

theorem Numeral.solid {s : List Char} (h : Numeral radix limit s) : Solid s :=
  fun c hc => isWhitespace_digit (h.digits c hc)

theorem Numeral.not_mem {s : List Char} (h : Numeral radix limit s) {d : Char} (hd : digit radix d = none) : d ∉ s :=
  fun hc => digit_ne (h.digits d hc) hd rfl

/-- What a number that fits is printed as is a numeral of its value. -/
theorem numeral_toDigits (hr : 1 < radix) (hr' : radix ≤ 16) (hn : n < limit) :
    Numeral radix limit (Nat.toDigits radix n) ∧ valueFrom radix (Nat.toDigits radix n) 0 = n := by
  have hpos : 0 < radix := Nat.lt_trans Nat.zero_lt_one hr
  have hl : 0 < limit := Nat.lt_of_le_of_lt (Nat.zero_le n) hn
  obtain ⟨hdigits, hfits, hvalue⟩ :=
    (fromDigits_eq_some_iff hpos (Nat.toDigits radix n) 0 hl).mp (fromDigits_toDigits hr hr' hn)
  exact ⟨⟨Nat.toDigits_ne_nil, hdigits, hfits⟩, hvalue⟩

/-- A number that fits is read back. -/
theorem fromStrRadix_toDigits (hr : 1 < radix) (hr' : radix ≤ 16) (hn : n < limit) :
    fromStrRadix radix limit (Nat.toDigits radix n) = some n := by
  obtain ⟨hnum, hvalue⟩ := numeral_toDigits hr hr' hn
  rw [hnum.read (Nat.lt_trans Nat.zero_lt_one hr), hvalue]

end Numbers

end Text
