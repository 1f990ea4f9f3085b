import Mathlib.Algebra.Ring.Nat
import Mathlib.Data.List.Induction

/- Big-endian byte strings. `toBe w n` is the `w`-byte big-endian form of `n`
   (its value modulo `256 ^ w`), `ofBe` reads a byte string of any width back. -/
namespace BigEndian

/-- The `w`-byte big-endian form of `n`, reduced modulo `256 ^ w`. -/
def toBe : Nat → Nat → List UInt8
  | 0, _ => []
  | w + 1, n => toBe w (n / 256) ++ [UInt8.ofNat n]

/-- The number a big-endian byte string spells. -/
def ofBe (bs : List UInt8) : Nat := bs.foldl (fun acc b => acc * 256 + b.toNat) 0

@[simp]
theorem toBe_length (w n : Nat) : (toBe w n).length = w := by
  induction w generalizing n with
  | zero => rfl
  | succ w ih => simp [toBe, ih]

theorem ofBe_snoc (bs : List UInt8) (b : UInt8) : ofBe (bs ++ [b]) = ofBe bs * 256 + b.toNat := by
  simp [ofBe]

theorem ofBe_toBe (w n : Nat) : ofBe (toBe w n) = n % 256 ^ w := by
  induction w generalizing n with
  | zero => simp [toBe, ofBe, Nat.mod_one]
  | succ w ih =>
    have hsplit : n % (256 * 256 ^ w) = n % 256 + 256 * (n / 256 % 256 ^ w) := Nat.mod_mul
    rw [toBe, ofBe_snoc, ih, Nat.pow_succ', hsplit, UInt8.toNat_ofNat']
    omega

/-- A value that fits is read back exactly. -/
theorem ofBe_toBe_of_lt {w n : Nat} (h : n < 256 ^ w) : ofBe (toBe w n) = n := by
  rw [ofBe_toBe, Nat.mod_eq_of_lt h]

theorem ofBe_lt (bs : List UInt8) : ofBe bs < 256 ^ bs.length := by
  induction bs using List.reverseRecOn with
  | nil => simp [ofBe]
  | append_singleton bs b ih =>
    have hb := b.toNat_lt
    rw [ofBe_snoc, List.length_append, List.length_singleton, Nat.pow_succ]
    omega

theorem toBe_ofBe (bs : List UInt8) : toBe bs.length (ofBe bs) = bs := by
  induction bs using List.reverseRecOn with
  | nil => rfl
  | append_singleton bs b ih =>
    have hb := b.toNat_lt
    have hdiv : (ofBe bs * 256 + b.toNat) / 256 = ofBe bs := by omega
    have hlast : UInt8.ofNat (ofBe bs * 256 + b.toNat) = b := by
      apply UInt8.toNat_inj.mp
      simp only [UInt8.toNat_ofNat']
      omega
    rw [ofBe_snoc, List.length_append, List.length_singleton, toBe, hdiv, ih, hlast]

/-- The strings of one width that spell a number are its big-endian form. -/
theorem ofBe_eq_iff {bs : List UInt8} {w n : Nat} (hlen : bs.length = w) (hn : n < 256 ^ w) :
    ofBe bs = n ↔ bs = toBe w n := by
  constructor
  · rintro rfl
    rw [← hlen, toBe_ofBe]
  · rintro rfl
    exact ofBe_toBe_of_lt hn

end BigEndian
