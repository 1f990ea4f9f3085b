import Mathlib.Data.List.Basic
import Mathlib.Data.Char

/- Texts as bytes. `encode` is UTF-8; `decodeLossy` reads any bytes at all, and puts a
   replacement character for each broken sequence, as far as the sequence was well formed
   (`String::from_utf8_lossy`). What is encoded is read back, whatever follows it
   (`decodeLossy_encode_append`), and ASCII characters are bytes of their own: they stand in
   the bytes exactly where they stand in the text. -/
namespace Utf8

/-- UTF-8. -/
def encode (s : List Char) : List UInt8 := s.flatMap String.utf8EncodeChar

/-- U+FFFD. -/
def replacement : Char := Char.ofNat 0xFFFD

/-- The byte at `i`, zero past the end. -/
def byteAt (bs : List UInt8) (i : Nat) : Nat := (bs.getD i 0).toNat

/-- A byte that continues a sequence. -/
def IsCont (b : Nat) : Prop := 0x80 ≤ b ∧ b ≤ 0xBF

instance IsCont.decidable (b : Nat) : Decidable (IsCont b) := inferInstanceAs (Decidable (_ ∧ _))

/-- The second byte of a sequence of three. -/
def Second3 (b c : Nat) : Prop :=
  (b = 0xE0 ∧ 0xA0 ≤ c ∧ c ≤ 0xBF) ∨ (0xE1 ≤ b ∧ b ≤ 0xEC ∧ IsCont c) ∨ (b = 0xED ∧ 0x80 ≤ c ∧ c ≤ 0x9F) ∨
    (0xEE ≤ b ∧ b ≤ 0xEF ∧ IsCont c)

instance Second3.decidable (b c : Nat) : Decidable (Second3 b c) := inferInstanceAs (Decidable (_ ∨ _))

/-- The second byte of a sequence of four. -/
def Second4 (b c : Nat) : Prop :=
  (b = 0xF0 ∧ 0x90 ≤ c ∧ c ≤ 0xBF) ∨ (0xF1 ≤ b ∧ b ≤ 0xF3 ∧ IsCont c) ∨ (b = 0xF4 ∧ 0x80 ≤ c ∧ c ≤ 0x8F)

instance Second4.decidable (b c : Nat) : Decidable (Second4 b c) := inferInstanceAs (Decidable (_ ∨ _))

/-- The character that starts with the byte `b`, and how many of the bytes `bs` after it
    belong to it: a replacement takes as many as could have been part of one. -/
def first (b : Nat) (bs : List UInt8) : Char × Nat :=
  if b < 0x80 then (Char.ofNat b, 0)
  else if 0xC2 ≤ b ∧ b ≤ 0xDF then
    if IsCont (byteAt bs 0) then (Char.ofNat (b % 32 * 64 + byteAt bs 0 % 64), 1) else (replacement, 0)
  else if 0xE0 ≤ b ∧ b ≤ 0xEF then
    if Second3 b (byteAt bs 0) then
      if IsCont (byteAt bs 1) then (Char.ofNat (b % 16 * 4096 + byteAt bs 0 % 64 * 64 + byteAt bs 1 % 64), 2)
      else (replacement, 1)
    else (replacement, 0)
  else if 0xF0 ≤ b ∧ b ≤ 0xF4 then
    if Second4 b (byteAt bs 0) then
      if IsCont (byteAt bs 1) then
        if IsCont (byteAt bs 2) then
          (Char.ofNat (b % 8 * 262144 + byteAt bs 0 % 64 * 4096 + byteAt bs 1 % 64 * 64 + byteAt bs 2 % 64), 3)
        else (replacement, 2)
      else (replacement, 1)
    else (replacement, 0)
  else (replacement, 0)

def decodeLossy : List UInt8 → List Char
  | [] => []
  | b :: bs => (first b.toNat bs).1 :: decodeLossy (bs.drop (first b.toNat bs).2)
termination_by bs => bs.length
decreasing_by
  simp only [List.length_drop, List.length_cons]
  omega

section RoundTrip
variable {s t : List Char} {c : Char}

@[simp]
theorem encode_nil : encode [] = [] := rfl

@[simp]
theorem encode_cons (c : Char) (s : List Char) : encode (c :: s) = String.utf8EncodeChar c ++ encode s := rfl

@[simp]
theorem encode_append (s t : List Char) : encode (s ++ t) = encode s ++ encode t := List.flatMap_append

/-- A character is a number that is not a surrogate. -/
theorem toNat_valid (c : Char) : c.toNat < 0xD800 ∨ (0xDFFF < c.toNat ∧ c.toNat < 0x110000) := c.valid

theorem toNat_ofNat_byte {n : Nat} (h : n < 256) : (UInt8.ofNat n).toNat = n := by
  rw [UInt8.toNat_ofNat']
  exact Nat.mod_eq_of_lt h

theorem byteAt_cons_zero (b : UInt8) (bs : List UInt8) : byteAt (b :: bs) 0 = b.toNat := rfl

theorem byteAt_cons_succ (b : UInt8) (bs : List UInt8) (i : Nat) : byteAt (b :: bs) (i + 1) = byteAt bs i := rfl

/-- The bytes of a character are read as the character. -/
theorem first_encode (c : Char) (rest : List UInt8) : ∃ b bs, String.utf8EncodeChar c = b :: bs ∧
    first b.toNat (bs ++ rest) = (c, bs.length) := by
  have hvalid := toNat_valid c
  have hself : Char.ofNat c.toNat = c := Char.ofNat_toNat c
  have hval : c.val.toNat = c.toNat := rfl
  simp only [String.utf8EncodeChar, hval]
  generalize hv : c.toNat = v at hvalid hself
  by_cases h1 : v ≤ 0x7f
  · refine ⟨_, _, if_pos h1, ?_⟩
    rw [toNat_ofNat_byte (by omega), first, if_pos (by omega), hself]
    rfl
  rw [if_neg h1]
  by_cases h2 : v ≤ 0x7ff
  · refine ⟨_, _, if_pos h2, ?_⟩
    have hcont : IsCont (v % 64 + 128) := ⟨by omega, by omega⟩
    have hnum : (v / 64 % 32 + 192) % 32 * 64 + (v % 64 + 128) % 64 = v := by omega
    rw [toNat_ofNat_byte (by omega), first, if_neg (by omega), if_pos (by omega)]
    simp only [List.cons_append, byteAt_cons_zero, toNat_ofNat_byte (show v % 64 + 128 < 256 by omega), if_pos hcont, hnum,
      hself]
    rfl
  rw [if_neg h2]
  by_cases h3 : v ≤ 0xffff
  · refine ⟨_, _, if_pos h3, ?_⟩
    have hsecond : Second3 (v / 4096 % 16 + 224) (v / 64 % 64 + 128) := by
      unfold Second3 IsCont
      omega
    have hcont : IsCont (v % 64 + 128) := ⟨by omega, by omega⟩
    have hnum : (v / 4096 % 16 + 224) % 16 * 4096 + (v / 64 % 64 + 128) % 64 * 64 + (v % 64 + 128) % 64 = v := by omega
    rw [toNat_ofNat_byte (by omega), first, if_neg (by omega), if_neg (by omega), if_pos (by omega)]
    simp only [List.cons_append, byteAt_cons_zero, byteAt_cons_succ, toNat_ofNat_byte (show v % 64 + 128 < 256 by omega),
      toNat_ofNat_byte (show v / 64 % 64 + 128 < 256 by omega), if_pos hsecond, if_pos hcont, hnum, hself]
    rfl
  · refine ⟨_, _, if_neg h3, ?_⟩
    have hsecond : Second4 (v / 262144 % 8 + 240) (v / 4096 % 64 + 128) := by
      unfold Second4 IsCont
      omega
    have hcont : IsCont (v % 64 + 128) := ⟨by omega, by omega⟩
    have hcont' : IsCont (v / 64 % 64 + 128) := ⟨by omega, by omega⟩
    have hnum : (v / 262144 % 8 + 240) % 8 * 262144 + (v / 4096 % 64 + 128) % 64 * 4096 +
        (v / 64 % 64 + 128) % 64 * 64 + (v % 64 + 128) % 64 = v := by omega
    rw [toNat_ofNat_byte (by omega), first, if_neg (by omega), if_neg (by omega), if_neg (by omega), if_pos (by omega)]
    simp only [List.cons_append, byteAt_cons_zero, byteAt_cons_succ, toNat_ofNat_byte (show v % 64 + 128 < 256 by omega),
      toNat_ofNat_byte (show v / 64 % 64 + 128 < 256 by omega), toNat_ofNat_byte (show v / 4096 % 64 + 128 < 256 by omega),
      if_pos hsecond, if_pos hcont, if_pos hcont', hnum, hself]
    rfl

theorem decodeLossy_char (c : Char) (rest : List UInt8) :
    decodeLossy (String.utf8EncodeChar c ++ rest) = c :: decodeLossy rest := by
  obtain ⟨b, bs, hbytes, hfirst⟩ := first_encode c rest
  rw [hbytes, List.cons_append, decodeLossy, hfirst]
  simp only [List.drop_left]

/-- What is encoded is read back, whatever follows it. -/
theorem decodeLossy_encode_append (s : List Char) (rest : List UInt8) :
    decodeLossy (encode s ++ rest) = s ++ decodeLossy rest := by
  induction s with
  | nil => rfl
  | cons c s ih => rw [encode_cons, List.append_assoc, decodeLossy_char, ih, List.cons_append]

theorem decodeLossy_encode (s : List Char) : decodeLossy (encode s) = s := by
  have h := decodeLossy_encode_append s []
  rwa [List.append_nil, decodeLossy, List.append_nil] at h

end RoundTrip

/-! ASCII. -/

section Ascii
variable {s : List Char} {c : Char}

theorem encodeChar_ascii (h : c.toNat < 128) : String.utf8EncodeChar c = [UInt8.ofNat c.toNat] := by
  have hval : c.val.toNat ≤ 0x7f := Nat.le_of_lt_succ h
  simp only [String.utf8EncodeChar, if_pos hval]
  rfl

/-- The bytes of any other character are not ASCII. -/
theorem encodeChar_high (h : 128 ≤ c.toNat) : ∀ b ∈ String.utf8EncodeChar c, 128 ≤ b.toNat := by
  have hval : c.val.toNat = c.toNat := rfl
  simp only [String.utf8EncodeChar, hval]
  generalize c.toNat = v at h
  rw [if_neg (by omega)]
  intro b hb
  have hbyte : ∃ n, 128 ≤ n ∧ n < 256 ∧ b = UInt8.ofNat n := by
    split at hb
    · simp only [List.mem_cons, List.not_mem_nil, or_false] at hb
      rcases hb with rfl | rfl
      · exact ⟨_, by omega, by omega, rfl⟩
      · exact ⟨_, by omega, by omega, rfl⟩
    · split at hb
      · simp only [List.mem_cons, List.not_mem_nil, or_false] at hb
        rcases hb with rfl | rfl | rfl
        · exact ⟨_, by omega, by omega, rfl⟩
        · exact ⟨_, by omega, by omega, rfl⟩
        · exact ⟨_, by omega, by omega, rfl⟩
      · simp only [List.mem_cons, List.not_mem_nil, or_false] at hb
        rcases hb with rfl | rfl | rfl | rfl
        · exact ⟨_, by omega, by omega, rfl⟩
        · exact ⟨_, by omega, by omega, rfl⟩
        · exact ⟨_, by omega, by omega, rfl⟩
        · exact ⟨_, by omega, by omega, rfl⟩
  obtain ⟨n, hlow, hhigh, rfl⟩ := hbyte
  rw [toNat_ofNat_byte hhigh]
  exact hlow

/-- An ASCII byte stands in the bytes only if its character stands in the text. -/
theorem mem_encode_ascii (h : c.toNat < 128) : UInt8.ofNat c.toNat ∈ encode s ↔ c ∈ s := by
  induction s with
  | nil => simp
  | cons d s ih =>
    rw [encode_cons, List.mem_append, ih, List.mem_cons]
    have hchar : UInt8.ofNat c.toNat ∈ String.utf8EncodeChar d ↔ c = d := by
      rcases Nat.lt_or_ge d.toNat 128 with hlow | hhigh
      · rw [encodeChar_ascii hlow, List.mem_singleton]
        constructor
        · intro heq
          have hnum := congrArg UInt8.toNat heq
          rw [toNat_ofNat_byte (by omega), toNat_ofNat_byte (by omega)] at hnum
          exact Char.toNat_inj.mp hnum
        · rintro rfl
          rfl
      · constructor
        · intro hmem
          have hbyte := encodeChar_high hhigh _ hmem
          rw [toNat_ofNat_byte (by omega)] at hbyte
          omega
        · rintro rfl
          omega
    rw [hchar]

end Ascii

end Utf8
