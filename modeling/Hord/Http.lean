import Mathlib.Algebra.Ring.Nat
import Mathlib.Data.List.Infix

/- The framing of a message on the byte stream: `readHead` reads up to the first CRLFCRLF,
   `readBody` the bytes that follow. A reader hands the stream over in pieces of any size, and
   what comes out should not depend on the pieces. It does in two ways: the cap on the head
   is tested between reads, so that a head a little longer than the cap is taken or refused
   (`refused_bytewise`, `taken_by_chunks`), and bytes past the body that came with the head
   are returned with a short body (`overread`). Everywhere else the framing is that of the
   stream (`framing_iff`). -/
namespace Hord

def maxHeadBytes : Nat := 64 * 1024

/-- The size of the buffer `read_head` reads into. -/
def headChunk : Nat := 1024

/-- The size of the buffer `read_body` reads into. -/
def bodyChunk : Nat := 2 ^ 20

inductive HttpError where
  /-- The header section exceeded `maxHeadBytes`. -/
  | headTooLong
  /-- The connection closed before the end of the headers. -/
  | closedInHead
  /-- The connection closed after `got` of `total` body bytes. -/
  | closedInBody (got total : Nat)
  deriving DecidableEq

/-- A stream that hands its bytes over in pieces: the sizes of the next reads, and reads as
    large as asked for after them. -/
structure Reader where
  data : List UInt8
  sizes : List Nat
  deriving DecidableEq

/-- How many bytes the next read gets: at least one, at most `cap`. -/
def Reader.size (r : Reader) (cap : Nat) : Nat := min cap (max 1 (r.sizes.headD cap))

/-- The bytes of the next read, none at the end of the stream. -/
def Reader.got (r : Reader) (cap : Nat) : List UInt8 := r.data.take (r.size cap)

/-- The reader after it. -/
def Reader.next (r : Reader) (cap : Nat) : Reader := ⟨r.data.drop (r.size cap), r.sizes.tail⟩

theorem Reader.got_append_next (r : Reader) (cap : Nat) : r.got cap ++ (r.next cap).data = r.data :=
  List.take_append_drop ..

theorem Reader.got_length_le (r : Reader) (cap : Nat) : (r.got cap).length ≤ cap := by
  simp only [got, size, List.length_take]
  omega

theorem Reader.next_length_lt (r : Reader) {cap : Nat} (hgot : r.got cap ≠ []) :
    (r.next cap).data.length < r.data.length := by
  have hcut := congrArg List.length (r.got_append_next cap)
  have hpos := List.length_pos_iff.mpr hgot
  rw [List.length_append] at hcut
  omega

theorem Reader.got_ne_nil (r : Reader) (cap : Nat) (hcap : 0 < cap) (hdata : r.data ≠ []) : r.got cap ≠ [] := by
  have hpos := List.length_pos_iff.mpr hdata
  rw [← List.length_pos_iff]
  simp only [got, size, List.length_take]
  omega

/-- CRLFCRLF. -/
def crlf2 : List UInt8 := [13, 10, 13, 10]

/-- The first position at which CRLFCRLF stands. -/
def findDoubleCrlf : List UInt8 → Option Nat
  | [] => none
  | b :: bs => if crlf2.isPrefixOf (b :: bs) then some 0 else (findDoubleCrlf bs).map (· + 1)

def readHeadLoop (r : Reader) (buf : List UInt8) : Except HttpError ((List UInt8 × List UInt8) × Reader) :=
  match findDoubleCrlf buf with
  | some idx => .ok ((buf.take (idx + 4), buf.drop (idx + 4)), r)
  | none =>
    if maxHeadBytes < buf.length then .error .headTooLong
    else if _hgot : r.got headChunk = [] then .error .closedInHead
    else readHeadLoop (r.next headChunk) (buf ++ r.got headChunk)
termination_by r.data.length
decreasing_by exact r.next_length_lt _hgot

/-- The head, the bytes read past it, and the reader that is left. -/
def readHead (r : Reader) : Except HttpError ((List UInt8 × List UInt8) × Reader) := readHeadLoop r []

def readBodyLoop (r : Reader) (body : List UInt8) (total : Nat) : Except HttpError (List UInt8 × Reader) :=
  if body.length < total then
    let want := min (total - body.length) bodyChunk
    if _hgot : r.got want = [] then .error (.closedInBody body.length total)
    else readBodyLoop (r.next want) (body ++ r.got want) total
  else .ok (body, r)
termination_by r.data.length
decreasing_by exact r.next_length_lt _hgot

def readBody (r : Reader) (leftover : List UInt8) (total : Nat) : Except HttpError (List UInt8 × Reader) :=
  readBodyLoop r leftover total

/-! The terminator. -/

/-- CRLFCRLF ends the head, and stands nowhere before. -/
def EndsHead (head : List UInt8) : Prop := ∃ idx, findDoubleCrlf head = some idx ∧ idx + 4 = head.length

theorem findDoubleCrlf_eq_some_iff {buf : List UInt8} {idx : Nat} :
    findDoubleCrlf buf = some idx ↔ crlf2 <+: buf.drop idx ∧ ∀ j < idx, ¬crlf2 <+: buf.drop j := by
  induction buf generalizing idx with
  | nil =>
    have hnil : ¬crlf2 <+: [] := by decide
    simp [findDoubleCrlf, hnil]
  | cons b bs ih =>
    rw [findDoubleCrlf]
    split
    · next h =>
      have hhere : crlf2 <+: b :: bs := List.isPrefixOf_iff_prefix.mp h
      constructor
      · intro h0
        cases h0
        exact ⟨hhere, fun j hj => absurd hj (Nat.not_lt_zero j)⟩
      · rintro ⟨-, hfirst⟩
        cases idx with
        | zero => rfl
        | succ idx => exact absurd hhere (hfirst 0 (Nat.zero_lt_succ idx))
    · next h =>
      have hhere : ¬crlf2 <+: b :: bs := fun hpre => h (List.isPrefixOf_iff_prefix.mpr hpre)
      rw [Option.map_eq_some_iff]
      constructor
      · rintro ⟨i, hi, rfl⟩
        obtain ⟨hat, hfirst⟩ := ih.mp hi
        refine ⟨hat, fun j hj => ?_⟩
        cases j with
        | zero => exact hhere
        | succ j => exact hfirst j (by omega)
      · rintro ⟨hat, hfirst⟩
        cases idx with
        | zero => exact absurd hat hhere
        | succ idx =>
          refine ⟨idx, ih.mpr ⟨hat, fun j hj => ?_⟩, rfl⟩
          exact hfirst (j + 1) (by omega)

section Terminator
variable {head tail buf data : List UInt8}

/-- The terminator is not seen before the head is there. -/
theorem EndsHead.find_short (h : EndsHead head) (hpre : buf <+: head) (hlt : buf.length < head.length) :
    findDoubleCrlf buf = none := by
  obtain ⟨idx, hidx, hlen⟩ := h
  cases hfind : findDoubleCrlf buf with
  | none => rfl
  | some i =>
    have hat := (findDoubleCrlf_eq_some_iff.mp hfind).1
    have hi : 4 ≤ (buf.drop i).length := hat.length_le
    rw [List.length_drop] at hi
    exact absurd (hat.trans (hpre.drop i)) ((findDoubleCrlf_eq_some_iff.mp hidx).2 i (by omega))

/-- It is seen, where it stands in the head, as soon as the head is there. -/
theorem EndsHead.find_long (h : EndsHead head) (leftover : List UInt8) :
    ∃ idx, findDoubleCrlf (head ++ leftover) = some idx ∧ idx + 4 = head.length := by
  obtain ⟨idx, hidx, hlen⟩ := h
  obtain ⟨hat, hfirst⟩ := findDoubleCrlf_eq_some_iff.mp hidx
  have hdrop : ∀ j, head.drop j <+: (head ++ leftover).drop j := fun j => (List.prefix_append ..).drop j
  refine ⟨idx, findDoubleCrlf_eq_some_iff.mpr ⟨hat.trans (hdrop idx), fun j hj hpre => ?_⟩, hlen⟩
  have hroom : crlf2.length ≤ (head.drop j).length := by
    rw [List.length_drop]
    show 4 ≤ head.length - j
    omega
  exact hfirst j hj (List.prefix_of_prefix_length_le hpre (hdrop j) hroom)

theorem EndsHead.ne_nil (h : EndsHead head) : head ≠ [] := by
  obtain ⟨idx, -, hlen⟩ := h
  rintro rfl
  cases hlen

/-- What has been read is a part of the head, or the head and more. -/
theorem read_cases (hsplit : buf ++ data = head ++ tail) :
    (buf <+: head ∧ buf.length < head.length ∧ data ≠ []) ∨
      ∃ leftover, buf = head ++ leftover ∧ leftover ++ data = tail := by
  rcases Nat.lt_or_ge buf.length head.length with hlt | hge
  · have hpre : buf <+: head :=
      List.prefix_of_prefix_length_le (hsplit ▸ List.prefix_append buf data) (List.prefix_append head tail) (by omega)
    refine .inl ⟨hpre, hlt, ?_⟩
    rintro rfl
    have hlen := congrArg List.length hsplit
    simp only [List.length_append, List.length_nil] at hlen
    omega
  · obtain ⟨leftover, rfl⟩ : head <+: buf :=
      List.prefix_of_prefix_length_le (List.prefix_append head tail) (hsplit ▸ List.prefix_append buf data) hge
    rw [List.append_assoc, List.append_cancel_left_eq] at hsplit
    exact .inr ⟨leftover, rfl, hsplit⟩

end Terminator

/-! One round of each loop. -/

section Rounds
variable {head tail buf leftover body rest : List UInt8} {r : Reader}

theorem readHeadLoop_found (h : EndsHead head) (r : Reader) (leftover : List UInt8) :
    readHeadLoop r (head ++ leftover) = .ok ((head, leftover), r) := by
  obtain ⟨idx, hidx, hlen⟩ := h.find_long leftover
  rw [readHeadLoop, hidx]
  simp [hlen]

theorem readHeadLoop_long (hfind : findDoubleCrlf buf = none) (hlong : maxHeadBytes < buf.length) :
    readHeadLoop r buf = .error .headTooLong := by
  rw [readHeadLoop, hfind]
  simp only [if_pos hlong]

theorem readHeadLoop_next (hfind : findDoubleCrlf buf = none) (hshort : buf.length ≤ maxHeadBytes)
    (hdata : r.data ≠ []) : readHeadLoop r buf = readHeadLoop (r.next headChunk) (buf ++ r.got headChunk) := by
  have hgot := r.got_ne_nil headChunk (by decide) hdata
  rw [readHeadLoop, hfind]
  simp only [if_neg (Nat.not_lt.mpr hshort), dif_neg hgot]

theorem split_next (hsplit : buf ++ r.data = head ++ tail) (cap : Nat) :
    (buf ++ r.got cap) ++ (r.next cap).data = head ++ tail := by
  rw [List.append_assoc, r.got_append_next, hsplit]

theorem readBodyLoop_done (r : Reader) {total : Nat} (h : total ≤ body.length) :
    readBodyLoop r body total = .ok (body, r) := by
  rw [readBodyLoop, if_neg (Nat.not_lt.mpr h)]

end Rounds

/-! Whole runs. -/

/-- However the stream is cut, the head is taken as it stands, with fewer than a chunk of
    bytes after it, and it is no longer than the cap and a chunk. A head of at most one byte
    more than the cap is always taken. -/
theorem readHeadLoop_spec {head tail : List UInt8} (hends : EndsHead head) (r : Reader) (buf : List UInt8)
    (hsplit : buf ++ r.data = head ++ tail) (hnear : buf.length < head.length + headChunk)
    (hcap : buf.length ≤ maxHeadBytes + headChunk) :
    (∀ h leftover r', readHeadLoop r buf = .ok ((h, leftover), r') →
      h = head ∧ leftover ++ r'.data = tail ∧ leftover.length < headChunk ∧ head.length ≤ maxHeadBytes + headChunk) ∧
    (head.length ≤ maxHeadBytes + 1 → (readHeadLoop r buf).isOk) := by
  -- each round reads at least a byte: induction on the bytes still to come
  induction hn : r.data.length using Nat.strongRecOn generalizing r buf with
  | ind n ih =>
    rcases read_cases hsplit with ⟨hpre, hlt, hdata⟩ | ⟨leftover, rfl, hrest⟩
    · have hfind := hends.find_short hpre hlt
      rcases Nat.lt_or_ge maxHeadBytes buf.length with hlong | hshort
      · rw [readHeadLoop_long hfind hlong]
        refine ⟨fun h leftover r' hok => (by cases hok), fun hle => ?_⟩
        omega
      · have hgot := r.got_length_le headChunk
        rw [readHeadLoop_next hfind hshort hdata]
        refine ih _ ?_ _ _ (split_next hsplit headChunk) ?_ ?_ rfl
        · rw [← hn]
          exact r.next_length_lt (r.got_ne_nil headChunk (by decide) hdata)
        · rw [List.length_append]
          omega
        · rw [List.length_append]
          omega
    · rw [readHeadLoop_found hends]
      rw [List.length_append] at hnear hcap
      refine ⟨fun h l r' hok => ?_, fun _ => rfl⟩
      cases hok
      exact ⟨rfl, hrest, by omega, by omega⟩

/-- The body is read to its end and no further, from whatever part of it came with the head. -/
theorem readBodyLoop_spec {body rest : List UInt8} (r : Reader) (leftover : List UInt8)
    (hsplit : leftover ++ r.data = body ++ rest) (hle : leftover.length ≤ body.length) :
    ∃ r', readBodyLoop r leftover body.length = .ok (body, r') ∧ r'.data = rest := by
  induction hn : r.data.length using Nat.strongRecOn generalizing r leftover with
  | ind n ih =>
    rcases Nat.lt_or_ge leftover.length body.length with hlt | hge
    · have hlen := congrArg List.length hsplit
      simp only [List.length_append] at hlen
      have hdata : r.data ≠ [] := by
        rintro hnil
        rw [hnil, List.length_nil] at hlen
        omega
      have hwant : 0 < min (body.length - leftover.length) bodyChunk := by
        have : 0 < bodyChunk := by decide
        omega
      have hgot := r.got_ne_nil _ hwant hdata
      have hgot' := r.got_length_le (min (body.length - leftover.length) bodyChunk)
      rw [readBodyLoop, if_pos hlt]
      simp only [dif_neg hgot]
      refine ih _ ?_ _ _ (split_next hsplit _) ?_ rfl
      · rw [← hn]
        exact r.next_length_lt hgot
      · rw [List.length_append]
        omega
    · have heq : leftover = body := (List.append_inj hsplit (Nat.le_antisymm hle hge)).1
      subst heq
      rw [readBodyLoop_done r (Nat.le_refl _)]
      exact ⟨r, rfl, List.append_cancel_left hsplit⟩

/-! Three ways to cut the stream. -/

section Cuts
variable {head tail buf : List UInt8}

/-- A read of one byte. -/
theorem readHeadLoop_byte {data : List UInt8} (n : Nat) (hsplit : buf ++ data = head ++ tail)
    (hfind : findDoubleCrlf buf = none) (hshort : buf.length ≤ maxHeadBytes) (hdata : data ≠ []) :
    ∃ buf' data', readHeadLoop ⟨data, List.replicate (n + 1) 1⟩ buf = readHeadLoop ⟨data', List.replicate n 1⟩ buf' ∧
      buf' ++ data' = head ++ tail ∧ buf'.length = buf.length + 1 := by
  have hone : (⟨data, List.replicate (n + 1) 1⟩ : Reader).got headChunk = data.take 1 := rfl
  have hlen := List.length_pos_iff.mpr hdata
  refine ⟨_, _, readHeadLoop_next hfind hshort hdata,
    split_next (r := ⟨data, List.replicate (n + 1) 1⟩) hsplit headChunk, ?_⟩
  rw [hone, List.length_append, List.length_take]
  omega

/-- Byte by byte, a head of two bytes more than the cap is refused. -/
theorem refused_bytewise (hends : EndsHead head) (hlong : maxHeadBytes + 1 < head.length) (n : Nat) (buf data : List UInt8)
    (hsplit : buf ++ data = head ++ tail) (hn : buf.length + n = maxHeadBytes + 1) :
    readHeadLoop ⟨data, List.replicate n 1⟩ buf = .error .headTooLong := by
  induction n generalizing buf data with
  | zero =>
    rcases read_cases hsplit with ⟨hpre, hlt, -⟩ | ⟨leftover, rfl, -⟩
    · exact readHeadLoop_long (hends.find_short hpre hlt) (by omega)
    · rw [List.length_append] at hn
      omega
  | succ n ih =>
    rcases read_cases hsplit with ⟨hpre, hlt, hdata⟩ | ⟨leftover, rfl, -⟩
    · obtain ⟨buf', data', hnext, hsplit', hlen⟩ :=
        readHeadLoop_byte n hsplit (hends.find_short hpre hlt) (by omega) hdata
      rw [hnext]
      exact ih buf' data' hsplit' (by omega)
    · rw [List.length_append] at hn
      omega

/-- In whole chunks, a head of up to a chunk more than the cap is taken. -/
theorem taken_by_chunks (hends : EndsHead head) (hle : head.length ≤ maxHeadBytes + headChunk) (buf data : List UInt8)
    (hsplit : buf ++ data = head ++ tail) (hchunks : headChunk ∣ buf.length ∨ data = []) :
    (readHeadLoop ⟨data, []⟩ buf).isOk := by
  induction hn : data.length using Nat.strongRecOn generalizing buf data with
  | ind n ih =>
    rcases read_cases hsplit with ⟨hpre, hlt, hdata⟩ | ⟨leftover, rfl, -⟩
    · have hdvd : headChunk ∣ buf.length := hchunks.resolve_right hdata
      have hshort : buf.length ≤ maxHeadBytes := by
        -- the buffer holds whole chunks and less than 65 of them
        obtain ⟨k, hk⟩ := hdvd
        have hcap : maxHeadBytes = 65536 := rfl
        have hchunk : headChunk = 1024 := rfl
        rw [hchunk] at hk
        omega
      have hfull : (⟨data, []⟩ : Reader).got headChunk = data.take headChunk := rfl
      have hsplit' := split_next (r := ⟨data, []⟩) hsplit headChunk
      rw [readHeadLoop_next (hends.find_short hpre hlt) hshort hdata]
      refine ih _ ?_ _ _ hsplit' ?_ rfl
      · rw [← hn]
        exact Reader.next_length_lt _ (Reader.got_ne_nil _ headChunk (by decide) hdata)
      · rcases Nat.lt_or_ge data.length headChunk with hless | hmore
        · exact .inr (List.drop_eq_nil_of_le (Nat.le_of_lt hless))
        · left
          rw [hfull, List.length_append, List.length_take, Nat.min_eq_left hmore]
          exact Nat.dvd_add hdvd (Nat.dvd_refl _)
    · rw [readHeadLoop_found hends]
      rfl

/-- Byte by byte up to the last byte of the head, and then a whole chunk. -/
theorem overread (hends : EndsHead head) (hle : head.length ≤ maxHeadBytes + 1) (n : Nat) (buf data : List UInt8)
    (hsplit : buf ++ data = head ++ tail) (hn : buf.length + n + 1 = head.length) :
    readHeadLoop ⟨data, List.replicate n 1⟩ buf =
      .ok ((head, tail.take (headChunk - 1)), ⟨tail.drop (headChunk - 1), []⟩) := by
  induction n generalizing buf data with
  | zero =>
    rcases read_cases hsplit with ⟨hpre, hlt, hdata⟩ | ⟨leftover, rfl, -⟩
    · obtain ⟨last, rfl⟩ := hpre
      rw [List.append_assoc, List.append_cancel_left_eq] at hsplit
      obtain ⟨b, rfl⟩ : ∃ b, last = [b] := by
        rw [List.length_append] at hn
        exact List.length_eq_one_iff.mp (by omega)
      subst hsplit
      rw [readHeadLoop_next (hends.find_short (List.prefix_append ..) hlt) (by omega) hdata]
      have hgot : (⟨[b] ++ tail, List.replicate 0 1⟩ : Reader).got headChunk = [b] ++ tail.take (headChunk - 1) := rfl
      rw [hgot, ← List.append_assoc, readHeadLoop_found hends]
      rfl
    · rw [List.length_append] at hn
      omega
  | succ n ih =>
    rcases read_cases hsplit with ⟨hpre, hlt, hdata⟩ | ⟨leftover, rfl, -⟩
    · obtain ⟨buf', data', hnext, hsplit', hlen⟩ :=
        readHeadLoop_byte n hsplit (hends.find_short hpre hlt) (by omega) hdata
      rw [hnext]
      exact ih buf' data' hsplit' (by omega)
    · rw [List.length_append] at hn
      omega

end Cuts

/-- The framing is that of the stream: whether the head is taken does not depend on how the
    stream is cut, and when it is, it is the head, and the body that is read is the body. -/
def Framed (head body rest : List UInt8) : Prop :=
  (∀ sizes sizes', (readHead ⟨head ++ body ++ rest, sizes⟩).isOk = (readHead ⟨head ++ body ++ rest, sizes'⟩).isOk) ∧
  ∀ sizes h leftover r, readHead ⟨head ++ body ++ rest, sizes⟩ = .ok ((h, leftover), r) →
    h = head ∧ ∃ r', readBody r leftover body.length = .ok (body, r')

section Framing
variable {head body rest : List UInt8}

theorem readHead_spec (hends : EndsHead head) (tail : List UInt8) (sizes : List Nat) :
    (∀ h leftover r', readHead ⟨head ++ tail, sizes⟩ = .ok ((h, leftover), r') →
      h = head ∧ leftover ++ r'.data = tail ∧ leftover.length < headChunk ∧ head.length ≤ maxHeadBytes + headChunk) ∧
    (head.length ≤ maxHeadBytes + 1 → (readHead ⟨head ++ tail, sizes⟩).isOk) := by
  have hpos := List.length_pos_iff.mpr hends.ne_nil
  exact readHeadLoop_spec hends ⟨head ++ tail, sizes⟩ [] rfl (Nat.lt_add_right _ hpos) (Nat.zero_le _)

theorem Framed.of_short (hends : EndsHead head) (hshort : head.length ≤ maxHeadBytes + 1)
    (hbody : rest = [] ∨ headChunk - 1 ≤ body.length) : Framed head body rest := by
  refine ⟨fun sizes sizes' => ?_, fun sizes h leftover r hok => ?_⟩
  · rw [List.append_assoc, (readHead_spec hends _ sizes).2 hshort, (readHead_spec hends _ sizes').2 hshort]
  · rw [List.append_assoc] at hok
    obtain ⟨hhead, hsplit, hleft, -⟩ := (readHead_spec hends _ sizes).1 h leftover r hok
    have hle : leftover.length ≤ body.length := by
      rcases hbody with rfl | hlong
      · have hlen := congrArg List.length hsplit
        simp only [List.length_append, List.length_nil] at hlen
        omega
      · omega
    obtain ⟨r', hread, -⟩ := readBodyLoop_spec r leftover hsplit hle
    exact ⟨hhead, r', hread⟩

theorem Framed.of_long (hends : EndsHead head) (hlong : maxHeadBytes + headChunk < head.length) : Framed head body rest := by
  have hrefused : ∀ sizes x, readHead ⟨head ++ body ++ rest, sizes⟩ ≠ .ok x := by
    intro sizes x hok
    rw [List.append_assoc] at hok
    obtain ⟨-, -, -, hle⟩ := (readHead_spec hends _ sizes).1 x.1.1 x.1.2 x.2 hok
    omega
  have hnot : ∀ sizes, (readHead ⟨head ++ body ++ rest, sizes⟩).isOk = false := by
    intro sizes
    cases hread : readHead ⟨head ++ body ++ rest, sizes⟩ with
    | error e => rfl
    | ok x => exact absurd hread (hrefused sizes x)
  refine ⟨fun sizes sizes' => by rw [hnot, hnot], fun sizes h leftover r hok => ?_⟩
  exact absurd hok (hrefused sizes _)

/-- A head between the two bounds is taken or refused depending on the cut. -/
theorem not_framed_of_between (hends : EndsHead head) (hlong : maxHeadBytes + 1 < head.length)
    (hle : head.length ≤ maxHeadBytes + headChunk) : ¬Framed head body rest := by
  intro hframed
  have hsplit : [] ++ (head ++ body ++ rest) = head ++ (body ++ rest) := List.append_assoc ..
  have hrefused := refused_bytewise hends hlong (maxHeadBytes + 1) [] _ hsplit (Nat.zero_add _)
  have htaken := taken_by_chunks hends hle [] _ hsplit (.inl (Nat.dvd_zero _))
  have hsame := hframed.1 [] (List.replicate (maxHeadBytes + 1) 1)
  rw [readHead, readHead, hrefused, htaken] at hsame
  cases hsame

/-- A short body comes back with bytes of what follows it. -/
theorem not_framed_of_short_body (hends : EndsHead head) (hshort : head.length ≤ maxHeadBytes + 1) (hrest : rest ≠ [])
    (hbody : body.length < headChunk - 1) : ¬Framed head body rest := by
  intro hframed
  have hpos := List.length_pos_iff.mpr hends.ne_nil
  have hsplit : [] ++ (head ++ body ++ rest) = head ++ (body ++ rest) := List.append_assoc ..
  have hover := overread hends hshort (head.length - 1) [] _ hsplit (by simp only [List.length_nil]; omega)
  obtain ⟨-, r', hread⟩ := hframed.2 _ _ _ _ hover
  have hmore : body.length < ((body ++ rest).take (headChunk - 1)).length := by
    have := List.length_pos_iff.mpr hrest
    simp only [List.length_take, List.length_append]
    omega
  rw [readBody, readBodyLoop_done _ (Nat.le_of_lt hmore)] at hread
  injection hread with hread
  rw [(Prod.mk.inj hread).1] at hmore
  omega

end Framing

/-- For a head, a body and what follows them, the framing is that of the stream exactly when
    the head is at most one byte longer than the cap and the body is the end of the stream
    or long enough to hold what may be read past the head, or when the head is more than a
    chunk longer than the cap. -/
theorem framing_iff (head body rest : List UInt8) (hends : EndsHead head) :
    Framed head body rest ↔
      (head.length ≤ maxHeadBytes + 1 ∧ (rest = [] ∨ headChunk - 1 ≤ body.length)) ∨
        maxHeadBytes + headChunk < head.length := by
  constructor
  · intro hframed
    rcases Nat.lt_or_ge (maxHeadBytes + 1) head.length with hlong | hshort
    · right
      apply Nat.lt_of_not_le
      exact fun hle => not_framed_of_between hends hlong hle hframed
    · left
      refine ⟨hshort, ?_⟩
      by_cases hrest : rest = []
      · exact .inl hrest
      · right
        apply Nat.le_of_not_lt
        exact fun hbody => not_framed_of_short_body hends hshort hrest hbody hframed
  · rintro (⟨hshort, hbody⟩ | hlong)
    · exact Framed.of_short hends hshort hbody
    · exact Framed.of_long hends hlong

/-- The bytes of a text. -/
def ascii (s : List Char) : List UInt8 := s.map fun c => UInt8.ofNat c.toNat

/-- A body just long enough, and the start of the next message after it. -/
theorem framing_iff_long_body :
    Framed (ascii "HTTP/1.1 200 OK\r\nContent-Length: 1023\r\n\r\n".toList) (List.replicate 1023 65)
      (ascii "HTTP/1.1 204 ".toList) := by
  have hends : EndsHead (ascii "HTTP/1.1 200 OK\r\nContent-Length: 1023\r\n\r\n".toList) :=
    ⟨37, by decide +kernel, by decide +kernel⟩
  refine (framing_iff _ _ _ hends).mpr (.inl ⟨by decide +kernel, .inr ?_⟩)
  rw [List.length_replicate]
  decide

/-- A body of no bytes, and the first byte of the next message after it. -/
theorem not_framed_pipelined : EndsHead (ascii "HTTP/1.1 204 No Content\r\n\r\n".toList) ∧
    ¬Framed (ascii "HTTP/1.1 204 No Content\r\n\r\n".toList) [] (ascii "H".toList) := by
  have hends : EndsHead (ascii "HTTP/1.1 204 No Content\r\n\r\n".toList) := ⟨23, by decide +kernel, by decide +kernel⟩
  exact ⟨hends, not_framed_of_short_body hends (by decide +kernel) (by decide +kernel) (by decide)⟩

end Hord
