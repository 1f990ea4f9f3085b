import Hord.Head
import Hord.Pooled
import Hord.Servers

/- The verifiable bytes of the route `/size/<n>`. A server fills its source with them in chunks
   (`patternFillRegisteredFrom`), and a client checks what it was delivered, in its own buffer
   or as a body off the stream (`verifyZeroCopyAt`, `verifyStreamBodyAt`). The chunks leave no
   trace: filling writes the bytes asked for and no others, and the two checks are the same
   check, which passes on the pattern alone and otherwise names the first byte that differs
   (`verifiers_exact`). What any of the entry points delivers into a client's buffer passes
   (`served_verifies`). Offsets past the end of a `usize` wrap, as they do in the release
   build; a build with overflow checks panics there. -/
namespace Hord

open Text Transition

/-- The chunks in which registered memory is filled and read. -/
def patternChunk : Nat := 256 * 1024

def RegisteredBuffer.copyIn (buf : RegisteredBuffer) (off : Nat) (src : Bytes) : Except DemoError RegisteredBuffer :=
  if src.length ≤ buf.storage.length ∧ off ≤ buf.storage.length - src.length then
    .ok { buf with storage := buf.storage.take off ++ src ++ buf.storage.drop (off + src.length) }
  else .error (.panic "copy_in out of bounds")

def patternFillLoop (base n off : Nat) (buf : RegisteredBuffer) : Except DemoError RegisteredBuffer :=
  if _h : off < n then do
    let take := min patternChunk (n - off)
    patternFillLoop base n (off + take) (← buf.copyIn off (pattern (base + off) take))
  else .ok buf
termination_by n - off
decreasing_by
  have : 0 < patternChunk := by decide
  omega

def patternFillRegisteredFrom (buf : RegisteredBuffer) (base n : Nat) : Except DemoError RegisteredBuffer :=
  patternFillLoop base n 0 buf

/-- The destination of a zero-copy response: memory of the client that a server may write. -/
structure ZeroCopyRequest where
  addr : UInt64
  rkey : UInt32
  storage : Bytes
  id : Option UInt32
  inside : addr.toNat + storage.length < 2 ^ 64
  deriving DecidableEq

namespace ZeroCopyRequest

def request (zc : ZeroCopyRequest) : RdmaWriteReq := ⟨zc.addr, zc.rkey, UInt64.ofNat zc.storage.length, zc.id⟩

def capacity (zc : ZeroCopyRequest) : Nat := zc.storage.length

def copyOut (zc : ZeroCopyRequest) (off n : Nat) : Except DemoError Bytes :=
  if n ≤ zc.storage.length ∧ off ≤ zc.storage.length - n then .ok ((zc.storage.drop off).take n)
  else .error (.panic "copy_out out of bounds")

end ZeroCopyRequest

/-- The size in a path of the route. -/
def sizeFromPath (path : List Char) : Option Nat := (stripPrefix sizeRoute path).bind parseUsize

/-- The first byte that is not the pattern's, where the bytes start at `position`. -/
def firstMismatch (position : Nat) : Bytes → Except DemoError Unit
  | [] => .ok ()
  | got :: bytes =>
    if got ≠ patternByte (objectOffset position) then
      .error (.mismatch (objectOffset position) got (patternByte (objectOffset position)))
    else firstMismatch (position + 1) bytes

def verifyLoop (zc : ZeroCopyRequest) (base n off : Nat) : Except DemoError Unit :=
  if _h : off < n then do
    let take := min patternChunk (n - off)
    firstMismatch (base + off) (← zc.copyOut off take)
    verifyLoop zc base n (off + take)
  else .ok ()
termination_by n - off
decreasing_by
  have : 0 < patternChunk := by decide
  omega

/-- `false` when there is nothing to check. -/
def verifyZeroCopyAt (zc : ZeroCopyRequest) (base n : Nat) (path : List Char) : Except DemoError Bool := do
  if sizeFromPath path = none then return false
  verifyLoop zc base n 0
  return true

def verifyStreamBodyAt (body : Bytes) (isSuccess : Bool) (path : List Char) (base : Nat) : Except DemoError Bool := do
  if ¬isSuccess ∨ sizeFromPath path = none then return false
  firstMismatch base body
  return true

/-! Comparing with the pattern. -/

@[simp]
theorem pattern_length (base n : Nat) : (pattern base n).length = n := by simp [pattern]

theorem pattern_succ (base n : Nat) : pattern base (n + 1) = patternByte (objectOffset base) :: pattern (base + 1) n := by
  rw [Nat.add_comm n 1, pattern_add]
  rfl

theorem objectOffset_of_lt {position : Nat} (h : position < 2 ^ 64) : objectOffset position = position :=
  Nat.mod_eq_of_lt h

section Comparing
variable {bytes rest : Bytes} {position : Nat}

theorem firstMismatch_append (position : Nat) (bytes rest : Bytes) :
    firstMismatch position (bytes ++ rest) =
      (firstMismatch position bytes >>= fun _ => firstMismatch (position + bytes.length) rest) := by
  induction bytes generalizing position with
  | nil => rfl
  | cons got bytes ih =>
    rw [List.cons_append, firstMismatch, firstMismatch]
    split
    · rfl
    · rw [ih, List.length_cons, Nat.add_assoc, Nat.add_comm 1]

theorem firstMismatch_ok_iff (position : Nat) (bytes : Bytes) :
    firstMismatch position bytes = .ok () ↔ bytes = pattern position bytes.length := by
  induction bytes generalizing position with
  | nil => simp [firstMismatch, pattern]
  | cons got bytes ih =>
    rw [firstMismatch, List.length_cons, pattern_succ, List.cons.injEq]
    by_cases hgot : got = patternByte (objectOffset position)
    · rw [if_neg (not_not.mpr hgot), ih]
      exact ⟨fun h => ⟨hgot, h⟩, fun h => h.2⟩
    · rw [if_pos hgot]
      simp [hgot]

/-- What a failed comparison names: the byte after a stretch of the pattern. -/
theorem firstMismatch_error_iff (position : Nat) (bytes : Bytes) (e : DemoError) :
    firstMismatch position bytes = .error e ↔ ∃ n got tail, bytes = pattern position n ++ got :: tail ∧
      got ≠ patternByte (objectOffset (position + n)) ∧
      e = .mismatch (objectOffset (position + n)) got (patternByte (objectOffset (position + n))) := by
  induction bytes generalizing position with
  | nil => simp [firstMismatch]
  | cons b bytes ih =>
    rw [firstMismatch]
    -- a byte that fits lengthens the stretch by one; one that does not ends it
    by_cases hb : b = patternByte (objectOffset position)
    · rw [if_neg (not_not.mpr hb), ih]
      constructor
      · rintro ⟨n, got, tail, rfl, hgot, rfl⟩
        have hpos : position + 1 + n = position + (n + 1) := by omega
        refine ⟨n + 1, got, tail, by rw [pattern_succ, hb, List.cons_append], ?_, ?_⟩
        · rwa [← hpos]
        · rw [hpos]
      · rintro ⟨n, got, tail, heq, hgot, rfl⟩
        cases n with
        | zero =>
          simp only [pattern, List.range_zero, List.map_nil, List.nil_append, List.cons.injEq] at heq
          exact absurd (heq.1 ▸ hb) hgot
        | succ n =>
          have hpos : position + (n + 1) = position + 1 + n := by omega
          rw [pattern_succ, List.cons_append, List.cons.injEq] at heq
          rw [hpos] at hgot ⊢
          exact ⟨n, got, tail, heq.2, hgot, rfl⟩
    · rw [if_pos hb]
      constructor
      · intro herr
        refine ⟨0, b, bytes, rfl, hb, ?_⟩
        cases herr
        rfl
      · rintro ⟨n, got, tail, heq, hgot, rfl⟩
        cases n with
        | zero =>
          simp only [pattern, List.range_zero, List.map_nil, List.nil_append, List.cons.injEq] at heq
          rw [heq.1, Nat.add_zero]
        | succ n =>
          rw [pattern_succ, List.cons_append, List.cons.injEq] at heq
          exact absurd heq.1 hb

end Comparing

/-! The chunked loops. -/

section Loops
variable {zc : ZeroCopyRequest} {buf : RegisteredBuffer} {n : Nat}

theorem ZeroCopyRequest.copyOut_ok {off take : Nat} (h : off + take ≤ zc.storage.length) :
    zc.copyOut off take = .ok ((zc.storage.drop off).take take) :=
  if_pos ⟨by omega, by omega⟩

theorem RegisteredBuffer.copyIn_ok {off : Nat} {src : Bytes} (h : off + src.length ≤ buf.storage.length) :
    buf.copyIn off src = .ok { buf with storage := buf.storage.take off ++ src ++ buf.storage.drop (off + src.length) } :=
  if_pos ⟨by omega, by omega⟩

/-- The chunks of the buffer are compared as one. -/
theorem verifyLoop_eq (base off : Nat) (hn : n ≤ zc.storage.length) :
    verifyLoop zc base n off = firstMismatch (base + off) ((zc.storage.drop off).take (n - off)) := by
  -- induction on what is left to read
  induction hk : n - off using Nat.strongRecOn generalizing off with
  | ind k ih =>
    have hpos : 0 < patternChunk := by decide
    rw [verifyLoop]
    split
    · next hlt =>
      have htake : min patternChunk (n - off) + (n - (off + min patternChunk (n - off))) = k := by omega
      have hread : zc.copyOut off (min patternChunk (n - off)) =
          .ok ((zc.storage.drop off).take (min patternChunk (n - off))) := ZeroCopyRequest.copyOut_ok (by omega)
      have hlen : ((zc.storage.drop off).take (min patternChunk (n - off))).length = min patternChunk (n - off) := by
        rw [List.length_take, List.length_drop]
        omega
      simp only [hread]
      rw [← htake, List.take_add, List.drop_drop, firstMismatch_append, hlen, Nat.add_assoc,
        ← ih _ (by omega) (off + min patternChunk (n - off)) rfl]
      rfl
    · next hge =>
      have hzero : k = 0 := by omega
      subst hzero
      rw [List.take_zero]
      rfl

/-- The chunks of the source are filled as one. -/
theorem patternFillLoop_eq (base off : Nat) (hoff : off ≤ n) (hn : n ≤ buf.storage.length) :
    patternFillLoop base n off buf = .ok { buf with
      storage := buf.storage.take off ++ pattern (base + off) (n - off) ++ buf.storage.drop n } := by
  -- on what is left to fill; a chunk puts its part between what was written and the tail
  induction hk : n - off using Nat.strongRecOn generalizing off buf with
  | ind k ih =>
    have hpos : 0 < patternChunk := by decide
    rw [patternFillLoop]
    split
    · next hlt =>
      have hsum : min patternChunk (n - off) + (n - (off + min patternChunk (n - off))) = k := by omega
      have hroom : off + (pattern (base + off) (min patternChunk (n - off))).length ≤ buf.storage.length := by
        rw [pattern_length]
        omega
      have hwrite := RegisteredBuffer.copyIn_ok hroom
      simp only [hwrite, pattern_length]
      generalize htake : min patternChunk (n - off) = take at hsum
      have hfront : (buf.storage.take off ++ pattern (base + off) take).length = off + take := by
        simp only [List.length_append, List.length_take, pattern_length]
        omega
      refine (ih _ (by omega) (off + take) (by omega) ?_ rfl).trans ?_
      · simp only [List.length_append, List.length_take, List.length_drop, pattern_length]
        omega
      · have htail : (buf.storage.drop (off + take)).drop (n - (off + take)) = buf.storage.drop n := by
          rw [List.drop_drop]
          congr 1
          omega
        have hrest : n = (buf.storage.take off ++ pattern (base + off) take).length + (n - (off + take)) := by omega
        rw [← hsum, pattern_add, ← hfront, List.take_left, hfront, ← List.append_assoc, Nat.add_assoc]
        nth_rewrite 2 [hrest]
        rw [List.drop_length_add_append, htail]
    · next hge =>
      have hzero : k = 0 := by omega
      have heq : off = n := by omega
      subst hzero heq
      simp [pattern]

/-- A source keeps its size, whatever becomes of the filling. -/
theorem patternFillLoop_length {base off : Nat} {filled : RegisteredBuffer}
    (h : patternFillLoop base n off buf = .ok filled) : filled.storage.length = buf.storage.length := by
  induction hk : n - off using Nat.strongRecOn generalizing off buf with
  | ind k ih =>
    have hpos : 0 < patternChunk := by decide
    rw [patternFillLoop] at h
    split at h
    · next hlt =>
      simp only at h
      cases hcopy : buf.copyIn off (pattern (base + off) (min patternChunk (n - off))) with
      | error e =>
        rw [hcopy] at h
        cases h
      | ok next =>
        rw [hcopy] at h
        rw [ih _ (by omega) h rfl]
        rw [RegisteredBuffer.copyIn] at hcopy
        split at hcopy
        · next hroom =>
          cases hcopy
          simp only [List.length_append, List.length_take, List.length_drop]
          omega
        · cases hcopy
    · cases h
      rfl

/-- The first `n` bytes are the pattern's, and the others are left alone. -/
theorem patternFillRegisteredFrom_ok (base : Nat) (hn : n ≤ buf.storage.length) :
    patternFillRegisteredFrom buf base n = .ok { buf with storage := pattern base n ++ buf.storage.drop n } := by
  rw [patternFillRegisteredFrom, patternFillLoop_eq base 0 (Nat.zero_le _) hn]
  simp

end Loops

/-! The two checks. -/

section Checks
variable {zc : ZeroCopyRequest} {path : List Char} {base n : Nat} {body : Bytes}

theorem verifyZeroCopyAt_eq (base : Nat) (path : List Char) (hn : n ≤ zc.storage.length) :
    verifyZeroCopyAt zc base n path = verifyStreamBodyAt (zc.storage.take n) true path base := by
  rw [verifyZeroCopyAt, verifyStreamBodyAt, verifyLoop_eq base 0 hn]
  by_cases hpath : sizeFromPath path = none
  · simp [hpath]
  · simp [hpath]

theorem verifyStreamBodyAt_true_iff (body : Bytes) (isSuccess : Bool) (path : List Char) (base : Nat) :
    verifyStreamBodyAt body isSuccess path base = .ok true ↔
      isSuccess = true ∧ sizeFromPath path ≠ none ∧ body = pattern base body.length := by
  rw [← firstMismatch_ok_iff, verifyStreamBodyAt]
  by_cases hskip : ¬isSuccess = true ∨ sizeFromPath path = none
  · rw [if_pos hskip]
    constructor
    · intro h
      cases h
    · rintro ⟨hsuccess, hpath, -⟩
      rcases hskip with hskip | hskip
      · exact absurd hsuccess hskip
      · exact absurd hskip hpath
  · rw [if_neg hskip]
    rw [not_or, not_not] at hskip
    cases hcmp : firstMismatch base body with
    | error e => simp [hskip, bind, Except.bind]
    | ok u => simp [hskip, bind, Except.bind, pure, Except.pure]

end Checks

/-- Whatever the buffer, the offset and the number of bytes it holds: checking it in chunks is
    checking its first `n` bytes as a body off the stream, with the same result and the same
    error; and a body passes exactly when it is the pattern at its offset, and is refused
    otherwise, by the position of the first byte that differs and by both bytes there. Up to
    the end of a `usize` the positions are the sums themselves. -/
theorem verifiers_exact (zc : ZeroCopyRequest) (path : List Char) (base : Nat) (hpath : sizeFromPath path ≠ none) :
    (∀ n ≤ zc.capacity, verifyZeroCopyAt zc base n path = verifyStreamBodyAt (zc.storage.take n) true path base) ∧
    ∀ body : Bytes, (verifyStreamBodyAt body true path base = .ok true ↔ body = pattern base body.length) ∧
      (∀ e, verifyStreamBodyAt body true path base = .error e ↔ ∃ n got tail, body = pattern base n ++ got :: tail ∧
        got ≠ patternByte (objectOffset (base + n)) ∧
        e = .mismatch (objectOffset (base + n)) got (patternByte (objectOffset (base + n)))) ∧
      (base + body.length ≤ 2 ^ 64 → ∀ n < body.length, objectOffset (base + n) = base + n) := by
  refine ⟨fun n hn => verifyZeroCopyAt_eq base path hn, fun body => ⟨?_, fun e => ?_, fun hend n hn => ?_⟩⟩
  · rw [verifyStreamBodyAt_true_iff]
    exact ⟨fun h => h.2.2, fun h => ⟨rfl, hpath, h⟩⟩
  · rw [← firstMismatch_error_iff, verifyStreamBodyAt, if_neg (by simp [hpath])]
    cases hcmp : firstMismatch base body with
    | error e' => simp [bind, Except.bind]
    | ok u => simp [bind, Except.bind, pure, Except.pure]
  · exact objectOffset_of_lt (by omega)

/-- Two bytes at offset 250 of an object, where the pattern starts over at 251; and five from
    two bytes before the end of a `usize`, where the offset does. -/
theorem verifiers_exact_wrap : sizeFromPath "/size/300".toList ≠ none ∧
    verifyZeroCopyAt ⟨4096, 7, [250, 0, 9], none, by decide⟩ 250 2 "/size/300".toList = .ok true ∧
    verifyZeroCopyAt ⟨4096, 7, [250, 0, 9], none, by decide⟩ 250 3 "/size/300".toList = .error (.mismatch 252 9 1) ∧
    verifyStreamBodyAt [67, 68, 0, 1, 2] true "/size/300".toList (2 ^ 64 - 2) = .ok true := by
  have hpath : sizeFromPath "/size/300".toList ≠ none := by decide +kernel
  obtain ⟨hsame, hexact⟩ := verifiers_exact ⟨4096, 7, [250, 0, 9], none, by decide⟩ "/size/300".toList 250 hpath
  refine ⟨hpath, ?_, ?_, ?_⟩
  · rw [hsame 2 (by decide)]
    exact (hexact _).1.mpr (by decide)
  · rw [hsame 3 (by decide)]
    exact ((hexact _).2.1 _).mpr ⟨2, 9, [], by decide, by decide, by decide⟩
  · have hbody := (verifiers_exact ⟨4096, 7, [], none, by decide⟩ "/size/300".toList (2 ^ 64 - 2) hpath).2
    exact (hbody [67, 68, 0, 1, 2]).1.mpr (by decide)

/-! What a server delivers. -/

/-- The filling of a source: one that is too small is not filled. -/
def patternFill (base n : Nat) (src : RegisteredBuffer) : RegisteredBuffer :=
  (patternFillRegisteredFrom src base n).toOption.getD src

/-- A byte that the NIC places at an address. -/
def ZeroCopyRequest.put (zc : ZeroCopyRequest) (p : Nat × Option UInt8) : ZeroCopyRequest where
  addr := zc.addr
  rkey := zc.rkey
  storage := match p.2 with
    | some b => if zc.addr.toNat ≤ p.1 then zc.storage.set (p.1 - zc.addr.toNat) b else zc.storage
    | none => zc.storage
  id := zc.id
  inside := by
    cases p.2 with
    | none => exact zc.inside
    | some b =>
      dsimp only
      split
      · rw [List.length_set]
        exact zc.inside
      · exact zc.inside

/-- The buffer after a delivery. -/
def ZeroCopyRequest.land (zc : ZeroCopyRequest) (placed : List (Nat × Option UInt8)) : ZeroCopyRequest := placed.foldl put zc

section Landing
variable {zc : ZeroCopyRequest}

theorem patternFill_fills (base n : Nat) : Fills (pattern base n) (patternFill base n) where
  body src h := by
    rw [pattern_length] at h ⊢
    rw [patternFill, patternFillRegisteredFrom_ok base h]
    show (pattern base n ++ src.storage.drop n).take n = pattern base n
    exact List.take_left' (pattern_length base n)
  size src := by
    rw [patternFill]
    rcases Nat.lt_or_ge src.storage.length n with hlt | hge
    · cases hfill : patternFillRegisteredFrom src base n with
      | error e => rfl
      | ok filled => exact patternFillLoop_length hfill
    · rw [patternFillRegisteredFrom_ok base hge]
      show (pattern base n ++ src.storage.drop n).length = src.storage.length
      rw [List.length_append, pattern_length, List.length_drop]
      omega

@[simp]
theorem ZeroCopyRequest.put_addr (p : Nat × Option UInt8) : (zc.put p).addr = zc.addr := rfl

/-- Bytes from `k` on land behind the first `k` bytes. -/
theorem ZeroCopyRequest.land_from (body : Bytes) (k : Nat) (zc : ZeroCopyRequest) (h : k + body.length ≤ zc.storage.length) :
    (zc.land ((body.zipIdx k).map fun b => ((zc.addr.toNat + b.2) % 2 ^ 64, some b.1))).storage =
      zc.storage.take k ++ body ++ zc.storage.drop (k + body.length) := by
  induction body generalizing k zc with
  | nil => simp [land]
  | cons b body ih =>
    have hinside := zc.inside
    rw [List.length_cons] at h
    have haddr : (zc.addr.toNat + k) % 2 ^ 64 = zc.addr.toNat + k := Nat.mod_eq_of_lt (by omega)
    have hput : (zc.put (zc.addr.toNat + k, some b)).storage = zc.storage.set k b := by
      simp [put]
    have hlen : (zc.put (zc.addr.toNat + k, some b)).storage.length = zc.storage.length := by rw [hput, List.length_set]
    have hnext := ih (k + 1) (zc.put (zc.addr.toNat + k, some b)) (by omega)
    rw [List.zipIdx_cons, List.map_cons, land, List.foldl_cons, haddr]
    refine hnext.trans ?_
    have hk : k < zc.storage.length := by omega
    have hsum : k + 1 + body.length = k + (body.length + 1) := by omega
    rw [hput, List.length_cons, hsum, List.take_set, List.drop_set_of_lt (by omega), List.take_add_one,
      List.set_append_right _ _ (by simp)]
    simp [Nat.min_eq_left (Nat.le_of_lt hk), List.getElem?_eq_getElem hk]

/-- A body at the buffer's address fills its front. -/
theorem ZeroCopyRequest.land_bodyAt {body : Bytes} (h : body.length ≤ zc.storage.length) :
    (zc.land (bodyAt zc.addr.toNat body)).storage = body ++ zc.storage.drop body.length := by
  have hland := land_from body 0 zc (by omega)
  rwa [List.take_zero, List.nil_append, Nat.zero_add] at hland

theorem ZeroCopyRequest.request_len (zc : ZeroCopyRequest) : zc.request.len.toNat = zc.capacity := by
  have hinside := zc.inside
  rw [request, capacity]
  rw [UInt64.toNat_ofNat']
  exact Nat.mod_eq_of_lt (by omega)

end Landing

/-- A client's buffer of any size and place, and a server with a pool of any history: when one
    of the four entry points has served a part of the object and returned `Ok`, either the
    buffer was too small, the status says so and nothing was placed in it, or the status is
    complete with the length of the part, the client's check of the part passes at its offset
    in the object, and the bytes after it are as they were. -/
theorem served_verifies {poolSize bufSize : Nat} {es : List (Option PoolEvent)} {u : Pool}
    (hu : Run Pool.Life (Pool.new poolSize bufSize) es u) (register : Nat → Except IoError RegisteredBuffer)
    (hregister : Registers u register) (zc : ZeroCopyRequest) (base : Nat) (len : UInt64) (split : Bool)
    (path : List Char) (hpath : sizeFromPath path ≠ none) (d : Delivery)
    (h : Serves u.inner register zc.request len split (patternFill base len.toNat) d) :
    (zc.capacity < len.toNat ∧ d.status = .tooLarge len ∧ zc.land d.bytes = zc) ∨
    (len.toNat ≤ zc.capacity ∧ d.status = .complete len ∧
      verifyZeroCopyAt (zc.land d.bytes) base len.toNat path = .ok true ∧
      (zc.land d.bytes).storage.drop len.toNat = zc.storage.drop len.toNat) := by
  -- whichever entry point it was, the delivery is the one that was asked for
  have hd : d = zc.request.delivery len split (pattern base len.toNat) :=
    h.delivery (fun n src hsrc => (hregister.size n src hsrc).ge)
      (fun n src hsrc => (Pool.life_sound hu).lend_size hregister hsrc) (pattern_length ..) (patternFill_fills ..)
  have hlen := zc.request_len
  rw [RdmaWriteReq.delivery] at hd
  by_cases hlarge : zc.request.len < len
  · left
    rw [if_pos hlarge] at hd
    rw [UInt64.lt_iff_toNat_lt, hlen] at hlarge
    subst hd
    exact ⟨hlarge, rfl, rfl⟩
  · right
    rw [if_neg hlarge] at hd
    rw [UInt64.lt_iff_toNat_lt, hlen, Nat.not_lt] at hlarge
    have hfits : (pattern base len.toNat).length ≤ zc.storage.length := (pattern_length ..).trans_le hlarge
    have hland := ZeroCopyRequest.land_bodyAt hfits
    rw [pattern_length] at hland
    subst hd
    refine ⟨hlarge, rfl, ?_, ?_⟩
    · have hcap : len.toNat ≤ (zc.land (bodyAt zc.addr.toNat (pattern base len.toNat))).storage.length := by
        rw [hland, List.length_append, pattern_length]
        omega
      rw [show zc.request.addr = zc.addr from rfl, verifyZeroCopyAt_eq base path hcap, verifyStreamBodyAt_true_iff, hland,
        List.take_left' (pattern_length ..), pattern_length]
      exact ⟨rfl, hpath, rfl⟩
    · rw [show zc.request.addr = zc.addr from rfl, hland, List.drop_left' (pattern_length ..)]

/-- Two bytes at offset 250, for a buffer of three at 1000: the third stays as it is. -/
theorem served_verifies_two : ∃ d, (serveRdmaWrite zeroed ⟨1000, 9, 3, none⟩ 2 false (patternFill 250 2)).Returned d ∧
    d.status = .complete 2 ∧
    verifyZeroCopyAt ((⟨1000, 9, [1, 2, 3], none, by decide⟩ : ZeroCopyRequest).land d.bytes) 250 2 "/size/300".toList =
      .ok true ∧
    ((⟨1000, 9, [1, 2, 3], none, by decide⟩ : ZeroCopyRequest).land d.bytes).storage.drop 2 = [3] := by
  have hreg : Registers (Pool.new 1 3) zeroed := by
    refine ⟨fun n buf h => ?_, fun n buf h => List.not_mem_nil⟩
    cases h
    exact List.length_replicate
  obtain ⟨o₀, ls, u, hinit, hrun, hgood⟩ := Owner.launch_logged tinyConfig
    (tinySetup.map .cmd ++ [.enter (.rdmaWriteAll ⟨4096, 5, [250, 0]⟩ 0 1000 9 2 none), .act, .cmd .carry,
      .cmd (.reap ⟨writeWrId 0, 0, .rdmaWrite, 0, 0⟩), .act])
    (fun u => u.1.ended (.rdmaWriteAll ⟨4096, 5, [250, 0]⟩ 0 1000 9 2 none) true) (by decide +kernel)
  obtain ⟨r, took, hcall, hok⟩ := Owner.ended_call hgood
  cases r with
  | error e => cases hok
  | ok v =>
    have hfill : patternFill 250 2 ⟨4096, 5, [0, 0]⟩ = ⟨4096, 5, [250, 0]⟩ := by
      rw [patternFill, patternFillRegisteredFrom_ok 250 (Nat.le_refl 2)]
      rfl
    have hplan : serveRdmaWrite zeroed ⟨1000, 9, 3, none⟩ 2 false (patternFill 250 2) =
        .write ⟨4096, 5, [250, 0]⟩ (.rdmaWriteAll ⟨4096, 5, [250, 0]⟩ 0 1000 9 2 none) (.complete 2) := by
      rw [← hfill]
      rfl
    have hserved : (serveRdmaWrite zeroed ⟨1000, 9, 3, none⟩ 2 false (patternFill 250 2)).Returned
        ⟨.complete 2, fetched ⟨4096, 5, [250, 0]⟩ u.2, u.2.filterMap SendWr.imm⟩ := by
      rw [hplan]
      exact .write _ _ _ o₀ ls u v took hinit (hrun.mono fun _ _ _ hs => hs.1) hcall
    refine ⟨_, hserved, ?_⟩
    rcases served_verifies (.nil _) zeroed hreg ⟨1000, 9, [1, 2, 3], none, by decide⟩ 250 2 false "/size/300".toList
      (by decide +kernel) _ (.plain hserved) with ⟨hlarge, -⟩ | ⟨-, hstatus, hverified, hrest⟩
    · exact absurd hlarge (by decide)
    · exact ⟨hstatus, hverified, hrest⟩

end Hord
