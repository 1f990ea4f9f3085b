import Hord.Http
import Hord.Ranges

/- The two demo servers: `serveOne`, which writes its response on the blocking stream, and
   `serve`, the handler that hyper calls. Each decides for itself on the method, the path, the
   size, the range, the `X-HORD-RDMA-Write` header and the outcome of the write. What the
   handler reads of a request goes through `Uri::path` and `HeaderValue::to_str`, which are
   not in the repository and stay parameters (`Hyper`). The responses of both servers keep
   the rule of header presence (`Response.Present`, `Response.Tidy`), and where the write
   does not fail they are the same response, up to the greeting (`servers_agree`). -/
namespace Hord

open Text

/-- The parts of a request that the handlers read: texts as they stand in the head. -/
structure Request where
  method : List Char
  target : List Char
  range : Option (List Char)
  header : Option (List Char)
  deriving DecidableEq

/-- How the handler reads a request: the path of its target, and the text of a header value. -/
structure Hyper where
  path : List Char → List Char
  toStr : List Char → Option (List Char)

/-- As `to_str` is documented: a text it yields is the value itself. -/
def Hyper.Faithful (h : Hyper) : Prop := ∀ value text, h.toStr value = some text → text = value

/-- What was negotiated on the connection. -/
structure Negotiated where
  zeroCopy : Bool
  split : Bool
  deriving DecidableEq

inductive ContentType where
  | plain
  | octets
  deriving DecidableEq

structure Response where
  code : Nat
  contentType : ContentType
  zc : Option RdmaWriteStatus
  contentRange : Option (List Char)
  body : List UInt8
  deriving DecidableEq

def maxBody : Nat := 2 ^ 30

def patternByte (i : Nat) : UInt8 := UInt8.ofNat (i % 251)

/-- The offset of a byte in its object is a `usize`, and a sum wraps as in the release build. -/
def objectOffset (position : Nat) : Nat := position % 2 ^ 64

/-- The bytes of the object from `base` on. -/
def pattern (base len : Nat) : List UInt8 := (List.range len).map fun i => patternByte (objectOffset (base + i))

def getMethod : List Char := ['G', 'E', 'T']
def rootPath : List Char := ['/']
def sizeRoute : List Char := ['/', 's', 'i', 'z', 'e', '/']

/-- The status of a response with a body to a request with the header, when the body
    travels on the stream. -/
def declinedIf (hadHeader : Bool) : Option RdmaWriteStatus := if hadHeader then some .declined else none

/-! The blocking server. -/

def respondUnsatisfiable (total : Nat) : Response := ⟨416, .octets, none, some (contentRangeUnsatisfied total), []⟩

/-- Nothing is answered when the write fails: the error closes the connection. -/
def serveSizeZeroCopy (c : Negotiated) (req : RdmaWriteReq) (base len total : Nat) (ranged delivered : Bool) :
    Option Response :=
  ((RdmaWriteAction.decide req (UInt64.ofNat len) c.split).outcome delivered).bind fun status =>
    match status with
    | .complete _ =>
      if ranged then some ⟨206, .octets, some status, some (contentRange base (base + len - 1) total), []⟩
      else some ⟨200, .octets, some status, none, []⟩
    | .tooLarge _ => some ⟨413, .octets, some status, none, []⟩
    | .declined => none

/-- The route `/size/<n>`. -/
def serveOneSize (c : Negotiated) (zcReq : Option RdmaWriteReq) (declined : Option RdmaWriteStatus)
    (range : Option (List Char)) (n : Nat) (delivered : Bool) : Option Response :=
  match (range.map fun value => parseRange value n).getD .full with
  | .unsatisfiable => some (respondUnsatisfiable n)
  | .range start last =>
    let len := last - start + 1
    match zcReq with
    | some req => serveSizeZeroCopy c req start len n true delivered
    | none => some ⟨206, .octets, declined, some (contentRange start last n), pattern start len⟩
  | .full =>
    match zcReq with
    | some req => serveSizeZeroCopy c req 0 n n false delivered
    | none => some ⟨200, .octets, declined, none, pattern 0 n⟩

def serveOne (c : Negotiated) (r : Request) (delivered : Bool) : Option Response :=
  let zcReq := if c.zeroCopy then r.header.bind RdmaWriteReq.parse else none
  let declined := declinedIf r.header.isSome
  if r.method ≠ getMethod then some ⟨405, .plain, declined, none, ascii "only GET is supported\n".toList⟩
  else if r.target = rootPath then
    some ⟨200, .plain, declined, none, ascii "HORD prototype server. Try GET /size/<bytes>.\n".toList⟩
  else
    match stripPrefix sizeRoute r.target with
    | some rest =>
      match parseUsize rest with
      | some n =>
        if n ≤ maxBody then serveOneSize c zcReq declined r.range n delivered
        else some ⟨413, .plain, declined, none, ascii "size exceeds server limit\n".toList⟩
      | none => some ⟨400, .plain, declined, none, ascii "bad size\n".toList⟩
    | none => some ⟨404, .plain, declined, none, ascii "not found\n".toList⟩

/-! The async server. -/

/-- The size of the frames of a streamed body. -/
def frameSize : Nat := 256 * 1024

/-- The frames of the object between two offsets. -/
def patternFrames (offset stop : Nat) : List (List UInt8) :=
  if _h : offset < stop then
    pattern offset (min frameSize (stop - offset)) :: patternFrames (offset + min frameSize (stop - offset)) stop
  else []
termination_by stop - offset
decreasing_by
  have : 0 < frameSize := by decide
  omega

/-- A failed write is answered with an error of its own. -/
def serveZeroCopy (c : Negotiated) (req : RdmaWriteReq) (base len total : Nat) (ranged delivered : Bool) :
    Option Response :=
  match (RdmaWriteAction.decide req (UInt64.ofNat len) c.split).outcome delivered with
  | some (.complete bytesWritten) =>
    some ⟨if ranged then 206 else 200, .octets, some (.complete bytesWritten),
      if ranged then some (contentRange base (base + len - 1) total) else none, []⟩
  | some (.tooLarge objectSize) => some ⟨413, .octets, some (.tooLarge objectSize), none, []⟩
  | some .declined => none
  | none => some ⟨500, .plain, none, none, ascii "zero-copy serve failed\n".toList⟩

def serveSize (c : Negotiated) (zcReq : Option RdmaWriteReq) (declined : Option RdmaWriteStatus)
    (range : Option (List Char)) (n : Nat) (delivered : Bool) : Option Response :=
  match (range.map fun value => parseRange value n).getD .full with
  | .unsatisfiable => some ⟨416, .octets, none, some (contentRangeUnsatisfied n), []⟩
  | .range start last =>
    let len := last - start + 1
    match zcReq with
    | some req => serveZeroCopy c req start len n true delivered
    | none =>
      some ⟨206, .octets, declined, some (contentRange start last n), (patternFrames start (start + len)).flatten⟩
  | .full =>
    match zcReq with
    | some req => serveZeroCopy c req 0 n n false delivered
    | none => some ⟨200, .octets, declined, none, (patternFrames 0 n).flatten⟩

def serve (h : Hyper) (c : Negotiated) (r : Request) (delivered : Bool) : Option Response :=
  let path := h.path r.target
  let rawHeader := r.header.bind h.toStr
  let zcReq := if c.zeroCopy then rawHeader.bind RdmaWriteReq.parse else none
  let range := r.range.bind h.toStr
  let declined := declinedIf rawHeader.isSome
  if r.method ≠ getMethod then some ⟨405, .plain, declined, none, ascii "only GET is supported\n".toList⟩
  else if path = rootPath then
    some ⟨200, .plain, declined, none, ascii "HORD async server. Try GET /size/<bytes>.\n".toList⟩
  else
    match stripPrefix sizeRoute path with
    | some rest =>
      match parseUsize rest with
      | some n =>
        if n ≤ maxBody then serveSize c zcReq declined range n delivered
        else some ⟨413, .plain, declined, none, ascii "size exceeds server limit\n".toList⟩
      | none => some ⟨400, .plain, declined, none, ascii "bad size\n".toList⟩
    | none => some ⟨404, .plain, declined, none, ascii "not found\n".toList⟩

/-- The handler sees the path of a target and nothing else of it. -/
theorem serve_path {h : Hyper} {c : Negotiated} {method target target' : List Char}
    {range header : Option (List Char)} {delivered : Bool} (hpath : h.path target = h.path target') :
    serve h c ⟨method, target, range, header⟩ delivered = serve h c ⟨method, target', range, header⟩ delivered := by
  unfold serve
  simp only [hpath]

/-! The rule of header presence. -/

/-- A body comes with a status if the request had the header. -/
def Response.Present (hadHeader : Bool) (resp : Response) : Prop := resp.body ≠ [] → hadHeader → resp.zc.isSome

/-- An unsatisfiable range carries no status, and a body travels on the stream or with the
    write, not both. -/
structure Response.Tidy (resp : Response) : Prop where
  unsatisfiable : resp.code = 416 → resp.zc = none
  written : ∀ status, resp.zc = some status → status ≠ .declined → resp.body = []

/-- A response with the body on the stream. -/
structure Response.Streamed (hadHeader : Bool) (resp : Response) : Prop where
  code : resp.code ≠ 416 ∧ resp.code ≠ 500
  zc : resp.zc = declinedIf hadHeader

/-- A response without a body: a range past the end, or the outcome of a write. -/
structure Response.Bodiless (resp : Response) : Prop where
  code : resp.code ≠ 500
  body : resp.body = []
  zc : resp.code = 416 → resp.zc = none

/-- The leaves of the handlers other than a failed write. -/
def Response.Regular (hadHeader : Bool) (resp : Response) : Prop := resp.Streamed hadHeader ∨ resp.Bodiless

section Rule
variable {hadHeader : Bool} {resp : Response}

theorem Response.Bodiless.of_code {code : Nat} {contentType : ContentType} {zc : Option RdmaWriteStatus}
    {contentRange : Option (List Char)} (h : code ≠ 416 ∧ code ≠ 500) :
    Response.Bodiless ⟨code, contentType, zc, contentRange, []⟩ :=
  ⟨h.2, rfl, fun hcode => absurd hcode h.1⟩

theorem Response.Regular.streamed {code : Nat} {contentType : ContentType} {contentRange : Option (List Char)}
    {body : List UInt8} (h : code ≠ 416 ∧ code ≠ 500) :
    Response.Regular hadHeader ⟨code, contentType, declinedIf hadHeader, contentRange, body⟩ :=
  .inl ⟨h, rfl⟩

theorem Response.Regular.unsatisfiable (total : Nat) : Response.Regular hadHeader (respondUnsatisfiable total) :=
  .inr ⟨by simp [respondUnsatisfiable], rfl, fun _ => rfl⟩

theorem Response.Regular.present (h : resp.Regular hadHeader) : resp.Present hadHeader := by
  intro hbody hhad
  rcases h with h | h
  · rw [h.zc, hhad]
    rfl
  · exact absurd h.body hbody

theorem Response.Regular.tidy (h : resp.Regular hadHeader) : resp.Tidy := by
  rcases h with h | h
  · refine ⟨fun hcode => absurd hcode h.code.1, fun status hstatus hnot => ?_⟩
    rw [h.zc] at hstatus
    cases hadHeader with
    | true => exact absurd (Option.some.inj hstatus).symm hnot
    | false => cases hstatus
  · exact ⟨h.zc, fun _ _ _ => h.body⟩

theorem Response.Regular.code (h : resp.Regular hadHeader) : resp.code ≠ 500 := by
  rcases h with h | h
  · exact h.code.2
  · exact h.code

end Rule

section Handlers
variable {c : Negotiated} {r : Request} {delivered ranged hadHeader : Bool} {req : RdmaWriteReq}
  {zcReq : Option RdmaWriteReq} {range : Option (List Char)} {base len total n : Nat} {resp : Response}

/-- Declining is not an outcome of a write, and only a write fails. -/
theorem outcome_cases (req : RdmaWriteReq) (objectSize : UInt64) (split delivered : Bool) :
    ((RdmaWriteAction.decide req objectSize split).outcome delivered = none ∧ delivered = false) ∨
    (∃ n, (RdmaWriteAction.decide req objectSize split).outcome delivered = some (.complete n)) ∨
    ∃ n, (RdmaWriteAction.decide req objectSize split).outcome delivered = some (.tooLarge n) := by
  rcases RdmaWriteAction.decide_cases req objectSize split with ⟨-, h⟩ | ⟨-, -, -, h⟩ | ⟨sourceLen, -, -, -, h⟩
  · rw [h]
    exact .inr (.inr ⟨_, rfl⟩)
  · rw [h]
    exact .inr (.inl ⟨_, rfl⟩)
  · rw [h]
    cases delivered with
    | true => exact .inr (.inl ⟨_, rfl⟩)
    | false => exact .inl ⟨rfl, rfl⟩

theorem serveSizeZeroCopy_bodiless (h : serveSizeZeroCopy c req base len total ranged delivered = some resp) :
    resp.Bodiless := by
  rw [serveSizeZeroCopy] at h
  rcases outcome_cases req (UInt64.ofNat len) c.split delivered with ⟨hout, -⟩ | ⟨n, hout⟩ | ⟨n, hout⟩
  · rw [hout] at h
    cases h
  · rw [hout] at h
    cases ranged with
    | true => cases h; exact .of_code (by decide)
    | false => cases h; exact .of_code (by decide)
  · rw [hout] at h
    cases h
    exact .of_code (by decide)

/-- Without a failure the two zero-copy paths give the same response. -/
theorem serveZeroCopy_of_serveSizeZeroCopy (h : serveSizeZeroCopy c req base len total ranged delivered = some resp) :
    serveZeroCopy c req base len total ranged delivered = some resp := by
  rw [serveSizeZeroCopy] at h
  rw [serveZeroCopy]
  rcases outcome_cases req (UInt64.ofNat len) c.split delivered with ⟨hout, -⟩ | ⟨n, hout⟩ | ⟨n, hout⟩
  · rw [hout] at h
    cases h
  · rw [hout] at h ⊢
    cases ranged with
    | true => exact h
    | false => exact h
  · rw [hout] at h ⊢
    exact h

/-- The failed write of the async server. -/
def failedResponse : Response := ⟨500, .plain, none, none, ascii "zero-copy serve failed\n".toList⟩

theorem serveZeroCopy_cases (c : Negotiated) (req : RdmaWriteReq) (base len total : Nat) (ranged delivered : Bool) :
    (serveZeroCopy c req base len total ranged delivered = some failedResponse ∧ delivered = false) ∨
    ∃ resp, serveZeroCopy c req base len total ranged delivered = some resp ∧ resp.Bodiless := by
  rcases outcome_cases req (UInt64.ofNat len) c.split delivered with ⟨hout, hd⟩ | ⟨n, hout⟩ | ⟨n, hout⟩
  · left
    rw [serveZeroCopy, hout]
    exact ⟨rfl, hd⟩
  · right
    rw [serveZeroCopy, hout]
    cases ranged with
    | true => exact ⟨_, rfl, .of_code (by decide)⟩
    | false => exact ⟨_, rfl, .of_code (by decide)⟩
  · right
    rw [serveZeroCopy, hout]
    exact ⟨_, rfl, .of_code (by decide)⟩

theorem serveSizeZeroCopy_isSome (c : Negotiated) (req : RdmaWriteReq) (base len total : Nat) (ranged : Bool) :
    (serveSizeZeroCopy c req base len total ranged true).isSome := by
  rcases outcome_cases req (UInt64.ofNat len) c.split true with ⟨-, hd⟩ | ⟨n, hout⟩ | ⟨n, hout⟩
  · cases hd
  · rw [serveSizeZeroCopy, hout]
    cases ranged with
    | true => rfl
    | false => rfl
  · rw [serveSizeZeroCopy, hout]
    rfl

/-! The route `/size/<n>`. -/

theorem pattern_add (base m n : Nat) : pattern base (m + n) = pattern base m ++ pattern (base + m) n := by
  simp only [pattern, List.range_add, List.map_append, List.map_map]
  congr 1
  apply List.map_congr_left
  intro i _
  simp only [Function.comp, Nat.add_assoc]

/-- The frames make up the body. -/
theorem patternFrames_flatten (offset stop : Nat) : (patternFrames offset stop).flatten = pattern offset (stop - offset) := by
  induction hn : stop - offset using Nat.strongRecOn generalizing offset with
  | ind k ih =>
    have hpos : 0 < frameSize := by decide
    rw [patternFrames]
    split
    · next hlt =>
      have hk : k = min frameSize (stop - offset) + (stop - (offset + min frameSize (stop - offset))) := by omega
      rw [List.flatten_cons, ih _ (by omega) _ rfl, ← pattern_add, ← hk]
    · next hge =>
      have hk : k = 0 := by omega
      subst hk
      rfl

theorem serveOneSize_regular (h : serveOneSize c zcReq (declinedIf hadHeader) range n delivered = some resp) :
    resp.Regular hadHeader := by
  unfold serveOneSize at h
  split at h
  · cases h
    exact .unsatisfiable n
  · cases zcReq with
    | some req => exact .inr (serveSizeZeroCopy_bodiless h)
    | none =>
      cases h
      exact .streamed (by decide)
  · cases zcReq with
    | some req => exact .inr (serveSizeZeroCopy_bodiless h)
    | none =>
      cases h
      exact .streamed (by decide)

theorem serveOneSize_isSome (declined : Option RdmaWriteStatus) : (serveOneSize c zcReq declined range n true).isSome := by
  unfold serveOneSize
  split
  · rfl
  · cases zcReq with
    | some req => exact serveSizeZeroCopy_isSome ..
    | none => rfl
  · cases zcReq with
    | some req => exact serveSizeZeroCopy_isSome ..
    | none => rfl

theorem serveSize_of_serveOneSize {declined : Option RdmaWriteStatus}
    (h : serveOneSize c zcReq declined range n delivered = some resp) :
    serveSize c zcReq declined range n delivered = some resp := by
  unfold serveOneSize at h
  unfold serveSize
  split at h
  · exact h
  · cases zcReq with
    | some req => exact serveZeroCopy_of_serveSizeZeroCopy h
    | none =>
      simp only [patternFrames_flatten, Nat.add_sub_cancel_left]
      exact h
  · cases zcReq with
    | some req => exact serveZeroCopy_of_serveSizeZeroCopy h
    | none =>
      simp only [patternFrames_flatten, Nat.sub_zero]
      exact h

theorem serveSize_cases (c : Negotiated) (zcReq : Option RdmaWriteReq) (hadHeader : Bool) (range : Option (List Char))
    (n : Nat) (delivered : Bool) :
    (serveSize c zcReq (declinedIf hadHeader) range n delivered = some failedResponse ∧ delivered = false) ∨
    ∃ resp, serveSize c zcReq (declinedIf hadHeader) range n delivered = some resp ∧ resp.Regular hadHeader := by
  have hzc : ∀ req base len total ranged,
      (serveZeroCopy c req base len total ranged delivered = some failedResponse ∧ delivered = false) ∨
      ∃ resp, serveZeroCopy c req base len total ranged delivered = some resp ∧ resp.Regular hadHeader := by
    intro req base len total ranged
    rcases serveZeroCopy_cases c req base len total ranged delivered with h | ⟨resp, h, hless⟩
    · exact .inl h
    · exact .inr ⟨resp, h, .inr hless⟩
  unfold serveSize
  split
  · exact .inr ⟨_, rfl, .unsatisfiable n⟩
  · cases zcReq with
    | some req => exact hzc ..
    | none => exact .inr ⟨_, rfl, .streamed (by decide)⟩
  · cases zcReq with
    | some req => exact hzc ..
    | none => exact .inr ⟨_, rfl, .streamed (by decide)⟩

/-! The handlers. -/

theorem serveOne_regular (h : serveOne c r delivered = some resp) : resp.Regular r.header.isSome := by
  simp only [serveOne] at h
  split at h
  · cases h
    exact .streamed (by decide)
  · split at h
    · cases h
      exact .streamed (by decide)
    · split at h
      · split at h
        · split at h
          · exact serveOneSize_regular h
          · cases h
            exact .streamed (by decide)
        · cases h
          exact .streamed (by decide)
      · cases h
        exact .streamed (by decide)

theorem serveOne_isSome (c : Negotiated) (r : Request) : (serveOne c r true).isSome := by
  simp only [serveOne]
  split
  · rfl
  · split
    · rfl
    · split
      · split
        · split
          · exact serveOneSize_isSome _
          · rfl
        · rfl
      · rfl

theorem serve_cases (h : Hyper) (c : Negotiated) (r : Request) (delivered : Bool) :
    (serve h c r delivered = some failedResponse ∧ delivered = false) ∨
    ∃ resp, serve h c r delivered = some resp ∧ resp.Regular (r.header.bind h.toStr).isSome := by
  simp only [serve]
  split
  · exact .inr ⟨_, rfl, .streamed (by decide)⟩
  · split
    · exact .inr ⟨_, rfl, .streamed (by decide)⟩
    · split
      · split
        · split
          · exact serveSize_cases ..
          · exact .inr ⟨_, rfl, .streamed (by decide)⟩
        · exact .inr ⟨_, rfl, .streamed (by decide)⟩
      · exact .inr ⟨_, rfl, .streamed (by decide)⟩

theorem failedResponse_tidy : failedResponse.Tidy := by
  refine ⟨fun _ => rfl, fun status hstatus => ?_⟩
  cases hstatus

/-- A header value, if there is one, is a text for the handler. -/
def Hyper.Reads (h : Hyper) (value : Option (List Char)) : Prop := ∀ v, value = some v → (h.toStr v).isSome

/-- Then it is the text the blocking server reads. -/
theorem Hyper.Reads.same {h : Hyper} {value : Option (List Char)} (hreads : h.Reads value) (hf : h.Faithful) :
    value.bind h.toStr = value := by
  cases value with
  | none => rfl
  | some v =>
    obtain ⟨text, htext⟩ := Option.isSome_iff_exists.mp (hreads v rfl)
    rw [Option.bind_some, htext, hf v text htext]

/-- The handler sees the request that the blocking server sees: the target is a path, and the
    header values are texts. -/
structure Hyper.Sees (h : Hyper) (r : Request) : Prop where
  path : h.path r.target = r.target
  range : h.Reads r.range
  header : h.Reads r.header

/-- Away from the greeting, the async server gives every response of the blocking one. -/
theorem serve_of_serveOne {h : Hyper} (hf : h.Faithful) (hsees : h.Sees r)
    (hroot : ¬(r.method = getMethod ∧ r.target = rootPath)) (hone : serveOne c r delivered = some resp) :
    serve h c r delivered = some resp := by
  simp only [serveOne] at hone
  simp only [serve, hsees.path, hsees.range.same hf, hsees.header.same hf]
  by_cases hget : r.method = getMethod
  · have hpath : ¬r.target = rootPath := fun hpath => hroot ⟨hget, hpath⟩
    rw [if_neg (not_not.mpr hget), if_neg hpath] at hone ⊢
    cases hstrip : stripPrefix sizeRoute r.target with
    | none =>
      rw [hstrip] at hone
      exact hone
    | some rest =>
      rw [hstrip] at hone
      simp only at hone ⊢
      cases hn : parseUsize rest with
      | none =>
        rw [hn] at hone
        exact hone
      | some n =>
        rw [hn] at hone
        simp only at hone ⊢
        split
        · next hle =>
          rw [if_pos hle] at hone
          exact serveSize_of_serveOneSize hone
        · next hgt =>
          rw [if_neg hgt] at hone
          exact hone
  · rw [if_pos hget] at hone ⊢
    exact hone

end Handlers

/-- Whatever the request, the connection and the outcome of the write: a response of the
    blocking server keeps the rule of header presence, and so does one of the async server
    that does not report a failed write, if `to_str` takes the header's value. An
    unsatisfiable range carries no status, and a complete or too large outcome no body, on
    any leaf. Where the write does not fail, the target is its own path and `to_str` takes
    the values, the two servers give the same code, status, `Content-Range` and, away from
    the greeting, body length. -/
theorem servers_agree (h : Hyper) (hf : h.Faithful) (c : Negotiated) (r : Request) (delivered : Bool) :
    (∀ resp, serveOne c r delivered = some resp → resp.Present r.header.isSome ∧ resp.Tidy) ∧
    (∃ resp, serve h c r delivered = some resp ∧ resp.Tidy ∧
      (resp.code ≠ 500 → h.Reads r.header → resp.Present r.header.isSome) ∧
      (delivered = true → resp.code ≠ 500)) ∧
    (delivered = true → (serveOne c r delivered).isSome) ∧
    (∀ resp, serveOne c r delivered = some resp → h.Sees r →
      ∃ resp', serve h c r delivered = some resp' ∧ resp'.code = resp.code ∧ resp'.zc = resp.zc ∧
        resp'.contentRange = resp.contentRange ∧
        (¬(r.method = getMethod ∧ r.target = rootPath) → resp'.body.length = resp.body.length)) := by
  refine ⟨fun resp hone => ?_, ?_, fun hd => ?_, fun resp hone hsees => ?_⟩
  · exact ⟨(serveOne_regular hone).present, (serveOne_regular hone).tidy⟩
  · rcases serve_cases h c r delivered with ⟨hserve, hd⟩ | ⟨resp, hserve, hregular⟩
    · refine ⟨_, hserve, failedResponse_tidy, fun hcode => absurd rfl hcode, fun htrue => ?_⟩
      rw [hd] at htrue
      cases htrue
    · refine ⟨resp, hserve, hregular.tidy, fun _ hreads => ?_, fun _ => hregular.code⟩
      rw [hreads.same hf] at hregular
      exact hregular.present
  · rw [hd]
    exact serveOne_isSome c r
  · by_cases hroot : r.method = getMethod ∧ r.target = rootPath
    · -- the greeting differs in its text only
      simp only [serveOne, if_neg (not_not.mpr hroot.1), if_pos hroot.2] at hone
      refine ⟨⟨200, .plain, declinedIf r.header.isSome, none, ascii "HORD async server. Try GET /size/<bytes>.\n".toList⟩,
        ?_, ?_⟩
      · simp only [serve, if_neg (not_not.mpr hroot.1), if_pos (hsees.path.trans hroot.2), hsees.header.same hf]
      · cases hone
        exact ⟨rfl, rfl, rfl, fun hnot => absurd hroot hnot⟩
    · have hserve := serve_of_serveOne hf hsees hroot hone
      exact ⟨resp, hserve, rfl, rfl, rfl, fun _ => rfl⟩

/-- What `hyper` makes of a target that begins with its path, and of a header value: the path
    ends at a query or a fragment, and only visible ASCII characters make a text. -/
def Hyper.plain : Hyper where
  path target := target.takeWhile fun c => c != '?' && c != '#'
  toStr value := if value.all fun c => (32 ≤ c.toNat && c.toNat < 127) || c == '\t' then some value else none

theorem Hyper.plain_faithful : Hyper.plain.Faithful := by
  intro value text htext
  simp only [Hyper.plain] at htext
  split at htext
  · exact (Option.some.inj htext).symm
  · cases htext

/-- `GET /size/8`, bytes 2 to 5, into a buffer of 16 bytes. -/
theorem servers_agree_ranged :
    let r : Request := ⟨getMethod, "/size/8".toList, some "bytes=2-5".toList, some "addr=0x10;rkey=1;len=16".toList⟩
    ∃ resp resp', serveOne ⟨true, false⟩ r true = some resp ∧ serve .plain ⟨true, false⟩ r true = some resp' ∧
      resp.zc = some (.complete 4) ∧ resp'.zc = resp.zc ∧ resp'.contentRange = resp.contentRange ∧
      resp'.body.length = resp.body.length := by
  have hone : serveOne ⟨true, false⟩
      ⟨getMethod, "/size/8".toList, some "bytes=2-5".toList, some "addr=0x10;rkey=1;len=16".toList⟩ true =
      some ⟨206, .octets, some (.complete 4), some (contentRange 2 5 8), []⟩ := by decide +kernel
  have hsees : Hyper.plain.Sees
      ⟨getMethod, "/size/8".toList, some "bytes=2-5".toList, some "addr=0x10;rkey=1;len=16".toList⟩ := by
    refine ⟨by decide +kernel, fun v hv => ?_, fun v hv => ?_⟩
    · cases hv
      decide +kernel
    · cases hv
      decide +kernel
  obtain ⟨resp', hserve, -, hzc, hrange, hlen⟩ := (servers_agree .plain Hyper.plain_faithful ⟨true, false⟩
    ⟨getMethod, "/size/8".toList, some "bytes=2-5".toList, some "addr=0x10;rkey=1;len=16".toList⟩ true).2.2.2
    _ hone hsees
  exact ⟨_, resp', hone, hserve, rfl, hzc, hrange, hlen (by decide +kernel)⟩

/-- The greetings have different lengths; a failed write is answered with a body and no
    status by the async server; a header value that is not visible ASCII goes unnoticed
    there; and a query or a fragment is part of the path for the blocking server only. -/
theorem servers_differ :
    (∃ resp resp', serveOne ⟨true, true⟩ ⟨getMethod, rootPath, none, none⟩ true = some resp ∧
      serve .plain ⟨true, true⟩ ⟨getMethod, rootPath, none, none⟩ true = some resp' ∧
      resp.body.length ≠ resp'.body.length) ∧
    (∃ resp, serve .plain ⟨true, false⟩ ⟨getMethod, "/size/1".toList, none, some "addr=0x10;rkey=1;len=16".toList⟩ false =
      some resp ∧ ¬resp.Present true) ∧
    (∃ resp, serve .plain ⟨true, false⟩ ⟨getMethod, "/x".toList, none, some "é".toList⟩ true = some resp ∧
      ¬resp.Present true) ∧
    ∀ target ∈ ["/size/1?a".toList, "/size/1#a".toList], ∃ resp resp',
      serveOne ⟨false, false⟩ ⟨getMethod, target, none, none⟩ true = some resp ∧
      serve .plain ⟨false, false⟩ ⟨getMethod, target, none, none⟩ true = some resp' ∧ resp.code ≠ resp'.code := by
  have hpath : Hyper.plain.path "/size/1".toList = "/size/1".toList := by decide +kernel
  have hserve : serve .plain ⟨false, false⟩ ⟨getMethod, "/size/1".toList, none, none⟩ true =
      some ⟨200, .octets, none, none, pattern 0 1⟩ := by
    refine serve_of_serveOne Hyper.plain_faithful ⟨hpath, fun v hv => ?_, fun v hv => ?_⟩ (by decide +kernel)
      (by decide +kernel)
    · cases hv
    · cases hv
  -- the handler sees the path alone
  have hsame : ∀ target, Hyper.plain.path target = "/size/1".toList →
      serve .plain ⟨false, false⟩ ⟨getMethod, target, none, none⟩ true = some ⟨200, .octets, none, none, pattern 0 1⟩ := by
    intro target htarget
    exact (serve_path (htarget.trans hpath.symm)).trans hserve
  refine ⟨⟨_, _, rfl, rfl, by decide +kernel⟩, ⟨failedResponse, by decide +kernel, ?_⟩, ⟨_, rfl, ?_⟩, fun target ht => ?_⟩
  · intro hpresent
    exact absurd (hpresent (by decide +kernel) rfl) (by decide)
  · intro hpresent
    exact absurd (hpresent (by decide +kernel) rfl) (by decide +kernel)
  · refine ⟨⟨400, .plain, none, none, ascii "bad size\n".toList⟩, ⟨200, .octets, none, none, pattern 0 1⟩, ?_, ?_, by decide⟩
    · rcases List.mem_cons.mp ht with rfl | ht
      · decide +kernel
      · rw [List.mem_singleton.mp ht]
        decide +kernel
    · refine hsame target ?_
      rcases List.mem_cons.mp ht with rfl | ht
      · decide +kernel
      · rw [List.mem_singleton.mp ht]
        decide +kernel

end Hord
