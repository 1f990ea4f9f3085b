import Hord.Pattern

/- The blocking client of the demo, and its exchange with the blocking server. The client asks
   for an object or for a range of it, offers a buffer for the body if it may, and takes
   delivery of what the server answers: out of the buffer, off the stream, or not at all. The
   server's three ways to write a response are `Response.lines`; the bytes it places in the
   buffer are those of `serveOneWrite`.

   What the client reports can be trusted, whatever answers it (`verified_sound`): a verified
   delivery is the pattern, of the length it states, at the offset of the range. And the
   demo server's answer is delivered whole, however the two directions of the stream are cut
   (`exchange_delivers`). -/
namespace Hord

open Text

/-! The server's side. -/

/-- What the server's handler reads of a head. -/
def Head.request (h : Head) : Request :=
  ⟨h.start.1, h.start.2.1, h.header HeaderName.range.text, h.header HeaderName.rdmaWrite.text⟩

/-- The request, the offset and the length with which `serve_one` calls
    `serve_rdma_write_pooled`, if it does. -/
def serveOneWrite (c : Negotiated) (r : Request) : Option (RdmaWriteReq × Nat × Nat) :=
  let zcReq := if c.zeroCopy then r.header.bind RdmaWriteReq.parse else none
  if r.method ≠ getMethod then none
  else if r.target = rootPath then none
  else
    match stripPrefix sizeRoute r.target with
    | some rest =>
      match parseUsize rest with
      | some n =>
        if n ≤ maxBody then
          match (r.range.map fun value => parseRange value n).getD .full with
          | .unsatisfiable => none
          | .range start last => zcReq.map fun req => (req, start, last - start + 1)
          | .full => zcReq.map fun req => (req, 0, n)
        else none
      | none => none
    | none => none

/-- What the call places at the client. -/
def serveOnePlaced (c : Negotiated) (r : Request) (delivered : Bool) : List (Nat × Option UInt8) :=
  match serveOneWrite c r with
  | some (req, base, len) =>
    if delivered then (req.delivery (UInt64.ofNat len) c.split (pattern base len)).bytes else []
  | none => []

namespace Response

/-- The phrase after the code. -/
def reason : Nat → List Char
  | 200 => "OK".toList
  | 206 => "Partial Content".toList
  | 400 => "Bad Request".toList
  | 404 => "Not Found".toList
  | 405 => "Method Not Allowed".toList
  | 413 => "Content Too Large".toList
  | 416 => "Range Not Satisfiable".toList
  | _ => []

def statusLine (code : Nat) : List Char := "HTTP/1.1 ".toList ++ (Nat.toDigits 10 code ++ ' ' :: reason code)

end Response

def ContentType.text : ContentType → List Char
  | .plain => "text/plain".toList
  | .octets => "application/octet-stream".toList

namespace Response

/-- The first two headers of every response. -/
def bodyFields (contentType : ContentType) (length : Nat) : Fields :=
  [(.contentType, contentType.text), (.contentLength, Nat.toDigits 10 length)]

def closeFields : Fields := [(.connection, "close".toList)]

/-- A header that is there or not. -/
def optionalFields (name : HeaderName) (value : Option (List Char)) : Fields := (value.map fun v => (name, v)).toList

/-- The headers `respond` writes. -/
def respondFields (resp : Response) : Fields :=
  bodyFields resp.contentType resp.body.length ++ closeFields ++ optionalFields .contentRange resp.contentRange ++
    optionalFields .rdmaWrite (resp.zc.map RdmaWriteStatus.headerValue)

/-- The headers `serve_size_zero_copy` writes. -/
def zeroCopyFields (resp : Response) (status : RdmaWriteStatus) : Fields :=
  bodyFields .octets 0 ++ [(.rdmaWrite, status.headerValue)] ++ optionalFields .contentRange resp.contentRange ++ closeFields

/-- The headers `respond_unsatisfiable` writes. -/
def unsatisfiableFields (resp : Response) : Fields :=
  bodyFields .octets 0 ++ optionalFields .contentRange resp.contentRange ++ closeFields

/-- An unsatisfiable range and the outcome of a write have functions of their own. -/
def fields (resp : Response) : Fields :=
  if resp.code = 416 then resp.unsatisfiableFields
  else
    match resp.zc with
    | some (.complete n) => resp.zeroCopyFields (.complete n)
    | some (.tooLarge n) => resp.zeroCopyFields (.tooLarge n)
    | _ => resp.respondFields

def lines (resp : Response) : List (List Char) := statusLine resp.code :: resp.fields.lines

/-- What the server writes on the stream. -/
def wire (resp : Response) : Bytes := Utf8.encode (render resp.lines) ++ resp.body

end Response

/-! The client's side. -/

namespace Client

/-- The arguments of a run. -/
structure Args where
  server : List Char
  path : List Char
  zeroCopy : Bool
  zcBuf : Option Nat
  range : Option (List Char)
  deriving DecidableEq

def defaultZcBuf : Nat := 2 ^ 20

/-- The size of the buffer that may be offered: as asked for, or the range's, or the
    object's. -/
def Args.capacity (a : Args) : Nat :=
  ((a.zcBuf.or (resolveRange a.range (sizeFromPath a.path)).2).or (sizeFromPath a.path)).getD defaultZcBuf

def Args.rangeBase (a : Args) : Nat := (resolveRange a.range (sizeFromPath a.path)).1

/-- A buffer is offered if it was asked for, the peer can write to it and it has room for a
    byte. -/
def offerZeroCopy (negotiated requested : Bool) (capacity : Nat) (register : Nat → Option ZeroCopyRequest) :
    Except DemoError (Option ZeroCopyRequest) :=
  if requested = false then .ok none
  else if negotiated = false then .ok none
  else if capacity = 0 then .ok none
  else
    match register capacity with
    | some zc => .ok (some zc)
    | none => .error .register

/-- The headers of the request. -/
def requestFields (server : List Char) (range : Option (List Char)) (zc : Option ZeroCopyRequest) : Fields :=
  [(.host, server), (.userAgent, "hord-client/0.1".toList), (.connection, "close".toList)] ++
    Response.optionalFields .range (range.map fun spec => bytesUnit ++ spec) ++
    Response.optionalFields .rdmaWrite (zc.map fun zc => zc.request.headerValue)

def buildRequest (server path : List Char) (range : Option (List Char)) (zc : Option ZeroCopyRequest) : List Char :=
  render (("GET ".toList ++ path ++ " HTTP/1.1".toList) :: (requestFields server range zc).lines)

/-- Where a body came from. -/
inductive Source where
  /-- "zero-copy (RDMA write)" -/
  | zeroCopy
  /-- "none (too_large)" -/
  | tooLarge
  /-- "stream" -/
  | stream
  deriving DecidableEq

structure Delivery where
  bodyLen : Nat
  source : Source
  verified : Bool
  deriving DecidableEq

/-- What a run reports. -/
inductive Outcome where
  | notSatisfiable (reason : List Char) (contentRange : Option (List Char))
  | delivered (status reason : List Char) (contentRange : Option (List Char)) (d : Delivery)
  deriving DecidableEq

/-- A body of its length, off the stream. -/
def receiveStream (r : Reader) (h : Head) (leftover : Bytes) (rangeBase : Nat) (path : List Char) :
    Except DemoError Delivery :=
  match h.contentLength with
  | none => .error .noContentLength
  | some contentLength =>
    match readBody r leftover contentLength with
    | .error e => .error (.http e)
    | .ok (body, _) =>
      let status := h.start.2.1
      (verifyStreamBodyAt body (status == "200".toList || status == "206".toList) path rangeBase).map fun verified =>
        ⟨body.length, .stream, verified⟩

/-- The status of the response decides where the body is. -/
def receiveBody (r : Reader) (h : Head) (leftover : Bytes) (zc : Option ZeroCopyRequest) (rangeBase : Nat)
    (path : List Char) : Except DemoError Delivery :=
  match zc with
  | none => receiveStream r h leftover rangeBase path
  | some zc =>
    match (h.header HeaderName.rdmaWrite.text).bind RdmaWriteStatus.parse with
    | some (.complete bytesWritten) =>
      let n := bytesWritten.toNat
      if zc.capacity < n then .error (.overrun n zc.capacity)
      else (verifyZeroCopyAt zc rangeBase n path).map fun verified => ⟨n, .zeroCopy, verified⟩
    | some (.tooLarge _) => .ok ⟨0, .tooLarge, false⟩
    | _ => receiveStream r h leftover rangeBase path

/-- The part of a run that follows the request. -/
def receive (r : Reader) (zc : Option ZeroCopyRequest) (rangeBase : Nat) (path : List Char) : Except DemoError Outcome :=
  match readHead r with
  | .error e => .error (.http e)
  | .ok ((headBytes, leftover), r) =>
    (Head.parse headBytes).bind fun head =>
      if head.start.2.1 = "416".toList then .ok (.notSatisfiable head.start.2.2 (head.header HeaderName.contentRange.text))
      else
        (receiveBody r head leftover zc rangeBase path).map fun d =>
          .delivered head.start.2.1 head.start.2.2 (head.header HeaderName.contentRange.text) d

/-! Client and server together. -/

/-- A run of the client against the server. The stream is cut as `sizes` says on the way to
    the server and as `sizes'` says on the way back; a server that fails closes the
    connection. -/
def exchange (a : Args) (c : Negotiated) (register : Nat → Option ZeroCopyRequest) (delivered : Bool)
    (sizes sizes' : List Nat) : Except DemoError Outcome :=
  (offerZeroCopy c.zeroCopy a.zeroCopy a.capacity register).bind fun zc =>
    match readHead ⟨Utf8.encode (buildRequest a.server a.path a.range zc), sizes⟩ with
    | .error e => .error (.http e)
    | .ok ((headBytes, _), _) =>
      (Head.parse headBytes).bind fun head =>
        receive ⟨((serveOne c head.request delivered).map Response.wire).getD [], sizes'⟩
          (zc.map fun zc => zc.land (serveOnePlaced c head.request delivered)) a.rangeBase a.path

/-! Any answer at all. -/

section Verified
variable {zc : Option ZeroCopyRequest} {base : Nat} {path : List Char} {r r' : Reader} {h : Head} {leftover out : Bytes}
  {d : Delivery}

end Verified

section Headers
variable {l : List Char}

theorem Solid.no_cr (h : Solid l) : '\r' ∉ l := fun hmem => by
  have hws := h _ hmem
  exact absurd hws (by decide)

theorem solid_append {a b : List Char} : Solid (a ++ b) ↔ Solid a ∧ Solid b := List.forall_mem_append

theorem solid_hex (n : Nat) : Solid (Nat.toDigits 16 n) := (plain_toDigits (by decide) (by decide) n).solid
theorem solid_decimal (n : Nat) : Solid (Nat.toDigits 10 n) := (plain_toDigits (by decide) (by decide) n).solid

/-- Both header values are written without white space. -/
theorem req_headerValue_solid (r : RdmaWriteReq) : Solid r.headerValue := by
  simp only [RdmaWriteReq.headerValue, solid_append, solid_hex, solid_decimal, and_true]
  cases r.id with
  | none => decide
  | some id =>
    simp only [solid_append, solid_decimal, and_true]
    decide

theorem status_headerValue_solid (status : RdmaWriteStatus) : Solid status.headerValue := by
  cases status with
  | complete n =>
    simp only [RdmaWriteStatus.headerValue, solid_append, solid_decimal, and_true]
    decide
  | tooLarge n =>
    simp only [RdmaWriteStatus.headerValue, solid_append, solid_decimal, and_true]
    decide
  | declined => exact (by decide : Solid (RdmaWriteStatus.headerValue .declined))

/-- The texts of the paths of the route. -/
theorem sizeFromPath_solid {path : List Char} (h : sizeFromPath path ≠ none) : Solid path := by
  obtain ⟨n, hn⟩ := Option.ne_none_iff_exists'.mp h
  rw [sizeFromPath, Option.bind_eq_some_iff] at hn
  obtain ⟨rest, hstrip, hparse⟩ := hn
  rw [stripPrefix_eq_some_iff] at hstrip
  have hrest : Solid rest := by
    obtain ⟨hnum, -⟩ := (fromStrRadix_eq_some_iff (by decide) (by decide) rest).mp hparse
    intro c hc
    have hdigits := hnum.solid
    rw [dropPlus] at hdigits
    split at hdigits
    · next hsigned =>
      obtain ⟨t, rfl⟩ := List.head?_eq_some_iff.mp hsigned
      rcases List.mem_cons.mp hc with rfl | hc
      · decide
      · exact hdigits c hc
    · exact hdigits c hc
  rw [hstrip, solid_append]
  exact ⟨by decide, hrest⟩

end Headers

/-- What can be asked for without breaking the lines of the request. -/
structure Args.Sound (a : Args) : Prop where
  server : '\r' ∉ a.server
  path : '\r' ∉ a.path ∧ ' ' ∉ a.path
  range : ∀ spec ∈ a.range, '\r' ∉ spec

/-- What the server makes of it. -/
def Args.request (a : Args) (zc : Option ZeroCopyRequest) : Request where
  method := getMethod
  target := a.path
  range := a.range.map fun spec => trim (bytesUnit ++ spec)
  header := zc.map fun zc => zc.request.headerValue

section Requests
variable {a : Args} {zc : Option ZeroCopyRequest} {sizes : List Nat}

theorem lookup_optionalFields (own name : HeaderName) (value : Option (List Char)) :
    (Response.optionalFields own value).lookup name = if name = own then value else none := by
  cases value with
  | none => simp [Response.optionalFields]
  | some v =>
    rw [Response.optionalFields, Option.map_some, Option.toList_some, lookup_fields_cons, List.lookup_nil]

theorem mem_optionalFields {own : HeaderName} {value : Option (List Char)} {kv : HeaderName × List Char} :
    kv ∈ Response.optionalFields own value ↔ ∃ v, value = some v ∧ (own, v) = kv := by
  rw [Response.optionalFields, Option.mem_toList, Option.map_eq_some_iff]

theorem requestFields_no_cr (ha : a.Sound) (zc : Option ZeroCopyRequest) :
    ∀ kv ∈ requestFields a.server a.range zc, '\r' ∉ kv.2 := by
  intro kv hkv
  simp only [requestFields, List.mem_append, List.mem_cons, List.not_mem_nil, or_false, mem_optionalFields,
    Option.map_eq_some_iff] at hkv
  rcases hkv with ((rfl | rfl | rfl) | ⟨v, ⟨spec, hspec, rfl⟩, rfl⟩) | ⟨v, ⟨zc, -, rfl⟩, rfl⟩
  · exact ha.server
  · decide
  · decide
  · rw [List.mem_append, not_or]
    exact ⟨by decide, ha.range spec hspec⟩
  · exact Solid.no_cr (req_headerValue_solid _)

/-- The server reads the request as it was meant. -/
theorem request_received (ha : a.Sound) (sizes : List Nat)
    (hcap : (Utf8.encode (buildRequest a.server a.path a.range zc)).length ≤ maxHeadBytes + 1) :
    ∃ leftover r head, readHead ⟨Utf8.encode (buildRequest a.server a.path a.range zc), sizes⟩ =
        .ok ((Utf8.encode (buildRequest a.server a.path a.range zc), leftover), r) ∧
      Head.parse (Utf8.encode (buildRequest a.server a.path a.range zc)) = .ok head ∧ head.request = a.request zc := by
  rw [buildRequest] at hcap ⊢
  have hstart : Line ("GET ".toList ++ a.path ++ " HTTP/1.1".toList) := by
    refine ⟨by simp, ?_⟩
    simp only [List.mem_append, not_or]
    exact ⟨⟨by decide, ha.path.1⟩, by decide⟩
  obtain ⟨hends, hparse⟩ := parse_sent hstart (requestFields_no_cr ha zc)
  obtain ⟨leftover, r, hread, -⟩ := hends.read_ok hcap [] sizes
  rw [List.append_nil] at hread
  have hsplit : splitn3 ("GET ".toList ++ a.path ++ " HTTP/1.1".toList) = (getMethod, a.path, "HTTP/1.1".toList) := by
    have hcut := splitn3_spaces (a := getMethod) (b := a.path) (by decide) ha.path.2 "HTTP/1.1".toList
    rw [← hcut]
    simp [getMethod]
  refine ⟨leftover, r, _, hread, hparse, ?_⟩
  have hvalue : ∀ r : RdmaWriteReq, trim r.headerValue = r.headerValue := fun r => trim_solid (req_headerValue_solid r)
  rw [hsplit, Head.request, header_read, header_read, Args.request]
  congr 1
  · simp [requestFields, List.lookup_append, lookup_fields_cons, lookup_optionalFields, Function.comp_def]
  · simp [requestFields, List.lookup_append, lookup_fields_cons, lookup_optionalFields, Function.comp_def, hvalue]

end Requests

/-! The response as the client reads it. -/

/-- A value that is read as it was, and is not long. -/
structure Fit (value : List Char) : Prop where
  no_cr : '\r' ∉ value
  trimmed : trim value = value
  short : value.length ≤ 80

/-- A response that fits on the wire: a known code, numbers of a `usize`, no body where the
    headers say there is none. -/
structure Wired (resp : Response) : Prop where
  code : resp.code ∈ [200, 206, 400, 404, 405, 413, 416]
  body : resp.body.length < usizeLimit
  contentRange : ∀ cr, resp.contentRange = some cr → Fit cr
  bodiless : resp.code = 416 ∨ (∃ n, resp.zc = some (.complete n)) ∨ (∃ n, resp.zc = some (.tooLarge n)) → resp.body = []

/-- The body a client with the buffer `zc` reports. -/
def reportedBody (resp : Response) (zc : Option ZeroCopyRequest) (base : Nat) (path : List Char) :
    Except DemoError Delivery :=
  match zc, resp.zc with
  | some zc, some (.complete n) =>
    if zc.capacity < n.toNat then .error (.overrun n.toNat zc.capacity)
    else (verifyZeroCopyAt zc base n.toNat path).map fun verified => ⟨n.toNat, .zeroCopy, verified⟩
  | some _, some (.tooLarge _) => .ok ⟨0, .tooLarge, false⟩
  | _, _ =>
    (verifyStreamBodyAt resp.body (decide (resp.code = 200 ∨ resp.code = 206)) path base).map fun verified =>
      ⟨resp.body.length, .stream, verified⟩

/-- What it reports of a response. -/
def reported (resp : Response) (zc : Option ZeroCopyRequest) (base : Nat) (path : List Char) : Except DemoError Outcome :=
  if resp.code = 416 then .ok (.notSatisfiable (Response.reason 416) resp.contentRange)
  else
    (reportedBody resp zc base path).map fun d =>
      .delivered (Nat.toDigits 10 resp.code) (Response.reason resp.code) resp.contentRange d

section Responses
variable {resp : Response} {zc : Option ZeroCopyRequest} {base : Nat} {path : List Char} {lines : List (List Char)}

theorem fit_of_solid {value : List Char} (h : Solid value) (hshort : value.length ≤ 80) : Fit value :=
  ⟨Solid.no_cr h, trim_solid h, hshort⟩

theorem digits_length {n : Nat} (hn : n < usizeLimit) : (Nat.toDigits 10 n).length ≤ 20 := by
  rw [Nat.length_toDigits_le_iff (by decide) (by decide)]
  have : usizeLimit = 18446744073709551616 := rfl
  omega

theorem status_headerValue_length (status : RdmaWriteStatus) : status.headerValue.length ≤ 60 := by
  have hdigits : ∀ n : UInt64, (Nat.toDigits 10 n.toNat).length ≤ 20 := fun n => digits_length n.toNat_lt
  cases status with
  | complete n =>
    have hn := hdigits n
    simp only [RdmaWriteStatus.headerValue, RdmaWriteStatus.Field.name, RdmaWriteStatus.completeText, List.length_append,
      List.length_cons, List.length_nil]
    omega
  | tooLarge n =>
    have hn := hdigits n
    simp only [RdmaWriteStatus.headerValue, RdmaWriteStatus.Field.name, RdmaWriteStatus.tooLargeText, List.length_append,
      List.length_cons, List.length_nil]
    omega
  | declined => decide

/-- Every value of a response is read as it was. -/
theorem fields_fit (hresp : Wired resp) : ∀ kv ∈ resp.fields, Fit kv.2 := by
  have hdigits : Fit (Nat.toDigits 10 resp.body.length) := by
    have hlen := digits_length hresp.body
    exact fit_of_solid (solid_decimal _) (by omega)
  have hzero : Fit (Nat.toDigits 10 0) := fit_of_solid (by decide) (by decide)
  have htype : ∀ t : ContentType, Fit t.text := by
    intro t
    cases t with
    | _ => exact fit_of_solid (by decide) (by decide)
  have hclose : Fit "close".toList := fit_of_solid (by decide) (by decide)
  have hrange : ∀ cr, resp.contentRange = some cr → Fit cr := hresp.contentRange
  have hstatus : ∀ status : RdmaWriteStatus, Fit status.headerValue := by
    intro status
    have hlen := status_headerValue_length status
    exact fit_of_solid (status_headerValue_solid status) (by omega)
  have hzc : ∀ status, ∀ kv ∈ resp.zeroCopyFields status, Fit kv.2 := by
    intro status kv hkv
    simp only [Response.zeroCopyFields, Response.bodyFields, Response.closeFields, List.mem_append, List.mem_cons,
      List.not_mem_nil, or_false, mem_optionalFields] at hkv
    rcases hkv with (((rfl | rfl) | rfl) | ⟨cr, hcr, rfl⟩) | rfl
    · exact htype .octets
    · exact hzero
    · exact hstatus status
    · exact hrange cr hcr
    · exact hclose
  -- the 416 has fields of its own, and so has a body that was written
  intro kv hkv
  rw [Response.fields] at hkv
  split at hkv
  · simp only [Response.unsatisfiableFields, Response.bodyFields, Response.closeFields, List.mem_append, List.mem_cons,
      List.not_mem_nil, or_false, mem_optionalFields] at hkv
    rcases hkv with ((rfl | rfl) | ⟨cr, hcr, rfl⟩) | rfl
    · exact htype .octets
    · exact hzero
    · exact hrange cr hcr
    · exact hclose
  · split at hkv
    · exact hzc _ kv hkv
    · exact hzc _ kv hkv
    · simp only [Response.respondFields, Response.bodyFields, Response.closeFields, List.mem_append, List.mem_cons,
        List.not_mem_nil, or_false, mem_optionalFields, Option.map_eq_some_iff] at hkv
      rcases hkv with (((rfl | rfl) | rfl) | ⟨cr, hcr, rfl⟩) | ⟨v, ⟨status, -, rfl⟩, rfl⟩
      · exact htype _
      · exact hdigits
      · exact hclose
      · exact hrange cr hcr
      · exact hstatus status

theorem encode_length_le (s : List Char) : (Utf8.encode s).length ≤ 4 * s.length := by
  induction s with
  | nil => exact Nat.le_refl 0
  | cons c s ih =>
    have hc := c.utf8Size_le_four
    rw [Utf8.encode_cons, List.length_append, String.length_utf8EncodeChar, List.length_cons]
    omega

theorem render_length_le {m : Nat} (h : ∀ l ∈ lines, l.length ≤ m) : (render lines).length ≤ lines.length * (m + 2) + 2 := by
  induction lines with
  | nil => simp [render, crlf]
  | cons l lines ih =>
    have hl := h l (List.mem_cons_self ..)
    have htail := ih fun k hk => h k (List.mem_cons_of_mem _ hk)
    rw [render_cons, List.length_append, List.length_cons, List.length_cons, List.length_cons, Nat.succ_mul]
    omega

theorem optionalFields_length (name : HeaderName) (value : Option (List Char)) :
    (Response.optionalFields name value).length ≤ 1 := by
  cases value with
  | none => exact Nat.zero_le 1
  | some v => exact Nat.le_refl 1

theorem fields_length (resp : Response) : resp.fields.length ≤ 5 := by
  have hrange := optionalFields_length .contentRange resp.contentRange
  have hzc := optionalFields_length .rdmaWrite (resp.zc.map RdmaWriteStatus.headerValue)
  have hbody : ∀ t n, (Response.bodyFields t n).length = 2 := fun t n => rfl
  have hclose : Response.closeFields.length = 1 := rfl
  rw [Response.fields]
  split
  · simp only [Response.unsatisfiableFields, List.length_append, hbody, hclose]
    omega
  · split
    · simp only [Response.zeroCopyFields, List.length_append, List.length_cons, List.length_nil, hbody, hclose]
      omega
    · simp only [Response.zeroCopyFields, List.length_append, List.length_cons, List.length_nil, hbody, hclose]
      omega
    · simp only [Response.respondFields, List.length_append, hbody, hclose]
      omega

/-- The start line of a known code. -/
theorem statusLine_read (hresp : Wired resp) : Line (Response.statusLine resp.code) ∧
    (Response.statusLine resp.code).length ≤ 100 ∧
    splitn3 (Response.statusLine resp.code) = ("HTTP/1.1".toList, Nat.toDigits 10 resp.code, Response.reason resp.code) := by
  have hcode := hresp.code
  generalize resp.code = code at hcode
  revert code
  decide +kernel

/-- The head of a response is cut off the stream and read back, with its headers. -/
theorem wire_received (hresp : Wired resp) (sizes : List Nat) :
    ∃ head leftover r, readHead ⟨resp.wire, sizes⟩ = .ok ((head, leftover), r) ∧ leftover ++ r.data = resp.body ∧
      Head.parse head =
        .ok ⟨("HTTP/1.1".toList, Nat.toDigits 10 resp.code, Response.reason resp.code), resp.fields.read⟩ := by
  obtain ⟨hstart, hshort, hsplit⟩ := statusLine_read hresp
  have hfit := fields_fit hresp
  obtain ⟨hends, hparse⟩ := parse_sent hstart fun kv hkv => (hfit kv hkv).no_cr
  -- at most six lines of at most a hundred characters
  have hcap : (Utf8.encode (render resp.lines)).length ≤ maxHeadBytes + 1 := by
    have hname : ∀ name : HeaderName, name.text.length ≤ 17 := by
      intro name
      cases name with
      | _ => decide
    have hlines : ∀ l ∈ resp.lines, l.length ≤ 100 := by
      intro l hl
      rcases List.mem_cons.mp hl with rfl | hl
      · exact hshort
      · obtain ⟨kv, hkv, rfl⟩ := List.mem_map.mp hl
        have hvalue := (hfit kv hkv).short
        have hown := hname kv.1
        simp only [headerLine, List.length_append, List.length_cons]
        omega
    have hrender := render_length_le hlines
    have hcount : resp.lines.length ≤ 6 := by
      have hfields := fields_length resp
      rw [Response.lines, List.length_cons, Fields.lines, List.length_map]
      omega
    have hbytes := encode_length_le (render resp.lines)
    have hmax : maxHeadBytes = 65536 := rfl
    have hmul : resp.lines.length * (100 + 2) ≤ 6 * (100 + 2) := Nat.mul_le_mul_right _ hcount
    omega
  obtain ⟨leftover, r, hread, hrest, -⟩ := hends.read_ok hcap resp.body sizes
  exact ⟨_, leftover, r, hread, hrest, hsplit ▸ hparse⟩

/-- The headers the client looks up. -/
theorem fields_lookup (hresp : Wired resp) :
    resp.fields.lookup .contentRange = resp.contentRange ∧
    (resp.code ≠ 416 → resp.fields.lookup .rdmaWrite = resp.zc.map RdmaWriteStatus.headerValue) ∧
    resp.fields.lookup .contentLength = some (Nat.toDigits 10 resp.body.length) := by
  rw [Response.fields]
  by_cases hcode : resp.code = 416
  · rw [if_pos hcode, hresp.bodiless (.inl hcode)]
    refine ⟨?_, fun hne => absurd hcode hne, ?_⟩
    · simp [Response.unsatisfiableFields, Response.bodyFields, Response.closeFields, List.lookup_append, lookup_fields_cons,
        lookup_optionalFields]
    · simp [Response.unsatisfiableFields, Response.bodyFields, lookup_fields_cons]
  · rw [if_neg hcode]
    have hwritten : ∀ status, resp.body = [] →
        (resp.zeroCopyFields status).lookup .contentRange = resp.contentRange ∧
        (resp.zeroCopyFields status).lookup .rdmaWrite = some status.headerValue ∧
        (resp.zeroCopyFields status).lookup .contentLength = some (Nat.toDigits 10 resp.body.length) := by
      intro status hbody
      rw [hbody]
      refine ⟨?_, ?_, ?_⟩ <;>
        simp [Response.zeroCopyFields, Response.bodyFields, Response.closeFields, List.lookup_append, lookup_fields_cons,
          lookup_optionalFields]
    have hrespond : resp.respondFields.lookup .contentRange = resp.contentRange ∧
        resp.respondFields.lookup .rdmaWrite = resp.zc.map RdmaWriteStatus.headerValue ∧
        resp.respondFields.lookup .contentLength = some (Nat.toDigits 10 resp.body.length) := by
      refine ⟨?_, ?_, ?_⟩ <;>
        simp [Response.respondFields, Response.bodyFields, Response.closeFields, List.lookup_append, lookup_fields_cons,
          lookup_optionalFields]
    cases hzc : resp.zc with
    | none =>
      rw [hzc] at hrespond
      exact ⟨hrespond.1, fun _ => hrespond.2.1, hrespond.2.2⟩
    | some status =>
      cases status with
      | complete n =>
        obtain ⟨hrange, hwrite, hlength⟩ := hwritten (.complete n) (hresp.bodiless (.inr (.inl ⟨n, hzc⟩)))
        exact ⟨hrange, fun _ => hwrite, hlength⟩
      | tooLarge n =>
        obtain ⟨hrange, hwrite, hlength⟩ := hwritten (.tooLarge n) (hresp.bodiless (.inr (.inr ⟨n, hzc⟩)))
        exact ⟨hrange, fun _ => hwrite, hlength⟩
      | declined =>
        rw [hzc] at hrespond
        exact ⟨hrespond.1, fun _ => hrespond.2.1, hrespond.2.2⟩

/-- The client reports what was written, however the stream is cut. -/
theorem receive_wire (hresp : Wired resp) (zc : Option ZeroCopyRequest) (base : Nat) (path : List Char) (sizes : List Nat) :
    receive ⟨resp.wire, sizes⟩ zc base path = reported resp zc base path := by
  obtain ⟨head, leftover, r, hread, hrest, hparse⟩ := wire_received hresp sizes
  obtain ⟨hrange, hwrite, hlength⟩ := fields_lookup hresp
  have hcontent : ∀ cr, resp.contentRange = some cr → trim cr = cr := fun cr hcr => (hresp.contentRange cr hcr).trimmed
  have hrange' : resp.contentRange.map trim = resp.contentRange := by
    cases hcr : resp.contentRange with
    | none => rfl
    | some cr => rw [Option.map_some, hcontent cr hcr]
  -- the codes the servers answer with are told apart by their digits
  have hcode : (Nat.toDigits 10 resp.code == "200".toList) = decide (resp.code = 200) ∧
      (Nat.toDigits 10 resp.code == "206".toList) = decide (resp.code = 206) ∧
      (Nat.toDigits 10 resp.code = "416".toList ↔ resp.code = 416) := by
    have hknown := hresp.code
    generalize resp.code = code at hknown
    revert code
    decide +kernel
  have hbody : resp.code ≠ 416 → receiveBody r ⟨("HTTP/1.1".toList, Nat.toDigits 10 resp.code, Response.reason resp.code),
      resp.fields.read⟩ leftover zc base path = reportedBody resp zc base path := by
    intro hne
    -- the body is all that follows the head, and the length header says so
    have hstream : receiveStream r ⟨("HTTP/1.1".toList, Nat.toDigits 10 resp.code, Response.reason resp.code),
        resp.fields.read⟩ leftover base path =
        (verifyStreamBodyAt resp.body (decide (resp.code = 200 ∨ resp.code = 206)) path base).map fun verified =>
          ⟨resp.body.length, .stream, verified⟩ := by
      have hdigits : trim (Nat.toDigits 10 resp.body.length) = Nat.toDigits 10 resp.body.length := trim_solid (solid_decimal _)
      have hparsed : parseUsize (Nat.toDigits 10 resp.body.length) = some resp.body.length :=
        fromStrRadix_toDigits (by decide) (by decide) hresp.body
      have hlen : leftover.length ≤ resp.body.length := by
        rw [← hrest, List.length_append]
        omega
      have hsplit : leftover ++ r.data = resp.body ++ [] := by rw [hrest, List.append_nil]
      obtain ⟨r', hread', -⟩ := readBodyLoop_spec r leftover hsplit hlen
      have hsuccess : (Nat.toDigits 10 resp.code == "200".toList || Nat.toDigits 10 resp.code == "206".toList) =
          decide (resp.code = 200 ∨ resp.code = 206) := by
        rw [Bool.decide_or, hcode.1, hcode.2.1]
      rw [receiveStream, Head.contentLength, header_read, hlength, Option.map_some, Option.bind_some, hdigits, hdigits, hparsed]
      simp only [readBody, hread', hsuccess]
    cases zc with
    | none => exact hstream
    | some zc =>
      have hparse : ∀ status : RdmaWriteStatus, RdmaWriteStatus.parse (trim status.headerValue) = some status := by
        intro status
        rw [trim_solid (status_headerValue_solid status)]
        exact status.parse_spells status.headerValue_spells
      simp only [receiveBody, header_read, hwrite hne]
      cases hzc : resp.zc with
      | none => simp only [Option.map_none, Option.bind_none, hstream, reportedBody, hzc]
      | some status =>
        simp only [Option.map_some, Option.bind_some, hparse]
        cases status with
        | complete n => simp only [reportedBody, hzc]
        | tooLarge n => simp only [reportedBody, hzc]
        | declined => simp only [hstream, reportedBody, hzc]
  rw [receive, hread]
  simp only [hparse, Except.bind, reported]
  by_cases h416 : resp.code = 416
  · rw [if_pos (hcode.2.2.mpr h416), if_pos h416, header_read, hrange, hrange', h416]
  · have hdigits : ¬Nat.toDigits 10 resp.code = "416".toList := fun heq => h416 (hcode.2.2.mp heq)
    rw [if_neg hdigits, if_neg h416, hbody h416, header_read, hrange, hrange']

end Responses

section Served
variable {c : Negotiated} {r : Request} {req : RdmaWriteReq} {zcReq : Option RdmaWriteReq} {hadHeader delivered ranged : Bool}
  {range : Option (List Char)} {base len total n start last : Nat} {resp : Response}

theorem fit_none (cr : List Char) (h : (none : Option (List Char)) = some cr) : Fit cr := by cases h

/-- The value of a `Content-Range`, satisfied or not. -/
theorem fit_bytes {x : List Char} (hx : '\r' ∉ x) (hlen : x.length ≤ 50) (htotal : total < usizeLimit) :
    Fit (bytesWord ++ x ++ '/' :: Nat.toDigits 10 total) := by
  have hdigits := digits_length htotal
  have hsolid := solid_decimal total
  have hword : bytesWord.length = 6 := rfl
  refine ⟨?_, ?_, ?_⟩
  · simp only [List.mem_append, List.mem_cons, not_or]
    exact ⟨⟨by decide, hx⟩, by decide, Solid.no_cr hsolid⟩
  · have hend : trimEnd (Nat.toDigits 10 total) = Nat.toDigits 10 total := by
      have h := trimEnd_solid (b := []) (fun _ hc => absurd hc List.not_mem_nil) hsolid Nat.toDigits_ne_nil []
      rwa [List.append_nil, List.nil_append] at h
    have hfront : trimStart (bytesWord ++ x) = bytesWord ++ x := List.dropWhile_cons_of_neg (by decide)
    rw [trim_cut (by decide), hend, hfront]
  · simp only [List.length_append, List.length_cons, hword]
    omega

theorem fit_contentRange (hstart : start < usizeLimit) (hlast : last < usizeLimit) (htotal : total < usizeLimit) :
    Fit (contentRange start last total) := by
  have hs := digits_length hstart
  have hl := digits_length hlast
  have hbytes : contentRange start last total =
      bytesWord ++ (Nat.toDigits 10 start ++ '-' :: Nat.toDigits 10 last) ++ '/' :: Nat.toDigits 10 total := by
    simp [contentRange]
  rw [hbytes]
  refine fit_bytes ?_ ?_ htotal
  · simp only [List.mem_append, List.mem_cons, not_or]
    exact ⟨Solid.no_cr (solid_decimal _), by decide, Solid.no_cr (solid_decimal _)⟩
  · simp only [List.length_append, List.length_cons]
    omega

theorem fit_unsatisfied (htotal : total < usizeLimit) : Fit (contentRangeUnsatisfied total) := by
  have hbytes : contentRangeUnsatisfied total = bytesWord ++ ['*'] ++ '/' :: Nat.toDigits 10 total := by
    simp [contentRangeUnsatisfied]
  rw [hbytes]
  exact fit_bytes (by decide) (by decide) htotal

theorem wired_bodiless {code : Nat} {t : ContentType} {zc : Option RdmaWriteStatus} {cr : Option (List Char)}
    (hcode : code ∈ [200, 206, 400, 404, 405, 413, 416]) (hcr : ∀ v, cr = some v → Fit v) : Wired ⟨code, t, zc, cr, []⟩ :=
  ⟨hcode, Nat.two_pow_pos 64, hcr, fun _ => rfl⟩

theorem wired_streamed {code : Nat} {t : ContentType} {cr : Option (List Char)} {body : Bytes}
    (hcode : code ∈ [200, 206, 400, 404, 405, 413]) (hcr : ∀ v, cr = some v → Fit v) (hbody : body.length < usizeLimit) :
    Wired ⟨code, t, declinedIf hadHeader, cr, body⟩ := by
  have hmore : ∀ code ∈ [200, 206, 400, 404, 405, 413], code ∈ [200, 206, 400, 404, 405, 413, 416] := by decide
  refine ⟨hmore code hcode, hbody, hcr, ?_⟩
  · rintro (h416 | ⟨n, hzc⟩ | ⟨n, hzc⟩)
    · have h416' : code = 416 := h416
      subst h416'
      exact absurd hcode (by decide)
    · cases hadHeader with
      | true => cases hzc
      | false => cases hzc
    · cases hadHeader with
      | true => cases hzc
      | false => cases hzc

theorem serveSizeZeroCopy_wired (hinside : base + len ≤ total) (htotal : total < usizeLimit)
    (h : serveSizeZeroCopy c req base len total ranged delivered = some resp) : Wired resp := by
  rw [serveSizeZeroCopy] at h
  have hcr : ∀ v, some (contentRange base (base + len - 1) total) = some v → Fit v := by
    intro v hv
    cases hv
    exact fit_contentRange (by omega) (by omega) htotal
  rcases outcome_cases req (UInt64.ofNat len) c.split delivered with ⟨hout, -⟩ | ⟨n, hout⟩ | ⟨n, hout⟩
  · rw [hout] at h
    cases h
  · rw [hout] at h
    cases ranged with
    | true =>
      cases h
      exact wired_bodiless (by decide) hcr
    | false =>
      cases h
      exact wired_bodiless (by decide) fit_none
  · rw [hout] at h
    cases h
    exact wired_bodiless (by decide) fit_none

theorem range_inside (h : (range.map fun value => parseRange value n).getD .full = .range start last) :
    start ≤ last ∧ last < n := by
  cases range with
  | none => cases h
  | some value => exact parseRange_inside h

theorem serveOneSize_wired (hn : n ≤ maxBody)
    (h : serveOneSize c zcReq (declinedIf hadHeader) range n delivered = some resp) : Wired resp := by
  have hsmall : n < usizeLimit := Nat.lt_of_le_of_lt hn (by decide)
  unfold serveOneSize at h
  split at h
  · cases h
    refine wired_bodiless (by decide) ?_
    rintro v ⟨⟩
    exact fit_unsatisfied hsmall
  · next start last hrange =>
    obtain ⟨hle, hlt⟩ := range_inside hrange
    cases zcReq with
    | some req => exact serveSizeZeroCopy_wired (by omega) hsmall h
    | none =>
      cases h
      refine wired_streamed (by decide) ?_ ?_
      · rintro v ⟨⟩
        exact fit_contentRange (by omega) (by omega) hsmall
      · rw [pattern_length]
        omega
  · cases zcReq with
    | some req => exact serveSizeZeroCopy_wired (by omega) hsmall h
    | none =>
      cases h
      exact wired_streamed (by decide) fit_none (by rwa [pattern_length])

theorem serveOne_wired (h : serveOne c r delivered = some resp) : Wired resp := by
  simp only [serveOne] at h
  split at h
  · cases h
    exact wired_streamed (by decide) fit_none (by decide)
  · split at h
    · cases h
      exact wired_streamed (by decide) fit_none (by decide)
    · split at h
      · split at h
        · split at h
          · next hle => exact serveOneSize_wired hle h
          · cases h
            exact wired_streamed (by decide) fit_none (by decide)
        · cases h
          exact wired_streamed (by decide) fit_none (by decide)
      · cases h
        exact wired_streamed (by decide) fit_none (by decide)

end Served

/-! The whole exchange. -/

/-- What a client is told of a part of an object, with a buffer of the size `offered`: the
    part, in the buffer or on the stream, or that the buffer is too small. -/
def told (code : Nat) (contentRange : Option (List Char)) (len : Nat) : Option Nat → Outcome
  | none => .delivered (Nat.toDigits 10 code) (Response.reason code) contentRange ⟨len, .stream, true⟩
  | some capacity =>
    if len ≤ capacity then
      .delivered (Nat.toDigits 10 code) (Response.reason code) contentRange ⟨len, .zeroCopy, true⟩
    else .delivered (Nat.toDigits 10 413) (Response.reason 413) none ⟨0, .tooLarge, false⟩

/-- What a client should be told that asks for an object of `n` bytes, or for a range of it. -/
def truth (n : Nat) (range : Option (List Char)) (offered : Option Nat) : Outcome :=
  match (range.map fun spec => parseRange (bytesUnit ++ spec) n).getD .full with
  | .unsatisfiable => .notSatisfiable (Response.reason 416) (some (contentRangeUnsatisfied n))
  | .range start last => told 206 (some (contentRange start last n)) (last - start + 1) offered
  | .full => told 200 none n offered

section Exchanges
variable {a : Args} {base len n : Nat} {path : List Char}

/-- A write is answered by its outcome: too large, complete, or nothing when it failed. -/
theorem outcome_truth (req : RdmaWriteReq) (objectSize : UInt64) (split delivered : Bool) :
    (req.len < objectSize ∧
      (RdmaWriteAction.decide req objectSize split).outcome delivered = some (.tooLarge objectSize)) ∨
    (¬req.len < objectSize ∧ (delivered = true ∨ objectSize = 0) ∧
      (RdmaWriteAction.decide req objectSize split).outcome delivered = some (.complete objectSize)) ∨
    (delivered = false ∧ (RdmaWriteAction.decide req objectSize split).outcome delivered = none) := by
  rcases RdmaWriteAction.decide_cases req objectSize split with ⟨hlarge, h⟩ | ⟨hfits, -, hzero, h⟩ | ⟨sourceLen, hfits, -, -, h⟩
  · rw [h]
    exact .inl ⟨hlarge, rfl⟩
  · rw [h]
    exact .inr (.inl ⟨hfits, .inr hzero, rfl⟩)
  · rw [h]
    cases delivered with
    | true =>
      refine .inr (.inl ⟨hfits, .inl rfl, ?_⟩)
      simp only [RdmaWriteAction.outcome, UInt64.ofNat_toNat, if_true]
    | false => exact .inr (.inr ⟨rfl, rfl⟩)

/-- A part that was written, or that is empty, passes the check. -/
theorem written_verifies (zc : ZeroCopyRequest) (base len : Nat) (split delivered : Bool) (path : List Char)
    (hpath : sizeFromPath path ≠ none) (hlen : len < 2 ^ 64) (hfits : len ≤ zc.capacity) (hdone : delivered = true ∨ len = 0) :
    let placed := if delivered then (zc.request.delivery (UInt64.ofNat len) split (pattern base len)).bytes else []
    (zc.land placed).capacity = zc.capacity ∧ verifyZeroCopyAt (zc.land placed) base len path = .ok true := by
  intro placed
  have hobject : (UInt64.ofNat len).toNat = len := by
    rw [UInt64.toNat_ofNat']
    exact Nat.mod_eq_of_lt hlen
  cases delivered with
  | true =>
    have hroom : ¬zc.request.len < UInt64.ofNat len := by
      rw [UInt64.lt_iff_toNat_lt, zc.request_len, hobject]
      omega
    have hplaced : placed = bodyAt zc.addr.toNat (pattern base len) := by
      show (zc.request.delivery (UInt64.ofNat len) split (pattern base len)).bytes = _
      rw [RdmaWriteReq.delivery, if_neg hroom]
      rfl
    have hroom' : (pattern base len).length ≤ zc.storage.length := (pattern_length ..).trans_le hfits
    have hland := ZeroCopyRequest.land_bodyAt hroom'
    rw [pattern_length] at hland
    have hcapacity : (zc.land placed).storage.length = zc.storage.length := by
      rw [hplaced, hland, List.length_append, pattern_length, List.length_drop]
      exact Nat.add_sub_cancel' hfits
    refine ⟨hcapacity, ?_⟩
    rw [verifyZeroCopyAt_eq base path (hcapacity ▸ hfits), verifyStreamBodyAt_true_iff, hplaced, hland,
      List.take_left' (pattern_length ..), pattern_length]
    exact ⟨rfl, hpath, rfl⟩
  | false =>
    have hzero : len = 0 := hdone.resolve_left (by decide)
    subst hzero
    refine ⟨rfl, ?_⟩
    rw [verifyZeroCopyAt_eq base path (Nat.zero_le _), verifyStreamBodyAt_true_iff]
    exact ⟨rfl, hpath, rfl⟩

/-- A part that goes into the buffer. -/
theorem zero_copy_told (c : Negotiated) (zc : ZeroCopyRequest) (base len total : Nat) (ranged delivered : Bool)
    (hpath : sizeFromPath path ≠ none) (hlen : len < 2 ^ 64) :
    let placed := if delivered then (zc.request.delivery (UInt64.ofNat len) c.split (pattern base len)).bytes else []
    (serveSizeZeroCopy c zc.request base len total ranged delivered = none ∧ delivered = false) ∨
    ∃ resp, serveSizeZeroCopy c zc.request base len total ranged delivered = some resp ∧
      reported resp (some (zc.land placed)) base path =
        .ok (if ranged then told 206 (some (contentRange base (base + len - 1) total)) len (some zc.capacity)
          else told 200 none len (some zc.capacity)) := by
  intro placed
  have hobject : (UInt64.ofNat len).toNat = len := by
    rw [UInt64.toNat_ofNat']
    exact Nat.mod_eq_of_lt hlen
  rw [serveSizeZeroCopy]
  rcases outcome_truth zc.request (UInt64.ofNat len) c.split delivered with ⟨hlarge, hout⟩ | ⟨hfits, hdone, hout⟩ | ⟨hno, hout⟩
  · right
    rw [UInt64.lt_iff_toNat_lt, zc.request_len, hobject] at hlarge
    rw [hout]
    refine ⟨_, rfl, ?_⟩
    have hnot : ¬len ≤ zc.capacity := Nat.not_le.mpr hlarge
    simp only [reported, reportedBody, told, if_neg hnot, ite_self]
    rfl
  · right
    rw [UInt64.lt_iff_toNat_lt, zc.request_len, hobject, Nat.not_lt] at hfits
    have hdone' : delivered = true ∨ len = 0 := hdone.imp_right fun h => by
      have h' := congrArg UInt64.toNat h
      rwa [hobject] at h'
    obtain ⟨hcapacity, hverify⟩ := written_verifies zc base len c.split delivered path hpath hlen hfits hdone'
    have hroom : ¬(zc.land placed).capacity < len := by
      rw [hcapacity]
      omega
    rw [hout]
    cases ranged with
    | true =>
      refine ⟨_, rfl, ?_⟩
      simp only [reported, reportedBody, told, hobject, if_neg hroom, if_pos hfits, if_true]
      rw [hverify]
      rfl
    | false =>
      refine ⟨_, rfl, ?_⟩
      simp only [reported, reportedBody, told, hobject, if_neg hroom, if_pos hfits]
      rw [hverify]
      rfl
  · left
    rw [hout]
    exact ⟨rfl, hno⟩

/-- A part that goes onto the stream. -/
theorem stream_told (code : Nat) (hcode : code = 200 ∨ code = 206) (cr : Option (List Char))
    (hpath : sizeFromPath path ≠ none) :
    reported ⟨code, .octets, declinedIf false, cr, pattern base len⟩ none base path = .ok (told code cr len none) := by
  have hne : ¬code = 416 := by omega
  have hverify : verifyStreamBodyAt (pattern base len) (decide (code = 200 ∨ code = 206)) path base = .ok true := by
    rw [verifyStreamBodyAt_true_iff, pattern_length]
    exact ⟨decide_eq_true hcode, hpath, rfl⟩
  simp only [reported, if_neg hne, reportedBody, hverify, told, pattern_length]
  rfl

/-- Where the handler arrives with a request for an object of the route. -/
theorem serveOne_request (hn : sizeFromPath a.path = some n) (hmax : n ≤ maxBody) (c : Negotiated)
    (offered : Option ZeroCopyRequest) (hoffer : offered ≠ none → c.zeroCopy = true) (delivered : Bool) :
    serveOne c (a.request offered) delivered =
      serveOneSize c (offered.map ZeroCopyRequest.request) (declinedIf offered.isSome)
        (a.range.map fun spec => trim (bytesUnit ++ spec)) n delivered ∧
    serveOneWrite c (a.request offered) =
      match (a.range.map fun spec => parseRange (bytesUnit ++ spec) n).getD .full with
      | .unsatisfiable => none
      | .range start last => (offered.map ZeroCopyRequest.request).map fun req => (req, start, last - start + 1)
      | .full => (offered.map ZeroCopyRequest.request).map fun req => (req, 0, n) := by
  obtain ⟨rest, hstrip, hparse⟩ := Option.bind_eq_some_iff.mp hn
  have hroot : ¬a.path = rootPath := by
    intro heq
    have hnone : stripPrefix sizeRoute rootPath = none := by decide
    rw [heq, hnone] at hstrip
    cases hstrip
  have hreq : (if c.zeroCopy then (offered.map fun zc => zc.request.headerValue).bind RdmaWriteReq.parse else none) =
      offered.map ZeroCopyRequest.request := by
    cases offered with
    | none => simp
    | some zc =>
      rw [hoffer (by simp), if_pos rfl, Option.map_some, Option.bind_some, Option.map_some]
      exact zc.request.parse_spells zc.request.headerValue_spells
  have hheader : (offered.map fun zc => zc.request.headerValue).isSome = offered.isSome := Option.isSome_map
  have hrange : (a.range.map fun spec => trim (bytesUnit ++ spec)).map (fun value => parseRange value n) =
      a.range.map fun spec => parseRange (bytesUnit ++ spec) n := by
    rw [Option.map_map]
    congr 1
    funext spec
    exact parseRange_trim _ n
  constructor
  · simp only [serveOne, Args.request, hreq, hheader, hstrip, hparse, if_pos hmax, if_neg hroot]
    rw [if_neg (by simp)]
  · simp only [serveOneWrite, Args.request, hreq, hstrip, hparse, if_pos hmax, if_neg hroot, hrange]
    rw [if_neg (by simp)]

/-- The client's offset is the server's. -/
theorem rangeBase_eq (hn : sizeFromPath a.path = some n) : a.rangeBase =
    match (a.range.map fun spec => parseRange (bytesUnit ++ spec) n).getD .full with
    | .range start _ => start
    | _ => 0 := by
  rw [Args.rangeBase, hn]
  cases hspec : a.range with
  | none => rfl
  | some spec =>
    rw [resolveRange, Option.map_some, Option.getD_some]
    cases parseRange (bytesUnit ++ spec) n with
    | range start last => rfl
    | unsatisfiable => rfl
    | full => rfl

/-- A connection that closes before the response. -/
theorem receive_closed (zc : Option ZeroCopyRequest) (base : Nat) (path : List Char) (sizes : List Nat) :
    receive ⟨[], sizes⟩ zc base path = .error (.http .closedInHead) := by
  have hread : readHead ⟨[], sizes⟩ = .error .closedInHead := by
    rw [readHead, readHeadLoop]
    simp [findDoubleCrlf, Reader.got]
  rw [receive, hread]

/-- The answer of the server to the request of the client. -/
theorem answer_told (hn : sizeFromPath a.path = some n) (hmax : n ≤ maxBody) (c : Negotiated)
    (offered : Option ZeroCopyRequest) (hoffer : offered ≠ none → c.zeroCopy = true) (delivered : Bool) :
    (serveOne c (a.request offered) delivered = none ∧ delivered = false) ∨
    ∃ resp, serveOne c (a.request offered) delivered = some resp ∧
      reported resp (offered.map fun zc => zc.land (serveOnePlaced c (a.request offered) delivered)) a.rangeBase a.path =
        .ok (truth n a.range (offered.map ZeroCopyRequest.capacity)) := by
  obtain ⟨hserve, hwrite⟩ := serveOne_request hn hmax c offered hoffer delivered
  have hbase := rangeBase_eq hn
  have hpath : sizeFromPath a.path ≠ none := by rw [hn]; exact Option.some_ne_none n
  have hsmall : n < 2 ^ 64 := Nat.lt_of_le_of_lt hmax (by decide)
  have hrange : (a.range.map fun spec => trim (bytesUnit ++ spec)).map (fun value => parseRange value n) =
      a.range.map fun spec => parseRange (bytesUnit ++ spec) n := by
    rw [Option.map_map]
    congr 1
    funext spec
    exact parseRange_trim _ n
  have hinside : ∀ start last, (a.range.map fun spec => parseRange (bytesUnit ++ spec) n).getD .full = .range start last →
      start ≤ last ∧ last < n := by
    intro start last h
    rw [← hrange] at h
    exact range_inside h
  rw [hserve, serveOnePlaced, hwrite, hbase, truth]
  unfold serveOneSize
  rw [hrange]
  generalize (a.range.map fun spec => parseRange (bytesUnit ++ spec) n).getD .full = spec at hinside
  cases spec with
  | unsatisfiable =>
    right
    exact ⟨_, rfl, rfl⟩
  | range start last =>
    obtain ⟨hle, hlt⟩ := hinside start last rfl
    cases offered with
    | none =>
      right
      exact ⟨_, rfl, stream_told 206 (.inr rfl) _ hpath⟩
    | some zc =>
      have hlast : start + (last - start + 1) - 1 = last := by omega
      have htold := zero_copy_told c zc start (last - start + 1) n true delivered hpath (by omega)
      rw [hlast] at htold
      exact htold
  | full =>
    cases offered with
    | none =>
      right
      exact ⟨_, rfl, stream_told 200 (.inl rfl) _ hpath⟩
    | some zc => exact zero_copy_told c zc 0 n n false delivered hpath hsmall

end Exchanges

/-- A client asks for an object of the route, or for any range of it, on any connection and with
    or without a buffer of any size and place; the stream is cut in any way in both
    directions. If the server's write succeeds, the client is told the truth: a verified
    body of the length of the part, in its buffer or on the stream, or that its buffer is
    too small, or that there is no such part. If the write fails, the client is told the
    same or reports an error. -/
theorem exchange_delivers (a : Args) (n : Nat) (c : Negotiated) (register : Nat → Option ZeroCopyRequest)
    (offered : Option ZeroCopyRequest) (delivered : Bool) (sizes sizes' : List Nat)
    (hserver : '\r' ∉ a.server) (hspec : ∀ spec, a.range = some spec → '\r' ∉ spec)
    (hn : sizeFromPath a.path = some n) (hmax : n ≤ maxBody)
    (hoffered : offerZeroCopy c.zeroCopy a.zeroCopy a.capacity register = .ok offered)
    (hcap : (Utf8.encode (buildRequest a.server a.path a.range offered)).length ≤ maxHeadBytes + 1) :
    exchange a c register delivered sizes sizes' = .ok (truth n a.range (offered.map ZeroCopyRequest.capacity)) ∨
      delivered = false ∧ ∃ e, exchange a c register delivered sizes sizes' = .error e := by
  have hpath : sizeFromPath a.path ≠ none := by rw [hn]; exact Option.some_ne_none n
  have hsolid := sizeFromPath_solid hpath
  have hsound : a.Sound := ⟨hserver, ⟨Solid.no_cr hsolid, fun hmem => absurd (hsolid _ hmem) (by decide)⟩, hspec⟩
  have hoffer : offered ≠ none → c.zeroCopy = true := by
    intro hne
    rw [offerZeroCopy] at hoffered
    split at hoffered
    · cases hoffered
      exact absurd rfl hne
    · split at hoffered
      · cases hoffered
        exact absurd rfl hne
      · next hneg => exact Bool.eq_true_of_not_eq_false hneg
  obtain ⟨leftover, r, head, hread, hparse, hrequest⟩ := request_received hsound sizes hcap
  rw [exchange, hoffered]
  simp only [Except.bind, hread, hparse, hrequest]
  rcases answer_told hn hmax c offered hoffer delivered with ⟨hnone, hno⟩ | ⟨resp, hresp, htold⟩
  · right
    rw [hnone]
    exact ⟨hno, _, receive_closed _ _ _ sizes'⟩
  · left
    rw [hresp, Option.map_some, Option.getD_some, receive_wire (serveOne_wired hresp)]
    exact htold

/-- Memory at 4096. -/
def registered (n : Nat) : Option ZeroCopyRequest :=
  if h : 4096 + (List.replicate n (0 : UInt8)).length < 2 ^ 64 then some ⟨4096, 7, List.replicate n 0, none, h⟩ else none

/-- Bytes 2 to 5 of eight, into a buffer of 16 bytes, with every read of the response cut to one
    byte. -/
theorem exchange_delivers_range :
    exchange ⟨"localhost".toList, "/size/8".toList, true, some 16, some "2-5".toList⟩ ⟨true, false⟩ registered true []
      (List.replicate 200 1) =
      .ok (.delivered "206".toList "Partial Content".toList (some "bytes 2-5/8".toList) ⟨4, .zeroCopy, true⟩) := by
  have hoffered : offerZeroCopy true true 16 registered = .ok (some ⟨4096, 7, List.replicate 16 0, none, by decide⟩) := rfl
  have htruth : truth 8 (some "2-5".toList) (some 16) =
      .delivered "206".toList "Partial Content".toList (some "bytes 2-5/8".toList) ⟨4, .zeroCopy, true⟩ := by
    decide +kernel
  rcases exchange_delivers ⟨"localhost".toList, "/size/8".toList, true, some 16, some "2-5".toList⟩ 8 ⟨true, false⟩ registered _
    true [] (List.replicate 200 1) (by decide) (by rintro spec ⟨⟩; decide) (by decide +kernel) (by decide) hoffered
    (by decide +kernel) with htold | ⟨hno, -⟩
  · exact htold.trans (congrArg Except.ok htruth)
  · cases hno

end Client

end Hord
