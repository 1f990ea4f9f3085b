import Hord.Http
import Hord.Ranges
import Hord.Lib.Utf8

/- The head of a message: a start line and header lines, each ended by CRLF, and an empty line
   at the end. `Head.parse` reads the bytes `read_head` has cut off the stream, whatever they
   are; a line without a colon is skipped, and white space around names and values does not
   count. What is written with `render` is cut off the stream as it stands and read back
   (`head_round_trips`). -/
namespace Hord

open Text

/-- The errors of the demo programs: what reading a message, and taking delivery of a body,
    can fail with. -/
inductive DemoError where
  | http (e : HttpError)
  /-- "empty HTTP head" -/
  | emptyHead
  /-- "response lacked a Content-Length" -/
  | noContentLength
  /-- "server reported bytes_written={n} > buffer {capacity}" -/
  | overrun (n capacity : Nat)
  /-- "payload mismatch at byte {at}: got {got}, expected {expected}" -/
  | mismatch (position : Nat) (got expected : UInt8)
  /-- A registration that failed. -/
  | register
  /-- The connection broke off. -/
  | transport
  | panic (message : String)
  deriving DecidableEq

/-- `split("\r\n")`. -/
def splitCrlf : List Char → List (List Char)
  | [] => [[]]
  | '\r' :: '\n' :: s => [] :: splitCrlf s
  | c :: s => (splitCrlf s).modifyHead (c :: ·)

/-- `splitn(3, ' ')`, with the pieces that are missing empty. -/
def splitn3 (s : List Char) : List Char × List Char × List Char :=
  match splitOnce ' ' s with
  | none => (s, [], [])
  | some (a, rest) =>
    match splitOnce ' ' rest with
    | none => (a, rest, [])
    | some (b, c) => (a, b, c)

/-- A parsed request or response head. -/
structure Head where
  /-- The three tokens of the start line. -/
  start : List Char × List Char × List Char
  headers : List (List Char × List Char)
  deriving DecidableEq

/-- The headers that the programs write or look up. -/
inductive HeaderName where
  | host
  | userAgent
  | connection
  | range
  | rdmaWrite
  | contentType
  | contentLength
  | contentRange
  deriving DecidableEq

def HeaderName.text : HeaderName → List Char
  | .host => "Host".toList
  | .userAgent => "User-Agent".toList
  | .connection => "Connection".toList
  | .range => "Range".toList
  | .rdmaWrite => "X-HORD-RDMA-Write".toList
  | .contentType => "Content-Type".toList
  | .contentLength => "Content-Length".toList
  | .contentRange => "Content-Range".toList

def eqIgnoreAsciiCase (a b : List Char) : Bool := a.map Char.toLower == b.map Char.toLower

/-- The name and the value of a header line, nothing without a colon. -/
def readLine (line : List Char) : Option (List Char × List Char) :=
  (splitOnce ':' line).map fun kv => (trim kv.1, trim kv.2)

namespace Head

def parse (bytes : List UInt8) : Except DemoError Head :=
  match (splitCrlf (Utf8.decodeLossy bytes)).filter fun l => !l.isEmpty with
  | [] => .error .emptyHead
  | startLine :: lines => .ok ⟨splitn3 startLine, lines.filterMap readLine⟩

/-- The value of the first header of the name. -/
def header (h : Head) (name : List Char) : Option (List Char) :=
  (h.headers.find? fun kv => eqIgnoreAsciiCase kv.1 name).map (·.2)

def contentLength (h : Head) : Option Nat :=
  (h.header HeaderName.contentLength.text).bind fun v => parseUsize (trim v)

end Head

def crlf : List Char := ['\r', '\n']

/-- The lines of a head, and the empty line after them. -/
def render (lines : List (List Char)) : List Char := (lines.flatMap fun l => l ++ crlf) ++ crlf

/-- `"{name}: {value}"` -/
def headerLine (name value : List Char) : List Char := name ++ ':' :: ' ' :: value

/-! Cutting a head into its lines. -/

/-- A text that can stand on a line of its own. -/
structure Line (l : List Char) : Prop where
  ne_nil : l ≠ []
  no_cr : '\r' ∉ l

section Lines
variable {l a b : List Char} {lines : List (List Char)} {bytes rest : List UInt8}

instance Line.decidable (l : List Char) : Decidable (Line l) :=
  decidable_of_iff (l ≠ [] ∧ '\r' ∉ l) ⟨fun h => ⟨h.1, h.2⟩, fun h => ⟨h.ne_nil, h.no_cr⟩⟩

theorem splitCrlf_cons {c : Char} (hc : c ≠ '\r') (s : List Char) :
    splitCrlf (c :: s) = (splitCrlf s).modifyHead (c :: ·) := by
  rw [splitCrlf]
  intro t hr
  exact absurd hr hc

theorem splitCrlf_line (hl : '\r' ∉ l) (s : List Char) : splitCrlf (l ++ '\r' :: '\n' :: s) = l :: splitCrlf s := by
  induction l with
  | nil => rw [List.nil_append, splitCrlf]
  | cons c l ih =>
    rw [List.mem_cons, not_or] at hl
    rw [List.cons_append, splitCrlf_cons (Ne.symm hl.1), ih hl.2]
    rfl

theorem render_cons (l : List Char) (lines : List (List Char)) :
    render (l :: lines) = l ++ '\r' :: '\n' :: render lines := by
  simp [render, crlf]

/-- The lines come out, and two empty pieces after them. -/
theorem splitCrlf_render (h : ∀ l ∈ lines, Line l) : splitCrlf (render lines) = lines ++ [[], []] := by
  induction lines with
  | nil => rfl
  | cons l lines ih =>
    rw [render_cons, splitCrlf_line (h l (List.mem_cons_self ..)).no_cr,
      ih fun m hm => h m (List.mem_cons_of_mem _ hm)]
    rfl

theorem Head.parse_render {start : List Char} (hstart : Line start) (h : ∀ l ∈ lines, Line l) :
    Head.parse (Utf8.encode (render (start :: lines))) = .ok ⟨splitn3 start, lines.filterMap readLine⟩ := by
  have hall : ∀ l ∈ start :: lines, Line l := List.forall_mem_cons.mpr ⟨hstart, h⟩
  have hkept : (start :: lines).filter (fun l => !l.isEmpty) = start :: lines := by
    rw [List.filter_eq_self]
    intro l hl
    simp [(hall l hl).ne_nil]
  have hlines : (splitCrlf (render (start :: lines))).filter (fun l => !l.isEmpty) = start :: lines := by
    rw [splitCrlf_render hall, List.filter_append, hkept]
    simp
  rw [parse, Utf8.decodeLossy_encode, hlines]

/-! The end of a head. -/

theorem crlf2_prefix_cons {b : UInt8} (hb : b ≠ 13) (bs : List UInt8) : crlf2.isPrefixOf (b :: bs) = false := by
  rw [Bool.eq_false_iff, Ne, List.isPrefixOf_iff_prefix, crlf2, List.cons_prefix_cons, not_and]
  exact fun heq => absurd heq.symm hb

/-- The terminator does not start before the end of a line without CR. -/
theorem findDoubleCrlf_append (hcr : 13 ∉ bytes) (rest : List UInt8) :
    findDoubleCrlf (bytes ++ rest) = (findDoubleCrlf rest).map (· + bytes.length) := by
  induction bytes with
  | nil => simp
  | cons b bytes ih =>
    rw [List.mem_cons, not_or] at hcr
    rw [List.cons_append, findDoubleCrlf, crlf2_prefix_cons (Ne.symm hcr.1), if_neg (by decide), ih hcr.2, Option.map_map]
    congr 1

/-- A line end with something else after it is not the terminator. -/
theorem findDoubleCrlf_crlf (hrest : rest.head? ≠ some 13) :
    findDoubleCrlf (13 :: 10 :: rest) = (findDoubleCrlf rest).map (· + 2) := by
  have hnot : crlf2.isPrefixOf (13 :: 10 :: rest) = false := by
    rw [Bool.eq_false_iff, Ne, List.isPrefixOf_iff_prefix, crlf2]
    simp only [List.cons_prefix_cons, true_and]
    cases rest with
    | nil => simp
    | cons b rest =>
      rw [List.cons_prefix_cons, not_and]
      exact fun heq => absurd (congrArg some heq.symm) hrest
  rw [findDoubleCrlf, hnot, if_neg (by decide), findDoubleCrlf, crlf2_prefix_cons (by decide), if_neg (by decide),
    Option.map_map]
  congr 1

theorem encode_crlf (s : List Char) : Utf8.encode (l ++ '\r' :: '\n' :: s) = Utf8.encode l ++ 13 :: 10 :: Utf8.encode s := by
  rw [Utf8.encode_append, Utf8.encode_cons, Utf8.encode_cons]
  rfl

theorem Line.no_cr_byte (h : '\r' ∉ l) : 13 ∉ Utf8.encode l := fun hmem =>
  h ((Utf8.mem_encode_ascii (c := '\r') (by decide)).mp hmem)

/-- A line does not start with CR, and neither does what is left of a head inside of it. -/
theorem head_render_cons (h : Line l) (lines : List (List Char)) :
    (Utf8.encode (render (l :: lines))).head? ≠ some 13 := by
  have hnot := Line.no_cr_byte h.no_cr
  rw [render_cons, encode_crlf]
  obtain ⟨c, s, rfl⟩ := List.exists_cons_of_ne_nil h.ne_nil
  obtain ⟨b, bs, hbytes, -⟩ := Utf8.first_encode c []
  rw [Utf8.encode_cons, hbytes] at hnot ⊢
  simp only [List.cons_append, List.head?_cons, ne_eq, Option.some.injEq]
  rintro rfl
  exact hnot (by simp)

/-- The empty line is the first place where CRLFCRLF stands. -/
theorem endsHead_render (hne : lines ≠ []) (h : ∀ l ∈ lines, Line l) : EndsHead (Utf8.encode (render lines)) := by
  induction lines with
  | nil => exact absurd rfl hne
  | cons l lines ih =>
    have hl := h l (List.mem_cons_self ..)
    have hfind := findDoubleCrlf_append (Line.no_cr_byte hl.no_cr)
    cases lines with
    | nil =>
      refine ⟨(Utf8.encode l).length, ?_, ?_⟩
      · rw [render_cons, encode_crlf, hfind]
        simp [render, crlf, findDoubleCrlf, crlf2]
        rfl
      · rw [render_cons, encode_crlf, List.length_append]
        rfl
    | cons m lines =>
      have htail : ∀ k ∈ m :: lines, Line k := fun k hk => h k (List.mem_cons_of_mem _ hk)
      obtain ⟨idx, hidx, hlen⟩ := ih (List.cons_ne_nil _ _) htail
      have hrest := head_render_cons (htail m (List.mem_cons_self ..)) lines
      refine ⟨idx + 2 + (Utf8.encode l).length, ?_, ?_⟩
      · rw [render_cons, encode_crlf, hfind, findDoubleCrlf_crlf hrest, hidx]
        rfl
      · rw [render_cons, encode_crlf, List.length_append, List.length_cons, List.length_cons, ← hlen]
        omega

end Lines

/-! The fields of a head. -/

/-- A name and a value that can be told apart on a line. -/
structure Legible (kv : List Char × List Char) : Prop where
  no_colon : ':' ∉ kv.1
  no_cr : '\r' ∉ kv.1 ++ kv.2
  name : trim kv.1 = kv.1
  value : trim kv.2 = kv.2

/-- The line of a field, with white space around the name and the value. -/
def WritesField (kv : List Char × List Char) (line : List Char) : Prop :=
  ∃ a b c d, Blank a ∧ Blank b ∧ Blank c ∧ Blank d ∧ '\r' ∉ a ++ b ++ c ++ d ∧
    line = a ++ kv.1 ++ b ++ ':' :: (c ++ kv.2 ++ d)

/-- A line of a head: a field, or a text without a colon. -/
def WritesLine : Option (List Char × List Char) → List Char → Prop
  | some kv, line => WritesField kv line
  | none, line => Line line ∧ ':' ∉ line

/-- The lines of a head: the start line, and the fields in their order, with other lines in
    between. -/
def Head.Writes (h : Head) (lines : List (List Char)) : Prop :=
  ∃ ps rest, ps.reduceOption = h.headers ∧ List.Forall₂ WritesLine ps rest ∧
    lines = (h.start.1 ++ ' ' :: (h.start.2.1 ++ ' ' :: h.start.2.2)) :: rest

/-- A head whose parts can be told apart. -/
structure Head.Sound (h : Head) : Prop where
  spaces : ' ' ∉ h.start.1 ∧ ' ' ∉ h.start.2.1
  no_cr : '\r' ∉ h.start.1 ∧ '\r' ∉ h.start.2.1 ∧ '\r' ∉ h.start.2.2
  fields : ∀ kv ∈ h.headers, Legible kv

section Fields
variable {kv : List Char × List Char} {line a b s : List Char} {h : Head} {lines : List (List Char)}

theorem trim_blank_append (ha : Blank a) (s : List Char) : trim (a ++ s) = trim s := by
  rw [trim, trimStart, List.dropWhile_append_of_pos ha, trim, trimStart]

theorem trim_around (ha : Blank a) (hb : Blank b) (s : List Char) : trim (a ++ s ++ b) = trim s := by
  rw [trim_append_blank hb, trim_blank_append ha]

theorem not_mem_blank {c : Char} (hc : isWhitespace c = false) (ha : Blank a) (hb : Blank b) (hs : c ∉ s) :
    c ∉ a ++ s ++ b := by
  simp only [List.mem_append, not_or]
  exact ⟨⟨ha.not_mem hc, hs⟩, hb.not_mem hc⟩

theorem WritesField.read (h : WritesField kv line) (hkv : Legible kv) : readLine line = some kv := by
  obtain ⟨a, b, c, d, ha, hb, hc, hd, -, rfl⟩ := h
  have hcolon : ':' ∉ a ++ kv.1 ++ b := not_mem_blank (by decide) ha hb hkv.no_colon
  rw [readLine, splitOnce_cut hcolon, Option.map_some, trim_around ha hb, trim_around hc hd, hkv.name, hkv.value]

theorem WritesField.isLine (h : WritesField kv line) (hkv : Legible kv) : Line line := by
  obtain ⟨a, b, c, d, -, -, -, -, hcr, rfl⟩ := h
  have hno := hkv.no_cr
  refine ⟨by simp, ?_⟩
  simp only [List.mem_append, List.mem_cons, not_or] at hcr hno ⊢
  have hne : '\r' ≠ ':' := by decide
  grind

theorem splitOnce_none {sep : Char} (hs : sep ∉ s) : splitOnce sep s = none := by
  induction s with
  | nil => rfl
  | cons c s ih =>
    rw [List.mem_cons, not_or] at hs
    rw [splitOnce, if_neg (Ne.symm hs.1), ih hs.2]
    rfl

theorem WritesLine.isLine {p : Option (List Char × List Char)} (h : WritesLine p line) (hp : ∀ kv ∈ p, Legible kv) :
    Line line := by
  cases p with
  | none => exact h.1
  | some kv => exact WritesField.isLine h (hp kv rfl)

theorem WritesLine.read {p : Option (List Char × List Char)} (h : WritesLine p line) (hp : ∀ kv ∈ p, Legible kv) :
    readLine line = p := by
  cases p with
  | none => rw [readLine, splitOnce_none h.2, Option.map_none]
  | some kv => exact WritesField.read h (hp kv rfl)

/-- The lines of fields are read to the fields. -/
theorem filterMap_writes {ps : List (Option (List Char × List Char))} (h : List.Forall₂ WritesLine ps lines)
    (hps : ∀ kv ∈ ps.reduceOption, Legible kv) : (∀ l ∈ lines, Line l) ∧ lines.filterMap readLine = ps.reduceOption := by
  induction h with
  | nil => exact ⟨by simp, rfl⟩
  | @cons p line ps lines hline _ ih =>
    have hp : ∀ kv ∈ p, Legible kv := by
      intro kv hkv
      obtain rfl := Option.mem_def.mp hkv
      exact hps kv (List.mem_cons_self ..)
    have htail : ∀ kv ∈ ps.reduceOption, Legible kv := by
      intro kv hkv
      cases p with
      | none => exact hps kv hkv
      | some q => exact hps kv (List.mem_cons_of_mem _ hkv)
    obtain ⟨hlines, hread⟩ := ih htail
    refine ⟨List.forall_mem_cons.mpr ⟨WritesLine.isLine hline hp, hlines⟩, ?_⟩
    rw [List.filterMap_cons, WritesLine.read hline hp, hread]
    cases p with
    | none => rfl
    | some kv => rfl

theorem splitn3_spaces {a b : List Char} (ha : ' ' ∉ a) (hb : ' ' ∉ b) (c : List Char) :
    splitn3 (a ++ ' ' :: (b ++ ' ' :: c)) = (a, b, c) := by
  simp only [splitn3, splitOnce_cut ha, splitOnce_cut hb]

theorem Head.Sound.start_line (hs : h.Sound) : Line (h.start.1 ++ ' ' :: (h.start.2.1 ++ ' ' :: h.start.2.2)) := by
  obtain ⟨ha, hb, hc⟩ := hs.no_cr
  refine ⟨by simp, ?_⟩
  simp only [List.mem_append, List.mem_cons, not_or]
  exact ⟨ha, by decide, hb, by decide, hc⟩

end Fields

/-! What the programs send. -/

/-- Headers, and what of them is on the lines. -/
abbrev Fields := List (HeaderName × List Char)

def Fields.lines (fields : Fields) : List (List Char) := fields.map fun kv => headerLine kv.1.text kv.2

/-- The headers as they are read: white space around a value is lost. -/
def Fields.read (fields : Fields) : List (List Char × List Char) := fields.map fun kv => (kv.1.text, trim kv.2)

section Sending
variable {fields : Fields} {kv : HeaderName × List Char} {startLine : List Char}

theorem HeaderName.text_plain (name : HeaderName) : ':' ∉ name.text ∧ '\r' ∉ name.text ∧ trim name.text = name.text := by
  cases name with
  | _ => decide +kernel

/-- No two of the names are the same, in whatever letters. -/
theorem HeaderName.text_inj (a b : HeaderName) : eqIgnoreAsciiCase a.text b.text = decide (a = b) := by
  cases a with
  | _ =>
    cases b with
    | _ => decide +kernel

theorem headerLine_line (name : HeaderName) {value : List Char} (h : '\r' ∉ value) : Line (headerLine name.text value) := by
  refine ⟨by simp [headerLine], ?_⟩
  simp only [headerLine, List.mem_append, List.mem_cons, not_or]
  exact ⟨name.text_plain.2.1, by decide, by decide, h⟩

theorem readLine_headerLine (name : HeaderName) (value : List Char) :
    readLine (headerLine name.text value) = some (name.text, trim value) := by
  have hspace : Blank [' '] := by decide
  have hvalue : trim (' ' :: value) = trim value := trim_blank_append hspace value
  rw [readLine, headerLine, splitOnce_cut name.text_plain.1, Option.map_some, hvalue, name.text_plain.2.2]

/-- What is sent as a start line and headers ends where it ends, and is read as it was. -/
theorem parse_sent (hstart : Line startLine) (h : ∀ kv ∈ fields, '\r' ∉ kv.2) :
    EndsHead (Utf8.encode (render (startLine :: fields.lines))) ∧
    Head.parse (Utf8.encode (render (startLine :: fields.lines))) = .ok ⟨splitn3 startLine, fields.read⟩ := by
  have hlines : ∀ l ∈ fields.lines, Line l := by
    intro l hl
    obtain ⟨kv, hkv, rfl⟩ := List.mem_map.mp hl
    exact headerLine_line kv.1 (h kv hkv)
  refine ⟨endsHead_render (List.cons_ne_nil _ _) (List.forall_mem_cons.mpr ⟨hstart, hlines⟩), ?_⟩
  rw [Head.parse_render hstart hlines, Fields.lines, List.filterMap_map]
  congr 2
  rw [Fields.read, ← List.filterMap_eq_map]
  apply List.filterMap_congr
  intro kv _
  exact readLine_headerLine kv.1 kv.2

theorem lookup_fields_cons (own name : HeaderName) (value : List Char) (fields : Fields) :
    List.lookup name ((own, value) :: fields) = if name = own then some value else fields.lookup name := by
  rw [List.lookup_cons]
  by_cases hname : name = own
  · rw [if_pos hname, beq_iff_eq.mpr hname]
  · rw [if_neg hname, beq_eq_false_iff_ne.mpr hname]

/-- A header that was sent is found under its name. -/
theorem header_read (start : List Char × List Char × List Char) (fields : Fields) (name : HeaderName) :
    (Head.mk start fields.read).header name.text = (fields.lookup name).map trim := by
  induction fields with
  | nil => rfl
  | cons kv fields ih =>
    obtain ⟨own, value⟩ := kv
    have hnext : (Head.mk start (Fields.read ((own, value) :: fields))).header name.text =
        if own = name then some (trim value) else (Head.mk start (Fields.read fields)).header name.text := by
      simp only [Head.header, Fields.read, List.map_cons, List.find?_cons, HeaderName.text_inj]
      by_cases hname : own = name
      · rw [if_pos hname, decide_eq_true hname]
        rfl
      · rw [if_neg hname, decide_eq_false hname]
    rw [hnext, ih, lookup_fields_cons]
    by_cases hname : own = name
    · rw [if_pos hname, if_pos hname.symm, Option.map_some]
    · rw [if_neg hname, if_neg (Ne.symm hname)]

end Sending

/-- A head that fits the cap is cut off the stream as it stands. -/
theorem EndsHead.read_ok {head : List UInt8} (h : EndsHead head) (hcap : head.length ≤ maxHeadBytes + 1) (tail : List UInt8)
    (sizes : List Nat) : ∃ leftover r, readHead ⟨head ++ tail, sizes⟩ = .ok ((head, leftover), r) ∧
      leftover ++ r.data = tail ∧ leftover.length < headChunk := by
  obtain ⟨hspec, hok⟩ := readHead_spec h tail sizes
  cases hres : readHead ⟨head ++ tail, sizes⟩ with
  | error e =>
    have hno := hok hcap
    rw [hres] at hno
    cases hno
  | ok x =>
    obtain ⟨⟨head', leftover⟩, r⟩ := x
    obtain ⟨rfl, hsplit, hlen, -⟩ := hspec head' leftover r hres
    exact ⟨leftover, r, rfl, hsplit, hlen⟩

/-- Every head that is written on lines, the fields in their order with any white space around
    names and values and lines without a colon in between, and that fits the cap: it is cut
    off the stream as it stands, however the reads cut the stream and whatever follows it, and
    it is read back as it was. -/
theorem head_round_trips (h : Head) (lines : List (List Char)) (tail : List UInt8) (sizes : List Nat) (hsound : h.Sound)
    (hlines : h.Writes lines) (hcap : (Utf8.encode (render lines)).length ≤ maxHeadBytes + 1) :
    ∃ leftover r, readHead ⟨Utf8.encode (render lines) ++ tail, sizes⟩ = .ok ((Utf8.encode (render lines), leftover), r) ∧
      leftover ++ r.data = tail ∧ Head.parse (Utf8.encode (render lines)) = .ok h := by
  obtain ⟨ps, rest, hps, hwrites, rfl⟩ := hlines
  obtain ⟨hrest, hread⟩ := filterMap_writes hwrites fun kv hkv => hsound.fields kv (hps ▸ hkv)
  have hstart := hsound.start_line
  have hends := endsHead_render (List.cons_ne_nil _ _) (List.forall_mem_cons.mpr ⟨hstart, hrest⟩)
  obtain ⟨leftover, r, hres, hsplit, -⟩ := hends.read_ok hcap tail sizes
  refine ⟨leftover, r, hres, hsplit, ?_⟩
  rw [Head.parse_render hstart hrest, hread, hps, splitn3_spaces hsound.spaces.1 hsound.spaces.2]

/-- A field with white space around its name and its value, and a line without a colon. -/
theorem head_round_trips_spaced :
    let head := Utf8.encode (render ["GET /ü HTTP/1.1".toList, " Host : a b ".toList, "nothing".toList])
    ∃ leftover r, readHead ⟨head ++ Utf8.encode "body".toList, [3]⟩ = .ok ((head, leftover), r) ∧
      leftover ++ r.data = Utf8.encode "body".toList ∧
      Head.parse head = .ok ⟨("GET".toList, "/ü".toList, "HTTP/1.1".toList), [("Host".toList, "a b".toList)]⟩ := by
  have hsp : Blank [' '] := by decide
  have hfield : WritesLine (some ("Host".toList, "a b".toList)) " Host : a b ".toList :=
    ⟨[' '], [' '], [' '], [' '], hsp, hsp, hsp, hsp, by decide, by decide⟩
  have hother : WritesLine none "nothing".toList := ⟨by decide, by decide⟩
  have hlegible : Legible ("Host".toList, "a b".toList) := ⟨by decide, by decide, by decide +kernel, by decide +kernel⟩
  refine head_round_trips ⟨("GET".toList, "/ü".toList, "HTTP/1.1".toList), [("Host".toList, "a b".toList)]⟩ _
    (Utf8.encode "body".toList) [3] ⟨by decide, by decide, fun kv hkv => List.mem_singleton.mp hkv ▸ hlegible⟩
    ⟨[some ("Host".toList, "a b".toList), none], [" Host : a b ".toList, "nothing".toList], rfl,
      .cons hfield (.cons hother .nil), by decide⟩ (by decide +kernel)

end Hord
