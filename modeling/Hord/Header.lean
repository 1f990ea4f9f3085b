import Hord.Lib.Text

/- The `X-HORD-RDMA-Write` header: its request value names the client's buffer, its response
   value the outcome. A value is a list of parameters between semicolons, and a reader skips
   what it does not know. The theorem says how much of the spelling a reader ignores: the
   order of the parameters, white space, blank and unknown parameters, the `0x` in front of a
   hexadecimal number (`header_round_trips`). -/
namespace Hord

open Text

structure RdmaWriteReq where
  addr : UInt64
  rkey : UInt32
  len : UInt64
  id : Option UInt32
  deriving DecidableEq

inductive RdmaWriteStatus where
  | complete (bytesWritten : UInt64)
  | tooLarge (objectSize : UInt64)
  | declined
  deriving DecidableEq

/-- `strip_prefix("0x")`, or `"0X"`. -/
def stripHexPrefix : List Char → List Char
  | '0' :: 'x' :: s => s
  | '0' :: 'X' :: s => s
  | s => s

def parseHexU64 (s : List Char) : Option UInt64 :=
  (fromStrRadix 16 (2 ^ 64) (stripHexPrefix s)).map UInt64.ofNat

def parseHexU32 (s : List Char) : Option UInt32 :=
  (fromStrRadix 16 (2 ^ 32) (stripHexPrefix s)).map UInt32.ofNat

def parseU64 (s : List Char) : Option UInt64 := (fromStrRadix 10 (2 ^ 64) s).map UInt64.ofNat
def parseU32 (s : List Char) : Option UInt32 := (fromStrRadix 10 (2 ^ 32) s).map UInt32.ofNat

/-- The trimmed name and value of a trimmed parameter. -/
def nameValue (part : List Char) : Option (List Char × List Char) :=
  (splitOnce '=' part).map fun kv => (trim kv.1, trim kv.2)

/-- One round of the loop over the parameters of a value: `readParam` takes the name and the
    value of one that is not empty. -/
def readPart {P : Type} (readParam : P → List Char → List Char → Option P) (p : P) (part : List Char) : Option P :=
  let part := trim part
  if part.isEmpty then some p else (nameValue part).bind fun kv => readParam p kv.1 kv.2

namespace RdmaWriteReq

inductive Field where
  | addr
  | rkey
  | len
  | id
  deriving DecidableEq

/-- The name of its parameter. -/
def Field.name : Field → List Char
  | .addr => ['a', 'd', 'd', 'r']
  | .rkey => ['r', 'k', 'e', 'y']
  | .len => ['l', 'e', 'n']
  | .id => ['i', 'd']

/-- The parameters read so far. -/
structure Params where
  addr : Option UInt64
  rkey : Option UInt32
  len : Option UInt64
  id : Option UInt32
  deriving DecidableEq

def readParam (p : Params) (k v : List Char) : Option Params :=
  if k = Field.name .addr then (parseHexU64 v).map fun addr => { p with addr := some addr }
  else if k = Field.name .rkey then (parseHexU32 v).map fun rkey => { p with rkey := some rkey }
  else if k = Field.name .len then (parseU64 v).map fun len => { p with len := some len }
  else if k = Field.name .id then (parseU32 v).map fun id => { p with id := some id }
  else some p

def parse (value : List Char) : Option RdmaWriteReq := do
  let p ← (value.splitOn ';').foldlM (readPart readParam) ⟨none, none, none, none⟩
  return ⟨← p.addr, ← p.rkey, ← p.len, p.id⟩

def headerValue (r : RdmaWriteReq) : List Char :=
  Field.name .addr ++ ['=', '0', 'x'] ++ Nat.toDigits 16 r.addr.toNat ++ [';'] ++
    Field.name .rkey ++ ['=', '0', 'x'] ++ Nat.toDigits 16 r.rkey.toNat ++ [';'] ++
    Field.name .len ++ ['='] ++ Nat.toDigits 10 r.len.toNat ++
    match r.id with
    | some id => [';'] ++ Field.name .id ++ ['='] ++ Nat.toDigits 10 id.toNat
    | none => []

end RdmaWriteReq

namespace RdmaWriteStatus

inductive Field where
  | status
  | bytesWritten
  | objectSize
  deriving DecidableEq

def Field.name : Field → List Char
  | .status => ['s', 't', 'a', 't', 'u', 's']
  | .bytesWritten => ['b', 'y', 't', 'e', 's', '_', 'w', 'r', 'i', 't', 't', 'e', 'n']
  | .objectSize => ['o', 'b', 'j', 'e', 'c', 't', '_', 's', 'i', 'z', 'e']

/-- The words a status is written with. -/
def completeText : List Char := ['c', 'o', 'm', 'p', 'l', 'e', 't', 'e']
def tooLargeText : List Char := ['t', 'o', 'o', '_', 'l', 'a', 'r', 'g', 'e']
def declinedText : List Char := ['d', 'e', 'c', 'l', 'i', 'n', 'e', 'd']

structure Params where
  status : Option (List Char)
  bytesWritten : Option UInt64
  objectSize : Option UInt64
  deriving DecidableEq

/-- A number that cannot be read counts as missing. -/
def readParam (p : Params) (k v : List Char) : Option Params :=
  if k = Field.name .status then some { p with status := some v }
  else if k = Field.name .bytesWritten then some { p with bytesWritten := parseU64 v }
  else if k = Field.name .objectSize then some { p with objectSize := parseU64 v }
  else some p

def parse (value : List Char) : Option RdmaWriteStatus := do
  let p ← (value.splitOn ';').foldlM (readPart readParam) ⟨none, none, none⟩
  let status ← p.status
  if status = completeText then return .complete (← p.bytesWritten)
  else if status = tooLargeText then return .tooLarge (← p.objectSize)
  else if status = declinedText then return .declined
  else none

def headerValue : RdmaWriteStatus → List Char
  | .complete bytesWritten => Field.name .status ++ ['='] ++ completeText ++ [';'] ++
      Field.name .bytesWritten ++ ['='] ++ Nat.toDigits 10 bytesWritten.toNat
  | .tooLarge objectSize => Field.name .status ++ ['='] ++ tooLargeText ++ [';'] ++
      Field.name .objectSize ++ ['='] ++ Nat.toDigits 10 objectSize.toNat
  | .declined => Field.name .status ++ ['='] ++ declinedText

end RdmaWriteStatus

/-! The policy of a server. -/

/-- What a server does about a request: answer at once, or write the body first. -/
inductive RdmaWriteAction where
  | respond (status : RdmaWriteStatus)
  | write (payloadLen sourceLen : Nat) (transferId : Option UInt32)
  deriving DecidableEq

namespace RdmaWriteAction

/-- The size of the object always fits a `usize` of 64 bits. -/
def decide (req : RdmaWriteReq) (objectSize : UInt64) (splitNegotiated : Bool) : RdmaWriteAction :=
  if req.len < objectSize then .respond (.tooLarge objectSize)
  else
    let n := objectSize.toNat
    match req.id.filter fun _ => splitNegotiated with
    | some transferId => .write n (max n 1) (some transferId)
    | none => if n = 0 then .respond (.complete 0) else .write n n none

/-- The status of an action once it is carried out, nothing when the source cannot be
    registered or the write fails. -/
def outcome (delivered : Bool) : RdmaWriteAction → Option RdmaWriteStatus
  | .respond status => some status
  | .write payloadLen _ _ => if delivered then some (.complete (UInt64.ofNat payloadLen)) else none

end RdmaWriteAction

/-- An object that does not fit is reported; one that fits is written, or complete when
    there is nothing to write. -/
theorem RdmaWriteAction.decide_cases (req : RdmaWriteReq) (objectSize : UInt64) (split : Bool) :
    (req.len < objectSize ∧ RdmaWriteAction.decide req objectSize split = .respond (.tooLarge objectSize)) ∨
    (¬req.len < objectSize ∧ (req.id.filter fun _ => split) = none ∧ objectSize = 0 ∧
      RdmaWriteAction.decide req objectSize split = .respond (.complete objectSize)) ∨
    ∃ sourceLen, ¬req.len < objectSize ∧ objectSize.toNat ≤ sourceLen ∧ 0 < sourceLen ∧
      RdmaWriteAction.decide req objectSize split =
        .write objectSize.toNat sourceLen (req.id.filter fun _ => split) := by
  rw [RdmaWriteAction.decide]
  split
  · next hlarge => exact .inl ⟨hlarge, rfl⟩
  · next hfits =>
    refine .inr ?_
    cases hid : req.id.filter fun _ => split with
    | some transferId =>
      exact .inr ⟨max objectSize.toNat 1, hfits, Nat.le_max_left .., Nat.lt_of_lt_of_le Nat.zero_lt_one (Nat.le_max_right ..), rfl⟩
    | none =>
      by_cases hzero : objectSize.toNat = 0
      · have hobject : objectSize = 0 := UInt64.toNat_inj.mp hzero
        subst hobject
        exact .inl ⟨hfits, rfl, rfl, rfl⟩
      · simp only [if_neg hzero]
        exact .inr ⟨objectSize.toNat, hfits, Nat.le_refl _, Nat.pos_of_ne_zero hzero, rfl⟩

/-! Spellings. -/

/-- The parameter `name=v`, with white space around it, its name and its value. -/
def Padded (name v part : List Char) : Prop :=
  ∃ a b c d, Blank a ∧ Blank b ∧ Blank c ∧ Blank d ∧ part = a ++ name ++ b ++ '=' :: (c ++ v ++ d)

/-- An empty parameter, or one whose name is not among `names`. -/
def Ignored (names : List (List Char)) (part : List Char) : Prop :=
  Blank part ∨ ';' ∉ part ∧ ∃ k v, part = k ++ '=' :: v ∧ '=' ∉ k ∧ trim k ∉ names

/-- How the fields of one kind of header are written: the names a reader knows, and the
    texts a field's value may have. -/
structure Format (F : Type) where
  names : List (List Char)
  name : F → List Char
  texts : F → List (List Char)

/-- A parameter is a field's, or ignored. -/
def Format.Part {F : Type} (fmt : Format F) : Option F → List Char → Prop
  | none, part => Ignored fmt.names part
  | some f, part => ∃ v ∈ fmt.texts f, Padded (fmt.name f) v part

/-- The parameters `parts` are the `fields` in some order, with ignored ones in between. -/
def Format.Lists {F : Type} (fmt : Format F) (fields : List F) (parts : List (List Char)) : Prop :=
  ∃ ps : List (Option F), (ps.filterMap id).Perm fields ∧ List.Forall₂ fmt.Part ps parts

/-- A value that spells the fields. -/
def Format.Spells {F : Type} (fmt : Format F) (fields : List F) (value : List Char) : Prop :=
  ∃ parts, fmt.Lists fields parts ∧ value = [';'].intercalate parts

section Spelling
variable {names : List (List Char)} {name v part : List Char}

/-- A text that a name or a value can be: not empty, no white space, no separator. -/
structure Plain (s : List Char) : Prop where
  ne_nil : s ≠ []
  chars : ∀ c ∈ s, isWhitespace c = false ∧ c ≠ ';' ∧ c ≠ '='

instance Plain.decidable (s : List Char) : Decidable (Plain s) :=
  -- through the list: the quantifier over all characters has an instance of its own
  haveI : Decidable (∀ c ∈ s, isWhitespace c = false ∧ c ≠ ';' ∧ c ≠ '=') := List.decidableBAll _ s
  decidable_of_iff (s ≠ [] ∧ ∀ c ∈ s, isWhitespace c = false ∧ c ≠ ';' ∧ c ≠ '=')
    ⟨fun h => ⟨h.1, h.2⟩, fun h => ⟨h.ne_nil, h.chars⟩⟩

theorem Plain.solid {s : List Char} (h : Plain s) : Solid s := fun c hc => (h.chars c hc).1

theorem Padded.read (h : Padded name v part) (hname : Plain name) (hv : Plain v) :
    trim part ≠ [] ∧ nameValue (trim part) = some (name, v) := by
  obtain ⟨a, b, c, d, ha, hb, hc, hd, rfl⟩ := h
  have htrim : trim (a ++ name ++ b ++ '=' :: (c ++ v ++ d)) = (name ++ b) ++ '=' :: (c ++ v) := by
    rw [trim_cut (by decide), trimStart_solid ha hname.solid hname.ne_nil, trimEnd_solid hd hv.solid hv.ne_nil]
  have hno : '=' ∉ name ++ b := by
    rw [List.mem_append, not_or]
    exact ⟨fun h => (hname.chars _ h).2.2 rfl, hb.not_mem (by decide)⟩
  have hname' : trim (name ++ b) = name := trim_padded (a := []) (fun _ h => absurd h List.not_mem_nil) hname.solid hb
  have hv' : trim (c ++ v) = v := by
    have := trim_padded (b := []) hc hv.solid (fun _ h => absurd h List.not_mem_nil)
    rwa [List.append_nil] at this
  rw [htrim]
  refine ⟨by simp, ?_⟩
  rw [nameValue, splitOnce_cut hno, Option.map_some, hname', hv']

theorem Ignored.read (h : Ignored names part) : trim part = [] ∨
    trim part ≠ [] ∧ ∃ k v, nameValue (trim part) = some (k, v) ∧ k ∉ names := by
  rcases h with hblank | ⟨-, k, v, rfl, hno, hk⟩
  · exact .inl (trim_blank hblank)
  · refine .inr ?_
    rw [trim_cut (by decide)]
    refine ⟨by simp, trim (trimStart k), trim (trimEnd v), ?_, ?_⟩
    · rw [nameValue, splitOnce_cut (not_mem_trimStart hno)]
      rfl
    · rw [trim_trimStart]
      exact hk

theorem Padded.no_semicolon (h : Padded name v part) (hname : Plain name) (hv : Plain v) : ';' ∉ part := by
  obtain ⟨a, b, c, d, ha, hb, hc, hd, rfl⟩ := h
  have hws : isWhitespace ';' = false := by decide
  simp only [List.mem_append, List.mem_cons, not_or]
  exact ⟨⟨⟨ha.not_mem hws, fun h => (hname.chars _ h).2.1 rfl⟩, hb.not_mem hws⟩, by decide,
    ⟨hc.not_mem hws, fun h => (hv.chars _ h).2.1 rfl⟩, hd.not_mem hws⟩

theorem Ignored.no_semicolon (h : Ignored names part) : ';' ∉ part := by
  rcases h with hblank | ⟨hno, -⟩
  · exact hblank.not_mem (by decide)
  · exact hno

end Spelling

section Reading
variable {F P : Type} {fmt : Format F} {fields : List F} {parts : List (List Char)} {ps : List (Option F)}

/-- The names and the values of the fields can be told apart from what is around them. -/
def Format.Legible (fmt : Format F) (fields : List F) : Prop :=
  ∀ f ∈ fields, Plain (fmt.name f) ∧ ∀ v ∈ fmt.texts f, Plain v

/-- A reader that sets a field on reading it and skips what it does not know. -/
structure Format.Reads (fmt : Format F) (fields : List F) (readParam : P → List Char → List Char → Option P)
    (set : P → F → P) : Prop where
  unknown : ∀ p k v, k ∉ fmt.names → readParam p k v = some p
  field : ∀ p, ∀ f ∈ fields, ∀ v ∈ fmt.texts f, readParam p (fmt.name f) v = some (set p f)

variable {readParam : P → List Char → List Char → Option P} {set : P → F → P}

theorem readPart_ignored (hread : fmt.Reads fields readParam set) {part : List Char} (h : Ignored fmt.names part)
    (p : P) : readPart readParam p part = some p := by
  rcases h.read with hnil | ⟨hne, k, v, hkv, hk⟩
  · rw [readPart, if_pos (List.isEmpty_iff.mpr hnil)]
  · rw [readPart, if_neg (by simpa using hne), hkv, Option.bind_some]
    exact hread.unknown p k v hk

theorem readPart_field (hread : fmt.Reads fields readParam set) (hplain : fmt.Legible fields) {f : F}
    (hf : f ∈ fields) {v part : List Char} (hv : v ∈ fmt.texts f) (hpad : Padded (fmt.name f) v part) (p : P) :
    readPart readParam p part = some (set p f) := by
  obtain ⟨hne, hkv⟩ := hpad.read (hplain f hf).1 ((hplain f hf).2 v hv)
  rw [readPart, if_neg (by simpa using hne), hkv, Option.bind_some]
  exact hread.field p f hf v hv

theorem Format.Reads.foldlM (hread : fmt.Reads fields readParam set) (hplain : fmt.Legible fields)
    (h : List.Forall₂ fmt.Part ps parts) (hmem : ∀ f, some f ∈ ps → f ∈ fields) (p : P) :
    parts.foldlM (readPart readParam) p = some ((ps.filterMap id).foldl set p) := by
  induction h generalizing p with
  | nil => rfl
  | @cons o part ps parts hpart hrest ih =>
    have hmem' : ∀ f, some f ∈ ps → f ∈ fields := fun f hf => hmem f (List.mem_cons_of_mem _ hf)
    cases o with
    | none =>
      calc (part :: parts).foldlM (readPart readParam) p
          = parts.foldlM (readPart readParam) p := by rw [List.foldlM_cons, readPart_ignored hread hpart]; rfl
        _ = some ((ps.filterMap id).foldl set p) := ih hmem' p
    | some f =>
      have hf : f ∈ fields := hmem f (List.mem_cons_self ..)
      obtain ⟨v, hv, hpad⟩ := hpart
      calc (part :: parts).foldlM (readPart readParam) p
          = parts.foldlM (readPart readParam) (set p f) := by
            rw [List.foldlM_cons, readPart_field hread hplain hf hv hpad]
            rfl
        _ = some ((ps.filterMap id).foldl set (set p f)) := ih hmem' (set p f)

theorem Format.Part.no_semicolon (h : List.Forall₂ fmt.Part ps parts) (hplain : fmt.Legible fields)
    (hmem : ∀ f, some f ∈ ps → f ∈ fields) : ∀ part ∈ parts, ';' ∉ part := by
  induction h with
  | nil => exact fun part hpart => absurd hpart List.not_mem_nil
  | @cons o part ps parts hpart hrest ih =>
    intro q hq
    rcases List.mem_cons.mp hq with rfl | hq
    · cases o with
      | none => exact Ignored.no_semicolon hpart
      | some f =>
        have hf : f ∈ fields := hmem f (List.mem_cons_self ..)
        obtain ⟨v, hv, hpad⟩ := hpart
        exact hpad.no_semicolon (hplain f hf).1 ((hplain f hf).2 v hv)
    · exact ih (fun f hf => hmem f (List.mem_cons_of_mem _ hf)) q hq

/-- Whatever spells the fields is read to the same: the fields set, in some order. -/
theorem Format.Reads.spells (hread : fmt.Reads fields readParam set) (hplain : fmt.Legible fields)
    (hne : fields ≠ []) {value : List Char} (h : fmt.Spells fields value) (p : P) : ∃ fs : List F, fs.Perm fields ∧
      (value.splitOn ';').foldlM (readPart readParam) p = some (fs.foldl set p) := by
  obtain ⟨parts, ⟨ps, hperm, hparts⟩, rfl⟩ := h
  have hmem : ∀ f, some f ∈ ps → f ∈ fields := by
    intro f hf
    exact hperm.subset (List.mem_filterMap.mpr ⟨some f, hf, rfl⟩)
  have hsplit : ([';'].intercalate parts).splitOn ';' = parts := by
    refine List.splitOn_intercalate ';' (Format.Part.no_semicolon hparts hplain hmem) ?_
    rintro rfl
    cases hparts
    exact hne (List.nil_perm.mp hperm)
  refine ⟨ps.filterMap id, hperm, ?_⟩
  rw [hsplit]
  exact hread.foldlM hplain hparts hmem p

end Reading

/-- The fields in their own order, without any white space. -/
theorem Format.Spells.plainly {F : Type} {fmt : Format F} {fields : List F} (text : F → List Char)
    (htext : ∀ f ∈ fields, text f ∈ fmt.texts f) :
    fmt.Spells fields ([';'].intercalate (fields.map fun f => fmt.name f ++ '=' :: text f)) := by
  have hnil : Blank [] := fun c hc => absurd hc List.not_mem_nil
  refine ⟨_, ⟨fields.map some, by simp, ?_⟩, rfl⟩
  induction fields with
  | nil => exact .nil
  | cons f fields ih =>
    have hf := htext f (List.mem_cons_self ..)
    refine .cons ⟨text f, hf, [], [], [], [], hnil, hnil, hnil, hnil, by simp⟩ (ih fun g hg => ?_)
    exact htext g (List.mem_cons_of_mem _ hg)

/-! The two headers. -/

theorem plain_toDigits {radix : Nat} (hr : 1 < radix) (hr' : radix ≤ 16) (n : Nat) :
    Plain (Nat.toDigits radix n) := by
  refine ⟨Nat.toDigits_ne_nil, fun c hc => ?_⟩
  obtain ⟨hws, hsemi, heq, -⟩ := toDigits_plain hr hr' hc
  exact ⟨hws, hsemi, heq⟩

theorem plain_hex (n : Nat) : Plain ('0' :: 'x' :: Nat.toDigits 16 n) := by
  refine ⟨List.cons_ne_nil _ _, fun c hc => ?_⟩
  simp only [List.mem_cons] at hc
  rcases hc with rfl | rfl | hc
  · decide
  · decide
  · exact (plain_toDigits (by decide) (Nat.le_refl 16) n).chars c hc

theorem stripHexPrefix_of_not_mem {ds : List Char} (hx : 'x' ∉ ds) (hX : 'X' ∉ ds) : stripHexPrefix ds = ds := by
  rw [stripHexPrefix]
  · rintro cs rfl
    exact hx (by simp)
  · rintro cs rfl
    exact hX (by simp)

/-- Hexadecimal digits do not start with the prefix. -/
theorem stripHexPrefix_toDigits (n : Nat) : stripHexPrefix (Nat.toDigits 16 n) = Nat.toDigits 16 n := by
  have hplain : ∀ c ∈ Nat.toDigits 16 n, c ≠ 'x' ∧ c ≠ 'X' :=
    fun c hc => (toDigits_plain (by decide) (Nat.le_refl 16) hc).2.2.2.2
  exact stripHexPrefix_of_not_mem (fun hmem => (hplain 'x' hmem).1 rfl) (fun hmem => (hplain 'X' hmem).2 rfl)

/-- The texts of a hexadecimal number. -/
def hexTexts (n : Nat) : List (List Char) := ['0' :: 'x' :: Nat.toDigits 16 n, Nat.toDigits 16 n]

theorem hexTexts_plain (n : Nat) : ∀ v ∈ hexTexts n, Plain v := by
  intro v hv
  simp only [hexTexts, List.mem_cons, List.not_mem_nil, or_false] at hv
  rcases hv with rfl | rfl
  · exact plain_hex n
  · exact plain_toDigits (by decide) (Nat.le_refl 16) n

theorem hexTexts_strip {n : Nat} {v : List Char} (hv : v ∈ hexTexts n) : stripHexPrefix v = Nat.toDigits 16 n := by
  simp only [hexTexts, List.mem_cons, List.not_mem_nil, or_false] at hv
  rcases hv with rfl | rfl
  · rfl
  · exact stripHexPrefix_toDigits n

theorem parseHexU64_texts (x : UInt64) {v : List Char} (hv : v ∈ hexTexts x.toNat) : parseHexU64 v = some x := by
  rw [parseHexU64, hexTexts_strip hv, fromStrRadix_toDigits (by decide) (Nat.le_refl 16) x.toNat_lt,
    Option.map_some, UInt64.ofNat_toNat]

theorem parseHexU32_texts (x : UInt32) {v : List Char} (hv : v ∈ hexTexts x.toNat) : parseHexU32 v = some x := by
  rw [parseHexU32, hexTexts_strip hv, fromStrRadix_toDigits (by decide) (Nat.le_refl 16) x.toNat_lt,
    Option.map_some, UInt32.ofNat_toNat]

theorem parseU64_toDigits (x : UInt64) : parseU64 (Nat.toDigits 10 x.toNat) = some x := by
  rw [parseU64, fromStrRadix_toDigits (by decide) (by decide) x.toNat_lt, Option.map_some, UInt64.ofNat_toNat]

theorem parseU32_toDigits (x : UInt32) : parseU32 (Nat.toDigits 10 x.toNat) = some x := by
  rw [parseU32, fromStrRadix_toDigits (by decide) (by decide) x.toNat_lt, Option.map_some, UInt32.ofNat_toNat]

namespace RdmaWriteReq

/-- The fields a request's header carries. -/
def fields (r : RdmaWriteReq) : List Field :=
  [.addr, .rkey, .len] ++ if r.id.isSome then [.id] else []

def texts (r : RdmaWriteReq) : Field → List (List Char)
  | .addr => hexTexts r.addr.toNat
  | .rkey => hexTexts r.rkey.toNat
  | .len => [Nat.toDigits 10 r.len.toNat]
  | .id => r.id.toList.map fun id => Nat.toDigits 10 id.toNat

def format (r : RdmaWriteReq) : Format Field :=
  ⟨[.addr, .rkey, .len, .id].map Field.name, Field.name, r.texts⟩

/-- The field as the request has it. -/
def set (r : RdmaWriteReq) (p : Params) : Field → Params
  | .addr => { p with addr := some r.addr }
  | .rkey => { p with rkey := some r.rkey }
  | .len => { p with len := some r.len }
  | .id => { p with id := r.id }

section Codec
variable (r : RdmaWriteReq)

theorem legible : r.format.Legible r.fields := by
  have hname : ∀ f : Field, Plain f.name := by
    intro f
    cases f <;> decide
  have hdec : ∀ n : Nat, Plain (Nat.toDigits 10 n) := plain_toDigits (by decide) (by decide)
  intro f _
  refine ⟨hname f, fun v hv => ?_⟩
  cases f with
  | addr => exact hexTexts_plain _ v hv
  | rkey => exact hexTexts_plain _ v hv
  | len =>
    rw [List.mem_singleton.mp hv]
    exact hdec _
  | id =>
    obtain ⟨id, -, rfl⟩ := List.mem_map.mp hv
    exact hdec _

theorem reads : r.format.Reads r.fields readParam r.set := by
  constructor
  · intro p k v hk
    simp only [format, List.map_cons, List.map_nil, List.mem_cons, List.not_mem_nil, or_false, not_or] at hk
    obtain ⟨haddr, hrkey, hlen, hid⟩ := hk
    rw [readParam, if_neg haddr, if_neg hrkey, if_neg hlen, if_neg hid]
  · intro p f _ v hv
    cases f with
    | addr =>
      have hparse := parseHexU64_texts r.addr hv
      show readParam p (Field.name .addr) v = _
      rw [readParam, if_pos rfl, hparse]
      rfl
    | rkey =>
      have hparse := parseHexU32_texts r.rkey hv
      show readParam p (Field.name .rkey) v = _
      rw [readParam, if_neg (by decide), if_pos rfl, hparse]
      rfl
    | len =>
      show readParam p (Field.name .len) v = _
      rw [List.mem_singleton.mp hv, readParam, if_neg (by decide), if_neg (by decide), if_pos rfl, parseU64_toDigits]
      rfl
    | id =>
      obtain ⟨id, hid, rfl⟩ := List.mem_map.mp hv
      show readParam p (Field.name .id) _ = _
      rw [readParam, if_neg (by decide), if_neg (by decide), if_neg (by decide), if_pos rfl, parseU32_toDigits, set,
        Option.mem_toList.mp hid]
      rfl

/-- Fields set in any order. -/
theorem foldl_set (fs : List Field) (p : Params) : fs.foldl r.set p =
    ⟨if .addr ∈ fs then some r.addr else p.addr, if .rkey ∈ fs then some r.rkey else p.rkey,
      if .len ∈ fs then some r.len else p.len, if .id ∈ fs then r.id else p.id⟩ := by
  induction fs generalizing p with
  | nil => rfl
  | cons f fs ih =>
    rw [List.foldl_cons, ih]
    cases f with
    | _ => simp [set]

theorem parse_spells {value : List Char} (h : r.format.Spells r.fields value) : parse value = some r := by
  have hne : r.fields ≠ [] := by simp [fields]
  obtain ⟨fs, hperm, hread⟩ := (reads r).spells (legible r) hne h ⟨none, none, none, none⟩
  have hmem : ∀ f, f ∈ fs ↔ f ∈ r.fields := fun f => hperm.mem_iff
  have hid : (if Field.id ∈ r.fields then r.id else none) = r.id := by
    cases hr : r.id with
    | none => simp
    | some id => simp [fields, hr]
  rw [parse, hread, foldl_set]
  simp only [hmem, hid]
  simp [fields]

/-- The text `header_value` writes. -/
def text : Field → List Char
  | .addr => '0' :: 'x' :: Nat.toDigits 16 r.addr.toNat
  | .rkey => '0' :: 'x' :: Nat.toDigits 16 r.rkey.toNat
  | .len => Nat.toDigits 10 r.len.toNat
  | .id => Nat.toDigits 10 (r.id.getD 0).toNat

theorem headerValue_spells : r.format.Spells r.fields r.headerValue := by
  have hvalue : r.headerValue = [';'].intercalate (r.fields.map fun f => r.format.name f ++ '=' :: r.text f) := by
    cases hid : r.id with
    | none => simp [headerValue, fields, format, Field.name, text, hid, List.intercalate]
    | some id => simp [headerValue, fields, format, Field.name, text, hid, List.intercalate]
  rw [hvalue]
  refine Format.Spells.plainly r.text fun f hf => ?_
  cases f with
  | addr => exact List.mem_cons_self ..
  | rkey => exact List.mem_cons_self ..
  | len => exact List.mem_cons_self ..
  | id =>
    cases hid : r.id with
    | none => simp [fields, hid] at hf
    | some id => simp [format, texts, text, hid]

end Codec

end RdmaWriteReq

namespace RdmaWriteStatus

def fields : RdmaWriteStatus → List Field
  | .complete _ => [.status, .bytesWritten]
  | .tooLarge _ => [.status, .objectSize]
  | .declined => [.status]

/-- The text `header_value` writes. -/
def text : RdmaWriteStatus → Field → List Char
  | .complete _, .status => completeText
  | .tooLarge _, .status => tooLargeText
  | .declined, .status => declinedText
  | .complete n, _ => Nat.toDigits 10 n.toNat
  | .tooLarge n, _ => Nat.toDigits 10 n.toNat
  | .declined, _ => Nat.toDigits 10 0

def format (s : RdmaWriteStatus) : Format Field :=
  ⟨[.status, .bytesWritten, .objectSize].map Field.name, Field.name, fun f => [s.text f]⟩

/-- The parameters of the outcome, once all are read. -/
def size : RdmaWriteStatus → Option UInt64
  | .complete n => some n
  | .tooLarge n => some n
  | .declined => none

def set (s : RdmaWriteStatus) (p : Params) : Field → Params
  | .status => { p with status := some (s.text .status) }
  | .bytesWritten => { p with bytesWritten := s.size }
  | .objectSize => { p with objectSize := s.size }

section Codec
variable (s : RdmaWriteStatus)

theorem legible : s.format.Legible s.fields := by
  have hname : ∀ f : Field, Plain f.name := by
    intro f
    cases f <;> decide
  have hdec : ∀ n : Nat, Plain (Nat.toDigits 10 n) := plain_toDigits (by decide) (by decide)
  intro f _
  refine ⟨hname f, fun v hv => ?_⟩
  rw [List.mem_singleton.mp hv]
  cases s with
  | complete n =>
    cases f with
    | status => exact (by decide : Plain completeText)
    | _ => exact hdec _
  | tooLarge n =>
    cases f with
    | status => exact (by decide : Plain tooLargeText)
    | _ => exact hdec _
  | declined =>
    cases f with
    | status => exact (by decide : Plain declinedText)
    | _ => exact hdec _

theorem reads : s.format.Reads s.fields readParam s.set := by
  constructor
  · intro p k v hk
    simp only [format, List.map_cons, List.map_nil, List.mem_cons, List.not_mem_nil, or_false, not_or] at hk
    obtain ⟨hstatus, hbytes, hsize⟩ := hk
    rw [readParam, if_neg hstatus, if_neg hbytes, if_neg hsize]
  · intro p f hf v hv
    rw [List.mem_singleton.mp hv]
    cases f with
    | status =>
      show readParam p (Field.name .status) _ = _
      rw [readParam, if_pos rfl]
      rfl
    | bytesWritten =>
      show readParam p (Field.name .bytesWritten) _ = _
      rw [readParam, if_neg (by decide), if_pos rfl]
      cases s with
      | complete n =>
        show some { p with bytesWritten := parseU64 (Nat.toDigits 10 n.toNat) } = _
        rw [parseU64_toDigits]
        rfl
      | tooLarge n => simp [fields] at hf
      | declined => simp [fields] at hf
    | objectSize =>
      show readParam p (Field.name .objectSize) _ = _
      rw [readParam, if_neg (by decide), if_neg (by decide), if_pos rfl]
      cases s with
      | complete n => simp [fields] at hf
      | tooLarge n =>
        show some { p with objectSize := parseU64 (Nat.toDigits 10 n.toNat) } = _
        rw [parseU64_toDigits]
        rfl
      | declined => simp [fields] at hf

theorem foldl_set (fs : List Field) (p : Params) : fs.foldl s.set p =
    ⟨if .status ∈ fs then some (s.text .status) else p.status, if .bytesWritten ∈ fs then s.size else p.bytesWritten,
      if .objectSize ∈ fs then s.size else p.objectSize⟩ := by
  induction fs generalizing p with
  | nil => rfl
  | cons f fs ih =>
    rw [List.foldl_cons, ih]
    cases f with
    | _ => simp [set]

theorem parse_spells {value : List Char} (h : s.format.Spells s.fields value) : parse value = some s := by
  have hne : s.fields ≠ [] := by cases s <;> exact List.cons_ne_nil _ _
  obtain ⟨fs, hperm, hread⟩ := (reads s).spells (legible s) hne h ⟨none, none, none⟩
  have hmem : ∀ f, f ∈ fs ↔ f ∈ s.fields := fun f => hperm.mem_iff
  have hwords : tooLargeText ≠ completeText ∧ declinedText ≠ completeText ∧ declinedText ≠ tooLargeText := by decide
  rw [parse, hread, foldl_set]
  simp only [hmem]
  cases s with
  | complete n => simp [fields, text, size]
  | tooLarge n => simp [fields, text, size, hwords]
  | declined => simp [fields, text, hwords]

theorem headerValue_spells : s.format.Spells s.fields s.headerValue := by
  have hvalue : s.headerValue = [';'].intercalate (s.fields.map fun f => s.format.name f ++ '=' :: s.text f) := by
    cases s with
    | complete n => simp [headerValue, fields, format, Field.name, text, List.intercalate]
    | tooLarge n => simp [headerValue, fields, format, Field.name, text, List.intercalate]
    | declined => simp [headerValue, fields, format, Field.name, text, List.intercalate]
  rw [hvalue]
  exact Format.Spells.plainly s.text fun f _ => List.mem_singleton_self _

end Codec

end RdmaWriteStatus

/-- Every request and every status is read back from its header value, and from any value
    that lists the same parameters in another order, with white space around parameters,
    names and values, blank and unknown parameters in between, and hexadecimal numbers
    with or without their prefix. -/
theorem header_round_trips :
    (∀ r : RdmaWriteReq, RdmaWriteReq.parse r.headerValue = some r ∧
      ∀ value, r.format.Spells r.fields value → RdmaWriteReq.parse value = RdmaWriteReq.parse r.headerValue) ∧
    ∀ s : RdmaWriteStatus, RdmaWriteStatus.parse s.headerValue = some s ∧
      ∀ value, s.format.Spells s.fields value → RdmaWriteStatus.parse value = RdmaWriteStatus.parse s.headerValue := by
  constructor
  · intro r
    have hcanon := r.parse_spells r.headerValue_spells
    exact ⟨hcanon, fun value h => (r.parse_spells h).trans hcanon.symm⟩
  · intro s
    have hcanon := s.parse_spells s.headerValue_spells
    exact ⟨hcanon, fun value h => (s.parse_spells h).trans hcanon.symm⟩

/-- `" len = 10 ;; addr=7f; x=;rkey=0x3"`, the parameters of a request in another order. -/
theorem header_round_trips_respelled : ∃ value,
    (RdmaWriteReq.mk 0x7f 3 10 none).format.Spells [.addr, .rkey, .len] value ∧
    value = " len = 10 ;; addr=7f; x=;rkey=0x3".toList ∧
    RdmaWriteReq.parse value = RdmaWriteReq.parse (RdmaWriteReq.mk 0x7f 3 10 none).headerValue := by
  have hsp : Blank [' '] := by decide
  have hnil : Blank [] := by decide
  have hspells : (RdmaWriteReq.mk 0x7f 3 10 none).format.Spells [.addr, .rkey, .len]
      ([';'].intercalate [[' ', 'l', 'e', 'n', ' ', '=', ' ', '1', '0', ' '], [], [' ', 'a', 'd', 'd', 'r', '=', '7', 'f'],
        [' ', 'x', '='], ['r', 'k', 'e', 'y', '=', '0', 'x', '3']]) := by
    refine ⟨_, ⟨[some .len, none, some .addr, none, some .rkey], by decide, ?_⟩, rfl⟩
    refine .cons ⟨['1', '0'], by decide, [' '], [' '], [' '], [' '], hsp, hsp, hsp, hsp, rfl⟩ (.cons (.inl hnil)
      (.cons ⟨['7', 'f'], by decide, [' '], [], [], [], hsp, hnil, hnil, hnil, rfl⟩ (.cons (.inr ?_)
        (.cons ⟨['0', 'x', '3'], by decide, [], [], [], [], hnil, hnil, hnil, hnil, rfl⟩ .nil))))
    exact ⟨by decide, [' ', 'x'], [], rfl, by decide, by decide⟩
  exact ⟨_, hspells, by decide, (header_round_trips.1 (RdmaWriteReq.mk 0x7f 3 10 none)).2 _ hspells⟩

end Hord
