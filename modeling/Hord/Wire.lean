import Hord.Lib.BigEndian
import Hord.Lib.Region

/- The two binary frames of the stream layer: the 8-byte envelope in front of
   every message (`hord-stream/src/envelope.rs`) and the 16-byte handshake that is
   the first message of each side (`hord-stream/src/handshake.rs`). Fields keep
   their wire widths, integers are big-endian.

   Correspondence (Rust ↔ Lean):
     `Envelope::encode` / `decode`    ↔ `Envelope.encode` / `Envelope.decode`
     `Handshake::encode` / `decode`   ↔ `Handshake.encode` / `Handshake.decode`
     `Handshake::with_*`, `*_capable` ↔ the functions of the same name
     `io::Error`                      ↔ `IoError` (kind and text) -/
namespace Hord

open BigEndian Region

abbrev Bytes := List UInt8

/-- The `io::ErrorKind`s the code constructs or matches on. -/
inductive ErrorKind where
  | brokenPipe
  | invalidData
  | invalidInput
  | wouldBlock
  | timedOut
  | other
  deriving DecidableEq, Repr

structure IoError where
  kind : ErrorKind
  msg : String
  deriving DecidableEq, Repr

/-! Message envelope (spec section 12.2). -/

/-- Envelope header size in bytes. -/
def envelopeLen : Nat := 8

/-- Payload is empty; the message exists only to replenish credits. -/
def creditOnly : UInt16 := 1

structure Envelope where
  length : UInt32
  credits : UInt16
  flags : UInt16
  deriving DecidableEq, Repr

namespace Envelope

def isCreditOnly (e : Envelope) : Bool := e.flags &&& creditOnly != 0

/-- The 8-byte header. -/
def encode (e : Envelope) : Bytes :=
  toBe 4 e.length.toNat ++ toBe 2 e.credits.toNat ++ toBe 2 e.flags.toNat

/-- Parse an 8-byte header from the front of `buf`. -/
def decode (buf : Bytes) : Envelope where
  length := UInt32.ofNat (ofBe (readAt buf 0 4))
  credits := UInt16.ofNat (ofBe (readAt buf 4 2))
  flags := UInt16.ofNat (ofBe (readAt buf 6 2))

@[simp]
theorem encode_length (e : Envelope) : e.encode.length = envelopeLen := by
  simp [encode, envelopeLen]

/-- What is stamped on a message is what the receiver decodes. -/
theorem decode_encode (e : Envelope) (rest : Bytes) : decode (e.encode ++ rest) = e := by
  have hl : readAt (e.encode ++ rest) 0 4 = toBe 4 e.length.toNat := by
    simp [encode, List.append_assoc, readAt_append_left]
  have hc : readAt (e.encode ++ rest) 4 2 = toBe 2 e.credits.toNat := by
    simp [encode, List.append_assoc, readAt_append_right, readAt_append_left]
  have hf : readAt (e.encode ++ rest) 6 2 = toBe 2 e.flags.toNat := by
    simp [encode, List.append_assoc, readAt_append_right, readAt_append_left]
  have h4 := e.length.toNat_lt
  have h2 := e.credits.toNat_lt
  have h2' := e.flags.toNat_lt
  cases e
  simp only [decode, hl, hc, hf]
  rw [ofBe_toBe_of_lt (by simpa using h4), ofBe_toBe_of_lt (by simpa using h2),
    ofBe_toBe_of_lt (by simpa using h2')]
  simp

end Envelope

/-! First-message handshake (spec section 12.1). -/

/-- Spec magic: ASCII "HORD". -/
def magic : Nat := 0x484F5244

/-- Protocol version. -/
def version : UInt16 := 1

/-- Wire size of the handshake. -/
def handshakeLen : Nat := 16

def zeroCopyCapableFlag : UInt16 := 1
def splitModeCapableFlag : UInt16 := 2

structure Handshake where
  version : UInt16
  flags : UInt16
  maxMessageSize : UInt32
  maxRecvBuffers : UInt16
  splitCredits : UInt16
  deriving DecidableEq, Repr

/-- `n` as `width` upper-case hexadecimal digits (the `{:08X}` of the messages). -/
def hexUpper (width n : Nat) : String :=
  let digits := (Nat.toDigits 16 n).map Char.toUpper
  String.ofList (List.replicate (width - digits.length) '0' ++ digits)

namespace Handshake

def new (maxMessageSize : UInt32) (maxRecvBuffers : UInt16) : Handshake where
  version := Hord.version
  flags := 0
  maxMessageSize := maxMessageSize
  maxRecvBuffers := maxRecvBuffers
  splitCredits := 0

def withZeroCopy (h : Handshake) (on : Bool) : Handshake :=
  { h with flags := if on then h.flags ||| zeroCopyCapableFlag
                    else h.flags &&& ~~~zeroCopyCapableFlag }

def zeroCopyCapable (h : Handshake) : Bool := h.flags &&& zeroCopyCapableFlag != 0

def withSplitMode (h : Handshake) (on : Bool) : Handshake :=
  { h with flags := if on then h.flags ||| splitModeCapableFlag
                    else h.flags &&& ~~~splitModeCapableFlag }

def splitModeCapable (h : Handshake) : Bool := h.flags &&& splitModeCapableFlag != 0

def withSplitCredits (h : Handshake) (credits : UInt16) : Handshake :=
  { h with splitCredits := credits }

/-- Serialise to the 16-byte wire form. -/
def encode (h : Handshake) : Bytes :=
  toBe 4 magic ++ toBe 2 h.version.toNat ++ toBe 2 h.flags.toNat ++
    toBe 4 h.maxMessageSize.toNat ++ toBe 2 h.maxRecvBuffers.toNat ++ toBe 2 h.splitCredits.toNat

def err (msg : String) : IoError := ⟨.invalidData, msg⟩

/-- Parse and validate a peer handshake. A 14-byte legacy frame has no
    transfer-credit field, which then reads as 0. -/
def decode (buf : Bytes) : Except IoError Handshake :=
  if buf.length < 14 then
    .error (err s!"handshake too short: {buf.length} bytes (need >= 14)")
  else
    let m := ofBe (readAt buf 0 4)
    if m ≠ magic then
      .error (err ("bad handshake magic 0x" ++ hexUpper 8 m ++
        " (expected 0x" ++ hexUpper 8 magic ++ ")"))
    else
      let v := UInt16.ofNat (ofBe (readAt buf 4 2))
      if v ≠ Hord.version then
        .error (err ("unsupported HORD version " ++ toString v.toNat ++
          " (this build speaks " ++ toString Hord.version.toNat ++ ")"))
      else
        .ok
          { version := v
            flags := UInt16.ofNat (ofBe (readAt buf 6 2))
            maxMessageSize := UInt32.ofNat (ofBe (readAt buf 8 4))
            maxRecvBuffers := UInt16.ofNat (ofBe (readAt buf 12 2))
            splitCredits :=
              if 16 ≤ buf.length then UInt16.ofNat (ofBe (readAt buf 14 2)) else 0 }

@[simp]
theorem encode_length (h : Handshake) : h.encode.length = handshakeLen := by
  simp [encode, handshakeLen]

/-- Each field of the frame is read back at its own offset. -/
theorem readAt_encode (h : Handshake) :
    readAt h.encode 0 4 = toBe 4 magic ∧
    readAt h.encode 4 2 = toBe 2 h.version.toNat ∧
    readAt h.encode 6 2 = toBe 2 h.flags.toNat ∧
    readAt h.encode 8 4 = toBe 4 h.maxMessageSize.toNat ∧
    readAt h.encode 12 2 = toBe 2 h.maxRecvBuffers.toNat ∧
    readAt h.encode 14 2 = toBe 2 h.splitCredits.toNat := by
  have hlast : readAt (toBe 2 h.splitCredits.toNat) 0 2 = toBe 2 h.splitCredits.toNat := by
    simpa using readAt_append_left (b := []) (toBe_length 2 h.splitCredits.toNat)
  refine ⟨?_, ?_, ?_, ?_, ?_, ?_⟩ <;>
    simp [encode, List.append_assoc, readAt_append_right, readAt_append_left, hlast]

/-- A frame of the version this build speaks decodes to the handshake it encodes. -/
theorem decode_encode (h : Handshake) (hv : h.version = Hord.version) :
    decode h.encode = .ok h := by
  obtain ⟨hm, hver, hfl, hms, hrb, hsc⟩ := readAt_encode h
  have b1 := h.version.toNat_lt
  have b2 := h.flags.toNat_lt
  have b3 := h.maxMessageSize.toNat_lt
  have b4 := h.maxRecvBuffers.toNat_lt
  have b5 := h.splitCredits.toNat_lt
  have hmagic : ofBe (readAt h.encode 0 4) = magic := by
    rw [hm, ofBe_toBe_of_lt (by decide)]
  have hlen := h.encode_length
  unfold decode
  rw [if_neg (by rw [hlen]; decide)]
  simp only [hmagic, ne_eq, not_true_eq_false, if_false]
  rw [hver, ofBe_toBe_of_lt (by simpa using b1), if_neg (by simp [hv]),
    if_pos (by rw [hlen]; decide), hfl, hms, hrb, hsc,
    ofBe_toBe_of_lt (by simpa using b2), ofBe_toBe_of_lt (by simpa using b3),
    ofBe_toBe_of_lt (by simpa using b4), ofBe_toBe_of_lt (by simpa using b5)]
  cases h
  simp

end Handshake

/-! Round trips from the wire side. -/

section Wire
variable {b : Bytes}

/-- A field read at its width and written at it again is what was there. -/
theorem toBe_u16 {x : Bytes} (h : x.length = 2) : toBe 2 (UInt16.ofNat (ofBe x)).toNat = x := by
  have hlt : ofBe x < 2 ^ 16 := by simpa [h] using ofBe_lt x
  rw [UInt16.toNat_ofNat_of_lt' hlt]
  simpa [h] using toBe_ofBe x

theorem toBe_u32 {x : Bytes} (h : x.length = 4) : toBe 4 (UInt32.ofNat (ofBe x)).toNat = x := by
  have hlt : ofBe x < 2 ^ 32 := by simpa [h] using ofBe_lt x
  rw [UInt32.toNat_ofNat_of_lt' hlt]
  simpa [h] using toBe_ofBe x

namespace Handshake

/-- A frame of this build's magic and version. -/
structure Speaks (b : Bytes) : Prop where
  len : 14 ≤ b.length
  magic : toBe 4 Hord.magic <+: b
  version : readAt b 4 2 = toBe 2 Hord.version.toNat

/-- The fields of a frame; a short one has no transfer credits. -/
def fields (b : Bytes) : Handshake where
  version := Hord.version
  flags := UInt16.ofNat (ofBe (readAt b 6 2))
  maxMessageSize := UInt32.ofNat (ofBe (readAt b 8 4))
  maxRecvBuffers := UInt16.ofNat (ofBe (readAt b 12 2))
  splitCredits := if 16 ≤ b.length then UInt16.ofNat (ofBe (readAt b 14 2)) else 0

theorem magic_iff (hlen : 14 ≤ b.length) : ofBe (readAt b 0 4) = Hord.magic ↔ toBe 4 Hord.magic <+: b := by
  have hread : (readAt b 0 4).length = 4 := length_readAt (by omega)
  rw [ofBe_eq_iff hread (by decide), List.prefix_iff_eq_take, toBe_length]
  exact eq_comm

theorem version_iff (hlen : 14 ≤ b.length) :
    UInt16.ofNat (ofBe (readAt b 4 2)) = Hord.version ↔ readAt b 4 2 = toBe 2 Hord.version.toNat := by
  have hread : (readAt b 4 2).length = 2 := length_readAt (by omega)
  constructor
  · intro h
    rw [← h, toBe_u16 hread]
  · intro h
    rw [h, ofBe_toBe_of_lt (by decide)]
    rfl

/-- What is accepted, and as what. -/
theorem decode_ok_iff {h : Handshake} : decode b = .ok h ↔ Speaks b ∧ h = fields b := by
  by_cases hlen : b.length < 14
  · have hnot : ¬Speaks b := fun hs => absurd hs.len (by omega)
    simp [decode, hlen, hnot]
  · have hlen' : 14 ≤ b.length := by omega
    by_cases hm : ofBe (readAt b 0 4) = Hord.magic
    · by_cases hv : UInt16.ofNat (ofBe (readAt b 4 2)) = Hord.version
      · have hs : Speaks b := ⟨hlen', (magic_iff hlen').mp hm, (version_iff hlen').mp hv⟩
        simp [decode, hlen, hm, hv, hs, fields, eq_comm]
      · have hnot : ¬Speaks b := fun hs => hv ((version_iff hlen').mpr hs.version)
        simp [decode, hlen, hm, hv, hnot]
    · have hnot : ¬Speaks b := fun hs => hm ((magic_iff hlen').mpr hs.magic)
      simp [decode, hlen, hm, hnot]

/-- The first 16 bytes of a long frame are the frame of its fields. -/
theorem encode_fields (h : Speaks b) (hlen : 16 ≤ b.length) : (fields b).encode = b.take 16 := by
  have hmagic : toBe 4 Hord.magic = readAt b 0 4 := by
    have hpre := List.prefix_iff_eq_take.mp h.magic
    rwa [toBe_length] at hpre
  have hflags : toBe 2 (UInt16.ofNat (ofBe (readAt b 6 2))).toNat = readAt b 6 2 :=
    toBe_u16 (length_readAt (by omega))
  have hsize : toBe 4 (UInt32.ofNat (ofBe (readAt b 8 4))).toNat = readAt b 8 4 :=
    toBe_u32 (length_readAt (by omega))
  have hbuffers : toBe 2 (UInt16.ofNat (ofBe (readAt b 12 2))).toNat = readAt b 12 2 :=
    toBe_u16 (length_readAt (by omega))
  have hcredits : toBe 2 (UInt16.ofNat (ofBe (readAt b 14 2))).toNat = readAt b 14 2 :=
    toBe_u16 (length_readAt (by omega))
  calc (fields b).encode
      = readAt b 0 4 ++ readAt b 4 2 ++ readAt b 6 2 ++ readAt b 8 4 ++ readAt b 12 2 ++ readAt b 14 2 := by
        simp only [encode, fields, if_pos hlen, hmagic, ← h.version, hflags, hsize, hbuffers, hcredits]
    _ = readAt b 0 (4 + (2 + (2 + (4 + (2 + 2))))) := by
        rw [readAt_add, readAt_add, readAt_add, readAt_add, readAt_add]
        simp only [Nat.reduceAdd, List.append_assoc]
    _ = b.take 16 := rfl

/-- Whatever follows a short frame changes its transfer credits only. -/
theorem fields_append (rest : Bytes) (hlen : 14 ≤ b.length) :
    fields (b ++ rest) = { fields b with splitCredits := (fields (b ++ rest)).splitCredits } := by
  have hread : ∀ off n, off + n ≤ 14 → readAt (b ++ rest) off n = readAt b off n :=
    fun off n hn => readAt_append_of_le (by omega)
  simp only [fields, hread 6 2 (by omega), hread 8 4 (by omega), hread 12 2 (by omega)]

theorem Speaks.append (h : Speaks b) (rest : Bytes) : Speaks (b ++ rest) := by
  have hlen := h.len
  refine ⟨by rw [List.length_append]; omega, h.magic.trans (List.prefix_append _ _), ?_⟩
  rw [← h.version]
  exact readAt_append_of_le (by omega)

end Handshake

theorem Envelope.encode_decode (hlen : b.length = envelopeLen) : (Envelope.decode b).encode = b := by
  have h8 : b.length = 8 := hlen
  calc (Envelope.decode b).encode
      = readAt b 0 4 ++ readAt b 4 2 ++ readAt b 6 2 := by
        simp only [Envelope.encode, Envelope.decode]
        rw [toBe_u32 (length_readAt (by omega)), toBe_u16 (length_readAt (by omega)),
          toBe_u16 (length_readAt (by omega))]
    _ = readAt b 0 (4 + (2 + 2)) := by
        rw [readAt_add, readAt_add]
        simp only [Nat.reduceAdd, List.append_assoc]
    _ = b := by
        rw [readAt, List.drop_zero, List.take_of_length_le (Nat.le_of_eq h8)]

end Wire

/-- Both frames are read back from what is written, and written back from what is read. A
    handshake frame is accepted exactly if it has 14 bytes, the magic and version 1; one of
    14 or 15 bytes has no transfer credits and otherwise the fields of every frame that
    continues it. -/
theorem wire_round_trips :
    (∀ h : Handshake, h.version = version → Handshake.decode h.encode = .ok h) ∧
    (∀ b : Bytes,
      ((∃ h, Handshake.decode b = .ok h) ↔
        14 ≤ b.length ∧ toBe 4 magic <+: b ∧ readAt b 4 2 = toBe 2 version.toNat) ∧
      ∀ h, Handshake.decode b = .ok h →
        (16 ≤ b.length → h.encode = b.take 16) ∧
        (b.length < 16 → h.splitCredits = 0 ∧ ∀ rest, ∃ credits,
          Handshake.decode (b ++ rest) = .ok { h with splitCredits := credits })) ∧
    (∀ e : Envelope, Envelope.decode e.encode = e) ∧
    ∀ header : Bytes, header.length = envelopeLen → (Envelope.decode header).encode = header := by
  refine ⟨fun h hv => h.decode_encode hv, fun b => ⟨⟨?_, ?_⟩, fun h hdec => ?_⟩, fun e => ?_,
    fun header hlen => Envelope.encode_decode hlen⟩
  · rintro ⟨h, hdec⟩
    obtain ⟨hs, -⟩ := Handshake.decode_ok_iff.mp hdec
    exact ⟨hs.len, hs.magic, hs.version⟩
  · rintro ⟨hlen, hmagic, hversion⟩
    exact ⟨_, Handshake.decode_ok_iff.mpr ⟨⟨hlen, hmagic, hversion⟩, rfl⟩⟩
  · obtain ⟨hs, rfl⟩ := Handshake.decode_ok_iff.mp hdec
    refine ⟨Handshake.encode_fields hs, fun hshort => ⟨?_, fun rest => ?_⟩⟩
    · rw [Handshake.fields, if_neg (by omega)]
    · refine ⟨(Handshake.fields (b ++ rest)).splitCredits, ?_⟩
      rw [← Handshake.fields_append rest hs.len]
      exact Handshake.decode_ok_iff.mpr ⟨hs.append rest, rfl⟩
  · have h := e.decode_encode []
    rwa [List.append_nil] at h

/-- A frame of this build, the 14-byte frame of an older one, and an envelope. -/
theorem wire_round_trips_legacy :
    Handshake.decode (Handshake.new 4096 16).encode = .ok (Handshake.new 4096 16) ∧
    (∃ credits, Handshake.decode ((Handshake.new 4096 16).encode.take 14 ++ [0, 5]) =
      .ok { Handshake.new 4096 16 with splitCredits := credits }) ∧
    (Envelope.decode [0, 0, 4, 210, 0, 7, 0, 1]).encode = [0, 0, 4, 210, 0, 7, 0, 1] := by
  obtain ⟨hread, hframe, -, hheader⟩ := wire_round_trips
  have hlegacy : Handshake.decode ((Handshake.new 4096 16).encode.take 14) = .ok (Handshake.new 4096 16) := by
    decide
  exact ⟨hread _ rfl, (((hframe _).2 _ hlegacy).2 (by decide)).2 [0, 5], hheader _ (by decide)⟩

end Hord
