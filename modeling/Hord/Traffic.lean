import Hord.Endpoint
import Hord.Lib.CreditLink

/- A stream as one end of a credit link. `HordStream.traffic` forgets slots, regions
   and work requests and keeps what the two laws of the link are about: the messages
   posted but not carried out, read from the send region where they lie; those that
   have arrived, read from their receive slots; the bytes staged and held; the
   credits. `Local.traffic` shows that every elementary change of a stream that loses
   nothing is a move of the link, so slot recycling never disturbs a message on its
   way. -/
namespace Hord

open Region Transition CreditLink

/-- What travels on the wire: a two-sided message, or the immediate of a write. -/
inductive Parcel where
  | message (raw : Bytes)
  | immediate (id : Nat)
  deriving DecidableEq

/-- The payload a message carries, as its envelope says. -/
def payloadOf (raw : Bytes) : Bytes :=
  if (Envelope.decode raw).isCreditOnly then []
  else (raw.drop envelopeLen).take (Envelope.decode raw).length.toNat

def Parcel.packet : Parcel → Packet UInt8
  | .message raw => .data (Envelope.decode raw).credits.toNat (payloadOf raw)
  | .immediate id => .tag id

/-- A message as an honest peer sends it: with a whole envelope, and with payload
    unless it only returns credits. -/
def Parcel.Honest : Parcel → Prop
  | .message raw => envelopeLen ≤ raw.length ∧
      ((Envelope.decode raw).isCreditOnly = false → payloadOf raw ≠ [])
  | .immediate _ => True

namespace HordStream
variable (s : HordStream)

/-- The first `n` bytes of a receive slot. -/
def slotBytes (slot n : Nat) : Bytes := readAt (s.region (s.geo.place slot).1) (s.geo.place slot).2 n

/-- What a posted request will put on the wire. -/
def outParcel : SendWr → Option Parcel
  | .send _ .send off len => some (.message (readAt s.send off len))
  | .send _ _ _ _ => none
  | .write _ _ _ _ imm => imm.map .immediate

/-- What a completion reports to have arrived. -/
def inParcel (wc : Completion) : Option Parcel :=
  if wc.isSuccess = false then none
  else if wc.opcode = .recvRdmaWithImm then some (.immediate wc.immData)
  else if isSend wc.wrId || isWrite wc.wrId then none
  else some (.message (s.slotBytes (slotOf wc.wrId) (min wc.byteLen s.geo.msgSize)))

def outParcels : List Parcel := s.conn.out.filterMap s.outParcel
def inParcels : List Parcel := s.conn.cq.filterMap s.inParcel

def traffic : End UInt8 where
  credits := s.sendCredits
  owed := s.grantPending
  stage := s.txStage
  held := s.rxReady.map s.msgBytes
  tags := s.completedTransfers
  inbox := s.inParcels.map Parcel.packet
  outbox := s.outParcels.map Parcel.packet

/-- Everything on its way out or waiting to be handled is honest. -/
structure Honest : Prop where
  out : ∀ p ∈ s.outParcels, p.Honest
  arrived : ∀ p ∈ s.inParcels, p.Honest

end HordStream

/-- The label of the link for an elementary change. -/
def Obs.label : Obs → Label UInt8
  | .staged bs => .accept bs
  | .posted extra => .accept extra
  | .copied bs => .read bs
  | .transfer id => .took id
  | _ => .stay

def Obs.loses : Obs → Bool
  | .lost => true
  | .dropped _ => true
  | _ => false

/-- Counters are 32 bits wide. -/
def counterLimit : Nat := 2 ^ 32

/-! Envelopes. -/

theorem decode_readAt (m : Bytes) (off : Nat) {n : Nat} (h : envelopeLen ≤ n) :
    Envelope.decode (readAt m off n) = Envelope.decode (readAt m off envelopeLen) := by
  have hread : ∀ i k, i + k ≤ envelopeLen → readAt (readAt m off n) i k = readAt (readAt m off envelopeLen) i k := by
    intro i k hik
    apply List.ext_getElem?
    intro j
    simp only [getElem?_readAt]
    split
    · rw [if_pos (by omega), if_pos (by omega)]
    · rfl
  unfold Envelope.decode
  rw [hread 0 4 (by decide), hread 4 2 (by decide), hread 6 2 (by decide)]

section Memory
variable {s : HordStream}

theorem payloadLen_eq {wc : Completion} (hn : envelopeLen ≤ min wc.byteLen s.geo.msgSize) :
    payloadOf (s.slotBytes (slotOf wc.wrId) (min wc.byteLen s.geo.msgSize)) =
      readAt (s.region (s.geo.place (slotOf wc.wrId)).1)
        ((s.geo.place (slotOf wc.wrId)).2 + envelopeLen) (s.payloadLen wc) := by
  unfold payloadOf HordStream.payloadLen HordStream.envelopeAt HordStream.slotBytes
  rw [decode_readAt _ _ hn]
  simp only
  generalize Envelope.decode (readAt _ _ envelopeLen) = env
  cases env.isCreditOnly with
  | true => simp [readAt_zero]
  | false => simp only [readAt, List.drop_take, List.drop_drop, List.take_take, Bool.false_eq_true, if_false]

/-- Two receive slots never overlap. -/
theorem Geometry.place_disjoint (g : Geometry) {v w : Nat} (h : v ≠ w) :
    (g.place v).1 ≠ (g.place w).1 ∨ (g.place v).2 + g.msgSize ≤ (g.place w).2 ∨
      (g.place w).2 + g.msgSize ≤ (g.place v).2 := by
  have apart : ∀ a b : Nat, a ≠ b → a * g.msgSize + g.msgSize ≤ b * g.msgSize ∨
      b * g.msgSize + g.msgSize ≤ a * g.msgSize := by
    intro a b hab
    rcases Nat.lt_or_gt_of_ne hab with hlt | hlt
    · left
      rw [← Nat.succ_mul]
      exact Nat.mul_le_mul_right _ hlt
    · right
      rw [← Nat.succ_mul]
      exact Nat.mul_le_mul_right _ hlt
  unfold Geometry.place
  split
  · split
    · exact .inr (apart v w h)
    · exact .inl (fun h => by cases h)
  · split
    · exact .inl (fun h => by cases h)
    · exact .inr (apart _ _ (by omega))

theorem region_setRegion_ne (s : HordStream) {mr mr' : Mr} (b : Bytes) (h : mr' ≠ mr) :
    (s.setRegion mr b).region mr' = s.region mr' := by
  cases mr <;> cases mr' <;> first | rfl | exact absurd rfl h

theorem region_setRegion_same (s : HordStream) {mr : Mr} (b : Bytes)
    (h : mr = .splitRecv → s.splitRecv.isSome = true) : (s.setRegion mr b).region mr = b := by
  cases mr with
  | splitRecv =>
    obtain ⟨v, hv⟩ := Option.isSome_iff_exists.mp (h rfl)
    simp [HordStream.setRegion, HordStream.region, hv]
  | _ => rfl

/-- Landing a message leaves what lies in any other slot. -/
theorem landed_readAt {slot v : Nat} (hne : v ≠ slot) {rs : List RecvWr} {bytes : Bytes}
    {wc : Completion} (hin : (s.geo.place slot).2 + s.geo.msgSize ≤
      (s.region (s.geo.place slot).1).length) (hfit : bytes.length ≤ s.geo.msgSize) {o n : Nat}
    (hlo : (s.geo.place v).2 ≤ o) (hhi : o + n ≤ (s.geo.place v).2 + s.geo.msgSize) :
    readAt ((s.landed (s.geo.slotWr slot) rs bytes wc).region (s.geo.place v).1) o n =
      readAt (s.region (s.geo.place v).1) o n := by
  have hreg : (s.landed (s.geo.slotWr slot) rs bytes wc).region (s.geo.place v).1 =
      (s.setRegion (s.geo.place slot).1 (writeAt (s.region (s.geo.place slot).1)
        (s.geo.place slot).2 bytes)).region (s.geo.place v).1 := by
    generalize (s.geo.place v).1 = mr
    cases mr <;> rfl
  rw [hreg]
  by_cases hmr : (s.geo.place v).1 = (s.geo.place slot).1
  · have hd := s.geo.place_disjoint hne
    by_cases hsplit : (s.geo.place slot).1 = .splitRecv → s.splitRecv.isSome = true
    · rw [hmr, region_setRegion_same s _ hsplit]
      refine readAt_writeAt_disjoint (by omega) ?_
      rcases hd with hd | hd | hd
      · exact absurd hmr hd
      · exact .inl (by omega)
      · exact .inr (by omega)
    · -- no split region, so nothing is written
      simp only [Classical.not_imp, Bool.not_eq_true, Option.isSome_eq_false_iff,
        Option.isNone_iff_eq_none] at hsplit
      rw [hmr, hsplit.1]
      simp [HordStream.setRegion, HordStream.region, hsplit.2]
  · rw [region_setRegion_ne s _ hmr]

/-- What has been received lies in the two receive regions. -/
theorem received_congr {t : HordStream} (hgeo : t.geo = s.geo) (hrecv : t.recv = s.recv)
    (hsplit : t.splitRecv = s.splitRecv) : t.msgBytes = s.msgBytes ∧ t.inParcel = s.inParcel := by
  have hreg : ∀ v, t.region (s.geo.place v).1 = s.region (s.geo.place v).1 := by
    intro v
    unfold Geometry.place
    split
    · exact hrecv
    · show t.splitRecv.getD [] = s.splitRecv.getD []
      rw [hsplit]
  constructor
  · funext msg
    unfold HordStream.msgBytes
    rw [hgeo, hreg]
  · funext wc
    unfold HordStream.inParcel HordStream.slotBytes
    rw [hgeo, hreg]

/-- A send slot that is free, or the idle control slot, is no posted request's. -/
theorem Inv.outParcel_scribble (hi : Inv s) {slot i : Nat} {bs : Bytes}
    (hslot : slot ∈ s.sendFree ∨ slot = s.geo.ctrlSlot ∧ s.ctrlSendBusy = false)
    (hin : i + bs.length ≤ s.geo.msgSize) {w : SendWr} (hw : w ∈ s.conn.out) :
    { s with send := writeAt s.send (slot * s.geo.msgSize + i) bs }.outParcel w = s.outParcel w := by
  have hle : slot ≤ s.geo.sendPool := by
    rcases hslot with hslot | ⟨rfl, -⟩
    · exact (hi.wf.free_lt slot hslot).le
    · exact s.geo.ctrlSlot_eq.le
  have hbound := hi.wf.sendSlot_in hle
  -- a request of another slot reads the same bytes
  have apart : ∀ v len, v ≠ slot → len ≤ s.geo.msgSize →
      readAt (writeAt s.send (slot * s.geo.msgSize + i) bs) (v * s.geo.msgSize) len =
        readAt s.send (v * s.geo.msgSize) len := by
    intro v len hv hlen
    refine readAt_writeAt_disjoint (by omega) ?_
    rcases Nat.lt_or_gt_of_ne hv with hlt | hlt
    · have := Nat.mul_le_mul_right s.geo.msgSize (Nat.succ_le_of_lt hlt)
      rw [Nat.succ_mul] at this
      exact .inl (by omega)
    · have := Nat.mul_le_mul_right s.geo.msgSize (Nat.succ_le_of_lt hlt)
      rw [Nat.succ_mul] at this
      exact .inr (by omega)
  have hcount : ∀ p : Nat → Bool, p w.wrId = true → 0 < s.conn.sqCount p := by
    intro p hp
    have : 0 < s.conn.out.countP fun w => p w.wrId := List.countP_pos_iff.mpr ⟨w, hw, hp⟩
    unfold Connection.sqCount
    omega
  have hcap := hi.wf.cap_fits
  have henv := s.geo.envelope_lt
  cases hi.wf.sq w (List.mem_append_left _ hw) with
  | data v len hv hlo hhi =>
    have hne : v ≠ slot := by
      rintro rfl
      rcases hslot with hslot | ⟨hctrl, -⟩
      · have hone := (hi.books.send v (s.geo.sendSlot_lt hle)).1
        have hpos := hcount (· == sendWrId v) (beq_self_eq_true _)
        have hfree := List.count_pos_iff.mpr hslot
        rw [if_pos hv] at hone
        omega
      · rw [hctrl, s.geo.ctrlSlot_eq] at hv
        omega
    show some (Parcel.message _) = some (Parcel.message _)
    rw [apart v len hne (by omega)]
  | ctrl =>
    have hne : s.geo.ctrlSlot ≠ slot := by
      rintro rfl
      rcases hslot with hslot | ⟨-, hbusy⟩
      · have := hi.wf.free_lt _ hslot
        rw [s.geo.ctrlSlot_eq] at this
        omega
      · have hone := hi.books.ctrl.1
        have hpos := hcount (· == ctrlSendWrId s.geo.ctrlSlot) (beq_self_eq_true _)
        rw [hbusy, Bool.toNat_false] at hone
        omega
    show some (Parcel.message _) = some (Parcel.message _)
    rw [apart _ envelopeLen hne henv.le]
  | write => rfl

end Memory

/-! Every elementary change is a move of the link. -/

section Simulation
variable {s t : HordStream}

theorem packet_stamp (s : HordStream) (payload : Bytes) (hlen : payload.length < 2 ^ 32) :
    (Parcel.message ((s.stamp payload.length 0).encode ++ payload)).packet = .data s.grant payload := by
  have hgrant : s.grant < 2 ^ 16 := Nat.lt_of_le_of_lt (Nat.min_le_right _ _) (by decide)
  have hdec := Envelope.decode_encode (s.stamp payload.length 0) payload
  have hdrop : ((s.stamp payload.length 0).encode ++ payload).drop envelopeLen = payload := by
    rw [← (s.stamp payload.length 0).encode_length, List.drop_left]
  have hnot : (s.stamp payload.length 0).isCreditOnly = false := by
    show ((0 : UInt16) &&& creditOnly != 0) = false
    decide
  have hlen' : (UInt32.ofNat payload.length).toNat = payload.length :=
    UInt32.toNat_ofNat_of_lt' hlen
  have hgrant' : (UInt16.ofNat s.grant).toNat = s.grant := UInt16.toNat_ofNat_of_lt' hgrant
  unfold Parcel.packet payloadOf
  simp only [hdec, hnot, hdrop, Bool.false_eq_true, if_false]
  simp only [HordStream.stamp, hlen', hgrant', List.take_length]

theorem packet_ctrl (s : HordStream) :
    (Parcel.message (s.stamp 0 creditOnly).encode).packet = .data s.grant [] := by
  have hgrant : s.grant < 2 ^ 16 := Nat.lt_of_le_of_lt (Nat.min_le_right _ _) (by decide)
  have hdec := Envelope.decode_encode (s.stamp 0 creditOnly) []
  rw [List.append_nil] at hdec
  have hyes : (s.stamp 0 creditOnly).isCreditOnly = true := by
    show (creditOnly &&& creditOnly != 0) = true
    decide
  have hgrant' : (UInt16.ofNat s.grant).toNat = s.grant := UInt16.toNat_ofNat_of_lt' hgrant
  unfold Parcel.packet payloadOf
  simp only [hdec, hyes, if_true]
  simp only [HordStream.stamp, hgrant']

/-- The message a receive completion reports, as the link sees it. -/
theorem recv_packet {wc : Completion} (hn : envelopeLen ≤ min wc.byteLen s.geo.msgSize) :
    (Parcel.message (s.slotBytes (slotOf wc.wrId) (min wc.byteLen s.geo.msgSize))).packet =
      .data (s.envelopeAt (slotOf wc.wrId)).credits.toNat
        (readAt (s.region (s.geo.place (slotOf wc.wrId)).1)
          ((s.geo.place (slotOf wc.wrId)).2 + envelopeLen) (s.payloadLen wc)) := by
  have henv : Envelope.decode (s.slotBytes (slotOf wc.wrId) (min wc.byteLen s.geo.msgSize)) =
      s.envelopeAt (slotOf wc.wrId) := decode_readAt _ _ hn
  show Packet.data _ (payloadOf _) = _
  rw [payloadLen_eq hn, henv]

/-- Its payload is as long as the handler computes. -/
theorem recv_payload_length (hwf : Wf s) {wc : Completion} (hslot : slotOf wc.wrId < s.slotCount) :
    (readAt (s.region (s.geo.place (slotOf wc.wrId)).1)
      ((s.geo.place (slotOf wc.wrId)).2 + envelopeLen) (s.payloadLen wc)).length = s.payloadLen wc := by
  have hin := hwf.slot_in hslot
  have hlt := s.geo.envelope_lt
  have hle : s.payloadLen wc ≤ s.geo.msgSize - envelopeLen := by
    unfold HordStream.payloadLen
    simp only
    split <;> omega
  exact length_readAt (by omega)

section Handling
variable {wc : Completion} {rest : List Completion}

theorem inParcels_cons (hcq : s.conn.cq = wc :: rest) :
    s.inParcels = (s.inParcel wc).toList ++ rest.filterMap s.inParcel := by
  unfold HordStream.inParcels
  rw [hcq, List.filterMap_cons]
  cases s.inParcel wc <;> rfl

/-- A completion that carries nothing for the link. -/
theorem traffic_quiet (hcq : s.conn.cq = wc :: rest) (hnone : s.inParcel wc = none) :
    (s.setCq rest).traffic = s.traffic := by
  have hin := inParcels_cons hcq
  rw [hnone] at hin
  unfold HordStream.traffic
  rw [hin]
  rfl

theorem traffic_imm (hcq : s.conn.cq = wc :: rest) (hop : wc.opcode = .recvRdmaWithImm)
    (hok : wc.isSuccess = true) :
    CreditLink.Move counterLimit s.traffic .stay ((s.setCq rest).pushTransfer wc.immData).traffic := by
  have hp : s.inParcel wc = some (.immediate wc.immData) := by
    simp [HordStream.inParcel, hok, hop]
  have hbox : s.traffic.inbox = .tag wc.immData :: (rest.filterMap s.inParcel).map Parcel.packet := by
    unfold HordStream.traffic
    rw [inParcels_cons hcq, hp]
    rfl
  exact .receiveTag s.traffic wc.immData _ hbox

/-- A message taken in: its grant is added, its payload held. -/
theorem traffic_recv (hcq : s.conn.cq = wc :: rest) (hop : wc.opcode ≠ .recvRdmaWithImm)
    (hw : isWrite wc.wrId = false) (hok : wc.isSuccess = true) (hs : isSend wc.wrId = false)
    (hn : envelopeLen ≤ min wc.byteLen s.geo.msgSize) :
    CreditLink.Move counterLimit s.traffic .stay { ((s.setCq rest).granted wc).traffic with
      held := s.traffic.held ++ (Packet.data (s.envelopeAt (slotOf wc.wrId)).credits.toNat
        (readAt (s.region (s.geo.place (slotOf wc.wrId)).1)
          ((s.geo.place (slotOf wc.wrId)).2 + envelopeLen) (s.payloadLen wc))).bodies } := by
  have hp : s.inParcel wc =
      some (.message (s.slotBytes (slotOf wc.wrId) (min wc.byteLen s.geo.msgSize))) := by
    simp [HordStream.inParcel, hok, hop, hs, hw]
  have hbox : s.traffic.inbox = .data (s.envelopeAt (slotOf wc.wrId)).credits.toNat
      (readAt (s.region (s.geo.place (slotOf wc.wrId)).1)
        ((s.geo.place (slotOf wc.wrId)).2 + envelopeLen) (s.payloadLen wc)) ::
      (rest.filterMap s.inParcel).map Parcel.packet := by
    rw [← recv_packet hn]
    unfold HordStream.traffic
    rw [inParcels_cons hcq, hp]
    rfl
  exact .receive s.traffic _ _ _ hbox

/-- An honest message has a whole envelope, and payload unless it returns credits. -/
theorem honest_message (hcq : s.conn.cq = wc :: rest) (hhon : ∀ p ∈ s.inParcels, p.Honest)
    (hop : wc.opcode ≠ .recvRdmaWithImm) (hw : isWrite wc.wrId = false) (hok : wc.isSuccess = true)
    (hs : isSend wc.wrId = false) : envelopeLen ≤ min wc.byteLen s.geo.msgSize ∧
      ((s.envelopeAt (slotOf wc.wrId)).isCreditOnly = false → s.payloadLen wc ≠ 0) := by
  have hp : s.inParcel wc =
      some (.message (s.slotBytes (slotOf wc.wrId) (min wc.byteLen s.geo.msgSize))) := by
    simp [HordStream.inParcel, hok, hop, hs, hw]
  have hmem : Parcel.message (s.slotBytes (slotOf wc.wrId) (min wc.byteLen s.geo.msgSize)) ∈
      s.inParcels := by
    rw [inParcels_cons hcq, hp]
    exact List.mem_append_left _ (List.mem_singleton_self _)
  obtain ⟨hlen, hbody⟩ := hhon _ hmem
  have hn : envelopeLen ≤ min wc.byteLen s.geo.msgSize :=
    Nat.le_trans hlen (List.length_take_le _ _)
  refine ⟨hn, fun hdata hzero => ?_⟩
  have henv : Envelope.decode (s.slotBytes (slotOf wc.wrId) (min wc.byteLen s.geo.msgSize)) =
      s.envelopeAt (slotOf wc.wrId) := decode_readAt _ _ hn
  refine hbody (by rw [henv]; exact hdata) ?_
  rw [payloadLen_eq hn, hzero, readAt_zero]

/-- Handling a completion takes its parcel off the link. -/
theorem Handled.traffic {ok : Bool} (hwf : Wf s) (hcq : s.conn.cq = wc :: rest)
    (hhon : ∀ p ∈ s.inParcels, p.Honest) (h : Handled (s.setCq rest) wc ok t) :
    CreditLink.Move counterLimit s.traffic .stay t.traffic := by
  have hwc := hwf.cq wc (by rw [hcq]; exact List.mem_cons_self ..)
  have idle : s.inParcel wc = none → t.traffic = (s.setCq rest).traffic →
      CreditLink.Move counterLimit s.traffic .stay t.traffic := by
    intro hnone ht
    rw [ht, traffic_quiet hcq hnone]
    exact .idle _
  have failed : wc.isSuccess = false → s.inParcel wc = none := fun hbad => by
    simp [HordStream.inParcel, hbad]
  have write : wc.opcode ≠ .recvRdmaWithImm → isWrite wc.wrId = true → s.inParcel wc = none :=
    fun hop hw => by simp [HordStream.inParcel, hop, hw]
  cases h with
  | imm hop hok => exact traffic_imm hcq hop hok
  | immLost hop hok => exact traffic_imm hcq hop hok
  | immFailed hop hbad => exact idle (failed hbad) rfl
  | write hop hw hok => exact idle (write hop hw) rfl
  | writeFailed hop hw hbad => exact idle (failed hbad) rfl
  | failed hop hw hbad =>
    refine idle (failed hbad) ?_
    unfold HordStream.reclaimed
    split
    · split <;> rfl
    · rfl
  | sent hop hw hok hs =>
    have hnone : s.inParcel wc = none := by simp [HordStream.inParcel, hop, hs]
    refine idle hnone ?_
    unfold HordStream.reclaimed
    split <;> rfl
  | runt hop hw hok hs hn =>
    have := (honest_message hcq hhon hop hw hok hs).1
    exact absurd hn (Nat.not_lt.mpr this)
  | held hop hw hok hs hn hp =>
    have hmove := traffic_recv hcq hop hw hok hs hn
    have hslot : slotOf wc.wrId < s.slotCount := hwc.slot hwf hs hw
    have hbody := recv_payload_length hwf hslot
    have hbodies : (Packet.data (s.envelopeAt (slotOf wc.wrId)).credits.toNat
        (readAt (s.region (s.geo.place (slotOf wc.wrId)).1)
          ((s.geo.place (slotOf wc.wrId)).2 + envelopeLen) (s.payloadLen wc))).bodies =
        [readAt (s.region (s.geo.place (slotOf wc.wrId)).1)
          ((s.geo.place (slotOf wc.wrId)).2 + envelopeLen) (s.payloadLen wc)] := by
      refine Packet.bodies_data _ fun hempty => ?_
      rw [hempty] at hbody
      exact absurd hbody.symm (Nat.pos_iff_ne_zero.mp hp)
    rw [hbodies] at hmove
    have ht : (((s.setCq rest).granted wc).hold wc).traffic = { ((s.setCq rest).granted wc).traffic with
        held := s.traffic.held ++ [readAt (s.region (s.geo.place (slotOf wc.wrId)).1)
          ((s.geo.place (slotOf wc.wrId)).2 + envelopeLen) (s.payloadLen wc)] } := by
      unfold HordStream.traffic
      rw [End.mk.injEq]
      refine ⟨rfl, rfl, rfl, ?_, rfl, rfl, rfl⟩
      show (s.rxReady ++ [_]).map _ = _
      rw [List.map_append, List.map_singleton]
      show _ = s.rxReady.map s.msgBytes ++ _
      congr 2
      show readAt _ _ (_ + s.payloadLen wc - _) = _
      rw [Nat.add_sub_cancel_left]
      rfl
    rw [ht]
    exact hmove
  | credit hop hw hok hs hn hc =>
    have hmove := traffic_recv hcq hop hw hok hs hn
    have hzero : s.payloadLen wc = 0 := by
      unfold HordStream.payloadLen
      exact if_pos hc
    rw [hzero, readAt_zero] at hmove
    simp only [Packet.bodies, List.isEmpty_nil, if_true, List.append_nil] at hmove
    exact hmove
  | zero hop hw hok hs hn hc hp => exact absurd hp ((honest_message hcq hhon hop hw hok hs).2 hc)
  | emptyLost hop hw hok hs hn hp =>
    have hmove := traffic_recv hcq hop hw hok hs hn
    have hzero : s.payloadLen wc = 0 := hp
    rw [hzero, readAt_zero] at hmove
    simp only [Packet.bodies, List.isEmpty_nil, if_true, List.append_nil] at hmove
    exact hmove

end Handling

theorem outParcels_push (s : HordStream) (w : SendWr) :
    (s.pushOut w).outParcels = s.outParcels ++ (s.outParcel w).toList := by
  show (s.conn.out ++ [w]).filterMap s.outParcel = _
  rw [List.filterMap_append, List.filterMap_cons, List.filterMap_nil]
  cases s.outParcel w <;> rfl

/-- Posting appends one packet to those on their way out. -/
theorem traffic_push (s : HordStream) (w : SendWr) :
    (s.pushOut w).traffic =
      { s.traffic with outbox := s.traffic.outbox ++ (s.outParcel w).toList.map Parcel.packet } := by
  show { s.traffic with outbox := (s.pushOut w).outParcels.map Parcel.packet } = _
  rw [outParcels_push, List.map_append]
  rfl

/-- The request a data message is posted with carries the stage and `extra`. -/
theorem post_parcel (hwf : Wf s) {slot : Nat} {payload : Bytes} (hcap : payload.length ≤ s.payloadCap)
    (hmem : readAt s.send (slot * s.geo.msgSize) (envelopeLen + payload.length) =
      (s.stamp payload.length 0).encode ++ payload) :
    s.outParcel (.send (sendWrId slot) .send (slot * s.geo.msgSize)
      ((envelopeLen + payload.length) % 2 ^ 32)) =
      some (.message ((s.stamp payload.length 0).encode ++ payload)) := by
  have hu := hwf.cap_u32
  rw [Nat.mod_eq_of_lt (by omega), ← hmem]
  rfl

theorem ctrl_parcel (hmem : readAt s.send (s.geo.ctrlSlot * s.geo.msgSize) envelopeLen =
      (s.stamp 0 creditOnly).encode) :
    s.outParcel (.send (ctrlSendWrId s.geo.ctrlSlot) .send (s.geo.ctrlSlot * s.geo.msgSize)
      envelopeLen) = some (.message (s.stamp 0 creditOnly).encode) := by
  rw [← hmem]
  rfl

theorem outParcels_scribble (hi : Inv s) {slot i : Nat} {bs : Bytes}
    (hslot : slot ∈ s.sendFree ∨ slot = s.geo.ctrlSlot ∧ s.ctrlSendBusy = false)
    (hin : i + bs.length ≤ s.geo.msgSize) :
    { s with send := writeAt s.send (slot * s.geo.msgSize + i) bs }.outParcels = s.outParcels :=
  List.filterMap_congr fun _ hw => hi.outParcel_scribble hslot hin hw

/-- Every elementary change that loses nothing is a move of the link. -/
theorem Local.traffic {o : Obs} (hi : Inv s) (hhon : s.Honest) (hl : Local s o t)
    (hloss : o.loses = false) : CreditLink.Move counterLimit s.traffic o.label t.traffic := by
  cases hl with
  | tick => exact .idle _
  | close => exact .idle _
  | scribble slot i bs hslot hin hopen =>
    have hsame : { s with send := writeAt s.send (slot * s.geo.msgSize + i) bs }.traffic = s.traffic := by
      obtain ⟨hheld, hin'⟩ := received_congr (s := s)
        (t := { s with send := writeAt s.send (slot * s.geo.msgSize + i) bs }) rfl rfl rfl
      unfold HordStream.traffic HordStream.inParcels
      rw [outParcels_scribble hi hslot hin, hheld, hin']
    rw [hsame]
    exact .idle _
  | stage bs hlt => exact .stage _ bs
  | post slot rest extra hopen hroom hcred hfree hne hcap hmem =>
    have hparcel := post_parcel hi.wf hcap hmem
    have hlen : (s.txStage ++ extra).length < 2 ^ 32 := by
      have := hi.wf.cap_u32
      omega
    have hmove : CreditLink.Move counterLimit s.traffic _ _ :=
      .post s.traffic extra s.grant hcred (Nat.min_le_left _ _) hne
    have hpush := traffic_push s (.send (sendWrId slot) .send (slot * s.geo.msgSize)
      ((envelopeLen + (s.txStage ++ extra).length) % 2 ^ 32))
    rw [hparcel, Option.toList_some, List.map_singleton, packet_stamp s _ hlen] at hpush
    show CreditLink.Move counterLimit s.traffic _ { (s.pushOut _).traffic with
      stage := [], credits := s.sendCredits - 1, owed := s.grantPending - s.grant }
    rw [hpush]
    exact hmove
  | lose => cases hloss
  | ctrl hopen hroom hbusy howed hmem =>
    have hmove : CreditLink.Move counterLimit s.traffic _ _ :=
      .grant s.traffic s.grant (Nat.min_le_left _ _)
    have hpush := traffic_push s (.send (ctrlSendWrId s.geo.ctrlSlot) .send
      (s.geo.ctrlSlot * s.geo.msgSize) envelopeLen)
    rw [ctrl_parcel hmem, Option.toList_some, List.map_singleton, packet_ctrl s] at hpush
    show CreditLink.Move counterLimit s.traffic _ { (s.pushOut _).traffic with owed := s.grantPending - s.grant }
    rw [hpush]
    exact hmove
  | handle _ wc rest _ hcq hh => exact hh.traffic hi.wf hcq hhon.arrived
  | take msg rest k hready hk =>
    have hheld : s.traffic.held = s.msgBytes msg :: rest.map s.msgBytes := by
      unfold HordStream.traffic
      rw [hready]
      rfl
    have hmove : CreditLink.Move counterLimit s.traffic _ _ := .read s.traffic _ _ k hheld
    have hdrop : (s.msgBytes msg).drop k = s.msgBytes { msg with start := msg.start + k } := by
      unfold HordStream.msgBytes readAt
      simp only
      rw [List.drop_take, List.drop_drop, Nat.sub_sub]
    rw [hdrop] at hmove
    exact hmove
  | finish msg rest hready =>
    have hheld : s.traffic.held = s.msgBytes msg :: rest.map s.msgBytes := by
      unfold HordStream.traffic
      rw [hready]
      rfl
    exact .finish s.traffic _ _ hheld
  | finishLost => cases hloss
  | write chunk sges addr rkey imm hchunk hopen hroom =>
    have hpush := traffic_push s
      (.write (if imm.isSome then immWriteWrId chunk else writeWrId chunk) sges addr rkey imm)
    show CreditLink.Move counterLimit s.traffic _ (s.pushOut _).traffic
    rw [hpush]
    cases imm with
    | none =>
      show CreditLink.Move counterLimit s.traffic .stay { s.traffic with outbox := s.traffic.outbox ++ [] }
      rw [List.append_nil]
      exact .idle s.traffic
    | some id => exact .mark s.traffic id
  | transfer id rest h => exact .take s.traffic id rest h
  | cm => exact .idle _
  | link => exact .idle _

theorem Handled.parcels {wc : Completion} {ok : Bool} (h : Handled s wc ok t) :
    t.outParcels = s.outParcels ∧ t.inParcels = s.inParcels :=
  ⟨h.unseen ⟨fun _ => rfl, fun _ _ => rfl, fun _ _ _ _ _ => rfl, fun _ _ _ _ _ => rfl⟩,
    h.unseen ⟨fun _ => rfl, fun _ _ => rfl, fun _ _ _ _ _ => rfl, fun _ _ _ _ _ => rfl⟩⟩

theorem stamp_honest (s : HordStream) {payload : Bytes} (hlen : payload.length < 2 ^ 32)
    (hne : payload ≠ []) : (Parcel.message ((s.stamp payload.length 0).encode ++ payload)).Honest := by
  have hpacket := packet_stamp s payload hlen
  injection hpacket with _ hbody
  refine ⟨?_, fun _ => ?_⟩
  · rw [List.length_append, Envelope.encode_length]
    exact Nat.le_add_right _ _
  · rw [hbody]
    exact hne

theorem ctrl_honest (s : HordStream) : (Parcel.message (s.stamp 0 creditOnly).encode).Honest := by
  have hdec := Envelope.decode_encode (s.stamp 0 creditOnly) []
  rw [List.append_nil] at hdec
  refine ⟨(Envelope.encode_length _).ge, fun hnot => ?_⟩
  rw [hdec] at hnot
  exact absurd hnot (by show ¬(creditOnly &&& creditOnly != 0) = false; decide)

/-- Posting keeps a stream honest if the request is. -/
theorem HordStream.Honest.push (h : s.Honest) {w : SendWr} (hw : ∀ p, s.outParcel w = some p → p.Honest) :
    (s.pushOut w).Honest := by
  refine ⟨fun p hp => ?_, h.arrived⟩
  rw [outParcels_push, List.mem_append, Option.mem_toList] at hp
  rcases hp with hp | hp
  · exact h.out p hp
  · exact hw p hp

theorem Local.honest {o : Obs} (hi : Inv s) (h : s.Honest) (hl : Local s o t) : t.Honest := by
  cases hl with
  | scribble slot i bs hslot hin hopen =>
    refine ⟨?_, ?_⟩
    · rw [outParcels_scribble hi hslot hin]
      exact h.out
    · have hin' := (received_congr (s := s)
        (t := { s with send := writeAt s.send (slot * s.geo.msgSize + i) bs }) rfl rfl rfl).2
      unfold HordStream.inParcels
      rw [hin']
      exact h.arrived
  | post slot rest extra hopen hroom hcred hfree hne hcap hmem =>
    have hlen : (s.txStage ++ extra).length < 2 ^ 32 := by
      have := hi.wf.cap_u32
      omega
    have hpush := h.push fun p hp => by
      rw [post_parcel hi.wf hcap hmem] at hp
      cases hp
      exact stamp_honest s hlen hne
    exact ⟨hpush.out, hpush.arrived⟩
  | ctrl hopen hroom hbusy howed hmem =>
    have hpush := h.push fun p hp => by
      rw [ctrl_parcel hmem] at hp
      cases hp
      exact ctrl_honest s
    exact ⟨hpush.out, hpush.arrived⟩
  | handle _ wc rest _ hcq hh =>
    obtain ⟨hout, hin⟩ := hh.parcels
    refine ⟨?_, ?_⟩
    · rw [hout]
      exact h.out
    · rw [hin]
      intro p hp
      refine h.arrived p ?_
      rw [inParcels_cons hcq]
      exact List.mem_append_right _ hp
  | write chunk sges addr rkey imm hchunk hopen hroom =>
    have hpush := h.push (w := .write (if imm.isSome then immWriteWrId chunk else writeWrId chunk)
        sges addr rkey imm) fun p hp => by
      cases imm with
      | none => cases hp
      | some id => cases hp; trivial
    exact ⟨hpush.out, hpush.arrived⟩
  | _ => exact ⟨h.out, h.arrived⟩

/-- A run of elementary changes that loses nothing, seen on the link. -/
theorem run_traffic {os : List Obs} (hr : Run Local s os t) (hloss : ∀ o ∈ os, o.loses = false)
    (hi : Inv s) (h : s.Honest) :
    Run (CreditLink.Move counterLimit) s.traffic (os.map Obs.label) t.traffic ∧ Inv t ∧ t.Honest := by
  induction hr with
  | nil => exact ⟨.nil _, hi, h⟩
  | snoc hr hl ih =>
    obtain ⟨hm, hi', h'⟩ := ih (fun o ho => hloss o (List.mem_append_left _ ho))
    have hmove := hl.traffic hi' h' (hloss _ (List.mem_append_right _ (List.mem_singleton_self _)))
    rw [List.map_append]
    exact ⟨hm.snoc hmove, ⟨hl.wf hi'.wf, hl.books hi'.wf hi'.books⟩, hl.honest hi' h'⟩

end Simulation

/-! What is on its way out. -/

section Posted
variable {s t u : HordStream} {o : Obs} {os : List Obs}

/-- What was posted is still posted and brings what it brought; a closed stream posts
    nothing more. -/
def Posts (s t : HordStream) : Prop :=
  ∃ ws, t.conn.out = s.conn.out ++ ws ∧ (∀ w ∈ s.conn.out, t.outParcel w = s.outParcel w) ∧
    (s.peerClosed = true → ws = [])

theorem Posts.of_eq (hout : t.conn.out = s.conn.out) (hsend : t.send = s.send) : Posts s t := by
  refine ⟨[], by rw [hout, List.append_nil], fun w _ => ?_, fun _ => rfl⟩
  cases w with
  | send id mr off len =>
    cases mr with
    | send =>
      show some (Parcel.message _) = some (Parcel.message _)
      rw [hsend]
    | _ => rfl
  | write id sges addr rkey imm => rfl

theorem Posts.trans (h : Posts s t) (hc : s.peerClosed = true → t.peerClosed = true) (h' : Posts t u) :
    Posts s u := by
  obtain ⟨ws, hout, hsame, hclosed⟩ := h
  obtain ⟨ws', hout', hsame', hclosed'⟩ := h'
  refine ⟨ws ++ ws', by rw [hout', hout, List.append_assoc], fun w hw => ?_, fun hcl => ?_⟩
  · rw [hsame' w (by rw [hout]; exact List.mem_append_left _ hw)]
    exact hsame w hw
  · rw [hclosed hcl, hclosed' (hc hcl)]
    rfl

/-- Nothing was posted, so nothing changed on the way out. -/
theorem Posts.parcels (h : Posts s t) (hout : t.conn.out = s.conn.out) : t.outParcels = s.outParcels := by
  obtain ⟨-, -, hsame, -⟩ := h
  rw [HordStream.outParcels, hout]
  exact List.filterMap_congr hsame

theorem Posts.closed (h : Posts s t) (hc : s.peerClosed = true) : t.outParcels = s.outParcels := by
  obtain ⟨ws, hout, hsame, hclosed⟩ := h
  refine Posts.parcels ⟨ws, hout, hsame, hclosed⟩ ?_
  rw [hout, hclosed hc, List.append_nil]

theorem Handled.sends {wc : Completion} {ok : Bool} (h : Handled s wc ok t) :
    t.conn.out = s.conn.out ∧ t.send = s.send :=
  ⟨h.unseen (f := fun u => u.conn.out)
      ⟨fun _ => rfl, fun _ _ => rfl, fun _ _ _ _ _ => rfl, fun _ _ _ _ _ => rfl⟩,
    h.unseen ⟨fun _ => rfl, fun _ _ => rfl, fun _ _ _ _ _ => rfl, fun _ _ _ _ _ => rfl⟩⟩

theorem Local.posts (hi : Inv s) (hl : Local s o t) : Posts s t := by
  -- a request is pushed by an open stream
  have pushed : ∀ {v : HordStream} (w : SendWr), v.conn.out = s.conn.out ++ [w] → v.send = s.send →
      s.peerClosed = false → Posts s v := by
    intro v w hout hsend hopen
    obtain ⟨-, -, hsame, -⟩ := Posts.of_eq (s := s) (t := { s with send := v.send }) rfl hsend
    refine ⟨[w], hout, fun w' hw' => hsame w' hw', fun hc => ?_⟩
    rw [hopen] at hc
    cases hc
  cases hl with
  | scribble slot i bs hslot hin hopen =>
    refine ⟨[], (List.append_nil _).symm, fun w hw => hi.outParcel_scribble hslot hin hw, fun _ => rfl⟩
  | post slot rest extra hopen => exact pushed _ rfl rfl hopen
  | ctrl hopen => exact pushed _ rfl rfl hopen
  | write chunk sges addr rkey imm hchunk hopen => exact pushed _ rfl rfl hopen
  | handle _ wc rest ok hcq hh =>
    obtain ⟨hout, hsend⟩ := hh.sends
    exact Posts.of_eq hout hsend
  | _ => exact Posts.of_eq rfl rfl

theorem run_posts (hr : Run Local s os t) (hi : Inv s) : Posts s t ∧
    (s.peerClosed = true → t.peerClosed = true) := by
  have hall := hr.inv (I := fun u => Inv u ∧ Posts s u ∧ (s.peerClosed = true → u.peerClosed = true))
    (fun u o v hu hl => ⟨⟨hl.wf hu.1.wf, hl.books hu.1.wf hu.1.books⟩,
      hu.2.1.trans hu.2.2 (hl.posts hu.1), fun hc => hl.stays_closed (hu.2.2 hc)⟩)
    ⟨hi, Posts.of_eq rfl rfl, id⟩
  exact hall.2

end Posted

/-! The device's moves. -/

/-- The oldest request has been carried out. -/
def HordStream.carried (s : HordStream) (w : SendWr) (rest : List SendWr) : HordStream :=
  { s with conn := { s.conn with out := rest, await := s.conn.await ++ [w] } }

/-- A receive slot with nothing in it. -/
structure Spare (s : HordStream) (slot : Nat) : Prop where
  lt : slot < slotLimit
  inside : (s.geo.place slot).2 + s.geo.msgSize ≤ (s.region (s.geo.place slot).1).length
  fresh : ∀ wc ∈ s.conn.cq, isSend wc.wrId = false → isWrite wc.wrId = false → slotOf wc.wrId ≠ slot
  unheld : ∀ m ∈ s.rxReady, m.slot ≠ slot ∧ (s.geo.place m.slot).2 ≤ m.start ∧
    m.stop ≤ (s.geo.place m.slot).2 + s.geo.msgSize

section Device
variable {s : HordStream}

/-- A posted receive of an established stream is spare. -/
theorem Inv.spare (hi : Inv s) {slot : Nat} (hslot : slot < s.slotCount)
    (hmem : s.geo.slotWr slot ∈ s.conn.rq) : Spare s slot := by
  have hlt := hi.wf.slotCount_lt hslot
  have hposted : 0 < s.conn.posted slot := List.countP_pos_iff.mpr ⟨_, hmem, beq_self_eq_true _⟩
  have hone := hi.books.recv slot hlt
  rw [if_pos hslot] at hone
  unfold HordStream.uses at hone
  refine ⟨hlt, hi.wf.slot_in hslot, fun wc hwc hs hw he => ?_, fun m hm => ⟨fun he => ?_, ?_, ?_⟩⟩
  · -- its completion would be a second use of the slot
    have hid : wc.wrId = recvWrId slot := by
      cases hi.wf.cq wc hwc with
      | recv v hv hid => rw [hid, ← he, hid, slotOf_recvWrId (hi.wf.slotCount_lt hv)]
      | data v hv hid =>
        rw [hid, (sendWrId_kind (s.geo.sendSlot_lt hv.le)).1] at hs
        cases hs
      | ctrl hid =>
        rw [hid, (ctrlSendWrId_kind (s.geo.sendSlot_lt s.geo.ctrlSlot_eq.le)).1] at hs
        cases hs
      | write chunk imm hchunk hid =>
        have hof : (IdKind.write imm).Of s.geo s.slotCount wc.wrId :=
          ⟨chunk, s.geo.sendSlot_lt hchunk.le, hid⟩
        rw [hof.facts.write] at hw
        cases hw
    have : 0 < s.conn.completed slot := List.countP_pos_iff.mpr ⟨wc, hwc, by rw [hid]; exact beq_self_eq_true _⟩
    omega
  · have : 0 < s.heldIn slot := List.countP_pos_iff.mpr ⟨m, hm, by rw [he]; exact beq_self_eq_true _⟩
    omega
  · have := (hi.wf.ready m hm).start_ge
    omega
  · exact (hi.wf.ready m hm).stop_le

/-- Landing in a receive slot touches the receive regions and the two queues. -/
theorem landed_slot_eq (s : HordStream) (slot : Nat) (rs : List RecvWr) (bytes : Bytes)
    (wc : Completion) : ∃ recv splitRecv, s.landed (s.geo.slotWr slot) rs bytes wc =
      { s with recv := recv, splitRecv := splitRecv
               conn := { s.conn with rq := rs, cq := s.conn.cq ++ [wc] } } := by
  unfold HordStream.landed Geometry.slotWr Geometry.place
  split
  · exact ⟨_, _, rfl⟩
  · exact ⟨_, _, rfl⟩

/-- What had arrived before is read as before. -/
theorem Spare.landed_inParcel {slot : Nat} (hs : Spare s slot) (rs : List RecvWr) {bytes : Bytes}
    (hfit : bytes.length ≤ s.geo.msgSize) (wc : Completion) : ∀ wc' ∈ s.conn.cq,
      (s.landed (s.geo.slotWr slot) rs bytes wc).inParcel wc' = s.inParcel wc' := by
  intro wc' hwc'
  have hgeo : (s.landed (s.geo.slotWr slot) rs bytes wc).geo = s.geo := by
    obtain ⟨recv, split, heq⟩ := landed_slot_eq s slot rs bytes wc
    rw [heq]
  unfold HordStream.inParcel
  split
  · rfl
  · split
    · rfl
    · split
      · rfl
      · next hkind =>
        simp only [Bool.or_eq_true, not_or, Bool.not_eq_true] at hkind
        have hne := hs.fresh wc' hwc' hkind.1 hkind.2
        unfold HordStream.slotBytes
        rw [hgeo, landed_readAt hne hs.inside hfit (Nat.le_refl _) (by omega)]

/-- A message or an immediate lands in a spare slot: one more parcel has arrived. -/
theorem landed_traffic {slot : Nat} (hs : Spare s slot) (rs : List RecvWr) {bytes : Bytes}
    {wc : Completion} (hfit : bytes.length ≤ s.geo.msgSize) (hid : wc.wrId = recvWrId slot)
    {p : Parcel} (hok : wc.isSuccess = true)
    (hp : wc.opcode = .recv ∧ wc.byteLen = bytes.length ∧ p = .message bytes ∨
      wc.opcode = .recvRdmaWithImm ∧ p = .immediate wc.immData) {t : HordStream}
    (ht : t = s.landed (s.geo.slotWr slot) rs bytes wc) :
    t.inParcels = s.inParcels ++ [p] ∧ t.outParcels = s.outParcels ∧
      t.traffic = { s.traffic with inbox := s.traffic.inbox ++ [p.packet] } := by
  have hread : ∀ v, v ≠ slot → ∀ {o n}, (s.geo.place v).2 ≤ o →
      o + n ≤ (s.geo.place v).2 + s.geo.msgSize →
      readAt (t.region (s.geo.place v).1) o n = readAt (s.region (s.geo.place v).1) o n := by
    intro v hv o n hlo hhi
    rw [ht]
    exact landed_readAt hv hs.inside hfit hlo hhi
  have hhere : readAt (t.region (s.geo.place slot).1) (s.geo.place slot).2 bytes.length = bytes := by
    have hlen := s.geo.envelope_lt
    have hinside := hs.inside
    have hsplit : (s.geo.place slot).1 = .splitRecv → s.splitRecv.isSome = true := by
      intro hmr
      rw [hmr] at hinside
      cases hsr : s.splitRecv with
      | some b => rfl
      | none =>
        simp [HordStream.region, hsr] at hinside
        omega
    have hreg : t.region (s.geo.place slot).1 = (s.setRegion (s.geo.place slot).1
        (writeAt (s.region (s.geo.place slot).1) (s.geo.place slot).2 bytes)).region
          (s.geo.place slot).1 := by
      rw [ht]
      unfold HordStream.landed Geometry.slotWr
      generalize s.geo.place slot = pl
      obtain ⟨mr, off⟩ := pl
      cases mr <;> rfl
    rw [hreg, region_setRegion_same s _ hsplit]
    exact readAt_writeAt_same (by omega)
  obtain ⟨recv, split, heq⟩ := landed_slot_eq s slot rs bytes wc
  rw [heq] at ht
  have hgeo : t.geo = s.geo := by rw [ht]
  have hcq : t.conn.cq = s.conn.cq ++ [wc] := by rw [ht]
  have hslot : slotOf wc.wrId = slot := by rw [hid, slotOf_recvWrId hs.lt]
  have hold : ∀ wc' ∈ s.conn.cq, t.inParcel wc' = s.inParcel wc' := by
    rw [ht, ← heq]
    exact hs.landed_inParcel rs hfit wc
  have hnew : t.inParcel wc = some p := by
    have hkind := recvWrId_kind hs.lt
    rcases hp with ⟨hop, hlen, rfl⟩ | ⟨hop, rfl⟩
    · have hmin : min wc.byteLen s.geo.msgSize = bytes.length := by omega
      simp only [HordStream.inParcel, HordStream.slotBytes, hgeo, hok, hop, hslot, hmin, hhere]
      rw [hid, hkind.1, hkind.2]
      simp
    · simp [HordStream.inParcel, hok, hop]
  have hin : t.inParcels = s.inParcels ++ [p] := by
    unfold HordStream.inParcels
    rw [hcq, List.filterMap_append, List.filterMap_congr hold, List.filterMap_cons, hnew]
    rfl
  have hout : t.outParcels = s.outParcels := by
    rw [ht]
    rfl
  have hheld : t.rxReady.map t.msgBytes = s.rxReady.map s.msgBytes := by
    have hready : t.rxReady = s.rxReady := by rw [ht]
    rw [hready]
    refine List.map_congr_left fun m hm => ?_
    obtain ⟨hne, hlo, hhi⟩ := hs.unheld m hm
    unfold HordStream.msgBytes
    rw [hgeo]
    by_cases hle : m.start ≤ m.stop
    · exact hread _ hne hlo (by omega)
    · rw [Nat.sub_eq_zero_of_le (by omega), readAt_zero, readAt_zero]
  refine ⟨hin, hout, ?_⟩
  unfold HordStream.traffic
  rw [hin, hout, hheld, List.map_append, ht]
  rfl

/-- The handshake's receive is none of the link's business. -/
theorem landed_handshake (s : HordStream) (rs : List RecvWr) (bytes : Bytes) {wc : Completion}
    (hid : wc.wrId = hsRecvWrId) (hop : wc.opcode = .recv) {t : HordStream}
    (ht : t = s.landed hsRecvWr rs bytes wc) :
    t.inParcels = s.inParcels ∧ t.outParcels = s.outParcels ∧ t.traffic = s.traffic := by
  have hnone : s.inParcel wc = none := by
    unfold HordStream.inParcel
    rw [hop, hid, hsWrId_kind.1]
    simp
  obtain ⟨hheld, hin'⟩ := received_congr (s := s) (t := t) (by rw [ht]; rfl) (by rw [ht]; rfl)
    (by rw [ht]; rfl)
  have hin : t.inParcels = s.inParcels := by
    unfold HordStream.inParcels
    have hcq : t.conn.cq = s.conn.cq ++ [wc] := by rw [ht]; rfl
    rw [hcq, hin', List.filterMap_append, List.filterMap_cons, hnone, List.filterMap_nil, List.append_nil]
  have hout : t.outParcels = s.outParcels := by
    rw [ht]
    rfl
  refine ⟨hin, hout, ?_⟩
  unfold HordStream.traffic
  rw [hin, hout, hheld, ht]
  rfl

/-- A completion that reports no arrival is queued. -/
theorem queued_traffic (s : HordStream) (rq : List RecvWr) (await : List SendWr) {wc : Completion}
    (hnone : s.inParcel wc = none) {t : HordStream}
    (ht : t = { s with conn := { s.conn with rq := rq, await := await, cq := s.conn.cq ++ [wc] } }) :
    t.inParcels = s.inParcels ∧ t.outParcels = s.outParcels ∧ t.traffic = s.traffic := by
  have hin : t.inParcels = s.inParcels := by
    rw [ht]
    show (s.conn.cq ++ [wc]).filterMap s.inParcel = _
    rw [List.filterMap_append, List.filterMap_cons, hnone, List.filterMap_nil, List.append_nil]
    rfl
  have hout : t.outParcels = s.outParcels := by
    rw [ht]
    rfl
  refine ⟨hin, hout, ?_⟩
  unfold HordStream.traffic
  rw [hin, hout, ht]
  rfl

theorem outParcels_cons {w : SendWr} {rest : List SendWr} (hout : s.conn.out = w :: rest) :
    s.outParcels = (s.outParcel w).toList ++ (s.carried w rest).outParcels := by
  unfold HordStream.outParcels
  rw [hout, List.filterMap_cons]
  cases s.outParcel w <;> rfl

end Device

end Hord
