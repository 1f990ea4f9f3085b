import Hord.Lib.Segments
import Hord.Traffic
import Hord.Windows
import Hord.SendQueue

/- How a byte stream is cut into data messages. `HordStream.body` is the payload a
   posted data message carries, read from the send region where it lies;
   `HordStream.sender` is what is posted and what is staged. `tryWrite_feeds` and
   `tryFlushStage_feeds` say that the two calls feed that sender as the segmenter of
   `Segments` is fed, and `Act.run_unfed` that no other call touches it. Along a run the
   payloads posted are then those of the pieces between the flushes, however the bytes
   were handed over and however often a call was blocked. -/
namespace Hord

open Region Prog Transition Segments

namespace HordStream
variable (s : HordStream)

/-- The payload of a posted data message, as the device will read it. -/
def body : SendWr → Option Bytes
  | .send id .send off len =>
    if isCtrlSend id then none else some ((readAt s.send off len).drop envelopeLen)
  | _ => none

def bodies : List Bytes := s.conn.out.filterMap s.body

/-- The data messages on the way out and the bytes staged behind them. -/
def sender : Sender UInt8 := ⟨s.bodies, s.txStage⟩

end HordStream

/-- The payloads of the data messages posted between `s` and `t`. -/
def bodiesPosted (s t : HordStream) : List Bytes :=
  (t.conn.out.drop s.conn.out.length).filterMap t.body

/-- The payload of the data message an elementary change posts. -/
def Obs.payload (stage : Bytes) : Obs → List Bytes
  | .posted extra => [stage ++ extra]
  | _ => []

section Bodies
variable {s t : HordStream} {o : Obs} {os : List Obs} {w : SendWr}

/-- A request that brings what it brought has the payload it had. -/
theorem body_congr (h : t.outParcel w = s.outParcel w) : t.body w = s.body w := by
  cases w with
  | send id mr off len =>
    cases mr with
    | send =>
      have hraw : readAt t.send off len = readAt s.send off len := by
        simpa [HordStream.outParcel] using h
      simp only [HordStream.body, hraw]
    | _ => rfl
  | write => rfl

theorem bodies_pushOut (s : HordStream) (w : SendWr) :
    (s.pushOut w).bodies = s.bodies ++ (s.body w).toList := by
  show (s.conn.out ++ [w]).filterMap s.body = _
  rw [List.filterMap_append, List.filterMap_cons, List.filterMap_nil]
  cases s.body w <;> rfl

/-- What is posted stays posted with its payload. -/
theorem Posts.bodies (h : Posts s t) : t.bodies = s.bodies ++ bodiesPosted s t := by
  obtain ⟨ws, hout, hsame, -⟩ := h
  have hnew : bodiesPosted s t = ws.filterMap t.body := by
    rw [bodiesPosted, hout, List.drop_left]
  rw [hnew, HordStream.bodies, hout, List.filterMap_append]
  congr 1
  exact List.filterMap_congr fun w hw => body_congr (hsame w hw)

theorem Handled.bodies {wc : Completion} {ok : Bool} (h : Handled s wc ok t) : t.bodies = s.bodies := by
  obtain ⟨hout, hsend⟩ := h.sends
  have hposted : bodiesPosted s t = [] := by
    rw [bodiesPosted, hout, List.drop_length]
    rfl
  rw [(Posts.of_eq hout hsend).bodies, hposted, List.append_nil]

/-- An elementary change posts the payload it shows. -/
theorem Local.bodies (hi : Inv s) (hl : Local s o t) : t.bodies = s.bodies ++ o.payload s.txStage := by
  cases hl with
  | scribble slot i bs hslot hin =>
    refine Eq.trans ?_ (List.append_nil _).symm
    exact List.filterMap_congr fun w hw => body_congr (hi.outParcel_scribble hslot hin hw)
  | post slot rest extra _ _ _ hfree _ hcap hmem =>
    have hslot : slot < s.geo.sendPool := hi.wf.free_lt slot (by rw [hfree]; exact List.mem_cons_self ..)
    have hdata := (sendWrId_kind (s.geo.sendSlot_lt hslot.le)).2.1
    have hu := hi.wf.cap_u32
    have hbody : s.body (.send (sendWrId slot) .send (slot * s.geo.msgSize)
        ((envelopeLen + (s.txStage ++ extra).length) % 2 ^ 32)) = some (s.txStage ++ extra) := by
      rw [Nat.mod_eq_of_lt (by omega), HordStream.body, hdata, hmem, if_neg (by decide),
        List.drop_left' (Envelope.encode_length _)]
    refine (bodies_pushOut s _).trans ?_
    rw [hbody]
    rfl
  | ctrl =>
    have hctrl := (ctrlSendWrId_kind (s.geo.sendSlot_lt s.geo.ctrlSlot_eq.le)).2.1
    refine (bodies_pushOut s _).trans ?_
    rw [HordStream.body, hctrl]
    rfl
  | write => exact bodies_pushOut s _
  | handle _ wc rest ok hcq hh =>
    exact (hh.bodies).trans (List.append_nil _).symm
  | _ => exact (List.append_nil _).symm

/-- It takes a completion off the queue, or a send slot for each message it posts. -/
theorem Local.spends (hl : Local s o t) : t.conn.cq.length < s.conn.cq.length ∨
    t.conn.cq = s.conn.cq ∧ t.sendFree.length + (o.payload s.txStage).length = s.sendFree.length := by
  cases hl with
  | post slot rest extra _ _ _ hfree =>
    refine .inr ⟨rfl, ?_⟩
    rw [hfree]
    rfl
  | handle _ wc rest ok hcq hh =>
    left
    rw [hh.cq, hcq]
    exact Nat.lt_succ_self _
  | _ => exact .inr ⟨rfl, rfl⟩

/-- A run that leaves the completions and the free slots as they were posts no data. -/
theorem run_bodies (hr : Run Local s os t) (hi : Inv s) (hcq : t.conn.cq = s.conn.cq)
    (hfree : t.sendFree = s.sendFree) : t.bodies = s.bodies := by
  have hall := hr.inv (I := fun u => Inv u ∧ (u.conn.cq.length < s.conn.cq.length ∨
      u.conn.cq = s.conn.cq ∧ ∃ new, u.bodies = s.bodies ++ new ∧
        u.sendFree.length + new.length = s.sendFree.length)) ?_ ⟨hi, .inr ⟨rfl, [], by simp, rfl⟩⟩
  · rcases hall.2 with hlt | ⟨-, new, hnew, hlen⟩
    · rw [hcq] at hlt
      exact absurd hlt (Nat.lt_irrefl _)
    · rw [hfree] at hlen
      have hnil : new = [] := List.eq_nil_of_length_eq_zero (by omega)
      rw [hnew, hnil, List.append_nil]
  · intro u o v ⟨hu, hcount⟩ hl
    refine ⟨⟨hl.wf hu.wf, hl.books hu.wf hu.books⟩, ?_⟩
    have hstep := hl.spends
    rcases hcount with hlt | ⟨hq, new, hnew, hlen⟩
    · rcases hstep with hs | ⟨hs, -⟩
      · exact .inl (hs.trans hlt)
      · exact .inl (hs ▸ hlt)
    · rcases hstep with hs | ⟨hs, hslots⟩
      · exact .inl (hq ▸ hs)
      · refine .inr ⟨hs.trans hq, new ++ o.payload u.txStage, ?_, ?_⟩
        · rw [hl.bodies hu, hnew, List.append_assoc]
        · rw [List.length_append]
          omega

end Bodies

/-! What each call does to the sender. -/

/-- The calls that hand bytes over. -/
def Act.writes : Act → Bool
  | .tryWrite _ => true
  | .tryFlushStage => true
  | _ => false

/-- What a call that hands nothing over leaves as it was. -/
def HordStream.unfed (s : HordStream) : Bytes × List Nat × List Completion :=
  (s.txStage, s.sendFree, s.conn.cq)

theorem unseen_unfed : UnseenRead HordStream.unfed id ∧ UnseenSend HordStream.unfed id :=
  ⟨⟨⟨fun _ _ _ => rfl, fun _ => rfl⟩, fun _ _ => rfl, fun _ _ => rfl⟩,
    ⟨fun _ _ => rfl, fun _ _ _ _ _ _ => rfl, fun _ _ => rfl, fun _ _ _ => rfl, fun _ => rfl⟩⟩

theorem Act.keeps_unfed {a : Act} (hw : a.writes = false) (hp : a ≠ .pump) :
    Keeps HordStream.unfed id a.run := by
  obtain ⟨hread, hsend⟩ := unseen_unfed
  have hd : UnseenDevice HordStream.unfed := fun _ _ _ _ _ => rfl
  apply Act.keeps
  cases a with
  | tryWrite => cases hw
  | tryFlushStage => cases hw
  | tryRead n => exact ⟨hread, hsend⟩
  | returnOwedCredits urgent => exact hsend
  | pump => exact absurd rfl hp
  | pollCmDisconnect => exact ⟨hd, fun _ => rfl⟩
  | pollCmEvent => exact ⟨hd, fun _ => rfl⟩
  | nextCompletedTransfer => exact fun _ _ => rfl
  | beginWrite => exact ⟨hd.link, fun _ _ => rfl, fun _ => rfl⟩
  | _ => exact hd.link

section Calls
variable {s t : HordStream}

theorem sender_eq (hbodies : t.bodies = s.bodies) (hstage : t.txStage = s.txStage) :
    t.sender = s.sender := by
  rw [HordStream.sender, HordStream.sender, hbodies, hstage]

/-- A program that leaves the stage, the free slots and the completions alone posts no data. -/
theorem unfed_sender (hi : Inv s) (hr : Reaches s t) (h : t.unfed = s.unfed) : t.sender = s.sender := by
  obtain ⟨os, hos⟩ := hr
  simp only [HordStream.unfed, Prod.mk.injEq] at h
  obtain ⟨hstage, hfree, hcq⟩ := h
  exact sender_eq (run_bodies hos hi hcq hfree) hstage

/-- Whether it returns or not, a call that hands nothing over posts no data. -/
theorem Act.run_unfed (a : Act) (hw : a.writes = false) (hi : Inv s) :
    wp a.run s fun _ t => t.sender = s.sender := by
  by_cases hp : a = .pump
  · subst hp
    have handled : ∀ {fs : List Bool} {wc : Completion} {rest : List Completion} {ok : Bool}
        {t : HordStream}, Handled ((s.setCq rest).setFaults fs) wc ok t → t.sender = s.sender := by
      intro fs wc rest ok t hh
      have hstage : t.txStage = s.txStage :=
        hh.unseen (f := HordStream.txStage)
          ⟨fun _ => rfl, fun _ _ => rfl, fun _ _ _ _ _ => rfl, fun _ _ _ _ _ => rfl⟩
      exact sender_eq hh.bodies hstage
    simp only [Act.run, wp_bind]
    refine wp_mono (pumpOnce_wp hi.wf) ?_
    intro r t hr
    cases r with
    | ok v =>
      cases v with
      | true =>
        obtain ⟨fs, wc, rest, -, hh⟩ := hr
        exact handled hh
      | false =>
        obtain ⟨-, fs, rfl⟩ := hr
        rfl
    | error e =>
      cases e with
      | io _ =>
        rcases hr with ⟨fs, -, rfl⟩ | ⟨fs, wc, rest, -, hh⟩
        · rfl
        · exact handled hh
      | panic _ => exact hr.elim
  · refine wp_mono (wp_and (a.run_path hi.wf) (Act.keeps_unfed hw hp s)) ?_
    rintro r t ⟨hpath, hkeep⟩
    cases r with
    | ok v => exact unfed_sender hi hpath.reaches hkeep
    | error e =>
      cases e with
      | io _ => exact unfed_sender hi hpath hkeep
      | panic _ => exact hpath.elim

theorem maybeReturnCredits_unfed (threshold : Nat) (hi : Inv s) :
    wp (maybeReturnCredits threshold) s fun _ t => t.sender = s.sender := by
  have hkeep := keeps_maybeReturnCredits (f := HordStream.unfed) (g := id) unseen_unfed.2 threshold s
  refine wp_mono (wp_and (maybeReturnCredits_path threshold hi.wf) hkeep) ?_
  intro r t ⟨hpath, hk⟩
  match r with
  | .ok () => exact unfed_sender hi hpath.1.reaches hk
  | .error (.io _) => exact unfed_sender hi hpath.1.reaches hk
  | .error (.panic _) => exact hpath.elim

/-- A data message is posted with the stage and `extra` for its payload; refused, it takes
    the stage with it. -/
theorem postDataMessage_sender (hi : Inv s) (hcan : s.canSendData = true) (extra : Bytes)
    (hne : s.txStage ++ extra ≠ []) (hcap : (s.txStage ++ extra).length ≤ s.payloadCap) :
    wp (postDataMessage (s.txStage ++ extra)) { s with txStage := [] } fun r t => match r with
      | .ok () => t.sender = ⟨s.bodies ++ [s.txStage ++ extra], []⟩ ∧ Inv t ∧ t.payloadCap = s.payloadCap
      | .error _ => t.sender = ⟨s.bodies, []⟩ := by
  obtain ⟨hopen, hfree, hcred⟩ := canSendData_iff.mp hcan
  obtain ⟨slot, rest, hsf⟩ := List.exists_cons_of_ne_nil hfree
  have hmem : slot ∈ s.sendFree := by rw [hsf]; exact List.mem_cons_self ..
  have hin := hi.wf.sendSlot_in (hi.wf.free_lt slot hmem).le
  have hfit : envelopeLen + (s.txStage ++ extra).length ≤ s.geo.msgSize := by
    have := hi.wf.cap_fits
    omega
  have hread := readAt_stamped (s.stamp (s.txStage ++ extra).length 0) hin hfit
  -- copying into a free slot leaves what is posted alone
  have stamped : ∀ fs, ((s.stamped slot (s.stamp (s.txStage ++ extra).length 0) (s.txStage ++ extra)).setFaults
      fs).bodies = s.bodies ∧
      Inv ((s.stamped slot (s.stamp (s.txStage ++ extra).length 0) (s.txStage ++ extra)).setFaults fs) := by
    intro fs
    have hstamp := (clean_stamped hopen (s.stamp (s.txStage ++ extra).length 0) (.inl hmem) hfit fs).reaches
    exact ⟨congrArg Sender.sent (unfed_sender hi hstamp rfl), hstamp.inv hi⟩
  simp only [postDataMessage, wp_bind, wp_get, hsf, wp_set, attempt_wp]
  refine postInto_wp (s := { s with txStage := [], sendFree := rest }) hin hfit
    (fun fs hroom => ?_) (fun fs e => congrArg (Sender.mk · []) (stamped fs).1)
  obtain ⟨hsame, hinv⟩ := stamped fs
  have hpost : Local ((s.stamped slot (s.stamp (s.txStage ++ extra).length 0) (s.txStage ++ extra)).setFaults fs)
      (.posted extra) _ := .post _ slot rest extra hopen hroom hcred hsf hne hcap hread
  refine ⟨?_, (Reaches.single hpost).inv hinv, rfl⟩
  have hbodies := hpost.bodies hinv
  rw [hsame] at hbodies
  exact congrArg (Sender.mk · []) hbodies

/-- Filling the stage up sends it. -/
theorem feed_filled (hi : Inv s) {extra : Bytes} (h : (s.txStage ++ extra).length = s.payloadCap) :
    feed s.payloadCap s.sender (.put extra) = ⟨s.bodies ++ [s.txStage ++ extra], []⟩ :=
  feed_put_full (u := s.sender) hi.wf.cap_pos h

theorem feed_nothing (hi : Inv s) : feed s.payloadCap s.sender (.put []) = s.sender := by
  have hlt : (s.sender.stage ++ []).length < s.payloadCap := by
    rw [List.append_nil]
    exact hi.wf.stage_lt
  rw [feed_put_short hlt, List.append_nil]

/-- What a call that accepts `bs` leaves, and why it may have accepted nothing of `input`. -/
structure Feeds (s t : HordStream) (input : Bytes) (k : Nat) : Prop where
  le : k ≤ input.length
  fed : t.sender = feed s.payloadCap s.sender (.put (input.take k))
  blocked : k = 0 → input ≠ [] → s.canSendData = false

/-- Whole messages, then the rest into the stage. -/
theorem sendWhole_feeds {cap : Nat} (fuel : Nat) (input : Bytes) (consumed : Nat)
    (hfuel : input.length < fuel) (hi : Inv s) (hcap : cap = s.payloadCap) (hstage : s.txStage = []) :
    wp (sendWhole cap fuel input consumed) s fun r t => match r with
      | .ok n => ∃ k, n = consumed + k ∧ Feeds s t input k
      | .error _ => True := by
  induction fuel generalizing s input consumed with
  | zero => omega
  | succ fuel ih =>
    have hpos := hi.wf.cap_pos
    simp only [sendWhole, wp_ite, wp_bind, wp_get]
    split
    · next hge =>
      split
      · next hcan =>
        refine wp_mono (maybeReturnCredits_unfed 1 hi) ?_
        intro r t hr
        match r with
        | .ok () =>
          refine ⟨0, rfl, Nat.zero_le _, ?_, fun _ _ => by simpa using hcan⟩
          rw [hr, List.take_zero, feed_nothing hi]
        | .error _ => trivial
      · next hcan =>
        have hcan' : s.canSendData = true := by simpa using hcan
        have hlen : (s.txStage ++ input.take cap).length = s.payloadCap := by
          rw [hstage, List.nil_append, List.length_take, hcap]
          omega
        have hne : s.txStage ++ input.take cap ≠ [] := List.ne_nil_of_length_pos (by omega)
        have hpost := postDataMessage_sender hi hcan' (input.take cap) hne hlen.le
        have hself : { s with txStage := [] } = s := by
          rw [← hstage]
        rw [hself] at hpost
        have hpay : s.txStage ++ input.take cap = input.take cap := by rw [hstage, List.nil_append]
        rw [hpay] at hpost
        refine wp_mono hpost ?_
        intro r t hr
        match r with
        | .error _ => trivial
        | .ok () =>
          obtain ⟨hsent, hit, hcp⟩ := hr
          refine wp_mono (ih (s := t) (input.drop cap) (consumed + cap) (by rw [List.length_drop]; omega) hit
            (hcap.trans hcp.symm) (congrArg Sender.stage hsent)) ?_
          intro r u hr
          match r with
          | .error _ => trivial
          | .ok n =>
            obtain ⟨k, rfl, hk⟩ := hr
            have hfull : t.sender = feed s.payloadCap s.sender (.put (input.take cap)) := by
              rw [feed_filled hi hlen, hpay]
              exact hsent
            have hle := hk.le
            rw [List.length_drop] at hle
            refine ⟨cap + k, (Nat.add_assoc ..), by omega, ?_, fun h0 => by omega⟩
            rw [hk.fed, hfull, hcp, feed_put_append hpos, List.take_add]
    · next hlt =>
      simp only [wp_modify, wp_pure]
      refine ⟨input.length, rfl, Nat.le_refl _, ?_, fun h0 hne => absurd (List.eq_nil_of_length_eq_zero h0) hne⟩
      have hshort : (s.sender.stage ++ input).length < s.payloadCap := by
        rw [show s.sender.stage = [] from hstage, List.nil_append]
        omega
      rw [List.take_length, feed_put_short hshort]
      rfl

/-- `try_write` hands over as many bytes as it returns; it returns 0 for a non-empty
    buffer only if no message can be posted. -/
theorem tryWrite_feeds (buf : Bytes) (hi : Inv s) :
    wp (tryWrite buf) s fun r t => match r with
      | .ok n => Feeds s t buf n
      | .error _ => True := by
  have hpos := hi.wf.cap_pos
  have hlt := hi.wf.stage_lt
  simp only [tryWrite, wp_bind, wp_get, wp_ite]
  split
  · trivial
  · split
    · next hstage =>
      refine wp_mono (sendWhole_feeds _ buf 0 (Nat.lt_succ_self _) hi rfl (List.isEmpty_iff.mp hstage)) ?_
      intro r t hr
      cases r with
      | error _ => trivial
      | ok n =>
        obtain ⟨k, rfl, hk⟩ := hr
        rw [Nat.zero_add]
        exact hk
    · next hstage =>
      have hne : s.txStage ≠ [] := fun h => hstage (by rw [h]; rfl)
      split
      · next hshort =>
        -- too little to fill the stage
        simp only [wp_modify, wp_pure]
        have hshort' : (s.sender.stage ++ buf).length < s.payloadCap := by
          rw [List.length_append]
          show s.txStage.length + buf.length < s.payloadCap
          omega
        refine ⟨Nat.le_refl _, ?_, fun h0 hb => absurd (List.eq_nil_of_length_eq_zero h0) hb⟩
        rw [List.take_length, feed_put_short hshort']
        rfl
      · next hfull =>
        split
        · next hcan =>
          refine wp_mono (maybeReturnCredits_unfed 1 hi) ?_
          intro r t hr
          cases r with
          | ok _ =>
            refine ⟨Nat.zero_le _, ?_, fun _ _ => by simpa using hcan⟩
            rw [hr, List.take_zero, feed_nothing hi]
          | error _ => trivial
        · next hcan =>
          -- the stage is filled up and leaves, the rest follows as from an empty one
          have hcan' : s.canSendData = true := by simpa using hcan
          have htake : min (s.payloadCap - s.txStage.length) buf.length =
              s.payloadCap - s.txStage.length := by omega
          rw [htake]
          have hlen : (s.txStage ++ buf.take (s.payloadCap - s.txStage.length)).length = s.payloadCap := by
            rw [List.length_append, List.length_take]
            omega
          simp only [wp_modify]
          refine wp_mono (postDataMessage_sender hi hcan' _ (by simp [hne]) hlen.le) ?_
          intro r t hr
          cases r with
          | error _ => trivial
          | ok _ =>
            obtain ⟨hsent, hit, hcp⟩ := hr
            refine wp_mono (sendWhole_feeds (s := t) _ _ _ (by rw [List.length_drop]; omega) hit hcp.symm
              (congrArg Sender.stage hsent)) ?_
            intro r u hr
            cases r with
            | error _ => trivial
            | ok n =>
              obtain ⟨k, rfl, hk⟩ := hr
              have hfilled : t.sender = feed s.payloadCap s.sender
                  (.put (buf.take (s.payloadCap - s.txStage.length))) :=
                hsent.trans (feed_filled hi hlen).symm
              have hle := hk.le
              rw [List.length_drop] at hle
              refine ⟨by omega, ?_, fun h0 => by omega⟩
              rw [hk.fed, hfilled, hcp, feed_put_append hpos, List.take_add]

/-- `try_flush_stage` sends the stage, or reports that it could not. -/
theorem tryFlushStage_feeds (hi : Inv s) :
    wp tryFlushStage s fun r t => match r with
      | .ok true => t.sender = feed s.payloadCap s.sender .flush
      | .ok false => t.sender = s.sender
      | .error _ => True := by
  simp only [tryFlushStage, wp_bind, wp_get, wp_ite]
  split
  · next hstage =>
    have hempty : ending s.txStage = [] := if_pos hstage
    show s.sender = ⟨s.bodies ++ ending s.txStage, []⟩
    rw [hempty, List.append_nil, ← List.isEmpty_iff.mp hstage]
    rfl
  · next hstage =>
    have hne : s.txStage ≠ [] := fun h => hstage (by rw [h]; rfl)
    split
    · refine wp_mono (maybeReturnCredits_unfed 1 hi) ?_
      intro r t hr
      cases r with
      | ok _ => exact hr
      | error _ => trivial
    · next hcan =>
      have hcan' : s.canSendData = true := by simpa using hcan
      have hpost := postDataMessage_sender hi hcan' [] (by simpa using hne)
        (by rw [List.append_nil]; exact hi.wf.stage_lt.le)
      rw [List.append_nil] at hpost
      simp only [wp_modify]
      refine wp_mono hpost ?_
      intro r t hr
      cases r with
      | error _ => trivial
      | ok _ =>
        have hone : ending s.txStage = [s.txStage] := if_neg hstage
        show t.sender = ⟨s.bodies ++ ending s.txStage, []⟩
        rw [hr.1, hone]

end Calls

/-! Along a run. -/

/-- What a move of the endpoint hands to the sender: the bytes a write accepted, or a
    flush of the stage that went through. -/
def Move.input : Move → Option (Input UInt8)
  | .act (.tryWrite buf) (.ok (.count n)) => some (.put (buf.take n))
  | .act .tryFlushStage (.ok (.flag true)) => some .flush
  | _ => none

/-- A write or a flush that failed; the stream is closed then. -/
def Move.cutShort : Move → Bool
  | .act a (.error _) => a.writes
  | _ => false

/-- The payloads a move posts. -/
def Move.bodies (s t : HordStream) : Move → List Bytes
  | .act _ _ => bodiesPosted s t
  | _ => []

/-- A step of an endpoint, with the payloads of all data messages posted so far. -/
def Party.Logged (u : Party × List Bytes) (m : Move) (v : Party × List Bytes) : Prop :=
  Party.Step u.1 m v.1 ∧ v.2 = u.2 ++ m.bodies u.1.stream v.1.stream

theorem Party.Logged.steps {u v : Party × List Bytes} {ms : List Move} (h : Run Party.Logged u ms v) :
    Run Party.Step u.1 ms v.1 := by
  induction h with
  | nil => exact .nil _
  | snoc _ hs ih => exact ih.snoc hs.1

/-- The sender after one more input, if there is one. -/
def fedBy (cap : Nat) (u : Sender UInt8) : Option (Input UInt8) → Sender UInt8
  | none => u
  | some i => feed cap u i

section Logs
variable {s t : HordStream} {u v : Party × List Bytes} {m : Move} {ms : List Move}

/-- A call that returns, or hands nothing over, feeds the sender with its input. -/
theorem Act.run_feeds (a : Act) (hi : Inv s) : wp a.run s fun r t =>
    (Move.act a r).cutShort = false → t.sender = fedBy s.payloadCap s.sender (Move.act a r).input := by
  by_cases hw : a.writes = false
  · refine wp_mono (a.run_unfed hw hi) ?_
    intro r t ht _
    have hnone : (Move.act a r).input = none := by
      cases a <;> first | rfl | cases hw
    rw [hnone]
    exact ht
  · cases a with
    | tryWrite buf =>
      simp only [Act.run, wp_bind]
      refine wp_mono (tryWrite_feeds buf hi) ?_
      intro r t hr
      cases r with
      | ok n => exact fun _ => hr.fed
      | error _ => exact fun hc => by cases hc
    | tryFlushStage =>
      simp only [Act.run, wp_bind]
      refine wp_mono (tryFlushStage_feeds hi) ?_
      intro r t hr
      cases r with
      | ok v =>
        cases v with
        | true => exact fun _ => hr
        | false => exact fun _ => hr
      | error _ => exact fun hc => by cases hc
    | _ => exact absurd rfl hw

/-- The log grows as the sender does. -/
theorem log_fed (hposts : Posts s t) {cap : Nat} {i : Option (Input UInt8)}
    (h : t.sender = fedBy cap s.sender i) (log : List Bytes) :
    (⟨log ++ bodiesPosted s t, t.txStage⟩ : Sender UInt8) = fedBy cap ⟨log, s.txStage⟩ i := by
  have hsent : s.bodies ++ bodiesPosted s t = (fedBy cap s.sender i).sent := by
    rw [← h, ← hposts.bodies]
    rfl
  have hstage : t.txStage = (fedBy cap s.sender i).stage := by
    rw [← h]
    rfl
  -- the payloads posted do not depend on what was posted before
  match i with
  | none =>
    have hnone : bodiesPosted s t = [] := List.append_right_eq_self.mp hsent
    rw [hnone, hstage, List.append_nil]
    rfl
  | some (.put xs) =>
    have hnew : bodiesPosted s t = blocks cap (s.txStage ++ xs) := List.append_cancel_left hsent
    rw [hnew, hstage]
    rfl
  | some .flush =>
    have hnew : bodiesPosted s t = ending s.txStage := List.append_cancel_left hsent
    rw [hnew, hstage]
    rfl

/-- The log and the stage of an established stream are those of its inputs; before, there
    are none. -/
def Party.Segmented (ms : List Move) (u : Party × List Bytes) : Prop :=
  if u.1.phase = .up then
    (⟨u.2, u.1.stream.txStage⟩ : Sender UInt8) =
      (ms.filterMap Move.input).foldl (feed u.1.stream.payloadCap) ⟨[], []⟩
  else u.2 = [] ∧ ms.filterMap Move.input = []

theorem applyPeer_txStage {peer : Handshake} (h : applyPeer peer s = .ok () t) : t.txStage = s.txStage := by
  obtain ⟨-, -, watch, fs, rfl⟩ := wp_ok (applyPeer_wp s peer) h
  simp only [HordStream.finished]
  split <;> rfl

theorem foldl_input (cap : Nat) (m : Move) (ms : List Move) (x : Sender UInt8) :
    ((ms ++ [m]).filterMap Move.input).foldl (feed cap) x =
      fedBy cap ((ms.filterMap Move.input).foldl (feed cap) x) m.input := by
  rw [List.filterMap_append, List.foldl_append, List.filterMap_cons, List.filterMap_nil]
  cases m.input <;> rfl

/-- One step keeps the log that of the inputs. -/
theorem Party.Logged.segmented (h : Party.Logged u m v) (hm : m.cutShort = false) (hok : u.1.Ok)
    (hu : Party.Segmented ms u) : Party.Segmented (ms ++ [m]) v := by
  obtain ⟨p, log⟩ := u
  obtain ⟨q, log'⟩ := v
  obtain ⟨hstep, hlog⟩ := h
  simp only [Party.Segmented] at hstep hlog hok hu ⊢
  subst hlog
  -- a move of the exchange neither posts data nor accepts bytes
  have before : p.phase ≠ .up → q.phase ≠ .up → m.input = none → m.bodies p.stream q.stream = [] →
      (if q.phase = .up then (⟨log ++ m.bodies p.stream q.stream, q.stream.txStage⟩ : Sender UInt8) =
          ((ms ++ [m]).filterMap Move.input).foldl (feed q.stream.payloadCap) ⟨[], []⟩
        else log ++ m.bodies p.stream q.stream = [] ∧ (ms ++ [m]).filterMap Move.input = []) := by
    intro hp hq hin hnone
    rw [if_neg hp] at hu
    rw [if_neg hq, hnone, List.filterMap_append, hu.1, hu.2, List.filterMap_cons, hin]
    exact ⟨rfl, rfl⟩
  -- a call of an established stream feeds the sender
  have called : ∀ {a : Act} {r : Except Fail Res}, m = .act a r → p.phase = .up → q.phase = .up →
      q.stream.sender = fedBy p.stream.payloadCap p.stream.sender m.input → Reaches p.stream q.stream →
      (⟨log ++ m.bodies p.stream q.stream, q.stream.txStage⟩ : Sender UInt8) =
        ((ms ++ [m]).filterMap Move.input).foldl (feed q.stream.payloadCap) ⟨[], []⟩ := by
    intro a r hmove hp hq hfed hreach
    rw [if_pos hp] at hu
    rw [Party.Ok, hp] at hok
    obtain ⟨os, hos⟩ := id hreach
    rw [foldl_input, hreach.payloadCap, ← hu, ← log_fed (run_posts hos hok.1).1 hfed log, hmove]
    rfl
  cases hstep with
  | env t he =>
    obtain ⟨conn, recv, split, send, hs, rfl, -⟩ := he.fields
    have hsame : (ms ++ [Move.env]).filterMap Move.input = ms.filterMap Move.input := by
      rw [List.filterMap_append]
      exact List.append_nil _
    rw [hsame, show Move.bodies _ _ .env = [] from rfl, List.append_nil]
    exact hu
  | hello t hp hr => exact before (by rw [hp]; simp) (by simp) rfl rfl
  | wait t hp hr => exact before (by rw [hp]; simp) (by rw [hp]; simp) rfl rfl
  | peer t peer hp hr => exact before (by rw [hp]; simp) (by simp) rfl rfl
  | broke t e hr =>
    refine before ?_ (by simp) rfl rfl
    rcases hr with ⟨hp, -⟩ | ⟨hp, -⟩ | ⟨_, hp, -⟩ <;> rw [hp] <;> simp
  | apply t peer hp hr =>
    rw [if_neg (by rw [hp]; simp)] at hu
    rw [Party.Ok, hp] at hok
    have hidle : p.stream.txStage = [] := by
      have hid := hok.1.idle
      unfold Idle at hid
      rw [hid]
      rfl
    rw [if_pos rfl, foldl_input, hu.1, hu.2]
    show (⟨[], t.txStage⟩ : Sender UInt8) = ⟨[], []⟩
    rw [applyPeer_txStage hr, hidle]
  | act t a w hp hr =>
    rw [if_pos hp]
    rw [Party.Ok, hp] at hok
    exact called rfl hp hp (wp_ok (a.run_feeds hok.1) hr hm) (Act.run_reaches hok.1 hr)
  | actErr t a e hp hr =>
    rw [if_pos hp]
    rw [Party.Ok, hp] at hok
    exact called rfl hp hp (wp_error (a.run_feeds hok.1) hr hm) (Act.run_reaches_error hok.1 hr).1

/-- The payloads a run has posted, and the bytes it has staged, are a function of the
    pieces its flushes cut the accepted bytes into. -/
theorem Party.Logged.run_segmented {p q : Party} {log : List Bytes} (h0 : p.Init)
    (hr : Run Party.Logged (p, []) ms (q, log)) (hup : q.phase = .up)
    (hm : ∀ m ∈ ms, m.cutShort = false) :
    (⟨log, q.stream.txStage⟩ : Sender UInt8) =
      (pieces (ms.filterMap Move.input)).sender q.stream.payloadCap := by
  have hall := (hr.restrict hm).inv_trace (I := fun ms u => u.1.Ok ∧ Party.Segmented ms u)
    (fun ms u m v hu hs => ⟨hs.1.1.ok hu.1, hs.1.segmented hs.2 hu.1 hu.2⟩) ?_
  · obtain ⟨hok, hseg⟩ := hall
    rw [Party.Ok, hup] at hok
    rw [Party.Segmented, if_pos hup] at hseg
    rw [hseg, fed_eq hok.1.wf.cap_pos]
  · refine ⟨h0.ok, ?_⟩
    rw [Party.Segmented, if_neg (by rw [h0.1]; simp)]
    exact ⟨rfl, rfl⟩

end Logs

/-- Segmentation does not depend on chunking. In a run in which no write and no flush
    failed, the payloads posted are the whole blocks and the shorter last message of every
    flushed piece, then the whole blocks of the bytes behind the last flush; the rest is
    staged. So two runs with the same message size and the same flush points post the same
    payloads. A single `try_write` in any reachable state posts and stages exactly the
    bytes it accepts, leaves less than a message staged, and accepts nothing of a non-empty
    buffer only if no message can be posted. -/
theorem payloads_fixed_by_flushes {p q : Party} {ms : List Move} {log : List Bytes} (h0 : p.Init)
    (hr : Run Party.Logged (p, []) ms (q, log)) (hup : q.phase = .up) :
    ((∀ m ∈ ms, m.cutShort = false) →
      (log = (pieces (ms.filterMap Move.input)).flushed.flatMap (messages q.stream.payloadCap) ++
          blocks q.stream.payloadCap (pieces (ms.filterMap Move.input)).last ∧
        q.stream.txStage = remainder q.stream.payloadCap (pieces (ms.filterMap Move.input)).last) ∧
      ∀ (p' q' : Party) (ms' : List Move) (log' : List Bytes), p'.Init →
        Run Party.Logged (p', []) ms' (q', log') → q'.phase = .up → (∀ m ∈ ms', m.cutShort = false) →
        q'.stream.payloadCap = q.stream.payloadCap →
        pieces (ms'.filterMap Move.input) = pieces (ms.filterMap Move.input) → log' = log) ∧
    ∀ buf : Bytes, wp (tryWrite buf) q.stream fun r t => t.txStage.length < t.payloadCap ∧
      ∀ n, r = .ok n → n ≤ buf.length ∧
        (bodiesPosted q.stream t).flatten ++ t.txStage = q.stream.txStage ++ buf.take n ∧
        (n = 0 → buf ≠ [] → q.stream.canSendData = false) := by
  have hok : q.Ok := (Party.Logged.steps hr).inv (fun _ _ _ hp hs => hs.ok hp) h0.ok
  rw [Party.Ok, hup] at hok
  refine ⟨fun hm => ⟨?_, ?_⟩, fun buf => ?_⟩
  · have hseg := Party.Logged.run_segmented h0 hr hup hm
    exact ⟨congrArg Sender.sent hseg, congrArg Sender.stage hseg⟩
  · intro p' q' ms' log' h0' hr' hup' hm' hcap hpieces
    have hseg := congrArg Sender.sent (Party.Logged.run_segmented h0 hr hup hm)
    have hseg' := congrArg Sender.sent (Party.Logged.run_segmented h0' hr' hup' hm')
    calc log' = ((pieces (ms'.filterMap Move.input)).sender q'.stream.payloadCap).sent := hseg'
      _ = ((pieces (ms.filterMap Move.input)).sender q.stream.payloadCap).sent := by rw [hcap, hpieces]
      _ = log := hseg.symm
  · refine wp_mono (wp_and (tryWrite_path buf hok.1.wf) (tryWrite_feeds buf hok.1)) ?_
    rintro r t ⟨hpath, hfeeds⟩
    cases r with
    | error e =>
      cases e with
      | io _ => exact ⟨(hpath.1.inv hok.1).wf.stage_lt, by simp⟩
      | panic _ => exact hpath.elim
    | ok n =>
      have hreach := hpath.2.reaches
      obtain ⟨os, hos⟩ := id hreach
      refine ⟨(hreach.inv hok.1).wf.stage_lt, fun n' hn => ?_⟩
      cases hn
      -- from an empty log, the payloads posted and the stage are the segments of the bytes
      have hlog := log_fed (run_posts hos hok.1).1 (i := some (.put (buf.take n))) hfeeds.fed []
      have hsent : bodiesPosted q.stream t = blocks q.stream.payloadCap (q.stream.txStage ++ buf.take n) :=
        congrArg Sender.sent hlog
      have hstage : t.txStage = remainder q.stream.payloadCap (q.stream.txStage ++ buf.take n) :=
        congrArg Sender.stage hlog
      refine ⟨hfeeds.le, ?_, hfeeds.blocked⟩
      rw [hsent, hstage, blocks_flatten hok.1.wf.cap_pos]

/-- Carry a command out and log what it posts. -/
def Party.logged (u : Party × List Bytes) (c : Cmd) : Option (Move × (Party × List Bytes)) :=
  (u.1.exec c).map fun r => (r.1, (r.2, u.2 ++ r.1.bodies u.1.stream r.2.stream))

theorem Party.logged_step (u : Party × List Bytes) (c : Cmd) (m : Move) (v : Party × List Bytes)
    (h : Party.logged u c = some (m, v)) : Party.Logged u m v := by
  simp only [Party.logged, Option.map_eq_some_iff] at h
  obtain ⟨⟨m', q⟩, hexec, heq⟩ := h
  cases heq
  exact ⟨Party.exec_step hexec, rfl⟩

/-- Build an endpoint and carry a script out in which no write fails. -/
def Party.writing (config : HordConfig) (cs : List Cmd) : Option (List Move × (Party × List Bytes)) :=
  match newCommon (Connection.new 1) config with
  | .ok s => play Party.logged (fun _ m => !m.cutShort) (⟨config, s, .fresh⟩, []) cs
  | .error _ => none

theorem Party.writing_run (config : HordConfig) (cs : List Cmd) (good : List Move → Party × List Bytes → Bool)
    (h : (Party.writing config cs).any (fun r => good r.1 r.2) = true) :
    ∃ p ms q log, p.Init ∧ Run Party.Logged (p, []) ms (q, log) ∧ (∀ m ∈ ms, m.cutShort = false) ∧
      good ms (q, log) = true := by
  unfold Party.writing at h
  cases hnew : newCommon (Connection.new 1) config with
  | error e => rw [hnew] at h; cases h
  | ok s =>
    rw [hnew] at h
    obtain ⟨ms, ⟨q, log⟩, hrun, hgood⟩ := play_good Party.logged_step h
    have hmoves : Run (fun u m v => Party.Logged u m v ∧ m.cutShort = false) (⟨config, s, .fresh⟩, []) ms
        (q, log) := hrun.mono fun _ _ _ hs => ⟨hs.1, by simpa using hs.2⟩
    exact ⟨⟨config, s, .fresh⟩, ms, q, log, ⟨rfl, 1, [], hnew⟩, hrun.mono fun _ _ _ hs => hs.1, hmoves.labels, hgood⟩

/-- Ten bytes, then a flush. -/
def tenBytes : Pieces UInt8 := ⟨[[0, 1, 2, 3, 4, 5, 6, 7, 8, 9]], []⟩

/-- Ten bytes in one write and in two, with a flush behind them, leave as the same two
    messages. -/
theorem payloads_fixed_by_flushes_ten : ∃ p ms q log p' ms' q' log', p.Init ∧ p'.Init ∧
    Run Party.Logged (p, []) ms (q, log) ∧ Run Party.Logged (p', []) ms' (q', log') ∧
    ms.length ≠ ms'.length ∧ log = [[0, 1, 2, 3, 4, 5, 6, 7], [8, 9]] ∧ log' = log := by
  obtain ⟨p, ms, q, log, h0, hr, hm, hq⟩ := Party.writing_run threeConfig
    (threeSetup ++ [.act (.tryWrite [0, 1, 2, 3, 4, 5, 6, 7, 8, 9]), .act .tryFlushStage])
    (fun ms u => decide (u.1.phase = .up) && decide (u.1.stream.payloadCap = 8) &&
      decide (pieces (ms.filterMap Move.input) = tenBytes) && decide (ms.length = 8)) (by decide +kernel)
  obtain ⟨p', ms', q', log', h0', hr', hm', hq'⟩ := Party.writing_run threeConfig
    (threeSetup ++ [.act (.tryWrite [0, 1, 2]), .act (.tryWrite [3, 4, 5, 6, 7, 8, 9]), .act .tryFlushStage])
    (fun ms u => decide (u.1.phase = .up) && decide (u.1.stream.payloadCap = 8) &&
      decide (pieces (ms.filterMap Move.input) = tenBytes) && decide (ms.length = 9)) (by decide +kernel)
  simp only [Bool.and_eq_true, decide_eq_true_eq] at hq hq'
  obtain ⟨⟨⟨hup, hcap⟩, hten⟩, hlen⟩ := hq
  obtain ⟨⟨⟨hup', hcap'⟩, hten'⟩, hlen'⟩ := hq'
  obtain ⟨hall, -⟩ := payloads_fixed_by_flushes h0 hr hup
  obtain ⟨⟨hlog, -⟩, hsame⟩ := hall hm
  rw [hten, hcap] at hlog
  exact ⟨p, ms, q, log, p', ms', q', log', h0, h0', hr, hr', by omega, hlog.trans (by decide),
    hsame p' q' ms' log' h0' hr' hup' hm' (hcap'.trans hcap.symm) (hten'.trans hten.symm)⟩

end Hord
