import Hord.Lib.Tickets
import Hord.Segmentation
import Hord.Stall

/- The delivery barrier: what a `flush` that returns `Ok` says about the bytes accepted
   and the writes posted before it (`hord-stream/src/stream.rs`, `hord-async/src/lib.rs`).
   `Audit` keeps, beside an endpoint, the bytes its writes accepted and a ticket for every
   data send and one-sided write posted, answered by the request's own completion. Its
   balance with the stream (`Audit.Balanced`) is kept by every step: the unanswered tickets
   are the requests on the send queue, and while the stream is open the tickets and the
   stage hold the accepted bytes exactly. Both flushes fail on a closed stream while
   something is staged or outstanding, but return `Ok` as soon as nothing is, without a look
   at whether the completion that got them there has closed it: so the last one a flush
   handles may report a failure (`flush_ok_exact`). -/
namespace Hord

open Prog Transition Tickets Segments

/-- Nothing is staged and nothing outstanding. -/
structure HordStream.Quiet (s : HordStream) : Prop where
  stage : s.txStage = []
  sends : s.sendsOutstanding = false
  writes : s.writesPending = false

/-! What a failed call leaves of the stage. -/

/-- The staged bytes lead what is posted and staged now, or are gone with a message the
    device refused. -/
inductive Leaves (s t : HordStream) : Prop
  | kept (more : List Bytes) (hbodies : t.bodies = s.bodies ++ more)
      (hstage : s.txStage <+: more.flatten ++ t.txStage)
  | lost (hopen : s.peerClosed = false) (hsender : t.sender = ⟨s.bodies, []⟩)

section Failing
variable {s t : HordStream}

theorem Leaves.same (h : t.sender = s.sender) : Leaves s t := by
  have hstage : t.txStage = s.txStage := congrArg Sender.stage h
  refine .kept [] ((congrArg Sender.sent h).trans (List.append_nil _).symm) ?_
  rw [hstage]
  exact List.prefix_refl _

theorem Reaches.bodies (h : Reaches s t) (hi : Inv s) : t.bodies = s.bodies ++ bodiesPosted s t := by
  obtain ⟨os, hos⟩ := h
  exact (run_posts hos hi).1.bodies

/-- With nothing staged there is nothing to lose. -/
theorem Leaves.of_empty (h : Reaches s t) (hi : Inv s) (hstage : s.txStage = []) : Leaves s t := by
  refine .kept _ (h.bodies hi) ?_
  rw [hstage]
  exact List.nil_prefix

theorem tryWrite_leaves (buf : Bytes) (hi : Inv s) : wp (tryWrite buf) s fun r t => match r with
    | .ok _ => True
    | .error _ => Leaves s t := by
  have hlt := hi.wf.stage_lt
  by_cases hstage : s.txStage = []
  · refine wp_mono (tryWrite_path buf hi.wf) ?_
    intro r t hr
    cases r with
    | ok _ => trivial
    | error e =>
      cases e with
      | io _ => exact .of_empty hr.1 hi hstage
      | panic _ => exact hr.elim
  · have hne : ¬s.txStage.isEmpty = true := fun h => hstage (List.isEmpty_iff.mp h)
    simp only [tryWrite, wp_bind, wp_get, wp_ite, if_neg hne]
    split
    · exact .same rfl
    · split
      · trivial
      · next hfull =>
        split
        · refine wp_mono (maybeReturnCredits_unfed 1 hi) ?_
          intro r t hr
          cases r with
          | ok _ => trivial
          | error _ => exact .same hr
        · next hcan =>
          have hcan' : s.canSendData = true := by simpa using hcan
          have htake : min (s.payloadCap - s.txStage.length) buf.length =
              s.payloadCap - s.txStage.length := by omega
          rw [htake]
          have hlen : (s.txStage ++ buf.take (s.payloadCap - s.txStage.length)).length = s.payloadCap := by
            rw [List.length_append, List.length_take]
            omega
          simp only [wp_modify]
          refine wp_mono (postDataMessage_sender hi hcan' _ (by simp [hstage]) hlen.le) ?_
          intro r t hr
          cases r with
          | error _ => exact .lost (canSendData_iff.mp hcan').1 hr
          | ok _ =>
            -- the stage is on its way; whatever follows, it stays there
            obtain ⟨hsent, hit, hcp⟩ := hr
            refine wp_mono (sendWhole_path (s := t) _ _ _ hit.wf hcp.symm (congrArg Sender.stage hsent)) ?_
            intro r u hr
            cases r with
            | ok _ => trivial
            | error e =>
              cases e with
              | panic _ => exact hr.elim
              | io _ =>
                have hfirst : t.bodies = s.bodies ++ [s.txStage ++ buf.take (s.payloadCap - s.txStage.length)] :=
                  congrArg Sender.sent hsent
                refine .kept ([s.txStage ++ buf.take (s.payloadCap - s.txStage.length)] ++ bodiesPosted t u) ?_ ?_
                · rw [hr.1.bodies hit, hfirst, List.append_assoc]
                · rw [List.flatten_append, List.flatten_singleton, List.append_assoc, List.append_assoc]
                  exact List.prefix_append _ _

theorem tryFlushStage_leaves (hi : Inv s) : wp tryFlushStage s fun r t => match r with
    | .ok _ => True
    | .error _ => Leaves s t := by
  simp only [tryFlushStage, wp_bind, wp_get, wp_ite]
  split
  · trivial
  · next hstage =>
    have hne : s.txStage ≠ [] := fun h => hstage (by rw [h]; rfl)
    split
    · refine wp_mono (maybeReturnCredits_unfed 1 hi) ?_
      intro r t hr
      cases r with
      | ok _ => trivial
      | error _ => exact .same hr
    · next hcan =>
      have hcan' : s.canSendData = true := by simpa using hcan
      have hpost := postDataMessage_sender hi hcan' [] (by simpa using hne)
        (by rw [List.append_nil]; exact hi.wf.stage_lt.le)
      rw [List.append_nil] at hpost
      simp only [wp_modify]
      refine wp_mono hpost ?_
      intro r t hr
      cases r with
      | ok _ => trivial
      | error _ => exact .lost (canSendData_iff.mp hcan').1 hr

theorem Act.writes_leaves (a : Act) (hw : a.writes = true) (hi : Inv s) : wp a.run s fun r t => match r with
    | .ok _ => True
    | .error _ => Leaves s t := by
  have failed : ∀ {α : Type} {x : M α} {k : α → Res},
      (wp x s fun r t => match r with
        | .ok _ => True
        | .error _ => Leaves s t) →
      wp (do return k (← x)) s fun r t => match r with
        | .ok _ => True
        | .error _ => Leaves s t := by
    intro α x k hx
    rw [wp_bind]
    refine wp_mono hx ?_
    intro r t hr
    match r with
    | .ok _ => trivial
    | .error _ => exact hr
  cases a with
  | tryWrite buf => exact failed (tryWrite_leaves buf hi)
  | tryFlushStage => exact failed (tryFlushStage_leaves hi)
  | _ => cases hw

end Failing

/-! The audit. -/

/-- A data send or a one-sided write. -/
def isPayloadId (wrId : Nat) : Bool := isDataId wrId || isWrite wrId

/-- The bytes accepted, the requests posted with the answers of the device, and whether a
    request has failed or staged bytes were thrown away. -/
structure Audit where
  accepted : Bytes
  sent : List (Ticket Nat Bytes Bool)
  harmed : Bool
  deriving DecidableEq

/-- The bytes the data sends carry. -/
def Audit.bytes (L : Audit) : Bytes := (L.sent.map Ticket.load).flatten

/-- The requests posted between `s` and `t`, and the completions handled. -/
def posted (s t : HordStream) : List SendWr := t.conn.out.drop s.conn.out.length
def reaped (s t : HordStream) : List Completion := s.conn.cq.take (s.conn.cq.length - t.conn.cq.length)

/-- The ticket of a posted request; the control messages get none. -/
def HordStream.ticket (t : HordStream) (w : SendWr) : Option (Ticket Nat Bytes Bool) :=
  if isPayloadId w.wrId then some ⟨w.wrId, (t.body w).getD [], none⟩ else none

/-- Staged bytes are gone and no message has been posted. -/
def stageLost (s t : HordStream) : Bool :=
  !s.txStage.isEmpty && t.txStage.isEmpty && (bodiesPosted s t).isEmpty

/-- A call that accepts `acc` has taken the stream from `s` to `t`. -/
def Audit.after (L : Audit) (acc : Bytes) (s t : HordStream) : Audit where
  accepted := L.accepted ++ acc
  sent := settleAll L.sent ((reaped s t).map fun wc => (wc.wrId, wc.isSuccess)) ++
    (posted s t).filterMap t.ticket
  harmed := L.harmed || (reaped s t).any (fun wc => isPayloadId wc.wrId && !wc.isSuccess) || stageLost s t

/-- Every byte accepted has been carried by a data send, and every data send and one-sided
    write posted has completed successfully. -/
def Audit.Delivered (L : Audit) : Prop :=
  L.accepted <+: L.bytes ∧ ∀ t ∈ L.sent, t.answer = some true

/-- What a call that accepts `acc` does, as the audit sees it. -/
structure Booked (s t : HordStream) (acc : Bytes) : Prop where
  counts : ∀ p, t.conn.sqCount p + (reaped s t).countP (fun wc => p wc.wrId) =
    s.conn.sqCount p + (posted s t).countP (fun w => p w.wrId)
  bodies : bodiesPosted s t ≠ [] → s.peerClosed = false
  loads : (((posted s t).filterMap t.ticket).map Ticket.load).flatten = (bodiesPosted s t).flatten
  failed : ∀ wc ∈ reaped s t, wc.isSuccess = false → t.peerClosed = true
  closed : s.peerClosed = true → t.peerClosed = true ∧ acc = []
  stage : (bodiesPosted s t).flatten ++ t.txStage = s.txStage ++ acc ∨
    t.peerClosed = true ∧ acc = [] ∧ (s.txStage <+: (bodiesPosted s t).flatten ++ t.txStage ∨
      s.peerClosed = false ∧ stageLost s t = true)

section Calls
variable {s t : HordStream} {os : List Obs}

theorem run_reaped (h : Run Local s os t) : reaped s t = handledOf os ∧ s.conn.cq = reaped s t ++ t.conn.cq := by
  have hcq := run_cq h
  have hreaped : reaped s t = handledOf os := by
    rw [reaped, hcq, List.length_append, Nat.add_sub_cancel, List.take_left]
  exact ⟨hreaped, by rw [hreaped]; exact hcq⟩

theorem run_posted (h : Run Local s os t) (hi : Inv s) : t.conn.out = s.conn.out ++ posted s t ∧
    (s.peerClosed = true → posted s t = []) := by
  obtain ⟨⟨ws, hout, -, hclosed⟩, -⟩ := run_posts h hi
  have hws : posted s t = ws := by
    rw [posted, hout, List.drop_left]
  rw [hws]
  exact ⟨hout, hclosed⟩

/-- A run moves requests onto the send queue and completions off it. -/
theorem run_counts (h : Run Local s os t) (hi : Inv s) (p : Nat → Bool) :
    t.conn.sqCount p + (reaped s t).countP (fun wc => p wc.wrId) =
      s.conn.sqCount p + (posted s t).countP (fun w => p w.wrId) := by
  have hcq := (run_reaped h).2
  have hout := (run_posted h hi).1
  have hs : s.conn.cq.countP (fun wc => p wc.wrId) =
      (reaped s t).countP (fun wc => p wc.wrId) + t.conn.cq.countP (fun wc => p wc.wrId) := by
    rw [← List.countP_append, ← hcq]
  have ht : t.conn.out.countP (fun w => p w.wrId) =
      s.conn.out.countP (fun w => p w.wrId) + (posted s t).countP (fun w => p w.wrId) := by
    rw [← List.countP_append, ← hout]
  rw [Connection.sqCount, Connection.sqCount, run_await h]
  omega

theorem Handled.failed_closes {wc : Completion} {ok : Bool} (h : Handled s wc ok t)
    (hbad : wc.isSuccess = false) : t.peerClosed = true := by
  cases h with
  | immFailed => rfl
  | writeFailed => rfl
  | failed =>
    split
    · rw [HordStream.reclaimed]
      split <;> rfl
    · rfl
  | _ => simp_all

theorem run_failed_closes (h : Run Local s os t) {wc : Completion} (hwc : wc ∈ handledOf os)
    (hbad : wc.isSuccess = false) : t.peerClosed = true := by
  induction h with
  | nil => cases hwc
  | snoc hr hl ih =>
    rw [handledOf_append, List.mem_append] at hwc
    rcases hwc with hold | hnew
    · exact hl.stays_closed (ih hold)
    · cases hl with
      | handle _ wc' rest ok hcq hh =>
        rw [List.mem_singleton.mp hnew] at hbad
        exact hh.failed_closes hbad
      | _ => cases hnew

/-- A data message has the id of one. -/
theorem Wf.body_data (hwf : Wf t) {w : SendWr} (hw : w ∈ t.conn.out) (hbody : t.body w ≠ none) :
    isDataId w.wrId = true := by
  cases hwf.sq w (List.mem_append_left _ hw) with
  | data slot len hslot =>
    have hkind := sendWrId_kind (t.geo.sendSlot_lt hslot.le)
    show (isSend (sendWrId slot) && !isCtrlSend (sendWrId slot)) = true
    rw [hkind.1, hkind.2.1]
    rfl
  | ctrl =>
    have hctrl := (ctrlSendWrId_kind (t.geo.sendSlot_lt t.geo.ctrlSlot_eq.le)).2.1
    rw [HordStream.body, hctrl] at hbody
    exact absurd rfl hbody
  | write => exact absurd rfl hbody

/-- The tickets carry the payloads. -/
theorem ticket_loads {ws : List SendWr} (h : ∀ w ∈ ws, t.body w ≠ none → isPayloadId w.wrId = true) :
    ((ws.filterMap t.ticket).map Ticket.load).flatten = (ws.filterMap t.body).flatten := by
  induction ws with
  | nil => rfl
  | cons w ws ih =>
    have hrest := ih fun v hv => h v (List.mem_cons_of_mem _ hv)
    have hhead := h w (List.mem_cons_self ..)
    cases hbody : t.body w with
    | none =>
      rw [List.filterMap_cons_none hbody, ← hrest]
      cases hid : isPayloadId w.wrId with
      | true =>
        have hticket : t.ticket w = some ⟨w.wrId, [], none⟩ := by
          rw [HordStream.ticket, if_pos hid, hbody]
          rfl
        rw [List.filterMap_cons_some hticket]
        rfl
      | false =>
        have hticket : t.ticket w = none := by
          rw [HordStream.ticket, hid]
          rfl
        rw [List.filterMap_cons_none hticket]
    | some b =>
      have hid := hhead (by rw [hbody]; exact nofun)
      have hticket : t.ticket w = some ⟨w.wrId, b, none⟩ := by
        rw [HordStream.ticket, if_pos hid, hbody]
        rfl
      rw [List.filterMap_cons_some hbody, List.filterMap_cons_some hticket, List.map_cons, List.flatten_cons,
        List.flatten_cons, hrest]

/-- The bytes of an input. -/
def given : Option (Input UInt8) → Bytes
  | some (.put xs) => xs
  | _ => []

theorem Move.accepted_input (m : Move) : m.accepted = given m.input := by
  cases m with
  | act a r =>
    cases r with
    | error e => cases a <;> rfl
    | ok v =>
      cases a with
      | tryWrite buf => cases v <;> rfl
      | tryFlushStage =>
        cases v with
        | flag b => cases b <;> rfl
        | _ => rfl
      | _ => rfl
  | _ => rfl

/-- Feeding a sender adds the bytes given to what it holds. -/
theorem fedBy_flatten {cap : Nat} (hcap : 0 < cap) (stage : Bytes) (i : Option (Input UInt8)) :
    (fedBy cap ⟨[], stage⟩ i).sent.flatten ++ (fedBy cap ⟨[], stage⟩ i).stage = stage ++ given i := by
  match i with
  | none => exact (List.append_nil stage).symm
  | some (.put xs) => exact blocks_flatten hcap
  | some .flush =>
    show (ending stage).flatten ++ [] = stage ++ []
    rw [ending]
    split
    · next h => rw [List.isEmpty_iff.mp h]; rfl
    · rw [List.flatten_singleton]

/-- What becomes of the staged bytes in a call. -/
theorem stage_booked {a : Act} {r : Except Fail Res} (hi : Inv s) (hr : Reaches s t)
    (hfed : (Move.act a r).cutShort = false → t.sender = fedBy s.payloadCap s.sender (Move.act a r).input)
    (hleft : (Move.act a r).cutShort = true → Leaves s t ∧ FailedCall a s t) :
    (bodiesPosted s t).flatten ++ t.txStage = s.txStage ++ (Move.act a r).accepted ∨
      t.peerClosed = true ∧ (Move.act a r).accepted = [] ∧
        (s.txStage <+: (bodiesPosted s t).flatten ++ t.txStage ∨ s.peerClosed = false ∧ stageLost s t = true) := by
  obtain ⟨os, hos⟩ := id hr
  have hposts := (run_posts hos hi).1
  -- a call that went through feeds the stage with all it accepted
  cases hcut : (Move.act a r).cutShort with
  | false =>
    left
    have hlog := log_fed hposts (hfed hcut) []
    have hsent : bodiesPosted s t = (fedBy s.payloadCap ⟨[], s.txStage⟩ (Move.act a r).input).sent :=
      congrArg Sender.sent hlog
    have hstage : t.txStage = (fedBy s.payloadCap ⟨[], s.txStage⟩ (Move.act a r).input).stage :=
      congrArg Sender.stage hlog
    rw [hsent, hstage, fedBy_flatten hi.wf.cap_pos, Move.accepted_input]
  | true =>
    obtain ⟨hleaves, hfailed⟩ := hleft hcut
    obtain ⟨e, rfl⟩ : ∃ e, r = .error e := by
      cases r with
      | ok v => cases hcut
      | error e => exact ⟨e, rfl⟩
    -- cut short: the stream closed, or nothing was posted yet
    rcases hfailed with hclosed | ⟨fs, rfl⟩ | ⟨rfl, -⟩
    · refine .inr ⟨hclosed, rfl, ?_⟩
      cases hleaves with
      | kept more hbodies hstage =>
        have hmore : bodiesPosted s t = more := List.append_cancel_left (hposts.bodies.symm.trans hbodies)
        rw [hmore]
        exact .inl hstage
      -- the device refused the message after the stage was taken
      | lost hopen hsender =>
        have hbodies : t.bodies = s.bodies := congrArg Sender.sent hsender
        have hnone : bodiesPosted s t = [] := List.append_right_eq_self.mp (hposts.bodies.symm.trans hbodies)
        have hstage : t.txStage = [] := congrArg Sender.stage hsender
        by_cases hempty : s.txStage = []
        · rw [hempty]
          exact .inl List.nil_prefix
        · refine .inr ⟨hopen, ?_⟩
          rw [stageLost, hnone, hstage]
          simpa using hempty
    · left
      have hnone : bodiesPosted s (s.setFaults fs) = [] := by
        rw [bodiesPosted]
        exact congrArg (List.filterMap _) List.drop_length
      rw [hnone]
      exact (List.append_nil _).symm
    · cases hcut

/-- What any call does, whether it returns or not. -/
theorem Act.run_booked (a : Act) (hi : Inv s) :
    wp a.run s fun r t => Booked s t (Move.act a r).accepted := by
  have hreach := a.reaches_wp hi.wf
  -- only a writing call is cut short
  have hcut : wp a.run s fun r t => (Move.act a r).cutShort = true → Leaves s t ∧ FailedCall a s t := by
    cases hw : a.writes with
    | false =>
      refine wp_mono (wp_true _ s) ?_
      intro r t _ h
      cases r with
      | ok v => cases h
      | error e => exact absurd (hw.symm.trans h) (by decide)
    | true =>
      refine wp_mono (wp_and (a.writes_leaves hw hi) (a.run_failed hi.wf)) ?_
      intro r t ⟨hl, hf⟩ h
      cases r with
      | ok v => cases h
      | error e => exact ⟨hl, hf⟩
  have hclosed : wp a.run s fun r t => s.peerClosed = true → (Move.act a r).accepted = [] := by
    by_cases hc : s.peerClosed = true
    · exact wp_mono (Act.closed_accepts hc) fun _ _ h _ => h
    · exact wp_mono (wp_true _ s) fun _ _ _ h => absurd h hc
  refine wp_mono (wp_and (wp_and hreach (a.run_feeds hi)) (wp_and hcut hclosed)) ?_
  intro r t ⟨⟨hr, hfed⟩, hleft, hacc⟩
  obtain ⟨os, hos⟩ := id hr
  obtain ⟨hout, hnone⟩ := run_posted hos hi
  refine ⟨run_counts hos hi, fun hne => ?_, ticket_loads fun w hw hbody => ?_, fun wc hwc hbad => ?_,
    fun hc => ⟨hr.stays_closed hc, hacc hc⟩, stage_booked hi hr hfed hleft⟩
  · by_contra hc
    have hnil := hnone (by simpa using hc)
    rw [bodiesPosted, show t.conn.out.drop s.conn.out.length = [] from hnil] at hne
    exact hne rfl
  · have hdata : isDataId w.wrId = true := by
      refine (hr.inv hi).wf.body_data ?_ hbody
      rw [hout]
      exact List.mem_append_right _ hw
    rw [isPayloadId, hdata]
    rfl
  · rw [(run_reaped hos).1] at hwc
    exact run_failed_closes hos hwc hbad

end Calls

/-! The balance. -/

/-- The unanswered tickets are the requests on the send queue. While the stream is open no
    harm is done and the tickets and the stage hold the accepted bytes; without harm they
    hold them all the same. Harm shows: in an answer, or in bytes that no ticket carries. -/
structure Audit.Balanced (L : Audit) (s : HordStream) : Prop where
  named : ∀ t ∈ L.sent, isPayloadId t.name = true
  pending : ∀ id, isPayloadId id = true → pending id L.sent = s.conn.sqCount (· == id)
  whole : s.peerClosed = false → L.harmed = false ∧ L.accepted = L.bytes ++ s.txStage
  held : L.harmed = false → L.accepted <+: L.bytes ++ s.txStage
  sound : L.harmed = false → ∀ t ∈ L.sent, t.answer ≠ some false
  harm : L.harmed = true → (∃ t ∈ L.sent, t.answer = some false) ∨
    s.peerClosed = true ∧ L.bytes.length < L.accepted.length

section Balance
variable {s t : HordStream} {L : Audit} {acc : Bytes}

/-- The answers of the completions handled. -/
def answers (s t : HordStream) : List (Nat × Bool) := (reaped s t).map fun wc => (wc.wrId, wc.isSuccess)

theorem answers_count (s t : HordStream) (id : Nat) :
    (answers s t).countP (fun a => decide (a.1 = id)) = (reaped s t).countP (fun wc => wc.wrId == id) := by
  rw [answers, List.countP_map]
  refine List.countP_congr fun wc _ => ?_
  simp

theorem pending_tickets {id : Nat} (hid : isPayloadId id = true) (ws : List SendWr) :
    pending id (ws.filterMap t.ticket) = ws.countP (fun w => w.wrId == id) := by
  induction ws with
  | nil => rfl
  | cons w ws ih =>
    rw [List.countP_cons]
    cases hw : isPayloadId w.wrId with
    | true =>
      have hticket : t.ticket w = some ⟨w.wrId, (t.body w).getD [], none⟩ := if_pos hw
      rw [List.filterMap_cons_some hticket, pending_cons, ih]
      by_cases he : w.wrId = id <;> simp [he]
    | false =>
      have hticket : t.ticket w = none := by
        rw [HordStream.ticket, hw]
        rfl
      have hne : (w.wrId == id) = false := by
        refine beq_false_of_ne fun he => ?_
        rw [he, hid] at hw
        cases hw
      rw [List.filterMap_cons_none hticket, ih, hne]
      rfl

theorem after_bytes (hk : Booked s t acc) :
    (L.after acc s t).bytes = L.bytes ++ (bodiesPosted s t).flatten := by
  show ((settleAll L.sent (answers s t) ++ (posted s t).filterMap t.ticket).map Ticket.load).flatten = _
  rw [List.map_append, List.flatten_append, settleAll_load, hk.loads]
  rfl

/-- A ticket afterwards: an old one, perhaps answered just now, or a new one without answer. -/
theorem after_mem {k : Ticket Nat Bytes Bool} (h : k ∈ (L.after acc s t).sent) :
    k ∈ settleAll L.sent (answers s t) ∨ k.answer = none ∧ isPayloadId k.name = true := by
  rcases List.mem_append.mp h with hold | hnew
  · exact .inl hold
  · obtain ⟨w, -, hw⟩ := List.mem_filterMap.mp hnew
    rw [HordStream.ticket] at hw
    split at hw
    · next hid =>
      cases hw
      exact .inr ⟨rfl, hid⟩
    · cases hw

theorem Audit.Balanced.settled_named (h : L.Balanced s) {k : Ticket Nat Bytes Bool}
    (hk : k ∈ settleAll L.sent (answers s t)) : isPayloadId k.name = true := by
  have hname : k.name ∈ (settleAll L.sent (answers s t)).map Ticket.name := List.mem_map_of_mem hk
  rw [settleAll_name] at hname
  obtain ⟨k', hk', he⟩ := List.mem_map.mp hname
  rw [← he]
  exact h.named k' hk'

/-- Without harm the staged bytes are not lost. -/
theorem stageLost_false (h : s.txStage <+: (bodiesPosted s t).flatten ++ t.txStage) : stageLost s t = false := by
  by_contra hlost
  simp only [stageLost, Bool.not_eq_false, Bool.and_eq_true, Bool.not_eq_true', List.isEmpty_iff] at hlost
  obtain ⟨⟨hne, hstage⟩, hnone⟩ := hlost
  rw [hnone, hstage] at h
  rw [List.eq_nil_of_prefix_nil h] at hne
  cases hne

theorem after_harmed : (L.after acc s t).harmed = true ↔ L.harmed = true ∨
    (∃ wc ∈ reaped s t, isPayloadId wc.wrId = true ∧ wc.isSuccess = false) ∨ stageLost s t = true := by
  simp [Audit.after, or_assoc]

/-- The completions handled were on the queue. -/
theorem reaped_count_le (s t : HordStream) (p : Nat → Bool) :
    (reaped s t).countP (fun wc => p wc.wrId) ≤ s.conn.sqCount p := by
  have hsub := (List.take_sublist (s.conn.cq.length - t.conn.cq.length) s.conn.cq).countP_le
    (p := fun wc => p wc.wrId)
  rw [Connection.sqCount]
  exact hsub.trans (Nat.le_add_left _ _)

/-- A call that keeps the staged bytes adds what it accepts. -/
theorem after_accepted (hk : Booked s t acc) (hstage : (bodiesPosted s t).flatten ++ t.txStage = s.txStage ++ acc)
    (hacc : L.accepted = L.bytes ++ s.txStage) :
    (L.after acc s t).accepted = (L.after acc s t).bytes ++ t.txStage := by
  calc L.accepted ++ acc = L.bytes ++ (s.txStage ++ acc) := by rw [hacc, List.append_assoc]
    _ = L.bytes ++ ((bodiesPosted s t).flatten ++ t.txStage) := by rw [hstage]
    _ = (L.after acc s t).bytes ++ t.txStage := by rw [after_bytes hk, List.append_assoc]

theorem Audit.Balanced.after_pending (h : L.Balanced s) (hk : Booked s t acc) {id : Nat}
    (hid : isPayloadId id = true) :
    Tickets.pending id (L.after acc s t).sent = t.conn.sqCount (· == id) := by
  show Tickets.pending id (settleAll L.sent (answers s t) ++ (posted s t).filterMap t.ticket) = _
  have hcounts := hk.counts (· == id)
  have hle := reaped_count_le s t (· == id)
  rw [pending_append, pending_settleAll, pending_tickets hid, answers_count, h.pending id hid]
  omega

theorem Audit.Balanced.after_held (h : L.Balanced s) (hk : Booked s t acc)
    (hf : (L.after acc s t).harmed = false) : (L.after acc s t).accepted <+: (L.after acc s t).bytes ++ t.txStage := by
  have hsafe : ¬(L.after acc s t).harmed = true := by simp [hf]
  rw [after_harmed, not_or, not_or] at hsafe
  obtain ⟨hL, -, hlost⟩ := hsafe
  have hheld := h.held (by simpa using hL)
  -- the bytes held before stay where they lead
  have onward : acc = [] → s.txStage <+: (bodiesPosted s t).flatten ++ t.txStage →
      (L.after acc s t).accepted <+: (L.after acc s t).bytes ++ t.txStage := by
    intro hacc hpre
    have hsame : (L.after acc s t).accepted = L.accepted := by
      show L.accepted ++ acc = _
      rw [hacc, List.append_nil]
    rw [hsame, after_bytes hk, List.append_assoc]
    exact hheld.trans ((List.prefix_append_right_inj _).mpr hpre)
  rcases hk.stage with hstage | ⟨-, hacc, hpre | ⟨-, hlost'⟩⟩
  · cases hc : s.peerClosed with
    | false =>
      have hall := after_accepted hk hstage (h.whole hc).2
      exact ⟨[], by rw [List.append_nil, hall]⟩
    | true => exact onward (hk.closed hc).2 ⟨acc, hstage.symm⟩
  · exact onward hacc hpre
  · exact absurd hlost' hlost

theorem Audit.Balanced.after_harm (h : L.Balanced s) (hk : Booked s t acc)
    (hf : (L.after acc s t).harmed = true) : (∃ k ∈ (L.after acc s t).sent, k.answer = some false) ∨
      t.peerClosed = true ∧ (L.after acc s t).bytes.length < (L.after acc s t).accepted.length := by
  rcases after_harmed.mp hf with hold | ⟨wc, hwc, hid, hbad⟩ | hlost
  · rcases h.harm hold with ⟨k, hmem, ha⟩ | ⟨hclosed, hlt⟩
    · exact .inl ⟨k, List.mem_append_left _ (mem_settleAll hmem ha _), ha⟩
    · -- a closed stream neither posts nor accepts
      obtain ⟨hstays, hacc⟩ := hk.closed hclosed
      have hnone : bodiesPosted s t = [] := by
        by_contra hne
        exact absurd (hclosed.symm.trans (hk.bodies hne)) (by decide)
      refine .inr ⟨hstays, ?_⟩
      rw [after_bytes hk, hnone]
      show (L.bytes ++ []).length < (L.accepted ++ acc).length
      rw [hacc, List.append_nil, List.append_nil]
      exact hlt
  · -- its ticket was unanswered
    have hmem : (wc.wrId, wc.isSuccess) ∈ answers s t := List.mem_map_of_mem hwc
    have henough := reaped_count_le s t (· == wc.wrId)
    rw [← answers_count, ← h.pending _ hid] at henough
    obtain ⟨k, hk', ha⟩ := settleAll_answers hmem henough
    rw [hbad] at ha
    exact .inl ⟨k, List.mem_append_left _ hk', ha⟩
  · rcases hk.stage with hstage | ⟨hclosed, hacc, hpre | ⟨hopen, -⟩⟩
    · rw [stageLost_false ⟨acc, hstage.symm⟩] at hlost
      cases hlost
    · rw [stageLost_false hpre] at hlost
      cases hlost
    -- staged bytes went with a refused message: fewer were posted than accepted
    · simp only [stageLost, Bool.and_eq_true, Bool.not_eq_true', List.isEmpty_iff] at hlost
      obtain ⟨⟨hne, -⟩, hnone⟩ := hlost
      refine .inr ⟨hclosed, ?_⟩
      have hpos : 0 < s.txStage.length := by
        refine List.length_pos_of_ne_nil fun hnil => ?_
        rw [hnil] at hne
        cases hne
      rw [after_bytes hk, hnone]
      show (L.bytes ++ []).length < (L.accepted ++ acc).length
      rw [hacc, (h.whole hopen).2, List.append_nil, List.append_nil, List.length_append]
      omega

/-- A call keeps the balance. -/
theorem Audit.Balanced.after (h : L.Balanced s) (hk : Booked s t acc) : (L.after acc s t).Balanced t := by
  refine ⟨fun k hmem => ?_, fun id hid => h.after_pending hk hid, fun ht => ?_, h.after_held hk,
    fun hf k hmem ha => ?_, h.after_harm hk⟩
  · rcases after_mem hmem with hold | ⟨-, hid⟩
    · exact h.settled_named hold
    · exact hid
  -- still open: then nothing was harmed before, and a harm now would have closed it
  · have hopen : s.peerClosed = false := by
      by_contra hs
      exact absurd (ht.symm.trans (hk.closed (by simpa using hs)).1) (by decide)
    obtain ⟨hharm, hacc⟩ := h.whole hopen
    rcases hk.stage with hstage | ⟨hclosed, -⟩
    · refine ⟨?_, after_accepted hk hstage hacc⟩
      by_contra hf
      rcases after_harmed.mp (by simpa using hf) with hold | ⟨wc, hwc, -, hbad⟩ | hlost
      · exact absurd (hharm.symm.trans hold) (by decide)
      · exact absurd (ht.symm.trans (hk.failed wc hwc hbad)) (by decide)
      · exact absurd ((stageLost_false ⟨acc, hstage.symm⟩).symm.trans hlost) (by decide)
    · exact absurd (ht.symm.trans hclosed) (by decide)
  -- a failed ticket is a harm, one of before or one of now
  · have hsafe : ¬(L.after acc s t).harmed = true := by simp [hf]
    rw [after_harmed, not_or, not_or] at hsafe
    rcases after_mem hmem with hold | ⟨hnone, -⟩
    · have hid := h.settled_named hold
      rcases of_mem_settleAll hold ha with hmem' | hnew
      · exact h.sound (by simpa using hsafe.1) k hmem' ha
      · obtain ⟨wc, hwc, he⟩ := List.mem_map.mp hnew
        obtain ⟨hname, hbad⟩ := Prod.mk.inj he
        rw [← hname] at hid
        exact hsafe.2.1 ⟨wc, hwc, hid, hbad⟩
    · rw [hnone] at ha
      cases ha

/-- The device answers no ticket and posts none. -/
theorem Audit.Balanced.device (h : L.Balanced s) (hi : Inv s) (he : Env s t) : L.Balanced t := by
  have hstage : t.txStage = s.txStage := by
    obtain ⟨_, _, _, _, _, rfl, -⟩ := he.fields
    rfl
  refine ⟨h.named, fun id hid => ?_, fun ht => ?_, fun hf => ?_, h.sound, fun hf => ?_⟩
  · rw [h.pending id hid]
    refine (he.sqCount fun r hr => ?_).symm
    obtain ⟨v, hf⟩ := hi.wf.rq_facts r hr
    refine beq_false_of_ne fun hname => ?_
    rw [← hname, isPayloadId, isDataId, hf.send, hf.write] at hid
    cases hid
  · rw [hstage]
    exact h.whole (he.closed ▸ ht)
  · rw [hstage]
    exact h.held hf
  · rw [he.closed]
    exact h.harm hf

end Balance

/-! Nothing staged, nothing outstanding. -/

/-- As an endpoint is established. -/
def Audit.blank : Audit := ⟨[], [], false⟩

section Quiet
variable {s t : HordStream} {L : Audit}

theorem sqCount_mono {c : Connection} {p q : Nat → Bool} (h : ∀ id, p id = true → q id = true) :
    c.sqCount p ≤ c.sqCount q := by
  rw [sqCount_eq, sqCount_eq]
  exact List.countP_mono_left fun id _ => h id

/-- The books are empty then: the free slots are all there are, and no write is counted. -/
theorem Inv.quiet_count (hi : Inv s) (hq : s.Quiet) {id : Nat} (hid : isPayloadId id = true) :
    s.conn.sqCount (· == id) = 0 := by
  have hsends := hq.sends
  have hwrites := hq.writes
  rw [HordStream.sendsOutstanding, decide_eq_false_iff_not] at hsends
  rw [HordStream.writesPending, decide_eq_false_iff_not] at hwrites
  rw [isPayloadId, Bool.or_eq_true] at hid
  rcases hid with hdata | hwrite
  · have hle : s.conn.sqCount (· == id) ≤ s.conn.sqCount isDataId :=
      sqCount_mono fun v hv => by rw [beq_iff_eq.mp hv]; exact hdata
    have := hi.data_le
    omega
  · have hle : s.conn.sqCount (· == id) ≤ s.conn.sqCount isWrite :=
      sqCount_mono fun v hv => by rw [beq_iff_eq.mp hv]; exact hwrite
    have := hi.books.writes.1
    omega

/-- So every ticket is answered. -/
theorem Audit.Balanced.answered (h : L.Balanced s) (hi : Inv s) (hq : s.Quiet) {k : Ticket Nat Bytes Bool}
    (hk : k ∈ L.sent) : k.answer ≠ none := by
  intro hnone
  have hid := h.named k hk
  have hpos : 0 < Tickets.pending k.name L.sent :=
    List.countP_pos_iff.mpr ⟨k, hk, by simp [hnone]⟩
  rw [h.pending _ hid, hi.quiet_count hq hid] at hpos
  exact absurd hpos (Nat.lt_irrefl 0)

theorem Audit.balanced_blank (hi : Inv s) (hq : s.Quiet) : Audit.blank.Balanced s := by
  refine ⟨nofun, fun id hid => (hi.quiet_count hq hid).symm, fun _ => ⟨rfl, ?_⟩, fun _ => List.nil_prefix, fun _ => nofun,
    nofun⟩
  rw [hq.stage]
  rfl

/-- A stream is established with nothing staged and nothing outstanding. -/
theorem applyPeer_quiet {config : HordConfig} {peer : Handshake} (h : Idle config s)
    (hr : applyPeer peer s = .ok () t) : t.Quiet := by
  obtain ⟨hfree, hstage, -, -, -, hwrites, -⟩ := idle_fields h
  obtain ⟨-, -, watch, fs, rfl⟩ := wp_ok (applyPeer_wp s peer) hr
  have hsame : ((s.finished peer watch fs).sendFree, (s.finished peer watch fs).geo,
      (s.finished peer watch fs).writesOutstanding) = (s.sendFree, s.geo, s.writesOutstanding) := by
    simp only [HordStream.finished]
    split <;> rfl
  obtain ⟨hf, hg, hw⟩ := Prod.mk.inj hsame |>.imp_right Prod.mk.inj
  refine ⟨(applyPeer_txStage hr).trans hstage, ?_, ?_⟩
  · rw [HordStream.sendsOutstanding, hf, hg, hfree, List.length_range]
    simp
  · rw [HordStream.writesPending, hw, hwrites]
    rfl

/-- A data message on its way takes a slot. -/
theorem Inv.bodies_outstanding (hi : Inv s) (h : s.bodies ≠ []) : s.sendsOutstanding = true := by
  obtain ⟨b, hb⟩ := List.exists_mem_of_ne_nil _ h
  obtain ⟨w, hw, hbody⟩ := List.mem_filterMap.mp hb
  have hdata := hi.wf.body_data hw (by rw [hbody]; exact nofun)
  have hpos : 0 < s.conn.sqCount isDataId := by
    rw [sqCount_eq, List.countP_pos_iff]
    refine ⟨w.wrId, ?_, hdata⟩
    rw [Connection.sqIds]
    exact List.mem_append_left _ (List.mem_append_left _ (List.mem_map_of_mem hw))
  have := hi.data_le
  rw [HordStream.sendsOutstanding, decide_eq_true_eq]
  omega

/-- A stage that is clear was empty, or has just taken a slot. -/
theorem tryFlushStage_clear (hi : Inv s) : wp tryFlushStage s fun r t => r = .ok true →
    s.txStage = [] ∧ t = s ∨ t.sendsOutstanding = true := by
  simp only [tryFlushStage, wp_bind, wp_get, wp_ite]
  split
  · next hstage => exact fun _ => .inl ⟨List.isEmpty_iff.mp hstage, rfl⟩
  · next hstage =>
    have hne : s.txStage ≠ [] := fun h => hstage (by rw [h]; rfl)
    split
    · refine wp_mono (wp_true _ s) ?_
      intro r u _
      cases r with
      | ok _ => simp
      | error _ => simp
    · next hcan =>
      have hcan' : s.canSendData = true := by simpa using hcan
      have hpost := postDataMessage_sender hi hcan' [] (by simpa using hne)
        (by rw [List.append_nil]; exact hi.wf.stage_lt.le)
      rw [List.append_nil] at hpost
      simp only [wp_modify]
      refine wp_mono hpost ?_
      intro r u hu
      cases r with
      | error _ => simp
      | ok _ =>
        refine fun _ => .inr (hu.2.1.bodies_outstanding ?_)
        rw [show u.bodies = s.bodies ++ [s.txStage] from congrArg Sender.sent hu.1]
        simp

end Quiet

/-! Along a run. -/

/-- The audit of one move. -/
def Audit.note (L : Audit) (s t : HordStream) : Move → Audit
  | .act a r => L.after (Move.act a r).accepted s t
  | _ => L

/-- A step of an endpoint, audited. -/
def Party.Audited (u : Party × Audit) (m : Move) (v : Party × Audit) : Prop :=
  Party.Step u.1 m v.1 ∧ v.2 = u.2.note u.1.stream v.1.stream m

/-- The audit of an established endpoint is balanced; before, there is nothing to audit. -/
def Party.Balanced (u : Party × Audit) : Prop :=
  u.1.Ok ∧ if u.1.phase = .up then u.2.Balanced u.1.stream else u.2 = .blank

section Runs
variable {u v : Party × Audit} {m : Move}

theorem Party.Audited.balanced (h : Party.Audited u m v) (hu : Party.Balanced u) : Party.Balanced v := by
  obtain ⟨p, L⟩ := u
  obtain ⟨q, L'⟩ := v
  obtain ⟨hstep, hnote⟩ := h
  obtain ⟨hok, hbal⟩ := hu
  simp only at hstep hnote hok hbal
  subst hnote
  refine ⟨hstep.ok hok, ?_⟩
  -- a move of the exchange is not audited
  have before : p.phase ≠ .up → q.phase ≠ .up → L.note p.stream q.stream m = L →
      if q.phase = .up then (L.note p.stream q.stream m).Balanced q.stream
      else L.note p.stream q.stream m = .blank := by
    intro hp hq hsame
    rw [if_neg hp] at hbal
    rw [if_neg hq, hsame]
    exact hbal
  cases hstep with
  | env t he =>
    by_cases hp : p.phase = .up
    · rw [if_pos hp] at hbal
      rw [if_pos hp]
      exact hbal.device (hok.inv hp) he
    · exact before hp hp rfl
  | hello t hp hr => exact before (by rw [hp]; exact nofun) nofun rfl
  | wait t hp hr => exact before (by rw [hp]; exact nofun) (by rw [hp]; exact nofun) rfl
  | peer t peer hp hr => exact before (by rw [hp]; exact nofun) nofun rfl
  | broke t e hr =>
    refine before ?_ nofun rfl
    rcases hr with ⟨hp, -⟩ | ⟨hp, -⟩ | ⟨_, hp, -⟩ <;> rw [hp] <;> exact nofun
  | apply t peer hp hr =>
    rw [if_neg (by rw [hp]; exact nofun)] at hbal
    rw [Party.Ok, hp] at hok
    rw [if_pos rfl]
    show L.Balanced t
    rw [hbal]
    exact Audit.balanced_blank (hok.1.established hok.2 hr).1 (applyPeer_quiet hok.1.idle hr)
  | act t a w hp hr =>
    rw [if_pos hp] at hbal
    rw [if_pos hp]
    exact hbal.after (wp_ok (a.run_booked (hok.inv hp)) hr)
  | actErr t a e hp hr =>
    rw [if_pos hp] at hbal
    rw [if_pos hp]
    exact hbal.after (wp_error (a.run_booked (hok.inv hp)) hr)

end Runs

/-! What is known of a flush. -/

/-- The audit of a run and what has happened since a mark, which a call sets as it is
    entered: whether there had been harm before, the completions handled since, whether
    staged bytes were thrown away since, and how the last step of a call failed. -/
structure Vigil where
  audit : Audit
  before : Bool
  heard : List Completion
  lost : Bool
  fault : Option Fail
  deriving DecidableEq

/-- Set the mark. -/
def Audit.mark (L : Audit) : Vigil := ⟨L, L.harmed, [], false, none⟩

def failure {α : Type} : Except Fail α → Option Fail
  | .ok _ => none
  | .error e => some e

/-- The vigil over one move. -/
def Vigil.note (V : Vigil) (s t : HordStream) : Move → Vigil
  | .act a r => ⟨V.audit.note s t (.act a r), V.before, V.heard ++ reaped s t, V.lost || stageLost s t, failure r⟩
  | _ => V

def Vigil.heed (V : Vigil) (s t : HordStream) : Doing → Vigil
  | .enter _ => V.audit.mark
  | .move m => V.note s t m
  | .leave _ _ => V

/-- The last completion handled reports no failure of a data send or one-sided write; if
    there was none, there had been no harm before. -/
def Vigil.Clean (V : Vigil) : Prop :=
  match V.heard.getLast? with
  | none => V.before = false
  | some wc => isPayloadId wc.wrId = true → wc.isSuccess = true

theorem Vigil.clean_none {V : Vigil} (h : V.heard.getLast? = none) : V.Clean ↔ V.before = false := by
  rw [Vigil.Clean, h]

theorem Vigil.clean_some {V : Vigil} {wc : Completion} (h : V.heard.getLast? = some wc) :
    V.Clean ↔ (isPayloadId wc.wrId = true → wc.isSuccess = true) := by
  rw [Vigil.Clean, h]

/-- The harm there is was there before, or has been heard of since. -/
def Vigil.Even (V : Vigil) : Prop :=
  V.audit.harmed = (V.before || V.heard.any (fun wc => isPayloadId wc.wrId && !wc.isSuccess) || V.lost)

section Vigils
variable {V : Vigil} {L : Audit} {s t : HordStream} {done failed : Prop}

theorem Audit.mark_even (L : Audit) : L.mark.Even := by
  show L.harmed = (L.harmed || false || false)
  rw [Bool.or_false, Bool.or_false]

theorem Vigil.Even.note (h : V.Even) (s t : HordStream) (m : Move) : (V.note s t m).Even := by
  cases m with
  | act a r =>
    show (V.audit.harmed || _ || _) = (V.before || (V.heard ++ reaped s t).any _ || (V.lost || stageLost s t))
    rw [h, List.any_append]
    generalize V.before = b, List.any V.heard _ = h, V.lost = l, List.any (reaped s t) _ = r, stageLost s t = g
    cases b <;> cases h <;> cases l <;> cases r <;> cases g <;> rfl
  | _ => exact h

end Vigils

/-! The async flush. -/

section Async
variable {s t : HordStream}

/-- A stage that is not clear keeps its bytes. -/
theorem tryFlushStage_keeps (hi : Inv s) : wp tryFlushStage s fun r t => r = .ok false → t.txStage ≠ [] := by
  by_cases hstage : s.txStage = []
  · have hempty : s.txStage.isEmpty = true := List.isEmpty_iff.mpr hstage
    simp only [tryFlushStage, wp_bind, wp_get, wp_ite, if_pos hempty]
    exact fun h => by cases h
  · refine wp_mono (tryFlushStage_feeds hi) ?_
    intro r t hr hfalse
    subst hfalse
    have hsame : t.txStage = s.txStage := congrArg Sender.stage hr
    rwa [hsame]

end Async

/-! The blocking flush. -/

/-- Where a flush stands. It waits for the sends on an open stream only, so what has been
    heard up to then did no harm; while it waits for room, the stage is not empty. -/
def Next.Flushing (s : HordStream) (V : Vigil) : Next → Prop
  | .cont (.doing .tryFlushStage) => V.heard = [] ∧ V.audit.harmed = V.before ∨ s.txStage ≠ []
  | .cont (.waiting .flushStage _) => s.txStage ≠ []
  | .cont (.waiting .flushSends _) =>
    s.txStage = [] ∧ s.peerClosed = false ∧ (s.sendsOutstanding || s.writesPending) = true
  | .cont _ => False
  | .ret (.ok _) => V.fault = none ∧ s.Quiet ∧ (V.audit.harmed = false ↔ V.Clean)
  | .ret (.error e) => V.fault = some e ∨ e = unacknowledged ∧ s.peerClosed = true ∧ ¬s.Quiet

section Flushing
variable {s t : HordStream} {V : Vigil} {a : Act} {r : Except Fail Res}

/-- The second loop of a flush: it ends, fails, or waits on an open stream. -/
theorem drainSends_flushing (hfault : V.fault = none) (hstage : s.txStage = [])
    (hclean : s.Quiet → (V.audit.harmed = false ↔ V.Clean)) : (drainSends s).Flushing s V := by
  unfold drainSends
  cases hbusy : s.sendsOutstanding || s.writesPending with
  | true =>
    cases hc : s.peerClosed with
    | true =>
      refine .inr ⟨rfl, hc, fun hq => ?_⟩
      rw [hq.sends, hq.writes] at hbusy
      cases hbusy
    | false => exact ⟨hstage, hc, hbusy⟩
  | false =>
    rw [Bool.or_eq_false_iff] at hbusy
    have hq : s.Quiet := ⟨hstage, hbusy.1, hbusy.2⟩
    exact ⟨hfault, hq, hclean hq⟩

theorem reaped_self {s t : HordStream} (h : t.conn.cq = s.conn.cq) : reaped s t = [] := by
  rw [reaped, h, Nat.sub_self, List.take_zero]

theorem stageLost_same {s t : HordStream} (h : t.txStage = s.txStage) : stageLost s t = false := by
  rw [stageLost, h]
  cases s.txStage.isEmpty <;> rfl

/-- A step that neither handles a completion nor touches the stage does no harm. -/
theorem Vigil.note_harmed (V : Vigil) (a : Act) (r : Except Fail Res) (hstage : t.txStage = s.txStage) :
    (V.note s t (.act a r)).audit.harmed =
      (V.audit.harmed || (reaped s t).any fun wc => isPayloadId wc.wrId && !wc.isSuccess) := by
  show (V.audit.harmed || _ || stageLost s t) = _
  rw [stageLost_same hstage, Bool.or_false]

/-- An attempt to post the stage. -/
theorem tryFlushStage_flushing (hi : Inv s) (h : (Next.cont (.doing .tryFlushStage)).Flushing s V) :
    wp (Act.run .tryFlushStage) s fun r t =>
      ((Job.doing .tryFlushStage).next t r).Flushing t (V.note s t (.act .tryFlushStage r)) := by
  simp only [Act.run, wp_bind]
  refine wp_mono (wp_and (tryFlushStage_feeds hi) (wp_and (tryFlushStage_clear hi) (tryFlushStage_keeps hi))) ?_
  rintro r t ⟨hfed, hclear, hkeeps⟩
  cases r with
  | error e => exact .inl rfl
  | ok clear =>
    cases clear with
    | true =>
      refine drainSends_flushing rfl (congrArg Sender.stage hfed) fun hq => ?_
      -- the stage was empty: this is the first step of the flush, and it changed nothing
      rcases hclear rfl with ⟨hstage, rfl⟩ | hbusy
      · rcases h with ⟨hheard, hharm⟩ | hne
        · have hnone : reaped t t = [] := reaped_self rfl
          rw [Vigil.note_harmed V _ _ rfl, hnone, List.any_nil, Bool.or_false, hharm]
          have hlast : (V.note t t (.act .tryFlushStage (.ok (.flag true)))).heard.getLast? = none := by
            show (V.heard ++ reaped t t).getLast? = none
            rw [hheard, hnone]
            rfl
          rw [Vigil.clean_none hlast]
          rfl
        · exact absurd hstage hne
      · exact absurd (hq.sends.symm.trans hbusy) (by decide)
    | false =>
      have hstage := hkeeps rfl
      show (if t.peerClosed then _ else _ : Next).Flushing t _
      cases hc : t.peerClosed with
      | true => exact .inr ⟨rfl, hc, fun hq => hstage hq.stage⟩
      | false => exact hstage

/-- A wait that is not over goes on. -/
theorem Job.next_more {l : Loop} {w w' : Wait} {b : Bool} (h : w.next b = some w') :
    (Job.waiting l w).next t (.ok (.flag b)) = .cont (.waiting l w') := by
  simp only [Job.next, h]

/-- A wait that is over goes back to its loop. -/
theorem Job.next_over {l : Loop} {w : Wait} {b : Bool} (h : w.next b = none) :
    (Job.waiting l w).next t (.ok (.flag b)) = l.next t := by
  simp only [Job.next, h]

theorem Wait.unwriting (w : Wait) : w.act.writes = false := by
  cases w <;> rfl

/-- Waiting for room leaves the stage as it is. -/
theorem flushStage_flushing (w : Wait) (hi : Inv s) (h : s.txStage ≠ []) : wp w.act.run s fun r t =>
    ((Job.waiting .flushStage w).next t r).Flushing t (V.note s t (.act w.act r)) := by
  refine wp_mono (wp_and w.act_flag (w.act.run_unfed w.unwriting hi)) ?_
  intro r t ⟨hflag, hsender⟩
  have hstage : t.txStage ≠ [] := by
    rw [show t.txStage = s.txStage from congrArg Sender.stage hsender]
    exact h
  cases r with
  | error e => exact .inl rfl
  | ok v =>
    obtain ⟨b, rfl⟩ := hflag v rfl
    cases hnext : w.next b with
    | some w' =>
      rw [Job.next_more hnext]
      exact hstage
    | none =>
      rw [Job.next_over hnext]
      exact .inr hstage

/-- A step of a wait: it goes on with the stream as it was, or it ends with one completion
    handled, or without any and with as much outstanding as before. -/
theorem Wait.act_heard (w : Wait) (hi : Inv s) : wp w.act.run s fun r t => ∀ b, r = .ok (.flag b) →
    (w.next b ≠ none → t.peerClosed = s.peerClosed) ∧
    ((∃ wc, reaped s t = [wc] ∧ w.next b = none) ∨
      reaped s t = [] ∧ (t.sendsOutstanding || t.writesPending) = (s.sendsOutstanding || s.writesPending)) := by
  cases w with
  | poll spins =>
    simp only [Wait.act, Act.run, wp_bind]
    refine wp_mono (pumpOnce_wp hi.wf) ?_
    intro r t hr
    cases r with
    | error e => exact fun b h => by cases h
    | ok found =>
      intro b h
      cases h
      cases found with
      | true =>
        obtain ⟨fs, wc, rest, hcq, hh⟩ := hr
        have hrest : t.conn.cq = rest := hh.unseen (f := fun u => u.conn.cq)
          ⟨fun _ => rfl, fun _ _ => rfl, fun _ _ _ _ _ => rfl, fun _ _ _ _ _ => rfl⟩
        refine ⟨fun hne => absurd rfl hne, .inl ⟨wc, ?_, rfl⟩⟩
        rw [reaped, hrest, hcq, List.length_cons, Nat.add_sub_cancel_left]
        rfl
      | false =>
        obtain ⟨-, fs, rfl⟩ := hr
        exact ⟨fun _ => rfl, .inr ⟨reaped_self rfl, rfl⟩⟩
  | cm =>
    simp only [Wait.act, Act.run, Hord.pollCmDisconnect, wp_bind, wp_get, wp_ite, dev_wp]
    split
    · intro b h
      cases h
      exact ⟨fun _ => rfl, .inr ⟨reaped_self rfl, rfl⟩⟩
    · refine checkDisconnect_wp (fun fs _ b h => ?_) (fun fs e rest _ => ?_) (fun _ _ _ b h => by cases h)
      · cases h
        exact ⟨fun _ => rfl, .inr ⟨reaped_self rfl, rfl⟩⟩
      · cases he : e.gone with
        | true =>
          intro b h
          cases h
          exact ⟨fun hne => absurd rfl hne, .inr ⟨reaped_self rfl, rfl⟩⟩
        | false =>
          intro b h
          cases h
          exact ⟨fun _ => rfl, .inr ⟨reaped_self rfl, rfl⟩⟩

/-- Waiting for the sends: the completion that leaves nothing outstanding decides. -/
theorem flushSends_flushing (w : Wait) (hi : Inv s) (hbal : V.audit.Balanced s)
    (h : (Next.cont (.waiting .flushSends w)).Flushing s V) : wp w.act.run s fun r t =>
      ((Job.waiting .flushSends w).next t r).Flushing t (V.note s t (.act w.act r)) := by
  obtain ⟨hstage, hopen, hbusy⟩ := h
  have hharm := (hbal.whole hopen).1
  refine wp_mono (wp_and w.act_flag (wp_and (w.act.run_unfed w.unwriting hi) (w.act_heard hi))) ?_
  intro r t ⟨hflag, hsender, hheard⟩
  have hsame : t.txStage = s.txStage := congrArg Sender.stage hsender
  cases r with
  | error e => exact .inl rfl
  | ok v =>
    obtain ⟨b, rfl⟩ := hflag v rfl
    obtain ⟨hclosed, hheard⟩ := hheard b rfl
    -- a wait that goes on has handled nothing
    cases hnext : w.next b with
    | some w' =>
      rw [Job.next_more hnext]
      rcases hheard with ⟨wc, -, hnone⟩ | ⟨-, hout⟩
      · cases hnone.symm.trans hnext
      · exact ⟨hsame.trans hstage, (hclosed (by rw [hnext]; exact Option.some_ne_none w')).trans hopen, hout.trans hbusy⟩
    | none =>
      rw [Job.next_over hnext]
      -- nothing is outstanding any more, so this step handled the last completion
      refine drainSends_flushing rfl (hsame.trans hstage) fun hq => ?_
      rcases hheard with ⟨wc, hone, -⟩ | ⟨-, hout⟩
      · have hlast : (V.note s t (.act w.act (.ok (.flag b)))).heard.getLast? = some wc := by
          show (V.heard ++ reaped s t).getLast? = some wc
          rw [hone, List.getLast?_append]
          rfl
        rw [Vigil.note_harmed V _ _ hsame, hone, hharm, List.any_cons, List.any_nil, Bool.or_false, Bool.false_or,
          Vigil.clean_some hlast]
        cases isPayloadId wc.wrId <;> cases wc.isSuccess <;> decide
      · rw [hq.sends, hq.writes] at hout
        exact absurd (hout.trans hbusy) (by decide)

end Flushing

/-- The audit of what an owner's endpoint does. -/
def Audit.heed (L : Audit) (s t : HordStream) : Doing → Audit
  | .move m => L.note s t m
  | _ => L

/-- A step of an owner's endpoint, audited. -/
def Owner.Audited (u : Owner × Audit) (l : Doing) (v : Owner × Audit) : Prop :=
  Owner.Step u.1 l v.1 ∧ v.2 = u.2.heed u.1.stream v.1.stream l

section Owners
variable {u v : Owner × Audit} {l : Doing} {ls : List Doing}

theorem Owner.Audited.balanced (h : Owner.Audited u l v) (hu : Party.Balanced (u.1.party, u.2)) :
    Party.Balanced (v.1.party, v.2) := by
  obtain ⟨o, L⟩ := u
  obtain ⟨o', L'⟩ := v
  obtain ⟨hstep, hheed⟩ := h
  simp only at hstep hheed hu
  subst hheed
  cases hstep with
  | enter c hup hidle => exact hu
  | leave c r took hcall => exact hu
  | act c j took r q hcall hq => exact Party.Audited.balanced ⟨hq, rfl⟩ hu
  | other m q hq hm => exact Party.Audited.balanced ⟨hq, rfl⟩ hu

end Owners

/-- A step of an endpoint, with the vigil kept. -/
def Party.Watched (u : Party × Vigil) (m : Move) (v : Party × Vigil) : Prop :=
  Party.Step u.1 m v.1 ∧ v.2 = u.2.note u.1.stream v.1.stream m

def Owner.Watched (u : Owner × Vigil) (l : Doing) (v : Owner × Vigil) : Prop :=
  Owner.Step u.1 l v.1 ∧ v.2 = u.2.heed u.1.stream v.1.stream l

section Watching
variable {l : Doing} {ls : List Doing} {m : Move} {ms : List Move}

theorem Vigil.note_audit (V : Vigil) (s t : HordStream) (m : Move) : (V.note s t m).audit = V.audit.note s t m := by
  cases m <;> rfl

theorem Vigil.heed_audit (V : Vigil) (s t : HordStream) (l : Doing) : (V.heed s t l).audit = V.audit.heed s t l := by
  cases l with
  | move m => exact V.note_audit s t m
  | _ => rfl

theorem Party.Watched.audited {u v : Party × Vigil} (h : Party.Watched u m v) :
    Party.Audited (u.1, u.2.audit) m (v.1, v.2.audit) :=
  ⟨h.1, by rw [h.2]; exact u.2.note_audit _ _ m⟩

theorem Owner.Watched.audited {u v : Owner × Vigil} (h : Owner.Watched u l v) :
    Owner.Audited (u.1, u.2.audit) l (v.1, v.2.audit) :=
  ⟨h.1, by rw [h.2]; exact u.2.heed_audit _ _ l⟩

/-- From a mark on, on an endpoint in balance. -/
theorem Party.Watched.run {p : Party} {L : Audit} {v : Party × Vigil} (h : Party.Balanced (p, L))
    (hrun : Run Party.Watched (p, L.mark) ms v) : Party.Balanced (v.1, v.2.audit) ∧ v.2.Even ∧ v.2.before = L.harmed := by
  refine hrun.inv (I := fun v => Party.Balanced (v.1, v.2.audit) ∧ v.2.Even ∧ v.2.before = L.harmed) ?_
    ⟨h, L.mark_even, rfl⟩
  intro u m v ⟨hbal, heven, hbefore⟩ hs
  refine ⟨hs.audited.balanced hbal, ?_, ?_⟩
  · rw [hs.2]
    exact heven.note _ _ m
  · rw [hs.2, ← hbefore]
    cases m <;> rfl

theorem Next.Flushing.env {s t : HordStream} {V : Vigil} {n : Next} (h : n.Flushing s V) (he : Env s t) :
    n.Flushing t V := by
  obtain ⟨_, _, _, _, _, rfl, -⟩ := he.fields
  revert h
  unfold Next.Flushing
  split
  · exact id
  · exact id
  · exact id
  · exact id
  · exact fun ⟨hfault, hq, hclean⟩ => ⟨hfault, ⟨hq.stage, hq.sends, hq.writes⟩, hclean⟩
  · exact fun h => h.imp_right fun ⟨he, hc, hq⟩ => ⟨he, hc, fun hq' => hq ⟨hq'.stage, hq'.sends, hq'.writes⟩⟩

/-- A flush that its owner is in stands as it should. -/
def Owner.Flushing (u : Owner × Vigil) : Prop :=
  Party.Balanced (u.1.party, u.2.audit) ∧ ∀ n took, u.1.call = some ⟨.flush, n, took⟩ →
    u.1.party.phase = .up ∧ n.Flushing u.1.stream u.2

theorem Owner.Watched.flushing {u v : Owner × Vigil} (h : Owner.Watched u l v) (hu : Owner.Flushing u) :
    Owner.Flushing v := by
  refine ⟨h.audited.balanced hu.1, fun n took hcall => ?_⟩
  obtain ⟨o, V⟩ := u
  obtain ⟨o', V'⟩ := v
  obtain ⟨hstep, hheed⟩ := h
  obtain ⟨⟨hok, hbal⟩, hflush⟩ := hu
  simp only at hstep hheed hok hbal hflush hcall
  subst hheed
  -- the other moves are the device's, and it neither stages nor answers a ticket
  cases hstep with
  | enter c hup hidle =>
    cases hcall
    exact ⟨hup, .inl ⟨rfl, rfl⟩⟩
  | leave c r took hc => cases hcall
  | other m q hm hact =>
    obtain ⟨hup, hn⟩ := hflush n took hcall
    obtain ⟨t, henv, rfl⟩ := hm.device hact hup
    have hsame : V.heed o.stream t (.move m) = V := by
      cases m with
      | act a r => cases hact
      | _ => rfl
    refine ⟨hup, ?_⟩
    show n.Flushing t (V.heed o.stream t (.move m))
    rw [hsame]
    exact hn.env henv
  | act c j took' r q hc hq =>
    cases hcall
    obtain ⟨hup, rfl, rfl⟩ := hq.outcome
    obtain ⟨-, hn⟩ := hflush _ took' hc
    rw [if_pos hup] at hbal
    have hi := hok.inv hup
    refine ⟨hup, ?_⟩
    -- the three points of a flush; the other jobs belong to other calls
    match j with
    | .doing .tryFlushStage => exact Act.outcome_wp (tryFlushStage_flushing hi hn)
    | .waiting .flushStage w => exact Act.outcome_wp (flushStage_flushing w hi hn)
    | .waiting .flushSends w => exact Act.outcome_wp (flushSends_flushing w hi hbal hn)
    | .doing (.tryRead _) => exact hn.elim
    | .doing (.returnOwedCredits _) => exact hn.elim
    | .doing (.tryWrite _ _) => exact hn.elim
    | .doing .nextCompletedTransfer => exact hn.elim
    | .doing (.post _) => exact hn.elim
    | .doing (.once _) => exact hn.elim
    | .waiting (.read _) _ => exact hn.elim
    | .waiting (.write _ _) _ => exact hn.elim
    | .waiting .transfer _ => exact hn.elim
    | .waiting (.post _) _ => exact hn.elim
    | .waiting (.drain _ _) _ => exact hn.elim

theorem Owner.Watched.run {o₀ : Owner} {v : Owner × Vigil} (hinit : o₀.Init)
    (hrun : Run Owner.Watched (o₀, Audit.blank.mark) ls v) : Owner.Flushing v := by
  refine hrun.inv (fun _ _ _ hu hs => hs.flushing hu) ⟨⟨hinit.1.ok, ?_⟩, fun n took hcall => ?_⟩
  · rw [if_neg (by rw [hinit.1.1]; exact nofun)]
    rfl
  · rw [hinit.2] at hcall
    cases hcall

end Watching

def Owner.watched (u : Owner × Vigil) (c : Play) : Option (Doing × (Owner × Vigil)) :=
  (u.1.exec c).map fun r => (r.1, (r.2, u.2.heed u.1.stream r.2.stream r.1))

def Party.watched (u : Party × Vigil) (c : Cmd) : Option (Move × (Party × Vigil)) :=
  (u.1.exec c).map fun r => (r.1, (r.2, u.2.note u.1.stream r.2.stream r.1))

/-- The owner's flush has returned `Ok`. -/
def Owner.flushed (o : Owner) : Bool :=
  match o.call with
  | some ⟨.flush, .ret (.ok _), _⟩ => true
  | _ => false

end Hord
