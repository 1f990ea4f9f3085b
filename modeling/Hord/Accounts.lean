import Hord.Drive
import Hord.SendQueue

/- The counters behind one-sided writes and sends. `handle_completion` looks at a
   completion's opcode before its id, so a failed one, whose opcode verbs leaves undefined,
   can be taken for a peer's write: it then closes the stream and gives nothing back
   (`failed_by_wr_id`, `failed_write_not_counted`). Where opcodes match, the write counters
   count the requests they stand for (`writes_accounted`), and a refused write is
   back-pressured exactly as long as something on its way holds it up (`Stall`). -/
namespace Hord

open Prog Transition

section Failed
variable {s : HordStream} {wc wc' : Completion}

/-- A failed completion, accounted by its id. -/
def HordStream.failedBy (s : HordStream) (wrId : Nat) : HordStream :=
  if isWrite wrId then (s.writeDone wrId).close
  else if isSend wrId then s.close.reclaimed wrId
  else s.close

/-- What the failure of request `wrId` has to give back. -/
def HordStream.Accounted (s : HordStream) (wrId : Nat) (t : HordStream) : Prop :=
  (isWrite wrId = true → t.writesOutstanding + 1 = s.writesOutstanding ∧
    (isImmWrite wrId = true → t.immOutstanding + 1 = s.immOutstanding)) ∧
  (isSend wrId = true → if isCtrlSend wrId then t.ctrlSendBusy = false
    else t.sendFree = slotOf wrId :: s.sendFree)

theorem handleCompletion_failed (s : HordStream) (hbad : wc.isSuccess = false) : handleCompletion wc s =
    .ok () (if wc.opcode = .recvRdmaWithImm then s.close else s.failedBy wc.wrId) := by
  unfold handleCompletion HordStream.failedBy HordStream.writeDone HordStream.reclaimed reclaimSend
  rw [hbad]
  by_cases hop : wc.opcode = .recvRdmaWithImm
  · rw [if_pos hop, if_pos hop]
    rfl
  · rw [if_neg hop, if_neg hop]
    cases isWrite wc.wrId <;> cases isImmWrite wc.wrId <;> cases isSend wc.wrId <;>
      cases isCtrlSend wc.wrId <;> rfl

/-- Two failures of one request agree unless just one of them is taken for a peer's write
    and the request had something to give back. -/
theorem handleCompletion_failed_eq (hid : wc'.wrId = wc.wrId) (hbad : wc.isSuccess = false)
    (hbad' : wc'.isSuccess = false) : handleCompletion wc s = handleCompletion wc' s ↔
      ((wc.opcode = .recvRdmaWithImm ↔ wc'.opcode = .recvRdmaWithImm) ∨ s.failedBy wc.wrId = s.close) := by
  rw [handleCompletion_failed s hbad, handleCompletion_failed s hbad', hid]
  by_cases hop : wc.opcode = .recvRdmaWithImm <;> by_cases hop' : wc'.opcode = .recvRdmaWithImm
  · simp [hop, hop']
  · simp [hop, hop', eq_comm]
  · simp [hop, hop']
  · simp [hop, hop']

theorem close_not_accounted (hi : Inv s) {wrId : Nat} (h : wrId ∈ s.conn.sqIds)
    (hlane : isWrite wrId = true ∨ isSend wrId = true) : ¬s.Accounted wrId s.close := by
  rintro ⟨hwrite, hsend⟩
  obtain ⟨k, hk⟩ := hi.kinds h
  have hf := hk.facts
  rcases hlane with hw | hs
  · have := (hwrite hw).1
    exact absurd this (Nat.succ_ne_self s.writesOutstanding)
  · have hgive := hsend hs
    split at hgive
    · next hctrl =>
      -- a control message on its way keeps the flag up
      have hcount : 0 < s.conn.sqCount (· == ctrlSendWrId s.geo.ctrlSlot) := by
        rw [sqCount_eq, List.countP_pos_iff]
        refine ⟨wrId, h, ?_⟩
        rw [hf.ctrl hs] at hctrl
        rw [hf.ctrlId, hctrl]
      have hle := hi.books.ctrl.1
      have hbusy : s.ctrlSendBusy = false := hgive
      rw [hbusy] at hle
      exact absurd hle (Nat.not_le.mpr hcount)
    · exact absurd (congrArg List.length hgive) (by simp [HordStream.close])

theorem failedBy_accounted (hi : Inv s) {wrId : Nat} (h : wrId ∈ s.conn.sqIds) :
    s.Accounted wrId (s.failedBy wrId) := by
  constructor
  · intro hw
    have hwrites : 0 < s.conn.sqCount isWrite := by
      rw [sqCount_eq, List.countP_pos_iff]
      exact ⟨wrId, h, hw⟩
    have hle := hi.books.writes.1
    unfold HordStream.failedBy
    rw [if_pos hw]
    refine ⟨?_, fun himm => ?_⟩
    · show s.writesOutstanding - 1 + 1 = s.writesOutstanding
      omega
    · have himms : 0 < s.conn.sqCount isImmId := by
        rw [sqCount_eq, List.countP_pos_iff]
        exact ⟨wrId, h, by simp [isImmId, hw, himm]⟩
      have hle' := hi.books.imms.1
      show (if isImmWrite wrId = true then s.immOutstanding - 1 else s.immOutstanding) + 1 = s.immOutstanding
      rw [if_pos himm]
      omega
  · intro hs
    have hw : isWrite wrId = false := by
      obtain ⟨k, hk⟩ := hi.kinds h
      have hf := hk.facts
      rw [hf.write]
      rw [hf.send] at hs
      cases k with
      | data slot => rfl
      | ctrl => rfl
      | recv slot => cases hs
      | write imm => cases hs
    unfold HordStream.failedBy HordStream.reclaimed
    simp only [hw, hs, Bool.false_eq_true, if_false, if_true]
    split <;> rfl

end Failed

/-- Two failed completions of one request are handled alike if both or neither is reported
    as `RecvRdmaWithImm`, and otherwise only if the request has nothing to give back. A
    posted send or write of a reachable stream has: it is accounted for exactly when it is
    not so reported. A receive has not. -/
theorem failed_by_wr_id (wc wc' : Completion) (hbad : wc.isSuccess = false) (hbad' : wc'.isSuccess = false) :
    (∀ s : HordStream, wc'.wrId = wc.wrId → (handleCompletion wc s = handleCompletion wc' s ↔
      ((wc.opcode = .recvRdmaWithImm ↔ wc'.opcode = .recvRdmaWithImm) ∨ s.failedBy wc.wrId = s.close))) ∧
    ∀ (p q : Party) (ms : List Hord.Move), p.Init → Run Party.Step p ms q → q.phase = .up →
      (∀ w ∈ q.stream.conn.out ++ q.stream.conn.await, wc.wrId = w.wrId → wc'.wrId = w.wrId →
        (handleCompletion wc q.stream = handleCompletion wc' q.stream ↔
          (wc.opcode = .recvRdmaWithImm ↔ wc'.opcode = .recvRdmaWithImm)) ∧
        ∃ t, handleCompletion wc q.stream = .ok () t ∧
          (q.stream.Accounted w.wrId t ↔ wc.opcode ≠ .recvRdmaWithImm)) ∧
      ∀ r ∈ q.stream.conn.rq, wc.wrId = r.wrId → wc'.wrId = r.wrId →
        handleCompletion wc q.stream = handleCompletion wc' q.stream := by
  refine ⟨fun s hid => handleCompletion_failed_eq hid hbad hbad',
    fun p q ms hinit hrun hup => ⟨?_, ?_⟩⟩
  · intro w hw hid hid'
    have hi := hinit.inv hrun hup
    have hmem : w.wrId ∈ q.stream.conn.sqIds := by
      rw [Connection.sqIds, ← List.map_append]
      exact List.mem_append_left _ (List.mem_map_of_mem hw)
    have hlane : isWrite w.wrId = true ∨ isSend w.wrId = true := by
      obtain ⟨k, hk, hsq⟩ := (hi.wf.sq w hw).kind
      have hf := hk.facts
      rw [hf.write, hf.send]
      cases k with
      | recv v => exact absurd (hsq v) (by simp)
      | data v => exact .inr rfl
      | ctrl => exact .inr rfl
      | write imm => exact .inl rfl
    have hgives : q.stream.failedBy w.wrId ≠ q.stream.close := by
      intro heq
      have hacc := failedBy_accounted hi hmem
      rw [heq] at hacc
      exact close_not_accounted hi hmem hlane hacc
    refine ⟨?_, _, handleCompletion_failed q.stream hbad, ?_⟩
    · rw [handleCompletion_failed_eq (hid'.trans hid.symm) hbad hbad', hid]
      exact or_iff_left hgives
    · rw [hid]
      by_cases hop : wc.opcode = .recvRdmaWithImm
      · rw [if_pos hop]
        exact iff_of_false (close_not_accounted hi hmem hlane) (not_not.mpr hop)
      · rw [if_neg hop]
        exact iff_of_true (failedBy_accounted hi hmem) hop
  · intro r hr hid hid'
    obtain ⟨v, hf⟩ := (hinit.inv hrun hup).wf.rq_facts r hr
    rw [handleCompletion_failed_eq (hid'.trans hid.symm) hbad hbad', hid]
    refine .inr ?_
    have hw : isWrite r.wrId = false := hf.write
    have hs : isSend r.wrId = false := hf.send
    rw [HordStream.failedBy, hw, hs]
    rfl

/-- The failed completion of the first write of a stream, reported with `opcode`. -/
def failedWrite (opcode : Opcode) : Completion := ⟨writeWrId 0, 0, opcode, 5, 0⟩

/-- One write posted: its failure is accounted for when reported as a write. -/
theorem failed_by_wr_id_one : ∃ p ms q w, p.Init ∧ Run Party.Step p ms q ∧ q.phase = .up ∧
    q.stream.conn.out = [w] ∧ ∃ t, handleCompletion (failedWrite .rdmaWrite) q.stream = .ok () t ∧
      t.writesOutstanding + 1 = q.stream.writesOutstanding := by
  obtain ⟨p, ms, q, hinit, hrun, hq⟩ := Party.launch_run (fun _ _ => true) tinyConfig
    (tinySetup ++ [.act (.beginWrite [⟨0, 0, 4⟩] 0 0 none)])
    (fun q => q.phase = .up && q.stream.conn.out.map SendWr.wrId == [writeWrId 0]) (by decide +kernel)
  simp only [Bool.and_eq_true, decide_eq_true_eq, beq_iff_eq, List.map_eq_singleton_iff] at hq
  obtain ⟨hup, w, hout, hid⟩ := hq
  have hsteps : Run Party.Step p ms q := hrun.mono fun _ _ _ hs => hs.1
  have hw : w ∈ q.stream.conn.out ++ q.stream.conn.await := by simp [hout]
  obtain ⟨-, t, ht, hacc⟩ := ((failed_by_wr_id (failedWrite .rdmaWrite) (failedWrite .send) rfl rfl).2 p q ms
    hinit hsteps hup).1 w hw hid.symm hid.symm
  have hgive := (hacc.mpr (by decide)).1 (by rw [hid]; decide)
  exact ⟨p, ms, q, w, hinit, hsteps, hup, hout, t, ht, hgive.1⟩

/-- The same failure reported as `RecvRdmaWithImm` leaves the write outstanding. -/
theorem failed_write_not_counted : ¬∀ (p q : Party) (ms : List Hord.Move), p.Init →
    Run Party.Step p ms q → q.phase = .up → ∀ w ∈ q.stream.conn.out ++ q.stream.conn.await,
    ∀ wc wc' : Completion, wc.wrId = w.wrId → wc'.wrId = w.wrId → wc.isSuccess = false →
      wc'.isSuccess = false → handleCompletion wc q.stream = handleCompletion wc' q.stream := by
  intro h
  obtain ⟨p, ms, q, hinit, hrun, hq⟩ := Party.launch_run (fun _ _ => true) tinyConfig
    (tinySetup ++ [.act (.beginWrite [⟨0, 0, 4⟩] 0 0 none)])
    (fun q => q.phase = .up && q.stream.conn.out.map SendWr.wrId == [writeWrId 0] &&
      match handleCompletion (failedWrite .recvRdmaWithImm) q.stream,
        handleCompletion (failedWrite .rdmaWrite) q.stream with
      | .ok () t, .ok () t' => t.writesOutstanding == 1 && t'.writesOutstanding == 0
      | _, _ => false) (by decide +kernel)
  simp only [Bool.and_eq_true, decide_eq_true_eq, beq_iff_eq, List.map_eq_singleton_iff] at hq
  obtain ⟨⟨hup, w, hout, hid⟩, hgood⟩ := hq
  have hw : w ∈ q.stream.conn.out ++ q.stream.conn.await := by simp [hout]
  have heq := h p q ms hinit (hrun.mono fun _ _ _ hs => hs.1) hup w hw (failedWrite .recvRdmaWithImm)
    (failedWrite .rdmaWrite) hid.symm hid.symm rfl rfl
  rw [heq] at hgood
  split at hgood
  · next t t' ht ht' =>
    rw [ht] at ht'
    cases ht'
    simp only [Bool.and_eq_true, beq_iff_eq] at hgood
    omega
  · cases hgood

/-! The write counters. -/

/-- The completion carries the opcode of its request. -/
def Completion.matches (wc : Completion) : Bool :=
  if isWrite wc.wrId then wc.opcode == .rdmaWrite
  else if isSend wc.wrId then wc.opcode == .send
  else wc.opcode == .recv || wc.opcode == .recvRdmaWithImm

/-- Every completion on the queue of an established stream does. -/
def Party.matched (q : Party) : Bool := q.phase != .up || q.stream.conn.cq.all Completion.matches

/-- The counters stand for the write requests posted and not yet completed, also once the
    stream is closed. -/
structure HordStream.Counted (s : HordStream) : Prop where
  writes : s.conn.sqCount isWrite = s.writesOutstanding
  imms : s.conn.sqCount isImmId = s.immOutstanding

section Counted
variable {s t : HordStream}

theorem Completion.matches_imm {wc : Completion} (h : wc.matches = true) (hop : wc.opcode = .recvRdmaWithImm) :
    isWrite wc.wrId = false := by
  by_contra hw
  rw [Completion.matches, if_pos (Bool.eq_true_of_not_eq_false hw), hop] at h
  cases h

theorem reclaimed_writes (s : HordStream) (wrId : Nat) : (s.reclaimed wrId).conn = s.conn ∧
    ((s.reclaimed wrId).writesOutstanding, (s.reclaimed wrId).immOutstanding) =
      (s.writesOutstanding, s.immOutstanding) := by
  rw [HordStream.reclaimed]
  split
  · exact ⟨rfl, rfl⟩
  · exact ⟨rfl, rfl⟩

/-- Handling a completion that is not a write's. -/
theorem HordStream.Counted.other {wc : Completion} {rest : List Completion} (h : s.Counted)
    (hcq : s.conn.cq = wc :: rest) (hw : isWrite wc.wrId = false)
    (hsq : ∀ p, t.conn.sqCount p = (s.setCq rest).conn.sqCount p)
    (hsame : (t.writesOutstanding, t.immOutstanding) = (s.writesOutstanding, s.immOutstanding)) :
    t.Counted := by
  obtain ⟨hwrites, himms⟩ := Prod.mk.inj hsame
  have hpop : ∀ p, p wc.wrId = false → t.conn.sqCount p = s.conn.sqCount p := by
    intro p hp
    have hcons : s.conn.sqCount p = (s.setCq rest).conn.sqCount p + _ := sqCount_cons hcq p
    rw [hsq, hcons, hp, Bool.toNat_false, Nat.add_zero]
  constructor
  · rw [hpop isWrite hw, hwrites]
    exact h.writes
  · rw [hpop isImmId (by simp [isImmId, hw]), himms]
    exact h.imms

/-- A write's completion is taken off both the queue and the counters. -/
theorem HordStream.Counted.done {wc : Completion} {rest : List Completion} (h : s.Counted)
    (hcq : s.conn.cq = wc :: rest) (hw : isWrite wc.wrId = true) :
    ((s.setCq rest).writeDone wc.wrId).Counted := by
  have hcons : ∀ p, s.conn.sqCount p = (s.setCq rest).conn.sqCount p + (p wc.wrId).toNat := sqCount_cons hcq
  have hwrites := hcons isWrite
  have himms := hcons isImmId
  rw [h.writes, hw, Bool.toNat_true] at hwrites
  rw [h.imms, isImmId, hw, Bool.true_and] at himms
  constructor
  · show (s.setCq rest).conn.sqCount isWrite = s.writesOutstanding - 1
    omega
  · show (s.setCq rest).conn.sqCount isImmId =
      if isImmWrite wc.wrId = true then s.immOutstanding - 1 else s.immOutstanding
    cases himm : isImmWrite wc.wrId with
    | true =>
      rw [himm, Bool.toNat_true] at himms
      rw [if_pos rfl]
      omega
    | false =>
      rw [himm, Bool.toNat_false] at himms
      rw [if_neg (by decide)]
      omega

/-- One more request on the send queue, with the counters as they then stand. -/
theorem HordStream.Counted.push {w : SendWr} (h : s.Counted)
    (hout : ∀ p, t.conn.sqCount p = s.conn.sqCount p + (p w.wrId).toNat)
    (hwrites : t.writesOutstanding = s.writesOutstanding + (isWrite w.wrId).toNat)
    (himms : t.immOutstanding = s.immOutstanding + (isImmId w.wrId).toNat) : t.Counted := by
  constructor
  · rw [hout, hwrites, h.writes]
  · rw [hout, himms, h.imms]

theorem Local.counted {o : Obs} (hl : Local s o t) (hwf : Wf s) (hm : s.conn.cq.all Completion.matches = true)
    (h : s.Counted) : t.Counted := by
  cases hl with
  | handle _ wc rest ok hcq hh =>
    have hwc : wc.matches = true := by
      rw [hcq, List.all_cons, Bool.and_eq_true] at hm
      exact hm.1
    cases hh with
    | imm hop => exact h.other hcq (Completion.matches_imm hwc hop) (fun _ => rfl) rfl
    | immLost hop => exact h.other hcq (Completion.matches_imm hwc hop) (fun _ => rfl) rfl
    | immFailed hop => exact h.other hcq (Completion.matches_imm hwc hop) (fun _ => rfl) rfl
    | write _ hw => exact h.done hcq hw
    | writeFailed _ hw => exact { h.done hcq hw with }
    | failed _ hw =>
      split
      · obtain ⟨hconn, hsame⟩ := reclaimed_writes (s.setCq rest).close wc.wrId
        exact h.other hcq hw (fun _ => by rw [hconn]; rfl) hsame
      · exact h.other hcq hw (fun _ => rfl) rfl
    | sent _ hw =>
      obtain ⟨hconn, hsame⟩ := reclaimed_writes (s.setCq rest) wc.wrId
      exact h.other hcq hw (fun _ => by rw [hconn]) hsame
    | runt _ hw => exact h.other hcq hw (fun _ => rfl) rfl
    | held _ hw => exact h.other hcq hw (fun _ => rfl) rfl
    | credit _ hw => exact h.other hcq hw (fun _ => rfl) rfl
    | zero _ hw => exact h.other hcq hw (fun _ => rfl) rfl
    | emptyLost _ hw => exact h.other hcq hw (fun _ => rfl) rfl
  | post slot rest extra hopen hroom hcred hfree =>
    have hslot : slot < s.geo.sendPool := hwf.free_lt slot (by rw [hfree]; exact List.mem_cons_self ..)
    have hid := (sendWrId_kind (s.geo.sendSlot_lt hslot.le)).2.2
    exact h.push (w := .send (sendWrId slot) .send _ _) (sqCount_push s.conn _)
      (by simp [SendWr.wrId, hid]) (by simp [SendWr.wrId, isImmId, hid])
  | ctrl =>
    have hid := (ctrlSendWrId_kind (s.geo.sendSlot_lt s.geo.ctrlSlot_eq.le)).2.2
    exact h.push (w := .send (ctrlSendWrId s.geo.ctrlSlot) .send _ _) (sqCount_push s.conn _)
      (by simp [SendWr.wrId, hid]) (by simp [SendWr.wrId, isImmId, hid])
  | write chunk sges addr rkey imm hchunk hopen hroom =>
    have hof : (IdKind.write imm.isSome).Of s.geo s.slotCount
        (if imm.isSome then immWriteWrId chunk else writeWrId chunk) :=
      ⟨chunk, s.geo.sendSlot_lt hchunk.le, rfl⟩
    have hf := hof.facts
    -- the queue has room, so neither counter wraps
    have hlt := sqCount_isWrite_lt hroom
    have hle := sqCount_isImmId_le s.conn
    rw [h.writes] at hlt hle
    rw [h.imms] at hle
    refine h.push (w := .write _ sges addr rkey imm) (sqCount_push s.conn _) ?_ ?_
    · rw [SendWr.wrId, hf.write]
      exact Nat.mod_eq_of_lt hlt
    · rw [SendWr.wrId, hf.imm]
      cases imm with
      | none => rfl
      | some id => exact Nat.mod_eq_of_lt (by omega)
  | _ => exact ⟨h.writes, h.imms⟩

theorem Local.matches {o : Obs} (hl : Local s o t) (hm : s.conn.cq.all Completion.matches = true) :
    t.conn.cq.all Completion.matches = true := by
  cases hl with
  | handle _ wc rest ok hcq hh =>
    have hrest : t.conn.cq = rest := hh.unseen (f := fun u => u.conn.cq)
      ⟨fun _ => rfl, fun _ _ => rfl, fun _ _ _ _ _ => rfl, fun _ _ _ _ _ => rfl⟩
    rw [hcq, List.all_cons, Bool.and_eq_true] at hm
    rw [hrest]
    exact hm.2
  | _ => exact hm

theorem Reaches.counted (h : Reaches s t) (hwf : Wf s) (hm : s.conn.cq.all Completion.matches = true)
    (hc : s.Counted) : t.Counted := by
  obtain ⟨os, hrun⟩ := h
  have hall : Wf t ∧ t.conn.cq.all Completion.matches = true ∧ t.Counted :=
    hrun.inv (I := fun u => Wf u ∧ u.conn.cq.all Completion.matches = true ∧ u.Counted)
      (fun u o v hu hl => ⟨hl.wf hu.1, hl.matches hu.2.1, hl.counted hu.1 hu.2.1 hu.2.2⟩) ⟨hwf, hm, hc⟩
  exact hall.2.2

theorem Env.counted (h : Env s t) (hwf : Wf s) (hc : s.Counted) : t.Counted := by
  have hrq := hwf.rq_facts
  have hwrite : t.conn.sqCount isWrite = s.conn.sqCount isWrite := h.sqCount fun r hr => by
    obtain ⟨v, hf⟩ := hrq r hr
    exact hf.write
  have himm : t.conn.sqCount isImmId = s.conn.sqCount isImmId := h.sqCount fun r hr => by
    obtain ⟨v, hf⟩ := hrq r hr
    exact hf.imm
  obtain ⟨conn, recv, split, send, hs, rfl, -⟩ := h.fields
  exact ⟨hwrite.trans hc.writes, himm.trans hc.imms⟩

theorem Books.counted (h : Books s) (hopen : s.peerClosed = false) : s.Counted :=
  ⟨h.writes.2 hopen, h.imms.2 hopen⟩

/-! The peer's window. Only a gather write takes from it, for its one immediate. -/

/-- Immediates on their way against the window the peer advertised. -/
def HordStream.window (s : HordStream) : Nat × Nat := (s.immOutstanding, s.peerSplitCredits)

def HordStream.InWindow (s : HordStream) : Prop := s.immOutstanding ≤ s.peerSplitCredits

theorem foldl_wrote_imms (ws : List SendWr) (s : HordStream) :
    (ws.foldl HordStream.wrote s).immOutstanding ≤ s.immOutstanding + ws.countP fun w => w.imm.isSome := by
  induction ws generalizing s with
  | nil => exact Nat.le_refl _
  | cons w ws ih =>
    have hrest := ih (s.wrote w)
    have hone : (s.wrote w).immOutstanding ≤ s.immOutstanding + if w.imm.isSome = true then 1 else 0 := by
      show (if w.imm.isSome = true then u32Add s.immOutstanding 1 else s.immOutstanding) ≤ _
      split
      · exact Nat.mod_le _ _
      · exact Nat.le_refl _
    rw [List.foldl_cons, List.countP_cons]
    omega

theorem foldl_wrote_credits (ws : List SendWr) (s : HordStream) :
    (ws.foldl HordStream.wrote s).peerSplitCredits = s.peerSplitCredits := by
  induction ws generalizing s with
  | nil => rfl
  | cons w ws ih => exact ih (s.wrote w)

/-- At most one request of a gather write carries an immediate. -/
theorem writeWrs_immCount (maxSge : Nat) (segments : List WriteSegment) (peerAddr peerRkey : Nat) (imm : Option Nat) :
    (writeWrs maxSge segments peerAddr peerRkey imm).countP (fun w => w.imm.isSome) ≤ imm.isSome.toNat := by
  by_cases hne : writeWrs maxSge segments peerAddr peerRkey imm = []
  · rw [hne]
    exact Nat.zero_le _
  · obtain ⟨init, last, heq, hinit, hlast⟩ := writeWrs_last hne
    have hnone : init.countP (fun w => w.imm.isSome) = 0 := by
      rw [List.countP_eq_zero]
      intro w hw
      rw [hinit w hw]
      decide
    rw [heq, List.countP_append, hnone, List.countP_singleton, hlast]
    cases imm with
    | none => decide
    | some id => exact Nat.le_refl _

theorem Begun.inWindow {segments : List WriteSegment} {peerAddr peerRkey : Nat} {imm : Option Nat}
    {r : Except Fail Unit} (h : Begun s (writeWrs s.conn.maxSendSge segments peerAddr peerRkey imm) imm r t)
    (hs : s.InWindow) : t.InWindow := by
  have hone := writeWrs_immCount s.conn.maxSendSge segments peerAddr peerRkey imm
  generalize writeWrs s.conn.maxSendSge segments peerAddr peerRkey imm = ws at h hone
  -- a part of the requests has no more immediates than all of them
  have posted : ∀ vs : List SendWr, vs.Sublist ws → Admitted s ws imm →
      (vs.foldl HordStream.wrote s).InWindow := by
    intro vs hsub hadm
    have himms := foldl_wrote_imms vs s
    have hle := hsub.countP_le (p := fun w => w.imm.isSome)
    rw [HordStream.InWindow, foldl_wrote_credits]
    rw [HordStream.InWindow] at hs
    cases himm : imm.isSome with
    | true =>
      have hwin := hadm.window himm
      rw [himm, Bool.toNat_true] at hone
      omega
    | false =>
      rw [himm, Bool.toNat_false] at hone
      omega
  match r with
  | .ok () =>
    obtain ⟨⟨rfl, -, -⟩ | hadm, fs, rfl⟩ := h
    · exact hs
    · exact posted ws (List.Sublist.refl _) hadm
  | .error (.io e) =>
    rcases h with ⟨-, rfl⟩ | ⟨-, hadm, k, hk, fs, rfl⟩
    · exact hs
    · exact posted (ws.take k) (List.take_sublist k ws) hadm
  | .error (.panic _) => exact h.elim

theorem Handled.inWindow {wc : Completion} {ok : Bool} (h : Handled s wc ok t) (hs : s.InWindow) : t.InWindow := by
  unfold HordStream.InWindow at hs ⊢
  rcases h.sending (f := HordStream.window) ⟨fun _ => rfl, fun _ _ => rfl, fun _ _ _ _ _ => rfl⟩
    with hsame | hdone | hreclaimed
  · obtain ⟨himm, hcred⟩ := Prod.mk.inj hsame
    rw [himm, hcred]
    exact hs
  · obtain ⟨himm, hcred⟩ := Prod.mk.inj hdone
    rw [himm, hcred]
    show (if isImmWrite wc.wrId = true then s.immOutstanding - 1 else s.immOutstanding) ≤ s.peerSplitCredits
    split
    · omega
    · exact hs
  · obtain ⟨himm, hcred⟩ := Prod.mk.inj hreclaimed
    rw [himm, hcred]
    unfold HordStream.reclaimed
    split
    · exact hs
    · exact hs

theorem Act.run_inWindow {a : Act} (hwf : Wf s) (hs : s.InWindow) : wp a.run s fun _ t => t.InWindow := by
  have quiet : ∀ {x : M Res}, Keeps HordStream.window id x → wp x s fun _ t => t.InWindow := by
    intro x hx
    refine wp_mono (hx s) ?_
    intro r t hr
    have hsame : t.window = s.window := by
      match r with
      | .ok _ => exact hr
      | .error _ => exact hr
    obtain ⟨himm, hcred⟩ := Prod.mk.inj hsame
    rw [HordStream.InWindow, himm, hcred]
    exact hs
  have after : ∀ {α : Type} {x : M α} {k : α → Res}, wp x s (fun _ t => t.InWindow) →
      wp (x >>= fun v => pure (k v)) s fun _ t => t.InWindow := by
    intro α x k hx
    rw [wp_bind]
    refine wp_mono hx ?_
    intro r t ht
    match r with
    | .ok _ => exact ht
    | .error _ => exact ht
  have hsend : UnseenSend HordStream.window id :=
    ⟨fun _ _ => rfl, fun _ _ _ _ _ _ => rfl, fun _ _ => rfl, fun _ _ _ => rfl, fun _ => rfl⟩
  have hread : UnseenRead HordStream.window id :=
    ⟨⟨fun _ _ _ => rfl, fun _ => rfl⟩, fun _ _ => rfl, fun _ _ => rfl⟩
  have hwrite : UnseenWrite HordStream.window id := ⟨hsend, fun _ _ => rfl, fun _ _ _ => rfl, fun _ _ => rfl⟩
  have hdev : UnseenDevice HordStream.window := fun _ _ _ _ _ => rfl
  cases a with
  | tryWrite buf => exact quiet (Act.keeps hwrite)
  | tryFlushStage => exact quiet (Act.keeps hwrite)
  | tryRead n => exact quiet (Act.keeps ⟨hread, hsend⟩)
  | returnOwedCredits urgent => exact quiet (Act.keeps hsend)
  | pump =>
    refine after (wp_mono (pumpOnce_wp hwf) ?_)
    intro r t hr
    match r with
    | .ok true =>
      obtain ⟨fs, wc, rest, -, hh⟩ := hr
      exact hh.inWindow hs
    | .ok false =>
      obtain ⟨-, fs, rfl⟩ := hr
      exact hs
    | .error (.io _) =>
      rcases hr with ⟨fs, -, rfl⟩ | ⟨fs, wc, rest, -, hh⟩
      · exact hs
      · exact hh.inWindow hs
    | .error (.panic _) => exact hr.elim
  | pollCmDisconnect => exact quiet (Act.keeps ⟨hdev, fun _ => rfl⟩)
  | pollCmEvent => exact quiet (Act.keeps ⟨hdev, fun _ => rfl⟩)
  | nextCompletedTransfer => exact quiet (Act.keeps fun _ _ => rfl)
  | beginWrite segments peerAddr peerRkey imm =>
    refine after (wp_mono (beginRdmaWriteGatherInner_wp segments peerAddr peerRkey imm) ?_)
    intro r t hr
    exact hr.2.inWindow hs
  | armCq => exact quiet (Act.keeps hdev.link)
  | disconnect => exact quiet (Act.keeps hdev.link)
  | shutdown => exact quiet (Act.keeps hdev.link)

/-- An established stream's write counters are exact and within the peer's window. -/
def Party.Exact (q : Party) : Prop := q.phase = .up → q.stream.Counted ∧ q.stream.InWindow

theorem Party.Step.exact {p q : Party} {m : Hord.Move} (h : Party.Step p m q) (hok : p.Ok)
    (hm : p.matched = true) (hp : p.Exact) : q.Exact := by
  rw [Party.Ok] at hok
  intro hup
  have hall : p.phase = .up → p.stream.conn.cq.all Completion.matches = true := by
    intro hph
    rw [Party.matched, hph] at hm
    exact hm
  cases h with
  | env t he =>
    have hph : p.phase = .up := hup
    rw [hph] at hok
    obtain ⟨hc, hw⟩ := hp hph
    refine ⟨he.counted hok.1.wf hc, ?_⟩
    obtain ⟨_, _, _, _, _, heq, -⟩ := he.fields
    rw [heq]
    exact hw
  | hello t hph hr => cases hup
  | wait t hph hr =>
    rw [hph] at hup
    cases hup
  | peer t k hph hr => cases hup
  | apply t k hph hr =>
    rw [hph] at hok
    have hi := (hok.1.established hok.2 hr).1
    obtain ⟨-, -, -, -, -, -, himm, -, hopen, -, -⟩ := idle_fields hok.1.idle
    obtain ⟨-, -, watch, fs, rfl⟩ := wp_ok (applyPeer_wp p.stream k) hr
    have himm' : (p.stream.finished k watch fs).immOutstanding = p.stream.immOutstanding := by
      simp only [HordStream.finished]
      split <;> rfl
    have hopen' : (p.stream.finished k watch fs).peerClosed = p.stream.peerClosed := by
      simp only [HordStream.finished]
      split <;> rfl
    refine ⟨hi.books.counted (hopen'.trans hopen), ?_⟩
    rw [HordStream.InWindow, himm', himm]
    exact Nat.zero_le _
  | broke t e hr => cases hup
  | act t a v hph hr =>
    rw [hph] at hok
    obtain ⟨hc, hw⟩ := hp hph
    exact ⟨(Act.run_reaches hok.1 hr).counted hok.1.wf (hall hph) hc,
      wp_ok (Act.run_inWindow hok.1.wf hw) hr⟩
  | actErr t a e hph hr =>
    rw [hph] at hok
    obtain ⟨hc, hw⟩ := hp hph
    exact ⟨(Act.run_reaches_error hok.1 hr).1.counted hok.1.wf (hall hph) hc,
      wp_error (Act.run_inWindow hok.1.wf hw) hr⟩

end Counted

/-- The requests `plan_gather` counts; an immediate without data takes one. -/
def plannedCount (maxSge : Nat) (segments : List WriteSegment) (imm : Option Nat) : Nat :=
  let nData := (plan segments maxSge).length
  if nData = 0 ∧ imm.isSome then 1 else nData

theorem writeWrs_length (maxSge : Nat) (segments : List WriteSegment) (peerAddr peerRkey : Nat) (imm : Option Nat) :
    (writeWrs maxSge segments peerAddr peerRkey imm).length = plannedCount maxSge segments imm := by
  rw [writeWrs, plannedCount]
  generalize plan segments maxSge = ws
  cases ws with
  | nil =>
    cases imm with
    | none => rfl
    | some id => rfl
  | cons w ws =>
    have hne : ¬((w :: ws).length = 0 ∧ imm.isSome = true) := fun h => Nat.succ_ne_zero _ h.1
    rw [if_neg hne]
    exact plannedWrs_length _ _ _ _ _ _

/-- What a gather write has posted when it returns. -/
def BeginPosts (p : Party) (segments : List WriteSegment) (imm : Option Nat) (r : Except Fail Res) (q : Party) :
    Prop :=
  match r with
  | .ok _ => ∃ ws, q.stream.conn.out = p.stream.conn.out ++ ws ∧
      q.stream.conn.await = p.stream.conn.await ∧ q.stream.conn.cq = p.stream.conn.cq ∧
      ws.length = plannedCount p.stream.conn.maxSendSge segments imm ∧
      ∀ init last, ws = init ++ [last] → (∀ w ∈ init, w.imm = none) ∧ last.imm = imm
  | .error (.io e) => e.kind = .wouldBlock ∨ e.kind = .invalidInput → q = p
  | .error (.panic _) => False

theorem beginWrite_begun (segments : List WriteSegment) (peerAddr peerRkey : Nat) (imm : Option Nat) (s : HordStream) :
    wp (Act.beginWrite segments peerAddr peerRkey imm).run s fun r t =>
      Begun s (writeWrs s.conn.maxSendSge segments peerAddr peerRkey imm) imm (r.map fun _ => ()) t := by
  rw [Act.run, wp_bind]
  refine wp_mono (beginRdmaWriteGatherInner_wp segments peerAddr peerRkey imm) ?_
  intro r t hr
  cases r with
  | ok _ => exact hr.2
  | error _ => exact hr.2

theorem Party.Step.begun {p q : Party} {segments : List WriteSegment} {peerAddr peerRkey : Nat} {imm : Option Nat}
    {r : Except Fail Res} (h : Party.Step p (.act (.beginWrite segments peerAddr peerRkey imm) r) q) :
    Begun p.stream (writeWrs p.stream.conn.maxSendSge segments peerAddr peerRkey imm) imm (r.map fun _ => ())
      q.stream := by
  obtain ⟨-, rfl, rfl⟩ := h.outcome
  exact Act.outcome_wp (beginWrite_begun segments peerAddr peerRkey imm p.stream)

theorem begin_posts {p q : Party} {segments : List WriteSegment} {peerAddr peerRkey : Nat} {imm : Option Nat}
    {r : Except Fail Res} (h : Party.Step p (.act (.beginWrite segments peerAddr peerRkey imm) r) q) :
    BeginPosts p segments imm r q := by
  have hlen := writeWrs_length p.stream.conn.maxSendSge segments peerAddr peerRkey imm
  have hlast := @writeWrs_last p.stream.conn.maxSendSge segments peerAddr peerRkey imm
  have hbegun := h.begun
  generalize writeWrs p.stream.conn.maxSendSge segments peerAddr peerRkey imm = ws at hlen hlast hbegun
  cases h with
  | act t a v hph hr =>
    obtain ⟨-, fs, rfl⟩ := hbegun
    have hconn : ((ws.foldl HordStream.wrote p.stream).setFaults fs).conn =
        { p.stream.conn with faults := fs, out := p.stream.conn.out ++ ws } := by
      rw [HordStream.setFaults, foldl_wrote_conn]
    refine ⟨ws, by rw [hconn], by rw [hconn], by rw [hconn], hlen, fun init last heq => ?_⟩
    obtain ⟨init', last', heq', hinit, hl⟩ := hlast (by simp [heq])
    obtain ⟨rfl, rfl⟩ := List.append_singleton_inj.mp (heq.symm.trans heq')
    exact ⟨hinit, hl⟩
  | actErr t a e hph hr =>
    cases e with
    | io e =>
      intro hkind
      rcases hbegun with ⟨-, rfl⟩ | ⟨hother, -⟩
      · rfl
      · rw [hother] at hkind
        rcases hkind with hk | hk <;> cases hk
    | panic _ => exact hbegun.elim

/-- A one-sided write. -/
def SendWr.oneSided : SendWr → Bool
  | .send .. => false
  | .write .. => true

/-- The tags in the id of a posted request tell what it is. -/
theorem SqOk.tags {s : HordStream} {w : SendWr} (h : SqOk s.geo s.payloadCap w) :
    isWrite w.wrId = w.oneSided ∧ isImmId w.wrId = w.imm.isSome := by
  cases h with
  | data slot len hslot =>
    have hid := (sendWrId_kind (s.geo.sendSlot_lt hslot.le)).2.2
    exact ⟨hid, by simp [SendWr.wrId, SendWr.imm, isImmId, hid]⟩
  | ctrl =>
    have hid := (ctrlSendWrId_kind (s.geo.sendSlot_lt s.geo.ctrlSlot_eq.le)).2.2
    exact ⟨hid, by simp [SendWr.wrId, SendWr.imm, isImmId, hid]⟩
  | write chunk sges addr rkey imm hchunk =>
    have hof : (IdKind.write imm.isSome).Of s.geo s.slotCount
        (if imm.isSome then immWriteWrId chunk else writeWrId chunk) :=
      ⟨chunk, s.geo.sendSlot_lt hchunk.le, rfl⟩
    exact ⟨hof.facts.write, hof.facts.imm⟩

/-- In every run whose completions carry the opcode of their request, the two counters are
    the numbers of writes and of immediates posted and not yet completed; these fit the
    peer's window, and no completion finds a counter at zero. A gather write refused with
    `WouldBlock` or `InvalidInput` leaves everything as it was, and one that returns has
    posted what was planned, the immediate last. -/
theorem writes_accounted {p q : Party} {ms : List Hord.Move} (hinit : p.Init)
    (hrun : Run (fun p m q => Party.Step p m q ∧ p.matched = true) p ms q) (hup : q.phase = .up) :
    (∀ w ∈ q.stream.conn.out ++ q.stream.conn.await,
      isWrite w.wrId = w.oneSided ∧ isImmId w.wrId = w.imm.isSome) ∧
    q.stream.conn.sqCount isWrite = q.stream.writesOutstanding ∧
    q.stream.conn.sqCount isImmId = q.stream.immOutstanding ∧
    q.stream.immOutstanding ≤ q.stream.writesOutstanding ∧
    q.stream.immOutstanding ≤ q.stream.peerSplitCredits ∧
    (∀ wc ∈ q.stream.conn.cq, isWrite wc.wrId = true → 0 < q.stream.writesOutstanding ∧
      (isImmWrite wc.wrId = true → 0 < q.stream.immOutstanding)) ∧
    ∀ (segments : List WriteSegment) (peerAddr peerRkey : Nat) (imm : Option Nat) (r : Except Fail Res)
      (q' : Party), Party.Step q (.act (.beginWrite segments peerAddr peerRkey imm) r) q' →
      BeginPosts q segments imm r q' := by
  have hinv : q.Ok ∧ q.Exact := by
    refine hrun.inv (I := fun u => u.Ok ∧ u.Exact)
      (fun u m v hu hs => ⟨hs.1.ok hu.1, hs.1.exact hu.1 hs.2 hu.2⟩) ⟨hinit.ok, fun hf => ?_⟩
    rw [hinit.1] at hf
    cases hf
  obtain ⟨hok, hexact⟩ := hinv
  obtain ⟨hc, hwin⟩ := hexact hup
  rw [Party.Ok, hup] at hok
  refine ⟨fun w hw => (hok.1.wf.sq w hw).tags, hc.writes, hc.imms, ?_, hwin, fun wc hwc hw => ⟨?_, fun himm => ?_⟩,
    fun segments peerAddr peerRkey imm r q' hstep => begin_posts hstep⟩
  · rw [← hc.writes, ← hc.imms]
    exact sqCount_isImmId_le _
  · rw [← hc.writes, sqCount_eq, List.countP_pos_iff]
    exact ⟨wc.wrId, List.mem_append_right _ (List.mem_map_of_mem hwc), hw⟩
  · rw [← hc.imms, sqCount_eq, List.countP_pos_iff]
    exact ⟨wc.wrId, List.mem_append_right _ (List.mem_map_of_mem hwc), by simp [isImmId, hw, himm]⟩

/-- Two writes posted, the first one failed. -/
theorem writes_accounted_two : ∃ p ms q, p.Init ∧
    Run (fun p m q => Party.Step p m q ∧ p.matched = true) p ms q ∧ q.phase = .up ∧
    q.stream.peerClosed = true ∧ q.stream.writesOutstanding = 1 ∧ q.stream.conn.sqCount isWrite = 1 := by
  obtain ⟨p, ms, q, hinit, hrun, hq⟩ := Party.launch_run (fun p _ => p.matched) threeConfig
    (threeSetup ++ [.act (.beginWrite [⟨0, 0, 4⟩] 0 0 none), .act (.beginWrite [⟨0, 0, 4⟩] 0 0 none), .carry,
      .reap (failedWrite .rdmaWrite), .act .pump])
    (fun q => q.phase = .up && q.stream.peerClosed && q.stream.writesOutstanding == 1) (by decide +kernel)
  simp only [Bool.and_eq_true, decide_eq_true_eq, beq_iff_eq] at hq
  have hw := (writes_accounted hinit hrun hq.1.1).2.1
  exact ⟨p, ms, q, hinit, hrun, hq.1.1, hq.1.2, hq.2, hw.trans hq.2⟩

/-- With one write outstanding and every slot taken by a data message, the next gather write
    finds fewer slots free than writes outstanding: the subtraction of
    `check_write_capacity` saturates. -/
theorem admission_saturates : ¬∀ (p q : Party) (ms : List Hord.Move), p.Init →
    Run (fun p m q => Party.Step p m q ∧ p.matched = true) p ms q → q.phase = .up →
    ∀ (segments : List WriteSegment) (peerAddr peerRkey : Nat) (imm : Option Nat) (r : Except Fail Res)
      (q' : Party), Party.Step q (.act (.beginWrite segments peerAddr peerRkey imm) r) q' →
      q.stream.writesOutstanding ≤ q.stream.sendFree.length := by
  intro h
  obtain ⟨p, ms, q, hinit, hrun, hq⟩ := Party.launch_run (fun p _ => p.matched) threeConfig
    (threeSetup ++ [.act (.beginWrite [⟨0, 0, 4⟩] 0 0 none), .act (.tryWrite (List.replicate 24 7))])
    (fun q => q.phase = .up && q.stream.writesOutstanding == 1 && q.stream.sendFree.length == 0)
    (by decide +kernel)
  simp only [Bool.and_eq_true, decide_eq_true_eq, beq_iff_eq] at hq
  have hstep := Act.outcome_step (.beginWrite [⟨0, 0, 4⟩] 0 0 none) hq.1.1
  have hle := h p q ms hinit hrun hq.1.1 _ _ _ _ _ _ hstep
  omega

end Hord
