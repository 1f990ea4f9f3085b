import Hord.Local

/- Every call on an established stream is a run of `Local` steps. The `_wp` lemmas
   execute the primitives (`dev`, `attempt`, the posts); the `_path` theorems
   give, for each call, the run it makes, whether it returns or fails, and what
   that run shows: the bytes accepted, the bytes copied out, the transfers taken. -/
namespace Hord

open Region Prog Transition

section Primitives
variable {α : Type} {s : HordStream}

@[simp]
theorem dev_wp (x : DevM α) (s : HordStream) (Q : Except Fail α → HordStream → Prop) :
    wp (dev x) s Q ↔ wp x s.conn fun r c => Q r { s with conn := c } := by
  unfold wp dev
  cases x s.conn <;> rfl

@[simp]
theorem attempt_wp (x : M α) (s : HordStream) (Q : Except Fail (Except IoError α) → HordStream → Prop) :
    wp (attempt x) s Q ↔ wp x s fun r t => match r with
      | .ok a => Q (.ok (.ok a)) t
      | .error (.io e) => Q (.ok (.error e)) t
      | .error (.panic m) => Q (.error (.panic m)) t := by
  unfold wp attempt
  cases x s with
  | ok a t => rfl
  | error e t => cases e <;> rfl

theorem deviceCall_wp {c : Connection} {Q : Except Fail Unit → Connection → Prop}
    (hok : ∀ fs, Q (.ok ()) { c with faults := fs })
    (herr : ∀ fs, c.faults = true :: fs →
      Q (.error (.other "device call failed")) { c with faults := fs }) :
    wp Connection.deviceCall c Q := by
  unfold wp Connection.deviceCall
  cases hf : c.faults with
  | nil =>
    have := hok []
    rwa [← hf] at this
  | cons f fs =>
    cases f with
    | true => exact herr fs hf
    | false => exact hok fs

theorem withQp_wp {f : DevM α} {c : Connection} {Q : Except Fail α → Connection → Prop}
    (hf : wp f c Q) (hdown : Q (.error (.other "connection has been shut down")) c) :
    wp (Connection.withQp f) c Q := by
  unfold wp Connection.withQp at *
  cases c.qp
  · exact hdown
  · exact hf

/-- A refused post changes nothing but the fault oracle. -/
theorem postRecv_wp {c : Connection} {w : RecvWr} {Q : Except Fail Unit → Connection → Prop}
    (hok : ∀ fs, Q (.ok ()) { c with faults := fs, rq := c.rq ++ [w] })
    (herr : ∀ fs e, Q (.error (.io e)) { c with faults := fs }) :
    wp (Connection.postRecv w) c Q := by
  refine withQp_wp ?_ (herr c.faults _)
  simp only [wp_bind, wp_modify]
  exact deviceCall_wp (fun fs => hok fs) (fun fs _ => herr fs _)

theorem postSend_wp {c : Connection} {w : SendWr} {Q : Except Fail Unit → Connection → Prop}
    (hok : ∀ fs, c.sqUsed < sqLimit → Q (.ok ()) { c with faults := fs, out := c.out ++ [w] })
    (herr : ∀ fs m, Q (.error (.other m)) { c with faults := fs }) :
    wp (Connection.postSend w) c Q := by
  refine withQp_wp ?_ (herr c.faults _)
  simp only [wp_bind, wp_get, wp_ite]
  refine deviceCall_wp (fun fs => ?_) (fun fs _ => herr fs _)
  change if c.sqUsed < sqLimit then _ else _
  split
  · next hroom => exact hok fs hroom
  · exact herr fs _

theorem poll_wp {c : Connection} {Q : Except Fail (Option Completion) → Connection → Prop}
    (hempty : ∀ fs, c.cq = [] → Q (.ok none) { c with faults := fs })
    (hsome : ∀ fs wc rest, c.cq = wc :: rest → Q (.ok (some wc)) { c with faults := fs, cq := rest })
    (herr : ∀ fs e, c.faults = true :: fs → Q (.error (.io e)) { c with faults := fs }) :
    wp Connection.poll c Q := by
  simp only [Connection.poll, wp_bind, wp_get]
  refine deviceCall_wp (fun fs => ?_) (fun fs hf => herr fs _ hf)
  cases hcq : c.cq with
  | nil =>
    have := hempty fs hcq
    simpa [hcq] using this
  | cons wc rest =>
    simp only [wp_bind, wp_set, wp_pure]
    exact hsome fs wc rest hcq

theorem checkDisconnect_wp {c : Connection} {Q : Except Fail Bool → Connection → Prop}
    (hempty : ∀ fs, c.cmq = [] → Q (.ok false) { c with faults := fs })
    (hsome : ∀ fs e rest, c.cmq = e :: rest → Q (.ok e.gone) { c with faults := fs, cmq := rest })
    (herr : ∀ fs e, c.faults = true :: fs → Q (.error (.io e)) { c with faults := fs }) :
    wp Connection.checkDisconnect c Q := by
  simp only [Connection.checkDisconnect, wp_bind, wp_get]
  refine deviceCall_wp (fun fs => ?_) (fun fs hf => herr fs _ hf)
  cases hcm : c.cmq with
  | nil =>
    have := hempty fs hcm
    simpa [hcm] using this
  | cons e rest =>
    simp only [wp_bind, wp_set, wp_pure]
    exact hsome fs e rest hcm

theorem recvSlot_wp {slot : Nat} (hs : slot < s.slotCount) {Q : Except Fail (Mr × Nat) → HordStream → Prop}
    (h : Q (.ok (s.geo.place slot)) s) : wp (recvSlot slot) s Q := by
  simp only [recvSlot, wp_bind, wp_get, wp_ite, if_pos (slot_resolves hs), wp_pure]
  exact h

theorem postRecvSlot_wp {slot : Nat} (hs : slot < s.slotCount) {Q : Except Fail Unit → HordStream → Prop}
    (hok : ∀ fs, Q (.ok ()) ((s.setFaults fs).pushRq (s.geo.slotWr slot)))
    (herr : ∀ fs e, Q (.error (.io e)) (s.setFaults fs).close) :
    wp (postRecvSlot slot) s Q := by
  simp only [postRecvSlot, wp_bind]
  refine recvSlot_wp hs ?_
  simp only [wp_bind, wp_get, attempt_wp, dev_wp]
  refine postRecv_wp (fun fs => hok fs) (fun fs e => ?_)
  simp only [markClosed, wp_modify, wp_throw]
  exact herr fs e

theorem copyOut_wp {buf : Bytes} {off n : Nat} (h : off + n ≤ buf.length)
    {Q : Except Fail Bytes → HordStream → Prop} (hq : Q (.ok (readAt buf off n)) s) :
    wp (copyOut buf off n) s Q := by
  simp only [copyOut, wp_ite]
  rw [if_pos ⟨by omega, by omega⟩]
  exact hq

theorem copyIn_wp {buf src : Bytes} {off : Nat} (h : off + src.length ≤ buf.length)
    {Q : Except Fail Bytes → HordStream → Prop} (hq : Q (.ok (writeAt buf off src)) s) :
    wp (copyIn buf off src) s Q := by
  simp only [copyIn, wp_ite]
  rw [if_pos ⟨by omega, by omega⟩]
  exact hq

/-- The send region once a message is laid down in a slot. -/
def HordStream.stamped (s : HordStream) (slot : Nat) (env : Envelope) (payload : Bytes) : HordStream :=
  { s with send := writeAt (writeAt s.send (slot * s.geo.msgSize) env.encode)
                     (slot * s.geo.msgSize + envelopeLen) payload }

theorem postInto_wp {slot wrId : Nat} {env : Envelope} {payload : Bytes}
    (hin : slot * s.geo.msgSize + s.geo.msgSize ≤ s.send.length)
    (hfit : envelopeLen + payload.length ≤ s.geo.msgSize)
    {Q : Except Fail Unit → HordStream → Prop}
    (hok : ∀ fs, s.conn.sqUsed < sqLimit → Q (.ok ()) (((s.stamped slot env payload).setFaults fs).pushOut
      (.send wrId .send (slot * s.geo.msgSize) ((envelopeLen + payload.length) % 2 ^ 32))))
    (herr : ∀ fs e, Q (.error (.io e)) ((s.stamped slot env payload).setFaults fs)) :
    wp (postInto slot wrId env payload) s Q := by
  have henv := env.encode_length
  simp only [postInto, wp_bind, wp_get]
  refine copyIn_wp (by omega) ?_
  simp only [wp_modify]
  refine copyIn_wp (by rw [length_writeAt (by omega)]; omega) ?_
  simp only [dev_wp]
  exact postSend_wp (fun fs hroom => hok fs hroom) (fun fs m => herr fs _)

end Primitives

/-! Runs and what they show. -/

def acceptedOf : List Obs → Bytes
  | [] => []
  | .staged bs :: os => bs ++ acceptedOf os
  | .posted extra :: os => extra ++ acceptedOf os
  | _ :: os => acceptedOf os

def copiedOf : List Obs → Bytes
  | [] => []
  | .copied bs :: os => bs ++ copiedOf os
  | _ :: os => copiedOf os

def transfersOf : List Obs → List Nat
  | [] => []
  | .transfer id :: os => id :: transfersOf os
  | _ :: os => transfersOf os

/-- Nothing staged or received was lost on the way. -/
def NoLoss (os : List Obs) : Prop := ∀ o ∈ os, o ≠ .lost ∧ ∀ bs, o ≠ .dropped bs

theorem acceptedOf_append (os ps : List Obs) :
    acceptedOf (os ++ ps) = acceptedOf os ++ acceptedOf ps := by
  induction os with
  | nil => rfl
  | cons o os ih => cases o <;> simp [acceptedOf, ih]

theorem copiedOf_append (os ps : List Obs) : copiedOf (os ++ ps) = copiedOf os ++ copiedOf ps := by
  induction os with
  | nil => rfl
  | cons o os ih => cases o <;> simp [copiedOf, ih]

theorem transfersOf_append (os ps : List Obs) :
    transfersOf (os ++ ps) = transfersOf os ++ transfersOf ps := by
  induction os with
  | nil => rfl
  | cons o os ih => cases o <;> simp [transfersOf, ih]

/-- `t` is reached from `s` by elementary changes that lose nothing, accept
    `acc`, copy out `cop` and take the transfers `ids`. -/
def Clean (s t : HordStream) (acc cop : Bytes) (ids : List Nat) : Prop :=
  ∃ os, Run Local s os t ∧ acceptedOf os = acc ∧ copiedOf os = cop ∧ transfersOf os = ids ∧ NoLoss os

/-- `t` is reached from `s` by elementary changes. -/
def Reaches (s t : HordStream) : Prop := ∃ os, Run Local s os t

namespace Clean
variable {s t u : HordStream} {acc acc' cop cop' : Bytes} {ids ids' : List Nat}

theorem refl (s : HordStream) : Clean s s [] [] [] :=
  ⟨[], .nil s, rfl, rfl, rfl, by simp [NoLoss]⟩

theorem trans (h₁ : Clean s t acc cop ids) (h₂ : Clean t u acc' cop' ids') :
    Clean s u (acc ++ acc') (cop ++ cop') (ids ++ ids') := by
  obtain ⟨os, hr, rfl, rfl, rfl, hn⟩ := h₁
  obtain ⟨ps, hr', rfl, rfl, rfl, hn'⟩ := h₂
  refine ⟨os ++ ps, hr.append hr', acceptedOf_append os ps, copiedOf_append os ps,
    transfersOf_append os ps, fun o ho => ?_⟩
  rcases List.mem_append.mp ho with ho | ho
  · exact hn o ho
  · exact hn' o ho

theorem silent (h : Local s .silent t) : Clean s t [] [] [] :=
  ⟨[.silent], .single h, rfl, rfl, rfl, by simp [NoLoss]⟩

theorem tick (s : HordStream) (fs : List Bool) : Clean s (s.setFaults fs) [] [] [] :=
  silent (.tick s fs)

/-- A run that shows nothing, followed by one that does. -/
theorem after (h₁ : Clean s t [] [] []) (h₂ : Clean t u acc cop ids) : Clean s u acc cop ids := by
  simpa using h₁.trans h₂

/-- A run followed by one that shows nothing. -/
theorem before (h₁ : Clean s t acc cop ids) (h₂ : Clean t u [] [] []) : Clean s u acc cop ids := by
  simpa using h₁.trans h₂

theorem reaches (h : Clean s t acc cop ids) : Reaches s t := by
  obtain ⟨os, hr, -⟩ := h
  exact ⟨os, hr⟩

theorem wf (h : Clean s t acc cop ids) (hwf : Wf s) : Wf t := by
  obtain ⟨os, hr, -⟩ := h
  exact hr.inv (fun _ _ _ hi hl => hl.wf hi) hwf

end Clean

namespace Reaches
variable {s t u : HordStream} {o : Obs}

theorem refl (s : HordStream) : Reaches s s := ⟨[], .nil s⟩

theorem trans (h₁ : Reaches s t) (h₂ : Reaches t u) : Reaches s u := by
  obtain ⟨os, hr⟩ := h₁
  obtain ⟨ps, hr'⟩ := h₂
  exact ⟨os ++ ps, hr.append hr'⟩

theorem single (h : Local s o t) : Reaches s t := ⟨[o], .single h⟩

theorem wf (h : Reaches s t) (hwf : Wf s) : Wf t := by
  obtain ⟨os, hr⟩ := h
  exact hr.inv (fun _ _ _ hi hl => hl.wf hi) hwf

end Reaches

/-! Completions. -/

section Completions
variable {s t : HordStream} {wc : Completion}

/-- What `handle_completion` may leave: one of the `Handled` outcomes, up to the
    fault oracle. -/
def HandledBy (s : HordStream) (wc : Completion) (r : Except Fail Unit) (t : HordStream) : Prop :=
  match r with
  | .ok () => ∃ fs, Handled (s.setFaults fs) wc true t
  | .error (.io _) => ∃ fs, Handled (s.setFaults fs) wc false t
  | .error (.panic _) => False

/-- An outcome that drew no fault. -/
theorem HandledBy.now (h : Handled s wc true t) : HandledBy s wc (.ok ()) t := ⟨s.conn.faults, h⟩

/-- The receive branch holds, re-posts or rejects the message. -/
theorem handleRecv_wp (hwf : Wf s) (hwc : WcOk s.geo s.slotCount wc)
    (hop : wc.opcode ≠ .recvRdmaWithImm) (hw : isWrite wc.wrId = false)
    (hok : wc.isSuccess = true) (hs : isSend wc.wrId = false) :
    wp (handleRecv wc) s (HandledBy s wc) := by
  have hslot : slotOf wc.wrId < s.slotCount := hwc.slot hwf hs hw
  have hin := hwf.slot_in hslot
  have henv := s.geo.envelope_lt
  simp only [handleRecv, wp_bind]
  refine recvSlot_wp hslot ?_
  simp only [wp_bind, wp_get, wp_ite]
  split
  · next hn => exact ⟨s.conn.faults, .runt hop hw hok hs hn⟩
  · next hn =>
    have hn' : envelopeLen ≤ min wc.byteLen s.geo.msgSize := Nat.le_of_not_lt hn
    refine copyOut_wp (by omega) ?_
    simp only [wp_modify]
    change if 0 < s.payloadLen wc then _ else _
    split
    · next hp => exact .now (.held hop hw hok hs hn' hp)
    · next hp =>
      have hp' : s.payloadLen wc = 0 := Nat.eq_zero_of_not_pos hp
      split
      · next hc =>
        exact postRecvSlot_wp (s := s.granted wc) hslot
          (fun fs => ⟨fs, .credit hop hw hok hs hn' hc⟩)
          (fun fs e => ⟨fs, .emptyLost hop hw hok hs hn' hp'⟩)
      · next hc =>
        refine postRecvSlot_wp (s := s.granted wc) hslot (fun fs => ?_)
          (fun fs e => ⟨fs, .emptyLost hop hw hok hs hn' hp'⟩)
        exact ⟨fs, .zero hop hw hok hs hn' (eq_false_of_ne_true hc) hp'⟩

theorem handleCompletion_wp (hwf : Wf s) (hwc : WcOk s.geo s.slotCount wc) :
    wp (handleCompletion wc) s (HandledBy s wc) := by
  simp only [handleCompletion, wp_ite]
  split
  · next hop =>
    cases hok : wc.isSuccess with
    | false => exact ⟨s.conn.faults, .immFailed hop hok⟩
    | true =>
      have hslot : slotOf wc.wrId < s.slotCount := hwc.imm_slot hwf hok hop
      simp only [Bool.not_true, Bool.false_eq_true, if_false, wp_bind, wp_modify]
      exact postRecvSlot_wp (s := s.pushTransfer wc.immData) hslot
        (fun fs => ⟨fs, .imm hop hok⟩) (fun fs e => ⟨fs, .immLost hop hok⟩)
  · next hop =>
    split
    · next hw =>
      cases hok : wc.isSuccess with
      | false =>
        have h := Handled.writeFailed (s := s) hop hw hok
        cases hi : isImmWrite wc.wrId <;>
          simp only [HordStream.writeDone, hi] at h <;>
          simpa [markClosed] using ⟨s.conn.faults, h⟩
      | true =>
        have h := Handled.write (s := s) hop hw hok
        cases hi : isImmWrite wc.wrId <;>
          simp only [HordStream.writeDone, hi] at h <;>
          simpa using ⟨s.conn.faults, h⟩
    · next hw =>
      have hw' : isWrite wc.wrId = false := by simpa using hw
      cases hok : wc.isSuccess with
      | false =>
        have h := Handled.failed (s := s) hop hw' hok
        cases hs : isSend wc.wrId with
        | false =>
          simp only [hs] at h
          simpa [markClosed] using ⟨s.conn.faults, h⟩
        | true =>
          simp only [hs, if_true, HordStream.reclaimed] at h
          cases hc : isCtrlSend wc.wrId <;>
            simp only [hc] at h <;>
            simpa [markClosed, reclaimSend, hc] using ⟨s.conn.faults, h⟩
      | true =>
        simp only [Bool.not_true, Bool.false_eq_true, if_false]
        split
        · next hs =>
          have h := Handled.sent (s := s) hop hw' hok hs
          simp only [HordStream.reclaimed] at h
          cases hc : isCtrlSend wc.wrId <;>
            simp only [hc] at h <;>
            simpa [reclaimSend, hc] using ⟨s.conn.faults, h⟩
        · next hs => exact handleRecv_wp hwf hwc hop hw' hok (by simpa using hs)

/-- What one round of the completion loop may do: nothing on an empty queue,
    or handle the oldest completion; it fails with the poll or with the handler. -/
def Pumped (s : HordStream) (r : Except Fail Bool) (t : HordStream) : Prop :=
  match r with
  | .ok true => ∃ fs wc rest, s.conn.cq = wc :: rest ∧
      Handled ((s.setCq rest).setFaults fs) wc true t
  | .ok false => s.conn.cq = [] ∧ ∃ fs, t = s.setFaults fs
  | .error (.io _) => (∃ fs, s.conn.faults = true :: fs ∧ t = s.setFaults fs) ∨
      ∃ fs wc rest, s.conn.cq = wc :: rest ∧ Handled ((s.setCq rest).setFaults fs) wc false t
  | .error (.panic _) => False

theorem pumpOnce_wp (hwf : Wf s) : wp pumpOnce s (Pumped s) := by
  simp only [pumpOnce, wp_bind, dev_wp]
  refine poll_wp (fun fs he => ?_) (fun fs wc rest hcq => ?_) (fun fs e hf => .inl ⟨fs, hf, rfl⟩)
  · exact ⟨he, fs, rfl⟩
  · have hrest : Wf ((s.setCq rest).setFaults fs) :=
      { hwf with cq := fun v hv => hwf.cq v (by rw [hcq]; exact List.mem_cons_of_mem _ hv) }
    have hwc : WcOk s.geo s.slotCount wc := hwf.cq wc (by rw [hcq]; exact List.mem_cons_self ..)
    simp only [wp_bind]
    refine wp_mono (handleCompletion_wp hrest hwc) ?_
    intro r t hr
    cases r with
    | ok _ =>
      obtain ⟨gs, hh⟩ := hr
      exact ⟨gs, wc, rest, hcq, hh⟩
    | error e =>
      cases e with
      | io e =>
        obtain ⟨gs, hh⟩ := hr
        exact .inr ⟨gs, wc, rest, hcq, hh⟩
      | panic m => exact hr.elim

/-- Handling the oldest completion is one elementary change after the oracle's. -/
theorem clean_handle {ok : Bool} {t : HordStream} {fs : List Bool} {rest : List Completion}
    (hcq : s.conn.cq = wc :: rest) (h : Handled ((s.setCq rest).setFaults fs) wc ok t) :
    Clean s t [] [] [] := by
  refine (Clean.tick s fs).after ⟨[.handled wc], .single ?_, rfl, rfl, rfl, by simp [NoLoss]⟩
  exact .handle (s.setFaults fs) t wc rest ok hcq h

theorem Pumped.clean {r : Except Fail Bool} {t : HordStream} (h : Pumped s r t) :
    Clean s t [] [] [] := by
  match r with
  | .ok true =>
    obtain ⟨fs, wc, rest, hcq, hh⟩ := h
    exact clean_handle hcq hh
  | .ok false =>
    obtain ⟨-, fs, rfl⟩ := h
    exact .tick s fs
  | .error (.io _) =>
    rcases h with ⟨fs, -, rfl⟩ | ⟨fs, wc, rest, hcq, hh⟩
    · exact .tick s fs
    · exact clean_handle hcq hh
  | .error (.panic _) => exact h.elim

theorem pollCmDisconnect_path (s : HordStream) : wp pollCmDisconnect s fun r t =>
    Clean s t [] [] [] ∧ ∀ m, r ≠ .error (.panic m) := by
  simp only [pollCmDisconnect, wp_bind, wp_get, wp_ite, dev_wp]
  split
  · exact ⟨.refl s, by simp⟩
  · refine checkDisconnect_wp (fun fs _ => ⟨.tick s fs, by simp⟩) (fun fs e rest hcm => ?_)
      (fun fs e _ => ⟨.tick s fs, by simp⟩)
    have hcm' : Clean s { s with conn := { s.conn with faults := fs, cmq := rest } } [] [] [] :=
      (Clean.tick s fs).after
        ⟨[.cm e], .single (.cm (s.setFaults fs) e rest hcm), rfl, rfl, rfl, by simp [NoLoss]⟩
    cases hg : e.gone with
    | true =>
      simp only [markClosed, if_true, wp_modify, wp_pure]
      exact ⟨hcm'.after (.silent (.close _)), by simp⟩
    | false => exact ⟨hcm', by simp⟩

end Completions

/-! Sending. -/

section Sending
variable {s : HordStream}

/-- A message laid down in a slot is read back whole. -/
theorem readAt_stamped {slot : Nat} (env : Envelope) {payload : Bytes}
    (hin : slot * s.geo.msgSize + s.geo.msgSize ≤ s.send.length)
    (hfit : envelopeLen + payload.length ≤ s.geo.msgSize) :
    readAt (s.stamped slot env payload).send (slot * s.geo.msgSize) (envelopeLen + payload.length) =
      env.encode ++ payload := by
  have henv := env.encode_length
  have hlen : (writeAt s.send (slot * s.geo.msgSize) env.encode).length = s.send.length :=
    length_writeAt (by omega)
  rw [readAt_add, HordStream.stamped, readAt_writeAt_same (by omega),
    readAt_writeAt_disjoint (by omega) (.inl (Nat.le_refl _)), ← henv,
    readAt_writeAt_same (by omega)]

/-- Laying a message down in a free slot shows nothing. -/
theorem clean_stamped (hopen : s.peerClosed = false) {slot : Nat} (env : Envelope)
    {payload : Bytes} (hslot : slot ∈ s.sendFree ∨ slot = s.geo.ctrlSlot ∧ s.ctrlSendBusy = false)
    (hfit : envelopeLen + payload.length ≤ s.geo.msgSize) (fs : List Bool) :
    Clean s ((s.stamped slot env payload).setFaults fs) [] [] [] := by
  have henv := env.encode_length
  have h1 := Clean.silent (.scribble s slot 0 env.encode hslot (by omega) hopen)
  have h2 := Clean.silent (.scribble { s with send := writeAt s.send (slot * s.geo.msgSize) env.encode }
    slot envelopeLen payload hslot (by simpa using hfit) hopen)
  exact (h1.after h2).after (.tick (s.stamped slot env payload) fs)

theorem canSendData_iff : s.canSendData = true ↔
    s.peerClosed = false ∧ s.sendFree ≠ [] ∧ 0 < s.sendCredits := by
  simp [HordStream.canSendData, and_assoc]

/-- A data message: the stage and `extra` are sent, or the stream is closed. -/
theorem postDataMessage_wp (hwf : Wf s) (hcan : s.canSendData = true) (extra : Bytes)
    (hne : s.txStage ++ extra ≠ []) (hcap : (s.txStage ++ extra).length ≤ s.payloadCap) :
    wp (postDataMessage (s.txStage ++ extra)) { s with txStage := [] } fun r t =>
      match r with
      | .ok () => Clean s t extra [] [] ∧ t.txStage = [] ∧ t.payloadCap = s.payloadCap
      | .error (.io _) => Reaches s t ∧ t.peerClosed = true
      | .error (.panic _) => False := by
  obtain ⟨hopen, hfree, hcred⟩ := canSendData_iff.mp hcan
  obtain ⟨slot, rest, hsf⟩ := List.exists_cons_of_ne_nil hfree
  have hmem : slot ∈ s.sendFree := by rw [hsf]; exact List.mem_cons_self ..
  have hin := hwf.sendSlot_in (hwf.free_lt slot hmem).le
  have hfit : envelopeLen + (s.txStage ++ extra).length ≤ s.geo.msgSize := by
    have := hwf.cap_fits
    omega
  have hread := readAt_stamped (s.stamp (s.txStage ++ extra).length 0) hin hfit
  simp only [postDataMessage, wp_bind, wp_get, hsf, wp_set, attempt_wp]
  refine postInto_wp (s := { s with txStage := [], sendFree := rest }) hin hfit
    (fun fs hroom => ?_) (fun fs e => ?_)
  · have hstamp := clean_stamped hopen (s.stamp (s.txStage ++ extra).length 0) (.inl hmem)
      hfit fs
    refine ⟨hstamp.after ⟨[.posted extra], .single ?_, by simp [acceptedOf], rfl, rfl,
      by simp [NoLoss]⟩, rfl, rfl⟩
    exact .post ((s.stamped slot (s.stamp (s.txStage ++ extra).length 0)
      (s.txStage ++ extra)).setFaults fs) slot rest extra hopen hroom hcred hsf hne hcap hread
  · have hstamp := clean_stamped hopen (s.stamp (s.txStage ++ extra).length 0) (.inl hmem)
      hfit fs
    simp only [wp_modify, wp_throw]
    refine ⟨?_, trivial⟩
    have hclose := (hstamp.after (.silent (.close _))).reaches.trans (.single (.lose _ rfl))
    simp only [HordStream.close, HordStream.setFaults, HordStream.stamped, hsf] at hclose
    exact hclose

theorem sendCreditReturn_path (hwf : Wf s) :
    wp sendCreditReturn s fun r t =>
      match r with
      | .ok () => Clean s t [] [] [] ∧ t.txStage = s.txStage ∧ t.payloadCap = s.payloadCap
      | .error (.io _) => Clean s t [] [] [] ∧ t.peerClosed = true
      | .error (.panic _) => False := by
  simp only [sendCreditReturn, wp_bind, wp_get, wp_ite, attempt_wp]
  split
  · exact ⟨.refl s, rfl, rfl⟩
  · next hgo =>
    simp only [not_or, Bool.not_eq_true] at hgo
    obtain ⟨hbusy, hopen, howed⟩ := hgo
    have hin := hwf.sendSlot_in s.geo.ctrlSlot_eq.le
    have hfit : envelopeLen + ([] : Bytes).length ≤ s.geo.msgSize := by
      have := s.geo.envelope_lt
      simpa using this.le
    have hread := readAt_stamped (s.stamp 0 creditOnly) hin hfit
    rw [List.append_nil] at hread
    refine postInto_wp hin hfit (fun fs hroom => ?_) (fun fs e => ?_)
    · have hstamp := clean_stamped hopen (s.stamp 0 creditOnly) (.inr ⟨rfl, hbusy⟩) hfit fs
      refine ⟨hstamp.after (.silent ?_), rfl, rfl⟩
      exact .ctrl ((s.stamped s.geo.ctrlSlot (s.stamp 0 creditOnly) []).setFaults fs) hopen hroom hbusy
        (Nat.pos_of_ne_zero howed) hread
    · have hstamp := clean_stamped hopen (s.stamp 0 creditOnly) (.inr ⟨rfl, hbusy⟩) hfit fs
      simp only [markClosed, wp_modify, wp_throw]
      exact ⟨hstamp.after (.silent (.close _)), trivial⟩

theorem maybeReturnCredits_path (threshold : Nat) (hwf : Wf s) :
    wp (maybeReturnCredits threshold) s fun r t =>
      match r with
      | .ok () => Clean s t [] [] [] ∧ t.txStage = s.txStage ∧ t.payloadCap = s.payloadCap
      | .error (.io _) => Clean s t [] [] [] ∧ t.peerClosed = true
      | .error (.panic _) => False := by
  simp only [maybeReturnCredits, wp_bind, wp_get, wp_ite]
  split
  · exact sendCreditReturn_path hwf
  · exact ⟨.refl s, rfl, rfl⟩

theorem returnOwedCredits_path (urgent : Bool) (hwf : Wf s) :
    wp (returnOwedCredits urgent) s fun r t =>
      match r with
      | .ok () => Clean s t [] [] []
      | .error (.io _) => Clean s t [] [] [] ∧ t.peerClosed = true
      | .error (.panic _) => False := by
  simp only [returnOwedCredits, wp_bind, wp_get]
  refine wp_mono (maybeReturnCredits_path _ hwf) ?_
  intro r t hr
  cases r with
  | ok _ => exact hr.1
  | error e =>
    cases e with
    | io _ => exact hr
    | panic _ => exact hr

/-- One whole message out of the input, the stage empty. -/
theorem postWhole_wp {cap : Nat} {input : Bytes} (hwf : Wf s) (hcap : cap = s.payloadCap)
    (hstage : s.txStage = []) (hcan : s.canSendData = true) (hge : cap ≤ input.length) :
    wp (postDataMessage (input.take cap)) s fun r t =>
      match r with
      | .ok () => Clean s t (input.take cap) [] [] ∧ t.txStage = [] ∧ t.payloadCap = s.payloadCap
      | .error (.io _) => Reaches s t ∧ t.peerClosed = true
      | .error (.panic _) => False := by
  have hlen : (input.take cap).length = cap := by simp [hge]
  have hpos := hwf.cap_pos
  have hpost := postDataMessage_wp hwf hcan (input.take cap)
    (by rw [hstage]; intro h; rw [List.nil_append] at h; rw [h] at hlen; simp at hlen; omega)
    (by rw [hstage, List.nil_append, hlen, hcap])
  have hself : { s with txStage := [] } = s := by
    cases s; simp only at hstage; rw [hstage]
  rw [hself, hstage, List.nil_append] at hpost
  exact hpost

/-- Whole messages are sent from an empty stage; the count returned says how much
    of the input was accepted. -/
theorem sendWhole_path {cap : Nat} (fuel : Nat) (input : Bytes) (consumed : Nat) (hwf : Wf s)
    (hcap : cap = s.payloadCap) (hstage : s.txStage = []) :
    wp (sendWhole cap fuel input consumed) s fun r t =>
      match r with
      | .ok n => ∃ k ≤ input.length, n = consumed + k ∧ Clean s t (input.take k) [] []
      | .error (.io _) => Reaches s t ∧ t.peerClosed = true
      | .error (.panic _) => False := by
  -- on the fuel: each whole message takes a payload off the input
  induction fuel generalizing s input consumed with
  | zero => exact ⟨0, Nat.zero_le _, rfl, by simpa using Clean.refl s⟩
  | succ fuel ih =>
    simp only [sendWhole, wp_ite, wp_bind, wp_get]
    split
    · next hge =>
      split
      · refine wp_mono (maybeReturnCredits_path 1 hwf) ?_
        intro r t hr
        cases r with
        | ok _ => exact ⟨0, Nat.zero_le _, rfl, by simpa using hr.1⟩
        | error e =>
          cases e with
          | io _ => exact ⟨hr.1.reaches, hr.2⟩
          | panic _ => exact hr
      · next hcan =>
        have hcan' : s.canSendData = true := by simpa using hcan
        refine wp_mono (postWhole_wp hwf hcap hstage hcan' hge) ?_
        intro r t hr
        cases r with
        | ok _ =>
          obtain ⟨hc, hst, hcp⟩ := hr
          refine wp_mono (ih (s := t) (input.drop cap) (consumed + cap) (hc.wf hwf)
            (hcap.trans hcp.symm) hst) ?_
          intro r u hr
          cases r with
          | ok n =>
            obtain ⟨k, hk, rfl, hcu⟩ := hr
            rw [List.length_drop] at hk
            refine ⟨cap + k, by omega, by omega, ?_⟩
            rw [List.take_add]
            simpa using hc.trans hcu
          | error e =>
            cases e with
            | io _ => exact ⟨hc.reaches.trans hr.1, hr.2⟩
            | panic _ => exact hr
        | error e =>
          cases e with
          | io _ => exact hr
          | panic _ => exact hr
    · next hlt =>
      simp only [wp_modify, wp_pure]
      refine ⟨input.length, Nat.le_refl _, rfl, ?_⟩
      rw [List.take_length]
      refine ⟨[.staged input], .single (.stage s input ?_), by simp [acceptedOf], rfl, rfl,
        by simp [NoLoss]⟩
      rw [hstage, List.nil_append]
      omega

/-- The bytes `try_write` reports as accepted are those its run accepts. -/
theorem tryWrite_path (buf : Bytes) (hwf : Wf s) :
    wp (tryWrite buf) s fun r t =>
      match r with
      | .ok n => n ≤ buf.length ∧ Clean s t (buf.take n) [] []
      | .error (.io _) => Reaches s t ∧ t.peerClosed = true
      | .error (.panic _) => False := by
  simp only [tryWrite, wp_bind, wp_get, wp_ite]
  split
  · next hclosed => exact ⟨.refl s, hclosed⟩
  · split
    · next hstage =>
      refine wp_mono (sendWhole_path _ buf 0 hwf rfl (List.isEmpty_iff.mp hstage)) ?_
      intro r t hr
      cases r with
      | ok n =>
        obtain ⟨k, hk, rfl, hc⟩ := hr
        rw [Nat.zero_add]
        exact ⟨hk, hc⟩
      | error e =>
        cases e with
        | io _ => exact hr
        | panic _ => exact hr
    · next hstage =>
      have hlt := hwf.stage_lt
      have hne : s.txStage ≠ [] := fun h => hstage (by rw [h]; rfl)
      split
      · next hshort =>
        simp only [wp_modify, wp_pure]
        refine ⟨Nat.le_refl _, ?_⟩
        rw [List.take_length]
        refine ⟨[.staged buf], .single (.stage s buf ?_), by simp [acceptedOf], rfl, rfl,
          by simp [NoLoss]⟩
        rw [List.length_append]
        omega
      · next hfull =>
        split
        · refine wp_mono (maybeReturnCredits_path 1 hwf) ?_
          intro r t hr
          cases r with
          | ok _ => exact ⟨Nat.zero_le _, by simpa using hr.1⟩
          | error e =>
            cases e with
            | io _ => exact ⟨hr.1.reaches, hr.2⟩
            | panic _ => exact hr
        · next hcan =>
          have hcan' : s.canSendData = true := by simpa using hcan
          have htake : min (s.payloadCap - s.txStage.length) buf.length =
              s.payloadCap - s.txStage.length := by omega
          have hle : s.payloadCap - s.txStage.length ≤ buf.length := by omega
          simp only [wp_modify]
          -- the stage is filled up and sent, and the rest goes in whole messages
          rw [htake]
          refine wp_mono (postDataMessage_wp hwf hcan'
            (buf.take (s.payloadCap - s.txStage.length)) ?_ ?_) ?_
          · intro h
            exact hne (List.append_eq_nil_iff.mp h).1
          · rw [List.length_append, List.length_take]
            omega
          · intro r t hr
            cases r with
            | ok _ =>
              obtain ⟨hc, hst, hcp⟩ := hr
              refine wp_mono (sendWhole_path (s := t) _ _ _ (hc.wf hwf) hcp.symm hst) ?_
              intro r u hr
              cases r with
              | ok n =>
                obtain ⟨k, hk, rfl, hcu⟩ := hr
                rw [List.length_drop] at hk
                refine ⟨by omega, ?_⟩
                rw [List.take_add]
                simpa using hc.trans hcu
              | error e =>
                cases e with
                | io _ => exact ⟨hc.reaches.trans hr.1, hr.2⟩
                | panic _ => exact hr
            | error e =>
              cases e with
              | io _ => exact hr
              | panic _ => exact hr

theorem tryFlushStage_path (hwf : Wf s) :
    wp tryFlushStage s fun r t =>
      match r with
      | .ok _ => Clean s t [] [] []
      | .error (.io _) => Reaches s t ∧ t.peerClosed = true
      | .error (.panic _) => False := by
  simp only [tryFlushStage, wp_bind, wp_get, wp_ite]
  split
  · exact .refl s
  · next hstage =>
    have hne : s.txStage ≠ [] := fun h => hstage (by rw [h]; rfl)
    split
    · refine wp_mono (maybeReturnCredits_path 1 hwf) ?_
      intro r t hr
      cases r with
      | ok _ => exact hr.1
      | error e =>
        cases e with
        | io _ => exact ⟨hr.1.reaches, hr.2⟩
        | panic _ => exact hr
    · next hcan =>
      have hcan' : s.canSendData = true := by simpa using hcan
      have hlt := hwf.stage_lt
      simp only [wp_modify]
      have hpost := postDataMessage_wp hwf hcan' [] (by simpa using hne)
        (by rw [List.append_nil]; omega)
      rw [List.append_nil] at hpost
      refine wp_mono hpost ?_
      intro r t hr
      cases r with
      | ok _ => exact hr.1
      | error e =>
        cases e with
        | io _ => exact hr
        | panic _ => exact hr

end Sending

/-! Receiving. -/

section Receiving
variable {s : HordStream}

/-- The bytes copied are those of the run; a non-empty request takes at least one
    from a non-empty queue. -/
theorem drainReady_path (fuel want : Nat) (acc : Bytes) (hwf : Wf s) :
    wp (drainReady fuel want acc) s fun r t =>
      match r with
      | .ok bs => ∃ out, bs = acc ++ out ∧ Clean s t [] out [] ∧
          (0 < fuel → 0 < want → s.rxReady ≠ [] → out ≠ [])
      | .error (.io _) => Reaches s t ∧ t.peerClosed = true
      | .error (.panic _) => False := by
  -- on the fuel: every round uses a message up, or is the last
  induction fuel generalizing s want acc with
  | zero => exact ⟨[], by simp, .refl s, by simp⟩
  | succ fuel ih =>
    simp only [drainReady, wp_ite, wp_bind, wp_get]
    split
    · next hz => exact ⟨[], by simp, .refl s, by omega⟩
    · next hwant =>
      cases hready : s.rxReady with
      | nil => exact ⟨[], by simp, .refl s, by simp⟩
      | cons msg rest =>
        have hmsg := hwf.ready msg (by rw [hready]; exact List.mem_cons_self ..)
        have hin := hwf.slot_in hmsg.slot_lt
        have hlo := hmsg.start_lt
        have hhi := hmsg.stop_le
        simp only [wp_bind]
        refine recvSlot_wp hmsg.slot_lt ?_
        refine copyOut_wp (by omega) ?_
        generalize htake : min (msg.stop - msg.start) want = take
        simp only [wp_ite, wp_bind, wp_modify]
        split
        · -- the message is used up: re-post its slot, owe a credit
          next hall =>
          have hlen : take = msg.stop - msg.start := by omega
          refine postRecvSlot_wp (s := { s with rxReady := rest }) hmsg.slot_lt (fun fs => ?_)
            (fun fs e => ?_)
          · have hstep : Clean s ((({ s with rxReady := rest }.setFaults fs).pushRq
                (s.geo.slotWr msg.slot)).owe) [] (s.msgBytes msg) [] :=
              (Clean.tick s fs).after ⟨[.copied (s.msgBytes msg)],
                .single (.finish (s.setFaults fs) msg rest hready), rfl, by simp [copiedOf], rfl,
                by simp [NoLoss]⟩
            refine wp_mono (ih _ _ (hstep.wf hwf)) ?_
            intro r t hr
            cases r with
            | ok bs =>
              obtain ⟨out, rfl, hout, -⟩ := hr
              have hbytes : readAt (s.region (s.geo.place msg.slot).1) msg.start take =
                  s.msgBytes msg := by rw [hlen]; rfl
              refine ⟨s.msgBytes msg ++ out, ?_, ?_, ?_⟩
              · rw [hbytes, List.append_assoc]
              · simpa using hstep.trans hout
              · intro _ _ _ hnil
                have hz := congrArg List.length (List.append_eq_nil_iff.mp hnil).1
                rw [HordStream.msgBytes, length_readAt (by omega)] at hz
                simp at hz
                omega
            | error e =>
              cases e with
              | io _ => exact ⟨hstep.reaches.trans hr.1, hr.2⟩
              | panic _ => exact hr
          · refine ⟨(Clean.tick s fs).reaches.trans ?_, rfl⟩
            exact .single (.finishLost (s.setFaults fs) msg rest hready)
        · -- a partial read: the message keeps its tail
          next hpart =>
          have hlt : msg.start + take < msg.stop := by omega
          have hwt : take = want := by omega
          have hbytes : readAt (s.region (s.geo.place msg.slot).1) msg.start take =
              (s.msgBytes msg).take take := by
            rw [HordStream.msgBytes, take_readAt, Nat.min_eq_left (by omega)]
          have hstep : Clean s { s with rxReady := { msg with start := msg.start + take } :: rest }
              [] ((s.msgBytes msg).take take) [] :=
            ⟨[.copied ((s.msgBytes msg).take take)], .single (.take s msg rest take hready hlt), rfl,
              by simp [copiedOf], rfl, by simp [NoLoss]⟩
          refine wp_mono (ih _ _ (hstep.wf hwf)) ?_
          intro r t hr
          cases r with
          | ok bs =>
            obtain ⟨out, rfl, hout, -⟩ := hr
            refine ⟨(s.msgBytes msg).take take ++ out, ?_, ?_, ?_⟩
            · rw [hbytes, List.append_assoc]
            · simpa using hstep.trans hout
            · intro _ _ _ hnil
              have hz := congrArg List.length (List.append_eq_nil_iff.mp hnil).1
              rw [← hbytes, length_readAt (by omega)] at hz
              simp at hz
              omega
          | error e =>
            cases e with
            | io _ => exact ⟨hstep.reaches.trans hr.1, hr.2⟩
            | panic _ => exact hr

/-- `try_read` returns the bytes its run copies out. It returns none of them only
    at end of stream, or when it was asked for none. -/
theorem tryRead_path (n : Nat) (hwf : Wf s) :
    wp (tryRead n) s fun r t =>
      match r with
      | .ok none => t = s ∧ s.rxReady = [] ∧ s.peerClosed = false ∧ 0 < n
      | .ok (some bs) => Clean s t [] bs [] ∧
          (bs = [] → t = s ∧ (n = 0 ∨ s.rxReady = [] ∧ s.peerClosed = true))
      | .error (.io _) => Reaches s t ∧ t.peerClosed = true
      | .error (.panic _) => False := by
  simp only [tryRead, wp_bind, wp_get, wp_ite]
  split
  · next hn => exact ⟨.refl s, fun _ => ⟨rfl, .inl hn⟩⟩
  · next hn =>
    split
    · next hempty =>
      have hnil : s.rxReady = [] := List.isEmpty_iff.mp hempty
      cases hc : s.peerClosed with
      | true => exact ⟨.refl s, fun _ => ⟨rfl, .inr ⟨hnil, rfl⟩⟩⟩
      | false => exact ⟨rfl, hnil, rfl, Nat.pos_of_ne_zero hn⟩
    · next hne =>
      have hne' : s.rxReady ≠ [] := fun h => hne (by rw [h]; rfl)
      refine wp_mono (drainReady_path _ n [] hwf) ?_
      intro r t hr
      cases r with
      | ok bs =>
        obtain ⟨out, rfl, hc, hsome⟩ := hr
        have hout := hsome (Nat.succ_pos _) (Nat.pos_of_ne_zero hn) hne'
        refine wp_mono (maybeReturnCredits_path _ (hc.wf hwf)) ?_
        intro r u hr
        cases r with
        | ok _ =>
          refine ⟨?_, fun h => absurd (by simpa using h) hout⟩
          simpa using hc.before hr.1
        | error e =>
          cases e with
          | io _ => exact ⟨hc.reaches.trans hr.1.reaches, hr.2⟩
          | panic _ => exact hr
      | error e =>
        cases e with
        | io _ => exact hr
        | panic _ => exact hr

theorem nextCompletedTransfer_path (s : HordStream) :
    wp nextCompletedTransfer s fun r t =>
      match r with
      | .ok none => t = s ∧ s.completedTransfers = []
      | .ok (some id) => Clean s t [] [] [id] ∧ s.completedTransfers = id :: t.completedTransfers
      | .error _ => False := by
  simp only [nextCompletedTransfer, wp_bind, wp_get]
  cases h : s.completedTransfers with
  | nil => exact ⟨rfl, rfl⟩
  | cons id rest =>
    refine ⟨⟨[.transfer id], .single (.transfer s id rest h), rfl, rfl, rfl, by simp [NoLoss]⟩, rfl⟩

end Receiving

end Hord
