import Hord.Endpoint

/- Which calls can close the stream or take a completion off the queue. Apart from
   `pump` and the two readings of the CM channel, a call that returns leaves both
   the closed flag and the completion queue as they were (`Act.run_keeps`), and one that
   fails at least the queue. -/
namespace Hord

open Region Prog Transition

/-- `f` does not see what posting a receive changes; `g` does not see the closed flag
    either. -/
structure UnseenRecv {γ δ : Type} (f : HordStream → γ) (g : γ → δ) : Prop where
  recvQueue : ∀ s fs rq, f { s with conn := { s.conn with faults := fs, rq := rq } } = f s
  closing : ∀ s, g (f { s with peerClosed := true }) = g (f s)

/-- The same of posting a control message. -/
structure UnseenSend {γ δ : Type} (f : HordStream → γ) (g : γ → δ) : Prop where
  refusal : ∀ s fs, f { s with conn := { s.conn with faults := fs } } = f s
  sendQueue : ∀ s fs id mr off len,
    f { s with conn := { s.conn with faults := fs, out := s.conn.out ++ [.send id mr off len] } } = f s
  memory : ∀ s b, f { s with send := b } = f s
  credits : ∀ s owed busy, f { s with grantPending := owed, ctrlSendBusy := busy } = f s
  closing : ∀ s, g (f { s with peerClosed := true }) = g (f s)

/-- The same of taking messages out of the receive slots. -/
structure UnseenRead {γ δ : Type} (f : HordStream → γ) (g : γ → δ) : Prop extends UnseenRecv f g where
  reading : ∀ s ready, f { s with rxReady := ready } = f s
  owing : ∀ s owed, f { s with grantPending := owed } = f s

/-- The same of posting data messages. -/
structure UnseenWrite {γ δ : Type} (f : HordStream → γ) (g : γ → δ) : Prop extends UnseenSend f g where
  slots : ∀ s free, f { s with sendFree := free } = f s
  spending : ∀ s credits owed, f { s with sendCredits := credits, grantPending := owed } = f s
  staging : ∀ s stage, f { s with txStage := stage } = f s

section Frame
variable {γ δ : Type} {f : HordStream → γ} {g : γ → δ}

theorem keeps_recvSlot (slot : Nat) : Keeps f g (recvSlot slot) :=
  .bind .get fun _ => .ite (.pure _) (.throw _)

theorem keeps_copyOut (buf : Bytes) (off n : Nat) : Keeps f g (copyOut buf off n) :=
  .ite (.pure _) (.throw _)

theorem keeps_copyIn (buf : Bytes) (off : Nat) (src : Bytes) : Keeps f g (copyIn buf off src) :=
  .ite (.pure _) (.throw _)

/-- `if let Err(e) = x { ..; return Err(e) }`. -/
theorem keeps_attempt {α β : Type} {x : M α} {k : Except IoError α → M β} (hx : Keeps f g x)
    (hok : ∀ a, Keeps f g (k (.ok a))) (herr : ∀ e, Fails f g (k (.error e))) :
    Keeps f g (attempt x >>= k) := by
  intro s
  rw [wp_bind, attempt_wp]
  refine wp_mono (hx s) ?_
  intro r t hr
  match r with
  | .ok a =>
    refine wp_mono (hok a t) ?_
    intro r u hu
    match r with
    | .ok _ => exact hu.trans hr
    | .error _ => exact hu.trans (congrArg g hr)
  | .error (.io e) =>
    refine wp_mono (herr e t) ?_
    intro r u hu
    match r with
    | .ok _ => exact hu.elim
    | .error _ => exact hu.trans hr
  | .error (.panic _) => exact hr

theorem closeAndFail_fails {β : Type} (hc : ∀ s : HordStream, g (f { s with peerClosed := true }) = g (f s))
    (e : Fail) : Fails f g (do markClosed; throw e : M β) :=
  fun s => hc s

theorem keeps_postRecv (hf : UnseenRecv f g) (w : RecvWr) : Keeps f g (dev (Connection.postRecv w)) := by
  intro s
  rw [dev_wp]
  exact postRecv_wp (fun fs => hf.recvQueue s fs _)
    (fun fs _ => congrArg g (hf.recvQueue s fs s.conn.rq))

theorem keeps_postRecvSlot (hf : UnseenRecv f g) (slot : Nat) : Keeps f g (postRecvSlot slot) :=
  .bind (keeps_recvSlot slot) fun _ => .bind .get fun _ =>
    keeps_attempt (keeps_postRecv hf _) (fun _ => .pure _) fun _ => closeAndFail_fails hf.closing _

theorem keeps_postSend (hf : UnseenSend f g) (id : Nat) (mr : Mr) (off len : Nat) :
    Keeps f g (dev (Connection.postSend (.send id mr off len))) := by
  intro s
  rw [dev_wp]
  exact postSend_wp (fun fs _ => hf.sendQueue s fs id mr off len)
    (fun fs _ => congrArg g (hf.refusal s fs))

theorem keeps_postInto (hf : UnseenSend f g) (slot wrId : Nat) (env : Envelope) (payload : Bytes) :
    Keeps f g (postInto slot wrId env payload) :=
  .bind .get fun _ => .bind (keeps_copyIn _ _ _) fun _ => .bind (.modify fun _ => hf.memory _ _) fun _ =>
    .bind (keeps_copyIn _ _ _) fun _ => .bind (.modify fun _ => hf.memory _ _) fun _ =>
      keeps_postSend hf _ _ _ _

theorem keeps_sendCreditReturn (hf : UnseenSend f g) : Keeps f g sendCreditReturn :=
  .bind .get fun _ => .ite (.pure _) (keeps_attempt (keeps_postInto hf _ _ _ _)
    (fun _ => .modify fun _ => hf.credits _ _ _) fun _ => closeAndFail_fails hf.closing _)

theorem keeps_maybeReturnCredits (hf : UnseenSend f g) (threshold : Nat) :
    Keeps f g (maybeReturnCredits threshold) :=
  .bind .get fun _ => .ite (keeps_sendCreditReturn hf) (.pure _)

theorem keeps_returnOwedCredits (hf : UnseenSend f g) (urgent : Bool) :
    Keeps f g (returnOwedCredits urgent) :=
  .bind .get fun _ => keeps_maybeReturnCredits hf _

theorem keeps_drainReady (hf : UnseenRead f g) (fuel want : Nat) (acc : Bytes) :
    Keeps f g (drainReady fuel want acc) := by
  induction fuel generalizing want acc with
  | zero => exact .pure _
  | succ fuel ih =>
    refine .ite (.pure _) (.bind .get fun s => ?_)
    cases s.rxReady with
    | nil => exact .pure _
    | cons msg rest =>
      refine .bind (keeps_recvSlot _) fun _ => .bind (keeps_copyOut _ _ _) fun _ => .ite ?_ ?_
      · exact .bind (.modify fun _ => hf.reading _ _) fun _ =>
          .bind (keeps_postRecvSlot hf.toUnseenRecv _) fun _ =>
            .bind (.modify fun _ => hf.owing _ _) fun _ => ih _ _
      · exact .bind (.modify fun _ => hf.reading _ _) fun _ => ih _ _

theorem keeps_tryRead (hr : UnseenRead f g) (hs : UnseenSend f g) (n : Nat) : Keeps f g (tryRead n) := by
  refine .bind .get fun s => .ite (.pure _) (.ite (.pure _) ?_)
  exact .bind (keeps_drainReady hr _ _ _) fun _ => .bind (keeps_maybeReturnCredits hs _) fun _ => .pure _

theorem keeps_postDataMessage (hf : UnseenWrite f g) (payload : Bytes) :
    Keeps f g (postDataMessage payload) := by
  intro s
  simp only [postDataMessage, wp_bind, wp_get]
  cases s.sendFree with
  | nil => exact rfl
  | cons slot rest =>
    simp only [wp_bind, wp_set]
    rw [← wp_bind, ← hf.slots s rest]
    refine keeps_attempt (keeps_postInto hf.toUnseenSend _ _ _ _) (fun _ => ?_) (fun _ t => ?_) _
    · exact .modify fun _ => hf.spending _ _ _
    · exact (hf.closing { t with sendFree := slot :: t.sendFree }).trans (congrArg g (hf.slots t _))

theorem keeps_sendWhole (hf : UnseenWrite f g) (cap fuel : Nat) (input : Bytes) (consumed : Nat) :
    Keeps f g (sendWhole cap fuel input consumed) := by
  induction fuel generalizing input consumed with
  | zero => exact .pure _
  | succ fuel ih =>
    refine .ite (.bind .get fun _ => .ite ?_ ?_) ?_
    · exact .bind (keeps_maybeReturnCredits hf.toUnseenSend 1) fun _ => .pure _
    · exact .bind (keeps_postDataMessage hf _) fun _ => ih _ _
    · exact .bind (.modify fun _ => hf.staging _ _) fun _ => .pure _

theorem keeps_tryWrite (hf : UnseenWrite f g) (buf : Bytes) : Keeps f g (tryWrite buf) := by
  refine .bind .get fun s => .ite (.throw _) (.ite (keeps_sendWhole hf _ _ _ _) (.ite ?_ (.ite ?_ ?_)))
  · exact .bind (.modify fun _ => hf.staging _ _) fun _ => .pure _
  · exact .bind (keeps_maybeReturnCredits hf.toUnseenSend 1) fun _ => .pure _
  · exact .bind (.modify fun _ => hf.staging _ _) fun _ => .bind (keeps_postDataMessage hf _) fun _ =>
      keeps_sendWhole hf _ _ _ _

theorem keeps_tryFlushStage (hf : UnseenWrite f g) : Keeps f g tryFlushStage := by
  refine .bind .get fun s => .ite (.pure _) (.ite ?_ ?_)
  · exact .bind (keeps_maybeReturnCredits hf.toUnseenSend 1) fun _ => .pure _
  · exact .bind (.modify fun _ => hf.staging _ _) fun _ => .bind (keeps_postDataMessage hf _) fun _ => .pure _

theorem keeps_nextCompletedTransfer (hf : ∀ s ids, f { s with completedTransfers := ids } = f s) :
    Keeps f g nextCompletedTransfer := by
  intro s
  simp only [nextCompletedTransfer, wp_bind, wp_get]
  cases s.completedTransfers with
  | nil => exact rfl
  | cons id rest => exact hf s rest

end Frame

/-- `f` does not see what the calls on the device that post nothing change. -/
def UnseenDevice {γ : Type} (f : HordStream → γ) : Prop :=
  ∀ s qp gone fs cmq, f { s with conn := { s.conn with qp := qp, disconnected := gone
                                                       faults := fs, cmq := cmq } } = f s

/-- The same for those of them that read no CM event. -/
def UnseenLink {γ : Type} (f : HordStream → γ) : Prop :=
  ∀ s qp gone fs, f { s with conn := { s.conn with qp := qp, disconnected := gone
                                                   faults := fs } } = f s

theorem UnseenDevice.link {γ : Type} {f : HordStream → γ} (h : UnseenDevice f) : UnseenLink f :=
  fun s qp gone fs => h s qp gone fs s.conn.cmq

section Device
variable {γ δ : Type} {f : HordStream → γ} {g : γ → δ}

theorem keeps_armCq (hf : UnseenLink f) : Keeps f g (dev Connection.deviceCall) := by
  intro s
  rw [dev_wp]
  exact deviceCall_wp (fun fs => hf s _ _ fs) (fun fs _ => congrArg g (hf s _ _ fs))

theorem keeps_checkDisconnect (hf : UnseenDevice f) : Keeps f g (dev Connection.checkDisconnect) := by
  intro s
  rw [dev_wp]
  exact checkDisconnect_wp (fun fs _ => hf s _ _ fs _) (fun fs _ rest _ => hf s _ _ fs rest)
    (fun fs _ _ => congrArg g (hf s _ _ fs _))

theorem keeps_disconnect (hf : UnseenLink f) : Keeps f g (dev Connection.disconnect) :=
  fun s => hf s _ _ _

theorem keeps_shutdown (hf : UnseenLink f) : Keeps f g (dev Connection.shutdown) :=
  fun s => hf s _ _ _

theorem keeps_pollCmDisconnect (hf : UnseenDevice f)
    (hc : ∀ s : HordStream, f { s with peerClosed := true } = f s) : Keeps f g pollCmDisconnect :=
  .bind .get fun _ => .ite (.pure _) (.bind (keeps_checkDisconnect hf) fun _ =>
    .ite (.bind (.modify hc) fun _ => .pure _) (.pure _))

theorem keeps_pollCmEvent (hf : UnseenDevice f)
    (hc : ∀ s : HordStream, f { s with peerClosed := true } = f s) : Keeps f g pollCmEvent :=
  .bind (keeps_checkDisconnect hf) fun _ => .ite (.bind (.modify hc) fun _ => .pure _) (.pure _)

theorem foldl_wrote (hf : ∀ s w, f (s.wrote w) = f s) (ws : List SendWr) (s : HordStream) :
    f (ws.foldl HordStream.wrote s) = f s := by
  induction ws generalizing s with
  | nil => rfl
  | cons w ws ih => exact (ih (s.wrote w)).trans (hf s w)

theorem keeps_beginWrite (hw : ∀ s w, f (s.wrote w) = f s) (hf : UnseenLink f)
    (hc : ∀ s, g (f s.close) = g (f s)) (segments : List WriteSegment) (peerAddr peerRkey : Nat)
    (imm : Option Nat) : Keeps f g (beginRdmaWriteGatherInner segments peerAddr peerRkey imm) := by
  have faults : ∀ (s : HordStream) fs, f (s.setFaults fs) = f s := fun s fs => hf s _ _ fs
  intro s
  refine wp_mono (beginRdmaWriteGatherInner_wp segments peerAddr peerRkey imm) ?_
  intro r t hr
  match r with
  | .ok () =>
    obtain ⟨-, -, fs, rfl⟩ := hr
    exact (faults _ _).trans (foldl_wrote hw _ s)
  | .error (.io _) =>
    rcases hr.2 with ⟨-, rfl⟩ | ⟨-, -, k, -, fs, rfl⟩
    · rfl
    · rw [hc, faults]
      exact congrArg g (foldl_wrote hw _ s)
  | .error (.panic _) => exact hr.2.elim

end Device

/-- The calls that can change the closed flag or the completion queue. -/
def Act.watches : Act → Bool
  | .pump => true
  | .pollCmDisconnect => true
  | .pollCmEvent => true
  | _ => false

/-- What `f` must not see for a call to keep it; `pump` handles a completion instead. -/
def Act.Unseen {γ δ : Type} (f : HordStream → γ) (g : γ → δ) : Act → Prop
  | .tryWrite _ => UnseenWrite f g
  | .tryFlushStage => UnseenWrite f g
  | .tryRead _ => UnseenRead f g ∧ UnseenSend f g
  | .returnOwedCredits _ => UnseenSend f g
  | .pump => False
  | .pollCmDisconnect => UnseenDevice f ∧ ∀ s, f { s with peerClosed := true } = f s
  | .pollCmEvent => UnseenDevice f ∧ ∀ s, f { s with peerClosed := true } = f s
  | .nextCompletedTransfer => ∀ s ids, f { s with completedTransfers := ids } = f s
  | .beginWrite _ _ _ _ => UnseenLink f ∧ (∀ s w, f (s.wrote w) = f s) ∧ ∀ s, g (f s.close) = g (f s)
  | _ => UnseenLink f

theorem Act.keeps {γ δ : Type} {f : HordStream → γ} {g : γ → δ} {a : Act} (h : a.Unseen f g) :
    Keeps f g a.run := by
  cases a with
  | tryWrite buf => exact .bind (keeps_tryWrite h buf) fun _ => .pure _
  | tryFlushStage => exact .bind (keeps_tryFlushStage h) fun _ => .pure _
  | tryRead n => exact .bind (keeps_tryRead h.1 h.2 n) fun _ => .pure _
  | returnOwedCredits urgent => exact .bind (keeps_returnOwedCredits h urgent) fun _ => .pure _
  | pump => exact h.elim
  | pollCmDisconnect => exact .bind (keeps_pollCmDisconnect h.1 h.2) fun _ => .pure _
  | pollCmEvent => exact .bind (keeps_pollCmEvent h.1 h.2) fun _ => .pure _
  | armCq => exact .bind (keeps_armCq h) fun _ => .pure _
  | nextCompletedTransfer => exact .bind (keeps_nextCompletedTransfer h) fun _ => .pure _
  | beginWrite segments peerAddr peerRkey imm =>
    exact .bind (keeps_beginWrite h.2.1 h.1 h.2.2 segments peerAddr peerRkey imm) fun _ => .pure _
  | disconnect => exact .bind (keeps_disconnect h) fun _ => .pure _
  | shutdown => exact .bind (keeps_shutdown h) fun _ => .pure _

/-- What only `pump` and the CM readings may change. -/
def HordStream.watched (s : HordStream) : Bool × List Completion := (s.peerClosed, s.conn.cq)

theorem unseen_watched : UnseenRead HordStream.watched Prod.snd ∧
    UnseenWrite HordStream.watched Prod.snd :=
  ⟨⟨⟨fun _ _ _ => rfl, fun _ => rfl⟩, fun _ _ => rfl, fun _ _ => rfl⟩,
    ⟨fun _ _ => rfl, fun _ _ _ _ _ _ => rfl, fun _ _ => rfl, fun _ _ _ => rfl, fun _ => rfl⟩,
    fun _ _ => rfl, fun _ _ _ => rfl, fun _ _ => rfl⟩

theorem Act.run_keeps {a : Act} (h : a.watches = false) :
    Keeps HordStream.watched Prod.snd a.run := by
  obtain ⟨hr, hw⟩ := unseen_watched
  have hd : UnseenDevice HordStream.watched := fun _ _ _ _ _ => rfl
  apply Act.keeps
  cases a with
  | tryWrite buf => exact hw
  | tryFlushStage => exact hw
  | tryRead n => exact ⟨hr, hw.toUnseenSend⟩
  | returnOwedCredits urgent => exact hw.toUnseenSend
  | pump => cases h
  | pollCmDisconnect => cases h
  | pollCmEvent => cases h
  | nextCompletedTransfer => exact fun _ _ => rfl
  | beginWrite => exact ⟨hd.link, fun _ _ => rfl, fun _ => rfl⟩
  | _ => exact hd.link

/-- Only `pump` takes completions off the queue, whether it returns or not. -/
theorem Act.keeps_cq {a : Act} (h : a ≠ .pump) : Keeps (fun s : HordStream => s.conn.cq) id a.run := by
  have hd : UnseenDevice fun s : HordStream => s.conn.cq := fun _ _ _ _ _ => rfl
  by_cases hw : a.watches = false
  · intro s
    refine wp_mono (Act.run_keeps hw s) ?_
    intro r t hr
    match r with
    | .ok _ => exact congrArg Prod.snd hr
    | .error _ => exact hr
  · cases a with
    | pump => exact absurd rfl h
    | pollCmDisconnect => exact Act.keeps ⟨hd, fun _ => rfl⟩
    | pollCmEvent => exact Act.keeps ⟨hd, fun _ => rfl⟩
    | _ => exact absurd rfl hw

theorem Act.run_cq {a : Act} (h : a ≠ .pump) {s t : HordStream} {v : Res} (hr : a.run s = .ok v t) :
    t.conn.cq = s.conn.cq :=
  (Act.keeps_cq h).ok hr

/-- No other call takes anything off the two event queues, whether it returns or not. -/
theorem Act.keeps_queues {a : Act} (h : a.watches = false) :
    Keeps (fun s : HordStream => (s.conn.cq, s.conn.cmq)) id a.run := by
  have hs : UnseenSend (fun s : HordStream => (s.conn.cq, s.conn.cmq)) id :=
    ⟨fun _ _ => rfl, fun _ _ _ _ _ _ => rfl, fun _ _ => rfl, fun _ _ _ => rfl, fun _ => rfl⟩
  have hw : UnseenWrite (fun s : HordStream => (s.conn.cq, s.conn.cmq)) id :=
    ⟨hs, fun _ _ => rfl, fun _ _ _ => rfl, fun _ _ => rfl⟩
  have hl : UnseenLink fun s : HordStream => (s.conn.cq, s.conn.cmq) := fun _ _ _ _ => rfl
  apply Act.keeps
  cases a with
  | tryWrite buf => exact hw
  | tryFlushStage => exact hw
  | tryRead n => exact ⟨⟨⟨fun _ _ _ => rfl, fun _ => rfl⟩, fun _ _ => rfl, fun _ _ => rfl⟩, hs⟩
  | returnOwedCredits urgent => exact hs
  | pump => cases h
  | pollCmDisconnect => cases h
  | pollCmEvent => cases h
  | nextCompletedTransfer => exact fun _ _ => rfl
  | beginWrite => exact ⟨hl, fun _ _ => rfl, fun _ => rfl⟩
  | _ => exact hl

/-- Only `try_read` and `pump` touch the messages held. -/
theorem Act.keeps_ready {a : Act} (hread : ∀ n, a ≠ .tryRead n) (hpump : a ≠ .pump) :
    Keeps (fun s : HordStream => s.rxReady) id a.run := by
  have hs : UnseenSend (fun s : HordStream => s.rxReady) id :=
    ⟨fun _ _ => rfl, fun _ _ _ _ _ _ => rfl, fun _ _ => rfl, fun _ _ _ => rfl, fun _ => rfl⟩
  have hw : UnseenWrite (fun s : HordStream => s.rxReady) id :=
    ⟨hs, fun _ _ => rfl, fun _ _ _ => rfl, fun _ _ => rfl⟩
  have hd : UnseenDevice fun s : HordStream => s.rxReady := fun _ _ _ _ _ => rfl
  apply Act.keeps
  cases a with
  | tryWrite buf => exact hw
  | tryFlushStage => exact hw
  | tryRead n => exact absurd rfl (hread n)
  | returnOwedCredits urgent => exact hs
  | pump => exact absurd rfl hpump
  | pollCmDisconnect => exact ⟨hd, fun _ => rfl⟩
  | pollCmEvent => exact ⟨hd, fun _ => rfl⟩
  | nextCompletedTransfer => exact fun _ _ => rfl
  | beginWrite => exact ⟨hd.link, fun _ _ => rfl, fun _ => rfl⟩
  | _ => exact hd.link

/-- What a failed call leaves: a closed stream, an untouched one, or, for `pump`, a
    completion whose handler failed. -/
def FailedCall (a : Act) (s t : HordStream) : Prop :=
  t.peerClosed = true ∨ (∃ fs, t = s.setFaults fs) ∨
    a = .pump ∧ ∃ fs wc rest, s.conn.cq = wc :: rest ∧
      Handled ((s.setCq rest).setFaults fs) wc false t

theorem Act.run_failed (a : Act) {s : HordStream} (hwf : Wf s) :
    wp a.run s fun r t => match r with
      | .ok _ => True
      | .error _ => FailedCall a s t := by
  have closes : ∀ {α : Type} {x : M α} {k : α → M Res} {P : Except Fail α → HordStream → Prop},
      wp x s P → (∀ e t, P (.error e) t → FailedCall a s t) → (∀ v, ∃ b, k v = pure b) →
      wp (x >>= k) s fun r t => match r with
        | .ok _ => True
        | .error _ => FailedCall a s t := by
    intro α x k P hx herr hk
    rw [wp_bind]
    refine wp_mono hx ?_
    intro r t hr
    cases r with
    | ok v =>
      obtain ⟨b, hb⟩ := hk v
      simp only [hb]
      trivial
    | error e => exact herr e t hr
  cases a with
  | tryWrite buf =>
    refine closes (tryWrite_path buf hwf) (fun e t h => ?_) fun v => ⟨_, rfl⟩
    cases e with
    | io _ => exact .inl h.2
    | panic _ => exact h.elim
  | tryFlushStage =>
    refine closes (tryFlushStage_path hwf) (fun e t h => ?_) fun v => ⟨_, rfl⟩
    cases e with
    | io _ => exact .inl h.2
    | panic _ => exact h.elim
  | tryRead n =>
    refine closes (tryRead_path n hwf) (fun e t h => ?_) fun v => ⟨_, rfl⟩
    cases e with
    | io _ => exact .inl h.2
    | panic _ => exact h.elim
  | returnOwedCredits urgent =>
    refine closes (returnOwedCredits_path urgent hwf) (fun e t h => ?_) fun v => ⟨_, rfl⟩
    cases e with
    | io _ => exact .inl h.2
    | panic _ => exact h.elim
  | pump =>
    refine closes (pumpOnce_wp hwf) (fun e t h => ?_) fun v => ⟨_, rfl⟩
    cases e with
    | io _ =>
      rcases h with ⟨fs, -, rfl⟩ | h
      · exact .inr (.inl ⟨fs, rfl⟩)
      · exact .inr (.inr ⟨rfl, h⟩)
    | panic _ => exact h.elim
  | pollCmDisconnect =>
    have h : wp Hord.pollCmDisconnect s fun r t => match r with
        | .ok _ => True
        | .error _ => ∃ fs, t = s.setFaults fs := by
      simp only [Hord.pollCmDisconnect, wp_bind, wp_get, wp_ite, dev_wp]
      split
      · trivial
      · refine checkDisconnect_wp (fun _ _ => trivial) (fun fs e rest _ => ?_) (fun fs _ _ => ⟨fs, rfl⟩)
        cases e.gone <;> trivial
    exact closes h (fun e t h => .inr (.inl h)) fun v => ⟨_, rfl⟩
  | pollCmEvent =>
    have h : wp Hord.pollCmEvent s fun r t => match r with
        | .ok _ => True
        | .error _ => ∃ fs, t = s.setFaults fs := by
      simp only [Hord.pollCmEvent, wp_bind, wp_ite, dev_wp]
      refine checkDisconnect_wp (fun _ _ => trivial) (fun fs e rest _ => ?_) (fun fs _ _ => ⟨fs, rfl⟩)
      cases e.gone <;> trivial
    exact closes h (fun e t h => .inr (.inl h)) fun v => ⟨_, rfl⟩
  | armCq =>
    simp only [Act.run, wp_bind, dev_wp]
    exact deviceCall_wp (fun _ => trivial) (fun fs _ => .inr (.inl ⟨fs, rfl⟩))
  | nextCompletedTransfer =>
    exact closes (nextCompletedTransfer_path s) (fun e t h => h.elim) fun v => ⟨_, rfl⟩
  | beginWrite segments peerAddr peerRkey imm =>
    refine closes (beginRdmaWriteGatherInner_wp segments peerAddr peerRkey imm) (fun e t h => ?_)
      fun v => ⟨_, rfl⟩
    cases e with
    | io _ =>
      rcases h.2 with ⟨-, rfl⟩ | ⟨-, -, k, -, fs, rfl⟩
      · exact .inr (.inl ⟨t.conn.faults, rfl⟩)
      · exact .inl rfl
    | panic _ => exact h.2.elim
  | disconnect => trivial
  | shutdown => trivial

/-! Completions handled along a run. -/

def handledOf : List Obs → List Completion
  | [] => []
  | .handled wc :: os => wc :: handledOf os
  | _ :: os => handledOf os

theorem handledOf_append (os ps : List Obs) : handledOf (os ++ ps) = handledOf os ++ handledOf ps := by
  induction os with
  | nil => rfl
  | cons o os ih => cases o <;> simp [handledOf, ih]

theorem Handled.cq {s t : HordStream} {wc : Completion} {ok : Bool} (h : Handled s wc ok t) :
    t.conn.cq = s.conn.cq :=
  h.unseen (f := fun u => u.conn.cq) ⟨fun _ => rfl, fun _ _ => rfl, fun _ _ _ _ _ => rfl, fun _ _ _ _ _ => rfl⟩

/-- The completions a run handles are the ones that left the queue. -/
theorem run_cq {s t : HordStream} {os : List Obs} (h : Run Local s os t) :
    s.conn.cq = handledOf os ++ t.conn.cq := by
  induction h with
  | nil => rfl
  | snoc hr hl ih =>
    rw [ih, handledOf_append, List.append_assoc]
    congr 1
    cases hl with
    | handle _ wc rest ok hcq hh =>
      rw [hcq, hh.cq]
      rfl
    | _ => rfl

theorem Handled.await {s t : HordStream} {wc : Completion} {ok : Bool} (h : Handled s wc ok t) :
    t.conn.await = s.conn.await :=
  h.unseen (f := fun u => u.conn.await) ⟨fun _ => rfl, fun _ _ => rfl, fun _ _ _ _ _ => rfl, fun _ _ _ _ _ => rfl⟩

/-- What has been carried out waits for the device alone. -/
theorem run_await {s t : HordStream} {os : List Obs} (h : Run Local s os t) : t.conn.await = s.conn.await := by
  refine h.inv (I := fun u => u.conn.await = s.conn.await) (fun u o v hi hl => ?_) rfl
  cases hl with
  | handle _ wc rest ok hcq hh => exact hh.await.trans hi
  | _ => exact hi

/-- A run that handles no runt keeps every slot in its place, or closes the
    stream. -/
theorem run_full {s t : HordStream} {os : List Obs} (h : Run Local s os t) (hwf : Wf s)
    (hfull : s.peerClosed = true ∨ SlotsFull s) (hno : ∀ wc ∈ handledOf os, ¬IsRunt wc) :
    t.peerClosed = true ∨ SlotsFull t := by
  induction h with
  | nil => exact hfull
  | snoc hr hl ih =>
    rw [handledOf_append] at hno
    have hwf' := hr.inv (fun _ _ _ hi hl => hl.wf hi) hwf
    rcases ih fun wc hwc => hno wc (List.mem_append_left _ hwc) with hc | hf
    · exact .inl (hl.stays_closed hc)
    · rcases hl.full hwf' hf with hc | ⟨wc, rfl, hrunt⟩ | hf
      · exact .inl hc
      · exact absurd hrunt (hno wc (List.mem_append_right _ (List.mem_singleton.mpr rfl)))
      · exact .inr hf

end Hord
