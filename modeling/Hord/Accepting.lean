import Hord.Frames

/- The requests a call posts, and a device that takes them. A local call fails only
   because the device refused one of its posts. `recvPosts` and `sendPosts` count the
   posts a call makes from the state it starts in: receives for the messages a read uses
   up, data messages as far as slots and credits last, and a credit return where one is
   due. On a device that takes that many more the call does not fail. A panic counts as
   no refusal here, since no call of a well-formed stream panics (`Act.run_path`). -/
namespace Hord

open Region Prog

/-- The device takes the next `k` requests, if the send queue has room for them. -/
def Connection.takes (c : Connection) (k : Nat) : Bool := c.qp && (c.faults.take k).all (! ·)

/-- The held messages a read of `n` bytes uses up. -/
def usedUp : Nat → List ReadyMsg → Nat
  | _, [] => 0
  | n, msg :: rest =>
    if n ≠ 0 ∧ msg.stop - msg.start ≤ n then usedUp (n - (msg.stop - msg.start)) rest + 1 else 0

namespace HordStream
variable (s : HordStream)

/-- The device takes the next `recvs` receives and, after them, `sends` messages. -/
structure Accepting (recvs sends : Nat) : Prop where
  taken : 0 < recvs + sends → s.conn.takes (recvs + sends) = true
  room : 0 < sends → s.conn.sqUsed + sends ≤ sqLimit

instance (recvs sends : Nat) : Decidable (s.Accepting recvs sends) :=
  decidable_of_iff ((0 < recvs + sends → s.conn.takes (recvs + sends) = true) ∧
      (0 < sends → s.conn.sqUsed + sends ≤ sqLimit))
    ⟨fun h => ⟨h.1, h.2⟩, fun h => ⟨h.taken, h.room⟩⟩

/-- One if a credit return is sent for `owed` credits, none otherwise. -/
def returnPosts (threshold owed : Nat) : Nat :=
  if threshold ≤ owed ∧ ¬(s.ctrlSendBusy = true ∨ s.peerClosed = true ∨ owed = 0) then 1 else 0

/-- How many of `whole` messages slots and credits are there for. -/
def admits (whole : Nat) : Nat :=
  if s.peerClosed then 0 else min whole (min s.sendFree.length s.sendCredits)

/-- What sending `whole` messages posts: each takes along as many credits as an envelope
    can carry, and if one is left over the rest of the credits is returned. -/
def wholePosts (whole : Nat) : Nat :=
  s.admits whole +
    if s.admits whole < whole then s.returnPosts 1 (s.grantPending - s.admits whole * u16Max) else 0

/-- The messages at hand for a write of `buf`. -/
def wholeMessages (buf : Bytes) : Nat := (s.txStage.length + buf.length) / s.payloadCap

/-- The data messages a call posts. -/
def dataPosts : Act → Nat
  | .tryWrite buf => s.admits (s.wholeMessages buf)
  | .tryFlushStage => if s.txStage.isEmpty then 0 else s.admits 1
  | _ => 0

/-- The receives a call posts. -/
def recvPosts : Act → Nat
  | .tryRead n => usedUp n s.rxReady
  | _ => 0

/-- The messages a call posts, data and credit returns. -/
def sendPosts : Act → Nat
  | .tryWrite buf => s.wholePosts (s.wholeMessages buf)
  | .tryFlushStage => if s.txStage.isEmpty then 0 else s.wholePosts 1
  | .tryRead n =>
    if n = 0 ∨ s.rxReady = [] then 0
    else s.returnPosts s.proactiveThreshold ((u32Add · 1)^[usedUp n s.rxReady] s.grantPending)
  | .returnOwedCredits urgent =>
    s.returnPosts (if urgent then 1 else s.proactiveThreshold) s.grantPending
  | _ => 0

/-- The device refuses the call none of its posts. -/
def Grants (a : Act) : Prop := s.Accepting (s.recvPosts a) (s.sendPosts a)

instance (a : Act) : Decidable (s.Grants a) := inferInstanceAs (Decidable (s.Accepting _ _))

end HordStream

/-- A call that was refused nothing, with `recvs` and `sends` posts left. -/
def Unrefused {α : Type} (recvs sends : Nat) (r : Except Fail α) (t : HordStream) : Prop :=
  match r with
  | .ok _ => t.Accepting recvs sends
  | .error (.io _) => False
  | .error (.panic _) => True

section Device
variable {c : Connection}

theorem deviceCall_passes {c : Connection} (hf : c.faults.headD false = false)
    {Q : Except Fail Unit → Connection → Prop} (hok : Q (.ok ()) { c with faults := c.faults.tail }) :
    wp Connection.deviceCall c Q := by
  unfold wp Connection.deviceCall
  cases hfs : c.faults with
  | nil =>
    rw [hfs, List.tail_nil, ← hfs] at hok
    exact hok
  | cons f fs =>
    rw [hfs] at hf hok
    have hhead : f = false := hf
    subst hhead
    exact hok

theorem takes_succ (c : Connection) (k : Nat) : c.takes (k + 1) =
    (!c.faults.headD false && Connection.takes { c with faults := c.faults.tail } k) := by
  unfold Connection.takes
  cases c.faults with
  | nil => simp
  | cons f fs => cases f <;> simp

theorem takes_zero (c : Connection) : c.takes 0 = c.qp := by simp [Connection.takes]

theorem deviceCall_head {c : Connection} {Q : Except Fail Unit → Connection → Prop}
    (hok : c.faults.headD false = false → Q (.ok ()) { c with faults := c.faults.tail })
    (herr : c.faults.headD false = true → ∀ m, Q (.error (.other m)) { c with faults := c.faults.tail }) :
    wp Connection.deviceCall c Q := by
  cases hf : c.faults.headD false with
  | false => exact deviceCall_passes hf (hok hf)
  | true =>
    have herr' := herr hf "device call failed"
    unfold wp Connection.deviceCall
    cases hfs : c.faults with
    | nil => rw [hfs] at hf; cases hf
    | cons f fs =>
      rw [hfs] at hf herr'
      have hhead : f = true := hf
      subst hhead
      exact herr'

theorem takes_mono {c : Connection} {j k : Nat} (h : c.takes k = true) (hle : j ≤ k) : c.takes j = true := by
  unfold Connection.takes at *
  simp only [Bool.and_eq_true, List.all_eq_true] at *
  exact ⟨h.1, fun f hf => h.2 f ((List.take_subset_take_left _ hle) hf)⟩

theorem postRecv_takes {c : Connection} {w : RecvWr} {Q : Except Fail Unit → Connection → Prop}
    (hok : c.takes 1 = true → Q (.ok ()) { c with faults := c.faults.tail, rq := c.rq ++ [w] })
    (herr : c.takes 1 = false → ∀ fs e, Q (.error (.io e)) { c with faults := fs }) :
    wp (Connection.postRecv w) c Q := by
  rw [takes_succ, takes_zero] at hok herr
  cases hqp : c.qp with
  | false =>
    have hdown : wp (Connection.postRecv w) c Q ↔ Q (.error (.other "connection has been shut down")) c := by
      unfold Connection.postRecv Connection.withQp wp
      simp only [hqp, Bool.false_eq_true, if_false]
    exact hdown.mpr (herr (by simp [hqp]) c.faults _)
  | true =>
    have hup : wp (Connection.postRecv w) c Q ↔
        wp (Connection.deviceCall >>= fun _ => modify fun c => { c with rq := c.rq ++ [w] }) c Q := by
      unfold Connection.postRecv Connection.withQp wp
      simp only [hqp, if_true]
    rw [hup, wp_bind]
    simp only [wp_modify]
    refine deviceCall_head (fun hf => ?_) fun hf m => ?_
    · exact hok (by rw [hf, hqp]; rfl)
    · exact herr (by rw [hf]; rfl) _ _

/-- A message is posted if the device takes it and the send queue has room. -/
theorem postSend_takes {w : SendWr} {Q : Except Fail Unit → Connection → Prop}
    (hok : c.takes 1 = true → c.sqUsed < sqLimit →
      Q (.ok ()) { c with faults := c.faults.tail, out := c.out ++ [w] })
    (herr : (c.takes 1 = true → sqLimit ≤ c.sqUsed) → ∀ fs e, Q (.error (.io e)) { c with faults := fs }) :
    wp (Connection.postSend w) c Q := by
  rw [takes_succ, takes_zero] at hok herr
  cases hqp : c.qp with
  | false =>
    have hdown : wp (Connection.postSend w) c Q ↔ Q (.error (.other "connection has been shut down")) c := by
      unfold Connection.postSend Connection.withQp wp
      simp only [hqp, Bool.false_eq_true, if_false]
    exact hdown.mpr (herr (by simp [hqp]) c.faults _)
  | true =>
    have hup : wp (Connection.postSend w) c Q ↔ wp (Connection.deviceCall >>= fun _ => do
        let c ← get
        if c.sqUsed < sqLimit then set { c with out := c.out ++ [w] }
        else throw (.other "send queue full")) c Q := by
      unfold Connection.postSend Connection.withQp wp
      simp only [hqp, if_true]
    rw [hup, wp_bind]
    refine deviceCall_head (fun hf => ?_) fun hf m => herr (fun hno => ?_) _ _
    swap
    · rw [hf] at hno
      cases hno
    simp only [wp_bind, wp_get, wp_ite]
    split
    · next hroom => exact hok (by rw [hf, hqp]; rfl) hroom
    · next hfull => exact herr (fun _ => Nat.not_lt.mp hfull) _ _

end Device

section Accepting
variable {s t : HordStream} {recvs sends : Nat}

namespace HordStream

/-- What the device takes depends on nothing but the device. -/
theorem Accepting.congr (h : s.Accepting recvs sends) (hconn : t.conn = s.conn) : t.Accepting recvs sends :=
  ⟨fun hpos => by rw [hconn]; exact h.taken hpos, fun hpos => by rw [hconn]; exact h.room hpos⟩

theorem Accepting.mono {recvs' sends' : Nat} (h : s.Accepting recvs sends) (hr : recvs' ≤ recvs)
    (hs : sends' ≤ sends) : s.Accepting recvs' sends' := by
  refine ⟨fun hpos => takes_mono (h.taken (by omega)) (by omega), fun hpos => ?_⟩
  have := h.room (by omega)
  omega

theorem Grants.accepting {a : Act} (h : s.Grants a) :
    s.Accepting (0 + s.recvPosts a) (0 + s.sendPosts a) := by
  rw [Nat.zero_add, Nat.zero_add]
  exact h

end HordStream

/-- A receive is taken. -/
theorem postRecv_taken (h : s.Accepting (recvs + 1) sends) {w : RecvWr}
    {Q : Except Fail Unit → HordStream → Prop}
    (hok : ∀ t : HordStream, t.Accepting recvs sends → (∃ conn, t = { s with conn := conn }) → Q (.ok ()) t) :
    wp (dev (Connection.postRecv w)) s Q := by
  have htaken := h.taken (by omega)
  have hrest : s.conn.takes (recvs + sends + 1) = true := by rwa [Nat.add_right_comm]
  rw [takes_succ, Bool.and_eq_true] at hrest
  rw [dev_wp]
  refine postRecv_takes (fun _ => ?_) fun hno => ?_
  · exact hok _ ⟨fun _ => hrest.2, h.room⟩ ⟨_, rfl⟩
  · rw [takes_mono htaken (by omega)] at hno
    cases hno

/-- A message is taken. -/
theorem postSend_taken (h : s.Accepting recvs (sends + 1)) {w : SendWr}
    {Q : Except Fail Unit → HordStream → Prop}
    (hok : ∀ t : HordStream, t.Accepting recvs sends → (∃ conn, t = { s with conn := conn }) → Q (.ok ()) t) :
    wp (dev (Connection.postSend w)) s Q := by
  have htaken := h.taken (by omega)
  have hroom := h.room (by omega)
  have hrest : s.conn.takes (recvs + sends + 1) = true := htaken
  rw [takes_succ, Bool.and_eq_true] at hrest
  rw [dev_wp]
  refine postSend_takes (fun _ _ => ?_) fun hno => ?_
  · refine hok _ ⟨fun _ => hrest.2, fun hpos => ?_⟩ ⟨_, rfl⟩
    simp only [Connection.sqUsed, List.length_append, List.length_singleton] at hroom ⊢
    omega
  · have := hno (takes_mono htaken (by omega))
    omega

/-- A copy into a buffer returns it or panics. -/
theorem copyIn_either {buf src : Bytes} {off : Nat} {Q : Except Fail Bytes → HordStream → Prop}
    (hok : ∀ b, Q (.ok b) s) (herr : ∀ m, Q (.error (.panic m)) s) : wp (copyIn buf off src) s Q := by
  simp only [copyIn, wp_ite]
  split
  · exact hok _
  · exact herr _

/-- A message is laid down and taken. -/
theorem postInto_taken (h : s.Accepting recvs (sends + 1)) (slot wrId : Nat) (env : Envelope) (payload : Bytes) :
    wp (postInto slot wrId env payload) s fun r t => match r with
      | .ok () => t.Accepting recvs sends ∧ ∃ send conn, t = { s with send := send, conn := conn }
      | .error (.io _) => False
      | .error (.panic _) => True := by
  simp only [postInto, wp_bind, wp_get]
  refine copyIn_either (fun b => ?_) fun _ => trivial
  simp only [wp_modify]
  refine copyIn_either (fun b' => ?_) fun _ => trivial
  refine postSend_taken (s := { s with send := b' }) (h.congr rfl) ?_
  rintro t ht ⟨conn, rfl⟩
  exact ⟨ht, b', conn, rfl⟩

theorem maybeReturnCredits_unrefused {threshold : Nat}
    (h : s.Accepting recvs (sends + s.returnPosts threshold s.grantPending)) :
    wp (maybeReturnCredits threshold) s (Unrefused recvs sends) := by
  have hnone : s.Accepting recvs sends := h.mono (Nat.le_refl _) (Nat.le_add_right _ _)
  simp only [maybeReturnCredits, wp_bind, wp_get, wp_ite]
  split
  · next hle =>
    simp only [sendCreditReturn, wp_bind, wp_get, wp_ite]
    split
    · exact hnone
    · next hsend =>
      rw [HordStream.returnPosts, if_pos ⟨hle, hsend⟩] at h
      simp only [wp_bind, attempt_wp]
      refine wp_mono (postInto_taken h _ _ _ _) ?_
      intro r t hr
      cases r with
      | ok _ => exact hr.1.congr rfl
      | error e =>
        cases e with
        | io _ => exact hr.elim
        | panic _ => trivial
  · exact hnone

theorem returnOwedCredits_unrefused {urgent : Bool}
    (h : s.Accepting recvs (sends + s.sendPosts (.returnOwedCredits urgent))) :
    wp (returnOwedCredits urgent) s (Unrefused recvs sends) := by
  rw [returnOwedCredits, wp_bind, wp_get]
  exact maybeReturnCredits_unrefused h

/-! Reading. -/

theorem postRecvSlot_taken (slot : Nat) (h : s.Accepting (recvs + 1) sends) :
    wp (postRecvSlot slot) s fun r t => match r with
      | .ok () => t.Accepting recvs sends ∧ ∃ conn, t = { s with conn := conn }
      | .error (.io _) => False
      | .error (.panic _) => True := by
  simp only [postRecvSlot, recvSlot, wp_bind, wp_get, wp_ite]
  split
  · simp only [wp_pure, wp_bind, attempt_wp]
    exact postRecv_taken h fun t ht heq => ⟨ht, heq⟩
  · trivial

@[simp]
theorem usedUp_zero (ms : List ReadyMsg) : usedUp 0 ms = 0 := by
  cases ms with
  | nil => rfl
  | cons msg rest => exact if_neg fun h => h.1 rfl

theorem usedUp_all {n : Nat} {msg : ReadyMsg} (rest : List ReadyMsg) (hn : n ≠ 0) (hle : msg.stop - msg.start ≤ n) :
    usedUp n (msg :: rest) = usedUp (n - (msg.stop - msg.start)) rest + 1 := if_pos ⟨hn, hle⟩

theorem usedUp_part {n : Nat} {msg : ReadyMsg} (rest : List ReadyMsg) (hlt : n < msg.stop - msg.start) :
    usedUp n (msg :: rest) = 0 := if_neg fun h => absurd h.2 (Nat.not_le.mpr hlt)

theorem usedUp_le (n : Nat) (ready : List ReadyMsg) : usedUp n ready ≤ ready.length := by
  induction ready generalizing n with
  | nil => exact Nat.le_refl _
  | cons msg rest ih =>
    rw [usedUp]
    split
    · exact Nat.succ_le_succ (ih _)
    · exact Nat.zero_le _

/-- What using up `used` messages leaves: that many slots re-posted, and a credit owed
    for each. -/
def Taken {α : Type} (used recvs sends : Nat) (s : HordStream) (r : Except Fail α) (t : HordStream) : Prop :=
  match r with
  | .ok _ => t.Accepting recvs sends ∧ ∃ conn ready,
      t = { s with conn := conn, rxReady := ready, grantPending := (u32Add · 1)^[used] s.grantPending }
  | .error (.io _) => False
  | .error (.panic _) => True

theorem drainReady_taken (fuel want : Nat) (acc : Bytes) (hready : ∀ msg ∈ s.rxReady, msg.start ≤ msg.stop)
    (hfuel : usedUp want s.rxReady ≤ fuel) (h : s.Accepting (recvs + usedUp want s.rxReady) sends) :
    wp (drainReady fuel want acc) s (Taken (usedUp want s.rxReady) recvs sends s) := by
  -- each round either uses the oldest message up, which takes one of the posts, or is the last
  induction fuel generalizing s want acc with
  | zero =>
    rw [Nat.le_zero.mp hfuel] at h ⊢
    exact ⟨h, s.conn, s.rxReady, rfl⟩
  | succ fuel ih =>
    simp only [drainReady, wp_ite, wp_bind, wp_get]
    split
    · next hz =>
      subst hz
      rw [usedUp_zero] at h ⊢
      exact ⟨h, s.conn, s.rxReady, rfl⟩
    · next hz =>
      cases heq : s.rxReady with
      | nil =>
        rw [heq] at h
        exact ⟨h, s.conn, s.rxReady, rfl⟩
      | cons msg rest =>
        rw [heq] at h hfuel hready
        have hmsg := hready msg (List.mem_cons_self ..)
        have hrest : ∀ m ∈ rest, m.start ≤ m.stop := fun m hm => hready m (List.mem_cons_of_mem _ hm)
        simp only [recvSlot, copyOut, wp_bind, wp_get, wp_ite]
        split
        swap
        · trivial
        simp only [wp_pure]
        split
        swap
        · trivial
        split
        · -- the message is used up
          next hfin =>
          have hall : min (msg.stop - msg.start) want = msg.stop - msg.start := by omega
          rw [hall]
          rw [usedUp_all rest hz (by omega)] at h hfuel ⊢
          simp only [wp_modify]
          refine wp_mono (postRecvSlot_taken (s := { s with rxReady := rest }) msg.slot (h.congr rfl)) ?_
          intro r t hr
          cases r with
          | error e =>
            cases e with
            | io _ => exact hr.elim
            | panic _ => trivial
          | ok _ =>
            obtain ⟨ht, conn, rfl⟩ := hr
            refine wp_mono (ih (s := { s with
              rxReady := rest, conn := conn, grantPending := u32Add s.grantPending 1 }) _ _ hrest
              (Nat.le_of_succ_le_succ hfuel) (ht.congr rfl)) ?_
            intro r u hu
            cases r with
            | error e =>
              cases e with
              | io _ => exact hu.elim
              | panic _ => trivial
            | ok _ =>
              obtain ⟨hu, conn', ready, rfl⟩ := hu
              exact ⟨hu, conn', ready, rfl⟩
        · -- all that was wanted came out of it
          next hpart =>
          have htake : min (msg.stop - msg.start) want = want := by omega
          rw [htake, Nat.sub_self]
          rw [usedUp_part rest (by omega)] at h ⊢
          simp only [wp_modify]
          have hhead : ∀ m ∈ { msg with start := msg.start + want } :: rest, m.start ≤ m.stop := by
            intro m hm
            rcases List.mem_cons.mp hm with rfl | hm
            · show msg.start + want ≤ msg.stop
              omega
            · exact hrest m hm
          refine wp_mono (ih (s := { s with rxReady := { msg with start := msg.start + want } :: rest })
            0 _ hhead (by rw [usedUp_zero]; exact Nat.zero_le _) (by rw [usedUp_zero]; exact h.congr rfl)) ?_
          intro r u hu
          rw [usedUp_zero] at hu
          cases r with
          | error e =>
            cases e with
            | io _ => exact hu.elim
            | panic _ => trivial
          | ok _ =>
            obtain ⟨hu, conn', ready, rfl⟩ := hu
            exact ⟨hu, conn', ready, rfl⟩

theorem tryRead_unrefused (n : Nat) (hwf : Wf s)
    (h : s.Accepting (recvs + s.recvPosts (.tryRead n)) (sends + s.sendPosts (.tryRead n))) :
    wp (tryRead n) s (Unrefused recvs sends) := by
  have hnone : s.Accepting recvs sends := h.mono (Nat.le_add_right _ _) (Nat.le_add_right _ _)
  simp only [tryRead, wp_bind, wp_get, wp_ite]
  split
  · exact hnone
  · next hn =>
    split
    · exact hnone
    · next hready =>
      have hwork : ¬(n = 0 ∨ s.rxReady = []) := fun hz =>
        hz.elim hn fun hnil => hready (by rw [hnil]; rfl)
      rw [HordStream.sendPosts, if_neg hwork] at h
      -- the receives go first; what is left of the sends is for the credit-only message
      refine wp_mono (drainReady_taken _ _ _ (fun msg hm => (hwf.ready msg hm).start_lt.le)
        (Nat.le_succ_of_le (usedUp_le n _)) h) ?_
      intro r t hr
      cases r with
      | error e =>
        cases e with
        | io _ => exact hr.elim
        | panic _ => trivial
      | ok _ =>
        obtain ⟨ht, conn, ready, rfl⟩ := hr
        refine wp_mono (maybeReturnCredits_unrefused ht) ?_
        intro r u hu
        cases r with
        | error e =>
          cases e with
          | io _ => exact hu.elim
          | panic _ => trivial
        | ok _ => exact hu

/-! Writing. -/

/-- What a data message costs. -/
structure Spent (s t : HordStream) : Prop where
  slot : s.sendFree.length = t.sendFree.length + 1
  credit : t.sendCredits = s.sendCredits - 1
  owed : t.grantPending = s.grantPending - min s.grantPending u16Max
  busy : t.ctrlSendBusy = s.ctrlSendBusy
  closed : t.peerClosed = s.peerClosed
  cap : t.payloadCap = s.payloadCap

theorem postDataMessage_taken (payload : Bytes) (h : s.Accepting recvs (sends + 1)) :
    wp (postDataMessage payload) s fun r t => match r with
      | .ok () => t.Accepting recvs sends ∧ Spent s t
      | .error (.io _) => False
      | .error (.panic _) => True := by
  simp only [postDataMessage, wp_bind, wp_get]
  cases hfree : s.sendFree with
  | nil => trivial
  | cons slot rest =>
    simp only [wp_bind, wp_set, attempt_wp]
    refine wp_mono (postInto_taken (s := { s with sendFree := rest }) (h.congr rfl) _ _ _ _) ?_
    intro r t hr
    cases r with
    | error e =>
      cases e with
      | io _ => exact hr.elim
      | panic _ => trivial
    | ok _ =>
      obtain ⟨ht, send, conn, rfl⟩ := hr
      exact ⟨ht.congr rfl, by rw [hfree]; rfl, rfl, rfl, rfl, rfl, rfl⟩

/-- A write that cannot send returns the credits its message would have taken along. -/
theorem HordStream.wholePosts_stuck {whole : Nat} (hcan : s.canSendData = false) (hpos : 0 < whole) :
    s.returnPosts 1 s.grantPending ≤ s.wholePosts whole := by
  have hstuck : s.admits whole = 0 := by
    rw [HordStream.admits]
    split
    · rfl
    · next hopen =>
      rw [HordStream.canSendData, eq_false_of_ne_true hopen] at hcan
      rcases Nat.eq_zero_or_pos s.sendCredits with hc | hc
      · omega
      · have hfree : s.sendFree = [] := by simpa [hc] using hcan
        rw [hfree, List.length_nil]
        omega
  rw [HordStream.wholePosts, hstuck, if_pos hpos, Nat.zero_mul, Nat.sub_zero]
  exact Nat.le_add_left _ _

theorem Spent.admits (whole : Nat) (h : Spent s t) (hopen : s.peerClosed = false)
    (hcred : 0 < s.sendCredits) : s.admits (whole + 1) = t.admits whole + 1 := by
  have hslot := h.slot
  have hcredit := h.credit
  simp only [HordStream.admits, h.closed, hopen, Bool.false_eq_true, if_false]
  omega

/-- One message posted is one fewer to post. -/
theorem Spent.wholePosts (whole : Nat) (h : Spent s t) (hopen : s.peerClosed = false)
    (hcred : 0 < s.sendCredits) : s.wholePosts (whole + 1) = t.wholePosts whole + 1 := by
  have hadmits := h.admits whole hopen hcred
  have howed : s.grantPending - (t.admits whole + 1) * u16Max =
      t.grantPending - t.admits whole * u16Max := by
    rw [h.owed, Nat.succ_mul]
    omega
  have hreturns : ∀ owed, s.returnPosts 1 owed = t.returnPosts 1 owed := by
    intro owed
    simp only [HordStream.returnPosts, h.busy, h.closed]
  simp only [HordStream.wholePosts, hadmits, howed, hreturns, Nat.add_lt_add_iff_right]
  omega

/-- A message made of the stage and what fills it up, then the rest. -/
theorem postDataMessage_unrefused {α : Type} (whole : Nat) (stage : Bytes) {x : M α} {payload : Bytes}
    (hcan : s.canSendData = true) (h : s.Accepting recvs (sends + s.wholePosts (whole + 1)))
    (hx : ∀ t : HordStream, t.Accepting recvs (sends + t.wholePosts whole) → t.payloadCap = s.payloadCap →
      wp x t (Unrefused recvs sends)) :
    wp (postDataMessage payload >>= fun _ => x) { s with txStage := stage } (Unrefused recvs sends) := by
  obtain ⟨hopen, hne, hcred⟩ := canSendData_iff.mp hcan
  have hpos : 0 < s.wholePosts (whole + 1) := by
    have hfree := List.length_pos_iff.mpr hne
    simp only [HordStream.wholePosts, HordStream.admits, hopen, Bool.false_eq_true, if_false]
    omega
  have hone : s.Accepting recvs (sends + (s.wholePosts (whole + 1) - 1) + 1) :=
    h.mono (Nat.le_refl _) (by omega)
  rw [wp_bind]
  refine wp_mono (postDataMessage_taken (s := { s with txStage := stage }) payload (hone.congr rfl)) ?_
  intro r t hr
  cases r with
  | error e =>
    cases e with
    | io _ => exact hr.elim
    | panic _ => trivial
  | ok _ =>
    obtain ⟨ht, hspent⟩ := hr
    have hposts : s.wholePosts (whole + 1) = t.wholePosts whole + 1 :=
      Spent.wholePosts whole ⟨hspent.slot, hspent.credit, hspent.owed, hspent.busy, hspent.closed, hspent.cap⟩
        hopen hcred
    rw [hposts, Nat.add_sub_cancel] at ht
    exact hx t ht hspent.cap

/-- A write that cannot send. -/
theorem stuck_unrefused {α : Type} {v : α} {whole : Nat} (hcan : s.canSendData = false) (hpos : 0 < whole)
    (h : s.Accepting recvs (sends + s.wholePosts whole)) :
    wp (maybeReturnCredits 1 >>= fun _ => pure v) s (Unrefused recvs sends) := by
  have hstuck := HordStream.wholePosts_stuck hcan hpos
  rw [wp_bind]
  refine wp_mono (maybeReturnCredits_unrefused (h.mono (Nat.le_refl _) (Nat.add_le_add_left hstuck sends))) ?_
  intro r t hr
  cases r with
  | error e =>
    cases e with
    | io _ => exact hr.elim
    | panic _ => trivial
  | ok _ => exact hr

theorem sendWhole_unrefused {cap : Nat} (hcap : 0 < cap) (fuel : Nat) (input : Bytes) (consumed : Nat)
    (h : s.Accepting recvs (sends + s.wholePosts (input.length / cap))) :
    wp (sendWhole cap fuel input consumed) s (Unrefused recvs sends) := by
  have hnone : s.Accepting recvs sends := h.mono (Nat.le_refl _) (Nat.le_add_right _ _)
  induction fuel generalizing s input consumed with
  | zero => exact hnone
  | succ fuel ih =>
    rw [sendWhole]
    split
    · next hle =>
      have hdiv : input.length / cap = (input.drop cap).length / cap + 1 := by
        rw [List.length_drop, ← Nat.add_div_right _ hcap, Nat.sub_add_cancel hle]
      rw [hdiv] at h
      rw [wp_bind, wp_get]
      simp only
      split
      · next hcan => exact stuck_unrefused (by simpa using hcan) (Nat.succ_pos _) h
      · next hcan =>
        exact postDataMessage_unrefused _ s.txStage (by simpa using hcan) h fun t ht _ =>
          ih _ _ ht (ht.mono (Nat.le_refl _) (Nat.le_add_right _ _))
    · -- the rest is staged
      exact hnone.congr rfl

theorem tryFlushStage_unrefused (h : s.Accepting recvs (sends + s.sendPosts .tryFlushStage)) :
    wp tryFlushStage s (Unrefused recvs sends) := by
  simp only [tryFlushStage]
  rw [wp_bind, wp_get]
  simp only [wp_ite]
  split
  · exact h.mono (Nat.le_refl _) (Nat.le_add_right _ _)
  · next hstage =>
    rw [HordStream.sendPosts, if_neg hstage] at h
    split
    · next hcan => exact stuck_unrefused (by simpa using hcan) Nat.one_pos h
    · next hcan =>
      rw [wp_bind, wp_modify]
      exact postDataMessage_unrefused 0 [] (by simpa using hcan) h fun t ht _ =>
        ht.mono (Nat.le_refl _) (Nat.le_add_right _ _)

/-- A write is refused on a closed stream only. -/
theorem tryWrite_unrefused (hwf : Wf s) (hopen : s.peerClosed = false) (buf : Bytes)
    (h : s.Accepting recvs (sends + s.sendPosts (.tryWrite buf))) :
    wp (tryWrite buf) s (Unrefused recvs sends) := by
  have hcap := hwf.cap_pos
  have hstage := hwf.stage_lt
  have hnone : s.Accepting recvs sends := h.mono (Nat.le_refl _) (Nat.le_add_right _ _)
  rw [HordStream.sendPosts, HordStream.wholeMessages] at h
  simp only [tryWrite]
  rw [wp_bind, wp_get]
  simp only [hopen, Bool.false_eq_true, if_false, wp_ite]
  split
  · next hempty =>
    rw [List.isEmpty_iff.mp hempty, List.length_nil, Nat.zero_add] at h
    exact sendWhole_unrefused hcap _ _ _ h
  · split
    · exact hnone.congr rfl
    · next htake =>
      -- the stage is topped up to one message, the rest is as for an empty stage
      generalize htk : min (s.payloadCap - s.txStage.length) buf.length = take at htake ⊢
      have hdiv : (s.txStage.length + buf.length) / s.payloadCap =
          (buf.drop take).length / s.payloadCap + 1 := by
        rw [List.length_drop, ← Nat.add_div_right _ hcap]
        congr 1
        omega
      rw [hdiv] at h
      split
      · next hcan => exact stuck_unrefused (by simpa using hcan) (Nat.succ_pos _) h
      · next hcan =>
        rw [wp_bind, wp_modify]
        refine postDataMessage_unrefused _ [] (by simpa using hcan) h fun t ht hsame => ?_
        rw [← hsame] at ht hcap ⊢
        exact sendWhole_unrefused hcap _ _ _ ht

end Accepting

end Hord
