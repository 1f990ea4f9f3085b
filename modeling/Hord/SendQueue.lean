import Hord.Accepting
import Hord.Windows

/- The depth of the send queue. Data messages, the control message and one-sided writes
   share it, but are admitted by different rules: a write counts the writes already
   outstanding against the free slots, a data message does not. As long as the data
   messages keep to the rule of the writes, the queue holds at most one message more than
   the pool, and the control message (`send_queue_bounded`). -/
namespace Hord

open Region Prog Transition

/-- How many of the next `k` calls the device lets through before it fails one. -/
def letThrough : List Bool → Nat → Nat
  | [], k => k
  | _ :: _, 0 => 0
  | f :: fs, k + 1 => if f then 0 else letThrough fs k + 1

/-- How many of `k` messages in a row the device takes. -/
def Connection.taken (c : Connection) (k : Nat) : Nat :=
  if c.qp then min (letThrough c.faults k) (sqLimit - c.sqUsed) else 0

namespace HordStream
variable (s : HordStream)

/-- Send-queue requests posted and not yet completed, as the stream counts them. -/
def sqPosted : Nat :=
  s.geo.sendPool - s.sendFree.length + s.ctrlSendBusy.toNat + s.writesOutstanding

/-- Each data message the call gets posted is posted with no more writes outstanding than
    send slots free, the rule a write is admitted by. -/
def leavesRoom (a : Act) : Bool :=
  s.conn.taken (s.dataPosts a) == 0 ||
    decide (s.writesOutstanding + s.conn.taken (s.dataPosts a) ≤ s.sendFree.length + 1)

/-- Writes are admitted only up to the free slots; one data message may come on top. -/
def Roomy : Prop := s.writesOutstanding ≤ s.sendFree.length + 1

/-- What neither reading nor returning credits changes. -/
def pools : List Nat × Nat := (s.sendFree, s.writesOutstanding)

end HordStream

def Party.leavesRoom (p : Party) : Hord.Move → Bool
  | .act a _ => p.stream.leavesRoom a
  | _ => true

section Room
variable {s t : HordStream}

theorem unseen_pools : UnseenRead HordStream.pools id ∧ UnseenSend HordStream.pools id :=
  ⟨⟨⟨fun _ _ _ => rfl, fun _ => rfl⟩, fun _ _ => rfl, fun _ _ => rfl⟩,
    fun _ _ => rfl, fun _ _ _ _ _ _ => rfl, fun _ _ => rfl, fun _ _ _ => rfl, fun _ => rfl⟩

theorem unseen_pools_device : UnseenDevice HordStream.pools := fun _ _ _ _ _ => rfl

theorem letThrough_zero (fs : List Bool) : letThrough fs 0 = 0 := by
  cases fs <;> rfl

theorem Connection.taken_zero (c : Connection) : c.taken 0 = 0 := by
  rw [Connection.taken, letThrough_zero]
  split <;> omega

/-- A message that is taken is the first of those that are. -/
theorem Connection.taken_succ {c : Connection} (h : c.takes 1 = true) (hroom : c.sqUsed < sqLimit)
    (w : SendWr) (k : Nat) : c.taken (k + 1) =
      Connection.taken { c with faults := c.faults.tail, out := c.out ++ [w] } k + 1 := by
  rw [takes_succ, takes_zero, Bool.and_eq_true, Bool.not_eq_true'] at h
  obtain ⟨hhead, hqp⟩ := h
  have hthrough : letThrough c.faults (k + 1) = letThrough c.faults.tail k + 1 := by
    cases hf : c.faults with
    | nil => rw [letThrough, List.tail_nil, letThrough]
    | cons f fs =>
      rw [hf] at hhead
      rw [letThrough, if_neg (by simpa using hhead), List.tail_cons]
  have hqp' : c.qp = true := hqp
  simp only [Connection.taken, hqp', if_true, hthrough, Connection.sqUsed, List.length_append,
    List.length_singleton] at hroom ⊢
  omega

theorem postInto_takes (slot wrId : Nat) (env : Envelope) (payload : Bytes) (s : HordStream) :
    wp (postInto slot wrId env payload) s fun r t =>
      (∃ send conn, t = { s with send := send, conn := conn }) ∧
        (r = .ok () → ∀ k, s.conn.taken (k + 1) = t.conn.taken k + 1) := by
  simp only [postInto, wp_bind, wp_get]
  refine copyIn_either (fun b => ?_) fun _ => ⟨⟨_, _, rfl⟩, fun h => (by cases h)⟩
  simp only [wp_modify]
  refine copyIn_either (fun b' => ?_) fun _ => ⟨⟨_, _, rfl⟩, fun h => (by cases h)⟩
  simp only [dev_wp]
  exact postSend_takes (fun htakes hroom => ⟨⟨b', _, rfl⟩, fun _ => s.conn.taken_succ htakes hroom _⟩)
    fun _ fs e => ⟨⟨b', _, rfl⟩, fun h => (by cases h)⟩

/-- A data message takes one slot and one credit; if it is refused, it takes none. -/
theorem postDataMessage_takes (payload : Bytes) (hcan : s.canSendData = true) :
    wp (postDataMessage payload) s fun r t => match r with
      | .ok () => Spent s t ∧ t.writesOutstanding = s.writesOutstanding ∧
          ∀ k, s.conn.taken (k + 1) = t.conn.taken k + 1
      | .error (.io _) => t.sendFree = s.sendFree ∧ t.writesOutstanding = s.writesOutstanding
      | .error (.panic _) => True := by
  obtain ⟨-, hne, -⟩ := canSendData_iff.mp hcan
  simp only [postDataMessage, wp_bind, wp_get]
  cases hfree : s.sendFree with
  | nil => exact absurd hfree hne
  | cons slot rest =>
    simp only [wp_bind, wp_set, attempt_wp]
    refine wp_mono (postInto_takes _ _ _ _ _) ?_
    rintro r u ⟨⟨send, conn, rfl⟩, ht⟩
    cases r with
    | ok _ => exact ⟨⟨by rw [hfree]; rfl, rfl, rfl, rfl, rfl, rfl⟩, rfl, ht rfl⟩
    | error e =>
      cases e with
      | io _ => exact ⟨rfl, rfl⟩
      | panic _ => trivial

/-- The call posts at most as many data messages as the device takes of `k`, and leaves
    the writes alone. -/
def PostsAtMost {α : Type} (k : Nat) (x : M α) (s : HordStream) : Prop :=
  wp x s fun r t => (∃ m, r = .error (.panic m)) ∨ t.writesOutstanding = s.writesOutstanding ∧
    s.sendFree.length ≤ t.sendFree.length + s.conn.taken k

theorem PostsAtMost.none {α : Type} {x : M α} (h : Keeps HordStream.pools id x) (k : Nat) :
    PostsAtMost k x s := by
  refine wp_mono (h s) ?_
  intro r t hr
  have hp : t.pools = s.pools := by
    match r with
    | .ok _ => exact hr
    | .error _ => exact hr
  obtain ⟨hf, hw⟩ := Prod.mk.inj hp
  exact .inr ⟨hw, by rw [hf]; omega⟩

theorem PostsAtMost.pure {α : Type} (v : α) (k : Nat) : PostsAtMost k (pure v : M α) s :=
  .inr ⟨rfl, Nat.le_add_right _ _⟩

/-- A message made of the stage and what fills it up, then the rest. -/
theorem PostsAtMost.post {α : Type} (whole : Nat) (stage : Bytes) {payload : Bytes} {x : M α}
    (hcan : s.canSendData = true)
    (hx : ∀ t : HordStream, t.payloadCap = s.payloadCap → PostsAtMost (t.admits whole) x t) :
    PostsAtMost (s.admits (whole + 1)) (postDataMessage payload >>= fun _ => x) { s with txStage := stage } := by
  obtain ⟨hopen, -, hcred⟩ := canSendData_iff.mp hcan
  rw [PostsAtMost, wp_bind]
  refine wp_mono (postDataMessage_takes (s := { s with txStage := stage }) payload hcan) ?_
  intro r t hr
  cases r with
  | ok _ =>
    obtain ⟨hspent, hw, htaken⟩ := hr
    have hadmits : s.admits (whole + 1) = t.admits whole + 1 := hspent.admits whole hopen hcred
    have hslot : s.sendFree.length = t.sendFree.length + 1 := hspent.slot
    have hone : s.conn.taken (t.admits whole + 1) = t.conn.taken (t.admits whole) + 1 := htaken _
    refine wp_mono (hx t hspent.cap) ?_
    intro r u hu
    refine hu.imp_right fun hu => ⟨hu.1.trans hw, ?_⟩
    show s.sendFree.length ≤ u.sendFree.length + s.conn.taken (s.admits (whole + 1))
    rw [hadmits, hone]
    omega
  | error e =>
    cases e with
    | io _ =>
      obtain ⟨hf, hw⟩ := hr
      exact .inr ⟨hw, by rw [hf]; omega⟩
    | panic m => exact .inl ⟨m, rfl⟩

theorem sendWhole_posts {cap : Nat} (hcap : 0 < cap) (fuel : Nat) (input : Bytes) (consumed : Nat) :
    PostsAtMost (s.admits (input.length / cap)) (sendWhole cap fuel input consumed) s := by
  induction fuel generalizing s input consumed with
  | zero => exact .pure _ _
  | succ fuel ih =>
    rw [sendWhole]
    split
    · next hle =>
      have hdiv : input.length / cap = (input.drop cap).length / cap + 1 := by
        rw [List.length_drop, ← Nat.add_div_right _ hcap, Nat.sub_add_cancel hle]
      rw [PostsAtMost, wp_bind, wp_get]
      simp only
      split
      · exact PostsAtMost.none (.bind (keeps_maybeReturnCredits unseen_pools.2 1) fun _ => .pure _) _
      · next hcan =>
        rw [hdiv]
        exact PostsAtMost.post _ s.txStage (by simpa using hcan) fun t _ => ih _ _
    · -- the rest is staged
      exact .inr ⟨rfl, Nat.le_add_right _ _⟩

theorem tryWrite_posts (buf : Bytes) (hwf : Wf s) :
    PostsAtMost (s.dataPosts (.tryWrite buf)) (tryWrite buf) s := by
  have hcap := hwf.cap_pos
  have hstage := hwf.stage_lt
  rw [HordStream.dataPosts, HordStream.wholeMessages, PostsAtMost, tryWrite, wp_bind, wp_get]
  simp only [wp_ite]
  split
  · exact .inr ⟨rfl, Nat.le_add_right _ _⟩
  · split
    · next hempty =>
      have hwhole := sendWhole_posts (s := s) hcap (buf.length + 1) buf 0
      rw [List.isEmpty_iff.mp hempty, List.length_nil, Nat.zero_add]
      exact hwhole
    · split
      · exact .inr ⟨rfl, Nat.le_add_right _ _⟩
      · next htake =>
        split
        · exact PostsAtMost.none (.bind (keeps_maybeReturnCredits unseen_pools.2 1) fun _ => .pure _) _
        · next hcan =>
          -- the stage is topped up to one message, the rest is as for an empty stage
          generalize htk : min (s.payloadCap - s.txStage.length) buf.length = take at htake ⊢
          have hdiv : (s.txStage.length + buf.length) / s.payloadCap =
              (buf.drop take).length / s.payloadCap + 1 := by
            rw [List.length_drop, ← Nat.add_div_right _ hcap]
            congr 1
            omega
          rw [hdiv, wp_bind, wp_modify]
          exact PostsAtMost.post _ [] (by simpa using hcan) fun t hsame => by
            rw [← hsame] at hcap ⊢
            exact sendWhole_posts hcap _ _ _

theorem tryFlushStage_posts : PostsAtMost (s.dataPosts .tryFlushStage) tryFlushStage s := by
  rw [PostsAtMost, tryFlushStage, wp_bind, wp_get]
  simp only [wp_ite]
  split
  · exact .inr ⟨rfl, Nat.le_add_right _ _⟩
  · next hstage =>
    rw [HordStream.dataPosts, if_neg hstage]
    split
    · exact PostsAtMost.none (.bind (keeps_maybeReturnCredits unseen_pools.2 1) fun _ => .pure _) _
    · next hcan =>
      rw [wp_bind, wp_modify]
      exact PostsAtMost.post 0 [] (by simpa using hcan) fun t _ => .pure _ _

/-- A call that posts within the rule stays within it. -/
theorem PostsAtMost.roomy {α : Type} {k : Nat} {x : M α} (h : PostsAtMost k x s) (hs : s.Roomy)
    (hk : s.conn.taken k = 0 ∨ s.writesOutstanding + s.conn.taken k ≤ s.sendFree.length + 1) :
    wp x s fun r t => (∃ m, r = .error (.panic m)) ∨ t.Roomy := by
  refine wp_mono h ?_
  intro r t ht
  refine ht.imp_right fun ht => ?_
  rw [HordStream.Roomy] at hs ⊢
  omega

theorem Handled.roomy {wc : Completion} {ok : Bool} (h : Handled s wc ok t) (hs : s.Roomy) :
    t.Roomy := by
  unfold HordStream.Roomy at hs ⊢
  rcases h.sending (f := fun u => (u.writesOutstanding, u.sendFree.length))
    ⟨fun _ => rfl, fun _ _ => rfl, fun _ _ _ _ _ => rfl⟩ with hsame | hdone | hreclaimed
  · obtain ⟨hw, hfree⟩ := Prod.mk.inj hsame
    rw [hw, hfree]
    exact hs
  · obtain ⟨hw, hfree⟩ := Prod.mk.inj hdone
    rw [hw, hfree]
    exact Nat.le_trans (Nat.sub_le _ _) hs
  · obtain ⟨hw, hfree⟩ := Prod.mk.inj hreclaimed
    rw [hw, hfree]
    unfold HordStream.reclaimed
    split
    · exact hs
    · exact Nat.le_trans hs (Nat.le_succ _)

theorem foldl_wrote_pools (ws : List SendWr) (s : HordStream) :
    (ws.foldl HordStream.wrote s).sendFree = s.sendFree ∧
      (ws.foldl HordStream.wrote s).writesOutstanding ≤ s.writesOutstanding + ws.length := by
  induction ws generalizing s with
  | nil => exact ⟨rfl, Nat.le_refl _⟩
  | cons w ws ih =>
    obtain ⟨hf, hw⟩ := ih (s.wrote w)
    have hone : (s.wrote w).writesOutstanding ≤ s.writesOutstanding + 1 := Nat.mod_le _ _
    refine ⟨hf, ?_⟩
    rw [List.foldl_cons, List.length_cons]
    omega

theorem Begun.roomy {ws : List SendWr} {imm : Option Nat} {r : Except Fail Unit}
    (h : Begun s ws imm r t) (hs : s.Roomy) : t.Roomy := by
  -- admitted requests fit next to the outstanding ones
  have posted : ∀ vs : List SendWr, vs.length ≤ ws.length → Admitted s ws imm →
      (vs.foldl HordStream.wrote s).Roomy := by
    intro vs hlen hadm
    obtain ⟨hf, hw⟩ := foldl_wrote_pools vs s
    have hslots := hadm.slots
    rw [HordStream.Roomy, hf]
    rw [HordStream.Roomy] at hs
    omega
  match r with
  | .ok () =>
    obtain ⟨hadm | hadm, fs, rfl⟩ := h
    · rw [hadm.1]
      exact hs
    · exact posted ws (Nat.le_refl _) hadm
  | .error (.io e) =>
    rcases h with ⟨-, rfl⟩ | ⟨-, hadm, k, hk, fs, rfl⟩
    · exact hs
    · exact posted (ws.take k) (List.length_take_le' _ _) hadm
  | .error (.panic _) => exact h.elim

theorem Act.run_roomy {a : Act} (hwf : Wf s) (hs : s.Roomy) (ha : s.leavesRoom a = true) :
    wp a.run s fun _ t => t.Roomy := by
  have within : s.conn.taken (s.dataPosts a) = 0 ∨
      s.writesOutstanding + s.conn.taken (s.dataPosts a) ≤ s.sendFree.length + 1 := by
    simpa [HordStream.leavesRoom] using ha
  have quiet : ∀ {x : M Res}, Keeps HordStream.pools id x →
      wp x s fun r t => (∃ m, r = .error (.panic m)) ∨ t.Roomy :=
    fun hx => PostsAtMost.roomy (PostsAtMost.none hx 0) hs (.inl s.conn.taken_zero)
  -- what a call leaves is not changed by returning its result
  have after : ∀ {α : Type} {x : M α} {k : α → Res},
      wp x s (fun r t => (∃ m, r = .error (.panic m)) ∨ t.Roomy) →
      wp (x >>= fun v => pure (k v)) s fun r t => (∃ m, r = .error (.panic m)) ∨ t.Roomy := by
    intro α x k hx
    rw [wp_bind]
    refine wp_mono hx ?_
    intro r t ht
    match r with
    | .ok _ => exact .inr (ht.resolve_left fun ⟨_, hm⟩ => by cases hm)
    | .error e => exact ht.imp_left fun ⟨m, hm⟩ => ⟨m, congrArg Except.error (Except.error.inj hm)⟩
  obtain ⟨hread, hsend⟩ := unseen_pools
  have roomy : wp a.run s fun r t => (∃ m, r = .error (.panic m)) ∨ t.Roomy := by
    cases a with
    | tryWrite buf => exact after ((tryWrite_posts buf hwf).roomy hs within)
    | tryFlushStage => exact after (tryFlushStage_posts.roomy hs within)
    | tryRead n => exact quiet (Act.keeps ⟨hread, hsend⟩)
    | returnOwedCredits urgent => exact quiet (Act.keeps hsend)
    | pump =>
      refine after (wp_mono (pumpOnce_wp hwf) ?_)
      intro r t hr
      match r with
      | .ok true =>
        obtain ⟨fs, wc, rest, -, hh⟩ := hr
        exact .inr (hh.roomy hs)
      | .ok false =>
        obtain ⟨-, fs, rfl⟩ := hr
        exact .inr hs
      | .error (.io _) =>
        rcases hr with ⟨fs, -, rfl⟩ | ⟨fs, wc, rest, -, hh⟩
        · exact .inr hs
        · exact .inr (hh.roomy hs)
      | .error (.panic _) => exact hr.elim
    | pollCmDisconnect => exact quiet (Act.keeps ⟨unseen_pools_device, fun _ => rfl⟩)
    | pollCmEvent => exact quiet (Act.keeps ⟨unseen_pools_device, fun _ => rfl⟩)
    | armCq => exact quiet (Act.keeps unseen_pools_device.link)
    | nextCompletedTransfer => exact quiet (Act.keeps fun _ _ => rfl)
    | beginWrite segments peerAddr peerRkey imm =>
      refine after (wp_mono (beginRdmaWriteGatherInner_wp segments peerAddr peerRkey imm) ?_)
      intro r t hr
      exact .inr (hr.2.roomy hs)
    | disconnect => exact quiet (Act.keeps unseen_pools_device.link)
    | shutdown => exact quiet (Act.keeps unseen_pools_device.link)
  -- no call panics
  refine wp_mono (wp_and roomy (a.run_path hwf)) ?_
  rintro r t ⟨hr, hpath⟩
  refine hr.resolve_left ?_
  rintro ⟨m, rfl⟩
  exact hpath.elim

/-- The ids of the send queue's requests, posted or completed but unhandled. -/
def Connection.sqIds (c : Connection) : List Nat :=
  c.out.map SendWr.wrId ++ c.await.map SendWr.wrId ++ c.cq.map Completion.wrId

theorem sqCount_eq (c : Connection) (p : Nat → Bool) : c.sqCount p = c.sqIds.countP p := by
  rw [Connection.sqIds, List.countP_append, List.countP_append, List.countP_map, List.countP_map,
    List.countP_map]
  rfl

/-- Every id is of one of the four kinds. -/
theorem Inv.kinds (hi : Inv s) {id : Nat} (hid : id ∈ s.conn.sqIds) :
    ∃ k : IdKind, k.Of s.geo s.slotCount id := by
  rw [Connection.sqIds, ← List.map_append, List.mem_append, List.mem_map, List.mem_map] at hid
  rcases hid with ⟨w, hw, rfl⟩ | ⟨wc, hwc, rfl⟩
  · obtain ⟨k, hk, -⟩ := (hi.wf.sq w hw).kind
    exact ⟨k, hk⟩
  · exact (hi.wf.cq wc hwc).kind hi.wf

/-- A data send: neither the control message nor a write. -/
def isDataId (wrId : Nat) : Bool := isSend wrId && !isCtrlSend wrId

/-- Free slots and data sends on their way share the pool. -/
theorem Inv.data_le (hi : Inv s) :
    s.sendFree.length + s.conn.sqCount isDataId ≤ s.geo.sendPool := by
  -- each data send carries the number of a slot, and no slot is both free and on its way
  have hslots : ∀ id ∈ s.conn.sqIds.filter isDataId, ∃ slot < s.geo.sendPool,
      slot < slotLimit ∧ id = sendWrId slot := by
    intro id hid
    rw [List.mem_filter] at hid
    obtain ⟨k, hk⟩ := hi.kinds hid.1
    have hf := hk.facts
    have hd := hid.2
    rw [isDataId, Bool.and_eq_true, Bool.not_eq_true'] at hd
    cases k with
    | data slot => exact ⟨slot, hk.1, hk.2.1, hk.2.2⟩
    | ctrl =>
      rw [hf.ctrl hd.1] at hd
      cases hd.2
    | recv slot =>
      rw [hf.send] at hd
      cases hd.1
    | write imm =>
      rw [hf.send] at hd
      cases hd.1
  have hlen : (s.sendFree ++ (s.conn.sqIds.filter isDataId).map slotOf).length ≤ s.geo.sendPool := by
    refine length_le_of_count (fun v hv => ?_) (fun v hv => ?_)
    · rcases List.mem_append.mp hv with hv | hv
      · exact hi.wf.free_lt v hv
      · obtain ⟨id, hid, rfl⟩ := List.mem_map.mp hv
        obtain ⟨slot, hslot, hlt, rfl⟩ := hslots id hid
        rw [slotOf_sendWrId hlt]
        exact hslot
    · -- the books allow each slot one place
      have hvlt : v < slotLimit := by
        rcases List.mem_append.mp hv with hv | hv
        · exact s.geo.sendSlot_lt (hi.wf.free_lt v hv).le
        · obtain ⟨id, hid, rfl⟩ := List.mem_map.mp hv
          obtain ⟨slot, hslot, hlt, rfl⟩ := hslots id hid
          rw [slotOf_sendWrId hlt]
          exact hlt
      have hbook := (hi.books.send v hvlt).1
      have hone : (if v < s.geo.sendPool then 1 else 0) ≤ 1 := by split <;> omega
      have hcount : ((s.conn.sqIds.filter isDataId).map slotOf).count v ≤
          s.conn.sqCount (· == sendWrId v) := by
        rw [sqCount_eq, List.count_eq_countP, List.countP_map, List.countP_filter]
        refine List.countP_mono_left fun id hid hv => ?_
        simp only [Function.comp_apply, Bool.and_eq_true, beq_iff_eq] at hv ⊢
        obtain ⟨slot, -, hlt, rfl⟩ := hslots id (List.mem_filter.mpr ⟨hid, hv.2⟩)
        rw [← hv.1, slotOf_sendWrId hlt]
      rw [List.count_append]
      omega
  rw [List.length_append, List.length_map, ← List.countP_eq_length_filter, ← sqCount_eq] at hlen
  exact hlen

theorem countP_le_three {l : List Nat} {p a b c : Nat → Bool}
    (h : ∀ x ∈ l, p x = true → a x = true ∨ b x = true ∨ c x = true) :
    l.countP p ≤ l.countP a + l.countP b + l.countP c := by
  induction l with
  | nil => exact Nat.le_refl _
  | cons x l ih =>
    have hrest := ih fun y hy => h y (List.mem_cons_of_mem _ hy)
    have hx := h x (List.mem_cons_self ..)
    simp only [List.countP_cons]
    cases hp : p x with
    | false =>
      rw [if_neg (by decide)]
      omega
    | true =>
      rw [if_pos rfl]
      rcases hx hp with ha | hb | hc
      · rw [if_pos ha]
        omega
      · rw [if_pos hb]
        omega
      · rw [if_pos hc]
        omega

/-- The ids of the send queue lie above every receive slot. -/
theorem IdFacts.ge_of_not_recv {g : Geometry} {id : Nat} {k : IdKind} (hf : IdFacts g id k)
    (hk : ∀ slot, k ≠ .recv slot) : 2 ^ 60 ≤ id := by
  have hsend : isSend id = true → 2 ^ 60 ≤ id := by
    intro h
    rw [isSend_eq] at h
    exact Nat.le_trans (by decide) (Nat.ge_two_pow_of_testBit h)
  cases k with
  | recv slot => exact absurd rfl (hk slot)
  | data slot => exact hsend hf.send
  | ctrl => exact hsend hf.send
  | write imm => exact isWrite_ge hf.write

/-- The queue holds no more requests than the stream counts. -/
theorem Inv.sqUsed_le (hi : Inv s) : s.conn.sqUsed ≤ s.sqPosted := by
  have hdata := hi.data_le
  have hctrl := hi.books.ctrl.1
  have hwrites := hi.books.writes.1
  -- what the send queue holds is a data send, the control message or a write
  have hall : ∀ ws : List SendWr, (∀ w ∈ ws, w ∈ s.conn.out ++ s.conn.await) →
      ws.countP (fun w => decide (2 ^ 60 ≤ w.wrId)) = ws.length := by
    intro ws hws
    refine List.countP_eq_length.mpr fun w hw => ?_
    obtain ⟨k, hk, hno⟩ := (hi.wf.sq w (hws w hw)).kind
    refine decide_eq_true (hk.facts.ge_of_not_recv fun slot he => ?_)
    have := hno slot
    rw [he] at this
    simp at this
  have hused : s.conn.sqUsed = s.conn.sqCount fun id => decide (2 ^ 60 ≤ id) := by
    rw [Connection.sqUsed, Connection.sqCount,
      hall _ fun w hw => List.mem_append_left _ hw, hall _ fun w hw => List.mem_append_right _ hw]
  have hsplit : (s.conn.sqCount fun id => decide (2 ^ 60 ≤ id)) ≤
      s.conn.sqCount isDataId + s.conn.sqCount (· == ctrlSendWrId s.geo.ctrlSlot) +
        s.conn.sqCount isWrite := by
    simp only [sqCount_eq]
    refine countP_le_three fun id hid hbig => ?_
    obtain ⟨k, hk⟩ := hi.kinds hid
    have hf := hk.facts
    cases k with
    | recv slot =>
      have hlt : id < 2 ^ 60 := by
        rw [hk.2.2]
        exact hk.2.1
      exact absurd (of_decide_eq_true hbig) (Nat.not_le.mpr hlt)
    | data slot =>
      left
      rw [isDataId, hf.ctrl hf.send, hf.send]
      rfl
    | ctrl => exact .inr (.inl hf.ctrlId)
    | write imm => exact .inr (.inr hf.write)
  rw [hused, HordStream.sqPosted]
  omega

/-- The rule keeps the stream's count within the depth of its queue pair. -/
theorem Inv.sqPosted_le {config : HordConfig} (hi : Inv s) (hs : s.Roomy)
    (hgeo : Geometry.ofConfig config = .ok s.geo) : s.sqPosted ≤ (qpSizing config).1 := by
  have hpool : (qpSizing config).1 = s.geo.sendPool + 2 := by
    rw [(ofConfig_ok hgeo).2.2.2]
    rfl
  have hdata := hi.data_le
  have hbusy : s.ctrlSendBusy.toNat ≤ 1 := Bool.toNat_le _
  rw [HordStream.Roomy] at hs
  rw [hpool, HordStream.sqPosted]
  omega

theorem Party.Step.roomy {p q : Party} {m : Hord.Move} (h : Party.Step p m q) (hok : p.Ok)
    (hm : p.leavesRoom m = true) (hp : p.phase = .up → p.stream.Roomy) :
    q.phase = .up → q.stream.Roomy := by
  rw [Party.Ok] at hok
  -- before the end of the handshake no write was posted
  cases h with
  | env t he =>
    obtain ⟨_, _, _, _, _, heq, -⟩ := he.fields
    intro hup
    rw [heq]
    exact hp hup
  | hello t hph hr => simp
  | wait t hph hr =>
    intro hup
    rw [hph] at hup
    cases hup
  | peer t k hph hr => simp
  | apply t k hph hr =>
    intro _
    rw [hph] at hok
    obtain ⟨-, -, -, -, -, hw, -⟩ := idle_fields hok.1.idle
    obtain ⟨-, -, watch, fs, rfl⟩ := wp_ok (applyPeer_wp p.stream k) hr
    have hsame : (p.stream.finished k watch fs).writesOutstanding = p.stream.writesOutstanding := by
      simp only [HordStream.finished]
      split <;> rfl
    rw [HordStream.Roomy, hsame, hw]
    exact Nat.zero_le _
  | broke t e hr => simp
  | act t a v hph hr =>
    rw [hph] at hok
    exact fun _ => wp_ok (Act.run_roomy hok.1.wf (hp hph) hm) hr
  | actErr t a e hph hr =>
    rw [hph] at hok
    exact fun _ => wp_error (Act.run_roomy hok.1.wf (hp hph) hm) hr

end Room

/-- The send queue is never over-posted, in every run from a freshly built endpoint
    against any peer and device whose data messages keep to the rule of the writes: they
    are posted with no more writes outstanding than send slots free. -/
theorem send_queue_bounded {p q : Party} {ms : List Hord.Move} (hinit : p.Init)
    (hrun : Run (fun p m q => Party.Step p m q ∧ p.leavesRoom m = true) p ms q)
    (hup : q.phase = .up) :
    q.stream.sqPosted ≤ (qpSizing q.config).1 ∧ q.stream.conn.sqUsed ≤ (qpSizing q.config).1 := by
  have hinv : q.Ok ∧ (q.phase = .up → q.stream.Roomy) := by
    refine hrun.inv (I := fun u => u.Ok ∧ (u.phase = .up → u.stream.Roomy))
      (fun u m v hu hs => ⟨hs.1.ok hu.1, hs.1.roomy hu.1 hs.2 hu.2⟩) ⟨hinit.ok, fun hf => ?_⟩
    rw [hinit.1] at hf
    cases hf
  have hok := hinv.1
  rw [Party.Ok, hup] at hok
  have hle := hok.1.sqPosted_le (hinv.2 hup) hok.2
  exact ⟨hle, Nat.le_trans hok.1.sqUsed_le hle⟩

/-- Three send buffers, and a window of three towards the peer. -/
def threeConfig : HordConfig := { tinyConfig with recvPoolSize := 3, sendPoolSize := 3 }

/-- A handshake with a peer of the same configuration. -/
def threeSetup : List Cmd :=
  [.setup, .carry, .reap ⟨hsSendWrId, 0, .send, 0, 0⟩,
    .land (myHandshake threeConfig).encode ⟨hsRecvWrId, handshakeLen, .recv, 0, 0⟩, .setup, .setup]

/-- One write and two data messages: the queue has room for two more. -/
theorem send_queue_bounded_three : ∃ p ms q, p.Init ∧
    Run (fun p m q => Party.Step p m q ∧ p.leavesRoom m = true) p ms q ∧ q.phase = .up ∧
    q.stream.sqPosted = 3 ∧ q.stream.sqPosted ≤ (qpSizing q.config).1 := by
  obtain ⟨p, ms, q, hinit, hrun, hq⟩ := Party.launch_run Party.leavesRoom threeConfig
    (threeSetup ++ [.act (.beginWrite [⟨0, 0, 4⟩] 0 0 none), .act (.tryWrite (List.replicate 16 7))])
    (fun q => q.phase = .up && q.stream.sqPosted == 3) (by decide +kernel)
  rw [Bool.and_eq_true, decide_eq_true_eq, beq_iff_eq] at hq
  exact ⟨p, ms, q, hinit, hrun, hq.1, hq.2, (send_queue_bounded hinit hrun hq.1).1⟩

/-- Three writes fill the pool, and three data messages are posted on top of them: six
    requests on a queue of five. -/
theorem send_queue_overrun : ¬∀ (p q : Party) (ms : List Hord.Move), p.Init →
    Run Party.Step p ms q → q.phase = .up → q.stream.sqPosted ≤ (qpSizing q.config).1 := by
  intro h
  obtain ⟨p, ms, q, hinit, hrun, hq⟩ := Party.launch_run (fun _ _ => true) threeConfig
    (threeSetup ++ [.act (.beginWrite [⟨0, 0, 4⟩] 0 0 none), .act (.beginWrite [⟨0, 0, 4⟩] 0 0 none),
      .act (.beginWrite [⟨0, 0, 4⟩] 0 0 none), .act (.tryWrite (List.replicate 24 7))])
    (fun q => q.phase = .up && q.stream.sqPosted == 6 && (qpSizing q.config).1 == 5) (by decide +kernel)
  simp only [Bool.and_eq_true, decide_eq_true_eq, beq_iff_eq] at hq
  have hle := h p q ms hinit (hrun.mono fun _ _ _ hs => hs.1) hq.1.1
  omega

end Hord
