import Hord.Integrity

/- End of stream. Completions and the peer's disconnect arrive on two channels, the
   completion queue and the CM channel, and whoever sees the disconnect closes the
   stream: from then on an empty `rx_ready` means end of stream. What was acknowledged
   before the disconnect is on the completion queue, so the law to keep is that the
   stream is closed only when nothing of it is left there (`Kept`). It holds as long as
   no CM check finds a disconnect while messages wait on the queue (`eof_complete`); one
   that arrives between the last poll and the CM check is lost (`eof_truncates`).

   Correspondence (Rust ↔ Lean):
     `Ok(0)` of `read`, zero bytes of `poll_read`              ↔ `tryRead` returns `some []`
     `None` of `poll_completed_transfer`, `next_split_completion` ↔ `nextCompletedTransfer`
                                                                  returns `none`, closed
     `sends_outstanding`, the stage, as `flush` waits for them  ↔ `HordStream.flushed` -/
namespace Hord

open Region Prog Transition CreditLink

/-! What has been shown to the reader, and what is still to come. -/

/-- Bytes and transfer ids, each in order. -/
structure Share where
  bytes : Bytes
  ids : List Nat

/-- Packets as the reader will see them. -/
def shareOf (ps : List (Packet UInt8)) : Share := ⟨(bodies ps).flatten, CreditLink.ids ps⟩

namespace Share

def append (a b : Share) : Share := ⟨a.bytes ++ b.bytes, a.ids ++ b.ids⟩

instance : Append Share := ⟨append⟩

def Prefix (a b : Share) : Prop := a.bytes <+: b.bytes ∧ a.ids <+: b.ids

@[simp] theorem append_bytes (a b : Share) : (a ++ b).bytes = a.bytes ++ b.bytes := rfl
@[simp] theorem append_ids (a b : Share) : (a ++ b).ids = a.ids ++ b.ids := rfl

@[ext] theorem ext {a b : Share} (h1 : a.bytes = b.bytes) (h2 : a.ids = b.ids) : a = b := by
  cases a
  cases b
  simp_all

theorem append_assoc (a b c : Share) : a ++ b ++ c = a ++ (b ++ c) := by
  apply ext
  · exact List.append_assoc ..
  · exact List.append_assoc ..

theorem append_cancel_right {a b c : Share} (h : a ++ c = b ++ c) : a = b := by
  apply ext
  · exact List.append_cancel_right (congrArg Share.bytes h)
  · exact List.append_cancel_right (congrArg Share.ids h)

theorem append_nil (a : Share) : a ++ ⟨[], []⟩ = a := by
  apply ext
  · exact List.append_nil _
  · exact List.append_nil _

theorem Prefix.refl (a : Share) : a.Prefix a := ⟨List.prefix_rfl, List.prefix_rfl⟩

theorem Prefix.append {a b : Share} (h : a.Prefix b) (c : Share) : a.Prefix (b ++ c) :=
  ⟨h.1.trans (List.prefix_append ..), h.2.trans (List.prefix_append ..)⟩

end Share

@[simp] theorem shareOf_append (ps qs : List (Packet UInt8)) :
    shareOf (ps ++ qs) = shareOf ps ++ shareOf qs := by
  apply Share.ext
  · simp [shareOf]
  · simp [shareOf]

namespace HordStream
variable (s : HordStream)

/-- What a part of the completion queue brings to the link. -/
def packets (cq : List Completion) : List (Packet UInt8) := (cq.filterMap s.inParcel).map Parcel.packet

/-- Messages held and transfers not yet taken. -/
def ready : Share := ⟨s.traffic.held.flatten, s.completedTransfers⟩

/-- All that has arrived, `shown` of it already with the reader. -/
def total (shown : Share) : Share := shown ++ s.ready ++ shareOf (s.packets s.conn.cq)

theorem packets_append (cq cq' : List Completion) : s.packets (cq ++ cq') = s.packets cq ++ s.packets cq' := by
  simp [packets]

end HordStream

/-- What was promised has been shown, is held, or is on the successful first part of the
    queue; a closed stream has nothing of it left there. -/
def Kept (s : HordStream) (promised shown : Share) : Prop :=
  ∃ pre post, s.conn.cq = pre ++ post ∧ (∀ wc ∈ pre, wc.isSuccess = true) ∧
    (s.peerClosed = true → shareOf (s.packets pre) = ⟨[], []⟩) ∧
    promised.Prefix (shown ++ s.ready ++ shareOf (s.packets pre))

section Kept
variable {s t : HordStream} {promised shown shown' : Share}

theorem packets_congr {cq : List Completion} (h : ∀ wc ∈ cq, t.inParcel wc = s.inParcel wc) :
    t.packets cq = s.packets cq := by
  unfold HordStream.packets
  rw [List.filterMap_congr h]

/-- On an open stream none of whose completions failed, everything is kept. -/
theorem kept_of_sound (hopen : s.peerClosed = false) (hok : ∀ wc ∈ s.conn.cq, wc.isSuccess = true)
    (shown : Share) : Kept s (s.total shown) shown := by
  refine ⟨s.conn.cq, [], (List.append_nil _).symm, hok, fun h => ?_, Share.Prefix.refl _⟩
  rw [hopen] at h
  cases h

/-- At end of stream nothing is held and nothing promised is left. -/
theorem Kept.at_end (h : Kept s promised shown) (hclosed : s.peerClosed = true) :
    promised.Prefix (shown ++ s.ready) := by
  obtain ⟨pre, post, -, -, hnone, hbase⟩ := h
  rw [hnone hclosed] at hbase
  simpa [Share.Prefix] using hbase

/-- More completions are queued. -/
theorem Kept.grow (h : Kept s promised shown) {more : List Completion}
    (hcq : t.conn.cq = s.conn.cq ++ more) (hin : ∀ wc ∈ s.conn.cq, t.inParcel wc = s.inParcel wc)
    (hready : t.ready = s.ready) (hclosed : t.peerClosed = s.peerClosed) : Kept t promised shown := by
  obtain ⟨pre, post, hsplit, hok, hnone, hbase⟩ := h
  have hpre : t.packets pre = s.packets pre := by
    refine packets_congr fun wc hwc => hin wc ?_
    rw [hsplit]
    exact List.mem_append_left _ hwc
  refine ⟨pre, post ++ more, ?_, hok, ?_, ?_⟩
  · rw [hcq, hsplit, List.append_assoc]
  · rw [hclosed, hpre]
    exact hnone
  · rw [hready, hpre]
    exact hbase

/-- The device queues completions and moves requests. -/
theorem Kept.device (h : Kept s promised shown) (more : List Completion)
    (hcq : t.conn.cq = s.conn.cq ++ more) (hgeo : t.geo = s.geo) (hrecv : t.recv = s.recv)
    (hsplit : t.splitRecv = s.splitRecv) (hready : t.rxReady = s.rxReady)
    (htags : t.completedTransfers = s.completedTransfers) (hclosed : t.peerClosed = s.peerClosed) :
    Kept t promised shown := by
  obtain ⟨hmsg, hin⟩ := received_congr hgeo hrecv hsplit
  refine h.grow hcq (fun wc _ => by rw [hin]) ?_ hclosed
  apply Share.ext
  · show (t.rxReady.map t.msgBytes).flatten = (s.rxReady.map s.msgBytes).flatten
    rw [hmsg, hready]
  · exact htags

/-- Completions are taken off the queue: what they brought is now held or shown. If that
    closed the stream, one of them had failed or nothing is left. -/
theorem Kept.shrink (h : Kept s promised shown) {took : List Completion}
    (hcq : s.conn.cq = took ++ t.conn.cq) (hin : ∀ wc ∈ s.conn.cq, t.inParcel wc = s.inParcel wc)
    (htotal : t.total shown' = s.total shown)
    (hclosed : t.peerClosed = true → s.peerClosed = true ∨ (∃ wc ∈ took, wc.isSuccess = false) ∨
      shareOf (t.packets t.conn.cq) = ⟨[], []⟩) : Kept t promised shown' := by
  obtain ⟨pre, post, hsplit, hok, hnone, hbase⟩ := h
  have hsame : ∀ {cq : List Completion}, cq.Sublist s.conn.cq → t.packets cq = s.packets cq :=
    fun hsub => packets_congr fun wc hwc => hin wc (hsub.subset hwc)
  unfold HordStream.total at htotal
  rw [hsame (hcq ▸ List.sublist_append_right _ _)] at htotal
  rw [hcq, List.append_eq_append_iff] at hsplit
  rcases hsplit with ⟨c, hpre, hrest⟩ | ⟨c, htook, hpost⟩
  · -- the first part is not used up
    have hc : t.packets c = s.packets c := hsame (by
      rw [hcq, hrest]
      exact (List.sublist_append_left _ _).trans (List.sublist_append_right _ _))
    refine ⟨c, post, hrest, fun wc hwc => hok wc (hpre ▸ List.mem_append_right _ hwc), fun hcl => ?_, ?_⟩
    · rw [hc]
      rcases hclosed hcl with hcl | ⟨wc, hwc, hbad⟩ | hnil
      · have hempty := hnone hcl
        rw [hpre, s.packets_append, shareOf_append] at hempty
        have hb := congrArg Share.bytes hempty
        have hi := congrArg Share.ids hempty
        simp only [Share.append_bytes, Share.append_ids, List.append_eq_nil_iff] at hb hi
        exact Share.ext hb.2 hi.2
      · rw [hok wc (hpre ▸ List.mem_append_left _ hwc)] at hbad
        cases hbad
      · rw [hrest, t.packets_append, shareOf_append, hc] at hnil
        have hb := congrArg Share.bytes hnil
        have hi := congrArg Share.ids hnil
        simp only [Share.append_bytes, Share.append_ids, List.append_eq_nil_iff] at hb hi
        exact Share.ext hb.1 hi.1
    · rw [hc]
      have hcancel : shown' ++ t.ready ++ shareOf (s.packets c) =
          shown ++ s.ready ++ shareOf (s.packets pre) := by
        refine Share.append_cancel_right (c := shareOf (s.packets post)) ?_
        calc shown' ++ t.ready ++ shareOf (s.packets c) ++ shareOf (s.packets post)
            = shown' ++ t.ready ++ shareOf (s.packets t.conn.cq) := by
              rw [hrest, s.packets_append, shareOf_append, Share.append_assoc _ _ (shareOf _)]
          _ = shown ++ s.ready ++ shareOf (s.packets s.conn.cq) := htotal
          _ = shown ++ s.ready ++ shareOf (s.packets pre) ++ shareOf (s.packets post) := by
              rw [hcq, hrest, hpre, ← List.append_assoc, s.packets_append, shareOf_append,
                Share.append_assoc _ (shareOf _) (shareOf _)]
      rw [hcancel]
      exact hbase
  · -- it is, and whatever followed it has been taken too
    have hcancel : shown' ++ t.ready =
        shown ++ s.ready ++ shareOf (s.packets pre) ++ shareOf (s.packets c) := by
      refine Share.append_cancel_right (c := shareOf (s.packets t.conn.cq)) ?_
      calc shown' ++ t.ready ++ shareOf (s.packets t.conn.cq)
          = shown ++ s.ready ++ shareOf (s.packets s.conn.cq) := htotal
        _ = shown ++ s.ready ++ shareOf (s.packets pre) ++ shareOf (s.packets c) ++
              shareOf (s.packets t.conn.cq) := by
            rw [hcq, htook]
            simp only [s.packets_append, shareOf_append, Share.append_assoc]
    refine ⟨[], t.conn.cq, rfl, nofun, fun _ => rfl, ?_⟩
    rw [hcancel]
    exact (hbase.append _).append _

end Kept

/-! What one call does at the receiving end. -/

section Calls
variable {s t : HordStream} {q q' : Party} {m : Hord.Move}

/-- A run of the link's moves at one end keeps the total. -/
theorem run_total {y y' : End UInt8} {ls : List (Label UInt8)}
    (h : Run (CreditLink.Move counterLimit) y ls y') (shown : Share) :
    shown ++ ⟨y.held.flatten, y.tags⟩ ++ shareOf y.inbox =
      shown ++ ⟨ls.flatMap Label.reads, ls.flatMap Label.taken⟩ ++ ⟨y'.held.flatten, y'.tags⟩ ++
        shareOf y'.inbox := by
  apply Share.ext
  · have hend := received_run h
    simp only [List.flatten_append] at hend
    simp [shareOf, hend]
  · have htag : Tagged y (shown.ids ++ y.tags ++ CreditLink.ids y.inbox) shown.ids := rfl
    have hend := Tagged.run h htag
    simpa [Tagged, shareOf] using hend

/-- What an end shows with a step. -/
def Move.share (m : Hord.Move) : Share := ⟨m.read, m.ids⟩

theorem Party.traffic_share (w : Nat) (p : Party) : (p.traffic w).held = p.stream.traffic.held ∧
    (p.traffic w).tags = p.stream.completedTransfers ∧
    (p.traffic w).inbox = p.stream.packets p.stream.conn.cq := by
  unfold Party.traffic
  split <;> exact ⟨rfl, rfl, rfl⟩

theorem Carries.total {w : Nat} {acc rd : Bytes} {ids : List Nat} (h : Carries w q q' acc rd ids)
    (shown : Share) : q'.stream.total (shown ++ ⟨rd, ids⟩) = q.stream.total shown := by
  obtain ⟨ls, hrun, -, rfl, rfl⟩ := h
  have heq := run_total hrun shown
  obtain ⟨h1, h2, h3⟩ := q.traffic_share w
  obtain ⟨h1', h2', h3'⟩ := q'.traffic_share w
  rw [h1, h2, h3, h1', h2', h3'] at heq
  exact heq.symm

/-- Where what has been received lies. -/
def HordStream.store (s : HordStream) : Geometry × Bytes × Option Bytes := (s.geo, s.recv, s.splitRecv)

theorem Handled.store {wc : Completion} {ok : Bool} (h : Handled s wc ok t) : t.store = s.store :=
  h.unseen ⟨fun _ => rfl, fun _ _ => rfl, fun _ _ _ _ _ => rfl, fun _ _ _ _ _ => rfl⟩

theorem inParcel_of_store (h : t.store = s.store) : t.inParcel = s.inParcel := by
  simp only [HordStream.store, Prod.mk.injEq] at h
  exact (received_congr h.1 h.2.1 h.2.2).2

/-- Only the device writes the receive regions. -/
theorem run_store {os : List Obs} (h : Run Local s os t) : t.store = s.store := by
  refine h.inv (I := fun u => u.store = s.store) (fun u o v hi hl => ?_) rfl
  cases hl with
  | handle _ wc rest ok hcq hh => exact hh.store.trans hi
  | _ => exact hi

theorem run_received {os : List Obs} (h : Run Local s os t) : t.inParcel = s.inParcel :=
  inParcel_of_store (run_store h)

/-- The CM check would find the connection gone. -/
def HordStream.closesOn (s : HordStream) : Act → Bool
  | .pollCmDisconnect => s.cmWatch && s.conn.cmq.head?.any CmEvent.gone
  | .pollCmEvent => s.conn.cmq.head?.any CmEvent.gone
  | _ => false

theorem HordStream.hold_peerClosed (s : HordStream) (wc : Completion) : (s.hold wc).peerClosed = s.peerClosed := rfl

theorem Handled.closed_of_success {wc : Completion} (h : Handled s wc true t) (hok : wc.isSuccess = true) :
    t.peerClosed = s.peerClosed := by
  cases h with
  | immFailed _ hbad => rw [hok] at hbad; cases hbad
  | writeFailed _ _ hbad => rw [hok] at hbad; cases hbad
  | failed _ _ hbad => rw [hok] at hbad; cases hbad
  | sent =>
    unfold HordStream.reclaimed
    split <;> rfl
  | held => exact (s.granted wc).hold_peerClosed wc
  | _ => rfl

/-- The exchange failed. -/
def Move.breaks : Hord.Move → Bool
  | .broke _ => true
  | _ => false

/-- A call on the established stream failed. -/
def Move.fails : Hord.Move → Bool
  | .act _ (.error _) => true
  | _ => false

theorem Move.returns (h : m.fails = false) (a : Act) (er : Fail) : m ≠ .act a (.error er) := by
  rintro rfl
  cases h

/-- The call's CM check finds the connection gone. -/
def HordStream.closedBy (s : HordStream) : Hord.Move → Bool
  | .act a (.ok _) => s.closesOn a
  | _ => false

/-- A call that returns closes the stream only on a failed completion or a CM event. -/
theorem Act.run_closes {a : Act} {v : Res} (hwf : Wf s) (hr : a.run s = .ok v t)
    (hclosed : t.peerClosed = true) : s.peerClosed = true ∨
      (∃ wc, s.conn.cq = wc :: t.conn.cq ∧ wc.isSuccess = false) ∨ s.closesOn a = true := by
  by_cases hw : a.watches = false
  · have hsame := (Act.run_keeps hw).ok hr
    exact .inl ((congrArg Prod.fst hsame).symm.trans hclosed)
  · cases a with
    | pump =>
      have hpump : wp (Act.run .pump) s fun r t => ∀ v, r = .ok v → t.peerClosed = true →
          s.peerClosed = true ∨ ∃ wc, s.conn.cq = wc :: t.conn.cq ∧ wc.isSuccess = false := by
        simp only [Act.run, wp_bind]
        refine wp_mono (pumpOnce_wp hwf) ?_
        intro r u hr
        cases r with
        | ok v =>
          cases v with
          | true =>
            obtain ⟨fs, wc, rest, hcq, hh⟩ := hr
            intro _ _ hcl
            cases hok : wc.isSuccess with
            | true => exact .inl ((hh.closed_of_success hok).symm.trans hcl)
            | false =>
              have hcq' : u.conn.cq = rest := hh.cq
              exact .inr ⟨wc, by rw [hcq, hcq'], hok⟩
          | false =>
            obtain ⟨-, fs, rfl⟩ := hr
            exact fun _ _ => .inl
        | error _ => exact fun v hv => by cases hv
      rcases wp_ok hpump hr v rfl hclosed with h | h
      · exact .inl h
      · exact .inr (.inl h)
    | pollCmDisconnect =>
      have hpoll : wp (Act.run .pollCmDisconnect) s fun _ t =>
          t.peerClosed = true → s.peerClosed = true ∨ s.closesOn .pollCmDisconnect = true := by
        simp only [Act.run, Hord.pollCmDisconnect, wp_bind, wp_get, wp_ite, dev_wp]
        split
        · exact .inl
        · next hwatch =>
          refine checkDisconnect_wp (fun _ _ => .inl) (fun fs ev rest hcm => ?_) (fun _ _ _ => .inl)
          cases hg : ev.gone with
          | true =>
            refine fun _ => .inr ?_
            simp only [Bool.not_eq_true', Bool.not_eq_false] at hwatch
            simp [HordStream.closesOn, hwatch, hcm, hg]
          | false => exact .inl
      rcases wp_ok hpoll hr hclosed with h | h
      · exact .inl h
      · exact .inr (.inr h)
    | pollCmEvent =>
      have hpoll : wp (Act.run .pollCmEvent) s fun _ t =>
          t.peerClosed = true → s.peerClosed = true ∨ s.closesOn .pollCmEvent = true := by
        simp only [Act.run, Hord.pollCmEvent, wp_bind, wp_ite, dev_wp]
        refine checkDisconnect_wp (fun _ _ => .inl) (fun fs ev rest hcm => ?_) (fun _ _ _ => .inl)
        cases hg : ev.gone with
        | true =>
          refine fun _ => .inr ?_
          simp [HordStream.closesOn, hcm, hg]
        | false => exact .inl
      rcases wp_ok hpoll hr hclosed with h | h
      · exact .inl h
      · exact .inr (.inr h)
    | _ => exact absurd rfl hw

/-- Nothing on the queue is for the reader. -/
def HordStream.quiet (s : HordStream) : Bool :=
  (bodies (s.packets s.conn.cq)).isEmpty && (CreditLink.ids (s.packets s.conn.cq)).isEmpty

theorem quiet_share (h : s.quiet = true) : shareOf (s.packets s.conn.cq) = ⟨[], []⟩ := by
  simp only [HordStream.quiet, Bool.and_eq_true, List.isEmpty_iff] at h
  apply Share.ext
  · simp [shareOf, h.1]
  · exact h.2

/-- A call that returns: completions leave the queue from the front, and if the stream
    closes, one of them had failed or the CM check found the connection gone. -/
theorem Party.Step.takes (h : Party.Step q m q') (hm : m.isEnv = false) (hok : q.Ok)
    (hf : q'.phase ≠ .failed) (hres : m.fails = false) :
    ∃ took, q.stream.conn.cq = took ++ q'.stream.conn.cq ∧
      (∀ wc ∈ q.stream.conn.cq, q'.stream.inParcel wc = q.stream.inParcel wc) ∧
      (q'.stream.peerClosed = true → q.stream.peerClosed = true ∨ (∃ wc ∈ took, wc.isSuccess = false) ∨
        q.stream.closedBy m = true ∧ q'.stream.conn.cq = q.stream.conn.cq) := by
  unfold Party.Ok at hok
  -- the exchange only takes its own two completions
  have exchange : ∀ {t : HordStream} {ls : List (Option Completion)}, Run HsStep q.stream ls t →
      ∃ took, q.stream.conn.cq = took ++ t.conn.cq ∧
        (∀ wc ∈ q.stream.conn.cq, t.inParcel wc = q.stream.inParcel wc) ∧
        t.peerClosed = q.stream.peerClosed := by
    intro t ls hrun
    have hinv := hrun.inv (I := fun u => (∃ took, q.stream.conn.cq = took ++ u.conn.cq) ∧
      u.store = q.stream.store ∧ u.peerClosed = q.stream.peerClosed) (fun u l v hi hs => ?_)
      ⟨⟨[], rfl⟩, rfl, rfl⟩
    · obtain ⟨⟨took, htook⟩, hstore, hcl⟩ := hinv
      exact ⟨took, htook, fun wc _ => by rw [inParcel_of_store hstore], hcl⟩
    · obtain ⟨⟨took, htook⟩, hmem, hcl⟩ := hi
      cases hs with
      | tick fs => exact ⟨⟨took, htook⟩, hmem, hcl⟩
      | recv wc rest hcq hid hok =>
        exact ⟨⟨took ++ [wc], by rw [htook, hcq]; simp [HordStream.setCq]⟩, hmem, hcl⟩
      | send wc rest hcq hid hok =>
        exact ⟨⟨took ++ [wc], by rw [htook, hcq]; simp [HordStream.setCq]⟩, hmem, hcl⟩
  cases h with
  | env t he => cases hm
  | hello t hph hr =>
    rw [hph] at hok
    obtain ⟨fs, ht⟩ := wp_ok (beginHandshakeSend_wp q.config hok.hs_len) hr
    have hin : t.inParcel = q.stream.inParcel :=
      (received_congr (by rw [ht]) (by rw [ht]) (by rw [ht])).2
    refine ⟨[], ?_, fun wc _ => by rw [hin], ?_⟩
    · show q.stream.conn.cq = t.conn.cq
      rw [ht]
    · show t.peerClosed = true → _
      rw [ht]
      exact .inl
  | wait t hph hr =>
    rw [hph] at hok
    have hlen : handshakeLen ≤ q.stream.handshake.length := by rw [hok.hs_len]; decide
    obtain ⟨⟨ls, hrun⟩, -⟩ := wp_ok (pollHandshake_wp hlen) hr
    obtain ⟨took, h1, h2, h3⟩ := exchange hrun
    exact ⟨took, h1, h2, fun h => .inl (h3 ▸ h)⟩
  | peer t peer hph hr =>
    rw [hph] at hok
    have hlen : handshakeLen ≤ q.stream.handshake.length := by rw [hok.hs_len]; decide
    obtain ⟨⟨ls, hrun⟩, -⟩ := wp_ok (pollHandshake_wp hlen) hr
    obtain ⟨took, h1, h2, h3⟩ := exchange hrun
    exact ⟨took, h1, h2, fun h => .inl (h3 ▸ h)⟩
  | apply t peer hph hr =>
    rw [hph] at hok
    obtain ⟨-, -, -, hcq, hcl, -, heach⟩ := applyPeer_traffic hok.1 hok.2 hr
    exact ⟨[], hcq.symm, heach, fun h => .inl (hcl ▸ h)⟩
  | broke t er hr => exact absurd rfl hf
  | actErr t a er hph hr => cases hres
  | act t a v hph hr =>
    rw [hph] at hok
    obtain ⟨os, hrun⟩ := Act.run_reaches hok.1 hr
    refine ⟨handledOf os, Hord.run_cq hrun, fun wc _ => by rw [run_received hrun], fun hcl => ?_⟩
    rcases Act.run_closes hok.1.wf hr hcl with h | ⟨wc, hcq, hbad⟩ | h
    · exact .inl h
    · have htook : handledOf os = [wc] := by
        have hboth : handledOf os ++ t.conn.cq = [wc] ++ t.conn.cq := (Hord.run_cq hrun).symm.trans hcq
        exact List.append_cancel_right hboth
      exact .inr (.inl ⟨wc, by rw [htook]; exact List.mem_singleton_self _, hbad⟩)
    · refine .inr (.inr ⟨h, Act.run_cq ?_ hr⟩)
      rintro rfl
      cases h

/-- Such a call keeps what was promised, if its CM check found nothing to lose. -/
theorem Party.Step.keeps_share {w : Nat} {promised shown : Share} (h : Party.Step q m q')
    (hm : m.isEnv = false) (hq : q.Fine) (hf : q'.phase ≠ .failed)
    (hpeer : ∀ peer, q.phase = .got peer → peer.maxRecvBuffers.toNat = w)
    (hres : m.fails = false) (hcm : q.stream.closedBy m = true → q.stream.quiet = true)
    (hk : Kept q.stream promised shown) : Kept q'.stream promised (shown ++ m.share) := by
  obtain ⟨took, hcq, hin, hclosed⟩ := h.takes hm hq.ok hf hres
  have htotal := (h.carries hm hq.ok hf hq.honest hq.plain hpeer (Move.returns hres)).total shown
  refine hk.shrink hcq hin htotal fun hcl => ?_
  rcases hclosed hcl with hcl | hbad | ⟨hgone, hsame⟩
  · exact .inl hcl
  · exact .inr (.inl hbad)
  · refine .inr (.inr ?_)
    rw [hsame, packets_congr hin]
    exact quiet_share (hcm hgone)

end Calls

/-! The pair. `x` is the end that disconnects, `x.other` the one that reads on. -/

def Event.ids (x : Side) : Event → List Nat
  | .call y m => if y = x then m.ids else []
  | _ => []

def Event.share (x : Side) (l : Event) : Share := ⟨l.read x, l.ids x⟩

/-- The steps after the disconnect. Either end may fail in any way, except that the reader's
    calls return, and its CM check finds the connection gone only with nothing for it
    on the queue. -/
def Duo.closing (x : Side) (d : Duo) : Event → Bool
  | .call y m => !m.breaks && (y = x || !m.fails && (!(d.get y).stream.closedBy m || (d.get y).stream.quiet))
  | .drop y => (d.get y).phase = .up
  | .reject y => (d.get y.other).phase = .up || (d.get y).phase = .up
  | _ => true

/-- A connection-manager event is reported. -/
def Event.isCm : Event → Bool
  | .cm _ _ => true
  | _ => false

/-- The queue pair has not failed: open, and no completion reports a failure. -/
def Party.sound (p : Party) : Bool := !p.stream.peerClosed && p.stream.conn.cq.all Completion.isSuccess

/-- The steps before it: the calls of both ends return, none of the sender's requests is
    flushed, and a failed queue pair receives nothing any more. -/
def Duo.flowing (x : Side) (d : Duo) (l : Event) : Bool :=
  d.closing x l && match l with
    | .call _ m => !m.fails
    | .drop y => y ≠ x
    | .deliver y _ => y ≠ x || (d.get x.other).sound
    | _ => true

section Pair
variable {d e : Duo} {l : Event} {x : Side}

theorem Duo.closing_facts (h : d.closing x l = true) :
    l.Tame d ∧ (∀ y er, l ≠ .call y (.broke er)) ∧
      ∀ m, l = .call x.other m → m.fails = false ∧
        ((d.get x.other).stream.closedBy m = true → (d.get x.other).stream.quiet = true) := by
  cases l with
  | call y m =>
    simp only [Duo.closing, Bool.and_eq_true, Bool.or_eq_true, Bool.not_eq_true', decide_eq_true_eq] at h
    refine ⟨trivial, fun z er he => ?_, fun m' hm => ?_⟩
    · injection he with _ hm
      rw [hm] at h
      cases h.1
    · injection hm with hy hm
      subst hy hm
      rcases h.2 with hy | ⟨hfails, hq⟩
      · exact absurd hy (Side.other_ne x)
      · refine ⟨hfails, fun hcl => ?_⟩
        rcases hq with hq | hq
        · rw [hcl] at hq
          cases hq
        · exact hq
  | reject y =>
    simp only [Duo.closing, Bool.or_eq_true, decide_eq_true_eq] at h
    exact ⟨h, fun _ _ he => (by cases he), fun _ hm => (by cases hm)⟩
  | drop y =>
    simp only [Duo.closing, decide_eq_true_eq] at h
    exact ⟨h, fun _ _ he => (by cases he), fun _ hm => (by cases hm)⟩
  | deliver y w => exact ⟨trivial, fun _ _ he => (by cases he), fun _ hm => (by cases hm)⟩
  | complete y w wc => exact ⟨trivial, fun _ _ he => (by cases he), fun _ hm => (by cases hm)⟩
  | oracle y => exact ⟨trivial, fun _ _ he => (by cases he), fun _ hm => (by cases hm)⟩
  | cm y ev => exact ⟨trivial, fun _ _ he => (by cases he), fun _ hm => (by cases hm)⟩

/-- A step keeps the pair healthy. -/
theorem Duo.Step.closing_healthy (h : Duo.Step d l e) (hd : d.Healthy) (hl : d.closing x l = true) :
    e.Healthy := by
  obtain ⟨htame, hbroke, -⟩ := Duo.closing_facts hl
  exact h.healthy hd htame (h.alive (fun x => (hd.fine x).alive) hbroke)

/-- Landing leaves what had arrived and what is held. -/
theorem Party.Fine.landed_ready {p q : Party} (hp : p.Fine) (hq : q.Fine) (hhs : HsState p q)
    {w : SendWr} {rest : List SendWr} {r : RecvWr} {rs : List RecvWr} {bytes : Bytes} {wc : Completion}
    (hout : p.stream.conn.out = w :: rest) (hrq : q.stream.conn.rq = r :: rs)
    (hl : p.stream.lands r w = some (bytes, wc)) (hfit : bytes.length ≤ r.length) :
    (q.landed r rs bytes wc).stream.conn.cq = q.stream.conn.cq ++ [wc] ∧
      (∀ wc' ∈ q.stream.conn.cq, (q.landed r rs bytes wc).stream.inParcel wc' = q.stream.inParcel wc') ∧
      (q.landed r rs bytes wc).stream.ready = q.stream.ready ∧
      (q.landed r rs bytes wc).stream.peerClosed = q.stream.peerClosed := by
  have hrmem : r ∈ q.stream.conn.rq := by rw [hrq]; exact List.mem_cons_self ..
  obtain ⟨-, -, ps, -, hland⟩ := deliver_fine hp hq hhs hout hrq hl hfit
  have hready : (q.landed r rs bytes wc).stream.ready = q.stream.ready := by
    apply Share.ext
    · show List.flatten (HordStream.traffic _).held = _
      rw [hland]
      rfl
    · show (HordStream.traffic _).tags = _
      rw [hland]
      rfl
  rcases hq.ok.rq hq.alive hrmem with rfl | ⟨slot, hslot, hlt, rfl⟩
  · refine ⟨rfl, fun wc' _ => ?_, hready, rfl⟩
    exact congrFun (received_congr (s := q.stream) (t := q.stream.landed hsRecvWr rs bytes wc)
      rfl rfl rfl).2 wc'
  · obtain ⟨recv, split, heq⟩ := landed_slot_eq q.stream slot rs bytes wc
    have hfit' : bytes.length ≤ q.stream.geo.msgSize := Nat.le_trans hfit (slotWr_length_le _ _)
    refine ⟨?_, (hq.spare hrmem hslot).landed_inParcel rs hfit' wc, hready, ?_⟩
    · show (q.stream.landed _ _ _ _).conn.cq = _
      rw [heq]
    · show (q.stream.landed _ _ _ _).peerClosed = _
      rw [heq]

/-- Every step keeps what was promised to the reader. -/
theorem Duo.Step.keeps_share {promised shown : Share} (h : Duo.Step d l e) (hd : d.Healthy)
    (hl : d.closing x l = true) (hk : Kept (d.get x.other).stream promised shown) :
    Kept (e.get x.other).stream promised (shown ++ l.share x.other) := by
  obtain ⟨htame, hbroke, hcall⟩ := Duo.closing_facts hl
  have halive := h.alive (fun x => (hd.fine x).alive) hbroke
  have hnone := shown.append_nil
  -- one end's stream changes without a call of it
  have device : ∀ (z : Side) (t : HordStream),
      (Kept (d.get z).stream promised shown → Kept t promised shown) →
      Kept ((d.set z { d.get z with stream := t }).get x.other).stream promised (shown ++ ⟨[], []⟩) := by
    intro z t hz
    rw [hnone]
    rcases x.other.eq_or_other z with rfl | rfl
    · rw [Duo.get_set]
      exact hz hk
    · rw [Duo.get_set_other']
      exact hk
  cases h with
  | call z m p hp hm =>
    rcases x.other.eq_or_other z with rfl | rfl
    · rw [Duo.get_set]
      have halive' := halive x.other
      rw [Duo.get_set] at halive'
      obtain ⟨hres, hcm⟩ := hcall m rfl
      have hfine := hd.fine x.other
      simp only [Event.share, Event.read, Event.ids, if_true]
      exact hp.keeps_share hm hfine halive' (fun peer hph => by rw [(hd.hs x).got hfine.ok hph]) hres hcm hk
    · rw [Duo.get_set_other']
      rw [Side.other_other]
      simp only [Event.share, Event.read, Event.ids, Side.ne_other, if_false]
      rw [hnone]
      exact hk
  | deliver z w rest r rs bytes wc hout hrq hland hfit =>
    simp only [Event.share, Event.read, Event.ids]
    rw [hnone]
    rcases x.eq_or_other z with rfl | rfl
    · rw [Duo.get_set]
      obtain ⟨h1, h2, h3, h4⟩ := (hd.fine z).landed_ready (hd.fine z.other) (hd.hs z) hout hrq hland hfit
      exact hk.grow h1 h2 h3 h4
    · rw [Duo.get_set_other', Duo.get_set]
      exact hk.device [] (List.append_nil _).symm rfl rfl rfl rfl rfl rfl
  | deliverWrite z id sges addr rkey rest hout =>
    exact device z _ fun hk => hk.device [] (List.append_nil _).symm rfl rfl rfl rfl rfl rfl
  | complete z ls rs w wc ha hid hop =>
    exact device z _ fun hk => hk.device [wc] rfl rfl rfl rfl rfl rfl rfl
  | reject z ls rs r wc hr hid hbad =>
    exact device z _ fun hk => hk.device [wc] rfl rfl rfl rfl rfl rfl rfl
  | drop z ls rs w wc ho hid hbad =>
    exact device z _ fun hk => hk.device [wc] rfl rfl rfl rfl rfl rfl rfl
  | oracle z fs =>
    exact device z _ fun hk => hk.device [] (List.append_nil _).symm rfl rfl rfl rfl rfl rfl
  | cm z ev =>
    exact device z _ fun hk => hk.device [] (List.append_nil _).symm rfl rfl rfl rfl rfl rfl

theorem Duo.total_eq (d : Duo) (x : Side) (shown : Share) : (d.get x).stream.total shown =
    shown ++ ⟨(d.traffic x).held.flatten, (d.traffic x).tags⟩ ++ shareOf (d.traffic x).inbox := by
  obtain ⟨h1, h2, h3⟩ := (d.get x).traffic_share (window (d.get x.other).config)
  unfold Duo.traffic
  rw [h1, h2, h3]
  rfl

/-- The transfer ids a request brings to the other end. -/
def Event.landed (x : Side) : Event → List Nat
  | .deliver y w => if y = x then w.imm.toList else []
  | _ => []

theorem Duo.Delivered.ids {w : SendWr} {ps : List (Packet UInt8)} (hdel : Duo.Delivered d e x ps)
    (h : Duo.Step d (.deliver x w) e) : CreditLink.ids ps = w.imm.toList := by
  have hbox : (d.traffic x).outbox =
      ((d.get x).stream.outParcel w).toList.map Parcel.packet ++ (e.traffic x).outbox := by
    unfold Duo.traffic
    rw [((d.get x).traffic_boxes _).2, ((e.get x).traffic_boxes _).2]
    cases h with
    | deliver _ _ rest r rs bytes wc hout hrq hland hfit =>
      rw [Duo.get_set_other', Duo.get_set, outParcels_cons hout, List.map_append]
      rfl
    | deliverWrite _ id sges addr rkey rest hout =>
      rw [Duo.get_set, outParcels_cons hout, List.map_append]
      rfl
  rw [hdel.taken] at hbox
  rw [List.append_cancel_right hbox]
  match w with
  | .send _ .send off len => rfl
  | .send _ .recv off len => rfl
  | .send _ .splitRecv off len => rfl
  | .send _ .handshake off len => rfl
  | .write id sges addr rkey none => rfl
  | .write id sges addr rkey (some imm) => rfl

/-- What has arrived at the reader grows only by deliveries. -/
theorem Duo.Step.total (h : Duo.Step d l e) (hd : d.Healthy) (halive : ∀ x, (e.get x).phase ≠ .failed)
    (hl : l.Keeps x) (shown : Share) : ∃ more : Share,
      (e.get x.other).stream.total (shown ++ l.share x.other) =
        (d.get x.other).stream.total shown ++ more ∧
      more.ids = l.landed x ∧ ((∀ w, l ≠ .deliver x w) → more = ⟨[], []⟩) := by
  have nil_right := Share.append_nil
  have quiet : (∀ y, e.traffic y = d.traffic y) → (e.get x.other).stream.total (shown ++ ⟨[], []⟩) =
      (d.get x.other).stream.total shown ++ ⟨[], []⟩ := by
    intro hsame
    rw [nil_right, nil_right, e.total_eq, d.total_eq, hsame]
  cases l with
  | call z m =>
    refine ⟨⟨[], []⟩, ?_, rfl, fun _ => rfl⟩
    obtain ⟨hother, ls, hrun, -, hrd, hids⟩ := h.call_run hd halive hl.returns
    rcases x.other.eq_or_other z with rfl | rfl
    · have htotal := run_total hrun shown
      rw [nil_right, e.total_eq, d.total_eq, htotal, hrd, hids]
      simp [Event.share, Event.read, Event.ids]
    · rw [Side.other_other] at hother
      rw [nil_right, e.total_eq, d.total_eq, hother]
      simp only [Event.share, Event.read, Event.ids, Side.other_other, Side.ne_other, if_false]
      rw [nil_right]
  | deliver z w =>
    obtain ⟨ps, hdel⟩ := h.traffic hd halive
    rcases x.eq_or_other z with rfl | rfl
    · refine ⟨shareOf ps, ?_, ?_, fun hne => absurd rfl (hne w)⟩
      · rw [e.total_eq, d.total_eq, hdel.receiver]
        simp only [Event.share, Event.read, Event.ids, shareOf_append]
        rw [nil_right, ← Share.append_assoc]
      · simp only [Event.landed, if_true]
        exact hdel.ids h
    · refine ⟨⟨[], []⟩, ?_, by simp [Event.landed], fun _ => rfl⟩
      rw [nil_right, e.total_eq, d.total_eq, hdel.sender]
      simp only [Event.share, Event.read, Event.ids]
      rw [nil_right]
  | drop z =>
    refine ⟨⟨[], []⟩, ?_, rfl, fun _ => rfl⟩
    obtain ⟨hother, hsame⟩ := h.traffic hd halive
    rw [nil_right, e.total_eq, d.total_eq]
    simp only [Event.share, Event.read, Event.ids]
    rw [nil_right]
    rcases x.other.eq_or_other z with rfl | rfl
    · rw [hsame]
    · rw [Side.other_other] at hother
      rw [hother]
  | complete z w wc => exact ⟨⟨[], []⟩, quiet (h.traffic hd halive), rfl, fun _ => rfl⟩
  | reject z => exact ⟨⟨[], []⟩, quiet (h.traffic hd halive), rfl, fun _ => rfl⟩
  | oracle z => exact ⟨⟨[], []⟩, quiet (h.traffic hd halive), rfl, fun _ => rfl⟩
  | cm z ev => exact ⟨⟨[], []⟩, quiet (h.traffic hd halive), rfl, fun _ => rfl⟩

/-- What lands at an end whose queue pair is up leaves it up. -/
theorem Duo.Step.lands_sound {w : SendWr} (h : Duo.Step d (.deliver x w) e) (hd : d.Healthy)
    (hopen : (d.get x.other).stream.peerClosed = false)
    (hok : ∀ wc ∈ (d.get x.other).stream.conn.cq, wc.isSuccess = true) :
    (e.get x.other).stream.peerClosed = false ∧
      ∀ wc ∈ (e.get x.other).stream.conn.cq, wc.isSuccess = true := by
  cases h with
  | deliver _ _ rest r rs bytes wc hout hrq hland hfit =>
    rw [Duo.get_set]
    obtain ⟨h1, -, -, h4⟩ := (hd.fine x).landed_ready (hd.fine x.other) (hd.hs x) hout hrq hland hfit
    refine ⟨h4.trans hopen, fun v hv => ?_⟩
    rw [h1] at hv
    rcases List.mem_append.mp hv with hv | hv
    · exact hok v hv
    · rw [List.mem_singleton] at hv
      exact hv ▸ (lands_eq hland).2.1
  | deliverWrite _ id sges addr rkey rest hout =>
    rw [Duo.get_set_other]
    exact ⟨hopen, hok⟩

/-! Acknowledged transfers have landed. -/

/-- The transfer ids of `x`'s requests that a step acknowledges. -/
def Event.acked (x : Side) : Event → List Nat
  | .complete y w wc => if y = x ∧ wc.isSuccess = true then w.imm.toList else []
  | _ => []

/-- The transfer ids carried out and not yet acknowledged. -/
def Party.unacked (p : Party) : List Nat := p.stream.conn.await.filterMap SendWr.imm

theorem Party.Step.await {q q' : Party} {m : Hord.Move} (h : Party.Step q m q') (hm : m.isEnv = false)
    (hok : q.Ok) (hf : q'.phase ≠ .failed) : q'.stream.conn.await = q.stream.conn.await := by
  unfold Party.Ok at hok
  have exchange : ∀ {t : HordStream} {ls : List (Option Completion)}, Run HsStep q.stream ls t →
      t.conn.await = q.stream.conn.await := by
    intro t ls hrun
    refine hrun.inv (I := fun u => u.conn.await = q.stream.conn.await) (fun u l v hi hs => ?_) rfl
    cases hs <;> exact hi
  cases h with
  | env t he => cases hm
  | hello t hph hr =>
    rw [hph] at hok
    obtain ⟨fs, rfl⟩ := wp_ok (beginHandshakeSend_wp q.config hok.hs_len) hr
    rfl
  | wait t hph hr =>
    rw [hph] at hok
    have hlen : handshakeLen ≤ q.stream.handshake.length := by rw [hok.hs_len]; decide
    obtain ⟨⟨ls, hrun⟩, -⟩ := wp_ok (pollHandshake_wp hlen) hr
    exact exchange hrun
  | peer t peer hph hr =>
    rw [hph] at hok
    have hlen : handshakeLen ≤ q.stream.handshake.length := by rw [hok.hs_len]; decide
    obtain ⟨⟨ls, hrun⟩, -⟩ := wp_ok (pollHandshake_wp hlen) hr
    exact exchange hrun
  | apply t peer hph hr =>
    rw [hph] at hok
    exact (applyPeer_traffic hok.1 hok.2 hr).2.2.2.2.2.1
  | broke t er hr => exact absurd rfl hf
  | act t a v hph hr =>
    rw [hph] at hok
    obtain ⟨os, hrun⟩ := Act.run_reaches hok.1 hr
    exact run_await hrun
  | actErr t a er hph hr =>
    rw [hph] at hok
    obtain ⟨os, hrun⟩ := (Act.run_reaches_error hok.1 hr).1
    exact run_await hrun

/-- A step acknowledges what was waiting and makes wait what it lands. -/
theorem Duo.Step.unacked (h : Duo.Step d l e) (hd : d.Healthy) (halive : ∀ x, (e.get x).phase ≠ .failed) :
    (l.acked x ++ (e.get x).unacked).Subperm ((d.get x).unacked ++ l.landed x) := by
  have same : ∀ z p, ((z = x) → p.stream.conn.await = (d.get z).stream.conn.await) →
      ([] ++ ((d.set z p).get x).unacked).Subperm ((d.get x).unacked ++ []) := by
    intro z p hp
    rw [List.append_nil, List.nil_append]
    rcases z.eq_or_other x with rfl | rfl
    · rw [Duo.get_set]
      unfold Party.unacked
      rw [hp rfl]
    · rw [Duo.get_set_other]
  cases h with
  | call z m p hp hm =>
    refine same z p fun hz => hp.await hm (hd.fine z).ok ?_
    have := halive z
    rwa [Duo.get_set] at this
  | deliver z w rest r rs bytes wc hout hrq hland hfit =>
    rcases z.eq_or_other x with rfl | rfl
    · rw [Duo.get_set_other', Duo.get_set]
      refine List.Perm.subperm ?_
      simp only [Event.acked, Event.landed, if_true, List.nil_append]
      show (((d.get x).stream.conn.await ++ [w]).filterMap SendWr.imm).Perm _
      rw [List.filterMap_append, List.filterMap_cons, List.filterMap_nil]
      cases w.imm <;> rfl
    · rw [Duo.get_set]
      simp only [Event.acked, Event.landed, Side.ne_other, if_false, List.nil_append, List.append_nil]
      refine List.Perm.subperm ?_
      unfold Party.unacked
      have hsame : ((d.get z.other).landed r rs bytes wc).stream.conn.await =
          (d.get z.other).stream.conn.await := by
        obtain ⟨_, _, _, _, heq, -⟩ := landed_eq (s := (d.get z.other).stream) r rs bytes wc
        show ((d.get z.other).stream.landed r rs bytes wc).conn.await = _
        rw [heq]
      rw [hsame]
  | deliverWrite z id sges addr rkey rest hout =>
    rcases z.eq_or_other x with rfl | rfl
    · rw [Duo.get_set]
      refine List.Perm.subperm ?_
      simp only [Event.acked, Event.landed, if_true, List.nil_append]
      show (((d.get x).stream.conn.await ++ [_]).filterMap SendWr.imm).Perm _
      rw [List.filterMap_append]
      rfl
    · rw [Duo.get_set_other]
      simpa [Event.acked, Event.landed] using List.Subperm.refl _
  | complete z ls rs w wc ha hid hop =>
    rcases z.eq_or_other x with rfl | rfl
    · rw [Duo.get_set]
      simp only [Event.landed, List.append_nil]
      unfold Party.unacked
      simp only [ha, List.filterMap_append, List.filterMap_cons]
      cases hw : w.imm with
      | none => simpa [Event.acked, hw] using List.Subperm.refl _
      | some id =>
        simp only [Event.acked, hw, true_and]
        split
        · rw [Option.toList_some, List.singleton_append]
          exact List.perm_middle.symm.subperm
        · rw [List.nil_append]
          exact ((List.sublist_cons_self _ _).append_left _).subperm
    · rw [Duo.get_set_other]
      simpa [Event.acked, Event.landed] using List.Subperm.refl _
  | reject z ls rs r wc hr hid hbad => exact same z _ fun _ => rfl
  | drop z ls rs w wc ho hid hbad => exact same z _ fun _ => rfl
  | oracle z fs => exact same z _ fun _ => rfl
  | cm z ev => exact same z _ fun _ => rfl

end Pair

/-! A flushed end has nothing left to deliver. -/

/-- What `flush` waits for: nothing staged, every send slot back, no write pending. -/
def HordStream.flushed (s : HordStream) : Bool :=
  s.txStage.isEmpty && !s.sendsOutstanding && !s.writesPending

section Flushed
variable {s : HordStream} {p : Party}

/-- With every slot back, no data message is on the send queue. -/
theorem Inv.no_data (hi : Inv s) (hall : s.sendsOutstanding = false) {slot : Nat}
    (hslot : slot < s.geo.sendPool) : s.conn.sqCount (· == sendWrId slot) = 0 := by
  have hone : ∀ v < s.geo.sendPool, s.sendFree.count v + s.conn.sqCount (· == sendWrId v) ≤ 1 := by
    intro v hv
    have := (hi.books.send v (s.geo.sendSlot_lt hv.le)).1
    rwa [if_pos hv] at this
  have hnodup : s.sendFree.Nodup := by
    refine List.nodup_iff_count_le_one.mpr fun v => ?_
    by_cases hv : v ∈ s.sendFree
    · have := hone v (hi.wf.free_lt v hv)
      omega
    · rw [List.count_eq_zero_of_not_mem hv]
      exact Nat.zero_le _
  have hsub : s.sendFree.Subperm (List.range s.geo.sendPool) :=
    hnodup.subperm fun v hv => List.mem_range.mpr (hi.wf.free_lt v hv)
  have hlen : (List.range s.geo.sendPool).length ≤ s.sendFree.length := by
    rw [List.length_range]
    exact Nat.le_of_not_lt (of_decide_eq_false hall)
  have hmem : slot ∈ s.sendFree :=
    (hsub.perm_of_length_le hlen).mem_iff.mpr (List.mem_range.mpr hslot)
  have hcount := List.count_pos_iff.mpr hmem
  have := hone slot hslot
  omega

/-- So nothing on its way out has a body. -/
theorem Inv.flushed_outbox (hi : Inv s) (hall : s.sendsOutstanding = false) :
    bodies s.traffic.outbox = [] := by
  show (s.outParcels.map Parcel.packet).flatMap Packet.bodies = []
  rw [List.flatMap_eq_nil_iff]
  intro packet hpacket
  obtain ⟨parcel, hparcel, rfl⟩ := List.mem_map.mp hpacket
  obtain ⟨w, hw, hwp⟩ := List.mem_filterMap.mp hparcel
  cases hi.wf.sq w (List.mem_append_left _ hw) with
  | data slot len hslot hlo hhi =>
    have hzero := hi.no_data hall hslot
    have hpos : 0 < s.conn.out.countP fun w => (· == sendWrId slot) w.wrId :=
      List.countP_pos_iff.mpr ⟨_, hw, beq_self_eq_true _⟩
    unfold Connection.sqCount at hzero
    omega
  | ctrl =>
    -- a control message is its envelope
    cases hwp
    have hlen : (readAt s.send (s.geo.ctrlSlot * s.geo.msgSize) envelopeLen).length ≤ envelopeLen :=
      List.length_take_le _ _
    have hbody : payloadOf (readAt s.send (s.geo.ctrlSlot * s.geo.msgSize) envelopeLen) = [] := by
      unfold payloadOf
      rw [List.drop_of_length_le hlen]
      simp
    show (Packet.data _ (payloadOf _)).bodies = []
    rw [hbody]
    rfl
  | write chunk sges addr rkey imm hchunk =>
    cases imm with
    | none => cases hwp
    | some id => cases hwp; rfl

end Flushed

/-! What end of stream says. -/

theorem tryRead_eof {s t : HordStream} {n : Nat} (hwf : Wf s) (hn : 0 < n)
    (hr : (Act.tryRead n).run s = .ok (.bytes (some [])) t) : s.rxReady = [] ∧ s.peerClosed = true := by
  have hread : wp (Act.tryRead n).run s fun r _ =>
      r = .ok (.bytes (some [])) → s.rxReady = [] ∧ s.peerClosed = true := by
    simp only [Act.run, wp_bind]
    refine wp_mono (tryRead_path n hwf) ?_
    intro r u hr
    cases r with
    | ok v =>
      cases v with
      | none => simp
      | some bs =>
        intro he
        injection he with he
        injection he with he
        injection he with he
        rcases (hr.2 he).2 with hz | h
        · omega
        · exact h
    | error e =>
      cases e with
      | io _ => simp
      | panic _ => exact hr.elim
  exact wp_ok hread hr rfl

theorem nextCompletedTransfer_none {s t : HordStream}
    (hr : Act.nextCompletedTransfer.run s = .ok (.transfer none) t) : s.completedTransfers = [] := by
  have htake : wp Act.nextCompletedTransfer.run s fun r _ =>
      r = .ok (.transfer none) → s.completedTransfers = [] := by
    simp only [Act.run, wp_bind]
    refine wp_mono (nextCompletedTransfer_path s) ?_
    intro r u hr
    cases r with
    | ok v =>
      cases v with
      | none => exact fun _ => hr.2
      | some id => simp
    | error _ => exact hr.elim
  exact wp_ok htake hr rfl

/-! Whole runs. -/

/-- What the reader has been shown. -/
def shares (x : Side) (ls : List Event) : Share := ⟨ls.flatMap (Event.read x), ls.flatMap (Event.ids x)⟩

theorem shares_append (x : Side) (ls ms : List Event) : shares x (ls ++ ms) = shares x ls ++ shares x ms := by
  apply Share.ext
  · exact List.flatMap_append
  · exact List.flatMap_append

theorem shares_single (x : Side) (l : Event) : shares x [l] = l.share x := by
  apply Share.ext
  · exact List.flatMap_singleton ..
  · exact List.flatMap_singleton ..

/-- Before the disconnect all that has arrived is kept, and all that was acknowledged has
    arrived. -/
structure Duo.Flowing (x : Side) (ls : List Event) (d : Duo) : Prop where
  healthy : d.Healthy
  ordered : Ordered (d.traffic x) (d.traffic x.other) (ls.flatMap (Event.accepted x))
    (ls.flatMap (Event.read x.other))
  kept : Kept (d.get x.other).stream ((d.get x.other).stream.total (shares x.other ls)) (shares x.other ls)
  acked : (ls.flatMap (Event.acked x) ++ (d.get x).unacked).Subperm
    ((d.get x.other).stream.total (shares x.other ls)).ids

section Runs
variable {d e : Duo} {l : Event} {x : Side}

theorem Duo.Init.flowing (h : d.Init) (x : Side) : Duo.Flowing x [] d := by
  obtain ⟨-, -, -, hcq, hready, -, -, htags, -⟩ := (h x.other).fine
  refine ⟨h.healthy, (h.laws x).1, ?_, ?_⟩
  · refine ⟨[], [], by rw [hcq]; rfl, nofun, fun _ => rfl, ?_⟩
    unfold HordStream.total
    rw [hcq]
    exact Share.Prefix.refl _
  · have hnone : (d.get x).unacked = [] := by
      have hok := (h x).ok
      unfold Party.Ok at hok
      rw [(h x).1] at hok
      have hsend := hok.hsSend
      have hzero : (d.get x).stream.conn.await = [] := by
        refine List.eq_nil_iff_forall_not_mem.mpr fun w hw => ?_
        have hid := hok.sq w (List.mem_append_right _ hw)
        have hpos : 0 < (d.get x).stream.conn.await.countP fun w => w.wrId == hsSendWrId :=
          List.countP_pos_iff.mpr ⟨w, hw, by rw [hid]; rfl⟩
        unfold Connection.sqCount at hsend
        simp only [Bool.toNat_false] at hsend
        omega
      unfold Party.unacked
      rw [hzero]
      rfl
    rw [hnone]
    exact List.nil_subperm

theorem Duo.flowing_facts (h : d.flowing x l = true) : d.closing x l = true ∧ l.Keeps x ∧
    ∀ w, l = .deliver x w → (d.get x.other).sound = true := by
  simp only [Duo.flowing, Bool.and_eq_true] at h
  refine ⟨h.1, ?_, ?_⟩
  · cases l with
    | call y m =>
      have hm : m.fails = false := by simpa using h.2
      unfold Event.Keeps
      split
      · next he => cases he; cases hm
      · next he => cases he
      · trivial
    | drop y =>
      have hy : y ≠ x := by simpa using h.2
      exact hy
    | _ => trivial
  · rintro w rfl
    simpa using h.2

/-- One step before the disconnect. -/
theorem Duo.Flowing.step {ls : List Event} (hi : Duo.Flowing x ls d) (h : Duo.Step d l e)
    (hl : d.flowing x l = true) : Duo.Flowing x (ls ++ [l]) e := by
  obtain ⟨hcl, hkeeps, hsound⟩ := Duo.flowing_facts hl
  obtain ⟨htame, hbroke, -⟩ := Duo.closing_facts hcl
  have halive := h.alive (fun x => (hi.healthy.fine x).alive) hbroke
  have hshow : shares x.other (ls ++ [l]) = shares x.other ls ++ l.share x.other := by
    rw [shares_append, shares_single]
  obtain ⟨more, htotal, hids, hquiet⟩ := h.total hi.healthy halive hkeeps (shares x.other ls)
  refine ⟨h.closing_healthy hi.healthy hcl, ?_, ?_, ?_⟩
  · have hstep := h.ordered hi.healthy halive hkeeps hi.ordered
    simpa [List.flatMap_append] using hstep
  · rw [hshow]
    by_cases hdel : ∃ w, l = .deliver x w
    · -- the reader's queue pair is up, so what lands is on the successful part
      obtain ⟨w, rfl⟩ := hdel
      have hup := hsound w rfl
      simp only [Party.sound, Bool.and_eq_true, Bool.not_eq_true', List.all_eq_true] at hup
      obtain ⟨hopen, hok⟩ := h.lands_sound hi.healthy hup.1 hup.2
      exact kept_of_sound hopen hok _
    · rw [htotal, hquiet fun w hw => hdel ⟨w, hw⟩]
      have hk := h.keeps_share hi.healthy hcl hi.kept
      simpa [Share.append_nil] using hk
  · rw [hshow, htotal, Share.append_ids, hids, List.flatMap_append]
    have hun := h.unacked (x := x) hi.healthy halive
    have hall := (hi.acked.append (List.Subperm.refl (l.landed x)))
    refine List.Subperm.trans ?_ hall
    have hone : [l].flatMap (Event.acked x) = l.acked x := List.flatMap_singleton ..
    rw [hone, List.append_assoc, List.append_assoc]
    exact (List.Subperm.refl _).append hun

theorem flowing_run {ls : List Event} (hinit : d.Init)
    (hrun : Run (fun d l e => Duo.Step d l e ∧ d.flowing x l = true) d ls e) : Duo.Flowing x ls e :=
  hrun.inv_trace (I := Duo.Flowing x) (fun _ _ _ _ hi hs => hi.step hs.1 hs.2) (hinit.flowing x)

/-- After the disconnect the promise stands. -/
theorem closing_run {promised shown : Share} {ms : List Event} (hd : d.Healthy)
    (hk : Kept (d.get x.other).stream promised shown)
    (hrun : Run (fun d l e => Duo.Step d l e ∧ d.closing x l = true) d ms e) :
    e.Healthy ∧ Kept (e.get x.other).stream promised (shown ++ shares x.other ms) := by
  refine hrun.inv_trace (I := fun ms u => u.Healthy ∧
    Kept (u.get x.other).stream promised (shown ++ shares x.other ms)) (fun ms s l t hi hs => ?_) ⟨hd, ?_⟩
  · refine ⟨hs.1.closing_healthy hi.1 hs.2, ?_⟩
    rw [shares_append, shares_single, ← Share.append_assoc]
    exact hs.1.keeps_share hi.1 hs.2 hi.2
  · rw [show shares x.other [] = ⟨[], []⟩ from rfl, Share.append_nil]
    exact hk

/-- An end that disconnects flushed has nothing of its own on the way. -/
theorem Duo.Flowing.all_arrived {ls : List Event} (hi : Duo.Flowing x ls d)
    (hup : (d.get x).phase = .up) (hflush : (d.get x).stream.flushed = true) :
    ls.flatMap (Event.accepted x) = ((d.get x.other).stream.total (shares x.other ls)).bytes := by
  simp only [HordStream.flushed, Bool.and_eq_true, Bool.not_eq_true', List.isEmpty_iff] at hflush
  have hbox : bodies (d.traffic x).outbox = [] := by
    unfold Duo.traffic
    rw [Party.traffic_up _ hup]
    exact ((hi.healthy.fine x).ok.inv hup).flushed_outbox hflush.1.2
  have hstage : (d.traffic x).stage = [] := by
    unfold Duo.traffic
    rw [Party.traffic_up _ hup]
    exact hflush.1.1
  rw [hi.ordered, d.total_eq]
  simp [transit, hbox, hstage, shares, shareOf]

end Runs

/-- End of stream is complete: when `x` disconnects flushed, everything it had accepted has
    been read by the time the other end sees end of stream, and every transfer whose write
    was acknowledged has been taken by the time it sees none are left; provided its CM
    check finds the disconnect only with nothing for it on the completion queue. -/
theorem eof_complete {x : Side} {d₀ d e : Duo} {ls ms : List Event} {r : Except Fail Res}
    (hinit : d₀.Init) (hbefore : Run (fun d l e => Duo.Step d l e ∧ d.flowing x l = true) d₀ ls d)
    (hflush : (d.get x).stream.flushed = true)
    (hafter : Run (fun d l e => Duo.Step d l e ∧ d.closing x l = true) d
      (.call x (.act .disconnect r) :: ms) e) :
    (∀ n e', 0 < n → Duo.Step e (.call x.other (.act (.tryRead n) (.ok (.bytes (some []))))) e' →
      ls.flatMap (Event.accepted x) <+: (ls ++ ms).flatMap (Event.read x.other)) ∧
    (∀ e', Duo.Step e (.call x.other (.act .nextCompletedTransfer (.ok (.transfer none)))) e' →
      (e.get x.other).stream.peerClosed = true →
      (ls.flatMap (Event.acked x)).Subperm ((ls ++ ms).flatMap (Event.ids x.other))) := by
  have hi := flowing_run hinit hbefore
  obtain ⟨he, hk⟩ := closing_run hi.healthy hi.kept hafter
  have hup : (d.get x).phase = .up := by
    obtain ⟨u, hfirst, -⟩ := hafter.uncons
    cases hfirst.1 with
    | call _ _ p hp _ =>
      cases hp with
      | act t a v hph hr => exact hph
      | actErr t a er hph hr => exact hph
  have hshow : shares x.other ls ++ shares x.other (.call x (.act .disconnect r) :: ms) =
      shares x.other (ls ++ ms) := by
    rw [shares_append]
    simp [shares, Event.read, Event.ids]
  rw [hshow] at hk
  refine ⟨fun n e' hn heof => ?_, fun e' hend hclosed => ?_⟩
  · rw [hi.all_arrived hup hflush]
    cases heof with
    | call _ _ p hp _ =>
      cases hp with
      | act t a v hph hr =>
        obtain ⟨hnil, hclosed⟩ := tryRead_eof ((he.fine x.other).ok.inv hph).wf hn hr
        have hprefix := (hk.at_end hclosed).1
        simpa [HordStream.ready, HordStream.traffic, hnil, shares] using hprefix
  · cases hend with
    | call _ _ p hp _ =>
      cases hp with
      | act t a v hph hr =>
        have hnil := nextCompletedTransfer_none hr
        have hprefix := (hk.at_end hclosed).2
        have hids : ((d.get x.other).stream.total (shares x.other ls)).ids <+:
            (ls ++ ms).flatMap (Event.ids x.other) := by
          simpa [HordStream.ready, hnil, shares] using hprefix
        have hsub := (List.sublist_append_left _ _).subperm.trans hi.acked
        exact hsub.trans hids.sublist.subperm

/-! Runs that reach end of stream. -/

/-- A read of `x` returns end of stream. -/
def Duo.atEof (d : Duo) (x : Side) : Bool :=
  match d.exec (.act x (.tryRead 16)) with
  | some (.call y (.act (.tryRead n) (.ok (.bytes (some [])))), _) => y = x && n = 16
  | _ => false

theorem Duo.atEof_step {d : Duo} {x : Side} (h : d.atEof x = true) :
    ∃ e, Duo.Step d (.call x (.act (.tryRead 16) (.ok (.bytes (some []))))) e := by
  unfold Duo.atEof at h
  split at h
  · next y n e he =>
    simp only [Bool.and_eq_true, decide_eq_true_eq] at h
    obtain ⟨rfl, rfl⟩ := h
    exact ⟨e, Duo.exec_step he⟩
  · cases h

/-- The first of the steps is the left end's disconnect, and `good` holds of the rest. -/
def startsDisconnect (good : List Event → Bool) : List Event → Bool
  | .call .left (.act .disconnect (.ok .unit)) :: ms => good ms
  | _ => false

theorem startsDisconnect_cons {good : List Event → Bool} {ls : List Event}
    (h : startsDisconnect good ls = true) :
    ∃ ms, ls = .call .left (.act .disconnect (.ok .unit)) :: ms ∧ good ms = true := by
  unfold startsDisconnect at h
  split at h
  · next ms => exact ⟨ms, rfl, h⟩
  · cases h

/-- The left end sends three bytes; the right end polls its empty queue in between, then the
    message lands and is acknowledged. -/
def flushedPair : List Turn :=
  tinyPair ++ [.act .left (.tryWrite [1, 2, 3]), .act .left .tryFlushStage, .act .right (.tryRead 16),
    .act .right (.returnOwedCredits false), .act .right .pump, .deliver .left, .complete .left,
    .act .left .pump]

/-- The right end polls its queue once more before it looks for a disconnect. -/
theorem eof_complete_three : ∃ d₀ ls d ms e e', d₀.Init ∧
    Run (fun d l e => Duo.Step d l e ∧ d.flowing .left l = true) d₀ ls d ∧
    (d.get .left).stream.flushed = true ∧
    Run (fun d l e => Duo.Step d l e ∧ d.closing .left l = true) d
      (.call .left (.act .disconnect (.ok .unit)) :: ms) e ∧
    Duo.Step e (.call .right (.act (.tryRead 16) (.ok (.bytes (some []))))) e' ∧
    ls.flatMap (Event.accepted .left) = [1, 2, 3] ∧
    ls.flatMap (Event.accepted .left) <+: (ls ++ ms).flatMap (Event.read .right) := by
  obtain ⟨d₀, ls, d, ns, e, hinit, hbefore, hafter, hgood⟩ := Duo.launch_run_then
    (Duo.flowing .left) (Duo.closing .left) tinyConfig tinyConfig flushedPair
    [.act .left .disconnect, .cm .right .disconnected, .act .right .pump, .act .right (.tryRead 16),
      .act .right .pump, .act .right .pollCmDisconnect]
    (fun ls d ns e => (d.get .left).stream.flushed && startsDisconnect (fun _ => true) ns &&
      e.atEof .right && decide (ls.flatMap (Event.accepted .left) = [1, 2, 3])) (by decide +kernel)
  simp only [Bool.and_eq_true, decide_eq_true_eq] at hgood
  obtain ⟨⟨⟨hflush, hstart⟩, heof⟩, hacc⟩ := hgood
  obtain ⟨ms, rfl, -⟩ := startsDisconnect_cons hstart
  obtain ⟨e', hstep⟩ := Duo.atEof_step heof
  exact ⟨d₀, ls, d, ms, e, e', hinit, hbefore, hflush, hafter, hstep, hacc,
    (eof_complete hinit hbefore hflush hafter).1 16 e' (by decide) hstep⟩

/-- It does not, and sees end of stream with the three bytes unread: the message landed
    after its last poll, and the CM check closed the stream. -/
theorem eof_truncates : ∃ d₀ ls d ms e e', d₀.Init ∧
    Run (fun d l e => Duo.Step d l e ∧ l.faithful = true) d₀ ls d ∧
    (d.get .left).stream.flushed = true ∧ (∀ y ev, .cm y ev ∉ ls) ∧
    Run (fun d l e => Duo.Step d l e ∧ l.faithful = true) d
      (.call .left (.act .disconnect (.ok .unit)) :: ms) e ∧
    Duo.Step e (.call .right (.act (.tryRead 16) (.ok (.bytes (some []))))) e' ∧
    ls.flatMap (Event.accepted .left) = [1, 2, 3] ∧ (ls ++ ms).flatMap (Event.read .right) = [] := by
  obtain ⟨d₀, ls, d, ns, e, hinit, hbefore, hafter, hgood⟩ := Duo.launch_run_then
    (fun _ l => l.faithful) (fun _ l => l.faithful) tinyConfig tinyConfig flushedPair
    [.act .left .disconnect, .cm .right .disconnected, .act .right .pollCmDisconnect]
    (fun ls d ns e => (d.get .left).stream.flushed && ls.all (fun l => !l.isCm) &&
      startsDisconnect (fun ms => decide ((ls ++ ms).flatMap (Event.read .right) = [])) ns &&
      e.atEof .right && decide (ls.flatMap (Event.accepted .left) = [1, 2, 3])) (by decide +kernel)
  simp only [Bool.and_eq_true, decide_eq_true_eq, List.all_eq_true] at hgood
  obtain ⟨⟨⟨⟨hflush, hcm⟩, hstart⟩, heof⟩, hacc⟩ := hgood
  obtain ⟨ms, rfl, hread⟩ := startsDisconnect_cons hstart
  obtain ⟨e', hstep⟩ := Duo.atEof_step heof
  refine ⟨d₀, ls, d, ms, e, e', hinit, hbefore, hflush, fun y ev hmem => ?_, hafter, hstep, hacc,
    of_decide_eq_true hread⟩
  have := hcm _ hmem
  cases this

end Hord
