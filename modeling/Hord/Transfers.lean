import Hord.Eof
import Hord.Windows

/- Split-mode transfers. A transfer is a gather write whose last request carries an
   immediate: its id is on the sender's queue, then on the receiver's completion queue,
   then among its completed transfers, until it is taken. Nothing else touches these
   places, whether calls return or fail, so the ids taken are the ids posted, in order and
   once each (`Duo.Tagged`); and since requests are carried out in posting order, all of a
   transfer has been written when its id is taken (`transfers_in_order`).

   Correspondence (Rust ↔ Lean):
     `begin_*_with_imm` returns `Ok`                   ↔ `Event.posted`
     `next_completed_transfer` returns `Some(id)`      ↔ `Event.ids`
     a byte of a write is in the receiver's memory     ↔ `SendWr.placed` of a carried request -/
namespace Hord

open Region Prog Transition CreditLink

/-- The transfer a completion announces. -/
def Completion.imm (wc : Completion) : Option Nat :=
  if wc.isSuccess = true ∧ wc.opcode = .recvRdmaWithImm then some wc.immData else none

namespace HordStream
variable (s : HordStream)

/-- Transfers announced to this end and not yet taken, oldest first. -/
def tagsIn : List Nat := s.completedTransfers ++ s.conn.cq.filterMap Completion.imm

/-- Transfers this end has posted and the device has not carried out. -/
def tagsOut : List Nat := s.conn.out.filterMap SendWr.imm

end HordStream

/-- The transfer a call posts. -/
def Move.posted : Hord.Move → List Nat
  | .act (.beginWrite _ _ _ imm) (.ok _) => imm.toList
  | _ => []

/-- The transfer a call takes. -/
def resIds : Except Fail Res → List Nat
  | .ok v => v.ids
  | .error _ => []

/-! One end. -/

section Ends
variable {s t : HordStream}

theorem ids_arrived (s : HordStream) (cq : List Completion) :
    ids ((cq.filterMap s.inParcel).map Parcel.packet) = cq.filterMap Completion.imm := by
  induction cq with
  | nil => rfl
  | cons wc cq ih =>
    have hone : ids ((s.inParcel wc).toList.map Parcel.packet) = (Completion.imm wc).toList := by
      unfold HordStream.inParcel Completion.imm
      cases hok : wc.isSuccess with
      | false => simp
      | true =>
        by_cases hop : wc.opcode = .recvRdmaWithImm
        · simp [hop, Parcel.packet, Packet.ids]
        · by_cases hid : (isSend wc.wrId || isWrite wc.wrId) = true
          · simp [hop, hid]
          · simp [hop, hid, Parcel.packet, Packet.ids]
    rw [List.filterMap_cons, List.filterMap_cons]
    cases hin : s.inParcel wc with
    | none =>
      rw [hin] at hone
      cases himm : Completion.imm wc with
      | none => exact ih
      | some id => rw [himm] at hone; cases hone
    | some v =>
      rw [hin] at hone
      simp only [Option.toList_some, List.map_cons, List.map_nil, ids_cons, ids_nil, List.append_nil] at hone
      simp only [List.map_cons, ids_cons, hone, ih]
      cases Completion.imm wc with
      | none => rfl
      | some id => rfl

theorem ids_posted (s : HordStream) (ws : List SendWr) :
    ids ((ws.filterMap s.outParcel).map Parcel.packet) = ws.filterMap SendWr.imm := by
  induction ws with
  | nil => rfl
  | cons w ws ih =>
    rw [List.filterMap_cons, List.filterMap_cons]
    match w with
    | .send _ .send off len => exact ih
    | .send _ .recv off len => exact ih
    | .send _ .splitRecv off len => exact ih
    | .send _ .handshake off len => exact ih
    | .write id sges addr rkey none => exact ih
    | .write id sges addr rkey (some imm) => exact congrArg (imm :: ·) ih

/-- The same places, seen on the link. -/
theorem tags_traffic (s : HordStream) :
    s.tagsIn = s.traffic.tags ++ ids s.traffic.inbox ∧ s.tagsOut = ids s.traffic.outbox :=
  ⟨congrArg (s.completedTransfers ++ ·) (ids_arrived s s.conn.cq).symm, (ids_posted s s.conn.out).symm⟩

theorem Handled.transfers {wc : Completion} {ok : Bool} (h : Handled s wc ok t) :
    t.completedTransfers = s.completedTransfers ++ (Completion.imm wc).toList := by
  have plain : ∀ {u : HordStream}, u.completedTransfers = s.completedTransfers →
      (wc.isSuccess = false ∨ wc.opcode ≠ .recvRdmaWithImm) →
      u.completedTransfers = s.completedTransfers ++ (Completion.imm wc).toList := by
    intro u hu hnot
    have hnone : Completion.imm wc = none := by
      unfold Completion.imm
      rcases hnot with hbad | hop
      · simp [hbad]
      · simp [hop]
    rw [hu, hnone]
    exact (List.append_nil _).symm
  have announced : wc.opcode = .recvRdmaWithImm → wc.isSuccess = true →
      (Completion.imm wc).toList = [wc.immData] := by
    intro hop hok
    simp [Completion.imm, hop, hok]
  have reclaimed : ∀ u : HordStream, (u.reclaimed wc.wrId).completedTransfers = u.completedTransfers := by
    intro u
    rw [HordStream.reclaimed]
    split <;> rfl
  cases h with
  | imm hop hok => rw [announced hop hok]; rfl
  | immLost hop hok => rw [announced hop hok]; rfl
  | immFailed hop hbad => exact plain rfl (.inl hbad)
  | failed hop hw hbad =>
    split
    · exact plain (reclaimed s.close) (.inl hbad)
    · exact plain rfl (.inl hbad)
  | sent hop => exact plain (reclaimed s) (.inr hop)
  | write hop => exact plain rfl (.inr hop)
  | writeFailed hop => exact plain rfl (.inr hop)
  | runt hop => exact plain rfl (.inr hop)
  | held hop => exact plain rfl (.inr hop)
  | credit hop => exact plain rfl (.inr hop)
  | zero hop => exact plain rfl (.inr hop)
  | emptyLost hop => exact plain rfl (.inr hop)

/-- Handling a completion moves its transfer from the queue to the completed ones. -/
theorem Handled.tagsIn {wc : Completion} {rest : List Completion} {fs : List Bool} {ok : Bool}
    (hcq : s.conn.cq = wc :: rest) (h : Handled ((s.setCq rest).setFaults fs) wc ok t) :
    t.tagsIn = s.tagsIn := by
  rw [HordStream.tagsIn, h.transfers, h.cq, HordStream.tagsIn, hcq, List.filterMap_cons]
  show s.completedTransfers ++ (Completion.imm wc).toList ++ rest.filterMap Completion.imm = _
  cases Completion.imm wc with
  | none => simp
  | some id => simp

/-- No other call takes a transfer. -/
theorem Act.run_ids {a : Act} (h : a ≠ .nextCompletedTransfer) (s : HordStream) :
    wp a.run s fun r _ => resIds r = [] := by
  have plain : ∀ {α : Type} (x : M α) {k : α → Res}, (∀ v, (k v).ids = []) →
      wp (x >>= fun v => pure (k v)) s fun r _ => resIds r = [] := by
    intro α x k hk
    rw [wp_bind]
    refine wp_mono (wp_true x s) ?_
    intro r t _
    match r with
    | .ok v => exact hk v
    | .error _ => rfl
  cases a with
  | nextCompletedTransfer => exact absurd rfl h
  | _ => exact plain _ fun _ => rfl

/-- Only taking a transfer changes what is announced. -/
theorem Act.run_tagsIn (a : Act) (hwf : Wf s) :
    wp a.run s fun r t => s.tagsIn = resIds r ++ t.tagsIn := by
  have kept : ∀ {t : HordStream}, t.completedTransfers = s.completedTransfers → t.conn.cq = s.conn.cq →
      s.tagsIn = t.tagsIn := by
    intro t h1 h2
    rw [HordStream.tagsIn, HordStream.tagsIn, h1, h2]
  by_cases hpump : a = .pump
  · subst hpump
    simp only [Act.run, wp_bind]
    refine wp_mono (pumpOnce_wp hwf) ?_
    intro r t hr
    cases r with
    | ok v =>
      cases v with
      | true =>
        obtain ⟨fs, wc, rest, hcq, hh⟩ := hr
        exact (hh.tagsIn hcq).symm
      | false =>
        obtain ⟨-, fs, rfl⟩ := hr
        rfl
    | error e =>
      cases e with
      | io _ =>
        rcases hr with ⟨fs, -, rfl⟩ | ⟨fs, wc, rest, hcq, hh⟩
        · rfl
        · exact (hh.tagsIn hcq).symm
      | panic _ => exact hr.elim
  by_cases htake : a = .nextCompletedTransfer
  · subst htake
    simp only [Act.run, wp_bind]
    refine wp_mono (wp_and (nextCompletedTransfer_path s)
      (keeps_nextCompletedTransfer (f := fun u => u.conn.cq) (g := id) (fun _ _ => rfl) s)) ?_
    intro r t hr
    cases r with
    | ok v =>
      cases v with
      | none => rw [hr.1.1]; rfl
      | some id =>
        obtain ⟨⟨-, htags⟩, hcq⟩ := hr
        have hcq' : t.conn.cq = s.conn.cq := hcq
        show s.tagsIn = [id] ++ t.tagsIn
        rw [HordStream.tagsIn, HordStream.tagsIn, htags, hcq']
        rfl
    | error _ => exact hr.1.elim
  · -- nothing else touches either place
    -- the calls by what they may change
    have hs : UnseenSend (fun u : HordStream => u.completedTransfers) id :=
      ⟨fun _ _ => rfl, fun _ _ _ _ _ _ => rfl, fun _ _ => rfl, fun _ _ _ => rfl, fun _ => rfl⟩
    have hw : UnseenWrite (fun u : HordStream => u.completedTransfers) id :=
      ⟨hs, fun _ _ => rfl, fun _ _ _ => rfl, fun _ _ => rfl⟩
    have hr : UnseenRead (fun u : HordStream => u.completedTransfers) id :=
      ⟨⟨fun _ _ _ => rfl, fun _ => rfl⟩, fun _ _ => rfl, fun _ _ => rfl⟩
    have hd : UnseenDevice fun u : HordStream => u.completedTransfers := fun _ _ _ _ _ => rfl
    have hunseen : a.Unseen (fun u : HordStream => u.completedTransfers) id := by
      cases a with
      | tryWrite buf => exact hw
      | tryFlushStage => exact hw
      | tryRead n => exact ⟨hr, hs⟩
      | returnOwedCredits urgent => exact hs
      | pump => exact absurd rfl hpump
      | pollCmDisconnect => exact ⟨hd, fun _ => rfl⟩
      | pollCmEvent => exact ⟨hd, fun _ => rfl⟩
      | nextCompletedTransfer => exact absurd rfl htake
      | beginWrite => exact ⟨hd.link, fun _ _ => rfl, fun _ => rfl⟩
      | _ => exact hd.link
    refine wp_mono (wp_and (Act.run_ids htake s) (wp_and (Act.keeps hunseen s) (Act.keeps_cq hpump s))) ?_
    intro r t hrt
    obtain ⟨hids, htags, hcq⟩ := hrt
    rw [hids]
    cases r with
    | ok _ => exact kept htags hcq
    | error _ => exact kept htags hcq

theorem filterMap_imm_none {ws : List SendWr} (h : ∀ w ∈ ws, w.imm = none) : ws.filterMap SendWr.imm = [] :=
  List.filterMap_eq_nil_iff.mpr h

/-- The requests of a gather write post its immediate once, with the last of them. -/
theorem writeWrs_imms (maxSge : Nat) (segments : List WriteSegment) (peerAddr peerRkey : Nat)
    (imm : Option Nat) :
    (writeWrs maxSge segments peerAddr peerRkey imm).filterMap SendWr.imm = imm.toList ∧
      ∀ k < (writeWrs maxSge segments peerAddr peerRkey imm).length,
        ((writeWrs maxSge segments peerAddr peerRkey imm).take k).filterMap SendWr.imm = [] := by
  by_cases hne : writeWrs maxSge segments peerAddr peerRkey imm = []
  · rw [hne]
    refine ⟨?_, nofun⟩
    cases imm with
    | none => rfl
    | some id => exact absurd hne (writeWrs_ne_nil maxSge segments peerAddr peerRkey id)
  · obtain ⟨init, last, heq, hinit, hlast⟩ := writeWrs_last hne
    rw [heq]
    constructor
    · rw [List.filterMap_append, filterMap_imm_none hinit, List.nil_append, List.filterMap_cons, hlast]
      cases imm with
      | none => rfl
      | some id => rfl
    · intro k hk
      rw [List.length_append, List.length_singleton] at hk
      rw [List.take_append_of_le_length (by omega)]
      exact filterMap_imm_none fun w hw => hinit w (List.mem_of_mem_take hw)

/-- A gather write posts its transfer if it returns, and none if it fails. -/
theorem beginWrite_tagsOut (segments : List WriteSegment) (peerAddr peerRkey : Nat) (imm : Option Nat) :
    wp (beginRdmaWriteGatherInner segments peerAddr peerRkey imm) s fun r t =>
      match r with
      | .ok _ => t.tagsOut = s.tagsOut ++ imm.toList
      | .error _ => t.tagsOut = s.tagsOut := by
  obtain ⟨hall, hpart⟩ := writeWrs_imms s.conn.maxSendSge segments peerAddr peerRkey imm
  have posted : ∀ {t : HordStream} (ws : List SendWr),
      t.conn.out = (ws.foldl HordStream.wrote s).conn.out →
      t.tagsOut = s.tagsOut ++ ws.filterMap SendWr.imm := by
    intro t ws ht
    rw [HordStream.tagsOut, ht, foldl_wrote_conn, List.filterMap_append]
    rfl
  refine wp_mono (beginRdmaWriteGatherInner_wp segments peerAddr peerRkey imm) ?_
  intro r t hr
  match r with
  | .ok () =>
    obtain ⟨-, -, fs, rfl⟩ := hr
    show _ = s.tagsOut ++ imm.toList
    rw [← hall]
    exact posted _ rfl
  | .error (.io _) =>
    rcases hr.2 with ⟨-, rfl⟩ | ⟨-, -, k, hk, fs, rfl⟩
    · rfl
    · have hnone := posted (t := ((((writeWrs s.conn.maxSendSge segments peerAddr peerRkey imm).take k).foldl
        HordStream.wrote s).setFaults fs).close) _ rfl
      rw [hpart k hk, List.append_nil] at hnone
      exact hnone
  | .error (.panic _) => exact hr.2.elim

/-- Only a gather write changes which transfers are posted. -/
theorem Act.run_tagsOut (a : Act) (hwf : Wf s) :
    wp a.run s fun r t => t.tagsOut = s.tagsOut ++ (Move.act a r).posted := by
  by_cases hbegin : ∃ segments peerAddr peerRkey imm, a = .beginWrite segments peerAddr peerRkey imm
  · obtain ⟨segments, peerAddr, peerRkey, imm, rfl⟩ := hbegin
    simp only [Act.run, wp_bind]
    refine wp_mono (beginWrite_tagsOut segments peerAddr peerRkey imm) ?_
    intro r t hr
    cases r with
    | ok _ => exact hr
    | error _ => exact hr.trans (List.append_nil _).symm
  have hnone : ∀ r, (Move.act a r).posted = [] := by
    intro r
    cases a with
    | beginWrite segments peerAddr peerRkey imm => exact absurd ⟨_, _, _, _, rfl⟩ hbegin
    | _ => simp [Move.posted]
  by_cases hpump : a = .pump
  · subst hpump
    simp only [Act.run, wp_bind]
    refine wp_mono (pumpOnce_wp hwf) ?_
    intro r t hr
    have handled : ∀ {fs wc rest ok}, Handled ((s.setCq rest).setFaults fs) wc ok t →
        t.tagsOut = s.tagsOut := by
      intro fs wc rest ok hh
      rw [HordStream.tagsOut, hh.sends.1]
      rfl
    cases r with
    | ok v =>
      cases v with
      | true =>
        obtain ⟨fs, wc, rest, -, hh⟩ := hr
        exact (handled hh).trans (List.append_nil _).symm
      | false =>
        obtain ⟨-, fs, rfl⟩ := hr
        exact (List.append_nil _).symm
    | error e =>
      cases e with
      | io _ =>
        rcases hr with ⟨fs, -, rfl⟩ | ⟨fs, wc, rest, -, hh⟩
        · exact (List.append_nil _).symm
        · exact (handled hh).trans (List.append_nil _).symm
      | panic _ => exact hr.elim
  · -- messages carry no immediate
    have hsend : ∀ (u : HordStream) (fs : List Bool) (id : Nat) (mr : Mr) (off len : Nat),
        HordStream.tagsOut { u with conn := { u.conn with faults := fs
                                                          out := u.conn.out ++ [.send id mr off len] } } =
          u.tagsOut := by
      intro u fs id mr off len
      simp [HordStream.tagsOut, SendWr.imm]
    have hs : UnseenSend HordStream.tagsOut id :=
      ⟨fun _ _ => rfl, hsend, fun _ _ => rfl, fun _ _ _ => rfl, fun _ => rfl⟩
    have hw : UnseenWrite HordStream.tagsOut id := ⟨hs, fun _ _ => rfl, fun _ _ _ => rfl, fun _ _ => rfl⟩
    have hr : UnseenRead HordStream.tagsOut id :=
      ⟨⟨fun _ _ _ => rfl, fun _ => rfl⟩, fun _ _ => rfl, fun _ _ => rfl⟩
    have hd : UnseenDevice HordStream.tagsOut := fun _ _ _ _ _ => rfl
    have hunseen : a.Unseen HordStream.tagsOut id := by
      cases a with
      | tryWrite buf => exact hw
      | tryFlushStage => exact hw
      | tryRead n => exact ⟨hr, hs⟩
      | returnOwedCredits urgent => exact hs
      | pump => exact absurd rfl hpump
      | pollCmDisconnect => exact ⟨hd, fun _ => rfl⟩
      | pollCmEvent => exact ⟨hd, fun _ => rfl⟩
      | nextCompletedTransfer => exact fun _ _ => rfl
      | beginWrite => exact absurd ⟨_, _, _, _, rfl⟩ hbegin
      | _ => exact hd.link
    refine wp_mono (Act.keeps hunseen s) ?_
    intro r t hrt
    rw [hnone, List.append_nil]
    cases r with
    | ok _ => exact hrt
    | error _ => exact hrt

/-- A step of one end, as far as transfers go. -/
theorem Party.Step.tags {p q : Party} {m : Hord.Move} (h : Party.Step p m q) (hm : m.isEnv = false)
    (hok : p.Ok) (hf : q.phase ≠ .failed) (hp : p.stream.Plain) :
    p.stream.tagsIn = m.ids ++ q.stream.tagsIn ∧ q.stream.tagsOut = p.stream.tagsOut ++ m.posted := by
  -- setting up leaves the link alone
  have quiet : ∀ {t : HordStream}, t.traffic.tags = p.stream.traffic.tags →
      t.traffic.inbox = p.stream.traffic.inbox → t.traffic.outbox = p.stream.traffic.outbox →
      p.stream.tagsIn = [] ++ t.tagsIn ∧ t.tagsOut = p.stream.tagsOut ++ [] := by
    intro t h1 h2 h3
    rw [(tags_traffic t).1, (tags_traffic t).2, (tags_traffic p.stream).1, (tags_traffic p.stream).2,
      h1, h2, h3]
    simp
  unfold Party.Ok at hok
  cases h with
  | env t he => cases hm
  | hello t hph hr =>
    rw [hph] at hok
    obtain ⟨fs, ht⟩ := wp_ok (beginHandshakeSend_wp p.config hok.hs_len) hr
    obtain ⟨-, -, h3⟩ := hello_traffic _ _ _ ht
    exact quiet (by rw [h3]) (by rw [h3]) (by rw [h3])
  | wait t hph hr =>
    rw [hph] at hok
    have hlen : handshakeLen ≤ p.stream.handshake.length := by rw [hok.hs_len]; decide
    obtain ⟨⟨ls, hrun⟩, -⟩ := wp_ok (pollHandshake_wp hlen) hr
    obtain ⟨-, -, h3, -⟩ := run_hsStep_traffic hrun hp
    exact quiet (by rw [h3]) (by rw [h3]) (by rw [h3])
  | peer t peer hph hr =>
    rw [hph] at hok
    have hlen : handshakeLen ≤ p.stream.handshake.length := by rw [hok.hs_len]; decide
    obtain ⟨⟨ls, hrun⟩, -⟩ := wp_ok (pollHandshake_wp hlen) hr
    obtain ⟨-, -, h3, -⟩ := run_hsStep_traffic hrun hp
    exact quiet (by rw [h3]) (by rw [h3]) (by rw [h3])
  | apply t peer hph hr =>
    rw [hph] at hok
    obtain ⟨-, -, h3, -⟩ := applyPeer_traffic hok.1 hok.2 hr
    exact quiet (by rw [h3]) (by rw [h3]) (by rw [h3])
  | broke t e hr => exact absurd rfl hf
  | act t a v hph hr =>
    rw [hph] at hok
    exact ⟨wp_ok (a.run_tagsIn hok.1.wf) hr, wp_ok (a.run_tagsOut hok.1.wf) hr⟩
  | actErr t a e hph hr =>
    rw [hph] at hok
    exact ⟨wp_error (a.run_tagsIn hok.1.wf) hr, wp_error (a.run_tagsOut hok.1.wf) hr⟩

end Ends

/-! The pair. -/

/-- The transfer a step posts at `x`. -/
def Event.posted (x : Side) : Event → List Nat
  | .call y m => if y = x then m.posted else []
  | _ => []

/-- The request of `x` a step carries out. -/
def Event.carried (x : Side) : Event → List SendWr
  | .deliver y w => if y = x then [w] else []
  | _ => []

/-- No request of `x` is flushed. -/
def Event.Unflushed (x : Side) (d : Duo) (l : Event) : Prop := l.Tame d ∧ l ≠ .drop x

section Steps
variable {d e : Duo} {l : Event} {x : Side}

theorem Completion.imm_of_fail {wc : Completion} (h : wc.isSuccess = false) : Completion.imm wc = none := by
  simp [Completion.imm, h]

/-- What lands announces the transfer of the request. -/
theorem lands_imm {s : HordStream} {r : RecvWr} {w : SendWr} {bytes : Bytes} {wc : Completion}
    (h : s.lands r w = some (bytes, wc)) : Completion.imm wc = w.imm := by
  obtain ⟨-, -, hw⟩ := lands_eq h
  rcases hw with ⟨_, _, _, _, rfl, -, rfl⟩ | ⟨_, _, _, _, _, rfl, -, rfl⟩
  · rfl
  · rfl

/-- A completion of the send queue announces nothing. -/
theorem Completion.imm_of_sent {w : SendWr} {wc : Completion}
    (hop : wc.isSuccess = true → wc.opcode = w.opcode) : Completion.imm wc = none := by
  unfold Completion.imm
  split
  · next h =>
    have hop' := hop h.1
    rw [h.2] at hop'
    cases w <;> cases hop'
  · rfl

theorem carried_tagsOut {s : HordStream} {w : SendWr} {rest : List SendWr} (h : s.conn.out = w :: rest) :
    s.tagsOut = [w].filterMap SendWr.imm ++ (s.carried w rest).tagsOut := by
  rw [HordStream.tagsOut, h]
  exact List.filterMap_append (l := [w])

/-- A step moves ids from one place to the next. -/
theorem Duo.Step.tagged (h : Duo.Step d l e) (hd : d.Healthy) (halive : ∀ y, (e.get y).phase ≠ .failed)
    (hl : l ≠ .drop x) :
    (d.get x).stream.tagsOut ++ l.posted x =
      (l.carried x).filterMap SendWr.imm ++ (e.get x).stream.tagsOut ∧
    (d.get x.other).stream.tagsIn ++ (l.carried x).filterMap SendWr.imm =
      l.ids x.other ++ (e.get x.other).stream.tagsIn := by
  -- the device changes one end, but none of its places
  have quiet : ∀ z (t : HordStream), t.tagsIn = (d.get z).stream.tagsIn →
      (z = x → t.tagsOut = (d.get z).stream.tagsOut) →
      (d.get x).stream.tagsOut ++ [] = [] ++ ((d.set z { d.get z with stream := t }).get x).stream.tagsOut ∧
      (d.get x.other).stream.tagsIn ++ [] =
        [] ++ ((d.set z { d.get z with stream := t }).get x.other).stream.tagsIn := by
    intro z t hin hout
    simp only [List.append_nil, List.nil_append]
    rcases x.eq_or_other z with rfl | rfl
    · rw [Duo.get_set, Duo.get_set_other]
      exact ⟨(hout rfl).symm, rfl⟩
    · rw [Duo.get_set, Duo.get_set_other']
      exact ⟨rfl, hin.symm⟩
  -- one more completion, which announces nothing
  have queued : ∀ (s : HordStream) (c : Connection) (wc : Completion), Completion.imm wc = none →
      c.cq = s.conn.cq ++ [wc] → HordStream.tagsIn { s with conn := c } = s.tagsIn := by
    intro s c wc hnone hcq
    simp only [HordStream.tagsIn, hcq, List.filterMap_append, List.filterMap_cons, hnone,
      List.filterMap_nil, List.append_nil]
  cases h with
  | call z m p hp hm =>
    have halive' := halive z
    rw [Duo.get_set] at halive'
    obtain ⟨hin, hout⟩ := hp.tags hm (hd.fine z).ok halive' (hd.fine z).plain
    rcases x.eq_or_other z with rfl | rfl
    · rw [Duo.get_set, Duo.get_set_other]
      simp only [Event.posted, Event.carried, Event.ids, if_true, if_neg (Side.ne_other z)]
      exact ⟨hout.symm, List.append_nil _⟩
    · rw [Duo.get_set, Duo.get_set_other']
      simp only [Event.posted, Event.carried, Event.ids, if_true, if_neg (Side.other_ne x)]
      refine ⟨List.append_nil _, ?_⟩
      rw [← hin]
      exact List.append_nil _
  | deliver z w rest r rs bytes wc hout hrq hland hfit =>
    obtain ⟨_, _, _, _, heq, -⟩ := landed_eq (s := (d.get z.other).stream) r rs bytes wc
    rcases x.eq_or_other z with rfl | rfl
    · rw [Duo.get_set_other', Duo.get_set, Duo.get_set]
      simp only [Event.posted, Event.carried, Event.ids, if_true, List.append_nil, List.nil_append]
      constructor
      · exact carried_tagsOut hout
      · show _ = ((d.get z.other).stream.landed r rs bytes wc).tagsIn
        rw [heq]
        simp only [HordStream.tagsIn, List.filterMap_append, List.filterMap_cons, List.filterMap_nil,
          lands_imm hland, List.append_assoc]
    · rw [Side.other_other] at heq
      rw [Duo.get_set_other', Duo.get_set, Side.other_other, Duo.get_set]
      simp only [Event.posted, Event.carried, Event.ids, if_neg (Side.other_ne x), List.append_nil,
        List.nil_append, List.filterMap_nil]
      refine ⟨?_, rfl⟩
      show _ = ((d.get x).stream.landed r rs bytes wc).tagsOut
      rw [heq]
      rfl
  | deliverWrite z id sges addr rkey rest hout =>
    rcases x.eq_or_other z with rfl | rfl
    · rw [Duo.get_set, Duo.get_set_other]
      simp only [Event.posted, Event.carried, Event.ids, if_true, List.append_nil, List.nil_append]
      exact ⟨carried_tagsOut hout, List.append_nil _⟩
    · rw [Duo.get_set, Duo.get_set_other']
      simp only [Event.posted, Event.carried, Event.ids, if_neg (Side.other_ne x), List.append_nil,
        List.nil_append, List.filterMap_nil, true_and]
      rfl
  | complete z ls rs w wc ha hid hop =>
    exact quiet z _ (queued _ _ wc (Completion.imm_of_sent hop) rfl) fun _ => rfl
  | reject z ls rs r wc hr hid hbad =>
    exact quiet z _ (queued _ _ wc (Completion.imm_of_fail hbad) rfl) fun _ => rfl
  | drop z ls rs w wc ho hid hbad =>
    refine quiet z _ (queued _ _ wc (Completion.imm_of_fail hbad) rfl) fun hz => ?_
    exact absurd (by rw [hz]) hl
  | oracle z fs => exact quiet z _ rfl fun _ => rfl
  | cm z ev => exact quiet z _ rfl fun _ => rfl

/-- The send queue of an established end is a queue. -/
theorem Duo.Step.queue (h : Duo.Step d l e) (hd : d.Healthy) (hup : (d.get x).phase = .up)
    (hl : l ≠ .drop x) : (e.get x).phase = .up ∧
      ∃ ws, (d.get x).stream.conn.out ++ ws = l.carried x ++ (e.get x).stream.conn.out := by
  have hup' : (e.get x).phase = .up := by
    rcases h.party x with heq | ⟨m, hp⟩
    · rw [heq]
      exact hup
    · exact (hp.stays_up hup).1
  refine ⟨hup', ?_⟩
  -- the steps that take nothing off the queue and put nothing on it
  have quiet : ∀ z (t : HordStream), (z = x → t.conn.out = (d.get z).stream.conn.out) →
      ∃ ws, (d.get x).stream.conn.out ++ ws =
        [] ++ ((d.set z { d.get z with stream := t }).get x).stream.conn.out := by
    intro z t hout
    refine ⟨[], ?_⟩
    rw [List.append_nil, List.nil_append]
    rcases x.eq_or_other z with rfl | rfl
    · rw [Duo.get_set]
      exact (hout rfl).symm
    · rw [Duo.get_set_other']
  cases h with
  | call z m p hp hm =>
    rcases x.eq_or_other z with rfl | rfl
    · rw [Duo.get_set]
      have acts : ∀ {a : Act} {r : Except Fail Res}, Party.Step (d.get z) (.act a r) p →
          ∃ ws, (d.get z).stream.conn.out ++ ws = [] ++ p.stream.conn.out := by
        intro a r ha
        obtain ⟨-, -, hi, os, hrun⟩ := ha.reaches (hd.fine z).ok
        obtain ⟨⟨ws, hws, -⟩, -⟩ := run_posts hrun hi
        exact ⟨ws, hws.symm⟩
      cases hp with
      | env t he => cases hm
      | hello t hph hr => rw [hph] at hup; cases hup
      | wait t hph hr => rw [hph] at hup; cases hup
      | peer t k hph hr => rw [hph] at hup; cases hup
      | apply t k hph hr => rw [hph] at hup; cases hup
      | broke t er hr =>
        rw [Duo.get_set] at hup'
        cases hup'
      | act t a v hph hr => exact acts (.act _ t a v hph hr)
      | actErr t a er hph hr => exact acts (.actErr _ t a er hph hr)
    · rw [Duo.get_set_other']
      exact ⟨[], List.append_nil _⟩
  | deliver z w rest r rs bytes wc hout hrq hland hfit =>
    obtain ⟨_, _, _, _, heq, -⟩ := landed_eq (s := (d.get z.other).stream) r rs bytes wc
    rcases x.eq_or_other z with rfl | rfl
    · rw [Duo.get_set_other', Duo.get_set]
      simp only [Event.carried, if_true]
      refine ⟨[], ?_⟩
      rw [List.append_nil, hout]
      rfl
    · rw [Side.other_other] at heq
      rw [Side.other_other, Duo.get_set]
      simp only [Event.carried, if_neg (Side.other_ne x)]
      refine ⟨[], ?_⟩
      show _ = ((d.get x).stream.landed r rs bytes wc).conn.out
      rw [heq]
      exact List.append_nil _
  | deliverWrite z id sges addr rkey rest hout =>
    rcases x.eq_or_other z with rfl | rfl
    · rw [Duo.get_set]
      simp only [Event.carried, if_true]
      refine ⟨[], ?_⟩
      rw [List.append_nil, hout]
      rfl
    · rw [Duo.get_set_other']
      simp only [Event.carried, if_neg (Side.other_ne x)]
      exact ⟨[], List.append_nil _⟩
  | complete z ls rs w wc ha hid hop => exact quiet z _ fun _ => rfl
  | reject z ls rs r wc hr hid hbad => exact quiet z _ fun _ => rfl
  | drop z ls rs w wc ho hid hbad => exact quiet z _ fun hz => absurd (by rw [hz]) hl
  | oracle z fs => exact quiet z _ fun _ => rfl
  | cm z ev => exact quiet z _ fun _ => rfl

end Steps

/-! Whole runs. -/

/-- A run in which no request of `x` is flushed: ids move on, and requests leave its send
    queue in the order in which they came. -/
structure Duo.Passed (x : Side) (d : Duo) (ls : List Event) (e : Duo) : Prop where
  healthy : e.Healthy
  sent : (d.get x).stream.tagsOut ++ ls.flatMap (Event.posted x) =
    (ls.flatMap (Event.carried x)).filterMap SendWr.imm ++ (e.get x).stream.tagsOut
  announced : (d.get x.other).stream.tagsIn ++ (ls.flatMap (Event.carried x)).filterMap SendWr.imm =
    ls.flatMap (Event.ids x.other) ++ (e.get x.other).stream.tagsIn
  queue : (d.get x).phase = .up → (e.get x).phase = .up ∧ ∃ ws, (d.get x).stream.conn.out ++ ws =
    ls.flatMap (Event.carried x) ++ (e.get x).stream.conn.out

section Runs
variable {d e : Duo} {ls : List Event} {x : Side}

theorem alive_before {P : Duo → Event → Prop} (hrun : Run (fun d l e => Duo.Step d l e ∧ P d l) d ls e)
    (halive : ∀ y, (e.get y).phase ≠ .failed) : ∀ y, (d.get y).phase ≠ .failed := by
  induction hrun with
  | nil => exact halive
  | snoc _ hs ih => exact ih (hs.1.was_alive halive)

theorem Duo.Passed.nil (hd : d.Healthy) : Duo.Passed x d [] d :=
  ⟨hd, List.append_nil _, List.append_nil _, fun hup => ⟨hup, [], List.append_nil _⟩⟩

theorem Duo.Passed.step {u v : Duo} {l : Event} (hi : Duo.Passed x d ls u) (h : Duo.Step u l v)
    (hl : l.Unflushed x u) (halive : ∀ y, (v.get y).phase ≠ .failed) : Duo.Passed x d (ls ++ [l]) v := by
  obtain ⟨hout, hin⟩ := h.tagged hi.healthy halive hl.2
  have hsent := hi.sent
  have hannounced := hi.announced
  refine ⟨h.healthy hi.healthy hl.1 halive, ?_, ?_, fun hup => ?_⟩
  · simp only [List.flatMap_append, List.flatMap_singleton, List.filterMap_append]
    rw [← List.append_assoc, hsent, List.append_assoc, hout, List.append_assoc]
  · simp only [List.flatMap_append, List.flatMap_singleton, List.filterMap_append]
    rw [← List.append_assoc, hannounced, List.append_assoc, hin, List.append_assoc]
  · obtain ⟨huup, ws, hws⟩ := hi.queue hup
    obtain ⟨hvup, ws', hws'⟩ := h.queue hi.healthy huup hl.2
    refine ⟨hvup, ws ++ ws', ?_⟩
    rw [← List.append_assoc, hws, List.append_assoc, hws', List.flatMap_append, List.append_assoc]
    simp only [List.flatMap_singleton]

theorem passed_run (hd : d.Healthy) (hrun : Run (fun d l e => Duo.Step d l e ∧ l.Unflushed x d) d ls e)
    (halive : ∀ y, (e.get y).phase ≠ .failed) : Duo.Passed x d ls e := by
  refine hrun.inv_trace (I := fun ls u => (∀ y, (u.get y).phase ≠ .failed) → Duo.Passed x d ls u)
    (fun ls u l v hi hs hv => ?_) (fun _ => .nil hd) halive
  exact (hi (hs.1.was_alive hv)).step hs.1 hs.2 hv

theorem Duo.Init.untagged (h : d.Init) (y : Side) :
    (d.get y).stream.tagsIn = [] ∧ (d.get y).stream.tagsOut = [] := by
  obtain ⟨-, -, hout, hcq, -, -, -, htags, -⟩ := (h y).fine
  rw [HordStream.tagsIn, HordStream.tagsOut, hout, hcq, htags]
  exact ⟨rfl, rfl⟩

/-- A first part of a queue, without its last entry, announces at most what the rest does. -/
theorem imms_lt_last {qs ws cs : List SendWr}
    (hws : ws = [] ∨ ∃ init last, ws = init ++ [last] ∧ ∀ w ∈ init, w.imm = none)
    (hpre : cs <+: qs ++ ws) (hne : cs ≠ qs ++ ws) :
    (cs.filterMap SendWr.imm).length ≤ (qs.filterMap SendWr.imm).length := by
  rcases hws with rfl | ⟨init, last, rfl, hinit⟩
  · rw [List.append_nil] at hpre
    exact (hpre.sublist.filterMap _).length_le
  · rw [← List.append_assoc, List.prefix_concat_iff] at hpre
    rcases hpre with heq | hpre
    · exact absurd (by rw [heq, List.append_assoc]) hne
    · have hlen := (hpre.sublist.filterMap SendWr.imm).length_le
      rw [List.filterMap_append, filterMap_imm_none hinit, List.append_nil] at hlen
      exact hlen

/-- A gather write that returns has posted its requests, behind all others. -/
theorem Duo.Step.begin_out {segments : List WriteSegment} {peerAddr peerRkey : Nat} {imm : Option Nat}
    {v : Res} (h : Duo.Step d (.call x (.act (.beginWrite segments peerAddr peerRkey imm) (.ok v))) e) :
    (d.get x).phase = .up ∧ (e.get x).stream.conn.out = (d.get x).stream.conn.out ++
      writeWrs (d.get x).stream.conn.maxSendSge segments peerAddr peerRkey imm := by
  cases h with
  | call _ _ p hp hm =>
    cases hp with
    | act t _ _ hph hr =>
      rw [Duo.get_set]
      refine ⟨hph, ?_⟩
      have hbegun : wp (Act.beginWrite segments peerAddr peerRkey imm).run (d.get x).stream fun r t =>
          (∃ v, r = .ok v) → t.conn.out = (d.get x).stream.conn.out ++
            writeWrs (d.get x).stream.conn.maxSendSge segments peerAddr peerRkey imm := by
        simp only [Act.run, wp_bind]
        refine wp_mono (beginRdmaWriteGatherInner_wp segments peerAddr peerRkey imm) ?_
        intro r t hr
        cases r with
        | ok _ =>
          obtain ⟨-, -, fs, rfl⟩ := hr
          exact fun _ => congrArg Connection.out (foldl_wrote_conn _ _)
        | error _ => rintro ⟨_, hv⟩; cases hv
      exact wp_ok hbegun hr ⟨v, rfl⟩

/-- Handling an immediate touches no credit and no message, and re-posts the receive. If the
    device refuses a call, nothing is handled or the stream is closed. -/
theorem pump_immediate {s : HordStream} {wc : Completion} {rest : List Completion} (hwf : Wf s)
    (hcq : s.conn.cq = wc :: rest) (hok : wc.isSuccess = true) (hop : wc.opcode = .recvRdmaWithImm) :
    wp Act.pump.run s fun r t =>
      (t.sendCredits = s.sendCredits ∧ t.grantPending = s.grantPending ∧ t.rxReady = s.rxReady) ∧
      match r with
      | .ok _ => t.conn.rq = s.conn.rq ++ [s.geo.slotWr (slotOf wc.wrId)] ∧
          t.completedTransfers = s.completedTransfers ++ [wc.immData]
      | .error _ => t.conn.cq = s.conn.cq ∨ t.peerClosed = true := by
  have handled : ∀ {fs ok t}, Handled ((s.setCq rest).setFaults fs) wc ok t →
      ok = true ∧ t = (((s.setCq rest).setFaults fs).pushTransfer wc.immData).pushRq
        (s.geo.slotWr (slotOf wc.wrId)) ∨
      ok = false ∧ t = (((s.setCq rest).setFaults fs).pushTransfer wc.immData).close := by
    intro fs ok t hh
    cases hh with
    | imm => exact .inl ⟨rfl, rfl⟩
    | immLost => exact .inr ⟨rfl, rfl⟩
    | immFailed _ hbad => rw [hok] at hbad; cases hbad
    | write hop' => exact absurd hop hop'
    | writeFailed hop' => exact absurd hop hop'
    | failed hop' => exact absurd hop hop'
    | sent hop' => exact absurd hop hop'
    | runt hop' => exact absurd hop hop'
    | held hop' => exact absurd hop hop'
    | credit hop' => exact absurd hop hop'
    | zero hop' => exact absurd hop hop'
    | emptyLost hop' => exact absurd hop hop'
  simp only [Act.run, wp_bind]
  refine wp_mono (pumpOnce_wp hwf) ?_
  intro r t hr
  cases r with
  | ok v =>
    cases v with
    | true =>
      obtain ⟨fs, wc', rest', hcq', hh⟩ := hr
      rw [hcq] at hcq'
      cases hcq'
      rcases handled hh with ⟨-, rfl⟩ | ⟨hfalse, -⟩
      · exact ⟨⟨rfl, rfl, rfl⟩, rfl, rfl⟩
      · cases hfalse
    | false =>
      obtain ⟨hnil, -⟩ := hr
      rw [hcq] at hnil
      cases hnil
  | error e =>
    cases e with
    | io _ =>
      rcases hr with ⟨fs, -, rfl⟩ | ⟨fs, wc', rest', hcq', hh⟩
      · exact ⟨⟨rfl, rfl, rfl⟩, .inl rfl⟩
      · rw [hcq] at hcq'
        cases hcq'
        rcases handled hh with ⟨htrue, -⟩ | ⟨-, rfl⟩
        · cases htrue
        · exact ⟨⟨rfl, rfl, rfl⟩, .inr rfl⟩
    | panic _ => exact hr.elim

/-- Once the transfer that follows a gather write has been taken, all its requests have been
    carried out, and with them everything posted before. -/
theorem begin_carried {ks ms : List Event} {d₁ d₂ : Duo} {segments : List WriteSegment}
    {peerAddr peerRkey : Nat} {imm : Option Nat} {v : Res} (hbefore : Duo.Passed x d ks d₁) (hinit : d.Init)
    (h : Duo.Step d₁ (.call x (.act (.beginWrite segments peerAddr peerRkey imm) (.ok v))) d₂)
    (halive : ∀ y, (d₂.get y).phase ≠ .failed) (hafter : Duo.Passed x d₂ ms e)
    (hlt : (ks.flatMap (Event.posted x)).length <
      (ks.flatMap (Event.ids x.other)).length + (ms.flatMap (Event.ids x.other)).length) :
    (d₂.get x).stream.conn.out <+: ms.flatMap (Event.carried x) := by
  obtain ⟨hup, hout⟩ := h.begin_out
  have hup₂ := (h.queue hbefore.healthy hup nofun).1
  obtain ⟨-, ws, hws⟩ := hafter.queue hup₂
  have htags := (h.tagged (x := x) hbefore.healthy halive nofun).2
  have hsent := hbefore.sent
  have hannounced := hbefore.announced
  have htaken := hafter.announced
  rw [(hinit.untagged x).2, List.nil_append] at hsent
  rw [(hinit.untagged x.other).1, List.nil_append] at hannounced
  simp only [Event.carried, Event.ids, if_neg (Side.ne_other x), List.filterMap_nil, List.append_nil,
    List.nil_append] at htags
  by_contra hnot
  -- otherwise fewer requests have been carried out, and fewer ids announced
  have hpre : ms.flatMap (Event.carried x) <+: (d₂.get x).stream.conn.out := by
    have hcarried : ms.flatMap (Event.carried x) <+: (d₂.get x).stream.conn.out ++ ws := by
      rw [hws]
      exact List.prefix_append _ _
    exact (List.prefix_or_prefix_of_prefix hcarried (List.prefix_append _ _)).resolve_right hnot
  have hne : ms.flatMap (Event.carried x) ≠ (d₂.get x).stream.conn.out := by
    intro heq
    rw [heq] at hnot
    exact hnot List.prefix_rfl
  rw [hout] at hpre hne
  have hwrs : ∀ ws', ws' = writeWrs (d₁.get x).stream.conn.maxSendSge segments peerAddr peerRkey imm →
      ws' = [] ∨ ∃ init last, ws' = init ++ [last] ∧ ∀ w ∈ init, w.imm = none := by
    rintro ws' rfl
    by_cases hnil : writeWrs (d₁.get x).stream.conn.maxSendSge segments peerAddr peerRkey imm = []
    · exact .inl hnil
    · obtain ⟨init, last, heq, hinit, -⟩ := writeWrs_last hnil
      exact .inr ⟨init, last, heq, hinit⟩
  have hfew := imms_lt_last (hwrs _ rfl) hpre hne
  have h1 := congrArg List.length hsent
  have h2 := congrArg List.length hannounced
  have h3 := congrArg List.length htaken
  rw [← htags] at h3
  simp only [List.length_append, HordStream.tagsOut] at h1 h2 h3
  omega

end Runs

/-- Transfers complete once each, in order, after their payload, and cost no stream credit.
    In every run of the pair in which no request of `x` is flushed, whatever calls fail: the
    ids the other end has taken are the first of those `x` has posted; when an id has been
    taken, every byte of its transfer, or of a gather write before it, has been placed; and
    handling an immediate leaves the credits and the held messages alone and posts the
    receive again, unless the device refuses a call. -/
theorem transfers_in_order {x : Side} {d e : Duo} {ls : List Event} (hinit : d.Init)
    (hrun : Run (fun d l e => Duo.Step d l e ∧ l.Unflushed x d) d ls e)
    (halive : ∀ y, (e.get y).phase ≠ .failed) :
    ls.flatMap (Event.ids x.other) <+: ls.flatMap (Event.posted x) ∧
    (∀ ks ms d₁ d₂ segments peerAddr peerRkey imm v,
      ls = ks ++ .call x (.act (.beginWrite segments peerAddr peerRkey imm) (.ok v)) :: ms →
      Run (fun d l e => Duo.Step d l e ∧ l.Unflushed x d) d ks d₁ →
      Duo.Step d₁ (.call x (.act (.beginWrite segments peerAddr peerRkey imm) (.ok v))) d₂ →
      Run (fun d l e => Duo.Step d l e ∧ l.Unflushed x d) d₂ ms e →
      (ks.flatMap (Event.posted x)).length < (ls.flatMap (Event.ids x.other)).length →
      (∀ id, imm = some id →
        (ls.flatMap (Event.ids x.other))[(ks.flatMap (Event.posted x)).length]? = some id) ∧
      ∀ b ∈ placedFrom peerAddr (segments.flatMap WriteSegment.bytes),
        b ∈ (ms.flatMap (Event.carried x)).flatMap SendWr.placed) ∧
    (∀ wc rest r e', (e.get x.other).stream.conn.cq = wc :: rest → wc.isSuccess = true →
      wc.opcode = .recvRdmaWithImm → Duo.Step e (.call x.other (.act .pump r)) e' →
      ((e'.get x.other).stream.sendCredits = (e.get x.other).stream.sendCredits ∧
        (e'.get x.other).stream.grantPending = (e.get x.other).stream.grantPending ∧
        (e'.get x.other).stream.rxReady = (e.get x.other).stream.rxReady) ∧
      match r with
      | .ok _ => (e'.get x.other).stream.conn.rq = (e.get x.other).stream.conn.rq ++
            [(e.get x.other).stream.geo.slotWr (slotOf wc.wrId)] ∧
          (e'.get x.other).stream.completedTransfers =
            (e.get x.other).stream.completedTransfers ++ [wc.immData]
      | .error _ => (e'.get x.other).stream.conn.cq = (e.get x.other).stream.conn.cq ∨
          (e'.get x.other).stream.peerClosed = true) := by
  have hpass := passed_run hinit.healthy hrun halive
  have htook : ls.flatMap (Event.ids x.other) <+: ls.flatMap (Event.posted x) := by
    have hsent := hpass.sent
    have hannounced := hpass.announced
    rw [(hinit.untagged x).2, List.nil_append] at hsent
    rw [(hinit.untagged x.other).1, List.nil_append] at hannounced
    rw [hsent, hannounced, List.append_assoc]
    exact List.prefix_append _ _
  refine ⟨htook, ?_, ?_⟩
  · intro ks ms d₁ d₂ segments peerAddr peerRkey imm v hls hks hstep hms hlt
    have halive₂ := alive_before hms halive
    have halive₁ := hstep.was_alive halive₂
    have hbefore := passed_run hinit.healthy hks halive₁
    have hhealthy := hstep.healthy hbefore.healthy trivial halive₂
    have hafter := passed_run hhealthy hms halive
    -- what was announced before the write and what after it: the id comes at its place
    have hids : ls.flatMap (Event.ids x.other) =
        ks.flatMap (Event.ids x.other) ++ ms.flatMap (Event.ids x.other) := by
      rw [hls, List.flatMap_append, List.flatMap_cons]
      simp [Event.ids]
    have hcarried := begin_carried hbefore hinit hstep halive₂ hafter (by
      rw [hids, List.length_append] at hlt
      exact hlt)
    refine ⟨fun id himm => ?_, fun b hb => ?_⟩
    · have hposted : ls.flatMap (Event.posted x) =
          ks.flatMap (Event.posted x) ++ id :: ms.flatMap (Event.posted x) := by
        rw [hls, List.flatMap_append, List.flatMap_cons]
        simp [Event.posted, Move.posted, himm]
      obtain ⟨more, hmore⟩ := htook
      calc (ls.flatMap (Event.ids x.other))[(ks.flatMap (Event.posted x)).length]?
          = (ls.flatMap (Event.ids x.other) ++ more)[(ks.flatMap (Event.posted x)).length]? :=
            (List.getElem?_append_left hlt).symm
        _ = (ks.flatMap (Event.posted x) ++
              id :: ms.flatMap (Event.posted x))[(ks.flatMap (Event.posted x)).length]? := by
            rw [hmore, hposted]
        _ = some id := by simp
    · rw [← writeWrs_placed (d₁.get x).stream.conn.maxSendSge segments peerAddr peerRkey imm] at hb
      obtain ⟨w, hw, hb⟩ := List.mem_flatMap.mp hb
      refine List.mem_flatMap.mpr ⟨w, hcarried.subset ?_, hb⟩
      rw [hstep.begin_out.2]
      exact List.mem_append_right _ hw
  · intro wc rest r e' hcq hok hop hstep
    have hfine := hpass.healthy.fine x.other
    cases hstep with
    | call _ _ p hp hm =>
      rw [Duo.get_set]
      cases hp with
      | act t _ v hph hr => exact wp_ok (pump_immediate (hfine.ok.inv hph).wf hcq hok hop) hr
      | actErr t _ er hph hr => exact wp_error (pump_immediate (hfine.ok.inv hph).wf hcq hok hop) hr

/-- Two send buffers, and one transfer at a time. -/
def twoConfig : HordConfig where
  maxMessageSize := 16
  recvPoolSize := 1
  sendPoolSize := 2
  zeroCopy := true
  splitMode := true
  splitCredits := 1

theorem Event.faithful_unflushed {d : Duo} {l : Event} (h : l.faithful = true) (x : Side) :
    l.Unflushed x d := by
  cases l with
  | drop y => cases h
  | reject y => cases h
  | _ => exact ⟨trivial, nofun⟩

/-- The first of the steps is the left end's gather write, and `good` holds of the rest. -/
def startsBegin (segments : List WriteSegment) (peerAddr peerRkey : Nat) (imm : Option Nat)
    (good : List Event → Bool) : List Event → Bool
  | .call .left (.act a (.ok .unit)) :: ms => decide (a = .beginWrite segments peerAddr peerRkey imm) && good ms
  | _ => false

theorem startsBegin_cons {segments : List WriteSegment} {peerAddr peerRkey : Nat} {imm : Option Nat}
    {good : List Event → Bool} {ls : List Event}
    (h : startsBegin segments peerAddr peerRkey imm good ls = true) :
    ∃ ms, ls = .call .left (.act (.beginWrite segments peerAddr peerRkey imm) (.ok .unit)) :: ms ∧
      good ms = true := by
  unfold startsBegin at h
  split at h
  · next a ms =>
    simp only [Bool.and_eq_true, decide_eq_true_eq] at h
    obtain ⟨rfl, hgood⟩ := h
    exact ⟨ms, rfl, hgood⟩
  · cases h

/-- A transfer of two segments, each its own request: once its id is taken, all five bytes
    are in place. -/
theorem transfers_in_order_two : ∃ (d : Duo) (ls : List Event) (e : Duo) (ms : List Event), d.Init ∧
    Run (fun d l e => Duo.Step d l e ∧ l.Unflushed .left d) d ls e ∧
    (∀ y, (e.get y).phase ≠ .failed) ∧ ls.flatMap (Event.ids .right) = [7] ∧
    ls.flatMap (Event.ids .right) <+: ls.flatMap (Event.posted .left) ∧
    ∀ b ∈ placedFrom 1000 ([⟨100, 5, 3⟩, ⟨200, 5, 2⟩].flatMap WriteSegment.bytes),
      b ∈ (ms.flatMap (Event.carried .left)).flatMap SendWr.placed := by
  obtain ⟨d, ks, d₁, ns, e, hinit, hbefore, hafter, hgood⟩ := Duo.launch_run_then
    (fun _ l => l.faithful) (fun _ l => l.faithful) twoConfig twoConfig tinyPair
    [.act .left (.beginWrite [⟨100, 5, 3⟩, ⟨200, 5, 2⟩] 1000 9 (some 7)), .deliver .left, .deliver .left,
      .act .right .pump, .act .right .nextCompletedTransfer]
    (fun ks _ ns e => startsBegin [⟨100, 5, 3⟩, ⟨200, 5, 2⟩] 1000 9 (some 7) (fun _ => true) ns &&
      decide ((ks ++ ns).flatMap (Event.ids .right) = [7]) &&
      decide (ks.flatMap (Event.posted .left) = []) &&
      decide ((e.get .left).phase = .up ∧ (e.get .right).phase = .up)) (by decide +kernel)
  simp only [Bool.and_eq_true, decide_eq_true_eq] at hgood
  obtain ⟨⟨⟨hstart, hids⟩, hnone⟩, hleft, hright⟩ := hgood
  obtain ⟨ms, rfl, -⟩ := startsBegin_cons hstart
  have tame : ∀ {d ls e}, Run (fun d l e => Duo.Step d l e ∧ l.faithful = true) d ls e →
      Run (fun d l e => Duo.Step d l e ∧ l.Unflushed .left d) d ls e :=
    fun hr => hr.mono fun _ _ _ hs => ⟨hs.1, Event.faithful_unflushed hs.2 .left⟩
  have hrun := (tame hbefore).append (tame hafter)
  have halive : ∀ y, (e.get y).phase ≠ .failed := by
    intro y
    cases y with
    | left => rw [hleft]; nofun
    | right => rw [hright]; nofun
  obtain ⟨d₂, hstep, hms⟩ := hafter.uncons
  obtain ⟨htook, hplaced, -⟩ := transfers_in_order hinit hrun halive
  obtain ⟨-, hall⟩ := hplaced ks ms d₁ d₂ _ _ _ _ _ rfl (tame hbefore) hstep.1 (tame hms) (by
    rw [hnone, Side.other, hids]
    decide)
  exact ⟨d, _, e, ms, hinit, hrun, halive, hids, htook, hall⟩

end Hord
