import Hord.Paths
import Hord.Setup

/- What bringing a stream up leaves behind: one theorem per call of the setup
   path, giving the exact state a successful call ends in. The negotiation
   results, the initial state of an endpoint and the receive slots it owns are all
   read off these. -/
namespace Hord

open Region Prog

/-- Receive requests appended at once. -/
def HordStream.pushRqs (s : HordStream) (ws : List RecvWr) : HordStream :=
  { s with conn := { s.conn with rq := s.conn.rq ++ ws } }

theorem registerBuffer_wp {len : Nat} (hlen : len ≤ allocMax) {c : Connection}
    {Q : Except Fail Bytes → Connection → Prop}
    (hok : ∀ fs, Q (.ok (List.replicate len 0)) { c with faults := fs })
    (herr : ∀ fs e, Q (.error (.io e)) { c with faults := fs }) :
    wp (Connection.registerBuffer len) c Q := by
  simp only [Connection.registerBuffer, if_neg (Nat.not_lt.mpr hlen), wp_bind, wp_pure]
  exact deviceCall_wp (fun fs => hok fs) (fun fs _ => herr fs _)

theorem postRecvRange_wp (slots : List Nat) {s : HordStream} (hs : ∀ slot ∈ slots, slot < s.slotCount)
    {Q : Except Fail Unit → HordStream → Prop}
    (hok : ∀ fs, Q (.ok ()) ((s.setFaults fs).pushRqs (slots.map s.geo.slotWr)))
    (herr : ∀ e t, Q (.error (.io e)) t) :
    wp (postRecvRange slots) s Q := by
  induction slots generalizing s with
  | nil =>
    have h := hok s.conn.faults
    simpa [postRecvRange, HordStream.pushRqs, HordStream.setFaults] using h
  | cons slot rest ih =>
    simp only [postRecvRange, wp_bind]
    refine postRecvSlot_wp (hs slot (List.mem_cons_self ..)) (fun fs => ?_) (fun fs e => herr e _)
    refine ih (s := (s.setFaults fs).pushRq (s.geo.slotWr slot))
      (fun x hx => hs x (List.mem_cons_of_mem _ hx)) (fun gs => ?_)
    simpa [HordStream.pushRqs, HordStream.pushRq, HordStream.setFaults] using hok gs

/-- The receive for the peer's handshake. -/
def hsRecvWr : RecvWr := ⟨hsRecvWrId, .handshake, 0, handshakeLen⟩

/-- The stream a successful `new_common` returns. -/
def HordStream.fresh (conn : Connection) (geo : Geometry) (config : HordConfig) (fs : List Bool) :
    HordStream :=
  { HordStream.blank conn geo config with
    recv := List.replicate (geo.splitBase * geo.msgSize) 0
    send := List.replicate ((geo.sendPool + ctrlSendSlots) * geo.msgSize) 0
    handshake := List.replicate (2 * handshakeLen) 0
    conn := { conn with faults := fs
                        rq := conn.rq ++ hsRecvWr :: (List.range geo.splitBase).map geo.slotWr } }

theorem newCommon_ok {conn : Connection} {config : HordConfig} {s : HordStream}
    (h : newCommon conn config = .ok s) :
    ∃ geo fs, Geometry.ofConfig config = .ok geo ∧ s = HordStream.fresh conn geo config fs := by
  unfold newCommon at h
  cases hg : Geometry.ofConfig config with
  | error e => rw [hg] at h; cases h
  | ok geo =>
    rw [hg] at h
    have key : wp setUp (HordStream.blank conn geo config) fun r t =>
        match r with
        | .ok () => ∃ fs, t = HordStream.fresh conn geo config fs
        | .error _ => True := by
      simp only [setUp, wp_bind, wp_get, dev_wp]
      refine registerBuffer_wp geo.recv_fits (fun _ => ?_) (fun _ _ => trivial)
      refine registerBuffer_wp geo.send_fits (fun _ => ?_) (fun _ _ => trivial)
      refine registerBuffer_wp (by decide) (fun _ => ?_) (fun _ _ => trivial)
      simp only [wp_modify, postHandshakeRecv, dev_wp]
      refine postRecv_wp (fun _ => ?_) (fun _ _ => trivial)
      simp only [postAllRecvs, wp_bind, wp_get]
      refine postRecvRange_wp _ (fun slot hslot => ?_) (fun fs => ⟨fs, ?_⟩) (fun _ _ => trivial)
      · rw [List.mem_range] at hslot
        exact Nat.lt_of_lt_of_le hslot (Nat.le_add_right _ _)
      · simp [HordStream.fresh, HordStream.pushRqs, HordStream.setFaults, HordStream.blank, hsRecvWr]
    simp only at h
    split at h
    · next t hx =>
      cases h
      obtain ⟨fs, ht⟩ := wp_ok key hx
      exact ⟨geo, fs, rfl, ht⟩
    · cases h

/-! Applying the peer's handshake. -/

/-- The message size two endpoints can both handle, as this side computes it. -/
def HordStream.effective (s : HordStream) (peer : Handshake) : Nat :=
  min s.geo.msgSize peer.maxMessageSize.toNat

/-- The stream with the windows and modes of the negotiation. -/
def HordStream.agreed (s : HordStream) (peer : Handshake) : HordStream :=
  { s with payloadCap := s.effective peer - envelopeLen
           sendCredits := peer.maxRecvBuffers.toNat
           zeroCopy := s.zeroCopy && peer.zeroCopyCapable
           splitMode := negotiateSplit s.splitMode (s.zeroCopy && peer.zeroCopyCapable) peer
           peerSplitCredits := peer.splitCredits.toNat }

/-- The split headroom registered and posted. -/
def HordStream.withSplit (s : HordStream) : HordStream :=
  { s with splitRecv := some (List.replicate (s.geo.splitHeadroom * s.geo.msgSize) 0) }.pushRqs
    ((List.range' s.geo.splitBase s.geo.splitHeadroom).map s.geo.slotWr)

def HordStream.finished (s : HordStream) (peer : Handshake) (watch : Bool) (fs : List Bool) :
    HordStream :=
  let t := s.agreed peer
  let t := if t.splitMode && decide (0 < t.geo.splitHeadroom) then t.withSplit else t
  { t with cmWatch := watch, conn := { t.conn with faults := fs } }

theorem postSplitRecvs_wp {s : HordStream} {Q : Except Fail Unit → HordStream → Prop}
    (hok : ∀ fs, s.geo.splitHeadroom * s.geo.msgSize ≤ allocMax → Q (.ok ()) (s.withSplit.setFaults fs))
    (herr : ∀ e t, Q (.error e) t) : wp postSplitRecvs s Q := by
  simp only [postSplitRecvs, wp_bind, wp_get, dev_wp]
  by_cases hlen : s.geo.splitHeadroom * s.geo.msgSize ≤ allocMax
  · refine registerBuffer_wp hlen (fun fs => ?_) (fun _ _ => herr _ _)
    simp only [wp_modify]
    refine postRecvRange_wp _ (fun slot hslot => ?_) (fun fs => ?_) (fun _ _ => herr _ _)
    · simp only [List.mem_range'_1] at hslot
      exact hslot.2
    · exact hok fs hlen
  · simp only [Connection.registerBuffer, if_pos (Nat.lt_of_not_le hlen), wp_throw]
    exact herr _ _

theorem applyPeer_wp (s : HordStream) (peer : Handshake) :
    wp (applyPeer peer) s fun r t =>
      match r with
      | .ok () => envelopeLen < s.effective peer ∧
          (((s.agreed peer).splitMode && decide (0 < s.geo.splitHeadroom)) = true →
            s.geo.splitHeadroom * s.geo.msgSize ≤ allocMax) ∧
          ∃ watch fs, t = s.finished peer watch fs
      | .error _ => True := by
  simp only [applyPeer, wp_bind, wp_get, wp_ite]
  split
  · trivial
  · next heff =>
    have heff' : envelopeLen < s.effective peer := Nat.lt_of_not_le heff
    simp only [wp_modify]
    change if ((s.agreed peer).splitMode && decide (0 < s.geo.splitHeadroom)) = true then _ else _
    split
    · next hsplit =>
      have hdone : ∀ watch fs, { (s.agreed peer).withSplit with
          cmWatch := watch
          conn := { (s.agreed peer).withSplit.conn with faults := fs } } = s.finished peer watch fs := by
        intro watch fs
        unfold HordStream.finished
        simp only
        rw [if_pos (show ((s.agreed peer).splitMode && decide (0 < (s.agreed peer).geo.splitHeadroom)) =
          true from hsplit)]
      refine postSplitRecvs_wp (s := s.agreed peer) (fun fs hfit => ?_) (fun _ _ => trivial)
      simp only [attempt_wp, dev_wp]
      exact deviceCall_wp (fun gs => ⟨heff', fun _ => hfit, true, gs, hdone true gs⟩)
        (fun gs _ => ⟨heff', fun _ => hfit, false, gs, hdone false gs⟩)
    · next hsplit =>
      have hdone : ∀ watch fs, { s.agreed peer with
          cmWatch := watch
          conn := { (s.agreed peer).conn with faults := fs } } = s.finished peer watch fs := by
        intro watch fs
        unfold HordStream.finished
        simp only
        rw [if_neg (show ¬((s.agreed peer).splitMode && decide (0 < (s.agreed peer).geo.splitHeadroom)) =
          true from hsplit)]
      simp only [attempt_wp, dev_wp]
      exact deviceCall_wp (fun gs => ⟨heff', fun h => absurd h hsplit, true, gs, hdone true gs⟩)
        (fun gs _ => ⟨heff', fun h => absurd h hsplit, false, gs, hdone false gs⟩)

end Hord
