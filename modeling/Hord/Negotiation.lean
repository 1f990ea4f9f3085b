import Hord.Bringup

/- Do the two ends agree? Each side derives its limits and modes from its own
   configuration and the peer's wire form. `applied_eq` reads the result off as a
   function of the two configurations; `negotiation_agrees_iff` says exactly for
   which pairs the two results match. The casts in `my_handshake` lose information
   for a message size of `2 ^ 32` or more and a pool of `2 ^ 16` or more, and a side
   that offers split mode with an empty window still accepts the peer's. -/
namespace Hord

open Region Prog

namespace HordConfig

/-- The transfer window advertised by a side that offers split mode. -/
def splitWindow (config : HordConfig) : Nat := min config.splitCredits u16Max

/-- Whether the handshake offers split mode. -/
def offersSplit (config : HordConfig) : Bool :=
  config.splitMode && config.zeroCopy && decide (0 < config.splitCredits)

end HordConfig

section Advertised
variable (config : HordConfig)

theorem saturated_toNat (n : Nat) :
    (if n ≤ u16Max then UInt16.ofNat n else UInt16.ofNat u16Max).toNat = min n u16Max := by
  split
  · next h =>
    rw [UInt16.toNat_ofNat', Nat.mod_eq_of_lt (by unfold u16Max at h; omega)]
    omega
  · next h =>
    rw [UInt16.toNat_ofNat', Nat.mod_eq_of_lt (by decide)]
    omega

theorem window_pos_iff (n : Nat) : 0 < min n u16Max ↔ 0 < n := by
  unfold u16Max
  omega

/-- What `my_handshake` puts on the wire. -/
theorem myHandshake_fields :
    (myHandshake config).version = version ∧
    (myHandshake config).maxMessageSize.toNat = config.maxMessageSize % 2 ^ 32 ∧
    (myHandshake config).maxRecvBuffers.toNat = config.recvPoolSize % 2 ^ 16 ∧
    (myHandshake config).zeroCopyCapable = config.zeroCopy ∧
    (myHandshake config).splitModeCapable = config.offersSplit ∧
    (myHandshake config).splitCredits.toNat =
      if config.offersSplit then config.splitWindow else 0 := by
  have hsat := saturated_toNat config.splitCredits
  have hoff : (config.splitMode && config.zeroCopy && decide (0 <
      (if config.splitCredits ≤ u16Max then UInt16.ofNat config.splitCredits
        else UInt16.ofNat u16Max).toNat)) = config.offersSplit := by
    simp only [hsat, window_pos_iff, HordConfig.offersSplit]
  unfold myHandshake
  simp only [hoff]
  refine ⟨rfl, UInt32.toNat_ofNat', UInt16.toNat_ofNat', ?_, ?_, ?_⟩
  · simp only [Handshake.zeroCopyCapable, Handshake.withSplitCredits, Handshake.withSplitMode,
      Handshake.withZeroCopy, Handshake.new]
    cases config.zeroCopy <;> cases config.offersSplit <;> decide
  · simp only [Handshake.splitModeCapable, Handshake.withSplitCredits, Handshake.withSplitMode,
      Handshake.withZeroCopy, Handshake.new]
    cases config.zeroCopy <;> cases config.offersSplit <;> decide
  · cases config.offersSplit
    · rfl
    · exact hsat

end Advertised

/-- Posted receives that belong to the split headroom. -/
def HordStream.splitPosted (s : HordStream) : Nat := s.conn.rq.countP fun w => w.mr == .splitRecv

/-- The two ends as the negotiation is meant to leave them. -/
structure Agreement (cA cB : HordConfig) (a b : HordStream) : Prop where
  capA : a.payloadCap = min cA.maxMessageSize cB.maxMessageSize - envelopeLen
  capB : b.payloadCap = min cA.maxMessageSize cB.maxMessageSize - envelopeLen
  zeroCopy : a.zeroCopy = b.zeroCopy
  splitMode : a.splitMode = b.splitMode
  creditsA : a.sendCredits = cB.recvPoolSize
  creditsB : b.sendCredits = cA.recvPoolSize
  windowA : a.splitMode = true → 1 ≤ a.peerSplitCredits ∧ a.peerSplitCredits ≤ b.splitPosted
  windowB : b.splitMode = true → 1 ≤ b.peerSplitCredits ∧ b.peerSplitCredits ≤ a.splitPosted

/-- The pairs of configurations the wire form can express and both rules treat
    alike. -/
structure Agreeable (cA cB : HordConfig) : Prop where
  sizeA : cA.maxMessageSize < 2 ^ 32 ∨ cB.maxMessageSize ≤ cA.maxMessageSize % 2 ^ 32
  sizeB : cB.maxMessageSize < 2 ^ 32 ∨ cA.maxMessageSize ≤ cB.maxMessageSize % 2 ^ 32
  poolA : cA.recvPoolSize < 2 ^ 16
  poolB : cB.recvPoolSize < 2 ^ 16
  windows : cA.zeroCopy = true → cB.zeroCopy = true → cA.splitMode = true → cB.splitMode = true →
    (0 < cA.splitCredits ↔ 0 < cB.splitCredits)

/-- One end of a connection: built from `config`, then given the peer's
    handshake bytes. -/
def establish (conn : Connection) (config : HordConfig) (bytes : Bytes) : Except Fail HordStream :=
  match newCommon conn config with
  | .error e => .error e
  | .ok s =>
    match Handshake.decode bytes with
    | .error e => .error (.io e)
    | .ok peer =>
      match applyPeer peer s with
      | .ok _ t => .ok t
      | .error e _ => .error e

theorem establish_ok {conn : Connection} {config : HordConfig} {bytes : Bytes} {t : HordStream}
    (h : establish conn config bytes = .ok t) :
    ∃ s peer, newCommon conn config = .ok s ∧ Handshake.decode bytes = .ok peer ∧
      applyPeer peer s = .ok () t := by
  unfold establish at h
  split at h
  · cases h
  · next s hs =>
    split at h
    · cases h
    · next peer hp =>
      split at h
      · next u hu =>
        cases h
        exact ⟨s, peer, hs, hp, hu⟩
      · cases h

/-- Split mode as the side configured with `own` computes it. -/
def splitResult (own peer : HordConfig) : Bool :=
  own.splitMode && (own.zeroCopy && peer.zeroCopy) && peer.offersSplit

theorem slotWr_split (g : Geometry) (slot : Nat) :
    ((g.slotWr slot).mr == .splitRecv) = decide (g.splitBase ≤ slot) := by
  unfold Geometry.slotWr Geometry.place
  by_cases h : slot < g.splitBase
  · rw [if_pos h, decide_eq_false (Nat.not_le.mpr h)]
    rfl
  · rw [if_neg h, decide_eq_true (Nat.le_of_not_lt h)]
    rfl

theorem countP_split_range' (g : Geometry) (n : Nat) :
    ((List.range' g.splitBase n).map g.slotWr).countP (fun w => w.mr == .splitRecv) = n := by
  rw [List.countP_map, List.countP_eq_length.mpr]
  · exact List.length_range'
  · intro slot hslot
    simp only [Function.comp_apply, slotWr_split, decide_eq_true_eq]
    exact (List.mem_range'_1.mp hslot).1

theorem ofConfig_ok {config : HordConfig} {geo : Geometry} (h : Geometry.ofConfig config = .ok geo) :
    geo.msgSize = config.maxMessageSize ∧ geo.recvPool = config.recvPoolSize ∧
    geo.splitHeadroom = splitSlack config ∧ geo.sendPool = config.sendPoolSize := by
  unfold Geometry.ofConfig at h
  split at h
  · split at h
    · split at h
      · cases h
        exact ⟨rfl, rfl, rfl, rfl⟩
      · cases h
    · cases h
  · cases h

/-- What one end computes, as a function of the two configurations. -/
theorem applied_eq {conn : Connection} {own peer : HordConfig} {t : HordStream}
    (h : establish conn own (myHandshake peer).encode = .ok t) :
    envelopeLen < min own.maxMessageSize (peer.maxMessageSize % 2 ^ 32) ∧
    t.payloadCap = min own.maxMessageSize (peer.maxMessageSize % 2 ^ 32) - envelopeLen ∧
    t.sendCredits = peer.recvPoolSize % 2 ^ 16 ∧
    t.zeroCopy = (own.zeroCopy && peer.zeroCopy) ∧
    t.splitMode = splitResult own peer ∧
    t.peerSplitCredits = (if peer.offersSplit then peer.splitWindow else 0) ∧
    (t.splitMode = true → own.splitCredits ≤ t.splitPosted) := by
  obtain ⟨s, hs, hnew, hdec, happ⟩ := establish_ok h
  obtain ⟨hver, hmax, hrecv, hzc, hsm, hsc⟩ := myHandshake_fields peer
  rw [Handshake.decode_encode _ hver] at hdec
  cases hdec
  obtain ⟨geo, fs, hgeo, rfl⟩ := newCommon_ok hnew
  obtain ⟨hmsg, -, hhead, -⟩ := ofConfig_ok hgeo
  obtain ⟨heff, -, watch, gs, rfl⟩ := wp_ok (applyPeer_wp _ _) happ
  have hsplit : negotiateSplit own.splitMode (own.zeroCopy && (myHandshake peer).zeroCopyCapable)
      (myHandshake peer) = splitResult own peer := by
    simp only [negotiateSplit, splitResult, hzc, hsm, hsc]
    cases ho : peer.offersSplit with
    | false => simp
    | true =>
      have hpos : 0 < peer.splitCredits := by
        simp only [HordConfig.offersSplit, Bool.and_eq_true, decide_eq_true_eq] at ho
        exact ho.2
      simp [HordConfig.splitWindow, (window_pos_iff peer.splitCredits).mpr hpos]
  have hcap : (HordStream.fresh conn geo own fs).effective (myHandshake peer) =
      min own.maxMessageSize (peer.maxMessageSize % 2 ^ 32) := by
    unfold HordStream.effective
    rw [hmax, ← hmsg]
    rfl
  rw [hcap] at heff
  -- the split branch changes only the receive queue and the split region
  have hfields : ∀ (c : Prop) [Decidable c] (u : HordStream),
      (if c then u.withSplit else u).payloadCap = u.payloadCap ∧
      (if c then u.withSplit else u).sendCredits = u.sendCredits ∧
      (if c then u.withSplit else u).zeroCopy = u.zeroCopy ∧
      (if c then u.withSplit else u).splitMode = u.splitMode ∧
      (if c then u.withSplit else u).peerSplitCredits = u.peerSplitCredits := by
    intro c _ u
    split <;> exact ⟨rfl, rfl, rfl, rfl, rfl⟩
  obtain ⟨f1, f2, f3, f4, f5⟩ := hfields
    (((HordStream.fresh conn geo own fs).agreed (myHandshake peer)).splitMode &&
      decide (0 < ((HordStream.fresh conn geo own fs).agreed (myHandshake peer)).geo.splitHeadroom))
    ((HordStream.fresh conn geo own fs).agreed (myHandshake peer))
  refine ⟨heff, ?_, ?_, ?_, ?_, ?_, ?_⟩
  · rw [← hcap]
    exact f1
  · exact f2.trans hrecv
  · exact f3.trans (by rw [← hzc]; rfl)
  · exact f4.trans hsplit
  · exact f5.trans hsc
  · intro hmode
    have hagree : ((HordStream.fresh conn geo own fs).agreed (myHandshake peer)).splitMode = true :=
      f4.symm.trans hmode
    have hown : own.splitMode = true := by
      have h := hsplit.symm.trans hagree
      simp only [splitResult, Bool.and_eq_true] at h
      exact h.1.1
    have hh : geo.splitHeadroom = own.splitCredits := by rw [hhead, splitSlack, if_pos hown]
    by_cases hpos : 0 < geo.splitHeadroom
    · have hcond : (((HordStream.fresh conn geo own fs).agreed (myHandshake peer)).splitMode &&
          decide (0 < ((HordStream.fresh conn geo own fs).agreed
            (myHandshake peer)).geo.splitHeadroom)) = true := by
        rw [hagree, Bool.true_and]
        exact decide_eq_true hpos
      unfold HordStream.finished HordStream.splitPosted
      simp only
      rw [if_pos hcond]
      show own.splitCredits ≤ (_ ++ (List.range' geo.splitBase geo.splitHeadroom).map
        geo.slotWr).countP _
      rw [List.countP_append, countP_split_range' geo, hh]
      exact Nat.le_add_left _ _
    · omega

theorem min_mod_eq_iff (m n k : Nat) : min m (n % k) = min m n ↔ n < k ∨ k = 0 ∨ m ≤ n % k := by
  have hle := Nat.mod_le n k
  constructor
  · intro h
    by_cases hk : k = 0
    · exact .inr (.inl hk)
    · by_cases hn : n < k
      · exact .inl hn
      · have hlt := Nat.mod_lt n (Nat.pos_of_ne_zero hk)
        exact .inr (.inr (by omega))
  · rintro (h | rfl | h)
    · rw [Nat.mod_eq_of_lt h]
    · rw [Nat.mod_zero]
    · omega

/-- The two ends agree exactly on the configurations the wire form can express,
    with both transfer windows open or both shut. -/
theorem negotiation_agrees_iff {connA connB : Connection} {cA cB : HordConfig} {a b : HordStream}
    (hA : establish connA cA (myHandshake cB).encode = .ok a)
    (hB : establish connB cB (myHandshake cA).encode = .ok b) :
    Agreement cA cB a b ↔ Agreeable cA cB := by
  obtain ⟨effA, capA, credA, zcA, smA, pscA, postA⟩ := applied_eq hA
  obtain ⟨effB, capB, credB, zcB, smB, pscB, postB⟩ := applied_eq hB
  have hsize : ∀ m n : Nat, n < 2 ^ 32 ∨ (2 ^ 32 = 0) ∨ m ≤ n % 2 ^ 32 ↔ n < 2 ^ 32 ∨ m ≤ n % 2 ^ 32 := by
    intro m n
    simp
  constructor
  · intro h
    have hcapA := h.capA
    have hcapB := h.capB
    rw [capA] at hcapA
    rw [capB] at hcapB
    refine ⟨?_, ?_, ?_, ?_, ?_⟩
    · refine (hsize _ _).mp ((min_mod_eq_iff cB.maxMessageSize cA.maxMessageSize (2 ^ 32)).mp ?_)
      omega
    · refine (hsize _ _).mp ((min_mod_eq_iff cA.maxMessageSize cB.maxMessageSize (2 ^ 32)).mp ?_)
      omega
    · rw [← h.creditsB, credB]
      exact Nat.mod_lt _ (by decide)
    · rw [← h.creditsA, credA]
      exact Nat.mod_lt _ (by decide)
    · intro hzA hzB hsA hsB
      have hmode := h.splitMode
      rw [smA, smB] at hmode
      simpa [splitResult, HordConfig.offersSplit, hzA, hzB, hsA, hsB, eq_comm] using hmode
  · intro h
    have hmode : splitResult cA cB = splitResult cB cA := by
      have hw := h.windows
      unfold splitResult HordConfig.offersSplit
      cases hzA : cA.zeroCopy <;> cases hzB : cB.zeroCopy <;> cases hsA : cA.splitMode <;>
        cases hsB : cB.splitMode <;> simp
      exact (hw hzA hzB hsA hsB).symm
    have window : ∀ own peer : HordConfig, splitResult own peer = true →
        1 ≤ (if peer.offersSplit then peer.splitWindow else 0) ∧
        (if peer.offersSplit then peer.splitWindow else 0) ≤ peer.splitCredits := by
      intro own peer hr
      simp only [splitResult, Bool.and_eq_true] at hr
      have hoff := hr.2
      simp only [HordConfig.offersSplit, Bool.and_eq_true, decide_eq_true_eq] at hoff
      rw [if_pos hr.2]
      exact ⟨(window_pos_iff _).mpr hoff.2, Nat.min_le_left _ _⟩
    have cap1 := (min_mod_eq_iff cB.maxMessageSize cA.maxMessageSize (2 ^ 32)).mpr
      ((hsize _ _).mpr h.sizeA)
    have cap2 := (min_mod_eq_iff cA.maxMessageSize cB.maxMessageSize (2 ^ 32)).mpr
      ((hsize _ _).mpr h.sizeB)
    refine ⟨?_, ?_, ?_, ?_, ?_, ?_, ?_, ?_⟩
    · rw [capA, cap2]
    · rw [capB, cap1, Nat.min_comm]
    · rw [zcA, zcB, Bool.and_comm]
    · rw [smA, smB, hmode]
    · rw [credA, Nat.mod_eq_of_lt h.poolB]
    · rw [credB, Nat.mod_eq_of_lt h.poolA]
    · intro hs
      have hsB : b.splitMode = true := by rw [smB, ← hmode, ← smA]; exact hs
      have hw := window cA cB (by rw [← smA]; exact hs)
      rw [pscA]
      exact ⟨hw.1, Nat.le_trans hw.2 (postB hsB)⟩
    · intro hs
      have hsA : a.splitMode = true := by rw [smA, hmode, ← smB]; exact hs
      have hw := window cB cA (by rw [← smB]; exact hs)
      rw [pscB]
      exact ⟨hw.1, Nat.le_trans hw.2 (postA hsA)⟩

/-- A pair of small configurations that differ only in the transfer window. -/
def splitConfig (credits : Nat) : HordConfig where
  maxMessageSize := 16
  recvPoolSize := 1
  sendPoolSize := 1
  zeroCopy := true
  splitMode := true
  splitCredits := credits

theorem establish_split (own peer : Nat) (ho : own ≤ 1) (hp : peer ≤ 1) :
    ∃ t, establish (.new 1) (splitConfig own) (myHandshake (splitConfig peer)).encode = .ok t := by
  have key : ∀ i ≤ 1, ∀ j ≤ 1,
      (establish (.new 1) (splitConfig i) (myHandshake (splitConfig j)).encode).isOk = true := by
    decide +kernel
  have h := key own ho peer hp
  cases he : establish (.new 1) (splitConfig own) (myHandshake (splitConfig peer)).encode with
  | ok t => exact ⟨t, rfl⟩
  | error e => rw [he] at h; cases h

theorem negotiation_agrees_one : ∃ a,
    establish (.new 1) (splitConfig 1) (myHandshake (splitConfig 1)).encode = .ok a ∧
    (Agreement (splitConfig 1) (splitConfig 1) a a ↔ Agreeable (splitConfig 1) (splitConfig 1)) := by
  obtain ⟨a, ha⟩ := establish_split 1 1 (by decide) (by decide)
  exact ⟨a, ha, negotiation_agrees_iff ha ha⟩

/-- A side that offers split mode with an empty window accepts the peer's window
    while the peer, seeing no offer, declines. -/
theorem negotiation_disagrees : ¬∀ (connA connB : Connection) (cA cB : HordConfig) (a b : HordStream),
    envelopeLen < cA.maxMessageSize → envelopeLen < cB.maxMessageSize →
    establish connA cA (myHandshake cB).encode = .ok a →
    establish connB cB (myHandshake cA).encode = .ok b → Agreement cA cB a b := by
  intro h
  obtain ⟨a, ha⟩ := establish_split 0 1 (by decide) (by decide)
  obtain ⟨b, hb⟩ := establish_split 1 0 (by decide) (by decide)
  have hagree := (h _ _ _ _ a b (by decide) (by decide) ha hb).splitMode
  obtain ⟨-, -, -, -, smA, -⟩ := applied_eq ha
  obtain ⟨-, -, -, -, smB, -⟩ := applied_eq hb
  rw [smA, smB] at hagree
  exact absurd hagree (by decide)

end Hord
