import Hord.Gather
import Hord.Paths

/- What `begin_rdma_write_gather_inner` does, exactly: it is refused without
   effect, or it posts the work requests of the gather in order (`writeWrs`), or the
   device refuses one of them and the stream is closed with a strict prefix
   posted. -/
namespace Hord

open Prog Transition

/-- The immediate a request carries. -/
def SendWr.imm : SendWr → Option Nat
  | .send .. => none
  | .write _ _ _ _ imm => imm

/-- A one-sided write is on the send queue and counted. -/
def HordStream.wrote (s : HordStream) (w : SendWr) : HordStream :=
  { s with writesOutstanding := u32Add s.writesOutstanding 1
           immOutstanding := if w.imm.isSome then u32Add s.immOutstanding 1 else s.immOutstanding
           conn := { s.conn with out := s.conn.out ++ [w] } }

/-- The immediate rides the last of the `n` requests. -/
def immAt (n idx : Nat) (imm : Option Nat) : Option Nat := if idx = n - 1 then imm else none

/-- The request posted for the planned write number `idx`. -/
def plannedWr (n peerAddr peerRkey : Nat) (imm : Option Nat) (idx : Nat) (w : Planned) : SendWr :=
  .write (if (immAt n idx imm).isSome then immWriteWrId idx else writeWrId idx) w.2
    ((peerAddr + w.1) % 2 ^ 64) peerRkey (immAt n idx imm)

def plannedWrs (n peerAddr peerRkey : Nat) (imm : Option Nat) : Nat → List Planned → List SendWr
  | _, [] => []
  | idx, w :: ws =>
    plannedWr n peerAddr peerRkey imm idx w :: plannedWrs n peerAddr peerRkey imm (idx + 1) ws

/-- Every request a gather write posts; an empty one with an immediate still posts
    one. -/
def writeWrs (maxSge : Nat) (segments : List WriteSegment) (peerAddr peerRkey : Nat)
    (imm : Option Nat) : List SendWr :=
  let ws := plan segments maxSge
  if ws.isEmpty then
    if imm.isSome then [.write (immWriteWrId 0) [] peerAddr peerRkey imm] else []
  else plannedWrs ws.length peerAddr peerRkey imm 0 ws

theorem plannedWrs_length (n peerAddr peerRkey : Nat) (imm : Option Nat) (idx : Nat)
    (ws : List Planned) : (plannedWrs n peerAddr peerRkey imm idx ws).length = ws.length := by
  induction ws generalizing idx with
  | nil => rfl
  | cons w ws ih => simp [plannedWrs, ih]

theorem foldl_wrote_setFaults (ws : List SendWr) (s : HordStream) (fs : List Bool) :
    ws.foldl HordStream.wrote (s.setFaults fs) = (ws.foldl HordStream.wrote s).setFaults fs := by
  induction ws generalizing s with
  | nil => rfl
  | cons w ws ih => exact ih (s.wrote w)

/-! What the requests of a gather write are: the immediate rides the last one, and together
    they place every byte of the segments at contiguous remote addresses. -/

theorem plannedWrs_last {n peerAddr peerRkey : Nat} {imm : Option Nat} {idx : Nat} {ws : List Planned}
    (hn : idx + ws.length = n) (hne : ws ≠ []) :
    ∃ init last, plannedWrs n peerAddr peerRkey imm idx ws = init ++ [last] ∧
      (∀ w ∈ init, w.imm = none) ∧ last.imm = imm := by
  induction ws generalizing idx with
  | nil => exact absurd rfl hne
  | cons w ws ih =>
    rw [List.length_cons] at hn
    cases ws with
    | nil =>
      refine ⟨[], plannedWr n peerAddr peerRkey imm idx w, rfl, nofun, ?_⟩
      simp only [List.length_nil] at hn
      have hlast : idx = n - 1 := by omega
      simp [plannedWr, immAt, SendWr.imm, hlast]
    | cons v vs =>
      have hnext : idx + 1 + (v :: vs).length = n := by omega
      obtain ⟨init, last, heq, hinit, hlast⟩ := ih hnext (List.cons_ne_nil v vs)
      refine ⟨plannedWr n peerAddr peerRkey imm idx w :: init, last, ?_, fun u hu => ?_, hlast⟩
      · rw [plannedWrs, heq]
        rfl
      · rcases List.mem_cons.mp hu with rfl | hu
        · have hearly : ¬idx = n - 1 := by
            rw [List.length_cons] at hn
            omega
          simp [plannedWr, immAt, SendWr.imm, hearly]
        · exact hinit u hu

theorem writeWrs_last {maxSge : Nat} {segments : List WriteSegment} {peerAddr peerRkey : Nat}
    {imm : Option Nat} (hne : writeWrs maxSge segments peerAddr peerRkey imm ≠ []) :
    ∃ init last, writeWrs maxSge segments peerAddr peerRkey imm = init ++ [last] ∧
      (∀ w ∈ init, w.imm = none) ∧ last.imm = imm := by
  unfold writeWrs at hne ⊢
  generalize plan segments maxSge = ws at hne ⊢
  cases ws with
  | nil =>
    cases imm with
    | none => exact absurd rfl hne
    | some id => exact ⟨[], .write (immWriteWrId 0) [] peerAddr peerRkey (some id), rfl, nofun, rfl⟩
  | cons w ws => exact plannedWrs_last (Nat.zero_add _) (List.cons_ne_nil w ws)

/-- An immediate is always posted. -/
theorem writeWrs_ne_nil (maxSge : Nat) (segments : List WriteSegment) (peerAddr peerRkey id : Nat) :
    writeWrs maxSge segments peerAddr peerRkey (some id) ≠ [] := by
  unfold writeWrs
  cases plan segments maxSge with
  | nil => exact List.cons_ne_nil _ _
  | cons w ws => exact List.cons_ne_nil _ _

/-- The bytes `bs` at the addresses from `addr` on, which wrap as `u64`. -/
def placedFrom (addr : Nat) (bs : List (Nat × Nat)) : List (Nat × Nat × Nat) :=
  bs.zipIdx.map fun b => ((addr + b.2) % 2 ^ 64, b.1)

/-- What a request places at the other end: each address with the source of its byte. -/
def SendWr.placed : SendWr → List (Nat × Nat × Nat)
  | .send .. => []
  | .write _ sges addr _ _ => placedFrom addr (sgesBytes sges)

theorem placedFrom_append (addr : Nat) (bs cs : List (Nat × Nat)) :
    placedFrom addr (bs ++ cs) = placedFrom addr bs ++ placedFrom (addr + bs.length) cs := by
  simp only [placedFrom, List.zipIdx_append, List.map_append, Nat.zero_add]
  congr 1
  rw [List.zipIdx_eq_map_add, List.map_map]
  apply List.map_congr_left
  intro b _
  simp [Nat.add_assoc]

theorem placedFrom_mod (addr : Nat) (bs : List (Nat × Nat)) :
    placedFrom (addr % 2 ^ 64) bs = placedFrom addr bs := by
  apply List.map_congr_left
  intro b _
  rw [Nat.mod_add_mod]

theorem plannedWrs_placed {maxSge off stop : Nat} {ws : List Planned} (h : PlanOk maxSge off ws stop)
    (n peerAddr peerRkey : Nat) (imm : Option Nat) (idx : Nat) :
    (plannedWrs n peerAddr peerRkey imm idx ws).flatMap SendWr.placed =
      placedFrom (peerAddr + off) (ws.flatMap fun w => sgesBytes w.2) := by
  induction h generalizing idx with
  | nil => rfl
  | cons hok hne hrest ih =>
    rw [plannedWrs, List.flatMap_cons, List.flatMap_cons, placedFrom_append, ih, sgesBytes_length,
      Nat.add_assoc]
    congr 1
    exact placedFrom_mod _ _

theorem writeWrs_placed (maxSge : Nat) (segments : List WriteSegment) (peerAddr peerRkey : Nat)
    (imm : Option Nat) : (writeWrs maxSge segments peerAddr peerRkey imm).flatMap SendWr.placed =
      placedFrom peerAddr (segments.flatMap WriteSegment.bytes) := by
  obtain ⟨⟨stop, hok⟩, hbytes⟩ := plan_spec segments maxSge
  rw [← hbytes]
  unfold writeWrs
  generalize plan segments maxSge = ws at hok
  cases ws with
  | nil => cases imm <;> rfl
  | cons w ws => exact plannedWrs_placed hok _ peerAddr peerRkey imm 0

/-- The requests the packer plans can be posted. -/
theorem PlanOk.postable {maxSge off stop : Nat} {ws : List Planned} (h : PlanOk maxSge off ws stop)
    (hm : maxSge ≤ maxWriteSge) : ∀ w ∈ ws, w.2.length ≤ maxWriteSge ∧ w.2 ≠ [] := by
  induction h with
  | nil => simp
  | cons hok hne _ ih =>
    intro w hw
    rcases List.mem_cons.mp hw with rfl | hw
    · exact ⟨Nat.le_trans hok.count hm, hne⟩
    · exact ih w hw

theorem plan_postable (segments : List WriteSegment) (maxSge : Nat) :
    ∀ w ∈ plan segments maxSge, w.2.length ≤ maxWriteSge ∧ w.2 ≠ [] := by
  obtain ⟨⟨stop, h⟩, -⟩ := plan_spec segments maxSge
  exact h.postable (clampSge_le maxSge)

theorem postWriteGather_wp {c : Connection} {wrId : Nat} {sges : List Sge} {addr rkey : Nat}
    {imm : Option Nat} (hlen : sges.length ≤ maxWriteSge) (hsome : sges ≠ [] ∨ imm.isSome = true)
    {Q : Except Fail Unit → Connection → Prop}
    (hok : ∀ fs, c.sqUsed < sqLimit →
      Q (.ok ()) { c with faults := fs, out := c.out ++ [.write wrId sges addr rkey imm] })
    (herr : ∀ fs m, Q (.error (.other m)) { c with faults := fs }) :
    wp (Connection.postWriteGather wrId sges addr rkey imm) c Q := by
  unfold Connection.postWriteGather
  rw [if_neg (Nat.not_lt.mpr hlen), if_neg]
  · exact postSend_wp hok herr
  · rcases hsome with h | h
    · simp [h]
    · cases imm with
      | none => cases h
      | some id => simp

section Posting
variable {s : HordStream}

/-- Posting one planned request is one elementary change. -/
theorem clean_wrote (hopen : s.peerClosed = false) {idx : Nat} (hidx : idx < s.geo.sendPool)
    (hroom : s.conn.sqUsed < sqLimit) (sges : List Sge) (addr rkey : Nat) (imm : Option Nat)
    (fs : List Bool) :
    Clean s ((s.wrote (.write (if imm.isSome then immWriteWrId idx else writeWrId idx) sges addr rkey
      imm)).setFaults fs) [] [] [] :=
  (Clean.tick s fs).after (.silent (.write (s.setFaults fs) idx sges addr rkey imm hidx hopen hroom))

/-- The outcome of posting the requests `ws`: all of them, or a strict prefix
    before the device refused one. -/
def Wrote (s : HordStream) (ws : List SendWr) (r : Except Fail Unit) (t : HordStream) : Prop :=
  match r with
  | .ok () => ∃ fs, t = (ws.foldl HordStream.wrote s).setFaults fs
  | .error (.io e) => e.kind = .other ∧
      ∃ k < ws.length, ∃ fs, t = ((ws.take k).foldl HordStream.wrote s).setFaults fs
  | .error (.panic _) => False

theorem postWrite_wp {n peerAddr peerRkey : Nat} {imm : Option Nat} {idx : Nat} {w : Planned}
    (hw : w.2.length ≤ maxWriteSge ∧ w.2 ≠ []) (hopen : s.peerClosed = false)
    (hidx : idx < s.geo.sendPool) :
    wp (postWrite n peerAddr peerRkey imm w.1 w.2 idx) s fun r t =>
      Clean s t [] [] [] ∧
      match r with
      | .ok (_, i) => i = idx + 1 ∧
          ∃ fs, t = (s.wrote (plannedWr n peerAddr peerRkey imm idx w)).setFaults fs
      | .error (.io e) => e.kind = .other ∧ ∃ fs, t = s.setFaults fs
      | .error (.panic _) => False := by
  have hdef : (if idx = n - 1 then imm else none) = immAt n idx imm := rfl
  simp only [postWrite, plannedWr, hdef, wp_bind, dev_wp]
  refine postWriteGather_wp hw.1 (.inl hw.2) (fun fs hroom => ?_) (fun fs m => ?_)
  · have hstep := clean_wrote hopen hidx hroom w.2 ((peerAddr + w.1) % 2 ^ 64) peerRkey
      (immAt n idx imm) fs
    generalize immAt n idx imm = here at hstep ⊢
    cases here with
    | none => exact ⟨hstep, rfl, fs, rfl⟩
    | some id => exact ⟨hstep, rfl, fs, rfl⟩
  · exact ⟨.tick s fs, rfl, fs, rfl⟩

/-- Posting a plan from index `idx` on. -/
theorem emitAll_postWrite_wp (n peerAddr peerRkey : Nat) (imm : Option Nat) (ws : List Planned)
    (idx : Nat) (hws : ∀ w ∈ ws, w.2.length ≤ maxWriteSge ∧ w.2 ≠ []) (hopen : s.peerClosed = false)
    (hidx : idx + ws.length ≤ s.geo.sendPool) :
    wp (emitAll (postWrite n peerAddr peerRkey imm) ws idx) s fun r t =>
      Clean s t [] [] [] ∧ Wrote s (plannedWrs n peerAddr peerRkey imm idx ws) (r.map fun _ => ()) t := by
  induction ws generalizing s idx with
  | nil => exact ⟨.refl s, s.conn.faults, rfl⟩
  | cons w ws ih =>
    have hlen : idx + 1 + ws.length ≤ s.geo.sendPool := by
      rw [List.length_cons] at hidx
      omega
    show wp (postWrite n peerAddr peerRkey imm w.1 w.2 idx >>= fun p =>
      emitAll (postWrite n peerAddr peerRkey imm) ws p.2) s _
    rw [wp_bind]
    refine wp_mono (postWrite_wp (hws w (List.mem_cons_self ..)) hopen (by omega)) ?_
    intro r t hr
    obtain ⟨hc, hr⟩ := hr
    match r with
    | .ok (_, i) =>
      obtain ⟨rfl, fs, rfl⟩ := hr
      refine wp_mono (ih (s := (s.wrote (plannedWr n peerAddr peerRkey imm idx w)).setFaults fs)
        (idx + 1) (fun v hv => hws v (List.mem_cons_of_mem _ hv)) hopen hlen) ?_
      intro r u hr
      obtain ⟨hcu, hr⟩ := hr
      refine ⟨hc.after hcu, ?_⟩
      match r with
      | .ok _ =>
        obtain ⟨gs, rfl⟩ := hr
        refine ⟨gs, ?_⟩
        rw [foldl_wrote_setFaults]
        rfl
      | .error (.io e) =>
        obtain ⟨he, k, hk, gs, rfl⟩ := hr
        refine ⟨he, k + 1, Nat.succ_lt_succ hk, gs, ?_⟩
        rw [foldl_wrote_setFaults]
        rfl
      | .error (.panic _) => exact hr
    | .error (.io e) =>
      obtain ⟨he, fs, rfl⟩ := hr
      exact ⟨hc, he, 0, Nat.succ_pos _, fs, rfl⟩
    | .error (.panic _) => exact hr.elim

/-- Why a gather write is refused before anything is posted. -/
inductive Refused (s : HordStream) (ws : List SendWr) (imm : Option Nat) : ErrorKind → Prop
  | closed (h : s.peerClosed = true) : Refused s ws imm .brokenPipe
  | tooMany (hopen : s.peerClosed = false) (h : s.geo.sendPool < ws.length) :
      Refused s ws imm .invalidInput
  | full (hopen : s.peerClosed = false) (hpool : ws.length ≤ s.geo.sendPool)
      (h : s.sendFree.length - s.writesOutstanding < ws.length ∨
        imm.isSome = true ∧ s.peerSplitCredits ≤ s.immOutstanding) :
      Refused s ws imm .wouldBlock

/-- The requests fit the free part of the send queue and the peer's window. -/
structure Admitted (s : HordStream) (ws : List SendWr) (imm : Option Nat) : Prop where
  opened : s.peerClosed = false
  pool : ws.length ≤ s.geo.sendPool
  slots : ws.length ≤ s.sendFree.length - s.writesOutstanding
  window : imm.isSome = true → s.immOutstanding < s.peerSplitCredits

theorem foldl_wrote_conn (ws : List SendWr) (s : HordStream) :
    (ws.foldl HordStream.wrote s).conn = { s.conn with out := s.conn.out ++ ws } := by
  induction ws generalizing s with
  | nil => simp
  | cons w ws ih =>
    rw [List.foldl_cons, ih]
    simp [HordStream.wrote]

/-- What a gather write leaves: nothing on refusal, every request once admitted,
    or a strict prefix and a closed stream. -/
def Begun (s : HordStream) (ws : List SendWr) (imm : Option Nat) (r : Except Fail Unit)
    (t : HordStream) : Prop :=
  match r with
  | .ok () => (ws = [] ∧ imm = none ∧ t = s ∨ Admitted s ws imm) ∧
      ∃ fs, t = (ws.foldl HordStream.wrote s).setFaults fs
  | .error (.io e) => (Refused s ws imm e.kind ∧ t = s) ∨
      (e.kind = .other ∧ Admitted s ws imm ∧
        ∃ k < ws.length, ∃ fs, t = (((ws.take k).foldl HordStream.wrote s).setFaults fs).close)
  | .error (.panic _) => False

theorem checkWriteCapacity_wp (ws : List SendWr) (imm : Option Nat) (hopen : s.peerClosed = false) :
    wp (checkWriteCapacity ws.length imm.isSome) s fun r t => t = s ∧
      match r with
      | .ok () => Admitted s ws imm
      | .error (.io e) => Refused s ws imm e.kind
      | .error (.panic _) => False := by
  simp only [checkWriteCapacity, wp_bind, wp_get, wp_ite, ioErr, wp_throw, wp_pure]
  split
  · next h => exact ⟨trivial, .tooMany hopen h⟩
  · next hpool =>
    have hpool' : ws.length ≤ s.geo.sendPool := Nat.le_of_not_lt hpool
    split
    · next h => exact ⟨trivial, .full hopen hpool' (.inl h)⟩
    · next hslots =>
      split
      · next h =>
        simp only [Bool.and_eq_true, decide_eq_true_eq] at h
        exact ⟨trivial, .full hopen hpool' (.inr h)⟩
      · next h =>
        simp only [Bool.and_eq_true, decide_eq_true_eq, not_and, Nat.not_le] at h
        exact ⟨trivial, hopen, hpool', Nat.le_of_not_lt hslots, h⟩

/-- Planning without posting counts the requests. -/
theorem planGather_count (segments : List WriteSegment) (maxSge : Nat) :
    planGather segments maxSge (fun _ _ => (pure () : M Unit)) = pure (plan segments maxSge).length := by
  have hnop : ∀ ws : List Planned, emitAll (fun _ _ => (pure () : M Unit)) ws = pure () := by
    intro ws
    induction ws with
    | nil => rfl
    | cons w ws ih => simp [emitAll, ih]
  rw [planGather_eq, hnop]
  rfl

theorem beginRdmaWriteGatherInner_wp (segments : List WriteSegment) (peerAddr peerRkey : Nat)
    (imm : Option Nat) :
    wp (beginRdmaWriteGatherInner segments peerAddr peerRkey imm) s fun r t =>
      Clean s t [] [] [] ∧
      Begun s (writeWrs s.conn.maxSendSge segments peerAddr peerRkey imm) imm r t := by
  simp only [beginRdmaWriteGatherInner, wp_bind, wp_get, wp_ite]
  split
  · next hclosed => exact ⟨.refl s, .inl ⟨.closed hclosed, rfl⟩⟩
  · next hopen =>
    have hopen' : s.peerClosed = false := by simpa using hopen
    rw [planGather_count]
    simp only [wp_pure, wp_bind, attempt_wp]
    have hpost := plan_postable segments s.conn.maxSendSge
    unfold writeWrs
    rw [planGather_eq]
    generalize plan segments s.conn.maxSendSge = ws at hpost ⊢
    cases ws with
    | nil =>
      cases imm with
      | none => exact ⟨.refl s, .inl ⟨rfl, rfl, rfl⟩, s.conn.faults, rfl⟩
      | some id =>
        simp only [List.length_nil, Option.isSome_some, and_self, if_true, Nat.one_ne_zero, if_false,
          List.isEmpty_nil]
        refine wp_mono (checkWriteCapacity_wp [.write (immWriteWrId 0) [] peerAddr peerRkey (some id)]
          (some id) hopen') ?_
        intro r t hr
        obtain ⟨rfl, hr⟩ := hr
        cases r with
        | ok _ =>
          have hidx : 0 < t.geo.sendPool := hr.pool
          simp only [dev_wp]
          refine postWriteGather_wp (Nat.zero_le _) (.inr rfl) (fun fs hroom => ?_) (fun fs m => ?_)
          · simp only [wp_modify]
            exact ⟨clean_wrote hopen' hidx hroom [] peerAddr peerRkey (some id) fs, .inr hr, fs, rfl⟩
          · simp only [markClosed, wp_modify, wp_throw]
            exact ⟨(Clean.tick t fs).after (.silent (.close _)), .inr ⟨rfl, hr, 0, Nat.one_pos, fs, rfl⟩⟩
        | error e =>
          cases e with
          | io e => exact ⟨.refl t, .inl ⟨hr, rfl⟩⟩
          | panic _ => exact hr.elim
    | cons w ws =>
      have hlen := plannedWrs_length (w :: ws).length peerAddr peerRkey imm 0 (w :: ws)
      have hne : (w :: ws).length ≠ 0 := Nat.succ_ne_zero _
      simp only [hne, false_and, if_false, List.isEmpty_cons, Bool.false_eq_true]
      have hcap := checkWriteCapacity_wp (plannedWrs (w :: ws).length peerAddr peerRkey imm 0 (w :: ws))
        imm hopen'
      rw [hlen] at hcap
      refine wp_mono hcap ?_
      intro r t hr
      obtain ⟨rfl, hr⟩ := hr
      cases r with
      | ok _ =>
        have hidx : 0 + (w :: ws).length ≤ t.geo.sendPool := by
          have := hr.pool
          rw [hlen] at this
          omega
        have hpath := emitAll_postWrite_wp (w :: ws).length peerAddr peerRkey imm (w :: ws) 0 hpost
          hopen' hidx
        show wp (Prod.fst <$> (emitAll (postWrite (w :: ws).length peerAddr peerRkey imm) (w :: ws) 0 >>=
          fun p => pure ((w :: ws).length, p.2)) : M Nat) t _
        rw [wp_map, wp_bind]
        refine wp_mono hpath ?_
        intro r u hr'
        obtain ⟨hc, hw⟩ := hr'
        cases r with
        | ok _ => exact ⟨hc, .inr hr, hw⟩
        | error e =>
          cases e with
          | io e =>
            obtain ⟨he, k, hk, fs, rfl⟩ := hw
            simp only [Except.map, markClosed, wp_modify, wp_throw]
            exact ⟨hc.after (.silent (.close _)), .inr ⟨he, hr, k, hk, fs, rfl⟩⟩
          | panic _ => exact hw.elim
      | error e =>
        cases e with
        | io e => exact ⟨.refl t, .inl ⟨hr, rfl⟩⟩
        | panic _ => exact hr.elim

end Posting

end Hord
