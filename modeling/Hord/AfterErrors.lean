import Hord.Blocking
import Hord.Eof
import Hord.SendQueue
import Hord.Accepting

/- What errors do to the byte stream. Local calls may fail at any point and the owner may
   go on calling after an error. As long as no read fails half way and no wait of a write
   that has taken bytes fails with the stream open, every byte that arrived is delivered
   or still there (`no_gap_or_duplicate`): a failed read consumed nothing, and a failed
   write took nothing or left a closed stream, on which every later write fails.

   Both conditions are needed (`bytes_lost_across_errors`): `try_read` takes a message off
   the queue before it re-posts its slot, and `Write::write` gives its count up when a wait
   fails. -/
namespace Hord

open Region Prog Transition CreditLink

section Calls
variable {s t : HordStream}

/-- The bytes that have arrived and have not been read. -/
def HordStream.received (s : HordStream) : Bytes := (s.traffic.held ++ bodies s.traffic.inbox).flatten

theorem Clean.link {acc cop : Bytes} {ids : List Nat} (h : Clean s t acc cop ids) (hi : Inv s)
    (hhon : s.Honest) : s.received = cop ++ t.received ∧ t.outgoing = s.outgoing ++ acc := by
  obtain ⟨os, hr, rfl, rfl, -, hloss⟩ := h
  obtain ⟨hmoves, -, -⟩ := run_traffic hr hloss.loses hi hhon
  have hin := received_run hmoves
  have hout := outgoing_run hmoves
  rw [label_reads] at hin
  rw [label_accepted] at hout
  exact ⟨hin, hout⟩

/-- A poll loses nothing, whether its handler fails or not. -/
theorem pump_clean (hwf : Wf s) : wp (Act.run .pump) s fun _ t => Clean s t [] [] [] := by
  simp only [Act.run, wp_bind]
  refine wp_mono (pumpOnce_wp hwf) ?_
  intro r t hr
  cases r with
  | ok b => exact hr.clean
  | error e => exact hr.clean

/-- What has arrived lies in the receive regions and on two queues. -/
theorem received_eq (hstore : t.store = s.store) (hready : t.rxReady = s.rxReady)
    (hcq : t.conn.cq = s.conn.cq) : t.received = s.received := by
  simp only [HordStream.store, Prod.mk.injEq] at hstore
  obtain ⟨hmsg, hin⟩ := received_congr hstore.1 hstore.2.1 hstore.2.2
  simp only [HordStream.received, HordStream.traffic, HordStream.inParcels, hready, hcq, hmsg, hin]

/-- A call that fails, other than a read, consumes none of them. -/
theorem Act.run_received_error {a : Act} (hi : Inv s) (hhon : s.Honest) (hread : ∀ n, a ≠ .tryRead n) :
    wp a.run s fun r t => match r with
      | .ok _ => True
      | .error _ => t.received = s.received := by
  by_cases hpump : a = .pump
  · subst hpump
    refine wp_mono (pump_clean hi.wf) ?_
    intro r t hc
    match r with
    | .ok _ => trivial
    | .error _ => exact (hc.link hi hhon).1.symm
  · refine wp_mono (wp_and (a.run_path hi.wf) (wp_and (Act.keeps_ready hread hpump s)
      (Act.keeps_cq hpump s))) ?_
    intro r t ⟨hpath, hready, hcq⟩
    match r with
    | .ok _ => trivial
    | .error (.panic _) => exact hpath.elim
    | .error (.io _) =>
      obtain ⟨os, hrun⟩ := hpath
      exact received_eq (run_store hrun) hready hcq

/-- A read that finds something fails only if the device refuses one of its posts. -/
theorem tryRead_granted {n : Nat} (hi : Inv s) (hg : s.Grants (.tryRead n)) :
    wp (Act.tryRead n).run s fun r _ => ∃ v, r = .ok v := by
  rw [Act.run, wp_bind]
  refine wp_mono (wp_and (tryRead_unrefused n hi.wf hg.accepting) (tryRead_path n hi.wf)) ?_
  rintro r t ⟨hun, hpath⟩
  cases r with
  | ok bs => exact ⟨_, rfl⟩
  | error e =>
    cases e with
    | io _ => exact hun.elim
    | panic _ => exact hpath.elim

/-- The device answers the next step of a wait. -/
def Wait.answered (s : HordStream) : Wait → Prop
  | .poll _ => s.conn.faults.head? ≠ some true
  | .cm => s.cmWatch = true → s.conn.faults.head? ≠ some true

/-- A wait that is answered fails only by closing the stream: an honest peer sends no
    message shorter than an envelope. -/
theorem Wait.closes {w : Wait} (hi : Inv s) (hhon : s.Honest) (hans : w.answered s) :
    wp w.act.run s fun r t => match r with
      | .ok _ => True
      | .error _ => t.peerClosed = true := by
  cases w with
  | poll spins =>
    simp only [Wait.act, Act.run, wp_bind]
    refine wp_mono (pumpOnce_wp hi.wf) ?_
    intro r t hr
    cases r with
    | ok b => trivial
    | error e =>
      cases e with
      | panic m => exact hr.elim
      | io e =>
        rcases hr with ⟨fs, hfs, -⟩ | ⟨fs, wc, rest, hcq, hh⟩
        · exact absurd (by rw [hfs]; rfl) hans
        · generalize hok : false = ok at hh
          cases hh with
          | immLost => rfl
          | emptyLost => rfl
          | runt hop hw hgood hs hn =>
            have := (honest_message hcq hhon.arrived hop hw hgood hs).1
            exact absurd hn (Nat.not_lt.mpr this)
          | _ => cases hok
  | cm =>
    simp only [Wait.act, Act.run, pollCmDisconnect, wp_bind, wp_get, wp_ite, dev_wp]
    split
    · trivial
    · next hwatch =>
      have hans' := hans (by simpa using hwatch)
      refine checkDisconnect_wp (fun _ _ => trivial) (fun fs e rest _ => ?_) (fun fs e hfs => ?_)
      · cases e.gone <;> trivial
      · exact absurd (by rw [hfs]; rfl) hans'

/-- A closed stream stays closed. -/
theorem Act.stays_closed (a : Act) (hi : Inv s) (hclosed : s.peerClosed = true) :
    wp a.run s fun _ t => t.peerClosed = true := by
  refine wp_mono (a.run_path hi.wf) ?_
  intro r t hpath
  match r with
  | .ok v => exact hpath.reaches.stays_closed hclosed
  | .error (.io _) => exact hpath.stays_closed hclosed
  | .error (.panic _) => exact hpath.elim

/-- A step of a wait changes nothing of what is on its way out. -/
theorem Wait.keeps_outgoing (w : Wait) (hi : Inv s) (hhon : s.Honest) :
    wp w.act.run s fun _ t => t.outgoing = s.outgoing := by
  have hclean : wp w.act.run s fun _ t => Clean s t [] [] [] := by
    cases w with
    | poll spins => exact pump_clean hi.wf
    | cm =>
      simp only [Wait.act, Act.run, wp_bind]
      refine wp_mono (pollCmDisconnect_path s) ?_
      intro r t hr
      cases r with
      | ok b => exact hr.1
      | error e => exact hr.1
  refine wp_mono hclean ?_
  intro r t hc
  rw [(hc.link hi hhon).2, List.append_nil]

end Calls

/-! The wire from `x` to the other end. -/

/-- The bytes `x` has posted and those that have landed; `cut` once a request of `x` was
    flushed undelivered. -/
structure Wire where
  sent : Bytes
  landed : Bytes
  cut : Bool

/-- The bytes of the messages that joined a queue. -/
def joined (old new : List (Packet UInt8)) : Bytes := ((bodies new).drop (bodies old).length).flatten

/-- The wire after a step of the pair. -/
def Wire.after (x : Side) (w : Wire) (d : Duo) (l : Event) (e : Duo) : Wire :=
  match l with
  | .call y _ =>
    if y = x then { w with sent := w.sent ++ joined (d.traffic x).outbox (e.traffic x).outbox } else w
  | .deliver y _ =>
    if y = x then
      { w with landed := w.landed ++ joined (d.traffic x.other).inbox (e.traffic x.other).inbox }
    else w
  | .drop y => if y = x then { w with cut := true } else w
  | _ => w

/-- A reliable connection carries nothing past a request it has flushed. -/
def Wire.carries (x : Side) (w : Wire) : Event → Prop
  | .deliver y _ => y = x → w.cut = false
  | _ => True

/-- With `rd` read at the other end: what landed has been read or is there, and what was
    posted has landed or, on a whole wire, is still posted. -/
structure Wire.Sound (x : Side) (w : Wire) (rd : Bytes) (d : Duo) : Prop where
  landed : w.landed = rd ++ (d.get x.other).stream.received
  posted : w.cut = false → w.sent = w.landed ++ (bodies (d.traffic x).outbox).flatten
  le : w.landed <+: w.sent

section Wires
variable {d e : Duo} {l : Event} {x : Side} {w : Wire} {rd : Bytes}

theorem joined_append (ps qs : List (Packet UInt8)) : joined ps (ps ++ qs) = (bodies qs).flatten := by
  simp [joined]

theorem Duo.received_eq (d : Duo) (x : Side) : (d.get x).stream.received =
    ((d.traffic x).held ++ bodies (d.traffic x).inbox).flatten := by
  unfold Duo.traffic Party.traffic
  split <;> rfl

/-- A step of one end alone. -/
theorem Duo.Step.of_call {m : Hord.Move} (h : Duo.Step d (.call x m) e) :
    Party.Step (d.get x) m (e.get x) ∧ (e.get x.other) = d.get x.other := by
  cases h with
  | call _ _ p hp hm =>
    rw [Duo.get_set, Duo.get_set_other]
    exact ⟨hp, rfl⟩

/-- Calls add to what is posted, whether they return or not. -/
theorem Duo.Step.posts {m : Hord.Move} (h : Duo.Step d (.call x m) e) (hd : d.Healthy)
    (halive : ∀ y, (e.get y).phase ≠ .failed) :
    ∃ ps, (e.traffic x).outbox = (d.traffic x).outbox ++ ps := by
  by_cases hres : ∃ a er, m = .act a (.error er)
  · obtain ⟨a, er, rfl⟩ := hres
    obtain ⟨hstep, -⟩ := h.of_call
    obtain ⟨-, -, hi, os, hrun⟩ := hstep.reaches (hd.fine x).ok
    obtain ⟨⟨ws, hout, hsame, -⟩, -⟩ := run_posts hrun hi
    refine ⟨(ws.filterMap (e.get x).stream.outParcel).map Parcel.packet, ?_⟩
    unfold Duo.traffic
    rw [(Party.traffic_boxes _ _).2, (Party.traffic_boxes _ _).2, HordStream.outParcels, hout,
      List.filterMap_append, List.filterMap_congr hsame, List.map_append]
    rfl
  · simp only [not_exists] at hres
    obtain ⟨-, ls, hrun, -⟩ := h.call_run hd halive hres
    exact outbox_run hrun

/-- What a step of an established end leaves, from what the call does. -/
theorem Duo.Step.act_wp {a : Act} {r : Except Fail Res} {Q : Except Fail Res → HordStream → Prop}
    (h : Duo.Step d (.call x (.act a r)) e) (hq : wp a.run (d.get x).stream Q) :
    (d.get x).phase = .up ∧ Q r (e.get x).stream := by
  obtain ⟨hup, heq, rfl⟩ := h.of_call.1.outcome
  rw [heq]
  exact ⟨hup, Act.outcome_wp hq⟩

/-- A call delivers the oldest bytes that have arrived; only a read that fails can consume
    any without delivering them. -/
theorem Duo.Step.received {m : Hord.Move} (h : Duo.Step d (.call x m) e) (hd : d.Healthy)
    (halive : ∀ y, (e.get y).phase ≠ .failed) (hread : ∀ n er, m ≠ .act (.tryRead n) (.error er)) :
    (d.get x).stream.received = m.read ++ (e.get x).stream.received := by
  by_cases hres : ∃ a er, m = .act a (.error er)
  · obtain ⟨a, er, rfl⟩ := hres
    obtain ⟨-, -, hi, -⟩ := h.of_call.1.reaches (hd.fine x).ok
    have hkeep : wp a.run (d.get x).stream fun r t => match r with
        | .ok _ => True
        | .error _ => t.received = (d.get x).stream.received :=
      Act.run_received_error hi (hd.fine x).honest fun n hn => hread n er (by rw [hn])
    exact (h.act_wp hkeep).2.symm
  · simp only [not_exists] at hres
    obtain ⟨-, ls, hrun, -, hrd, -⟩ := h.call_run hd halive hres
    rw [d.received_eq, e.received_eq, received_run hrun, hrd]

/-- A step of the pair keeps the wire sound, unless it is a read that fails. -/
theorem Wire.Sound.step (hw : w.Sound x rd d) (h : Duo.Step d l e) (hd : d.Healthy)
    (halive : ∀ y, (e.get y).phase ≠ .failed) (hc : w.carries x l)
    (hread : ∀ n er, l ≠ .call x.other (.act (.tryRead n) (.error er))) :
    (w.after x d l e).Sound x (rd ++ l.read x.other) e := by
  obtain ⟨hland, hpost, hle⟩ := hw
  -- neither end's share of the wire changes
  have quiet : (∀ y, e.traffic y = d.traffic y) → Wire.Sound x w (rd ++ []) e := by
    intro hsame
    refine ⟨?_, ?_, hle⟩
    · rw [List.append_nil, hland, e.received_eq, hsame, ← d.received_eq]
    · rw [hsame]
      exact hpost
  cases l with
  | call z m =>
    have hother := (h.traffic hd halive).1
    rcases x.eq_or_other z with rfl | rfl
    · obtain ⟨ps, hps⟩ := h.posts hd halive
      have hrecv : (e.get z.other).stream.received = (d.get z.other).stream.received := by
        rw [e.received_eq, hother, ← d.received_eq]
      simp only [Wire.after, Event.read, if_true, if_neg (Side.ne_other z), List.append_nil, hps, joined_append]
      refine ⟨?_, fun hcut => ?_, hle.trans (List.prefix_append ..)⟩
      · rw [hrecv]
        exact hland
      · simp only [hpost hcut, hps, bodies_append, List.flatten_append, List.append_assoc]
    · rw [Side.other_other] at hother
      have hrecv := h.received hd halive fun n er hm => hread n er (by rw [hm])
      simp only [Wire.after, Event.read, if_true, if_neg (Side.other_ne x)]
      refine ⟨?_, fun hcut => ?_, hle⟩
      · rw [hland, hrecv, List.append_assoc]
      · rw [hother]
        exact hpost hcut
  | deliver z sent =>
    obtain ⟨ps, hdel⟩ := h.traffic hd halive
    rcases x.eq_or_other z with rfl | rfl
    · have hrecv := hdel.receiver
      have hin : (e.get z.other).stream.received = (d.get z.other).stream.received ++ (bodies ps).flatten := by
        rw [e.received_eq, d.received_eq, hrecv]
        simp
      have hjoined : joined (d.traffic z.other).inbox (e.traffic z.other).inbox = (bodies ps).flatten := by
        rw [hrecv]
        exact joined_append _ ps
      have hsent : w.sent = w.landed ++ (bodies ps).flatten ++ (bodies (e.traffic z).outbox).flatten := by
        rw [hpost (hc rfl), hdel.taken]
        simp
      simp only [Wire.after, Event.read, if_true, List.append_nil, hjoined]
      refine ⟨?_, fun _ => hsent, ?_⟩
      · rw [hin, hland, List.append_assoc]
      · rw [hsent]
        exact List.prefix_append ..
    · have hrecv := hdel.receiver
      rw [Side.other_other] at hrecv
      simp only [Wire.after, Event.read, if_neg (Side.other_ne x), List.append_nil]
      refine ⟨?_, fun hcut => ?_, hle⟩
      · rw [hland, d.received_eq, e.received_eq, hdel.sender]
      · rw [hrecv]
        exact hpost hcut
  | drop z =>
    obtain ⟨hother, hsame⟩ := h.traffic hd halive
    rcases x.eq_or_other z with rfl | rfl
    · simp only [Wire.after, Event.read, if_true, List.append_nil]
      refine ⟨?_, (by simp), hle⟩
      rw [hland, d.received_eq, e.received_eq, hother]
    · rw [Side.other_other] at hother
      simp only [Wire.after, Event.read, if_neg (Side.other_ne x), List.append_nil]
      refine ⟨?_, fun hcut => ?_, hle⟩
      · rw [hland, d.received_eq, e.received_eq, hsame]
      · rw [hother]
        exact hpost hcut
  | complete z _ wc => exact quiet (h.traffic hd halive)
  | reject z => exact quiet (h.traffic hd halive)
  | oracle z => exact quiet (h.traffic hd halive)
  | cm z ev => exact quiet (h.traffic hd halive)

theorem Duo.stage_eq (d : Duo) (x : Side) : (d.get x).stream.txStage = (d.traffic x).stage := by
  unfold Duo.traffic Party.traffic
  split <;> rfl

/-- As long as its calls return, what `x` accepted is what it posted and what it has
    staged. -/
theorem Wire.sent_step {acc : Bytes} (hacc : w.sent ++ (d.get x).stream.txStage = acc)
    (h : Duo.Step d l e) (hd : d.Healthy) (halive : ∀ y, (e.get y).phase ≠ .failed)
    (hres : ∀ a er, l ≠ .call x (.act a (.error er))) :
    (w.after x d l e).sent ++ (e.get x).stream.txStage = acc ++ l.accepted x := by
  have quiet : ∀ {w' : Wire}, w'.sent = w.sent → (e.traffic x).stage = (d.traffic x).stage →
      w'.sent ++ (e.get x).stream.txStage = acc ++ [] := by
    intro w' hsent hstage
    rw [List.append_nil, hsent, e.stage_eq, hstage, ← d.stage_eq]
    exact hacc
  cases l with
  | call z m =>
    rcases x.eq_or_other z with rfl | rfl
    · obtain ⟨-, ls, hrun, hrd, -⟩ := h.call_run hd halive fun a er hm => hres a er (by rw [hm])
      obtain ⟨ps, hps⟩ := outbox_run hrun
      have hout := outgoing_run hrun
      rw [hrd] at hout
      simp only [End.outgoing, hps, bodies_append, List.flatten_append, List.append_assoc,
        List.append_cancel_left_eq] at hout
      simp only [Wire.after, Event.accepted, if_true, hps, joined_append]
      rw [e.stage_eq, List.append_assoc, hout, ← hacc, d.stage_eq, List.append_assoc]
    · have hother := (h.traffic hd halive).1
      rw [Side.other_other] at hother
      simp only [Wire.after, Event.accepted, if_neg (Side.other_ne x)]
      exact quiet rfl (by rw [hother])
  | deliver z sent =>
    obtain ⟨ps, hdel⟩ := h.traffic hd halive
    rcases x.eq_or_other z with rfl | rfl
    · simp only [Wire.after, Event.accepted, if_true]
      exact quiet rfl (by rw [hdel.sender])
    · have hrecv := hdel.receiver
      rw [Side.other_other] at hrecv
      simp only [Wire.after, Event.accepted, if_neg (Side.other_ne x)]
      exact quiet rfl (by rw [hrecv])
  | drop z =>
    obtain ⟨hother, hsame⟩ := h.traffic hd halive
    rcases x.eq_or_other z with rfl | rfl
    · simp only [Wire.after, Event.accepted, if_true]
      exact quiet rfl (by rw [hsame])
    · rw [Side.other_other] at hother
      simp only [Wire.after, Event.accepted, if_neg (Side.other_ne x)]
      exact quiet rfl (by rw [hother])
  | complete z _ wc => exact quiet rfl (by rw [h.traffic hd halive])
  | reject z => exact quiet rfl (by rw [h.traffic hd halive])
  | oracle z => exact quiet rfl (by rw [h.traffic hd halive])
  | cm z ev => exact quiet rfl (by rw [h.traffic hd halive])

end Wires

/-! Sessions. -/

/-- The bytes an owner is handed. -/
def Deed.delivered (x : Side) : Deed → Bytes
  | .leave y _ r => if y = x then Hord.delivered r else []
  | _ => []

/-- The bytes a stream accepts from its owner. -/
def Deed.accepted (x : Side) : Deed → Bytes
  | .move l => l.accepted x
  | _ => []

/-- A step of a call at `x`. -/
def Deed.acts (x : Side) : Deed → Bool
  | .move (.call y (.act _ _)) => y == x
  | _ => false

/-- A step of a call at `x` fails. -/
def Deed.fails (x : Side) : Deed → Bool
  | .move (.call y (.act _ (.error _))) => y == x
  | _ => false

/-- The calls that write to the byte stream. -/
def Call.writes : Call → Bool
  | .write _ => true
  | .act (.tryWrite _) => true
  | _ => false

/-- A read is refused none of its posts. -/
def Act.granted (s : HordStream) : Act → Prop
  | .tryRead n => s.Grants (.tryRead n)
  | _ => True

/-- The device lets the step do its work; the wait of a write that has taken bytes is
    answered. -/
def Job.Safe (s : HordStream) (took : Bool) : Job → Prop
  | .doing p => p.act.granted s
  | .waiting (.write _ _) w => took = true → s.peerClosed = true ∨ w.answered s
  | .waiting _ _ => True

namespace Session

/-- The bytes the call at `x` is about to return. -/
def returning (u : Session) (x : Side) : Bytes := ((u.calls x).map fun r => r.now.delivered).getD []

/-- A step of the call at `x` is safe. -/
def Safe (x : Side) (u : Session) (l : Deed) : Prop :=
  match u.calls x with
  | some ⟨_, .cont j, took⟩ => l.acts x = true → j.Safe (u.stream x) took
  | _ => True

/-- A step of a session over a reliable connection, the wire from `x` recorded. -/
def Records (x : Side) (o : Session × Wire) (l : Deed) (o' : Session × Wire) : Prop :=
  Step o.1 l o'.1 ∧ match l with
    | .move m => m.Tame o.1.duo ∧ o.2.carries x m ∧ o'.2 = o.2.after x o.1.duo m o'.1.duo
    | _ => o'.2 = o.2

end Session

section Sessions
variable {u v : Session} {w w' : Wire} {l : Deed} {ls : List Deed} {x : Side}

theorem Session.returning_of {r : Running} (h : u.calls x = some r) : u.returning x = r.now.delivered := by
  simp [Session.returning, h]

theorem Event.read_of_not_act {m : Event} (h : m.isAct = false) : m.read x = [] := by
  cases m with
  | call z mv =>
    cases mv with
    | act a r => cases h
    | _ => simp [Event.read, Move.read]
  | _ => rfl

theorem Event.read_act (a : Act) (r : Except Fail Res) : (Event.call x (.act a r)).read x = delivered r := by
  cases r <;> simp [Event.read, Move.read, delivered]

/-- A safe step of a call is no read that fails. -/
theorem Session.Safe.reads {d : Duo} {c : Call} {j : Job} {took : Bool} {r : Except Fail Res}
    (hsafe : u.Safe x (.move (.call x (.act j.act r)))) (hcall : u.calls x = some ⟨c, .cont j, took⟩)
    (h : Duo.Step u.duo (.call x (.act j.act r)) d) (hi : Inv (u.stream x)) (n : Nat) (er : Fail)
    (ha : j.act = .tryRead n) : r ≠ .error er := by
  have hjob : j.Safe (u.stream x) took := by
    simpa [Session.Safe, hcall, Deed.acts] using hsafe
  have hacc : (u.stream x).Grants (.tryRead n) := by
    cases j with
    | doing p =>
      have hp : p.act = .tryRead n := ha
      simpa only [Job.Safe, hp, Act.granted] using hjob
    | waiting loop wait => cases wait <;> cases ha
  rw [ha] at h
  obtain ⟨v, rfl⟩ := (h.act_wp (tryRead_granted hi hacc)).2
  nofun

/-- The session's share of the wire: what `x` sent has been handed out, is about to be, or
    is still on its way. -/
theorem Wire.Sound.session (hw : w.Sound x (ls.flatMap (Deed.delivered x.other) ++ u.returning x.other) u.duo)
    (h : Session.Records x (u, w) l (v, w')) (hd : u.duo.Healthy)
    (halive : ∀ y, (v.duo.get y).phase ≠ .failed) (hsafe : u.Safe x.other l) :
    w'.Sound x ((ls ++ [l]).flatMap (Deed.delivered x.other) ++ v.returning x.other) v.duo := by
  obtain ⟨hstep, hwire⟩ := h
  simp only at hstep hwire
  rw [List.flatMap_append, List.flatMap_singleton, List.append_assoc]
  cases hstep with
  | enter z c hup hidle =>
    have hret : (u.setCall z (some ⟨c, c.start (u.stream z), false⟩)).returning x.other =
        u.returning x.other := by
      rcases x.eq_or_other z with rfl | rfl
      · simp [Session.returning]
      · simp [Session.returning, hidle, Call.start_delivered]
    rw [hret]
    exact hwire ▸ hw
  | leave z c r took hcall =>
    have hret : Deed.delivered x.other (.leave z c r) ++ (u.setCall z none).returning x.other =
        u.returning x.other := by
      rcases x.eq_or_other z with rfl | rfl
      · simp [Session.returning, Deed.delivered]
      · simp [Session.returning, hcall, Deed.delivered, Next.delivered]
    rw [hret]
    exact hwire ▸ hw
  | other m e hduo hl =>
    obtain ⟨-, hcar, rfl⟩ := hwire
    have hkeep := hw.step hduo hd halive hcar (fun n er hm => by rw [hm] at hl; cases hl)
    rw [Event.read_of_not_act hl, List.append_nil] at hkeep
    exact hkeep
  | act z c j took r e hcall hduo =>
    obtain ⟨-, hcar, rfl⟩ := hwire
    rcases x.eq_or_other z with rfl | rfl
    · have hkeep := hw.step hduo hd halive hcar (fun n er hm => by injection hm with hz; cases z <;> cases hz)
      simpa [Session.returning, Deed.delivered, Event.read] using hkeep
    · have hi : Inv (u.stream x.other) := (hduo.of_call.1.reaches (hd.fine x.other).ok).2.2.1
      have hkeep := hw.step hduo hd halive hcar fun n er hm => by
        injection hm with _ hm
        injection hm with ha hr
        exact hsafe.reads hcall hduo hi n er ha hr
      rw [Session.returning_of hcall, Event.read_act, ← j.next_delivered (e.get x.other).stream r] at hkeep
      simpa [Session.returning, Deed.delivered, Next.delivered] using hkeep

/-- Where a write stands: a step that failed has closed the stream, or nothing was taken. -/
def Next.Fair (s : HordStream) (c : Call) (took : Bool) : Next → Prop
  | .cont (.doing (.tryWrite _ _)) => True
  | .cont (.doing (.once a)) => c = .act a
  | .cont (.waiting (.write _ _) _) => True
  | .cont _ => False
  | .ret (.ok _) => True
  | .ret (.error _) => took = false ∨ s.peerClosed = true

theorem writeLoop_fair (s : HordStream) (c : Call) (took : Bool) (data : Bytes) (off : Nat) :
    (writeLoop data off).Fair s c took := by
  unfold writeLoop
  split <;> trivial

theorem Call.start_fair (s : HordStream) {c : Call} (hc : c.writes = true) : (c.start s).Fair s c false := by
  cases c with
  | write data =>
    simp only [Call.start]
    split
    · exact .inl rfl
    · exact writeLoop_fair s _ false data 0
  | act a => rfl
  | _ => cases hc

/-- `try_write` fails only on a stream that is closed afterwards. -/
theorem tryWrite_closes {s : HordStream} (hwf : Wf s) (buf : Bytes) :
    wp (Act.tryWrite buf).run s fun r t => match r with
      | .ok _ => True
      | .error _ => t.peerClosed = true := by
  simp only [Act.run, wp_bind]
  refine wp_mono (tryWrite_path buf hwf) ?_
  intro r t hr
  cases r with
  | ok _ => trivial
  | error e =>
    cases e with
    | io _ => exact hr.2
    | panic _ => exact hr.elim

/-- A step of a write. -/
theorem Next.Fair.step {s t : HordStream} {c : Call} {j : Job} {took : Bool} {r : Except Fail Res}
    (h : (Next.cont j).Fair s c took) (hc : c.writes = true) (hi : Inv s) (hhon : s.Honest)
    (hstep : j.act.outcome s = (r, t)) (hsafe : j.Safe s took) :
    (j.next t r).Fair t c (took || t.outgoing != s.outgoing) := by
  have hout : ∀ {Q : Except Fail Res → HordStream → Prop}, wp j.act.run s Q → Q r t := by
    intro Q hq
    have := Act.outcome_wp hq
    rwa [hstep] at this
  -- a write tries, or waits for room; an error out of either finds the stream closed or nothing taken
  match j, h with
  | .doing (.tryWrite data off), _ =>
    have hclose := hout (tryWrite_closes hi.wf (data.drop off))
    match r with
    | .error e => exact .inr hclose
    | .ok (.count n) =>
      simp only [Job.next, Point.next]
      split
      · trivial
      · exact writeLoop_fair t c _ data (off + n)
    | .ok .unit => trivial
    | .ok (.flag _) => trivial
    | .ok (.bytes _) => trivial
    | .ok (.transfer _) => trivial
  | .doing (.once a), ha =>
    have ha' : c = .act a := ha
    subst ha'
    cases a with
    | tryWrite buf =>
      have hclose := hout (tryWrite_closes hi.wf buf)
      match r with
      | .error e => exact .inr hclose
      | .ok v => trivial
    | _ => cases hc
  | .waiting (.write data off) w, _ =>
    match r with
    | .ok (.flag b) =>
      simp only [Job.next]
      split
      · trivial
      · exact writeLoop_fair t c _ data off
    | .error e =>
      have hkeep := hout (w.keeps_outgoing hi hhon)
      simp only [Job.next, hkeep, bne_self_eq_false, Bool.or_false]
      cases took with
      | false => exact .inl rfl
      | true =>
        right
        rcases hsafe rfl with hclosed | hans
        · exact hout (w.act.stays_closed hi hclosed)
        · exact hout (w.closes hi hhon hans)
    | .ok .unit => trivial
    | .ok (.count _) => trivial
    | .ok (.bytes _) => trivial
    | .ok (.transfer _) => trivial

/-- An established end stays so, and a closed one stays closed. -/
theorem Party.Step.stays_closed {p q : Party} {m : Hord.Move} (h : Party.Step p m q) (hok : p.Ok)
    (hup : p.phase = .up) (hclosed : p.stream.peerClosed = true) : q.stream.peerClosed = true := by
  cases h with
  | env t he => exact he.closed.trans hclosed
  | hello t hph hr => rw [hph] at hup; cases hup
  | wait t hph hr => rw [hph] at hup; cases hup
  | peer t k hph hr => rw [hph] at hup; cases hup
  | apply t k hph hr => rw [hph] at hup; cases hup
  | broke t e hr =>
    rcases hr with ⟨hph, -⟩ | ⟨hph, -⟩ | ⟨k, hph, -⟩
    all_goals
      rw [hph] at hup
      cases hup
  | act t a v hph hr => exact (Party.Step.reaches (.act p t a v hph hr) hok).2.2.2.stays_closed hclosed
  | actErr t a e hph hr =>
    exact (Party.Step.reaches (.actErr p t a e hph hr) hok).2.2.2.stays_closed hclosed

theorem Duo.Step.stays_closed {d e : Duo} {m : Event} (h : Duo.Step d m e) {y : Side}
    (hok : (d.get y).Ok) (hup : (d.get y).phase = .up) : (e.get y).phase = .up ∧
      ((d.get y).stream.peerClosed = true → (e.get y).stream.peerClosed = true) := by
  rcases h.party y with heq | ⟨mv, hp⟩
  · rw [heq]
    exact ⟨hup, id⟩
  · exact ⟨(hp.stays_up hup).1, hp.stays_closed hok hup⟩

/-- The call at `y`, if there is one, is of an established end, and a write stands fair. -/
def Session.Fair (y : Side) (u : Session) : Prop :=
  ∀ r, u.calls y = some r → (u.duo.get y).phase = .up ∧
    (r.call.writes = true → r.now.Fair (u.stream y) r.call r.took)

theorem Next.Fair.mono {s t : HordStream} {c : Call} {took : Bool} {n : Next} (h : n.Fair s c took)
    (hclosed : s.peerClosed = true → t.peerClosed = true) : n.Fair t c took := by
  match n, h with
  | .cont (.doing (.tryWrite _ _)), h => exact h
  | .cont (.doing (.once _)), h => exact h
  | .cont (.waiting (.write _ _) _), h => exact h
  | .ret (.ok _), h => exact h
  | .ret (.error _), h => exact h.imp_right hclosed

theorem Session.Fair.step {y : Side} (hf : u.Fair y) (h : Session.Step u l v) (hd : u.duo.Healthy)
    (hsafe : u.Safe y l) : v.Fair y := by
  have hok := (hd.fine y).ok
  -- by the end that steps: at the other end of the call nothing changes for it
  cases h with
  | enter z c hup hidle =>
    rcases z.eq_or_other y with rfl | rfl
    · intro r hr
      simp only [Session.setCall_calls, Option.some.injEq] at hr
      subst hr
      exact ⟨hup, fun hc => Call.start_fair _ hc⟩
    · intro r hr
      rw [Session.setCall_other] at hr
      exact hf r hr
  | leave z c r took hcall =>
    rcases z.eq_or_other y with rfl | rfl
    · intro r hr
      rw [Session.setCall_calls] at hr
      cases hr
    · intro r hr
      rw [Session.setCall_other] at hr
      exact hf r hr
  | other m e hduo hl =>
    intro r hr
    obtain ⟨hup, hfair⟩ := hf r hr
    obtain ⟨hup', hclosed⟩ := hduo.stays_closed hok hup
    exact ⟨hup', fun hc => (hfair hc).mono hclosed⟩
  | act z c j took r e hcall hduo =>
    rcases z.eq_or_other y with rfl | rfl
    · intro r' hr'
      simp only [Session.setCall_calls, Option.some.injEq] at hr'
      subst hr'
      obtain ⟨hup, hfair⟩ := hf _ hcall
      refine ⟨(hduo.stays_closed hok hup).1, fun hc => ?_⟩
      obtain ⟨-, heq, hr⟩ := hduo.of_call.1.outcome
      have hjob : j.Safe (u.stream y) took := by
        simpa [Session.Safe, hcall, Deed.acts] using hsafe
      refine (hfair hc).step hc (hok.inv hup) (hd.fine y).honest ?_ hjob
      rw [hr]
      show _ = (_, (e.get y).stream)
      rw [heq]
      rfl
    · intro r' hr'
      simp only [Session.setCall_other] at hr'
      obtain ⟨hup, hfair⟩ := hf r' hr'
      obtain ⟨hup', hclosed⟩ := hduo.stays_closed hok hup
      exact ⟨hup', fun hc => (hfair hc).mono hclosed⟩

/-! After the stream is closed. -/

/-- Where a write on a closed stream stands: it has failed, or is about to. -/
def Next.Barred (c : Call) : Next → Prop
  | .cont (.doing (.once a)) => c = .act a
  | .cont _ => False
  | .ret (.ok _) => False
  | .ret (.error _) => True

/-- An established end whose stream is closed. -/
structure Session.Barred (y : Side) (u : Session) : Prop where
  ok : (u.duo.get y).Ok
  up : (u.duo.get y).phase = .up
  closed : (u.stream y).peerClosed = true
  call : ∀ r, u.calls y = some r → r.call.writes = true → r.now.Barred r.call

theorem tryWrite_barred {s : HordStream} (hclosed : s.peerClosed = true) (buf : Bytes) :
    wp (Act.tryWrite buf).run s fun r _ => ∃ er, r = .error er := by
  simp only [Act.run, tryWrite, wp_bind, wp_get, wp_ite, hclosed, if_true]
  exact ⟨_, rfl⟩

theorem Session.Barred.step {y : Side} (hb : u.Barred y) (h : Session.Step u l v) : v.Barred y ∧
    ∀ c val, l = .leave y c (.ok val) → c.writes = false := by
  have moved : ∀ {m : Event} {e : Duo}, Duo.Step u.duo m e → (e.get y).Ok ∧ (e.get y).phase = .up ∧
      (e.get y).stream.peerClosed = true := by
    intro m e hduo
    obtain ⟨hup, hclosed⟩ := hduo.stays_closed hb.ok hb.up
    refine ⟨?_, hup, hclosed hb.closed⟩
    rcases hduo.party y with heq | ⟨mv, hp⟩
    · rw [heq]
      exact hb.ok
    · exact hp.ok hb.ok
  cases h with
  | enter z c hup hidle =>
    refine ⟨⟨hb.ok, hb.up, hb.closed, ?_⟩, nofun⟩
    rcases z.eq_or_other y with rfl | rfl
    · intro r hr hc
      simp only [Session.setCall_calls, Option.some.injEq] at hr
      subst hr
      cases c with
      | write data =>
        simp only [Call.start, hb.closed, if_true]
        trivial
      | act a => rfl
      | _ => cases hc
    · intro r hr
      rw [Session.setCall_other] at hr
      exact hb.call r hr
  | leave z c r took hcall =>
    refine ⟨⟨hb.ok, hb.up, hb.closed, ?_⟩, fun c' val hl => ?_⟩
    · rcases z.eq_or_other y with rfl | rfl
      · intro r hr
        rw [Session.setCall_calls] at hr
        cases hr
      · intro r hr
        rw [Session.setCall_other] at hr
        exact hb.call r hr
    · cases hl
      by_contra hc
      exact hb.call _ hcall (by simpa using hc)
  | other m e hduo hl =>
    obtain ⟨hok, hup, hclosed⟩ := moved hduo
    exact ⟨⟨hok, hup, hclosed, hb.call⟩, nofun⟩
  | act z c j took r e hcall hduo =>
    obtain ⟨hok, hup, hclosed⟩ := moved hduo
    refine ⟨⟨hok, hup, hclosed, ?_⟩, nofun⟩
    rcases z.eq_or_other y with rfl | rfl
    · intro r' hr' hc
      simp only [Session.setCall_calls, Option.some.injEq] at hr'
      subst hr'
      -- only a single `try_write` can still be under way, and it fails
      match j, hb.call _ hcall hc with
      | .doing (.once a), ha =>
        have ha' : c = .act a := ha
        subst ha'
        cases a with
        | tryWrite buf =>
          obtain ⟨er, rfl⟩ := (hduo.act_wp (tryWrite_barred hb.closed buf)).2
          trivial
        | _ => cases hc
    · intro r' hr'
      simp only [Session.setCall_other] at hr'
      exact hb.call r' hr'

/-- On a closed stream every write fails. -/
theorem Session.Barred.run {y : Side} (hb : u.Barred y) (h : Run Session.Step u ls v) (c : Call) (val : Res)
    (hl : .leave y c (.ok val) ∈ ls) : c.writes = false := by
  have hall := h.inv_trace (I := fun ls v => v.Barred y ∧
    ∀ c val, Deed.leave y c (.ok val) ∈ ls → c.writes = false) (fun ls u l v hi hs => ?_) ⟨hb, nofun⟩
  · exact hall.2 c val hl
  · obtain ⟨hv, hlast⟩ := hi.1.step hs
    refine ⟨hv, fun c val hmem => ?_⟩
    rcases List.mem_append.mp hmem with hmem | hmem
    · exact hi.2 c val hmem
    · rw [List.mem_singleton] at hmem
      exact hlast c val hmem.symm

/-! Whole runs. -/

/-- What holds after every step of a recorded session. -/
structure Session.Told (x : Side) (ls : List Deed) (o : Session × Wire) : Prop where
  healthy : o.1.duo.Healthy
  wire : o.2.Sound x (ls.flatMap (Deed.delivered x.other) ++ o.1.returning x.other) o.1.duo
  fair : o.1.Fair x.other
  sent : (∀ l ∈ ls, l.fails x = false) →
    o.2.sent ++ (o.1.stream x).txStage = ls.flatMap (Deed.accepted x)

theorem Session.Told.step {o o' : Session × Wire} (hi : Session.Told x ls o)
    (h : Session.Records x o l o') (hsafe : o.1.Safe x.other l)
    (halive : ∀ y, (o'.1.duo.get y).phase ≠ .failed) : Session.Told x (ls ++ [l]) o' := by
  obtain ⟨u, w⟩ := o
  obtain ⟨v, w'⟩ := o'
  have hsession := hi.wire.session h hi.healthy halive hsafe
  have hfair := hi.fair.step h.1 hi.healthy hsafe
  obtain ⟨hstep, hwire⟩ := h
  rcases hstep.duo with ⟨m, rfl, hduo⟩ | ⟨hm, hduo⟩
  · obtain ⟨htame, -, hafter⟩ := hwire
    refine ⟨hduo.healthy hi.healthy htame halive, hsession, hfair, fun hok => ?_⟩
    have hsent := hi.sent fun l hl => hok l (List.mem_append_left _ hl)
    rw [List.flatMap_append, List.flatMap_singleton, hafter]
    refine Wire.sent_step hsent hduo hi.healthy halive fun a er hm => ?_
    have hfail := hok _ (List.mem_append_right _ (List.mem_singleton_self _))
    rw [hm] at hfail
    simp [Deed.fails] at hfail
  · have hquiet : w' = w ∧ l.accepted x = [] := by
      cases l with
      | move m => exact absurd rfl (hm m)
      | enter z c => exact ⟨hwire, rfl⟩
      | leave z c r => exact ⟨hwire, rfl⟩
    have hduo' : v.duo = u.duo := hduo
    refine ⟨?_, hsession, hfair, fun hok => ?_⟩
    · rw [show (v, w').1.duo = u.duo from hduo]
      exact hi.healthy
    · have hsent := hi.sent fun l hl => hok l (List.mem_append_left _ hl)
      rw [List.flatMap_append, List.flatMap_singleton, hquiet.2, List.append_nil, ← hsent, hquiet.1]
      simp only [Session.stream, hduo']

theorem Session.Init.told {u : Session} (h : u.Init) : Session.Told x [] (u, ⟨[], [], false⟩) := by
  have htraffic := h.1.traffic
  have hreceived : (u.duo.get x.other).stream.received = [] := by
    rw [u.duo.received_eq, htraffic]
    rfl
  refine ⟨h.1.healthy, ⟨?_, fun _ => ?_, List.prefix_rfl⟩, ?_, fun _ => ?_⟩
  · simp [Session.returning, h.2, hreceived]
  · simp [htraffic]
  · intro r hr
    rw [h.2] at hr
    cases hr
  · show [] ++ (u.duo.get x).stream.txStage = []
    rw [u.duo.stage_eq, htraffic]
    rfl

theorem Session.Step.was_alive (h : Session.Step u l v) (halive : ∀ y, (v.duo.get y).phase ≠ .failed)
    (y : Side) : (u.duo.get y).phase ≠ .failed := by
  rcases h.duo with ⟨m, -, hduo⟩ | ⟨-, heq⟩
  · exact hduo.was_alive halive y
  · rw [← heq]
    exact halive y

theorem Session.Told.run {o o' : Session × Wire}
    (hrun : Run (fun o l o' => Session.Records x o l o' ∧ o.1.Safe x.other l) o ls o')
    (h : Session.Told x [] o) (halive : ∀ y, (o'.1.duo.get y).phase ≠ .failed) :
    Session.Told x ls o' := by
  induction hrun with
  | nil => exact h
  | snoc hr hs ih => exact (ih (hs.1.1.was_alive halive)).step hs.1 hs.2 halive

/-- Local calls fail at any point and the owners go on calling. If no read of the receiver
    is refused a post and no wait of a write that took bytes goes unanswered, what it was
    handed is a prefix of what its peer sent, nothing that landed is lost, and a write that
    fails took nothing or left a stream on which every later write fails. -/
theorem no_gap_or_duplicate {u v : Session} {w : Wire} {ls : List Deed} {x : Side} (hinit : u.Init)
    (hrun : Run (fun o l o' => Session.Records x o l o' ∧ o.1.Safe x.other l) (u, ⟨[], [], false⟩) ls (v, w))
    (halive : ∀ y, (v.duo.get y).phase ≠ .failed) :
    ls.flatMap (Deed.delivered x.other) <+: w.sent ∧
    w.landed = ls.flatMap (Deed.delivered x.other) ++ v.returning x.other ++ (v.stream x.other).received ∧
    ((∀ l ∈ ls, l.fails x = false) → w.sent <+: ls.flatMap (Deed.accepted x)) ∧
    ∀ c er took, v.calls x.other = some ⟨c, .ret (.error er), took⟩ → c.writes = true →
      took = false ∨ (v.stream x.other).peerClosed = true ∧
        ∀ ms v', Run Session.Step v ms v' → ∀ c' val, .leave x.other c' (.ok val) ∈ ms → c'.writes = false := by
  have h := Session.Told.run hrun hinit.told halive
  refine ⟨?_, h.wire.landed, fun hok => ?_, fun c er took hcall hc => ?_⟩
  · refine List.IsPrefix.trans ?_ h.wire.le
    rw [h.wire.landed, List.append_assoc]
    exact List.prefix_append ..
  · rw [← h.sent hok]
    exact List.prefix_append ..
  · obtain ⟨hup, hfair⟩ := h.fair _ hcall
    refine (hfair hc).imp_right fun hclosed => ⟨hclosed, fun ms v' hlater c' val hl => ?_⟩
    refine Session.Barred.run ⟨(h.healthy.fine x.other).ok, hup, hclosed, ?_⟩ hlater c' val hl
    intro r hr _
    rw [hcall] at hr
    cases hr
    trivial

end Sessions

/-! Recorded sessions that can be computed. -/

instance (s : HordStream) (w : Wait) : Decidable (w.answered s) :=
  match w with
  | .poll _ => inferInstanceAs (Decidable (_ ≠ _))
  | .cm => inferInstanceAs (Decidable (_ → _))

instance (s : HordStream) (a : Act) : Decidable (a.granted s) :=
  match a with
  | .tryRead n => inferInstanceAs (Decidable (s.Grants (.tryRead n)))
  | .tryWrite _ | .tryFlushStage | .returnOwedCredits _ | .pump | .pollCmDisconnect | .pollCmEvent
  | .armCq | .nextCompletedTransfer | .beginWrite _ _ _ _ | .disconnect | .shutdown => .isTrue trivial

instance Job.decidableSafe (s : HordStream) (took : Bool) (j : Job) : Decidable (j.Safe s took) :=
  match j with
  | .doing p => inferInstanceAs (Decidable (p.act.granted s))
  | .waiting (.write _ _) _ => inferInstanceAs (Decidable (_ → _ ∨ _))
  | .waiting (.read _) _ | .waiting .flushStage _ | .waiting .flushSends _ | .waiting .transfer _
  | .waiting (.post _) _ | .waiting (.drain _ _) _ => .isTrue trivial

/-- `Session.Safe`, computed. -/
def Session.safe (x : Side) (u : Session) (l : Deed) : Bool :=
  match u.calls x with
  | some ⟨_, .cont j, took⟩ => !l.acts x || decide (j.Safe (u.stream x) took)
  | _ => true

theorem Session.safe_iff {x : Side} {u : Session} {l : Deed} (h : u.safe x l = true) : u.Safe x l := by
  unfold Session.safe at h
  unfold Session.Safe
  split at h
  · next c j took hcall =>
    intro hl
    simpa [hl] using h
  · trivial

/-- No request and no receive is flushed. -/
def Deed.whole : Deed → Bool
  | .move (.reject _) => false
  | .move (.drop _) => false
  | _ => true

def Wire.along (x : Side) (w : Wire) (d : Duo) (l : Deed) (e : Duo) : Wire :=
  match l with
  | .move m => w.after x d m e
  | _ => w

/-- Carry a script out over a whole wire, as long as `guard` allows every step. -/
def Session.script (x : Side) (guard : Session → Deed → Bool) (o : Session × Wire) :
    List Cue → Option (List Deed × Session × Wire)
  | [] => some ([], o)
  | c :: cs =>
    match o.1.exec c with
    | none => none
    | some (l, v) =>
      if l.whole ∧ o.2.cut = false ∧ guard o.1 l = true then
        (Session.script x guard (v, o.2.along x o.1.duo l v.duo) cs).map fun r => (l :: r.1, r.2)
      else none

theorem Session.Step.records {u v : Session} {w : Wire} {l : Deed} (x : Side) (h : Session.Step u l v)
    (hl : l.whole = true) (hcut : w.cut = false) :
    Session.Records x (u, w) l (v, w.along x u.duo l v.duo) := by
  refine ⟨h, ?_⟩
  cases l with
  | enter y c => rfl
  | leave y c r => rfl
  | move m =>
    cases m with
    | reject y => cases hl
    | drop y => cases hl
    | deliver y wr => exact ⟨trivial, fun _ => hcut, rfl⟩
    | _ => exact ⟨trivial, trivial, rfl⟩

theorem Session.script_run {x : Side} {guard : Session → Deed → Bool} (cs : List Cue)
    {o o' : Session × Wire} {ls : List Deed} (h : Session.script x guard o cs = some (ls, o')) :
    Run (fun o l o' => Session.Records x o l o' ∧ guard o.1 l = true) o ls o' := by
  induction cs generalizing o ls with
  | nil =>
    cases h
    exact .nil _
  | cons c cs ih =>
    simp only [Session.script] at h
    split at h
    · cases h
    · next l v hv =>
      split at h
      · next hg =>
        simp only [Option.map_eq_some_iff] at h
        obtain ⟨⟨ms, o''⟩, hms, heq⟩ := h
        cases heq
        exact .cons ⟨(Session.exec_step hv).records x hg.1 hg.2.1, hg.2.2⟩ (ih hms)
      · cases h

/-- Build two endpoints, neither in a call, and carry a script out. -/
def Session.launch (x : Side) (guard : Session → Deed → Bool) (config : HordConfig) (cs : List Cue) :
    Option (List Deed × Session × Wire) :=
  match newCommon (Connection.new 1) config with
  | .ok s => Session.script x guard
      (⟨⟨⟨config, s, .fresh⟩, ⟨config, s, .fresh⟩⟩, fun _ => none⟩, ⟨[], [], false⟩) cs
  | .error _ => none

theorem Session.launch_run (x : Side) (guard : Session → Deed → Bool) (config : HordConfig) (cs : List Cue)
    (good : List Deed → Session → Wire → Bool)
    (h : (Session.launch x guard config cs).any (fun r => good r.1 r.2.1 r.2.2) = true) :
    ∃ u ls v w, u.Init ∧
      Run (fun o l o' => Session.Records x o l o' ∧ guard o.1 l = true) (u, ⟨[], [], false⟩) ls (v, w) ∧
      good ls v w = true := by
  unfold Session.launch at h
  split at h
  · next s hs =>
    cases hrun : Session.script x guard
        (⟨⟨⟨config, s, .fresh⟩, ⟨config, s, .fresh⟩⟩, fun _ => none⟩, ⟨[], [], false⟩) cs with
    | none => rw [hrun] at h; cases h
    | some r =>
      rw [hrun] at h
      refine ⟨_, r.1, r.2.1, r.2.2, ⟨fun y => ?_, fun _ => rfl⟩, Session.script_run cs hrun, h⟩
      cases y <;> exact ⟨rfl, 1, [], hs⟩
  · cases h

/-- A call of one step. -/
def Cue.once (x : Side) (a : Act) : List Cue := [.enter x (.act a), .act x, .leave x]

def tinyMeeting : List Cue := tinyPair.map .turn

/-- Both ends are established. -/
def Session.alive (u : Session) : Bool :=
  decide ((u.duo.get .left).phase = .up) && decide ((u.duo.get .right).phase = .up)

theorem Session.alive_phase {u : Session} (h : u.alive = true) (y : Side) : (u.duo.get y).phase ≠ .failed := by
  simp only [Session.alive, Bool.and_eq_true, decide_eq_true_eq] at h
  cases y with
  | left => rw [h.1]; nofun
  | right => rw [h.2]; nofun

/-- Three bytes, read by a call that follows one whose wait failed. Then a write fails: its
    post is refused, and the stream is closed. -/
theorem no_gap_or_duplicate_three : ∃ u ls v w, u.Init ∧
    Run (fun o l o' => Session.Records .left o l o' ∧ o.1.Safe .right l) (u, ⟨[], [], false⟩) ls (v, w) ∧
    (∀ y, (v.duo.get y).phase ≠ .failed) ∧ ls.flatMap (Deed.delivered .right) = [1, 2, 3] ∧
    (v.stream .right).peerClosed = true ∧ ls.flatMap (Deed.delivered .right) <+: w.sent := by
  obtain ⟨u, ls, v, w, hinit, hrun, hgood⟩ := Session.launch_run .left (Session.safe .right) tinyConfig
    (tinyMeeting ++ Cue.once .left (.tryWrite [1, 2, 3]) ++ Cue.once .left .tryFlushStage ++
      [.turn (.deliver .left), .enter .right (.read 16), .act .right, .act .right,
        .turn (.oracle .right [true]), .act .right, .leave .right, .enter .right (.read 16), .act .right,
        .act .right, .act .right, .act .right, .leave .right, .turn (.oracle .right [true]),
        .enter .right (.write (List.replicate 16 7)), .act .right])
    (fun ls v _ => decide (ls.flatMap (Deed.delivered .right) = [1, 2, 3]) &&
      (v.stream .right).peerClosed && v.alive) (by decide +kernel)
  simp only [Bool.and_eq_true, decide_eq_true_eq] at hgood
  obtain ⟨⟨hread, hclosed⟩, hup⟩ := hgood
  have halive := Session.alive_phase hup
  have hsafe : Run (fun o l o' => Session.Records .left o l o' ∧ o.1.Safe .right l) _ ls (v, w) :=
    hrun.mono fun _ _ _ hs => ⟨hs.1, Session.safe_iff hs.2⟩
  exact ⟨u, ls, v, w, hinit, hsafe, halive, hread, hclosed, (no_gap_or_duplicate hinit hsafe halive).1⟩

/-- The side's write has taken bytes and returned an error. -/
def Session.tookAndFailed (v : Session) (x : Side) : Bool :=
  match v.calls x with
  | some ⟨.write _, .ret (.error _), true⟩ => true
  | _ => false

theorem Session.tookAndFailed_call {v : Session} {x : Side} (h : v.tookAndFailed x = true) :
    ∃ data er, v.calls x = some ⟨.write data, .ret (.error er), true⟩ := by
  unfold Session.tookAndFailed at h
  split at h
  · next data er hcall => exact ⟨data, er, hcall⟩
  · cases h

/-- Two messages are held when a receive cannot be re-posted: the read fails, the next one
    returns the second message. And a write of two messages' bytes, one of them posted,
    fails on a poll with the stream open. -/
theorem bytes_lost_across_errors :
    (∃ u ls v w, u.Init ∧ Run (Session.Records .left) (u, ⟨[], [], false⟩) ls (v, w) ∧
      (∀ y, (v.duo.get y).phase ≠ .failed) ∧ w.sent = [1, 1, 1, 1, 1, 1, 1, 1, 2, 2, 2, 2, 2, 2, 2, 2] ∧
      ls.flatMap (Deed.delivered .right) = [2, 2, 2, 2, 2, 2, 2, 2]) ∧
    ∃ u ls v w data er, u.Init ∧ Run (Session.Records .left) (u, ⟨[], [], false⟩) ls (v, w) ∧
      (∀ y, (v.duo.get y).phase ≠ .failed) ∧
      v.calls .right = some ⟨.write data, .ret (.error er), true⟩ ∧ (v.stream .right).peerClosed = false := by
  constructor
  · obtain ⟨u, ls, v, w, hinit, hrun, hgood⟩ := Session.launch_run .left (fun _ _ => true) threeConfig
      (tinyMeeting ++ Cue.once .left (.tryWrite (List.replicate 8 1 ++ List.replicate 8 2)) ++
        [.turn (.deliver .left), .turn (.deliver .left)] ++ Cue.once .right .pump ++ Cue.once .right .pump ++
        [.turn (.oracle .right [true]), .enter .right (.read 8), .act .right, .leave .right,
          .enter .right (.read 8), .act .right, .leave .right])
      (fun ls v w => v.alive &&
        decide (w.sent = [1, 1, 1, 1, 1, 1, 1, 1, 2, 2, 2, 2, 2, 2, 2, 2]) &&
        decide (ls.flatMap (Deed.delivered .right) = [2, 2, 2, 2, 2, 2, 2, 2])) (by decide +kernel)
    simp only [Bool.and_eq_true, decide_eq_true_eq] at hgood
    obtain ⟨⟨halive, hsent⟩, hread⟩ := hgood
    exact ⟨u, ls, v, w, hinit, hrun.mono fun _ _ _ hs => hs.1, Session.alive_phase halive, hsent, hread⟩
  · obtain ⟨u, ls, v, w, hinit, hrun, hgood⟩ := Session.launch_run .left (fun _ _ => true) tinyConfig
      (tinyMeeting ++ [.enter .right (.write (List.replicate 16 7)), .act .right, .act .right,
        .turn (.oracle .right [true]), .act .right])
      (fun _ v _ => v.alive && !(v.stream .right).peerClosed && v.tookAndFailed .right) (by decide +kernel)
    simp only [Bool.and_eq_true, Bool.not_eq_true'] at hgood
    obtain ⟨⟨halive, hopen⟩, hcall⟩ := hgood
    obtain ⟨data, er, hc⟩ := Session.tookAndFailed_call hcall
    exact ⟨u, ls, v, w, data, er, hinit, hrun.mono fun _ _ _ hs => hs.1, Session.alive_phase halive, hc, hopen⟩

end Hord
