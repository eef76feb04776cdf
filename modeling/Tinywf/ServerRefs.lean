import Tinywf.ServerPlaces
import Mathlib.Data.List.Count
/-!
# ServerRefs — the references of an entry, and those of its target

`entry->ref` is the number of those that hold the entry (`ServerConn.holders`): its registration or the last result of
it, a reply on its way, and the threads that are to call `handle` or to leave.  So `release_conn` is called once, when
there is no holder left (`EntryRefs`), and the reference of the target that was the connection's is given back then
(`TargetRefs`).
-/
namespace Tinywf

/-- `reply` holds a reference of its own once all is sent. -/
def Replying.holds : Replying → Nat
  | none => 0
  | found _ => 0
  | linking _ => 1
  | closing _ => 1
  | unlocking => 0

theorem Replying.holds_of_uses {r : Replying} (h : r.uses = false) : r.holds = 0 := by
  cases r <;> first | rfl | cases h

theorem Registration.deleted_dropped (r : Registration) (b : Bool) : r.deleted b = .dropped ↔ r = .dropped := by
  cases r with
  | table op => cases b <;> simp [Registration.deleted]
  | _ => rfl

theorem Registration.stopped_dropped (r : Registration) : r.stopped = .dropped ↔ r = .dropped := by
  cases r <;> simp [Registration.stopped]

namespace ServerConn

/-- The registration, or the result of a request that its last result has left its reference to. -/
def held (c : ServerConn) : Nat := if c.registration = .dropped ∧ c.success = .none then 0 else 1

/-- The threads that hold the entry. -/
def others (c : ServerConn) : Nat := c.due.length + c.leaving + (c.relinking.isSome.toNat + c.replying.holds)

/-- The references of the entry. -/
def holders (c : ServerConn) : Nat := c.held + c.others

variable {c c' : ServerConn}

theorem held_registered (h : c.registration ≠ .dropped) : c.held = 1 := if_neg fun hd => h hd.1

theorem held_success (h : c.success ≠ .none) : c.held = 1 := if_neg fun hd => h hd.2

theorem held_dropped (h : c.registration = .dropped) (hs : c.success = .none) : c.held = 0 := if_pos ⟨h, hs⟩

theorem holders_pos (h : c.registration ≠ .dropped) : 0 < c.holders := by
  unfold holders
  rw [held_registered h]
  exact Nat.add_pos_left Nat.one_pos _

theorem held_same (h : c.registration ≠ .dropped) (h' : c'.registration ≠ .dropped) : c'.held = c.held :=
  (held_registered h').trans (held_registered h).symm

theorem held_of_dropped (h : c'.registration = .dropped ↔ c.registration = .dropped) (hs : c'.success = c.success) :
    c'.held = c.held := by
  unfold held
  rw [hs]
  exact if_congr (and_congr_left' h) rfl rfl

theorem mpollerDel_held (c : ServerConn) : c.mpollerDel.held = c.held :=
  held_of_dropped (Registration.deleted_dropped _ _) rfl

theorem owe_others (c : ServerConn) (s : Nat) (st : CsState) : (c.owe s st).others = c.others + 1 :=
  (congrArg (· + _) (Nat.succ_add ..)).trans (Nat.succ_add ..)

theorem leave_others (c : ServerConn) : c.leave.others = c.others + 1 := Nat.succ_add ..

theorem holders_same (held : c'.held = c.held) (others : c'.others = c.others) : c'.holders = c.holders := by
  unfold holders
  rw [held, others]

theorem held_success_same (h : c.success ≠ .none) {r : Registration} {s : ConnState} :
    ({ c with registration := r, state := s } : ServerConn).held = c.held :=
  (held_success (c := { c with registration := r, state := s }) h).trans (held_success h).symm

theorem Placed.replying_reads {nulls : Bool} (h : c.Placed nulls) (hu : c.replying.uses = true) :
    c.registration ≠ .dropped := fun hd => by
  have hk := (h.of_replying hu).kind
  rw [hd] at hk
  cases hk

theorem Placed.success_none {nulls : Bool} (h : c.Placed nulls) (hr : c.registration ≠ .dropped)
    (hs : c.state ≠ .success) :
    c.success = .none := by
  by_contra hne
  rcases h.of_success hne with here | here
  · exact hs here.state
  · exact hr (Registration.kind_dropped here.kind)

variable {s : Nat} {st : PrSt}

theorem requestComplete_success (h : c.state = .success) :
    c.requestComplete s =
      owe { c with ref := c.ref + 1, state := .idle, inIdle := true, success := .none } s .toreply := by
  unfold requestComplete
  rw [if_pos h]

theorem requestComplete_overtaken (h : c.state ≠ .success) :
    c.requestComplete s = owe { c with success := .none } s .toreply := by
  unfold requestComplete
  rw [if_neg h]

end ServerConn

/-- The last result of a registration finds the entry in `CONN_STATE_SUCCESS` when that of the request is still to be
handled. -/
theorem ConnOk.ended_success {nulls : Bool} {c : ServerConn} {st : PrSt} (h : ConnOk nulls c)
    (queued : c.registration = .queued .read st) (hs : c.state = .success) : c.success ≠ .none := by
  have hw : c.reading = .waiting := h.waiting fun ⟨op, hop⟩ => by
    rw [queued] at hop
    rcases hop with hop | hop <;> cases hop
  obtain ⟨m, k, place, hm, hk⟩ := h.placed.quietly (by rw [hw]; rfl)
  rw [queued] at hk
  subst hk
  rw [hs] at place
  cases place with
  | completed =>
    have hmark : (c.success != .none) = true := congrArg ConnMarks.completed hm
    exact bne_iff_ne.1 hmark

theorem ConnOk.completed_registered {nulls : Bool} {c : ServerConn} (h : ConnOk nulls c) (hs : c.success ≠ .none) :
    c.birth = .registered :=
  h.marked fun hm => hs (by simpa using congrArg ConnMarks.completed hm)

/-- `release_conn` is called when the last reference is given back. -/
structure EntryRefs (c : ServerConn) : Prop where
  before : c.birth ≠ .registered → c.due = [] ∧ c.leaving = 0 ∧ c.freeing = 0
  entered : c.birth = .entered → c.ref = 1
  unreleased : c.birth ≠ .registered → c.birth ≠ .refused → c.released = 0
  refused : c.birth = .refused → c.released ≤ 1
  counted : c.birth = .registered → c.ref = c.holders
  kept : c.birth = .registered → 0 < c.holders → c.freeing = 0 ∧ c.released = 0
  gone : c.birth = .registered → c.holders = 0 → c.freeing + c.released = 1

namespace EntryRefs

variable {c c' : ServerConn}

theorem of_registered (birth : c.birth = .registered) (counted : c.ref = c.holders)
    (kept : 0 < c.holders → c.freeing = 0 ∧ c.released = 0) (gone : c.holders = 0 → c.freeing + c.released = 1) :
    EntryRefs c where
  before hb := absurd birth hb
  entered hb := by rw [birth] at hb; cases hb
  unreleased hb := absurd birth hb
  refused hb := by rw [birth] at hb; cases hb
  counted _ := counted
  kept _ := kept
  gone _ := gone

/-- The references are as they were. -/
theorem frame (h : EntryRefs c) (birth : c'.birth = c.birth) (due : c'.due = c.due) (leaving : c'.leaving = c.leaving)
    (freeing : c'.freeing = c.freeing) (released : c'.released = c.released) (ref : c'.ref = c.ref)
    (holders : c'.holders = c.holders) : EntryRefs c' where
  before := by rw [birth, due, leaving, freeing]; exact h.before
  entered := by rw [birth, ref]; exact h.entered
  unreleased := by rw [birth, released]; exact h.unreleased
  refused := by rw [birth, released]; exact h.refused
  counted := by rw [birth, ref, holders]; exact h.counted
  kept := by rw [birth, holders, freeing, released]; exact h.kept
  gone := by rw [birth, holders, freeing, released]; exact h.gone

/-- A holder takes a reference, or hands on its own. -/
theorem moved (h : EntryRefs c) (hb : c.birth = .registered) (birth : c'.birth = c.birth) (pos : 0 < c.holders)
    (pos' : 0 < c'.holders) (freeing : c'.freeing = c.freeing) (released : c'.released = c.released)
    (ref : c'.ref + c.holders = c.ref + c'.holders) : EntryRefs c' := by
  obtain ⟨hf, hr⟩ := h.kept hb pos
  refine .of_registered (birth.trans hb) ?_ (fun _ => ⟨freeing.trans hf, released.trans hr⟩)
    fun h0 => absurd pos' (by omega)
  have := h.counted hb
  omega

/-- A thread takes a reference, counting from that of the registration. -/
theorem taken (h : EntryRefs c) (hb : c.birth = .registered) (birth : c'.birth = c.birth)
    (hr : c.registration ≠ .dropped) (hr' : c'.registration ≠ .dropped) (freeing : c'.freeing = c.freeing)
    (released : c'.released = c.released) (ref : c'.ref = c.ref + 1) (others : c'.others = c.others + 1) :
    EntryRefs c' := by
  have hholders : c'.holders = c.holders + 1 := by
    unfold ServerConn.holders
    rw [ServerConn.held_same hr hr', others]
    rfl
  refine h.moved hb birth (ServerConn.holders_pos hr) (ServerConn.holders_pos hr') freeing released ?_
  rw [ref, hholders]
  omega

/-- A holder hands its reference on. -/
theorem handed (h : EntryRefs c) (hb : c.birth = .registered) (birth : c'.birth = c.birth)
    (freeing : c'.freeing = c.freeing) (released : c'.released = c.released) (ref : c'.ref = c.ref)
    (holders : c'.holders = c.holders) : EntryRefs c' := by
  refine .of_registered (birth.trans hb) ?_ ?_ ?_ <;> rw [holders]
  · rw [ref]
    exact h.counted hb
  · rw [freeing, released]
    exact h.kept hb
  · rw [freeing, released]
    exact h.gone hb

/-- The reference of the registration is handed to a thread. -/
theorem handedOn (h : EntryRefs c) (hb : c.birth = .registered) (birth : c'.birth = c.birth) (held : c.held = 1)
    (held' : c'.held = 0) (freeing : c'.freeing = c.freeing) (released : c'.released = c.released)
    (ref : c'.ref = c.ref)
    (others : c'.others = c.others + 1) : EntryRefs c' := by
  refine h.handed hb birth freeing released ref ?_
  unfold ServerConn.holders
  rw [held, held', others]
  omega

theorem once (h : EntryRefs c) : c.released ≤ 1 := by
  by_cases hb : c.birth = .registered
  · rcases Nat.eq_zero_or_pos c.holders with h0 | hpos
    · have := h.gone hb h0
      omega
    · have := (h.kept hb hpos).2
      omega
  · by_cases hr : c.birth = .refused
    · exact h.refused hr
    · have := h.unreleased hb hr
      omega

/-- A thread gives its reference back. -/
theorem decref (h : EntryRefs c) (leaves : 0 < c.leaving) :
    EntryRefs { c with
      leaving := c.leaving - 1, ref := c.ref - 1, freeing := c.freeing + if c.ref - 1 = 0 then 1 else 0 } := by
  have hb : c.birth = .registered := by
    by_contra hb
    have := (h.before hb).2.1
    omega
  have hpos : c.holders = ({ c with leaving := c.leaving - 1 } : ServerConn).holders + 1 := by
    have hothers : c.others = ({ c with leaving := c.leaving - 1 } : ServerConn).others + 1 := by
      unfold ServerConn.others
      dsimp only
      omega
    unfold ServerConn.holders
    rw [hothers]
    rfl
  have hcount := h.counted hb
  obtain ⟨hf, hr⟩ := h.kept hb (by omega)
  refine .of_registered hb ?_ (fun hp => ⟨?_, hr⟩) fun h0 => ?_
  · have hh : ({ c with leaving := c.leaving - 1 } : ServerConn).holders + 1 = c.holders := hpos.symm
    have heq : c.ref - 1 = (({ c with leaving := c.leaving - 1 } : ServerConn).holders : Int) := by omega
    exact heq
  · have hp' : 0 < ({ c with leaving := c.leaving - 1 } : ServerConn).holders := hp
    dsimp only
    rw [hf, if_neg (by omega)]
  · have h0' : ({ c with leaving := c.leaving - 1 } : ServerConn).holders = 0 := h0
    dsimp only
    rw [hf, hr, if_pos (by omega)]

theorem release (h : EntryRefs c) (frees : 0 < c.freeing) :
    EntryRefs { c with freeing := c.freeing - 1, released := c.released + 1, dropping := c.dropping + 1 } := by
  have hb : c.birth = .registered := by
    by_contra hb
    have := (h.before hb).2.2
    omega
  have h0 : c.holders = 0 := by
    by_contra hne
    have := (h.kept hb (by omega)).1
    omega
  have hone := h.gone hb h0
  refine .of_registered hb (h.counted hb) (fun hp => ?_) fun _ => ?_
  · have hp' : 0 < c.holders := hp
    omega
  · dsimp only
    omega

theorem frame_held (h : EntryRefs c) (held : c'.held = c.held) (birth : c'.birth = c.birth) (due : c'.due = c.due)
    (leaving : c'.leaving = c.leaving) (freeing : c'.freeing = c.freeing) (released : c'.released = c.released)
    (ref : c'.ref = c.ref) (relinking : c'.relinking = c.relinking) (replying : c'.replying.holds = c.replying.holds) :
    EntryRefs c' := by
  refine h.frame birth due leaving freeing released ref ?_
  unfold ServerConn.holders ServerConn.others
  rw [held, due, leaving, relinking, replying]

end EntryRefs

open ServerConn in
/-- **Every step that takes a reference of the entry has one to count from**, and every holder gives back its own. -/
theorem ConnStep.refs {nulls : Bool} {view : ServiceView} {a : ConnAct} {c c' : ServerConn} (ok : ConnOk nulls c)
    (h : EntryRefs c) (step : ConnStep view a c c') : EntryRefs c' := by
  cases step with
  | refuse new =>
    have hb : c.birth ≠ .registered := by
      rw [new]
      nofun
    have h0 := h.unreleased hb (by rw [new]; nofun)
    exact ⟨fun _ => h.before hb, nofun, fun _ hr => absurd rfl hr, fun _ => h0.trans_le (Nat.zero_le 1), nofun, nofun,
      nofun⟩
  | enter new =>
    have hb : c.birth ≠ .registered := by
      rw [new]
      nofun
    exact ⟨fun _ => h.before hb, fun _ => rfl, fun _ _ => h.unreleased hb (by rw [new]; nofun), nofun, nofun, nofun,
      nofun⟩
  | add new =>
    have hb : c.birth ≠ .registered := by
      rw [new]
      nofun
    obtain ⟨hdue, hleaving, hfreeing⟩ := h.before hb
    obtain ⟨hdropped, hm⟩ := ok.unregistered hb
    have hrelinking : c.relinking.isSome = false := congrArg ConnMarks.relinking hm
    have hreplying : c.replying.uses = false := congrArg ConnMarks.replying hm
    have hone : ServerConn.holders
        { c with birth := .registered, registration := .table .read, checking := true } = 1 := by
      unfold holders others
      dsimp only
      rw [held_registered (by nofun), hdue, hleaving, hrelinking, Replying.holds_of_uses hreplying]
      rfl
    refine .of_registered rfl ?_ (fun _ => ⟨hfreeing, h.unreleased hb (by rw [new]; nofun)⟩) fun h0 => ?_
    · rw [hone]
      exact h.entered new
    · rw [hone] at h0
      cases h0
  | addFails new =>
    have hb : c.birth ≠ .registered := by
      rw [new]
      nofun
    have h0 := h.unreleased hb (by rw [new]; nofun)
    refine ⟨fun _ => h.before hb, nofun, fun _ hr => absurd rfl hr, fun _ => ?_, nofun, nofun, nofun⟩
    dsimp only
    rw [h0]
  | check looks =>
    split
    · exact h.frame_held (mpollerDel_held c) rfl rfl rfl rfl rfl rfl rfl rfl
    · exact h.frame rfl rfl rfl rfl rfl rfl rfl
  | read registered runs at_message => exact h.frame rfl rfl rfl rfl rfl rfl rfl
  | readFails registered runs at_message fails => exact h.frame rfl rfl rfl rfl rfl rfl rfl
  | remove ends =>
    refine h.frame_held (held_of_dropped ?_ rfl) rfl rfl rfl rfl rfl rfl rfl rfl
    dsimp only
    split
    · rename_i ht
      rw [ht]
      exact ⟨nofun, nofun⟩
    · rfl
  | look creates => exact h.frame rfl rfl rfl rfl rfl rfl rfl
  | pass blocks lock => exact h.frame rfl rfl rfl rfl rfl rfl rfl
  | take takes lock kept => exact h.frame rfl rfl rfl rfl rfl rfl rfl
  | takeFirst takes lock first => exact h.frame rfl rfl rfl rfl rfl rfl rfl
  | takeNone takes lock kept first => exact h.frame rfl rfl rfl rfl rfl rfl rfl
  | newSession taken => exact h.frame rfl rfl rfl rfl rfl rfl rfl
  | noSession taken => exact h.frame rfl rfl rfl rfl rfl rfl rfl
  | receive made => exact h.frame rfl rfl rfl rfl rfl rfl rfl
  | count counts => exact h.frame rfl rfl rfl rfl rfl rfl rfl
  | append reads => exact h.frame rfl rfl rfl rfl rfl rfl rfl
  | post done =>
    have hr : c.registration ≠ .dropped := fun hd => by
      obtain ⟨op, hop⟩ := (ok.inside done nofun).1
      rw [hd] at hop
      rcases hop with hop | hop <;> cases hop
    exact h.frame_held (held_same hr hr) rfl rfl rfl rfl rfl rfl rfl rfl
  | timeOut registered runs at_event =>
    exact h.frame_held (held_same (by rw [registered]; nofun) (by nofun)) rfl rfl rfl rfl rfl rfl rfl rfl
  | pipe deleted runs at_event =>
    exact h.frame_held (held_same (by rw [deleted]; nofun) (by nofun)) rfl rfl rfl rfl rfl rfl rfl rfl
  | write registered runs at_event ends =>
    exact h.frame_held (held_same (by rw [registered]; nofun) (by nofun)) rfl rfl rfl rfl rfl rfl rfl rfl
  | halt stopping runs at_event =>
    exact h.frame_held (held_of_dropped (Registration.stopped_dropped _) rfl) rfl rfl rfl rfl rfl rfl rfl rfl
  | dismiss replaced => exact h.frame rfl rfl rfl rfl rfl rfl rfl
  | pick queued =>
    have hs : c.success ≠ .none := by
      rw [queued]
      nofun
    exact h.frame_held ((held_success (by nofun)).trans (held_success hs).symm) rfl rfl rfl rfl rfl rfl rfl rfl
  | @handleComplete _ s picked lock =>
    have hs : c.success ≠ .none := by
      rw [picked]
      nofun
    have hb := ok.completed_registered hs
    have hheld := held_success hs
    rcases ok.placed.of_success hs with here | here
    · have hr : c.registration ≠ .dropped := fun hd => by
        have := here.kind
        rw [hd] at this
        cases this
      rw [requestComplete_success here.state]
      exact h.taken hb rfl hr hr rfl rfl rfl (owe_others ..)
    · rw [requestComplete_overtaken (by rw [here.state]; nofun)]
      exact h.handedOn hb rfl hheld (held_dropped (Registration.kind_dropped here.kind) rfl) rfl rfl rfl (owe_others ..)
  | @handleEnded _ st queued lock =>
    have hr : c.registration ≠ .dropped := by
      rw [queued]
      nofun
    have hb := ok.registered hr
    have hnone := ok.placed.success_none hr
    unfold requestEnded
    split
    case h_1 hs => exact h.frame_held (held_same hr nofun) rfl rfl rfl rfl rfl rfl rfl rfl
    case h_5 hs => exact h.frame_held (held_success_same (ok.ended_success queued hs)) rfl rfl rfl rfl rfl rfl rfl rfl
    case h_3 hs =>
      exact h.handedOn hb rfl (held_registered hr) (held_dropped rfl (hnone (by rw [hs]; nofun))) rfl rfl rfl
        (owe_others ..)
    case h_4 hs =>
      exact h.handedOn hb rfl (held_registered hr) (held_dropped rfl (hnone (by rw [hs]; nofun))) rfl rfl rfl
        (owe_others ..)
    all_goals
      rename_i hs
      exact h.handedOn hb rfl (held_registered hr) (held_dropped rfl (hnone (by rw [hs]; nofun))) rfl rfl rfl
        (leave_others ..)
  | unlink unlinking lock =>
    have hr : c.registration ≠ .dropped := by
      rw [unlinking]
      nofun
    have hs : c.state ≠ .success := fun hs => by
      rcases ok.placed.of_unlinking unlinking with here | here | ⟨-, here⟩ | here <;> rw [here.state] at hs <;> cases hs
    have hnone := ok.placed.success_none hr hs
    have hb := ok.registered hr
    unfold requestUnlinked
    split
    · exact h.handedOn hb rfl (held_registered hr) (held_dropped rfl hnone) rfl rfl rfl (leave_others ..)
    · exact h.handedOn hb rfl (held_registered hr) (held_dropped rfl hnone) rfl rfl rfl (leave_others ..)
  | pickWritten queued =>
    exact h.frame_held (held_same (by rw [queued]; nofun) nofun) rfl rfl rfl rfl rfl rfl rfl rfl
  | writtenKeep written lock =>
    have hr : c.registration ≠ .dropped := by
      rw [written]
      nofun
    refine h.taken (ok.registered hr) rfl hr nofun rfl rfl rfl ?_
    unfold others
    rw [lock.2.1]
    dsimp only [Option.isSome_none, Option.isSome_some, Bool.toNat_false, Bool.toNat_true]
    omega
  | writtenClose written =>
    have hr : c.registration ≠ .dropped := by
      rw [written]
      nofun
    have hs : c.state ≠ .success := by
      rw [(ok.placed.of_writes (by rw [written]; rfl)).state]
      nofun
    exact h.handedOn (ok.registered hr) rfl (held_registered hr) (held_dropped rfl (ok.placed.success_none hr hs))
      rfl rfl
      rfl (owe_others ..)
  | writtenFails written fails =>
    have hr : c.registration ≠ .dropped := by
      rw [written]
      nofun
    have hs : c.state ≠ .success := by
      rw [(ok.placed.of_writes (by rw [written]; rfl)).state]
      nofun
    exact h.handedOn (ok.registered hr) rfl (held_registered hr) (held_dropped rfl (ok.placed.success_none hr hs))
      rfl rfl
      rfl (owe_others ..)
  | relink relinks lock =>
    have hb := ok.marked fun hm => by
      have hnone := congrArg ConnMarks.relinking hm
      simp [relinks] at hnone
    have hothers : c.others = ({ c with relinking := none } : ServerConn).others + 1 := by
      unfold others
      rw [relinks]
      dsimp only [Option.isSome_none, Option.isSome_some, Bool.toNat_false, Bool.toNat_true]
      omega
    unfold asyncKept
    split
    · exact h.handed hb rfl rfl rfl rfl (holders_same rfl ((owe_others ..).trans hothers.symm))
    · exact h.handed hb rfl rfl rfl rfl (holders_same (mpollerDel_held c) ((owe_others ..).trans hothers.symm))
  | call owed =>
    have hb : c.birth = .registered := by
      by_contra hb
      rw [(h.before hb).1] at owed
      cases owed
    refine h.handed hb rfl rfl rfl rfl (holders_same rfl ?_)
    have hlen := List.length_erase_of_mem owed
    have hpos := List.length_pos_of_mem owed
    unfold others
    dsimp only [leave, setSession]
    omega
  | decref leaves => exact h.decref leaves
  | release frees => exact h.release frees
  | dropTarget drops => exact h.frame rfl rfl rfl rfl rfl rfl rfl
  | reply passive told life lock idle =>
    exact h.frame_held rfl rfl rfl rfl rfl rfl rfl rfl (by rw [lock.1]; rfl)
  | replyNone passive told life lock idle => exact h.frame rfl rfl rfl rfl rfl rfl rfl
  | replyFails found =>
    exact h.frame_held (mpollerDel_held c) rfl rfl rfl rfl rfl rfl rfl (by rw [found]; rfl)
  | @sync _ s keep found =>
    have hu : c.replying.uses = true := by
      rw [found]
      rfl
    have hr := ok.placed.replying_reads hu
    refine h.taken (ok.replying_registered hu) rfl hr hr rfl rfl rfl ?_
    unfold others
    rw [found]
    cases keep <;> rfl
  | @link _ s linking lock =>
    have hu : c.replying.uses = true := by
      rw [linking]
      rfl
    have hothers : c.others = ({ c with replying := .none } : ServerConn).others + 1 := by
      unfold others
      rw [linking]
      rfl
    unfold syncKept
    split
    · exact h.handed (ok.replying_registered hu) rfl rfl rfl rfl
        (holders_same rfl ((owe_others { c with replying := .none } s .success).trans hothers.symm))
    · exact h.frame_held rfl rfl rfl rfl rfl rfl rfl rfl (by rw [linking]; rfl)
  | @close _ s closing =>
    have hu : c.replying.uses = true := by
      rw [closing]
      rfl
    have hothers : c.others = ({ c with replying := .none } : ServerConn).others + 1 := by
      unfold others
      rw [closing]
      rfl
    exact h.handed (ok.replying_registered hu) rfl rfl rfl rfl
      (holders_same (mpollerDel_held c) ((owe_others { c with replying := .none } s .success).trans hothers.symm))
  | async found registered =>
    exact h.frame_held (held_same (by rw [registered]; exact Registration.noConfusion) Registration.noConfusion) rfl rfl
      rfl rfl rfl rfl rfl (by rw [found]; rfl)
  | unlock unlocking => exact h.frame_held rfl rfl rfl rfl rfl rfl rfl rfl (by rw [unlocking]; rfl)
  | asyncGone found gone => exact h.frame_held rfl rfl rfl rfl rfl rfl rfl rfl (by rw [found]; rfl)
  | destroy unused passive lock =>
    split
    · exact h.frame_held (mpollerDel_held c) rfl rfl rfl rfl rfl rfl rfl rfl
    · exact h.frame rfl rfl rfl rfl rfl rfl rfl
  | destroyReplied unused passive => exact h.frame rfl rfl rfl rfl rfl rfl rfl

/-! ## The references of the target -/

namespace ServerConn

variable {c c' : ServerConn}

/-- The reference that the connection has of its target. -/
def own (c : ServerConn) : Nat := match c.birth with
  | .absent => 0
  | .refused => 0
  | .accepted => 1
  | .entered => 1
  | .registered => 1 - c.released

/-- The references that sessions have of the target. -/
def counted (c : ServerConn) : Nat := (List.range c.seq).countP fun i => (c.sessions i).life == .counted

end ServerConn

theorem countP_range_congr {p q : Nat → Bool} {n : Nat} (h : ∀ i < n, p i = q i) :
    (List.range n).countP p = (List.range n).countP q :=
  List.countP_congr fun i hi => by rw [h i (List.mem_range.1 hi)]

/-- One of them is another than before. -/
theorem countP_range_update {p q : Nat → Bool} {i n : Nat} (hi : i < n) (h : ∀ j, j ≠ i → p j = q j) :
    (List.range n).countP p + (q i).toNat = (List.range n).countP q + (p i).toNat := by
  induction n with
  | zero => exact absurd hi (Nat.not_lt_zero i)
  | succ n ih =>
    have hlast : ∀ r : Nat → Bool, (List.range (n + 1)).countP r = (List.range n).countP r + (r n).toNat := by
      intro r
      rw [List.range_succ, List.countP_append, List.countP_singleton]
      cases r n <;> rfl
    rw [hlast, hlast]
    rcases Nat.lt_succ_iff_lt_or_eq.1 hi with hlt | rfl
    · have := ih hlt
      rw [h n (Nat.ne_of_gt hlt)]
      omega
    · rw [countP_range_congr fun j hj => h j (Nat.ne_of_lt hj)]
      omega

/-- The target is referred to by its connection, by the sessions, and by the threads that are to call `decref`. -/
structure TargetRefs (c : ServerConn) : Prop where
  counted : c.targetRef = (c.own + c.counted + c.dropping : Nat)
  ended : c.birth ≠ .absent → (c.targetEnd = .none ↔ 0 < c.targetRef)
  absent : c.birth = .absent → c.targetEnd = .none ∧ c.targetRef = 0
  made : c.reading = .made ∨ c.reading = .counting → (c.sessions c.session).life = .made ∧ c.session < c.seq
  unborn : ∀ i, c.seq ≤ i → (c.sessions i).life = .unborn
  unstarted : c.birth ≠ .registered → c.seq = 0

namespace ServerConn

variable {c c' : ServerConn}

theorem own_accepted (h : c.birth = .accepted) : c.own = 1 := by
  unfold own
  rw [h]

theorem own_entered (h : c.birth = .entered) : c.own = 1 := by
  unfold own
  rw [h]

theorem own_registered (h : c.birth = .registered) : c.own = 1 - c.released := by
  unfold own
  rw [h]

theorem counted_congr (seq : c'.seq = c.seq) (life : ∀ i, (c'.sessions i).life = (c.sessions i).life) :
    c'.counted = c.counted := by
  unfold counted
  rw [seq]
  exact countP_range_congr fun i _ => by rw [life]

theorem setSession_life (c : ServerConn) {s : Nat} {t : ServerSession} (h : t.life = (c.sessions s).life) (i : Nat) :
    ((c.setSession s t).sessions i).life = (c.sessions i).life := by
  unfold setSession
  dsimp only
  by_cases hi : i = s
  · subst hi
    rw [Function.update_self]
    exact h
  · rw [Function.update_of_ne hi]

theorem counted_newSession (c : ServerConn) :
    ServerConn.counted { c.setSession c.seq ⟨.made, 1, [], none⟩ with
      reading := .made, session := c.seq, seq := c.seq + 1 } = c.counted := by
  unfold counted
  dsimp only [setSession]
  rw [List.range_succ, List.countP_append, List.countP_singleton, Function.update_self, if_neg (by decide),
    Nat.add_zero]
  refine countP_range_congr fun i hi => ?_
  rw [Function.update_of_ne (Nat.ne_of_lt hi)]

/-- A session comes to life, or to its end. -/
theorem counted_setSession (c : ServerConn) {s : Nat} (t : ServerSession) (h : s < c.seq) :
    (c.setSession s t).counted + ((c.sessions s).life == .counted).toNat = c.counted + (t.life == .counted).toNat := by
  have hupdate := countP_range_update (p := fun i => ((c.setSession s t).sessions i).life == .counted)
    (q := fun i => (c.sessions i).life == .counted) h fun j hj => by
      dsimp only [setSession]
      rw [Function.update_of_ne hj]
  have hself : ((c.setSession s t).sessions s).life = t.life := by
    dsimp only [setSession]
    rw [Function.update_self]
  rw [hself] at hupdate
  exact hupdate

end ServerConn

namespace TargetRefs

variable {c c' : ServerConn}

/-- The references are as they were. -/
theorem frame (h : TargetRefs c) (birth : c'.birth = c.birth) (released : c'.released = c.released)
    (targetRef : c'.targetRef = c.targetRef) (dropping : c'.dropping = c.dropping)
    (targetEnd : c'.targetEnd = c.targetEnd)
    (seq : c'.seq = c.seq) (session : c'.session = c.session) (life : ∀ i, (c'.sessions i).life = (c.sessions i).life)
    (reading : c'.reading = .made ∨ c'.reading = .counting → c.reading = .made ∨ c.reading = .counting) :
    TargetRefs c' where
  counted := by
    unfold ServerConn.own
    rw [birth, released, targetRef, dropping, ServerConn.counted_congr seq life]
    exact h.counted
  ended := by rw [birth, targetEnd, targetRef]; exact h.ended
  absent := by rw [birth, targetEnd, targetRef]; exact h.absent
  made hr := by rw [session, seq, life]; exact h.made (reading hr)
  unborn i hi := by rw [life]; exact h.unborn i (seq ▸ hi)
  unstarted := by rw [birth, seq]; exact h.unstarted

/-- A reference is handed to the thread that gives it back. -/
theorem given (h : TargetRefs c) (birth : c.birth ≠ .absent) (birth' : c'.birth ≠ .absent)
    (sum : c'.own + c'.counted + c'.dropping = c.own + c.counted + c.dropping) (targetRef : c'.targetRef = c.targetRef)
    (targetEnd : c'.targetEnd = c.targetEnd)
    (made : c'.reading = .made ∨ c'.reading = .counting → (c'.sessions c'.session).life = .made ∧ c'.session < c'.seq)
    (unborn : ∀ i, c'.seq ≤ i → (c'.sessions i).life = .unborn) (unstarted : c'.birth ≠ .registered → c'.seq = 0) :
    TargetRefs c' where
  counted := by rw [targetRef, sum]; exact h.counted
  ended _ := by rw [targetEnd, targetRef]; exact h.ended birth
  absent hb := absurd hb birth'
  made := made
  unborn := unborn
  unstarted := unstarted

/-- A session ends, of those that refer to the target. -/
theorem destroyed (h : TargetRefs c) {s : Nat} (life : (c.sessions s).life = .counted) :
    TargetRefs { c.setSession s { c.sessions s with life := .destroyed } with dropping := c.dropping + 1 } := by
  have hs : s < c.seq := by
    by_contra hle
    rw [h.unborn s (by omega)] at life
    cases life
  have hb : c.birth = .registered := by
    by_contra hb
    rw [h.unstarted hb] at hs
    cases hs
  have hcount := c.counted_setSession { c.sessions s with life := .destroyed } hs
  rw [life] at hcount
  have hless : (c.setSession s { c.sessions s with life := .destroyed }).counted + 1 = c.counted := hcount
  have hb' : c.birth ≠ .absent := by
    rw [hb]
    nofun
  refine h.given hb' hb' ?_ rfl rfl (fun hr => ?_) (fun i hi => ?_) fun hb' => absurd hb hb'
  · have hsum : c.own + (c.setSession s { c.sessions s with life := .destroyed }).counted + (c.dropping + 1) =
        c.own + c.counted + c.dropping := by omega
    exact hsum
  · obtain ⟨hmade, hlt⟩ := h.made hr
    have hne : c.session ≠ s := by
      rintro rfl
      rw [life] at hmade
      cases hmade
    refine ⟨?_, hlt⟩
    dsimp only [ServerConn.setSession]
    rw [Function.update_of_ne hne]
    exact hmade
  · have hne : i ≠ s := by
      rintro rfl
      exact absurd hs (Nat.not_lt.2 hi)
    dsimp only [ServerConn.setSession]
    rw [Function.update_of_ne hne]
    exact h.unborn i hi

end TargetRefs

open ServerConn in
theorem ConnStep.target_refs {nulls : Bool} {view : ServiceView} {a : ConnAct} {c c' : ServerConn} (ok : ConnOk nulls c)
    (refs : EntryRefs c) (h : TargetRefs c) (step : ConnStep view a c c') : TargetRefs c' := by
  cases step with
  | refuse new =>
    refine h.given (by rw [new]; nofun) nofun ?_ rfl rfl h.made h.unborn fun _ => h.unstarted (by rw [new]; nofun)
    have hown := own_accepted new
    have hsum : 0 + c.counted + (c.dropping + 1) = c.own + c.counted + c.dropping := by omega
    exact hsum
  | enter new =>
    have hseq : c.seq = 0 := h.unstarted (by rw [new]; nofun)
    refine h.given (by rw [new]; nofun) nofun ?_ rfl rfl (fun hr => ?_) (fun i _ => h.unborn i (hseq ▸ Nat.zero_le i))
      fun _ => rfl
    · have hown := own_accepted new
      have hcounted : c.counted = 0 := by
        unfold counted
        rw [hseq]
        rfl
      have hsum : 1 + 0 + c.dropping = c.own + c.counted + c.dropping := by omega
      exact hsum
    · have := (h.made hr).2
      omega
  | add new =>
    have hb : c.birth ≠ .registered := by
      rw [new]
      nofun
    have h0 := refs.unreleased hb (by rw [new]; nofun)
    refine h.given (by rw [new]; nofun) nofun ?_ rfl rfl h.made h.unborn fun hb' => absurd rfl hb'
    have hown := own_entered new
    have hsum : 1 - c.released + c.counted + c.dropping = c.own + c.counted + c.dropping := by omega
    exact hsum
  | addFails new =>
    have hb : c.birth ≠ .registered := by
      rw [new]
      nofun
    refine h.given (by rw [new]; nofun) nofun ?_ rfl rfl h.made h.unborn fun _ => h.unstarted hb
    have hown := own_entered new
    have hsum : 0 + c.counted + (c.dropping + 1) = c.own + c.counted + c.dropping := by omega
    exact hsum
  | check looks =>
    split
    · exact h.frame rfl rfl rfl rfl rfl rfl rfl (fun _ => rfl) id
    · exact h.frame rfl rfl rfl rfl rfl rfl rfl (fun _ => rfl) id
  | read registered runs at_message => exact h.frame rfl rfl rfl rfl rfl rfl rfl (fun _ => rfl) nofun
  | readFails registered runs at_message fails => exact h.frame rfl rfl rfl rfl rfl rfl rfl (fun _ => rfl) nofun
  | remove ends => exact h.frame rfl rfl rfl rfl rfl rfl rfl (fun _ => rfl) nofun
  | look creates =>
    refine h.frame rfl rfl rfl rfl rfl rfl rfl (fun _ => rfl) ?_
    dsimp only
    split <;> nofun
  | pass blocks lock => exact h.frame rfl rfl rfl rfl rfl rfl rfl (fun _ => rfl) nofun
  | take takes lock kept => exact h.frame rfl rfl rfl rfl rfl rfl rfl (fun _ => rfl) nofun
  | takeFirst takes lock first => exact h.frame rfl rfl rfl rfl rfl rfl rfl (fun _ => rfl) nofun
  | takeNone takes lock kept first => exact h.frame rfl rfl rfl rfl rfl rfl rfl (fun _ => rfl) nofun
  | newSession taken =>
    have hb := ok.polled_registered (ok.inside taken nofun).1
    have hb' : c.birth ≠ .absent := by
      rw [hb]
      nofun
    refine h.given hb' hb' ?_ rfl rfl (fun _ => ⟨?_, Nat.lt_succ_self _⟩) (fun i hi => ?_) fun hb' => absurd hb hb'
    · rw [counted_newSession]
      rfl
    · dsimp only [setSession]
      rw [Function.update_self]
    · dsimp only [setSession]
      rw [Function.update_of_ne (Nat.ne_of_gt hi)]
      exact h.unborn i (Nat.le_of_succ_le hi)
  | noSession taken => exact h.frame rfl rfl rfl rfl rfl rfl rfl (fun _ => rfl) nofun
  | receive made => exact h.frame rfl rfl rfl rfl rfl rfl rfl (fun _ => rfl) fun _ => .inl made
  | count counts =>
    have hr : c.registration ≠ .dropped := fun hd => by
      obtain ⟨op, hop⟩ := (ok.inside counts nofun).1
      rw [hd] at hop
      rcases hop with hop | hop <;> cases hop
    have hb := ok.registered hr
    obtain ⟨hmade, hlt⟩ := h.made (.inr counts)
    have hcount := c.counted_setSession { c.sessions c.session with life := .counted } hlt
    rw [hmade] at hcount
    have hmore : (c.setSession c.session { c.sessions c.session with life := .counted }).counted = c.counted + 1 :=
      hcount
    have hsum := h.counted
    have hown := own_registered hb
    have h0 := (refs.kept hb (holders_pos hr)).2
    have hend := (h.ended (by rw [hb]; nofun)).2 (by omega)
    refine ⟨?_, fun _ => ⟨fun _ => ?_, fun _ => hend⟩, fun hb' => ?_, ?_, fun i hi => ?_, fun hb' => absurd hb hb'⟩
    · have hsum' : c.targetRef + 1 = (c.own + (c.setSession c.session
          { c.sessions c.session with life := .counted }).counted + c.dropping : Nat) := by omega
      exact hsum'
    · have hpos : 0 < c.targetRef + 1 := by omega
      exact hpos
    · exact absurd (hb.symm.trans hb') nofun
    · dsimp only
      split <;> nofun
    · have hne : i ≠ c.session := by
        rintro rfl
        exact absurd hlt (Nat.not_lt.2 hi)
      dsimp only [setSession]
      rw [Function.update_of_ne hne]
      exact h.unborn i hi
  | append reads => exact h.frame rfl rfl rfl rfl rfl rfl rfl (fun _ => rfl) nofun
  | post done => exact h.frame rfl rfl rfl rfl rfl rfl rfl (fun _ => rfl) nofun
  | timeOut registered runs at_event => exact h.frame rfl rfl rfl rfl rfl rfl rfl (fun _ => rfl) nofun
  | pipe deleted runs at_event => exact h.frame rfl rfl rfl rfl rfl rfl rfl (fun _ => rfl) nofun
  | write registered runs at_event ends => exact h.frame rfl rfl rfl rfl rfl rfl rfl (fun _ => rfl) id
  | halt stopping runs at_event => exact h.frame rfl rfl rfl rfl rfl rfl rfl (fun _ => rfl) nofun
  | dismiss replaced => exact h.frame rfl rfl rfl rfl rfl rfl rfl (fun _ => rfl) id
  | pick queued => exact h.frame rfl rfl rfl rfl rfl rfl rfl (fun _ => rfl) id
  | handleComplete picked lock =>
    unfold requestComplete
    split
    · exact h.frame rfl rfl rfl rfl rfl rfl rfl (fun _ => rfl) id
    · exact h.frame rfl rfl rfl rfl rfl rfl rfl (fun _ => rfl) id
  | handleEnded queued lock =>
    unfold requestEnded
    split <;> exact h.frame rfl rfl rfl rfl rfl rfl rfl (fun _ => rfl) id
  | unlink unlinking lock =>
    unfold requestUnlinked
    split <;> exact h.frame rfl rfl rfl rfl rfl rfl rfl (fun _ => rfl) id
  | pickWritten queued => exact h.frame rfl rfl rfl rfl rfl rfl rfl (fun _ => rfl) id
  | writtenKeep written lock => exact h.frame rfl rfl rfl rfl rfl rfl rfl (fun _ => rfl) id
  | writtenClose written => exact h.frame rfl rfl rfl rfl rfl rfl rfl (fun _ => rfl) id
  | writtenFails written fails => exact h.frame rfl rfl rfl rfl rfl rfl rfl (fun _ => rfl) id
  | relink relinks lock =>
    unfold asyncKept
    split <;> exact h.frame rfl rfl rfl rfl rfl rfl rfl (fun _ => rfl) id
  | call owed => exact h.frame rfl rfl rfl rfl rfl rfl rfl (setSession_life c rfl) id
  | decref leaves => exact h.frame rfl rfl rfl rfl rfl rfl rfl (fun _ => rfl) id
  | release frees =>
    have hb : c.birth = .registered := by
      by_contra hb
      have := (refs.before hb).2.2
      omega
    have h0 : c.released = 0 := by
      rcases Nat.eq_zero_or_pos c.holders with hz | hpos
      · have := refs.gone hb hz
        omega
      · exact (refs.kept hb hpos).2
    have hb' : c.birth ≠ .absent := by
      rw [hb]
      nofun
    refine h.given hb' hb' ?_ rfl rfl h.made h.unborn h.unstarted
    unfold own
    dsimp only
    rw [hb, h0]
    have hsum : 1 - (0 + 1) + c.counted + (c.dropping + 1) = 1 - 0 + c.counted + c.dropping := by omega
    exact hsum
  | dropTarget drops =>
    have hsum := h.counted
    have hb : c.birth ≠ .absent := fun hb => by
      have := (h.absent hb).2
      omega
    have hend := (h.ended hb).2 (by omega)
    refine ⟨?_, fun _ => ?_, fun hb' => absurd hb' hb, h.made, h.unborn, h.unstarted⟩
    · have hsum' : c.targetRef - 1 = (c.own + c.counted + (c.dropping - 1) : Nat) := by omega
      exact hsum'
    · dsimp only
      split
      · rename_i hz
        exact ⟨nofun, fun hpos => absurd hpos (by omega)⟩
      · rename_i hz
        exact ⟨fun _ => by omega, fun _ => hend⟩
  | reply passive told life lock idle => exact h.frame rfl rfl rfl rfl rfl rfl rfl (setSession_life c rfl) id
  | replyNone passive told life lock idle => exact h.frame rfl rfl rfl rfl rfl rfl rfl (setSession_life c rfl) id
  | replyFails found => exact h.frame rfl rfl rfl rfl rfl rfl rfl (setSession_life c rfl) id
  | sync found => exact h.frame rfl rfl rfl rfl rfl rfl rfl (fun _ => rfl) id
  | link linking lock =>
    unfold syncKept
    split
    · exact h.frame rfl rfl rfl rfl rfl rfl rfl (setSession_life c rfl) id
    · exact h.frame rfl rfl rfl rfl rfl rfl rfl (fun _ => rfl) id
  | close closing => exact h.frame rfl rfl rfl rfl rfl rfl rfl (setSession_life c rfl) id
  | async found registered => exact h.frame rfl rfl rfl rfl rfl rfl rfl (setSession_life c rfl) id
  | unlock unlocking => exact h.frame rfl rfl rfl rfl rfl rfl rfl (fun _ => rfl) id
  | asyncGone found gone => exact h.frame rfl rfl rfl rfl rfl rfl rfl (setSession_life c rfl) id
  | destroy unused passive lock =>
    split
    · exact (@TargetRefs.frame _ c.mpollerDel h rfl rfl rfl rfl rfl rfl rfl (fun _ => rfl) id).destroyed unused.1
    · exact h.destroyed unused.1
  | destroyReplied unused passive => exact h.destroyed unused.1

/-! ## The reference that a target has of its service -/

/-- The target has a reference of its service. -/
def ServerConn.Refers (c : ServerConn) : Prop := c.birth ≠ .absent ∧ (c.targetEnd = .none ∨ c.targetEnd = .unref)

theorem TargetRefs.ended_again {c : ServerConn} {e : TargetEnd} (h : TargetRefs c) (before : c.targetEnd ≠ .none)
    (after : e ≠ .none) : TargetRefs { c with targetEnd := e } where
  counted := h.counted
  ended hb := ⟨fun he => absurd he after, fun hpos => absurd ((h.ended hb).2 hpos) before⟩
  absent hb := absurd (h.absent hb).1 before
  made := h.made
  unborn := h.unborn
  unstarted := h.unstarted

open ServerConn in
/-- No connection comes to be, or ends, by itself. -/
theorem ConnStep.absent_iff {view : ServiceView} {a : ConnAct} {c c' : ServerConn} (step : ConnStep view a c c') :
    c'.birth = .absent ↔ c.birth = .absent := by
  cases step with
  | refuse new => exact ⟨nofun, fun hb => absurd (new.symm.trans hb) nofun⟩
  | enter new => exact ⟨nofun, fun hb => absurd (new.symm.trans hb) nofun⟩
  | add new => exact ⟨nofun, fun hb => absurd (new.symm.trans hb) nofun⟩
  | addFails new => exact ⟨nofun, fun hb => absurd (new.symm.trans hb) nofun⟩
  | check looks => split <;> rfl
  | handleComplete picked lock =>
    unfold requestComplete
    split <;> rfl
  | handleEnded queued lock =>
    unfold requestEnded
    split <;> rfl
  | unlink unlinking lock =>
    unfold requestUnlinked
    split <;> rfl
  | relink relinks lock =>
    unfold asyncKept
    split <;> rfl
  | link linking lock =>
    unfold syncKept
    split <;> rfl
  | destroy unused passive lock => split <;> rfl
  | _ => rfl

open ServerConn in
/-- Its target may come to its end. -/
theorem ConnStep.targetEnd_eq {view : ServiceView} {a : ConnAct} {c c' : ServerConn} (h : TargetRefs c)
    (step : ConnStep view a c c') :
    c'.targetEnd = c.targetEnd ∨ c.targetEnd = .none ∧ c'.targetEnd = .unref := by
  cases step with
  | dropTarget drops =>
    have hsum := h.counted
    have hb : c.birth ≠ .absent := fun hb => by
      have := (h.absent hb).2
      omega
    dsimp only
    split
    · exact .inr ⟨(h.ended hb).2 (by omega), rfl⟩
    · exact .inl rfl
  | check looks => split <;> exact .inl rfl
  | handleComplete picked lock =>
    unfold requestComplete
    split <;> exact .inl rfl
  | handleEnded queued lock =>
    unfold requestEnded
    split <;> exact .inl rfl
  | unlink unlinking lock =>
    unfold requestUnlinked
    split <;> exact .inl rfl
  | relink relinks lock =>
    unfold asyncKept
    split <;> exact .inl rfl
  | link linking lock =>
    unfold syncKept
    split <;> exact .inl rfl
  | destroy unused passive lock => split <;> exact .inl rfl
  | _ => exact .inl rfl

theorem ConnStep.refers_iff {view : ServiceView} {a : ConnAct} {c c' : ServerConn} (h : TargetRefs c)
    (step : ConnStep view a c c') : c'.Refers ↔ c.Refers := by
  unfold ServerConn.Refers
  refine and_congr (not_congr step.absent_iff) ?_
  rcases step.targetEnd_eq h with he | ⟨he, he'⟩
  · rw [he]
  · rw [he, he']
    exact ⟨fun _ => .inl rfl, fun _ => .inr rfl⟩

end Tinywf
