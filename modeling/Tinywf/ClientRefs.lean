import Tinywf.ClientPlaces
/-!
# ClientRefs — the references of an entry that was requested

`entry->ref` is the number of those that hold the entry (`ClientConn.holders`): its registration or the result of its
reply, and the threads that are to call `target->release` or `session->handle` or to leave.  `handle_connect_result` calls
`release_conn` without giving its reference back, and is the only one to hold the entry then.  A request that holds
`entry->mutex` is no holder: the registration is there as long as it needs the entry, or a thread that waits for it.
-/
namespace Tinywf

namespace ClientConn

/-- What threads are to call. -/
def calls (c : ClientConn) : List ClientCall := c.releasing ++ c.due

/-- The registration, or the result of a reply that its last result has left its reference to. -/
def held (c : ClientConn) : Nat := if c.registration = .dropped ∧ c.success = .none then 0 else 1

/-- The threads that hold the entry. -/
def others (c : ClientConn) : Nat := c.calls.length + (c.waiting + c.leaving)

/-- The references of the entry. -/
def holders (c : ClientConn) : Nat := c.held + c.others

/-- A thread is to lock `entry->mutex` before it gives back its reference. -/
def Waits (c : ClientConn) : Prop := 0 < c.waiting ∨ ∃ call ∈ c.calls, call.finish = .wait

variable {c c' : ClientConn}

theorem held_registered (h : c.registration ≠ .dropped) : c.held = 1 := if_neg fun hd => h hd.1

theorem held_success (h : c.success ≠ .none) : c.held = 1 := if_neg fun hd => h hd.2

theorem held_dropped (h : c.registration = .dropped) (hs : c.success = .none) : c.held = 0 := if_pos ⟨h, hs⟩

theorem deleted_dropped {r : ClientReg} {b : Bool} : r.deleted b = .dropped ↔ r = .dropped := by
  rw [← ClientReg.kind_dropped, ClientReg.deleted_kind, ClientReg.kind_dropped]

theorem calls_pos {call : ClientCall} (h : call ∈ c.calls) : 0 < c.calls.length := List.length_pos_of_mem h

theorem calls_eq (releasing : c'.releasing = c.releasing) (due : c'.due = c.due) : c'.calls = c.calls := by
  unfold calls
  rw [releasing, due]

theorem others_tells (c : ClientConn) (s : Nat) (st : CsState) (f : Finish) : (c.tells s st f).others = c.others + 1 := by
  show c.calls.length + 1 + (c.waiting + c.leaving) = c.calls.length + (c.waiting + c.leaving) + 1
  omega

theorem others_leave (c : ClientConn) : c.leave.others = c.others + 1 := by
  show c.calls.length + (c.waiting + (c.leaving + 1)) = c.calls.length + (c.waiting + c.leaving) + 1
  omega

end ClientConn

open ClientConn

/-- `release_conn` is called when the last reference is given back. -/
structure ClientRefs (c : ClientConn) : Prop where
  before : c.birth ≠ .registered → c.others = 0 ∧ c.freeing = 0
  launched : c.birth = .launched → c.ref = 1
  unreleased : c.birth ≠ .registered → c.birth ≠ .refused → c.released = 0
  refused : c.birth = .refused → c.released ≤ 1
  begins : c.registration.kind = .connects → c.others = 0
  kept : c.birth = .registered → 0 < c.holders → c.ref = c.holders ∧ c.freeing = 0 ∧ c.released = 0
  gone : c.birth = .registered → c.holders = 0 → c.freeing + c.released = 1
  last : ∀ call ∈ c.calls, call.finish = .free → c.holders = 1
  locked : c.calling ≠ .none → c.registration ≠ .dropped ∨ c.Waits

namespace ClientRefs

variable {c c' : ClientConn}

theorem of_registered (birth : c.birth = .registered) (begins : c.registration.kind = .connects → c.others = 0)
    (kept : 0 < c.holders → c.ref = c.holders ∧ c.freeing = 0 ∧ c.released = 0)
    (gone : c.holders = 0 → c.freeing + c.released = 1)
    (last : ∀ call ∈ c.calls, call.finish = .free → c.holders = 1)
    (locked : c.calling ≠ .none → c.registration ≠ .dropped ∨ c.Waits) : ClientRefs c where
  before hb := absurd birth hb
  launched hb := absurd (birth.symm.trans hb) (by decide)
  unreleased hb := absurd birth hb
  refused hb := absurd (birth.symm.trans hb) (by decide)
  begins := begins
  kept _ := kept
  gone _ := gone
  last := last
  locked := locked

theorem unborn (birth : c.birth ≠ .registered) (others : c.others = 0) (freeing : c.freeing = 0)
    (launched : c.birth = .launched → c.ref = 1) (unreleased : c.birth ≠ .refused → c.released = 0)
    (refused : c.birth = .refused → c.released ≤ 1) (calling : c.calling = .none) : ClientRefs c where
  before _ := ⟨others, freeing⟩
  launched := launched
  unreleased _ := unreleased
  refused := refused
  begins _ := others
  kept hb := absurd hb birth
  gone hb := absurd hb birth
  last call hc := by
    have := calls_pos hc
    unfold ClientConn.others at others
    omega
  locked hc := absurd calling hc

/-- As many hold the entry as before. -/
theorem same (h : ClientRefs c) (birth : c'.birth = c.birth) (held : c'.held = c.held) (others : c'.others = c.others)
    (calls : ∀ call ∈ c'.calls, call ∈ c.calls) (freeing : c'.freeing = c.freeing)
    (released : c'.released = c.released)
    (ref : c'.ref = c.ref) (begins : c'.registration.kind = .connects → c.registration.kind = .connects)
    (locked : c'.calling ≠ .none → c'.registration ≠ .dropped ∨ c'.Waits) : ClientRefs c' := by
  have hholders : c'.holders = c.holders := by
    unfold holders
    rw [held, others]
  refine ⟨?_, ?_, ?_, ?_, fun hk => others.trans (h.begins (begins hk)), ?_, ?_, fun call hc hf => ?_, locked⟩
  · rw [birth, others, freeing]
    exact h.before
  · rw [birth, ref]
    exact h.launched
  · rw [birth, released]
    exact h.unreleased
  · rw [birth, released]
    exact h.refused
  · rw [birth, hholders, ref, freeing, released]
    exact h.kept
  · rw [birth, hholders, freeing, released]
    exact h.gone
  · rw [hholders]
    exact h.last call (calls call hc) hf

/-- The references are as they were. -/
theorem frame (h : ClientRefs c) (birth : c'.birth = c.birth) (releasing : c'.releasing = c.releasing)
    (due : c'.due = c.due) (waiting : c'.waiting = c.waiting) (leaving : c'.leaving = c.leaving)
    (freeing : c'.freeing = c.freeing) (released : c'.released = c.released) (ref : c'.ref = c.ref)
    (held : c'.held = c.held) (begins : c'.registration.kind = .connects → c.registration.kind = .connects)
    (locked : c'.calling ≠ .none → c'.registration = .dropped → c.calling ≠ .none ∧ c.registration = .dropped) :
    ClientRefs c' := by
  have hcalls := calls_eq releasing due
  have hothers : c'.others = c.others := by
    unfold others
    rw [hcalls, waiting, leaving]
  refine h.same birth held hothers (by rw [hcalls]; exact fun _ => id) freeing released ref begins fun hc => ?_
  by_cases hr : c'.registration = .dropped
  · obtain ⟨hc, hd⟩ := locked hc hr
    refine .inr ?_
    unfold Waits
    rw [waiting, hcalls]
    exact (h.locked hc).resolve_left (not_not_intro hd)
  · exact .inl hr

/-- The connection is registered still. -/
theorem going (h : ClientRefs c) (hr : c.registration ≠ .dropped) (hr' : c'.registration ≠ .dropped)
    (birth : c'.birth = c.birth) (releasing : c'.releasing = c.releasing) (due : c'.due = c.due)
    (waiting : c'.waiting = c.waiting) (leaving : c'.leaving = c.leaving) (freeing : c'.freeing = c.freeing)
    (released : c'.released = c.released) (ref : c'.ref = c.ref)
    (begins : c'.registration.kind = .connects → c.registration.kind = .connects) : ClientRefs c' :=
  h.frame birth releasing due waiting leaving freeing released ref ((held_registered hr').trans (held_registered hr).symm)
    begins fun _ hd => absurd hd hr'

/-- The reference of the registration is handed on to a thread. -/
theorem handed (h : ClientRefs c) (hb : c.birth = .registered) (held : c.held = 1) (held' : c'.held = 0)
    (others : c'.others = c.others + 1) (birth : c'.birth = c.birth) (freeing : c'.freeing = c.freeing)
    (released : c'.released = c.released) (ref : c'.ref = c.ref) (registration : c'.registration = .dropped)
    (last : ∀ call ∈ c'.calls, call ∈ c.calls ∨ (call.finish = .free → c.others = 0))
    (locked : c'.calling ≠ .none → c'.Waits) : ClientRefs c' := by
  have hholders : c'.holders = c.holders := by
    unfold holders
    omega
  refine .of_registered (birth.trans hb) (fun hk => ?_) ?_ ?_ (fun call hc hf => ?_) fun hc => .inr (locked hc)
  · rw [registration] at hk
    cases hk
  · rw [hholders, ref, freeing, released]
    exact h.kept hb
  · rw [hholders, freeing, released]
    exact h.gone hb
  · rw [hholders]
    rcases last call hc with hc | hc
    · exact h.last call hc hf
    · have := hc hf
      unfold holders
      omega

/-- A thread takes a reference, counting from that of the registration. -/
theorem taken (h : ClientRefs c) (hb : c.birth = .registered) (hr : c.registration ≠ .dropped)
    (hk : c.registration.kind ≠ .connects) (birth : c'.birth = c.birth) (registration : c'.registration = c.registration)
    (freeing : c'.freeing = c.freeing) (released : c'.released = c.released) (ref : c'.ref = c.ref + 1)
    (others : c'.others = c.others + 1) (last : ∀ call ∈ c'.calls, call.finish ≠ .free) : ClientRefs c' := by
  have hr' : c'.registration ≠ .dropped := by rwa [registration]
  have hholders : c'.holders = c.holders + 1 := by
    unfold holders
    rw [held_registered hr, held_registered hr', others]
    rfl
  obtain ⟨href, hfreeing, hreleased⟩ := h.kept hb (by unfold holders; rw [held_registered hr]; omega)
  refine .of_registered (birth.trans hb) (fun hc => absurd (by rw [← registration]; exact hc) hk)
    (fun _ => ⟨?_, freeing.trans hfreeing, released.trans hreleased⟩) (fun h0 => ?_)
    (fun call hc hf => absurd hf (last call hc)) fun _ => .inl hr'
  · rw [ref, hholders, href]
    rfl
  · omega

theorem once (h : ClientRefs c) : c.released ≤ 1 := by
  by_cases hb : c.birth = .registered
  · rcases Nat.eq_zero_or_pos c.holders with h0 | hpos
    · have := h.gone hb h0
      omega
    · have := (h.kept hb hpos).2.2
      omega
  · by_cases hr : c.birth = .refused
    · exact h.refused hr
    · have := h.unreleased hb hr
      omega

theorem registered (h : ClientRefs c) (pos : 0 < c.others) : c.birth = .registered := by
  by_contra hb
  have := (h.before hb).1
  omega

theorem uncalled (h : ClientRefs c) (birth : c.birth ≠ .registered) : c.calls = [] :=
  List.eq_nil_of_length_eq_zero (Nat.add_eq_zero_iff.1 (h.before birth).1).1

/-- The thread that calls `release_conn` without giving its reference back is the only one to hold the entry. -/
theorem alone (h : ClientRefs c) {call : ClientCall} (hc : call ∈ c.calls) (hf : call.finish = .free) :
    c.held = 0 ∧ c.calls.length = 1 ∧ c.waiting = 0 ∧ c.leaving = 0 := by
  have hone := h.last call hc hf
  have hlen := calls_pos hc
  unfold holders others at hone
  omega

/-- A thread does what it does behind `session->handle`. -/
theorem called (h : ClientRefs c) {call : ClientCall} (owed : call ∈ c.due) {s : Nat → ClientSession} :
    ClientRefs (ClientConn.finish { c with sessions := s, due := c.due.erase call } call.finish) := by
  have hmem : call ∈ c.calls := List.mem_append_right _ owed
  have hdue : (c.due.erase call).length + 1 = c.due.length := by
    rw [List.length_erase_of_mem owed]
    have := List.length_pos_of_mem owed
    omega
  have hothers : c.others = c.releasing.length + c.due.length + (c.waiting + c.leaving) := by
    unfold others calls
    rw [List.length_append]
  have hb := h.registered (by omega)
  have hsub : ∀ call' ∈ c.releasing ++ c.due.erase call, call' ∈ c.calls := fun call' hc =>
    ((List.erase_sublist (a := call) (l := c.due)).append_left c.releasing).subset hc
  have hpos : 0 < c.holders := by
    unfold holders
    omega
  -- what is left of those that wait
  have hleft : c.Waits → call.finish ≠ .wait →
      0 < c.waiting ∨ ∃ call' ∈ c.releasing ++ c.due.erase call, call'.finish = .wait := by
    rintro (hw | ⟨call', hc, hf⟩) hne
    · exact .inl hw
    · refine .inr ⟨call', ?_, hf⟩
      rcases List.mem_append.1 hc with hc | hc
      · exact List.mem_append_left _ hc
      · refine List.mem_append_right _ ((List.mem_erase_of_ne ?_).2 hc)
        rintro rfl
        exact hne hf
  cases hf : call.finish with
  | decref =>
    have hsame : (ClientConn.finish { c with sessions := s, due := c.due.erase call } .decref).others = c.others := by
      show (c.releasing ++ c.due.erase call).length + (c.waiting + (c.leaving + 1)) = _
      rw [List.length_append]
      omega
    refine h.same rfl rfl hsame hsub rfl rfl rfl id fun hc => ?_
    exact (h.locked hc).imp_right fun hw => hleft hw (by rw [hf]; decide)
  | wait =>
    have hsame : (ClientConn.finish { c with sessions := s, due := c.due.erase call } .wait).others = c.others := by
      show (c.releasing ++ c.due.erase call).length + (c.waiting + 1 + c.leaving) = _
      rw [List.length_append]
      omega
    exact h.same rfl rfl hsame hsub rfl rfl rfl id fun _ => .inr (.inl (Nat.succ_pos _))
  | free =>
    obtain ⟨hheld, hcalls, hwaiting, hleaving⟩ := h.alone hmem hf
    obtain ⟨-, hfreeing, hreleased⟩ := h.kept hb hpos
    have hlength : c.calls.length = c.releasing.length + c.due.length := List.length_append
    have hothers' : (ClientConn.finish { c with sessions := s, due := c.due.erase call } .free).others = 0 := by
      show (c.releasing ++ c.due.erase call).length + (c.waiting + c.leaving) = 0
      rw [List.length_append]
      omega
    have hholders : (ClientConn.finish { c with sessions := s, due := c.due.erase call } .free).holders = 0 := by
      show c.held + _ = 0
      rw [hothers', hheld]
    refine .of_registered hb (fun _ => hothers') (fun hp => absurd hp (by omega)) (fun _ => ?_) (fun call' hc => ?_)
      fun hc => ?_
    · show c.freeing + 1 + c.released = 1
      omega
    · have hlen := calls_pos hc
      unfold others at hothers'
      omega
    · refine (h.locked hc).imp_right fun hw => ?_
      rcases hleft hw (by rw [hf]; decide) with hw | ⟨call', hc', -⟩
      · exact .inl hw
      · have hlen := List.length_pos_of_mem hc'
        rw [List.length_append] at hlen
        omega

/-- A thread gives its reference back. -/
theorem decref (h : ClientRefs c) (leaves : 0 < c.leaving) :
    ClientRefs { c with
      leaving := c.leaving - 1, ref := c.ref - 1, freeing := c.freeing + if c.ref - 1 = 0 then 1 else 0 } := by
  have hothers : ({ c with leaving := c.leaving - 1 } : ClientConn).others + 1 = c.others := by
    show c.calls.length + (c.waiting + (c.leaving - 1)) + 1 = c.calls.length + (c.waiting + c.leaving)
    omega
  have hb := h.registered (by omega)
  have hholders : ({ c with leaving := c.leaving - 1 } : ClientConn).holders + 1 = c.holders := by
    show c.held + _ + 1 = c.held + _
    omega
  obtain ⟨href, hfreeing, hreleased⟩ := h.kept hb (by omega)
  refine .of_registered hb (fun hk => ?_) (fun hp => ⟨?_, ?_, hreleased⟩) (fun h0 => ?_) (fun call hc hf => ?_) h.locked
  · have := h.begins hk
    omega
  · show c.ref - 1 = (({ c with leaving := c.leaving - 1 } : ClientConn).holders : Int)
    omega
  · have hp' : 0 < ({ c with leaving := c.leaving - 1 } : ClientConn).holders := hp
    dsimp only
    rw [hfreeing, if_neg (by omega)]
  · have h0' : ({ c with leaving := c.leaving - 1 } : ClientConn).holders = 0 := h0
    dsimp only
    rw [hfreeing, hreleased, if_pos (by omega)]
  · have := (h.alone hc hf).2.2.2
    omega

theorem freed (h : ClientRefs c) (frees : 0 < c.freeing) :
    ClientRefs { c with freeing := c.freeing - 1, released := c.released + 1 } := by
  have hb : c.birth = .registered := by
    by_contra hb
    have := (h.before hb).2
    omega
  have h0 : c.holders = 0 := by
    by_contra hne
    have := (h.kept hb (by omega)).2.1
    omega
  have hone := h.gone hb h0
  refine .of_registered hb h.begins (fun hp => ?_) (fun _ => ?_) h.last h.locked
  · have hp' : 0 < c.holders := hp
    omega
  · dsimp only
    omega

end ClientRefs

/-- A result that is not the connection's first finds no thread of it. -/
theorem ClientOk.success_none {c : ClientConn} (h : ClientOk c) (hr : c.registration ≠ .dropped)
    (hs : c.state ≠ .success) : c.success = .none := by
  by_contra hne
  rcases h.placed.of_success hne with here | here
  · exact hs here.state
  · exact hr (ClientReg.kind_dropped.1 here.kind)

/-- The last result of a registration finds the entry in `CONN_STATE_SUCCESS` when that of the reply is still to be
handled. -/
theorem ClientOk.ended_success {c : ClientConn} {st : PrSt} (h : ClientOk c) (queued : c.registration = .queued .read st)
    (hs : c.state = .success) : c.success ≠ .none := by
  have hw := h.waiting (by simp [ClientReg.Polled, queued])
  obtain ⟨s, m, k, p, place, here⟩ := h.placed
  obtain rfl : s = .success := here.state.symm.trans hs
  obtain rfl : p = .quiet := here.phase.symm.trans (by rw [hw]; rfl)
  cases place with
  | completed =>
    have hm := here.marks
    simp at hm
    exact hm.2.1
  | ended state => exact absurd rfl state

namespace ClientRefs

variable {c c' : ClientConn} {s : Nat} {st : PrSt}

/-- `handle_incoming_reply`, for a complete reply. -/
theorem replyComplete (ok : ClientOk c) (h : ClientRefs c) (picked : c.success ≠ .none) :
    ClientRefs (c.replyComplete s) := by
  have hb := ok.success_registered picked
  have hlast : ∀ call ∈ c.calls, call.finish ≠ .free := fun call hc hf =>
    absurd ((held_success picked).symm.trans (h.alone hc hf).1) (by decide)
  unfold ClientConn.replyComplete
  rcases ok.placed.of_success picked with here | here
  · rw [if_pos here.state]
    have hr : c.registration ≠ .dropped := fun hd => by
      have := here.kind
      rw [hd] at this
      cases this
    have hk : c.registration.kind ≠ .connects := by
      rw [here.kind]
      decide
    have hfree : ∀ call ∈ (c.tells s .success .decref).calls, call.finish ≠ .free := fun call hc => by
      rcases List.mem_cons.1 hc with rfl | hc
      · exact (by decide : Finish.decref ≠ .free)
      · exact hlast call hc
    split
    · exact h.taken hb hr hk rfl rfl rfl rfl rfl (others_tells c s .success .decref) hfree
    · exact h.taken hb hr hk rfl rfl rfl rfl rfl (others_tells c s .success .decref) hfree
  · rw [if_neg (by rw [here.state]; decide)]
    have hd := ClientReg.kind_dropped.1 here.kind
    refine h.handed hb (held_success picked) (held_dropped hd rfl) (others_tells c s .success .decref) rfl rfl rfl rfl hd
      (fun call hc => ?_) fun hc => ?_
    · rcases List.mem_cons.1 hc with rfl | hc
      · exact .inr fun hf => by cases hf
      · exact .inl hc
    · exact ((h.locked hc).resolve_left (not_not_intro hd)).imp_right
        fun ⟨call, hc, hf⟩ => ⟨call, List.mem_cons_of_mem _ hc, hf⟩

/-- A thread is to call `handle`, with the reference of the registration. -/
theorem told (h : ClientRefs c) (hb : c.birth = .registered) (hr : c.registration ≠ .dropped) (hs : c.success = .none)
    {cs : CsState} {f : Finish} {state : ClientState} (last : f = .free → c.others = 0)
    (locked : c.calling ≠ .none → f = .wait) :
    ClientRefs (tells { c with registration := .dropped, state := state } s cs f) := by
  refine h.handed hb (held_registered hr) (held_dropped rfl hs) (others_tells c s cs f) rfl rfl rfl rfl rfl
    (fun call hc => ?_) fun hc => ?_
  · rcases List.mem_cons.1 hc with rfl | hc
    · exact .inr last
    · exact .inl hc
  · exact .inr ⟨_, List.mem_cons_self, locked hc⟩

/-- A thread is to leave, with the reference of the registration. -/
theorem left (h : ClientRefs c) (hb : c.birth = .registered) (hr : c.registration ≠ .dropped) (hs : c.success = .none)
    {b m : Bool} {state : ClientState} (lock : c.calling = .none) :
    ClientRefs (leave { c with registration := .dropped, state := state, inIdle := b, misused := m }) :=
  h.handed hb (held_registered hr) (held_dropped rfl hs) (others_leave c) rfl rfl rfl rfl rfl (fun _ hc => .inl hc)
    fun hc => absurd lock hc

/-- The connection was not made, or could not be used. -/
theorem begun (h : ClientRefs c) (ok : ClientOk c) (hk : c.registration.kind = .connects) {cs : CsState}
    {state : ClientState} :
    ClientRefs (tells { c with registration := .dropped, state := state } c.session cs .free) := by
  have hr : c.registration ≠ .dropped := fun hd => by
    rw [hd] at hk
    cases hk
  have hs := ok.success_none hr (by rw [(ok.placed.of_connects hk).state]; decide)
  exact h.told (ok.registered hr) hr hs (fun _ => h.begins hk) fun hc => absurd (ok.connects hk) hc

/-- The reference of the registration is left to the result of the reply. -/
theorem overtaken (h : ClientRefs c) (hs : c.success ≠ .none) (lock : c.calling = .none) :
    ClientRefs { c with registration := .dropped, state := .closing } :=
  h.frame rfl rfl rfl rfl rfl rfl rfl rfl ((held_success (c := { c with registration := .dropped, state := .closing })
    hs).trans (held_success hs).symm) (fun hk => by cases hk) fun hc => absurd lock hc

/-- `handle_incoming_reply`, for a last result. -/
theorem replyEnded (ok : ClientOk c) (h : ClientRefs c) (queued : c.registration = .queued .read st)
    (lock : c.calling = .none) : ClientRefs (c.replyEnded st) := by
  have hr : c.registration ≠ .dropped := by
    rw [queued]
    simp
  have hb := ok.registered hr
  have none : c.state ≠ .success → c.success = .none := ok.success_none hr
  unfold ClientConn.replyEnded
  cases hs : c.state with
  | idle => exact h.left hb hr (none (by rw [hs]; decide)) lock
  | connecting => exact h.left hb hr (none (by rw [hs]; decide)) lock
  | closing => exact h.left hb hr (none (by rw [hs]; decide)) lock
  | error => exact h.told hb hr (none (by rw [hs]; decide)) (fun hf => by cases hf) fun hc => absurd lock hc
  | receiving => exact h.told hb hr (none (by rw [hs]; decide)) (fun hf => by cases hf) fun hc => absurd lock hc
  | success =>
    have hne := ok.ended_success queued hs
    exact h.overtaken hne lock

end ClientRefs

/-- **Every step that takes a reference of the entry has one to count from**, and every holder gives back its own. -/
theorem ClientStep.refs {a : ClientAct} {c c' : ClientConn} (ok : ClientOk c) (h : ClientRefs c)
    (step : ClientStep c a c') : ClientRefs c' := by
  cases step with
  | launch new =>
    have hb : c.birth ≠ .registered := by
      rw [new]
      decide
    obtain ⟨hothers, hfreeing⟩ := h.before hb
    exact .unborn (fun hr => by cases hr) hothers hfreeing (fun _ => rfl) (fun _ => h.unreleased hb (by rw [new]; decide))
      (fun hr => by cases hr) (ok.unregistered hb).2.1
  | add new =>
    have hb : c.birth ≠ .registered := by
      rw [new]
      decide
    obtain ⟨hothers, hfreeing⟩ := h.before hb
    have hreleased := h.unreleased hb (by rw [new]; decide)
    have hone : ({ c with birth := .registered, registration := .table .connect } : ClientConn).holders = 1 := by
      unfold holders
      rw [held_registered (by simp)]
      show 1 + c.others = 1
      omega
    refine .of_registered rfl (fun _ => hothers) (fun _ => ⟨?_, hfreeing, hreleased⟩) (fun h0 => ?_) (fun _ _ _ => hone)
      fun _ => .inl (by simp)
    · rw [hone]
      exact h.launched new
    · rw [hone] at h0
      cases h0
  | addFails new =>
    have hb : c.birth ≠ .registered := by
      rw [new]
      decide
    obtain ⟨hothers, hfreeing⟩ := h.before hb
    have hreleased := h.unreleased hb (by rw [new]; decide)
    refine .unborn (c := { c with birth := .refused, released := c.released + 1 }) (fun hr => by cases hr)
      hothers hfreeing (fun hr => by cases hr) (fun hr => absurd rfl hr) (fun _ => ?_) (ok.unregistered hb).2.1
    show c.released + 1 ≤ 1
    omega
  | deinit => exact h.frame rfl rfl rfl rfl rfl rfl rfl rfl rfl id fun hc hd => ⟨hc, hd⟩
  | read registered runs at_message => exact h.frame rfl rfl rfl rfl rfl rfl rfl rfl rfl id fun hc hd => ⟨hc, hd⟩
  | readFails registered runs at_message fails =>
    exact h.frame rfl rfl rfl rfl rfl rfl rfl rfl rfl id fun hc hd => ⟨hc, hd⟩
  | remove ends =>
    have hr := (ok.inside ends (by simp)).1.ne_dropped
    refine h.going hr ?_ rfl rfl rfl rfl rfl rfl rfl rfl ?_
    · dsimp only
      split
      · simp
      · exact hr
    · dsimp only
      split
      · intro hk
        cases hk
      · exact id
  | look creates => exact h.frame rfl rfl rfl rfl rfl rfl rfl rfl rfl id fun hc hd => ⟨hc, hd⟩
  | pass blocks lock => exact h.frame rfl rfl rfl rfl rfl rfl rfl rfl rfl id fun hc hd => ⟨hc, hd⟩
  | takeMessage checks receives => exact h.frame rfl rfl rfl rfl rfl rfl rfl rfl rfl id fun hc hd => ⟨hc, hd⟩
  | takeNone checks late => exact h.frame rfl rfl rfl rfl rfl rfl rfl rfl rfl id fun hc hd => ⟨hc, hd⟩
  | @append keep reads =>
    have hr := (ok.inside reads (by simp)).1.ne_dropped
    cases keep with
    | true => exact h.going hr hr rfl rfl rfl rfl rfl rfl rfl rfl id
    | false =>
      exact h.going hr (fun hd => hr (deleted_dropped.1 hd)) rfl rfl rfl rfl rfl rfl rfl rfl
        fun hk => (ClientReg.deleted_kind _ _).symm.trans hk
  | post done =>
    have hr := (ok.inside done (by simp)).1.ne_dropped
    exact h.going hr hr rfl rfl rfl rfl rfl rfl rfl rfl id
  | connect registered runs at_event ends =>
    exact h.going (by rw [registered]; simp) (by simp) rfl rfl rfl rfl rfl rfl rfl rfl fun _ => by rw [registered]; rfl
  | write registered runs at_event ends =>
    exact h.going (by rw [registered]; simp) (by simp) rfl rfl rfl rfl rfl rfl rfl rfl fun hk => by cases hk
  | timeOut registered runs at_event =>
    exact h.going (by rw [registered]; simp) (by simp) rfl rfl rfl rfl rfl rfl rfl rfl fun hk => by
      rw [registered]
      exact hk
  | pipe deleted runs at_event =>
    exact h.going (by rw [deleted]; simp) (by simp) rfl rfl rfl rfl rfl rfl rfl rfl fun hk => by
      rw [deleted]
      exact hk
  | halt stopping runs at_event =>
    by_cases hd : c.registration = .dropped
    · exact h.frame rfl rfl rfl rfl rfl rfl rfl rfl (by unfold held; simp [hd, ClientReg.stopped])
        (fun hk => (ClientReg.stopped_kind _).symm.trans hk) fun hc _ => ⟨hc, hd⟩
    · exact h.going hd (fun hs => hd (ClientReg.kind_dropped.1 ((ClientReg.stopped_kind _).symm.trans
        (ClientReg.kind_dropped.2 hs)))) rfl rfl rfl rfl rfl rfl rfl rfl fun hk => (ClientReg.stopped_kind _).symm.trans hk
  | stopDel stopping =>
    by_cases hd : c.registration = .dropped
    · exact h.frame rfl rfl rfl rfl rfl rfl rfl rfl (by unfold held mpollerDel; simp [hd, ClientReg.deleted])
        (fun hk => (ClientReg.deleted_kind _ _).symm.trans hk) fun hc _ => ⟨hc, hd⟩
    · exact h.going hd (fun hs => hd (deleted_dropped.1 hs)) rfl rfl rfl rfl rfl rfl rfl rfl
        fun hk => (ClientReg.deleted_kind _ _).symm.trans hk
  | dismiss replaced => exact h.frame rfl rfl rfl rfl rfl rfl rfl rfl rfl id fun hc hd => ⟨hc, hd⟩
  | connectFails queued fails =>
    have hk : c.registration.kind = .connects := by
      rw [queued]
      rfl
    exact h.begun ok hk
  | start queued =>
    exact h.going (by rw [queued]; simp) (by simp) rfl rfl rfl rfl rfl rfl rfl rfl fun _ => by rw [queued]; rfl
  | startSync starting =>
    exact h.going (by rw [starting]; simp) (by simp) rfl rfl rfl rfl rfl rfl rfl rfl fun hk => by cases hk
  | startAsync starting =>
    exact h.going (by rw [starting]; simp) (by simp) rfl rfl rfl rfl rfl rfl rfl rfl fun hk => by cases hk
  | startFails starting =>
    have hk : c.registration.kind = .connects := by
      rw [starting]
      rfl
    exact h.begun ok hk
  | pick queued =>
    exact h.frame rfl rfl rfl rfl rfl rfl rfl rfl
      ((held_success (by simp)).trans (held_success (by rw [queued]; simp)).symm) id fun hc hd => ⟨hc, hd⟩
  | handleComplete picked => exact h.replyComplete ok (by rw [picked]; simp)
  | handleEnded queued lock => exact h.replyEnded ok queued lock
  | pickWritten queued =>
    exact h.going (by rw [queued]; simp) (by simp) rfl rfl rfl rfl rfl rfl rfl rfl fun hk => by cases hk
  | writtenRead written =>
    exact h.going (by rw [written]; simp) (by simp) rfl rfl rfl rfl rfl rfl rfl rfl fun hk => by cases hk
  | writtenFails written =>
    have hr : c.registration ≠ .dropped := by
      rw [written]
      simp
    obtain ⟨s', hs', here⟩ := ok.placed.of_writes (by rw [written]; rfl)
    have hs := ok.success_none hr (by rw [here.state]; rcases hs' with rfl | rfl <;> decide)
    exact h.told (ok.registered hr) hr hs (fun hf => by cases hf) fun _ => rfl
  | @release call owed =>
    have hlen : (c.releasing.erase call ++ call :: c.due).length = c.calls.length := by
      unfold calls
      rw [List.length_append, List.length_append, List.length_erase_of_mem owed, List.length_cons]
      have := List.length_pos_of_mem owed
      omega
    have hmem : ∀ call', call' ∈ c.releasing.erase call ++ call :: c.due ↔ call' ∈ c.calls := fun call' => by
      unfold calls
      rw [(List.perm_middle.trans ((List.perm_cons_erase owed).symm.append_right _)).mem_iff]
    refine h.same rfl rfl (congrArg (· + _) hlen) (fun call' => (hmem call').1) rfl rfl rfl id fun hc => ?_
    exact (h.locked hc).imp_right (Or.imp_right fun ⟨call', hc, hf⟩ => ⟨call', (hmem call').2 hc, hf⟩)
  | call owed => exact h.called owed
  | lockEntry waits lock =>
    have hothers : (leave { c with waiting := c.waiting - 1 }).others = c.others := by
      show c.calls.length + (c.waiting - 1 + (c.leaving + 1)) = c.calls.length + (c.waiting + c.leaving)
      omega
    exact h.same rfl rfl hothers (fun _ hc => hc) rfl rfl rfl id fun hc => absurd lock hc
  | decref leaves => exact h.decref leaves
  | releaseConn frees => exact h.freed frees
  | take idle lock =>
    have hr : c.registration ≠ .dropped := fun hd => by
      have := (ok.placed.of_idle idle).kind
      rw [hd] at this
      cases this
    exact h.going hr hr rfl rfl rfl rfl rfl rfl rfl rfl id
  | takeGone taken gone => exact h.frame rfl rfl rfl rfl rfl rfl rfl rfl rfl id fun hc => absurd rfl hc
  | takeOn taken registered =>
    exact h.frame rfl rfl rfl rfl rfl rfl rfl rfl rfl id fun _ hd => ⟨by rw [taken]; decide, hd⟩
  | sendSync sends => exact h.frame rfl rfl rfl rfl rfl rfl rfl rfl rfl id fun _ hd => ⟨by rw [sends]; decide, hd⟩
  | sendAsync sends registered =>
    exact h.going (by rw [registered]; simp) (by simp) rfl rfl rfl rfl rfl rfl rfl rfl fun hk => by cases hk
  | sendGone sends gone => exact h.frame rfl rfl rfl rfl rfl rfl rfl rfl rfl id fun _ hd => ⟨by rw [sends]; decide, hd⟩
  | sendFails sends =>
    have hr : c.registration ≠ .dropped := fun hd => by
      have := (ok.placed.of_sending sends).kind
      rw [hd] at this
      cases this
    exact h.going hr (fun hd => hr (deleted_dropped.1 hd)) rfl rfl rfl rfl rfl rfl rfl rfl
      fun hk => (ClientReg.deleted_kind _ _).symm.trans hk
  | unlock unlocks => exact h.frame rfl rfl rfl rfl rfl rfl rfl rfl rfl id fun hc => absurd rfl hc

end Tinywf
