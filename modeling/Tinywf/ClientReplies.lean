import Tinywf.ClientRefs
import Tinywf.Lts
import Mathlib.Data.List.Count
/-!
# ClientReplies — what the requests of a connection are told

A request is told its end once, and `target->release` is called for it once, by the time the connection is done with it
(`ClientTold`): it is done with all of them but that of `entry->session`, and with that one, too, unless it carries it
still (`ClientConn.carries`).  It is told `CS_STATE_SUCCESS` when `append_reply` has ended its reply, and else it is not.
-/
namespace Tinywf

open Lts ClientConn

namespace ClientConn

/-- How often `target->release` was called for a request, or is about to be. -/
def releases (c : ClientConn) (k : Nat) : Nat :=
  (c.sessions k).released + c.releasing.countP fun call => call.session == k

/-- How often a request was told its end, or is about to be. -/
def handles (c : ClientConn) (k : Nat) : Nat :=
  (c.sessions k).handled.length + c.calls.countP fun call => call.session == k

/-- Whether the connection is done with a request. -/
def owed (c : ClientConn) (k : Nat) : Nat :=
  if c.birth = .registered ∧ k < c.seq ∧ (k = c.session → c.carries = false) then 1 else 0

/-- Its reply is complete. -/
def Answered (c : ClientConn) (k : Nat) : Prop := (c.sessions k).kept ≠ none

/-- The reply is complete, and what is to be done with it is not yet told to anyone. -/
def Replied (c : ClientConn) : Prop := c.reading = .complete ∨ c.success ≠ .none

variable {c c' : ClientConn} {s : ClientState} {m : Option ClientMark} {k : ClientKind} {p : ReplyPhase}

theorem csState_ne (st : PrSt) : csState st ≠ .success := by
  cases st <;> decide

/-- What a session has in a field that is not written. -/
theorem update_field {α : Type} (f : ClientSession → α) {g : Nat → ClientSession} {i j : Nat} {v : ClientSession}
    (same : f v = f (g i)) : f (Function.update g i v j) = f (g j) := by
  by_cases hj : j = i
  · rw [hj, Function.update_self, same]
  · rw [Function.update_of_ne hj]

theorem carries_congr (kind : c'.registration.kind = c.registration.kind) (state : c'.state = c.state)
    (success : c'.success = c.success) (calling : c'.calling = c.calling) : c'.carries = c.carries := by
  unfold carries
  rw [kind, state, success, calling]

theorem carries_reads (kind : c.registration.kind = .reads) (idle : c.state ≠ .idle) (closing : c.state ≠ .closing) :
    c.carries = true := by
  unfold carries
  rw [kind]
  cases hs : c.state <;> first | rfl | exact absurd hs idle | exact absurd hs closing

theorem carries_idle (kind : c.registration.kind = .reads) (state : c.state = .idle) (calling : c.calling ≠ .sending) :
    c.carries = false := by
  unfold carries
  rw [kind, state]
  exact beq_false_of_ne calling

theorem carries_sending (kind : c.registration.kind = .reads) (state : c.state = .idle) (calling : c.calling = .sending) :
    c.carries = true := by
  unfold carries
  rw [kind, state, calling]
  rfl

theorem carries_closing (kind : c.registration.kind = .reads) (state : c.state = .closing) : c.carries = false := by
  unfold carries
  rw [kind, state]

theorem carries_dropped (registration : c.registration = .dropped) (success : c.success = .none) : c.carries = false := by
  unfold carries
  rw [registration, success]
  rfl

theorem unreplied (reading : c.reading = .waiting) (success : c.success = .none) : ¬c.Replied := by
  rintro (hp | hp)
  · rw [reading] at hp
    cases hp
  · exact hp success

theorem owed_congr (birth : c'.birth = c.birth) (seq : c'.seq = c.seq) (session : c'.session = c.session)
    (carries : c'.carries = c.carries) (k : Nat) : c'.owed k = c.owed k := by
  unfold owed
  rw [birth, seq, session, carries]

theorem owed_le (c : ClientConn) (k : Nat) : c.owed k ≤ 1 := by
  unfold owed
  split <;> decide

theorem owed_unborn (birth : c.birth ≠ .registered) (k : Nat) : c.owed k = 0 := if_neg fun h => birth h.1

theorem owed_carried (carries : c.carries = true) : c.owed c.session = 0 :=
  if_neg fun h => absurd (carries.symm.trans (h.2.2 rfl)) (by decide)

end ClientConn

/-- **Each request is told its end once, and that of its own reply.** -/
structure ClientTold (c : ClientConn) : Prop where
  launched : c.birth = .launched → c.seq = 1 ∧ ¬c.Answered 0
  releases : ∀ k, c.releases k = c.owed k
  handles : ∀ k, c.handles k = c.owed k
  calls : ∀ call ∈ c.calls, call.state = .success ↔ c.Answered call.session
  handled : ∀ k, ∀ st ∈ (c.sessions k).handled, st = .success ↔ c.Answered k
  current : c.birth = .registered → c.carries = true → (c.Answered c.session ↔ c.Replied)

namespace ClientTold

variable {c c' : ClientConn} {s : Nat} {st : PrSt}

/-- A request that nobody is to tell anything was told nothing. -/
theorem silent (h : ClientTold c) {k : Nat} (owed : c.owed k = 0) : (c.sessions k).released = 0 ∧
    (c.sessions k).handled = [] ∧ c.releasing.countP (fun call => call.session == k) = 0 ∧
    ∀ call ∈ c.calls, call.session ≠ k := by
  have hr := (h.releases k).trans owed
  have hh := (h.handles k).trans owed
  obtain ⟨hr₁, hr₂⟩ := Nat.add_eq_zero_iff.1 hr
  obtain ⟨hh₁, hh₂⟩ := Nat.add_eq_zero_iff.1 hh
  refine ⟨hr₁, List.length_eq_zero_iff.1 hh₁, hr₂, fun call hc hk => ?_⟩
  exact List.countP_eq_zero.1 hh₂ call hc (by simp [hk])

/-- As many are told as before, or are about to be. -/
theorem recount (h : ClientTold c) (birth : c'.birth = c.birth) (seq : c'.seq = c.seq) (session : c'.session = c.session)
    (carries : c'.carries = c.carries) (replied : c'.Replied ↔ c.Replied)
    (kept : ∀ k, (c'.sessions k).kept = (c.sessions k).kept) (releases : ∀ k, c'.releases k = c.releases k)
    (handles : ∀ k, c'.handles k = c.handles k) (calls : ∀ call ∈ c'.calls, call ∈ c.calls)
    (handled : ∀ k, ∀ st ∈ (c'.sessions k).handled,
      st ∈ (c.sessions k).handled ∨ ∃ call ∈ c.calls, call.session = k ∧ call.state = st) : ClientTold c' := by
  have howed := owed_congr birth seq session carries
  have hanswered : ∀ k, c'.Answered k ↔ c.Answered k := fun k => by
    unfold Answered
    rw [kept]
  refine ⟨?_, fun k => ?_, fun k => ?_, fun call hc => ?_, fun k st hst => ?_, ?_⟩
  · rw [birth, seq, hanswered]
    exact h.launched
  · rw [howed, releases, h.releases]
  · rw [howed, handles, h.handles]
  · rw [hanswered]
    exact h.calls call (calls call hc)
  · rw [hanswered]
    rcases handled k st hst with hst | ⟨call, hc, rfl, rfl⟩
    · exact h.handled k st hst
    · exact h.calls call hc
  · rw [birth, carries, session, hanswered, replied]
    exact h.current

/-- Nobody is told anything. -/
theorem frame (h : ClientTold c) (birth : c'.birth = c.birth) (seq : c'.seq = c.seq) (session : c'.session = c.session)
    (releasing : c'.releasing = c.releasing) (due : c'.due = c.due) (sessions : c'.sessions = c.sessions)
    (carries : c'.carries = c.carries) (replied : c'.Replied ↔ c.Replied) : ClientTold c' := by
  have hcalls := calls_eq releasing due
  refine h.recount birth seq session carries replied (fun k => by rw [sessions]) (fun k => ?_) (fun k => ?_)
    (fun call hc => by rwa [hcalls] at hc) fun k st hst => .inl (by rwa [sessions] at hst)
  · unfold ClientConn.releases
    rw [sessions, releasing]
  · unfold ClientConn.handles
    rw [sessions, hcalls]

/-- The request of `entry->session` is to be told its end. -/
theorem tells (h : ClientTold c) (ok : ClientOk c) (hb : c.birth = .registered) (carried : c.carries = true)
    {cs : CsState} {f : Finish} (birth : c'.birth = c.birth) (seq : c'.seq = c.seq)
    (session : c'.session = c.session) (releasing : c'.releasing = ⟨c.session, cs, f⟩ :: c.releasing)
    (due : c'.due = c.due) (sessions : c'.sessions = c.sessions) (carries : c'.carries = false)
    (success : cs = .success ↔ c.Replied) : ClientTold c' := by
  have hcalls : c'.calls = ⟨c.session, cs, f⟩ :: c.calls := by
    unfold ClientConn.calls
    rw [releasing, due]
    rfl
  have hseq := ok.current (by rw [hb]; decide)
  have howed : ∀ k, c'.owed k = c.owed k + if (c.session == k) = true then 1 else 0 := fun k => by
    by_cases hk : k = c.session
    · subst hk
      rw [owed_carried carried, if_pos (beq_self_eq_true _), Nat.zero_add]
      exact if_pos ⟨birth.trans hb, by rw [seq]; omega, fun _ => carries⟩
    · rw [if_neg (by simpa using fun h => hk h.symm), Nat.add_zero]
      unfold owed
      rw [birth, seq, session]
      exact if_congr (by simp [hk]) rfl rfl
  have hanswered : ∀ k, c'.Answered k ↔ c.Answered k := fun k => by
    unfold Answered
    rw [sessions]
  refine ⟨fun hl => absurd ((birth.trans hb).symm.trans hl) (by decide), fun k => ?_, fun k => ?_, fun call hc => ?_,
    fun k st hst => ?_, fun _ hc => absurd (carries.symm.trans hc) (by decide)⟩
  · rw [howed, ← h.releases k]
    unfold ClientConn.releases
    rw [sessions, releasing, List.countP_cons, Nat.add_assoc]
  · rw [howed, ← h.handles k]
    unfold ClientConn.handles
    rw [sessions, hcalls, List.countP_cons, Nat.add_assoc]
  · rw [hanswered]
    rw [hcalls] at hc
    rcases List.mem_cons.1 hc with rfl | hc
    · exact success.trans (h.current hb carried).symm
    · exact h.calls call hc
  · rw [hanswered]
    rw [sessions] at hst
    exact h.handled k st hst

/-- `target->release` is called. -/
theorem released (h : ClientTold c) {call : ClientCall} (owed : call ∈ c.releasing) :
    ClientTold { c.setSession call.session
        { c.sessions call.session with released := (c.sessions call.session).released + 1 } with
      releasing := c.releasing.erase call, due := call :: c.due } := by
  have hperm := List.perm_cons_erase owed
  have hcalls : (c.releasing.erase call ++ call :: c.due).Perm c.calls :=
    List.perm_middle.trans (hperm.symm.append_right _)
  have hhandled : ∀ k, (Function.update c.sessions call.session { c.sessions call.session with
      released := (c.sessions call.session).released + 1 } k).handled = (c.sessions k).handled :=
    fun _ => update_field ClientSession.handled rfl
  refine h.recount rfl rfl rfl (carries_congr rfl rfl rfl rfl) Iff.rfl (fun k => ?_) (fun k => ?_) (fun k => ?_)
    (fun call' hc => hcalls.mem_iff.1 hc) fun k st hst => ?_
  · exact update_field ClientSession.kept rfl
  · have hcount := hperm.countP_eq fun call' => call'.session == k
    rw [List.countP_cons] at hcount
    unfold ClientConn.releases setSession
    dsimp only
    rw [hcount]
    by_cases hk : k = call.session
    · rw [hk, Function.update_self, if_pos (beq_self_eq_true _)]
      dsimp only
      omega
    · rw [Function.update_of_ne hk, if_neg (by simpa using fun h => hk h.symm), Nat.add_zero]
  · unfold ClientConn.handles setSession
    dsimp only
    rw [hhandled, ← hcalls.countP_eq]
    rfl
  · exact .inl (by rwa [← hhandled])

/-- `session->handle` is called. -/
theorem heard (h : ClientTold c) {call : ClientCall} (owed : call ∈ c.due)
    (birth : c'.birth = c.birth) (seq : c'.seq = c.seq) (session : c'.session = c.session)
    (carries : c'.carries = c.carries) (replied : c'.Replied ↔ c.Replied) (releasing : c'.releasing = c.releasing)
    (due : c'.due = c.due.erase call)
    (sessions : c'.sessions = Function.update c.sessions call.session
      { c.sessions call.session with handled := (c.sessions call.session).handled ++ [call.state] }) :
    ClientTold c' := by
  have hperm := List.perm_cons_erase owed
  have hcalls : c.calls.Perm (call :: c'.calls) := by
    unfold ClientConn.calls
    rw [releasing, due]
    exact (hperm.append_left _).trans List.perm_middle
  refine h.recount birth seq session carries replied (fun k => ?_) (fun k => ?_) (fun k => ?_)
    (fun call' hc => hcalls.mem_iff.2 (List.mem_cons_of_mem _ hc)) fun k st hst => ?_
  · rw [sessions]
    exact update_field ClientSession.kept rfl
  · have hfield : (c'.sessions k).released = (c.sessions k).released := by
      rw [sessions]
      exact update_field ClientSession.released rfl
    unfold ClientConn.releases
    rw [hfield, releasing]
  · have hcount := hcalls.countP_eq fun call' => call'.session == k
    rw [List.countP_cons] at hcount
    unfold ClientConn.handles
    rw [hcount, sessions]
    by_cases hk : k = call.session
    · rw [hk, Function.update_self, if_pos (beq_self_eq_true _)]
      dsimp only
      rw [List.length_append, List.length_singleton]
      omega
    · rw [Function.update_of_ne hk, if_neg (by simpa using fun h => hk h.symm), Nat.add_zero]
  · rw [sessions] at hst
    by_cases hk : k = call.session
    · rw [hk, Function.update_self] at hst
      dsimp only at hst
      rcases List.mem_append.1 hst with hst | hst
      · exact .inl (by rwa [hk])
      · exact .inr ⟨call, List.mem_append_right _ owed, hk.symm, (List.mem_singleton.1 hst).symm⟩
    · rw [Function.update_of_ne hk] at hst
      exact .inl hst

/-- `handle_incoming_reply`, for a complete reply. -/
theorem replyComplete (h : ClientTold c) (ok : ClientOk c) (picked : c.success = .picked s) :
    ClientTold (c.replyComplete s) := by
  have hs : c.success ≠ .none := by
    rw [picked]
    simp
  have hb := ok.success_registered hs
  obtain rfl := ok.picked s picked
  have success : CsState.success = .success ↔ c.Replied := ⟨fun _ => .inr hs, fun _ => rfl⟩
  unfold ClientConn.replyComplete
  rcases ok.placed.of_success hs with here | here
  · rw [if_pos here.state]
    have hcarries := carries_reads here.kind (by rw [here.state]; decide) (by rw [here.state]; decide)
    split
    · exact h.tells ok hb hcarries rfl rfl rfl rfl rfl rfl (carries_closing here.kind rfl) success
    · refine h.tells ok hb hcarries rfl rfl rfl rfl rfl rfl (carries_idle here.kind rfl fun hc => ?_) success
      have := here.marks
      simp [show c.calling = .sending from hc] at this
  · rw [if_neg (by rw [here.state]; decide)]
    have hd := ClientReg.kind_dropped.1 here.kind
    refine h.tells ok hb ?_ rfl rfl rfl rfl rfl rfl (carries_dropped hd rfl) success
    unfold carries
    rw [here.kind]
    exact bne_iff_ne.2 hs

/-- `handle_incoming_reply`, for a last result. -/
theorem replyEnded (h : ClientTold c) (ok : ClientOk c) (queued : c.registration = .queued .read st)
    (lock : c.calling = .none) : ClientTold (c.replyEnded st) := by
  have hr : c.registration ≠ .dropped := by
    rw [queued]
    simp
  have hk : c.registration.kind = .reads := by
    rw [queued]
    rfl
  have hb := ok.registered hr
  have hw := ok.waiting (by simp [ClientReg.Polled, queued])
  have none : c.state ≠ .success → c.success = .none := ok.success_none hr
  have failed : ∀ {cs : CsState}, cs ≠ .success → c.state ≠ .success → (cs = .success ↔ c.Replied) :=
    fun hcs hs => ⟨fun h => absurd h hcs, fun h => absurd h (unreplied hw (none hs))⟩
  unfold ClientConn.replyEnded
  cases hs : c.state with
  | idle =>
    refine h.frame rfl rfl rfl rfl rfl rfl ?_ Iff.rfl
    rw [carries_idle hk hs (by rw [lock]; decide)]
    exact carries_dropped rfl (none (by rw [hs]; decide))
  | closing =>
    refine h.frame rfl rfl rfl rfl rfl rfl ?_ Iff.rfl
    rw [carries_closing hk hs]
    exact carries_dropped rfl (none (by rw [hs]; decide))
  | connecting =>
    obtain ⟨_, m, k, p, place, here⟩ := ok.placed
    obtain rfl := here.state.symm.trans hs
    obtain rfl := here.kind.symm.trans hk
    cases place with
    | connecting begins => simp at begins
  | error =>
    exact h.tells ok hb (carries_reads hk (by rw [hs]; decide) (by rw [hs]; decide)) rfl rfl rfl rfl rfl rfl
      (carries_dropped rfl (none (by rw [hs]; decide))) (failed (by decide) (by rw [hs]; decide))
  | receiving =>
    exact h.tells ok hb (carries_reads hk (by rw [hs]; decide) (by rw [hs]; decide)) rfl rfl rfl rfl rfl rfl
      (carries_dropped rfl (none (by rw [hs]; decide))) (failed (csState_ne st) (by rw [hs]; decide))
  | success =>
    have hne := ok.ended_success queued hs
    refine h.frame rfl rfl rfl rfl rfl rfl ?_ Iff.rfl
    rw [carries_reads hk (by rw [hs]; decide) (by rw [hs]; decide)]
    exact bne_iff_ne.2 hne

/-- Before the poller has the connection. -/
theorem unborn (birth : c.birth ≠ .registered) (launched : c.birth = .launched → c.seq = 1 ∧ ¬c.Answered 0)
    (calls : c.calls = []) (silent : ∀ k, (c.sessions k).released = 0 ∧ (c.sessions k).handled = []) :
    ClientTold c where
  launched := launched
  releases k := by
    rw [owed_unborn birth, ClientConn.releases, (silent k).1, (List.append_eq_nil_iff.1 calls).1]
    rfl
  handles k := by
    rw [owed_unborn birth, ClientConn.handles, (silent k).2, calls]
    rfl
  calls call hc := by
    rw [calls] at hc
    cases hc
  handled k st hst := by
    rw [(silent k).2] at hst
    cases hst
  current hb := absurd hb birth

/-- `append_reply` ends the reply. -/
theorem appended (h : ClientTold c) (hb : c.birth = .registered) (carried : c.carries = true) {k : Option Bool}
    (kept : k ≠ none) (birth : c'.birth = c.birth) (seq : c'.seq = c.seq) (session : c'.session = c.session)
    (releasing : c'.releasing = c.releasing) (due : c'.due = c.due)
    (sessions : c'.sessions = Function.update c.sessions c.session { c.sessions c.session with kept := k })
    (carries : c'.carries = true) (replied : c'.Replied) : ClientTold c' := by
  have howed := owed_congr birth seq session (carries.trans carried.symm)
  have hcalls := calls_eq releasing due
  obtain ⟨-, hhandled, -, hnobody⟩ := h.silent (owed_carried carried)
  have hanswered : ∀ i, i ≠ c.session → (c'.Answered i ↔ c.Answered i) := fun i hi => by
    unfold Answered
    rw [sessions, Function.update_of_ne hi]
  have hfield : ∀ i, (c'.sessions i).released = (c.sessions i).released ∧
      (c'.sessions i).handled = (c.sessions i).handled :=
    fun i => by
      rw [sessions]
      exact ⟨update_field ClientSession.released rfl, update_field ClientSession.handled rfl⟩
  refine ⟨fun hl => absurd ((birth.trans hb).symm.trans hl) (by decide), fun i => ?_, fun i => ?_, fun call hc => ?_,
    fun i st hst => ?_, fun _ _ => ⟨fun _ => replied, fun _ => ?_⟩⟩
  · rw [howed, ← h.releases i, ClientConn.releases, ClientConn.releases, (hfield i).1, releasing]
  · rw [howed, ← h.handles i, ClientConn.handles, ClientConn.handles, (hfield i).2, hcalls]
  · rw [hcalls] at hc
    rw [hanswered _ (hnobody call hc)]
    exact h.calls call hc
  · rw [(hfield i).2] at hst
    by_cases hi : i = c.session
    · rw [hi, hhandled] at hst
      cases hst
    · rw [hanswered i hi]
      exact h.handled i st hst
  · unfold Answered
    rw [session, sessions, Function.update_self]
    exact kept

/-- An idle connection is given another request. -/
theorem begins (h : ClientTold c) (hb : c.birth = .registered) (free : c.carries = false) (birth : c'.birth = c.birth)
    (seq : c'.seq = c.seq + 1) (session : c'.session = c.seq) (releasing : c'.releasing = c.releasing)
    (due : c'.due = c.due) (sessions : c'.sessions = Function.update c.sessions c.seq .fresh)
    (carries : c'.carries = true) (replied : ¬c'.Replied) : ClientTold c' := by
  have howed : ∀ k, c'.owed k = c.owed k := fun k => by
    refine if_congr ?_ rfl rfl
    rw [birth, seq, session, carries]
    constructor
    · rintro ⟨-, hk, hc⟩
      have hne : k ≠ c.seq := fun he => absurd (hc he) (by decide)
      exact ⟨hb, by omega, fun _ => free⟩
    · rintro ⟨-, hk, -⟩
      exact ⟨hb, Nat.lt_succ_of_lt hk, fun he => absurd hk (by omega)⟩
  have hcalls := calls_eq releasing due
  obtain ⟨hreleased, hhandled, -, hnobody⟩ := h.silent (if_neg fun hs => Nat.lt_irrefl _ hs.2.1 : c.owed c.seq = 0)
  have hfield : ∀ k, (c'.sessions k).released = (c.sessions k).released ∧
      (c'.sessions k).handled = (c.sessions k).handled :=
    fun k => by
      rw [sessions]
      exact ⟨update_field ClientSession.released hreleased.symm, update_field ClientSession.handled hhandled.symm⟩
  have hanswered : ∀ k, k ≠ c.seq → (c'.Answered k ↔ c.Answered k) := fun k hk => by
    unfold Answered
    rw [sessions, Function.update_of_ne hk]
  refine ⟨fun hl => absurd ((birth.trans hb).symm.trans hl) (by decide), fun k => ?_, fun k => ?_, fun call hc => ?_,
    fun k st hst => ?_, fun _ _ => ⟨fun ha => absurd ?_ ha, fun hp => absurd hp replied⟩⟩
  · rw [howed, ← h.releases k, ClientConn.releases, ClientConn.releases, (hfield k).1, releasing]
  · rw [howed, ← h.handles k, ClientConn.handles, ClientConn.handles, (hfield k).2, hcalls]
  · rw [hcalls] at hc
    rw [hanswered _ (hnobody call hc)]
    exact h.calls call hc
  · rw [(hfield k).2] at hst
    have hk : k ≠ c.seq := by
      rintro rfl
      rw [hhandled] at hst
      cases hst
    rw [hanswered k hk]
    exact h.handled k st hst
  · rw [session, sessions, Function.update_self]
    rfl

/-- The connection was not made, or could not be used. -/
theorem begun (h : ClientTold c) (ok : ClientOk c) (hk : c.registration.kind = .connects) {cs : CsState}
    (fails : cs ≠ .success) {state : ClientState} {f : Finish} :
    ClientTold (ClientConn.tells { c with registration := .dropped, state := state } c.session cs f) := by
  have here := ok.placed.of_connects hk
  have hr : c.registration ≠ .dropped := fun hd => by
    rw [hd] at hk
    cases hk
  have hs := ok.success_none hr (by rw [here.state]; decide)
  refine h.tells ok (ok.registered hr) ?_ rfl rfl rfl rfl rfl rfl (carries_dropped rfl hs) ?_
  · unfold carries
    rw [hk]
  · refine ⟨fun hc => absurd hc fails, fun hp => ?_⟩
    rcases hp with hp | hp
    · have hphase := here.phase
      rw [hp] at hphase
      cases hphase
    · exact absurd hs hp

end ClientTold

/-- **Every step that ends a request has somebody told.** -/
theorem ClientStep.told {a : ClientAct} {c c' : ClientConn} (ok : ClientOk c) (refs : ClientRefs c) (h : ClientTold c)
    (step : ClientStep c a c') : ClientTold c' := by
  have quiet : ∀ {r r' : ClientReading}, c.reading = r → r ≠ .complete → r' ≠ .complete →
      (r' = .complete ∨ c.success ≠ .none ↔ c.Replied) := fun hr hne hne' => by
    unfold Replied
    rw [hr]
    exact or_congr_left ⟨fun h => absurd h hne', fun h => absurd h hne⟩
  cases step with
  | launch new =>
    have hb : c.birth ≠ .registered := by
      rw [new]
      decide
    have hsilent := fun k => h.silent (owed_unborn hb k)
    have hfresh : (Function.update c.sessions 0 ClientSession.fresh 0).kept = none := by
      rw [Function.update_self]
      rfl
    refine .unborn (fun hr => by cases hr) (fun _ => ⟨rfl, fun ha => ha hfresh⟩) (refs.uncalled hb) fun k => ?_
    exact ⟨(update_field ClientSession.released (hsilent 0).1.symm).trans (hsilent k).1,
      (update_field ClientSession.handled (hsilent 0).2.1.symm).trans (hsilent k).2.1⟩
  | add new =>
    have hb : c.birth ≠ .registered := by
      rw [new]
      decide
    have hcurrent := ok.current (by rw [new]; decide)
    obtain ⟨hseq, hanswered⟩ := h.launched new
    have hsession : c.session = 0 := by omega
    have howed : ∀ k, ({ c with birth := .registered, registration := .table .connect } : ClientConn).owed k = 0 :=
      fun k => if_neg fun ⟨_, hk, hc⟩ => by
        have hk : k < c.seq := hk
        have := hc (show k = c.session by omega)
        cases this
    refine ⟨fun hl => (by cases hl), fun k => ?_, fun k => ?_, h.calls, h.handled, fun _ _ => ?_⟩
    · rw [howed]
      exact (h.releases k).trans (owed_unborn hb k)
    · rw [howed]
      exact (h.handles k).trans (owed_unborn hb k)
    · have hm := (ok.unregistered hb).2.2
      simp at hm
      refine ⟨fun ha => absurd (by rwa [← hsession]) hanswered, fun hp => absurd hp (unreplied (ok.unborn hb) hm.2.1)⟩
  | addFails new =>
    have hb : c.birth ≠ .registered := by
      rw [new]
      decide
    have hsilent := fun k => h.silent (owed_unborn hb k)
    exact .unborn (fun hr => by cases hr) (fun hl => by cases hl) (refs.uncalled hb) fun k =>
      ⟨(hsilent k).1, (hsilent k).2.1⟩
  | deinit => exact h.frame rfl rfl rfl rfl rfl rfl rfl Iff.rfl
  | read registered runs at_message =>
    exact h.frame rfl rfl rfl rfl rfl rfl rfl (quiet at_message (by decide) (by simp))
  | @readFails st registered runs at_message fails =>
    rcases at_message with hr | hr <;>
      exact h.frame rfl rfl rfl rfl rfl rfl rfl (quiet hr (by decide) (by simp))
  | remove ends =>
    refine h.frame rfl rfl rfl rfl rfl rfl (carries_congr ?_ rfl rfl rfl) (quiet ends (by simp) (by simp))
    dsimp only
    split
    · rename_i ht
      rw [ht]
      rfl
    · rfl
  | look creates =>
    exact h.frame rfl rfl rfl rfl rfl rfl rfl (quiet creates (by decide) (by dsimp only; split <;> simp))
  | pass blocks lock => exact h.frame rfl rfl rfl rfl rfl rfl rfl (quiet blocks (by decide) (by simp))
  | @takeMessage b checks receives =>
    exact h.frame rfl rfl rfl rfl rfl rfl rfl (quiet checks (by decide) (by cases b <;> simp))
  | takeNone checks late => exact h.frame rfl rfl rfl rfl rfl rfl rfl (quiet checks (by decide) (by simp))
  | @append keep reads =>
    have hb := ok.polled_registered (ok.inside reads (by simp)).1
    have here := ok.placed.of_message (by rw [reads]; rfl)
    have hcarries := carries_reads here.kind (by rw [here.state]; decide) (by rw [here.state]; decide)
    cases keep with
    | true =>
      exact h.appended hb hcarries (by simp) rfl rfl rfl rfl rfl rfl (carries_reads here.kind (by simp) (by simp))
        (.inl rfl)
    | false =>
      exact h.appended hb hcarries (by simp) rfl rfl rfl rfl rfl rfl
        (carries_reads ((ClientReg.deleted_kind _ _).trans here.kind) (by simp) (by simp)) (.inl rfl)
  | post done =>
    refine h.frame rfl rfl rfl rfl rfl rfl ?_ ?_
    · obtain ⟨hp, -⟩ := ok.inside done (by simp)
      have here := ok.placed.of_complete (by rw [done]; rfl)
      unfold carries
      rw [here.kind, here.state]
    · exact ⟨fun _ => .inl done, fun _ => .inr (by simp)⟩
  | connect registered runs at_event ends =>
    exact h.frame rfl rfl rfl rfl rfl rfl (carries_congr (by rw [registered]; rfl) rfl rfl rfl) Iff.rfl
  | write registered runs at_event ends =>
    exact h.frame rfl rfl rfl rfl rfl rfl (carries_congr (by rw [registered]; rfl) rfl rfl rfl) Iff.rfl
  | timeOut registered runs at_event =>
    rcases at_event with hr | hr <;>
      exact h.frame rfl rfl rfl rfl rfl rfl (carries_congr (by rw [registered]; rfl) rfl rfl rfl)
        (quiet hr (by decide) (by simp))
  | pipe deleted runs at_event =>
    rcases at_event with hr | hr <;>
      exact h.frame rfl rfl rfl rfl rfl rfl (carries_congr (by rw [deleted]; rfl) rfl rfl rfl)
        (quiet hr (by decide) (by simp))
  | halt stopping runs at_event =>
    rcases at_event with hr | hr <;>
      exact h.frame rfl rfl rfl rfl rfl rfl (carries_congr (ClientReg.stopped_kind _) rfl rfl rfl)
        (quiet hr (by decide) (by simp))
  | stopDel stopping =>
    exact h.frame rfl rfl rfl rfl rfl rfl (carries_congr (ClientReg.deleted_kind _ _) rfl rfl rfl) Iff.rfl
  | dismiss replaced => exact h.frame rfl rfl rfl rfl rfl rfl rfl Iff.rfl
  | connectFails queued fails =>
    have hk : c.registration.kind = .connects := by
      rw [queued]
      rfl
    exact h.begun ok hk (csState_ne _)
  | start queued =>
    exact h.frame rfl rfl rfl rfl rfl rfl (carries_congr (by rw [queued]; rfl) rfl rfl rfl) Iff.rfl
  | startSync starting =>
    refine h.frame rfl rfl rfl rfl rfl rfl ?_ Iff.rfl
    unfold carries
    rw [starting]
    rfl
  | startAsync starting =>
    refine h.frame rfl rfl rfl rfl rfl rfl ?_ Iff.rfl
    unfold carries
    rw [starting]
    rfl
  | startFails starting =>
    have hk : c.registration.kind = .connects := by
      rw [starting]
      rfl
    exact h.begun ok hk (show CsState.error ≠ .success by decide)
  | pick queued =>
    refine h.frame rfl rfl rfl rfl rfl rfl ?_ ?_
    · unfold carries
      rw [queued]
      rfl
    · unfold Replied
      rw [queued]
      simp
  | handleComplete picked => exact h.replyComplete ok picked
  | handleEnded queued lock => exact h.replyEnded ok queued lock
  | pickWritten queued =>
    exact h.frame rfl rfl rfl rfl rfl rfl (carries_congr (by rw [queued]; rfl) rfl rfl rfl) Iff.rfl
  | writtenRead written =>
    refine h.frame rfl rfl rfl rfl rfl rfl ?_ Iff.rfl
    unfold carries
    rw [written]
    rfl
  | @writtenFails st s written =>
    have hr : c.registration ≠ .dropped := by
      rw [written]
      simp
    have hw := ok.waiting (by simp [ClientReg.Polled, written])
    obtain ⟨s', hs', here⟩ := ok.placed.of_writes (by rw [written]; rfl)
    have hs := ok.success_none hr (by rw [here.state]; rcases hs' with rfl | rfl <;> decide)
    obtain rfl := ok.written st s written
    refine h.tells ok (ok.registered hr) ?_ rfl rfl rfl rfl rfl rfl (carries_dropped rfl hs) ?_
    · unfold carries
      rw [written]
      rfl
    · exact ⟨fun hc => absurd hc (csState_ne st), fun hp => absurd hp (unreplied hw hs)⟩
  | release owed => exact h.released owed
  | @call call owed =>
    cases call.finish <;> exact h.heard owed rfl rfl rfl rfl Iff.rfl rfl rfl rfl
  | lockEntry waits lock => exact h.frame rfl rfl rfl rfl rfl rfl rfl Iff.rfl
  | decref leaves => exact h.frame rfl rfl rfl rfl rfl rfl rfl Iff.rfl
  | releaseConn frees => exact h.frame rfl rfl rfl rfl rfl rfl rfl Iff.rfl
  | take idle lock =>
    have here := ok.placed.of_idle idle
    refine h.frame rfl rfl rfl rfl rfl rfl ?_ Iff.rfl
    rw [carries_idle here.kind here.state (by rw [lock]; decide)]
    exact carries_idle here.kind here.state (by simp)
  | takeGone taken gone =>
    have here := ok.placed.of_taken taken
    refine h.frame rfl rfl rfl rfl rfl rfl ?_ Iff.rfl
    rw [carries_idle here.kind here.state (by rw [taken]; decide)]
    exact carries_closing here.kind rfl
  | takeOn taken registered =>
    have here := ok.placed.of_taken taken
    have hm := here.marks
    simp at hm
    have hb := ok.calling_registered (by rw [taken]; decide)
    refine h.begins hb (carries_idle here.kind here.state (by rw [taken]; decide)) rfl rfl rfl rfl rfl rfl
      (carries_sending here.kind here.state rfl) ?_
    rintro (hp | hp)
    · have hphase := here.phase
      rw [show c.reading = .complete from hp] at hphase
      cases hphase
    · exact hp hm.2.1
  | sendSync sends =>
    have here := ok.placed.of_sending sends
    refine h.frame rfl rfl rfl rfl rfl rfl ?_ Iff.rfl
    rw [carries_sending here.kind here.state sends]
    exact carries_reads here.kind (by simp) (by simp)
  | sendAsync sends registered =>
    have here := ok.placed.of_sending sends
    refine h.frame rfl rfl rfl rfl rfl rfl ?_ Iff.rfl
    rw [carries_sending here.kind here.state sends]
    rfl
  | sendGone sends gone =>
    have here := ok.placed.of_sending sends
    refine h.frame rfl rfl rfl rfl rfl rfl ?_ Iff.rfl
    rw [carries_sending here.kind here.state sends]
    exact carries_reads here.kind (by simp) (by simp)
  | sendFails sends =>
    have here := ok.placed.of_sending sends
    refine h.frame rfl rfl rfl rfl rfl rfl ?_ Iff.rfl
    rw [carries_sending here.kind here.state sends]
    exact carries_reads ((ClientReg.deleted_kind _ _).trans here.kind) (by simp) (by simp)
  | unlock unlocks =>
    refine h.frame rfl rfl rfl rfl rfl rfl ?_ Iff.rfl
    unfold carries
    rw [unlocks]
    rfl

/-! ## Every run -/

theorem ClientOk.absent : ClientOk .absent where
  placed := ⟨_, none, _, _, .ended (s := .connecting) (by decide), rfl, rfl, rfl, rfl⟩
  polled h := absurd rfl h
  halted _ := rfl
  unregistered _ := ⟨rfl, rfl, rfl⟩
  launched h := by cases h
  connects h := by cases h
  misused := rfl
  current h := absurd rfl h
  picked s h := by cases h
  written st s h := by cases h

theorem ClientRefs.absent : ClientRefs .absent :=
  .unborn (by decide) rfl rfl (fun h => by cases h) (fun _ => rfl) (fun h => by cases h) rfl

theorem ClientTold.absent : ClientTold .absent :=
  .unborn (by decide) (fun h => by cases h) rfl fun _ => ⟨rfl, rfl⟩

/-- No list, no poller, no result, no request and no thread has the entry. -/
structure ClientConn.Unused (c : ClientConn) : Prop where
  unlinked : c.inIdle = false
  unlocked : c.calling = .none
  unregistered : c.registration = .dropped
  unread : c.reading = .waiting
  handled : c.success = .none
  uncalled : c.calls = []
  unheld : c.waiting = 0 ∧ c.leaving = 0

theorem ClientConn.Unused.holders {c : ClientConn} (h : c.Unused) : c.holders = 0 := by
  unfold ClientConn.holders others
  rw [held_dropped h.unregistered h.handled, h.uncalled, h.unheld.1, h.unheld.2]
  rfl

theorem ClientOk.unused {c : ClientConn} (ok : ClientOk c) (refs : ClientRefs c) (h : c.holders = 0) : c.Unused := by
  unfold ClientConn.holders others at h
  have hdropped : c.registration = .dropped := by
    by_contra hr
    have := held_registered hr
    omega
  have hsuccess : c.success = .none := by
    by_contra hs
    have := held_success hs
    omega
  have hcalls : c.calls = [] := List.eq_nil_of_length_eq_zero (by omega)
  refine ⟨?_, ?_, hdropped, ?_, hsuccess, hcalls, by omega, by omega⟩
  · by_contra hi
    have hkind := (ok.placed.of_idle (by simpa using hi)).kind
    rw [hdropped] at hkind
    cases hkind
  · by_contra hc
    rcases (refs.locked hc).resolve_left (not_not_intro hdropped) with hw | ⟨call, hmem, -⟩
    · omega
    · rw [hcalls] at hmem
      cases hmem
  · exact ok.waiting fun hp => hp.ne_dropped hdropped

/-- What a connection keeps to. -/
structure ClientContract (c : ClientConn) : Prop where
  once : c.released ≤ 1
  /-- `release_conn` is called, or about to be, when nothing and nobody has the entry any more. -/
  released : c.birth = .registered → (c.freeing + c.released = 1 ↔ c.Unused)
  /-- An entry that is taken out of `idle_list` is linked there. -/
  linked : c.misused = false
  /-- A request is told its end once, and `target->release` called for it once. -/
  told : ∀ k, (c.sessions k).released ≤ 1 ∧ (c.sessions k).handled.length ≤ 1
  /-- Both are done or about to be when another request has the connection, or it is idle. -/
  finished : c.birth = .registered → ∀ k < c.seq, k ≠ c.session ∨ c.inIdle = true →
    c.releases k = 1 ∧ c.handles k = 1
  /-- Both are done when nobody has it. -/
  ended : c.birth = .registered → c.Unused → ∀ k < c.seq,
    (c.sessions k).released = 1 ∧ (c.sessions k).handled.length = 1
  /-- It is told `CS_STATE_SUCCESS` if, and only if, its reply is complete. -/
  answered : ∀ k, ∀ st ∈ (c.sessions k).handled, st = .success ↔ c.Answered k

theorem ClientContract.of {c : ClientConn} (ok : ClientOk c) (refs : ClientRefs c) (told : ClientTold c) :
    ClientContract c where
  once := refs.once
  released hb := by
    constructor
    · intro hone
      refine ok.unused refs ?_
      by_contra hpos
      obtain ⟨-, hf, hr⟩ := refs.kept hb (by omega)
      omega
    · exact fun hu => refs.gone hb hu.holders
  linked := ok.misused
  told k := by
    have hr := told.releases k
    have hh := told.handles k
    have hle := owed_le c k
    unfold releases at hr
    unfold handles at hh
    omega
  finished hb k hk hdone := by
    have hone : c.owed k = 1 := if_pos ⟨hb, hk, fun hs => by
      have hidle := hdone.resolve_left (not_not_intro hs)
      have here := ok.placed.of_idle hidle
      refine carries_idle here.kind here.state fun hc => ?_
      have hm := here.marks
      simp [hc] at hm⟩
    exact ⟨(told.releases k).trans hone, (told.handles k).trans hone⟩
  ended hb hu k hk := by
    have hone : c.owed k = 1 := if_pos ⟨hb, hk, fun _ => carries_dropped hu.unregistered hu.handled⟩
    have hr := (told.releases k).trans hone
    have hh := (told.handles k).trans hone
    unfold releases at hr
    unfold handles at hh
    rw [(List.append_eq_nil_iff.1 hu.uncalled).1] at hr
    rw [hu.uncalled] at hh
    exact ⟨hr, hh⟩
  answered := told.handled

/-- **A connection to a target is released once, when nothing has it any more, and each of the requests it carried is
told its end once**, whatever the order of the steps. -/
theorem client_contract {c : ClientConn} (run : Reaches ClientStep always .absent c) : ClientContract c := by
  obtain ⟨ok, refs, told⟩ := run.keeps (P := fun c => ClientOk c ∧ ClientRefs c ∧ ClientTold c)
    (fun _ _ _ ⟨ok, refs, told⟩ _ step => ⟨step.ok ok, step.refs ok refs, step.told ok refs told⟩)
    ⟨.absent, .absent, .absent⟩
  exact .of ok refs told

/-- It is idle behind its first reply. -/
theorem ClientConn.idle_run : ∃ c, Reaches ClientStep always .absent c ∧ c.inIdle = true ∧ c.state = .idle ∧
    c.registration = .table .read ∧ c.halted = false ∧ c.reading = .waiting ∧ c.success = .none ∧
    c.calling = .none ∧ c.releasing = [] ∧ c.due = [] ∧ c.waiting = 0 ∧ c.leaving = 0 ∧ c.freeing = 0 ∧
    c.released = 0 ∧ c.ref = 1 ∧ c.seq = 1 ∧ c.birth = .registered ∧ (c.sessions 0).handled = [.success] := by
  have absent : Reaches ClientStep always .absent .absent := .start
  have added := (absent.next trivial (.launch rfl)).next trivial (.add rfl)
  have connected := (added.next trivial (.connect rfl rfl rfl (.inl rfl))).next trivial (.start rfl)
  have sent := connected.next trivial (.startSync rfl)
  have created := (sent.next trivial (.read (.inl rfl) rfl rfl)).next trivial (.look rfl)
  have reading := created.next trivial (@ClientStep.takeMessage _ true rfl rfl)
  have complete := (reading.next trivial (@ClientStep.append _ true rfl)).next trivial (.post rfl)
  have idle := (complete.next trivial (.pick rfl)).next trivial (.handleComplete rfl)
  have told := (idle.next trivial (@ClientStep.release _ ⟨0, .success, .decref⟩ (by decide))).next trivial
    (@ClientStep.call _ ⟨0, .success, .decref⟩ (by decide))
  have left := told.next trivial (.decref (by decide))
  exact ⟨_, left, rfl, rfl, rfl, rfl, rfl, rfl, rfl, rfl, rfl, rfl, rfl, rfl, rfl, rfl, rfl, rfl, rfl⟩

/-- The target closes it while it waits for the second. -/
theorem client_contract_closed : ∃ c : ClientConn, Reaches ClientStep always .absent c ∧ c.released = 1 ∧
    c.seq = 2 ∧ (c.sessions 0).handled = [.success] ∧ (c.sessions 1).handled = [.error] ∧ ClientContract c := by
  obtain ⟨c, run, hi, hs, hr, hh, hw, hp, hc, hreleasing, hdue, hwaiting, hleaving, hfreeing, hreleased, href, hseq, hb,
    hfirst⟩ := ClientConn.idle_run
  cases c
  dsimp only at hi hs hr hh hw hp hc hreleasing hdue hwaiting hleaving hfreeing hreleased href hseq hb hfirst
  subst hi hs hr hh hw hp hc hreleasing hdue hwaiting hleaving hfreeing hreleased href hseq hb
  have taken := (run.next trivial (.take rfl rfl)).next trivial (.takeOn rfl rfl)
  have sent := (taken.next trivial (.sendSync rfl)).next trivial (.unlock rfl)
  have ended := (sent.next trivial (.readFails (.inl rfl) rfl (.inl rfl) (.inl rfl))).next trivial (.remove rfl)
  have told := ended.next trivial (.handleEnded rfl rfl)
  have called := (told.next trivial (@ClientStep.release _ ⟨1, .error, .decref⟩ (.head _))).next trivial
    (@ClientStep.call _ ⟨1, .error, .decref⟩ (.head _))
  have freed := (called.next trivial (.decref Nat.one_pos)).next trivial (.releaseConn Nat.one_pos)
  exact ⟨_, freed, rfl, rfl, hfirst, rfl, client_contract freed⟩

end Tinywf
