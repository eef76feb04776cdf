import Tinywf.ServerService
/-!
# ServerReplies — what the sessions of a connection are told

A connection has one session at work, its last: those before it were replied to and told how that ended.  How far the
last one is goes with the place of the connection (`TurnPlace`), so a session is told once to reply, and once how its
reply ended (`ConnStep.turns`).
-/
namespace Tinywf

open Lts

/-- How far a session is. -/
inductive Turn where
  | unborn
  /-- From `new_session`. -/
  | fresh
  /-- Told to reply. -/
  | told
  /-- `reply` has taken the entry. -/
  | replying
  /-- `reply` is through, or as good as, and the end of the reply with the poller. -/
  | sent
  /-- Told how its reply ended. -/
  | closed
  /-- Told that there is no request. -/
  | failed
  /-- `reply` found no entry. -/
  | refused
deriving DecidableEq

/-- What is known of a session: calls of `handle` that a thread is about to make count as made. -/
structure Account where
  passive : Nat
  replied : Option Bool
  /-- The calls with `CS_STATE_TOREPLY`. -/
  toreplies : Nat
  /-- The other calls. -/
  furthers : Nat
deriving DecidableEq

def Account.told (a : Account) (st : CsState) : Account :=
  if st = .toreply then { a with toreplies := a.toreplies + 1 } else { a with furthers := a.furthers + 1 }

def Turn.account : Turn → Account
  | unborn => ⟨0, none, 0, 0⟩
  | fresh => ⟨1, none, 0, 0⟩
  | told => ⟨1, none, 1, 0⟩
  | replying => ⟨2, none, 1, 0⟩
  | sent => ⟨2, some true, 1, 0⟩
  | closed => ⟨2, some true, 1, 1⟩
  | failed => ⟨1, none, 0, 1⟩
  | refused => ⟨2, some false, 1, 0⟩

/-- No call of `handle` is to come, unless the user replies. -/
def Turn.Settled (t : Turn) : Prop := t = .told ∨ t = .closed ∨ t = .failed ∨ t = .refused

namespace ServerConn

def account (c : ServerConn) (i : Nat) : Account where
  passive := (c.sessions i).passive
  replied := (c.sessions i).replied
  toreplies := (c.sessions i).handled.count .toreply + c.due.count (i, .toreply)
  furthers := (c.sessions i).handled.countP (· != .toreply) + c.due.countP fun d => d.1 == i && d.2 != .toreply

end ServerConn

/-- The session that the thread at work there has in hand. -/
@[simp] def Success.names : Success → List Nat
  | none => []
  | queued => []
  | picked s => [s]

@[simp] def Replying.names : Replying → List Nat
  | none => []
  | found s => [s]
  | linking s => [s]
  | closing s => [s]
  | unlocking => []

@[simp] def Registration.names : Registration → List Nat
  | table _ => []
  | piped _ => []
  | queued _ _ => []
  | unlinking => []
  | written _ s => [s]
  | dropped => []

/-- The threads at work on the connection have its last session in hand. -/
def ServerConn.Named (c : ServerConn) : Prop :=
  (∀ s ∈ c.success.names, s = c.session) ∧ (∀ s ∈ c.replying.names, s = c.session) ∧
    (∀ s ∈ c.relinking, s = c.session) ∧ ∀ s ∈ c.registration.names, s = c.session

/-- Whether the thread that reads has the entry, for its last session. -/
inductive ReadTurn where
  | quiet | made | busy
deriving DecidableEq

@[simp] def Reading.turn : Reading → ReadTurn
  | waiting => .quiet
  | creating => .quiet
  | blocked => .quiet
  | taking => .quiet
  | taken => .quiet
  | made => .made
  | counting => .busy
  | message => .busy
  | complete => .busy
  | ending _ => .quiet

/-- How far the last session is, by the place of the connection. -/
inductive TurnPlace : ConnState → Option ConnMark → RegKind → ReadTurn → Turn → Prop
  | unborn {k : RegKind} : TurnPlace .connected none k .quiet .unborn
  | made {s : ConnState} : TurnPlace s none .reads .made .fresh
  | receiving {r : ReadTurn} (late : r ≠ .made) : TurnPlace .receiving none .reads r .fresh
  /-- `send_message_async` found no registration. -/
  | given : TurnPlace .receiving none .reads .quiet .sent
  | success {m : Option ConnMark} {r : ReadTurn} (late : r ≠ .made) : TurnPlace .success m .reads r .fresh
  | overtaken : TurnPlace .closing (some .completed) .dropped .quiet .fresh
  | idle : TurnPlace .idle (some .idle) .reads .quiet .told
  | replying : TurnPlace .idle (some .replying) .reads .quiet .replying
  | writing : TurnPlace .idle none .writes .quiet .sent
  | relinking : TurnPlace .idle (some .relinking) .reads .quiet .sent
  | kept {m : Option ConnMark} {k : RegKind} : TurnPlace .keepalive m k .quiet .closed
  | closing {k : RegKind} : TurnPlace .closing none k .quiet .closed
  | failed : TurnPlace .error none .reads .quiet .sent
  | ended {s : ConnState} {t : Turn} (settled : t.Settled) : TurnPlace s none .dropped .quiet t

theorem TurnPlace.settle {s : ConnState} {m : Option ConnMark} {k : RegKind} {r : ReadTurn} {t : Turn}
    (h : TurnPlace s m k r t) (late : r ≠ .made) : TurnPlace s m k .quiet t := by
  cases h with
  | made => exact absurd rfl late
  | receiving late => exact .receiving nofun
  | success late => exact .success nofun
  | unborn => exact .unborn
  | given => exact .given
  | overtaken => exact .overtaken
  | idle => exact .idle
  | replying => exact .replying
  | writing => exact .writing
  | relinking => exact .relinking
  | kept => exact .kept
  | closing => exact .closing
  | failed => exact .failed
  | ended settled => exact .ended settled

/-- The sessions of a connection. -/
structure Turns (c : ServerConn) : Prop where
  last : ∃ m t, c.marks = ConnMark.only m ∧ TurnPlace c.state m c.registration.kind c.reading.turn t ∧
    c.account c.session = t.account ∧ (t = .unborn ∧ c.session = c.seq ∨ t ≠ .unborn ∧ c.session < c.seq)
  others : ∀ i, i ≠ c.session → c.account i = (if i < c.seq then Turn.closed else .unborn).account
  named : c.Named

/-! ## Accounts -/

namespace ServerConn

variable {c c' : ServerConn} {s i : Nat} {st : CsState}

theorem account_congr (sessions : c'.sessions i = c.sessions i) (due : c'.due = c.due) :
    c'.account i = c.account i := by
  unfold account
  rw [sessions, due]

theorem account_owe_self (c : ServerConn) (s : Nat) (st : CsState) :
    (c.owe s st).account s = (c.account s).told st := by
  unfold account Account.told owe
  dsimp only
  rw [List.count_cons, List.countP_cons]
  cases st <;> simp <;> omega

theorem account_owe_ne (h : i ≠ s) (c : ServerConn) (st : CsState) : (c.owe s st).account i = c.account i := by
  have hs : (s == i) = false := beq_false_of_ne h.symm
  unfold account owe
  dsimp only
  rw [List.count_cons, List.countP_cons]
  simp [hs, h.symm]

theorem account_replies_self (c : ServerConn) (s : Nat) :
    (c.replies s).account s = { c.account s with replied := some true } := by
  unfold replies setSession account
  dsimp only
  rw [Function.update_self]

theorem account_replies_ne (h : i ≠ s) (c : ServerConn) : (c.replies s).account i = c.account i := by
  unfold replies setSession account
  dsimp only
  rw [Function.update_of_ne h]

/-- The life of a session is not part of its account. -/
theorem account_setSession_life (c : ServerConn) (s : Nat) (l : SessionLife) (i : Nat) :
    (c.setSession s { c.sessions s with life := l }).account i = c.account i := by
  by_cases hi : i = s
  · subst hi
    unfold setSession account
    dsimp only
    rw [Function.update_self]
  · exact account_congr (Function.update_of_ne hi ..) rfl

/-- A call that was due is made. -/
theorem account_call (c : ServerConn) (owed : (s, st) ∈ c.due) (i : Nat) :
    ({ c.setSession s { c.sessions s with handled := (c.sessions s).handled ++ [st] } with
      due := c.due.erase (s, st) } : ServerConn).account i = c.account i := by
  have hperm := List.perm_cons_erase owed
  have hcount := hperm.count_eq (i, CsState.toreply)
  have hcountP := hperm.countP_eq fun d => d.1 == i && d.2 != .toreply
  rw [List.count_cons] at hcount
  rw [List.countP_cons] at hcountP
  unfold account setSession
  dsimp only
  by_cases hi : i = s
  · subst hi
    rw [Function.update_self, hcount, hcountP, List.count_append, List.countP_append]
    cases st <;> simp <;> omega
  · have hs : (s == i) = false := beq_false_of_ne (Ne.symm hi)
    rw [Function.update_of_ne hi, hcount, hcountP]
    simp [hs, Ne.symm hi]

end ServerConn

theorem Registration.deleted_names (r : Registration) (b : Bool) : (r.deleted b).names = r.names := by
  cases r with
  | table op => cases b <;> rfl
  | _ => rfl

theorem Registration.stopped_names (r : Registration) : r.stopped.names = r.names := by
  cases r <;> rfl

theorem Replying.names_of_uses {r : Replying} (h : r.uses = false) : r.names = [] := by
  cases r <;> first | rfl | cases h

theorem Reading.turn_of_phase {r : Reading} (h : r.phase = .quiet) : r.turn = .quiet := by
  cases r <;> first | rfl | cases h

theorem ServerConn.csState_ne (st : PrSt) : csState st ≠ .toreply := by
  cases st <;> nofun

theorem Account.told_of_ne {a : Account} {st : CsState} (h : st ≠ .toreply) :
    a.told st = { a with furthers := a.furthers + 1 } := if_neg h

theorem ConnMark.only_injective {m m' : Option ConnMark} (h : ConnMark.only m = ConnMark.only m') : m = m' := by
  revert h
  cases m with
  | none => cases m' with
    | none => exact fun _ => rfl
    | some m' => cases m' <;> nofun
  | some m => cases m' with
    | none => cases m <;> nofun
    | some m' => cases m <;> cases m' <;> first | exact fun _ => rfl | nofun

/-! ## The last session and the others -/

namespace Turns

variable {c c' : ServerConn}

theorem absent : Turns .absent :=
  ⟨⟨none, .unborn, rfl, .unborn, rfl, .inl ⟨rfl, rfl⟩⟩, fun _ _ => rfl, nofun, nofun, nofun, nofun⟩

theorem accepted : Turns .accepted :=
  ⟨⟨none, .unborn, rfl, .unborn, rfl, .inl ⟨rfl, rfl⟩⟩, fun _ _ => rfl, nofun, nofun, nofun, nofun⟩

/-- Neither the connection nor what its sessions are told changes. -/
theorem frame (h : Turns c) (state : c'.state = c.state) (marks : c'.marks = c.marks)
    (kind : c'.registration.kind = c.registration.kind) (turn : c'.reading.turn = c.reading.turn)
    (session : c'.session = c.session) (seq : c'.seq = c.seq) (account : ∀ i, c'.account i = c.account i)
    (named : c'.Named) : Turns c' where
  last := by
    obtain ⟨m, t, hm, place, ha, born⟩ := h.last
    refine ⟨m, t, marks.trans hm, ?_, ?_, ?_⟩
    · rw [state, kind, turn]
      exact place
    · rw [session, account]
      exact ha
    · rw [session, seq]
      exact born
  others := by
    rw [session, seq]
    exact fun i hi => (account i).trans (h.others i hi)
  named := named

/-- The thread that reads is done. -/
theorem settle (h : Turns c) (late : c.reading.turn ≠ .made) (state : c'.state = c.state) (marks : c'.marks = c.marks)
    (kind : c'.registration.kind = c.registration.kind) (turn : c'.reading.turn = .quiet)
    (session : c'.session = c.session) (seq : c'.seq = c.seq) (account : ∀ i, c'.account i = c.account i)
    (named : c'.Named) : Turns c' where
  last := by
    obtain ⟨m, t, hm, place, ha, born⟩ := h.last
    refine ⟨m, t, marks.trans hm, ?_, ?_, ?_⟩
    · rw [state, kind, turn]
      exact place.settle late
    · rw [session, account]
      exact ha
    · rw [session, seq]
      exact born
  others := by
    rw [session, seq]
    exact fun i hi => (account i).trans (h.others i hi)
  named := named

/-- How far the last session is, of a connection in that place. -/
theorem here (h : Turns c) {s : ConnState} {m : Option ConnMark} {k : RegKind} {p : ReadPhase} (here : c.At s m k p) :
    ∃ t, TurnPlace s m k c.reading.turn t ∧ c.account c.session = t.account ∧
      (t = .unborn ∧ c.session = c.seq ∨ t ≠ .unborn ∧ c.session < c.seq) := by
  obtain ⟨m', t, hm, place, ha, born⟩ := h.last
  have hmm : m' = m := ConnMark.only_injective (hm.symm.trans here.marks)
  rw [here.state, here.kind, hmm] at place
  exact ⟨t, place, ha, born⟩

theorem started {t : Turn} (born : t = .unborn ∧ c.session = c.seq ∨ t ≠ .unborn ∧ c.session < c.seq)
    (live : t ≠ .unborn) : c.session < c.seq := (born.resolve_left fun hb => live hb.1).2

/-- The last session goes on. -/
theorem moved (h : Turns c) {m : Option ConnMark} {t : Turn} (marks : c'.marks = ConnMark.only m)
    (place : TurnPlace c'.state m c'.registration.kind c'.reading.turn t) (account : c'.account c.session = t.account)
    (live : t ≠ .unborn) (begun : c.session < c.seq) (session : c'.session = c.session) (seq : c'.seq = c.seq)
    (others : ∀ i, i ≠ c.session → c'.account i = c.account i) (named : c'.Named) : Turns c' where
  last := ⟨m, t, marks, place, by rw [session]; exact account, .inr ⟨live, by rw [session, seq]; exact begun⟩⟩
  others := by
    rw [session, seq]
    exact fun i hi => (others i hi).trans (h.others i hi)
  named := named

theorem unstarted (h : Turns c) (seq : c.seq = 0) :
    c.state = .connected ∧ c.marks = ConnMark.only none ∧ c.reading.turn = .quiet ∧ c.session = 0 ∧
      c.account c.session = Turn.unborn.account := by
  obtain ⟨m, t, hm, place, ha, ⟨rfl, hs⟩ | ⟨-, hlt⟩⟩ := h.last
  · have hplace : ∀ {s : ConnState} {k : RegKind} {r : ReadTurn}, TurnPlace s m k r .unborn →
        s = .connected ∧ m = none ∧ r = .quiet := by
      intro s k r hp
      cases hp with
      | unborn => exact ⟨rfl, rfl, rfl⟩
      | ended settled => rcases settled with hs | hs | hs | hs <;> cases hs
    obtain ⟨hstate, rfl, hturn⟩ := hplace place
    exact ⟨hstate, hm, hturn, hs.trans seq, ha⟩
  · omega

/-- The next session is told nothing yet. -/
theorem account_seq (h : Turns c) : c.account c.seq = Turn.unborn.account := by
  obtain ⟨m, t, hm, place, ha, ⟨rfl, hs⟩ | ⟨-, hlt⟩⟩ := h.last
  · rw [← hs]
    exact ha
  · have hothers := h.others c.seq (Nat.ne_of_gt hlt)
    rwa [if_neg (Nat.lt_irrefl _)] at hothers

/-- Only the last session may be replied to. -/
theorem eq_session (h : Turns c) {s : Nat} (passive : (c.sessions s).passive = 1) : s = c.session := by
  by_contra hne
  have hothers := congrArg Account.passive (h.others s hne)
  have hone : (c.account s).passive = 1 := passive
  rw [hone] at hothers
  split at hothers <;> cases hothers

end Turns

/-! ## Every step -/

namespace Turns

variable {c c' : ServerConn} {s : Nat} {st : PrSt}

/-- A session is made for the next request. -/
theorem newSession (h : Turns c) (ok : ConnOk false c) (taken : c.reading = .taken) :
    Turns { c.setSession c.seq ⟨.made, 1, [], none⟩ with reading := .made, session := c.seq, seq := c.seq + 1 } := by
  have hother : ∀ i, i ≠ c.seq → ({ c.setSession c.seq ⟨.made, 1, [], none⟩ with
      reading := .made, session := c.seq, seq := c.seq + 1 } : ServerConn).account i = c.account i := fun i hi =>
    ServerConn.account_congr (Function.update_of_ne hi ..) rfl
  obtain ⟨x, m, k, p, place, here⟩ := ok.placed
  have hp : p = .first := by
    rw [← here.phase, taken]
    rfl
  subst hp
  have hfirst : m = none ∧ k = .reads ∧ (x = .connected ∨ x = .keepalive) := by
    cases place with
    | firstTaken => exact ⟨rfl, rfl, .inl rfl⟩
    | taken => exact ⟨rfl, rfl, .inr rfl⟩
    | receiving reads => rcases reads with hr | hr <;> cases hr
  obtain ⟨rfl, rfl, hx⟩ := hfirst
  obtain ⟨t, turn, ha, born⟩ := h.here here
  rw [taken] at turn
  have hclosed : t ≠ .unborn → t = .closed := fun hne => by
    rcases hx with rfl | rfl
    · cases turn with
      | unborn => exact absurd rfl hne
    · cases turn with
      | kept => rfl
  refine ⟨⟨none, .fresh, here.marks, ?_, ?_, .inr ⟨by decide, Nat.lt_succ_self _⟩⟩, fun i hi => ?_, ?_⟩
  · have hkind : c.registration.kind = .reads := here.kind
    dsimp only [ServerConn.setSession]
    rw [hkind]
    exact .made
  · have hseq := h.account_seq
    unfold ServerConn.account at hseq
    injection hseq with hpassive hreplied htoreplies hfurthers
    unfold ServerConn.account ServerConn.setSession
    dsimp only
    rw [Function.update_self]
    have hdue : c.due.count (c.seq, CsState.toreply) = 0 := Nat.eq_zero_of_add_eq_zero_left htoreplies
    have hdueP := Nat.eq_zero_of_add_eq_zero_left hfurthers
    rw [hdue, hdueP]
    rfl
  · have hi' : i ≠ c.seq := hi
    rw [hother i hi']
    dsimp only
    by_cases hs : i = c.session
    · subst hs
      rcases born with ⟨-, hborn⟩ | ⟨live, hlt⟩
      · exact absurd hborn hi'
      · rw [if_pos (Nat.lt_succ_of_lt hlt), ha, hclosed live]
    · rw [h.others i hs]
      by_cases hlt : i < c.seq
      · rw [if_pos hlt, if_pos (Nat.lt_succ_of_lt hlt)]
      · rw [if_neg hlt, if_neg (by omega)]
  · have hm := here.marks
    simp at hm
    obtain ⟨-, -, hsuccess, hreplying, hrelinking, -⟩ := hm
    refine ⟨?_, ?_, ?_, ?_⟩ <;> dsimp only [ServerConn.setSession]
    · rw [hsuccess]
      exact List.forall_mem_nil _
    · rw [Replying.names_of_uses hreplying]
      exact List.forall_mem_nil _
    · rw [hrelinking]
      exact fun _ hs => (Option.not_mem_none _ hs).elim
    · have hkind := here.kind
      cases hr : c.registration with
      | written st s =>
        rw [hr] at hkind
        cases hkind
      | _ => exact List.forall_mem_nil _

/-- `create_request` takes an entry that was kept alive. -/
theorem take (h : Turns c) (ok : ConnOk false c) (takes : c.reading = .taking) (kept : c.state = .keepalive) :
    Turns { c.listDel with reading := .taken } := by
  obtain ⟨m, k, place, hm, hk⟩ := ok.placed.quietly (by rw [takes]; rfl)
  have hkind := ok.reads_of_polled (ok.inside takes nofun).1 (by rw [kept]; nofun)
  obtain ⟨t, turn, ha, born⟩ := h.here ⟨kept, hm, hkind, rfl⟩
  rw [takes] at turn
  have hmarks : ∃ m', ({ c.listDel with reading := .taken } : ServerConn).marks = ConnMark.only m' := by
    rw [kept, ← hk, hkind] at place
    cases place with
    | alive ends =>
      simp at hm
      exact ⟨none, by simp [ServerConn.listDel, hm]⟩
    | orphan null ends => cases null
    | drained ends =>
      simp at hm
      exact ⟨some .draining, by simp [ServerConn.listDel, hm]⟩
  obtain ⟨m', hm'⟩ := hmarks
  cases turn with
  | kept =>
    refine h.moved (t := .closed) hm' ?_ ha (by decide) (started born (by decide)) rfl rfl (fun _ _ => rfl)
      h.named
    dsimp only [ServerConn.listDel]
    rw [kept]
    exact .kept

theorem receive (h : Turns c) (made : c.reading = .made) :
    Turns { c with reading := .counting, state := .receiving } := by
  obtain ⟨m, t, hm, turn, ha, born⟩ := h.last
  rw [made] at turn
  have hfresh : m = none ∧ c.registration.kind = .reads ∧ t = .fresh := by
    generalize c.state = x, c.registration.kind = k at turn
    cases turn with
    | made => exact ⟨rfl, rfl, rfl⟩
    | receiving late => exact absurd rfl late
    | success late => exact absurd rfl late
  obtain ⟨rfl, hkind, rfl⟩ := hfresh
  refine h.moved (m := none) (t := .fresh) hm ?_ ha (by decide) (started born (by decide)) rfl rfl
    (fun _ _ => rfl) h.named
  dsimp only
  rw [hkind]
  exact .receiving nofun

theorem append (h : Turns c) (reads : c.reading = .message) :
    Turns { c with reading := .complete, state := .success } := by
  obtain ⟨m, t, hm, turn, ha, born⟩ := h.last
  rw [reads] at turn
  have hfresh : c.registration.kind = .reads ∧ t = .fresh := by
    generalize c.state = x, c.registration.kind = k at turn
    cases turn with
    | receiving late => exact ⟨rfl, rfl⟩
    | success late => exact ⟨rfl, rfl⟩
  obtain ⟨hkind, rfl⟩ := hfresh
  refine h.moved (t := .fresh) hm ?_ ha (by decide) (started born (by decide)) rfl rfl (fun _ _ => rfl)
    h.named
  dsimp only
  rw [hkind]
  exact .success nofun

theorem post (h : Turns c) (ok : ConnOk false c) (done : c.reading = .complete) :
    Turns { c with reading := .waiting, success := .queued } := by
  obtain ⟨x, m, k, p, place, here⟩ := ok.placed
  have hp : p = .complete := by
    rw [← here.phase, done]
    rfl
  subst hp
  obtain ⟨t, turn, ha, born⟩ := h.here here
  rw [done] at turn
  have hm := here.marks
  cases place with
  | receiving reads => rcases reads with hr | hr <;> cases hr
  | complete =>
    simp [-Replying.uses] at hm
    cases turn with
    | success late =>
      refine h.moved (m := some .completed) (t := .fresh) (by simp [-Replying.uses, hm]) ?_ ha (by decide)
        (started born (by decide)) rfl rfl (fun _ _ => rfl) ⟨List.forall_mem_nil _, h.named.2⟩
      dsimp only
      rw [here.state, here.kind]
      exact .success nofun

/-- `handle_incoming_request` for a complete request. -/
theorem requestComplete (h : Turns c) (ok : ConnOk false c) (picked : c.success = .picked s) :
    Turns (c.requestComplete s) := by
  have hs : s = c.session := h.named.1 s (by rw [picked]; exact List.mem_singleton_self s)
  subst hs
  have hnamed : ({ c with success := .none } : ServerConn).Named := ⟨List.forall_mem_nil _, h.named.2⟩
  rcases ok.placed.of_success (by rw [picked]; exact Success.noConfusion) with here | here
  · obtain ⟨t, turn, ha, born⟩ := h.here here
    rw [Reading.turn_of_phase here.phase] at turn
    cases turn with
    | success late =>
      have hm := here.marks
      simp [-Replying.uses] at hm
      rw [ServerConn.requestComplete_success here.state]
      refine h.moved (m := some .idle) (t := .told) (by simp [-Replying.uses, ServerConn.owe, hm])
        ?_ ?_ (by decide) ?_ rfl rfl (fun i hi => ServerConn.account_owe_ne hi ..) hnamed
      · dsimp only [ServerConn.owe]
        rw [here.kind, Reading.turn_of_phase here.phase]
        exact .idle
      · rw [ServerConn.account_owe_self]
        exact congrArg (Account.told · .toreply) ha
      · exact started born (by decide)
  · obtain ⟨t, turn, ha, born⟩ := h.here here
    rw [Reading.turn_of_phase here.phase] at turn
    cases turn with
    | overtaken =>
      have hm := here.marks
      simp [-Replying.uses] at hm
      rw [ServerConn.requestComplete_overtaken (by rw [here.state]; decide)]
      refine h.moved (m := none) (t := .told) (by simp [-Replying.uses, ServerConn.owe, hm])
        ?_ ?_ (by decide) ?_ rfl rfl (fun i hi => ServerConn.account_owe_ne hi ..) hnamed
      · dsimp only [ServerConn.owe]
        rw [here.kind, Reading.turn_of_phase here.phase]
        exact .ended (.inl rfl)
      · rw [ServerConn.account_owe_self]
        exact congrArg (Account.told · .toreply) ha
      · exact started born (by decide)

/-- `handle_incoming_request` for a last result. -/
theorem requestEnded (h : Turns c) (ok : ConnOk false c) (queued : c.registration = .queued .read st)
    (lock : c.Unlocked) : Turns (c.requestEnded st) := by
  have hw : c.reading = .waiting := ok.waiting fun ⟨op, hop⟩ => by
    rw [queued] at hop
    rcases hop with hop | hop <;> cases hop
  have hcompleted := ok.ended_success queued
  obtain ⟨m, t, hm, turn, ha, born⟩ := h.last
  rw [queued, hw] at turn
  have begun : t ≠ .unborn → c.session < c.seq := started born
  have hdropped : ({ c with registration := .dropped } : ServerConn).Named :=
    ⟨h.named.1, h.named.2.1, h.named.2.2.1, List.forall_mem_nil _⟩
  -- the last session is told, and the entry has no registration any more
  have told : ∀ {t' : Turn} {st' : CsState}, t ≠ .unborn → m = none → t'.Settled → t.account.told st' = t'.account →
      Turns (ServerConn.owe { c with registration := .dropped } c.session st') := by
    intro t' st' live hnone settled hacc
    subst hnone
    refine h.moved (m := none) (t := t') hm ?_ ?_ ?_ (begun live) rfl rfl (fun i hi => ServerConn.account_owe_ne hi ..)
      hdropped
    · dsimp only [ServerConn.owe]
      rw [hw]
      exact .ended settled
    · rw [ServerConn.account_owe_self, ← hacc]
      exact congrArg (Account.told · st') ha
    · rcases settled with rfl | rfl | rfl | rfl <;> decide
  -- there is no one to tell
  have left : m = none → t = .closed → Turns (ServerConn.leave { c with registration := .dropped }) := by
    intro hnone hclosed
    subst hnone hclosed
    refine h.moved (m := none) (t := .closed) hm ?_ ha (by decide) (begun (by decide)) rfl rfl (fun _ _ => rfl) hdropped
    dsimp only [ServerConn.leave]
    rw [hw]
    exact .ended (.inr (.inl rfl))
  unfold ServerConn.requestEnded
  split
  case h_1 hs =>
    rw [hs] at turn
    cases turn with
    | kept =>
      refine h.moved (m := m) (t := .closed) hm ?_ ha (by decide) (begun (by decide)) rfl rfl (fun _ _ => rfl)
        ⟨h.named.1, h.named.2.1, h.named.2.2.1, List.forall_mem_nil _⟩
      dsimp only
      rw [hs, hw]
      exact .kept
  case h_2 hs =>
    rw [hs] at turn
    have hm' := hm
    cases turn with
    | idle =>
      simp [-Replying.uses] at hm'
      refine h.moved (m := none) (t := .told) (by simp [-Replying.uses, ServerConn.leave, ServerConn.listDel, hm'])
        ?_ ha (by decide) (begun (by decide))
        rfl rfl (fun _ _ => rfl) hdropped
      dsimp only [ServerConn.leave, ServerConn.listDel]
      rw [hw]
      exact .ended (.inl rfl)
    | replying => simp [lock.1] at hm'
    | relinking => simp [lock.2.1] at hm'
  case h_3 hs =>
    rw [hs] at turn
    cases turn with
    | failed => exact told (by decide) rfl (.inr (.inl rfl)) (@Account.told_of_ne _ .error (by decide))
  case h_4 hs =>
    rw [hs] at turn
    have hne := ServerConn.csState_ne st
    cases turn with
    | receiving late => exact told (by decide) rfl (.inr (.inr (.inl rfl))) (Account.told_of_ne hne)
    | given => exact told (by decide) rfl (.inr (.inl rfl)) (Account.told_of_ne hne)
  case h_5 hs =>
    rw [hs] at turn
    cases turn with
    | success late =>
      have hcompleted := (ok.placed.of_success (hcompleted hs)).resolve_right fun here =>
        absurd (hs.symm.trans here.state) (by decide)
      refine h.moved (m := some .completed) (t := .fresh) hcompleted.marks ?_ ha (by decide) (begun (by decide)) rfl rfl
        (fun _ _ => rfl) hdropped
      dsimp only
      rw [hw]
      exact .overtaken
  case h_6 hs =>
    rw [hs] at turn
    cases turn with
    | unborn =>
      refine ⟨⟨none, .unborn, hm, ?_, ha, born⟩, h.others, hdropped⟩
      dsimp only [ServerConn.leave]
      rw [hs, hw]
      exact .unborn
  case h_7 hs =>
    rw [hs] at turn
    cases turn with
    | closing => exact left rfl rfl

/-- `handle_incoming_request` under `service->mutex`. -/
theorem requestUnlinked (h : Turns c) (ok : ConnOk false c) (unlinking : c.registration = .unlinking) :
    Turns c.requestUnlinked := by
  have hw : c.reading = .waiting := ok.waiting fun ⟨op, hop⟩ => by
    rw [unlinking] at hop
    rcases hop with hop | hop <;> cases hop
  have hdropped : ({ c with registration := .dropped } : ServerConn).Named :=
    ⟨h.named.1, h.named.2.1, h.named.2.2.1, List.forall_mem_nil _⟩
  obtain ⟨m, t, hm, turn, ha, born⟩ := h.last
  rw [unlinking, hw] at turn
  unfold ServerConn.requestUnlinked
  rcases ok.placed.of_unlinking unlinking with here | here | ⟨null, here⟩ | here
  all_goals
    have hmm : m = _ := ConnMark.only_injective (hm.symm.trans here.marks)
    rw [here.state, hmm] at turn
    have hs := here.state
    cases turn
  · have hmarks := here.marks
    simp [-Replying.uses] at hmarks
    rw [if_pos hs]
    refine h.moved (m := none) (t := .closed) (by simp [-Replying.uses, ServerConn.leave, ServerConn.listDel, hmarks])
      ?_ ha (by decide)
      (started born (by decide)) rfl rfl (fun _ _ => rfl) hdropped
    dsimp only [ServerConn.leave, ServerConn.listDel]
    rw [hw]
    exact .ended (.inr (.inl rfl))
  · have hmarks := here.marks
    simp [-Replying.uses] at hmarks
    rw [if_pos hs]
    refine h.moved (m := some .draining) (t := .closed)
      (by simp [-Replying.uses, ServerConn.leave, ServerConn.listDel, hmarks])
      ?_ ha
      (by decide)
      (started born (by decide)) rfl rfl (fun _ _ => rfl) hdropped
    dsimp only [ServerConn.leave, ServerConn.listDel]
    rw [hs, hw]
    exact .kept
  · cases null
  · rw [if_neg (by rw [hs]; decide)]
    refine h.moved (m := none) (t := .closed) here.marks ?_ ha (by decide)
      (started born (by decide)) rfl rfl (fun _ _ => rfl) hdropped
    dsimp only [ServerConn.leave]
    rw [hw]
    exact .ended (.inr (.inl rfl))

/-- `handle_reply_result`, when the connection is not kept. -/
theorem written (h : Turns c) (ok : ConnOk false c) (written : c.registration = .written st s) {st' : CsState}
    (ne : st' ≠ .toreply) : Turns (ServerConn.owe { c with registration := .dropped } s st') := by
  have hs : s = c.session := h.named.2.2.2 s (by rw [written]; exact List.mem_singleton_self s)
  subst hs
  have here := ok.placed.of_writes (by rw [written]; rfl)
  obtain ⟨t, turn, ha, born⟩ := h.here here
  have hq := Reading.turn_of_phase here.phase
  rw [hq] at turn
  cases turn with
  | writing =>
    refine h.moved (m := none) (t := .closed) here.marks ?_ ?_ (by decide) (started born (by decide)) rfl
      rfl
      (fun i hi => ServerConn.account_owe_ne hi ..) ⟨h.named.1, h.named.2.1, h.named.2.2.1, List.forall_mem_nil _⟩
    · dsimp only [ServerConn.owe]
      rw [hq]
      exact .ended (.inr (.inl rfl))
    · rw [ServerConn.account_owe_self, Account.told_of_ne ne]
      exact congrArg (fun a : Account => { a with furthers := a.furthers + 1 }) ha

theorem writtenKeep (h : Turns c) (ok : ConnOk false c) (written : c.registration = .written .finished s) :
    Turns { c with ref := c.ref + 1, registration := .table .read, relinking := some s } := by
  have hs : s = c.session := h.named.2.2.2 s (by rw [written]; exact List.mem_singleton_self s)
  subst hs
  have here := ok.placed.of_writes (by rw [written]; rfl)
  obtain ⟨t, turn, ha, born⟩ := h.here here
  have hq := Reading.turn_of_phase here.phase
  have hm := here.marks
  simp [-Replying.uses] at hm
  rw [hq] at turn
  cases turn with
  | writing =>
    refine h.moved (m := some .relinking) (t := .sent) (by simp [-Replying.uses, hm]) ?_ ha (by decide)
      (started born (by decide)) rfl rfl (fun _ _ => rfl)
      ⟨h.named.1, h.named.2.1, ?_, nofun⟩
    · dsimp only
      rw [here.state, hq]
      exact .relinking
    · rintro _ ⟨⟩
      rfl

theorem asyncKept (h : Turns c) (ok : ConnOk false c) (relinks : c.relinking = some s) (kept : Bool) :
    Turns (c.asyncKept kept s) := by
  have hs : s = c.session := h.named.2.2.1 s relinks
  subst hs
  have here := ok.placed.of_relinking relinks
  obtain ⟨t, turn, ha, born⟩ := h.here here
  have hq := Reading.turn_of_phase here.phase
  have hm := here.marks
  simp [-Replying.uses] at hm
  rw [hq] at turn
  cases turn with
  | relinking =>
    have begun := started born (by decide)
    have hacc : (c.account c.session).told .success = Turn.closed.account := congrArg (Account.told · .success) ha
    unfold ServerConn.asyncKept
    cases kept with
    | true =>
      refine h.moved (m := some .alive) (t := .closed) (by simp [-Replying.uses, ServerConn.owe, hm])
        ?_ ?_ (by decide) begun rfl rfl (fun i hi => ServerConn.account_owe_ne hi ..)
        ⟨h.named.1, h.named.2.1, fun _ hs => (Option.not_mem_none _ hs).elim, h.named.2.2.2⟩
      · dsimp only [ServerConn.owe]
        rw [if_pos rfl, hq]
        exact .kept
      · rw [ServerConn.account_owe_self]
        exact hacc
    | false =>
      refine h.moved (m := none) (t := .closed) (by simp [-Replying.uses, ServerConn.owe, ServerConn.mpollerDel, hm])
        ?_ ?_ (by decide) begun
        rfl rfl (fun i hi => ServerConn.account_owe_ne hi ..) ⟨h.named.1, h.named.2.1,
        fun _ hs => (Option.not_mem_none _ hs).elim, ?_⟩
      · dsimp only [ServerConn.owe, ServerConn.mpollerDel]
        rw [if_neg (by decide), hq]
        exact .closing
      · rw [ServerConn.account_owe_self]
        exact hacc
      · dsimp only [ServerConn.owe, ServerConn.mpollerDel]
        rw [if_neg (by decide), Registration.deleted_names]
        exact h.named.2.2.2

/-- `reply` takes the entry. -/
theorem reply (h : Turns c) (ok : ConnOk false c) (passive : (c.sessions s).passive = 1) (idle : c.inIdle = true) :
    Turns { (c.setSession s { c.sessions s with passive := 2 }).listDel with replying := .found s } := by
  have hs := h.eq_session passive
  subst hs
  have here := ok.placed.of_idle idle
  obtain ⟨t, turn, ha, born⟩ := h.here here
  have hq := Reading.turn_of_phase here.phase
  have hm := here.marks
  simp [-Replying.uses] at hm
  rw [hq] at turn
  cases turn with
  | idle =>
    refine h.moved (m := some .replying) (t := .replying) (by simp [ServerConn.listDel, ServerConn.setSession, hm]) ?_
      ?_
      (by decide) (started born (by decide)) rfl rfl
      (fun i hi => ServerConn.account_congr (Function.update_of_ne hi ..) rfl)
      ⟨h.named.1, fun x hx => List.mem_singleton.1 hx, h.named.2.2⟩
    · dsimp only [ServerConn.listDel, ServerConn.setSession]
      rw [here.state, here.kind, hq]
      exact .replying
    · have hacc : ({ c.account c.session with passive := 2 } : Account) = Turn.replying.account :=
        congrArg (fun a : Account => { a with passive := 2 }) ha
      rw [← hacc]
      unfold ServerConn.account ServerConn.listDel ServerConn.setSession
      dsimp only
      rw [Function.update_self]

/-- `reply` finds no entry. -/
theorem replyNone (h : Turns c) (passive : (c.sessions s).passive = 1) (told : .toreply ∈ (c.sessions s).handled)
    (idle : c.inIdle = false) : Turns (c.setSession s { c.sessions s with passive := 2, replied := some false }) := by
  have hs := h.eq_session passive
  subst hs
  obtain ⟨m, t, hm, turn, ha, born⟩ := h.last
  have hpassive : t.account.passive = 1 := (congrArg Account.passive ha).symm.trans passive
  have htold : 0 < t.account.toreplies := by
    rw [← congrArg Account.toreplies ha]
    exact Nat.add_pos_left (List.count_pos_iff.2 told) _
  have ht : t = .told := by
    cases t <;> first | rfl | exact absurd hpassive (by decide) | exact absurd htold (by decide)
  subst ht
  have hacc : ({ c.account c.session with passive := 2, replied := some false } : Account) = Turn.refused.account :=
    congrArg (fun a : Account => { a with passive := 2, replied := some false }) ha
  have hplace : TurnPlace c.state m c.registration.kind c.reading.turn .refused := by
    generalize c.state = x, c.registration.kind = k, c.reading.turn = r at turn
    cases turn with
    | idle =>
      have hidle : c.inIdle = true := congrArg ConnMarks.idle hm
      exact absurd (idle.symm.trans hidle) nofun
    | ended settled => exact .ended (.inr (.inr (.inr rfl)))
  refine h.moved (m := m) (t := .refused) hm hplace ?_ nofun (started born (by decide)) rfl rfl
    (fun i hi => ServerConn.account_congr (Function.update_of_ne hi ..) rfl) h.named
  rw [← hacc]
  unfold ServerConn.account ServerConn.setSession
  dsimp only
  rw [Function.update_self]

/-- The last session of a connection that `reply` has taken. -/
theorem at_reply (h : Turns c) (ok : ConnOk false c) (uses : c.replying.uses = true) :
    c.account c.session = Turn.replying.account ∧ c.session < c.seq := by
  have here := ok.placed.of_replying uses
  obtain ⟨t, turn, ha, born⟩ := h.here here
  rw [Reading.turn_of_phase here.phase] at turn
  cases turn with
  | replying => exact ⟨ha, (started born (by decide))⟩

/-- `reply` is through, and the poller has the connection. -/
theorem sent (h : Turns c) (ok : ConnOk false c) (uses : c.replying.uses = true) (named : s = c.session)
    {m : Option ConnMark}
    (sessions : c'.sessions = c.sessions) (due : c'.due = c.due) (session : c'.session = c.session)
    (seq : c'.seq = c.seq)
    (marks : c'.marks = ConnMark.only m) (place : TurnPlace c'.state m c'.registration.kind c'.reading.turn .sent)
    (named' : c'.Named) : Turns (c'.replies s) := by
  subst named
  obtain ⟨ha, begun⟩ := h.at_reply ok uses
  have hsame : ∀ i, c'.account i = c.account i := fun i => ServerConn.account_congr (by rw [sessions]) due
  refine h.moved (m := m) (t := .sent) marks place ?_ nofun begun session seq
    (fun i hi => (ServerConn.account_replies_ne hi c').trans (hsame i)) named'
  rw [ServerConn.account_replies_self, hsame, ha]
  rfl

/-- `reply` is through, and calls `handle`. -/
theorem calls (h : Turns c) (ok : ConnOk false c) (uses : c.replying.uses = true) (named : s = c.session)
    {m : Option ConnMark}
    (sessions : c'.sessions = c.sessions) (due : c'.due = c.due) (session : c'.session = c.session)
    (seq : c'.seq = c.seq)
    (marks : c'.marks = ConnMark.only m) (place : TurnPlace c'.state m c'.registration.kind c'.reading.turn .closed)
    (named' : c'.Named) : Turns ((c'.owe s .success).replies s) := by
  subst named
  obtain ⟨ha, begun⟩ := h.at_reply ok uses
  have hsame : ∀ i, c'.account i = c.account i := fun i => ServerConn.account_congr (by rw [sessions]) due
  refine h.moved (m := m) (t := .closed) marks place ?_ nofun begun session seq (fun i hi => ?_) named'
  · rw [ServerConn.account_replies_self, ServerConn.account_owe_self, hsame, ha]
    rfl
  · rw [ServerConn.account_replies_ne hi, ServerConn.account_owe_ne hi, hsame]

/-- `drain` has the entry. -/
theorem drainTaken (h : Turns c) (ok : ConnOk false c) (alive : c.inAlive = true) : Turns c.drainTaken := by
  obtain ⟨k, ends, here⟩ := ok.placed.of_alive alive
  obtain ⟨t, turn, ha, born⟩ := h.here here
  have hq := Reading.turn_of_phase here.phase
  have hm := here.marks
  simp [-Replying.uses] at hm
  rw [hq] at turn
  have hne : t ≠ .unborn ∧ t = .closed := by
    rcases ends with rfl | rfl <;> cases turn <;> exact ⟨nofun, rfl⟩
  obtain ⟨live, rfl⟩ := hne
  refine h.moved (m := some .draining) (t := .closed)
    (by simp [-Replying.uses, ServerConn.drainTaken, ServerConn.listDel, ServerConn.mpollerDel, hm]) ?_ ha (by decide)
    (started born (by decide)) rfl rfl (fun _ _ => rfl) ⟨h.named.1, h.named.2.1, h.named.2.2.1, ?_⟩
  · dsimp only [ServerConn.drainTaken, ServerConn.listDel, ServerConn.mpollerDel]
    rw [here.state, hq]
    exact .kept
  · dsimp only [ServerConn.drainTaken, ServerConn.listDel, ServerConn.mpollerDel]
    rw [Registration.deleted_names]
    exact h.named.2.2.2

theorem drainClosed (h : Turns c) (ok : ConnOk false c) (draining : c.draining = true) : Turns c.drainClosed := by
  obtain ⟨k, ends, here⟩ := ok.placed.of_draining draining
  obtain ⟨t, turn, ha, born⟩ := h.here here
  have hq := Reading.turn_of_phase here.phase
  have hm := here.marks
  simp [-Replying.uses] at hm
  rw [hq] at turn
  have hne : t = .closed := by
    rcases ends with rfl | rfl <;> cases turn <;> rfl
  subst hne
  refine h.moved (m := none) (t := .closed) (by simp [-Replying.uses, ServerConn.drainClosed, hm]) ?_ ha (by decide)
    (started born (by decide)) rfl rfl (fun _ _ => rfl) h.named
  dsimp only [ServerConn.drainClosed]
  rw [hq]
  exact .closing

end Turns

open ServerConn in
/-- **Every step tells the last session what is its turn**, and no other anything. -/
theorem ConnStep.turns {view : ServiceView} {a : ConnAct} {c c' : ServerConn} (ok : ConnOk false c)
    (unstarted : c.birth ≠ .registered → c.seq = 0) (h : Turns c) (session : a ≠ .newSession false)
    (step : ConnStep view a c c') : Turns c' := by
  have hnamed := h.named
  cases step with
  | refuse new => exact h.frame rfl rfl rfl rfl rfl rfl (fun _ => rfl) hnamed
  | enter new =>
    have hseq := unstarted (by rw [new]; decide)
    exact h.frame (h.unstarted hseq).1.symm rfl rfl rfl rfl hseq.symm (fun _ => rfl) hnamed
  | add new =>
    have hseq := unstarted (by rw [new]; decide)
    obtain ⟨hs, hm, hturn, hsession, ha⟩ := h.unstarted hseq
    refine ⟨⟨none, .unborn, hm, ?_, ha, .inl ⟨rfl, hsession.trans hseq.symm⟩⟩, h.others,
      hnamed.1, hnamed.2.1, hnamed.2.2.1, List.forall_mem_nil _⟩
    dsimp only
    rw [hs, hturn]
    exact .unborn
  | addFails new => exact h.frame rfl rfl rfl rfl rfl rfl (fun _ => rfl) hnamed
  | check looks =>
    split
    · exact h.frame rfl rfl (Registration.deleted_kind _ _) rfl rfl rfl (fun _ => rfl)
        ⟨hnamed.1, hnamed.2.1, hnamed.2.2.1, (Registration.deleted_names ..).symm ▸ hnamed.2.2.2⟩
    · exact h.frame rfl rfl rfl rfl rfl rfl (fun _ => rfl) hnamed
  | read registered runs at_message =>
    exact h.frame rfl rfl rfl (by rw [at_message]; rfl) rfl rfl (fun _ => rfl) hnamed
  | readFails registered runs at_message fails =>
    refine h.settle ?_ rfl rfl rfl rfl rfl rfl (fun _ => rfl) hnamed
    rcases at_message with hr | hr <;> rw [hr] <;> decide
  | remove ends =>
    refine h.frame rfl rfl ?_ (by rw [ends]; rfl) rfl rfl (fun _ => rfl) ⟨hnamed.1, hnamed.2.1, hnamed.2.2.1, ?_⟩
    · dsimp only
      split
      · rename_i ht
        rw [ht]
        rfl
      · rfl
    · dsimp only
      split
      · exact List.forall_mem_nil _
      · exact hnamed.2.2.2
  | look creates =>
    refine h.frame rfl rfl rfl ?_ rfl rfl (fun _ => rfl) hnamed
    dsimp only
    rw [creates]
    split <;> rfl
  | pass blocks lock => exact h.frame rfl rfl rfl (by rw [blocks]; rfl) rfl rfl (fun _ => rfl) hnamed
  | take takes lock kept => exact h.take ok takes kept
  | takeFirst takes lock first => exact h.frame rfl rfl rfl (by rw [takes]; rfl) rfl rfl (fun _ => rfl) hnamed
  | takeNone takes lock kept first => exact h.frame rfl rfl rfl (by rw [takes]; rfl) rfl rfl (fun _ => rfl) hnamed
  | newSession taken => exact h.newSession ok taken
  | noSession taken => exact absurd rfl session
  | receive made => exact h.receive made
  | @count _ b counts =>
    have hlife := account_setSession_life c c.session .counted
    cases b with
    | true => exact h.frame rfl rfl rfl (by rw [counts]; rfl) rfl rfl hlife hnamed
    | false => exact h.settle (by rw [counts]; decide) rfl rfl rfl rfl rfl rfl hlife hnamed
  | append reads => exact h.append reads
  | post done => exact h.post ok done
  | @timeOut _ op registered runs at_event =>
    refine h.settle ?_ rfl rfl (by rw [registered]; cases op <;> rfl) rfl rfl rfl (fun _ => rfl)
      ⟨hnamed.1, hnamed.2.1, hnamed.2.2.1, List.forall_mem_nil _⟩
    rcases at_event with hr | hr <;> rw [hr] <;> decide
  | @pipe _ op deleted runs at_event =>
    refine h.settle ?_ rfl rfl (by rw [deleted]; cases op <;> rfl) rfl rfl rfl (fun _ => rfl)
      ⟨hnamed.1, hnamed.2.1, hnamed.2.2.1, List.forall_mem_nil _⟩
    rcases at_event with hr | hr <;> rw [hr] <;> decide
  | write registered runs at_event ends =>
    exact h.frame rfl rfl (by rw [registered]; rfl) rfl rfl rfl (fun _ => rfl)
      ⟨hnamed.1, hnamed.2.1, hnamed.2.2.1, List.forall_mem_nil _⟩
  | halt stopping runs at_event =>
    refine h.settle ?_ rfl rfl (Registration.stopped_kind _) rfl rfl rfl (fun _ => rfl)
      ⟨hnamed.1, hnamed.2.1, hnamed.2.2.1, (Registration.stopped_names _).symm ▸ hnamed.2.2.2⟩
    rcases at_event with hr | hr <;> rw [hr] <;> decide
  | dismiss replaced => exact h.frame rfl rfl rfl rfl rfl rfl (fun _ => rfl) hnamed
  | pick queued =>
    exact h.frame rfl (by simp only [ServerConn.marks, queued]; rfl) rfl rfl rfl rfl (fun _ => rfl)
      ⟨fun x hx => List.mem_singleton.1 hx, hnamed.2⟩
  | handleComplete picked lock => exact h.requestComplete ok picked
  | handleEnded queued lock => exact h.requestEnded ok queued lock
  | unlink unlinking lock => exact h.requestUnlinked ok unlinking
  | pickWritten queued =>
    exact h.frame rfl rfl (by rw [queued]; rfl) rfl rfl rfl (fun _ => rfl)
      ⟨hnamed.1, hnamed.2.1, hnamed.2.2.1, fun x hx => List.mem_singleton.1 hx⟩
  | writtenKeep written lock => exact h.writtenKeep ok written
  | writtenClose written => exact h.written ok written (by decide)
  | writtenFails written fails => exact h.written ok written (csState_ne _)
  | relink relinks lock => exact h.asyncKept ok relinks _
  | call owed => exact h.frame rfl rfl rfl rfl rfl rfl (account_call c owed) hnamed
  | decref leaves => exact h.frame rfl rfl rfl rfl rfl rfl (fun _ => rfl) hnamed
  | release frees => exact h.frame rfl rfl rfl rfl rfl rfl (fun _ => rfl) hnamed
  | dropTarget drops => exact h.frame rfl rfl rfl rfl rfl rfl (fun _ => rfl) hnamed
  | reply passive told life lock idle => exact h.reply ok passive idle
  | replyNone passive told life lock idle => exact h.replyNone passive told idle
  | @replyFails _ s found =>
    have uses : c.replying.uses = true := by
      rw [found]
      rfl
    have here := ok.placed.of_replying uses
    have hm := here.marks
    simp [-Replying.uses] at hm
    refine @Turns.sent c _ _ h ok uses (hnamed.2.1 s (by rw [found]; exact List.mem_singleton_self s)) none rfl rfl rfl
      rfl
      (by simp [mpollerDel, hm]) ?_ ⟨hnamed.1, List.forall_mem_nil _, hnamed.2.2.1,
      (Registration.deleted_names ..).symm ▸ hnamed.2.2.2⟩
    dsimp only [mpollerDel]
    rw [Registration.deleted_kind, here.kind, Reading.turn_of_phase here.phase]
    exact .failed
  | @sync _ s keep found =>
    refine h.frame rfl ?_ rfl rfl rfl rfl (fun _ => rfl) ⟨hnamed.1, ?_, hnamed.2.2⟩
    · simp only [ServerConn.marks, found]
      cases keep <;> rfl
    · have hs : s = c.session := hnamed.2.1 s (by rw [found]; exact List.mem_singleton_self s)
      subst hs
      cases keep <;> exact fun x hx => List.mem_singleton.1 hx
  | @link _ s linking lock =>
    have uses : c.replying.uses = true := by
      rw [linking]
      rfl
    have here := ok.placed.of_replying uses
    have hs : s = c.session := hnamed.2.1 s (by rw [linking]; exact List.mem_singleton_self s)
    have hm := here.marks
    simp [-Replying.uses] at hm
    unfold syncKept
    split
    · refine @Turns.calls c _ _ h ok uses hs (some .alive) rfl rfl rfl rfl (by simp [hm]) ?_
        ⟨hnamed.1, List.forall_mem_nil _, hnamed.2.2⟩
      dsimp only
      rw [Reading.turn_of_phase here.phase]
      exact .kept
    · subst hs
      exact h.frame rfl (by simp only [ServerConn.marks, linking]; rfl) rfl rfl rfl rfl (fun _ => rfl)
        ⟨hnamed.1, fun x hx => List.mem_singleton.1 hx, hnamed.2.2⟩
  | @close _ s closing =>
    have uses : c.replying.uses = true := by
      rw [closing]
      rfl
    have here := ok.placed.of_replying uses
    have hm := here.marks
    simp [-Replying.uses] at hm
    refine @Turns.calls c _ _ h ok uses (hnamed.2.1 s (by rw [closing]; exact List.mem_singleton_self s)) none rfl rfl
      rfl rfl
      (by simp [mpollerDel, hm]) ?_ ⟨hnamed.1, List.forall_mem_nil _, hnamed.2.2.1,
      (Registration.deleted_names ..).symm ▸ hnamed.2.2.2⟩
    dsimp only [mpollerDel]
    rw [Reading.turn_of_phase here.phase]
    exact .closing
  | @async _ s op found registered =>
    have uses : c.replying.uses = true := by
      rw [found]
      rfl
    have here := ok.placed.of_replying uses
    have hm := here.marks
    simp [-Replying.uses] at hm
    refine @Turns.sent c _ _ h ok uses (hnamed.2.1 s (by rw [found]; exact List.mem_singleton_self s)) none rfl rfl rfl
      rfl
      (by simp [hm]) ?_ ⟨hnamed.1, List.forall_mem_nil _, hnamed.2.2.1, List.forall_mem_nil _⟩
    dsimp only
    rw [here.state, Reading.turn_of_phase here.phase]
    exact .writing
  | unlock unlocking =>
    exact h.frame rfl (by simp only [ServerConn.marks, unlocking]; rfl) rfl rfl rfl rfl (fun _ => rfl)
      ⟨hnamed.1, List.forall_mem_nil _, hnamed.2.2⟩
  | @asyncGone _ s found gone =>
    have uses : c.replying.uses = true := by
      rw [found]
      rfl
    have here := ok.placed.of_replying uses
    have hm := here.marks
    simp [-Replying.uses] at hm
    refine @Turns.sent c _ _ h ok uses (hnamed.2.1 s (by rw [found]; exact List.mem_singleton_self s)) none rfl rfl rfl
      rfl
      (by simp [hm]) ?_ ⟨hnamed.1, List.forall_mem_nil _, hnamed.2.2⟩
    dsimp only
    rw [here.kind, Reading.turn_of_phase here.phase]
    exact .given
  | @destroy _ s unused passive lock =>
    have hlife := account_setSession_life c s .destroyed
    split
    · exact h.frame rfl rfl (Registration.deleted_kind _ _) rfl rfl rfl hlife
        ⟨hnamed.1, hnamed.2.1, hnamed.2.2.1, (Registration.deleted_names ..).symm ▸ hnamed.2.2.2⟩
    · exact h.frame rfl rfl rfl rfl rfl rfl hlife hnamed
  | @destroyReplied _ s unused passive =>
    exact h.frame rfl rfl rfl rfl rfl rfl (account_setSession_life c s .destroyed) hnamed

/-! ## Every run -/

section

variable {ι : Type} {s s' : CommService ι} {a : ServiceAct ι}

/-- `new_session` has a session for every request. -/
def SessionForEach (_ : CommService ι) (a : ServiceAct ι) : Prop := ∀ i, a ≠ .conn i (.newSession false)

theorem ServiceStep.turns [DecidableEq ι] (ok : ServiceOk false s) (refs : ServiceRefs s) (h : ∀ i, Turns (s.conns i))
    (session : SessionForEach s a) (step : ServiceStep s a s') : ∀ i, Turns (s'.conns i) := by
  cases step with
  | @conn i b c step =>
    exact CommService.setConn_all h
      (step.turns (ok.conns i) (refs.target i).unstarted (h i) fun hb => session i (by rw [hb]))
  | accept registered runs new => exact CommService.setConn_all h .accepted
  | @drainTake d i drains at_loop more alive => exact CommService.setConn_all h ((h i).drainTaken (ok.conns i) alive)
  | @drainSet d i drains taken =>
    exact CommService.setConn_all h ((h i).drainClosed (ok.conns i) ((ok.draining i).2 ⟨d, drains, taken⟩))
  | @targetUnref i unref =>
    exact CommService.setConn_all h ((h i).frame rfl rfl rfl rfl rfl rfl (fun _ => rfl) (h i).named)
  | @targetUnbound i unbinding =>
    exact CommService.setConn_all h ((h i).frame rfl rfl rfl rfl rfl rfl (fun _ => rfl) (h i).named)
  | @targetDeleted i deleting =>
    exact CommService.setConn_all h ((h i).frame rfl rfl rfl rfl rfl rfl (fun _ => rfl) (h i).named)
  | _ => exact h

end

/-- No list, no poller, no result and no thread has the entry. -/
structure ServerConn.Unused (c : ServerConn) : Prop where
  unlinked : c.inIdle = false ∧ c.inAlive = false
  undrained : c.draining = false
  unregistered : c.registration = .dropped
  unread : c.reading = .waiting
  handled : c.success = .none
  unreplied : c.replying.uses = false ∧ c.relinking = none
  undue : c.due = [] ∧ c.leaving = 0

theorem ServerConn.Unused.holders {c : ServerConn} (h : c.Unused) : c.holders = 0 := by
  unfold ServerConn.holders ServerConn.others
  rw [ServerConn.held_dropped h.unregistered h.handled, h.undue.1, h.undue.2, h.unreplied.2,
    Replying.holds_of_uses h.unreplied.1]
  rfl

theorem ConnOk.unused {nulls : Bool} {c : ServerConn} (ok : ConnOk nulls c) (h : c.holders = 0) : c.Unused := by
  unfold ServerConn.holders ServerConn.others at h
  have hdropped : c.registration = .dropped := by
    by_contra hr
    have := ServerConn.held_registered hr
    omega
  have hsuccess : c.success = .none := by
    by_contra hs
    have := ServerConn.held_success hs
    omega
  have hmarks : c.marks = ConnMark.only none := by
    obtain ⟨x, m, k, p, place, here⟩ := ok.placed
    have hk : k = .dropped := by
      rw [← here.kind, hdropped]
      rfl
    subst hk
    cases place with
    | overtaken =>
      have hm := congrArg ConnMarks.completed here.marks
      simp [hsuccess] at hm
    | ended state => exact here.marks
    | alive ends => rcases ends with hk | hk <;> cases hk
    | orphan null ends => rcases ends with hk | hk <;> cases hk
    | drained ends => rcases ends with hk | hk <;> cases hk
    | closing ends => rcases ends with hk | hk <;> cases hk
  have hread : c.reading = .waiting := ok.waiting fun hr => by
    obtain ⟨op, hop⟩ := hr
    rw [hdropped] at hop
    rcases hop with hop | hop <;> cases hop
  have hdue : c.due.length = 0 := by omega
  have hleaving : c.leaving = 0 := by omega
  have hreplying : c.replying.uses = false := congrArg ConnMarks.replying hmarks
  have hrelinking : c.relinking.isSome = false := congrArg ConnMarks.relinking hmarks
  exact ⟨⟨congrArg ConnMarks.idle hmarks, congrArg ConnMarks.alive hmarks⟩, congrArg ConnMarks.draining hmarks,
    hdropped,
    hread, hsuccess, ⟨hreplying, by simpa using hrelinking⟩, ⟨List.length_eq_zero_iff.1 hdue, hleaving⟩⟩

/-- What a connection keeps to. -/
structure ConnContract (c : ServerConn) : Prop where
  once : c.released ≤ 1
  /-- `release_conn` is called, or about to be, when nothing and nobody has the entry any more. -/
  released : c.birth = .registered → (c.freeing + c.released = 1 ↔ c.Unused)
  /-- The target is referred to by its connection until that is released, by the sessions, and by the threads that are
  to call `decref`. -/
  target : c.targetRef = (c.own + c.counted + c.dropping : Nat)
  /-- A session is told once to reply. -/
  toreply : ∀ i, (c.sessions i).handled.count .toreply ≤ 1
  /-- It is told no more than one other thing. -/
  further : ∀ i, (c.sessions i).handled.countP (· != .toreply) ≤ 1
  /-- It is told when `reply` is back with 0, or else the connection is not released. -/
  replied : ∀ i, (c.sessions i).replied = some true → c.Unused → (c.sessions i).handled.countP (· != .toreply) = 1

theorem Turn.account_le (t : Turn) : t.account.toreplies ≤ 1 ∧ t.account.furthers ≤ 1 := by
  cases t <;> decide

theorem Turn.replied_cases {t : Turn} (h : t.account.replied = some true) : t = .sent ∨ t = .closed := by
  cases t <;> first | exact .inl rfl | exact .inr rfl | cases h

theorem TurnPlace.not_sent {s : ConnState} {m : Option ConnMark} {r : ReadTurn} : ¬TurnPlace s m .dropped r .sent := by
  intro h
  cases h with
  | ended settled => rcases settled with hs | hs | hs | hs <;> cases hs

/-- How far any session is. -/
theorem Turns.turn {c : ServerConn} (h : Turns c) (i : Nat) :
    ∃ t : Turn, c.account i = t.account ∧ (c.registration = .dropped → t ≠ .sent) := by
  by_cases hi : i = c.session
  · obtain ⟨m, t, hm, place, ha, -⟩ := h.last
    subst hi
    refine ⟨t, ha, fun hdropped hsent => ?_⟩
    rw [hdropped, hsent] at place
    exact place.not_sent
  · refine ⟨_, h.others i hi, fun _ => ?_⟩
    split <;> nofun

theorem ConnContract.of {c : ServerConn} (ok : ConnOk false c) (entry : EntryRefs c) (target : TargetRefs c)
    (turns : Turns c) : ConnContract c where
  once := entry.once
  released hb := by
    constructor
    · intro hone
      refine ok.unused ?_
      by_contra hpos
      obtain ⟨hf, hr⟩ := entry.kept hb (by omega)
      omega
    · exact fun hu => entry.gone hb hu.holders
  target := target.counted
  toreply i := by
    obtain ⟨t, ha, -⟩ := turns.turn i
    have hle : (c.account i).toreplies ≤ 1 := ha ▸ t.account_le.1
    exact (Nat.le_add_right _ _).trans hle
  further i := by
    obtain ⟨t, ha, -⟩ := turns.turn i
    have hle : (c.account i).furthers ≤ 1 := ha ▸ t.account_le.2
    exact (Nat.le_add_right _ _).trans hle
  replied i hreplied hu := by
    obtain ⟨t, ha, hsent⟩ := turns.turn i
    have ht : t.account.replied = some true := (congrArg Account.replied ha).symm.trans hreplied
    have hclosed := (Turn.replied_cases ht).resolve_left (hsent hu.unregistered)
    have hone : (c.account i).furthers = 1 := by
      rw [ha, hclosed]
      rfl
    unfold ServerConn.account at hone
    dsimp only at hone
    rwa [hu.undue.1, List.countP_nil, Nat.add_zero] at hone

/-- **A connection is released once, when nothing has it any more, and each of its sessions is told once to reply and
once how that ended**, whatever the order of the steps. -/
theorem conn_contract {ι : Type} [DecidableEq ι] {s : CommService ι}
    (run : Reaches ServiceStep SessionForEach (.bound : CommService ι) s) (i : ι) : ConnContract (s.conns i) := by
  have hkept : ∀ t, Reaches ServiceStep SessionForEach (.bound : CommService ι) t → ServiceOk false t ∧ ServiceKept t :=
    fun t run => ⟨run.keeps (fun s a s' h session step => step.ok h fun i ha => absurd ha (session i)) .bound,
      .of_run run.anyway⟩
  have hturns : ∀ i, Turns (s.conns i) :=
    run.keeps_of (P := fun s => ∀ i, Turns (s.conns i)) hkept
      (fun s a s' known h session step => step.turns known.1 known.2.refs h session) fun _ => .absent
  obtain ⟨ok, kept⟩ := hkept s run
  exact .of (ok.conns i) (kept.refs.entry i) (kept.refs.target i) (hturns i)

theorem conn_contract_kept : ∃ s : CommService Unit, Reaches ServiceStep SessionForEach .bound s ∧
    KeptAlive (s.conns ()) ∧ ConnContract (s.conns ()) := by
  obtain ⟨c, run, hc⟩ := ConnRun.kept
  have hrun : Reaches ServiceStep SessionForEach (.bound : CommService Unit) _ :=
    CommService.reaches_conn (i := ()) (accepted_run nofun) (fun _ _ h j hj => by cases hj; exact absurd rfl h) run
  exact ⟨_, hrun, hc, conn_contract hrun ()⟩

end Tinywf
