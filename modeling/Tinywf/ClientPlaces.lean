import Tinywf.ClientConn
/-!
# ClientPlaces — where a connection to a target is between two steps

The state of the entry, `idle_list`, the request that has taken it out, its registration and the reply that is read go
together in few ways only (`ClientPlace`), and every step keeps to them (`ClientStep.ok`).  So does whether the request of
`entry->session` is still to be told its end (`ClientConn.carries`).
-/
namespace Tinywf

/-- What a registration, or its last result, was made for. -/
inductive ClientKind where
  | connects | reads | writes | dropped
deriving DecidableEq

@[simp] def ClientOp.kind : ClientOp → ClientKind
  | connect => .connects
  | read => .reads
  | write => .writes

@[simp] def ClientReg.kind : ClientReg → ClientKind
  | table op => op.kind
  | piped op => op.kind
  | queued op _ => op.kind
  | starting => .connects
  | written _ _ => .writes
  | dropped => .dropped

/-- What the poller's thread has of a reply. -/
inductive ReplyPhase where
  | quiet | receiving | complete
deriving DecidableEq

@[simp] def ClientReading.phase : ClientReading → ReplyPhase
  | message => .receiving
  | complete => .complete
  | _ => .quiet

/-- What holds the entry apart from its registration. -/
structure ClientMarks where
  idle : Bool
  completed : Bool
  taken : Bool
  sending : Bool
deriving DecidableEq

inductive ClientMark where
  | idle | completed | taken | sending
deriving DecidableEq

/-- At most one of them. -/
@[simp] def ClientMark.only : Option ClientMark → ClientMarks
  | none => ⟨false, false, false, false⟩
  | some idle => ⟨true, false, false, false⟩
  | some completed => ⟨false, true, false, false⟩
  | some taken => ⟨false, false, true, false⟩
  | some sending => ⟨false, false, false, true⟩

@[simp] def ClientConn.marks (c : ClientConn) : ClientMarks :=
  ⟨c.inIdle, c.success != .none, c.calling == .taken, c.calling == .sending⟩

/-- The ways they go together. -/
inductive ClientPlace : ClientState → Option ClientMark → ClientKind → ReplyPhase → Prop
  | connecting {k : ClientKind} (begins : k = .connects ∨ k = .writes) : ClientPlace .connecting none k .quiet
  | receiving {p : ReplyPhase} (reads : p = .quiet ∨ p = .receiving) : ClientPlace .receiving none .reads p
  | complete : ClientPlace .success none .reads .complete
  | completed : ClientPlace .success (some .completed) .reads .quiet
  /-- The last result of the registration was handled before that of the reply. -/
  | overtaken : ClientPlace .closing (some .completed) .dropped .quiet
  | closing : ClientPlace .closing none .reads .quiet
  | idle : ClientPlace .idle (some .idle) .reads .quiet
  | taken : ClientPlace .idle (some .taken) .reads .quiet
  | sending : ClientPlace .idle (some .sending) .reads .quiet
  | writing : ClientPlace .idle none .writes .quiet
  | failed : ClientPlace .error none .reads .quiet
  | ended {s : ClientState} (state : s ≠ .success) : ClientPlace s none .dropped .quiet

namespace ClientConn

structure At (c : ClientConn) (s : ClientState) (m : Option ClientMark) (k : ClientKind) (p : ReplyPhase) : Prop where
  state : c.state = s
  marks : c.marks = ClientMark.only m
  kind : c.registration.kind = k
  phase : c.reading.phase = p

def Placed (c : ClientConn) : Prop := ∃ s m k p, ClientPlace s m k p ∧ c.At s m k p

/-- The request of `entry->session` is still to be told its end. -/
def carries (c : ClientConn) : Bool := match c.registration.kind with
  | .dropped => c.success != .none
  | .connects => true
  | .writes => true
  | .reads => match c.state with
    | .idle => c.calling == .sending
    | .closing => false
    | _ => true

end ClientConn

namespace ClientReg

/-- In the poller's table or in its pipe. -/
def Polled (r : ClientReg) : Prop := ∃ op, r = .table op ∨ r = .piped op

@[simp] theorem deleted_kind (r : ClientReg) (b : Bool) : (r.deleted b).kind = r.kind := by
  cases r with
  | table op => cases b <;> rfl
  | _ => rfl

@[simp] theorem stopped_kind (r : ClientReg) : r.stopped.kind = r.kind := by
  cases r <;> rfl

theorem kind_dropped {r : ClientReg} : r.kind = .dropped ↔ r = .dropped := by
  cases r with
  | table op => cases op <;> simp
  | piped op => cases op <;> simp
  | queued op st => cases op <;> simp
  | _ => simp

theorem Polled.ne_dropped {r : ClientReg} (h : r.Polled) : r ≠ .dropped := by
  rintro rfl
  obtain ⟨op, hop⟩ := h
  rcases hop with hop | hop <;> cases hop

end ClientReg

/-- A connection is in one of its places, and what its threads know of it is true. -/
structure ClientOk (c : ClientConn) : Prop where
  placed : c.Placed
  polled : c.reading ≠ .waiting → c.registration.Polled
  halted : c.halted = true → c.reading = .waiting
  unregistered : c.birth ≠ .registered →
    c.registration = .dropped ∧ c.calling = .none ∧ c.marks = ClientMark.only none
  launched : c.birth = .launched → c.state = .connecting
  connects : c.registration.kind = .connects → c.calling = .none
  misused : c.misused = false
  current : c.birth ≠ .absent → c.session + 1 = c.seq
  picked : ∀ s, c.success = .picked s → s = c.session
  written : ∀ st s, c.registration = .written st s → s = c.session

namespace ClientConn

variable {c c' : ClientConn} {s : Nat} {st : PrSt}

theorem Placed.frame (h : c.Placed) (state : c'.state = c.state) (marks : c'.marks = c.marks)
    (kind : c'.registration.kind = c.registration.kind) (phase : c'.reading.phase = c.reading.phase) : c'.Placed := by
  obtain ⟨s, m, k, p, place, hs, hm, hk, hp⟩ := h
  exact ⟨s, m, k, p, place, state.trans hs, marks.trans hm, kind.trans hk, phase.trans hp⟩

/-- The thread that reads gives up a reply that is not complete. -/
theorem Placed.settle (h : c.Placed) (state : c'.state = c.state) (marks : c'.marks = c.marks)
    (kind : c'.registration.kind = c.registration.kind) (phase : c'.reading.phase = .quiet)
    (complete : c.reading.phase ≠ .complete) : c'.Placed := by
  obtain ⟨s, m, k, p, place, hs, hm, hk, hp⟩ := h
  rw [hp] at complete
  refine ⟨s, m, k, .quiet, ?_, state.trans hs, marks.trans hm, kind.trans hk, phase⟩
  cases place with
  | receiving reads => exact .receiving (.inl rfl)
  | complete => exact absurd rfl complete
  | _ => constructor <;> assumption

theorem listDel_misused (h : c.misused = false) (idle : c.inIdle = true) : c.listDel.misused = false := by
  unfold listDel
  rw [h, idle]
  rfl

/-! ## Where a connection with a mark is -/

theorem Placed.of_idle (h : c.Placed) (hi : c.inIdle = true) : c.At .idle (some .idle) .reads .quiet := by
  obtain ⟨_, m, _, _, place, here⟩ := h
  have mark : (ClientMark.only m).idle = true := by rw [← here.marks]; exact hi
  cases place with
  | idle => exact here
  | _ => cases mark

theorem Placed.of_taken (h : c.Placed) (ht : c.calling = .taken) : c.At .idle (some .taken) .reads .quiet := by
  obtain ⟨_, m, _, _, place, here⟩ := h
  have mark : (ClientMark.only m).taken = true := by
    rw [← here.marks]
    simp [ht]
  cases place with
  | taken => exact here
  | _ => cases mark

theorem Placed.of_sending (h : c.Placed) (hs : c.calling = .sending) : c.At .idle (some .sending) .reads .quiet := by
  obtain ⟨_, m, _, _, place, here⟩ := h
  have mark : (ClientMark.only m).sending = true := by
    rw [← here.marks]
    simp [hs]
  cases place with
  | sending => exact here
  | _ => cases mark

theorem Placed.of_success (h : c.Placed) (hs : c.success ≠ .none) :
    c.At .success (some .completed) .reads .quiet ∨ c.At .closing (some .completed) .dropped .quiet := by
  obtain ⟨_, m, _, _, place, here⟩ := h
  have mark : (ClientMark.only m).completed = true := by
    rw [← here.marks]
    simpa using hs
  cases place with
  | completed => exact .inl here
  | overtaken => exact .inr here
  | _ => cases mark

theorem Placed.of_connects (h : c.Placed) (hk : c.registration.kind = .connects) :
    c.At .connecting none .connects .quiet := by
  obtain ⟨_, _, k, _, place, here⟩ := h
  obtain rfl : k = .connects := here.kind.symm.trans hk
  cases place with
  | connecting begins => exact here

theorem Placed.of_writes (h : c.Placed) (hk : c.registration.kind = .writes) :
    ∃ s, (s = .connecting ∨ s = .idle) ∧ c.At s none .writes .quiet := by
  obtain ⟨_, _, k, _, place, here⟩ := h
  obtain rfl : k = .writes := here.kind.symm.trans hk
  cases place with
  | connecting begins => exact ⟨_, .inl rfl, here⟩
  | writing => exact ⟨_, .inr rfl, here⟩

theorem Placed.of_message (h : c.Placed) (hp : c.reading.phase = .receiving) :
    c.At .receiving none .reads .receiving := by
  obtain ⟨_, _, _, p, place, here⟩ := h
  obtain rfl : p = .receiving := here.phase.symm.trans hp
  cases place with
  | receiving reads => exact here

theorem Placed.of_complete (h : c.Placed) (hp : c.reading.phase = .complete) : c.At .success none .reads .complete := by
  obtain ⟨_, _, _, p, place, here⟩ := h
  obtain rfl : p = .complete := here.phase.symm.trans hp
  cases place with
  | complete => exact here
  | receiving reads => simp at reads

/-- Where a connection is whose reply is being waited for. -/
theorem Placed.of_receiving (h : c.Placed) (hs : c.state = .receiving) (hr : c.registration ≠ .dropped) :
    ∃ p, (p = .quiet ∨ p = .receiving) ∧ c.At .receiving none .reads p := by
  obtain ⟨s, _, _, p, place, here⟩ := h
  obtain rfl : s = .receiving := here.state.symm.trans hs
  cases place with
  | receiving reads => exact ⟨p, reads, here⟩
  | ended state => exact absurd (ClientReg.kind_dropped.1 here.kind) hr

end ClientConn

/-! ## Every step -/

namespace ClientOk

variable {c c' : ClientConn}

/-- Nothing of it changes. -/
theorem frame (h : ClientOk c) (state : c'.state = c.state) (marks : c'.marks = c.marks)
    (registration : c'.registration = c.registration) (reading : c'.reading = c.reading) (halted : c'.halted = c.halted)
    (birth : c'.birth = c.birth) (calling : c'.calling = c.calling) (misused : c'.misused = c.misused)
    (session : c'.session = c.session) (seq : c'.seq = c.seq) (success : c'.success = c.success) : ClientOk c' where
  placed := h.placed.frame state marks (by rw [registration]) (by rw [reading])
  polled := by rw [reading, registration]; exact h.polled
  halted := by rw [halted, reading]; exact h.halted
  unregistered := by rw [birth, registration, calling, marks]; exact h.unregistered
  launched := by rw [birth, state]; exact h.launched
  connects := by rw [registration, calling]; exact h.connects
  misused := misused.trans h.misused
  current := by rw [birth, session, seq]; exact h.current
  picked := by rw [success, session]; exact h.picked
  written := by rw [registration, session]; exact h.written

theorem waiting (h : ClientOk c) (hr : ¬ c.registration.Polled) : c.reading = .waiting := by
  by_contra hw
  exact hr (h.polled hw)

theorem runs (h : ClientOk c) (hr : c.reading ≠ .waiting) : c.halted = false := by
  by_contra hh
  exact hr (h.halted (by simpa using hh))

/-- The thread that reads is at work on it. -/
theorem inside (h : ClientOk c) {r : ClientReading} (hr : c.reading = r) (hw : r ≠ .waiting) :
    c.registration.Polled ∧ c.halted = false := by
  subst hr
  exact ⟨h.polled hw, h.runs hw⟩

theorem registered (h : ClientOk c) (hr : c.registration ≠ .dropped) : c.birth = .registered := by
  by_contra hb
  exact hr (h.unregistered hb).1

theorem marked (h : ClientOk c) (hm : c.marks ≠ ClientMark.only none) : c.birth = .registered := by
  by_contra hb
  exact hm (h.unregistered hb).2.2

theorem polled_registered (h : ClientOk c) (polled : c.registration.Polled) : c.birth = .registered :=
  h.registered polled.ne_dropped

/-- Before the poller has it. -/
theorem unborn (h : ClientOk c) (birth : c.birth ≠ .registered) : c.reading = .waiting :=
  h.waiting fun hp => hp.ne_dropped (h.unregistered birth).1

theorem idle_registered (h : ClientOk c) (hi : c.inIdle = true) : c.birth = .registered :=
  h.marked fun hm => by
    have hnone : c.inIdle = false := congrArg ClientMarks.idle hm
    rw [hi] at hnone
    cases hnone

theorem calling_registered (h : ClientOk c) (hc : c.calling ≠ .none) : c.birth = .registered := by
  by_contra hb
  exact hc (h.unregistered hb).2.1

theorem success_registered (h : ClientOk c) (hs : c.success ≠ .none) : c.birth = .registered :=
  h.marked fun hm => hs (by simpa using congrArg ClientMarks.completed hm)

theorem mpollerDel (h : ClientOk c) : ClientOk c.mpollerDel where
  placed := h.placed.frame rfl rfl (ClientReg.deleted_kind _ _) rfl
  polled := fun hr => by
    obtain ⟨op, hop | hop⟩ := h.polled hr
    · refine ⟨op, .inr ?_⟩
      show c.registration.deleted c.halted = _
      rw [hop, h.runs hr]
      rfl
    · refine ⟨op, .inr ?_⟩
      show c.registration.deleted c.halted = _
      rw [hop]
      rfl
  halted := h.halted
  unregistered := fun hb => ⟨by show c.registration.deleted c.halted = _; rw [(h.unregistered hb).1]; rfl,
    (h.unregistered hb).2⟩
  launched := h.launched
  connects := fun hk => h.connects ((ClientReg.deleted_kind _ _).symm.trans hk)
  misused := h.misused
  current := h.current
  picked := h.picked
  written := fun st s hw => h.written st s (by
    have hw : c.registration.deleted c.halted = .written st s := hw
    cases hr : c.registration with
    | table op =>
      rw [hr] at hw
      cases hh : c.halted <;> rw [hh] at hw <;> cases hw
    | _ =>
      rw [hr] at hw
      exact hw)

/-- The thread that reads goes on. -/
theorem reads (h : ClientOk c) (r : ClientReading) (polled : c.registration.Polled) (runs : c.halted = false)
    (phase : r.phase = c.reading.phase ∨ r.phase = .quiet ∧ c.reading.phase ≠ .complete) :
    ClientOk { c with reading := r } :=
  { h with
    placed := by
      rcases phase with hp | ⟨hp, complete⟩
      · exact h.placed.frame rfl rfl rfl hp
      · exact h.placed.settle rfl rfl rfl hp complete
    polled := fun _ => polled
    halted := fun hh => by rw [runs] at hh; cases hh }

/-- The registration goes on to its end, with the thread that reads between two events. -/
theorem ends (h : ClientOk c) (r : ClientReg) (b : Bool) (kind : r.kind = c.registration.kind)
    (phase : c.reading.phase ≠ .complete) (written : ∀ st s, r = .written st s → s = c.session) :
    ClientOk { c with registration := r, reading := .waiting, halted := b } :=
  { h with
    placed := h.placed.settle rfl rfl kind rfl phase
    polled := fun hr => absurd rfl hr
    halted := fun _ => rfl
    unregistered := fun hb => ⟨ClientReg.kind_dropped.1 (kind.trans (ClientReg.kind_dropped.2 (h.unregistered hb).1)),
      (h.unregistered hb).2⟩
    connects := fun hk => h.connects (kind.symm.trans hk)
    written := written }

/-- The last result of a registration is dealt with. -/
theorem dropped (h : ClientOk c) (birth : c.birth = .registered) (reading : c.reading = .waiting)
    (marks : c.marks = ClientMark.only none) (live : c'.state ≠ .success) (marks' : c'.marks = c.marks)
    (registration : c'.registration = .dropped) (reading' : c'.reading = c.reading)
    (birth' : c'.birth = c.birth) (misused : c'.misused = c.misused) (session : c'.session = c.session)
    (seq : c'.seq = c.seq) (success : c'.success = c.success) : ClientOk c' where
  placed := ⟨_, none, _, _, .ended live, rfl, marks'.trans marks, by rw [registration]; rfl, by
    rw [reading', reading]
    rfl⟩
  polled := fun hr => absurd (reading'.trans reading) hr
  halted := fun _ => reading'.trans reading
  unregistered := fun hb => absurd (birth'.trans birth) hb
  launched := fun hb => absurd (hb.symm.trans (birth'.trans birth)) (by decide)
  connects := fun hk => by rw [registration] at hk; cases hk
  misused := misused.trans h.misused
  current := by rw [birth', session, seq]; exact h.current
  picked := by rw [success, session]; exact h.picked
  written := fun st s hw => by rw [registration] at hw; cases hw

/-- All of the request is sent, and the connection is read. -/
theorem awaits (h : ClientOk c) (birth : c.birth = .registered) (reading : c.reading = .waiting)
    (marks : c.marks = ClientMark.only none) : ClientOk { c with registration := .table .read, state := .receiving } :=
  { h with
    placed := ⟨_, none, _, _, .receiving (.inl rfl), rfl, marks, rfl, congrArg ClientReading.phase reading⟩
    polled := fun hr => absurd reading hr
    unregistered := fun h' => absurd birth h'
    launched := fun h' => absurd (birth.symm.trans h') (by decide)
    connects := fun hk => by cases hk
    written := fun st s hw => by cases hw }

/-- The request is on its way, or its connection gone. -/
theorem sent (h : ClientOk c) (sends : c.calling = .sending) :
    ClientOk { c with state := .receiving, calling := .unlocking } := by
  have here := h.placed.of_sending sends
  have hm := here.marks
  simp at hm
  have hb := h.calling_registered (by rw [sends]; decide)
  exact { h with
    placed := ⟨_, none, _, _, .receiving (.inl rfl), rfl, by simp [hm], here.kind, here.phase⟩
    unregistered := fun h' => absurd hb h'
    launched := fun h' => absurd (hb.symm.trans h') (by decide)
    connects := fun hk => by cases here.kind.symm.trans hk }

/-- `handle_incoming_reply`, for a complete reply. -/
theorem replyComplete {s : Nat} (h : ClientOk c) (picked : c.success ≠ .none) : ClientOk (c.replyComplete s) := by
  have hb := h.success_registered picked
  unfold ClientConn.replyComplete
  rcases h.placed.of_success picked with here | here
  · have hm := here.marks
    simp at hm
    rw [if_pos here.state]
    split
    · exact { h with
        placed := ⟨_, none, _, _, .closing, rfl, by simp [ClientConn.tells, hm], here.kind, here.phase⟩
        unregistered := fun h' => absurd hb h'
        launched := fun h' => absurd (hb.symm.trans h') (by decide)
        picked := fun s hs => by cases hs }
    · exact { h with
        placed := ⟨_, some .idle, _, _, .idle, rfl, by simp [ClientConn.tells, hm], here.kind, here.phase⟩
        unregistered := fun h' => absurd hb h'
        launched := fun h' => absurd (hb.symm.trans h') (by decide)
        picked := fun s hs => by cases hs }
  · have hm := here.marks
    simp at hm
    rw [if_neg (by rw [here.state]; decide)]
    exact { h with
      placed := ⟨_, none, _, _, .ended (here.state.trans_ne (by decide)), rfl, by simp [ClientConn.tells, hm],
        here.kind, here.phase⟩
      unregistered := fun h' => absurd hb h'
      picked := fun s hs => by cases hs }

/-- `handle_incoming_reply`, for a last result: an entry that is idle is in `idle_list`. -/
theorem replyEnded {st : PrSt} (h : ClientOk c) (queued : c.registration = .queued .read st) (lock : c.calling = .none) :
    ClientOk (c.replyEnded st) := by
  have hw := h.waiting (by simp [ClientReg.Polled, queued])
  have hb := h.registered (by rw [queued]; simp)
  obtain ⟨s, m, k, p, place, here⟩ := h.placed
  obtain rfl : k = .reads := here.kind.symm.trans (by rw [queued]; rfl)
  obtain rfl : p = .quiet := here.phase.symm.trans (by rw [hw]; rfl)
  unfold ClientConn.replyEnded
  rw [here.state]
  have hm := here.marks
  cases place with
  | connecting begins => simp at begins
  | receiving reads =>
    exact h.dropped hb hw hm (show ClientState.receiving ≠ .success by decide) rfl rfl rfl rfl rfl rfl rfl rfl
  | completed =>
    exact { h with
      placed := ⟨_, some .completed, _, _, .overtaken, rfl, hm, rfl, here.phase⟩
      polled := fun hr => absurd hw hr
      unregistered := fun h' => absurd hb h'
      launched := fun h' => absurd (hb.symm.trans h') (by decide)
      connects := fun hk => by cases hk
      written := fun st s hw => by cases hw }
  | closing =>
    exact h.dropped hb hw hm (show ClientState.closing ≠ .success by decide) rfl rfl rfl rfl rfl rfl rfl rfl
  | idle =>
    simp at hm
    exact { h with
      placed := ⟨_, none, _, _, .ended (s := .idle) (by decide), rfl,
        by simp [ClientConn.leave, ClientConn.listDel, hm], rfl, here.phase⟩
      polled := fun hr => absurd hw hr
      unregistered := fun h' => absurd hb h'
      launched := fun h' => absurd (hb.symm.trans h') (by decide)
      connects := fun hk => by cases hk
      misused := ClientConn.listDel_misused h.misused hm.1
      written := fun st s hw => by cases hw }
  | taken => simp [lock] at hm
  | sending => simp [lock] at hm
  | failed =>
    exact h.dropped hb hw hm (show ClientState.error ≠ .success by decide) rfl rfl rfl rfl rfl rfl rfl rfl

end ClientOk

open ClientConn in
/-- **Every step keeps a connection in its place.** -/
theorem ClientStep.ok {a : ClientAct} {c c' : ClientConn} (h : ClientOk c) (step : ClientStep c a c') : ClientOk c' := by
  cases step with
  | launch new =>
    have hb : c.birth ≠ .registered := by
      rw [new]
      decide
    obtain ⟨hdropped, hcalling, hm⟩ := h.unregistered hb
    have hsuccess : c.success = .none := by simpa using congrArg ClientMarks.completed hm
    exact { h with
      placed := ⟨_, none, _, _, .ended (s := .connecting) (by decide), rfl, hm, ClientReg.kind_dropped.2 hdropped,
        congrArg ClientReading.phase (h.unborn hb)⟩
      unregistered := fun _ => ⟨hdropped, hcalling, hm⟩
      launched := fun _ => rfl
      current := fun _ => rfl
      picked := fun s hs => absurd (hsuccess.symm.trans hs) (by simp)
      written := fun st s hw => absurd (hdropped.symm.trans hw) (by simp) }
  | add new =>
    have hb : c.birth ≠ .registered := by
      rw [new]
      decide
    obtain ⟨hdropped, hcalling, hm⟩ := h.unregistered hb
    have hw := h.unborn hb
    exact { h with
      placed := ⟨_, none, _, _, .connecting (.inl rfl), h.launched new, hm, rfl, congrArg ClientReading.phase hw⟩
      polled := fun hr => absurd hw hr
      unregistered := fun hb => absurd rfl hb
      launched := fun hb => by cases hb
      connects := fun _ => hcalling
      current := fun _ => h.current (by rw [new]; decide)
      written := fun st s hw => by cases hw }
  | addFails new =>
    have hb : c.birth ≠ .registered := by
      rw [new]
      decide
    exact { h with
      placed := h.placed.frame rfl rfl rfl rfl
      unregistered := fun _ => h.unregistered hb
      launched := fun hb => by cases hb
      current := fun _ => h.current (by rw [new]; decide) }
  | deinit => exact h.frame rfl rfl rfl rfl rfl rfl rfl rfl rfl rfl rfl
  | read registered runs at_message =>
    exact h.reads .creating ⟨_, registered⟩ runs (.inl (by rw [at_message]; rfl))
  | readFails registered runs at_message fails =>
    refine h.reads _ ⟨_, registered⟩ runs (.inr ⟨rfl, ?_⟩)
    rcases at_message with hr | hr <;> rw [hr] <;> simp
  | remove ends =>
    obtain ⟨hp, runs⟩ := h.inside ends (by simp)
    refine h.ends _ c.halted ?_ (by rw [ends]; simp) ?_
    · split
      · rename_i ht
        rw [ht]
        rfl
      · rfl
    · intro st s hw
      split at hw
      · cases hw
      · exact h.written st s hw
  | look creates =>
    obtain ⟨hp, runs⟩ := h.inside creates (by simp)
    refine h.reads _ hp runs (.inl ?_)
    rw [creates]
    split <;> rfl
  | pass blocks lock =>
    obtain ⟨hp, runs⟩ := h.inside blocks (by simp)
    exact h.reads _ hp runs (.inl (by rw [blocks]; rfl))
  | @takeMessage b checks receives =>
    obtain ⟨hp, runs⟩ := h.inside checks (by simp)
    cases b with
    | false => exact h.reads _ hp runs (.inl (by rw [checks]; rfl))
    | true =>
      obtain ⟨p, -, here⟩ := h.placed.of_receiving receives hp.ne_dropped
      exact { h with
        placed := ⟨_, none, _, _, .receiving (.inr rfl), here.state, here.marks, here.kind, rfl⟩
        polled := fun _ => hp
        halted := fun hh => by rw [runs] at hh; cases hh }
  | takeNone checks late =>
    obtain ⟨hp, runs⟩ := h.inside checks (by simp)
    exact h.reads _ hp runs (.inl (by rw [checks]; rfl))
  | @append keep reads =>
    obtain ⟨hp, runs⟩ := h.inside reads (by simp)
    have here := h.placed.of_message (by rw [reads]; rfl)
    have hb := h.polled_registered hp
    have appended : ∀ {c₁ : ClientConn} {k : ClientSession}, ClientOk c₁ →
        c₁.At .receiving none .reads .receiving →
        c₁.registration.Polled → c₁.birth = .registered → c₁.halted = false →
        ClientOk { c₁.setSession c₁.session k with reading := .complete, state := .success } :=
      fun h₁ here₁ hp₁ hb₁ hh₁ => { h₁ with
        placed := ⟨_, none, _, _, .complete, rfl, here₁.marks, here₁.kind, rfl⟩
        polled := fun _ => hp₁
        halted := fun hh => by cases hh₁.symm.trans hh
        launched := fun hb => by cases hb₁.symm.trans hb }
    cases keep with
    | true => exact appended h here hp hb runs
    | false =>
      exact appended h.mpollerDel ⟨here.state, here.marks, (ClientReg.deleted_kind _ _).trans here.kind, here.phase⟩
        (h.mpollerDel.polled (by show c.reading ≠ _; rw [reads]; decide)) hb runs
  | post done =>
    obtain ⟨hp, runs⟩ := h.inside done (by simp)
    have here := h.placed.of_complete (by rw [done]; rfl)
    have hm := here.marks
    simp at hm
    exact { h with
      placed := ⟨_, some .completed, _, _, .completed, here.state, by simp [hm], here.kind, rfl⟩
      polled := fun hw => absurd rfl hw
      halted := fun _ => rfl
      unregistered := fun hb => absurd (h.polled_registered hp) hb
      picked := fun s hs => by cases hs }
  | @connect st registered runs at_event ends =>
    have hc := h.ends (.queued .connect st) c.halted (by rw [registered]; rfl) (by rw [at_event]; decide)
      fun st s hw => by cases hw
    rw [← at_event] at hc
    exact hc
  | @write st registered runs at_event ends =>
    have hc := h.ends (.queued .write st) c.halted (by rw [registered]; rfl) (by rw [at_event]; decide)
      fun st s hw => by cases hw
    rw [← at_event] at hc
    exact hc
  | @timeOut op registered runs at_event =>
    exact h.ends (.queued op .error) c.halted (by rw [registered]; rfl)
      (by rcases at_event with hr | hr <;> rw [hr] <;> decide) fun st s hw => by cases hw
  | @pipe op deleted runs at_event =>
    exact h.ends (.queued op .deleted) c.halted (by rw [deleted]; rfl)
      (by rcases at_event with hr | hr <;> rw [hr] <;> decide) fun st s hw => by cases hw
  | halt stopping runs at_event =>
    refine h.ends c.registration.stopped true (ClientReg.stopped_kind _)
      (by rcases at_event with hr | hr <;> rw [hr] <;> decide) fun st s hw => h.written st s ?_
    cases hr : c.registration with
    | table op =>
      rw [hr] at hw
      cases hw
    | piped op =>
      rw [hr] at hw
      cases hw
    | _ =>
      rw [hr] at hw
      exact hw
  | stopDel stopping => exact h.mpollerDel
  | dismiss replaced => exact h.frame rfl rfl rfl rfl rfl rfl rfl rfl rfl rfl rfl
  | @connectFails st queued fails =>
    have hw := h.waiting (by simp [ClientReg.Polled, queued])
    have here := h.placed.of_connects (by rw [queued]; rfl)
    exact h.dropped (h.registered (by rw [queued]; simp)) hw here.marks (here.state.trans_ne (by decide)) rfl rfl rfl rfl
      rfl rfl rfl rfl
  | start queued =>
    have hw := h.waiting (by simp [ClientReg.Polled, queued])
    have hc := h.ends .starting c.halted (by rw [queued]; rfl) (by rw [hw]; decide) fun st s hw => by cases hw
    rw [← hw] at hc
    exact hc
  | startSync starting =>
    have hw := h.waiting (by simp [ClientReg.Polled, starting])
    have here := h.placed.of_connects (by rw [starting]; rfl)
    exact h.awaits (h.registered (by rw [starting]; simp)) hw here.marks
  | startAsync starting =>
    have hw := h.waiting (by simp [ClientReg.Polled, starting])
    have here := h.placed.of_connects (by rw [starting]; rfl)
    have hb := h.registered (by rw [starting]; simp)
    exact { h with
      placed := ⟨_, none, _, _, .connecting (.inr rfl), here.state, here.marks, rfl, here.phase⟩
      polled := fun hr => absurd hw hr
      unregistered := fun h' => absurd hb h'
      connects := fun hk => by cases hk
      written := fun st s hw => by cases hw }
  | @startFails sent starting =>
    have hw := h.waiting (by simp [ClientReg.Polled, starting])
    have here := h.placed.of_connects (by rw [starting]; rfl)
    refine h.dropped (h.registered (by rw [starting]; simp)) hw here.marks ?_ rfl rfl rfl rfl rfl rfl rfl rfl
    cases sent with
    | true => exact (by decide : ClientState.receiving ≠ .success)
    | false => exact here.state.trans_ne (by decide)
  | pick queued =>
    exact { h with
      placed := h.placed.frame rfl (by simp only [ClientConn.marks, queued]; rfl) rfl rfl
      unregistered := fun hb => absurd (h.success_registered (by rw [queued]; decide)) hb
      picked := fun s hs => (Success.picked.inj hs).symm }
  | handleComplete picked => exact h.replyComplete (by rw [picked]; simp)
  | handleEnded queued lock => exact h.replyEnded queued lock
  | @pickWritten st queued =>
    have hw := h.waiting (by simp [ClientReg.Polled, queued])
    have hc := h.ends (.written st c.session) c.halted (by rw [queued]; rfl) (by rw [hw]; decide)
      fun st s hw => (ClientReg.written.inj hw).2.symm
    rw [← hw] at hc
    exact hc
  | writtenRead written =>
    have hw := h.waiting (by simp [ClientReg.Polled, written])
    obtain ⟨s, -, here⟩ := h.placed.of_writes (by rw [written]; rfl)
    exact h.awaits (h.registered (by rw [written]; simp)) hw here.marks
  | @writtenFails st s written =>
    have hw := h.waiting (by simp [ClientReg.Polled, written])
    obtain ⟨s', hs', here⟩ := h.placed.of_writes (by rw [written]; rfl)
    refine h.dropped (h.registered (by rw [written]; simp)) hw here.marks ?_ rfl rfl rfl rfl rfl rfl rfl rfl
    show (if st = .finished then ClientState.receiving else c.state) ≠ .success
    split
    · decide
    · rw [here.state]
      rcases hs' with rfl | rfl <;> decide
  | release owed => exact h.frame rfl rfl rfl rfl rfl rfl rfl rfl rfl rfl rfl
  | @call call owed =>
    cases hf : call.finish <;> exact h.frame rfl rfl rfl rfl rfl rfl rfl rfl rfl rfl rfl
  | lockEntry waits lock => exact h.frame rfl rfl rfl rfl rfl rfl rfl rfl rfl rfl rfl
  | decref leaves => exact h.frame rfl rfl rfl rfl rfl rfl rfl rfl rfl rfl rfl
  | releaseConn frees => exact h.frame rfl rfl rfl rfl rfl rfl rfl rfl rfl rfl rfl
  | take idle lock =>
    have here := h.placed.of_idle idle
    have hm := here.marks
    simp at hm
    have hb := h.idle_registered idle
    exact { h with
      placed := ⟨_, some .taken, _, _, .taken, here.state, by simp [listDel, hm], here.kind, here.phase⟩
      unregistered := fun h' => absurd hb h'
      connects := fun hk => by cases here.kind.symm.trans hk
      misused := listDel_misused h.misused idle }
  | takeGone taken gone =>
    have here := h.placed.of_taken taken
    have hm := here.marks
    simp at hm
    have hb := h.calling_registered (by rw [taken]; decide)
    exact { h with
      placed := ⟨_, none, _, _, .closing, rfl, by simp [hm], here.kind, here.phase⟩
      unregistered := fun h' => absurd hb h'
      launched := fun h' => absurd (hb.symm.trans h') (by decide)
      connects := fun hk => by cases here.kind.symm.trans hk }
  | takeOn taken registered =>
    have here := h.placed.of_taken taken
    have hm := here.marks
    simp at hm
    have hb := h.calling_registered (by rw [taken]; decide)
    exact { h with
      placed := ⟨_, some .sending, _, _, .sending, here.state, by simp [setSession, hm], here.kind, here.phase⟩
      unregistered := fun h' => absurd hb h'
      connects := fun hk => by cases here.kind.symm.trans hk
      current := fun _ => rfl
      picked := fun s hs => absurd (hm.2.1.symm.trans hs) (by simp)
      written := fun st s hw => by
        have hw : c.registration = .written st s := hw
        rw [registered] at hw
        cases hw }
  | sendSync sends => exact h.sent sends
  | sendAsync sends registered =>
    have here := h.placed.of_sending sends
    have hm := here.marks
    simp at hm
    have hb := h.calling_registered (by rw [sends]; decide)
    exact { h with
      placed := ⟨_, none, _, _, .writing, here.state, by simp [hm], rfl, here.phase⟩
      polled := fun _ => ⟨.write, .inl rfl⟩
      unregistered := fun h' => absurd hb h'
      connects := fun hk => by cases hk
      written := fun st s hw => by cases hw }
  | sendGone sends gone => exact h.sent sends
  | sendFails sends =>
    have here := h.placed.of_sending sends
    have hm := here.marks
    simp at hm
    have hb := h.calling_registered (by rw [sends]; decide)
    have kind : c.mpollerDel.registration.kind = .reads := (ClientReg.deleted_kind _ _).trans here.kind
    exact { h.mpollerDel with
      placed := ⟨_, none, _, _, .failed, rfl, by simp [mpollerDel, hm], kind, here.phase⟩
      unregistered := fun h' => absurd hb h'
      launched := fun h' => absurd (hb.symm.trans h') (by decide)
      connects := fun hk => by cases kind.symm.trans hk }
  | unlock unlocks =>
    have hb := h.calling_registered (by rw [unlocks]; decide)
    exact { h with
      placed := h.placed.frame rfl (by simp [unlocks]) rfl rfl
      unregistered := fun h' => absurd hb h'
      connects := fun _ => rfl }

end Tinywf
