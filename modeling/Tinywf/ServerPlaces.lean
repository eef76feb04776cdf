import Tinywf.ServerConn
/-!
# ServerPlaces — where a connection is between two steps

The state of the entry, the lists it is linked in, its registration and the thread that reads from it go together in few
ways only (`Place`).  Every step keeps to them (`ConnStep.ok`), but for one: when `new_session` gives no session for an
entry that `create_request` has taken out of `alive_list`, the entry stays `CONN_STATE_KEEPALIVE`.
-/
namespace Tinywf

/-- What a registration, or its last result, was made for. -/
inductive RegKind where
  | reads | writes | unlinking | dropped
deriving DecidableEq

@[simp] def Registration.kind : Registration → RegKind
  | table .read => .reads
  | table .write => .writes
  | piped .read => .reads
  | piped .write => .writes
  | queued .read _ => .reads
  | queued .write _ => .writes
  | unlinking => .unlinking
  | written _ _ => .writes
  | dropped => .dropped

/-- What the thread that reads has made of the entry. -/
inductive ReadPhase where
  | quiet | first | receiving | complete
deriving DecidableEq

@[simp] def Reading.phase : Reading → ReadPhase
  | waiting => .quiet
  | creating => .quiet
  | blocked => .quiet
  | taking => .quiet
  | taken => .first
  | made => .first
  | counting => .receiving
  | message => .receiving
  | complete => .complete
  | ending _ => .quiet

@[simp] def Replying.uses : Replying → Bool
  | none => false
  | found _ => true
  | linking _ => true
  | closing _ => true
  | unlocking => false

/-- What holds the entry apart from its registration. -/
structure ConnMarks where
  idle : Bool
  alive : Bool
  completed : Bool
  replying : Bool
  relinking : Bool
  draining : Bool
deriving DecidableEq

inductive ConnMark where
  | idle | alive | completed | replying | relinking | draining
deriving DecidableEq

/-- At most one of them. -/
@[simp] def ConnMark.only : Option ConnMark → ConnMarks
  | none => ⟨false, false, false, false, false, false⟩
  | some idle => ⟨true, false, false, false, false, false⟩
  | some alive => ⟨false, true, false, false, false, false⟩
  | some completed => ⟨false, false, true, false, false, false⟩
  | some replying => ⟨false, false, false, true, false, false⟩
  | some relinking => ⟨false, false, false, false, true, false⟩
  | some draining => ⟨false, false, false, false, false, true⟩

@[simp] def ServerConn.marks (c : ServerConn) : ConnMarks :=
  ⟨c.inIdle, c.inAlive, c.success != .none, c.replying.uses, c.relinking.isSome, c.draining⟩

/-- The ways they go together. -/
inductive Place (nulls : Bool) : ConnState → Option ConnMark → RegKind → ReadPhase → Prop
  | unheard : Place nulls .connected none .reads .quiet
  | firstTaken : Place nulls .connected none .reads .first
  | receiving {p : ReadPhase} (reads : p = .quiet ∨ p = .receiving) : Place nulls .receiving none .reads p
  | complete : Place nulls .success none .reads .complete
  | completed : Place nulls .success (some .completed) .reads .quiet
  /-- The last result of the registration was handled before that of the request. -/
  | overtaken : Place nulls .closing (some .completed) .dropped .quiet
  | idle : Place nulls .idle (some .idle) .reads .quiet
  | replying : Place nulls .idle (some .replying) .reads .quiet
  | writing : Place nulls .idle none .writes .quiet
  | relinking : Place nulls .idle (some .relinking) .reads .quiet
  | alive {k : RegKind} (ends : k = .reads ∨ k = .unlinking) : Place nulls .keepalive (some .alive) k .quiet
  | taken : Place nulls .keepalive none .reads .first
  /-- There was no session for it. -/
  | orphan {k : RegKind} (null : nulls = true) (ends : k = .reads ∨ k = .unlinking) :
      Place nulls .keepalive none k .quiet
  | drained {k : RegKind} (ends : k = .reads ∨ k = .unlinking) : Place nulls .keepalive (some .draining) k .quiet
  | closing {k : RegKind} (ends : k = .reads ∨ k = .unlinking) : Place nulls .closing none k .quiet
  | failed : Place nulls .error none .reads .quiet
  | ended {s : ConnState} (state : s ≠ .success) : Place nulls s none .dropped .quiet

namespace ServerConn

structure At (c : ServerConn) (s : ConnState) (m : Option ConnMark) (k : RegKind) (p : ReadPhase) : Prop where
  state : c.state = s
  marks : c.marks = ConnMark.only m
  kind : c.registration.kind = k
  phase : c.reading.phase = p

def Placed (nulls : Bool) (c : ServerConn) : Prop := ∃ s m k p, Place nulls s m k p ∧ c.At s m k p

end ServerConn

theorem Place.settle {nulls : Bool} {s : ConnState} {m : Option ConnMark} {k : RegKind} {p : ReadPhase}
    (h : Place nulls s m k p)
    (first : p = .first → s = .connected ∨ nulls = true) (complete : p ≠ .complete) : Place nulls s m k .quiet := by
  cases p with
  | quiet => exact h
  | first =>
    cases h with
    | firstTaken => exact .unheard
    | taken => exact .orphan ((first rfl).resolve_left nofun) (.inl rfl)
    | receiving reads => simp at reads
  | receiving =>
    cases h with
    | receiving reads => exact .receiving (.inl rfl)
  | complete => exact absurd rfl complete

@[simp] theorem Registration.deleted_kind (r : Registration) (b : Bool) : (r.deleted b).kind = r.kind := by
  cases r with
  | table op => cases op <;> cases b <;> rfl
  | _ => rfl

@[simp] theorem Registration.stopped_kind (r : Registration) : r.stopped.kind = r.kind := by
  cases r with
  | table op => cases op <;> rfl
  | piped op => cases op <;> rfl
  | _ => rfl

theorem Registration.kind_dropped {r : Registration} (h : r.kind = .dropped) : r = .dropped := by
  cases r with
  | table op => cases op <;> cases h
  | piped op => cases op <;> cases h
  | queued op st => cases op <;> cases h
  | dropped => rfl
  | _ => cases h

/-- In the poller's table or in its pipe. -/
def Registration.Polled (r : Registration) : Prop := ∃ op, r = .table op ∨ r = .piped op

structure ConnOk (nulls : Bool) (c : ServerConn) : Prop where
  placed : c.Placed nulls
  polled : c.reading ≠ .waiting → c.registration.Polled
  halted : c.halted = true → c.reading = .waiting
  unregistered : c.birth ≠ .registered → c.registration = .dropped ∧ c.marks = ConnMark.only none
  entered : c.birth = .entered → c.state = .connected
  misused : nulls = false → c.misused = false

namespace ServerConn

variable {nulls : Bool} {c c' : ServerConn}

theorem Placed.frame (h : c.Placed nulls) (state : c'.state = c.state) (marks : c'.marks = c.marks)
    (kind : c'.registration.kind = c.registration.kind) (phase : c'.reading.phase = c.reading.phase) :
    c'.Placed nulls := by
  obtain ⟨s, m, k, p, place, hs, hm, hk, hp⟩ := h
  exact ⟨s, m, k, p, place, state.trans hs, marks.trans hm, kind.trans hk, phase.trans hp⟩

/-- The thread that reads gives up. -/
theorem Placed.settle (h : c.Placed nulls) (state : c'.state = c.state) (marks : c'.marks = c.marks)
    (kind : c'.registration.kind = c.registration.kind) (phase : c'.reading.phase = .quiet)
    (first : c.reading.phase = .first → c.state = .connected ∨ nulls = true) (complete : c.reading.phase ≠ .complete) :
    c'.Placed nulls := by
  obtain ⟨s, m, k, p, place, hs, hm, hk, hp⟩ := h
  rw [hp] at first complete
  rw [hs] at first
  exact ⟨s, m, k, .quiet, place.settle first complete, state.trans hs, marks.trans hm, kind.trans hk, phase⟩

end ServerConn

namespace ConnOk

variable {nulls : Bool} {c c' : ServerConn}

/-- Nothing of it changes. -/
theorem frame (h : ConnOk nulls c) (state : c'.state = c.state) (marks : c'.marks = c.marks)
    (registration : c'.registration = c.registration) (reading : c'.reading = c.reading) (halted : c'.halted = c.halted)
    (birth : c'.birth = c.birth) (misused : c'.misused = c.misused) : ConnOk nulls c' where
  placed := h.placed.frame state marks (by rw [registration]) (by rw [reading])
  polled := by rw [reading, registration]; exact h.polled
  halted := by rw [halted, reading]; exact h.halted
  unregistered := by rw [birth, registration, marks]; exact h.unregistered
  entered := by rw [birth, state]; exact h.entered
  misused := fun hn => misused.trans (h.misused hn)

theorem of_registered (birth : c.birth = .registered) (placed : c.Placed nulls)
    (polled : c.reading ≠ .waiting → c.registration.Polled) (halted : c.halted = true → c.reading = .waiting)
    (misused : nulls = false → c.misused = false) : ConnOk nulls c :=
  ⟨placed, polled, halted, fun hb => absurd birth hb, fun hb => (by rw [birth] at hb; cases hb), misused⟩

theorem registered (h : ConnOk nulls c) (hr : c.registration ≠ .dropped) : c.birth = .registered := by
  by_contra hb
  exact hr (h.unregistered hb).1

theorem mpollerDel (h : ConnOk nulls c) : ConnOk nulls c.mpollerDel where
  placed := h.placed.frame rfl rfl (Registration.deleted_kind _ _) rfl
  polled := fun hr => by
    obtain ⟨op, hop | hop⟩ := h.polled hr
    · refine ⟨op, .inr ?_⟩
      have runs : c.halted = false := by
        by_contra hh
        exact hr (h.halted (by simpa using hh))
      show c.registration.deleted c.halted = _
      rw [hop, runs]
      rfl
    · refine ⟨op, .inr ?_⟩
      show c.registration.deleted c.halted = _
      rw [hop]
      rfl
  halted := h.halted
  unregistered := fun hb => ⟨by show c.registration.deleted c.halted = _; rw [(h.unregistered hb).1]; rfl,
    (h.unregistered hb).2⟩
  entered := h.entered
  misused := h.misused

theorem waiting (h : ConnOk nulls c) (hr : ¬ c.registration.Polled) : c.reading = .waiting := by
  by_contra hw
  exact hr (h.polled hw)

theorem runs (h : ConnOk nulls c) (hr : c.reading ≠ .waiting) : c.halted = false := by
  by_contra hh
  exact hr (h.halted (by simpa using hh))

/-- The thread that reads goes on. -/
theorem reads (h : ConnOk nulls c) (r : Reading) (polled : c.registration.Polled) (runs : c.halted = false)
    (phase : r.phase = c.reading.phase ∨ r.phase = .quiet ∧ c.reading.phase ≠ .complete ∧
      (c.reading.phase = .first → c.state = .connected ∨ nulls = true)) : ConnOk nulls { c with reading := r } where
  placed := by
    rcases phase with hp | ⟨hp, complete, first⟩
    · exact h.placed.frame rfl rfl rfl hp
    · exact h.placed.settle rfl rfl rfl hp first complete
  polled := fun _ => polled
  halted := fun hh => by rw [runs] at hh; cases hh
  unregistered := h.unregistered
  entered := h.entered
  misused := h.misused

/-- The registration ends, with the thread that reads between two events. -/
theorem ends (h : ConnOk nulls c) (r : Registration) (b : Bool) (kind : r.kind = c.registration.kind)
    (phase : c.reading.phase = .quiet ∨ c.reading.phase = .receiving)
    (dropped : c.registration = .dropped → r = .dropped) :
    ConnOk nulls { c with registration := r, reading := .waiting, halted := b } where
  placed := by
    refine h.placed.settle rfl rfl kind rfl ?_ ?_ <;> rcases phase with hp | hp <;> rw [hp] <;> simp
  polled := fun hr => absurd rfl hr
  halted := fun _ => rfl
  unregistered := fun hb => ⟨dropped (h.unregistered hb).1, (h.unregistered hb).2⟩
  entered := h.entered
  misused := h.misused

end ConnOk

/-! ## The sections under a mutex -/

namespace ServerConn

variable {nulls : Bool} {c : ServerConn} {s : Nat} {st : PrSt}

/-- Where a connection is whose reading thread is outside of `create_request`. -/
theorem Placed.quietly (h : c.Placed nulls) (phase : c.reading.phase = .quiet) :
    ∃ m k, Place nulls c.state m k .quiet ∧ c.marks = ConnMark.only m ∧ c.registration.kind = k := by
  obtain ⟨s, m, k, p, place, rfl, hm, hk, hp⟩ := h
  rw [phase] at hp
  subst hp
  exact ⟨m, k, place, hm, hk⟩

/-- `create_request` takes an entry from `alive_list`. -/
theorem Placed.take (h : c.Placed nulls) (state : c.state = .keepalive) (draining : c.draining = false)
    (reads : c.registration.kind = .reads) (phase : c.reading.phase = .quiet) :
    (nulls = false → c.inIdle = false ∧ c.inAlive = true) ∧ { c.listDel with reading := .taken }.Placed nulls := by
  obtain ⟨m, k, place, hm, hk⟩ := h.quietly phase
  rw [reads] at hk
  subst hk
  rw [state] at place
  cases place with
  | alive ends =>
    simp at hm
    exact ⟨fun _ => ⟨hm.1, hm.2.1⟩, _, none, _, _, .taken, state, by simp [listDel, hm], reads, rfl⟩
  | orphan null ends =>
    simp at hm
    exact ⟨fun hn => (by rw [null] at hn; cases hn), _, none, _, _, .taken, state, by simp [listDel, hm], reads, rfl⟩
  | drained ends => simp [draining] at hm

theorem Placed.takeFirst (h : c.Placed nulls) (state : c.state = .connected) (reads : c.registration.kind = .reads)
    (phase : c.reading.phase = .quiet) : { c with reading := .taken }.Placed nulls := by
  obtain ⟨m, k, place, hm, hk⟩ := h.quietly phase
  rw [reads] at hk
  subst hk
  rw [state] at place
  cases place with
  | unheard => exact ⟨_, none, _, _, .firstTaken, state, hm, reads, rfl⟩

/-- The entry is receiving. -/
theorem Placed.receive (h : c.Placed nulls) (phase : c.reading.phase = .first) :
    { c with reading := .counting, state := .receiving }.Placed nulls := by
  obtain ⟨_, _, _, _, place, hs, hm, hk, hp⟩ := h
  rw [phase] at hp
  subst hp
  cases place with
  | firstTaken => exact ⟨_, none, _, _, .receiving (.inr rfl), rfl, hm, hk, rfl⟩
  | taken => exact ⟨_, none, _, _, .receiving (.inr rfl), rfl, hm, hk, rfl⟩
  | receiving reads => simp at reads

theorem Placed.append (h : c.Placed nulls) (phase : c.reading.phase = .receiving) :
    { c with reading := .complete, state := .success }.Placed nulls := by
  obtain ⟨_, _, _, _, place, hs, hm, hk, hp⟩ := h
  rw [phase] at hp
  subst hp
  cases place with
  | receiving reads => exact ⟨_, none, _, _, .complete, rfl, hm, hk, rfl⟩

theorem Placed.post (h : c.Placed nulls) (phase : c.reading.phase = .complete) :
    { c with reading := .waiting, success := .queued }.Placed nulls := by
  obtain ⟨_, _, _, _, place, hs, hm, hk, hp⟩ := h
  rw [phase] at hp
  subst hp
  cases place with
  | complete =>
    simp at hm
    exact ⟨_, some .completed, _, _, .completed, hs, by simp [hm], hk, rfl⟩
  | receiving reads => simp at reads

end ServerConn

theorem ServerConn.listDel_misused {c : ServerConn} (h : c.misused = false) (once : c.inIdle ≠ c.inAlive) :
    c.listDel.misused = false := by
  unfold ServerConn.listDel
  rw [h, Bool.false_or]
  exact beq_false_of_ne once

/-! ## Where a connection with a mark is -/

namespace ServerConn

variable {nulls : Bool} {c : ServerConn} {s : Nat} {st : PrSt}

theorem Placed.of_idle (h : c.Placed nulls) (hi : c.inIdle = true) : c.At .idle (some .idle) .reads .quiet := by
  obtain ⟨_, m, _, _, place, here⟩ := h
  have mark : (ConnMark.only m).idle = true := by rw [← here.marks]; exact hi
  cases place with
  | idle => exact here
  | _ => cases mark

theorem Placed.of_alive (h : c.Placed nulls) (ha : c.inAlive = true) :
    ∃ k, (k = .reads ∨ k = .unlinking) ∧ c.At .keepalive (some .alive) k .quiet := by
  obtain ⟨_, m, _, _, place, here⟩ := h
  have mark : (ConnMark.only m).alive = true := by rw [← here.marks]; exact ha
  cases place with
  | alive ends => exact ⟨_, ends, here⟩
  | _ => cases mark

/-- An entry that is kept alive is linked, unless it is being taken out, or at its end. -/
theorem Placed.alive_of_keepalive (h : c.Placed false) (hs : c.state = .keepalive) (hr : c.registration ≠ .dropped)
    (draining : c.draining = false) (phase : c.reading.phase ≠ .first) : c.inAlive = true := by
  obtain ⟨s, m, k, p, place, rfl, hm, hk, hp⟩ := h
  rw [hs] at place
  rw [hp] at phase
  cases place with
  | alive ends => exact congrArg ConnMarks.alive hm
  | taken => exact absurd rfl phase
  | orphan null ends => cases null
  | drained ends =>
    have hd : c.draining = true := congrArg ConnMarks.draining hm
    exact absurd (draining.symm.trans hd) nofun
  | ended state => exact absurd (Registration.kind_dropped hk) hr

theorem Placed.of_success (h : c.Placed nulls) (hs : c.success ≠ .none) :
    c.At .success (some .completed) .reads .quiet ∨ c.At .closing (some .completed) .dropped .quiet := by
  obtain ⟨_, m, _, _, place, here⟩ := h
  have mark : (ConnMark.only m).completed = true := by
    rw [← here.marks]
    simpa using hs
  cases place with
  | completed => exact .inl here
  | overtaken => exact .inr here
  | _ => cases mark

theorem Placed.of_replying (h : c.Placed nulls) (hr : c.replying.uses = true) :
    c.At .idle (some .replying) .reads .quiet := by
  obtain ⟨_, m, _, _, place, here⟩ := h
  have mark : (ConnMark.only m).replying = true := by rw [← here.marks]; exact hr
  cases place with
  | replying => exact here
  | _ => cases mark

theorem Placed.of_relinking (h : c.Placed nulls) (hr : c.relinking = some s) :
    c.At .idle (some .relinking) .reads .quiet := by
  obtain ⟨_, m, _, _, place, here⟩ := h
  have mark : (ConnMark.only m).relinking = true := by
    rw [← here.marks]
    simp [hr]
  cases place with
  | relinking => exact here
  | _ => cases mark

theorem Placed.of_draining (h : c.Placed nulls) (hd : c.draining = true) :
    ∃ k, (k = .reads ∨ k = .unlinking) ∧ c.At .keepalive (some .draining) k .quiet := by
  obtain ⟨_, m, _, _, place, here⟩ := h
  have mark : (ConnMark.only m).draining = true := by rw [← here.marks]; exact hd
  cases place with
  | drained ends => exact ⟨_, ends, here⟩
  | _ => cases mark

theorem Placed.of_writes (h : c.Placed nulls) (hk : c.registration.kind = .writes) :
    c.At .idle none .writes .quiet := by
  obtain ⟨_, _, k, _, place, here⟩ := h
  have kind : k = .writes := by rw [← here.kind, hk]
  cases place with
  | writing => exact here
  | _ => simp_all

theorem Placed.of_unlinking (h : c.Placed nulls) (hr : c.registration = .unlinking) :
    c.At .keepalive (some .alive) .unlinking .quiet ∨ c.At .keepalive (some .draining) .unlinking .quiet ∨
      nulls = true ∧ c.At .keepalive none .unlinking .quiet ∨ c.At .closing none .unlinking .quiet := by
  obtain ⟨_, _, k, _, place, here⟩ := h
  have kind : k = .unlinking := by
    rw [← here.kind, hr]
    rfl
  subst kind
  cases place with
  | alive ends => exact .inl here
  | drained ends => exact .inr (.inl here)
  | orphan null ends => exact .inr (.inr (.inl ⟨null, here⟩))
  | closing ends => exact .inr (.inr (.inr here))

/-! ## The sections under `target->mutex` -/

theorem Placed.requestComplete (h : c.Placed nulls) (picked : c.success ≠ .none) :
    (c.requestComplete s).Placed nulls := by
  unfold ServerConn.requestComplete
  rcases h.of_success picked with here | here
  · rw [if_pos here.state]
    have hm := here.marks
    simp at hm
    exact ⟨_, some .idle, _, _, .idle, rfl, by simp [owe, hm], here.kind, here.phase⟩
  · rw [if_neg (by rw [here.state]; simp)]
    have hm := here.marks
    simp at hm
    exact ⟨_, none, _, _, .ended (by simp), here.state, by simp [owe, hm], here.kind, here.phase⟩

/-- `handle_incoming_request` for a last result: an entry that is idle is in `idle_list`. -/
theorem Placed.requestEnded (h : c.Placed nulls) (kind : c.registration.kind = .reads)
    (phase : c.reading.phase = .quiet) (lock : c.Unlocked) :
    (c.requestEnded st).Placed nulls ∧ (c.state = .idle → c.inIdle = true ∧ c.inAlive = false) := by
  obtain ⟨m, k, place, hm, hk⟩ := h.quietly phase
  rw [kind] at hk
  subst hk
  unfold ServerConn.requestEnded
  have dropped : ∀ {c' : ServerConn} {s' : ConnState}, c'.state = s' → c'.marks = ConnMark.only none → s' ≠ .success →
      c'.registration = .dropped → c'.reading = c.reading → c'.Placed nulls :=
    fun state marks live registration reading =>
      ⟨_, none, _, _, .ended live, state, marks, by rw [registration]; rfl, by rw [reading, phase]⟩
  cases state : c.state <;> rw [state] at place <;> cases place
  case connected.unheard => exact ⟨dropped rfl hm nofun rfl rfl, nofun⟩
  case receiving.receiving reads => exact ⟨dropped rfl hm nofun rfl rfl, nofun⟩
  case success.completed => exact ⟨⟨_, some .completed, _, _, .overtaken, rfl, hm, rfl, phase⟩, nofun⟩
  case idle.idle =>
    simp at hm
    exact ⟨dropped rfl (by simp [leave, listDel, hm]) nofun rfl rfl, fun _ => ⟨hm.1, hm.2.1⟩⟩
  case idle.replying =>
    simp [lock.1] at hm
  case idle.relinking =>
    simp [lock.2.1] at hm
  case keepalive.alive ends =>
    exact ⟨⟨_, some .alive, _, _, .alive (.inr rfl), rfl, hm, rfl, phase⟩, nofun⟩
  case keepalive.orphan null ends =>
    exact ⟨⟨_, none, _, _, .orphan null (.inr rfl), rfl, hm, rfl, phase⟩, nofun⟩
  case keepalive.drained ends =>
    exact ⟨⟨_, some .draining, _, _, .drained (.inr rfl), rfl, hm, rfl, phase⟩, nofun⟩
  case closing.closing ends => exact ⟨dropped rfl hm nofun rfl rfl, nofun⟩
  case error.failed => exact ⟨dropped rfl hm nofun rfl rfl, nofun⟩

/-- `handle_incoming_request` under `service->mutex`: an entry that is kept alive is in `alive_list`. -/
theorem Placed.requestUnlinked (h : c.Placed nulls) (unlinking : c.registration = .unlinking)
    (draining : c.draining = false) :
    c.requestUnlinked.Placed nulls ∧ (nulls = false → c.state = .keepalive → c.inIdle = false ∧ c.inAlive = true) := by
  unfold ServerConn.requestUnlinked
  rcases h.of_unlinking unlinking with here | here | ⟨null, here⟩ | here <;> have hm := here.marks <;> simp at hm
  · rw [if_pos here.state]
    exact ⟨⟨_, none, _, _, .ended (by simp), here.state, by simp [leave, listDel, hm], rfl, here.phase⟩,
      fun _ _ => ⟨hm.1, hm.2.1⟩⟩
  · rw [draining] at hm
    simp at hm
  · rw [if_pos here.state]
    exact ⟨⟨_, none, _, _, .ended (by simp), here.state, by simp [leave, listDel, hm], rfl, here.phase⟩,
      fun hn => (by rw [null] at hn; cases hn)⟩
  · rw [if_neg (by rw [here.state]; simp)]
    exact ⟨⟨_, none, _, _, .ended (by simp), here.state, here.marks, rfl, here.phase⟩,
      fun _ hs => by rw [here.state] at hs; cases hs⟩

/-- `handle_reply_result`, when the connection is registered again. -/
theorem Placed.writtenKeep (h : c.Placed nulls) (kind : c.registration.kind = .writes) :
    { c with ref := c.ref + 1, registration := .table .read, relinking := some s }.Placed nulls := by
  have here := h.of_writes kind
  have hm := here.marks
  simp at hm
  exact ⟨_, some .relinking, _, _, .relinking, here.state, by simp [hm], rfl, here.phase⟩

/-- A reply is written, or given up. -/
theorem Placed.written (h : c.Placed nulls) (kind : c.registration.kind = .writes) {cs : CsState} :
    (owe { c with registration := .dropped } s cs).Placed nulls := by
  have here := h.of_writes kind
  exact ⟨_, none, _, _, .ended (by simp), here.state, here.marks, rfl, here.phase⟩

theorem Placed.asyncKept (h : c.Placed nulls) (relinks : c.relinking = some s) (kept : Bool) :
    (c.asyncKept kept s).Placed nulls := by
  have here := h.of_relinking relinks
  have hm := here.marks
  simp at hm
  unfold ServerConn.asyncKept
  cases kept with
  | true => exact ⟨_, some .alive, _, _, .alive (.inl rfl), rfl, by simp [owe, hm], here.kind, here.phase⟩
  | false =>
    exact ⟨_, none, _, _, .closing (.inl rfl), rfl, by simp [owe, mpollerDel, hm],
      (Registration.deleted_kind _ _).trans here.kind, here.phase⟩

/-- `reply_idle_conn` takes the entry. -/
theorem Placed.reply (h : c.Placed nulls) (idle : c.inIdle = true) (t : ServerSession) :
    c.inAlive = false ∧ { (c.setSession s t).listDel with replying := .found s }.Placed nulls := by
  have here := h.of_idle idle
  have hm := here.marks
  simp at hm
  exact ⟨hm.2.1, _, some .replying, _, _, .replying, here.state, by simp [listDel, setSession, hm], here.kind,
    here.phase⟩

theorem Placed.replyFails (h : c.Placed nulls) (uses : c.replying.uses = true) :
    ({ c.mpollerDel with state := .error, replying := .none }.replies s).Placed nulls := by
  have here := h.of_replying uses
  have hm := here.marks
  simp at hm
  exact ⟨_, none, _, _, .failed, rfl, by simp [replies, setSession, mpollerDel, hm],
    (Registration.deleted_kind _ _).trans here.kind, here.phase⟩

theorem Placed.syncKept (h : c.Placed nulls) (uses : c.replying.uses = true) (listening : Bool) :
    (c.syncKept listening s).Placed nulls := by
  have here := h.of_replying uses
  have hm := here.marks
  simp at hm
  unfold ServerConn.syncKept
  cases listening with
  | true =>
    exact ⟨_, some .alive, _, _, .alive (.inl rfl), rfl, by simp [replies, setSession, owe, hm], here.kind, here.phase⟩
  | false => exact ⟨_, some .replying, _, _, .replying, here.state, by simp [hm], here.kind, here.phase⟩

theorem Placed.close (h : c.Placed nulls) (uses : c.replying.uses = true) :
    ((owe { c.mpollerDel with state := .closing, replying := .none } s .success).replies s).Placed nulls := by
  have here := h.of_replying uses
  have hm := here.marks
  simp at hm
  exact ⟨_, none, _, _, .closing (.inl rfl), rfl, by simp [replies, setSession, owe, mpollerDel, hm],
    (Registration.deleted_kind _ _).trans here.kind, here.phase⟩

theorem Placed.async (h : c.Placed nulls) (uses : c.replying.uses = true) :
    ({ c with registration := .table .write, modified := c.modified + 1,
              replying := .unlocking }.replies s).Placed nulls := by
  have here := h.of_replying uses
  have hm := here.marks
  simp at hm
  exact ⟨_, none, _, _, .writing, here.state, by simp [replies, setSession, hm], rfl, here.phase⟩

theorem Placed.asyncGone (h : c.Placed nulls) (uses : c.replying.uses = true) :
    ({ c with state := .receiving, replying := .none }.replies s).Placed nulls := by
  have here := h.of_replying uses
  have hm := here.marks
  simp at hm
  exact ⟨_, none, _, _, .receiving (.inl rfl), rfl, by simp [replies, setSession, hm], here.kind, here.phase⟩

/-- `drain` takes an entry from `alive_list`. -/
theorem Placed.drainTaken (h : c.Placed nulls) (alive : c.inAlive = true) :
    c.inIdle = false ∧ c.drainTaken.Placed nulls := by
  obtain ⟨k, ends, here⟩ := h.of_alive alive
  have hm := here.marks
  simp at hm
  exact ⟨hm.1, _, some .draining, _, _, .drained ends, here.state,
    by simp [ServerConn.drainTaken, listDel, mpollerDel, hm],
    (Registration.deleted_kind _ _).trans here.kind, here.phase⟩

theorem Placed.drainClosed (h : c.Placed nulls) (draining : c.draining = true) : c.drainClosed.Placed nulls := by
  obtain ⟨k, ends, here⟩ := h.of_draining draining
  have hm := here.marks
  simp at hm
  exact ⟨_, none, _, _, .closing ends, rfl, by simp [ServerConn.drainClosed, hm], here.kind, here.phase⟩

end ServerConn

/-! ## Every step -/

namespace ServerConn

variable {c : ServerConn} {st : PrSt}

@[simp] theorem setSession_inIdle (c : ServerConn) (i : Nat) (s : ServerSession) :
    (c.setSession i s).inIdle = c.inIdle := rfl

@[simp] theorem setSession_inAlive (c : ServerConn) (i : Nat) (s : ServerSession) :
    (c.setSession i s).inAlive = c.inAlive := rfl

theorem requestEnded_birth (c : ServerConn) (st : PrSt) : (c.requestEnded st).birth = c.birth := by
  unfold requestEnded
  split <;> rfl

theorem requestEnded_reading (c : ServerConn) (st : PrSt) : (c.requestEnded st).reading = c.reading := by
  unfold requestEnded
  split <;> rfl

theorem requestEnded_misused (h : c.misused = false) (once : c.state = .idle → c.inIdle ≠ c.inAlive) :
    (c.requestEnded st).misused = false := by
  unfold requestEnded
  split
  case h_2 hs =>
    have hdel : c.listDel.misused = false := listDel_misused h (once hs)
    exact hdel
  all_goals exact h

theorem requestUnlinked_birth (c : ServerConn) : c.requestUnlinked.birth = c.birth := by
  unfold requestUnlinked
  split <;> rfl

theorem requestUnlinked_reading (c : ServerConn) : c.requestUnlinked.reading = c.reading := by
  unfold requestUnlinked
  split <;> rfl

theorem requestUnlinked_misused (h : c.misused = false) (once : c.state = .keepalive → c.inIdle ≠ c.inAlive) :
    c.requestUnlinked.misused = false := by
  unfold requestUnlinked
  split
  · rename_i hs
    exact listDel_misused h (once hs)
  · exact h

end ServerConn

namespace ConnOk

variable {nulls : Bool} {c c' : ServerConn}

theorem polled_registered (h : ConnOk nulls c) (polled : c.registration.Polled) : c.birth = .registered :=
  h.registered fun hd => by
    obtain ⟨op, hop⟩ := polled
    rw [hd] at hop
    rcases hop with hop | hop <;> cases hop

/-- The thread that reads is at work on it. -/
theorem inside (h : ConnOk nulls c) {r : Reading} (hr : c.reading = r) (hw : r ≠ .waiting) :
    c.registration.Polled ∧ c.halted = false := by
  subst hr
  exact ⟨h.polled hw, h.runs hw⟩

/-- A section under a mutex, on a connection that the poller has had. -/
theorem moved (h : ConnOk nulls c) (birth : c.birth = .registered) (placed : c'.Placed nulls)
    (polled : c.reading ≠ .waiting → c'.registration.Polled) (reading : c'.reading = c.reading)
    (halted : c'.halted = c.halted) (birth' : c'.birth = c.birth)
    (misused : nulls = false → c'.misused = c.misused) : ConnOk nulls c' :=
  .of_registered (birth'.trans birth) placed (by rw [reading]; exact polled) (by rw [halted, reading]; exact h.halted)
    fun hn => (misused hn).trans (h.misused hn)

theorem deleted_polled (h : ConnOk nulls c) (hr : c.reading ≠ .waiting) : (c.registration.deleted c.halted).Polled :=
  h.mpollerDel.polled hr

theorem marked (h : ConnOk nulls c) (hm : c.marks ≠ ConnMark.only none) : c.birth = .registered := by
  by_contra hb
  exact hm (h.unregistered hb).2

/-- Before the poller has it. -/
theorem unborn (h : ConnOk nulls c) (birth : c.birth ≠ .registered) : c.reading = .waiting :=
  h.waiting fun ⟨op, hop⟩ => by
    rw [(h.unregistered birth).1] at hop
    rcases hop with hop | hop <;> cases hop

theorem unborn_state (h : ConnOk nulls c) (birth : c.birth ≠ .registered) : c.state ≠ .success := by
  obtain ⟨s, m, k, p, place, here⟩ := h.placed
  obtain ⟨hdropped, hm⟩ := h.unregistered birth
  have hkind : k = .dropped := by
    rw [← here.kind, hdropped]
    rfl
  have hmark : ConnMark.only m = ConnMark.only none := here.marks.symm.trans hm
  rw [here.state]
  cases place with
  | ended state => exact state
  | overtaken => cases hmark
  | _ => simp_all

theorem replying_registered (h : ConnOk nulls c) (hu : c.replying.uses = true) : c.birth = .registered :=
  h.marked fun hm => by
    have hnone : c.replying.uses = false := congrArg ConnMarks.replying hm
    rw [hu] at hnone
    cases hnone

/-- What `accept` and `accept_conn` make of a connection. -/
theorem born (h : ConnOk nulls c) (birth : c.birth ≠ .registered) (marks : c'.marks = c.marks)
    (registration : c'.registration = c.registration) (reading : c'.reading = c.reading) (halted : c'.halted = c.halted)
    (misused : c'.misused = c.misused) (live : c'.state ≠ .success)
    (entered : c'.birth = .entered → c'.state = .connected) : ConnOk nulls c' where
  placed := by
    obtain ⟨hdropped, hm⟩ := h.unregistered birth
    have hw := h.unborn birth
    exact ⟨_, none, _, _, .ended live, rfl, marks.trans hm, by rw [registration, hdropped]; rfl,
      by rw [reading, hw]; rfl⟩
  polled := by rw [reading, registration]; exact h.polled
  halted := by rw [halted, reading]; exact h.halted
  unregistered := fun _ => by rw [registration, marks]; exact h.unregistered birth
  entered := entered
  misused := fun hn => misused.trans (h.misused hn)

/-- `drain` takes an entry out of `alive_list`. -/
theorem drainTaken (h : ConnOk nulls c) (alive : c.inAlive = true) : ConnOk nulls c.drainTaken := by
  obtain ⟨hidle, placed⟩ := h.placed.drainTaken alive
  have hb := h.marked fun hm => by
    have hnone := congrArg ConnMarks.alive hm
    simp [alive] at hnone
  refine .of_registered hb placed h.deleted_polled h.halted fun hn => ?_
  exact ServerConn.listDel_misused (h.misused hn) (by rw [hidle, alive]; nofun)

theorem drainClosed (h : ConnOk nulls c) (draining : c.draining = true) : ConnOk nulls c.drainClosed := by
  have hb := h.marked fun hm => by
    have hnone := congrArg ConnMarks.draining hm
    simp [draining] at hnone
  exact h.moved hb (h.placed.drainClosed draining) h.polled rfl rfl rfl fun _ => rfl

theorem reads_of_polled (h : ConnOk nulls c) (polled : c.registration.Polled) (state : c.state ≠ .idle) :
    c.registration.kind = .reads := by
  obtain ⟨op, hop⟩ := polled
  have hkind : c.registration.kind ≠ .writes := fun hk => state (h.placed.of_writes hk).state
  cases op with
  | read => rcases hop with hop | hop <;> rw [hop] <;> rfl
  | write => rcases hop with hop | hop <;> rw [hop] at hkind <;> exact absurd rfl hkind

end ConnOk

open ServerConn in
/-- **Every step keeps a connection in its place**, one without a session but for an entry that was not kept alive. -/
theorem ConnStep.ok {nulls : Bool} {view : ServiceView} {a : ConnAct} {c c' : ServerConn} (h : ConnOk nulls c)
    (free : view.free = true → c.draining = false)
    (null : a = .newSession false → c.state = .connected ∨ nulls = true) (step : ConnStep view a c c') :
    ConnOk nulls c' := by
  cases step with
  | refuse new =>
    have hb : c.birth ≠ .registered := by
      rw [new]
      nofun
    exact h.born hb rfl rfl rfl rfl rfl (h.unborn_state hb) nofun
  | enter new =>
    have hb : c.birth ≠ .registered := by
      rw [new]
      nofun
    exact h.born hb rfl rfl rfl rfl rfl nofun fun _ => rfl
  | add new =>
    have hb : c.birth ≠ .registered := by
      rw [new]
      nofun
    have hw := h.unborn hb
    exact .of_registered rfl
      ⟨_, none, _, _, .unheard, h.entered new, (h.unregistered hb).2, rfl, by rw [hw]; rfl⟩
      (fun hr => absurd hw hr) (fun _ => hw) h.misused
  | addFails new =>
    have hb : c.birth ≠ .registered := by
      rw [new]
      nofun
    exact h.born hb rfl rfl rfl rfl rfl (h.unborn_state hb) nofun
  | check looks =>
    split
    · exact h.mpollerDel.frame rfl rfl rfl rfl rfl rfl rfl
    · exact h.frame rfl rfl rfl rfl rfl rfl rfl
  | read registered runs at_message =>
    exact h.reads .creating ⟨_, registered⟩ runs (.inl (by rw [at_message]; rfl))
  | readFails registered runs at_message fails =>
    refine h.reads _ ⟨_, registered⟩ runs (.inr ⟨rfl, ?_, ?_⟩) <;> rcases at_message with hr | hr <;> rw [hr] <;> nofun
  | remove ends =>
    obtain ⟨hp, runs⟩ := h.inside ends nofun
    refine h.ends _ c.halted ?_ (.inl (by rw [ends]; rfl)) ?_
    · split
      · rename_i ht
        rw [ht]
        rfl
      · rfl
    · intro hd
      rw [hd]
      rfl
  | look creates =>
    obtain ⟨hp, runs⟩ := h.inside creates nofun
    refine h.reads _ hp runs (.inl ?_)
    rw [creates]
    split <;> rfl
  | pass blocks lock =>
    obtain ⟨hp, runs⟩ := h.inside blocks nofun
    exact h.reads _ hp runs (.inl (by rw [blocks]; rfl))
  | take takes lock kept =>
    obtain ⟨hp, runs⟩ := h.inside takes nofun
    obtain ⟨alive, placed⟩ := h.placed.take kept (free lock) (h.reads_of_polled hp (by rw [kept]; nofun))
      (by rw [takes]; rfl)
    refine .of_registered (h.polled_registered hp) placed (fun _ => hp) (fun hh => ?_) fun hn => ?_
    · rw [ServerConn.listDel, runs] at hh
      cases hh
    · obtain ⟨hidle, halive⟩ := alive hn
      exact ServerConn.listDel_misused (h.misused hn) (by rw [hidle, halive]; nofun)
  | takeFirst takes lock first =>
    obtain ⟨hp, runs⟩ := h.inside takes nofun
    refine .of_registered (h.polled_registered hp)
      (h.placed.takeFirst first (h.reads_of_polled hp (by rw [first]; nofun)) (by rw [takes]; rfl)) (fun _ => hp)
      (fun hh => ?_) h.misused
    rw [runs] at hh
    cases hh
  | takeNone takes lock kept first =>
    obtain ⟨hp, runs⟩ := h.inside takes nofun
    exact h.reads _ hp runs (.inl (by rw [takes]; rfl))
  | newSession taken =>
    obtain ⟨hp, runs⟩ := h.inside taken nofun
    exact (h.reads .made hp runs (.inl (by rw [taken]; rfl))).frame rfl rfl rfl rfl rfl rfl rfl
  | noSession taken =>
    obtain ⟨hp, runs⟩ := h.inside taken nofun
    exact h.reads _ hp runs (.inr ⟨rfl, by rw [taken]; nofun, fun _ => null rfl⟩)
  | receive made =>
    obtain ⟨hp, runs⟩ := h.inside made nofun
    refine .of_registered (h.polled_registered hp) (h.placed.receive (by rw [made]; rfl)) (fun _ => hp) (fun hh => ?_)
      h.misused
    rw [runs] at hh
    cases hh
  | @count _ b counts =>
    obtain ⟨hp, runs⟩ := h.inside counts nofun
    refine (h.reads (if b then .message else .ending .error) hp runs ?_).frame rfl rfl rfl rfl rfl rfl rfl
    rw [counts]
    cases b with
    | true => exact .inl rfl
    | false => exact .inr ⟨rfl, nofun, nofun⟩
  | append reads =>
    obtain ⟨hp, runs⟩ := h.inside reads nofun
    refine .of_registered (h.polled_registered hp) (h.placed.append (by rw [reads]; rfl)) (fun _ => hp) (fun hh => ?_)
      h.misused
    rw [runs] at hh
    cases hh
  | post done =>
    obtain ⟨hp, runs⟩ := h.inside done nofun
    exact .of_registered (h.polled_registered hp) (h.placed.post (by rw [done]; rfl)) (fun hw => absurd rfl hw)
      (fun _ => rfl) h.misused
  | @timeOut _ op registered runs at_event =>
    refine h.ends (.queued op .error) c.halted ?_ (at_event.imp (fun hr => by rw [hr]; rfl) fun hr => by rw [hr]; rfl)
      ?_
    · rw [registered]
      cases op <;> rfl
    · intro hd
      rw [registered] at hd
      cases hd
  | @pipe _ op deleted runs at_event =>
    refine h.ends (.queued op .deleted) c.halted ?_
      (at_event.imp (fun hr => by rw [hr]; rfl) fun hr => by rw [hr]; rfl) ?_
    · rw [deleted]
      cases op <;> rfl
    · intro hd
      rw [deleted] at hd
      cases hd
  | @write _ st registered runs at_event ends =>
    have hwritten := h.ends (.queued .write st) c.halted (by rw [registered]; rfl) (.inl (by rw [at_event]; rfl))
      fun hd => by
      rw [registered] at hd
      cases hd
    exact hwritten.frame rfl rfl rfl at_event rfl rfl rfl
  | halt stopping runs at_event =>
    refine h.ends c.registration.stopped true (Registration.stopped_kind _)
      (at_event.imp (fun hr => by rw [hr]; rfl) fun hr => by rw [hr]; rfl) fun hd => ?_
    rw [hd]
    rfl
  | dismiss replaced => exact h.frame rfl rfl rfl rfl rfl rfl rfl
  | pick queued => exact h.frame rfl (by simp only [ServerConn.marks, queued]; rfl) rfl rfl rfl rfl rfl
  | handleComplete picked lock =>
    have hs : c.success ≠ .none := by
      rw [picked]
      nofun
    have hb := h.marked fun hm => hs (by simpa using congrArg ConnMarks.completed hm)
    refine h.moved hb (h.placed.requestComplete hs) ?_ ?_ ?_ ?_ ?_ <;> unfold ServerConn.requestComplete <;> split
    · exact h.polled
    · exact h.polled
    all_goals first | rfl | exact fun _ => rfl
  | @handleEnded _ st queued lock =>
    have hw : c.reading = .waiting := h.waiting fun ⟨op, hop⟩ => by
      rw [queued] at hop
      rcases hop with hop | hop <;> cases hop
    obtain ⟨placed, alive⟩ := @Placed.requestEnded _ _ st h.placed (by rw [queued]; rfl) (by rw [hw]; rfl) lock
    refine .of_registered ?_ placed (fun hr => absurd ?_ hr) (fun _ => ?_) fun hn => ?_
    · rw [requestEnded_birth, h.registered (by rw [queued]; nofun)]
    · rw [requestEnded_reading, hw]
    · rw [requestEnded_reading, hw]
    · exact requestEnded_misused (h.misused hn) fun hs => by
        obtain ⟨hidle, halive⟩ := alive hs
        rw [hidle, halive]
        nofun
  | unlink unlinking lock =>
    have hw : c.reading = .waiting := h.waiting fun ⟨op, hop⟩ => by
      rw [unlinking] at hop
      rcases hop with hop | hop <;> cases hop
    obtain ⟨placed, alive⟩ := h.placed.requestUnlinked unlinking (free lock)
    refine .of_registered ?_ placed (fun hr => absurd ?_ hr) (fun _ => ?_) fun hn => ?_
    · rw [requestUnlinked_birth, h.registered (by rw [unlinking]; nofun)]
    · rw [requestUnlinked_reading, hw]
    · rw [requestUnlinked_reading, hw]
    · exact requestUnlinked_misused (h.misused hn) fun hs => by
        obtain ⟨hidle, halive⟩ := alive hn hs
        rw [hidle, halive]
        nofun
  | pickWritten queued =>
    have hw : c.reading = .waiting := h.waiting fun ⟨op, hop⟩ => by
      rw [queued] at hop
      rcases hop with hop | hop <;> cases hop
    exact h.moved (h.registered (by rw [queued]; nofun)) (h.placed.frame rfl rfl (by rw [queued]; rfl) rfl)
      (fun hr => absurd hw hr) rfl rfl rfl fun _ => rfl
  | writtenKeep written lock =>
    have hk : c.registration.kind = .writes := by
      rw [written]
      rfl
    exact h.moved (h.registered (by rw [written]; nofun)) (h.placed.writtenKeep hk) (fun _ => ⟨.read, .inl rfl⟩) rfl
      rfl rfl
      fun _ => rfl
  | writtenClose written =>
    have hk : c.registration.kind = .writes := by
      rw [written]
      rfl
    have hw : c.reading = .waiting := h.waiting fun ⟨op, hop⟩ => by
      rw [written] at hop
      rcases hop with hop | hop <;> cases hop
    exact h.moved (h.registered (by rw [written]; nofun)) (h.placed.written hk) (fun hr => absurd hw hr) rfl rfl rfl
      fun _ => rfl
  | writtenFails written fails =>
    have hk : c.registration.kind = .writes := by
      rw [written]
      rfl
    have hw : c.reading = .waiting := h.waiting fun ⟨op, hop⟩ => by
      rw [written] at hop
      rcases hop with hop | hop <;> cases hop
    exact h.moved (h.registered (by rw [written]; nofun)) (h.placed.written hk) (fun hr => absurd hw hr) rfl rfl rfl
      fun _ => rfl
  | relink relinks lock =>
    have hb := h.marked fun hm => by
      have hnone := congrArg ConnMarks.relinking hm
      simp [relinks] at hnone
    refine h.moved hb (h.placed.asyncKept relinks _) ?_ ?_ ?_ ?_ ?_ <;> unfold ServerConn.asyncKept <;> split
    · exact h.polled
    · exact h.deleted_polled
    all_goals first | rfl | exact fun _ => rfl
  | call owed => exact h.frame rfl rfl rfl rfl rfl rfl rfl
  | decref leaves => exact h.frame rfl rfl rfl rfl rfl rfl rfl
  | release frees => exact h.frame rfl rfl rfl rfl rfl rfl rfl
  | dropTarget drops => exact h.frame rfl rfl rfl rfl rfl rfl rfl
  | reply passive told life lock idle =>
    have hb := h.marked fun hm => by
      have hnone := congrArg ConnMarks.idle hm
      simp [idle] at hnone
    obtain ⟨alive, placed⟩ := h.placed.reply idle _
    refine .of_registered hb placed h.polled h.halted fun hn => ?_
    exact ServerConn.listDel_misused (h.misused hn) (by rw [setSession_inIdle, setSession_inAlive, idle, alive]; nofun)
  | replyNone passive told life lock idle => exact h.frame rfl rfl rfl rfl rfl rfl rfl
  | replyFails found =>
    have hu : c.replying.uses = true := by
      rw [found]
      rfl
    exact h.moved (h.replying_registered hu) (h.placed.replyFails hu) h.deleted_polled rfl rfl rfl fun _ => rfl
  | @sync _ s keep found =>
    refine h.frame rfl ?_ rfl rfl rfl rfl rfl
    simp only [ServerConn.marks, found]
    cases keep <;> rfl
  | link linking lock =>
    have hu : c.replying.uses = true := by
      rw [linking]
      rfl
    refine h.moved (h.replying_registered hu) (h.placed.syncKept hu _) ?_ ?_ ?_ ?_ ?_ <;>
      unfold ServerConn.syncKept <;> split
    · exact h.polled
    · exact h.polled
    all_goals first | rfl | exact fun _ => rfl
  | close closing =>
    have hu : c.replying.uses = true := by
      rw [closing]
      rfl
    exact h.moved (h.replying_registered hu) (h.placed.close hu) h.deleted_polled rfl rfl rfl fun _ => rfl
  | async found registered =>
    have hu : c.replying.uses = true := by
      rw [found]
      rfl
    exact h.moved (h.replying_registered hu) (h.placed.async hu) (fun _ => ⟨.write, .inl rfl⟩) rfl rfl rfl fun _ => rfl
  | unlock unlocking =>
    exact h.frame rfl (by simp only [ServerConn.marks, unlocking]; rfl) rfl rfl rfl rfl rfl
  | asyncGone found gone =>
    have hu : c.replying.uses = true := by
      rw [found]
      rfl
    exact h.moved (h.replying_registered hu) (h.placed.asyncGone hu) h.polled rfl rfl rfl fun _ => rfl
  | destroy unused passive lock =>
    split
    · exact h.mpollerDel.frame rfl rfl rfl rfl rfl rfl rfl
    · exact h.frame rfl rfl rfl rfl rfl rfl rfl
  | destroyReplied unused passive => exact h.frame rfl rfl rfl rfl rfl rfl rfl

open ServerConn in
theorem ConnStep.draining_eq {view : ServiceView} {a : ConnAct} {c c' : ServerConn} (step : ConnStep view a c c') :
    c'.draining = c.draining := by
  cases step with
  | check looks => split <;> rfl
  | handleComplete picked lock =>
    unfold requestComplete
    split <;> rfl
  | handleEnded queued lock =>
    unfold requestEnded
    split <;> rfl
  | unlink unlinking lock =>
    unfold requestUnlinked
    split <;> rfl
  | relink relinks lock =>
    unfold asyncKept
    split <;> rfl
  | link linking lock =>
    unfold syncKept
    split <;> rfl
  | destroy unused passive lock => split <;> rfl
  | _ => rfl

open ServerConn in
/-- **Nothing is kept alive behind `listen_fd`.** -/
theorem ConnStep.not_kept {view : ServiceView} {a : ConnAct} {c c' : ServerConn} (closed : view.listening = false)
    (step : ConnStep view a c c') :
    (c'.inAlive = true → c.inAlive = true) ∧ (c'.state = .keepalive → c.state = .keepalive) := by
  cases step with
  | check looks => split <;> exact ⟨id, id⟩
  | handleComplete picked lock =>
    unfold requestComplete
    split
    · exact ⟨id, nofun⟩
    · exact ⟨id, id⟩
  | handleEnded queued lock =>
    unfold requestEnded
    split
    case h_2 hs => exact ⟨nofun, id⟩
    case h_5 hs => exact ⟨id, nofun⟩
    all_goals exact ⟨id, id⟩
  | unlink unlinking lock =>
    unfold requestUnlinked
    split
    · exact ⟨nofun, id⟩
    · exact ⟨id, id⟩
  | relink relinks lock =>
    rw [closed, Bool.and_false]
    exact ⟨id, nofun⟩
  | link linking lock =>
    rw [closed]
    exact ⟨id, id⟩
  | enter new => exact ⟨id, nofun⟩
  | take takes lock kept => exact ⟨nofun, id⟩
  | receive made => exact ⟨id, nofun⟩
  | append reads => exact ⟨id, nofun⟩
  | reply passive told life lock idle => exact ⟨nofun, id⟩
  | replyFails found => exact ⟨id, nofun⟩
  | close closing => exact ⟨id, nofun⟩
  | asyncGone found gone => exact ⟨id, nofun⟩
  | destroy unused passive lock => split <;> exact ⟨id, id⟩
  | _ => exact ⟨id, id⟩

end Tinywf
