import Tinywf.TimeoQueue
/-!
# CommTimeout — how long a session may take

A session has a limit of its own, to send or to receive in all, and its target one for each pause.  `first_timeout` and
`next_timeout` choose between the two: once the session's own limit is what the poller was told, `session->timeout` is
zero, and the readers leave the poller alone from then on.  Times are milliseconds in `int`.  An event has one
reading of the clock, where `next_timeout` and `__poller_node_set_timeout` each read it.

A poller that is late lets a session go on past its limit, and is then told to wait no longer: a deadline is that of the
limit, or the moment itself (`receive_deadline`).  The writer tells the poller the target's limit even then
(`send_deadline`).
-/
namespace Tinywf

/-- What an `int` makes of a number. -/
def toInt (x : Int) : Int := (x + 2147483648) % 4294967296 - 2147483648

/-- What an `unsigned int` makes of it. -/
def toUnsigned (x : Int) : Int := x % 4294967296

/-- `begin_time` is a `struct timespec`, `-1` in its `tv_nsec` for none. -/
structure CommSession where
  timeout : Int
  beginSec : Int
  beginNsec : Int
deriving DecidableEq

namespace CommSession

/-- `Communicator::first_timeout` -/
def firstTimeout (responseTimeout : Int) (now : Timespec) (s : CommSession) : Int × CommSession :=
  if responseTimeout < 0 ∨ toUnsigned s.timeout ≤ toUnsigned responseTimeout then
    (s.timeout, { s with timeout := 0, beginNsec := 0 })
  else (responseTimeout, { s with beginSec := now.sec, beginNsec := now.nsec })

/-- `Communicator::next_timeout` -/
def nextTimeout (responseTimeout : Int) (now : Timespec) (s : CommSession) : Int × CommSession :=
  if 0 < s.timeout then
    let timeUsed := toInt (1000 * (now.sec - s.beginSec) + (now.nsec - s.beginNsec).tdiv 1000000)
    let timeLeft := toInt (s.timeout - timeUsed)
    if timeLeft ≤ responseTimeout then (if timeLeft < 0 then 0 else timeLeft, { s with timeout := 0 })
    else (responseTimeout, s)
  else (responseTimeout, s)

/-- `Communicator::first_timeout_send`, `Communicator::first_timeout_recv`: the session's limit is `limit`. -/
def firstTimeoutOf (limit responseTimeout : Int) (now : Timespec) (s : CommSession) : Int × CommSession :=
  { s with timeout := limit }.firstTimeout responseTimeout now

end CommSession

/-- The time at which the poller will have a node time out. -/
def armed (timeout : Int) (now : Timespec) : Option Timespec := if 0 ≤ timeout then some (now.after timeout.toNat) else none

/-- A connection as the poller has it; `limit` is the session's `receive_timeout()` or `send_timeout()`. -/
structure CommConn where
  limit : Int
  responseTimeout : Int
  session : CommSession
  deadline : Option Timespec
  /-- `CONN_STATE_SUCCESS` -/
  success : Bool
  /-- `mpoller_del` was called. -/
  deleted : Bool

namespace CommConn

/-- `mpoller_set_timeout`, with what is left of the session. -/
def setTimeout (c : CommConn) (now : Timespec) (r : Int × CommSession) : CommConn :=
  { c with session := r.2, deadline := armed r.1 now }

/-- The first call for a session: where it starts to send, or to receive. -/
def start (limit responseTimeout : Int) (now : Timespec) (s : CommSession) : CommConn :=
  { limit := limit, responseTimeout := responseTimeout, session := s, deadline := none, success := false,
    deleted := false : CommConn }.setTimeout now (s.firstTimeoutOf limit responseTimeout now)

/-- `Communicator::append_request`; `ret` is what the message's `append` returned. -/
def appendRequest (ret : Int) (now : Timespec) (c : CommConn) : CommConn :=
  if 0 < ret then { c with success := true }.setTimeout now (-1, c.session)
  else if ret = 0 ∧ c.session.timeout ≠ 0 then c.setTimeout now (c.session.nextTimeout c.responseTimeout now)
  else c

/-- `Communicator::append_reply` -/
def appendReply (keepAliveTimeout ret : Int) (now : Timespec) (c : CommConn) : CommConn :=
  if 0 < ret then
    let c' := { c with success := true, session := { c.session with timeout := keepAliveTimeout } }
    if keepAliveTimeout = 0 then { c' with deleted := true } else c'.setTimeout now (keepAliveTimeout, c'.session)
  else if ret = 0 ∧ c.session.timeout ≠ 0 then
    c.setTimeout now (if c.session.beginNsec = -1 then c.session.firstTimeoutOf c.limit c.responseTimeout now
      else c.session.nextTimeout c.responseTimeout now)
  else c

/-- `Communicator::partial_written` -/
def partialWritten (now : Timespec) (c : CommConn) : CommConn :=
  c.setTimeout now (c.session.nextTimeout c.responseTimeout now)

end CommConn

/-! ## Milliseconds -/

theorem ns_after (now : Timespec) (timeout : Nat) : (now.after timeout).ns = now.ns + timeout * 1000000 := by
  unfold Timespec.after
  rw [Timespec.ns_plus]
  omega

theorem armed_eq {timeout : Int} (h : 0 ≤ timeout) (now : Timespec) :
    ∃ t, armed timeout now = some t ∧ (t.ns : Int) = now.ns + timeout * 1000000 := by
  refine ⟨now.after timeout.toNat, if_pos h, ?_⟩
  rw [ns_after]
  omega

theorem armed_neg {timeout : Int} (h : timeout < 0) (now : Timespec) : armed timeout now = none :=
  if_neg (Int.not_le.2 h)

/-- **The time used is less than a millisecond off.** -/
theorem timeUsed_bounds (start now : Timespec) :
    (now.ns : Int) - start.ns - 1000000 <
        1000000 * (1000 * ((now.sec : Int) - start.sec) + ((now.nsec : Int) - start.nsec).tdiv 1000000) ∧
      1000000 * (1000 * ((now.sec : Int) - start.sec) + ((now.nsec : Int) - start.nsec).tdiv 1000000) <
        (now.ns : Int) - start.ns + 1000000 := by
  unfold Timespec.ns
  have hdiv := Int.mul_tdiv_add_tmod ((now.nsec : Int) - start.nsec) 1000000
  have hlt := Int.tmod_lt_of_pos ((now.nsec : Int) - start.nsec) (by decide : (0 : Int) < 1000000)
  have hgt := Int.lt_tmod_of_pos ((now.nsec : Int) - start.nsec) (by decide : (0 : Int) < 1000000)
  generalize ((now.nsec : Int) - start.nsec).tdiv 1000000 = quotient at *
  generalize ((now.nsec : Int) - start.nsec).tmod 1000000 = remainder at *
  omega

/-! ## The two functions -/

/-- The limit begun at `start` is still to be watched. -/
structure CommSession.Watches (start : Timespec) (limit : Int) (s : CommSession) : Prop where
  timeout : s.timeout = limit
  sec : s.beginSec = start.sec
  nsec : s.beginNsec = start.nsec

variable {limit responseTimeout : Int} {start now : Timespec} {s : CommSession}

/-- **`first_timeout` gives the shorter limit**; only where that is the target's does the session's remain. -/
theorem firstTimeoutOf_cases (hl : -1 ≤ limit) (hl' : limit < 2147483648) (hr : -1 ≤ responseTimeout)
    (hr' : responseTimeout < 2147483648) (now : Timespec) (s : CommSession) :
    ((responseTimeout < 0 ∨ 0 ≤ limit ∧ limit ≤ responseTimeout) ∧
      (s.firstTimeoutOf limit responseTimeout now).1 = limit ∧
      (s.firstTimeoutOf limit responseTimeout now).2.timeout = 0 ∧
      (s.firstTimeoutOf limit responseTimeout now).2.beginNsec = 0) ∨
    (0 ≤ responseTimeout ∧ (limit < 0 ∨ responseTimeout < limit) ∧
      (s.firstTimeoutOf limit responseTimeout now).1 = responseTimeout ∧
      (s.firstTimeoutOf limit responseTimeout now).2.Watches now limit) := by
  unfold CommSession.firstTimeoutOf CommSession.firstTimeout toUnsigned
  dsimp only
  split
  · rename_i h
    exact Or.inl ⟨by omega, rfl, rfl, rfl⟩
  · rename_i h
    exact Or.inr ⟨by omega, by omega, rfl, rfl, rfl, rfl⟩

theorem nextTimeout_idle (h : s.timeout ≤ 0) : s.nextTimeout responseTimeout now = (responseTimeout, s) :=
  if_neg (Int.not_lt.2 h)

/-- **`next_timeout` keeps to the session's limit**, and gives zero past it. -/
theorem nextTimeout_watched (hw : s.Watches start limit) (hl : 0 < limit) (hl' : limit < 2147483648)
    (hr : 0 ≤ responseTimeout) (later : start.ns ≤ now.ns) :
    0 ≤ (s.nextTimeout responseTimeout now).1 ∧ (s.nextTimeout responseTimeout now).1 ≤ responseTimeout ∧
      ((s.nextTimeout responseTimeout now).2 = s ∨ (s.nextTimeout responseTimeout now).2 = { s with timeout := 0 }) ∧
      (now.ns ≤ start.ns + 2147483648 * 1000000 → (now.ns : Int) + (s.nextTimeout responseTimeout now).1 * 1000000 ≤
        max (now.ns : Int) (start.ns + limit * 1000000 + 1000000)) := by
  obtain ⟨htimeout, hsec, hnsec⟩ := hw
  obtain ⟨hlow, hhigh⟩ := timeUsed_bounds start now
  unfold CommSession.nextTimeout
  rw [if_pos (htimeout ▸ hl), hsec, hnsec, htimeout]
  generalize 1000 * ((now.sec : Int) - start.sec) + ((now.nsec : Int) - start.nsec).tdiv 1000000 = used at hlow hhigh ⊢
  dsimp only
  split
  · rename_i hle
    refine ⟨?_, ?_, Or.inr rfl, fun soon => ?_⟩
    · dsimp only
      split <;> omega
    · dsimp only
      split <;> omega
    · unfold toInt at *
      dsimp only
      split <;> omega
  · rename_i hgt
    refine ⟨hr, Int.le_refl _, Or.inl rfl, fun soon => ?_⟩
    unfold toInt at hgt
    dsimp only
    omega

/-! ## Receiving -/

/-- Whose message it is: one of a server's session, or of a client's, with its `keep_alive_timeout()`. -/
inductive CommMessageKind where
  | request
  | reply (keepAliveTimeout : Int)

def CommConn.append (kind : CommMessageKind) (ret : Int) (now : Timespec) (c : CommConn) : CommConn := match kind with
  | .request => c.appendRequest ret now
  | .reply keepAliveTimeout => c.appendReply keepAliveTimeout ret now

/-- **A deadline in time**: not past the session's limit, or the moment the session went on if that was later, and not
past the target's limit for the pause; there is none only with no limit. -/
def ReceiveInTime (limit responseTimeout : Int) (start last : Timespec) : Option Timespec → Prop
  | some t => (0 ≤ limit → (t.ns : Int) ≤ max (last.ns : Int) (start.ns + limit * 1000000 + 1000000)) ∧
      (0 ≤ responseTimeout → (t.ns : Int) ≤ last.ns + responseTimeout * 1000000)
  | none => limit < 0 ∧ responseTimeout < 0

/-- What holds between two pieces of a message. -/
structure Receiving (limit responseTimeout : Int) (start last : Timespec) (c : CommConn) : Prop where
  limit_eq : c.limit = limit
  response_eq : c.responseTimeout = responseTimeout
  inTime : ReceiveInTime limit responseTimeout start last c.deadline
  begun : c.session.beginNsec ≠ -1
  rest : c.session.timeout = 0 ∨ 0 ≤ responseTimeout ∧ c.session.Watches start limit

theorem receiving_start (hl : -1 ≤ limit) (hl' : limit < 2147483648) (hr : -1 ≤ responseTimeout)
    (hr' : responseTimeout < 2147483648) (now : Timespec) (s : CommSession) :
    Receiving limit responseTimeout now now (.start limit responseTimeout now s) := by
  unfold CommConn.start CommConn.setTimeout
  rcases firstTimeoutOf_cases hl hl' hr hr' now s with ⟨hcase, htime, hzero, hbegin⟩ | ⟨hpos, hcase, htime, hw⟩
  · refine ⟨rfl, rfl, ?_, by dsimp only; omega, Or.inl hzero⟩
    dsimp only
    rw [htime]
    by_cases h : 0 ≤ limit
    · obtain ⟨t, ht, hns⟩ := armed_eq h now
      rw [ht]
      exact ⟨fun _ => by omega, fun _ => by omega⟩
    · rw [armed_neg (Int.not_le.1 h)]
      exact ⟨by omega, by omega⟩
  · refine ⟨rfl, rfl, ?_, by dsimp only; rw [hw.nsec]; omega, Or.inr ⟨hpos, hw⟩⟩
    dsimp only
    rw [htime]
    obtain ⟨t, ht, hns⟩ := armed_eq hpos now
    rw [ht]
    exact ⟨fun _ => by omega, fun _ => by omega⟩

/-- Nothing is done for a session whose limit the poller has. -/
theorem ReceiveInTime.later {last : Timespec} {d : Option Timespec} (h : ReceiveInTime limit responseTimeout start last d)
    (later : last.ns ≤ now.ns) : ReceiveInTime limit responseTimeout start now d := by
  cases d with
  | none => exact h
  | some t =>
    obtain ⟨h₁, h₂⟩ := h
    exact ⟨fun h => by have := h₁ h; omega, fun h => by have := h₂ h; omega⟩

/-- **A piece of a message keeps the deadline in time.** -/
theorem Receiving.append {last : Timespec} {c : CommConn} (h : Receiving limit responseTimeout start last c)
    (hl : -1 ≤ limit) (hl' : limit < 2147483648) (begun : start.ns ≤ last.ns) (later : last.ns ≤ now.ns)
    (soon : now.ns < start.ns + 2147483648 * 1000000) (kind : CommMessageKind) :
    Receiving limit responseTimeout start now (c.append kind 0 now) := by
  have hstep : c.append kind 0 now =
      if c.session.timeout ≠ 0 then c.setTimeout now (c.session.nextTimeout c.responseTimeout now) else c := by
    cases kind with
    | request =>
      unfold CommConn.append CommConn.appendRequest
      simp
    | reply keepAliveTimeout =>
      unfold CommConn.append CommConn.appendReply
      simp [h.begun]
  rw [hstep]
  split
  · rename_i hne
    obtain ⟨hpos, hw⟩ := h.rest.resolve_left hne
    unfold CommConn.setTimeout
    rw [h.response_eq]
    have htimeout := hw.timeout
    by_cases hlim : limit < 0
    · rw [nextTimeout_idle (by omega)]
      refine ⟨h.limit_eq, rfl, ?_, h.begun, h.rest⟩
      obtain ⟨t, ht, hns⟩ := armed_eq hpos now
      dsimp only
      rw [ht]
      exact ⟨fun _ => by omega, fun _ => by omega⟩
    · obtain ⟨h0, hle, hrest, hbound⟩ := nextTimeout_watched hw (by omega) hl' hpos (Nat.le_trans begun later)
      have hbound := hbound (Nat.le_of_lt soon)
      refine ⟨h.limit_eq, rfl, ?_, ?_, ?_⟩
      · obtain ⟨t, ht, hns⟩ := armed_eq h0 now
        dsimp only
        rw [ht]
        exact ⟨fun _ => by omega, fun _ => by omega⟩
      · dsimp only
        rcases hrest with e | e <;> rw [e] <;> exact h.begun
      · dsimp only
        rcases hrest with e | e <;> rw [e]
        · exact h.rest
        · exact Or.inl rfl
  · exact { h with inTime := h.inTime.later later }

/-- The pieces of a message that is not complete, as they come. -/
def receives (c : CommConn) : List (CommMessageKind × Timespec) → CommConn
  | [] => c
  | (kind, now) :: l => receives (c.append kind 0 now) l

/-- When the last of them came. -/
def lastTime (start : Timespec) : List (CommMessageKind × Timespec) → Timespec
  | [] => start
  | (_, now) :: l => lastTime now l

theorem Receiving.receives (hl : -1 ≤ limit) (hl' : limit < 2147483648)
    (l : List (CommMessageKind × Timespec)) : ∀ {last : Timespec} {c : CommConn},
    Receiving limit responseTimeout start last c → start.ns ≤ last.ns →
    (last :: l.map Prod.snd).Pairwise (fun a b => a.ns ≤ b.ns) →
    (∀ a ∈ l, a.2.ns < start.ns + 2147483648 * 1000000) →
    Receiving limit responseTimeout start (lastTime last l) (Tinywf.receives c l) := by
  induction l with
  | nil => exact fun h _ _ _ => h
  | cons a l ih =>
    intro last c h begun sorted soon
    obtain ⟨hhead, htail⟩ := List.pairwise_cons.1 sorted
    have later := hhead a.2 List.mem_cons_self
    exact ih (h.append hl hl' begun later (soon a List.mem_cons_self) a.1) (Nat.le_trans begun later) htail
      fun b hb => soon b (List.mem_cons_of_mem _ hb)

/-- **The deadline of a session that receives is in time.** -/
theorem receive_deadline (limit responseTimeout : Int) (start : Timespec) (s : CommSession)
    (l : List (CommMessageKind × Timespec)) (hl : -1 ≤ limit ∧ limit < 2147483648)
    (hr : -1 ≤ responseTimeout ∧ responseTimeout < 2147483648)
    (sorted : (start :: l.map Prod.snd).Pairwise fun a b => a.ns ≤ b.ns)
    (soon : ∀ a ∈ l, a.2.ns < start.ns + 2147483648 * 1000000) :
    ReceiveInTime limit responseTimeout start (lastTime start l)
      (receives (.start limit responseTimeout start s) l).deadline :=
  (Receiving.receives hl.1 hl.2 l (receiving_start hl.1 hl.2 hr.1 hr.2 start s) (Nat.le_refl _) sorted soon).inTime

/-- A start, and two pieces of a request. -/
def twoPieces : Timespec × List (CommMessageKind × Timespec) :=
  (⟨7, 900000000, by decide⟩, [(.request, ⟨8, 50000000, by decide⟩), (.request, ⟨8, 250000000, by decide⟩)])

/-- Half a second in all, two tenths for a pause. -/
theorem receive_deadline_two :
    ReceiveInTime 500 200 twoPieces.1 (lastTime twoPieces.1 twoPieces.2)
      (receives (.start 500 200 twoPieces.1 ⟨-1, 0, -1⟩) twoPieces.2).deadline :=
  receive_deadline 500 200 twoPieces.1 ⟨-1, 0, -1⟩ twoPieces.2 (by decide) (by decide) (by decide) (by decide)

/-- **A piece that is read late** moves the deadline to the moment it is read: here at 200 milliseconds, behind a limit of
100. -/
theorem receive_deadline_late :
    ∃ t, (receives (.start 100 50 ⟨0, 0, by decide⟩ ⟨-1, 0, -1⟩) [(.request, ⟨0, 200000000, by decide⟩)]).deadline =
      some t ∧ ¬ (t.ns : Int) ≤ (0 : Nat) + 100 * 1000000 + 1000000 :=
  ⟨⟨0, 200000000, by decide⟩, by decide, by decide⟩

/-! ## Sending -/

/-- Not past the limit for sending. -/
def SendInTime (limit : Int) (start : Timespec) (deadline : Option Timespec) : Prop :=
  ∃ t, deadline = some t ∧ (t.ns : Int) ≤ start.ns + limit * 1000000 + 1000000

/-- What holds between two writes. -/
structure Writing (limit responseTimeout : Int) (start : Timespec) (c : CommConn) : Prop where
  response_eq : c.responseTimeout = responseTimeout
  rest : c.session.timeout = 0 ∨
    0 ≤ responseTimeout ∧ responseTimeout < limit ∧ c.session.Watches start limit

theorem sending_start (hl : 0 ≤ limit) (hl' : limit < 2147483648) (hr : -1 ≤ responseTimeout)
    (hr' : responseTimeout < 2147483648) (now : Timespec) (s : CommSession) :
    Writing limit responseTimeout now (.start limit responseTimeout now s) ∧
      SendInTime limit now (CommConn.start limit responseTimeout now s).deadline := by
  unfold CommConn.start CommConn.setTimeout SendInTime
  rcases firstTimeoutOf_cases (Int.le_trans (by decide) hl) hl' hr hr' now s with
    ⟨hcase, htime, hzero, -⟩ | ⟨hpos, hcase, htime, hw⟩
  · refine ⟨⟨rfl, Or.inl hzero⟩, ?_⟩
    obtain ⟨t, ht, hns⟩ := armed_eq hl now
    dsimp only
    rw [htime]
    exact ⟨t, ht, by omega⟩
  · refine ⟨⟨rfl, Or.inr ⟨hpos, by omega, hw⟩⟩, ?_⟩
    obtain ⟨t, ht, hns⟩ := armed_eq hpos now
    dsimp only
    rw [htime]
    exact ⟨t, ht, by omega⟩

/-- The write comes before the limit, and if the limit is not watched any more, so that the target's counts, far enough
before it. -/
def WrittenInTime (limit responseTimeout : Int) (start : Timespec) (c : CommConn) (now : Timespec) : Prop :=
  (now.ns : Int) ≤ start.ns + limit * 1000000 + 1000000 ∧
    (c.session.timeout = 0 →
      0 ≤ responseTimeout ∧ (now.ns : Int) + responseTimeout * 1000000 ≤ start.ns + limit * 1000000 + 1000000)

/-- **One partial write**: the deadline it leaves is in time just when the write was. -/
theorem Writing.partialWritten {c : CommConn} (h : Writing limit responseTimeout start c) (hl : 0 ≤ limit)
    (hl' : limit < 2147483648) (later : start.ns ≤ now.ns) :
    Writing limit responseTimeout start (c.partialWritten now) ∧
      (SendInTime limit start (c.partialWritten now).deadline ↔ WrittenInTime limit responseTimeout start c now) := by
  unfold CommConn.partialWritten CommConn.setTimeout SendInTime WrittenInTime
  rw [h.response_eq]
  dsimp only
  rcases h.rest with hzero | ⟨hpos, hlt, hw⟩
  · rw [nextTimeout_idle (by omega)]
    refine ⟨⟨rfl, Or.inl hzero⟩, ?_⟩
    dsimp only
    by_cases hneg : responseTimeout < 0
    · rw [armed_neg hneg]
      constructor
      · rintro ⟨t, ht, -⟩
        cases ht
      · rintro ⟨-, hin⟩
        have := (hin hzero).1
        omega
    · obtain ⟨t, ht, hns⟩ := armed_eq (Int.not_lt.1 hneg) now
      rw [ht]
      constructor
      · rintro ⟨t', ht', hle⟩
        cases ht'
        exact ⟨by omega, fun _ => ⟨by omega, by omega⟩⟩
      · rintro ⟨-, hin⟩
        have := (hin hzero).2
        exact ⟨t, rfl, by omega⟩
  · have htimeout := hw.timeout
    obtain ⟨h0, hle, hrest, hbound⟩ := nextTimeout_watched hw (by omega) hl' hpos later
    obtain ⟨t, ht, hns⟩ := armed_eq h0 now
    refine ⟨⟨rfl, ?_⟩, ?_⟩
    · dsimp only
      rcases hrest with e | e <;> rw [e]
      · exact Or.inr ⟨hpos, hlt, hw⟩
      · exact Or.inl rfl
    · rw [ht]
      constructor
      · rintro ⟨t', ht', hle⟩
        cases ht'
        exact ⟨by omega, fun hzero => by omega⟩
      · rintro ⟨hin, -⟩
        have := hbound (by omega)
        exact ⟨t, rfl, by omega⟩

/-- The partial writes, as they come. -/
def writes (c : CommConn) : List Timespec → CommConn
  | [] => c
  | now :: l => writes (c.partialWritten now) l

theorem writes_concat (c : CommConn) (l : List Timespec) (now : Timespec) :
    writes c (l ++ [now]) = (writes c l).partialWritten now := by
  induction l generalizing c with
  | nil => rfl
  | cons a l ih => exact ih _

theorem Writing.writes {c : CommConn} (h : Writing limit responseTimeout start c) (hl : 0 ≤ limit)
    (hl' : limit < 2147483648) (l : List Timespec) (later : ∀ now ∈ l, start.ns ≤ now.ns) :
    Writing limit responseTimeout start (Tinywf.writes c l) := by
  induction l generalizing c with
  | nil => exact h
  | cons a l ih =>
    exact ih (h.partialWritten hl hl' (later a List.mem_cons_self)).1 fun now hn => later now (List.mem_cons_of_mem _ hn)

/-- **The deadline of a session that sends stays in time as long as its partial writes do, and no longer.** -/
theorem send_deadline (limit responseTimeout : Int) (start : Timespec) (s : CommSession) (l : List Timespec)
    (hl : 0 ≤ limit ∧ limit < 2147483648) (hr : -1 ≤ responseTimeout ∧ responseTimeout < 2147483648)
    (sorted : (start :: l).Pairwise fun a b => a.ns ≤ b.ns) :
    (∀ us, us <+: l → SendInTime limit start (writes (.start limit responseTimeout start s) us).deadline) ↔
      ∀ us now, us ++ [now] <+: l →
        WrittenInTime limit responseTimeout start (writes (.start limit responseTimeout start s) us) now := by
  obtain ⟨hstart, hin⟩ := sending_start hl.1 hl.2 hr.1 hr.2 start s
  have later := (List.pairwise_cons.1 sorted).1
  have one : ∀ us now, us ++ [now] <+: l →
      (SendInTime limit start (writes (.start limit responseTimeout start s) (us ++ [now])).deadline ↔
        WrittenInTime limit responseTimeout start (writes (.start limit responseTimeout start s) us) now) := by
    intro us now hpre
    have hmem : ∀ a ∈ us ++ [now], start.ns ≤ a.ns := fun a ha => later a (hpre.subset ha)
    have hus := hstart.writes hl.1 hl.2 us fun a ha => hmem a (List.mem_append_left _ ha)
    rw [writes_concat]
    exact (hus.partialWritten hl.1 hl.2 (hmem now (List.mem_append_right _ List.mem_cons_self))).2
  constructor
  · exact fun h us now hpre => (one us now hpre).1 (h _ hpre)
  · intro h us hpre
    rcases List.eq_nil_or_concat us with rfl | ⟨us, now, rfl⟩
    · exact hin
    · rw [List.concat_eq_append] at hpre ⊢
      exact (one us now hpre).2 (h us now hpre)

/-- Half a second to send, two tenths for a pause: a write after one tenth is in time. -/
theorem send_deadline_one :
    (∀ us, us <+: [⟨7, 100000000, by decide⟩] → SendInTime 500 ⟨7, 0, by decide⟩
        (writes (.start 500 200 ⟨7, 0, by decide⟩ ⟨-1, 0, -1⟩) us).deadline) ↔
      ∀ us now, us ++ [now] <+: [⟨7, 100000000, by decide⟩] → WrittenInTime 500 200 ⟨7, 0, by decide⟩
        (writes (.start 500 200 ⟨7, 0, by decide⟩ ⟨-1, 0, -1⟩) us) now :=
  send_deadline 500 200 ⟨7, 0, by decide⟩ ⟨-1, 0, -1⟩ [⟨7, 100000000, by decide⟩] (by decide) (by decide) (by decide)

/-- **A write moves the deadline of a session that was to send in 100 milliseconds**: after 50 it gets the second of its
target, or, where the target has no limit, all the time there is. -/
theorem send_deadline_moved :
    (∃ t, (writes (.start 100 1000 ⟨0, 0, by decide⟩ ⟨-1, 0, -1⟩) [⟨0, 50000000, by decide⟩]).deadline = some t ∧
      ¬ (t.ns : Int) ≤ (0 : Nat) + 100 * 1000000 + 1000000) ∧
    (writes (.start 100 (-1) ⟨0, 0, by decide⟩ ⟨-1, 0, -1⟩) [⟨0, 50000000, by decide⟩]).deadline = none :=
  ⟨⟨⟨1, 50000000, by decide⟩, by decide, by decide⟩, by decide⟩

end Tinywf
