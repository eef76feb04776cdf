import Tinywf.Iovec
/-!
# SendMessage — a message out, at once and as the socket takes it

`Communicator::send_message` writes the vectors that `encode` filled; what the socket does not take is handed to the
poller, whose `__poller_handle_write` writes on whenever the socket is ready.  Both advance the vectors in place.  A
`Writev` is what one call of `writev` came to, and the bytes each call took are kept in `accepted`.

`send_message_bytes` is what holds of every sequence of such calls.
-/
namespace Tinywf

open CLib Iovec

def IOV_MAX : Nat := 1024

def ENCODE_IOV_MAX : Nat := 8192

/-- What one call of `writev` came to. -/
inductive Writev where
  | again
  | error
  | wrote (n : Nat)
  deriving DecidableEq

/-- An array of vectors on its way out: `cnt` of them are left, from `pos` on. -/
structure Sending where
  vectors : List Iovec
  pos : Nat
  cnt : Nat
  /-- What the successful calls of `writev` took, in order. -/
  accepted : List (List UInt8)

namespace Sending

variable (mem : Nat → UInt8) (s : Sending)

/-- The vectors a call of `writev` submits. -/
def submitted : List Iovec := (s.vectors.drop s.pos).take (if s.cnt ≤ IOV_MAX then s.cnt else IOV_MAX)

/-- The socket takes no more than it is given, and nothing only when that is nothing. -/
def Possible : Writev → Prop
  | .wrote n => n ≤ (gather mem s.submitted).length ∧ (n = 0 → gather mem s.submitted = [])
  | _ => True

/-- The bytes the socket has taken. -/
def sent : List UInt8 := s.accepted.flatten

end Sending

/-! ## The synchronous path -/

/-- The loop after a `writev`, over `cnt` vectors from `pos` on: the array, and how many were used up. -/
def skipVectors : List Iovec → Nat → Nat → Nat → List Iovec × Nat
  | vectors, _, 0, _ => (vectors, 0)
  | vectors, pos, cnt + 1, n =>
    match vectors[pos]? with
    | none => (vectors, 0)
    | some v =>
      if v.len ≤ n then
        let r := skipVectors vectors (pos + 1) cnt (n - v.len)
        (r.1, r.2 + 1)
      else (vectors.set pos (v.advance n), 0)

/-- One pass of the loop of `send_message_sync`, with `n` bytes taken. -/
def syncWrote (mem : Nat → UInt8) (n : Nat) (s : Sending) : Sending :=
  let r := skipVectors s.vectors s.pos s.cnt n
  { vectors := r.1
    pos := s.pos + r.2
    cnt := s.cnt - r.2
    accepted := s.accepted ++ [(gather mem s.submitted).take n] }

/-- `send_message_sync`: what it returns, `none` while it still writes. -/
def sendMessageSync (mem : Nat → UInt8) : List Writev → Sending → Option Int × Sending
  | [], s => if s.cnt > 0 then (none, s) else (some 0, s)
  | o :: os, s =>
    if s.cnt > 0 then
      match o with
      | .again => (some s.cnt, s)
      | .error => (some (-1), s)
      | .wrote n => sendMessageSync mem os (syncWrote mem n s)
    else (some 0, s)

/-- Every call of `writev` that is made is a possible one. -/
def SyncPossible (mem : Nat → UInt8) : List Writev → Sending → Prop
  | [], _ => True
  | o :: os, s => s.cnt > 0 → s.Possible mem o ∧ ∀ n, o = .wrote n → SyncPossible mem os (syncWrote mem n s)

/-! ## The asynchronous path -/

/-- The array and count `send_message_async` leaves with the poller, whose `iovcnt` is an `unsigned short`. -/
def sendMessageAsync (vectors : List Iovec) (pos cnt : Nat) (accepted : List (List UInt8)) : Sending :=
  { vectors := (vectors.drop pos).take cnt, pos := 0, cnt := cnt % 0x10000, accepted := accepted }

/-- The loop of `__poller_handle_write` after a `writev`. -/
def advanceIov : List Iovec → Nat → Nat → Nat → List Iovec × Nat × Nat
  | vectors, pos, 0, _ => (vectors, pos, 0)
  | vectors, pos, cnt + 1, nleft =>
    match vectors[pos]? with
    | none => (vectors, pos, cnt + 1)
    | some v =>
      if v.len ≤ nleft then advanceIov (vectors.set pos { base := v.base + v.len, len := 0 }) (pos + 1) cnt (nleft - v.len)
      else (vectors.set pos (v.advance nleft), pos, cnt + 1)

def asyncWrote (mem : Nat → UInt8) (n : Nat) (s : Sending) : Sending :=
  let r := advanceIov s.vectors s.pos s.cnt n
  { vectors := r.1
    pos := r.2.1
    cnt := r.2.2
    accepted := s.accepted ++ [(gather mem s.submitted).take n] }

/-- `none` while the loop still writes. -/
def writeLoop (mem : Nat → UInt8) : List Writev → Nat → Sending → Option Int × Nat × Sending
  | [], count, s => if s.cnt > 0 then (none, count, s) else (some 0, count, s)
  | o :: os, count, s =>
    if s.cnt > 0 then
      match o with
      | .again => (some 0, count, s)
      | .error => (some (-1), count, s)
      | .wrote n => writeLoop mem os (count + n) (asyncWrote mem n s)
    else (some 0, count, s)

def AsyncPossible (mem : Nat → UInt8) : List Writev → Sending → Prop
  | [], _ => True
  | o :: os, s => s.cnt > 0 → s.Possible mem o ∧ ∀ n, o = .wrote n → AsyncPossible mem os (asyncWrote mem n s)

/-- How a call of `__poller_handle_write` leaves the node. -/
inductive WriteEnd where
  /-- still in a call of `writev` -/
  | writing
  /-- registered, for the socket to be ready again -/
  | waiting
  /-- gone: another thread has removed it and reports it -/
  | removed
  | finished
  | error
  deriving DecidableEq

/-- One call of `__poller_handle_write`: its calls of `writev`, what `partial_written` returns, and what
`__poller_remove_node` says. -/
structure WriteCall where
  writes : List Writev
  partialWritten : Int
  removed : Bool

/-- `data.ssl` is null, as no code sets it. -/
def pollerHandleWrite (mem : Nat → UInt8) (c : WriteCall) (s : Sending) : WriteEnd × Sending :=
  match writeLoop mem c.writes 0 s with
  | (none, _, s) => (.writing, s)
  | (some ret, count, s) =>
    if s.cnt > 0 ∧ ret ≥ 0 ∧ (count = 0 ∨ c.partialWritten ≥ 0) then (.waiting, s)
    else if c.removed then (.removed, s)
    else if s.cnt = 0 then (.finished, s)
    else (.error, s)

/-- The calls that follow one another while the node waits. -/
def handleWrites (mem : Nat → UInt8) : List WriteCall → Sending → WriteEnd × Sending
  | [], s => (.waiting, s)
  | c :: cs, s =>
    match pollerHandleWrite mem c s with
    | (.waiting, s) => handleWrites mem cs s
    | r => r

def CallsPossible (mem : Nat → UInt8) : List WriteCall → Sending → Prop
  | [], _ => True
  | c :: cs, s => AsyncPossible mem c.writes s ∧ CallsPossible mem cs (pollerHandleWrite mem c s).2

/-! ## What every call of `writev` keeps -/

namespace Sending

/-- The vectors that are left. -/
def rest (s : Sending) : List Iovec := s.vectors.drop s.pos

/-- What has been sent and what the vectors left stand for are all the bytes.  Before a call has succeeded, all of the
`total` vectors are left; once one has, what is left begins with a vector that is not empty. -/
structure Ok (mem : Nat → UInt8) (total : Nat) (all : List UInt8) (s : Sending) : Prop where
  size : s.pos + s.cnt = s.vectors.length
  start : s.accepted = [] → s.cnt = total
  split : s.sent ++ gather mem s.rest = all
  head : s.accepted = [] ∨ s.rest = [] ∨ ∃ v vs, s.rest = v :: vs ∧ 0 < v.len

variable {mem : Nat → UInt8} {total : Nat} {all : List UInt8} {s s' : Sending} {n : Nat}

theorem rest_length (h : s.pos + s.cnt = s.vectors.length) : s.rest.length = s.cnt := by
  rw [rest, List.length_drop]
  omega

/-- **A call that takes `n` bytes takes the first `n` that were left.** -/
theorem Ok.wrote (h : s.Ok mem total all) (possible : s.Possible mem (.wrote n)) (size : s'.pos + s'.cnt = s'.vectors.length)
    (left : s'.rest = consume s.rest n) (accepted : s'.accepted = s.accepted ++ [(gather mem s.submitted).take n]) :
    s'.Ok mem total all := by
  have hn := possible.1
  have hpre : gather mem s.submitted <+: gather mem s.rest := gather_take_begins _ _
  obtain ⟨t, ht⟩ := hpre
  have htake : (gather mem s.submitted).take n = (gather mem s.rest).take n := by
    rw [← ht, List.take_append_of_le_length hn]
  refine ⟨size, fun e => ?_, ?_, ?_⟩
  · rw [accepted] at e
    exact absurd e (by simp)
  · rw [sent, accepted, List.flatten_append, left, gather_consume, htake]
    simp only [List.flatten_cons, List.flatten_nil, List.append_nil, List.append_assoc, List.take_append_drop]
    exact h.split
  · right
    rw [left]
    exact consume_head s.rest n

/-- What has been sent is where the bytes begin. -/
theorem Ok.sent_begins (h : s.Ok mem total all) : s.sent <+: all := ⟨_, h.split⟩

theorem Ok.unsent (h : s.Ok mem total all) : gather mem s.rest = all.drop s.sent.length := by
  rw [← h.split, List.drop_left]

/-- **Everything has been sent when no vector is left**, or when none was ever to be. -/
theorem Ok.sent_all (h : s.Ok mem total all) (some : s.accepted ≠ []) : s.sent = all ↔ s.cnt = 0 := by
  have hlen := rest_length h.size
  constructor
  · intro e
    have hsplit := h.split
    rw [e] at hsplit
    have hg : gather mem s.rest = [] := List.append_right_eq_self.1 hsplit
    rcases h.head with hh | hh | ⟨v, vs, hh, hv⟩
    · exact absurd hh some
    · rw [hh] at hlen
      exact hlen.symm
    · rw [hh] at hg
      exact absurd hg (gather_ne_nil hv)
  · intro e
    have hrest : s.rest = [] := List.eq_nil_of_length_eq_zero (hlen.trans e)
    have := h.split
    rwa [hrest, gather_nil, List.append_nil] at this

end Sending

theorem drop_cons_getElem {vectors : List Iovec} {pos : Nat} {v : Iovec} (h : vectors[pos]? = some v) :
    vectors.drop pos = v :: vectors.drop (pos + 1) := by
  obtain ⟨hlt, e⟩ := List.getElem?_eq_some_iff.1 h
  rw [List.drop_eq_getElem_cons hlt, e]

theorem drop_set_self {vectors : List Iovec} {pos : Nat} {v w : Iovec} (h : vectors[pos]? = some v) :
    (vectors.set pos w).drop pos = w :: vectors.drop (pos + 1) := by
  obtain ⟨hlt, -⟩ := List.getElem?_eq_some_iff.1 h
  rw [List.drop_eq_getElem_cons (by rw [List.length_set]; exact hlt), List.getElem_set_self, List.drop_set_of_lt (by omega)]

/-- **The loop of `send_message_sync` takes the bytes off the vectors left.** -/
theorem skipVectors_eq : ∀ (cnt : Nat) (vectors : List Iovec) (pos n : Nat), pos + cnt = vectors.length →
    (skipVectors vectors pos cnt n).1.length = vectors.length ∧ (skipVectors vectors pos cnt n).2 ≤ cnt ∧
      (skipVectors vectors pos cnt n).1.drop (pos + (skipVectors vectors pos cnt n).2) = consume (vectors.drop pos) n
  | 0, vectors, pos, n, h => by
    have hnil : vectors.drop pos = [] := List.drop_of_length_le (by omega)
    refine ⟨rfl, Nat.le_refl _, ?_⟩
    rw [hnil]
    exact hnil
  | cnt + 1, vectors, pos, n, h => by
    obtain ⟨v, hv⟩ : ∃ v, vectors[pos]? = some v := ⟨vectors[pos], List.getElem?_eq_getElem (by omega)⟩
    unfold skipVectors
    rw [hv, drop_cons_getElem hv]
    simp only [consume]
    split
    · obtain ⟨h1, h2, h3⟩ := skipVectors_eq cnt vectors (pos + 1) (n - v.len) (by omega)
      refine ⟨h1, by omega, ?_⟩
      rw [← h3]
      congr 1
      omega
    · refine ⟨List.length_set, Nat.zero_le _, ?_⟩
      exact drop_set_self hv

/-- **The loop of `__poller_handle_write` does as well.** -/
theorem advanceIov_eq : ∀ (cnt : Nat) (vectors : List Iovec) (pos n : Nat), pos + cnt = vectors.length →
    (advanceIov vectors pos cnt n).2.1 + (advanceIov vectors pos cnt n).2.2 = (advanceIov vectors pos cnt n).1.length ∧
      (advanceIov vectors pos cnt n).1.drop (advanceIov vectors pos cnt n).2.1 = consume (vectors.drop pos) n
  | 0, vectors, pos, n, h => by
    have hnil : vectors.drop pos = [] := List.drop_of_length_le (by omega)
    refine ⟨h, ?_⟩
    rw [hnil]
    exact hnil
  | cnt + 1, vectors, pos, n, h => by
    obtain ⟨v, hv⟩ : ∃ v, vectors[pos]? = some v := ⟨vectors[pos], List.getElem?_eq_getElem (by omega)⟩
    unfold advanceIov
    rw [hv, drop_cons_getElem hv]
    simp only [consume]
    split
    · obtain ⟨h1, h2⟩ := advanceIov_eq cnt (vectors.set pos { base := v.base + v.len, len := 0 }) (pos + 1) (n - v.len)
        (by rw [List.length_set]; omega)
      refine ⟨h1, h2.trans ?_⟩
      rw [List.drop_set_of_lt (by omega)]
    · refine ⟨by rw [List.length_set]; exact h, ?_⟩
      exact drop_set_self hv

namespace Sending

variable {mem : Nat → UInt8} {total : Nat} {all : List UInt8} {s : Sending} {n : Nat}

theorem Ok.syncWrote (h : s.Ok mem total all) (possible : s.Possible mem (.wrote n)) :
    (syncWrote mem n s).Ok mem total all := by
  obtain ⟨h1, h2, h3⟩ := skipVectors_eq s.cnt s.vectors s.pos n h.size
  refine h.wrote possible ?_ h3 rfl
  have hsize : (Tinywf.syncWrote mem n s).vectors.length = s.vectors.length := h1
  have := h.size
  rw [hsize]
  simp only [Tinywf.syncWrote]
  omega

theorem Ok.asyncWrote (h : s.Ok mem total all) (possible : s.Possible mem (.wrote n)) :
    (asyncWrote mem n s).Ok mem total all := by
  obtain ⟨h1, h2⟩ := advanceIov_eq s.cnt s.vectors s.pos n h.size
  exact h.wrote possible h1 h2 rfl

/-! ## Both paths -/

theorem Ok.sendMessageSync : ∀ {os : List Writev} {s : Sending}, s.Ok mem total all → SyncPossible mem os s →
    (sendMessageSync mem os s).2.Ok mem total all
  | [], s, h, _ => by
    unfold Tinywf.sendMessageSync
    split <;> exact h
  | o :: os, s, h, hp => by
    unfold Tinywf.sendMessageSync
    split
    · rename_i hpos
      obtain ⟨h1, h2⟩ := hp hpos
      cases o with
      | again => exact h
      | error => exact h
      | wrote n => exact (h.syncWrote h1).sendMessageSync (h2 n rfl)
    · exact h

/-- **`send_message_sync` returns how many vectors are left**, or it fails or still writes with some left. -/
theorem sendMessageSync_ret (mem : Nat → UInt8) : ∀ (os : List Writev) (s : Sending),
    (sendMessageSync mem os s).1 = some ((sendMessageSync mem os s).2.cnt : Int) ∨
      (0 < (sendMessageSync mem os s).2.cnt ∧
        ((sendMessageSync mem os s).1 = none ∨ (sendMessageSync mem os s).1 = some (-1)))
  | [], s => by
    unfold Tinywf.sendMessageSync
    split
    · rename_i h
      exact .inr ⟨h, .inl rfl⟩
    · rename_i h
      left
      simp only [Option.some.injEq]
      omega
  | o :: os, s => by
    unfold Tinywf.sendMessageSync
    split
    · rename_i h
      cases o with
      | again => exact .inl rfl
      | error => exact .inr ⟨h, .inr rfl⟩
      | wrote n => exact sendMessageSync_ret mem os _
    · rename_i h
      left
      simp only [Option.some.injEq]
      omega

theorem Ok.writeLoop : ∀ {os : List Writev} {count : Nat} {s : Sending}, s.Ok mem total all → AsyncPossible mem os s →
    (writeLoop mem os count s).2.2.Ok mem total all
  | [], count, s, h, _ => by
    unfold Tinywf.writeLoop
    split <;> exact h
  | o :: os, count, s, h, hp => by
    unfold Tinywf.writeLoop
    split
    · rename_i hpos
      obtain ⟨h1, h2⟩ := hp hpos
      cases o with
      | again => exact h
      | error => exact h
      | wrote n => exact (h.asyncWrote h1).writeLoop (h2 n rfl)
    · exact h

/-- The loop has not ended only with vectors left. -/
theorem writeLoop_none (mem : Nat → UInt8) : ∀ (os : List Writev) (count : Nat) (s : Sending),
    (writeLoop mem os count s).1 = none →
    0 < (writeLoop mem os count s).2.2.cnt
  | [], count, s, h => by
    unfold Tinywf.writeLoop at h ⊢
    split at h
    · rename_i hpos
      rw [if_pos hpos]
      exact hpos
    · cases h
  | o :: os, count, s, h => by
    unfold Tinywf.writeLoop at h ⊢
    split at h
    · rename_i hpos
      rw [if_pos hpos]
      cases o with
      | again => cases h
      | error => cases h
      | wrote n => exact writeLoop_none mem os _ _ h
    · cases h

/-- **How a call of `__poller_handle_write` ends**: finished or removed with no vector left, and otherwise with some. -/
theorem Ok.pollerHandleWrite {c : WriteCall} (h : s.Ok mem total all) (hp : AsyncPossible mem c.writes s) :
    (pollerHandleWrite mem c s).2.Ok mem total all ∧
      ((pollerHandleWrite mem c s).1 = .finished → (pollerHandleWrite mem c s).2.cnt = 0) ∧
      ((pollerHandleWrite mem c s).2.cnt = 0 →
        (pollerHandleWrite mem c s).1 = .finished ∨ (pollerHandleWrite mem c s).1 = .removed) := by
  have hl : (Tinywf.writeLoop mem c.writes 0 s).2.2.Ok mem total all := h.writeLoop hp
  have hn := writeLoop_none mem c.writes 0 s
  unfold Tinywf.pollerHandleWrite
  split
  · rename_i s' e
    rw [e] at hl hn
    have hpos : 0 < s'.cnt := hn rfl
    exact ⟨hl, fun hf => (by cases hf), fun h0 => absurd hpos (Nat.not_lt.2 (Nat.le_of_eq h0))⟩
  · rename_i ret count s' e
    rw [e] at hl
    split
    · rename_i hc
      exact ⟨hl, fun hf => (by cases hf), fun h0 => absurd hc.1 (Nat.not_lt.2 (Nat.le_of_eq h0))⟩
    · split
      · exact ⟨hl, fun hf => (by cases hf), fun _ => .inr rfl⟩
      · split
        · rename_i h0
          exact ⟨hl, fun _ => h0, fun _ => .inl rfl⟩
        · rename_i h0
          exact ⟨hl, fun hf => (by cases hf), fun h0' => absurd h0' h0⟩

theorem Ok.handleWrites : ∀ {cs : List WriteCall} {s : Sending}, s.Ok mem total all → 0 < s.cnt → CallsPossible mem cs s →
    (handleWrites mem cs s).2.Ok mem total all ∧
      ((handleWrites mem cs s).1 = .finished → (handleWrites mem cs s).2.cnt = 0) ∧
      ((handleWrites mem cs s).2.cnt = 0 → (handleWrites mem cs s).1 = .finished ∨ (handleWrites mem cs s).1 = .removed)
  | [], s, h, hpos, _ => ⟨h, fun hf => (by cases hf), fun h0 => absurd hpos (by simp only [Tinywf.handleWrites] at h0; omega)⟩
  | c :: cs, s, h, _, hp => by
    obtain ⟨h1, h2, h3⟩ := h.pollerHandleWrite hp.1
    unfold Tinywf.handleWrites
    split
    · rename_i s' e
      have hcs := hp.2
      rw [e] at h1 h3 hcs
      refine h1.handleWrites ?_ hcs
      rcases Nat.eq_zero_or_pos s'.cnt with h0 | h0
      · rcases h3 h0 with hf | hf <;> cases hf
      · exact h0
    · exact ⟨h1, h2, h3⟩

end Sending

/-! ## `send_message` -/

/-- The vectors of a message, none of them sent. -/
def encoded (vectors : List Iovec) : Sending :=
  { vectors := vectors, pos := 0, cnt := vectors.length, accepted := [] }

/-- What `send_message` hands to `send_message_async`: `end - cnt` and `cnt`. -/
def handedOver (vectors : List Iovec) (cnt : Nat) (s : Sending) : Sending :=
  sendMessageAsync s.vectors (vectors.length - cnt) cnt s.accepted

theorem encoded_ok (mem : Nat → UInt8) (vectors : List Iovec) :
    (encoded vectors).Ok mem vectors.length (gather mem vectors) :=
  ⟨Nat.zero_add _, fun _ => rfl, rfl, .inl rfl⟩

/-- **What is handed over is what is left.** -/
theorem handedOver_ok {mem : Nat → UInt8} {vectors : List Iovec} {s : Sending} {total : Nat} {all : List UInt8}
    (h : s.Ok mem total all) (length : s.vectors.length = vectors.length) (size : vectors.length ≤ ENCODE_IOV_MAX) :
    (handedOver vectors s.cnt s).Ok mem total all ∧ (handedOver vectors s.cnt s).vectors = s.rest ∧
      (handedOver vectors s.cnt s).cnt = s.cnt := by
  have hsize := h.size
  unfold ENCODE_IOV_MAX at size
  have hcnt : (handedOver vectors s.cnt s).cnt = s.cnt := Nat.mod_eq_of_lt (by omega)
  have hvec : (handedOver vectors s.cnt s).vectors = s.rest := by
    show (s.vectors.drop (vectors.length - s.cnt)).take s.cnt = s.rest
    have hp : vectors.length - s.cnt = s.pos := by omega
    rw [hp]
    exact List.take_of_length_le (Nat.le_of_eq (Sending.rest_length hsize))
  have hrest : (handedOver vectors s.cnt s).rest = s.rest := by
    show (handedOver vectors s.cnt s).vectors.drop 0 = s.rest
    rw [hvec, List.drop_zero]
  refine ⟨⟨?_, fun e => ?_, ?_, ?_⟩, hvec, hcnt⟩
  · rw [hvec, hcnt, Sending.rest_length hsize]
    exact Nat.zero_add _
  · rw [hcnt]
    exact h.start e
  · rw [hrest]
    exact h.split
  · rw [hrest]
    exact h.head

/-- The array stays as long as it is. -/
theorem sendMessageSync_length {m : Nat → UInt8} : ∀ {os : List Writev} {s : Sending}, s.pos + s.cnt = s.vectors.length →
    (sendMessageSync m os s).2.vectors.length = s.vectors.length
  | [], s, h => by
    unfold sendMessageSync
    split <;> rfl
  | o :: os, s, h => by
    unfold sendMessageSync
    split
    · cases o with
      | again => rfl
      | error => rfl
      | wrote n =>
        obtain ⟨h1, h2, -⟩ := skipVectors_eq s.cnt s.vectors s.pos n h
        have hs : (syncWrote m n s).vectors.length = s.vectors.length := h1
        refine (sendMessageSync_length ?_).trans hs
        rw [hs]
        simp only [syncWrote]
        omega
    · rfl

/-- **No byte is lost, sent twice or out of order.**  What the socket has taken is where the bytes of the vectors begin.
`send_message_sync` returns 0, and the poller finishes, exactly when all of them have been taken, which of vectors with no
byte takes one `writev` that succeeds.  What is handed over is what has not been taken. -/
theorem send_message_bytes (mem : Nat → UInt8) (vectors : List Iovec) (size : vectors.length ≤ ENCODE_IOV_MAX)
    (os : List Writev) (possible : SyncPossible mem os (encoded vectors)) {r : Option Int} {s : Sending}
    (sync : sendMessageSync mem os (encoded vectors) = (r, s)) :
    s.sent <+: gather mem vectors ∧
    (r = some 0 ↔ s.sent = gather mem vectors ∧ (vectors = [] ∨ s.accepted ≠ [])) ∧
    ∀ cnt : Nat, 0 < cnt → r = some (cnt : Int) →
      (handedOver vectors cnt s).vectors.length = cnt ∧
      gather mem (handedOver vectors cnt s).vectors = (gather mem vectors).drop s.sent.length ∧
      ∀ calls e s', CallsPossible mem calls (handedOver vectors cnt s) →
        handleWrites mem calls (handedOver vectors cnt s) = (e, s') →
        s'.sent <+: gather mem vectors ∧
        (e = .finished → s'.sent = gather mem vectors ∧ s'.accepted ≠ []) ∧
        (s'.sent = gather mem vectors → s'.accepted ≠ [] → e = .finished ∨ e = .removed) := by
  have h : s.Ok mem vectors.length (gather mem vectors) := by
    have := (encoded_ok mem vectors).sendMessageSync possible
    rwa [sync] at this
  have ret := Sending.sendMessageSync_ret mem os (encoded vectors)
  have length : s.vectors.length = vectors.length := by
    have : (sendMessageSync mem os (encoded vectors)).2.vectors.length = _ :=
      sendMessageSync_length (encoded_ok mem vectors).size
    rw [sync] at this
    exact this
  rw [sync] at ret
  simp only at ret
  refine ⟨h.sent_begins, ⟨fun e => ?_, fun e => ?_⟩, fun cnt hpos e => ?_⟩
  · have h0 : s.cnt = 0 := by
      rw [e] at ret
      rcases ret with ret | ⟨-, ret | ret⟩
      · have := Option.some.inj ret
        omega
      · cases ret
      · have := Option.some.inj ret
        omega
    by_cases ha : s.accepted = []
    · have hv : vectors = [] := List.eq_nil_of_length_eq_zero ((h.start ha).symm.trans h0)
      refine ⟨?_, .inl hv⟩
      rw [Sending.sent, ha, hv]
      rfl
    · exact ⟨(h.sent_all ha).2 h0, .inr ha⟩
  · have h0 : s.cnt = 0 := by
      rcases e.2 with hv | ha
      · have hsize := h.size
        rw [length, hv, List.length_nil] at hsize
        omega
      · exact (h.sent_all ha).1 e.1
    rcases ret with ret | ⟨hlt, -⟩
    · rw [ret, h0]
      rfl
    · omega
  · have hcnt : s.cnt = cnt := by
      rw [e] at ret
      rcases ret with ret | ⟨-, ret | ret⟩
      · have := Option.some.inj ret
        omega
      · cases ret
      · have := Option.some.inj ret
        omega
    subst hcnt
    obtain ⟨h1, h2, h3⟩ := handedOver_ok h length size
    rw [h2]
    refine ⟨Sending.rest_length h.size, h.unsent, fun calls e' s' hcalls he => ?_⟩
    obtain ⟨g1, g2, g3⟩ := h1.handleWrites (by rw [h3]; exact hpos) hcalls
    rw [he] at g1 g2 g3
    simp only at g1 g2 g3
    refine ⟨g1.sent_begins, fun hf => ?_, fun hall ha => g3 ((g1.sent_all ha).1 hall)⟩
    have ha : s'.accepted ≠ [] := fun ha => by
      have := g1.start ha
      have := g2 hf
      have := h.size
      have : s.vectors.length = vectors.length := length
      omega
    exact ⟨(g1.sent_all ha).2 (g2 hf), ha⟩

/-- One byte of three at once, the others when the socket is ready. -/
theorem send_message_bytes_three : ∃ s s', sendMessageSync (fun i => i.toUInt8) [.wrote 1, .again]
    (encoded [⟨0, 2⟩, ⟨2, 1⟩]) = (some 2, s) ∧
    handleWrites (fun i => i.toUInt8) [⟨[.again], 0, false⟩, ⟨[.wrote 2], 0, false⟩]
      (handedOver [⟨0, 2⟩, ⟨2, 1⟩] 2 s) = (.finished, s') ∧ s'.sent = gather (fun i => i.toUInt8) [⟨0, 2⟩, ⟨2, 1⟩] := by
  refine ⟨_, _, rfl, rfl, ?_⟩
  have h := send_message_bytes (fun i => i.toUInt8) [⟨0, 2⟩, ⟨2, 1⟩] (by decide) [.wrote 1, .again]
    (fun _ => ⟨⟨by decide, by decide⟩, fun n e => by cases e; exact fun _ => ⟨trivial, fun n e => by cases e⟩⟩) rfl
  refine (((h.2.2 2 (by decide) rfl).2.2 [⟨[.again], 0, false⟩, ⟨[.wrote 2], 0, false⟩] .finished _ ?_ rfl).2.1 rfl).1
  refine ⟨fun _ => ⟨trivial, fun n e => by cases e⟩, fun _ => ⟨⟨by decide, by decide⟩, fun n e => ?_⟩, trivial⟩
  cases e
  exact trivial

/-- **A message with no byte to send is not sent while the socket is not ready.** -/
theorem send_message_no_byte : SyncPossible (fun _ => 0) [.again] (encoded [⟨0, 0⟩]) ∧
    (sendMessageSync (fun _ => 0) [.again] (encoded [⟨0, 0⟩])).2.sent = gather (fun _ => 0) [⟨0, 0⟩] ∧
    (sendMessageSync (fun _ => 0) [.again] (encoded [⟨0, 0⟩])).1 = some 1 :=
  ⟨fun _ => ⟨trivial, fun n e => (by cases e)⟩, rfl, rfl⟩

end Tinywf
