import Tinywf.Chain
import Tinywf.Lts
/-!
# Msgqueue — the queue of two lists

The queue of msgqueue.c and the threads that put and get.  A message is known by its address; the cell of its link is
`linkoff` away, and the two heads are cells too.  What a thread does under `put_mutex` is one step; what it does under
`get_mutex` is one step up to where it takes `put_mutex` as well, the swap of the two lists, and from there one for each
time it has `put_mutex`.  `pthread_cond_wait` may return at any time, so a waiter may look again at any time, and what is
signalled to it changes no state.

The log is when the calls take effect: a put where the message is linked, a get where it takes a message off its list or
where its swap finds none.
-/
namespace Tinywf

open Chain Lts

inductive Cell where
  | head1
  | head2
  | link (address : Int)
  deriving DecidableEq

structure Msgqueue where
  msgMax : Nat
  msgCnt : Nat
  linkoff : Int
  nonblock : Bool
  mem : Cell → Option Int
  getHead : Cell
  putHead : Cell
  putTail : Cell

namespace Msgqueue

/-- `msgqueue_create`. -/
def create (maxlen : Nat) (linkoff : Int) (mem : Cell → Option Int) : Msgqueue where
  msgMax := maxlen
  msgCnt := 0
  linkoff := linkoff
  nonblock := false
  mem := Function.update (Function.update mem .head1 none) .head2 none
  getHead := .head1
  putHead := .head2
  putTail := .head2

variable (q : Msgqueue)

/-- `*link = NULL`. -/
def clearLink (msg : Int) : Msgqueue := { q with mem := Function.update q.mem (.link (msg + q.linkoff)) none }

/-- Whether `msgqueue_put` waits; `msg_max - 1` is that of `size_t`. -/
def putWaits : Bool := q.msgCnt > (q.msgMax + 0xffffffffffffffff) % 0x10000000000000000 && !q.nonblock

/-- The message goes to the end of the put list. -/
def putLink (msg : Int) : Msgqueue :=
  { q with
    mem := Function.update q.mem q.putTail (some (msg + q.linkoff))
    putTail := .link (msg + q.linkoff)
    msgCnt := q.msgCnt + 1 }

/-- `__msgqueue_swap` before `put_mutex`: its local `get_head`, and the queue's moved. -/
def swapBegin : Cell × Msgqueue := (q.getHead, { q with getHead := q.putHead })

/-- Whether `__msgqueue_swap` waits. -/
def swapWaits : Bool := q.msgCnt = 0 && !q.nonblock

/-- `__msgqueue_swap` once it does not wait: what it returns, and the drained list as the put list. -/
def swapEnd (getHead : Cell) : Nat × Msgqueue :=
  (q.msgCnt, { q with putHead := getHead, putTail := getHead, msgCnt := 0 })

/-- The first message of the get list is taken off; none if there is none. -/
def pop : Option (Int × Msgqueue) :=
  match q.mem q.getHead with
  | some link => some (link - q.linkoff, { q with mem := Function.update q.mem q.getHead (q.mem (.link link)) })
  | none => none

end Msgqueue

/-! ## The threads -/

/-- Where a thread is. -/
inductive QueuePc where
  | idle
  | putting (msg : Int)
  | putWaits (msg : Int)
  | put
  | swapping (getHead : Cell)
  | swapWaits (getHead : Cell)
  | swapped (cnt : Nat)
  | nonblock
  deriving DecidableEq

namespace QueuePc

/-- The message of a put that has not linked it. -/
def msg : QueuePc → Option Int
  | putting m => some m
  | putWaits m => some m
  | _ => none

/-- The local `get_head` of a swap that has not ended. -/
def swap : QueuePc → Option Cell
  | swapping c => some c
  | swapWaits c => some c
  | _ => none

/-- Whether the thread has `get_mutex`. -/
def gets : QueuePc → Bool
  | swapping _ => true
  | swapWaits _ => true
  | swapped _ => true
  | _ => false

end QueuePc

inductive QueueEvent where
  | put (msg : Int)
  | get (msg : Int)
  | empty
  | mode (nonblock : Bool)
  deriving DecidableEq

structure QueueSys (θ : Type) where
  queue : Msgqueue
  getMutex : Option θ
  pc : θ → QueuePc
  /-- The calls that took effect, in order. -/
  log : List (θ × QueueEvent)
  /-- What the gets returned, in order. -/
  returned : List (θ × Option Int)

variable {θ : Type}

namespace QueueEvent

def putMsg : QueueEvent → Option Int
  | put m => some m
  | _ => none

def getMsg : QueueEvent → Option Int
  | get m => some m
  | _ => none

/-- What a get that took effect so returns. -/
def result : QueueEvent → Option (Option Int)
  | get m => some (some m)
  | empty => some none
  | _ => none

end QueueEvent

namespace QueueSys

/-- The messages put, in order. -/
def puts (s : QueueSys θ) : List Int := s.log.filterMap fun e => e.2.putMsg

/-- The messages got, in order. -/
def gets (s : QueueSys θ) : List Int := s.log.filterMap fun e => e.2.getMsg

/-- The local `get_head` of the swap that has not ended, if there is one. -/
def swap (s : QueueSys θ) : Option Cell := s.getMutex.bind fun a => (s.pc a).swap

variable [DecidableEq θ]

def go (s : QueueSys θ) (a : θ) (pc : QueuePc) : QueueSys θ := { s with pc := Function.update s.pc a pc }

end QueueSys

section
variable [DecidableEq θ]

/-- One step of thread `a`.  A message that is put is not in the queue and no other put has it. -/
inductive QueueStep : QueueSys θ → θ → QueueSys θ → Prop where
  | putCall {s : QueueSys θ} {a : θ} (msg : Int) (idle : s.pc a = .idle) (out : s.puts.count msg ≤ s.gets.count msg)
      (unused : ∀ b, (s.pc b).msg ≠ some msg) :
      QueueStep s a { s.go a (.putting msg) with queue := s.queue.clearLink msg }
  | putWait {s : QueueSys θ} {a : θ} (msg : Int) (at_lock : s.pc a = .putting msg) (waits : s.queue.putWaits = true) :
      QueueStep s a (s.go a (.putWaits msg))
  | putWake {s : QueueSys θ} {a : θ} (msg : Int) (waits : s.pc a = .putWaits msg) : QueueStep s a (s.go a (.putting msg))
  | putLink {s : QueueSys θ} {a : θ} (msg : Int) (at_lock : s.pc a = .putting msg) (room : s.queue.putWaits = false) :
      QueueStep s a { s.go a .put with queue := s.queue.putLink msg, log := s.log ++ [(a, .put msg)] }
  | putSignal {s : QueueSys θ} {a : θ} (linked : s.pc a = .put) : QueueStep s a (s.go a .idle)
  | getPop {s : QueueSys θ} {a : θ} (msg : Int) (q : Msgqueue) (idle : s.pc a = .idle) (lock : s.getMutex = none)
      (pop : s.queue.pop = some (msg, q)) :
      QueueStep s a { s with queue := q, log := s.log ++ [(a, .get msg)], returned := s.returned ++ [(a, some msg)] }
  | getSwap {s : QueueSys θ} {a : θ} (idle : s.pc a = .idle) (lock : s.getMutex = none)
      (drained : s.queue.mem s.queue.getHead = none) :
      QueueStep s a { s.go a (.swapping s.queue.swapBegin.1) with queue := s.queue.swapBegin.2, getMutex := some a }
  | swapWait {s : QueueSys θ} {a : θ} (c : Cell) (at_lock : s.pc a = .swapping c) (waits : s.queue.swapWaits = true) :
      QueueStep s a (s.go a (.swapWaits c))
  | swapWake {s : QueueSys θ} {a : θ} (c : Cell) (waits : s.pc a = .swapWaits c) : QueueStep s a (s.go a (.swapping c))
  | swapSome {s : QueueSys θ} {a : θ} (c : Cell) (at_lock : s.pc a = .swapping c) (goes : s.queue.swapWaits = false)
      (some : 0 < (s.queue.swapEnd c).1) :
      QueueStep s a { s.go a (.swapped (s.queue.swapEnd c).1) with queue := (s.queue.swapEnd c).2 }
  | swapNone {s : QueueSys θ} {a : θ} (c : Cell) (at_lock : s.pc a = .swapping c) (goes : s.queue.swapWaits = false)
      (none : (s.queue.swapEnd c).1 = 0) :
      QueueStep s a { s.go a (.swapped 0) with queue := (s.queue.swapEnd c).2, log := s.log ++ [(a, .empty)] }
  | getSwapped {s : QueueSys θ} {a : θ} (cnt : Nat) (msg : Int) (q : Msgqueue) (swapped : s.pc a = .swapped (cnt + 1))
      (pop : s.queue.pop = some (msg, q)) :
      QueueStep s a { s.go a .idle with
        queue := q, getMutex := none, log := s.log ++ [(a, .get msg)], returned := s.returned ++ [(a, some msg)] }
  | getNull {s : QueueSys θ} {a : θ} (swapped : s.pc a = .swapped 0) :
      QueueStep s a { s.go a .idle with getMutex := none, returned := s.returned ++ [(a, none)] }
  | setNonblock {s : QueueSys θ} {a : θ} (idle : s.pc a = .idle) :
      QueueStep s a { s.go a .nonblock with
        queue := { s.queue with nonblock := true }, log := s.log ++ [(a, .mode true)] }
  | nonblockSignal {s : QueueSys θ} {a : θ} (set : s.pc a = .nonblock) : QueueStep s a (s.go a .idle)
  | setBlock {s : QueueSys θ} {a : θ} (idle : s.pc a = .idle) :
      QueueStep s a { s with queue := { s.queue with nonblock := false }, log := s.log ++ [(a, .mode false)] }

end

/-- A queue fresh from `msgqueue_create`, and no thread in a call. -/
structure QueueSys.Init (s : QueueSys θ) : Prop where
  queue : ∃ maxlen linkoff mem, s.queue = Msgqueue.create maxlen linkoff mem
  getMutex : s.getMutex = none
  pc : ∀ a, s.pc a = .idle
  log : s.log = []
  returned : s.returned = []

/-! ## A queue, as what it is for -/

/-- A queue takes a call: a put at the end, a get at the front, and no get finds nothing but in non-blocking mode when
there is nothing. -/
def fifo : List Int × Bool → QueueEvent → Option (List Int × Bool)
  | (q, nonblock), .put m => some (q ++ [m], nonblock)
  | (m' :: q, nonblock), .get m => if m = m' then some (q, nonblock) else none
  | ([], _), .get _ => none
  | ([], true), .empty => some ([], true)
  | ([], false), .empty => none
  | (_ :: _, _), .empty => none
  | (q, _), .mode b => some (q, b)

/-- A queue takes the calls one after the other. -/
def fifoRun : List Int × Bool → List QueueEvent → Option (List Int × Bool)
  | q, [] => some q
  | q, e :: es => (fifo q e).bind fun q' => fifoRun q' es

theorem fifoRun_append : ∀ (es : List QueueEvent) (q q' : List Int × Bool) (e : QueueEvent),
    fifoRun q es = some q' → fifoRun q (es ++ [e]) = fifo q' e
  | [], q, q', e, h => by
    cases h
    show (fifo q e).bind (fun r => fifoRun r []) = fifo q e
    cases fifo q e <;> rfl
  | x :: es, q, q', e, h => by
    unfold fifoRun at h
    cases hq : fifo q x with
    | none =>
      rw [hq] at h
      cases h
    | some r =>
      rw [hq] at h
      show (fifo q x).bind (fun r => fifoRun r (es ++ [e])) = fifo q' e
      rw [hq]
      exact fifoRun_append es r q' e h

theorem fifoRun_log {q q' : List Int × Bool} {log : List (θ × QueueEvent)} (h : fifoRun q (log.map Prod.snd) = some q')
    (a : θ) (e : QueueEvent) : fifoRun q ((log ++ [(a, e)]).map Prod.snd) = fifo q' e := by
  rw [List.map_append]
  exact fifoRun_append _ _ _ e h

/-! ## What holds of the two lists -/

/-- The heads, the two lists `lg` and `lp` of link addresses, and where a swap has got to. -/
structure Msgqueue.Lists (q : Msgqueue) (swap : Option Cell) (lg lp : List Int) : Prop where
  getHead : q.getHead = .head1 ∨ q.getHead = .head2
  putHead : q.putHead = .head1 ∨ q.putHead = .head2
  put : Chained q.mem Cell.link q.putHead lp
  cnt : q.msgCnt = lp.length
  tail : q.putTail = last Cell.link q.putHead lp
  nodup : (lg ++ lp).Nodup
  /-- Between swaps the get list hangs off the other head. -/
  between : swap = none → Chained q.mem Cell.link q.getHead lg ∧ q.getHead ≠ q.putHead
  /-- In a swap the get list is drained, and its head holds nothing. -/
  inside : ∀ c, swap = some c → lg = [] ∧ q.getHead = q.putHead ∧ (c = .head1 ∨ c = .head2) ∧ c ≠ q.putHead ∧
    q.mem c = none

/-- What the lists owe a thread: the link of a message about to be put, the messages its swap found. -/
structure QueuePc.Fits (q : Msgqueue) (lg lp : List Int) (pc : QueuePc) : Prop where
  putting : ∀ m, pc.msg = some m → q.mem (.link (m + q.linkoff)) = none ∧ m + q.linkoff ∉ lg ++ lp
  swapped : ∀ n, pc = .swapped n → lg.length = n

structure QueueSys.Ok (s : QueueSys θ) (lg lp : List Int) : Prop where
  lists : s.queue.Lists s.swap lg lp
  pending : s.puts = s.gets ++ (lg ++ lp).map (· - s.queue.linkoff)
  mutex : ∀ a, (s.pc a).gets = true ↔ s.getMutex = some a
  fits : ∀ a, (s.pc a).Fits s.queue lg lp
  single : ∀ a b m, (s.pc a).msg = some m → (s.pc b).msg = some m → a = b
  log : fifoRun ([], false) (s.log.map Prod.snd) = some ((lg ++ lp).map (· - s.queue.linkoff), s.queue.nonblock)

/-! ## What each section does to the lists -/

namespace Msgqueue.Lists

variable {q : Msgqueue} {swap : Option Cell} {lg lp : List Int} {x : Int} {c : Cell}

theorem link_ne_head {x : Int} (h : c = .head1 ∨ c = .head2) : Cell.link x ≠ c := by
  rcases h with rfl | rfl <;> simp

/-- A write to a link in neither list. -/
theorem write (h : q.Lists swap lg lp) (hx : x ∉ lg ++ lp) (v : Option Int) :
    Lists { q with mem := Function.update q.mem (.link x) v } swap lg lp := by
  have off : ∀ c, c = .head1 ∨ c = .head2 → Function.update q.mem (.link x) v c = q.mem c := fun c hc =>
    Function.update_of_ne (link_ne_head hc).symm _ _
  have out : ∀ y ∈ lg ++ lp, Function.update q.mem (.link x) v (.link y) = q.mem (.link y) := by
    intro y hy
    apply Function.update_of_ne
    intro e
    cases e
    exact hx hy
  refine ⟨h.getHead, h.putHead, ?_, h.cnt, h.tail, h.nodup, fun hs => ?_, fun c hc => ?_⟩
  · exact h.put.frame (off _ h.putHead) fun y hy => out y (List.mem_append_right lg hy)
  · obtain ⟨h1, h2⟩ := h.between hs
    exact ⟨h1.frame (off _ h.getHead) fun y hy => out y (List.mem_append_left lp hy), h2⟩
  · obtain ⟨h1, h2, h3, h4, h5⟩ := h.inside c hc
    exact ⟨h1, h2, h3, h4, (off c h3).trans h5⟩

/-- **A put is the last message of the put list.** -/
theorem linked {msg : Int} (h : q.Lists swap lg lp) (hx : msg + q.linkoff ∉ lg ++ lp)
    (hm : q.mem (.link (msg + q.linkoff)) = none) :
    (q.putLink msg).Lists swap lg (lp ++ [msg + q.linkoff]) := by
  have hlp : (lp.map Cell.link).Nodup := by
    have := (List.nodup_append.1 h.nodup).2.1
    exact this.map fun a b e => Cell.link.inj e
  have grown := h.put.append (a := msg + q.linkoff) hm (fun b _ => link_ne_head h.putHead) hlp
    (link_ne_head h.putHead) fun b hb e => hx (List.mem_append_right lg (by cases e; exact hb))
  -- the cell written is the put list's last, and no other list's
  have tail : ∀ c, c ≠ q.putHead → (∀ y ∈ lp, c ≠ .link y) → (q.putLink msg).mem c = q.mem c := by
    intro c hc hl
    apply Function.update_of_ne
    rw [h.tail]
    rcases last_mem Cell.link q.putHead lp with e | ⟨y, hy, e⟩
    · rw [e]
      exact hc
    · rw [e]
      exact hl y hy
  refine ⟨h.getHead, h.putHead, ?_, ?_, ?_, ?_, fun hs => ?_, fun c hc => ?_⟩
  · show Chained (Function.update q.mem q.putTail _) _ _ _
    rw [h.tail]
    exact grown
  · show q.msgCnt + 1 = _
    rw [h.cnt, List.length_append]
    rfl
  · exact (last_append q.putHead lp (msg + q.linkoff)).symm
  · rw [← List.append_assoc]
    refine List.nodup_append.2 ⟨h.nodup, List.nodup_singleton _, fun y hy z hz e => ?_⟩
    rw [List.mem_singleton.1 hz] at e
    exact hx (e ▸ hy)
  · obtain ⟨h1, h2⟩ := h.between hs
    refine ⟨h1.frame (tail _ h2 fun y _ => (link_ne_head h.getHead).symm) fun y hy => ?_, h2⟩
    refine tail _ (link_ne_head h.putHead) fun z hz e => ?_
    cases e
    exact (List.nodup_append.1 h.nodup).2.2 y hy y hz rfl
  · obtain ⟨h1, h2, h3, h4, h5⟩ := h.inside c hc
    exact ⟨h1, h2, h3, h4, (tail c h4 fun y _ => (link_ne_head h3).symm).trans h5⟩

/-- **A swap begins with a drained get list.** -/
theorem begun (h : q.Lists none lg lp) (drained : q.mem q.getHead = none) :
    q.swapBegin.2.Lists (some q.swapBegin.1) [] lp ∧ lg = [] := by
  obtain ⟨h1, h2⟩ := h.between rfl
  have hlg := h1.eq_nil drained
  subst hlg
  refine ⟨⟨h.putHead, h.putHead, h.put, h.cnt, h.tail, h.nodup, fun hs => ?_, fun c hc => ?_⟩, rfl⟩
  · cases hs
  · cases hc
    exact ⟨rfl, rfl, h.getHead, h2, drained⟩

/-- **A swap ends with the put list as the get list**, and an empty put list at the drained head. -/
theorem ended (h : q.Lists (some c) lg lp) : (q.swapEnd c).2.Lists none lp [] ∧ lg = [] ∧ (q.swapEnd c).1 = lp.length := by
  obtain ⟨h1, h2, h3, h4, h5⟩ := h.inside c rfl
  subst h1
  refine ⟨⟨h.getHead, h3, h5, rfl, rfl, ?_, fun _ => ⟨?_, ?_⟩, fun c hc => ?_⟩, rfl, h.cnt⟩
  · rw [List.append_nil]
    exact h.nodup
  · show Chained q.mem Cell.link q.getHead lp
    rw [h2]
    exact h.put
  · show q.getHead ≠ c
    rw [h2]
    exact h4.symm
  · cases hc

/-- **A get takes the first message of the get list.** -/
theorem popped {msg : Int} {q' : Msgqueue} (h : q.Lists none lg lp) (hp : q.pop = some (msg, q')) :
    ∃ lg', lg = (msg + q.linkoff) :: lg' ∧ q'.Lists none lg' lp ∧ q'.linkoff = q.linkoff ∧ q'.nonblock = q.nonblock ∧
      ∀ y, q'.mem (.link y) = q.mem (.link y) := by
  obtain ⟨h1, h2⟩ := h.between rfl
  unfold pop at hp
  split at hp
  · rename_i x hx
    cases hp
    cases lg with
    | nil =>
      rw [show q.mem q.getHead = none from h1] at hx
      cases hx
    | cons y lg' =>
      have e : y = x := Option.some.inj (h1.1.symm.trans hx)
      subst e
      have off : ∀ c, c ≠ q.getHead → Function.update q.mem q.getHead (q.mem (.link y)) c = q.mem c := fun c hc =>
        Function.update_of_ne hc _ _
      refine ⟨lg', by rw [Int.sub_add_cancel], ⟨h.getHead, h.putHead, ?_, h.cnt, h.tail, ?_, fun _ => ⟨?_, h2⟩, fun c hc => ?_⟩,
        rfl, rfl, fun z => off _ (link_ne_head h.getHead)⟩
      · exact h.put.frame (off _ h2.symm) fun z _ => off _ (link_ne_head h.getHead)
      · have := h.nodup
        rw [List.cons_append, List.nodup_cons] at this
        exact this.2
      · exact h1.pop fun z _ => link_ne_head h.getHead
      · cases hc
  · cases hp

/-- A get that its swap found messages for has one to take. -/
theorem pop_some (h : q.Lists none (x :: lg) lp) : ∃ msg q', q.pop = some (msg, q') := by
  obtain ⟨h1, -⟩ := h.between rfl
  have := h1.1
  unfold pop
  rw [this]
  exact ⟨_, _, rfl⟩

end Msgqueue.Lists

/-! ## What every step keeps -/

namespace QueueSys

variable {s s' : QueueSys θ} {a : θ} {lg lp lg' lp' : List Int} {p : QueuePc}

theorem swap_none (h : s.getMutex = none) : s.swap = none := by
  unfold swap
  rw [h]
  rfl

theorem swap_some (h : s.getMutex = some a) : s.swap = (s.pc a).swap := by
  unfold swap
  rw [h]
  rfl

theorem idle_swap (h : s.Ok lg lp) (ha : (s.pc a).gets = false) : s.getMutex ≠ some a := fun e => by
  have := (h.mutex a).2 e
  rw [ha] at this
  cases this

/-- The lists' messages are those out of a put. -/
theorem Ok.out (h : s.Ok lg lp) {msg : Int} (out : s.puts.count msg ≤ s.gets.count msg) :
    msg + s.queue.linkoff ∉ lg ++ lp := by
  intro hx
  have hm : msg ∈ (lg ++ lp).map (· - s.queue.linkoff) :=
    List.mem_map.2 ⟨_, hx, Int.add_sub_cancel msg _⟩
  have := List.count_pos_iff.2 hm
  rw [h.pending, List.count_append] at out
  omega

variable [DecidableEq θ]

/-- What a step of thread `a` has to give: the lists, and what they owe `a` and the others. -/
theorem Ok.step (h : s.Ok lg lp) (swap : Option Cell) (pc : s'.pc = Function.update s.pc a p) (at_swap : s'.swap = swap)
    (lists : s'.queue.Lists swap lg' lp')
    (pending : s'.puts = s'.gets ++ (lg' ++ lp').map (· - s'.queue.linkoff))
    (log : fifoRun ([], false) (s'.log.map Prod.snd) = some ((lg' ++ lp').map (· - s'.queue.linkoff), s'.queue.nonblock))
    (lock : p.gets = true ↔ s'.getMutex = some a) (others : ∀ b ≠ a, (s'.getMutex = some b ↔ s.getMutex = some b))
    (own : p.Fits s'.queue lg' lp') (rest : ∀ b ≠ a, (s.pc b).Fits s'.queue lg' lp')
    (msg : ∀ m, p.msg = some m → ∀ b ≠ a, (s.pc b).msg ≠ some m) : s'.Ok lg' lp' := by
  have at_a : s'.pc a = p := by rw [pc, Function.update_self]
  have at_b : ∀ b, b ≠ a → s'.pc b = s.pc b := fun b hb => by rw [pc, Function.update_of_ne hb]
  refine ⟨at_swap ▸ lists, pending, fun b => ?_, fun b => ?_, fun b c m hb hc => ?_, log⟩
  · by_cases e : b = a
    · rw [e, at_a]
      exact lock
    · rw [at_b b e, others b e]
      exact h.mutex b
  · by_cases e : b = a
    · rw [e, at_a]
      exact own
    · rw [at_b b e]
      exact rest b e
  · by_cases e : b = a <;> by_cases e' : c = a
    · exact e.trans e'.symm
    · rw [e, at_a] at hb
      rw [at_b c e'] at hc
      exact absurd hc (msg m hb c e')
    · rw [e', at_a] at hc
      rw [at_b b e] at hb
      exact absurd hb (msg m hc b e)
    · rw [at_b b e] at hb
      rw [at_b c e'] at hc
      exact h.single b c m hb hc

/-- A step of a thread that does not have `get_mutex` and does not take it leaves the swap as it was. -/
theorem swap_other (h : s.Ok lg lp) (ha : (s.pc a).gets = false) (pc : s'.pc = Function.update s.pc a p)
    (lock : s'.getMutex = s.getMutex) : s'.swap = s.swap := by
  unfold swap
  rw [lock]
  cases hm : s.getMutex with
  | none => rfl
  | some b =>
    have hne : b ≠ a := fun e => idle_swap h ha (e ▸ hm)
    rw [Option.bind_some, Option.bind_some, pc, Function.update_of_ne hne]

/-- A thread moves on, and nothing else changes. -/
theorem Ok.moves (h : s.Ok lg lp) (gets : p.gets = (s.pc a).gets) (swap : p.swap = (s.pc a).swap)
    (msg : ∀ m, p.msg = some m → (s.pc a).msg = some m) (swapped : ∀ n, p ≠ .swapped n) : (s.go a p).Ok lg lp := by
  have hswap : (s.go a p).swap = s.swap := by
    unfold QueueSys.swap
    cases hm : s.getMutex with
    | none => simp only [go, hm, Option.bind_none]
    | some b =>
      simp only [go, hm, Option.bind_some, Function.update_apply]
      split
      · rename_i e
        rw [e, swap]
      · rfl
  refine h.step _ rfl hswap h.lists h.pending h.log ?_ (fun _ _ => Iff.rfl) ⟨fun m hm => (h.fits a).putting m (msg m hm),
    fun n hn => absurd hn (swapped n)⟩ (fun b _ => h.fits b) fun m hm b hb e => hb (h.single b a m e (msg m hm))
  rw [gets]
  exact h.mutex a

theorem Ok.putCall (h : s.Ok lg lp) {msg : Int} (idle : s.pc a = .idle) (out : s.puts.count msg ≤ s.gets.count msg)
    (unused : ∀ b, (s.pc b).msg ≠ some msg) :
    Ok { s.go a (.putting msg) with queue := s.queue.clearLink msg } lg lp := by
  have hx := h.out out
  have hidle : (s.pc a).gets = false := by rw [idle]; rfl
  refine h.step _ rfl (swap_other h hidle rfl rfl) (h.lists.write hx none) h.pending h.log ?_ (fun _ _ => Iff.rfl)
    ⟨fun m hm => ?_, fun n hn => (by cases hn)⟩ (fun b hb => ⟨fun m hm => ?_, (h.fits b).swapped⟩) fun m hm b _ e => ?_
  · have := idle_swap h hidle
    simp only [QueuePc.gets, Bool.false_eq_true, false_iff]
    exact this
  · cases hm
    exact ⟨Function.update_self .., hx⟩
  · obtain ⟨h1, h2⟩ := (h.fits b).putting m hm
    refine ⟨?_, h2⟩
    have hne : Cell.link (m + s.queue.linkoff) ≠ .link (msg + s.queue.linkoff) := fun e => by
      have := Cell.link.inj e
      have hmm : m = msg := by omega
      exact unused b (hmm ▸ hm)
    exact (Function.update_of_ne hne _ _).trans h1
  · cases hm
    exact unused b e

theorem Ok.putLink (h : s.Ok lg lp) {msg : Int} (at_lock : s.pc a = .putting msg) :
    Ok { s.go a .put with queue := s.queue.putLink msg, log := s.log ++ [(a, .put msg)] }
      lg (lp ++ [msg + s.queue.linkoff]) := by
  have hidle : (s.pc a).gets = false := by rw [at_lock]; rfl
  obtain ⟨hm, hx⟩ := (h.fits a).putting msg (by rw [at_lock]; rfl)
  have out : ∀ b ≠ a, ∀ m, (s.pc b).msg = some m → m + s.queue.linkoff ≠ msg + s.queue.linkoff := by
    intro b hb m hbm e
    have hmm : m = msg := by omega
    exact hb (h.single b a msg (hmm ▸ hbm) (by rw [at_lock]; rfl))
  have tail : ∀ x, x ≠ msg + s.queue.linkoff → x ∉ lg ++ lp →
      (s.queue.putLink msg).mem (.link x) = s.queue.mem (.link x) := by
    intro x _ hx'
    apply Function.update_of_ne
    rw [h.lists.tail]
    rcases last_mem Cell.link s.queue.putHead lp with e | ⟨y, hy, e⟩
    · rw [e]
      exact Msgqueue.Lists.link_ne_head h.lists.putHead
    · rw [e]
      intro e'
      cases e'
      exact hx' (List.mem_append_right lg hy)
  refine h.step _ rfl (swap_other h hidle rfl rfl) (h.lists.linked hx hm) ?_ ?_ ?_ (fun _ _ => Iff.rfl)
    ⟨fun m hm => (by cases hm), fun n hn => (by cases hn)⟩ (fun b hb => ⟨fun m hbm => ?_, (h.fits b).swapped⟩)
    fun m hm => (by cases hm)
  · have hp := h.pending
    show (s.log ++ [(a, QueueEvent.put msg)]).filterMap _ = (s.log ++ [(a, QueueEvent.put msg)]).filterMap _ ++ _
    unfold puts gets at hp
    rw [List.filterMap_append, List.filterMap_append, hp]
    simp [QueueEvent.putMsg, QueueEvent.getMsg, Msgqueue.putLink]
  · rw [fifoRun_log h.log]
    simp [fifo, Msgqueue.putLink]
  · have := idle_swap h hidle
    simp only [QueuePc.gets, Bool.false_eq_true, false_iff]
    exact this
  · obtain ⟨h1, h2⟩ := (h.fits b).putting m hbm
    have hne := out b hb m hbm
    refine ⟨(tail _ hne h2).trans h1, fun hmem => ?_⟩
    rw [← List.append_assoc, List.mem_append, List.mem_singleton] at hmem
    rcases hmem with hmem | hmem
    · exact h2 hmem
    · exact hne hmem

/-- A get has taken its message off the get list. -/
theorem Ok.popped {msg : Int} {q : Msgqueue} (h : s.Ok lg lp) (s' : QueueSys θ) (hs : s.swap = none)
    (pop : s.queue.pop = some (msg, q))
    (pc : s'.pc = Function.update s.pc a .idle) (queue : s'.queue = q) (free : s'.getMutex = none)
    (held : ∀ b ≠ a, s.getMutex ≠ some b) (log : s'.log = s.log ++ [(a, .get msg)]) : ∃ lg', s'.Ok lg' lp := by
  have hl := h.lists
  rw [hs] at hl
  obtain ⟨lg', rfl, hq, hoff, hnb, hmem⟩ := hl.popped pop
  refine ⟨lg', h.step none pc (swap_none free) (queue ▸ hq) ?_ ?_ ?_ (fun b hb => ?_) ⟨fun m hm => (by cases hm),
    fun n hn => (by cases hn)⟩ (fun b hb => ⟨fun m hm => ?_, fun n hn => ?_⟩) fun m hm => (by cases hm)⟩
  · have hp := h.pending
    unfold puts gets at hp ⊢
    rw [log, queue, hoff, List.filterMap_append, List.filterMap_append, hp]
    simp [QueueEvent.putMsg, QueueEvent.getMsg]
  · rw [log, fifoRun_log h.log, queue, hoff, hnb]
    simp [fifo]
  · rw [free]
    simp [QueuePc.gets]
  · rw [free]
    have := held b hb
    simp [this]
  · obtain ⟨h1, h2⟩ := (h.fits b).putting m hm
    rw [queue, hoff, hmem]
    refine ⟨h1, fun hx => h2 ?_⟩
    rw [List.cons_append]
    exact List.mem_cons_of_mem _ hx
  · have := (h.mutex b).1 (by rw [hn]; rfl)
    exact absurd this (held b hb)

theorem Ok.getSwap (h : s.Ok lg lp) (lock : s.getMutex = none) (drained : s.queue.mem s.queue.getHead = none) :
    Ok { s.go a (.swapping s.queue.swapBegin.1) with queue := s.queue.swapBegin.2, getMutex := some a } [] lp := by
  have hl := h.lists
  rw [swap_none lock] at hl
  obtain ⟨hq, rfl⟩ := hl.begun drained
  refine h.step (some s.queue.swapBegin.1) rfl ?_ hq h.pending h.log ?_ (fun b hb => ?_)
    ⟨fun m hm => (by cases hm), fun n hn => (by cases hn)⟩
    (fun b _ => ⟨(h.fits b).putting, (h.fits b).swapped⟩) fun m hm => (by cases hm)
  · show (Function.update s.pc a (.swapping s.queue.swapBegin.1) a).swap = _
    rw [Function.update_self]
    rfl
  · simp [QueuePc.gets]
  · rw [lock]
    simp [Ne.symm hb]

/-- A swap ends: the put list is the get list. -/
theorem Ok.swapEnd {c : Cell} (h : s.Ok lg lp) (log : List (θ × QueueEvent)) (at_lock : s.pc a = .swapping c)
    (hputs : log.filterMap (fun e => e.2.putMsg) = s.puts) (hgets : log.filterMap (fun e => e.2.getMsg) = s.gets)
    (hlog : fifoRun ([], false) (log.map Prod.snd) = some (lp.map (· - s.queue.linkoff), s.queue.nonblock)) :
    Ok { s.go a (.swapped (s.queue.swapEnd c).1) with queue := (s.queue.swapEnd c).2, log := log } lp [] := by
  have lock : s.getMutex = some a := (h.mutex a).1 (by rw [at_lock]; rfl)
  have hl := h.lists
  rw [swap_some lock, at_lock] at hl
  obtain ⟨hq, rfl, hcnt⟩ := hl.ended
  refine h.step none rfl ?_ hq ?_ ?_ ?_ (fun b hb => Iff.rfl) ⟨fun m hm => (by cases hm), fun n hn => ?_⟩
    (fun b hb => ⟨fun m hm => ?_, fun n hn => ?_⟩) fun m hm => (by cases hm)
  · show s.getMutex.bind _ = none
    rw [lock, Option.bind_some]
    show (Function.update s.pc a (.swapped (s.queue.swapEnd c).1) a).swap = none
    rw [Function.update_self]
    rfl
  · show log.filterMap _ = log.filterMap _ ++ _
    rw [hputs, hgets, List.append_nil]
    exact h.pending
  · rw [List.append_nil]
    exact hlog
  · show true = true ↔ s.getMutex = some a
    simp [lock]
  · cases hn
    exact hcnt.symm
  · rw [List.append_nil]
    exact (h.fits b).putting m hm
  · have := (h.mutex b).1 (by rw [hn]; rfl)
    rw [lock] at this
    exact absurd (Option.some.inj this).symm hb

omit [DecidableEq θ] in
/-- A thread in a swap: the get list is drained. -/
theorem Ok.drained {c : Cell} (h : s.Ok lg lp) (at_lock : s.pc a = .swapping c) : lg = [] := by
  have lock : s.getMutex = some a := (h.mutex a).1 (by rw [at_lock]; rfl)
  have hl := h.lists
  rw [swap_some lock, at_lock] at hl
  exact (hl.inside c rfl).1

omit [DecidableEq θ] in
/-- **A swap that finds no message finds the put list empty, in non-blocking mode.** -/
theorem Ok.swap_empty {c : Cell} (h : s.Ok lg lp) (goes : s.queue.swapWaits = false) (none : (s.queue.swapEnd c).1 = 0) :
    lp = [] ∧ s.queue.nonblock = true := by
  have hcnt : s.queue.msgCnt = 0 := none
  refine ⟨List.eq_nil_of_length_eq_zero (h.lists.cnt.symm.trans hcnt), ?_⟩
  unfold Msgqueue.swapWaits at goes
  simpa [hcnt] using goes

theorem Ok.getNull (h : s.Ok lg lp) (swapped : s.pc a = .swapped 0) {returned : List (θ × Option Int)} :
    Ok { s.go a .idle with getMutex := none, returned := returned } lg lp := by
  have lock : s.getMutex = some a := (h.mutex a).1 (by rw [swapped]; rfl)
  have hl := h.lists
  rw [swap_some lock, swapped] at hl
  refine h.step none rfl rfl hl h.pending h.log (by simp [QueuePc.gets]) (fun b hb => ?_)
    ⟨fun m hm => (by cases hm), fun n hn => (by cases hn)⟩ (fun b _ => h.fits b) fun m hm => (by cases hm)
  rw [lock]
  simp [Ne.symm hb]

theorem Ok.setMode (h : s.Ok lg lp) (idle : s.pc a = .idle) (gets : p.gets = false) (msg : p.msg = none)
    (swapped : ∀ n, p ≠ .swapped n) (b : Bool) :
    Ok { s.go a p with queue := { s.queue with nonblock := b }, log := s.log ++ [(a, .mode b)] } lg lp := by
  have hidle : (s.pc a).gets = false := by rw [idle]; rfl
  have hl : Msgqueue.Lists { s.queue with nonblock := b } s.swap lg lp :=
    ⟨h.lists.getHead, h.lists.putHead, h.lists.put, h.lists.cnt, h.lists.tail, h.lists.nodup, h.lists.between,
      h.lists.inside⟩
  refine h.step _ rfl (swap_other h hidle rfl rfl) hl ?_ ?_ ?_ (fun _ _ => Iff.rfl) ⟨fun m hm => ?_, fun n hn => absurd hn
    (swapped n)⟩ (fun b _ => ⟨(h.fits b).putting, (h.fits b).swapped⟩) fun m hm => ?_
  · have hp := h.pending
    show (s.log ++ [(a, QueueEvent.mode b)]).filterMap _ = (s.log ++ [(a, QueueEvent.mode b)]).filterMap _ ++ _
    unfold puts QueueSys.gets at hp
    rw [List.filterMap_append, List.filterMap_append, hp]
    simp [QueueEvent.putMsg, QueueEvent.getMsg]
  · rw [fifoRun_log h.log]
    cases hc : (lg ++ lp).map (· - s.queue.linkoff) <;> rfl
  · have := idle_swap h hidle
    rw [gets]
    simp only [Bool.false_eq_true, false_iff]
    exact this
  · rw [msg] at hm
    cases hm
  · rw [msg] at hm
    cases hm

end QueueSys

/-- **Every step keeps the two lists.** -/
theorem QueueStep.ok [DecidableEq θ] {s s' : QueueSys θ} {a : θ} {lg lp : List Int} (h : s.Ok lg lp)
    (step : QueueStep s a s') : ∃ lg' lp', s'.Ok lg' lp' := by
  cases step with
  | putCall msg idle out unused => exact ⟨lg, lp, h.putCall idle out unused⟩
  | putWait msg at_lock waits =>
    exact ⟨lg, lp, h.moves (by rw [at_lock]; rfl) (by rw [at_lock]; rfl) (fun m hm => by rw [at_lock]; exact hm)
      fun n => by simp⟩
  | putWake msg waits =>
    exact ⟨lg, lp, h.moves (by rw [waits]; rfl) (by rw [waits]; rfl) (fun m hm => by rw [waits]; exact hm) fun n => by simp⟩
  | putLink msg at_lock room => exact ⟨lg, _, h.putLink at_lock⟩
  | putSignal linked =>
    exact ⟨lg, lp, h.moves (by rw [linked]; rfl) (by rw [linked]; rfl) (fun m hm => by cases hm) fun n => by simp⟩
  | getPop msg q idle lock pop =>
    obtain ⟨lg', h'⟩ := h.popped { s with queue := q, log := _, returned := _ } (QueueSys.swap_none lock) pop
      (by rw [← idle, Function.update_eq_self]) rfl lock (fun b _ e => by rw [lock] at e; cases e) rfl
    exact ⟨lg', lp, h'⟩
  | getSwap idle lock drained => exact ⟨[], lp, h.getSwap lock drained⟩
  | swapWait c at_lock waits =>
    exact ⟨lg, lp, h.moves (by rw [at_lock]; rfl) (by rw [at_lock]; rfl) (fun m hm => by cases hm) fun n => by simp⟩
  | swapWake c waits =>
    exact ⟨lg, lp, h.moves (by rw [waits]; rfl) (by rw [waits]; rfl) (fun m hm => by cases hm) fun n => by simp⟩
  | swapSome c at_lock goes some =>
    have hlog := h.log
    rw [h.drained at_lock] at hlog
    exact ⟨lp, [], h.swapEnd _ at_lock rfl rfl hlog⟩
  | swapNone c at_lock goes none =>
    have hlog := h.log
    rw [h.drained at_lock] at hlog
    obtain ⟨hlp, hnb⟩ := h.swap_empty goes none
    have h' := h.swapEnd (s.log ++ [(a, .empty)]) at_lock (by simp [QueueSys.puts, QueueEvent.putMsg])
      (by simp [QueueSys.gets, QueueEvent.getMsg]) (by rw [fifoRun_log hlog, hlp, hnb]; rfl)
    rw [none] at h'
    exact ⟨lp, [], h'⟩
  | getSwapped cnt msg q swapped pop =>
    have lock : s.getMutex = Option.some a := (h.mutex a).1 (by rw [swapped]; rfl)
    have hs : s.swap = none := by rw [QueueSys.swap_some lock, swapped]; rfl
    obtain ⟨lg', h'⟩ := h.popped { s.go a .idle with queue := q, getMutex := none, log := _, returned := _ } hs pop
      rfl rfl rfl (fun b hb e => by rw [lock] at e; exact hb (Option.some.inj e).symm) rfl
    exact ⟨lg', lp, h'⟩
  | getNull swapped => exact ⟨lg, lp, h.getNull swapped⟩
  | setNonblock idle => exact ⟨lg, lp, h.setMode idle rfl rfl (fun n => by simp) true⟩
  | nonblockSignal set =>
    exact ⟨lg, lp, h.moves (by rw [set]; rfl) (by rw [set]; rfl) (fun m hm => by cases hm) fun n => by simp⟩
  | setBlock idle =>
    have same : s.go a .idle = s := by
      unfold QueueSys.go
      rw [← idle, Function.update_eq_self]
    have h' := h.setMode (p := .idle) idle rfl rfl (fun n => by simp) false
    rw [same] at h'
    exact ⟨lg, lp, h'⟩

namespace QueueSys

variable {s : QueueSys θ}

theorem Init.ok (h : s.Init) : s.Ok [] [] := by
  obtain ⟨maxlen, linkoff, mem, hq⟩ := h.queue
  have hpc : ∀ a, (s.pc a).msg = none ∧ (s.pc a).gets = false := fun a => by
    rw [h.pc a]
    exact ⟨rfl, rfl⟩
  refine ⟨?_, ?_, fun a => ?_, fun a => ⟨fun m hm => ?_, fun n hn => ?_⟩, fun a b m hm => ?_, ?_⟩
  · rw [swap_none h.getMutex, hq]
    refine ⟨.inl rfl, .inr rfl, ?_, rfl, rfl, List.nodup_nil, fun _ => ⟨?_, by simp [Msgqueue.create]⟩, fun c hc => ?_⟩
    · simp [Chained, Msgqueue.create]
    · simp [Chained, Msgqueue.create]
    · cases hc
  · simp [puts, gets, h.log]
  · rw [(hpc a).2, h.getMutex]
    simp
  · rw [(hpc a).1] at hm
    cases hm
  · rw [h.pc a] at hn
    cases hn
  · rw [(hpc a).1] at hm
    cases hm
  · rw [h.log, hq]
    rfl

theorem reaches_ok [DecidableEq θ] {s₀ : QueueSys θ} (init : s₀.Init) (run : Reaches QueueStep always s₀ s) :
    ∃ lg lp, s.Ok lg lp := by
  refine run.keeps (P := fun t : QueueSys θ => ∃ lg lp, t.Ok lg lp) ?_ ⟨[], [], init.ok⟩
  rintro s a t ⟨lg, lp, h⟩ - step
  exact step.ok h

/-! ### What the gets return -/

variable [DecidableEq θ]

/-- What the log says the gets of `a` return. -/
def results (s : QueueSys θ) (a : θ) : List (Option Int) :=
  s.log.filterMap fun e => if e.1 = a then e.2.result else none

/-- What the gets of `a` have returned. -/
def answers (s : QueueSys θ) (a : θ) : List (Option Int) :=
  s.returned.filterMap fun r => if r.1 = a then some r.2 else none

/-- The gets return what the log says: the messages in its order, and each thread its own results. -/
structure Answered (s : QueueSys θ) : Prop where
  messages : s.returned.filterMap Prod.snd = s.gets
  each : ∀ a, s.results a = s.answers a ++ if s.pc a = .swapped 0 then [none] else []

theorem results_append (log : List (θ × QueueEvent)) (a b : θ) (es : List QueueEvent) :
    (log ++ es.map fun e => (a, e)).filterMap (fun e => if e.1 = b then e.2.result else none) =
      log.filterMap (fun e => if e.1 = b then e.2.result else none) ++ if a = b then es.filterMap QueueEvent.result else [] := by
  rw [List.filterMap_append, List.filterMap_map]
  by_cases h : a = b <;> simp [h]

theorem answers_append (returned : List (θ × Option Int)) (a b : θ) (rs : List (Option Int)) :
    (returned ++ rs.map fun r => (a, r)).filterMap (fun r => if r.1 = b then some r.2 else none) =
      returned.filterMap (fun r => if r.1 = b then some r.2 else none) ++ if a = b then rs else [] := by
  rw [List.filterMap_append, List.filterMap_map]
  by_cases h : a = b <;> simp [h]

/-- What a step of `a` adds to the log and returns. -/
theorem Answered.step {s' : QueueSys θ} {a : θ} {p : QueuePc} (h : s.Answered) (pc : s'.pc = Function.update s.pc a p)
    (es : List QueueEvent) (rs : List (Option Int)) (log : s'.log = s.log ++ es.map fun e => (a, e))
    (ret : s'.returned = s.returned ++ rs.map fun r => (a, r)) (messages : rs.filterMap id = es.filterMap QueueEvent.getMsg)
    (own : (if s.pc a = .swapped 0 then [none] else []) ++ es.filterMap QueueEvent.result =
      rs ++ if p = .swapped 0 then [none] else []) : s'.Answered := by
  constructor
  · have hm := h.messages
    unfold gets at hm ⊢
    rw [ret, log, List.filterMap_append, List.filterMap_append, hm, List.filterMap_map, List.filterMap_map]
    congr 1
  · intro b
    have hb := h.each b
    unfold results answers at hb ⊢
    rw [log, ret, results_append, answers_append, hb, pc]
    by_cases e : a = b
    · subst e
      simp only [if_true, Function.update_self, List.append_assoc]
      rw [own]
    · simp only [e, if_false, List.append_nil, Function.update_of_ne (Ne.symm e)]

/-- A step that adds nothing. -/
theorem Answered.quiet {s' : QueueSys θ} {a : θ} {p : QueuePc} (h : s.Answered) (pc : s'.pc = Function.update s.pc a p)
    (log : s'.log = s.log) (ret : s'.returned = s.returned) (own : s.pc a ≠ .swapped 0) (ends : p ≠ .swapped 0) :
    s'.Answered := by
  apply h.step pc [] []
  · rw [log]
    exact (List.append_nil _).symm
  · rw [ret]
    exact (List.append_nil _).symm
  · rfl
  · rw [if_neg own, if_neg ends]
    rfl

end QueueSys

theorem QueueStep.answered [DecidableEq θ] {s s' : QueueSys θ} {a : θ} (h : s.Answered) (step : QueueStep s a s') :
    s'.Answered := by
  cases step with
  | putCall msg idle out unused => exact h.quiet rfl rfl rfl (by simp [idle]) (by simp)
  | putWait msg at_lock waits => exact h.quiet rfl rfl rfl (by simp [at_lock]) (by simp)
  | putWake msg waits => exact h.quiet rfl rfl rfl (by simp [waits]) (by simp)
  | putLink msg at_lock room =>
    exact h.step rfl [.put msg] [] rfl (List.append_nil _).symm rfl (by simp [at_lock, QueueEvent.result])
  | putSignal linked => exact h.quiet rfl rfl rfl (by simp [linked]) (by simp)
  | getPop msg q idle lock pop =>
    refine h.step (p := .idle) (by rw [← idle, Function.update_eq_self]) [.get msg] [some msg] rfl rfl rfl ?_
    simp [idle, QueueEvent.result]
  | getSwap idle lock drained => exact h.quiet rfl rfl rfl (by simp [idle]) (by simp)
  | swapWait c at_lock waits => exact h.quiet rfl rfl rfl (by simp [at_lock]) (by simp)
  | swapWake c waits => exact h.quiet rfl rfl rfl (by simp [waits]) (by simp)
  | swapSome c at_lock goes some =>
    have hne : (s.queue.swapEnd c).1 ≠ 0 := by omega
    exact h.quiet rfl rfl rfl (by simp [at_lock]) (by simp [hne])
  | swapNone c at_lock goes none =>
    exact h.step rfl [.empty] [] rfl (List.append_nil _).symm rfl (by simp [at_lock, QueueEvent.result])
  | getSwapped cnt msg q swapped pop =>
    exact h.step rfl [.get msg] [some msg] rfl rfl rfl (by simp [swapped, QueueEvent.result])
  | getNull swapped => exact h.step rfl [] [none] (List.append_nil _).symm rfl rfl (by simp [swapped])
  | setNonblock idle => exact h.step rfl [.mode true] [] rfl (List.append_nil _).symm rfl (by simp [idle, QueueEvent.result])
  | nonblockSignal set => exact h.quiet rfl rfl rfl (by simp [set]) (by simp)
  | setBlock idle =>
    refine h.step (p := .idle) (by rw [← idle, Function.update_eq_self]) [.mode false] [] rfl (List.append_nil _).symm rfl ?_
    simp [idle, QueueEvent.result]

namespace QueueSys

variable {s : QueueSys θ} [DecidableEq θ]

theorem reaches_answered {s₀ : QueueSys θ} (init : s₀.Init) (run : Reaches QueueStep always s₀ s) : s.Answered := by
  refine run.keeps (fun _ _ _ h _ step => step.answered h) ⟨?_, fun a => ?_⟩
  · simp [gets, init.log, init.returned]
  · simp [results, answers, init.log, init.returned, init.pc a]

/-- **The queue is a queue.**  Between swaps the messages put and not yet got are those chained from the get head and
then those from the put head, in the order put; in a swap both heads are one, and they are those chained from it.  The
calls take effect in the order of the log as on a queue, the gets return what it says, and a get whose swap found
messages has one to take. -/
theorem msgqueue_fifo {s₀ : QueueSys θ} (init : s₀.Init) (run : Reaches QueueStep always s₀ s) :
    (∃ lg lp, Chained s.queue.mem Cell.link s.queue.putHead lp ∧
      (s.swap = none → Chained s.queue.mem Cell.link s.queue.getHead lg) ∧
      (s.swap ≠ none → lg = [] ∧ s.queue.getHead = s.queue.putHead) ∧
      s.puts = s.gets ++ (lg ++ lp).map (· - s.queue.linkoff) ∧
      s.queue.msgCnt = lp.length ∧ s.queue.putTail = last Cell.link s.queue.putHead lp ∧
      fifoRun ([], false) (s.log.map Prod.snd) = some ((lg ++ lp).map (· - s.queue.linkoff), s.queue.nonblock)) ∧
    s.returned.filterMap Prod.snd = s.gets ∧
    (∀ a, s.results a = s.answers a ++ if s.pc a = .swapped 0 then [none] else []) ∧
    (∀ a n, s.pc a = .swapped (n + 1) → ∃ msg q, s.queue.pop = some (msg, q)) := by
  obtain ⟨lg, lp, h⟩ := reaches_ok init run
  have answered := reaches_answered init run
  refine ⟨⟨lg, lp, h.lists.put, fun hs => (h.lists.between hs).1, fun hs => ?_, h.pending, h.lists.cnt, h.lists.tail,
    h.log⟩, answered.messages, answered.each, fun a n ha => ?_⟩
  · obtain ⟨c, hc⟩ := Option.ne_none_iff_exists'.1 hs
    obtain ⟨h1, h2, -⟩ := h.lists.inside c hc
    exact ⟨h1, h2⟩
  · have lock : s.getMutex = some a := (h.mutex a).1 (by rw [ha]; rfl)
    have hl := h.lists
    rw [swap_some lock, ha] at hl
    have hlen := (h.fits a).swapped _ ha
    cases lg with
    | nil => cases hlen
    | cons x lg => exact hl.pop_some

end QueueSys

/-- An empty queue of blocking mode, and two threads. -/
def emptyQueue (maxlen : Nat) : QueueSys Bool where
  queue := Msgqueue.create maxlen 0 fun _ => none
  getMutex := none
  pc := fun _ => .idle
  log := []
  returned := []

theorem emptyQueue_init (maxlen : Nat) : (emptyQueue maxlen).Init := ⟨⟨_, _, _, rfl⟩, rfl, fun _ => rfl, rfl, rfl⟩

/-- Two messages put, and got in that order. -/
theorem msgqueue_fifo_got : ∃ s, Reaches QueueStep always (emptyQueue 2) s ∧ s.gets = [16, 8] ∧
    s.returned.filterMap Prod.snd = s.gets := by
  have r0 : Reaches QueueStep always (emptyQueue 2) (emptyQueue 2) := .start
  have r1 := r0.next (a := true) trivial (.putCall 16 rfl (by decide) (by decide))
  have r2 := r1.next (a := true) trivial (.putLink 16 rfl (by decide))
  have r3 := r2.next (a := true) trivial (.putSignal rfl)
  have r4 := r3.next (a := true) trivial (.putCall 8 rfl (by decide) (by decide))
  have r5 := r4.next (a := true) trivial (.putLink 8 rfl (by decide))
  have r6 := r5.next (a := false) trivial (.getSwap rfl rfl (by decide))
  have r7 := r6.next (a := false) trivial (.swapSome .head1 rfl (by decide) (by decide))
  have r8 := r7.next (a := false) trivial (.getSwapped 1 16 _ rfl rfl)
  have r9 := r8.next (a := false) trivial (.getPop 8 _ rfl rfl rfl)
  exact ⟨_, r9, rfl, (QueueSys.msgqueue_fifo (emptyQueue_init 2) r9).2.1⟩

/-- **A put that lands while a get waits in its swap is chained from both heads.** -/
theorem msgqueue_twice : ∃ s, Reaches QueueStep always (emptyQueue 1) s ∧
    ∃ lg lp, Chained s.queue.mem Cell.link s.queue.getHead lg ∧ Chained s.queue.mem Cell.link s.queue.putHead lp ∧
      s.puts ≠ s.gets ++ (lg ++ lp).map (· - s.queue.linkoff) := by
  have r0 : Reaches QueueStep always (emptyQueue 1) (emptyQueue 1) := .start
  have r1 := r0.next (a := false) trivial (.getSwap rfl rfl (by decide))
  have r2 := r1.next (a := false) trivial (.swapWait .head1 rfl (by decide))
  have r3 := r2.next (a := true) trivial (.putCall 8 rfl (by decide) (by decide))
  have r4 := r3.next (a := true) trivial (.putLink 8 rfl (by decide))
  exact ⟨_, r4, [8], [8], ⟨rfl, rfl⟩, ⟨rfl, rfl⟩, by decide⟩

end Tinywf
