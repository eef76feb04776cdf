import Tinywf.RouteKey
import Tinywf.RouteManager
import Tinywf.InorderTree
/-!
# RouteCache — the entries that `RouteManager::get` finds and makes

The cache is a search tree over the keys of its entries.  `get` descends to the first entry whose key is not smaller,
takes it if its key is the one it looks for, and else makes an entry where the descent stopped.  Each key stands in
the cache once (`RouteCache.Ok`), and what holds of every call comes to `CacheContract` (`route_cache`).

An entry is a number, as one pointer and no other stands for it.  What `create_target` makes of the addresses, whether
there is memory, and the clock are arguments of a call.
-/
namespace Tinywf

open CLib InorderTree

variable {τ γ : Type} [DecidableEq τ] [DecidableEq γ]

/-- A call of `RouteManager::get`, with what it finds outside. -/
structure RouteCall (τ γ : Type) where
  request : RouteRequest
  /-- What `create_target` makes of the address at a place. -/
  created : Nat → Option τ
  /-- The new group, if there is one. -/
  group : Option γ
  grown : τ → Bool
  /-- `nbreak` as `check_breaker` reads it before it locks. -/
  seen : Int
  curTime : Int
  /-- Whether there is memory to put a target back, node by node. -/
  regrown : Nat → Bool

namespace RouteResultEntry

/-- The loop of `check_breaker`, with `n` nodes to go. -/
def checkNodes (curTime : Int) (grown : Nat → Bool) :
    Nat → Sched τ γ → RouteResultEntry τ γ → Nat → Sched τ γ × RouteResultEntry τ γ
  | 0, s, e, _ => (s, e)
  | n + 1, s, e, pos =>
    let r := e.checkNode s curTime pos (grown n)
    checkNodes curTime grown n r.1 r.2.2.1 r.2.2.2

def checkBreaker (s : Sched τ γ) (e : RouteResultEntry τ γ) (seen curTime : Int) (grown : Nat → Bool) :
    Sched τ γ × RouteResultEntry τ γ :=
  if e.checks seen then checkNodes curTime grown e.breakerList.length s e 0 else (s, e)

end RouteResultEntry

structure RouteCache (τ γ : Type) where
  cache : BinaryTree Nat
  /-- `entry->sha1_64`. -/
  sha1_64 : Nat → UInt64
  entry : Nat → RouteResultEntry τ γ
  sched : Sched τ γ
  /-- The entry made next. -/
  fresh : Nat

namespace RouteCache

section
variable (B : Balance Nat) (S : StdSort AddrInfo) (sha1 : Bytes → UInt64)

/-- `RouteResultEntry::init` of a new entry. -/
def init (call : RouteCall τ γ) (c : RouteCache τ γ) : Sched τ γ × Option (RouteResultEntry τ γ) :=
  RouteResultEntry.init c.sched ((List.range call.request.addrs.length).map call.created) call.group call.grown

/-- `entry->check_breaker()`. -/
def checkBreaker (call : RouteCall τ γ) (e : Nat) (c : RouteCache τ γ) : RouteCache τ γ :=
  let r := (c.entry e).checkBreaker c.sched call.seen call.curTime call.regrown
  { c with sched := r.1, entry := Function.update c.entry e r.2 }

/-- The second half of `get`: there is no entry of the key. -/
def make (call : RouteCall τ γ) (key : UInt64) (c : RouteCache τ γ) : RouteCache τ γ × Option Nat :=
  match c.init call with
  | (sched, some entry) =>
    ({ c with
        sched := sched
        cache := B.insertColor c.fresh (hang c.fresh (fun e => key ≤ c.sha1_64 e) c.cache)
        sha1_64 := Function.update c.sha1_64 c.fresh key
        entry := Function.update c.entry c.fresh entry
        fresh := c.fresh + 1 }, some c.fresh)
  | (sched, none) => ({ c with sched := sched }, none)

/-- `RouteManager::get`: the cookie, or `none` for -1. -/
def get (call : RouteCall τ γ) (c : RouteCache τ γ) : RouteCache τ γ × Option Nat :=
  let key := call.request.generateKey S sha1
  match bound (fun e => key ≤ c.sha1_64 e) none c.cache with
  | some e => if c.sha1_64 e = key then (c.checkBreaker call e, some e) else c.make B call key
  | none => c.make B call key

/-- One call after another. -/
def gets (calls : List (RouteCall τ γ)) (c : RouteCache τ γ) : RouteCache τ γ :=
  calls.foldl (fun c call => (c.get B S sha1 call).1) c

end

/-- The cache of a `RouteManager` just made. -/
def new (sched : Sched τ γ) : RouteCache τ γ := ⟨.nil, fun _ => 0, fun _ => .new, sched, 0⟩

/-- The keys stand in order, each once. -/
structure Ok (c : RouteCache τ γ) : Prop where
  sorted : (inorder c.cache).Pairwise fun a b => c.sha1_64 a < c.sha1_64 b
  fresh : ∀ e ∈ inorder c.cache, e < c.fresh

variable {B : Balance Nat} {S : StdSort AddrInfo} {sha1 : Bytes → UInt64} {c c' : RouteCache τ γ} {call : RouteCall τ γ}
  {key : UInt64} {e : Nat}

omit [DecidableEq τ] [DecidableEq γ] in
theorem Ok.new (sched : Sched τ γ) : (RouteCache.new sched).Ok := ⟨.nil, fun _ h => by cases h⟩

omit [DecidableEq τ] [DecidableEq γ] in
theorem Ok.mono (h : c.Ok) (key : UInt64) : (inorder c.cache).Pairwise fun a b =>
    decide (key ≤ c.sha1_64 a) = true → decide (key ≤ c.sha1_64 b) = true := by
  refine h.sorted.imp fun hab ha => ?_
  rw [decide_eq_true_eq] at ha ⊢
  exact UInt64.le_trans ha (UInt64.le_of_lt hab)

omit [DecidableEq τ] [DecidableEq γ] in
/-- The descent comes to the entry of the key. -/
theorem Ok.bound_found (h : c.Ok) (he : e ∈ inorder c.cache) (hkey : c.sha1_64 e = key) :
    bound (fun e => decide (key ≤ c.sha1_64 e)) none c.cache = some e := by
  rw [bound_inorder _ _ (h.mono key), List.find?_eq_some_iff_append]
  obtain ⟨as, bs, hl⟩ := List.append_of_mem he
  refine ⟨by simp [hkey], as, bs, hl, fun a ha => ?_⟩
  have hsort := h.sorted
  rw [hl, List.pairwise_append] at hsort
  have hlt := hsort.2.2 a ha e List.mem_cons_self
  rw [hkey] at hlt
  simpa using hlt

theorem Ok.get_found (h : c.Ok) (he : e ∈ inorder c.cache) (hkey : c.sha1_64 e = call.request.generateKey S sha1) :
    c.get B S sha1 call = (c.checkBreaker call e, some e) := by
  unfold RouteCache.get
  simp only [h.bound_found he hkey]
  rw [if_pos hkey]

theorem Ok.get_absent (h : c.Ok) (absent : ∀ e ∈ inorder c.cache, c.sha1_64 e ≠ call.request.generateKey S sha1) :
    c.get B S sha1 call = c.make B call (call.request.generateKey S sha1) := by
  unfold RouteCache.get
  simp only
  split
  · rename_i e he
    rw [bound_inorder _ _ (h.mono _)] at he
    rw [if_neg (absent e (List.mem_of_find?_eq_some he))]
  · rfl

/-- A key that was in no place, put in its place. -/
theorem pairwise_insert {k : Nat → UInt64} {l₁ l₂ : List Nat} {x : Nat}
    (sorted : (l₁ ++ l₂).Pairwise fun a b => k a < k b)
    (new : x ∉ l₁ ++ l₂) (less : ∀ a ∈ l₁, k a < key) (more : ∀ a ∈ l₂, key < k a) :
    (l₁ ++ x :: l₂).Pairwise fun a b => Function.update k x key a < Function.update k x key b := by
  have old : ∀ a ∈ l₁ ++ l₂, Function.update k x key a = k a := fun a ha =>
    Function.update_of_ne (ne_of_mem_of_not_mem ha new) _ _
  have kept : (l₁ ++ l₂).Pairwise fun a b => Function.update k x key a < Function.update k x key b :=
    sorted.imp_of_mem fun ha hb hab => by
      rw [old _ ha, old _ hb]
      exact hab
  obtain ⟨h₁, h₂, h₁₂⟩ := List.pairwise_append.1 kept
  refine List.pairwise_append.2 ⟨h₁, List.pairwise_cons.2 ⟨fun b hb => ?_, h₂⟩, fun a ha b hb => ?_⟩
  · rw [Function.update_self, old b (List.mem_append_right _ hb)]
    exact more b hb
  · rcases List.mem_cons.1 hb with rfl | hb
    · rw [Function.update_self, old a (List.mem_append_left _ ha)]
      exact less a ha
    · exact h₁₂ a ha b hb

theorem make_made (B : Balance Nat) (key : UInt64) {sched : Sched τ γ} {entry : RouteResultEntry τ γ}
    (init : c.init call = (sched, some entry)) :
    (c.make B call key).2 = some c.fresh ∧ (c.make B call key).1.fresh = c.fresh + 1 ∧
      (c.make B call key).1.cache = B.insertColor c.fresh (hang c.fresh (fun e => key ≤ c.sha1_64 e) c.cache) ∧
      (c.make B call key).1.sha1_64 = Function.update c.sha1_64 c.fresh key := by
  unfold RouteCache.make
  rw [init]
  exact ⟨rfl, rfl, rfl, rfl⟩

theorem make_failed {sched : Sched τ γ} (init : c.init call = (sched, none)) :
    c.make B call key = ({ c with sched := sched }, none) := by
  unfold RouteCache.make
  rw [init]

omit [DecidableEq τ] [DecidableEq γ] in
theorem Ok.not_fresh (h : c.Ok) : c.fresh ∉ inorder c.cache := fun hm => absurd (h.fresh _ hm) (Nat.lt_irrefl _)

/-- **A new entry comes between those of smaller keys and those of greater ones.** -/
theorem Ok.make (h : c.Ok) (absent : ∀ e ∈ inorder c.cache, c.sha1_64 e ≠ key) {sched : Sched τ γ}
    {entry : RouteResultEntry τ γ} (init : c.init call = (sched, some entry)) :
    (c.make B call key).1.Ok ∧ ∃ l₁ l₂, inorder c.cache = l₁ ++ l₂ ∧
      inorder (c.make B call key).1.cache = l₁ ++ c.fresh :: l₂ := by
  obtain ⟨-, hfresh, hcache, hsha⟩ := make_made B key init
  obtain ⟨l₁, l₂, hin, hhang, h₁, h₂, -⟩ := inorder_hang c.fresh _ _ (h.mono key)
  have hinorder : inorder (c.make B call key).1.cache = l₁ ++ c.fresh :: l₂ := by
    rw [hcache, B.insertColor_inorder, hhang]
  have sorted := h.sorted
  have new := h.not_fresh
  rw [hin] at absent sorted new
  refine ⟨⟨?_, fun e he => ?_⟩, l₁, l₂, hin, hinorder⟩
  · rw [hinorder, hsha]
    refine pairwise_insert sorted new (fun a ha => by simpa using h₁ a ha) fun a ha => ?_
    exact UInt64.lt_of_le_of_ne (by simpa using h₂ a ha) (absent a (List.mem_append_right _ ha)).symm
  · rw [hinorder, List.mem_append, List.mem_cons, or_left_comm, ← List.mem_append, ← hin] at he
    rw [hfresh]
    rcases he with rfl | he
    · exact Nat.lt_succ_self _
    · exact Nat.lt_succ_of_lt (h.fresh e he)

/-- What one call keeps, and what it leaves in the cache. -/
theorem Ok.get (h : c.Ok) (B : Balance Nat) (S : StdSort AddrInfo) (sha1 : Bytes → UInt64) (call : RouteCall τ γ) :
    (c.get B S sha1 call).1.Ok ∧
    ∀ e ∈ inorder c.cache,
      e ∈ inorder (c.get B S sha1 call).1.cache ∧ (c.get B S sha1 call).1.sha1_64 e = c.sha1_64 e := by
  by_cases found : ∃ e ∈ inorder c.cache, c.sha1_64 e = call.request.generateKey S sha1
  · obtain ⟨e, he, hkey⟩ := found
    rw [h.get_found he hkey]
    exact ⟨⟨h.sorted, h.fresh⟩, fun _ hm => ⟨hm, rfl⟩⟩
  · have absent : ∀ e ∈ inorder c.cache, c.sha1_64 e ≠ call.request.generateKey S sha1 := fun e he hkey =>
      found ⟨e, he, hkey⟩
    rw [h.get_absent absent]
    cases hinit : c.init call with
    | mk sched entry =>
      cases entry with
      | none =>
        rw [make_failed hinit]
        exact ⟨⟨h.sorted, h.fresh⟩, fun _ hm => ⟨hm, rfl⟩⟩
      | some entry =>
        obtain ⟨hok, l₁, l₂, hin, hin'⟩ := h.make (B := B) absent hinit
        obtain ⟨-, -, -, hsha⟩ := make_made B (call.request.generateKey S sha1) hinit
        refine ⟨hok, fun e he => ⟨?_, ?_⟩⟩
        · rw [hin']
          rw [hin, List.mem_append] at he
          rw [List.mem_append, List.mem_cons]
          exact he.imp_right .inr
        · rw [hsha]
          exact Function.update_of_ne (ne_of_mem_of_not_mem he h.not_fresh) _ _

/-- **What many calls keep**: an entry stays where it is, with its key. -/
theorem Ok.gets (h : c.Ok) (B : Balance Nat) (S : StdSort AddrInfo) (sha1 : Bytes → UInt64)
    (calls : List (RouteCall τ γ)) : (c.gets B S sha1 calls).Ok ∧
    ∀ e ∈ inorder c.cache,
      e ∈ inorder (c.gets B S sha1 calls).cache ∧ (c.gets B S sha1 calls).sha1_64 e = c.sha1_64 e := by
  induction calls generalizing c with
  | nil => exact ⟨h, fun e he => ⟨he, rfl⟩⟩
  | cons call calls ih =>
    obtain ⟨hok, hstay⟩ := h.get B S sha1 call
    obtain ⟨hok', hstay'⟩ := ih hok
    refine ⟨hok', fun e he => ?_⟩
    obtain ⟨he1, hk1⟩ := hstay e he
    obtain ⟨he2, hk2⟩ := hstay' e he1
    exact ⟨he2, hk2.trans hk1⟩

end RouteCache

/-- **What `get` does in a cache.** -/
structure CacheContract (B : Balance Nat) (S : StdSort AddrInfo) (sha1 : Bytes → UInt64) (c : RouteCache τ γ) : Prop where
  sorted : ((inorder c.cache).map c.sha1_64).Pairwise (· < ·)
  /-- A key that is cached. -/
  cached : ∀ call, ∀ e ∈ inorder c.cache, c.sha1_64 e = call.request.generateKey S sha1 →
    (c.get B S sha1 call).2 = some e ∧ (c.get B S sha1 call).1.cache = c.cache ∧
      (c.get B S sha1 call).1.sha1_64 = c.sha1_64
  /-- A new key whose `init` succeeds. -/
  added : ∀ call, (∀ e ∈ inorder c.cache, c.sha1_64 e ≠ call.request.generateKey S sha1) →
    ∀ sched entry, c.init call = (sched, some entry) →
      ∃ e, e ∉ inorder c.cache ∧ (c.get B S sha1 call).2 = some e ∧
        (∃ l₁ l₂, inorder c.cache = l₁ ++ l₂ ∧ inorder (c.get B S sha1 call).1.cache = l₁ ++ e :: l₂) ∧
        (c.get B S sha1 call).1.sha1_64 e = call.request.generateKey S sha1 ∧
        ∀ calls again, again.request.generateKey S sha1 = call.request.generateKey S sha1 →
          (((c.get B S sha1 call).1.gets B S sha1 calls).get B S sha1 again).2 = some e
  /-- A new key whose `init` fails. -/
  failed : ∀ call, (∀ e ∈ inorder c.cache, c.sha1_64 e ≠ call.request.generateKey S sha1) →
    ∀ sched, c.init call = (sched, none) →
      (c.get B S sha1 call).2 = none ∧ (c.get B S sha1 call).1.cache = c.cache ∧
        (c.get B S sha1 call).1.sha1_64 = c.sha1_64

theorem RouteCache.Ok.contract {B : Balance Nat} {S : StdSort AddrInfo} {sha1 : Bytes → UInt64} {c : RouteCache τ γ}
    (h : c.Ok) : CacheContract B S sha1 c where
  sorted := List.pairwise_map.2 h.sorted
  cached := fun call e he hkey => by
    rw [h.get_found he hkey]
    exact ⟨rfl, rfl, rfl⟩
  added := fun call absent sched entry hinit => by
    rw [h.get_absent (B := B) absent]
    obtain ⟨hcookie, -, -, hsha⟩ := make_made B (call.request.generateKey S sha1) hinit
    obtain ⟨hok, l₁, l₂, hin, hin'⟩ := h.make (B := B) absent hinit
    have hkey : (c.make B call (call.request.generateKey S sha1)).1.sha1_64 c.fresh =
        call.request.generateKey S sha1 := by rw [hsha, Function.update_self]
    refine ⟨c.fresh, h.not_fresh, hcookie, ⟨l₁, l₂, hin, hin'⟩, hkey, fun calls again hagain => ?_⟩
    obtain ⟨hok', hstay⟩ := hok.gets B S sha1 calls
    obtain ⟨hm, hk⟩ := hstay c.fresh (by rw [hin']; simp)
    rw [hok'.get_found hm (by rw [hk, hkey, hagain])]
  failed := fun call absent sched hinit => by
    rw [h.get_absent (B := B) absent, make_failed hinit]
    exact ⟨rfl, rfl, rfl⟩

/-- **One entry for each key**, whatever calls came before. -/
theorem route_cache (B : Balance Nat) (S : StdSort AddrInfo) (sha1 : Bytes → UInt64) (sched : Sched τ γ)
    (calls : List (RouteCall τ γ)) : CacheContract B S sha1 ((RouteCache.new sched).gets B S sha1 calls) :=
  ((RouteCache.Ok.new sched).gets B S sha1 calls).1.contract

end Tinywf
