import Tinywf.SchedThreads
/-!
# RouteManager — the entries of the route table and their circuit breaker

A `RouteResultEntry` of several addresses keeps their targets in a group: `notify_unavailable` takes one out and leaves
a node in `breaker_list`, `notify_available` puts one back, `check_breaker` those whose node has expired.  `RouteSys` is
one entry beside the objects and the threads of the scheduler.  A step is a section of the scheduler, or a call on the
entry under its mutex; `check_breaker` takes one for each node, and other threads' sections go on in between.

Both `notify_available` and `check_breaker` read `nbreak` before they lock: what they saw is a parameter, and so are the
readings of the clock.  `errno`, which the three functions put back, and `sha1_64` are left out.
-/
namespace Tinywf

open Lts

variable {τ γ θ : Type}

def MTTR_SECOND : Int := 30

/-- `__breaker_node`. -/
structure BreakerNode (τ : Type) where
  target : τ
  timeout : Int

structure RouteResultEntry (τ γ : Type) where
  requestObject : Option (CommSchedObject τ γ)
  group : Option γ
  targets : List τ
  breakerList : List (BreakerNode τ)
  nleft : Int
  nbreak : Int

namespace RouteResultEntry

def new : RouteResultEntry τ γ :=
  { requestObject := none, group := none, targets := [], breakerList := [], nleft := 0, nbreak := 0 }

variable [DecidableEq τ] [DecidableEq γ]

/-- An address is what `create_target` makes of it; `grown t` is whether `realloc` finds the memory to add `t`.  Nobody
waits for the group yet, so adding signals nobody. -/
def addGroupTargets (g : γ) (grown : τ → Bool) :
    Sched τ γ → RouteResultEntry τ γ → List (Option τ) → Sched τ γ × Option (RouteResultEntry τ γ)
  | s, e, [] => (s, some e)
  | s, e, none :: _ => (e.targets.foldl (fun s t => (s.remove g t).1) s, none)
  | s, e, some t :: addrs =>
    match s.add g t (grown t) with
    | (s', _, .ok _) => addGroupTargets g grown s' { e with targets := e.targets ++ [t], nleft := e.nleft + 1 } addrs
    | (s', _, .error _) => (e.targets.foldl (fun s t => (s.remove g t).1) s', none)

/-- `g` is the new group, if its `init` went well. -/
def init (s : Sched τ γ) (addrs : List (Option τ)) (g : Option γ) (grown : τ → Bool) :
    Sched τ γ × Option (RouteResultEntry τ γ) :=
  match addrs with
  | [] => (s, none)
  | [addr] => (s, addr.map fun t => { new with targets := [t], requestObject := some (.target t) })
  | addr :: addr' :: addrs =>
    match g with
    | some g =>
      let r := addGroupTargets g grown s { new with group := some g } (addr :: addr' :: addrs)
      (r.1, r.2.map fun e => { e with requestObject := some (.group g) })
    | none => (s, none)

/-- An entry without a group has one target. -/
def notifyUnavailable (s : Sched τ γ) (e : RouteResultEntry τ γ) (target : τ) (now : Int) :
    Sched τ γ × RouteResultEntry τ γ :=
  match e.group with
  | none => (s, e)
  | some g =>
    if e.targets.length ≤ 1 then (s, e)
    else if e.nleft ≤ 1 then (s, e)
    else
      match s.remove g target with
      | (s', .error _) => (s', e)
      | (s', .ok _) => (s', { e with
          breakerList := e.breakerList ++ [{ target := target, timeout := now + MTTR_SECOND }]
          nbreak := e.nbreak + 1
          nleft := e.nleft - 1 })

/-- `group->add`, which counts the target if it joins; with the condition it signals. -/
def putBack (s : Sched τ γ) (e : RouteResultEntry τ γ) (g : γ) (target : τ) (grown : Bool) :
    Sched τ γ × Option (CommSchedObject τ γ) × RouteResultEntry τ γ :=
  match s.add g target grown with
  | (s', signal, .ok _) => (s', signal, { e with nleft := e.nleft + 1 })
  | (s', signal, .error _) => (s', signal, e)

def notifyAvailable (s : Sched τ γ) (e : RouteResultEntry τ γ) (target : τ) (seen : Int) (grown : Bool) :
    Sched τ γ × Option (CommSchedObject τ γ) × RouteResultEntry τ γ :=
  match e.group with
  | none => (s, none, e)
  | some g => if e.targets.length ≤ 1 ∨ seen = 0 then (s, none, e) else putBack s e g target grown

/-- `check_breaker` gets to its loop. -/
def checks (e : RouteResultEntry τ γ) (seen : Int) : Bool := ¬ (e.targets.length ≤ 1 ∨ seen = 0)

/-- The loop of `check_breaker` at the node `pos`, with the place of the node it comes to next. -/
def checkNode (s : Sched τ γ) (e : RouteResultEntry τ γ) (curTime : Int) (pos : Nat) (grown : Bool) :
    Sched τ γ × Option (CommSchedObject τ γ) × RouteResultEntry τ γ × Nat :=
  match e.group, e.breakerList[pos]? with
  | some g, some node =>
    if node.timeout ≤ curTime then
      let r := putBack s e g node.target grown
      (r.1, r.2.1, { r.2.2 with breakerList := e.breakerList.eraseIdx pos, nbreak := e.nbreak - 1 }, pos)
    else (s, none, e, pos + 1)
  | _, _ => (s, none, e, pos)

end RouteResultEntry

/-- `checking` is the clock as the thread in the loop of `check_breaker` read it and where it is in the list; while
there is one, it has the mutex. -/
structure RouteSys (τ γ θ : Type) where
  sys : Sys τ γ θ
  entry : RouteResultEntry τ γ
  checking : Option (Int × Nat)

inductive RouteAction (τ γ θ : Type) where
  | scheduler (x : Action τ γ θ)
  | notifyUnavailable (target : τ) (now : Int)
  | notifyAvailable (target : τ) (seen : Int) (grown : Bool)
  | checkBreaker (seen curTime : Int)
  | checkNode (grown : Bool)
  | unlock

/-- A section that leaves it to the entry who is in its group, and takes its targets only through the group. -/
def Action.Apart (e : RouteResultEntry τ γ) : Action τ γ θ → Prop
  | .acquire _ o _ => ∀ t ∈ e.targets, o ≠ .target t
  | .add _ g t _ => e.group ≠ some g ∧ t ∉ e.targets
  | .remove _ g t => e.group ≠ some g ∧ t ∉ e.targets
  | .resume _ => True
  | .timeout _ => True
  | .release _ _ _ => True

/-- What a thread in `acquire` waits on, or is back from. -/
def Thread.object : Thread τ γ → Option (CommSchedObject τ γ)
  | .running => none
  | .waiting o _ => some o
  | .woken o _ _ => some o

variable [DecidableEq τ] [DecidableEq γ] [DecidableEq θ]

/-- A group and targets just made, in a running system. -/
structure Fresh (s : Sys τ γ θ) (g : γ) (made : List τ) : Prop where
  reached : ∃ s₀ : Sys τ γ θ, s₀.Init ∧ Reaches Step always s₀ s
  group : ∃ heap, s.sched.group g = CommSchedGroup.init heap
  target : ∀ t ∈ made, ∃ n i, n < 2 ^ 32 ∧ CommSchedTarget.init n i = .ok (s.sched.target t)
  thread : ∀ a, ∀ t ∈ made, (s.thread a).object ≠ some (.target t)
  nodup : made.Nodup

/-- The entry was made by `init`, of several addresses. -/
def RouteSys.Init (s : RouteSys τ γ θ) : Prop :=
  ∃ (before : Sys τ γ θ) (addrs : List (Option τ)) (g : γ) (grown : τ → Bool),
    Fresh before g (addrs.filterMap id) ∧ 2 ≤ addrs.length ∧
    RouteResultEntry.init before.sched addrs (some g) grown = (s.sys.sched, some s.entry) ∧
    s.sys.thread = before.thread ∧ s.sys.held = before.held ∧ s.checking = none

inductive RouteStep : RouteSys τ γ θ → RouteAction τ γ θ → RouteSys τ γ θ → Prop where
  | scheduler {s : RouteSys τ γ θ} (x : Action τ γ θ) (sys' : Sys τ γ θ) (apart : x.Apart s.entry)
      (step : Step s.sys x sys') : RouteStep s (.scheduler x) { s with sys := sys' }
  | notifyUnavailable {s : RouteSys τ γ θ} (target : τ) (now : Int) (free : s.checking = none)
      (own : target ∈ s.entry.targets) :
      RouteStep s (.notifyUnavailable target now)
        { s with
          sys := { s.sys with sched := (s.entry.notifyUnavailable s.sys.sched target now).1 }
          entry := (s.entry.notifyUnavailable s.sys.sched target now).2 }
  | notifyAvailable {s : RouteSys τ γ θ} (target : τ) (seen : Int) (grown : Bool) (f : θ → Thread τ γ)
      (free : s.checking = none) (own : target ∈ s.entry.targets)
      (signal : Signalled (s.entry.notifyAvailable s.sys.sched target seen grown).2.1 s.sys.thread f) :
      RouteStep s (.notifyAvailable target seen grown)
        { s with
          sys := { s.sys with sched := (s.entry.notifyAvailable s.sys.sched target seen grown).1, thread := f }
          entry := (s.entry.notifyAvailable s.sys.sched target seen grown).2.2 }
  | checkBreaker {s : RouteSys τ γ θ} (seen curTime : Int) (free : s.checking = none) (goes : s.entry.checks seen) :
      RouteStep s (.checkBreaker seen curTime) { s with checking := some (curTime, 0) }
  | checkNode {s : RouteSys τ γ θ} (curTime : Int) (pos : Nat) (grown : Bool) (f : θ → Thread τ γ)
      (has : s.checking = some (curTime, pos)) (more : pos < s.entry.breakerList.length)
      (signal : Signalled (s.entry.checkNode s.sys.sched curTime pos grown).2.1 s.sys.thread f) :
      RouteStep s (.checkNode grown)
        { sys := { s.sys with sched := (s.entry.checkNode s.sys.sched curTime pos grown).1, thread := f }
          entry := (s.entry.checkNode s.sys.sched curTime pos grown).2.2.1
          checking := some (curTime, (s.entry.checkNode s.sys.sched curTime pos grown).2.2.2) }
  | unlock {s : RouteSys τ γ θ} (curTime : Int) (pos : Nat) (has : s.checking = some (curTime, pos))
      (done : s.entry.breakerList.length ≤ pos) : RouteStep s .unlock { s with checking := none }

end Tinywf
