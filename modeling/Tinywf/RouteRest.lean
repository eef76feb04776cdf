import Tinywf.RouteBreaker
/-!
# RouteRest — how long a target rests

A target that `notify_unavailable` took out at `T` comes back through `check_breaker` once the oldest of its nodes has
expired.  `notify_available` leaves the node it comes too early for, so that there can be one of an earlier outage: the
target rests for `MTTR_SECOND` exactly when there was none (`breaker_rests`).  Times are the whole seconds that
`GET_CURRENT_SECOND` reads.
-/
namespace Tinywf

open Lts

variable {τ γ θ : Type}

/-- The entry in time; the clock is read as seconds. -/
structure TimedRoute (τ γ θ : Type) where
  route : RouteSys τ γ θ
  clock : Int

/-- What a call knows of the clock; `check_breaker` reads it before it locks. -/
def RouteAction.Reads (now : Int) : RouteAction τ γ θ → Prop
  | .notifyUnavailable _ t => t = now
  | .checkBreaker _ curTime => curTime ≤ now
  | _ => True

variable [DecidableEq τ] [DecidableEq γ] [DecidableEq θ]

inductive TimedStep : TimedRoute τ γ θ → RouteAction τ γ θ → TimedRoute τ γ θ → Prop where
  | step {s : TimedRoute τ γ θ} (x : RouteAction τ γ θ) (route' : RouteSys τ γ θ) (now : Int) (later : s.clock ≤ now)
      (reads : x.Reads now) (taken : RouteStep s.route x route') : TimedStep s x { route := route', clock := now }

/-- The group `t` is in. -/
def RouteSys.groupOf (s : RouteSys τ γ θ) (t : τ) : Option γ := (s.sys.sched.target t).group

/-- No `notify_available` brings `t` back: it would, as long as it sees a node. -/
def LeavesOut (t : τ) (s : TimedRoute τ γ θ) (x : RouteAction τ γ θ) : Prop :=
  ∀ seen grown, x = .notifyAvailable t seen grown → seen = 0 ∨ s.route.groupOf t ≠ none

/-! ## What a step does to the list -/

variable {s s' : Sched τ γ} {e : RouteResultEntry τ γ} {g : γ} {t u : τ} {grown : Bool}

theorem putBack_group (h : RouteOk s e g) (own : u ∈ e.targets) (ne : t ≠ u) :
    ((e.putBack s g u grown).1.target t).group = (s.target t).group := by
  rw [(putBack_sched s e g u grown).1]
  rcases h.add_cases own grown with ⟨s1, hu, hs1, e1, -⟩ | ⟨-, e1, -⟩
  · rw [e1, (joined_joins h.sched hu hs1).group, if_neg ne]
  · rw [e1]

/-- A node that has expired goes, its target put back; another one stays. -/
theorem checkNode_cases (h : RouteOk s e g) {pos : Nat} (hpos : pos < e.breakerList.length) (curTime : Int)
    (grown : Bool) :
    (e.breakerList[pos].timeout ≤ curTime ∧
      (e.checkNode s curTime pos grown).1 = (e.putBack s g e.breakerList[pos].target grown).1 ∧
      (e.checkNode s curTime pos grown).2.2.1.breakerList = e.breakerList.eraseIdx pos ∧
      (e.checkNode s curTime pos grown).2.2.2 = pos) ∨
    (curTime < e.breakerList[pos].timeout ∧ (e.checkNode s curTime pos grown).1 = s ∧
      (e.checkNode s curTime pos grown).2.2.1 = e ∧ (e.checkNode s curTime pos grown).2.2.2 = pos + 1) := by
  unfold RouteResultEntry.checkNode
  rw [h.group, List.getElem?_eq_getElem hpos]
  dsimp only
  split
  · rename_i hle
    exact .inl ⟨hle, rfl, rfl, rfl⟩
  · rename_i hgt
    exact .inr ⟨by omega, rfl, rfl, rfl⟩

theorem notifyAvailable_list (h : RouteOk s e g) (own : u ∈ e.targets) (seen : Int) :
    (e.notifyAvailable s u seen grown).2.2.breakerList = e.breakerList := by
  unfold RouteResultEntry.notifyAvailable
  rw [h.group]
  dsimp only
  split
  · rfl
  · exact (putBack_spec h own grown).2.2.list

theorem notifyUnavailable_cases (h : RouteOk s e g) (own : u ∈ e.targets) (now : Int) :
    ((e.notifyUnavailable s u now).1 = s ∧ (e.notifyUnavailable s u now).2 = e) ∨
    (1 < e.targets.length ∧ (e.notifyUnavailable s u now).2.breakerList =
      e.breakerList ++ [{ target := u, timeout := now + MTTR_SECOND }]) := by
  unfold RouteResultEntry.notifyUnavailable
  rw [h.group]
  dsimp only
  split
  · exact .inl ⟨rfl, rfl⟩
  rename_i many
  split
  · exact .inl ⟨rfl, rfl⟩
  split
  · rename_i hr
    have hidle := h.idle u own
    unfold Sched.remove at hr
    rw [hidle] at hr
    split at hr
    · cases hr
    · split at hr
      · cases hr
        exact .inl ⟨rfl, rfl⟩
      · cases hr
        exact .inl ⟨rfl, rfl⟩
  · exact .inr ⟨Nat.lt_of_not_le many, rfl⟩

/-! ## Resting -/

/-- The nodes of `t` do not expire before `T + MTTR_SECOND`, and the loop of `check_breaker` does not run ahead. -/
structure Resting (t : τ) (T : Int) (g : γ) (s : TimedRoute τ γ θ) : Prop where
  ok : s.route.Ok g
  nodes : ∀ node ∈ s.route.entry.breakerList, node.target = t → T + MTTR_SECOND ≤ node.timeout
  past : T ≤ s.clock
  read : ∀ curTime pos, s.route.checking = some (curTime, pos) → curTime ≤ s.clock

variable {T : Int} {w w' : TimedRoute τ γ θ} {x : RouteAction τ γ θ}

/-- The loop of `check_breaker` runs on what was read of the clock. -/
theorem TimedStep.read (step : TimedStep w x w')
    (h : ∀ curTime pos, w.route.checking = some (curTime, pos) → curTime ≤ w.clock) :
    ∀ curTime pos, w'.route.checking = some (curTime, pos) → curTime ≤ w'.clock := by
  obtain ⟨route', now, later, reads, taken⟩ := step
  intro curTime pos hc
  cases taken with
  | scheduler y sys' apart step => exact le_trans (h curTime pos hc) later
  | notifyUnavailable target at' free own => exact le_trans (h curTime pos hc) later
  | notifyAvailable target seen grown f free own signal => exact le_trans (h curTime pos hc) later
  | checkBreaker seen cur free goes =>
    cases hc
    exact reads
  | checkNode cur pos' grown f has more signal =>
    cases hc
    exact le_trans (h _ _ has) later
  | unlock cur pos' has done => cases hc

/-- **A node comes to the list no earlier than the clock says.** -/
theorem TimedStep.resting (step : TimedStep w x w') (h : Resting t T g w) : Resting t T g w' := by
  have hread := step.read h.read
  obtain ⟨route', now, later, reads, taken⟩ := step
  refine ⟨taken.ok h.ok, fun node hn ht => ?_, le_trans h.past later, hread⟩
  cases taken with
  | scheduler y sys' apart step => exact h.nodes node hn ht
  | notifyUnavailable target at' free own =>
    rcases notifyUnavailable_cases h.ok.route own at' with ⟨-, same⟩ | ⟨-, list⟩
    · rw [same] at hn
      exact h.nodes node hn ht
    · rw [list] at hn
      rcases List.mem_append.1 hn with hn | hn
      · exact h.nodes node hn ht
      · have hnow : at' = now := reads
        have hT := le_trans h.past later
        rw [List.mem_singleton.1 hn, hnow]
        exact Int.add_le_add_right hT _
  | notifyAvailable target seen grown f free own signal =>
    rw [notifyAvailable_list h.ok.route own] at hn
    exact h.nodes node hn ht
  | checkBreaker seen cur free goes => exact h.nodes node hn ht
  | checkNode cur pos grown f has more signal =>
    rcases checkNode_cases h.ok.route more cur grown with ⟨-, -, list, -⟩ | ⟨-, -, same, -⟩
    · rw [list] at hn
      exact h.nodes node (List.mem_of_mem_eraseIdx hn) ht
    · rw [same] at hn
      exact h.nodes node hn ht
  | unlock cur pos has done => exact h.nodes node hn ht

/-- `check_breaker` puts a target back for a node of it that has expired. -/
theorem Resting.back (h : Resting t T g w) (step : TimedStep w (.checkNode grown) w') (out : w.route.groupOf t = none)
    (back : w'.route.groupOf t ≠ none) : T + MTTR_SECOND ≤ w'.clock := by
  obtain ⟨route', now, later, reads, taken⟩ := step
  cases taken with
  | checkNode cur pos grown f has more signal =>
    have hcur := h.read cur pos has
    unfold RouteSys.groupOf at out back
    rcases checkNode_cases h.ok.route more cur grown with ⟨expired, sched, -⟩ | ⟨-, sched, -⟩
    · by_cases ht : t = w.route.entry.breakerList[pos].target
      · have := h.nodes _ (List.getElem_mem more) ht.symm
        show T + MTTR_SECOND ≤ now
        omega
      · refine absurd ?_ back
        dsimp only
        rw [sched, putBack_group h.ok.route (h.ok.route.nodes _ (List.getElem_mem more)) ht]
        exact out
    · refine absurd ?_ back
      dsimp only
      rw [sched]
      exact out

/-! ## Coming back early -/

omit [DecidableEq τ] [DecidableEq γ] in
theorem exists_signalled (o : Option (CommSchedObject τ γ)) (f : θ → Thread τ γ) : ∃ f', Signalled o f f' := by
  cases o with
  | none => exact ⟨f, .none f⟩
  | some o =>
    by_cases h : ∃ a timed, f a = .waiting o timed
    · obtain ⟨a, timed, waits⟩ := h
      exact ⟨_, .wakes a timed waits⟩
    · exact ⟨f, .nobody fun a timed waits => h ⟨a, timed, waits⟩⟩

/-- **The loop of `check_breaker` puts a target back at the first node of it that has expired.** -/
theorem expired_back {curTime : Int} (l : List (BreakerNode τ)) : ∀ {pos : Nat} {w : TimedRoute τ γ θ},
    w.route.Ok g → w.route.checking = some (curTime, pos) → w.route.groupOf t = none →
    w.route.entry.breakerList.drop pos = l → (∃ node ∈ l, node.target = t ∧ node.timeout ≤ curTime) →
    ∃ w₂ w₃, Reaches TimedStep (LeavesOut t) w w₂ ∧ TimedStep w₂ (.checkNode true) w₃ ∧ w₂.route.groupOf t = none ∧
      w₃.route.groupOf t ≠ none ∧ w₃.clock = w.clock := by
  induction l with
  | nil =>
    intro pos w _ _ _ _ has
    obtain ⟨node, hn, -⟩ := has
    cases hn
  | cons head l ih =>
    intro pos w ok has out hdrop hnode
    have more : pos < w.route.entry.breakerList.length := by
      apply Nat.lt_of_not_le
      intro hle
      rw [List.drop_eq_nil_of_le hle] at hdrop
      cases hdrop
    rw [List.drop_eq_getElem_cons more] at hdrop
    obtain ⟨hhead, htail⟩ := List.cons.inj hdrop
    obtain ⟨f, signal⟩ := exists_signalled
      (w.route.entry.checkNode w.route.sys.sched curTime pos true).2.1 w.route.sys.thread
    have step : TimedStep w (.checkNode true) _ :=
      .step (.checkNode true) _ w.clock (le_refl _) trivial (.checkNode curTime pos true f has more signal)
    have meets : LeavesOut t w (.checkNode true) := fun _ _ e => by cases e
    have ok' := RouteStep.ok ok (.checkNode curTime pos true f has more signal)
    rcases checkNode_cases ok.route more curTime true with
      ⟨expired, sched, list, place⟩ | ⟨fresh, sched, same, place⟩
    · by_cases ht : w.route.entry.breakerList[pos].target = t
      · refine ⟨w, _, .start, step, out, ?_, rfl⟩
        unfold RouteSys.groupOf
        dsimp only
        rw [sched, ht, (putBack_spec ok.route (ht ▸ ok.route.nodes _ (List.getElem_mem more)) true).2.1]
        simp
      · -- another target comes back, and its node leaves the list
        have out' : ((w.route.entry.checkNode w.route.sys.sched curTime pos true).1.target t).group = none := by
          rw [sched, putBack_group ok.route (ok.route.nodes _ (List.getElem_mem more)) fun e => ht e.symm]
          exact out
        have rest : (w.route.entry.checkNode w.route.sys.sched curTime pos true).2.2.1.breakerList.drop pos = l := by
          rw [list, List.eraseIdx_eq_take_drop_succ, List.drop_left' (List.length_take_of_le (le_of_lt more))]
          exact htail
        obtain ⟨node, hn, hnt, hle⟩ := hnode
        have hn : node ∈ l := (List.mem_cons.1 hn).resolve_left fun e => ht (by rw [hhead, ← e, hnt])
        obtain ⟨w₂, w₃, run, hstep, h₂, h₃, hc⟩ :=
          ih (w := ⟨_, w.clock⟩) ok' (congrArg (fun k => some (curTime, k)) place) out' rest ⟨node, hn, hnt, hle⟩
        exact ⟨w₂, w₃, (Reaches.start.next meets step).trans run, hstep, h₂, h₃, hc⟩
    · have out' : ((w.route.entry.checkNode w.route.sys.sched curTime pos true).1.target t).group = none := by
        rw [sched]
        exact out
      have rest : (w.route.entry.checkNode w.route.sys.sched curTime pos true).2.2.1.breakerList.drop (pos + 1) = l := by
        rw [same]
        exact htail
      obtain ⟨node, hn, hnt, hle⟩ := hnode
      have hn : node ∈ l := (List.mem_cons.1 hn).resolve_left fun e => by
        rw [hhead, ← e] at fresh
        omega
      obtain ⟨w₂, w₃, run, hstep, h₂, h₃, hc⟩ :=
        ih (w := ⟨_, w.clock⟩) ok' (congrArg (fun k => some (curTime, k)) place) out' rest ⟨node, hn, hnt, hle⟩
      exact ⟨w₂, w₃, (Reaches.start.next meets step).trans run, hstep, h₂, h₃, hc⟩

/-! ## How long it rests -/

/-- Whatever follows, `check_breaker` does not put `t` back before it has rested from `T` on. -/
def Rests (t : τ) (T : Int) (w : TimedRoute τ γ θ) : Prop :=
  ∀ w₂ w₃ grown, Reaches TimedStep (LeavesOut t) w w₂ → TimedStep w₂ (.checkNode grown) w₃ →
    w₂.route.groupOf t = none → w₃.route.groupOf t ≠ none → T + MTTR_SECOND ≤ w₃.clock

/-- **A target taken out rests for `MTTR_SECOND` exactly when no node of it from an earlier outage is left.** -/
theorem breaker_rests {w₀ w w₁ : TimedRoute τ γ θ} (init : w₀.route.Init) (run : Reaches TimedStep always w₀ w)
    (step : TimedStep w (.notifyUnavailable t T) w₁) (was : w.route.groupOf t ≠ none) (out : w₁.route.groupOf t = none) :
    Rests t T w₁ ↔ ∀ node ∈ w.route.entry.breakerList, node.target = t → T + MTTR_SECOND ≤ node.timeout := by
  obtain ⟨g, ok₀⟩ := init.ok
  have ok : w.route.Ok g := run.keeps (P := fun w => w.route.Ok g)
    (fun _ _ _ h _ step => by obtain ⟨_, _, _, _, taken⟩ := step; exact taken.ok h) ok₀
  have init_read : ∀ curTime pos, w₀.route.checking = some (curTime, pos) → curTime ≤ w₀.clock := by
    obtain ⟨-, -, -, -, -, -, -, -, -, idle⟩ := init
    intro curTime pos h
    rw [idle] at h
    cases h
  have read : ∀ curTime pos, w.route.checking = some (curTime, pos) → curTime ≤ w.clock :=
    run.keeps (P := fun w : TimedRoute τ γ θ => ∀ curTime pos, w.route.checking = some (curTime, pos) → curTime ≤ w.clock)
      (fun _ _ _ h _ step => step.read h) init_read
  have read₁ := step.read read
  obtain ⟨route', now, later, reads, taken⟩ := step
  have hT : T = now := reads
  have ok₁ := taken.ok ok
  cases taken with
  | notifyUnavailable target now' free own =>
    rcases notifyUnavailable_cases ok.route own T with ⟨same, -⟩ | ⟨many, list⟩
    · refine absurd ?_ was
      unfold RouteSys.groupOf at out ⊢
      rw [← same]
      exact out
    constructor
    · intro rests node hn ht
      apply Int.le_of_not_gt
      intro early
      -- `check_breaker` as soon as the node has expired
      have goes : (w.route.entry.notifyUnavailable w.route.sys.sched t T).2.checks 1 := by
        unfold RouteResultEntry.checks
        rw [(notifyUnavailable_keeps ok.route own T).targets]
        simp only [decide_eq_true_eq]
        omega
      have check := RouteStep.checkBreaker (s := { w.route with
        sys := { w.route.sys with sched := (w.route.entry.notifyUnavailable w.route.sys.sched t T).1 }
        entry := (w.route.entry.notifyUnavailable w.route.sys.sched t T).2 }) 1 (max T node.timeout) free goes
      have has : node ∈ (w.route.entry.notifyUnavailable w.route.sys.sched t T).2.breakerList := by
        rw [list]
        exact List.mem_append_left _ hn
      obtain ⟨w₂, w₃, run₂, step₃, h₂, h₃, hclock⟩ := expired_back _ (w := ⟨_, max T node.timeout⟩) (check.ok ok₁) rfl out rfl
        ⟨node, has, ht, le_max_right ..⟩
      have first := TimedStep.step (s := ⟨_, now⟩) _ _ (max T node.timeout)
        (le_trans (le_of_eq hT.symm) (le_max_left ..)) (le_refl _) check
      have := rests w₂ w₃ true ((Reaches.start.next (fun _ _ e => by cases e) first).trans run₂) step₃ h₂ h₃
      rw [hclock] at this
      unfold MTTR_SECOND at *
      have hmax : max T node.timeout < T + 30 := max_lt (by omega) early
      exact absurd this (by dsimp only; omega)
    · intro clean w₂ w₃ grown later' step₃ h₂ h₃
      have resting : Resting t T g _ := ⟨ok₁, fun node hn ht => ?_, le_of_eq hT, read₁⟩
      · exact (later'.keeps (P := Resting t T g) (fun _ _ _ h _ step => step.resting h) resting).back step₃ h₂ h₃
      · rw [list] at hn
        rcases List.mem_append.1 hn with hn | hn
        · exact clean node hn ht
        · rw [List.mem_singleton.1 hn]

/-- The two targets, the first taken out at the start. -/
theorem breaker_rests_first :
    let w : TimedRoute Bool Unit (Fin 2) := ⟨twoRoutes, 0⟩
    let r := w.route.entry.notifyUnavailable w.route.sys.sched false 0
    Rests false 0 ⟨{ w.route with sys := { w.route.sys with sched := r.1 }, entry := r.2 }, 0⟩ ∧
      ∀ node ∈ w.route.entry.breakerList, node.target = false → (0 : Int) + MTTR_SECOND ≤ node.timeout := by
  intro w r
  have clean : ∀ node ∈ w.route.entry.breakerList, node.target = false → (0 : Int) + MTTR_SECOND ≤ node.timeout := by
    decide
  have step : TimedStep w (.notifyUnavailable false 0) _ :=
    .step _ _ 0 (le_refl _) rfl (.notifyUnavailable false 0 rfl (by decide))
  exact ⟨(breaker_rests twoRoutes_init .start step (by decide) (by decide)).2 clean, clean⟩

/-- **A target that had an outage before comes back too early**: it is taken out at 0, put back by `notify_available`,
taken out again at 20, and `check_breaker` at 31 comes to the first of its nodes. -/
theorem breaker_rests_short :
    ∃ w w₁ : TimedRoute Bool Unit (Fin 2), Reaches TimedStep always ⟨twoRoutes, 0⟩ w ∧
      TimedStep w (.notifyUnavailable false 20) w₁ ∧ w.route.groupOf false ≠ none ∧ w₁.route.groupOf false = none ∧
      ¬ Rests false 20 w₁ := by
  have r₁ : Reaches TimedStep always (⟨twoRoutes, 0⟩ : TimedRoute Bool Unit (Fin 2)) ⟨twoRoutes, 0⟩ := .start
  have r₂ := r₁.next trivial (TimedStep.step (.notifyUnavailable false 0) _ 0 (le_refl _) rfl
    (.notifyUnavailable false 0 rfl (by decide)))
  have r₃ := r₂.next trivial (TimedStep.step (.notifyAvailable false 1 true) _ 10 (by decide) trivial
    (.notifyAvailable false 1 true _ rfl (by decide) (.none _)))
  refine ⟨_, _, r₃, TimedStep.step (.notifyUnavailable false 20) _ 20 (by decide) rfl
    (.notifyUnavailable false 20 rfl (by decide)), by decide, by decide, fun rests => ?_⟩
  have early := rests _ _ true
    (Reaches.start.next (fun _ _ e => by cases e) (TimedStep.step (.checkBreaker 2 31) _ 31 (by decide) (le_refl _)
      (.checkBreaker 2 31 rfl (by decide))))
    (TimedStep.step (.checkNode true) _ 31 (le_refl _) trivial
      (.checkNode 31 0 true _ rfl (by decide) (.none _))) (by decide) (by decide)
  exact absurd early (by decide)

end Tinywf
