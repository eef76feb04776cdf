import Tinywf.HttpKeepAlive
import Tinywf.HttpHeaderEdit
import Tinywf.UriRedirect
import Tinywf.Lts
/-!
# HttpClientTask — the retries and the redirects of a `ComplexHttpTask`

A task that is done with a request puts itself back into its series to try again, after an error of the system, or to
go where the response points; else it calls back and is deleted.  A redirect starts the count of the retries anew, and
either may follow on the other, but every turn uses up an attempt (`TaskCounts.attempts`), of which there are
`(redirect_max + 1) * (retry_max + 1)` in all (`http_task_ends`).

`route()` fills `route_result_` or reports a DNS error; the name service's policy, if there is one, does nothing else
than be there; a timer calls back once.  Nobody cancels the series, and the callback does not redirect the task.
-/
namespace Tinywf

open CLib Lts

/-- `WFT_STATE_*` of a client's task. -/
inductive TaskState where
  | undefined | success | sysError | sslError | dnsError | taskError | aborted
deriving DecidableEq

def ECONNRESET : Int := 104
def WFT_ERR_URI_PARSE_FAILED : Int := 1001
def WFT_ERR_URI_SCHEME_INVALID : Int := 1002
def WFT_ERR_URI_PORT_INVALID : Int := 1003
def WFT_ERR_HTTP_BAD_REDIRECT_HEADER : Int := 2001

/-- What the task finds outside as it goes on. -/
structure Outside where
  /-- What `operator +` makes of a pointer that is `NULL`. -/
  null : Bytes
  room : UriPart → Nat → Bool
  /-- The URI that `parse` leaves when it has copied from outside its text. -/
  lost : ParsedURI
  /-- `WFGlobal::get_default_port`. -/
  defaultPort : Bytes → Option Bytes
  /-- Whether there is memory for the default port; if not, `errno`. -/
  memory : Option Int

structure ComplexHttpTask where
  redirectMax : Nat
  redirectCount : Nat
  retryMax : Nat
  retryTimes : Nat
  redirect : Bool
  state : TaskState
  error : Int
  uri : ParsedURI
  req : HttpParser
  resp : HttpParser
  /-- `route_result_.request_object` is there. -/
  routed : Bool
  /-- `router_task_` is there. -/
  routerTask : Bool
  /-- `ns_policy_` is there. -/
  nsPolicy : Bool
  /-- `target` is there. -/
  target : Bool
  /-- There is a callback. -/
  callback : Bool

namespace ComplexHttpTask

def fail (state : TaskState) (error : Int) (t : ComplexHttpTask) : ComplexHttpTask :=
  { t with state := state, error := error }

def clearPrevState (t : ComplexHttpTask) : ComplexHttpTask :=
  { t with routed := false, retryTimes := 0, state := .undefined, error := 0 }

def disableRetry (t : ComplexHttpTask) : ComplexHttpTask := { t with retryTimes := t.retryMax }

def clearResp (t : ComplexHttpTask) : ComplexHttpTask := { t with resp := httpParserInit true default }

/-! ## `init_with_uri` -/

def setEmptyRequest (t : ComplexHttpTask) : ComplexHttpTask :=
  { t with req := httpParserSetHeader (ascii "Host") [] (httpParserSetUri (ascii "/") t.req) }

def initSuccess (t : ComplexHttpTask) : Bool × ComplexHttpTask :=
  if t.uri.scheme.any fun scheme => !strcaseeq scheme (ascii "http") then
    (false, (t.fail .taskError WFT_ERR_URI_SCHEME_INVALID).setEmptyRequest)
  else
    let path := t.uri.path.getD []
    let query := t.uri.query.getD []
    let port := t.uri.port.getD []
    let requestUri := (if path = [] then ascii "/" else path) ++ if query = [] then [] else QUESTION :: query
    let headerHost := t.uri.host.getD [] ++ if port = [] ∨ atoi port = 80 then [] else COLON :: port
    (true, { t with req := httpParserSetHeader (ascii "Host") headerHost (httpParserSetUri requestUri t.req) })

def setPort (o : Outside) (t : ComplexHttpTask) : Bool × ComplexHttpTask :=
  match t.uri.port with
  | some port =>
    if atoi port ≤ 0 ∨ 65535 < atoi port then (false, t.fail .taskError WFT_ERR_URI_PORT_INVALID) else (true, t)
  | none =>
    match t.uri.scheme.bind o.defaultPort with
    | some port =>
      match o.memory with
      | none => (true, { t with uri := { t.uri with port := some port } })
      | some errno => (false, t.fail .sysError errno)
    | none => (false, t.fail .taskError WFT_ERR_URI_SCHEME_INVALID)

def initWithUri (o : Outside) (t : ComplexHttpTask) : ComplexHttpTask :=
  let t := if t.redirect then t.clearPrevState else t
  match t.uri.state with
  | .success =>
    match t.setPort o with
    | (true, t) =>
      match t.initSuccess with
      | (true, t) => t
      | (false, t) => t.setEmptyRequest
    | (false, t) => t.setEmptyRequest
  | .error => (t.fail .sysError t.uri.error).setEmptyRequest
  | _ => (t.fail .taskError WFT_ERR_URI_PARSE_FAILED).setEmptyRequest

/-- `set_redirect(uri_)`. -/
def setRedirect (o : Outside) (t : ComplexHttpTask) : ComplexHttpTask := initWithUri o { t with redirect := true }

/-! ## `finish_once` -/

def redirectUrl (o : Outside) (t : ComplexHttpTask) : Bool × ComplexHttpTask :=
  if t.redirectCount < t.redirectMax then
    let t := { t with redirectCount := t.redirectCount + 1 }
    match (httpHeaderCursorFind (ascii "Location") t.resp httpHeaderCursorInit).1 with
    | some (b :: url) =>
      let parsed := URIParser.parse o.room (redirectText o.null (b :: url) t.uri) t.uri
      (true, { t with uri := (parsed.map Prod.snd).getD o.lost })
    | _ => (false, t.fail .taskError WFT_ERR_HTTP_BAD_REDIRECT_HEADER)
  else (false, t)

def needRedirect (o : Outside) (t : ComplexHttpTask) : Bool × ComplexHttpTask :=
  match t.resp.code, t.req.method with
  | some code, some method =>
    if atoi code = 301 ∨ atoi code = 302 ∨ atoi code = 303 then
      match t.redirectUrl o with
      | (true, t) =>
        if !strcaseeq method (ascii "GET") && !strcaseeq method (ascii "HEAD") then
          (true, { t with req := httpParserSetMethod (ascii "GET") t.req })
        else (true, t)
      | (false, t) => (false, t)
    else if atoi code = 307 ∨ atoi code = 308 then t.redirectUrl o
    else (false, t)
  | _, _ => (false, t)

def checkResponse (t : ComplexHttpTask) : ComplexHttpTask :=
  let t := { t with resp := httpParserCloseMessage t.resp }
  if t.state = .sysError ∧ t.error = ECONNRESET ∧ httpParserHeaderComplete t.resp ∧ !t.resp.keepAlive ∧ !t.resp.chunked ∧
      !t.resp.hasContentLength then { t with state := .success, error := 0 }
  else t

def finishOnce (o : Outside) (t : ComplexHttpTask) : ComplexHttpTask :=
  let t := if t.state = .success then t else t.checkResponse
  if t.state = .success then
    match t.needRedirect o with
    | (true, t) => t.setRedirect o
    | (false, t) => if t.state = .success then t else t.disableRetry
  else t

/-- The task of `create_http_task`, before `init`. -/
def new (redirectMax retryMax : Nat) (nsPolicy callback : Bool) : ComplexHttpTask where
  redirectMax := redirectMax
  redirectCount := 0
  retryMax := retryMax
  retryTimes := 0
  redirect := false
  state := .undefined
  error := 0
  uri := .fresh
  req := httpParserSetVersion (ascii "HTTP/1.1") (httpParserSetMethod (ascii "GET") (httpParserInit false default))
  resp := httpParserInit true default
  routed := false
  routerTask := false
  nsPolicy := nsPolicy
  target := false
  callback := callback

/-- What `done` does to try again. -/
def retry (t : ComplexHttpTask) : ComplexHttpTask :=
  { t with
    redirect := true
    routed := if t.nsPolicy then false else t.routed
    state := .undefined
    error := 0
    retryTimes := t.retryTimes + 1 }

/-- What is done before the callback. -/
def setSslError (t : ComplexHttpTask) : ComplexHttpTask :=
  if t.state = .sysError ∧ t.error < 0 then t.fail .sslError (-t.error) else t

end ComplexHttpTask

/-! ## The task in its series -/

inductive SeriesItem where
  | router | task | timer
deriving DecidableEq

/-- What the series is at; `request` is the task, sent out. -/
inductive Running where
  | router | task | timer | request | others
deriving DecidableEq

def SeriesItem.running : SeriesItem → Running
  | .router => .router
  | .task => .task
  | .timer => .timer

structure HttpRun where
  task : ComplexHttpTask
  /-- What the task has put into the series, in front of the others. -/
  series : List SeriesItem
  running : Running
  /-- How often the scheduler was asked for a request. -/
  requests : Nat
  /-- How often the callback was called. -/
  called : Nat
  deleted : Bool

namespace HttpRun

def pop (s : HttpRun) : HttpRun :=
  match s.series with
  | [] => { s with running := .others }
  | item :: series => { s with series := series, running := item.running }

def switchCallback (s : HttpRun) : HttpRun :=
  let s := if s.task.redirect then s
    else { s with task := s.task.setSslError, called := s.called + s.task.callback.toNat }
  if s.task.redirect then
    { s with task := { s.task.clearResp with redirect := false, target := false }, series := .task :: s.series }
  else { s with deleted := true }

/-- `done`, for `finish_once` always says that the request was the user's. -/
def done (o : Outside) (s : HttpRun) : HttpRun :=
  if s.task.routerTask then pop { s with task := { s.task with routerTask := false } }
  else
    let t := s.task.finishOnce o
    let t := if t.state = .sysError ∧ t.retryTimes < t.retryMax then t.retry else t
    if t.target then pop (switchCallback { s with task := t })
    else pop { s with task := t, series := .timer :: s.series }

def request (s : HttpRun) : HttpRun := { s with requests := s.requests + 1, running := .request }

def dispatch (o : Outside) (s : HttpRun) : HttpRun :=
  match s.task.state with
  | .undefined =>
    if s.task.routed then s.request
    else done o { s with task := { s.task with routerTask := true }, series := .router :: .task :: s.series }
  | .success => s.request
  | _ => s.done o

end HttpRun

/-- How the network ends a request. -/
inductive Outcome where
  | success
  | error (error : Int)
  | stopped

def Outcome.state : Outcome → TaskState
  | .success => .success
  | .error _ => .sysError
  | .stopped => .aborted

def Outcome.errno : Outcome → Int
  | .error e => e
  | _ => 0

inductive HttpEvent where
  | dispatched
  /-- The router has filled `route_result_`, and may have said that this was a success. -/
  | resolved (said : Bool)
  | unresolved (error : Int)
  /-- The request is over; the target may be there or not, and the messages are what has become of them. -/
  | handled (outcome : Outcome) (target : Bool) (req resp : HttpParser)
  | fired

namespace HttpRun

def step (o : Outside) (s : HttpRun) (e : HttpEvent) : Option HttpRun :=
  match s.running, e with
  | .task, .dispatched => some (s.dispatch o)
  | .router, .resolved said =>
    some (pop { s with task := { s.task with routed := true, state := if said then .success else s.task.state } })
  | .router, .unresolved error => some (pop { s with task := s.task.fail .dnsError error })
  | .request, .handled outcome target req resp =>
    some (done o { s with
      task := { s.task with
        state := outcome.state, error := outcome.errno, target := target, req := req, resp := resp } })
  | .timer, .fired => some (pop (switchCallback s))
  | _, _ => none

/-- The series has come to the task; the user has had the request to himself. -/
def start (o : Outside) (redirectMax retryMax : Nat) (nsPolicy callback : Bool) (uri : ParsedURI) (req : HttpParser) :
    HttpRun where
  task :=
    { ComplexHttpTask.initWithUri o { ComplexHttpTask.new redirectMax retryMax nsPolicy callback with uri := uri } with
      req := req }
  series := []
  running := .task
  requests := 0
  called := 0
  deleted := false

end HttpRun

def HttpStep (s : HttpRun) (e : Outside × HttpEvent) (s' : HttpRun) : Prop := s.step e.1 e.2 = some s'

/-! ## The attempts -/

/-- The counts of a task, and what `done` and `switch_callback` go by. -/
structure TaskCounts where
  redirectMax : Nat
  redirectCount : Nat
  retryMax : Nat
  retryTimes : Nat
  redirect : Bool
  routerTask : Bool
  target : Bool
  callback : Bool

namespace TaskCounts

/-- **The attempts that are left** behind the one the task is at. -/
def attempts (c : TaskCounts) : Nat :=
  (c.redirectMax - c.redirectCount) * (c.retryMax + 1) + (c.retryMax - c.retryTimes)

/-- The redirect is counted, if there is one left. -/
def follow (c : TaskCounts) : TaskCounts :=
  if c.redirectCount < c.redirectMax then { c with redirectCount := c.redirectCount + 1 } else c

/-- A turn of the task: it is to be gone through again only with fewer attempts left. -/
structure Turned (c c' : TaskCounts) : Prop where
  redirectMax : c'.redirectMax = c.redirectMax
  retryMax : c'.retryMax = c.retryMax
  routerTask : c'.routerTask = c.routerTask
  callback : c'.callback = c.callback
  attempts : c'.redirect = c.redirect ∧ c'.attempts ≤ c.attempts ∨ c'.redirect = true ∧ c'.attempts < c.attempts

variable {c c' c'' : TaskCounts}

theorem Turned.of_eq (h : c' = c) : Turned c c' := by
  subst h
  exact ⟨rfl, rfl, rfl, rfl, .inl ⟨rfl, Nat.le_refl _⟩⟩

theorem Turned.trans (h : Turned c c') (h' : Turned c' c'') : Turned c c'' := by
  refine ⟨h'.redirectMax.trans h.redirectMax, h'.retryMax.trans h.retryMax, h'.routerTask.trans h.routerTask,
    h'.callback.trans h.callback, ?_⟩
  rcases h.attempts with ⟨hr, hle⟩ | ⟨hr, hlt⟩ <;> rcases h'.attempts with ⟨hr', hle'⟩ | ⟨hr', hlt'⟩
  · exact .inl ⟨hr'.trans hr, Nat.le_trans hle' hle⟩
  · exact .inr ⟨hr', Nat.lt_of_lt_of_le hlt' hle⟩
  · exact .inr ⟨hr'.trans hr, Nat.lt_of_le_of_lt hle' hlt⟩
  · exact .inr ⟨hr', Nat.lt_trans hlt' hlt⟩

/-- A redirect takes a whole round of retries away. -/
theorem attempts_follow (h : c.redirectCount < c.redirectMax) :
    (c.redirectMax - (c.redirectCount + 1)) * (c.retryMax + 1) + c.retryMax < c.attempts := by
  have hleft : c.redirectMax - c.redirectCount = c.redirectMax - (c.redirectCount + 1) + 1 := by omega
  unfold attempts
  rw [hleft, Nat.succ_mul]
  omega

theorem Turned.follow (c : TaskCounts) : Turned c c.follow := by
  unfold TaskCounts.follow
  split
  · rename_i h
    refine ⟨rfl, rfl, rfl, rfl, .inl ⟨rfl, Nat.le_of_lt (Nat.lt_of_le_of_lt ?_ (attempts_follow h))⟩⟩
    exact Nat.add_le_add_left (Nat.sub_le _ _) _
  · exact .of_eq rfl

theorem Turned.redirected (h : c.redirectCount < c.redirectMax) :
    Turned c { c.follow with redirect := true, retryTimes := 0 } := by
  unfold TaskCounts.follow
  rw [if_pos h]
  exact ⟨rfl, rfl, rfl, rfl, .inr ⟨rfl, attempts_follow h⟩⟩

theorem Turned.disabled (c : TaskCounts) : Turned c { c with retryTimes := c.retryMax } := by
  refine ⟨rfl, rfl, rfl, rfl, .inl ⟨rfl, Nat.add_le_add_left ?_ _⟩⟩
  exact Nat.sub_self c.retryMax ▸ Nat.zero_le _

theorem Turned.retried (h : c.retryTimes < c.retryMax) :
    Turned c { c with redirect := true, retryTimes := c.retryTimes + 1 } := by
  refine ⟨rfl, rfl, rfl, rfl, .inr ⟨rfl, Nat.add_lt_add_left ?_ _⟩⟩
  have hlt : c.retryMax - (c.retryTimes + 1) < c.retryMax - c.retryTimes := by omega
  exact hlt

end TaskCounts

namespace ComplexHttpTask

open TaskCounts (Turned)

def counts (t : ComplexHttpTask) : TaskCounts where
  redirectMax := t.redirectMax
  redirectCount := t.redirectCount
  retryMax := t.retryMax
  retryTimes := t.retryTimes
  redirect := t.redirect
  routerTask := t.routerTask
  target := t.target
  callback := t.callback

variable (o : Outside) (t : ComplexHttpTask)

@[simp] theorem fail_counts (state : TaskState) (error : Int) : (t.fail state error).counts = t.counts := rfl

@[simp] theorem setEmptyRequest_counts : t.setEmptyRequest.counts = t.counts := rfl

theorem initSuccess_counts : t.initSuccess.2.counts = t.counts := by
  unfold initSuccess
  split <;> rfl

theorem setPort_counts : (t.setPort o).2.counts = t.counts := by
  unfold setPort
  split
  · split <;> rfl
  · split
    · split <;> rfl
    · rfl

theorem initWithUri_counts :
    (t.initWithUri o).counts = if t.redirect then { t.counts with retryTimes := 0 } else t.counts := by
  have hstart : (if t.redirect then t.clearPrevState else t).counts =
      if t.redirect then { t.counts with retryTimes := 0 } else t.counts := by
    split <;> rfl
  rw [← hstart]
  unfold initWithUri
  generalize (if t.redirect then t.clearPrevState else t) = t
  have hport := t.setPort_counts o
  dsimp only
  split
  · split
    · rename_i t' heq
      rw [heq] at hport
      have hinit := t'.initSuccess_counts
      split
      · rename_i t'' heq'
        rw [heq'] at hinit
        exact hinit.trans hport
      · rename_i t'' heq'
        rw [heq'] at hinit
        exact hinit.trans hport
    · rename_i t' heq
      rw [heq] at hport
      exact hport
  · rfl
  · rfl

theorem initWithUri_first (h : t.redirect = false) : (t.initWithUri o).counts = t.counts :=
  (initWithUri_counts o t).trans (if_neg (ne_true_of_eq_false h))

theorem setRedirect_counts : (t.setRedirect o).counts = { t.counts with redirect := true, retryTimes := 0 } :=
  (initWithUri_counts o { t with redirect := true }).trans (if_pos rfl)

theorem redirectUrl_counts : (t.redirectUrl o).2.counts = t.counts.follow := by
  unfold redirectUrl TaskCounts.follow
  split
  · rename_i h
    rw [if_pos (by exact h)]
    dsimp only
    split <;> rfl
  · rename_i h
    rw [if_neg (by exact h)]

theorem redirectUrl_follows (h : (t.redirectUrl o).1 = true) : t.redirectCount < t.redirectMax := by
  unfold redirectUrl at h
  split at h
  · assumption
  · cases h

/-- What `need_redirect` says was counted, and it may have counted what it does not say. -/
theorem needRedirect_counts :
    (t.needRedirect o).2.counts = t.counts.follow ∧ ((t.needRedirect o).1 = true → t.redirectCount < t.redirectMax) ∨
      (t.needRedirect o).2.counts = t.counts ∧ (t.needRedirect o).1 = false := by
  have hcounts := t.redirectUrl_counts o
  have hfollows := t.redirectUrl_follows o
  unfold needRedirect
  split
  · split
    · split
      · rename_i t' heq
        rw [heq] at hcounts hfollows
        split
        · exact .inl ⟨hcounts, hfollows⟩
        · exact .inl ⟨hcounts, hfollows⟩
      · rename_i t' heq
        rw [heq] at hcounts hfollows
        exact .inl ⟨hcounts, hfollows⟩
    · split
      · exact .inl ⟨hcounts, hfollows⟩
      · exact .inr ⟨rfl, rfl⟩
  · exact .inr ⟨rfl, rfl⟩

theorem checkResponse_counts : t.checkResponse.counts = t.counts := by
  unfold checkResponse
  dsimp only
  split <;> rfl

/-- **A redirect takes an attempt**, and nothing that `finish_once` does gives one back. -/
theorem finishOnce_turned : Turned t.counts (t.finishOnce o).counts := by
  have hcheck : (if t.state = .success then t else t.checkResponse).counts = t.counts := by
    split
    · rfl
    · exact t.checkResponse_counts
  unfold finishOnce
  rw [← hcheck]
  generalize (if t.state = .success then t else t.checkResponse) = t
  dsimp only
  split
  · have hneed := t.needRedirect_counts o
    split
    · rename_i t' heq
      rw [heq] at hneed
      rcases hneed with ⟨hcounts, hfollows⟩ | ⟨-, h⟩
      · rw [t'.setRedirect_counts, show t'.counts = t.counts.follow from hcounts]
        exact .redirected (hfollows rfl)
      · cases h
    · rename_i t' heq
      rw [heq] at hneed
      have hturned : Turned t.counts t'.counts := by
        rcases hneed with ⟨hcounts, -⟩ | ⟨hcounts, -⟩
        · have hfollow : t'.counts = t.counts.follow := hcounts
          rw [hfollow]
          exact .follow _
        · exact .of_eq hcounts
      split
      · exact hturned
      · exact hturned.trans (.disabled _)
  · exact .of_eq rfl

theorem setSslError_counts : t.setSslError.counts = t.counts := by
  unfold setSslError
  split <;> rfl

end ComplexHttpTask

/-! ## The run -/

namespace HttpRun

open ComplexHttpTask

variable {s : HttpRun} {m k : Nat} {callback : Bool} {o : Outside}

/-- The task is still there, and nobody was called back. -/
structure Alive (m k : Nat) (callback : Bool) (s : HttpRun) : Prop where
  redirectMax : s.task.redirectMax = m
  retryMax : s.task.retryMax = k
  hasCallback : s.task.callback = callback
  routerTask : s.task.routerTask = false
  called : s.called = 0
  deleted : s.deleted = false

/-- Whether the request of this attempt is still to come. -/
def owes (s : HttpRun) : Nat :=
  match s.running with
  | .router | .task => 1
  | .timer => s.task.redirect.toNat
  | .request | .others => 0

structure Going (m k : Nat) (callback : Bool) (s : HttpRun) : Prop where
  alive : s.running ≠ .others → Alive m k callback s
  gone : s.running = .others → s.deleted = true ∧ s.called = callback.toNat
  series : s.series = if s.running = .router then [.task] else []
  redirect : s.running ≠ .timer → s.task.redirect = false
  requests : s.requests + s.owes + s.task.counts.attempts ≤ (m + 1) * (k + 1)

/-- How far the task is within an attempt. -/
def rank (s : HttpRun) : Nat :=
  match s.running with
  | .timer => if s.task.redirect then 9 else 2
  | .task => if s.task.state = .undefined ∧ s.task.routed = false then 8 else 6
  | .router => 7
  | .request => 5
  | .others => 0

/-- **No more steps than these.** -/
def bound (s : HttpRun) : Nat := 10 * s.task.counts.attempts + s.rank

theorem Alive.turned (h : Alive m k callback s) {t : ComplexHttpTask} (ht : TaskCounts.Turned s.task.counts t.counts) :
    Alive m k callback { s with task := t } :=
  ⟨ht.redirectMax.trans h.redirectMax, ht.retryMax.trans h.retryMax, ht.callback.trans h.hasCallback,
    ht.routerTask.trans h.routerTask, h.called, h.deleted⟩

theorem pop_switchCallback (hs : s.series = []) (h : s.task.redirect = true) :
    pop (switchCallback s) =
      { s with task := { s.task.clearResp with redirect := false, target := false }, running := .task } := by
  unfold switchCallback
  rw [if_pos h, if_pos h]
  unfold pop
  dsimp only
  rw [hs]
  rfl

theorem pop_switchCallback_last (hs : s.series = []) (h : s.task.redirect = false) :
    pop (switchCallback s) =
      { s with task := s.task.setSslError, called := s.called + s.task.callback.toNat, deleted := true,
               running := .others } := by
  have hssl : s.task.setSslError.redirect = false := (congrArg TaskCounts.redirect s.task.setSslError_counts).trans h
  unfold switchCallback
  rw [if_neg (ne_true_of_eq_false h), if_neg (ne_true_of_eq_false hssl)]
  unfold pop
  dsimp only
  rw [hs]

/-- The task calls back, or goes into the series for another attempt. -/
theorem switchCallback_going (h : Alive m k callback s) (hs : s.series = [])
    (hreq : s.requests + s.task.redirect.toNat + s.task.counts.attempts ≤ (m + 1) * (k + 1)) :
    Going m k callback (pop (switchCallback s)) ∧
      (pop (switchCallback s)).bound ≤ 10 * s.task.counts.attempts + if s.task.redirect then 8 else 0 := by
  cases hr : s.task.redirect with
  | true =>
    rw [pop_switchCallback hs hr]
    rw [hr] at hreq
    refine ⟨⟨fun _ => ⟨h.redirectMax, h.retryMax, h.hasCallback, h.routerTask, h.called, h.deleted⟩,
      fun hrun => (by cases hrun), hs, fun _ => rfl, hreq⟩, Nat.add_le_add_left ?_ _⟩
    unfold rank
    dsimp only
    split <;> decide
  | false =>
    rw [pop_switchCallback_last hs hr]
    rw [hr] at hreq
    have hcounts := s.task.setSslError_counts
    have hssl : s.task.setSslError.redirect = false := (congrArg TaskCounts.redirect hcounts).trans hr
    refine ⟨⟨fun hrun => absurd rfl hrun, fun _ => ⟨rfl, ?_⟩, hs, fun _ => hssl, ?_⟩, ?_⟩
    · dsimp only
      rw [h.called, h.hasCallback, Nat.zero_add]
    · dsimp only
      rw [hcounts]
      exact hreq
    · unfold bound
      dsimp only
      rw [hcounts]
      exact Nat.le_refl _

/-- **Done with an attempt**, the task has fewer left or is on its way to the callback. -/
theorem done_going (h : Alive m k callback s) (hs : s.series = []) (hr : s.task.redirect = false)
    (hreq : s.requests + s.task.counts.attempts ≤ (m + 1) * (k + 1)) :
    Going m k callback (done o s) ∧ (done o s).bound < 10 * s.task.counts.attempts + 5 := by
  have hturned : TaskCounts.Turned s.task.counts
      (if (s.task.finishOnce o).state = .sysError ∧
        (s.task.finishOnce o).retryTimes < (s.task.finishOnce o).retryMax then
          (s.task.finishOnce o).retry else s.task.finishOnce o).counts := by
    have honce := s.task.finishOnce_turned o
    split
    · rename_i hretry
      exact honce.trans (.retried hretry.2)
    · exact honce
  unfold done
  rw [if_neg (ne_true_of_eq_false h.routerTask)]
  dsimp only
  generalize (if (s.task.finishOnce o).state = .sysError ∧
    (s.task.finishOnce o).retryTimes < (s.task.finishOnce o).retryMax then
      (s.task.finishOnce o).retry else s.task.finishOnce o) = t at hturned ⊢
  have halive := h.turned hturned
  -- another attempt is one of those that were left
  have hleft : t.redirect.toNat + t.counts.attempts ≤ s.task.counts.attempts ∧
      10 * t.counts.attempts + (if t.redirect then 9 else 2) < 10 * s.task.counts.attempts + 5 := by
    rcases hturned.attempts with ⟨hred, hle⟩ | ⟨hred, hlt⟩
    · have hno : t.redirect = false := hred.trans hr
      rw [hno]
      refine ⟨?_, ?_⟩
      · rw [Bool.toNat_false, Nat.zero_add]
        exact hle
      · rw [if_neg (by decide)]
        omega
    · have hyes : t.redirect = true := hred
      rw [hyes]
      refine ⟨?_, ?_⟩
      · rw [Bool.toNat_true, Nat.add_comm]
        exact hlt
      · rw [if_pos rfl]
        omega
  obtain ⟨howes, hlower⟩ := hleft
  split
  · obtain ⟨hgoing, hbound⟩ := switchCallback_going halive hs (by dsimp only; omega)
    refine ⟨hgoing, Nat.lt_of_le_of_lt hbound (Nat.lt_of_le_of_lt (Nat.add_le_add_left ?_ _) hlower)⟩
    dsimp only
    split <;> decide
  · refine ⟨⟨fun _ => ⟨halive.redirectMax, halive.retryMax, halive.hasCallback, halive.routerTask, h.called, h.deleted⟩,
      fun hrun => (by cases hrun), hs, fun hrun => absurd rfl hrun, ?_⟩, hlower⟩
    unfold owes pop
    dsimp only [SeriesItem.running]
    omega

theorem request_going (h : Alive m k callback s) (hs : s.series = []) (hr : s.task.redirect = false)
    (hreq : s.requests + 1 + s.task.counts.attempts ≤ (m + 1) * (k + 1)) :
    Going m k callback s.request ∧ s.request.bound < 10 * s.task.counts.attempts + 6 := by
  refine ⟨⟨fun _ => ⟨h.redirectMax, h.retryMax, h.hasCallback, h.routerTask, h.called, h.deleted⟩,
    fun hrun => (by cases hrun), hs, fun _ => hr, hreq⟩, Nat.lt_succ_self _⟩

/-- The router runs in front of the task. -/
theorem done_router (hs : s.series = []) :
    done o { s with task := { s.task with routerTask := true }, series := .router :: .task :: s.series } =
      { s with task := { s.task with routerTask := false }, series := [.task], running := .router } := by
  unfold done
  rw [if_pos rfl, hs]
  rfl

theorem dispatch_going (h : Alive m k callback s) (hs : s.series = []) (hrun : s.running = .task)
    (hr : s.task.redirect = false) (hreq : s.requests + 1 + s.task.counts.attempts ≤ (m + 1) * (k + 1)) :
    Going m k callback (s.dispatch o) ∧ (s.dispatch o).bound < s.bound := by
  have hbound : 10 * s.task.counts.attempts + 6 ≤ s.bound := by
    refine Nat.add_le_add_left ?_ _
    unfold rank
    rw [hrun]
    dsimp only
    split <;> decide
  obtain ⟨hrequest, hsent⟩ := request_going h hs hr hreq
  unfold dispatch
  split
  · rename_i hst
    split
    · exact ⟨hrequest, Nat.lt_of_lt_of_le hsent hbound⟩
    · rename_i hrouted
      have hrank : s.rank = 8 := by
        unfold rank
        rw [hrun]
        exact if_pos ⟨hst, eq_false_of_ne_true hrouted⟩
      rw [done_router hs]
      refine ⟨⟨fun _ => ⟨h.redirectMax, h.retryMax, h.hasCallback, rfl, h.called, h.deleted⟩,
        fun hrun => (by cases hrun), rfl, fun _ => hr, hreq⟩, ?_⟩
      exact Nat.add_lt_add_left (hrank ▸ Nat.lt_succ_self 7) _
  · exact ⟨hrequest, Nat.lt_of_lt_of_le hsent hbound⟩
  · obtain ⟨hgoing, hlower⟩ := done_going (o := o) h hs hr (by omega)
    exact ⟨hgoing, by omega⟩

/-- The router leaves the task to be dispatched, and it does not come again. -/
theorem router_going (h : Alive m k callback s) (hs : s.series = [.task])
    (hrun : s.running = .router) (hr : s.task.redirect = false)
    (hreq : s.requests + 1 + s.task.counts.attempts ≤ (m + 1) * (k + 1)) {t : ComplexHttpTask}
    (hcounts : t.counts = s.task.counts) (ht : ¬ (t.state = .undefined ∧ t.routed = false)) :
    Going m k callback (pop { s with task := t }) ∧ (pop { s with task := t }).bound < s.bound := by
  have hpop : pop { s with task := t } = { s with task := t, series := [], running := .task } := by
    unfold pop
    dsimp only
    rw [hs]
    rfl
  have halive := h.turned (.of_eq hcounts)
  rw [hpop]
  refine ⟨⟨fun _ => ⟨halive.redirectMax, halive.retryMax, halive.hasCallback, halive.routerTask, h.called, h.deleted⟩,
    fun hrun => (by cases hrun), rfl, fun _ => (congrArg TaskCounts.redirect hcounts).trans hr, ?_⟩, ?_⟩
  · dsimp only
    rw [hcounts]
    exact hreq
  · unfold bound rank
    dsimp only
    rw [hcounts, hrun, if_neg ht]
    exact Nat.lt_succ_self _

/-- **Every step goes on with the task and lowers the bound.** -/
theorem step_going {e : HttpEvent} {s' : HttpRun} (h : Going m k callback s) (hstep : s.step o e = some s') :
    Going m k callback s' ∧ s'.bound < s.bound := by
  have hreq := h.requests
  have hseries := h.series
  have halive := h.alive
  have hr := h.redirect
  unfold owes at hreq
  unfold step at hstep
  split at hstep
  · rename_i hrun
    rw [hrun] at hreq hseries halive hr
    cases hstep
    exact dispatch_going (halive (by decide)) hseries hrun (hr (by decide)) hreq
  · rename_i said hrun
    rw [hrun] at hreq hseries halive hr
    cases hstep
    refine router_going (halive (by decide)) hseries hrun (hr (by decide)) hreq rfl ?_
    rintro ⟨-, hrouted⟩
    cases hrouted
  · rename_i error hrun
    rw [hrun] at hreq hseries halive hr
    cases hstep
    refine router_going (halive (by decide)) hseries hrun (hr (by decide)) hreq rfl ?_
    rintro ⟨hst, -⟩
    cases hst
  · rename_i outcome target req resp hrun
    rw [hrun] at hreq hseries halive hr
    cases hstep
    have hrank : s.bound = 10 * s.task.counts.attempts + 5 := by
      unfold bound rank
      rw [hrun]
    have ha := halive (by decide)
    rw [hrank]
    exact done_going ⟨ha.redirectMax, ha.retryMax, ha.hasCallback, ha.routerTask, ha.called, ha.deleted⟩ hseries
      (hr (by decide)) hreq
  · rename_i hrun
    rw [hrun] at hreq hseries halive
    cases hstep
    obtain ⟨hgoing, hbound⟩ := switchCallback_going (halive (by decide)) hseries hreq
    refine ⟨hgoing, Nat.lt_of_le_of_lt hbound (Nat.add_lt_add_left ?_ _)⟩
    unfold rank
    rw [hrun]
    dsimp only
    split <;> decide
  · cases hstep

theorem start_going (redirectMax retryMax : Nat) (nsPolicy callback : Bool) (uri : ParsedURI) (req : HttpParser) :
    Going redirectMax retryMax callback (start o redirectMax retryMax nsPolicy callback uri req) := by
  have hcounts := initWithUri_first o { ComplexHttpTask.new redirectMax retryMax nsPolicy callback with uri := uri } rfl
  refine ⟨fun _ => ⟨congrArg TaskCounts.redirectMax hcounts, congrArg TaskCounts.retryMax hcounts,
    congrArg TaskCounts.callback hcounts, congrArg TaskCounts.routerTask hcounts, rfl, rfl⟩, fun hrun => (by cases hrun), rfl,
    fun _ => congrArg TaskCounts.redirect hcounts, ?_⟩
  have hattempts := congrArg TaskCounts.attempts hcounts
  have hall : TaskCounts.attempts (ComplexHttpTask.new redirectMax retryMax nsPolicy callback).counts =
      redirectMax * (retryMax + 1) + retryMax := rfl
  have hsum : 0 + 1 + (redirectMax * (retryMax + 1) + retryMax) = (redirectMax + 1) * (retryMax + 1) := by
    rw [Nat.succ_mul]
    omega
  exact Nat.le_of_eq ((congrArg (0 + 1 + ·) (hattempts.trans hall)).trans hsum)

/-- As long as the task is there, something can happen to it. -/
theorem goes_on (o : Outside) (h : s.running ≠ .others) : ∃ e s', HttpStep s e s' := by
  obtain ⟨task, series, running, requests, called, deleted⟩ := s
  cases running with
  | task => exact ⟨(o, .dispatched), _, rfl⟩
  | router => exact ⟨(o, .unresolved 0), _, rfl⟩
  | request => exact ⟨(o, .handled .stopped false task.req task.resp), _, rfl⟩
  | timer => exact ⟨(o, .fired), _, rfl⟩
  | others => exact absurd rfl h

end HttpRun

/-- **A task's retries and redirects are bounded**: whatever the network answers, it asks for no more requests than there
are attempts, and it comes to an end, at which it has called back once and is deleted. -/
theorem http_task_ends (o : Outside) (redirectMax retryMax : Nat) (nsPolicy callback : Bool) (uri : ParsedURI)
    (req : HttpParser) :
    ¬ Endless HttpStep (HttpRun.start o redirectMax retryMax nsPolicy callback uri req) ∧
      ∀ s, Reaches HttpStep always (HttpRun.start o redirectMax retryMax nsPolicy callback uri req) s →
        s.requests ≤ (redirectMax + 1) * (retryMax + 1) ∧
        (s.running = .others → s.deleted = true ∧ s.called = callback.toNat ∧ s.series = []) ∧
        (s.running ≠ .others → s.deleted = false ∧ s.called = 0 ∧ ∃ e s', HttpStep s e s') := by
  have hstart := HttpRun.start_going (o := o) redirectMax retryMax nsPolicy callback uri req
  refine ⟨not_endless (P := fun s n => s.Going redirectMax retryMax callback ∧ s.bound = n) ⟨hstart, rfl⟩ ?_, ?_⟩
  · rintro s e s' n ⟨h, rfl⟩ hstep
    obtain ⟨h', hlt⟩ := HttpRun.step_going h hstep
    exact ⟨s'.bound, hlt, h', rfl⟩
  · intro s run
    have h : s.Going redirectMax retryMax callback :=
      run.keeps (fun s e s' h _ hstep => (HttpRun.step_going h hstep).1) hstart
    have hreq := h.requests
    refine ⟨by omega, fun hrun => ?_, fun hrun => ?_⟩
    · obtain ⟨hdeleted, hcalled⟩ := h.gone hrun
      have hseries := h.series
      rw [hrun] at hseries
      exact ⟨hdeleted, hcalled, hseries⟩
    · exact ⟨(h.alive hrun).deleted, (h.alive hrun).called, HttpRun.goes_on o hrun⟩

end Tinywf
