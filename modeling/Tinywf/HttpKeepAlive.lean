import Tinywf.StringUtil
import Tinywf.HttpParser
import Tinywf.CNumber
/-!
# HttpKeepAlive — `WFHttpServerTask::message_out`

The server completes its response and settles for how long the connection stays open, from the `Keep-Alive` header of
the request.  The loop over the parameters leaves off as soon as it has seen all it looks for; its result is that of
the first `timeout` and the first `max`, in whichever order they stand (`keepAliveLoop_eq`).  The time is that many
seconds, in a 32-bit number of milliseconds (`keep_alive_negotiated`).
-/
namespace Tinywf

open CLib StringUtil

abbrev COMMA : UInt8 := 44

def HTTP_KEEPALIVE_MAX : Int := 300 * 1000

/-- A number as an `int` holds it. -/
def toInt32 (n : Int) : Int := n.bmod (2 ^ 32)

def atoi (s : Bytes) : Int := toInt32 (atol s)

/-- `strcasecmp(a, b) == 0`. -/
def strcaseeq (a b : Bytes) : Bool := (cstr a).map tolower == (cstr b).map tolower

/-! ## The response's status -/

/-- The cases of `HttpUtil::set_response_status`. -/
def reasonPhrases : List (Int × String) :=
  [(100, "Continue"), (101, "Switching Protocols"), (102, "Processing"), (200, "OK"), (201, "Created"),
   (202, "Accepted"), (203, "Non-Authoritative Information"), (204, "No Content"), (205, "Reset Content"),
   (206, "Partial Content"), (207, "Multi-Status"), (208, "Already Reported"), (226, "IM Used"),
   (300, "Multiple Choices"), (301, "Moved Permanently"), (302, "Found"), (303, "See Other"), (304, "Not Modified"),
   (305, "Use Proxy"), (306, "Switch Proxy"), (307, "Temporary Redirect"), (308, "Permanent Redirect"),
   (400, "Bad Request"), (401, "Unauthorized"), (402, "Payment Required"), (403, "Forbidden"), (404, "Not Found"),
   (405, "Method Not Allowed"), (406, "Not Acceptable"), (407, "Proxy Authentication Required"),
   (408, "Request Timeout"), (409, "Conflict"), (410, "Gone"), (411, "Length Required"),
   (412, "Precondition Failed"), (413, "Request Entity Too Large"), (414, "Request-URI Too Long"),
   (415, "Unsupported Media Type"), (416, "Requested Range Not Satisfiable"), (417, "Expectation Failed"),
   (418, "I'm a teapot"), (420, "Enhance Your Caim"), (421, "Misdirected Request"), (422, "Unprocessable Entity"),
   (423, "Locked"), (424, "Failed Dependency"), (425, "Too Early"), (426, "Upgrade Required"),
   (428, "Precondition Required"), (429, "Too Many Requests"), (431, "Request Header Fields Too Large"),
   (444, "No Response"), (450, "Blocked by Windows Parental Controls"), (451, "Unavailable For Legal Reasons"),
   (494, "Request Header Too Large"), (500, "Internal Server Error"), (501, "Not Implemented"), (502, "Bad Gateway"),
   (503, "Service Unavailable"), (504, "Gateway Timeout"), (505, "HTTP Version Not Supported"),
   (506, "Variant Also Negotiates"), (507, "Insufficient Storage"), (508, "Loop Detected"), (510, "Not Extended"),
   (511, "Network Authentication Required")]

/-- `HttpUtil::set_response_status`. -/
def setResponseStatus (resp : HttpParser) (statusCode : Int) : HttpParser :=
  let resp := httpParserSetCode (ascii (toString statusCode)) resp
  let phrase := (reasonPhrases.find? (fun e => e.1 = statusCode)).map Prod.snd
  httpParserSetPhrase (ascii (phrase.getD "Unknown")) resp

/-! ## The task -/

structure WFHttpServerTask where
  resp : HttpParser
  outputBodySize : Nat
  /-- `req_is_alive_`. -/
  reqIsAlive : Bool
  /-- `req_keep_alive_`, if there is such a header. -/
  reqKeepAlive : Option Bytes
  /-- `get_seq()`. -/
  seq : Int
  keepAliveTimeo : Int

/-- The key and the value of a parameter. -/
def paramOf (kv : Bytes) : Bytes × Bytes :=
  let arr := split kv 61
  let arr := if arr.length < 2 then arr ++ [ascii "0"] else arr
  (strip (arr.getD 0 []), strip (arr.getD 1 []))

/-- The loop over the parameters; the two bits of `flag` are `timeout` and `max`. -/
def keepAliveLoop (seq : Int) (timeout max : Bool) (timeo : Int) : List Bytes → Int
  | [] => timeo
  | kv :: params =>
    if !timeout && strcaseeq (paramOf kv).1 (ascii "timeout") then
      let timeo := toInt32 (1000 * atoi (paramOf kv).2)
      if max then timeo else keepAliveLoop seq true max timeo params
    else if !max && strcaseeq (paramOf kv).1 (ascii "max") then
      if atoi (paramOf kv).2 ≤ seq then 0
      else if timeout then timeo
      else keepAliveLoop seq timeout true timeo params
    else keepAliveLoop seq timeout max timeo params

/-- What is left of a time; a negative one is above all others. -/
def capped (timeo : Int) : Int := if HTTP_KEEPALIVE_MAX < timeo % 2 ^ 32 then HTTP_KEEPALIVE_MAX else timeo

namespace WFHttpServerTask

/-- The version, if there is none. -/
def withVersion (resp : HttpParser) : HttpParser :=
  if resp.version.isNone then httpParserSetVersion (ascii "HTTP/1.1") resp else resp

/-- The status and its phrase, if one is missing. -/
def withStatus (resp : HttpParser) : HttpParser :=
  match resp.code, resp.phrase with
  | some _, some _ => resp
  | some code, none => setResponseStatus resp (atoi code)
  | none, _ => setResponseStatus resp 200

/-- The length of the body, unless it is chunked. -/
def withLength (outputBodySize : Nat) (resp : HttpParser) : HttpParser :=
  if resp.chunked || resp.hasContentLength then resp
  else httpParserAddHeader (ascii "Content-Length") (ascii (toString outputBodySize)) resp

def completed (t : WFHttpServerTask) : HttpParser := withLength t.outputBodySize (withStatus (withVersion t.resp))

/-- `is_alive`. -/
def isAlive (t : WFHttpServerTask) : Bool :=
  if t.completed.hasConnection then t.completed.keepAlive else t.reqIsAlive

/-- What the request asks for, as far as the server goes along. -/
def negotiated (t : WFHttpServerTask) : Int :=
  capped (match t.reqKeepAlive with
    | some header => keepAliveLoop t.seq false false t.keepAliveTimeo (split header COMMA)
    | none => t.keepAliveTimeo)

/-- `message_out`, up to what the class it extends does. -/
def messageOut (t : WFHttpServerTask) : WFHttpServerTask :=
  let timeo := if t.isAlive then t.negotiated else 0
  let resp := if t.completed.hasConnection then t.completed
    else httpParserAddHeader (ascii "Connection") (ascii (if timeo = 0 then "close" else "Keep-Alive")) t.completed
  { t with resp := resp, keepAliveTimeo := timeo }

end WFHttpServerTask

/-! ## The first parameter of a name -/

/-- The value of the first parameter called `name`. -/
def firstParam (name : String) (params : List Bytes) : Option Bytes :=
  ((params.map paramOf).find? fun e => strcaseeq e.1 (ascii name)).map Prod.snd

theorem firstParam_cons (name : String) (kv : Bytes) (params : List Bytes) : firstParam name (kv :: params) =
    if strcaseeq (paramOf kv).1 (ascii name) then some (paramOf kv).2 else firstParam name params := by
  unfold firstParam
  rw [List.map_cons, List.find?_cons]
  split <;> simp_all

theorem timeout_not_max {key : Bytes} (h : strcaseeq key (ascii "timeout") = true) :
    strcaseeq key (ascii "max") = false := by
  unfold strcaseeq at h ⊢
  rw [beq_iff_eq] at h
  rw [h]
  rfl

/-- **The first `timeout` and the first `max` decide**, whatever else there is and in whichever order. -/
theorem keepAliveLoop_eq (seq : Int) (params : List Bytes) : ∀ (timeout max : Bool) (timeo : Int),
    keepAliveLoop seq timeout max timeo params =
      if (if max then none else firstParam "max" params).any fun v => atoi v ≤ seq then 0
      else ((if timeout then none else firstParam "timeout" params).map fun v => toInt32 (1000 * atoi v)).getD timeo := by
  induction params with
  | nil => intro timeout max timeo; cases timeout <;> cases max <;> rfl
  | cons kv params ih =>
    intro timeout max timeo
    rw [keepAliveLoop, firstParam_cons, firstParam_cons]
    by_cases ht : strcaseeq (paramOf kv).1 (ascii "timeout") = true
    · rw [ht, timeout_not_max ht]
      cases timeout
      · cases max <;> simp [ih]
      · cases max <;> simp [ih]
    · rw [Bool.not_eq_true] at ht
      rw [ht]
      by_cases hm : strcaseeq (paramOf kv).1 (ascii "max") = true
      · rw [hm]
        cases max
        · by_cases hv : atoi (paramOf kv).2 ≤ seq
          · simp [hv]
          · cases timeout <;> simp [hv, ih]
        · simp [ih]
      · rw [Bool.not_eq_true] at hm
        rw [hm]
        simp [ih]

/-! ## Numbers -/

/-- The number a text begins with, in base 10; 0 if it begins with none. -/
def numberOf (s : Bytes) : Int :=
  let n := digitsVal 10 ((numberStart 10 s).2.takeWhile (isDigitOf 10))
  if (numberStart 10 s).1 then -(n : Int) else n

/-- A number as `atoi` returns it: within a `long`, of which an `int` takes the low bits. -/
def intOf (n : Int) : Int := toInt32 (max (-2 ^ 63) (min n (2 ^ 63 - 1)))

theorem atoi_eq (s : Bytes) : atoi s = intOf (numberOf s) := by
  unfold atoi intOf atol numberOf
  rw [strtol_eq]
  generalize htake : (numberStart 10 s).2.takeWhile (isDigitOf 10) = ds
  by_cases hds : ds = []
  · rw [if_pos hds, hds]
    cases (numberStart 10 s).1 <;> rfl
  · rw [if_neg hds]
    simp only [clampLong, LONG_MAX]
    congr 1
    split <;> omega

theorem intOf_of_fits {n : Int} (lo : -2 ^ 31 ≤ n) (hi : n < 2 ^ 31) : intOf n = n := by
  have hclamp : max (-2 ^ 63) (min n (2 ^ 63 - 1)) = n := by omega
  rw [intOf, hclamp, toInt32]
  exact Int.bmod_eq_of_le (by omega) (by omega)

theorem capped_toInt32 (x : Int) : capped (toInt32 x) = min (x % 2 ^ 32) HTTP_KEEPALIVE_MAX := by
  have hmod : toInt32 x % 2 ^ 32 = x % 2 ^ 32 := Int.bmod_emod
  unfold capped
  rw [hmod]
  by_cases h : HTTP_KEEPALIVE_MAX < x % 2 ^ 32
  · rw [if_pos h, min_eq_right (by omega)]
  · rw [if_neg h, min_eq_left (by omega)]
    unfold HTTP_KEEPALIVE_MAX at h
    exact Int.bmod_eq_emod_of_lt (by omega)

theorem capped_eq_zero {x : Int} : capped x = 0 ↔ x = 0 := by
  unfold capped HTTP_KEEPALIVE_MAX
  split <;> omega

/-- Only a time that is a whole number of turns is cut down to nothing. -/
theorem capped_toInt32_eq_zero {x : Int} : capped (toInt32 x) = 0 ↔ x % 2 ^ 32 = 0 := by
  have hmax : HTTP_KEEPALIVE_MAX = 300000 := rfl
  rw [capped_toInt32, hmax]
  omega

/-! ## What is settled -/

/-- The number of the first parameter called `name`. -/
def paramNumber (name : String) (header : Bytes) : Option Int := (firstParam name (split header COMMA)).map numberOf

def MaxReached (seq : Int) (header : Bytes) : Prop := ∃ n, paramNumber "max" header = some n ∧ n ≤ seq

/-- As `MaxReached`, of what an `int` holds of the number. -/
def MaxIntReached (seq : Int) (header : Bytes) : Prop := ∃ n, paramNumber "max" header = some n ∧ intOf n ≤ seq

/-- The first `timeout`, of `n` seconds. -/
def Timeout (header : Bytes) (n : Int) : Prop := paramNumber "timeout" header = some n ∧ 0 ≤ n ∧ n < 2 ^ 31

/-- What the server is to settle for. -/
structure Negotiated (seq : Int) (header : Bytes) (timeo : Int) : Prop where
  reached : MaxReached seq header → timeo = 0
  timeout : ¬MaxReached seq header → ∀ n, Timeout header n → timeo = min (1000 * n) HTTP_KEEPALIVE_MAX

/-- When it does: an `int` holds the numbers, and the milliseconds, or what is lost of them does not matter. -/
structure Representable (seq : Int) (header : Bytes) (configured : Int) : Prop where
  /-- The product is no time at all, where a `max` that is reached is not reached as an `int`. -/
  reached : MaxReached seq header → ¬MaxIntReached seq header →
    match paramNumber "timeout" header with
    | some n => 1000 * intOf n % 2 ^ 32 = 0
    | none => configured = 0
  unreached : ¬MaxReached seq header → MaxIntReached seq header → ∀ n, Timeout header n → n = 0
  /-- The product is one of 32 bits, or its low bits are above the cap as well. -/
  product : ¬MaxReached seq header → ¬MaxIntReached seq header → ∀ n, Timeout header n →
    1000 * n < 2 ^ 32 ∨ HTTP_KEEPALIVE_MAX ≤ 1000 * n % 2 ^ 32

namespace WFHttpServerTask

variable {t : WFHttpServerTask} {header : Bytes}

theorem checkMessageHeader_length (value : Bytes) (p : HttpParser) :
    (checkMessageHeader (ascii "Content-Length") value p).hasConnection = p.hasConnection ∧
      (checkMessageHeader (ascii "Content-Length") value p).keepAlive = p.keepAlive := by
  have hlen : (ascii "Content-Length").length = 14 := rfl
  unfold checkMessageHeader
  rw [hlen]
  simp only
  split
  · split <;> exact ⟨rfl, rfl⟩
  · exact ⟨rfl, rfl⟩

theorem withVersion_connection (resp : HttpParser) :
    (withVersion resp).hasConnection = resp.hasConnection ∧ (withVersion resp).keepAlive = resp.keepAlive := by
  unfold withVersion
  split <;> exact ⟨rfl, rfl⟩

theorem withStatus_connection (resp : HttpParser) :
    (withStatus resp).hasConnection = resp.hasConnection ∧ (withStatus resp).keepAlive = resp.keepAlive := by
  unfold withStatus
  split <;> exact ⟨rfl, rfl⟩

theorem withLength_connection (size : Nat) (resp : HttpParser) :
    (withLength size resp).hasConnection = resp.hasConnection ∧ (withLength size resp).keepAlive = resp.keepAlive := by
  unfold withLength
  split
  · exact ⟨rfl, rfl⟩
  · exact checkMessageHeader_length _ _

/-- Nothing that completes the response says whether the connection stays. -/
theorem isAlive_eq (t : WFHttpServerTask) :
    t.isAlive = if t.resp.hasConnection then t.resp.keepAlive else t.reqIsAlive := by
  obtain ⟨hc1, hk1⟩ := withVersion_connection t.resp
  obtain ⟨hc2, hk2⟩ := withStatus_connection (withVersion t.resp)
  obtain ⟨hc3, hk3⟩ := withLength_connection t.outputBodySize (withStatus (withVersion t.resp))
  unfold isAlive completed
  rw [hc3, hk3, hc2, hk2, hc1, hk1]

/-- What the connection is kept for, said by the numbers of the two parameters. -/
theorem messageOut_timeo (alive : t.isAlive = true) (asked : t.reqKeepAlive = some header) :
    t.messageOut.keepAliveTimeo = capped (if (paramNumber "max" header).any fun n => intOf n ≤ t.seq then 0
      else ((paramNumber "timeout" header).map fun n => toInt32 (1000 * intOf n)).getD t.keepAliveTimeo) := by
  unfold messageOut negotiated paramNumber
  rw [alive, asked]
  simp only [if_true, keepAliveLoop_eq, Bool.false_eq_true, if_false, atoi_eq, Option.any_map, Option.map_map,
    Function.comp_def]

theorem messageOut_reached (alive : t.isAlive = true) (asked : t.reqKeepAlive = some header)
    (h : MaxIntReached t.seq header) : t.messageOut.keepAliveTimeo = 0 := by
  obtain ⟨n, hn, hle⟩ := h
  rw [messageOut_timeo alive asked, hn, Option.any_some, decide_eq_true hle]
  rfl

theorem messageOut_unreached (alive : t.isAlive = true) (asked : t.reqKeepAlive = some header)
    (h : ¬MaxIntReached t.seq header) : t.messageOut.keepAliveTimeo =
      capped (((paramNumber "timeout" header).map fun n => toInt32 (1000 * intOf n)).getD t.keepAliveTimeo) := by
  rw [messageOut_timeo alive asked, if_neg]
  intro hany
  obtain ⟨n, hn, hle⟩ := (Option.any_eq_true _ _).1 hany
  exact h ⟨n, hn, of_decide_eq_true hle⟩

/-- **The server settles for what it is asked exactly when the numbers are representable.** -/
theorem keep_alive_negotiated (t : WFHttpServerTask) (header : Bytes) (alive : t.isAlive = true)
    (asked : t.reqKeepAlive = some header) :
    Negotiated t.seq header t.messageOut.keepAliveTimeo ↔ Representable t.seq header t.keepAliveTimeo := by
  have hmax : HTTP_KEEPALIVE_MAX = 300000 := rfl
  have htimeout : ∀ {n : Int}, ¬MaxIntReached t.seq header → Timeout header n →
      t.messageOut.keepAliveTimeo = min (1000 * n % 2 ^ 32) HTTP_KEEPALIVE_MAX := fun {n} hno ht => by
    obtain ⟨hn, lo, hi⟩ := ht
    rw [messageOut_unreached alive asked hno, hn, Option.map_some, Option.getD_some, intOf_of_fits (by omega) hi,
      capped_toInt32]
  constructor
  · intro h
    refine ⟨fun hr hno => ?_, fun hno hr n ht => ?_, fun hno hno' n ht => ?_⟩
    · have hz := h.reached hr
      rw [messageOut_unreached alive asked hno] at hz
      cases hp : paramNumber "timeout" header with
      | none =>
        rw [hp] at hz
        exact capped_eq_zero.1 hz
      | some n =>
        rw [hp, Option.map_some, Option.getD_some] at hz
        exact capped_toInt32_eq_zero.1 hz
    · have hz := h.timeout hno n ht
      rw [messageOut_reached alive asked hr] at hz
      have := ht.2.1
      omega
    · have hz := h.timeout hno n ht
      rw [htimeout hno' ht] at hz
      have := ht.2
      omega
  · intro h
    by_cases hr : MaxIntReached t.seq header
    · refine ⟨fun _ => messageOut_reached alive asked hr, fun hno n ht => ?_⟩
      rw [messageOut_reached alive asked hr, h.unreached hno hr n ht]
      rfl
    · refine ⟨fun hreach => ?_, fun hno n ht => ?_⟩
      · have hz := h.reached hreach hr
        rw [messageOut_unreached alive asked hr]
        cases hp : paramNumber "timeout" header with
        | none =>
          rw [hp] at hz
          exact capped_eq_zero.2 hz
        | some n =>
          rw [hp] at hz
          rw [Option.map_some, Option.getD_some]
          exact capped_toInt32_eq_zero.2 hz
      · have hz := h.product hno hr n ht
        rw [htimeout hr ht]
        have := ht.2
        by_cases hsmall : 1000 * n < 2 ^ 32
        · have hmod : 1000 * n % 2 ^ 32 = 1000 * n := Int.emod_eq_of_lt (by omega) hsmall
          rw [hmod]
        · rw [min_eq_right (hz.resolve_left hsmall), min_eq_right (by omega)]

/-- A task whose request has the header, and whose response says nothing. -/
def requested (header : Bytes) (seq : Int) : WFHttpServerTask where
  resp := httpParserInit true default
  outputBodySize := 0
  reqIsAlive := true
  reqKeepAlive := some header
  seq := seq
  keepAliveTimeo := 60000

theorem requested_alive (header : Bytes) (seq : Int) : (requested header seq).isAlive = true := isAlive_eq _

theorem keep_alive_negotiated_both :
    Negotiated 3 (ascii "max=100, proxy, Timeout = 5")
        (requested (ascii "max=100, proxy, Timeout = 5") 3).messageOut.keepAliveTimeo ↔
      Representable 3 (ascii "max=100, proxy, Timeout = 5") 60000 :=
  keep_alive_negotiated (requested (ascii "max=100, proxy, Timeout = 5") 3) _ (requested_alive _ _) rfl

/-- Of 4294968 seconds the low bits are 704 milliseconds. -/
theorem keep_alive_wrapped : (requested (ascii "timeout=4294968") 0).isAlive = true ∧
    (requested (ascii "timeout=4294968") 0).messageOut.keepAliveTimeo = 704 ∧
    ¬Negotiated 0 (ascii "timeout=4294968") (requested (ascii "timeout=4294968") 0).messageOut.keepAliveTimeo := by
  have htimeout : paramNumber "timeout" (ascii "timeout=4294968") = some 4294968 := by decide
  have hmax : paramNumber "max" (ascii "timeout=4294968") = none := by decide
  have hno : ¬MaxReached 0 (ascii "timeout=4294968") := by
    rintro ⟨n, hn, -⟩
    rw [hmax] at hn
    cases hn
  have hno' : ¬MaxIntReached 0 (ascii "timeout=4294968") := by
    rintro ⟨n, hn, -⟩
    rw [hmax] at hn
    cases hn
  have htimeo : (requested (ascii "timeout=4294968") 0).messageOut.keepAliveTimeo = 704 := by
    rw [messageOut_unreached (requested_alive _ _) rfl hno', htimeout]
    decide
  refine ⟨requested_alive _ _, htimeo, fun h => ?_⟩
  have hcap := h.timeout hno 4294968 ⟨htimeout, by decide, by decide⟩
  rw [htimeo] at hcap
  exact absurd hcap (by decide)

end WFHttpServerTask

end Tinywf
