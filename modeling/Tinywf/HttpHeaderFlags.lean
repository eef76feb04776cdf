import Tinywf.HttpFraming
import Tinywf.HttpHeaderEdit
/-!
# HttpHeaderFlags — what the parser remembers of the headers

`__check_message_header` writes to the flags what the header just added or set says, and nothing takes back what a header
said that another one has replaced.  The flags are those of the headers in the list as long as every line set may be
replaced (`header_flags`): a flag that the new value does not write stays as the old one wrote it.
-/
namespace Tinywf

open CLib
open Entries (written lastWrite Replaces)

/-! ## What a header writes -/

inductive Flag
  | keepAlive | chunked | expectContinue | hasConnection | hasContentLength | hasKeepAlive | contentLength
  deriving DecidableEq, Repr, Inhabited

def HttpParser.flag (p : HttpParser) : Flag → Nat
  | .keepAlive => p.keepAlive.toNat
  | .chunked => p.chunked.toNat
  | .expectContinue => p.expectContinue.toNat
  | .hasConnection => p.hasConnection.toNat
  | .hasContentLength => p.hasContentLength.toNat
  | .hasKeepAlive => p.hasKeepAlive.toNat
  | .contentLength => p.contentLength

/-- A name, or a value, that is a given one but for its case. -/
def sameText (key text : Bytes) : Bool := headerKey text == headerKey key

/-- What a header writes to a flag, `none` where it leaves it alone. -/
def writesFlag (name value : Bytes) : Flag → Option Nat
  | .keepAlive =>
    if sameText (ascii "Connection") name then
      if sameText (ascii "Keep-Alive") value then some 1 else if sameText (ascii "close") value then some 0 else none
    else none
  | .chunked =>
    if sameText (ascii "Transfer-Encoding") name then some (!sameText (ascii "identity") value).toNat else none
  | .expectContinue =>
    if sameText (ascii "Expect") name && sameText (ascii "100-continue") value then some 1 else none
  | .hasConnection => if sameText (ascii "Connection") name then some 1 else none
  | .hasContentLength => if sameText (ascii "Content-Length") name then some 1 else none
  | .hasKeepAlive => if sameText (ascii "Keep-Alive") name then some 1 else none
  | .contentLength =>
    if sameText (ascii "Content-Length") name ∧ isDigitOf 10 (value.headD NUL) ∧ value.length ≤ 15 then
      some (atol value % 2 ^ 64).toNat
    else none

/-- What a line in the list writes. -/
def HeaderLine.writes (f : Flag) (h : HeaderLine) : Option Nat := writesFlag h.name h.value f

/-! ## Texts that are equal but for their case -/

theorem tolower_eq_zero {b : UInt8} : tolower b = 0 ↔ b = 0 := by
  unfold tolower
  split
  · rename_i h
    constructor
    · intro h0
      have h1 := congrArg UInt8.toNat h0
      rw [UInt8.toNat_add] at h1
      have h2 : (32 : UInt8).toNat = 32 := rfl
      have h3 : (0 : UInt8).toNat = 0 := rfl
      omega
    · rintro rfl
      exact absurd h.1 (by decide)
  · exact Iff.rfl

/-- NUL is in a text whatever the case of the rest. -/
theorem nul_headerKey {text : Bytes} : NUL ∈ headerKey text ↔ NUL ∈ text := by
  unfold headerKey
  rw [List.mem_map]
  constructor
  · rintro ⟨b, hb, h0⟩
    have : b = NUL := tolower_eq_zero.1 h0
    rwa [← this]
  · exact fun h => ⟨NUL, h, rfl⟩

theorem strncaseeq_comm : ∀ (n : Nat) (a b : Bytes), strncaseeq n a b = strncaseeq n b a
  | 0, _, _ => by simp only [strncaseeq]
  | n + 1, [], [] => rfl
  | n + 1, [], _ :: _ => rfl
  | n + 1, _ :: _, [] => rfl
  | n + 1, x :: a, y :: b => by
    rw [strncaseeq, strncaseeq, strncaseeq_comm n a b]
    by_cases hxy : tolower x = tolower y
    · have hnul : (x == NUL) = (y == NUL) := by
        rw [Bool.eq_iff_iff, beq_iff_eq, beq_iff_eq, ← tolower_eq_zero, hxy, tolower_eq_zero]
      rw [hxy, hnul]
    · rw [beq_eq_false_iff_ne.2 hxy, beq_eq_false_iff_ne.2 (Ne.symm hxy), Bool.false_and, Bool.false_and]

theorem length_headerKey (text : Bytes) : (headerKey text).length = text.length := List.length_map _

/-- The comparison of the code, with a text without NUL. -/
theorem sameText_eq {key : Bytes} (hk : NUL ∉ key) (text : Bytes) :
    sameText key text = (text.length == key.length && strncaseeq key.length text key) := by
  rw [Bool.eq_iff_iff, Bool.and_eq_true, sameText, beq_iff_eq, beq_iff_eq]
  have hcmp (hl : text.length = key.length) :
      strncaseeq key.length text key = true ↔ headerKey text = headerKey key := by
    rw [strncaseeq_comm, strncaseeq_iff (Nat.le_refl _) (by omega) (by rwa [List.take_length]), List.take_length,
      ← hl, List.take_length]
    exact eq_comm
  constructor
  · intro h
    have hl : text.length = key.length := by rw [← length_headerKey text, h, length_headerKey]
    exact ⟨hl, (hcmp hl).2 h⟩
  · exact fun h => (hcmp h.1).1 h.2

/-- A line found under a name says of the flags what the name says. -/
theorem matches_sameText {h : HeaderLine} (hw : h.Wf) {name : Bytes} (hm : h.matches name = true) {key : Bytes}
    (hk : NUL ∉ key) : sameText key h.name = sameText key name := by
  rw [HeaderLine.matches, Bool.and_eq_true, beq_iff_eq] at hm
  obtain ⟨hl, hc⟩ := hm
  have hnl := hw.nameLen
  have hbuf : name.length ≤ h.buf.length := by
    have := List.length_take_le' h.nameLen h.buf
    unfold HeaderLine.name at hnl
    omega
  have htake : h.buf.take name.length = h.name := by rw [← hl]; rfl
  have same (hno : NUL ∉ h.name ∨ NUL ∉ name) : headerKey h.name = headerKey name := by
    rcases hno with hno | hno
    · rw [strncaseeq_iff hbuf (Nat.le_refl _) (by rwa [htake]), htake, List.take_length] at hc
      exact hc
    · rw [strncaseeq_comm, strncaseeq_iff (Nat.le_refl _) hbuf (by rwa [List.take_length]), htake, List.take_length] at hc
      exact hc.symm
  have hfree {text : Bytes} (ht : headerKey text = headerKey key) : NUL ∉ text := by
    rw [← nul_headerKey, ht, nul_headerKey]
    exact hk
  rw [Bool.eq_iff_iff, sameText, sameText, beq_iff_eq, beq_iff_eq]
  exact ⟨fun ht => by rw [← same (.inl (hfree ht))]; exact ht, fun ht => by rw [same (.inr (hfree ht))]; exact ht⟩

/-! ## One header -/

/-- `__check_message_header`, by names. -/
theorem checkMessageHeader_eq (name value : Bytes) (p : HttpParser) :
    checkMessageHeader name value p =
      if sameText (ascii "Expect") name then
        if sameText (ascii "100-continue") value then { p with expectContinue := true } else p
      else if sameText (ascii "Connection") name then
        if sameText (ascii "Keep-Alive") value then { p with hasConnection := true, keepAlive := true }
        else if sameText (ascii "close") value then { p with hasConnection := true, keepAlive := false }
        else { p with hasConnection := true }
      else if sameText (ascii "Keep-Alive") name then { p with hasKeepAlive := true }
      else if sameText (ascii "Content-Length") name then
        if isDigitOf 10 (value.headD NUL) ∧ value.length ≤ 15 then
          { p with hasContentLength := true, contentLength := (atol value % 2 ^ 64).toNat }
        else { p with hasContentLength := true }
      else if sameText (ascii "Transfer-Encoding") name then { p with chunked := !sameText (ascii "identity") value }
      else p := by
  have hE : sameText (ascii "Expect") name = (name.length == 6 && strncaseeq 6 name (ascii "Expect")) :=
    sameText_eq (by decide) name
  have hC : sameText (ascii "Connection") name = (name.length == 10 && strncaseeq 10 name (ascii "Connection")) :=
    sameText_eq (by decide) name
  have hK : sameText (ascii "Keep-Alive") name = (name.length == 10 && strncaseeq 10 name (ascii "Keep-Alive")) :=
    sameText_eq (by decide) name
  have hL : sameText (ascii "Content-Length") name = (name.length == 14 && strncaseeq 14 name (ascii "Content-Length")) :=
    sameText_eq (by decide) name
  have hT : sameText (ascii "Transfer-Encoding") name =
      (name.length == 17 && strncaseeq 17 name (ascii "Transfer-Encoding")) := sameText_eq (by decide) name
  have v1 : sameText (ascii "100-continue") value = (value.length == 12 && strncaseeq 12 value (ascii "100-continue")) :=
    sameText_eq (by decide) value
  have v2 : sameText (ascii "Keep-Alive") value = (value.length == 10 && strncaseeq 10 value (ascii "Keep-Alive")) :=
    sameText_eq (by decide) value
  have v3 : sameText (ascii "close") value = (value.length == 5 && strncaseeq 5 value (ascii "close")) :=
    sameText_eq (by decide) value
  have v4 : sameText (ascii "identity") value = (value.length == 8 && strncaseeq 8 value (ascii "identity")) :=
    sameText_eq (by decide) value
  rw [hE, hC, hK, hL, hT, v1, v2, v3, v4]
  unfold checkMessageHeader
  split
  · rename_i hlen
    simp [hlen]
  · rename_i hlen
    simp [hlen]
  · rename_i hlen
    simp [hlen]
  · rename_i hlen
    simp [hlen]
  · rename_i h6 h10 h14 h17
    have e6 : (name.length == 6) = false := beq_eq_false_iff_ne.2 h6
    have e10 : (name.length == 10) = false := beq_eq_false_iff_ne.2 h10
    have e14 : (name.length == 14) = false := beq_eq_false_iff_ne.2 h14
    have e17 : (name.length == 17) = false := beq_eq_false_iff_ne.2 h17
    simp [e6, e10, e14, e17]

theorem sameText_other {key key' text : Bytes} (h : sameText key text = true) (hne : headerKey key ≠ headerKey key') :
    sameText key' text = false := by
  rw [sameText, beq_iff_eq] at h
  rw [sameText, h, beq_eq_false_iff_ne]
  exact hne

/-- **`__check_message_header` writes what the header says.** -/
theorem checkMessageHeader_flag (name value : Bytes) (p : HttpParser) (f : Flag) :
    (checkMessageHeader name value p).flag f = (writesFlag name value f).getD (p.flag f) := by
  rw [checkMessageHeader_eq]
  by_cases hE : sameText (ascii "Expect") name = true
  · have hC : sameText (ascii "Connection") name = false := sameText_other hE (by decide)
    have hK : sameText (ascii "Keep-Alive") name = false := sameText_other hE (by decide)
    have hL : sameText (ascii "Content-Length") name = false := sameText_other hE (by decide)
    have hT : sameText (ascii "Transfer-Encoding") name = false := sameText_other hE (by decide)
    by_cases hv : sameText (ascii "100-continue") value = true
    · cases f <;> simp [writesFlag, HttpParser.flag, hE, hC, hK, hL, hT, hv]
    · cases f <;> simp [writesFlag, HttpParser.flag, hE, hC, hK, hL, hT, hv]
  by_cases hC : sameText (ascii "Connection") name = true
  · have hK : sameText (ascii "Keep-Alive") name = false := sameText_other hC (by decide)
    have hL : sameText (ascii "Content-Length") name = false := sameText_other hC (by decide)
    have hT : sameText (ascii "Transfer-Encoding") name = false := sameText_other hC (by decide)
    by_cases hv : sameText (ascii "Keep-Alive") value = true
    · cases f <;> simp [writesFlag, HttpParser.flag, hE, hC, hK, hL, hT, hv]
    by_cases hw : sameText (ascii "close") value = true
    · cases f <;> simp [writesFlag, HttpParser.flag, hE, hC, hK, hL, hT, hv, hw]
    · cases f <;> simp [writesFlag, HttpParser.flag, hE, hC, hK, hL, hT, hv, hw]
  by_cases hK : sameText (ascii "Keep-Alive") name = true
  · have hL : sameText (ascii "Content-Length") name = false := sameText_other hK (by decide)
    have hT : sameText (ascii "Transfer-Encoding") name = false := sameText_other hK (by decide)
    cases f <;> simp [writesFlag, HttpParser.flag, hE, hC, hK, hL, hT]
  by_cases hL : sameText (ascii "Content-Length") name = true
  · have hT : sameText (ascii "Transfer-Encoding") name = false := sameText_other hL (by decide)
    by_cases hv : isDigitOf 10 (value.headD NUL) = true ∧ value.length ≤ 15
    · cases f <;> simp [writesFlag, HttpParser.flag, hE, hC, hK, hL, hT, hv, -List.headD_eq_head?_getD]
    · cases f <;> simp [writesFlag, HttpParser.flag, hE, hC, hK, hL, hT, hv, -List.headD_eq_head?_getD]
  by_cases hT : sameText (ascii "Transfer-Encoding") name = true
  · cases f <;> simp [writesFlag, HttpParser.flag, hE, hC, hK, hL, hT]
  · cases f <;> simp [writesFlag, HttpParser.flag, hE, hC, hK, hL, hT]

theorem writesFlag_congr {a b : Bytes} (h : ∀ key, NUL ∉ key → sameText key a = sameText key b) (value : Bytes)
    (f : Flag) : writesFlag a value f = writesFlag b value f := by
  have hE := h (ascii "Expect") (by decide)
  have hC := h (ascii "Connection") (by decide)
  have hK := h (ascii "Keep-Alive") (by decide)
  have hL := h (ascii "Content-Length") (by decide)
  have hT := h (ascii "Transfer-Encoding") (by decide)
  cases f <;> simp only [writesFlag, hE, hC, hK, hL, hT]

theorem writes_headerLine (name value : Bytes) (f : Flag) :
    (headerLine name value).writes f = writesFlag name value f := by
  rw [HeaderLine.writes, headerLine_name, headerLine_value]

/-- A line that is set says what the header set says, in whichever spelling of the name. -/
theorem writes_set {h : HeaderLine} (hw : h.Wf) {name : Bytes} (hm : h.matches name = true) (value : Bytes) (f : Flag) :
    (h.set name value).writes f = writesFlag name value f := by
  have hlen : h.nameLen = name.length := by
    rw [HeaderLine.matches, Bool.and_eq_true, beq_iff_eq] at hm
    exact hm.1
  rw [HeaderLine.writes, (hw.set hlen value).2, hw.set_name hlen value]
  split
  · rfl
  · exact writesFlag_congr (fun _ hk => matches_sameText hw hm hk) value f

/-! ## One call -/

/-- The flags that `__check_message_header` gives a parser for a list of headers. -/
def checkAll (p : HttpParser) (hs : List HeaderLine) : HttpParser :=
  hs.foldl (fun p h => checkMessageHeader h.name h.value p) p

/-- The flags of `p` are those of its headers, for a parser that began as `p₀`. -/
def FlagsFollow (p₀ p : HttpParser) : Prop := ∀ f, p.flag f = (checkAll p₀ p.headerList).flag f

/-- Setting a header may replace the line it replaces. -/
def HeaderCall.MayReplace (p₀ : HttpParser) (hs : List HeaderLine) : HeaderCall → Prop
  | add _ _ => True
  | set name value =>
    match hs.dropWhile (fun h => !h.matches name) with
    | [] => True
    | old :: behind => ∀ f, Replaces (HeaderLine.writes f) (p₀.flag f) (hs.takeWhile (fun h => !h.matches name)) old
        (headerLine name value) behind

theorem checkAll_flag (f : Flag) : ∀ (hs : List HeaderLine) (p : HttpParser),
    (checkAll p hs).flag f = written (HeaderLine.writes f) (p.flag f) hs
  | [], _ => rfl
  | h :: hs, p => by
    have ih := checkAll_flag f hs (checkMessageHeader h.name h.value p)
    rw [checkMessageHeader_flag] at ih
    exact ih

theorem flagsFollow_iff {p₀ p : HttpParser} :
    FlagsFollow p₀ p ↔ ∀ f, p.flag f = written (HeaderLine.writes f) (p₀.flag f) p.headerList := by
  unfold FlagsFollow
  simp only [checkAll_flag]

theorem setHeaderIn_eq (name value : Bytes) (hs : List HeaderLine) :
    setHeaderIn name value hs = match hs.dropWhile (fun h => !h.matches name) with
      | [] => none
      | old :: behind => some (hs.takeWhile (fun h => !h.matches name) ++ old.set name value :: behind) := by
  induction hs with
  | nil => rfl
  | cons h hs ih =>
    rw [setHeaderIn, List.dropWhile_cons, List.takeWhile_cons]
    cases hm : h.matches name with
    | true => rfl
    | false =>
      rw [ih]
      simp only [Bool.not_false, if_true, Bool.false_eq_true, if_false]
      split <;> rfl

theorem addMessageHeader_flag (name value : Bytes) (p : HttpParser) (f : Flag) :
    (addMessageHeader name value p).flag f = p.flag f := by
  cases f <;> rfl

theorem setMessageHeader_flag (name value : Bytes) (p : HttpParser) (f : Flag) :
    (setMessageHeader name value p).flag f = p.flag f := by
  unfold setMessageHeader
  split
  · cases f <;> rfl
  · exact addMessageHeader_flag name value p f

/-- A header behind the others is the last to write. -/
theorem added_follows {p₀ p : HttpParser} (h : FlagsFollow p₀ p) (name value : Bytes) :
    FlagsFollow p₀ (checkMessageHeader name value (addMessageHeader name value p)) := by
  rw [flagsFollow_iff] at h ⊢
  intro f
  rw [checkMessageHeader_flag, addMessageHeader_flag, HttpMessage.checkMessageHeader_headerList, addMessageHeader,
    Entries.written_append, ← h f, ← writes_headerLine]
  rfl

/-- That a header of a name was seen is never wrong: the line that goes has the name of the one that comes. -/
theorem seen_replaces {f : Flag} (hseen : f = .hasConnection ∨ f = .hasContentLength ∨ f = .hasKeepAlive)
    {old : HeaderLine} (hw : old.Wf) {name : Bytes} (hm : old.matches name = true) (value : Bytes) (b : Nat)
    (l behind : List HeaderLine) : Replaces (HeaderLine.writes f) b l old (headerLine name value) behind := by
  obtain ⟨key, hk, hf⟩ : ∃ key, NUL ∉ key ∧
      ∀ name value, writesFlag name value f = if sameText key name then some 1 else none := by
    rcases hseen with rfl | rfl | rfl
    · exact ⟨ascii "Connection", by decide, fun _ _ => rfl⟩
    · exact ⟨ascii "Content-Length", by decide, fun _ _ => rfl⟩
    · exact ⟨ascii "Keep-Alive", by decide, fun _ _ => rfl⟩
  unfold Replaces
  rw [writes_headerLine, hf]
  split
  · rename_i v heq
    intro w hlast
    obtain ⟨x, -, hx⟩ := List.mem_filterMap.1 (List.mem_of_getLast? hlast)
    rw [HeaderLine.writes, hf] at hx
    split at hx
    · split at heq
      · cases hx
        cases heq
        rfl
      · cases heq
    · cases hx
  · rename_i heq
    refine .inr fun w hold => ?_
    rw [HeaderLine.writes, hf, matches_sameText hw hm hk, heq] at hold
    cases hold

/-- **What one call keeps**: the flags follow the headers exactly when the call may replace the line it replaces. -/
theorem HeaderCall.run_follows {p₀ p : HttpParser} (hw : ∀ h ∈ p.headerList, h.Wf) (h : FlagsFollow p₀ p)
    (u : HeaderCall) : FlagsFollow p₀ (u.run p) ↔ u.MayReplace p₀ p.headerList := by
  cases u with
  | add name value => exact ⟨fun _ => trivial, fun _ => added_follows h name value⟩
  | set name value =>
    rw [run, httpParserSetHeader, MayReplace]
    have hset := setHeaderIn_eq name value p.headerList
    split
    · rename_i hdrop
      rw [hdrop] at hset
      have hadd : setMessageHeader name value p = addMessageHeader name value p := by rw [setMessageHeader, hset]
      rw [hadd]
      exact ⟨fun _ => trivial, fun _ => added_follows h name value⟩
    · rename_i old behind hdrop
      rw [hdrop] at hset
      have hsplit : p.headerList = p.headerList.takeWhile (fun h => !h.matches name) ++ old :: behind := by
        rw [← hdrop, List.takeWhile_append_dropWhile]
      have hold : old.Wf := hw old (by rw [hsplit]; exact List.mem_append_right _ List.mem_cons_self)
      have hm : old.matches name = true := by
        have := List.head?_dropWhile_not (fun h => !h.matches name) p.headerList
        rw [hdrop] at this
        simpa using this
      have hlist : (setMessageHeader name value p).headerList =
          p.headerList.takeWhile (fun h => !h.matches name) ++ old.set name value :: behind := by
        rw [setMessageHeader, hset]
      rw [flagsFollow_iff] at h ⊢
      refine forall_congr' fun f => ?_
      rw [checkMessageHeader_flag, setMessageHeader_flag, HttpMessage.checkMessageHeader_headerList, hlist, h f,
        ← Entries.replaces_iff, ← hsplit, Entries.written_between, Entries.written_between, writes_set hold hm,
        writes_headerLine]

/-! ## Every run -/

theorem headerCalls_wf (isResp : Bool) (memory : HttpParser) (us : List HeaderCall) :
    ∀ h ∈ (headerCalls us (httpParserInit isResp memory)).headerList, h.Wf := by
  induction us using List.reverseRecOn with
  | nil => exact fun _ h => (by cases h)
  | append_singleton us u ih =>
    rw [headerCalls, List.foldl_append]
    cases u with
    | add name value =>
      rw [List.foldl_cons, HeaderCall.run, List.foldl_nil, httpParserAddHeader, HttpMessage.checkMessageHeader_headerList]
      exact HttpMessage.addMessageHeader_wf name value ih
    | set name value =>
      rw [List.foldl_cons, HeaderCall.run, List.foldl_nil, httpParserSetHeader, HttpMessage.checkMessageHeader_headerList]
      exact HttpMessage.setMessageHeader_wf name value ih

/-- **The flags follow the headers as long as every line set may be replaced, and no longer.** -/
theorem header_flags (isResp : Bool) (memory : HttpParser) (us : List HeaderCall) :
    let p₀ := httpParserInit isResp memory
    (∀ vs, vs <+: us → FlagsFollow p₀ (headerCalls vs p₀)) ↔
      ∀ vs u, vs ++ [u] <+: us → u.MayReplace p₀ (headerCalls vs p₀).headerList := by
  intro p₀
  have one (vs : List HeaderCall) (u : HeaderCall) (h : FlagsFollow p₀ (headerCalls vs p₀)) :
      FlagsFollow p₀ (headerCalls (vs ++ [u]) p₀) ↔ u.MayReplace p₀ (headerCalls vs p₀).headerList := by
    rw [headerCalls, List.foldl_append]
    exact u.run_follows (headerCalls_wf isResp memory vs) h
  constructor
  · intro h vs u hpre
    exact (one vs u (h vs ((List.prefix_append vs [u]).trans hpre))).1 (h _ hpre)
  · intro h vs
    induction vs using List.reverseRecOn with
    | nil => exact fun _ _ => rfl
    | append_singleton vs u ih =>
      intro hpre
      exact (one vs u (ih ((List.prefix_append vs [u]).trans hpre))).2 (h vs u hpre)

/-- A keep-alive that went with the header that had ended it does not come back, and of two lengths the one set first
counts, though it is the second that goes out last. -/
theorem header_flags_stale :
    let p₀ := httpParserInit false default
    (let p := headerCalls [.set (ascii "Connection") (ascii "close"), .set (ascii "Connection") (ascii "upgrade")] p₀
     p.headerList.map (fun h => (h.name, h.value)) = [(ascii "Connection", ascii "upgrade")] ∧ p.keepAlive = false ∧
       (checkAll p₀ p.headerList).keepAlive = true ∧ ¬ FlagsFollow p₀ p) ∧
    (let p := headerCalls [.add (ascii "Content-Length") (ascii "1"), .add (ascii "Content-Length") (ascii "2"),
       .set (ascii "content-length") (ascii "3")] p₀
     p.contentLength = 3 ∧ (checkAll p₀ p.headerList).contentLength = 2 ∧ ¬ FlagsFollow p₀ p) := by
  refine ⟨⟨by decide +kernel, by decide +kernel, by decide +kernel, fun h => ?_⟩, by decide +kernel, by decide +kernel,
    fun h => ?_⟩
  · exact absurd (h .keepAlive) (by decide +kernel)
  · exact absurd (h .contentLength) (by decide +kernel)

end Tinywf
