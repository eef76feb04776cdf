import Tinywf.HttpScan
/-!
# HttpResume — the header block does not depend on where the input was cut

The loop of `__parse_message_header` is resumable (`headerPass_resumable`): a pass that did not ask for more makes the
same decision with bytes behind it, and one that asked for more left the parser as it was, but for the name buffer.  It
ends (`parseMessageHeader_run`), stays in the message (`parseMessageHeader_post`), and a block that was stuck ends
beyond the bytes it was stuck in (`parseMessageHeader_beyond`).
-/
namespace Tinywf

open CLib
open Loop (Pass PassRel doWhile Resumable)

/-! ## What a restart may differ in -/

/-- A parser without the buffers that no later step reads: the message (the loops are handed it), its sizes, and the
name, which is written again unless a value is being read. -/
def HttpParser.scrub (p : HttpParser) : HttpParser := { p with namebuf := [], msgbuf := [], msgsize := 0, bufsize := 0 }

def HttpParser.withScratch (p s : HttpParser) : HttpParser :=
  { p with namebuf := s.namebuf, msgbuf := s.msgbuf, msgsize := s.msgsize, bufsize := s.bufsize }

structure ScratchEq (p q : HttpParser) : Prop where
  scrub : p.scrub = q.scrub
  name : p.headerState = .headerValue → p.namebuf = q.namebuf

theorem ScratchEq.refl (p : HttpParser) : ScratchEq p p := ⟨rfl, fun _ => rfl⟩

theorem ScratchEq.state {p q : HttpParser} (h : ScratchEq p q) : p.headerState = q.headerState := by
  have := congrArg HttpParser.headerState h.scrub
  exact this

theorem ScratchEq.offset {p q : HttpParser} (h : ScratchEq p q) : p.headerOffset = q.headerOffset := by
  have := congrArg HttpParser.headerOffset h.scrub
  exact this

theorem ScratchEq.symm {p q : HttpParser} (h : ScratchEq p q) : ScratchEq q p :=
  ⟨h.scrub.symm, fun hs => (h.name (h.state.trans hs)).symm⟩

theorem ScratchEq.trans {p q r : HttpParser} (h : ScratchEq p q) (h' : ScratchEq q r) : ScratchEq p r :=
  ⟨h.scrub.trans h'.scrub, fun hs => (h.name hs).trans (h'.name (h.state.symm.trans hs))⟩

theorem ScratchEq.eq_withScratch {p q : HttpParser} (h : ScratchEq p q) : q = p.withScratch q := by
  have := h.scrub
  cases p; cases q
  simp only [HttpParser.scrub, HttpParser.mk.injEq] at this
  simp only [HttpParser.withScratch, HttpParser.mk.injEq]
  simp_all

/-! ## The sub-parsers of the header block -/

theorem matchRequestLine_withScratch (a b c : Bytes) (p s : HttpParser) :
    matchRequestLine a b c (p.withScratch s) = (matchRequestLine a b c p).withScratch s := by
  unfold matchRequestLine; split <;> rfl

theorem matchStatusLine_withScratch (a b c : Bytes) (p s : HttpParser) :
    matchStatusLine a b c (p.withScratch s) = (matchStatusLine a b c p).withScratch s := by
  unfold matchStatusLine; split <;> split <;> rfl

theorem httpParserAddHeader_withScratch (name value : Bytes) (p s : HttpParser) :
    httpParserAddHeader name value (p.withScratch s) = (httpParserAddHeader name value p).withScratch s := by
  unfold httpParserAddHeader checkMessageHeader
  split <;> repeat' split
  all_goals rfl

theorem matchRequestLine_frame (a b c : Bytes) (p : HttpParser) :
    (matchRequestLine a b c p).headerOffset = p.headerOffset := by
  unfold matchRequestLine; split <;> rfl

theorem matchStatusLine_frame (a b c : Bytes) (p : HttpParser) :
    (matchStatusLine a b c p).headerOffset = p.headerOffset := by
  unfold matchStatusLine; split <;> split <;> rfl

theorem checkMessageHeader_offset (name value : Bytes) (p : HttpParser) :
    (checkMessageHeader name value p).headerOffset = p.headerOffset := by
  unfold checkMessageHeader
  split <;> repeat' split
  all_goals rfl

/-- The parser a start line leaves. -/
def startLineDone (line p1 p2 p3 : Bytes) (p : HttpParser) : HttpParser :=
  let q := if p.isResp then matchStatusLine p1 p2 p3 p else matchRequestLine p1 p2 p3 p
  { q with headerOffset := q.headerOffset + (line.length + 2), headerState := .headerName }

theorem startLineDone_offset (line p1 p2 p3 : Bytes) (p : HttpParser) :
    (startLineDone line p1 p2 p3 p).headerOffset = p.headerOffset + (line.length + 2) := by
  unfold startLineDone
  split
  · simp only [matchStatusLine_frame]
  · simp only [matchRequestLine_frame]

theorem startLineDone_withScratch (line p1 p2 p3 : Bytes) (p s : HttpParser) :
    startLineDone line p1 p2 p3 (p.withScratch s) = (startLineDone line p1 p2 p3 p).withScratch s := by
  unfold startLineDone
  rw [matchStatusLine_withScratch, matchRequestLine_withScratch]
  have : (p.withScratch s).isResp = p.isResp := rfl
  rw [this]
  split <;> rfl

/-- **What `__parse_start_line` can do**: skip an empty line, stop, or take the first line in its three parts. -/
theorem parseStartLine_cases (ptr : Bytes) :
    (startsCRLF ptr = true ∧ ∀ p, parseStartLine ptr p = (.done, { p with headerOffset := p.headerOffset + 2 })) ∨
    (startsCRLF ptr = false ∧ ∃ r, r ≠ .done ∧ r ≠ .fault ∧ ∀ p, parseStartLine ptr p = (r, p)) ∨
    (startsCRLF ptr = false ∧ ∃ line p1 rest p2 p3, lineScan HTTP_START_LINE_MAX (· == NUL) ptr = (.found, line) ∧
      strchr SP line = some (p1, rest) ∧ strchr SP rest = some (p2, p3) ∧
      ∀ p, parseStartLine ptr p = (.done, startLineDone line p1 p2 p3 p)) := by
  unfold parseStartLine
  cases hc : startsCRLF ptr with
  | true => exact .inl ⟨rfl, fun _ => if_pos rfl⟩
  | false =>
    simp only [Bool.false_eq_true, if_false, true_and]
    rcases hl : lineScan HTTP_START_LINE_MAX (· == NUL) ptr with ⟨r, line⟩
    cases r with
    | more => exact .inr (.inl ⟨.more, by simp, by simp, fun _ => rfl⟩)
    | bad => exact .inr (.inl ⟨.bad, by simp, by simp, fun _ => rfl⟩)
    | overrun => exact absurd (by rw [hl]) (lineScan_overrun HTTP_START_LINE_MAX (· == NUL) ptr)
    | found =>
      cases h1 : strchr SP line with
      | none => exact .inr (.inl ⟨.bad, by simp, by simp, fun p => by simp only [h1]⟩)
      | some x =>
        obtain ⟨p1, rest⟩ := x
        cases h2 : strchr SP rest with
        | none => exact .inr (.inl ⟨.bad, by simp, by simp, fun p => by simp only [h1, h2]⟩)
        | some y =>
          obtain ⟨p2, p3⟩ := y
          exact .inr (.inr ⟨line, p1, rest, p2, p3, rfl, h1, h2, fun p => by simp only [h1, h2]; rfl⟩)

theorem parseStartLine_stable {ptr : Bytes} {p : HttpParser} (m : Bytes) (h : (parseStartLine ptr p).1 ≠ .more) :
    parseStartLine (ptr ++ m) p = parseStartLine ptr p := by
  by_cases hc : startsCRLF ptr = true
  · rw [parseStartLine, if_pos (startsCRLF_append m hc), parseStartLine, if_pos hc]
  · have hl : (lineScan HTTP_START_LINE_MAX (· == NUL) ptr).1 ≠ .more := by
      intro hm
      rw [parseStartLine, if_neg hc] at h
      split at h <;> simp_all
    have h2 : startsCRLF (ptr ++ m) = startsCRLF ptr := startsCRLF_stable m (fun hp => by
      rcases hp with rfl | rfl <;> exact absurd rfl hl)
    rw [parseStartLine, h2, lineScan_stable m hl, ← parseStartLine]

theorem parseHeaderName_stable {ptr : Bytes} {p : HttpParser} (m : Bytes) (h : (parseHeaderName ptr p).1 ≠ .more) :
    parseHeaderName (ptr ++ m) p = parseHeaderName ptr p := by
  by_cases hc : startsCRLF ptr = true
  · rw [parseHeaderName, if_pos (startsCRLF_append m hc), parseHeaderName, if_pos hc]
  · have hl : (nameScan ptr).1 ≠ .more := by
      intro hm
      rw [parseHeaderName, if_neg hc] at h
      split at h <;> simp_all
    have h2 : startsCRLF (ptr ++ m) = startsCRLF ptr := startsCRLF_stable m (fun hp => by
      rcases hp with rfl | rfl <;> exact absurd rfl hl)
    rw [parseHeaderName, h2, nameScan_stable m hl, ← parseHeaderName]

theorem parseHeaderValue_stable {ptr : Bytes} {p : HttpParser} (m : Bytes) (h : (parseHeaderValue ptr p).1 ≠ .more) :
    parseHeaderValue (ptr ++ m) p = parseHeaderValue ptr p := by
  have hl : (valueScan [] 0 true ptr).1 ≠ .more := by
    intro hm
    rw [parseHeaderValue] at h
    split at h <;> simp_all
  rw [parseHeaderValue, valueScan_stable m _ _ _ _ hl, ← parseHeaderValue]

/-- **What `__parse_header_name` can do**: end the header block, stop, or take the name before the colon. -/
theorem parseHeaderName_cases (ptr : Bytes) :
    (startsCRLF ptr = true ∧ ∀ p,
      parseHeaderName ptr p = (.done, { p with headerOffset := p.headerOffset + 2, headerState := .headerComplete })) ∨
    (startsCRLF ptr = false ∧ ∃ r name, r ≠ .done ∧ r ≠ .fault ∧
      ∀ p, parseHeaderName ptr p = (r, { p with namebuf := name })) ∨
    (startsCRLF ptr = false ∧ ∃ name, nameScan ptr = (.found, name) ∧ ∀ p,
      parseHeaderName ptr p = (.done, { p with namebuf := name, headerOffset := p.headerOffset + (name.length + 1),
                                               headerState := .headerValue })) := by
  unfold parseHeaderName
  cases hc : startsCRLF ptr with
  | true => exact .inl ⟨rfl, fun _ => if_pos rfl⟩
  | false =>
    simp only [Bool.false_eq_true, if_false, true_and]
    rcases hl : nameScan ptr with ⟨r, name⟩
    cases r with
    | more => exact .inr (.inl ⟨.more, name, by simp, by simp, fun _ => rfl⟩)
    | bad => exact .inr (.inl ⟨.bad, name, by simp, by simp, fun _ => rfl⟩)
    | overrun => exact absurd (by rw [hl]) (nameScan_overrun ptr)
    | found => exact .inr (.inr ⟨name, rfl, fun _ => rfl⟩)

/-- The parser a header value leaves. -/
def headerValueDone (value : Bytes) (n : Nat) (p : HttpParser) : HttpParser :=
  let q := httpParserAddHeader (cstr p.namebuf) value p
  { q with headerOffset := q.headerOffset + n, headerState := .headerName }

theorem headerValueDone_offset (value : Bytes) (n : Nat) (p : HttpParser) :
    (headerValueDone value n p).headerOffset = p.headerOffset + n := by
  simp only [headerValueDone, httpParserAddHeader, checkMessageHeader_offset, addMessageHeader]

/-- **What `__parse_header_value` can do**: stop, or store a header line. -/
theorem parseHeaderValue_cases (ptr : Bytes) :
    (∃ r, r ≠ .done ∧ r ≠ .fault ∧ ∀ p, parseHeaderValue ptr p = (r, p)) ∨
    (∃ value n, valueScan [] 0 true ptr = (.found, value, n) ∧
      ∀ p, parseHeaderValue ptr p = (.done, headerValueDone value n p)) := by
  unfold parseHeaderValue
  rcases hl : valueScan [] 0 true ptr with ⟨r, value, n⟩
  cases r with
  | more => exact .inl ⟨.more, by simp, by simp, fun _ => rfl⟩
  | bad => exact .inl ⟨.bad, by simp, by simp, fun _ => rfl⟩
  | overrun => exact absurd (by rw [hl]) (valueScan_overrun [] 0 true ptr (by simp))
  | found => exact .inr ⟨value, n, rfl, fun _ => rfl⟩

/-! ## One pass over the header block -/

/-- A parser at work on the header block of a message: the saved offset lies in it. -/
structure InHeader (l : Bytes) (p : HttpParser) : Prop where
  le : p.headerOffset ≤ l.length
  open_ : p.headerState ≠ .headerComplete

/-- How the loop goes on after a sub-parser's result. -/
def passOf (r : Ret × HttpParser) : Pass HttpParser Ret := if r.1 = .done then .again r.2 else .exit r.1 r.2

theorem headerPass_startLine {l : Bytes} {p : HttpParser} (hi : InHeader l p) (hs : p.headerState = .startLine) :
    headerPass l p = passOf (parseStartLine (l.drop p.headerOffset) p) := by
  have := hi.le
  simp [headerPass, passOf, hs, show ¬ l.length < p.headerOffset by omega]

theorem headerPass_value {l : Bytes} {p : HttpParser} (hi : InHeader l p) (hs : p.headerState = .headerValue) :
    headerPass l p = passOf (parseHeaderValue (l.drop p.headerOffset) p) := by
  have := hi.le
  simp [headerPass, passOf, hs, show ¬ l.length < p.headerOffset by omega]

theorem headerPass_name {l : Bytes} {p : HttpParser} (hi : InHeader l p) (hs : p.headerState = .headerName) :
    headerPass l p = if (parseHeaderName (l.drop p.headerOffset) p).2.headerState = .headerComplete then
        .exit .done (parseHeaderName (l.drop p.headerOffset) p).2
      else passOf (parseHeaderName (l.drop p.headerOffset) p) := by
  have := hi.le
  simp [headerPass, passOf, hs, show ¬ l.length < p.headerOffset by omega]

theorem InHeader.cases {l : Bytes} {p : HttpParser} (hi : InHeader l p) :
    p.headerState = .startLine ∨ p.headerState = .headerValue ∨ p.headerState = .headerName := by
  have := hi.open_
  cases hs : p.headerState <;> simp_all

/-- **What one pass can do**: go on with a sub-parser's result, end the header block, or stop with the parser as it
was. -/
theorem headerPass_cases {l : Bytes} {p : HttpParser} (hi : InHeader l p) :
    (∃ q, headerPass l p = .again q ∧ p.headerOffset < q.headerOffset ∧ InHeader l q) ∨
    (p.headerState = .headerName ∧ p.headerOffset + 2 ≤ l.length ∧
      headerPass l p = .exit .done { p with headerOffset := p.headerOffset + 2, headerState := .headerComplete }) ∨
    (∃ r q, r ≠ .done ∧ r ≠ .fault ∧ headerPass l p = .exit r q ∧ ScratchEq p q) := by
  have hle := hi.le
  have hlen : (l.drop p.headerOffset).length = l.length - p.headerOffset := List.length_drop
  rcases hi.cases with hs | hs | hs
  · rw [headerPass_startLine hi hs]
    rcases parseStartLine_cases (l.drop p.headerOffset) with
      ⟨hc, h⟩ | ⟨-, r, hr, hf, h⟩ | ⟨-, line, p1, rest, p2, p3, hl, -, -, h⟩
    · obtain ⟨t, ht⟩ := startsCRLF_iff.1 hc
      rw [ht] at hlen
      simp only [List.length_cons] at hlen
      rw [h]
      exact .inl ⟨_, rfl, by simp, ⟨by simp only; omega, by simp [hs]⟩⟩
    · rw [h, passOf, if_neg hr]
      exact .inr (.inr ⟨r, p, hr, hf, rfl, ScratchEq.refl p⟩)
    · obtain ⟨⟨t, ht⟩, -, -⟩ := lineScan_found.1 hl
      rw [ht] at hlen
      simp only [List.length_append, List.length_cons] at hlen
      rw [h]
      refine .inl ⟨_, rfl, ?_, ⟨?_, by simp [startLineDone]⟩⟩
      · rw [startLineDone_offset]; omega
      · rw [startLineDone_offset]; omega
  · rw [headerPass_value hi hs]
    rcases parseHeaderValue_cases (l.drop p.headerOffset) with ⟨r, hr, hf, h⟩ | ⟨value, n, hl, h⟩
    · rw [h, passOf, if_neg hr]
      exact .inr (.inr ⟨r, p, hr, hf, rfl, ScratchEq.refl p⟩)
    · have hb := valueScan_bounds hl
      rw [h]
      refine .inl ⟨_, rfl, ?_, ⟨?_, by simp [headerValueDone]⟩⟩
      · rw [headerValueDone_offset]; omega
      · rw [headerValueDone_offset]; omega
  · rw [headerPass_name hi hs]
    rcases parseHeaderName_cases (l.drop p.headerOffset) with ⟨hc, h⟩ | ⟨-, r, name, hr, hf, h⟩ | ⟨-, name, hl, h⟩
    · obtain ⟨t, ht⟩ := startsCRLF_iff.1 hc
      rw [ht] at hlen
      simp only [List.length_cons] at hlen
      rw [h, if_pos rfl]
      exact .inr (.inl ⟨hs, by omega, rfl⟩)
    · rw [h, if_neg (by simp [hs]), passOf, if_neg hr]
      exact .inr (.inr ⟨r, _, hr, hf, rfl, ⟨rfl, by simp [hs]⟩⟩)
    · obtain ⟨⟨t, ht⟩, -, -⟩ := nameScan_found.1 hl
      rw [ht] at hlen
      simp only [List.length_append, List.length_cons] at hlen
      rw [h, if_neg (by simp)]
      exact .inl ⟨_, rfl, by simp, ⟨by simp only; omega, by simp⟩⟩

theorem InHeader.grow {l : Bytes} {p : HttpParser} (m : Bytes) (hi : InHeader l p) : InHeader (l ++ m) p :=
  ⟨by have := hi.le; rw [List.length_append]; omega, hi.open_⟩

theorem InHeader.respects {l : Bytes} {p q : HttpParser} (h : ScratchEq p q) (hi : InHeader l p) : InHeader l q :=
  ⟨h.offset ▸ hi.le, h.state ▸ hi.open_⟩

theorem drop_append_le {l : Bytes} {n : Nat} (m : Bytes) (h : n ≤ l.length) : (l ++ m).drop n = l.drop n ++ m :=
  List.drop_append_of_le_length h

theorem passOf_more {r : Ret × HttpParser} (h : ∀ q, passOf r ≠ .exit .more q) : r.1 ≠ .more := by
  intro hr
  refine h r.2 ?_
  rw [passOf, hr, if_neg (by simp)]

/-- **A pass that did not ask for more does the same with more.** -/
theorem headerPass_stable {l : Bytes} {p : HttpParser} (m : Bytes) (hi : InHeader l p)
    (h : ∀ q, headerPass l p ≠ .exit .more q) : headerPass (l ++ m) p = headerPass l p := by
  rcases hi.cases with hs | hs | hs
  · rw [headerPass_startLine hi hs] at h ⊢
    rw [headerPass_startLine (hi.grow m) hs, drop_append_le m hi.le, parseStartLine_stable m (passOf_more h)]
  · rw [headerPass_value hi hs] at h ⊢
    rw [headerPass_value (hi.grow m) hs, drop_append_le m hi.le, parseHeaderValue_stable m (passOf_more h)]
  · rw [headerPass_name hi hs] at h ⊢
    have hm : (parseHeaderName (l.drop p.headerOffset) p).1 ≠ .more := by
      split at h
      · rename_i hc
        intro hr
        rcases parseHeaderName_cases (l.drop p.headerOffset) with ⟨-, h'⟩ | ⟨-, r, name, -, -, h'⟩ | ⟨-, name, -, h'⟩
        · rw [h'] at hr; cases hr
        · rw [h'] at hc; simp [hs] at hc
        · rw [h'] at hr; cases hr
      · exact passOf_more h
    rw [headerPass_name (hi.grow m) hs, drop_append_le m hi.le, parseHeaderName_stable m hm]

theorem passOf_congr {R : HttpParser → HttpParser → Prop} {r s : Ret × HttpParser} (h1 : r.1 = s.1) (h2 : R r.2 s.2) :
    PassRel R (passOf r) (passOf s) := by
  unfold passOf
  rw [← h1]
  split
  · exact .again h2
  · exact .exit h2

theorem headerValueDone_withScratch {p s : HttpParser} (value : Bytes) (n : Nat) (h : p.namebuf = s.namebuf) :
    headerValueDone value n (p.withScratch s) = (headerValueDone value n p).withScratch s := by
  unfold headerValueDone
  rw [httpParserAddHeader_withScratch, show (p.withScratch s).namebuf = p.namebuf from h.symm]
  rfl

/-- **A pass does not read the scratch.** -/
theorem headerPass_congr {l : Bytes} {p q : HttpParser} (h : ScratchEq p q) (hi : InHeader l p) :
    PassRel ScratchEq (headerPass l p) (headerPass l q) := by
  have hq := hi.respects h
  have hoff := h.offset.symm
  rcases hi.cases with hs | hs | hs
  · have hs' : (p.withScratch q).headerState = .startLine := hs
    rw [headerPass_startLine hi hs, headerPass_startLine hq (h.state ▸ hs), hoff, h.eq_withScratch]
    rcases parseStartLine_cases (l.drop p.headerOffset) with ⟨-, h1⟩ | ⟨-, r, -, -, h1⟩ | ⟨-, line, p1, _, p2, p3, -, -, -, h1⟩
    · rw [h1, h1]
      exact passOf_congr rfl ⟨rfl, by simp [hs]⟩
    · rw [h1, h1]
      exact passOf_congr rfl ⟨rfl, by simp [hs]⟩
    · rw [h1, h1, startLineDone_withScratch]
      exact passOf_congr rfl ⟨rfl, by simp [startLineDone]⟩
  · have hn := h.name hs
    rw [headerPass_value hi hs, headerPass_value hq (h.state ▸ hs), hoff, h.eq_withScratch]
    rcases parseHeaderValue_cases (l.drop p.headerOffset) with ⟨r, -, -, h1⟩ | ⟨value, n, -, h1⟩
    · rw [h1, h1]
      exact passOf_congr rfl ⟨rfl, fun _ => hn⟩
    · rw [h1, h1, headerValueDone_withScratch value n hn]
      exact passOf_congr rfl ⟨rfl, by simp [headerValueDone]⟩
  · have hs' : (p.withScratch q).headerState = .headerName := hs
    rw [headerPass_name hi hs, headerPass_name hq (h.state ▸ hs), hoff, h.eq_withScratch]
    rcases parseHeaderName_cases (l.drop p.headerOffset) with ⟨-, h1⟩ | ⟨-, r, name, -, -, h1⟩ | ⟨-, name, -, h1⟩
    · rw [h1, h1, if_pos rfl, if_pos rfl]
      exact .exit ⟨rfl, by simp⟩
    · rw [h1, h1, if_neg (by simp [hs]), if_neg (by simp [hs'])]
      exact passOf_congr rfl ⟨rfl, fun _ => rfl⟩
    · rw [h1, h1, if_neg (by simp), if_neg (by simp)]
      exact passOf_congr rfl ⟨rfl, fun _ => rfl⟩

theorem headerPass_resumable : Resumable headerPass .more .done ScratchEq InHeader where
  more_ne := by simp
  refl := ScratchEq.refl
  grow := fun m hi => hi.grow m
  respects := fun h hi => hi.respects h
  congr := headerPass_congr
  keeps := fun {l s s'} hi h => by
    rcases headerPass_cases hi with ⟨q, hq, -, hi'⟩ | ⟨-, -, hq⟩ | ⟨r, q, -, -, hq, -⟩
    · rw [h] at hq; cases hq; exact hi'
    · rw [h] at hq; cases hq
    · rw [h] at hq; cases hq
  again := fun m hi h => by
    rw [← h]
    exact headerPass_stable m hi (fun q hq => by rw [h] at hq; cases hq)
  exit := fun m hi h hr => by
    rw [← h]
    exact headerPass_stable m hi (fun q hq => by rw [h] at hq; cases hq; exact hr rfl)
  frozen := fun {l s r s'} hi h hr => by
    rcases headerPass_cases hi with ⟨q, hq, -, -⟩ | ⟨-, -, hq⟩ | ⟨r', q, -, -, hq, hR⟩
    · rw [h] at hq; cases hq
    · rw [h] at hq; cases hq; exact absurd rfl hr
    · rw [h] at hq; cases hq; exact hR

/-- An empty line that was not there yet ends beyond the bytes that were. -/
theorem startsCRLF_beyond {l m : Bytes} (h : startsCRLF l = false) (h' : startsCRLF (l ++ m) = true) : l.length < 2 := by
  by_contra hlt
  rw [startsCRLF_stable m (fun hc => by rcases hc with rfl | rfl <;> simp at hlt), h] at h'
  cases h'

theorem parseStartLine_beyond {ptr m : Bytes} {p q : HttpParser} (h : (parseStartLine ptr p).1 = .more)
    (hd : parseStartLine (ptr ++ m) p = (.done, q)) : p.headerOffset + ptr.length ≤ q.headerOffset := by
  rcases parseStartLine_cases (ptr ++ m) with ⟨hc, h1⟩ | ⟨-, r, hr, -, h1⟩ | ⟨hc, line, p1, rest, p2, p3, hf, hs, hs', h1⟩
  · rw [h1] at hd
    cases hd
    have hc' : startsCRLF ptr = false := by
      rw [← Bool.not_eq_true]
      intro hc'
      rw [parseStartLine, if_pos hc'] at h
      cases h
    have := startsCRLF_beyond hc' hc
    simp only; omega
  · rw [h1] at hd
    cases hd
    exact absurd rfl hr
  · rw [h1] at hd
    cases hd
    rw [startLineDone_offset]
    rcases hl : lineScan HTTP_START_LINE_MAX (· == NUL) ptr with ⟨r, line'⟩
    by_cases hr : r = .more
    · subst hr
      have := lineScan_beyond hl hf
      omega
    · -- the line was there already: then it was taken, and did not ask for more
      rw [lineScan_stable m (by rw [hl]; exact hr)] at hf
      rw [parseStartLine] at h
      split at h
      · cases h
      · simp only [hf, hs, hs'] at h
        cases h

theorem parseHeaderName_beyond {ptr m : Bytes} {p q : HttpParser} (h : (parseHeaderName ptr p).1 = .more)
    (hd : parseHeaderName (ptr ++ m) p = (.done, q)) :
    p.headerOffset + ptr.length ≤ q.headerOffset ∧
      (q.headerState = .headerComplete → p.headerOffset + ptr.length < q.headerOffset) := by
  have hcr : startsCRLF ptr = false := by
    rw [← Bool.not_eq_true]
    intro hc'
    rw [parseHeaderName, if_pos hc'] at h
    cases h
  rcases parseHeaderName_cases (ptr ++ m) with ⟨hc, h1⟩ | ⟨-, r, name, hr, -, h1⟩ | ⟨-, name, hf, h1⟩
  · rw [h1] at hd
    cases hd
    have := startsCRLF_beyond hcr hc
    exact ⟨by simp only; omega, fun _ => by simp only; omega⟩
  · rw [h1] at hd
    cases hd
    exact absurd rfl hr
  · rw [h1] at hd
    cases hd
    refine ⟨?_, fun hc => by cases hc⟩
    rcases hl : nameScan ptr with ⟨r, name'⟩
    by_cases hr : r = .more
    · subst hr
      have := nameScan_beyond hl hf
      simp only; omega
    · rw [parseHeaderName, hcr, hl] at h
      cases r <;> first | exact absurd rfl hr | cases h

theorem parseHeaderValue_beyond {ptr m : Bytes} {p q : HttpParser} (h : (parseHeaderValue ptr p).1 = .more)
    (hd : parseHeaderValue (ptr ++ m) p = (.done, q)) : p.headerOffset + ptr.length ≤ q.headerOffset := by
  rcases parseHeaderValue_cases (ptr ++ m) with ⟨r, hr, -, h1⟩ | ⟨value, n, hf, h1⟩
  · rw [h1] at hd
    cases hd
    exact absurd rfl hr
  · rw [h1] at hd
    cases hd
    rw [headerValueDone_offset]
    rcases hl : valueScan [] 0 true ptr with ⟨r, v', k⟩
    by_cases hr : r = .more
    · subst hr
      have := valueScan_beyond hl hf
      omega
    · rw [parseHeaderValue, hl] at h
      cases r <;> first | exact absurd rfl hr | cases h

theorem passOf_again {r : Ret × HttpParser} {q : HttpParser} : passOf r = .again q ↔ r = (.done, q) := by
  rcases r with ⟨r, s⟩
  by_cases hr : r = .done <;> simp [passOf, hr]

theorem passOf_exit {r : Ret × HttpParser} {x : Ret} {q : HttpParser} :
    passOf r = .exit x q ↔ r = (x, q) ∧ x ≠ .done := by
  rcases r with ⟨r, s⟩
  by_cases hr : r = .done
  · simp [passOf, hr]
    rintro rfl -
    rfl
  · simp [passOf, hr]
    rintro rfl rfl
    exact hr

/-- **What a pass could not do for want of bytes lies beyond them.** -/
theorem headerPass_beyond {l m : Bytes} {p x : HttpParser} (hi : InHeader l p) (h : headerPass l p = .exit .more x) :
    (∀ q, headerPass (l ++ m) p = .again q → l.length ≤ q.headerOffset) ∧
    (∀ q, headerPass (l ++ m) p = .exit .done q → l.length < q.headerOffset) := by
  have hle := hi.le
  have hlen : (l.drop p.headerOffset).length = l.length - p.headerOffset := List.length_drop
  rcases hi.cases with hs | hs | hs
  · rw [headerPass_startLine hi hs] at h
    rw [headerPass_startLine (hi.grow m) hs, drop_append_le m hi.le]
    refine ⟨fun q hq => ?_, fun q hq => absurd rfl (passOf_exit.1 hq).2⟩
    have := parseStartLine_beyond (by rw [(passOf_exit.1 h).1]) (passOf_again.1 hq)
    omega
  · rw [headerPass_value hi hs] at h
    rw [headerPass_value (hi.grow m) hs, drop_append_le m hi.le]
    refine ⟨fun q hq => ?_, fun q hq => absurd rfl (passOf_exit.1 hq).2⟩
    have := parseHeaderValue_beyond (by rw [(passOf_exit.1 h).1]) (passOf_again.1 hq)
    omega
  · rw [headerPass_name hi hs] at h
    rw [headerPass_name (hi.grow m) hs, drop_append_le m hi.le]
    have hm : (parseHeaderName (l.drop p.headerOffset) p).1 = .more := by
      split at h
      · cases h
      · rw [(passOf_exit.1 h).1]
    refine ⟨fun q hq => ?_, fun q hq => ?_⟩
    · split at hq
      · cases hq
      · have := (parseHeaderName_beyond hm (passOf_again.1 hq)).1
        omega
    · split at hq
      · rename_i hc
        cases hq
        rcases parseHeaderName_cases (l.drop p.headerOffset ++ m) with ⟨-, h1⟩ | ⟨-, r, name, -, -, h1⟩ | ⟨-, name, -, h1⟩
        · have := (parseHeaderName_beyond hm (h1 p)).2 rfl
          rw [h1]
          simp only at this ⊢; omega
        · rw [h1] at hc; simp [hs] at hc
        · rw [h1] at hc; cases hc
      · exact absurd rfl (passOf_exit.1 hq).2

/-! ## The header block -/

/-- A pass that asks for another has fewer bytes left. -/
theorem headerPass_decreases {l : Bytes} {s s' : HttpParser} (hi : InHeader l s) (h : headerPass l s = .again s') :
    InHeader l s' ∧ l.length - s'.headerOffset < l.length - s.headerOffset := by
  rcases headerPass_cases hi with ⟨q, hq, hlt, hi'⟩ | ⟨-, -, hq⟩ | ⟨r, q, -, -, hq, -⟩
  · rw [h] at hq
    cases hq
    have := hi'.le
    exact ⟨hi', by omega⟩
  · rw [h] at hq; cases hq
  · rw [h] at hq; cases hq

/-- **`__parse_message_header` ends**: its loop reaches an exit within its fuel, and never leaves the message. -/
theorem parseMessageHeader_run {l : Bytes} {p : HttpParser} (hi : InHeader l p) :
    doWhile (headerPass l) (l.length + 1) p = some (parseMessageHeader l p) := by
  obtain ⟨x, hx⟩ := Loop.doWhile_total (InHeader l) (fun q => l.length - q.headerOffset)
    (fun _ _ => headerPass_decreases) (l.length + 1) p hi (by omega)
  rw [parseMessageHeader, hx]
  rfl

/-- What `__parse_message_header` returns with: the block complete two bytes or more further on, or stuck in it. -/
theorem parseMessageHeader_post {l : Bytes} {p q : HttpParser} {r : Ret} (hi : InHeader l p)
    (h : parseMessageHeader l p = (r, q)) :
    r ≠ .fault ∧ p.headerOffset ≤ q.headerOffset ∧ q.headerOffset ≤ l.length ∧
      (r = .done → q.headerState = .headerComplete ∧ p.headerOffset + 2 ≤ q.headerOffset) ∧
      (r ≠ .done → InHeader l q) := by
  have hrun := parseMessageHeader_run hi
  rw [h] at hrun
  refine Loop.doWhile_post (fun s => InHeader l s ∧ p.headerOffset ≤ s.headerOffset)
    (fun r q => r ≠ .fault ∧ p.headerOffset ≤ q.headerOffset ∧ q.headerOffset ≤ l.length ∧
      (r = .done → q.headerState = .headerComplete ∧ p.headerOffset + 2 ≤ q.headerOffset) ∧
      (r ≠ .done → InHeader l q)) ?_ ?_ ⟨hi, Nat.le_refl _⟩ hrun
  · rintro s s' ⟨hs, hps⟩ hb
    rcases headerPass_cases hs with ⟨q, hq, hlt, hi'⟩ | ⟨-, -, hq⟩ | ⟨r, q, -, -, hq, -⟩
    · rw [hb] at hq; cases hq; exact ⟨hi', by omega⟩
    · rw [hb] at hq; cases hq
    · rw [hb] at hq; cases hq
  · rintro s r s' ⟨hs, hps⟩ hb
    rcases headerPass_cases hs with ⟨q, hq, -, -⟩ | ⟨-, hle, hq⟩ | ⟨r', q, hr, hf, hq, hR⟩
    · rw [hb] at hq; cases hq
    · rw [hb] at hq
      cases hq
      exact ⟨by simp, by simp only; omega, hle, fun _ => ⟨rfl, by simp only; omega⟩, fun h => absurd rfl h⟩
    · rw [hb] at hq
      cases hq
      have hoff := hR.offset
      have := hs.le
      exact ⟨hf, by omega, by omega, fun h => absurd h hr, fun _ => hs.respects hR⟩

/-- A header block that did not ask for more ends the same with more. -/
theorem parseMessageHeader_stable {l : Bytes} {p q : HttpParser} {r : Ret} (m : Bytes) (hi : InHeader l p)
    (h : parseMessageHeader l p = (r, q)) (hr : r ≠ .more) : parseMessageHeader (l ++ m) p = (r, q) := by
  have hrun := parseMessageHeader_run hi
  rw [h] at hrun
  exact Loop.doWhile_unique (parseMessageHeader_run (hi.grow m)) (headerPass_resumable.doWhile_stable m hi hrun hr)

/-- **A header block that asked for more, entered again with more, is the header block of the whole.** -/
theorem parseMessageHeader_resume {l : Bytes} {p s : HttpParser} (m : Bytes) (hi : InHeader l p)
    (h : parseMessageHeader l p = (.more, s)) :
    (parseMessageHeader (l ++ m) s).1 = (parseMessageHeader (l ++ m) p).1 ∧
      ScratchEq (parseMessageHeader (l ++ m) p).2 (parseMessageHeader (l ++ m) s).2 := by
  have hrun := parseMessageHeader_run hi
  rw [h] at hrun
  have his := (headerPass_resumable.stalled hi hrun (by simp)).1
  obtain ⟨t, hR, ht⟩ := headerPass_resumable.resume m hi hrun (parseMessageHeader_run (hi.grow m))
  rw [Loop.doWhile_unique (parseMessageHeader_run (his.grow m)) ht]
  exact ⟨rfl, hR⟩

theorem parseMessageHeader_congr {l : Bytes} {p q : HttpParser} (h : ScratchEq p q) (hi : InHeader l p) :
    (parseMessageHeader l q).1 = (parseMessageHeader l p).1 ∧
      ScratchEq (parseMessageHeader l p).2 (parseMessageHeader l q).2 := by
  obtain ⟨t, hR, ht⟩ := headerPass_resumable.doWhile_congr h hi (parseMessageHeader_run hi)
  rw [Loop.doWhile_unique (parseMessageHeader_run (hi.respects h)) ht]
  exact ⟨rfl, hR⟩

/-- **A header block that was stuck in a message ends beyond it.** -/
theorem parseMessageHeader_beyond {l m : Bytes} {p x q : HttpParser} {r : Ret} (hi : InHeader l p)
    (h : headerPass l p = .exit r x) (hr : r ≠ .done) (hd : parseMessageHeader (l ++ m) p = (.done, q)) :
    l.length < q.headerOffset := by
  have hrun := parseMessageHeader_run (hi.grow m)
  rw [hd] at hrun
  have hm : r = .more := by
    by_contra hm
    have hst := headerPass_stable m hi (fun q hq => by rw [h] at hq; cases hq; exact hm rfl)
    rw [h] at hst
    rw [Loop.doWhile_exit hst] at hrun
    cases hrun
    exact hr rfl
  subst hm
  obtain ⟨hb1, hb2⟩ := headerPass_beyond (m := m) hi h
  rcases headerPass_cases (hi.grow m) with ⟨u, hu, -, hi'⟩ | ⟨-, -, hu⟩ | ⟨r', u, hr', -, hu, -⟩
  · rw [Loop.doWhile_again hu] at hrun
    have hu' := Loop.doWhile_unique hrun (parseMessageHeader_run hi')
    have hpost := parseMessageHeader_post hi' hu'.symm
    have := hb1 u hu
    have := (hpost.2.2.2.1 rfl).2
    omega
  · rw [Loop.doWhile_exit hu] at hrun
    cases hrun
    exact hb2 _ hu
  · rw [Loop.doWhile_exit hu] at hrun
    cases hrun
    exact absurd rfl hr'

end Tinywf
