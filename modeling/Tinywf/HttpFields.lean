import Tinywf.HttpFeed
import Tinywf.HttpValue
/-!
# HttpFields — the header fields a parser stores

`HeaderRule` is the induction rule of the header block: what its four writing steps keep holds of every parser that any
sequence of calls reaches (`HeaderRule.feed`).  With it, what is stored (`stored_fields`), and that a stored line sent
on is read back as one field (`field_again`).
-/
namespace Tinywf

open CLib
open Loop (Pass doWhile)

/-! ## The induction rule of the header block -/

/-- A name as `__parse_header_name` leaves it. -/
structure NameOk (name : Bytes) : Prop where
  bytes : ∀ b ∈ name, b ≠ COLON ∧ nonPos b = false
  length : name.length < HTTP_HEADER_NAME_MAX
  notEmptyLine : startsCRLF (name ++ [COLON]) = false

/-- What the steps over a header block keep, when they may rely on the name and the value just read. -/
structure HeaderRule (I : HttpParser → Prop) : Prop where
  emptyLine : ∀ {p} n, p.headerState = .startLine → I p → I { p with headerOffset := n }
  startLine : ∀ {p} line p1 p2 p3, p.headerState = .startLine → I p → I (startLineDone line p1 p2 p3 p)
  partName : ∀ {p} name, p.headerState = .headerName → I p → I { p with namebuf := name }
  name : ∀ {p} name n, NameOk name → p.headerState = .headerName → I p →
    I { p with namebuf := name, headerOffset := n, headerState := .headerValue }
  value : ∀ {p} value n, ValueOk value → p.headerState = .headerValue → I p → I (headerValueDone value n p)
  complete : ∀ {p} n, p.headerState = .headerName → I p → I { p with headerOffset := n, headerState := .headerComplete }

theorem nameOk_of_scan {ptr name : Bytes} (hc : startsCRLF ptr = false) (hf : nameScan ptr = (.found, name)) :
    NameOk name := by
  obtain ⟨⟨rest, rfl⟩, hb, hl⟩ := nameScan_found.1 hf
  refine ⟨hb, hl, ?_⟩
  rw [← hc]
  rcases name with _ | ⟨a, _ | ⟨b, t⟩⟩
  · cases rest <;> rfl
  · rfl
  · rfl

namespace HeaderRule

variable {I : HttpParser → Prop}

theorem pass (hI : HeaderRule I) {l : Bytes} {p : HttpParser} (hi : InHeader l p) (hp : I p) :
    I (headerPass l p).state := by
  have hpass (r : Ret × HttpParser) (h : I r.2) : I (passOf r).state := by
    unfold passOf
    split <;> exact h
  rcases hi.cases with hs | hs | hs
  · rw [headerPass_startLine hi hs]
    refine hpass _ ?_
    rcases parseStartLine_cases (l.drop p.headerOffset) with ⟨-, h⟩ | ⟨-, r, -, -, h⟩ | ⟨-, line, p1, _, p2, p3, -, -, -, h⟩
    · rw [h]; exact hI.emptyLine _ hs hp
    · rw [h]; exact hp
    · rw [h]; exact hI.startLine line p1 p2 p3 hs hp
  · rw [headerPass_value hi hs]
    refine hpass _ ?_
    rcases parseHeaderValue_cases (l.drop p.headerOffset) with ⟨r, -, -, h⟩ | ⟨value, n, hf, h⟩
    · rw [h]; exact hp
    · rw [h]
      exact hI.value value n (valueScan_value ⟨by simp, .inr ⟨rfl, .inl rfl⟩⟩ hf) hs hp
  · rw [headerPass_name hi hs]
    have h : I (parseHeaderName (l.drop p.headerOffset) p).2 := by
      rcases parseHeaderName_cases (l.drop p.headerOffset) with ⟨-, h⟩ | ⟨-, r, name, -, -, h⟩ | ⟨hc, name, hf, h⟩
      · rw [h]; exact hI.complete _ hs hp
      · rw [h]; exact hI.partName name hs hp
      · rw [h]; exact hI.name name _ (nameOk_of_scan hc hf) hs hp
    split
    · exact h
    · exact hpass _ h

/-- **What the steps keep, the header block keeps.** -/
theorem run (hI : HeaderRule I) {l : Bytes} {p q : HttpParser} {r : Ret} (hi : InHeader l p) (hp : I p)
    (h : parseMessageHeader l p = (r, q)) : I q := by
  have hrun := parseMessageHeader_run hi
  rw [h] at hrun
  refine Loop.doWhile_post (fun s => InHeader l s ∧ I s) (fun _ s => I s) (fun s s' hs hb => ?_)
    (fun s r s' hs hb => ?_) ⟨hi, hp⟩ hrun
  · have := hI.pass hs.1 hs.2
    rw [hb] at this
    exact ⟨(headerPass_decreases hs.1 hb).1, this⟩
  · have := hI.pass hs.1 hs.2
    rwa [hb] at this

end HeaderRule

/-- How a call on an open header block ends: in the block, or in the body that the block sets up. -/
theorem parseMessage_open {l : Bytes} {p s : HttpParser} {r : Ret} (hi : InHeader l p) (h : parseMessage l p = (r, s)) :
    (r ≠ .done ∧ parseMessageHeader l p = (r, s)) ∨
    (∃ u, parseMessageHeader l p = (.done, u) ∧ Ready l (startBody u) ∧ u.headerState = .headerComplete ∧
      finishBody l (startBody u) = (r, s)) := by
  rw [parseMessage_eq, finishHeader_open hi.open_] at h
  rcases hq : parseMessageHeader l p with ⟨r', u⟩
  rw [hq] at h
  obtain ⟨-, -, hle, hdone, -⟩ := parseMessageHeader_post hi hq
  by_cases hd : r' = .done
  · subst hd
    exact .inr ⟨u, rfl, startBody_ready hle, (hdone rfl).1, h⟩
  · rw [onDone_onDone_eq hd] at h
    cases h
    exact .inl ⟨hd, rfl⟩

/-- A sequence of calls on a fresh parser, as one run on all the bytes. -/
theorem feed_fresh {p s : HttpParser} {isResp zeroBody : Bool} {frags : List Bytes} {r : Ret} {n : Nat}
    (h : feed frags (fresh isResp zeroBody p) = (r, n, s)) :
    InHeader frags.flatten (fresh isResp zeroBody p) ∧
      ∃ t, parseMessage frags.flatten (fresh isResp zeroBody p) = (r, t) ∧ ScratchEq t s ∧
        (r = .done → t.msgsize = s.msgsize) := by
  have hf := fresh_follows isResp zeroBody p
  obtain ⟨k, hk⟩ := fresh_eq isResp zeroBody p
  obtain ⟨hs, -, -, hdone⟩ := feed_run frags hf h
  simp only [List.nil_append, List.length_nil] at hs hdone
  rcases ht : parseMessage frags.flatten (fresh isResp zeroBody p) with ⟨r', t⟩
  rw [ht] at hs
  obtain ⟨hr, hst⟩ := hs
  simp only at hr hst
  subst hr
  have hready : Ready frags.flatten (fresh isResp zeroBody p) := hf.ready.grow frags.flatten
  refine ⟨⟨hready.offset, by rw [hk]; simp [httpParserInit]⟩, t, rfl, hst, fun hd => ?_⟩
  rw [((parseMessage_post hready ht).2.1 hd).total, (hdone hd).1.total, hst.total]

/-- The body leaves the header lines alone. -/
theorem finishBody_headerList {l : Bytes} {u s : HttpParser} {r : Ret} (hi : Ready l (startBody u))
    (hs : u.headerState = .headerComplete) (h : finishBody l (startBody u) = (r, s)) : s.headerList = u.headerList := by
  obtain ⟨cs, n, k, b, hshape⟩ := finishBody_shape hi ((startBody_state u).1.trans hs)
  rw [h] at hshape
  rw [show s = _ from hshape]
  unfold startBody
  split
  · rfl
  · split <;> rfl

theorem ScratchEq.headerList {p q : HttpParser} (h : ScratchEq p q) : p.headerList = q.headerList := by
  have := congrArg HttpParser.headerList h.scrub
  exact this

/-! ## What is stored -/

/-- **A stored line**: a name, a value, and the bytes that go out again. -/
structure FieldOk (h : HeaderLine) : Prop where
  line : h = headerLine h.name h.value
  name : NameOk h.name
  value : ValueOk h.value

theorem headerLine_name (name value : Bytes) : (headerLine name value).name = name := by
  simp [headerLine, HeaderLine.name]

theorem headerLine_value (name value : Bytes) : (headerLine name value).value = value := by
  have : (headerLine name value).buf = (name ++ [COLON, SP]) ++ (value ++ [CR, LF]) := by simp [headerLine]
  rw [HeaderLine.value, this, show (headerLine name value).nameLen + 2 = (name ++ [COLON, SP]).length by simp [headerLine],
    List.drop_left]
  exact List.take_left

theorem fieldOk_headerLine {name value : Bytes} (hn : NameOk name) (hv : ValueOk value) :
    FieldOk (headerLine name value) :=
  ⟨by rw [headerLine_name, headerLine_value], by rw [headerLine_name]; exact hn, by rw [headerLine_value]; exact hv⟩

/-- A name holds no NUL: as a C string it is all of it. -/
theorem NameOk.cstr {name : Bytes} (h : NameOk name) : cstr name = name := by
  refine List.takeWhile_eq_self_iff.2 fun b hb => ?_
  have := (h.bytes b hb).2
  simp only [bne_iff_ne, ne_eq]
  rintro rfl
  cases this

theorem headerValueDone_headerList (value : Bytes) (n : Nat) (p : HttpParser) :
    (headerValueDone value n p).headerList = p.headerList ++ [headerLine (cstr p.namebuf) value] := by
  unfold headerValueDone httpParserAddHeader checkMessageHeader addMessageHeader
  split <;> repeat' split
  all_goals rfl

/-- The header list and the name of the field being read. -/
structure Stored (p : HttpParser) : Prop where
  reading : p.headerState = .headerValue → NameOk p.namebuf
  fields : ∀ h ∈ p.headerList, FieldOk h

theorem startLineDone_headerList (line p1 p2 p3 : Bytes) (p : HttpParser) :
    (startLineDone line p1 p2 p3 p).headerList = p.headerList := by
  unfold startLineDone matchStatusLine matchRequestLine
  split <;> split <;> (try split) <;> rfl

theorem stored_rule : HeaderRule Stored where
  emptyLine := fun _ _ hp => ⟨hp.reading, hp.fields⟩
  startLine := fun line p1 p2 p3 _ hp =>
    ⟨fun h => by simp [startLineDone] at h, by rw [startLineDone_headerList]; exact hp.fields⟩
  partName := fun _ hs hp => ⟨fun h => by simp [hs] at h, hp.fields⟩
  name := fun _ _ hn _ hp => ⟨fun _ => hn, hp.fields⟩
  value := fun {p} value n hv hs hp => by
    refine ⟨fun h => by simp [headerValueDone] at h, fun h hh => ?_⟩
    have hn := hp.reading hs
    rw [headerValueDone_headerList, hn.cstr] at hh
    rcases List.mem_append.1 hh with hh | hh
    · exact hp.fields h hh
    · rw [List.mem_singleton.1 hh]
      exact fieldOk_headerLine hn hv
  complete := fun _ _ hp => ⟨(fun h => by cases h), hp.fields⟩

/-- Whatever the calls were, every line stored is a field. -/
theorem feed_stored {p s : HttpParser} {isResp zeroBody : Bool} {frags : List Bytes} {r : Ret} {n : Nat}
    (h : feed frags (fresh isResp zeroBody p) = (r, n, s)) : ∀ x ∈ s.headerList, FieldOk x := by
  obtain ⟨hi, t, ht, hst, -⟩ := feed_fresh h
  obtain ⟨k, hk⟩ := fresh_eq isResp zeroBody p
  have hx : Stored (fresh isResp zeroBody p) := by rw [hk]; exact ⟨(fun h => by cases h), (fun _ h => by cases h)⟩
  rw [← hst.headerList]
  rcases parseMessage_open hi ht with ⟨-, hq⟩ | ⟨u, hq, hready, hs, hb⟩
  · exact (stored_rule.run hi hx hq).fields
  · rw [finishBody_headerList hready hs hb]
    exact (stored_rule.run hi hx hq).fields

/-! ## What is sent on -/

/-- The name of a line that goes out again is found in it. -/
theorem parseHeaderName_again {name : Bytes} (hn : NameOk name) (rest : Bytes) (p : HttpParser) :
    parseHeaderName (name ++ COLON :: rest) p =
      (.done, { p with namebuf := name, headerOffset := p.headerOffset + (name.length + 1), headerState := .headerValue }) := by
  have hc : startsCRLF (name ++ COLON :: rest) = false := by
    rw [← hn.notEmptyLine]
    rcases name with _ | ⟨a, _ | ⟨b, t⟩⟩
    · cases rest <;> rfl
    · rfl
    · rfl
  have hf : nameScan (name ++ COLON :: rest) = (.found, name) := nameScan_found.2 ⟨⟨rest, rfl⟩, hn.bytes, hn.length⟩
  rw [parseHeaderName, if_neg (by rw [hc]; simp), hf]

/-- The value of a line that goes out again, but for the space of a fold that it may begin with. -/
theorem valueScan_again {value : Bytes} (hv : ValueOk value) {d : UInt8} (hd : isBlank d = false) (rest : Bytes) :
    valueScan [] 0 true (SP :: value ++ CR :: LF :: d :: rest) =
      (.found, value.dropWhile isBlank, value.length + 3) := by
  rcases hv.begun with rfl | ⟨u, a, t, rfl, ha, hu⟩
  · exact valueScan_line [SP] [] hd rest (by simp [isBlank]) (by simp) (by simp)
      (by simp [HTTP_HEADER_VALUE_MAX])
  · have hlen := hv.length
    have hws : ∀ b ∈ SP :: u, isBlank b = true := by rcases hu with rfl | rfl <;> simp [isBlank]
    have hdrop : (u ++ a :: t).dropWhile isBlank = a :: t := by
      rcases hu with rfl | rfl
      · exact List.dropWhile_cons_of_neg (by simp [ha])
      · rw [List.singleton_append, List.dropWhile_cons_of_pos rfl, List.dropWhile_cons_of_neg (by simp [ha])]
    have htrim : trimRight (a :: t) = a :: t := trimRight_of_last fun b hb => hv.last b (by
      rw [List.getLast?_append_of_ne_nil _ (by simp)]; exact hb)
    have hline := valueScan_line (SP :: u) (a :: t) hd rest hws
      (fun b hb => hv.bytes b (List.mem_append_right u hb)) (fun b hb => by cases hb; exact ha)
      (by rw [List.length_append] at hlen; omega)
    rw [hdrop, show SP :: (u ++ a :: t) ++ CR :: LF :: d :: rest = SP :: u ++ a :: t ++ CR :: LF :: d :: rest by simp, hline,
      htrim]
    simp only [List.length_cons, List.length_append]
    congr 2
    omega

/-- The parser behind the name of a field. -/
def fieldNamed (name : Bytes) (p : HttpParser) : HttpParser :=
  { p with namebuf := name, headerOffset := p.headerOffset + (name.length + 1), headerState := .headerValue }

/-- The two passes over a line that goes out again. -/
theorem field_passes {name value l rest : Bytes} {d : UInt8} {p : HttpParser} (hn : NameOk name) (hv : ValueOk value)
    (hi : InHeader l p) (hs : p.headerState = .headerName) (hd : isBlank d = false)
    (hl : l.drop p.headerOffset = (headerLine name value).buf ++ d :: rest) :
    headerPass l p = .again (fieldNamed name p) ∧
      headerPass l (fieldNamed name p) =
        .again (headerValueDone (value.dropWhile isBlank) (value.length + 3) (fieldNamed name p)) := by
  have hbuf : (headerLine name value).buf ++ d :: rest = name ++ COLON :: (SP :: value ++ CR :: LF :: d :: rest) := by
    simp [headerLine]
  rw [hbuf] at hl
  have hlen := congrArg List.length hl
  simp only [List.length_drop, List.length_append, List.length_cons] at hlen
  have hle := hi.le
  have hi' : InHeader l (fieldNamed name p) := ⟨by simp only [fieldNamed]; omega, by simp [fieldNamed]⟩
  have hl' : l.drop (fieldNamed name p).headerOffset = SP :: value ++ CR :: LF :: d :: rest := by
    simp only [fieldNamed]
    rw [← List.drop_drop, hl, ← List.drop_drop, List.drop_left]
    rfl
  constructor
  · rw [headerPass_name hi hs, hl, parseHeaderName_again hn, if_neg (by simp)]
    rfl
  · rw [headerPass_value hi' rfl, hl', parseHeaderValue, valueScan_again hv hd]
    rfl

/-- **A stored line that is sent on is one field**: wherever its bytes stand before a line that does not continue it,
the parser reads the name, then the value, and is behind the line. -/
theorem field_again {h : HeaderLine} (hf : FieldOk h) {l rest : Bytes} {d : UInt8} {p : HttpParser}
    (hi : InHeader l p) (hs : p.headerState = .headerName) (hd : isBlank d = false)
    (hl : l.drop p.headerOffset = h.buf ++ d :: rest) :
    ∃ q s, headerPass l p = .again q ∧ headerPass l q = .again s ∧ s.headerState = .headerName ∧
      s.headerOffset = p.headerOffset + h.buf.length ∧
      s.headerList = p.headerList ++ [headerLine h.name (h.value.dropWhile isBlank)] := by
  have hbuf : h.buf = (headerLine h.name h.value).buf := congrArg HeaderLine.buf hf.line
  rw [hbuf] at hl ⊢
  obtain ⟨h1, h2⟩ := field_passes hf.name hf.value hi hs hd hl
  refine ⟨_, _, h1, h2, rfl, ?_, ?_⟩
  · rw [headerValueDone_offset]
    simp only [fieldNamed, headerLine, List.length_append, List.length_cons, List.length_nil]
    omega
  · rw [headerValueDone_headerList]
    show p.headerList ++ [headerLine (cstr h.name) _] = _
    rw [hf.name.cstr]

theorem Begun.head {v : Bytes} {b : UInt8} (h : Begun v) (hb : v.head? = some b) (hs : isBlank b = true) :
    b = SP ∧ ∃ c, v[1]? = some c ∧ isBlank c = false := by
  obtain ⟨u, a, t, rfl, ha, rfl | rfl⟩ := h
  · cases hb
    rw [ha] at hs
    cases hs
  · cases hb
    exact ⟨rfl, a, rfl, ha⟩

/-- **What every header line stored by any calls is**: a name without NUL and colon, a value without NUL and CR, without
white space at its end, at its start at most one space; and the line sent on is read back as that one field. -/
theorem stored_fields (p : HttpParser) (isResp zeroBody : Bool) (frags : List Bytes) :
    ∀ h ∈ (feed frags (fresh isResp zeroBody p)).2.2.headerList,
      (∀ b ∈ h.name, b ≠ NUL ∧ b ≠ COLON) ∧ (∀ b ∈ h.value, b ≠ NUL ∧ b ≠ CR) ∧
      (∀ b, h.value.getLast? = some b → isBlank b = false) ∧
      (∀ b, h.value.head? = some b → isBlank b = true → b = SP ∧ ∃ c, h.value[1]? = some c ∧ isBlank c = false) ∧
      h.buf = h.name ++ [COLON, SP] ++ h.value ++ [CR, LF] ∧
      ∀ (l rest : Bytes) (d : UInt8) (p : HttpParser), InHeader l p → p.headerState = .headerName → isBlank d = false →
        l.drop p.headerOffset = h.buf ++ d :: rest →
        ∃ q s, headerPass l p = .again q ∧ headerPass l q = .again s ∧ s.headerState = .headerName ∧
          s.headerOffset = p.headerOffset + h.buf.length ∧
          s.headerList = p.headerList ++ [headerLine h.name (h.value.dropWhile isBlank)] := by
  intro h hh
  have hf : FieldOk h := feed_stored rfl h hh
  refine ⟨fun b hb => ?_, fun b hb => ?_, hf.value.last, fun b hb hs => ?_, congrArg HeaderLine.buf hf.line,
    fun l rest d p hi hs hd hl => field_again hf hi hs hd hl⟩
  · obtain ⟨h1, h2⟩ := hf.name.bytes b hb
    exact ⟨(by rintro rfl; cases h2), h1⟩
  · have := hf.value.bytes b hb
    simp only [valueByte, Bool.and_eq_true, bne_iff_ne, ne_eq, Bool.not_eq_true'] at this
    exact ⟨(by rintro rfl; cases this.2), this.1⟩
  · rcases hf.value.begun with hv | hv
    · rw [hv] at hb; cases hb
    · exact hv.head hb hs

theorem stored_fields_host :
    headerLine (ascii "Host") (ascii "a") ∈
      (feed [ascii "GET / HTTP/1.1\r\nHost: a\r\n\r\n"] (fresh false false default)).2.2.headerList ∧
    ∀ b ∈ (headerLine (ascii "Host") (ascii "a")).value, b ≠ NUL ∧ b ≠ CR :=
  ⟨by decide +kernel, (stored_fields default false false [ascii "GET / HTTP/1.1\r\nHost: a\r\n\r\n"]
    (headerLine (ascii "Host") (ascii "a")) (by decide +kernel)).2.1⟩

/-- Names may hold CR and LF, values LF, and a fold of an empty line leaves a space at the start of a value. -/
theorem stored_lineBreaks :
    let s := (feed [ascii "GET / HTTP/1.1\r\nfoo\r\nbar: x\ny\r\na:\r\n b\r\n\r\n"] (fresh false false default)).2.2
    s.headerState = .headerComplete ∧
      s.headerList = [headerLine (ascii "foo\r\nbar") (ascii "x\ny"), headerLine (ascii "a") (ascii " b")] ∧
      ¬ ∀ h ∈ s.headerList, (∀ b ∈ h.name, b ≠ CR ∧ b ≠ LF ∧ b ≠ NUL ∧ b ≠ COLON) ∧
        (∀ b ∈ h.value, b ≠ CR ∧ b ≠ LF ∧ b ≠ NUL) ∧ (∀ b, h.value.head? = some b → isBlank b = false) ∧
        (∀ b, h.value.getLast? = some b → isBlank b = false) := by
  intro s
  have hs : s.headerList = [headerLine (ascii "foo\r\nbar") (ascii "x\ny"), headerLine (ascii "a") (ascii " b")] := by
    decide +kernel
  refine ⟨by decide +kernel, hs, fun h => ?_⟩
  rw [hs] at h
  exact absurd ((h _ List.mem_cons_self).2.1 LF (by decide)) (by decide)

end Tinywf
