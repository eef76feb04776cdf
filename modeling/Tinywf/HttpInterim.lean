import Tinywf.HttpRoundTrip
/-!
# HttpInterim — 100 responses in front of a response

`HttpResponse::append` throws a complete 100 response away and starts over with `http_parser_init`, in the middle of a
read.  Reading is then one run over all the bytes, response after response (`readResponse_responds`), and the 100
responses leave no trace, except that the zero-body mode is gone: the final response is read as if it had not been set
(`interim_transparent`).
-/
namespace Tinywf

open CLib
open Loop (Pass doWhile)

/-! ## Reading a response -/

/-- `HttpResponse::append`, without a size limit. -/
def httpResponseAppend (buf : Bytes) (p : HttpParser) : Ret × Nat × HttpParser :=
  match httpParserAppendMessage buf p with
  | (.done, n, q) => if q.code = some (ascii "100") then (.more, n, httpParserInit true q) else (.done, n, q)
  | r => r

/-- A result that comes `n` bytes later. -/
def past (n : Nat) (o : Ret × Nat × HttpParser) : Ret × Nat × HttpParser := (o.1, n + o.2.1, o.2.2)

/-- `__poller_handle_read` on one buffer after another, until a response is complete or refused: bytes that a call did
not consume are handed to the next.  The first argument is fuel. -/
def readBufs : Nat → List Bytes → HttpParser → Option (Ret × Nat × HttpParser)
  | 0, _, _ => none
  | _ + 1, [], p => some (.more, 0, p)
  | k + 1, buf :: rest, p =>
    match httpResponseAppend buf p with
    | (.more, n, q) =>
      (readBufs k (if n < buf.length then buf.drop n :: rest else rest) q).map (past n)
    | r => some r

/-- The buffers read into a fresh response. -/
def readResponse (frags : List Bytes) (p : HttpParser) : Option (Ret × Nat × HttpParser) :=
  readBufs (frags.length + frags.flatten.length + 1) frags p

/-- What a caller can see of a response but for where its body ends: not the place in the chunks, which only the parser
reads. -/
def HttpParser.shown (p : HttpParser) : HttpParser :=
  { p.view with chunkState := .chunkData, chunkOffset := 0, transferLength := 0 }

/-! ## What the header block does not read -/

/-- A change to the parser that the header block does not see. -/
structure HeaderBlind (g : HttpParser → HttpParser) : Prop where
  state : ∀ p, (g p).headerState = p.headerState
  offset : ∀ p, (g p).headerOffset = p.headerOffset
  namebuf : ∀ p, (g p).namebuf = p.namebuf
  moved : ∀ p (name : Bytes) (n : Nat) (s : HeaderState),
    ({ g p with namebuf := name, headerOffset := n, headerState := s } : HttpParser) =
      g { p with namebuf := name, headerOffset := n, headerState := s }
  startLine : ∀ line p1 p2 p3 p, startLineDone line p1 p2 p3 (g p) = g (startLineDone line p1 p2 p3 p)
  addHeader : ∀ name value p, httpParserAddHeader name value (g p) = g (httpParserAddHeader name value p)

namespace HeaderBlind

variable {g : HttpParser → HttpParser}

theorem parseStartLine (hg : HeaderBlind g) (ptr : Bytes) (p : HttpParser) :
    parseStartLine ptr (g p) = ((parseStartLine ptr p).1, g (parseStartLine ptr p).2) := by
  rcases parseStartLine_cases ptr with ⟨-, h⟩ | ⟨-, r, -, -, h⟩ | ⟨-, line, p1, _, p2, p3, -, -, -, h⟩
  · have hm := hg.moved p p.namebuf (p.headerOffset + 2) p.headerState
    rw [← hg.namebuf, ← hg.state] at hm
    rw [h, h, hg.offset]
    exact congrArg (Prod.mk Ret.done) (hm.trans (by rw [hg.namebuf, hg.state]))
  · rw [h, h]
  · rw [h, h, hg.startLine]

theorem parseHeaderName (hg : HeaderBlind g) (ptr : Bytes) (p : HttpParser) :
    parseHeaderName ptr (g p) = ((parseHeaderName ptr p).1, g (parseHeaderName ptr p).2) := by
  rcases parseHeaderName_cases ptr with ⟨-, h⟩ | ⟨-, r, name, -, -, h⟩ | ⟨-, name, -, h⟩
  · have hm := hg.moved p p.namebuf (p.headerOffset + 2) .headerComplete
    rw [← hg.namebuf] at hm
    rw [h, h, hg.offset]
    exact congrArg (Prod.mk Ret.done) (hm.trans (by rw [hg.namebuf]))
  · have hm := hg.moved p name p.headerOffset p.headerState
    rw [← hg.offset, ← hg.state] at hm
    rw [h, h]
    exact congrArg (Prod.mk r) (hm.trans (by rw [hg.offset, hg.state]))
  · rw [h, h, hg.offset]
    exact congrArg (Prod.mk Ret.done) (hg.moved p name _ _)

theorem parseHeaderValue (hg : HeaderBlind g) (ptr : Bytes) (p : HttpParser) :
    parseHeaderValue ptr (g p) = ((parseHeaderValue ptr p).1, g (parseHeaderValue ptr p).2) := by
  rcases parseHeaderValue_cases ptr with ⟨r, -, -, h⟩ | ⟨value, n, -, h⟩
  · rw [h, h]
  · have hm (q : HttpParser) (k : Nat) : ({ g q with headerOffset := k, headerState := .headerName } : HttpParser) =
        g { q with headerOffset := k, headerState := .headerName } := by
      have hname : ({ g q with headerOffset := k, headerState := .headerName } : HttpParser) =
          { g q with namebuf := q.namebuf, headerOffset := k, headerState := .headerName } := by rw [← hg.namebuf]
      exact hname.trans (hg.moved q q.namebuf k .headerName)
    rw [h, h, headerValueDone, hg.namebuf, hg.addHeader, hg.offset]
    exact congrArg (Prod.mk Ret.done) (hm _ _)

theorem inHeader (hg : HeaderBlind g) {l : Bytes} {p : HttpParser} (hi : InHeader l p) : InHeader l (g p) :=
  ⟨by rw [hg.offset]; exact hi.le, by rw [hg.state]; exact hi.open_⟩

/-- A pass changed by `g`. -/
def onPass (g : HttpParser → HttpParser) : Pass HttpParser Ret → Pass HttpParser Ret
  | .again q => .again (g q)
  | .exit r q => .exit r (g q)

theorem passOf_blind (g : HttpParser → HttpParser) (x : Ret × HttpParser) : passOf (x.1, g x.2) = onPass g (passOf x) := by
  unfold passOf
  split <;> rfl

theorem pass (hg : HeaderBlind g) {l : Bytes} {p : HttpParser} (hi : InHeader l p) :
    headerPass l (g p) = onPass g (headerPass l p) := by
  have hi' := hg.inHeader hi
  rcases hi.cases with hs | hs | hs
  · rw [headerPass_startLine hi hs, headerPass_startLine hi' ((hg.state p).trans hs), hg.offset, hg.parseStartLine]
    exact passOf_blind g _
  · rw [headerPass_value hi hs, headerPass_value hi' ((hg.state p).trans hs), hg.offset, hg.parseHeaderValue]
    exact passOf_blind g _
  · rw [headerPass_name hi hs, headerPass_name hi' ((hg.state p).trans hs), hg.offset, hg.parseHeaderName]
    simp only [hg.state]
    split
    · rfl
    · exact passOf_blind g _

theorem loop (hg : HeaderBlind g) {l : Bytes} : ∀ (n : Nat) {p : HttpParser}, InHeader l p →
    doWhile (headerPass l) n (g p) = (doWhile (headerPass l) n p).map fun x => (x.1, g x.2)
  | 0, _, _ => rfl
  | n + 1, p, hi => by
    have hp := hg.pass hi
    cases hb : headerPass l p with
    | again q =>
      rw [hb] at hp
      rw [Loop.doWhile_again hb, Loop.doWhile_again hp]
      exact hg.loop n (headerPass_decreases hi hb).1
    | exit r q =>
      rw [hb] at hp
      rw [Loop.doWhile_exit hb, Loop.doWhile_exit hp]
      rfl

/-- **The header block comes out the same.** -/
theorem run (hg : HeaderBlind g) {l : Bytes} {p : HttpParser} (hi : InHeader l p) :
    parseMessageHeader l (g p) = ((parseMessageHeader l p).1, g (parseMessageHeader l p).2) := by
  have h := hg.loop (l.length + 1) hi
  rw [parseMessageHeader_run hi] at h
  rw [parseMessageHeader, h]
  rfl

end HeaderBlind

theorem atChunk_blind (s : ChunkState) (n : Nat) : HeaderBlind (fun p => p.atChunk s n) where
  state := fun _ => rfl
  offset := fun _ => rfl
  namebuf := fun _ => rfl
  moved := fun _ _ _ _ => rfl
  startLine := fun line p1 p2 p3 p => by
    unfold startLineDone matchStatusLine matchRequestLine
    rw [show (p.atChunk s n).isResp = p.isResp from rfl]
    repeat' split
    all_goals rfl
  addHeader := fun name value p => by
    unfold httpParserAddHeader checkMessageHeader
    split <;> repeat' split
    all_goals rfl

theorem zeroBody_blind : HeaderBlind parseZeroBody where
  state := fun _ => rfl
  offset := fun _ => rfl
  namebuf := fun _ => rfl
  moved := fun _ _ _ _ => rfl
  startLine := fun line p1 p2 p3 p => by
    unfold startLineDone matchStatusLine matchRequestLine
    rw [show (parseZeroBody p).isResp = p.isResp from rfl]
    repeat' split
    all_goals rfl
  addHeader := fun name value p => by
    unfold httpParserAddHeader checkMessageHeader
    split <;> repeat' split
    all_goals rfl

/-! ## Outcomes -/

/-- What a caller sees of a response, without the bytes it came in. -/
def HttpParser.core (p : HttpParser) : HttpParser :=
  { p.scrub with chunkState := .chunkData, chunkOffset := 0, transferLength := 0 }

theorem shown_eq (p : HttpParser) :
    p.shown = { p.core with msgsize := p.msgsize, msgbuf := p.msgbuf.take p.msgsize } := rfl

theorem ScratchEq.core {p q : HttpParser} (h : ScratchEq p q) : p.core = q.core := by
  rw [HttpParser.core, h.scrub]
  rfl

/-- The same result and, where the response is not refused, the same bytes consumed and the same response. -/
def SameOutcome (o o' : Ret × Nat × HttpParser) : Prop :=
  o.1 = o'.1 ∧ (o.1 = .done ∨ o.1 = .more → o.2.1 = o'.2.1 ∧ o.2.2.shown = o'.2.2.shown)

theorem SameOutcome.refl (o : Ret × Nat × HttpParser) : SameOutcome o o := ⟨rfl, fun _ => ⟨rfl, rfl⟩⟩

theorem SameOutcome.symm {a b : Ret × Nat × HttpParser} (h : SameOutcome a b) : SameOutcome b a :=
  ⟨h.1.symm, fun hr => ⟨(h.2 (h.1 ▸ hr)).1.symm, (h.2 (h.1 ▸ hr)).2.symm⟩⟩

theorem SameOutcome.trans {a b c : Ret × Nat × HttpParser} (h : SameOutcome a b) (h' : SameOutcome b c) :
    SameOutcome a c :=
  ⟨h.1.trans h'.1, fun hr => ⟨(h.2 hr).1.trans (h'.2 (h.1 ▸ hr)).1, (h.2 hr).2.trans (h'.2 (h.1 ▸ hr)).2⟩⟩

theorem past_past (k n : Nat) (o : Ret × Nat × HttpParser) : past k (past n o) = past (k + n) o := by
  simp only [past, Nat.add_assoc]

theorem past_zero (o : Ret × Nat × HttpParser) : past 0 o = o := by
  simp only [past, Nat.zero_add]

theorem sameOutcome_past {o o' : Ret × Nat × HttpParser} (n : Nat) :
    SameOutcome (past n o) (past n o') ↔ SameOutcome o o' := by
  constructor
  · intro h
    refine ⟨h.1, fun hr => ⟨?_, (h.2 hr).2⟩⟩
    have := (h.2 hr).1
    simp only [past] at this
    omega
  · intro h
    refine ⟨h.1, fun hr => ⟨?_, (h.2 hr).2⟩⟩
    simp only [past, (h.2 hr).1]

/-- Two runs on the same bytes that end alike. -/
structure Akin (x y : Ret × HttpParser) : Prop where
  ret : x.1 = y.1
  total : x.1 = .done → x.2.total = y.2.total
  core : x.2.core = y.2.core

theorem Akin.refl (x : Ret × HttpParser) : Akin x x := ⟨rfl, fun _ => rfl, rfl⟩

theorem Akin.trans {x y z : Ret × HttpParser} (h : Akin x y) (h' : Akin y z) : Akin x z :=
  ⟨h.ret.trans h'.ret, fun hr => (h.total hr).trans (h'.total (h.ret ▸ hr)), h.core.trans h'.core⟩

theorem Akin.symm {x y : Ret × HttpParser} (h : Akin x y) : Akin y x :=
  ⟨h.ret.symm, fun hr => (h.total (h.ret.trans hr)).symm, h.core.symm⟩

theorem SameResult.akin {x y : Ret × HttpParser} (h : SameResult x y) : Akin x y :=
  ⟨h.ret.symm, fun _ => h.state.total, h.state.core⟩

/-! ## Fresh parsers -/

theorem fresh_inHeader (l : Bytes) (isResp zeroBody : Bool) (p : HttpParser) : InHeader l (fresh isResp zeroBody p) := by
  obtain ⟨n, hn⟩ := fresh_eq isResp zeroBody p
  rw [hn]
  exact ⟨Nat.zero_le _, by simp [httpParserInit]⟩

/-- A call that starts in the header block. -/
theorem parseMessage_inHeader {l : Bytes} {p : HttpParser} (hi : InHeader l p) :
    parseMessage l p = onDone (fun q => finishBody l (startBody q)) (parseMessageHeader l p) := by
  rw [parseMessage_eq, finishHeader_open hi.open_]
  rcases parseMessageHeader l p with ⟨r, q⟩
  cases r <;> rfl

/-- Where the chunks were in the memory handed to `http_parser_init` does not matter. -/
theorem parseMessage_atChunk {l : Bytes} {p : HttpParser} (hi : InHeader l p) (s : ChunkState) (n : Nat) :
    Akin (parseMessage l (p.atChunk s n)) (parseMessage l p) := by
  have hi' := (atChunk_blind s n).inHeader hi
  rw [parseMessage_inHeader hi, parseMessage_inHeader hi', (atChunk_blind s n).run hi]
  rcases parseMessageHeader l p with ⟨r, q⟩
  cases r with
  | done =>
    simp only [onDone]
    by_cases hc : q.chunked = true
    · have : startBody (q.atChunk s n) = startBody q := by
        rw [startBody, startBody, if_pos hc, if_pos (show (q.atChunk s n).chunked = true from hc)]
        rfl
      rw [this]
      exact Akin.refl _
    · have hq : startBody (q.atChunk s n) = (startBody q).atChunk s n := by
        rw [startBody, startBody, if_neg hc, if_neg (show ¬ (q.atChunk s n).chunked = true from hc)]
        rw [show (q.atChunk s n).transferLength = q.transferLength from rfl]
        split <;> rfl
      have hc' : ¬ (startBody q).chunked = true := by
        rw [startBody, if_neg hc]
        split <;> exact hc
      rw [hq]
      by_cases ht : (startBody q).transferLength = sizeMax
      · rw [finishBody_close ht hc', finishBody_close (p := (startBody q).atChunk s n) ht hc']
        exact ⟨rfl, fun h => (by cases h), rfl⟩
      · rw [finishBody_length ht, finishBody_length (p := (startBody q).atChunk s n) ht]
        have htot : ((startBody q).atChunk s n).total = (startBody q).total := by
          have ht' : ((startBody q).atChunk s n).transferLength ≠ sizeMax := ht
          rw [HttpParser.total, HttpParser.total, if_pos ht, if_pos ht']
          rfl
        split
        · rw [if_pos (by assumption)]
          refine ⟨rfl, fun _ => htot, ?_⟩
          rfl
        · rw [if_neg (by assumption)]
          exact ⟨rfl, fun h => (by cases h), rfl⟩
  | _ => exact ⟨rfl, fun h => (by cases h), rfl⟩

theorem parseMessage_fresh (l : Bytes) (isResp zeroBody : Bool) (p q : HttpParser) :
    Akin (parseMessage l (fresh isResp zeroBody p)) (parseMessage l (fresh isResp zeroBody q)) := by
  have hsc : ScratchEq (fresh isResp zeroBody p) ((fresh isResp zeroBody q).atChunk p.chunkState p.chunkOffset) := by
    refine ⟨?_, fun h => ?_⟩
    · unfold fresh
      split <;> rfl
    · obtain ⟨n, hn⟩ := fresh_eq isResp zeroBody p
      rw [hn] at h
      cases h
  have hready := (fresh_between isResp zeroBody p).stuck.toReady.grow l
  exact (parseMessage_congr hsc hready).akin.trans (parseMessage_atChunk (fresh_inHeader l isResp zeroBody q) _ _)

/-! ## One call after another -/

/-- The bytes `S` have been read into the parser `x`. -/
structure Reached (x : HttpParser) (S : Bytes) (o : Ret × Nat × HttpParser) : Prop where
  run : Akin (parseMessage S x) (o.1, o.2.2)
  more : o.1 = .more → o.2.1 = S.length ∧ Between S o.2.2
  done : o.1 = .done → Completed S o.2.2 ∧ o.2.1 = o.2.2.msgsize ∧
    o.2.2.msgbuf.take o.2.2.msgsize = S.take o.2.2.msgsize

theorem Reached.outcome {x y : HttpParser} {S : Bytes} {o o' : Ret × Nat × HttpParser} (h : Reached x S o)
    (h' : Reached y S o') (hxy : Akin (parseMessage S x) (parseMessage S y)) : SameOutcome o o' := by
  have ha : Akin (o.1, o.2.2) (o'.1, o'.2.2) := h.run.symm.trans (hxy.trans h'.run)
  have hret : o.1 = o'.1 := ha.ret
  refine ⟨hret, fun hr => ?_⟩
  have hshown (hsize : o.2.2.msgsize = o'.2.2.msgsize)
      (hbuf : o.2.2.msgbuf.take o.2.2.msgsize = o'.2.2.msgbuf.take o'.2.2.msgsize) : o.2.2.shown = o'.2.2.shown := by
    rw [shown_eq, shown_eq, show o.2.2.core = o'.2.2.core from ha.core, hsize, ← hbuf, hsize]
  rcases hr with hr | hr
  · obtain ⟨hc, hn, hb⟩ := h.done hr
    obtain ⟨hc', hn', hb'⟩ := h'.done (hret ▸ hr)
    have hsize : o.2.2.msgsize = o'.2.2.msgsize := by rw [hc.total, hc'.total]; exact ha.total hr
    exact ⟨by rw [hn, hn', hsize], hshown hsize (by rw [hb, hb', hsize])⟩
  · obtain ⟨hn, hb⟩ := h.more hr
    obtain ⟨hn', hb'⟩ := h'.more (hret ▸ hr)
    exact ⟨by rw [hn, hn'], hshown (by rw [hb.size, hb'.size]) (by rw [hb.buf, hb'.buf])⟩

theorem Reached.of_feed {x p : HttpParser} {l : Bytes} (frags : List Bytes) (hf : Follows x l p) :
    Reached x (l ++ frags.flatten) (past l.length (feed frags p)) := by
  obtain ⟨h1, -, h3, h4⟩ := feed_run frags hf (show feed frags p = ((feed frags p).1, (feed frags p).2.1, _) from rfl)
  refine ⟨h1.akin, fun hr => ⟨?_, (h3 hr).2⟩, fun hr => ⟨(h4 hr).1, (h4 hr).2.1, (h4 hr).2.2⟩⟩
  simp only [past, (h3 hr).1, List.length_append]

/-- What is settled stays so, whatever comes behind it. -/
theorem Reached.grow {x : HttpParser} {S : Bytes} {o : Ret × Nat × HttpParser} (m : Bytes) (h : Reached x S o)
    (hx : Ready S x) (hr : o.1 ≠ .more) : Reached x (S ++ m) o := by
  refine ⟨?_, fun h' => absurd h' hr, fun hd => ?_⟩
  · have hne : (parseMessage S x).1 ≠ .more := fun hm => hr (h.run.ret.symm.trans hm)
    rw [parseMessage_stable m hx rfl hne]
    exact h.run
  · obtain ⟨hc, hn, hb⟩ := h.done hd
    have hle := hc.size
    refine ⟨⟨hc.complete, hc.header, hc.offset, ?_, hc.total⟩, hn, ?_⟩
    · rw [List.length_append]; omega
    · rw [hb, List.take_append_of_le_length hle]

/-- The first call with all the bytes. -/
def firstCall (zeroBody : Bool) (S : Bytes) : Ret × Nat × HttpParser :=
  httpParserAppendMessage S (fresh true zeroBody default)

theorem firstCall_reached (zeroBody : Bool) (S : Bytes) : Reached (fresh true zeroBody default) S (firstCall zeroBody S) := by
  have h := Reached.of_feed [S] (fresh_follows true zeroBody default)
  rwa [feed_one, List.nil_append, List.flatten_cons, List.flatten_nil, List.append_nil, List.length_nil, past_zero] at h

def IsInterim (o : Ret × Nat × HttpParser) : Prop := o.1 = .done ∧ o.2.2.code = some (ascii "100")

instance (o : Ret × Nat × HttpParser) : Decidable (IsInterim o) := inferInstanceAs (Decidable (_ ∧ _))

theorem SameOutcome.isInterim {o o' : Ret × Nat × HttpParser} (h : SameOutcome o o') (hi : IsInterim o) : IsInterim o' := by
  have hcode : o.2.2.shown.code = o'.2.2.shown.code := by rw [(h.2 (Or.inl hi.1)).2]
  exact ⟨h.1 ▸ hi.1, hcode.symm.trans hi.2⟩

theorem httpResponseAppend_interim {buf : Bytes} {p : HttpParser} (h : IsInterim (httpParserAppendMessage buf p)) :
    httpResponseAppend buf p = (.more, (httpParserAppendMessage buf p).2.1,
      fresh true false (httpParserAppendMessage buf p).2.2) := by
  obtain ⟨hr, hc⟩ := h
  rw [httpResponseAppend]
  rcases hq : httpParserAppendMessage buf p with ⟨r, n, q⟩
  rw [hq] at hr hc
  obtain rfl : r = .done := hr
  simp only
  rw [if_pos hc]
  rfl

theorem httpResponseAppend_final {buf : Bytes} {p : HttpParser} (h : ¬ IsInterim (httpParserAppendMessage buf p)) :
    httpResponseAppend buf p = httpParserAppendMessage buf p := by
  rw [httpResponseAppend]
  rcases hq : httpParserAppendMessage buf p with ⟨r, n, q⟩
  rw [hq] at h
  cases r with
  | done =>
    simp only
    rw [if_neg fun hc => h ⟨rfl, hc⟩]
  | _ => rfl

/-- What the bytes `S` are read as, response after response. -/
inductive Responds : Bool → Bytes → Ret × Nat × HttpParser → Prop
  | stop {zeroBody : Bool} {S : Bytes} : ¬ IsInterim (firstCall zeroBody S) →
      Responds zeroBody S (firstCall zeroBody S)
  | next {zeroBody : Bool} {S : Bytes} {o : Ret × Nat × HttpParser} : IsInterim (firstCall zeroBody S) →
      Responds false (S.drop (firstCall zeroBody S).2.1) o → Responds zeroBody S (past (firstCall zeroBody S).2.1 o)

theorem Responds.unique {zeroBody : Bool} {S : Bytes} {o o' : Ret × Nat × HttpParser} (h : Responds zeroBody S o)
    (h' : Responds zeroBody S o') : o = o' := by
  induction h generalizing o' with
  | stop hn =>
    cases h' with
    | stop _ => rfl
    | next hi _ => exact absurd hi hn
  | next hi _ ih =>
    cases h' with
    | stop hn => exact absurd hi hn
    | next _ h' => rw [ih h']

theorem readBufs_more {k n : Nat} {buf : Bytes} {rest : List Bytes} {p q : HttpParser}
    (h : httpResponseAppend buf p = (.more, n, q)) : readBufs (k + 1) (buf :: rest) p =
      (readBufs k (if n < buf.length then buf.drop n :: rest else rest) q).map (past n) := by
  rw [readBufs, h]

theorem readBufs_stop {k : Nat} {buf : Bytes} {rest : List Bytes} {p : HttpParser}
    (h : (httpResponseAppend buf p).1 ≠ .more) : readBufs (k + 1) (buf :: rest) p = some (httpResponseAppend buf p) := by
  rw [readBufs]
  rcases hq : httpResponseAppend buf p with ⟨r, n, q⟩
  rw [hq] at h
  cases r with
  | more => exact absurd rfl h
  | _ => rfl

/-- What is left of the buffers once `n` bytes of the first are consumed. -/
theorem rest_flatten {n : Nat} {buf : Bytes} {rest : List Bytes} (hn : n ≤ buf.length) :
    (if n < buf.length then buf.drop n :: rest else rest).flatten = (buf ++ rest.flatten).drop n := by
  rw [List.drop_append_of_le_length hn]
  split
  · rfl
  · rw [List.drop_of_length_le (by omega), List.nil_append]

theorem rest_size (buf : Bytes) (rest : List Bytes) {n : Nat} (hn : 0 < n) :
    (if n < buf.length then buf.drop n :: rest else rest).length +
      (if n < buf.length then buf.drop n :: rest else rest).flatten.length <
        (buf :: rest).length + (buf :: rest).flatten.length := by
  split
  · simp only [List.length_cons, List.flatten_cons, List.length_append, List.length_drop]
    omega
  · simp only [List.length_cons, List.flatten_cons, List.length_append]
    omega

/-- **Reading is one run over all the bytes, response after response.** -/
theorem readBufs_responds : ∀ (k : Nat) (frags : List Bytes) {zeroBody : Bool} {memory : HttpParser} {l : Bytes}
    {p : HttpParser}, Follows (fresh true zeroBody memory) l p → frags.length + frags.flatten.length < k →
    ∃ o o', readBufs k frags p = some o ∧ Responds zeroBody (l ++ frags.flatten) o' ∧ SameOutcome (past l.length o) o'
  | 0, _, _, _, _, _, _, hk => absurd hk (Nat.not_lt_zero _)
  | k + 1, [], z, memory, l, p, hf, _ => by
    have hr : Reached (fresh true z memory) l (past l.length (.more, 0, p)) := by
      have := Reached.of_feed [] hf
      rwa [List.flatten_nil, List.append_nil] at this
    have ho := hr.outcome (firstCall_reached z l) (parseMessage_fresh l true z memory default)
    refine ⟨_, _, rfl, ?_, ho⟩
    rw [List.flatten_nil, List.append_nil]
    refine Responds.stop fun hi => ?_
    have := ho.1.trans hi.1
    cases this
  | k + 1, buf :: rest, z, memory, l, p, hf, hk => by
    have hone : Reached (fresh true z memory) (l ++ buf) (past l.length (httpParserAppendMessage buf p)) := by
      have := Reached.of_feed [buf] hf
      rwa [feed_one, List.flatten_cons, List.flatten_nil, List.append_nil] at this
    have hflat : l ++ (buf :: rest).flatten = l ++ buf ++ rest.flatten := by
      rw [List.flatten_cons, List.append_assoc]
    have hlen : (l ++ buf).length = l.length + buf.length := List.length_append
    rw [hflat]
    rcases hq : httpParserAppendMessage buf p with ⟨r, n, q⟩
    obtain ⟨-, hsame, hmore, hdone⟩ := append_post hf.between hq
    rw [hq] at hone
    by_cases hm : r = .more
    · subst hm
      obtain ⟨rfl, hb⟩ := hmore (by simp)
      have happ : httpResponseAppend buf p = (.more, buf.length, q) := by
        rw [httpResponseAppend_final (by rw [hq]; exact fun hi => by cases hi.1), hq]
      rw [readBufs_more happ, if_neg (Nat.lt_irrefl _)]
      rw [List.length_cons, List.flatten_cons, List.length_append] at hk
      obtain ⟨o, o', h1, h2, h3⟩ :=
        readBufs_responds k rest ⟨hf.ready, hb, (hf.parse buf).trans hsame⟩ (by omega)
      refine ⟨past buf.length o, o', by rw [h1]; rfl, h2, ?_⟩
      rwa [past_past, ← hlen]
    · have ho : SameOutcome (past l.length (r, n, q)) (firstCall z (l ++ buf ++ rest.flatten)) :=
        (hone.grow rest.flatten (hf.ready_at.grow buf) hm).outcome (firstCall_reached z _)
          (parseMessage_fresh _ true z memory default)
      by_cases hi : IsInterim (r, n, q)
      · obtain ⟨hr, hc⟩ := hi
        obtain rfl : r = .done := hr
        obtain ⟨hcm, hlt, hn, -⟩ := hdone rfl
        have hle := hcm.size
        have hpos : 0 < n := by omega
        have hnb : n ≤ buf.length := by omega
        have hfi := ho.isInterim ⟨rfl, hc⟩
        have hfn : (firstCall z (l ++ buf ++ rest.flatten)).2.1 = l.length + n := ((ho.2 (Or.inl rfl)).1).symm
        have happ : httpResponseAppend buf p = (.more, n, fresh true false q) := by
          rw [httpResponseAppend_interim (by rw [hq]; exact ⟨rfl, hc⟩), hq]
        rw [readBufs_more happ]
        have hsize := rest_size buf rest hpos
        obtain ⟨o, o', h1, h2, h3⟩ :=
          readBufs_responds k (if n < buf.length then buf.drop n :: rest else rest) (fresh_follows true false q) (by omega)
        refine ⟨past n o, past (firstCall z (l ++ buf ++ rest.flatten)).2.1 o', by rw [h1]; rfl, Responds.next hfi ?_, ?_⟩
        · rw [hfn, List.append_assoc, ← List.drop_drop, List.drop_left, ← rest_flatten hnb]
          exact h2
        · rw [hfn, past_past, sameOutcome_past, ← past_zero o]
          exact h3
      · have happ : httpResponseAppend buf p = (r, n, q) := by
          rw [httpResponseAppend_final (by rw [hq]; exact hi), hq]
        refine ⟨(r, n, q), _, by rw [readBufs_stop (by rw [happ]; exact hm), happ],
          Responds.stop fun hfi => hi (ho.symm.isInterim hfi), ho⟩

/-! ## The zero-body mode -/

/-- Whether `__match_status_line` decides that there is no body. -/
def bodiless : Option Bytes → Bool
  | some code => code.headD NUL == 49 || code == ascii "204" || code == ascii "304"
  | none => false

/-- A response whose framing fields are what its status code and its stored header lines decide. -/
structure FramedResp (p : HttpParser) : Prop where
  response : p.isResp = true
  opening : p.headerState = .startLine → p.code = none
  transferLength : p.transferLength = if bodiless p.code then 0 else sizeMax
  contentLength : p.contentLength = lengthOf sizeMax p.headerList
  chunked : p.chunked = chunkedOf false p.headerList

theorem framedResp_rule : HeaderRule FramedResp where
  emptyLine := fun _ _ hp => ⟨hp.response, hp.opening, hp.transferLength, hp.contentLength, hp.chunked⟩
  startLine := fun {p} line p1 p2 p3 hs hp => by
    have hresp := hp.response
    have ht : p.transferLength = sizeMax := by rw [hp.transferLength, hp.opening hs]; rfl
    have hnb : bodiless (some p2) = decide (p2.headD NUL = 49 ∨ p2 = ascii "204" ∨ p2 = ascii "304") := by
      simp only [bodiless, Bool.decide_or, ← beq_eq_decide, Bool.or_assoc]
    have h : startLineDone line p1 p2 p3 p =
        { matchStatusLine p1 p2 p3 p with
          headerOffset := (matchStatusLine p1 p2 p3 p).headerOffset + (line.length + 2), headerState := .headerName } := by
      rw [startLineDone, hresp]
      rfl
    have htl : (matchStatusLine p1 p2 p3 p).transferLength = if bodiless (some p2) then 0 else sizeMax := by
      rw [hnb, ← ht]
      simp only [matchStatusLine, decide_eq_true_eq]
      split <;> split <;> rfl
    have hkeep : (matchStatusLine p1 p2 p3 p).isResp = p.isResp ∧
        (matchStatusLine p1 p2 p3 p).contentLength = p.contentLength ∧
        (matchStatusLine p1 p2 p3 p).chunked = p.chunked ∧
        (matchStatusLine p1 p2 p3 p).headerList = p.headerList := by
      unfold matchStatusLine
      split <;> split <;> exact ⟨rfl, rfl, rfl, rfl⟩
    obtain ⟨h1, h2, h3, h4⟩ := hkeep
    rw [h]
    exact ⟨h1.trans hresp, fun h => (by cases h), htl, h2.trans (by rw [hp.contentLength, ← h4]),
      h3.trans (by rw [hp.chunked, ← h4])⟩
  partName := fun _ _ hp => ⟨hp.response, hp.opening, hp.transferLength, hp.contentLength, hp.chunked⟩
  name := fun _ _ _ _ hp => ⟨hp.response, fun h => (by cases h), hp.transferLength, hp.contentLength, hp.chunked⟩
  value := fun {p} value n hv _ hp => by
    have hstart := headerValueDone_sameStart value n p
    refine ⟨((headerValueDone_sameFrame value n p).isResp).trans hp.response, fun h => (by cases h), ?_, ?_, ?_⟩
    · rw [hstart.transferLength, hstart.code, hp.transferLength]
    · rw [headerValueDone_headerList, lengthOf_append, ← hp.contentLength, headerValueDone_contentLength]
    · rw [headerValueDone_headerList, chunkedOf_append, ← hp.chunked, headerValueDone_chunked]
  complete := fun _ _ hp => ⟨hp.response, fun h => (by cases h), hp.transferLength, hp.contentLength, hp.chunked⟩

/-- The header block of the bytes `S` is complete and announces a body. -/
def HasBody (S : Bytes) : Prop :=
  let h := parseMessageHeader S (httpParserInit true default)
  h.1 = .done ∧ bodiless h.2.code = false ∧
    (chunkedOf false h.2.headerList = true ∨ lengthOf sizeMax h.2.headerList ≠ 0)

instance (S : Bytes) : Decidable (HasBody S) := inferInstanceAs (Decidable (_ ∧ _))

/-- A complete header block of a response. -/
structure BlockRead (S : Bytes) (u : HttpParser) : Prop where
  block : parseMessageHeader S (fresh true false default) = (.done, u)
  framed : FramedResp u
  header : u.headerState = .headerComplete
  offset : u.headerOffset ≤ S.length

theorem blockRead {S : Bytes} {u : HttpParser} (h : parseMessageHeader S (fresh true false default) = (.done, u)) :
    BlockRead S u := by
  have hi := fresh_inHeader S true false default
  obtain ⟨-, -, hle, hdone, -⟩ := parseMessageHeader_post hi h
  exact ⟨h, framedResp_rule.run hi ⟨rfl, fun _ => rfl, rfl, rfl, rfl⟩ h, (hdone rfl).1, hle⟩

theorem hasBody_iff {S : Bytes} {u : HttpParser} (hb : BlockRead S u) :
    HasBody S ↔ bodiless u.code = false ∧ (u.chunked = true ∨ u.contentLength ≠ 0) := by
  rw [HasBody, show httpParserInit true default = fresh true false default from rfl, hb.block, ← hb.framed.chunked,
    ← hb.framed.contentLength]
  exact ⟨fun h => h.2, fun h => ⟨rfl, h⟩⟩

/-- The same bytes, in the zero-body mode. -/
theorem parseMessage_zeroBody {S : Bytes} {r : Ret} {u : HttpParser}
    (h : parseMessageHeader S (fresh true false default) = (r, u)) :
    parseMessage S (fresh true true default) = onDone (fun q => finishBody S (startBody q)) (r, parseZeroBody u) := by
  have hi := fresh_inHeader S true false default
  have hz : fresh true true default = parseZeroBody (fresh true false default) := rfl
  rw [parseMessage_inHeader (fresh_inHeader S true true default), hz, zeroBody_blind.run hi, h]

theorem parseMessage_plain {S : Bytes} {r : Ret} {u : HttpParser}
    (h : parseMessageHeader S (fresh true false default) = (r, u)) :
    parseMessage S (fresh true false default) = onDone (fun q => finishBody S (startBody q)) (r, u) := by
  rw [parseMessage_inHeader (fresh_inHeader S true false default), h]

theorem zeroBody_akin {S : Bytes} (h : ¬ HasBody S) :
    Akin (parseMessage S (fresh true true default)) (parseMessage S (fresh true false default)) := by
  rcases hq : parseMessageHeader S (fresh true false default) with ⟨r, u⟩
  rw [parseMessage_zeroBody hq, parseMessage_plain hq]
  cases r with
  | done =>
    have hb := blockRead hq
    have ht := hb.framed.transferLength
    rw [hasBody_iff hb] at h
    cases hbl : bodiless u.code with
    | true =>
      rw [hbl, if_pos rfl] at ht
      have : parseZeroBody u = u := by rw [parseZeroBody, ← ht]
      rw [this]
      exact Akin.refl _
    | false =>
      rw [hbl, if_neg (by simp)] at ht
      have hc : u.chunked ≠ true := fun hc => h ⟨hbl, Or.inl hc⟩
      have hl : u.contentLength = 0 := by
        by_contra hl
        exact h ⟨hbl, Or.inr hl⟩
      have h1 : startBody u = parseZeroBody u := by
        rw [startBody, if_neg hc, if_pos ht]
        exact congrArg (fun n => ({ u with transferLength := n } : HttpParser)) hl
      have h2 : startBody (parseZeroBody u) = parseZeroBody u := by
        rw [startBody, if_neg (show ¬ (parseZeroBody u).chunked = true from hc),
          if_neg (show (parseZeroBody u).transferLength ≠ sizeMax by simp [parseZeroBody, sizeMax])]
      simp only [onDone]
      rw [h1, h2]
      exact Akin.refl _
  | _ => exact ⟨rfl, fun h => (by cases h), rfl⟩

theorem startBody_core (u : HttpParser) : (startBody u).core = u.core := by
  unfold startBody
  split
  · rfl
  · split <;> rfl

/-- In the zero-body mode a complete header block is all of the message. -/
theorem finishBody_zeroBody {S : Bytes} {u : HttpParser} (hle : u.headerOffset ≤ S.length) :
    (finishBody S (startBody (parseZeroBody u))).1 = .done ∧
      (finishBody S (startBody (parseZeroBody u))).2.total = u.headerOffset := by
  have ht : (startBody (parseZeroBody u)).transferLength = 0 := by
    unfold startBody
    split
    · rfl
    · rw [if_neg (by simp [parseZeroBody, sizeMax])]
      rfl
  have ho : (startBody (parseZeroBody u)).headerOffset = u.headerOffset := (startBody_state (parseZeroBody u)).2
  have hne : (startBody (parseZeroBody u)).transferLength ≠ sizeMax := by rw [ht]; simp [sizeMax]
  have htot : (startBody (parseZeroBody u)).total = u.headerOffset := by
    rw [HttpParser.total, if_pos hne, ht, ho, Nat.add_zero]
  rw [finishBody_length hne, ht, ho, Nat.add_zero, if_pos hle]
  exact ⟨rfl, htot⟩

/-- A body is beyond the header block. -/
theorem finishBody_body {S : Bytes} {u q : HttpParser} (hb : BlockRead S u)
    (hbody : bodiless u.code = false ∧ (u.chunked = true ∨ u.contentLength ≠ 0))
    (hd : finishBody S (startBody u) = (.done, q)) : u.headerOffset < q.msgsize := by
  obtain ⟨hbl, hbody⟩ := hbody
  have hle := hb.offset
  have ht : u.transferLength = sizeMax := by rw [hb.framed.transferLength, hbl]; rfl
  have hs := (startBody_state u).1.trans hb.header
  have hlen : (S.take u.headerOffset).length = u.headerOffset := List.length_take_of_le hle
  have hready : Ready (S.take u.headerOffset) (startBody u) := startBody_ready (le_of_eq hlen.symm)
  have hstuck : Stuck (S.take u.headerOffset) (startBody u) := by
    refine ⟨hready, fun h => absurd hs h, fun _ ht' => ?_, fun _ _ hc => ?_⟩
    · rw [hlen, (startBody_state u).2]
      by_cases hc : u.chunked = true
      · rw [startBody, if_pos hc] at ht'
        exact absurd ht ht'
      · rw [startBody, if_neg hc, if_pos ht]
        have : u.contentLength ≠ 0 := hbody.resolve_left hc
        simp only
        omega
    · have hchunk := (hready.chunk hs hc).2
      have hu : u.chunked = true := by
        by_contra hu
        rw [startBody, if_neg hu, if_pos ht] at hc
        exact hu hc
      have hdata : (startBody u).chunkState = .chunkData ∧ (startBody u).chunkOffset = u.headerOffset := by
        rw [startBody, if_pos hu]
        exact ⟨rfl, rfl⟩
      refine ⟨.more, startBody u, ?_, by simp⟩
      rw [chunkPass_data hchunk hdata.1, hdata.2, List.drop_of_length_le (le_of_eq hlen)]
      rfl
  have hsplit : S.take u.headerOffset ++ S.drop u.headerOffset = S := List.take_append_drop _ _
  rw [← hsplit] at hd
  have := finishBody_beyond hstuck hs hd
  omega

theorem finishBody_code {S : Bytes} {u : HttpParser} (hle : u.headerOffset ≤ S.length)
    (hs : u.headerState = .headerComplete) : (finishBody S (startBody u)).2.code = u.code := by
  obtain ⟨cs, n, k, b, h⟩ := finishBody_shape (startBody_ready hle) ((startBody_state u).1.trans hs)
  rw [h]
  have hcore : (startBody u).core.code = u.core.code := by rw [startBody_core]
  exact hcore

theorem akin_code {x y : Ret × HttpParser} (h : Akin x y) : x.2.code = y.2.code := by
  have hcore (p : HttpParser) : p.core.code = p.code := rfl
  rw [← hcore, h.core, hcore]

/-- Where a body is announced, only the mode decides whether it is read. -/
theorem zeroBody_differs {S : Bytes} (h : HasBody S) :
    ¬ IsInterim (firstCall true S) ∧ ¬ IsInterim (firstCall false S) ∧
      ¬ SameOutcome (firstCall false S) (firstCall true S) := by
  rcases hq : parseMessageHeader S (fresh true false default) with ⟨r, u⟩
  have hr : r = .done := by
    have hdone : (parseMessageHeader S (httpParserInit true default)).1 = .done := h.1
    rw [show httpParserInit true default = fresh true false default from rfl, hq] at hdone
    exact hdone
  subst hr
  have hb := blockRead hq
  have hbody := (hasBody_iff hb).1 h
  have hno : u.code ≠ some (ascii "100") := by
    intro hc
    have := hbody.1
    rw [hc] at this
    cases this
  have hz := (firstCall_reached true S)
  have hp := (firstCall_reached false S)
  have hzrun := hz.run
  have hprun := hp.run
  rw [parseMessage_zeroBody hq] at hzrun
  rw [parseMessage_plain hq] at hprun
  simp only [onDone] at hzrun hprun
  have hzcode : (firstCall true S).2.2.code = u.code :=
    (akin_code hzrun).symm.trans (finishBody_code (u := parseZeroBody u) hb.offset hb.header)
  have hpcode : (firstCall false S).2.2.code = u.code :=
    (akin_code hprun).symm.trans (finishBody_code hb.offset hb.header)
  obtain ⟨hzd, hztot⟩ := finishBody_zeroBody hb.offset
  have hzret : (firstCall true S).1 = .done := hzrun.ret.symm.trans hzd
  have hzno : ¬ IsInterim (firstCall true S) := by
    rw [IsInterim, hzcode]
    exact fun hi => hno hi.2
  have hpno : ¬ IsInterim (firstCall false S) := by
    rw [IsInterim, hpcode]
    exact fun hi => hno hi.2
  refine ⟨hzno, hpno, fun ho => ?_⟩
  have hpret : (firstCall false S).1 = .done := ho.1.trans hzret
  obtain ⟨hcz, hnz, -⟩ := hz.done hzret
  obtain ⟨hcp, hnp, -⟩ := hp.done hpret
  have hend : (firstCall true S).2.2.msgsize = u.headerOffset :=
    hcz.total.trans ((hzrun.total hzd).symm.trans hztot)
  have hbeyond : u.headerOffset < (firstCall false S).2.2.msgsize := by
    have hd : finishBody S (startBody u) = (.done, (finishBody S (startBody u)).2) :=
      Prod.ext (hprun.ret.trans hpret) rfl
    have hlt := finishBody_body hb hbody hd
    have hcd := (finishBody_post (startBody_ready hb.offset) ((startBody_state u).1.trans hb.header) hd).2.1 rfl
    have htot := hprun.total (hprun.ret.trans hpret)
    have h1 := hcd.total
    have h2 := hcp.total
    simp only at htot
    omega
  have := (ho.2 (Or.inl hpret)).1
  omega

theorem responds_zeroBody {F : Bytes} {o o' : Ret × Nat × HttpParser} (h : Responds false F o) (h' : Responds true F o') :
    SameOutcome o o' ↔ ¬ HasBody F := by
  constructor
  · intro ho hbody
    obtain ⟨hz, hp, hne⟩ := zeroBody_differs hbody
    cases h with
    | next hi _ => exact hp hi
    | stop _ =>
      cases h' with
      | next hi _ => exact hz hi
      | stop _ => exact hne ho
  · intro hno
    have ho : SameOutcome (firstCall false F) (firstCall true F) :=
      (firstCall_reached false F).outcome (firstCall_reached true F) (zeroBody_akin hno).symm
    cases h with
    | stop hn =>
      cases h' with
      | stop _ => exact ho
      | next hi _ => exact absurd (ho.symm.isInterim hi) hn
    | next hi hr =>
      cases h' with
      | stop hn => exact absurd (ho.isInterim hi) hn
      | next _ hr' =>
        have hn : (firstCall false F).2.1 = (firstCall true F).2.1 := (ho.2 (Or.inl hi.1)).1
        rw [hn] at hr ⊢
        rw [hr.unique hr']
        exact SameOutcome.refl _

/-! ## 100 responses -/

/-- The bytes of one complete 100 response. -/
def Interim (b : Bytes) : Prop := IsInterim (firstCall false b) ∧ (firstCall false b).2.1 = b.length

instance (b : Bytes) : Decidable (Interim b) := inferInstanceAs (Decidable (_ ∧ _))

/-- A 100 response is read as one in either mode, whatever comes behind it. -/
theorem firstCall_interim {b : Bytes} (hb : Interim b) (zeroBody : Bool) (T : Bytes) :
    IsInterim (firstCall zeroBody (b ++ T)) ∧ (firstCall zeroBody (b ++ T)).2.1 = b.length := by
  obtain ⟨hi, hn⟩ := hb
  have hno : ¬ HasBody b := fun h => (zeroBody_differs h).2.1 hi
  have hsame : SameOutcome (firstCall false b) (firstCall zeroBody b) := by
    refine (firstCall_reached false b).outcome (firstCall_reached zeroBody b) ?_
    cases zeroBody with
    | false => exact Akin.refl _
    | true => exact (zeroBody_akin hno).symm
  have hne : (firstCall zeroBody b).1 ≠ .more := by rw [(hsame.isInterim hi).1]; simp
  have hready := (fresh_between true zeroBody default).stuck.toReady.grow b
  have hgrow : SameOutcome (firstCall zeroBody b) (firstCall zeroBody (b ++ T)) :=
    ((firstCall_reached zeroBody b).grow T hready hne).outcome (firstCall_reached zeroBody (b ++ T)) (Akin.refl _)
  have hall := hsame.trans hgrow
  exact ⟨hall.isInterim hi, ((hall.2 (Or.inl hi.1)).1).symm.trans hn⟩

theorem responds_interim {b T : Bytes} {zeroBody : Bool} {o : Ret × Nat × HttpParser} (hb : Interim b)
    (h : Responds false T o) : Responds zeroBody (b ++ T) (past b.length o) := by
  obtain ⟨hi, hn⟩ := firstCall_interim hb zeroBody T
  rw [← hn]
  refine Responds.next hi ?_
  rw [hn, List.drop_left]
  exact h

theorem responds_interims {F : Bytes} {o : Ret × Nat × HttpParser} (h : Responds false F o) : ∀ {interims : List Bytes},
    (∀ b ∈ interims, Interim b) → Responds false (interims.flatten ++ F) (past interims.flatten.length o)
  | [], _ => by
    rw [List.flatten_nil, List.nil_append, List.length_nil, past_zero]
    exact h
  | b :: bs, hi => by
    rw [List.flatten_cons, List.append_assoc, List.length_append, ← past_past]
    exact responds_interim (hi b List.mem_cons_self) (responds_interims h fun x hx => hi x (List.mem_cons_of_mem b hx))

/-- The first of them ends the zero-body mode. -/
theorem responds_after {F : Bytes} {zeroBody : Bool} {o : Ret × Nat × HttpParser} (h : Responds false F o)
    {interims : List Bytes} (hi : ∀ b ∈ interims, Interim b) (hne : interims ≠ []) :
    Responds zeroBody (interims.flatten ++ F) (past interims.flatten.length o) := by
  cases interims with
  | nil => exact absurd rfl hne
  | cons b bs =>
    rw [List.flatten_cons, List.append_assoc, List.length_append, ← past_past]
    exact responds_interim (hi b List.mem_cons_self)
      (responds_interims h fun x hx => hi x (List.mem_cons_of_mem b hx))

theorem readResponse_responds (frags : List Bytes) (zeroBody : Bool) (p : HttpParser) :
    ∃ o o', readResponse frags (fresh true zeroBody p) = some o ∧ Responds zeroBody frags.flatten o' ∧ SameOutcome o o' := by
  obtain ⟨o, o', h1, h2, h3⟩ := readBufs_responds _ frags (fresh_follows true zeroBody p) (Nat.lt_succ_self _)
  exact ⟨o, o', h1, h2, (past_zero o) ▸ h3⟩

/-- **100 responses leave no trace, unless the mode was set and there is a body**: then the rest of the run reads the
body, which the response alone would not have. -/
theorem interim_transparent (p p' : HttpParser) (zeroBody : Bool) (interims : List Bytes) (final : Bytes)
    (frags frags' : List Bytes) (hi : ∀ b ∈ interims, Interim b) (hf : frags.flatten = interims.flatten ++ final)
    (hf' : frags'.flatten = final) :
    ∃ o o', readResponse frags (fresh true zeroBody p) = some o ∧ readResponse frags' (fresh true zeroBody p') = some o' ∧
      (SameOutcome o (past interims.flatten.length o') ↔ interims = [] ∨ zeroBody = false ∨ ¬ HasBody final) := by
  obtain ⟨o, s, h1, h2, h3⟩ := readResponse_responds frags zeroBody p
  obtain ⟨o', s', h1', h2', h3'⟩ := readResponse_responds frags' zeroBody p'
  obtain ⟨-, t, -, ht, -⟩ := readResponse_responds [final] false default
  rw [List.flatten_cons, List.flatten_nil, List.append_nil] at ht
  rw [hf] at h2
  rw [hf'] at h2'
  refine ⟨o, o', h1, h1', ?_⟩
  by_cases hne : interims = []
  · subst hne
    rw [List.flatten_nil, List.nil_append] at h2
    have hs := h2.unique h2'
    subst hs
    rw [List.flatten_nil, List.length_nil, past_zero]
    exact ⟨fun _ => Or.inl rfl, fun _ => h3.trans h3'.symm⟩
  · have hs := h2.unique (responds_after ht hi hne)
    subst hs
    have hiff : SameOutcome o (past interims.flatten.length o') ↔ SameOutcome t s' := by
      rw [← sameOutcome_past interims.flatten.length (o := t)]
      have h4 := (sameOutcome_past interims.flatten.length).2 h3'
      exact ⟨fun h => h3.symm.trans (h.trans h4), fun h => h3.trans (h.trans h4.symm)⟩
    rw [hiff]
    cases zeroBody with
    | false =>
      rw [ht.unique h2']
      exact ⟨fun _ => Or.inr (Or.inl rfl), fun _ => SameOutcome.refl _⟩
    | true =>
      rw [responds_zeroBody ht h2']
      exact ⟨fun h => Or.inr (Or.inr h), fun h => (h.resolve_left hne).resolve_left (by simp)⟩

theorem interim_transparent_head :
    ∃ o o', readResponse [ascii "HTTP/1.1 100 Continue\r\n\r\nHTTP/1.1 204 No Content\r\n\r\n"] (fresh true true default) =
        some o ∧
      readResponse [ascii "HTTP/1.1 204 No Content\r\n\r\n"] (fresh true true default) = some o' ∧
      (SameOutcome o (past [ascii "HTTP/1.1 100 Continue\r\n\r\n"].flatten.length o') ↔
        [ascii "HTTP/1.1 100 Continue\r\n\r\n"] = [] ∨ true = false ∨ ¬ HasBody (ascii "HTTP/1.1 204 No Content\r\n\r\n")) :=
  interim_transparent default default true [ascii "HTTP/1.1 100 Continue\r\n\r\n"]
    (ascii "HTTP/1.1 204 No Content\r\n\r\n")
    [ascii "HTTP/1.1 100 Continue\r\n\r\nHTTP/1.1 204 No Content\r\n\r\n"]
    [ascii "HTTP/1.1 204 No Content\r\n\r\n"] (by decide +kernel) (by decide +kernel) (by decide +kernel)

/-- The answer to a HEAD request is complete on its own; after a 100 response its body is waited for. -/
theorem interim_head :
    let final := ascii "HTTP/1.1 200 OK\r\nContent-Length: 5\r\n\r\n"
    let interim := ascii "HTTP/1.1 100 Continue\r\n\r\n"
    Interim interim ∧
      (readResponse [final] (fresh true true default)).map Prod.fst = some .done ∧
      (readResponse [interim, final] (fresh true true default)).map Prod.fst = some .more := by
  decide +kernel

end Tinywf
