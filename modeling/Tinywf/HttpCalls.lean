import Tinywf.HttpChunks
/-!
# HttpCalls — one call after another

`parseMessage` is what a call does once its bytes are in the buffer.  A parser between two calls is `Stuck` in the bytes
it has; `parseMessage_stable`, `parseMessage_resume` and `parseMessage_beyond` lift what is known of the loops to it, and
`feed_run` reads a whole sequence of calls as one run on all the bytes.
-/
namespace Tinywf

open CLib
open Loop (Pass PassRel doWhile Resumable)

/-! ## What the loops leave alone -/

/-- The same buffers, completeness and kind of message. -/
structure SameFrame (p q : HttpParser) : Prop where
  msgbuf : q.msgbuf = p.msgbuf
  msgsize : q.msgsize = p.msgsize
  bufsize : q.bufsize = p.bufsize
  complete : q.complete = p.complete
  isResp : q.isResp = p.isResp

theorem SameFrame.refl (p : HttpParser) : SameFrame p p := ⟨rfl, rfl, rfl, rfl, rfl⟩

theorem SameFrame.trans {p q r : HttpParser} (h : SameFrame p q) (h' : SameFrame q r) : SameFrame p r :=
  ⟨h'.msgbuf.trans h.msgbuf, h'.msgsize.trans h.msgsize, h'.bufsize.trans h.bufsize, h'.complete.trans h.complete,
    h'.isResp.trans h.isResp⟩

theorem startLineDone_sameFrame (line p1 p2 p3 : Bytes) (p : HttpParser) :
    SameFrame p (startLineDone line p1 p2 p3 p) := by
  unfold startLineDone matchStatusLine matchRequestLine
  split <;> split <;> (try split) <;> exact ⟨rfl, rfl, rfl, rfl, rfl⟩

theorem headerValueDone_sameFrame (value : Bytes) (n : Nat) (p : HttpParser) :
    SameFrame p (headerValueDone value n p) := by
  unfold headerValueDone httpParserAddHeader checkMessageHeader addMessageHeader
  split <;> repeat' split
  all_goals exact ⟨rfl, rfl, rfl, rfl, rfl⟩

theorem parseStartLine_sameFrame (ptr : Bytes) (p : HttpParser) : SameFrame p (parseStartLine ptr p).2 := by
  rcases parseStartLine_cases ptr with ⟨-, h⟩ | ⟨-, r, -, -, h⟩ | ⟨-, line, p1, _, p2, p3, -, -, -, h⟩
  · rw [h]; exact ⟨rfl, rfl, rfl, rfl, rfl⟩
  · rw [h]; exact SameFrame.refl p
  · rw [h]; exact startLineDone_sameFrame line p1 p2 p3 p

theorem parseHeaderName_sameFrame (ptr : Bytes) (p : HttpParser) : SameFrame p (parseHeaderName ptr p).2 := by
  rcases parseHeaderName_cases ptr with ⟨-, h⟩ | ⟨-, r, name, -, -, h⟩ | ⟨-, name, -, h⟩ <;>
    rw [h] <;> exact ⟨rfl, rfl, rfl, rfl, rfl⟩

theorem parseHeaderValue_sameFrame (ptr : Bytes) (p : HttpParser) : SameFrame p (parseHeaderValue ptr p).2 := by
  rcases parseHeaderValue_cases ptr with ⟨r, -, -, h⟩ | ⟨value, n, -, h⟩
  · rw [h]; exact SameFrame.refl p
  · rw [h]; exact headerValueDone_sameFrame value n p

theorem parseMessageHeader_sameFrame (l : Bytes) (p : HttpParser) : SameFrame p (parseMessageHeader l p).2 := by
  rw [parseMessageHeader]
  cases h : doWhile (headerPass l) (l.length + 1) p with
  | none => exact SameFrame.refl p
  | some x =>
    refine Loop.doWhile_frame SameFrame.refl SameFrame.trans (fun s => ?_) h
    have h1 := parseStartLine_sameFrame (l.drop s.headerOffset) s
    have h2 := parseHeaderName_sameFrame (l.drop s.headerOffset) s
    have h3 := parseHeaderValue_sameFrame (l.drop s.headerOffset) s
    unfold headerPass
    simp only
    repeat' split
    all_goals first | exact SameFrame.refl s | exact h1 | exact h2 | exact h3

/-- The end of the header block sets up the body. -/
def startBody (q : HttpParser) : HttpParser :=
  if q.chunked then q.atChunk .chunkData q.headerOffset
  else if q.transferLength = sizeMax then { q with transferLength := q.contentLength } else q

theorem startBody_sameFrame (q : HttpParser) : SameFrame q (startBody q) := by
  unfold startBody
  split
  · exact ⟨rfl, rfl, rfl, rfl, rfl⟩
  · split <;> exact ⟨rfl, rfl, rfl, rfl, rfl⟩

/-- Go on with a parser that is done. -/
def onDone (f : HttpParser → Ret × HttpParser) : Ret × HttpParser → Ret × HttpParser
  | (.done, q) => f q
  | r => r

theorem onDone_eq {f : HttpParser → Ret × HttpParser} {x : Ret × HttpParser} (h : x.1 ≠ .done) : onDone f x = x := by
  rcases x with ⟨r, q⟩
  cases r <;> first | rfl | exact absurd rfl h

theorem onDone_onDone_eq {f g : HttpParser → Ret × HttpParser} {x : Ret × HttpParser} (h : x.1 ≠ .done) :
    onDone f (onDone g x) = x := by
  have hg : onDone g x = x := onDone_eq h
  rw [hg, onDone_eq h]

theorem finishHeader_open {l : Bytes} {p : HttpParser} (h : p.headerState ≠ .headerComplete) :
    finishHeader l p = onDone (fun q => (.done, startBody q)) (parseMessageHeader l p) := by
  rw [finishHeader, if_pos h]
  rfl

theorem finishHeader_complete {l : Bytes} {p : HttpParser} (h : p.headerState = .headerComplete) :
    finishHeader l p = (.done, p) := by
  rw [finishHeader, if_neg (not_not.2 h)]

/-! ## Between two calls -/

/-- A parser whose saved offsets lie in the message `l`, header before body. -/
structure Ready (l : Bytes) (p : HttpParser) : Prop where
  offset : p.headerOffset ≤ l.length
  chunk : p.headerState = .headerComplete → p.chunked = true → p.headerOffset ≤ p.chunkOffset ∧ InChunk l p

/-- A parser that has made what it can of the bytes `l`, and waits for more of them or has refused them. -/
structure Stuck (l : Bytes) (p : HttpParser) : Prop extends Ready l p where
  header : p.headerState ≠ .headerComplete → ∃ r x, headerPass l p = .exit r x ∧ r ≠ .done
  length : p.headerState = .headerComplete → p.transferLength ≠ sizeMax → l.length < p.headerOffset + p.transferLength
  chunks : p.headerState = .headerComplete → p.transferLength = sizeMax → p.chunked = true →
    ∃ r x, chunkPass l p = .exit r x ∧ r ≠ .done

theorem Ready.inHeader {l : Bytes} {p : HttpParser} (h : Ready l p) (hs : p.headerState ≠ .headerComplete) :
    InHeader l p := ⟨h.offset, hs⟩

theorem Ready.grow {l : Bytes} {p : HttpParser} (m : Bytes) (h : Ready l p) : Ready (l ++ m) p where
  offset := by have := h.offset; rw [List.length_append]; omega
  chunk := fun hs hc => ⟨(h.chunk hs hc).1, (h.chunk hs hc).2.grow m⟩

theorem startBody_ready {l : Bytes} {q : HttpParser} (ho : q.headerOffset ≤ l.length) : Ready l (startBody q) := by
  unfold startBody
  split
  · exact ⟨ho, fun _ _ => ⟨Nat.le_refl _, ⟨ho, by simp [HttpParser.atChunk]⟩⟩⟩
  · rename_i hc
    split
    · exact ⟨ho, fun _ hc' => absurd hc' hc⟩
    · exact ⟨ho, fun _ hc' => absurd hc' hc⟩

theorem startBody_state (q : HttpParser) :
    (startBody q).headerState = q.headerState ∧ (startBody q).headerOffset = q.headerOffset := by
  unfold startBody
  split
  · exact ⟨rfl, rfl⟩
  · split <;> exact ⟨rfl, rfl⟩

/-! ## One call -/

/-- Where a complete message ends. -/
def HttpParser.total (p : HttpParser) : Nat :=
  if p.transferLength ≠ sizeMax then p.headerOffset + p.transferLength else p.chunkOffset

def HttpParser.completed (p : HttpParser) : HttpParser := { p with msgsize := p.total, complete := true }

theorem atChunk_total {p : HttpParser} (ht : p.transferLength = sizeMax) (s : ChunkState) (n : Nat) :
    (p.atChunk s n).total = n := by
  rw [HttpParser.total, if_neg (not_not.2 (show (p.atChunk s n).transferLength = sizeMax from ht))]
  rfl

theorem finishBody_length {l : Bytes} {p : HttpParser} (ht : p.transferLength ≠ sizeMax) :
    finishBody l p = if p.headerOffset + p.transferLength ≤ l.length then (.done, p.completed) else (.more, p) := by
  rw [finishBody, if_pos ht, HttpParser.completed, HttpParser.total, if_pos ht]

theorem finishBody_chunks {l : Bytes} {p : HttpParser} (ht : p.transferLength = sizeMax) (hc : p.chunked = true)
    (hi : InChunk l p) : finishBody l p = onDone (fun q => (.done, q.completed)) (parseChunk l p) := by
  rw [finishBody, if_neg (not_not.2 ht), if_pos hc, if_pos hi.open_]
  rcases hq : parseChunk l p with ⟨r, q⟩
  cases r <;> try rfl
  obtain ⟨-, ⟨cs, n, rfl, -⟩, -⟩ := parseChunk_post hi hq
  simp only [onDone, HttpParser.completed, atChunk_total ht]
  rfl

theorem finishBody_close {l : Bytes} {p : HttpParser} (ht : p.transferLength = sizeMax) (hc : p.chunked ≠ true) :
    finishBody l p = (.more, p) := by
  rw [finishBody, if_neg (not_not.2 ht), if_neg hc]

/-- What a completed message looks like: the header block, then the body, within the bytes at hand. -/
structure Completed (l : Bytes) (p : HttpParser) : Prop where
  complete : p.complete = true
  header : p.headerState = .headerComplete
  offset : p.headerOffset ≤ p.msgsize
  size : p.msgsize ≤ l.length
  total : p.msgsize = p.total

/-- **What the part after the header block does**: complete the message, or stay stuck in it. -/
theorem finishBody_post {l : Bytes} {p q : HttpParser} {r : Ret} (hi : Ready l p) (hs : p.headerState = .headerComplete)
    (h : finishBody l p = (r, q)) : r ≠ .fault ∧ (r = .done → Completed l q) ∧
      (r ≠ .done → Stuck l q ∧ SameFrame p q ∧ q.headerState = .headerComplete) := by
  have ho := hi.offset
  by_cases ht : p.transferLength = sizeMax
  · by_cases hc : p.chunked = true
    · obtain ⟨hoff, hic⟩ := hi.chunk hs hc
      rw [finishBody_chunks ht hc hic] at h
      rcases hq : parseChunk l p with ⟨r', u⟩
      have hrun := parseChunk_run hic
      rw [hq] at h hrun
      obtain ⟨hf, ⟨cs, n, rfl, hpn, hnl⟩, -, hst⟩ := parseChunk_post hic hq
      have htot : (p.atChunk cs n).total = n := atChunk_total ht cs n
      by_cases hd : r' = .done
      · subst hd
        cases h
        refine ⟨by simp, fun _ => ⟨rfl, hs, ?_, ?_, rfl⟩, fun h => absurd rfl h⟩
        · show p.headerOffset ≤ (p.atChunk cs n).total
          omega
        · simp only [HttpParser.completed, htot]; exact hnl
      · rw [onDone_eq hd] at h
        cases h
        have hstall := (chunkPass_resumable.stalled hic hrun hd).2
        refine ⟨hf, fun h => absurd h hd, fun _ => ⟨⟨⟨ho, fun _ _ => ⟨?_, hst hd⟩⟩, fun h => absurd hs h,
          fun _ h => absurd ht h, fun _ _ _ => ?_⟩, ⟨rfl, rfl, rfl, rfl, rfl⟩, hs⟩⟩
        · simp only [HttpParser.atChunk]; omega
        · obtain ⟨t, ht'⟩ := hstall
          exact ⟨r, t, ht', hd⟩
    · rw [finishBody_close ht hc] at h
      cases h
      exact ⟨by simp, by simp, fun _ => ⟨⟨hi, fun h => absurd hs h, fun _ h => absurd ht h, fun _ _ h => absurd h hc⟩,
        SameFrame.refl p, hs⟩⟩
  · have htot : p.total = p.headerOffset + p.transferLength := if_pos ht
    rw [finishBody_length ht] at h
    split at h
    · rename_i hle
      cases h
      refine ⟨by simp, fun _ => ⟨rfl, hs, ?_, ?_, rfl⟩, fun h => absurd rfl h⟩
      · simp only [HttpParser.completed, htot]; omega
      · simp only [HttpParser.completed, htot]; exact hle
    · rename_i hle
      cases h
      exact ⟨by simp, by simp, fun _ => ⟨⟨hi, fun h => absurd hs h, fun _ _ => by omega, fun _ h => absurd h ht⟩,
        SameFrame.refl p, hs⟩⟩

/-- All that the part after the header block writes. -/
theorem finishBody_shape {l : Bytes} {p : HttpParser} (hi : Ready l p) (hs : p.headerState = .headerComplete) :
    ∃ s n k b, (finishBody l p).2 = { p.atChunk s n with msgsize := k, complete := b } := by
  by_cases ht : p.transferLength = sizeMax
  · by_cases hc : p.chunked = true
    · have hic := (hi.chunk hs hc).2
      rw [finishBody_chunks ht hc hic]
      rcases hq : parseChunk l p with ⟨r, u⟩
      obtain ⟨-, ⟨cs, n, rfl, -⟩, -⟩ := parseChunk_post hic hq
      cases r with
      | done => exact ⟨cs, n, _, true, rfl⟩
      | _ => exact ⟨cs, n, p.msgsize, p.complete, rfl⟩
    · rw [finishBody_close ht hc]
      exact ⟨p.chunkState, p.chunkOffset, p.msgsize, p.complete, rfl⟩
  · rw [finishBody_length ht]
    split
    · exact ⟨p.chunkState, p.chunkOffset, p.total, true, rfl⟩
    · exact ⟨p.chunkState, p.chunkOffset, p.msgsize, p.complete, rfl⟩

/-- A call that did not ask for more ends the same with more, from the header block on. -/
theorem finishBody_stable {l : Bytes} {p q : HttpParser} {r : Ret} (m : Bytes) (hi : Ready l p)
    (hs : p.headerState = .headerComplete) (h : finishBody l p = (r, q)) (hr : r ≠ .more) :
    finishBody (l ++ m) p = (r, q) := by
  by_cases ht : p.transferLength = sizeMax
  · by_cases hc : p.chunked = true
    · have hic := (hi.chunk hs hc).2
      rw [finishBody_chunks ht hc hic] at h
      rcases hq : parseChunk l p with ⟨r', u⟩
      have hne : r' ≠ .more := by
        rintro rfl
        rw [hq] at h
        cases h
        exact hr rfl
      rw [finishBody_chunks ht hc (hic.grow m), parseChunk_stable m hic hq hne, ← h, hq]
    · rw [finishBody_close ht hc] at h
      cases h
      exact absurd rfl hr
  · rw [finishBody_length ht] at h ⊢
    split at h
    · rename_i hle
      rw [if_pos (by rw [List.length_append]; omega)]
      exact h
    · cases h
      exact absurd rfl hr

theorem ScratchEq.transferLength {p q : HttpParser} (h : ScratchEq p q) : p.transferLength = q.transferLength := by
  have := congrArg HttpParser.transferLength h.scrub
  exact this

theorem ScratchEq.chunked {p q : HttpParser} (h : ScratchEq p q) : p.chunked = q.chunked := by
  have := congrArg HttpParser.chunked h.scrub
  exact this

theorem ScratchEq.total {p q : HttpParser} (h : ScratchEq p q) : p.total = q.total := by
  rw [HttpParser.total, HttpParser.total, h.transferLength, h.offset, h.chunkOffset]

theorem ScratchEq.completed {p q : HttpParser} (h : ScratchEq p q) : ScratchEq p.completed q.completed := by
  refine ⟨?_, h.name⟩
  have (p : HttpParser) : p.completed.scrub = { p.scrub with complete := true } := rfl
  rw [this, this, h.scrub]

theorem ScratchEq.startBody {p q : HttpParser} (h : ScratchEq p q) : ScratchEq (startBody p) (startBody q) := by
  rw [h.eq_withScratch]
  unfold Tinywf.startBody
  have h1 : (p.withScratch q).chunked = p.chunked := rfl
  have h2 : (p.withScratch q).transferLength = p.transferLength := rfl
  rw [h1, h2]
  split
  · exact ⟨rfl, h.name⟩
  · split <;> exact ⟨rfl, h.name⟩

theorem Ready.respects {l : Bytes} {p q : HttpParser} (h : ScratchEq p q) (hi : Ready l p) : Ready l q where
  offset := h.offset ▸ hi.offset
  chunk := fun hs hc => by
    obtain ⟨hle, hic⟩ := hi.chunk (h.state.trans hs) (h.chunked.trans hc)
    exact ⟨by rw [← h.offset, ← h.chunkOffset]; exact hle, hic.respects h⟩

/-- The same result, and parsers that differ in scratch only. -/
structure SameResult (x y : Ret × HttpParser) : Prop where
  ret : y.1 = x.1
  state : ScratchEq x.2 y.2

theorem SameResult.refl (x : Ret × HttpParser) : SameResult x x := ⟨rfl, ScratchEq.refl _⟩

theorem SameResult.trans {x y z : Ret × HttpParser} (h : SameResult x y) (h' : SameResult y z) : SameResult x z :=
  ⟨h'.ret.trans h.ret, h.state.trans h'.state⟩

theorem SameResult.onDone {x y : Ret × HttpParser} (h : SameResult x y) {f : HttpParser → Ret × HttpParser}
    (hf : x.1 = .done → SameResult (f x.2) (f y.2)) : SameResult (onDone f x) (onDone f y) := by
  obtain ⟨r, p⟩ := x
  obtain ⟨r', q⟩ := y
  obtain ⟨hr, hs⟩ := h
  simp only at hr hs
  subst hr
  cases r' with
  | done => exact hf rfl
  | more => exact ⟨rfl, hs⟩
  | bad => exact ⟨rfl, hs⟩
  | fault => exact ⟨rfl, hs⟩

theorem parseChunk_sameResult {l : Bytes} {p q : HttpParser} (h : ScratchEq p q) (hi : InChunk l p) :
    SameResult (parseChunk l p) (parseChunk l q) := ⟨(parseChunk_congr h hi).1, (parseChunk_congr h hi).2⟩

theorem finishBody_congr {l : Bytes} {p q : HttpParser} (h : ScratchEq p q) (hi : Ready l p)
    (hs : p.headerState = .headerComplete) : SameResult (finishBody l p) (finishBody l q) := by
  by_cases ht : p.transferLength = sizeMax
  · by_cases hc : p.chunked = true
    · have hic := (hi.chunk hs hc).2
      rw [finishBody_chunks ht hc hic, finishBody_chunks (h.transferLength ▸ ht) (h.chunked ▸ hc) (hic.respects h)]
      have hr := parseChunk_sameResult h hic
      exact hr.onDone (fun _ => ⟨rfl, hr.state.completed⟩)
    · rw [finishBody_close ht hc, finishBody_close (h.transferLength ▸ ht) (h.chunked ▸ hc)]
      exact ⟨rfl, h⟩
  · rw [finishBody_length ht, finishBody_length (h.transferLength ▸ ht), h.offset, h.transferLength]
    split
    · exact ⟨rfl, h.completed⟩
    · exact ⟨rfl, h⟩

/-- A call that asked for more is resumed by the next one, from the header block on. -/
theorem finishBody_resume {l : Bytes} {p s : HttpParser} (m : Bytes) (hi : Ready l p)
    (hs : p.headerState = .headerComplete) (h : finishBody l p = (.more, s)) :
    SameResult (finishBody (l ++ m) p) (finishBody (l ++ m) s) := by
  by_cases ht : p.transferLength = sizeMax
  · by_cases hc : p.chunked = true
    · have hic := (hi.chunk hs hc).2
      rw [finishBody_chunks ht hc hic] at h
      rcases hq : parseChunk l p with ⟨r, u⟩
      rw [hq] at h
      have hd : r ≠ .done := by rintro rfl; cases h
      rw [onDone_eq hd] at h
      cases h
      obtain ⟨-, ⟨cs, n, rfl, -⟩, -, hin⟩ := parseChunk_post hic hq
      have hr : SameResult (parseChunk (l ++ m) p) (parseChunk (l ++ m) (p.atChunk cs n)) :=
        ⟨(parseChunk_resume m hic hq).1, (parseChunk_resume m hic hq).2⟩
      have hic' := (hin (by simp)).grow m
      have ht' : (p.atChunk cs n).transferLength = sizeMax := ht
      rw [finishBody_chunks ht hc (hic.grow m), finishBody_chunks ht' hc hic']
      exact hr.onDone (fun _ => ⟨rfl, hr.state.completed⟩)
    · rw [finishBody_close ht hc] at h
      cases h
      exact SameResult.refl _
  · rw [finishBody_length ht] at h
    split at h
    · cases h
    · cases h
      exact SameResult.refl _

/-- Where a message that was stuck is complete, it is longer than what it was stuck in. -/
theorem finishBody_beyond {l m : Bytes} {p q : HttpParser} (hi : Stuck l p) (hs : p.headerState = .headerComplete)
    (hd : finishBody (l ++ m) p = (.done, q)) : l.length < q.msgsize := by
  by_cases ht : p.transferLength = sizeMax
  · by_cases hc : p.chunked = true
    · have hic := (hi.chunk hs hc).2
      obtain ⟨r, x, hx, hr⟩ := hi.chunks hs ht hc
      rw [finishBody_chunks ht hc (hic.grow m)] at hd
      rcases hq : parseChunk (l ++ m) p with ⟨r', u⟩
      rw [hq] at hd
      cases r' with
      | done =>
        have hb := parseChunk_beyond hic hx hr hq
        obtain ⟨-, ⟨cs, n, rfl, -⟩, -⟩ := parseChunk_post (hic.grow m) hq
        cases hd
        show l.length < (p.atChunk cs n).total
        rw [atChunk_total ht]
        exact hb
      | _ => cases hd
    · rw [finishBody_close ht hc] at hd
      cases hd
  · rw [finishBody_length ht] at hd
    split at hd
    · cases hd
      have := hi.length hs ht
      show l.length < p.total
      rw [HttpParser.total, if_pos ht]
      exact this
    · cases hd

theorem parseMessage_eq (l : Bytes) (p : HttpParser) : parseMessage l p = onDone (finishBody l) (finishHeader l p) := by
  rw [parseMessage]
  rfl

theorem parseMessage_complete {l : Bytes} {p : HttpParser} (hs : p.headerState = .headerComplete) :
    parseMessage l p = finishBody l p := by
  rw [parseMessage_eq, finishHeader_complete hs, onDone]

/-- **What a call does with its bytes**: complete the message within them, or stay stuck in them; never a write or an
offset out of bounds. -/
theorem parseMessage_post {l : Bytes} {p q : HttpParser} {r : Ret} (hi : Ready l p) (h : parseMessage l p = (r, q)) :
    r ≠ .fault ∧ (r = .done → Completed l q) ∧ (r ≠ .done → Stuck l q ∧ SameFrame p q) := by
  by_cases hs : p.headerState = .headerComplete
  · rw [parseMessage_complete hs] at h
    obtain ⟨h1, h2, h3⟩ := finishBody_post hi hs h
    exact ⟨h1, h2, fun hr => ⟨(h3 hr).1, (h3 hr).2.1⟩⟩
  · have hih := hi.inHeader hs
    have hrun := parseMessageHeader_run hih
    have hframe := parseMessageHeader_sameFrame l p
    rw [parseMessage_eq, finishHeader_open hs] at h
    rcases hq : parseMessageHeader l p with ⟨r', u⟩
    rw [hq] at h hrun hframe
    obtain ⟨hf, -, hle, hdone, hst⟩ := parseMessageHeader_post hih hq
    by_cases hd : r' = .done
    · subst hd
      have hready : Ready l (startBody u) := startBody_ready hle
      obtain ⟨h1, h2, h3⟩ := finishBody_post hready ((startBody_state u).1.trans (hdone rfl).1) h
      exact ⟨h1, h2, fun hr => ⟨(h3 hr).1, (hframe.trans (startBody_sameFrame u)).trans (h3 hr).2.1⟩⟩
    · rw [onDone_onDone_eq hd] at h
      cases h
      have hopen := (hst hd).open_
      obtain ⟨t, ht⟩ := (headerPass_resumable.stalled hih hrun hd).2
      exact ⟨hf, fun h => absurd h hd, fun _ => ⟨⟨⟨hle, fun h => absurd h hopen⟩, fun _ => ⟨r, t, ht, hd⟩,
        fun h => absurd h hopen, fun h => absurd h hopen⟩, hframe⟩⟩

/-- **A call that did not ask for more ends the same with more.** -/
theorem parseMessage_stable {l : Bytes} {p q : HttpParser} {r : Ret} (m : Bytes) (hi : Ready l p)
    (h : parseMessage l p = (r, q)) (hr : r ≠ .more) : parseMessage (l ++ m) p = (r, q) := by
  by_cases hs : p.headerState = .headerComplete
  · rw [parseMessage_complete hs] at h ⊢
    exact finishBody_stable m hi hs h hr
  · have hih := hi.inHeader hs
    rw [parseMessage_eq, finishHeader_open hs] at h ⊢
    rcases hq : parseMessageHeader l p with ⟨r', u⟩
    rw [hq] at h
    obtain ⟨-, -, hle, hdone, -⟩ := parseMessageHeader_post hih hq
    by_cases hd : r' = .done
    · subst hd
      rw [parseMessageHeader_stable m hih hq (by simp)]
      exact finishBody_stable m (startBody_ready hle) ((startBody_state u).1.trans (hdone rfl).1) h hr
    · rw [onDone_onDone_eq hd] at h
      cases h
      rw [parseMessageHeader_stable m hih hq hr, onDone_onDone_eq hd]

/-- What follows the header block does not read the scratch. -/
theorem startBody_finishBody_congr {l : Bytes} {x y : Ret × HttpParser} (h : SameResult x y)
    (hx : x.1 = .done → x.2.headerOffset ≤ l.length ∧ x.2.headerState = .headerComplete) :
    SameResult (onDone (finishBody l) (onDone (fun q => (.done, startBody q)) x))
      (onDone (finishBody l) (onDone (fun q => (.done, startBody q)) y)) := by
  refine (h.onDone (fun _ => ⟨rfl, h.state.startBody⟩)).onDone (fun hd => ?_)
  obtain ⟨r, u⟩ := x
  cases r with
  | done =>
    obtain ⟨r', v⟩ := y
    cases h.ret
    obtain ⟨hle, hst⟩ := hx rfl
    exact finishBody_congr h.state.startBody (startBody_ready hle) ((startBody_state u).1.trans hst)
  | _ => cases hd

theorem parseMessage_congr {l : Bytes} {p q : HttpParser} (h : ScratchEq p q) (hi : Ready l p) :
    SameResult (parseMessage l p) (parseMessage l q) := by
  by_cases hs : p.headerState = .headerComplete
  · rw [parseMessage_complete hs, parseMessage_complete (h.state ▸ hs)]
    exact finishBody_congr h hi hs
  · have hih := hi.inHeader hs
    rw [parseMessage_eq, finishHeader_open hs, parseMessage_eq, finishHeader_open (h.state ▸ hs)]
    refine startBody_finishBody_congr ⟨(parseMessageHeader_congr h hih).1, (parseMessageHeader_congr h hih).2⟩
      (fun hd => ?_)
    obtain ⟨-, -, hle, hdone, -⟩ := parseMessageHeader_post hih (r := .done) (q := (parseMessageHeader l p).2)
      (by rw [← hd])
    exact ⟨hle, (hdone rfl).1⟩

/-- **A call that asked for more, entered again with more, is the call on the whole.** -/
theorem parseMessage_resume {l : Bytes} {p s : HttpParser} (m : Bytes) (hi : Ready l p)
    (h : parseMessage l p = (.more, s)) : SameResult (parseMessage (l ++ m) p) (parseMessage (l ++ m) s) := by
  by_cases hs : p.headerState = .headerComplete
  · rw [parseMessage_complete hs] at h
    have hst := ((finishBody_post hi hs h).2.2 (by simp)).2.2
    rw [parseMessage_complete hs, parseMessage_complete hst]
    exact finishBody_resume m hi hs h
  · have hih := hi.inHeader hs
    rw [parseMessage_eq, finishHeader_open hs] at h
    rw [parseMessage_eq, finishHeader_open hs]
    rcases hq : parseMessageHeader l p with ⟨r, u⟩
    rw [hq] at h
    obtain ⟨-, -, hle, hdone, hin⟩ := parseMessageHeader_post hih hq
    by_cases hd : r = .done
    · -- the header block was there: only the body is resumed
      subst hd
      have hready : Ready l (startBody u) := startBody_ready hle
      have hub := (startBody_state u).1.trans (hdone rfl).1
      have hst := ((finishBody_post hready hub h).2.2 (by simp)).2.2
      rw [parseMessageHeader_stable m hih hq (by simp), parseMessage_complete hst]
      exact finishBody_resume m hready hub h
    · rw [onDone_onDone_eq hd] at h
      cases h
      rw [parseMessage_eq, finishHeader_open (hin hd).open_]
      obtain ⟨hr1, hr2⟩ := parseMessageHeader_resume m hih hq
      refine startBody_finishBody_congr ⟨hr1, hr2⟩ (fun hd' => ?_)
      have hpost := parseMessageHeader_post (hih.grow m) (r := .done) (q := (parseMessageHeader (l ++ m) p).2)
        (by rw [← hd'])
      exact ⟨hpost.2.2.1, (hpost.2.2.2.1 rfl).1⟩

/-- **What completes a message that was stuck lies beyond the bytes it was stuck in.** -/
theorem parseMessage_beyond {l m : Bytes} {p q : HttpParser} (hi : Stuck l p)
    (hd : parseMessage (l ++ m) p = (.done, q)) : l.length < q.msgsize := by
  by_cases hs : p.headerState = .headerComplete
  · rw [parseMessage_complete hs] at hd
    exact finishBody_beyond hi hs hd
  · have hih := hi.inHeader hs
    obtain ⟨r, x, hx, hr⟩ := hi.header hs
    rw [parseMessage_eq, finishHeader_open hs] at hd
    rcases hq : parseMessageHeader (l ++ m) p with ⟨r', u⟩
    rw [hq] at hd
    cases r' with
    | done =>
      have hb := parseMessageHeader_beyond hih hx hr hq
      obtain ⟨-, -, hle, hdone, -⟩ := parseMessageHeader_post (hih.grow m) hq
      have hready : Ready (l ++ m) (startBody u) := startBody_ready hle
      have hub := (startBody_state u).1.trans (hdone rfl).1
      have hc := ((finishBody_post hready hub hd).2.1 rfl).offset
      obtain ⟨cs, n, k, b, hshape⟩ := finishBody_shape hready hub
      rw [show (finishBody (l ++ m) (startBody u)).2 = q from congrArg Prod.snd hd] at hshape
      have hoff : q.headerOffset = u.headerOffset := by
        rw [hshape]
        exact (startBody_state u).2
      omega
    | _ => cases hd

end Tinywf
