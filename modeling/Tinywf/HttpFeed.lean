import Tinywf.HttpCalls
/-!
# HttpFeed — whole sequences of calls

Cutting the input does not matter (`feed_cut`): a sequence of calls is one run of `parseMessage` on all the bytes.  And
what every sequence keeps (`appendAll_bounds`): the offsets stay in the message, the message stays in its buffer, no
call leaves what C defines, and what the calls consume is the message.
-/
namespace Tinywf

open CLib

/-- A parser fresh from `http_parser_init`, for a response that may have no body after `parse_zero_body`. -/
def fresh (isResp zeroBody : Bool) (p : HttpParser) : HttpParser :=
  if zeroBody then parseZeroBody (httpParserInit isResp p) else httpParserInit isResp p

/-! ## The buffer -/

theorem le_growSize {need : Nat} : ∀ {n size : Nat}, 0 < size → need ≤ size + n → need ≤ growSize need n size
  | 0, _, _, h => h
  | n + 1, size, hpos, h => by
    unfold growSize
    split
    · exact le_growSize (by omega) (by omega)
    · omega

theorem reserve_room (n : Nat) (p : HttpParser) : p.msgsize + n + 1 ≤ (reserve n p).bufsize := by
  unfold reserve
  simp only
  split
  · exact le_growSize (by unfold HTTP_MSGBUF_INIT_SIZE; omega) (by omega)
  · omega

theorem reserve_eq (n : Nat) (p : HttpParser) : ∃ k, reserve n p = { p with bufsize := k } := by
  unfold reserve
  simp only
  split
  · exact ⟨_, rfl⟩
  · exact ⟨p.bufsize, rfl⟩

theorem received_eq (buf : Bytes) (p : HttpParser) : ∃ k, p.msgsize + buf.length + 1 ≤ k ∧ received buf p =
    { p with msgbuf := p.msgbuf.take p.msgsize ++ buf, msgsize := p.msgsize + buf.length, bufsize := k } := by
  obtain ⟨k, hk⟩ := reserve_eq buf.length p
  have := reserve_room buf.length p
  rw [hk] at this
  exact ⟨k, this, by rw [received, hk]⟩

theorem received_scratchEq (buf : Bytes) (p : HttpParser) : ScratchEq p (received buf p) := by
  obtain ⟨k, -, hk⟩ := received_eq buf p
  rw [hk]
  exact ⟨rfl, fun _ => rfl⟩

/-! ## One call -/

/-- A parser between two calls, its message `l` not complete. -/
structure Between (l : Bytes) (p : HttpParser) : Prop where
  stuck : Stuck l p
  complete : p.complete = false
  buf : p.msgbuf.take p.msgsize = l
  size : p.msgsize = l.length
  room : p.bufsize ≠ 0 → p.msgsize + 1 ≤ p.bufsize

theorem Stuck.respects {l : Bytes} {p q : HttpParser} (h : ScratchEq p q) (hi : Stuck l p) : Stuck l q where
  toReady := hi.toReady.respects h
  header := fun hs => by
    have hs' : p.headerState ≠ .headerComplete := h.state ▸ hs
    obtain ⟨r, x, hx, hr⟩ := hi.header hs'
    have := headerPass_congr h (hi.toReady.inHeader hs')
    rw [hx] at this
    cases hq : headerPass l q with
    | again y => rw [hq] at this; cases this
    | exit r' y => rw [hq] at this; cases this; exact ⟨r, y, rfl, hr⟩
  length := fun hs ht => by
    rw [← h.offset, ← h.transferLength]
    exact hi.length (h.state.trans hs) (h.transferLength ▸ ht)
  chunks := fun hs ht hc => by
    have hs' := h.state.trans hs
    have hc' := h.chunked.trans hc
    obtain ⟨r, x, hx, hr⟩ := hi.chunks hs' (h.transferLength.trans ht) hc'
    have := chunkPass_congr h (hi.toReady.chunk hs' hc').2
    rw [hx] at this
    cases hq : chunkPass l q with
    | again y => rw [hq] at this; cases this
    | exit r' y => rw [hq] at this; cases this; exact ⟨r, y, rfl, hr⟩

/-- No step writes the message or gives its buffer another size. -/
theorem parseMessage_buffer {l : Bytes} {p : HttpParser} (hi : Ready l p) :
    (parseMessage l p).2.msgbuf = p.msgbuf ∧ (parseMessage l p).2.bufsize = p.bufsize := by
  by_cases hs : p.headerState = .headerComplete
  · obtain ⟨cs, n, k, b, h⟩ := finishBody_shape hi hs
    rw [parseMessage_complete hs, h]
    exact ⟨rfl, rfl⟩
  · have hih := hi.inHeader hs
    have hframe := parseMessageHeader_sameFrame l p
    rw [parseMessage_eq, finishHeader_open hs]
    rcases hq : parseMessageHeader l p with ⟨r, u⟩
    rw [hq] at hframe
    obtain ⟨-, -, hle, hdone, -⟩ := parseMessageHeader_post hih hq
    have hsb := startBody_sameFrame u
    cases r with
    | done =>
      obtain ⟨cs, n, k, b, h⟩ := finishBody_shape (startBody_ready hle) ((startBody_state u).1.trans (hdone rfl).1)
      simp only [onDone]
      rw [h]
      exact ⟨hsb.msgbuf.trans hframe.msgbuf, hsb.bufsize.trans hframe.bufsize⟩
    | _ => exact ⟨hframe.msgbuf, hframe.bufsize⟩

/-- **What one call does**: `parseMessage` on all the bytes so far; the message goes on, or it is complete within this
call's bytes. -/
theorem append_post {l buf : Bytes} {p s : HttpParser} {r : Ret} {n : Nat} (hb : Between l p)
    (h : httpParserAppendMessage buf p = (r, n, s)) :
    r ≠ .fault ∧ SameResult (parseMessage (l ++ buf) p) (r, s) ∧
      (r ≠ .done → n = buf.length ∧ Between (l ++ buf) s) ∧
      (r = .done → Completed (l ++ buf) s ∧ l.length < s.msgsize ∧ l.length + n = s.msgsize ∧ s.msgbuf = l ++ buf ∧
        s.msgsize + 1 ≤ s.bufsize) := by
  have hsc := received_scratchEq buf p
  have hready := hb.stuck.toReady.grow buf
  obtain ⟨k, hk, hrec⟩ := received_eq buf p
  have hbuf : (received buf p).msgbuf = l ++ buf := by rw [hrec, hb.buf]
  have hsize : (received buf p).msgsize = l.length + buf.length := by rw [hrec, hb.size]
  have hroom : (received buf p).msgsize + 1 ≤ (received buf p).bufsize := by rw [hrec]; exact hk
  have htake : (received buf p).msgbuf.take (received buf p).msgsize = l ++ buf := by
    rw [hbuf, hsize, ← List.length_append, List.take_length]
  rw [httpParserAppendMessage, if_neg (by rw [hb.complete]; simp)] at h
  simp only at h
  rw [htake, hsize] at h
  have hcongr := parseMessage_congr hsc hready
  have hbuffer := parseMessage_buffer (hready.respects hsc)
  rcases hq : parseMessage (l ++ buf) (received buf p) with ⟨r', u⟩
  rw [hq] at h hcongr hbuffer
  obtain ⟨hf, hdone, hst⟩ := parseMessage_post (hready.respects hsc) hq
  have hlen : (l ++ buf).length = l.length + buf.length := List.length_append
  by_cases hd : r' = .done
  · subst hd
    have hc := hdone rfl
    have hlt := parseMessage_beyond (hb.stuck.respects hsc) hq
    have hle := hc.size
    simp only at h
    rw [if_pos (by omega)] at h
    cases h
    refine ⟨by simp, hcongr, fun h => absurd rfl h, fun _ => ⟨hc, hlt, by omega, hbuffer.1.trans hbuf, ?_⟩⟩
    rw [show s.bufsize = (received buf p).bufsize from hbuffer.2]
    omega
  · have hru : r = r' ∧ n = buf.length ∧ s = u := by cases r' <;> simp_all
    obtain ⟨rfl, rfl, rfl⟩ := hru
    obtain ⟨hstuck, hframe⟩ := hst hd
    refine ⟨hf, hcongr, fun _ => ⟨rfl, hstuck, ?_, ?_, ?_, fun _ => ?_⟩, fun h => absurd h hd⟩
    · rw [hframe.complete, hrec]
      exact hb.complete
    · rw [hframe.msgbuf, hframe.msgsize]
      exact htake
    · rw [hframe.msgsize, hsize, hlen]
    · rw [hframe.msgsize, hframe.bufsize]
      exact hroom

theorem fresh_eq (isResp zeroBody : Bool) (p : HttpParser) : ∃ n,
    fresh isResp zeroBody p = { httpParserInit isResp p with transferLength := n } := by
  unfold fresh
  split
  · exact ⟨0, rfl⟩
  · exact ⟨sizeMax, rfl⟩

theorem fresh_between (isResp zeroBody : Bool) (p : HttpParser) : Between [] (fresh isResp zeroBody p) := by
  obtain ⟨n, hn⟩ := fresh_eq isResp zeroBody p
  rw [hn]
  exact {
    stuck := {
      offset := Nat.le_refl 0
      chunk := fun h => by cases h
      header := fun _ => ⟨.more, _, rfl, by simp⟩
      length := fun h => by cases h
      chunks := fun h => by cases h }
    complete := rfl
    buf := rfl
    size := rfl
    room := fun h => absurd rfl h }

/-! ## Cutting the input -/

/-- The parser `p` is where `x` is after the bytes `l`. -/
structure Follows (x : HttpParser) (l : Bytes) (p : HttpParser) : Prop where
  ready : Ready [] x
  between : Between l p
  run : SameResult (parseMessage l x) (.more, p)

theorem Follows.start {x : HttpParser} (hb : Between [] x) (hx : parseMessage [] x = (.more, x)) : Follows x [] x :=
  ⟨hb.stuck.toReady, hb, by rw [hx]; exact SameResult.refl _⟩

theorem Follows.ready_at {x p : HttpParser} {l : Bytes} (h : Follows x l p) : Ready l x := h.ready.grow l

/-- A parser that follows makes of more bytes what the first one makes of all of them. -/
theorem Follows.parse {x p : HttpParser} {l : Bytes} (h : Follows x l p) (m : Bytes) :
    SameResult (parseMessage (l ++ m) x) (parseMessage (l ++ m) p) := by
  rcases hq : parseMessage l x with ⟨r, t⟩
  have hr : r = .more := by
    have := h.run.ret
    rw [hq] at this
    exact this.symm
  subst hr
  have htp : ScratchEq t p := by
    have := h.run.state
    rwa [hq] at this
  have hready : Ready l t := ((parseMessage_post h.ready_at hq).2.2 (by simp)).1.toReady
  exact (parseMessage_resume m h.ready_at hq).trans (parseMessage_congr htp (hready.grow m))

/-- **A sequence of calls is one run on all its bytes.** -/
theorem feed_run {x : HttpParser} : ∀ (frags : List Bytes) {l : Bytes} {p s : HttpParser} {r : Ret} {n : Nat},
    Follows x l p → feed frags p = (r, n, s) →
    SameResult (parseMessage (l ++ frags.flatten) x) (r, s) ∧ r ≠ .fault ∧
      (r = .more → n = frags.flatten.length ∧ Between (l ++ frags.flatten) s) ∧
      (r = .done → Completed (l ++ frags.flatten) s ∧ l.length + n = s.msgsize ∧
        s.msgbuf.take s.msgsize = (l ++ frags.flatten).take s.msgsize)
  | [], l, p, s, r, n, hf, h => by
    cases h
    simp only [List.flatten_nil, List.append_nil, List.length_nil]
    exact ⟨hf.run, by simp, fun _ => ⟨trivial, hf.between⟩, fun h => by cases h⟩
  | buf :: rest, l, p, s, r, n, hf, h => by
    rcases hq : httpParserAppendMessage buf p with ⟨r', k, q⟩
    obtain ⟨hfault, hsame, hmore, hdone⟩ := append_post hf.between hq
    have hone : SameResult (parseMessage (l ++ buf) x) (r', q) := (hf.parse buf).trans hsame
    have hflat : l ++ (buf :: rest).flatten = l ++ buf ++ rest.flatten := by
      rw [List.flatten_cons, List.append_assoc]
    rw [hflat]
    rw [feed, hq] at h
    by_cases hm : r' = .more
    · subst hm
      obtain ⟨hk, hb⟩ := hmore (by simp)
      rcases hr : feed rest q with ⟨r'', k', u⟩
      simp only [hr] at h
      cases h
      obtain ⟨h1, h2, h3, h4⟩ := feed_run rest ⟨hf.ready, hb, hone⟩ hr
      refine ⟨h1, h2, fun hr => ⟨?_, (h3 hr).2⟩, fun hr => ⟨(h4 hr).1, ?_, (h4 hr).2.2⟩⟩
      · rw [(h3 hr).1, hk, List.flatten_cons, List.length_append]
      · have := (h4 hr).2.1
        rw [List.length_append] at this
        omega
    · have heq : (r', k, q) = (r, n, s) := by cases r' <;> first | exact h | exact absurd rfl hm
      cases heq
      rcases ht : parseMessage (l ++ buf) x with ⟨r'', t⟩
      obtain rfl : r = r'' := by
        have := hone.ret
        rwa [ht] at this
      have hgrow := parseMessage_stable rest.flatten (hf.ready_at.grow buf) ht hm
      rw [ht] at hone
      rw [hgrow]
      refine ⟨hone, hfault, fun h => absurd h hm, fun hd => ?_⟩
      obtain ⟨hc, -, hn, hbuf, -⟩ := hdone hd
      have hle := hc.size
      refine ⟨⟨hc.complete, hc.header, hc.offset, ?_, hc.total⟩, hn, ?_⟩
      · rw [List.length_append]; omega
      · rw [hbuf, List.take_append_of_le_length hle]

/-- What a caller can see of a parser: all but the name buffer and the room in the message buffer. -/
def HttpParser.view (p : HttpParser) : HttpParser :=
  { p with namebuf := [], bufsize := 0, msgbuf := p.msgbuf.take p.msgsize }

theorem ScratchEq.view {p q : HttpParser} (h : ScratchEq p q) (hs : p.msgsize = q.msgsize)
    (hb : p.msgbuf.take p.msgsize = q.msgbuf.take q.msgsize) : p.view = q.view := by
  have (p : HttpParser) : p.view = { p.scrub with msgsize := p.msgsize, msgbuf := p.msgbuf.take p.msgsize } := rfl
  rw [this, this, h.scrub, hb, hs]

theorem fresh_follows (isResp zeroBody : Bool) (p : HttpParser) :
    Follows (fresh isResp zeroBody p) [] (fresh isResp zeroBody p) := by
  refine Follows.start (fresh_between isResp zeroBody p) ?_
  obtain ⟨n, hn⟩ := fresh_eq isResp zeroBody p
  rw [hn]
  rfl

theorem feed_one (buf : Bytes) (p : HttpParser) : feed [buf] p = httpParserAppendMessage buf p := by
  rw [feed]
  rcases httpParserAppendMessage buf p with ⟨r, n, q⟩
  cases r <;> rfl

/-- **However the input is cut, the outcome is that of one call with all of it.** -/
theorem feed_cut (p : HttpParser) (isResp zeroBody : Bool) (frags : List Bytes) :
    let cut := feed frags (fresh isResp zeroBody p)
    let whole := httpParserAppendMessage frags.flatten (fresh isResp zeroBody p)
    cut.1 = whole.1 ∧ cut.1 ≠ .fault ∧
      (cut.1 = .done ∨ cut.1 = .more → cut.2.2.view = whole.2.2.view ∧ cut.2.1 = whole.2.1) := by
  intro cut whole
  have hf := fresh_follows isResp zeroBody p
  obtain ⟨hs, hfault, hmore, hdone⟩ :=
    feed_run frags hf (show feed frags (fresh isResp zeroBody p) = (cut.1, cut.2.1, cut.2.2) from rfl)
  obtain ⟨hs', -, hmore', hdone'⟩ := feed_run [frags.flatten] hf
    (show feed [frags.flatten] (fresh isResp zeroBody p) = (whole.1, whole.2.1, whole.2.2) from feed_one _ _)
  simp only [List.nil_append, List.flatten_cons, List.flatten_nil, List.append_nil, List.length_nil, Nat.zero_add] at *
  have hret : cut.1 = whole.1 := hs.ret.trans hs'.ret.symm
  have hsc : ScratchEq cut.2.2 whole.2.2 := hs.state.symm.trans hs'.state
  refine ⟨hret, hfault, fun h => ?_⟩
  rcases h with h | h
  · obtain ⟨hc, hn, hb⟩ := hdone h
    obtain ⟨hc', hn', hb'⟩ := hdone' (hret ▸ h)
    have hsize : cut.2.2.msgsize = whole.2.2.msgsize := by rw [hc.total, hc'.total, hsc.total]
    exact ⟨hsc.view hsize (by rw [hb, hb', hsize]), by omega⟩
  · obtain ⟨hn, hb⟩ := hmore h
    obtain ⟨hn', hb'⟩ := hmore' (hret ▸ h)
    exact ⟨hsc.view (by rw [hb.size, hb'.size]) (by rw [hb.buf, hb'.buf]), by rw [hn, hn']⟩

/-! ## Every sequence of calls -/

/-- Calls with one fragment after another, whatever they return: the bytes consumed in all and the parser. -/
def appendAll : List Bytes → HttpParser → Nat × HttpParser
  | [], p => (0, p)
  | buf :: rest, p =>
    let r := httpParserAppendMessage buf p
    let s := appendAll rest r.2.2
    (r.2.1 + s.1, s.2)

/-- What holds of a parser between any two calls. -/
inductive Sound (p : HttpParser) : Prop
  | between (l : Bytes) : Between l p → Sound p
  | completed (l : Bytes) : Completed l p → p.msgsize + 1 ≤ p.bufsize → Sound p

theorem Sound.offset {p : HttpParser} (h : Sound p) : p.headerOffset ≤ p.msgsize := by
  cases h with
  | between l hb =>
    have := hb.stuck.offset
    rw [hb.size]
    exact this
  | completed l hc _ => exact hc.offset

theorem Sound.room {p : HttpParser} (h : Sound p) (hb : p.bufsize ≠ 0) : p.msgsize + 1 ≤ p.bufsize := by
  cases h with
  | between l hb' => exact hb'.room hb
  | completed l _ hr => exact hr

theorem Sound.chunk {p : HttpParser} (h : Sound p) (hs : p.headerState = .headerComplete)
    (ht : p.transferLength = sizeMax) (hc : p.chunked = true) :
    p.headerOffset ≤ p.chunkOffset ∧ p.chunkOffset ≤ p.msgsize := by
  cases h with
  | between l hb =>
    obtain ⟨h1, h2⟩ := hb.stuck.chunk hs hc
    rw [hb.size]
    exact ⟨h1, h2.le⟩
  | completed l hcm _ =>
    have htot : p.msgsize = p.chunkOffset := hcm.total.trans (if_neg (not_not.2 ht))
    rw [← htot]
    exact ⟨hcm.offset, Nat.le_refl _⟩

/-- The NUL that `http_parser_get_body` writes behind the body has room. -/
theorem Sound.body {p q : HttpParser} {off size : Nat} (h : Sound p) (hg : httpParserGetBody p = some (off, size, q)) :
    off + size = p.msgsize ∧ p.msgsize < p.bufsize := by
  have hoff := h.offset
  unfold httpParserGetBody at hg
  split at hg
  · rename_i hc
    cases hg
    refine ⟨by omega, ?_⟩
    cases h with
    | between l hb => rw [hb.complete] at hc; cases hc.1
    | completed l _ hr => exact hr
  · cases hg

/-- **One call, from any state between calls.** -/
theorem Sound.append {p s : HttpParser} {buf : Bytes} {r : Ret} {n : Nat} (h : Sound p)
    (ha : httpParserAppendMessage buf p = (r, n, s)) :
    Sound s ∧ r ≠ .fault ∧ n ≤ buf.length ∧ p.msgsize + n = s.msgsize ∧
      (r = .done → p.complete = false → 1 ≤ n) := by
  cases h with
  | between l hb =>
    obtain ⟨hf, -, hmore, hdone⟩ := append_post hb ha
    rw [hb.size]
    by_cases hd : r = .done
    · obtain ⟨hc, hlt, hn, -, hroom⟩ := hdone hd
      have hle := hc.size
      rw [List.length_append] at hle
      exact ⟨.completed _ hc hroom, hf, by omega, hn, fun _ _ => by omega⟩
    · obtain ⟨hn, hb'⟩ := hmore hd
      refine ⟨.between _ hb', hf, Nat.le_of_eq hn, ?_, fun h => absurd h hd⟩
      rw [hb'.size, List.length_append, hn]
  | completed l hc hr =>
    rw [httpParserAppendMessage, if_pos hc.complete] at ha
    cases ha
    exact ⟨.completed l hc hr, by simp, Nat.zero_le _, rfl, fun _ h => by rw [hc.complete] at h; cases h⟩

/-- Every sequence of calls keeps what holds between calls, and consumes what is in the message. -/
theorem appendAll_sound : ∀ (frags : List Bytes) {p : HttpParser}, Sound p →
    Sound (appendAll frags p).2 ∧ p.msgsize + (appendAll frags p).1 = (appendAll frags p).2.msgsize
  | [], _, h => ⟨h, rfl⟩
  | buf :: rest, p, h => by
    rcases hq : httpParserAppendMessage buf p with ⟨r, n, q⟩
    obtain ⟨hs, -, -, hn, -⟩ := h.append hq
    obtain ⟨hs', hn'⟩ := appendAll_sound rest hs
    simp only [appendAll, hq]
    exact ⟨hs', by rw [← Nat.add_assoc, hn, hn']⟩

/-- **What every sequence of calls keeps**: the offsets in the message, the message and the NUL behind it in the
buffer, the bytes consumed equal to the message; and one more call stays within what C defines. -/
theorem appendAll_bounds (p : HttpParser) (isResp zeroBody : Bool) (frags : List Bytes) (buf : Bytes) :
    let s := appendAll frags (fresh isResp zeroBody p)
    let r := httpParserAppendMessage buf s.2
    s.2.headerOffset ≤ s.2.msgsize ∧
    (s.2.bufsize ≠ 0 → s.2.msgsize + 1 ≤ s.2.bufsize) ∧
    (s.2.headerState = .headerComplete → s.2.transferLength = sizeMax → s.2.chunked = true →
      s.2.headerOffset ≤ s.2.chunkOffset ∧ s.2.chunkOffset ≤ s.2.msgsize) ∧
    (∀ off size q, httpParserGetBody s.2 = some (off, size, q) →
      off + size = s.2.msgsize ∧ s.2.msgsize < s.2.bufsize) ∧
    s.1 = s.2.msgsize ∧
    r.1 ≠ .fault ∧ r.2.1 ≤ buf.length ∧ (r.1 = .done → s.2.complete = false → 1 ≤ r.2.1) := by
  intro s r
  have hb := fresh_between isResp zeroBody p
  have hsize : (fresh isResp zeroBody p).msgsize = 0 := hb.size
  obtain ⟨hs, hn⟩ := appendAll_sound frags (Sound.between _ hb)
  obtain ⟨-, hf, hle, -, hone⟩ := hs.append (show httpParserAppendMessage buf s.2 = (r.1, r.2.1, r.2.2) from rfl)
  exact ⟨hs.offset, hs.room, hs.chunk, fun _ _ _ => hs.body, by simp only [s]; omega, hf, hle, hone⟩

end Tinywf
