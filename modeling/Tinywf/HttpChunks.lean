import Tinywf.HttpResume
/-!
# HttpChunks — nor do the chunks

The same for the loop of `__parse_chunk`: what one pass can do (`chunkPass_cases`), that the loop is resumable
(`chunkPass_resumable`), that it ends within the message (`parseChunk_run`, `parseChunk_post`), and that chunks that
were stuck end beyond the bytes they were stuck in (`parseChunk_beyond`).
-/
namespace Tinywf

open CLib
open Loop (Pass PassRel doWhile Resumable)

/-! ## The sub-parsers -/

theorem clampLong_range (neg : Bool) (n : Nat) : -(2 ^ 63 : Int) ≤ clampLong neg n ∧ clampLong neg n < 2 ^ 63 := by
  unfold clampLong LONG_MAX
  split <;> omega

theorem strtol_range {base : Nat} {s rest : Bytes} {n : Int} (h : strtol base s = some (n, rest)) :
    -(2 ^ 63 : Int) ≤ n ∧ n < 2 ^ 63 := by
  unfold strtol at h
  simp only at h
  split at h
  · cases h
  · cases h
    exact clampLong_range _ _

/-- `(unsigned long)n < CHUNK_SIZE_MAX` lets no negative size through. -/
theorem chunkSize_nonneg {n : Int} (hr : -(2 ^ 63 : Int) ≤ n ∧ n < 2 ^ 63) (h : (n % 2 ^ 64).toNat < CHUNK_SIZE_MAX) :
    0 ≤ n ∧ n.toNat < CHUNK_SIZE_MAX := by
  unfold CHUNK_SIZE_MAX HTTP_CHUNK_LINE_MAX at *
  omega

/-- **What `__parse_chunk_data` can do**: stop, take the last chunk's line, or take a chunk that is all there. -/
theorem parseChunkData_cases (ptr : Bytes) :
    (∃ r, r ≠ .done ∧ r ≠ .fault ∧ ∀ p, parseChunkData ptr p = (r, p)) ∨
    (∃ line rest, lineScan HTTP_CHUNK_LINE_MAX (fun _ => false) ptr = (.found, line) ∧ strtol 16 line = some (0, rest) ∧
      ∀ p, parseChunkData ptr p =
        (.done, { p with chunkState := .trailerPart, chunkOffset := p.chunkOffset + (line.length + 2) })) ∨
    (∃ (line : Bytes) (n : Nat) (rest : Bytes), lineScan HTTP_CHUNK_LINE_MAX (fun _ => false) ptr = (.found, line) ∧
      strtol 16 line = some ((n : Int), rest) ∧ 0 < n ∧ n < CHUNK_SIZE_MAX ∧ n + (line.length + 4) ≤ ptr.length ∧
      ∀ p, parseChunkData ptr p =
        (.done, { p with chunkOffset := p.chunkOffset + (n + (line.length + 4)) })) := by
  unfold parseChunkData parseChunkLine
  rcases hl : lineScan HTTP_CHUNK_LINE_MAX (fun _ => false) ptr with ⟨r, line⟩
  cases r with
  | more => exact .inl ⟨.more, by simp, by simp, fun _ => rfl⟩
  | bad => exact .inl ⟨.bad, by simp, by simp, fun _ => rfl⟩
  | overrun => exact absurd (by rw [hl]) (lineScan_overrun HTTP_CHUNK_LINE_MAX (fun _ => false) ptr)
  | found =>
    cases hn : strtol 16 line with
    | none => exact .inl ⟨.bad, by simp, by simp, fun p => by simp [hn]⟩
    | some x =>
      obtain ⟨n, rest⟩ := x
      by_cases h0 : n = 0
      · subst h0
        exact .inr (.inl ⟨line, rest, rfl, hn, fun p => by simp [hn]⟩)
      · by_cases hlt : (n % 2 ^ 64).toNat < CHUNK_SIZE_MAX
        · obtain ⟨hn0, hmax⟩ := chunkSize_nonneg (strtol_range hn) hlt
          by_cases hlen : ptr.length < n.toNat + (line.length + 4)
          · exact .inl ⟨.more, by simp, by simp, fun p => by
              simp only [hn, Option.map_some, if_neg h0, if_pos hlt, if_pos hlen]⟩
          · refine .inr (.inr ⟨line, n.toNat, rest, rfl, ?_, by omega, hmax, by omega, fun p => ?_⟩)
            · rw [Int.toNat_of_nonneg hn0, hn]
            · simp only [hn, Option.map_some, if_neg h0, if_pos hlt, if_neg hlen]
        · exact .inl ⟨.bad, by simp, by simp, fun p => by simp only [hn, Option.map_some, if_neg h0, if_neg hlt]⟩

/-- **What `__parse_trailer_part` can do**: stop, end the trailer, or take a line of it. -/
theorem parseTrailerPart_cases (ptr : Bytes) :
    (∃ r, r ≠ .done ∧ r ≠ .fault ∧ ∀ p, parseTrailerPart ptr p = (r, p)) ∨
    (lineScan HTTP_TRAILER_LINE_MAX (fun _ => false) ptr = (.found, []) ∧ ∀ p, parseTrailerPart ptr p =
      (.done, { p with chunkState := .chunkComplete, chunkOffset := p.chunkOffset + 2 })) ∨
    (∃ line, line ≠ [] ∧ lineScan HTTP_TRAILER_LINE_MAX (fun _ => false) ptr = (.found, line) ∧
      ∀ p, parseTrailerPart ptr p = (.done, { p with chunkOffset := p.chunkOffset + (line.length + 2) })) := by
  unfold parseTrailerPart
  rcases hl : lineScan HTTP_TRAILER_LINE_MAX (fun _ => false) ptr with ⟨r, line⟩
  cases r with
  | more => exact .inl ⟨.more, by simp, by simp, fun _ => rfl⟩
  | bad => exact .inl ⟨.bad, by simp, by simp, fun _ => rfl⟩
  | overrun => exact absurd (by rw [hl]) (lineScan_overrun HTTP_TRAILER_LINE_MAX (fun _ => false) ptr)
  | found =>
    cases line with
    | nil => exact .inr (.inl ⟨rfl, fun p => by simp⟩)
    | cons b t => exact .inr (.inr ⟨b :: t, by simp, rfl, fun p => by simp⟩)

theorem parseChunkData_stable {ptr : Bytes} {p : HttpParser} (m : Bytes) (h : (parseChunkData ptr p).1 ≠ .more) :
    parseChunkData (ptr ++ m) p = parseChunkData ptr p := by
  have hl : (lineScan HTTP_CHUNK_LINE_MAX (fun _ => false) ptr).1 ≠ .more := by
    intro hm
    rw [parseChunkData, parseChunkLine] at h
    rcases hl : lineScan HTTP_CHUNK_LINE_MAX (fun _ => false) ptr with ⟨r, line⟩
    rw [hl] at h hm
    subst hm
    exact h rfl
  unfold parseChunkData parseChunkLine at h ⊢
  rw [lineScan_stable m hl]
  split <;> try rfl
  rename_i i size heq
  rw [heq] at h
  simp only at h ⊢
  split
  · rfl
  · rename_i h0
    rw [if_neg h0] at h
    split
    · rename_i hlt
      rw [if_pos hlt] at h
      by_cases hlen : ptr.length < size.toNat + (i + 4)
      · rw [if_pos hlen] at h; exact absurd rfl h
      · rw [if_neg hlen, if_neg (by rw [List.length_append]; omega)]
    · rfl

theorem parseTrailerPart_stable {ptr : Bytes} {p : HttpParser} (m : Bytes) (h : (parseTrailerPart ptr p).1 ≠ .more) :
    parseTrailerPart (ptr ++ m) p = parseTrailerPart ptr p := by
  have hl : (lineScan HTTP_TRAILER_LINE_MAX (fun _ => false) ptr).1 ≠ .more := by
    intro hm
    rw [parseTrailerPart] at h
    rcases hl : lineScan HTTP_TRAILER_LINE_MAX (fun _ => false) ptr with ⟨r, line⟩
    rw [hl] at h hm
    subst hm
    exact h rfl
  rw [parseTrailerPart, lineScan_stable m hl, ← parseTrailerPart]

theorem parseChunkData_beyond {ptr m : Bytes} {p q : HttpParser} (h : (parseChunkData ptr p).1 = .more)
    (hd : parseChunkData (ptr ++ m) p = (.done, q)) : p.chunkOffset + ptr.length < q.chunkOffset := by
  rcases hl : lineScan HTTP_CHUNK_LINE_MAX (fun _ => false) ptr with ⟨r, line'⟩
  rcases parseChunkData_cases (ptr ++ m) with
    ⟨r', hr, -, h1⟩ | ⟨line, rest, hf, hn, h1⟩ | ⟨line, n, rest, hf, hn, h0, hmax, hle, h1⟩
  · rw [h1] at hd
    cases hd
    exact absurd rfl hr
  · rw [h1] at hd
    cases hd
    by_cases hr : r = .more
    · subst hr
      have := lineScan_beyond hl hf
      simp only; omega
    · rw [lineScan_stable m (by rw [hl]; exact hr)] at hf
      simp [parseChunkData, parseChunkLine, hf, hn] at h
  · rw [h1] at hd
    cases hd
    by_cases hr : r = .more
    · subst hr
      have := lineScan_beyond hl hf
      simp only; omega
    · rw [lineScan_stable m (by rw [hl]; exact hr)] at hf
      simp only [parseChunkData, parseChunkLine, hf, hn, Option.map_some] at h
      rw [if_neg (by omega)] at h
      split at h
      · split at h
        · rename_i hlen
          simp only [Int.toNat_natCast] at hlen ⊢; omega
        · cases h
      · cases h

theorem parseTrailerPart_beyond {ptr m : Bytes} {p q : HttpParser} (h : (parseTrailerPart ptr p).1 = .more)
    (hd : parseTrailerPart (ptr ++ m) p = (.done, q)) : p.chunkOffset + ptr.length < q.chunkOffset := by
  rcases hl : lineScan HTTP_TRAILER_LINE_MAX (fun _ => false) ptr with ⟨r, line'⟩
  have hmore : r = .more := by
    by_contra hr
    rw [parseTrailerPart, hl] at h
    cases r <;> first | exact absurd rfl hr | cases h
  subst hmore
  rcases parseTrailerPart_cases (ptr ++ m) with ⟨r', hr, -, h1⟩ | ⟨hf, h1⟩ | ⟨line, -, hf, h1⟩
  · rw [h1] at hd
    cases hd
    exact absurd rfl hr
  · rw [h1] at hd
    cases hd
    have := lineScan_beyond hl hf
    simp only [List.length_nil] at this ⊢; omega
  · rw [h1] at hd
    cases hd
    have := lineScan_beyond hl hf
    simp only; omega

/-! ## One pass over the chunks -/

/-- A parser at work on the chunks of a message. -/
structure InChunk (l : Bytes) (p : HttpParser) : Prop where
  le : p.chunkOffset ≤ l.length
  open_ : p.chunkState ≠ .chunkComplete

/-- Everything a parser holds but its place in the chunks. -/
def HttpParser.atChunk (p : HttpParser) (state : ChunkState) (offset : Nat) : HttpParser :=
  { p with chunkState := state, chunkOffset := offset }

@[simp] theorem HttpParser.atChunk_atChunk (p : HttpParser) (s s' : ChunkState) (n n' : Nat) :
    (p.atChunk s n).atChunk s' n' = p.atChunk s' n' := rfl

theorem HttpParser.atChunk_self (p : HttpParser) : p.atChunk p.chunkState p.chunkOffset = p := rfl

theorem chunkPass_data {l : Bytes} {p : HttpParser} (hi : InChunk l p) (hs : p.chunkState = .chunkData) :
    chunkPass l p = passOf (parseChunkData (l.drop p.chunkOffset) p) := by
  have := hi.le
  simp [chunkPass, passOf, hs, show ¬ l.length < p.chunkOffset by omega]

theorem chunkPass_trailer {l : Bytes} {p : HttpParser} (hi : InChunk l p) (hs : p.chunkState = .trailerPart) :
    chunkPass l p = if (parseTrailerPart (l.drop p.chunkOffset) p).2.chunkState = .chunkComplete then
        .exit .done (parseTrailerPart (l.drop p.chunkOffset) p).2
      else passOf (parseTrailerPart (l.drop p.chunkOffset) p) := by
  have := hi.le
  simp [chunkPass, passOf, hs, show ¬ l.length < p.chunkOffset by omega]

theorem InChunk.cases {l : Bytes} {p : HttpParser} (hi : InChunk l p) :
    p.chunkState = .chunkData ∨ p.chunkState = .trailerPart := by
  have := hi.open_
  cases hs : p.chunkState <;> simp_all

/-- **What one pass can do**: move on past a chunk or a trailer line, end the chunks, or stop with the parser as it
was. -/
theorem chunkPass_cases {l : Bytes} {p : HttpParser} (hi : InChunk l p) :
    (∃ s n, chunkPass l p = .again (p.atChunk s n) ∧ p.chunkOffset + 2 < n ∧ InChunk l (p.atChunk s n)) ∨
    (p.chunkState = .trailerPart ∧ p.chunkOffset + 2 ≤ l.length ∧
      chunkPass l p = .exit .done (p.atChunk .chunkComplete (p.chunkOffset + 2))) ∨
    (∃ r, r ≠ .done ∧ r ≠ .fault ∧ chunkPass l p = .exit r p) := by
  have hle := hi.le
  have hlen : (l.drop p.chunkOffset).length = l.length - p.chunkOffset := List.length_drop
  rcases hi.cases with hs | hs
  · rw [chunkPass_data hi hs]
    rcases parseChunkData_cases (l.drop p.chunkOffset) with ⟨r, hr, hf, h⟩ | ⟨line, rest, hl, hn, h⟩ |
      ⟨line, n, rest, hl, hn, h0, -, hle', h⟩
    · rw [h, passOf, if_neg hr]
      exact .inr (.inr ⟨r, hr, hf, rfl⟩)
    · obtain ⟨⟨t, ht⟩, -, -⟩ := lineScan_found.1 hl
      rw [ht] at hlen
      simp only [List.length_append, List.length_cons] at hlen
      -- a line without a digit gives no number
      have hpos : 0 < line.length := by
        cases line with
        | nil => cases hn
        | cons => simp
      rw [h]
      exact .inl ⟨.trailerPart, p.chunkOffset + (line.length + 2), rfl, by omega,
        ⟨by simp only [HttpParser.atChunk]; omega, by simp [HttpParser.atChunk]⟩⟩
    · rw [h]
      exact .inl ⟨p.chunkState, p.chunkOffset + (n + (line.length + 4)), rfl, by omega,
        ⟨by simp only [HttpParser.atChunk]; omega, by simp [HttpParser.atChunk, hs]⟩⟩
  · rw [chunkPass_trailer hi hs]
    rcases parseTrailerPart_cases (l.drop p.chunkOffset) with ⟨r, hr, hf, h⟩ | ⟨hl, h⟩ | ⟨line, hne, hl, h⟩
    · rw [h, if_neg (by simp [hs]), passOf, if_neg hr]
      exact .inr (.inr ⟨r, hr, hf, rfl⟩)
    · obtain ⟨⟨t, ht⟩, -, -⟩ := lineScan_found.1 hl
      rw [ht] at hlen
      simp only [List.nil_append, List.length_cons] at hlen
      rw [h, if_pos rfl]
      exact .inr (.inl ⟨hs, by omega, rfl⟩)
    · obtain ⟨⟨t, ht⟩, -, -⟩ := lineScan_found.1 hl
      rw [ht] at hlen
      simp only [List.length_append, List.length_cons] at hlen
      have hpos := List.length_pos_iff.2 hne
      rw [h, if_neg (by simp [hs])]
      exact .inl ⟨p.chunkState, p.chunkOffset + (line.length + 2), rfl, by omega,
        ⟨by simp only [HttpParser.atChunk]; omega, by simp [HttpParser.atChunk, hs]⟩⟩

theorem InChunk.grow {l : Bytes} {p : HttpParser} (m : Bytes) (hi : InChunk l p) : InChunk (l ++ m) p :=
  ⟨by have := hi.le; rw [List.length_append]; omega, hi.open_⟩

/-- **A pass that did not ask for more does the same with more.** -/
theorem chunkPass_stable {l : Bytes} {p : HttpParser} (m : Bytes) (hi : InChunk l p)
    (h : ∀ q, chunkPass l p ≠ .exit .more q) : chunkPass (l ++ m) p = chunkPass l p := by
  rcases hi.cases with hs | hs
  · rw [chunkPass_data hi hs] at h ⊢
    rw [chunkPass_data (hi.grow m) hs, drop_append_le m hi.le, parseChunkData_stable m (passOf_more h)]
  · rw [chunkPass_trailer hi hs] at h ⊢
    have hm : (parseTrailerPart (l.drop p.chunkOffset) p).1 ≠ .more := by
      split at h
      · rename_i hc
        intro hr
        rcases parseTrailerPart_cases (l.drop p.chunkOffset) with ⟨r, -, -, h'⟩ | ⟨-, h'⟩ | ⟨line, -, -, h'⟩
        · rw [h'] at hc; simp [hs] at hc
        · rw [h'] at hr; cases hr
        · rw [h'] at hr; cases hr
      · exact passOf_more h
    rw [chunkPass_trailer (hi.grow m) hs, drop_append_le m hi.le, parseTrailerPart_stable m hm]

theorem ScratchEq.chunkState {p q : HttpParser} (h : ScratchEq p q) : p.chunkState = q.chunkState := by
  have := congrArg HttpParser.chunkState h.scrub
  exact this

theorem ScratchEq.chunkOffset {p q : HttpParser} (h : ScratchEq p q) : p.chunkOffset = q.chunkOffset := by
  have := congrArg HttpParser.chunkOffset h.scrub
  exact this

theorem InChunk.respects {l : Bytes} {p q : HttpParser} (h : ScratchEq p q) (hi : InChunk l p) : InChunk l q :=
  ⟨h.chunkOffset ▸ hi.le, h.chunkState ▸ hi.open_⟩

theorem ScratchEq.atChunk {p q : HttpParser} (h : ScratchEq p q) (s : ChunkState) (n : Nat) :
    ScratchEq (p.atChunk s n) (q.atChunk s n) := by
  refine ⟨?_, h.name⟩
  have : (p.atChunk s n).scrub = p.scrub.atChunk s n := rfl
  rw [this, h.scrub]
  rfl

theorem ScratchEq.atOffset {p q : HttpParser} (h : ScratchEq p q) (n : Nat) :
    ScratchEq (p.atChunk p.chunkState n) (q.atChunk q.chunkState n) := h.chunkState ▸ h.atChunk p.chunkState n

/-- **A pass does not read the scratch.** -/
theorem chunkPass_congr {l : Bytes} {p q : HttpParser} (h : ScratchEq p q) (hi : InChunk l p) :
    PassRel ScratchEq (chunkPass l p) (chunkPass l q) := by
  have hq := hi.respects h
  have hoff := h.chunkOffset.symm
  rcases hi.cases with hs | hs
  · rw [chunkPass_data hi hs, chunkPass_data hq (h.chunkState ▸ hs), hoff]
    rcases parseChunkData_cases (l.drop p.chunkOffset) with ⟨r, -, -, h1⟩ | ⟨line, -, -, -, h1⟩ | ⟨line, n, -, -, -, -, -, -, h1⟩
    · rw [h1, h1]
      exact passOf_congr rfl h
    · rw [h1, h1, hoff]
      exact passOf_congr rfl (h.atChunk _ _)
    · rw [h1, h1, hoff]
      exact passOf_congr rfl (h.atOffset _)
  · have hs' : q.chunkState = .trailerPart := h.chunkState ▸ hs
    rw [chunkPass_trailer hi hs, chunkPass_trailer hq hs', hoff]
    rcases parseTrailerPart_cases (l.drop p.chunkOffset) with ⟨r, -, -, h1⟩ | ⟨-, h1⟩ | ⟨line, -, -, h1⟩
    · rw [h1, h1, if_neg (by simp [hs]), if_neg (by simp [hs'])]
      exact passOf_congr rfl h
    · rw [h1, h1, if_pos rfl, if_pos rfl, hoff]
      exact .exit (h.atChunk _ _)
    · rw [h1, h1, if_neg (by simp [hs]), if_neg (by simp [hs']), hoff]
      exact passOf_congr rfl (h.atOffset _)

theorem chunkPass_resumable : Resumable chunkPass .more .done ScratchEq InChunk where
  more_ne := by simp
  refl := ScratchEq.refl
  grow := fun m hi => hi.grow m
  respects := fun h hi => hi.respects h
  congr := chunkPass_congr
  keeps := fun {l s s'} hi h => by
    rcases chunkPass_cases hi with ⟨_, _, hq, -, hi'⟩ | ⟨-, -, hq⟩ | ⟨r, -, -, hq⟩
    · rw [h] at hq; cases hq; exact hi'
    · rw [h] at hq; cases hq
    · rw [h] at hq; cases hq
  again := fun m hi h => by
    rw [← h]
    exact chunkPass_stable m hi (fun q hq => by rw [h] at hq; cases hq)
  exit := fun m hi h hr => by
    rw [← h]
    exact chunkPass_stable m hi (fun q hq => by rw [h] at hq; cases hq; exact hr rfl)
  frozen := fun {l s r s'} hi h hr => by
    rcases chunkPass_cases hi with ⟨_, _, hq, -, -⟩ | ⟨-, -, hq⟩ | ⟨r', -, -, hq⟩
    · rw [h] at hq; cases hq
    · rw [h] at hq; cases hq; exact absurd rfl hr
    · rw [h] at hq; cases hq; exact ScratchEq.refl _

/-- **What a pass could not do for want of bytes lies beyond them.** -/
theorem chunkPass_beyond {l m : Bytes} {p x : HttpParser} (hi : InChunk l p) (h : chunkPass l p = .exit .more x) :
    (∀ q, chunkPass (l ++ m) p = .again q → l.length < q.chunkOffset) ∧
    (∀ q, chunkPass (l ++ m) p = .exit .done q → l.length < q.chunkOffset) := by
  have hle := hi.le
  have hlen : (l.drop p.chunkOffset).length = l.length - p.chunkOffset := List.length_drop
  rcases hi.cases with hs | hs
  · rw [chunkPass_data hi hs] at h
    rw [chunkPass_data (hi.grow m) hs, drop_append_le m hi.le]
    refine ⟨fun q hq => ?_, fun q hq => absurd rfl (passOf_exit.1 hq).2⟩
    have := parseChunkData_beyond (by rw [(passOf_exit.1 h).1]) (passOf_again.1 hq)
    omega
  · rw [chunkPass_trailer hi hs] at h
    rw [chunkPass_trailer (hi.grow m) hs, drop_append_le m hi.le]
    have hm : (parseTrailerPart (l.drop p.chunkOffset) p).1 = .more := by
      split at h
      · cases h
      · rw [(passOf_exit.1 h).1]
    have hb : ∀ q, parseTrailerPart (l.drop p.chunkOffset ++ m) p = (.done, q) → l.length < q.chunkOffset := by
      intro q hq
      have := parseTrailerPart_beyond hm hq
      omega
    refine ⟨fun q hq => ?_, fun q hq => ?_⟩
    · split at hq
      · cases hq
      · exact hb q (passOf_again.1 hq)
    · split at hq
      · rename_i hc
        cases hq
        rcases parseTrailerPart_cases (l.drop p.chunkOffset ++ m) with ⟨r, -, -, h1⟩ | ⟨-, h1⟩ | ⟨line, -, -, h1⟩
        · rw [h1] at hc; simp [hs] at hc
        · exact hb _ (by rw [h1])
        · exact hb _ (by rw [h1])
      · exact absurd rfl (passOf_exit.1 hq).2

/-! ## The chunks -/

/-- A pass that asks for another has fewer bytes left. -/
theorem chunkPass_decreases {l : Bytes} {s s' : HttpParser} (hi : InChunk l s) (h : chunkPass l s = .again s') :
    InChunk l s' ∧ l.length - s'.chunkOffset < l.length - s.chunkOffset := by
  rcases chunkPass_cases hi with ⟨_, n, hq, hlt, hi'⟩ | ⟨-, -, hq⟩ | ⟨r, -, -, hq⟩
  · rw [h] at hq
    cases hq
    have : n ≤ l.length := hi'.le
    exact ⟨hi', by simp only [HttpParser.atChunk]; omega⟩
  · rw [h] at hq; cases hq
  · rw [h] at hq; cases hq

/-- **`__parse_chunk` ends**: its loop reaches an exit within its fuel, and never leaves the message. -/
theorem parseChunk_run {l : Bytes} {p : HttpParser} (hi : InChunk l p) :
    doWhile (chunkPass l) (l.length + 1) p = some (parseChunk l p) := by
  obtain ⟨x, hx⟩ := Loop.doWhile_total (InChunk l) (fun q => l.length - q.chunkOffset)
    (fun _ _ => chunkPass_decreases) (l.length + 1) p hi (by omega)
  rw [parseChunk, hx]
  rfl

/-- What `__parse_chunk` returns with: the parser at another place in the chunks, past them or stuck in them. -/
theorem parseChunk_post {l : Bytes} {p q : HttpParser} {r : Ret} (hi : InChunk l p) (h : parseChunk l p = (r, q)) :
    r ≠ .fault ∧ (∃ s n, q = p.atChunk s n ∧ p.chunkOffset ≤ n ∧ n ≤ l.length) ∧
      (r = .done → q.chunkState = .chunkComplete ∧ p.chunkOffset + 2 ≤ q.chunkOffset) ∧
      (r ≠ .done → InChunk l q) := by
  have hrun := parseChunk_run hi
  rw [h] at hrun
  refine Loop.doWhile_post (fun s => InChunk l s ∧ ∃ cs n, s = p.atChunk cs n ∧ p.chunkOffset ≤ n)
    (fun r q => r ≠ .fault ∧ (∃ s n, q = p.atChunk s n ∧ p.chunkOffset ≤ n ∧ n ≤ l.length) ∧
      (r = .done → q.chunkState = .chunkComplete ∧ p.chunkOffset + 2 ≤ q.chunkOffset) ∧
      (r ≠ .done → InChunk l q)) ?_ ?_ ⟨hi, _, _, p.atChunk_self.symm, Nat.le_refl _⟩ hrun
  · rintro s s' ⟨hs, cs, n, rfl, hn⟩ hb
    rcases chunkPass_cases hs with ⟨cs', k, hq, hlt, hi'⟩ | ⟨-, -, hq⟩ | ⟨r, -, -, hq⟩
    · rw [hb] at hq
      cases hq
      exact ⟨hi', cs', k, rfl, by simp only [HttpParser.atChunk] at hlt; omega⟩
    · rw [hb] at hq; cases hq
    · rw [hb] at hq; cases hq
  · rintro s r s' ⟨hs, cs, n, rfl, hn⟩ hb
    rcases chunkPass_cases hs with ⟨_, _, hq, -, -⟩ | ⟨-, hle, hq⟩ | ⟨r', hr, hf, hq⟩
    · rw [hb] at hq; cases hq
    · rw [hb] at hq
      cases hq
      simp only [HttpParser.atChunk] at hle
      exact ⟨by simp, ⟨_, _, rfl, by simp only [HttpParser.atChunk]; omega, hle⟩,
        fun _ => ⟨rfl, by simp only [HttpParser.atChunk]; omega⟩, fun h => absurd rfl h⟩
    · rw [hb] at hq
      cases hq
      exact ⟨hf, ⟨cs, n, rfl, hn, hs.le⟩, fun h => absurd h hr, fun _ => hs⟩

/-- Chunks that did not ask for more end the same with more. -/
theorem parseChunk_stable {l : Bytes} {p q : HttpParser} {r : Ret} (m : Bytes) (hi : InChunk l p)
    (h : parseChunk l p = (r, q)) (hr : r ≠ .more) : parseChunk (l ++ m) p = (r, q) := by
  have hrun := parseChunk_run hi
  rw [h] at hrun
  exact Loop.doWhile_unique (parseChunk_run (hi.grow m)) (chunkPass_resumable.doWhile_stable m hi hrun hr)

/-- **Chunks that asked for more, entered again with more, are the chunks of the whole.** -/
theorem parseChunk_resume {l : Bytes} {p s : HttpParser} (m : Bytes) (hi : InChunk l p)
    (h : parseChunk l p = (.more, s)) :
    (parseChunk (l ++ m) s).1 = (parseChunk (l ++ m) p).1 ∧
      ScratchEq (parseChunk (l ++ m) p).2 (parseChunk (l ++ m) s).2 := by
  have hrun := parseChunk_run hi
  rw [h] at hrun
  have his := (chunkPass_resumable.stalled hi hrun (by simp)).1
  obtain ⟨t, hR, ht⟩ := chunkPass_resumable.resume m hi hrun (parseChunk_run (hi.grow m))
  rw [Loop.doWhile_unique (parseChunk_run (his.grow m)) ht]
  exact ⟨rfl, hR⟩

theorem parseChunk_congr {l : Bytes} {p q : HttpParser} (h : ScratchEq p q) (hi : InChunk l p) :
    (parseChunk l q).1 = (parseChunk l p).1 ∧ ScratchEq (parseChunk l p).2 (parseChunk l q).2 := by
  obtain ⟨t, hR, ht⟩ := chunkPass_resumable.doWhile_congr h hi (parseChunk_run hi)
  rw [Loop.doWhile_unique (parseChunk_run (hi.respects h)) ht]
  exact ⟨rfl, hR⟩

/-- **Chunks that were stuck in a message end beyond it.** -/
theorem parseChunk_beyond {l m : Bytes} {p x q : HttpParser} {r : Ret} (hi : InChunk l p)
    (h : chunkPass l p = .exit r x) (hr : r ≠ .done) (hd : parseChunk (l ++ m) p = (.done, q)) :
    l.length < q.chunkOffset := by
  have hrun := parseChunk_run (hi.grow m)
  rw [hd] at hrun
  have hm : r = .more := by
    by_contra hm
    have hst := chunkPass_stable m hi (fun q hq => by rw [h] at hq; cases hq; exact hm rfl)
    rw [h] at hst
    rw [Loop.doWhile_exit hst] at hrun
    cases hrun
    exact hr rfl
  subst hm
  obtain ⟨hb1, hb2⟩ := chunkPass_beyond (m := m) hi h
  rcases chunkPass_cases (hi.grow m) with ⟨s, n, hu, -, hi'⟩ | ⟨-, -, hu⟩ | ⟨r', hr', -, hu⟩
  · rw [Loop.doWhile_again hu] at hrun
    have hu' := Loop.doWhile_unique hrun (parseChunk_run hi')
    have hpost := parseChunk_post hi' hu'.symm
    have := hb1 _ hu
    have := (hpost.2.2.1 rfl).2
    omega
  · rw [Loop.doWhile_exit hu] at hrun
    cases hrun
    exact hb2 _ hu
  · rw [Loop.doWhile_exit hu] at hrun
    cases hrun
    exact absurd rfl hr'

end Tinywf
