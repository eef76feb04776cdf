import Tinywf.HttpChunkCursor
/-!
# HttpChunkGrammar — the chunked bodies the parser takes

A chunked body is chunks, the last chunk's line, trailer lines and a CRLF (`bodyText`).  The parser takes exactly those
whose size lines `strtol` reads the right size from (`parseChunk_iff`), whatever stands around the number, and it steps
over the two bytes behind the data without a look at them.
-/
namespace Tinywf

open CLib
open Loop (doWhile)

/-- A chunk as it stands in a body: its size line, its data, and what stands behind the data. -/
structure ChunkText where
  line : Bytes
  data : Bytes
  tail : Bytes

def ChunkText.bytes (c : ChunkText) : Bytes := c.line ++ CR :: LF :: (c.data ++ c.tail)

def chunkText (cs : List ChunkText) : Bytes := cs.flatMap ChunkText.bytes

def trailerText (trailer : List Bytes) : Bytes := trailer.flatMap fun t => t ++ [CR, LF]

def bodyText (cs : List ChunkText) (last : Bytes) (trailer : List Bytes) : Bytes :=
  chunkText cs ++ (last ++ CR :: LF :: (trailerText trailer ++ [CR, LF]))

/-- A line of fewer than `max` bytes, up to its CRLF. -/
structure LineOk (max : Nat) (line : Bytes) : Prop where
  plain : CR ∉ line
  short : line.length < max

/-- A chunk that `__parse_chunk_data` takes. -/
structure ChunkText.Taken (c : ChunkText) : Prop where
  line : LineOk HTTP_CHUNK_LINE_MAX c.line
  size : ∃ rest, strtol 16 c.line = some ((c.data.length : Int), rest)
  pos : c.data ≠ []
  max : c.data.length < CHUNK_SIZE_MAX
  tail : c.tail.length = 2

/-- A last chunk's line that `__parse_chunk_data` takes. -/
structure LastTaken (last : Bytes) : Prop where
  line : LineOk HTTP_CHUNK_LINE_MAX last
  size : ∃ rest, strtol 16 last = some (0, rest)

/-- A line that `__parse_trailer_part` takes without ending the trailer. -/
structure TrailerTaken (x : Bytes) : Prop where
  line : LineOk HTTP_TRAILER_LINE_MAX x
  pos : x ≠ []

/-! ## Lines -/

theorem LineOk.scan {max : Nat} {line : Bytes} (h : LineOk max line) (t : Bytes) :
    lineScan max (fun _ => false) (line ++ CR :: LF :: t) = (.found, line) :=
  lineScan_found.2 ⟨⟨t, rfl⟩, fun _ hb => ⟨fun e => h.plain (e ▸ hb), rfl⟩, h.short⟩

theorem LineOk.of_scan {max : Nat} {l line : Bytes} (h : lineScan max (fun _ => false) l = (.found, line)) :
    LineOk max line ∧ ∃ t, l = line ++ CR :: LF :: t := by
  obtain ⟨ht, hb, hl⟩ := lineScan_found.1 h
  exact ⟨⟨fun hc => (hb CR hc).1 rfl, hl⟩, ht⟩

@[simp] theorem ChunkText.bytes_length (c : ChunkText) :
    c.bytes.length = c.line.length + (c.data.length + c.tail.length) + 2 := by
  simp only [bytes, List.length_append, List.length_cons]
  omega

theorem bodyText_cons (c : ChunkText) (cs : List ChunkText) (last : Bytes) (trailer : List Bytes) :
    bodyText (c :: cs) last trailer = c.bytes ++ bodyText cs last trailer := by
  rw [bodyText, bodyText, chunkText, chunkText, List.flatMap_cons, List.append_assoc]

/-! ## One pass -/

section Pass

variable {l t : Bytes} {p : HttpParser} {c : ChunkText} {last line : Bytes}

/-- A place in the message is in the message. -/
theorem inChunk_of_drop {b : UInt8} {u : Bytes} (hs : p.chunkState ≠ .chunkComplete) (h : l.drop p.chunkOffset = b :: u) :
    InChunk l p := by
  have := congrArg List.length h
  rw [List.length_drop, List.length_cons] at this
  exact ⟨by omega, hs⟩

theorem drop_add {o n : Nat} {u v : Bytes} (h : l.drop o = u ++ v) (hn : u.length = n) : l.drop (o + n) = v := by
  rw [← List.drop_drop, h, ← hn, List.drop_left]

theorem parseChunkData_taken (h : c.Taken) (t : Bytes) (p : HttpParser) : parseChunkData (c.bytes ++ t) p =
    (.done, { p with chunkOffset := p.chunkOffset + (c.data.length + (c.line.length + 4)) }) := by
  obtain ⟨rest, hn⟩ := h.size
  have hpos := List.length_pos_iff.2 h.pos
  have hl : lineScan HTTP_CHUNK_LINE_MAX (fun _ => false) (c.bytes ++ t) = (.found, c.line) := by
    rw [ChunkText.bytes, List.append_assoc, List.cons_append, List.cons_append]
    exact h.line.scan _
  have hmax : ((c.data.length : Int) % 2 ^ 64).toNat < CHUNK_SIZE_MAX := by
    have := h.max
    unfold CHUNK_SIZE_MAX HTTP_CHUNK_LINE_MAX at *
    omega
  have hlen : ¬ (c.bytes ++ t).length < (c.data.length : Int).toNat + (c.line.length + 4) := by
    rw [List.length_append, ChunkText.bytes_length, h.tail, Int.toNat_natCast]
    omega
  rw [parseChunkData, parseChunkLine_found hl hn]
  simp only
  rw [if_neg (by omega), if_pos hmax, if_neg hlen, Int.toNat_natCast]

theorem parseChunkData_last (h : LastTaken last) (t : Bytes) (p : HttpParser) :
    parseChunkData (last ++ CR :: LF :: t) p =
      (.done, { p with chunkState := .trailerPart, chunkOffset := p.chunkOffset + (last.length + 2) }) := by
  obtain ⟨rest, hn⟩ := h.size
  rw [parseChunkData, parseChunkLine_found (h.line.scan t) hn]
  rfl

theorem parseTrailerPart_line (h : TrailerTaken line) (t : Bytes) (p : HttpParser) :
    parseTrailerPart (line ++ CR :: LF :: t) p =
      (.done, { p with chunkOffset := p.chunkOffset + (line.length + 2) }) := by
  rw [parseTrailerPart, h.line.scan t]
  simp only
  rw [if_neg (fun h0 => h.pos (List.length_eq_zero_iff.1 h0))]

theorem parseTrailerPart_end (t : Bytes) (p : HttpParser) : parseTrailerPart (CR :: LF :: t) p =
    (.done, { p with chunkState := .chunkComplete, chunkOffset := p.chunkOffset + 2 }) := by
  have h : LineOk HTTP_TRAILER_LINE_MAX [] := ⟨List.not_mem_nil, by decide⟩
  rw [parseTrailerPart, show CR :: LF :: t = [] ++ CR :: LF :: t from rfl, h.scan t]
  rfl

end Pass

/-! ## Forwards -/

section Forwards

variable {l : Bytes} {p : HttpParser}

theorem parseChunk_again {q : HttpParser} (hi : InChunk l p) (h : chunkPass l p = .again q) :
    parseChunk l p = parseChunk l q := by
  have hrun := parseChunk_run hi
  rw [Loop.doWhile_again h] at hrun
  exact Loop.doWhile_unique hrun (parseChunk_run (chunkPass_resumable.keeps hi h))

theorem parseChunk_exit {q : HttpParser} {r : Ret} (hi : InChunk l p) (h : chunkPass l p = .exit r q) :
    parseChunk l p = (r, q) := by
  have hrun := parseChunk_run hi
  rw [Loop.doWhile_exit h] at hrun
  exact (Option.some.inj hrun).symm

/-- The loop goes through the trailer line by line. -/
theorem parseChunk_trailer : ∀ (trailer : List Bytes) {p : HttpParser} {t : Bytes}, p.chunkState = .trailerPart →
    (∀ x ∈ trailer, TrailerTaken x) → l.drop p.chunkOffset = trailerText trailer ++ CR :: LF :: t →
    parseChunk l p = (.done, p.atChunk .chunkComplete (p.chunkOffset + ((trailerText trailer).length + 2)))
  | [], p, t, hs, _, hl => by
    rw [show trailerText [] = [] from rfl, List.nil_append] at hl
    have hi : InChunk l p := inChunk_of_drop (by rw [hs]; decide) hl
    apply parseChunk_exit hi
    rw [chunkPass_trailer hi hs, hl, parseTrailerPart_end, if_pos rfl]
    rfl
  | x :: trailer, p, t, hs, hx, hl => by
    have hl' : l.drop p.chunkOffset = x ++ CR :: LF :: (trailerText trailer ++ CR :: LF :: t) := by
      rw [hl, trailerText, List.flatMap_cons]
      simp [trailerText]
    have hi : InChunk l p := by
      have := congrArg List.length hl'
      rw [List.length_drop, List.length_append, List.length_cons] at this
      exact ⟨by omega, by rw [hs]; decide⟩
    have hpass : chunkPass l p = .again (p.atChunk p.chunkState (p.chunkOffset + (x.length + 2))) := by
      rw [chunkPass_trailer hi hs, hl', parseTrailerPart_line (hx x List.mem_cons_self),
        if_neg (by simp only [hs]; decide)]
      rfl
    have hnext : l.drop (p.chunkOffset + (x.length + 2)) = trailerText trailer ++ CR :: LF :: t :=
      drop_add (u := x ++ [CR, LF]) (by rw [hl']; simp) (by simp)
    rw [parseChunk_again hi hpass, parseChunk_trailer trailer (p := p.atChunk p.chunkState (p.chunkOffset + (x.length + 2)))
      hs (fun y hy => hx y (List.mem_cons_of_mem x hy)) hnext, HttpParser.atChunk_atChunk]
    simp only [HttpParser.atChunk, trailerText, List.flatMap_cons, List.length_append, List.length_cons,
      List.length_nil]
    congr 2
    omega

/-- **The loop takes a body of the grammar whole**, whatever stands behind it. -/
theorem parseChunk_text {last : Bytes} {trailer : List Bytes} (hlast : LastTaken last)
    (htr : ∀ x ∈ trailer, TrailerTaken x) : ∀ (cs : List ChunkText) {p : HttpParser} {t : Bytes},
    p.chunkState = .chunkData → (∀ c ∈ cs, c.Taken) → l.drop p.chunkOffset = bodyText cs last trailer ++ t →
    parseChunk l p = (.done, p.atChunk .chunkComplete (p.chunkOffset + (bodyText cs last trailer).length))
  | [], p, t, hs, _, hl => by
    have hl' : l.drop p.chunkOffset = last ++ CR :: LF :: (trailerText trailer ++ CR :: LF :: t) := by
      rw [hl, bodyText]
      simp [chunkText]
    have hi : InChunk l p := by
      have := congrArg List.length hl'
      rw [List.length_drop, List.length_append, List.length_cons] at this
      exact ⟨by omega, by rw [hs]; decide⟩
    have hpass : chunkPass l p = .again (p.atChunk .trailerPart (p.chunkOffset + (last.length + 2))) := by
      rw [chunkPass_data hi hs, hl', parseChunkData_last hlast]
      rfl
    have hnext : l.drop (p.chunkOffset + (last.length + 2)) = trailerText trailer ++ CR :: LF :: t :=
      drop_add (u := last ++ [CR, LF]) (by rw [hl']; simp) (by simp)
    rw [parseChunk_again hi hpass, parseChunk_trailer trailer rfl htr hnext, HttpParser.atChunk_atChunk]
    simp only [HttpParser.atChunk, bodyText, chunkText, List.flatMap_nil, List.nil_append, List.length_append,
      List.length_cons, List.length_nil]
    congr 2
    omega
  | c :: cs, p, t, hs, hc, hl => by
    have hl' : l.drop p.chunkOffset = c.bytes ++ (bodyText cs last trailer ++ t) := by
      rw [hl, bodyText_cons, List.append_assoc]
    have hck := hc c List.mem_cons_self
    have hlen : c.bytes.length = c.data.length + (c.line.length + 4) := by
      rw [ChunkText.bytes_length, hck.tail]
      omega
    have hi : InChunk l p := by
      have := congrArg List.length hl'
      rw [List.length_drop, List.length_append, hlen] at this
      exact ⟨by omega, by rw [hs]; decide⟩
    have hpass : chunkPass l p =
        .again (p.atChunk p.chunkState (p.chunkOffset + (c.data.length + (c.line.length + 4)))) := by
      rw [chunkPass_data hi hs, hl', parseChunkData_taken hck]
      rfl
    rw [parseChunk_again hi hpass, parseChunk_text hlast htr cs
        (p := p.atChunk p.chunkState (p.chunkOffset + (c.data.length + (c.line.length + 4)))) hs
        (fun x hx => hc x (List.mem_cons_of_mem c hx)) (drop_add hl' hlen), HttpParser.atChunk_atChunk]
    rw [bodyText_cons, List.length_append, hlen]
    simp only [HttpParser.atChunk]
    congr 2
    omega

end Forwards

/-! ## Backwards -/

/-- A body of the grammar that the parser takes. -/
structure BodyTaken (cs : List ChunkText) (last : Bytes) (trailer : List Bytes) : Prop where
  chunks : ∀ c ∈ cs, c.Taken
  last : LastTaken last
  trailer : ∀ x ∈ trailer, TrailerTaken x

section Backwards

variable {l : Bytes} {q : HttpParser}

theorem trailer_of_done : ∀ (n : Nat) {p : HttpParser}, InChunk l p → p.chunkState = .trailerPart →
    doWhile (chunkPass l) n p = some (.done, q) → ∃ trailer t, (∀ x ∈ trailer, TrailerTaken x) ∧
      l.drop p.chunkOffset = trailerText trailer ++ CR :: LF :: t ∧
      q.chunkOffset = p.chunkOffset + ((trailerText trailer).length + 2)
  | 0, _, _, _, h => by cases h
  | n + 1, p, hi, hs, h => by
    have hpass := chunkPass_trailer hi hs
    rcases parseTrailerPart_cases (l.drop p.chunkOffset) with ⟨r, hr, -, hd⟩ | ⟨hl, hd⟩ | ⟨line, hne, hl, hd⟩
    · rw [hd, if_neg (by rw [hs]; decide), passOf, if_neg hr] at hpass
      rw [Loop.doWhile_exit hpass] at h
      cases h
      exact absurd rfl hr
    · rw [hd, if_pos rfl] at hpass
      rw [Loop.doWhile_exit hpass] at h
      cases h
      obtain ⟨-, t, ht⟩ := LineOk.of_scan hl
      exact ⟨[], t, fun x hx => (by cases hx), ht, rfl⟩
    · rw [hd, if_neg (by simp only [hs]; decide)] at hpass
      obtain ⟨hok, t, ht⟩ := LineOk.of_scan hl
      have hin := chunkPass_resumable.keeps hi (hpass.trans (passOf_again.2 rfl))
      rw [Loop.doWhile_again (hpass.trans (passOf_again.2 rfl))] at h
      obtain ⟨trailer, t', hall, hdrop, hoff⟩ := trailer_of_done n hin hs h
      have hstep : l.drop (p.chunkOffset + (line.length + 2)) = t :=
        drop_add (u := line ++ [CR, LF]) (by rw [ht]; simp) (by simp)
      simp only [hstep] at hdrop
      refine ⟨line :: trailer, t', List.forall_mem_cons.2 ⟨⟨hok, hne⟩, hall⟩, ?_, ?_⟩
      · rw [ht, hdrop, trailerText, trailerText, List.flatMap_cons]
        simp
      · rw [hoff, trailerText, trailerText, List.flatMap_cons, List.length_append, List.length_append]
        simp only [List.length_cons, List.length_nil]
        omega

theorem text_of_done : ∀ (n : Nat) {p : HttpParser}, InChunk l p → p.chunkState = .chunkData →
    doWhile (chunkPass l) n p = some (.done, q) → ∃ cs last trailer t, BodyTaken cs last trailer ∧
      l.drop p.chunkOffset = bodyText cs last trailer ++ t ∧
      q.chunkOffset = p.chunkOffset + (bodyText cs last trailer).length
  | 0, _, _, _, h => by cases h
  | n + 1, p, hi, hs, h => by
    have hpass := chunkPass_data hi hs
    rcases parseChunkData_cases (l.drop p.chunkOffset) with ⟨r, hr, -, hd⟩ | ⟨line, rest, hl, hn, hd⟩ |
      ⟨line, m, rest, hl, hn, h0, hmax, hle, hd⟩
    · rw [hd, passOf, if_neg hr] at hpass
      rw [Loop.doWhile_exit hpass] at h
      cases h
      exact absurd rfl hr
    · rw [hd] at hpass
      obtain ⟨hok, t, ht⟩ := LineOk.of_scan hl
      have hin := chunkPass_resumable.keeps hi (hpass.trans (passOf_again.2 rfl))
      rw [Loop.doWhile_again (hpass.trans (passOf_again.2 rfl))] at h
      obtain ⟨trailer, t', hall, hdrop, hoff⟩ := trailer_of_done n hin rfl h
      have hstep : l.drop (p.chunkOffset + (line.length + 2)) = t :=
        drop_add (u := line ++ [CR, LF]) (by rw [ht]; simp) (by simp)
      simp only [hstep] at hdrop
      refine ⟨[], line, trailer, t', ⟨fun c hc => (by cases hc), ⟨hok, rest, hn⟩, hall⟩, ?_, ?_⟩
      · rw [ht, hdrop, bodyText]
        simp [chunkText]
      · rw [hoff, bodyText]
        simp only [chunkText, List.flatMap_nil, List.nil_append, List.length_append, List.length_cons, List.length_nil]
        omega
    · rw [hd] at hpass
      obtain ⟨hok, t, ht⟩ := LineOk.of_scan hl
      have hin := chunkPass_resumable.keeps hi (hpass.trans (passOf_again.2 rfl))
      rw [Loop.doWhile_again (hpass.trans (passOf_again.2 rfl))] at h
      obtain ⟨cs, last, trailer, t', hall, hdrop, hoff⟩ := text_of_done n hin hs h
      -- the chunk's data, and the two bytes behind it, whatever they are
      have hlen := congrArg List.length ht
      rw [List.length_append, List.length_cons, List.length_cons] at hlen
      have hlt : m + 2 ≤ t.length := by omega
      have hdata : (t.take m).length = m := by rw [List.length_take, Nat.min_eq_left (by omega)]
      have htail : ((t.drop m).take 2).length = 2 := by
        rw [List.length_take, List.length_drop, Nat.min_eq_left (by omega)]
      have hcut : t.take m ++ (t.drop m).take 2 ++ t.drop (m + 2) = t := by
        rw [← List.drop_drop, List.append_assoc, List.take_append_drop, List.take_append_drop]
      have hc : (ChunkText.mk line (t.take m) ((t.drop m).take 2)).Taken := {
        line := hok
        size := ⟨rest, hdata.symm ▸ hn⟩
        pos := fun he => Nat.ne_of_gt h0 (hdata.symm.trans (List.length_eq_zero_iff.2 he))
        max := hdata.symm ▸ hmax
        tail := htail }
      have hbytes : l.drop p.chunkOffset = ChunkText.bytes ⟨line, t.take m, (t.drop m).take 2⟩ ++ t.drop (m + 2) := by
        rw [ht, ChunkText.bytes, List.append_assoc, List.cons_append, List.cons_append, hcut]
      have hclen : (ChunkText.bytes ⟨line, t.take m, (t.drop m).take 2⟩).length = m + (line.length + 4) := by
        rw [ChunkText.bytes_length]
        simp only [hdata, htail]
        omega
      have hstep := drop_add hbytes hclen
      simp only [hstep] at hdrop
      refine ⟨⟨line, t.take m, (t.drop m).take 2⟩ :: cs, last, trailer, t',
        ⟨List.forall_mem_cons.2 ⟨hc, hall.chunks⟩, hall.last, hall.trailer⟩, ?_, ?_⟩
      · rw [hbytes, hdrop, bodyText_cons, List.append_assoc]
      · rw [hoff, bodyText_cons, List.length_append, hclen]
        simp only
        omega

/-- **The parser takes exactly the bodies of the grammar.** -/
theorem parseChunk_iff {p : HttpParser} (hi : InChunk l p) (hs : p.chunkState = .chunkData) (k : Nat) :
    (∃ s, parseChunk l p = (.done, s) ∧ s.chunkOffset = p.chunkOffset + k) ↔
      ∃ cs last trailer t, BodyTaken cs last trailer ∧ l.drop p.chunkOffset = bodyText cs last trailer ++ t ∧
        (bodyText cs last trailer).length = k := by
  constructor
  · rintro ⟨s, hp, hk⟩
    have hrun := parseChunk_run hi
    rw [hp] at hrun
    obtain ⟨cs, last, trailer, t, hb, hl, ho⟩ := text_of_done _ hi hs hrun
    exact ⟨cs, last, trailer, t, hb, hl, by omega⟩
  · rintro ⟨cs, last, trailer, t, hb, hl, rfl⟩
    exact ⟨_, parseChunk_text hb.last hb.trailer cs hs hb.chunks hl, rfl⟩

end Backwards

end Tinywf
