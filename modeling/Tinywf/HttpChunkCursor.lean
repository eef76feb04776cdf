import Tinywf.CNumber
import Tinywf.HttpFraming
/-!
# HttpChunkCursor — `util/HttpUtil.cc`

`HttpChunkCursor` walks over the body of a complete chunked message with `strtol` and `strchr` on the buffer itself,
where the parser had a copy of each size line.  The two agree exactly when no size line of a chunk with data holds a NUL
(`chunkCursor_reads`): the parser lets it pass, and the cursor's search for the CR stops at it.
-/
namespace Tinywf

open CLib
open Loop (doWhile)

/-- `mem` is the message buffer; `body` and `pos` are offsets in it. -/
structure HttpChunkCursor where
  mem : Bytes
  body : Nat
  bodyLen : Nat
  pos : Nat
  chunked : Bool
  ended : Bool
  deriving DecidableEq, Repr

/-- What a call of `next` comes to: false; true, with a chunk at an offset; or what C leaves undefined. -/
inductive Next
  | stop (c : HttpChunkCursor)
  | chunk (offset size : Nat) (c : HttpChunkCursor)
  | fault
  deriving DecidableEq, Repr

namespace HttpChunkCursor

def init (p : HttpParser) : HttpChunkCursor :=
  match httpParserGetBody p with
  | some (off, size, q) => { mem := q.msgbuf, body := off, bodyLen := size, pos := off, chunked := q.chunked, ended := false }
  | none => { mem := [], body := 0, bodyLen := 0, pos := 0, chunked := false, ended := true }

def next (c : HttpChunkCursor) : Next :=
  if c.ended then .stop c
  else if !c.chunked then .chunk c.body c.bodyLen { c with ended := true }
  else if c.mem.length ≤ c.pos then .fault
  else
    let cur := c.mem.drop c.pos
    let (n, rest) := (strtol 16 cur).getD (0, cur)
    let size := (n % 2 ^ 64).toNat
    if size = 0 then .stop { c with ended := true }
    else
      match strchr CR rest with
      -- `strchr` gives NULL, which `next` does not look at
      | none => .fault
      | some (u, _) =>
        let cr := c.mem.length - rest.length + u.length
        .chunk (cr + 2) size { c with pos := cr + size + 4 }

/-- Calls of `next` until it returns false: the chunks it gave. -/
def collect : Nat → HttpChunkCursor → Option (List (Nat × Nat))
  | 0, _ => none
  | n + 1, c => match c.next with
    | .stop _ => some []
    | .chunk off size c' => (collect n c').map ((off, size) :: ·)
    | .fault => none

/-- The loop of `HttpUtil::decode_chunked_body`. -/
def decode : Nat → HttpChunkCursor → Bytes → Option Bytes
  | 0, _, _ => none
  | n + 1, c, result => match c.next with
    | .stop _ => some result
    | .chunk off size c' =>
      if off + size ≤ c.mem.length then decode n c' (result ++ (c.mem.drop off).take size) else none
    | .fault => none

end HttpChunkCursor

def decodeChunkedBody (p : HttpParser) : Option Bytes :=
  if (httpParserGetBody p).isSome then
    let c := HttpChunkCursor.init p
    c.decode (c.mem.length + 1) []
  else some []

/-- A chunk as `__parse_chunk_data` takes it: where its size line is, how long that is, and its size. -/
structure Chunk where
  offset : Nat
  lineLen : Nat
  size : Nat
  deriving DecidableEq, Repr

def Chunk.payload (c : Chunk) : Nat × Nat := (c.offset + c.lineLen + 2, c.size)

def Chunk.sizeLine (message : Bytes) (c : Chunk) : Bytes := (message.drop c.offset).take c.lineLen

def Chunk.data (message : Bytes) (c : Chunk) : Bytes := (message.drop c.payload.1).take c.payload.2

/-- The chunks that `__parse_chunk_data` takes one after another. -/
def chunksTaken (message : Bytes) : Nat → HttpParser → List Chunk
  | 0, _ => []
  | n + 1, p =>
    let ptr := message.drop p.chunkOffset
    match parseChunkLine ptr, parseChunkData ptr p with
    | (_, i, some size), (.done, q) =>
      if q.chunkState = .chunkData then ⟨p.chunkOffset, i, size.toNat⟩ :: chunksTaken message n q else []
    | _, _ => []

/-! ## One chunk -/

/-- A buffer that agrees with the message up to `k` has there what the message has. -/
theorem drop_of_agree {mem l u t : Bytes} {o k : Nat} (h : mem.take k = l.take k) (hl : l.drop o = u ++ t)
    (hk : o + u.length ≤ k) : ∃ t', mem.drop o = u ++ t' := by
  have hu : (mem.drop o).take u.length = u :=
    calc (mem.drop o).take u.length
      _ = ((mem.take k).drop o).take u.length := by rw [List.drop_take, List.take_take, Nat.min_eq_left (by omega)]
      _ = ((l.take k).drop o).take u.length := by rw [h]
      _ = (l.drop o).take u.length := by rw [List.drop_take, List.take_take, Nat.min_eq_left (by omega)]
      _ = u := by rw [hl, List.take_left]
  exact ⟨(mem.drop o).drop u.length, by conv_lhs => rw [← List.take_append_drop u.length (mem.drop o), hu]⟩

theorem endsNumber_cr : EndsNumber CR := ⟨by decide, by decide⟩

/-- **One call at a size line**: false at size 0; else the chunk, unless a NUL in the line hides the CR. -/
theorem next_line {c : HttpChunkCursor} {line rest t : Bytes} {n : Nat} (he : c.ended = false) (hc : c.chunked = true)
    (hm : c.mem.drop c.pos = line ++ CR :: t) (hline : ∀ b ∈ line, b ≠ CR) (hn : strtol 16 line = some ((n : Int), rest))
    (hmax : n < CHUNK_SIZE_MAX) :
    (n = 0 → c.next = .stop { c with ended := true }) ∧
    (n ≠ 0 → NUL ∉ line → c.next = .chunk (c.pos + line.length + 2) n { c with pos := c.pos + line.length + n + 4 }) ∧
    (n ≠ 0 → NUL ∈ line → c.next = .fault) := by
  have hlen := congrArg List.length hm
  simp only [List.length_drop, List.length_append, List.length_cons] at hlen
  obtain ⟨u, hu, hnul⟩ := strtol_prefix hn
  have hsize : ((n : Int) % 2 ^ 64).toNat = n := by
    unfold CHUNK_SIZE_MAX HTTP_CHUNK_LINE_MAX at hmax
    omega
  have hnext : c.next = if n = 0 then .stop { c with ended := true } else
      match strchr CR (rest ++ CR :: t) with
      | none => .fault
      | some (v, _) => .chunk (c.mem.length - (rest ++ CR :: t).length + v.length + 2) n
          { c with pos := c.mem.length - (rest ++ CR :: t).length + v.length + n + 4 } := by
    rw [HttpChunkCursor.next, he, hc]
    simp only [Bool.false_eq_true, if_false, Bool.not_true]
    rw [if_neg (by omega), hm, strtol_append endsNumber_cr hn]
    simp only [Option.getD_some, hsize]
  have hrest : ∀ b ∈ rest, b ≠ CR := fun b hb => hline b (by rw [hu]; exact List.mem_append_right u hb)
  refine ⟨fun h0 => by rw [hnext, if_pos h0], fun h0 hno => ?_, fun h0 hin => ?_⟩
  · have hfound := strchr_found (c := CR) (u := rest) (fun b hb => ⟨hrest b hb, fun h => hno (by
      rw [hu, ← h]; exact List.mem_append_right u hb)⟩) t
    have hpos : c.mem.length - (rest ++ CR :: t).length + rest.length = c.pos + line.length := by
      have := congrArg List.length hu
      simp only [List.length_append, List.length_cons] at this ⊢
      omega
    rw [hnext, if_neg h0, hfound]
    simp only [hpos]
  · have hin' : NUL ∈ rest := by
      rw [hu] at hin
      rcases List.mem_append.1 hin with h | h
      · exact absurd rfl (hnul NUL h)
      · exact h
    rw [hnext, if_neg h0, strchr_stopped (by decide) hrest hin']

/-! ## The whole body -/

theorem parseChunkLine_found {ptr line rest : Bytes} {n : Int}
    (hl : lineScan HTTP_CHUNK_LINE_MAX (fun _ => false) ptr = (.found, line)) (hn : strtol 16 line = some (n, rest)) :
    parseChunkLine ptr = (.found, line.length, some n) := by
  simp only [parseChunkLine, hl, hn, Option.map_some]

/-- The parser behind a chunk with data. -/
theorem chunksTaken_chunk {l line rest : Bytes} {p : HttpParser} {n : Nat} (k : Nat)
    (hs : p.chunkState = .chunkData)
    (hl : lineScan HTTP_CHUNK_LINE_MAX (fun _ => false) (l.drop p.chunkOffset) = (.found, line))
    (hn : strtol 16 line = some ((n : Int), rest))
    (h : parseChunkData (l.drop p.chunkOffset) p = (.done, { p with chunkOffset := p.chunkOffset + (n + (line.length + 4)) })) :
    chunksTaken l (k + 1) p = ⟨p.chunkOffset, line.length, n⟩ ::
      chunksTaken l k { p with chunkOffset := p.chunkOffset + (n + (line.length + 4)) } := by
  rw [chunksTaken]
  simp only [parseChunkLine_found hl hn, h, hs, if_true, Int.toNat_natCast]

theorem chunksTaken_last {l line rest : Bytes} {p : HttpParser} {o : Nat} (k : Nat)
    (hl : lineScan HTTP_CHUNK_LINE_MAX (fun _ => false) (l.drop p.chunkOffset) = (.found, line))
    (hn : strtol 16 line = some (0, rest))
    (h : parseChunkData (l.drop p.chunkOffset) p = (.done, { p with chunkState := .trailerPart, chunkOffset := o })) :
    chunksTaken l (k + 1) p = [] := by
  rw [chunksTaken]
  simp only [parseChunkLine_found hl hn, h]
  rfl

theorem sizeLine_eq {l line t : Bytes} {o n : Nat} (h : l.drop o = line ++ t) :
    Chunk.sizeLine l ⟨o, line.length, n⟩ = line := by
  rw [Chunk.sizeLine, h, List.take_left]

/-- Chunk by chunk, the cursor goes where the parser went. -/
theorem cursor_follows {l mem : Bytes} {q : HttpParser} (hmem : mem.take q.chunkOffset = l.take q.chunkOffset)
    (hlen : q.chunkOffset ≤ mem.length) : ∀ (n k : Nat) {p : HttpParser} {c : HttpChunkCursor}, InChunk l p →
    p.chunkState = .chunkData → doWhile (chunkPass l) n p = some (.done, q) → q.chunkOffset - p.chunkOffset < k →
    c.mem = mem → c.pos = p.chunkOffset → c.chunked = true → c.ended = false →
    ((∀ x ∈ chunksTaken l n p, NUL ∉ x.sizeLine l) →
      c.collect k = some ((chunksTaken l n p).map Chunk.payload) ∧
        ∀ result, c.decode k result = some (result ++ (chunksTaken l n p).flatMap (Chunk.data l))) ∧
    ((∃ x ∈ chunksTaken l n p, NUL ∈ x.sizeLine l) → c.collect k = none)
  | 0, _, _, _, _, _, h, _, _, _, _, _ => by cases h
  | n + 1, 0, _, _, _, _, _, h, _, _, _, _ => by omega
  | n + 1, k + 1, p, c, hi, hs, h, hk, hcm, hcp, hcc, hce => by
    have hpass := chunkPass_data hi hs
    rcases parseChunkData_cases (l.drop p.chunkOffset) with ⟨r, hr, -, hd⟩ | ⟨line, rest, hl, hn, hd⟩ |
      ⟨line, m, rest, hl, hn, h0, hmax, hle, hd⟩
    · -- the pass stops: not the end of the message
      rw [hd, passOf, if_neg hr] at hpass
      rw [Loop.doWhile_exit hpass] at h
      cases h
      exact absurd rfl hr
    · -- the last chunk
      rw [hd] at hpass
      obtain ⟨⟨t, ht⟩, hcr, -⟩ := lineScan_found.1 hl
      have hin := chunkPass_resumable.keeps hi (hpass.trans (passOf_again.2 rfl))
      rw [Loop.doWhile_again (hpass.trans (passOf_again.2 rfl))] at h
      have hpost := ((parseChunk_post hin (Loop.doWhile_unique h (parseChunk_run hin)).symm).2.2.1 rfl).2
      simp only at hpost
      obtain ⟨t', ht'⟩ := drop_of_agree (u := line ++ [CR, LF]) (t := t) hmem (by rw [ht]; simp)
        (by simp only [List.length_append, List.length_cons, List.length_nil]; omega)
      have hnext := (next_line (c := c) (t := LF :: t') (n := 0) hce hcc (by rw [hcm, hcp, ht']; simp)
        (fun b hb => (hcr b hb).1) hn (by decide)).1 rfl
      rw [chunksTaken_last n hl hn (hd p)]
      refine ⟨fun _ => ⟨?_, fun result => ?_⟩, by rintro ⟨x, hx, -⟩; cases hx⟩
      · rw [HttpChunkCursor.collect, hnext]; rfl
      · rw [HttpChunkCursor.decode, hnext]; simp
    · -- a chunk with data
      rw [hd] at hpass
      obtain ⟨⟨t, ht⟩, hcr, -⟩ := lineScan_found.1 hl
      have hin := chunkPass_resumable.keeps hi (hpass.trans (passOf_again.2 rfl))
      rw [Loop.doWhile_again (hpass.trans (passOf_again.2 rfl))] at h
      have hpost := ((parseChunk_post hin (Loop.doWhile_unique h (parseChunk_run hin)).symm).2.2.1 rfl).2
      simp only at hpost
      obtain ⟨t', ht'⟩ := drop_of_agree (u := line ++ [CR, LF]) (t := t) hmem (by rw [ht]; simp)
        (by simp only [List.length_append, List.length_cons, List.length_nil]; omega)
      obtain ⟨-, hfound, hlost⟩ := next_line (c := c) (t := LF :: t') hce hcc (by rw [hcm, hcp, ht']; simp)
        (fun b hb => (hcr b hb).1) hn hmax
      rw [chunksTaken_chunk n hs hl hn (hd p)]
      by_cases hnul : NUL ∈ line
      · have hnext := hlost (by omega) hnul
        refine ⟨fun hno => absurd hnul ?_, fun _ => by rw [HttpChunkCursor.collect, hnext]⟩
        have := hno _ List.mem_cons_self
        rwa [sizeLine_eq ht] at this
      · have hnext := hfound (by omega) hnul
        obtain ⟨ih1, ih2⟩ := cursor_follows hmem hlen n k (c := { c with pos := c.pos + line.length + m + 4 }) hin hs h
          (by simp only; omega) hcm (by simp only; omega) hcc hce
        refine ⟨fun hno => ?_, fun hex => ?_⟩
        · obtain ⟨h1, h2⟩ := ih1 fun x hx => hno x (List.mem_cons_of_mem _ hx)
          refine ⟨?_, fun result => ?_⟩
          · rw [HttpChunkCursor.collect, hnext]
            simp only [h1, Option.map_some, List.map_cons]
            rw [hcp]
            rfl
          · have hdata : (c.mem.drop (c.pos + line.length + 2)).take m =
                Chunk.data l ⟨p.chunkOffset, line.length, m⟩ := by
              have hsub (z : Bytes) : (z.drop (p.chunkOffset + line.length + 2)).take m =
                  ((z.take q.chunkOffset).drop (p.chunkOffset + line.length + 2)).take m := by
                rw [List.drop_take, List.take_take, Nat.min_eq_left (by omega)]
              rw [Chunk.data, Chunk.payload, hcm, hcp, hsub mem, hmem, ← hsub l]
            rw [HttpChunkCursor.decode, hnext]
            simp only
            rw [if_pos (by rw [hcm]; omega), h2, hdata, List.flatMap_cons, List.append_assoc]
        · obtain ⟨x, hx, hxn⟩ := hex
          rcases List.mem_cons.1 hx with rfl | hx
          · rw [sizeLine_eq ht] at hxn
            exact absurd hxn hnul
          · rw [HttpChunkCursor.collect, hnext]
            simp only [ih2 ⟨x, hx, hxn⟩, Option.map_none]

theorem parseChunkData_place (ptr : Bytes) {p q : HttpParser} (hs : p.chunkState = q.chunkState)
    (ho : p.chunkOffset = q.chunkOffset) : (parseChunkData ptr p).1 = (parseChunkData ptr q).1 ∧
      (parseChunkData ptr p).2.chunkState = (parseChunkData ptr q).2.chunkState ∧
      (parseChunkData ptr p).2.chunkOffset = (parseChunkData ptr q).2.chunkOffset := by
  rcases parseChunkData_cases ptr with ⟨r, -, -, h⟩ | ⟨line, rest, -, -, h⟩ | ⟨line, m, rest, -, -, -, -, -, h⟩
  · rw [h, h]; exact ⟨rfl, hs, ho⟩
  · rw [h, h, ho]; exact ⟨rfl, rfl, rfl⟩
  · rw [h, h, ho]; exact ⟨rfl, hs, rfl⟩

/-- The chunks depend on the place of the parser in them, and on nothing else it holds. -/
theorem chunksTaken_place {l : Bytes} : ∀ (n : Nat) {p q : HttpParser}, p.chunkState = q.chunkState →
    p.chunkOffset = q.chunkOffset → chunksTaken l n p = chunksTaken l n q
  | 0, _, _, _, _ => rfl
  | n + 1, p, q, hs, ho => by
    obtain ⟨h1, h2, h3⟩ := parseChunkData_place (l.drop q.chunkOffset) hs ho
    rw [chunksTaken, chunksTaken, ho]
    generalize parseChunkData (l.drop q.chunkOffset) p = x at h1 h2 h3
    generalize parseChunkData (l.drop q.chunkOffset) q = y at h1 h2 h3
    obtain ⟨r, u⟩ := x
    obtain ⟨r', v⟩ := y
    simp only at h1 h2 h3
    subst h1
    rcases parseChunkLine (l.drop q.chunkOffset) with ⟨a, i, _ | size⟩
    · rfl
    · cases r with
      | done => simp only [h2, chunksTaken_place n h2 h3]
      | _ => rfl

/-- The chunks of a complete message: those `__parse_chunk_data` takes from the end of the header block on. -/
def messageChunks (message : Bytes) (p : HttpParser) : List Chunk :=
  chunksTaken message (message.length + 1) (p.atChunk .chunkData p.headerOffset)

/-- A complete chunked message was read chunk by chunk. -/
theorem feed_chunked {p s : HttpParser} {isResp zeroBody : Bool} {frags : List Bytes} {n : Nat}
    (h : feed frags (fresh isResp zeroBody p) = (.done, n, s)) (hc : s.chunked = true) (ht : s.transferLength = sizeMax) :
    ∃ u q, u.chunkState = .chunkData ∧ u.chunkOffset = s.headerOffset ∧ InChunk frags.flatten u ∧
      parseChunk frags.flatten u = (.done, q) ∧ q.chunkOffset = s.msgsize := by
  obtain ⟨hi, t, hp, hst, hsize⟩ := feed_fresh h
  have htc : t.chunked = true := hst.chunked.trans hc
  have htt : t.transferLength = sizeMax := hst.transferLength.trans ht
  rcases parseMessage_open hi hp with ⟨hd, -⟩ | ⟨u, -, hready, hus, hb⟩
  · exact absurd rfl hd
  · obtain ⟨cs, k, z, b, hshape⟩ := finishBody_shape hready ((startBody_state u).1.trans hus)
    rw [hb] at hshape
    have hcu : (startBody u).chunked = true := by rw [← htc, show t = _ from hshape]; rfl
    have htu : (startBody u).transferLength = sizeMax := by rw [← htt, show t = _ from hshape]; rfl
    have hou : (startBody u).headerOffset = s.headerOffset := by rw [← hst.offset, show t = _ from hshape]; rfl
    have hsb : startBody u = u.atChunk .chunkData u.headerOffset := by
      have hcu' : u.chunked = true := by
        rw [← hcu, startBody]
        split
        · rfl
        · split <;> rfl
      rw [startBody, if_pos hcu']
    have hic := (hready.chunk ((startBody_state u).1.trans hus) hcu).2
    rw [finishBody_chunks htu hcu hic] at hb
    rcases hq : parseChunk frags.flatten (startBody u) with ⟨r, q⟩
    rw [hq] at hb
    cases r with
    | done =>
      obtain ⟨-, ⟨cs', k', rfl, -⟩, -⟩ := parseChunk_post hic hq
      cases hb
      refine ⟨startBody u, _, by rw [hsb]; rfl, ?_, hic, hq, ?_⟩
      · rw [← hou, hsb]; rfl
      · rw [← hsize rfl]
        exact (atChunk_total htu cs' k').symm
    | _ => cases hb

/-- **The cursor reads what the parser took exactly when no size line of a chunk with data holds a NUL.** -/
theorem chunkCursor_reads (p : HttpParser) (isResp zeroBody : Bool) (frags : List Bytes)
    (hdone : (feed frags (fresh isResp zeroBody p)).1 = .done)
    (hc : (feed frags (fresh isResp zeroBody p)).2.2.chunked = true)
    (ht : (feed frags (fresh isResp zeroBody p)).2.2.transferLength = sizeMax) :
    let s := (feed frags (fresh isResp zeroBody p)).2.2
    let cursor := HttpChunkCursor.init s
    let chunks := messageChunks frags.flatten s
    (cursor.collect (cursor.mem.length + 1) = some (chunks.map Chunk.payload) ∧
      decodeChunkedBody s = some (chunks.flatMap (Chunk.data frags.flatten))) ↔
    ∀ x ∈ chunks, NUL ∉ x.sizeLine frags.flatten := by
  intro s cursor chunks
  have hfeed : feed frags (fresh isResp zeroBody p) = (.done, (feed frags (fresh isResp zeroBody p)).2.1, s) := by
    rw [← hdone]
  obtain ⟨u, q, hus, huo, hi, hq, hqs⟩ := feed_chunked hfeed hc ht
  obtain ⟨-, -, -, hd⟩ := feed_run frags (fresh_follows isResp zeroBody p) hfeed
  obtain ⟨hcomp, -, hbuf⟩ := hd rfl
  rw [List.nil_append] at hcomp hbuf
  have hbody : httpParserGetBody s = some (s.headerOffset, s.msgsize - s.headerOffset,
      { s with msgbuf := s.msgbuf.take s.msgsize ++ NUL :: s.msgbuf.drop (s.msgsize + 1) }) := by
    rw [httpParserGetBody, if_pos ⟨hcomp.complete, hcomp.header⟩]
  have hcur : cursor =
      { mem := s.msgbuf.take s.msgsize ++ NUL :: s.msgbuf.drop (s.msgsize + 1),
        body := s.headerOffset, bodyLen := s.msgsize - s.headerOffset,
        pos := s.headerOffset, chunked := true, ended := false } := by
    simp only [cursor]
    rw [HttpChunkCursor.init, hbody, ← hc]
  have hlen : (s.msgbuf.take s.msgsize).length = s.msgsize := by
    rw [hbuf, List.length_take, Nat.min_eq_left hcomp.size]
  have hmlen : cursor.mem.length = s.msgsize + (s.msgbuf.drop (s.msgsize + 1)).length + 1 := by
    rw [hcur]
    simp only [List.length_append, hlen, List.length_cons]
    omega
  have hmem : cursor.mem.take q.chunkOffset = frags.flatten.take q.chunkOffset := by
    rw [hqs, hcur, ← hbuf]
    exact List.take_left' hlen
  have hchunks : chunks = chunksTaken frags.flatten (frags.flatten.length + 1) u :=
    chunksTaken_place _ (hus.symm ▸ rfl) huo.symm
  have hrun := parseChunk_run hi
  rw [hq] at hrun
  obtain ⟨h1, h2⟩ := cursor_follows hmem (by omega) _ (cursor.mem.length + 1) hi hus hrun (by omega) rfl
    (by rw [hcur]; exact huo.symm) (by rw [hcur]) (by rw [hcur])
  rw [← hchunks] at h1 h2
  have hdec : decodeChunkedBody s = cursor.decode (cursor.mem.length + 1) [] := by
    rw [decodeChunkedBody, hbody]
    rfl
  constructor
  · rintro ⟨hcol, -⟩ x hx hxn
    rw [h2 ⟨x, hx, hxn⟩] at hcol
    cases hcol
  · intro hno
    obtain ⟨h3, h4⟩ := h1 hno
    exact ⟨h3, by rw [hdec, h4, List.nil_append]⟩

theorem sizeLine_sub {l : Bytes} {x : Chunk} {b : UInt8} (h : b ∈ x.sizeLine l) : b ∈ l :=
  List.mem_of_mem_drop (List.mem_of_mem_take h)

theorem chunkCursor_reads_hello :
    let frags := [ascii "HTTP/1.1 200 OK\r\nTransfer-Encoding: chunked\r\n\r\n5;x\r\nhello\r\n0\r\n\r\n"]
    let s := (feed frags (fresh true false default)).2.2
    (messageChunks frags.flatten s).flatMap (Chunk.data frags.flatten) = ascii "hello" := by
  intro frags s
  have h := chunkCursor_reads default true false frags (by decide +kernel) (by decide +kernel) (by decide +kernel)
  have hno : NUL ∉ frags.flatten := by decide +kernel
  have hdecode : decodeChunkedBody s = some (ascii "hello") := by decide +kernel
  exact Option.some.inj ((h.2 fun _ _ hx => hno (sizeLine_sub hx)).2.symm.trans hdecode)

/-- The parser takes a size line with a NUL in it, a complete message, and the cursor loses its way in it. -/
theorem chunkCursor_nul :
    let frags := [ascii "HTTP/1.1 200 OK\r\nTransfer-Encoding: chunked\r\n\r\n5;a" ++ NUL :: ascii "b\r\nhello\r\n0\r\n\r\n"]
    let r := feed frags (fresh true false default)
    let cursor := HttpChunkCursor.init r.2.2
    r.1 = .done ∧ r.2.2.chunked = true ∧ r.2.2.transferLength = sizeMax ∧ cursor.next = .fault ∧
      ¬ (cursor.collect (cursor.mem.length + 1) = some ((messageChunks frags.flatten r.2.2).map Chunk.payload) ∧
        decodeChunkedBody r.2.2 =
          some ((messageChunks frags.flatten r.2.2).flatMap (Chunk.data frags.flatten))) := by
  intro frags r cursor
  have hdecode : decodeChunkedBody r.2.2 = none := by decide +kernel
  refine ⟨by decide +kernel, by decide +kernel, by decide +kernel, by decide +kernel, fun h => ?_⟩
  rw [hdecode] at h
  cases h.2

end Tinywf
