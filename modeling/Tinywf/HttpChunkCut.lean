import Tinywf.HttpChunkGrammar
/-!
# HttpChunkCut — the cursor over a message that was cut off

`http_parser_close_message` makes a body of whatever has come.  The chunk cursor does not know where that ends: it trusts
every size it reads, and stays inside exactly when what has come is whole chunks, with something behind them that
`strtol` reads no size from (`cut_within`).
-/
namespace Tinywf

open CLib

/-! ## At the end of the body -/

theorem takeSign_nul (s t : Bytes) : takeSign (s ++ NUL :: t) = ((takeSign s).1, (takeSign s).2 ++ NUL :: t) := by
  by_cases hs : s = []
  · subst hs; rfl
  · exact takeSign_append hs _

theorem endsNumber_nul : EndsNumber NUL := ⟨by decide, by decide⟩

theorem skipPrefix_nul (s t : Bytes) : skipPrefix 16 (s ++ NUL :: t) = skipPrefix 16 s ++ NUL :: t := by
  by_cases hs : s = []
  · subst hs
    exact skipPrefix_ne (by decide) t
  · exact skipPrefix_append endsNumber_nul hs t

theorem dropWhile_nul {p : UInt8 → Bool} (h : p NUL = false) (s t : Bytes) :
    (s ++ NUL :: t).dropWhile p = s.dropWhile p ++ NUL :: t := by
  rw [List.dropWhile_append]
  split
  · rename_i he
    rw [List.isEmpty_iff.1 he, List.dropWhile_cons_of_neg (by rw [h]; decide), List.nil_append]
  · rfl

theorem takeWhile_nul {p : UInt8 → Bool} (h : p NUL = false) (s t : Bytes) :
    (s ++ NUL :: t).takeWhile p = s.takeWhile p := by
  rw [List.takeWhile_append]
  split
  · rename_i hl
    rw [List.takeWhile_cons_of_neg (by rw [h]; decide), List.append_nil]
    exact ((List.takeWhile_sublist _).eq_of_length hl).symm
  · rfl

/-- **A NUL ends what `strtol` looks at.** -/
theorem strtol_nul (s t : Bytes) : strtol 16 (s ++ NUL :: t) = (strtol 16 s).map (fun r => (r.1, r.2 ++ NUL :: t)) := by
  have hd : isDigitOf 16 NUL = false := by decide
  have hstart : numberStart 16 (s ++ NUL :: t) = ((numberStart 16 s).1, (numberStart 16 s).2 ++ NUL :: t) := by
    rw [numberStart, dropWhile_nul (by decide), takeSign_nul, skipPrefix_nul]
    rfl
  rw [strtol_eq, strtol_eq, hstart]
  simp only
  rw [takeWhile_nul hd, dropWhile_nul hd]
  split <;> rfl

/-- `strchr` finds the first CR, or a NUL stops it before one. -/
theorem strchr_cases (t : Bytes) : ∀ s : Bytes, (∃ u v, s = u ++ CR :: v ∧ CR ∉ u ∧ NUL ∉ u) ∨
    strchr CR (s ++ NUL :: t) = none
  | [] => Or.inr rfl
  | b :: s => by
    by_cases hb : b = CR
    · exact Or.inl ⟨[], s, by rw [hb]; rfl, List.not_mem_nil, List.not_mem_nil⟩
    · by_cases h0 : b = NUL
      · exact Or.inr (by rw [List.cons_append, strchr, if_neg hb, if_pos h0])
      · rcases strchr_cases t s with ⟨u, v, rfl, hu, hn⟩ | h
        · refine Or.inl ⟨b :: u, v, rfl, ?_, ?_⟩
          · exact fun h => (List.mem_cons.1 h).elim (fun e => hb e.symm) hu
          · exact fun h => (List.mem_cons.1 h).elim (fun e => h0 e.symm) hn
        · refine Or.inr ?_
          rw [List.cons_append, strchr, if_neg hb, if_neg h0, h]
          rfl

/-! ## Staying inside -/

/-- The size `next` reads from the bytes at its position. -/
def sizeAt (b : Bytes) : Nat := (((strtol 16 b).map Prod.fst).getD 0 % 2 ^ 64).toNat

/-- **Whole chunks, and then no size**: behind each size a CR and one more byte, the data, and two more bytes. -/
inductive WholeChunks : Bytes → Prop
  | stop {b : Bytes} (size : sizeAt b = 0) : WholeChunks b
  | chunk {b u data rest : Bytes} {n : Int} {x y z : UInt8}
      (size : strtol 16 b = some (n, u ++ CR :: x :: (data ++ y :: z :: rest))) (line : CR ∉ u ∧ NUL ∉ u)
      (all : (n % 2 ^ 64).toNat = data.length) (pos : data ≠ []) (rest : WholeChunks rest) : WholeChunks b

/-- At most `n` calls of `next` end the iteration, with the position and every chunk inside the body. -/
def HttpChunkCursor.Within : Nat → HttpChunkCursor → Prop
  | 0, _ => False
  | n + 1, c => c.body ≤ c.pos ∧ c.pos ≤ c.body + c.bodyLen ∧ match c.next with
    | .stop _ => True
    | .chunk off size c' => c.body ≤ off ∧ off + size ≤ c.body + c.bodyLen ∧ Within n c'
    | .fault => False

section Cursor

variable {c : HttpChunkCursor} {pre post b u v : Bytes} {n : Int}

/-- A cursor at the bytes `b` of a body that a NUL ends. -/
structure HttpChunkCursor.At (pre post b : Bytes) (c : HttpChunkCursor) : Prop where
  mem : c.mem = pre ++ NUL :: post
  chunked : c.chunked = true
  ended : c.ended = false
  last : c.body + c.bodyLen = pre.length
  lower : c.body ≤ c.pos
  upper : c.pos ≤ pre.length
  bytes : pre.drop c.pos = b

/-- One byte, `m` bytes, and two more. -/
theorem chunk_of_length {m : Nat} (h : m + 3 ≤ v.length) :
    ∃ x data y z rest, v = x :: (data ++ y :: z :: rest) ∧ data.length = m := by
  match v, h with
  | x :: v, h =>
    have hd : 2 ≤ (v.drop m).length := by
      rw [List.length_drop]
      rw [List.length_cons] at h
      omega
    match hv : v.drop m, hd with
    | y :: z :: rest, _ =>
      refine ⟨x, v.take m, y, z, rest, by rw [← hv, List.take_append_drop], ?_⟩
      rw [List.length_cons] at h
      rw [List.length_take, Nat.min_eq_left (by omega)]

namespace HttpChunkCursor

theorem At.drop (h : At pre post b c) : c.mem.drop c.pos = b ++ NUL :: post := by
  rw [h.mem, List.drop_append_of_le_length h.upper, h.bytes]

theorem At.length (h : At pre post b c) : c.pos + b.length = pre.length := by
  have := h.upper
  rw [← h.bytes, List.length_drop]
  omega

theorem At.inside (h : At pre post b c) : ¬ c.mem.length ≤ c.pos := by
  have := h.upper
  rw [h.mem, List.length_append, List.length_cons]
  omega

theorem At.next_none (h : At pre post b c) (hs : strtol 16 b = none) : c.next = .stop { c with ended := true } := by
  rw [next, h.ended, h.chunked, if_neg (by decide), if_neg (by decide), if_neg h.inside, h.drop]
  dsimp only
  rw [strtol_nul, hs]
  rfl

theorem At.next_some (h : At pre post b c) {rest : Bytes} (hs : strtol 16 b = some (n, rest)) : c.next =
    if (n % 2 ^ 64).toNat = 0 then .stop { c with ended := true }
    else
      match strchr CR (rest ++ NUL :: post) with
      | none => .fault
      | some (u, _) => .chunk (c.mem.length - (rest ++ NUL :: post).length + u.length + 2) (n % 2 ^ 64).toNat
          { c with pos := c.mem.length - (rest ++ NUL :: post).length + u.length + (n % 2 ^ 64).toNat + 4 } := by
  rw [next, h.ended, h.chunked, if_neg (by decide), if_neg (by decide), if_neg h.inside, h.drop]
  dsimp only
  rw [strtol_nul, hs]
  rfl

theorem At.next_stop (h : At pre post b c) (h0 : sizeAt b = 0) : c.next = .stop { c with ended := true } := by
  cases hs : strtol 16 b with
  | none => exact h.next_none hs
  | some r =>
    rw [sizeAt, hs] at h0
    rw [h.next_some hs]
    exact if_pos h0

/-- A chunk, with its size line's end at the first CR. -/
theorem At.next_chunk (h : At pre post b c) (hs : strtol 16 b = some (n, u ++ CR :: v)) (hu : CR ∉ u ∧ NUL ∉ u)
    (h0 : (n % 2 ^ 64).toNat ≠ 0) : ∃ cr, cr + (CR :: v).length = pre.length ∧ c.pos ≤ cr ∧
      c.next = .chunk (cr + 2) (n % 2 ^ 64).toNat { c with pos := cr + (n % 2 ^ 64).toNat + 4 } := by
  have hlen := h.length
  obtain ⟨w, hw, -⟩ := strtol_prefix hs
  have hb := congrArg List.length hw
  rw [List.length_append, List.length_append] at hb
  have hplain : ∀ b ∈ u, b ≠ CR ∧ b ≠ NUL := by
    intro b hb
    refine ⟨?_, ?_⟩
    · rintro rfl; exact hu.1 hb
    · rintro rfl; exact hu.2 hb
  have hfound : strchr CR (u ++ CR :: v ++ NUL :: post) = some (u, v ++ NUL :: post) := by
    rw [List.append_assoc, List.cons_append]
    exact strchr_found hplain _
  have hcr : c.mem.length - (u ++ CR :: v ++ NUL :: post).length + u.length = c.pos + w.length + u.length := by
    rw [h.mem, List.length_append, List.length_append, List.length_append]
    omega
  refine ⟨c.pos + w.length + u.length, by omega, by omega, ?_⟩
  rw [h.next_some hs, if_neg h0, hfound]
  simp only [hcr]

theorem At.next_lost (h : At pre post b c) {rest : Bytes} (hs : strtol 16 b = some (n, rest))
    (hl : strchr CR (rest ++ NUL :: post) = none) (h0 : (n % 2 ^ 64).toNat ≠ 0) : c.next = .fault := by
  rw [h.next_some hs, if_neg h0, hl]

/-- The cursor behind a chunk. -/
theorem At.step (h : At pre post b c) {data rest : Bytes} {x y z : UInt8} {cr : Nat}
    (hs : strtol 16 b = some (n, u ++ CR :: x :: (data ++ y :: z :: rest)))
    (hcr : cr + (CR :: x :: (data ++ y :: z :: rest)).length = pre.length) (hle : c.pos ≤ cr) :
    At pre post rest { c with pos := cr + data.length + 4 } where
  mem := h.mem
  chunked := h.chunked
  ended := h.ended
  last := h.last
  lower := by
    have := h.lower
    simp only
    omega
  upper := by
    simp only [List.length_cons, List.length_append] at hcr ⊢
    omega
  bytes := by
    obtain ⟨w, hw, -⟩ := strtol_prefix hs
    have hcut : pre.drop c.pos = (w ++ u ++ CR :: x :: data ++ [y, z]) ++ rest := by rw [h.bytes, hw]; simp
    have hlen := congrArg List.length hcut
    simp only [List.length_drop, List.length_cons, List.length_append, List.length_nil] at hlen hcr
    have ho : c.pos + (w ++ u ++ CR :: x :: data ++ [y, z]).length = cr + data.length + 4 := by
      simp only [List.length_cons, List.length_append, List.length_nil]
      omega
    rw [← ho]
    exact drop_add hcut rfl

/-- **A body of whole chunks keeps the cursor inside.** -/
theorem At.within (hw : WholeChunks b) : ∀ {c : HttpChunkCursor}, At pre post b c → ∃ n, Within n c := by
  induction hw with
  | stop size => exact fun {c} h => ⟨1, h.lower, h.last ▸ h.upper, by rw [h.next_stop size]; trivial⟩
  | @chunk b u data rest n x y z size line all pos _ ih =>
    intro c h
    have hpos := List.length_pos_iff.2 pos
    obtain ⟨cr, hcr, hle, hnext⟩ := h.next_chunk size line (by omega)
    rw [all] at hnext
    obtain ⟨k, hk⟩ := ih (h.step size hcr hle)
    have hlower := h.lower
    have hlast := h.last
    simp only [List.length_cons, List.length_append] at hcr
    exact ⟨k + 1, h.lower, h.last ▸ h.upper, by
      rw [hnext]
      exact ⟨by omega, by omega, hk⟩⟩

/-- **A cursor that stays inside went over whole chunks.** -/
theorem At.whole : ∀ (k : Nat) {b : Bytes} {c : HttpChunkCursor}, At pre post b c → Within k c → WholeChunks b
  | 0, _, _, _, hw => hw.elim
  | k + 1, b, c, h, hw => by
    obtain ⟨-, -, hw⟩ := hw
    by_cases h0 : sizeAt b = 0
    · exact .stop h0
    · cases hs : strtol 16 b with
      | none => exact absurd (show sizeAt b = 0 by rw [sizeAt, hs]; rfl) h0
      | some r =>
        obtain ⟨n, rest⟩ := r
        have h0' : (n % 2 ^ 64).toNat ≠ 0 := by rwa [sizeAt, hs] at h0
        rcases strchr_cases post rest with ⟨u, v, rfl, hu⟩ | hl
        · obtain ⟨cr, hcr, hle, hnext⟩ := h.next_chunk hs hu h0'
          rw [hnext] at hw
          obtain ⟨-, hoff, hw'⟩ := hw
          have hupper : cr + (n % 2 ^ 64).toNat + 4 ≤ c.body + c.bodyLen := by
            cases k with
            | zero => exact hw'.elim
            | succ k => exact hw'.2.1
          rw [h.last] at hupper
          obtain ⟨x, data, y, z, rest, rfl, hd⟩ := chunk_of_length (m := (n % 2 ^ 64).toNat) (v := v)
            (by rw [List.length_cons] at hcr; omega)
          refine .chunk hs hu hd.symm (fun he => h0' ?_) (At.whole k (c := { c with pos := _ }) ?_ hw')
          · rw [← hd, he]
            rfl
          · rw [← hd]
            exact h.step hs hcr hle
        · rw [h.next_lost hs hl h0'] at hw
          exact hw.elim

end HttpChunkCursor

end Cursor

/-! ## Any message, cut anywhere -/

theorem Between.room_buf {l : Bytes} {p : HttpParser} (h : Between l p) : p.msgsize ≤ p.msgbuf.length := by
  have hlen := congrArg List.length h.buf
  rw [List.length_take, ← h.size] at hlen
  omega

/-- The message is in its buffer after every sequence of calls. -/
theorem appendAll_buf : ∀ (frags : List Bytes) {p : HttpParser}, Sound p → p.msgsize ≤ p.msgbuf.length →
    (appendAll frags p).2.msgsize ≤ (appendAll frags p).2.msgbuf.length
  | [], _, _, h => h
  | buf :: rest, p, hs, h => by
    rcases hq : httpParserAppendMessage buf p with ⟨r, n, q⟩
    have hs' := (hs.append hq).1
    simp only [appendAll, hq]
    refine appendAll_buf rest hs' ?_
    cases hs with
    | between l hb =>
      obtain ⟨-, -, hmore, hdone⟩ := append_post hb hq
      by_cases hd : r = .done
      · obtain ⟨hc, -, -, hbuf, -⟩ := hdone hd
        rw [hbuf]
        exact hc.size
      · exact (hmore hd).2.room_buf
    | completed l hc _ =>
      rw [httpParserAppendMessage, if_pos hc.complete] at hq
      cases hq
      exact h

/-- Without chunks the cursor gives the body once. -/
theorem within_plain {c : HttpChunkCursor} (hc : c.chunked = false) (he : c.ended = false) (hp : c.pos = c.body) :
    c.Within 2 := by
  have h1 : c.next = .chunk c.body c.bodyLen { c with ended := true } := by
    rw [HttpChunkCursor.next, he, hc]
    rfl
  have h2 : ({ c with ended := true } : HttpChunkCursor).next = .stop { c with ended := true } := rfl
  refine ⟨Nat.le_of_eq hp.symm, by omega, ?_⟩
  rw [h1]
  refine ⟨Nat.le_refl _, Nat.le_refl _, Nat.le_of_eq hp.symm, by simp only; omega, ?_⟩
  rw [h2]
  trivial

/-- **The cursor stays inside a message that was cut off exactly when its body is not chunked, or whole chunks and then
no size.** -/
theorem cut_within (p : HttpParser) (isResp zeroBody : Bool) (frags : List Bytes)
    (hs : (appendAll frags (fresh isResp zeroBody p)).2.headerState = .headerComplete) :
    let s := (appendAll frags (fresh isResp zeroBody p)).2
    (∃ n, (HttpChunkCursor.init (httpParserCloseMessage s)).Within n) ↔
      (s.chunked = true → WholeChunks ((s.msgbuf.take s.msgsize).drop s.headerOffset)) := by
  intro s
  have hb := fresh_between isResp zeroBody p
  have hbuf : s.msgsize ≤ s.msgbuf.length := appendAll_buf frags (.between _ hb) hb.room_buf
  have hoff : s.headerOffset ≤ s.msgsize := (appendAll_sound frags (.between _ hb)).1.offset
  have hlen : (s.msgbuf.take s.msgsize).length = s.msgsize := by rw [List.length_take, Nat.min_eq_left hbuf]
  have hinit : HttpChunkCursor.init (httpParserCloseMessage s) =
      { mem := s.msgbuf.take s.msgsize ++ NUL :: s.msgbuf.drop (s.msgsize + 1), body := s.headerOffset,
        bodyLen := s.msgsize - s.headerOffset, pos := s.headerOffset, chunked := s.chunked, ended := false } := by
    have hbody : httpParserGetBody (httpParserCloseMessage s) = some (s.headerOffset, s.msgsize - s.headerOffset,
        { httpParserCloseMessage s with msgbuf := s.msgbuf.take s.msgsize ++ NUL :: s.msgbuf.drop (s.msgsize + 1) }) := by
      rw [httpParserGetBody, if_pos ⟨rfl, hs⟩]
      rfl
    rw [HttpChunkCursor.init, hbody]
    rfl
  rw [hinit]
  by_cases hc : s.chunked = true
  · have hat : HttpChunkCursor.At (s.msgbuf.take s.msgsize) (s.msgbuf.drop (s.msgsize + 1))
        ((s.msgbuf.take s.msgsize).drop s.headerOffset)
        { mem := s.msgbuf.take s.msgsize ++ NUL :: s.msgbuf.drop (s.msgsize + 1), body := s.headerOffset,
          bodyLen := s.msgsize - s.headerOffset, pos := s.headerOffset, chunked := s.chunked, ended := false } := {
      mem := rfl
      chunked := hc
      ended := rfl
      last := by simp only [hlen]; omega
      lower := Nat.le_refl _
      upper := by rw [hlen]; exact hoff
      bytes := rfl }
    constructor
    · rintro ⟨n, hn⟩ -
      exact hat.whole n hn
    · exact fun h => hat.within (h hc)
  · have hc' : s.chunked = false := by simpa using hc
    exact ⟨fun _ h => absurd h hc, fun _ => ⟨2, within_plain hc' rfl rfl⟩⟩

theorem cut_within_line :
    let s := (appendAll [ascii "HTTP/1.1 200 OK\r\nTransfer-Encoding: chunked\r\n\r\n5\r\nhello\r\n0\r"]
      (fresh true false default)).2
    (∃ n, (HttpChunkCursor.init (httpParserCloseMessage s)).Within n) := by
  intro s
  refine (cut_within default true false
    [ascii "HTTP/1.1 200 OK\r\nTransfer-Encoding: chunked\r\n\r\n5\r\nhello\r\n0\r"] (by decide +kernel)).2 fun _ => ?_
  have hbody : (s.msgbuf.take s.msgsize).drop s.headerOffset = ascii "5\r\nhello\r\n0\r" := by decide +kernel
  rw [hbody]
  have hsize : strtol 16 (ascii "5\r\nhello\r\n0\r") =
      some (5, [] ++ CR :: LF :: (ascii "hello" ++ CR :: LF :: ascii "0\r")) := by decide
  exact .chunk hsize (by decide) (by decide) (by decide) (.stop (by decide))

/-- A cursor that gives out a chunk beyond the body is not inside. -/
theorem within_beyond {c c' : HttpChunkCursor} {off size : Nat} (h : c.next = .chunk off size c')
    (hlt : c.body + c.bodyLen < off + size) : ¬ ∃ n, c.Within n := by
  rintro ⟨n, hn⟩
  cases n with
  | zero => exact hn
  | succ n =>
    obtain ⟨-, -, hn⟩ := hn
    rw [h] at hn
    exact absurd hn.2.1 (by omega)

/-- A message cut off within the data of a chunk: the cursor gives out five bytes where there are three. -/
theorem cut_beyond :
    let s := (appendAll [ascii "HTTP/1.1 200 OK\r\nTransfer-Encoding: chunked\r\n\r\n5\r\nhel"]
      (fresh true false default)).2
    s.headerState = .headerComplete ∧ ¬ ∃ n, (HttpChunkCursor.init (httpParserCloseMessage s)).Within n := by
  intro s
  have hs : s.headerState = .headerComplete := by decide +kernel
  have hnext : (HttpChunkCursor.init (httpParserCloseMessage s)).next =
      .chunk 50 5 { HttpChunkCursor.init (httpParserCloseMessage s) with pos := 57 } := by decide +kernel
  have hlast : (HttpChunkCursor.init (httpParserCloseMessage s)).body +
      (HttpChunkCursor.init (httpParserCloseMessage s)).bodyLen < 50 + 5 := by decide +kernel
  exact ⟨hs, within_beyond hnext hlast⟩

end Tinywf
