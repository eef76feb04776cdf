import Tinywf.HttpChunkGrammar
/-!
# HttpChunkedBody — chunked bodies, accepted and written

What the parser accepts is looser than the chunked grammar (`chunked_accepted`): `strtol` reads a size behind white space,
a sign and `0x`, anything may stand behind it, and so may anything in place of the CRLF behind the data.  What is written
by the grammar it accepts whole, and the chunk cursor gives the data back (`chunked_decoded`).
-/
namespace Tinywf

open CLib

/-! ## Size lines -/

abbrev SEMICOLON : UInt8 := 59

/-- A size line by the grammar: hex digits, and at most an extension. -/
def StrictSize (line : Bytes) (n : Nat) : Prop :=
  CR ∉ line ∧ ∃ digits ext, line = digits ++ ext ∧ digits ≠ [] ∧ (∀ b ∈ digits, isDigitOf 16 b = true) ∧
    digitsVal 16 digits = n ∧ (ext = [] ∨ ∃ u, ext = SEMICOLON :: u)

/-- A size line as `strtol` reads it, up to the byte it stops at; only a zero may have a minus. -/
def LooseSize (line : Bytes) (n : Nat) : Prop :=
  CR ∉ line ∧ ∃ white sign hex digits ext, line = white ++ (sign ++ (hex ++ (digits ++ ext))) ∧
    (∀ b ∈ white, isspace b = true) ∧ (sign = [] ∨ sign = ascii "+" ∨ (sign = ascii "-" ∧ n = 0)) ∧
    (hex = [] ∨ hex = ascii "0x" ∨ hex = ascii "0X") ∧ digits ≠ [] ∧ (∀ b ∈ digits, isDigitOf 16 b = true) ∧
    digitsVal 16 digits = n ∧ strtol 16 line = some ((n : Int), ext)

/-- Chunks, a size line of value zero, trailer lines, and a CRLF; `size` is what a size line may be, `tail` what may
stand behind the data. -/
def BodyForm (size : Bytes → Nat → Prop) (tail : Bytes → Prop) (body : Bytes) : Prop :=
  ∃ cs last trailer, body = bodyText cs last trailer ∧ (∀ c ∈ cs, size c.line c.data.length ∧ tail c.tail) ∧
    size last 0 ∧ ∀ x ∈ trailer, x ≠ [] ∧ CR ∉ x

/-- The bytes of the message behind its header block. -/
def bodyOf (message : Bytes) (s : HttpParser) : Bytes :=
  (message.drop s.headerOffset).take (s.msgsize - s.headerOffset)

theorem takeSign_form (s : Bytes) : ∃ sign, s = sign ++ (takeSign s).2 ∧
    (((takeSign s).1 = false ∧ (sign = [] ∨ sign = ascii "+")) ∨ ((takeSign s).1 = true ∧ sign = ascii "-")) := by
  unfold takeSign
  split
  · exact ⟨ascii "-", rfl, Or.inr ⟨rfl, rfl⟩⟩
  · exact ⟨ascii "+", rfl, Or.inl ⟨rfl, Or.inr rfl⟩⟩
  · exact ⟨[], rfl, Or.inl ⟨rfl, Or.inl rfl⟩⟩

theorem tolower_x {x : UInt8} (h : tolower x = 120) : x = 120 ∨ x = 88 := by
  unfold tolower at h
  split at h
  · have hx := congrArg (· - 32) h
    simp only [UInt8.add_sub_cancel] at hx
    exact Or.inr hx
  · exact Or.inl h

theorem skipPrefix_form (s : Bytes) : ∃ hex, s = hex ++ skipPrefix 16 s ∧
    (hex = [] ∨ hex = ascii "0x" ∨ hex = ascii "0X") := by
  unfold skipPrefix
  split
  · rename_i x d s
    split
    · rename_i h
      rcases tolower_x h.2.1 with rfl | rfl
      · exact ⟨ascii "0x", rfl, Or.inr (Or.inl rfl)⟩
      · exact ⟨ascii "0X", rfl, Or.inr (Or.inr rfl)⟩
    · exact ⟨[], rfl, Or.inl rfl⟩
  · exact ⟨[], rfl, Or.inl rfl⟩

/-- **What a line is that `strtol` reads a size from.** -/
theorem looseSize_of_strtol {line rest : Bytes} {n : Nat} (hcr : CR ∉ line) (hmax : n < CHUNK_SIZE_MAX)
    (h : strtol 16 line = some ((n : Int), rest)) : LooseSize line n := by
  have hread := h
  rw [strtol_eq] at h
  split at h
  · cases h
  · rename_i hds
    obtain ⟨sign, hsign, hneg⟩ := takeSign_form (line.dropWhile isspace)
    obtain ⟨hex, hhex, hcase⟩ := skipPrefix_form (takeSign (line.dropWhile isspace)).2
    obtain ⟨hval, hrest⟩ := Prod.mk.inj (Option.some.inj h)
    have hmax' : n < 2147483648 := by unfold CHUNK_SIZE_MAX HTTP_CHUNK_LINE_MAX at hmax; omega
    refine ⟨hcr, line.takeWhile isspace, sign, hex, (numberStart 16 line).2.takeWhile (isDigitOf 16), rest, ?_,
      fun b hb => List.all_eq_true.1 List.all_takeWhile b hb, ?_, hcase, hds,
      fun b hb => List.all_eq_true.1 List.all_takeWhile b hb, ?_, hread⟩
    · rw [← hrest, List.takeWhile_append_dropWhile, numberStart, ← hhex, ← hsign, List.takeWhile_append_dropWhile]
    · rcases hneg with ⟨-, hs⟩ | ⟨hs, hs'⟩
      · exact hs.imp_right Or.inl
      · rw [numberStart, hs, clampLong, if_pos rfl] at hval
        exact Or.inr (Or.inr ⟨hs', by omega⟩)
    · rcases hneg with ⟨hs, -⟩ | ⟨hs, -⟩
      · rw [show (numberStart 16 line).1 = false from hs, clampLong, if_neg (by decide)] at hval
        unfold LONG_MAX at hval
        omega
      · rw [show (numberStart 16 line).1 = true from hs, clampLong, if_pos rfl] at hval
        unfold LONG_MAX at hval
        omega

/-- A line has one size. -/
theorem LooseSize.unique {line : Bytes} {m n : Nat} (hm : LooseSize line m) (hn : LooseSize line n) : m = n := by
  obtain ⟨-, _, _, _, _, _, -, -, -, -, -, -, -, hm⟩ := hm
  obtain ⟨-, _, _, _, _, _, -, -, -, -, -, -, -, hn⟩ := hn
  exact Int.ofNat.inj (Prod.mk.inj (Option.some.inj (hm.symm.trans hn))).1

/-! ## What is accepted -/

/-- **The bodies the parser accepts.** -/
theorem chunked_accepted (p : HttpParser) (isResp zeroBody : Bool) (frags : List Bytes)
    (hdone : (feed frags (fresh isResp zeroBody p)).1 = .done)
    (hc : (feed frags (fresh isResp zeroBody p)).2.2.chunked = true)
    (ht : (feed frags (fresh isResp zeroBody p)).2.2.transferLength = sizeMax) :
    BodyForm LooseSize (fun tail => tail.length = 2) (bodyOf frags.flatten (feed frags (fresh isResp zeroBody p)).2.2) := by
  obtain ⟨u, q, hus, huo, hi, hq, hqs⟩ := feed_chunked (n := (feed frags (fresh isResp zeroBody p)).2.1)
    (s := (feed frags (fresh isResp zeroBody p)).2.2) (by rw [← hdone]) hc ht
  obtain ⟨cs, last, trailer, t, hb, hl, ho⟩ := text_of_done _ hi hus (hq ▸ parseChunk_run hi)
  have hzero : (0 : Nat) < CHUNK_SIZE_MAX := by decide
  refine ⟨cs, last, trailer, ?_, fun c hc => ?_, ?_, fun x hx => ⟨(hb.trailer x hx).pos, (hb.trailer x hx).line.plain⟩⟩
  · rw [bodyOf, ← hqs, ← huo, ho, hl, Nat.add_sub_cancel_left, List.take_left]
  · obtain ⟨rest, hn⟩ := (hb.chunks c hc).size
    exact ⟨looseSize_of_strtol (hb.chunks c hc).line.plain (hb.chunks c hc).max hn, (hb.chunks c hc).tail⟩
  · obtain ⟨rest, hn⟩ := hb.last.size
    exact looseSize_of_strtol hb.last.line.plain hzero hn

theorem chunked_accepted_hello :
    let frags := [ascii "HTTP/1.1 200 OK\r\nTransfer-Encoding: chunked\r\n\r\n5;x\r\nhello\r\n0\r\n\r\n"]
    BodyForm LooseSize (fun tail => tail.length = 2) (bodyOf frags.flatten (feed frags (fresh true false default)).2.2) :=
  chunked_accepted default true false
    [ascii "HTTP/1.1 200 OK\r\nTransfer-Encoding: chunked\r\n\r\n5;x\r\nhello\r\n0\r\n\r\n"]
    (by decide +kernel) (by decide +kernel) (by decide +kernel)

/-- A line without CR in front of one is what stands before the first. -/
theorem line_eq {line body t : Bytes} (h : CR ∉ line) (hb : body = line ++ CR :: t) :
    line = body.takeWhile (· != CR) := by
  have hpos : ∀ b ∈ line, (b != CR) = true := by
    intro b hb
    rw [bne_iff_ne]
    rintro rfl
    exact h hb
  rw [hb, List.takeWhile_append_of_pos hpos, List.takeWhile_cons_of_neg (by decide), List.append_nil]

/-- A body of the grammar begins with a size line. -/
theorem BodyForm.first {size : Bytes → Nat → Prop} {tail : Bytes → Prop} {body : Bytes} (h : BodyForm size tail body) :
    (∃ t, ∃ line, size line 0 ∧ body = line ++ CR :: LF :: t) ∨
    (∃ c : ChunkText, ∃ t, size c.line c.data.length ∧ tail c.tail ∧
      body = c.line ++ CR :: LF :: (c.data ++ (c.tail ++ t))) := by
  obtain ⟨cs, last, trailer, rfl, hcs, hlast, -⟩ := h
  cases cs with
  | nil => exact Or.inl ⟨_, last, hlast, by rw [bodyText, chunkText, List.flatMap_nil, List.nil_append]⟩
  | cons c cs =>
    obtain ⟨h1, h2⟩ := hcs c List.mem_cons_self
    refine Or.inr ⟨c, bodyText cs last trailer, h1, h2, ?_⟩
    rw [bodyText_cons, ChunkText.bytes, List.append_assoc, List.cons_append, List.cons_append, List.append_assoc]

theorem strictSize_one {n : Nat} (h : StrictSize [49] n) : n = 1 := by
  obtain ⟨-, digits, ext, hd, hne, -, rfl, -⟩ := h
  cases digits with
  | nil => exact absurd rfl hne
  | cons b digits =>
    obtain ⟨rfl, htl⟩ := List.cons.inj hd
    rw [(List.append_eq_nil_iff.1 htl.symm).1]
    rfl

theorem strictSize_space {u : Bytes} {n : Nat} (h : StrictSize (SP :: u) n) : False := by
  obtain ⟨-, digits, ext, hd, hne, hall, -⟩ := h
  cases digits with
  | nil => exact hne rfl
  | cons b digits =>
    obtain ⟨rfl, -⟩ := List.cons.inj hd
    exact absurd (hall SP List.mem_cons_self) (by decide)

/-- Neither a blank in front of a size nor two other bytes behind the data keep the parser from accepting a message. -/
theorem chunked_loose :
    (let message := ascii "POST / HTTP/1.1\r\nTransfer-Encoding: chunked\r\n\r\n 0\r\n\r\n"
     let r := feed [message] (fresh false false default)
     r.1 = .done ∧ r.2.2.chunked = true ∧ r.2.2.transferLength = sizeMax ∧
       ¬ BodyForm StrictSize (fun tail => tail = [CR, LF]) (bodyOf message r.2.2)) ∧
    (let message := ascii "POST / HTTP/1.1\r\nTransfer-Encoding: chunked\r\n\r\n1\r\naXY0\r\n\r\n"
     let r := feed [message] (fresh false false default)
     r.1 = .done ∧ r.2.2.chunked = true ∧ r.2.2.transferLength = sizeMax ∧
       ¬ BodyForm StrictSize (fun tail => tail = [CR, LF]) (bodyOf message r.2.2)) := by
  constructor
  · intro message r
    obtain ⟨h1, h2, h3, hbody⟩ : r.1 = .done ∧ r.2.2.chunked = true ∧ r.2.2.transferLength = sizeMax ∧
      bodyOf message r.2.2 = ascii " 0\r\n\r\n" := by decide +kernel
    refine ⟨h1, h2, h3, fun h => ?_⟩
    rw [hbody] at h
    have hspace : (ascii " 0\r\n\r\n").takeWhile (· != CR) = SP :: [48] := by decide
    rcases h.first with ⟨t, line, hs, hb⟩ | ⟨c, t, hs, -, hb⟩
    · exact strictSize_space ((line_eq hs.1 hb).trans hspace ▸ hs)
    · exact strictSize_space ((line_eq hs.1 hb).trans hspace ▸ hs)
  · intro message r
    obtain ⟨h1, h2, h3, hbody⟩ : r.1 = .done ∧ r.2.2.chunked = true ∧ r.2.2.transferLength = sizeMax ∧
      bodyOf message r.2.2 = ascii "1\r\naXY0\r\n\r\n" := by decide +kernel
    refine ⟨h1, h2, h3, fun h => ?_⟩
    rw [hbody] at h
    have hone : (ascii "1\r\naXY0\r\n\r\n").takeWhile (· != CR) = [49] := by decide
    rcases h.first with ⟨t, line, hs, hb⟩ | ⟨c, t, hs, htl, hb⟩
    · exact absurd (strictSize_one ((line_eq hs.1 hb).trans hone ▸ hs)) (by decide)
    · have hline := (line_eq hs.1 hb).trans hone
      have hlen := strictSize_one (hline ▸ hs)
      obtain ⟨a, ha⟩ := List.length_eq_one_iff.1 hlen
      rw [hline, ha, htl] at hb
      -- the byte behind the data
      have hx : some (88 : UInt8) = some CR := congrArg (fun body => body[4]?) hb
      exact absurd hx (by decide)

/-! ## What is written -/

theorem isDigitOf_hex {b : UInt8} (h : isDigitOf 16 b = true) :
    (48 ≤ b.toNat ∧ b.toNat ≤ 57) ∨ (97 ≤ b.toNat ∧ b.toNat ≤ 102) ∨ (65 ≤ b.toNat ∧ b.toNat ≤ 70) := by
  obtain ⟨n, hn⟩ := Option.isSome_iff_exists.1 h
  unfold digitVal at hn
  rw [Option.filter_eq_some_iff] at hn
  have hv := hn.1
  split at hv
  · exact Or.inl ‹_›
  · split at hv
    · exact Or.inr (Or.inl ‹_›)
    · split at hv
      · exact Or.inr (Or.inr ‹_›)
      · cases hv

theorem toNat_ne {b c : UInt8} (h : b.toNat ≠ c.toNat) : b ≠ c := fun e => h (e ▸ rfl)

/-- Neither white space nor a sign is a hex digit, nor is an `x`. -/
theorem isDigitOf_plain {b : UInt8} (h : isDigitOf 16 b = true) :
    isspace b = false ∧ b ≠ 43 ∧ b ≠ 45 ∧ b ≠ 120 ∧ b ≠ 88 := by
  have hb := isDigitOf_hex h
  have h20 : b ≠ SP := toNat_ne (show b.toNat ≠ 32 by omega)
  refine ⟨?_, toNat_ne (show b.toNat ≠ 43 by omega), toNat_ne (show b.toNat ≠ 45 by omega),
    toNat_ne (show b.toNat ≠ 120 by omega), toNat_ne (show b.toNat ≠ 88 by omega)⟩
  rw [isspace, Bool.or_eq_false_iff, beq_eq_false_iff_ne, decide_eq_false_iff_not]
  exact ⟨h20, by omega⟩

theorem takeSign_plain {b : UInt8} (h : b ≠ 43 ∧ b ≠ 45) (s : Bytes) : takeSign (b :: s) = (false, b :: s) := by
  unfold takeSign
  split
  · rename_i heq; cases heq; exact absurd rfl h.2
  · rename_i heq; cases heq; exact absurd rfl h.1
  · rfl

theorem skipPrefix_plain {s : Bytes} (h : ∀ a x t, s = a :: x :: t → x ≠ 120 ∧ x ≠ 88) : skipPrefix 16 s = s := by
  unfold skipPrefix
  split
  · rename_i x d t
    split
    · rename_i hx
      obtain ⟨h1, h2⟩ := h 48 x (d :: t) rfl
      rcases tolower_x hx.2.1 with h | h
      · exact absurd h h1
      · exact absurd h h2
    · rfl
  · rfl

/-- **`strtol` reads the size of a line of the grammar**, and stops at the extension. -/
theorem strtol_strict {line : Bytes} {n : Nat} (h : StrictSize line n) (hmax : n < CHUNK_SIZE_MAX) :
    ∃ rest, strtol 16 line = some ((n : Int), rest) := by
  obtain ⟨-, digits, ext, rfl, hne, hall, hval, hext⟩ := h
  obtain ⟨b, ds, rfl⟩ := List.exists_cons_of_ne_nil hne
  obtain ⟨hsp, hplus, hminus, -⟩ := isDigitOf_plain (hall b List.mem_cons_self)
  have hstart : numberStart 16 (b :: ds ++ ext) = (false, b :: ds ++ ext) := by
    rw [numberStart, List.cons_append, List.dropWhile_cons_of_neg (by rw [hsp]; decide),
      takeSign_plain ⟨hplus, hminus⟩, skipPrefix_plain]
    rintro a x t heq
    obtain ⟨-, htl⟩ := List.cons.inj heq
    cases ds with
    | nil =>
      -- where the `x` would be, the extension begins
      rcases hext with rfl | ⟨u, rfl⟩
      · cases htl
      · obtain ⟨rfl, -⟩ := List.cons.inj htl
        decide
    | cons d ds =>
      obtain ⟨rfl, -⟩ := List.cons.inj htl
      exact (isDigitOf_plain (hall d (List.mem_cons_of_mem b List.mem_cons_self))).2.2.2
  have htake : (b :: ds ++ ext).takeWhile (isDigitOf 16) = b :: ds := by
    rw [List.takeWhile_append_of_pos hall]
    rcases hext with rfl | ⟨u, rfl⟩
    · rw [List.takeWhile_nil, List.append_nil]
    · rw [List.takeWhile_cons_of_neg (by decide), List.append_nil]
  rw [strtol_eq, hstart]
  simp only [htake]
  rw [if_neg hne, clampLong, if_neg (by decide), hval, Nat.min_eq_left]
  · exact ⟨_, rfl⟩
  · unfold CHUNK_SIZE_MAX HTTP_CHUNK_LINE_MAX at hmax
    unfold LONG_MAX
    omega

/-- A chunk as the grammar has it written, its size line within the parser's limit. -/
structure ChunkText.Written (c : ChunkText) : Prop where
  size : StrictSize c.line c.data.length
  nul : NUL ∉ c.line
  short : c.line.length < HTTP_CHUNK_LINE_MAX
  pos : c.data ≠ []
  max : c.data.length < CHUNK_SIZE_MAX
  tail : c.tail = [CR, LF]

theorem ChunkText.Written.taken {c : ChunkText} (h : c.Written) : c.Taken where
  line := ⟨h.size.1, h.short⟩
  size := strtol_strict h.size h.max
  pos := h.pos
  max := h.max
  tail := by rw [h.tail]; rfl

/-- The chunks of a body of the grammar are the chunks the parser takes. -/
theorem chunksTaken_text {l last t : Bytes} (hlast : LastTaken last) : ∀ (cs : List ChunkText) (k : Nat) {p : HttpParser},
    p.chunkState = .chunkData → (∀ c ∈ cs, c.Taken) → l.drop p.chunkOffset = chunkText cs ++ (last ++ CR :: LF :: t) →
    cs.length < k →
    (chunksTaken l k p).map (fun x => (x.sizeLine l, x.data l)) = cs.map (fun c => (c.line, c.data))
  | _, 0, _, _, _, _, h => absurd h (Nat.not_lt_zero _)
  | [], k + 1, p, hs, _, hl, _ => by
    rw [chunkText, List.flatMap_nil, List.nil_append] at hl
    obtain ⟨rest, hn⟩ := hlast.size
    have hscan := hlast.line.scan t
    have hdata := parseChunkData_last hlast t p
    rw [← hl] at hscan hdata
    rw [chunksTaken_last k hscan hn hdata]
    rfl
  | c :: cs, k + 1, p, hs, hc, hl, hk => by
    have hck := hc c List.mem_cons_self
    rw [chunkText, List.flatMap_cons, List.append_assoc] at hl
    obtain ⟨rest, hn⟩ := hck.size
    have hdata := parseChunkData_taken hck (chunkText cs ++ (last ++ CR :: LF :: t)) p
    have hline : l.drop p.chunkOffset =
        c.line ++ CR :: LF :: (c.data ++ (c.tail ++ (chunkText cs ++ (last ++ CR :: LF :: t)))) := by
      rw [hl, ChunkText.bytes, chunkText]
      simp
    have hscan := hck.line.scan (c.data ++ (c.tail ++ (chunkText cs ++ (last ++ CR :: LF :: t))))
    rw [← hline] at hscan
    rw [chunkText, ← hl] at hdata
    have hlen : c.bytes.length = c.data.length + (c.line.length + 4) := by
      rw [ChunkText.bytes_length, hck.tail]
      omega
    rw [List.length_cons] at hk
    rw [chunksTaken_chunk k hs hscan hn hdata, List.map_cons, List.map_cons, sizeLine_eq hline]
    refine congrArg₂ List.cons ?_ (chunksTaken_text hlast cs k
      (p := p.atChunk p.chunkState (p.chunkOffset + (c.data.length + (c.line.length + 4)))) hs
      (fun x hx => hc x (List.mem_cons_of_mem c hx)) (drop_add hl hlen) (by omega))
    have hd : l.drop (p.chunkOffset + c.line.length + 2) =
        c.data ++ (c.tail ++ (chunkText cs ++ (last ++ CR :: LF :: t))) := by
      rw [Nat.add_assoc]
      exact drop_add (u := c.line ++ [CR, LF]) (by rw [hline]; simp) (by simp)
    rw [Chunk.data, Chunk.payload]
    simp only
    rw [hd, List.take_left]

theorem chunkText_length (cs : List ChunkText) : cs.length ≤ (chunkText cs).length := by
  induction cs with
  | nil => exact Nat.zero_le _
  | cons c cs ih =>
    rw [chunkText, List.flatMap_cons, List.length_append, ChunkText.bytes_length, List.length_cons]
    rw [chunkText] at ih
    omega

/-- Behind a header block that selects chunks, a body of the grammar is taken whole. -/
theorem parseMessage_text {head more last : Bytes} {x q : HttpParser} {cs : List ChunkText} {trailer : List Bytes}
    (hi : InHeader head x) (hh : parseMessageHeader head x = (.done, q)) (ho : q.headerOffset = head.length)
    (hc : q.chunked = true) (ht : q.transferLength = sizeMax) (hb : BodyTaken cs last trailer) :
    parseMessage (head ++ (bodyText cs last trailer ++ more)) x = (.done,
      (q.atChunk .chunkComplete (head.length + (bodyText cs last trailer).length)).completed) := by
  obtain ⟨-, -, -, hdone, -⟩ := parseMessageHeader_post hi hh
  have hsb : startBody q = q.atChunk .chunkData head.length := by rw [startBody, if_pos hc, ho]
  have hin : InChunk (head ++ (bodyText cs last trailer ++ more)) (startBody q) := by
    rw [hsb]
    exact ⟨by simp only [HttpParser.atChunk, List.length_append]; omega, by simp [HttpParser.atChunk]⟩
  have hchunks : parseChunk (head ++ (bodyText cs last trailer ++ more)) (startBody q) =
      (.done, q.atChunk .chunkComplete (head.length + (bodyText cs last trailer).length)) := by
    rw [hsb, parseChunk_text hb.last hb.trailer cs (p := q.atChunk .chunkData head.length) rfl hb.chunks
      (List.drop_left), HttpParser.atChunk_atChunk]
    rfl
  have hts : (startBody q).transferLength = sizeMax := by rw [hsb]; exact ht
  have hcs : (startBody q).chunked = true := by rw [hsb]; exact hc
  rw [parseMessage_eq, finishHeader_open hi.open_, parseMessageHeader_stable _ hi hh (by decide)]
  simp only [onDone]
  rw [finishBody_chunks hts hcs hin, hchunks]
  rfl

/-- **A chunked body written by the grammar is accepted, consumed to its end, and decoded to its data.** -/
theorem chunked_decoded (p q : HttpParser) (isResp : Bool) (head more : Bytes)
    (hh : parseMessageHeader head (fresh isResp false p) = (.done, q)) (ho : q.headerOffset = head.length)
    (hc : q.chunked = true) (ht : q.transferLength = sizeMax) (cs : List ChunkText) (last : Bytes) (trailer : List Bytes)
    (hcs : ∀ c ∈ cs, c.Written) (hlast : StrictSize last 0) (hshort : last.length < HTTP_CHUNK_LINE_MAX)
    (htr : ∀ x ∈ trailer, x ≠ [] ∧ CR ∉ x ∧ x.length < HTTP_TRAILER_LINE_MAX) :
    let r := httpParserAppendMessage (head ++ (bodyText cs last trailer ++ more)) (fresh isResp false p)
    r.1 = .done ∧ r.2.1 = head.length + (bodyText cs last trailer).length ∧
      decodeChunkedBody r.2.2 = some (cs.flatMap ChunkText.data) := by
  have hb : BodyTaken cs last trailer := {
    chunks := fun c hc => (hcs c hc).taken
    last := ⟨⟨hlast.1, hshort⟩, strtol_strict hlast (by decide)⟩
    trailer := fun x hx => ⟨⟨(htr x hx).2.1, (htr x hx).2.2⟩, (htr x hx).1⟩ }
  have hi : InHeader head (fresh isResp false p) := by
    obtain ⟨n, hn⟩ := fresh_eq isResp false p
    rw [hn]
    exact ⟨Nat.zero_le _, by simp [httpParserInit]⟩
  have hrun : parseMessage (head ++ (bodyText cs last trailer ++ more)) (fresh isResp false p) = _ :=
    parseMessage_text hi hh ho hc ht hb
  generalize hwhole : head ++ (bodyText cs last trailer ++ more) = whole at hrun ⊢
  intro r
  have hfeed : feed [whole] (fresh isResp false p) = (r.1, r.2.1, r.2.2) := feed_one whole _
  obtain ⟨hs, -, -, hdone⟩ := feed_run [whole] (fresh_follows isResp false p) hfeed
  simp only [List.nil_append, List.flatten_cons, List.flatten_nil, List.append_nil, List.length_nil, Nat.zero_add]
    at hs hdone
  rw [hrun] at hs
  have h1 : r.1 = .done := hs.ret
  obtain ⟨hcomp, hn, -⟩ := hdone h1
  have hst : ScratchEq (q.atChunk .chunkComplete (head.length + (bodyText cs last trailer).length)).completed r.2.2 :=
    hs.state
  have hcr : r.2.2.chunked = true := hst.chunked.symm.trans hc
  have htl : r.2.2.transferLength = sizeMax := hst.transferLength.symm.trans ht
  have hoff : r.2.2.headerOffset = head.length := hst.offset.symm.trans ho
  have htot : r.2.2.total = head.length + (bodyText cs last trailer).length := by
    rw [HttpParser.total, if_neg (not_not.2 htl), ← hst.chunkOffset]
    rfl
  refine ⟨h1, hn.trans (hcomp.total.trans htot), ?_⟩
  -- the cursor reads the chunks the parser took, and these are the written ones
  have hdrop : whole.drop r.2.2.headerOffset =
      chunkText cs ++ (last ++ CR :: LF :: (trailerText trailer ++ [CR, LF] ++ more)) := by
    rw [hoff, ← hwhole, List.drop_left, bodyText, List.append_assoc, List.append_assoc, List.cons_append,
      List.cons_append]
  have hlen : cs.length < whole.length + 1 := by
    have h2 := congrArg List.length hwhole
    have h3 := chunkText_length cs
    rw [List.length_append, List.length_append, bodyText, List.length_append] at h2
    omega
  have hmap := chunksTaken_text hb.last cs (whole.length + 1) (p := r.2.2.atChunk .chunkData r.2.2.headerOffset) rfl
    hb.chunks hdrop hlen
  have hreads := chunkCursor_reads p isResp false [whole] (by rw [hfeed]; exact h1) (by rw [hfeed]; exact hcr)
    (by rw [hfeed]; exact htl)
  simp only [hfeed, List.flatten_cons, List.flatten_nil, List.append_nil, messageChunks] at hreads
  have hnul : ∀ x ∈ chunksTaken whole (whole.length + 1) (r.2.2.atChunk .chunkData r.2.2.headerOffset),
      NUL ∉ x.sizeLine whole := by
    intro x hx
    have hmem : (x.sizeLine whole, x.data whole) ∈ cs.map (fun c => (c.line, c.data)) :=
      hmap ▸ List.mem_map_of_mem hx
    obtain ⟨c, hc, he⟩ := List.mem_map.1 hmem
    rw [← (Prod.mk.inj he).1]
    exact (hcs c hc).nul
  rw [(hreads.2 hnul).2]
  have hdata := congrArg (List.map Prod.snd) hmap
  rw [List.map_map, List.map_map] at hdata
  rw [List.flatMap_def, List.flatMap_def]
  exact congrArg (fun l => some (List.flatten l)) hdata

theorem chunked_decoded_hello :
    let head := ascii "HTTP/1.1 200 OK\r\nTransfer-Encoding: chunked\r\n\r\n"
    let r := httpParserAppendMessage (head ++ (bodyText [⟨ascii "005;x", ascii "he\r\n0", [CR, LF]⟩] (ascii "0")
      [ascii "T: 1"] ++ ascii "more")) (fresh true false default)
    r.1 = .done ∧ r.2.1 = head.length + (bodyText [⟨ascii "005;x", ascii "he\r\n0", [CR, LF]⟩] (ascii "0")
      [ascii "T: 1"]).length ∧ decodeChunkedBody r.2.2 = some (ascii "he\r\n0") :=
  chunked_decoded default
    (parseMessageHeader (ascii "HTTP/1.1 200 OK\r\nTransfer-Encoding: chunked\r\n\r\n") (fresh true false default)).2
    true (ascii "HTTP/1.1 200 OK\r\nTransfer-Encoding: chunked\r\n\r\n") (ascii "more") (by decide +kernel)
    (by decide +kernel) (by decide +kernel) (by decide +kernel) [⟨ascii "005;x", ascii "he\r\n0", [CR, LF]⟩] (ascii "0")
    [ascii "T: 1"] (by
      intro c hc
      rw [List.mem_singleton.1 hc]
      exact ⟨⟨by decide, ascii "005", ascii ";x", by decide, by decide, by decide +kernel, by decide,
        Or.inr ⟨ascii "x", by decide⟩⟩, by decide, by decide, by decide, by decide, by decide⟩)
    ⟨by decide, ascii "0", [], by decide, by decide, by decide +kernel, by decide, Or.inl rfl⟩ (by decide) (by
      intro x hx
      rw [List.mem_singleton.1 hx]
      decide)

end Tinywf
