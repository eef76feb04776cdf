import Tinywf.HttpFraming
import Tinywf.HttpMessage
import Tinywf.CNumber
/-!
# HttpRoundTrip — what `encode` writes, the parser reads

The vectors of `encode` joined are the start line, the header lines, an empty line and the body (`encode_flatten`); a
fresh parser takes the start line apart again (`parseStartLine_line`), reads line by line (`fields_run`), and ends the
message where the Content-Length says, which is where the body ends (`parse_encode`).
-/
namespace Tinywf

open CLib
open Loop (Pass doWhile)

/-! ## The bytes that go out -/

namespace HttpMessage

theorem headerLoop_all {max : Nat} : ∀ {i : Nat} {hs : List HeaderLine}, (headerLoop max i hs).2 < max →
    (headerLoop max i hs).1.map Prod.snd = hs.map fun h => h.buf.take (h.nameLen + 2 + h.valueLen + 2)
  | _, [], _ => rfl
  | i, h :: hs, hlt => by
    rw [headerLoop] at hlt ⊢
    split at hlt
    · rename_i hi
      exact absurd hi (Nat.ne_of_lt hlt)
    · rename_i hi
      rw [if_neg hi, List.map_cons, List.map_cons, headerLoop_all hlt]

theorem bodyLoop_flatten {alloc : Bool} {max n : Nat} : ∀ {blocks : List Bytes} {i size : Nat},
    size = (blocks.map List.length).sum → (bodyLoop alloc max i size blocks).2.1 = .ok n →
    ((bodyLoop alloc max i size blocks).1.map Prod.snd).flatten = blocks.flatten
  | [], _, _, _, _ => rfl
  | block :: rest, i, size, hs, h => by
    rw [bodyLoop] at h ⊢
    have hcomb := combineFrom_ok hs
    rw [List.map_cons, List.sum_cons] at hs
    split at h
    · rename_i hc
      rw [if_pos hc]
      split at h
      · rename_i ha
        rw [if_pos ha, hcomb]
        exact List.append_nil _
      · cases h
    · rename_i hc
      rw [if_neg hc, List.map_cons, List.flatten_cons, List.flatten_cons, bodyLoop_flatten (by omega) h]

/-- **The vectors, joined**: the start line, the header lines, an empty line and the body. -/
theorem encodeVectors_flatten {m : HttpMessage} {alloc : Bool} {max n : Nat}
    (h : (m.encodeVectors alloc max).result = .ok n) :
    ∃ a b c, startLine m.parser = some (a, b, c) ∧
      ((m.encodeVectors alloc max).writes.map Prod.snd).flatten =
        cstr a ++ [SP] ++ cstr b ++ [SP] ++ cstr c ++ [CR, LF] ++
          m.parser.headerList.flatMap (fun x => x.name ++ [COLON, SP] ++ x.value ++ [CR, LF]) ++ [CR, LF] ++
          m.outputBody.flatten := by
  rw [encodeVectors] at h ⊢
  cases hs : startLine m.parser with
  | none =>
    rw [hs] at h
    cases h
  | some x =>
    obtain ⟨a, b, c⟩ := x
    rw [hs] at h
    dsimp only at h ⊢
    split at h
    · cases h
    · rename_i hmax
      rw [if_neg hmax]
      refine ⟨a, b, c, rfl, ?_⟩
      have hlines : (m.parser.headerList.map fun h => h.buf.take (h.nameLen + 2 + h.valueLen + 2)) =
          m.parser.headerList.map fun x => x.name ++ [COLON, SP] ++ x.value ++ [CR, LF] :=
        List.map_congr_left fun x hx => (m.lines x hx).buf
      rw [List.map_append, List.map_append, List.map_append, headerLoop_all (by omega), hlines, List.flatten_append,
        List.flatten_append, List.flatten_append, bodyLoop_flatten m.size h, List.flatMap_def]
      simp [startVectors]

theorem encode_flatten {m : HttpMessage} {max : Nat} {vs : List Bytes} (h : m.encode max = .ok vs) :
    ∃ a b c, startLine m.parser = some (a, b, c) ∧
      vs.flatten = cstr a ++ [SP] ++ cstr b ++ [SP] ++ cstr c ++ [CR, LF] ++
        m.parser.headerList.flatMap (fun x => x.name ++ [COLON, SP] ++ x.value ++ [CR, LF]) ++ [CR, LF] ++
        m.outputBody.flatten := by
  unfold encode at h
  dsimp only at h
  cases hr : (m.encodeVectors true max).result with
  | error e =>
    rw [hr] at h
    cases h
  | ok n =>
    rw [hr] at h
    cases h
    exact encodeVectors_flatten hr

end HttpMessage

/-! ## The start line -/

theorem parseStartLine_line {a b c rest : Bytes} (hcr : ∀ x ∈ a ++ b ++ c, x ≠ CR ∧ x ≠ NUL)
    (hsp : ∀ x ∈ a ++ b, x ≠ SP) (hlen : a.length + 1 + b.length + 1 + c.length < HTTP_START_LINE_MAX) (p : HttpParser) :
    parseStartLine (a ++ SP :: (b ++ SP :: c) ++ CR :: LF :: rest) p =
      (.done, startLineDone (a ++ SP :: (b ++ SP :: c)) a b c p) := by
  have hline : ∀ x ∈ a ++ SP :: (b ++ SP :: c), x ≠ CR ∧ (x == NUL) = false := by
    intro x hx
    simp only [List.mem_append, List.mem_cons] at hx hcr
    have hspace : (SP : UInt8) ≠ CR ∧ ((SP : UInt8) == NUL) = false := by decide
    rcases hx with hx | rfl | hx | rfl | hx
    · exact ⟨(hcr x (.inl (.inl hx))).1, by simpa using (hcr x (.inl (.inl hx))).2⟩
    · exact hspace
    · exact ⟨(hcr x (.inl (.inr hx))).1, by simpa using (hcr x (.inl (.inr hx))).2⟩
    · exact hspace
    · exact ⟨(hcr x (.inr hx)).1, by simpa using (hcr x (.inr hx)).2⟩
  have hscan : lineScan HTTP_START_LINE_MAX (· == NUL) (a ++ SP :: (b ++ SP :: c) ++ CR :: LF :: rest) =
      (.found, a ++ SP :: (b ++ SP :: c)) :=
    lineScan_found.2 ⟨⟨rest, rfl⟩, hline, by simp only [List.length_append, List.length_cons]; omega⟩
  have hstart : startsCRLF (a ++ SP :: (b ++ SP :: c) ++ CR :: LF :: rest) = false := by
    rw [← Bool.not_eq_true, startsCRLF_iff]
    rintro ⟨t, ht⟩
    cases a with
    | nil => cases ht
    | cons x a => exact (hline x List.mem_cons_self).1 (List.cons.inj ht).1
  have h1 : strchr SP (a ++ SP :: (b ++ SP :: c)) = some (a, b ++ SP :: c) :=
    strchr_found (fun x hx => ⟨hsp x (List.mem_append_left b hx),
      (hcr x (List.mem_append_left c (List.mem_append_left b hx))).2⟩) _
  have h2 : strchr SP (b ++ SP :: c) = some (b, c) :=
    strchr_found (fun x hx => ⟨hsp x (List.mem_append_right a hx),
      (hcr x (List.mem_append_left c (List.mem_append_right a hx))).2⟩) _
  rw [parseStartLine, if_neg (by rw [hstart]; simp), hscan]
  simp only [h1, h2]
  rfl

/-! ## The header lines -/

/-- What stays the same after the start line: its parts, and where the body ends but for Content-Length. -/
structure SameStart (p q : HttpParser) : Prop where
  version : q.version = p.version
  method : q.method = p.method
  uri : q.uri = p.uri
  code : q.code = p.code
  phrase : q.phrase = p.phrase
  transferLength : q.transferLength = p.transferLength

theorem SameStart.refl (p : HttpParser) : SameStart p p := ⟨rfl, rfl, rfl, rfl, rfl, rfl⟩

theorem SameStart.trans {p q r : HttpParser} (h : SameStart p q) (h' : SameStart q r) : SameStart p r :=
  ⟨h'.version.trans h.version, h'.method.trans h.method, h'.uri.trans h.uri, h'.code.trans h.code,
    h'.phrase.trans h.phrase, h'.transferLength.trans h.transferLength⟩

theorem headerValueDone_sameStart (value : Bytes) (n : Nat) (p : HttpParser) :
    SameStart p (headerValueDone value n p) := by
  unfold headerValueDone httpParserAddHeader checkMessageHeader addMessageHeader
  split <;> repeat' split
  all_goals exact ⟨rfl, rfl, rfl, rfl, rfl, rfl⟩

abbrev Field := Bytes × Bytes

def fieldLine (f : Field) : HeaderLine := headerLine f.1 f.2

/-- A field whose line is read back as it is: its value has no white space around it, and its line does not look like
the continuation of another. -/
structure FieldPlain (f : Field) : Prop where
  name : NameOk f.1
  value : ValueOk f.2
  begins : f.2.dropWhile isBlank = f.2
  first : isBlank ((f.1 ++ [COLON]).headD NUL) = false

/-- The parser behind the lines of some fields. -/
def fieldsDone : List Field → HttpParser → HttpParser
  | [], p => p
  | f :: fs, p => fieldsDone fs (headerValueDone f.2 (f.2.length + 3) (fieldNamed f.1 p))

def linesOf (fs : List Field) : Bytes := fs.flatMap fun f => (fieldLine f).buf

/-- What stands behind a line does not continue it. -/
theorem linesOf_next : ∀ (fs : List Field) (rest : Bytes), (∀ f ∈ fs, FieldPlain f) →
    ∃ d t, linesOf fs ++ CR :: LF :: rest = d :: t ∧ isBlank d = false
  | [], rest, _ => ⟨CR, LF :: rest, rfl, rfl⟩
  | f :: fs, rest, h => by
    have hf := (h f List.mem_cons_self).first
    have hbuf : (fieldLine f).buf = (f.1 ++ [COLON]) ++ (SP :: f.2 ++ [CR, LF]) := by simp [fieldLine, headerLine]
    rw [linesOf, List.flatMap_cons, hbuf]
    cases hn : f.1 with
    | nil => exact ⟨COLON, _, rfl, rfl⟩
    | cons b t =>
      rw [hn] at hf
      exact ⟨b, _, rfl, hf⟩

theorem fieldStep_offset (f : Field) (p : HttpParser) :
    (headerValueDone f.2 (f.2.length + 3) (fieldNamed f.1 p)).headerOffset = p.headerOffset + (fieldLine f).buf.length := by
  rw [headerValueDone_offset]
  simp only [fieldNamed, fieldLine, headerLine, List.length_append, List.length_cons, List.length_nil]
  omega

/-- What the lines of some fields make of a parser. -/
theorem fieldsDone_spec : ∀ (fs : List Field) (p : HttpParser), (∀ f ∈ fs, NameOk f.1) →
    (fieldsDone fs p).headerList = p.headerList ++ fs.map fieldLine ∧
      (fieldsDone fs p).headerOffset = p.headerOffset + (linesOf fs).length ∧
      (fieldsDone fs p).contentLength = lengthOf p.contentLength (fs.map fieldLine) ∧
      (fieldsDone fs p).chunked = chunkedOf p.chunked (fs.map fieldLine) ∧ SameStart p (fieldsDone fs p)
  | [], p, _ => ⟨by simp [fieldsDone], rfl, rfl, rfl, SameStart.refl p⟩
  | f :: fs, p, h => by
    have hname : cstr f.1 = f.1 := (h f List.mem_cons_self).cstr
    have hcons : (f :: fs).map fieldLine = [fieldLine f] ++ fs.map fieldLine := rfl
    obtain ⟨h1, h2, h3, h4, h5⟩ := fieldsDone_spec fs (headerValueDone f.2 (f.2.length + 3) (fieldNamed f.1 p))
      (fun g hg => h g (List.mem_cons_of_mem f hg))
    refine ⟨?_, ?_, ?_, ?_, ?_⟩
    · rw [fieldsDone, h1, headerValueDone_headerList]
      simp [fieldNamed, hname, fieldLine]
    · rw [fieldsDone, h2, fieldStep_offset, linesOf, linesOf, List.flatMap_cons, List.length_append]
      omega
    · rw [fieldsDone, h3, headerValueDone_contentLength, show (fieldNamed f.1 p).namebuf = f.1 from rfl, hname, hcons,
        lengthOf_append]
      rfl
    · rw [fieldsDone, h4, headerValueDone_chunked, show (fieldNamed f.1 p).namebuf = f.1 from rfl, hname, hcons,
        chunkedOf_append]
      rfl
    · have hn : SameStart p (fieldNamed f.1 p) := ⟨rfl, rfl, rfl, rfl, rfl, rfl⟩
      exact (hn.trans (headerValueDone_sameStart _ _ _)).trans h5

/-- **Field by field, the parser is behind the lines, and behind the empty line that ends them.** -/
theorem fields_run {l rest : Bytes} : ∀ (fs : List Field) {p : HttpParser}, (∀ f ∈ fs, FieldPlain f) → InHeader l p →
    p.headerState = .headerName → l.drop p.headerOffset = linesOf fs ++ CR :: LF :: rest →
    ∃ n, doWhile (headerPass l) n p = some (.done,
      { fieldsDone fs p with headerOffset := (fieldsDone fs p).headerOffset + 2, headerState := .headerComplete })
  | [], p, _, hi, hs, hl => by
    rw [linesOf, List.flatMap_nil, List.nil_append] at hl
    have hpass := headerPass_name hi hs
    have hend : parseHeaderName (CR :: LF :: rest) p =
        (.done, { p with headerOffset := p.headerOffset + 2, headerState := .headerComplete }) := if_pos rfl
    rw [hl, hend, if_pos rfl] at hpass
    exact ⟨1, Loop.doWhile_exit hpass 0⟩
  | f :: fs, p, h, hi, hs, hl => by
    have hf := h f List.mem_cons_self
    have hfs : ∀ g ∈ fs, FieldPlain g := fun g hg => h g (List.mem_cons_of_mem f hg)
    obtain ⟨d, t, hnext, hd⟩ := linesOf_next fs rest hfs
    have hl' : l.drop p.headerOffset = (headerLine f.1 f.2).buf ++ d :: t := by
      rw [hl, linesOf, List.flatMap_cons, List.append_assoc, ← hnext]
      rfl
    obtain ⟨h1, h2⟩ := field_passes hf.name hf.value hi hs hd hl'
    rw [hf.begins] at h2
    have hi1 := headerPass_resumable.keeps hi h1
    have hi2 := headerPass_resumable.keeps hi1 h2
    have hl2 : l.drop (headerValueDone f.2 (f.2.length + 3) (fieldNamed f.1 p)).headerOffset =
        linesOf fs ++ CR :: LF :: rest := by
      rw [fieldStep_offset, ← List.drop_drop, hl', hnext]
      exact List.drop_left
    obtain ⟨n, hn⟩ := fields_run fs hfs hi2 rfl hl2
    exact ⟨n + 2, by rw [Loop.doWhile_again h1, Loop.doWhile_again h2, hn]; rfl⟩

/-! ## What may be sent -/

/-- A byte of an HTTP token. -/
def isTokenByte (b : UInt8) : Bool :=
  decide (48 ≤ b.toNat ∧ b.toNat ≤ 57) || decide (65 ≤ b.toNat ∧ b.toNat ≤ 90) ||
    decide (97 ≤ b.toNat ∧ b.toNat ≤ 122) || (ascii "!#$%&'*+-.^_`|~").contains b

theorem isTokenByte_plain {b : UInt8} (h : isTokenByte b = true) :
    b ≠ COLON ∧ nonPos b = false ∧ isBlank b = false ∧ b ≠ CR := by
  have hall : ∀ n : Fin 256, isTokenByte (UInt8.ofFin n) = true → UInt8.ofFin n ≠ COLON ∧
      nonPos (UInt8.ofFin n) = false ∧ isBlank (UInt8.ofFin n) = false ∧ UInt8.ofFin n ≠ CR := by decide +kernel
  exact hall b.toFin h

structure TokenName (name : Bytes) : Prop where
  ne_nil : name ≠ []
  token : ∀ b ∈ name, isTokenByte b = true
  length : name.length ≤ 63

/-- Bytes 1 to 127 without CR and LF, no white space at either end. -/
structure PlainValue (value : Bytes) : Prop where
  bytes : ∀ b ∈ value, b ≠ NUL ∧ b.toNat < 128 ∧ b ≠ CR ∧ b ≠ LF
  head : ∀ b, value.head? = some b → isBlank b = false
  last : ∀ b, value.getLast? = some b → isBlank b = false
  length : value.length ≤ 8191

/-- A message with start line `a b c` that is sent as it should be. -/
structure Sendable (m : HttpMessage) (a b c : Bytes) : Prop where
  bytes : ∀ x ∈ a ++ b ++ c, x ≠ CR ∧ x ≠ NUL
  spaces : ∀ x ∈ a ++ b, x ≠ SP
  length : a.length + 1 + b.length + 1 + c.length ≤ 8191
  names : ∀ h ∈ m.parser.headerList, TokenName h.name
  values : ∀ h ∈ m.parser.headerList, PlainValue h.value
  contentLength : ∃ h, m.parser.headerList.filter (HeaderLine.named contentLengthKey) = [h] ∧ h.value ≠ [] ∧
    (∀ x ∈ h.value, isDigitOf 10 x = true) ∧ h.value.length ≤ 15 ∧ digitsVal 10 h.value = m.outputBodySize
  transferEncoding : m.parser.headerList.filter (HeaderLine.named transferEncodingKey) = []
  status : m.parser.isResp = true → b.headD NUL ≠ 49 ∧ b ≠ ascii "204" ∧ b ≠ ascii "304"

theorem TokenName.nameOk {name : Bytes} (h : TokenName name) : NameOk name where
  bytes := fun b hb => ⟨(isTokenByte_plain (h.token b hb)).1, (isTokenByte_plain (h.token b hb)).2.1⟩
  length := by
    have := h.length
    unfold HTTP_HEADER_NAME_MAX
    omega
  notEmptyLine := by
    rw [← Bool.not_eq_true, startsCRLF_iff]
    rintro ⟨t, ht⟩
    obtain ⟨b, s, rfl⟩ := List.exists_cons_of_ne_nil h.ne_nil
    exact (isTokenByte_plain (h.token b List.mem_cons_self)).2.2.2 (List.cons.inj ht).1

theorem PlainValue.valueOk {value : Bytes} (h : PlainValue value) : ValueOk value where
  bytes := fun b hb => by
    obtain ⟨h0, hlt, hcr, -⟩ := h.bytes b hb
    simp only [valueByte, nonPos, Bool.and_eq_true, bne_iff_ne, ne_eq, Bool.not_eq_true', Bool.or_eq_false_iff,
      beq_eq_false_iff_ne, decide_eq_false_iff_not]
    exact ⟨hcr, h0, by omega⟩
  last := h.last
  begun := by
    cases value with
    | nil => exact .inl rfl
    | cons b t => exact .inr ⟨[], b, t, rfl, h.head b rfl, .inl rfl⟩
  length := by
    have := h.length
    unfold HTTP_HEADER_VALUE_MAX
    omega

theorem fieldPlain {f : Field} (hn : TokenName f.1) (hv : PlainValue f.2) : FieldPlain f where
  name := hn.nameOk
  value := hv.valueOk
  begins := by
    cases hf : f.2 with
    | nil => rfl
    | cons b t => exact List.dropWhile_cons_of_neg (by rw [hv.head b (by rw [hf]; rfl)]; simp)
  first := by
    obtain ⟨b, t, hb⟩ := List.exists_cons_of_ne_nil hn.ne_nil
    rw [hb]
    exact (isTokenByte_plain (hn.token b (by rw [hb]; exact List.mem_cons_self))).2.2.1

/-! ## There and back -/

/-- What the start line leaves of a fresh parser. -/
theorem startLineDone_fresh {isResp : Bool} (memory : HttpParser) (line a : Bytes) {b : Bytes} (c : Bytes)
    (hs : isResp = true → b.headD NUL ≠ 49 ∧ b ≠ ascii "204" ∧ b ≠ ascii "304") :
    let q := startLineDone line a b c (fresh isResp false memory)
    HttpMessage.startLine q = some (a, b, c) ∧ q.transferLength = sizeMax ∧ q.chunked = false ∧ q.headerList = [] ∧
      q.headerOffset = line.length + 2 ∧ q.headerState = .headerName := by
  cases isResp with
  | false =>
    simp only [startLineDone, fresh, httpParserInit, matchRequestLine]
    refine ⟨?_, ?_, ?_, ?_, ?_, ?_⟩ <;> (simp; try split) <;> rfl
  | true =>
    obtain ⟨h1, h2, h3⟩ := hs rfl
    have hn : ¬ (b.headD NUL = 49 ∨ b = ascii "204" ∨ b = ascii "304") := by
      rintro (h | h | h)
      · exact h1 h
      · exact h2 h
      · exact h3 h
    simp only [startLineDone, fresh, httpParserInit, matchStatusLine, if_neg hn]
    refine ⟨?_, ?_, ?_, ?_, ?_, ?_⟩ <;> (simp; try split) <;> rfl

/-- The fields of a message's header lines. -/
def fieldsOf (p : HttpParser) : List Field := p.headerList.map fun h => (h.name, h.value)

theorem filter_fieldLine (key : Bytes) (p : HttpParser) : ((fieldsOf p).map fieldLine).filter (HeaderLine.named key) =
    (p.headerList.filter (HeaderLine.named key)).map fun h => headerLine h.name h.value := by
  rw [fieldsOf, List.map_map, List.filter_map]
  refine congrArg (List.map _) (List.filter_congr fun h _ => ?_)
  simp only [Function.comp, fieldLine, HeaderLine.named, headerLine_name]

theorem cstr_of_bytes {a : Bytes} (h : ∀ x ∈ a, x ≠ NUL) : cstr a = a :=
  List.takeWhile_eq_self_iff.2 fun x hx => by simpa using h x hx

/-- **The header block of an encoded message is read as it was written**, and declares the size of the body. -/
theorem parseMessageHeader_encode {m : HttpMessage} {a b c rest : Bytes} (hok : Sendable m a b c) (memory : HttpParser)
    {l : Bytes} (hl : l = a ++ SP :: (b ++ SP :: c) ++ CR :: LF :: (linesOf (fieldsOf m.parser) ++ CR :: LF :: rest)) :
    ∃ u, parseMessageHeader l (fresh m.parser.isResp false memory) = (.done, u) ∧ u.headerState = .headerComplete ∧
      HttpMessage.startLine u = some (a, b, c) ∧ u.headerList = (fieldsOf m.parser).map fieldLine ∧
      u.headerOffset + rest.length = l.length ∧ u.transferLength = sizeMax ∧ u.chunked = false ∧
      u.contentLength = m.outputBodySize := by
  have hlen := hok.length
  have hx : InHeader l (fresh m.parser.isResp false memory) := ⟨Nat.zero_le _, by simp [fresh, httpParserInit]⟩
  obtain ⟨hstart, htl, hch, hlist, hoff, hstate⟩ :=
    startLineDone_fresh memory (a ++ SP :: (b ++ SP :: c)) a c hok.status
  have hpass : headerPass l (fresh m.parser.isResp false memory) =
      .again (startLineDone (a ++ SP :: (b ++ SP :: c)) a b c (fresh m.parser.isResp false memory)) := by
    rw [headerPass_startLine hx rfl, show (fresh m.parser.isResp false memory).headerOffset = 0 from rfl, List.drop_zero, hl,
      parseStartLine_line hok.bytes hok.spaces (by unfold HTTP_START_LINE_MAX; omega)]
    rfl
  have hi := headerPass_resumable.keeps hx hpass
  have hdrop : l.drop (startLineDone (a ++ SP :: (b ++ SP :: c)) a b c (fresh m.parser.isResp false memory)).headerOffset =
      linesOf (fieldsOf m.parser) ++ CR :: LF :: rest := by
    rw [hoff, hl, ← List.drop_drop, List.drop_left]
    rfl
  have hplain : ∀ f ∈ fieldsOf m.parser, FieldPlain f := fun f hf => by
    obtain ⟨h, hh, rfl⟩ := List.mem_map.1 hf
    exact fieldPlain (hok.names h hh) (hok.values h hh)
  obtain ⟨n, hn⟩ := fields_run (fieldsOf m.parser) hplain hi hstate hdrop
  have hrun : doWhile (headerPass l) (n + 1) (fresh m.parser.isResp false memory) = _ := (Loop.doWhile_again hpass n).trans hn
  obtain ⟨h1, h2, h3, h4, h5⟩ := fieldsDone_spec (fieldsOf m.parser)
    (startLineDone (a ++ SP :: (b ++ SP :: c)) a b c (fresh m.parser.isResp false memory)) (fun f hf => (hplain f hf).name)
  refine ⟨_, Loop.doWhile_unique (parseMessageHeader_run hx) hrun, rfl, ?_, ?_, ?_, ?_, ?_, ?_⟩
  · rw [← hstart]
    simp only [HttpMessage.startLine, h5.method, h5.uri, h5.version, h5.code, h5.phrase]
  · simp only [h1, hlist, List.nil_append]
  · simp only [h2, hoff, hl, List.length_append, List.length_cons]
    omega
  · exact h5.transferLength.trans htl
  · simp only [h4, hch]
    exact chunkedOf_none false (by rw [filter_fieldLine, hok.transferEncoding]; rfl)
  · obtain ⟨h, hone, hne, hdig, hshort, hval⟩ := hok.contentLength
    have hfilter : ((fieldsOf m.parser).map fieldLine).filter (HeaderLine.named contentLengthKey) =
        [headerLine h.name h.value] := by rw [filter_fieldLine, hone]; rfl
    have hfirst : isDigitOf 10 (h.value.headD NUL) = true := by
      cases hv : h.value with
      | nil => exact absurd hv hne
      | cons d t => exact hdig d (by rw [hv]; exact List.mem_cons_self)
    simp only [h3]
    rw [lengthOf_single _ hfilter, headerLine_value, if_pos ⟨hfirst, hshort⟩, declaredLength_digits hne hdig hshort, hval]

/-- **Parsing undoes encoding.** -/
theorem parse_encode (m : HttpMessage) (max : Nat) (vs : List Bytes) (a b c : Bytes) (memory : HttpParser)
    (henc : m.encode max = .ok vs) (hline : HttpMessage.startLine m.parser = some (a, b, c)) (hok : Sendable m a b c) :
    let r := httpParserAppendMessage vs.flatten (fresh m.parser.isResp false memory)
    r.1 = .done ∧ r.2.1 = vs.flatten.length ∧ HttpMessage.startLine r.2.2 = some (a, b, c) ∧
      fieldsOf r.2.2 = fieldsOf m.parser ∧
      ∃ off size q, httpParserGetBody r.2.2 = some (off, size, q) ∧
        (q.msgbuf.drop off).take size = m.outputBody.flatten := by
  intro r
  obtain ⟨a', b', c', hline', hflat⟩ := HttpMessage.encode_flatten henc
  cases hline.symm.trans hline'
  have hnul (x : UInt8) (hx : x ∈ a ++ b ++ c) : x ≠ NUL := (hok.bytes x hx).2
  rw [cstr_of_bytes fun x hx => hnul x (by simp [hx]), cstr_of_bytes fun x hx => hnul x (by simp [hx]),
    cstr_of_bytes fun x hx => hnul x (by simp [hx])] at hflat
  have hlines : m.parser.headerList.flatMap (fun x => x.name ++ [COLON, SP] ++ x.value ++ [CR, LF]) =
      linesOf (fieldsOf m.parser) := by
    rw [linesOf, fieldsOf, List.flatMap_map]
    rfl
  rw [hlines] at hflat
  have hl : vs.flatten = a ++ SP :: (b ++ SP :: c) ++ CR :: LF ::
      (linesOf (fieldsOf m.parser) ++ CR :: LF :: m.outputBody.flatten) := by rw [hflat]; simp
  obtain ⟨u, hu, hstate, hstart, hlist, hoff, htl, hch, hcl⟩ := parseMessageHeader_encode hok memory hl
  have hsize : m.outputBodySize = m.outputBody.flatten.length := by rw [m.size, List.length_flatten]
  have hsmall : m.outputBodySize < 10 ^ 15 := by
    obtain ⟨h, -, -, -, hshort, hval⟩ := hok.contentLength
    rw [← hval]
    exact lt_of_lt_of_le (digitsVal_lt _) (Nat.pow_le_pow_right (by decide) hshort)
  have hbody : startBody u = { u with transferLength := m.outputBodySize } := by
    rw [startBody, if_neg (by rw [hch]; simp), if_pos htl, hcl]
  have hne : (startBody u).transferLength ≠ sizeMax := by
    rw [hbody]
    unfold sizeMax
    simp only
    omega
  have htotal : (startBody u).total = vs.flatten.length := by
    rw [HttpParser.total, if_pos hne, hbody, ← hoff, hsize]
  have hparse : parseMessage vs.flatten (fresh m.parser.isResp false memory) = (.done, (startBody u).completed) := by
    rw [parseMessage_eq, finishHeader_open (by simp [fresh, httpParserInit]), hu]
    simp only [onDone]
    rw [finishBody_length hne, if_pos (by rw [← htotal, HttpParser.total, if_pos hne])]
  obtain ⟨-, hsame, -, hdone⟩ := append_post (fresh_between m.parser.isResp false memory)
    (show httpParserAppendMessage vs.flatten (fresh m.parser.isResp false memory) = (r.1, r.2.1, r.2.2) from rfl)
  rw [List.nil_append, hparse] at hsame
  have hret : r.1 = .done := hsame.ret
  have hst : ScratchEq (startBody u).completed r.2.2 := hsame.state
  obtain ⟨hcomp, -, hn, hbuf, -⟩ := hdone hret
  rw [List.nil_append] at hcomp hbuf
  have hmsg : r.2.2.msgsize = vs.flatten.length := by
    rw [hcomp.total, ← hst.total, ← htotal, HttpParser.total, HttpParser.total]
    rfl
  have hoff' : r.2.2.headerOffset = u.headerOffset := by
    rw [← hst.offset, hbody]
    rfl
  refine ⟨hret, by rw [← hmsg, ← hn]; simp, ?_, ?_, r.2.2.headerOffset, r.2.2.msgsize - r.2.2.headerOffset, _,
    by rw [httpParserGetBody, if_pos ⟨hcomp.complete, hcomp.header⟩], ?_⟩
  · have := hst.eq_withScratch
    rw [this, hbody]
    exact hstart
  · rw [fieldsOf, ← hst.headerList, hbody]
    show u.headerList.map _ = _
    rw [hlist, fieldsOf, List.map_map, List.map_map]
    refine List.map_congr_left fun h _ => ?_
    simp only [Function.comp, fieldLine, headerLine_name, headerLine_value]
  · simp only
    rw [hmsg, hbuf, List.take_length, hoff', List.drop_append_of_le_length (by omega), List.take_left' (by
      rw [List.length_drop])]
    have hpre : vs.flatten = (a ++ SP :: (b ++ SP :: c) ++ CR :: LF :: (linesOf (fieldsOf m.parser) ++ [CR, LF])) ++
        m.outputBody.flatten := by rw [hl]; simp
    have hprelen := congrArg List.length hpre
    rw [List.length_append] at hprelen
    rw [hpre, List.drop_left' (by omega)]

theorem parse_encode_hello :
    let m := (((((HttpMessage.new true default).setHttpVersion (ascii "HTTP/1.1")).setStatusCode (ascii "200") rfl
      |>.setReasonPhrase (ascii "OK")).addHeaderPair contentLengthKey (ascii "5")).appendOutputBody (ascii "he")
      |>.appendOutputBody (ascii "llo"))
    let vs := [ascii "HTTP/1.1", [SP], ascii "200", [SP], ascii "OK", [CR, LF], ascii "Content-Length: 5\r\n", [CR, LF],
      ascii "hello"]
    m.encode 9 = .ok vs ∧
      fieldsOf (httpParserAppendMessage vs.flatten (fresh m.parser.isResp false default)).2.2 = fieldsOf m.parser := by
  intro m vs
  have henc : m.encode 9 = .ok vs := by decide +kernel
  have hlist : m.parser.headerList = [headerLine contentLengthKey (ascii "5")] := by decide +kernel
  have hok : Sendable m (ascii "HTTP/1.1") (ascii "200") (ascii "OK") := {
    bytes := by decide +kernel
    spaces := by decide +kernel
    length := by decide +kernel
    names := fun h hh => by
      rw [hlist, List.mem_singleton] at hh
      rw [hh]
      exact ⟨by decide +kernel, by decide +kernel, by decide +kernel⟩
    values := fun h hh => by
      rw [hlist, List.mem_singleton] at hh
      rw [hh]
      exact ⟨by decide +kernel, (by intro b hb; cases hb; rfl), (by intro b hb; cases hb; rfl), by decide +kernel⟩
    contentLength := ⟨headerLine contentLengthKey (ascii "5"), by rw [hlist]; decide +kernel, by decide +kernel,
      by decide +kernel, by decide +kernel, by decide +kernel⟩
    transferEncoding := by rw [hlist]; decide +kernel
    status := fun _ => by decide +kernel }
  have hline : HttpMessage.startLine m.parser = some (ascii "HTTP/1.1", ascii "200", ascii "OK") := by decide +kernel
  exact ⟨henc, (parse_encode m 9 vs _ _ _ default henc hline hok).2.2.2.1⟩

end Tinywf
