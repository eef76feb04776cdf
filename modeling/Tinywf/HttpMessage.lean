import Tinywf.HttpFields
/-!
# HttpMessage — `protocol/HttpMessage.cc`

A message to be sent: the parser that holds its start line and header lines, and the blocks of its body.  The record
carries what every operation of the class keeps: the header lines are laid out as `__add_message_header` lays them out,
and `output_body_size` is the size of the blocks.  A call of `encode` is the vectors it writes, with their indices, and the
blocks it leaves (`encodeVectors`).
-/
namespace Tinywf

open CLib

/-- A header line whose buffer begins with the name, `": "`, the value and CRLF, of the lengths it says. -/
structure HeaderLine.Wf (h : HeaderLine) : Prop where
  nameLen : h.name.length = h.nameLen
  valueLen : h.value.length = h.valueLen
  buf : h.buf.take (h.nameLen + 2 + h.valueLen + 2) = h.name ++ [COLON, SP] ++ h.value ++ [CR, LF]

theorem headerLine_wf (name value : Bytes) : (headerLine name value).Wf where
  nameLen := by rw [headerLine_name]; rfl
  valueLen := by rw [headerLine_value]; rfl
  buf := by
    rw [headerLine_name, headerLine_value]
    refine List.take_of_length_le ?_
    simp [headerLine]
    omega

/-- A line laid out by hand. -/
theorem wf_of_buf {nameLen valueLen : Nat} {name value : Bytes} (rest : Bytes) (hn : name.length = nameLen)
    (hv : value.length = valueLen) :
    (HeaderLine.mk nameLen valueLen (name ++ [COLON, SP] ++ value ++ [CR, LF] ++ rest)).Wf ∧
      (HeaderLine.mk nameLen valueLen (name ++ [COLON, SP] ++ value ++ [CR, LF] ++ rest)).name = name ∧
      (HeaderLine.mk nameLen valueLen (name ++ [COLON, SP] ++ value ++ [CR, LF] ++ rest)).value = value := by
  subst hn hv
  have hname : (HeaderLine.mk name.length value.length (name ++ [COLON, SP] ++ value ++ [CR, LF] ++ rest)).name = name := by
    simp [HeaderLine.name]
  have hvalue : (HeaderLine.mk name.length value.length (name ++ [COLON, SP] ++ value ++ [CR, LF] ++ rest)).value =
      value := by
    have hsplit : name ++ [COLON, SP] ++ value ++ [CR, LF] ++ rest = (name ++ [COLON, SP]) ++ (value ++ ([CR, LF] ++ rest)) := by
      simp
    rw [HeaderLine.value]
    simp only [hsplit]
    rw [show name.length + 2 = (name ++ [COLON, SP]).length by simp, List.drop_left, List.take_left]
  refine ⟨⟨by rw [hname], by rw [hvalue], ?_⟩, hname, hvalue⟩
  rw [hname, hvalue]
  exact List.take_left' (by simp; omega)

theorem HeaderLine.Wf.set {h : HeaderLine} (hw : h.Wf) {name : Bytes} (hn : h.nameLen = name.length) (value : Bytes) :
    (h.set name value).Wf ∧ (h.set name value).value = value := by
  unfold HeaderLine.set
  simp only
  split
  · have := wf_of_buf [] hn.symm (rfl : value.length = value.length)
    simp only [List.append_nil] at this ⊢
    exact ⟨this.1, this.2.2⟩
  · have hbuf : h.buf.take (name.length + 2) = h.name ++ [COLON, SP] := by
      have hlen : (h.name ++ [COLON, SP]).length = name.length + 2 := by simp [hw.nameLen, hn]
      have := congrArg (List.take (name.length + 2)) hw.buf
      rw [List.take_take, Nat.min_eq_left (by omega), List.append_assoc, List.take_left' hlen] at this
      exact this
    rw [hbuf]
    have := wf_of_buf (h.buf.drop (name.length + 2 + value.length + 2)) hw.nameLen (rfl : value.length = value.length)
    exact ⟨this.1, this.2.2⟩

theorem setHeaderIn_wf (name value : Bytes) : ∀ {hs hs' : List HeaderLine}, setHeaderIn name value hs = some hs' →
    (∀ h ∈ hs, h.Wf) → ∀ h ∈ hs', h.Wf
  | [], _, h, _ => by cases h
  | x :: hs, hs', h, hw => by
    obtain ⟨hx, hhs⟩ := List.forall_mem_cons.1 hw
    rw [setHeaderIn] at h
    split at h
    · rename_i hm
      cases h
      simp only [HeaderLine.matches, Bool.and_eq_true, beq_iff_eq] at hm
      exact List.forall_mem_cons.2 ⟨(hx.set hm.1 value).1, hhs⟩
    · cases hr : setHeaderIn name value hs with
      | none => rw [hr] at h; cases h
      | some hs'' =>
        rw [hr] at h
        cases h
        exact List.forall_mem_cons.2 ⟨hx, setHeaderIn_wf name value hr hhs⟩

/-! ## The class -/

structure HttpMessage where
  parser : HttpParser
  outputBody : List Bytes
  outputBodySize : Nat
  lines : ∀ h ∈ parser.headerList, h.Wf
  size : outputBodySize = (outputBody.map List.length).sum
  request : parser.isResp = false → parser.code = none
  response : parser.isResp = true → parser.method = none

namespace HttpMessage

def new (isResp : Bool) (memory : HttpParser) : HttpMessage where
  parser := httpParserInit isResp memory
  outputBody := []
  outputBodySize := 0
  lines := fun _ h => by cases h
  size := rfl
  request := fun _ => rfl
  response := fun _ => rfl

/-- The message with the parser changed by a function that keeps what the class keeps. -/
def onParser (m : HttpMessage) (f : HttpParser → HttpParser) (hl : ∀ h ∈ (f m.parser).headerList, h.Wf)
    (hq : (f m.parser).isResp = false → (f m.parser).code = none)
    (hr : (f m.parser).isResp = true → (f m.parser).method = none) : HttpMessage where
  parser := f m.parser
  outputBody := m.outputBody
  outputBodySize := m.outputBodySize
  lines := hl
  size := m.size
  request := hq
  response := hr

theorem checkMessageHeader_headerList (name value : Bytes) (p : HttpParser) :
    (checkMessageHeader name value p).headerList = p.headerList := by
  unfold checkMessageHeader
  split <;> repeat' split
  all_goals rfl

theorem checkMessageHeader_startLine (name value : Bytes) (p : HttpParser) :
    (checkMessageHeader name value p).isResp = p.isResp ∧ (checkMessageHeader name value p).code = p.code ∧
      (checkMessageHeader name value p).method = p.method := by
  unfold checkMessageHeader
  split <;> repeat' split
  all_goals exact ⟨rfl, rfl, rfl⟩

theorem addMessageHeader_wf (name value : Bytes) {p : HttpParser} (hp : ∀ h ∈ p.headerList, h.Wf) :
    ∀ h ∈ (addMessageHeader name value p).headerList, h.Wf :=
  List.forall_mem_append.2 ⟨hp, fun h hh => by rw [List.mem_singleton.1 hh]; exact headerLine_wf name value⟩

def addHeaderPair (name value : Bytes) (m : HttpMessage) : HttpMessage :=
  m.onParser (httpParserAddHeader name value)
    (by rw [httpParserAddHeader, checkMessageHeader_headerList]; exact addMessageHeader_wf name value m.lines)
    (by obtain ⟨h1, h2, -⟩ := checkMessageHeader_startLine name value (addMessageHeader name value m.parser)
        rw [httpParserAddHeader, h1, h2]; exact m.request)
    (by obtain ⟨h1, -, h3⟩ := checkMessageHeader_startLine name value (addMessageHeader name value m.parser)
        rw [httpParserAddHeader, h1, h3]; exact m.response)

theorem setMessageHeader_wf (name value : Bytes) {p : HttpParser} (hp : ∀ h ∈ p.headerList, h.Wf) :
    ∀ h ∈ (setMessageHeader name value p).headerList, h.Wf := by
  rw [setMessageHeader]
  split
  · rename_i hs h
    exact setHeaderIn_wf name value h hp
  · exact addMessageHeader_wf name value hp

theorem setMessageHeader_startLine (name value : Bytes) (p : HttpParser) :
    (setMessageHeader name value p).isResp = p.isResp ∧ (setMessageHeader name value p).code = p.code ∧
      (setMessageHeader name value p).method = p.method := by
  rw [setMessageHeader]
  split <;> exact ⟨rfl, rfl, rfl⟩

def setHeaderPair (name value : Bytes) (m : HttpMessage) : HttpMessage :=
  m.onParser (httpParserSetHeader name value)
    (by rw [httpParserSetHeader, checkMessageHeader_headerList]; exact setMessageHeader_wf name value m.lines)
    (by obtain ⟨h1, h2, -⟩ := checkMessageHeader_startLine name value (setMessageHeader name value m.parser)
        obtain ⟨h4, h5, -⟩ := setMessageHeader_startLine name value m.parser
        rw [httpParserSetHeader, h1, h2, h4, h5]; exact m.request)
    (by obtain ⟨h1, -, h3⟩ := checkMessageHeader_startLine name value (setMessageHeader name value m.parser)
        obtain ⟨h4, -, h6⟩ := setMessageHeader_startLine name value m.parser
        rw [httpParserSetHeader, h1, h3, h4, h6]; exact m.response)

def setHttpVersion (version : Bytes) (m : HttpMessage) : HttpMessage :=
  m.onParser (httpParserSetVersion version) m.lines m.request m.response

/-- Of `HttpRequest`, as the next. -/
def setMethod (method : Bytes) (m : HttpMessage) (h : m.parser.isResp = false) : HttpMessage :=
  m.onParser (httpParserSetMethod method) m.lines m.request (fun h' => by rw [show m.parser.isResp = true from h'] at h; cases h)

def setRequestUri (uri : Bytes) (m : HttpMessage) : HttpMessage :=
  m.onParser (httpParserSetUri uri) m.lines m.request m.response

/-- Of `HttpResponse`, as the next. -/
def setStatusCode (code : Bytes) (m : HttpMessage) (h : m.parser.isResp = true) : HttpMessage :=
  m.onParser (httpParserSetCode code) m.lines (fun h' => by rw [show m.parser.isResp = false from h'] at h; cases h) m.response

def setReasonPhrase (phrase : Bytes) (m : HttpMessage) : HttpMessage :=
  m.onParser (httpParserSetPhrase phrase) m.lines m.request m.response

def appendOutputBody (buf : Bytes) (m : HttpMessage) : HttpMessage :=
  { m with
    outputBody := m.outputBody ++ [buf], outputBodySize := m.outputBodySize + buf.length,
    size := by rw [m.size]; simp }

def clearOutputBody (m : HttpMessage) : HttpMessage :=
  { m with outputBody := [], outputBodySize := 0, size := rfl }

/-! ## `encode` -/

/-- Why `encode` returns -1; or what C leaves undefined. -/
inductive EncodeErrno
  | badMsg | overflow | noMem | fault
  deriving DecidableEq, Repr

/-- A call of `encode`: the vectors in the order they are written, with their indices, and what it returns. -/
structure EncodeRun where
  writes : List (Nat × Bytes)
  result : Except EncodeErrno Nat
  message : HttpMessage

/-- The three parts of the start line, a request's or a response's. -/
def startLine (p : HttpParser) : Option (Bytes × Bytes × Bytes) :=
  match p.method with
  | some method =>
    match p.uri, p.version with
    | some uri, some version => some (method, uri, version)
    | _, _ => none
  | none =>
    match p.version, p.code, p.phrase with
    | some version, some code, some phrase => some (version, code, phrase)
    | _, _, _ => none

/-- `combine_from`: the blocks from here on, copied into one of `size` bytes. -/
def combineFrom (size : Nat) (blocks : List Bytes) : Except EncodeErrno Bytes :=
  if blocks.flatten.length = size then .ok blocks.flatten else .error .fault

theorem combineFrom_ok {size : Nat} {blocks : List Bytes} (h : size = (blocks.map List.length).sum) :
    combineFrom size blocks = .ok blocks.flatten := by
  rw [combineFrom, if_pos (by rw [List.length_flatten, h])]

theorem combineFrom_eq {size : Nat} {blocks : List Bytes} {all : Bytes} (h : combineFrom size blocks = .ok all) :
    all = blocks.flatten := by
  unfold combineFrom at h
  split at h
  · cases h
    rfl
  · cases h

/-- The loop over the header lines, from `i` on, and the `i` it ends with. -/
def headerLoop (max : Nat) : Nat → List HeaderLine → List (Nat × Bytes) × Nat
  | i, [] => ([], i)
  | i, h :: hs =>
    if i = max then ([], i)
    else
      let r := headerLoop max (i + 1) hs
      ((i, h.buf.take (h.nameLen + 2 + h.valueLen + 2)) :: r.1, r.2)

/-- The loop over the body from `i` on: the vectors, what `encode` returns, and the blocks from here on afterwards.
`alloc` says whether the `malloc` of `combine_from` succeeds. -/
def bodyLoop (alloc : Bool) (max : Nat) : Nat → Nat → List Bytes → List (Nat × Bytes) × Except EncodeErrno Nat × List Bytes
  | i, _, [] => ([], .ok i, [])
  | i, size, block :: rest =>
    if i + 1 = max ∧ rest ≠ [] then
      if alloc then
        match combineFrom size (block :: rest) with
        | .ok all => ([(i, all)], .ok (i + 1), [all])
        | .error _ => ([], .error .fault, block :: rest)
      else ([], .error .noMem, block :: rest)
    else
      let r := bodyLoop alloc max (i + 1) (size - block.length) rest
      ((i, block) :: r.1, r.2.1, block :: r.2.2)

/-- Combining moves no byte. -/
theorem bodyLoop_blocks (alloc : Bool) (max : Nat) : ∀ (i size : Nat) (blocks : List Bytes),
    (bodyLoop alloc max i size blocks).2.2.flatten = blocks.flatten
  | _, _, [] => rfl
  | i, size, block :: rest => by
    rw [bodyLoop]
    split
    · split
      · split
        · rename_i hall
          rw [List.flatten_singleton, combineFrom_eq hall]
        · rfl
      · rfl
    · rw [List.flatten_cons, bodyLoop_blocks alloc max (i + 1) (size - block.length) rest, List.flatten_cons]

/-- The message with other blocks of the same bytes. -/
def withBlocks (m : HttpMessage) (blocks : List Bytes) (h : blocks.flatten = m.outputBody.flatten) : HttpMessage :=
  { m with
    outputBody := blocks
    size := by rw [m.size, ← List.length_flatten, ← List.length_flatten, h] }

/-- The vectors before the headers. -/
def startVectors (a b c : Bytes) : List (Nat × Bytes) :=
  [(0, cstr a), (1, [SP]), (2, cstr b), (3, [SP]), (4, cstr c), (5, [CR, LF])]

/-- `HttpMessage::encode(vectors, max)`. -/
def encodeVectors (m : HttpMessage) (alloc : Bool) (max : Nat) : EncodeRun :=
  match startLine m.parser with
  | none => ⟨[], .error .badMsg, m⟩
  | some (a, b, c) =>
    let headers := headerLoop max 6 m.parser.headerList
    let i := headers.2
    if max ≤ i + 1 then ⟨startVectors a b c ++ headers.1, .error .overflow, m⟩
    else
      let body := bodyLoop alloc max (i + 1) m.outputBodySize m.outputBody
      ⟨startVectors a b c ++ headers.1 ++ [(i, [CR, LF])] ++ body.1, body.2.1,
        m.withBlocks body.2.2 (bodyLoop_blocks alloc max (i + 1) m.outputBodySize m.outputBody)⟩

/-- The bytes the vectors point to, when `combine_from` gets its memory. -/
def encode (m : HttpMessage) (max : Nat) : Except EncodeErrno (List Bytes) :=
  let r := m.encodeVectors true max
  r.result.map fun _ => r.writes.map Prod.snd

end HttpMessage

end Tinywf
