import Tinywf.CLib
import Tinywf.Loop
/-!
# HttpParser — `protocol/http_parser.c`

The parser as the code computes it: the sub-parsers scan from the saved offset and either consume, ask for more or
refuse; `parseMessageHeader` and `parseChunk` are their loops; `httpParserAppendMessage` is one call.  Sizes are `Nat`,
with `sizeMax` for `(size_t)-1`.  Allocation succeeds, so the result `-1` does not occur.  What C leaves undefined is a
result of its own, `Ret.fault`: a write outside one of the four fixed arrays, an offset past the end of the message,
a loop that does not end.
-/
namespace Tinywf

open CLib
open Loop (Pass doWhile)

def HTTP_HEADER_NAME_MAX : Nat := 64
def HTTP_START_LINE_MAX : Nat := 8192
def HTTP_HEADER_VALUE_MAX : Nat := 8192
def HTTP_CHUNK_LINE_MAX : Nat := 1024
def HTTP_TRAILER_LINE_MAX : Nat := 8192
def HTTP_MSGBUF_INIT_SIZE : Nat := 2048
def CHUNK_SIZE_MAX : Nat := 2 * 1024 * 1024 * 1024 - HTTP_CHUNK_LINE_MAX - 4

/-- `(size_t)-1`. -/
def sizeMax : Nat := 2 ^ 64 - 1

inductive HeaderState
  | startLine | headerName | headerValue | headerComplete
  deriving DecidableEq, Repr, Inhabited

inductive ChunkState
  | chunkData | trailerPart | chunkComplete
  deriving DecidableEq, Repr, Inhabited

/-- `struct __header_line`: `buf` holds the name, `": "`, the value and CRLF. -/
structure HeaderLine where
  nameLen : Nat
  valueLen : Nat
  buf : Bytes
  deriving DecidableEq, Repr, Inhabited

structure HttpParser where
  headerState : HeaderState
  chunkState : ChunkState
  headerOffset : Nat
  chunkOffset : Nat
  contentLength : Nat
  transferLength : Nat
  version : Option Bytes
  method : Option Bytes
  uri : Option Bytes
  code : Option Bytes
  phrase : Option Bytes
  headerList : List HeaderLine
  namebuf : Bytes
  msgbuf : Bytes
  msgsize : Nat
  bufsize : Nat
  hasConnection : Bool
  hasContentLength : Bool
  hasKeepAlive : Bool
  expectContinue : Bool
  keepAlive : Bool
  chunked : Bool
  complete : Bool
  isResp : Bool
  deriving DecidableEq, Repr, Inhabited

/-- What the C functions return: 1, 0 and -2; or what C leaves undefined. -/
inductive Ret
  | done | more | bad | fault
  deriving DecidableEq, Repr, Inhabited

/-! ## Header lines -/

def HeaderLine.name (h : HeaderLine) : Bytes := h.buf.take h.nameLen

def HeaderLine.value (h : HeaderLine) : Bytes := (h.buf.drop (h.nameLen + 2)).take h.valueLen

def headerLine (name value : Bytes) : HeaderLine where
  nameLen := name.length
  valueLen := value.length
  buf := name ++ [COLON, SP] ++ value ++ [CR, LF]

def addMessageHeader (name value : Bytes) (p : HttpParser) : HttpParser :=
  { p with headerList := p.headerList ++ [headerLine name value] }

/-- The line `__set_message_header` leaves of a matching one: a longer value gets a new buffer, with the new spelling of
the name; a value that fits is copied over the old one. -/
def HeaderLine.set (h : HeaderLine) (name value : Bytes) : HeaderLine :=
  let old := if h.valueLen < value.length then name ++ [COLON, SP] else h.buf.take (name.length + 2)
  let rest := if h.valueLen < value.length then [] else h.buf.drop (name.length + 2 + value.length + 2)
  { h with valueLen := value.length, buf := old ++ value ++ [CR, LF] ++ rest }

def HeaderLine.matches (h : HeaderLine) (name : Bytes) : Bool :=
  h.nameLen == name.length && strncaseeq name.length h.buf name

def setHeaderIn (name value : Bytes) : List HeaderLine → Option (List HeaderLine)
  | [] => none
  | h :: hs => if h.matches name then some (h.set name value :: hs) else (setHeaderIn name value hs).map (h :: ·)

def setMessageHeader (name value : Bytes) (p : HttpParser) : HttpParser :=
  match setHeaderIn name value p.headerList with
  | some hs => { p with headerList := hs }
  | none => addMessageHeader name value p

/-- A value is a C string: `*value` of an empty one is its NUL. -/
def checkMessageHeader (name value : Bytes) (p : HttpParser) : HttpParser :=
  match name.length with
  | 6 =>
    if strncaseeq 6 name (ascii "Expect") then
      if value.length = 12 ∧ strncaseeq 12 value (ascii "100-continue") then { p with expectContinue := true } else p
    else p
  | 10 =>
    if strncaseeq 10 name (ascii "Connection") then
      let p := { p with hasConnection := true }
      if value.length = 10 ∧ strncaseeq 10 value (ascii "Keep-Alive") then { p with keepAlive := true }
      else if value.length = 5 ∧ strncaseeq 5 value (ascii "close") then { p with keepAlive := false }
      else p
    else if strncaseeq 10 name (ascii "Keep-Alive") then { p with hasKeepAlive := true }
    else p
  | 14 =>
    if strncaseeq 14 name (ascii "Content-Length") then
      let p := { p with hasContentLength := true }
      if isDigitOf 10 (value.headD NUL) ∧ value.length ≤ 15 then
        { p with contentLength := (atol value % 2 ^ 64).toNat }
      else p
    else p
  | 17 =>
    if strncaseeq 17 name (ascii "Transfer-Encoding") then
      { p with chunked := !(value.length == 8 && strncaseeq 8 value (ascii "identity")) }
    else p
  | _ => p

def httpParserAddHeader (name value : Bytes) (p : HttpParser) : HttpParser :=
  checkMessageHeader name value (addMessageHeader name value p)

def httpParserSetHeader (name value : Bytes) (p : HttpParser) : HttpParser :=
  checkMessageHeader name value (setMessageHeader name value p)

/-! ## The start line -/

/-- `strcmp(version, "HTTP/1.0") == 0 || strncmp(version, "HTTP/0", 6) == 0`. -/
def oldVersion (version : Bytes) : Bool := version == ascii "HTTP/1.0" || version.take 6 == ascii "HTTP/0"

def matchRequestLine (method uri version : Bytes) (p : HttpParser) : HttpParser :=
  let p := if oldVersion version then { p with keepAlive := false } else p
  { p with method := some method, uri := some uri, version := some version }

def matchStatusLine (version code phrase : Bytes) (p : HttpParser) : HttpParser :=
  let p := if oldVersion version then { p with keepAlive := false } else p
  let p := if code.headD NUL = 49 ∨ code = ascii "204" ∨ code = ascii "304" then { p with transferLength := 0 } else p
  { p with version := some version, code := some code, phrase := some phrase }

/-- Where a scan over the bytes at hand ended. -/
inductive Scan
  | found | more | bad | overrun
  deriving DecidableEq, Repr, Inhabited

/-- `a[i] = b`, where `i` is the number of bytes already in `a`, an array of `size` bytes. -/
def put (size : Nat) (a : Bytes) (b : UInt8) : Option Bytes := if a.length < size then some (a ++ [b]) else none

/-- What a CR ends: nothing known yet, a line, or a refusal. -/
def afterCR : Bytes → Scan
  | [] => .more
  | c :: _ => if c = LF then .found else .bad

/-- The scanning loop that start lines, header names, chunk lines and trailer lines share: `a` is the array so far, of
`size` bytes; copy up to `max` bytes, up to `stop`, refusing some bytes on the way. -/
def copyScan (size max : Nat) (stop : UInt8) (onStop : Bytes → Scan) (reject : UInt8 → Bool) (a : Bytes) :
    Bytes → Scan × Bytes
  | [] => (if a.length = max then .bad else .more, a)
  | b :: rest =>
    if a.length < max then
      match put size a b with
      | none => (.overrun, a)
      | some a' =>
        if b = stop then (onStop rest, a)
        else if reject b then (.bad, a)
        else copyScan size max stop onStop reject a' rest
    else (if a.length = max then .bad else .more, a)

/-- A line of at most `max` bytes up to CRLF. -/
def lineScan (max : Nat) (reject : UInt8 → Bool) (ptr : Bytes) : Scan × Bytes :=
  copyScan max max CR afterCR reject [] ptr

def startsCRLF : Bytes → Bool
  | a :: b :: _ => a == CR && b == LF
  | _ => false

def parseStartLine (ptr : Bytes) (p : HttpParser) : Ret × HttpParser :=
  if startsCRLF ptr then (.done, { p with headerOffset := p.headerOffset + 2 })
  else
    match lineScan HTTP_START_LINE_MAX (· == NUL) ptr with
    | (.more, _) => (.more, p)
    | (.bad, _) => (.bad, p)
    | (.overrun, _) => (.fault, p)
    | (.found, line) =>
      match strchr SP line with
      | none => (.bad, p)
      | some (p1, rest) =>
        match strchr SP rest with
        | none => (.bad, p)
        | some (p2, p3) =>
          let q := if p.isResp then matchStatusLine p1 p2 p3 p else matchRequestLine p1 p2 p3 p
          (.done, { q with headerOffset := q.headerOffset + (line.length + 2), headerState := .headerName })

/-! ## Header fields -/

def nameScan (ptr : Bytes) : Scan × Bytes :=
  copyScan HTTP_HEADER_NAME_MAX HTTP_HEADER_NAME_MAX COLON (fun _ => .found) nonPos [] ptr

def parseHeaderName (ptr : Bytes) (p : HttpParser) : Ret × HttpParser :=
  if startsCRLF ptr then (.done, { p with headerOffset := p.headerOffset + 2, headerState := .headerComplete })
  else
    match nameScan ptr with
    | (.more, name) => (.more, { p with namebuf := name })
    | (.bad, name) => (.bad, { p with namebuf := name })
    | (.overrun, name) => (.fault, { p with namebuf := name })
    | (.found, name) =>
      (.done, { p with namebuf := name, headerOffset := p.headerOffset + (name.length + 1), headerState := .headerValue })

/-- `while (i > 0) if (blank(header_value[i - 1])) i--; else break;` -/
def trimRight (v : Bytes) : Bytes := (v.reverse.dropWhile isBlank).reverse

/-- The loops of `__parse_header_value`: `v` is `header_value[0 .. i)`, `n` is `ptr - begin`, `skip` says that the loop
over leading white space is still running.  The result has the value and the bytes consumed. -/
def valueScan (v : Bytes) (n : Nat) (skip : Bool) : Bytes → Scan × Bytes × Nat
  | [] => (.more, v, n)
  | b :: rest =>
    if skip && isBlank b then valueScan v (n + 1) true rest
    else if v.length = HTTP_HEADER_VALUE_MAX then (.bad, v, n)
    else
      match put HTTP_HEADER_VALUE_MAX v b with
      | none => (.overrun, v, n)
      | some v' =>
        match rest with
        | [] => (.more, v, n)
        | c :: rest' =>
          if b = CR then
            if c = LF then
              match rest' with
              | [] => (.more, v, n)
              | d :: rest'' =>
                if isBlank d then
                  match put HTTP_HEADER_VALUE_MAX (trimRight v) SP with
                  | none => (.overrun, v, n)
                  | some w => valueScan w (n + 3) true rest''
                else
                  match put HTTP_HEADER_VALUE_MAX (trimRight v) NUL with
                  | none => (.overrun, v, n)
                  | some _ => (.found, trimRight v, n + 2)
            else (.bad, v, n)
          else if nonPos b then (.bad, v, n)
          else valueScan v' (n + 1) false (c :: rest')

def parseHeaderValue (ptr : Bytes) (p : HttpParser) : Ret × HttpParser :=
  match valueScan [] 0 true ptr with
  | (.more, _) => (.more, p)
  | (.bad, _) => (.bad, p)
  | (.overrun, _) => (.fault, p)
  | (.found, value, n) =>
    let q := httpParserAddHeader (cstr p.namebuf) value p
    (.done, { q with headerOffset := q.headerOffset + n, headerState := .headerName })

/-- One pass of the loop of `__parse_message_header`. -/
def headerPass (message : Bytes) (p : HttpParser) : Pass HttpParser Ret :=
  if message.length < p.headerOffset then .exit .fault p
  else
    let ptr := message.drop p.headerOffset
    let r := match p.headerState with
      | .startLine => parseStartLine ptr p
      | .headerValue => parseHeaderValue ptr p
      | _ => parseHeaderName ptr p
    if p.headerState ≠ .startLine ∧ p.headerState ≠ .headerValue ∧ r.2.headerState = .headerComplete then .exit .done r.2
    else if r.1 = .done then .again r.2
    else .exit r.1 r.2

def parseMessageHeader (message : Bytes) (p : HttpParser) : Ret × HttpParser :=
  (doWhile (headerPass message) (message.length + 1) p).getD (.fault, p)

/-! ## Chunks -/

/-- A chunk line: its length without CRLF and the size it gives, `none` where `strtol` makes no conversion. -/
def parseChunkLine (ptr : Bytes) : Scan × Nat × Option Int :=
  let r := lineScan HTTP_CHUNK_LINE_MAX (fun _ => false) ptr
  (r.1, r.2.length, (strtol 16 r.2).map Prod.fst)

def parseChunkData (ptr : Bytes) (p : HttpParser) : Ret × HttpParser :=
  match parseChunkLine ptr with
  | (.more, _) => (.more, p)
  | (.bad, _) => (.bad, p)
  | (.overrun, _) => (.fault, p)
  | (.found, _, none) => (.bad, p)
  | (.found, i, some size) =>
    if size = 0 then (.done, { p with chunkState := .trailerPart, chunkOffset := p.chunkOffset + (i + 2) })
    else if (size % 2 ^ 64).toNat < CHUNK_SIZE_MAX then
      if ptr.length < size.toNat + (i + 4) then (.more, p)
      else (.done, { p with chunkOffset := p.chunkOffset + (size.toNat + (i + 4)) })
    else (.bad, p)

def parseTrailerPart (ptr : Bytes) (p : HttpParser) : Ret × HttpParser :=
  match lineScan HTTP_TRAILER_LINE_MAX (fun _ => false) ptr with
  | (.more, _) => (.more, p)
  | (.bad, _) => (.bad, p)
  | (.overrun, _) => (.fault, p)
  | (.found, line) =>
    let q := { p with chunkOffset := p.chunkOffset + (line.length + 2) }
    (.done, if line.length = 0 then { q with chunkState := .chunkComplete } else q)

/-- One pass of the loop of `__parse_chunk`. -/
def chunkPass (message : Bytes) (p : HttpParser) : Pass HttpParser Ret :=
  if message.length < p.chunkOffset then .exit .fault p
  else
    let ptr := message.drop p.chunkOffset
    let r := if p.chunkState = .chunkData then parseChunkData ptr p else parseTrailerPart ptr p
    if p.chunkState ≠ .chunkData ∧ r.2.chunkState = .chunkComplete then .exit .done r.2
    else if r.1 = .done then .again r.2
    else .exit r.1 r.2

def parseChunk (message : Bytes) (p : HttpParser) : Ret × HttpParser :=
  (doWhile (chunkPass message) (message.length + 1) p).getD (.fault, p)

/-! ## The calls -/

/-- The fields `http_parser_init` sets; the rest of the memory is what it was. -/
def httpParserInit (isResp : Bool) (p : HttpParser) : HttpParser where
  headerState := .startLine
  chunkState := p.chunkState
  headerOffset := 0
  chunkOffset := p.chunkOffset
  contentLength := if isResp then sizeMax else 0
  transferLength := sizeMax
  version := none
  method := none
  uri := none
  code := none
  phrase := none
  headerList := []
  namebuf := p.namebuf
  msgbuf := []
  msgsize := 0
  bufsize := 0
  hasConnection := false
  hasContentLength := false
  hasKeepAlive := false
  expectContinue := false
  keepAlive := true
  chunked := false
  complete := false
  isResp := isResp

/-- `HttpResponse::parse_zero_body`. -/
def parseZeroBody (p : HttpParser) : HttpParser := { p with transferLength := 0 }

/-- `while (new_size < need) new_size *= 2;` -/
def growSize (need : Nat) : Nat → Nat → Nat
  | 0, size => size
  | n + 1, size => if size < need then growSize need n (2 * size) else size

def reserve (n : Nat) (p : HttpParser) : HttpParser :=
  let need := p.msgsize + n + 1
  if p.bufsize < need then { p with bufsize := growSize need need (max HTTP_MSGBUF_INIT_SIZE (2 * p.bufsize)) } else p

/-- The bytes of a call in the buffer. -/
def received (buf : Bytes) (p : HttpParser) : HttpParser :=
  let q := reserve buf.length p
  { q with msgbuf := q.msgbuf.take q.msgsize ++ buf, msgsize := q.msgsize + buf.length }

/-- The part of `http_parser_append_message` before the body: the header block, and what its end sets up.  `message`
is `msgbuf[0 .. msgsize)`, here and below. -/
def finishHeader (message : Bytes) (p : HttpParser) : Ret × HttpParser :=
  if p.headerState ≠ .headerComplete then
    match parseMessageHeader message p with
    | (.done, q) =>
      (.done,
        if q.chunked then { q with chunkOffset := q.headerOffset, chunkState := .chunkData }
        else if q.transferLength = sizeMax then { q with transferLength := q.contentLength } else q)
    | r => r
  else (.done, p)

/-- The part of `http_parser_append_message` after the header block: the end of the message, if it is there. -/
def finishBody (message : Bytes) (p : HttpParser) : Ret × HttpParser :=
  if p.transferLength ≠ sizeMax then
    let total := p.headerOffset + p.transferLength
    if total ≤ message.length then (.done, { p with msgsize := total, complete := true }) else (.more, p)
  else if p.chunked then
    match if p.chunkState ≠ .chunkComplete then parseChunk message p else (.done, p) with
    | (.done, q) => (.done, { q with msgsize := q.chunkOffset, complete := true })
    | r => r
  else (.more, p)

/-- Everything `http_parser_append_message` does once the bytes are in the buffer. -/
def parseMessage (message : Bytes) (p : HttpParser) : Ret × HttpParser :=
  match finishHeader message p with
  | (.done, q) => finishBody message q
  | r => r

/-- `http_parser_append_message(buf, &n, parser)`: the result, `n` on return and the parser. -/
def httpParserAppendMessage (buf : Bytes) (p : HttpParser) : Ret × Nat × HttpParser :=
  if p.complete then (.done, 0, p)
  else
    let q := received buf p
    match parseMessage (q.msgbuf.take q.msgsize) q with
    | (.done, s) =>
      -- `*n -= parser->msgsize - total`, neither subtraction wrapping
      if s.msgsize ≤ q.msgsize ∧ q.msgsize - s.msgsize ≤ buf.length then
        (.done, buf.length - (q.msgsize - s.msgsize), s)
      else (.fault, 0, s)
    | (r, s) => (r, buf.length, s)

def httpParserSetMethod (method : Bytes) (p : HttpParser) : HttpParser := { p with method := some (cstr method) }

def httpParserSetUri (uri : Bytes) (p : HttpParser) : HttpParser := { p with uri := some (cstr uri) }

def httpParserSetVersion (version : Bytes) (p : HttpParser) : HttpParser := { p with version := some (cstr version) }

def httpParserSetCode (code : Bytes) (p : HttpParser) : HttpParser := { p with code := some (cstr code) }

def httpParserSetPhrase (phrase : Bytes) (p : HttpParser) : HttpParser := { p with phrase := some (cstr phrase) }

def httpParserHeaderComplete (p : HttpParser) : Bool := p.headerState == .headerComplete

/-- The body `http_parser_get_body` reports, as an offset and a size, and the NUL it writes after the message. -/
def httpParserGetBody (p : HttpParser) : Option (Nat × Nat × HttpParser) :=
  if p.complete ∧ p.headerState = .headerComplete then
    some (p.headerOffset, p.msgsize - p.headerOffset,
      { p with msgbuf := p.msgbuf.take p.msgsize ++ NUL :: p.msgbuf.drop (p.msgsize + 1) })
  else none

def httpParserCloseMessage (p : HttpParser) : HttpParser := { p with complete := true }

/-- Calls with one fragment after another until one returns non-zero: the last result, the bytes consumed in all. -/
def feed : List Bytes → HttpParser → Ret × Nat × HttpParser
  | [], p => (.more, 0, p)
  | buf :: rest, p =>
    match httpParserAppendMessage buf p with
    | (.more, n, q) =>
      let r := feed rest q
      (r.1, n + r.2.1, r.2.2)
    | r => r

end Tinywf
