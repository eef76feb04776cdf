import Tinywf.CLib
import Mathlib.Logic.Function.Basic
/-!
# UriParser — `URIParser::parse`

The text is cut in place: two arrays of indices, one entry a component, are filled in by three loops over the string,
and the cut pieces are checked and copied out only at the end.  The first loop ends the scheme at the first `:`.  The
second walks the authority; a `/` hands over to the third, which knows only paths, queries and fragments, but a `?`
does not: without a path the second loop walks the query too.

A loop is given `str + i` as the list of the bytes there, and the authority loop also `str[i - 1]`; the end of the list
is the terminator.  Indices are natural numbers, as `int` is up to 2^31 bytes.  `room p n` says whether the `realloc`
of `n` bytes for component `p` succeeds.
-/
namespace Tinywf
open CLib

abbrev HASH : UInt8 := 35
abbrev SLASH : UInt8 := 47
abbrev QUESTION : UInt8 := 63
abbrev AT : UInt8 := 64
abbrev LBRACKET : UInt8 := 91
abbrev RBRACKET : UInt8 := 93

/-- `URI_SCHEME … URI_PATH`, and `URI_PART_ELEMENTS`. -/
inductive UriPart where
  | scheme | userinfo | host | port | query | fragment | path | elements
deriving DecidableEq, Repr

/-! ## The tables -/

/-- `valid_char[URI_SCHEME]` for the ASCII bytes; the rows of the other bytes are zero. -/
def schemeChars : List Nat := [
  0, 0, 0, 0, 0, 0, 0, 0, 0, 0, 0, 0, 0, 0, 0, 0,
  0, 0, 0, 0, 0, 0, 0, 0, 0, 0, 0, 0, 0, 0, 0, 0,
  0, 0, 0, 0, 0, 0, 0, 0, 0, 0, 0, 1, 0, 1, 1, 0,
  1, 1, 1, 1, 1, 1, 1, 1, 1, 1, 0, 0, 0, 0, 0, 0,
  0, 1, 1, 1, 1, 1, 1, 1, 1, 1, 1, 1, 1, 1, 1, 1,
  1, 1, 1, 1, 1, 1, 1, 1, 1, 1, 1, 0, 0, 0, 0, 0,
  0, 1, 1, 1, 1, 1, 1, 1, 1, 1, 1, 1, 1, 1, 1, 1,
  1, 1, 1, 1, 1, 1, 1, 1, 1, 1, 1, 0, 0, 0, 0, 0]

def userinfoChars : List Nat := [
  0, 0, 0, 0, 0, 0, 0, 0, 0, 0, 0, 0, 0, 0, 0, 0,
  0, 0, 0, 0, 0, 0, 0, 0, 0, 0, 0, 0, 0, 0, 0, 0,
  0, 1, 0, 0, 1, 1, 1, 1, 1, 1, 1, 1, 1, 1, 1, 0,
  1, 1, 1, 1, 1, 1, 1, 1, 1, 1, 1, 1, 0, 1, 0, 0,
  0, 1, 1, 1, 1, 1, 1, 1, 1, 1, 1, 1, 1, 1, 1, 1,
  1, 1, 1, 1, 1, 1, 1, 1, 1, 1, 1, 0, 0, 0, 0, 1,
  0, 1, 1, 1, 1, 1, 1, 1, 1, 1, 1, 1, 1, 1, 1, 1,
  1, 1, 1, 1, 1, 1, 1, 1, 1, 1, 1, 0, 0, 0, 1, 0]

def hostChars : List Nat := [
  0, 0, 0, 0, 0, 0, 0, 0, 0, 0, 0, 0, 0, 0, 0, 0,
  0, 0, 0, 0, 0, 0, 0, 0, 0, 0, 0, 0, 0, 0, 0, 0,
  0, 1, 0, 0, 1, 1, 1, 1, 1, 1, 1, 1, 1, 1, 1, 0,
  1, 1, 1, 1, 1, 1, 1, 1, 1, 1, 1, 1, 0, 1, 0, 0,
  0, 1, 1, 1, 1, 1, 1, 1, 1, 1, 1, 1, 1, 1, 1, 1,
  1, 1, 1, 1, 1, 1, 1, 1, 1, 1, 1, 1, 0, 1, 0, 1,
  0, 1, 1, 1, 1, 1, 1, 1, 1, 1, 1, 1, 1, 1, 1, 1,
  1, 1, 1, 1, 1, 1, 1, 1, 1, 1, 1, 0, 0, 0, 1, 0]

def portChars : List Nat := [
  0, 0, 0, 0, 0, 0, 0, 0, 0, 0, 0, 0, 0, 0, 0, 0,
  0, 0, 0, 0, 0, 0, 0, 0, 0, 0, 0, 0, 0, 0, 0, 0,
  0, 0, 0, 0, 0, 0, 0, 0, 0, 0, 0, 0, 0, 0, 0, 0,
  1, 1, 1, 1, 1, 1, 1, 1, 1, 1, 0, 0, 0, 0, 0, 0,
  0, 0, 0, 0, 0, 0, 0, 0, 0, 0, 0, 0, 0, 0, 0, 0,
  0, 0, 0, 0, 0, 0, 0, 0, 0, 0, 0, 0, 0, 0, 0, 0,
  0, 0, 0, 0, 0, 0, 0, 0, 0, 0, 0, 0, 0, 0, 0, 0,
  0, 0, 0, 0, 0, 0, 0, 0, 0, 0, 0, 0, 0, 0, 0, 0]

def validChar (p : UriPart) (b : UInt8) : Bool :=
  let row := match p with
    | .scheme => schemeChars
    | .userinfo => userinfoChars
    | .host => hostChars
    | .port => portChars
    | _ => []
  row.getD b.toNat 0 != 0

/-- `authority_map`; an entry 0, `URI_SCHEME`, is a byte the loop passes over. -/
def authorityMap (b : UInt8) : UriPart :=
  if b = NUL then .elements else if b = HASH then .fragment else if b = SLASH then .path
  else if b = COLON then .host else if b = QUESTION then .query else if b = AT then .userinfo else .scheme

/-! ## `ParsedURI` -/

inductive UriState where
  | init | success | invalid | error
deriving DecidableEq, Repr

/-- A field is `none` where the pointer is `NULL`. -/
structure ParsedURI where
  scheme : Option Bytes
  userinfo : Option Bytes
  host : Option Bytes
  port : Option Bytes
  path : Option Bytes
  query : Option Bytes
  fragment : Option Bytes
  state : UriState
  error : Nat
deriving DecidableEq, Repr

def ParsedURI.fresh : ParsedURI := ⟨none, none, none, none, none, none, none, .init, 0⟩

/-- `*dst[p] = v`. -/
def ParsedURI.put (u : ParsedURI) (p : UriPart) (v : Option Bytes) : ParsedURI := match p with
  | .scheme => { u with scheme := v }
  | .userinfo => { u with userinfo := v }
  | .host => { u with host := v }
  | .port => { u with port := v }
  | .query => { u with query := v }
  | .fragment => { u with fragment := v }
  | .path => { u with path := v }
  | .elements => u

/-! ## The loops -/

/-- The local variables of `parse`. -/
structure UriCut where
  startIdx : UriPart → Nat
  endIdx : UriPart → Nat
  preState : UriPart
  inIpv6 : Bool
  skipPath : Bool
  i : Nat

namespace UriCut

def init : UriCut := ⟨fun _ => 0, fun _ => 0, .scheme, false, false, 0⟩

def setStart (c : UriCut) (p : UriPart) (k : Nat) : UriCut := { c with startIdx := Function.update c.startIdx p k }

def setEnd (c : UriCut) (p : UriPart) (k : Nat) : UriCut := { c with endIdx := Function.update c.endIdx p k }

def enter (c : UriCut) (p : UriPart) : UriCut := { c with preState := p }

def next (c : UriCut) : UriCut := { c with i := c.i + 1 }

/-- `if (pre_state != URI_PART_ELEMENTS) end_idx[pre_state] = i;` -/
def close (c : UriCut) : UriCut := if c.preState = .elements then c else c.setEnd c.preState c.i

end UriCut

/-- The bytes `str[a] … str[b - 1]`. -/
def span (str : Bytes) (a b : Nat) : Bytes := (str.drop a).take (b - a)

/-- The loop that ends the scheme. -/
def schemeLoop : Bytes → UriCut → UriCut × Bytes
  | [], c => (c, [])
  | b :: l, c =>
    if b = NUL then (c, b :: l)
    else if b = COLON then ((c.setEnd .scheme c.i).next, l)
    else schemeLoop l c.next

/-- `case URI_USERINFO` of the authority loop; `ahead` is `str[i + 1]`. -/
def UriCut.atUserinfo (c : UriCut) (ahead : UInt8) : UriCut :=
  let c := if ahead = LBRACKET then { c with inIpv6 := true } else c
  ((c.setEnd .userinfo c.i).setStart .host (c.i + 1)).enter .host

/-- `case URI_HOST`; `behind` is `str[i - 1]`. -/
def UriCut.atHost (c : UriCut) (behind : UInt8) : UriCut :=
  let c := if behind = RBRACKET then { c with inIpv6 := false } else c
  if c.inIpv6 then c else ((c.setEnd .host c.i).setStart .port (c.i + 1)).enter .port

def UriCut.atQuery (c : UriCut) : UriCut :=
  { ((c.setEnd c.preState c.i).setStart .query (c.i + 1)).enter .query with skipPath := true }

/-- `case URI_FRAGMENT`; `len` is `strlen(str + i)`. -/
def UriCut.atFragment (c : UriCut) (len : Nat) : UriCut :=
  { (((c.setEnd c.preState c.i).setStart .fragment (c.i + 1)).setEnd .fragment (c.i + len)).enter .elements
    with skipPath := true }

def authorityLoop (behind : UInt8) : Bytes → UriCut → UriCut × Bytes
  | [], c => ({ c with skipPath := true }, [])
  | b :: l, c => match authorityMap b with
    | .scheme => authorityLoop b l c.next
    | .userinfo => authorityLoop b l (c.atUserinfo (l.headD NUL)).next
    | .host => authorityLoop b l (c.atHost behind).next
    | .query => authorityLoop b l c.atQuery.next
    | .fragment => (c.atFragment (strlen (b :: l)), b :: l)
    | .path => if c.skipPath then authorityLoop b l c.next else (c.setStart .path c.i, b :: l)
    | .elements => ({ c with skipPath := true }, b :: l)
    | .port => (c, b :: l)

/-- `while (str[i + 1]) { if (str[++i] == '#') break; }`, with `str[i + 1] …` given. -/
def queryScan (b : UInt8) : Bytes → Nat → UInt8 × Bytes × Nat
  | [], i => (b, [], i)
  | d :: l, i => if d = NUL then (b, d :: l, i) else if d = HASH then (d, l, i + 1) else queryScan d l (i + 1)

/-- The loop over path, query and fragment; the fuel is the length of the text. -/
def pathLoop : Nat → Bytes → UriCut → UriCut × Bytes
  | _, [], c => (c, [])
  | 0, l, c => (c, l)
  | n + 1, b :: l, c =>
    if b = NUL then (c, b :: l)
    else
      let c' := if b = QUESTION then ((c.setEnd .path c.i).setStart .query (c.i + 1)).enter .query else c
      let (d, l', i) := if b = QUESTION then queryScan b l c.i else (b, l, c.i)
      let c' := { c' with i := i }
      if d = HASH then (((c'.setEnd c'.preState i).setStart .fragment (i + 1)).enter .fragment, d :: l')
      else pathLoop n l' c'.next

/-! ## The parser -/

/-- Behind a scheme that `//` follows; `ahead` is the byte behind that. -/
def UriCut.openAuthority (c : UriCut) (ahead : UInt8) : UriCut :=
  let c := { c.enter .host with i := c.i + 2 }
  let c := if ahead = LBRACKET then { c with inIpv6 := true } else c.setStart .userinfo c.i
  c.setStart .host c.i

/-- `if (start_idx[URI_PATH] == 0)` and the authority loop under it. -/
def cutAuthority (l : Bytes) (c : UriCut) : UriCut × Bytes :=
  if c.startIdx .path = 0 then authorityLoop SLASH l c else (c, l)

/-- From the end of the authority loop to the end of the path loop. -/
def cutPath (r : UriCut × Bytes) : UriCut :=
  let c := r.1.close
  if c.skipPath then c
  else
    let (c, l) := pathLoop r.2.length r.2 (c.enter .path)
    c.setEnd c.preState (c.i + strlen l)

/-- What is done once the scheme has ended: the indices of every component. -/
def cutRest (l : Bytes) (c : UriCut) : UriCut := match l with
  | 47 :: 47 :: r => cutPath (cutAuthority r (c.openAuthority (r.headD NUL)))
  | l => cutPath (cutAuthority l ((c.enter .path).setStart .path c.i))

/-- The components before `URI_QUERY`. -/
def checkedParts : List UriPart := [.scheme, .userinfo, .host, .port]

/-- Every byte of the first four components is one their table allows. -/
def charsValid (str : Bytes) (c : UriCut) : Bool :=
  checkedParts.all (fun p => (span str (c.startIdx p) (c.endIdx p)).all (validChar p))

def ENOMEM : Nat := 12

/-- The copying loop; `none` where the `len -= 2` of a bracketed host wraps around. -/
def storeParts (room : UriPart → Nat → Bool) (str : Bytes) (c : UriCut) :
    List UriPart → ParsedURI → Option (Int × ParsedURI)
  | [], u => some (0, { u with state := .success })
  | p :: ps, u =>
    if c.startIdx p < c.endIdx p then
      let len := c.endIdx p - c.startIdx p
      if room p (len + 1) then
        if p = .host ∧ str.getD (c.startIdx p) NUL = LBRACKET then
          if len < 2 then none
          else storeParts room str c ps (u.put p (some (span str (c.startIdx p + 1) (c.startIdx p + 1 + (len - 2)))))
        else storeParts room str c ps (u.put p (some (span str (c.startIdx p) (c.endIdx p))))
      else some (-1, { u.put p none with state := .error, error := ENOMEM })
    else storeParts room str c ps (u.put p none)

def uriParts : List UriPart := [.scheme, .userinfo, .host, .port, .query, .fragment, .path]

/-- `URIParser::parse`: what it returns, and the `ParsedURI` it leaves. -/
def URIParser.parse (room : UriPart → Nat → Bool) (str : Bytes) (uri : ParsedURI) : Option (Int × ParsedURI) :=
  let uri := { uri with state := .invalid }
  let (c, l) := schemeLoop str .init
  if c.endIdx .scheme = 0 then some (-1, uri)
  else
    let c := cutRest l c
    if charsValid str c then storeParts room str c uriParts uri else some (-1, uri)

example : URIParser.parse (fun _ _ => true) (ascii "http://u:p@[::1]:80/a?b:c@d?e#f") .fresh =
    some (0, ⟨some (ascii "http"), some (ascii "u:p"), some (ascii "::1"), some (ascii "80"), some (ascii "/a"),
      some (ascii "b:c@d?e"), some (ascii "f"), .success, 0⟩) := by decide +kernel

end Tinywf
