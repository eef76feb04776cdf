import Tinywf.Entries
import Tinywf.HttpMessage
/-!
# HttpHeaderEdit — the header list as an ordered list of entries

What `http_parser_add_header` and `http_parser_set_header` leave, read with a cursor, is a list of entries whose keys are
the names without their case: adding appends, setting replaces the value of the first entry of the key
(`header_editing`).  A line that is set in place keeps its buffer, and how much was allocated for it is remembered
nowhere; `allocated` is that number beside the list.
-/
namespace Tinywf

open CLib
open Entries (setFirst nextOf)

/-! ## The cursor -/

/-- `http_header_cursor_t`: how many lines of the list end with the one `cursor->next` points to; none with the head. -/
structure HeaderCursor where
  next : Nat
  deriving DecidableEq, Repr, Inhabited

def httpHeaderCursorInit : HeaderCursor := ⟨0⟩

def httpHeaderCursorRewind (c : HeaderCursor) : HeaderCursor := { c with next := 0 }

def httpHeaderCursorNext (p : HttpParser) (c : HeaderCursor) : Option (Bytes × Bytes) × HeaderCursor :=
  match p.headerList[c.next]? with
  | some h => (some (h.name, h.value), ⟨c.next + 1⟩)
  | none => (none, c)

/-- The loop of `http_header_cursor_find` over the lines behind the `i`-th. -/
def findLine (name : Bytes) : List HeaderLine → Nat → Option Bytes × Nat
  | [], i => (none, i)
  | h :: hs, i =>
    if h.matches name then (some ((h.buf.drop (name.length + 2)).take h.valueLen), i + 1) else findLine name hs (i + 1)

def httpHeaderCursorFind (name : Bytes) (p : HttpParser) (c : HeaderCursor) : Option Bytes × HeaderCursor :=
  let r := findLine name (p.headerList.drop c.next) c.next
  (r.1, ⟨r.2⟩)

/-- `while (http_header_cursor_next(&name, &name_len, &value, &value_len, &cursor) == 0)`, at most `n` times. -/
def cursorLines (p : HttpParser) : Nat → HeaderCursor → List (Bytes × Bytes)
  | 0, _ => []
  | n + 1, c =>
    match httpHeaderCursorNext p c with
    | (some e, c') => e :: cursorLines p n c'
    | (none, _) => []

/-! ## The calls -/

inductive HeaderCall
  | add (name value : Bytes)
  | set (name value : Bytes)
  deriving DecidableEq, Repr, Inhabited

namespace HeaderCall

def name : HeaderCall → Bytes
  | add name _ => name
  | set name _ => name

def run : HeaderCall → HttpParser → HttpParser
  | add name value, p => httpParserAddHeader name value p
  | set name value, p => httpParserSetHeader name value p

end HeaderCall

def headerCalls (us : List HeaderCall) (p : HttpParser) : HttpParser := us.foldl (fun p u => u.run p) p

/-- What `malloc` is asked for the buffer of a line. -/
def lineSize (name value : Bytes) : Nat := name.length + value.length + 4

/-- What is allocated for each line, when `__set_message_header` finds one to change. -/
def setSizeIn (name value : Bytes) : List HeaderLine → List Nat → Option (List Nat)
  | h :: hs, n :: ns =>
    if h.matches name then some ((if h.valueLen < value.length then lineSize name value else n) :: ns)
    else (setSizeIn name value hs ns).map (n :: ·)
  | _, _ => none

def HeaderCall.sizes : HeaderCall → List HeaderLine → List Nat → List Nat
  | add name value, _, ns => ns ++ [lineSize name value]
  | set name value, hs, ns => (setSizeIn name value hs ns).getD (ns ++ [lineSize name value])

/-- What is allocated for each line after the calls. -/
def allocated : List HeaderCall → HttpParser → List Nat → List Nat
  | [], _, ns => ns
  | u :: us, p, ns => allocated us (u.run p) (u.sizes p.headerList ns)

/-! ## What they mean -/

/-- A name without its case. -/
def headerKey (name : Bytes) : Bytes := name.map tolower

def entriesOf (hs : List HeaderLine) : List (Bytes × Bytes) := hs.map (fun h => (headerKey h.name, h.value))

def HeaderCall.edit : HeaderCall → List (Bytes × Bytes) → List (Bytes × Bytes)
  | add name value, l => l ++ [(headerKey name, value)]
  | set name value, l => setFirst (headerKey name) value l

/-- The entries the calls leave. -/
def editedBy (us : List HeaderCall) (l : List (Bytes × Bytes)) : List (Bytes × Bytes) :=
  us.foldl (fun l u => u.edit l) l

/-! ## Names that are equal but for their case -/

theorem strncaseeq_iff : ∀ {n : Nat} {a b : Bytes}, n ≤ a.length → n ≤ b.length → NUL ∉ a.take n →
    (strncaseeq n a b = true ↔ (a.take n).map tolower = (b.take n).map tolower)
  | 0, a, b, _, _, _ => by simp [strncaseeq]
  | n + 1, [], b, ha, _, _ => by simp at ha
  | n + 1, _ :: _, [], _, hb, _ => by simp at hb
  | n + 1, x :: a, y :: b, ha, hb, hno => by
    simp only [List.length_cons] at ha hb
    rw [List.take_succ_cons, List.mem_cons, not_or] at hno
    have hx : (x == NUL) = false := by rw [beq_eq_false_iff_ne]; exact Ne.symm hno.1
    rw [strncaseeq, hx, Bool.false_or, Bool.and_eq_true, beq_iff_eq,
      strncaseeq_iff (by omega) (by omega) hno.2, List.take_succ_cons, List.take_succ_cons, List.map_cons, List.map_cons,
      List.cons.injEq]

/-- A line in a buffer of `n` bytes. -/
structure LineFits (h : HeaderLine) (n : Nat) : Prop where
  wf : h.Wf
  size : h.buf.length = n
  fits : lineSize h.name h.value ≤ n
  name : NUL ∉ h.name

theorem LineFits.matches_iff {h : HeaderLine} {n : Nat} (ho : LineFits h n) (name : Bytes) :
    h.matches name = true ↔ headerKey h.name = headerKey name := by
  have hsize := ho.size
  have hfits := ho.fits
  have hlen := ho.wf.nameLen
  unfold lineSize at hfits
  rw [HeaderLine.matches, Bool.and_eq_true, beq_iff_eq]
  constructor
  · rintro ⟨hl, hc⟩
    rw [strncaseeq_iff (by omega) (Nat.le_refl _) (by rw [← hl]; exact ho.name), List.take_length, ← hl] at hc
    exact hc
  · intro hk
    have hl : h.nameLen = name.length := by
      rw [← hlen]
      have := congrArg List.length hk
      rwa [headerKey, headerKey, List.length_map, List.length_map] at this
    refine ⟨hl, ?_⟩
    rw [strncaseeq_iff (by omega) (Nat.le_refl _) (by rw [← hl]; exact ho.name), List.take_length, ← hl]
    exact hk

theorem headerLine_fits {name : Bytes} (hn : NUL ∉ name) (value : Bytes) :
    LineFits (headerLine name value) (lineSize name value) where
  wf := headerLine_wf name value
  size := by
    simp only [headerLine, lineSize, List.length_append, List.length_cons, List.length_nil]
    omega
  fits := by rw [headerLine_name, headerLine_value]
  name := by rw [headerLine_name]; exact hn

/-- A longer value takes the new name along, one that fits keeps the name that is there. -/
theorem HeaderLine.Wf.set_name {h : HeaderLine} (hw : h.Wf) {name : Bytes} (hlen : h.nameLen = name.length)
    (value : Bytes) : (h.set name value).name = if h.valueLen < value.length then name else h.name := by
  have hnl := hw.nameLen
  rw [HeaderLine.name, List.length_take] at hnl
  unfold HeaderLine.name HeaderLine.set
  simp only
  split
  · rw [List.append_assoc, List.append_assoc, List.append_assoc, hlen, List.take_left]
  · rw [List.append_assoc, List.append_assoc, List.take_append_of_le_length (by rw [List.length_take]; omega),
      List.take_take, Nat.min_eq_left (by omega)]

/-- What `__set_message_header` leaves of a line. -/
theorem LineFits.set {h : HeaderLine} {n : Nat} (ho : LineFits h n) {name : Bytes} (hm : h.matches name = true)
    (hn : NUL ∉ name) (value : Bytes) :
    LineFits (h.set name value) (if h.valueLen < value.length then lineSize name value else n) ∧
      headerKey (h.set name value).name = headerKey name ∧ (h.set name value).value = value := by
  have hkey := (ho.matches_iff name).1 hm
  have hlen : h.nameLen = name.length := by
    rw [HeaderLine.matches, Bool.and_eq_true, beq_iff_eq] at hm
    exact hm.1
  have hsize := ho.size
  have hfits := ho.fits
  have hnl := ho.wf.nameLen
  have hvl := ho.wf.valueLen
  unfold lineSize at hfits
  obtain ⟨hwf, hvalue⟩ := ho.wf.set hlen value
  have hname := ho.wf.set_name hlen value
  refine ⟨⟨hwf, ?_, ?_, ?_⟩, ?_, hvalue⟩
  · unfold HeaderLine.set lineSize
    simp only
    split
    · simp only [List.length_append, List.length_cons, List.length_nil]
      omega
    · simp only [List.length_append, List.length_cons, List.length_nil, List.length_take, List.length_drop]
      omega
  · rw [hname, hvalue]
    split
    · exact Nat.le_refl _
    · unfold lineSize
      omega
  · rw [hname]
    split
    · exact hn
    · exact ho.name
  · rw [hname]
    split
    · rfl
    · exact hkey

/-! ## One call -/

/-- The list of lines, and what is allocated for them. -/
abbrev ListFits (hs : List HeaderLine) (ns : List Nat) : Prop := List.Forall₂ LineFits hs ns

/-- Setting a header is `setFirst` where a line of the name is found, and fails where there is none. -/
theorem setHeaderIn_fits {name : Bytes} (hn : NUL ∉ name) (value : Bytes) {hs : List HeaderLine} {ns : List Nat}
    (h : ListFits hs ns) :
    (∃ hs' ns', setHeaderIn name value hs = some hs' ∧ setSizeIn name value hs ns = some ns' ∧ ListFits hs' ns' ∧
      entriesOf hs' = setFirst (headerKey name) value (entriesOf hs)) ∨
    (setHeaderIn name value hs = none ∧ setSizeIn name value hs ns = none ∧
      ∀ e ∈ entriesOf hs, e.1 ≠ headerKey name) := by
  induction h with
  | nil => exact .inr ⟨rfl, rfl, fun _ h => (by cases h)⟩
  | @cons x n hs ns hx _ ih =>
    rw [setHeaderIn, setSizeIn]
    by_cases hm : x.matches name = true
    · rw [if_pos hm, if_pos hm]
      obtain ⟨hset, hkey, hvalue⟩ := hx.set hm hn value
      refine .inl ⟨_, _, rfl, rfl, .cons hset ‹_›, ?_⟩
      unfold entriesOf
      rw [List.map_cons, List.map_cons, hkey, hvalue, setFirst, if_pos ((hx.matches_iff name).1 hm)]
    · rw [if_neg hm, if_neg hm]
      have hne : headerKey x.name ≠ headerKey name := fun hk => hm ((hx.matches_iff name).2 hk)
      rcases ih with ⟨hs', ns', h1, h2, hfits, hentries⟩ | ⟨h1, h2, hno⟩
      · rw [h1, h2]
        refine .inl ⟨_, _, rfl, rfl, .cons hx hfits, ?_⟩
        unfold entriesOf at hentries ⊢
        rw [List.map_cons, List.map_cons, hentries, setFirst, if_neg hne]
      · rw [h1, h2]
        refine .inr ⟨rfl, rfl, ?_⟩
        unfold entriesOf at hno ⊢
        rw [List.map_cons, List.forall_mem_cons]
        exact ⟨hne, hno⟩

theorem addMessageHeader_fits {name : Bytes} (hn : NUL ∉ name) (value : Bytes) {p : HttpParser} {ns : List Nat}
    (h : ListFits p.headerList ns) :
    ListFits (addMessageHeader name value p).headerList (ns ++ [lineSize name value]) ∧
      entriesOf (addMessageHeader name value p).headerList = entriesOf p.headerList ++ [(headerKey name, value)] := by
  refine ⟨List.rel_append h (.cons (headerLine_fits hn value) .nil), ?_⟩
  unfold entriesOf addMessageHeader
  rw [List.map_append, List.map_cons, List.map_nil, headerLine_name, headerLine_value]

/-- **What one call does**: to the entries what it means, and no line outgrows its buffer. -/
theorem HeaderCall.run_fits {u : HeaderCall} (hn : NUL ∉ u.name) {p : HttpParser} {ns : List Nat}
    (h : ListFits p.headerList ns) :
    ListFits (u.run p).headerList (u.sizes p.headerList ns) ∧
      entriesOf (u.run p).headerList = u.edit (entriesOf p.headerList) := by
  cases u with
  | add name value =>
    rw [run, httpParserAddHeader, HttpMessage.checkMessageHeader_headerList, sizes, edit]
    exact addMessageHeader_fits hn value h
  | set name value =>
    rw [run, httpParserSetHeader, HttpMessage.checkMessageHeader_headerList, sizes, edit, setMessageHeader]
    have hname : NUL ∉ name := hn
    rcases setHeaderIn_fits hname value h with ⟨hs', ns', h1, h2, hfits, hentries⟩ | ⟨h1, h2, hno⟩
    · rw [h1, h2]
      exact ⟨hfits, hentries⟩
    · rw [h1, h2, Entries.setFirst_none hno]
      exact addMessageHeader_fits hname value h

/-- What the calls do. -/
theorem headerCalls_fits : ∀ {us : List HeaderCall} {p : HttpParser} {ns : List Nat}, (∀ u ∈ us, NUL ∉ u.name) →
    ListFits p.headerList ns →
    ListFits (headerCalls us p).headerList (allocated us p ns) ∧
      entriesOf (headerCalls us p).headerList = editedBy us (entriesOf p.headerList)
  | [], _, _, _, h => ⟨h, rfl⟩
  | u :: us, p, ns, hn, h => by
    obtain ⟨hu, hus⟩ := List.forall_mem_cons.1 hn
    obtain ⟨hfits, hentries⟩ := u.run_fits hu h
    obtain ⟨hfits', hentries'⟩ := headerCalls_fits hus hfits
    refine ⟨hfits', ?_⟩
    rw [hentries] at hentries'
    exact hentries'

/-! ## What the cursor sees -/

theorem cursorLines_eq (p : HttpParser) : ∀ (n i : Nat), p.headerList.length < i + n →
    cursorLines p n ⟨i⟩ = (p.headerList.drop i).map (fun h => (h.name, h.value))
  | 0, i, hi => by
    rw [List.drop_eq_nil_of_le (by omega)]
    rfl
  | n + 1, i, hi => by
    rw [cursorLines, httpHeaderCursorNext]
    cases hget : p.headerList[i]? with
    | none =>
      rw [List.drop_eq_nil_of_le (List.getElem?_eq_none_iff.1 hget)]
      rfl
    | some h =>
      obtain ⟨hlt, rfl⟩ := List.getElem?_eq_some_iff.1 hget
      rw [List.drop_eq_getElem_cons hlt, List.map_cons, ← cursorLines_eq p n (i + 1) (by omega)]

/-- The value of a line found is that of the line, for the name is as long as its name. -/
theorem matches_value {h : HeaderLine} {name : Bytes} (hm : h.matches name = true) :
    (h.buf.drop (name.length + 2)).take h.valueLen = h.value := by
  rw [HeaderLine.matches, Bool.and_eq_true, beq_iff_eq] at hm
  rw [HeaderLine.value, hm.1]

theorem findLine_eq (name : Bytes) {hs : List HeaderLine} {ns : List Nat} (h : ListFits hs ns) (i : Nat) :
    (findLine name hs i).1 = (nextOf (headerKey name) (entriesOf hs)).map Prod.fst ∧ i ≤ (findLine name hs i).2 ∧
      (entriesOf hs).drop ((findLine name hs i).2 - i) = ((nextOf (headerKey name) (entriesOf hs)).map Prod.snd).getD [] := by
  induction h generalizing i with
  | nil => exact ⟨rfl, Nat.le_refl _, by rw [findLine, Nat.sub_self]; rfl⟩
  | @cons x n hs ns hx _ ih =>
    have hentries : entriesOf (x :: hs) = (headerKey x.name, x.value) :: entriesOf hs := rfl
    rw [findLine, hentries, nextOf]
    by_cases hm : x.matches name = true
    · rw [if_pos hm, if_pos ((hx.matches_iff name).1 hm)]
      refine ⟨congrArg some (matches_value hm), Nat.le_succ i, ?_⟩
      rw [Nat.add_sub_cancel_left]
      rfl
    · rw [if_neg hm, if_neg (fun hk => hm ((hx.matches_iff name).2 hk))]
      obtain ⟨h1, h2, h3⟩ := ih (i + 1)
      refine ⟨h1, by omega, ?_⟩
      rw [show (findLine name hs (i + 1)).2 - i = ((findLine name hs (i + 1)).2 - (i + 1)) + 1 by omega, List.drop_succ_cons]
      exact h3

theorem httpHeaderCursorFind_eq {p : HttpParser} {ns : List Nat} (h : ListFits p.headerList ns) (name : Bytes)
    (c : HeaderCursor) :
    let next := nextOf (headerKey name) ((entriesOf p.headerList).drop c.next)
    (httpHeaderCursorFind name p c).1 = next.map Prod.fst ∧
      (entriesOf p.headerList).drop (httpHeaderCursorFind name p c).2.next = (next.map Prod.snd).getD [] := by
  intro next
  have hdrop : (entriesOf p.headerList).drop c.next = entriesOf (p.headerList.drop c.next) := by
    unfold entriesOf
    rw [List.map_drop]
  have hfits : ListFits (p.headerList.drop c.next) (ns.drop c.next) := List.forall₂_drop c.next h
  obtain ⟨h1, h2, h3⟩ := findLine_eq name hfits c.next
  rw [← hdrop] at h1 h3
  refine ⟨h1, ?_⟩
  rw [List.drop_drop, Nat.add_sub_cancel' h2] at h3
  exact h3

/-- **Editing the header refines an ordered list of entries**: after any calls with names without NUL, the cursor goes
through the entries the calls mean; a find from a rewound cursor returns the first entry of the name, from any place the
next one, and stops behind it; and every line lies in its buffer, within what was allocated for it. -/
theorem header_editing (isResp : Bool) (memory : HttpParser) (us : List HeaderCall) (names : ∀ u ∈ us, NUL ∉ u.name) :
    let p := headerCalls us (httpParserInit isResp memory)
    let l := editedBy us []
    (∀ n, p.headerList.length < n →
      (cursorLines p n httpHeaderCursorInit).map (fun e => (headerKey e.1, e.2)) = l) ∧
    (∀ (name : Bytes) (c : HeaderCursor), (httpHeaderCursorFind name p (httpHeaderCursorRewind c)).1 =
      (l.find? (fun e => e.1 = headerKey name)).map Prod.snd) ∧
    (∀ (name : Bytes) (c : HeaderCursor),
      match nextOf (headerKey name) (l.drop c.next) with
      | some (value, rest) => (httpHeaderCursorFind name p c).1 = some value ∧
          l.drop (httpHeaderCursorFind name p c).2.next = rest
      | none => (httpHeaderCursorFind name p c).1 = none ∧ l.drop (httpHeaderCursorFind name p c).2.next = []) ∧
    List.Forall₂ (fun h n => h.buf.length = n ∧ lineSize h.name h.value ≤ n ∧
        h.buf.take (lineSize h.name h.value) = h.name ++ [COLON, SP] ++ h.value ++ [CR, LF])
      p.headerList (allocated us (httpParserInit isResp memory) []) := by
  intro p l
  have hfresh : ListFits (httpParserInit isResp memory).headerList [] := .nil
  obtain ⟨hfits, hl⟩ : ListFits p.headerList _ ∧ entriesOf p.headerList = l := headerCalls_fits names hfresh
  refine ⟨fun n hn => ?_, fun name c => ?_, fun name c => ?_, hfits.imp fun h n ho => ⟨ho.size, ho.fits, ?_⟩⟩
  · rw [httpHeaderCursorInit, cursorLines_eq p n 0 (by omega), List.drop_zero, List.map_map, ← hl]
    rfl
  · rw [(httpHeaderCursorFind_eq hfits name (httpHeaderCursorRewind c)).1, hl]
    exact Entries.nextOf_fst (headerKey name) l
  · obtain ⟨h1, h2⟩ := httpHeaderCursorFind_eq hfits name c
    rw [hl] at h1 h2
    cases hnext : nextOf (headerKey name) (l.drop c.next) with
    | none =>
      rw [hnext] at h1 h2
      exact ⟨h1, h2⟩
    | some e =>
      rw [hnext] at h1 h2
      exact ⟨h1, h2⟩
  · have hsize : h.nameLen + h.valueLen + 4 = h.nameLen + 2 + h.valueLen + 2 := by omega
    rw [← ho.wf.buf, lineSize, ho.wf.nameLen, ho.wf.valueLen, hsize]

/-- A value that shrinks in place, and grows again into a new buffer. -/
theorem header_editing_regrown :
    let us := [.add (ascii "Host") (ascii "abc"), .add (ascii "HOST") (ascii "x"), .set (ascii "host") (ascii "a"),
      .set (ascii "HoSt") (ascii "ab")]
    (cursorLines (headerCalls us (httpParserInit false default)) 3 httpHeaderCursorInit).map
        (fun e => (headerKey e.1, e.2)) = [(ascii "host", ascii "ab"), (ascii "host", ascii "x")] ∧
      allocated us (httpParserInit false default) [] = [10, 9] :=
  ⟨((header_editing false default _ (by decide +kernel)).1 3 (by decide +kernel)).trans (by decide +kernel),
    by decide +kernel⟩

end Tinywf
