import Mathlib.Logic.Function.Basic
import Tinywf.HttpHeaderEdit
/-!
# HttpHeaderMap — `util/HttpUtil.cc`, `class HttpHeaderMap`

The map answers what a scan of the message's lines with a cursor answers, with one exception: `get_strict(key)` looks its
key up with `operator[]`, which inserts it, and from then on `key_exists` finds a header that the message does not have
(`map_answers`).
-/
namespace Tinywf

open CLib
open Entries (nextOf valuesOf)

/-- `std::unordered_map<std::string, std::vector<std::string>> header_map_` -/
structure HttpHeaderMap where
  headerMap : Bytes → Option (List Bytes)

/-- What the map is asked; `getTo` and `getStrictTo` are the forms with a second argument. -/
inductive HeaderQuery
  | keyExists (key : Bytes)
  | get (key : Bytes)
  | getTo (key : Bytes)
  | getStrict (key : Bytes)
  | getStrictTo (key : Bytes)
  deriving DecidableEq, Repr

/-- What it answers; `none` for `false`, which leaves the second argument alone. -/
inductive HeaderAnswer
  | known (yes : Bool)
  | value (value : Bytes)
  | found (value : Option Bytes)
  | values (values : List Bytes)
  | foundAll (values : Option (List Bytes))
  deriving DecidableEq, Repr

namespace HttpHeaderMap

/-- `header_map_[key]` -/
def index (key : Bytes) (m : HttpHeaderMap) : List Bytes × HttpHeaderMap :=
  match m.headerMap key with
  | some values => (values, m)
  | none => ([], { m with headerMap := Function.update m.headerMap key (some []) })

/-- `header_map_[key].emplace_back(value)` -/
def emplaceBack (key value : Bytes) (m : HttpHeaderMap) : HttpHeaderMap :=
  let r := m.index key
  { r.2 with headerMap := Function.update r.2.headerMap key (some (r.1 ++ [value])) }

/-- The constructor: `message` is the parser of its argument. -/
def new (message : HttpParser) : HttpHeaderMap :=
  (cursorLines message (message.headerList.length + 1) httpHeaderCursorInit).foldl
    (fun m e => m.emplaceBack (headerKey e.1) e.2) ⟨fun _ => none⟩

/-- What `header_map_.find(key)` leads to: no values where it is `end()`, as where the vector is empty. -/
def find (key : Bytes) (m : HttpHeaderMap) : List Bytes := (m.headerMap key).getD []

/-- The answer to a query, and the map after it. -/
def ask (m : HttpHeaderMap) : HeaderQuery → HeaderAnswer × HttpHeaderMap
  | .keyExists key => (.known (m.headerMap (headerKey key)).isSome, m)
  | .get key =>
    match m.find (headerKey key) with
    | [] => (.value [], m)
    | value :: _ => (.value value, m)
  | .getTo key =>
    match m.find (headerKey key) with
    | [] => (.found none, m)
    | value :: _ => (.found (some value), m)
  | .getStrict key =>
    let r := m.index (headerKey key)
    (.values r.1, r.2)
  | .getStrictTo key =>
    match m.find (headerKey key) with
    | [] => (.foundAll none, m)
    | values => (.foundAll (some values), m)

/-- The answers to queries asked one after the other. -/
def answers : List HeaderQuery → HttpHeaderMap → List HeaderAnswer
  | [], _ => []
  | q :: qs, m => (m.ask q).1 :: answers qs (m.ask q).2

end HttpHeaderMap

/-! ## The scan -/

/-- The values that one find after the other returns, at most `n` of them. -/
def cursorFinds (name : Bytes) (p : HttpParser) : Nat → HeaderCursor → List Bytes
  | 0, _ => []
  | n + 1, c =>
    match httpHeaderCursorFind name p c with
    | (some value, c') => value :: cursorFinds name p n c'
    | (none, _) => []

/-- What a scan of the message answers. -/
def scan (message : HttpParser) : HeaderQuery → HeaderAnswer
  | .keyExists key => .known (httpHeaderCursorFind key message httpHeaderCursorInit).1.isSome
  | .get key => .value ((httpHeaderCursorFind key message httpHeaderCursorInit).1.getD [])
  | .getTo key => .found (httpHeaderCursorFind key message httpHeaderCursorInit).1
  | .getStrict key => .values (cursorFinds key message (message.headerList.length + 1) httpHeaderCursorInit)
  | .getStrictTo key =>
    match cursorFinds key message (message.headerList.length + 1) httpHeaderCursorInit with
    | [] => .foundAll none
    | values => .foundAll (some values)

/-- The answers that the entries of a message give. -/
def scanEntries (l : List (Bytes × Bytes)) : HeaderQuery → HeaderAnswer
  | .keyExists key => .known (valuesOf (headerKey key) l ≠ [])
  | .get key => .value ((valuesOf (headerKey key) l).head?.getD [])
  | .getTo key => .found (valuesOf (headerKey key) l).head?
  | .getStrict key => .values (valuesOf (headerKey key) l)
  | .getStrictTo key => .foundAll (if valuesOf (headerKey key) l = [] then none else some (valuesOf (headerKey key) l))

theorem length_entriesOf (hs : List HeaderLine) : (entriesOf hs).length = hs.length := List.length_map _

theorem cursorFinds_eq {p : HttpParser} {ns : List Nat} (h : ListFits p.headerList ns) (name : Bytes) :
    ∀ (n : Nat) (c : HeaderCursor), p.headerList.length < c.next + n →
      cursorFinds name p n c = valuesOf (headerKey name) ((entriesOf p.headerList).drop c.next)
  | 0, c, hn => by
    rw [List.drop_eq_nil_of_le (by rw [length_entriesOf]; omega)]
    rfl
  | n + 1, c, hn => by
    obtain ⟨h1, h2⟩ := httpHeaderCursorFind_eq h name c
    rw [cursorFinds, Entries.valuesOf_eq]
    rcases hr : httpHeaderCursorFind name p c with ⟨found, c'⟩
    rw [hr] at h1 h2
    cases hnext : nextOf (headerKey name) ((entriesOf p.headerList).drop c.next) with
    | none =>
      rw [hnext] at h1
      obtain rfl : found = none := h1
      rfl
    | some e =>
      rw [hnext] at h1 h2
      obtain rfl : found = some e.1 := h1
      have hdrop : (entriesOf p.headerList).drop c'.next = e.2 := h2
      -- the find went past the entry it returned
      have hlt : c.next < c'.next := by
        obtain ⟨a, ha, -⟩ := Entries.nextOf_some.1 hnext
        have hlen := congrArg List.length ha
        rw [← hdrop] at hlen
        simp only [List.length_drop, List.length_append, List.length_cons] at hlen
        omega
      simp only
      rw [cursorFinds_eq h name n c' (by omega), hdrop]

theorem scan_eq {p : HttpParser} {ns : List Nat} (h : ListFits p.headerList ns) (q : HeaderQuery) :
    scan p q = scanEntries (entriesOf p.headerList) q := by
  have hfind (key : Bytes) : (httpHeaderCursorFind key p httpHeaderCursorInit).1 =
      (valuesOf (headerKey key) (entriesOf p.headerList)).head? := by
    rw [Entries.valuesOf_head]
    exact (httpHeaderCursorFind_eq h key httpHeaderCursorInit).1
  have hfinds (key : Bytes) : cursorFinds key p (p.headerList.length + 1) httpHeaderCursorInit =
      valuesOf (headerKey key) (entriesOf p.headerList) :=
    cursorFinds_eq h key _ httpHeaderCursorInit (by rw [httpHeaderCursorInit]; omega)
  cases q with
  | keyExists key =>
    rw [scan, scanEntries, hfind]
    cases valuesOf (headerKey key) (entriesOf p.headerList) <;> rfl
  | get key => rw [scan, scanEntries, hfind]
  | getTo key => rw [scan, scanEntries, hfind]
  | getStrict key => rw [scan, scanEntries, hfinds]
  | getStrictTo key =>
    rw [scan, scanEntries, hfinds]
    cases valuesOf (headerKey key) (entriesOf p.headerList) <;> rfl

/-! ## The map -/

/-- The map of the entries `l`, with the keys `added` to it. -/
def Mapped (l : List (Bytes × Bytes)) (added : List Bytes) (m : HttpHeaderMap) : Prop :=
  ∀ key, m.headerMap key = if valuesOf key l ≠ [] ∨ key ∈ added then some (valuesOf key l) else none

section

variable {l : List (Bytes × Bytes)} {added : List Bytes} {m : HttpHeaderMap}

/-- `operator[]` adds its key. -/
theorem Mapped.index (h : Mapped l added m) (key : Bytes) :
    (m.index key).1 = valuesOf key l ∧ Mapped l (key :: added) (m.index key).2 := by
  have hkey := h key
  unfold HttpHeaderMap.index
  cases hm : m.headerMap key with
  | some values =>
    rw [hm] at hkey
    split at hkey
    · rename_i hthere
      cases hkey
      refine ⟨rfl, fun k => ?_⟩
      rw [h k]
      by_cases hk : k = key
      · subst hk
        rw [if_pos hthere, if_pos (.inr List.mem_cons_self)]
      · simp [hk]
    · cases hkey
  | none =>
    rw [hm] at hkey
    split at hkey
    · cases hkey
    · rename_i hno
      have hv : valuesOf key l = [] := by
        by_contra hv
        exact hno (.inl hv)
      refine ⟨hv.symm, fun k => ?_⟩
      simp only
      by_cases hk : k = key
      · subst hk
        rw [Function.update_self, if_pos (.inr List.mem_cons_self), hv]
      · rw [Function.update_of_ne hk, h k]
        simp [hk]

/-- One header more. -/
theorem Mapped.emplaceBack (h : Mapped l [] m) (key value : Bytes) :
    Mapped (l ++ [(key, value)]) [] (m.emplaceBack key value) := by
  obtain ⟨hval, hmap⟩ := h.index key
  intro k
  rw [HttpHeaderMap.emplaceBack]
  simp only
  rw [Entries.valuesOf_append, Entries.valuesOf_cons, Entries.valuesOf_nil, hval]
  by_cases hk : k = key
  · subst hk
    rw [Function.update_self, if_pos rfl, if_pos (.inl (by simp))]
  · rw [Function.update_of_ne hk, if_neg (Ne.symm hk), List.append_nil, hmap k]
    simp [hk]

/-- The constructor maps the headers of the message. -/
theorem mapped_new (message : HttpParser) : Mapped (entriesOf message.headerList) [] (.new message) := by
  have hfold : ∀ (es : List (Bytes × Bytes)) (l : List (Bytes × Bytes)) (m : HttpHeaderMap), Mapped l [] m →
      Mapped (l ++ es.map (fun e => (headerKey e.1, e.2))) []
        (es.foldl (fun m e => m.emplaceBack (headerKey e.1) e.2) m) := by
    intro es
    induction es with
    | nil =>
      intro l m h
      rw [List.map_nil, List.append_nil]
      exact h
    | cons e es ih =>
      intro l m h
      have := ih _ _ (h.emplaceBack (headerKey e.1) e.2)
      rwa [List.append_assoc] at this
  have hlines : cursorLines message (message.headerList.length + 1) httpHeaderCursorInit =
      message.headerList.map (fun h => (h.name, h.value)) := by
    rw [httpHeaderCursorInit, cursorLines_eq message _ 0 (by omega), List.drop_zero]
  have hempty : Mapped [] [] ⟨fun _ => none⟩ := fun key => by
    rw [if_neg (by simp [Entries.valuesOf_nil])]
  have := hfold (message.headerList.map (fun h => (h.name, h.value))) [] _ hempty
  rw [List.nil_append, List.map_map] at this
  rw [HttpHeaderMap.new, hlines]
  exact this

/-- The keys a query adds to the map. -/
def HeaderQuery.adds : HeaderQuery → List Bytes
  | getStrict key => [headerKey key]
  | _ => []

/-- What `find` leads to are the values of the key. -/
theorem Mapped.find (h : Mapped l added m) (key : Bytes) : m.find key = valuesOf key l := by
  rw [HttpHeaderMap.find, h key]
  split
  · rfl
  · rename_i hno
    by_contra hv
    exact hno (.inl fun h0 => hv h0.symm)

/-- **What one query does**: the answer is that of the entries, but that a key added is known; the map stays that of the
entries. -/
theorem Mapped.ask (h : Mapped l added m) (q : HeaderQuery) :
    Mapped l (q.adds ++ added) (m.ask q).2 ∧
      ((m.ask q).1 = scanEntries l q ↔
        ∀ key, q = .keyExists key → headerKey key ∈ added → valuesOf (headerKey key) l ≠ []) := by
  cases q with
  | keyExists key =>
    refine ⟨h, ?_⟩
    rw [HttpHeaderMap.ask, scanEntries, h (headerKey key)]
    simp only [HeaderAnswer.known.injEq, HeaderQuery.keyExists.injEq, forall_eq']
    by_cases hv : valuesOf (headerKey key) l = []
    · by_cases hadded : headerKey key ∈ added
      · simp [hv, hadded]
      · simp [hv, hadded]
    · simp [hv]
  | get key =>
    rw [HttpHeaderMap.ask, scanEntries, h.find]
    cases valuesOf (headerKey key) l with
    | nil => exact ⟨h, fun _ _ hq => (by cases hq), fun _ => rfl⟩
    | cons value values => exact ⟨h, fun _ _ hq => (by cases hq), fun _ => rfl⟩
  | getTo key =>
    rw [HttpHeaderMap.ask, scanEntries, h.find]
    cases valuesOf (headerKey key) l with
    | nil => exact ⟨h, fun _ _ hq => (by cases hq), fun _ => rfl⟩
    | cons value values => exact ⟨h, fun _ _ hq => (by cases hq), fun _ => rfl⟩
  | getStrict key =>
    obtain ⟨hval, hmap⟩ := h.index (headerKey key)
    rw [HttpHeaderMap.ask, scanEntries]
    exact ⟨hmap, fun _ _ hq => (by cases hq), fun _ => by rw [hval]⟩
  | getStrictTo key =>
    rw [HttpHeaderMap.ask, scanEntries, h.find]
    cases valuesOf (headerKey key) l with
    | nil => exact ⟨h, fun _ _ hq => (by cases hq), fun _ => rfl⟩
    | cons value values => exact ⟨h, fun _ _ hq => (by cases hq), fun _ => rfl⟩

/-- `get_strict(key)` asked before, or `key` added before that. -/
def Asked (added : List Bytes) (us : List HeaderQuery) (key : Bytes) : Prop :=
  headerKey key ∈ added ∨ ∃ key', .getStrict key' ∈ us ∧ headerKey key' = headerKey key

theorem asked_cons {q : HeaderQuery} {us : List HeaderQuery} {key : Bytes} :
    Asked added (q :: us) key ↔ Asked (q.adds ++ added) us key := by
  unfold Asked
  cases q <;> simp [HeaderQuery.adds, or_assoc, or_left_comm, eq_comm]

/-- What a history of queries is answered. -/
theorem Mapped.answers : ∀ {added : List Bytes} {m : HttpHeaderMap} (qs : List HeaderQuery), Mapped l added m →
    (m.answers qs = qs.map (scanEntries l) ↔
      ∀ us key vs, qs = us ++ .keyExists key :: vs → Asked added us key → valuesOf (headerKey key) l ≠ [])
  | _, _, [], _ => ⟨fun _ us key vs h => by simp at h, fun _ => rfl⟩
  | added, m, q :: qs, h => by
    obtain ⟨hmap, hans⟩ := h.ask q
    rw [HttpHeaderMap.answers, List.map_cons, List.cons.injEq, hans, Mapped.answers qs hmap]
    constructor
    · rintro ⟨hq, hqs⟩ us key vs heq hasked
      rcases us with _ | ⟨u, us⟩
      · cases heq
        rcases hasked with hadded | ⟨_, hmem, -⟩
        · exact hq key rfl hadded
        · cases hmem
      · cases heq
        exact hqs us key vs rfl (asked_cons.1 hasked)
    · intro hall
      refine ⟨fun key hq hadded => hall [] key qs (by rw [hq]; rfl) (.inl hadded), fun us key vs heq hasked => ?_⟩
      exact hall (q :: us) key vs (by rw [heq]; rfl) (asked_cons.2 hasked)

end

/-! ## Parsed messages -/

/-- The lines of a parsed message lie in their buffers. -/
theorem FieldOk.fits {h : HeaderLine} (hf : FieldOk h) : LineFits h h.buf.length := by
  have hno : NUL ∉ h.name := fun hmem => by
    have := (hf.name.bytes NUL hmem).2
    cases this
  rw [hf.line]
  have := headerLine_fits hno h.value
  rwa [← this.size] at this

/-- **The map of a parsed message answers like a scan of it, whatever it is asked, exactly if no `key_exists` comes after
a `get_strict` of the same name that no header has.** -/
theorem map_answers (memory : HttpParser) (isResp zeroBody : Bool) (frags : List Bytes) (qs : List HeaderQuery) :
    let message := (feed frags (fresh isResp zeroBody memory)).2.2
    (HttpHeaderMap.new message).answers qs = qs.map (scan message) ↔
      ∀ us key vs, qs = us ++ .keyExists key :: vs →
        (∃ key', .getStrict key' ∈ us ∧ headerKey key' = headerKey key) →
        ∃ h ∈ message.headerList, headerKey h.name = headerKey key := by
  intro message
  have hfits : ListFits message.headerList (message.headerList.map fun h => h.buf.length) := by
    rw [ListFits, List.forall₂_map_right_iff, List.forall₂_same]
    exact fun h hh => (feed_stored rfl h hh).fits
  have hscan : scan message = scanEntries (entriesOf message.headerList) := funext (scan_eq hfits)
  rw [hscan, (mapped_new message).answers qs]
  have hsome (key : Bytes) : valuesOf (headerKey key) (entriesOf message.headerList) ≠ [] ↔
      ∃ h ∈ message.headerList, headerKey h.name = headerKey key := by
    rw [Ne, Entries.valuesOf_eq_nil, Entries.nextOf_none, entriesOf, List.forall_mem_map]
    simp only [not_forall, not_not, exists_prop]
  simp only [hsome, Asked, List.not_mem_nil, false_or]

/-- `key_exists`, `get_strict`, `key_exists`, of a name that the message does not have: no, nothing, yes. -/
theorem map_answers_inserted :
    let message := (feed [ascii "GET / HTTP/1.1\r\nHost: a\r\n\r\n"] (fresh false false default)).2.2
    let qs := [.keyExists (ascii "X"), .getStrict (ascii "X"), .keyExists (ascii "x")]
    (HttpHeaderMap.new message).answers qs = [.known false, .values [], .known true] ∧
      qs.map (scan message) = [.known false, .values [], .known false] ∧
      (HttpHeaderMap.new message).answers qs ≠ qs.map (scan message) := by
  decide +kernel

end Tinywf
