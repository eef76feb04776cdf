import Tinywf.StringUtil
import Tinywf.MultiMap
/-!
# UriQuery — `URIParser::split_query_strict` and `split_query`

Either loop takes from a piece the key before the first `=` and the text up to the second (`pairOf`), and leaves out a
piece without a key; one map has all the values of a key, the other the first (`splitQueryStrict_lookup`,
`splitQuery_lookup`).  A value behind a second `=` is lost (`query_values_whole`).  What the component encoder writes
holds no separator, so that a query made of it gives back what it was made of (`query_round_trip`).
-/
namespace Tinywf

open CLib Entries MultiMap StringUtil

namespace URIParser

abbrev AMP : UInt8 := 38
abbrev EQUALS : UInt8 := 61

/-- One piece in the loop of `split_query_strict`. -/
def addStrict (res : Map Bytes (List Bytes)) (ele : Bytes) : Map Bytes (List Bytes) :=
  if ele = [] then res
  else
    match split ele EQUALS with
    | [] => res
    | key :: kv =>
      if key = [] then res
      else
        match kv with
        | [] => push res key []
        | val :: _ => if val = [] then push res key [] else push res key val

def splitQueryStrict (query : Bytes) : Map Bytes (List Bytes) :=
  if query = [] then ∅ else (split query AMP).foldl addStrict ∅

/-- One piece in the loop of `split_query`. -/
def addFirst (res : Map Bytes Bytes) (ele : Bytes) : Map Bytes Bytes :=
  if ele = [] then res
  else
    match split ele EQUALS with
    | [] => res
    | key :: kv =>
      if key = [] ∨ key ∈ res then res
      else
        match kv with
        | [] => emplace res key []
        | val :: _ => if val = [] then emplace res key [] else emplace res key val

def splitQuery (query : Bytes) : Map Bytes Bytes :=
  if query = [] then ∅ else (split query AMP).foldl addFirst ∅

/-! ## What a piece gives -/

/-- The key and the value of a piece, if it has a key. -/
def pairOf (ele : Bytes) : Option (Bytes × Bytes) :=
  match split ele EQUALS with
  | [] => none
  | key :: kv => if key = [] then none else some (key, kv.headD [])

/-- All the pieces of a query that have a key. -/
def pairsOf (query : Bytes) : List (Bytes × Bytes) := (split query AMP).filterMap pairOf

theorem pairOf_nil : pairOf [] = none := rfl

theorem addStrict_eq (res : Map Bytes (List Bytes)) (ele : Bytes) :
    addStrict res ele = ((pairOf ele).map fun e => push res e.1 e.2).getD res := by
  unfold addStrict
  by_cases he : ele = []
  · rw [if_pos he, he, pairOf_nil]
    rfl
  · rw [if_neg he, pairOf]
    cases split ele EQUALS with
    | nil => rfl
    | cons key kv =>
      by_cases hk : key = []
      · simp [hk]
      · simp only [hk, if_false]
        cases kv with
        | nil => rfl
        | cons val _ => by_cases hv : val = [] <;> simp [hv]

theorem addFirst_eq (res : Map Bytes Bytes) (ele : Bytes) :
    addFirst res ele = ((pairOf ele).map fun e => emplace res e.1 e.2).getD res := by
  unfold addFirst
  by_cases he : ele = []
  · rw [if_pos he, he, pairOf_nil]
    rfl
  · rw [if_neg he, pairOf]
    cases split ele EQUALS with
    | nil => rfl
    | cons key kv =>
      by_cases hk : key = []
      · simp [hk]
      · simp only [hk, if_false, false_or]
        by_cases hm : key ∈ res
        · rw [if_pos hm, Option.map_some, Option.getD_some, emplace, if_pos hm]
        · rw [if_neg hm]
          cases kv with
          | nil => rfl
          | cons val _ => by_cases hv : val = [] <;> simp [hv]

/-- A loop over the pieces is one over the pairs. -/
theorem foldl_pairs {β : Type} {f : β → Bytes → β} {g : β → Bytes × Bytes → β}
    (h : ∀ b ele, f b ele = ((pairOf ele).map (g b)).getD b) (b : β) (arr : List Bytes) :
    arr.foldl f b = (arr.filterMap pairOf).foldl g b := by
  induction arr generalizing b with
  | nil => rfl
  | cons ele arr ih =>
    rw [List.foldl_cons, h, ih]
    cases he : pairOf ele with
    | none =>
      rw [List.filterMap_cons_none he]
      rfl
    | some e =>
      rw [List.filterMap_cons_some he]
      rfl

theorem splitQueryStrict_eq (query : Bytes) : splitQueryStrict query = pushAll ∅ (pairsOf query) := by
  unfold splitQueryStrict
  split
  · rename_i h
    rw [h]
    rfl
  · exact foldl_pairs addStrict_eq ∅ _

theorem splitQuery_eq (query : Bytes) : splitQuery query = emplaceAll ∅ (pairsOf query) := by
  unfold splitQuery
  split
  · rename_i h
    rw [h]
    rfl
  · exact foldl_pairs addFirst_eq ∅ _

theorem splitQueryStrict_lookup (query key : Bytes) :
    (splitQueryStrict query).lookup key = group (pairsOf query) key := by
  rw [splitQueryStrict_eq, pushAll_empty]

theorem splitQuery_lookup (query key : Bytes) :
    (splitQuery query).lookup key = (valuesOf key (pairsOf query)).head? := by
  rw [splitQuery_eq, emplaceAll_empty]

/-- **The two splitters agree**: on the keys, and on the first value of each. -/
theorem query_splitters_agree (q : Bytes) : (∀ key, key ∈ splitQuery q ↔ key ∈ splitQueryStrict q) ∧
    ∀ key vals, (splitQueryStrict q).lookup key = some vals → vals ≠ [] ∧ (splitQuery q).lookup key = vals.head? := by
  refine ⟨fun key => ?_, fun key vals h => ?_⟩
  · rw [← AList.lookup_isSome, ← AList.lookup_isSome, splitQueryStrict_lookup, splitQuery_lookup, group]
    cases valuesOf key (pairsOf q) with
    | nil => exact Iff.rfl
    | cons v vs => exact ⟨fun _ => rfl, fun _ => rfl⟩
  · rw [splitQueryStrict_lookup, group] at h
    rw [splitQuery_lookup]
    split at h
    · cases h
    · rename_i hne
      cases h
      exact ⟨hne, rfl⟩

/-! ## Queries made of pairs -/

/-- `k=v`. -/
def pairText (e : Bytes × Bytes) : Bytes := e.1 ++ EQUALS :: e.2

/-- The pairs, joined by `&`. -/
def queryText (l : List (Bytes × Bytes)) : Bytes := [AMP].intercalate (l.map pairText)

/-- A pair that the separators leave in one piece, its key before the first `=`. -/
structure Separable (e : Bytes × Bytes) : Prop where
  key : e.1 ≠ []
  key_amp : AMP ∉ e.1
  key_equals : EQUALS ∉ e.1
  value : AMP ∉ e.2

theorem splitOn_head (s : Bytes) (sep : UInt8) : (s.splitOn sep).headD [] = s.takeWhile (· != sep) := by
  induction s with
  | nil => rfl
  | cons b s ih =>
    rw [List.splitOn_cons_eq_if_modifyHead]
    by_cases hb : b = sep
    · rw [if_pos (beq_iff_eq.2 hb), hb, List.takeWhile_cons_of_neg (by simp)]
      rfl
    · rw [if_neg (by simpa using hb), List.takeWhile_cons_of_pos (by simpa using hb), ← ih]
      obtain ⟨p, ps, hp⟩ := List.exists_cons_of_ne_nil (List.splitOn_ne_nil sep s)
      rw [hp]
      rfl

theorem Separable.pairOf {e : Bytes × Bytes} (h : Separable e) :
    pairOf (pairText e) = some (e.1, e.2.takeWhile (· != EQUALS)) := by
  unfold URIParser.pairOf pairText
  rw [split_eq, List.splitOn_append_cons_self_of_not_mem h.key_equals]
  simp only [if_neg h.key, splitOn_head]

theorem Separable.amp {e : Bytes × Bytes} (h : Separable e) : AMP ∉ pairText e := by
  unfold pairText
  rw [List.mem_append, List.mem_cons]
  rintro (hm | hm | hm)
  · exact h.key_amp hm
  · cases hm
  · exact h.value hm

/-- **What is found in a query made of pairs**: of each value, what stands before an `=`. -/
theorem pairsOf_queryText {l : List (Bytes × Bytes)} (h : ∀ e ∈ l, Separable e) :
    pairsOf (queryText l) = l.map fun e => (e.1, e.2.takeWhile (· != EQUALS)) := by
  unfold pairsOf queryText
  cases l with
  | nil => rfl
  | cons e l =>
    have hfree : ∀ p ∈ (e :: l).map pairText, AMP ∉ p := fun p hp => by
      obtain ⟨x, hx, rfl⟩ := List.mem_map.1 hp
      exact (h x hx).amp
    rw [split_eq, List.splitOn_intercalate _ hfree (by simp), List.filterMap_map, ← List.filterMap_eq_map]
    exact List.filterMap_congr fun x hx => (h x hx).pairOf

theorem takeWhile_eq_self {v : Bytes} : v.takeWhile (· != EQUALS) = v ↔ EQUALS ∉ v := by
  rw [List.takeWhile_eq_self_iff]
  exact ⟨fun h hm => by simpa using h _ hm, fun h b hb => by simpa using fun hc : b = EQUALS => h (hc ▸ hb)⟩

/-- Each key of the pairs has its values in order, as they are. -/
def ValuesWhole (l : List (Bytes × Bytes)) : Prop := ∀ key, (splitQueryStrict (queryText l)).lookup key = group l key

/-- **The values are whole exactly when none has an `=` in it.** -/
theorem query_values_whole (l : List (Bytes × Bytes)) (h : ∀ e ∈ l, Separable e) :
    ValuesWhole l ↔ ∀ e ∈ l, EQUALS ∉ e.2 := by
  have hlookup : ∀ key, (splitQueryStrict (queryText l)).lookup key =
      (group l key).map (List.map (List.takeWhile (· != EQUALS))) := fun key => by
    rw [splitQueryStrict_lookup, pairsOf_queryText h]
    exact group_map (w := id) Function.injective_id l key
  constructor
  · intro hw e he
    have hsome := hw e.1
    rw [hlookup] at hsome
    obtain ⟨vals, hvals⟩ := Option.isSome_iff_exists.1 (group_isSome.2 ⟨e, he, rfl⟩)
    rw [hvals, Option.map_some] at hsome
    have hmem : e.2 ∈ vals := by
      unfold group at hvals
      split at hvals
      · cases hvals
      · cases hvals
        exact List.mem_map.2 ⟨e, List.mem_filter.2 ⟨he, by simp⟩, rfl⟩
    have hid : vals.map (List.takeWhile (· != EQUALS)) = vals.map id := by
      rw [List.map_id]
      exact Option.some.inj hsome
    exact takeWhile_eq_self.1 (List.map_inj_left.1 hid e.2 hmem)
  · intro hfree key
    rw [splitQueryStrict_lookup, pairsOf_queryText h]
    have hsame : (l.map fun e => (e.1, e.2.takeWhile (· != EQUALS))) = l.map id :=
      List.map_congr_left fun e he => by rw [takeWhile_eq_self.2 (hfree e he)]; rfl
    rw [hsame, List.map_id]

theorem query_values_whole_fields : ValuesWhole [(ascii "a", ascii "1"), (ascii "b", []), (ascii "a", ascii "2")] ↔
    ∀ e ∈ [(ascii "a", ascii "1"), (ascii "b", []), (ascii "a", ascii "2")], EQUALS ∉ e.2 :=
  query_values_whole _ fun e he => by
    simp only [List.mem_cons, List.not_mem_nil, or_false] at he
    rcases he with rfl | rfl | rfl <;> exact ⟨by decide, by decide, by decide, by decide⟩

/-- `k=a=b` loses the `b`. -/
theorem query_value_cut : (∀ e ∈ [(ascii "k", ascii "a=b")], Separable e) ∧
    (splitQueryStrict (queryText [(ascii "k", ascii "a=b")])).lookup (ascii "k") = some [ascii "a"] ∧
    ¬ValuesWhole [(ascii "k", ascii "a=b")] := by
  have hcut : (splitQueryStrict (queryText [(ascii "k", ascii "a=b")])).lookup (ascii "k") = some [ascii "a"] := by
    decide
  refine ⟨fun e he => ?_, hcut, fun h => ?_⟩
  · rw [List.mem_singleton.1 he]
    exact ⟨by decide, by decide, by decide, by decide⟩
  · have hwhole := h (ascii "k")
    rw [hcut] at hwhole
    exact absurd hwhole (by decide)

/-! ## The round trip -/

def encodePair (e : Bytes × Bytes) : Bytes × Bytes := (urlEncodeComponent e.1, urlEncodeComponent e.2)

/-- Every key and every value decoded. -/
def decodeMap (m : Map Bytes (List Bytes)) : Map Bytes (List Bytes) := mapKeys urlDecode (List.map urlDecode) m

theorem amp_not_encoded (s : Bytes) : AMP ∉ urlEncodeComponent s :=
  urlEncodeWith_free rfl ⟨by decide, by decide, rfl⟩ s

theorem equals_not_encoded (s : Bytes) : EQUALS ∉ urlEncodeComponent s :=
  urlEncodeWith_free rfl ⟨by decide, by decide, rfl⟩ s

theorem urlEncodeComponent_injective : Function.Injective urlEncodeComponent :=
  Function.LeftInverse.injective urlDecode_urlEncodeComponent

theorem Separable.encoded {e : Bytes × Bytes} (h : e.1 ≠ []) : Separable (encodePair e) :=
  ⟨urlEncodeWith_ne_nil h, amp_not_encoded e.1, equals_not_encoded e.1, amp_not_encoded e.2⟩

theorem splitQueryStrict_encoded {l : List (Bytes × Bytes)} (h : ∀ e ∈ l, e.1 ≠ []) (key : Bytes) :
    (splitQueryStrict (queryText (l.map encodePair))).lookup key = group (l.map encodePair) key := by
  have hsep : ∀ e ∈ l.map encodePair, Separable e := fun e he => by
    obtain ⟨x, hx, rfl⟩ := List.mem_map.1 he
    exact Separable.encoded (h x hx)
  have hwhole : l.map encodePair = (l.map encodePair).map fun e => (e.1, e.2.takeWhile (· != EQUALS)) := by
    rw [List.map_map]
    refine List.map_congr_left fun x _ => ?_
    exact congrArg (Prod.mk _) (takeWhile_eq_self.2 (equals_not_encoded x.2)).symm
  rw [splitQueryStrict_lookup, pairsOf_queryText hsep, ← hwhole]

/-- **What the encoder writes into a query, the splitter and the decoder give back.** -/
theorem query_round_trip :
    (∀ s, urlDecode (urlEncode s) = s ∧ urlDecode (urlEncodeComponent s) = s) ∧
      ∀ l : List (Bytes × Bytes), (∀ e ∈ l, e.1 ≠ []) → ∀ key,
        (decodeMap (splitQueryStrict (queryText (l.map encodePair)))).lookup key = group l key := by
  refine ⟨fun s => ⟨urlDecode_urlEncode s, urlDecode_urlEncodeComponent s⟩, fun l h key => ?_⟩
  have written : ∀ k ∈ splitQueryStrict (queryText (l.map encodePair)), urlEncodeComponent (urlDecode k) = k := by
    intro k hk
    rw [← AList.lookup_isSome, splitQueryStrict_encoded h, group_isSome] at hk
    obtain ⟨e, he, rfl⟩ := hk
    obtain ⟨x, -, rfl⟩ := List.mem_map.1 he
    exact congrArg urlEncodeComponent (urlDecode_urlEncodeComponent x.1)
  have hdecode : List.map urlDecode ∘ List.map urlEncodeComponent = id := by
    funext vals
    rw [Function.comp_apply, List.map_map, funext (f := urlDecode ∘ urlEncodeComponent) urlDecode_urlEncodeComponent]
    exact List.map_id' vals
  have hgroup : group (l.map encodePair) (urlEncodeComponent key) = (group l key).map (List.map urlEncodeComponent) :=
    group_map urlEncodeComponent_injective l key
  rw [decodeMap, mapKeys_lookup _ _ written urlDecode_urlEncodeComponent, splitQueryStrict_encoded h, hgroup,
    Option.map_map, hdecode, Option.map_id]
  rfl

theorem query_round_trip_pairs :
    (decodeMap (splitQueryStrict (queryText ([(ascii "a b", ascii "1&2=3"), (ascii "a b", [])].map encodePair)))).lookup
      (ascii "a b") = some [ascii "1&2=3", []] :=
  (query_round_trip.2 [(ascii "a b", ascii "1&2=3"), (ascii "a b", [])]
    (fun e he => by
      simp only [List.mem_cons, List.not_mem_nil, or_false] at he
      rcases he with rfl | rfl <;> decide) (ascii "a b")).trans (by decide)

end URIParser

end Tinywf
