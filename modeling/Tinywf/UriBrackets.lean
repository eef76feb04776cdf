import Tinywf.UriCompose
/-!
# UriBrackets — what `URIParser::parse` copies

Every index that the loops leave lies within the string (`uriCut_ends`), so a copy can only go wrong where the two
brackets of a host are taken off without having been looked for: the closing one is never checked.  The texts with such
a host are `UnclosedHost.text`, and on all others every copy is within the string (`copies_within`).
-/
namespace Tinywf

open CLib

/-! ## The copies -/

/-- The indices with which `parse` comes to the copying loop, if it does. -/
def uriCut (str : Bytes) : Option UriCut :=
  let (c, l) := schemeLoop str .init
  if c.endIdx .scheme = 0 then none
  else
    let c := cutRest l c
    if charsValid str c then some c else none

theorem parse_uriCut (room : UriPart → Nat → Bool) (str : Bytes) (u : ParsedURI) :
    URIParser.parse room str u = match uriCut str with
      | none => some (-1, { u with state := .invalid })
      | some c => storeParts room str c uriParts { u with state := .invalid } := by
  unfold URIParser.parse uriCut
  dsimp only
  split
  · rfl
  · split <;> rfl

/-- The components that are copied, up to the first `realloc` that fails. -/
def copied (room : UriPart → Nat → Bool) (c : UriCut) : List UriPart → List UriPart
  | [] => []
  | p :: ps =>
    if c.startIdx p < c.endIdx p then
      if room p (c.endIdx p - c.startIdx p + 1) then p :: copied room c ps else []
    else copied room c ps

/-- Whether the two brackets are taken off. -/
def Bracketed (str : Bytes) (c : UriCut) (p : UriPart) : Prop := p = .host ∧ str.getD (c.startIdx p) NUL = LBRACKET

instance (str : Bytes) (c : UriCut) (p : UriPart) : Decidable (Bracketed str c p) := inferInstanceAs (Decidable (_ ∧ _))

/-- The offset in the string from which `memcpy` copies component `p`. -/
def copyStart (str : Bytes) (c : UriCut) (p : UriPart) : Int :=
  if Bracketed str c p then c.startIdx p + 1 else c.startIdx p

/-- How many bytes it copies, before the conversion to `size_t`. -/
def copyLength (str : Bytes) (c : UriCut) (p : UriPart) : Int :=
  if Bracketed str c p then (c.endIdx p : Int) - c.startIdx p - 2 else (c.endIdx p : Int) - c.startIdx p

/-- No copy leaves the string, and a host that is accepted with its opening bracket has the closing one. -/
def CopiesWithin (str : Bytes) : Prop := ∀ room c, uriCut str = some c →
  (∀ p ∈ copied room c uriParts, 0 ≤ copyLength str c p ∧ copyStart str c p + copyLength str c p ≤ strlen str) ∧
  (∀ u v, URIParser.parse room str u = some (0, v) → c.startIdx .host < c.endIdx .host → Bracketed str c .host →
    str.getD (c.endIdx .host - 1) NUL = RBRACKET)

/-! ## Every index is within the string -/

/-- The loops at `l` in a string of `n` bytes. -/
structure Within (n : Nat) (l : Bytes) (c : UriCut) : Prop where
  place : c.i + l.length = n
  ends : ∀ p, c.endIdx p ≤ n

theorem strlen_le (l : Bytes) : strlen l ≤ l.length := by
  unfold strlen cstr
  exact (List.takeWhile_sublist _).length_le

theorem Within.setEnd {n : Nat} {l : Bytes} {c : UriCut} (h : Within n l c) (p : UriPart) {k : Nat} (hk : k ≤ n) :
    Within n l (c.setEnd p k) := by
  refine ⟨h.place, fun q => ?_⟩
  rw [UriCut.setEnd_endIdx]
  split
  · exact hk
  · exact h.ends q

theorem Within.next {n : Nat} {b : UInt8} {l : Bytes} {c : UriCut} (h : Within n (b :: l) c) : Within n l c.next := by
  have := h.place
  refine ⟨?_, h.ends⟩
  rw [UriCut.next_i]
  rw [List.length_cons] at this
  omega

theorem Within.le {n : Nat} {l : Bytes} {c : UriCut} (h : Within n l c) : c.i ≤ n := by
  have := h.place
  omega

theorem schemeLoop_within {n : Nat} : ∀ (l : Bytes) (c : UriCut), Within n l c →
    Within n (schemeLoop l c).2 (schemeLoop l c).1
  | [], _, h => h
  | b :: l, c, h => by
    rw [schemeLoop]
    split
    · exact h
    · split
      · exact (h.setEnd .scheme h.le).next
      · exact schemeLoop_within l c.next h.next

theorem Within.atUserinfo {n : Nat} {l : Bytes} {c : UriCut} (h : Within n l c) (a : UInt8) : Within n l (c.atUserinfo a) := by
  refine ⟨by rw [UriCut.atUserinfo_i]; exact h.place, fun p => ?_⟩
  rw [UriCut.atUserinfo_endIdx]
  split
  · exact h.le
  · exact h.ends p

theorem Within.atHost {n : Nat} {l : Bytes} {c : UriCut} (h : Within n l c) (e : UInt8) : Within n l (c.atHost e) := by
  rw [UriCut.atHost_eq]
  split
  · exact h
  · refine ⟨h.place, fun p => ?_⟩
    rw [UriCut.endHost_endIdx]
    split
    · exact h.le
    · exact h.ends p

theorem Within.atQuery {n : Nat} {l : Bytes} {c : UriCut} (h : Within n l c) : Within n l c.atQuery := by
  refine ⟨h.place, fun p => ?_⟩
  rw [UriCut.atQuery_endIdx]
  split
  · exact h.le
  · exact h.ends p

theorem Within.atFragment {n : Nat} {l : Bytes} {c : UriCut} (h : Within n l c) : Within n l (c.atFragment (strlen l)) := by
  have hl := h.place
  have hs := strlen_le l
  refine ⟨h.place, fun p => ?_⟩
  simp only [UriCut.atFragment, UriCut.enter_endIdx, UriCut.setEnd_endIdx, UriCut.setStart_endIdx]
  split
  · show c.i + strlen l ≤ n
    omega
  · split
    · exact h.le
    · exact h.ends p

theorem authorityLoop_within {n : Nat} : ∀ (l : Bytes) (e : UInt8) (c : UriCut), Within n l c →
    Within n (authorityLoop e l c).2 (authorityLoop e l c).1
  | [], _, _, h => ⟨h.place, h.ends⟩
  | b :: l, e, c, h => by
    rw [authorityLoop]
    cases authorityMap b with
    | scheme => exact authorityLoop_within l b _ h.next
    | userinfo => exact authorityLoop_within l b _ (h.atUserinfo _).next
    | host => exact authorityLoop_within l b _ (h.atHost e).next
    | port => exact h
    | query => exact authorityLoop_within l b _ h.atQuery.next
    | fragment => exact h.atFragment
    | path =>
      dsimp only
      split
      · exact authorityLoop_within l b _ h.next
      · exact ⟨h.place, h.ends⟩
    | elements => exact ⟨h.place, h.ends⟩

theorem queryScan_within {n : Nat} : ∀ (l : Bytes) (b : UInt8) (i : Nat), i + (l.length + 1) = n →
    (queryScan b l i).2.2 + ((queryScan b l i).2.1.length + 1) = n
  | [], _, _, h => h
  | d :: l, b, i, h => by
    rw [queryScan]
    rw [List.length_cons] at h
    split
    · exact h
    · split
      · show i + 1 + (l.length + 1) = n
        omega
      · exact queryScan_within l d (i + 1) (by omega)

theorem Within.close {n : Nat} {l : Bytes} {c : UriCut} (h : Within n l c) : Within n l c.close := by
  unfold UriCut.close
  split
  · exact h
  · exact h.setEnd _ h.le

/-- What one turn of the path loop does behind the `?`, if there was one. -/
theorem pathTurn_within {n k : Nat} {d : UInt8} {l : Bytes} {c : UriCut} (h : Within n (d :: l) c)
    (ih : Within n l c.next → Within n (pathLoop k l c.next).2 (pathLoop k l c.next).1) :
    let r := if d = HASH then (((c.setEnd c.preState c.i).setStart .fragment (c.i + 1)).enter .fragment, d :: l)
      else pathLoop k l c.next
    Within n r.2 r.1 := by
  dsimp only
  split
  · exact ⟨h.place, (h.setEnd c.preState h.le).ends⟩
  · exact ih h.next

theorem pathLoop_within {n : Nat} : ∀ (k : Nat) (l : Bytes) (c : UriCut), Within n l c →
    Within n (pathLoop k l c).2 (pathLoop k l c).1
  | _, [], _, h => by rw [pathLoop]; exact h
  | 0, _ :: _, _, h => h
  | k + 1, b :: l, c, h => by
    rw [pathLoop]
    split
    · exact h
    · by_cases hq : b = QUESTION
      · simp only [if_pos hq]
        have hs := queryScan_within l b c.i (n := n) (by have := h.place; rw [List.length_cons] at this; exact this)
        generalize queryScan b l c.i = r at hs ⊢
        obtain ⟨d, l', i⟩ := r
        have hc : Within n (d :: l') { ((c.setEnd .path c.i).setStart .query (c.i + 1)).enter .query with i := i } :=
          ⟨hs, (h.setEnd .path h.le).ends⟩
        exact pathTurn_within hc fun h' => pathLoop_within k l' _ h'
      · simp only [if_neg hq]
        exact pathTurn_within h fun h' => pathLoop_within k l c.next h'

theorem cutPath_within {n : Nat} {r : UriCut × Bytes} (h : Within n r.2 r.1) (p : UriPart) :
    (cutPath r).endIdx p ≤ n := by
  unfold cutPath
  dsimp only
  split
  · exact h.close.ends p
  · have hl := pathLoop_within r.2.length r.2 (r.1.close.enter .path) ⟨h.close.place, h.close.ends⟩
    have hp := hl.place
    have hs := strlen_le (pathLoop r.2.length r.2 (r.1.close.enter .path)).2
    exact (hl.setEnd _ (by omega)).ends p

theorem cutAuthority_within {n : Nat} {l : Bytes} {c : UriCut} (h : Within n l c) :
    Within n (cutAuthority l c).2 (cutAuthority l c).1 := by
  unfold cutAuthority
  split
  · exact authorityLoop_within l SLASH c h
  · exact h

theorem openAuthority_within {n : Nat} {a b : UInt8} {l : Bytes} {c : UriCut} (h : Within n (a :: b :: l) c) (x : UInt8) :
    Within n l (c.openAuthority x) := by
  have := h.place
  simp only [List.length_cons] at this
  unfold UriCut.openAuthority
  dsimp only
  split
  · exact ⟨show c.i + 2 + l.length = n by omega, h.ends⟩
  · exact ⟨show c.i + 2 + l.length = n by omega, h.ends⟩

theorem cutRest_within {n : Nat} {l : Bytes} {c : UriCut} (h : Within n l c) (p : UriPart) : (cutRest l c).endIdx p ≤ n := by
  unfold cutRest
  split
  · exact cutPath_within (cutAuthority_within (openAuthority_within h _)) p
  · have hp : Within n l ((c.enter .path).setStart .path c.i) := ⟨h.place, h.ends⟩
    exact cutPath_within (cutAuthority_within hp) p

/-- **Every index is within the string.** -/
theorem uriCut_ends {str : Bytes} {c : UriCut} (h : uriCut str = some c) (p : UriPart) : c.endIdx p ≤ str.length := by
  have hs := schemeLoop_within str .init (n := str.length) ⟨Nat.zero_add _, fun _ => Nat.zero_le _⟩
  unfold uriCut at h
  rcases hq : schemeLoop str .init with ⟨d, l⟩
  rw [hq] at h hs
  dsimp only at h
  split at h
  · cases h
  · split at h
    · cases h
      exact cutRest_within hs p
    · cases h

theorem copied_room (room : UriPart → Nat → Bool) (c : UriCut) : ∀ (ps : List UriPart) (p : UriPart), p ∈ copied room c ps →
    c.startIdx p < c.endIdx p
  | [], _, h => by cases h
  | q :: ps, p, h => by
    rw [copied] at h
    split at h
    · rename_i hlt
      split at h
      · rcases List.mem_cons.1 h with rfl | h
        · exact hlt
        · exact copied_room room c ps p h
      · cases h
    · exact copied_room room c ps p h

/-- The indices of a host that has its opening bracket and not the closing one. -/
def HostUnclosed (str : Bytes) (c : UriCut) : Prop := c.startIdx .host < c.endIdx .host ∧
  str.getD (c.startIdx .host) NUL = LBRACKET ∧ str.getD (c.endIdx .host - 1) NUL ≠ RBRACKET

/-- **Only such a host makes a copy go wrong.** -/
theorem copiesWithin_iff {str : Bytes} (h0 : NUL ∉ str) :
    CopiesWithin str ↔ ¬ ∃ c, uriCut str = some c ∧ HostUnclosed str c := by
  have hlen := strlen_clean h0
  constructor
  · rintro hw ⟨c, hc, hlt, hopen, hclose⟩
    obtain ⟨hcopy, hacc⟩ := hw (fun _ _ => true) c hc
    have hb : Bracketed str c .host := ⟨rfl, hopen⟩
    have hmem : ∀ (ps : List UriPart) (p : UriPart), p ∈ ps → c.startIdx p < c.endIdx p →
        p ∈ copied (fun _ _ => true) c ps := by
      intro ps
      induction ps with
      | nil => intro p hp; cases hp
      | cons q ps ih =>
        intro p hp hlt
        rw [copied]
        rcases List.mem_cons.1 hp with rfl | hp
        · rw [if_pos hlt, if_pos rfl]
          exact List.mem_cons_self
        · split
          · exact List.mem_cons_of_mem _ (ih p hp hlt)
          · exact ih p hp hlt
    have h2 := (hcopy .host (hmem uriParts .host (by decide) hlt)).1
    rw [copyLength, if_pos hb] at h2
    have hst : storeParts (fun _ _ => true) str c uriParts { ParsedURI.fresh with state := .invalid } =
        some (0, storedAs str c 0) := by
      rw [storeParts_all]
      refine ⟨fun p _ _ => ⟨rfl, ?_⟩, rfl⟩
      rintro rfl -
      omega
    refine hclose (hacc .fresh (storedAs str c 0) ?_ hlt hb)
    rw [parse_uriCut, hc]
    exact hst
  · intro hno room c hc
    have hclosed (hlt : c.startIdx .host < c.endIdx .host) (hb : Bracketed str c .host) :
        str.getD (c.endIdx .host - 1) NUL = RBRACKET := by
      by_contra hne
      exact hno ⟨c, hc, hlt, hb.2, hne⟩
    refine ⟨fun p hp => ?_, fun _ _ _ hlt hb => hclosed hlt hb⟩
    have hlt := copied_room room c uriParts p hp
    have hle := uriCut_ends hc p
    rw [hlen]
    unfold copyLength copyStart
    by_cases hb : Bracketed str c p
    · rw [if_pos hb, if_pos hb]
      have hp := hb.1
      subst hp
      -- a bracket is not its own closing one
      have hne : c.endIdx .host - 1 ≠ c.startIdx .host := by
        intro he
        have := hclosed hlt hb
        rw [he, hb.2] at this
        cases this
      omega
    · rw [if_neg hb, if_neg hb]
      omega

end Tinywf
