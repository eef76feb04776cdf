import Tinywf.UriParser
/-!
# UriAuthority — what follows the authority cannot change it

A `/` or a `#` leaves the authority loop, but a `?` does not, and after it every `@` and every effective `:` still
rewrites the userinfo, host and port indices.  Such a rewrite moves an end index behind the `?` while the start index
stays before it (`Forged`), so the component now holds a `?`, which no table allows, and nothing later takes it out
again (`atUserinfo_forged`, `atHost_forged`).  Otherwise the four checked components are those the authority alone has.
-/
namespace Tinywf
open CLib

/-! ## Indices -/

namespace UriCut

@[simp] theorem setStart_startIdx (c : UriCut) (p q : UriPart) (k : Nat) :
    (c.setStart p k).startIdx q = if q = p then k else c.startIdx q := by
  simp only [setStart, Function.update_apply]

@[simp] theorem setStart_endIdx (c : UriCut) (p : UriPart) (k : Nat) : (c.setStart p k).endIdx = c.endIdx := rfl

@[simp] theorem setEnd_endIdx (c : UriCut) (p q : UriPart) (k : Nat) :
    (c.setEnd p k).endIdx q = if q = p then k else c.endIdx q := by
  simp only [setEnd, Function.update_apply]

@[simp] theorem setEnd_startIdx (c : UriCut) (p : UriPart) (k : Nat) : (c.setEnd p k).startIdx = c.startIdx := rfl

@[simp] theorem setStart_i (c : UriCut) (p : UriPart) (k : Nat) : (c.setStart p k).i = c.i := rfl

@[simp] theorem setEnd_i (c : UriCut) (p : UriPart) (k : Nat) : (c.setEnd p k).i = c.i := rfl

@[simp] theorem setStart_preState (c : UriCut) (p : UriPart) (k : Nat) : (c.setStart p k).preState = c.preState := rfl

@[simp] theorem setEnd_preState (c : UriCut) (p : UriPart) (k : Nat) : (c.setEnd p k).preState = c.preState := rfl

@[simp] theorem setStart_skipPath (c : UriCut) (p : UriPart) (k : Nat) : (c.setStart p k).skipPath = c.skipPath := rfl

@[simp] theorem setEnd_skipPath (c : UriCut) (p : UriPart) (k : Nat) : (c.setEnd p k).skipPath = c.skipPath := rfl

@[simp] theorem setStart_inIpv6 (c : UriCut) (p : UriPart) (k : Nat) : (c.setStart p k).inIpv6 = c.inIpv6 := rfl

@[simp] theorem setEnd_inIpv6 (c : UriCut) (p : UriPart) (k : Nat) : (c.setEnd p k).inIpv6 = c.inIpv6 := rfl

@[simp] theorem enter_startIdx (c : UriCut) (p : UriPart) : (c.enter p).startIdx = c.startIdx := rfl

@[simp] theorem enter_endIdx (c : UriCut) (p : UriPart) : (c.enter p).endIdx = c.endIdx := rfl

@[simp] theorem enter_i (c : UriCut) (p : UriPart) : (c.enter p).i = c.i := rfl

@[simp] theorem enter_preState (c : UriCut) (p : UriPart) : (c.enter p).preState = p := rfl

@[simp] theorem enter_skipPath (c : UriCut) (p : UriPart) : (c.enter p).skipPath = c.skipPath := rfl

@[simp] theorem enter_inIpv6 (c : UriCut) (p : UriPart) : (c.enter p).inIpv6 = c.inIpv6 := rfl

@[simp] theorem next_startIdx (c : UriCut) : c.next.startIdx = c.startIdx := rfl

@[simp] theorem next_endIdx (c : UriCut) : c.next.endIdx = c.endIdx := rfl

@[simp] theorem next_i (c : UriCut) : c.next.i = c.i + 1 := rfl

@[simp] theorem next_preState (c : UriCut) : c.next.preState = c.preState := rfl

@[simp] theorem next_skipPath (c : UriCut) : c.next.skipPath = c.skipPath := rfl

@[simp] theorem next_inIpv6 (c : UriCut) : c.next.inIpv6 = c.inIpv6 := rfl

@[simp] theorem close_i (c : UriCut) : c.close.i = c.i := by unfold close; split <;> rfl

@[simp] theorem close_skipPath (c : UriCut) : c.close.skipPath = c.skipPath := by unfold close; split <;> rfl

@[simp] theorem close_startIdx (c : UriCut) : c.close.startIdx = c.startIdx := by unfold close; split <;> rfl

theorem close_endIdx (c : UriCut) (h : c.preState ≠ .elements) (q : UriPart) :
    c.close.endIdx q = if q = c.preState then c.i else c.endIdx q := by
  rw [close, if_neg h, setEnd_endIdx]

@[simp] theorem atQuery_startIdx (c : UriCut) (q : UriPart) :
    c.atQuery.startIdx q = if q = .query then c.i + 1 else c.startIdx q := by
  simp [atQuery]

@[simp] theorem atQuery_endIdx (c : UriCut) (q : UriPart) :
    c.atQuery.endIdx q = if q = c.preState then c.i else c.endIdx q := by
  simp [atQuery]

@[simp] theorem atQuery_i (c : UriCut) : c.atQuery.i = c.i := rfl

@[simp] theorem atQuery_preState (c : UriCut) : c.atQuery.preState = .query := rfl

@[simp] theorem atQuery_skipPath (c : UriCut) : c.atQuery.skipPath = true := rfl

@[simp] theorem atQuery_inIpv6 (c : UriCut) : c.atQuery.inIpv6 = c.inIpv6 := rfl

@[simp] theorem atUserinfo_startIdx (c : UriCut) (a : UInt8) (q : UriPart) :
    (c.atUserinfo a).startIdx q = if q = .host then c.i + 1 else c.startIdx q := by
  unfold atUserinfo; dsimp only; split <;> simp

@[simp] theorem atUserinfo_endIdx (c : UriCut) (a : UInt8) (q : UriPart) :
    (c.atUserinfo a).endIdx q = if q = .userinfo then c.i else c.endIdx q := by
  unfold atUserinfo; dsimp only; split <;> simp

@[simp] theorem atUserinfo_i (c : UriCut) (a : UInt8) : (c.atUserinfo a).i = c.i := by
  unfold atUserinfo; dsimp only; split <;> rfl

@[simp] theorem atUserinfo_preState (c : UriCut) (a : UInt8) : (c.atUserinfo a).preState = .host := rfl

@[simp] theorem atUserinfo_skipPath (c : UriCut) (a : UInt8) : (c.atUserinfo a).skipPath = c.skipPath := by
  unfold atUserinfo; dsimp only; split <;> rfl

@[simp] theorem atUserinfo_inIpv6 (c : UriCut) (a : UInt8) :
    (c.atUserinfo a).inIpv6 = (decide (a = LBRACKET) || c.inIpv6) := by
  unfold atUserinfo
  dsimp only
  split <;> simp [*]

/-- What an effective `:` does. -/
def endHost (c : UriCut) : UriCut :=
  ((({ c with inIpv6 := false } : UriCut).setEnd .host c.i).setStart .port (c.i + 1)).enter .port

/-- Inside a bracketed host a `:` has no effect, except behind the closing bracket. -/
theorem atHost_eq (c : UriCut) (b : UInt8) :
    c.atHost b = if c.inIpv6 = true ∧ b ≠ RBRACKET then c else c.endHost := by
  unfold atHost endHost
  by_cases hb : b = RBRACKET
  · simp [hb]
  · cases hc : c.inIpv6 with
    | true => simp [hb, hc]
    | false =>
      have he : ({ c with inIpv6 := false } : UriCut) = c := by rw [← hc]
      simp [hb, hc, he]

@[simp] theorem endHost_startIdx (c : UriCut) (q : UriPart) :
    c.endHost.startIdx q = if q = .port then c.i + 1 else c.startIdx q := by
  simp [endHost]

@[simp] theorem endHost_endIdx (c : UriCut) (q : UriPart) :
    c.endHost.endIdx q = if q = .host then c.i else c.endIdx q := by
  simp [endHost]

@[simp] theorem endHost_i (c : UriCut) : c.endHost.i = c.i := rfl

@[simp] theorem endHost_preState (c : UriCut) : c.endHost.preState = .port := rfl

@[simp] theorem endHost_skipPath (c : UriCut) : c.endHost.skipPath = c.skipPath := rfl

@[simp] theorem endHost_inIpv6 (c : UriCut) : c.endHost.inIpv6 = false := rfl

@[simp] theorem atHost_i (c : UriCut) (b : UInt8) : (c.atHost b).i = c.i := by
  rw [atHost_eq]; split <;> rfl

@[simp] theorem atHost_skipPath (c : UriCut) (b : UInt8) : (c.atHost b).skipPath = c.skipPath := by
  rw [atHost_eq]; split <;> rfl

end UriCut

/-! ## The class of a byte -/

theorem authorityMap_port (b : UInt8) : authorityMap b ≠ .port := by
  unfold authorityMap
  repeat' split
  all_goals simp

/-- The bytes an authority is made of. -/
def inAuthority (b : UInt8) : Bool := b != SLASH && b != QUESTION && b != HASH

/-- The part of `rest` before its first `/`, `?` or `#`. -/
def authorityOf (rest : Bytes) : Bytes := rest.takeWhile inAuthority

/-- Within an authority only `@` and `:` do anything. -/
theorem authorityMap_inAuthority {b : UInt8} (h : inAuthority b = true) (h0 : b ≠ NUL) :
    authorityMap b = .scheme ∨ authorityMap b = .userinfo ∨ authorityMap b = .host := by
  simp only [inAuthority, Bool.and_eq_true, bne_iff_ne] at h
  unfold authorityMap
  rw [if_neg h0, if_neg h.2, if_neg h.1.1]
  split
  · exact Or.inr (Or.inr rfl)
  · rw [if_neg h.1.2]
    split
    · exact Or.inr (Or.inl rfl)
    · exact Or.inl rfl

/-- What stands behind an authority: nothing, a `/`, a `?` or a `#`. -/
theorem authorityOf_rest (rest : Bytes) (h0 : NUL ∉ rest) : ∃ t, rest = authorityOf rest ++ t ∧
    (∀ b ∈ authorityOf rest, inAuthority b = true ∧ b ≠ NUL) ∧
    (t = [] ∨ ∃ b l, t = b :: l ∧ (b = SLASH ∨ b = QUESTION ∨ b = HASH)) := by
  refine ⟨rest.dropWhile inAuthority, (List.takeWhile_append_dropWhile ..).symm, fun b hb => ?_, ?_⟩
  · exact ⟨List.mem_takeWhile_imp hb, fun e => h0 (e ▸ (List.takeWhile_subset _ hb))⟩
  · cases ht : rest.dropWhile inAuthority with
    | nil => exact Or.inl rfl
    | cons b l =>
      have hb : inAuthority b = false := by
        have := List.head_dropWhile_not inAuthority (l := rest) (by rw [ht]; simp)
        simpa [ht] using this
      refine Or.inr ⟨b, l, rfl, ?_⟩
      simp only [inAuthority, Bool.and_eq_false_iff, bne_eq_false_iff_eq] at hb
      tauto

/-! ## Over the authority -/

/-- The authority loop before it has met a `/`, a `?` or a `#`. -/
structure InHead (c : UriCut) : Prop where
  pre : c.preState = .host ∨ c.preState = .port
  path : c.skipPath = false
  userinfo : c.startIdx .userinfo ≤ c.i
  host : c.startIdx .host ≤ c.i
  later : ∀ p, p = .query ∨ p = .fragment ∨ p = .path → c.startIdx p = 0 ∧ c.endIdx p = 0
  ends : ∀ p, c.endIdx p ≤ c.i

theorem InHead.pre_checked {c : UriCut} (h : InHead c) :
    c.preState ≠ .elements ∧ c.preState ≠ .fragment ∧ c.preState ≠ .query ∧ c.preState ≠ .path := by
  rcases h.pre with h | h <;> rw [h] <;> decide

theorem InHead.next {c : UriCut} (h : InHead c) : InHead c.next :=
  ⟨h.pre, h.path, Nat.le_succ_of_le h.userinfo, Nat.le_succ_of_le h.host, h.later,
    fun p => Nat.le_succ_of_le (h.ends p)⟩

theorem InHead.atUserinfo {c : UriCut} (h : InHead c) (a : UInt8) : InHead (c.atUserinfo a).next := by
  refine ⟨Or.inl rfl, by simpa using h.path, ?_, by simp, fun p hp => ?_, fun p => ?_⟩
  · simpa using Nat.le_succ_of_le h.userinfo
  · have := h.later p hp
    rcases hp with rfl | rfl | rfl <;> simpa using this
  · have := h.ends p
    simp only [UriCut.next_endIdx, UriCut.atUserinfo_endIdx, UriCut.next_i, UriCut.atUserinfo_i]
    split <;> omega

theorem InHead.atHost {c : UriCut} (h : InHead c) (b : UInt8) : InHead (c.atHost b).next := by
  rw [UriCut.atHost_eq]
  split
  · exact h.next
  · refine ⟨Or.inr rfl, by simpa using h.path, ?_, ?_, fun p hp => ?_, fun p => ?_⟩
    · simpa using Nat.le_succ_of_le h.userinfo
    · simpa using Nat.le_succ_of_le h.host
    · have := h.later p hp
      rcases hp with rfl | rfl | rfl <;> simpa using this
    · have := h.ends p
      simp only [UriCut.next_endIdx, UriCut.endHost_endIdx, UriCut.next_i, UriCut.endHost_i]
      split <;> omega

/-- **Over an authority the loop does the same whatever stands behind it**, as long as that is no bracket. -/
theorem authorityLoop_head : ∀ (a : Bytes) (behind : UInt8) (c : UriCut), InHead c →
    (∀ b ∈ a, inAuthority b = true ∧ b ≠ NUL) →
    ∃ d behind', InHead d ∧ d.i = c.i + a.length ∧ ∀ t : Bytes, t.headD NUL ≠ LBRACKET →
      authorityLoop behind (a ++ t) c = authorityLoop behind' t d
  | [], behind, c, hc, _ => ⟨c, behind, hc, rfl, fun _ _ => rfl⟩
  | b :: a, behind, c, hc, ha => by
    have hb := ha b List.mem_cons_self
    have ha' : ∀ x ∈ a, inAuthority x = true ∧ x ≠ NUL := fun x hx => ha x (List.mem_cons_of_mem b hx)
    rcases authorityMap_inAuthority hb.1 hb.2 with h | h | h
    · obtain ⟨d, e, hd, hi, ht⟩ := authorityLoop_head a b c.next hc.next ha'
      refine ⟨d, e, hd, by rw [hi, UriCut.next_i, List.length_cons]; omega, fun t h1 => ?_⟩
      rw [List.cons_append, authorityLoop, h]
      exact ht t h1
    · -- the loop looks one byte ahead, into `a` or, at its end, into what stands behind
      obtain ⟨d, e, hd, hi, ht⟩ := authorityLoop_head a b _ (hc.atUserinfo (a.headD NUL)) ha'
      refine ⟨d, e, hd, by rw [hi, UriCut.next_i, UriCut.atUserinfo_i, List.length_cons]; omega, fun t h1 => ?_⟩
      rw [List.cons_append, authorityLoop, h]
      have hahead : c.atUserinfo ((a ++ t).headD NUL) = c.atUserinfo (a.headD NUL) := by
        cases a with
        | nil =>
          dsimp only [UriCut.atUserinfo, List.nil_append, List.headD_nil]
          rw [if_neg h1, if_neg (show NUL ≠ LBRACKET by decide)]
        | cons x a => rfl
      dsimp only
      rw [hahead]
      exact ht t h1
    · obtain ⟨d, e, hd, hi, ht⟩ := authorityLoop_head a b _ (hc.atHost behind) ha'
      refine ⟨d, e, hd, by rw [hi, UriCut.next_i, UriCut.atHost_i, List.length_cons]; omega, fun t h1 => ?_⟩
      rw [List.cons_append, authorityLoop, h]
      exact ht t h1

/-! ## Behind a `?` -/

/-- A checked component covers position `q`. -/
def Forged (q : Nat) (c : UriCut) : Prop :=
  ∃ p ∈ [UriPart.userinfo, .host], c.startIdx p ≤ q ∧ q < c.endIdx p

/-- The checked components are the same. -/
def SameChecked (c d : UriCut) : Prop := ∀ p ∈ checkedParts, c.startIdx p = d.startIdx p ∧ c.endIdx p = d.endIdx p

/-- The authority loop behind the `?` at `q`, where the checked components were those of `d`. -/
structure Behind (q : Nat) (d c : UriCut) : Prop where
  passed : q < c.i
  skip : c.skipPath = true
  userinfo : c.startIdx .userinfo ≤ q
  checked : Forged q c ∨ (c.preState = .query ∧ c.startIdx .host ≤ q ∧ SameChecked c d)

theorem Behind.next {q : Nat} {d c : UriCut} (h : Behind q d c) : Behind q d c.next :=
  ⟨Nat.lt_succ_of_lt h.passed, h.skip, h.userinfo, h.checked⟩

/-- **An `@` behind the `?` puts the `?` into the userinfo.** -/
theorem Behind.atUserinfo {q : Nat} {d c : UriCut} (h : Behind q d c) (a : UInt8) : Forged q (c.atUserinfo a) :=
  ⟨.userinfo, by simp, by simpa using h.userinfo, by simpa using h.passed⟩

/-- Setting an end index to where the loop is takes nothing out of a component. -/
theorem Forged.setEnd {q : Nat} {c : UriCut} (h : Forged q c) (p : UriPart) {k : Nat} (hk : q < k) :
    Forged q (c.setEnd p k) := by
  obtain ⟨r, hr, h1, h2⟩ := h
  refine ⟨r, hr, h1, ?_⟩
  rw [UriCut.setEnd_endIdx]
  split <;> assumption

theorem Forged.endHost {q : Nat} {c : UriCut} (h : Forged q c) (hi : q < c.i) : Forged q c.endHost := by
  obtain ⟨r, hr, h1, h2⟩ := h
  refine ⟨r, hr, ?_, ?_⟩
  · simp only [List.mem_cons, List.not_mem_nil, or_false] at hr
    rcases hr with rfl | rfl <;> simpa using h1
  · rw [UriCut.endHost_endIdx]
    split <;> assumption

/-- **An effective `:` behind the `?` puts the `?` into the host.** -/
theorem Behind.endHost {q : Nat} {d c : UriCut} (h : Behind q d c) : Forged q c.endHost := by
  rcases h.checked with hf | ⟨_, hh, _⟩
  · exact hf.endHost h.passed
  · exact ⟨.host, by simp, by simpa using hh, by simpa using h.passed⟩

theorem Behind.of_forged {q : Nat} {d c e : UriCut} (h : Behind q d c) (hf : Forged q e) (hi : e.i = c.i)
    (hs : e.skipPath = c.skipPath) (hu : e.startIdx .userinfo = c.startIdx .userinfo) : Behind q d e :=
  ⟨hi ▸ h.passed, hs.trans h.skip, hu ▸ h.userinfo, Or.inl hf⟩

theorem Behind.atHost {q : Nat} {d c : UriCut} (h : Behind q d c) (b : UInt8) : Behind q d (c.atHost b) := by
  rw [UriCut.atHost_eq]
  split
  · exact h
  · exact h.of_forged h.endHost rfl rfl (by simp)

/-- A further `?` only moves the start of the query. -/
theorem Behind.atQuery {q : Nat} {d c : UriCut} (h : Behind q d c) : Behind q d c.atQuery := by
  refine ⟨h.passed, rfl, by simpa using h.userinfo, ?_⟩
  rcases h.checked with ⟨r, hr, h1, h2⟩ | ⟨hp, hh, hsame⟩
  · refine Or.inl ⟨r, hr, ?_, ?_⟩
    · simp only [List.mem_cons, List.not_mem_nil, or_false] at hr
      rcases hr with rfl | rfl <;> simpa using h1
    · rw [UriCut.atQuery_endIdx]
      split
      · exact h.passed
      · exact h2
  · refine Or.inr ⟨rfl, by simpa using hh, fun r hr => ?_⟩
    have hne : r ≠ .query := by rintro rfl; revert hr; decide
    rw [UriCut.atQuery_startIdx, UriCut.atQuery_endIdx, hp, if_neg hne, if_neg hne]
    exact hsame r hr

/-- How the loop ends behind a `?`. -/
def Ended (q : Nat) (d r : UriCut) : Prop := r.skipPath = true ∧ (Forged q r.close ∨ SameChecked r.close d)

theorem Behind.ended {q : Nat} {d c : UriCut} (h : Behind q d c) : Ended q d c := by
  refine ⟨h.skip, ?_⟩
  rcases h.checked with hf | ⟨hp, _, hsame⟩
  · refine Or.inl ?_
    unfold UriCut.close
    split
    · exact hf
    · exact hf.setEnd _ h.passed
  · refine Or.inr fun r hr => ?_
    have hne : r ≠ .query := by rintro rfl; revert hr; decide
    rw [UriCut.close_startIdx, UriCut.close_endIdx c (by rw [hp]; decide), hp, if_neg hne]
    exact hsame r hr

theorem UriCut.atFragment_close (c : UriCut) (n : Nat) : (c.atFragment n).close = c.atFragment n := if_pos rfl

theorem Behind.atFragment {q : Nat} {d c : UriCut} (h : Behind q d c) (n : Nat) : Ended q d (c.atFragment n) := by
  refine ⟨rfl, ?_⟩
  rw [UriCut.atFragment_close]
  unfold UriCut.atFragment
  rcases h.checked with hf | ⟨hp, _, hsame⟩
  · obtain ⟨r, hr, h1, h2⟩ := hf.setEnd c.preState h.passed
    refine Or.inl ⟨r, hr, ?_, ?_⟩
    · simp only [List.mem_cons, List.not_mem_nil, or_false] at hr
      rcases hr with rfl | rfl <;> simpa using h1
    · simp only [List.mem_cons, List.not_mem_nil, or_false] at hr
      rcases hr with rfl | rfl <;> simpa using h2
  · refine Or.inr fun r hr => ?_
    have hq : r ≠ .query := by rintro rfl; revert hr; decide
    have hf : r ≠ .fragment := by rintro rfl; revert hr; decide
    simpa [hp, hq, hf] using hsame r hr

/-- **Behind a `?` the loop leaves the checked components as they were, or forges one.** -/
theorem authorityLoop_behind {q : Nat} {d : UriCut} : ∀ (l : Bytes) (b : UInt8) (c : UriCut), Behind q d c →
    Ended q d (authorityLoop b l c).1
  | [], _, c, h => by
    rw [authorityLoop, ← h.skip]
    exact h.ended
  | x :: l, b, c, h => by
    rw [authorityLoop]
    cases hx : authorityMap x with
    | scheme => exact authorityLoop_behind l x _ h.next
    | userinfo =>
      have h' := h.of_forged (h.atUserinfo (l.headD NUL)) (c.atUserinfo_i _) (c.atUserinfo_skipPath _) (by simp)
      exact authorityLoop_behind l x _ h'.next
    | host => exact authorityLoop_behind l x _ (h.atHost b).next
    | query => exact authorityLoop_behind l x _ h.atQuery.next
    | fragment => exact h.atFragment _
    | path =>
      dsimp only
      rw [if_pos h.skip]
      exact authorityLoop_behind l x _ h.next
    | elements =>
      dsimp only
      rw [← h.skip]
      exact h.ended
    | port => exact absurd hx (authorityMap_port x)

/-! ## The checked components -/

theorem mem_span {str : Bytes} {a b q : Nat} {x : UInt8} (hx : str[q]? = some x) (h1 : a ≤ q) (h2 : q < b) :
    x ∈ span str a b := by
  have hd : (str.drop a)[q - a]? = some x := by
    rw [List.getElem?_drop, Nat.add_sub_cancel' h1]
    exact hx
  have ht : ((str.drop a).take (b - a))[q - a]? = some x := by
    rw [List.getElem?_take_of_lt (by omega)]
    exact hd
  exact List.mem_of_getElem? ht

/-- **A forged component does not pass the check.** -/
theorem Forged.invalid {q : Nat} {c : UriCut} {str : Bytes} (h : Forged q c) (hq : str[q]? = some QUESTION) :
    charsValid str c = false := by
  obtain ⟨p, hp, h1, h2⟩ := h
  have hc : p ∈ checkedParts ∧ validChar p QUESTION = false := by
    simp only [List.mem_cons, List.not_mem_nil, or_false] at hp
    rcases hp with rfl | rfl <;> exact ⟨by decide, by decide⟩
  by_contra hv
  have hall := List.all_eq_true.mp (by simpa using hv : charsValid str c = true) p hc.1
  have := List.all_eq_true.mp hall QUESTION (mem_span hq h1 h2)
  rw [hc.2] at this
  cases this

/-! ## The other loops -/

theorem SameChecked.trans {c d e : UriCut} (h : SameChecked c d) (h' : SameChecked d e) : SameChecked c e :=
  fun p hp => ⟨(h p hp).1.trans (h' p hp).1, (h p hp).2.trans (h' p hp).2⟩

theorem SameChecked.setStart {c d : UriCut} (h : SameChecked c d) {p : UriPart} (hp : p ∉ checkedParts) (k : Nat) :
    SameChecked (c.setStart p k) d := by
  intro r hr
  rw [UriCut.setStart_startIdx, if_neg (fun e : r = p => hp (e ▸ hr))]
  exact h r hr

theorem SameChecked.setEnd {c d : UriCut} (h : SameChecked c d) {p : UriPart} (hp : p ∉ checkedParts) (k : Nat) :
    SameChecked (c.setEnd p k) d := by
  intro r hr
  rw [UriCut.setEnd_endIdx, if_neg (fun e : r = p => hp (e ▸ hr))]
  exact h r hr

/-- The path loop leaves the checked components alone. -/
theorem pathLoop_checked {d : UriCut} : ∀ (n : Nat) (l : Bytes) (c : UriCut), SameChecked c d →
    c.preState ∉ checkedParts →
    SameChecked (pathLoop n l c).1 d ∧ (pathLoop n l c).1.preState ∉ checkedParts
  | _, [], c, h, hp => by rw [pathLoop]; exact ⟨h, hp⟩
  | 0, _ :: _, c, h, hp => ⟨h, hp⟩
  | n + 1, b :: l, c, h, hp => by
    rw [pathLoop]
    by_cases h0 : b = NUL
    · rw [if_pos h0]; exact ⟨h, hp⟩
    · rw [if_neg h0]
      have key : ∀ (e : UriCut) (x : UInt8 × Bytes × Nat), SameChecked e d → e.preState ∉ checkedParts →
          let r := if x.1 = HASH then
              (((({ e with i := x.2.2 } : UriCut).setEnd e.preState x.2.2).setStart .fragment (x.2.2 + 1)).enter .fragment,
                x.1 :: x.2.1)
            else pathLoop n x.2.1 ({ e with i := x.2.2 } : UriCut).next
          SameChecked r.1 d ∧ r.1.preState ∉ checkedParts := by
        intro e x he hep
        dsimp only
        split
        · exact ⟨(SameChecked.setEnd (c := { e with i := x.2.2 }) he hep _).setStart (by decide) _, by simp; decide⟩
        · exact pathLoop_checked n _ _ he hep
      by_cases hq : b = QUESTION
      · simp only [if_pos hq]
        exact key _ (queryScan b l c.i) ((h.setEnd (by decide) _).setStart (by decide) _) (by simp; decide)
      · simp only [if_neg hq]
        exact key c (b, l, c.i) h hp

/-! ## Copying out -/

/-- What is copied out for a component. -/
def piece (str : Bytes) (c : UriCut) (p : UriPart) : Option Bytes :=
  if c.startIdx p < c.endIdx p then
    if p = .host ∧ str.getD (c.startIdx p) NUL = LBRACKET then
      some (span str (c.startIdx p + 1) (c.startIdx p + 1 + (c.endIdx p - c.startIdx p - 2)))
    else some (span str (c.startIdx p) (c.endIdx p))
  else none

/-- The copy of a component succeeds. -/
def Storable (room : UriPart → Nat → Bool) (str : Bytes) (c : UriCut) (p : UriPart) : Prop :=
  c.startIdx p < c.endIdx p → room p (c.endIdx p - c.startIdx p + 1) = true ∧
    (p = .host → str.getD (c.startIdx p) NUL = LBRACKET → 2 ≤ c.endIdx p - c.startIdx p)

/-- One turn of the copying loop. -/
theorem storeParts_cons {room : UriPart → Nat → Bool} {str : Bytes} {c : UriCut} {p : UriPart} {ps : List UriPart}
    {u v : ParsedURI} : storeParts room str c (p :: ps) u = some (0, v) ↔
      Storable room str c p ∧ storeParts room str c ps (u.put p (piece str c p)) = some (0, v) := by
  rw [storeParts]
  unfold Storable piece
  dsimp only
  by_cases hlt : c.startIdx p < c.endIdx p
  · rw [if_pos hlt, if_pos hlt, forall_prop_of_true hlt]
    cases hr : room p (c.endIdx p - c.startIdx p + 1) with
    | false => simp
    | true =>
      rw [if_pos rfl]
      by_cases hb : p = .host ∧ str.getD (c.startIdx p) NUL = LBRACKET
      · rw [if_pos hb, if_pos hb]
        by_cases hlen : c.endIdx p - c.startIdx p < 2
        · rw [if_pos hlen]
          have hn : ¬ 2 ≤ c.endIdx p - c.startIdx p := by omega
          exact ⟨fun h => (by cases h), fun h => absurd (h.1.2 hb.1 hb.2) hn⟩
        · rw [if_neg hlen]
          exact ⟨fun h => ⟨⟨rfl, fun _ _ => by omega⟩, h⟩, fun h => h.2⟩
      · rw [if_neg hb, if_neg hb]
        exact ⟨fun h => ⟨⟨rfl, fun h1 h2 => absurd ⟨h1, h2⟩ hb⟩, h⟩, fun h => h.2⟩
  · rw [if_neg hlt, if_neg hlt]
    exact ⟨fun h => ⟨fun h' => absurd h' hlt, h⟩, fun h => h.2⟩

/-- **The copying loop succeeds exactly when every copy does, and has then stored every piece.** -/
theorem storeParts_success {room : UriPart → Nat → Bool} {str : Bytes} {c : UriCut} {v : ParsedURI} :
    ∀ (ps : List UriPart) (u : ParsedURI), storeParts room str c ps u = some (0, v) ↔
      (∀ p ∈ ps, Storable room str c p) ∧
        v = { ps.foldl (fun u p => u.put p (piece str c p)) u with state := .success }
  | [], u => by simp [storeParts, eq_comm]
  | p :: ps, u => by
    rw [storeParts_cons, storeParts_success ps, List.forall_mem_cons, List.foldl_cons, and_assoc]

theorem cutPath_skip {c : UriCut} (h : c.skipPath = true) (l : Bytes) : cutPath (c, l) = c.close := by
  unfold cutPath
  dsimp only
  rw [if_pos (by simpa using h)]

theorem cutPath_checked (r : UriCut × Bytes) : SameChecked (cutPath r) r.1.close := by
  unfold cutPath
  dsimp only
  split
  · exact fun _ _ => ⟨rfl, rfl⟩
  · have h := pathLoop_checked (d := r.1.close) r.2.length r.2 (r.1.close.enter .path) (fun _ _ => ⟨rfl, rfl⟩)
      (show UriPart.path ∉ checkedParts by decide)
    exact h.1.setEnd h.2 _

/-- The `ParsedURI` of an accepted text. -/
def storedAs (str : Bytes) (c : UriCut) (error : Nat) : ParsedURI :=
  ⟨piece str c .scheme, piece str c .userinfo, piece str c .host, piece str c .port, piece str c .path,
    piece str c .query, piece str c .fragment, .success, error⟩

theorem storeParts_all {room : UriPart → Nat → Bool} {str : Bytes} {c : UriCut} {u v : ParsedURI} :
    storeParts room str c uriParts u = some (0, v) ↔
      (∀ p ∈ uriParts, Storable room str c p) ∧ v = storedAs str c u.error := storeParts_success uriParts u

/-- The state behind the `:` that ends a scheme of `n` bytes. -/
def schemeEnd (n : Nat) : UriCut := ({ UriCut.init with i := n }.setEnd .scheme n).next

theorem schemeLoop_colon : ∀ (s r : Bytes) (k : Nat), COLON ∉ s → NUL ∉ s →
    schemeLoop (s ++ COLON :: r) { UriCut.init with i := k } = (schemeEnd (k + s.length), r)
  | [], r, k, _, _ => by
    rw [List.nil_append, schemeLoop, if_neg (by decide), if_pos rfl]
    rfl
  | b :: s, r, k, hc, h0 => by
    rw [List.mem_cons, not_or] at hc h0
    rw [List.cons_append, schemeLoop, if_neg (Ne.symm h0.1), if_neg (Ne.symm hc.1)]
    have := schemeLoop_colon s r (k + 1) hc.2 h0.2
    rw [List.length_cons, show k + (s.length + 1) = k + 1 + s.length by omega, ← this]
    rfl

/-- The state the authority loop starts in. -/
def authorityStart (n : Nat) (r : Bytes) : UriCut := (schemeEnd n).openAuthority (r.headD NUL)

theorem authorityStart_inHead (n : Nat) (r : Bytes) : InHead (authorityStart n r) := by
  unfold authorityStart UriCut.openAuthority
  dsimp only
  split
  all_goals
    refine ⟨Or.inl rfl, rfl, ?_, by simp, fun p hp => ?_, fun p => ?_⟩
    · simp [schemeEnd, UriCut.init]
    · rcases hp with rfl | rfl | rfl <;> simp [schemeEnd, UriCut.init]
    · simp only [UriCut.setStart_endIdx, UriCut.setStart_i, schemeEnd, UriCut.next_endIdx, UriCut.setEnd_endIdx,
        UriCut.enter_endIdx, UriCut.next_i, UriCut.setEnd_i, UriCut.init]
      split <;> omega

theorem cutRest_slashes (n : Nat) (r : Bytes) :
    cutRest (SLASH :: SLASH :: r) (schemeEnd n) = cutPath (authorityLoop SLASH r (authorityStart n r)) := by
  have h0 : (authorityStart n r).startIdx .path = 0 := ((authorityStart_inHead n r).later .path (by simp)).1
  show cutPath (cutAuthority r (authorityStart n r)) = _
  rw [cutAuthority, if_pos h0]

/-- **What `parse` does with `scheme://…`.** -/
theorem parse_slashes (room : UriPart → Nat → Bool) (s r : Bytes) (u : ParsedURI) (hc : COLON ∉ s) (h0 : NUL ∉ s) :
    URIParser.parse room (s ++ ascii "://" ++ r) u =
      if s.length = 0 then some (-1, { u with state := .invalid })
      else
        let c := cutPath (authorityLoop SLASH r (authorityStart s.length r))
        if charsValid (s ++ ascii "://" ++ r) c then
          storeParts room (s ++ ascii "://" ++ r) c uriParts { u with state := .invalid }
        else some (-1, { u with state := .invalid }) := by
  have hl : schemeLoop (s ++ ascii "://" ++ r) .init = (schemeEnd s.length, SLASH :: SLASH :: r) := by
    have h := schemeLoop_colon s (SLASH :: SLASH :: r) 0 hc h0
    rw [Nat.zero_add] at h
    rw [← h, List.append_assoc]
    rfl
  unfold URIParser.parse
  rw [hl]
  dsimp only
  rw [cutRest_slashes]
  rfl

/-- `parse` accepts and stores exactly what the check and the copying loop let through. -/
theorem parse_slashes_success {room : UriPart → Nat → Bool} {s r : Bytes} {u v : ParsedURI} (hc : COLON ∉ s)
    (h0 : NUL ∉ s) : URIParser.parse room (s ++ ascii "://" ++ r) u = some (0, v) ↔
      s ≠ [] ∧ charsValid (s ++ ascii "://" ++ r) (cutPath (authorityLoop SLASH r (authorityStart s.length r))) = true ∧
      storeParts room (s ++ ascii "://" ++ r) (cutPath (authorityLoop SLASH r (authorityStart s.length r))) uriParts
        { u with state := .invalid } = some (0, v) := by
  rw [parse_slashes room s r u hc h0]
  by_cases hs : s = []
  · simp [hs]
  · rw [if_neg (by simpa using hs)]
    dsimp only
    split
    · rename_i hv
      exact ⟨fun h => ⟨hs, hv, h⟩, fun h => h.2.2⟩
    · rename_i hv
      exact ⟨fun h => (by cases h), fun h => absurd h.2.1 hv⟩

/-! ## The authority of an accepted text -/

/-- **If the text is accepted, its checked components are those the authority loop had found at the end of the
authority**, whatever stands behind. -/
theorem checked_behind {d : UriCut} {e : UInt8} {t str : Bytes} (hd : InHead d) (hdrop : str.drop d.i = t)
    (ht : t = [] ∨ ∃ b l, t = b :: l ∧ (b = SLASH ∨ b = QUESTION ∨ b = HASH))
    (hv : charsValid str (cutPath (authorityLoop e t d)) = true) :
    SameChecked (cutPath (authorityLoop e t d)) d.close := by
  have hne := hd.pre_checked.1
  have hskip : ∀ b : Bool, SameChecked (({ d with skipPath := b } : UriCut)).close d.close := by
    intro b p _
    simp only [UriCut.close, if_neg hne]
    exact ⟨rfl, rfl⟩
  rcases ht with rfl | ⟨b, l, rfl, hb⟩
  · exact (cutPath_checked _).trans (hskip true)
  · refine (cutPath_checked _).trans ?_
    rw [authorityLoop]
    rcases hb with rfl | rfl | rfl
    · show SameChecked (if d.skipPath then _ else _ : UriCut × Bytes).1.close d.close
      rw [hd.path, if_neg (by decide)]
      intro p hp
      have hpath : p ≠ .path := by rintro rfl; revert hp; decide
      rw [UriCut.close_startIdx, UriCut.close_startIdx, UriCut.close_endIdx _ (by simpa using hne),
        UriCut.close_endIdx _ hne, UriCut.setStart_startIdx, if_neg hpath]
      exact ⟨rfl, rfl⟩
    · have hbeh : Behind d.i d.close d.atQuery.next := by
        refine ⟨Nat.lt_succ_self _, rfl, by simpa using hd.userinfo, Or.inr ⟨rfl, by simpa using hd.host, ?_⟩⟩
        intro p hp
        have hquery : p ≠ .query := by rintro rfl; revert hp; decide
        rw [UriCut.close_startIdx, UriCut.close_endIdx _ hne, UriCut.next_startIdx, UriCut.next_endIdx,
          UriCut.atQuery_startIdx, UriCut.atQuery_endIdx, if_neg hquery]
        exact ⟨rfl, rfl⟩
      obtain ⟨hs, hf | hsame⟩ := authorityLoop_behind l QUESTION _ hbeh
      · -- a forged component would have failed the check
        have hq : str[d.i]? = some QUESTION := by
          rw [← Nat.add_zero d.i, ← List.getElem?_drop, hdrop]; rfl
        have hcut : cutPath (authorityLoop e (QUESTION :: l) d) = (authorityLoop QUESTION l d.atQuery.next).1.close :=
          cutPath_skip hs _
        rw [hcut, hf.invalid hq] at hv
        cases hv
      · exact hsame
    · intro p hp
      have hf : p ≠ .fragment := by rintro rfl; revert hp; decide
      show ((d.atFragment _).close.startIdx p = _) ∧ ((d.atFragment _).close.endIdx p = _)
      rw [UriCut.atFragment_close, UriCut.close_startIdx, UriCut.close_endIdx _ hne]
      simp [UriCut.atFragment, hf]

/-! ## A text and a longer one -/

theorem span_append {s t : Bytes} {a b : Nat} (hb : b ≤ s.length) : span (s ++ t) a b = span s a b := by
  unfold span
  rcases Nat.lt_or_ge b a with h | h
  · rw [Nat.sub_eq_zero_of_le (Nat.le_of_lt h), List.take_zero, List.take_zero]
  · rw [List.drop_append_of_le_length (by omega), List.take_append_of_le_length (by rw [List.length_drop]; omega)]

theorem getD_append {s t : Bytes} {k : Nat} (hk : k < s.length) : (s ++ t).getD k NUL = s.getD k NUL := by
  rw [List.getD_eq_getElem?_getD, List.getD_eq_getElem?_getD, List.getElem?_append_left hk]

section Longer

variable {room : UriPart → Nat → Bool} {s t : Bytes} {c d : UriCut} {p : UriPart}

theorem piece_append (hs : c.startIdx p = d.startIdx p) (he : c.endIdx p = d.endIdx p) (hb : d.endIdx p ≤ s.length) :
    piece (s ++ t) c p = piece s d p := by
  unfold piece
  rw [hs, he]
  by_cases hlt : d.startIdx p < d.endIdx p
  · rw [if_pos hlt, if_pos hlt, getD_append (by omega), span_append hb, span_append (by omega)]
  · rw [if_neg hlt, if_neg hlt]

theorem storable_append (hs : c.startIdx p = d.startIdx p) (he : c.endIdx p = d.endIdx p)
    (hb : d.endIdx p ≤ s.length) : Storable room (s ++ t) c p ↔ Storable room s d p := by
  unfold Storable
  rw [hs, he]
  refine forall_congr' fun hlt => ?_
  rw [getD_append (by omega)]

theorem charsValid_append (h : SameChecked c d) (hb : ∀ p, d.endIdx p ≤ s.length) :
    charsValid (s ++ t) c = charsValid s d := by
  unfold charsValid
  rw [Bool.eq_iff_iff, List.all_eq_true, List.all_eq_true]
  refine forall_congr' fun p => forall_congr' fun hp => ?_
  rw [(h p hp).1, (h p hp).2, span_append (hb p)]

end Longer

/-! ## The authority alone -/

theorem openAuthority_plain (c : UriCut) {b b' : UInt8} (h : b ≠ LBRACKET) (h' : b' ≠ LBRACKET) :
    c.openAuthority b = c.openAuthority b' := by
  simp only [UriCut.openAuthority, if_neg h, if_neg h']

theorem authorityStart_append (n : Nat) {a t : Bytes} (ht : t.headD NUL ≠ LBRACKET) :
    authorityStart n (a ++ t) = authorityStart n a := by
  cases a with
  | nil => exact openAuthority_plain (schemeEnd n) ht (by decide)
  | cons b a => rfl

theorem authorityStart_i (n : Nat) (r : Bytes) : (authorityStart n r).i = n + 3 := by
  unfold authorityStart UriCut.openAuthority
  dsimp only
  split <;> rfl

/-- The indices of an authority with nothing behind it. -/
def alone (d : UriCut) : UriCut := ({ d with skipPath := true } : UriCut).close

theorem InHead.alone_checked {d : UriCut} (hd : InHead d) : SameChecked d.close (alone d) := by
  intro p _
  unfold alone UriCut.close
  rcases hd.pre with h | h <;> rw [h] <;> exact ⟨rfl, rfl⟩

theorem InHead.alone_ends {d : UriCut} (hd : InHead d) (p : UriPart) : (alone d).endIdx p ≤ d.i := by
  have h := hd.ends p
  unfold alone UriCut.close
  split
  · exact h
  · rw [UriCut.setEnd_endIdx]
    split
    · exact Nat.le_refl _
    · exact h

theorem InHead.alone_later {d : UriCut} (hd : InHead d) {p : UriPart} (hp : p = .query ∨ p = .fragment ∨ p = .path) :
    (alone d).startIdx p = 0 ∧ (alone d).endIdx p = 0 := by
  have h := hd.later p hp
  unfold alone UriCut.close
  rcases hd.pre with h' | h' <;> rcases hp with rfl | rfl | rfl <;> simp [h', h]

theorem authorityLoop_alone {e : UInt8} {d : UriCut} : cutPath (authorityLoop e [] d) = alone d :=
  cutPath_skip rfl []

/-- **The authority of an accepted text is accepted alone, with the same userinfo, host and port.** -/
theorem authority_unforged (room : UriPart → Nat → Bool) (scheme rest : Bytes) (u w v : ParsedURI)
    (hc : COLON ∉ scheme) (hs : NUL ∉ scheme) (hr : NUL ∉ rest)
    (h : URIParser.parse room (scheme ++ ascii "://" ++ rest) u = some (0, v)) :
    ∃ v', URIParser.parse room (scheme ++ ascii "://" ++ authorityOf rest) w = some (0, v') ∧
      v'.userinfo = v.userinfo ∧ v'.host = v.host ∧ v'.port = v.port := by
  obtain ⟨t, hrest, ha, ht⟩ := authorityOf_rest rest hr
  generalize authorityOf rest = a at hrest ha ⊢
  subst hrest
  obtain ⟨hne, hv, hst⟩ := (parse_slashes_success hc hs).mp h
  have hhead : t.headD NUL ≠ LBRACKET := by
    rcases ht with rfl | ⟨b, l, rfl, hb⟩
    · decide
    · show b ≠ LBRACKET
      rcases hb with rfl | rfl | rfl <;> decide
  obtain ⟨d, e, hd, hi, hrun⟩ := authorityLoop_head a SLASH _ (authorityStart_inHead scheme.length a) ha
  -- both runs are in state `d` behind the authority, the text `str` up to there
  have hshort := hrun [] (by decide)
  rw [List.append_nil] at hshort
  rw [authorityStart_append scheme.length hhead, hrun t hhead] at hv hst
  have hfull : scheme ++ ascii "://" ++ (a ++ t) = scheme ++ ascii "://" ++ a ++ t := (List.append_assoc _ a t).symm
  rw [hfull] at hv hst
  have hlen : (scheme ++ ascii "://" ++ a).length = d.i := by
    rw [hi, authorityStart_i, List.length_append, List.length_append]; rfl
  rw [storeParts_all] at hst
  generalize hstr : scheme ++ ascii "://" ++ a = str at hv hst hlen ⊢
  have hsame := (checked_behind hd (by rw [← hlen, List.drop_left]) ht hv).trans hd.alone_checked
  have hends : ∀ p, (alone d).endIdx p ≤ str.length := fun p => hlen ▸ hd.alone_ends p
  have hpiece : ∀ p ∈ checkedParts, piece (str ++ t) _ p = piece str (alone d) p := fun p hp =>
    piece_append (hsame p hp).1 (hsame p hp).2 (hends p)
  refine ⟨storedAs str (alone d) w.error, ?_, ?_⟩
  · rw [← hstr, parse_slashes_success hc hs, hstr, hshort, authorityLoop_alone, storeParts_all]
    refine ⟨hne, ?_, fun p hp => ?_, rfl⟩
    · rw [← charsValid_append hsame hends]
      exact hv
    · by_cases hpc : p ∈ checkedParts
      · rw [← storable_append (hsame p hpc).1 (hsame p hpc).2 (hends p)]
        exact hst.1 p hp
      · have hlater : p = .query ∨ p = .fragment ∨ p = .path := by revert hp hpc; cases p <;> decide
        intro hlt
        rw [(hd.alone_later hlater).1, (hd.alone_later hlater).2] at hlt
        exact absurd hlt (Nat.lt_irrefl 0)
  · rw [hst.2]
    exact ⟨(hpiece .userinfo (by decide)).symm, (hpiece .host (by decide)).symm, (hpiece .port (by decide)).symm⟩

theorem authority_unforged_query : ∃ v', URIParser.parse (fun _ _ => true)
      (ascii "http" ++ ascii "://" ++ authorityOf (ascii "[::1]?a:b")) .fresh = some (0, v') ∧
    v'.userinfo = none ∧ v'.host = some (ascii "::1") ∧ v'.port = none :=
  authority_unforged (fun _ _ => true) (ascii "http") (ascii "[::1]?a:b") .fresh .fresh
    ⟨some (ascii "http"), none, some (ascii "::1"), none, none, some (ascii "a:b"), none, .success, 0⟩
    (by decide) (by decide) (by decide) (by decide +kernel)

end Tinywf
