import Tinywf.UriHead
/-!
# UriUnclosed — the texts whose host is not closed

A host may begin with `[` and not end with `]` in two ways: no `]:` ends the bracketed part, or one does and more follows
before the last `:`.  `UnclosedHost` spells these texts out; they are the ones on which `parse` copies a host without two
bytes that are not its brackets (`copies_within`).
-/
namespace Tinywf

open CLib

/-! ## The texts -/

/-- What the authority loop meets in the query behind a `?` is nothing it acts on. -/
def QuietQuery (ipv6 : Bool) (q : Bytes) : Prop :=
  AT ∉ q ∧ if ipv6 then ¬ [RBRACKET, COLON] <:+: q else COLON ∉ q

/-- What may stand behind an authority that is accepted. -/
def QuietTail (ipv6 : Bool) (t : Bytes) : Prop :=
  t = [] ∨ (∃ l, t = SLASH :: l) ∨ (∃ l, t = HASH :: l) ∨
    ∃ l, t = QUESTION :: l ∧ QuietQuery ipv6 (l.takeWhile (· != HASH))

/-- A text with a host that is opened and not closed. -/
structure UnclosedHost where
  scheme : Bytes
  userinfo : Option Bytes
  host : Bytes
  port : Option Bytes
  tail : Bytes
  scheme_allowed : Allowed .scheme scheme
  userinfo_valid : ∀ w ∈ userinfo, ∀ b ∈ w, validChar .userinfo b = true
  host_valid : ∀ b ∈ host, validChar .host b = true
  host_opens : host.head? = some LBRACKET
  host_open : host.getLast? ≠ some RBRACKET
  host_inner : [RBRACKET, COLON] <:+: host ↔ port.isSome = true
  port_valid : ∀ w ∈ port, ∀ b ∈ w, validChar .port b = true
  tail_quiet : QuietTail port.isNone tail

def UnclosedHost.text (u : UnclosedHost) : Bytes := hostText u.scheme u.userinfo u.host u.port u.tail

/-! ## Behind the authority -/

/-- The query behind a `?`, as the authority loop walks it. -/
abbrev queryOf (l : Bytes) : Bytes := l.takeWhile (· != HASH)

theorem quietQuery_iff (ipv6 : Bool) (q : Bytes) : QuietQuery ipv6 q ↔ AT ∉ q ∧ effective ipv6 QUESTION q = false := by
  refine and_congr_right fun _ => ?_
  cases ipv6 with
  | false => rw [if_neg (by decide), Bool.eq_false_iff, ne_eq, effective_false]
  | true => rw [if_pos rfl, Bool.eq_false_iff, ne_eq, effective_true (by decide)]

theorem SameChecked.close {c d : UriCut} (h : SameChecked c d) (hq : c.preState = .query) : SameChecked c.close d := by
  unfold UriCut.close
  rw [if_neg (by rw [hq]; decide), hq]
  exact h.setEnd (by decide) _

theorem authorityMap_inv (b : UInt8) : (authorityMap b = .userinfo → b = AT) ∧ (authorityMap b = .host → b = COLON) ∧
    (authorityMap b = .query → b = QUESTION) ∧ (authorityMap b = .fragment → b = HASH) ∧
    (authorityMap b = .elements → b = NUL) :=
  forall_byte (P := fun b => (authorityMap b = .userinfo → b = AT) ∧ (authorityMap b = .host → b = COLON) ∧
    (authorityMap b = .query → b = QUESTION) ∧ (authorityMap b = .fragment → b = HASH) ∧
    (authorityMap b = .elements → b = NUL)) (by decide +kernel) b

/-- Where a `:` has no effect. -/
theorem atHost_ineffective {c : UriCut} {e : UInt8} (h : (COLON == COLON && (!c.inIpv6 || e == RBRACKET)) = false) :
    c.atHost e = c := by
  rw [UriCut.atHost_eq, if_pos]
  simpa using h

theorem atHost_effective {c : UriCut} {e : UInt8} (h : (COLON == COLON && (!c.inIpv6 || e == RBRACKET)) = true) :
    c.atHost e = c.endHost := by
  rw [UriCut.atHost_eq, if_neg]
  rintro ⟨h1, h2⟩
  rw [h1] at h
  simp [h2] at h

/-- A quiet query leaves the checked components alone. -/
theorem authorityLoop_quiet {d : UriCut} : ∀ (l : Bytes) (e : UInt8) (c : UriCut), c.skipPath = true →
    c.preState = .query → AT ∉ queryOf l → effective c.inIpv6 e (queryOf l) = false → SameChecked c d →
    (authorityLoop e l c).1.skipPath = true ∧ SameChecked (authorityLoop e l c).1.close d
  | [], e, c, hs, hp, _, _, hd => ⟨rfl, SameChecked.close (c := { c with skipPath := true }) hd hp⟩
  | b :: l, e, c, hs, hp, ha, he, hd => by
    rw [authorityLoop]
    by_cases hb : b = HASH
    · subst hb
      refine ⟨rfl, ?_⟩
      show SameChecked (c.atFragment _).close d
      rw [UriCut.atFragment_close, UriCut.atFragment, hp]
      exact ((hd.setEnd (p := .query) (by decide) _).setStart (p := .fragment) (by decide) _).setEnd (by decide) _
    · rw [queryOf, List.takeWhile_cons_of_pos (by simpa using hb)] at ha he
      rw [List.mem_cons, not_or] at ha
      rw [effective, Bool.or_eq_false_iff] at he
      have hnext (c' : UriCut) (h6 : c'.inIpv6 = c.inIpv6) (hs' : c'.skipPath = true) (hp' : c'.preState = .query)
          (hd' : SameChecked c' d) : (authorityLoop b l c').1.skipPath = true ∧
            SameChecked (authorityLoop b l c').1.close d :=
        authorityLoop_quiet l b c' hs' hp' ha.2 (by rw [h6]; exact he.2) hd'
      cases hm : authorityMap b with
      | scheme => exact hnext c.next rfl hs hp hd
      | userinfo => exact absurd ((authorityMap_inv b).1 hm).symm ha.1
      | host =>
        obtain rfl : b = COLON := (authorityMap_inv b).2.1 hm
        dsimp only
        rw [atHost_ineffective he.1]
        exact hnext c.next rfl hs hp hd
      | port => exact absurd hm (authorityMap_port b)
      | query =>
        refine hnext (c.atQuery.next) rfl rfl rfl ?_
        show SameChecked c.atQuery.next d
        have h1 := (hd.setEnd (p := .query) (by decide) c.i).setStart (p := .query) (by decide) (c.i + 1)
        intro p hp'
        rw [UriCut.next_startIdx, UriCut.next_endIdx, UriCut.atQuery_startIdx, UriCut.atQuery_endIdx, hp]
        simpa using h1 p hp'
      | fragment => exact absurd ((authorityMap_inv b).2.2.2.1 hm) hb
      | path =>
        dsimp only
        rw [if_pos hs]
        exact hnext c.next rfl hs hp hd
      | elements => exact ⟨rfl, SameChecked.close (c := { c with skipPath := true }) hd hp⟩

/-- The checked components end behind `k`, or something in the query behind will see to it. -/
def EndsBehind (k : Nat) (e : UInt8) (l : Bytes) (c : UriCut) : Prop :=
  k ≤ c.endIdx .userinfo ∨ k ≤ c.endIdx .host ∨ AT ∈ queryOf l ∨ effective c.inIpv6 e (queryOf l) = true

theorem endsBehind_end {k : Nat} {e : UInt8} {l : Bytes} {c : UriCut} (h : EndsBehind k e l c) (hl : queryOf l = []) :
    k ≤ c.endIdx .userinfo ∨ k ≤ c.endIdx .host := by
  rcases h with h | h | h | h
  · exact Or.inl h
  · exact Or.inr h
  · rw [hl] at h; cases h
  · rw [hl] at h; cases h

/-- Closing a component where the loop is moves no end before `k`. -/
theorem close_beyond {k : Nat} {c : UriCut} (hk : k ≤ c.i) (p : UriPart) (h : k ≤ c.endIdx p) : k ≤ c.close.endIdx p := by
  unfold UriCut.close
  split
  · exact h
  · rw [UriCut.setEnd_endIdx]
    split <;> assumption

/-- **A query that is not quiet moves the end of a checked component behind the `?`.** -/
theorem authorityLoop_noisy {k : Nat} : ∀ (l : Bytes) (e : UInt8) (c : UriCut), NUL ∉ l → c.skipPath = true → k ≤ c.i →
    EndsBehind k e l c → (authorityLoop e l c).1.skipPath = true ∧
      (k ≤ (authorityLoop e l c).1.close.endIdx .userinfo ∨ k ≤ (authorityLoop e l c).1.close.endIdx .host)
  | [], e, c, _, _, hk, h => by
    refine ⟨rfl, ?_⟩
    have hk' : k ≤ ({ c with skipPath := true } : UriCut).i := hk
    exact (endsBehind_end h rfl).imp (close_beyond hk' .userinfo) (close_beyond hk' .host)
  | b :: l, e, c, h0, hs, hk, h => by
    rw [List.mem_cons, not_or] at h0
    rw [authorityLoop]
    by_cases hb : b = HASH
    · subst hb
      refine ⟨rfl, ?_⟩
      show k ≤ (c.atFragment _).close.endIdx .userinfo ∨ k ≤ (c.atFragment _).close.endIdx .host
      have hend (p : UriPart) (hp : p ≠ .fragment) (hle : k ≤ c.endIdx p) :
          k ≤ (c.atFragment (strlen (HASH :: l))).endIdx p := by
        simp only [UriCut.atFragment, UriCut.enter_endIdx, UriCut.setEnd_endIdx, UriCut.setStart_endIdx, if_neg hp]
        split <;> assumption
      rw [UriCut.atFragment_close]
      exact (endsBehind_end h rfl).imp (hend .userinfo (by decide)) (hend .host (by decide))
    · have hq : queryOf (b :: l) = b :: queryOf l := List.takeWhile_cons_of_pos (by simpa using hb)
      have hnext (c' : UriCut) (hs' : c'.skipPath = true) (hi : k ≤ c'.i) (hr : EndsBehind k b l c') :
          (authorityLoop b l c').1.skipPath = true ∧ (k ≤ (authorityLoop b l c').1.close.endIdx .userinfo ∨
            k ≤ (authorityLoop b l c').1.close.endIdx .host) := authorityLoop_noisy l b c' h0.2 hs' hi hr
      -- a byte that is passed over leaves what is to come in what is behind it
      have hpass (ha : b ≠ AT) (hc : (b == COLON && (!c.inIpv6 || e == RBRACKET)) = false) : EndsBehind k b l c := by
        refine h.imp_right (Or.imp_right (Or.imp (fun h => ?_) fun h => ?_))
        · rw [hq] at h
          exact (List.mem_cons.1 h).resolve_left (Ne.symm ha)
        · rw [hq, effective, hc, Bool.false_or] at h
          exact h
      cases hm : authorityMap b with
      | scheme =>
        have hne : b ≠ AT ∧ b ≠ COLON := by
          constructor
          · rintro rfl; revert hm; decide
          · rintro rfl; revert hm; decide
        exact hnext c.next hs (Nat.le_succ_of_le hk) (hpass hne.1 (by simp [hne.2]))
      | userinfo =>
        refine hnext ((c.atUserinfo (l.headD NUL)).next) (by simpa using hs)
          (by simpa using Nat.le_succ_of_le hk) (Or.inl ?_)
        simpa using hk
      | host =>
        obtain rfl : b = COLON := (authorityMap_inv b).2.1 hm
        dsimp only
        cases he : (COLON == COLON && (!c.inIpv6 || e == RBRACKET)) with
        | false =>
          rw [atHost_ineffective he]
          exact hnext c.next hs (Nat.le_succ_of_le hk) (hpass (by decide) he)
        | true =>
          rw [atHost_effective he]
          exact hnext c.endHost.next hs (Nat.le_succ_of_le hk) (Or.inr (Or.inl (by simpa using hk)))
      | port => exact absurd hm (authorityMap_port b)
      | query =>
        obtain rfl : b = QUESTION := (authorityMap_inv b).2.2.1 hm
        have hr := hpass (by decide) (by rw [show (QUESTION == COLON) = false by decide, Bool.false_and])
        refine hnext (c.atQuery.next) rfl (Nat.le_succ_of_le hk) ?_
        refine hr.imp (fun h => ?_) (Or.imp (fun h => ?_) id)
        · rw [UriCut.next_endIdx, UriCut.atQuery_endIdx]
          split <;> assumption
        · rw [UriCut.next_endIdx, UriCut.atQuery_endIdx]
          split <;> assumption
      | fragment => exact absurd ((authorityMap_inv b).2.2.2.1 hm) hb
      | path =>
        dsimp only
        rw [if_pos hs]
        have hne : b ≠ AT ∧ b ≠ COLON := by
          constructor
          · rintro rfl; revert hm; decide
          · rintro rfl; revert hm; decide
        exact hnext c.next hs (Nat.le_succ_of_le hk) (hpass hne.1 (by simp [hne.2]))
      | elements => exact absurd ((authorityMap_inv b).2.2.2.2 hm).symm h0.1

theorem tail_cases {t : Bytes} {d : UriCut} {e : UInt8} (hd : InHead d) :
    (∀ l, t = SLASH :: l ∨ t = HASH :: l ∨ t = [] → SameChecked (cutPath (authorityLoop e t d)) d.close) := by
  have hne := hd.pre_checked.1
  rintro l (rfl | rfl | rfl)
  · refine (cutPath_checked _).trans ?_
    show SameChecked (if d.skipPath then _ else _ : UriCut × Bytes).1.close d.close
    rw [hd.path, if_neg (by decide)]
    intro p hp
    have hpath : p ≠ .path := by rintro rfl; revert hp; decide
    rw [UriCut.close_startIdx, UriCut.close_startIdx, UriCut.close_endIdx _ (by simpa using hne),
      UriCut.close_endIdx _ hne, UriCut.setStart_startIdx, if_neg hpath]
    exact ⟨rfl, rfl⟩
  · refine (cutPath_checked _).trans fun p hp => ?_
    have hf : p ≠ .fragment := by rintro rfl; revert hp; decide
    show ((d.atFragment _).close.startIdx p = _) ∧ ((d.atFragment _).close.endIdx p = _)
    rw [UriCut.atFragment_close, UriCut.close_startIdx, UriCut.close_endIdx _ hne]
    simp [UriCut.atFragment, hf]
  · refine (cutPath_checked _).trans fun p _ => ?_
    rw [authorityLoop, UriCut.close_startIdx, UriCut.close_startIdx, UriCut.close_endIdx d hne,
      UriCut.close_endIdx { d with skipPath := true } hne]
    exact ⟨rfl, rfl⟩

/-- The checked components at a `?`. -/
theorem atQuery_checked {d : UriCut} (hd : InHead d) : SameChecked d.atQuery.next d.close := by
  intro p hp
  have hquery : p ≠ .query := by rintro rfl; revert hp; decide
  rw [UriCut.close_startIdx, UriCut.close_endIdx _ hd.pre_checked.1, UriCut.next_startIdx, UriCut.next_endIdx,
    UriCut.atQuery_startIdx, UriCut.atQuery_endIdx, if_neg hquery]
  exact ⟨rfl, rfl⟩

/-- **The checked components are those of the authority exactly when the tail is quiet.** -/
theorem tail_quiet_iff {d : UriCut} {e : UInt8} {t : Bytes} (hd : InHead d) (h0 : NUL ∉ t)
    (ht : t = [] ∨ ∃ b l, t = b :: l ∧ (b = SLASH ∨ b = QUESTION ∨ b = HASH)) :
    SameChecked (cutPath (authorityLoop e t d)) d.close ↔ QuietTail d.inIpv6 t := by
  rcases ht with rfl | ⟨b, l, rfl, rfl | rfl | rfl⟩
  · exact ⟨fun _ => Or.inl rfl, fun _ => tail_cases hd [] (Or.inr (Or.inr rfl))⟩
  · exact ⟨fun _ => Or.inr (Or.inl ⟨l, rfl⟩), fun _ => tail_cases hd l (Or.inl rfl)⟩
  · have hrun : authorityLoop e (QUESTION :: l) d = authorityLoop QUESTION l d.atQuery.next := rfl
    have hl0 : NUL ∉ l := fun h => h0 (List.mem_cons_of_mem _ h)
    rw [hrun]
    constructor
    · intro hsame
      refine Or.inr (Or.inr (Or.inr ⟨l, rfl, (quietQuery_iff _ _).2 ?_⟩))
      by_contra hno
      have hr : EndsBehind (d.i + 1) QUESTION l d.atQuery.next := by
        by_cases ha : AT ∈ queryOf l
        · exact Or.inr (Or.inr (Or.inl ha))
        · refine Or.inr (Or.inr (Or.inr ?_))
          by_contra he
          exact hno ⟨ha, by simpa using he⟩
      obtain ⟨hs, hend⟩ := authorityLoop_noisy l QUESTION d.atQuery.next hl0 rfl
        (show d.i + 1 ≤ d.atQuery.next.i from Nat.le_refl _) hr
      have hcut : cutPath (authorityLoop QUESTION l d.atQuery.next) = (authorityLoop QUESTION l d.atQuery.next).1.close :=
        cutPath_skip hs _
      rw [hcut] at hsame
      rw [(hsame .userinfo (by decide)).2, (hsame .host (by decide)).2] at hend
      have h1 := hd.close_ends .userinfo
      have h2 := hd.close_ends .host
      omega
    · rintro (h | ⟨_, h⟩ | ⟨_, h⟩ | ⟨l', h, hq⟩)
      · cases h
      · cases h
      · cases h
      · cases h
        obtain ⟨ha, he⟩ := (quietQuery_iff _ _).1 hq
        obtain ⟨hs, hsame⟩ := authorityLoop_quiet l QUESTION d.atQuery.next rfl rfl ha he (atQuery_checked hd)
        rw [show cutPath (authorityLoop QUESTION l d.atQuery.next) = (authorityLoop QUESTION l d.atQuery.next).1.close from
          cutPath_skip hs _]
        exact hsame
  · exact ⟨fun _ => Or.inr (Or.inr (Or.inl ⟨l, rfl⟩)), fun _ => tail_cases hd l (Or.inr (Or.inl rfl))⟩

/-! ## Any text -/

theorem schemeLoop_noColon : ∀ (l : Bytes) (c : UriCut), COLON ∉ l → (schemeLoop l c).1.endIdx .scheme = c.endIdx .scheme
  | [], _, _ => rfl
  | b :: l, c, h => by
    rw [List.mem_cons, not_or] at h
    rw [schemeLoop, if_neg (Ne.symm h.1)]
    split
    · rfl
    · exact schemeLoop_noColon l c.next h.2

/-- **Where the copying loop is reached, a scheme has ended.** -/
theorem uriCut_scheme {str : Bytes} {c : UriCut} (h0 : NUL ∉ str) (h : uriCut str = some c) :
    ∃ s rest, str = s ++ COLON :: rest ∧ s ≠ [] ∧ COLON ∉ s ∧ NUL ∉ s ∧ cutRest rest (schemeEnd s.length) = c ∧
      charsValid str c = true := by
  by_cases hmem : COLON ∈ str
  · obtain ⟨s, rest, rfl, hs⟩ := List.eq_append_cons_of_mem hmem
    have hs0 : NUL ∉ s := fun hm => h0 (List.mem_append_left _ hm)
    have hloop := schemeLoop_colon s rest 0 hs hs0
    rw [Nat.zero_add] at hloop
    have hloop' : schemeLoop (s ++ COLON :: rest) UriCut.init = (schemeEnd s.length, rest) := hloop
    rw [uriCut, hloop'] at h
    dsimp only at h
    split at h
    · cases h
    · rename_i hend
      split at h
      · rename_i hv
        refine ⟨s, rest, rfl, ?_, hs, hs0, Option.some.inj h, Option.some.inj h ▸ hv⟩
        rintro rfl
        exact hend rfl
      · cases h
  · have hend := schemeLoop_noColon str .init hmem
    rw [uriCut] at h
    dsimp only at h
    rw [if_pos (show (schemeLoop str .init).1.endIdx .scheme = 0 from hend)] at h
    cases h

/-- A scheme of valid characters ends at its `:`. -/
theorem uriCut_slashes {s r : Bytes} (hs : Allowed .scheme s) :
    uriCut (s ++ ascii "://" ++ r) =
      let c := cutPath (authorityLoop SLASH r (authorityStart s.length r))
      if charsValid (s ++ ascii "://" ++ r) c then some c else none := by
  have hc : COLON ∉ s := fun hm => (scheme_valid _ (hs.2 _ hm)).1 rfl
  have h0 : NUL ∉ s := fun hm => (scheme_valid _ (hs.2 _ hm)).2 rfl
  have htext : s ++ ascii "://" ++ r = s ++ COLON :: (SLASH :: SLASH :: r) := by rw [List.append_assoc]; rfl
  have hloop := schemeLoop_colon s (SLASH :: SLASH :: r) 0 hc h0
  rw [Nat.zero_add] at hloop
  have hloop' : schemeLoop (s ++ COLON :: (SLASH :: SLASH :: r)) UriCut.init = (schemeEnd s.length, SLASH :: SLASH :: r) :=
    hloop
  have hend : (schemeEnd s.length).endIdx .scheme ≠ 0 := by
    have : (schemeEnd s.length).endIdx .scheme = s.length := by simp [schemeEnd]
    rw [this]
    exact fun h => hs.1 (List.length_eq_zero_iff.1 h)
  rw [uriCut, htext, hloop']
  dsimp only
  rw [if_neg hend, cutRest_slashes]

/-- Without `//` behind the scheme there is no host. -/
theorem cutRest_noHost {l : Bytes} {n : Nat} (h : ∀ r, l ≠ SLASH :: SLASH :: r) :
    (cutRest l (schemeEnd n)).endIdx .host = 0 := by
  have hcut : cutRest l (schemeEnd n) =
      cutPath (cutAuthority l (((schemeEnd n).enter .path).setStart .path (schemeEnd n).i)) := by
    unfold cutRest
    split
    · exact absurd rfl (h _)
    · rfl
  have hstart : (((schemeEnd n).enter .path).setStart .path (schemeEnd n).i).startIdx .path ≠ 0 := by
    rw [UriCut.setStart_startIdx, if_pos rfl]
    exact Nat.succ_ne_zero n
  rw [hcut, cutAuthority, if_neg hstart, (cutPath_checked _ .host (by decide)).2, UriCut.close_endIdx _ (by simp)]
  simp [schemeEnd, UriCut.init]

theorem SameChecked.valid {c d : UriCut} (h : SameChecked c d) (str : Bytes) : charsValid str c = charsValid str d := by
  unfold charsValid
  rw [Bool.eq_iff_iff, List.all_eq_true, List.all_eq_true]
  refine forall_congr' fun p => forall_congr' fun hp => ?_
  rw [(h p hp).1, (h p hp).2]

theorem SameChecked.unclosed {c d : UriCut} (h : SameChecked c d) (str : Bytes) :
    HostUnclosed str c ↔ HostUnclosed str d := by
  rw [HostUnclosed, HostUnclosed, (h .host (by decide)).1, (h .host (by decide)).2]

/-- The inner `]:` of an unclosed host is not at its end. -/
theorem inner_colon {v : Bytes} (hv : COLON ∉ v) : ∀ (h : Bytes), h.getLast? ≠ some RBRACKET →
    ([RBRACKET, COLON] <:+: h ++ COLON :: v ↔ [RBRACKET, COLON] <:+: h)
  | [], _ => by
    rw [List.nil_append, List.infix_cons_iff, List.cons_prefix_cons]
    refine ⟨?_, fun hi => absurd (hi.subset List.mem_cons_self) List.not_mem_nil⟩
    rintro (⟨he, -⟩ | hi)
    · exact absurd he (by decide)
    · exact absurd (hi.subset (List.mem_cons_of_mem _ List.mem_cons_self)) hv
  | [b], hopen => by
    have hb : RBRACKET ≠ b := fun he => hopen (congrArg some he.symm)
    rw [List.cons_append, List.infix_cons_iff, List.infix_cons_iff, List.cons_prefix_cons, List.cons_prefix_cons,
      inner_colon hv [] (by simp)]
    exact or_congr_left ⟨fun h => absurd h.1 hb, fun h => absurd h.1 hb⟩
  | b :: x :: h, hopen => by
    rw [List.getLast?_cons_cons] at hopen
    rw [List.cons_append, List.infix_cons_iff, List.infix_cons_iff, inner_colon hv (x :: h) hopen, List.cons_append,
      List.cons_prefix_cons, List.cons_prefix_cons, List.cons_prefix_cons, List.cons_prefix_cons]
    simp only [List.nil_prefix]

theorem openHost_inner {h : Bytes} {w : Option Bytes} (hopen : h.getLast? ≠ some RBRACKET) (hw : ∀ v ∈ w, COLON ∉ v) :
    [RBRACKET, COLON] <:+: h ++ portPart w ↔ [RBRACKET, COLON] <:+: h := by
  cases w with
  | none => rw [portPart, List.append_nil]
  | some v => exact inner_colon (hw v rfl) h hopen

theorem tail_head {t : Bytes} (ht : t = [] ∨ ∃ b l, t = b :: l ∧ (b = SLASH ∨ b = QUESTION ∨ b = HASH)) :
    t.headD NUL ≠ LBRACKET := by
  rcases ht with rfl | ⟨b, l, rfl, rfl | rfl | rfl⟩
  · exact (by decide : NUL ≠ LBRACKET)
  · exact (by decide : SLASH ≠ LBRACKET)
  · exact (by decide : QUESTION ≠ LBRACKET)
  · exact (by decide : HASH ≠ LBRACKET)

/-- Over an authority and what is behind it. -/
theorem cutPath_headState (n : Nat) {a t : Bytes} (ha : ∀ b ∈ a, inAuthority b = true ∧ b ≠ NUL)
    (ht : t.headD NUL ≠ LBRACKET) : cutPath (authorityLoop SLASH (a ++ t) (authorityStart n (a ++ t))) =
      cutPath (authorityLoop (headState SLASH a (authorityStart n a)).1 t (headState SLASH a (authorityStart n a)).2) := by
  rw [authorityStart_append n ht, authorityLoop_headState a SLASH _ ha ht]

/-- **A copying loop that finds an unclosed host comes from one of the texts.** -/
theorem unclosed_of_cut {str : Bytes} {c : UriCut} (h0 : NUL ∉ str) (hc : uriCut str = some c) (ho : HostUnclosed str c) :
    ∃ u : UnclosedHost, u.text = str := by
  obtain ⟨s, rest, rfl, hne, -, -, hcut, hv⟩ := uriCut_scheme h0 hc
  by_cases hr : ∃ r, rest = SLASH :: SLASH :: r
  · obtain ⟨r, rfl⟩ := hr
    have hr0 : NUL ∉ r := fun hm => h0 (by simp [hm])
    obtain ⟨t, hrt, ha, ht⟩ := authorityOf_rest r hr0
    generalize authorityOf r = a at hrt ha
    subst hrt
    have ht0 : NUL ∉ t := fun hm => hr0 (List.mem_append_right _ hm)
    have htext : s ++ COLON :: (SLASH :: SLASH :: (a ++ t)) = s ++ ascii "://" ++ (a ++ t) := by
      rw [List.append_assoc]
      rfl
    rw [cutRest_slashes, cutPath_headState s.length ha (tail_head ht)] at hcut
    rw [htext] at hv ho ⊢
    have hin := headState_inHead a SLASH (authorityStart_inHead s.length a)
    have hdi : (headState SLASH a (authorityStart s.length a)).2.i = s.length + 3 + a.length := by
      rw [(headState_frame a SLASH _).i, authorityStart_i]
    have hlen : (s ++ ascii "://" ++ a).length = s.length + 3 + a.length := by
      rw [List.length_append, List.length_append]
      rfl
    have hdrop : (s ++ ascii "://" ++ (a ++ t)).drop (headState SLASH a (authorityStart s.length a)).2.i = t := by
      rw [hdi, ← hlen, ← List.append_assoc, List.drop_left]
    rw [← hcut] at hv ho
    have hsame := checked_behind hin hdrop ht hv
    have hquiet := (tail_quiet_iff hin ht0 ht).1 hsame
    rw [hsame.valid] at hv
    rw [hsame.unclosed] at ho
    obtain ⟨u, h, w, rfl, hu, hopen, hat, hw, he⟩ := authority_split hv ho
    obtain ⟨hf, h6⟩ := authority_found s hu hopen hat hw he
    obtain ⟨hvs, -, hvh, hvw⟩ := hf.valid.1 hv
    have hlast := (hf.unclosed.1 ho).2
    rw [h6] at hquiet
    exact ⟨⟨s, u, h, w, t, ⟨hne, hvs⟩, hu, hvh, hopen, hlast, (openHost_inner hlast hw).symm.trans he, hvw, hquiet⟩, rfl⟩
  · have hend := cutRest_noHost (n := s.length) fun r h => hr ⟨r, h⟩
    rw [hcut] at hend
    have := ho.1
    omega

namespace UnclosedHost

variable (u : UnclosedHost)

def authority : Bytes := userinfoPart u.userinfo ++ (u.host ++ portPart u.port)

theorem port_plain {v : Bytes} (hv : v ∈ u.port) {b : UInt8} (hb : b ∈ v) :
    b ≠ COLON ∧ b ≠ AT ∧ b ≠ NUL ∧ inAuthority b = true := by
  obtain ⟨h1, h2⟩ := Tinywf.port_valid b (u.port_valid v hv b hb)
  refine ⟨?_, ?_, ?_, h1⟩ <;> (rintro rfl; exact absurd h2 (by decide))

theorem authority_bytes : ∀ b ∈ u.authority, inAuthority b = true ∧ b ≠ NUL := by
  intro b hb
  rw [authority, List.mem_append, List.mem_append] at hb
  rcases hb with hb | hb | hb
  · cases hu : u.userinfo with
    | none => rw [hu, userinfoPart] at hb; cases hb
    | some v =>
      rw [hu, userinfoPart, List.mem_append, List.mem_singleton] at hb
      rcases hb with hb | rfl
      · have := Tinywf.userinfo_valid b (u.userinfo_valid v hu b hb)
        exact ⟨this.1, this.2.1⟩
      · exact ⟨by decide, by decide⟩
  · have := Tinywf.host_valid b (u.host_valid b hb)
    exact ⟨this.1, this.2.1⟩
  · cases hp : u.port with
    | none => rw [hp, portPart] at hb; cases hb
    | some v =>
      rw [hp, portPart, List.mem_cons] at hb
      rcases hb with rfl | hb
      · exact ⟨by decide, by decide⟩
      · have := u.port_plain hp hb
        exact ⟨this.2.2.2, this.2.2.1⟩

theorem noAt : AT ∉ u.host ++ portPart u.port := by
  rw [List.mem_append, not_or]
  refine ⟨fun hm => (Tinywf.host_valid _ (u.host_valid _ hm)).2.2 rfl, fun hm => ?_⟩
  cases hp : u.port with
  | none => rw [hp, portPart] at hm; cases hm
  | some v =>
    rw [hp, portPart, List.mem_cons] at hm
    exact hm.elim (by decide) fun hm => (u.port_plain hp hm).2.1 rfl

theorem tail_begins : u.tail = [] ∨ ∃ b l, u.tail = b :: l ∧ (b = SLASH ∨ b = QUESTION ∨ b = HASH) := by
  rcases u.tail_quiet with h | ⟨l, h⟩ | ⟨l, h⟩ | ⟨l, h, -⟩
  · exact Or.inl h
  · exact Or.inr ⟨SLASH, l, h, Or.inl rfl⟩
  · exact Or.inr ⟨HASH, l, h, Or.inr (Or.inr rfl)⟩
  · exact Or.inr ⟨QUESTION, l, h, Or.inr (Or.inl rfl)⟩

/-- **On each of the texts the copying loop finds an unclosed host.** -/
theorem cut (h0 : NUL ∉ u.text) : ∃ c, uriCut u.text = some c ∧ HostUnclosed u.text c := by
  have ht0 : NUL ∉ u.tail := fun hm => h0 (by simp [text, hostText, hm])
  have hw : ∀ v ∈ u.port, COLON ∉ v := fun v hv hm => (u.port_plain hv hm).1 rfl
  obtain ⟨hf, h6⟩ := authority_found u.scheme u.userinfo_valid u.host_opens u.noAt hw
    ((openHost_inner u.host_open hw).trans u.host_inner)
  have hin := headState_inHead u.authority SLASH (authorityStart_inHead u.scheme.length u.authority)
  have hcut := cutPath_headState u.scheme.length u.authority_bytes (tail_head u.tail_begins)
  have hquiet := u.tail_quiet
  rw [← h6] at hquiet
  have hsame := (tail_quiet_iff (e := (headState SLASH u.authority (authorityStart u.scheme.length u.authority)).1)
    hin ht0 u.tail_begins).2 hquiet
  have hvalid := (hf.valid (t := u.tail)).2 ⟨u.scheme_allowed.2, u.userinfo_valid, u.host_valid, u.port_valid⟩
  refine ⟨_, ?_, (hsame.unclosed u.text).2 (hf.unclosed.2 ⟨u.host_opens, u.host_open⟩)⟩
  show uriCut (u.scheme ++ ascii "://" ++ (u.authority ++ u.tail)) = _
  rw [uriCut_slashes u.scheme_allowed, hcut]
  exact if_pos ((hsame.valid u.text).trans hvalid)

end UnclosedHost

/-- **Reading a URI copies nothing from outside it, and takes two brackets off a bracketed host, exactly on the texts
whose host, if it is opened, is closed.** -/
theorem copies_within (str : Bytes) (h0 : NUL ∉ str) : CopiesWithin str ↔ ¬ ∃ u : UnclosedHost, u.text = str := by
  rw [copiesWithin_iff h0]
  refine not_congr ⟨fun ⟨c, hc, ho⟩ => unclosed_of_cut h0 hc ho, ?_⟩
  rintro ⟨u, rfl⟩
  exact u.cut h0

theorem copies_within_literal : CopiesWithin (ascii "http://[::1]:80/") ↔
    ¬ ∃ u : UnclosedHost, u.text = ascii "http://[::1]:80/" :=
  copies_within (ascii "http://[::1]:80/") (by decide)

/-- The length of the copy of the host `[` is -1; of the host `[ab` the last byte is dropped. -/
theorem copies_unclosed : ¬ CopiesWithin (ascii "http://[") ∧
    (URIParser.parse (fun _ _ => true) (ascii "http://[ab") .fresh).map (fun r => (r.1, r.2.host)) =
      some (0, some (ascii "a")) := by
  refine ⟨fun hw => ?_, by decide +kernel⟩
  have hsome : (uriCut (ascii "http://[")).isSome = true := by decide +kernel
  obtain ⟨c, hc⟩ := Option.isSome_iff_exists.1 hsome
  have hcopy : ∀ c ∈ uriCut (ascii "http://["), UriPart.host ∈ copied (fun _ _ => true) c uriParts ∧
      copyLength (ascii "http://[") c .host < 0 := by decide +kernel
  obtain ⟨hmem, hneg⟩ := hcopy c hc
  have := ((hw (fun _ _ => true) c hc).1 .host hmem).1
  omega

end Tinywf
