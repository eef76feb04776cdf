import Tinywf.UriBrackets
/-!
# UriHead — the authority loop over an authority

What the loop makes of an authority is a function of it (`headState`).  Where the host is opened with a bracket, a `:` has
no effect until one stands behind a `]`; from then on the last one ends the host (`hostCut`).  So each component is found
where it stands in the text (`authority_found`), and an authority whose unclosed host passes the check falls into
components that do (`authority_split`).
-/
namespace Tinywf

open CLib

def userinfoPart : Option Bytes → Bytes
  | none => []
  | some w => w ++ [AT]

def portPart : Option Bytes → Bytes
  | none => []
  | some w => COLON :: w

/-- `scheme://[userinfo@]host[:port]tail`. -/
def hostText (s : Bytes) (u : Option Bytes) (h : Bytes) (w : Option Bytes) (t : Bytes) : Bytes :=
  s ++ ascii "://" ++ (userinfoPart u ++ (h ++ portPart w) ++ t)

/-! ## The state behind an authority -/

/-- What the authority loop does over the bytes of an authority. -/
def headState : UInt8 → Bytes → UriCut → UInt8 × UriCut
  | e, [], c => (e, c)
  | e, b :: l, c =>
    if b = AT then headState b l (c.atUserinfo (l.headD NUL)).next
    else if b = COLON then headState b l (c.atHost e).next
    else headState b l c.next

theorem headState_at (e : UInt8) (l : Bytes) (c : UriCut) :
    headState e (AT :: l) c = headState AT l (c.atUserinfo (l.headD NUL)).next := by
  rw [headState, if_pos rfl]

theorem headState_colon (e : UInt8) (l : Bytes) (c : UriCut) :
    headState e (COLON :: l) c = headState COLON l (c.atHost e).next := by
  rw [headState, if_neg (by decide), if_pos rfl]

theorem headState_plain {b : UInt8} (ha : b ≠ AT) (hc : b ≠ COLON) (e : UInt8) (l : Bytes) (c : UriCut) :
    headState e (b :: l) c = headState b l c.next := by
  rw [headState, if_neg ha, if_neg hc]

/-- The byte ahead of an `@` is looked at only for a bracket. -/
theorem atUserinfo_append (c : UriCut) (l : Bytes) {t : Bytes} (ht : t.headD NUL ≠ LBRACKET) :
    c.atUserinfo ((l ++ t).headD NUL) = c.atUserinfo (l.headD NUL) := by
  cases l with
  | nil =>
    dsimp only [UriCut.atUserinfo, List.nil_append, List.headD_nil]
    rw [if_neg ht, if_neg (show NUL ≠ LBRACKET by decide)]
  | cons x l => rfl

theorem headState_append : ∀ (w : Bytes) {x : Bytes} (e : UInt8) (c : UriCut), x.headD NUL ≠ LBRACKET →
    headState e (w ++ x) c = headState (headState e w c).1 x (headState e w c).2
  | [], _, _, _, _ => rfl
  | b :: w, x, e, c, hx => by
    rw [List.cons_append]
    by_cases ha : b = AT
    · subst ha
      rw [headState_at, headState_at, atUserinfo_append c w hx, headState_append w AT _ hx]
    · by_cases hc : b = COLON
      · subst hc
        rw [headState_colon, headState_colon, headState_append w COLON _ hx]
      · rw [headState_plain ha hc, headState_plain ha hc, headState_append w b _ hx]

theorem authorityLoop_headState : ∀ (a : Bytes) {t : Bytes} (e : UInt8) (c : UriCut),
    (∀ b ∈ a, inAuthority b = true ∧ b ≠ NUL) → t.headD NUL ≠ LBRACKET →
    authorityLoop e (a ++ t) c = authorityLoop (headState e a c).1 t (headState e a c).2
  | [], _, _, _, _, _ => rfl
  | b :: a, t, e, c, ha, ht => by
    have hb := ha b List.mem_cons_self
    have ha' : ∀ x ∈ a, inAuthority x = true ∧ x ≠ NUL := fun x hx => ha x (List.mem_cons_of_mem b hx)
    rw [List.cons_append]
    by_cases hat : b = AT
    · subst hat
      rw [headState_at, ← atUserinfo_append c a ht, ← authorityLoop_headState a AT _ ha' ht, authorityLoop]
      rfl
    · by_cases hc : b = COLON
      · subst hc
        rw [headState_colon, ← authorityLoop_headState a COLON _ ha' ht, authorityLoop]
        rfl
      · rw [headState_plain hat hc, ← authorityLoop_headState a b _ ha' ht, authorityLoop,
          authorityMap_plain hb.1 hb.2 hat hc]

theorem headState_inHead : ∀ (a : Bytes) (e : UInt8) {c : UriCut}, InHead c → InHead (headState e a c).2
  | [], _, _, h => h
  | b :: a, e, c, h => by
    rw [headState]
    split
    · exact headState_inHead a b (h.atUserinfo _)
    · split
      · exact headState_inHead a b (h.atHost e)
      · exact headState_inHead a b h.next

/-- What the authority loop keeps. -/
structure HeadFrame (k : Nat) (c d : UriCut) : Prop where
  i : d.i = c.i + k
  scheme : d.startIdx .scheme = c.startIdx .scheme ∧ d.endIdx .scheme = c.endIdx .scheme
  userinfo : d.startIdx .userinfo = c.startIdx .userinfo

theorem headState_frame : ∀ (a : Bytes) (e : UInt8) (c : UriCut), HeadFrame a.length c (headState e a c).2
  | [], _, _ => ⟨rfl, ⟨rfl, rfl⟩, rfl⟩
  | b :: a, e, c => by
    have step {d : UriCut} (hi : d.i = c.i) (hs : d.startIdx .scheme = c.startIdx .scheme)
        (he : d.endIdx .scheme = c.endIdx .scheme) (hu : d.startIdx .userinfo = c.startIdx .userinfo) :
        HeadFrame (b :: a).length c (headState b a d.next).2 := by
      obtain ⟨h1, h2, h3⟩ := headState_frame a b d.next
      refine ⟨?_, ⟨h2.1.trans hs, h2.2.trans he⟩, h3.trans hu⟩
      rw [h1, UriCut.next_i, hi, List.length_cons]
      omega
    rw [headState]
    split
    · exact step (by simp) (by simp) (by simp) (by simp)
    · split
      · rw [UriCut.atHost_eq]
        split
        · exact step rfl rfl rfl rfl
        · exact step rfl (by simp) (by simp) (by simp)
      · exact step rfl rfl rfl rfl

/-- Without an `@` the userinfo and the start of the host stay. -/
theorem headState_noAt : ∀ (a : Bytes) (e : UInt8) (c : UriCut), AT ∉ a →
    (headState e a c).2.endIdx .userinfo = c.endIdx .userinfo ∧
      (headState e a c).2.startIdx .host = c.startIdx .host
  | [], _, _, _ => ⟨rfl, rfl⟩
  | b :: a, e, c, h => by
    rw [List.mem_cons, not_or] at h
    rw [headState, if_neg (Ne.symm h.1)]
    split
    · obtain ⟨h1, h2⟩ := headState_noAt a b (c.atHost e).next h.2
      rw [h1, h2, UriCut.atHost_eq]
      split
      · exact ⟨rfl, rfl⟩
      · exact ⟨by simp, by simp⟩
    · exact headState_noAt a b c.next h.2

/-! ## The host -/

/-- Whether the loop acts on a `:`. -/
def effective (ipv6 : Bool) : UInt8 → Bytes → Bool
  | _, [] => false
  | e, b :: l => (b == COLON && (!ipv6 || e == RBRACKET)) || effective ipv6 b l

theorem effective_false : ∀ (x : Bytes) (e : UInt8), effective false e x = true ↔ COLON ∈ x
  | [], _ => by simp [effective]
  | b :: x, e => by
    rw [effective, Bool.or_eq_true, effective_false x b, List.mem_cons]
    simp only [Bool.not_false, Bool.true_or, Bool.and_true, beq_iff_eq]
    exact or_congr_left eq_comm

theorem effective_true_cons : ∀ (x : Bytes) (e : UInt8), effective true e x = true ↔ [RBRACKET, COLON] <:+: e :: x
  | [], e => by simp [effective, List.infix_cons_iff]
  | b :: x, e => by
    have hinfix : [RBRACKET, COLON] <:+: e :: b :: x ↔ _ := List.infix_cons_iff
    rw [effective, Bool.or_eq_true, effective_true_cons x b, hinfix,
      List.cons_prefix_cons, List.cons_prefix_cons]
    simp only [Bool.not_true, Bool.false_or, Bool.and_eq_true, beq_iff_eq, List.nil_prefix, and_true]
    constructor
    · rintro (⟨h1, h2⟩ | h)
      · exact Or.inl ⟨h2.symm, h1.symm⟩
      · exact Or.inr h
    · rintro (⟨h1, h2⟩ | h)
      · exact Or.inl ⟨h2.symm, h1.symm⟩
      · exact Or.inr h

theorem effective_true {e : UInt8} (he : e ≠ RBRACKET) (x : Bytes) :
    effective true e x = true ↔ [RBRACKET, COLON] <:+: x := by
  rw [effective_true_cons, List.infix_cons_iff, List.cons_prefix_cons]
  exact ⟨fun h => h.resolve_left fun h => he h.1.symm, Or.inr⟩

/-- No `:` that matters: the loop moves on. -/
theorem headState_ineffective : ∀ (x : Bytes) (e : UInt8) (c : UriCut), AT ∉ x → effective c.inIpv6 e x = false →
    (headState e x c).2 = c.advance x.length
  | [], _, _, _, _ => rfl
  | b :: x, e, c, ha, he => by
    rw [List.mem_cons, not_or] at ha
    rw [effective, Bool.or_eq_false_iff] at he
    have hadv : c.next.advance x.length = c.advance (b :: x).length := by
      simp only [UriCut.advance, UriCut.next, List.length_cons]
      congr 1
      omega
    have hrest := headState_ineffective x b c.next ha.2 he.2
    rw [headState, if_neg (Ne.symm ha.1)]
    split
    · rename_i hb
      have hstay : c.atHost e = c := by
        rw [UriCut.atHost_eq, if_pos]
        have := he.1
        rw [hb] at this
        simpa using this
      rw [hstay, hrest, hadv]
    · rw [hrest, hadv]

/-- The `:` that ends the host is the last one. -/
theorem headState_port (w : Bytes) (hw : COLON ∉ w) (hwa : AT ∉ w) : ∀ (h : Bytes) (e : UInt8) (c : UriCut), AT ∉ h →
    effective c.inIpv6 e (h ++ COLON :: w) = true →
    let d := (headState e (h ++ COLON :: w) c).2
    d.preState = .port ∧ d.inIpv6 = false ∧
      (∀ p, d.startIdx p = if p = .port then c.i + h.length + 1 else c.startIdx p) ∧
      ∀ p, d.endIdx p = if p = .host then c.i + h.length else c.endIdx p
  | [], e, c, _, he => by
    have hno (ipv6 : Bool) : effective ipv6 COLON w = false := by
      cases ipv6 with
      | false =>
        rw [Bool.eq_false_iff, ne_eq, effective_false]
        exact hw
      | true =>
        rw [Bool.eq_false_iff, ne_eq, effective_true (by decide)]
        exact fun hi => hw (hi.subset (by simp))
    rw [List.nil_append, effective, hno, Bool.or_false] at he
    have hend : c.atHost e = c.endHost := by
      rw [UriCut.atHost_eq, if_neg]
      rintro ⟨h1, h2⟩
      rw [h1] at he
      simp [h2] at he
    dsimp only
    rw [List.nil_append, headState_colon, hend, headState_ineffective w COLON c.endHost.next hwa (hno _)]
    exact ⟨rfl, rfl, fun p => by simp, fun p => by simp⟩
  | b :: h, e, c, ha, he => by
    rw [List.mem_cons, not_or] at ha
    rw [List.cons_append, effective, Bool.or_eq_true] at he
    have hlen : c.i + (b :: h).length = c.i + 1 + h.length := by rw [List.length_cons]; omega
    have hcolon : COLON ∈ h ++ COLON :: w := by simp
    rw [List.cons_append, headState, if_neg (Ne.symm ha.1), hlen]
    split
    · rename_i hb
      rw [UriCut.atHost_eq]
      split
      · rename_i hs
        have hrest : effective c.inIpv6 b (h ++ COLON :: w) = true := by
          rcases he with he | he
          · rw [hs.1] at he
            simp [hs.2] at he
          · exact he
        exact headState_port w hw hwa h b c.next ha.2 hrest
      · obtain ⟨h1, h2, h3, h4⟩ :=
          headState_port w hw hwa h b c.endHost.next ha.2 ((effective_false _ b).2 hcolon)
        refine ⟨h1, h2, fun p => ?_, fun p => ?_⟩
        · rw [h3, UriCut.next_startIdx, UriCut.endHost_startIdx]
          split <;> rfl
        · rw [h4, UriCut.next_endIdx, UriCut.endHost_endIdx]
          split <;> rfl
    · rename_i hb
      have hrest : effective c.inIpv6 b (h ++ COLON :: w) = true := by
        rcases he with he | he
        · simp [hb] at he
        · exact he
      exact headState_port w hw hwa h b c.next ha.2 hrest

/-- The indices of component `p` are those of `o`, or none if it is not there; an empty component may be anywhere. -/
structure HostCut (c d : UriCut) (h : Bytes) (port : Option Bytes) : Prop where
  ipv6 : d.inIpv6 = port.isNone
  starts : ∀ p, p ≠ .port → d.close.startIdx p = c.startIdx p
  ends : ∀ p, p ≠ .host → p ≠ .port → d.close.endIdx p = c.endIdx p
  host : d.close.endIdx .host = c.i + h.length
  port_none : port = none → d.close.endIdx .port = c.endIdx .port
  port_some : ∀ w ∈ port, d.close.startIdx .port = c.i + h.length + 1 ∧
    d.close.endIdx .port = c.i + h.length + 1 + w.length

/-- What the loop makes of a host and a port behind an effective `:`. -/
theorem hostCut_port {h w : Bytes} {e : UInt8} {c : UriCut} (hath : AT ∉ h) (hatw : AT ∉ w) (hw : COLON ∉ w)
    (he : effective c.inIpv6 e (h ++ COLON :: w) = true) : HostCut c (headState e (h ++ COLON :: w) c).2 h (some w) := by
  have hi := (headState_frame (h ++ COLON :: w) e c).i
  obtain ⟨h1, h2, h3, h4⟩ := headState_port w hw hatw h e c hath he
  have hend := (headState e (h ++ COLON :: w) c).2.close_endIdx (by rw [h1]; decide)
  rw [h1] at hend
  refine ⟨h2, fun p hp => ?_, fun p hp hp' => ?_, ?_, fun hn => (by cases hn), fun w' hw' => ?_⟩
  · rw [UriCut.close_startIdx, h3, if_neg hp]
  · rw [hend, if_neg hp', h4, if_neg hp]
  · rw [hend, if_neg (by decide), h4, if_pos rfl]
  · cases hw'
    rw [List.length_append, List.length_cons] at hi
    refine ⟨by rw [UriCut.close_startIdx, h3, if_pos rfl], ?_⟩
    rw [hend, if_pos rfl, hi]
    omega

/-- **What the loop makes of an opened host and a port.** -/
theorem hostCut {h : Bytes} {port : Option Bytes} {e : UInt8} {c : UriCut} (h6 : c.inIpv6 = true)
    (hpre : c.preState = .host) (hat : AT ∉ h ++ portPart port) (hw : ∀ w ∈ port, COLON ∉ w)
    (he : effective true e (h ++ portPart port) = port.isSome) :
    HostCut c (headState e (h ++ portPart port) c).2 h port := by
  cases port with
  | none =>
    rw [portPart, List.append_nil] at hat he ⊢
    rw [headState_ineffective h e c hat (by rw [h6]; exact he)]
    have hend := (c.advance h.length).close_endIdx (by rw [UriCut.advance_preState, hpre]; decide)
    rw [UriCut.advance_preState, hpre] at hend
    refine ⟨by rw [UriCut.advance_inIpv6, h6]; rfl, fun p _ => by rw [UriCut.close_startIdx]; rfl, fun p hp _ => ?_, ?_,
      fun _ => ?_, fun w hw => (by cases hw)⟩
    · rw [hend, if_neg hp]; rfl
    · rw [hend, if_pos rfl]; rfl
    · rw [hend, if_neg (by decide)]; rfl
  | some w =>
    rw [portPart] at hat he ⊢
    exact hostCut_port (fun hm => hat (List.mem_append_left _ hm))
      (fun hm => hat (List.mem_append_right _ (List.mem_cons_of_mem _ hm))) (hw w rfl) (by rw [h6]; exact he)

theorem exists_last {b : UInt8} {l : Bytes} (h : b ∈ l) : ∃ s t, l = s ++ b :: t ∧ b ∉ t := by
  obtain ⟨s, t, hst, hno⟩ := List.eq_append_cons_of_mem (List.mem_reverse.2 h)
  refine ⟨t.reverse, s.reverse, ?_, fun hm => hno (List.mem_reverse.1 hm)⟩
  have := congrArg List.reverse hst
  rw [List.reverse_reverse] at this
  rw [this]
  simp

/-- Every text behind a bracket falls into a host and a port. -/
theorem split_port (e : UInt8) (x : Bytes) : ∃ h port, x = h ++ portPart port ∧ (∀ w ∈ port, COLON ∉ w) ∧
    effective true e x = port.isSome := by
  cases he : effective true e x with
  | false => exact ⟨x, none, (List.append_nil x).symm, fun w hw => (by cases hw), rfl⟩
  | true =>
    have hmem : COLON ∈ x := by
      rw [effective_true_cons] at he
      obtain ⟨s, t, hst⟩ := he
      have htail : x = (s ++ [RBRACKET, COLON] ++ t).tail := by rw [hst]; rfl
      rw [htail]
      cases s with
      | nil => simp
      | cons a s => simp
    obtain ⟨h, w, hx, hno⟩ := exists_last hmem
    exact ⟨h, some w, hx, fun w' hw' => (by cases hw'; exact hno), rfl⟩

/-! ## The authority -/

/-- The loop's state over a userinfo differs only in what the `@` behind it sets again. -/
theorem headState_userinfo : ∀ (w : Bytes) (e : UInt8) (c : UriCut), c.inIpv6 = false →
    (∀ b ∈ w, validChar .userinfo b = true) → SameButHost c (headState e w c).2
  | [], _, _, hc, _ => ⟨hc, rfl, fun _ _ => rfl, fun _ _ => rfl⟩
  | b :: w, e, c, hc, h => by
    have hb := userinfo_valid b (h b List.mem_cons_self)
    have hw : ∀ x ∈ w, validChar .userinfo x = true := fun x hx => h x (List.mem_cons_of_mem b hx)
    rw [headState, if_neg hb.2.2.2]
    split
    · have hend : c.atHost e = c.endHost := by rw [UriCut.atHost_eq, hc]; simp
      have hd := headState_userinfo w b c.endHost.next rfl hw
      rw [hend]
      refine ⟨hd.ipv6, hd.skip, fun p hp => ?_, fun p hp => ?_⟩
      · rw [hd.starts p hp, UriCut.next_startIdx, UriCut.endHost_startIdx, if_neg hp]
      · rw [hd.ends p hp, UriCut.next_endIdx, UriCut.endHost_endIdx, if_neg hp]
    · have hd := headState_userinfo w b c.next hc hw
      exact ⟨hd.ipv6, hd.skip, hd.starts, hd.ends⟩

/-- The components of an authority are where they stand in the text. -/
structure Found (s : Bytes) (u : Option Bytes) (h : Bytes) (w : Option Bytes) (c : UriCut) : Prop where
  scheme : Holds c .scheme 0 (some s)
  userinfo : Holds c .userinfo (s.length + 3) u
  host : Holds c .host (s.length + 3 + (userinfoPart u).length) (some h)
  port : Holds c .port (s.length + 3 + (userinfoPart u).length + h.length + 1) w

theorem HostCut.found {scheme h : Bytes} {userinfo port : Option Bytes} {c d : UriCut} (hc : HostCut c d h port)
    (hs : c.startIdx .scheme = 0 ∧ c.endIdx .scheme = scheme.length)
    (hu : Holds c .userinfo (scheme.length + 3) userinfo) (hp : c.endIdx .port = 0)
    (hi : c.i = scheme.length + 3 + (userinfoPart userinfo).length) (hh : c.startIdx .host = c.i) :
    Found scheme userinfo h port d.close := by
  refine ⟨⟨?_, ?_⟩, hu.congr ?_ ?_, ⟨?_, ?_⟩, ?_⟩
  · rw [hc.starts .scheme (by decide), hs.1]
  · rw [hc.ends .scheme (by decide) (by decide), hs.2, Nat.zero_add]
  · exact hc.starts .userinfo (by decide)
  · exact hc.ends .userinfo (by decide) (by decide)
  · rw [hc.starts .host (by decide), hh, hi]
  · rw [hc.host, hi]
  · cases port with
    | none =>
      show _ ≤ _
      rw [hc.port_none rfl, hp]
      exact Nat.zero_le _
    | some w =>
      obtain ⟨h1, h2⟩ := hc.port_some w rfl
      rw [hi] at h1 h2
      exact ⟨h1, h2⟩

/-- **Behind an authority with an opened host every component has been found.** -/
theorem authority_found (scheme : Bytes) {h : Bytes} {userinfo port : Option Bytes}
    (hu : ∀ w ∈ userinfo, ∀ b ∈ w, validChar .userinfo b = true) (hopen : h.head? = some LBRACKET)
    (hat : AT ∉ h ++ portPart port) (hw : ∀ w ∈ port, COLON ∉ w)
    (he : [RBRACKET, COLON] <:+: h ++ portPart port ↔ port.isSome = true) :
    let a := userinfoPart userinfo ++ (h ++ portPart port)
    let d := (headState SLASH a (authorityStart scheme.length a)).2
    Found scheme userinfo h port d.close ∧ d.inIpv6 = port.isNone := by
  intro a d
  have hhead : (h ++ portPart port).headD NUL = LBRACKET := by
    cases h with
    | nil => cases hopen
    | cons b h => cases hopen; rfl
  have heff {e : UInt8} (hne : e ≠ RBRACKET) : effective true e (h ++ portPart port) = port.isSome := by
    rw [Bool.eq_iff_iff, effective_true hne, he]
  have hs := openAuthority_atStart scheme.length (a.headD NUL)
  have hs6 := openAuthority_ipv6 scheme.length (a.headD NUL)
  cases hui : userinfo with
  | none =>
    have ha : a = h ++ portPart port := by show userinfoPart userinfo ++ _ = _; rw [hui]; rfl
    have hd : d = (headState SLASH (h ++ portPart port) (authorityStart scheme.length (h ++ portPart port))).2 := by
      show (headState SLASH a (authorityStart scheme.length a)).2 = _
      rw [ha]
    rw [ha, hhead] at hs hs6
    have hstart : authorityStart scheme.length (h ++ portPart port) = (schemeEnd scheme.length).openAuthority LBRACKET := by
      rw [authorityStart, hhead]
    rw [← hstart] at hs hs6
    have hcut := hostCut (e := SLASH) (by rw [hs6]; rfl) hs.2.1 hat hw (heff (by decide))
    rw [hd]
    refine ⟨hcut.found ⟨hs.2.2.2.1, hs.2.2.2.2.1⟩ ?_ hs.2.2.2.2.2.2 hs.1 (hs.2.2.1.trans hs.1.symm), hcut.ipv6⟩
    exact hs.2.2.2.2.2.1.trans_le (Nat.zero_le _)
  | some w =>
    have hwv := hu w hui
    have ha : a = w ++ AT :: (h ++ portPart port) := by
      show userinfoPart userinfo ++ _ = _
      rw [hui, userinfoPart, List.append_assoc]
      rfl
    have hfirst : a.headD NUL ≠ LBRACKET := by
      rw [ha]
      cases w with
      | nil => exact (by decide : AT ≠ LBRACKET)
      | cons x w => exact (userinfo_valid x (hwv x List.mem_cons_self)).2.2.1
    have hsu := openAuthority_userinfo scheme.length hfirst
    rw [decide_eq_false hfirst] at hs6
    rw [show (schemeEnd scheme.length).openAuthority (a.headD NUL) = authorityStart scheme.length a from rfl] at hs hs6 hsu
    have hsame := headState_userinfo w SLASH (authorityStart scheme.length a) hs6 hwv
    have hframe := headState_frame w SLASH (authorityStart scheme.length a)
    generalize hc : ((headState SLASH w (authorityStart scheme.length a)).2.atUserinfo LBRACKET).next = c
    have hd : d = (headState AT (h ++ portPart port) c).2 := by
      show (headState SLASH a (authorityStart scheme.length a)).2 = _
      rw [← hc, ← hhead, ← headState_at (headState SLASH w (authorityStart scheme.length a)).1, ← headState_append w, ← ha]
      exact (by decide : AT ≠ LBRACKET)
    have hci : c.i = scheme.length + 3 + (w.length + 1) := by
      rw [← hc, UriCut.next_i, UriCut.atUserinfo_i, hframe.i, hs.1]
      omega
    have hcut := hostCut (c := c) (e := AT) (by rw [← hc]; simp) (by rw [← hc]; rfl) hat hw (heff (by decide))
    rw [hd]
    refine ⟨hcut.found ⟨?_, ?_⟩ ⟨?_, ?_⟩ ?_ ?_ ?_, hcut.ipv6⟩
    · rw [← hc]; simpa [hsame.starts] using hs.2.2.2.1
    · rw [← hc]; simpa [hsame.ends] using hs.2.2.2.2.1
    · rw [← hc]; simpa [hsame.starts] using hsu
    · rw [← hc]; simpa [hs.1] using hframe.i
    · rw [← hc]; simpa [hsame.ends] using hs.2.2.2.2.2.2
    · rw [hci, userinfoPart, List.length_append]; rfl
    · rw [← hc]; simp

/-! ## What the check sees -/

theorem span_part (a w t : Bytes) {k n : Nat} (hk : k = a.length) (hn : n = a.length + w.length) :
    span (a ++ (w ++ t)) k n = w := by
  subst hk hn
  rw [span, List.drop_left, Nat.add_sub_cancel_left, List.take_left]

theorem getD_part (a w t : Bytes) {k : Nat} (hk : a.length ≤ k) (hlt : k < a.length + w.length) :
    (a ++ (w ++ t)).getD k NUL = w.getD (k - a.length) NUL := by
  rw [List.getD_eq_getElem?_getD, List.getElem?_append_right hk, List.getElem?_append_left (by omega),
    List.getD_eq_getElem?_getD]

section Text

variable {s h t : Bytes} {u w : Option Bytes} {c : UriCut}

theorem Found.span_scheme (hf : Found s u h w c) :
    span (hostText s u h w t) (c.startIdx .scheme) (c.endIdx .scheme) = s := by
  have htext : hostText s u h w t = [] ++ (s ++ (ascii "://" ++ (userinfoPart u ++ (h ++ portPart w) ++ t))) := by
    rw [hostText, List.append_assoc]
    rfl
  rw [htext]
  exact span_part [] s _ hf.scheme.1 (by rw [hf.scheme.2]; rfl)

theorem Found.span_host (hf : Found s u h w c) :
    span (hostText s u h w t) (c.startIdx .host) (c.endIdx .host) = h := by
  have htext : hostText s u h w t = (s ++ ascii "://" ++ userinfoPart u) ++ (h ++ (portPart w ++ t)) := by
    simp only [hostText, List.append_assoc]
  have hlen : (s ++ ascii "://" ++ userinfoPart u).length = s.length + 3 + (userinfoPart u).length := by
    rw [List.length_append, List.length_append]
    rfl
  rw [htext]
  exact span_part _ h _ (by rw [hlen]; exact hf.host.1) (by rw [hlen]; exact hf.host.2)

theorem span_empty {str : Bytes} {a b : Nat} (h : b ≤ a) : span str a b = [] := by
  rw [span, Nat.sub_eq_zero_of_le h, List.take_zero]

theorem Found.span_userinfo (hf : Found s u h w c) :
    span (hostText s u h w t) (c.startIdx .userinfo) (c.endIdx .userinfo) = u.getD [] := by
  have hu := hf.userinfo
  cases u with
  | none => exact span_empty hu
  | some v =>
    have htext : hostText s (some v) h w t = (s ++ ascii "://") ++ (v ++ ([AT] ++ (h ++ portPart w) ++ t)) := by
      simp only [hostText, userinfoPart, List.append_assoc]
    have hlen : (s ++ ascii "://").length = s.length + 3 := List.length_append
    rw [htext]
    exact span_part _ v _ (by rw [hlen]; exact hu.1) (by rw [hlen]; exact hu.2)

theorem Found.span_port (hf : Found s u h w c) :
    span (hostText s u h w t) (c.startIdx .port) (c.endIdx .port) = w.getD [] := by
  have hw := hf.port
  cases w with
  | none => exact span_empty hw
  | some v =>
    have htext : hostText s u h (some v) t = (s ++ ascii "://" ++ userinfoPart u ++ h ++ [COLON]) ++ (v ++ t) := by
      simp [hostText, portPart]
    have hlen : (s ++ ascii "://" ++ userinfoPart u ++ h ++ [COLON]).length =
        s.length + 3 + (userinfoPart u).length + h.length + 1 := by
      simp only [List.length_append]
      rfl
    rw [htext]
    exact span_part _ v _ (by rw [hlen]; exact hw.1) (by rw [hlen]; exact hw.2)

theorem all_getD {p : UriPart} {o : Option Bytes} :
    (o.getD []).all (validChar p) = true ↔ ∀ v ∈ o, ∀ b ∈ v, validChar p b = true := by
  cases o with
  | none => exact ⟨fun _ v hv => (by cases hv), fun _ => rfl⟩
  | some v =>
    rw [Option.getD_some, List.all_eq_true]
    exact ⟨fun h v' hv' => (by cases hv'; exact h), fun h => h v rfl⟩

/-- **The check sees the components.** -/
theorem Found.valid (hf : Found s u h w c) : charsValid (hostText s u h w t) c = true ↔
    (∀ b ∈ s, validChar .scheme b = true) ∧ (∀ v ∈ u, ∀ b ∈ v, validChar .userinfo b = true) ∧
      (∀ b ∈ h, validChar .host b = true) ∧ ∀ v ∈ w, ∀ b ∈ v, validChar .port b = true := by
  rw [charsValid, checkedParts]
  simp only [List.all_cons, List.all_nil, Bool.and_true, Bool.and_eq_true]
  rw [hf.span_scheme, hf.span_userinfo, hf.span_host, hf.span_port, all_getD, all_getD, List.all_eq_true,
    List.all_eq_true]

theorem Found.unclosed (hf : Found s u h w c) : HostUnclosed (hostText s u h w t) c ↔
    h.head? = some LBRACKET ∧ h.getLast? ≠ some RBRACKET := by
  have htext : hostText s u h w t = (s ++ ascii "://" ++ userinfoPart u) ++ (h ++ (portPart w ++ t)) := by
    simp only [hostText, List.append_assoc]
  have hlen : (s ++ ascii "://" ++ userinfoPart u).length = s.length + 3 + (userinfoPart u).length := by
    rw [List.length_append, List.length_append]
    rfl
  have h1 : c.startIdx .host = (s ++ ascii "://" ++ userinfoPart u).length := by rw [hlen]; exact hf.host.1
  have h2 : c.endIdx .host = (s ++ ascii "://" ++ userinfoPart u).length + h.length := by rw [hlen]; exact hf.host.2
  rw [HostUnclosed, htext, h1, h2]
  generalize s ++ ascii "://" ++ userinfoPart u = a
  cases h with
  | nil => exact ⟨fun hh => absurd hh.1 (Nat.lt_irrefl _), fun hh => (by cases hh.1)⟩
  | cons b h =>
    have hl : (b :: h).length = h.length + 1 := List.length_cons
    rw [getD_part a (b :: h) _ (Nat.le_refl _) (by omega), getD_part a (b :: h) _ (by omega) (by omega),
      Nat.sub_self, List.getLast?_eq_getElem?, show a.length + (b :: h).length - 1 - a.length = (b :: h).length - 1 by omega]
    have hlast : (b :: h)[(b :: h).length - 1]? = some ((b :: h).getD ((b :: h).length - 1) NUL) := by
      rw [List.getD_eq_getElem?_getD, List.getElem?_eq_getElem (by omega), Option.getD_some]
    rw [hlast]
    constructor
    · rintro ⟨-, hb, hr⟩
      exact ⟨congrArg some hb, fun he => hr (Option.some.inj he)⟩
    · rintro ⟨hb, hr⟩
      exact ⟨by omega, Option.some.inj hb, fun he => hr (congrArg some he)⟩

end Text

/-! ## Any authority whose host is not closed -/

theorem InHead.close_userinfo {d : UriCut} (hd : InHead d) :
    d.close.startIdx .userinfo = d.startIdx .userinfo ∧ d.close.endIdx .userinfo = d.endIdx .userinfo := by
  rw [UriCut.close_startIdx, UriCut.close_endIdx d hd.pre_checked.1]
  rcases hd.pre with h | h <;> rw [h] <;> exact ⟨rfl, rfl⟩

theorem InHead.close_ends {d : UriCut} (hd : InHead d) (p : UriPart) : d.close.endIdx p ≤ d.i := by
  rw [UriCut.close_endIdx d hd.pre_checked.1]
  split
  · exact Nat.le_refl _
  · exact hd.ends p

/-- A host at `k` with an opening bracket: what stands there begins with it. -/
theorem bracket_head {a x t : Bytes} {c : UriCut} (hstart : c.startIdx .host = a.length)
    (hend : c.endIdx .host ≤ a.length + x.length) (ho : HostUnclosed (a ++ (x ++ t)) c) : x.head? = some LBRACKET := by
  obtain ⟨hlt, hb, -⟩ := ho
  rw [hstart] at hlt hb
  rw [getD_part a x t (Nat.le_refl _) (by omega), Nat.sub_self] at hb
  cases x with
  | nil => cases hb
  | cons b x => exact congrArg some hb

theorem head_split {x h : Bytes} {w : Option Bytes} (hx : x = h ++ portPart w) (hb : x.head? = some LBRACKET) :
    h.head? = some LBRACKET := by
  cases h with
  | cons b h => rw [hx] at hb; exact hb
  | nil =>
    cases w with
    | none => rw [hx] at hb; cases hb
    | some w =>
      rw [hx] at hb
      exact absurd (Option.some.inj hb) (by decide)

/-- **An authority that leaves an unclosed host, if its components pass the check, is one of those spelled out.** -/
theorem authority_split {s a t : Bytes}
    (hv : charsValid (s ++ ascii "://" ++ (a ++ t)) (headState SLASH a (authorityStart s.length a)).2.close = true)
    (ho : HostUnclosed (s ++ ascii "://" ++ (a ++ t)) (headState SLASH a (authorityStart s.length a)).2.close) :
    ∃ u h w, a = userinfoPart u ++ (h ++ portPart w) ∧ (∀ v ∈ u, ∀ b ∈ v, validChar .userinfo b = true) ∧
      h.head? = some LBRACKET ∧ AT ∉ h ++ portPart w ∧ (∀ v ∈ w, COLON ∉ v) ∧
      ([RBRACKET, COLON] <:+: h ++ portPart w ↔ w.isSome = true) := by
  have hstart := authorityStart_inHead s.length a
  have hi0 := authorityStart_i s.length a
  have hs := openAuthority_atStart s.length (a.headD NUL)
  rw [show (schemeEnd s.length).openAuthority (a.headD NUL) = authorityStart s.length a from rfl] at hs
  have hin := headState_inHead a SLASH hstart
  have hframe := headState_frame a SLASH (authorityStart s.length a)
  have hends := hin.close_ends
  have huser := hin.close_userinfo
  have hlen : (s ++ ascii "://").length = s.length + 3 := List.length_append
  generalize hd : (headState SLASH a (authorityStart s.length a)).2 = d at *
  have hdi : d.i = s.length + 3 + a.length := by rw [hframe.i, hi0]
  have hinfix {e : UInt8} {x : Bytes} {w : Option Bytes} (he : e ≠ RBRACKET) (h : effective true e x = w.isSome) :
      [RBRACKET, COLON] <:+: x ↔ w.isSome = true := by rw [← effective_true he, h]
  by_cases hat : AT ∈ a
  · obtain ⟨v, x, hx, hno⟩ := exists_last hat
    generalize hc : (headState SLASH v (authorityStart s.length a)).2 = c at *
    have hcf := headState_frame v SLASH (authorityStart s.length a)
    rw [hc] at hcf
    have hd' : d = (headState AT x (c.atUserinfo (x.headD NUL)).next).2 := by
      rw [← hd, ← hc, ← headState_at (headState SLASH v (authorityStart s.length a)).1, ← headState_append v, ← hx]
      exact (by decide : AT ≠ LBRACKET)
    obtain ⟨hue, hhs⟩ := headState_noAt x AT (c.atUserinfo (x.headD NUL)).next hno
    rw [← hd'] at hue hhs
    have hue' : d.endIdx .userinfo = s.length + 3 + v.length := by
      rw [hue, UriCut.next_endIdx, UriCut.atUserinfo_endIdx, if_pos rfl, hcf.i, hi0]
    have hhs' : d.startIdx .host = s.length + 3 + (v.length + 1) := by
      rw [hhs, UriCut.next_startIdx, UriCut.atUserinfo_startIdx, if_pos rfl, hcf.i, hi0]
      omega
    have hall := List.all_eq_true.1 hv .userinfo (by decide)
    rw [huser.1, huser.2, hue', hframe.userinfo] at hall
    -- a userinfo that begins with a bracket has no start of its own, and takes in the slashes
    have hfirst : a.headD NUL ≠ LBRACKET := by
      intro hb
      have h0 : (authorityStart s.length a).startIdx .userinfo = 0 := by
        rw [authorityStart, hb, UriCut.openAuthority]
        simp [schemeEnd, UriCut.init]
      rw [h0] at hall
      have hslash : (s ++ ascii "://" ++ (a ++ t))[s.length + 1]? = some SLASH := by
        rw [List.append_assoc, List.getElem?_append_right (by omega), Nat.add_sub_cancel_left]
        rfl
      have := List.all_eq_true.1 hall SLASH (mem_span hslash (Nat.zero_le _) (by omega))
      exact absurd this (by decide)
    rw [show (authorityStart s.length a).startIdx .userinfo = s.length + 3 from openAuthority_userinfo s.length hfirst]
      at hall
    have htext : s ++ ascii "://" ++ (a ++ t) = (s ++ ascii "://") ++ (v ++ (AT :: x ++ t)) := by
      rw [hx, List.append_assoc v]
    have htext' : s ++ ascii "://" ++ (a ++ t) = (s ++ ascii "://" ++ (v ++ [AT])) ++ (x ++ t) := by
      rw [hx]
      simp only [List.append_assoc, List.cons_append, List.nil_append]
    have hlen' : (s ++ ascii "://" ++ (v ++ [AT])).length = s.length + 3 + (v.length + 1) := by
      rw [List.length_append, hlen, List.length_append]
      rfl
    have hav : a.length = v.length + 1 + x.length := by
      rw [hx, List.length_append, List.length_cons]
      omega
    rw [htext, span_part _ v _ hlen.symm (by rw [hlen])] at hall
    rw [htext'] at ho
    have hb : x.head? = some LBRACKET := by
      refine bracket_head ?_ ?_ ho
      · rw [UriCut.close_startIdx, hhs', hlen']
      · have := hends .host
        omega
    obtain ⟨h, w, hxw, hw, he⟩ := split_port AT x
    refine ⟨some v, h, w, ?_, ?_, head_split hxw hb, hxw ▸ hno, hw, ?_⟩
    · rw [hx, hxw, userinfoPart, List.append_assoc]
      rfl
    · intro v' hv'
      cases hv'
      exact List.all_eq_true.1 hall
    · rw [← hxw]
      exact hinfix (by decide) he
  · obtain ⟨-, hhs⟩ := headState_noAt a SLASH (authorityStart s.length a) hat
    rw [hd, hs.2.2.1] at hhs
    have hb : a.head? = some LBRACKET := by
      refine bracket_head ?_ ?_ ho
      · rw [UriCut.close_startIdx, hhs, hlen]
      · have := hends .host
        omega
    obtain ⟨h, w, hxw, hw, he⟩ := split_port SLASH a
    refine ⟨none, h, w, hxw, fun v hv => (by cases hv), head_split hxw hb, hxw ▸ hat, hw, ?_⟩
    rw [← hxw]
    exact hinfix (by decide) he

end Tinywf
