import Tinywf.UriAuthority
/-!
# UriCompose — parsing a composed URI

A URI is composed of components whose bytes their tables allow (`UriText`).  Parsing it gives the components back,
except where a query follows the authority directly and holds a byte the authority loop still acts on: then a `?`
restarts the query, and an `@` or an effective `:` ends in a rejection (`parse_compose`).
-/
namespace Tinywf
open CLib

/-- A host: a name, or what stands between brackets. -/
inductive HostText where
  | name (h : Bytes)
  | literal (h : Bytes)
deriving DecidableEq, Repr

def HostText.content : HostText → Bytes
  | .name h => h
  | .literal h => h

def HostText.text : HostText → Bytes
  | .name h => h
  | .literal h => LBRACKET :: (h ++ [RBRACKET])

/-- A component that is there: not empty, and of the bytes its table allows. -/
def Allowed (p : UriPart) (w : Bytes) : Prop := w ≠ [] ∧ ∀ b ∈ w, validChar p b = true

/-- The components of a URI. -/
structure UriText where
  scheme : Bytes
  userinfo : Option Bytes
  host : HostText
  port : Option Bytes
  path : Bytes
  query : Option Bytes
  fragment : Option Bytes
  scheme_allowed : Allowed .scheme scheme
  userinfo_allowed : ∀ w ∈ userinfo, Allowed .userinfo w
  host_allowed : Allowed .host host.content
  host_brackets : LBRACKET ∉ host.content ∧ RBRACKET ∉ host.content
  host_name : ∀ h, host = .name h → COLON ∉ h
  port_allowed : ∀ w ∈ port, Allowed .port w
  path_slash : path = [] ∨ path.head? = some SLASH
  path_bytes : QUESTION ∉ path ∧ HASH ∉ path ∧ NUL ∉ path
  query_bytes : ∀ w ∈ query, w ≠ [] ∧ HASH ∉ w ∧ NUL ∉ w
  fragment_bytes : ∀ w ∈ fragment, w ≠ [] ∧ NUL ∉ w

namespace UriText

def userinfoText (u : UriText) : Bytes := match u.userinfo with
  | none => []
  | some w => w ++ [AT]

def portText (u : UriText) : Bytes := match u.port with
  | none => []
  | some w => COLON :: w

def queryText (u : UriText) : Bytes := match u.query with
  | none => []
  | some w => QUESTION :: w

def fragmentText (u : UriText) : Bytes := match u.fragment with
  | none => []
  | some w => HASH :: w

def authorityText (u : UriText) : Bytes := u.userinfoText ++ u.host.text ++ u.portText

/-- `scheme://[userinfo@]host[:port]path[?query][#fragment]`. -/
def compose (u : UriText) : Bytes :=
  u.scheme ++ ascii "://" ++ (u.authorityText ++ (u.path ++ (u.queryText ++ u.fragmentText)))

/-- The `ParsedURI` that holds exactly these components. -/
def stored (u : UriText) (error : Nat) : ParsedURI where
  scheme := some u.scheme
  userinfo := u.userinfo
  host := some u.host.content
  port := u.port
  path := if u.path = [] then none else some u.path
  query := u.query
  fragment := u.fragment
  state := .success
  error := error

/-- The query does not follow the authority directly, or has no byte the authority loop acts on. -/
def QueryApart (u : UriText) : Prop := u.path = [] → ∀ q ∈ u.query, QUESTION ∉ q ∧ AT ∉ q ∧
  match u.host, u.port with
  | .literal _, none => ¬ [RBRACKET, COLON] <:+: q
  | _, _ => COLON ∉ q

end UriText

/-! ## Bytes the authority loop passes over -/

/-- Behind `behind`, the byte only moves the loop on. -/
def passive (ipv6 skip : Bool) (behind b : UInt8) : Bool := match authorityMap b with
  | .scheme => true
  | .host => ipv6 && behind != RBRACKET
  | .path => skip
  | _ => false

def allPassive (ipv6 skip : Bool) : UInt8 → Bytes → Bool
  | _, [] => true
  | e, b :: w => passive ipv6 skip e b && allPassive ipv6 skip b w

def UriCut.advance (c : UriCut) (n : Nat) : UriCut := { c with i := c.i + n }

theorem authorityLoop_step {c : UriCut} {e b : UInt8} {t : Bytes} (h : passive c.inIpv6 c.skipPath e b = true) :
    authorityLoop e (b :: t) c = authorityLoop b t c.next := by
  unfold passive at h
  rw [authorityLoop]
  cases hb : authorityMap b with
  | scheme => rfl
  | host =>
    rw [hb] at h
    have hc : c.inIpv6 = true ∧ e ≠ RBRACKET := by simpa using h
    dsimp only
    rw [UriCut.atHost_eq, if_pos hc]
  | path =>
    rw [hb] at h
    dsimp only
    rw [if_pos h]
  | userinfo => rw [hb] at h; cases h
  | port => rw [hb] at h; cases h
  | query => rw [hb] at h; cases h
  | fragment => rw [hb] at h; cases h
  | elements => rw [hb] at h; cases h

theorem authorityLoop_passive : ∀ (w : Bytes) (e : UInt8) (c : UriCut) (t : Bytes),
    allPassive c.inIpv6 c.skipPath e w = true →
    authorityLoop e (w ++ t) c = authorityLoop (w.getLastD e) t (c.advance w.length)
  | [], e, c, t, _ => rfl
  | b :: w, e, c, t, h => by
    rw [allPassive, Bool.and_eq_true] at h
    rw [List.cons_append, authorityLoop_step h.1, authorityLoop_passive w b c.next t h.2, List.getLastD_cons]
    have hadv : c.next.advance w.length = c.advance (b :: w).length := by
      simp only [UriCut.advance, UriCut.next, List.length_cons]
      congr 1
      omega
    rw [hadv]

/-! ## What the tables allow -/

theorem forall_byte {P : UInt8 → Prop} (h : ∀ n < 256, P (UInt8.ofNat n)) (b : UInt8) : P b := by
  have := h b.toNat b.toNat_lt
  rwa [UInt8.ofNat_toNat] at this

theorem scheme_valid (b : UInt8) : validChar .scheme b = true → b ≠ COLON ∧ b ≠ NUL :=
  forall_byte (P := fun b => validChar .scheme b = true → b ≠ COLON ∧ b ≠ NUL) (by decide +kernel) b

theorem userinfo_valid (b : UInt8) : validChar .userinfo b = true →
    inAuthority b = true ∧ b ≠ NUL ∧ b ≠ LBRACKET ∧ b ≠ AT :=
  forall_byte (P := fun b => validChar .userinfo b = true → inAuthority b = true ∧ b ≠ NUL ∧ b ≠ LBRACKET ∧ b ≠ AT)
    (by decide +kernel) b

theorem host_valid (b : UInt8) : validChar .host b = true → inAuthority b = true ∧ b ≠ NUL ∧ b ≠ AT :=
  forall_byte (P := fun b => validChar .host b = true → inAuthority b = true ∧ b ≠ NUL ∧ b ≠ AT) (by decide +kernel) b

theorem port_valid (b : UInt8) : validChar .port b = true → inAuthority b = true ∧ authorityMap b = .scheme :=
  forall_byte (P := fun b => validChar .port b = true → inAuthority b = true ∧ authorityMap b = .scheme)
    (by decide +kernel) b

/-- A byte of an authority that is neither `@` nor `:` is passed over. -/
theorem authorityMap_plain {b : UInt8} (h : inAuthority b = true) (h0 : b ≠ NUL) (ha : b ≠ AT) (hc : b ≠ COLON) :
    authorityMap b = .scheme := by
  simp only [inAuthority, Bool.and_eq_true, bne_iff_ne] at h
  rw [authorityMap, if_neg h0, if_neg h.2, if_neg h.1.1, if_neg hc, if_neg h.1.2, if_neg ha]

/-! ## The userinfo -/

theorem allPassive_plain (ipv6 skip : Bool) : ∀ (w : Bytes) (e : UInt8), (∀ b ∈ w, authorityMap b = .scheme) →
    allPassive ipv6 skip e w = true
  | [], _, _ => rfl
  | b :: w, e, h => by
    rw [allPassive, passive, h b List.mem_cons_self]
    exact allPassive_plain ipv6 skip w b (fun x hx => h x (List.mem_cons_of_mem b hx))

/-- Only the indices that a `:` of the userinfo rewrites differ, all of which the `@` sets again. -/
structure SameButHost (c d : UriCut) : Prop where
  ipv6 : d.inIpv6 = false
  skip : d.skipPath = c.skipPath
  starts : ∀ p, p ≠ .port → d.startIdx p = c.startIdx p
  ends : ∀ p, p ≠ .host → d.endIdx p = c.endIdx p

theorem authorityLoop_userinfo : ∀ (w : Bytes) (e : UInt8) (c : UriCut), c.inIpv6 = false →
    (∀ b ∈ w, validChar .userinfo b = true) →
    ∃ d e', SameButHost c d ∧ d.i = c.i + w.length ∧ ∀ t, authorityLoop e (w ++ t) c = authorityLoop e' t d
  | [], e, c, hc, _ => ⟨c, e, ⟨hc, rfl, fun _ _ => rfl, fun _ _ => rfl⟩, rfl, fun _ => rfl⟩
  | b :: w, e, c, hc, h => by
    have hb := userinfo_valid b (h b List.mem_cons_self)
    have hw : ∀ x ∈ w, validChar .userinfo x = true := fun x hx => h x (List.mem_cons_of_mem b hx)
    by_cases hcol : b = COLON
    · subst hcol
      have hend : c.atHost e = c.endHost := by rw [UriCut.atHost_eq, hc]; simp
      obtain ⟨d, e', hd, hi, ht⟩ := authorityLoop_userinfo w COLON c.endHost.next rfl hw
      refine ⟨d, e', ⟨hd.ipv6, hd.skip, fun p hp => ?_, fun p hp => ?_⟩, ?_, fun t => ?_⟩
      · rw [hd.starts p hp, UriCut.next_startIdx, UriCut.endHost_startIdx, if_neg hp]
      · rw [hd.ends p hp, UriCut.next_endIdx, UriCut.endHost_endIdx, if_neg hp]
      · rw [hi, UriCut.next_i, UriCut.endHost_i, List.length_cons]; omega
      · rw [List.cons_append, authorityLoop, ← ht t]
        show authorityLoop COLON (w ++ t) (c.atHost e).next = _
        rw [hend]
    · have hmap := authorityMap_plain hb.1 hb.2.1 hb.2.2.2 hcol
      obtain ⟨d, e', hd, hi, ht⟩ := authorityLoop_userinfo w b c.next hc hw
      refine ⟨d, e', ⟨hd.ipv6, hd.skip, hd.starts, hd.ends⟩, ?_, fun t => ?_⟩
      · rw [hi, UriCut.next_i, List.length_cons]; omega
      · rw [List.cons_append, authorityLoop_step (by rw [passive, hmap]), ← ht t]

/-! ## The host and the port -/

/-- Inside the brackets of a literal. -/
theorem allPassive_literal (skip : Bool) : ∀ (w : Bytes) (e : UInt8), e ≠ RBRACKET → RBRACKET ∉ w →
    (∀ b ∈ w, validChar .host b = true) → allPassive true skip e w = true
  | [], _, _, _, _ => rfl
  | b :: w, e, he, hr, h => by
    have hb := host_valid b (h b List.mem_cons_self)
    rw [List.mem_cons, not_or] at hr
    rw [allPassive, Bool.and_eq_true]
    refine ⟨?_, allPassive_literal skip w b (Ne.symm hr.1) hr.2 (fun x hx => h x (List.mem_cons_of_mem b hx))⟩
    by_cases hcol : b = COLON
    · subst hcol
      show (true && e != RBRACKET) = true
      simpa using he
    · rw [passive, authorityMap_plain hb.1 hb.2.1 hb.2.2 hcol]

theorem authorityMap_rbracket : authorityMap RBRACKET = .scheme := by decide

theorem authorityMap_lbracket : authorityMap LBRACKET = .scheme := by decide

theorem allPassive_append (ipv6 skip : Bool) : ∀ (w w' : Bytes) (e : UInt8),
    allPassive ipv6 skip e (w ++ w') = (allPassive ipv6 skip e w && allPassive ipv6 skip (w.getLastD e) w')
  | [], w', e => by rw [List.nil_append, allPassive, List.getLastD_nil, Bool.true_and]
  | b :: w, w', e => by
    rw [List.cons_append, allPassive, allPassive, allPassive_append ipv6 skip w w' b, List.getLastD_cons, Bool.and_assoc]

def HostText.isLiteral : HostText → Bool
  | .name _ => false
  | .literal _ => true

/-- Over a host the loop only moves on; behind a literal stands its closing bracket. -/
theorem authorityLoop_host (u : UriText) (e : UInt8) (c : UriCut)
    (hc : c.inIpv6 = u.host.isLiteral) : ∃ e', (u.host.isLiteral = true → e' = RBRACKET) ∧
      ∀ t, authorityLoop e (u.host.text ++ t) c = authorityLoop e' t (c.advance u.host.text.length) := by
  obtain ⟨hne, hval⟩ := u.host_allowed
  have hbr := u.host_brackets
  cases hh : u.host with
  | name h =>
    rw [hh] at hval
    refine ⟨h.getLastD e, fun h => (by cases h), fun t => authorityLoop_passive h e c t ?_⟩
    refine allPassive_plain _ _ h e fun b hb => ?_
    have hv := host_valid b (hval b hb)
    exact authorityMap_plain hv.1 hv.2.1 hv.2.2 (fun heq => u.host_name h hh (heq ▸ hb))
  | literal h =>
    rw [hh] at hval hbr hc
    have hlast : (LBRACKET :: (h ++ [RBRACKET])).getLastD e = RBRACKET := by
      rw [← List.cons_append, List.getLastD_concat]
    refine ⟨RBRACKET, fun _ => rfl, fun t => ?_⟩
    have hpass : allPassive c.inIpv6 c.skipPath e (LBRACKET :: (h ++ [RBRACKET])) = true := by
      rw [hc, allPassive, passive, authorityMap_lbracket, allPassive_append,
        show HostText.isLiteral (.literal h) = true from rfl,
        allPassive_literal c.skipPath h LBRACKET (by decide) hbr.2 hval, allPassive, passive, authorityMap_rbracket]
      rfl
    have := authorityLoop_passive (LBRACKET :: (h ++ [RBRACKET])) e c t hpass
    rwa [hlast] at this

/-- Over a port: the `:` ends the host, whatever it is. -/
theorem authorityLoop_port (w : Bytes) (e : UInt8) (c : UriCut) (h : c.inIpv6 = true → e = RBRACKET)
    (hw : ∀ b ∈ w, validChar .port b = true) (t : Bytes) :
    authorityLoop e (COLON :: w ++ t) c = authorityLoop (w.getLastD COLON) t (c.endHost.next.advance w.length) := by
  have hend : c.atHost e = c.endHost := by
    rw [UriCut.atHost_eq, if_neg]
    exact fun hc => hc.2 (h hc.1)
  rw [List.cons_append, authorityLoop]
  show authorityLoop COLON (w ++ t) (c.atHost e).next = _
  rw [hend]
  exact authorityLoop_passive w COLON _ t (allPassive_plain _ _ w COLON (fun b hb => (port_valid b (hw b hb)).2))

/-! ## The authority -/

/-- The indices of component `p` are those of `o`, which begins at `k` if it is there. -/
def Holds (c : UriCut) (p : UriPart) (k : Nat) : Option Bytes → Prop
  | none => c.endIdx p ≤ c.startIdx p
  | some w => c.startIdx p = k ∧ c.endIdx p = k + w.length

/-- The authority loop at the first byte of the host. -/
structure AtHost (u : UriText) (c : UriCut) : Prop where
  i : c.i = u.scheme.length + 3 + u.userinfoText.length
  pre : c.preState = .host
  ipv6 : c.inIpv6 = u.host.isLiteral
  host : c.startIdx .host = c.i
  scheme : c.startIdx .scheme = 0 ∧ c.endIdx .scheme = u.scheme.length
  userinfo : Holds c .userinfo (u.scheme.length + 3) u.userinfo
  port : c.endIdx .port = 0

theorem host_text_head (u : UriText) (t : Bytes) :
    (u.host.text ++ t).headD NUL = LBRACKET ↔ u.host.isLiteral = true := by
  have hne := u.host_allowed.1
  have hbr := u.host_brackets.1
  cases hh : u.host with
  | literal h => exact ⟨fun _ => rfl, fun _ => rfl⟩
  | name h =>
    rw [hh] at hne hbr
    cases h with
    | nil => exact absurd rfl hne
    | cons b h =>
      refine ⟨fun heq => ?_, fun heq => by cases heq⟩
      have hb : b = LBRACKET := heq
      exact absurd (hb ▸ List.mem_cons_self) hbr

theorem openAuthority_ipv6 (n : Nat) (b : UInt8) :
    ((schemeEnd n).openAuthority b).inIpv6 = decide (b = LBRACKET) := by
  unfold UriCut.openAuthority
  dsimp only
  split
  · rename_i h; simp [h]
  · rename_i h; simp [h, schemeEnd, UriCut.init]

theorem openAuthority_userinfo (n : Nat) {b : UInt8} (h : b ≠ LBRACKET) :
    ((schemeEnd n).openAuthority b).startIdx .userinfo = n + 3 := by
  simp only [UriCut.openAuthority, if_neg h]
  simp [schemeEnd]

theorem openAuthority_atStart (n : Nat) (b : UInt8) : ((schemeEnd n).openAuthority b).i = n + 3 ∧
    ((schemeEnd n).openAuthority b).preState = .host ∧ ((schemeEnd n).openAuthority b).startIdx .host = n + 3 ∧
    ((schemeEnd n).openAuthority b).startIdx .scheme = 0 ∧ ((schemeEnd n).openAuthority b).endIdx .scheme = n ∧
    ((schemeEnd n).openAuthority b).endIdx .userinfo = 0 ∧ ((schemeEnd n).openAuthority b).endIdx .port = 0 := by
  unfold UriCut.openAuthority
  dsimp only
  split <;> simp [schemeEnd, UriCut.init]

/-- **Over the userinfo, if there is one, the loop comes to the host.** -/
theorem authorityLoop_atHost (u : UriText) (r : Bytes) : ∃ c e, AtHost u c ∧
    authorityLoop SLASH (u.userinfoText ++ (u.host.text ++ r))
      (authorityStart u.scheme.length (u.userinfoText ++ (u.host.text ++ r))) =
      authorityLoop e (u.host.text ++ r) c := by
  have hhead := host_text_head u r
  cases hu : u.userinfo with
  | none =>
    have ht : u.userinfoText = [] := by rw [UriText.userinfoText, hu]
    have hs := openAuthority_atStart u.scheme.length ((u.host.text ++ r).headD NUL)
    rw [ht, List.nil_append]
    refine ⟨_, SLASH, ⟨?_, hs.2.1, ?_, ?_, ⟨hs.2.2.2.1, hs.2.2.2.2.1⟩, ?_, hs.2.2.2.2.2.2⟩, rfl⟩
    · rw [ht]; exact hs.1
    · exact (openAuthority_ipv6 _ _).trans (by rw [Bool.eq_iff_iff, decide_eq_true_iff, hhead])
    · exact hs.2.2.1.trans hs.1.symm
    · rw [hu]
      exact hs.2.2.2.2.2.1.trans_le (Nat.zero_le _)
  | some w =>
    have ht : u.userinfoText = w ++ [AT] := by rw [UriText.userinfoText, hu]
    obtain ⟨hne, hw⟩ := u.userinfo_allowed w hu
    have hfirst : (u.userinfoText ++ (u.host.text ++ r)).headD NUL ≠ LBRACKET := by
      rw [ht]
      cases w with
      | nil => exact absurd rfl hne
      | cons x w => exact (userinfo_valid x (hw x List.mem_cons_self)).2.2.1
    generalize hstart : authorityStart u.scheme.length (u.userinfoText ++ (u.host.text ++ r)) = s
    have hs := openAuthority_atStart u.scheme.length ((u.userinfoText ++ (u.host.text ++ r)).headD NUL)
    have hsu := openAuthority_userinfo u.scheme.length hfirst
    have hs6 := openAuthority_ipv6 u.scheme.length ((u.userinfoText ++ (u.host.text ++ r)).headD NUL)
    rw [show (schemeEnd u.scheme.length).openAuthority _ = s from hstart] at hs hsu hs6
    rw [decide_eq_false hfirst] at hs6
    obtain ⟨d, e', hd, hi, hrun⟩ := authorityLoop_userinfo w SLASH s hs6 hw
    refine ⟨(d.atUserinfo ((u.host.text ++ r).headD NUL)).next, AT, ⟨?_, rfl, ?_, ?_, ⟨?_, ?_⟩, ?_, ?_⟩, ?_⟩
    · rw [UriCut.next_i, UriCut.atUserinfo_i, hi, hs.1, ht, List.length_append]; rfl
    · rw [UriCut.next_inIpv6, UriCut.atUserinfo_inIpv6, hd.ipv6, Bool.or_false, Bool.eq_iff_iff, decide_eq_true_iff,
        hhead]
    · simp
    · simpa [hd.starts] using hs.2.2.2.1
    · simpa [hd.ends] using hs.2.2.2.2.1
    · rw [hu]
      exact ⟨by simpa [hd.starts] using hsu, by simpa [hs.1] using hi⟩
    · simpa [hd.ends] using hs.2.2.2.2.2.2
    · rw [ht, List.append_assoc, hrun]
      rfl

@[simp] theorem UriCut.advance_startIdx (c : UriCut) (n : Nat) : (c.advance n).startIdx = c.startIdx := rfl

@[simp] theorem UriCut.advance_endIdx (c : UriCut) (n : Nat) : (c.advance n).endIdx = c.endIdx := rfl

@[simp] theorem UriCut.advance_i (c : UriCut) (n : Nat) : (c.advance n).i = c.i + n := rfl

@[simp] theorem UriCut.advance_preState (c : UriCut) (n : Nat) : (c.advance n).preState = c.preState := rfl

@[simp] theorem UriCut.advance_inIpv6 (c : UriCut) (n : Nat) : (c.advance n).inIpv6 = c.inIpv6 := rfl

@[simp] theorem UriCut.advance_skipPath (c : UriCut) (n : Nat) : (c.advance n).skipPath = c.skipPath := rfl

theorem Holds.congr {c d : UriCut} {p : UriPart} {k : Nat} {o : Option Bytes} (h : Holds c p k o)
    (hs : d.startIdx p = c.startIdx p) (he : d.endIdx p = c.endIdx p) : Holds d p k o := by
  cases o with
  | none => exact (congrArg₂ (· ≤ ·) he hs).mpr h
  | some w => exact ⟨hs.trans h.1, he.trans h.2⟩

/-- The authority loop at the end of the authority; the component it is in is closed. -/
structure AuthorityCut (u : UriText) (c : UriCut) : Prop where
  i : c.i = u.scheme.length + 3 + u.authorityText.length
  ipv6 : c.inIpv6 = (u.host.isLiteral && u.port.isNone)
  scheme : Holds c.close .scheme 0 (some u.scheme)
  userinfo : Holds c.close .userinfo (u.scheme.length + 3) u.userinfo
  host : Holds c.close .host (u.scheme.length + 3 + u.userinfoText.length) (some u.host.text)
  port : Holds c.close .port (u.scheme.length + 3 + u.userinfoText.length + u.host.text.length + 1) u.port

theorem AtHost.authorityCut_plain {u : UriText} {c : UriCut} (h : AtHost u c) (hp : u.port = none) :
    AuthorityCut u (c.advance u.host.text.length) := by
  have hpre : (c.advance u.host.text.length).preState = .host := h.pre
  have hend := (c.advance u.host.text.length).close_endIdx (by rw [hpre]; decide)
  rw [hpre] at hend
  have ht : u.portText = [] := by rw [UriText.portText, hp]
  refine ⟨?_, ?_, ⟨?_, ?_⟩, h.userinfo.congr ?_ ?_, ⟨?_, ?_⟩, ?_⟩
  · rw [UriCut.advance_i, h.i, UriText.authorityText, ht, List.append_nil, List.length_append]; omega
  · rw [UriCut.advance_inIpv6, h.ipv6, hp]; simp
  · simpa using h.scheme.1
  · simpa [hend] using h.scheme.2
  · simp
  · simp [hend]
  · simpa using h.host.trans h.i
  · rw [hend, if_pos rfl, UriCut.advance_i, h.i]
  · rw [hp]
    show _ ≤ _
    rw [hend, if_neg (by decide), UriCut.advance_endIdx, h.port]
    exact Nat.zero_le _

theorem AtHost.authorityCut_port {u : UriText} {c : UriCut} (h : AtHost u c) {w : Bytes} (hp : u.port = some w) :
    AuthorityCut u ((c.advance u.host.text.length).endHost.next.advance w.length) := by
  generalize hd : (c.advance u.host.text.length).endHost.next.advance w.length = d
  have hpre : d.preState = .port := by rw [← hd]; rfl
  have hend := d.close_endIdx (by rw [hpre]; decide)
  rw [hpre] at hend
  have ht : u.portText = COLON :: w := by rw [UriText.portText, hp]
  have hi : d.i = c.i + u.host.text.length + 1 + w.length := by rw [← hd]; rfl
  have hs : ∀ p, d.startIdx p = if p = .port then c.i + u.host.text.length + 1 else c.startIdx p := by
    intro p; rw [← hd]; simp
  have he : ∀ p, d.endIdx p = if p = .host then c.i + u.host.text.length else c.endIdx p := by
    intro p; rw [← hd]; simp
  refine ⟨?_, ?_, ⟨?_, ?_⟩, h.userinfo.congr ?_ ?_, ⟨?_, ?_⟩, ?_⟩
  · rw [hi, h.i, UriText.authorityText, ht]
    simp only [List.length_append, List.length_cons]
    omega
  · rw [← hd, hp]; simp
  · simpa [hs] using h.scheme.1
  · simpa [hend, he] using h.scheme.2
  · simp [hs]
  · simp [hend, he]
  · simpa [hs] using h.host.trans h.i
  · simp [hend, he, h.i]
  · rw [hp]
    exact ⟨by simp [hs, h.i], by simp [hend, hi, h.i]⟩

theorem AuthorityCut.skip {u : UriText} {c : UriCut} (h : AuthorityCut u c) (b : Bool) :
    AuthorityCut u { c with skipPath := b } := by
  have hc : ∀ p, ({ c with skipPath := b } : UriCut).close.startIdx p = c.close.startIdx p ∧
      ({ c with skipPath := b } : UriCut).close.endIdx p = c.close.endIdx p := by
    intro p
    unfold UriCut.close
    dsimp only
    split <;> exact ⟨rfl, rfl⟩
  exact ⟨h.i, h.ipv6, h.scheme.congr (hc _).1 (hc _).2, h.userinfo.congr (hc _).1 (hc _).2,
    h.host.congr (hc _).1 (hc _).2, h.port.congr (hc _).1 (hc _).2⟩

/-- Every byte of the authority is one of an authority. -/
theorem authorityText_inAuthority (u : UriText) : ∀ b ∈ u.authorityText, inAuthority b = true ∧ b ≠ NUL := by
  intro b hb
  rw [UriText.authorityText, List.mem_append, List.mem_append] at hb
  rcases hb with (hb | hb) | hb
  · cases hu : u.userinfo with
    | none => rw [UriText.userinfoText, hu] at hb; cases hb
    | some w =>
      rw [UriText.userinfoText, hu, List.mem_append, List.mem_singleton] at hb
      rcases hb with hb | rfl
      · have := userinfo_valid b ((u.userinfo_allowed w hu).2 b hb)
        exact ⟨this.1, this.2.1⟩
      · exact ⟨by decide, by decide⟩
  · have hcontent : b ∈ u.host.content → inAuthority b = true ∧ b ≠ NUL := fun h =>
      have := host_valid b (u.host_allowed.2 b h)
      ⟨this.1, this.2.1⟩
    cases hh : u.host with
    | name h => rw [hh] at hb hcontent; exact hcontent hb
    | literal h =>
      rw [hh] at hb hcontent
      rw [HostText.text, List.mem_cons, List.mem_append, List.mem_singleton] at hb
      rcases hb with rfl | hb | rfl
      · exact ⟨by decide, by decide⟩
      · exact hcontent hb
      · exact ⟨by decide, by decide⟩
  · cases hp : u.port with
    | none => rw [UriText.portText, hp] at hb; cases hb
    | some w =>
      rw [UriText.portText, hp, List.mem_cons] at hb
      rcases hb with rfl | hb
      · exact ⟨by decide, by decide⟩
      · have := port_valid b ((u.port_allowed w hp).2 b hb)
        exact ⟨this.1, fun h0 => by rw [h0] at this; exact absurd this.2 (by decide)⟩

/-- **At the end of the authority every component of it has been found**, whatever follows. -/
theorem authority_cut (u : UriText) : ∃ d e, InHead d ∧ AuthorityCut u d ∧ ∀ t : Bytes, t.headD NUL ≠ LBRACKET →
    authorityLoop SLASH (u.authorityText ++ t) (authorityStart u.scheme.length (u.authorityText ++ t)) =
      authorityLoop e t d := by
  obtain ⟨d, e, hd, hi, hrun⟩ := authorityLoop_head u.authorityText SLASH _
    (authorityStart_inHead u.scheme.length u.authorityText) (authorityText_inAuthority u)
  refine ⟨d, e, hd, ?_, fun t ht => by rw [authorityStart_append u.scheme.length ht, hrun t ht]⟩
  obtain ⟨c, e', hc, hhost⟩ := authorityLoop_atHost u u.portText
  obtain ⟨e2, he2, hrun2⟩ := authorityLoop_host u e' c hc.ipv6
  -- the state computed part by part is the one the loop is in
  have hcut : ∃ c' e3, AuthorityCut u c' ∧
      authorityLoop SLASH u.authorityText (authorityStart u.scheme.length u.authorityText) = authorityLoop e3 [] c' := by
    have ha : u.authorityText = u.userinfoText ++ (u.host.text ++ u.portText) := List.append_assoc _ _ _
    rw [ha, hhost, hrun2]
    cases hp : u.port with
    | none =>
      refine ⟨_, e2, hc.authorityCut_plain hp, ?_⟩
      rw [UriText.portText, hp]
    | some w =>
      refine ⟨_, w.getLastD COLON, hc.authorityCut_port hp, ?_⟩
      have hw := (u.port_allowed w hp).2
      have := authorityLoop_port w e2 (c.advance u.host.text.length) (fun h => he2 (hc.ipv6 ▸ h)) hw []
      rw [List.append_nil] at this
      rw [UriText.portText, hp]
      exact this
  obtain ⟨c', e3, hc', hrun3⟩ := hcut
  have hnil := hrun [] (by decide)
  rw [List.append_nil, hrun3] at hnil
  have heq : ({ c' with skipPath := true } : UriCut) = { d with skipPath := true } := congrArg Prod.fst hnil
  have hdc : d = { c' with skipPath := d.skipPath } :=
    (congrArg (fun x : UriCut => { x with skipPath := d.skipPath }) heq).symm
  rw [hdc]
  exact hc'.skip _

/-! ## The fragment -/

theorem strlen_nil : strlen [] = 0 := rfl

theorem strlen_clean {s : Bytes} (h : NUL ∉ s) : strlen s = s.length := by
  have hs : s.takeWhile (· != NUL) = s := List.takeWhile_eq_self_iff.mpr fun b hb => by
    simpa using fun h0 : b = NUL => h (h0 ▸ hb)
  rw [strlen, cstr, hs]

theorem strlen_hash {f : Bytes} (h : NUL ∉ f) : strlen (HASH :: f) = f.length + 1 := by
  have h0 : NUL ∉ HASH :: f := by
    rw [List.mem_cons, not_or]
    exact ⟨by decide, h⟩
  rw [strlen_clean h0, List.length_cons]

/-- In the authority loop the fragment closes what is open. -/
theorem authorityLoop_fragment (u : UriText) (e : UInt8) (c : UriCut) (hpre : c.preState ≠ .elements)
    (hf : c.endIdx .fragment ≤ c.startIdx .fragment) (hp : c.preState ≠ .fragment) :
    Holds (cutPath (authorityLoop e u.fragmentText c)) .fragment (c.i + 1) u.fragment ∧
    ∀ p, p ≠ .fragment → (cutPath (authorityLoop e u.fragmentText c)).startIdx p = c.startIdx p ∧
      (cutPath (authorityLoop e u.fragmentText c)).endIdx p = if p = c.preState then c.i else c.endIdx p := by
  cases hu : u.fragment with
  | none =>
    have ht : u.fragmentText = [] := by rw [UriText.fragmentText, hu]
    have hcut : cutPath (authorityLoop e u.fragmentText c) = ({ c with skipPath := true } : UriCut).close := by
      rw [ht]; exact cutPath_skip rfl []
    rw [hcut]
    have hend := ({ c with skipPath := true } : UriCut).close_endIdx hpre
    refine ⟨?_, fun p _ => ⟨by rw [UriCut.close_startIdx], hend p⟩⟩
    show _ ≤ _
    rw [hend, if_neg (Ne.symm hp), UriCut.close_startIdx]
    exact hf
  | some f =>
    have ht : u.fragmentText = HASH :: f := by rw [UriText.fragmentText, hu]
    have hcut : cutPath (authorityLoop e u.fragmentText c) = c.atFragment (f.length + 1) := by
      rw [ht, ← strlen_hash (u.fragment_bytes f hu).2]
      exact cutPath_skip (c := c.atFragment _) rfl _
    rw [hcut]
    refine ⟨⟨by simp [UriCut.atFragment], by simp [UriCut.atFragment]; omega⟩, fun p hpf => ?_⟩
    simp [UriCut.atFragment, hpf]

/-- The end of `parse`'s path loop. -/
def pathEnd (n : Nat) (l : Bytes) (c : UriCut) : UriCut :=
  (pathLoop n l c).1.setEnd (pathLoop n l c).1.preState ((pathLoop n l c).1.i + strlen (pathLoop n l c).2)

/-- What a query and a fragment, if they are there, add to the text. -/
def queryPart : Option Bytes → Bytes
  | none => []
  | some q => QUESTION :: q

def fragmentPart : Option Bytes → Bytes
  | none => []
  | some f => HASH :: f

/-- So it does in the path loop. -/
theorem pathLoop_fragment {f : Option Bytes} {n : Nat} (c : UriCut) (h0 : ∀ w ∈ f, NUL ∉ w)
    (hn : fragmentPart f ≠ [] → 0 < n) (hf : c.endIdx .fragment ≤ c.startIdx .fragment) (hp : c.preState ≠ .fragment) :
    Holds (pathEnd n (fragmentPart f) c) .fragment (c.i + 1) f ∧
    ∀ p, p ≠ .fragment → (pathEnd n (fragmentPart f) c).startIdx p = c.startIdx p ∧
      (pathEnd n (fragmentPart f) c).endIdx p = if p = c.preState then c.i else c.endIdx p := by
  cases f with
  | none =>
    have hend : pathEnd n (fragmentPart none) c = c.setEnd c.preState c.i := by
      rw [fragmentPart, pathEnd, pathLoop, strlen_nil, Nat.add_zero]
    rw [hend]
    refine ⟨?_, fun p _ => ⟨rfl, by simp⟩⟩
    show _ ≤ _
    rw [UriCut.setEnd_endIdx, if_neg (Ne.symm hp)]
    exact hf
  | some f =>
    obtain ⟨m, rfl⟩ : ∃ m, n = m + 1 := ⟨n - 1, by have := hn (List.cons_ne_nil HASH f); omega⟩
    have hl : pathLoop (m + 1) (HASH :: f) c =
        (((c.setEnd c.preState c.i).setStart .fragment (c.i + 1)).enter .fragment, HASH :: f) := by
      rw [pathLoop, if_neg (by decide)]
      rfl
    have hend : pathEnd (m + 1) (fragmentPart (some f)) c =
        (((c.setEnd c.preState c.i).setStart .fragment (c.i + 1)).enter .fragment).setEnd .fragment
          (c.i + (f.length + 1)) := by
      rw [fragmentPart, pathEnd, hl, strlen_hash (h0 f rfl)]
      rfl
    rw [hend]
    refine ⟨⟨by simp, by simp; omega⟩, fun p hpf => ?_⟩
    simp [hpf]

/-! ## Path and query in the path loop -/

theorem queryScan_clean : ∀ (q : Bytes) (b : UInt8) (i : Nat) (t : Bytes), HASH ∉ q → NUL ∉ q →
    queryScan b (q ++ t) i = queryScan (q.getLastD b) t (i + q.length)
  | [], b, i, t, _, _ => rfl
  | x :: q, b, i, t, hh, h0 => by
    rw [List.mem_cons, not_or] at hh h0
    rw [List.cons_append, queryScan, if_neg (Ne.symm h0.1), if_neg (Ne.symm hh.1), queryScan_clean q x (i + 1) t hh.2 h0.2,
      List.getLastD_cons, List.length_cons]
    congr 1
    omega

theorem pathLoop_path : ∀ (p : Bytes) (n : Nat) (c : UriCut) (t : Bytes), QUESTION ∉ p → HASH ∉ p → NUL ∉ p →
    pathLoop (p.length + n) (p ++ t) c = pathLoop n t (c.advance p.length)
  | [], n, c, t, _, _, _ => by rw [List.nil_append, List.length_nil, Nat.zero_add]; rfl
  | x :: p, n, c, t, hq, hh, h0 => by
    rw [List.mem_cons, not_or] at hq hh h0
    rw [List.cons_append, List.length_cons, show p.length + 1 + n = p.length + n + 1 by omega, pathLoop,
      if_neg (Ne.symm h0.1)]
    simp only [if_neg (Ne.symm hq.1), if_neg (Ne.symm hh.1)]
    have hadv : c.advance (p.length + 1) = c.next.advance p.length := by
      simp only [UriCut.advance, UriCut.next]
      congr 1
      omega
    rw [hadv, ← pathLoop_path p n c.next t hq.2 hh.2 h0.2]

/-- At the `?` of a path. -/
def UriCut.pathQuery (c : UriCut) : UriCut := ((c.setEnd .path c.i).setStart .query (c.i + 1)).enter .query

/-- The path loop takes a whole query in one turn, and with it the `#` behind. -/
theorem pathLoop_query (n : Nat) (c : UriCut) {q : Bytes} (hh : HASH ∉ q) (h0 : NUL ∉ q) (f : Option Bytes) :
    pathEnd (n + 1) (QUESTION :: q ++ fragmentPart f) c = pathEnd 1 (fragmentPart f) (c.pathQuery.advance (q.length + 1)) := by
  have hlast : q.getLastD QUESTION ≠ HASH := by
    intro heq
    have : q.getLastD QUESTION ∈ QUESTION :: q := List.getLastD_mem_cons
    rw [heq, List.mem_cons] at this
    exact this.elim (by decide) hh
  have hloop : pathLoop (n + 1) (QUESTION :: q ++ fragmentPart f) c =
      pathLoop 1 (fragmentPart f) (c.pathQuery.advance (q.length + 1)) := by
    rw [List.cons_append, pathLoop, if_neg (by decide)]
    simp only [if_pos]
    rw [queryScan_clean q QUESTION c.i (fragmentPart f) hh h0]
    cases f with
    | none =>
      have hnil (m : Nat) (c : UriCut) : pathLoop m [] c = (c, []) := by rw [pathLoop]
      refine (if_neg hlast).trans ?_
      rw [fragmentPart, hnil 1]
      exact hnil n _
    | some f => rfl
  rw [pathEnd, hloop, pathEnd]

theorem pathEnd_path {p : Bytes} (hq : QUESTION ∉ p) (hh : HASH ∉ p) (h0 : NUL ∉ p) (n : Nat) (c : UriCut) (t : Bytes) :
    pathEnd (p.length + n) (p ++ t) c = pathEnd n t (c.advance p.length) := by
  unfold pathEnd
  rw [pathLoop_path p n c t hq hh h0]

/-! ## What follows the authority -/

def UriText.tailText (u : UriText) : Bytes := u.path ++ (u.queryText ++ u.fragmentText)

theorem UriText.tailText_head (u : UriText) : u.tailText.headD NUL ≠ LBRACKET := by
  have hslash := u.path_slash
  unfold UriText.tailText
  cases hp : u.path with
  | cons b p =>
    rw [hp] at hslash
    have hb : b = SLASH := Option.some.inj (hslash.resolve_left (List.cons_ne_nil b p))
    rw [hb]
    exact (by decide : SLASH ≠ LBRACKET)
  | nil =>
    rw [List.nil_append, UriText.queryText, UriText.fragmentText]
    cases u.query with
    | some q => exact (by decide : QUESTION ≠ LBRACKET)
    | none => cases u.fragment with
      | some f => exact (by decide : HASH ≠ LBRACKET)
      | none => exact (by decide : NUL ≠ LBRACKET)

/-- The indices of path, query and fragment, behind an authority that ends at `k`. -/
structure TailCut (u : UriText) (k : Nat) (c : UriCut) : Prop where
  path : Holds c .path k (if u.path = [] then none else some u.path)
  query : Holds c .query (k + u.path.length + 1) u.query
  fragment : Holds c .fragment (k + u.path.length + u.queryText.length + 1) u.fragment

/-- The checked components are closed by whatever follows the authority. -/
theorem sameChecked_close {c d : UriCut} (hd : InHead d)
    (h : ∀ p ∈ checkedParts, c.startIdx p = d.startIdx p ∧ c.endIdx p = if p = d.preState then d.i else d.endIdx p) :
    SameChecked c d.close := by
  intro p hp
  rw [UriCut.close_startIdx, UriCut.close_endIdx d hd.pre_checked.1]
  exact h p hp

/-- A path behind an authority that ends at `k`, with a query and a fragment if they are there. -/
structure PathFound (p : Bytes) (q f : Option Bytes) (k : Nat) (c : UriCut) : Prop where
  path : Holds c .path k (some p)
  query : Holds c .query (k + p.length + 1) q
  fragment : Holds c .fragment (k + p.length + (queryPart q).length + 1) f

/-- The indices when a path follows the authority. -/
theorem path_found {p : Bytes} {q f : Option Bytes} {d : UriCut} (e : UInt8) (hd : InHead d) (slash : p.head? = some SLASH)
    (hp : QUESTION ∉ p ∧ HASH ∉ p ∧ NUL ∉ p) (hq : ∀ w ∈ q, HASH ∉ w ∧ NUL ∉ w) (hf : ∀ w ∈ f, NUL ∉ w) :
    PathFound p q f d.i (cutPath (authorityLoop e (p ++ (queryPart q ++ fragmentPart f)) d)) ∧
      SameChecked (cutPath (authorityLoop e (p ++ (queryPart q ++ fragmentPart f)) d)) d.close := by
  have hne := hd.pre_checked
  have hl := fun p hp => hd.later p hp
  -- the state the path loop starts in
  generalize hc0 : (d.setStart .path d.i).close.enter .path = c0
  have hi : c0.i = d.i := by rw [← hc0]; simp
  have hs : ∀ p, c0.startIdx p = if p = .path then d.i else d.startIdx p := by intro p; rw [← hc0]; simp
  have he : ∀ p, c0.endIdx p = if p = d.preState then d.i else d.endIdx p := by
    intro p
    rw [← hc0, UriCut.enter_endIdx, UriCut.close_endIdx _ (by simpa using hne.1)]
    rfl
  have hpre : c0.preState = .path := by rw [← hc0]; rfl
  have hloop : cutPath (authorityLoop e (p ++ (queryPart q ++ fragmentPart f)) d) =
      pathEnd (p ++ (queryPart q ++ fragmentPart f)).length (p ++ (queryPart q ++ fragmentPart f)) c0 := by
    have hstop : authorityLoop e (p ++ (queryPart q ++ fragmentPart f)) d =
        (d.setStart .path d.i, p ++ (queryPart q ++ fragmentPart f)) := by
      obtain ⟨p, rfl⟩ : ∃ p', p = SLASH :: p' := List.head?_eq_some_iff.1 slash
      rw [List.cons_append, authorityLoop]
      show (if d.skipPath then _ else _ : UriCut × Bytes) = _
      rw [hd.path]
      rfl
    rw [hstop, cutPath]
    dsimp only
    rw [UriCut.close_skipPath, UriCut.setStart_skipPath, hd.path, hc0]
    rfl
  have hq0 : c0.endIdx .query ≤ c0.startIdx .query := by simp [hs, he, hl, Ne.symm hne.2.2.1]
  have hf0 : c0.endIdx .fragment ≤ c0.startIdx .fragment := by simp [hs, he, hl, Ne.symm hne.2.1]
  rw [hloop, List.length_append, pathEnd_path hp.1 hp.2.1 hp.2.2]
  cases q with
  | none =>
    rw [queryPart, List.nil_append]
    obtain ⟨hfr, hrest⟩ := pathLoop_fragment (c0.advance p.length) hf List.length_pos_of_ne_nil hf0
      (by rw [UriCut.advance_preState, hpre]; decide)
    rw [UriCut.advance_preState, hpre] at hrest
    refine ⟨⟨⟨by simp [hrest, hs], by simp [hrest, hi]⟩, ?_, ?_⟩, sameChecked_close hd fun p hpc => ?_⟩
    · show _ ≤ _
      rw [(hrest .query (by decide)).1, (hrest .query (by decide)).2]
      exact hq0
    · rw [UriCut.advance_i, hi] at hfr
      exact hfr
    · have hne1 : p ≠ .fragment := by rintro rfl; revert hpc; decide
      have hne2 : p ≠ .path := by rintro rfl; revert hpc; decide
      simp [hrest p hne1, hs, he, hne2]
  | some q =>
    obtain ⟨hqh, hq0'⟩ := hq q rfl
    obtain ⟨m, hm⟩ : ∃ m, (queryPart (some q) ++ fragmentPart f).length = m + 1 :=
      ⟨q.length + (fragmentPart f).length, by rw [queryPart, List.length_append, List.length_cons]; omega⟩
    rw [hm, queryPart, pathLoop_query m _ hqh hq0']
    generalize hc1 : (c0.advance p.length).pathQuery.advance (q.length + 1) = c1
    have hi1 : c1.i = d.i + p.length + (q.length + 1) := by rw [← hc1]; simp [UriCut.pathQuery, hi]
    have hs1 : ∀ r, c1.startIdx r = if r = .query then d.i + p.length + 1 else c0.startIdx r := by
      intro r; rw [← hc1]; simp [UriCut.pathQuery, hi]
    have he1 : ∀ r, c1.endIdx r = if r = .path then d.i + p.length else c0.endIdx r := by
      intro r; rw [← hc1]; simp [UriCut.pathQuery, hi]
    have hpre1 : c1.preState = .query := by rw [← hc1]; rfl
    obtain ⟨hfr, hrest⟩ := pathLoop_fragment c1 hf (fun _ => Nat.one_pos) (by simpa [hs1, he1] using hf0)
      (by rw [hpre1]; decide)
    rw [hpre1] at hrest
    refine ⟨⟨⟨by simp [hrest, hs1, hs], by simp [hrest, he1]⟩, ?_, ?_⟩, sameChecked_close hd fun p hpc => ?_⟩
    · refine ⟨by simp [hrest, hs1], ?_⟩
      rw [(hrest .query (by decide)).2, if_pos rfl, hi1]
      omega
    · rw [queryPart, List.length_cons]
      rwa [hi1] at hfr
    · have hne1 : p ≠ .fragment := by rintro rfl; revert hpc; decide
      have hne2 : p ≠ .path := by rintro rfl; revert hpc; decide
      have hne3 : p ≠ .query := by rintro rfl; revert hpc; decide
      simp [hrest p hne1, hs1, he1, hs, he, hne2, hne3]

theorem tail_path (u : UriText) {d : UriCut} (e : UInt8) (hd : InHead d) (hp : u.path ≠ []) :
    TailCut u d.i (cutPath (authorityLoop e u.tailText d)) ∧
      SameChecked (cutPath (authorityLoop e u.tailText d)) d.close := by
  have hquery : u.queryText = queryPart u.query := rfl
  obtain ⟨hfound, hsame⟩ := path_found e hd (u.path_slash.resolve_left hp) u.path_bytes
    (fun w hw => (u.query_bytes w hw).2) fun w hw => (u.fragment_bytes w hw).2
  refine ⟨⟨?_, hfound.query, ?_⟩, hsame⟩
  · rw [if_neg hp]
    exact hfound.path
  · rw [hquery]
    exact hfound.fragment

/-- The indices when nothing stands between the authority and the query, and the loop passes over the query. -/
theorem tail_passive (u : UriText) {d : UriCut} (e : UInt8) (hd : InHead d) (hp : u.path = [])
    (hq : ∀ q ∈ u.query, allPassive d.inIpv6 true QUESTION q = true) :
    TailCut u d.i (cutPath (authorityLoop e u.tailText d)) ∧
      SameChecked (cutPath (authorityLoop e u.tailText d)) d.close := by
  have hne := hd.pre_checked
  have hl := fun p hp => hd.later p hp
  have htail : u.tailText = u.queryText ++ u.fragmentText := by rw [UriText.tailText, hp, List.nil_append]
  rw [htail]
  cases hu : u.query with
  | none =>
    have ht : u.queryText = [] := by rw [UriText.queryText, hu]
    rw [ht, List.nil_append]
    obtain ⟨hf, hrest⟩ := authorityLoop_fragment u e d hne.1 (by simp [hl]) hne.2.1
    refine ⟨⟨?_, ?_, ?_⟩, sameChecked_close hd fun p hpc => hrest p ?_⟩
    · rw [if_pos hp]
      show _ ≤ _
      rw [(hrest .path (by decide)).1, (hrest .path (by decide)).2, if_neg (Ne.symm hne.2.2.2)]
      simp [hl]
    · rw [hu]
      show _ ≤ _
      rw [(hrest .query (by decide)).1, (hrest .query (by decide)).2, if_neg (Ne.symm hne.2.2.1)]
      simp [hl]
    · rw [ht, hp]
      exact hf
    · rintro rfl; revert hpc; decide
  | some q =>
    have ht : u.queryText = QUESTION :: q := by rw [UriText.queryText, hu]
    have hrun : authorityLoop e (QUESTION :: q ++ u.fragmentText) d =
        authorityLoop (q.getLastD QUESTION) u.fragmentText (d.atQuery.next.advance q.length) := by
      rw [List.cons_append, authorityLoop]
      exact authorityLoop_passive q QUESTION d.atQuery.next _ (hq q hu)
    rw [ht, hrun]
    generalize q.getLastD QUESTION = x
    generalize hc1 : d.atQuery.next.advance q.length = c1
    have hi1 : c1.i = d.i + 1 + q.length := by rw [← hc1]; rfl
    have hs1 : ∀ p, c1.startIdx p = if p = .query then d.i + 1 else d.startIdx p := by intro p; rw [← hc1]; simp
    have he1 : ∀ p, c1.endIdx p = if p = d.preState then d.i else d.endIdx p := by intro p; rw [← hc1]; simp
    have hpre : c1.preState = .query := by rw [← hc1]; rfl
    obtain ⟨hf, hrest⟩ := authorityLoop_fragment u x c1 (by rw [hpre]; decide)
      (by simp [hs1, he1, hl, Ne.symm hne.2.1]) (by rw [hpre]; decide)
    rw [hpre] at hrest
    refine ⟨⟨?_, ?_, ?_⟩, sameChecked_close hd fun p hpc => ?_⟩
    · rw [if_pos hp]
      show _ ≤ _
      simp [hrest, hs1, he1, hl, Ne.symm hne.2.2.2]
    · rw [hu, hp]
      exact ⟨by simp [hrest, hs1], by simp [hrest, hi1]⟩
    · rw [ht, hp, List.length_nil, List.length_cons]
      rw [hi1] at hf
      rwa [show d.i + 0 + (q.length + 1) + 1 = d.i + 1 + q.length + 1 by omega]
    · have hne1 : p ≠ .fragment := by rintro rfl; revert hpc; decide
      have hne3 : p ≠ .query := by rintro rfl; revert hpc; decide
      simp [hrest p hne1, hs1, he1, hne3]

/-! ## From the indices to the components -/

theorem span_middle (x w y : Bytes) : span (x ++ w ++ y) x.length (x.length + w.length) = w := by
  rw [span, List.append_assoc, List.drop_left, Nat.add_sub_cancel_left, List.take_left]

/-- The component at `k`, if it is there, stands in the text. -/
def Stands (str : Bytes) (k : Nat) : Option Bytes → Prop
  | none => True
  | some w => w ≠ [] ∧ ∃ x y, str = x ++ w ++ y ∧ x.length = k

theorem Stands.span {str w : Bytes} {k : Nat} (h : Stands str k (some w)) : span str k (k + w.length) = w := by
  obtain ⟨_, x, y, rfl, rfl⟩ := h
  exact span_middle x w y

theorem Stands.head {str w : Bytes} {k : Nat} (h : Stands str k (some w)) : str.getD k NUL = w.headD NUL := by
  obtain ⟨hne, x, y, rfl, rfl⟩ := h
  cases w with
  | nil => exact absurd rfl hne
  | cons b w => simp

/-- What the indices of a component make `parse` store. -/
theorem Holds.piece {str : Bytes} {c : UriCut} {p : UriPart} {k : Nat} {o : Option Bytes} (h : Holds c p k o)
    (hs : Stands str k o) (hp : p ≠ .host) : piece str c p = o := by
  unfold Tinywf.piece
  cases o with
  | none => rw [if_neg (Nat.not_lt.mpr h)]
  | some w =>
    have hw := List.length_pos_of_ne_nil hs.1
    rw [h.1, h.2, if_pos (by omega), if_neg (fun h => hp h.1), hs.span]

theorem Holds.host {str : Bytes} {c : UriCut} {k : Nat} {u : UriText} (h : Holds c .host k (some u.host.text))
    (hs : Stands str k (some u.host.text)) : Tinywf.piece str c .host = some u.host.content ∧
      2 ≤ u.host.text.length ∨ Tinywf.piece str c .host = some u.host.content ∧ str.getD k NUL ≠ LBRACKET := by
  have hw := List.length_pos_of_ne_nil hs.1
  have hhead := hs.head
  have hbr := u.host_brackets.1
  unfold Tinywf.piece
  rw [h.1, h.2, if_pos (by omega)]
  cases hh : u.host with
  | name n =>
    rw [hh] at hhead hs hbr
    have hne : str.getD k NUL ≠ LBRACKET := by
      rw [hhead]
      cases n with
      | nil => exact absurd rfl hs.1
      | cons b n => exact fun hb => hbr (hb ▸ List.mem_cons_self)
    rw [if_neg (fun h => hne h.2)]
    exact Or.inr ⟨congrArg some hs.span, hne⟩
  | literal n =>
    rw [hh] at hhead hs
    have hlen : (HostText.literal n).text.length = n.length + 2 := by simp [HostText.text]
    obtain ⟨_, x, y, rfl, rfl⟩ := hs
    rw [if_pos ⟨rfl, hhead⟩, hlen]
    have hx : x ++ (HostText.literal n).text ++ y = (x ++ [LBRACKET]) ++ n ++ (RBRACKET :: y) := by
      simp [HostText.text]
    have hk : x.length + 1 = (x ++ [LBRACKET]).length := by simp
    refine Or.inl ⟨?_, by omega⟩
    rw [hx, show x.length + 1 + (x.length + (n.length + 2) - x.length - 2) = (x ++ [LBRACKET]).length + n.length by
      rw [← hk]; omega, hk, span_middle]
    rfl

section Placed

variable (u : UriText)

theorem stands_scheme : Stands u.compose 0 (some u.scheme) :=
  ⟨u.scheme_allowed.1, [], _, by rw [UriText.compose, List.nil_append, List.append_assoc], rfl⟩

theorem stands_userinfo : Stands u.compose (u.scheme.length + 3) u.userinfo := by
  cases hu : u.userinfo with
  | none => trivial
  | some w =>
    refine ⟨(u.userinfo_allowed w hu).1, u.scheme ++ ascii "://", AT :: (u.host.text ++ u.portText ++ u.tailText), ?_, ?_⟩
    · simp [UriText.compose, UriText.authorityText, UriText.userinfoText, UriText.tailText, hu]
    · rw [List.length_append]; rfl

theorem stands_host : Stands u.compose (u.scheme.length + 3 + u.userinfoText.length) (some u.host.text) := by
  refine ⟨?_, u.scheme ++ ascii "://" ++ u.userinfoText, u.portText ++ u.tailText, ?_, ?_⟩
  · have hne := u.host_allowed.1
    cases hh : u.host with
    | name h => rw [hh] at hne; exact hne
    | literal h => exact List.cons_ne_nil _ _
  · simp [UriText.compose, UriText.authorityText, UriText.tailText]
  · rw [List.length_append, List.length_append]; rfl

theorem stands_port :
    Stands u.compose (u.scheme.length + 3 + u.userinfoText.length + u.host.text.length + 1) u.port := by
  cases hp : u.port with
  | none => trivial
  | some w =>
    refine ⟨(u.port_allowed w hp).1, u.scheme ++ ascii "://" ++ u.userinfoText ++ u.host.text ++ [COLON], u.tailText, ?_, ?_⟩
    · simp [UriText.compose, UriText.authorityText, UriText.tailText, UriText.portText, hp]
    · simp only [List.length_append, List.length_singleton]; rfl

theorem stands_path : Stands u.compose (u.scheme.length + 3 + u.authorityText.length)
    (if u.path = [] then none else some u.path) := by
  split
  · trivial
  · rename_i hp
    refine ⟨hp, u.scheme ++ ascii "://" ++ u.authorityText, u.queryText ++ u.fragmentText, ?_, ?_⟩
    · simp [UriText.compose]
    · rw [List.length_append, List.length_append]; rfl

theorem stands_query :
    Stands u.compose (u.scheme.length + 3 + u.authorityText.length + u.path.length + 1) u.query := by
  cases hq : u.query with
  | none => trivial
  | some w =>
    refine ⟨(u.query_bytes w hq).1, u.scheme ++ ascii "://" ++ u.authorityText ++ u.path ++ [QUESTION], u.fragmentText, ?_, ?_⟩
    · simp [UriText.compose, UriText.queryText, hq]
    · simp only [List.length_append, List.length_singleton]; rfl

theorem stands_fragment : Stands u.compose
    (u.scheme.length + 3 + u.authorityText.length + u.path.length + u.queryText.length + 1) u.fragment := by
  cases hf : u.fragment with
  | none => trivial
  | some w =>
    refine ⟨(u.fragment_bytes w hf).1, u.scheme ++ ascii "://" ++ u.authorityText ++ u.path ++ u.queryText ++ [HASH], [],
      ?_, ?_⟩
    · simp [UriText.compose, UriText.fragmentText, hf]
    · simp only [List.length_append, List.length_singleton]; rfl

end Placed

/-- The indices of every component. -/
structure FullCut (u : UriText) (c : UriCut) : Prop where
  scheme : Holds c .scheme 0 (some u.scheme)
  userinfo : Holds c .userinfo (u.scheme.length + 3) u.userinfo
  host : Holds c .host (u.scheme.length + 3 + u.userinfoText.length) (some u.host.text)
  port : Holds c .port (u.scheme.length + 3 + u.userinfoText.length + u.host.text.length + 1) u.port
  tail : TailCut u (u.scheme.length + 3 + u.authorityText.length) c

theorem AuthorityCut.full {u : UriText} {c d : UriCut} (h : AuthorityCut u d) (hs : SameChecked c d.close)
    (ht : TailCut u d.i c) : FullCut u c :=
  ⟨h.scheme.congr (hs _ (by decide)).1 (hs _ (by decide)).2, h.userinfo.congr (hs _ (by decide)).1 (hs _ (by decide)).2,
    h.host.congr (hs _ (by decide)).1 (hs _ (by decide)).2, h.port.congr (hs _ (by decide)).1 (hs _ (by decide)).2,
    h.i ▸ ht⟩

theorem Holds.valid {str : Bytes} {c : UriCut} {p : UriPart} {k : Nat} {o : Option Bytes} (h : Holds c p k o)
    (hs : Stands str k o) (hv : ∀ w ∈ o, ∀ b ∈ w, validChar p b = true) :
    (span str (c.startIdx p) (c.endIdx p)).all (validChar p) = true := by
  cases o with
  | none =>
    have he : span str (c.startIdx p) (c.endIdx p) = [] := by
      rw [span, Nat.sub_eq_zero_of_le (show c.endIdx p ≤ c.startIdx p from h), List.take_zero]
    rw [he]
    rfl
  | some w =>
    rw [h.1, h.2, hs.span, List.all_eq_true]
    exact hv w rfl

theorem host_text_valid (u : UriText) : ∀ b ∈ u.host.text, validChar .host b = true := by
  intro b hb
  have hval := u.host_allowed.2 b
  cases hh : u.host with
  | name h => rw [hh] at hb hval; exact hval hb
  | literal h =>
    rw [hh] at hb hval
    rw [HostText.text, List.mem_cons, List.mem_append, List.mem_singleton] at hb
    rcases hb with rfl | hb | rfl
    · decide
    · exact hval hb
    · decide

/-- **From the right indices `parse` stores the components.** -/
theorem FullCut.store {u : UriText} {c : UriCut} (h : FullCut u c) {room : UriPart → Nat → Bool}
    (hroom : ∀ p n, room p n = true) (v : ParsedURI) : charsValid u.compose c = true ∧
      storeParts room u.compose c uriParts v = some (0, u.stored v.error) := by
  have hhost := h.host.host (stands_host u)
  refine ⟨?_, storeParts_all.mpr ⟨fun p _ => fun hlt => ⟨hroom _ _, ?_⟩, ?_⟩⟩
  · rw [charsValid, List.all_eq_true]
    intro p hp
    simp only [checkedParts, List.mem_cons, List.not_mem_nil, or_false] at hp
    rcases hp with rfl | rfl | rfl | rfl
    · exact h.scheme.valid (stands_scheme u) (by rintro w ⟨⟩; exact u.scheme_allowed.2)
    · exact h.userinfo.valid (stands_userinfo u) (fun w hw => (u.userinfo_allowed w hw).2)
    · exact h.host.valid (stands_host u) (by rintro w ⟨⟩; exact host_text_valid u)
    · exact h.port.valid (stands_port u) (fun w hw => (u.port_allowed w hw).2)
  · rintro rfl hb
    rcases hhost with ⟨_, hlen⟩ | ⟨_, hne⟩
    · rw [h.host.1, h.host.2]; omega
    · exact absurd (h.host.1 ▸ hb) hne
  · have hpath := h.tail.path.piece (stands_path u) (by decide)
    have hhost' : piece u.compose c .host = some u.host.content := by
      rcases hhost with h | h <;> exact h.1
    rw [storedAs, h.scheme.piece (stands_scheme u) (by decide), h.userinfo.piece (stands_userinfo u) (by decide),
      hhost', h.port.piece (stands_port u) (by decide), hpath, h.tail.query.piece (stands_query u) (by decide),
      h.tail.fragment.piece (stands_fragment u) (by decide)]
    rfl

/-! ## A byte the authority loop acts on -/

/-- Only `#` and the terminator end the loop behind a `?`. -/
theorem authorityMap_ends {b : UInt8} (hh : b ≠ HASH) (h0 : b ≠ NUL) :
    authorityMap b ≠ .fragment ∧ authorityMap b ≠ .elements := by
  unfold authorityMap
  rw [if_neg h0, if_neg hh]
  repeat' split
  all_goals exact ⟨by decide, by decide⟩

/-- The authority loop behind the `?` at `k`. -/
structure BehindQuery (k : Nat) (c : UriCut) : Prop where
  passed : k < c.i
  skip : c.skipPath = true
  userinfo : c.startIdx .userinfo ≤ k
  query : c.endIdx .query ≤ c.i

theorem BehindQuery.next {k : Nat} {c : UriCut} (h : BehindQuery k c) : BehindQuery k c.next :=
  ⟨Nat.lt_succ_of_lt h.passed, h.skip, h.userinfo, Nat.le_succ_of_le h.query⟩

theorem BehindQuery.atUserinfo {k : Nat} {c : UriCut} (h : BehindQuery k c) (a : UInt8) :
    BehindQuery k (c.atUserinfo a) :=
  ⟨by simpa using h.passed, by simpa using h.skip, by simpa using h.userinfo, by simpa using h.query⟩

theorem BehindQuery.endHost {k : Nat} {c : UriCut} (h : BehindQuery k c) : BehindQuery k c.endHost :=
  ⟨h.passed, h.skip, by simpa using h.userinfo, by simpa using h.query⟩

theorem BehindQuery.atQuery {k : Nat} {c : UriCut} (h : BehindQuery k c) : BehindQuery k c.atQuery := by
  refine ⟨h.passed, rfl, by simpa using h.userinfo, ?_⟩
  rw [UriCut.atQuery_endIdx, UriCut.atQuery_i]
  split
  · exact Nat.le_refl _
  · exact h.query

/-- A checked component has been forged, or the query has been started again. -/
def Spoiled (k : Nat) (c : UriCut) : Prop := BehindQuery k c ∧ (Forged k c ∨ k + 1 < c.startIdx .query)

/-- An `@` spoils the parse. -/
theorem BehindQuery.spoiled_userinfo {k : Nat} {c : UriCut} (h : BehindQuery k c) (a : UInt8) :
    Spoiled k (c.atUserinfo a).next :=
  ⟨(h.atUserinfo a).next, Or.inl ⟨.userinfo, by simp, by simpa using h.userinfo, by simpa using h.passed⟩⟩

/-- A further `?` spoils the parse. -/
theorem BehindQuery.spoiled_query {k : Nat} {c : UriCut} (h : BehindQuery k c) : Spoiled k c.atQuery.next :=
  ⟨h.atQuery.next, Or.inr (by simpa using h.passed)⟩

/-- An effective `:` spoils the parse. -/
theorem BehindQuery.spoiled_host {k : Nat} {c : UriCut} (h : BehindQuery k c) (hh : c.startIdx .host ≤ k) :
    Spoiled k c.endHost.next :=
  ⟨h.endHost.next, Or.inl ⟨.host, by simp, by simpa using hh, by simpa using h.passed⟩⟩

theorem Spoiled.next {k : Nat} {c : UriCut} (h : Spoiled k c) : Spoiled k c.next := ⟨h.1.next, h.2⟩

theorem Spoiled.endHost {k : Nat} {c : UriCut} (h : Spoiled k c) : Spoiled k c.endHost := by
  refine ⟨h.1.endHost, ?_⟩
  rcases h.2 with hf | hq
  · exact Or.inl (hf.endHost h.1.passed)
  · exact Or.inr (by simpa using hq)

/-- The state behind the bytes `q`, which stand before `t`. -/
def RunsTo (e : UInt8) (c : UriCut) (q t : Bytes) (e' : UInt8) (c' : UriCut) : Prop :=
  c'.i = c.i + q.length ∧ authorityLoop e (q ++ t) c = authorityLoop e' t c'

theorem RunsTo.cons {e e' b : UInt8} {c c' d : UriCut} {q t : Bytes} (h : RunsTo b d q t e' c') (hi : d.i = c.i + 1)
    (hb : authorityLoop e (b :: (q ++ t)) c = authorityLoop b (q ++ t) d) : RunsTo e c (b :: q) t e' c' := by
  refine ⟨?_, hb.trans h.2⟩
  rw [h.1, hi, List.length_cons]
  omega

/-- **A spoiled parse stays spoiled** up to the fragment. -/
theorem authorityLoop_spoiled {k : Nat} (t : Bytes) : ∀ (q : Bytes) (e : UInt8) (c : UriCut), Spoiled k c →
    HASH ∉ q → NUL ∉ q → ∃ c' e', Spoiled k c' ∧ RunsTo e c q t e' c'
  | [], e, c, h, _, _ => ⟨c, e, h, rfl, rfl⟩
  | b :: q, e, c, h, hh, h0 => by
    rw [List.mem_cons, not_or] at hh h0
    have step : ∀ d, Spoiled k d → d.i = c.i + 1 →
        authorityLoop e (b :: (q ++ t)) c = authorityLoop b (q ++ t) d →
        ∃ c' e', Spoiled k c' ∧ RunsTo e c (b :: q) t e' c' := by
      intro d hd hi hb
      obtain ⟨c', e', hc', hr⟩ := authorityLoop_spoiled t q b d hd hh.2 h0.2
      exact ⟨c', e', hc', hr.cons hi hb⟩
    cases hb : authorityMap b with
    | scheme => exact step _ h.next rfl (by rw [authorityLoop, hb])
    | userinfo => exact step _ (h.1.spoiled_userinfo _) (by simp) (by rw [authorityLoop, hb])
    | host =>
      by_cases hp : c.inIpv6 = true ∧ e ≠ RBRACKET
      · exact step _ h.next rfl (by rw [authorityLoop, hb]; dsimp only; rw [UriCut.atHost_eq, if_pos hp])
      · exact step _ h.endHost.next rfl (by rw [authorityLoop, hb]; dsimp only; rw [UriCut.atHost_eq, if_neg hp])
    | query => exact step _ h.1.spoiled_query rfl (by rw [authorityLoop, hb])
    | path => exact step _ h.next rfl (by rw [authorityLoop, hb]; exact if_pos h.1.skip)
    | port => exact absurd hb (authorityMap_port b)
    | fragment => exact absurd hb (authorityMap_ends (Ne.symm hh.1) (Ne.symm h0.1)).1
    | elements => exact absurd hb (authorityMap_ends (Ne.symm hh.1) (Ne.symm h0.1)).2

/-- **Behind a `?` the loop passes over everything, or a byte it acts on spoils the parse.** -/
theorem authorityLoop_passive_or_spoiled {k : Nat} (t : Bytes) : ∀ (q : Bytes) (e : UInt8) (c : UriCut),
    BehindQuery k c → c.startIdx .host ≤ k → HASH ∉ q → NUL ∉ q →
    allPassive c.inIpv6 true e q = true ∨ ∃ c' e', Spoiled k c' ∧ RunsTo e c q t e' c'
  | [], _, _, _, _, _, _ => Or.inl rfl
  | b :: q, e, c, h, hs, hh, h0 => by
    rw [List.mem_cons, not_or] at hh h0
    have step : ∀ d, Spoiled k d → d.i = c.i + 1 →
        authorityLoop e (b :: (q ++ t)) c = authorityLoop b (q ++ t) d →
        ∃ c' e', Spoiled k c' ∧ RunsTo e c (b :: q) t e' c' := by
      intro d hd hi hb
      obtain ⟨c', e', hc', hr⟩ := authorityLoop_spoiled t q b d hd hh.2 h0.2
      exact ⟨c', e', hc', hr.cons hi hb⟩
    by_cases hpass : passive c.inIpv6 true e b = true
    · rcases authorityLoop_passive_or_spoiled t q b c.next h.next hs hh.2 h0.2 with hq | ⟨c', e', hc', hr⟩
      · refine Or.inl ?_
        rw [allPassive, hpass]
        exact hq
      · exact Or.inr ⟨c', e', hc', hr.cons rfl (authorityLoop_step (by rw [h.skip]; exact hpass))⟩
    · refine Or.inr ?_
      unfold passive at hpass
      cases hb : authorityMap b with
      | scheme => rw [hb] at hpass; exact absurd rfl hpass
      | userinfo => exact step _ (h.spoiled_userinfo _) (by simp) (by rw [authorityLoop, hb])
      | host =>
        rw [hb] at hpass
        have hp : ¬ (c.inIpv6 = true ∧ e ≠ RBRACKET) := by simpa using hpass
        exact step _ (h.spoiled_host hs) rfl (by rw [authorityLoop, hb]; dsimp only; rw [UriCut.atHost_eq, if_neg hp])
      | query => exact step _ h.spoiled_query rfl (by rw [authorityLoop, hb])
      | path => rw [hb] at hpass; exact absurd rfl hpass
      | port => exact absurd hb (authorityMap_port b)
      | fragment => exact absurd hb (authorityMap_ends (Ne.symm hh.1) (Ne.symm h0.1)).1
      | elements => exact absurd hb (authorityMap_ends (Ne.symm hh.1) (Ne.symm h0.1)).2

/-- Forged components stay forged to the end of the loop. -/
theorem Forged.ended {k : Nat} {c : UriCut} (h : Forged k c) (hb : BehindQuery k c) (t : Bytes) (e : UInt8) :
    (authorityLoop e t c).1.skipPath = true ∧ Forged k (authorityLoop e t c).1.close := by
  have hbeh : Behind k c c := ⟨hb.passed, hb.skip, hb.userinfo, Or.inl h⟩
  obtain ⟨hs, hf | hsame⟩ := authorityLoop_behind t e c hbeh
  · exact ⟨hs, hf⟩
  · obtain ⟨p, hp, h1, h2⟩ := h
    have hpc : p ∈ checkedParts := by
      simp only [List.mem_cons, List.not_mem_nil, or_false] at hp
      rcases hp with rfl | rfl <;> decide
    exact ⟨hs, p, hp, (hsame p hpc).1.trans_le h1, h2.trans_eq (hsame p hpc).2.symm⟩

/-- The query of a text whose fragment begins at `c.i`. -/
theorem query_ended (u : UriText) (e : UInt8) {c : UriCut} (hq : c.endIdx .query ≤ c.i) :
    (cutPath (authorityLoop e u.fragmentText c)).startIdx .query = c.startIdx .query ∧
      (cutPath (authorityLoop e u.fragmentText c)).endIdx .query ≤ c.i := by
  cases hu : u.fragment with
  | none =>
    have hcut : cutPath (authorityLoop e u.fragmentText c) = ({ c with skipPath := true } : UriCut).close := by
      rw [UriText.fragmentText, hu]; exact cutPath_skip rfl []
    rw [hcut]
    unfold UriCut.close
    split
    · exact ⟨rfl, hq⟩
    · refine ⟨rfl, ?_⟩
      rw [UriCut.setEnd_endIdx]
      split
      · exact Nat.le_refl _
      · exact hq
  | some f =>
    have hcut : cutPath (authorityLoop e u.fragmentText c) = c.atFragment (strlen (HASH :: f)) := by
      rw [UriText.fragmentText, hu]; exact cutPath_skip (c := c.atFragment _) rfl _
    rw [hcut]
    refine ⟨by simp [UriCut.atFragment], ?_⟩
    simp only [UriCut.atFragment, UriCut.enter_endIdx, UriCut.setEnd_endIdx, UriCut.setStart_endIdx]
    rw [if_neg (by decide)]
    split
    · exact Nat.le_refl _
    · exact hq

theorem piece_length {str w : Bytes} {c : UriCut} {p : UriPart} (hp : p ≠ .host) (h : piece str c p = some w) :
    w.length ≤ c.endIdx p - c.startIdx p := by
  unfold piece at h
  split at h
  · rw [if_neg (fun h => hp h.1)] at h
    rw [← Option.some.inj h, span]
    exact List.length_take_le _ _
  · cases h

/-- The loop's flag behind the authority, and what it makes of the query. -/
def UriText.queryPassive (u : UriText) : Prop :=
  ∀ q ∈ u.query, allPassive (u.host.isLiteral && u.port.isNone) true QUESTION q = true

/-- **A query the loop acts on is not stored.** -/
theorem tail_spoiled (u : UriText) {d : UriCut} (e : UInt8) (hd : InHead d) (hc : AuthorityCut u d) (hp : u.path = [])
    (hq : ¬ u.queryPassive) : charsValid u.compose (cutPath (authorityLoop e u.tailText d)) = false ∨
      piece u.compose (cutPath (authorityLoop e u.tailText d)) .query ≠ u.query := by
  unfold UriText.queryPassive at hq
  push Not at hq
  obtain ⟨q, hu, hq⟩ := hq
  obtain ⟨hne, hh, h0⟩ := u.query_bytes q hu
  have htail : u.tailText = QUESTION :: q ++ u.fragmentText := by
    rw [UriText.tailText, hp, List.nil_append, UriText.queryText, hu]
  have hpos : u.compose[d.i]? = some QUESTION := by
    have hx : u.compose = (u.scheme ++ ascii "://" ++ u.authorityText) ++ QUESTION :: (q ++ u.fragmentText) := by
      rw [UriText.compose, ← UriText.tailText, htail, List.append_assoc _ _ (QUESTION :: _)]; rfl
    have hl : d.i = (u.scheme ++ ascii "://" ++ u.authorityText).length := by
      rw [hc.i, List.length_append, List.length_append]; rfl
    rw [hx, hl, List.getElem?_append_right (Nat.le_refl _), Nat.sub_self]
    rfl
  have hbeh : BehindQuery d.i d.atQuery.next := by
    refine ⟨Nat.lt_succ_self _, rfl, by simpa using hd.userinfo, ?_⟩
    have := (hd.later .query (by simp)).2
    simp [Ne.symm hd.pre_checked.2.2.1, this]
  have hrun : authorityLoop e (QUESTION :: q ++ u.fragmentText) d =
      authorityLoop QUESTION (q ++ u.fragmentText) d.atQuery.next := by
    rw [List.cons_append, authorityLoop]
    rfl
  rcases authorityLoop_passive_or_spoiled u.fragmentText q QUESTION _ hbeh (by simpa using hd.host) hh h0 with
    hpass | ⟨c', e', ⟨hb', hspoil⟩, hi, hrun'⟩
  · rw [UriCut.next_inIpv6, UriCut.atQuery_inIpv6, hc.ipv6] at hpass
    exact absurd hpass hq
  · rw [htail, hrun, hrun']
    rcases hspoil with hf | hstart
    · obtain ⟨hs, hforged⟩ := hf.ended hb' u.fragmentText e'
      refine Or.inl ?_
      have hcut : cutPath (authorityLoop e' u.fragmentText c') = (authorityLoop e' u.fragmentText c').1.close :=
        cutPath_skip hs _
      rw [hcut]
      exact hforged.invalid hpos
    · refine Or.inr fun heq => ?_
      obtain ⟨h1, h2⟩ := query_ended u e' hb'.query
      rw [hu] at heq
      have hlen := piece_length (by decide) heq
      rw [UriCut.next_i, UriCut.atQuery_i] at hi
      have hpos := List.length_pos_of_ne_nil hne
      omega

/-! ## The condition, in terms of the text -/

theorem passive_iff (ipv6 : Bool) (e : UInt8) {b : UInt8} (hh : b ≠ HASH) (h0 : b ≠ NUL) :
    passive ipv6 true e b = true ↔ b ≠ QUESTION ∧ b ≠ AT ∧ (b = COLON → ipv6 = true ∧ e ≠ RBRACKET) := by
  unfold passive authorityMap
  rw [if_neg h0, if_neg hh]
  by_cases hs : b = SLASH
  · subst hs
    rw [if_pos rfl]
    exact ⟨fun _ => ⟨by decide, by decide, fun h => absurd h (by decide)⟩, fun _ => rfl⟩
  · rw [if_neg hs]
    by_cases hc : b = COLON
    · subst hc
      rw [if_pos rfl]
      exact ⟨fun h => ⟨by decide, by decide, fun _ => by simpa using h⟩, fun h => by simpa using h.2.2 rfl⟩
    · rw [if_neg hc]
      by_cases hq : b = QUESTION
      · subst hq
        rw [if_pos rfl]
        simp
      · rw [if_neg hq]
        by_cases ha : b = AT
        · subst ha
          rw [if_pos rfl]
          simp
        · rw [if_neg ha]
          simp [hq, ha, hc]

theorem allPassive_iff (ipv6 : Bool) : ∀ (q : Bytes) (e : UInt8), HASH ∉ q → NUL ∉ q →
    (allPassive ipv6 true e q = true ↔ QUESTION ∉ q ∧ AT ∉ q ∧
      if ipv6 then ¬ [RBRACKET, COLON] <:+: e :: q else COLON ∉ q)
  | [], e, _, _ => by cases ipv6 <;> simp [allPassive, List.infix_cons_iff]
  | b :: q, e, hh, h0 => by
    rw [List.mem_cons, not_or] at hh h0
    rw [allPassive, Bool.and_eq_true, passive_iff ipv6 e (Ne.symm hh.1) (Ne.symm h0.1),
      allPassive_iff ipv6 q b hh.2 h0.2]
    have hinfix : [RBRACKET, COLON] <:+: e :: b :: q ↔ (e = RBRACKET ∧ b = COLON) ∨ [RBRACKET, COLON] <:+: b :: q := by
      rw [List.infix_cons_iff, List.cons_prefix_cons, List.cons_prefix_cons]
      simp [eq_comm]
    cases ipv6 with
    | true =>
      simp only [if_true, hinfix, List.mem_cons, not_or]
      constructor
      · rintro ⟨⟨h1, h2, h3⟩, h4, h5, h6⟩
        exact ⟨⟨Ne.symm h1, h4⟩, ⟨Ne.symm h2, h5⟩, fun h => (h3 h.2).2 h.1, h6⟩
      · rintro ⟨⟨h1, h4⟩, ⟨h2, h5⟩, h3, h6⟩
        exact ⟨⟨Ne.symm h1, Ne.symm h2, fun hb => ⟨trivial, fun he => h3 ⟨he, hb⟩⟩⟩, h4, h5, h6⟩
    | false =>
      simp only [Bool.false_eq_true, if_false, List.mem_cons, not_or, false_and]
      constructor
      · rintro ⟨⟨h1, h2, h3⟩, h4, h5, h6⟩
        exact ⟨⟨Ne.symm h1, h4⟩, ⟨Ne.symm h2, h5⟩, Ne.symm h3, h6⟩
      · rintro ⟨⟨h1, h4⟩, ⟨h2, h5⟩, h3, h6⟩
        exact ⟨⟨Ne.symm h1, Ne.symm h2, Ne.symm h3⟩, h4, h5, h6⟩

theorem queryApart_iff (u : UriText) : u.QueryApart ↔ (u.path = [] → u.queryPassive) := by
  refine imp_congr_right fun _ => forall_congr' fun q => forall_congr' fun hq => ?_
  obtain ⟨_, hh, h0⟩ := u.query_bytes q hq
  rw [allPassive_iff _ q QUESTION hh h0]
  refine and_congr_right fun _ => and_congr_right fun _ => ?_
  have hinfix : [RBRACKET, COLON] <:+: QUESTION :: q ↔ [RBRACKET, COLON] <:+: q := by
    rw [List.infix_cons_iff, List.cons_prefix_cons]
    exact ⟨fun h => h.resolve_left (fun h => absurd h.1 (by decide)), Or.inr⟩
  cases u.host with
  | name h => simp [HostText.isLiteral]
  | literal h =>
    cases u.port with
    | none => simp [HostText.isLiteral, hinfix]
    | some w => simp [HostText.isLiteral]

/-! ## The round trip -/

/-- **Parsing a composed URI gives its components back exactly when its query stands apart from the authority.** -/
theorem parse_compose (room : UriPart → Nat → Bool) (u : UriText) (v : ParsedURI) (hroom : ∀ p n, room p n = true) :
    URIParser.parse room u.compose v = some (0, u.stored v.error) ↔ u.QueryApart := by
  have hc : COLON ∉ u.scheme := fun h => (scheme_valid _ (u.scheme_allowed.2 _ h)).1 rfl
  have h0 : NUL ∉ u.scheme := fun h => (scheme_valid _ (u.scheme_allowed.2 _ h)).2 rfl
  obtain ⟨d, e, hd, hcut, hrun⟩ := authority_cut u
  have hhead := u.tailText_head
  have hcomp : u.compose = u.scheme ++ ascii "://" ++ (u.authorityText ++ u.tailText) := rfl
  rw [queryApart_iff, hcomp, parse_slashes_success hc h0, hrun u.tailText hhead, ← hcomp]
  constructor
  · rintro ⟨_, hv, hst⟩ hp
    by_contra hq
    rcases tail_spoiled u e hd hcut hp hq with hbad | hbad
    · rw [hbad] at hv; cases hv
    · refine hbad ?_
      have := (storeParts_all.mp hst).2
      exact (congrArg ParsedURI.query this).symm
  · intro hpass
    have htail : TailCut u d.i (cutPath (authorityLoop e u.tailText d)) ∧
        SameChecked (cutPath (authorityLoop e u.tailText d)) d.close := by
      by_cases hp : u.path = []
      · exact tail_passive u e hd hp fun q hq => by rw [hcut.ipv6]; exact hpass hp q hq
      · exact tail_path u e hd hp
    exact ⟨u.scheme_allowed.1, (hcut.full htail.2 htail.1).store hroom _⟩

/-- `http://h?a:b`. -/
def colonQuery : UriText where
  scheme := ascii "http"
  userinfo := none
  host := .name (ascii "h")
  port := none
  path := []
  query := some (ascii "a:b")
  fragment := none
  scheme_allowed := ⟨by decide, by decide +kernel⟩
  userinfo_allowed := by simp
  host_allowed := ⟨by decide, by decide +kernel⟩
  host_brackets := by decide
  host_name := by rintro h ⟨⟩; decide
  port_allowed := by simp
  path_slash := Or.inl rfl
  path_bytes := by decide
  query_bytes := by rintro w ⟨⟩; decide
  fragment_bytes := by simp

theorem parse_compose_colon :
    URIParser.parse (fun _ _ => true) colonQuery.compose .fresh = some (0, colonQuery.stored 0) ↔
      colonQuery.QueryApart :=
  parse_compose (fun _ _ => true) colonQuery .fresh (fun _ _ => rfl)

/-- A query directly behind a host makes `parse` reject the text if it has a `:`. -/
theorem compose_rejected : ¬ ∀ (u : UriText) (v : ParsedURI),
    URIParser.parse (fun _ _ => true) u.compose v = some (0, u.stored v.error) := by
  intro h
  have hrej : URIParser.parse (fun _ _ => true) colonQuery.compose .fresh =
      some (-1, { ParsedURI.fresh with state := .invalid }) := by decide +kernel
  have := (h colonQuery .fresh).symm.trans hrej
  cases this

end Tinywf
