import Tinywf.UriUnclosed
/-!
# UriRedirect — a relative `Location`, and the URI it makes

`ComplexHttpTask::redirect_url` puts the scheme, the host and the port of the current URI before a `Location` that
begins with one slash, and parses the text again.  The host has lost its brackets by then; but as it does not begin
with one, every `:` of the authority ends the host anew, and the last one, before the port, has the last word
(`authority_again`).
-/
namespace Tinywf

open CLib

/-- The text `redirect_url` parses; `null` is what `operator +` makes of a pointer that is `NULL`. -/
def redirectText (null url : Bytes) (uri : ParsedURI) : Bytes :=
  if url.headD NUL = SLASH then
    let url := if url.tail.headD NUL = SLASH then url
      else
        let url := match uri.port with
          | some port => COLON :: (port ++ url)
          | none => url
        ascii "//" ++ (uri.host.getD null ++ url)
    uri.scheme.getD null ++ (COLON :: url)
  else url

/-! ## The components of a `Location` -/

def endsPath (b : UInt8) : Bool := b == QUESTION || b == HASH

def locationPath (l : Bytes) : Bytes := l.takeWhile fun b => !endsPath b

/-- What stands between the first `?`, before any `#`, and the first `#`. -/
def locationQuery (l : Bytes) : Option Bytes :=
  match l.dropWhile fun b => !endsPath b with
  | 63 :: r => some (queryOf r)
  | _ => none

/-- What stands behind the first `#`. -/
def locationFragment (l : Bytes) : Option Bytes :=
  match l.dropWhile (· != HASH) with
  | _ :: f => some f
  | [] => none

theorem locationPath_byte {l : Bytes} {b : UInt8} (h : b ∈ locationPath l) : b ≠ QUESTION ∧ b ≠ HASH := by
  have hb := List.mem_takeWhile_imp (p := fun b => !endsPath b) h
  simpa [endsPath] using hb

theorem queryOf_byte {l : Bytes} {b : UInt8} (h : b ∈ queryOf l) : b ≠ HASH := by
  have hb := List.mem_takeWhile_imp (p := fun b => b != HASH) h
  simpa using hb

theorem locationPath_bytes {l : Bytes} (h0 : NUL ∉ l) :
    QUESTION ∉ locationPath l ∧ HASH ∉ locationPath l ∧ NUL ∉ locationPath l :=
  ⟨fun hm => (locationPath_byte hm).1 rfl, fun hm => (locationPath_byte hm).2 rfl,
    fun hm => h0 (List.takeWhile_subset _ hm)⟩

theorem locationQuery_bytes {l q : Bytes} (h0 : NUL ∉ l) (h : locationQuery l = some q) : HASH ∉ q ∧ NUL ∉ q := by
  unfold locationQuery at h
  split at h
  · rename_i r hr
    cases h
    refine ⟨fun hm => queryOf_byte hm rfl, fun hm => ?_⟩
    have hmem : NUL ∈ l.dropWhile fun b => !endsPath b := by
      rw [hr]
      exact List.mem_cons_of_mem _ (List.takeWhile_subset _ hm)
    exact h0 (List.dropWhile_subset _ hmem)
  · cases h

theorem locationFragment_bytes {l f : Bytes} (h0 : NUL ∉ l) (h : locationFragment l = some f) : NUL ∉ f := by
  unfold locationFragment at h
  split at h
  · rename_i b r hr
    cases h
    intro hm
    have hmem : NUL ∈ l.dropWhile (· != HASH) := by
      rw [hr]
      exact List.mem_cons_of_mem _ hm
    exact h0 (List.dropWhile_subset _ hmem)
  · cases h

/-- **A `Location` is made of its components.** -/
theorem location_split (l : Bytes) :
    l = locationPath l ++ (queryPart (locationQuery l) ++ fragmentPart (locationFragment l)) := by
  have hsplit : locationPath l ++ (l.dropWhile fun b => !endsPath b) = l := List.takeWhile_append_dropWhile
  have hpath : ∀ b ∈ locationPath l, (b != HASH) = true := fun b hb => by simpa using (locationPath_byte hb).2
  have hfragment : locationFragment l = match (l.dropWhile fun b => !endsPath b).dropWhile (· != HASH) with
      | _ :: f => some f
      | [] => none := by
    unfold locationFragment
    conv => lhs; rw [← hsplit, List.dropWhile_append_of_pos hpath]
  rw [hfragment]
  unfold locationQuery
  conv => lhs; rw [← hsplit]
  congr 1
  cases hr : l.dropWhile fun b => !endsPath b with
  | nil => rfl
  | cons b r =>
    have hb : endsPath b = true := by
      have := List.head_dropWhile_not (fun b => !endsPath b) (l := l) (by rw [hr]; exact List.cons_ne_nil _ _)
      simpa [hr] using this
    rw [endsPath, Bool.or_eq_true, beq_iff_eq, beq_iff_eq] at hb
    rcases hb with rfl | rfl
    · rw [List.dropWhile_cons_of_pos (by decide)]
      have hrest : queryOf r ++ r.dropWhile (· != HASH) = r := List.takeWhile_append_dropWhile
      refine congrArg (List.cons QUESTION) ?_
      conv => lhs; rw [← hrest]
      congr 1
      cases hd : r.dropWhile (· != HASH) with
      | nil => rfl
      | cons b f =>
        have hb : (b != HASH) = false := by
          have := List.head_dropWhile_not (· != HASH) (l := r) (by rw [hd]; exact List.cons_ne_nil _ _)
          simpa [hd] using this
        rw [bne_eq_false_iff_eq] at hb
        rw [hb]
        rfl
    · rw [List.dropWhile_cons_of_neg (by decide)]
      rfl

/-! ## What a parsed URI has -/

theorem span_mem {str : Bytes} {a b : Nat} {x : UInt8} (h : x ∈ span str a b) : ∃ q, a ≤ q ∧ q < b ∧ str[q]? = some x := by
  obtain ⟨i, hi⟩ := List.mem_iff_getElem?.1 h
  have hlt : i < b - a := by
    have := (List.getElem?_eq_some_iff.1 hi).1
    exact Nat.lt_of_lt_of_le this (List.length_take_le _ _)
  rw [span, List.getElem?_take_of_lt hlt, List.getElem?_drop] at hi
  exact ⟨a + i, Nat.le_add_right _ _, by omega, hi⟩

/-- **What is stored of a checked component passes its table.** -/
theorem piece_valid {str v : Bytes} {c : UriCut} {p : UriPart} (hv : charsValid str c = true) (hp : p ∈ checkedParts)
    (h : piece str c p = some v) : ∀ b ∈ v, validChar p b = true := by
  have hall := List.all_eq_true.1 (List.all_eq_true.1 hv p hp)
  unfold piece at h
  split at h
  · split at h
    · cases h
      intro b hb
      obtain ⟨q, h1, h2, hq⟩ := span_mem hb
      exact hall b (mem_span hq (by omega) (by omega))
    · cases h
      exact hall
  · cases h

theorem piece_ne_nil {str v : Bytes} {c : UriCut} {p : UriPart} (hp : p ≠ .host) (hend : c.endIdx p ≤ str.length)
    (h : piece str c p = some v) : v ≠ [] := by
  unfold piece at h
  split at h
  · rename_i hlt
    rw [if_neg fun hh => hp hh.1] at h
    cases h
    intro hnil
    have hlen : (span str (c.startIdx p) (c.endIdx p)).length = c.endIdx p - c.startIdx p := by
      rw [span, List.length_take, List.length_drop]
      omega
    rw [hnil, List.length_nil] at hlen
    omega
  · cases h

/-- The scheme has ended, and the loops are elsewhere. -/
structure BehindScheme (n : Nat) (c : UriCut) : Prop where
  starts : c.startIdx .scheme = 0
  ends : c.endIdx .scheme = n
  elsewhere : c.preState ≠ .scheme

theorem BehindScheme.atHost {n : Nat} {c : UriCut} (h : BehindScheme n c) (e : UInt8) : BehindScheme n (c.atHost e) := by
  rw [UriCut.atHost_eq]
  split
  · exact h
  · exact ⟨by simpa using h.starts, by simpa using h.ends, by simp⟩

theorem BehindScheme.authorityLoop {n : Nat} : ∀ (l : Bytes) (e : UInt8) {c : UriCut}, BehindScheme n c →
    BehindScheme n (authorityLoop e l c).1
  | [], e, c, h => ⟨h.starts, h.ends, h.elsewhere⟩
  | b :: l, e, c, h => by
    rw [Tinywf.authorityLoop]
    split
    · exact BehindScheme.authorityLoop l b ⟨h.starts, h.ends, h.elsewhere⟩
    · exact BehindScheme.authorityLoop l b ⟨by simpa using h.starts, by simpa using h.ends, by simp⟩
    · have hh := h.atHost e
      exact BehindScheme.authorityLoop l b ⟨hh.starts, hh.ends, hh.elsewhere⟩
    · refine BehindScheme.authorityLoop l b ⟨by simpa using h.starts, ?_, by simp⟩
      rw [UriCut.next_endIdx, UriCut.atQuery_endIdx, if_neg (Ne.symm h.elsewhere)]
      exact h.ends
    · refine ⟨by simpa [UriCut.atFragment] using h.starts, ?_, by simp [UriCut.atFragment]⟩
      simpa [UriCut.atFragment, Ne.symm h.elsewhere] using h.ends
    · split
      · exact BehindScheme.authorityLoop l b ⟨h.starts, h.ends, h.elsewhere⟩
      · exact ⟨by simpa using h.starts, h.ends, h.elsewhere⟩
    · exact ⟨h.starts, h.ends, h.elsewhere⟩
    · exact h

/-- What follows a scheme leaves it where it is. -/
theorem cutRest_scheme (l : Bytes) (n : Nat) :
    (cutRest l (schemeEnd n)).startIdx .scheme = 0 ∧ (cutRest l (schemeEnd n)).endIdx .scheme = n := by
  have close {r : UriCut × Bytes} (h : BehindScheme n r.1) :
      (cutPath r).startIdx .scheme = 0 ∧ (cutPath r).endIdx .scheme = n := by
    obtain ⟨hs, he⟩ := cutPath_checked r .scheme (by decide)
    refine ⟨by rw [hs, UriCut.close_startIdx, h.starts], ?_⟩
    rw [he, UriCut.close]
    split
    · exact h.ends
    · rw [UriCut.setEnd_endIdx, if_neg (Ne.symm h.elsewhere)]
      exact h.ends
  have cut {r : Bytes} {c : UriCut} (h : BehindScheme n c) : BehindScheme n (cutAuthority r c).1 := by
    unfold cutAuthority
    split
    · exact h.authorityLoop r SLASH
    · exact h
  unfold cutRest
  split
  · rename_i r
    refine close (cut ?_)
    have hs := openAuthority_atStart n (r.headD NUL)
    refine ⟨hs.2.2.2.1, hs.2.2.2.2.1, ?_⟩
    rw [hs.2.1]
    decide
  · refine close (cut ⟨?_, ?_, ?_⟩)
    · simp [schemeEnd, UriCut.init]
    · simp [schemeEnd]
    · simp

/-- The scheme, the host and the port of a URI that was parsed. -/
structure Authority (u : ParsedURI) (s h w : Bytes) : Prop where
  scheme : u.scheme = some s
  host : u.host = some h
  port : u.port = some w
  scheme_allowed : Allowed .scheme s
  host_bytes : ∀ b ∈ h, validChar .host b = true
  port_allowed : Allowed .port w

theorem parse_authority {room : UriPart → Nat → Bool} {str : Bytes} {v u : ParsedURI} (h0 : NUL ∉ str)
    (hparse : URIParser.parse room str v = some (0, u)) {h w : Bytes} (hhost : u.host = some h) (hport : u.port = some w) :
    ∃ s, Authority u s h w := by
  rw [parse_uriCut] at hparse
  cases hc : uriCut str with
  | none =>
    rw [hc] at hparse
    cases hparse
  | some c =>
    rw [hc] at hparse
    obtain ⟨-, rfl⟩ := storeParts_all.1 hparse
    obtain ⟨s, rest, hstr, hne, -, -, hcut, hv⟩ := uriCut_scheme h0 hc
    have hends := uriCut_ends hc
    obtain ⟨hs, he⟩ := cutRest_scheme rest s.length
    rw [hcut] at hs he
    have hscheme : piece str c .scheme = some s := by
      unfold piece
      rw [hs, he, if_pos (List.length_pos_iff.2 hne), if_neg (by simp), hstr, span, Nat.sub_zero, List.drop_zero,
        List.take_left]
    exact ⟨s, hscheme, hhost, hport, ⟨hne, piece_valid hv (by decide) hscheme⟩, piece_valid hv (by decide) hhost,
      piece_ne_nil (by decide) (hends _) hport, piece_valid hv (by decide) hport⟩

/-! ## The second reading -/

/-- **Read again, a host that does not begin with a bracket ends at the last `:`.** -/
theorem authority_again (s : Bytes) {h w : Bytes} (hne : h ≠ []) (plain : h.head? ≠ some LBRACKET) (hat : AT ∉ h)
    (hatw : AT ∉ w) (hw : COLON ∉ w) :
    Found s none h (some w) (headState SLASH (h ++ COLON :: w) (authorityStart s.length (h ++ COLON :: w))).2.close := by
  have hhead : (h ++ COLON :: w).headD NUL ≠ LBRACKET := by
    obtain ⟨b, h, rfl⟩ := List.exists_cons_of_ne_nil hne
    exact fun hb => plain (congrArg some hb)
  have hs := openAuthority_atStart s.length ((h ++ COLON :: w).headD NUL)
  have h6 := openAuthority_ipv6 s.length ((h ++ COLON :: w).headD NUL)
  rw [decide_eq_false hhead] at h6
  have hcut := hostCut_port (e := SLASH) (c := authorityStart s.length (h ++ COLON :: w)) hat hatw hw (by
    rw [authorityStart, h6]
    exact (effective_false _ _).2 (by simp))
  refine hcut.found ⟨hs.2.2.2.1, hs.2.2.2.2.1⟩ ?_ hs.2.2.2.2.2.2 hs.1 (hs.2.2.1.trans hs.1.symm)
  exact hs.2.2.2.2.2.1.trans_le (Nat.zero_le _)

/-- A component is stored unless it is empty. -/
def storedPart (o : Option Bytes) : Option Bytes := o.filter fun w => !w.isEmpty

theorem holds_storedPart {str x : Bytes} {c : UriCut} {p : UriPart} {o : Option Bytes} (hp : p ≠ .host)
    (h : Holds c p x.length o) (stands : ∀ w ∈ o, ∃ y, str = x ++ (w ++ y)) : piece str c p = storedPart o := by
  unfold piece
  cases o with
  | none => exact if_neg (Nat.not_lt.2 h)
  | some w =>
    obtain ⟨y, hstr⟩ := stands w rfl
    rw [h.1, h.2]
    cases w with
    | nil => exact if_neg (by simp)
    | cons b w =>
      rw [if_pos (by simp), if_neg fun hh => hp hh.1, hstr, span_part x (b :: w) y rfl rfl]
      rfl

theorem holds_host {str x y w : Bytes} {c : UriCut} (h : Holds c .host x.length (some w)) (hstr : str = x ++ (w ++ y))
    (hne : w ≠ []) (plain : w.head? ≠ some LBRACKET) :
    piece str c .host = some w ∧ str.getD (c.startIdx .host) NUL ≠ LBRACKET := by
  obtain ⟨b, w, rfl⟩ := List.exists_cons_of_ne_nil hne
  have hb : str.getD (c.startIdx .host) NUL ≠ LBRACKET := by
    rw [h.1, hstr, getD_part x (b :: w) y (Nat.le_refl _) (by simp), Nat.sub_self]
    exact fun hh => plain (congrArg some hh)
  have hlt : c.startIdx .host < c.endIdx .host := by
    rw [h.1, h.2]
    exact Nat.lt_add_of_pos_right (Nat.succ_pos _)
  refine ⟨?_, hb⟩
  unfold piece
  rw [if_pos hlt, if_neg fun hh => hb hh.2, h.1, h.2, hstr, span_part x (b :: w) y rfl rfl]

theorem storedPart_of_ne_nil {w : Bytes} (h : w ≠ []) : storedPart (some w) = some w := by
  obtain ⟨b, w, rfl⟩ := List.exists_cons_of_ne_nil h
  rfl

/-- What `redirect_url` makes of a relative `Location`. -/
def relocated (base : ParsedURI) (loc : Bytes) : ParsedURI :=
  { base with
    userinfo := none, path := some (locationPath loc), query := storedPart (locationQuery loc),
    fragment := storedPart (locationFragment loc), state := .success }

/-- The text that is parsed again. -/
theorem redirectText_eq {base : ParsedURI} {s h w loc : Bytes} (hb : Authority base s h w) (null : Bytes)
    (slash : loc.head? = some SLASH) (single : loc.tail.head? ≠ some SLASH) :
    redirectText null loc base = hostText s none h (some w) loc := by
  obtain ⟨l, rfl⟩ := List.head?_eq_some_iff.1 slash
  have hsingle : (SLASH :: l).tail.headD NUL ≠ SLASH := by
    cases l with
    | nil => exact (by decide : NUL ≠ SLASH)
    | cons b l => exact fun hh => single (congrArg some hh)
  have hfirst : (SLASH :: l).headD NUL = SLASH := rfl
  unfold redirectText
  rw [if_pos hfirst, if_neg hsingle, hb.scheme, hb.host, hb.port]
  simp only [Option.getD_some, hostText, userinfoPart, portPart, List.nil_append, List.append_assoc, List.cons_append]
  rfl

theorem Authority.bytes {base : ParsedURI} {s h w : Bytes} (hb : Authority base s h w) :
    ∀ b ∈ h ++ COLON :: w, inAuthority b = true ∧ b ≠ NUL := by
  intro b hm
  rw [List.mem_append, List.mem_cons] at hm
  rcases hm with hm | rfl | hm
  · have hv := host_valid b (hb.host_bytes b hm)
    exact ⟨hv.1, hv.2.1⟩
  · exact ⟨by decide, by decide⟩
  · obtain ⟨h1, h2⟩ := port_valid b (hb.port_allowed.2 b hm)
    exact ⟨h1, fun h => by rw [h] at h2; cases h2⟩

theorem Authority.plain {base : ParsedURI} {s h w : Bytes} (hb : Authority base s h w) : AT ∉ h ∧ AT ∉ w ∧ COLON ∉ w := by
  refine ⟨fun hm => (host_valid _ (hb.host_bytes _ hm)).2.2 rfl, fun hm => ?_, fun hm => ?_⟩
  · exact absurd (port_valid _ (hb.port_allowed.2 _ hm)).2 (by decide)
  · exact absurd (port_valid _ (hb.port_allowed.2 _ hm)).2 (by decide)

/-- What is behind the authority has been found where it stands. -/
theorem PathFound.stored {c : UriCut} {x loc : Bytes}
    (h : PathFound (locationPath loc) (locationQuery loc) (locationFragment loc) x.length c) :
    piece (x ++ loc) c .path = storedPart (some (locationPath loc)) ∧
      piece (x ++ loc) c .query = storedPart (locationQuery loc) ∧
      piece (x ++ loc) c .fragment = storedPart (locationFragment loc) := by
  have hsplit := location_split loc
  refine ⟨holds_storedPart (by decide) h.path fun w hw => ?_,
    holds_storedPart (x := x ++ (locationPath loc ++ [QUESTION])) (by decide) ?_ fun w hw => ?_,
    holds_storedPart (x := x ++ (locationPath loc ++ (queryPart (locationQuery loc) ++ [HASH]))) (by decide) ?_ fun w hw => ?_⟩
  · cases hw
    exact ⟨_, congrArg (x ++ ·) hsplit⟩
  · have hk : (x ++ (locationPath loc ++ [QUESTION])).length = x.length + (locationPath loc).length + 1 := by
      simp only [List.length_append, List.length_singleton, Nat.add_assoc]
    rw [hk]
    exact h.query
  · refine ⟨fragmentPart (locationFragment loc), ?_⟩
    conv => lhs; rw [hsplit, show locationQuery loc = some w from hw]
    simp [queryPart]
  · have hk : (x ++ (locationPath loc ++ (queryPart (locationQuery loc) ++ [HASH]))).length =
        x.length + (locationPath loc).length + (queryPart (locationQuery loc)).length + 1 := by
      simp only [List.length_append, List.length_singleton, Nat.add_assoc]
    rw [hk]
    exact h.fragment
  · refine ⟨[], ?_⟩
    conv => lhs; rw [hsplit, show locationFragment loc = some w from hw]
    simp [fragmentPart]

/-- And so has the authority. -/
theorem Found.stored {c : UriCut} {s h w : Bytes} (hf : Found s none h (some w) c) (loc : Bytes) (hs : s ≠ [])
    (hne : h ≠ []) (plain : h.head? ≠ some LBRACKET) (hw : w ≠ []) :
    piece (hostText s none h (some w) loc) c .scheme = some s ∧
      piece (hostText s none h (some w) loc) c .userinfo = none ∧
      (piece (hostText s none h (some w) loc) c .host = some h ∧
        (hostText s none h (some w) loc).getD (c.startIdx .host) NUL ≠ LBRACKET) ∧
      piece (hostText s none h (some w) loc) c .port = some w := by
  refine ⟨?_, if_neg (Nat.not_lt.2 hf.userinfo),
    holds_host (x := s ++ ascii "://") (y := COLON :: w ++ loc) ?_ ?_ hne plain, ?_⟩
  · refine (holds_storedPart (x := []) (by decide) hf.scheme fun v hv => ?_).trans (storedPart_of_ne_nil hs)
    cases hv
    exact ⟨_, List.append_assoc _ _ _⟩
  · have hk : (s ++ ascii "://").length = s.length + 3 + (userinfoPart none).length := List.length_append
    rw [hk]
    exact hf.host
  · simp [hostText, userinfoPart, portPart]
  · refine (holds_storedPart (x := s ++ ascii "://" ++ h ++ [COLON]) (by decide) ?_ fun v hv => ?_).trans
      (storedPart_of_ne_nil hw)
    · have hk : (s ++ ascii "://" ++ h ++ [COLON]).length = s.length + 3 + (userinfoPart none).length + h.length + 1 := by
        simp only [List.length_append, List.length_singleton]
        rfl
      rw [hk]
      exact hf.port
    · cases hv
      exact ⟨loc, by simp [hostText, userinfoPart, portPart]⟩

theorem Found.congr {c d : UriCut} {s h : Bytes} {u w : Option Bytes} (hf : Found s u h w d) (hs : SameChecked c d) :
    Found s u h w c :=
  ⟨hf.scheme.congr (hs _ (by decide)).1 (hs _ (by decide)).2, hf.userinfo.congr (hs _ (by decide)).1 (hs _ (by decide)).2,
    hf.host.congr (hs _ (by decide)).1 (hs _ (by decide)).2, hf.port.congr (hs _ (by decide)).1 (hs _ (by decide)).2⟩

/-- **A relative redirect keeps the scheme, the host and the port.** -/
theorem redirect_keeps_authority (room again : UriPart → Nat → Bool) (memory : ∀ p n, again p n = true)
    (null str loc : Bytes) (v base : ParsedURI) (h0 : NUL ∉ str) (parsed : URIParser.parse room str v = some (0, base))
    (h w : Bytes) (host : base.host = some h) (hne : h ≠ []) (plain : h.head? ≠ some LBRACKET) (port : base.port = some w)
    (slash : loc.head? = some SLASH) (single : loc.tail.head? ≠ some SLASH) (clean : NUL ∉ loc) :
    URIParser.parse again (redirectText null loc base) base = some (0, relocated base loc) := by
  obtain ⟨s, hb⟩ := parse_authority h0 parsed host port
  obtain ⟨hat, hatw, hw⟩ := hb.plain
  have hfound := authority_again s hne plain hat hatw hw
  have hin := headState_inHead (h ++ COLON :: w) SLASH (authorityStart_inHead s.length (h ++ COLON :: w))
  have hframe := headState_frame (h ++ COLON :: w) SLASH (authorityStart s.length (h ++ COLON :: w))
  have hhead : loc.headD NUL ≠ LBRACKET := by
    obtain ⟨l, rfl⟩ := List.head?_eq_some_iff.1 slash
    exact (by decide : SLASH ≠ LBRACKET)
  have hslash : (locationPath loc).head? = some SLASH := by
    obtain ⟨l, rfl⟩ := List.head?_eq_some_iff.1 slash
    rfl
  have hcut := cutPath_headState s.length hb.bytes hhead
  obtain ⟨htail, hsame⟩ := path_found (headState SLASH (h ++ COLON :: w) (authorityStart s.length (h ++ COLON :: w))).1 hin
    hslash (locationPath_bytes clean) (fun q hq => locationQuery_bytes clean hq) fun f hf => locationFragment_bytes clean hf
  rw [← location_split, ← hcut] at htail hsame
  have hcutText := uriCut_slashes (r := h ++ COLON :: w ++ loc) hb.scheme_allowed
  generalize hc : cutPath (authorityLoop SLASH (h ++ COLON :: w ++ loc) (authorityStart s.length (h ++ COLON :: w ++ loc))) = c
    at *
  have htext : s ++ ascii "://" ++ (h ++ COLON :: w ++ loc) = hostText s none h (some w) loc := rfl
  have hvalid : charsValid (hostText s none h (some w) loc) c = true := by
    rw [hsame.valid]
    exact hfound.valid.2 ⟨hb.scheme_allowed.2, fun _ hh => (by cases hh), hb.host_bytes,
      fun _ hh => (by cases hh; exact hb.port_allowed.2)⟩
  have hsome : uriCut (hostText s none h (some w) loc) = some c := by
    rw [← htext, hcutText, htext]
    exact if_pos hvalid
  have hx : (s ++ ascii "://" ++ (h ++ COLON :: w)).length =
      (headState SLASH (h ++ COLON :: w) (authorityStart s.length (h ++ COLON :: w))).2.i := by
    rw [hframe.i, authorityStart_i, List.length_append, List.length_append]
    rfl
  rw [← hx] at htail
  obtain ⟨hscheme, huser, ⟨hhost, hbr⟩, hport⟩ :=
    (hfound.congr hsame).stored loc hb.scheme_allowed.1 hne plain hb.port_allowed.1
  obtain ⟨hpath, hquery, hfragment⟩ := htail.stored
  rw [List.append_assoc, htext] at hpath hquery hfragment
  rw [redirectText_eq hb null slash single, parse_uriCut, hsome]
  refine storeParts_all.2 ⟨fun p _ hlt => ⟨memory _ _, fun hp hb => ?_⟩, ?_⟩
  · rw [hp] at hb
    exact absurd hb hbr
  · have hne' : locationPath loc ≠ [] := fun hnil => by rw [hnil] at hslash; cases hslash
    rw [storedAs, hscheme, huser, hhost, hport, hpath, hquery, hfragment, storedPart_of_ne_nil hne', relocated, hb.scheme,
      hb.host, hb.port]

/-- What `http://[::1]:8080/x` is parsed to. -/
def literalBase : ParsedURI where
  scheme := some (ascii "http")
  userinfo := none
  host := some (ascii "::1")
  port := some (ascii "8080")
  path := some (ascii "/x")
  query := none
  fragment := none
  state := .success
  error := 0

theorem redirect_keeps_authority_literal :
    URIParser.parse (fun _ _ => true) (redirectText [] (ascii "/y?a:b#c") literalBase) literalBase =
      some (0, relocated literalBase (ascii "/y?a:b#c")) :=
  redirect_keeps_authority (fun _ _ => true) (fun _ _ => true) (fun _ _ => rfl) [] (ascii "http://[::1]:8080/x")
    (ascii "/y?a:b#c") .fresh literalBase (by decide) (by decide +kernel) (ascii "::1") (ascii "8080") rfl (by decide)
    (by decide) rfl rfl (by decide) (by decide)

end Tinywf
