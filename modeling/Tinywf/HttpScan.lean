import Tinywf.HttpParser
/-!
# HttpScan — what the scanning loops find

Each loop of the parser, as a statement about the bytes: where it finds the end it looks for (`lineScan_found`,
`nameScan_found`), that what it decides does not change when bytes are appended (`*_stable`), that what it could not
find before lies beyond the bytes it had (`*_beyond`), and that it never writes outside its array (`*_overrun`).
-/
namespace Tinywf

open CLib

/-! ## The copying loop -/

section copyScan

variable {N : Nat} {stop : UInt8} {onStop : Bytes → Scan} {reject : UInt8 → Bool}

theorem copyScan_overrun (hs : ∀ rest, onStop rest ≠ .overrun) :
    ∀ (l a : Bytes), (copyScan N N stop onStop reject a l).1 ≠ .overrun
  | [], a => by rw [copyScan]; split <;> simp
  | b :: rest, a => by
    rw [copyScan]
    split
    · rename_i hlt
      simp only [put, if_pos hlt]
      split
      · exact hs rest
      · split
        · simp
        · exact copyScan_overrun hs rest _
    · split <;> simp

/-- **A scan that did not run out of bytes decides the same with more of them.** -/
theorem copyScan_stable (m : Bytes) (hs : ∀ rest, onStop rest ≠ .more → onStop (rest ++ m) = onStop rest) :
    ∀ (l a : Bytes), (copyScan N N stop onStop reject a l).1 ≠ .more →
      copyScan N N stop onStop reject a (l ++ m) = copyScan N N stop onStop reject a l
  | [], a, h => by
    rw [copyScan] at h ⊢
    split at h
    · rename_i hN
      rw [List.nil_append]
      cases m with
      | nil => rw [copyScan, if_pos hN]
      | cons b rest => rw [copyScan, if_neg (by omega), if_pos hN]
    · exact absurd rfl h
  | b :: rest, a, h => by
    rw [List.cons_append]
    rw [copyScan] at h ⊢
    conv => rhs; rw [copyScan]
    split at h
    · rename_i hlt
      rw [if_pos hlt, if_pos hlt]
      simp only [put, if_pos hlt] at h ⊢
      split at h
      · rename_i hb
        rw [if_pos hb, if_pos hb, hs rest h]
      · rename_i hb
        rw [if_neg hb, if_neg hb]
        split at h
        · rename_i hr
          rw [if_pos hr, if_pos hr]
        · rename_i hr
          rw [if_neg hr, if_neg hr]
          exact copyScan_stable m hs rest _ h
    · rename_i hlt
      rw [if_neg hlt, if_neg hlt]

/-- **The scan finds the first `stop`**, where what follows suits it, nothing before it is refused and the array has
room. -/
theorem copyScan_found : ∀ (l a a' : Bytes), copyScan N N stop onStop reject a l = (.found, a') ↔
    ∃ w rest, l = w ++ stop :: rest ∧ onStop rest = .found ∧ a' = a ++ w ∧
      (∀ b ∈ w, b ≠ stop ∧ reject b = false) ∧ a.length + w.length < N
  | [], a, a' => by
    rw [copyScan]
    constructor
    · intro h
      split at h <;> cases h
    · rintro ⟨w, rest, h, -⟩
      cases w <;> cases h
  | b :: rest, a, a' => by
    rw [copyScan]
    by_cases hlt : a.length < N
    · simp only [put, if_pos hlt]
      by_cases hb : b = stop
      · subst hb
        rw [if_pos rfl]
        constructor
        · intro h
          obtain ⟨h1, h2⟩ := Prod.mk.inj h
          exact ⟨[], rest, rfl, h1, by simp [h2], by simp, by simpa using hlt⟩
        · rintro ⟨w, t, h, hs, rfl, hw, -⟩
          cases w with
          | nil =>
            simp only [List.nil_append, List.cons.injEq, true_and] at h
            subst h
            rw [hs, List.append_nil]
          | cons x w =>
            simp only [List.cons_append, List.cons.injEq] at h
            exact absurd h.1.symm (hw x (by simp)).1
      · rw [if_neg hb]
        by_cases hr : reject b = true
        · rw [if_pos hr]
          constructor
          · intro h; cases h
          · rintro ⟨w, t, h, -, -, hw, -⟩
            cases w with
            | nil => simp only [List.nil_append, List.cons.injEq] at h; exact absurd h.1 hb
            | cons x w =>
              simp only [List.cons_append, List.cons.injEq] at h
              have := (hw x (by simp)).2
              rw [← h.1, hr] at this
              cases this
        · rw [if_neg hr, copyScan_found rest (a ++ [b]) a']
          constructor
          · rintro ⟨w, t, rfl, hs, rfl, hw, hl⟩
            refine ⟨b :: w, t, rfl, hs, by simp, ?_, ?_⟩
            · intro x hx
              rcases List.mem_cons.1 hx with rfl | hx
              · exact ⟨hb, by simpa using hr⟩
              · exact hw x hx
            · simp only [List.length_append, List.length_cons, List.length_nil] at hl ⊢; omega
          · rintro ⟨w, t, h, hs, rfl, hw, hl⟩
            cases w with
            | nil => simp only [List.nil_append, List.cons.injEq] at h; exact absurd h.1 hb
            | cons x w =>
              simp only [List.cons_append, List.cons.injEq] at h
              obtain ⟨rfl, rfl⟩ := h
              refine ⟨w, t, rfl, hs, by simp, fun y hy => hw y (by simp [hy]), ?_⟩
              simp only [List.length_append, List.length_cons, List.length_nil] at hl ⊢; omega
    · rw [if_neg hlt]
      constructor
      · intro h; split at h <;> cases h
      · rintro ⟨w, t, -, -, -, -, hl⟩
        omega

end copyScan

/-! ## Lines and names -/

theorem afterCR_stable (m rest : Bytes) (h : afterCR rest ≠ .more) : afterCR (rest ++ m) = afterCR rest := by
  cases rest with
  | nil => exact absurd rfl h
  | cons c t => rfl

theorem afterCR_found {rest : Bytes} : afterCR rest = .found ↔ ∃ t, rest = LF :: t := by
  cases rest with
  | nil => simp [afterCR]
  | cons c t => by_cases hc : c = LF <;> simp [afterCR, hc]

theorem lineScan_overrun (N : Nat) (reject : UInt8 → Bool) (l : Bytes) : (lineScan N reject l).1 ≠ .overrun :=
  copyScan_overrun (fun rest => by
    cases rest with
    | nil => simp [afterCR]
    | cons c t => simp only [afterCR]; split <;> simp) l []

theorem nameScan_overrun (l : Bytes) : (nameScan l).1 ≠ .overrun := copyScan_overrun (fun _ => by simp) l []

theorem lineScan_stable {N : Nat} {reject : UInt8 → Bool} {l : Bytes} (m : Bytes) (h : (lineScan N reject l).1 ≠ .more) :
    lineScan N reject (l ++ m) = lineScan N reject l :=
  copyScan_stable m (afterCR_stable m) l [] h

theorem nameScan_stable {l : Bytes} (m : Bytes) (h : (nameScan l).1 ≠ .more) : nameScan (l ++ m) = nameScan l :=
  copyScan_stable m (fun _ _ => rfl) l [] h

/-- **A line is found exactly where the first CR stands**, LF behind it, nothing refused and room in the array. -/
theorem lineScan_found {N : Nat} {reject : UInt8 → Bool} {l line : Bytes} : lineScan N reject l = (.found, line) ↔
    (∃ rest, l = line ++ CR :: LF :: rest) ∧ (∀ b ∈ line, b ≠ CR ∧ reject b = false) ∧ line.length < N := by
  rw [lineScan, copyScan_found]
  constructor
  · rintro ⟨w, rest, rfl, hs, rfl, hw, hn⟩
    obtain ⟨t, rfl⟩ := afterCR_found.1 hs
    exact ⟨⟨t, rfl⟩, hw, by simpa using hn⟩
  · rintro ⟨⟨t, rfl⟩, hw, hn⟩
    exact ⟨line, LF :: t, rfl, by simp [afterCR], by simp, hw, by simpa using hn⟩

/-- **A name is found up to the first colon**, all its bytes ASCII and not NUL. -/
theorem nameScan_found {l name : Bytes} : nameScan l = (.found, name) ↔
    (∃ rest, l = name ++ COLON :: rest) ∧ (∀ b ∈ name, b ≠ COLON ∧ nonPos b = false) ∧
      name.length < HTTP_HEADER_NAME_MAX := by
  rw [nameScan, copyScan_found]
  constructor
  · rintro ⟨w, rest, rfl, -, rfl, hw, hn⟩
    exact ⟨⟨rest, rfl⟩, hw, by simpa using hn⟩
  · rintro ⟨⟨t, rfl⟩, hw, hn⟩
    exact ⟨name, t, rfl, rfl, by simp, hw, by simpa using hn⟩

/-- A prefix of an appended list that is no longer than its first part is a prefix of that. -/
theorem prefix_of_append {l m u rest : Bytes} (h : l ++ m = u ++ rest) (hlen : u.length ≤ l.length) :
    ∃ t, l = u ++ t := by
  obtain ⟨t, ht⟩ := List.prefix_of_prefix_length_le ⟨rest, h.symm⟩ (List.prefix_append l m) hlen
  exact ⟨t, ht.symm⟩

theorem lineScan_beyond {N : Nat} {reject : UInt8 → Bool} {l m line x : Bytes} (h : lineScan N reject l = (.more, x))
    (hf : lineScan N reject (l ++ m) = (.found, line)) : l.length < line.length + 2 := by
  obtain ⟨⟨rest, hl⟩, hw, hn⟩ := lineScan_found.1 hf
  by_contra hlt
  obtain ⟨t, rfl⟩ := prefix_of_append (show l ++ m = (line ++ [CR, LF]) ++ rest by rw [hl]; simp) (by simp; omega)
  have := (lineScan_found (l := line ++ [CR, LF] ++ t)).2 ⟨⟨t, by simp⟩, hw, hn⟩
  rw [h] at this
  cases this

theorem nameScan_beyond {l m name x : Bytes} (h : nameScan l = (.more, x))
    (hf : nameScan (l ++ m) = (.found, name)) : l.length < name.length + 1 := by
  obtain ⟨⟨rest, hl⟩, hw, hn⟩ := nameScan_found.1 hf
  by_contra hlt
  obtain ⟨t, rfl⟩ := prefix_of_append (show l ++ m = (name ++ [COLON]) ++ rest by rw [hl]; simp) (by simp; omega)
  have := (nameScan_found (l := name ++ [COLON] ++ t)).2 ⟨⟨t, by simp⟩, hw, hn⟩
  rw [h] at this
  cases this

theorem startsCRLF_iff {l : Bytes} : startsCRLF l = true ↔ ∃ rest, l = CR :: LF :: rest := by
  rcases l with _ | ⟨a, _ | ⟨b, t⟩⟩ <;> simp [startsCRLF]

theorem startsCRLF_append {l : Bytes} (m : Bytes) (h : startsCRLF l = true) : startsCRLF (l ++ m) = true := by
  obtain ⟨rest, rfl⟩ := startsCRLF_iff.1 h
  exact startsCRLF_iff.2 ⟨rest ++ m, rfl⟩

/-- Only nothing, or a lone CR, leaves open whether an empty line begins there. -/
theorem startsCRLF_stable {l : Bytes} (m : Bytes) (h : ¬ (l = [] ∨ l = [CR])) : startsCRLF (l ++ m) = startsCRLF l := by
  rcases l with _ | ⟨a, _ | ⟨b, t⟩⟩
  · exact absurd (.inl rfl) h
  · have ha : a ≠ CR := fun ha => h (.inr (by rw [ha]))
    cases m <;> simp [startsCRLF, ha]
  · rfl

/-! ## Header values -/

theorem trimRight_length (v : Bytes) : (trimRight v).length ≤ v.length := by
  rw [trimRight, List.length_reverse]
  simpa using (List.dropWhile_sublist isBlank (l := v.reverse)).length_le

theorem put_of_lt {size : Nat} {a : Bytes} {b : UInt8} (h : a.length < size) : put size a b = some (a ++ [b]) := if_pos h

theorem put_eq_none {size : Nat} {a : Bytes} {b : UInt8} (h : put size a b = none) : size ≤ a.length := by
  by_contra hlt
  rw [put_of_lt (by omega)] at h
  cases h

theorem put_eq_some {size : Nat} {a a' : Bytes} {b : UInt8} (h : put size a b = some a') :
    a.length < size ∧ a' = a ++ [b] := by
  by_cases hlt : a.length < size
  · rw [put_of_lt hlt] at h
    exact ⟨hlt, (Option.some.inj h).symm⟩
  · rw [put, if_neg hlt] at h
    cases h

theorem valueScan_overrun (v : Bytes) (n : Nat) (skip : Bool) (l : Bytes) (h : v.length ≤ HTTP_HEADER_VALUE_MAX) :
    (valueScan v n skip l).1 ≠ .overrun := by
  fun_induction valueScan v n skip l with
  | case1 | case3 | case5 | case6 | case10 | case11 | case12 => simp
  | case2 v n skip b rest _ ih => exact ih h
  | case4 v n skip b rest _ hv hp => have := put_eq_none hp; omega
  | case7 v n skip hv _ d rest _ hp => have := put_eq_none hp; have := trimRight_length v; omega
  | case8 v n skip hv _ d rest _ w hp _ _ ih =>
    obtain ⟨hlt, rfl⟩ := put_eq_some hp
    exact ih (by simp only [List.length_append, List.length_cons, List.length_nil]; omega)
  | case9 v n skip hv _ d rest _ hp => have := put_eq_none hp; have := trimRight_length v; omega
  | case13 v n skip b _ hv v' hp d rest _ _ ih =>
    obtain ⟨hlt, rfl⟩ := put_eq_some hp
    exact ih (by simp only [List.length_append, List.length_cons, List.length_nil]; omega)

theorem valueScan_stable (m : Bytes) (v : Bytes) (n : Nat) (skip : Bool) (l : Bytes)
    (h : (valueScan v n skip l).1 ≠ .more) : valueScan v n skip (l ++ m) = valueScan v n skip l := by
  fun_induction valueScan v n skip l with
  | case1 | case5 | case6 => exact absurd rfl h
  | case2 v n skip b rest hb ih => rw [List.cons_append, valueScan.eq_2, if_pos hb, ih h]
  | case3 v n skip b rest hb hv => rw [List.cons_append, valueScan.eq_2, if_neg hb, if_pos hv]
  | case4 v n skip b rest hb hv hp => rw [List.cons_append, valueScan.eq_2, if_neg hb, if_neg hv, hp]
  | case7 v n skip hv v' d rest hd hp hb hp' =>
    rw [List.cons_append, valueScan.eq_2, if_neg hb, if_neg hv, hp']; simp [hd, hp]
  | case8 v n skip hv v' d rest hd w hp hb hp' ih =>
    rw [List.cons_append, valueScan.eq_2, if_neg hb, if_neg hv, hp']; simp [hd, hp, ih h]
  | case9 v n skip hv v' d rest hd hp hb hp' =>
    rw [List.cons_append, valueScan.eq_2, if_neg hb, if_neg hv, hp']; simp [hd, hp]
  | case10 v n skip hv v' d rest hd w hp hb hp' =>
    rw [List.cons_append, valueScan.eq_2, if_neg hb, if_neg hv, hp']; simp [hd, hp]
  | case11 v n skip hv v' d rest hd hb hp' =>
    rw [List.cons_append, valueScan.eq_2, if_neg hb, if_neg hv, hp']; simp [hd]
  | case12 v n skip b hb hv v' hp d rest hc hr =>
    rw [List.cons_append, valueScan.eq_2, if_neg hb, if_neg hv, hp]; simp [hc, hr]
  | case13 v n skip b hb hv v' hp d rest hc hr ih =>
    rw [List.cons_append, valueScan.eq_2, if_neg hb, if_neg hv, hp]
    simp only [List.cons_append, hc, hr, if_false, Bool.false_eq_true]
    exact ih h

/-- A value ends two bytes before what it consumes, and one byte is left to look at. -/
theorem valueScan_bounds {v : Bytes} {n : Nat} {skip : Bool} {l w : Bytes} {k : Nat}
    (h : valueScan v n skip l = (.found, w, k)) : n + 2 ≤ k ∧ k < n + l.length ∧ w.length < HTTP_HEADER_VALUE_MAX := by
  fun_induction valueScan v n skip l with
  | case1 | case3 | case4 | case5 | case6 | case7 | case9 | case11 | case12 => cases h
  | case2 v n skip b rest hb ih =>
    have := ih h
    simp only [List.length_cons]; omega
  | case8 v n skip hv v' d rest hd w hp hb hp' ih =>
    have := ih h
    simp only [List.length_cons]; omega
  | case10 v n skip hv v' d rest hd w' hp hb hp' =>
    have := (put_eq_some hp).1
    cases h
    simp only [List.length_cons]; omega
  | case13 v n skip b hb hv v' hp d rest hc hr ih =>
    have := ih h
    simp only [List.length_cons] at this ⊢; omega

theorem valueScan_beyond {m v : Bytes} {n : Nat} {skip : Bool} {l x w : Bytes} {j k : Nat}
    (h : valueScan v n skip l = (.more, x, j)) (hf : valueScan v n skip (l ++ m) = (.found, w, k)) :
    n + l.length ≤ k := by
  fun_induction valueScan v n skip l with
  | case3 | case4 | case7 | case9 | case10 | case11 | case12 => cases h
  | case1 => have := valueScan_bounds hf; simp only [List.length_nil]; omega
  | case5 => have := valueScan_bounds hf; simp only [List.length_cons, List.length_nil]; omega
  | case6 => have := valueScan_bounds hf; simp only [List.length_cons, List.length_nil]; omega
  | case2 v n skip b rest hb ih =>
    rw [List.cons_append, valueScan.eq_2, if_pos hb] at hf
    have := ih h hf
    simp only [List.length_cons]; omega
  | case8 v n skip hv v' d rest hd w' hp hb hp' ih =>
    rw [List.cons_append, valueScan.eq_2, if_neg hb, if_neg hv, hp'] at hf
    simp only [List.cons_append, if_true, hd, hp] at hf
    have := ih h hf
    simp only [List.length_cons]; omega
  | case13 v n skip b hb hv v' hp d rest hc hr ih =>
    rw [List.cons_append, valueScan.eq_2, if_neg hb, if_neg hv, hp] at hf
    simp only [List.cons_append, hc, hr, if_false, Bool.false_eq_true] at hf
    have := ih h hf
    simp only [List.length_cons] at this ⊢; omega

end Tinywf
