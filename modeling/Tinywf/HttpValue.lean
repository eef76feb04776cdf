import Tinywf.HttpScan
/-!
# HttpValue — the bytes of a header value

`__parse_header_value` skips leading white space, folds lines and trims: which values come out of it
(`valueScan_value`), and what it makes of a value that stands on one line (`valueScan_line`).
-/
namespace Tinywf

open CLib

/-! ## Trimming -/

theorem trimRight_append {u t : Bytes} {a : UInt8} (ha : isBlank a = false) :
    trimRight (u ++ a :: t) = u ++ a :: trimRight t := by
  unfold trimRight
  rw [List.reverse_append, List.reverse_cons, List.append_assoc, List.dropWhile_append]
  split
  · rename_i he
    simp only [List.isEmpty_iff] at he
    simp [he, ha]
  · simp

theorem trimRight_sub {v : Bytes} {b : UInt8} (h : b ∈ trimRight v) : b ∈ v := by
  rw [trimRight, List.mem_reverse] at h
  exact List.mem_reverse.1 ((List.dropWhile_sublist isBlank).subset h)

theorem trimRight_last {v : Bytes} {b : UInt8} (h : (trimRight v).getLast? = some b) : isBlank b = false := by
  rw [trimRight, List.getLast?_reverse] at h
  have := List.head?_dropWhile_not isBlank v.reverse
  rw [h] at this
  simpa using this

theorem trimRight_of_last {v : Bytes} (h : ∀ b, v.getLast? = some b → isBlank b = false) : trimRight v = v := by
  unfold trimRight
  rcases hv : v.reverse with _ | ⟨b, t⟩
  · have := congrArg List.reverse hv
    simpa using this.symm
  · have hb := h b (by rw [← List.head?_reverse, hv]; rfl)
    rw [List.dropWhile_cons_of_neg (by simp [hb]), ← hv, List.reverse_reverse]

/-! ## What comes out -/

/-- A byte that a value may hold: ASCII, neither NUL nor CR. -/
def valueByte (b : UInt8) : Bool := b != CR && !nonPos b

/-- A value that has begun: its first byte is not blank, but for one space that a fold left. -/
def Begun (v : Bytes) : Prop := ∃ u a t, v = u ++ a :: t ∧ isBlank a = false ∧ (u = [] ∨ u = [SP])

theorem Begun.append {v : Bytes} (h : Begun v) (w : Bytes) : Begun (v ++ w) := by
  obtain ⟨u, a, t, rfl, ha, hu⟩ := h
  exact ⟨u, a, t ++ w, by simp, ha, hu⟩

theorem Begun.trim {v : Bytes} (h : Begun v) : Begun (trimRight v) := by
  obtain ⟨u, a, t, rfl, ha, hu⟩ := h
  exact ⟨u, a, trimRight t, trimRight_append ha, ha, hu⟩

/-- The value read so far: nothing, a fold's space, or begun; begun once leading white space is past. -/
structure ValueSoFar (v : Bytes) (skip : Bool) : Prop where
  bytes : ∀ b ∈ v, valueByte b = true
  begun : Begun v ∨ (skip = true ∧ (v = [] ∨ v = [SP]))

theorem ValueSoFar.push {v : Bytes} {skip : Bool} {b : UInt8} (h : ValueSoFar v skip) (hb : valueByte b = true)
    (hs : skip = true → isBlank b = false) : ValueSoFar (v ++ [b]) false := by
  refine ⟨fun c hc => ?_, .inl ?_⟩
  · rcases List.mem_append.1 hc with hc | hc
    · exact h.bytes c hc
    · rw [List.mem_singleton.1 hc]; exact hb
  · rcases h.begun with h' | ⟨hk, rfl | rfl⟩
    · exact h'.append [b]
    · exact ⟨[], b, [], rfl, hs hk, .inl rfl⟩
    · exact ⟨[SP], b, [], rfl, hs hk, .inr rfl⟩

theorem ValueSoFar.fold {v : Bytes} {skip : Bool} (h : ValueSoFar v skip) : ValueSoFar (trimRight v ++ [SP]) true := by
  refine ⟨fun c hc => ?_, ?_⟩
  · rcases List.mem_append.1 hc with hc | hc
    · exact h.bytes c (trimRight_sub hc)
    · rw [List.mem_singleton.1 hc]; rfl
  · rcases h.begun with h' | ⟨-, rfl | rfl⟩
    · exact .inl (h'.trim.append [SP])
    · exact .inr ⟨rfl, .inr rfl⟩
    · exact .inr ⟨rfl, .inr rfl⟩

/-- **What may be stored as a value**: ASCII without NUL and CR, no blank at the end, and at the start at most the one
space of a fold. -/
structure ValueOk (v : Bytes) : Prop where
  bytes : ∀ b ∈ v, valueByte b = true
  last : ∀ b, v.getLast? = some b → isBlank b = false
  begun : v = [] ∨ Begun v
  length : v.length < HTTP_HEADER_VALUE_MAX

theorem ValueSoFar.done {v : Bytes} {skip : Bool} (h : ValueSoFar v skip)
    (hl : (trimRight v).length < HTTP_HEADER_VALUE_MAX) : ValueOk (trimRight v) := by
  refine ⟨fun b hb => h.bytes b (trimRight_sub hb), fun b hb => trimRight_last hb, ?_, hl⟩
  rcases h.begun with h' | ⟨-, rfl | rfl⟩
  · exact .inr h'.trim
  · exact .inl rfl
  · exact .inl rfl

theorem valueScan_value {v : Bytes} {n : Nat} {skip : Bool} {l w : Bytes} {k : Nat} (hv : ValueSoFar v skip)
    (h : valueScan v n skip l = (.found, w, k)) : ValueOk w := by
  fun_induction valueScan v n skip l with
  | case1 | case3 | case4 | case5 | case6 | case7 | case9 | case11 | case12 => cases h
  | case2 v n skip b rest hb ih =>
    simp only [Bool.and_eq_true] at hb
    exact ih (hb.1 ▸ hv) h
  | case8 v n skip _ _ d rest _ w' hp _ _ ih =>
    obtain ⟨-, rfl⟩ := put_eq_some hp
    exact ih hv.fold h
  | case10 v n skip _ _ d rest _ w' hp _ _ =>
    have hl := (put_eq_some hp).1
    cases h
    exact hv.done hl
  | case13 v n skip b hb _ v' hp d rest hc hr ih =>
    obtain ⟨-, rfl⟩ := put_eq_some hp
    have hbyte : valueByte b = true := by simp [valueByte, hc, hr]
    refine ih (hv.push hbyte fun hs => ?_) h
    simpa [hs] using hb

/-! ## A value on one line -/

theorem valueScan_blanks (v : Bytes) : ∀ (ws : Bytes) (n : Nat) (l : Bytes), (∀ b ∈ ws, isBlank b = true) →
    valueScan v n true (ws ++ l) = valueScan v (n + ws.length) true l
  | [], _, _, _ => rfl
  | b :: ws, n, l, h => by
    rw [List.cons_append, valueScan.eq_2, if_pos (by simp [h b]),
      valueScan_blanks v ws (n + 1) l (fun c hc => h c (List.mem_cons_of_mem b hc)), List.length_cons]
    congr 1
    omega

/-- A byte that is not blank ends the leading white space. -/
theorem valueScan_skip (v : Bytes) (n : Nat) {b : UInt8} (hb : isBlank b = false) (l : Bytes) :
    valueScan v n true (b :: l) = valueScan v n false (b :: l) := by
  rw [valueScan.eq_2, valueScan.eq_2]
  simp [hb]

theorem valueScan_bytes {d : UInt8} (hd : isBlank d = false) (rest : Bytes) : ∀ (u v : Bytes) (n : Nat),
    (∀ b ∈ u, valueByte b = true) → v.length + u.length < HTTP_HEADER_VALUE_MAX →
    valueScan v n false (u ++ CR :: LF :: d :: rest) = (.found, trimRight (v ++ u), n + u.length + 2)
  | [], v, n, _, hl => by
    have ht := trimRight_length v
    simp only [List.length_nil, Nat.add_zero] at hl
    rw [List.nil_append, valueScan.eq_2, if_neg (by simp), if_neg (by omega), put_of_lt hl]
    simp only [if_true, hd, Bool.false_eq_true, if_false]
    rw [put_of_lt (by omega)]
    simp
  | b :: u, v, n, h, hl => by
    have hb := h b List.mem_cons_self
    simp only [valueByte, Bool.and_eq_true, bne_iff_ne, ne_eq, Bool.not_eq_true'] at hb
    simp only [List.length_cons] at hl
    have hne : ∃ c t, u ++ CR :: LF :: d :: rest = c :: t := by cases u <;> exact ⟨_, _, rfl⟩
    have ih := valueScan_bytes hd rest u (v ++ [b]) (n + 1) (fun c hc => h c (List.mem_cons_of_mem b hc))
      (by simp; omega)
    obtain ⟨c, t, hct⟩ := hne
    rw [List.cons_append, valueScan.eq_2, if_neg (by simp), if_neg (by omega), put_of_lt (by omega), hct]
    simp only [hb.1, hb.2, if_false, Bool.false_eq_true]
    rw [← hct, ih]
    simp only [List.append_assoc, List.singleton_append, List.length_cons]
    congr 2
    omega

/-- **A value between white space and a line's end is read as it stands.** -/
theorem valueScan_line (ws u : Bytes) {d : UInt8} (hd : isBlank d = false) (rest : Bytes)
    (hws : ∀ b ∈ ws, isBlank b = true) (hu : ∀ b ∈ u, valueByte b = true) (hb : ∀ b, u.head? = some b → isBlank b = false)
    (hl : u.length < HTTP_HEADER_VALUE_MAX) :
    valueScan [] 0 true (ws ++ u ++ CR :: LF :: d :: rest) = (.found, trimRight u, ws.length + u.length + 2) := by
  rw [List.append_assoc, valueScan_blanks [] ws 0 _ hws, Nat.zero_add]
  have hskip : valueScan [] ws.length true (u ++ CR :: LF :: d :: rest) =
      valueScan [] ws.length false (u ++ CR :: LF :: d :: rest) := by
    cases u with
    | nil => exact valueScan_skip [] _ (by decide) _
    | cons b t => exact valueScan_skip [] _ (hb b rfl) _
  rw [hskip, valueScan_bytes hd rest u [] _ hu (by simpa using hl), List.nil_append]

end Tinywf
