import Tinywf.CLib
/-!
# CNumber — what `strtol` and `strchr` read

`strtol` reads a prefix without NUL (`strtol_prefix`), the same one with more behind a byte that cannot go on
(`strtol_append`); `strchr` finds a character unless a NUL stands before it (`strchr_found`, `strchr_stopped`).
-/
namespace CLib

variable {base : Nat} {s t rest : Bytes} {n : Int} {c : UInt8}

theorem digitVal_nul (base : Nat) : digitVal base NUL = none := rfl

theorem mem_takeWhile_digit {b : UInt8} (h : b ∈ s.takeWhile (isDigitOf base)) : b ≠ NUL := by
  rintro rfl
  have := List.all_eq_true.1 (List.all_takeWhile (p := isDigitOf base) (l := s)) NUL h
  rw [isDigitOf, digitVal_nul] at this
  cases this

theorem drop_takeWhile (p : UInt8 → Bool) (s : Bytes) : s.drop (s.takeWhile p).length = s.dropWhile p :=
  calc s.drop (s.takeWhile p).length
    _ = (s.takeWhile p ++ s.dropWhile p).drop (s.takeWhile p).length := by rw [List.takeWhile_append_dropWhile]
    _ = s.dropWhile p := List.drop_left

/-! ## The part that is read -/

theorem takeSign_prefix (s : Bytes) : ∃ u, s = u ++ (takeSign s).2 ∧ ∀ b ∈ u, b ≠ NUL := by
  unfold takeSign
  split
  · exact ⟨[45], rfl, fun b hb => by rw [List.mem_singleton.1 hb]; decide⟩
  · exact ⟨[43], rfl, fun b hb => by rw [List.mem_singleton.1 hb]; decide⟩
  · exact ⟨[], rfl, by simp⟩

theorem skipPrefix_prefix (base : Nat) (s : Bytes) : ∃ u, s = u ++ skipPrefix base s ∧ ∀ b ∈ u, b ≠ NUL := by
  unfold skipPrefix
  split
  · rename_i x d s
    split
    · rename_i h
      refine ⟨[48, x], rfl, fun b hb => ?_⟩
      rcases List.mem_cons.1 hb with rfl | hb
      · decide
      · rw [List.mem_singleton.1 hb]
        rintro rfl
        exact absurd h.2.1 (by decide)
    · exact ⟨[], rfl, by simp⟩
  · exact ⟨[], rfl, by simp⟩

/-- What `strtol` converts: the sign, and where the digits begin. -/
def numberStart (base : Nat) (s : Bytes) : Bool × Bytes :=
  ((takeSign (s.dropWhile isspace)).1, skipPrefix base (takeSign (s.dropWhile isspace)).2)

theorem strtol_eq (base : Nat) (s : Bytes) : strtol base s =
    if (numberStart base s).2.takeWhile (isDigitOf base) = [] then none
    else some (clampLong (numberStart base s).1 (digitsVal base ((numberStart base s).2.takeWhile (isDigitOf base))),
      (numberStart base s).2.dropWhile (isDigitOf base)) := by
  rw [← drop_takeWhile]
  rfl

theorem numberStart_prefix (base : Nat) (s : Bytes) : ∃ u, s = u ++ (numberStart base s).2 ∧ ∀ b ∈ u, b ≠ NUL := by
  obtain ⟨u1, h1, hn1⟩ := takeSign_prefix (s.dropWhile isspace)
  obtain ⟨u2, h2, hn2⟩ := skipPrefix_prefix base (takeSign (s.dropWhile isspace)).2
  refine ⟨s.takeWhile isspace ++ u1 ++ u2, ?_, fun b hb => ?_⟩
  · rw [numberStart, List.append_assoc, List.append_assoc, ← h2, ← h1, List.takeWhile_append_dropWhile]
  · simp only [List.mem_append] at hb
    rcases hb with (hb | hb) | hb
    · have := List.all_eq_true.1 List.all_takeWhile b hb
      rintro rfl
      cases this
    · exact hn1 b hb
    · exact hn2 b hb

/-- **`strtol` stops at a NUL**: what it reads is a prefix without one. -/
theorem strtol_prefix (h : strtol base s = some (n, rest)) : ∃ u, s = u ++ rest ∧ ∀ b ∈ u, b ≠ NUL := by
  obtain ⟨u, hu, hn⟩ := numberStart_prefix base s
  rw [strtol_eq] at h
  split at h
  · cases h
  · cases h
    refine ⟨u ++ (numberStart base s).2.takeWhile (isDigitOf base), ?_, fun b hb => ?_⟩
    · rw [List.append_assoc, List.takeWhile_append_dropWhile]
      exact hu
    · rcases List.mem_append.1 hb with hb | hb
      · exact hn b hb
      · exact mem_takeWhile_digit hb

/-! ## More behind it -/

theorem takeSign_append (hs : s ≠ []) (t : Bytes) : takeSign (s ++ t) = ((takeSign s).1, (takeSign s).2 ++ t) := by
  obtain ⟨b, s, rfl⟩ := List.exists_cons_of_ne_nil hs
  unfold takeSign
  split
  · rename_i heq; cases heq; rfl
  · rename_i heq; cases heq; rfl
  · rename_i h1 h2
    split
    · rename_i heq; cases heq; exact absurd rfl (h1 _)
    · rename_i heq; cases heq; exact absurd rfl (h2 _)
    · rfl

/-- Neither a digit nor an `x` in front of one. -/
structure EndsNumber (c : UInt8) : Prop where
  digit : isDigitOf 16 c = false
  hex : tolower c ≠ 120

theorem skipPrefix_ne {a : UInt8} (ha : a ≠ 48) (s : Bytes) : skipPrefix base (a :: s) = a :: s := by
  unfold skipPrefix
  split
  · rename_i heq
    cases heq
    exact absurd rfl ha
  · rfl

theorem skipPrefix_append (hc : EndsNumber c) (hs : s ≠ []) (t : Bytes) :
    skipPrefix 16 (s ++ c :: t) = skipPrefix 16 s ++ c :: t := by
  obtain ⟨a, s, rfl⟩ := List.exists_cons_of_ne_nil hs
  by_cases ha : a = 48
  · subst ha
    match s with
    | [] =>
      -- `c` stands where the `x` would
      have h1 : skipPrefix 16 [48] = [48] := rfl
      cases t with
      | nil => rfl
      | cons d t =>
        rw [h1, List.singleton_append, skipPrefix.eq_1, if_neg (fun h => hc.hex h.2.1)]
    | [x] =>
      -- `c` stands where the first digit would
      have h1 : skipPrefix 16 [48, x] = [48, x] := rfl
      rw [h1, List.cons_append, List.singleton_append, skipPrefix.eq_1,
        if_neg (fun h => by rw [hc.digit] at h; cases h.2.2)]
    | x :: d :: s =>
      rw [List.cons_append, List.cons_append, List.cons_append, skipPrefix.eq_1, skipPrefix.eq_1]
      split <;> rfl
  · rw [List.cons_append, skipPrefix_ne ha, skipPrefix_ne ha]
    rfl

/-- **`strtol` does not look past the number**: a byte that cannot go on, and whatever stands behind it, stay unread. -/
theorem strtol_append (hc : EndsNumber c) (h : strtol 16 s = some (n, rest)) (t : Bytes) :
    strtol 16 (s ++ c :: t) = some (n, rest ++ c :: t) := by
  have hds : (numberStart 16 s).2.takeWhile (isDigitOf 16) ≠ [] := by
    intro hd
    rw [strtol_eq, if_pos hd] at h
    cases h
  have hsp : s.dropWhile isspace ≠ [] := by
    intro he
    rw [numberStart, he] at hds
    exact hds rfl
  have hsign : (takeSign (s.dropWhile isspace)).2 ≠ [] := by
    intro he
    rw [numberStart, he] at hds
    exact hds rfl
  have hstart : numberStart 16 (s ++ c :: t) = ((numberStart 16 s).1, (numberStart 16 s).2 ++ c :: t) := by
    rw [numberStart, List.dropWhile_append, if_neg (by simpa [List.isEmpty_iff] using hsp), takeSign_append hsp,
      skipPrefix_append hc hsign]
    rfl
  have htake : (c :: t).takeWhile (isDigitOf 16) = [] := List.takeWhile_cons_of_neg (by rw [hc.digit]; simp)
  have hdrop : (c :: t).dropWhile (isDigitOf 16) = c :: t := List.dropWhile_cons_of_neg (by rw [hc.digit]; simp)
  have htw : ((numberStart 16 s).2 ++ c :: t).takeWhile (isDigitOf 16) =
      (numberStart 16 s).2.takeWhile (isDigitOf 16) := by
    rw [List.takeWhile_append, htake, List.append_nil]
    split
    · rename_i hl
      exact ((List.takeWhile_sublist _).eq_of_length hl).symm
    · rfl
  have hdw : ((numberStart 16 s).2 ++ c :: t).dropWhile (isDigitOf 16) =
      (numberStart 16 s).2.dropWhile (isDigitOf 16) ++ c :: t := by
    rw [List.dropWhile_append, hdrop]
    split
    · rename_i he
      rw [List.isEmpty_iff.1 he, List.nil_append]
    · rfl
  rw [strtol_eq, if_neg hds] at h
  cases h
  rw [strtol_eq, hstart]
  simp only
  rw [htw, hdw, if_neg hds]

/-! ## Looking for a character -/

theorem strchr_found : ∀ {u : Bytes}, (∀ b ∈ u, b ≠ c ∧ b ≠ NUL) → ∀ t, strchr c (u ++ c :: t) = some (u, t)
  | [], _, t => by rw [List.nil_append, strchr, if_pos rfl]
  | b :: u, h, t => by
    obtain ⟨hb, hu⟩ := List.forall_mem_cons.1 h
    rw [List.cons_append, strchr, if_neg hb.1, if_neg hb.2, strchr_found hu t]
    rfl

/-- A NUL in front of the character ends the search without it. -/
theorem strchr_stopped (hc : c ≠ NUL) : ∀ {u : Bytes}, (∀ b ∈ u, b ≠ c) → NUL ∈ u → ∀ t, strchr c (u ++ t) = none
  | [], _, h, _ => by cases h
  | b :: u, h, hn, t => by
    obtain ⟨hb, hu⟩ := List.forall_mem_cons.1 h
    rw [List.cons_append, strchr, if_neg hb]
    by_cases hb0 : b = NUL
    · rw [if_pos hb0]
    · have hn' : NUL ∈ u := by
        rcases List.mem_cons.1 hn with h | h
        · exact absurd h.symm hb0
        · exact h
      rw [if_neg hb0, strchr_stopped hc hu hn' t]
      rfl

end CLib
