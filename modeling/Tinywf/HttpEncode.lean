import Tinywf.HttpRoundTrip
/-!
# HttpEncode — `encode` under a vector limit

Where one vector is left for several blocks, `combine_from` puts one block in their place while the loop of `encode` runs
over them.  `encode` stays below the limit, gives out the same bytes whether or not it combined, and gives them out again
the next time (`encode_limited`).
-/
namespace Tinywf

open CLib

namespace HttpMessage

/-! ## Indices -/

/-- Vectors written one after another from `i` on. -/
def number : Nat → List Bytes → List (Nat × Bytes)
  | _, [] => []
  | i, v :: vs => (i, v) :: number (i + 1) vs

theorem number_append : ∀ (vs ws : List Bytes) (i : Nat), number i (vs ++ ws) = number i vs ++ number (i + vs.length) ws
  | [], _, _ => rfl
  | v :: vs, ws, i => by
    rw [List.cons_append, number, number, number_append vs ws (i + 1), List.length_cons, List.cons_append,
      Nat.add_right_comm, Nat.add_assoc]

theorem number_snd : ∀ (vs : List Bytes) (i : Nat), (number i vs).map Prod.snd = vs
  | [], _ => rfl
  | v :: vs, i => by rw [number, List.map_cons, number_snd vs (i + 1)]

theorem number_inj {vs ws : List Bytes} {i : Nat} (h : number i vs = number i ws) : vs = ws := by
  rw [← number_snd vs i, h, number_snd]

theorem number_fst : ∀ (vs : List Bytes) (i : Nat), (number i vs).map Prod.fst = List.range' i vs.length
  | [], _ => rfl
  | v :: vs, i => by rw [number, List.map_cons, number_fst vs (i + 1), List.length_cons, List.range'_succ]

theorem number_lt {vs : List Bytes} {i : Nat} {w : Nat × Bytes} (h : w ∈ number i vs) : w.1 < i + vs.length := by
  have hw : w.1 ∈ (number i vs).map Prod.fst := List.mem_map_of_mem h
  rw [number_fst, List.mem_range'_1] at hw
  exact hw.2

/-! ## What the loops do -/

/-- As many header lines as there is room for. -/
theorem headerLoop_cases {max : Nat} : ∀ (hs : List HeaderLine) {i : Nat}, i ≤ max →
    ∃ vs, headerLoop max i hs = (number i vs, i + vs.length) ∧ i + vs.length = min max (i + hs.length)
  | [], i, h => ⟨[], rfl, by simp; omega⟩
  | h :: hs, i, hi => by
    rw [headerLoop]
    split
    · exact ⟨[], rfl, by simp; omega⟩
    · obtain ⟨vs, hloop, hlen⟩ := headerLoop_cases hs (show i + 1 ≤ max by omega)
      refine ⟨h.buf.take (h.nameLen + 2 + h.valueLen + 2) :: vs, ?_, ?_⟩
      · rw [hloop, number, List.length_cons, Nat.add_right_comm, Nat.add_assoc]
      · rw [List.length_cons, List.length_cons]
        omega

/-- **What the body loop comes to**: no memory for the combined block and nothing changed, or the body's vectors, within
the limit. -/
theorem bodyLoop_cases (alloc : Bool) {max : Nat} : ∀ (blocks : List Bytes) {i size : Nat}, i < max →
    size = (blocks.map List.length).sum →
    (alloc = false ∧ (bodyLoop alloc max i size blocks).2.1 = .error .noMem ∧
      (bodyLoop alloc max i size blocks).2.2 = blocks ∧
      ∃ vs, (bodyLoop alloc max i size blocks).1 = number i vs ∧ i + vs.length ≤ max) ∨
    (∃ vs, i + vs.length ≤ max ∧ (bodyLoop alloc max i size blocks).1 = number i vs ∧
      (bodyLoop alloc max i size blocks).2.1 = .ok (i + vs.length))
  | [], i, size, hi, _ => Or.inr ⟨[], Nat.le_of_lt hi, rfl, rfl⟩
  | block :: rest, i, size, hi, hs => by
    have hcomb := combineFrom_ok hs
    rw [List.map_cons, List.sum_cons] at hs
    rw [bodyLoop]
    by_cases hc : i + 1 = max ∧ rest ≠ []
    · rw [if_pos hc]
      cases alloc with
      | false => exact Or.inl ⟨rfl, rfl, rfl, [], rfl, Nat.le_of_lt hi⟩
      | true =>
        rw [if_pos rfl, hcomb]
        exact Or.inr ⟨[(block :: rest).flatten], Nat.le_of_eq hc.1, rfl, rfl⟩
    · rw [if_neg hc]
      dsimp only
      by_cases hr : rest = []
      · subst hr
        exact Or.inr ⟨[block], by rw [List.length_singleton]; omega, rfl, rfl⟩
      · have hlt : i + 1 < max := by
          have : i + 1 ≠ max := fun h => hc ⟨h, hr⟩
          omega
        have hsize : size - block.length = (rest.map List.length).sum := by omega
        rcases bodyLoop_cases alloc rest hlt hsize with
          ⟨ha, h1, h2, vs, h3, h4⟩ | ⟨vs, h2, h3, h4⟩
        · refine Or.inl ⟨ha, h1, by rw [h2], block :: vs, by rw [h3, number], ?_⟩
          rw [List.length_cons]
          omega
        · refine Or.inr ⟨block :: vs, by rw [List.length_cons]; omega, by rw [h3, number], ?_⟩
          rw [h4, List.length_cons, Nat.add_right_comm, Nat.add_assoc]

theorem bodyLoop_nil {alloc : Bool} {max i size : Nat} {blocks : List Bytes} :
    (bodyLoop alloc max i size blocks).2.2 = [] ↔ blocks = [] := by
  cases blocks with
  | nil => exact ⟨fun _ => rfl, fun _ => rfl⟩
  | cons block rest =>
    refine ⟨fun h => ?_, fun h => by cases h⟩
    rw [bodyLoop] at h
    repeat' split at h
    all_goals cases h

/-- **Over the blocks that a loop has left, the loop does the same again**, and has nothing left to combine. -/
theorem bodyLoop_again {alloc alloc' : Bool} {max : Nat} : ∀ {blocks : List Bytes} {i size size' n : Nat},
    (bodyLoop alloc max i size blocks).2.1 = .ok n →
    bodyLoop alloc' max i size' (bodyLoop alloc max i size blocks).2.2 = bodyLoop alloc max i size blocks
  | [], _, _, _, _, _ => rfl
  | block :: rest, i, size, size', n, h => by
    rw [bodyLoop] at h ⊢
    split at h
    · rename_i hc
      rw [if_pos hc]
      split at h
      · rename_i ha
        rw [if_pos ha]
        cases hk : combineFrom size (block :: rest) with
        | ok all => rw [bodyLoop, if_neg (by simp)]; rfl
        | error e => rw [hk] at h; cases h
      · cases h
    · rename_i hc
      rw [if_neg hc]
      dsimp only at h ⊢
      rw [bodyLoop, if_neg (by rwa [ne_eq, bodyLoop_nil]), bodyLoop_again h]

/-! ## The call -/

theorem startVectors_number (a b c : Bytes) :
    startVectors a b c = number 0 [cstr a, [SP], cstr b, [SP], cstr c, [CR, LF]] := rfl

section Call

variable {m : HttpMessage} {max : Nat} {a b c : Bytes}

theorem encodeVectors_overflow (alloc : Bool) (hs : startLine m.parser = some (a, b, c)) (hmax : 6 ≤ max)
    (h : max ≤ m.parser.headerList.length + 7) :
    ∃ vs, 6 + vs.length ≤ max ∧ m.encodeVectors alloc max =
      ⟨startVectors a b c ++ number 6 vs, .error .overflow, m⟩ := by
  obtain ⟨vs, hloop, hlen⟩ := headerLoop_cases m.parser.headerList hmax
  refine ⟨vs, by omega, ?_⟩
  rw [encodeVectors, hs]
  simp only [hloop]
  rw [if_pos (by omega)]

theorem encodeVectors_room (alloc : Bool) (hs : startLine m.parser = some (a, b, c)) (h : m.parser.headerList.length + 7 < max) :
    ∃ vs, vs.length = m.parser.headerList.length ∧ headerLoop max 6 m.parser.headerList = (number 6 vs, 6 + vs.length) ∧
      m.encodeVectors alloc max =
        ⟨startVectors a b c ++ number 6 vs ++ [(6 + vs.length, [CR, LF])] ++
            (bodyLoop alloc max (6 + vs.length + 1) m.outputBodySize m.outputBody).1,
          (bodyLoop alloc max (6 + vs.length + 1) m.outputBodySize m.outputBody).2.1,
          m.withBlocks (bodyLoop alloc max (6 + vs.length + 1) m.outputBodySize m.outputBody).2.2
            (bodyLoop_blocks alloc max _ m.outputBodySize m.outputBody)⟩ := by
  obtain ⟨vs, hloop, hlen⟩ := headerLoop_cases m.parser.headerList (show 6 ≤ max by omega)
  refine ⟨vs, by omega, hloop, ?_⟩
  rw [encodeVectors, hs]
  simp only [hloop]
  rw [if_neg (by omega)]

/-- All the vectors, numbered. -/
theorem writes_number (vs ws : List Bytes) :
    startVectors a b c ++ number 6 vs ++ [(6 + vs.length, [CR, LF])] ++ number (6 + vs.length + 1) ws =
      number 0 ([cstr a, [SP], cstr b, [SP], cstr c, [CR, LF]] ++ vs ++ [[CR, LF]] ++ ws) := by
  rw [number_append, number_append, number_append, startVectors_number]
  simp only [List.length_append, List.length_cons, List.length_nil, Nat.zero_add, number]

end Call

end HttpMessage

/-- **`encode` under a limit**: it writes below the limit only; it overflows exactly when the header lines leave no room;
otherwise, unless memory runs out, it gives out the message, within the limit, and again the next time. -/
theorem encode_limited (m : HttpMessage) (alloc alloc' : Bool) (max : Nat) (a b c : Bytes)
    (hs : HttpMessage.startLine m.parser = some (a, b, c)) (hmax : 6 ≤ max) :
    let r := m.encodeVectors alloc max
    let again := r.message.encodeVectors alloc' max
    (∀ w ∈ r.writes, w.1 < max) ∧
    (r.result = .error .overflow ↔ max ≤ m.parser.headerList.length + 7) ∧
    (∀ e, r.result = .error e → r.message.outputBody = m.outputBody) ∧
    (m.parser.headerList.length + 7 < max → (alloc = false ∧ r.result = .error .noMem) ∨
      ∃ n, r.result = .ok n ∧ n ≤ max ∧ r.writes.map Prod.fst = List.range n ∧
        (r.writes.map Prod.snd).flatten = cstr a ++ [SP] ++ cstr b ++ [SP] ++ cstr c ++ [CR, LF] ++
          m.parser.headerList.flatMap (fun x => x.name ++ [COLON, SP] ++ x.value ++ [CR, LF]) ++ [CR, LF] ++
          m.outputBody.flatten ∧
        again.result = .ok n ∧ again.writes = r.writes ∧
        r.message.outputBodySize = (r.message.outputBody.map List.length).sum ∧
        again.message.outputBodySize = (again.message.outputBody.map List.length).sum) := by
  intro r again
  by_cases h : max ≤ m.parser.headerList.length + 7
  · obtain ⟨vs, hlen, hr⟩ := HttpMessage.encodeVectors_overflow alloc hs hmax h
    have hr' : r = _ := hr
    rw [hr']
    refine ⟨fun w hw => ?_, ⟨fun _ => h, fun _ => rfl⟩, fun _ _ => rfl, fun h' => absurd h (by omega)⟩
    have hall : HttpMessage.startVectors a b c ++ HttpMessage.number 6 vs =
        HttpMessage.number 0 ([cstr a, [SP], cstr b, [SP], cstr c, [CR, LF]] ++ vs) := by
      rw [HttpMessage.number_append, HttpMessage.startVectors_number]
      rfl
    rw [hall] at hw
    have := HttpMessage.number_lt hw
    simp only [List.length_append, List.length_cons, List.length_nil] at this
    omega
  · obtain ⟨vs, hlen, hvs, hr⟩ := HttpMessage.encodeVectors_room alloc hs (Nat.lt_of_not_le h)
    have hr' : r = _ := hr
    have hi : 6 + vs.length + 1 < max := by omega
    have hbody := HttpMessage.bodyLoop_cases alloc m.outputBody hi m.size
    rcases hbody with ⟨ha, h1, h2, ws, h3, h4⟩ | ⟨ws, h2, h3, h4⟩
    · rw [h3, HttpMessage.writes_number, h1] at hr'
      rw [hr']
      refine ⟨fun w hw => ?_, ⟨fun h' => (by cases h'), fun h' => absurd h' h⟩, fun _ _ => h2, fun _ => Or.inl ⟨ha, rfl⟩⟩
      have := HttpMessage.number_lt hw
      simp only [List.length_append, List.length_cons, List.length_nil] at this
      omega
    · have hlen' : ([cstr a, [SP], cstr b, [SP], cstr c, [CR, LF]] ++ vs ++ [[CR, LF]] ++ ws).length =
          6 + vs.length + 1 + ws.length := by
        simp only [List.length_append, List.length_cons, List.length_nil]
      have hok : r.result = .ok (6 + vs.length + 1 + ws.length) := by rw [hr']; exact h4
      obtain ⟨a', b', c', hs', hflat⟩ := HttpMessage.encodeVectors_flatten hok
      cases hs.symm.trans hs'
      have hwrites : r.writes =
          HttpMessage.number 0 ([cstr a, [SP], cstr b, [SP], cstr c, [CR, LF]] ++ vs ++ [[CR, LF]] ++ ws) := by
        rw [hr', h3]
        exact HttpMessage.writes_number vs ws
      -- the same headers, and blocks that the loop has left
      have hs2 : HttpMessage.startLine r.message.parser = some (a, b, c) := by rw [hr']; exact hs
      have hroom2 : r.message.parser.headerList.length + 7 < max := by rw [hr']; exact Nat.lt_of_not_le h
      obtain ⟨vs', -, hvs', hr2⟩ := HttpMessage.encodeVectors_room alloc' hs2 hroom2
      have hparser : r.message.parser = m.parser := by rw [hr']; rfl
      rw [hparser, hvs] at hvs'
      obtain rfl := HttpMessage.number_inj (Prod.mk.inj hvs').1
      have hloop : HttpMessage.bodyLoop alloc' max (6 + vs.length + 1) r.message.outputBodySize r.message.outputBody =
          HttpMessage.bodyLoop alloc max (6 + vs.length + 1) m.outputBodySize m.outputBody := by
        rw [hr']
        exact HttpMessage.bodyLoop_again h4
      have hwrites2 : again.writes = _ := congrArg HttpMessage.EncodeRun.writes hr2
      have hresult2 : again.result = _ := congrArg HttpMessage.EncodeRun.result hr2
      simp only [hloop, h3, h4, HttpMessage.writes_number] at hwrites2 hresult2
      have hne (e : HttpMessage.EncodeErrno) : r.result ≠ .error e := by
        rw [hok]
        exact fun h => (by cases h)
      refine ⟨fun w hw => ?_, ⟨fun h' => absurd h' (hne .overflow), fun h' => absurd h' h⟩,
        fun e he => absurd he (hne e), fun _ => Or.inr ⟨_, hok, h2, ?_, ?_, ?_, ?_, r.message.size, again.message.size⟩⟩
      · rw [hwrites] at hw
        have := HttpMessage.number_lt hw
        omega
      · rw [hwrites, HttpMessage.number_fst, hlen', List.range_eq_range']
      · exact hflat
      · exact hresult2
      · rw [hwrites2, hwrites]

/-- Two blocks with room for one vector. -/
theorem encode_limited_two :
    let m := ((((HttpMessage.new true default).setHttpVersion (ascii "HTTP/1.1")).setStatusCode (ascii "200") rfl
      |>.setReasonPhrase (ascii "OK")).appendOutputBody (ascii "he") |>.appendOutputBody (ascii "llo"))
    (m.encodeVectors true 8).result = .ok 8 ∧
      ((m.encodeVectors true 8).message.encodeVectors false 8).writes = (m.encodeVectors true 8).writes := by
  intro m
  have hline : HttpMessage.startLine m.parser = some (ascii "HTTP/1.1", ascii "200", ascii "OK") := by decide +kernel
  have hresult : (m.encodeVectors true 8).result = .ok 8 := by rfl
  rcases (encode_limited m true false 8 _ _ _ hline (by decide)).2.2.2 (by decide) with ⟨h, -⟩ | ⟨n, -, -, -, -, -, h, -⟩
  · cases h
  · exact ⟨hresult, h⟩

end Tinywf
