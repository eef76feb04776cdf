import Tinywf.CLib
import Mathlib.Data.List.DropRight
/-!
# StringUtil — splitting, stripping, and the URL escapes

`split` cuts a string at a byte, as `List.splitOn` does (`split_eq`).  `url_decode` writes into the buffer it reads,
never past the byte it has read, so that it is a function of the text alone (`urlDecode_eq`); it reads back whatever
an encoder that keeps neither `%` nor `+` has written (`urlDecode_urlEncodeWith`).
-/
namespace Tinywf

open CLib

namespace StringUtil

/-- The loop of `split`, with the bytes from `start` on that it has passed. -/
def splitFrom (sep : UInt8) (piece : Bytes) : Bytes → List Bytes
  | [] => [piece]
  | b :: s => if b = sep then piece :: splitFrom sep [] s else splitFrom sep (piece ++ [b]) s

def split (str : Bytes) (sep : UInt8) : List Bytes := splitFrom sep [] str

def strip (str : Bytes) : Bytes := (str.dropWhile isspace).rdropWhile isspace

/-! ## The escapes -/

abbrev PERCENT : UInt8 := 37
abbrev PLUS : UInt8 := 43

/-- One digit of `__htoi`. -/
def hexDigit (c : UInt8) : Int :=
  let c := tolower c
  if 48 ≤ c ∧ c ≤ 57 then (c.toNat : Int) - 48 else (c.toNat : Int) - 97 + 10

/-- `__htoi`. -/
def htoi (s0 s1 : UInt8) : Int := hexDigit s0 * 16 + hexDigit s1

/-- `__itoh`. -/
def itoh (n : UInt8) : UInt8 := if 9 < n then n - 10 + 65 else n + 48

def isxdigit (b : UInt8) : Bool := isDigitOf 16 b

def isalnum (b : UInt8) : Bool :=
  decide (48 ≤ b ∧ b ≤ 57) || decide (65 ≤ b ∧ b ≤ 90) || decide (97 ≤ b ∧ b ≤ 122)

/-- The loop of `url_decode` over the buffer, with `len` bytes to go: the buffer, and where `dest` is. -/
def urlDecodeFrom (buf : Bytes) (dest data : Nat) : Nat → Bytes × Nat
  | 0 => (buf, dest)
  | len + 1 =>
    if buf.getD data 0 = PERCENT ∧ 2 ≤ len ∧ isxdigit (buf.getD (data + 1) 0) ∧ isxdigit (buf.getD (data + 2) 0) then
      urlDecodeFrom (buf.set dest (UInt8.ofInt (htoi (buf.getD (data + 1) 0) (buf.getD (data + 2) 0))))
        (dest + 1) (data + 3) (len - 2)
    else if buf.getD data 0 = PLUS then urlDecodeFrom (buf.set dest SP) (dest + 1) (data + 1) len
    else urlDecodeFrom (buf.set dest (buf.getD data 0)) (dest + 1) (data + 1) len
termination_by len => len
decreasing_by all_goals omega

/-- `url_decode(char *, size_t)`: the buffer behind it, and the new length. -/
def urlDecodeBuf (buf : Bytes) (len : Nat) : Bytes × Nat :=
  let r := urlDecodeFrom buf 0 0 len
  (r.1.set r.2 NUL, r.2)

/-- `url_decode(std::string&)`; the buffer has room for the terminator. -/
def urlDecode (str : Bytes) : Bytes :=
  if str = [] then str
  else
    let r := urlDecodeBuf (str ++ [NUL]) str.length
    r.1.take r.2

/-- What both encoders do to a byte; `keep` says which they leave. -/
def urlEncodeByte (keep : UInt8 → Bool) (cur : UInt8) : Bytes :=
  if cur = SP then [PLUS]
  else if keep cur then [cur]
  else [PERCENT, itoh (cur >>> 4), itoh (cur % 16)]

def urlEncodeWith (keep : UInt8 → Bool) (str : Bytes) : Bytes := str.flatMap (urlEncodeByte keep)

/-- What `url_encode_component` leaves as it is. -/
def keptInComponent (b : UInt8) : Bool := isalnum b || (ascii "-_.!~*'()").contains b

/-- What `url_encode` leaves as it is. -/
def keptInUrl (b : UInt8) : Bool := isalnum b || (ascii "-_.!~*'():/@?#&").contains b

def urlEncode (str : Bytes) : Bytes := urlEncodeWith keptInUrl str

def urlEncodeComponent (str : Bytes) : Bytes := urlEncodeWith keptInComponent str

/-! ## Splitting is `splitOn` -/

theorem splitFrom_eq (sep : UInt8) (piece s : Bytes) :
    splitFrom sep piece s = (s.splitOn sep).modifyHead (piece ++ ·) := by
  induction s generalizing piece with
  | nil => rw [splitFrom, List.splitOn_nil, List.modifyHead_cons, List.append_nil]
  | cons b s ih =>
    rw [splitFrom, List.splitOn_cons_eq_if_modifyHead]
    by_cases hb : b = sep
    · rw [if_pos hb, if_pos (beq_iff_eq.2 hb), ih, List.modifyHead_cons, List.append_nil]
      cases s.splitOn sep with
      | nil => rfl
      | cons p ps => rfl
    · rw [if_neg hb, if_neg (by simpa using hb), ih]
      cases s.splitOn sep with
      | nil => rfl
      | cons p ps =>
        rw [List.modifyHead_cons, List.modifyHead_cons, List.modifyHead_cons, List.append_assoc]
        rfl

theorem split_eq (str : Bytes) (sep : UInt8) : split str sep = str.splitOn sep := by
  rw [split, splitFrom_eq]
  cases str.splitOn sep with
  | nil => rfl
  | cons p ps => rfl

/-! ## What the decoder reads -/

/-- A byte that begins no escape. -/
def plain (c : UInt8) : UInt8 := if c = PLUS then SP else c

/-- The text that `url_decode` leaves. -/
def decoded : Bytes → Bytes
  | c :: h0 :: h1 :: s =>
    if c = PERCENT ∧ isxdigit h0 ∧ isxdigit h1 then UInt8.ofInt (htoi h0 h1) :: decoded s
    else plain c :: decoded (h0 :: h1 :: s)
  | c :: s => plain c :: decoded s
  | [] => []

/-- The buffer while the loop runs: what is done, what is read and not written over, and what is to be read. -/
def working (done passed text : Bytes) : Bytes := done ++ (passed ++ text)

theorem working_getD (done passed text : Bytes) (i : Nat) :
    (working done passed text).getD (done.length + passed.length + i) 0 = text.getD i 0 := by
  rw [working, ← List.append_assoc, ← List.length_append, List.getD_eq_getElem?_getD, List.getD_eq_getElem?_getD,
    List.getElem?_append_right (Nat.le_add_right _ _), Nat.add_sub_cancel_left]

/-- A write behind what is done comes where a byte has been read. -/
theorem working_set (done passed text : Bytes) {u : Bytes} (hu : u ≠ []) (v : UInt8) :
    (working done passed (u ++ text)).set done.length v = working (done ++ [v]) (passed ++ u).tail text := by
  have hne : passed ++ u ≠ [] := fun h => hu (List.append_eq_nil_iff.1 h).2
  rw [working, working, ← List.append_assoc passed u text]
  obtain ⟨p, left, hp⟩ := List.exists_cons_of_ne_nil hne
  rw [hp, List.set_append_right _ _ (Nat.le_refl _), Nat.sub_self, List.append_assoc]
  rfl

theorem working_data (done passed : Bytes) {u : Bytes} (hu : u ≠ []) (v : UInt8) :
    (done ++ [v]).length + (passed ++ u).tail.length = done.length + passed.length + u.length := by
  have hpos := List.length_pos_iff.2 hu
  rw [List.length_append, List.length_tail, List.length_append, List.length_singleton]
  omega

/-- The loop, at work. -/
def decoding (done passed text : Bytes) (len : Nat) : Bytes × Nat :=
  urlDecodeFrom (working done passed text) done.length (done.length + passed.length) len

theorem decoding_moved (done passed text : Bytes) {u : Bytes} (hu : u ≠ []) (v : UInt8) (len : Nat) :
    urlDecodeFrom ((working done passed (u ++ text)).set done.length v) (done.length + 1)
      (done.length + passed.length + u.length) len = decoding (done ++ [v]) (passed ++ u).tail text len := by
  rw [decoding, working_data _ _ hu, working_set _ _ _ hu, List.length_append, List.length_singleton]

theorem decoding_plain {done passed text : Bytes} {c : UInt8} {len : Nat}
    (no : ¬(c = PERCENT ∧ 2 ≤ len ∧ isxdigit (text.getD 0 0) ∧ isxdigit (text.getD 1 0))) :
    decoding done passed (c :: text) (len + 1) = decoding (done ++ [plain c]) (passed ++ [c]).tail text len := by
  have h0 : (working done passed (c :: text)).getD (done.length + passed.length) 0 = c :=
    working_getD done passed (c :: text) 0
  have h1 : (working done passed (c :: text)).getD (done.length + passed.length + 1) 0 = text.getD 0 0 :=
    working_getD done passed (c :: text) 1
  have h2 : (working done passed (c :: text)).getD (done.length + passed.length + 2) 0 = text.getD 1 0 :=
    working_getD done passed (c :: text) 2
  rw [← decoding_moved done passed text (List.cons_ne_nil c []) (plain c) len, decoding, urlDecodeFrom, h0, h1, h2,
    if_neg no, plain]
  split <;> rfl

theorem decoding_escape {done passed text : Bytes} {h0 h1 : UInt8} {len : Nat} (hx0 : isxdigit h0) (hx1 : isxdigit h1) :
    decoding done passed (PERCENT :: h0 :: h1 :: text) (len + 3) =
      decoding (done ++ [UInt8.ofInt (htoi h0 h1)]) (passed ++ [PERCENT, h0, h1]).tail text len := by
  have hr0 : (working done passed (PERCENT :: h0 :: h1 :: text)).getD (done.length + passed.length) 0 = PERCENT :=
    working_getD done passed (PERCENT :: h0 :: h1 :: text) 0
  have hr1 : (working done passed (PERCENT :: h0 :: h1 :: text)).getD (done.length + passed.length + 1) 0 = h0 :=
    working_getD done passed (PERCENT :: h0 :: h1 :: text) 1
  have hr2 : (working done passed (PERCENT :: h0 :: h1 :: text)).getD (done.length + passed.length + 2) 0 = h1 :=
    working_getD done passed (PERCENT :: h0 :: h1 :: text) 2
  rw [← decoding_moved done passed text (List.cons_ne_nil PERCENT [h0, h1]) _ len, decoding, urlDecodeFrom, hr0, hr1, hr2,
    if_pos ⟨rfl, Nat.le_add_left 2 len, hx0, hx1⟩]
  rfl

/-- **The decoder never writes where it has yet to read.** -/
theorem decoding_eq (text rest : Bytes) : ∀ done passed : Bytes, ∃ left,
    decoding done passed (text ++ rest) text.length = (done ++ decoded text ++ left, (done ++ decoded text).length) := by
  induction text using decoded.induct with
  | case1 c h0 h1 s h ih =>
    intro done passed
    obtain ⟨rfl, hx0, hx1⟩ := h
    obtain ⟨left, ih⟩ := ih (done ++ [UInt8.ofInt (htoi h0 h1)]) (passed ++ [PERCENT, h0, h1]).tail
    refine ⟨left, ?_⟩
    rw [decoded, if_pos ⟨rfl, hx0, hx1⟩, List.append_cons done, ← ih]
    exact decoding_escape hx0 hx1
  | case2 c h0 h1 s h ih =>
    intro done passed
    obtain ⟨left, ih⟩ := ih (done ++ [plain c]) (passed ++ [c]).tail
    refine ⟨left, ?_⟩
    rw [decoded, if_neg h, List.append_cons done, ← ih]
    exact decoding_plain fun hc => h ⟨hc.1, hc.2.2⟩
  | case3 c s h ih =>
    intro done passed
    obtain ⟨left, ih⟩ := ih (done ++ [plain c]) (passed ++ [c]).tail
    refine ⟨left, ?_⟩
    rw [decoded.eq_2 c s h, List.append_cons done, ← ih]
    refine decoding_plain fun hc => ?_
    -- an escape needs two more bytes
    match s, h, hc.2.1 with
    | h0 :: h1 :: s, h, _ => exact h h0 h1 s rfl
  | case4 =>
    intro done passed
    exact ⟨passed ++ ([] ++ rest), by rw [decoded, List.append_nil, List.length_nil, decoding, urlDecodeFrom, working]⟩

theorem urlDecode_eq (str : Bytes) : urlDecode str = decoded str := by
  obtain ⟨left, h⟩ := decoding_eq str [NUL] [] []
  have hfrom : urlDecodeFrom (str ++ [NUL]) 0 0 str.length = (decoded str ++ left, (decoded str).length) := h
  unfold urlDecode urlDecodeBuf
  split
  · rename_i hs
    rw [hs]
    rfl
  · simp only [hfrom]
    rw [List.take_set_of_le (Nat.le_refl _), List.take_left]

/-! ## What an encoder writes is read back -/

theorem decoded_plain {c : UInt8} (h : c ≠ PERCENT) (s : Bytes) : decoded (c :: s) = plain c :: decoded s := by
  match s with
  | [] => rfl
  | [_] => rfl
  | h0 :: h1 :: s => rw [decoded, if_neg fun hc => h hc.1]

/-- The two digits of a byte. -/
theorem itoh_digits (b : UInt8) : isxdigit (itoh (b >>> 4)) = true ∧ isxdigit (itoh (b % 16)) = true ∧
    UInt8.ofInt (htoi (itoh (b >>> 4)) (itoh (b % 16))) = b := by
  have table : ∀ n : Fin 256, isxdigit (itoh (UInt8.ofFin n >>> 4)) = true ∧ isxdigit (itoh (UInt8.ofFin n % 16)) = true ∧
      UInt8.ofInt (htoi (itoh (UInt8.ofFin n >>> 4)) (itoh (UInt8.ofFin n % 16))) = UInt8.ofFin n := by decide +kernel
  exact table b.toFin

variable {keep : UInt8 → Bool}

theorem decoded_urlEncodeByte (percent : keep PERCENT = false) (plus : keep PLUS = false) (b : UInt8) (s : Bytes) :
    decoded (urlEncodeByte keep b ++ s) = b :: decoded s := by
  unfold urlEncodeByte
  split
  · rename_i hb
    rw [hb]
    exact decoded_plain (by decide) s
  · split
    · rename_i hk
      have hp : b ≠ PERCENT := fun h => by rw [h, percent] at hk; cases hk
      have hplus : b ≠ PLUS := fun h => by rw [h, plus] at hk; cases hk
      rw [List.singleton_append, decoded_plain hp, plain, if_neg hplus]
    · obtain ⟨h0, h1, hv⟩ := itoh_digits b
      rw [List.cons_append, List.cons_append, List.singleton_append, decoded, if_pos ⟨rfl, h0, h1⟩, hv]

/-- **An encoder that keeps neither `%` nor `+` is undone.** -/
theorem urlDecode_urlEncodeWith (percent : keep PERCENT = false) (plus : keep PLUS = false) (s : Bytes) :
    urlDecode (urlEncodeWith keep s) = s := by
  rw [urlDecode_eq]
  induction s with
  | nil => rfl
  | cons b s ih =>
    have hcons : urlEncodeWith keep (b :: s) = urlEncodeByte keep b ++ urlEncodeWith keep s := List.flatMap_cons
    rw [hcons, decoded_urlEncodeByte percent plus, ih]

theorem urlDecode_urlEncode (s : Bytes) : urlDecode (urlEncode s) = s := urlDecode_urlEncodeWith rfl rfl s

theorem urlDecode_urlEncodeComponent (s : Bytes) : urlDecode (urlEncodeComponent s) = s :=
  urlDecode_urlEncodeWith rfl rfl s

/-- A byte that is not kept, and that no escape is made of, is not in what an encoder writes. -/
theorem urlEncodeWith_free {c : UInt8} (hkeep : keep c = false) (escape : c ≠ PERCENT ∧ c ≠ PLUS ∧ isxdigit c = false)
    (s : Bytes) : c ∉ urlEncodeWith keep s := by
  intro hm
  obtain ⟨b, -, hm⟩ := List.mem_flatMap.1 hm
  unfold urlEncodeByte at hm
  split at hm
  · exact escape.2.1 (List.mem_singleton.1 hm)
  · split at hm
    · rename_i hk
      rw [← List.mem_singleton.1 hm, hkeep] at hk
      cases hk
    · obtain ⟨h0, h1, -⟩ := itoh_digits b
      have hx := escape.2.2
      rcases List.mem_cons.1 hm with rfl | hm
      · exact escape.1 rfl
      · rcases List.mem_cons.1 hm with rfl | hm
        · rw [h0] at hx
          cases hx
        · rw [List.mem_singleton.1 hm, h1] at hx
          cases hx

theorem urlEncodeWith_ne_nil {s : Bytes} (hs : s ≠ []) : urlEncodeWith keep s ≠ [] := by
  obtain ⟨b, s, rfl⟩ := List.exists_cons_of_ne_nil hs
  have hcons : urlEncodeWith keep (b :: s) = urlEncodeByte keep b ++ urlEncodeWith keep s := List.flatMap_cons
  rw [hcons]
  unfold urlEncodeByte
  split
  · exact List.cons_ne_nil _ _
  · split <;> exact List.cons_ne_nil _ _

end StringUtil

end Tinywf
