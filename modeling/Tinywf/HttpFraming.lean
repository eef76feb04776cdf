import Tinywf.HttpFields
/-!
# HttpFraming — where a request ends

The length of a body is decided by the stored header fields alone (`Framed`).  With one Content-Length and no
Transfer-Encoding it is what the field declares (`declaredLength`): the number in front of its value, when the value
begins with a digit and has at most 15 bytes, and otherwise nothing.
-/
namespace Tinywf

open CLib

/-! ## Decimal numbers -/

theorem digitVal_lt {base : Nat} {b : UInt8} {n : Nat} (h : digitVal base b = some n) : n < base := by
  unfold digitVal at h
  rw [Option.filter_eq_some_iff] at h
  exact of_decide_eq_true h.2

theorem digitsVal_append (base : Nat) (ds : Bytes) (d : UInt8) :
    digitsVal base (ds ++ [d]) = digitsVal base ds * base + (digitVal base d).getD 0 := by
  unfold digitsVal
  rw [List.foldl_append]
  rfl

theorem digitsVal_lt (ds : Bytes) : digitsVal 10 ds < 10 ^ ds.length := by
  induction ds using List.reverseRecOn with
  | nil => decide
  | append_singleton ds d ih =>
    have hd : (digitVal 10 d).getD 0 < 10 := by
      cases h : digitVal 10 d with
      | none => decide
      | some n => exact digitVal_lt h
    rw [digitsVal_append, List.length_append, List.length_singleton, Nat.pow_succ]
    omega

theorem isDigitOf_ten {b : UInt8} (h : isDigitOf 10 b = true) : 48 ≤ b.toNat ∧ b.toNat ≤ 57 := by
  obtain ⟨n, hn⟩ := Option.isSome_iff_exists.1 h
  unfold digitVal at hn
  rw [Option.filter_eq_some_iff, decide_eq_true_eq] at hn
  obtain ⟨hv, hlt⟩ := hn
  split at hv
  · assumption
  · split at hv
    · cases hv; omega
    · split at hv
      · cases hv; omega
      · cases hv

/-- Of a value that begins with a digit, `atol` reads the digits it begins with. -/
theorem atol_digit {b : UInt8} {v : Bytes} (hb : isDigitOf 10 b = true) (hl : (b :: v).length ≤ 15) :
    atol (b :: v) = digitsVal 10 ((b :: v).takeWhile (isDigitOf 10)) := by
  obtain ⟨h1, h2⟩ := isDigitOf_ten hb
  have hspace : isspace b = false := by
    simp only [isspace, Bool.or_eq_false_iff, beq_eq_false_iff_ne, decide_eq_false_iff_not]
    refine ⟨?_, by omega⟩
    rintro rfl
    exact absurd h1 (by decide)
  have hsign : takeSign (b :: v) = (false, b :: v) := by
    unfold takeSign
    split
    · exact absurd h1 (by rename_i heq; cases heq; decide)
    · exact absurd h1 (by rename_i heq; cases heq; decide)
    · rfl
  have hskip : skipPrefix 10 (b :: v) = b :: v := by
    unfold skipPrefix
    split
    · rename_i heq
      rw [if_neg (fun hc => absurd hc.1 (by decide)), heq]
    · rfl
  have hlt : digitsVal 10 ((b :: v).takeWhile (isDigitOf 10)) < 10 ^ 15 := by
    refine lt_of_lt_of_le (digitsVal_lt _) (Nat.pow_le_pow_right (by decide) ?_)
    exact le_trans (List.takeWhile_sublist _).length_le hl
  have hstrtol : strtol 10 (b :: v) = some ((digitsVal 10 ((b :: v).takeWhile (isDigitOf 10)) : Int),
      (b :: v).drop ((b :: v).takeWhile (isDigitOf 10)).length) := by
    unfold strtol
    rw [List.dropWhile_cons_of_neg (by rw [hspace]; simp), hsign]
    simp only
    rw [hskip, if_neg (by rw [List.takeWhile_cons_of_pos hb]; simp)]
    simp only [clampLong, Bool.false_eq_true, if_false]
    rw [Nat.min_eq_left (by unfold LONG_MAX; omega)]
  rw [atol, hstrtol]

/-- The length a Content-Length value declares. -/
def declaredLength (v : Bytes) : Nat :=
  if isDigitOf 10 (v.headD NUL) ∧ v.length ≤ 15 then digitsVal 10 (v.takeWhile (isDigitOf 10)) else 0

theorem declaredLength_digits {v : Bytes} (hne : v ≠ []) (hv : ∀ b ∈ v, isDigitOf 10 b = true) (hl : v.length ≤ 15) :
    declaredLength v = digitsVal 10 v := by
  have hhead : isDigitOf 10 (v.headD NUL) = true := by
    cases v with
    | nil => exact absurd rfl hne
    | cons b t => exact hv b List.mem_cons_self
  rw [declaredLength, if_pos ⟨hhead, hl⟩, List.takeWhile_eq_self_iff.2 hv]

theorem declaredLength_lt (v : Bytes) : declaredLength v < 10 ^ 15 := by
  unfold declaredLength
  split
  · rename_i h
    refine lt_of_lt_of_le (digitsVal_lt _) (Nat.pow_le_pow_right (by decide) ?_)
    exact le_trans (List.takeWhile_sublist _).length_le h.2
  · decide

theorem atol_declaredLength {v : Bytes} (h : isDigitOf 10 (v.headD NUL) ∧ v.length ≤ 15) :
    (atol v % 2 ^ 64).toNat = declaredLength v := by
  have hlt := declaredLength_lt v
  rw [declaredLength, if_pos h] at hlt ⊢
  cases v with
  | nil => exact absurd h.1 (by decide)
  | cons b t =>
    have hb : isDigitOf 10 b = true := h.1
    rw [atol_digit hb h.2]
    omega

/-! ## What the stored fields decide -/

/-- A header line of a given name. -/
def HeaderLine.named (key : Bytes) (h : HeaderLine) : Bool :=
  h.name.length == key.length && strncaseeq key.length h.name key

abbrev contentLengthKey : Bytes := ascii "Content-Length"

abbrev transferEncodingKey : Bytes := ascii "Transfer-Encoding"

/-- The last Content-Length that begins with a digit and is short enough, if there is one. -/
def lengthOf (n : Nat) (hs : List HeaderLine) : Nat :=
  (hs.filter (HeaderLine.named contentLengthKey)).foldl
    (fun n h => if isDigitOf 10 (h.value.headD NUL) ∧ h.value.length ≤ 15 then declaredLength h.value else n) n

/-- Whether the last Transfer-Encoding, if there is one, is anything but `identity`. -/
def chunkedOf (c : Bool) (hs : List HeaderLine) : Bool :=
  (hs.filter (HeaderLine.named transferEncodingKey)).foldl
    (fun _ h => !(h.value.length == 8 && strncaseeq 8 h.value (ascii "identity"))) c

theorem checkMessageHeader_contentLength (name value : Bytes) (p : HttpParser) :
    (checkMessageHeader name value p).contentLength =
      if (headerLine name value).named contentLengthKey ∧ (isDigitOf 10 (value.headD NUL) ∧ value.length ≤ 15) then
        declaredLength value else p.contentLength := by
  rw [HeaderLine.named, headerLine_name, show contentLengthKey.length = 14 from rfl]
  by_cases hlen : name.length = 14
  · unfold checkMessageHeader
    simp only [hlen, BEq.rfl, Bool.true_and]
    split
    · rename_i hn
      split
      · rename_i hv
        rw [if_pos ⟨hn, hv⟩]
        exact atol_declaredLength hv
      · rename_i hv
        rw [if_neg (fun hc => hv hc.2)]
    · rename_i hn
      rw [if_neg (fun hc => hn hc.1)]
  · rw [if_neg (by simp [hlen])]
    unfold checkMessageHeader
    split <;> (try exact absurd ‹_› hlen) <;> repeat' split
    all_goals rfl

theorem checkMessageHeader_chunked (name value : Bytes) (p : HttpParser) :
    (checkMessageHeader name value p).chunked =
      if (headerLine name value).named transferEncodingKey then
        !(value.length == 8 && strncaseeq 8 value (ascii "identity")) else p.chunked := by
  rw [HeaderLine.named, headerLine_name, show transferEncodingKey.length = 17 from rfl]
  by_cases hlen : name.length = 17
  · unfold checkMessageHeader
    simp only [hlen, BEq.rfl, Bool.true_and]
    split <;> rfl
  · rw [if_neg (by simp [hlen])]
    unfold checkMessageHeader
    split <;> (try exact absurd ‹_› hlen) <;> repeat' split
    all_goals rfl

theorem lengthOf_append (n : Nat) (hs hs' : List HeaderLine) : lengthOf n (hs ++ hs') = lengthOf (lengthOf n hs) hs' := by
  rw [lengthOf, List.filter_append, List.foldl_append]
  rfl

theorem chunkedOf_append (c : Bool) (hs hs' : List HeaderLine) :
    chunkedOf c (hs ++ hs') = chunkedOf (chunkedOf c hs) hs' := by
  rw [chunkedOf, List.filter_append, List.foldl_append]
  rfl

theorem lengthOf_one (n : Nat) (name value : Bytes) : lengthOf n [headerLine name value] =
    if (headerLine name value).named contentLengthKey ∧ (isDigitOf 10 (value.headD NUL) ∧ value.length ≤ 15) then
      declaredLength value else n := by
  rw [lengthOf]
  by_cases h : (headerLine name value).named contentLengthKey = true
  · rw [List.filter_cons_of_pos h]
    simp only [List.filter_nil, List.foldl_cons, List.foldl_nil, headerLine_value, h, true_and]
  · rw [List.filter_cons_of_neg h, if_neg (fun hc => h hc.1)]
    rfl

theorem chunkedOf_one (c : Bool) (name value : Bytes) : chunkedOf c [headerLine name value] =
    if (headerLine name value).named transferEncodingKey then
      !(value.length == 8 && strncaseeq 8 value (ascii "identity")) else c := by
  rw [chunkedOf]
  by_cases h : (headerLine name value).named transferEncodingKey = true
  · rw [List.filter_cons_of_pos h, if_pos h]
    simp only [List.filter_nil, List.foldl_cons, List.foldl_nil, headerLine_value]
  · rw [List.filter_cons_of_neg h, if_neg h]
    rfl

theorem headerValueDone_contentLength (value : Bytes) (n : Nat) (p : HttpParser) :
    (headerValueDone value n p).contentLength = lengthOf p.contentLength [headerLine (cstr p.namebuf) value] := by
  rw [lengthOf_one]
  exact checkMessageHeader_contentLength (cstr p.namebuf) value (addMessageHeader (cstr p.namebuf) value p)

theorem headerValueDone_chunked (value : Bytes) (n : Nat) (p : HttpParser) :
    (headerValueDone value n p).chunked = chunkedOf p.chunked [headerLine (cstr p.namebuf) value] := by
  rw [chunkedOf_one]
  exact checkMessageHeader_chunked (cstr p.namebuf) value (addMessageHeader (cstr p.namebuf) value p)

/-- A request whose framing fields are what its stored header lines decide. -/
structure Framed (p : HttpParser) : Prop where
  request : p.isResp = false
  transferLength : p.transferLength = sizeMax
  contentLength : p.contentLength = lengthOf 0 p.headerList
  chunked : p.chunked = chunkedOf false p.headerList

theorem framed_rule : HeaderRule Framed where
  emptyLine := fun _ _ hp => ⟨hp.request, hp.transferLength, hp.contentLength, hp.chunked⟩
  startLine := fun {p} line p1 p2 p3 _ hp => by
    have hreq := hp.request
    have h : startLineDone line p1 p2 p3 p =
        { matchRequestLine p1 p2 p3 p with
          headerOffset := (matchRequestLine p1 p2 p3 p).headerOffset + (line.length + 2), headerState := .headerName } := by
      rw [startLineDone, hreq]
      rfl
    rw [h]
    unfold matchRequestLine
    split <;> exact ⟨hp.request, hp.transferLength, hp.contentLength, hp.chunked⟩
  partName := fun _ _ hp => ⟨hp.request, hp.transferLength, hp.contentLength, hp.chunked⟩
  name := fun _ _ _ _ hp => ⟨hp.request, hp.transferLength, hp.contentLength, hp.chunked⟩
  value := fun {p} value n hv _ hp => by
    have hframe : (headerValueDone value n p).transferLength = p.transferLength := by
      unfold headerValueDone httpParserAddHeader checkMessageHeader addMessageHeader
      split <;> repeat' split
      all_goals rfl
    refine ⟨((headerValueDone_sameFrame value n p).isResp).trans hp.request, hframe.trans hp.transferLength, ?_, ?_⟩
    · rw [headerValueDone_headerList, lengthOf_append, ← hp.contentLength, headerValueDone_contentLength]
    · rw [headerValueDone_headerList, chunkedOf_append, ← hp.chunked, headerValueDone_chunked]
  complete := fun _ _ hp => ⟨hp.request, hp.transferLength, hp.contentLength, hp.chunked⟩

theorem lengthOf_single (n : Nat) {hs : List HeaderLine} {h : HeaderLine}
    (hone : hs.filter (HeaderLine.named contentLengthKey) = [h]) : lengthOf n hs =
      if isDigitOf 10 (h.value.headD NUL) ∧ h.value.length ≤ 15 then declaredLength h.value else n := by
  rw [lengthOf, hone]
  rfl

/-- With no other default than nothing, a single Content-Length is what it declares. -/
theorem lengthOf_zero {hs : List HeaderLine} {h : HeaderLine}
    (hone : hs.filter (HeaderLine.named contentLengthKey) = [h]) : lengthOf 0 hs = declaredLength h.value := by
  rw [lengthOf_single 0 hone]
  split
  · rfl
  · rename_i hn
    rw [declaredLength, if_neg hn]

theorem chunkedOf_none (c : Bool) {hs : List HeaderLine}
    (hno : hs.filter (HeaderLine.named transferEncodingKey) = []) : chunkedOf c hs = c := by
  rw [chunkedOf, hno]
  rfl

/-- **The body of a request with one Content-Length and no Transfer-Encoding has the length that the stored value
declares**: its decimal value when it is a number of at most 15 digits. -/
theorem request_length (p : HttpParser) (frags : List Bytes) (h : HeaderLine)
    (hdone : (feed frags (fresh false false p)).1 = .done)
    (hone : (feed frags (fresh false false p)).2.2.headerList.filter (HeaderLine.named contentLengthKey) = [h])
    (hno : (feed frags (fresh false false p)).2.2.headerList.filter (HeaderLine.named transferEncodingKey) = []) :
    let s := (feed frags (fresh false false p)).2.2
    s.headerOffset ≤ s.msgsize ∧ s.msgsize - s.headerOffset = declaredLength h.value ∧
      (h.value ≠ [] → (∀ b ∈ h.value, isDigitOf 10 b = true) → h.value.length ≤ 15 →
        s.msgsize - s.headerOffset = digitsVal 10 h.value) := by
  intro s
  suffices hs : s.msgsize = s.headerOffset + declaredLength h.value from
    ⟨by omega, by omega, fun hne hd hl => by rw [← declaredLength_digits hne hd hl]; omega⟩
  obtain ⟨hi, t, ht, hst, hsize⟩ := feed_fresh (s := s) (r := .done) (by rw [← hdone])
  have hx : Framed (fresh false false p) := ⟨rfl, rfl, rfl, rfl⟩
  rcases parseMessage_open hi ht with ⟨hd, -⟩ | ⟨u, hq, hready, hsu, hb⟩
  · exact absurd rfl hd
  · have hu := framed_rule.run hi hx hq
    have hlist : t.headerList = s.headerList := hst.headerList
    have hul : t.headerList = u.headerList := finishBody_headerList hready hsu hb
    have hchunk : u.chunked = false := by rw [hu.chunked, ← hul, hlist, chunkedOf_none false hno]
    have hlen : u.contentLength = declaredLength h.value := by rw [hu.contentLength, ← hul, hlist, lengthOf_zero hone]
    have hsb : startBody u = { u with transferLength := u.contentLength } := by
      rw [startBody, if_neg (by rw [hchunk]; simp), if_pos hu.transferLength]
    have hne : (startBody u).transferLength ≠ sizeMax := by
      have := declaredLength_lt h.value
      rw [hsb, show ({ u with transferLength := u.contentLength } : HttpParser).transferLength = _ from hlen]
      unfold sizeMax
      omega
    rw [finishBody_length hne] at hb
    split at hb
    · have ht' : t = (startBody u).completed := (congrArg Prod.snd hb).symm
      have hmsg : t.msgsize = u.headerOffset + u.contentLength := by
        rw [ht', HttpParser.completed, HttpParser.total, if_pos hne, hsb]
      have hoff : t.headerOffset = u.headerOffset := by rw [ht', hsb]; rfl
      rw [← hsize rfl, ← hst.offset, hmsg, hoff, hlen]
    · cases hb

theorem request_length_five :
    (feed [ascii "POST / HTTP/1.1\r\nContent-Length: 5 \r\n\r\nhello"] (fresh false false default)).2.2.msgsize -
      (feed [ascii "POST / HTTP/1.1\r\nContent-Length: 5 \r\n\r\nhello"] (fresh false false default)).2.2.headerOffset
      = 5 :=
  (request_length default [ascii "POST / HTTP/1.1\r\nContent-Length: 5 \r\n\r\nhello"]
    (headerLine (ascii "Content-Length") (ascii "5")) (by decide +kernel) (by decide +kernel)
    (by decide +kernel)).2.2 (by decide +kernel) (by decide +kernel) (by decide +kernel)

/-- A number of sixteen digits, and one that a fold precedes, count for nothing: the request ends with its header block,
and the body is left to the next one. -/
theorem request_length_ignored :
    (let s := feed [ascii "POST / HTTP/1.1\r\nContent-Length: 0000000000000005\r\n\r\nhello"] (fresh false false default)
     s.1 = .done ∧ s.2.2.headerList = [headerLine contentLengthKey (ascii "0000000000000005")] ∧
       digitsVal 10 (ascii "0000000000000005") = 5 ∧ s.2.2.msgsize - s.2.2.headerOffset = 0) ∧
    (let s := feed [ascii "POST / HTTP/1.1\r\nContent-Length:\r\n 5\r\n\r\nhello"] (fresh false false default)
     s.1 = .done ∧ s.2.2.headerList = [headerLine contentLengthKey (ascii " 5")] ∧
       s.2.2.msgsize - s.2.2.headerOffset = 0) := by
  decide +kernel

end Tinywf
