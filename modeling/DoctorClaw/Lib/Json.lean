import DoctorClaw.Lib.Decimal

/-!
# JSON texts

A reader for the grammar of RFC 8259 over bytes.  A text is UTF-8 as a whole;
its strings are decoded to UTF-8 again, with an unpaired surrogate read as the
replacement character.  Numbers are kept as they are written.
-/

namespace Json

/-! ## UTF-8 -/

/-- The ranges of the bytes that have to follow a first byte. -/
def followers (a : UInt8) : Option (List (UInt8 × UInt8)) :=
  if a < 128 then some []
  else if a < 194 then none
  else if a < 224 then some [(128, 191)]
  else if a = 224 then some [(160, 191), (128, 191)]
  else if a = 237 then some [(128, 159), (128, 191)]
  else if a < 240 then some [(128, 191), (128, 191)]
  else if a = 240 then some [(144, 191), (128, 191), (128, 191)]
  else if a < 244 then some [(128, 191), (128, 191), (128, 191)]
  else if a = 244 then some [(128, 143), (128, 191), (128, 191)]
  else none

def isUtf8From : List (UInt8 × UInt8) → Bytes → Bool
  | [], [] => true
  | _ :: _, [] => false
  | [], a :: s =>
      match followers a with
      | some ranges => isUtf8From ranges s
      | none => false
  | (low, high) :: ranges, a :: s => low ≤ a && a ≤ high && isUtf8From ranges s

def isUtf8 (s : Bytes) : Bool := isUtf8From [] s

def encodeUtf8 (n : ℕ) : Bytes :=
  if n < 128 then [UInt8.ofNat n]
  else if n < 2048 then [UInt8.ofNat (192 + n / 64), UInt8.ofNat (128 + n % 64)]
  else if n < 65536 then
    [UInt8.ofNat (224 + n / 4096), UInt8.ofNat (128 + n / 64 % 64), UInt8.ofNat (128 + n % 64)]
  else
    [UInt8.ofNat (240 + n / 262144), UInt8.ofNat (128 + n / 4096 % 64),
      UInt8.ofNat (128 + n / 64 % 64), UInt8.ofNat (128 + n % 64)]

/-! ## Strings -/

/-- Splits what follows an opening quote at the closing one. -/
def splitString : Bytes → Option (Bytes × Bytes)
  | [] => none
  | c :: s =>
      if c = 34 then some ([], s)
      else if c = 92 then
        match s with
        | [] => none
        | d :: s => (splitString s).map fun p ↦ (c :: d :: p.1, p.2)
      else (splitString s).map fun p ↦ (c :: p.1, p.2)

def hexValue (c : UInt8) : Option ℕ :=
  if 48 ≤ c ∧ c ≤ 57 then some (c.toNat - 48)
  else if 65 ≤ c ∧ c ≤ 70 then some (c.toNat - 55)
  else if 97 ≤ c ∧ c ≤ 102 then some (c.toNat - 87)
  else none

def hexQuad (a b c d : UInt8) : Option ℕ :=
  (hexValue a).bind fun a ↦ (hexValue b).bind fun b ↦ (hexValue c).bind fun c ↦
    (hexValue d).map fun d ↦ ((a * 16 + b) * 16 + c) * 16 + d

def escapeByte (c : UInt8) : Option UInt8 :=
  if c = 34 ∨ c = 92 ∨ c = 47 then some c
  else if c = 98 then some 8
  else if c = 102 then some 12
  else if c = 110 then some 10
  else if c = 114 then some 13
  else if c = 116 then some 9
  else none

/-- The bytes of a high surrogate that no low one follows. -/
def unpaired (high : Option ℕ) : Bytes := if high.isSome then encodeUtf8 65533 else []

/-- The bytes of a code unit after the high surrogate in front of it, if any. -/
def encodeUnit (high : Option ℕ) (n : ℕ) : Bytes :=
  if 56320 ≤ n ∧ n < 57344 then
    match high with
    | some h => encodeUtf8 (65536 + (h - 55296) * 1024 + (n - 56320))
    | none => encodeUtf8 65533
  else unpaired high ++ encodeUtf8 n

/-- Decodes what stands between two quotes; `high` is a high surrogate just
read. -/
def unescape : Option ℕ → Bytes → Option Bytes
  | high, [] => some (unpaired high)
  | high, c :: s =>
      if c = 92 then
        match s with
        | [] => none
        | e :: s =>
            if e = 117 then
              match s with
              | a :: b :: c :: d :: s =>
                  (hexQuad a b c d).bind fun n ↦
                    if 55296 ≤ n ∧ n < 56320 then
                      (unescape (some n) s).map fun t ↦ unpaired high ++ t
                    else (unescape none s).map fun t ↦ encodeUnit high n ++ t
              | _ => none
            else (escapeByte e).bind fun x ↦
              (unescape none s).map fun t ↦ unpaired high ++ x :: t
      else if c < 32 ∨ c = 34 then none
      else (unescape none s).map fun t ↦ unpaired high ++ c :: t

/-- Reads a string from behind its opening quote. -/
def parseString (s : Bytes) : Option (Bytes × Bytes) :=
  (splitString s).bind fun p ↦ (unescape none p.1).map fun t ↦ (t, p.2)

/-! ## Values -/

inductive Value
  | null
  | bool (b : Bool)
  | number (text : Bytes)
  | string (text : Bytes)
  | array (elements : List Value)
  | object (members : List (Bytes × Value))

def isWs (c : UInt8) : Bool := c == 32 || c == 9 || c == 10 || c == 13

/-- Skips white space and then the byte `c`. -/
def expect (c : UInt8) (s : Bytes) : Option Bytes :=
  match s.dropWhile isWs with
  | [] => none
  | b :: s => if b = c then some s else none

/-- One or more digits. -/
def scanDigits (s : Bytes) : Option (Bytes × Bytes) :=
  if s.takeWhile Decimal.isDigit = [] then none
  else some (s.takeWhile Decimal.isDigit, s.dropWhile Decimal.isDigit)

def scanInt : Bytes → Option (Bytes × Bytes)
  | [] => none
  | c :: s => if c = 48 then some ([48], s) else scanDigits (c :: s)

def scanFrac : Bytes → Option (Bytes × Bytes)
  | [] => some ([], [])
  | c :: s =>
      if c = 46 then (scanDigits s).map fun p ↦ (c :: p.1, p.2)
      else some ([], c :: s)

def scanExp : Bytes → Option (Bytes × Bytes)
  | [] => some ([], [])
  | c :: s =>
      if c = 101 ∨ c = 69 then
        match s with
        | [] => none
        | d :: t =>
            if d = 43 ∨ d = 45 then (scanDigits t).map fun p ↦ (c :: d :: p.1, p.2)
            else (scanDigits s).map fun p ↦ (c :: p.1, p.2)
      else some ([], c :: s)

def scanNumber (s : Bytes) : Option (Bytes × Bytes) :=
  let minus := s.take 1 = [45]
  (scanInt (if minus then s.drop 1 else s)).bind fun int ↦
    (scanFrac int.2).bind fun frac ↦
      (scanExp frac.2).map fun exp ↦
        ((if minus then [45] else []) ++ int.1 ++ frac.1 ++ exp.1, exp.2)

def parseScalar (s : Bytes) : Option (Value × Bytes) :=
  if ascii "null" <+: s then some (.null, s.drop 4)
  else if ascii "true" <+: s then some (.bool true, s.drop 4)
  else if ascii "false" <+: s then some (.bool false, s.drop 5)
  else (scanNumber s).map fun p ↦ (.number p.1, p.2)

mutual

def parseValue : ℕ → Bytes → Option (Value × Bytes)
  | 0, _ => none
  | fuel + 1, s =>
      match expect 34 s with
      | some s => (parseString s).map fun p ↦ (.string p.1, p.2)
      | none =>
          match expect 123 s with
          | some s =>
              match expect 125 s with
              | some s => some (.object [], s)
              | none => (parseMembers fuel s).map fun p ↦ (.object p.1, p.2)
          | none =>
              match expect 91 s with
              | some s =>
                  match expect 93 s with
                  | some s => some (.array [], s)
                  | none => (parseElements fuel s).map fun p ↦ (.array p.1, p.2)
              | none => parseScalar (s.dropWhile isWs)

/-- One member and those that follow it, up to the closing brace. -/
def parseMembers : ℕ → Bytes → Option (List (Bytes × Value) × Bytes)
  | 0, _ => none
  | fuel + 1, s =>
      (expect 34 s).bind fun s ↦ (parseString s).bind fun key ↦
        (expect 58 key.2).bind fun s ↦ (parseValue fuel s).bind fun value ↦
          (parseMoreMembers fuel value.2).map fun p ↦ ((key.1, value.1) :: p.1, p.2)

def parseMoreMembers : ℕ → Bytes → Option (List (Bytes × Value) × Bytes)
  | 0, _ => none
  | fuel + 1, s =>
      match expect 44 s with
      | some s => parseMembers fuel s
      | none => (expect 125 s).map fun s ↦ ([], s)

def parseElements : ℕ → Bytes → Option (List Value × Bytes)
  | 0, _ => none
  | fuel + 1, s =>
      (parseValue fuel s).bind fun value ↦
        match expect 44 value.2 with
        | some s => (parseElements fuel s).map fun p ↦ (value.1 :: p.1, p.2)
        | none => (expect 93 value.2).map fun s ↦ ([value.1], s)

end

/-- Reads a whole text. -/
def parse (text : Bytes) : Option Value :=
  if isUtf8 text then
    (parseValue (text.length + 1) text).bind fun p ↦
      if p.2.dropWhile isWs = [] then some p.1 else none
  else none

/-! ## Texts around ASCII bytes -/

theorem followers_high : ∀ a,
    (followers a).all (fun ranges ↦ ranges.all fun r ↦ decide (128 ≤ r.1)) = true :=
  CString.forall_byte (by decide +kernel)

theorem followers_spec {a : UInt8} {ranges : List (UInt8 × UInt8)}
    (h : followers a = some ranges) : ∀ r ∈ ranges, 128 ≤ r.1 := by
  intro r hr
  have hall := followers_high a
  rw [h, Option.all_some] at hall
  simpa using List.all_eq_true.mp hall r hr

theorem followers_ascii {a : UInt8} (ha : a < 128) : followers a = some [] := if_pos ha

theorem isUtf8From_append_ascii {c : UInt8} (hc : c < 128) (t : Bytes) {ranges : List (UInt8 × UInt8)}
    (hranges : ∀ r ∈ ranges, 128 ≤ r.1) (s : Bytes) :
    isUtf8From ranges (s ++ c :: t) = (isUtf8From ranges s && isUtf8 t) := by
  induction s generalizing ranges with
  | nil =>
      cases ranges with
      | nil => simp only [List.nil_append, isUtf8From, followers_ascii hc, isUtf8, Bool.true_and]
      | cons r ranges =>
          have hlow : ¬ r.1 ≤ c :=
            UInt8.not_le.mpr (UInt8.lt_of_lt_of_le hc (hranges r List.mem_cons_self))
          simp [isUtf8From, hlow]
  | cons a s ih =>
      cases ranges with
      | nil =>
          rw [List.cons_append, isUtf8From, isUtf8From]
          cases hfollow : followers a with
          | none => rfl
          | some ranges => exact ih (followers_spec hfollow)
      | cons r ranges =>
          rw [List.cons_append, isUtf8From, isUtf8From,
            ih fun r' hr' ↦ hranges r' (List.mem_cons_of_mem _ hr')]
          simp only [Bool.and_assoc]

theorem isUtf8_append_ascii {c : UInt8} (hc : c < 128) (s t : Bytes) :
    isUtf8 (s ++ c :: t) = (isUtf8 s && isUtf8 t) :=
  isUtf8From_append_ascii hc t (by simp) s

def isAscii (s : Bytes) : Bool := s.all fun c ↦ decide (c < 128)

theorem isUtf8_ascii_append {lit : Bytes} (hlit : isAscii lit = true) (s : Bytes) :
    isUtf8 (lit ++ s) = isUtf8 s := by
  induction lit with
  | nil => rfl
  | cons c lit ih =>
      rw [isAscii, List.all_cons, Bool.and_eq_true] at hlit
      rw [List.cons_append, ← ih hlit.2]
      exact isUtf8_append_ascii (of_decide_eq_true hlit.1) [] (lit ++ s)

/-! ## Reading strings -/

theorem splitString_quote (s : Bytes) : splitString (34 :: s) = some ([], s) := by
  rw [splitString.eq_def]
  rfl

theorem splitString_escape (d : UInt8) (s : Bytes) :
    splitString (92 :: d :: s) = (splitString s).map fun p ↦ (92 :: d :: p.1, p.2) := by
  rw [splitString.eq_def]
  rfl

theorem splitString_cons {c : UInt8} (hquote : c ≠ 34) (hslash : c ≠ 92) (s : Bytes) :
    splitString (c :: s) = (splitString s).map fun p ↦ (c :: p.1, p.2) := by
  rw [splitString.eq_def]
  exact (if_neg hquote).trans (if_neg hslash)

theorem splitString_eq_some {s raw rest : Bytes} (h : splitString s = some (raw, rest)) :
    s = raw ++ 34 :: rest := by
  fun_induction splitString s generalizing raw with
  | case1 => cases h
  | case2 s => cases h; rfl
  | case3 => cases h
  | case4 d s hquote ih =>
      obtain ⟨p, hp, heq⟩ := Option.map_eq_some_iff.mp h
      cases heq
      rw [ih hp]
      rfl
  | case5 c s hquote hslash ih =>
      obtain ⟨p, hp, heq⟩ := Option.map_eq_some_iff.mp h
      cases heq
      rw [ih hp]
      rfl

/-- A string body without quotes ends at the quote behind it, or its last
backslash escapes that quote. -/
theorem splitString_append_quote {s : Bytes} (hs : (34 : UInt8) ∉ s) :
    (∀ t, splitString (s ++ 34 :: t) = some (s, t)) ∨
      ∀ t, splitString (s ++ 34 :: t) = (splitString t).map fun p ↦ (s ++ 34 :: p.1, p.2) := by
  fun_induction splitString s with
  | case1 => exact .inl splitString_quote
  | case2 s => simp at hs
  | case3 => exact .inr (splitString_escape 34)
  | case4 d s hquote ih =>
      obtain hend | hopen := ih fun h ↦ hs (by simp [h])
      · exact .inl fun t ↦ by simp [splitString_escape, hend]
      · exact .inr fun t ↦ by simp [splitString_escape, hopen, Function.comp_def]
  | case5 c s hquote hslash ih =>
      obtain hend | hopen := ih fun h ↦ hs (by simp [h])
      · exact .inl fun t ↦ by simp [splitString_cons hquote hslash, hend]
      · exact .inr fun t ↦ by simp [splitString_cons hquote hslash, hopen, Function.comp_def]

/-- Bytes that stand for themselves in a string. -/
def Plain (s : Bytes) : Prop := ∀ c ∈ s, 32 ≤ c ∧ c ≠ 34 ∧ c ≠ 92

instance (s : Bytes) : Decidable (Plain s) := List.decidableBAll _ s

theorem splitString_plain {s : Bytes} (hs : Plain s) (t : Bytes) :
    splitString (s ++ 34 :: t) = some (s, t) := by
  induction s with
  | nil => exact splitString_quote t
  | cons c s ih =>
      obtain ⟨-, hquote, hslash⟩ := hs c List.mem_cons_self
      have hrest := ih fun d hd ↦ hs d (List.mem_cons_of_mem _ hd)
      rw [List.cons_append, splitString_cons hquote hslash, hrest]
      rfl

theorem unescape_plain {s : Bytes} (hs : Plain s) : unescape none s = some s := by
  induction s with
  | nil => rfl
  | cons c s ih =>
      obtain ⟨hcontrol, hquote, hslash⟩ := hs c List.mem_cons_self
      have hrest := ih fun d hd ↦ hs d (List.mem_cons_of_mem _ hd)
      have hbad : ¬ (c < 32 ∨ c = 34) := not_or.mpr ⟨UInt8.not_lt.mpr hcontrol, hquote⟩
      rw [unescape.eq_def]
      dsimp only
      rw [if_neg hslash, if_neg hbad, hrest]
      rfl

theorem parseString_plain {s : Bytes} (hs : Plain s) (t : Bytes) :
    parseString (s ++ 34 :: t) = some (s, t) := by
  simp [parseString, splitString_plain hs, unescape_plain hs]

/-! ## What decoding costs -/

theorem escapeByte_printable : ∀ e,
    (escapeByte e).all (fun x ↦ decide (32 ≤ e ∧ (e = 34 → x = 34))) = true :=
  CString.forall_byte (by decide +kernel)

theorem escapeByte_spec {e x : UInt8} (h : escapeByte e = some x) :
    32 ≤ e ∧ (e = 34 → x = 34) := by
  have hall := escapeByte_printable e
  rw [h, Option.all_some] at hall
  exact of_decide_eq_true hall

theorem hexValue_spec : ∀ c, (hexValue c).isSome → 32 ≤ c ∧ c ≠ 34 :=
  CString.forall_byte (by decide +kernel)

theorem hexValue_lt : ∀ c, ∀ n ∈ hexValue c, n < 16 :=
  CString.forall_byte (by decide +kernel)

theorem hexQuad_spec {a b c d : UInt8} {n : ℕ} (h : hexQuad a b c d = some n) :
    n < 65536 ∧ ∀ x ∈ [a, b, c, d], 32 ≤ x ∧ x ≠ 34 := by
  obtain ⟨na, ha, h⟩ := Option.bind_eq_some_iff.mp h
  obtain ⟨nb, hb, h⟩ := Option.bind_eq_some_iff.mp h
  obtain ⟨nc, hc, h⟩ := Option.bind_eq_some_iff.mp h
  obtain ⟨nd, hd, rfl⟩ := Option.map_eq_some_iff.mp h
  have ha' := hexValue_lt a na ha
  have hb' := hexValue_lt b nb hb
  have hc' := hexValue_lt c nc hc
  have hd' := hexValue_lt d nd hd
  refine ⟨by omega, fun x hx ↦ hexValue_spec x ?_⟩
  simp only [List.mem_cons, List.not_mem_nil, or_false] at hx
  obtain rfl | rfl | rfl | rfl := hx
  · simp [ha]
  · simp [hb]
  · simp [hc]
  · simp [hd]

theorem printable_quad {a b c d : UInt8} {n : ℕ} (hn : hexQuad a b c d = some n) {s : Bytes}
    (hs : ∀ x ∈ s, 32 ≤ x) : ∀ x ∈ 92 :: 117 :: a :: b :: c :: d :: s, 32 ≤ x := by
  have hhex := (hexQuad_spec hn).2
  simp only [List.forall_mem_cons] at hhex ⊢
  exact ⟨by decide, by decide, hhex.1.1, hhex.2.1.1, hhex.2.2.1.1, hhex.2.2.2.1.1, hs⟩

theorem count_quote_quad {a b c d : UInt8} {n : ℕ} (hn : hexQuad a b c d = some n) (s : Bytes) :
    (92 :: 117 :: a :: b :: c :: d :: s).count 34 = s.count 34 := by
  have hhex := (hexQuad_spec hn).2
  simp only [List.forall_mem_cons] at hhex
  simp [hhex.1.2, hhex.2.1.2, hhex.2.2.1.2, hhex.2.2.2.1.2]

theorem length_encodeUtf8_le (n : ℕ) : (encodeUtf8 n).length ≤ 4 := by
  unfold encodeUtf8
  split_ifs <;> simp

theorem length_encodeUtf8_unit {n : ℕ} (hn : n < 65536) : (encodeUtf8 n).length ≤ 3 := by
  unfold encodeUtf8
  split_ifs <;> simp

/-- What a high surrogate may still cost, out of the six bytes it was written
with. -/
def owed : Option ℕ → ℕ
  | none => 0
  | some _ => 5

theorem length_unpaired_le (high : Option ℕ) : (unpaired high).length ≤ owed high := by
  cases high with
  | none => exact le_rfl
  | some h =>
      change (encodeUtf8 65533).length ≤ 5
      decide

theorem length_encodeUnit_le (high : Option ℕ) {n : ℕ} (hn : n < 65536) :
    (encodeUnit high n).length ≤ 5 + owed high := by
  have hunpaired := length_unpaired_le high
  have hunit := length_encodeUtf8_unit hn
  unfold encodeUnit
  split_ifs
  · have hpair := length_encodeUtf8_le
    cases high with
    | none => exact (hpair _).trans (by omega)
    | some h => exact (hpair _).trans (by omega)
  · rw [List.length_append]
    omega

/-- The steps of a successful decoding. -/
inductive Decodes : Option ℕ → Bytes → Bytes → Prop
  | nil (high : Option ℕ) : Decodes high [] (unpaired high)
  | plain {high : Option ℕ} {c : UInt8} {s t : Bytes} (hc : 32 ≤ c ∧ c ≠ 34 ∧ c ≠ 92)
      (h : Decodes none s t) : Decodes high (c :: s) (unpaired high ++ c :: t)
  | escape {high : Option ℕ} {e x : UInt8} {s t : Bytes} (he : escapeByte e = some x)
      (h : Decodes none s t) : Decodes high (92 :: e :: s) (unpaired high ++ x :: t)
  | surrogate {high : Option ℕ} {a b c d : UInt8} {n : ℕ} {s t : Bytes}
      (hn : hexQuad a b c d = some n) (h : Decodes (some n) s t) :
      Decodes high (92 :: 117 :: a :: b :: c :: d :: s) (unpaired high ++ t)
  | unit {high : Option ℕ} {a b c d : UInt8} {n : ℕ} {s t : Bytes}
      (hn : hexQuad a b c d = some n) (h : Decodes none s t) :
      Decodes high (92 :: 117 :: a :: b :: c :: d :: s) (encodeUnit high n ++ t)

theorem decodes_of_unescape {high : Option ℕ} {s t : Bytes} (h : unescape high s = some t) :
    Decodes high s t := by
  fun_induction unescape high s generalizing t with
  | case1 high =>
      cases h
      exact .nil high
  | case2 high => cases h
  | case3 high a b c d s ihhigh ihnone =>
      obtain ⟨n, hn, h⟩ := Option.bind_eq_some_iff.mp h
      split_ifs at h
      · obtain ⟨t, ht, rfl⟩ := Option.map_eq_some_iff.mp h
        exact .surrogate hn (ihhigh n ht)
      · obtain ⟨t, ht, rfl⟩ := Option.map_eq_some_iff.mp h
        exact .unit hn (ihnone ht)
  | case4 high s hshort => cases h
  | case5 high e s he ih =>
      obtain ⟨x, hx, h⟩ := Option.bind_eq_some_iff.mp h
      obtain ⟨t, ht, rfl⟩ := Option.map_eq_some_iff.mp h
      exact .escape hx (ih ht)
  | case6 high c s hslash hbad => cases h
  | case7 high c s hslash hbad ih =>
      obtain ⟨t, ht, rfl⟩ := Option.map_eq_some_iff.mp h
      obtain ⟨hcontrol, hquote⟩ := not_or.mp hbad
      exact .plain ⟨UInt8.not_lt.mp hcontrol, hquote, hslash⟩ (ih ht)

/-- A decoded string is no longer than its text, and shorter where a backslash
stands in it. -/
theorem Decodes.length_le {high : Option ℕ} {s t : Bytes} (h : Decodes high s t) :
    t.length ≤ s.length + owed high ∧ (92 ∈ s → t.length < s.length + owed high) := by
  induction h with
  | nil high => exact ⟨(length_unpaired_le high).trans (by simp), by simp⟩
  | @plain high c s t hc h ih =>
      have hhigh := length_unpaired_le high
      have howed : owed none = 0 := rfl
      simp only [List.length_append, List.length_cons, List.mem_cons, hc.2.2.symm, false_or]
      exact ⟨by omega, fun hslash ↦ by have := ih.2 hslash; omega⟩
  | @escape high e x s t he h ih =>
      have hhigh := length_unpaired_le high
      have howed : owed none = 0 := rfl
      simp only [List.length_append, List.length_cons]
      exact ⟨by omega, fun _ ↦ by omega⟩
  | @surrogate high a b c d n s t hn h ih =>
      have hhigh := length_unpaired_le high
      have howed : owed (some n) = 5 := rfl
      simp only [List.length_append, List.length_cons]
      exact ⟨by omega, fun _ ↦ by omega⟩
  | @unit high a b c d n s t hn h ih =>
      have hunit := length_encodeUnit_le high (hexQuad_spec hn).1
      have howed : owed none = 0 := rfl
      simp only [List.length_append, List.length_cons]
      exact ⟨by omega, fun _ ↦ by omega⟩

/-- A string has no control characters in its text. -/
theorem Decodes.printable {high : Option ℕ} {s t : Bytes} (h : Decodes high s t) :
    ∀ c ∈ s, 32 ≤ c := by
  induction h with
  | nil high => simp
  | plain hc h ih => exact List.forall_mem_cons.mpr ⟨hc.1, ih⟩
  | escape he h ih =>
      exact List.forall_mem_cons.mpr ⟨by decide,
        List.forall_mem_cons.mpr ⟨(escapeByte_spec he).1, ih⟩⟩
  | surrogate hn h ih => exact printable_quad hn ih
  | unit hn h ih => exact printable_quad hn ih

/-- The quotes in the text of a string are escaped ones. -/
theorem Decodes.count_quote_le {high : Option ℕ} {s t : Bytes} (h : Decodes high s t) :
    s.count 34 ≤ t.count 34 := by
  induction h with
  | nil high => simp
  | plain hc h ih =>
      rw [List.count_cons_of_ne hc.2.1, List.count_append, List.count_cons_of_ne hc.2.1]
      omega
  | @escape high e x s t he h ih =>
      rw [List.count_cons_of_ne (by decide), List.count_append, List.count_cons, List.count_cons]
      by_cases hquote : e = 34
      · rw [(escapeByte_spec he).2 hquote, hquote]
        omega
      · simp [hquote]
        omega
  | surrogate hn h ih =>
      rw [count_quote_quad hn, List.count_append]
      omega
  | unit hn h ih =>
      rw [count_quote_quad hn, List.count_append]
      omega

theorem Decodes.plain_of_notMem {high : Option ℕ} {s t : Bytes} (h : Decodes high s t)
    (hs : (92 : UInt8) ∉ s) : Plain s := by
  induction h with
  | nil high => exact fun c hc ↦ absurd hc (by simp)
  | plain hc h ih =>
      exact List.forall_mem_cons.mpr ⟨hc, ih fun hmem ↦ hs (List.mem_cons_of_mem _ hmem)⟩
  | escape he h ih => simp at hs
  | surrogate hn h ih => simp at hs
  | unit hn h ih => simp at hs

/-! ## Where a string ends -/

theorem parseString_eq_some {s t rest : Bytes} (h : parseString s = some (t, rest)) :
    ∃ raw, s = raw ++ 34 :: rest ∧ Decodes none raw t := by
  obtain ⟨⟨raw, r⟩, hsplit, h⟩ := Option.bind_eq_some_iff.mp h
  obtain ⟨t', ht, heq⟩ := Option.map_eq_some_iff.mp h
  cases heq
  exact ⟨raw, splitString_eq_some hsplit, decodes_of_unescape ht⟩

/-- Two ways to cut a list at an element: at the same place, or one before the
other. -/
theorem append_cons_cases {pre pre' post post' : Bytes} {a b : UInt8}
    (h : pre ++ a :: post = pre' ++ b :: post') :
    (pre = pre' ∧ a = b ∧ post = post') ∨ (∃ more, pre = pre' ++ b :: more) ∨
      ∃ more, pre' = pre ++ a :: more := by
  obtain ⟨more, hpre, htail⟩ | ⟨more, hpre, htail⟩ := List.append_eq_append_iff.mp h
  · cases more with
    | nil =>
        obtain ⟨rfl, rfl⟩ := List.cons.inj htail
        exact .inl ⟨by simpa using hpre.symm, rfl, rfl⟩
    | cons c more =>
        obtain ⟨rfl, -⟩ := List.cons.inj htail
        exact .inr (.inr ⟨more, hpre⟩)
  · cases more with
    | nil =>
        obtain ⟨rfl, rfl⟩ := List.cons.inj htail
        exact .inl ⟨by simpa using hpre, rfl, rfl⟩
    | cons c more =>
        obtain ⟨rfl, -⟩ := List.cons.inj htail
        exact .inr (.inl ⟨more, hpre⟩)

/-- A string ends in front of a control character. -/
theorem parseString_before_control {pre post t rest : Bytes} {c : UInt8} (hc : c < 32)
    (h : parseString (pre ++ c :: post) = some (t, rest)) :
    (34 : UInt8) ∈ pre ∧ t.length < pre.length := by
  obtain ⟨raw, hraw, hdecodes⟩ := parseString_eq_some h
  obtain ⟨-, hquote, -⟩ | ⟨more, rfl⟩ | ⟨more, rfl⟩ := append_cons_cases hraw
  · exact absurd (hquote ▸ hc) (by decide)
  · have hlen : t.length ≤ raw.length := hdecodes.length_le.1
    refine ⟨by simp, ?_⟩
    rw [List.length_append, List.length_cons]
    omega
  · have hcontrol := hdecodes.printable c (by simp)
    exact absurd hcontrol (UInt8.not_le.mpr hc)

/-- Only plain text between quotes reads as itself. -/
theorem plain_of_parseString {s t rest : Bytes} (h : parseString (s ++ 34 :: t) = some (s, rest)) :
    Plain s ∧ rest = t := by
  obtain ⟨raw, hraw, hdecodes⟩ := parseString_eq_some h
  have hlen : s.length ≤ raw.length := hdecodes.length_le.1
  obtain ⟨rfl, -, rfl⟩ | ⟨more, hmore⟩ | ⟨more, rfl⟩ := append_cons_cases hraw
  · refine ⟨hdecodes.plain_of_notMem fun hslash ↦ ?_, rfl⟩
    exact absurd (hdecodes.length_le.2 hslash) (lt_irrefl _)
  · rw [hmore, List.length_append, List.length_cons] at hlen
    omega
  · have hcount := hdecodes.count_quote_le
    rw [List.count_append, List.count_cons_self] at hcount
    omega

/-- Bytes that can stand between two quotes. -/
def IsBody (s : Bytes) : Prop := (parseString (s ++ [34])).isSome

instance (s : Bytes) : Decidable (IsBody s) := inferInstanceAs (Decidable (_ = true))

theorem isBody_iff {s : Bytes} (hs : (34 : UInt8) ∉ s) :
    IsBody s ↔ ∃ t, ∀ rest, parseString (s ++ 34 :: rest) = some (t, rest) := by
  constructor
  · intro h
    obtain hend | hopen := splitString_append_quote hs
    · unfold IsBody parseString at h
      rw [hend, Option.bind_some, Option.isSome_map] at h
      obtain ⟨t, ht⟩ := Option.isSome_iff_exists.mp h
      exact ⟨t, fun rest ↦ by simp [parseString, hend, ht]⟩
    · unfold IsBody parseString at h
      rw [hopen] at h
      cases h
  · rintro ⟨t, ht⟩
    rw [IsBody, ht []]
    rfl

/-- Text without quotes is the body of a string, or its last backslash makes
the string go on behind the next quote. -/
theorem isBody_or_of_parseString {s t u rest : Bytes} (hs : (34 : UInt8) ∉ s)
    (h : parseString (s ++ 34 :: u) = some (t, rest)) :
    (IsBody s ∧ rest = u) ∨ ∃ raw, splitString u = some (raw, rest) := by
  obtain hend | hopen := splitString_append_quote hs
  · unfold parseString at h
    rw [hend, Option.bind_some] at h
    obtain ⟨t', ht, heq⟩ := Option.map_eq_some_iff.mp h
    cases heq
    exact .inl ⟨(isBody_iff hs).mpr ⟨t, fun rest ↦ by simp [parseString, hend, ht]⟩, rfl⟩
  · obtain ⟨p, hp, h⟩ := Option.bind_eq_some_iff.mp h
    rw [hopen] at hp
    obtain ⟨q, hq, rfl⟩ := Option.map_eq_some_iff.mp hp
    obtain ⟨t', -, heq⟩ := Option.map_eq_some_iff.mp h
    cases heq
    exact .inr ⟨q.1, hq⟩

/-! ## Objects -/

theorem expect_cons {c : UInt8} (hc : isWs c = false) (s : Bytes) : expect c (c :: s) = some s := by
  simp [expect, hc]

theorem expect_cons_of_ne {b c : UInt8} (hb : isWs b = false) (hne : b ≠ c) (s : Bytes) :
    expect c (b :: s) = none := by
  simp [expect, hb, hne]

theorem parseValue_string (fuel : ℕ) (s : Bytes) :
    parseValue (fuel + 1) (34 :: s) = (parseString s).map fun p ↦ (.string p.1, p.2) := by
  rw [parseValue, expect_cons (by decide)]

/-- A member with a string as its value. -/
theorem parseMembers_string {key : Bytes} (hkey : Plain key) (fuel : ℕ) (s : Bytes) :
    parseMembers (fuel + 2) (34 :: (key ++ 34 :: 58 :: 34 :: s)) =
      (parseString s).bind fun value ↦ (parseMoreMembers (fuel + 1) value.2).map fun p ↦
        ((key, .string value.1) :: p.1, p.2) := by
  rw [parseMembers, expect_cons (by decide), Option.bind_some, parseString_plain hkey,
    Option.bind_some, expect_cons (by decide), Option.bind_some, parseValue_string,
    Option.bind_map]
  rfl

theorem parseMoreMembers_comma (fuel : ℕ) (s : Bytes) :
    parseMoreMembers (fuel + 1) (44 :: s) = parseMembers fuel s := by
  rw [parseMoreMembers, expect_cons (by decide)]

theorem parseMoreMembers_brace (fuel : ℕ) (s : Bytes) :
    parseMoreMembers (fuel + 1) (125 :: s) = some ([], s) := by
  rw [parseMoreMembers, expect_cons_of_ne (by decide) (by decide), expect_cons (by decide)]
  rfl

theorem parseMoreMembers_of_ne {b : UInt8} (hb : isWs b = false) (hcomma : b ≠ 44)
    (hbrace : b ≠ 125) (fuel : ℕ) (s : Bytes) : parseMoreMembers (fuel + 1) (b :: s) = none := by
  rw [parseMoreMembers, expect_cons_of_ne hb hcomma, expect_cons_of_ne hb hbrace]
  rfl

theorem parseValue_object (fuel : ℕ) (s : Bytes) :
    parseValue (fuel + 1) (123 :: 34 :: s) =
      (parseMembers fuel (34 :: s)).map fun p ↦ (.object p.1, p.2) := by
  rw [parseValue, expect_cons_of_ne (by decide) (by decide)]
  dsimp only
  rw [expect_cons (by decide)]
  dsimp only
  rw [expect_cons_of_ne (by decide) (by decide)]

/-- A text that starts as an object with a first member. -/
theorem parse_object (s : Bytes) :
    parse (123 :: 34 :: s) =
      if isUtf8 s then
        (parseMembers (s.length + 2) (34 :: s)).bind fun p ↦
          if p.2.dropWhile isWs = [] then some (.object p.1) else none
      else none := by
  have hutf8 : isUtf8 (123 :: 34 :: s) = isUtf8 s :=
    @isUtf8_ascii_append [123, 34] (by decide) s
  rw [parse, hutf8, List.length_cons, List.length_cons, parseValue_object, Option.bind_map]
  rfl

end Json
