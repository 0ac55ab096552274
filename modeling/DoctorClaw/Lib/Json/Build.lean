import DoctorClaw.Lib.Escape
import DoctorClaw.Lib.Json.Flat
import Mathlib.Tactic.Common

/-!
# Building texts

A text reads as a value where it does so in front of every token that may
follow a value.  Such texts are put together to texts of arrays and objects,
with commas and without white space between them.
-/

namespace Json

/-! ## Numbers in front of other tokens -/

/-- What may stand behind a value. -/
def Ends (rest : Bytes) : Prop := ∀ c ∈ rest.head?, c = 44 ∨ c = 93 ∨ c = 125

variable {rest s t r : Bytes}

theorem ends_comma (rest : Bytes) : Ends (44 :: rest) := fun _ hc ↦ .inl (Option.some.inj hc).symm

theorem ends_bracket (rest : Bytes) : Ends (93 :: rest) :=
  fun _ hc ↦ .inr (.inl (Option.some.inj hc).symm)

theorem ends_brace (rest : Bytes) : Ends (125 :: rest) :=
  fun _ hc ↦ .inr (.inr (Option.some.inj hc).symm)

theorem Ends.head {c : UInt8} (h : Ends (c :: rest)) :
    Decimal.isDigit c = false ∧ c ≠ 46 ∧ ¬ (c = 101 ∨ c = 69) := by
  obtain rfl | rfl | rfl := h c rfl <;> decide

theorem Ends.takeWhile_isDigit (h : Ends rest) : rest.takeWhile Decimal.isDigit = [] := by
  cases rest with
  | nil => rfl
  | cons c rest => exact List.takeWhile_cons_of_neg (Bool.eq_false_iff.mp h.head.1)

theorem scanDigits_append (h : scanDigits s = some (t, r)) (hrest : Ends rest) :
    scanDigits (s ++ rest) = some (t, r ++ rest) := by
  unfold scanDigits at h
  split_ifs at h with hnil
  cases h
  have htake : (s ++ rest).takeWhile Decimal.isDigit = s.takeWhile Decimal.isDigit := by
    rw [List.takeWhile_append, hrest.takeWhile_isDigit, List.append_nil]
    split_ifs with hall
    · exact ((List.takeWhile_prefix _).eq_of_length hall).symm
    · rfl
  have hdrop : (s ++ rest).dropWhile Decimal.isDigit = s.dropWhile Decimal.isDigit ++ rest := by
    have hsplit := @List.takeWhile_append_dropWhile _ Decimal.isDigit (s ++ rest)
    conv at hsplit => rhs; rw [← @List.takeWhile_append_dropWhile _ Decimal.isDigit s]
    rw [htake, List.append_assoc] at hsplit
    exact List.append_cancel_left hsplit
  rw [scanDigits, htake, if_neg hnil, hdrop]

theorem scanInt_append (h : scanInt s = some (t, r)) (hrest : Ends rest) :
    scanInt (s ++ rest) = some (t, r ++ rest) := by
  cases s with
  | nil => cases h
  | cons c s =>
      rw [scanInt] at h
      rw [List.cons_append, scanInt]
      split_ifs at h ⊢ with hzero
      · cases h
        rfl
      · exact scanDigits_append h hrest

theorem scanFrac_append (h : scanFrac s = some (t, r)) (hrest : Ends rest) :
    scanFrac (s ++ rest) = some (t, r ++ rest) := by
  cases s with
  | nil =>
      cases h
      cases rest with
      | nil => rfl
      | cons c rest => exact if_neg hrest.head.2.1
  | cons c s =>
      rw [scanFrac] at h
      rw [List.cons_append, scanFrac]
      split_ifs at h ⊢ with hpoint
      · obtain ⟨p, hp, heq⟩ := Option.map_eq_some_iff.mp h
        cases heq
        rw [scanDigits_append hp hrest]
        rfl
      · cases h
        rfl

theorem scanExp_append (h : scanExp s = some (t, r)) (hrest : Ends rest) :
    scanExp (s ++ rest) = some (t, r ++ rest) := by
  cases s with
  | nil =>
      cases h
      cases rest with
      | nil => rfl
      | cons c rest =>
          rw [List.nil_append, scanExp.eq_def]
          exact if_neg hrest.head.2.2
  | cons c s =>
      rw [scanExp.eq_def] at h
      rw [List.cons_append, scanExp.eq_def]
      dsimp only at h ⊢
      split_ifs at h ⊢ with hexp
      · cases s with
        | nil => cases h
        | cons d t =>
            rw [List.cons_append]
            dsimp only at h ⊢
            split_ifs at h ⊢ with hsign
            · obtain ⟨p, hp, heq⟩ := Option.map_eq_some_iff.mp h
              cases heq
              rw [scanDigits_append hp hrest]
              rfl
            · obtain ⟨p, hp, heq⟩ := Option.map_eq_some_iff.mp h
              cases heq
              rw [← List.cons_append, scanDigits_append hp hrest]
              rfl
      · cases h
        rfl

theorem scanNumber_append (h : scanNumber s = some (t, r)) (hrest : Ends rest) :
    scanNumber (s ++ rest) = some (t, r ++ rest) := by
  cases s with
  | nil => cases h
  | cons c s =>
      obtain ⟨⟨i, r₁⟩, hint, h⟩ := Option.bind_eq_some_iff.mp h
      obtain ⟨⟨f, r₂⟩, hfrac, h⟩ := Option.bind_eq_some_iff.mp h
      obtain ⟨⟨e, r₃⟩, hexp, heq⟩ := Option.map_eq_some_iff.mp h
      cases heq
      have htake : (c :: s ++ rest).take 1 = (c :: s).take 1 := rfl
      have hsplit : (if (c :: s).take 1 = [45] then (c :: s ++ rest).drop 1 else c :: s ++ rest) =
          (if (c :: s).take 1 = [45] then (c :: s).drop 1 else c :: s) ++ rest := by
        split_ifs <;> rfl
      rw [scanNumber]
      dsimp only
      rw [htake, hsplit, scanInt_append hint hrest, Option.bind_some, scanFrac_append hfrac hrest,
        Option.bind_some, scanExp_append hexp hrest]
      rfl

/-- The whole text is a number. -/
def IsNumber (text : Bytes) : Prop := scanNumber text = some (text, [])

instance (text : Bytes) : Decidable (IsNumber text) := inferInstanceAs (Decidable (_ = _))

theorem not_isPrefix_of_startsScalar : ∀ c, c = 45 ∨ Decimal.isDigit c = true →
    c ≠ 110 ∧ c ≠ 116 ∧ c ≠ 102 ∧ startsScalar c = true :=
  CString.forall_byte (by decide +kernel)

theorem IsNumber.head (h : IsNumber t) :
    ∃ c t', t = c :: t' ∧ (c = 45 ∨ Decimal.isDigit c = true) := by
  obtain ⟨⟨i, r₁⟩, hint, h⟩ := Option.bind_eq_some_iff.mp h
  cases t with
  | nil => cases hint
  | cons c t =>
      refine ⟨c, t, rfl, ?_⟩
      by_cases hminus : (c :: t).take 1 = [45]
      · exact .inl (List.cons.inj hminus).1
      · rw [if_neg hminus] at hint
        obtain ⟨hs, -, c', i', rfl, hc'⟩ := scanInt_eq_some hint
        obtain ⟨rfl, -⟩ := List.cons.inj hs
        exact .inr hc'

theorem not_isPrefix_of_head {b c : UInt8} {w t : Bytes} (hw : w.head? = some b) (hne : c ≠ b) :
    ¬ w <+: c :: t := by
  obtain ⟨w, rfl⟩ := List.head?_eq_some_iff.mp hw
  exact fun hprefix ↦ hne (List.cons_prefix_cons.mp hprefix).1.symm

theorem parseScalar_number (h : IsNumber t) (hrest : Ends rest) :
    parseScalar (t ++ rest) = some (.number t, rest) := by
  have hscan : scanNumber (t ++ rest) = some (t, rest) := scanNumber_append h hrest
  obtain ⟨c, t', rfl, hc⟩ := h.head
  obtain ⟨hnull, htrue, hfalse, -⟩ := not_isPrefix_of_startsScalar c hc
  have hother : ∀ {b : UInt8} {w : Bytes}, w.head? = some b → c ≠ b → ¬ w <+: c :: t' ++ rest :=
    not_isPrefix_of_head
  rw [parseScalar, if_neg (hother (by decide) hnull), if_neg (hother (by decide) htrue),
    if_neg (hother (by decide) hfalse), hscan]
  rfl

theorem isNumber_of_digits (hdigits : ∀ c ∈ t, Decimal.isDigit c = true) (hne : t ≠ [])
    (hzero : t = [48] ∨ t.head? ≠ some 48) : IsNumber t := by
  have htake : t.takeWhile Decimal.isDigit = t := List.takeWhile_eq_self_iff.mpr hdigits
  have hdrop : t.dropWhile Decimal.isDigit = [] := by
    rw [List.dropWhile_eq_nil_iff]
    exact hdigits
  cases t with
  | nil => exact absurd rfl hne
  | cons c t =>
      have hminus : (c :: t).take 1 ≠ [45] := fun h ↦ by
        have hc := hdigits c List.mem_cons_self
        rw [(List.cons.inj h).1] at hc
        exact absurd hc (by decide)
      have hint : scanInt (c :: t) = some (c :: t, []) := by
        rw [scanInt]
        split_ifs with h48
        · obtain heq | hhead := hzero
          · rw [heq, (List.cons.inj heq).2]
          · exact absurd (congrArg some h48) hhead
        · rw [scanDigits, if_neg (htake.symm ▸ hne), htake, hdrop]
      rw [IsNumber, scanNumber, if_neg hminus, if_neg hminus, hint]
      simp [scanFrac, scanExp]

theorem head_printNat {n : ℕ} (hn : n ≠ 0) : (Decimal.printNat n).head? ≠ some 48 := by
  induction n using Nat.strong_induction_on with
  | _ n ih =>
      rw [Decimal.printNat_eq]
      split_ifs with hlt
      · intro h
        have hdigit := Decimal.toNat_ofNat (Nat.mod_lt n (show 0 < 10 by decide))
        rw [List.nil_append, List.head?_cons, Option.some.injEq] at h
        rw [h, Nat.mod_eq_of_lt hlt] at hdigit
        exact hn hdigit.symm
      · rw [List.head?_append_of_ne_nil _ (Decimal.printNat_ne_nil _)]
        exact ih (n / 10) (by omega) (by omega)

theorem isNumber_printNat (n : ℕ) : IsNumber (Decimal.printNat n) := by
  refine isNumber_of_digits (fun _ ↦ Decimal.isDigit_of_mem_printNat) (Decimal.printNat_ne_nil n) ?_
  by_cases hn : n = 0
  · exact .inl (hn ▸ rfl)
  · exact .inr (head_printNat hn)

/-! ## Texts of values -/

/-- Texts with commas between them. -/
def joined : List Bytes → Bytes
  | [] => []
  | t :: ts => if ts = [] then t else t ++ 44 :: joined ts

def memberText (key text : Bytes) : Bytes := 34 :: (key ++ 34 :: 58 :: text)

def arrayText (ts : List Bytes) : Bytes := 91 :: (joined ts ++ [93])

def objectText (members : List (Bytes × Bytes)) : Bytes :=
  123 :: (joined (members.map fun m ↦ memberText m.1 m.2) ++ [125])

/-- The text begins with a byte that no list ends with. -/
structure Reads (v : Value) (t : Bytes) : Prop where
  head : ∃ c t', t = c :: t' ∧ isWs c = false ∧ c ≠ 93 ∧ c ≠ 125
  value : ∀ fuel, t.length < fuel → ∀ rest, Ends rest →
    parseValue fuel (t ++ rest) = some (v, rest)

variable {v : Value} {fuel : ℕ}

theorem Reads.parse (h : Reads v t) (hutf8 : isUtf8 t = true) : Json.parse t = some v := by
  have hvalue := h.value (t.length + 1) (Nat.lt_succ_self _) [] (fun c hc ↦ nomatch hc)
  rw [List.append_nil] at hvalue
  rw [Json.parse, if_pos hutf8, hvalue]
  rfl

theorem reads_string {raw text : Bytes} (hraw : ∀ t, splitString (raw ++ 34 :: t) = some (raw, t))
    (h : unescape none raw = some text) : Reads (.string text) (34 :: (raw ++ [34])) where
  head := ⟨34, _, rfl, by decide⟩
  value fuel hfuel rest _ := by
    obtain ⟨fuel, rfl⟩ : ∃ n, fuel = n + 1 := Nat.exists_eq_succ_of_ne_zero (by omega)
    rw [List.cons_append, List.append_assoc, List.singleton_append, parseValue_string,
      parseString, hraw, Option.bind_some, h]
    rfl

theorem reads_plain (h : Plain s) : Reads (.string s) (34 :: (s ++ [34])) :=
  reads_string (splitString_plain h) (unescape_plain h)

theorem reads_scalar {raw : Bytes} (hstart : ∃ c ∈ raw.head?, startsScalar c = true)
    (h : ∀ rest, Ends rest → parseScalar (raw ++ rest) = some (v, rest)) : Reads v raw := by
  have hbytes : ∀ c, startsScalar c = true →
      isWs c = false ∧ c ≠ 93 ∧ c ≠ 125 ∧ c ≠ 34 ∧ c ≠ 123 ∧ c ≠ 91 :=
    CString.forall_byte (by decide +kernel)
  obtain ⟨c, hc, hscalar⟩ := hstart
  obtain ⟨raw, rfl⟩ := List.head?_eq_some_iff.mp hc
  obtain ⟨hws, hcloses, hends, hquote, hbrace, hbracket⟩ := hbytes c hscalar
  refine ⟨⟨c, raw, rfl, hws, hcloses, hends⟩, fun fuel hfuel rest hrest ↦ ?_⟩
  obtain ⟨fuel, rfl⟩ : ∃ n, fuel = n + 1 := Nat.exists_eq_succ_of_ne_zero (by omega)
  have hparse := h rest hrest
  rw [List.cons_append] at hparse ⊢
  rw [parseValue, expect_cons_of_ne hws hquote]
  dsimp only
  rw [expect_cons_of_ne hws hbrace]
  dsimp only
  rw [expect_cons_of_ne hws hbracket]
  dsimp only
  rw [List.dropWhile_cons_of_neg (by rw [hws]; exact Bool.false_ne_true), hparse]

theorem reads_number (h : IsNumber t) : Reads (.number t) t := by
  obtain ⟨c, t', ht, hc⟩ := h.head
  exact reads_scalar ⟨c, by rw [ht]; rfl, (not_isPrefix_of_startsScalar c hc).2.2.2⟩
    fun rest hrest ↦ parseScalar_number h hrest

theorem reads_false : Reads (.bool false) (ascii "false") := by
  refine reads_scalar ⟨102, by decide, by decide⟩ fun rest _ ↦ ?_
  have hnull : ¬ ascii "null" <+: ascii "false" ++ rest :=
    not_isPrefix_of_head (b := 110) (by decide) (by decide)
  have htrue : ¬ ascii "true" <+: ascii "false" ++ rest :=
    not_isPrefix_of_head (b := 116) (by decide) (by decide)
  rw [parseScalar, if_neg hnull, if_neg htrue, if_pos (List.prefix_append _ _)]
  rfl

theorem joined_cons (t : Bytes) {ts : List Bytes} (h : ts ≠ []) :
    joined (t :: ts) = t ++ 44 :: joined ts := if_neg h

theorem notMem_joined {b : UInt8} (hb : b ≠ 44) {ts : List Bytes} (h : ∀ t ∈ ts, b ∉ t) :
    b ∉ joined ts := by
  induction ts with
  | nil => exact List.not_mem_nil
  | cons t ts ih =>
      rw [List.forall_mem_cons] at h
      by_cases hnil : ts = []
      · rw [hnil]
        exact h.1
      · rw [joined_cons t hnil, List.mem_append, List.mem_cons, not_or, not_or]
        exact ⟨h.1, hb, ih h.2⟩

theorem joined_head (c : UInt8) (t : Bytes) (ts : List Bytes) :
    ∃ s, joined ((c :: t) :: ts) = c :: s := by
  by_cases hnil : ts = []
  · exact ⟨t, if_pos hnil⟩
  · exact ⟨t ++ 44 :: joined ts, if_neg hnil⟩

theorem parseElements_joined {items : List (Value × Bytes)} (hne : items ≠ [])
    (h : ∀ p ∈ items, Reads p.1 p.2)
    (hfuel : (joined (items.map Prod.snd)).length + 1 < fuel) (rest : Bytes) :
    parseElements fuel (joined (items.map Prod.snd) ++ 93 :: rest) =
      some (items.map Prod.fst, rest) := by
  induction items generalizing fuel with
  | nil => exact absurd rfl hne
  | cons p items ih =>
      obtain ⟨fuel, rfl⟩ : ∃ n, fuel = n + 1 := Nat.exists_eq_succ_of_ne_zero (by omega)
      rw [List.forall_mem_cons] at h
      rw [parseElements]
      by_cases hnil : items = []
      · subst hnil
        have hone : joined ([p].map Prod.snd) = p.2 := rfl
        rw [hone] at hfuel ⊢
        rw [h.1.value fuel (by omega) _ (ends_bracket rest), Option.bind_some]
        dsimp only
        rw [expect_cons_of_ne (by decide) (by decide), expect_cons (by decide)]
        rfl
      · have hmore : joined ((p :: items).map Prod.snd) =
            p.2 ++ 44 :: joined (items.map Prod.snd) := joined_cons _ (by simpa using hnil)
        rw [hmore, List.length_append, List.length_cons] at hfuel
        rw [hmore, List.append_assoc, List.cons_append,
          h.1.value fuel (by omega) _ (ends_comma _), Option.bind_some]
        dsimp only
        rw [expect_cons (by decide)]
        dsimp only
        rw [ih hnil h.2 (by omega)]
        rfl

/-- Elements that read as they should are the elements of an array. -/
theorem reads_array {items : List (Value × Bytes)} (h : ∀ p ∈ items, Reads p.1 p.2) :
    Reads (.array (items.map Prod.fst)) (arrayText (items.map Prod.snd)) where
  head := ⟨91, _, rfl, by decide⟩
  value fuel hfuel rest _ := by
    obtain ⟨fuel, rfl⟩ : ∃ n, fuel = n + 1 := Nat.exists_eq_succ_of_ne_zero (by omega)
    rw [arrayText, List.length_cons, List.length_append, List.length_singleton] at hfuel
    rw [arrayText, List.cons_append, List.append_assoc, List.singleton_append, parseValue,
      expect_cons_of_ne (by decide) (by decide)]
    dsimp only
    rw [expect_cons_of_ne (by decide) (by decide)]
    dsimp only
    rw [expect_cons (by decide)]
    dsimp only
    cases items with
    | nil => rw [List.map_nil, joined, List.nil_append, expect_cons (by decide)]; rfl
    | cons p items =>
        obtain ⟨c, t, ht, hws, hbracket, -⟩ := (h p List.mem_cons_self).head
        obtain ⟨s, hs⟩ := joined_head c t (items.map Prod.snd)
        have hfirst : expect 93 (joined ((p :: items).map Prod.snd) ++ 93 :: rest) = none := by
          rw [List.map_cons, ht, hs]
          exact expect_cons_of_ne hws hbracket _
        rw [hfirst]
        dsimp only
        rw [parseElements_joined (List.cons_ne_nil _ _) h (by omega)]
        rfl

/-- A key, the value of the member, and the text of the value. -/
abbrev Entry := Bytes × Value × Bytes

def Entry.Reads (m : Entry) : Prop := Plain m.1 ∧ Json.Reads m.2.1 m.2.2

def Entry.member (m : Entry) : Bytes × Value := (m.1, m.2.1)

def Entry.text (m : Entry) : Bytes := memberText m.1 m.2.2

theorem parseMembers_joined {members : List Entry} (hne : members ≠ [])
    (h : ∀ m ∈ members, m.Reads)
    (hfuel : (joined (members.map Entry.text)).length + 1 < fuel) (rest : Bytes) :
    parseMembers fuel (joined (members.map Entry.text) ++ 125 :: rest) =
      some (members.map Entry.member, rest) := by
  induction members generalizing fuel with
  | nil => exact absurd rfl hne
  | cons m members ih =>
      obtain ⟨fuel, rfl⟩ : ∃ n, fuel = n + 2 := ⟨fuel - 2, by omega⟩
      rw [List.forall_mem_cons] at h
      obtain ⟨⟨hkey, hvalue⟩, h⟩ := h
      have hmember : ∀ t, Entry.text m ++ t = 34 :: (m.1 ++ 34 :: 58 :: (m.2.2 ++ t)) :=
        fun t ↦ by simp [Entry.text, memberText]
      have hlen : (Entry.text m).length = m.1.length + m.2.2.length + 3 := by
        simp only [Entry.text, memberText, List.length_cons, List.length_append]
        omega
      by_cases hnil : members = []
      · subst hnil
        have hone : joined ([m].map Entry.text) = Entry.text m := rfl
        rw [hone] at hfuel ⊢
        rw [hmember, parseMembers, expect_cons (by decide), Option.bind_some,
          parseString_plain hkey, Option.bind_some, expect_cons (by decide), Option.bind_some,
          hvalue.value (fuel + 1) (by omega) _ (ends_brace rest), Option.bind_some,
          parseMoreMembers_brace]
        rfl
      · have hmore : joined ((m :: members).map Entry.text) =
            Entry.text m ++ 44 :: joined (members.map Entry.text) :=
          joined_cons _ (by simpa using hnil)
        rw [hmore, List.length_append, List.length_cons] at hfuel
        rw [hmore, List.append_assoc, List.cons_append, hmember, parseMembers,
          expect_cons (by decide), Option.bind_some, parseString_plain hkey, Option.bind_some,
          expect_cons (by decide), Option.bind_some,
          hvalue.value (fuel + 1) (by omega) _ (ends_comma _), Option.bind_some,
          parseMoreMembers_comma, ih hnil h (by omega)]
        rfl

theorem reads_object {members : List Entry} (h : ∀ m ∈ members, m.Reads) :
    Reads (.object (members.map Entry.member))
      (objectText (members.map fun m ↦ (m.1, m.2.2))) where
  head := ⟨123, _, rfl, by decide⟩
  value fuel hfuel rest _ := by
    obtain ⟨fuel, rfl⟩ : ∃ n, fuel = n + 1 := Nat.exists_eq_succ_of_ne_zero (by omega)
    have htext : objectText (members.map fun m ↦ (m.1, m.2.2)) =
        123 :: (joined (members.map Entry.text) ++ [125]) := by
      rw [objectText, List.map_map]
      rfl
    rw [htext, List.length_cons, List.length_append, List.length_singleton] at hfuel
    rw [htext, List.cons_append, List.append_assoc, List.singleton_append, parseValue,
      expect_cons_of_ne (by decide) (by decide)]
    dsimp only
    rw [expect_cons (by decide)]
    dsimp only
    cases members with
    | nil => rw [List.map_nil, joined, List.nil_append, expect_cons (by decide)]; rfl
    | cons m members =>
        obtain ⟨s, hs⟩ := joined_head 34 (m.1 ++ 34 :: 58 :: m.2.2) (members.map Entry.text)
        have hfirst :
            expect 125 (joined ((m :: members).map Entry.text) ++ 125 :: rest) = none := by
          rw [List.map_cons, Entry.text, memberText, hs]
          exact expect_cons_of_ne (by decide) (by decide) _
        rw [hfirst]
        dsimp only
        rw [parseMembers_joined (List.cons_ne_nil _ _) h (by omega)]
        rfl

/-! ## Escaped strings -/

variable {table : UInt8 → Option UInt8}

theorem splitString_escaped (hs : ∀ c ∈ s, table c = none → c ≠ 34 ∧ c ≠ 92) (t : Bytes) :
    splitString (Escape.escape table s ++ 34 :: t) = some (Escape.escape table s, t) := by
  induction s with
  | nil => exact splitString_quote t
  | cons c s ih =>
      rw [List.forall_mem_cons] at hs
      rw [Escape.escape_cons, List.append_assoc, Escape.escapeByte]
      cases hc : table c with
      | some e => rw [List.cons_append, List.singleton_append, splitString_escape, ih hs.2]; rfl
      | none =>
          obtain ⟨hquote, hslash⟩ := hs.1 hc
          rw [List.singleton_append, splitString_cons hquote hslash, ih hs.2]
          rfl

theorem unescape_escaped (htable : ∀ c e, table c = some e → escapeByte e = some c)
    (hs : ∀ c ∈ s, table c = none → 32 ≤ c ∧ c ≠ 34 ∧ c ≠ 92) :
    unescape none (Escape.escape table s) = some s := by
  induction s with
  | nil => rfl
  | cons c s ih =>
      rw [List.forall_mem_cons] at hs
      rw [Escape.escape_cons, Escape.escapeByte]
      cases hc : table c with
      | some e =>
          have he := htable c e hc
          have hunicode : e ≠ 117 := by
            rintro rfl
            cases he
          rw [List.cons_append, List.singleton_append, unescape.eq_def]
          dsimp only
          rw [if_pos rfl, if_neg hunicode, he, Option.bind_some, ih hs.2]
          rfl
      | none =>
          obtain ⟨hcontrol, hquote, hslash⟩ := hs.1 hc
          have hbad : ¬ (c < 32 ∨ c = 34) := not_or.mpr ⟨UInt8.not_lt.mpr hcontrol, hquote⟩
          rw [List.singleton_append, unescape.eq_def]
          dsimp only
          rw [if_neg hslash, if_neg hbad, ih hs.2]
          rfl

/-- A string whose bytes are escaped or stand for themselves. -/
theorem reads_escaped (htable : ∀ c e, table c = some e → escapeByte e = some c)
    (hs : ∀ c ∈ s, table c = none → 32 ≤ c ∧ c ≠ 34 ∧ c ≠ 92) :
    Reads (.string s) (34 :: (Escape.escape table s ++ [34])) :=
  reads_string (splitString_escaped fun c hc hnone ↦ (hs c hc hnone).2)
    (unescape_escaped htable hs)

/-! ## Texts in UTF-8 -/

theorem isUtf8From_append {ranges : List (UInt8 × UInt8)} (hs : isUtf8From ranges s = true)
    (t : Bytes) : isUtf8From ranges (s ++ t) = isUtf8 t := by
  induction s generalizing ranges with
  | nil =>
      cases ranges with
      | nil => rfl
      | cons r ranges => cases hs
  | cons a s ih =>
      cases ranges with
      | nil =>
          rw [isUtf8From] at hs
          rw [List.cons_append, isUtf8From]
          cases hfollow : followers a with
          | none => rw [hfollow] at hs; cases hs
          | some ranges =>
              rw [hfollow] at hs
              exact ih hs
      | cons r ranges =>
          rw [isUtf8From, Bool.and_eq_true] at hs
          rw [List.cons_append, isUtf8From, hs.1, Bool.true_and]
          exact ih hs.2

theorem isUtf8From_escape
    (hascii : ∀ c e, table c = some e → c < 128 ∧ e < 128) {ranges : List (UInt8 × UInt8)}
    (hranges : ∀ r ∈ ranges, 128 ≤ r.1) (s : Bytes) :
    isUtf8From ranges (Escape.escape table s) = isUtf8From ranges s := by
  induction s generalizing ranges with
  | nil => rfl
  | cons c s ih =>
      rw [Escape.escape_cons, Escape.escapeByte]
      cases hc : table c with
      | none =>
          rw [List.singleton_append]
          cases ranges with
          | nil =>
              rw [isUtf8From, isUtf8From]
              cases hfollow : followers c with
              | none => rfl
              | some ranges => exact ih (followers_spec hfollow)
          | cons r ranges =>
              rw [isUtf8From, isUtf8From, ih fun r' hr' ↦ hranges r' (List.mem_cons_of_mem _ hr')]
      | some e =>
          obtain ⟨hc, he⟩ := hascii c e hc
          rw [List.cons_append, List.singleton_append]
          cases ranges with
          | nil =>
              rw [isUtf8From, followers_ascii (show (92 : UInt8) < 128 by decide), isUtf8From,
                followers_ascii hc]
              dsimp only
              rw [isUtf8From, followers_ascii he]
              exact ih (List.forall_mem_nil _)
          -- no escaped byte continues a character
          | cons r ranges =>
              have hlow : ∀ {b : UInt8}, b < 128 → decide (r.1 ≤ b) = false := fun hb ↦
                decide_eq_false (UInt8.not_le.mpr
                  (UInt8.lt_of_lt_of_le hb (hranges r List.mem_cons_self)))
              rw [isUtf8From, isUtf8From, hlow (show (92 : UInt8) < 128 by decide), hlow hc]
              rfl

theorem isUtf8_escape
    (hascii : ∀ c e, table c = some e → c < 128 ∧ e < 128) (s : Bytes) :
    isUtf8 (Escape.escape table s) = isUtf8 s :=
  isUtf8From_escape hascii (List.forall_mem_nil _) s

end Json
