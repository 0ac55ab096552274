import DoctorClaw.Lib.Json
import Mathlib.Tactic.Common

/-!
# Escapes put for something else

A reader that does not decode a string may still put something in place of every
escape.  What it makes of a string body is the decoded string only when every
escape is put for the byte it stands for, since no decoding is longer than such
a text.
-/

namespace Json

/-! ## Bodies of strings -/

/-- The bytes behind the backslashes. -/
def escapes : Bytes → Bytes
  | [] => []
  | c :: s =>
      if c = 92 then
        match s with
        | [] => []
        | e :: s => e :: escapes s
      else escapes s

/-- The text with `piece e` in place of every escape `e`. -/
def putEscapes (piece : UInt8 → Bytes) : Bytes → Bytes
  | [] => []
  | c :: s =>
      if c = 92 then
        match s with
        | [] => []
        | e :: s => piece e ++ putEscapes piece s
      else c :: putEscapes piece s

/-- Text in which every quote and every backslash belongs to an escape. -/
inductive Body : Bytes → Prop
  | nil : Body []
  | byte {c : UInt8} {s : Bytes} (hquote : c ≠ 34) (hslash : c ≠ 92) (h : Body s) : Body (c :: s)
  | escape (e : UInt8) {s : Bytes} (h : Body s) : Body (92 :: e :: s)

variable {piece : UInt8 → Bytes}

theorem escapes_escape (e : UInt8) (s : Bytes) : escapes (92 :: e :: s) = e :: escapes s := by
  rw [escapes.eq_def]
  rfl

theorem escapes_byte {c : UInt8} (hslash : c ≠ 92) (s : Bytes) : escapes (c :: s) = escapes s := by
  rw [escapes.eq_def]
  exact if_neg hslash

theorem putEscapes_escape (piece : UInt8 → Bytes) (e : UInt8) (s : Bytes) :
    putEscapes piece (92 :: e :: s) = piece e ++ putEscapes piece s := by
  rw [putEscapes.eq_def]
  rfl

theorem putEscapes_byte {c : UInt8} (hslash : c ≠ 92) (s : Bytes) :
    putEscapes piece (c :: s) = c :: putEscapes piece s := by
  rw [putEscapes.eq_def]
  exact if_neg hslash

theorem hexValue_byte : ∀ c, (hexValue c).isSome → c ≠ 34 ∧ c ≠ 92 :=
  CString.forall_byte (by decide +kernel)

theorem hexQuad_bytes {a b c d : UInt8} {n : ℕ} (h : hexQuad a b c d = some n) :
    (hexValue a).isSome ∧ (hexValue b).isSome ∧ (hexValue c).isSome ∧ (hexValue d).isSome := by
  obtain ⟨na, ha, h⟩ := Option.bind_eq_some_iff.mp h
  obtain ⟨nb, hb, h⟩ := Option.bind_eq_some_iff.mp h
  obtain ⟨nc, hc, h⟩ := Option.bind_eq_some_iff.mp h
  obtain ⟨nd, hd, -⟩ := Option.map_eq_some_iff.mp h
  simp [ha, hb, hc, hd]

section Quad

variable {a b c d : UInt8} {n : ℕ} (hn : hexQuad a b c d = some n) (s : Bytes)
include hn

theorem Body.quad {s : Bytes} (h : Body s) : Body (92 :: 117 :: a :: b :: c :: d :: s) := by
  obtain ⟨ha, hb, hc, hd⟩ := hexQuad_bytes hn
  have ha := hexValue_byte a ha
  have hb := hexValue_byte b hb
  have hc := hexValue_byte c hc
  have hd := hexValue_byte d hd
  exact .escape 117 (.byte ha.1 ha.2 (.byte hb.1 hb.2 (.byte hc.1 hc.2 (.byte hd.1 hd.2 h))))

theorem escapes_quad : escapes (92 :: 117 :: a :: b :: c :: d :: s) = 117 :: escapes s := by
  obtain ⟨ha, hb, hc, hd⟩ := hexQuad_bytes hn
  rw [escapes_escape, escapes_byte (hexValue_byte a ha).2, escapes_byte (hexValue_byte b hb).2,
    escapes_byte (hexValue_byte c hc).2, escapes_byte (hexValue_byte d hd).2]

theorem putEscapes_quad (piece : UInt8 → Bytes) :
    putEscapes piece (92 :: 117 :: a :: b :: c :: d :: s) =
      piece 117 ++ a :: b :: c :: d :: putEscapes piece s := by
  obtain ⟨ha, hb, hc, hd⟩ := hexQuad_bytes hn
  rw [putEscapes_escape, putEscapes_byte (hexValue_byte a ha).2,
    putEscapes_byte (hexValue_byte b hb).2, putEscapes_byte (hexValue_byte c hc).2,
    putEscapes_byte (hexValue_byte d hd).2]

end Quad

theorem Decodes.body {high : Option ℕ} {s t : Bytes} (h : Decodes high s t) : Body s := by
  induction h with
  | nil high => exact .nil
  | plain hc h ih => exact .byte hc.2.1 hc.2.2 ih
  | escape he h ih => exact .escape _ ih
  | surrogate hn h ih => exact ih.quad hn
  | unit hn h ih => exact ih.quad hn

/-! ## When the decoded string comes out -/

theorem length_encodeUnit_le_unpaired (high : Option ℕ) {n : ℕ} (hn : n < 65536) :
    (encodeUnit high n).length ≤ (unpaired high).length + 3 := by
  have hunit := length_encodeUtf8_unit hn
  unfold encodeUnit
  split_ifs
  · cases high with
    | none => exact length_encodeUtf8_unit (by decide)
    | some h => exact (length_encodeUtf8_le _).trans (show 4 ≤ 3 + 3 by decide)
  · rw [List.length_append]
    omega

/-- A high surrogate may be decoded later than it is read. -/
theorem Decodes.length_le_putEscapes (hpiece : ∀ e, piece e ≠ []) {high : Option ℕ} {s t : Bytes}
    (h : Decodes high s t) : t.length ≤ (putEscapes piece s).length + (unpaired high).length := by
  have hnone : (unpaired none).length = 0 := rfl
  have hsome : ∀ h, (unpaired (some h)).length = 3 := fun _ ↦ rfl
  induction h with
  | nil high => simp
  | @plain high c s t hc h ih =>
      rw [putEscapes_byte hc.2.2]
      simp only [List.length_append, List.length_cons]
      omega
  | @escape high e x s t he h ih =>
      have hlen := List.length_pos_iff.mpr (hpiece e)
      rw [putEscapes_escape]
      simp only [List.length_append, List.length_cons]
      omega
  | @surrogate high a b c d n s t hn h ih =>
      rw [putEscapes_quad hn, hsome] at *
      simp only [List.length_append, List.length_cons]
      omega
  | @unit high a b c d n s t hn h ih =>
      have hunit := length_encodeUnit_le_unpaired high (hexQuad_spec hn).1
      rw [putEscapes_quad hn]
      simp only [List.length_append, List.length_cons]
      omega

/-- Every escape has to be put for the byte it stands for. -/
theorem Decodes.putEscapes_eq_iff (hpiece : ∀ e, piece e ≠ []) {s t : Bytes}
    (h : Decodes none s t) :
    putEscapes piece s = t ↔ ∀ e ∈ escapes s, ∃ x, escapeByte e = some x ∧ piece e = [x] := by
  generalize hhigh : (none : Option ℕ) = high at h
  have hquad : ¬ ∃ x, escapeByte 117 = some x ∧ piece 117 = [x] := by
    rintro ⟨x, hx, -⟩
    cases hx
  have hlen := List.length_pos_iff.mpr (hpiece 117)
  induction h with
  | nil high =>
      subst hhigh
      simp [putEscapes, escapes, unpaired]
  | plain hc h ih =>
      subst hhigh
      rw [putEscapes_byte hc.2.2, escapes_byte hc.2.2]
      exact (List.cons_inj_right _).trans (ih rfl)
  | @escape high e x s t he h ih =>
      subst hhigh
      change putEscapes piece (92 :: e :: s) = x :: t ↔ _
      rw [putEscapes_escape, escapes_escape, List.forall_mem_cons, he]
      refine Iff.trans ?_ (and_congr_right fun _ ↦ ih rfl)
      constructor
      · intro heq
        -- the rest is not shorter than what it decodes to, so the piece is one byte
        have hrest : t.length ≤ (putEscapes piece s).length := h.length_le_putEscapes hpiece
        have hsum := congrArg List.length heq
        rw [List.length_append, List.length_cons] at hsum
        have hpos := List.length_pos_iff.mpr (hpiece e)
        obtain ⟨y, hy⟩ := List.length_eq_one_iff.mp (show (piece e).length = 1 by omega)
        rw [hy] at heq ⊢
        obtain ⟨rfl, hput⟩ := List.cons.inj heq
        exact ⟨⟨y, rfl, rfl⟩, hput⟩
      · rintro ⟨⟨y, hy, hone⟩, hput⟩
        cases hy
        rw [hone, hput]
        rfl
  | @surrogate high a b c d n s t hn h ih =>
      subst hhigh
      rw [escapes_quad hn, List.forall_mem_cons, putEscapes_quad hn]
      refine iff_of_false (fun heq ↦ ?_) fun hall ↦ hquad hall.1
      have hrest : t.length ≤ (putEscapes piece s).length + 3 := h.length_le_putEscapes hpiece
      have hsum := congrArg List.length heq
      have hnone : (unpaired none).length = 0 := rfl
      simp only [List.length_append, List.length_cons] at hsum
      omega
  | @unit high a b c d n s t hn h ih =>
      subst hhigh
      rw [escapes_quad hn, List.forall_mem_cons, putEscapes_quad hn]
      refine iff_of_false (fun heq ↦ ?_) fun hall ↦ hquad hall.1
      have hrest : t.length ≤ (putEscapes piece s).length := h.length_le_putEscapes hpiece
      have hunit : (encodeUnit none n).length ≤ 3 :=
        length_encodeUnit_le_unpaired none (hexQuad_spec hn).1
      have hsum := congrArg List.length heq
      simp only [List.length_append, List.length_cons] at hsum
      omega

/-! ## When the decoded string is only the front -/

/-- The bytes that the text of an escape consists of. -/
def inEscape (c : UInt8) : Bool :=
  c == 92 || c == 47 || (hexValue c).isSome || (97 ≤ c && c ≤ 122)

/-- Only the escapes of the quote and of the backslash are undone. -/
def quotePiece (e : UInt8) : Bytes := if e = 34 ∨ e = 92 then [e] else [92, e]

theorem quotePiece_ne_nil (e : UInt8) : quotePiece e ≠ [] := by
  unfold quotePiece
  split_ifs <;> simp

theorem quotePiece_escapeByte : ∀ e, (escapeByte e).all (fun x ↦
    decide (quotePiece e = [x]) || (quotePiece e).all inEscape) = true :=
  CString.forall_byte (by decide +kernel)

theorem inEscape_hexValue : ∀ c, (hexValue c).isSome → inEscape c = true :=
  CString.forall_byte (by decide +kernel)

theorem inEscape_spec : ∀ c, inEscape c = true → c < 128 ∧ isWs c = false ∧ c ≠ 34 ∧ c ≠ 44 ∧
    c ≠ 123 ∧ c ≠ 125 :=
  CString.forall_byte (by decide +kernel)

theorem eq_drop_append {e u p w : Bytes} (h : e ++ u = p ++ w) (hlen : e.length ≤ p.length) :
    u = p.drop e.length ++ w := by
  have hdrop := congrArg (List.drop e.length) h
  rwa [List.drop_left, List.drop_append_of_le_length hlen] at hdrop

/-- The text begins with a byte outside ASCII. -/
def StartsHigh (t : Bytes) : Prop := ∃ a t', t = a :: t' ∧ 128 ≤ a

theorem StartsHigh.append {t : Bytes} (h : StartsHigh t) (t' : Bytes) : StartsHigh (t ++ t') := by
  obtain ⟨a, rest, rfl, ha⟩ := h
  exact ⟨a, rest ++ t', rfl, ha⟩

theorem startsHigh_encodeUtf8 {n : ℕ} (hlow : 65536 ≤ n) (hhigh : n < 1114112) :
    StartsHigh (encodeUtf8 n) := by
  unfold encodeUtf8
  rw [if_neg (by omega), if_neg (by omega), if_neg (by omega)]
  refine ⟨_, _, rfl, UInt8.le_iff_toNat_le.mpr ?_⟩
  rw [UInt8.toNat_ofNat_of_lt' (show 240 + n / 262144 < 256 by omega)]
  exact le_trans (by decide) (Nat.le_add_right 240 _)

theorem startsHigh_unpaired (h : ℕ) : StartsHigh (unpaired (some h)) :=
  ⟨239, [191, 189], rfl, by decide⟩

theorem startsHigh_encodeUnit {h : ℕ} (hlow : 55296 ≤ h) (hhigh : h < 56320) (n : ℕ) :
    StartsHigh (encodeUnit (some h) n) := by
  unfold encodeUnit
  split_ifs with hn
  · exact startsHigh_encodeUtf8 (by omega) (by omega)
  · exact (startsHigh_unpaired h).append _

/-- A high surrogate is decoded to bytes outside ASCII. -/
theorem startsHigh_unescape {h : ℕ} (hlow : 55296 ≤ h) (hhigh : h < 56320) {s t : Bytes}
    (hs : unescape (some h) s = some t) : StartsHigh t := by
  rw [unescape.eq_def] at hs
  have hmap : ∀ {o : Option Bytes}, (o.map fun t ↦ unpaired (some h) ++ t) = some t →
      StartsHigh t := by
    intro o ho
    obtain ⟨t', -, rfl⟩ := Option.map_eq_some_iff.mp ho
    exact (startsHigh_unpaired h).append t'
  split at hs
  · cases hs
    exact startsHigh_unpaired h
  · split_ifs at hs
    · split at hs
      · cases hs
      · split_ifs at hs
        · split at hs
          · obtain ⟨n, -, hs⟩ := Option.bind_eq_some_iff.mp hs
            split_ifs at hs
            · exact hmap hs
            · obtain ⟨t', -, rfl⟩ := Option.map_eq_some_iff.mp hs
              exact (startsHigh_encodeUnit hlow hhigh n).append t'
          · cases hs
        · obtain ⟨x, -, hs⟩ := Option.bind_eq_some_iff.mp hs
          obtain ⟨t', -, rfl⟩ := Option.map_eq_some_iff.mp hs
          exact (startsHigh_unpaired h).append _
    · obtain ⟨t', -, rfl⟩ := Option.map_eq_some_iff.mp hs
      exact (startsHigh_unpaired h).append _

/-- Bytes that lag behind stay the same ones when a byte is passed. -/
theorem shift_of_cons_eq {c : UInt8} {u q w : Bytes} (h : c :: u = q ++ c :: w) :
    ∃ q', u = q' ++ w ∧ ∀ b ∈ q', b ∈ q := by
  cases q with
  | nil => exact ⟨[], (List.cons.inj h).2, by simp⟩
  | cons b q =>
      obtain ⟨rfl, hu⟩ := List.cons.inj h
      refine ⟨q ++ [c], by simp [hu], fun b hb ↦ ?_⟩
      obtain hb | hb := List.mem_append.mp hb
      · exact List.mem_cons_of_mem c hb
      · rw [List.mem_singleton.mp hb]
        exact List.mem_cons_self

/-- Where the decoded string is only the front of the text in which quotes and
backslashes are undone, the rest of that text comes from other escapes. -/
theorem inEscape_of_front {s t q r : Bytes} (h : unescape none s = some t)
    (hq : ∀ c ∈ q, inEscape c = true) (heq : t ++ r = q ++ putEscapes quotePiece s) :
    ∀ c ∈ r, inEscape c = true := by
  generalize hhigh : (none : Option ℕ) = high at h
  fun_induction unescape high s generalizing t q with
  | case1 high =>
      subst hhigh
      cases h
      have hr : r = q := by simpa [unpaired, putEscapes] using heq
      exact hr ▸ hq
  | case2 high => cases h
  | case3 high a b c d s ihhigh ihnone =>
      subst hhigh
      obtain ⟨n, hn, h⟩ := Option.bind_eq_some_iff.mp h
      have hpiece : ∀ x ∈ q ++ [92, 117, a, b, c, d], inEscape x = true := by
        obtain ⟨ha, hb, hc, hd⟩ := hexQuad_bytes hn
        simp only [List.forall_mem_append, List.forall_mem_cons]
        exact ⟨hq, rfl, rfl, inEscape_hexValue a ha, inEscape_hexValue b hb,
          inEscape_hexValue c hc, inEscape_hexValue d hd, by simp⟩
      have heq : t ++ r = (q ++ [92, 117, a, b, c, d]) ++ putEscapes quotePiece s := by
        rw [heq, putEscapes_quad hn, List.append_assoc]
        rfl
      split_ifs at h with hsurrogate
      · obtain ⟨t, ht, rfl⟩ := Option.map_eq_some_iff.mp h
        -- what is decoded starts outside ASCII, and the text does not
        obtain ⟨x, t, rfl, hx⟩ := startsHigh_unescape hsurrogate.1 hsurrogate.2 ht
        obtain ⟨y, p, hp⟩ := List.exists_cons_of_ne_nil
          (show q ++ [92, 117, a, b, c, d] ≠ [] by simp)
        rw [hp] at heq hpiece
        obtain ⟨rfl, -⟩ := List.cons.inj heq
        have hascii := (inEscape_spec x (hpiece x List.mem_cons_self)).1
        exact absurd hx (UInt8.not_le.mpr hascii)
      · obtain ⟨t, ht, rfl⟩ := Option.map_eq_some_iff.mp h
        have hunit : (encodeUnit none n).length ≤ 3 :=
          length_encodeUnit_le_unpaired none (hexQuad_spec hn).1
        rw [List.append_assoc] at heq
        have hrest := eq_drop_append heq (by simp; omega)
        exact ihnone (fun x hx ↦ hpiece x (List.mem_of_mem_drop hx)) hrest rfl ht
  | case4 high s hshort => cases h
  | case5 high e s he ih =>
      subst hhigh
      obtain ⟨x, hx, h⟩ := Option.bind_eq_some_iff.mp h
      obtain ⟨t, ht, rfl⟩ := Option.map_eq_some_iff.mp h
      rw [putEscapes_escape] at heq
      have hall := quotePiece_escapeByte e
      rw [hx, Option.all_some, Bool.or_eq_true, List.all_eq_true, decide_eq_true_eq] at hall
      obtain hone | hpiece := hall
      · rw [hone] at heq
        obtain ⟨q', hrest, hsub⟩ := shift_of_cons_eq heq
        exact ih (fun c hc ↦ hq c (hsub c hc)) hrest rfl ht
      · rw [← List.append_assoc] at heq
        have hlen : 1 ≤ (q ++ quotePiece e).length := by
          have hpos := List.length_pos_iff.mpr (quotePiece_ne_nil e)
          rw [List.length_append]
          omega
        have hrest := @eq_drop_append [x] _ _ _ heq hlen
        refine ih (fun c hc ↦ ?_) hrest rfl ht
        obtain hc | hc := List.mem_append.mp (List.mem_of_mem_drop hc)
        · exact hq c hc
        · exact hpiece c hc
  | case6 high c s hslash hbad => cases h
  | case7 high c s hslash hbad ih =>
      subst hhigh
      obtain ⟨t, ht, rfl⟩ := Option.map_eq_some_iff.mp h
      rw [putEscapes_byte hslash] at heq
      obtain ⟨q', hrest, hsub⟩ := shift_of_cons_eq heq
      exact ih (fun c hc ↦ hq c (hsub c hc)) hrest rfl ht

end Json
