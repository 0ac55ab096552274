import DoctorClaw.Base64
import DoctorClaw.Lib.Rfc4648
import Mathlib.Tactic.NormNum

/-!
# When Base64 works

The encoder writes the encoding of RFC 4648 when all bytes but the third of
each group are zero.  The decoder writes at most three bytes for six
characters, so that it gives back nothing longer than one byte.
-/

namespace DoctorClaw

/-- With enough room the text is the encoding of the standard and is decoded to
the bytes, whatever the memory holds. -/
def Base64Works (b : Bytes) : Prop :=
  ∀ memory outputSize, (Rfc4648.encode b).length < outputSize →
    utilBase64Encode memory b outputSize = Rfc4648.encode b ∧
      ∀ beyond outLen, b.length ≤ outLen →
        utilBase64Decode (utilBase64Encode memory b outputSize) beyond outLen = (0, b)

/-! ## The encoder -/

theorem base64Char_eq (n : ℕ) : base64Char n = Rfc4648.digit n := rfl

theorem length_base64Groups (b : Bytes) : (base64Groups b).length = 4 * ((b.length + 2) / 3) := by
  induction b using base64Groups.induct with
  | case1 => rfl
  | case2 b1 => simp [base64Groups, base64Group]
  | case3 b1 b2 => simp [base64Groups, base64Group]
  | case4 b1 b2 b3 rest ih =>
      simp only [base64Groups, base64Group, List.length_append, List.length_cons, List.length_nil, ih]
      omega

theorem length_base64Chars (b : Bytes) : (base64Chars b).length = 4 * ((b.length + 2) / 3) := by
  simp only [base64Chars, List.length_append, List.length_take, List.length_replicate,
    length_base64Groups]
  omega

theorem base64Chars_cons (b1 b2 b3 : UInt8) (rest : Bytes) :
    base64Chars (b1 :: b2 :: b3 :: rest) = base64Group b1 b2 b3 ++ base64Chars rest := by
  have hlen := length_base64Groups rest
  have hgroup : (base64Group b1 b2 b3).length = 4 := rfl
  have hpadding : (3 - (b1 :: b2 :: b3 :: rest).length % 3) % 3 = (3 - rest.length % 3) % 3 := by
    simp only [List.length_cons]
    omega
  have hle : (3 - rest.length % 3) % 3 ≤ (base64Groups rest).length := by
    rw [hlen]
    omega
  simp only [base64Chars, base64Groups, hpadding, List.length_append, hgroup]
  rw [Nat.add_sub_assoc hle, ← hgroup, List.take_length_add_append, List.append_assoc]

/-- The `unsigned char` holds the third byte. -/
theorem base64Group_eq (b1 b2 b3 : UInt8) :
    base64Group b1 b2 b3 =
      [Rfc4648.digit 0, Rfc4648.digit 0, Rfc4648.digit (b3.toNat / 2 ^ 6),
        Rfc4648.digit b3.toNat] := by
  have h3 := b3.toNat_lt
  have htriple : (b1.toNat * 2 ^ 16 + b2.toNat * 2 ^ 8 + b3.toNat) % 256 = b3.toNat := by omega
  have h18 : b3.toNat / 2 ^ 18 = 0 := by omega
  have h12 : b3.toNat / 2 ^ 12 = 0 := by omega
  simp only [base64Group, htriple, h18, h12, base64Char_eq]

theorem eq_zero_iff_toNat {b : UInt8} : b = 0 ↔ b.toNat = 0 := UInt8.toNat_inj.symm

/-- The first two digits of the standard are those of the code when the first
byte and the upper half of the second one are zero. -/
theorem first_digits_iff (b1 b2 b3 : UInt8) :
    Rfc4648.digit 0 = Rfc4648.digit (Rfc4648.group b1 b2 b3 / 2 ^ 18) ∧
        Rfc4648.digit 0 = Rfc4648.digit (Rfc4648.group b1 b2 b3 / 2 ^ 12) ↔
      b1 = 0 ∧ b2.toNat < 16 := by
  have h1 := b1.toNat_lt
  have h2 := b2.toNat_lt
  have h3 := b3.toNat_lt
  simp only [Rfc4648.digit_eq_iff, Rfc4648.group, eq_zero_iff_toNat]
  omega

theorem third_digit_iff (b1 b2 b3 : UInt8) :
    Rfc4648.digit (b3.toNat / 2 ^ 6) = Rfc4648.digit (Rfc4648.group b1 b2 b3 / 2 ^ 6) ↔
      b2.toNat % 16 = 0 := by
  have h2 := b2.toNat_lt
  have h3 := b3.toNat_lt
  rw [Rfc4648.digit_eq_iff, Rfc4648.group]
  omega

theorem fourth_digit (b1 b2 b3 : UInt8) :
    Rfc4648.digit b3.toNat = Rfc4648.digit (Rfc4648.group b1 b2 b3) := by
  rw [Rfc4648.digit_eq_iff, Rfc4648.group]
  omega

theorem second_byte_iff (b2 : UInt8) : b2.toNat < 16 ∧ b2.toNat % 16 = 0 ↔ b2 = 0 := by
  rw [eq_zero_iff_toNat]
  omega

/-- All bytes but the third of each group are zero. -/
def OnlyThirdBytes (b : Bytes) : Prop := ∀ i c, b[i]? = some c → i % 3 ≠ 2 → c = 0

theorem onlyThirdBytes_cons (b1 b2 b3 : UInt8) (rest : Bytes) :
    OnlyThirdBytes (b1 :: b2 :: b3 :: rest) ↔ (b1 = 0 ∧ b2 = 0) ∧ OnlyThirdBytes rest := by
  constructor
  · intro h
    refine ⟨⟨h 0 b1 rfl (by decide), h 1 b2 rfl (by decide)⟩, fun i c hc hi ↦ ?_⟩
    exact h (i + 3) c hc (by omega)
  · rintro ⟨⟨h1, h2⟩, hrest⟩ i c hc hi
    rcases i with _ | _ | _ | i
    · exact (Option.some.inj hc).symm.trans h1
    · exact (Option.some.inj hc).symm.trans h2
    · exact absurd rfl hi
    · exact hrest i c hc (by omega)

theorem base64Chars_eq_encode_iff (b : Bytes) :
    base64Chars b = Rfc4648.encode b ↔ OnlyThirdBytes b := by
  induction b using Rfc4648.encode.induct with
  | case1 => simp [base64Chars, base64Groups, Rfc4648.encode, OnlyThirdBytes]
  | case2 b1 =>
      have hchars : base64Chars [b1] = [Rfc4648.digit 0, Rfc4648.digit 0, 61, 61] := by
        rw [base64Chars, base64Groups, base64Group_eq]
        rfl
      have hthird : OnlyThirdBytes [b1] ↔ b1 = 0 :=
        ⟨fun h ↦ h 0 b1 rfl (by decide), fun h i c hc _ ↦ by
          cases i with
          | zero => exact (Option.some.inj hc).symm.trans h
          | succ i => cases hc⟩
      rw [hchars, Rfc4648.encode, hthird]
      simpa [Rfc4648.pad] using first_digits_iff b1 0 0
  | case3 b1 b2 =>
      have hchars : base64Chars [b1, b2] =
          [Rfc4648.digit 0, Rfc4648.digit 0, Rfc4648.digit 0, 61] := by
        rw [base64Chars, base64Groups, base64Group_eq]
        rfl
      have hthird : OnlyThirdBytes [b1, b2] ↔ b1 = 0 ∧ b2 = 0 :=
        ⟨fun h ↦ ⟨h 0 b1 rfl (by decide), h 1 b2 rfl (by decide)⟩, fun h i c hc _ ↦ by
          rcases i with _ | _ | i
          · exact (Option.some.inj hc).symm.trans h.1
          · exact (Option.some.inj hc).symm.trans h.2
          · cases hc⟩
      have hdigits := third_digit_iff b1 b2 0
      rw [show (0 : UInt8).toNat / 2 ^ 6 = 0 from rfl] at hdigits
      rw [hchars, Rfc4648.encode, hthird, ← second_byte_iff b2, ← hdigits, ← and_assoc,
        ← first_digits_iff b1 b2 0]
      simp [Rfc4648.pad, and_assoc]
  | case4 b1 b2 b3 rest ih =>
      rw [base64Chars_cons, base64Group_eq, Rfc4648.encode, onlyThirdBytes_cons, ← ih,
        ← second_byte_iff b2, ← third_digit_iff b1 b2 b3, ← and_assoc, ← first_digits_iff b1 b2 b3]
      simp [fourth_digit b1 b2 b3, and_assoc]

/-! ## The decoder -/

/-- A byte that is written when `ok` holds and there is room. -/
theorem put_eq_append (ok : Bool) (outLen : ℕ) (b : UInt8) (output : Bytes) :
    ∃ written : Bytes, written.length ≤ ok.toNat ∧
      (if ok && decide (output.length < outLen) then output ++ [b] else output) =
        output ++ written := by
  by_cases h : (ok && decide (output.length < outLen)) = true
  · refine ⟨[b], ?_, if_pos h⟩
    rw [(Bool.and_eq_true_iff.mp h).1]
    exact Nat.le_refl 1
  · exact ⟨[], Nat.zero_le _, by rw [if_neg h, List.append_nil]⟩

/-- One round of the loop. -/
theorem base64DecodeFrom_succ {input : ℕ → UInt8} {len i : ℕ} (hi : i < len) (hpad : input i ≠ 61)
    (outLen fuel : ℕ) (output : Bytes) :
    base64DecodeFrom input len outLen (fuel + 1) i output = (-1, output) ∨
      ∃ written : Bytes, written.length ≤ (if len - i ≤ 4 then 1 else 3) ∧
        base64DecodeFrom input len outLen (fuel + 1) i output =
          base64DecodeFrom input len outLen fuel (i + 6) (output ++ written) := by
  rw [base64DecodeFrom, if_neg (not_or.mpr ⟨Nat.not_le.mpr hi, hpad⟩)]
  dsimp only
  by_cases hbad : base64DecodeChar (input i) < 0 ∨ base64DecodeChar (input (i + 1)) < 0
  · exact .inl (if_pos hbad)
  · right
    rw [if_neg hbad]
    generalize Int.toNat (_ % 256) = triple
    obtain ⟨w, hw, hput⟩ := put_eq_append true outLen (UInt8.ofNat (triple / 2 ^ 16)) output
    rw [hput]
    obtain ⟨w', hw', hput'⟩ := put_eq_append (decide (i + 2 < len - 2) && input (i + 3) != 61) outLen
      (UInt8.ofNat (triple / 2 ^ 8)) (output ++ w)
    rw [hput']
    obtain ⟨w'', hw'', hput''⟩ := put_eq_append
      (decide (i + 2 < len - 3) && input (i + 4) != 61) outLen (UInt8.ofNat triple) (output ++ w ++ w')
    rw [hput'']
    refine ⟨w ++ w' ++ w'', ?_, by simp only [List.append_assoc]⟩
    rw [List.length_append, List.length_append]
    split_ifs with hshort
    · rw [decide_eq_false (by omega)] at hw' hw''
      simp only [Bool.false_and, Bool.toNat_false, Bool.toNat_true] at hw hw' hw''
      omega
    · have hle' := Bool.toNat_le (decide (i + 2 < len - 2) && input (i + 3) != 61)
      have hle'' := Bool.toNat_le (decide (i + 2 < len - 3) && input (i + 4) != 61)
      rw [Bool.toNat_true] at hw
      omega

/-- Three bytes are written for six characters, and one for a rest of two or
four. -/
theorem length_base64DecodeFrom_le (input : ℕ → UInt8) (len outLen fuel i : ℕ) (output : Bytes)
    (heven : (len - i) % 2 = 0) :
    (base64DecodeFrom input len outLen fuel i output).2.length ≤
      output.length + 3 * ((len - i) / 6) + (if (len - i) % 6 = 0 then 0 else 1) := by
  induction fuel generalizing i output with
  | zero =>
      change output.length ≤ _
      omega
  | succ fuel ih =>
      by_cases hend : len ≤ i ∨ input i = 61
      · rw [base64DecodeFrom, if_pos hend]
        change output.length ≤ _
        omega
      · obtain ⟨hi, hpad⟩ := not_or.mp hend
        rcases base64DecodeFrom_succ (Nat.not_le.mp hi) hpad outLen fuel output with
          hbad | ⟨written, hlen, hnext⟩
        · rw [hbad]
          change output.length ≤ _
          omega
        · have hrest := ih (i + 6) (output ++ written) (by omega)
          rw [hnext]
          rw [List.length_append] at hrest
          split_ifs at hlen hrest ⊢
          all_goals omega

/-- The loop stops at the padding of two groups. -/
theorem length_base64DecodeFrom_padded {input : ℕ → UInt8} (hpad : input 6 = 61) (outLen fuel : ℕ) :
    (base64DecodeFrom input 8 outLen (fuel + 2) 0 []).2.length ≤ 3 := by
  by_cases hfirst : input 0 = 61
  · rw [base64DecodeFrom, if_pos (.inr hfirst)]
    exact Nat.zero_le 3
  · rcases base64DecodeFrom_succ (by decide : 0 < 8) hfirst outLen (fuel + 1) [] with
      hbad | ⟨written, hlen, hnext⟩
    · rw [hbad]
      exact Nat.zero_le 3
    · rw [hnext, base64DecodeFrom, if_pos (.inr hpad)]
      exact hlen

/-! ## Both -/

/-- Of two bytes or more some are always lost. -/
theorem length_utilBase64Decode_lt {b : Bytes} (hb : 2 ≤ b.length) (beyond : ℕ → UInt8)
    (outLen : ℕ) :
    (utilBase64Decode (Rfc4648.encode b) beyond outLen).2.length < b.length := by
  have hlen := Rfc4648.length_encode b
  rw [utilBase64Decode, if_neg (by omega)]
  by_cases hfour : b.length = 4
  · have htext : (Rfc4648.encode b).length = 8 := by omega
    have hpad : (Rfc4648.encode b).getD 6 0 = 61 := by
      match b, hfour with
      | [_, _, _, _], _ => rfl
    rw [htext]
    refine (length_base64DecodeFrom_padded ?_ outLen 7).trans_lt (by omega)
    exact (if_pos (by decide)).trans hpad
  · have hle := length_base64DecodeFrom_le (fun i ↦ if i ≤ (Rfc4648.encode b).length then
        (Rfc4648.encode b).getD i 0 else beyond (i - (Rfc4648.encode b).length - 1))
      (Rfc4648.encode b).length outLen ((Rfc4648.encode b).length + 1) 0 [] (by omega)
    refine hle.trans_lt ?_
    rw [List.length_nil, hlen]
    split_ifs with h <;> omega

theorem utilBase64Decode_zero (beyond : ℕ → UInt8) {outLen : ℕ} (h : 1 ≤ outLen) :
    utilBase64Decode (Rfc4648.encode [0]) beyond outLen = (0, [0]) := by
  have htext : Rfc4648.encode [0] = [65, 65, 61, 61] := by decide
  have hroom : 0 < outLen := h
  rw [htext]
  simp [utilBase64Decode, base64DecodeFrom, base64DecodeChar, hroom]

theorem base64Works_iff (b : Bytes) : Base64Works b ↔ b = [] ∨ b = [0] := by
  have hsize : (Rfc4648.encode b).length < (Rfc4648.encode b).length + 1 := Nat.lt_succ_self _
  constructor
  · intro h
    obtain ⟨hencode, hdecode⟩ := h [] _ hsize
    have hlen : b.length < 2 := by
      by_contra hlong
      have hlt := length_utilBase64Decode_lt (Nat.not_lt.mp hlong) (fun _ ↦ 0) b.length
      rw [hencode] at hdecode
      rw [hdecode _ _ (Nat.le_refl _)] at hlt
      exact Nat.lt_irrefl _ hlt
    match b with
    | [] => exact .inl rfl
    | [c] =>
        have hroom : (base64Chars [c]).length < (Rfc4648.encode [c]).length + 1 := by
          rw [length_base64Chars, Rfc4648.length_encode]
          exact Nat.lt_succ_self _
        rw [utilBase64Encode, if_pos hroom, base64Chars_eq_encode_iff] at hencode
        rw [hencode 0 c rfl (by decide)]
        exact .inr rfl
    | _ :: _ :: _ => exact absurd hlen (by simp)
  · intro hb memory outputSize hroom
    have hencode : utilBase64Encode memory b outputSize = Rfc4648.encode b := by
      have hchars : (base64Chars b).length < outputSize := by
        rwa [length_base64Chars, ← Rfc4648.length_encode]
      rw [utilBase64Encode, if_pos hchars, base64Chars_eq_encode_iff]
      rcases hb with rfl | rfl
      · intro i c hc
        cases hc
      · intro i c hc _
        cases i with
        | zero => exact (Option.some.inj hc).symm
        | succ i => cases hc
    refine ⟨hencode, fun beyond outLen houtLen ↦ ?_⟩
    rw [hencode]
    rcases hb with rfl | rfl
    · rfl
    · exact utilBase64Decode_zero beyond houtLen

/-- The byte 1 is written as `AA==`. -/
theorem one_not_encoded : ¬ Base64Works [1] := by
  intro h
  have hencode := (h [] 5 (by decide)).1
  exact absurd hencode (by decide)

end DoctorClaw
