import DoctorClaw.Lib.CString
import Mathlib.Tactic.IntervalCases

/-!
# Printing and reading decimal numbers

`printf` with `%d`, `%ld` and `%zu` prints the usual decimal text.  `atol`
skips white space, reads an optional sign and the digits that follow, and
saturates at the ends of `long`; `atoi` is `atol` cut to 32 bits, as in the
common C libraries.
-/

namespace Decimal

def printNat (n : ℕ) : Bytes := (Nat.toDigits 10 n).map fun c ↦ UInt8.ofNat c.toNat

def printInt (z : ℤ) : Bytes := if z < 0 then 45 :: printNat z.natAbs else printNat z.natAbs

def isDigit (b : UInt8) : Bool := 48 ≤ b && b ≤ 57

/-- The value of the digits in front, continuing from `acc`. -/
def digitsValue : ℕ → Bytes → ℕ
  | acc, [] => acc
  | acc, b :: bs => if isDigit b then digitsValue (10 * acc + (b.toNat - 48)) bs else acc

def strtol (s : Bytes) : ℤ :=
  match s.dropWhile CString.isspace with
  | 45 :: rest => -(digitsValue 0 rest : ℤ)
  | 43 :: rest => digitsValue 0 rest
  | rest => digitsValue 0 rest

def atol (s : Bytes) : ℤ := max (-2 ^ 63) (min (2 ^ 63 - 1) (strtol s))

def atoi (s : Bytes) : ℤ := (atol s).bmod (2 ^ 32)

/-! ## Other bases -/

def printOctal (n : ℕ) : Bytes := (Nat.toDigits 8 n).map fun c ↦ UInt8.ofNat c.toNat

def printHex (n : ℕ) : Bytes := (Nat.toDigits 16 n).map fun c ↦ UInt8.ofNat c.toNat

def hexDigit (n : ℕ) : UInt8 := UInt8.ofNat (if n < 10 then 48 + n else 55 + n)

def printHexByte (b : UInt8) : Bytes := [hexDigit (b.toNat / 16), hexDigit (b.toNat % 16)]

def digitOf (b : UInt8) : ℕ :=
  if isDigit b then b.toNat - 48
  else if 97 ≤ b ∧ b ≤ 122 then b.toNat - 87
  else if 65 ≤ b ∧ b ≤ 90 then b.toNat - 55
  else 36

def baseValue (base : ℕ) : ℕ → Bytes → ℕ
  | acc, [] => acc
  | acc, b :: bs => if digitOf b < base then baseValue base (base * acc + digitOf b) bs else acc

def strtolOctal (s : Bytes) : ℤ :=
  let value : ℤ := match s.dropWhile CString.isspace with
    | 45 :: rest => -(baseValue 8 0 rest : ℤ)
    | 43 :: rest => baseValue 8 0 rest
    | rest => baseValue 8 0 rest
  max (-2 ^ 63) (min (2 ^ 63 - 1) value)

/-- Hexadecimal digits, with or without `0x` in front. -/
def hexValue : Bytes → ℕ
  | 48 :: x :: b :: rest =>
      if (x = 120 ∨ x = 88) ∧ digitOf b < 16 then baseValue 16 0 (b :: rest)
      else baseValue 16 0 (48 :: x :: b :: rest)
  | rest => baseValue 16 0 rest

def strtolHex (s : Bytes) : ℤ :=
  let value : ℤ := match s.dropWhile CString.isspace with
    | 45 :: rest => -(hexValue rest : ℤ)
    | 43 :: rest => hexValue rest
    | rest => hexValue rest
  max (-2 ^ 63) (min (2 ^ 63 - 1) value)

/-- The digits behind an optional sign, the base being given by their first
characters. -/
def unsignedValue : Bytes → ℕ
  | 48 :: x :: b :: rest =>
      if (x = 120 ∨ x = 88) ∧ digitOf b < 16 then baseValue 16 0 (b :: rest)
      else baseValue 8 0 (x :: b :: rest)
  | 48 :: rest => baseValue 8 0 rest
  | rest => baseValue 10 0 rest

def strtoul (s : Bytes) : ℕ :=
  let clamp (n : ℕ) : ℕ := min n (2 ^ 64 - 1)
  match s.dropWhile CString.isspace with
  | 45 :: rest =>
      if unsignedValue rest < 2 ^ 64 then (2 ^ 64 - unsignedValue rest) % 2 ^ 64 else 2 ^ 64 - 1
  | 43 :: rest => clamp (unsignedValue rest)
  | rest => clamp (unsignedValue rest)

/-! ## Digits -/

theorem digitChar_toNat {d : ℕ} (hd : d < 10) :
    UInt8.ofNat (Nat.digitChar d).toNat = UInt8.ofNat (48 + d) := by
  interval_cases d <;> rfl

theorem isDigit_ofNat {d : ℕ} (hd : d < 10) : isDigit (UInt8.ofNat (48 + d)) = true := by
  interval_cases d <;> rfl

theorem toNat_ofNat {d : ℕ} (hd : d < 10) : (UInt8.ofNat (48 + d)).toNat - 48 = d := by
  interval_cases d <;> rfl

theorem printNat_eq (n : ℕ) :
    printNat n = (if n < 10 then [] else printNat (n / 10)) ++ [UInt8.ofNat (48 + n % 10)] := by
  unfold printNat
  rw [Nat.toDigits_eq_if (by omega)]
  split_ifs with h
  · rw [List.map_singleton, digitChar_toNat h, Nat.mod_eq_of_lt h, List.nil_append]
  · rw [List.map_append, List.map_singleton, digitChar_toNat (Nat.mod_lt _ (by omega))]

theorem printNat_ne_nil (n : ℕ) : printNat n ≠ [] := by
  rw [printNat_eq]
  simp

theorem length_printNat_le {n k : ℕ} (hk : 0 < k) (h : n < 10 ^ k) : (printNat n).length ≤ k := by
  rw [printNat, List.length_map]
  exact (Nat.length_toDigits_le_iff (by omega) hk).mpr h

theorem length_printInt_le {z : ℤ} {k : ℕ} (hk : 0 < k) (h : z.natAbs < 10 ^ k) :
    (printInt z).length ≤ k + 1 := by
  have hdigits := length_printNat_le hk h
  unfold printInt
  split_ifs
  · rw [List.length_cons]
    omega
  · omega

theorem isDigit_of_mem_printNat {n : ℕ} {b : UInt8} (h : b ∈ printNat n) : isDigit b = true := by
  induction n using Nat.strong_induction_on with
  | _ n ih =>
      rw [printNat_eq, List.mem_append, List.mem_singleton] at h
      rcases h with h | rfl
      · split_ifs at h with hn
        · simp at h
        · exact ih (n / 10) (by omega) h
      · exact isDigit_ofNat (Nat.mod_lt _ (by omega))

theorem notMem_printNat {b : UInt8} (hb : isDigit b = false) (n : ℕ) : b ∉ printNat n := by
  intro h
  rw [isDigit_of_mem_printNat h] at hb
  cases hb

theorem printInt_ne_nil (z : ℤ) : printInt z ≠ [] := by
  unfold printInt
  split_ifs
  · simp
  · exact printNat_ne_nil _

theorem of_mem_printInt {z : ℤ} {b : UInt8} (h : b ∈ printInt z) : b = 45 ∨ isDigit b = true := by
  unfold printInt at h
  split_ifs at h
  · rcases List.mem_cons.mp h with rfl | h
    · exact .inl rfl
    · exact .inr (isDigit_of_mem_printNat h)
  · exact .inr (isDigit_of_mem_printNat h)

/-! ## Reading back what was printed -/

theorem digitsValue_append_digits {s : Bytes} (hs : ∀ b ∈ s, isDigit b = true) (acc : ℕ)
    (rest : Bytes) : digitsValue acc (s ++ rest) = digitsValue (digitsValue acc s) rest := by
  induction s generalizing acc with
  | nil => rfl
  | cons b s ih =>
      have hb := hs b (by simp)
      simp only [List.cons_append, digitsValue, hb, if_true]
      exact ih (fun c hc ↦ hs c (List.mem_cons_of_mem _ hc)) _

theorem digitsValue_printNat (n : ℕ) : digitsValue 0 (printNat n) = n := by
  induction n using Nat.strong_induction_on with
  | _ n ih =>
      have hlast := Nat.mod_lt n (show 0 < 10 by omega)
      rw [printNat_eq]
      split_ifs with h
      · simp only [List.nil_append, digitsValue, isDigit_ofNat hlast, toNat_ofNat hlast, if_true]
        omega
      · rw [digitsValue_append_digits fun b hb ↦ isDigit_of_mem_printNat hb, ih _ (by omega)]
        simp only [digitsValue, isDigit_ofNat hlast, toNat_ofNat hlast, if_true]
        omega

def Stops (rest : Bytes) : Prop := ∀ b ∈ rest.head?, isDigit b = false

theorem digitsValue_of_stops {acc : ℕ} {rest : Bytes} (h : Stops rest) :
    digitsValue acc rest = acc := by
  cases rest with
  | nil => rfl
  | cons b rest =>
      have hb : isDigit b = false := h b rfl
      simp [digitsValue, hb]

theorem digitsValue_printNat_append {n : ℕ} {rest : Bytes} (h : Stops rest) :
    digitsValue 0 (printNat n ++ rest) = n := by
  rw [digitsValue_append_digits fun b hb ↦ isDigit_of_mem_printNat hb, digitsValue_printNat,
    digitsValue_of_stops h]

theorem not_isspace_of_isDigit {b : UInt8} (h : isDigit b = true) :
    CString.isspace b = false ∧ b ≠ 45 ∧ b ≠ 43 := by
  have hlow : 48 ≤ b := by
    simp only [isDigit, Bool.and_eq_true, decide_eq_true_eq] at h
    exact h.1
  have hnat : 48 ≤ b.toNat := by simpa [UInt8.le_iff_toNat_le] using hlow
  refine ⟨?_, ?_, ?_⟩
  · simp only [CString.isspace, Bool.or_eq_false_iff, beq_eq_false_iff_ne, Bool.and_eq_false_iff,
      decide_eq_false_iff_not, UInt8.le_iff_toNat_le, ne_eq, ← UInt8.toNat_inj]
    simp
    omega
  · rintro rfl
    simp at hnat
  · rintro rfl
    simp at hnat

theorem strtol_of_digit {d : UInt8} (hd : isDigit d = true) (rest : Bytes) :
    strtol (d :: rest) = digitsValue 0 (d :: rest) := by
  obtain ⟨hspace, hminus, hplus⟩ := not_isspace_of_isDigit hd
  unfold strtol
  rw [List.dropWhile_cons_of_neg (by simp [hspace])]
  split
  · rename_i heq
    exact absurd (List.cons.inj heq).1 hminus
  · rename_i heq
    exact absurd (List.cons.inj heq).1 hplus
  · rfl

theorem strtol_printInt_append (z : ℤ) {rest : Bytes} (h : Stops rest) :
    strtol (printInt z ++ rest) = z := by
  unfold printInt
  split_ifs with hz
  · have hskip : (45 :: printNat z.natAbs ++ rest).dropWhile CString.isspace =
        45 :: (printNat z.natAbs ++ rest) := rfl
    unfold strtol
    rw [hskip]
    simp only [digitsValue_printNat_append h]
    omega
  · obtain ⟨d, ds, hd⟩ := List.exists_cons_of_ne_nil (printNat_ne_nil z.natAbs)
    have hdigit : isDigit d = true := isDigit_of_mem_printNat (n := z.natAbs) (by simp [hd])
    have hvalue : digitsValue 0 (d :: (ds ++ rest)) = z.natAbs := by
      rw [← List.cons_append, ← hd, digitsValue_printNat_append h]
    rw [hd, List.cons_append, strtol_of_digit hdigit, hvalue]
    omega

/-- `atol` reads back every printed `long`. -/
theorem atol_printInt_append {z : ℤ} (hlo : -2 ^ 63 ≤ z) (hhi : z < 2 ^ 63) {rest : Bytes}
    (h : Stops rest) : atol (printInt z ++ rest) = z := by
  rw [atol, strtol_printInt_append z h]
  omega

theorem atol_printInt {z : ℤ} (hlo : -2 ^ 63 ≤ z) (hhi : z < 2 ^ 63) : atol (printInt z) = z := by
  have h := atol_printInt_append hlo hhi (show Stops [] by simp [Stops])
  rwa [List.append_nil] at h

theorem atoi_printInt_append {z : ℤ} (hlo : -2 ^ 31 ≤ z) (hhi : z < 2 ^ 31) {rest : Bytes}
    (h : Stops rest) : atoi (printInt z ++ rest) = z := by
  rw [atoi, atol_printInt_append (by omega) (by omega) h]
  apply Int.bmod_eq_of_le <;> omega

theorem atoi_printInt {z : ℤ} (hlo : -2 ^ 31 ≤ z) (hhi : z < 2 ^ 31) : atoi (printInt z) = z := by
  have h := atoi_printInt_append hlo hhi (show Stops [] by simp [Stops])
  rwa [List.append_nil] at h

theorem printInt_natCast (n : ℕ) : printInt n = printNat n := by
  rw [printInt, if_neg (by omega), Int.natAbs_natCast]

theorem atol_printNat {n : ℕ} (hn : n < 2 ^ 63) : atol (printNat n) = n := by
  rw [← printInt_natCast, atol_printInt (by omega) (by omega)]

theorem atoi_printNat {n : ℕ} (hn : n < 2 ^ 31) : atoi (printNat n) = n := by
  rw [← printInt_natCast, atoi_printInt (by omega) (by omega)]

theorem le_digitsValue (acc : ℕ) (s : Bytes) : acc ≤ digitsValue acc s := by
  induction s generalizing acc with
  | nil => exact le_rfl
  | cons b s ih =>
      rw [digitsValue]
      split_ifs
      · exact le_trans (by omega) (ih _)
      · exact le_rfl

theorem digitsValue_take_le (s : Bytes) (n acc : ℕ) :
    digitsValue acc (s.take n) ≤ digitsValue acc s := by
  induction s generalizing n acc with
  | nil => simp
  | cons b s ih =>
      cases n with
      | zero => exact le_digitsValue acc (b :: s)
      | succ n =>
          simp only [List.take_succ_cons, digitsValue]
          split_ifs
          · exact ih _ _
          · exact le_rfl

theorem atoi_of_digit {d : UInt8} (hd : isDigit d = true) {rest : Bytes}
    (h : digitsValue 0 (d :: rest) < 2 ^ 31) : atoi (d :: rest) = digitsValue 0 (d :: rest) := by
  rw [atoi, atol, strtol_of_digit hd]
  have hsmall : max (-2 ^ 63) (min (2 ^ 63 - 1) (digitsValue 0 (d :: rest) : ℤ)) =
      digitsValue 0 (d :: rest) := by omega
  rw [hsmall]
  apply Int.bmod_eq_of_le <;> omega

/-! ## Hexadecimal bytes -/

theorem hexDigit_spec {n : ℕ} (h : n < 16) : digitOf (hexDigit n) = n ∧
    CString.isspace (hexDigit n) = false ∧ hexDigit n ≠ 45 ∧ hexDigit n ≠ 43 := by
  have hall : ∀ k : Fin 16, digitOf (hexDigit k) = k ∧ CString.isspace (hexDigit k) = false ∧
      hexDigit k ≠ 45 ∧ hexDigit k ≠ 43 := by decide
  exact hall ⟨n, h⟩

/-- Two characters are too short for `0x`. -/
theorem hexValue_pair {x y : UInt8} (hx : digitOf x < 16) (hy : digitOf y < 16) :
    hexValue [x, y] = 16 * digitOf x + digitOf y := by
  have hbase : hexValue [x, y] = baseValue 16 0 [x, y] := by
    rw [hexValue.eq_2]
    rintro _ _ _ ⟨⟩
  rw [hbase, baseValue, if_pos hx, baseValue, if_pos hy, baseValue, Nat.mul_zero, Nat.zero_add]

theorem strtolHex_hexDigits {a b : ℕ} (ha : a < 16) (hb : b < 16) :
    strtolHex [hexDigit a, hexDigit b] = 16 * a + b := by
  obtain ⟨hfirst, hspace, hminus, hplus⟩ := hexDigit_spec ha
  obtain ⟨hsecond, -⟩ := hexDigit_spec hb
  have hvalue : hexValue [hexDigit a, hexDigit b] = 16 * a + b := by
    rw [hexValue_pair (by omega) (by omega), hfirst, hsecond]
  have hskip : [hexDigit a, hexDigit b].dropWhile CString.isspace = [hexDigit a, hexDigit b] := by
    rw [List.dropWhile_cons, hspace]
    rfl
  rw [strtolHex, hskip]
  split
  · next heq => exact absurd (List.cons.inj heq).1 hminus
  · next heq => exact absurd (List.cons.inj heq).1 hplus
  · rw [hvalue]
    omega

/-! ## Splitting the digits -/

theorem printNat_injective : Function.Injective printNat := by
  intro m n h
  rw [← digitsValue_printNat m, h, digitsValue_printNat]

/-- Digits written behind each other are the digits of one number. -/
theorem printNat_mul_add {q : ℕ} (hq : q ≠ 0) (r : ℕ) :
    printNat (q * 10 ^ (printNat r).length + r) = printNat q ++ printNat r := by
  induction r using Nat.strong_induction_on with
  | _ r ih =>
      by_cases hr : r < 10
      · have hsmall : printNat r = [UInt8.ofNat (48 + r)] := by
          rw [printNat_eq, if_pos hr, Nat.mod_eq_of_lt hr, List.nil_append]
        rw [hsmall, List.length_singleton, pow_one, printNat_eq, if_neg (by omega)]
        rw [show (q * 10 + r) / 10 = q by omega, show (q * 10 + r) % 10 = r by omega]
      · have hsplit : printNat r = printNat (r / 10) ++ [UInt8.ofNat (48 + r % 10)] := by
          rw [printNat_eq, if_neg hr]
        have hrest := ih (r / 10) (by omega)
        rw [hsplit, List.length_append, List.length_singleton, pow_succ]
        generalize 10 ^ (printNat (r / 10)).length = b at hrest
        have hdiv : (q * (b * 10) + r) / 10 = q * b + r / 10 := by
          rw [← Nat.mul_assoc, Nat.add_comm, Nat.add_mul_div_right _ _ (by omega), Nat.add_comm]
        have hmod : (q * (b * 10) + r) % 10 = r % 10 := by
          rw [← Nat.mul_assoc, Nat.add_comm, Nat.add_mul_mod_self_right]
        rw [printNat_eq, if_neg (by omega), hdiv, hmod, hrest, List.append_assoc]

/-- Leading digits are the digits of a number. -/
theorem eq_printNat_of_append {n : ℕ} {x y : Bytes} (h : printNat n = x ++ y) (hx : x ≠ [])
    (hy : y ≠ []) : ∃ q, q ≠ 0 ∧ x = printNat q := by
  induction n using Nat.strong_induction_on generalizing y with
  | _ n ih =>
      obtain rfl | ⟨y, d, rfl⟩ := List.eq_nil_or_concat y
      · exact absurd rfl hy
      · rw [List.concat_eq_append, ← List.append_assoc, printNat_eq] at h
        obtain ⟨hfront, -⟩ := List.append_inj' h rfl
        split_ifs at hfront with hn
        · simp [hx] at hfront
        · cases y with
          | nil => exact ⟨n / 10, by omega, by simpa using hfront.symm⟩
          | cons c y => exact ih (n / 10) (by omega) hfront (by simp)

/-- A number whose last digits are those of `r` has the digits in front of
them as another number. -/
theorem printNat_eq_append_iff {n r : ℕ} {x : Bytes} (hx : x ≠ []) :
    printNat n = x ++ printNat r ↔
      ∃ q, q ≠ 0 ∧ x = printNat q ∧ n = q * 10 ^ (printNat r).length + r := by
  constructor
  · intro h
    obtain ⟨q, hq, rfl⟩ := eq_printNat_of_append h hx (printNat_ne_nil r)
    refine ⟨q, hq, rfl, ?_⟩
    apply printNat_injective
    rw [printNat_mul_add hq, h]
  · rintro ⟨q, hq, rfl, rfl⟩
    exact printNat_mul_add hq r

theorem append_printNat_inv {s s' : Bytes} {n n' : ℕ} (hle : s.length ≤ s'.length)
    (h : s ++ printNat n = s' ++ printNat n') :
    (n = n' ∧ s = s') ∨
      ∃ q, q ≠ 0 ∧ n = q * 10 ^ (printNat n').length + n' ∧ s' = s ++ printNat q := by
  obtain ⟨x, rfl⟩ : s <+: s' := List.prefix_of_prefix_length_le ⟨_, h⟩ ⟨_, rfl⟩ hle
  rw [List.append_assoc, List.append_cancel_left_eq] at h
  by_cases hx : x = []
  · subst hx
    rw [List.nil_append] at h
    exact .inl ⟨printNat_injective h, (List.append_nil s).symm⟩
  · obtain ⟨q, hq, rfl, hn⟩ := (printNat_eq_append_iff hx).mp h
    exact .inr ⟨q, hq, hn, rfl⟩

/-- Two texts followed by numbers are equal when texts and numbers are, or
when the first digits of one number stand at the end of the other text. -/
theorem append_printNat_eq_iff {s s' : Bytes} {n n' : ℕ} :
    s ++ printNat n = s' ++ printNat n' ↔
      (n = n' ∧ s = s') ∨
        (∃ q, q ≠ 0 ∧ n = q * 10 ^ (printNat n').length + n' ∧ s' = s ++ printNat q) ∨
          ∃ q, q ≠ 0 ∧ n' = q * 10 ^ (printNat n).length + n ∧ s = s' ++ printNat q := by
  constructor
  · intro h
    rcases Nat.le_total s.length s'.length with hle | hle
    · exact (append_printNat_inv hle h).imp_right .inl
    · exact (append_printNat_inv hle h.symm).imp (fun heq ↦ ⟨heq.1.symm, heq.2.symm⟩) .inr
  · rintro (⟨rfl, rfl⟩ | ⟨q, hq, rfl, rfl⟩ | ⟨q, hq, rfl, rfl⟩)
    · rfl
    · rw [printNat_mul_add hq, List.append_assoc]
    · rw [printNat_mul_add hq, List.append_assoc]

end Decimal
