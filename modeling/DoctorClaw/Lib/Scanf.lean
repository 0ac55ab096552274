import DoctorClaw.Lib.CString

/-!
# Scanning `key=value` lines

The conversions of `sscanf` that the readers of configuration files use.  A
set conversion takes the longest nonempty run of bytes other than the stop
byte, up to its width; a blank in the format skips any number of blanks of the
input, also none.
-/

namespace Scanf

/-- `%max[^stop]`: what is stored, and the rest of the input. -/
def scanSet (max : ℕ) (stop : UInt8) (s : Bytes) : Option (Bytes × Bytes) :=
  let tok := (s.takeWhile fun c ↦ decide (c ≠ stop)).take max
  if tok = [] then none else some (tok, s.drop tok.length)

def literal (c : UInt8) : Bytes → Option Bytes
  | [] => none
  | b :: s => if b = c then some s else none

def skipBlanks (s : Bytes) : Bytes := s.dropWhile CString.isspace

/-- `%keyMax[^=]=%valueMax[^\n]`, when both conversions succeed. -/
def scanPair (keyMax valueMax : ℕ) (s : Bytes) : Option (Bytes × Bytes) :=
  (scanSet keyMax 61 s).bind fun key ↦ (literal 61 key.2).bind fun s ↦
    (scanSet valueMax 10 s).map fun value ↦ (key.1, value.1)

/-- `%keyMax[^=] = %valueMax[^\n]`, when both conversions succeed. -/
def scanSpacedPair (keyMax valueMax : ℕ) (s : Bytes) : Option (Bytes × Bytes) :=
  (scanSet keyMax 61 s).bind fun key ↦ (literal 61 (skipBlanks key.2)).bind fun s ↦
    (scanSet valueMax 10 (skipBlanks s)).map fun value ↦ (key.1, value.1)

variable {keyMax valueMax max : ℕ} {stop : UInt8} {s key value : Bytes}

theorem scanSet_append (hne : s ≠ []) (hstop : stop ∉ s) (hlen : s.length ≤ max) (rest : Bytes) :
    scanSet max stop (s ++ stop :: rest) = some (s, stop :: rest) := by
  have htok : ((s ++ stop :: rest).takeWhile fun c ↦ decide (c ≠ stop)).take max = s := by
    rw [CString.takeWhile_ne_append hstop, List.take_of_length_le hlen]
  unfold scanSet
  rw [htok, if_neg hne, List.drop_left]

/-- A line of a key and a value is scanned into both. -/
theorem scanPair_line (hkey : key ≠ []) (heq : (61 : UInt8) ∉ key) (hkeyMax : key.length ≤ keyMax)
    (hvalue : value ≠ []) (hnl : (10 : UInt8) ∉ value) (hvalueMax : value.length ≤ valueMax) :
    scanPair keyMax valueMax (key ++ 61 :: (value ++ [10])) = some (key, value) := by
  rw [scanPair, scanSet_append hkey heq hkeyMax, Option.bind_some, literal, if_pos rfl,
    Option.bind_some, scanSet_append hvalue hnl hvalueMax, Option.map_some]

/-- The key is the front of the line up to the first equals sign, blanks
included. -/
theorem scanSpacedPair_key (h : scanSpacedPair keyMax valueMax s = some (key, value)) :
    key = (s.takeWhile fun c ↦ decide (c ≠ 61)).take keyMax := by
  obtain ⟨tok, htok, h⟩ := Option.bind_eq_some_iff.mp h
  obtain ⟨rest, -, h⟩ := Option.bind_eq_some_iff.mp h
  obtain ⟨v, -, h⟩ := Option.map_eq_some_iff.mp h
  unfold scanSet at htok
  simp only at htok
  split_ifs at htok
  obtain rfl := Option.some.inj htok
  exact (congrArg Prod.fst h).symm

end Scanf
