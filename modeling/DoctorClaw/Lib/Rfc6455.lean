import DoctorClaw.Lib.Binary

/-!
# The frames of RFC 6455

A frame starts with its flags and its opcode.  The next byte says whether the
payload is masked, and holds the length of the payload or says that this stands
in the next two or eight bytes, the highest one first.  A masking key of four
bytes may follow, which is added to the payload over and over.
-/

namespace Rfc6455

open Binary

inductive LengthForm
  | short | medium | long
  deriving DecidableEq

/-- The lengths below this one can be written. -/
def LengthForm.limit : LengthForm → ℕ
  | short => 126
  | medium => 2 ^ 16
  | long => 2 ^ 63

structure Frame where
  fin : Bool
  rsv : Fin 8
  opcode : Fin 16
  maskingKey : Option (Vector UInt8 4)
  form : LengthForm
  payload : Bytes
  fits : payload.length < form.limit

namespace Frame

variable (f : Frame)

def firstByte : UInt8 :=
  UInt8.ofNat ((if f.fin then 128 else 0) + 16 * f.rsv.val + f.opcode.val)

def lengthCode : ℕ :=
  match f.form with
  | .short => f.payload.length
  | .medium => 126
  | .long => 127

def secondByte : UInt8 :=
  UInt8.ofNat ((if f.maskingKey.isSome then 128 else 0) + f.lengthCode)

def extendedLength : Bytes :=
  match f.form with
  | .short => []
  | .medium => bigEndian 2 f.payload.length
  | .long => bigEndian 8 f.payload.length

def keyBytes : Bytes := (f.maskingKey.map Vector.toList).getD []

def payloadData : Bytes :=
  match f.maskingKey with
  | none => f.payload
  | some key => f.payload.mapIdx fun i b ↦ b ^^^ key[i % 4]

def wire : Bytes :=
  f.firstByte :: f.secondByte :: (f.extendedLength ++ (f.keyBytes ++ f.payloadData))

theorem wire_append (rest : Bytes) : f.wire ++ rest = f.firstByte :: f.secondByte ::
    (f.extendedLength ++ (f.keyBytes ++ (f.payloadData ++ rest))) := by
  simp only [wire, List.cons_append, List.append_assoc]

/-! ## Lengths -/

theorem length_keyBytes : f.keyBytes.length = if f.maskingKey.isSome then 4 else 0 := by
  unfold keyBytes
  cases f.maskingKey with
  | none => rfl
  | some key => simp

theorem length_payloadData : f.payloadData.length = f.payload.length := by
  unfold payloadData
  split <;> simp

theorem length_extendedLength_le : f.extendedLength.length ≤ 8 := by
  unfold extendedLength
  cases f.form <;> simp [length_bigEndian]

theorem length_wire : f.wire.length =
    2 + f.extendedLength.length + f.keyBytes.length + f.payload.length := by
  simp only [wire, List.length_cons, List.length_append, length_payloadData]
  omega

theorem length_lt : f.payload.length < 2 ^ 63 := by
  refine f.fits.trans_le ?_
  cases f.form <;> decide

/-- No frame is longer than a size can say. -/
theorem length_wire_lt : f.wire.length < 2 ^ 64 := by
  have hext := f.length_extendedLength_le
  have hkey := f.length_keyBytes
  have hlen := f.length_lt
  rw [length_wire]
  split_ifs at hkey <;> omega

end Frame

/-! ## What the first bytes announce -/

/-- The length of everything in front of the payload, and that of the payload,
once all length bytes are there. -/
def announced : Bytes → Option (ℕ × ℕ)
  | _ :: second :: rest =>
      let keyLength := if 128 ≤ second.toNat then 4 else 0
      let code := second.toNat % 128
      if code < 126 then some (2 + keyLength, code)
      else
        let width := if code = 126 then 2 else 8
        if rest.length < width then none
        else some (2 + width + keyLength, Binary.decode (rest.take width).reverse)
  | _ => none

theorem announced_eq_some {data : Bytes} {header len : ℕ}
    (h : announced data = some (header, len)) :
    ∃ first second rest width, data = first :: second :: rest ∧ width ≤ rest.length ∧
      header = 2 + width + if 128 ≤ second.toNat then 4 else 0 := by
  rcases data with _ | ⟨first, _ | ⟨second, rest⟩⟩
  · cases h
  · cases h
  · simp only [announced] at h
    by_cases hshort : second.toNat % 128 < 126
    · rw [if_pos hshort, Option.some.injEq, Prod.mk.injEq] at h
      exact ⟨first, second, rest, 0, rfl, Nat.zero_le _, h.1.symm⟩
    · rw [if_neg hshort] at h
      generalize (if second.toNat % 128 = 126 then 2 else 8) = width at h
      by_cases hlt : rest.length < width
      · rw [if_pos hlt] at h
        cases h
      · rw [if_neg hlt, Option.some.injEq, Prod.mk.injEq] at h
        exact ⟨first, second, rest, width, rfl, Nat.le_of_not_lt hlt, h.1.symm⟩

namespace Frame

variable (f : Frame)

theorem lengthCode_lt : f.lengthCode < 128 := by
  have hfits := f.fits
  unfold lengthCode
  cases hform : f.form with
  | short =>
      rw [hform] at hfits
      exact hfits.trans (by decide)
  | medium => exact (by decide : 126 < 128)
  | long => exact (by decide : 127 < 128)

theorem toNat_firstByte : f.firstByte.toNat =
    (if f.fin then 128 else 0) + 16 * f.rsv.val + f.opcode.val := by
  have hrsv := f.rsv.isLt
  have hopcode := f.opcode.isLt
  rw [firstByte, UInt8.toNat_ofNat']
  split_ifs <;> omega

theorem toNat_secondByte :
    f.secondByte.toNat = (if f.maskingKey.isSome then 128 else 0) + f.lengthCode := by
  have hcode := f.lengthCode_lt
  rw [secondByte, UInt8.toNat_ofNat']
  split_ifs <;> omega

theorem secondByte_mod : f.secondByte.toNat % 128 = f.lengthCode := by
  have hcode := f.lengthCode_lt
  rw [toNat_secondByte]
  split_ifs <;> omega

theorem length_keyBytes_eq : f.keyBytes.length = if 128 ≤ f.secondByte.toNat then 4 else 0 := by
  have hcode := f.lengthCode_lt
  rw [length_keyBytes, toNat_secondByte]
  split_ifs <;> omega

theorem announced_bigEndian {second : UInt8} {width len : ℕ}
    (hcode : ¬ second.toNat % 128 < 126)
    (hwidth : (if second.toNat % 128 = 126 then 2 else 8) = width) (hlen : len < 256 ^ width)
    (first : UInt8) (t : Bytes) :
    announced (first :: second :: (bigEndian width len ++ t)) =
      some (2 + width + if 128 ≤ second.toNat then 4 else 0, len) := by
  have hroom : ¬ (bigEndian width len ++ t).length < width := by
    rw [List.length_append, length_bigEndian]
    omega
  simp only [announced]
  rw [if_neg hcode, hwidth, if_neg hroom, List.take_left' (length_bigEndian width len),
    decode_bigEndian hlen]

/-- Without all of the length bytes nothing is announced. -/
theorem announced_of_lt {t : Bytes} (h : t.length < f.extendedLength.length) (first : UInt8) :
    announced (first :: f.secondByte :: t) = none := by
  have hcode := f.secondByte_mod
  unfold extendedLength at h
  unfold lengthCode at hcode
  cases hform : f.form with
  | short =>
      rw [hform] at h
      exact absurd h (Nat.not_lt_zero _)
  | medium =>
      simp only [hform, length_bigEndian] at h hcode
      simp [announced, hcode, h]
  | long =>
      simp only [hform, length_bigEndian] at h hcode
      simp [announced, hcode, h]

/-- With them the frame announces its own lengths. -/
theorem announced_append (first : UInt8) (t : Bytes) :
    announced (first :: f.secondByte :: (f.extendedLength ++ t)) =
      some (2 + f.extendedLength.length + f.keyBytes.length, f.payload.length) := by
  have hcode := f.secondByte_mod
  have hfits := f.fits
  rw [length_keyBytes_eq]
  unfold extendedLength
  unfold lengthCode at hcode
  cases hform : f.form with
  | short =>
      rw [hform] at hfits
      simp only [hform] at hcode
      have hlt : f.payload.length < 126 := hfits
      simp [announced, hcode, hlt]
  | medium =>
      rw [hform] at hfits
      simp only [hform] at hcode
      dsimp only
      rw [length_bigEndian]
      exact announced_bigEndian (by omega) (if_pos hcode) (hfits.trans_le (by decide)) first t
  | long =>
      rw [hform] at hfits
      simp only [hform] at hcode
      dsimp only
      rw [length_bigEndian]
      exact announced_bigEndian (by omega) (if_neg (by omega)) (hfits.trans_le (by decide)) first t

/-- Where the first part of a frame announces lengths, they are those of the
whole frame. -/
theorem announced_of_isPrefix {part : Bytes} (h : part <+: f.wire) :
    announced part = none ∨ announced part =
      some (2 + f.extendedLength.length + f.keyBytes.length, f.payload.length) := by
  rcases part with _ | ⟨first, _ | ⟨second, t⟩⟩
  · exact .inl rfl
  · exact .inl rfl
  · rw [wire, List.cons_prefix_cons, List.cons_prefix_cons] at h
    obtain ⟨rfl, rfl, ht⟩ := h
    by_cases hlt : t.length < f.extendedLength.length
    · exact .inl (f.announced_of_lt hlt _)
    · obtain ⟨t', rfl⟩ := List.prefix_of_prefix_length_le (List.prefix_append _ _) ht
        (Nat.le_of_not_lt hlt)
      exact .inr (f.announced_append _ t')

end Frame

end Rfc6455
