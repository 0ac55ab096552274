import DoctorClaw.Lib.BufferWriter
import DoctorClaw.Lib.Sha1
import Mathlib.Data.List.GetD

/-!
# The digest of the gateway

`sha1_hash` builds the padded message in a buffer of 128 bytes, which holds two
blocks.  The padding is calculated for inputs of up to 119 bytes.
-/

namespace DoctorClaw

open BufferWriter

/-- `%08x`. -/
def printHexWord (w : UInt32) : Bytes :=
  (List.range 8).map fun i ↦ Sha1.hexDigit (w.toNat / 16 ^ (7 - i) % 16)

/-- The length of the padding, a calculation in `size_t`. -/
def sha1PadLen (len : ℕ) : ℕ :=
  if len < 56 then sizeSub (sizeSub 56 len) 1 else sizeSub (sizeSub 120 len) 1

/-- The bytes at `msg` once they are written; the others are those of the
stack. -/
def sha1Msg (stack : ℕ → UInt8) (input : Bytes) (i : ℕ) : UInt8 :=
  let len := input.length
  let behind := (len + 1 + sha1PadLen len) % 2 ^ 64
  if behind ≤ i ∧ i < behind + 8 then
    UInt8.ofNat ((len * 8 % 2 ^ 64) >>> (56 - (i - behind) * 8) &&& 0xFF)
  else if len < i ∧ i < len + 1 + sha1PadLen len then 0
  else if i = len then 0x80
  else input.getD i (stack i)

def sha1Word (msg : ℕ → UInt8) (chunk i : ℕ) : UInt32 :=
  (msg (chunk + i * 4)).toUInt32 <<< 24 ||| (msg (chunk + i * 4 + 1)).toUInt32 <<< 16 |||
    (msg (chunk + i * 4 + 2)).toUInt32 <<< 8 ||| (msg (chunk + i * 4 + 3)).toUInt32

/-- One step of the loop that fills `w[16]` to `w[79]`, with the words before
`i`. -/
def sha1Expand (w : List UInt32) (i : ℕ) : List UInt32 :=
  let val := w.getD (i - 3) 0 ^^^ w.getD (i - 8) 0 ^^^ w.getD (i - 14) 0 ^^^ w.getD (i - 16) 0
  w ++ [val <<< 1 ||| val >>> 31]

def sha1Schedule (msg : ℕ → UInt8) (chunk : ℕ) : List UInt32 :=
  (List.range' 16 64).foldl sha1Expand ((List.range 16).map (sha1Word msg chunk))

def sha1Round (w : List UInt32) (s : Sha1.State) (i : ℕ) : Sha1.State :=
  let f :=
    if i < 20 then (s.b &&& s.c) ||| (~~~s.b &&& s.d)
    else if i < 40 then s.b ^^^ s.c ^^^ s.d
    else if i < 60 then (s.b &&& s.c) ||| (s.b &&& s.d) ||| (s.c &&& s.d)
    else s.b ^^^ s.c ^^^ s.d
  let k : UInt32 :=
    if i < 20 then 0x5A827999
    else if i < 40 then 0x6ED9EBA1
    else if i < 60 then 0x8F1BBCDC
    else 0xCA62C1D6
  let temp := (s.a <<< 5 ||| s.a >>> 27) + f + s.e + k + w.getD i 0
  ⟨temp, s.a, s.b <<< 30 ||| s.b >>> 2, s.c, s.d⟩

def sha1Chunk (msg : ℕ → UInt8) (h : Sha1.State) (chunk : ℕ) : Sha1.State :=
  let r := (List.range 80).foldl (sha1Round (sha1Schedule msg chunk)) h
  ⟨h.a + r.a, h.b + r.b, h.c + r.c, h.d + r.d, h.e + r.e⟩

/-- Where the chunks start. -/
def sha1Chunks (len : ℕ) : List ℕ :=
  (List.range (((len + 1 + sha1PadLen len + 8) % 2 ^ 64 + 63) / 64)).map (64 * ·)

/-- The text written to `output`. -/
def sha1Hash (stack : ℕ → UInt8) (input : Bytes) : Bytes :=
  let h := (sha1Chunks input.length).foldl (sha1Chunk (sha1Msg stack input))
    ⟨0x67452301, 0xEFCDAB89, 0x98BADCFE, 0x10325476, 0xC3D2E1F0⟩
  CString.cut 41 (printHexWord h.a ++ printHexWord h.b ++ printHexWord h.c ++ printHexWord h.d ++
    printHexWord h.e)

/-! ## The message -/

theorem sha1PadLen_eq {len : ℕ} (h : len < 120) : sha1PadLen len = Sha1.zeros len := by
  unfold sha1PadLen sizeSub Sha1.zeros
  split_ifs <;> omega

theorem bigEndian_getD {len j : ℕ} (hlen : len < 120) (hj : j < 8) :
    (Binary.bigEndian 8 (8 * len)).getD j 0 =
      UInt8.ofNat ((len * 8 % 2 ^ 64) >>> (56 - j * 8) &&& 0xFF) := by
  have hbit : 2 ^ (56 - j * 8) = 256 ^ (7 - j) := by
    rw [show 56 - j * 8 = 8 * (7 - j) by omega, pow_mul]
    rfl
  rw [List.getD_eq_getElem _ _ (by simpa using hj), Binary.getElem_bigEndian,
    Nat.mod_eq_of_lt (by omega), Nat.shiftRight_eq_div_pow, hbit, mul_comm len,
    show (0xFF : ℕ) = 2 ^ 8 - 1 from rfl, Nat.and_two_pow_sub_one_eq_mod]
  apply UInt8.toNat_inj.mp
  rw [UInt8.toNat_ofNat', UInt8.toNat_ofNat', Nat.mod_mod]

/-- On short inputs the buffer holds the padded message. -/
theorem sha1Msg_eq (stack : ℕ → UInt8) {input : Bytes} (hlen : input.length < 120) {i : ℕ}
    (hi : i < (Sha1.pad input).length) : sha1Msg stack input i = (Sha1.pad input).getD i 0 := by
  have htotal := Sha1.length_pad input
  have hzeros : Sha1.zeros input.length < 64 := Nat.mod_lt _ (by decide)
  have hbehind : (input.length + 1 + Sha1.zeros input.length) % 2 ^ 64 =
      input.length + 1 + Sha1.zeros input.length := Nat.mod_eq_of_lt (by omega)
  have hreplicate : (List.replicate (Sha1.zeros input.length) (0 : UInt8)).length =
      Sha1.zeros input.length := List.length_replicate
  simp only [sha1Msg, sha1PadLen_eq hlen, hbehind]
  rcases lt_trichotomy i input.length with hlt | rfl | hgt
  · rw [if_neg (by omega), if_neg (by omega), if_neg (by omega), Sha1.pad,
      List.getD_append _ _ _ _ hlt, List.getD_eq_getElem _ _ hlt, List.getD_eq_getElem _ _ hlt]
  · rw [if_neg (by omega), if_neg (by omega), if_pos rfl, Sha1.pad,
      List.getD_append_right _ _ _ _ le_rfl, Nat.sub_self, List.getD_cons_zero]
  · obtain ⟨j, rfl⟩ : ∃ j, i = input.length + (j + 1) := ⟨i - input.length - 1, by omega⟩
    rw [Sha1.pad, List.getD_append_right _ _ _ _ (by omega), Nat.add_sub_cancel_left,
      List.getD_cons_succ]
    by_cases hj : j < Sha1.zeros input.length
    · rw [if_neg (by omega), if_pos (by omega), List.getD_append _ _ _ _ (by omega),
        List.getD_replicate _ hj]
    · rw [if_pos (by omega), List.getD_append_right _ _ _ _ (by omega), hreplicate,
        bigEndian_getD hlen (by omega)]
      congr 4
      omega

/-! ## The words of a block -/

theorem toNat_or_bytes (a b c d : UInt8) :
    (a.toUInt32 <<< 24 ||| b.toUInt32 <<< 16 ||| c.toUInt32 <<< 8 ||| d.toUInt32).toNat =
      Binary.decode [d, c, b, a] := by
  have ha := a.toNat_lt
  have hb := b.toNat_lt
  have hc := c.toNat_lt
  have hd := d.toNat_lt
  have hshift (x : UInt8) : (x.toUInt32 <<< 24).toNat = x.toNat <<< 24 ∧
      (x.toUInt32 <<< 16).toNat = x.toNat <<< 16 ∧ (x.toUInt32 <<< 8).toNat = x.toNat <<< 8 := by
    have hx := x.toNat_lt
    simp only [UInt32.toNat_shiftLeft, UInt8.toNat_toUInt32, Nat.shiftLeft_eq]
    refine ⟨?_, ?_, ?_⟩ <;> exact Nat.mod_eq_of_lt (by simp; omega)
  -- each shift leaves room for the bytes behind it
  have hlow : c.toNat <<< 8 + d.toNat < 2 ^ 16 := by
    rw [Nat.shiftLeft_eq]
    omega
  have hmid : b.toNat <<< 16 + (c.toNat <<< 8 + d.toNat) < 2 ^ 24 := by
    rw [Nat.shiftLeft_eq]
    omega
  rw [UInt32.toNat_or, UInt32.toNat_or, UInt32.toNat_or, (hshift a).1, (hshift b).2.1,
    (hshift c).2.2, UInt8.toNat_toUInt32, Nat.or_assoc, Nat.or_assoc,
    ← Nat.shiftLeft_add_eq_or_of_lt hd, ← Nat.shiftLeft_add_eq_or_of_lt hlow,
    ← Nat.shiftLeft_add_eq_or_of_lt hmid]
  simp only [Nat.shiftLeft_eq, Binary.decode]
  omega

theorem take_four (l : Bytes) {k : ℕ} (h : k + 4 ≤ l.length) :
    (l.drop k).take 4 = [l.getD k 0, l.getD (k + 1) 0, l.getD (k + 2) 0, l.getD (k + 3) 0] := by
  rw [List.drop_eq_getElem_cons (show k < l.length by omega),
    List.drop_eq_getElem_cons (show k + 1 < l.length by omega),
    List.drop_eq_getElem_cons (show k + 1 + 1 < l.length by omega),
    List.drop_eq_getElem_cons (show k + 1 + 1 + 1 < l.length by omega),
    List.getD_eq_getElem l 0 (show k < l.length by omega),
    List.getD_eq_getElem l 0 (show k + 1 < l.length by omega),
    List.getD_eq_getElem l 0 (show k + 2 < l.length by omega),
    List.getD_eq_getElem l 0 (show k + 3 < l.length by omega)]
  rfl

theorem getD_map_range {n t : ℕ} (word : ℕ → UInt32) (h : t < n) :
    ((List.range n).map word).getD t 0 = word t := by
  rw [List.getD_eq_getElem _ _ (by simpa using h), List.getElem_map, List.getElem_range]

section Blocks

variable {msg : ℕ → UInt8} {bytes : Bytes} (hmsg : ∀ i < bytes.length, msg i = bytes.getD i 0)
  {chunk : ℕ} (hchunk : chunk + 64 ≤ bytes.length)
include hmsg hchunk

theorem sha1Word_eq {i : ℕ} (hi : i < 16) : sha1Word msg chunk i = Sha1.wordAt bytes chunk i := by
  have htake := take_four bytes (show chunk + 4 * i + 4 ≤ bytes.length by omega)
  have hword : (sha1Word msg chunk i).toNat =
      Binary.decode ((bytes.drop (chunk + 4 * i)).take 4).reverse := by
    rw [htake, sha1Word, toNat_or_bytes, mul_comm i, hmsg _ (by omega), hmsg _ (by omega),
      hmsg _ (by omega), hmsg _ (by omega)]
    rfl
  rw [Sha1.wordAt, ← hword, UInt32.ofNat_toNat]

/-- After `n` steps the words before `16 + n` are there. -/
theorem foldl_sha1Expand (n : ℕ) :
    (List.range' 16 n).foldl sha1Expand ((List.range 16).map (sha1Word msg chunk)) =
      (List.range (16 + n)).map (Sha1.schedule bytes chunk) := by
  induction n with
  | zero =>
      refine List.map_congr_left fun i hi ↦ ?_
      have hlt := List.mem_range.mp hi
      rw [sha1Word_eq hmsg hchunk hlt, Sha1.schedule, if_pos hlt]
  | succ n ih =>
      rw [List.range'_1_concat, List.foldl_append, ih, List.foldl_cons, List.foldl_nil, sha1Expand,
        getD_map_range _ (by omega), getD_map_range _ (by omega), getD_map_range _ (by omega),
        getD_map_range _ (by omega), ← Nat.add_assoc, List.range_succ, List.map_append,
        List.map_singleton, Sha1.schedule.eq_def _ _ (16 + n), if_neg (by omega)]
      rfl

theorem sha1Schedule_eq :
    sha1Schedule msg chunk = (List.range 80).map (Sha1.schedule bytes chunk) :=
  foldl_sha1Expand hmsg hchunk 64

end Blocks

/-! ## The rounds -/

theorem or_eq_ch (x y z : UInt32) : (x &&& y) ||| (~~~x &&& z) = Sha1.ch x y z := by
  apply UInt32.toBitVec_inj.mp
  ext i hi
  simp only [Sha1.ch, UInt32.toBitVec_or, UInt32.toBitVec_xor, UInt32.toBitVec_and,
    UInt32.toBitVec_not, BitVec.getElem_or, BitVec.getElem_xor, BitVec.getElem_and,
    BitVec.getElem_not]
  cases x.toBitVec[i] <;> simp

theorem or_eq_maj (x y z : UInt32) :
    (x &&& y) ||| (x &&& z) ||| (y &&& z) = Sha1.maj x y z := by
  apply UInt32.toBitVec_inj.mp
  ext i hi
  simp only [Sha1.maj, UInt32.toBitVec_or, UInt32.toBitVec_xor, UInt32.toBitVec_and,
    BitVec.getElem_or, BitVec.getElem_xor, BitVec.getElem_and]
  cases x.toBitVec[i] <;> cases y.toBitVec[i] <;> simp

theorem sha1Round_eq {w : List UInt32} {word : ℕ → UInt32} {t : ℕ} (hw : w.getD t 0 = word t)
    (s : Sha1.State) : sha1Round w s t = Sha1.round word s t := by
  simp only [sha1Round, Sha1.round, or_eq_ch, or_eq_maj, hw]
  rfl

theorem sha1Chunk_eq {msg : ℕ → UInt8} {bytes : Bytes}
    (hmsg : ∀ i < bytes.length, msg i = bytes.getD i 0) {chunk : ℕ}
    (hchunk : chunk + 64 ≤ bytes.length) (h : Sha1.State) :
    sha1Chunk msg h chunk = Sha1.compress bytes h chunk := by
  have hrounds : (List.range 80).foldl (sha1Round (sha1Schedule msg chunk)) h =
      (List.range 80).foldl (Sha1.round (Sha1.schedule bytes chunk)) h := by
    refine List.foldl_ext _ _ h fun s t ht ↦ sha1Round_eq ?_ s
    rw [sha1Schedule_eq hmsg hchunk, getD_map_range _ (List.mem_range.mp ht)]
  simp only [sha1Chunk, hrounds]
  rfl

/-! ## The digest -/

theorem sha1Chunks_eq {input : Bytes} (hlen : input.length < 120) :
    sha1Chunks input.length = (List.range ((Sha1.pad input).length / 64)).map (64 * ·) := by
  have hpad := Sha1.length_pad input
  have hmod := Sha1.length_pad_mod input
  have hzeros : Sha1.zeros input.length < 64 := Nat.mod_lt _ (by decide)
  have hcount : ((input.length + 1 + Sha1.zeros input.length + 8) % 2 ^ 64 + 63) / 64 =
      (Sha1.pad input).length / 64 := by omega
  rw [sha1Chunks, sha1PadLen_eq hlen, hcount]

theorem printHexWord_eq (w : UInt32) :
    printHexWord w = Sha1.hex (Binary.bigEndian 4 w.toNat) := by
  have hhigh (m : ℕ) : m % 256 / 16 = m / 16 % 16 := by omega
  have hbytes : Binary.bigEndian 4 w.toNat = [UInt8.ofNat (w.toNat / 256 / 256 / 256),
      UInt8.ofNat (w.toNat / 256 / 256), UInt8.ofNat (w.toNat / 256), UInt8.ofNat w.toNat] := rfl
  rw [hbytes, printHexWord, show List.range 8 = [0, 1, 2, 3, 4, 5, 6, 7] from rfl]
  simp [Sha1.hex, hhigh, Nat.div_div_eq_div_mul]

theorem hex_append (s t : Bytes) : Sha1.hex (s ++ t) = Sha1.hex s ++ Sha1.hex t :=
  List.flatMap_append

theorem length_printHexWord (w : UInt32) : (printHexWord w).length = 8 := by
  simp [printHexWord]

theorem length_sha1Hash (stack : ℕ → UInt8) (input : Bytes) :
    (sha1Hash stack input).length = 40 := by
  rw [sha1Hash, CString.cut_of_lt (by simp [length_printHexWord])]
  simp [length_printHexWord]

/-- Inputs of up to 119 bytes are hashed as the standard says. -/
theorem sha1Hash_eq (stack : ℕ → UInt8) {input : Bytes} (hlen : input.length < 120) :
    sha1Hash stack input = Sha1.hex (Sha1.digest input) := by
  have hstate : (sha1Chunks input.length).foldl (sha1Chunk (sha1Msg stack input)) Sha1.initial =
      Sha1.hash input := by
    rw [sha1Chunks_eq hlen]
    refine List.foldl_ext _ _ _ fun h chunk hmem ↦ ?_
    obtain ⟨i, hi, rfl⟩ := List.mem_map.mp hmem
    have hlt := List.mem_range.mp hi
    exact sha1Chunk_eq (fun i hi ↦ sha1Msg_eq stack hlen hi) (by omega) h
  have hinitial : (⟨0x67452301, 0xEFCDAB89, 0x98BADCFE, 0x10325476, 0xC3D2E1F0⟩ : Sha1.State) =
      Sha1.initial := rfl
  simp only [sha1Hash, hinitial, hstate]
  rw [CString.cut_of_lt (by simp [length_printHexWord])]
  simp only [printHexWord_eq, Sha1.digest, Sha1.State.words, List.flatMap_cons, List.flatMap_nil,
    hex_append, List.append_assoc]
  rfl

theorem sha1Hash_eq_abc : (ascii "abc").length < 120 ∧
    sha1Hash (fun _ ↦ 0) (ascii "abc") = Sha1.hex (Sha1.digest (ascii "abc")) :=
  ⟨by decide, sha1Hash_eq (fun _ ↦ 0) (by decide)⟩

end DoctorClaw
