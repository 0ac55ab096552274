import DoctorClaw.Lib.BufferWriter
import DoctorClaw.Lib.Decimal

/-!
# URL coding

The encoder stops four bytes in front of the end of its buffer, so that three
bytes and a terminator fit at each step.  The decoder also reads `+` as a
blank, which the encoder never writes.
-/

namespace DoctorClaw

open BufferWriter

/-! ## The code -/

def urlEncodeChars : Bytes :=
  ascii "abcdefghijklmnopqrstuvwxyzABCDEFGHIJKLMNOPQRSTUVWXYZ0123456789-_.~"

/-- `"%%%02X"`. -/
def percentTriple (c : UInt8) : Bytes := 37 :: Decimal.printHexByte c

/-- One character of the input; the position of the writer is `j`. -/
def urlEncodeStep (outputSize : ℕ) (w : Writer) (c : UInt8) : Writer :=
  if c ∈ urlEncodeChars then w.store c
  else
    { w.storeAll (Writer.printed (sizeSub outputSize w.pos) (percentTriple c)) with
      pos := w.pos + 3 }

def urlEncodeLoop (outputSize : ℕ) : Bytes → Writer → Writer
  | [], w => w
  | c :: input, w =>
      if w.pos < sizeSub outputSize 4 then
        urlEncodeLoop outputSize input (urlEncodeStep outputSize w c)
      else w

/-- The buffer `output` and the stores into it. -/
def utilUrlEncode (output input : Bytes) : Writer :=
  (urlEncodeLoop output.length input (.start output)).store 0

/-- The loop of the decoder, with room for `n` more bytes. -/
def urlDecodeLoop : ℕ → Bytes → Bytes
  | 0, _ => []
  | _ + 1, [] => []
  | n + 1, c :: input =>
      if c = 37 then
        match input with
        | a :: b :: rest =>
            UInt8.ofNat ((Decimal.strtolHex [a, b]) % 256).toNat :: urlDecodeLoop n rest
        | _ => c :: urlDecodeLoop n input
      else if c = 43 then 32 :: urlDecodeLoop n input
      else c :: urlDecodeLoop n input

/-- The bytes stored in front of the terminator. -/
def utilUrlDecode (input : Bytes) (outputSize : ℕ) : Bytes :=
  urlDecodeLoop (sizeSub outputSize 1) input

/-! ## Encoded texts -/

def isUnreserved (c : UInt8) : Bool :=
  (65 ≤ c && c ≤ 90) || (97 ≤ c && c ≤ 122) || (48 ≤ c && c ≤ 57) ||
    c == 45 || c == 95 || c == 46 || c == 126

/-- A hexadecimal digit in upper case. -/
def isHexDigit (c : UInt8) : Bool := (48 ≤ c && c ≤ 57) || (65 ≤ c && c ≤ 70)

/-- Unreserved characters and whole triples. -/
inductive UrlText : Bytes → Prop
  | nil : UrlText []
  | unreserved {c : UInt8} {s : Bytes} (hc : isUnreserved c = true) (h : UrlText s) :
      UrlText (c :: s)
  | triple {a b : UInt8} {s : Bytes} (ha : isHexDigit a = true) (hb : isHexDigit b = true)
      (h : UrlText s) : UrlText (37 :: a :: b :: s)

def urlByte (c : UInt8) : Bytes := if c ∈ urlEncodeChars then [c] else percentTriple c

def urlText (s : Bytes) : Bytes := s.flatMap urlByte

theorem mem_urlEncodeChars_iff (c : UInt8) : c ∈ urlEncodeChars ↔ isUnreserved c = true := by
  have hlist : urlEncodeChars = (List.range' 97 26 ++ (List.range' 65 26 ++
      (List.range' 48 10 ++ [45, 95, 46, 126]))).map UInt8.ofNat := by decide
  rw [hlist, List.mem_map]
  constructor
  · rintro ⟨n, hn, rfl⟩
    have hall : ∀ n ∈ List.range' 97 26 ++ (List.range' 65 26 ++ (List.range' 48 10 ++
        [45, 95, 46, 126])), isUnreserved (UInt8.ofNat n) = true := by decide
    exact hall n hn
  · intro h
    refine ⟨c.toNat, ?_, UInt8.ofNat_toNat⟩
    simp only [isUnreserved, Bool.or_eq_true, Bool.and_eq_true, decide_eq_true_eq, beq_iff_eq,
      UInt8.le_iff_toNat_le, ← UInt8.toNat_inj, UInt8.reduceToNat] at h
    simp only [List.mem_append, List.mem_range'_1, List.mem_cons, List.not_mem_nil, or_false]
    omega

theorem percentTriple_spec (c : UInt8) :
    ∃ a b, percentTriple c = [37, a, b] ∧ isHexDigit a = true ∧ isHexDigit b = true ∧
      UInt8.ofNat ((Decimal.strtolHex [a, b]) % 256).toNat = c := by
  have hbyte := c.toNat_lt
  have hhigh : c.toNat / 16 < 16 := by omega
  have hlow : c.toNat % 16 < 16 := by omega
  have hdigit : ∀ k : Fin 16, isHexDigit (Decimal.hexDigit k) = true := by decide
  refine ⟨_, _, rfl, hdigit ⟨_, hhigh⟩, hdigit ⟨_, hlow⟩, ?_⟩
  have hvalue : (Decimal.strtolHex [Decimal.hexDigit (c.toNat / 16),
      Decimal.hexDigit (c.toNat % 16)] % 256).toNat = c.toNat := by
    rw [Decimal.strtolHex_hexDigits hhigh hlow]
    omega
  rw [hvalue, UInt8.ofNat_toNat]

theorem urlText_cons (c : UInt8) (s : Bytes) : urlText (c :: s) = urlByte c ++ urlText s := rfl

theorem urlText_wellFormed (s : Bytes) : UrlText (urlText s) := by
  induction s with
  | nil => exact .nil
  | cons c s ih =>
      rw [urlText_cons, urlByte]
      split_ifs with hc
      · exact .unreserved ((mem_urlEncodeChars_iff c).mp hc) ih
      · obtain ⟨a, b, htriple, ha, hb, -⟩ := percentTriple_spec c
        rw [htriple]
        exact .triple ha hb ih

theorem isUnreserved_spec : ∀ c, isUnreserved c = true → 0 ≠ c ∧ c ≠ 37 ∧ c ≠ 43 :=
  CString.forall_byte (by decide +kernel)

theorem isHexDigit_spec : ∀ c, isHexDigit c = true → 0 ≠ c :=
  CString.forall_byte (by decide +kernel)

theorem UrlText.zero_notMem {s : Bytes} (h : UrlText s) : (0 : UInt8) ∉ s := by
  induction h with
  | nil => exact List.not_mem_nil
  | unreserved hc h ih =>
      exact List.not_mem_cons_of_ne_of_not_mem (isUnreserved_spec _ hc).1 ih
  | triple ha hb h ih =>
      refine List.not_mem_cons_of_ne_of_not_mem (by decide) ?_
      refine List.not_mem_cons_of_ne_of_not_mem (isHexDigit_spec _ ha) ?_
      exact List.not_mem_cons_of_ne_of_not_mem (isHexDigit_spec _ hb) ih

/-! ## Decoding -/

theorem urlDecodeLoop_urlByte (c : UInt8) (n : ℕ) (input : Bytes) :
    urlDecodeLoop (n + 1) (urlByte c ++ input) = c :: urlDecodeLoop n input := by
  unfold urlByte
  split_ifs with hc
  · obtain ⟨-, hpercent, hplus⟩ := isUnreserved_spec c ((mem_urlEncodeChars_iff c).mp hc)
    rw [urlDecodeLoop.eq_def]
    exact (if_neg hpercent).trans (if_neg hplus)
  · obtain ⟨a, b, htriple, -, -, hvalue⟩ := percentTriple_spec c
    rw [htriple, urlDecodeLoop.eq_def]
    exact congrArg (· :: urlDecodeLoop n input) hvalue

theorem urlDecodeLoop_urlText {s : Bytes} {n : ℕ} (hn : s.length ≤ n) :
    urlDecodeLoop n (urlText s) = s := by
  induction s generalizing n with
  | nil => cases n <;> rfl
  | cons c s ih =>
      obtain ⟨n, rfl⟩ : ∃ k, n = k + 1 := ⟨n - 1, by simp at hn; omega⟩
      rw [urlText_cons, urlDecodeLoop_urlByte, ih (Nat.le_of_succ_le_succ hn)]

theorem utilUrlDecode_urlText {s : Bytes} {size : ℕ} (h : s.length < size) :
    utilUrlDecode (urlText s) size = s := by
  rw [utilUrlDecode, Writer.sizeSub_of_le (by omega), urlDecodeLoop_urlText (by omega)]

/-! ## Encoding -/

/-- The text is stored in front of the position, there is room for the
terminator, and all stores so far are inside of `n` bytes. -/
structure Encoded (n : ℕ) (text : Bytes) (w : Writer) : Prop where
  holds : w.Holds text
  length : w.buffer.length = n
  room : text.length < n
  log : ∀ e ∈ w.log, e.InBounds n

section Encoding

variable {n : ℕ} {text input : Bytes} {w : Writer}

theorem Encoded.storeAll (h : Encoded n text w) {s : Bytes} (hroom : text.length + s.length < n) :
    Encoded n (text ++ s) (w.storeAll s) := by
  have hpos := h.holds.pos
  have hlen := h.length
  refine ⟨⟨?_, ?_⟩, ?_, ?_, ?_⟩
  · rw [Writer.storeAll_pos, hpos, List.length_append]
  · exact Writer.isPrefix_storeAll h.holds (by omega)
  · rw [Writer.storeAll_length, hlen]
  · rwa [List.length_append]
  · exact Writer.storeAll_inBounds h.log (by omega)

/-- The terminator behind the triple is inside, too. -/
theorem Encoded.triple (h : Encoded n text w) (hroom : text.length + 4 < n) (c : UInt8) :
    Encoded n (text ++ percentTriple c)
      { w.storeAll (Writer.printed (sizeSub n w.pos) (percentTriple c)) with
        pos := w.pos + 3 } := by
  have hpos := h.holds.pos
  have hlen : (percentTriple c).length = 3 := rfl
  have hprinted : Writer.printed (sizeSub n w.pos) (percentTriple c) = percentTriple c ++ [0] := by
    rw [hpos, Writer.sizeSub_of_le (by omega), Writer.printed, if_neg (by omega),
      List.take_of_length_le (by omega)]
  have hall := h.storeAll (s := percentTriple c ++ [0]) (by simp [hlen]; omega)
  rw [← List.append_assoc] at hall
  rw [hprinted]
  refine ⟨⟨?_, (List.prefix_append _ _).trans hall.holds.text⟩, hall.length, ?_, hall.log⟩
  · rw [List.length_append, hlen, ← hpos]
  · rw [List.length_append, hlen]
    omega

theorem Encoded.step (h : Encoded n text w) (hroom : text.length + 4 < n) (c : UInt8) :
    Encoded n (text ++ urlByte c) (urlEncodeStep n w c) := by
  unfold urlByte urlEncodeStep
  split_ifs with hc
  · exact h.storeAll (s := [c]) (by rw [List.length_singleton]; omega)
  · exact h.triple hroom c

theorem length_urlByte_le (c : UInt8) : (urlByte c).length ≤ 3 := by
  unfold urlByte
  split_ifs
  · exact Nat.le_of_ble_eq_true rfl
  · exact Nat.le_refl 3

/-- A front part of the input is encoded, all of it where three bytes for each
one fit. -/
theorem Encoded.loop (hn : 5 ≤ n) (h : Encoded n text w) (input : Bytes) :
    ∃ t, t <+: input ∧ Encoded n (text ++ urlText t) (urlEncodeLoop n input w) ∧
      (text.length + 3 * input.length + 4 < n → t = input) := by
  induction input generalizing text w with
  | nil =>
      refine ⟨[], List.prefix_rfl, ?_, fun _ ↦ rfl⟩
      rwa [urlText, List.flatMap_nil, List.append_nil]
  | cons c input ih =>
      rw [urlEncodeLoop, h.holds.pos, Writer.sizeSub_of_le (by omega), List.length_cons]
      split_ifs with hroom
      · have hbyte := length_urlByte_le c
        obtain ⟨t, hfront, hloop, hall⟩ := ih (h.step (by omega) c)
        rw [List.length_append] at hall
        refine ⟨c :: t, List.cons_prefix_cons.mpr ⟨rfl, hfront⟩, ?_, fun hsize ↦ ?_⟩
        · rwa [urlText_cons, ← List.append_assoc]
        · rw [hall (by omega)]
      · refine ⟨[], List.nil_prefix, ?_, fun hsize ↦ by omega⟩
        rwa [urlText, List.flatMap_nil, List.append_nil]

theorem encoded_start {output : Bytes} (h : 0 < output.length) :
    Encoded output.length [] (.start output) :=
  ⟨Writer.start_holds output, rfl, h, List.forall_mem_nil _⟩

/-- The text is the string in the buffer once the terminator is stored. -/
theorem Encoded.ofBuffer_store (h : Encoded n text w) (htext : (0 : UInt8) ∉ text) :
    CString.ofBuffer (w.store 0).buffer = text := by
  have hpos := h.holds.pos
  have hlen := h.length
  have hroom := h.room
  obtain ⟨rest, hrest⟩ := Writer.isPrefix_storeAll (s := [0]) h.holds
    (by rw [List.length_singleton]; omega)
  change text ++ [0] ++ rest = (w.store 0).buffer at hrest
  rw [← hrest, List.append_assoc, List.singleton_append, CString.ofBuffer_append_zero htext]

end Encoding

/-- What the encoder does with a buffer. -/
structure EncodesUrl (output input : Bytes) : Prop where
  inBounds : ∀ e ∈ (utilUrlEncode output input).log, e.InBounds output.length
  terminated :
    (CString.ofBuffer (utilUrlEncode output input).buffer).length < output.length
  wellFormed : UrlText (CString.ofBuffer (utilUrlEncode output input).buffer)
  decoded : ∃ t, t <+: input ∧ (3 * input.length + 4 < output.length → t = input) ∧
    ∀ size, t.length < size →
      utilUrlDecode (CString.ofBuffer (utilUrlEncode output input).buffer) size = t

/-- Encoding stays in the buffer and never cuts a triple, and decoding gives
back what was encoded. -/
theorem encodesUrl {output : Bytes} (hsize : 5 ≤ output.length) (input : Bytes) :
    EncodesUrl output input := by
  obtain ⟨t, hfront, hloop, hall⟩ := (encoded_start (by omega)).loop hsize input
  rw [List.nil_append] at hloop
  have hwell := urlText_wellFormed t
  have hbuffer : CString.ofBuffer (utilUrlEncode output input).buffer = urlText t :=
    hloop.ofBuffer_store hwell.zero_notMem
  have hpos := hloop.holds.pos
  have hroom := hloop.room
  refine ⟨?_, ?_, ?_, t, hfront, fun hfits ↦ hall ?_, fun size ht ↦ ?_⟩
  · exact Writer.storeAll_inBounds (s := [0]) hloop.log (by rw [List.length_singleton]; omega)
  · rwa [hbuffer]
  · rwa [hbuffer]
  · rw [List.length_nil]
    omega
  · rw [hbuffer, utilUrlDecode_urlText ht]

theorem encodesUrl_question :
    5 ≤ (List.replicate 32 (0 : UInt8)).length ∧
      EncodesUrl (List.replicate 32 0) (ascii "a b+c?") :=
  ⟨by decide, encodesUrl (by decide) (ascii "a b+c?")⟩

end DoctorClaw
