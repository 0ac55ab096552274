import DoctorClaw.Lib.Json.Escapes
import DoctorClaw.Lib.Json.Flat

/-!
# Key-value pairs of a JSON export

`parse_one_kv` takes one pair of strings off a text.  The import calls it until
it fails, which it does at the end of the text and at anything else that it does
not understand.
-/

namespace DoctorClaw

open CString Json

def migrationKeyLen : ℕ := 256

def migrationValueLen : ℕ := 16384

/-- What is skipped in front of a key. -/
def isPairSeparator (c : UInt8) : Bool :=
  c == 32 || c == 9 || c == 10 || c == 44 || c == 123 || c == 125

/-- What is skipped between a key and its value. -/
def isValueSeparator (c : UInt8) : Bool := c == 32 || c == 9 || c == 58

/-- Steps over a quote, if there is one. -/
def skipQuote : Bytes → Option Bytes
  | [] => none
  | c :: s => if c = 34 then some s else none

/-- The loop that copies a key, with `n` bytes free; a backslash is dropped and
the byte behind it is taken. -/
def takeKey : ℕ → Bytes → Bytes × Bytes
  | 0, s => ([], s)
  | _ + 1, [] => ([], [])
  | n + 1, c :: s =>
      if c = 34 then ([], c :: s)
      else if c = 92 then
        match s with
        | [] => ([], [])
        | d :: s => (d :: (takeKey n s).1, (takeKey n s).2)
      else (c :: (takeKey n s).1, (takeKey n s).2)

/-- The loop that copies a value; a backslash is dropped in front of a quote or a
backslash only. -/
def takeValue : ℕ → Bytes → Bytes × Bytes
  | 0, s => ([], s)
  | _ + 1, [] => ([], [])
  | n + 1, c :: s =>
      if c = 34 then ([], c :: s)
      else if c = 92 then
        match s with
        | [] => ([c], [])
        | d :: t =>
            if d = 34 ∨ d = 92 then (d :: (takeValue n t).1, (takeValue n t).2)
            else (c :: (takeValue n (d :: t)).1, (takeValue n (d :: t)).2)
      else (c :: (takeValue n s).1, (takeValue n s).2)

def parseOneKv (s : Bytes) (keyLen valueLen : ℕ) : Option ((Bytes × Bytes) × Bytes) :=
  (skipQuote (s.dropWhile isPairSeparator)).bind fun s ↦
    let key := takeKey (keyLen - 1) s
    (skipQuote key.2).bind fun s ↦ (skipQuote (s.dropWhile isValueSeparator)).map fun s ↦
      let value := takeValue (valueLen - 1) s
      ((key.1, value.1), (skipQuote value.2).getD value.2)

/-! ## Every pair takes something off the text -/

theorem skipQuote_eq_some {s rest : Bytes} (h : skipQuote s = some rest) : s = 34 :: rest := by
  cases s with
  | nil => cases h
  | cons c s =>
      rw [skipQuote] at h
      split_ifs at h with hc
      cases h
      rw [hc]

/-- The loops stay in their buffers, and do not add to the text. -/
theorem length_takeKey_le (n : ℕ) (s : Bytes) :
    (takeKey n s).1.length ≤ n ∧ (takeKey n s).2.length ≤ s.length := by
  fun_induction takeKey n s with
  | case1 s => exact ⟨Nat.le_refl _, Nat.le_refl _⟩
  | case2 n => exact ⟨Nat.zero_le _, Nat.le_refl _⟩
  | case3 n s => exact ⟨Nat.zero_le _, Nat.le_refl _⟩
  | case4 n hquote => exact ⟨Nat.zero_le _, Nat.zero_le _⟩
  | case5 n d s hquote ih =>
      simp only [List.length_cons]
      omega
  | case6 n c s hquote hslash ih =>
      simp only [List.length_cons]
      omega

theorem length_takeValue_le (n : ℕ) (s : Bytes) :
    (takeValue n s).1.length ≤ n ∧ (takeValue n s).2.length ≤ s.length := by
  fun_induction takeValue n s with
  | case1 s => exact ⟨Nat.le_refl _, Nat.le_refl _⟩
  | case2 n => exact ⟨Nat.zero_le _, Nat.le_refl _⟩
  | case3 n s => exact ⟨Nat.zero_le _, Nat.le_refl _⟩
  | case4 n hquote => exact ⟨Nat.succ_le_succ (Nat.zero_le n), Nat.zero_le _⟩
  | case5 n d t hquote hundone ih =>
      simp only [List.length_cons]
      omega
  | case6 n d t hquote hundone ih =>
      simp only [List.length_cons] at ih ⊢
      omega
  | case7 n c s hquote hslash ih =>
      simp only [List.length_cons]
      omega

theorem length_parseOneKv_lt {s rest : Bytes} {keyLen valueLen : ℕ} {pair : Bytes × Bytes}
    (h : parseOneKv s keyLen valueLen = some (pair, rest)) : rest.length < s.length := by
  obtain ⟨s₁, hopen, h⟩ := Option.bind_eq_some_iff.mp h
  obtain ⟨s₂, hclose, h⟩ := Option.bind_eq_some_iff.mp h
  obtain ⟨s₃, hvalue, heq⟩ := Option.map_eq_some_iff.mp h
  cases heq
  have hfirst := (List.dropWhile_suffix (l := s) isPairSeparator).length_le
  rw [skipQuote_eq_some hopen, List.length_cons] at hfirst
  have hkey := (length_takeKey_le (keyLen - 1) s₁).2
  rw [skipQuote_eq_some hclose, List.length_cons] at hkey
  have hsecond := (List.dropWhile_suffix (l := s₂) isValueSeparator).length_le
  rw [skipQuote_eq_some hvalue, List.length_cons] at hsecond
  have htake := (length_takeValue_le (valueLen - 1) s₃).2
  have hlast : ((skipQuote (takeValue (valueLen - 1) s₃).2).getD
      (takeValue (valueLen - 1) s₃).2).length ≤ (takeValue (valueLen - 1) s₃).2.length := by
    cases hskip : skipQuote (takeValue (valueLen - 1) s₃).2 with
    | none => exact Nat.le_refl _
    | some rest =>
        rw [skipQuote_eq_some hskip]
        exact Nat.le_succ _
  omega

/-- The pairs that the loop finds. -/
def keyValues (s : Bytes) : List (Bytes × Bytes) :=
  match _ : parseOneKv s migrationKeyLen migrationValueLen with
  | none => []
  | some (pair, rest) => pair :: keyValues rest
termination_by s.length
decreasing_by exact length_parseOneKv_lt ‹_›

theorem keyValues_of_none {s : Bytes} (h : parseOneKv s migrationKeyLen migrationValueLen = none) :
    keyValues s = [] := by
  rw [keyValues]
  split
  · rfl
  · simp_all

theorem keyValues_of_some {s rest : Bytes} {pair : Bytes × Bytes}
    (h : parseOneKv s migrationKeyLen migrationValueLen = some (pair, rest)) :
    keyValues s = pair :: keyValues rest := by
  rw [keyValues]
  split
  · simp_all
  · simp_all

/-! ## Bodies of keys and values -/

/-- A key keeps the byte behind a backslash. -/
def keyPiece (e : UInt8) : Bytes := [e]

theorem keyPiece_ne_nil (e : UInt8) : keyPiece e ≠ [] := List.cons_ne_nil e []

theorem takeKey_byte {c : UInt8} (hquote : c ≠ 34) (hslash : c ≠ 92) (n : ℕ) (s : Bytes) :
    takeKey (n + 1) (c :: s) = (c :: (takeKey n s).1, (takeKey n s).2) := by
  rw [takeKey.eq_def]
  exact (if_neg hquote).trans (if_neg hslash)

theorem takeKey_escape (n : ℕ) (d : UInt8) (s : Bytes) :
    takeKey (n + 1) (92 :: d :: s) = (d :: (takeKey n s).1, (takeKey n s).2) := by
  rw [takeKey.eq_def]
  rfl

theorem takeValue_byte {c : UInt8} (hquote : c ≠ 34) (hslash : c ≠ 92) (n : ℕ) (s : Bytes) :
    takeValue (n + 1) (c :: s) = (c :: (takeValue n s).1, (takeValue n s).2) := by
  rw [takeValue.eq_def]
  exact (if_neg hquote).trans (if_neg hslash)

theorem takeValue_undone {d : UInt8} (hd : d = 34 ∨ d = 92) (n : ℕ) (s : Bytes) :
    takeValue (n + 1) (92 :: d :: s) = (d :: (takeValue n s).1, (takeValue n s).2) := by
  rw [takeValue.eq_def]
  exact if_pos hd

theorem takeValue_kept {d : UInt8} (hd : ¬ (d = 34 ∨ d = 92)) (n : ℕ) (s : Bytes) :
    takeValue (n + 1) (92 :: d :: s) =
      (92 :: (takeValue n (d :: s)).1, (takeValue n (d :: s)).2) := by
  rw [takeValue.eq_def]
  exact if_neg hd

/-- A loop with `n` bytes free has copied the text `w` and stands at the quote
behind it, or it has copied `n` bytes and stands at what the next one was written
as. -/
def Reads (w rest : Bytes) (n : ℕ) (p : Bytes × Bytes) : Prop :=
  (w.length ≤ n ∧ p = (w, 34 :: rest)) ∨
    (n < w.length ∧ ∃ c t, p = (w.take n, c :: t) ∧ c ≠ 34 ∧ (c = 92 ∨ (w.drop n).head? = some c))

variable {w rest : Bytes}

theorem Reads.nil (n : ℕ) : Reads [] rest n ([], 34 :: rest) := .inl ⟨Nat.zero_le n, rfl⟩

theorem Reads.zero {b c : UInt8} (hquote : c ≠ 34) (hc : c = 92 ∨ c = b) (t : Bytes) :
    Reads (b :: w) rest 0 ([], c :: t) := by
  refine .inr ⟨Nat.succ_pos _, c, t, rfl, hquote, hc.imp_right fun h ↦ ?_⟩
  rw [h]
  rfl

theorem Reads.cons {n : ℕ} {p : Bytes × Bytes} (b : UInt8) (h : Reads w rest n p) :
    Reads (b :: w) rest (n + 1) (b :: p.1, p.2) := by
  obtain ⟨hlen, rfl⟩ | ⟨hlen, c, t, rfl, hquote, hc⟩ := h
  · exact .inl ⟨Nat.succ_le_succ hlen, rfl⟩
  · exact .inr ⟨Nat.succ_lt_succ hlen, c, t, rfl, hquote, hc⟩

theorem reads_takeKey {raw : Bytes} (hraw : Body raw) (rest : Bytes) (n : ℕ) :
    Reads (putEscapes keyPiece raw) rest n (takeKey n (raw ++ 34 :: rest)) := by
  induction hraw generalizing n with
  | nil =>
      cases n with
      | zero => exact .nil 0
      | succ n => exact .nil (n + 1)
  | byte hquote hslash h ih =>
      rw [putEscapes_byte hslash, List.cons_append]
      cases n with
      | zero => exact .zero hquote (.inr rfl) _
      | succ n =>
          rw [takeKey_byte hquote hslash]
          exact (ih n).cons _
  | escape e h ih =>
      rw [putEscapes_escape, List.cons_append, List.cons_append]
      cases n with
      | zero => exact .zero (by decide) (.inl rfl) _
      | succ n =>
          rw [takeKey_escape]
          exact (ih n).cons e

theorem reads_takeValue_byte {c : UInt8} (hquote : c ≠ 34) (hslash : c ≠ 92) {s : Bytes}
    (h : ∀ n, Reads w rest n (takeValue n s)) (n : ℕ) :
    Reads (c :: w) rest n (takeValue n (c :: s)) := by
  cases n with
  | zero => exact .zero hquote (.inr rfl) s
  | succ n =>
      rw [takeValue_byte hquote hslash]
      exact (h n).cons c

theorem reads_takeValue {raw : Bytes} (hraw : Body raw) (rest : Bytes) (n : ℕ) :
    Reads (putEscapes quotePiece raw) rest n (takeValue n (raw ++ 34 :: rest)) := by
  induction hraw generalizing n with
  | nil =>
      cases n with
      | zero => exact .nil 0
      | succ n => exact .nil (n + 1)
  | byte hquote hslash h ih =>
      rw [putEscapes_byte hslash]
      exact reads_takeValue_byte hquote hslash ih n
  | escape e h ih =>
      rw [putEscapes_escape, quotePiece, List.cons_append, List.cons_append]
      by_cases he : e = 34 ∨ e = 92
      · rw [if_pos he]
        cases n with
        | zero => exact .zero (by decide) (.inl rfl) _
        | succ n =>
            rw [takeValue_undone he]
            exact (ih n).cons e
      · rw [if_neg he]
        cases n with
        | zero => exact .zero (by decide) (.inl rfl) _
        | succ n =>
            obtain ⟨hquote, hslash⟩ := not_or.mp he
            rw [takeValue_kept he]
            exact (reads_takeValue_byte hquote hslash ih n).cons 92

/-! ## Reading a member -/

theorem skipQuote_dropWhile (sep : UInt8 → Bool) {s : Bytes} (hs : (34 : UInt8) ∉ s) (t : Bytes) :
    skipQuote ((s ++ t).dropWhile sep) =
      if s.all sep then skipQuote (t.dropWhile sep) else none := by
  induction s with
  | nil => rfl
  | cons c s ih =>
      obtain ⟨hc, hs⟩ := not_or.mp (mt List.mem_cons.mpr hs)
      rw [List.cons_append, List.dropWhile_cons, List.all_cons]
      by_cases hsep : sep c = true
      · rw [if_pos hsep, ih hs, hsep, Bool.true_and]
      · rw [if_neg hsep, Bool.eq_false_iff.mpr hsep, Bool.false_and]
        exact if_neg (Ne.symm hc)

theorem quote_notMem_space (space : Space) : (34 : UInt8) ∉ space.1 := fun h ↦
  absurd (List.all_eq_true.mp space.2 34 h) (by decide)

/-- The parser gets to the value, and it is a string. -/
structure Opens (m : Member) : Prop where
  before : m.before.1.all isPairSeparator = true
  lead : m.lead.1.all isPairSeparator = true
  key : (putEscapes keyPiece m.rawKey).length ≤ migrationKeyLen - 1
  beforeColon : m.beforeColon.1.all isValueSeparator = true
  afterColon : m.afterColon.1.all isValueSeparator = true
  value : ∃ raw text h, m.value = .string raw text h

variable {sep : UInt8} {m : Member}

theorem body_of_unescape {raw text : Bytes} (h : unescape none raw = some text) : Body raw :=
  (decodes_of_unescape h).body

theorem skipQuote_written (hsep : isPairSeparator sep = true) (m : Member) (tail : Bytes) :
    skipQuote ((m.written sep ++ tail).dropWhile isPairSeparator) =
      if m.before.1.all isPairSeparator = true ∧ m.lead.1.all isPairSeparator = true then
        some (m.rawKey ++ 34 :: ((m.beforeColon.1 ++ 58 :: m.afterColon.1) ++
          (m.value.written ++ tail)))
      else none := by
  have hquote : (34 : UInt8) ∉ m.before.1 ++ sep :: m.lead.1 := by
    have hne : 34 ≠ sep := by
      rintro rfl
      cases hsep
    simp [quote_notMem_space, hne]
  have hwritten : m.written sep ++ tail = (m.before.1 ++ sep :: m.lead.1) ++ 34 :: (m.rawKey ++
      34 :: ((m.beforeColon.1 ++ 58 :: m.afterColon.1) ++ (m.value.written ++ tail))) := by
    simp [Member.written]
  rw [hwritten, skipQuote_dropWhile _ hquote]
  simp only [List.all_append, List.all_cons, hsep, Bool.true_and, Bool.and_eq_true]
  rfl

theorem skipQuote_gap (m : Member) (tail : Bytes) :
    skipQuote (((m.beforeColon.1 ++ 58 :: m.afterColon.1) ++ tail).dropWhile isValueSeparator) =
      if m.beforeColon.1.all isValueSeparator = true ∧
          m.afterColon.1.all isValueSeparator = true then
        skipQuote (tail.dropWhile isValueSeparator)
      else none := by
  have hquote : (34 : UInt8) ∉ m.beforeColon.1 ++ 58 :: m.afterColon.1 := by
    simp [quote_notMem_space]
  rw [skipQuote_dropWhile _ hquote]
  have hcolon : isValueSeparator 58 = true := rfl
  simp only [List.all_append, List.all_cons, hcolon, Bool.true_and, Bool.and_eq_true]

theorem parseOneKv_of_opens (hsep : isPairSeparator sep = true) (h : Opens m) {raw text : Bytes}
    {hraw : unescape none raw = some text} (hvalue : m.value = .string raw text hraw)
    (tail : Bytes) (valueLen : ℕ) :
    parseOneKv (m.written sep ++ tail) migrationKeyLen valueLen =
      some ((putEscapes keyPiece m.rawKey, (takeValue (valueLen - 1) (raw ++ 34 :: tail)).1),
        (skipQuote (takeValue (valueLen - 1) (raw ++ 34 :: tail)).2).getD
          (takeValue (valueLen - 1) (raw ++ 34 :: tail)).2) := by
  have hkey : ∀ rest, takeKey (migrationKeyLen - 1) (m.rawKey ++ 34 :: rest) =
      (putEscapes keyPiece m.rawKey, 34 :: rest) := by
    intro rest
    obtain ⟨-, hread⟩ | ⟨hlen, -⟩ :=
      reads_takeKey (body_of_unescape m.key_eq) rest (migrationKeyLen - 1)
    · exact hread
    · exact absurd h.key (Nat.not_le.mpr hlen)
  have hstring : m.value.written ++ tail = 34 :: (raw ++ 34 :: tail) := by
    simp [hvalue, Scalar.written]
  rw [parseOneKv, skipQuote_written hsep, if_pos ⟨h.before, h.lead⟩, Option.bind_some]
  dsimp only
  rw [hkey, skipQuote, if_pos rfl, Option.bind_some, skipQuote_gap,
    if_pos ⟨h.beforeColon, h.afterColon⟩, hstring]
  rfl

theorem opens_of_parseOneKv {tail : Bytes} {valueLen : ℕ} {p : (Bytes × Bytes) × Bytes}
    (hsep : isPairSeparator sep = true)
    (h : parseOneKv (m.written sep ++ tail) migrationKeyLen valueLen = some p) : Opens m := by
  obtain ⟨s₁, hopen, h⟩ := Option.bind_eq_some_iff.mp h
  rw [skipQuote_written hsep] at hopen
  split_ifs at hopen with hspace
  cases hopen
  obtain ⟨s₂, hclose, h⟩ := Option.bind_eq_some_iff.mp h
  obtain ⟨hlen, hread⟩ | ⟨hlen, c, t, hread, hquote, -⟩ :=
    reads_takeKey (body_of_unescape m.key_eq)
      ((m.beforeColon.1 ++ 58 :: m.afterColon.1) ++ (m.value.written ++ tail))
      (migrationKeyLen - 1)
  · rw [hread, skipQuote, if_pos rfl] at hclose
    cases hclose
    obtain ⟨s₃, hvalue, -⟩ := Option.map_eq_some_iff.mp h
    rw [skipQuote_gap] at hvalue
    split_ifs at hvalue with hgap
    refine ⟨hspace.1, hspace.2, hlen, hgap.1, hgap.2, ?_⟩
    cases hscalar : m.value with
    | string raw text hraw => exact ⟨raw, text, hraw, rfl⟩
    | other raw value hother =>
        obtain ⟨c, raw', rfl, hstart, -⟩ := Scalar.other_eq_cons hother
        obtain ⟨hne, hblank, htab, hcolon⟩ := startsScalar_spec c hstart
        have hstop : isValueSeparator c = false := by
          simp [isValueSeparator, hblank, htab, hcolon]
        rw [hscalar, Scalar.written, List.cons_append, List.dropWhile_cons, hstop] at hvalue
        exact absurd (List.cons.inj (skipQuote_eq_some hvalue)).1 hne
  · rw [hread, skipQuote, if_neg hquote] at hclose
    cases hclose

/-! ## Which members come out right -/

/-- The key is understood: there is no carriage return in front of it, only
blanks and tabs are around the colon, it has no other escapes than those of the
quote, the backslash and the slash, and it fits. -/
structure IsLegible (m : Member) : Prop where
  before : (13 : UInt8) ∉ m.before.1
  lead : (13 : UInt8) ∉ m.lead.1
  beforeColon : ∀ c ∈ m.beforeColon.1, c = 32 ∨ c = 9
  afterColon : ∀ c ∈ m.afterColon.1, c = 32 ∨ c = 9
  keyEscapes : ∀ e ∈ escapes m.rawKey, e = 34 ∨ e = 92 ∨ e = 47
  fits : m.key.length < migrationKeyLen

/-- The value is a string that fits, with no other escapes than those of the
quote and the backslash. -/
def IsWhole : Scalar → Prop
  | .string raw text _ => (∀ e ∈ escapes raw, e = 34 ∨ e = 92) ∧ text.length < migrationValueLen
  | .other _ _ _ => False

/-- The value is a string that is right where it is cut: it has the greatest
length, and its text with quotes and backslashes undone starts with it. -/
def IsCutRight : Scalar → Prop
  | .string raw text _ =>
      text.length = migrationValueLen - 1 ∧ text <+: putEscapes quotePiece raw
  | .other _ _ _ => False

theorem all_isPairSeparator_iff (space : Space) :
    space.1.all isPairSeparator = true ↔ (13 : UInt8) ∉ space.1 := by
  have hbyte : ∀ c, isWs c = true → (isPairSeparator c = true ↔ c ≠ 13) :=
    CString.forall_byte (by decide +kernel)
  rw [List.all_eq_true]
  constructor
  · intro h hmem
    exact absurd (h 13 hmem) (by decide)
  · intro h c hc
    refine (hbyte c (List.all_eq_true.mp space.2 c hc)).mpr ?_
    rintro rfl
    exact h hc

theorem all_isValueSeparator_iff (space : Space) :
    space.1.all isValueSeparator = true ↔ ∀ c ∈ space.1, c = 32 ∨ c = 9 := by
  have hbyte : ∀ c, isWs c = true → (isValueSeparator c = true ↔ c = 32 ∨ c = 9) :=
    CString.forall_byte (by decide +kernel)
  rw [List.all_eq_true]
  exact forall₂_congr fun c hc ↦ hbyte c (List.all_eq_true.mp space.2 c hc)

theorem putEscapes_key_iff (m : Member) :
    putEscapes keyPiece m.rawKey = m.key ↔
      ∀ e ∈ escapes m.rawKey, e = 34 ∨ e = 92 ∨ e = 47 := by
  have hbyte : ∀ e, (escapeByte e = some e ↔ e = 34 ∨ e = 92 ∨ e = 47) :=
    CString.forall_byte (by decide +kernel)
  rw [(decodes_of_unescape m.key_eq).putEscapes_eq_iff keyPiece_ne_nil]
  refine forall₂_congr fun e he ↦ Iff.trans ?_ (hbyte e)
  constructor
  · rintro ⟨x, hx, hpiece⟩
    obtain rfl : e = x := (List.cons.inj hpiece).1
    exact hx
  · exact fun h ↦ ⟨e, h, rfl⟩

theorem putEscapes_value_iff {raw text : Bytes} (h : unescape none raw = some text) :
    putEscapes quotePiece raw = text ↔ ∀ e ∈ escapes raw, e = 34 ∨ e = 92 := by
  have hbyte : ∀ e, ((escapeByte e).any fun x ↦ decide (quotePiece e = [x])) = true ↔
      e = 34 ∨ e = 92 := CString.forall_byte (by decide +kernel)
  rw [(decodes_of_unescape h).putEscapes_eq_iff quotePiece_ne_nil]
  refine forall₂_congr fun e he ↦ Iff.trans ?_ (hbyte e)
  rw [Option.any_eq_true]
  simp

theorem isLegible_iff {raw text : Bytes} {h : unescape none raw = some text}
    (hvalue : m.value = .string raw text h) :
    IsLegible m ↔ Opens m ∧ putEscapes keyPiece m.rawKey = m.key := by
  constructor
  · intro hm
    have hkey := (putEscapes_key_iff m).mpr hm.keyEscapes
    refine ⟨⟨(all_isPairSeparator_iff _).mpr hm.before, (all_isPairSeparator_iff _).mpr hm.lead, ?_,
      (all_isValueSeparator_iff _).mpr hm.beforeColon,
      (all_isValueSeparator_iff _).mpr hm.afterColon, raw, text, h, hvalue⟩, hkey⟩
    rw [hkey]
    exact Nat.le_sub_one_of_lt hm.fits
  · rintro ⟨hopens, hkey⟩
    refine ⟨(all_isPairSeparator_iff _).mp hopens.before,
      (all_isPairSeparator_iff _).mp hopens.lead,
      (all_isValueSeparator_iff _).mp hopens.beforeColon,
      (all_isValueSeparator_iff _).mp hopens.afterColon, (putEscapes_key_iff m).mp hkey, ?_⟩
    have hlen := hopens.key
    rw [hkey] at hlen
    exact lt_of_le_of_lt hlen (by decide)

theorem keyValues_of_not_opens (hsep : isPairSeparator sep = true) (h : ¬ Opens m) (tail : Bytes) :
    keyValues (m.written sep ++ tail) = [] := by
  refine keyValues_of_none (Option.eq_none_iff_forall_not_mem.mpr fun p hp ↦ h ?_)
  exact opens_of_parseOneKv hsep hp

/-- Behind a cut in the middle of an escape no pair is found. -/
theorem keyValues_inEscape {c : UInt8} (hc : inEscape c = true) (t : Bytes) :
    keyValues (c :: t) = [] := by
  have hbyte : ∀ c, inEscape c = true → isPairSeparator c = false ∧ c ≠ 34 :=
    CString.forall_byte (by decide +kernel)
  obtain ⟨hstop, hquote⟩ := hbyte c hc
  apply keyValues_of_none
  rw [parseOneKv, List.dropWhile_cons, hstop]
  simp [skipQuote, hquote]

theorem isWhole_iff_of_le {raw text : Bytes} (h : unescape none raw = some text)
    (hlen : (putEscapes quotePiece raw).length ≤ migrationValueLen - 1) :
    IsWhole (.string raw text h) ↔ putEscapes quotePiece raw = text := by
  rw [putEscapes_value_iff h]
  refine and_iff_left_of_imp fun hescapes ↦ ?_
  rw [(putEscapes_value_iff h).mpr hescapes] at hlen
  exact lt_of_le_of_lt hlen (by decide)

theorem not_isWhole_of_lt {raw text : Bytes} (h : unescape none raw = some text)
    (hlen : migrationValueLen - 1 < (putEscapes quotePiece raw).length) :
    ¬ IsWhole (.string raw text h) := by
  rintro ⟨hescapes, hfits⟩
  rw [(putEscapes_value_iff h).mpr hescapes] at hlen
  omega

theorem isCutRight_iff_of_lt {raw text : Bytes} (h : unescape none raw = some text)
    (hlen : migrationValueLen - 1 < (putEscapes quotePiece raw).length) :
    IsCutRight (.string raw text h) ↔
      (putEscapes quotePiece raw).take (migrationValueLen - 1) = text := by
  constructor
  · rintro ⟨htext, hfront⟩
    rw [← htext]
    exact (List.prefix_iff_eq_take.mp hfront).symm
  · rintro rfl
    exact ⟨List.length_take_of_le hlen.le, List.take_prefix _ _⟩

theorem keyValues_written_iff (hsep : isPairSeparator sep = true) (m : Member) (tail : Bytes)
    (kvs : List (Bytes × Bytes)) :
    keyValues (m.written sep ++ tail) = (m.key, m.value.content) :: kvs ↔
      IsLegible m ∧ ((IsWhole m.value ∧ keyValues tail = kvs) ∨
        (IsCutRight m.value ∧ ¬ IsWhole m.value ∧ kvs = [])) := by
  cases hvalue : m.value with
  | other raw value h =>
      have hclosed : ¬ Opens m := by
        rintro ⟨-, -, -, -, -, raw', text, h', heq⟩
        rw [hvalue] at heq
        cases heq
      rw [keyValues_of_not_opens hsep hclosed]
      simp [IsWhole, IsCutRight]
  | string raw text h =>
      rw [isLegible_iff hvalue]
      by_cases hopens : Opens m
      · have hparse := parseOneKv_of_opens hsep hopens hvalue tail migrationValueLen
        obtain ⟨hlen, hread⟩ | ⟨hlen, c, t, hread, hquote, hc⟩ :=
          reads_takeValue (body_of_unescape h) tail (migrationValueLen - 1)
        · rw [hread] at hparse
          have hcut : IsCutRight (.string raw text h) → IsWhole (.string raw text h) := by
            rintro ⟨htext, hfront⟩
            exact (isWhole_iff_of_le h hlen).mpr (hfront.eq_of_length_le (htext ▸ hlen)).symm
          have hpair :
              (putEscapes keyPiece m.rawKey, putEscapes quotePiece raw) = (m.key, text) ↔
                putEscapes keyPiece m.rawKey = m.key ∧ IsWhole (.string raw text h) := by
            rw [Prod.mk.injEq, isWhole_iff_of_le h hlen]
          rw [keyValues_of_some hparse, Scalar.content, List.cons.injEq, hpair]
          constructor
          · rintro ⟨⟨hkey, hwhole⟩, hrest⟩
            exact ⟨⟨hopens, hkey⟩, .inl ⟨hwhole, hrest⟩⟩
          · rintro ⟨⟨-, hkey⟩, ⟨hwhole, hrest⟩ | ⟨hright, hnot, -⟩⟩
            · exact ⟨⟨hkey, hwhole⟩, hrest⟩
            · exact absurd (hcut hright) hnot
        · have hskip : skipQuote (c :: t) = none := if_neg hquote
          rw [hread, hskip] at hparse
          rw [keyValues_of_some hparse, Scalar.content, List.cons.injEq, Prod.mk.injEq,
            isCutRight_iff_of_lt h hlen]
          have hnot := not_isWhole_of_lt h hlen
          have hstop : (putEscapes quotePiece raw).take (migrationValueLen - 1) = text →
              keyValues (c :: t) = [] := by
            intro htake
            refine keyValues_inEscape ?_ t
            obtain rfl | hhead := hc
            · rfl
            · refine @inEscape_of_front _ _ [] _ h (by simp) ?_ c (List.mem_of_head? hhead)
              rw [← htake]
              exact List.take_append_drop _ _
          constructor
          · rintro ⟨⟨hkey, htake⟩, hrest⟩
            exact ⟨⟨hopens, hkey⟩, .inr ⟨htake, hnot, (hstop htake ▸ hrest).symm⟩⟩
          · rintro ⟨⟨-, hkey⟩, ⟨hwhole, -⟩ | ⟨htake, -, rfl⟩⟩
            · exact absurd hwhole hnot
            · exact ⟨⟨hkey, htake⟩, hstop htake⟩
      · rw [keyValues_of_not_opens hsep hopens]
        simp [hopens]

/-! ## Objects -/

/-- A member as it should be imported. -/
def pairOf (m : Member) : Bytes × Bytes := (m.key, m.value.content)

/-- Only the last value may be cut, since nothing is read behind a cut. -/
structure AllLegible (ms : List Member) : Prop where
  legible : ∀ m ∈ ms, IsLegible m
  whole : ∀ m ∈ ms.dropLast, IsWhole m.value
  last : ∀ m ∈ ms.getLast?, IsWhole m.value ∨ IsCutRight m.value

theorem allLegible_nil : AllLegible [] := ⟨by simp, by simp, by simp⟩

theorem allLegible_singleton :
    AllLegible [m] ↔ IsLegible m ∧ (IsWhole m.value ∨ IsCutRight m.value) := by
  constructor
  · exact fun h ↦ ⟨h.legible m (by simp), h.last m (by simp)⟩
  · rintro ⟨hlegible, hlast⟩
    exact ⟨by simpa using hlegible, by simp, by simpa using hlast⟩

theorem allLegible_cons_cons (m' : Member) (ms : List Member) :
    AllLegible (m :: m' :: ms) ↔ IsLegible m ∧ IsWhole m.value ∧ AllLegible (m' :: ms) := by
  constructor
  · rintro ⟨hlegible, hwhole, hlast⟩
    rw [List.forall_mem_cons] at hlegible
    rw [List.dropLast_cons_cons, List.forall_mem_cons] at hwhole
    rw [List.getLast?_cons_cons] at hlast
    exact ⟨hlegible.1, hwhole.1, hlegible.2, hwhole.2, hlast⟩
  · rintro ⟨hm, hvalue, hlegible, hwhole, hlast⟩
    refine ⟨List.forall_mem_cons.mpr ⟨hm, hlegible⟩, ?_, ?_⟩
    · rw [List.dropLast_cons_cons]
      exact List.forall_mem_cons.mpr ⟨hvalue, hwhole⟩
    · rw [List.getLast?_cons_cons]
      exact hlast

theorem keyValues_members_iff (hsep : isPairSeparator sep = true) (m : Member) (ms : List Member)
    {tail : Bytes} (htail : keyValues tail = []) :
    keyValues (m.written sep ++ (ms.flatMap (Member.written 44) ++ tail)) =
      (m :: ms).map pairOf ↔ AllLegible (m :: ms) := by
  induction ms generalizing m sep with
  | nil =>
      rw [allLegible_singleton]
      refine (keyValues_written_iff hsep m _ []).trans (and_congr_right fun _ ↦ ?_)
      rw [List.flatMap_nil, List.nil_append]
      constructor
      · rintro (⟨hwhole, -⟩ | ⟨hright, -⟩)
        · exact .inl hwhole
        · exact .inr hright
      · intro h
        by_cases hwhole : IsWhole m.value
        · exact .inl ⟨hwhole, htail⟩
        · exact .inr ⟨h.resolve_left hwhole, hwhole, rfl⟩
  | cons m' ms ih =>
      rw [allLegible_cons_cons]
      refine (keyValues_written_iff hsep m _ _).trans (and_congr_right fun _ ↦ ?_)
      rw [List.flatMap_cons, List.append_assoc, ← ih (show isPairSeparator 44 = true from rfl) m']
      constructor
      · rintro (⟨hwhole, hrest⟩ | ⟨-, -, hnil⟩)
        · exact ⟨hwhole, hrest⟩
        · cases hnil
      · exact fun h ↦ .inl h

/-- The import finds the members of an object exactly when all are legible. -/
theorem keyValues_flatObject_iff (o : FlatObject) :
    keyValues o.text = o.members.map pairOf ↔ AllLegible o.members := by
  have hnone : ∀ s, (34 : UInt8) ∉ s → keyValues s = [] := by
    intro s hs
    have hskip := skipQuote_dropWhile isPairSeparator hs []
    rw [List.append_nil, List.dropWhile_nil, skipQuote, ite_self] at hskip
    apply keyValues_of_none
    rw [parseOneKv, hskip]
    rfl
  have htail : (34 : UInt8) ∉ o.last.1 ++ 125 :: o.trail.1 := by simp [quote_notMem_space]
  rw [FlatObject.text, FlatObject.written]
  cases hmembers : o.members with
  | nil =>
      refine iff_of_true (hnone _ ?_) allLegible_nil
      simp [quote_notMem_space]
  | cons m ms =>
      rw [List.append_assoc]
      exact keyValues_members_iff rfl m ms (hnone _ htail)

end DoctorClaw
