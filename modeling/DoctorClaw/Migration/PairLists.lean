import DoctorClaw.Lib.Escape
import DoctorClaw.Migration.KeyValues

/-!
# Reading a list of pairs back

A list of pairs is written as an object of strings, with quotes and backslashes
escaped and nothing else.  The calls of `parse_one_kv` take the pairs off it one
by one.
-/

namespace DoctorClaw

open CString Escape Json

/-! ## Moving on -/

theorem takeKey_suffix (n : ℕ) (s : Bytes) : (takeKey n s).2 <:+ s := by
  fun_induction takeKey n s with
  | case1 s => exact List.suffix_rfl
  | case2 n => exact List.suffix_rfl
  | case3 n s => exact List.suffix_rfl
  | case4 n hquote => exact List.nil_suffix
  | case5 n d s hquote ih => exact (ih.trans (List.suffix_cons d s)).trans (List.suffix_cons 92 _)
  | case6 n c s hquote hslash ih => exact ih.trans (List.suffix_cons c s)

theorem takeValue_suffix (n : ℕ) (s : Bytes) : (takeValue n s).2 <:+ s := by
  fun_induction takeValue n s with
  | case1 s => exact List.suffix_rfl
  | case2 n => exact List.suffix_rfl
  | case3 n s => exact List.suffix_rfl
  | case4 n hquote => exact List.nil_suffix
  | case5 n d t hquote hundone ih =>
      exact (ih.trans (List.suffix_cons d t)).trans (List.suffix_cons 92 _)
  | case6 n d t hquote hundone ih => exact ih.trans (List.suffix_cons 92 _)
  | case7 n c s hquote hslash ih => exact ih.trans (List.suffix_cons c s)

theorem skipQuote_suffix {s rest : Bytes} (h : skipQuote s = some rest) : rest <:+ s := by
  rw [skipQuote_eq_some h]
  exact List.suffix_cons 34 rest

/-- A call that finds a pair leaves the position further on in the text. -/
theorem parseOneKv_advances {s rest : Bytes} {keyLen valueLen : ℕ} {pair : Bytes × Bytes}
    (h : parseOneKv s keyLen valueLen = some (pair, rest)) :
    rest <:+ s ∧ rest.length < s.length := by
  refine ⟨?_, length_parseOneKv_lt h⟩
  obtain ⟨s₁, hopen, h⟩ := Option.bind_eq_some_iff.mp h
  obtain ⟨s₂, hclose, h⟩ := Option.bind_eq_some_iff.mp h
  obtain ⟨s₃, hvalue, heq⟩ := Option.map_eq_some_iff.mp h
  cases heq
  have hlast : (skipQuote (takeValue (valueLen - 1) s₃).2).getD (takeValue (valueLen - 1) s₃).2 <:+
      (takeValue (valueLen - 1) s₃).2 := by
    cases hskip : skipQuote (takeValue (valueLen - 1) s₃).2 with
    | none => exact List.suffix_rfl
    | some rest => exact skipQuote_suffix hskip
  calc
    _ <:+ (takeValue (valueLen - 1) s₃).2 := hlast
    _ <:+ s₃ := takeValue_suffix _ _
    _ <:+ s₂.dropWhile isValueSeparator := skipQuote_suffix hvalue
    _ <:+ s₂ := List.dropWhile_suffix _
    _ <:+ (takeKey (keyLen - 1) s₁).2 := skipQuote_suffix hclose
    _ <:+ s₁ := takeKey_suffix _ _
    _ <:+ s.dropWhile isPairSeparator := skipQuote_suffix hopen
    _ <:+ s := List.dropWhile_suffix _

/-- The calls of `parse_one_kv` from the position `s` on return these pairs, each
of them moves the position on, and the call behind the last one returns 0. -/
inductive ReturnsPairs : Bytes → List (Bytes × Bytes) → Prop
  | done {s : Bytes} (h : parseOneKv s migrationKeyLen migrationValueLen = none) : ReturnsPairs s []
  | pair {s rest : Bytes} {kv : Bytes × Bytes} {kvs : List (Bytes × Bytes)}
      (h : parseOneKv s migrationKeyLen migrationValueLen = some (kv, rest))
      (hsuffix : rest <:+ s) (hshorter : rest.length < s.length) (hrest : ReturnsPairs rest kvs) :
      ReturnsPairs s (kv :: kvs)

theorem ReturnsPairs.of_some {s rest : Bytes} {kv : Bytes × Bytes} {kvs : List (Bytes × Bytes)}
    (h : parseOneKv s migrationKeyLen migrationValueLen = some (kv, rest))
    (hrest : ReturnsPairs rest kvs) : ReturnsPairs s (kv :: kvs) := by
  obtain ⟨hsuffix, hshorter⟩ := parseOneKv_advances h
  exact .pair h hsuffix hshorter hrest

/-- These are the pairs that the import goes through. -/
theorem ReturnsPairs.keyValues_eq {s : Bytes} {kvs : List (Bytes × Bytes)}
    (h : ReturnsPairs s kvs) : keyValues s = kvs := by
  induction h with
  | done h => exact keyValues_of_none h
  | pair h hsuffix hshorter hrest ih => rw [keyValues_of_some h, ih]

/-! ## The text of a list -/

def pairText (kv : Bytes × Bytes) : Bytes :=
  34 :: (escape quotes kv.1 ++ 34 :: 58 :: 34 :: (escape quotes kv.2 ++ [34]))

/-- The texts of further pairs, with a comma in front of each. -/
def morePairs (kvs : List (Bytes × Bytes)) : Bytes := kvs.flatMap fun kv ↦ 44 :: pairText kv

/-- `{"k1":"v1","k2":"v2"}` -/
def pairsText : List (Bytes × Bytes) → Bytes
  | [] => [123, 125]
  | kv :: kvs => 123 :: (pairText kv ++ (morePairs kvs ++ [125]))

/-- Two strings that fit in the buffers. -/
structure FitsBuffers (kv : Bytes × Bytes) : Prop where
  key_nul : (0 : UInt8) ∉ kv.1
  value_nul : (0 : UInt8) ∉ kv.2
  key_fits : kv.1.length ≤ 255
  value_fits : kv.2.length ≤ 16383

theorem nul_notMem_quotes {s : Bytes} (hs : (0 : UInt8) ∉ s) : (0 : UInt8) ∉ escape quotes s :=
  notMem_escape (by decide) (fun _ hb ↦ eq_of_quotes hb) hs

theorem nul_notMem_pairText {kv : Bytes × Bytes} (h : FitsBuffers kv) :
    (0 : UInt8) ∉ pairText kv := by
  simp [pairText, nul_notMem_quotes h.key_nul, nul_notMem_quotes h.value_nul]

theorem nul_notMem_pairsText {kvs : List (Bytes × Bytes)} (h : ∀ kv ∈ kvs, FitsBuffers kv) :
    (0 : UInt8) ∉ pairsText kvs := by
  cases kvs with
  | nil => decide
  | cons kv kvs =>
      rw [List.forall_mem_cons] at h
      have hmore : (0 : UInt8) ∉ morePairs kvs := by
        intro hmem
        obtain ⟨kv', hkv', hmem⟩ := List.mem_flatMap.mp hmem
        rcases List.mem_cons.mp hmem with hcomma | hpair
        · exact absurd hcomma (by decide)
        · exact nul_notMem_pairText (h.2 kv' hkv') hpair
      simp [pairsText, nul_notMem_pairText h.1, hmore]

/-! ## Escaped strings as bodies -/

theorem body_escape_quotes (s : Bytes) : Body (escape quotes s) := by
  induction s with
  | nil => exact .nil
  | cons c s ih =>
      rw [escape_quotes_cons]
      split_ifs with hc
      · exact .escape c ih
      · obtain ⟨hquote, hslash⟩ := not_or.mp hc
        exact .byte hquote hslash ih

/-- Both loops put the quote and the backslash in place of their escapes. -/
theorem putEscapes_escape_quotes {piece : UInt8 → Bytes} (hquote : piece 34 = [34])
    (hslash : piece 92 = [92]) (s : Bytes) : putEscapes piece (escape quotes s) = s := by
  induction s with
  | nil => rfl
  | cons c s ih =>
      rw [escape_quotes_cons]
      split_ifs with hc
      · have hpiece : piece c = [c] := by
          rcases hc with rfl | rfl
          · exact hquote
          · exact hslash
        rw [putEscapes_escape, hpiece, ih, List.singleton_append]
      · rw [putEscapes_byte (not_or.mp hc).2, ih]

theorem Reads.eq_of_le {w rest : Bytes} {n : ℕ} {p : Bytes × Bytes} (h : Reads w rest n p)
    (hlen : w.length ≤ n) : p = (w, 34 :: rest) := by
  obtain ⟨-, hp⟩ | ⟨hlt, -⟩ := h
  · exact hp
  · exact absurd hlen (Nat.not_le.mpr hlt)

theorem takeKey_escape_quotes {w : Bytes} {n : ℕ} (hlen : w.length ≤ n) (rest : Bytes) :
    takeKey n (escape quotes w ++ 34 :: rest) = (w, 34 :: rest) := by
  have hreads := reads_takeKey (body_escape_quotes w) rest n
  rw [putEscapes_escape_quotes rfl rfl] at hreads
  exact hreads.eq_of_le hlen

theorem takeValue_escape_quotes {w : Bytes} {n : ℕ} (hlen : w.length ≤ n) (rest : Bytes) :
    takeValue n (escape quotes w ++ 34 :: rest) = (w, 34 :: rest) := by
  have hreads := reads_takeValue (body_escape_quotes w) rest n
  rw [putEscapes_escape_quotes rfl rfl] at hreads
  exact hreads.eq_of_le hlen

/-! ## The calls -/

variable {kv : Bytes × Bytes}

theorem parseOneKv_pairText {sep : UInt8} (hsep : isPairSeparator sep = true) (h : FitsBuffers kv)
    (rest : Bytes) :
    parseOneKv (sep :: (pairText kv ++ rest)) migrationKeyLen migrationValueLen =
      some (kv, rest) := by
  have hopen : skipQuote ((sep :: (pairText kv ++ rest)).dropWhile isPairSeparator) =
      some (escape quotes kv.1 ++ 34 :: 58 :: 34 :: (escape quotes kv.2 ++ 34 :: rest)) := by
    have hquote : isPairSeparator 34 = false := rfl
    rw [List.dropWhile_cons, hsep, if_pos rfl, pairText, List.cons_append, List.dropWhile_cons,
      hquote]
    simp [skipQuote]
  have hgap : skipQuote ((58 :: 34 :: (escape quotes kv.2 ++ 34 :: rest)).dropWhile
      isValueSeparator) = some (escape quotes kv.2 ++ 34 :: rest) := rfl
  have hkey : ∀ t, takeKey (migrationKeyLen - 1) (escape quotes kv.1 ++ 34 :: t) =
      (kv.1, 34 :: t) := takeKey_escape_quotes h.key_fits
  have hvalue : takeValue (migrationValueLen - 1) (escape quotes kv.2 ++ 34 :: rest) =
      (kv.2, 34 :: rest) := takeValue_escape_quotes h.value_fits rest
  rw [parseOneKv, hopen, Option.bind_some]
  dsimp only
  rw [hkey, skipQuote, if_pos rfl, Option.bind_some, hgap, Option.map_some, hvalue]
  rfl

theorem returnsPairs_cons {sep : UInt8} (hsep : isPairSeparator sep = true) (h : FitsBuffers kv)
    {kvs : List (Bytes × Bytes)} (hkvs : ∀ kv ∈ kvs, FitsBuffers kv) :
    ReturnsPairs (sep :: (pairText kv ++ (morePairs kvs ++ [125]))) (kv :: kvs) := by
  induction kvs generalizing sep kv with
  | nil => exact .of_some (parseOneKv_pairText hsep h _) (.done rfl)
  | cons kv' kvs ih =>
      rw [List.forall_mem_cons] at hkvs
      refine .of_some (parseOneKv_pairText hsep h _) ?_
      have hmore : morePairs (kv' :: kvs) ++ [125] =
          44 :: (pairText kv' ++ (morePairs kvs ++ [125])) := by
        simp [morePairs]
      rw [hmore]
      exact ih rfl hkvs.1 hkvs.2

/-- The pairs come back from a buffer with their text, whatever is behind its
end. -/
theorem returnsPairs_pairsText {kvs : List (Bytes × Bytes)} (h : ∀ kv ∈ kvs, FitsBuffers kv)
    (behind : Bytes) : ReturnsPairs (ofBuffer (pairsText kvs ++ 0 :: behind)) kvs := by
  rw [ofBuffer_append_zero (nul_notMem_pairsText h)]
  cases kvs with
  | nil => exact .done rfl
  | cons kv kvs =>
      rw [List.forall_mem_cons] at h
      exact returnsPairs_cons rfl h.1 h.2

/-- `{"a\"b":"\\","c":"d"}` -/
theorem returnsPairs_pairsText_quotes :
    ReturnsPairs
      (ofBuffer (pairsText [(ascii "a\"b", ascii "\\"), (ascii "c", ascii "d")] ++ 0 :: []))
      [(ascii "a\"b", ascii "\\"), (ascii "c", ascii "d")] := by
  have hquotes : FitsBuffers (ascii "a\"b", ascii "\\") := by
    constructor <;> decide
  have hplain : FitsBuffers (ascii "c", ascii "d") := by
    constructor <;> decide
  exact returnsPairs_pairsText
    (List.forall_mem_cons.mpr ⟨hquotes, List.forall_mem_singleton.mpr hplain⟩) []

end DoctorClaw
