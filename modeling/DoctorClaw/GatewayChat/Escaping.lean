import DoctorClaw.GatewayChat
import DoctorClaw.Lib.BufferWriter
import DoctorClaw.Lib.Escape

/-!
# Replies and prompts as JSON strings

`json_escape` writes quotes, backslashes and line ends as two bytes each, and
stops in front of a byte that might not fit.  `json_parse_string` undoes all of
its escapes.  `parse_json_prompt` undoes those of quotes and backslashes only.
-/

namespace DoctorClaw

open BufferWriter Escape

/-! ## The string parser -/

/-- The byte that the `switch` stores. -/
def jsonUnescaped (c : UInt8) : UInt8 :=
  if c = 110 then 10
  else if c = 114 then 13
  else if c = 116 then 9
  else c

/-- The loop, with room for `n` more bytes: the string, and what is left of the
text. -/
def jsonStringLoop : ℕ → Bytes → Bytes × Bytes
  | 0, p => ([], p)
  | _ + 1, [] => ([], [])
  | n + 1, c :: p =>
      if c = 34 then ([], c :: p)
      else if c = 92 then
        match p with
        | [] => ([c], [])
        | e :: p => (jsonUnescaped e :: (jsonStringLoop n p).1, (jsonStringLoop n p).2)
      else (c :: (jsonStringLoop n p).1, (jsonStringLoop n p).2)

def jsonParseString (p : Bytes) (outSize : ℕ) : Option (Bytes × Bytes) :=
  match p with
  | 34 :: p =>
      let (out, rest) := jsonStringLoop (sizeSub outSize 1) p
      some (out, if rest.head? = some 34 then rest.tail else rest)
  | _ => none

/-! ## What is escaped -/

def gatewayTable (c : UInt8) : Option UInt8 :=
  if c = 34 ∨ c = 92 then some c
  else if c = 10 then some 110
  else if c = 13 then some 114
  else none

theorem jsonEscapeChar_eq (c : UInt8) : jsonEscapeChar c = escapeByte gatewayTable c := by
  unfold jsonEscapeChar escapeByte gatewayTable
  split_ifs <;> rfl

/-- A front part of the text is escaped, all of it where two bytes for each one
fit. -/
theorem jsonEscapeFrom_eq (outSize j : ℕ) (s : Bytes) :
    ∃ t, t <+: s ∧ jsonEscapeFrom outSize j s = escape gatewayTable t ∧
      (j + 2 * s.length + 2 ≤ outSize → t = s) := by
  induction s generalizing j with
  | nil => exact ⟨[], List.prefix_rfl, rfl, fun _ ↦ rfl⟩
  | cons c s ih =>
      rw [jsonEscapeFrom]
      split_ifs with hroom
      · have hbyte := length_escapeByte gatewayTable c
        rw [← jsonEscapeChar_eq] at hbyte
        obtain ⟨t, hfront, heq, hall⟩ := ih (j + (jsonEscapeChar c).length)
        refine ⟨c :: t, List.cons_prefix_cons.mpr ⟨rfl, hfront⟩, ?_, fun hsize ↦ ?_⟩
        · rw [heq, escape_cons, jsonEscapeChar_eq]
        · rw [List.length_cons] at hsize
          rw [hall (by omega)]
      · refine ⟨[], List.nil_prefix, rfl, fun hsize ↦ ?_⟩
        rw [List.length_cons] at hsize
        omega

theorem jsonEscape_eq_of_le {s : Bytes} {outSize : ℕ} (h : 2 * s.length + 2 ≤ outSize) :
    jsonEscape s outSize = escape gatewayTable s := by
  obtain ⟨t, -, heq, hall⟩ := jsonEscapeFrom_eq outSize 0 s
  rw [jsonEscape, heq, hall (by omega)]

/-! ## Reading a reply -/

theorem jsonStringLoop_slash (n : ℕ) (e : UInt8) (p : Bytes) :
    jsonStringLoop (n + 1) (92 :: e :: p) =
      (jsonUnescaped e :: (jsonStringLoop n p).1, (jsonStringLoop n p).2) := by
  rw [jsonStringLoop.eq_def]
  rfl

theorem jsonStringLoop_byte {c : UInt8} (hquote : c ≠ 34) (hslash : c ≠ 92) (n : ℕ) (p : Bytes) :
    jsonStringLoop (n + 1) (c :: p) = (c :: (jsonStringLoop n p).1, (jsonStringLoop n p).2) := by
  rw [jsonStringLoop.eq_def]
  exact (if_neg hquote).trans (if_neg hslash)

/-- One escaped byte gives the byte again. -/
theorem jsonStringLoop_escapeByte (c : UInt8) (n : ℕ) (p : Bytes) :
    jsonStringLoop (n + 1) (escapeByte gatewayTable c ++ p) =
      (c :: (jsonStringLoop n p).1, (jsonStringLoop n p).2) := by
  have hundo : ∀ c e : UInt8, gatewayTable c = some e → jsonUnescaped e = c := by
    intro c e h
    unfold gatewayTable at h
    split_ifs at h with hself hten hthirteen
    · obtain rfl := Option.some.inj h
      rcases hself with rfl | rfl <;> rfl
    · obtain rfl := Option.some.inj h
      exact hten.symm
    · obtain rfl := Option.some.inj h
      exact hthirteen.symm
  unfold escapeByte
  cases hc : gatewayTable c with
  | some e =>
      simp only [List.cons_append, List.nil_append]
      rw [jsonStringLoop_slash, hundo c e hc]
  | none =>
      have hquote : c ≠ 34 := by
        rintro rfl
        cases hc
      have hslash : c ≠ 92 := by
        rintro rfl
        cases hc
      exact jsonStringLoop_byte hquote hslash n p

theorem jsonStringLoop_escape {s : Bytes} {n : ℕ} (hn : s.length ≤ n) (rest : Bytes) :
    jsonStringLoop n (escape gatewayTable s ++ 34 :: rest) = (s, 34 :: rest) := by
  induction s generalizing n with
  | nil => cases n <;> rfl
  | cons c s ih =>
      obtain ⟨n, rfl⟩ : ∃ k, n = k + 1 := ⟨n - 1, by simp at hn; omega⟩
      rw [escape_cons, List.append_assoc, jsonStringLoop_escapeByte,
        ih (Nat.le_of_succ_le_succ hn)]

theorem jsonParseString_escape {s : Bytes} {size : ℕ} (hsize : s.length < size) (rest : Bytes) :
    jsonParseString (34 :: (escape gatewayTable s ++ 34 :: rest)) size = some (s, rest) := by
  rw [jsonParseString, Writer.sizeSub_of_le (by omega), jsonStringLoop_escape (by omega)]
  rfl

/-- The answer to a chat request behind its key. -/
theorem quoted_response {s : Bytes} (h : s.length ≤ 16383) :
    quoted "response" (jsonEscape s 32768) =
      ascii "\x7b\"response\":" ++ 34 :: (escape gatewayTable s ++ 34 :: [125]) := by
  have hkey : ascii "\x7b\"" ++ ascii "response" ++ ascii "\":\"" =
      ascii "\x7b\"response\":" ++ [34] := by decide
  have hlen := length_escape_le gatewayTable s
  have hfits : (ascii "\x7b\"response\":" ++ [34] ++ escape gatewayTable s ++
      ascii "\"\x7d").length < chatBodySize := by
    have hfront : (ascii "\x7b\"response\":" ++ [34]).length = 13 := by decide
    have hback : (ascii "\"\x7d").length = 2 := by decide
    rw [List.length_append, List.length_append, hfront, hback]
    unfold chatBodySize
    omega
  rw [quoted, jsonEscape_eq_of_le (by omega), hkey, CString.cut_of_lt hfits, List.append_assoc,
    List.append_assoc]
  rfl

/-- Escaping loses at most an end that does not fit, and no reply of up to 16383
bytes loses anything in the answer to its request. -/
theorem jsonEscape_lossless (s : Bytes) (outSize : ℕ) :
    (∃ t, t <+: s ∧ (2 * s.length + 2 ≤ outSize → t = s) ∧
      ∀ size, s.length < size →
        jsonParseString (34 :: (jsonEscape s outSize ++ [34])) size = some (t, [])) ∧
    (s.length ≤ 16383 → ∀ size, s.length < size →
      jsonParseString (34 :: (jsonEscape s 32768 ++ [34])) size = some (s, []) ∧
        jsonParseString ((quoted "response" (jsonEscape s 32768)).drop 12) size =
          some (s, [125])) := by
  constructor
  · obtain ⟨t, hfront, heq, hall⟩ := jsonEscapeFrom_eq outSize 0 s
    refine ⟨t, hfront, fun hsize ↦ hall (by omega), fun size hsize ↦ ?_⟩
    rw [jsonEscape, heq]
    exact jsonParseString_escape (hfront.length_le.trans_lt hsize) []
  · intro hlen size hsize
    have hkey : (ascii "\x7b\"response\":").length = 12 := by decide
    refine ⟨?_, ?_⟩
    · rw [jsonEscape_eq_of_le (by omega)]
      exact jsonParseString_escape hsize []
    · rw [quoted_response hlen, List.drop_left' hkey]
      exact jsonParseString_escape hsize [125]

/-! ## Reading a prompt -/

def promptBody (text : Bytes) : Bytes := ascii "\x7b\"prompt\":\"" ++ (text ++ ascii "\"\x7d")

theorem parseJsonPrompt_promptBody (text : Bytes) (promptSize : ℕ) :
    parseJsonPrompt (promptBody text) promptSize =
      some (copyPrompt (promptSize - 1) (text ++ 34 :: [125])) := by
  have hbody : promptBody text =
      123 :: (ascii "\"prompt\"" ++ (ascii ":\"" ++ (text ++ 34 :: [125]))) := rfl
  have hfirst : ¬ ascii "\"prompt\"" <+:
      123 :: (ascii "\"prompt\"" ++ (ascii ":\"" ++ (text ++ 34 :: [125]))) := fun h ↦
    absurd (List.cons_prefix_cons.mp h).1 (by decide)
  rw [parseJsonPrompt, hbody, CString.strstr_cons_of_not hfirst,
    CString.strstr_of_isPrefix (List.prefix_append _ _)]
  rfl

theorem copyPrompt_undone {d : UInt8} (hd : d = 34 ∨ d = 92) (n : ℕ) (p : Bytes) :
    copyPrompt (n + 1) (92 :: d :: p) = d :: copyPrompt n p := by
  rw [copyPrompt.eq_def]
  exact if_pos hd

theorem copyPrompt_kept {d : UInt8} (hd : ¬ (d = 34 ∨ d = 92)) (n : ℕ) (p : Bytes) :
    copyPrompt (n + 1) (92 :: d :: p) = 92 :: copyPrompt n (d :: p) := by
  rw [copyPrompt.eq_def]
  exact if_neg hd

theorem copyPrompt_byte {c : UInt8} (hquote : c ≠ 34) (hslash : c ≠ 92) (n : ℕ) (p : Bytes) :
    copyPrompt (n + 1) (c :: p) = c :: copyPrompt n p := by
  rw [copyPrompt.eq_def]
  exact (if_neg hslash).trans (if_neg hquote)

theorem copyPrompt_quote (n : ℕ) (p : Bytes) : copyPrompt n (34 :: p) = [] := by
  cases n <;> rfl

/-- The bytes in front of the first line end come out as they went in. -/
theorem copyPrompt_escape {pre : Bytes} (h : ∀ c ∈ pre, c ≠ 10 ∧ c ≠ 13) (n : ℕ) (rest : Bytes) :
    copyPrompt (pre.length + n) (escape gatewayTable pre ++ rest) = pre ++ copyPrompt n rest := by
  induction pre with
  | nil => rw [List.length_nil, Nat.zero_add]; rfl
  | cons c pre ih =>
      rw [List.forall_mem_cons] at h
      obtain ⟨⟨hten, hthirteen⟩, hpre⟩ := h
      rw [escape_cons, List.append_assoc, List.length_cons, Nat.add_right_comm, List.cons_append,
        ← ih hpre]
      by_cases hc : c = 34 ∨ c = 92
      · have hbyte : escapeByte gatewayTable c = [92, c] := by simp [escapeByte, gatewayTable, hc]
        rw [hbyte]
        exact copyPrompt_undone hc _ _
      · have hbyte : escapeByte gatewayTable c = [c] := by
          simp [escapeByte, gatewayTable, hc, hten, hthirteen]
        rw [hbyte]
        obtain ⟨hquote, hslash⟩ := not_or.mp hc
        exact copyPrompt_byte hquote hslash _ _

/-- A line end comes out as a backslash and a letter. -/
theorem copyPrompt_lineEnd {c : UInt8} (hc : c = 10 ∨ c = 13) (n : ℕ) (rest : Bytes) :
    ∃ out, copyPrompt (n + 1) (escapeByte gatewayTable c ++ rest) = 92 :: out := by
  rcases hc with rfl | rfl
  · exact ⟨_, copyPrompt_kept (by decide) n rest⟩
  · exact ⟨_, copyPrompt_kept (by decide) n rest⟩

theorem exists_first_lineEnd {s : Bytes} (h : ∃ c ∈ s, c = 10 ∨ c = 13) :
    ∃ pre c post, s = pre ++ c :: post ∧ (∀ b ∈ pre, b ≠ 10 ∧ b ≠ 13) ∧ (c = 10 ∨ c = 13) := by
  obtain ⟨c, hc, hend⟩ := h
  induction s with
  | nil => exact absurd hc List.not_mem_nil
  | cons b s ih =>
      by_cases hb : b = 10 ∨ b = 13
      · exact ⟨[], b, s, rfl, List.forall_mem_nil _, hb⟩
      · have hmem : c ∈ s := (List.mem_cons.mp hc).resolve_left fun heq ↦ hb (heq ▸ hend)
        obtain ⟨pre, d, post, rfl, hpre, hd⟩ := ih hmem
        exact ⟨b :: pre, d, post, rfl, List.forall_mem_cons.mpr ⟨not_or.mp hb, hpre⟩, hd⟩

theorem copyPrompt_ne {s : Bytes} (h : ∃ c ∈ s, c = 10 ∨ c = 13) {n : ℕ} (hn : s.length ≤ n)
    (rest : Bytes) : copyPrompt n (escape gatewayTable s ++ rest) ≠ s := by
  obtain ⟨pre, c, post, rfl, hpre, hc⟩ := exists_first_lineEnd h
  rw [List.length_append, List.length_cons] at hn
  obtain ⟨n, rfl⟩ : ∃ k, n = pre.length + (k + 1) := ⟨n - pre.length - 1, by omega⟩
  obtain ⟨out, hout⟩ := copyPrompt_lineEnd hc n (escape gatewayTable post ++ rest)
  rw [escape_append, escape_cons, List.append_assoc, copyPrompt_escape hpre, List.append_assoc,
    hout]
  intro heq
  obtain ⟨rfl, -⟩ := List.cons.inj (List.append_cancel_left heq)
  exact absurd hc (by decide)

/-- A prompt without line ends comes out as it went in, and no other one. -/
theorem parseJsonPrompt_jsonEscape_iff {s : Bytes} {outSize promptSize : ℕ}
    (hout : 2 * s.length + 2 ≤ outSize) (hprompt : s.length < promptSize) :
    parseJsonPrompt (promptBody (jsonEscape s outSize)) promptSize = some s ↔
      (10 : UInt8) ∉ s ∧ (13 : UInt8) ∉ s := by
  rw [parseJsonPrompt_promptBody, jsonEscape_eq_of_le hout, Option.some.injEq]
  constructor
  · intro h
    by_contra hends
    refine copyPrompt_ne ?_ (by omega) _ h
    by_contra hnone
    exact hends ⟨fun hmem ↦ hnone ⟨10, hmem, .inl rfl⟩, fun hmem ↦ hnone ⟨13, hmem, .inr rfl⟩⟩
  · rintro ⟨hten, hthirteen⟩
    obtain ⟨n, hn⟩ : ∃ n, promptSize - 1 = s.length + n := ⟨promptSize - 1 - s.length, by omega⟩
    have hclean : ∀ c ∈ s, c ≠ 10 ∧ c ≠ 13 := fun c hc ↦
      ⟨fun heq ↦ hten (heq ▸ hc), fun heq ↦ hthirteen (heq ▸ hc)⟩
    rw [hn, copyPrompt_escape hclean, copyPrompt_quote, List.append_nil]

theorem parseJsonPrompt_jsonEscape_hello :
    parseJsonPrompt (promptBody (jsonEscape (ascii "say \"hi\"") 32768)) 4096 =
      some (ascii "say \"hi\"") :=
  (parseJsonPrompt_jsonEscape_iff (by decide) (by decide)).mpr (by decide)

/-- Two lines. -/
theorem two_lines_not_decoded :
    ¬ ∀ s : Bytes, (0 : UInt8) ∉ s → s.length ≤ 2000 →
      parseJsonPrompt (promptBody (jsonEscape s 32768)) 4096 = some s := by
  intro h
  have hlines := h (ascii "a\nb") (by decide) (by decide)
  rw [parseJsonPrompt_promptBody, jsonEscape_eq_of_le (by decide), Option.some.injEq] at hlines
  exact copyPrompt_ne ⟨10, by decide, .inl rfl⟩ (by decide) _ hlines

end DoctorClaw
