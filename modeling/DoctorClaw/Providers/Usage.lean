import DoctorClaw.Lib.Decimal
import DoctorClaw.Providers.Replies

/-!
# The tokens of a completion

The usage object of a response is copied to a buffer of 64 bytes and each
number is looked for there.  Keys and punctuation take 54 bytes, so the last
number loses digits when the three numbers have more than nine together, and
its key is cut when the first two have more than nine.  As a string value in
front of the object, `"usage"` sends the search to another member.
-/

namespace DoctorClaw

/-! ## The code -/

/-- The fields of `chat_response_t` that the providers fill. -/
structure CompletionResponse where
  content : Bytes
  tokensUsed : ℕ
  promptTokens : ℕ
  completionTokens : ℕ
  done : Bool
  toolCalls : List (Bytes × Bytes)

/-- What `http_post` returns, and the data of its response. -/
structure HttpPosted where
  result : ℤ
  data : Option Bytes

def usageSize : ℕ := 64

def tokensSize : ℕ := 32

/-- An `int` stored as a `size_t`. -/
def sizeOfInt (n : ℤ) : ℕ := (n % 2 ^ 64).toNat

def usageTokens (usage key : Bytes) (tokens : ℕ) : ℕ :=
  match findJsonValue usage key tokensSize with
  | some value => sizeOfInt (Decimal.atoi value)
  | none => tokens

/-- The three numbers as they stand in `usage`. -/
def CompletionResponse.readNumbers (response : CompletionResponse) (usage : Bytes) :
    CompletionResponse :=
  { response with
    promptTokens := usageTokens usage (ascii "prompt_tokens") response.promptTokens
    completionTokens := usageTokens usage (ascii "completion_tokens") response.completionTokens
    tokensUsed := usageTokens usage (ascii "total_tokens") response.tokensUsed }

def CompletionResponse.readUsage (response : CompletionResponse) (data : Bytes) :
    CompletionResponse :=
  match findJsonValue data (ascii "usage") usageSize with
  | some usage => response.readNumbers usage
  | none => response

def CompletionResponse.readContent (response : CompletionResponse) (data : Bytes) :
    CompletionResponse :=
  { response with
    content := (parseResponseContent data response.content contentSize).2
    done := true }

def CompletionResponse.requestFailed (response : CompletionResponse) : CompletionResponse :=
  { response with content := CString.cut contentSize (ascii "HTTP request failed") }

/-- From the reply of the server on. -/
def providerOpenaiCompletion (posted : HttpPosted) (response : CompletionResponse) :
    ℤ × CompletionResponse :=
  match posted.data with
  | some data =>
      if posted.result = 0 then (posted.result, (response.readContent data).readUsage data)
      else (posted.result, response.requestFailed)
  | none => (posted.result, response.requestFailed)

/-- From the reply of the server on; `none` is an array of tool calls that is
written past its buffer. -/
def providerOpenaiWithTools (posted : HttpPosted) (response : CompletionResponse) :
    Option (ℤ × CompletionResponse) :=
  match posted.data with
  | some data =>
      if posted.result = 0 then
        (decodeToolCalls data).map fun calls ↦
          (posted.result, ({ response.readContent data with toolCalls := calls }).readUsage data)
      else some (posted.result, response.requestFailed)
  | none => some (posted.result, response.requestFailed)

/-! ## Numbers in an object -/

theorem isDigit_spec : ∀ c, Decimal.isDigit c = true →
    CString.isspace c = false ∧ c ≠ 34 ∧ c ≠ 123 ∧ c ≠ 91 ∧ c ≠ 44 ∧ c ≠ 125 :=
  CString.forall_byte (by decide +kernel)

/-- A value that is no string, object or array. -/
theorem jsonValue_bare {value : Bytes} {outLen : ℕ}
    (hvalue : ∀ c ∈ value.head?, CString.isspace c = false ∧ c ≠ 34 ∧ c ≠ 123 ∧ c ≠ 91) :
    jsonValue outLen value =
      some ((value.takeWhile fun c ↦ !CString.isspace c && c ≠ 44 && c ≠ 125).take
        (outLen - 1)) := by
  unfold jsonValue
  cases value with
  | nil => rfl
  | cons c value =>
      obtain ⟨hspace, hquote, hbrace, hbracket⟩ := hvalue c rfl
      rw [List.dropWhile_cons_of_neg (by simp [hspace])]
      split
      · next heq => exact absurd (List.cons.inj heq).1 hquote
      · next heq => exact absurd (List.cons.inj heq).1 hbrace
      · next heq => exact absurd (List.cons.inj heq).1 hbracket
      · rfl

/-- A number, or what a cut left of it. -/
theorem findJsonValue_digits {json key ds rest : Bytes} {outLen : ℕ}
    (hkey : (58 : UInt8) ∉ key)
    (hfound : CString.strstr ([34] ++ key ++ [34]) json =
      some ([34] ++ key ++ [34] ++ 58 :: (ds ++ rest)))
    (hds : ∀ c ∈ ds, Decimal.isDigit c = true) (hlen : ds.length < outLen)
    (hrest : ∀ c ∈ rest.head?, c = 44 ∨ c = 125) :
    findJsonValue json key outLen = some ds := by
  have hvalue : ∀ c ∈ (ds ++ rest).head?,
      CString.isspace c = false ∧ c ≠ 34 ∧ c ≠ 123 ∧ c ≠ 91 := by
    intro c hc
    cases ds with
    | nil => rcases hrest c hc with rfl | rfl <;> decide
    | cons d ds =>
        obtain rfl : d = c := Option.some.inj hc
        obtain ⟨hspace, hquote, hbrace, hbracket, -⟩ := isDigit_spec d (hds d List.mem_cons_self)
        exact ⟨hspace, hquote, hbrace, hbracket⟩
  have htake : (ds ++ rest).takeWhile (fun c ↦ !CString.isspace c && c ≠ 44 && c ≠ 125) = ds := by
    rw [List.takeWhile_append_of_pos]
    · cases rest with
      | nil => rw [List.takeWhile_nil, List.append_nil]
      | cons c rest =>
          rw [List.takeWhile_cons_of_neg, List.append_nil]
          rcases hrest c rfl with rfl | rfl <;> decide
    · intro c hc
      obtain ⟨hspace, -, -, -, hcomma, hbrace⟩ := isDigit_spec c (hds c hc)
      simp [hspace, hcomma, hbrace]
  have hshort : ds.take (outLen - 1) = ds := List.take_of_length_le (by omega)
  have hcolon : CString.strchr 58 ([34] ++ key ++ [34] ++ 58 :: (ds ++ rest)) =
      some (58 :: (ds ++ rest)) := CString.strchr_append (by simpa using hkey) _
  rw [findJsonValue, hfound, Option.bind_some, hcolon, Option.bind_some, List.tail_cons,
    jsonValue_bare hvalue, htake, hshort]

/-- An object without further brackets. -/
theorem jsonValue_flat {s : Bytes} (outLen : ℕ) (hs : ∀ c ∈ s, c ∉ ([123, 91, 125, 93] : Bytes))
    (rest : Bytes) :
    jsonValue outLen (123 :: (s ++ 125 :: rest)) =
      some ((123 :: (s ++ [125])).take (outLen - 1)) := by
  have hobject : balanced 0 (123 :: (s ++ 125 :: rest)) = 123 :: (s ++ [125]) := by
    rw [← balanced_flat hs rest]
    rfl
  rw [← hobject]
  rfl

/-! ## The usage object -/

def promptText : Bytes := ascii "\"prompt_tokens\":"

def completionText : Bytes := ascii ",\"completion_tokens\":"

def totalText : Bytes := ascii ",\"total_tokens\":"

/-- The object without its braces. -/
def usageText (p c t : ℕ) : Bytes :=
  promptText ++ (Decimal.printNat p ++ (completionText ++ (Decimal.printNat c ++
    (totalText ++ Decimal.printNat t))))

def usageMember (p c t : ℕ) : Bytes := ascii "\"usage\":\x7b" ++ (usageText p c t ++ [125])

/-- A response with the usage object, the first member with this key. -/
structure UsageReply (p c t : ℕ) where
  front : Bytes
  behind : Bytes
  first : NoMember (ascii "usage") front

/-- The text from the usage object on. -/
def UsageReply.value {p c t : ℕ} (r : UsageReply p c t) : Bytes :=
  123 :: (usageText p c t ++ 125 :: r.behind)

def UsageReply.data {p c t : ℕ} (r : UsageReply p c t) : Bytes :=
  r.front ++ (usageMember p c t ++ r.behind)

/-- What the buffer of the usage object holds: the digits of the last number
that fit. -/
def usageBuffer (p c t : ℕ) : Bytes :=
  123 :: (promptText ++ (Decimal.printNat p ++ (completionText ++ (Decimal.printNat c ++
    (totalText ++ (Decimal.printNat t ++ [125])).take
      (25 - (Decimal.printNat p).length - (Decimal.printNat c).length)))))

theorem length_printNat_le_ten {n : ℕ} (hn : n < 2 ^ 31) : (Decimal.printNat n).length ≤ 10 :=
  Decimal.length_printNat_le (by omega) (by omega)

theorem length_printNat_pos (n : ℕ) : 0 < (Decimal.printNat n).length :=
  List.length_pos_iff.mpr (Decimal.printNat_ne_nil n)

theorem take_append_of_length_le {x : Bytes} {n : ℕ} (hx : x.length ≤ n) (y : Bytes) :
    (x ++ y).take n = x ++ y.take (n - x.length) := by
  rw [List.take_append, List.take_of_length_le hx]

theorem take_usageText {p c : ℕ} (hp : p < 2 ^ 31) (hc : c < 2 ^ 31) (t : ℕ) :
    (123 :: (usageText p c t ++ [125])).take (usageSize - 1) = usageBuffer p c t := by
  have hdp := length_printNat_le_ten hp
  have hdc := length_printNat_le_ten hc
  have hprompt : promptText.length = 16 := by decide
  have hcompletion : completionText.length = 21 := by decide
  have hsize : usageSize - 1 = 62 + 1 := rfl
  have hroom : 62 - 16 - (Decimal.printNat p).length - 21 - (Decimal.printNat c).length =
      25 - (Decimal.printNat p).length - (Decimal.printNat c).length := by omega
  rw [usageBuffer, usageText, hsize, List.take_succ_cons]
  simp only [List.append_assoc]
  rw [take_append_of_length_le (by omega), take_append_of_length_le (by omega),
    take_append_of_length_le (by omega), take_append_of_length_le (by omega), hprompt,
    hcompletion, hroom]

theorem notBracket_of_isDigit : ∀ c, Decimal.isDigit c = true →
    c ∉ ([123, 91, 125, 93] : Bytes) :=
  CString.forall_byte (by decide +kernel)

theorem notBracket_of_mem_usageText (p c t : ℕ) :
    ∀ b ∈ usageText p c t, b ∉ ([123, 91, 125, 93] : Bytes) := by
  have hlit : ∀ b ∈ promptText ++ completionText ++ totalText,
      b ∉ ([123, 91, 125, 93] : Bytes) := by decide +kernel
  have hdigit : ∀ n, ∀ b ∈ Decimal.printNat n, b ∉ ([123, 91, 125, 93] : Bytes) :=
    fun n b hb ↦ notBracket_of_isDigit b (Decimal.isDigit_of_mem_printNat hb)
  intro b hb
  simp only [usageText, List.mem_append] at hb
  rcases hb with hb | hb | hb | hb | hb | hb
  · exact hlit b (by simp [hb])
  · exact hdigit p b hb
  · exact hlit b (by simp [hb])
  · exact hdigit c b hb
  · exact hlit b (by simp [hb])
  · exact hdigit t b hb

theorem jsonValue_usage {p c : ℕ} (hp : p < 2 ^ 31) (hc : c < 2 ^ 31) {t : ℕ}
    (r : UsageReply p c t) : jsonValue usageSize r.value = some (usageBuffer p c t) := by
  rw [← take_usageText hp hc]
  exact jsonValue_flat usageSize (notBracket_of_mem_usageText p c t) r.behind

theorem findJsonValue_usage {p c t : ℕ} (r : UsageReply p c t) :
    findJsonValue r.data (ascii "usage") usageSize =
      match misled (ascii "usage") r.front with
      | none => jsonValue usageSize r.value
      | some found => jsonValue usageSize (found.tail ++ (ascii "usage\":" ++ r.value)) := by
  have hmember : usageMember p c t ++ r.behind = 34 :: (ascii "usage" ++ 34 :: 58 :: r.value) := by
    have hopen : ascii "\"usage\":\x7b" = 34 :: (ascii "usage" ++ [34, 58, 123]) := by decide
    simp [usageMember, UsageReply.value, hopen]
  rw [findJsonValue, UsageReply.data, hmember, strchr_strstr_member (by decide) (by decide)]
  cases hmisled : misled (ascii "usage") r.front with
  | none => rfl
  | some found =>
      obtain ⟨key, -, hcolon⟩ := Option.bind_eq_some_iff.mp hmisled
      obtain ⟨rest, rfl, -⟩ := CString.strchr_eq_some hcolon
      rfl

/-! ## Its numbers -/

theorem usageTokens_of_digits {usage key ds rest : Bytes} (tokens : ℕ)
    (hkey : (58 : UInt8) ∉ key)
    (hfound : CString.strstr ([34] ++ key ++ [34]) usage =
      some ([34] ++ key ++ [34] ++ 58 :: (ds ++ rest)))
    (hds : ∀ c ∈ ds, Decimal.isDigit c = true) (hlen : ds.length < tokensSize)
    (hrest : ∀ c ∈ rest.head?, c = 44 ∨ c = 125) :
    usageTokens usage key tokens = sizeOfInt (Decimal.atoi ds) := by
  rw [usageTokens, findJsonValue_digits hkey hfound hds hlen hrest]

theorem sizeOfInt_atoi_printNat {n : ℕ} (hn : n < 2 ^ 31) :
    sizeOfInt (Decimal.atoi (Decimal.printNat n)) = n := by
  rw [Decimal.atoi_printNat hn, sizeOfInt]
  omega

section Numbers

variable {p c t : ℕ}

def promptKey : Bytes := [34] ++ ascii "prompt_tokens" ++ [34]

def completionKey : Bytes := [34] ++ ascii "completion_tokens" ++ [34]

def totalKey : Bytes := [34] ++ ascii "total_tokens" ++ [34]

theorem usageTokens_prompt (hp : p < 2 ^ 31) (tokens : ℕ) :
    usageTokens (usageBuffer p c t) (ascii "prompt_tokens") tokens = p := by
  have hdp := length_printNat_le_ten hp
  have htext : promptText = promptKey ++ [58] := by decide
  have hskip : CString.skips promptKey [123] = true := by decide
  have hfound : CString.strstr promptKey (usageBuffer p c t) = some (promptKey ++
      58 :: (Decimal.printNat p ++ (completionText ++ (Decimal.printNat c ++
        (totalText ++ (Decimal.printNat t ++ [125])).take
          (25 - (Decimal.printNat p).length - (Decimal.printNat c).length))))) := by
    rw [usageBuffer, htext, List.append_assoc, ← List.singleton_append,
      CString.strstr_of_skips hskip]
    exact CString.strstr_of_isPrefix (List.prefix_append _ _)
  rw [usageTokens_of_digits tokens (by decide) hfound
    (fun b hb ↦ Decimal.isDigit_of_mem_printNat hb) (by rw [tokensSize]; omega)]
  · exact sizeOfInt_atoi_printNat hp
  · rintro b ⟨⟩
    exact .inl rfl

/-- The first number is skipped. -/
theorem strstr_usageBuffer {key : Bytes} (hopen : CString.skips key (123 :: promptText) = true)
    (hquote : key.head? = some 34) :
    CString.strstr key (usageBuffer p c t) =
      CString.strstr key (completionText ++ (Decimal.printNat c ++
        (totalText ++ (Decimal.printNat t ++ [125])).take
          (25 - (Decimal.printNat p).length - (Decimal.printNat c).length))) := by
  rw [usageBuffer, ← List.cons_append, CString.strstr_of_skips hopen,
    CString.strstr_append_of_notMem hquote (Decimal.notMem_printNat (by decide) p)]

theorem usageTokens_completion (hp : p < 2 ^ 31) (hc : c < 2 ^ 31) (tokens : ℕ) :
    usageTokens (usageBuffer p c t) (ascii "completion_tokens") tokens = c := by
  have hdp := length_printNat_le_ten hp
  have hdc := length_printNat_le_ten hc
  have htext : completionText = [44] ++ (completionKey ++ [58]) := by decide
  have hskip : CString.skips completionKey [44] = true := by decide
  have hfound : CString.strstr completionKey (usageBuffer p c t) = some (completionKey ++
      58 :: (Decimal.printNat c ++ (totalText ++ (Decimal.printNat t ++ [125])).take
        (25 - (Decimal.printNat p).length - (Decimal.printNat c).length))) := by
    rw [strstr_usageBuffer (by decide) (by decide), htext, List.append_assoc, List.append_assoc,
      CString.strstr_of_skips hskip]
    exact CString.strstr_of_isPrefix (List.prefix_append _ _)
  have hroom : 25 - (Decimal.printNat p).length - (Decimal.printNat c).length =
      24 - (Decimal.printNat p).length - (Decimal.printNat c).length + 1 := by omega
  rw [hroom] at hfound
  rw [usageTokens_of_digits tokens (by decide) hfound
    (fun b hb ↦ Decimal.isDigit_of_mem_printNat hb) (by rw [tokensSize]; omega)]
  · exact sizeOfInt_atoi_printNat hc
  · intro b hb
    have htotal : totalText = 44 :: totalText.tail := by decide
    rw [htotal, List.cons_append, List.take_succ_cons] at hb
    exact .inl (Option.some.inj hb).symm

/-- The digits of the last number that are left. -/
def totalDigits (p c t : ℕ) : Bytes :=
  (Decimal.printNat t).take (9 - (Decimal.printNat p).length - (Decimal.printNat c).length)

theorem usageTokens_total (hp : p < 2 ^ 31) (hc : c < 2 ^ 31) (ht : t < 2 ^ 31) (tokens : ℕ) :
    usageTokens (usageBuffer p c t) (ascii "total_tokens") tokens =
      if (Decimal.printNat p).length + (Decimal.printNat c).length ≤ 9 then
        sizeOfInt (Decimal.atoi (totalDigits p c t))
      else tokens := by
  have hdp := length_printNat_le_ten hp
  have hdc := length_printNat_le_ten hc
  have hdt := length_printNat_le_ten ht
  have hlen : totalText.length = 16 := by decide
  have hquote : totalKey.head? = some 34 := by decide
  have hskip : CString.strstr totalKey (usageBuffer p c t) =
      CString.strstr totalKey ((totalText ++ (Decimal.printNat t ++ [125])).take
        (25 - (Decimal.printNat p).length - (Decimal.printNat c).length)) := by
    rw [strstr_usageBuffer (by decide) hquote, CString.strstr_of_skips (by decide),
      CString.strstr_append_of_notMem hquote (Decimal.notMem_printNat (by decide) c)]
  split_ifs with hfits
  · have hroom : 25 - (Decimal.printNat p).length - (Decimal.printNat c).length - 16 =
        9 - (Decimal.printNat p).length - (Decimal.printNat c).length := by omega
    have htext : totalText = [44] ++ (totalKey ++ [58]) := by decide
    have hfound : CString.strstr totalKey (usageBuffer p c t) = some (totalKey ++
        58 :: (totalDigits p c t ++ [125].take (9 - (Decimal.printNat p).length -
          (Decimal.printNat c).length - (Decimal.printNat t).length))) := by
      rw [hskip, take_append_of_length_le (by omega), hlen, hroom, List.take_append, htext,
        List.append_assoc, List.append_assoc, CString.strstr_of_skips (by decide)]
      exact CString.strstr_of_isPrefix (List.prefix_append _ _)
    apply usageTokens_of_digits tokens (by decide) hfound
    · exact fun b hb ↦ Decimal.isDigit_of_mem_printNat (List.mem_of_mem_take hb)
    · have hle := List.length_take_le' (9 - (Decimal.printNat p).length -
        (Decimal.printNat c).length) (Decimal.printNat t)
      rw [totalDigits, tokensSize]
      omega
    · intro b hb
      exact .inr (List.mem_singleton.mp (List.mem_of_mem_take (List.mem_of_mem_head? hb)))
  · -- not even the colon behind the key is left
    have hcut : ∀ k : Fin 16, (CString.strstr totalKey (totalText.take k)).bind
        (CString.strchr 58) = none := by decide
    have hshort : 25 - (Decimal.printNat p).length - (Decimal.printNat c).length < 16 := by omega
    rw [List.take_append_of_le_length (by omega)] at hskip
    have hnone : (CString.strstr totalKey (usageBuffer p c t)).bind (CString.strchr 58) = none := by
      rw [hskip]
      exact hcut ⟨_, hshort⟩
    rw [usageTokens, findJsonValue]
    rw [show [34] ++ ascii "total_tokens" ++ [34] = totalKey from rfl, hnone]
    rfl

/-- A number with some of its last digits cut off is another number, except
that nothing is read as 0. -/
theorem sizeOfInt_atoi_totalDigits_iff (ht : t < 2 ^ 31)
    (hfits : (Decimal.printNat p).length + (Decimal.printNat c).length ≤ 9) :
    sizeOfInt (Decimal.atoi (totalDigits p c t)) = t ↔
      (Decimal.printNat p).length + (Decimal.printNat c).length +
          (Decimal.printNat t).length ≤ 9 ∨
        ((Decimal.printNat p).length + (Decimal.printNat c).length = 9 ∧ t = 0) := by
  have hpos := length_printNat_pos t
  rw [totalDigits]
  generalize hn : 9 - (Decimal.printNat p).length - (Decimal.printNat c).length = n
  by_cases hall : (Decimal.printNat t).length ≤ n
  · rw [List.take_of_length_le hall, sizeOfInt_atoi_printNat ht]
    exact iff_of_true rfl (.inl (by omega))
  · have hmore : ¬ (Decimal.printNat p).length + (Decimal.printNat c).length +
        (Decimal.printNat t).length ≤ 9 := by omega
    rw [or_iff_right hmore]
    by_cases hzero : n = 0
    · have hnone : sizeOfInt (Decimal.atoi []) = 0 := by decide
      rw [hzero, List.take_zero, hnone]
      have hnine : (Decimal.printNat p).length + (Decimal.printNat c).length = 9 := by omega
      rw [and_iff_right hnine, eq_comm]
    · refine iff_of_false ?_ (by omega)
      have hsplit := (List.take_append_drop n (Decimal.printNat t)).symm
      obtain ⟨q, -, hq⟩ := Decimal.eq_printNat_of_append hsplit
        (List.ne_nil_of_length_pos (by rw [List.length_take]; omega))
        (List.ne_nil_of_length_pos (by rw [List.length_drop]; omega))
      have hle := Decimal.digitsValue_take_le (Decimal.printNat t) n 0
      rw [hq, Decimal.digitsValue_printNat, Decimal.digitsValue_printNat] at hle
      rw [hq, sizeOfInt_atoi_printNat (by omega)]
      rintro rfl
      have hlen := congrArg List.length hq
      rw [List.length_take] at hlen
      omega

/-! ## Counting -/

structure CountsTokens (p c t : ℕ) (response : CompletionResponse) : Prop where
  prompt : response.promptTokens = p
  completion : response.completionTokens = c
  total : response.tokensUsed = t

/-- The last number is in the buffer, is 0 with nothing of it in there, or is
not looked at and was known before. -/
def TotalFits (p c t tokensUsed : ℕ) : Prop :=
  (Decimal.printNat p).length + (Decimal.printNat c).length + (Decimal.printNat t).length ≤ 9 ∨
    ((Decimal.printNat p).length + (Decimal.printNat c).length = 9 ∧ t = 0) ∨
      (9 < (Decimal.printNat p).length + (Decimal.printNat c).length ∧ tokensUsed = t)

theorem countsTokens_readNumbers_iff (hp : p < 2 ^ 31) (hc : c < 2 ^ 31) (ht : t < 2 ^ 31)
    (response : CompletionResponse) :
    CountsTokens p c t (response.readNumbers (usageBuffer p c t)) ↔
      TotalFits p c t response.tokensUsed := by
  have htotal : CountsTokens p c t (response.readNumbers (usageBuffer p c t)) ↔
      usageTokens (usageBuffer p c t) (ascii "total_tokens") response.tokensUsed = t :=
    ⟨fun h ↦ h.total, fun h ↦ ⟨usageTokens_prompt hp _, usageTokens_completion hp hc _, h⟩⟩
  rw [htotal, usageTokens_total hp hc ht, TotalFits]
  split_ifs with hfits
  · rw [sizeOfInt_atoi_totalDigits_iff ht hfits]
    refine or_congr_right (or_iff_left ?_).symm
    rintro ⟨hmore, -⟩
    omega
  · have hpos := length_printNat_pos t
    constructor
    · exact fun h ↦ .inr (.inr ⟨by omega, h⟩)
    · rintro (hall | ⟨hnine, -⟩ | ⟨-, h⟩)
      · omega
      · omega
      · exact h

/-- The number behind the key, or the one from before where there is none. -/
def NumberOf (usage key : Bytes) (before n : ℕ) : Prop :=
  (∃ value, MemberOf usage key value ∧
      sizeOfInt (Decimal.atoi (value.take (tokensSize - 1))) = n) ∨
    ((∀ value, ¬ MemberOf usage key value) ∧ before = n)

theorem usageTokens_eq_iff {usage key : Bytes} {before n : ℕ} :
    usageTokens usage key before = n ↔ NumberOf usage key before n := by
  rw [usageTokens, NumberOf]
  cases hfind : findJsonValue usage key tokensSize with
  | some value =>
      obtain ⟨text, htext, hcut⟩ := findJsonValue_eq_some_iff.mp hfind
      have hsome : ¬ ∀ value, ¬ MemberOf usage key value := fun h ↦ h text htext
      rw [or_iff_left fun h ↦ hsome h.1]
      constructor
      · intro hn
        exact ⟨text, htext, by rw [hcut]; exact hn⟩
      · rintro ⟨other, hother, hn⟩
        have hsame : findJsonValue usage key tokensSize = some (other.take (tokensSize - 1)) :=
          findJsonValue_eq_some_iff.mpr ⟨other, hother, rfl⟩
        rw [Option.some.inj (hfind.symm.trans hsame)]
        exact hn
  | none =>
      have hnone (value : Bytes) : ¬ MemberOf usage key value := by
        intro hvalue
        exact nomatch hfind.symm.trans (findJsonValue_eq_some_iff.mpr ⟨value, hvalue, rfl⟩)
      rw [or_iff_right fun ⟨value, hvalue, _⟩ ↦ hnone value hvalue, and_iff_right hnone]

/-- Another value has the same three numbers. -/
structure SameNumbers (p c t : ℕ) (response : CompletionResponse) (usage : Bytes) : Prop where
  prompt : NumberOf usage (ascii "prompt_tokens") response.promptTokens p
  completion : NumberOf usage (ascii "completion_tokens") response.completionTokens c
  total : NumberOf usage (ascii "total_tokens") response.tokensUsed t

theorem countsTokens_readNumbers {response : CompletionResponse} {usage : Bytes} :
    CountsTokens p c t (response.readNumbers usage) ↔ SameNumbers p c t response usage :=
  ⟨fun h ↦ ⟨usageTokens_eq_iff.mp h.prompt, usageTokens_eq_iff.mp h.completion,
      usageTokens_eq_iff.mp h.total⟩,
    fun h ↦ ⟨usageTokens_eq_iff.mpr h.prompt, usageTokens_eq_iff.mpr h.completion,
      usageTokens_eq_iff.mpr h.total⟩⟩

/-- The last number fits, or an earlier value `"usage"` sends the search to
another value with the same numbers. -/
def UsageReply.Counted (r : UsageReply p c t) (response : CompletionResponse) : Prop :=
  match misled (ascii "usage") r.front with
  | none => TotalFits p c t response.tokensUsed
  | some found => ∃ usage, ValueAt (found.tail ++ (ascii "usage\":" ++ r.value)) usage ∧
      SameNumbers p c t response (usage.take (usageSize - 1))

theorem countsTokens_readUsage_iff (hp : p < 2 ^ 31) (hc : c < 2 ^ 31) (ht : t < 2 ^ 31)
    (r : UsageReply p c t) (response : CompletionResponse) :
    CountsTokens p c t (response.readUsage r.data) ↔ r.Counted response := by
  have hfind := findJsonValue_usage r
  unfold UsageReply.Counted
  cases hmisled : misled (ascii "usage") r.front with
  | none =>
      rw [hmisled] at hfind
      rw [CompletionResponse.readUsage, hfind, jsonValue_usage hp hc]
      exact countsTokens_readNumbers_iff hp hc ht response
  | some found =>
      rw [hmisled] at hfind
      have hquotes : 2 ≤ (found.tail ++ (ascii "usage\":" ++ r.value)).count 34 := by
        have hkey : (ascii "usage\":").count 34 = 1 := by decide
        have hprompt : 1 ≤ promptText.count 34 := by decide
        rw [List.count_append, List.count_append, hkey, UsageReply.value, List.count_cons,
          usageText, List.count_append, List.count_append]
        omega
      obtain ⟨usage, husage⟩ := exists_jsonValue usageSize hquotes
      obtain ⟨text, htext, hcut⟩ := jsonValue_eq_some_iff.mp husage
      rw [CompletionResponse.readUsage, hfind]
      dsimp only
      rw [husage]
      dsimp only
      rw [countsTokens_readNumbers]
      constructor
      · intro hsame
        exact ⟨text, htext, by rw [hcut]; exact hsame⟩
      · rintro ⟨other, hother, hsame⟩
        have hvalue := jsonValue_of_valueAt hother usageSize
        rw [Option.some.inj (husage.symm.trans hvalue)]
        exact hsame

end Numbers

/-- The array of tool calls fits its buffer, or is skipped as too long. -/
def ToolArrayFits (data : Bytes) : Prop :=
  ∀ arrStart arrEnd,
    (CString.strstr (ascii "\"tool_calls\"") data).bind (CString.strchr 91) = some arrStart →
    CString.strchr 93 arrStart = some arrEnd →
    arrStart.length - arrEnd.length + 1 ≤ toolCallsJsonSize ∨
      contentSize ≤ arrStart.length - arrEnd.length + 1

theorem decodeToolCalls_isSome_iff (data : Bytes) :
    (∃ calls, decodeToolCalls data = some calls) ↔ ToolArrayFits data := by
  unfold decodeToolCalls ToolArrayFits
  cases CString.strstr (ascii "\"tool_calls\"") data with
  | none => exact iff_of_true ⟨_, rfl⟩ fun _ _ h ↦ nomatch h
  | some start =>
      rw [Option.bind_some]
      cases hopen : CString.strchr 91 start with
      | none => exact iff_of_true ⟨[], by simp only [hopen]⟩ fun _ _ h ↦ nomatch h
      | some arrStart =>
          cases hclose : CString.strchr 93 arrStart with
          | none =>
              refine iff_of_true ⟨[], by simp only [hopen, hclose]⟩ ?_
              rintro _ arrEnd ⟨⟩ hend
              exact nomatch hclose.symm.trans hend
          | some arrEnd =>
              simp only [hopen, hclose]
              constructor
              · rintro ⟨calls, hcalls⟩ _ _ ⟨⟩ hend
                obtain rfl := Option.some.inj (hclose.symm.trans hend)
                split_ifs at hcalls
                · exact .inr ‹_›
                · exact .inl (by omega)
              · intro h
                split_ifs with hskipped hlong
                · exact ⟨_, rfl⟩
                · rcases h _ _ rfl hclose with h | h <;> omega
                · exact ⟨_, rfl⟩

/-- The counters decide, not the content and the tool calls. -/
theorem UsageReply.counted_congr {p c t : ℕ} (r : UsageReply p c t)
    {response response' : CompletionResponse}
    (hprompt : response'.promptTokens = response.promptTokens)
    (hcompletion : response'.completionTokens = response.completionTokens)
    (htotal : response'.tokensUsed = response.tokensUsed) :
    r.Counted response' ↔ r.Counted response := by
  have hsame (usage : Bytes) :
      SameNumbers p c t response' usage ↔ SameNumbers p c t response usage := by
    rw [← countsTokens_readNumbers, ← countsTokens_readNumbers]
    unfold CompletionResponse.readNumbers
    rw [hprompt, hcompletion, htotal]
    exact ⟨fun h ↦ ⟨h.prompt, h.completion, h.total⟩, fun h ↦ ⟨h.prompt, h.completion, h.total⟩⟩
  unfold UsageReply.Counted
  cases misled (ascii "usage") r.front with
  | none => simp only [htotal]
  | some found => simp only [hsame]

/-- Both providers count the tokens of a response when its numbers are short,
the search finds them and its tool calls fit their buffer. -/
theorem tokens_are_counted_iff {p c t : ℕ} (hp : p < 2 ^ 31) (hc : c < 2 ^ 31) (ht : t < 2 ^ 31)
    (r : UsageReply p c t) (response : CompletionResponse) :
    (CountsTokens p c t (providerOpenaiCompletion ⟨0, some r.data⟩ response).2 ∧
        ∃ out, providerOpenaiWithTools ⟨0, some r.data⟩ response = some out ∧
          CountsTokens p c t out.2) ↔
      r.Counted response ∧ ToolArrayFits r.data := by
  have hcount (response' : CompletionResponse) :=
    countsTokens_readUsage_iff hp hc ht r response'
  have hcontent : r.Counted (response.readContent r.data) ↔ r.Counted response :=
    r.counted_congr rfl rfl rfl
  rw [← decodeToolCalls_isSome_iff]
  constructor
  · rintro ⟨hcounts, out, hout, -⟩
    obtain ⟨calls, hcalls, -⟩ := Option.map_eq_some_iff.mp hout
    exact ⟨hcontent.mp ((hcount _).mp hcounts), calls, hcalls⟩
  · rintro ⟨hfits, calls, hcalls⟩
    have hwithTools : providerOpenaiWithTools ⟨0, some r.data⟩ response =
        some (0, ({ response.readContent r.data with toolCalls := calls }).readUsage r.data) := by
      simp only [providerOpenaiWithTools, if_true, hcalls, Option.map_some]
    have htools : r.Counted { response.readContent r.data with toolCalls := calls } ↔
        r.Counted response := r.counted_congr rfl rfl rfl
    exact ⟨(hcount _).mpr (hcontent.mpr hfits), _, hwithTools,
      (hcount _).mpr (htools.mpr hfits)⟩

def emptyResponse : CompletionResponse := ⟨[], 0, 0, 0, false, []⟩

/-- A response with nothing else in it. -/
def usageOnly (p c t : ℕ) : UsageReply p c t where
  front := [123]
  behind := [125]
  first := by
    intro before after h
    have hlen := congrArg List.length h
    have hkey : ([34] ++ ascii "usage" ++ [34]).length = 7 := by decide
    rw [List.length_append, List.length_append, hkey, List.length_singleton] at hlen
    omega

theorem tokens_are_counted_iff_short :
    12 < 2 ^ 31 ∧ 7 < 2 ^ 31 ∧ 19 < 2 ^ 31 ∧
      ((CountsTokens 12 7 19
            (providerOpenaiCompletion ⟨0, some (usageOnly 12 7 19).data⟩ emptyResponse).2 ∧
          ∃ out, providerOpenaiWithTools ⟨0, some (usageOnly 12 7 19).data⟩ emptyResponse =
            some out ∧ CountsTokens 12 7 19 out.2) ↔
        (usageOnly 12 7 19).Counted emptyResponse ∧ ToolArrayFits (usageOnly 12 7 19).data) :=
  ⟨by decide, by decide, by decide,
    tokens_are_counted_iff (by decide) (by decide) (by decide) (usageOnly 12 7 19) emptyResponse⟩

/-- A total of 1550 is read as 15. -/
theorem tokens_are_not_counted :
    ¬ ∀ (p c t : ℕ) (r : UsageReply p c t) (response : CompletionResponse), p < 2 ^ 31 →
      c < 2 ^ 31 → t < 2 ^ 31 →
      CountsTokens p c t (providerOpenaiCompletion ⟨0, some r.data⟩ response).2 ∧
        ∃ out, providerOpenaiWithTools ⟨0, some r.data⟩ response = some out ∧
          CountsTokens p c t out.2 := by
  intro h
  have hcounts :=
    (h 1200 350 1550 (usageOnly 1200 350 1550) emptyResponse (by decide) (by decide) (by decide)).1
  have hread := countsTokens_readUsage_iff (p := 1200) (c := 350) (t := 1550) (by decide)
    (by decide) (by decide) (usageOnly 1200 350 1550)
    (emptyResponse.readContent (usageOnly 1200 350 1550).data)
  have hfits := hread.mp hcounts
  have hsearch : misled (ascii "usage") (usageOnly 1200 350 1550).front = none := by decide
  rw [UsageReply.Counted, hsearch] at hfits
  revert hfits
  change ¬ TotalFits 1200 350 1550 0
  unfold TotalFits
  decide

end DoctorClaw
