import DoctorClaw.Lib.Escape
import DoctorClaw.ToolCalls

/-!
# The text of a reply

`parse_response_content` looks for the first `"content"` of the response and
takes the value behind the next colon.  A string ends at the next quote, escaped
or not, and no escape is undone, so a reply is stored as it was meant only when
it needs none; the one exception is a reply of the full size whose backslashes
stand at its end, where the cut takes away their doubles.

The first `"content"` need not be the key: as a string value in front of it, it
sends the search to the colon of another member.
-/

namespace DoctorClaw

/-! ## The extractor -/

/-- The first string directly in an array, `depth` brackets being open. -/
def firstArrayString (outLen : ℕ) : ℕ → Bytes → Option Bytes
  | _, [] => none
  | 0, _ => none
  | depth + 1, c :: s =>
      if c = 91 then firstArrayString outLen (depth + 2) s
      else if c = 93 then firstArrayString outLen depth s
      else if depth = 0 ∧ c = 34 then some ((s.takeWhile (· ≠ 34)).take (outLen - 1))
      else firstArrayString outLen (depth + 1) s

/-- `find_json_array_value` for the index 0, the only one in use. -/
def findJsonArrayValue (json key : Bytes) (outLen : ℕ) : Option Bytes :=
  ((CString.strstr ([34] ++ key ++ [34]) json).bind (CString.strchr 58)).bind fun found ↦
    (CString.strchr 91 found.tail).bind fun array ↦ firstArrayString outLen 1 array.tail

/-- Whether an error was found, and what `out_content` holds. -/
def parseResponseError (json out : Bytes) (outLen : ℕ) : Bool × Bytes :=
  match findJsonValue json (ascii "error") 512 with
  | some error => (true, CString.cut outLen (ascii "Error: " ++ error))
  | none => (false, out)

/-- Whether 0 is returned, and what `out_content` holds then; it held `out`
before. -/
def parseResponseContent (json out : Bytes) (outLen : ℕ) : Bool × Bytes :=
  match findJsonValue json (ascii "content") outLen with
  | some content => (true, content)
  | none =>
    match findJsonArrayValue json (ascii "choices") outLen with
    | none => parseResponseError json out outLen
    | some choice =>
      let content := (findJsonValue choice (ascii "message") 8192).bind fun message ↦
        findJsonValue message (ascii "content") 8192
      match content with
      | some content => (true, CString.cut outLen content)
      | none => parseResponseError json choice outLen

/-! ## Values -/

/-- What ends a bare word. -/
def EndsWord (c : UInt8) : Prop := CString.isspace c ∨ c = 44 ∨ c = 125

/-- The value that a text begins with: what stands in quotes, in brackets or as
a bare word. -/
inductive ValueAt : Bytes → Bytes → Prop
  | quoted {spaces text rest : Bytes} (hspaces : ∀ c ∈ spaces, CString.isspace c)
      (htext : (34 : UInt8) ∉ text) : ValueAt (spaces ++ 34 :: (text ++ 34 :: rest)) text
  | bracketed {spaces rest : Bytes} {c : UInt8} (hspaces : ∀ c ∈ spaces, CString.isspace c)
      (hopen : c = 123 ∨ c = 91) : ValueAt (spaces ++ c :: rest) (balanced 0 (c :: rest))
  | bare {spaces word rest : Bytes} (hspaces : ∀ c ∈ spaces, CString.isspace c)
      (hfirst : ∀ c ∈ (word ++ rest).head?, ¬ CString.isspace c ∧ c ≠ 34 ∧ c ≠ 123 ∧ c ≠ 91)
      (hword : ∀ c ∈ word, ¬ EndsWord c) (hrest : ∀ c ∈ rest.head?, EndsWord c) :
      ValueAt (spaces ++ (word ++ rest)) word

theorem dropWhile_isspace {spaces rest : Bytes} (hspaces : ∀ c ∈ spaces, CString.isspace c)
    (hrest : ∀ c ∈ rest.head?, ¬ CString.isspace c) :
    (spaces ++ rest).dropWhile CString.isspace = rest := by
  rw [List.dropWhile_append_of_pos hspaces]
  cases rest with
  | nil => rfl
  | cons c rest => exact List.dropWhile_cons_of_neg (hrest c rfl)

theorem jsonValue_of_valueAt {s text : Bytes} (h : ValueAt s text) (outLen : ℕ) :
    jsonValue outLen s = some (text.take (outLen - 1)) := by
  cases h with
  | @quoted spaces text rest hspaces htext =>
      have hmem : (34 : UInt8) ∈ text ++ 34 :: rest := by simp
      have hne : ∀ c ∈ text, decide (c ≠ 34) = true := by
        intro c hc
        exact decide_eq_true (ne_of_mem_of_not_mem hc htext)
      rw [jsonValue, List.dropWhile_append_of_pos hspaces, List.dropWhile_cons_of_neg (by decide)]
      simp only [hmem, if_true]
      rw [List.takeWhile_append_of_pos hne, List.takeWhile_cons_of_neg (by decide), List.append_nil]
  | @bracketed spaces rest c hspaces hopen =>
      rw [jsonValue, List.dropWhile_append_of_pos hspaces]
      obtain rfl | rfl := hopen
      · rw [List.dropWhile_cons_of_neg (by decide)]
        rfl
      · rw [List.dropWhile_cons_of_neg (by decide)]
        rfl
  | @bare spaces _ rest hspaces hfirst hword hrest =>
      have hgoes : ∀ c ∈ text,
          (!CString.isspace c && decide (c ≠ 44) && decide (c ≠ 125)) = true := by
        intro c hc
        simpa [EndsWord, not_or, and_assoc] using hword c hc
      have hall : (text ++ rest).takeWhile
          (fun c ↦ !CString.isspace c && c ≠ 44 && c ≠ 125) = text := by
        rw [List.takeWhile_append_of_pos hgoes]
        cases rest with
        | nil => exact List.append_nil _
        | cons c rest =>
            rw [List.takeWhile_cons_of_neg, List.append_nil]
            simpa [EndsWord, or_iff_not_imp_left] using hrest c rfl
      rw [jsonValue, dropWhile_isspace hspaces fun c hc ↦ (hfirst c hc).1]
      split
      · next heq => exact absurd rfl (hfirst 34 (by rw [heq]; rfl)).2.1
      · next heq => exact absurd rfl (hfirst 123 (by rw [heq]; rfl)).2.2.1
      · next heq => exact absurd rfl (hfirst 91 (by rw [heq]; rfl)).2.2.2
      · rw [hall]

theorem exists_valueAt {s value : Bytes} {outLen : ℕ} (h : jsonValue outLen s = some value) :
    ∃ text, ValueAt s text ∧ text.take (outLen - 1) = value := by
  have hsplit := List.takeWhile_append_dropWhile (p := CString.isspace) (l := s)
  have hspaces : ∀ c ∈ s.takeWhile CString.isspace, CString.isspace c :=
    fun c hc ↦ List.mem_takeWhile_imp hc
  have hnot : ∀ c ∈ (s.dropWhile CString.isspace).head?, ¬ CString.isspace c := by
    intro c hc
    have hhead := List.head?_dropWhile_not CString.isspace s
    rw [hc] at hhead
    exact Bool.eq_false_iff.mp hhead
  rw [← hsplit]
  unfold jsonValue at h
  split at h
  · next rest heq =>
      split_ifs at h with hmem
      obtain ⟨text, behind, rfl, htext⟩ := List.eq_append_cons_of_mem hmem
      have hne : ∀ c ∈ text, decide (c ≠ 34) = true :=
        fun c hc ↦ decide_eq_true (ne_of_mem_of_not_mem hc htext)
      rw [List.takeWhile_append_of_pos hne, List.takeWhile_cons_of_neg (by decide),
        List.append_nil] at h
      rw [heq]
      exact ⟨text, .quoted hspaces htext, Option.some.inj h⟩
  · next rest heq =>
      rw [heq]
      exact ⟨_, .bracketed hspaces (.inl rfl), Option.some.inj h⟩
  · next rest heq =>
      rw [heq]
      exact ⟨_, .bracketed hspaces (.inr rfl), Option.some.inj h⟩
  · next hquote hbrace hbracket =>
      have hword := List.takeWhile_append_dropWhile
        (p := fun c ↦ !CString.isspace c && c ≠ 44 && c ≠ 125) (l := s.dropWhile CString.isspace)
      have hfirst : ∀ c ∈ (s.dropWhile CString.isspace).head?,
          ¬ CString.isspace c ∧ c ≠ 34 ∧ c ≠ 123 ∧ c ≠ 91 := by
        intro c hc
        obtain ⟨rest, hrest⟩ := List.head?_eq_some_iff.mp hc
        refine ⟨hnot c hc, ?_, ?_, ?_⟩
        · rintro rfl
          exact hquote rest hrest
        · rintro rfl
          exact hbrace rest hrest
        · rintro rfl
          exact hbracket rest hrest
      rw [← hword] at hfirst ⊢
      refine ⟨_, .bare hspaces hfirst ?_ ?_, Option.some.inj h⟩
      · intro c hc
        have hgoes := List.mem_takeWhile_imp hc
        simpa [EndsWord, not_or, and_assoc] using hgoes
      · intro c hc
        have hends := List.head?_dropWhile_not
          (fun c ↦ !CString.isspace c && c ≠ 44 && c ≠ 125) (s.dropWhile CString.isspace)
        rw [hc] at hends
        simpa [EndsWord, or_iff_not_imp_left] using hends

theorem jsonValue_eq_some_iff {s value : Bytes} {outLen : ℕ} :
    jsonValue outLen s = some value ↔ ∃ text, ValueAt s text ∧ text.take (outLen - 1) = value := by
  refine ⟨exists_valueAt, ?_⟩
  rintro ⟨text, htext, rfl⟩
  exact jsonValue_of_valueAt htext outLen

/-- The value that the search for a key finds, before it is cut. -/
def MemberOf (json key value : Bytes) : Prop :=
  ∃ found, (CString.strstr ([34] ++ key ++ [34]) json).bind (CString.strchr 58) = some found ∧
    ValueAt found.tail value

theorem findJsonValue_eq_some_iff {json key value : Bytes} {outLen : ℕ} :
    findJsonValue json key outLen = some value ↔
      ∃ text, MemberOf json key text ∧ text.take (outLen - 1) = value := by
  rw [findJsonValue, Option.bind_eq_some_iff]
  constructor
  · rintro ⟨found, hfound, hvalue⟩
    obtain ⟨text, htext, hcut⟩ := jsonValue_eq_some_iff.mp hvalue
    exact ⟨text, ⟨found, hfound, htext⟩, hcut⟩
  · rintro ⟨text, ⟨found, hfound, htext⟩, hcut⟩
    exact ⟨found, hfound, jsonValue_eq_some_iff.mpr ⟨text, htext, hcut⟩⟩

/-! ## Looking for a member -/

/-- No member with this key: nowhere is the key, in quotes, followed by a
colon. -/
def NoMember (key front : Bytes) : Prop :=
  ∀ before after, front = before ++ ([34] ++ key ++ [34] ++ after) →
    (after.dropWhile CString.isspace).head? ≠ some 58

/-- The key in quotes stands in front of its member, as a value, and this is
the text from the next colon up to the member's opening quote. -/
def misled (key front : Bytes) : Option Bytes :=
  (CString.strstr ([34] ++ key ++ [34]) (front ++ [34])).bind (CString.strchr 58)

/-- The colon that is found is the member's unless the search is misled. -/
theorem strchr_strstr_member {key : Bytes} (hquote : (34 : UInt8) ∉ key)
    (hcolon : (58 : UInt8) ∉ key) (front value : Bytes) :
    (CString.strstr ([34] ++ key ++ [34]) (front ++ 34 :: (key ++ 34 :: 58 :: value))).bind
        (CString.strchr 58) =
      match misled key front with
      | some found => some (found ++ (key ++ 34 :: 58 :: value))
      | none => some (58 :: value) := by
  have hrest : (58 : UInt8) ∉ key ++ [34] := by
    rw [List.mem_append, not_or]
    exact ⟨hcolon, by decide⟩
  have hbehind : key ++ 34 :: 58 :: value = key ++ [34] ++ 58 :: value := by
    rw [List.append_assoc, List.singleton_append]
  rw [CString.strstr_quoted_append hquote, misled]
  cases CString.strstr ([34] ++ key ++ [34]) (front ++ [34]) with
  | none =>
      have hkey : [34] ++ key ++ [34] <+: 34 :: (key ++ 34 :: 58 :: value) :=
        ⟨58 :: value, by simp⟩
      rw [Option.map_none, Option.none_or, CString.strstr_of_isPrefix hkey, Option.bind_some,
        Option.bind_none, hbehind]
      exact CString.strchr_append (List.not_mem_cons_of_ne_of_not_mem (by decide) hrest) value
  | some found =>
      rw [Option.map_some, Option.some_or, Option.bind_some, Option.bind_some]
      by_cases hmem : (58 : UInt8) ∈ found
      · obtain ⟨rest, hfound⟩ := CString.exists_strchr hmem
        rw [hfound]
        exact CString.strchr_append_of_eq_some hfound _
      · rw [CString.strchr_eq_none hmem, hbehind, ← List.append_assoc]
        refine CString.strchr_append ?_ value
        rw [List.mem_append, not_or]
        exact ⟨hmem, hrest⟩

/-- A value with quotes behind it is always read. -/
theorem exists_jsonValue (outLen : ℕ) {s : Bytes} (h : 2 ≤ s.count 34) :
    ∃ value, jsonValue outLen s = some value := by
  have hcount : 2 ≤ (s.dropWhile CString.isspace).count 34 := by
    have hspaces : (s.takeWhile CString.isspace).count 34 = 0 := by
      refine List.count_eq_zero.mpr fun hmem ↦ ?_
      exact absurd (List.mem_takeWhile_imp hmem) (by decide)
    rw [← List.takeWhile_append_dropWhile (p := CString.isspace) (l := s), List.count_append,
      hspaces, Nat.zero_add] at h
    exact h
  unfold jsonValue
  split
  · next rest heq =>
      rw [heq, List.count_cons_self] at hcount
      have hmem : (34 : UInt8) ∈ rest := List.count_pos_iff.mp (by omega)
      exact ⟨_, if_pos hmem⟩
  · exact ⟨_, rfl⟩
  · exact ⟨_, rfl⟩
  · exact ⟨_, rfl⟩

/-! ## Responses with a content -/

/-- The letter behind the backslash, for the bytes that JSON escapes. -/
def replyLetter (c : UInt8) : Option UInt8 :=
  if c = 34 then some 34 else if c = 92 then some 92 else if c = 10 then some 110
  else if c = 13 then some 114 else if c = 9 then some 116 else none

/-- A response with the member `content`, the first one with this key. -/
structure ContentReply where
  text : Bytes
  front : Bytes
  behind : Bytes
  text_lt : text.length < contentSize
  text_nul : (0 : UInt8) ∉ text
  front_nul : (0 : UInt8) ∉ front
  behind_nul : (0 : UInt8) ∉ behind
  only : NoMember (ascii "content") front

/-- The text from the value of the member on. -/
def ContentReply.value (r : ContentReply) : Bytes :=
  34 :: (Escape.escape replyLetter r.text ++ 34 :: r.behind)

def ContentReply.json (r : ContentReply) : Bytes :=
  r.front ++ (ascii "\"content\":" ++ r.value)

/-- Nothing has to be escaped, except that a text of the full size may end with
backslashes. -/
def Verbatim (s : Bytes) : Prop :=
  ∃ x k, s = x ++ List.replicate k 92 ∧ (∀ c ∈ x, replyLetter c = none) ∧
    (k = 0 ∨ s.length = contentSize - 1)

/-- The text needs no escape, or an earlier value `"content"` sends the search
to another value that is the same text. -/
def ContentReply.Kept (r : ContentReply) : Prop :=
  match misled (ascii "content") r.front with
  | none => Verbatim r.text
  | some found => ∃ text, ValueAt (found.tail ++ (ascii "content\":" ++ r.value)) text ∧
      text.take (contentSize - 1) = r.text

theorem findJsonValue_content (r : ContentReply) :
    findJsonValue r.json (ascii "content") contentSize =
      match misled (ascii "content") r.front with
      | none => jsonValue contentSize r.value
      | some found => jsonValue contentSize (found.tail ++ (ascii "content\":" ++ r.value)) := by
  have hjson : r.json = r.front ++ 34 :: (ascii "content" ++ 34 :: 58 :: r.value) := rfl
  rw [findJsonValue, hjson, strchr_strstr_member (by decide) (by decide)]
  cases hmisled : misled (ascii "content") r.front with
  | none => rfl
  | some found =>
      obtain ⟨key, -, hcolon⟩ := Option.bind_eq_some_iff.mp hmisled
      obtain ⟨rest, rfl, -⟩ := CString.strchr_eq_some hcolon
      rfl

/-- The value of the member, up to the first quote in it. -/
theorem jsonValue_content (r : ContentReply) :
    jsonValue contentSize r.value =
      some (((Escape.escape replyLetter r.text ++ 34 :: r.behind).takeWhile (· ≠ 34)).take
        (contentSize - 1)) := by
  have hquote : (34 : UInt8) ∈ Escape.escape replyLetter r.text ++ 34 :: r.behind := by simp
  rw [jsonValue, ContentReply.value, List.dropWhile_cons_of_neg (by decide)]
  exact if_pos hquote

theorem slash_replyLetter : replyLetter 92 = some 92 := rfl

theorem quote_notMem_escape {s : Bytes} (hs : (34 : UInt8) ∉ s) :
    (34 : UInt8) ∉ Escape.escape replyLetter s := by
  refine Escape.notMem_escape (by decide) (fun b hb ↦ ?_) hs
  unfold replyLetter at hb
  split_ifs at hb with hquote <;> cases hb
  exact hquote

/-- What is stored of a text. -/
theorem stored_eq_iff {s : Bytes} (hs : s.length < contentSize) (behind : Bytes) :
    ((Escape.escape replyLetter s ++ 34 :: behind).takeWhile (· ≠ 34)).take (contentSize - 1) = s ↔
      Verbatim s := by
  have hwhole (hquote : (34 : UInt8) ∉ s) :
      (Escape.escape replyLetter s ++ 34 :: behind).takeWhile (· ≠ 34) =
        Escape.escape replyLetter s :=
    CString.takeWhile_ne_append (quote_notMem_escape hquote) behind
  constructor
  · intro h
    have hquote : (34 : UInt8) ∉ s := by
      intro hmem
      rw [← h] at hmem
      simpa using List.mem_takeWhile_imp (List.mem_of_mem_take hmem)
    rw [hwhole hquote] at h
    have hstart : s <+: Escape.escape replyLetter s := ⟨_, by
      conv_lhs => rw [← h]
      exact List.take_append_drop _ _⟩
    obtain ⟨x, k, hx, hplain⟩ := (Escape.isPrefix_escape_iff slash_replyLetter).mp hstart
    refine ⟨x, k, hx, hplain, or_iff_not_imp_left.mpr fun hk ↦ ?_⟩
    have hslash : (92 : UInt8) ∈ s := by
      rw [hx]
      exact List.mem_append_right _ (List.mem_replicate.mpr ⟨hk, rfl⟩)
    have hlonger := Escape.length_lt_escape hslash (congrArg Option.isSome slash_replyLetter)
    have hlen := congrArg List.length h
    rw [List.length_take] at hlen
    omega
  · rintro ⟨x, k, hx, hplain, hk⟩
    have hquote : (34 : UInt8) ∉ s := by
      rw [hx, List.mem_append, not_or]
      refine ⟨fun hmem ↦ ?_, fun hmem ↦ absurd (List.eq_of_mem_replicate hmem) (by decide)⟩
      exact absurd (hplain 34 hmem) (by decide)
    rw [hwhole hquote]
    rcases hk with rfl | hfull
    · rw [List.replicate_zero, List.append_nil] at hx
      rw [Escape.escape_eq_self (hx ▸ hplain), List.take_of_length_le (by omega)]
    · rw [← hfull]
      have hstart := (Escape.isPrefix_escape_iff slash_replyLetter).mpr ⟨x, k, hx, hplain⟩
      exact (List.prefix_iff_eq_take.mp hstart).symm

/-- A reply is stored as it was meant exactly when it needs no escape, up to
backslashes at the end of a text of the full size, and the search finds it. -/
theorem parseResponseContent_stores_iff (r : ContentReply) (out : Bytes) :
    (parseResponseContent r.json out contentSize).2 = r.text ↔ r.Kept := by
  have hfind := findJsonValue_content r
  unfold ContentReply.Kept
  cases hmisled : misled (ascii "content") r.front with
  | none =>
      rw [hmisled] at hfind
      rw [parseResponseContent, hfind, jsonValue_content]
      exact stored_eq_iff r.text_lt r.behind
  | some found =>
      rw [hmisled] at hfind
      have hquotes : 2 ≤ (found.tail ++ (ascii "content\":" ++ r.value)).count 34 := by
        have hkey : (ascii "content\":").count 34 = 1 := by decide
        rw [List.count_append, List.count_append, hkey, ContentReply.value, List.count_cons_self]
        omega
      obtain ⟨value, hvalue⟩ := exists_jsonValue contentSize hquotes
      dsimp only
      rw [parseResponseContent, hfind, ← jsonValue_eq_some_iff]
      dsimp only
      rw [hvalue, Option.some.injEq]

/-- The value `"content"` sends the search to the role. -/
example : parseResponseContent
    (ascii "\x7b\"kind\":\"content\",\"role\":\"assistant\",\"content\":\"hi\"\x7d") []
      contentSize = (true, ascii "assistant") := by decide +kernel

/-- The content of the first choice of an answer. -/
def choiceReply (text : Bytes) (hlength : text.length < contentSize) (hnul : (0 : UInt8) ∉ text) :
    ContentReply where
  text := text
  front := ascii "\x7b\"choices\":[\x7b\"message\":\x7b\"role\":\"assistant\","
  behind := ascii "\x7d\x7d]\x7d"
  text_lt := hlength
  text_nul := hnul
  front_nul := by decide
  behind_nul := by decide
  only := by
    intro before after h
    have hnot : ¬ ascii "\"content\"" <:+:
        ascii "\x7b\"choices\":[\x7b\"message\":\x7b\"role\":\"assistant\"," := by decide
    exact absurd ⟨before, after, by rw [h, List.append_assoc]; rfl⟩ hnot

/-- A reply with a quote in it is cut there, with a backslash at its end. -/
theorem parseResponseContent_cuts_quoted :
    ¬ ∀ (r : ContentReply) (out : Bytes),
      (parseResponseContent r.json out contentSize).2 = r.text := by
  intro h
  have hstored := h (choiceReply (ascii "say \"hi\"") (by decide) (by decide)) []
  exact absurd hstored (by decide +kernel)

end DoctorClaw
