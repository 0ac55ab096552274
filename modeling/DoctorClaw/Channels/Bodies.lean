import DoctorClaw.Channels

/-!
# Bodies of messages

The bodies of the senders are objects with the text of a message as one of
their members, in front of which the id of the target may stand.  Such a body
can be read exactly when its parts can be read between their quotes.
-/

namespace DoctorClaw

/-! ## Members -/

/-- The members behind the text, none of them with the name of the text. -/
structure Ending (key more : Bytes) (rest : List (Bytes × Json.Value)) : Prop where
  key_plain : Json.Plain key
  key_ascii : Json.isAscii key = true
  key_first : ∃ k more, key = k :: more ∧ Json.isWs k = false ∧ k ≠ 44 ∧ k ≠ 125
  parse_eq (fuel : ℕ) : Json.parseMoreMembers (fuel + 5) more = some (rest, [])
  no_key : ∀ m ∈ rest, m.1 ≠ key
  ascii_bytes : Json.isAscii more = true

/-- A member with a text that is printed as it is. -/
def member (key text more : Bytes) : Bytes := 34 :: (key ++ 34 :: 58 :: 34 :: (text ++ 34 :: more))

/-- A member with the target in front of the text. -/
def addressed (field target key text more : Bytes) : Bytes :=
  34 :: (field ++ 34 :: 58 :: 34 :: (target ++ 34 :: 44 :: member key text more))

theorem ascii_keyed {key : Bytes} (hkey : Json.isAscii key = true) :
    Json.isAscii (34 :: (key ++ [34, 58, 34])) = true := by
  unfold Json.isAscii at hkey ⊢
  rw [List.all_cons, List.all_append, hkey]
  decide

section Bodies

variable {key more : Bytes} {rest : List (Bytes × Json.Value)} (hmore : Ending key more rest)
include hmore

theorem parseMembers_member (text : Bytes) (fuel : ℕ) :
    Json.parseMembers (fuel + 6) (member key text more) =
      (Json.parseString (text ++ 34 :: more)).bind fun value ↦
        (Json.parseMoreMembers (fuel + 5) value.2).map fun p ↦
          ((key, .string value.1) :: p.1, p.2) :=
  Json.parseMembers_string hmore.key_plain (fuel + 4) _

/-- Plain text reads as itself. -/
theorem parseMembers_member_plain {text : Bytes} (htext : Json.Plain text) (fuel : ℕ) :
    Json.parseMembers (fuel + 6) (member key text more) =
      some ((key, .string text) :: rest, []) := by
  rw [parseMembers_member hmore, Json.parseString_plain htext, Option.bind_some, hmore.parse_eq]
  rfl

/-- Whatever the text reads as is the first value under its name. -/
theorem parseString_of_member {text w : Bytes} {fuel : ℕ} {members : List (Bytes × Json.Value)}
    {tail : Bytes}
    (h : Json.parseMembers (fuel + 6) (member key text more) = some (members, tail))
    (hw : members.filter (fun m ↦ m.1 = key) = [(key, .string w)]) :
    ∃ r, Json.parseString (text ++ 34 :: more) = some (w, r) := by
  rw [parseMembers_member hmore] at h
  obtain ⟨value, hvalue, h⟩ := Option.bind_eq_some_iff.mp h
  obtain ⟨p, -, heq⟩ := Option.map_eq_some_iff.mp h
  cases heq
  rw [List.filter_cons_of_pos (by simp)] at hw
  have hfirst := (List.cons.inj hw).1
  simp only [Prod.mk.injEq, Json.Value.string.injEq, true_and] at hfirst
  exact ⟨value.2, hvalue.trans (by rw [← hfirst])⟩

theorem filter_member (text : Bytes) :
    ((key, Json.Value.string text) :: rest).filter (fun m ↦ m.1 = key) =
      [(key, .string text)] := by
  rw [List.filter_cons_of_pos (by simp), List.filter_eq_nil_iff.mpr]
  intro m hm
  simpa using hmore.no_key m hm

theorem isUtf8_member (text : Bytes) : Json.isUtf8 (member key text more) = Json.isUtf8 text := by
  have hnil : Json.isUtf8 more = true := by
    rw [← List.append_nil more, Json.isUtf8_ascii_append hmore.ascii_bytes]
    rfl
  have hsplit : member key text more = 34 :: (key ++ [34, 58, 34]) ++ (text ++ 34 :: more) := by
    simp [member]
  rw [hsplit, Json.isUtf8_ascii_append (ascii_keyed hmore.key_ascii),
    Json.isUtf8_append_ascii (by decide), hnil, Bool.and_true]

/-! ### A text alone -/

theorem parse_member (text : Bytes) :
    ∃ fuel, Json.parse (123 :: member key text more) =
      if Json.isUtf8 text then
        (Json.parseMembers (fuel + 6) (member key text more)).bind fun p ↦
          if p.2.dropWhile Json.isWs = [] then some (.object p.1) else none
      else none := by
  have hutf8 : Json.isUtf8 (key ++ 34 :: 58 :: 34 :: (text ++ 34 :: more)) = Json.isUtf8 text :=
    isUtf8_member hmore text
  refine ⟨key.length + text.length + more.length, ?_⟩
  have hlen : (key ++ 34 :: 58 :: 34 :: (text ++ 34 :: more)).length + 2 =
      key.length + text.length + more.length + 6 := by
    simp only [List.length_append, List.length_cons]
    omega
  rw [member, Json.parse_object, hlen, hutf8]

theorem objectWith_member {text : Bytes} (htext : Json.Plain text)
    (hutf8 : Json.isUtf8 text = true) : ObjectWith key text (123 :: member key text more) := by
  obtain ⟨fuel, hparse⟩ := parse_member hmore text
  refine ⟨(key, .string text) :: rest, ?_, filter_member hmore text⟩
  rw [hparse, if_pos hutf8, parseMembers_member_plain hmore htext]
  rfl

theorem of_objectWith_member {text w : Bytes}
    (h : ObjectWith key w (123 :: member key text more)) :
    Json.isUtf8 text = true ∧ ∃ r, Json.parseString (text ++ 34 :: more) = some (w, r) := by
  obtain ⟨members, hparse, hw⟩ := h
  obtain ⟨fuel, heq⟩ := parse_member hmore text
  rw [heq] at hparse
  split_ifs at hparse with hutf8
  obtain ⟨p, hp, hparse⟩ := Option.bind_eq_some_iff.mp hparse
  split_ifs at hparse
  cases hparse
  exact ⟨hutf8, parseString_of_member hmore hp hw⟩

/-! ### A text behind the id of its target -/

variable {field : Bytes} (hfield : Json.Plain field) (hascii : Json.isAscii field = true)

include hascii in
theorem isUtf8_addressed (target text : Bytes) :
    Json.isUtf8 (addressed field target key text more) =
      (Json.isUtf8 target && Json.isUtf8 text) := by
  have hsplit : addressed field target key text more =
      34 :: (field ++ [34, 58, 34]) ++ (target ++ 34 :: ([44] ++ member key text more)) := by
    simp [addressed]
  rw [hsplit, Json.isUtf8_ascii_append (ascii_keyed hascii), Json.isUtf8_append_ascii (by decide),
    Json.isUtf8_ascii_append (by decide), isUtf8_member hmore]

include hfield hascii in
theorem parse_addressed (target text : Bytes) :
    ∃ fuel, Json.parse (123 :: addressed field target key text more) =
      if Json.isUtf8 target && Json.isUtf8 text then
        ((Json.parseString (target ++ 34 :: 44 :: member key text more)).bind fun value ↦
          (Json.parseMoreMembers (fuel + 7) value.2).map fun p ↦
            ((field, Json.Value.string value.1) :: p.1, p.2)).bind fun p ↦
          if p.2.dropWhile Json.isWs = [] then some (.object p.1) else none
      else none := by
  have hutf8 : Json.isUtf8 (field ++ 34 :: 58 :: 34 :: (target ++ 34 :: 44 ::
      member key text more)) = (Json.isUtf8 target && Json.isUtf8 text) :=
    isUtf8_addressed hmore hascii target text
  refine ⟨field.length + target.length + key.length + text.length + more.length + 4, ?_⟩
  have hlen : (field ++ 34 :: 58 :: 34 :: (target ++ 34 :: 44 :: member key text more)).length + 2 =
      field.length + target.length + key.length + text.length + more.length + 4 + 6 + 2 := by
    simp only [member, List.length_append, List.length_cons]
    omega
  rw [addressed, Json.parse_object, hutf8, hlen, Json.parseMembers_string hfield]

variable {target : Bytes} (hquote : (34 : UInt8) ∉ target)

include hfield hascii hquote in
theorem objectWith_addressed (hne : field ≠ key) (htarget : Json.IsBody target)
    (htargetUtf8 : Json.isUtf8 target = true) {text : Bytes} (htext : Json.Plain text)
    (hutf8 : Json.isUtf8 text = true) :
    ObjectWith key text (123 :: addressed field target key text more) := by
  obtain ⟨fuel, hparse⟩ := parse_addressed hmore hfield hascii target text
  obtain ⟨t, ht⟩ := (Json.isBody_iff hquote).mp htarget
  refine ⟨(field, .string t) :: (key, .string text) :: rest, ?_, ?_⟩
  · rw [hparse, htargetUtf8, hutf8, Bool.and_true, if_pos rfl, ht, Option.bind_some,
      Json.parseMoreMembers_comma, parseMembers_member_plain hmore htext]
    rfl
  · rw [List.filter_cons_of_neg (by simpa using hne), filter_member hmore]

include hfield hascii hquote in
theorem of_objectWith_addressed (hne : field ≠ key) {text w : Bytes}
    (h : ObjectWith key w (123 :: addressed field target key text more)) :
    (Json.IsBody target ∧ Json.isUtf8 target = true) ∧ Json.isUtf8 text = true ∧
      ∃ r, Json.parseString (text ++ 34 :: more) = some (w, r) := by
  obtain ⟨members, hparse, hw⟩ := h
  obtain ⟨fuel, heq⟩ := parse_addressed hmore hfield hascii target text
  rw [heq] at hparse
  split_ifs at hparse with hutf8
  obtain ⟨htargetUtf8, htextUtf8⟩ := Bool.and_eq_true_iff.mp hutf8
  obtain ⟨p, hp, hparse⟩ := Option.bind_eq_some_iff.mp hparse
  split_ifs at hparse
  cases hparse
  obtain ⟨value, hvalue, hp⟩ := Option.bind_eq_some_iff.mp hp
  obtain ⟨q, hq, rfl⟩ := Option.map_eq_some_iff.mp hp
  obtain ⟨hbody, hrest⟩ | ⟨raw, hraw⟩ := Json.isBody_or_of_parseString hquote hvalue
  · rw [hrest, Json.parseMoreMembers_comma] at hq
    rw [List.filter_cons_of_neg (by simpa using hne)] at hw
    exact ⟨⟨hbody, htargetUtf8⟩, htextUtf8, parseString_of_member hmore hq hw⟩
  · -- The string of the target ends at the quote in front of the next name.
    obtain ⟨k, name, hkey, hws, hcomma, hbrace⟩ := hmore.key_first
    rw [member, Json.splitString_cons (by decide) (by decide), Json.splitString_quote] at hraw
    have hrest : value.2 = key ++ 34 :: 58 :: 34 :: (text ++ 34 :: more) := by
      simpa using (congrArg (fun o ↦ o.map Prod.snd) hraw).symm
    rw [hrest, hkey, List.cons_append, Json.parseMoreMembers_of_ne hws hcomma hbrace] at hq
    cases hq

end Bodies

/-! ## Ends of bodies -/

theorem ending_brace {key : Bytes} (hplain : Json.Plain key) (hascii : Json.isAscii key = true)
    (hfirst : ∃ k more, key = k :: more ∧ Json.isWs k = false ∧ k ≠ 44 ∧ k ≠ 125) :
    Ending key [125] [] where
  key_plain := hplain
  key_ascii := hascii
  key_first := hfirst
  parse_eq fuel := Json.parseMoreMembers_brace (fuel + 4) []
  no_key := by simp
  ascii_bytes := by decide

theorem ending_content : Ending (ascii "content") [125] [] :=
  ending_brace (by decide) (by decide) ⟨99, ascii "ontent", by decide⟩

theorem ending_text : Ending (ascii "text") [125] [] :=
  ending_brace (by decide) (by decide) ⟨116, ascii "ext", by decide⟩

theorem ending_markdown :
    Ending (ascii "text") (ascii ",\"parse_mode\":\"Markdown\"\x7d")
      [(ascii "parse_mode", .string (ascii "Markdown"))] where
  key_plain := by decide
  key_ascii := by decide
  key_first := ⟨116, ascii "ext", by decide⟩
  parse_eq fuel := by
    have hmore : ascii ",\"parse_mode\":\"Markdown\"\x7d" =
        44 :: member (ascii "parse_mode") (ascii "Markdown") [125] := by decide
    have hkey : Json.Plain (ascii "parse_mode") := by decide
    have hvalue : Json.Plain (ascii "Markdown") := by decide
    rw [hmore, Json.parseMoreMembers_comma, member, Json.parseMembers_string hkey,
      Json.parseString_plain hvalue, Option.bind_some, Json.parseMoreMembers_brace]
    rfl
  no_key := by simp; decide
  ascii_bytes := by decide

theorem ending_unfurl :
    Ending (ascii "text") (ascii ",\"unfurl_links\":false\x7d")
      [(ascii "unfurl_links", .bool false)] where
  key_plain := by decide
  key_ascii := by decide
  key_first := ⟨116, ascii "ext", by decide⟩
  parse_eq fuel := by
    rfl
  no_key := by simp; decide
  ascii_bytes := by decide

end DoctorClaw
