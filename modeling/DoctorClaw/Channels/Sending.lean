import DoctorClaw.Channels.Bodies

/-!
# Runs of the senders

A sender that cuts its text into more than one chunk, or fills the buffer of a
chunk, posts a body that is no JSON in some environment.  What is left are
texts of one chunk that nothing has to be escaped in.
-/

namespace DoctorClaw

open Interaction

/-! ## Splitting -/

theorem lastBlank_le (s : Bytes) (n : ℕ) : lastBlank s n ≤ n := by
  induction n with
  | zero => exact le_rfl
  | succ n ih =>
      rw [lastBlank]
      split_ifs
      · exact le_rfl
      · exact Nat.le_succ_of_le ih

theorem lastBlank_eq_zero_iff {s : Bytes} {n : ℕ} :
    lastBlank s n = 0 ↔ ∀ i < n, s[i]? ≠ some 32 ∧ s[i]? ≠ some 10 := by
  induction n with
  | zero => simp [lastBlank]
  | succ n ih =>
      rw [lastBlank]
      split_ifs with hblank
      · refine iff_of_false id fun h ↦ ?_
        obtain ⟨hspace, hnewline⟩ := h n (Nat.lt_succ_self n)
        exact hblank.elim hspace hnewline
      · rw [ih]
        refine ⟨fun h i hi ↦ ?_, fun h i hi ↦ h i (Nat.lt_succ_of_lt hi)⟩
        obtain hi | rfl := Nat.lt_succ_iff_lt_or_eq.mp hi
        · exact h i hi
        · exact not_or.mp hblank

theorem lastBlank_length_eq_zero_iff {s : Bytes} (hnewline : (10 : UInt8) ∉ s) :
    lastBlank s s.length = 0 ↔ (32 : UInt8) ∉ s := by
  rw [lastBlank_eq_zero_iff]
  constructor
  · intro h hmem
    obtain ⟨i, hi⟩ := List.mem_iff_getElem?.mp hmem
    have hlt := (List.getElem?_eq_some_iff.mp hi).1
    exact (h i hlt).1 hi
  · intro h i _
    exact ⟨fun hi ↦ h (List.mem_of_getElem? hi), fun hi ↦ hnewline (List.mem_of_getElem? hi)⟩

theorem splitLen_spec {limit : ℕ} (hlimit : 0 < limit) {content : Bytes} (hne : content ≠ []) :
    0 < splitLen limit content ∧ splitLen limit content ≤ content.length ∧
      splitLen limit content ≤ limit := by
  have hpos := List.length_pos_iff.mpr hne
  have hle := lastBlank_le content (if limit < content.length then limit else content.length)
  unfold splitLen
  dsimp only
  split_ifs at hle ⊢ <;> omega

theorem telegramSplitLen_spec {content : Bytes} (hne : content ≠ []) :
    0 < telegramSplitLen content ∧ telegramSplitLen content ≤ content.length ∧
      telegramSplitLen content ≤ maxMessageLength := by
  have hpos := List.length_pos_iff.mpr hne
  have hle := lastBlank_le content maxMessageLength
  have hmax : 0 < maxMessageLength := by decide
  unfold telegramSplitLen
  split_ifs <;> omega

/-- A text without newlines is one chunk exactly when it ends with a space or
has none. -/
theorem splitLen_eq_length_iff {limit : ℕ} {content : Bytes} (hlen : content.length ≤ limit)
    (hnewline : (10 : UInt8) ∉ content) (hne : content ≠ []) :
    splitLen limit content = content.length ↔
      content.getLast? = some 32 ∨ (32 : UInt8) ∉ content := by
  obtain ⟨n, hn⟩ : ∃ n, content.length = n + 1 :=
    Nat.exists_eq_succ_of_ne_zero (List.length_pos_iff.mpr hne).ne'
  have hlast : content.getLast? = content[n]? := by
    rw [List.getLast?_eq_getElem?, hn, Nat.add_sub_cancel]
  have hno : content[n]? ≠ some 10 := fun h ↦ hnewline (List.mem_of_getElem? h)
  have hzero := lastBlank_length_eq_zero_iff hnewline
  have hwhole : ¬ limit < content.length := by omega
  simp only [splitLen, if_neg hwhole]
  rw [hlast]
  by_cases hspace : (32 : UInt8) ∈ content
  · have hpos : lastBlank content content.length ≠ 0 := fun h ↦ hzero.mp h hspace
    rw [if_neg hpos, hn, lastBlank]
    by_cases hend : content[n]? = some 32
    · simp [hend]
    · have hle := lastBlank_le content n
      simp only [hend, hno, or_self, if_false, hspace, not_true_eq_false, iff_false]
      omega
  · rw [if_pos (hzero.mpr hspace)]
    exact iff_of_true rfl (.inr hspace)

/-! ## Runs of the senders -/

section Chunks

variable {rule : SendCall → Prop} {past : List SendCall}

theorem follows_readChunk {size : ℕ} {chunk : Bytes} {f : Bytes → SendProg ℤ}
    (hover : rule .overrun) :
    (readChunk size chunk >>= f).Follows (fun _ ↦ rule) past ↔
      if chunk.length < size then (f chunk).Follows (fun _ ↦ rule) past
      else ∀ behind, (f (chunk ++ behind)).Follows (fun _ ↦ rule) (past ++ [.overrun]) := by
  unfold readChunk
  split_ifs
  · exact Iff.rfl
  · exact ⟨fun h ↦ h.2, fun h ↦ ⟨hover, h⟩⟩

variable {splitLen : Bytes → ℕ} {size : ℕ} {post : ℕ → Bytes → Bytes → Post}
  (hover : rule .overrun)
  (hsplit : ∀ content, content ≠ [] → 0 < splitLen content ∧
    splitLen content ≤ content.length ∧ splitLen content ≤ size)
  (hcont : ∀ num chunk, 0 < num → chunk.length ≤ size → ¬ rule (.message (post num chunk chunk)))
  (hfull : ∀ chunk, chunk.length = size → ¬ rule (.message (post 0 chunk (chunk ++ [10]))))

include hover hsplit hcont in
/-- A chunk behind the first breaks the rule. -/
theorem not_follows_sendChunks_cont {num fuel : ℕ} (hnum : 0 < num) {content : Bytes}
    (hne : content ≠ []) :
    ¬ (sendChunks splitLen size post (fuel + 1) num content).Follows (fun _ ↦ rule) past := by
  intro h
  obtain ⟨-, -, hsize⟩ := hsplit content hne
  have hbad := hcont num (content.take (splitLen content)) hnum
    ((List.length_take_le _ _).trans hsize)
  rw [sendChunks, if_neg hne, follows_readChunk hover] at h
  split_ifs at h
  · exact hbad (follows_perform_iff.mp h).1
  · have hrule := (follows_perform_iff.mp (h [])).1
    rw [List.append_nil] at hrule
    exact hbad hrule

include hover hsplit hcont hfull in
/-- The rule is kept exactly when the text is one chunk that leaves room for
its terminator. -/
theorem follows_sendChunks_iff (content : Bytes) :
    (sendChunks splitLen size post content.length 0 content).Follows (fun _ ↦ rule) past ↔
      content = [] ∨ (splitLen content = content.length ∧ content.length < size ∧
        rule (.message (post 0 content content))) := by
  by_cases hne : content = []
  · subst hne
    exact iff_of_true trivial (.inl rfl)
  obtain ⟨n, hn⟩ : ∃ n, content.length = n + 1 :=
    Nat.exists_eq_succ_of_ne_zero (List.length_pos_iff.mpr hne).ne'
  obtain ⟨hpos, hle, hsize⟩ := hsplit content hne
  have htake : (content.take (splitLen content)).length = splitLen content := by
    rw [List.length_take, Nat.min_eq_left hle]
  rw [hn, sendChunks, if_neg hne, follows_readChunk hover, htake]
  constructor
  · intro h
    split_ifs at h with hroom
    · obtain ⟨hfirst, hnext⟩ := follows_perform_iff.mp h
      have hwhole : splitLen content = content.length := by
        by_contra hshort
        have hrest : content.drop (splitLen content) ≠ [] := by
          rw [ne_eq, List.drop_eq_nil_iff]
          omega
        obtain ⟨m, rfl⟩ : ∃ m, n = m + 1 := ⟨n - 1, by omega⟩
        have hgo := hnext ⟨0, none⟩
        rw [if_pos rfl] at hgo
        exact not_follows_sendChunks_cont hover hsplit hcont (Nat.lt_succ_self 0) hrest hgo
      rw [hwhole, List.take_length] at hfirst
      exact .inr ⟨by omega, by omega, hfirst⟩
    · have hfilled : (content.take (splitLen content)).length = size := by omega
      exact absurd (follows_perform_iff.mp (h [10])).1 (hfull _ hfilled)
  · rintro (hempty | ⟨hwhole, hroom, hfirst⟩)
    · exact absurd hempty hne
    · have hwhole : splitLen content = content.length := by omega
      rw [if_pos (by omega), hwhole, List.take_length]
      refine follows_perform hfirst fun resp ↦ ?_
      refine follows_ite (fun _ ↦ ?_) fun _ ↦ trivial
      rw [List.drop_length]
      cases n with
      | zero => trivial
      | succ n =>
          rw [sendChunks, if_pos rfl]
          trivial

end Chunks

/-! ## What the senders print -/

/-- A text between quotes that reads as itself. -/
def Readable (s : Bytes) : Prop := Json.Plain s ∧ Json.isUtf8 s = true

/-- An id that reads as a string between quotes. -/
def GoodTarget (s : Bytes) : Prop := Json.IsBody s ∧ Json.isUtf8 s = true

/-- A text that ends with a space or has none. -/
def OneWord (s : Bytes) : Prop := s.getLast? = some 32 ∨ (32 : UInt8) ∉ s

instance (s : Bytes) : Decidable (Readable s) := inferInstanceAs (Decidable (_ ∧ _))

instance (s : Bytes) : Decidable (GoodTarget s) := inferInstanceAs (Decidable (_ ∧ _))

instance (s : Bytes) : Decidable (OneWord s) := inferInstanceAs (Decidable (_ ∨ _))

/-- The newline of the mark stands in the string as it is. -/
theorem parseString_contMark (text tail w r : Bytes) :
    Json.parseString (contMark ++ text ++ tail) ≠ some (w, r) := by
  intro h
  have hmark : contMark ++ text ++ tail = ascii "[cont.]" ++ 10 :: (text ++ tail) := by
    have hsplit : contMark = ascii "[cont.]" ++ [10] := by decide
    simp [hsplit]
  rw [hmark] at h
  have hquote := (Json.parseString_before_control (by decide) h).1
  exact absurd hquote (by decide)

theorem parseString_overrun (chunk tail r : Bytes) :
    Json.parseString (chunk ++ [10] ++ tail) ≠ some (chunk, r) := by
  intro h
  rw [List.append_assoc, List.singleton_append] at h
  exact lt_irrefl _ (Json.parseString_before_control (by decide) h).2

/-- A sender that prints the texts of its chunks into bodies of one shape, which
are read as objects when `good` holds and the text can be read. -/
structure Prints (key : Bytes) (size : ℕ) (good : Prop) (post : ℕ → Bytes → Bytes → Post)
    (body : Bytes → Bytes) (more : Bytes) : Prop where
  num_eq : ∀ num chunk text, (post num chunk text).num = num
  chunk_eq : ∀ num chunk text, (post num chunk text).chunk = chunk
  body_eq : ∀ num chunk text, text.length ≤ size + 1 →
    (post num chunk text).body = body (if 0 < num then contMark ++ text else text)
  sound : ∀ text w, ObjectWith key w (body text) → good ∧ Json.isUtf8 text = true ∧
    ∃ r, Json.parseString (text ++ 34 :: more) = some (w, r)
  complete : ∀ text, good → Readable text → ObjectWith key text (body text)

section Prints

variable {key : Bytes} {size : ℕ} {good : Prop} {post : ℕ → Bytes → Bytes → Post}
  {body : Bytes → Bytes} {more : Bytes} (h : Prints key size good post body more)
include h

theorem Prints.not_carries_cont {num : ℕ} (hnum : 0 < num) {chunk : Bytes}
    (hlen : chunk.length ≤ size) : ¬ (post num chunk chunk).Carries key := by
  intro hcarries
  unfold Post.Carries at hcarries
  rw [h.body_eq _ _ _ (by omega), if_pos hnum] at hcarries
  obtain ⟨-, -, r, hparse⟩ := h.sound _ _ hcarries
  exact parseString_contMark _ _ _ _ hparse

theorem Prints.not_carries_overrun {chunk : Bytes} (hlen : chunk.length = size) :
    ¬ (post 0 chunk (chunk ++ [10])).Carries key := by
  intro hcarries
  unfold Post.Carries at hcarries
  rw [h.body_eq _ _ _ (by simp [hlen]), if_neg (lt_irrefl 0), h.num_eq, if_neg (lt_irrefl 0),
    h.chunk_eq] at hcarries
  obtain ⟨-, -, r, hparse⟩ := h.sound _ _ hcarries
  exact parseString_overrun _ _ _ hparse

theorem Prints.carries_iff {content : Bytes} (hlen : content.length ≤ size) :
    (post 0 content content).Carries key ↔ good ∧ Readable content := by
  unfold Post.Carries
  rw [h.body_eq _ _ _ (by omega), if_neg (lt_irrefl 0), h.num_eq, if_neg (lt_irrefl 0), h.chunk_eq]
  constructor
  · intro hobject
    obtain ⟨hgood, hutf8, r, hparse⟩ := h.sound _ _ hobject
    exact ⟨hgood, (Json.plain_of_parseString hparse).1, hutf8⟩
  · exact fun hok ↦ h.complete _ hok.1 hok.2

theorem Prints.follows_iff {splitLen : Bytes → ℕ}
    (hsplit : ∀ content, content ≠ [] → 0 < splitLen content ∧
      splitLen content ≤ content.length ∧ splitLen content ≤ size)
    (past : List SendCall) (content : Bytes) :
    (sendChunks splitLen size post content.length 0 content).Follows
        (fun _ ↦ SendCall.Carries key) past ↔
      content = [] ∨ (splitLen content = content.length ∧ content.length < size ∧
        good ∧ Readable content) := by
  rw [follows_sendChunks_iff trivial hsplit (fun _ _ hnum hlen ↦ h.not_carries_cont hnum hlen)
    fun _ hlen ↦ h.not_carries_overrun hlen]
  refine or_congr_right (and_congr_right fun _ ↦ and_congr_right fun hlt ↦ ?_)
  exact h.carries_iff hlt.le

end Prints

theorem Readable.splitLen_eq_iff {limit : ℕ} {content : Bytes} (h : Readable content)
    (hne : content ≠ []) (hlen : content.length < limit) :
    splitLen limit content = content.length ↔ OneWord content :=
  splitLen_eq_length_iff hlen.le (fun hmem ↦ absurd (h.1 10 hmem).1 (by decide)) hne

/-- Discord and Slack split at spaces. -/
theorem Prints.follows_splitLen_iff {key : Bytes} {size : ℕ} {good : Prop}
    {post : ℕ → Bytes → Bytes → Post} {body : Bytes → Bytes} {more : Bytes}
    (h : Prints key size good post body more) (hsize : 0 < size) (past : List SendCall)
    (content : Bytes) :
    (sendChunks (splitLen size) size post content.length 0 content).Follows
        (fun _ ↦ SendCall.Carries key) past ↔
      content = [] ∨ (good ∧ content.length < size ∧ OneWord content ∧ Readable content) := by
  rw [h.follows_iff fun content hne ↦ splitLen_spec hsize hne]
  by_cases hne : content = []
  · exact iff_of_true (.inl hne) (.inl hne)
  refine or_congr_right ⟨?_, ?_⟩
  · rintro ⟨hwhole, hlt, hgood, hread⟩
    exact ⟨hgood, hlt, (hread.splitLen_eq_iff hne hlt).mp hwhole, hread⟩
  · rintro ⟨hgood, hlt, hword, hread⟩
    exact ⟨(hread.splitLen_eq_iff hne hlt).mpr hword, hlt, hgood, hread⟩

theorem length_marked_le (num : ℕ) (text : Bytes) :
    (if 0 < num then contMark ++ text else text).length ≤ text.length + 8 := by
  have hmark : contMark.length = 8 := by decide
  split_ifs
  · rw [List.length_append]
    omega
  · omega

section Discord

variable (config : ChannelConfig)

theorem discordPost_prints :
    Prints (ascii "content") 2000 True (discordPost config)
      (fun text ↦ 123 :: member (ascii "content") text [125]) [125] where
  num_eq _ _ _ := rfl
  chunk_eq _ _ _ := rfl
  body_eq num chunk text hlen := by
    have hmarked := length_marked_le num text
    have hfront : ascii "\x7b\"content\":\"" = 123 :: 34 :: (ascii "content" ++ [34, 58, 34]) := by
      decide
    have hback : ascii "\"\x7d" = [34, 125] := by decide
    have hlength : (ascii "content").length = 7 := by decide
    simp only [discordPost, hfront, hback]
    rw [CString.cut_of_lt]
    · simp [member]
    · simp only [List.length_append, List.length_cons, List.length_nil, hlength]
      omega
  sound _ _ hobject := ⟨trivial, of_objectWith_member ending_content hobject⟩
  complete _ _ hread := objectWith_member ending_content hread.1 hread.2

theorem discord_sendsJson_iff (content : Bytes) :
    SendsJson (ascii "content") (discordSendMessage config content) ↔
      config.webhookUrl = [] ∨ content = [] ∨
        (content.length < 2000 ∧ OneWord content ∧ Readable content) := by
  rw [sendsJson_iff, discordSendMessage]
  split_ifs with hurl
  · exact iff_of_true trivial (.inl hurl)
  · rw [(discordPost_prints config).follows_splitLen_iff (by decide), true_and,
      or_iff_right hurl]

end Discord

/-! ## Senders with a target -/

theorem ChannelConfig.target_spec (config : ChannelConfig) (override : Option ChatTarget) :
    (34 : UInt8) ∉ config.target override ∧ (config.target override).length ≤ 127 := by
  have hdefault : (34 : UInt8) ∉ (config.allowedUser.map ChatTarget.id).getD [] ∧
      ((config.allowedUser.map ChatTarget.id).getD []).length ≤ 127 := by
    cases config.allowedUser with
    | none => simp
    | some user => exact ⟨user.no_quote, user.length_le⟩
  unfold ChannelConfig.target
  cases override with
  | none => exact hdefault
  | some target =>
      dsimp only
      split_ifs
      · exact hdefault
      · exact ⟨target.no_quote, target.length_le⟩

/-- A body with a target is not cut. -/
theorem cut_addressed {size : ℕ} {front field target text more : Bytes}
    (hfront : front = 123 :: 34 :: (field ++ [34, 58, 34])) (hfield : field.length = 7)
    (hlen : target.length + text.length + more.length + 32 < size) :
    CString.cut size (front ++ target ++ ascii "\",\"text\":\"" ++ text ++ 34 :: more) =
      123 :: addressed field target (ascii "text") text more := by
  have hmid : ascii "\",\"text\":\"" = 34 :: 44 :: 34 :: (ascii "text" ++ [34, 58, 34]) := by decide
  have hkey : (ascii "text").length = 4 := by decide
  rw [hfront, hmid, CString.cut_of_lt]
  · simp [addressed, member]
  · simp only [List.length_append, List.length_cons, List.length_nil, hfield, hkey]
    omega

section Targets

variable (config : ChannelConfig) {target : Bytes} (hquote : (34 : UInt8) ∉ target)
  (hlen : target.length ≤ 127)

include hquote hlen in
theorem telegramPost_prints {more : Bytes} {rest : List (Bytes × Json.Value)}
    (hmore : Ending (ascii "text") more rest) (hshort : more.length ≤ 32) :
    Prints (ascii "text") maxMessageLength (GoodTarget target)
      (telegramPost config target (34 :: more))
      (fun text ↦ 123 :: addressed (ascii "chat_id") target (ascii "text") text more) more where
  num_eq _ _ _ := rfl
  chunk_eq _ _ _ := rfl
  body_eq num chunk text htext := by
    have hmarked := length_marked_le num text
    have hmax : maxMessageLength = 4096 := rfl
    exact cut_addressed (by decide) (by decide) (by omega)
  sound _ _ hobject :=
    of_objectWith_addressed hmore (by decide) (by decide) hquote (by decide) hobject
  complete _ hgood hread :=
    objectWith_addressed hmore (by decide) (by decide) hquote (by decide) hgood.1 hgood.2 hread.1
      hread.2

include hquote hlen in
theorem slackPost_prints :
    Prints (ascii "text") 3000 (GoodTarget target) (slackPost config target)
      (fun text ↦ 123 :: addressed (ascii "channel") target (ascii "text") text
        (ascii ",\"unfurl_links\":false\x7d")) (ascii ",\"unfurl_links\":false\x7d") where
  num_eq _ _ _ := rfl
  chunk_eq _ _ _ := rfl
  body_eq num chunk text htext := by
    have hmarked := length_marked_le num text
    have hback : ascii "\",\"unfurl_links\":false\x7d" =
        34 :: ascii ",\"unfurl_links\":false\x7d" := by
      decide
    have hmore : (ascii ",\"unfurl_links\":false\x7d").length = 22 := by decide
    simp only [slackPost, hback]
    exact cut_addressed (by decide) (by decide) (by omega)
  sound _ _ hobject :=
    of_objectWith_addressed ending_unfurl (by decide) (by decide) hquote (by decide) hobject
  complete _ hgood hread :=
    objectWith_addressed ending_unfurl (by decide) (by decide) hquote (by decide) hgood.1 hgood.2
      hread.1 hread.2

end Targets

section Senders

variable (config : ChannelConfig) (override : Option ChatTarget)

theorem slack_sendsJson_iff (content : Bytes) :
    SendsJson (ascii "text") (slackSendMessageTo config override content) ↔
      config.botToken = [] ∨ config.target override = [] ∨ content = [] ∨
        (GoodTarget (config.target override) ∧ content.length < 3000 ∧ OneWord content ∧
          Readable content) := by
  obtain ⟨hquote, hlen⟩ := config.target_spec override
  have hprints := slackPost_prints config hquote hlen
  rw [sendsJson_iff, slackSendMessageTo, ← or_assoc]
  split_ifs with hmissing
  · exact iff_of_true trivial (.inl hmissing)
  · rw [or_iff_right hmissing]
    constructor
    · intro h
      have hchunks := (follows_perform_iff.mp h).2 ⟨0, none⟩
      exact (hprints.follows_splitLen_iff (by decide) _ content).mp hchunks
    · intro h
      refine follows_perform trivial fun _ ↦ ?_
      exact (hprints.follows_splitLen_iff (by decide) _ content).mpr h

/-- A text that is sent at once may have to be sent twice. -/
theorem follows_telegramSendWhole_iff {target : Bytes} (hquote : (34 : UInt8) ∉ target)
    (hlen : target.length ≤ 127) {cleaned : Bytes} (hfits : cleaned.length ≤ maxMessageLength)
    (past : List SendCall) :
    (telegramSendWhole config target cleaned).Follows
        (fun _ ↦ SendCall.Carries (ascii "text")) past ↔
      GoodTarget target ∧ Readable cleaned := by
  have hmode : ascii "\",\"parse_mode\":\"Markdown\"\x7d" =
      34 :: ascii ",\"parse_mode\":\"Markdown\"\x7d" := by decide
  have hbrace : ascii "\"\x7d" = 34 :: [125] := by decide
  have hfirst := (telegramPost_prints config hquote hlen ending_markdown (by decide)).carries_iff hfits
  have hretry := (telegramPost_prints config hquote hlen ending_text (by decide)).carries_iff hfits
  unfold telegramSendWhole
  rw [hmode, hbrace]
  constructor
  · exact fun h ↦ hfirst.mp (follows_perform_iff.mp h).1
  · intro h
    refine follows_perform (hfirst.mpr h) fun resp ↦ follows_ite (fun _ ↦ ?_) fun _ ↦ trivial
    exact follows_perform (hretry.mpr h) fun _ ↦ trivial

theorem telegramSplitLen_lt {content : Bytes} (hlong : maxMessageLength < content.length) :
    telegramSplitLen content ≠ content.length := by
  have hne : content ≠ [] := by
    rintro rfl
    simp at hlong
  have hle := (telegramSplitLen_spec hne).2.2
  omega

/-- The notices around a message follow the rule. -/
theorem follows_typing_iff {rule : SendCall → Prop}
    (htyping : ∀ url headers body, rule (.typing url headers body)) (p : SendProg ℤ) :
    (telegramSendTyping config true >>= fun _ ↦ p >>= fun result ↦
        telegramSendTyping config false >>= fun _ ↦ pure result).Follows (fun _ ↦ rule) [] ↔
      p.Follows (fun _ ↦ rule) [] := by
  have hnotice (result : ℤ) (past : List SendCall) :
      (telegramSendTyping config false >>= fun _ ↦ pure result).Follows (fun _ ↦ rule) past :=
    follows_perform (htyping _ _ _) fun _ ↦ trivial
  constructor
  · intro h
    have hmessage := (follows_perform_iff.mp h).2 ⟨0, none⟩
    exact ((follows_bind_iff hnotice).mp hmessage).anywhere []
  · exact fun h ↦ follows_perform (htyping _ _ _) fun _ ↦
      (follows_bind_iff hnotice).mpr (h.anywhere _)

theorem telegram_sendsJson_iff (content behind : Bytes) :
    SendsJson (ascii "text") (telegramSendMessageTo config override content behind) ↔
      config.botToken = [] ∨ config.target override = [] ∨
        (GoodTarget (config.target override) ∧
          (stripToolCalls content behind).length ≤ maxMessageLength ∧
          Readable (stripToolCalls content behind)) := by
  obtain ⟨hquote, hlen⟩ := config.target_spec override
  have hmax : maxMessageLength = 4096 := rfl
  rw [sendsJson_iff, telegramSendMessageTo, ← or_assoc]
  split_ifs with hmissing
  · exact iff_of_true trivial (.inl hmissing)
  rw [or_iff_right hmissing]
  refine (follows_typing_iff config (fun _ _ _ ↦ trivial) _).trans ?_
  unfold telegramSendText
  by_cases hfits : (CString.cut 8192 (stripToolCalls content behind)).length ≤ maxMessageLength
  · have hshort : (stripToolCalls content behind).length ≤ maxMessageLength := by
      simp only [CString.cut, List.length_take] at hfits
      omega
    rw [if_pos hfits, CString.cut_of_lt (by omega),
      follows_telegramSendWhole_iff config hquote hlen hshort, and_iff_right hshort]
  · have hbrace : ascii "\"\x7d" = 34 :: [125] := by decide
    have hprints := telegramPost_prints config hquote hlen ending_text (by decide)
    rw [if_neg hfits, hbrace, hprints.follows_iff fun content hne ↦ telegramSplitLen_spec hne]
    refine iff_of_false ?_ ?_
    · rintro (hempty | ⟨hwhole, -⟩)
      · rw [hempty] at hfits
        exact hfits (Nat.zero_le _)
      · exact telegramSplitLen_lt (not_le.mp hfits) hwhole
    · rintro ⟨-, hshort, -⟩
      exact hfits ((List.length_take_le' _ _).trans hshort)

/-- The bodies that the three senders post are JSON objects with the chunk as
their text exactly when nothing in the text needs escaping and the text is
sent in one piece. -/
theorem channel_bodies_are_json_iff (content behind : Bytes) :
    (SendsJson (ascii "text") (telegramSendMessageTo config override content behind) ↔
      config.botToken = [] ∨ config.target override = [] ∨
        (GoodTarget (config.target override) ∧
          (stripToolCalls content behind).length ≤ maxMessageLength ∧
          Readable (stripToolCalls content behind))) ∧
    (SendsJson (ascii "content") (discordSendMessage config content) ↔
      config.webhookUrl = [] ∨ content = [] ∨
        (content.length < 2000 ∧ OneWord content ∧ Readable content)) ∧
    (SendsJson (ascii "text") (slackSendMessageTo config override content) ↔
      config.botToken = [] ∨ config.target override = [] ∨ content = [] ∨
        (GoodTarget (config.target override) ∧ content.length < 3000 ∧ OneWord content ∧
          Readable content)) :=
  ⟨telegram_sendsJson_iff config override content behind, discord_sendsJson_iff config content,
    slack_sendsJson_iff config override content⟩

end Senders

def exampleChannel : ChannelConfig where
  botToken := ascii "token"
  webhookUrl := ascii "https://example"
  allowedUser := none

def exampleTarget : ChatTarget := telegramTarget (ascii "\"id\":42")

/-- A reply with quotes, and for Discord and Slack a reply with a space in it. -/
theorem quoted_reply_breaks_body :
    ¬ SendsJson (ascii "text")
        (telegramSendMessageTo exampleChannel (some exampleTarget) (ascii "say \"hi\"") []) ∧
      Json.parse (ascii "\x7b\"chat_id\":\"42\",\"text\":\"say \"hi\"\"\x7d") = none ∧
      ¬ SendsJson (ascii "content") (discordSendMessage exampleChannel (ascii "hello world")) ∧
      Json.parse (ascii "\x7b\"content\":\"[cont.]\nworld\"\x7d") = none ∧
      ¬ SendsJson (ascii "text")
        (slackSendMessageTo exampleChannel (parseSlackChannel (ascii "\"channel\":\"general\""))
          (ascii "hello world")) := by
  rw [telegram_sendsJson_iff, discord_sendsJson_iff, slack_sendsJson_iff]
  refine ⟨by decide +kernel, rfl, by decide +kernel, rfl, by decide +kernel⟩

end DoctorClaw
