import DoctorClaw.Channels.Splitting

/-!
# Short messages

A text that is not longer than the limit is one message for Telegram.  Discord
and Slack cut it at its last blank all the same, and what is behind the blank
becomes a message of its own.
-/

namespace DoctorClaw

open Interaction Relation

/-! ## One chunk -/

/-- Whatever the environment replies, the only message is this one. -/
def SentOnce (post : Post) (p : SendProg ℤ) : Prop :=
  ∀ env : Env SendCall SendCall.Reply, messages (p.run env []).1 = [post]

/-- The last byte is a blank, or there is no blank at all. -/
def EndsAtBlank (s : Bytes) : Prop :=
  BlankAt s (s.length - 1) ∨ ∀ i < s.length, ¬ BlankAt s i

theorem splitLen_eq_length_iff_endsAtBlank {limit : ℕ} {content : Bytes}
    (hlen : content.length ≤ limit) (hne : content ≠ []) :
    splitLen limit content = content.length ↔ EndsAtBlank content := by
  have hpos := List.length_pos_iff.mpr hne
  unfold splitLen EndsAtBlank
  dsimp only
  rw [if_neg (not_lt.mpr hlen)]
  split_ifs with hnone
  · refine iff_of_true rfl (.inr fun i hi hblank ↦ ?_)
    obtain ⟨hspace, hnewline⟩ := lastBlank_eq_zero_iff.mp hnone i hi
    exact hblank.elim hspace hnewline
  · have hlast := lastBlankAt_lastBlank hnone
    constructor
    · intro heq
      rw [heq] at hlast
      exact .inl hlast.blank
    · rintro (hend | hno)
      · by_contra hlt
        have hle := hlast.le
        exact hlast.behind (content.length - 1) (by omega) (by omega) hend
      · have hle := hlast.le
        have hpos := hlast.pos
        exact absurd hlast.blank (hno _ (by omega))

section Loop

variable {splitLen : Bytes → ℕ} {size : ℕ} {post : ℕ → Bytes → Bytes → Post} {content : Bytes}

/-- The loop posts the text as one message exactly when it is one chunk that
leaves room for its terminator. -/
theorem sendChunks_once_iff (hsplit : Splits size splitLen)
    (hpost : ∀ num chunk text, (post num chunk text).num = num ∧
      (post num chunk text).chunk = chunk)
    (hread : ∀ chunk, chunk.length = size → post 0 chunk (chunk ++ [10]) ≠ post 0 chunk chunk)
    (hne : content ≠ []) (past : List SendCall) :
    (∀ env, messages ((sendChunks splitLen size post content.length 0 content).run env past).1 =
        [post 0 content content]) ↔
      splitLen content = content.length ∧ content.length < size := by
  obtain ⟨n, hn⟩ : ∃ n, content.length = n + 1 :=
    Nat.exists_eq_succ_of_ne_zero (List.length_pos_iff.mpr hne).ne'
  obtain ⟨-, hle, hsize⟩ := hsplit content hne
  rw [hn]
  constructor
  · intro h
    obtain ⟨hchunks, -, -⟩ := run_sendChunks splitLen size okReplies hpost delivers_okReplies
      (n + 1) 0 content past
    rw [h, splitChunks_succ hne, List.map_singleton, (hpost _ _ _).2] at hchunks
    have htake := (List.cons.inj hchunks).1
    have hwhole : splitLen content = content.length := by
      have hlen := congrArg List.length htake
      rw [List.length_take] at hlen
      omega
    refine ⟨hwhole.trans hn, ?_⟩
    by_contra hfull
    obtain ⟨text, past', resp, -, htext, -, hmessages, -⟩ :=
      run_sendChunks_succ splitLen size okReplies post hne n 0 past
    rw [← htake] at htext hmessages
    rw [h, htext (by omega)] at hmessages
    exact hread content (by omega) (List.cons.inj hmessages).1.symm
  · rintro ⟨hwhole, hlt⟩ env
    obtain ⟨text, past', resp, htext, -, -, hmessages, -⟩ :=
      run_sendChunks_succ splitLen size env post hne n 0 past
    have htake : content.take (splitLen content) = content := by
      rw [hwhole, ← hn, List.take_length]
    rw [htake] at htext hmessages
    rw [hmessages, htext (by omega), hwhole, ← hn, List.drop_length]
    refine congrArg (post 0 content content :: ·) ?_
    split_ifs
    · cases n with
      | zero => rfl
      | succ n => rfl
    · rfl

end Loop

/-- A longer text makes a longer body, as long as it fits the buffer. -/
theorem Prints.read_ne {key : Bytes} {size : ℕ} {good : Prop} {post : ℕ → Bytes → Bytes → Post}
    {body : Bytes → Bytes} {more : Bytes} (h : Prints key size good post body more)
    (hbody : ∀ text, (body (text ++ [10])).length ≠ (body text).length) {chunk : Bytes}
    (hchunk : chunk.length = size) : post 0 chunk (chunk ++ [10]) ≠ post 0 chunk chunk := by
  intro heq
  have hbodies := congrArg Post.body heq
  rw [h.body_eq 0 chunk _ (by simp [hchunk]), h.body_eq 0 chunk _ (by omega), if_neg (lt_irrefl 0),
    if_neg (lt_irrefl 0)] at hbodies
  exact hbody chunk (congrArg List.length hbodies)

/-! ## The senders -/

section Senders

variable (config : ChannelConfig) (override : Option ChatTarget)

theorem discord_sentOnce_iff (hurl : config.webhookUrl ≠ []) {content : Bytes} (hne : content ≠ [])
    (hlen : content.length ≤ 2000) :
    SentOnce (discordPost config 0 content content) (discordSendMessage config content) ↔
      content.length < 2000 ∧ EndsAtBlank content := by
  have hbody : ∀ text : Bytes,
      (123 :: member (ascii "content") (text ++ [10]) [125]).length ≠
        (123 :: member (ascii "content") text [125]).length := by
    intro text
    simp [member]
  rw [discordSendMessage, if_neg hurl]
  refine (sendChunks_once_iff (fun _ hne ↦ splitLen_spec (by decide) hne)
    (fun _ _ _ ↦ ⟨rfl, rfl⟩) (fun _ hchunk ↦ (discordPost_prints config).read_ne hbody hchunk) hne
    []).trans ?_
  rw [splitLen_eq_length_iff_endsAtBlank hlen hne, and_comm]

theorem slack_sentOnce_iff (htoken : config.botToken ≠ []) (htarget : config.target override ≠ [])
    {content : Bytes} (hne : content ≠ []) (hlen : content.length ≤ 3000) :
    SentOnce (slackPost config (config.target override) 0 content content)
        (slackSendMessageTo config override content) ↔
      content.length < 3000 ∧ EndsAtBlank content := by
  obtain ⟨hquote, htargetLen⟩ := config.target_spec override
  have hbody : ∀ text : Bytes,
      (123 :: addressed (ascii "channel") (config.target override) (ascii "text") (text ++ [10])
        (ascii ",\"unfurl_links\":false\x7d")).length ≠
      (123 :: addressed (ascii "channel") (config.target override) (ascii "text") text
        (ascii ",\"unfurl_links\":false\x7d")).length := by
    intro text
    simp [addressed, member]
  have honce := sendChunks_once_iff (fun _ hne ↦ splitLen_spec (by decide) hne)
    (fun _ _ _ ↦ ⟨rfl, rfl⟩)
    (fun _ hchunk ↦ (slackPost_prints config hquote htargetLen).read_ne hbody hchunk) hne
    [.typing (ascii "https://slack.com/api/users.setPresence") [slackAuth config, jsonHeader]
      (ascii "\x7b\"presence\":\"auto\"\x7d")]
  rw [slackSendMessageTo, if_neg (not_or.mpr ⟨htoken, htarget⟩)]
  refine Iff.trans ?_ (honce.trans ?_)
  · exact Iff.rfl
  · rw [splitLen_eq_length_iff_endsAtBlank hlen hne, and_comm]

/-- The message with the whole text. -/
def telegramWhole (target cleaned : Bytes) : Post :=
  telegramPost config target (ascii "\",\"parse_mode\":\"Markdown\"\x7d") 0 cleaned cleaned

/-- The server answers the message without calling it `ok`.  The text is then sent
once more, without the parse mode. -/
def Refuses (env : Env SendCall SendCall.Reply) (past : List SendCall) (post : Post) : Prop :=
  (env past (.message post)).result = 0 ∧
    (env past (.message post)).data.any (fun data ↦ !saysOk data) = true

theorem telegramSendWhole_once_iff (env : Env SendCall SendCall.Reply) (target cleaned : Bytes)
    (past : List SendCall) :
    messages ((telegramSendWhole config target cleaned).run env past).1 =
        [telegramWhole config target cleaned] ↔
      ¬ Refuses env past (telegramWhole config target cleaned) := by
  unfold telegramSendWhole
  rw [Prog.run_perform_bind]
  split_ifs with hrefused
  · refine iff_of_false (fun h ↦ ?_) (not_not.mpr hrefused)
    have hlength : 2 = 1 := congrArg List.length h
    exact absurd hlength (by decide)
  · exact iff_of_true rfl hrefused

/-- A text that is too long is more than one message: none of them is the whole. -/
theorem telegramSendText_once_iff (env : Env SendCall SendCall.Reply) (target : Bytes)
    {cleaned : Bytes} (past : List SendCall) :
    messages ((telegramSendText config target cleaned).run env past).1 =
        [telegramWhole config target cleaned] ↔
      cleaned.length ≤ 4096 ∧ ¬ Refuses env past (telegramWhole config target cleaned) := by
  unfold telegramSendText
  by_cases hfits : cleaned.length ≤ maxMessageLength
  · rw [if_pos hfits, telegramSendWhole_once_iff]
    exact (and_iff_right hfits).symm
  · rw [if_neg hfits]
    refine iff_of_false (fun h ↦ ?_) fun h ↦ hfits h.1
    have hne : cleaned ≠ [] := by
      rintro rfl
      exact hfits (Nat.zero_le _)
    obtain ⟨n, hn⟩ : ∃ n, cleaned.length = n + 1 :=
      Nat.exists_eq_succ_of_ne_zero (List.length_pos_iff.mpr hne).ne'
    obtain ⟨text, past', resp, -, -, -, hmessages, -⟩ :=
      run_sendChunks_succ telegramSplitLen maxMessageLength env
        (telegramPost config target (ascii "\"\x7d")) hne n 0 past
    rw [hn, hmessages] at h
    have hchunk : cleaned.take (telegramSplitLen cleaned) = cleaned :=
      congrArg Post.chunk (List.cons.inj h).1
    have hlength := congrArg List.length hchunk
    rw [List.length_take] at hlength
    have hle := (telegramSplitLen_spec hne).2.2
    omega

/-- Whatever stands behind the text, it is sent once, exactly when its tags are
closed and the server calls the message `ok` or fails. -/
theorem telegram_sentOnce_iff (htoken : config.botToken ≠ [])
    (htarget : config.target override ≠ []) {content : Bytes} (hzero : (0 : UInt8) ∉ content)
    (hlen : content.length ≤ 4096) (env : Env SendCall SendCall.Reply) :
    (∀ behind, messages ((telegramSendMessageTo config override content behind).run env []).1 =
        [telegramWhole config (config.target override) (cleanedContent content behind)]) ↔
      TagsClosed content ∧ ¬ Refuses env (noticeCalls config env)
        (telegramWhole config (config.target override) (cleanedContent content [])) := by
  have hmessages : ∀ behind, messages ((telegramSendMessageTo config override content behind).run
      env []).1 = messages ((telegramSendText config (config.target override)
        (cleanedContent content behind)).run env (noticeCalls config env)).1 := fun behind ↦
    (run_telegramSendMessageTo config override htoken htarget content behind env).1
  simp only [hmessages, telegramSendText_once_iff]
  constructor
  · refine fun h ↦ ⟨fun x hx ↦ ?_, (h []).2⟩
    by_contra hopen
    have hkept : min 5000 8191 ≤ (stripToolCalls content (List.replicate 5000 97)).length :=
      le_length_stripToolCallsFrom hx hopen hzero (by
        rw [List.length_replicate]
        omega)
    have hlong : 4096 < (cleanedContent content (List.replicate 5000 97)).length := by
      rw [cleanedContent, CString.cut, List.length_take]
      omega
    exact absurd (h (List.replicate 5000 97)).1 (not_le.mpr hlong)
  · rintro ⟨hclosed, haccepted⟩ behind
    have hsame : cleanedContent content behind = cleanedContent content [] := by
      rw [cleanedContent, cleanedContent, stripToolCalls_behind hzero hclosed behind []]
    have hstrip : (stripToolCalls content []).length ≤ content.length :=
      length_stripToolCallsFrom_le hzero (closedScan_of_closed hclosed) (by omega)
    rw [hsame]
    exact ⟨(List.length_take_le' _ _).trans (hstrip.trans hlen), haccepted⟩

/-- A short text is one message for Telegram when its tags are closed and the
server does not refuse it, and for Discord and Slack when it leaves room for its
terminator and has no blank but at its end. -/
theorem short_message_sent_once_iff {content : Bytes} (hne : content ≠ [])
    (hzero : (0 : UInt8) ∉ content) :
    (config.botToken ≠ [] → config.target override ≠ [] → content.length ≤ 4096 →
      ∀ env : Env SendCall SendCall.Reply,
        (∀ behind, messages ((telegramSendMessageTo config override content behind).run
            env []).1 =
            [telegramWhole config (config.target override) (cleanedContent content behind)]) ↔
          TagsClosed content ∧ ¬ Refuses env (noticeCalls config env)
            (telegramWhole config (config.target override) (cleanedContent content []))) ∧
    (config.webhookUrl ≠ [] → content.length ≤ 2000 →
      (SentOnce (discordPost config 0 content content) (discordSendMessage config content) ↔
        content.length < 2000 ∧ EndsAtBlank content)) ∧
    (config.botToken ≠ [] → config.target override ≠ [] → content.length ≤ 3000 →
      (SentOnce (slackPost config (config.target override) 0 content content)
          (slackSendMessageTo config override content) ↔
        content.length < 3000 ∧ EndsAtBlank content)) :=
  ⟨fun htoken htarget ↦ telegram_sentOnce_iff config override htoken htarget hzero,
    fun hurl ↦ discord_sentOnce_iff config hurl hne,
    fun htoken htarget ↦ slack_sentOnce_iff config override htoken htarget hne⟩

end Senders

theorem short_message_sent_once_hi :
    (exampleChannel.webhookUrl ≠ [] ∧ ascii "hi" ≠ [] ∧ (0 : UInt8) ∉ ascii "hi" ∧
        (ascii "hi").length ≤ 2000) ∧
      (SentOnce (discordPost exampleChannel 0 (ascii "hi") (ascii "hi"))
          (discordSendMessage exampleChannel (ascii "hi")) ↔
        (ascii "hi").length < 2000 ∧ EndsAtBlank (ascii "hi")) :=
  ⟨⟨by decide, by decide, by decide, by decide⟩,
    (short_message_sent_once_iff exampleChannel (some exampleTarget) (by decide)
      (by decide)).2.1 (by decide) (by decide)⟩

/-- Discord and Slack send the second word as a message of its own. -/
theorem hello_world_not_sent_once :
    ¬ SentOnce (discordPost exampleChannel 0 (ascii "hello world") (ascii "hello world"))
        (discordSendMessage exampleChannel (ascii "hello world")) ∧
      ¬ SentOnce (slackPost exampleChannel (exampleChannel.target (some exampleTarget)) 0
          (ascii "hello world") (ascii "hello world"))
        (slackSendMessageTo exampleChannel (some exampleTarget) (ascii "hello world")) := by
  have hcut : ¬ EndsAtBlank (ascii "hello world") := by
    rintro ((hspace | hnewline) | hno)
    · exact absurd hspace (by decide)
    · exact absurd hnewline (by decide)
    · exact hno 5 (by decide) (.inl (by decide))
  rw [discord_sentOnce_iff _ (by decide) (by decide) (by decide),
    slack_sentOnce_iff _ _ (by decide) (by decide) (by decide) (by decide)]
  exact ⟨fun h ↦ hcut h.2, fun h ↦ hcut h.2⟩

end DoctorClaw
