import DoctorClaw.Channels.Sending
import DoctorClaw.Channels.ToolTags

/-!
# Splitting messages

A sender cuts a text into chunks until nothing is left of it.  Discord and Slack
go back to a blank in every text, Telegram only in those that are too long.  A
chunk may fill its buffer, and its terminator is then written behind it.
-/

namespace DoctorClaw

open Interaction

/-! ## The chunks of a text -/

/-- The chunks that the loop cuts when every request succeeds. -/
def splitChunks (splitLen : Bytes → ℕ) : ℕ → Bytes → List Bytes
  | 0, _ => []
  | fuel + 1, content =>
      if content = [] then []
      else content.take (splitLen content) ::
        splitChunks splitLen fuel (content.drop (splitLen content))

/-- Every chunk is a part of the text that is not empty and not too long. -/
def Splits (limit : ℕ) (splitLen : Bytes → ℕ) : Prop :=
  ∀ content, content ≠ [] → 0 < splitLen content ∧ splitLen content ≤ content.length ∧
    splitLen content ≤ limit

section Chunks

variable {splitLen : Bytes → ℕ} {limit fuel : ℕ} {content chunk : Bytes}

theorem splitChunks_nil (fuel : ℕ) : splitChunks splitLen fuel [] = [] := by
  cases fuel with
  | zero => rfl
  | succ fuel => rw [splitChunks, if_pos rfl]

theorem splitChunks_succ (h : content ≠ []) :
    splitChunks splitLen (fuel + 1) content = content.take (splitLen content) ::
      splitChunks splitLen fuel (content.drop (splitLen content)) := by
  rw [splitChunks, if_neg h]

theorem flatten_splitChunks (hsplit : Splits limit splitLen) (h : content.length ≤ fuel) :
    (splitChunks splitLen fuel content).flatten = content := by
  induction fuel generalizing content with
  | zero => rw [List.length_eq_zero_iff.mp (Nat.le_zero.mp h), splitChunks, List.flatten_nil]
  | succ fuel ih =>
      by_cases hne : content = []
      · rw [hne, splitChunks_nil, List.flatten_nil]
      · have hpos := (hsplit content hne).1
        have hlen : (content.drop (splitLen content)).length ≤ fuel := by
          rw [List.length_drop]
          omega
        rw [splitChunks_succ hne, List.flatten_cons, ih hlen, List.take_append_drop]

theorem length_of_mem_splitChunks (hsplit : Splits limit splitLen)
    (h : chunk ∈ splitChunks splitLen fuel content) :
    1 ≤ chunk.length ∧ chunk.length ≤ limit ∧ chunk.length ≤ content.length := by
  induction fuel generalizing content with
  | zero => cases h
  | succ fuel ih =>
      by_cases hne : content = []
      · rw [hne, splitChunks_nil] at h
        cases h
      · obtain ⟨hpos, hle, hlimit⟩ := hsplit content hne
        rw [splitChunks_succ hne, List.mem_cons] at h
        rcases h with rfl | h
        · rw [List.length_take]
          omega
        · have hrest := ih h
          rw [List.length_drop] at hrest
          omega

end Chunks

/-! ## Runs of the loop -/

/-- The messages among the calls. -/
def messages (calls : List SendCall) : List Post :=
  calls.filterMap fun
    | .message post => some post
    | _ => none

theorem messages_append (calls calls' : List SendCall) :
    messages (calls ++ calls') = messages calls ++ messages calls' :=
  List.filterMap_append

/-- Every request succeeds. -/
def Delivers (env : Env SendCall SendCall.Reply) : Prop :=
  ∀ past post, (env past (.message post)).result = 0

section Runs

variable (splitLen : Bytes → ℕ) (size : ℕ) {post : ℕ → Bytes → Bytes → Post}
  (env : Env SendCall SendCall.Reply)

/-- One round: the chunk is posted as it is read from its buffer. -/
theorem run_sendChunks_succ (post : ℕ → Bytes → Bytes → Post) {content : Bytes}
    (hne : content ≠ []) (fuel num : ℕ) (past : List SendCall) :
    ∃ text past' resp,
      ((content.take (splitLen content)).length < size →
        text = content.take (splitLen content)) ∧
      (size ≤ (content.take (splitLen content)).length →
        text = content.take (splitLen content) ++ env past .overrun) ∧
      (Delivers env → PostResult.result resp = 0) ∧
      messages ((sendChunks splitLen size post (fuel + 1) num content).run env past).1 =
        post num (content.take (splitLen content)) text ::
          messages ((if resp.result = 0 then
            sendChunks splitLen size post fuel (num + 1) (content.drop (splitLen content))
          else pure resp.result : SendProg ℤ).run env past').1 ∧
      ((sendChunks splitLen size post (fuel + 1) num content).run env past).2 =
        ((if resp.result = 0 then
            sendChunks splitLen size post fuel (num + 1) (content.drop (splitLen content))
          else pure resp.result : SendProg ℤ).run env past').2 := by
  rw [sendChunks, if_neg hne]
  dsimp only
  unfold readChunk
  split_ifs with hroom
  · exact ⟨_, _, _, fun _ ↦ rfl, fun h ↦ absurd hroom (not_lt.mpr h), fun h ↦ h _ _, rfl, rfl⟩
  · exact ⟨_, _, _, fun h ↦ absurd h hroom, fun _ ↦ rfl, fun h ↦ h _ _, rfl, rfl⟩

/-- The chunks are posted in order, and the loop ends. -/
theorem run_sendChunks (hpost : ∀ num chunk text, (post num chunk text).num = num ∧
      (post num chunk text).chunk = chunk)
    (henv : Delivers env) (fuel num : ℕ) (content : Bytes) (past : List SendCall) :
    (messages ((sendChunks splitLen size post fuel num content).run env past).1).map Post.chunk =
        splitChunks splitLen fuel content ∧
      (messages ((sendChunks splitLen size post fuel num content).run env past).1).map Post.num =
        List.range' num (splitChunks splitLen fuel content).length ∧
      ((sendChunks splitLen size post fuel num content).run env past).2 = some 0 := by
  induction fuel generalizing num content past with
  | zero => exact ⟨rfl, rfl, rfl⟩
  | succ fuel ih =>
      by_cases hne : content = []
      · subst hne
        exact ⟨rfl, rfl, rfl⟩
      · obtain ⟨text, past', resp, -, -, hresp, hmessages, hvalue⟩ :=
          run_sendChunks_succ splitLen size env post hne fuel num past
        obtain ⟨hchunks, hnums, hend⟩ := ih (num + 1) (content.drop (splitLen content)) past'
        rw [if_pos (hresp henv)] at hmessages hvalue
        obtain ⟨hnum, hchunk⟩ := hpost num (content.take (splitLen content)) text
        rw [hmessages, hvalue, splitChunks_succ hne, List.map_cons, List.map_cons, hchunks, hnums,
          hnum, hchunk, List.length_cons, List.range'_succ]
        exact ⟨rfl, rfl, hend⟩

/-- A chunk that is shorter than its buffer is read as it is. -/
theorem mem_messages_sendChunks (fuel num : ℕ) (content : Bytes) (past : List SendCall) :
    ∀ p ∈ messages ((sendChunks splitLen size post fuel num content).run env past).1,
      ∃ num chunk text, p = post num chunk text ∧ (chunk.length < size → text = chunk) := by
  induction fuel generalizing num content past with
  | zero => exact fun p hp ↦ absurd hp List.not_mem_nil
  | succ fuel ih =>
      by_cases hne : content = []
      · subst hne
        exact fun p hp ↦ absurd hp List.not_mem_nil
      · obtain ⟨text, past', resp, hshort, -, -, hmessages, -⟩ :=
          run_sendChunks_succ splitLen size env post hne fuel num past
        rw [hmessages]
        refine List.forall_mem_cons.mpr ⟨⟨num, _, text, rfl, hshort⟩, fun p hp ↦ ?_⟩
        split_ifs at hp
        · exact ih (num + 1) (content.drop (splitLen content)) past' p hp
        · exact absurd hp List.not_mem_nil

end Runs

/-- The messages carry the whole text in order, each of them a part of it.  A part
that is shorter than the limit is also what its message prints. -/
structure SplitsInto (limit : ℕ) (print : ℕ → Bytes → Post) (content : Bytes)
    (posts : List Post) : Prop where
  length : ∀ post ∈ posts, 1 ≤ post.chunk.length ∧ post.chunk.length ≤ limit
  flatten : (posts.map Post.chunk).flatten = content
  nums : posts.map Post.num = List.range posts.length
  printed : ∀ post ∈ posts, post.chunk.length < limit → post = print post.num post.chunk

theorem sendChunks_splitsInto {splitLen : Bytes → ℕ} {limit : ℕ}
    {post : ℕ → Bytes → Bytes → Post} (hsplit : Splits limit splitLen)
    (hpost : ∀ num chunk text, (post num chunk text).num = num ∧
      (post num chunk text).chunk = chunk)
    {env : Env SendCall SendCall.Reply} (henv : Delivers env) (content : Bytes)
    (past : List SendCall) :
    SplitsInto limit (fun num chunk ↦ post num chunk chunk) content (messages
        ((sendChunks splitLen limit post content.length 0 content).run env past).1) ∧
      ((sendChunks splitLen limit post content.length 0 content).run env past).2 = some 0 := by
  obtain ⟨hchunks, hnums, hend⟩ := run_sendChunks splitLen limit env hpost henv
    content.length 0 content past
  refine ⟨⟨fun post hmem ↦ ?_, ?_, ?_, fun p hp hshort ↦ ?_⟩, hend⟩
  · have hchunk := List.mem_map_of_mem (f := Post.chunk) hmem
    rw [hchunks] at hchunk
    obtain ⟨hpos, hle, -⟩ := length_of_mem_splitChunks hsplit hchunk
    exact ⟨hpos, hle⟩
  · rw [hchunks, flatten_splitChunks hsplit le_rfl]
  · have hlength := congrArg List.length hchunks
    rw [List.length_map] at hlength
    rw [hnums, ← hlength, List.range_eq_range']
  · obtain ⟨num, chunk, text, rfl, htext⟩ :=
      mem_messages_sendChunks splitLen limit env _ _ _ _ p hp
    obtain ⟨hnum, hchunk⟩ := hpost num chunk text
    rw [hchunk] at hshort ⊢
    rw [hnum, htext hshort]

/-! ## The senders -/

section Senders

variable (config : ChannelConfig) (override : Option ChatTarget)

/-- The text that is sent to Telegram. -/
def cleanedContent (content behind : Bytes) : Bytes :=
  CString.cut 8192 (stripToolCalls content behind)

/-- The notices around a program are no messages. -/
theorem run_typing (env : Env SendCall SendCall.Reply) (p : SendProg ℤ)
    (hp : ∀ past, ∃ result, (p.run env past).2 = some result) (url url' : Bytes)
    (headers headers' : List Bytes) (body body' : Bytes) :
    messages ((Prog.perform (SendCall.typing url headers body) >>= fun _ ↦
          p >>= fun result ↦ Prog.perform (SendCall.typing url' headers' body') >>= fun _ ↦
            pure result).run env []).1 =
        messages (p.run env [.typing url headers body]).1 ∧
      ((Prog.perform (SendCall.typing url headers body) >>= fun _ ↦
          p >>= fun result ↦ Prog.perform (SendCall.typing url' headers' body') >>= fun _ ↦
            pure result).run env []).2 = (p.run env [.typing url headers body]).2 := by
  obtain ⟨result, hresult⟩ := hp [.typing url headers body]
  rw [Prog.run_perform_bind, List.nil_append, Prog.run_bind _ _ p _ hresult]
  refine ⟨?_, hresult.symm⟩
  change messages (_ ++ [_]) = _
  rw [messages_append]
  exact List.append_nil _

theorem sendChunks_returns (splitLen : Bytes → ℕ) (size : ℕ) (post : ℕ → Bytes → Bytes → Post)
    (env : Env SendCall SendCall.Reply) (fuel num : ℕ) (content : Bytes) (past : List SendCall) :
    ∃ result, ((sendChunks splitLen size post fuel num content).run env past).2 = some result := by
  induction fuel generalizing num content past with
  | zero => exact ⟨0, rfl⟩
  | succ fuel ih =>
      by_cases hne : content = []
      · subst hne
        exact ⟨0, rfl⟩
      · obtain ⟨text, past', resp, -, -, -, -, hvalue⟩ :=
          run_sendChunks_succ splitLen size env post hne fuel num past
        rw [hvalue]
        split_ifs
        · exact ih _ _ _
        · exact ⟨_, rfl⟩

theorem telegramSendText_returns (env : Env SendCall SendCall.Reply) (target cleaned : Bytes)
    (past : List SendCall) :
    ∃ result, ((telegramSendText config target cleaned).run env past).2 = some result := by
  unfold telegramSendText
  split_ifs
  · unfold telegramSendWhole
    rw [Prog.run_perform_bind]
    split_ifs <;> exact ⟨_, rfl⟩
  · exact sendChunks_returns _ _ _ env _ _ _ past

/-- The calls in front of the first message. -/
def noticeCalls (env : Env SendCall SendCall.Reply) : List SendCall :=
  ((telegramSendTyping config true).run env []).1

theorem run_telegramSendMessageTo (htoken : config.botToken ≠ [])
    (htarget : config.target override ≠ []) (content behind : Bytes)
    (env : Env SendCall SendCall.Reply) :
    messages ((telegramSendMessageTo config override content behind).run env []).1 =
        messages ((telegramSendText config (config.target override)
          (cleanedContent content behind)).run env (noticeCalls config env)).1 ∧
      ((telegramSendMessageTo config override content behind).run env []).2 =
        ((telegramSendText config (config.target override)
          (cleanedContent content behind)).run env (noticeCalls config env)).2 := by
  rw [telegramSendMessageTo, if_neg (not_or.mpr ⟨htoken, htarget⟩)]
  exact run_typing env _ (telegramSendText_returns config env _ _) _ _ _ _ _ _

/-- A text that is not too long is not cut. -/
theorem run_telegramSendWhole {env : Env SendCall SendCall.Reply} (henv : Delivers env)
    (target cleaned : Bytes) (past : List SendCall) :
    ((telegramSendWhole config target cleaned).run env past).2 = some 0 ∧
      messages ((telegramSendWhole config target cleaned).run env past).1 ≠ [] ∧
      ∀ post ∈ messages ((telegramSendWhole config target cleaned).run env past).1,
        ∃ tail, post = telegramPost config target tail 0 cleaned cleaned := by
  unfold telegramSendWhole
  rw [Prog.run_perform_bind]
  split_ifs
  · refine ⟨congrArg some (henv _ _), List.cons_ne_nil _ _, fun post hpost ↦ ?_⟩
    have hmem := List.mem_pair.mp hpost
    rcases hmem with rfl | rfl <;> exact ⟨_, rfl⟩
  · refine ⟨congrArg some (henv _ _), List.cons_ne_nil _ _, fun post hpost ↦ ?_⟩
    have hmem := List.mem_singleton.mp hpost
    exact ⟨_, hmem⟩

/-- What is sent of a text to Telegram when every request succeeds. -/
structure TelegramSplits (target cleaned : Bytes) (run : List SendCall × Option ℤ) : Prop where
  ends : run.2 = some 0
  split : 4096 < cleaned.length → SplitsInto 4096
    (fun num chunk ↦ telegramPost config target (ascii "\"\x7d") num chunk chunk) cleaned
      (messages run.1)
  whole : cleaned.length ≤ 4096 → messages run.1 ≠ [] ∧
    ∀ post ∈ messages run.1, ∃ tail, post = telegramPost config target tail 0 cleaned cleaned

theorem telegramSendText_splits {env : Env SendCall SendCall.Reply} (henv : Delivers env)
    (target cleaned : Bytes) (past : List SendCall) :
    TelegramSplits config target cleaned
      ((telegramSendText config target cleaned).run env past) := by
  unfold telegramSendText
  by_cases hfits : cleaned.length ≤ maxMessageLength
  · rw [if_pos hfits]
    obtain ⟨hend, hsome, hwhole⟩ := run_telegramSendWhole config henv target cleaned past
    exact ⟨hend, fun hlong ↦ absurd hfits (not_le.mpr hlong), fun _ ↦ ⟨hsome, hwhole⟩⟩
  · rw [if_neg hfits]
    have hsplits := sendChunks_splitsInto (fun _ hne ↦ telegramSplitLen_spec hne)
      (fun _ _ _ ↦ ⟨rfl, rfl⟩ : ∀ num chunk text,
        (telegramPost config target (ascii "\"\x7d") num chunk text).num = num ∧
          (telegramPost config target (ascii "\"\x7d") num chunk text).chunk = chunk)
      henv cleaned past
    exact ⟨hsplits.2, fun _ ↦ hsplits.1, fun hshort ↦ absurd hshort hfits⟩

/-- The three senders lose nothing of a text when every request succeeds. -/
theorem splitting_loses_nothing (content behind : Bytes) (env : Env SendCall SendCall.Reply)
    (henv : Delivers env) :
    (config.botToken ≠ [] → config.target override ≠ [] →
      TelegramSplits config (config.target override) (cleanedContent content behind)
        ((telegramSendMessageTo config override content behind).run env [])) ∧
      (config.webhookUrl ≠ [] →
        SplitsInto 2000 (fun num chunk ↦ discordPost config num chunk chunk) content
            (messages ((discordSendMessage config content).run env []).1) ∧
          ((discordSendMessage config content).run env []).2 = some 0) ∧
      (config.botToken ≠ [] → config.target override ≠ [] →
        SplitsInto 3000
            (fun num chunk ↦ slackPost config (config.target override) num chunk chunk) content
            (messages ((slackSendMessageTo config override content).run env []).1) ∧
          ((slackSendMessageTo config override content).run env []).2 = some 0) := by
  refine ⟨fun htoken htarget ↦ ?_, fun hurl ↦ ?_, fun htoken htarget ↦ ?_⟩
  · obtain ⟨hmessages, hend⟩ :=
      run_telegramSendMessageTo config override htoken htarget content behind env
    have htext := telegramSendText_splits config henv (config.target override)
      (cleanedContent content behind) (noticeCalls config env)
    refine ⟨hend.trans htext.ends, fun hlong ↦ ?_, fun hshort ↦ ?_⟩
    · rw [hmessages]
      exact htext.split hlong
    · rw [hmessages]
      exact htext.whole hshort
  · rw [discordSendMessage, if_neg hurl]
    exact sendChunks_splitsInto (fun _ hne ↦ splitLen_spec (by decide) hne)
      (fun _ _ _ ↦ ⟨rfl, rfl⟩) henv content []
  · rw [slackSendMessageTo, if_neg (not_or.mpr ⟨htoken, htarget⟩)]
    unfold slackSendTyping
    rw [Prog.run_perform_bind]
    exact sendChunks_splitsInto (fun _ hne ↦ splitLen_spec (by decide) hne)
      (fun _ _ _ ↦ ⟨rfl, rfl⟩) henv content _

end Senders

/-- Every request succeeds, and a newline stands behind every buffer. -/
def okReplies : Env SendCall SendCall.Reply := fun _ c ↦
  match c with
  | .typing _ _ _ => ⟨0, none⟩
  | .message _ => ⟨0, none⟩
  | .overrun => ([10] : Bytes)

theorem delivers_okReplies : Delivers okReplies := fun _ _ ↦ rfl

theorem splitting_loses_nothing_hello :
    Delivers okReplies ∧ exampleChannel.webhookUrl ≠ [] ∧
      SplitsInto 2000 (fun num chunk ↦ discordPost exampleChannel num chunk chunk)
        (ascii "hello world")
        (messages ((discordSendMessage exampleChannel (ascii "hello world")).run okReplies []).1) :=
  ⟨delivers_okReplies, by decide,
    ((splitting_loses_nothing exampleChannel (some exampleTarget) (ascii "hello world") []
      okReplies delivers_okReplies).2.1 (by decide)).1⟩

/-! ## Room for the terminator -/

/-- A space or a newline. -/
def BlankAt (s : Bytes) (i : ℕ) : Prop := s[i]? = some 32 ∨ s[i]? = some 10

/-- The last blank among the first `n` bytes is the one in front of `k`. -/
structure LastBlankAt (s : Bytes) (n k : ℕ) : Prop where
  pos : 0 < k
  le : k ≤ n
  blank : BlankAt s (k - 1)
  behind : ∀ i, k ≤ i → i < n → ¬ BlankAt s i

/-- The text divides into pieces that are shorter than the limit.  Each piece is
cut from a text of at least `long` bytes and ends with the last blank among the
first `limit` bytes, and the last piece is shorter than the limit. -/
inductive Roomy (limit long : ℕ) : Bytes → Prop
  | short {s} : s.length < limit → Roomy limit long s
  | piece {s k} : long ≤ s.length → LastBlankAt s limit k → k < limit →
      Roomy limit long (s.drop k) → Roomy limit long s

/-- The chunks are cut like this from texts of at least `limit` bytes. -/
structure CutsAtBlanks (limit long : ℕ) (splitLen : Bytes → ℕ) : Prop where
  splits : Splits limit splitLen
  window : ∀ s, long ≤ s.length →
    splitLen s = if lastBlank s limit = 0 then limit else lastBlank s limit
  whole : ∀ s, limit ≤ s.length → s.length < long → splitLen s = limit

theorem lastBlankAt_lastBlank {s : Bytes} {n : ℕ} (h : lastBlank s n ≠ 0) :
    LastBlankAt s n (lastBlank s n) := by
  induction n with
  | zero => exact absurd rfl h
  | succ n ih =>
      rw [lastBlank] at h ⊢
      split_ifs at h ⊢ with hblank
      · exact ⟨Nat.succ_pos n, le_rfl, hblank, fun i hi hin ↦ by omega⟩
      · obtain ⟨hpos, hle, hat, hbehind⟩ := ih h
        refine ⟨hpos, Nat.le_succ_of_le hle, hat, fun i hi hin ↦ ?_⟩
        rcases Nat.lt_succ_iff_lt_or_eq.mp hin with hin | rfl
        · exact hbehind i hi hin
        · exact hblank

theorem LastBlankAt.unique {s : Bytes} {n k k' : ℕ} (h : LastBlankAt s n k)
    (h' : LastBlankAt s n k') : k = k' := by
  have hpos := h.pos
  have hpos' := h'.pos
  have hle := h.le
  have hle' := h'.le
  rcases Nat.lt_trichotomy k k' with hlt | rfl | hlt
  · exact absurd h'.blank (h.behind (k' - 1) (by omega) (by omega))
  · rfl
  · exact absurd h.blank (h'.behind (k - 1) (by omega) (by omega))

theorem LastBlankAt.lastBlank_eq {s : Bytes} {n k : ℕ} (h : LastBlankAt s n k) :
    lastBlank s n = k := by
  have hne : lastBlank s n ≠ 0 := by
    intro hzero
    obtain ⟨hspace, hnewline⟩ := lastBlank_eq_zero_iff.mp hzero (k - 1) (by
      have hpos := h.pos
      have hle := h.le
      omega)
    exact h.blank.elim hspace hnewline
  exact (lastBlankAt_lastBlank hne).unique h

section Room

variable {limit long : ℕ} {splitLen : Bytes → ℕ}

theorem CutsAtBlanks.limit_pos (h : CutsAtBlanks limit long splitLen) : 0 < limit := by
  obtain ⟨hpos, -, hle⟩ := h.splits [0] (List.cons_ne_nil _ _)
  omega

/-- All chunks leave room for their terminators exactly when the text divides
into such pieces. -/
theorem CutsAtBlanks.roomy_iff (h : CutsAtBlanks limit long splitLen) {fuel : ℕ} {content : Bytes}
    (hfuel : content.length ≤ fuel) :
    (∀ chunk ∈ splitChunks splitLen fuel content, chunk.length < limit) ↔
      Roomy limit long content := by
  have hlimit := h.limit_pos
  induction fuel generalizing content with
  | zero => exact iff_of_true (fun chunk hchunk ↦ nomatch hchunk) (.short (by omega))
  | succ fuel ih =>
      by_cases hshort : content.length < limit
      · refine iff_of_true (fun chunk hchunk ↦ ?_) (.short hshort)
        exact (length_of_mem_splitChunks h.splits hchunk).2.2.trans_lt hshort
      have hne : content ≠ [] := by
        rintro rfl
        exact hshort hlimit
      obtain ⟨hpos, hle, -⟩ := h.splits content hne
      have hrest : (content.drop (splitLen content)).length ≤ fuel := by
        rw [List.length_drop]
        omega
      rw [splitChunks_succ hne, List.forall_mem_cons, List.length_take, min_eq_left hle]
      refine (and_congr_right fun _ ↦ ih hrest).trans ?_
      by_cases hlong : long ≤ content.length
      · rw [h.window content hlong]
        split_ifs with hnone
        · -- the window has no blank
          refine iff_of_false (fun hfull ↦ lt_irrefl _ hfull.1) fun hroomy ↦ ?_
          cases hroomy with
          | short hlt => exact hshort hlt
          | piece _ hblank _ _ =>
              have hpos := hblank.pos
              rw [hblank.lastBlank_eq] at hnone
              omega
        · constructor
          · rintro ⟨hlt, hroomy⟩
            exact .piece hlong (lastBlankAt_lastBlank hnone) hlt hroomy
          · intro hroomy
            cases hroomy with
            | short hlt => exact absurd hlt hshort
            | piece _ hblank hlt hroomy =>
                rw [hblank.lastBlank_eq]
                exact ⟨hlt, hroomy⟩
      · rw [h.whole content (not_lt.mp hshort) (not_le.mp hlong)]
        refine iff_of_false (fun hfull ↦ lt_irrefl _ hfull.1) fun hroomy ↦ ?_
        cases hroomy with
        | short hlt => exact hshort hlt
        | piece hle _ _ _ => exact hlong hle

theorem splitLen_cutsAtBlanks (hlimit : 0 < limit) :
    CutsAtBlanks limit limit (DoctorClaw.splitLen limit) where
  splits _ hne := splitLen_spec hlimit hne
  window s hlen := by
    have hwhole : (if limit < s.length then limit else s.length) = limit := by
      split_ifs <;> omega
    unfold DoctorClaw.splitLen
    rw [hwhole]
  whole s hlen hlong := absurd hlen (not_le.mpr hlong)

theorem telegramSplitLen_cutsAtBlanks :
    CutsAtBlanks maxMessageLength (maxMessageLength + 1) telegramSplitLen where
  splits _ hne := telegramSplitLen_spec hne
  window s hlen := by
    unfold telegramSplitLen
    rw [if_pos (Nat.lt_of_succ_le hlen)]
  whole s hlen hlong := by
    unfold telegramSplitLen
    rw [if_neg (by omega)]
    omega

end Room

/-- Every call but a store behind a buffer. -/
def SendCall.Inside : SendCall → Prop
  | .overrun => False
  | _ => True

/-- Whatever the environment replies, no terminator is stored behind a buffer. -/
def StaysInBuffers (p : SendProg ℤ) : Prop :=
  ∀ env : Env SendCall SendCall.Reply, ∀ c ∈ (p.run env []).1, c ≠ .overrun

theorem staysInBuffers_iff {p : SendProg ℤ} :
    StaysInBuffers p ↔ p.Follows (fun _ ↦ SendCall.Inside) [] := by
  rw [follows_iff_run]
  constructor
  · intro h env pre c post hrun
    have hne := h env c (by simp [hrun])
    cases c with
    | typing url headers body => trivial
    | message post => trivial
    | overrun => exact hne rfl
  · intro h env c hmem hover
    obtain ⟨pre, rest, hrun⟩ := List.append_of_mem hmem
    have hinside := h env pre c rest hrun
    rwa [hover] at hinside

/-- The loop stays inside its buffer exactly when its chunks are shorter. -/
theorem sendChunks_inside_iff {splitLen : Bytes → ℕ} {size : ℕ}
    {post : ℕ → Bytes → Bytes → Post} (fuel num : ℕ) (content : Bytes) (past : List SendCall) :
    (sendChunks splitLen size post fuel num content).Follows (fun _ ↦ SendCall.Inside) past ↔
      ∀ chunk ∈ splitChunks splitLen fuel content, chunk.length < size := by
  induction fuel generalizing num content past with
  | zero => exact iff_of_true trivial fun chunk hchunk ↦ nomatch hchunk
  | succ fuel ih =>
      by_cases hne : content = []
      · subst hne
        exact iff_of_true trivial fun chunk hchunk ↦ nomatch hchunk
      · rw [sendChunks, if_neg hne, splitChunks_succ hne, List.forall_mem_cons]
        dsimp only
        unfold readChunk
        split_ifs with hroom
        · rw [and_iff_right hroom]
          constructor
          · intro h
            have hnext := (follows_perform_iff.mp h).2 ⟨0, none⟩
            rw [if_pos rfl] at hnext
            exact (ih _ _ _).mp hnext
          · intro h
            exact follows_perform trivial fun resp ↦
              follows_ite (fun _ ↦ (ih _ _ _).mpr h) fun _ ↦ trivial
        · exact iff_of_false (fun h ↦ h.1) fun h ↦ hroom h.1

section Inside

variable (config : ChannelConfig) (override : Option ChatTarget)

theorem telegram_staysInBuffers_iff (htoken : config.botToken ≠ [])
    (htarget : config.target override ≠ []) (content behind : Bytes) :
    StaysInBuffers (telegramSendMessageTo config override content behind) ↔
      (cleanedContent content behind).length ≤ 4096 ∨
        Roomy 4096 4097 (cleanedContent content behind) := by
  rw [staysInBuffers_iff, telegramSendMessageTo, if_neg (not_or.mpr ⟨htoken, htarget⟩)]
  refine (follows_typing_iff config (fun _ _ _ ↦ trivial) _).trans ?_
  change (telegramSendText config _ (cleanedContent content behind)).Follows _ _ ↔ _
  unfold telegramSendText
  split_ifs with hfits
  · refine iff_of_true ?_ (.inl hfits)
    exact follows_perform trivial fun resp ↦
      follows_ite (fun _ ↦ follows_perform trivial fun _ ↦ trivial) fun _ ↦ trivial
  · have hlong : ¬ (cleanedContent content behind).length ≤ 4096 := hfits
    rw [or_iff_right hlong, sendChunks_inside_iff]
    exact telegramSplitLen_cutsAtBlanks.roomy_iff le_rfl

theorem discord_staysInBuffers_iff (hurl : config.webhookUrl ≠ []) (content : Bytes) :
    StaysInBuffers (discordSendMessage config content) ↔ Roomy 2000 2000 content := by
  rw [staysInBuffers_iff, discordSendMessage, if_neg hurl, sendChunks_inside_iff]
  exact (splitLen_cutsAtBlanks (by decide)).roomy_iff le_rfl

theorem slack_staysInBuffers_iff (htoken : config.botToken ≠ [])
    (htarget : config.target override ≠ []) (content : Bytes) :
    StaysInBuffers (slackSendMessageTo config override content) ↔ Roomy 3000 3000 content := by
  have hroomy : (∀ chunk ∈ splitChunks (splitLen 3000) content.length content,
      chunk.length < 3000) ↔ Roomy 3000 3000 content :=
    (splitLen_cutsAtBlanks (by decide)).roomy_iff le_rfl
  rw [staysInBuffers_iff, slackSendMessageTo, if_neg (not_or.mpr ⟨htoken, htarget⟩), ← hroomy]
  constructor
  · exact fun h ↦ (sendChunks_inside_iff _ _ _ _).mp ((follows_perform_iff.mp h).2 ⟨0, none⟩)
  · exact fun h ↦ follows_perform trivial fun _ ↦ (sendChunks_inside_iff _ _ _ _).mpr h

/-- The terminators of all chunks are stored inside the buffers exactly when the
text divides into pieces that are shorter than the buffer. -/
theorem chunk_buffers_suffice_iff (content behind : Bytes) (htoken : config.botToken ≠ [])
    (hurl : config.webhookUrl ≠ []) (htarget : config.target override ≠ []) :
    (StaysInBuffers (telegramSendMessageTo config override content behind) ↔
      (cleanedContent content behind).length ≤ 4096 ∨
        Roomy 4096 4097 (cleanedContent content behind)) ∧
    (StaysInBuffers (discordSendMessage config content) ↔ Roomy 2000 2000 content) ∧
    (StaysInBuffers (slackSendMessageTo config override content) ↔ Roomy 3000 3000 content) :=
  ⟨telegram_staysInBuffers_iff config override htoken htarget content behind,
    discord_staysInBuffers_iff config hurl content,
    slack_staysInBuffers_iff config override htoken htarget content⟩

end Inside

theorem chunk_buffers_suffice_hello :
    (exampleChannel.botToken ≠ [] ∧ exampleChannel.webhookUrl ≠ [] ∧
        exampleChannel.target (some exampleTarget) ≠ []) ∧
      (StaysInBuffers (discordSendMessage exampleChannel (ascii "hello world")) ↔
        Roomy 2000 2000 (ascii "hello world")) :=
  ⟨⟨by decide, by decide, by decide⟩,
    (chunk_buffers_suffice_iff exampleChannel (some exampleTarget) (ascii "hello world") []
      (by decide) (by decide) (by decide)).2.1⟩

/-- A text without blanks does not leave room when it fills the buffer. -/
theorem not_roomy_of_no_blank {limit long : ℕ} {s : Bytes} (hlen : limit ≤ s.length)
    (h : ∀ i, ¬ BlankAt s i) : ¬ Roomy limit long s := by
  intro hroomy
  cases hroomy with
  | short hlt => exact absurd hlen (not_le.mpr hlt)
  | piece _ hblank _ _ => exact h _ hblank.blank

/-- A word of 2000 bytes for Discord and one of 3000 bytes for Slack. -/
theorem full_chunk_overruns :
    ¬ StaysInBuffers (discordSendMessage exampleChannel (List.replicate 2000 97)) ∧
      ¬ StaysInBuffers (slackSendMessageTo exampleChannel (some exampleTarget)
        (List.replicate 3000 97)) := by
  have hblank : ∀ n i, ¬ BlankAt (List.replicate n 97) i := by
    rintro n i (h | h) <;>
      exact absurd (List.eq_of_mem_replicate (List.mem_of_getElem? h)) (by decide)
  rw [discord_staysInBuffers_iff _ (by decide),
    slack_staysInBuffers_iff _ _ (by decide) (by decide)]
  exact ⟨not_roomy_of_no_blank List.length_replicate.ge (hblank 2000),
    not_roomy_of_no_blank List.length_replicate.ge (hblank 3000)⟩

end DoctorClaw
