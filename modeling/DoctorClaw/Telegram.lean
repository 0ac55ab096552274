import DoctorClaw.JobWorker

/-!
# Telegram polling

`telegram_poll_thread_fn` asks the server for the updates from `offset` on,
enqueues the text of the first message in the answer and moves `offset` to one
past the largest `update_id` it found.  The scan for that number steps 11
bytes over a key of 12, so `atol` starts at the colon and reads zero: whatever
the answer holds, the largest number found is the old offset.  Each delivering
round therefore moves the offset by one only, and the server sends the same
update again.

One channel is modelled, with `malloc` and the push succeeding.
-/

namespace DoctorClaw

open Transition

/-! ## The server -/

/-- A message with a text.  In front of the text stand other members, such as the
sender, the chat and the date, none of which is named `text`; the rest of the
message stands behind it. -/
structure Update where
  updateId : ℕ
  front : Bytes
  text : Bytes
  behind : Bytes
  updateId_pos : 0 < updateId
  front_ok : ¬ ascii "\"text\":\"" <:+: front
  text_ne : text ≠ []

def hexDigit (n : ℕ) : UInt8 := UInt8.ofNat (if n < 10 then 48 + n else 87 + n)

def jsonEscapeByte (c : UInt8) : Bytes :=
  if c = 34 ∨ c = 92 then [92, c]
  else if c = 10 then [92, 110]
  else if c < 32 then [92, 117, 48, 48, hexDigit (c.toNat / 16), hexDigit (c.toNat % 16)]
  else [c]

def jsonEscapeText (s : Bytes) : Bytes := s.flatMap jsonEscapeByte

def Update.render (u : Update) : Bytes :=
  ascii "\x7b\"update_id\":" ++ (Decimal.printNat u.updateId ++
    (ascii ",\"message\":\x7b" ++ (u.front ++ (ascii ",\"text\":\"" ++
      (jsonEscapeText u.text ++ (ascii "\"" ++ (u.behind ++ ascii "\x7d\x7d")))))))

def renderUpdates (us : List Update) : Bytes :=
  ascii "\x7b\"ok\":true,\"result\":" ++
    ([91] ++ ((us.map Update.render).intersperse [44]).flatten ++ ascii "]\x7d")

/-! ## The listener -/

def updateIdKey : Bytes := ascii "\"update_id\":"

/-- The loop over the keys, from the pointer `p` on. -/
def lastUpdateId : ℕ → Bytes → ℤ → ℤ
  | 0, _, last => last
  | fuel + 1, p, last =>
    match CString.strstr updateIdKey p with
    | none => last
    | some q => lastUpdateId fuel (q.drop 12) (max last (Decimal.atol (q.drop 11)))

/-- The loop that copies a text into `buf`, from index `i` on.  A backslash
moves the index without a write. -/
def copyText (limit : ℕ) : ℕ → Bytes → Bytes → Bytes
  | i, [], buf => buf.set i 0
  | i, c :: src, buf =>
    if c = 34 ∨ limit ≤ i then buf.set i 0
    else if c = 92 then
      match src with
      | [] => (buf.set (i + 1) 0).set (i + 2) 0
      | d :: src => copyText limit (i + 2) src (buf.set (i + 1) d)
    else copyText limit (i + 1) src (buf.set i c)

def telegramTextSize : ℕ := 4096

def telegramChatIdSize : ℕ := 128

def parseTelegramChatId (body : Bytes) : Bytes :=
  let found := match CString.strstr (ascii "\"chat\":\x7b\"id\":") body with
    | some p => some p
    | none => CString.strstr (ascii "\"id\":") body
  match found.bind (CString.strchr 58) with
  | none => []
  | some p =>
    match p.tail.dropWhile (· == 32) with
    | 34 :: p => CString.cut telegramChatIdSize (p.takeWhile (· != 34))
    | p => CString.cut telegramChatIdSize (p.takeWhile fun c ↦ c == 45 || Decimal.isDigit c)

def findMessageText (data : Bytes) : Option Bytes :=
  (CString.strstr (ascii "\"result\":") data).bind fun p ↦
    (CString.strchr 91 p).bind fun p ↦
      (CString.strstr (ascii "\"message\":") p).bind fun msg ↦
        (CString.strstr (ascii "\"text\":\"") msg).map fun start ↦ start.drop 8

structure PollState where
  offset : ℤ
  text : Bytes
  chatId : Bytes

/-- The state after a fetch, with the last update id it reports; `none` is a
failed request or an answer without a message. -/
def telegramFetchUpdates (s : PollState) (data : Option Bytes) : Option (PollState × ℤ) :=
  data.bind fun data ↦
    (findMessageText data).map fun start ↦
      ({ s with
          text := copyText (telegramTextSize - 1) 0 start s.text
          chatId := parseTelegramChatId data },
        lastUpdateId (data.length + 1) data s.offset)

/-- One round of the loop, with the job it pushes. -/
def telegramPoll (s : PollState) (data : Option Bytes) (ctx : ℕ) : PollState × Option Job :=
  match telegramFetchUpdates s data with
  | none => (s, none)
  | some (s, lastId) =>
      let text := CString.ofBuffer s.text
      ({ s with offset := lastId + 1 },
        if text = [] then none
        else some (Job.make .agentChat text (some .channelAgentResponseCb) ctx))

/-! ## One round -/

/-- The scan reads zero for every update it finds. -/
theorem lastUpdateId_eq {last : ℤ} (h : 0 ≤ last) (fuel : ℕ) (p : Bytes) :
    lastUpdateId fuel p last = last := by
  induction fuel generalizing p with
  | zero => rfl
  | succ fuel ih =>
      rw [lastUpdateId]
      split
      · rfl
      · rename_i q hq
        obtain ⟨⟨rest, rfl⟩, -⟩ := CString.strstr_eq_some hq
        have hzero : Decimal.atol ((updateIdKey ++ rest).drop 11) = 0 := rfl
        rw [hzero, max_eq_left h, ih]

theorem length_copyText (limit i : ℕ) (src buf : Bytes) :
    (copyText limit i src buf).length = buf.length := by
  fun_induction copyText limit i src buf <;> simp_all

theorem copyText_quote (limit i : ℕ) (rest buf : Bytes) :
    copyText limit i (34 :: rest) buf = buf.set i 0 := by
  cases rest <;> simp [copyText]

theorem copyText_cons {limit i : ℕ} {c : UInt8} (hquote : c ≠ 34) (hslash : c ≠ 92)
    (hlimit : i < limit) (src buf : Bytes) :
    copyText limit i (c :: src) buf = copyText limit (i + 1) src (buf.set i c) := by
  have hnot : ¬ limit ≤ i := by omega
  cases src <;> simp [copyText, hquote, hslash, hnot]

theorem copyText_plain {limit i : ℕ} {text buf : Bytes}
    (hplain : ∀ c ∈ text, c ≠ 34 ∧ c ≠ 92) (hlimit : i + text.length ≤ limit)
    (hbuf : i + text.length < buf.length) (rest : Bytes) :
    ∃ tail, copyText limit i (text ++ 34 :: rest) buf = buf.take i ++ (text ++ 0 :: tail) := by
  induction text generalizing i buf with
  | nil =>
      refine ⟨buf.drop (i + 1), ?_⟩
      rw [List.nil_append, copyText_quote, List.set_eq_take_append_cons_drop,
        if_pos (by simpa using hbuf), List.nil_append]
  | cons c text ih =>
      obtain ⟨hquote, hslash⟩ := hplain c List.mem_cons_self
      rw [List.length_cons] at hlimit hbuf
      have hset : i + 1 + text.length < (buf.set i c).length := by
        rw [List.length_set]
        omega
      obtain ⟨tail, htail⟩ := ih (fun d hd ↦ hplain d (List.mem_cons_of_mem _ hd))
        (show i + 1 + text.length ≤ limit by omega) hset
      refine ⟨tail, ?_⟩
      rw [List.cons_append, copyText_cons hquote hslash (by omega), htail, List.take_add_one,
        List.take_set_of_le le_rfl, List.getElem?_set_self (by omega)]
      simp

theorem findMessageText_nil : findMessageText (renderUpdates []) = none := by decide +kernel

/-! The four searches, each past what cannot start a match. -/

theorem strstr_result (s : Bytes) : CString.strstr (ascii "\"result\":")
    (ascii "\x7b\"ok\":true,\"result\":" ++ s) = some (ascii "\"result\":" ++ s) := by
  rw [show ascii "\x7b\"ok\":true,\"result\":" = ascii "\x7b\"ok\":true," ++ ascii "\"result\":"
    from rfl, List.append_assoc, CString.strstr_of_skips (by decide),
    CString.strstr_of_isPrefix (List.prefix_append _ _)]

theorem strchr_result (s : Bytes) :
    CString.strchr 91 (ascii "\"result\":" ++ 91 :: s) = some (91 :: s) :=
  CString.strchr_append (by decide) s

theorem strstr_message (n : ℕ) (s : Bytes) : CString.strstr (ascii "\"message\":")
    (ascii "[\x7b\"update_id\":" ++ (Decimal.printNat n ++ (ascii ",\"message\":\x7b" ++ s))) =
    some (ascii "\"message\":\x7b" ++ s) := by
  rw [CString.strstr_of_skips (by decide),
    CString.strstr_append_of_notMem (c := 34) rfl (Decimal.notMem_printNat rfl n),
    show ascii ",\"message\":\x7b" = ascii "," ++ ascii "\"message\":\x7b" from rfl,
    List.append_assoc, CString.strstr_of_skips (by decide), CString.strstr_of_isPrefix]
  exact ⟨ascii "\x7b" ++ s, rfl⟩

theorem strstr_text {front : Bytes} (hfront : ¬ ascii "\"text\":\"" <:+: front) (s : Bytes) :
    CString.strstr (ascii "\"text\":\"")
      (ascii "\"message\":\x7b" ++ (front ++ (ascii ",\"text\":\"" ++ s))) =
    some (ascii "\"text\":\"" ++ s) := by
  have hmessage : ascii "\"message\":\x7b" ++ (front ++ (ascii ",\"text\":\"" ++ s)) =
      ascii "\"message\":" ++ 123 :: (front ++ 44 :: (ascii "\"text\":\"" ++ s)) := rfl
  rw [hmessage, CString.strstr_append_cons (by decide) (by decide),
    CString.strstr_append_cons (by decide) (by decide), CString.strstr_eq_none hfront,
    CString.strstr_eq_none (by decide), CString.strstr_of_isPrefix (List.prefix_append _ _)]
  rfl

theorem findMessageText_cons (u : Update) (us : List Update) :
    ∃ rest, findMessageText (renderUpdates (u :: us)) =
      some (jsonEscapeText u.text ++ 34 :: rest) := by
  obtain ⟨more, hmore⟩ : ∃ more, (((u :: us).map Update.render).intersperse [44]).flatten =
      u.render ++ more := by
    cases us with
    | nil => exact ⟨[], by simp⟩
    | cons v us => exact ⟨_, by simp; rfl⟩
  refine ⟨u.behind ++ (ascii "\x7d\x7d" ++ (more ++ ascii "]\x7d")), ?_⟩
  have hopen : ([91] : Bytes) ++ (u.render ++ more) ++ ascii "]\x7d" =
      ascii "[\x7b\"update_id\":" ++ (Decimal.printNat u.updateId ++
        (ascii ",\"message\":\x7b" ++ (u.front ++ (ascii ",\"text\":\"" ++
          (jsonEscapeText u.text ++
            34 :: (u.behind ++ (ascii "\x7d\x7d" ++ (more ++ ascii "]\x7d")))))))) := by
    simp only [Update.render, List.append_assoc]
    rfl
  obtain ⟨body, hbody⟩ : ∃ body,
      ([91] : Bytes) ++ (u.render ++ more) ++ ascii "]\x7d" = 91 :: body := ⟨_, rfl⟩
  rw [findMessageText, renderUpdates, hmore, strstr_result, Option.bind_some, hbody, strchr_result,
    Option.bind_some, ← hbody, hopen, strstr_message, Option.bind_some, strstr_text u.front_ok,
    Option.map_some]
  rfl

/-- A text that JSON leaves as it is and that fits the buffer of the listener. -/
structure Update.Plain (u : Update) : Prop where
  length_lt : u.text.length < telegramTextSize
  printable : ∀ c ∈ u.text, 32 ≤ c ∧ c ≠ 34 ∧ c ≠ 92

theorem Update.Plain.escape {u : Update} (h : u.Plain) : jsonEscapeText u.text = u.text := by
  have hbyte : ∀ c ∈ u.text, jsonEscapeByte c = [c] := by
    intro c hc
    obtain ⟨hlow, hquote, hslash⟩ := h.printable c hc
    have hten : c ≠ 10 := by
      rintro rfl
      revert hlow
      decide
    simp [jsonEscapeByte, hquote, hslash, hten, UInt8.not_lt.mpr hlow]
  rw [jsonEscapeText, List.flatMap_congr hbyte]
  simp

theorem Update.Plain.zero_notMem {u : Update} (h : u.Plain) : (0 : UInt8) ∉ u.text := by
  intro h0
  have hlow := (h.printable 0 h0).1
  revert hlow
  decide

theorem telegramPoll_pending {s : PollState} {u : Update} (us : List Update) (hplain : u.Plain)
    (hoffset : 0 ≤ s.offset) (hbuf : s.text.length = telegramTextSize) (ctx : ℕ) :
    ∃ s' job, telegramPoll s (some (renderUpdates (u :: us))) ctx = (s', some job) ∧
      s'.offset = s.offset + 1 ∧ s'.text.length = telegramTextSize ∧ job.text = u.text := by
  obtain ⟨rest, hfind⟩ := findMessageText_cons u us
  rw [hplain.escape] at hfind
  have hlen := hplain.length_lt
  obtain ⟨tail, hcopy⟩ := copyText_plain (fun c hc ↦ (hplain.printable c hc).2)
    (show 0 + u.text.length ≤ telegramTextSize - 1 by omega)
    (show 0 + u.text.length < s.text.length by omega) rest
  have htext : CString.ofBuffer (copyText (telegramTextSize - 1) 0 (u.text ++ 34 :: rest) s.text) =
      u.text := by
    rw [hcopy, List.take_zero, List.nil_append, CString.ofBuffer_append_zero hplain.zero_notMem]
  refine ⟨⟨s.offset + 1, copyText (telegramTextSize - 1) 0 (u.text ++ 34 :: rest) s.text,
    parseTelegramChatId (renderUpdates (u :: us))⟩, _, ?_, rfl, ?_, Job.text_make hplain.zero_notMem
    (hlen.trans (by decide)) .agentChat (some .channelAgentResponseCb) ctx⟩
  · simp only [telegramPoll, telegramFetchUpdates, Option.bind_some, hfind, Option.map_some, htext,
      if_neg u.text_ne, lastUpdateId_eq hoffset]
  · rw [length_copyText, hbuf]

theorem telegramPoll_empty (s : PollState) (ctx : ℕ) :
    telegramPoll s (some (renderUpdates [])) ctx = (s, none) := by
  simp [telegramPoll, telegramFetchUpdates, findMessageText_nil]

/-! ## Every run -/

/-- The log pairs each enqueued job with the update at the head of the answer. -/
structure TelegramSys where
  server : List Update
  poll : PollState
  log : List (Option Update × Job)

def TelegramSys.start (text chatId : Bytes) : TelegramSys := ⟨[], ⟨0, text, chatId⟩, []⟩

def TelegramSys.pending (s : TelegramSys) : List Update :=
  s.server.filter fun u ↦ decide (s.poll.offset ≤ u.updateId)

inductive TelegramEvent
  | arrive (u : Update)
  | poll (ctx : ℕ)
  | pollFailed (ctx : ℕ)

def TelegramSys.round (s : TelegramSys) (data : Option Bytes) (ctx : ℕ) : TelegramSys :=
  { s with
    poll := (telegramPoll s.poll data ctx).1
    log := s.log ++ ((telegramPoll s.poll data ctx).2.map fun job ↦ (s.pending.head?, job)).toList }

inductive TelegramStep : TelegramSys → TelegramEvent → TelegramSys → Prop
  | arrive {s : TelegramSys} (u : Update) (hnew : ∀ v ∈ s.server, v.updateId < u.updateId) :
      TelegramStep s (.arrive u) { s with server := s.server ++ [u] }
  | poll {s : TelegramSys} (ctx : ℕ) :
      TelegramStep s (.poll ctx) (s.round (some (renderUpdates s.pending)) ctx)
  | pollFailed {s : TelegramSys} (ctx : ℕ) : TelegramStep s (.pollFailed ctx) (s.round none ctx)

/-- No update is enqueued twice, each with its own text, and every update
below the offset is enqueued. -/
structure ExactlyOnce (s : TelegramSys) : Prop where
  nodup : (s.log.map Prod.fst).Nodup
  text : ∀ e ∈ s.log, ∃ u ∈ s.server, e.1 = some u ∧ e.2.text = u.text
  passed : ∀ u ∈ s.server, (u.updateId : ℤ) < s.poll.offset → ∃ e ∈ s.log, e.1 = some u

/-- A round finds nothing pending, or nothing has been enqueued before it. -/
def FirstDelivery (s : TelegramSys) : TelegramEvent → Prop
  | .poll _ => s.pending = [] ∨ s.log = []
  | _ => True

def DeliverOnceStep (s : TelegramSys) (ev : TelegramEvent) (s' : TelegramSys) : Prop :=
  TelegramStep s ev s' ∧ FirstDelivery s ev

/-- The offset counts the deliveries, and the first two of them are of the
oldest update. -/
structure TelegramInv (evs : List TelegramEvent) (s : TelegramSys) : Prop where
  arrived : ∀ u ∈ s.server, .arrive u ∈ evs
  buffer : s.poll.text.length = telegramTextSize
  offset : s.poll.offset = s.log.length
  logged : ∀ e ∈ s.log, ∃ u ∈ s.server, e.1 = some u ∧ e.2.text = u.text
  oldest : ∀ e ∈ s.log.take 2, e.1 = s.server.head?

section Runs

variable {evs : List TelegramEvent} {s s' : TelegramSys} {ev : TelegramEvent}

theorem TelegramInv.arrive (h : TelegramInv evs s) (u : Update) :
    TelegramInv (evs ++ [.arrive u]) { s with server := s.server ++ [u] } := by
  refine ⟨?_, h.buffer, h.offset, ?_, ?_⟩
  · intro v hv
    rcases List.mem_append.mp hv with hv | hv
    · exact List.mem_append_left _ (h.arrived v hv)
    · rw [List.mem_singleton.mp hv]
      exact List.mem_append_right _ (List.mem_singleton_self _)
  · intro e he
    obtain ⟨v, hv, heq⟩ := h.logged e he
    exact ⟨v, List.mem_append_left _ hv, heq⟩
  · intro e he
    obtain ⟨v, hv, -⟩ := h.logged e (List.mem_of_mem_take he)
    rw [h.oldest e he, List.head?_append_of_ne_nil _ (List.ne_nil_of_mem hv)]

theorem TelegramInv.idle (h : TelegramInv evs s) (hserver : s'.server = s.server)
    (hpoll : s'.poll = s.poll) (hlog : s'.log = s.log) (ev : TelegramEvent) :
    TelegramInv (evs ++ [ev]) s' := by
  refine ⟨?_, ?_, ?_, ?_, ?_⟩
  · rw [hserver]
    exact fun u hu ↦ List.mem_append_left _ (h.arrived u hu)
  · rw [hpoll]
    exact h.buffer
  · rw [hpoll, hlog]
    exact h.offset
  · rw [hserver, hlog]
    exact h.logged
  · rw [hserver, hlog]
    exact h.oldest

theorem round_none (s : TelegramSys) (ctx : ℕ) : s.round none ctx = s := by
  simp [TelegramSys.round, telegramPoll, telegramFetchUpdates]

theorem round_empty (hpending : s.pending = []) (ctx : ℕ) :
    s.round (some (renderUpdates s.pending)) ctx = s := by
  rw [TelegramSys.round, hpending, telegramPoll_empty]
  simp

theorem TelegramInv.pending_eq (h : TelegramInv evs s) (hlog : s.log.length ≤ 1) :
    s.pending = s.server := by
  rw [TelegramSys.pending, List.filter_eq_self]
  intro u _
  have hpos := u.updateId_pos
  rw [h.offset, decide_eq_true_eq]
  omega

theorem TelegramInv.deliver (h : TelegramInv evs s) {u : Update} {us : List Update}
    (hpending : s.pending = u :: us) (hplain : u.Plain) (ctx : ℕ) :
    TelegramInv (evs ++ [.poll ctx]) (s.round (some (renderUpdates s.pending)) ctx) ∧
      (s.round (some (renderUpdates s.pending)) ctx).log.length = s.log.length + 1 := by
  have hoffset : 0 ≤ s.poll.offset := by
    rw [h.offset]
    omega
  obtain ⟨p, job, hpoll, hnext, hbuf, htext⟩ := telegramPoll_pending us hplain hoffset h.buffer ctx
  have hmem : u ∈ s.server := by
    have hin : u ∈ s.pending := by rw [hpending]; exact List.mem_cons_self
    exact (List.mem_filter.mp hin).1
  have hround : s.round (some (renderUpdates s.pending)) ctx =
      ⟨s.server, p, s.log ++ [(some u, job)]⟩ := by
    rw [TelegramSys.round, hpending, hpoll]
    rfl
  rw [hround]
  refine ⟨⟨?_, hbuf, ?_, ?_, ?_⟩, by simp⟩
  · exact fun v hv ↦ List.mem_append_left _ (h.arrived v hv)
  · simp only [hnext, h.offset, List.length_append, List.length_singleton]
    omega
  · intro e he
    rcases List.mem_append.mp he with he | he
    · exact h.logged e he
    · rw [List.mem_singleton.mp he]
      exact ⟨u, hmem, rfl, htext⟩
  · intro e he
    by_cases hlog : s.log.length ≤ 1
    · rcases List.mem_append.mp (List.mem_of_mem_take he) with he | he
      · exact h.oldest e (by rwa [List.take_of_length_le (by omega)])
      · rw [List.mem_singleton.mp he, ← h.pending_eq hlog, hpending]
        rfl
    · rw [List.take_append_of_le_length (by omega)] at he
      exact h.oldest e he

theorem TelegramInv.run {text chatId : Bytes} (hbuf : text.length = telegramTextSize)
    (hrun : Run TelegramStep (.start text chatId) evs s)
    (hplain : ∀ u, .arrive u ∈ evs → u.Plain) : TelegramInv evs s := by
  induction hrun with
  | nil => exact ⟨by simp [TelegramSys.start], hbuf, rfl, by simp [TelegramSys.start], by simp
      [TelegramSys.start]⟩
  | @snoc evs s s' ev _ hlast ih =>
      have h := ih fun u hu ↦ hplain u (List.mem_append_left _ hu)
      cases hlast with
      | arrive u => exact h.arrive u
      | pollFailed ctx =>
          rw [round_none]
          exact h.idle rfl rfl rfl _
      | poll ctx =>
          rcases hpending : s.pending with _ | ⟨u, us⟩
          · rw [← hpending, round_empty hpending]
            exact h.idle rfl rfl rfl _
          · have hu : u ∈ s.server := by
              have hin : u ∈ s.pending := by rw [hpending]; exact List.mem_cons_self
              exact (List.mem_filter.mp hin).1
            rw [← hpending]
            exact (h.deliver hpending (hplain u (List.mem_append_left _ (h.arrived u hu))) ctx).1

theorem TelegramInv.exactlyOnce_iff (h : TelegramInv evs s) :
    ExactlyOnce s ↔ s.log.length ≤ 1 := by
  constructor
  · intro hone
    by_contra hlen
    obtain ⟨e₀, e₁, rest, hlog⟩ : ∃ e₀ e₁ rest, s.log = e₀ :: e₁ :: rest := by
      match hlog : s.log with
      | [] => simp [hlog] at hlen
      | [e] => simp [hlog] at hlen
      | e₀ :: e₁ :: rest => exact ⟨e₀, e₁, rest, rfl⟩
    have h₀ := h.oldest e₀ (by simp [hlog])
    have h₁ := h.oldest e₁ (by simp [hlog])
    have hnodup := hone.nodup
    rw [hlog] at hnodup
    simp [h₀, h₁] at hnodup
  · intro hlen
    refine ⟨?_, h.logged, ?_⟩
    · match hlog : s.log with
      | [] => simp
      | [e] => simp
      | e₀ :: e₁ :: rest => simp [hlog] at hlen
    · intro u _ hlt
      have hpos := u.updateId_pos
      rw [h.offset] at hlt
      omega

theorem TelegramInv.length_log_poll (h : TelegramInv evs s)
    (hplain : ∀ u, .arrive u ∈ evs → u.Plain) (ctx : ℕ) :
    s.pending = [] ∧ (s.round (some (renderUpdates s.pending)) ctx).log.length = s.log.length ∨
      s.pending ≠ [] ∧
        (s.round (some (renderUpdates s.pending)) ctx).log.length = s.log.length + 1 := by
  rcases hpending : s.pending with _ | ⟨u, us⟩
  · refine .inl ⟨rfl, ?_⟩
    rw [← hpending, round_empty hpending]
  · have hu : u ∈ s.server := by
      have hin : u ∈ s.pending := by rw [hpending]; exact List.mem_cons_self
      exact (List.mem_filter.mp hin).1
    refine .inr ⟨List.cons_ne_nil _ _, ?_⟩
    rw [← hpending]
    exact (h.deliver hpending (hplain u (h.arrived u hu)) ctx).2

variable {text chatId : Bytes}

theorem length_log_of_deliverOnce (hbuf : text.length = telegramTextSize)
    (hrun : Run DeliverOnceStep (.start text chatId) evs s)
    (hplain : ∀ u, .arrive u ∈ evs → u.Plain) : s.log.length ≤ 1 := by
  induction hrun with
  | nil => simp [TelegramSys.start]
  | @snoc evs s s' ev hprev hlast ih =>
      have hplain' : ∀ u, .arrive u ∈ evs → u.Plain := fun u hu ↦
        hplain u (List.mem_append_left _ hu)
      have hlen := ih hplain'
      obtain ⟨hstep, hfirst⟩ := hlast
      cases hstep with
      | arrive u => exact hlen
      | pollFailed ctx =>
          rw [round_none]
          exact hlen
      | poll ctx =>
          have h := TelegramInv.run hbuf (hprev.mono fun _ _ _ hs ↦ hs.1) hplain'
          rcases h.length_log_poll hplain' ctx with ⟨-, heq⟩ | ⟨hne, heq⟩
          · omega
          · rcases hfirst with hnone | hlog
            · exact absurd hnone hne
            · rw [heq, hlog]
              rfl

theorem deliverOnce_of_length_log (hbuf : text.length = telegramTextSize)
    (hrun : Run TelegramStep (.start text chatId) evs s)
    (hplain : ∀ u, .arrive u ∈ evs → u.Plain) (hlen : s.log.length ≤ 1) :
    Run DeliverOnceStep (.start text chatId) evs s := by
  induction hrun with
  | nil => exact .nil
  | @snoc evs s s' ev hprev hlast ih =>
      have hplain' : ∀ u, .arrive u ∈ evs → u.Plain := fun u hu ↦
        hplain u (List.mem_append_left _ hu)
      cases hlast with
      | arrive u hnew => exact (ih hplain' hlen).snoc ⟨.arrive u hnew, trivial⟩
      | pollFailed ctx =>
          have hlen' : s.log.length ≤ 1 := by rwa [round_none] at hlen
          exact (ih hplain' hlen').snoc ⟨.pollFailed ctx, trivial⟩
      | poll ctx =>
          have h := TelegramInv.run hbuf hprev hplain'
          rcases h.length_log_poll hplain' ctx with ⟨hnone, heq⟩ | ⟨hne, heq⟩
          · exact (ih hplain' (by omega)).snoc ⟨.poll ctx, .inl hnone⟩
          · have hempty : s.log = [] := List.length_eq_zero_iff.mp (by omega)
            exact (ih hplain' (by omega)).snoc ⟨.poll ctx, .inr hempty⟩

end Runs

/-- With plain texts a run of the listener keeps the promise exactly when no
round finds something pending after something was enqueued. -/
theorem telegram_exactly_once_iff {text chatId : Bytes} {evs : List TelegramEvent}
    {s : TelegramSys} (hbuf : text.length = 4096)
    (hrun : Run TelegramStep (.start text chatId) evs s)
    (hplain : ∀ u, .arrive u ∈ evs → u.Plain) :
    ExactlyOnce s ↔ Run DeliverOnceStep (.start text chatId) evs s := by
  rw [(TelegramInv.run hbuf hrun hplain).exactlyOnce_iff]
  constructor
  · exact deliverOnce_of_length_log hbuf hrun hplain
  · exact fun honce ↦ length_log_of_deliverOnce hbuf honce hplain

def helloUpdate : Update where
  updateId := 7
  front := ascii ("\"message_id\":1,\"from\":\x7b\"id\":5,\"first_name\":\"Ada\"\x7d," ++
    "\"chat\":\x7b\"id\":5,\"type\":\"private\"\x7d,\"date\":0")
  text := ascii "hello"
  behind := []
  updateId_pos := by decide
  front_ok := by decide +kernel
  text_ne := by decide

theorem helloUpdate_plain : helloUpdate.Plain := ⟨by decide, by decide +kernel⟩

theorem TelegramInv.length_log_succ {evs : List TelegramEvent} {s : TelegramSys}
    (h : TelegramInv evs s) (hplain : ∀ u, .arrive u ∈ evs → u.Plain) (hserver : s.server ≠ [])
    (hlog : s.log.length ≤ 1) (ctx : ℕ) :
    (s.round (some (renderUpdates s.pending)) ctx).log.length = s.log.length + 1 := by
  rcases h.length_log_poll hplain ctx with ⟨hnone, -⟩ | ⟨-, heq⟩
  · rw [h.pending_eq hlog] at hnone
    exact absurd hnone hserver
  · exact heq

theorem telegram_exactly_once_one_round :
    ∃ (text : Bytes) (s : TelegramSys), text.length = 4096 ∧
      Run TelegramStep (.start text []) [.arrive helloUpdate, .poll 0] s ∧
      s.log.length = 1 ∧ ExactlyOnce s := by
  obtain ⟨text, hbuf⟩ : ∃ text : Bytes, text.length = 4096 :=
    ⟨List.replicate 4096 0, List.length_replicate⟩
  have harrive : Run TelegramStep (.start text []) ([] ++ [.arrive helloUpdate]) _ :=
    Run.nil.snoc (.arrive helloUpdate (by simp [TelegramSys.start]))
  have hrun := harrive.snoc (.poll 0)
  have honce : Run DeliverOnceStep (.start text [])
      ([] ++ [.arrive helloUpdate] ++ [.poll 0]) _ :=
    (Run.nil.snoc ⟨.arrive helloUpdate (by simp [TelegramSys.start]), trivial⟩).snoc
      ⟨.poll 0, .inr rfl⟩
  have hplain : ∀ u, .arrive u ∈ [TelegramEvent.arrive helloUpdate] → u.Plain := by
    intro u hu
    cases List.mem_singleton.mp hu
    exact helloUpdate_plain
  refine ⟨text, _, hbuf, hrun, ?_, ?_⟩
  · exact (TelegramInv.run hbuf harrive hplain).length_log_succ hplain (by simp)
      (by simp [TelegramSys.start]) 0
  · refine (telegram_exactly_once_iff hbuf hrun fun u hu ↦ hplain u ?_).mpr honce
    simpa using hu

/-- One update and two rounds: its text is enqueued twice. -/
theorem telegram_delivers_twice :
    ¬ ∀ (text chatId : Bytes) (evs : List TelegramEvent) (s : TelegramSys),
      text.length = 4096 → Run TelegramStep (.start text chatId) evs s → ExactlyOnce s := by
  intro h
  obtain ⟨text, hbuf⟩ : ∃ text : Bytes, text.length = 4096 :=
    ⟨List.replicate 4096 0, List.length_replicate⟩
  have harrive : Run TelegramStep (.start text []) ([] ++ [.arrive helloUpdate]) _ :=
    Run.nil.snoc (.arrive helloUpdate (by simp [TelegramSys.start]))
  have hfirst := harrive.snoc (.poll 0)
  have hsecond := hfirst.snoc (.poll 0)
  have hplain : ∀ u, .arrive u ∈ [TelegramEvent.arrive helloUpdate, .poll 0, .poll 0] →
      u.Plain := by
    intro u hu
    obtain rfl : u = helloUpdate := by simpa using hu
    exact helloUpdate_plain
  have hplain₁ : ∀ u, .arrive u ∈ [TelegramEvent.arrive helloUpdate] → u.Plain := fun u hu ↦
    hplain u (by simpa using hu)
  have hplain₂ : ∀ u, .arrive u ∈ [TelegramEvent.arrive helloUpdate, .poll 0] → u.Plain :=
    fun u hu ↦ hplain u (by simpa using hu)
  have hlog₁ := (TelegramInv.run hbuf harrive hplain₁).length_log_succ hplain₁ (by simp)
    (by simp [TelegramSys.start]) 0
  have hlog₂ := (TelegramInv.run hbuf hfirst hplain₂).length_log_succ hplain₂
    (by simp [TelegramSys.round]) (by rw [hlog₁]; simp [TelegramSys.start]) 0
  have hone := ((TelegramInv.run hbuf hsecond hplain).exactlyOnce_iff).mp (h _ _ _ _ hbuf hsecond)
  rw [hlog₂, hlog₁] at hone
  simp [TelegramSys.start] at hone

end DoctorClaw
