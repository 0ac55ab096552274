import DoctorClaw.Channels.Replies
import DoctorClaw.Daemon.Commands
import DoctorClaw.Lib.Handover

/-!
# Replies to polled messages

The poll thread puts the channel, and the chat that it read from the answer of
the server, into a reply context and its address into the job.  The callback of
the job reads the context, replies and frees it.  What is read as the chat is
nothing wherever the answer has the key of a chat, so that the reply goes to the
default of the channel.
-/

namespace DoctorClaw

open Transition Handover

variable {W : Type*}

namespace Daemon

/-- The contexts of the jobs in the cache. -/
def cachedContexts (s : Daemon W) : List ℕ := s.cached.filterMap Job.context

def heldContext (s : Daemon W) (w : W) : Option ℕ := (s.worker w).bind Job.context

/-- A job is in the cache or in the hands of a worker. -/
def Outstanding (s : Daemon W) (job : Job) : Prop := job ∈ s.cached ∨ ∃ w, s.worker w = some job

end Daemon

/-- The job was pushed for this answer to the channel that its context names, and
the context holds what was read from the answer as the chat. -/
def PolledFor (evs : List (DaemonEvent W)) (job : Job) (target : ReplyTarget) (data : Bytes) :
    Prop :=
  target.chatId = parseTelegramChatId data ∧
    ∃ ctx text, job.context = some ctx ∧
      .poll ctx target.channelIndex data (pollJob text ctx) ∈ evs ∧
      job = (pollJob text ctx).terminated

/-- A reply goes to the channel from whose answer its job was made, and to the
default chat of this channel if the answer has the key of a chat. -/
def RepliesToPolled (pre : List (DaemonEvent W)) : DaemonEvent W → Prop
  | .finish _ job _ (some (target, _)) =>
      ∃ data, PolledFor pre job target data ∧ (chatIdKey <:+: data → target.chat = none)
  | _ => True

structure RepliesInv (evs : List (DaemonEvent W)) (s : Daemon W) : Prop where
  wf : s.cache.WF
  owned : Owned s.cachedContexts s.heldContext s.contexts
  polled : ∀ job, s.Outstanding job → ∀ ctx ∈ job.context, ∀ target ∈ s.contexts ctx,
    ∃ data, PolledFor evs job target data

section Steps

variable {env : DaemonEnv} {evs : List (DaemonEvent W)} {s s' : Daemon W} {ev : DaemonEvent W}

@[simp] theorem context_terminated (job : Job) : job.terminated.context = job.context := by
  rw [Job.context, Job.context, Job.terminated_responseCb, Job.terminated_responseCtx]

theorem PolledFor.mono {job : Job} {target : ReplyTarget} {data : Bytes}
    (h : PolledFor evs job target data) (ev : DaemonEvent W) :
    PolledFor (evs ++ [ev]) job target data := by
  obtain ⟨hchat, ctx, text, hctx, hmem, hjob⟩ := h
  exact ⟨hchat, ctx, text, hctx, List.mem_append_left _ hmem, hjob⟩

/-- No chat is read from an answer that has the key of one. -/
theorem PolledFor.chat_eq_none {job : Job} {target : ReplyTarget} {data : Bytes}
    (h : PolledFor evs job target data) (hkey : chatIdKey <:+: data) : target.chat = none :=
  if_pos (h.1.trans (parseTelegramChatId_key hkey))

theorem RepliesInv.polled_mono (h : RepliesInv evs s) {job : Job} (hjob : s.Outstanding job)
    {ctx : ℕ} (hctx : ctx ∈ job.context) {target : ReplyTarget}
    (htarget : target ∈ s.contexts ctx) (ev : DaemonEvent W) :
    ∃ data, PolledFor (evs ++ [ev]) job target data :=
  (h.polled job hjob ctx hctx target htarget).imp fun _ hdata ↦ hdata.mono ev

/-- A step that leaves the cache, the workers and the contexts alone. -/
theorem RepliesInv.idle (h : RepliesInv evs s) (hcache : s'.cache = s.cache)
    (hworker : s'.worker = s.worker) (hcontexts : s'.contexts = s.contexts) :
    RepliesInv (evs ++ [ev]) s' := by
  have hcached : s'.cached = s.cached := by rw [Daemon.cached, hcache, Daemon.cached]
  refine ⟨hcache ▸ h.wf, ?_, ?_⟩
  · have howned := h.owned
    unfold Daemon.cachedContexts Daemon.heldContext at howned ⊢
    rwa [hcached, hworker, hcontexts]
  · intro job hjob ctx hctx target htarget
    rw [Daemon.Outstanding, hcached, hworker] at hjob
    rw [hcontexts] at htarget
    exact h.polled_mono hjob hctx htarget ev

/-- A job without a reply context is pushed. -/
theorem RepliesInv.push (h : RepliesInv evs s) {job : Job} {cache' : JobCache}
    (hcontext : job.context = none) (hpush : jobcachePush s.cache job = some cache')
    (hcache : s'.cache = cache') (hworker : s'.worker = s.worker)
    (hcontexts : s'.contexts = s.contexts) : RepliesInv (evs ++ [ev]) s' := by
  obtain ⟨hwf, hview⟩ := view_push h.wf hpush
  have hcached : s'.cached = s.cached ++ [job.terminated] := by
    rw [Daemon.cached, hcache, hview, Daemon.cached]
  refine ⟨hcache ▸ hwf, ?_, ?_⟩
  · have howned := h.owned
    unfold Daemon.cachedContexts Daemon.heldContext at howned ⊢
    rw [hcached, hworker, hcontexts, filterMap_snoc, context_terminated, hcontext]
    simpa using howned
  · intro job' hjob ctx hctx target htarget
    rw [Daemon.Outstanding, hcached, hworker, List.mem_append, List.mem_singleton] at hjob
    rw [hcontexts] at htarget
    rcases hjob with (hjob | rfl) | hjob
    · exact h.polled_mono (.inl hjob) hctx htarget ev
    · rw [context_terminated, hcontext] at hctx
      cases hctx
    · exact h.polled_mono (.inr hjob) hctx htarget ev

theorem RepliesInv.poll (h : RepliesInv evs s) (channel : ℕ) (data : Bytes)
    {listener listener' : PollState} {ctx : ℕ} {job : Job} {cache' : JobCache}
    (hround : telegramPoll listener (some data) ctx = (listener', some job))
    (hfresh : s.contexts ctx = none) (hpush : jobcachePush s.cache job = some cache') :
    RepliesInv (evs ++ [.poll ctx channel data job])
      { s with
        cache := cache'
        contexts := Function.update s.contexts ctx (some ⟨channel, listener'.chatId⟩) } := by
  obtain ⟨hchat, text, rfl⟩ := telegramPoll_eq_some hround
  obtain ⟨hwf, hview⟩ := view_push h.wf hpush
  have hctx : (pollJob text ctx).terminated.context = some ctx := context_terminated _
  refine ⟨hwf, ?_, ?_⟩
  · have howned := h.owned.push hfresh (ReplyTarget.mk channel listener'.chatId)
    rw [Daemon.cachedContexts, Daemon.cached]
    dsimp only
    rw [hview, filterMap_snoc, hctx]
    exact howned
  · intro job hjob ctx' hctx' target' htarget
    rw [Daemon.Outstanding, Daemon.cached] at hjob
    dsimp only at hjob htarget
    rw [hview, List.mem_append, List.mem_singleton] at hjob
    by_cases hsame : ctx' = ctx
    · subst hsame
      rw [Function.update_self] at htarget
      obtain rfl := Option.some.inj htarget
      rcases hjob with (hjob | rfl) | ⟨w, hjob⟩
      · have halive := (h.owned.allocated ctx').mpr (.inl (List.mem_filterMap.mpr ⟨job, hjob, hctx'⟩))
        exact (halive hfresh).elim
      · exact ⟨data, hchat, ctx', text, hctx', by simp, rfl⟩
      · have halive := (h.owned.allocated ctx').mpr (.inr ⟨w, by
          rw [Daemon.heldContext, hjob]
          exact hctx'⟩)
        exact (halive hfresh).elim
    · rw [Function.update_of_ne hsame] at htarget
      rcases hjob with (hjob | rfl) | hjob
      · exact h.polled_mono (.inl hjob) hctx' htarget _
      · rw [hctx] at hctx'
        exact (hsame (Option.some.inj hctx').symm).elim
      · exact h.polled_mono (.inr hjob) hctx' htarget _

variable [DecidableEq W]

theorem heldContext_update (s : Daemon W) (w : W) (job : Option Job) :
    (fun w' ↦ (Function.update s.worker w job w').bind Job.context) =
      Function.update s.heldContext w (job.bind Job.context) := by
  funext w'
  by_cases hw : w' = w
  · subst hw
    rw [Function.update_self, Function.update_self]
  · rw [Function.update_of_ne hw, Function.update_of_ne hw]
    rfl

theorem RepliesInv.pop (h : RepliesInv evs s) {w : W} {timeoutMs : ℤ} {expired : Bool} {job : Job}
    {cache' : JobCache} (hidle : s.worker w = none)
    (hpop : jobcachePop s.cache timeoutMs expired = .taken job cache') :
    RepliesInv (evs ++ [.pop w job])
      { s with cache := cache', worker := Function.update s.worker w (some job) } := by
  obtain ⟨hwf, hview⟩ := view_pop h.wf hpop
  have hheld : s.heldContext w = none := by rw [Daemon.heldContext, hidle]; rfl
  refine ⟨hwf, ?_, ?_⟩
  · have howned := h.owned
    rw [Daemon.cachedContexts, Daemon.cached, hview] at howned
    change Owned (List.filterMap Job.context (cache'.view cache'.slots))
      (fun w' ↦ (Function.update s.worker w (some job) w').bind Job.context) s.contexts
    rw [heldContext_update, Option.bind_some]
    cases hctx : job.context with
    | none =>
        rw [List.filterMap_cons_none hctx] at howned
        rwa [← hheld, Function.update_eq_self]
    | some ctx => exact howned.pop (List.filterMap_cons_some hctx) hheld
  · intro job' hjob ctx hctx target htarget
    refine h.polled_mono ?_ hctx htarget _
    rw [Daemon.Outstanding, Daemon.cached, hview]
    rcases hjob with hjob | ⟨w', hjob⟩
    · exact .inl (List.mem_cons_of_mem _ hjob)
    · dsimp only at hjob
      by_cases hw : w' = w
      · subst hw
        rw [Function.update_self] at hjob
        obtain rfl := Option.some.inj hjob
        exact .inl List.mem_cons_self
      · rw [Function.update_of_ne hw] at hjob
        exact .inr ⟨w', hjob⟩

theorem RepliesInv.finish (h : RepliesInv evs s) {w : W} {job : Job} (hheld : s.worker w = some job)
    (result : Bytes) (error : Int32) :
    RepliesInv (evs ++ [ev])
      { s with
        worker := Function.update s.worker w none
        contexts := (Daemon.callback env s.contexts job result error).2 } := by
  have hcontext : s.heldContext w = job.context := by rw [Daemon.heldContext, hheld]; rfl
  -- what is outstanding afterwards was outstanding before
  have hbefore : ∀ job', Daemon.Outstanding
      { s with
        worker := Function.update s.worker w none
        contexts := (Daemon.callback env s.contexts job result error).2 } job' →
      s.Outstanding job' := by
    rintro job' (hjob | ⟨w', hjob⟩)
    · exact .inl hjob
    · refine .inr ⟨w', ?_⟩
      dsimp only at hjob
      rwa [Function.update_of_ne fun hw ↦ by rw [hw, Function.update_self] at hjob; cases hjob]
        at hjob
  cases hctx : job.context with
  | none =>
      have hcontexts : (Daemon.callback env s.contexts job result error).2 = s.contexts := by
        rw [Daemon.callback, hctx]
      rw [hcontexts] at hbefore ⊢
      refine ⟨h.wf, ?_, ?_⟩
      · change Owned s.cachedContexts
          (fun w' ↦ (Function.update s.worker w none w').bind Job.context) s.contexts
        rw [heldContext_update, Option.bind_none, ← hctx, ← hcontext, Function.update_eq_self]
        exact h.owned
      · intro job' hjob ctx hctx' target htarget
        exact h.polled_mono (hbefore job' hjob) hctx' htarget ev
  | some ctx =>
      have hcontexts : (Daemon.callback env s.contexts job result error).2 =
          Function.update s.contexts ctx none := by
        rw [Daemon.callback, hctx]
      rw [hcontexts] at hbefore ⊢
      refine ⟨h.wf, ?_, ?_⟩
      · change Owned s.cachedContexts
          (fun w' ↦ (Function.update s.worker w none w').bind Job.context) _
        rw [heldContext_update, Option.bind_none]
        exact h.owned.free (hcontext.trans hctx)
      · intro job' hjob ctx' hctx' target htarget
        dsimp only at htarget
        by_cases hsame : ctx' = ctx
        · rw [hsame, Function.update_self] at htarget
          cases htarget
        · rw [Function.update_of_ne hsame] at htarget
          exact h.polled_mono (hbefore job' hjob) hctx' htarget ev

omit [DecidableEq W] in
theorem RepliesInv.repliesToPolled (h : RepliesInv evs s) {w : W} {job : Job}
    (hheld : s.worker w = some job) (command : Option Bytes) (result : Bytes) (error : Int32) :
    RepliesToPolled evs
      (.finish w job command (Daemon.callback env s.contexts job result error).1) := by
  unfold RepliesToPolled
  split
  case h_1 job' command' target text heq =>
      injection heq with _ hjob _ hreply
      subst hjob
      unfold Daemon.callback at hreply
      split at hreply
      case h_1 => cases hreply
      case h_2 ctx hctx =>
          obtain ⟨found, hfound, hresponse⟩ := Option.bind_eq_some_iff.mp hreply
          unfold channelAgentResponse at hresponse
          split_ifs at hresponse
          obtain ⟨rfl, -⟩ := Prod.mk.inj (Option.some.inj hresponse)
          exact (h.polled job (.inr ⟨w, hheld⟩) ctx hctx found hfound).imp fun _ hdata ↦
            ⟨hdata, hdata.chat_eq_none⟩
  case h_2 => trivial

theorem RepliesInv.step (h : RepliesInv evs s) (hstep : Daemon.Step env s ev s') :
    RepliesInv (evs ++ [ev]) s' := by
  cases hstep with
  | cron => exact h.idle rfl rfl rfl
  | tick => exact h.idle rfl rfl rfl
  | skip => exact h.idle rfl rfl rfl
  | enqueue _ _ _ hpush => exact h.push rfl hpush rfl rfl rfl
  | ticked => exact h.idle rfl rfl rfl
  | poll channel data hround hfresh hpush => exact h.poll channel data hround hfresh hpush
  | push _ hcontext hpush => exact h.push hcontext hpush rfl rfl rfl
  | pop _ _ hidle hpop => exact h.pop hidle hpop
  | finish _ hheld _ => exact h.finish hheld _ _

end Steps

/-- Under every interleaving of the threads of the daemon, each reply context in
use belongs to one job that is in the cache or in the hands of one worker, so
that none is used after it was freed, freed twice or lost.  Each reply goes to the
channel from whose answer its job was made, and to its default chat if the answer
has the key of a chat. -/
theorem replies_return_to_their_channels [DecidableEq W] (env : DaemonEnv) (tasks : List CronTask)
    (slots : ℕ → Job) (capacity : ℕ) (hcap : 1 ≤ capacity) (evs : List (DaemonEvent W))
    (s : Daemon W)
    (hrun : Run (Daemon.Step env) (Daemon.start tasks ⟨slots, capacity, 0, 0, 0⟩) evs s) :
    Owned s.cachedContexts s.heldContext s.contexts ∧
      ∀ pre ev post, evs = pre ++ ev :: post → RepliesToPolled pre ev := by
  have hstart : RepliesInv ([] : List (DaemonEvent W))
      (Daemon.start tasks ⟨slots, capacity, 0, 0, 0⟩) := by
    refine ⟨⟨Nat.zero_le _, hcap, (Nat.zero_mod _).symm⟩, Owned.start, ?_⟩
    exact fun job _ ctx _ target htarget ↦ by cases htarget
  have hinv : ∀ {evs s}, Run (Daemon.Step env) (Daemon.start tasks ⟨slots, capacity, 0, 0, 0⟩) evs s →
      RepliesInv evs s := fun hrun ↦
    hrun.invariant_trace hstart fun _ _ _ _ _ hI hstep ↦ hI.step hstep
  refine ⟨(hinv hrun).owned, ?_⟩
  rintro pre ev post rfl
  obtain ⟨t, t', hbefore, hstep⟩ := hrun.fired
  cases hstep with
  | finish _ hheld _ => exact (hinv hbefore).repliesToPolled hheld _ _ _
  | _ => trivial

/-- An answer with a message from chat 5. -/
def answerFromChat : Bytes :=
  ascii "\x7b\"result\":[\x7b\"message\":\x7b\"chat\":\x7b\"id\":5\x7d,\"text\":\"hi\"\x7d\x7d]\x7d"

theorem telegramPoll_answerFromChat (listener : PollState)
    (hbuffer : listener.text = List.replicate telegramTextSize 0) (ctx : ℕ) :
    ∃ listener', telegramPoll listener (some answerFromChat) ctx =
        (listener', some (pollJob (ascii "hi") ctx)) ∧ listener'.chatId = [] := by
  have hstart : findMessageText answerFromChat = some (ascii "hi\"\x7d\x7d]\x7d") := by decide
  have htext : CString.ofBuffer (copyText (telegramTextSize - 1) 0 (ascii "hi\"\x7d\x7d]\x7d")
      listener.text) = ascii "hi" := by
    rw [hbuffer]
    rfl
  have hchat : parseTelegramChatId answerFromChat = [] := by decide
  refine ⟨{ listener with
    offset := lastUpdateId (answerFromChat.length + 1) answerFromChat listener.offset + 1
    text := copyText (telegramTextSize - 1) 0 (ascii "hi\"\x7d\x7d]\x7d") listener.text
    chatId := parseTelegramChatId answerFromChat }, ?_, hchat⟩
  unfold telegramPoll telegramFetchUpdates
  rw [Option.bind_some, hstart, Option.map_some]
  dsimp only
  rw [htext, if_neg (by decide)]
  rfl

theorem dispatchJob_quietEnv {job : Job} (htype : job.type = .agentChat) (call : ℕ)
    (config : Config) : dispatchJob quietEnv.agent call job config = ([], 0) := by
  unfold dispatchJob
  rw [htype]
  dsimp only [quietEnv]
  rw [ite_self]
  rfl

/-- One message is polled, its job is popped and answered. -/
theorem replies_return_to_their_channels_one_message :
    let evs : List (DaemonEvent Unit) :=
      [.poll 7 0 answerFromChat (pollJob (ascii "hi") 7),
        .pop () (pollJob (ascii "hi") 7).terminated,
        .finish () (pollJob (ascii "hi") 7).terminated none (some (⟨0, []⟩, []))]
    ∃ s : Daemon Unit, Owned s.cachedContexts s.heldContext s.contexts ∧
      ∀ pre ev post, evs = pre ++ ev :: post → RepliesToPolled pre ev := by
  intro evs
  have hstart : Run (Daemon.Step quietEnv) (Daemon.start [] ⟨fun _ ↦ cronJob [], 256, 0, 0, 0⟩) []
      (Daemon.start (W := Unit) [] ⟨fun _ ↦ cronJob [], 256, 0, 0, 0⟩) := .nil
  obtain ⟨listener', hround, hchat⟩ :=
    telegramPoll_answerFromChat ⟨0, List.replicate telegramTextSize 0, []⟩ rfl 7
  have hpoll := hstart.snoc (.poll 0 answerFromChat hround rfl rfl)
  have hpop := hpoll.snoc (.pop (w := ()) (-1) false rfl rfl)
  have hfinish := hpop.snoc (.finish (w := ()) 0 rfl (dispatchJob_quietEnv rfl 0 _))
  rw [hchat] at hfinish
  exact ⟨_, replies_return_to_their_channels quietEnv [] _ 256 (by decide) evs _ hfinish⟩

end DoctorClaw
