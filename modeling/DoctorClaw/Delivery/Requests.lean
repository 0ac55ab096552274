import DoctorClaw.Delivery.Workers

/-!
# Requests and their contexts

A job that still owes a gateway callback belongs to a request that waits at
the address the job carries, and no two live frames share an address.  So a
callback writes into the context of the request that pushed its job.
-/

namespace DoctorClaw

variable {R W : Type*}

variable (env : AgentEnv) (pool : JobworkerPool) (evs : List (DeliveryEvent R W))
  (s : DeliverySys R W)

/-- The callback of the job under ticket `t` ran, and `cell` is what it wrote. -/
def FilledBy (t : ℕ) (job : Job) (cell : AgentSyncCtx) : Prop :=
  ∃ w call result err,
    .callback w t .agentResponseCb job.responseCtx result err ∈ evs ∧
    dispatchJob env call job.terminated (pool.configFor job.terminated) = (result, err) ∧
    cell = agentResponseCb result result.length err

def OwnPush (r : R) (t : ℕ) (job : Job) : Prop :=
  .push (some r) t job ∈ evs ∧ ∀ t' job', .push (some r) t' job' ∈ evs → t' = t

variable (mem : ℕ → AgentSyncCtx)

/-- What the state of a request says about its pushes and its context. -/
def RequestOk (r : R) : RequestState → Prop
  | .fresh => ∀ t job, .push (some r) t job ∉ evs
  | .opened ctx => (∀ t job, .push (some r) t job ∉ evs) ∧ mem ctx = ⟨[], false⟩
  | .waiting t ctx => ∃ job, OwnPush evs r t job ∧ job.responseCtx = ctx ∧
      (mem ctx = ⟨[], false⟩ ∨ FilledBy env pool evs t job (mem ctx))
  | .woken t ctx => ∃ job, OwnPush evs r t job ∧ job.responseCtx = ctx ∧
      FilledBy env pool evs t job (mem ctx)
  | .answered => ∃ t job, OwnPush evs r t job

def FramesDisjoint (request : R → RequestState) : Prop :=
  ∀ r r' ctx, (request r).frame = some ctx → (request r').frame = some ctx → r = r'

/-- No two live frames share an address, and a job that still owes a gateway
callback belongs to a request that waits at the address the job carries. -/
structure RequestInv : Prop where
  frames : FramesDisjoint s.request
  ok : ∀ r, RequestOk env pool evs s.mem r (s.request r)
  pending : ∀ p t job, .push p t job ∈ evs → job.responseCb = some .agentResponseCb →
    ¬ Called evs t → ∃ r, p = some r ∧ s.request r = .waiting t job.responseCtx

variable {env pool evs s mem} {s' : DeliverySys R W} {ev : DeliveryEvent R W}

theorem FilledBy.mono {t : ℕ} {job : Job} {cell : AgentSyncCtx}
    (h : FilledBy env pool evs t job cell) (ev : DeliveryEvent R W) :
    FilledBy env pool (evs ++ [ev]) t job cell := by
  obtain ⟨w, call, result, err, hcb, hres, hcell⟩ := h
  exact ⟨w, call, result, err, List.mem_append_left _ hcb, hres, hcell⟩

theorem FilledBy.called {t : ℕ} {job : Job} {cell : AgentSyncCtx}
    (h : FilledBy env pool evs t job cell) : Called evs t := by
  obtain ⟨w, call, result, err, hcb, -⟩ := h
  exact List.mem_filterMap.mpr ⟨_, hcb, rfl⟩

theorem OwnPush.mono {r : R} {t : ℕ} {job : Job} (h : OwnPush evs r t job)
    (hev : ∀ t job, ev ≠ .push (some r) t job) : OwnPush (evs ++ [ev]) r t job := by
  refine ⟨List.mem_append_left _ h.1, fun t' job' hin ↦ ?_⟩
  rcases List.mem_append.mp hin with hin | hin
  · exact h.2 t' job' hin
  · exact absurd (List.mem_singleton.mp hin).symm (hev t' job')

/-- A request is not affected by a step that pushes nothing for it and leaves
its context alone. -/
theorem RequestOk.mono {r : R} {st : RequestState} {mem' : ℕ → AgentSyncCtx}
    (h : RequestOk env pool evs mem r st) (hev : ∀ t job, ev ≠ .push (some r) t job)
    (hmem : ∀ ctx, st.frame = some ctx → mem' ctx = mem ctx) :
    RequestOk env pool (evs ++ [ev]) mem' r st := by
  have hnone (hno : ∀ t job, .push (some r) t job ∉ evs) :
      ∀ t job, .push (some r) t job ∉ evs ++ [ev] := by
    intro t job hin
    rcases List.mem_append.mp hin with hin | hin
    · exact hno t job hin
    · exact hev t job (List.mem_singleton.mp hin).symm
  cases st with
  | fresh => exact hnone h
  | opened ctx => exact ⟨hnone h.1, (hmem ctx rfl).trans h.2⟩
  | waiting t ctx =>
      obtain ⟨job, hown, hctx, hcell⟩ := h
      refine ⟨job, hown.mono hev, hctx, ?_⟩
      rw [hmem ctx rfl]
      exact hcell.imp_right fun hf ↦ hf.mono ev
  | woken t ctx =>
      obtain ⟨job, hown, hctx, hcell⟩ := h
      refine ⟨job, hown.mono hev, hctx, ?_⟩
      rw [hmem ctx rfl]
      exact hcell.mono ev
  | answered =>
      obtain ⟨t, job, hown⟩ := h
      exact ⟨t, job, hown.mono hev⟩

theorem RequestInv.pending_mono (h : RequestInv env pool evs s) (hpush : ev.pushedEntry = none)
    {p : Option R} {t : ℕ} {job : Job} (hin : .push p t job ∈ evs ++ [ev])
    (hcb : job.responseCb = some .agentResponseCb) (hun : ¬ Called (evs ++ [ev]) t) :
    ∃ r, p = some r ∧ s.request r = .waiting t job.responseCtx := by
  rcases List.mem_append.mp hin with hin | hin
  · exact h.pending p t job hin hcb fun hc ↦ hun (called_append.mpr (.inl hc))
  · rw [← List.mem_singleton.mp hin] at hpush
    cases hpush

theorem ne_push_of_pushedEntry (hpush : ev.pushedEntry = none) {p : Option R} (t : ℕ) (job : Job) :
    ev ≠ .push p t job := by
  rintro rfl
  cases hpush

theorem RequestInv.of_idle (h : RequestInv env pool evs s) (hpush : ev.pushedEntry = none)
    (hrequest : s'.request = s.request) (hmem : s'.mem = s.mem) :
    RequestInv env pool (evs ++ [ev]) s' := by
  refine ⟨?_, ?_, ?_⟩
  · rw [hrequest]
    exact h.frames
  · rw [hrequest, hmem]
    exact fun r ↦ (h.ok r).mono (ne_push_of_pushedEntry hpush) fun _ _ ↦ rfl
  · rw [hrequest]
    exact fun p t job hin hcb hun ↦ h.pending_mono hpush hin hcb hun

theorem RequestInv.pushOther (h : RequestInv env pool evs s) {t : ℕ} {job : Job}
    (hcb : job.responseCb ≠ some .agentResponseCb) (hrequest : s'.request = s.request)
    (hmem : s'.mem = s.mem) : RequestInv env pool (evs ++ [.push none t job]) s' := by
  refine ⟨?_, ?_, ?_⟩
  · rw [hrequest]
    exact h.frames
  · intro r
    rw [hrequest, hmem]
    apply (h.ok r).mono
    · rintro t' job' ⟨⟩
    · exact fun _ _ ↦ rfl
  · intro p t' job' hin hcb' hun
    rw [hrequest]
    rcases List.mem_append.mp hin with hin | hin
    · exact h.pending p t' job' hin hcb' fun hc ↦ hun (called_append.mpr (.inl hc))
    · cases List.mem_singleton.mp hin
      exact absurd hcb' hcb

variable [DecidableEq R]

theorem FramesDisjoint.update {request : R → RequestState} (h : FramesDisjoint request) {r : R}
    {st : RequestState}
    (hst : ∀ ctx, st.frame = some ctx → ∀ r', r' ≠ r → (request r').frame ≠ some ctx) :
    FramesDisjoint (Function.update request r st) := by
  intro r₁ r₂ ctx h₁ h₂
  by_cases hr₁ : r₁ = r <;> by_cases hr₂ : r₂ = r
  · rw [hr₁, hr₂]
  · subst hr₁
    rw [Function.update_self] at h₁
    rw [Function.update_of_ne hr₂] at h₂
    exact absurd h₂ (hst ctx h₁ r₂ hr₂)
  · subst hr₂
    rw [Function.update_self] at h₂
    rw [Function.update_of_ne hr₁] at h₁
    exact absurd h₁ (hst ctx h₂ r₁ hr₁)
  · rw [Function.update_of_ne hr₁] at h₁
    rw [Function.update_of_ne hr₂] at h₂
    exact h r₁ r₂ ctx h₁ h₂

theorem FramesDisjoint.update_same {request : R → RequestState} (h : FramesDisjoint request)
    {r : R} {st : RequestState} (hst : ∀ ctx, st.frame = some ctx → (request r).frame = some ctx) :
    FramesDisjoint (Function.update request r st) :=
  h.update fun ctx hctx r' hr' hframe ↦ hr' (h r' r ctx hframe (hst ctx hctx))

theorem RequestInv.of_own (h : RequestInv env pool evs s) {r : R} {st : RequestState}
    (hpush : ev.pushedEntry = none)
    (hframes : ∀ ctx, st.frame = some ctx → ∀ r', r' ≠ r → (s.request r').frame ≠ some ctx)
    (hrequest : s'.request = Function.update s.request r st)
    (hmem : ∀ r', r' ≠ r → ∀ ctx, (s.request r').frame = some ctx → s'.mem ctx = s.mem ctx)
    (hok : RequestOk env pool (evs ++ [ev]) s'.mem r st)
    (hpaid : ∀ t ctx, s.request r = .waiting t ctx → Called evs t) :
    RequestInv env pool (evs ++ [ev]) s' := by
  refine ⟨?_, ?_, ?_⟩
  · rw [hrequest]
    exact h.frames.update hframes
  · intro r'
    rw [hrequest]
    by_cases hr : r' = r
    · subst hr
      rwa [Function.update_self]
    · rw [Function.update_of_ne hr]
      exact (h.ok r').mono (ne_push_of_pushedEntry hpush) (hmem r' hr)
  · intro p t job hin hcb hun
    obtain ⟨r', rfl, hr'⟩ := h.pending_mono hpush hin hcb hun
    refine ⟨r', rfl, ?_⟩
    rw [hrequest, Function.update_of_ne, hr']
    rintro rfl
    exact hun (called_append.mpr (.inl (hpaid t _ hr')))

theorem RequestInv.openCtx (h : RequestInv env pool evs s) {r : R} {ctx : ℕ}
    (hfresh : s.request r = .fresh) (hfree : ∀ r', (s.request r').frame ≠ some ctx)
    (hrequest : s'.request = Function.update s.request r (.opened ctx))
    (hmem : s'.mem = Function.update s.mem ctx ⟨[], false⟩) :
    RequestInv env pool (evs ++ [.openCtx r ctx]) s' := by
  have hnone : ∀ t job, .push (some r) t job ∉ evs := by
    have hok := h.ok r
    rwa [hfresh] at hok
  refine h.of_own rfl ?_ hrequest ?_ ⟨?_, ?_⟩ ?_
  · intro ctx' hctx r' _
    cases hctx
    exact hfree r'
  · intro r' _ ctx' hframe
    rw [hmem, Function.update_of_ne]
    rintro rfl
    exact hfree r' hframe
  · simpa using hnone
  · rw [hmem, Function.update_self]
  · simp [hfresh]

theorem RequestInv.push (h : RequestInv env pool evs s) {r : R} {ctx t : ℕ} {prompt : Bytes}
    (hopened : s.request r = .opened ctx)
    (hrequest : s'.request = Function.update s.request r (.waiting t ctx))
    (hmem : s'.mem = s.mem) :
    RequestInv env pool (evs ++ [.push (some r) t (gatewayJob prompt ctx)]) s' := by
  have hok := h.ok r
  rw [hopened] at hok
  obtain ⟨hnone, hclear⟩ := hok
  refine ⟨?_, ?_, ?_⟩
  · rw [hrequest]
    apply h.frames.update_same
    rw [hopened]
    exact fun _ hctx ↦ hctx
  · intro r'
    rw [hrequest, hmem]
    by_cases hr : r' = r
    · subst hr
      rw [Function.update_self]
      refine ⟨gatewayJob prompt ctx, ⟨by simp, fun t' job' hin ↦ ?_⟩, rfl, .inl hclear⟩
      rcases List.mem_append.mp hin with hin | hin
      · exact absurd hin (hnone t' job')
      · cases List.mem_singleton.mp hin
        rfl
    · rw [Function.update_of_ne hr]
      apply (h.ok r').mono
      · rintro t' job' ⟨⟩
        exact hr rfl
      · exact fun _ _ ↦ rfl
  · intro p t' job hin hcb hun
    rw [hrequest]
    rcases List.mem_append.mp hin with hin | hin
    · obtain ⟨r', rfl, hr'⟩ := h.pending p t' job hin hcb fun hc ↦ hun (called_append.mpr (.inl hc))
      refine ⟨r', rfl, ?_⟩
      rw [Function.update_of_ne, hr']
      rintro rfl
      rw [hopened] at hr'
      cases hr'
    · cases List.mem_singleton.mp hin
      exact ⟨r, rfl, Function.update_self ..⟩

/-- The context that the gateway's callback fills is the one of the request
that pushed the job. -/
theorem RequestInv.callback (h : RequestInv env pool evs s) (hqueue : QueueInv evs s)
    {p : Option R} {w : W} {t call : ℕ} {job : Job} {result : Bytes} {err : Int32}
    (hpush : .push p t job ∈ evs) (hcb : job.responseCb = some .agentResponseCb)
    (hun : ¬ Called evs t)
    (hresult : dispatchJob env call job.terminated (pool.configFor job.terminated) = (result, err))
    (hrequest : s'.request = s.request)
    (hmem : s'.mem = Function.update s.mem job.responseCtx
      (agentResponseCb result result.length err)) :
    RequestInv env pool
      (evs ++ [.callback w t .agentResponseCb job.responseCtx result err]) s' := by
  obtain ⟨r, rfl, hwaiting⟩ := h.pending p t job hpush hcb hun
  refine ⟨?_, ?_, ?_⟩
  · rw [hrequest]
    exact h.frames
  · intro r'
    rw [hrequest]
    by_cases hr : r' = r
    · subst hr
      have hok := h.ok r'
      rw [hwaiting] at hok ⊢
      obtain ⟨job', hown, -, -⟩ := hok
      obtain ⟨-, rfl⟩ := hqueue.push_inj hown.1 hpush
      refine ⟨job', hown.mono (ne_push_of_pushedEntry rfl), rfl, .inr ?_⟩
      rw [hmem, Function.update_self]
      exact ⟨w, call, result, err, by simp, hresult, rfl⟩
    · apply (h.ok r').mono (ne_push_of_pushedEntry rfl)
      intro ctx hframe
      rw [hmem, Function.update_of_ne]
      rintro rfl
      exact hr (h.frames r' r _ hframe (by rw [hwaiting]; rfl))
  · rw [hrequest]
    exact fun p t job hin hcb hun ↦ h.pending_mono rfl hin hcb hun

theorem RequestInv.wake (h : RequestInv env pool evs s) {r : R} {t ctx : ℕ}
    (hwaiting : s.request r = .waiting t ctx) (hdone : (s.mem ctx).done = true)
    (hrequest : s'.request = Function.update s.request r (.woken t ctx)) (hmem : s'.mem = s.mem) :
    RequestInv env pool (evs ++ [.wake r]) s' := by
  have hok := h.ok r
  rw [hwaiting] at hok
  obtain ⟨job, hown, hctx, hcell⟩ := hok
  have hfilled : FilledBy env pool evs t job (s.mem ctx) := by
    rcases hcell with hclear | hfilled
    · rw [hclear] at hdone
      cases hdone
    · exact hfilled
  refine h.of_own rfl ?_ hrequest ?_ ?_ ?_
  · intro ctx' hctx' r' hr' hframe
    cases hctx'
    exact hr' (h.frames r' r _ hframe (by rw [hwaiting]; rfl))
  · exact fun _ _ _ _ ↦ by rw [hmem]
  · rw [hmem]
    exact ⟨job, hown.mono (ne_push_of_pushedEntry rfl), hctx, hfilled.mono _⟩
  · intro t' ctx' hr
    rw [hwaiting] at hr
    cases hr
    exact hfilled.called

theorem RequestInv.proceed (h : RequestInv env pool evs s) {r : R} {t ctx : ℕ} {buffer : Bytes}
    (hwoken : s.request r = .woken t ctx)
    (hrequest : s'.request = Function.update s.request r .answered) (hmem : s'.mem = s.mem) :
    RequestInv env pool (evs ++ [.proceed r buffer]) s' := by
  have hok := h.ok r
  rw [hwoken] at hok
  obtain ⟨job, hown, -, -⟩ := hok
  refine h.of_own rfl ?_ hrequest ?_ ⟨t, job, hown.mono (ne_push_of_pushedEntry rfl)⟩ ?_
  · rintro ctx' ⟨⟩
  · exact fun _ _ _ _ ↦ by rw [hmem]
  · simp [hwoken]

theorem RequestInv.step [DecidableEq W] (h : RequestInv env pool evs s) (hqueue : QueueInv evs s)
    (hworker : WorkerInv env pool evs s) (hstep : DeliveryStep env pool s ev s') :
    RequestInv env pool (evs ++ [ev]) s' := by
  cases hstep with
  | openCtx _ _ hfresh hfree => exact h.openCtx hfresh hfree rfl rfl
  | push _ _ hopened => exact h.push hopened rfl rfl
  | pushOther hcb => exact h.pushOther hcb rfl rfl
  | pop => exact h.of_idle rfl rfl rfl
  | popFailed => exact h.of_idle rfl rfl rfl
  | dispatch => exact h.of_idle rfl rfl rfl
  | @callback w t job fn result err hdone hcb =>
      have hheld : (s.worker w).held = some (t, job) := by
        rw [hdone]
        rfl
      obtain ⟨call, hresult⟩ := hworker.result_eq w t job result err hdone
      obtain ⟨p, job₀, hpush, rfl⟩ := hqueue.popped_pushed (hworker.held_popped w t job hheld)
      rw [Job.terminated_responseCb] at hcb
      rw [Job.terminated_responseCtx]
      cases fn with
      | agentResponseCb =>
          exact h.callback hqueue hpush hcb (hworker.held_uncalled w t _ hheld) hresult rfl rfl
      | channelAgentResponseCb => exact h.of_idle rfl rfl rfl
  | noCallback => exact h.of_idle rfl rfl rfl
  | wake _ hwaiting hdone => exact h.wake hwaiting hdone rfl rfl
  | proceed _ hwoken => exact h.proceed hwoken rfl rfl

end DoctorClaw
