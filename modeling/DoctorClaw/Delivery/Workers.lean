import DoctorClaw.Delivery.System

/-!
# Workers and their callbacks

A worker holds the job it popped until it has called its callback.  No two
workers hold the same job, so a callback runs at most once.
-/

namespace DoctorClaw

variable {R W : Type*}

variable (env : AgentEnv) (pool : JobworkerPool) (evs : List (DeliveryEvent R W)) (s : DeliverySys R W)

def Called (ticket : ℕ) : Prop := ticket ∈ evs.filterMap DeliveryEvent.calledTicket

/-- A worker holds a job that it popped and whose callback it still owes. -/
structure WorkerInv : Prop where
  held_popped : ∀ w t job, (s.worker w).held = some (t, job) → .pop w t job ∈ evs
  held_uncalled : ∀ w t job, (s.worker w).held = some (t, job) → ¬ Called evs t
  held_inj : ∀ w w' t job job', (s.worker w).held = some (t, job) →
    (s.worker w').held = some (t, job') → w = w'
  result_eq : ∀ w t job result err, s.worker w = .dispatched t job result err →
    ∃ call, dispatchJob env call job (pool.configFor job) = (result, err)
  called_popped : ∀ t, Called evs t → ∃ w job, .pop w t job ∈ evs
  called_nodup : (evs.filterMap DeliveryEvent.calledTicket).Nodup

variable {env pool evs s} {s' : DeliverySys R W} {ev : DeliveryEvent R W}

theorem called_append {t : ℕ} :
    Called (evs ++ [ev]) t ↔ Called evs t ∨ ev.calledTicket = some t := by
  unfold Called
  cases hcall : ev.calledTicket <;> simp [hcall, eq_comm]

theorem called_append_of_none {t : ℕ} (hcall : ev.calledTicket = none) :
    Called (evs ++ [ev]) t ↔ Called evs t := by
  simp [called_append, hcall]

theorem WorkerInv.of_held_le (h : WorkerInv env pool evs s) (hcall : ev.calledTicket = none)
    (hheld : ∀ w e, (s'.worker w).held = some e → (s.worker w).held = some e)
    (hresult : ∀ w t job result err, s'.worker w = .dispatched t job result err →
      ∃ call, dispatchJob env call job (pool.configFor job) = (result, err)) :
    WorkerInv env pool (evs ++ [ev]) s' where
  held_popped w t job hw := List.mem_append_left _ (h.held_popped w t job (hheld _ _ hw))
  held_uncalled w t job hw := by
    rw [called_append_of_none hcall]
    exact h.held_uncalled w t job (hheld _ _ hw)
  held_inj w w' t job job' hw hw' := h.held_inj w w' t job job' (hheld _ _ hw) (hheld _ _ hw')
  result_eq := hresult
  called_popped t ht := by
    rw [called_append_of_none hcall] at ht
    obtain ⟨w, job, hpop⟩ := h.called_popped t ht
    exact ⟨w, job, List.mem_append_left _ hpop⟩
  called_nodup := by simpa [hcall] using h.called_nodup

theorem WorkerInv.of_idle (h : WorkerInv env pool evs s) (hcall : ev.calledTicket = none)
    (hworker : s'.worker = s.worker) : WorkerInv env pool (evs ++ [ev]) s' := by
  apply h.of_held_le hcall
  · rw [hworker]
    exact fun _ _ hw ↦ hw
  · rw [hworker]
    exact h.result_eq

variable [DecidableEq W]

theorem WorkerInv.pop (h : WorkerInv env pool evs s) {w : W} {t : ℕ} {job : Job}
    (hfresh : ∀ w' job', .pop w' t job' ∉ evs)
    (hworker : s'.worker = Function.update s.worker w (.popped t job)) :
    WorkerInv env pool (evs ++ [.pop w t job]) s' := by
  have hheld : ∀ w' e, (s'.worker w').held = some e →
      (w' = w ∧ e = (t, job)) ∨ (w' ≠ w ∧ (s.worker w').held = some e) := by
    intro w' e he
    rw [hworker] at he
    by_cases hw : w' = w
    · subst hw
      rw [Function.update_self] at he
      exact .inl ⟨rfl, (Option.some.inj he).symm⟩
    · rw [Function.update_of_ne hw] at he
      exact .inr ⟨hw, he⟩
  have hnew : ∀ w' job', (s.worker w').held ≠ some (t, job') :=
    fun w' job' he ↦ hfresh w' job' (h.held_popped _ _ _ he)
  refine ⟨?_, ?_, ?_, ?_, ?_, ?_⟩
  · intro w' t' job' he
    rcases hheld _ _ he with ⟨rfl, heq⟩ | ⟨-, he⟩
    · cases heq
      simp
    · exact List.mem_append_left _ (h.held_popped _ _ _ he)
  · intro w' t' job' he
    rw [called_append_of_none rfl]
    rcases hheld _ _ he with ⟨rfl, heq⟩ | ⟨-, he⟩
    · cases heq
      intro hcalled
      obtain ⟨w₀, job₀, hpop⟩ := h.called_popped _ hcalled
      exact hfresh _ _ hpop
    · exact h.held_uncalled _ _ _ he
  · intro w₁ w₂ t' job₁ job₂ he₁ he₂
    rcases hheld _ _ he₁ with ⟨rfl, heq₁⟩ | ⟨-, he₁⟩ <;>
      rcases hheld _ _ he₂ with ⟨rfl, heq₂⟩ | ⟨-, he₂⟩
    · rfl
    · cases heq₁
      exact absurd he₂ (hnew _ _)
    · cases heq₂
      exact absurd he₁ (hnew _ _)
    · exact h.held_inj _ _ _ _ _ he₁ he₂
  · intro w' t' job' result err hw'
    rw [hworker] at hw'
    by_cases hw : w' = w
    · subst hw
      simp at hw'
    · rw [Function.update_of_ne hw] at hw'
      exact h.result_eq _ _ _ _ _ hw'
  · intro t' ht'
    rw [called_append_of_none rfl] at ht'
    obtain ⟨w₀, job₀, hpop⟩ := h.called_popped _ ht'
    exact ⟨w₀, job₀, List.mem_append_left _ hpop⟩
  · simpa [DeliveryEvent.calledTicket, List.filterMap_cons] using h.called_nodup

/-- After the callback of its job a worker holds nothing, and nobody else held
that job. -/
theorem WorkerInv.callback (h : WorkerInv env pool evs s) {w : W} {t : ℕ} {job : Job}
    {result : Bytes} {err : Int32} {fn : ResponseFn} {ctx : ℕ}
    (hdone : s.worker w = .dispatched t job result err)
    (hworker : s'.worker = Function.update s.worker w .idle) :
    WorkerInv env pool (evs ++ [.callback w t fn ctx result err]) s' := by
  have hown : (s.worker w).held = some (t, job) := by rw [hdone]; rfl
  have hheld : ∀ w' e, (s'.worker w').held = some e → w' ≠ w ∧ (s.worker w').held = some e := by
    intro w' e he
    rw [hworker] at he
    by_cases hw : w' = w
    · subst hw
      simp [WorkerState.held] at he
    · exact ⟨hw, by rwa [Function.update_of_ne hw] at he⟩
  refine ⟨?_, ?_, ?_, ?_, ?_, ?_⟩
  · intro w' t' job' he
    exact List.mem_append_left _ (h.held_popped _ _ _ (hheld _ _ he).2)
  · intro w' t' job' he hcalled
    obtain ⟨hne, he⟩ := hheld _ _ he
    rcases called_append.mp hcalled with hcalled | heq
    · exact h.held_uncalled _ _ _ he hcalled
    · obtain rfl : t = t' := Option.some.inj heq
      exact hne (h.held_inj _ _ _ _ _ he hown)
  · intro w₁ w₂ t' job₁ job₂ he₁ he₂
    exact h.held_inj _ _ _ _ _ (hheld _ _ he₁).2 (hheld _ _ he₂).2
  · intro w' t' job' result' err' hw'
    rw [hworker] at hw'
    by_cases hw : w' = w
    · subst hw
      simp at hw'
    · rw [Function.update_of_ne hw] at hw'
      exact h.result_eq _ _ _ _ _ hw'
  · intro t' ht'
    rcases called_append.mp ht' with ht' | heq
    · obtain ⟨w₀, job₀, hpop⟩ := h.called_popped _ ht'
      exact ⟨w₀, job₀, List.mem_append_left _ hpop⟩
    · obtain rfl : t = t' := Option.some.inj heq
      exact ⟨w, job, List.mem_append_left _ (h.held_popped _ _ _ hown)⟩
  · have huncalled := h.held_uncalled _ _ _ hown
    rw [List.filterMap_append]
    refine List.nodup_append.mpr ⟨h.called_nodup, by simp [DeliveryEvent.calledTicket], ?_⟩
    intro t₁ h₁ t₂ h₂
    obtain rfl : t₂ = t := by simpa [DeliveryEvent.calledTicket] using h₂
    rintro rfl
    exact huncalled h₁

theorem WorkerInv.step [DecidableEq R] (h : WorkerInv env pool evs s)
    (hqueue : QueueInv (evs ++ [ev]) s') (hstep : DeliveryStep env pool s ev s') :
    WorkerInv env pool (evs ++ [ev]) s' := by
  cases hstep with
  | openCtx => exact h.of_idle rfl rfl
  | push => exact h.of_idle rfl rfl
  | pushOther => exact h.of_idle rfl rfl
  | pop => exact h.pop hqueue.pop_notMem rfl
  | popFailed => exact h.of_idle rfl rfl
  | @dispatch w call t job result err hpopped hresult =>
      apply h.of_held_le rfl
      · intro w' e he
        by_cases hw : w' = w
        · subst hw
          simpa [hpopped, WorkerState.held] using he
        · simpa [hw] using he
      · intro w' t' job' result' err' hw'
        by_cases hw : w' = w
        · subst hw
          simp only [Function.update_self] at hw'
          cases hw'
          exact ⟨call, hresult⟩
        · exact h.result_eq w' t' job' result' err' (by simpa [hw] using hw')
  | callback _ hdone => exact h.callback hdone rfl
  | @noCallback w t job result err hdone =>
      apply h.of_held_le rfl
      · intro w' e he
        by_cases hw : w' = w
        · subst hw
          simp [WorkerState.held] at he
        · simpa [hw] using he
      · intro w' t' job' result' err' hw'
        by_cases hw : w' = w
        · subst hw
          simp at hw'
        · exact h.result_eq w' t' job' result' err' (by simpa [hw] using hw')
  | wake => exact h.of_idle rfl rfl
  | proceed => exact h.of_idle rfl rfl

end DoctorClaw
