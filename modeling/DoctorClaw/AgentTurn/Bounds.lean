import DoctorClaw.AgentTurn

/-!
# Bounds on a turn

Whatever the provider answers, a turn makes at most fifty requests, runs at
most sixteen tools for each, and never runs one tool five times in a row.
-/

namespace DoctorClaw

open Interaction

def AgentCall.isRequest : AgentCall → Bool
  | .chatCompletion .. => true
  | .chatWithTools .. => true
  | _ => false

def AgentCall.toolName : AgentCall → Option Bytes
  | .executeTool name _ => some name
  | _ => none

def executedNames (calls : List AgentCall) : List Bytes := calls.filterMap AgentCall.toolName

/-- At most `k` tools were run since the last request. -/
def RecentTools (k : ℕ) (calls : List AgentCall) : Prop :=
  ∀ part, part <:+ calls → (∀ c ∈ part, c.isRequest = false) → (executedNames part).length ≤ k

structure TurnSafe (calls : List AgentCall) : Prop where
  requests_le : calls.countP AgentCall.isRequest ≤ 50
  tools_le : ∀ part, part <:+: calls → (∀ c ∈ part, c.isRequest = false) →
    (executedNames part).length ≤ 16
  no_run : ∀ name, ¬ List.replicate 5 name <:+: executedNames calls

/-! ## Calls that keep the bounds -/

theorem executedNames_concat (calls : List AgentCall) (c : AgentCall) :
    executedNames (calls ++ [c]) = executedNames calls ++ c.toolName.toList := by
  rw [executedNames, List.filterMap_append]
  cases h : c.toolName <;> simp [h, executedNames]

theorem RecentTools.request (calls : List AgentCall) {c : AgentCall} (hc : c.isRequest = true) :
    RecentTools 0 (calls ++ [c]) := by
  intro part hpart hnone
  rcases List.suffix_concat_iff.mp hpart with rfl | ⟨part, rfl, -⟩
  · exact Nat.zero_le _
  · have hlast := hnone c (by simp)
    rw [hc] at hlast
    cases hlast

theorem RecentTools.concat {k : ℕ} {calls : List AgentCall} (h : RecentTools k calls)
    (c : AgentCall) : RecentTools (k + c.toolName.toList.length) (calls ++ [c]) := by
  intro part hpart hnone
  rcases List.suffix_concat_iff.mp hpart with rfl | ⟨part, rfl, hsuffix⟩
  · exact Nat.zero_le _
  · have hle := h part hsuffix fun d hd ↦ hnone d (by simp [hd])
    rw [executedNames_concat, List.length_append]
    omega

theorem TurnSafe.nil : TurnSafe [] where
  requests_le := Nat.zero_le _
  tools_le := by
    intro part hpart _
    rw [List.infix_nil.mp hpart]
    exact Nat.zero_le _
  no_run := by
    intro name h
    cases List.infix_nil.mp h

theorem TurnSafe.concat {calls : List AgentCall} (h : TurnSafe calls) {c : AgentCall} {k : ℕ}
    (hrequests : (calls ++ [c]).countP AgentCall.isRequest ≤ 50)
    (hrecent : RecentTools k (calls ++ [c])) (hk : k ≤ 16)
    (hrun : ∀ name, ¬ List.replicate 5 name <:+ executedNames (calls ++ [c])) :
    TurnSafe (calls ++ [c]) where
  requests_le := hrequests
  tools_le := by
    intro part hpart hnone
    rcases List.infix_concat_iff.mp hpart with hsuffix | hinfix
    · exact (hrecent part hsuffix hnone).trans hk
    · exact h.tools_le part hinfix hnone
  no_run := by
    intro name hinfix
    have hold := h.no_run name
    have hnew := hrun name
    rw [executedNames_concat] at hinfix hnew
    cases hname : c.toolName with
    | none =>
        rw [hname, Option.toList_none, List.append_nil] at hinfix
        exact hold hinfix
    | some last =>
        rw [hname, Option.toList_some] at hinfix hnew
        exact (List.infix_concat_iff.mp hinfix).elim hnew hold

/-- A call that is no tool leaves the tool names as they were. -/
theorem TurnSafe.concat_other {calls : List AgentCall} (h : TurnSafe calls) {c : AgentCall} {k : ℕ}
    (hc : c.toolName = none) (hrequests : (calls ++ [c]).countP AgentCall.isRequest ≤ 50)
    (hrecent : RecentTools k (calls ++ [c])) (hk : k ≤ 16) : TurnSafe (calls ++ [c]) := by
  refine h.concat hrequests hrecent hk fun name hsuffix ↦ h.no_run name ?_
  rw [executedNames_concat, hc, Option.toList_none, List.append_nil] at hsuffix
  exact hsuffix.isInfix

/-! ## The turn keeps the bounds -/

/-- The calls made so far are within the bounds and the guard knows the tools
among them. -/
structure TurnInv (past : List AgentCall) (g : LoopGuard) : Prop where
  safe : TurnSafe past
  untripped : g.tripped = false
  recorded : g.Recorded (executedNames past)

theorem LoopGuard.Recorded.not_run_of_check {g : LoopGuard} {names : List Bytes}
    (h : g.Recorded names) (hg : g.tripped = false) {name : Bytes}
    (hok : (loopGuardCheck g (some name)).2 = true) (other : Bytes) :
    ¬ List.replicate 5 other <:+ names ++ [name] := by
  intro hsuffix
  have hcut := hsuffix.map (CString.cut 64)
  rw [List.map_replicate] at hcut
  have hlen : 5 ≤ ((names ++ [name]).map (CString.cut 64)).length := by
    simpa using hcut.length_le
  have htrips : Trips ((names ++ [name]).map (CString.cut 64)) :=
    .inl ⟨hlen, (List.endsRepeating_iff (by decide) hlen).mpr ⟨_, hcut⟩⟩
  rw [(h.check_eq_false_iff hg name).mpr htrips] at hok
  cases hok

theorem TurnInv.other {past : List AgentCall} {g : LoopGuard} (h : TurnInv past g) {c : AgentCall}
    {k : ℕ} (hc : c.toolName = none) (hrequests : (past ++ [c]).countP AgentCall.isRequest ≤ 50)
    (hrecent : RecentTools k (past ++ [c])) (hk : k ≤ 16) : TurnInv (past ++ [c]) g := by
  refine ⟨h.safe.concat_other hc hrequests hrecent hk, h.untripped, ?_⟩
  rw [executedNames_concat, hc, Option.toList_none, List.append_nil]
  exact h.recorded

theorem TurnInv.tool {past : List AgentCall} {g : LoopGuard} (h : TurnInv past g) {k : ℕ}
    (hrecent : RecentTools k past) (hk : k < 16) {name : Bytes}
    (hok : (loopGuardCheck g (some name)).2 = true) (arguments : Bytes) :
    TurnInv (past ++ [.executeTool name arguments]) (loopGuardCheck g (some name)).1 := by
  have hnames : executedNames (past ++ [.executeTool name arguments]) =
      executedNames past ++ [name] :=
    executedNames_concat _ _
  have htripped : (loopGuardCheck g (some name)).1.tripped = false := by
    rw [tripped_loopGuardCheck, hok]
    rfl
  refine ⟨h.safe.concat ?_ (hrecent.concat _) hk ?_, htripped, ?_⟩
  · rw [List.countP_append]
    exact h.safe.requests_le
  · rw [hnames]
    exact h.recorded.not_run_of_check h.untripped hok
  · rw [hnames]
    exact h.recorded.check htripped

theorem meets_executeToolCalls (setup : TurnSetup) (calls : List ParsedToolCall) {k m : ℕ}
    (s : AgentState) {past : List AgentCall} {g : LoopGuard} (h : TurnInv past g)
    (hrecent : RecentTools k past) (hk : k + calls.length ≤ 16)
    (hm : past.countP AgentCall.isRequest = m) :
    (executeToolCalls setup calls s g).Meets (fun past c ↦ TurnSafe (past ++ [c]))
      (fun past' result ↦ (result.2.2 = true → TurnInv past' result.2.1) ∧
        past'.countP AgentCall.isRequest = m) past := by
  induction calls generalizing k s past g with
  | nil => exact ⟨fun _ ↦ h, hm⟩
  | cons c calls ih =>
      unfold executeToolCalls
      dsimp only
      cases hok : (loopGuardCheck g (some c.name)).2 with
      | false => exact ⟨fun hfalse ↦ absurd hfalse Bool.false_ne_true, hm⟩
      | true =>
          rw [List.length_cons] at hk
          have hnext := h.tool hrecent (by omega) hok c.arguments
          refine meets_perform hnext.safe fun result ↦ ?_
          refine ih (k := k + 1) _ hnext (hrecent.concat _) (by omega) ?_
          rw [List.countP_append]
          exact hm

theorem length_parseXmlToolCalls (regexec : Regexec) (fuel : ℕ) (ptr : Bytes)
    {calls : List ParsedToolCall} (h : calls.length ≤ 16) :
    (parseXmlToolCalls regexec fuel ptr calls).length ≤ 16 := by
  induction fuel generalizing ptr calls with
  | zero => exact h
  | succ fuel ih =>
      unfold parseXmlToolCalls
      dsimp only
      split_ifs with hstop
      · exact h
      · exact h
      · apply ih
        have hroom : ¬ 16 ≤ calls.length := fun hfull ↦ hstop (.inr hfull)
        rw [List.length_append, List.length_singleton]
        omega
      · exact ih _ h

theorem length_parsedCalls (setup : TurnSetup) (resp : ChatResponse) :
    (parsedCalls setup resp).length ≤ 16 := by
  unfold parsedCalls
  split_ifs
  · split
    · exact length_parseXmlToolCalls _ _ _ (Nat.zero_le _)
    · exact Nat.zero_le _
  · rw [List.length_map, List.length_take]
    exact Nat.min_le_left _ _

theorem follows_requestCall {rule : List AgentCall → AgentCall → Prop} {α : Type}
    {past : List AgentCall} (setup : TurnSetup) (provider : ProviderType) (model apiKey : Bytes)
    (s : AgentState) {f : ChatResponse → AgentM α}
    (h : ∀ c : AgentCall, c.isRequest = true → c.toolName = none →
      rule past c ∧ ∀ resp, (f resp).Follows rule (past ++ [c])) :
    (requestCall setup provider model apiKey s >>= f).Follows rule past := by
  unfold requestCall
  cases setup.dispatcherType with
  | xml => exact h _ rfl rfl
  | native => exact h _ rfl rfl

theorem follows_thinkLoop (setup : TurnSetup) (provider : ProviderType) (model apiKey : Bytes)
    (respSize n : ℕ) (s : AgentState) {past : List AgentCall} {g : LoopGuard} (h : TurnInv past g)
    (hn : past.countP AgentCall.isRequest + n ≤ 50) :
    (thinkLoop setup provider model apiKey respSize n s g).Follows
      (fun past c ↦ TurnSafe (past ++ [c])) past := by
  induction n generalizing s past g with
  | zero => exact follows_ret _
  | succ n ih =>
      refine follows_requestCall setup provider model apiKey s fun c hc hname ↦ ?_
      have hcount : (past ++ [c]).countP AgentCall.isRequest + n ≤ 50 := by
        rw [List.countP_append, List.countP_singleton, if_pos hc]
        omega
      have hrecent := RecentTools.request past hc
      have hasked := h.other hname (by omega) hrecent (by omega)
      refine ⟨hasked.safe, fun resp ↦ follows_ite (fun _ ↦ follows_ret _) fun _ ↦
        follows_ite (fun _ ↦ follows_ret _) fun _ ↦ ?_⟩
      -- The tools of this answer run after the approval context is set.
      have hset : ((past ++ [c]) ++ [AgentCall.setApprovalContext]).countP AgentCall.isRequest =
          (past ++ [c]).countP AgentCall.isRequest := by
        rw [List.countP_append]
        rfl
      have hrecent' : RecentTools 0 ((past ++ [c]) ++ [AgentCall.setApprovalContext]) :=
        hrecent.concat _
      have hready := hasked.other rfl (by omega) hrecent' (by decide)
      refine follows_perform hready.safe fun _ ↦ ?_
      have hlen := length_parsedCalls setup resp
      have htools := meets_executeToolCalls setup (parsedCalls setup resp) s hready hrecent'
        (by omega) hset
      refine follows_bind htools fun past' result hresult ↦ follows_ite (fun hok ↦ ?_) fun _ ↦
        follows_ret _
      exact ih _ (hresult.1 hok) (by omega)

theorem follows_agentThinkWithTools (setup : TurnSetup) (s : AgentState) (message : Bytes)
    (respSize : ℕ) :
    (agentThinkWithTools setup s message respSize).Follows (fun past c ↦ TurnSafe (past ++ [c]))
      [] := by
  have hstart : TurnInv [] .reset := ⟨.nil, rfl, rfl⟩
  have hrecent : RecentTools 0 [] := by
    intro part hpart _
    rw [List.suffix_nil.mp hpart]
    exact le_rfl
  have hfirst := hstart.other (c := .getenv "OPENROUTER_API_KEY") rfl (by decide)
    (hrecent.concat _) (by decide)
  have hsecond := hfirst.other (c := .getenv "OPENAI_API_KEY") rfl (by decide)
    ((hrecent.concat _).concat _) (by decide)
  refine follows_perform hfirst.safe fun openrouter ↦ ?_
  cases openrouter with
  | some apiKey => exact follows_thinkLoop _ _ _ _ _ _ _ hfirst (by decide)
  | none =>
      refine follows_perform hsecond.safe fun openai ↦ ?_
      cases openai with
      | some apiKey => exact follows_thinkLoop _ _ _ _ _ _ _ hsecond (by decide)
      | none => exact follows_ret _

/-! ## The guard stays tripped -/

theorem LoopGuard.after_of_tripped {g : LoopGuard} (h : g.tripped = true) (names : List Bytes) :
    g.after names = g := by
  induction names with
  | nil => rfl
  | cons name names ih =>
      rw [LoopGuard.after, List.foldl_cons, loopGuardCheck_of_tripped h]
      exact ih

/-- A turn makes at most fifty requests and at most sixteen tool calls between
two of them, and never calls a tool five times in a row; and a guard that has
refused once refuses every further name. -/
theorem agent_turn_bounds (setup : TurnSetup) (s : AgentState) (message : Bytes) (respSize : ℕ)
    (env : Env AgentCall AgentCall.Reply) :
    let calls := ((agentThinkWithTools setup s message respSize).run env []).1
    calls.countP AgentCall.isRequest ≤ 50 ∧
      (∀ part, part <:+: calls → (∀ c ∈ part, c.isRequest = false) →
        (executedNames part).length ≤ 16) ∧
      (∀ name, ¬ List.replicate 5 name <:+: executedNames calls) ∧
      ∀ (g : LoopGuard) (name name' : Bytes) (names : List Bytes),
        (loopGuardCheck g (some name)).2 = false →
          (loopGuardCheck ((loopGuardCheck g (some name)).1.after names) (some name')).2 = false := by
  have hsafe := (follows_agentThinkWithTools setup s message respSize).run_invariant .nil env
  rw [List.nil_append] at hsafe
  refine ⟨hsafe.requests_le, hsafe.tools_le, hsafe.no_run, fun g name name' names hfalse ↦ ?_⟩
  have htripped : (loopGuardCheck g (some name)).1.tripped = true := by
    rw [tripped_loopGuardCheck, hfalse]
    rfl
  rw [LoopGuard.after_of_tripped htripped, loopGuardCheck_of_tripped htripped]

end DoctorClaw
