import DoctorClaw.Tools.Commands

/-!
# Policy rules

The first rule whose text occurs in `action:target` decides, and the default
where none does.  `security_policy_check` looks at a buffer of 512 bytes, so a
rule that occurs further behind only counts where the rules behind it decide
as it does.
-/

namespace DoctorClaw

/-! ## Building a policy -/

def maxPolicyRules : ℕ := 128

def securityPolicyInit : SecurityPolicy := ⟨[], false⟩

/-- A full table takes no rule. -/
def securityPolicyAddRule (policy : SecurityPolicy) (rule : Bytes) (allow : Bool) :
    Option SecurityPolicy :=
  if maxPolicyRules ≤ policy.rules.length then none
  else some { policy with rules := policy.rules ++ [(CString.cut 512 rule, allow)] }

/-- The policy after these calls, the rejected ones included. -/
def securityPolicyBuild (policy : SecurityPolicy) : List (Bytes × Bool) → SecurityPolicy
  | [] => policy
  | (rule, allow) :: calls =>
      securityPolicyBuild ((securityPolicyAddRule policy rule allow).getD policy) calls

theorem securityPolicyBuild_eq {policy : SecurityPolicy} {calls : List (Bytes × Bool)}
    (hroom : policy.rules.length ≤ maxPolicyRules) (hrules : ∀ c ∈ calls, c.1.length ≤ 511) :
    securityPolicyBuild policy calls =
      { policy with rules := (policy.rules ++ calls).take maxPolicyRules } := by
  induction calls generalizing policy with
  | nil => rw [securityPolicyBuild, List.append_nil, List.take_of_length_le hroom]
  | cons call calls ih =>
      obtain ⟨rule, allow⟩ := call
      have hrest : ∀ c ∈ calls, c.1.length ≤ 511 := fun c hc ↦
        hrules c (List.mem_cons_of_mem _ hc)
      rw [securityPolicyBuild, securityPolicyAddRule]
      split_ifs with hfull
      · have hcut : ∀ calls : List (Bytes × Bool),
            (policy.rules ++ calls).take maxPolicyRules = policy.rules := fun calls ↦ by
          rw [← Nat.le_antisymm hroom hfull, List.take_left]
        rw [Option.getD_none, ih hroom hrest, hcut, hcut]
      · have hrule : CString.cut 512 rule = rule :=
          CString.cut_of_lt (Nat.lt_succ_of_le (hrules _ List.mem_cons_self))
        rw [Option.getD_some, ih (by simp; omega) hrest, hrule]
        simp only [List.append_assoc, List.singleton_append]

/-! ## The first rule that occurs -/

/-- The verdict of the first rule that occurs in the text. -/
def firstVerdict (default : Bool) (text : Bytes) : List (Bytes × Bool) → Bool
  | [] => default
  | rule :: rules => if rule.1 <:+: text then rule.2 else firstVerdict default text rules

/-- Where the first rule that occurs in the text does not occur in its front,
the rules behind it decide the same on the front. -/
def LateRuleAgrees (default : Bool) (front text : Bytes) (rules : List (Bytes × Bool)) : Prop :=
  ∀ ahead rule behind, rules = ahead ++ rule :: behind → (∀ r ∈ ahead, ¬ r.1 <:+: text) →
    rule.1 <:+: text → ¬ rule.1 <:+: front → firstVerdict default front behind = rule.2

theorem firstVerdict_front_iff {front text : Bytes} (hfront : front <:+: text) (default : Bool)
    (rules : List (Bytes × Bool)) :
    firstVerdict default front rules = firstVerdict default text rules ↔
      LateRuleAgrees default front text rules := by
  induction rules with
  | nil =>
      refine iff_of_true rfl fun ahead rule behind heq ↦ ?_
      exact absurd heq (by simp)
  | cons rule rules ih =>
      rw [firstVerdict, firstVerdict]
      by_cases htext : rule.1 <:+: text
      · -- no rule behind this one is the first
        have hfirst : ∀ {ahead : List (Bytes × Bool)} {r behind}, rule :: rules =
            ahead ++ r :: behind → (∀ a ∈ ahead, ¬ a.1 <:+: text) → rule = r ∧ rules = behind := by
          intro ahead r behind heq hahead
          cases ahead with
          | nil => exact List.cons.inj heq
          | cons a ahead =>
              have ha : rule = a := (List.cons.inj heq).1
              exact absurd htext (ha ▸ hahead a List.mem_cons_self)
        rw [if_pos htext]
        split_ifs with hhere
        · refine iff_of_true rfl fun ahead r behind heq hahead _ hlate ↦ ?_
          obtain ⟨rfl, -⟩ := hfirst heq hahead
          exact absurd hhere hlate
        · constructor
          · intro h ahead r behind heq hahead _ _
            obtain ⟨rfl, rfl⟩ := hfirst heq hahead
            exact h
          · exact fun h ↦ h [] rule rules rfl (List.forall_mem_nil _) htext hhere
      · have hhere : ¬ rule.1 <:+: front := fun h ↦ htext (h.trans hfront)
        rw [if_neg htext, if_neg hhere, ih]
        constructor
        · intro h ahead r behind heq hahead hr
          cases ahead with
          | nil => exact absurd hr ((List.cons.inj heq).1 ▸ htext)
          | cons a ahead =>
              exact h ahead r behind (List.cons.inj heq).2
                (fun b hb ↦ hahead b (List.mem_cons_of_mem _ hb)) hr
        · intro h ahead r behind heq hahead
          exact h (rule :: ahead) r behind (by rw [heq, List.cons_append])
            (List.forall_mem_cons.mpr ⟨htext, hahead⟩)

theorem securityPolicyCheck_eq (policy : SecurityPolicy) (action target : Bytes) :
    securityPolicyCheck policy action target =
      firstVerdict policy.defaultAllow (CString.cut 512 (action ++ [58] ++ target))
        policy.rules := by
  rw [securityPolicyCheck]
  generalize CString.cut 512 (action ++ [58] ++ target) = check
  induction policy.rules with
  | nil => rfl
  | cons rule rules ih =>
      rw [firstVerdict, List.find?_cons]
      by_cases h : rule.1 <:+: check
      · rw [if_pos h, CString.strstr_isSome_iff.mpr h]
      · rw [if_neg h, Bool.eq_false_iff.mpr fun hfound ↦ h (CString.strstr_isSome_iff.mp hfound)]
        exact ih

/-- Rules decide on the whole command, as far as those that only occur behind
its first 511 bytes change nothing. -/
theorem policy_sees_whole_command_iff (default : Bool) (calls : List (Bytes × Bool))
    (hrules : ∀ c ∈ calls, c.1.length ≤ 511) (action target : Bytes) :
    let policy := securityPolicyBuild { securityPolicyInit with defaultAllow := default } calls
    let rules := calls.take 128
    let text := action ++ [58] ++ target
    securityPolicyCheck policy action target = firstVerdict default text rules ↔
      LateRuleAgrees default (text.take 511) text rules := by
  intro policy rules text
  have hpolicy : policy = ⟨rules, default⟩ := securityPolicyBuild_eq (Nat.zero_le _) hrules
  rw [securityPolicyCheck_eq, hpolicy]
  exact firstVerdict_front_iff (List.take_prefix 511 text).isInfix default rules

theorem policy_sees_whole_command_iff_rm :
    let calls := [(ascii "rm -rf", false), (ascii "shell:", true)]
    let policy := securityPolicyBuild { securityPolicyInit with defaultAllow := false } calls
    let text := ascii "shell" ++ [58] ++ ascii "rm -rf build"
    (∀ c ∈ calls, c.1.length ≤ 511) ∧
      (securityPolicyCheck policy (ascii "shell") (ascii "rm -rf build") =
          firstVerdict false text (calls.take 128) ↔
        LateRuleAgrees false (text.take 511) text (calls.take 128)) :=
  ⟨by decide, policy_sees_whole_command_iff false _ (by decide) _ _⟩

/-- A denied command behind 600 blanks is let through. -/
theorem policy_misses_late_rule :
    ¬ ∀ (default : Bool) (calls : List (Bytes × Bool)) (action target : Bytes),
      (∀ c ∈ calls, c.1.length ≤ 511) →
      securityPolicyCheck
          (securityPolicyBuild { securityPolicyInit with defaultAllow := default } calls)
          action target =
        firstVerdict default (action ++ [58] ++ target) (calls.take 128) := by
  intro h
  have hlate := h false [(ascii "rm -rf", false), (ascii "shell:", true)] (ascii "shell")
    (List.replicate 600 32 ++ ascii "rm -rf /") (by decide)
  revert hlate
  decide +kernel

end DoctorClaw
