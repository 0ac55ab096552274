import Mathlib.Data.List.Basic
import Mathlib.Tactic.Common

/-!
# Programs that call their environment

A program returns a value, dies, or makes a call and goes on with the reply.
What the environment replies may depend on all calls made before, so that any
outside world can be plugged in.

A rule about calls, which may look at the calls made before, is checked on the
program itself: every call it can make, whatever the replies, has to follow
it.  This is the same as following the rule in every environment.
-/

namespace Interaction

inductive Prog (C : Type) (R : C → Type) (α : Type)
  | ret (a : α)
  | halt
  | call (c : C) (k : R c → Prog C R α)

variable {C : Type} {R : C → Type} {α β : Type}

namespace Prog

def bind (p : Prog C R α) (f : α → Prog C R β) : Prog C R β :=
  match p with
  | .ret a => f a
  | .halt => .halt
  | .call c k => .call c fun r ↦ (k r).bind f

instance : Monad (Prog C R) where
  pure := .ret
  bind := .bind

def perform (c : C) : Prog C R (R c) := .call c .ret

theorem bind_assoc {γ : Type} (p : Prog C R α) (f : α → Prog C R β) (g : β → Prog C R γ) :
    p >>= f >>= g = p >>= fun a ↦ f a >>= g := by
  induction p with
  | ret a => rfl
  | halt => rfl
  | call c k ih => exact congrArg (Prog.call c) (funext ih)

end Prog

/-! ## Running a program -/

/-- An environment replies to a call after the calls made before. -/
abbrev Env (C : Type) (R : C → Type) := List C → (c : C) → R c

/-- The calls a program makes after those of `past`, and its value. -/
def Prog.run (env : Env C R) (past : List C) : Prog C R α → List C × Option α
  | .ret a => ([], some a)
  | .halt => ([], none)
  | .call c k =>
      let rest := (k (env past c)).run env (past ++ [c])
      (c :: rest.1, rest.2)

theorem Prog.run_perform_bind (env : Env C R) (past : List C) (c : C) (f : R c → Prog C R α) :
    (Prog.perform c >>= f).run env past =
      (c :: ((f (env past c)).run env (past ++ [c])).1,
        ((f (env past c)).run env (past ++ [c])).2) := rfl

theorem Prog.run_congr {env env' : Env C R} (p : Prog C R α) {past : List C}
    (h : ∀ past', past.length ≤ past'.length → env past' = env' past') :
    p.run env past = p.run env' past := by
  induction p generalizing past with
  | ret a => rfl
  | halt => rfl
  | call c k ih =>
      have hlonger : ∀ past', (past ++ [c]).length ≤ past'.length → env past' = env' past' := by
        intro past' hle
        apply h
        rw [List.length_append] at hle
        omega
      simp only [run, h past (Nat.le_refl _), ih _ hlonger]

/-- A program that returns is followed by what is made of its value. -/
theorem Prog.run_bind (env : Env C R) (past : List C) (p : Prog C R α) (f : α → Prog C R β) {a : α}
    (h : (p.run env past).2 = some a) :
    (p >>= f).run env past =
      ((p.run env past).1 ++ ((f a).run env (past ++ (p.run env past).1)).1,
        ((f a).run env (past ++ (p.run env past).1)).2) := by
  induction p generalizing past with
  | ret b =>
      obtain rfl : b = a := Option.some.inj h
      rw [Prog.run, List.append_nil]
      rfl
  | halt => cases h
  | call c k ih =>
      have hrest := ih (env past c) (past ++ [c]) h
      have hcalls : past ++ c :: ((k (env past c)).run env (past ++ [c])).1 =
          past ++ [c] ++ ((k (env past c)).run env (past ++ [c])).1 := by
        rw [List.append_assoc, List.singleton_append]
      rw [Prog.run]
      dsimp only
      rw [hcalls, List.cons_append]
      exact congrArg (fun run ↦ (c :: run.1, run.2)) hrest

theorem Prog.run_bind_ret (env : Env C R) (past : List C) (p : Prog C R α) (f : α → β) :
    ((p >>= fun a ↦ .ret (f a)).run env past).2 = (p.run env past).2.map f := by
  induction p generalizing past with
  | ret a => rfl
  | halt => rfl
  | call c k ih => exact ih _ _

theorem Prog.run_bind_ret_calls (env : Env C R) (past : List C) (p : Prog C R α) (f : α → β) :
    ((p >>= fun a ↦ .ret (f a)).run env past).1 = (p.run env past).1 := by
  induction p generalizing past with
  | ret a => rfl
  | halt => rfl
  | call c k ih => exact congrArg (List.cons c) (ih _ _)

/-! ## Rules about calls -/

/-- Every call that `p` can make after `past` follows the rule. -/
def Prog.Follows (rule : List C → C → Prop) (past : List C) : Prog C R α → Prop
  | .ret _ => True
  | .halt => True
  | .call c k => rule past c ∧ ∀ r, (k r).Follows rule (past ++ [c])

section Follows

variable {rule : List C → C → Prop} {past : List C}

@[simp] theorem follows_ret (a : α) : (Prog.ret a : Prog C R α).Follows rule past := trivial

theorem follows_perform_iff {c : C} {f : R c → Prog C R α} :
    (Prog.perform c >>= f).Follows rule past ↔
      rule past c ∧ ∀ r, (f r).Follows rule (past ++ [c]) := Iff.rfl

theorem follows_perform {c : C} {f : R c → Prog C R α} (hc : rule past c)
    (hf : ∀ r, (f r).Follows rule (past ++ [c])) : (Prog.perform c >>= f).Follows rule past :=
  ⟨hc, hf⟩

theorem follows_ite {b : Prop} {_ : Decidable b} {p q : Prog C R α} (hp : b → p.Follows rule past)
    (hq : ¬ b → q.Follows rule past) : (if b then p else q).Follows rule past := by
  split_ifs with h
  · exact hp h
  · exact hq h

theorem follows_bind_of {rule : C → Prop} {p : Prog C R α} {f : α → Prog C R β}
    (hp : p.Follows (fun _ ↦ rule) past)
    (hf : ∀ a past, (f a).Follows (fun _ ↦ rule) past) :
    (p >>= f).Follows (fun _ ↦ rule) past := by
  induction p generalizing past with
  | ret a => exact hf a past
  | halt => trivial
  | call c k ih => exact ⟨hp.1, fun r ↦ ih r (hp.2 r)⟩

theorem Prog.Follows.of_bind {p : Prog C R α} {f : α → Prog C R β}
    (h : (p >>= f).Follows rule past) : p.Follows rule past := by
  induction p generalizing past with
  | ret a => trivial
  | halt => trivial
  | call c k ih => exact ⟨h.1, fun r ↦ ih r (h.2 r)⟩

/-- What follows the rule by itself does not matter behind a program. -/
theorem follows_bind_iff {rule : C → Prop} {p : Prog C R α} {f : α → Prog C R β}
    (hf : ∀ a past, (f a).Follows (fun _ ↦ rule) past) :
    (p >>= f).Follows (fun _ ↦ rule) past ↔ p.Follows (fun _ ↦ rule) past :=
  ⟨fun h ↦ h.of_bind, fun h ↦ follows_bind_of h hf⟩

/-- A rule that does not look at the calls made before. -/
theorem Prog.Follows.anywhere {rule : C → Prop} {p : Prog C R α}
    (h : p.Follows (fun _ ↦ rule) past) (past' : List C) : p.Follows (fun _ ↦ rule) past' := by
  induction p generalizing past past' with
  | ret a => trivial
  | halt => trivial
  | call c k ih => exact ⟨h.1, fun r ↦ ih r (h.2 r) _⟩

theorem Prog.Follows.mono {rule' : List C → C → Prop} {p : Prog C R α} (hp : p.Follows rule past)
    (h : ∀ past c, rule past c → rule' past c) : p.Follows rule' past := by
  induction p generalizing past with
  | ret a => trivial
  | halt => trivial
  | call c k ih => exact ⟨h _ _ hp.1, fun r ↦ ih r (hp.2 r)⟩

theorem follows_bind_ret {p : Prog C R α} {f : α → β} :
    (p >>= fun a ↦ .ret (f a)).Follows rule past ↔ p.Follows rule past := by
  induction p generalizing past with
  | ret a => exact Iff.rfl
  | halt => exact Iff.rfl
  | call c k ih => exact and_congr_right fun _ ↦ forall_congr' fun r ↦ ih r

theorem Prog.Follows.run {p : Prog C R α} (hp : p.Follows rule past) (env : Env C R)
    {pre post : List C} {c : C} (h : (p.run env past).1 = pre ++ c :: post) :
    rule (past ++ pre) c := by
  induction p generalizing past pre with
  | ret a => simp [Prog.run] at h
  | halt => simp [Prog.run] at h
  | call d k ih =>
      cases pre with
      | nil =>
          obtain ⟨rfl, -⟩ : d = c ∧ _ := by simpa [Prog.run] using h
          simpa using hp.1
      | cons e pre =>
          obtain ⟨rfl, hrest⟩ : d = e ∧ _ := by simpa [Prog.run] using h
          have hlater := ih _ (hp.2 (env past d)) hrest
          simpa using hlater

/-- A property of the calls made so far that each further call keeps holds of
all the calls of a run. -/
theorem Prog.Follows.run_invariant {I : List C → Prop} {p : Prog C R α}
    (hp : p.Follows (fun past c ↦ I (past ++ [c])) past) (h₀ : I past) (env : Env C R) :
    I (past ++ (p.run env past).1) := by
  induction p generalizing past with
  | ret a => simpa [Prog.run] using h₀
  | halt => simpa [Prog.run] using h₀
  | call c k ih =>
      have hrest := ih _ (hp.2 (env past c)) hp.1
      simpa [Prog.run] using hrest

/-- Every call that `p` can make after `past` follows the rule, and what it
returns satisfies `Q` together with all calls made by then. -/
def Prog.Meets (rule : List C → C → Prop) (Q : List C → α → Prop) (past : List C) :
    Prog C R α → Prop
  | .ret a => Q past a
  | .halt => True
  | .call c k => rule past c ∧ ∀ r, (k r).Meets rule Q (past ++ [c])

theorem meets_perform {Q : List C → α → Prop} {c : C} {f : R c → Prog C R α} (hc : rule past c)
    (hf : ∀ r, (f r).Meets rule Q (past ++ [c])) : (Prog.perform c >>= f).Meets rule Q past :=
  ⟨hc, hf⟩

theorem follows_bind {Q : List C → α → Prop} {p : Prog C R α} {f : α → Prog C R β}
    (hp : p.Meets rule Q past) (hf : ∀ past a, Q past a → (f a).Follows rule past) :
    (p >>= f).Follows rule past := by
  induction p generalizing past with
  | ret a => exact hf past a hp
  | halt => trivial
  | call c k ih => exact ⟨hp.1, fun r ↦ ih r (hp.2 r)⟩

open Classical in
/-- The environment that gives the reply `r` to `c` after `past`. -/
noncomputable def answering (past : List C) (c : C) (r : R c) (env : Env C R) : Env C R :=
  fun past' c' ↦ if h : past' = past ∧ c = c' then h.2 ▸ r else env past' c'

theorem answering_self (past : List C) (c : C) (r : R c) (env : Env C R) :
    answering past c r env past c = r := by simp [answering]

theorem answering_of_lt {past past' : List C} (h : past.length < past'.length) (c : C) (r : R c)
    (env : Env C R) : answering past c r env past' = env past' := by
  funext c'
  have hne : past' ≠ past := fun heq ↦ by simp [heq] at h
  simp [answering, hne]

/-- The rule is followed exactly when no environment makes the program break
it. -/
theorem follows_iff_run [∀ c, Nonempty (R c)] {p : Prog C R α} :
    p.Follows rule past ↔ ∀ (env : Env C R) (pre : List C) (c : C) (post : List C),
      (p.run env past).1 = pre ++ c :: post → rule (past ++ pre) c := by
  constructor
  · intro hp env pre c post h
    exact hp.run env h
  · intro h
    induction p generalizing past with
    | ret a => trivial
    | halt => trivial
    | call c k ih =>
        let env₀ : Env C R := fun _ c ↦ Classical.choice inferInstance
        have hfirst : rule past c := by simpa using h env₀ [] c _ rfl
        refine ⟨hfirst, fun r ↦ ih r fun env pre d post hrun ↦ ?_⟩
        have hsame : (k r).run (answering past c r env) (past ++ [c]) =
            (k r).run env (past ++ [c]) := by
          apply Prog.run_congr
          intro past' hle
          apply answering_of_lt
          rw [List.length_append, List.length_singleton] at hle
          omega
        have hlater := h (answering past c r env) (c :: pre) d post (by
          simp only [Prog.run, answering_self, hsame, hrun, List.cons_append])
        simpa using hlater

end Follows

/-! ## Values -/

/-- Every value that `p` can return, whatever the replies, satisfies `Q`. -/
def Prog.Returns (Q : α → Prop) : Prog C R α → Prop
  | .ret a => Q a
  | .halt => True
  | .call _ k => ∀ r, (k r).Returns Q

theorem returns_perform {Q : α → Prop} {c : C} {f : R c → Prog C R α}
    (hf : ∀ r, (f r).Returns Q) : (Prog.perform c >>= f).Returns Q := hf

theorem returns_ite {Q : α → Prop} {b : Prop} {_ : Decidable b} {p q : Prog C R α}
    (hp : b → p.Returns Q) (hq : ¬ b → q.Returns Q) : (if b then p else q).Returns Q := by
  split_ifs with h
  · exact hp h
  · exact hq h

theorem Prog.Returns.bind {Q : α → Prop} {Q' : β → Prop} {p : Prog C R α} {f : α → Prog C R β}
    (hp : p.Returns Q) (hf : ∀ a, Q a → (f a).Returns Q') : (p >>= f).Returns Q' := by
  induction p with
  | ret a => exact hf a hp
  | halt => trivial
  | call c k ih => exact fun r ↦ ih r (hp r)

theorem returns_true (p : Prog C R α) : p.Returns fun _ ↦ True := by
  induction p with
  | ret a => trivial
  | halt => trivial
  | call c k ih => exact ih

theorem Prog.Returns.run {Q : α → Prop} {p : Prog C R α} (hp : p.Returns Q) (env : Env C R)
    (past : List C) {a : α} (h : (p.run env past).2 = some a) : Q a := by
  induction p generalizing past with
  | ret b => exact Option.some.inj h ▸ hp
  | halt => simp [Prog.run] at h
  | call c k ih => exact ih _ (hp _) _ h

/-! ## Programs that always return -/

/-- Whatever the replies, `p` returns, and what it returns satisfies `Q`
together with all calls made by then. -/
def Prog.Ensures (Q : List C → α → Prop) (past : List C) : Prog C R α → Prop
  | .ret a => Q past a
  | .halt => False
  | .call c k => ∀ r, (k r).Ensures Q (past ++ [c])

section Ensures

variable {past : List C}

theorem ensures_perform {Q : List C → α → Prop} {c : C} {f : R c → Prog C R α}
    (hf : ∀ r, (f r).Ensures Q (past ++ [c])) : (Prog.perform c >>= f).Ensures Q past := hf

theorem Prog.Ensures.bind {Q : List C → α → Prop} {Q' : List C → β → Prop} {p : Prog C R α}
    {f : α → Prog C R β} (hp : p.Ensures Q past)
    (hf : ∀ past a, Q past a → (f a).Ensures Q' past) : (p >>= f).Ensures Q' past := by
  induction p generalizing past with
  | ret a => exact hf past a hp
  | halt => exact hp.elim
  | call c k ih => exact fun r ↦ ih r (hp r)

theorem Prog.Ensures.mono {Q Q' : List C → α → Prop} {p : Prog C R α} (hp : p.Ensures Q past)
    (h : ∀ past a, Q past a → Q' past a) : p.Ensures Q' past := by
  induction p generalizing past with
  | ret a => exact h past a hp
  | halt => exact hp.elim
  | call c k ih => exact fun r ↦ ih r (hp r)

theorem Prog.Ensures.run {Q : List C → α → Prop} {p : Prog C R α} (hp : p.Ensures Q past)
    (env : Env C R) :
    ∃ a, (p.run env past).2 = some a ∧ Q (past ++ (p.run env past).1) a := by
  induction p generalizing past with
  | ret a =>
      refine ⟨a, rfl, ?_⟩
      rw [Prog.run, List.append_nil]
      exact hp
  | halt => exact hp.elim
  | call c k ih =>
      obtain ⟨a, hvalue, hpost⟩ := ih _ (hp (env past c))
      exact ⟨a, hvalue, by simpa [Prog.run] using hpost⟩

end Ensures

/-! ## Programs inside programs -/

section Embed

variable {C' : Type} {R' : C' → Type}

/-- The program `p` as a part of one with more calls. -/
def Prog.embed (f : C → C') (reply : ∀ c, R' (f c) → R c) : Prog C R α → Prog C' R' α
  | .ret a => .ret a
  | .halt => .halt
  | .call c k => .call (f c) fun r ↦ (k (reply c r)).embed f reply

/-- An embedded program adds embedded calls only. -/
theorem Prog.Ensures.embed {Q : List C → α → Prop} {p : Prog C R α} {f : C → C'}
    {reply : ∀ c, R' (f c) → R c} {past : List C} (hp : p.Ensures Q past) (before : List C') :
    (p.embed f reply).Ensures
      (fun after a ↦ ∃ calls, Q (past ++ calls) a ∧ after = before ++ calls.map f) before := by
  induction p generalizing past before with
  | ret a =>
      refine ⟨[], ?_, by simp⟩
      rw [List.append_nil]
      exact hp
  | halt => exact hp.elim
  | call c k ih =>
      intro r
      have hrest := ih (reply c r) (hp (reply c r)) (before ++ [f c])
      refine hrest.mono fun after a ⟨calls, hpost, hafter⟩ ↦ ⟨c :: calls, ?_, ?_⟩
      · simpa using hpost
      · simpa using hafter

end Embed

end Interaction
