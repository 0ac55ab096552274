import Mathlib.Logic.Function.Basic
import Mathlib.Tactic.Common

/-!
# Fixed-window counters

A counter opens a window at the first hit at or after the end of the previous
one and counts the hits inside it.  The per-key specification keeps one
counter for each key.  A direct-mapped table keeps one slot for each hash
value and hands the slot over on a collision; as long as no slot is taken from
another key whose window is open, the two agree on every key.
-/

namespace FixedWindow

structure Counter where
  count : ℕ
  windowEnd : ℕ
  deriving DecidableEq

def Counter.closed : Counter := ⟨0, 0⟩

def Counter.hit (width : ℕ) (c : Counter) (now : ℕ) : Counter :=
  if c.windowEnd ≤ now then ⟨1, now + width⟩ else ⟨c.count + 1, c.windowEnd⟩

/-- The verdicts on the hits of one key: `true` is over the limit. -/
def verdicts (limit width : ℕ) : Counter → List ℕ → List Bool
  | _, [] => []
  | c, now :: rest =>
      decide (limit < (c.hit width now).count) :: verdicts limit width (c.hit width now) rest

/-! ## Any window -/

section Windows

variable {limit width : ℕ}

/-- The hits that are not over the limit. -/
def admitted (limit width : ℕ) (c : Counter) (times : List ℕ) : List ℕ :=
  ((times.zip (verdicts limit width c times)).filter fun v ↦ !v.2).map Prod.fst

/-- The hits from `a` on, for the length of a window, that are not over the limit. -/
def admittedFrom (limit width a : ℕ) (c : Counter) (times : List ℕ) : ℕ :=
  (admitted limit width c times).countP fun t ↦ a ≤ t ∧ t < a + width

theorem admittedFrom_cons (a : ℕ) (c : Counter) (now : ℕ) (rest : List ℕ) :
    admittedFrom limit width a c (now :: rest) =
      admittedFrom limit width a (c.hit width now) rest +
        if (c.hit width now).count ≤ limit ∧ a ≤ now ∧ now < a + width then 1 else 0 := by
  have hcons : admitted limit width c (now :: rest) =
      if (c.hit width now).count ≤ limit then now :: admitted limit width (c.hit width now) rest
      else admitted limit width (c.hit width now) rest := by
    by_cases hle : (c.hit width now).count ≤ limit
    · simp [admitted, verdicts, hle, Nat.not_lt.mpr hle]
    · simp [admitted, verdicts, hle, Nat.lt_of_not_le hle]
  rw [admittedFrom, hcons]
  by_cases hle : (c.hit width now).count ≤ limit
  · simp [hle, List.countP_cons, admittedFrom]
  · simp [hle, admittedFrom]

/-- A window that is open to the end admits what is left of the limit. -/
theorem admittedFrom_le_of_open {a : ℕ} {c : Counter} {times : List ℕ}
    (hopen : a + width ≤ c.windowEnd) (htimes : times.Pairwise (· ≤ ·)) :
    admittedFrom limit width a c times ≤ limit - c.count := by
  induction times generalizing c with
  | nil => exact Nat.zero_le _
  | cons now rest ih =>
      obtain ⟨hlater, hrest⟩ := List.pairwise_cons.mp htimes
      rw [admittedFrom_cons]
      by_cases hnow : now < a + width
      · have hhit : c.hit width now = ⟨c.count + 1, c.windowEnd⟩ := if_neg (by omega)
        have hle := ih (c := c.hit width now) (by rw [hhit]; exact hopen) hrest
        rw [hhit] at hle ⊢
        dsimp only at hle ⊢
        split_ifs <;> omega
      · have hnone : admittedFrom limit width a (c.hit width now) rest = 0 := by
          rw [admittedFrom, List.countP_eq_zero]
          intro t ht
          obtain ⟨v, hv, rfl⟩ := List.mem_map.mp ht
          have hmem := hlater v.1 (List.of_mem_zip (List.mem_filter.mp hv).1).1
          simp only [decide_eq_true_eq]
          omega
        rw [hnone, if_neg (by omega)]
        exact Nat.zero_le _

/-- From a hit on, what is left of the open window and one more window are
admitted. -/
theorem admittedFrom_le_of_started {a : ℕ} {c : Counter} {times : List ℕ}
    (htimes : times.Pairwise (· ≤ ·)) (hstart : ∀ t ∈ times, a ≤ t) :
    admittedFrom limit width a c times ≤ limit - c.count + limit := by
  induction times generalizing c with
  | nil => exact Nat.zero_le _
  | cons now rest ih =>
      obtain ⟨hlater, hrest⟩ := List.pairwise_cons.mp htimes
      have hnow := hstart now (.head _)
      rw [admittedFrom_cons]
      by_cases hopen : c.windowEnd ≤ now
      · have hhit : c.hit width now = ⟨1, now + width⟩ := if_pos hopen
        have hroom : a + width ≤ (c.hit width now).windowEnd := by
          rw [hhit]
          exact Nat.add_le_add_right hnow width
        have hle : admittedFrom limit width a (c.hit width now) rest ≤
            limit - (c.hit width now).count := admittedFrom_le_of_open hroom hrest
        rw [hhit] at hle ⊢
        dsimp only at hle ⊢
        split_ifs <;> omega
      · have hhit : c.hit width now = ⟨c.count + 1, c.windowEnd⟩ := if_neg hopen
        have hle := ih (c := c.hit width now) hrest fun t ht ↦ hstart t (.tail _ ht)
        rw [hhit] at hle ⊢
        dsimp only at hle ⊢
        split_ifs <;> omega

/-- Twice the limit at most is admitted during the length of a window, wherever
it begins. -/
theorem admittedFrom_le {a : ℕ} {c : Counter} {times : List ℕ} (htimes : times.Pairwise (· ≤ ·)) :
    admittedFrom limit width a c times ≤ 2 * limit := by
  induction times generalizing c with
  | nil => exact Nat.zero_le _
  | cons now rest ih =>
      obtain ⟨hlater, hrest⟩ := List.pairwise_cons.mp htimes
      by_cases hnow : now < a
      · rw [admittedFrom_cons, if_neg (by omega)]
        exact ih hrest
      · have hstart : ∀ t ∈ now :: rest, a ≤ t := by
          intro t ht
          rcases List.mem_cons.mp ht with rfl | ht
          · omega
          · exact Nat.le_trans (Nat.le_of_not_lt hnow) (hlater t ht)
        have hle : admittedFrom limit width a c (now :: rest) ≤ limit - c.count + limit :=
          admittedFrom_le_of_started htimes hstart
        omega

end Windows

/-! ## One counter for each key -/

section Keyed

variable {K : Type*} [DecidableEq K] (limit width : ℕ)

def hitKey (spec : K → Counter) (k : K) (now : ℕ) : K → Counter :=
  Function.update spec k ((spec k).hit width now)

def keyedVerdicts : (K → Counter) → List (K × ℕ) → List (K × Bool)
  | _, [] => []
  | spec, (k, now) :: rest =>
      (k, decide (limit < ((spec k).hit width now).count)) ::
        keyedVerdicts (hitKey width spec k now) rest

/-- What a key is told depends on its own hits alone. -/
theorem verdicts_of_key (k : K) (spec : K → Counter) (hits : List (K × ℕ)) :
    ((keyedVerdicts limit width spec hits).filter fun v ↦ v.1 = k).map Prod.snd =
      verdicts limit width (spec k) ((hits.filter fun a ↦ a.1 = k).map Prod.snd) := by
  induction hits generalizing spec with
  | nil => rfl
  | cons a rest ih =>
      obtain ⟨k', now⟩ := a
      by_cases hk : k' = k
      · subst hk
        simp [keyedVerdicts, verdicts, ih, hitKey]
      · have hne : k ≠ k' := fun h ↦ hk h.symm
        simp [keyedVerdicts, ih, hitKey, hk, hne]

/-- The hits of a key that are admitted from `a` on, for the length of a window. -/
def keyedAdmittedFrom (a : ℕ) (spec : K → Counter) (k : K) (hits : List (K × ℕ)) : ℕ :=
  (hits.zip (keyedVerdicts limit width spec hits)).countP fun p ↦
    p.1.1 = k ∧ p.2.2 = false ∧ a ≤ p.1.2 ∧ p.1.2 < a + width

theorem keyedAdmittedFrom_eq (a : ℕ) (spec : K → Counter) (k : K) (hits : List (K × ℕ)) :
    keyedAdmittedFrom limit width a spec k hits =
      admittedFrom limit width a (spec k) ((hits.filter fun h ↦ h.1 = k).map Prod.snd) := by
  induction hits generalizing spec with
  | nil => rfl
  | cons h rest ih =>
      obtain ⟨k', now⟩ := h
      have hrest := ih (hitKey width spec k' now)
      unfold keyedAdmittedFrom at hrest ⊢
      rw [keyedVerdicts, List.zip_cons_cons, List.countP_cons, hrest]
      by_cases hk : k' = k
      · subst hk
        have hspec : hitKey width spec k' now k' = (spec k').hit width now := by simp [hitKey]
        simp [admittedFrom_cons, hspec]
      · have hspec : hitKey width spec k' now k = spec k := by
          simp [hitKey, Function.update_of_ne (Ne.symm hk)]
        simp [hk, hspec]

theorem keyedAdmittedFrom_le {a : ℕ} {spec : K → Counter} {k : K} {hits : List (K × ℕ)}
    (htimes : (hits.map Prod.snd).Pairwise (· ≤ ·)) :
    keyedAdmittedFrom limit width a spec k hits ≤ 2 * limit := by
  rw [keyedAdmittedFrom_eq]
  exact admittedFrom_le (htimes.sublist (List.filter_sublist.map _))

end Keyed

/-! ## The direct-mapped table -/

structure Slot (K : Type*) where
  key : K
  counter : Counter

variable {K I : Type*} {hash : K → I} {width : ℕ}

def Slot.hit [DecidableEq K] (width : ℕ) (slot : Slot K) (k : K) (now : ℕ) : Slot K :=
  if slot.counter.windowEnd ≤ now ∨ slot.key ≠ k then ⟨k, ⟨1, now + width⟩⟩
  else ⟨k, ⟨slot.counter.count + 1, slot.counter.windowEnd⟩⟩

/-- At time `now` the open windows of the table are the open windows of the
specification. -/
structure Agrees (hash : K → I) (now : ℕ) (table : I → Slot K) (spec : K → Counter) : Prop where
  of_spec : ∀ k, now < (spec k).windowEnd → table (hash k) = ⟨k, spec k⟩
  of_table : ∀ i, now < (table i).counter.windowEnd →
    hash (table i).key = i ∧ spec (table i).key = (table i).counter

theorem Agrees.later {table : I → Slot K} {spec : K → Counter} {now now' : ℕ}
    (h : Agrees hash now table spec) (hle : now ≤ now') : Agrees hash now' table spec where
  of_spec k hk := h.of_spec k (Nat.lt_of_le_of_lt hle hk)
  of_table i hi := h.of_table i (Nat.lt_of_le_of_lt hle hi)

/-- A hit that takes no open slot from another key counts as the specification
does. -/
theorem Agrees.hit_eq [DecidableEq K] {table : I → Slot K} {spec : K → Counter} {now : ℕ}
    (h : Agrees hash now table spec) {k : K}
    (hown : now < (table (hash k)).counter.windowEnd → (table (hash k)).key = k) :
    (table (hash k)).hit width k now = ⟨k, (spec k).hit width now⟩ := by
  unfold Slot.hit Counter.hit
  by_cases hopen : (table (hash k)).counter.windowEnd ≤ now
  · have hclosed : (spec k).windowEnd ≤ now := by
      by_contra hlt
      rw [h.of_spec k (by omega)] at hopen
      exact hlt hopen
    rw [if_pos (.inl hopen), if_pos hclosed]
  · have hkey := hown (by omega)
    obtain ⟨-, hspec⟩ := h.of_table (hash k) (by omega)
    rw [hkey] at hspec
    have hcond : ¬ ((table (hash k)).counter.windowEnd ≤ now ∨ (table (hash k)).key ≠ k) := by
      rintro (hle | hne)
      · exact hopen hle
      · exact hne hkey
    rw [if_neg hcond, hspec, if_neg hopen]

theorem Agrees.hit [DecidableEq K] [DecidableEq I] {table : I → Slot K} {spec : K → Counter} {now : ℕ}
    (h : Agrees hash now table spec) {k : K}
    (hown : now < (table (hash k)).counter.windowEnd → (table (hash k)).key = k) :
    Agrees hash now (Function.update table (hash k) ((table (hash k)).hit width k now))
      (hitKey width spec k now) := by
  rw [h.hit_eq hown]
  constructor
  · intro k' hk'
    by_cases hk : k' = k
    · subst hk
      simp [hitKey]
    · rw [hitKey, Function.update_of_ne hk] at hk' ⊢
      have hslot := h.of_spec k' hk'
      have hne : hash k' ≠ hash k := by
        intro heq
        rw [heq] at hslot
        rw [hslot] at hown
        exact hk (hown hk')
      rw [Function.update_of_ne hne, hslot]
  · intro i hi
    by_cases hik : i = hash k
    · subst hik
      simp [hitKey]
    · rw [Function.update_of_ne hik] at hi ⊢
      obtain ⟨hhash, hspec⟩ := h.of_table i hi
      have hne : (table i).key ≠ k := fun heq ↦ hik (by rw [← hhash, heq])
      rw [hitKey, Function.update_of_ne hne]
      exact ⟨hhash, hspec⟩

end FixedWindow
