import DoctorClaw.Lib.CString
import DoctorClaw.Lib.Interaction

/-!
# Programs that read cells

A program reads bytes from cells, one at a time, and goes on with what it
reads.  On a memory it has one run, and what matters about the run is its
value together with the cells that were looked at.  A loop gets a number of
rounds and dies without a value when they are used up.
-/

namespace CellReader

open Interaction

variable {C : Type} {α β : Type}

abbrev Reader (C : Type) := Prog C fun _ ↦ UInt8

def byte (c : C) : Reader C UInt8 := Prog.perform c

/-- On the memory `mem` the program returns a value with `Q`, and every cell it
looks at is one of those inside. -/
def Gives (mem : C → UInt8) (inside : C → Prop) (Q : α → Prop) : Reader C α → Prop
  | .ret a => Q a
  | .halt => False
  | .call c k => inside c ∧ Gives mem inside Q (k (mem c))

section Gives

variable {mem : C → UInt8} {inside : C → Prop} {Q Q' : α → Prop}

@[simp] theorem gives_ret (a : α) : Gives mem inside Q (.ret a) ↔ Q a := Iff.rfl

@[simp] theorem not_gives_halt : ¬ Gives mem inside Q .halt := not_false

theorem gives_byte {c : C} {f : UInt8 → Reader C α} :
    Gives mem inside Q (byte c >>= f) ↔ inside c ∧ Gives mem inside Q (f (mem c)) := Iff.rfl

theorem gives_bind {p : Reader C β} {f : β → Reader C α} :
    Gives mem inside Q (p >>= f) ↔
      Gives mem inside (fun b ↦ Gives mem inside Q (f b)) p := by
  induction p with
  | ret b => exact Iff.rfl
  | halt => exact Iff.rfl
  | call c k ih => exact and_congr_right fun _ ↦ ih (mem c)

theorem Gives.mono {p : Reader C α} (hp : Gives mem inside Q p) (h : ∀ a, Q a → Q' a) :
    Gives mem inside Q' p := by
  induction p with
  | ret a => exact h a hp
  | halt => exact hp
  | call c k ih => exact ⟨hp.1, ih (mem c) hp.2⟩

/-- There is one value, of which everything holds that is said of it. -/
theorem Gives.value {p : Reader C α} (hp : Gives mem inside Q p) (hp' : Gives mem inside Q' p) :
    ∃ a, Q a ∧ Q' a := by
  induction p with
  | ret a => exact ⟨a, hp, hp'⟩
  | halt => exact hp.elim
  | call c k ih => exact ih (mem c) hp.2 hp'.2

/-- What is said of a value is said of the value of the run, and what is said of
the cells of all the cells of the run. -/
theorem gives_iff_run {p : Reader C α} (past : List C) :
    Gives mem inside Q p ↔
      (∃ a, (p.run (fun _ c ↦ mem c) past).2 = some a ∧ Q a) ∧
        ∀ c ∈ (p.run (fun _ c ↦ mem c) past).1, inside c := by
  induction p generalizing past with
  | ret a => simp [Gives, Prog.run]
  | halt => simp [Gives, Prog.run]
  | call c k ih =>
      have hrest := ih (mem c) (past ++ [c])
      rw [Gives, hrest, Prog.run]
      dsimp only
      rw [List.forall_mem_cons]
      exact and_left_comm

end Gives

/-! ## Loops -/

/-- The first cell from `i` on where the loop stops. -/
def scan (stop : UInt8 → Bool) (cell : ℕ → C) : ℕ → ℕ → Reader C ℕ
  | 0, _ => .halt
  | n + 1, i => do
      let c ← byte (cell i)
      if stop c then .ret i else scan stop cell n (i + 1)

def strlen (cell : ℕ → C) (n i : ℕ) : Reader C ℕ := do
  let stop ← scan (fun c ↦ c == 0) cell n i
  .ret (stop - i)

def strchr (b : UInt8) (cell : ℕ → C) (n i : ℕ) : Reader C (Option ℕ) := do
  let stop ← scan (fun c ↦ c == 0 || c == b) cell n i
  let c ← byte (cell stop)
  .ret (if c = b then some stop else none)

/-- The next `n` cells from `i` on. -/
def copy (cell : ℕ → C) : ℕ → ℕ → Reader C Bytes
  | 0, _ => .ret []
  | n + 1, i => do
      let c ← byte (cell i)
      let rest ← copy cell n (i + 1)
      .ret (c :: rest)

/-- Compares the cells from `i` on with a text up to the first difference. -/
def agrees (f : UInt8 → UInt8) (cell : ℕ → C) : ℕ → Bytes → Reader C Bool
  | _, [] => .ret true
  | i, b :: s => do
      let c ← byte (cell i)
      if f c = f b then agrees f cell (i + 1) s else .ret false

/-! ## A string in the cells -/

/-- The string stands in the cells from `i` on, with its terminator, all of them
inside. -/
def StringAt (mem : C → UInt8) (inside : C → Prop) (cell : ℕ → C) : ℕ → Bytes → Prop
  | i, [] => inside (cell i) ∧ mem (cell i) = 0
  | i, c :: s => inside (cell i) ∧ mem (cell i) = c ∧ c ≠ 0 ∧ StringAt mem inside cell (i + 1) s

section StringAt

variable {mem : C → UInt8} {inside : C → Prop} {cell : ℕ → C} {s : Bytes} {i n : ℕ}

theorem StringAt.drop (hs : StringAt mem inside cell i s) {k : ℕ} (hk : k ≤ s.length) :
    StringAt mem inside cell (i + k) (s.drop k) := by
  induction k generalizing i s with
  | zero => exact hs
  | succ k ih =>
      cases s with
      | nil => exact absurd hk (Nat.not_succ_le_zero k)
      | cons c s =>
          have hrest := ih hs.2.2.2 (Nat.le_of_succ_le_succ hk)
          rwa [Nat.add_assoc, Nat.add_comm 1 k] at hrest

theorem StringAt.behind {t : Bytes} (h : StringAt mem inside cell i (s ++ t)) :
    StringAt mem inside cell (i + s.length) t := by
  have hrest := h.drop (k := s.length) (by rw [List.length_append]; omega)
  rwa [List.drop_left] at hrest

theorem StringAt.head (hs : StringAt mem inside cell i s) :
    inside (cell i) ∧ mem (cell i) = s.head?.getD 0 := by
  cases s with
  | nil => exact hs
  | cons c s => exact ⟨hs.1, hs.2.1⟩

/-- The terminator is one of the cells. -/
theorem StringAt.getD (hs : StringAt mem inside cell i s) {k : ℕ} (hk : k ≤ s.length) :
    inside (cell (i + k)) ∧ mem (cell (i + k)) = s.getD k 0 := by
  have hhead := (hs.drop hk).head
  rwa [List.head?_drop, ← List.getD_eq_getElem?_getD] at hhead

theorem StringAt.getElem (hs : StringAt mem inside cell i s) {k : ℕ} (hk : k < s.length) :
    inside (cell (i + k)) ∧ mem (cell (i + k)) = s[k] := by
  have hcell := hs.getD hk.le
  rwa [List.getD_eq_getElem?_getD, List.getElem?_eq_getElem hk, Option.getD_some] at hcell

theorem StringAt.zero_notMem (hs : StringAt mem inside cell i s) : (0 : UInt8) ∉ s := by
  induction s generalizing i with
  | nil => exact List.not_mem_nil
  | cons c s ih =>
      rw [List.mem_cons, not_or]
      exact ⟨hs.2.2.1.symm, ih hs.2.2.2⟩

/-- Looking at the first cell of a string. -/
theorem StringAt.gives_byte (hs : StringAt mem inside cell i s) {Q : α → Prop}
    {f : UInt8 → Reader C α} :
    Gives mem inside Q (byte (cell i) >>= f) ↔ Gives mem inside Q (f (s.head?.getD 0)) := by
  rw [CellReader.gives_byte, hs.head.2]
  exact and_iff_right hs.head.1

/-- A loop that stops at the terminator at the latest looks at nothing behind
it. -/
theorem StringAt.gives_scan (hs : StringAt mem inside cell i s) {stop : UInt8 → Bool}
    (hstop : stop 0 = true) {Q : ℕ → Prop} :
    Gives mem inside Q (scan stop cell n i) ↔
      (s.takeWhile fun c ↦ !stop c).length < n ∧
        Q (i + (s.takeWhile fun c ↦ !stop c).length) := by
  induction n generalizing i s with
  | zero => simp [scan]
  | succ n ih =>
      rw [scan, hs.gives_byte]
      cases s with
      | nil => simp [hstop]
      | cons c s =>
          rw [List.head?_cons, Option.getD_some]
          cases hc : stop c with
          | true => simp [hc]
          | false =>
              rw [if_neg Bool.false_ne_true, ih hs.2.2.2, List.takeWhile_cons_of_pos (by simp [hc]),
                List.length_cons, Nat.succ_lt_succ_iff, Nat.add_assoc, Nat.add_comm 1]

theorem StringAt.gives_strlen (hs : StringAt mem inside cell i s) {Q : ℕ → Prop} :
    Gives mem inside Q (strlen cell n i) ↔ s.length < n ∧ Q s.length := by
  have hall : (s.takeWhile fun c ↦ !(c == 0)) = s := by
    rw [List.takeWhile_eq_self_iff]
    intro c hc
    have hc0 : c ≠ 0 := fun h ↦ hs.zero_notMem (h ▸ hc)
    simpa using hc0
  rw [strlen, gives_bind, hs.gives_scan (by rfl), hall, gives_ret, Nat.add_sub_cancel_left]

theorem takeWhile_eq_of_forall {p q : UInt8 → Bool} (h : ∀ c ∈ s, p c = q c) :
    s.takeWhile p = s.takeWhile q := by
  induction s with
  | nil => rfl
  | cons c s ih =>
      rw [List.forall_mem_cons] at h
      rw [List.takeWhile_cons, List.takeWhile_cons, h.1, ih h.2]

/-- The cell of the first `b`, found within the string. -/
theorem StringAt.gives_strchr (hs : StringAt mem inside cell i s) {b : UInt8} (hb : b ≠ 0)
    {Q : Option ℕ → Prop} :
    Gives mem inside Q (strchr b cell n i) ↔
      (s.takeWhile fun c ↦ decide (c ≠ b)).length < n ∧
        Q (if b ∈ s then some (i + (s.takeWhile fun c ↦ decide (c ≠ b)).length) else none) := by
  have hsame : (s.takeWhile fun c ↦ !(c == 0 || c == b)) = s.takeWhile fun c ↦ decide (c ≠ b) := by
    apply takeWhile_eq_of_forall
    intro c hc
    have hc0 : (c == 0) = false := beq_false_of_ne fun h ↦ hs.zero_notMem (h ▸ hc)
    rw [hc0, Bool.false_or]
    by_cases hb : c = b <;> simp [hb]
  rw [strchr, gives_bind, hs.gives_scan (by rfl), hsame]
  refine and_congr_right fun _ ↦ ?_
  have hfound := hs.drop (List.takeWhile_prefix (l := s) fun c ↦ decide (c ≠ b)).length_le
  rw [hfound.gives_byte, gives_ret]
  by_cases hmem : b ∈ s
  · obtain ⟨pre, post, rfl, hpre⟩ := List.eq_append_cons_of_mem hmem
    rw [CString.takeWhile_ne_append hpre, List.drop_left, List.head?_cons, Option.getD_some,
      if_pos rfl, if_pos hmem]
  · have hall : (s.takeWhile fun c ↦ decide (c ≠ b)) = s := by
      rw [List.takeWhile_eq_self_iff]
      intro c hc
      simpa using fun h : c = b ↦ hmem (h ▸ hc)
    rw [hall, List.drop_length, List.head?_nil, Option.getD_none, if_neg hb.symm, if_neg hmem]

theorem StringAt.gives_copy (hs : StringAt mem inside cell i s) (hn : n ≤ s.length)
    {Q : Bytes → Prop} : Gives mem inside Q (copy cell n i) ↔ Q (s.take n) := by
  induction n generalizing i s Q with
  | zero => rw [copy, gives_ret, List.take_zero]
  | succ n ih =>
      cases s with
      | nil => exact absurd hn (Nat.not_succ_le_zero n)
      | cons c s =>
          rw [copy, hs.gives_byte, gives_bind, ih hs.2.2.2 (Nat.le_of_succ_le_succ hn), gives_ret,
            List.take_succ_cons]
          rfl

/-- The comparison ends at the terminator at the latest. -/
theorem StringAt.gives_agrees (hs : StringAt mem inside cell i s) {w : Bytes}
    (hw : (0 : UInt8) ∉ w) {Q : Bool → Prop} :
    Gives mem inside Q (agrees id cell i w) ↔ Q (decide (w <+: s)) := by
  induction w generalizing i s with
  | nil => simp [agrees]
  | cons b w ih =>
      have hb : (0 : UInt8) ≠ b := fun h ↦ hw (h ▸ List.mem_cons_self)
      rw [agrees, hs.gives_byte]
      cases s with
      | nil => simp [hb]
      | cons c s =>
          rw [List.head?_cons, Option.getD_some]
          by_cases hc : c = b
          · rw [if_pos (congrArg id hc), ih hs.2.2.2 fun h ↦ hw (List.mem_cons_of_mem _ h)]
            simp [hc]
          · simp [hc, Ne.symm hc]

end StringAt

/-! ## A text of known length -/

section Text

variable {mem : C → UInt8} {inside : C → Prop} {cell : ℕ → C} {len i : ℕ}

/-- The first `len` cells. -/
def text (mem : C → UInt8) (cell : ℕ → C) (len : ℕ) : Bytes :=
  (List.range len).map fun i ↦ mem (cell i)

@[simp] theorem length_text : (text mem cell len).length = len := by
  rw [text, List.length_map, List.length_range]

theorem take_text (n : ℕ) : (text mem cell len).take n = text mem cell (min n len) := by
  rw [text, ← List.map_take, List.take_range]
  rfl

theorem drop_text (hi : i < len) :
    (text mem cell len).drop i = mem (cell i) :: (text mem cell len).drop (i + 1) := by
  have hlt : i < (text mem cell len).length := by rwa [length_text]
  rw [List.drop_eq_getElem_cons hlt]
  simp [text]

theorem StringAt.text_eq {s : Bytes} (hs : StringAt mem inside cell 0 s) :
    text mem cell s.length = s := by
  apply List.ext_getElem length_text
  intro k hk hk'
  have hcell := (hs.getElem hk').2
  rw [Nat.zero_add] at hcell
  rw [← hcell]
  simp [text]

theorem gives_agrees (hin : ∀ j < len, inside (cell j)) {f : UInt8 → UInt8} {w : Bytes}
    (hw : i + w.length ≤ len) {Q : Bool → Prop} :
    Gives mem inside Q (agrees f cell i w) ↔
      Q (decide (w.map f <+: ((text mem cell len).drop i).map f)) := by
  induction w generalizing i with
  | nil => simp [agrees]
  | cons b w ih =>
      rw [List.length_cons] at hw
      rw [agrees, gives_byte, and_iff_right (hin i (by omega)), drop_text (by omega), List.map_cons,
        List.map_cons]
      by_cases hc : f (mem (cell i)) = f b
      · rw [if_pos hc, ih (by omega)]
        simp [hc]
      · simp [hc, Ne.symm hc]

end Text

/-! ## Memories -/

/-- A memory that begins with a text. -/
def followed : Bytes → (ℕ → UInt8) → ℕ → UInt8
  | [], rest, i => rest i
  | c :: _, _, 0 => c
  | _ :: s, rest, i + 1 => followed s rest i

theorem followed_append (s t : Bytes) (rest : ℕ → UInt8) (i : ℕ) :
    followed (s ++ t) rest (s.length + i) = followed t rest i := by
  induction s with
  | nil => rw [List.nil_append, List.length_nil, Nat.zero_add]
  | cons c s ih => rw [List.cons_append, List.length_cons, Nat.succ_add, followed, ih]

/-- A text that is put into the memory with a terminator is a string there. -/
theorem stringAt_followed {mem : C → UInt8} {inside : C → Prop} {cell : ℕ → C} {s : Bytes}
    (hs : (0 : UInt8) ∉ s) (pre : Bytes) {rest : ℕ → UInt8}
    (hmem : ∀ i, mem (cell i) = followed (pre ++ (s ++ [0])) rest i)
    (hin : ∀ i ≤ pre.length + s.length, inside (cell i)) :
    StringAt mem inside cell pre.length s := by
  induction s generalizing pre with
  | nil =>
      refine ⟨hin _ le_rfl, ?_⟩
      have hlast := followed_append pre [0] rest 0
      rw [hmem]
      exact hlast
  | cons c s ih =>
      rw [List.mem_cons, not_or] at hs
      rw [List.length_cons] at hin
      have hfirst := followed_append pre (c :: (s ++ [0])) rest 0
      have hrest := ih hs.2 (pre ++ [c]) (fun i ↦ by rw [hmem]; simp)
        (fun i hi ↦ hin i (by simp at hi; omega))
      refine ⟨hin _ (by omega), (hmem _).trans hfirst, Ne.symm hs.1, ?_⟩
      rwa [List.length_append, List.length_singleton] at hrest

theorem stringAt_start {s : Bytes} (hs : (0 : UInt8) ∉ s) (rest : ℕ → UInt8) :
    StringAt (followed (s ++ [0]) rest) (· ≤ s.length) id 0 s :=
  stringAt_followed hs [] (fun _ ↦ rfl) fun i hi ↦ by simpa using hi

end CellReader
