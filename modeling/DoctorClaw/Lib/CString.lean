import Mathlib.Data.List.Infix
import Mathlib.Data.List.TakeWhile
import Mathlib.Data.List.DropRight
import Mathlib.Tactic.Common
import DoctorClaw.Lib.Lists
import DoctorClaw.Lib.Replace

/-!
# C strings

A C string is the list of its bytes up to the terminator, which is not part
of the list.  `strchr` and `strstr` return the rest of the haystack from the
first match on, as their pointers do.
-/

abbrev Bytes := List UInt8

def ascii (s : String) : Bytes := s.toUTF8.data.toList

namespace CString

/-- The string a buffer holds: everything before its first NUL. -/
def ofBuffer (b : Bytes) : Bytes := b.takeWhile fun c ↦ decide (c ≠ 0)

/-- What `snprintf (buf, size, "%s", s)` leaves in `buf`. -/
def cut (size : ℕ) (s : Bytes) : Bytes := s.take (size - 1)

/-- The buffer after `snprintf (buf, size, "%s", s)`; behind the terminator it
keeps its old bytes. -/
def store {size : ℕ} (buffer : Vector UInt8 size) (s : Bytes) : Vector UInt8 size :=
  Vector.ofFn fun i ↦
    (cut size s ++ 0 :: buffer.toList.drop ((cut size s).length + 1)).getD i 0

def strchr (c : UInt8) : Bytes → Option Bytes
  | [] => none
  | b :: bs => if b = c then some (b :: bs) else strchr c bs

def strstr (needle : Bytes) : Bytes → Option Bytes
  | [] => if needle = [] then some [] else none
  | b :: bs => if needle <+: b :: bs then some (b :: bs) else strstr needle bs

def tolower (c : UInt8) : UInt8 := if 65 ≤ c ∧ c ≤ 90 then c + 32 else c

def isspace (c : UInt8) : Bool := c == 32 || (9 ≤ c && c ≤ 13)

/-- A property of bytes is checked on the 256 of them. -/
theorem forall_byte {P : UInt8 → Prop} (h : ∀ n : Fin 256, P (UInt8.ofNat n)) (c : UInt8) : P c := by
  have hc := h ⟨c.toNat, c.toNat_lt⟩
  rwa [UInt8.ofNat_toNat] at hc

/-! ## Buffers -/

theorem ofBuffer_eq_self {s : Bytes} (hs : (0 : UInt8) ∉ s) : ofBuffer s = s :=
  List.takeWhile_eq_self_iff.mpr fun c hc ↦ by
    have hc0 : c ≠ 0 := fun h ↦ hs (h ▸ hc)
    simpa using hc0

theorem ofBuffer_append_zero_eq (s rest : Bytes) : ofBuffer (s ++ 0 :: rest) = ofBuffer s := by
  induction s with
  | nil => rfl
  | cons c s ih =>
      by_cases hc : c = 0
      · simp [ofBuffer, hc]
      · simpa [ofBuffer, hc] using ih

theorem ofBuffer_append_zero {s : Bytes} (hs : (0 : UInt8) ∉ s) (rest : Bytes) :
    ofBuffer (s ++ 0 :: rest) = s := by
  rw [ofBuffer_append_zero_eq, ofBuffer_eq_self hs]

theorem ofBuffer_append {s : Bytes} (hs : (0 : UInt8) ∉ s) (rest : Bytes) :
    ofBuffer (s ++ rest) = s ++ ofBuffer rest := by
  apply List.takeWhile_append_of_pos
  intro c hc
  simpa using fun h : c = 0 ↦ hs (h ▸ hc)

theorem ofBuffer_isPrefix_append (s rest : Bytes) : ofBuffer s <+: ofBuffer (s ++ rest) := by
  unfold ofBuffer
  rw [List.takeWhile_append]
  split_ifs with h
  · exact (List.takeWhile_prefix _).trans (List.prefix_append _ _)
  · exact List.prefix_rfl

theorem zero_notMem_ofBuffer (b : Bytes) : (0 : UInt8) ∉ ofBuffer b := by
  intro h
  simpa using List.mem_takeWhile_imp h

theorem length_cut_le (size : ℕ) (s : Bytes) : (cut size s).length ≤ size - 1 := by
  rw [cut, List.length_take]
  exact Nat.min_le_left _ _

theorem length_cut_lt {size : ℕ} (hsize : 0 < size) (s : Bytes) : (cut size s).length < size := by
  have hle := length_cut_le size s
  omega

theorem cut_of_lt {size : ℕ} {s : Bytes} (h : s.length < size) : cut size s = s :=
  List.take_of_length_le (by omega)

theorem toList_store {size : ℕ} (hsize : 0 < size) (buffer : Vector UInt8 size) (s : Bytes) :
    (store buffer s).toList =
      cut size s ++ 0 :: buffer.toList.drop ((cut size s).length + 1) := by
  have hlt := length_cut_lt hsize s
  apply List.ext_getElem
  · simp only [Vector.length_toList, List.length_append, List.length_cons, List.length_drop]
    omega
  · intro i hi hi'
    simp only [store, Vector.getElem_toList, Vector.getElem_ofFn]
    rw [List.getD_eq_getElem?_getD, List.getElem?_eq_getElem hi', Option.getD_some]

/-- A buffer that `s` is printed to holds `s` up to its first NUL, as far as it
fits. -/
theorem ofBuffer_store {size : ℕ} (hsize : 0 < size) (buffer : Vector UInt8 size) (s : Bytes) :
    ofBuffer (store buffer s).toList = ofBuffer (cut size s) := by
  rw [toList_store hsize, ofBuffer_append_zero_eq]

/-- A buffer with a NUL begins with its string and the terminator. -/
theorem take_length_ofBuffer {b : Bytes} (h : (0 : UInt8) ∈ b) :
    b.take ((ofBuffer b).length + 1) = ofBuffer b ++ [0] := by
  induction b with
  | nil => exact absurd h List.not_mem_nil
  | cons c b ih =>
      by_cases hc : c = 0
      · subst hc
        rfl
      · have hcons : ofBuffer (c :: b) = c :: ofBuffer b :=
          List.takeWhile_cons_of_pos (by simpa using hc)
        have hmem : (0 : UInt8) ∈ b := (List.mem_cons.mp h).resolve_left (Ne.symm hc)
        rw [hcons, List.length_cons, List.take_succ_cons, ih hmem, List.cons_append]

theorem length_ofBuffer_lt {b : Bytes} (h : (0 : UInt8) ∈ b) : (ofBuffer b).length < b.length := by
  have hlen := congrArg List.length (take_length_ofBuffer h)
  have hle := List.length_take_le' ((ofBuffer b).length + 1) b
  rw [hlen, List.length_append, List.length_singleton] at hle
  exact hle

theorem zero_mem_store {size : ℕ} (hsize : 0 < size) (buffer : Vector UInt8 size) (s : Bytes) :
    (0 : UInt8) ∈ (store buffer s).toList := by
  rw [toList_store hsize]
  exact List.mem_append_right _ List.mem_cons_self

/-! ## Searching for one byte -/

theorem strchr_append {c : UInt8} {s : Bytes} (hs : c ∉ s) (rest : Bytes) :
    strchr c (s ++ c :: rest) = some (c :: rest) := by
  induction s with
  | nil => simp [strchr]
  | cons b s ih =>
      have hb : b ≠ c := fun h ↦ hs (by simp [h])
      have hrest := ih fun h ↦ hs (List.mem_cons_of_mem _ h)
      simpa [strchr, hb] using hrest

theorem strchr_eq_some {c : UInt8} {s rest : Bytes} (h : strchr c s = some rest) :
    ∃ t, rest = c :: t ∧ rest <:+ s := by
  induction s with
  | nil => simp [strchr] at h
  | cons b s ih =>
      by_cases hb : b = c
      · obtain rfl : b :: s = rest := by simpa [strchr, hb] using h
        exact ⟨s, by rw [hb], List.suffix_rfl⟩
      · obtain ⟨t, ht, hsuffix⟩ := ih (by simpa [strchr, hb] using h)
        exact ⟨t, ht, hsuffix.trans (List.suffix_cons b s)⟩

theorem strchr_eq_none {c : UInt8} {s : Bytes} (hs : c ∉ s) : strchr c s = none := by
  cases h : strchr c s with
  | none => rfl
  | some rest =>
      obtain ⟨t, rfl, hsuffix⟩ := strchr_eq_some h
      exact absurd (hsuffix.subset List.mem_cons_self) hs

theorem exists_strchr {c : UInt8} {s : Bytes} (hs : c ∈ s) : ∃ found, strchr c s = some found := by
  obtain ⟨before, after, rfl, hfirst⟩ := List.eq_append_cons_of_mem hs
  exact ⟨c :: after, strchr_append hfirst after⟩

theorem strchr_append_of_eq_some {c : UInt8} {s found : Bytes} (h : strchr c s = some found)
    (t : Bytes) : strchr c (s ++ t) = some (found ++ t) := by
  induction s with
  | nil => cases h
  | cons b s ih =>
      rw [List.cons_append, strchr]
      rw [strchr] at h
      split_ifs at h ⊢
      · rw [← Option.some.inj h, List.cons_append]
      · exact ih h

/-! ## Up to a byte -/

theorem takeWhile_ne_append {c : UInt8} {s : Bytes} (hs : c ∉ s) (t : Bytes) :
    (s ++ c :: t).takeWhile (fun b ↦ decide (b ≠ c)) = s := by
  rw [List.takeWhile_append_of_pos, List.takeWhile_cons_of_neg (by simp), List.append_nil]
  intro b hb
  simpa using fun h : b = c ↦ hs (h ▸ hb)

theorem dropWhile_ne_append {c : UInt8} {s : Bytes} (hs : c ∉ s) (t : Bytes) :
    (s ++ c :: t).dropWhile (fun b ↦ decide (b ≠ c)) = c :: t := by
  rw [List.dropWhile_append_of_pos, List.dropWhile_cons_of_neg (by simp)]
  intro b hb
  simpa using fun h : b = c ↦ hs (h ▸ hb)

/-! ## Searching for a string -/

theorem strstr_of_isPrefix {needle s : Bytes} (h : needle <+: s) : strstr needle s = some s := by
  cases s with
  | nil => simp [strstr, List.prefix_nil.mp h]
  | cons b s => simp [strstr, h]

theorem strstr_isSome_iff {needle s : Bytes} : (strstr needle s).isSome ↔ needle <:+: s := by
  induction s with
  | nil => by_cases h : needle = [] <;> simp [strstr, h]
  | cons b s ih =>
      rw [List.infix_cons_iff, ← ih]
      by_cases h : needle <+: b :: s <;> simp [strstr, h]

theorem strstr_cons_of_not {needle : Bytes} {b : UInt8} {s : Bytes}
    (h : ¬ needle <+: b :: s) : strstr needle (b :: s) = strstr needle s := by
  simp [strstr, h]

theorem strstr_append_of_notMem {c : UInt8} {needle pre : Bytes} (hc : needle.head? = some c)
    (h : c ∉ pre) (s : Bytes) : strstr needle (pre ++ s) = strstr needle s := by
  obtain ⟨needle, rfl⟩ : ∃ rest, needle = c :: rest := by
    cases needle with
    | nil => simp at hc
    | cons b rest => exact ⟨rest, by simpa using hc⟩
  induction pre with
  | nil => rfl
  | cons b pre ih =>
      have hb : c ≠ b := fun hcb ↦ h (by simp [hcb])
      have hnot : ¬ (c :: needle) <+: b :: (pre ++ s) := fun hp ↦
        hb (List.cons_prefix_cons.mp hp).1
      rw [List.cons_append, strstr_cons_of_not hnot]
      exact ih fun hmem ↦ h (List.mem_cons_of_mem _ hmem)

/-- No match of the needle starts in `lit`, whatever follows: every suffix of
`lit` differs from the needle before it ends. -/
def skips (needle : Bytes) : Bytes → Bool
  | [] => true
  | b :: lit => !needle.isPrefixOf (b :: lit) && !(b :: lit).isPrefixOf needle && skips needle lit

theorem strstr_of_skips {needle lit : Bytes} (h : skips needle lit = true) (s : Bytes) :
    strstr needle (lit ++ s) = strstr needle s := by
  induction lit with
  | nil => rfl
  | cons b lit ih =>
      simp only [skips, Bool.and_eq_true, Bool.not_eq_true', ← Bool.not_eq_true,
        List.isPrefixOf_iff_prefix] at h
      obtain ⟨⟨hneedle, hlit⟩, hrest⟩ := h
      have hnot : ¬ needle <+: b :: (lit ++ s) := by
        intro hp
        rcases List.prefix_or_prefix_of_prefix hp (List.prefix_append (b :: lit) s) with hp | hp
        · exact hneedle hp
        · exact hlit hp
      rw [List.cons_append, strstr_cons_of_not hnot, ih hrest]

theorem strstr_eq_some {needle s rest : Bytes} (h : strstr needle s = some rest) :
    needle <+: rest ∧ rest <:+ s := by
  induction s with
  | nil =>
      by_cases hn : needle = []
      · have hr : rest = [] := by simpa [strstr, hn, eq_comm] using h
        simp [hn, hr]
      · simp [strstr, hn] at h
  | cons b s ih =>
      by_cases hp : needle <+: b :: s
      · rw [strstr_of_isPrefix hp, Option.some.injEq] at h
        subst h
        exact ⟨hp, List.suffix_rfl⟩
      · rw [strstr_cons_of_not hp] at h
        obtain ⟨hneedle, hsuffix⟩ := ih h
        exact ⟨hneedle, hsuffix.trans (List.suffix_cons b s)⟩

/-- The needle is found where it occurs for the first time. -/
theorem strstr_append_of_first {needle pre : Bytes} (h : needle.FirstBehind pre) (rest : Bytes) :
    strstr needle (pre ++ (needle ++ rest)) = some (needle ++ rest) := by
  induction pre with
  | nil => exact strstr_of_isPrefix (List.prefix_append _ _)
  | cons b pre ih =>
      have hnot : ¬ needle <+: b :: (pre ++ (needle ++ rest)) := h.not_isPrefix rest
      rw [List.cons_append, strstr_cons_of_not hnot]
      exact ih h.tail

theorem strstr_eq_none {needle s : Bytes} (h : ¬ needle <:+: s) : strstr needle s = none := by
  rw [← Option.not_isSome_iff_eq_none, strstr_isSome_iff]
  exact h

/-- A needle without `c` is found in front of the first `c` or behind it. -/
theorem strstr_append_cons {c : UInt8} {needle : Bytes} (hne : needle ≠ []) (hc : c ∉ needle)
    (s t : Bytes) :
    strstr needle (s ++ c :: t) =
      ((strstr needle s).map (· ++ c :: t)).or (strstr needle t) := by
  induction s with
  | nil =>
      have hnot : ¬ needle <+: c :: t := by
        obtain ⟨b, needle, rfl⟩ := List.exists_cons_of_ne_nil hne
        exact fun hp ↦ hc ((List.cons_prefix_cons.mp hp).1 ▸ List.mem_cons_self)
      simp [strstr, hne, hnot]
  | cons b s ih =>
      have hiff : needle <+: b :: s ++ c :: t ↔ needle <+: b :: s :=
        List.prefix_append_cons_iff hc
      by_cases hp : needle <+: b :: s
      · rw [strstr_of_isPrefix (hiff.mpr hp), strstr_of_isPrefix hp]
        rfl
      · have hnot : ¬ needle <+: b :: (s ++ c :: t) := fun h ↦ hp (hiff.mp h)
        rw [List.cons_append, strstr_cons_of_not hnot, ih, strstr_cons_of_not hp]

/-! ## Quoted words -/

theorem eq_of_quoted_prefix {w s rest : Bytes} (hw : (34 : UInt8) ∉ w) (hs : (34 : UInt8) ∉ s)
    (h : w ++ [34] <+: s ++ 34 :: rest) : w = s := by
  obtain ⟨t, ht⟩ := h
  have htake := congrArg (List.takeWhile fun c ↦ decide (c ≠ 34)) ht
  rwa [List.append_assoc, List.singleton_append, takeWhile_ne_append hw,
    takeWhile_ne_append hs] at htake

/-- A quoted word is found in front of a quote, that quote included, or from it
on. -/
theorem strstr_quoted_append {w : Bytes} (hw : (34 : UInt8) ∉ w) (s t : Bytes) :
    strstr ([34] ++ w ++ [34]) (s ++ 34 :: t) =
      ((strstr ([34] ++ w ++ [34]) (s ++ [34])).map (· ++ t)).or
        (strstr ([34] ++ w ++ [34]) (34 :: t)) := by
  induction s with
  | nil =>
      have hnot : ¬ [34] ++ w ++ [34] <+: [(34 : UInt8)] := fun hp ↦ by
        have hlen := hp.length_le
        simp at hlen
      rw [List.nil_append, List.nil_append, strstr_cons_of_not hnot]
      rfl
  | cons b s ih =>
      have hiff : [34] ++ w ++ [34] <+: b :: s ++ 34 :: t ↔
          [34] ++ w ++ [34] <+: b :: s ++ [34] := by
        have hstart : b :: s ++ [34] <+: b :: s ++ 34 :: t := ⟨t, by simp⟩
        refine ⟨fun hp ↦ ?_, fun hp ↦ hp.trans hstart⟩
        rcases List.prefix_or_prefix_of_prefix hp hstart with h | ⟨rest, hrest⟩
        · exact h
        -- a quote inside the word would be left
        · rcases List.eq_nil_or_concat rest with rfl | ⟨rest, c, rfl⟩
          · rw [← hrest, List.append_nil]
          · have hparts : b = 34 ∧ s ++ 34 :: (rest ++ [c]) = w ++ [34] := by simpa using hrest
            have hword : s ++ 34 :: rest ++ [c] = w ++ [34] := by simpa using hparts.2
            have hinit := (List.append_inj' hword rfl).1
            exact absurd (hinit ▸ by simp) hw
      by_cases hp : [34] ++ w ++ [34] <+: b :: s ++ [34]
      · rw [strstr_of_isPrefix (hiff.mpr hp), strstr_of_isPrefix hp]
        simp
      · have hlong := strstr_cons_of_not (s := s ++ 34 :: t) fun h ↦ hp (hiff.mp h)
        have hshort := strstr_cons_of_not (s := s ++ [34]) hp
        exact hlong.trans (hshort.symm ▸ ih)

end CString
