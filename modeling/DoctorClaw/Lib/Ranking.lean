import Mathlib.Data.List.DropRight
import Mathlib.Data.List.MinMax
import Mathlib.Data.List.Nodup
import Mathlib.Data.Prod.Lex

/-!
# The best entries of a list

An array is sorted by scores in place: each entry moves towards the front
until it meets one whose score is not smaller.  On entries that come in the
order of a second key the result is strictly ordered by score and this key, so
that the first `n` entries are those with fewer than `n` better ones.
-/

namespace Ranking

variable {α κ S T : Type*}

/-! ## Ranks -/

section Rank

variable [LinearOrder κ] (key : α → κ)

/-- How many entries come before `y`. -/
def rank (xs : List α) (y : α) : ℕ := xs.countP fun x ↦ key x < key y

theorem rank_append (xs ys : List α) (y : α) :
    rank key (xs ++ ys) y = rank key xs y + rank key ys y :=
  List.countP_append

variable {key} {xs ys l l' : List α} {y : α} {n : ℕ}

theorem rank_eq_of_perm (h : xs.Perm ys) (y : α) : rank key xs y = rank key ys y :=
  h.countP_eq _

theorem rank_mono {z : α} (h : key y ≤ key z) (xs : List α) : rank key xs y ≤ rank key xs z :=
  List.countP_mono_left fun x _ hx ↦ by simpa using (of_decide_eq_true hx).trans_le h

theorem rank_eq_zero (h : ∀ x ∈ xs, key y ≤ key x) : rank key xs y = 0 :=
  List.countP_eq_zero.mpr fun x hx ↦ by simpa using h x hx

theorem exists_best (key : α → κ) (h : ys ≠ []) : ∃ b ∈ ys, ∀ y ∈ ys, key b ≤ key y := by
  obtain ⟨b, hb⟩ := Option.ne_none_iff_exists'.mp (mt (List.argmin_eq_none (f := key)).mp h)
  exact ⟨b, List.argmin_mem hb, fun y hy ↦ List.le_of_mem_argmin hy hb⟩

theorem mem_take_iff (h : l.Pairwise fun x y ↦ key x < key y) :
    y ∈ l.take n ↔ y ∈ l ∧ rank key l y < n := by
  induction l generalizing n with
  | nil => simp
  | cons x l ih =>
      obtain ⟨hx, hl⟩ := List.pairwise_cons.mp h
      cases n with
      | zero => simp
      | succ n =>
          rw [List.take_succ_cons, List.mem_cons, List.mem_cons, ih hl]
          by_cases hyx : y = x
          · subst hyx
            have hzero : rank key (y :: l) y = 0 := by
              refine rank_eq_zero fun z hz ↦ ?_
              rcases List.mem_cons.mp hz with rfl | hz
              · exact le_rfl
              · exact (hx z hz).le
            simp [hzero]
          · rw [or_iff_right hyx, or_iff_right hyx]
            refine and_congr_right fun hy ↦ ?_
            have hsucc : rank key (x :: l) y = rank key l y + 1 :=
              List.countP_cons_of_pos (by simpa using hx y hy)
            rw [hsucc, Nat.add_lt_add_iff_right]

theorem nodup_of_pairwise (h : l.Pairwise fun x y ↦ key x < key y) : l.Nodup :=
  h.imp fun hlt heq ↦ (congrArg key heq).not_lt hlt

theorem eq_of_mem_iff (hl : l.Pairwise fun x y ↦ key x < key y)
    (hl' : l'.Pairwise fun x y ↦ key x < key y) (h : ∀ y, y ∈ l ↔ y ∈ l') : l = l' := by
  have hperm := (List.perm_ext_iff_of_nodup (nodup_of_pairwise hl) (nodup_of_pairwise hl')).mpr h
  exact hperm.eq_of_pairwise (fun _ _ _ _ h₁ h₂ ↦ absurd h₁ h₂.not_gt) hl hl'

/-- More entries leave the first `n` places as they are exactly when each of
them has `n` better ones among the others. -/
theorem take_eq_take_iff (hl : l.Pairwise fun x y ↦ key x < key y)
    (hl' : l'.Pairwise fun x y ↦ key x < key y) (hxs : l.Perm xs) (hys : l'.Perm (xs ++ ys)) :
    l.take n = l'.take n ↔ ∀ y ∈ ys, n ≤ rank key xs y := by
  have hmem (y : α) : y ∈ l.take n ↔ y ∈ xs ∧ rank key xs y < n := by
    rw [mem_take_iff hl, hxs.mem_iff, rank_eq_of_perm hxs]
  have hmem' (y : α) : y ∈ l'.take n ↔ y ∈ xs ++ ys ∧ rank key xs y + rank key ys y < n := by
    rw [mem_take_iff hl', hys.mem_iff, rank_eq_of_perm hys, rank_append]
  have hdisjoint : xs.Disjoint ys :=
    List.disjoint_of_nodup_append ((hys.nodup_iff).mp (nodup_of_pairwise hl'))
  constructor
  · intro heq y hy
    by_contra hlt
    -- The best of the new entries would get a place.
    obtain ⟨b, hb, hbest⟩ := exists_best key (List.ne_nil_of_mem hy)
    have hzero := rank_eq_zero hbest
    have hmono := rank_mono (hbest y hy) xs
    have hplace : b ∈ l'.take n := (hmem' b).mpr ⟨List.mem_append_right _ hb, by omega⟩
    rw [← heq, hmem] at hplace
    exact hdisjoint hplace.1 hb
  · intro h
    refine eq_of_mem_iff (hl.sublist (List.take_sublist _ _)) (hl'.sublist (List.take_sublist _ _))
      fun y ↦ ?_
    rw [hmem, hmem', List.mem_append]
    constructor
    · rintro ⟨hy, hlt⟩
      -- An entry before `y` would have `n` better ones, which come before `y` too.
      have hzero : rank key ys y = 0 := by
        refine rank_eq_zero fun z hz ↦ ?_
        by_contra hzy
        have hle := rank_mono (not_le.mp hzy).le xs
        have hn := h z hz
        omega
      exact ⟨.inl hy, by omega⟩
    · rintro ⟨hy | hy, hlt⟩
      · exact ⟨hy, by omega⟩
      · have hn := h y hy
        omega

end Rank

/-! ## Insertion from the end -/

section Insertion

variable [LinearOrder S] [LinearOrder T]

/-- Entries with a smaller score than `t` move one place back. -/
def insertFromEnd (score : α → S) (sorted : List α) (t : α) : List α :=
  sorted.rdropWhile (fun x ↦ score x < score t) ++
    t :: sorted.rtakeWhile fun x ↦ score x < score t

def sortDescending (score : α → S) (xs : List α) : List α := xs.foldl (insertFromEnd score) []

/-- Higher scores come first, and among equal ones the smaller tie. -/
def placeKey (score : α → S) (tie : α → T) (x : α) : Sᵒᵈ ×ₗ T :=
  toLex (OrderDual.toDual (score x), tie x)

variable {score : α → S} {tie : α → T} {sorted xs : List α} {t : α}

theorem placeKey_lt_iff {x y : α} : placeKey score tie x < placeKey score tie y ↔
    score y < score x ∨ score x = score y ∧ tie x < tie y := by
  rw [placeKey, placeKey, Prod.Lex.toLex_lt_toLex, OrderDual.toDual_lt_toDual]
  simp

theorem perm_insertFromEnd (score : α → S) (sorted : List α) (t : α) :
    (insertFromEnd score sorted t).Perm (t :: sorted) := by
  refine List.perm_middle.trans (List.Perm.cons t ?_)
  rw [List.rdropWhile_append_rtakeWhile]

theorem perm_sortDescending (score : α → S) (xs : List α) :
    (sortDescending score xs).Perm xs := by
  induction xs using List.reverseRecOn with
  | nil => exact .nil
  | append_singleton xs t ih =>
      rw [sortDescending, List.foldl_append]
      refine (perm_insertFromEnd score _ t).trans ((ih.cons t).trans ?_)
      exact (List.perm_append_singleton t xs).symm

theorem pairwise_insertFromEnd
    (h : sorted.Pairwise fun x y ↦ placeKey score tie x < placeKey score tie y)
    (ht : ∀ x ∈ sorted, tie x < tie t) :
    (insertFromEnd score sorted t).Pairwise
      fun x y ↦ placeKey score tie x < placeKey score tie y := by
  set front := sorted.rdropWhile fun x ↦ score x < score t with hfront
  set back := sorted.rtakeWhile fun x ↦ score x < score t with hback
  have hsplit : front ++ back = sorted := List.rdropWhile_append_rtakeWhile
  rw [← hsplit, List.pairwise_append] at h
  obtain ⟨hf, hb, hcross⟩ := h
  have hlow (x : α) (hx : x ∈ back) : score x < score t := by
    simpa using List.mem_rtakeWhile_imp hx
  have hhigh (x : α) (hx : x ∈ front) : score t ≤ score x := by
    have hne := List.ne_nil_of_mem hx
    have hlast : score t ≤ score (front.getLast hne) := by
      simpa using List.rdropWhile_last_not _ _ hne
    rw [← List.dropLast_append_getLast hne, List.mem_append, List.mem_singleton] at hx
    rcases hx with hx | rfl
    · rw [← List.dropLast_append_getLast hne, List.pairwise_append] at hf
      rcases placeKey_lt_iff.mp (hf.2.2 x hx _ List.mem_cons_self) with hlt | ⟨heq, -⟩
      · exact hlast.trans hlt.le
      · exact hlast.trans heq.ge
    · exact hlast
  refine List.pairwise_append.mpr ⟨hf, List.pairwise_cons.mpr ⟨?_, hb⟩, ?_⟩
  · exact fun x hx ↦ placeKey_lt_iff.mpr (.inl (hlow x hx))
  · intro x hx y hy
    rcases List.mem_cons.mp hy with rfl | hy
    · have htie := ht x (hsplit ▸ List.mem_append_left _ hx)
      rcases (hhigh x hx).lt_or_eq with hlt | heq
      · exact placeKey_lt_iff.mpr (.inl hlt)
      · exact placeKey_lt_iff.mpr (.inr ⟨heq.symm, htie⟩)
    · exact hcross x hx y hy

theorem pairwise_sortDescending (score : α → S) (h : xs.Pairwise fun x y ↦ tie x < tie y) :
    (sortDescending score xs).Pairwise fun x y ↦ placeKey score tie x < placeKey score tie y := by
  induction xs using List.reverseRecOn with
  | nil => exact .nil
  | append_singleton xs t ih =>
      obtain ⟨hxs, -, hlast⟩ := List.pairwise_append.mp h
      rw [sortDescending, List.foldl_append]
      refine pairwise_insertFromEnd (ih hxs) fun x hx ↦ ?_
      exact hlast x ((perm_sortDescending score xs).mem_iff.mp hx) t List.mem_cons_self

theorem mem_take_sortDescending_iff (h : xs.Pairwise fun x y ↦ tie x < tie y) {y : α} {n : ℕ} :
    y ∈ (sortDescending score xs).take n ↔
      y ∈ xs ∧ rank (placeKey score tie) xs y < n := by
  have hmem : y ∈ (sortDescending score xs).take n ↔
      y ∈ sortDescending score xs ∧
        rank (placeKey score tie) (sortDescending score xs) y < n :=
    mem_take_iff (pairwise_sortDescending score h)
  have hperm := perm_sortDescending score xs
  rw [hmem, hperm.mem_iff, rank_eq_of_perm hperm]

theorem take_sortDescending_append_iff {ys : List α}
    (h : (xs ++ ys).Pairwise fun x y ↦ tie x < tie y) {n : ℕ} :
    (sortDescending score xs).take n = (sortDescending score (xs ++ ys)).take n ↔
      ∀ y ∈ ys, n ≤ rank (placeKey score tie) xs y :=
  take_eq_take_iff (pairwise_sortDescending score (List.pairwise_append.mp h).1)
    (pairwise_sortDescending score h) (perm_sortDescending score xs)
    (perm_sortDescending score (xs ++ ys))

end Insertion

end Ranking
