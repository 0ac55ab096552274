import DoctorClaw.Muninn

/-!
# Soft-deleted engrams

`muninn_read` and the fallback of `muninn_activate` ask for a visible state,
but the full-text query and the two statements that load its rows do not.  A
deleted engram that still matches is therefore returned, unless enough better
ones take its place.
-/

namespace DoctorClaw

open Ranking

/-! ## The states a store can hold -/

/-- Every engram is active or deleted. -/
def Muninn.ActiveOrDeleted (m : Muninn) : Prop :=
  ∀ row ∈ m.rows, row.state = .active ∨ row.state = .softDeleted

theorem Muninn.ActiveOrDeleted.update {m : Muninn} (h : m.ActiveOrDeleted) {p : EngramRow → Bool}
    {f : EngramRow → EngramRow} (hf : ∀ row, (f row).id = row.id)
    (hstate : ∀ row, (f row).state = row.state ∨ (f row).state = .softDeleted) :
    (m.update p f hf).ActiveOrDeleted := by
  intro row hrow
  obtain ⟨old, hold, rfl⟩ := List.mem_map.mp hrow
  split_ifs
  · rcases hstate old with heq | heq
    · rw [heq]
      exact h old hold
    · exact .inr heq
  · exact h old hold

theorem Muninn.ActiveOrDeleted.recordAccess {m : Muninn} (h : m.ActiveOrDeleted)
    (p : EngramRow → Bool) (now : UInt64) : (m.recordAccess p now).ActiveOrDeleted :=
  h.update (fun _ ↦ by rfl) fun _ ↦ .inl (by rfl)

theorem Muninn.ActiveOrDeleted.foldl_recordAccess {m : Muninn} (h : m.ActiveOrDeleted)
    (ids : List ℕ) (now : UInt64) :
    (ids.foldl (fun m id ↦ m.recordAccess (fun row ↦ row.id = id) now) m).ActiveOrDeleted := by
  induction ids generalizing m with
  | nil => exact h
  | cons id ids ih => exact ih (h.recordAccess _ now)

section Histories

variable {S : Type*} [LinearOrder S] (base : MuninnBase S)

theorem Muninn.ActiveOrDeleted.step {m : Muninn} (h : m.ActiveOrDeleted) (ev : MuninnEvent) :
    (m.step base ev).ActiveOrDeleted := by
  cases ev with
  | write vault concept content tags idSize now =>
      rw [Muninn.step, muninnWrite]
      split_ifs
      · intro row hrow
        rcases List.mem_append.mp hrow with hrow | hrow
        · exact h row hrow
        · rw [List.mem_singleton.mp hrow]
          exact .inl rfl
      · exact h
  | reinforce id delta => exact h.update (fun _ ↦ by rfl) fun _ ↦ .inl (by rfl)
  | contradict id => exact h.update (fun _ ↦ by rfl) fun _ ↦ .inl (by rfl)
  | recordAccess vault id now => exact h.recordAccess _ now
  | softDelete vault id => exact h.update (fun _ ↦ by rfl) fun _ ↦ .inr (by rfl)
  | activate vault matched topN now => exact h.foldl_recordAccess _ now

theorem activeOrDeleted_muninnAfter (evs : List MuninnEvent) :
    (muninnAfter base evs).ActiveOrDeleted := by
  unfold muninnAfter
  induction evs using List.reverseRecOn with
  | nil => simp [Muninn.ActiveOrDeleted, muninnInit]
  | append_singleton evs ev ih =>
      rw [List.foldl_append]
      exact ih.step base ev

/-! ## What an activation returns -/

/-- Every activation of the history returns only engrams that are not deleted
and that `muninn_read` returns as well. -/
def DeletedHidden (evs : List MuninnEvent) : Prop :=
  ∀ pre vault matched topN now post, evs = pre ++ .activate vault matched topN now :: post →
    ∀ e ∈ (muninnActivate base (muninnAfter base pre) vault matched topN now).2,
      e.state ≠ .softDeleted ∧ muninnRead base (muninnAfter base pre) vault e.id = some e

/-- Every activation of the history finds `top_n` better matches of the vault
for each deleted one among the first 256 matches. -/
def DeletedOutranked (evs : List MuninnEvent) : Prop :=
  ∀ pre vault matched topN now post, evs = pre ++ .activate vault matched topN now :: post →
    ∀ row ∈ (muninnAfter base pre).vaultMatches vault matched, row.state = .softDeleted →
      activateTop topN ≤ rank (placeKey (EngramRow.score base now) EngramRow.id)
        ((muninnAfter base pre).vaultMatches vault matched) row

variable {base} {m : Muninn} {vault : Bytes} {matched : ℕ → Bool} {topN : ℕ} {now : UInt64}

theorem Muninn.mem_returnedRows_iff (hfts : m.ftsRows matched ≠ []) {row : EngramRow} :
    row ∈ m.returnedRows base vault matched topN now ↔
      row ∈ m.vaultMatches vault matched ∧
        rank (placeKey (EngramRow.score base now) EngramRow.id) (m.vaultMatches vault matched) row <
          activateTop topN := by
  rw [m.returnedRows_eq, m.scored_eq, if_neg hfts]
  exact mem_take_sortDescending_iff (m.pairwise_vaultMatches vault matched)

/-- A returned engram can be read exactly when it is not deleted. -/
theorem Muninn.ActiveOrDeleted.read_returned_iff (hm : m.ActiveOrDeleted) {row : EngramRow}
    (h : row ∈ m.returnedRows base vault matched topN now) :
    ((engramFromRow row).state ≠ .softDeleted ∧
      muninnRead base m vault (engramFromRow row).id = some (engramFromRow row)) ↔
        row.state ≠ .softDeleted := by
  obtain ⟨-, hrow, hvault⟩ := m.mem_rows_of_mem_returnedRows base vault matched h
  refine and_iff_left_of_imp fun hstate ↦ ?_
  have hactive : row.state = .active := (hm row hrow).resolve_right hstate
  have hvisible : row.visible = true := by simp [EngramRow.visible, hactive]
  rw [muninnRead_id base hrow, if_pos ⟨hvault, hvisible⟩]

theorem Muninn.ActiveOrDeleted.hidden_iff (hm : m.ActiveOrDeleted) :
    (∀ e ∈ (muninnActivate base m vault matched topN now).2,
        e.state ≠ .softDeleted ∧ muninnRead base m vault e.id = some e) ↔
      ∀ row ∈ m.vaultMatches vault matched, row.state = .softDeleted →
        activateTop topN ≤ rank (placeKey (EngramRow.score base now) EngramRow.id)
          (m.vaultMatches vault matched) row := by
  have hreturned : (∀ e ∈ (muninnActivate base m vault matched topN now).2,
      e.state ≠ .softDeleted ∧ muninnRead base m vault e.id = some e) ↔
        ∀ row ∈ m.returnedRows base vault matched topN now, row.state ≠ .softDeleted := by
    refine List.forall_mem_map.trans (forall₂_congr fun row hrow ↦ ?_)
    exact hm.read_returned_iff hrow
  rw [hreturned]
  by_cases hfts : m.ftsRows matched = []
  · refine iff_of_true (fun row hrow ↦ ?_) fun row hrow ↦ ?_
    · have hscored := (m.mem_rows_of_mem_returnedRows base vault matched hrow).1
      rw [m.scored_eq, if_pos hfts] at hscored
      have hvisible := (m.mem_of_mem_fallbackRows base vault hscored).2.2
      rintro hstate
      simp [EngramRow.visible, hstate] at hvisible
    · simp [Muninn.vaultMatches, hfts] at hrow
  · constructor
    · intro h row hrow hstate
      by_contra hlt
      exact h row ((m.mem_returnedRows_iff hfts).mpr ⟨hrow, not_le.mp hlt⟩) hstate
    · intro h row hrow hstate
      obtain ⟨hmatch, hlt⟩ := (m.mem_returnedRows_iff hfts).mp hrow
      exact absurd (h row hmatch hstate) (not_le.mpr hlt)

/-- Deleted engrams stay hidden over a history exactly when each activation
finds enough better ones. -/
theorem deletedHidden_iff (base : MuninnBase S) (evs : List MuninnEvent) :
    DeletedHidden base evs ↔ DeletedOutranked base evs := by
  refine forall_congr' fun pre ↦ forall_congr' fun vault ↦ forall_congr' fun matched ↦ ?_
  refine forall_congr' fun topN ↦ forall_congr' fun now ↦ forall_congr' fun post ↦ ?_
  exact imp_congr_right fun _ ↦ (activeOrDeleted_muninnAfter base pre).hidden_iff

end Histories

/-- An engram is written, deleted and then found again by its text. -/
theorem not_deletedHidden_match :
    ¬ DeletedHidden realBase [.write (ascii "v1") (ascii "x") (ascii "y") [] 32 1000,
      .softDelete (ascii "v1") (ascii "1"), .activate (ascii "v1") (fun _ ↦ true) 5 1000] := by
  intro h
  let m := muninnAfter realBase [.write (ascii "v1") (ascii "x") (ascii "y") [] 32 1000,
    .softDelete (ascii "v1") (ascii "1")]
  have hstates : (muninnActivate realBase m (ascii "v1") (fun _ ↦ true) 5 1000).2.map Engram.state =
      [.softDeleted] := by rfl
  obtain ⟨e, he, hstate⟩ := List.mem_map.mp (hstates ▸ List.mem_cons_self)
  exact (h [.write (ascii "v1") (ascii "x") (ascii "y") [] 32 1000,
    .softDelete (ascii "v1") (ascii "1")] (ascii "v1") (fun _ ↦ true) 5 1000 [] rfl e he).1 hstate

end DoctorClaw
