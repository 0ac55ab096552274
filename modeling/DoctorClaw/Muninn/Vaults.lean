import DoctorClaw.Muninn

/-!
# Vaults

`muninn_activate` asks the full-text index first and filters by vault
afterwards.  The limit of 256 matches and the decision to fall back to the
rows of the vault are therefore taken over all vaults, and two stores that
agree on one vault may answer differently for it.
-/

namespace DoctorClaw

open Ranking

/-- The two stores hold the same rows of the vault, and a query matches the
same ones among them. -/
structure SameVault (m m' : Muninn) (matched matched' : ℕ → Bool) (vault : Bytes) : Prop where
  rows_eq : (m.rows.filter fun row ↦ row.vault == vault) =
    m'.rows.filter fun row ↦ row.vault == vault
  matched_eq : ∀ row ∈ m.rows, row.vault = vault → matched row.id = matched' row.id

section Stores

variable {S : Type*} [LinearOrder S] (base : MuninnBase S)

/-- The other vaults do not matter: they do not decide about the fallback of a
vault with visible rows, and where the limit cuts off a match of the vault in
one of the stores only, `top_n` better ones are left. -/
structure OthersUnseen (m m' : Muninn) (matched matched' : ℕ → Bool) (vault : Bytes) (topN : ℕ)
    (now : UInt64) : Prop where
  fallback : (m.ftsRows matched = [] ↔ m'.ftsRows matched' = []) ∨
    ∀ row ∈ m.rows, row.vault = vault → row.visible = false
  limit : ∀ row ∈ m.vaultMatches vault matched, row ∉ m'.vaultMatches vault matched' →
    activateTop topN ≤ rank (placeKey (EngramRow.score base now) EngramRow.id)
      (m'.vaultMatches vault matched') row
  limit' : ∀ row ∈ m'.vaultMatches vault matched', row ∉ m.vaultMatches vault matched →
    activateTop topN ≤ rank (placeKey (EngramRow.score base now) EngramRow.id)
      (m.vaultMatches vault matched) row

variable {base} {m m' : Muninn} {matched matched' : ℕ → Bool} {vault : Bytes} {topN : ℕ}
  {now : UInt64}

theorem activateTop_pos (topN : ℕ) : 0 < activateTop topN := by
  unfold activateTop muninnActivateMax
  split_ifs <;> omega

theorem SameVault.mem_iff (h : SameVault m m' matched matched' vault) {row : EngramRow}
    (hvault : row.vault = vault) : row ∈ m.rows ↔ row ∈ m'.rows := by
  have hmem : row ∈ (m.rows.filter fun row ↦ row.vault == vault) ↔
      row ∈ m'.rows.filter fun row ↦ row.vault == vault := by rw [h.rows_eq]
  simpa [List.mem_filter, hvault] using hmem

theorem SameVault.symm (h : SameVault m m' matched matched' vault) :
    SameVault m' m matched' matched vault :=
  ⟨h.rows_eq.symm, fun row hrow hvault ↦
    (h.matched_eq row ((h.mem_iff hvault).mpr hrow) hvault).symm⟩

theorem OthersUnseen.symm (hsame : SameVault m m' matched matched' vault)
    (h : OthersUnseen base m m' matched matched' vault topN now) :
    OthersUnseen base m' m matched' matched vault topN now := by
  refine ⟨?_, h.limit', h.limit⟩
  refine h.fallback.imp Iff.symm fun hhidden row hrow hvault ↦ ?_
  exact hhidden row ((hsame.mem_iff hvault).mpr hrow) hvault

/-- All matches of the vault, whatever the limit. -/
def Muninn.allMatches (m : Muninn) (vault : Bytes) (matched : ℕ → Bool) : List EngramRow :=
  (m.rows.filter fun row ↦ row.vault == vault).filter fun row ↦ matched row.id

theorem Muninn.vaultMatches_prefix (m : Muninn) (vault : Bytes) (matched : ℕ → Bool) :
    m.vaultMatches vault matched <+: m.allMatches vault matched := by
  have hcomm : m.allMatches vault matched =
      (m.rows.filter fun row ↦ matched row.id).filter fun row ↦ row.vault == vault :=
    List.filter_comm _ _ _
  rw [hcomm]
  exact (List.take_prefix _ _).filter _

theorem SameVault.allMatches_eq (h : SameVault m m' matched matched' vault) :
    m.allMatches vault matched = m'.allMatches vault matched' := by
  unfold Muninn.allMatches
  rw [← h.rows_eq]
  refine List.filter_congr fun row hrow ↦ ?_
  obtain ⟨hrow, hvault⟩ := List.mem_filter.mp hrow
  exact h.matched_eq row hrow (by simpa using hvault)

theorem SameVault.prefix_or_prefix (h : SameVault m m' matched matched' vault) :
    m.vaultMatches vault matched <+: m'.vaultMatches vault matched' ∨
      m'.vaultMatches vault matched' <+: m.vaultMatches vault matched := by
  refine List.prefix_or_prefix_of_prefix (m.vaultMatches_prefix vault matched) ?_
  rw [h.allMatches_eq]
  exact m'.vaultMatches_prefix vault matched'

omit [LinearOrder S] in
theorem SameVault.fallbackRows_eq (h : SameVault m m' matched matched' vault) :
    m.fallbackRows base vault = m'.fallbackRows base vault := by
  have hrows (m : Muninn) : (m.rows.filter fun row ↦ row.vault == vault && row.visible) =
      (m.rows.filter fun row ↦ row.vault == vault).filter EngramRow.visible := by
    rw [List.filter_filter]
    exact List.filter_congr fun _ _ ↦ Bool.and_comm _ _
  unfold Muninn.fallbackRows
  rw [hrows m, hrows m', h.rows_eq]

omit [LinearOrder S] in
theorem Muninn.fallbackRows_eq_nil_iff : m.fallbackRows base vault = [] ↔
    ∀ row ∈ m.rows, row.vault = vault → row.visible = false := by
  have hlimit : maxActivateCandidates ≠ 0 := by decide
  have hperm := base.perm_orderByRecency
    (m.rows.filter fun row ↦ row.vault == vault && row.visible)
  rw [Muninn.fallbackRows, List.take_eq_nil_iff, or_iff_right hlimit, ← List.length_eq_zero_iff,
    hperm.length_eq, List.length_eq_zero_iff]
  simp

/-! ## Equal answers -/

/-- The rows behind a list of engrams. -/
theorem Muninn.filterMap_engramFromRow {l : List EngramRow} (hl : ∀ row ∈ l, row ∈ m.rows) :
    ((l.map engramFromRow).filterMap fun e ↦ (integerOfDigits e.id).bind m.find) = l := by
  rw [List.filterMap_map]
  refine (List.filterMap_congr fun row hrow ↦ ?_).trans List.filterMap_some
  rw [Function.comp_apply, Muninn.id_engramFromRow (hl row hrow), integerOfDigits_printNat]
  exact Muninn.find_id (hl row hrow)

theorem SameVault.activate_eq_iff (h : SameVault m m' matched matched' vault) :
    (muninnActivate base m vault matched topN now).2 =
        (muninnActivate base m' vault matched' topN now).2 ↔
      m.returnedRows base vault matched topN now = m'.returnedRows base vault matched' topN now := by
  refine ⟨fun heq ↦ ?_, fun heq ↦ congrArg (List.map engramFromRow) heq⟩
  have hrows : ∀ row ∈ m.returnedRows base vault matched topN now, row ∈ m.rows :=
    fun row hrow ↦ (m.mem_rows_of_mem_returnedRows base vault matched hrow).2.1
  have hrows' : ∀ row ∈ m'.returnedRows base vault matched' topN now, row ∈ m.rows := by
    intro row hrow
    obtain ⟨-, hmem, hvault⟩ := m'.mem_rows_of_mem_returnedRows base vault matched' hrow
    exact (h.mem_iff hvault).mpr hmem
  rw [← Muninn.filterMap_engramFromRow hrows, ← Muninn.filterMap_engramFromRow hrows']
  exact congrArg _ heq

/-- Where the full-text query yields something in both stores. -/
theorem returnedRows_eq_iff_of_prefix (hfts : m.ftsRows matched ≠ [])
    (hfts' : m'.ftsRows matched' ≠ [])
    (hpre : m.vaultMatches vault matched <+: m'.vaultMatches vault matched') :
    m.returnedRows base vault matched topN now = m'.returnedRows base vault matched' topN now ↔
      OthersUnseen base m m' matched matched' vault topN now := by
  obtain ⟨more, hmore⟩ := hpre
  have hpairwise := m'.pairwise_vaultMatches vault matched'
  rw [m.returnedRows_eq, m'.returnedRows_eq, m.scored_eq, m'.scored_eq, if_neg hfts, if_neg hfts',
    ← hmore, take_sortDescending_append_iff (hmore ▸ hpairwise)]
  have hnotMem (row : EngramRow) (hrow : row ∈ more) : row ∉ m.vaultMatches vault matched := by
    rw [← hmore, List.pairwise_append] at hpairwise
    exact fun hmem ↦ lt_irrefl _ (hpairwise.2.2 row hmem row hrow)
  constructor
  · intro hout
    refine ⟨.inl (iff_of_false hfts hfts'), ?_, ?_⟩
    · intro row hrow hnot
      exact absurd (hmore ▸ List.mem_append_left _ hrow) hnot
    · intro row hrow hnot
      rw [← hmore, List.mem_append] at hrow
      exact hout row (hrow.resolve_left hnot)
  · intro hunseen row hrow
    exact hunseen.limit' row (hmore ▸ List.mem_append_right _ hrow) (hnotMem row hrow)

theorem SameVault.vaultMatches_eq_nil (h : SameVault m m' matched matched' vault)
    (hfts : m.ftsRows matched = []) :
    m.vaultMatches vault matched = [] ∧ m'.vaultMatches vault matched' = [] := by
  have hlimit : maxActivateCandidates ≠ 0 := by decide
  have hnone := (List.take_eq_nil_iff.mp hfts).resolve_left hlimit
  have hall : m.allMatches vault matched = [] := by
    rw [Muninn.allMatches, List.filter_comm, hnone, List.filter_nil]
  refine ⟨List.prefix_nil.mp (hall ▸ m.vaultMatches_prefix vault matched), ?_⟩
  rw [h.allMatches_eq] at hall
  exact List.prefix_nil.mp (hall ▸ m'.vaultMatches_prefix vault matched')

theorem SameVault.othersUnseen_iff_of_nil (h : SameVault m m' matched matched' vault)
    (hfts : m.ftsRows matched = []) :
    OthersUnseen base m m' matched matched' vault topN now ↔
      m'.ftsRows matched' = [] ∨ m.fallbackRows base vault = [] := by
  obtain ⟨hnil, hnil'⟩ := h.vaultMatches_eq_nil hfts
  rw [Muninn.fallbackRows_eq_nil_iff]
  constructor
  · intro hunseen
    exact hunseen.fallback.imp_left fun hiff ↦ hiff.mp hfts
  · intro hfallback
    refine ⟨hfallback.imp_left fun hfts' ↦ iff_of_true hfts hfts', ?_, ?_⟩
    · simp [hnil]
    · simp [hnil']

/-- Where the first store has no match, the vault has none in either. -/
theorem SameVault.returnedRows_eq_iff_of_nil (h : SameVault m m' matched matched' vault)
    (hfts : m.ftsRows matched = []) :
    m.returnedRows base vault matched topN now = m'.returnedRows base vault matched' topN now ↔
      OthersUnseen base m m' matched matched' vault topN now := by
  rw [h.othersUnseen_iff_of_nil hfts, m.returnedRows_eq, m'.returnedRows_eq, m.scored_eq,
    m'.scored_eq, if_pos hfts]
  split_ifs with hfts'
  · have hrows : m.fallbackRows base vault = m'.fallbackRows base vault := h.fallbackRows_eq
    simp [hfts', hrows]
  · have htop : activateTop topN ≠ 0 := (activateTop_pos topN).ne'
    have hsort := perm_sortDescending (EngramRow.score base now) (m.fallbackRows base vault)
    rw [(h.vaultMatches_eq_nil hfts).2, or_iff_right hfts', sortDescending, sortDescending,
      List.foldl_nil, List.take_nil, List.take_eq_nil_iff, or_iff_right htop, ← sortDescending,
      ← List.length_eq_zero_iff, hsort.length_eq, List.length_eq_zero_iff]

theorem SameVault.returnedRows_eq_iff (h : SameVault m m' matched matched' vault) :
    m.returnedRows base vault matched topN now = m'.returnedRows base vault matched' topN now ↔
      OthersUnseen base m m' matched matched' vault topN now := by
  have hswap : OthersUnseen base m m' matched matched' vault topN now ↔
      OthersUnseen base m' m matched' matched vault topN now :=
    ⟨.symm h, .symm h.symm⟩
  by_cases hfts : m.ftsRows matched = []
  · exact h.returnedRows_eq_iff_of_nil hfts
  by_cases hfts' : m'.ftsRows matched' = []
  · rw [hswap, eq_comm]
    exact h.symm.returnedRows_eq_iff_of_nil hfts'
  · rcases h.prefix_or_prefix with hpre | hpre
    · exact returnedRows_eq_iff_of_prefix hfts hfts' hpre
    · rw [hswap, eq_comm]
      exact returnedRows_eq_iff_of_prefix hfts' hfts hpre

/-- Two stores with the same rows of a vault answer alike for it exactly when
the rows of the other vaults neither decide about the fallback nor use up the
limit. -/
theorem activate_eq_iff_othersUnseen (base : MuninnBase S) {m m' : Muninn}
    {matched matched' : ℕ → Bool} {vault : Bytes} (h : SameVault m m' matched matched' vault)
    (topN : ℕ) (now : UInt64) :
    (muninnActivate base m vault matched topN now).2 =
        (muninnActivate base m' vault matched' topN now).2 ↔
      OthersUnseen base m m' matched matched' vault topN now :=
  h.activate_eq_iff.trans h.returnedRows_eq_iff

end Stores

noncomputable def oneVault : Muninn :=
  muninnAfter realBase [.write (ascii "v") (ascii "x") (ascii "y") [] 32 1000]

noncomputable def twoVaults : Muninn :=
  muninnAfter realBase [.write (ascii "v") (ascii "x") (ascii "y") [] 32 1000,
    .write (ascii "w") (ascii "a") (ascii "b") [] 32 1000]

theorem sameVault_twoVaults (matched : ℕ → Bool) :
    SameVault oneVault twoVaults matched matched (ascii "v") :=
  ⟨rfl, fun _ _ _ ↦ rfl⟩

theorem activate_eq_iff_othersUnseen_match :
    OthersUnseen realBase oneVault twoVaults (fun _ ↦ true) (fun _ ↦ true) (ascii "v") 5 1000 ∧
      (muninnActivate realBase oneVault (ascii "v") (fun _ ↦ true) 5 1000).2 =
        (muninnActivate realBase twoVaults (ascii "v") (fun _ ↦ true) 5 1000).2 := by
  have hunseen : OthersUnseen realBase oneVault twoVaults (fun _ ↦ true) (fun _ ↦ true)
      (ascii "v") 5 1000 :=
    ⟨.inl (iff_of_false (List.cons_ne_nil _ _) (List.cons_ne_nil _ _)),
      fun _ hrow hnot ↦ absurd hrow hnot, fun _ hrow hnot ↦ absurd hrow hnot⟩
  exact ⟨hunseen, (activate_eq_iff_othersUnseen realBase (sameVault_twoVaults _) 5 1000).mpr hunseen⟩

/-- A match in the other vault takes the fallback away. -/
theorem activate_ne_of_other_match :
    SameVault oneVault twoVaults (fun id ↦ id == 2) (fun id ↦ id == 2) (ascii "v") ∧
      (muninnActivate realBase oneVault (ascii "v") (fun id ↦ id == 2) 5 1000).2 ≠
        (muninnActivate realBase twoVaults (ascii "v") (fun id ↦ id == 2) 5 1000).2 :=
  ⟨sameVault_twoVaults _, List.cons_ne_nil _ _⟩

end DoctorClaw
