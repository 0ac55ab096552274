import DoctorClaw.Lib.CellReader
import DoctorClaw.Screening

/-!
# How signatures are matched

The loops of `match_pattern` and `ids_check` over the bytes of a request.  They
look at no byte behind the given length, and find what `matchPattern` and
`idsCheck` find in the text.
-/

namespace DoctorClaw

open Interaction CellReader

/-! ## The loops -/

section Loops

variable {C : Type}

/-- The loop over the positions, with the number of those left. -/
def matchFrom (haystack : ℕ → C) (pattern : Bytes) (caseInsensitive : Bool) :
    ℕ → ℕ → Reader C Bool
  | 0, _ => .ret false
  | n + 1, i => do
      let found ← agrees (foldCase caseInsensitive) haystack i pattern
      if found then .ret true else matchFrom haystack pattern caseInsensitive n (i + 1)

def matchPatternAt (haystack : ℕ → C) (len : ℕ) (pattern : Bytes) (caseInsensitive : Bool) :
    Reader C Bool :=
  if pattern.length = 0 ∨ len < pattern.length then .ret false
  else matchFrom haystack pattern caseInsensitive (len - pattern.length + 1) 0

def scanSignatures (haystack : ℕ → C) (len : ℕ) :
    List IdsSignature → Reader C (Option IdsSignature)
  | [] => .ret none
  | sig :: sigs => do
      let found ← matchPatternAt haystack len sig.pattern sig.caseInsensitive
      if found then .ret (some sig) else scanSignatures haystack len sigs

/-- A null pointer is never scanned. -/
def scanPath (rounds : ℕ) (sigs : List IdsSignature) (path : Option (ℕ → C)) :
    Reader C (Option IdsSignature) :=
  path.elim (.ret none) fun haystack ↦ do
    let len ← strlen haystack rounds 0
    scanSignatures haystack len sigs

def scanBody (sigs : List IdsSignature) (body : Option (ℕ → C)) (bodyLen : ℕ) :
    Reader C (Option IdsSignature) :=
  body.elim (.ret none) fun haystack ↦
    if 0 < bodyLen then scanSignatures haystack (min bodyLen signatureScanLen) sigs
    else .ret none

/-- What is left when no signature is found. -/
def Ids.bodySizeVerdict (ids : Ids) (bodyLen : ℕ) : IdsResult × Bytes :=
  if ids.anomalyBodySizeEnabled ∧ 0 < bodyLen ∧ ids.threshold.toNat < bodyLen then
    IdsResult.alertAnomaly.because (ascii "anomaly:body_size " ++
      Decimal.printNat bodyLen ++ ascii " > " ++ Decimal.printNat ids.threshold.toNat)
  else if 0 < ids.maxBodyBytes ∧ ids.maxBodyBytes < bodyLen then
    IdsResult.alertAnomaly.because (ascii "body_size " ++ Decimal.printNat bodyLen ++
      ascii " exceeds max " ++ Decimal.printNat ids.maxBodyBytes)
  else (.ok, [])

/-- `initialized` is the flag that `ids_init` sets. -/
def idsCheckAt (rounds : ℕ) (initialized : Bool) (ids : Ids) (path body : Option (ℕ → C))
    (bodyLen : ℕ) : Reader C (IdsResult × Bytes) :=
  if initialized = false then .ret (.ok, [])
  else do
    let inPath ← scanPath rounds ids.signatures path
    match inPath with
    | some sig =>
        .ret (IdsResult.alertSignature.because (ascii "signature:" ++ sig.name ++ ascii " in path"))
    | none =>
        let inBody ← scanBody ids.signatures body bodyLen
        match inBody with
        | some sig =>
            .ret (IdsResult.alertSignature.because
              (ascii "signature:" ++ sig.name ++ ascii " in body"))
        | none => .ret (ids.bodySizeVerdict bodyLen)

end Loops

/-! ## One pattern -/

section Pattern

variable {C : Type} {mem : C → UInt8} {inside : C → Prop} {haystack : ℕ → C} {len : ℕ}

/-- The positions from `i` on are all those at which the pattern can begin. -/
theorem gives_matchFrom (hin : ∀ j < len, inside (haystack j)) {pattern : Bytes}
    (hne : pattern ≠ []) {ci : Bool} {n i : ℕ} (hn : i + n + pattern.length = len + 1)
    {Q : Bool → Prop} :
    Gives mem inside Q (matchFrom haystack pattern ci n i) ↔
      Q (decide (pattern.map (foldCase ci) <:+:
        ((text mem haystack len).drop i).map (foldCase ci))) := by
  have hpos : 0 < pattern.length := List.length_pos_iff.mpr hne
  induction n generalizing i with
  | zero =>
      have hshort : ¬ pattern.map (foldCase ci) <:+:
          ((text mem haystack len).drop i).map (foldCase ci) := by
        intro hoccurs
        have hle := hoccurs.length_le
        rw [List.length_map, List.length_map, List.length_drop, length_text] at hle
        omega
      rw [matchFrom, gives_ret, decide_eq_false hshort]
  | succ n ih =>
      have hcons : (text mem haystack len).drop i =
          mem (haystack i) :: (text mem haystack len).drop (i + 1) := drop_text (by omega)
      have hrest := ih (i := i + 1) (by omega)
      rw [matchFrom, gives_bind, gives_agrees hin (by omega)]
      by_cases hfound : pattern.map (foldCase ci) <+:
          ((text mem haystack len).drop i).map (foldCase ci)
      · rw [decide_eq_true hfound, if_pos rfl, gives_ret, decide_eq_true hfound.isInfix]
      · rw [decide_eq_false hfound, if_neg Bool.false_ne_true]
        apply hrest.trans
        rw [hcons, List.map_cons] at hfound ⊢
        simp only [List.infix_cons_iff, hfound, false_or]

theorem gives_matchPatternAt (hin : ∀ j < len, inside (haystack j)) {pattern : Bytes} {ci : Bool}
    {Q : Bool → Prop} :
    Gives mem inside Q (matchPatternAt haystack len pattern ci) ↔
      Q (matchPattern (text mem haystack len) pattern ci) := by
  by_cases hlen : pattern.length = 0 ∨ len < pattern.length
  · rw [matchPatternAt, matchPattern, length_text, if_pos hlen, if_pos hlen, gives_ret]
  · have hne : pattern ≠ [] := fun h ↦ hlen (.inl (by rw [h]; rfl))
    have hsame : matchPattern (text mem haystack len) pattern ci =
        decide (pattern.map (foldCase ci) <:+: (text mem haystack len).map (foldCase ci)) := by
      rw [Bool.eq_iff_iff, matchPattern_iff, decide_eq_true_iff]
      exact and_iff_right hne
    rw [matchPatternAt, if_neg hlen, gives_matchFrom hin hne (by omega), List.drop_zero, hsame]

theorem gives_scanSignatures (hin : ∀ j < len, inside (haystack j)) {sigs : List IdsSignature}
    {Q : Option IdsSignature → Prop} :
    Gives mem inside Q (scanSignatures haystack len sigs) ↔
      Q (sigs.find? fun sig ↦
        matchPattern (text mem haystack len) sig.pattern sig.caseInsensitive) := by
  induction sigs with
  | nil => exact Iff.rfl
  | cons sig sigs ih =>
      rw [scanSignatures, gives_bind, gives_matchPatternAt hin, List.find?_cons]
      cases matchPattern (text mem haystack len) sig.pattern sig.caseInsensitive with
      | true => exact Iff.rfl
      | false => exact ih

end Pattern

/-! ## A request -/

/-- The pattern is a part of the text, up to the case of letters if the
signature says so. -/
def IdsSignature.OccursIn (sig : IdsSignature) (text : Bytes) : Prop :=
  sig.pattern ≠ [] ∧
    sig.pattern.map (foldCase sig.caseInsensitive) <:+: text.map (foldCase sig.caseInsensitive)

theorem signatureIn_isSome_iff {ids : Ids} {text : Bytes} :
    (ids.signatureIn text).isSome ↔ ∃ sig ∈ ids.signatures, sig.OccursIn text := by
  rw [Ids.signatureIn, List.find?_isSome]
  simp only [matchPattern_iff, IdsSignature.OccursIn]

theorem signatureIn_nil (ids : Ids) : ids.signatureIn [] = none := by
  rw [← Option.not_isSome_iff_eq_none, signatureIn_isSome_iff]
  rintro ⟨sig, -, hne, hoccurs⟩
  exact hne (List.map_eq_nil_iff.mp (List.infix_nil.mp hoccurs))

section Request

variable {C : Type} {mem : C → UInt8} {inside : C → Prop} {path body : Option (ℕ → C)}
  {pathText : Bytes} {bodyLen n : ℕ} {ids : Ids}

theorem gives_scanPath (hpath : ∀ cell ∈ path, StringAt mem inside cell 0 pathText)
    (hn : pathText.length < n) {Q : Option IdsSignature → Prop} :
    Gives mem inside Q (scanPath n ids.signatures path) ↔
      Q (path.bind fun _ ↦ ids.signatureIn pathText) := by
  cases path with
  | none => exact Iff.rfl
  | some cell =>
      have hstring := hpath cell rfl
      have hin : ∀ j < pathText.length, inside (cell j) := by
        intro j hj
        have hcell := (hstring.getElem hj).1
        rwa [Nat.zero_add] at hcell
      rw [scanPath, Option.elim_some, gives_bind, hstring.gives_strlen, and_iff_right hn,
        gives_scanSignatures hin, hstring.text_eq]
      rfl

theorem gives_scanBody
    (hbody : ∀ cell ∈ body, ∀ i < min bodyLen signatureScanLen, inside (cell i))
    {Q : Option IdsSignature → Prop} :
    Gives mem inside Q (scanBody ids.signatures body bodyLen) ↔
      Q (body.bind fun cell ↦
        ids.signatureIn (text mem cell (min bodyLen signatureScanLen))) := by
  cases body with
  | none => exact Iff.rfl
  | some cell =>
      rw [scanBody, Option.elim_some]
      split_ifs with hpos
      · exact gives_scanSignatures (hbody cell rfl)
      · obtain rfl : bodyLen = 0 := by omega
        rw [gives_ret, Option.bind_some, Nat.zero_min]
        exact iff_of_eq (congrArg Q (signatureIn_nil ids).symm)

/-- The path is scanned in front of the body, and the length of the body counts
at last. -/
theorem gives_idsCheckAt (hpath : ∀ cell ∈ path, StringAt mem inside cell 0 pathText)
    (hn : pathText.length < n)
    (hbody : ∀ cell ∈ body, ∀ i < min bodyLen signatureScanLen, inside (cell i)) :
    Gives mem inside
      (fun r ↦ r.1 = .alertSignature ↔
        (path.bind fun _ ↦ ids.signatureIn pathText).isSome ∨
          (body.bind fun cell ↦
            ids.signatureIn (text mem cell (min bodyLen signatureScanLen))).isSome)
      (idsCheckAt n true ids path body bodyLen) := by
  rw [idsCheckAt, if_neg Bool.noConfusion, gives_bind, gives_scanPath hpath hn]
  cases path.bind fun _ ↦ ids.signatureIn pathText with
  | some sig => simp [IdsResult.because]
  | none =>
      dsimp only
      rw [gives_bind, gives_scanBody hbody]
      cases body.bind fun cell ↦
          ids.signatureIn (text mem cell (min bodyLen signatureScanLen)) with
      | some sig => simp [IdsResult.because]
      | none =>
          dsimp only
          rw [gives_ret, Ids.bodySizeVerdict]
          split_ifs <;> simp [IdsResult.because]

/-- On a path and a body the loops give what `idsCheck` gives. -/
theorem gives_idsCheck {pathCell bodyCell : ℕ → C}
    (hpath : StringAt mem inside pathCell 0 pathText) (hn : pathText.length < n)
    (hbody : ∀ i < min bodyLen signatureScanLen, inside (bodyCell i)) :
    Gives mem inside (· = idsCheck ids pathText (text mem bodyCell bodyLen))
      (idsCheckAt n true ids (some pathCell) (some bodyCell) bodyLen) := by
  have hpath' : ∀ cell ∈ some pathCell, StringAt mem inside cell 0 pathText := by
    rintro _ ⟨⟩
    exact hpath
  have hbody' : ∀ cell ∈ some bodyCell, ∀ i < min bodyLen signatureScanLen, inside (cell i) := by
    rintro _ ⟨⟩
    exact hbody
  have hscan : (text mem bodyCell bodyLen).take signatureScanLen =
      text mem bodyCell (min bodyLen signatureScanLen) := by
    rw [take_text, min_comm]
  rw [idsCheckAt, if_neg Bool.noConfusion, gives_bind, gives_scanPath hpath' hn, Option.bind_some,
    idsCheck, hscan, length_text]
  cases ids.signatureIn pathText with
  | some sig => rfl
  | none =>
      dsimp only
      rw [gives_bind, gives_scanBody hbody', Option.bind_some]
      cases ids.signatureIn (text mem bodyCell (min bodyLen signatureScanLen)) with
      | some sig => rfl
      | none =>
          dsimp only
          rw [gives_ret, Ids.bodySizeVerdict]
          have hpositive : 0 < bodyLen ∧ ids.threshold.toNat < bodyLen ↔
              ids.threshold.toNat < bodyLen := and_iff_right_of_imp fun h ↦ by omega
          simp only [hpositive]

end Request

/-- A pattern is found exactly if it occurs in the text, and no byte behind the
text is looked at.  So the intrusion detection raises the alarm for a signature
exactly if one of those it has occurs in the path or in the scanned part of the
body. -/
theorem signatures_are_found_where_they_occur (haystack : ℕ → UInt8) (len : ℕ) (pattern : Bytes)
    (caseInsensitive : Bool) {C : Type} (mem : C → UInt8) (inside : C → Prop)
    (path body : Option (ℕ → C)) (pathText : Bytes) (bodyLen rounds : ℕ) (ids : Ids)
    (hpath : ∀ cell ∈ path, StringAt mem inside cell 0 pathText)
    (hrounds : pathText.length < rounds)
    (hbody : ∀ cell ∈ body, ∀ i < min bodyLen 8192, inside (cell i)) :
    Gives haystack (· < len)
        (fun found ↦ found = true ↔ pattern ≠ [] ∧ pattern.map (foldCase caseInsensitive) <:+:
          (text haystack id len).map (foldCase caseInsensitive))
        (matchPatternAt id len pattern caseInsensitive) ∧
      Gives mem inside
        (fun result ↦ result.1 = .alertSignature ↔ ∃ sig ∈ ids.signatures,
          path.isSome ∧ sig.OccursIn pathText ∨
            ∃ cell ∈ body, sig.OccursIn (text mem cell (min bodyLen 8192)))
        (idsCheckAt rounds true ids path body bodyLen) := by
  constructor
  · have hin : ∀ j < len, id j < len := fun _ hj ↦ hj
    rw [gives_matchPatternAt hin]
    exact matchPattern_iff _ _ _
  · apply (gives_idsCheckAt hpath hrounds hbody).mono
    intro result hresult
    rw [hresult]
    simp only [Option.isSome_bind, Option.any_eq_true, signatureIn_isSome_iff]
    constructor
    · rintro (⟨cell, hcell, sig, hsig, hoccurs⟩ | ⟨cell, hcell, sig, hsig, hoccurs⟩)
      · exact ⟨sig, hsig, .inl ⟨Option.isSome_of_mem hcell, hoccurs⟩⟩
      · exact ⟨sig, hsig, .inr ⟨cell, hcell, hoccurs⟩⟩
    · rintro ⟨sig, hsig, ⟨hpath, hoccurs⟩ | ⟨cell, hcell, hoccurs⟩⟩
      · obtain ⟨cell, hcell⟩ := Option.isSome_iff_exists.mp hpath
        exact .inl ⟨cell, hcell, sig, hsig, hoccurs⟩
      · exact .inr ⟨cell, hcell, sig, hsig, hoccurs⟩

theorem signatures_are_found_where_they_occur_in_path :
    Gives (followed (ascii "/a--b" ++ [0]) fun _ ↦ 120) (· ≤ 5)
      (fun result ↦ result.1 = .alertSignature)
      (idsCheckAt 6 true idsInitDefaults (some id) none 0) := by
  have hpath : ∀ cell ∈ some id, StringAt (followed (ascii "/a--b" ++ [0]) fun _ ↦ 120) (· ≤ 5)
      cell 0 (ascii "/a--b") := by
    rintro _ ⟨⟩
    exact stringAt_start (by decide) fun _ ↦ 120
  have hbody : ∀ cell ∈ (none : Option (ℕ → ℕ)), ∀ i < min 0 8192, cell i ≤ 5 := nofun
  have hsig : (⟨ascii "sql_comment", ascii "--", true⟩ : IdsSignature) ∈
      idsInitDefaults.signatures := List.mem_cons_self
  have hoccurs : IdsSignature.OccursIn ⟨ascii "sql_comment", ascii "--", true⟩ (ascii "/a--b") :=
    ⟨by decide, by decide⟩
  exact (signatures_are_found_where_they_occur (fun _ ↦ 0) 0 [] true _ _ (some id) none _ 0 6
    idsInitDefaults hpath (by decide) hbody).2.mono fun result hresult ↦
      hresult.mpr ⟨_, hsig, .inl ⟨rfl, hoccurs⟩⟩

end DoctorClaw
