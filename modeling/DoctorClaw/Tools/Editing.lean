import DoctorClaw.Tools.Files
import DoctorClaw.Lib.Replace

/-!
# Edits

`tool_edit_execute` reads at most 65535 bytes, builds the edited text in a
buffer of the same size and writes the file anew.  A piece that does not fit
into the buffer is dropped, and so is all that was not read, without an error.
-/

namespace DoctorClaw

open Interaction

variable {find : Bytes} {replace : Option Bytes} {output s t : Bytes}

/-- The part of `tool_edit_execute` behind its parameters. -/
def editFile (path find : Bytes) (replace : Option Bytes) (r : ToolResult) : ToolM Outcome := do
  match ← Sys.fopenRead path with
  | none =>
      let e ← Sys.strerror
      failWith r (ascii "Could not open file: " ++ e)
  | some file =>
    let content := CString.ofBuffer (file.take (editBufferSize - 1))
    match editContent find replace content with
    | none => .halt
    | some output =>
      let opened ← Sys.fopenWrite path false
      if opened then do
        Sys.fwrite output
        succeedWith r (ascii "Applied edit to " ++ path)
      else
        let e ← Sys.strerror
        failWith r (ascii "Could not write file: " ++ e)

theorem toolEditExecute_of_params {params path : Bytes} (r : ToolResult)
    (hpath : paramPointer params "path" (paramBuffer params (ascii "replace")) = some path)
    (hfind : paramPointer params "find" (paramBuffer params (ascii "replace")) = some find) :
    toolEditExecute params r =
      editFile path find
        (paramPointer params "replace" (paramBuffer params (ascii "replace"))) r := by
  simp only [toolEditExecute, hpath, hfind]
  rfl

/-! ## The loop -/

theorem editLoop_of_not_isInfix (h : ¬ find <:+: s) (fuel : ℕ) :
    editLoop find replace (fuel + 1) output s = some (appendFitting output s) := by
  rw [editLoop, CString.strstr_eq_none h]

theorem editLoop_of_firstBehind {pre : Bytes} (h : find.FirstBehind pre) (rest : Bytes)
    (fuel : ℕ) (houtput : output.length < editBufferSize - 1) :
    editLoop find replace (fuel + 1) output (pre ++ (find ++ rest)) =
      editLoop find replace fuel (appendFitting (appendFitting output pre) (replace.getD []))
        rest := by
  have hbefore : (pre ++ (find ++ rest)).take
      ((pre ++ (find ++ rest)).length - (find ++ rest).length) = pre := by
    rw [List.length_append, Nat.add_sub_cancel]
    exact List.take_left
  rw [editLoop, CString.strstr_append_of_first h]
  dsimp only
  rw [if_pos houtput, hbefore, List.drop_left]

theorem length_appendFitting_lt (houtput : output.length < editBufferSize - 1) (s : Bytes) :
    (appendFitting output s).length < editBufferSize - 1 := by
  unfold appendFitting
  split_ifs with h
  · rwa [List.length_append]
  · exact houtput

theorem appendFitting_of_fits (h : (output ++ s).length < editBufferSize - 1) :
    appendFitting output s = output ++ s := by
  rw [List.length_append] at h
  exact if_pos h

theorem appendFitting_of_not (h : ¬ (output ++ s).length < editBufferSize - 1) :
    appendFitting output s = output := by
  rw [List.length_append] at h
  exact if_neg h

/-- Nothing that stands in front of a text that fits is dropped. -/
theorem editLoop_of_kept {pre : Bytes} (h : find.FirstBehind pre) (rest : Bytes) (fuel : ℕ)
    (hkept : (output ++ pre ++ replace.getD [] ++ t).length < editBufferSize - 1) :
    editLoop find replace (fuel + 1) output (pre ++ (find ++ rest)) =
      editLoop find replace fuel (output ++ pre ++ replace.getD []) rest := by
  simp only [List.length_append] at hkept
  have hbefore : appendFitting output pre = output ++ pre := by
    apply appendFitting_of_fits
    rw [List.length_append]
    omega
  have hnew : appendFitting (output ++ pre) (replace.getD []) =
      output ++ pre ++ replace.getD [] := by
    apply appendFitting_of_fits
    rw [List.length_append, List.length_append]
    omega
  rw [editLoop_of_firstBehind h rest fuel (by omega), hbefore, hnew]

theorem append_replaceAll {pre : Bytes} (hfind : find ≠ []) (h : find.FirstBehind pre)
    (output new rest : Bytes) :
    output ++ (pre ++ (find ++ rest)).replaceAll find new =
      output ++ pre ++ new ++ rest.replaceAll find new := by
  rw [List.replaceAll_of_firstBehind hfind h, ← List.append_assoc, ← List.append_assoc]

/-! ## What it leaves -/

/-- The loop ends with a text that fits into the buffer. -/
theorem exists_editLoop (hfind : find ≠ []) (replace : Option Bytes) (s : Bytes) :
    ∀ fuel output, s.length < fuel → output.length < editBufferSize - 1 →
      ∃ edited, editLoop find replace fuel output s = some edited ∧
        edited.length < editBufferSize - 1 := by
  induction s using List.occurrences_induction hfind with
  | none s h =>
      intro fuel output hfuel houtput
      obtain ⟨fuel, rfl⟩ := Nat.exists_eq_add_one_of_ne_zero (Nat.ne_zero_of_lt hfuel)
      exact ⟨_, editLoop_of_not_isInfix h fuel, length_appendFitting_lt houtput s⟩
  | first pre rest hfirst ih =>
      intro fuel output hfuel houtput
      obtain ⟨fuel, rfl⟩ := Nat.exists_eq_add_one_of_ne_zero (Nat.ne_zero_of_lt hfuel)
      have hpos := List.length_pos_iff.mpr hfind
      simp only [List.length_append] at hfuel
      rw [editLoop_of_firstBehind hfirst rest fuel houtput]
      exact ih fuel _ (by omega)
        (length_appendFitting_lt (length_appendFitting_lt houtput pre) _)

/-- The edited text, when it fits. -/
theorem editLoop_of_fits (hfind : find ≠ []) (replace : Option Bytes) (s : Bytes) :
    ∀ fuel output, s.length < fuel →
      (output ++ s.replaceAll find (replace.getD [])).length < editBufferSize - 1 →
      editLoop find replace fuel output s =
        some (output ++ s.replaceAll find (replace.getD [])) := by
  induction s using List.occurrences_induction hfind with
  | none s h =>
      intro fuel output hfuel hfits
      obtain ⟨fuel, rfl⟩ := Nat.exists_eq_add_one_of_ne_zero (Nat.ne_zero_of_lt hfuel)
      rw [List.replaceAll_of_not_isInfix h] at hfits ⊢
      rw [editLoop_of_not_isInfix h, appendFitting_of_fits hfits]
  | first pre rest hfirst ih =>
      intro fuel output hfuel hfits
      obtain ⟨fuel, rfl⟩ := Nat.exists_eq_add_one_of_ne_zero (Nat.ne_zero_of_lt hfuel)
      have hpos := List.length_pos_iff.mpr hfind
      simp only [List.length_append] at hfuel
      rw [append_replaceAll hfind hfirst] at hfits ⊢
      rw [editLoop_of_kept hfirst rest fuel hfits]
      exact ih fuel _ (by omega) hfits

/-- When something was dropped, and more of the file was not read, the text is
the edited one only if all of the rest is replaced by nothing. -/
theorem dropped_of_editLoop (hfind : find ≠ []) (replace : Option Bytes) (ht : t ≠ [])
    (s : Bytes) :
    ∀ fuel output, s.length < fuel → output.length < editBufferSize - 1 →
      ¬ (output ++ s.replaceAll find (replace.getD [])).length < editBufferSize - 1 →
      editLoop find replace fuel output s =
        some (output ++ (s ++ t).replaceAll find (replace.getD [])) →
      replace.getD [] = [] ∧
        ((¬ find <:+: s ∧ (s ++ t).replaceAll find (replace.getD []) = []) ∨
          editBufferSize - 1 + find.length ≤ output.length + s.length) := by
  induction s using List.occurrences_induction hfind with
  | none s h =>
      intro fuel output hfuel houtput hfits hedited
      obtain ⟨fuel, rfl⟩ := Nat.exists_eq_add_one_of_ne_zero (Nat.ne_zero_of_lt hfuel)
      rw [List.replaceAll_of_not_isInfix h] at hfits
      rw [editLoop_of_not_isInfix h, appendFitting_of_not hfits, Option.some.injEq] at hedited
      have hnil := List.self_eq_append_right.mp hedited
      have hne : s ++ t ≠ [] := fun hst ↦ ht (List.append_eq_nil_iff.mp hst).2
      exact ⟨(List.replaceAll_eq_nil hne hnil).2, .inl ⟨h, hnil⟩⟩
  | first pre rest hfirst ih =>
      intro fuel output hfuel houtput hfits hedited
      obtain ⟨edited, hloop, hlen⟩ := exists_editLoop hfind replace _ fuel output hfuel houtput
      obtain rfl := Option.some.inj (hloop.symm.trans hedited)
      obtain ⟨fuel, rfl⟩ := Nat.exists_eq_add_one_of_ne_zero (Nat.ne_zero_of_lt hfuel)
      have hpos := List.length_pos_iff.mpr hfind
      have hbehind : pre ++ (find ++ rest) ++ t = pre ++ (find ++ (rest ++ t)) := by
        simp only [List.append_assoc]
      rw [hbehind, append_replaceAll hfind hfirst] at hlen hedited
      rw [append_replaceAll hfind hfirst] at hfits
      rw [editLoop_of_kept hfirst rest fuel hlen] at hedited
      simp only [List.length_append] at hfuel hlen
      have hrest : (output ++ pre ++ replace.getD []).length < editBufferSize - 1 := by
        simp only [List.length_append]
        omega
      obtain ⟨hnil, hdropped⟩ := ih fuel _ (by omega) hrest hfits hedited
      refine ⟨hnil, .inr ?_⟩
      rw [hnil, List.append_nil] at hdropped hfits
      simp only [List.length_append] at hdropped hfits ⊢
      rcases hdropped with ⟨hnot, -⟩ | hlong
      · rw [List.replaceAll_of_not_isInfix hnot] at hfits
        omega
      · omega

/-! ## When the text is the edited one -/

/-- The edited text fits into the buffer and what was not read adds nothing to
it, or there is nothing left and what is looked for is too long to be read. -/
def EditFits (find new content : Bytes) : Prop :=
  ((content.replaceAll find new).length < editBufferSize - 1 ∧
    (content.take (editBufferSize - 1)).replaceAll find new = content.replaceAll find new) ∨
  (content.replaceAll find new = [] ∧ editBufferSize - 1 < find.length)

theorem editFits_of_editContent {content : Bytes} (hfind : find ≠ [])
    (h : editContent find replace (content.take (editBufferSize - 1)) =
      some (content.replaceAll find (replace.getD []))) :
    EditFits find (replace.getD []) content := by
  have hpos := List.length_pos_iff.mpr hfind
  have hfuel := Nat.lt_succ_self (content.take (editBufferSize - 1)).length
  by_cases hfits : ((content.take (editBufferSize - 1)).replaceAll find
      (replace.getD [])).length < editBufferSize - 1
  · have hedited := editLoop_of_fits hfind replace _ _ [] hfuel hfits
    have hsame := Option.some.inj (hedited.symm.trans h)
    rw [List.nil_append] at hsame
    exact .inl ⟨hsame ▸ hfits, hsame⟩
  · have hunread : content.drop (editBufferSize - 1) ≠ [] := by
      intro hnil
      have hall : content.take (editBufferSize - 1) = content := by
        rw [← List.take_append_drop (editBufferSize - 1) content, hnil, List.append_nil,
          List.take_take, Nat.min_self]
      obtain ⟨edited, hloop, hlen⟩ :=
        exists_editLoop hfind replace _ _ [] hfuel (by decide : 0 < editBufferSize - 1)
      obtain rfl := Option.some.inj (hloop.symm.trans h)
      rw [hall] at hfits
      exact hfits hlen
    have hread : (content.take (editBufferSize - 1)).length = editBufferSize - 1 := by
      have hlong := List.length_pos_iff.mpr hunread
      rw [List.length_drop] at hlong
      rw [List.length_take]
      omega
    have hsplit := List.take_append_drop (editBufferSize - 1) content
    obtain ⟨-, ⟨hnot, hnil⟩ | hlong⟩ := dropped_of_editLoop hfind replace hunread _ _ [] hfuel
      (by decide : 0 < editBufferSize - 1) hfits (hsplit.symm ▸ h)
    · rw [hsplit] at hnil
      refine .inr ⟨hnil, ?_⟩
      by_contra hshort
      have hne : content ≠ [] := by
        rintro rfl
        exact hunread rfl
      have hfront := (List.replaceAll_eq_nil hne hnil).1
      exact hnot (List.prefix_take_iff.mpr ⟨hfront, by omega⟩).isInfix
    · rw [hread, List.length_nil] at hlong
      omega

theorem editContent_of_editFits {content : Bytes} (hfind : find ≠ [])
    (h : EditFits find (replace.getD []) content) :
    editContent find replace (content.take (editBufferSize - 1)) =
      some (content.replaceAll find (replace.getD [])) := by
  rcases h with ⟨hlen, hsame⟩ | ⟨hnil, hlong⟩
  · rw [← hsame] at hlen ⊢
    exact editLoop_of_fits hfind replace _ _ [] (Nat.lt_succ_self _) hlen
  · have hnot : ¬ find <:+: content.take (editBufferSize - 1) := by
      intro hoccurs
      have hle := hoccurs.length_le
      rw [List.length_take] at hle
      omega
    rw [hnil, editContent, editLoop_of_not_isInfix hnot]
    by_cases hne : content = []
    · rw [hne]
      rfl
    · have hle := (List.replaceAll_eq_nil hne hnil).1.length_le
      rw [appendFitting_of_not]
      rw [List.nil_append, List.length_take]
      omega

/-! ## The file -/

/-- The file at `path` after further calls, which write to no other file. -/
def fileAfter (env : Env Call Call.Reply) (path : Bytes) : List Call → List Call → Bytes → Bytes
  | _, [], file => file
  | past, c :: calls, file =>
      fileAfter env path (past ++ [c]) calls <|
        match c with
        | .fopenWrite p append =>
            if env past (.fopenWrite p append) ∧ p = path ∧ append = false then [] else file
        | .fwrite s => file ++ s
        | _ => file

/-- The file has all occurrences replaced, or the edit fails and leaves it as
it was. -/
def AllOrNothing (env : Env Call Call.Reply) (edit : ToolM Outcome) (path find : Bytes)
    (replace : Option Bytes) (content : Bytes) : Prop :=
  let run := edit.run env []
  fileAfter env path [] run.1 content = content.replaceAll find (replace.getD []) ∨
    (∃ r', run.2 = some (false, r')) ∧ fileAfter env path [] run.1 content = content

/-- Both times the file is opened. -/
def OpensFile (env : Env Call Call.Reply) (path : Bytes) : Prop :=
  (∃ file, env [] (.fopenRead path) = some file) ∧
    env [.fopenRead path] (.fopenWrite path false) = true

variable {env : Env Call Call.Reply} {path content : Bytes} {r : ToolResult}

/-- A file that cannot be opened stays as it is. -/
theorem allOrNothing_of_not_opens (hfind : find ≠ []) (h : ¬ OpensFile env path) :
    AllOrNothing env (editFile path find replace r) path find replace content := by
  right
  unfold editFile
  simp only [Sys.fopenRead, Prog.run_perform_bind]
  cases hopen : env [] (.fopenRead path) with
  | none => exact ⟨⟨_, rfl⟩, rfl⟩
  | some file =>
      have hwrite : env [.fopenRead path] (.fopenWrite path false) = false := by
        rw [← Bool.not_eq_true]
        exact fun hw ↦ h ⟨⟨file, hopen⟩, hw⟩
      obtain ⟨edited, hedited, -⟩ := exists_editLoop hfind replace
        (CString.ofBuffer (file.take (editBufferSize - 1))) _ [] (Nat.lt_succ_self _)
        (by decide : 0 < editBufferSize - 1)
      rw [← editContent] at hedited
      simp only [hedited, Sys.fopenWrite, Prog.run_perform_bind, List.nil_append, hwrite]
      refine ⟨⟨_, rfl⟩, ?_⟩
      simp [fileAfter, Sys.strerror, Prog.run_perform_bind, failWith, Prog.run, hwrite]

/-- A file that is opened is replaced by the edited text. -/
theorem allOrNothing_iff_editContent (hfind : find ≠ []) (hcontent : (0 : UInt8) ∉ content)
    (hread : ∀ file, env [] (.fopenRead path) = some file → file = content)
    (h : OpensFile env path) :
    AllOrNothing env (editFile path find replace r) path find replace content ↔
      editContent find replace (content.take (editBufferSize - 1)) =
        some (content.replaceAll find (replace.getD [])) := by
  obtain ⟨⟨file, hopen⟩, hwrite⟩ := h
  obtain rfl := hread file hopen
  have hbuffer : CString.ofBuffer (file.take (editBufferSize - 1)) =
      file.take (editBufferSize - 1) :=
    CString.ofBuffer_eq_self fun hmem ↦ hcontent (List.mem_of_mem_take hmem)
  obtain ⟨edited, hedited, -⟩ := exists_editLoop hfind replace
    (file.take (editBufferSize - 1)) _ [] (Nat.lt_succ_self _) (by decide : 0 < editBufferSize - 1)
  rw [← editContent] at hedited
  have hrun : (editFile path find replace r).run env [] =
      ([.fopenRead path, .fopenWrite path false, .fwrite edited],
        some (true,
          { r.printResult (ascii "Applied edit to " ++ path) with success := true })) := by
    unfold editFile
    simp only [Sys.fopenRead, Prog.run_perform_bind, hopen, hbuffer, hedited, Sys.fopenWrite,
      List.nil_append, hwrite, if_true]
    rfl
  have hafter : fileAfter env path []
      [.fopenRead path, .fopenWrite path false, .fwrite edited] file = edited := by
    simp [fileAfter, hwrite]
  rw [AllOrNothing, hrun, hafter, hedited, Option.some.injEq]
  simp

/-- An edit is all or nothing exactly when the edited text fits, or the file
cannot be opened to be read or to be written. -/
theorem edit_is_all_or_nothing_iff (hfind : find ≠ []) (hcontent : (0 : UInt8) ∉ content)
    (hread : ∀ file, env [] (.fopenRead path) = some file → file = content) :
    AllOrNothing env (editFile path find replace r) path find replace content ↔
      (OpensFile env path → EditFits find (replace.getD []) content) := by
  by_cases h : OpensFile env path
  · rw [allOrNothing_iff_editContent hfind hcontent hread h, forall_prop_of_true h]
    exact ⟨editFits_of_editContent hfind, editContent_of_editFits hfind⟩
  · exact iff_of_true (allOrNothing_of_not_opens hfind h) fun hopens ↦ absurd hopens h

/-- A world where every file has this content and can be written. -/
def editEnv (content : Bytes) : Env Call Call.Reply
  | _, .fopenRead _ => some content
  | _, .fopenWrite _ _ => true
  | _, c => c.emptyReply

theorem edit_is_all_or_nothing_iff_short :
    ascii "a" ≠ [] ∧ (0 : UInt8) ∉ ascii "banana" ∧
      (AllOrNothing (editEnv (ascii "banana")) (editFile (ascii "f") (ascii "a") none .zero)
          (ascii "f") (ascii "a") none (ascii "banana") ↔
        (OpensFile (editEnv (ascii "banana")) (ascii "f") →
          EditFits (ascii "a") [] (ascii "banana"))) :=
  ⟨by decide, by decide, edit_is_all_or_nothing_iff (by decide) (by decide)
    fun _ h ↦ (Option.some.inj h).symm⟩

/-- The pointers of all three parameters are the same. -/
def sameParams : Bytes := ascii "\x7b\"path\":\"zz\",\"find\":\"zz\",\"replace\":\"zz\"\x7d"

theorem sameParams_pointers :
    ∀ key ∈ ["path", "find", "replace"],
      paramPointer sameParams key (paramBuffer sameParams (ascii "replace")) =
        some (ascii "zz") := by
  decide

/-- In a file of 65535 bytes nothing is found, and an empty file is written. -/
theorem edit_is_not_all_or_nothing :
    ¬ ∀ (env : Env Call Call.Reply) (params path find replace content : Bytes) (r : ToolResult),
      paramPointer params "path" (paramBuffer params (ascii "replace")) = some path →
      paramPointer params "find" (paramBuffer params (ascii "replace")) = some find →
      paramPointer params "replace" (paramBuffer params (ascii "replace")) = some replace →
      find ≠ [] → (0 : UInt8) ∉ content →
      (∀ file, env [] (.fopenRead path) = some file → file = content) →
      AllOrNothing env (toolEditExecute params r) path find (some replace) content := by
  intro h
  have hnotMem (c : UInt8) (hc : c ≠ 97) : c ∉ List.replicate 65535 (97 : UInt8) :=
    fun hmem ↦ hc (List.eq_of_mem_replicate hmem)
  have hread : ∀ file, editEnv (List.replicate 65535 97) [] (.fopenRead (ascii "zz")) = some file →
      file = List.replicate 65535 97 := fun _ h ↦ (Option.some.inj h).symm
  have hpath := sameParams_pointers "path" (by decide)
  have hfind := sameParams_pointers "find" (by decide)
  have hreplace := sameParams_pointers "replace" (by decide)
  have hedit := h (editEnv (List.replicate 65535 97)) sameParams (ascii "zz") (ascii "zz")
    (ascii "zz") (List.replicate 65535 97) .zero hpath hfind hreplace (by decide)
    (hnotMem 0 (by decide)) hread
  have hnot : ¬ ascii "zz" <:+: List.replicate 65535 (97 : UInt8) := fun hoccurs ↦
    hnotMem 122 (by decide) (hoccurs.subset (by decide))
  rw [toolEditExecute_of_params _ hpath hfind, hreplace,
    allOrNothing_iff_editContent (by decide) (hnotMem 0 (by decide)) hread ⟨⟨_, rfl⟩, rfl⟩]
    at hedit
  rcases editFits_of_editContent (by decide) hedit with ⟨hlen, -⟩ | ⟨-, hlong⟩
  · rw [List.replaceAll_of_not_isInfix hnot, List.length_replicate] at hlen
    exact absurd hlen (by decide)
  · exact absurd hlong (by decide)

end DoctorClaw
