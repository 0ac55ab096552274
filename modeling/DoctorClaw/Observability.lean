import DoctorClaw.HandleRequest
import DoctorClaw.Lib.Decimal
import DoctorClaw.Lib.KeyedList
import DoctorClaw.Lib.Lists
import Mathlib.Algebra.Ring.Rat

/-!
# Exported counters

`observability_record` appends a sample to a table of 128 entries and refuses
it when the table is full.  The Prometheus export adds up the samples of each
name and prints a line for each name while more than 100 bytes of the buffer
are left.  Values are rational numbers here, and how `%f` renders one is a
parameter.
-/

namespace DoctorClaw

open CString KeyedList

def maxMetricName : ℕ := 128

/-- What is returned, and the metrics afterwards. -/
def observabilityRecord {V : Type} (obs : Observability V) (name : Bytes) (value : V) :
    ℤ × Observability V :=
  if maxMetrics ≤ obs.metrics.length then (-1, obs)
  else (0, { obs with metrics := obs.metrics ++ [⟨cut maxMetricName name, value⟩] })

theorem observabilityRecordGlobal_eq {V : Type} (obs : Observability V) (name : Bytes) (value : V) :
    observabilityRecordGlobal obs name value =
      if obs.inited then (observabilityRecord obs name value).2 else obs := by
  unfold observabilityRecordGlobal observabilityRecord
  by_cases hinited : obs.inited
  · by_cases hfull : maxMetrics ≤ obs.metrics.length
    · simp [hinited, hfull]
    · simp [hinited, hfull, not_le.mp hfull, maxMetricName]
  · simp [hinited]

/-- The metrics after a sequence of calls since the reset. -/
def metricsAfter (calls : List (Bytes × ℚ)) : Observability ℚ :=
  calls.foldl (fun obs call ↦ (observabilityRecord obs call.1 call.2).2) ⟨[], true⟩

section Export

variable (printF : ℚ → Bytes)

def rationalOps : DoubleOps ℚ := ⟨1, (· + ·), printF⟩

def sampleLine (s : Bytes × ℚ) : Bytes :=
  ascii "doctorclaw_" ++ s.1 ++ [32] ++ printF s.2 ++ [10]

def metricsHeader : Bytes := metricsHelp ++ metricsType

/-- The samples whose lines the last loop prints, the first one at `offset`. -/
def printedSamples (outputSize : ℕ) : ℕ → List (Bytes × ℚ) → List (Bytes × ℚ)
  | _, [] => []
  | offset, s :: sums =>
      if offset < outputSize - 100 then
        s :: printedSamples outputSize (offset + (sampleLine printF s).length) sums
      else []

/-- The samples whose lines an export prints. -/
def exportedSamples (obs : Observability ℚ) (outputSize : ℕ) : List (Bytes × ℚ) :=
  printedSamples printF outputSize metricsHeader.length
    (if metricsHeader.length < outputSize - 100 then
      obs.metrics.foldl (addToSums (rationalOps printF)) []
    else [])

/-- The text with a line for each of the samples. -/
def exportText (samples : List (Bytes × ℚ)) : Bytes :=
  metricsHeader ++ samples.flatMap (sampleLine printF)

/-- Each recorded name is printed with the sum of all values recorded under
it, and no line is cut. -/
structure ExportComplete (calls : List (Bytes × ℚ)) (outputSize : ℕ) : Prop where
  text : observabilityPrometheusExport (rationalOps printF) (some (metricsAfter calls)) outputSize =
    some (ofBuffer (exportText printF (exportedSamples printF (metricsAfter calls) outputSize)))
  sums : ∀ call ∈ calls, (call.1, total call.1 calls) ∈
    exportedSamples printF (metricsAfter calls) outputSize

/-- The samples after the first 128 are of known names and add up to nothing,
and the last line begins more than 100 bytes before the end of the buffer. -/
structure ExportSuffices (calls : List (Bytes × ℚ)) (outputSize : ℕ) : Prop where
  known : ∀ call ∈ calls.drop maxMetrics, call.1 ∈ (calls.take maxMetrics).map Prod.fst
  cancel : ∀ call ∈ calls.drop maxMetrics, total call.1 (calls.drop maxMetrics) = 0
  margin : calls = [] ∨ (exportText printF (tally calls).dropLast).length + 100 < outputSize

variable {printF} {calls : List (Bytes × ℚ)} {outputSize offset : ℕ} {sums : List (Bytes × ℚ)}

/-! ## The last loop -/

theorem printedSamples_isPrefix (printF : ℚ → Bytes) (outputSize offset : ℕ)
    (sums : List (Bytes × ℚ)) : printedSamples printF outputSize offset sums <+: sums := by
  induction sums generalizing offset with
  | nil => exact List.prefix_refl _
  | cons s sums ih =>
      rw [printedSamples]
      split_ifs
      · exact List.cons_prefix_cons.mpr ⟨rfl, ih _⟩
      · exact List.nil_prefix

/-- All lines are printed when the last one begins early enough. -/
theorem printedSamples_eq_iff :
    printedSamples printF outputSize offset sums = sums ↔ sums = [] ∨
      offset + (sums.dropLast.flatMap (sampleLine printF)).length < outputSize - 100 := by
  induction sums generalizing offset with
  | nil => simp [printedSamples]
  | cons s sums ih =>
      rw [printedSamples]
      by_cases hguard : offset < outputSize - 100
      · rw [if_pos hguard, List.cons.injEq, ih]
        cases sums with
        | nil => simpa using hguard
        | cons s' sums =>
            simp only [reduceCtorEq, false_or, true_and, List.dropLast_cons_cons, List.flatMap_cons,
              List.length_append]
            omega
      · rw [if_neg hguard]
        simp only [reduceCtorEq, false_or, false_iff]
        omega

/-- Lines that fit into the buffer are printed uncut. -/
theorem exportSums_eq (out : Bytes)
    (hfit : offset + ((printedSamples printF outputSize offset sums).flatMap
      (sampleLine printF)).length < outputSize) :
    exportSums (rationalOps printF) outputSize offset out sums =
      out ++ (printedSamples printF outputSize offset sums).flatMap (sampleLine printF) := by
  induction sums generalizing offset out with
  | nil => rw [exportSums, printedSamples, List.flatMap_nil, List.append_nil]
  | cons s sums ih =>
      rw [printedSamples] at hfit ⊢
      change (if offset < outputSize - 100 then
        exportSums (rationalOps printF) outputSize (offset + (sampleLine printF s).length)
          (out ++ cut (outputSize - offset) (sampleLine printF s)) sums else out) = _
      by_cases hguard : offset < outputSize - 100
      · rw [if_pos hguard, List.flatMap_cons, List.length_append] at hfit
        rw [if_pos hguard, if_pos hguard, cut_of_lt (by omega), ih _ (by omega), List.flatMap_cons,
          List.append_assoc]
      · rw [if_neg hguard, if_neg hguard, List.flatMap_nil, List.append_nil]

/-! ## The table -/

theorem metricsAfter_eq (hfits : ∀ call ∈ calls, call.1.length < maxMetricName) :
    metricsAfter calls = ⟨(calls.take maxMetrics).map fun call ↦ ⟨call.1, call.2⟩, true⟩ := by
  induction calls using List.reverseRecOn with
  | nil => rfl
  | append_singleton calls call ih =>
      have happ : metricsAfter (calls ++ [call]) =
          (observabilityRecord (metricsAfter calls) call.1 call.2).2 := by
        simp [metricsAfter]
      rw [happ, ih fun c hc ↦ hfits c (List.mem_append_left _ hc), observabilityRecord,
        cut_of_lt (hfits call (by simp)), List.length_map, List.length_take]
      by_cases hfull : maxMetrics ≤ calls.length
      · rw [if_pos (by omega), List.take_append_of_le_length hfull]
      · have hshort : (calls ++ [call]).length ≤ maxMetrics := by
          rw [List.length_append, List.length_singleton]
          omega
        rw [if_neg (by omega), List.take_of_length_le (by omega), List.take_of_length_le hshort,
          List.map_append, List.map_singleton]

/-- Adding to the entries of a key is adding to its one entry. -/
theorem map_add_eq_addTo {k : Bytes} {v : ℚ} {t : List (Bytes × ℚ)} (hmem : k ∈ t.map Prod.fst)
    (hnodup : (t.map Prod.fst).Nodup) :
    (t.map fun s ↦ if s.1 = k then (s.1, s.2 + v) else s) = addTo k v t := by
  induction t with
  | nil => exact absurd hmem List.not_mem_nil
  | cons s t ih =>
      rw [List.map_cons, List.nodup_cons] at hnodup
      by_cases hs : s.1 = k
      · have hrest : (t.map fun s ↦ if s.1 = k then (s.1, s.2 + v) else s) = t := by
          conv_rhs => rw [← List.map_id t]
          refine List.map_congr_left fun s' hs' ↦ if_neg fun heq ↦ hnodup.1 ?_
          rw [hs, ← heq]
          exact List.mem_map_of_mem hs'
        rw [List.map_cons, if_pos hs, addTo, if_pos hs, hrest]
      · rw [List.map_cons, List.mem_cons] at hmem
        rw [List.map_cons, if_neg hs, addTo, if_neg hs,
          ih (hmem.resolve_left (Ne.symm hs)) hnodup.2]

theorem foldl_addToSums (printF : ℚ → Bytes) (hlen : calls.length ≤ maxMetrics)
    (hfits : ∀ call ∈ calls, call.1.length < maxMetricName) :
    (calls.map fun call ↦ (⟨call.1, call.2⟩ : Metric ℚ)).foldl (addToSums (rationalOps printF)) [] =
      tally calls := by
  induction calls using List.reverseRecOn with
  | nil => rfl
  | append_singleton calls call ih =>
      rw [List.length_append, List.length_singleton] at hlen
      rw [List.map_append, List.foldl_append, ih (by omega)
        fun c hc ↦ hfits c (List.mem_append_left _ hc), tally_append_singleton]
      change addToSums _ _ ⟨call.1, call.2⟩ = addTo call.1 call.2 _
      have hany : ((tally calls).any fun s ↦ decide (s.1 = call.1)) = true ↔
          call.1 ∈ (tally calls).map Prod.fst := by
        rw [List.any_eq_true, List.mem_map]
        simp only [decide_eq_true_eq]
      have hroom := length_tally_le calls
      unfold addToSums
      split_ifs with hmem hlt
      · exact map_add_eq_addTo (hany.mp hmem) (nodup_keys_tally calls)
      · have hcut : cut 128 call.1 = call.1 := cut_of_lt (hfits call (by simp))
        rw [addTo_of_notMem (mt hany.mpr hmem), hcut]
      · omega

theorem exportedSamples_eq (printF : ℚ → Bytes)
    (hfits : ∀ call ∈ calls, call.1.length < maxMetricName) (outputSize : ℕ) :
    exportedSamples printF (metricsAfter calls) outputSize =
      printedSamples printF outputSize metricsHeader.length (tally (calls.take maxMetrics)) := by
  rw [exportedSamples, metricsAfter_eq hfits, foldl_addToSums printF (List.length_take_le _ _)
    fun call hcall ↦ hfits call (List.mem_of_mem_take hcall)]
  split_ifs with hguard
  · rfl
  · cases tally (calls.take maxMetrics) with
    | nil => rfl
    | cons s sums => rw [printedSamples, printedSamples, if_neg hguard]

/-- The text of an export whose lines fit. -/
theorem export_eq {obs : Observability ℚ}
    (hfit : (exportText printF (exportedSamples printF obs outputSize)).length < outputSize) :
    observabilityPrometheusExport (rationalOps printF) (some obs) outputSize =
      some (ofBuffer (exportText printF (exportedSamples printF obs outputSize))) := by
  have hheader : metricsHeader.length = metricsHelp.length + metricsType.length :=
    List.length_append
  rw [exportText, List.length_append] at hfit
  have hhelp : cut outputSize metricsHelp = metricsHelp := cut_of_lt (by omega)
  have htype : cut (outputSize - metricsHelp.length) metricsType = metricsType :=
    cut_of_lt (by omega)
  rw [observabilityPrometheusExport, Option.map_some]
  simp only [hhelp, htype, ← hheader]
  rw [exportSums_eq _ hfit]
  rfl

/-- The late samples change nothing. -/
theorem tally_take_eq
    (hknown : ∀ call ∈ calls.drop maxMetrics, call.1 ∈ (calls.take maxMetrics).map Prod.fst)
    (hcancel : ∀ call ∈ calls.drop maxMetrics, total call.1 (calls.drop maxMetrics) = 0) :
    tally (calls.take maxMetrics) = tally calls := by
  conv_rhs => rw [← List.take_append_drop maxMetrics calls]
  exact (tally_append_eq hknown hcancel).symm

/-- The export is complete exactly when the samples beyond the table cancel
out and the last line begins early enough. -/
theorem export_complete_iff (hfits : ∀ call ∈ calls, call.1.length < maxMetricName)
    (hsize : (exportText printF (tally calls)).length < outputSize) :
    ExportComplete printF calls outputSize ↔ ExportSuffices printF calls outputSize := by
  have hmargin : ∀ sums : List (Bytes × ℚ),
      metricsHeader.length + (sums.dropLast.flatMap (sampleLine printF)).length <
          outputSize - 100 ↔ (exportText printF sums.dropLast).length + 100 < outputSize := by
    intro sums
    rw [exportText, List.length_append]
    omega
  have hsamples := exportedSamples_eq printF hfits outputSize
  constructor
  · rintro ⟨-, hsums⟩
    have hstart := printedSamples_isPrefix printF outputSize metricsHeader.length
      (tally (calls.take maxMetrics))
    rw [hsamples] at hsums
    have hmem : ∀ call ∈ calls, call.1 ∈ (calls.take maxMetrics).map Prod.fst ∧
        total call.1 calls = total call.1 (calls.take maxMetrics) :=
      fun call hcall ↦ mem_tally_iff.mp (hstart.subset (hsums call hcall))
    have hknown : ∀ call ∈ calls.drop maxMetrics, call.1 ∈ (calls.take maxMetrics).map Prod.fst :=
      fun call hcall ↦ (hmem call (List.mem_of_mem_drop hcall)).1
    have hcancel : ∀ call ∈ calls.drop maxMetrics, total call.1 (calls.drop maxMetrics) = 0 := by
      intro call hcall
      have htotal := (hmem call (List.mem_of_mem_drop hcall)).2
      conv_lhs at htotal => rw [← List.take_append_drop maxMetrics calls, total_append]
      exact add_eq_left.mp htotal
    rw [tally_take_eq hknown hcancel] at hstart hsums
    refine ⟨hknown, hcancel, ?_⟩
    have hprinted := hstart.eq_of_subset (nodup_keys_tally calls).of_map fun s hs ↦ by
      obtain ⟨hkey, htotal⟩ := mem_tally_iff.mp (show (s.1, s.2) ∈ _ from hs)
      obtain ⟨call, hcall, hname⟩ := List.mem_map.mp hkey
      have hs' : s = (call.1, total call.1 calls) :=
        Prod.ext hname.symm (htotal.trans (congrArg (total · calls) hname.symm))
      rw [hs']
      exact hsums call hcall
    refine (printedSamples_eq_iff.mp hprinted).imp (fun hnil ↦ ?_) (hmargin _).mp
    refine List.eq_nil_iff_forall_not_mem.mpr fun call hcall ↦ ?_
    have hkey := mem_keys_tally.mpr (List.mem_map_of_mem (f := Prod.fst) hcall)
    rw [hnil] at hkey
    exact absurd hkey List.not_mem_nil
  · intro h
    have hprinted : printedSamples printF outputSize metricsHeader.length (tally calls) =
        tally calls := by
      refine printedSamples_eq_iff.mpr (h.margin.imp ?_ (hmargin _).mpr)
      rintro rfl
      rfl
    have hall : exportedSamples printF (metricsAfter calls) outputSize = tally calls := by
      rw [hsamples, tally_take_eq h.known h.cancel, hprinted]
    refine ⟨export_eq (by rwa [hall]), fun call hcall ↦ ?_⟩
    rw [hall]
    exact mem_tally_iff.mpr ⟨List.mem_map_of_mem hcall, rfl⟩

end Export

/-- `%f` of an integer. -/
def printWhole (q : ℚ) : Bytes := Decimal.printInt q.num ++ ascii ".000000"

/-- `handle_request` records one such sample for each request. -/
def requestSamples (n : ℕ) : List (Bytes × ℚ) := List.replicate n (ascii "http_requests_total", 1)

theorem three_requests_exported : ExportComplete printWhole (requestSamples 3) 8192 := by
  refine (export_complete_iff (by decide) (by decide +kernel)).mpr ⟨?_, ?_, Or.inr ?_⟩
  · exact fun call hcall ↦ absurd hcall List.not_mem_nil
  · exact fun call hcall ↦ absurd hcall List.not_mem_nil
  · decide +kernel

/-- After 129 requests the counter stays at 128. -/
theorem late_request_not_exported :
    (∀ call ∈ requestSamples 129, call.1.length < maxMetricName) ∧
      (exportText printWhole (tally (requestSamples 129))).length < 8192 ∧
      ¬ ExportComplete printWhole (requestSamples 129) 8192 := by
  have hfits : ∀ call ∈ requestSamples 129, call.1.length < maxMetricName := by
    intro call hcall
    rw [List.eq_of_mem_replicate hcall]
    decide
  refine ⟨hfits, by decide +kernel, fun h ↦ ?_⟩
  have hfirst := h.sums (ascii "http_requests_total", 1)
    (List.mem_replicate.mpr ⟨by decide, rfl⟩)
  rw [exportedSamples_eq _ hfits] at hfirst
  have htotal := (mem_tally_iff.mp ((printedSamples_isPrefix _ _ _ _).subset hfirst)).2
  exact absurd htotal (by decide +kernel)

end DoctorClaw
