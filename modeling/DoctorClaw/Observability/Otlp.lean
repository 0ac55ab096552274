import DoctorClaw.Lib.BufferWriter
import DoctorClaw.Lib.Json.Shortest

/-!
# The OTLP export

`observability_otlp_export` prints the metrics into a buffer of 16 KiB until less
than 200 bytes are left, and then closes the document.  While no metric takes
more than 192 bytes, what is sent is the document of the metrics printed so far.

A name of 127 bytes is too long for that: then the end of the document may be
written behind the buffer.
-/

namespace DoctorClaw

open BufferWriter Json

/-- A metric with its value as `%f` prints it. -/
structure OtlpMetric where
  metricName : Bytes
  value : Bytes
  timestamp : UInt64

/-- Nanoseconds, in 64 bits. -/
def OtlpMetric.timeUnixNano (m : OtlpMetric) : Bytes :=
  Decimal.printNat (m.timestamp * 1000000000).toNat

def gaugeJson (name value nanos : Bytes) : Bytes :=
  ascii "\x7b\"name\":\"" ++ name ++
    ascii "\",\"gauge\":\x7b\"dataPoints\":[\x7b\"asDouble\":" ++ value ++
    ascii ",\"timeUnixNano\":" ++ nanos ++ ascii "\x7d]\x7d\x7d"

def metricJson (m : OtlpMetric) : Bytes := gaugeJson m.metricName m.value m.timeUnixNano

def otlpFront : Bytes :=
  ascii "\x7b\"resourceMetrics\":[\x7b\"scopeMetrics\":[\x7b\"metrics\":["

def otlpEnd : Bytes := ascii "]\x7d]\x7d]\x7d"

/-- The loop over the metrics; `offset` is the position of the writer. -/
def printMetrics : Bool → Writer → List OtlpMetric → Writer
  | _, w, [] => w
  | first, w, m :: ms =>
      if w.pos < 16384 - 200 then
        let w := if first then w else w.snprintf [44]
        printMetrics false (w.snprintf (metricJson m)) ms
      else w

/-- The payload that `observability_otlp_export` posts. -/
def observabilityOtlpExport (metrics : List OtlpMetric) : Bytes :=
  let w := (Writer.start (List.replicate 16384 0)).snprintf otlpFront
  CString.ofBuffer ((printMetrics true w metrics).snprintf otlpEnd).buffer

/-! ## The document -/

def metricValue (m : OtlpMetric) : Value :=
  .object [(ascii "name", .string m.metricName),
    (ascii "gauge", .object [(ascii "dataPoints", .array [.object
      [(ascii "asDouble", .number m.value), (ascii "timeUnixNano", .number m.timeUnixNano)]])])]

def otlpDocument (metrics : List OtlpMetric) : Value :=
  .object [(ascii "resourceMetrics", .array [.object [(ascii "scopeMetrics", .array [.object
    [(ascii "metrics", .array (metrics.map metricValue))]])]])]

/-- The metrics that are printed, the first of them at the offset. -/
def printedMetrics : Bool → ℕ → List OtlpMetric → List OtlpMetric
  | _, _, [] => []
  | first, offset, m :: ms =>
      if offset < 16184 then
        m :: printedMetrics false
          (offset + (if first then 0 else 1) + (metricJson m).length) ms
      else []

/-- What a metric must be like to be exported. -/
structure OtlpMetric.Exportable (m : OtlpMetric) : Prop where
  isNumber : IsNumber m.value
  nul : (0 : UInt8) ∉ m.metricName
  length_le : (metricJson m).length ≤ 192

/-! ## The text of a metric -/

section Gauge

variable {name value nanos : Bytes}

def pointEntries (value nanos : Bytes) : List Entry :=
  [numberEntry (ascii "asDouble") value, numberEntry (ascii "timeUnixNano") nanos]

def pointItem (value nanos : Bytes) : Value × Bytes :=
  (.object ((pointEntries value nanos).map Entry.member), entriesText (pointEntries value nanos))

def gaugeEntries (name value nanos : Bytes) : List Entry :=
  [(ascii "name", .string name, stringText name),
    objectEntry (ascii "gauge") [arrayEntry (ascii "dataPoints") [pointItem value nanos]]]

theorem gaugeJson_eq (name value nanos : Bytes) :
    gaugeJson name value nanos = entriesText (gaugeEntries name value nanos) := by
  simp only [gaugeJson, entriesText, gaugeEntries, pointItem, pointEntries, numberEntry,
    objectEntry, arrayEntry, stringText, objectText, arrayText, joined, memberText, List.map_cons,
    List.map_nil, List.append_assoc, if_neg (List.cons_ne_nil _ _), if_true, List.cons_append]
  rfl

theorem settled_pointEntries (hvalue : IsNumber value) (hnanos : IsNumber nanos) :
    ∀ e ∈ pointEntries value nanos, Settled e := by
  rw [pointEntries, List.forall_mem_cons, List.forall_mem_singleton]
  exact ⟨settled_number (by decide) (by decide) hvalue,
    settled_number (by decide) (by decide) hnanos⟩

theorem settled_gauge (hvalue : IsNumber value) (hnanos : IsNumber nanos) :
    Settled (objectEntry (ascii "gauge")
      [arrayEntry (ascii "dataPoints") [pointItem value nanos]]) := by
  have hpoint := settled_pointEntries hvalue hnanos
  refine settled_object (by decide) (by decide) (List.forall_mem_singleton.mpr ?_)
  refine settled_array (by decide) (by decide) (List.forall_mem_singleton.mpr ⟨?_, ?_⟩)
  · exact compact_object fun e he ↦ (hpoint e he).compact
  · exact (exact_object fun e he ↦ (hpoint e he).compact).mpr fun e he ↦ (hpoint e he).exact

theorem gaugeEntries_compact (hvalue : IsNumber value) (hnanos : IsNumber nanos) :
    ∀ e ∈ gaugeEntries name value nanos, e.Compact := by
  rw [gaugeEntries, List.forall_mem_cons, List.forall_mem_singleton]
  exact ⟨entry_compact (by decide) (by decide) (compact_string _),
    (settled_gauge hvalue hnanos).compact⟩

theorem exact_gauge (hvalue : IsNumber value) (hnanos : IsNumber nanos) :
    Exact (.object ((gaugeEntries name value nanos).map Entry.member))
        (entriesText (gaugeEntries name value nanos)) ↔
      isUtf8 name = true ∧ Plain name := by
  refine (exact_object (gaugeEntries_compact hvalue hnanos)).trans ?_
  rw [gaugeEntries, List.forall_mem_cons, List.forall_mem_singleton]
  exact ⟨fun he ↦ exact_string.mp he.1,
    fun he ↦ ⟨exact_string.mpr he, (settled_gauge hvalue hnanos).exact⟩⟩

end Gauge

theorem compact_metricJson {m : OtlpMetric} (h : IsNumber m.value) :
    Compact (metricValue m) (metricJson m) := by
  rw [metricJson, gaugeJson_eq]
  exact compact_object (gaugeEntries_compact h (isNumber_printNat _))

theorem exact_metricJson {m : OtlpMetric} (h : IsNumber m.value) :
    Exact (metricValue m) (metricJson m) ↔ isUtf8 m.metricName = true ∧ Plain m.metricName := by
  rw [metricJson, gaugeJson_eq]
  exact exact_gauge h (isNumber_printNat _)

/-! ## The text of the document -/

def metricItems (ms : List OtlpMetric) : List (Value × Bytes) :=
  ms.map fun m ↦ (metricValue m, metricJson m)

def scopeEntries (ms : List OtlpMetric) : List Entry :=
  [arrayEntry (ascii "metrics") (metricItems ms)]

def scopeItem (ms : List OtlpMetric) : Value × Bytes :=
  (.object ((scopeEntries ms).map Entry.member), entriesText (scopeEntries ms))

def resourceEntries (ms : List OtlpMetric) : List Entry :=
  [arrayEntry (ascii "scopeMetrics") [scopeItem ms]]

def resourceItem (ms : List OtlpMetric) : Value × Bytes :=
  (.object ((resourceEntries ms).map Entry.member), entriesText (resourceEntries ms))

def otlpEntries (ms : List OtlpMetric) : List Entry :=
  [arrayEntry (ascii "resourceMetrics") [resourceItem ms]]

variable {ms : List OtlpMetric}

theorem metricItems_fst (ms : List OtlpMetric) :
    (metricItems ms).map Prod.fst = ms.map metricValue :=
  List.map_map

theorem metricItems_snd (ms : List OtlpMetric) :
    (metricItems ms).map Prod.snd = ms.map metricJson :=
  List.map_map

theorem metricItems_compact (h : ∀ m ∈ ms, IsNumber m.value) :
    ∀ p ∈ metricItems ms, Compact p.1 p.2 :=
  List.forall_mem_map.mpr fun m hm ↦ compact_metricJson (h m hm)

/-- One member, an array. -/
theorem compact_single (key : Bytes) (items : List (Value × Bytes)) (hkey : Plain key)
    (hutf8 : isUtf8 key = true) (h : ∀ p ∈ items, Compact p.1 p.2) :
    Compact (.object ([arrayEntry key items].map Entry.member))
        (entriesText [arrayEntry key items]) ∧
      (Exact (.object ([arrayEntry key items].map Entry.member))
          (entriesText [arrayEntry key items]) ↔ ∀ p ∈ items, Exact p.1 p.2) := by
  have hentry : ∀ e ∈ [arrayEntry key items], e.Compact :=
    List.forall_mem_singleton.mpr (entry_compact hkey hutf8 (compact_array h))
  refine ⟨compact_object hentry, (exact_object hentry).trans ?_⟩
  rw [List.forall_mem_singleton]
  exact exact_array h

theorem otlpDocument_eq (ms : List OtlpMetric) :
    otlpDocument ms = .object ((otlpEntries ms).map Entry.member) := by
  rw [otlpDocument, ← metricItems_fst]
  rfl

/-- The text of the document reads as it if every name stands for itself. -/
theorem parse_otlp_iff (h : ∀ m ∈ ms, IsNumber m.value) :
    Json.parse (entriesText (otlpEntries ms)) = some (otlpDocument ms) ↔
      ∀ m ∈ ms, isUtf8 m.metricName = true ∧ Plain m.metricName := by
  obtain ⟨hscope, hscopeIff⟩ := compact_single (ascii "metrics") (metricItems ms) (by decide)
    (by decide) (metricItems_compact h)
  obtain ⟨hresource, hresourceIff⟩ := compact_single (ascii "scopeMetrics") [scopeItem ms]
    (by decide) (by decide) (List.forall_mem_singleton.mpr hscope)
  obtain ⟨hdocument, hdocumentIff⟩ := compact_single (ascii "resourceMetrics")
    [resourceItem ms] (by decide) (by decide) (List.forall_mem_singleton.mpr hresource)
  rw [List.forall_mem_singleton] at hresourceIff hdocumentIff
  rw [otlpDocument_eq]
  refine hdocument.parse_iff.trans (hdocumentIff.trans (hresourceIff.trans (hscopeIff.trans ?_)))
  rw [metricItems, List.forall_mem_map]
  exact forall₂_congr fun m hm ↦ exact_metricJson (h m hm)

theorem otlpText_eq (ms : List OtlpMetric) :
    otlpFront ++ joined (ms.map metricJson) ++ otlpEnd = entriesText (otlpEntries ms) := by
  have hfront : otlpFront = 123 :: 34 :: (ascii "resourceMetrics" ++ 34 :: 58 :: 91 :: 123 ::
      34 :: (ascii "scopeMetrics" ++ 34 :: 58 :: 91 :: 123 :: 34 ::
        (ascii "metrics" ++ [34, 58, 91]))) := by decide
  have hend : otlpEnd = [93, 125, 93, 125, 93, 125] := by decide
  rw [← metricItems_snd, hfront, hend]
  simp only [entriesText, otlpEntries, resourceItem, resourceEntries, scopeItem, scopeEntries,
    arrayEntry, objectText, arrayText, joined, memberText, List.map_cons, List.map_nil,
    List.append_assoc, if_true, List.cons_append, List.nil_append]

/-! ## Printing -/

section Printing

variable {n : ℕ} {w : Writer} {text : Bytes}

/-- The commas and texts behind the first metric. -/
def moreMetrics (ms : List OtlpMetric) : Bytes := ms.flatMap fun m ↦ 44 :: metricJson m

theorem joined_eq_moreMetrics (m : OtlpMetric) (ms : List OtlpMetric) :
    joined ((m :: ms).map metricJson) = metricJson m ++ moreMetrics ms := by
  induction ms generalizing m with
  | nil => exact (List.append_nil _).symm
  | cons m' ms ih =>
      rw [List.map_cons, List.map_cons, joined_cons _ (List.cons_ne_nil _ _), ← List.map_cons, ih]
      rfl

theorem printedMetrics_isPrefix (first : Bool) (offset : ℕ) (ms : List OtlpMetric) :
    printedMetrics first offset ms <+: ms := by
  induction ms generalizing first offset with
  | nil => exact List.prefix_rfl
  | cons m ms ih =>
      rw [printedMetrics]
      by_cases hguard : offset < 16184
      · rw [if_pos hguard]
        exact List.cons_prefix_cons.mpr ⟨rfl, ih _ _⟩
      · rw [if_neg hguard]
        exact List.nil_prefix

theorem printedMetrics_cons (offset : ℕ) (m : OtlpMetric) (ms : List OtlpMetric) :
    printedMetrics false offset (m :: ms) =
      if offset < 16184 then m :: printedMetrics false (offset + 1 + (metricJson m).length) ms
      else [] := rfl

theorem printMetrics_cons (w : Writer) (m : OtlpMetric) (ms : List OtlpMetric) :
    printMetrics false w (m :: ms) =
      if w.pos < 16184 then printMetrics false ((w.snprintf [44]).snprintf (metricJson m)) ms
      else w := rfl

/-- The loop stops at the end or behind the guard. -/
theorem printedMetrics_cases (offset : ℕ) (ms : List OtlpMetric) :
    printedMetrics false offset ms = ms ∨
      16184 ≤ offset + (moreMetrics (printedMetrics false offset ms)).length := by
  induction ms generalizing offset with
  | nil => exact .inl rfl
  | cons m ms ih =>
      rw [printedMetrics_cons]
      split_ifs with hguard
      · have hlength (ms : List OtlpMetric) : (moreMetrics (m :: ms)).length =
            1 + (metricJson m).length + (moreMetrics ms).length := by
          simp only [moreMetrics, List.flatMap_cons, List.length_append, List.length_cons]
          omega
        obtain hall | hlate := ih (offset + 1 + (metricJson m).length)
        · exact .inl (congrArg (m :: ·) hall)
        · refine .inr (hlate.trans ?_)
          rw [hlength]
          omega
      · exact .inr (Nat.le_add_right_of_le (Nat.not_lt.mp hguard))

/-- A step of the loop keeps eight bytes free. -/
theorem printMetrics_spec (ms : List OtlpMetric) (h : ∀ m ∈ ms, m.Exportable)
    (hw : w.Sound 16384) (ht : w.Holds text) (hroom : w.pos ≤ 16376) :
    (printMetrics false w ms).Sound 16384 ∧ (printMetrics false w ms).pos ≤ 16376 ∧
      (printMetrics false w ms).Holds (text ++ moreMetrics (printedMetrics false w.pos ms)) := by
  induction ms generalizing w text with
  | nil =>
      refine ⟨hw, hroom, ?_⟩
      rwa [printedMetrics, moreMetrics, List.flatMap_nil, List.append_nil]
  | cons m ms ih =>
      rw [List.forall_mem_cons] at h
      rw [printMetrics_cons, printedMetrics_cons]
      split_ifs with hguard
      · have hspace := hw.space
        have hlen := h.1.length_le
        have hone : [(44 : UInt8)].length = 1 := rfl
        have hcomma := hw.snprintf (s := [44]) (by omega)
        have hleft := Writer.snprintf_remaining (w := w) (s := [44]) (by omega)
        have hheld := ht.snprintf hw (s := [44]) (by omega)
        have hmetric := hcomma.snprintf (s := metricJson m) (by omega)
        have hholds := hheld.snprintf hcomma (s := metricJson m) (by omega)
        have hpos : ((w.snprintf [44]).snprintf (metricJson m)).pos =
            w.pos + 1 + (metricJson m).length := rfl
        obtain ⟨hsound, hbound, htext⟩ := ih h.2 hmetric hholds (by omega)
        refine ⟨hsound, hbound, ?_⟩
        rw [hpos] at htext
        simpa [moreMetrics, List.append_assoc] using htext
      · exact ⟨hw, hroom, by rwa [moreMetrics, List.flatMap_nil, List.append_nil]⟩

def metricsText (ms : List OtlpMetric) : Bytes := otlpFront ++ joined (ms.map metricJson)

theorem length_otlpFront : otlpFront.length = 49 := rfl

/-- The whole loop, the first metric without a comma. -/
theorem printMetrics_all (ms : List OtlpMetric) (h : ∀ m ∈ ms, m.Exportable)
    (hw : w.Sound 16384) (ht : w.Holds otlpFront) :
    (printMetrics true w ms).Sound 16384 ∧ (printMetrics true w ms).pos ≤ 16376 ∧
      (printMetrics true w ms).Holds (metricsText (printedMetrics true 49 ms)) ∧
      (printedMetrics true 49 ms = ms ∨
        16184 ≤ (metricsText (printedMetrics true 49 ms)).length) := by
  have hpos : w.pos = 49 := ht.pos.trans length_otlpFront
  cases ms with
  | nil =>
      refine ⟨hw, by rw [printMetrics]; omega, ?_, .inl rfl⟩
      rwa [printedMetrics, metricsText, List.map_nil, joined, List.append_nil]
  | cons m ms =>
      rw [List.forall_mem_cons] at h
      have hspace := hw.space
      have hlen := h.1.length_le
      have hmetric := hw.snprintf (s := metricJson m) (by omega)
      have hholds := ht.snprintf hw (s := metricJson m) (by omega)
      have hnext : (w.snprintf (metricJson m)).pos = 49 + (metricJson m).length := by
        rw [← hpos]
        rfl
      have hstep : printMetrics true w (m :: ms) =
          printMetrics false (w.snprintf (metricJson m)) ms := by
        rw [printMetrics, if_pos (by omega)]
        rfl
      have hprinted : printedMetrics true 49 (m :: ms) =
          m :: printedMetrics false (49 + (metricJson m).length) ms := rfl
      have htext : metricsText (printedMetrics true 49 (m :: ms)) =
          otlpFront ++ metricJson m ++
            moreMetrics (printedMetrics false (49 + (metricJson m).length) ms) := by
        rw [hprinted, metricsText, joined_eq_moreMetrics, List.append_assoc]
      obtain ⟨hsound, hbound, hrest⟩ := printMetrics_spec ms h.2 hmetric hholds (by omega)
      rw [hnext] at hrest
      rw [hstep, htext]
      refine ⟨hsound, hbound, hrest, ?_⟩
      obtain hall | hlate := printedMetrics_cases (49 + (metricJson m).length) ms
      · exact .inl (hprinted.trans (congrArg (m :: ·) hall))
      · rw [List.length_append, List.length_append, length_otlpFront]
        exact .inr hlate

end Printing

theorem nul_notMem_number {t : Bytes} (h : IsNumber t) : (0 : UInt8) ∉ t :=
  (scanNumber_eq_some h).2.1

theorem nul_notMem_metricJson {m : OtlpMetric} (h : m.Exportable) : (0 : UInt8) ∉ metricJson m := by
  simp only [metricJson, gaugeJson, List.mem_append, not_or]
  exact ⟨⟨⟨⟨⟨⟨by decide, h.nul⟩, by decide⟩, nul_notMem_number h.isNumber⟩, by decide⟩,
    nul_notMem_number (isNumber_printNat _)⟩, by decide⟩

theorem observabilityOtlpExport_eq (metrics : List OtlpMetric) (h : ∀ m ∈ metrics, m.Exportable) :
    observabilityOtlpExport metrics = metricsText (printedMetrics true 49 metrics) ++ otlpEnd ∧
      (printedMetrics true 49 metrics = metrics ∨
        16184 ≤ (metricsText (printedMetrics true 49 metrics)).length) := by
  rw [observabilityOtlpExport]
  generalize hzeros : List.replicate 16384 (0 : UInt8) = zeros
  have hlength : zeros.length = 16384 := by rw [← hzeros, List.length_replicate]
  have hstart := Writer.start_sound zeros
  have hremaining : (Writer.start zeros).remaining = 16384 := hlength
  rw [hlength] at hstart
  have hfront := length_otlpFront
  have hsound := hstart.snprintf (s := otlpFront) (by omega)
  have hholds := (Writer.start_holds zeros).snprintf hstart (s := otlpFront) (by omega)
  obtain ⟨hloop, hpos, htext, hcases⟩ := printMetrics_all metrics h hsound hholds
  refine ⟨?_, hcases⟩
  have hspace := hloop.space
  have hend : otlpEnd.length = 6 := rfl
  obtain ⟨junk, hjunk⟩ := Writer.isPrefix_snprintf hloop htext (s := otlpEnd) (by omega)
  rw [← hjunk, List.append_assoc]
  refine CString.ofBuffer_append_zero ?_ junk
  rw [metricsText, List.mem_append, List.mem_append, not_or, not_or]
  refine ⟨⟨by decide, ?_⟩, by decide⟩
  refine notMem_joined (by decide) fun t ht ↦ ?_
  obtain ⟨m, hm, rfl⟩ := List.mem_map.mp ht
  exact nul_notMem_metricJson (h m ((printedMetrics_isPrefix true 49 metrics).subset hm))

/-- What is posted for metrics that fit is the document of the metrics in front of
the guard, all of them unless it stopped the loop, exactly if no name of these
needs an escape. -/
theorem otlp_export_says_the_metrics (metrics : List OtlpMetric)
    (h : ∀ m ∈ metrics, m.Exportable) :
    ∃ printed, printed <+: metrics ∧
      (printed = metrics ∨ 16184 ≤ (metricsText printed).length) ∧
        (Json.parse (observabilityOtlpExport metrics) = some (otlpDocument printed) ↔
          ∀ m ∈ printed, isUtf8 m.metricName = true ∧ Plain m.metricName) := by
  obtain ⟨hpayload, hcases⟩ := observabilityOtlpExport_eq metrics h
  have hpre := printedMetrics_isPrefix true 49 metrics
  refine ⟨printedMetrics true 49 metrics, hpre, hcases, ?_⟩
  rw [hpayload, metricsText, otlpText_eq]
  exact parse_otlp_iff fun m hm ↦ (h m (hpre.subset hm)).isNumber

def gatewayMetrics : List OtlpMetric :=
  [⟨ascii "http_requests_total", ascii "1.000000", 1700000000⟩,
    ⟨ascii "http_request_errors_total", ascii "0.000000", 1700000001⟩]

theorem otlp_export_says_the_metrics_gateway :
    Json.parse (observabilityOtlpExport gatewayMetrics) = some (otlpDocument gatewayMetrics) := by
  have hexportable : ∀ m ∈ gatewayMetrics, m.Exportable := by
    rw [gatewayMetrics, List.forall_mem_cons, List.forall_mem_singleton]
    exact ⟨⟨by decide, by decide, by decide +kernel⟩, ⟨by decide, by decide, by decide +kernel⟩⟩
  obtain ⟨printed, hpre, hall, hsays⟩ := otlp_export_says_the_metrics gatewayMetrics hexportable
  have hshort : ∀ p ∈ gatewayMetrics.inits, (metricsText p).length < 16184 := by decide +kernel
  have hprinted : printed = gatewayMetrics :=
    hall.resolve_right (Nat.not_le.mpr (hshort printed (List.mem_inits _ _ |>.mpr hpre)))
  rw [hprinted] at hsays
  exact hsays.mpr (by decide)

end DoctorClaw
