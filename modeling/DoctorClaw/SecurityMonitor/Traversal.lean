import DoctorClaw.SecurityMonitor
import DoctorClaw.Url

/-!
# Encoded dots

The decoder of `util_url_decode` turns each piece of a path into one byte: a
percent sign with the two characters behind it, or a single character.  The
check of the monitor does not decode.  It looks for three spellings of two
dots, and a path that mixes them, or writes `%2E`, is let through.
-/

namespace DoctorClaw

open BufferWriter

/-! ## The decoder piece by piece -/

/-- The pieces of a path that the decoder turns into one byte each. -/
def urlUnits : Bytes → List Bytes
  | 37 :: a :: b :: rest => [37, a, b] :: urlUnits rest
  | c :: input => [c] :: urlUnits input
  | [] => []

def unitByte : Bytes → UInt8
  | [c] => if c = 43 then 32 else c
  | [_, a, b] => UInt8.ofNat ((Decimal.strtolHex [a, b]) % 256).toNat
  | _ => 0

theorem urlDecodeLoop_eq_map {n : ℕ} {path : Bytes} (h : path.length ≤ n) :
    urlDecodeLoop n path = (urlUnits path).map unitByte := by
  fun_induction urlUnits path generalizing n with
  | case1 a b rest ih =>
      obtain ⟨n, rfl⟩ : ∃ k, n = k + 1 := ⟨n - 1, by simp at h; omega⟩
      have hrest := ih (n := n) (by simp at h; omega)
      rw [urlDecodeLoop, if_pos rfl, List.map_cons, hrest]
      rfl
  | case2 c input hnot ih =>
      obtain ⟨n, rfl⟩ : ∃ k, n = k + 1 := ⟨n - 1, by simp at h; omega⟩
      have hrest := ih (n := n) (Nat.le_of_succ_le_succ h)
      rw [urlDecodeLoop.eq_def, List.map_cons, ← hrest, unitByte]
      by_cases hpercent : c = 37
      · subst hpercent
        rcases input with _ | ⟨a, _ | ⟨b, rest⟩⟩
        · rfl
        · rfl
        · exact absurd rfl (hnot a b rest rfl)
      · simp only [if_neg hpercent]
        split_ifs <;> rfl
  | case3 => cases n <;> rfl

theorem utilUrlDecode_eq_map (path : Bytes) :
    utilUrlDecode path (path.length + 1) = (urlUnits path).map unitByte := by
  rw [utilUrlDecode, Writer.sizeSub_of_le (by omega), urlDecodeLoop_eq_map (by omega)]

/-! ## Dots -/

/-- The spellings of a dot. -/
def dotUnits : List Bytes := [ascii ".", ascii "%2e", ascii "%2E"]

theorem mem_urlUnits {path u : Bytes} (h : u ∈ urlUnits path) :
    (∃ c, u = [c]) ∨ ∃ a b, u = [37, a, b] := by
  fun_induction urlUnits path with
  | case1 a b rest ih =>
      rcases List.mem_cons.mp h with rfl | h
      · exact .inr ⟨a, b, rfl⟩
      · exact ih h
  | case2 c input hnot ih =>
      rcases List.mem_cons.mp h with rfl | h
      · exact .inl ⟨c, rfl⟩
      · exact ih h
  | case3 => exact absurd h List.not_mem_nil

theorem digitOf_eq_two : ∀ c, Decimal.digitOf c = 2 ↔ c = 50 :=
  CString.forall_byte (by decide +kernel)

theorem digitOf_eq_fourteen : ∀ c, Decimal.digitOf c = 14 ↔ c = 101 ∨ c = 69 :=
  CString.forall_byte (by decide +kernel)

theorem hexValue_singleton_lt (b : UInt8) : Decimal.hexValue [b] < 16 := by
  have hbase : Decimal.hexValue [b] = Decimal.baseValue 16 0 [b] := by
    rw [Decimal.hexValue.eq_2]
    rintro _ _ _ ⟨⟩
  rw [hbase, Decimal.baseValue]
  split_ifs with h
  · rwa [Decimal.baseValue, Nat.mul_zero, Nat.zero_add]
  · decide

/-- A blank or a sign leaves one digit, which is too small or, negated, too
large. -/
theorem strtolHex_pair_eq_dot_iff {a b : UInt8} :
    Decimal.strtolHex [a, b] % 256 = 46 ↔ a = 50 ∧ (b = 101 ∨ b = 69) := by
  have hone := hexValue_singleton_lt b
  have hempty : Decimal.hexValue [] = 0 := rfl
  rw [← digitOf_eq_two, ← digitOf_eq_fourteen, Decimal.strtolHex]
  by_cases hspace : CString.isspace a = true
  · have ha : Decimal.digitOf a ≠ 2 := fun h ↦ by
      rw [(digitOf_eq_two a).mp h] at hspace
      exact absurd hspace (by decide)
    rw [List.dropWhile_cons_of_pos hspace, List.dropWhile_cons]
    split_ifs
    · simp [ha, hempty]
    · split
      · next heq => simp [(List.cons.inj heq).2.symm, ha, hempty]
      · next heq => simp [(List.cons.inj heq).2.symm, ha, hempty]
      · simp only [ha, false_and, iff_false]
        omega
  · rw [List.dropWhile_cons_of_neg hspace]
    split
    · next heq =>
        obtain ⟨rfl, rfl⟩ := List.cons.inj heq
        have ha : Decimal.digitOf 45 ≠ 2 := by decide
        simp only [ha, false_and, iff_false]
        omega
    · next heq =>
        obtain ⟨rfl, rfl⟩ := List.cons.inj heq
        have ha : Decimal.digitOf 43 ≠ 2 := by decide
        simp only [ha, false_and, iff_false]
        omega
    · have hvalue : Decimal.hexValue [a, b] = Decimal.baseValue 16 0 [a, b] := by
        rw [Decimal.hexValue.eq_2]
        rintro _ _ _ ⟨⟩
      simp only [hvalue, Decimal.baseValue]
      split_ifs <;> omega

theorem dotUnits_eq : dotUnits = [[46], [37, 50, 101], [37, 50, 69]] := by decide

theorem unitByte_eq_dot_iff {path u : Bytes} (h : u ∈ urlUnits path) :
    unitByte u = 46 ↔ u ∈ dotUnits := by
  rw [dotUnits_eq]
  obtain ⟨c, rfl⟩ | ⟨a, b, rfl⟩ := mem_urlUnits h
  · rw [unitByte]
    split_ifs with hplus
    · simp [hplus]
    · simp
  · have hbyte : unitByte [37, a, b] = 46 ↔ Decimal.strtolHex [a, b] % 256 = 46 := by
      rw [unitByte, ← UInt8.toNat_inj, UInt8.toNat_ofNat']
      simp only [UInt8.reduceToNat]
      omega
    rw [hbyte, strtolHex_pair_eq_dot_iff]
    simp
    tauto

/-- The decoded path as a string. -/
def percentDecode (path : Bytes) : Bytes :=
  CString.ofBuffer (utilUrlDecode path (path.length + 1))

/-- The pieces in front of the first one that decodes to the terminator. -/
def decodedUnits (path : Bytes) : List Bytes :=
  (urlUnits path).takeWhile fun u ↦ decide (unitByte u ≠ 0)

/-- Two dots next to each other, whatever their spellings. -/
def WritesDots (path : Bytes) : Prop :=
  ∃ u ∈ dotUnits, ∃ v ∈ dotUnits, [u, v] <:+: decodedUnits path

theorem percentDecode_eq_map (path : Bytes) :
    percentDecode path = (decodedUnits path).map unitByte := by
  rw [percentDecode, utilUrlDecode_eq_map, CString.ofBuffer, List.takeWhile_map]
  rfl

theorem dots_percentDecode_iff (path : Bytes) :
    ascii ".." <:+: percentDecode path ↔ WritesDots path := by
  have hdots : ascii ".." = [46, 46] := by decide
  have hsub : ∀ {us : List Bytes}, us <:+: decodedUnits path → us ⊆ urlUnits path :=
    fun h _ hmem ↦ (List.takeWhile_prefix _).subset (h.subset hmem)
  rw [percentDecode_eq_map, hdots, List.infix_map_iff]
  constructor
  · rintro ⟨us, hus, hbytes⟩
    obtain ⟨u, us, rfl⟩ := List.exists_cons_of_ne_nil (l := us) (by rintro rfl; simp at hbytes)
    obtain ⟨v, us, rfl⟩ := List.exists_cons_of_ne_nil (l := us) (by rintro rfl; simp at hbytes)
    obtain ⟨hu, hv, rfl⟩ : 46 = unitByte u ∧ 46 = unitByte v ∧ us = [] := by simpa using hbytes
    exact ⟨u, (unitByte_eq_dot_iff (hsub hus (by simp))).mp hu.symm,
      v, (unitByte_eq_dot_iff (hsub hus (by simp))).mp hv.symm, hus⟩
  · rintro ⟨u, hu, v, hv, huv⟩
    refine ⟨[u, v], huv, ?_⟩
    rw [List.map_cons, List.map_singleton, (unitByte_eq_dot_iff (hsub huv (by simp))).mpr hu,
      (unitByte_eq_dot_iff (hsub huv (by simp))).mpr hv]

/-! ## The check -/

theorem pathHasTraversal_iff (path : Bytes) :
    pathHasTraversal path = true ↔
      ascii ".." <:+: path ∨ ascii "%2e%2e" <:+: path ∨ ascii "%252e%252e" <:+: path := by
  have hslash : ascii ".." <:+: ascii "..%2f" ∧ ascii ".." <:+: ascii "%2f.." := by decide
  simp only [pathHasTraversal, traversalPatterns, List.any_cons, List.any_nil, Bool.or_eq_true,
    CString.strstr_isSome_iff, Bool.false_eq_true, or_false]
  constructor
  · rintro (h | h | h | h | h)
    · exact .inl h
    · exact .inr (.inl h)
    · exact .inr (.inr h)
    · exact .inl (hslash.1.trans h)
    · exact .inl (hslash.2.trans h)
  · rintro (h | h | h)
    · exact .inl h
    · exact .inr (.inl h)
    · exact .inr (.inr (.inl h))

/-- The rate limit and the scan of the body have verdicts of their own. -/
theorem check_ne_pathTraversal {m : SecurityMonitor} {req : Request} (now : ℕ)
    (h : req.screened m.config = none) :
    (securityMonitorCheckRequest m now req).1.1 ≠ .pathTraversal := by
  simp only [securityMonitorCheckRequest, h, SecurityMonitor.scanBody, SecmonResult.because]
  split_ifs <;> exact SecmonResult.noConfusion

theorem check_eq_pathTraversal_iff {m : SecurityMonitor} {req : Request} (now : ℕ)
    (hcheck : m.config.pathTraversalCheck = true) (hmethod : methodAllowed req.method = true) :
    (securityMonitorCheckRequest m now req).1.1 = .pathTraversal ↔
      pathHasTraversal req.path = true := by
  by_cases hpath : pathHasTraversal req.path = true
  · simp [securityMonitorCheckRequest, Request.screened, hcheck, hmethod, hpath,
      SecmonResult.because]
  · rw [iff_false_intro hpath, iff_false]
    by_cases hbody : 0 < m.config.maxBodySize ∧ m.config.maxBodySize < req.body.length
    · simp [securityMonitorCheckRequest, Request.screened, hcheck, hmethod, hpath, hbody,
        SecmonResult.because]
    · apply check_ne_pathTraversal
      rw [Request.screened, hmethod, hcheck, Bool.eq_false_iff.mpr hpath, if_neg (by decide),
        if_neg (by decide), if_neg hbody]

/-- The verdict on dots that only the decoder brings out. -/
theorem encoded_traversal_is_rejected_iff (m : SecurityMonitor) (now : ℕ) (req : Request)
    (hcheck : m.config.pathTraversalCheck = true) (hmethod : methodAllowed req.method = true) :
    (ascii ".." <:+: percentDecode req.path →
        (securityMonitorCheckRequest m now req).1.1 = .pathTraversal) ↔
      (WritesDots req.path →
        ascii ".." <:+: req.path ∨ ascii "%2e%2e" <:+: req.path ∨
          ascii "%252e%252e" <:+: req.path) := by
  rw [check_eq_pathTraversal_iff now hcheck hmethod, pathHasTraversal_iff, dots_percentDecode_iff]

theorem encoded_traversal_is_rejected_iff_mixed :
    let m := securityMonitorInit securityMonitorConfigDefaults
    let req : Request := ⟨ascii "10.0.0.1", ascii "GET", ascii "/.%2e/secret", []⟩
    m.config.pathTraversalCheck = true ∧ methodAllowed req.method = true ∧
      ((ascii ".." <:+: percentDecode req.path →
          (securityMonitorCheckRequest m 5 req).1.1 = .pathTraversal) ↔
        (WritesDots req.path →
          ascii ".." <:+: req.path ∨ ascii "%2e%2e" <:+: req.path ∨
            ascii "%252e%252e" <:+: req.path)) :=
  ⟨rfl, by decide, encoded_traversal_is_rejected_iff _ 5 _ rfl (by decide)⟩

/-- Two dots written `%2E%2E` reach the handlers. -/
theorem encoded_traversal_is_not_rejected :
    ¬ ∀ (m : SecurityMonitor) (now : ℕ) (req : Request), m.config.pathTraversalCheck = true →
      methodAllowed req.method = true → ascii ".." <:+: percentDecode req.path →
      (securityMonitorCheckRequest m now req).1.1 = .pathTraversal := by
  intro h
  have hbad := h (securityMonitorInit securityMonitorConfigDefaults) 5
    ⟨ascii "10.0.0.1", ascii "GET", ascii "/%2E%2E/secret", []⟩ rfl (by decide) (by decide)
  revert hbad
  decide

end DoctorClaw
