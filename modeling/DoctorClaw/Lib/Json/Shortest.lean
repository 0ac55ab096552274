import DoctorClaw.Lib.Json.Build
import Mathlib.Algebra.Order.BigOperators.Group.List
import Mathlib.Data.Nat.Basic

/-!
# The shortest texts of a value

A byte of a string takes at least one byte of its text, and two where it cannot
stand for itself.  With the quotes, commas, colons, brackets and braces this
bounds the length of every text of a value from below.  A text that is built
without white space, and in which nothing takes more bytes than it needs, can
therefore only read as the value if nothing takes fewer.
-/

namespace Json

/-! ## Lengths -/

def byteWidth (c : UInt8) : ℕ := if 32 ≤ c ∧ c ≠ 34 ∧ c ≠ 92 then 1 else 2

/-- The bytes that the string needs between its quotes. -/
def stringWidth (s : Bytes) : ℕ := (s.map byteWidth).sum

mutual

/-- The length of the shortest text of a value. -/
def minLength : Value → ℕ
  | .null => 4
  | .bool true => 4
  | .bool false => 5
  | .number text => text.length
  | .string text => stringWidth text + 2
  | .array elements => 1 + max 1 (minElements elements)
  | .object members => 1 + max 1 (minMembers members)

/-- Each element with the comma or bracket behind it. -/
def minElements : List Value → ℕ
  | [] => 0
  | v :: vs => minLength v + 1 + minElements vs

def minMembers : List (Bytes × Value) → ℕ
  | [] => 0
  | (key, v) :: ms => stringWidth key + minLength v + 4 + minMembers ms

end

/-! ## Strings -/

theorem byteWidth_le (c : UInt8) : 1 ≤ byteWidth c ∧ byteWidth c ≤ 2 := by
  unfold byteWidth
  split_ifs <;> decide

theorem stringWidth_cons (c : UInt8) (s : Bytes) :
    stringWidth (c :: s) = byteWidth c + stringWidth s := List.sum_cons

theorem stringWidth_append (s t : Bytes) :
    stringWidth (s ++ t) = stringWidth s + stringWidth t := by
  rw [stringWidth, List.map_append, List.sum_append]
  rfl

theorem length_le_stringWidth (s : Bytes) : s.length ≤ stringWidth s := by
  induction s with
  | nil => exact le_rfl
  | cons c s ih =>
      have hc := byteWidth_le c
      rw [stringWidth_cons, List.length_cons]
      omega

theorem stringWidth_le (s : Bytes) : stringWidth s ≤ 2 * s.length := by
  induction s with
  | nil => exact le_rfl
  | cons c s ih =>
      have hc := byteWidth_le c
      rw [stringWidth_cons, List.length_cons]
      omega

theorem plain_of_stringWidth_le {s : Bytes} (h : stringWidth s ≤ s.length) : Plain s := by
  induction s with
  | nil => exact List.forall_mem_nil _
  | cons c s ih =>
      have hc := byteWidth_le c
      have hs := length_le_stringWidth s
      rw [stringWidth_cons, List.length_cons] at h
      refine List.forall_mem_cons.mpr ⟨?_, ih (by omega)⟩
      by_contra hbad
      have htwo : byteWidth c = 2 := if_neg hbad
      omega

theorem stringWidth_unpaired_le (high : Option ℕ) : stringWidth (unpaired high) ≤ owed high := by
  cases high with
  | none => exact le_rfl
  | some h =>
      change stringWidth (encodeUtf8 65533) ≤ 5
      decide

theorem stringWidth_encodeUnit_le (high : Option ℕ) {n : ℕ} (hn : n < 65536) :
    stringWidth (encodeUnit high n) ≤ 6 + owed high := by
  have hunpaired := stringWidth_unpaired_le high
  have hunit := length_encodeUtf8_unit hn
  have hwidth := stringWidth_le (encodeUtf8 n)
  unfold encodeUnit
  split_ifs with hpair
  · cases high with
    | none =>
        have hreplaced : stringWidth (encodeUtf8 65533) ≤ 6 := by decide
        exact hreplaced
    | some h =>
        have hfour (m : ℕ) : stringWidth (encodeUtf8 m) ≤ 2 * 4 :=
          (stringWidth_le _).trans (Nat.mul_le_mul_left 2 (length_encodeUtf8_le m))
        exact (hfour _).trans (show 8 ≤ 6 + 5 by decide)
  · rw [stringWidth_append]
    omega

theorem Decodes.stringWidth_le {high : Option ℕ} {s t : Bytes} (h : Decodes high s t) :
    stringWidth t ≤ s.length + owed high := by
  induction h with
  | nil high => exact (stringWidth_unpaired_le high).trans (Nat.le_add_left _ _)
  | @plain high c s t hc h ih =>
      have hhigh := stringWidth_unpaired_le high
      have howed : owed none = 0 := rfl
      have hone : byteWidth c = 1 := if_pos hc
      rw [stringWidth_append, stringWidth_cons, List.length_cons]
      omega
  | @escape high e x s t he h ih =>
      have hhigh := stringWidth_unpaired_le high
      have howed : owed none = 0 := rfl
      have hx := byteWidth_le x
      rw [stringWidth_append, stringWidth_cons, List.length_cons, List.length_cons]
      omega
  | @surrogate high a b c d n s t hn h ih =>
      have hhigh := stringWidth_unpaired_le high
      have howed : owed (some n) = 5 := rfl
      rw [stringWidth_append]
      simp only [List.length_cons]
      omega
  | @unit high a b c d n s t hn h ih =>
      have hunit := stringWidth_encodeUnit_le high (hexQuad_spec hn).1
      have howed : owed none = 0 := rfl
      rw [stringWidth_append]
      simp only [List.length_cons]
      omega

theorem stringWidth_of_parseString {s t rest : Bytes} (h : parseString s = some (t, rest)) :
    stringWidth t + 1 + rest.length ≤ s.length := by
  obtain ⟨raw, rfl, hraw⟩ := parseString_eq_some h
  have hwidth := hraw.stringWidth_le
  have howed : owed none = 0 := rfl
  rw [List.length_append, List.length_cons]
  omega

/-! ## Values -/

theorem length_expect {c : UInt8} {s r : Bytes} (h : expect c s = some r) :
    1 + r.length ≤ s.length := by
  have hskip := List.length_dropWhile_le isWs s
  unfold expect at h
  cases hs : s.dropWhile isWs with
  | nil => rw [hs] at h; cases h
  | cons b t =>
      rw [hs] at h hskip
      dsimp only at h
      split_ifs at h
      cases h
      rwa [List.length_cons, Nat.add_comm] at hskip

theorem minLength_of_parseScalar {s r : Bytes} {v : Value} (h : parseScalar s = some (v, r)) :
    minLength v + r.length ≤ s.length := by
  unfold parseScalar at h
  split_ifs at h with hnull htrue hfalse
  · cases h
    have hlen : 4 ≤ s.length := hnull.length_le
    rw [minLength, List.length_drop]
    omega
  · cases h
    have hlen : 4 ≤ s.length := htrue.length_le
    rw [minLength, List.length_drop]
    omega
  · cases h
    have hlen : 5 ≤ s.length := hfalse.length_le
    rw [minLength, List.length_drop]
    omega
  · obtain ⟨p, hp, heq⟩ := Option.map_eq_some_iff.mp h
    cases heq
    rw [minLength, (scanNumber_eq_some hp).1, List.length_append]

/-- With this fuel nothing is read from fewer bytes than it needs. -/
structure ReadsEnough (fuel : ℕ) : Prop where
  value : ∀ {s v r}, parseValue fuel s = some (v, r) → minLength v + r.length ≤ s.length
  members : ∀ {s ms r}, parseMembers fuel s = some (ms, r) →
    max 1 (minMembers ms) + r.length ≤ s.length
  moreMembers : ∀ {s ms r}, parseMoreMembers fuel s = some (ms, r) →
    1 + minMembers ms + r.length ≤ s.length
  elements : ∀ {s vs r}, parseElements fuel s = some (vs, r) →
    max 1 (minElements vs) + r.length ≤ s.length

variable {fuel : ℕ} {s r : Bytes}

theorem ReadsEnough.succ_value (h : ReadsEnough fuel) {v : Value}
    (hv : parseValue (fuel + 1) s = some (v, r)) : minLength v + r.length ≤ s.length := by
  rw [parseValue] at hv
  cases hquote : expect 34 s with
  | some t =>
      rw [hquote] at hv
      obtain ⟨p, hp, heq⟩ := Option.map_eq_some_iff.mp hv
      cases heq
      have hopen := length_expect hquote
      have hstring := stringWidth_of_parseString hp
      rw [minLength]
      omega
  | none =>
      rw [hquote] at hv
      dsimp only at hv
      cases hbrace : expect 123 s with
      | some t =>
          rw [hbrace] at hv
          dsimp only at hv
          have hopen := length_expect hbrace
          cases hend : expect 125 t with
          | some t' =>
              rw [hend] at hv
              cases hv
              have hclose := length_expect hend
              simp only [minLength, minMembers]
              omega
          | none =>
              rw [hend] at hv
              obtain ⟨p, hp, heq⟩ := Option.map_eq_some_iff.mp hv
              cases heq
              have hmembers := h.members hp
              rw [minLength]
              omega
      | none =>
          rw [hbrace] at hv
          dsimp only at hv
          cases hbracket : expect 91 s with
          | some t =>
              rw [hbracket] at hv
              dsimp only at hv
              have hopen := length_expect hbracket
              cases hend : expect 93 t with
              | some t' =>
                  rw [hend] at hv
                  cases hv
                  have hclose := length_expect hend
                  simp only [minLength, minElements]
                  omega
              | none =>
                  rw [hend] at hv
                  obtain ⟨p, hp, heq⟩ := Option.map_eq_some_iff.mp hv
                  cases heq
                  have helements := h.elements hp
                  rw [minLength]
                  omega
          | none =>
              rw [hbracket] at hv
              exact (minLength_of_parseScalar hv).trans (List.length_dropWhile_le _ _)

theorem ReadsEnough.succ_members (h : ReadsEnough fuel) {ms : List (Bytes × Value)}
    (hms : parseMembers (fuel + 1) s = some (ms, r)) :
    max 1 (minMembers ms) + r.length ≤ s.length := by
  rw [parseMembers] at hms
  obtain ⟨s₁, hquote, hms⟩ := Option.bind_eq_some_iff.mp hms
  obtain ⟨key, hkey, hms⟩ := Option.bind_eq_some_iff.mp hms
  obtain ⟨s₂, hcolon, hms⟩ := Option.bind_eq_some_iff.mp hms
  obtain ⟨value, hvalue, hms⟩ := Option.bind_eq_some_iff.mp hms
  obtain ⟨p, hp, heq⟩ := Option.map_eq_some_iff.mp hms
  cases heq
  have hopen := length_expect hquote
  have hname := stringWidth_of_parseString hkey
  have hsep := length_expect hcolon
  have hfirst := h.value hvalue
  have hmore := h.moreMembers hp
  rw [minMembers]
  omega

theorem ReadsEnough.succ_moreMembers (h : ReadsEnough fuel) {ms : List (Bytes × Value)}
    (hms : parseMoreMembers (fuel + 1) s = some (ms, r)) :
    1 + minMembers ms + r.length ≤ s.length := by
  rw [parseMoreMembers] at hms
  cases hcomma : expect 44 s with
  | some t =>
      rw [hcomma] at hms
      have hsep := length_expect hcomma
      have hmembers := h.members hms
      omega
  | none =>
      rw [hcomma] at hms
      obtain ⟨t, ht, heq⟩ := Option.map_eq_some_iff.mp hms
      cases heq
      have hclose := length_expect ht
      rw [minMembers]
      omega

theorem ReadsEnough.succ_elements (h : ReadsEnough fuel) {vs : List Value}
    (hvs : parseElements (fuel + 1) s = some (vs, r)) :
    max 1 (minElements vs) + r.length ≤ s.length := by
  rw [parseElements] at hvs
  obtain ⟨value, hvalue, hvs⟩ := Option.bind_eq_some_iff.mp hvs
  have hfirst := h.value hvalue
  cases hcomma : expect 44 value.2 with
  | some t =>
      rw [hcomma] at hvs
      obtain ⟨p, hp, heq⟩ := Option.map_eq_some_iff.mp hvs
      cases heq
      have hsep := length_expect hcomma
      have helements := h.elements hp
      rw [minElements]
      omega
  | none =>
      rw [hcomma] at hvs
      obtain ⟨t, ht, heq⟩ := Option.map_eq_some_iff.mp hvs
      cases heq
      have hclose := length_expect ht
      simp only [minElements]
      omega

theorem readsEnough (fuel : ℕ) : ReadsEnough fuel := by
  induction fuel with
  | zero => refine ⟨?_, ?_, ?_, ?_⟩ <;> intro _ _ _ h <;> cases h
  | succ fuel ih => exact ⟨ih.succ_value, ih.succ_members, ih.succ_moreMembers, ih.succ_elements⟩

theorem minLength_le_of_parse {t : Bytes} {v : Value} (h : Json.parse t = some v) :
    minLength v ≤ t.length := by
  rw [Json.parse] at h
  split_ifs at h
  obtain ⟨p, hp, h⟩ := Option.bind_eq_some_iff.mp h
  split_ifs at h
  cases h
  exact (Nat.le_add_right _ _).trans ((readsEnough _).value hp)

/-! ## Texts without a byte to spare -/

/-- No text of the value is shorter, and this one reads as the value if it is not
shorter than those are. -/
structure Compact (v : Value) (t : Bytes) : Prop where
  le : t.length ≤ minLength v
  reads : minLength v ≤ t.length → Reads v t

variable {v : Value} {t : Bytes} {table : UInt8 → Option UInt8}

/-- The text is not too short to read as the value. -/
def Exact (v : Value) (t : Bytes) : Prop := isUtf8 t = true ∧ minLength v ≤ t.length

theorem Compact.parse_iff (h : Compact v t) : Json.parse t = some v ↔ Exact v t := by
  constructor
  · intro hparse
    refine ⟨?_, minLength_le_of_parse hparse⟩
    rw [Json.parse] at hparse
    split_ifs at hparse with hutf8
    exact hutf8
  · rintro ⟨hutf8, hlen⟩
    exact (h.reads hlen).parse hutf8

theorem length_quoted (s : Bytes) : (34 :: (s ++ [34])).length = s.length + 2 := by
  rw [List.length_cons, List.length_append, List.length_singleton]

theorem stringWidth_of_plain (h : Plain s) : stringWidth s = s.length := by
  induction s with
  | nil => rfl
  | cons c s ih =>
      rw [Plain, List.forall_mem_cons] at h
      have hone : byteWidth c = 1 := if_pos h.1
      rw [stringWidth_cons, List.length_cons, ih h.2, hone, Nat.add_comm]

theorem minLength_string_le_iff : minLength (.string s) ≤ (34 :: (s ++ [34])).length ↔ Plain s := by
  rw [minLength, length_quoted, Nat.add_le_add_iff_right]
  exact ⟨plain_of_stringWidth_le, fun h ↦ (stringWidth_of_plain h).le⟩

theorem compact_string (s : Bytes) : Compact (.string s) (34 :: (s ++ [34])) where
  le := by
    rw [minLength, length_quoted]
    exact Nat.add_le_add_right (length_le_stringWidth s) 2
  reads h := reads_plain (minLength_string_le_iff.mp h)

theorem length_escapeByte_le
    (hwidth : ∀ c e, table c = some e → byteWidth c = 2) (c : UInt8) :
    (Escape.escapeByte table c).length ≤ byteWidth c ∧
      (byteWidth c ≤ (Escape.escapeByte table c).length ↔
        (table c = none → 32 ≤ c ∧ c ≠ 34 ∧ c ≠ 92)) := by
  unfold Escape.escapeByte
  cases hc : table c with
  | some e =>
      have htwo := hwidth c e hc
      simp [htwo]
  | none =>
      have hone := byteWidth_le c
      refine ⟨hone.1, fun hle _ ↦ ?_, fun hprintable ↦ (if_pos (hprintable rfl)).le⟩
      by_contra hbad
      have htwo : byteWidth c = 2 := if_neg hbad
      rw [htwo] at hle
      exact absurd hle (by decide : ¬ 2 ≤ 1)

theorem length_escape_le (hwidth : ∀ c e, table c = some e → byteWidth c = 2) (s : Bytes) :
    (Escape.escape table s).length ≤ stringWidth s ∧
      (stringWidth s ≤ (Escape.escape table s).length ↔
        ∀ c ∈ s, table c = none → 32 ≤ c ∧ c ≠ 34 ∧ c ≠ 92) := by
  induction s with
  | nil => exact ⟨le_rfl, iff_of_true le_rfl (List.forall_mem_nil _)⟩
  | cons c s ih =>
      obtain ⟨hbyte, hbyteIff⟩ := length_escapeByte_le hwidth c
      rw [Escape.escape_cons, stringWidth_cons, List.length_append, List.forall_mem_cons,
        ← hbyteIff, ← ih.2]
      have hrest := ih.1
      omega

theorem minLength_escaped_le_iff (hwidth : ∀ c e, table c = some e → byteWidth c = 2) (s : Bytes) :
    minLength (.string s) ≤ (34 :: (Escape.escape table s ++ [34])).length ↔
      ∀ c ∈ s, table c = none → 32 ≤ c ∧ c ≠ 34 ∧ c ≠ 92 := by
  rw [minLength, length_quoted, Nat.add_le_add_iff_right]
  exact (length_escape_le hwidth s).2

theorem compact_escaped (htable : ∀ c e, table c = some e → escapeByte e = some c)
    (hwidth : ∀ c e, table c = some e → byteWidth c = 2) (s : Bytes) :
    Compact (.string s) (34 :: (Escape.escape table s ++ [34])) where
  le := by
    rw [minLength, length_quoted]
    exact Nat.add_le_add_right (length_escape_le hwidth s).1 2
  reads h := reads_escaped htable ((minLength_escaped_le_iff hwidth s).mp h)

theorem compact_number (h : IsNumber t) : Compact (.number t) t :=
  ⟨by rw [minLength], fun _ ↦ reads_number h⟩

theorem compact_false : Compact (.bool false) (ascii "false") := ⟨le_rfl, fun _ ↦ reads_false⟩

/-! ## Arrays and objects -/

theorem length_joined (ts : List Bytes) (h : ts ≠ []) :
    (joined ts).length + 1 = (ts.map fun t ↦ t.length + 1).sum := by
  induction ts with
  | nil => exact absurd rfl h
  | cons t ts ih =>
      rw [List.map_cons, List.sum_cons]
      by_cases hnil : ts = []
      · rw [hnil]
        rfl
      · rw [joined_cons t hnil, List.length_append, List.length_cons, ← ih hnil]
        omega

theorem length_arrayText (ts : List Bytes) :
    (arrayText ts).length = 1 + max 1 (ts.map fun t ↦ t.length + 1).sum := by
  rw [arrayText, List.length_cons, List.length_append, List.length_singleton]
  cases ts with
  | nil => rfl
  | cons t ts =>
      have hlen := length_joined (t :: ts) (List.cons_ne_nil _ _)
      omega

theorem minElements_eq (vs : List Value) :
    minElements vs = (vs.map fun v ↦ minLength v + 1).sum := by
  induction vs with
  | nil => rfl
  | cons v vs ih => rw [minElements, ih, List.map_cons, List.sum_cons]

/-- A sum is not larger than one of larger summands only if none of these is
larger. -/
theorem sum_map_le_iff {α : Type*} {l : List α} {f g : α → ℕ} (h : ∀ a ∈ l, f a ≤ g a) :
    (l.map g).sum ≤ (l.map f).sum ↔ ∀ a ∈ l, g a ≤ f a := by
  induction l with
  | nil => exact iff_of_true le_rfl (List.forall_mem_nil _)
  | cons a l ih =>
      rw [List.forall_mem_cons] at h
      have hfirst := h.1
      have hrest := List.sum_le_sum h.2
      simp only [List.map_cons, List.sum_cons, List.forall_mem_cons, ← ih h.2]
      omega

theorem length_arrayText_map (items : List (Value × Bytes)) :
    (arrayText (items.map Prod.snd)).length =
      1 + max 1 (items.map fun p ↦ p.2.length + 1).sum := by
  rw [length_arrayText, List.map_map]
  rfl

theorem minLength_array_map (items : List (Value × Bytes)) :
    minLength (.array (items.map Prod.fst)) =
      1 + max 1 (items.map fun p ↦ minLength p.1 + 1).sum := by
  rw [minLength, minElements_eq, List.map_map]
  rfl

theorem minLength_array_le_iff {items : List (Value × Bytes)} (h : ∀ p ∈ items, Compact p.1 p.2) :
    minLength (.array (items.map Prod.fst)) ≤ (arrayText (items.map Prod.snd)).length ↔
      ∀ p ∈ items, minLength p.1 ≤ p.2.length := by
  have hsum := sum_map_le_iff fun p hp ↦ Nat.succ_le_succ (h p hp).le
  simp only [Nat.succ_eq_add_one, Nat.add_le_add_iff_right] at hsum
  rw [← hsum, minLength_array_map, length_arrayText_map]
  cases items with
  | nil => exact iff_of_true le_rfl le_rfl
  | cons p items =>
      simp only [List.map_cons, List.sum_cons]
      omega

/-- An array of compact texts. -/
theorem compact_array {items : List (Value × Bytes)} (h : ∀ p ∈ items, Compact p.1 p.2) :
    Compact (.array (items.map Prod.fst)) (arrayText (items.map Prod.snd)) where
  le := by
    rw [minLength_array_map, length_arrayText_map]
    refine Nat.add_le_add_left (max_le_max_left 1 (List.sum_le_sum fun p hp ↦ ?_)) 1
    exact Nat.succ_le_succ (h p hp).le
  reads hlen := reads_array fun p hp ↦ (h p hp).reads ((minLength_array_le_iff h).mp hlen p hp)

/-- Only the value of a member may fail to be read. -/
structure Entry.Compact (m : Entry) : Prop where
  plain : Plain m.1
  isUtf8 : isUtf8 m.1 = true
  value : Json.Compact m.2.1 m.2.2

theorem minMembers_eq (ms : List (Bytes × Value)) :
    minMembers ms = (ms.map fun m ↦ stringWidth m.1 + minLength m.2 + 4).sum := by
  induction ms with
  | nil => rfl
  | cons m ms ih => rw [minMembers, ih, List.map_cons, List.sum_cons]

theorem length_memberText (key text : Bytes) :
    (memberText key text).length = key.length + text.length + 3 := by
  simp only [memberText, List.length_cons, List.length_append]
  omega

theorem length_objectText (members : List Entry) :
    (objectText (members.map fun m ↦ (m.1, m.2.2))).length =
      1 + max 1 (members.map fun m ↦ m.1.length + m.2.2.length + 4).sum := by
  have hobject (ts : List Bytes) :
      (123 :: (joined ts ++ [125])).length = (arrayText ts).length := by
    simp only [arrayText, List.length_cons, List.length_append]
  rw [objectText, hobject, length_arrayText, List.map_map, List.map_map]
  simp only [Function.comp_def, length_memberText]

theorem minLength_object {members : List Entry} (h : ∀ m ∈ members, m.Compact) :
    minLength (.object (members.map Entry.member)) =
      1 + max 1 (members.map fun m ↦ m.1.length + minLength m.2.1 + 4).sum := by
  have hmembers : members.map ((fun m ↦ stringWidth m.1 + minLength m.2 + 4) ∘ Entry.member) =
      members.map fun m ↦ m.1.length + minLength m.2.1 + 4 :=
    List.map_congr_left fun m hm ↦ by
      rw [Function.comp_apply, Entry.member, stringWidth_of_plain (h m hm).plain]
  rw [minLength, minMembers_eq, List.map_map, hmembers]

theorem minLength_object_le_iff {members : List Entry} (h : ∀ m ∈ members, m.Compact) :
    minLength (.object (members.map Entry.member)) ≤
        (objectText (members.map fun m ↦ (m.1, m.2.2))).length ↔
      ∀ m ∈ members, minLength m.2.1 ≤ m.2.2.length := by
  have hsum := sum_map_le_iff fun m hm ↦
    Nat.add_le_add_right (Nat.add_le_add_left (h m hm).value.le m.1.length) 4
  simp only [Nat.add_le_add_iff_right, Nat.add_le_add_iff_left] at hsum
  rw [← hsum, minLength_object h, length_objectText]
  cases members with
  | nil => exact iff_of_true le_rfl le_rfl
  | cons m members =>
      simp only [List.map_cons, List.sum_cons]
      omega

/-- An object of compact texts. -/
theorem compact_object {members : List Entry} (h : ∀ m ∈ members, m.Compact) :
    Compact (.object (members.map Entry.member))
      (objectText (members.map fun m ↦ (m.1, m.2.2))) where
  le := by
    rw [minLength_object h, length_objectText]
    refine Nat.add_le_add_left (max_le_max_left 1 (List.sum_le_sum fun m hm ↦ ?_)) 1
    exact Nat.add_le_add_right (Nat.add_le_add_left (h m hm).value.le _) 4
  reads hlen := reads_object fun m hm ↦
    ⟨(h m hm).plain, (h m hm).value.reads ((minLength_object_le_iff h).mp hlen m hm)⟩

/-! ## The same texts in UTF-8 -/

theorem isUtf8_bracketed {a b : UInt8} (ha : a < 128) (hb : b < 128) (s : Bytes) :
    isUtf8 (a :: (s ++ [b])) = isUtf8 s := by
  have hopen : isUtf8 (a :: (s ++ [b])) = isUtf8 (s ++ b :: []) :=
    isUtf8_append_ascii ha [] _
  rw [hopen, isUtf8_append_ascii hb]
  exact Bool.and_true _

theorem isUtf8_quoted (s : Bytes) : isUtf8 (34 :: (s ++ [34])) = isUtf8 s :=
  isUtf8_bracketed (by decide) (by decide) s

theorem isUtf8_joined (ts : List Bytes) : isUtf8 (joined ts) = ts.all isUtf8 := by
  induction ts with
  | nil => rfl
  | cons t ts ih =>
      rw [List.all_cons, ← ih]
      by_cases hnil : ts = []
      · subst hnil
        exact (Bool.and_true _).symm
      · rw [joined_cons t hnil, isUtf8_append_ascii (by decide)]

theorem isUtf8_arrayText (ts : List Bytes) : isUtf8 (arrayText ts) = ts.all isUtf8 := by
  rw [arrayText, isUtf8_bracketed (by decide) (by decide), isUtf8_joined]

theorem isUtf8_memberText (key text : Bytes) :
    isUtf8 (memberText key text) = (isUtf8 key && isUtf8 text) := by
  have hquote : isUtf8 (memberText key text) = isUtf8 (key ++ 34 :: 58 :: text) :=
    isUtf8_append_ascii (show (34 : UInt8) < 128 by decide) [] _
  have hcolon : isUtf8 (58 :: text) = isUtf8 text :=
    isUtf8_append_ascii (show (58 : UInt8) < 128 by decide) [] _
  rw [hquote, isUtf8_append_ascii (by decide), hcolon]

theorem isUtf8_objectText (members : List (Bytes × Bytes)) :
    isUtf8 (objectText members) = members.all fun m ↦ isUtf8 m.1 && isUtf8 m.2 := by
  rw [objectText, isUtf8_bracketed (by decide) (by decide), isUtf8_joined, List.all_map]
  simp only [Function.comp_def, isUtf8_memberText]

theorem isUtf8_of_isAscii (h : isAscii t = true) : isUtf8 t = true := by
  rw [← List.append_nil t, isUtf8_ascii_append h]
  rfl

theorem isAscii_append (h : isAscii s = true) (ht : isAscii t = true) :
    isAscii (s ++ t) = true := by
  rw [isAscii, List.all_append]
  exact Bool.and_eq_true_iff.mpr ⟨h, ht⟩

theorem lt_of_isDigit : ∀ c, Decimal.isDigit c = true → c < 128 :=
  CString.forall_byte (by decide +kernel)

theorem isAscii_of_scanDigits {d : Bytes} (h : scanDigits s = some (d, r)) : isAscii d = true := by
  unfold scanDigits at h
  split_ifs at h
  cases h
  exact List.all_eq_true.mpr fun c hc ↦
    decide_eq_true (lt_of_isDigit c (List.mem_takeWhile_imp hc))

theorem isAscii_of_scanInt {i : Bytes} (h : scanInt s = some (i, r)) : isAscii i = true := by
  cases s with
  | nil => cases h
  | cons c s =>
      rw [scanInt] at h
      split_ifs at h
      · cases h
        rfl
      · exact isAscii_of_scanDigits h

theorem isAscii_of_scanFrac {f : Bytes} (h : scanFrac s = some (f, r)) : isAscii f = true := by
  cases s with
  | nil => cases h; rfl
  | cons c s =>
      rw [scanFrac] at h
      split_ifs at h with hpoint
      · obtain ⟨p, hp, heq⟩ := Option.map_eq_some_iff.mp h
        cases heq
        subst hpoint
        exact isAscii_append (show isAscii [46] = true from rfl) (isAscii_of_scanDigits hp)
      · cases h
        rfl

theorem isAscii_of_scanExp {e : Bytes} (h : scanExp s = some (e, r)) : isAscii e = true := by
  cases s with
  | nil => cases h; rfl
  | cons c s =>
      rw [scanExp.eq_def] at h
      dsimp only at h
      split_ifs at h with hexp
      · have hc : isAscii [c] = true := by obtain rfl | rfl := hexp <;> rfl
        cases s with
        | nil => cases h
        | cons d t =>
            dsimp only at h
            split_ifs at h with hsign
            · obtain ⟨p, hp, heq⟩ := Option.map_eq_some_iff.mp h
              cases heq
              have hd : isAscii [d] = true := by obtain rfl | rfl := hsign <;> rfl
              exact isAscii_append hc (isAscii_append hd (isAscii_of_scanDigits hp))
            · obtain ⟨p, hp, heq⟩ := Option.map_eq_some_iff.mp h
              cases heq
              exact isAscii_append hc (isAscii_of_scanDigits hp)
      · cases h
        rfl

theorem IsNumber.isAscii (h : IsNumber t) : isAscii t = true := by
  obtain ⟨⟨i, r₁⟩, hint, h⟩ := Option.bind_eq_some_iff.mp h
  obtain ⟨⟨f, r₂⟩, hfrac, h⟩ := Option.bind_eq_some_iff.mp h
  obtain ⟨⟨e, r₃⟩, hexp, heq⟩ := Option.map_eq_some_iff.mp h
  rw [← (Prod.mk.inj heq).1]
  refine isAscii_append (isAscii_append (isAscii_append ?_ (isAscii_of_scanInt hint))
    (isAscii_of_scanFrac hfrac)) (isAscii_of_scanExp hexp)
  split_ifs <;> rfl

theorem IsNumber.isUtf8 (h : IsNumber t) : Json.isUtf8 t = true := isUtf8_of_isAscii h.isAscii

/-! ## What is exact -/

theorem exact_string : Exact (.string s) (34 :: (s ++ [34])) ↔ isUtf8 s = true ∧ Plain s := by
  rw [Exact, isUtf8_quoted, minLength_string_le_iff]

theorem exact_escaped (hwidth : ∀ c e, table c = some e → byteWidth c = 2)
    (hascii : ∀ c e, table c = some e → c < 128 ∧ e < 128) (s : Bytes) :
    Exact (.string s) (34 :: (Escape.escape table s ++ [34])) ↔
      isUtf8 s = true ∧ ∀ c ∈ s, table c = none → 32 ≤ c ∧ c ≠ 34 ∧ c ≠ 92 := by
  rw [Exact, isUtf8_quoted, isUtf8_escape hascii, minLength_escaped_le_iff hwidth]

theorem exact_number (h : IsNumber t) : Exact (.number t) t := ⟨h.isUtf8, by rw [minLength]⟩

theorem exact_false : Exact (.bool false) (ascii "false") := ⟨by decide, le_rfl⟩

/-- An array is exact if its elements are. -/
theorem exact_array {items : List (Value × Bytes)} (h : ∀ p ∈ items, Compact p.1 p.2) :
    Exact (.array (items.map Prod.fst)) (arrayText (items.map Prod.snd)) ↔
      ∀ p ∈ items, Exact p.1 p.2 := by
  simp only [Exact]
  rw [minLength_array_le_iff h, isUtf8_arrayText, List.all_map, List.all_eq_true, ← forall₂_and]
  rfl

/-- An object is exact if the values of its members are. -/
theorem exact_object {members : List Entry} (h : ∀ m ∈ members, m.Compact) :
    Exact (.object (members.map Entry.member))
        (objectText (members.map fun m ↦ (m.1, m.2.2))) ↔
      ∀ m ∈ members, Exact m.2.1 m.2.2 := by
  have hutf8 : (∀ m ∈ members, (isUtf8 m.1 && isUtf8 m.2.2) = true) ↔
      ∀ m ∈ members, isUtf8 m.2.2 = true :=
    forall₂_congr fun m hm ↦ by rw [(h m hm).isUtf8, Bool.true_and]
  simp only [Exact]
  rw [minLength_object_le_iff h, isUtf8_objectText, List.all_map, List.all_eq_true]
  simp only [Function.comp_apply]
  rw [hutf8, ← forall₂_and]

/-! ## Entries -/

def stringText (s : Bytes) : Bytes := 34 :: (s ++ [34])

def numberEntry (key t : Bytes) : Entry := (key, .number t, t)

def objectEntry (key : Bytes) (members : List Entry) : Entry :=
  (key, .object (members.map Entry.member), objectText (members.map fun e ↦ (e.1, e.2.2)))

def arrayEntry (key : Bytes) (items : List (Value × Bytes)) : Entry :=
  (key, .array (items.map Prod.fst), arrayText (items.map Prod.snd))

def entriesText (entries : List Entry) : Bytes := objectText (entries.map fun e ↦ (e.1, e.2.2))

theorem entry_compact {key t : Bytes} {v : Value} (hplain : Plain key) (hutf8 : isUtf8 key = true)
    (h : Compact v t) : Entry.Compact (key, v, t) := ⟨hplain, hutf8, h⟩

theorem exact_arrayEntry_map {α : Type*} {key : Bytes} {f : α → Value} {g : α → Bytes}
    {xs : List α} (h : ∀ x ∈ xs, Compact (f x) (g x)) :
    Exact (arrayEntry key (xs.map fun x ↦ (f x, g x))).2.1
        (arrayEntry key (xs.map fun x ↦ (f x, g x))).2.2 ↔
      ∀ x ∈ xs, Exact (f x) (g x) := by
  refine (exact_array (List.forall_mem_map.mpr h)).trans ?_
  exact List.forall_mem_map

/-- An entry whose value is always read. -/
structure Settled (e : Entry) : Prop where
  compact : e.Compact
  exact : Exact e.2.1 e.2.2

theorem settled_number {key t : Bytes} (hkey : Plain key) (hutf8 : isUtf8 key = true)
    (h : IsNumber t) : Settled (numberEntry key t) :=
  ⟨entry_compact hkey hutf8 (compact_number h), exact_number h⟩

theorem settled_object {key : Bytes} {members : List Entry} (hkey : Plain key)
    (hutf8 : isUtf8 key = true) (h : ∀ e ∈ members, Settled e) :
    Settled (objectEntry key members) :=
  ⟨entry_compact hkey hutf8 (compact_object fun e he ↦ (h e he).compact),
    (exact_object fun e he ↦ (h e he).compact).mpr fun e he ↦ (h e he).exact⟩

theorem settled_array {key : Bytes} {items : List (Value × Bytes)} (hkey : Plain key)
    (hutf8 : isUtf8 key = true) (h : ∀ p ∈ items, Compact p.1 p.2 ∧ Exact p.1 p.2) :
    Settled (arrayEntry key items) :=
  ⟨entry_compact hkey hutf8 (compact_array fun p hp ↦ (h p hp).1),
    (exact_array fun p hp ↦ (h p hp).1).mpr fun p hp ↦ (h p hp).2⟩

end Json
