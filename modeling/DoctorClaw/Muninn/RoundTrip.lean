import DoctorClaw.Muninn

/-!
# Reading an engram back

`muninn_write` joins the tags with commas into one text of up to 527 bytes.
`engram_from_row` copies 511 bytes of it and splits these again.  Eight tags of
63 bytes take 511 bytes with their commas.
-/

namespace DoctorClaw

open CString

/-- A tag as the struct can hold it: it has a byte, it fits, there is no comma
in it and no blank at its end. -/
structure IsTag (tag : Bytes) : Prop where
  nonempty : tag ≠ []
  fits : tag.length < muninnTagLen
  comma : (44 : UInt8) ∉ tag
  last : ∀ c ∈ tag.getLast?, c ≠ 32 ∧ c ≠ 9

def muninnIdMax : ℕ := 32

/-! ## Joining -/

/-- The texts of further tags, with a comma in front of each. -/
def moreTags (tags : List Bytes) : Bytes := tags.flatMap fun tag ↦ 44 :: tag

theorem moreTags_cons (tag : Bytes) (tags : List Bytes) :
    moreTags (tag :: tags) = 44 :: (tag ++ moreTags tags) := rfl

theorem length_moreTags_le {tags : List Bytes} (h : ∀ tag ∈ tags, tag.length < muninnTagLen) :
    (moreTags tags).length ≤ muninnTagLen * tags.length := by
  induction tags with
  | nil => exact Nat.le_refl _
  | cons tag tags ih =>
      rw [List.forall_mem_cons] at h
      have hrest := ih h.2
      have htag := h.1
      rw [moreTags_cons, List.length_cons, List.length_append, List.length_cons]
      unfold muninnTagLen at *
      omega

theorem foldl_joinTag {text : Bytes} {tags : List Bytes}
    (h : (text ++ moreTags tags).length < tagsBufSize) :
    tags.foldl joinTag (some text) = some (text ++ moreTags tags) := by
  induction tags generalizing text with
  | nil => rw [moreTags, List.flatMap_nil, List.append_nil, List.foldl_nil]
  | cons tag tags ih =>
      rw [moreTags_cons] at h ⊢
      have hlen : tag.length ≤ tagsBufSize - (text ++ [44]).length - 1 := by
        simp only [List.length_append, List.length_cons, List.length_nil] at h ⊢
        omega
      have hjoin : joinTag (some text) tag = some (text ++ 44 :: tag) := by
        change some (text ++ [44] ++ tag.take (tagsBufSize - (text ++ [44]).length - 1)) = _
        rw [List.take_of_length_le hlen, List.append_assoc, List.singleton_append]
      rw [List.foldl_cons, hjoin, ih (by simpa using h), List.append_assoc, List.cons_append]

/-- The tags fit in the buffer, and in the smaller one that they are split in. -/
theorem joinTags_cons {tag : Bytes} {tags : List Bytes} (hcount : tags.length < muninnTagMax)
    (htag : tag.length < muninnTagLen) (htags : ∀ t ∈ tags, t.length < muninnTagLen) :
    joinTags (tag :: tags) = tag ++ moreTags tags ∧ (tag ++ moreTags tags).length < 512 := by
  have hmore := length_moreTags_le htags
  have hlen : (tag ++ moreTags tags).length < 512 := by
    rw [List.length_append]
    unfold muninnTagLen muninnTagMax at *
    omega
  have hbuf : tagsBufSize = 528 := rfl
  refine ⟨?_, hlen⟩
  have hfirst : joinTag none tag = some tag := by
    change some ([] ++ tag.take (tagsBufSize - 0 - 1)) = some tag
    rw [List.nil_append, List.take_of_length_le]
    unfold muninnTagLen at htag
    omega
  rw [joinTags, List.take_of_length_le (by simpa using hcount), List.foldl_cons, hfirst,
    foldl_joinTag (by omega), Option.getD_some]

/-! ## Splitting -/

theorem IsTag.stored {tag : Bytes} (h : IsTag tag) :
    cut muninnTagLen (tag.rdropWhile fun c ↦ c == 32 || c == 9) = tag := by
  have htrim : (tag.rdropWhile fun c ↦ c == 32 || c == 9) = tag := by
    rw [List.rdropWhile_eq_self_iff]
    intro hne
    simpa using h.last _ (List.getLast?_eq_some_getLast hne)
  rw [htrim, cut_of_lt h.fits]

theorem parseTags_nil (n : ℕ) : parseTags n [] = [] := by
  cases n <;> rfl

theorem parseTags_of_strtok {tag s rest : Bytes} (htag : IsTag tag)
    (h : strtok [44] s = (some tag, rest)) (n : ℕ) :
    parseTags (n + 1) s = tag :: parseTags n rest := by
  simp only [parseTags, h, htag.stored]

theorem parseTags_append {tag : Bytes} {tags : List Bytes} (htag : IsTag tag)
    (htags : ∀ t ∈ tags, IsTag t) {n : ℕ} (hn : tags.length ≤ n) :
    parseTags (n + 1) (tag ++ moreTags tags) = tag :: tags := by
  have hcomma : ∀ c ∈ tag, c ∉ [(44 : UInt8)] := fun c hc heq ↦
    htag.comma (List.mem_singleton.mp heq ▸ hc)
  induction tags generalizing tag n with
  | nil =>
      rw [moreTags, List.flatMap_nil, List.append_nil,
        parseTags_of_strtok htag (strtok_self htag.nonempty hcomma), parseTags_nil]
  | cons t tags ih =>
      obtain ⟨n, rfl⟩ : ∃ k, n = k + 1 := ⟨n - 1, by simp at hn; omega⟩
      rw [List.forall_mem_cons] at htags
      have hmore : ∀ c ∈ t, c ∉ [(44 : UInt8)] := fun c hc heq ↦
        htags.1.comma (List.mem_singleton.mp heq ▸ hc)
      have htok := strtok_append htag.nonempty hcomma (List.mem_singleton_self 44)
        (t ++ moreTags tags)
      rw [moreTags_cons, parseTags_of_strtok htag htok,
        ih htags.1 htags.2 (Nat.le_of_succ_le_succ hn) hmore]

theorem parseTags_joinTags {tags : List Bytes} (htags : ∀ tag ∈ tags, IsTag tag)
    (hcount : tags.length ≤ muninnTagMax) :
    parseTags muninnTagMax (cut 512 (joinTags tags)) = tags := by
  cases tags with
  | nil => rfl
  | cons tag tags =>
      rw [List.forall_mem_cons] at htags
      obtain ⟨hjoin, hlen⟩ := joinTags_cons hcount htags.1.fits fun t ht ↦ (htags.2 t ht).fits
      rw [hjoin, cut_of_lt hlen]
      exact parseTags_append htags.1 htags.2 (Nat.le_of_succ_le_succ hcount)

/-! ## The round trip -/

section RoundTrip

variable {S : Type*} (base : MuninnBase S) {m m' : Muninn} {vault concept content id : Bytes}
  {tags : List Bytes} {idSize : ℕ} {now : UInt64}

theorem muninnWrite_eq_some (hid : muninnIdMax ≤ idSize)
    (h : muninnWrite m vault concept content tags idSize now = some (m', id)) :
    ∃ row ∈ m'.rows, row = .make row.id vault concept content tags now ∧
      id = Decimal.printNat row.id := by
  unfold muninnWrite at h
  split_ifs at h with hinserted
  obtain ⟨rfl, rfl⟩ := Prod.mk.inj (Option.some.inj h)
  refine ⟨.make (m.sequence + 1) vault concept content tags now, by simp, rfl, ?_⟩
  have hlen : (Decimal.printNat (m.sequence + 1)).length ≤ 19 :=
    Decimal.length_printNat_le (by decide) (hinserted.2.trans (by decide))
  have hmax : muninnIdMax = 32 := rfl
  exact cut_of_lt (by omega)

/-- An engram is read back as it was written. -/
theorem muninnRead_muninnWrite (hvault : vault.length ≤ 127) (hconcept : concept.length ≤ 511)
    (hcontent : content.length ≤ 16383) (htags : ∀ tag ∈ tags, IsTag tag)
    (hcount : tags.length ≤ 8) (hid : muninnIdMax ≤ idSize)
    (hwrite : muninnWrite m vault concept content tags idSize now = some (m', id)) :
    ∃ e, muninnRead base m' vault id = some e ∧
      e.id = id ∧ e.vault = vault ∧ e.concept = concept ∧ e.content = content ∧ e.tags = tags := by
  obtain ⟨row, hrow, hmake, rfl⟩ := muninnWrite_eq_some hid hwrite
  have hread := muninnRead_id base hrow vault
  rw [Muninn.id_engramFromRow hrow] at hread
  refine ⟨engramFromRow row, ?_, Muninn.id_engramFromRow hrow, ?_, ?_, ?_, ?_⟩
  · rw [hread, if_pos]
    rw [hmake]
    exact ⟨rfl, rfl⟩
  · rw [hmake]
    exact cut_of_lt (Nat.lt_succ_of_le hvault)
  · rw [hmake]
    exact cut_of_lt (Nat.lt_succ_of_le hconcept)
  · rw [hmake]
    exact cut_of_lt (Nat.lt_succ_of_le hcontent)
  · rw [hmake]
    exact parseTags_joinTags htags hcount

end RoundTrip

/-- Eight tags of 63 bytes. -/
theorem muninnRead_muninnWrite_longTags :
    ∃ m' id, muninnWrite muninnInit (ascii "v1") (ascii "x") (ascii "y")
        (List.replicate 8 (List.replicate 63 97)) 32 1000 = some (m', id) ∧
      ∃ e, muninnRead realBase m' (ascii "v1") id = some e ∧
        e.tags = List.replicate 8 (List.replicate 63 97) := by
  have htags : ∀ tag ∈ List.replicate 8 (List.replicate 63 (97 : UInt8)), IsTag tag := by
    intro tag htag
    rw [List.eq_of_mem_replicate htag]
    refine ⟨by decide, by decide, by decide, fun c hc ↦ ?_⟩
    obtain rfl : 97 = c := Option.some.inj hc
    decide
  refine ⟨_, _, rfl, ?_⟩
  have hwrite : muninnWrite muninnInit (ascii "v1") (ascii "x") (ascii "y")
      (List.replicate 8 (List.replicate 63 97)) 32 1000 = some (_, _) := rfl
  obtain ⟨e, hread, -, -, -, -, heq⟩ := muninnRead_muninnWrite realBase (by decide) (by decide)
    (by decide) htags (by decide) (by decide) hwrite
  exact ⟨e, hread, heq⟩

end DoctorClaw
