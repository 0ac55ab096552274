import DoctorClaw.Identity

/-!
# Saving and loading an identity

Both layouts of a key are a list of lines between two marker lines that joins to
the key.  Loading needs nothing else, and what it makes is of this kind again.
-/

namespace DoctorClaw

open CString

/-! ## Keys -/

/-- The text of a key, as long as it may be for its buffer. -/
structure IsKeyText (key : Bytes) : Prop where
  nonempty : key ≠ []
  length : key.length ≤ 400
  plain : ∀ c ∈ key, c ≠ 0 ∧ c ≠ 10 ∧ c ≠ 45

theorem base64Char_mem (n : ℕ) : base64Char n ∈ base64Table := by
  have hlen : base64Table.length = 64 := by decide
  have hlt : n % 64 < base64Table.length := by omega
  rw [base64Char, List.getD_eq_getElem?_getD, List.getElem?_eq_getElem hlt, Option.getD_some]
  exact List.getElem_mem hlt

theorem mem_base64Groups {b : Bytes} {c : UInt8} (h : c ∈ base64Groups b) : c ∈ base64Table := by
  have hgroup : ∀ b1 b2 b3, c ∈ base64Group b1 b2 b3 → c ∈ base64Table := by
    intro b1 b2 b3 hc
    simp only [base64Group, List.mem_cons, List.not_mem_nil, or_false] at hc
    rcases hc with rfl | rfl | rfl | rfl <;> exact base64Char_mem _
  induction b using base64Groups.induct with
  | case1 => exact absurd h List.not_mem_nil
  | case2 b1 => exact hgroup _ _ _ h
  | case3 b1 b2 => exact hgroup _ _ _ h
  | case4 b1 b2 b3 rest ih =>
      rcases List.mem_append.mp h with h | h
      · exact hgroup _ _ _ h
      · exact ih h

theorem mem_base64Chars {b : Bytes} {c : UInt8} (h : c ∈ base64Chars b) :
    c ≠ 0 ∧ c ≠ 10 ∧ c ≠ 45 := by
  have hall : (base64Table.all fun c ↦ decide (c ≠ 0 ∧ c ≠ 10 ∧ c ≠ 45)) = true := by decide
  have htable : ∀ c ∈ base64Table, c ≠ 0 ∧ c ≠ 10 ∧ c ≠ 45 := fun c hc ↦
    of_decide_eq_true (List.all_eq_true.mp hall c hc)
  rcases List.mem_append.mp h with h | h
  · exact htable c (mem_base64Groups (List.mem_of_mem_take h))
  · rw [List.eq_of_mem_replicate h]
    decide

theorem isKeyText_generatedKey (random : Vector UInt8 identityKeyBytes) :
    IsKeyText (generatedKey random) ∧ (generatedKey random).length = 344 := by
  have hlen : ∀ bytes : Vector UInt8 identityKeyBytes, (base64Chars bytes.toList).length = 344 := by
    intro bytes
    rw [length_base64Chars, Vector.length_toList, identityKeyBytes]
  have hkey : generatedKey random =
      base64Chars (random.set 0 (random.get ⟨0, by decide⟩ &&& 0x7F) (by decide)).toList := by
    rw [generatedKey, utilBase64Encode]
    exact if_pos (by rw [hlen]; decide)
  rw [hkey]
  refine ⟨⟨fun hnil ↦ ?_, ?_, fun c hc ↦ mem_base64Chars hc⟩, hlen _⟩
  · have hzero := hlen (random.set 0 (random.get ⟨0, by decide⟩ &&& 0x7F) (by decide))
    rw [hnil] at hzero
    cases hzero
  · rw [hlen]
    decide

/-! ## Layouts -/

/-- The lines of a file. -/
def asLines (lines : List Bytes) : Bytes := lines.flatMap fun line ↦ line ++ [10]

theorem asLines_append (lines lines' : List Bytes) :
    asLines (lines ++ lines') = asLines lines ++ asLines lines' :=
  List.flatMap_append

/-- Lines between two markers that join to the key. -/
def IsPem (first last key pem : Bytes) : Prop :=
  ∃ lines, pem = asLines (first :: lines ++ [last]) ∧ lines.flatten = key

/-- A line takes the next 64 characters or the rest of the key. -/
theorem pemChunk_spec {key : Bytes} {i chunk : ℕ} (hi : i < key.length)
    (hchunk : (if key.length < i + 64 then key.length - i else 64) = chunk) :
    0 < chunk ∧ chunk ≤ key.length - i ∧ key.length - (i + 64) = key.length - i - chunk ∧
      (key.drop i).drop chunk = key.drop (i + 64) := by
  split_ifs at hchunk
  · refine ⟨by omega, by omega, by omega, ?_⟩
    rw [List.drop_drop, List.drop_eq_nil_of_le (by omega), List.drop_eq_nil_of_le (by omega)]
  · subst hchunk
    exact ⟨by omega, by omega, by omega, List.drop_drop⟩

/-- The loop writes the rest of the key, some characters a line. -/
theorem pemLoop_eq {key : Bytes} {fuel i : ℕ} {pem : Bytes} (hfuel : key.length - i ≤ fuel)
    (hroom : pem.length + 2 * (key.length - i) < pemSize - 60) :
    ∃ lines, pemLoop key fuel i pem = pem ++ asLines lines ∧ lines.flatten = key.drop i ∧
      (asLines lines).length ≤ 2 * (key.length - i) := by
  induction fuel generalizing i pem with
  | zero =>
      refine ⟨[], (List.append_nil _).symm, ?_, Nat.zero_le _⟩
      rw [List.drop_eq_nil_of_le (by omega)]
      rfl
  | succ fuel ih =>
      by_cases hmore : i < key.length ∧ pem.length < pemSize - 60
      · rw [pemLoop, if_pos hmore]
        generalize hchunk : (if key.length < i + 64 then key.length - i else 64) = chunk
        obtain ⟨hpos, hle, hleft, hdrop⟩ := pemChunk_spec hmore.1 hchunk
        have hline : ((key.drop i).take chunk).length = chunk :=
          List.length_take_of_le (by rw [List.length_drop]; exact hle)
        have hpem : (pem ++ (key.drop i).take chunk ++ [10]).length = pem.length + chunk + 1 := by
          rw [List.length_append, List.length_append, hline, List.length_singleton]
        obtain ⟨lines, hloop, hflat, hlen⟩ := ih
          (show key.length - (i + 64) ≤ fuel by omega)
          (show (pem ++ (key.drop i).take chunk ++ [10]).length + 2 * (key.length - (i + 64)) <
            pemSize - 60 by omega)
        refine ⟨(key.drop i).take chunk :: lines, ?_, ?_, ?_⟩
        · rw [hloop]
          simp [asLines]
        · rw [List.flatten_cons, hflat, ← hdrop, List.take_append_drop]
        · rw [asLines, List.flatMap_cons, List.length_append, List.length_append, hline,
            List.length_singleton]
          rw [asLines] at hlen
          omega
      · have hend : key.length ≤ i := by omega
        rw [pemLoop, if_neg hmore]
        exact ⟨[], (List.append_nil _).symm, (List.drop_eq_nil_of_le hend).symm, Nat.zero_le _⟩

theorem isPem_generatedPem {first last key : Bytes} (hkey : key.length = 344)
    (hfirst : first.length ≤ 100) (hlast : last.length ≤ 100) :
    IsPem first last key (generatedPem first last key) := by
  have hstart : cut pemSize (first ++ [10]) = first ++ [10] :=
    cut_of_lt (by rw [List.length_append, List.length_singleton, pemSize, identityKeyBytes]; omega)
  obtain ⟨lines, hloop, hflat, hlen⟩ :=
    pemLoop_eq (show key.length - 0 ≤ key.length + 1 by omega)
      (show (first ++ [10]).length + 2 * (key.length - 0) < pemSize - 60 by
        rw [List.length_append, List.length_singleton, pemSize, identityKeyBytes]
        omega)
  have hend : cut (pemSize - (first ++ [10] ++ asLines lines).length) (last ++ [10]) =
      last ++ [10] := by
    apply cut_of_lt
    simp only [List.length_append, List.length_singleton, pemSize, identityKeyBytes]
    omega
  refine ⟨lines, ?_, by rw [hflat, List.drop_zero]⟩
  rw [generatedPem, hstart, hloop, hend]
  simp [asLines]

theorem isPem_loadedPem {first last key : Bytes} (hkey : IsKeyText key)
    (hfirst : first.length ≤ 100) (hlast : last.length ≤ 100) :
    IsPem first last key (loadedPem first last key) := by
  have hlen := hkey.length
  refine ⟨[key], ?_, by simp⟩
  rw [loadedPem, cut_of_lt]
  · simp [asLines]
  · simp only [List.length_append, List.length_singleton, pemSize, identityKeyBytes]
    omega

/-! ## Loading -/

theorem withoutNewline_append (line : Bytes) : withoutNewline (line ++ [10]) = line := by
  rw [withoutNewline, if_pos (by simp), List.dropLast_concat]

theorem ne_marker {line marker : Bytes} (hline : line.head? ≠ some 45)
    (hmarker : marker.head? = some 45) : line ++ [10] ≠ marker ++ [10] := fun h ↦
  hline ((List.append_inj' h rfl).1 ▸ hmarker)

/-- A line that does not begin with a dash is no marker. -/
theorem loadIdentityLine_field {line : Bytes} (hline : line.head? ≠ some 45)
    (id : StoredIdentity) :
    loadIdentityLine ⟨id, false, false⟩ (line ++ [10]) =
      ⟨loadIdentityField id line, false, false⟩ := by
  rw [loadIdentityLine, if_neg (ne_marker hline (by decide)), if_neg (ne_marker hline (by decide)),
    if_neg (ne_marker hline (by decide)), if_neg (ne_marker hline (by decide)),
    withoutNewline_append]
  rfl

/-- The identity with one of its keys replaced. -/
def withKey (isPublic : Bool) (id : StoredIdentity) (key : Bytes) : StoredIdentity :=
  if isPublic then { id with publicKey := key } else { id with secretKey := key }

theorem loadIdentityLine_key {line : Bytes} (hline : line.head? ≠ some 45) (isPublic : Bool)
    (id : StoredIdentity) {key : Bytes} (hroom : hasRoom key (line.length + 1) = true) :
    loadIdentityLine ⟨withKey isPublic id key, isPublic, !isPublic⟩ (line ++ [10]) =
      ⟨withKey isPublic id (key ++ line), isPublic, !isPublic⟩ := by
  rw [loadIdentityLine, if_neg (ne_marker hline (by decide)), if_neg (ne_marker hline (by decide)),
    if_neg (ne_marker hline (by decide)), if_neg (ne_marker hline (by decide)),
    withoutNewline_append, List.length_append, List.length_singleton]
  cases isPublic with
  | false => simp [withKey, hroom]
  | true => simp [withKey, hroom]

def beginMarker (isPublic : Bool) : Bytes := if isPublic then beginPublic else beginPrivate

def endMarker (isPublic : Bool) : Bytes := if isPublic then endPublic else endPrivate

theorem loadIdentityLine_begin (isPublic : Bool) (id : StoredIdentity) :
    loadIdentityLine ⟨id, false, false⟩ (beginMarker isPublic ++ [10]) =
      ⟨withKey isPublic id [], isPublic, !isPublic⟩ := by
  cases isPublic <;> rfl

theorem loadIdentityLine_end (isPublic : Bool) (id : StoredIdentity) :
    loadIdentityLine ⟨id, isPublic, !isPublic⟩ (endMarker isPublic ++ [10]) =
      ⟨id, false, false⟩ := by
  cases isPublic <;> rfl

theorem hasRoom_of_le {key line : Bytes} (h : key.length + line.length ≤ 400) :
    hasRoom key (line.length + 1) = true := by
  rw [hasRoom, identityKeyBytes, decide_eq_true_eq]
  omega

/-- The lines of a key are put together. -/
theorem foldl_loadIdentityLine_key (isPublic : Bool) (id : StoredIdentity) {key : Bytes}
    (hkey : IsKeyText key) {before : Bytes} {lines : List Bytes}
    (hflat : before ++ lines.flatten = key) :
    (lines.map (· ++ [10])).foldl loadIdentityLine
        ⟨withKey isPublic id before, isPublic, !isPublic⟩ =
      ⟨withKey isPublic id key, isPublic, !isPublic⟩ := by
  induction lines generalizing before with
  | nil =>
      rw [List.flatten_nil, List.append_nil] at hflat
      rw [hflat]
      rfl
  | cons line lines ih =>
      rw [List.flatten_cons, ← List.append_assoc] at hflat
      have hlen := hkey.length
      have hhead : line.head? ≠ some 45 := by
        intro h
        have hmem : (45 : UInt8) ∈ key := by
          rw [← hflat]
          exact List.mem_append_left _ (List.mem_append_right _ (List.mem_of_mem_head? h))
        exact (hkey.plain 45 hmem).2.2 rfl
      rw [← hflat, List.length_append, List.length_append] at hlen
      rw [List.map_cons, List.foldl_cons,
        loadIdentityLine_key hhead isPublic id (hasRoom_of_le (by omega)), ih hflat]

theorem foldl_loadIdentityLine_pem (isPublic : Bool) (id : StoredIdentity) {key : Bytes}
    (hkey : IsKeyText key) {lines : List Bytes} (hflat : lines.flatten = key) :
    ((beginMarker isPublic :: lines ++ [endMarker isPublic]).map (· ++ [10])).foldl
        loadIdentityLine ⟨id, false, false⟩ = ⟨withKey isPublic id key, false, false⟩ := by
  rw [List.map_append, List.foldl_append, List.map_cons, List.foldl_cons, loadIdentityLine_begin,
    foldl_loadIdentityLine_key isPublic id hkey (by rw [List.nil_append, hflat])]
  exact loadIdentityLine_end isPublic _

/-! ## The lines of a file -/

/-- A line that `fgets` returns in one piece. -/
structure IsPlainLine (line : Bytes) : Prop where
  newline : (10 : UInt8) ∉ line
  nul : (0 : UInt8) ∉ line
  length : line.length ≤ 400

instance : DecidablePred IsPlainLine := fun line ↦
  decidable_of_iff ((10 : UInt8) ∉ line ∧ (0 : UInt8) ∉ line ∧ line.length ≤ 400)
    ⟨fun h ↦ ⟨h.1, h.2.1, h.2.2⟩, fun h ↦ ⟨h.newline, h.nul, h.length⟩⟩

theorem isPlainLine_append {front value : Bytes} (hfront : IsPlainLine front)
    (hnewline : (10 : UInt8) ∉ value) (hnul : (0 : UInt8) ∉ value)
    (hlen : front.length + value.length ≤ 400) : IsPlainLine (front ++ value) where
  newline := by
    rw [List.mem_append, not_or]
    exact ⟨hfront.newline, hnewline⟩
  nul := by
    rw [List.mem_append, not_or]
    exact ⟨hfront.nul, hnul⟩
  length := by rwa [List.length_append]

theorem IsKeyText.isPlainLine {key : Bytes} (h : IsKeyText key) {line : Bytes}
    (hline : line <:+: key) : IsPlainLine line where
  newline hmem := (h.plain _ (hline.subset hmem)).2.1 rfl
  nul hmem := (h.plain _ (hline.subset hmem)).1 rfl
  length := hline.length_le.trans h.length

theorem isPlainLine_of_mem_pem (isPublic : Bool) {key : Bytes} (hkey : IsKeyText key)
    {lines : List Bytes} (hflat : lines.flatten = key) :
    ∀ line ∈ beginMarker isPublic :: lines ++ [endMarker isPublic], IsPlainLine line := by
  have hmarkers : IsPlainLine (beginMarker isPublic) ∧ IsPlainLine (endMarker isPublic) := by
    cases isPublic <;> decide
  rw [List.cons_append, List.forall_mem_cons, List.forall_mem_append, List.forall_mem_singleton]
  refine ⟨hmarkers.1, fun line hline ↦ hkey.isPlainLine ?_, hmarkers.2⟩
  rw [← hflat]
  exact List.infix_of_mem_flatten hline

theorem fgetsLines_asLines {lines : List Bytes} (h : ∀ line ∈ lines, IsPlainLine line) :
    (fgetsLines identityLineLength (asLines lines).length (asLines lines)).map ofBuffer =
      lines.map (· ++ [10]) := by
  have hshort : ∀ line ∈ lines, (10 : UInt8) ∉ line ∧ line.length + 1 < identityLineLength := by
    intro line hline
    have hlen := (h line hline).length
    exact ⟨(h line hline).newline, by rw [identityLineLength]; omega⟩
  rw [asLines, fgetsLines_flatMap hshort, List.map_map]
  refine List.map_congr_left fun line hline ↦ ofBuffer_eq_self ?_
  rw [List.mem_append, not_or]
  exact ⟨(h line hline).nul, by decide⟩

/-! ## The fields -/

theorem not_prefix_of_head {p l : Bytes} {c d : UInt8} (hp : p.head? = some c)
    (hl : l.head? = some d) (hcd : c ≠ d) : ¬ p <+: l := by
  rintro ⟨t, rfl⟩
  have hne : p ≠ [] := fun hnil ↦ by simp [hnil] at hp
  rw [List.head?_append_of_ne_nil _ hne, hp, Option.some.injEq] at hl
  exact hcd hl

section Fields

variable (id : StoredIdentity) (value : Bytes)

theorem loadIdentityField_name :
    loadIdentityField id (ascii "name=" ++ value) =
      { id with name := cut maxIdentityName value } := by
  rw [loadIdentityField, if_pos (List.prefix_append _ _), List.drop_left' (by decide)]

theorem loadIdentityField_email :
    loadIdentityField id (ascii "email=" ++ value) =
      { id with email := cut maxIdentityEmail value } := by
  have hname : ¬ ascii "name=" <+: ascii "email=" ++ value :=
    not_prefix_of_head (show _ = some 110 by decide) (show _ = some 101 from rfl) (by decide)
  rw [loadIdentityField, if_neg hname, if_pos (List.prefix_append _ _),
    List.drop_left' (by decide)]

theorem loadIdentityField_created :
    loadIdentityField id (ascii "created=" ++ value) =
      { id with createdAt := UInt64.ofInt (Decimal.atol value) } := by
  have hname : ¬ ascii "name=" <+: ascii "created=" ++ value :=
    not_prefix_of_head (show _ = some 110 by decide) (show _ = some 99 from rfl) (by decide)
  have hemail : ¬ ascii "email=" <+: ascii "created=" ++ value :=
    not_prefix_of_head (show _ = some 101 by decide) (show _ = some 99 from rfl) (by decide)
  rw [loadIdentityField, if_neg hname, if_neg hemail, if_pos (List.prefix_append _ _),
    List.drop_left' (by decide)]

end Fields

/-- A time that has been printed is read back. -/
theorem atol_createdAt {t : UInt64} (ht : t.toNat < 2 ^ 63) :
    UInt64.ofInt (Decimal.atol (Decimal.printNat t.toNat)) = t := by
  rw [Decimal.atol_printNat ht, UInt64.ofInt, Int.emod_eq_of_lt (by omega) (by omega),
    Int.toNat_natCast, UInt64.ofNat_toNat]

/-! ## Cycles -/

/-- What generating and loading establish. -/
structure StoredIdentity.Canonical (id : StoredIdentity) : Prop where
  name : (10 : UInt8) ∉ id.name ∧ (0 : UInt8) ∉ id.name ∧ id.name.length < maxIdentityName
  email : (10 : UInt8) ∉ id.email ∧ (0 : UInt8) ∉ id.email ∧ id.email.length < maxIdentityEmail
  publicKey : IsKeyText id.publicKey
  secretKey : IsKeyText id.secretKey
  publicKeyPem : IsPem beginPublic endPublic id.publicKey id.publicKeyPem
  secretKeyPem : IsPem beginPrivate endPrivate id.secretKey id.secretKeyPem
  createdAt : id.createdAt.toNat < 2 ^ 63
  initialized : id.initialized = true

theorem isPlainLine_fields {id : StoredIdentity} (h : id.Canonical) :
    ∀ line ∈ [ascii "name=" ++ id.name, ascii "email=" ++ id.email,
      ascii "created=" ++ Decimal.printNat id.createdAt.toNat], IsPlainLine line := by
  have hfronts : IsPlainLine (ascii "name=") ∧ IsPlainLine (ascii "email=") ∧
      IsPlainLine (ascii "created=") := by decide
  have hlens : (ascii "name=").length = 5 ∧ (ascii "email=").length = 6 ∧
      (ascii "created=").length = 8 := by decide
  have hname := h.name.2.2
  have hemail := h.email.2.2
  have hdigits : (Decimal.printNat id.createdAt.toNat).length ≤ 20 :=
    Decimal.length_printNat_le (by decide) (h.createdAt.trans (by decide))
  rw [maxIdentityName] at hname
  rw [maxIdentityEmail] at hemail
  simp only [List.forall_mem_cons]
  refine ⟨isPlainLine_append hfronts.1 h.name.1 h.name.2.1 (by omega),
    isPlainLine_append hfronts.2.1 h.email.1 h.email.2.1 (by omega),
    isPlainLine_append hfronts.2.2 (fun hmem ↦ ?_) (fun hmem ↦ ?_) (by omega),
    fun _ hline ↦ absurd hline List.not_mem_nil⟩
  · exact absurd (Decimal.isDigit_of_mem_printNat hmem) (by decide)
  · exact absurd (Decimal.isDigit_of_mem_printNat hmem) (by decide)

theorem foldl_loadIdentityLine_fields {id : StoredIdentity} (h : id.Canonical)
    (start : StoredIdentity) :
    (([ascii "name=" ++ id.name, ascii "email=" ++ id.email,
        ascii "created=" ++ Decimal.printNat id.createdAt.toNat].map (· ++ [10])).foldl
          loadIdentityLine ⟨start, false, false⟩) =
      ⟨{ start with name := id.name, email := id.email, createdAt := id.createdAt },
        false, false⟩ := by
  have hheads : (ascii "name=" ++ id.name).head? ≠ some 45 ∧
      (ascii "email=" ++ id.email).head? ≠ some 45 ∧
      (ascii "created=" ++ Decimal.printNat id.createdAt.toNat).head? ≠ some 45 :=
    ⟨show some 110 ≠ _ by decide, show some 101 ≠ _ by decide, show some 99 ≠ _ by decide⟩
  simp only [List.map_cons, List.map_nil, List.foldl_cons, List.foldl_nil,
    loadIdentityLine_field hheads.1, loadIdentityLine_field hheads.2.1,
    loadIdentityLine_field hheads.2.2, loadIdentityField_name, loadIdentityField_email,
    loadIdentityField_created, cut_of_lt h.name.2.2, cut_of_lt h.email.2.2,
    atol_createdAt h.createdAt]

/-- A key in either layout is a list of lines that load as the key. -/
theorem exists_pemLines (isPublic : Bool) {key pem : Bytes} (hkey : IsKeyText key)
    (hpem : IsPem (beginMarker isPublic) (endMarker isPublic) key pem) :
    ∃ lines, pem = asLines lines ∧ (∀ line ∈ lines, IsPlainLine line) ∧
      ∀ id, (lines.map (· ++ [10])).foldl loadIdentityLine ⟨id, false, false⟩ =
        ⟨withKey isPublic id key, false, false⟩ := by
  obtain ⟨lines, hlines, hflat⟩ := hpem
  exact ⟨_, hlines, isPlainLine_of_mem_pem isPublic hkey hflat, fun id ↦
    foldl_loadIdentityLine_pem isPublic id hkey hflat⟩

/-- Loading a saved identity changes the layout of its keys and nothing else. -/
theorem identityLoad_identitySave {id : StoredIdentity} (h : id.Canonical) :
    identityLoad identityInit (some (identitySave id)) =
      (0, { id with
        publicKeyPem := loadedPem beginPublic endPublic id.publicKey
        secretKeyPem := loadedPem beginPrivate endPrivate id.secretKey }) := by
  obtain ⟨pub, hpub, hpubPlain, hpubRun⟩ := exists_pemLines true h.publicKey h.publicKeyPem
  obtain ⟨sec, hsec, hsecPlain, hsecRun⟩ := exists_pemLines false h.secretKey h.secretKeyPem
  have hfieldsRun := foldl_loadIdentityLine_fields h identityInit
  have hfieldsPlain := isPlainLine_fields h
  have hsave : identitySave id = asLines ([ascii "name=" ++ id.name, ascii "email=" ++ id.email,
      ascii "created=" ++ Decimal.printNat id.createdAt.toNat] ++ pub ++ [[]] ++ sec ++ [[]]) := by
    simp only [asLines_append, ← hpub, ← hsec]
    simp [identitySave, asLines]
  generalize [ascii "name=" ++ id.name, ascii "email=" ++ id.email,
    ascii "created=" ++ Decimal.printNat id.createdAt.toNat] = fields
    at hsave hfieldsRun hfieldsPlain
  have hblankPlain : IsPlainLine [] := by decide
  have hplain : ∀ line ∈ fields ++ pub ++ [[]] ++ sec ++ [[]], IsPlainLine line := by
    simp only [List.forall_mem_append, List.forall_mem_singleton]
    exact ⟨⟨⟨⟨hfieldsPlain, hpubPlain⟩, hblankPlain⟩, hsecPlain⟩, hblankPlain⟩
  have hblankRun : ∀ id, loadIdentityLine ⟨id, false, false⟩ ([] ++ [10]) = ⟨id, false, false⟩ :=
    fun id ↦ loadIdentityLine_field (by simp) id
  have hrun : ((fields ++ pub ++ [[]] ++ sec ++ [[]]).map (· ++ [10])).foldl loadIdentityLine
      ⟨identityInit, false, false⟩ =
        ⟨{ id with publicKeyPem := [], secretKeyPem := [], initialized := false },
          false, false⟩ := by
    simp only [List.map_append, List.foldl_append, hfieldsRun, hpubRun, hsecRun, List.map_singleton,
      List.foldl_cons, List.foldl_nil, hblankRun]
    rfl
  rw [identityLoad, hsave, fgetsLines_asLines hplain, hrun,
    if_pos ⟨h.publicKey.nonempty, h.secretKey.nonempty⟩, ← h.initialized]

theorem length_pemMarkers : (beginPublic.length ≤ 100 ∧ endPublic.length ≤ 100) ∧
    beginPrivate.length ≤ 100 ∧ endPrivate.length ≤ 100 := by
  decide

theorem canonical_identityGenerate {name : Bytes} {email : Option Bytes}
    (hname : (10 : UInt8) ∉ name ∧ (0 : UInt8) ∉ name)
    (hemail : ∀ e ∈ email, (10 : UInt8) ∉ e ∧ (0 : UInt8) ∉ e)
    (pubBytes privBytes : Vector UInt8 identityKeyBytes) {now : Int64} (hnow : 0 ≤ now) :
    (identityGenerate name email pubBytes privBytes now).Canonical where
  name := ⟨fun h ↦ hname.1 (List.mem_of_mem_take h), fun h ↦ hname.2 (List.mem_of_mem_take h),
    length_cut_lt (by decide) name⟩
  email := by
    cases email with
    | none => exact ⟨List.not_mem_nil, List.not_mem_nil, show 0 < maxIdentityEmail by decide⟩
    | some e =>
        obtain ⟨hnewline, hnul⟩ := hemail e rfl
        exact ⟨fun h ↦ hnewline (List.mem_of_mem_take h), fun h ↦ hnul (List.mem_of_mem_take h),
          length_cut_lt (by decide) e⟩
  publicKey := (isKeyText_generatedKey pubBytes).1
  secretKey := (isKeyText_generatedKey privBytes).1
  publicKeyPem := by
    change IsPem beginPublic endPublic (generatedKey pubBytes)
      (generatedPem beginPublic endPublic (generatedKey pubBytes))
    exact isPem_generatedPem (isKeyText_generatedKey pubBytes).2 length_pemMarkers.1.1
      length_pemMarkers.1.2
  secretKeyPem := by
    change IsPem beginPrivate endPrivate (generatedKey privBytes)
      (generatedPem beginPrivate endPrivate (generatedKey privBytes))
    exact isPem_generatedPem (isKeyText_generatedKey privBytes).2 length_pemMarkers.2.1
      length_pemMarkers.2.2
  createdAt := by
    rw [identityGenerate, Int64.toNat_toUInt64_of_le hnow]
    exact now.toNatClampNeg_lt
  initialized := rfl

/-- The identity after it has been saved and loaded into a fresh one. -/
def reloadIdentity (id : StoredIdentity) : StoredIdentity :=
  (identityLoad identityInit (some (identitySave id))).2

theorem canonical_reloadIdentity {id : StoredIdentity} (h : id.Canonical) :
    (reloadIdentity id).Canonical := by
  rw [reloadIdentity, identityLoad_identitySave h]
  exact ⟨h.name, h.email, h.publicKey, h.secretKey,
    isPem_loadedPem h.publicKey length_pemMarkers.1.1 length_pemMarkers.1.2,
    isPem_loadedPem h.secretKey length_pemMarkers.2.1 length_pemMarkers.2.2,
    h.createdAt, h.initialized⟩

/-- The fields that a cycle keeps. -/
structure SameIdentity (id id' : StoredIdentity) : Prop where
  name : id'.name = id.name
  email : id'.email = id.email
  createdAt : id'.createdAt = id.createdAt
  publicKey : id'.publicKey = id.publicKey
  secretKey : id'.secretKey = id.secretKey

theorem sameIdentity_reloadIdentity {id : StoredIdentity} (h : id.Canonical) :
    SameIdentity id (reloadIdentity id) := by
  rw [reloadIdentity, identityLoad_identitySave h]
  exact ⟨rfl, rfl, rfl, rfl, rfl⟩

theorem iterate_reloadIdentity {id : StoredIdentity} (h : id.Canonical) (n : ℕ) :
    SameIdentity id (reloadIdentity^[n] id) ∧ (reloadIdentity^[n] id).Canonical := by
  induction n with
  | zero => exact ⟨⟨rfl, rfl, rfl, rfl, rfl⟩, h⟩
  | succ n ih =>
      obtain ⟨hsame, hcanonical⟩ := ih
      have hstep := sameIdentity_reloadIdentity hcanonical
      rw [Function.iterate_succ_apply']
      exact ⟨⟨hstep.name.trans hsame.name, hstep.email.trans hsame.email,
        hstep.createdAt.trans hsame.createdAt, hstep.publicKey.trans hsame.publicKey,
        hstep.secretKey.trans hsame.secretKey⟩, canonical_reloadIdentity hcanonical⟩

/-- A generated identity survives every number of cycles. -/
theorem identityGenerate_cycles {name : Bytes} {email : Option Bytes}
    (hname : (10 : UInt8) ∉ name ∧ (0 : UInt8) ∉ name)
    (hemail : ∀ e ∈ email, (10 : UInt8) ∉ e ∧ (0 : UInt8) ∉ e)
    (pubBytes privBytes : Vector UInt8 identityKeyBytes) {now : Int64} (hnow : 0 ≤ now) (n : ℕ) :
    SameIdentity (identityGenerate name email pubBytes privBytes now)
        (reloadIdentity^[n] (identityGenerate name email pubBytes privBytes now)) ∧
      (reloadIdentity^[n] (identityGenerate name email pubBytes privBytes now)).initialized =
        true := by
  obtain ⟨hsame, hcanonical⟩ :=
    iterate_reloadIdentity (canonical_identityGenerate hname hemail pubBytes privBytes hnow) n
  exact ⟨hsame, hcanonical.initialized⟩

theorem identityGenerate_cycles_ada :
    (reloadIdentity^[3] (identityGenerate (ascii "created=Ada") none (Vector.replicate _ 255)
        (Vector.replicate _ 1) 1700000000)).name = ascii "created=Ada" ∧
      (reloadIdentity^[3] (identityGenerate (ascii "created=Ada") none (Vector.replicate _ 255)
        (Vector.replicate _ 1) 1700000000)).createdAt = 1700000000 := by
  have hname : (10 : UInt8) ∉ ascii "created=Ada" ∧ (0 : UInt8) ∉ ascii "created=Ada" := by decide
  have hemail : ∀ e ∈ (none : Option Bytes), (10 : UInt8) ∉ e ∧ (0 : UInt8) ∉ e := by decide
  have hnow : (0 : Int64) ≤ 1700000000 := by decide
  have h := (identityGenerate_cycles hname hemail (Vector.replicate _ 255) (Vector.replicate _ 1)
    hnow 3).1
  exact ⟨h.name, h.createdAt⟩

end DoctorClaw
