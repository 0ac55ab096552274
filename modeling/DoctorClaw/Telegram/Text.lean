import DoctorClaw.Telegram

/-!
# The text of a polled message

One index walks the escaped text of the answer and the buffer it is copied to.  A
backslash moves the index without a store, so that the byte of the last poll stays
where it stood, and the terminator may come to stand behind the buffer.

The text is the first one behind the key of the message.  In a reply this may be
the text of the message that is replied to.
-/

namespace DoctorClaw

/-! ## The stores -/

/-- The index at which the loop stops, `text_size - 1` in `size_t`. -/
def textLimit (textSize : ℕ) : ℕ := if textSize = 0 then 2 ^ 64 - 1 else textSize - 1

/-- The stores of the loop from index `i` on, which walks the memory from the text
on. -/
def copyStores (limit : ℕ) : ℕ → Bytes → List (ℕ × UInt8)
  | i, [] => [(i, 0)]
  | i, c :: mem =>
      if c = 0 ∨ c = 34 ∨ limit ≤ i then [(i, 0)]
      else if c = 92 then
        match mem with
        | [] => [(i + 1, 0)]
        | d :: mem => (i + 1, d) :: copyStores limit (i + 2) mem
      else (i, c) :: copyStores limit (i + 1) mem

/-- The buffer and what is around it after some stores. -/
def applyStores (old : ℕ → UInt8) (stores : List (ℕ × UInt8)) : ℕ → UInt8 :=
  stores.foldl (fun mem store ↦ Function.update mem store.1 store.2) old

/-- The string that begins at the start of the buffer. -/
structure ReadsAs (mem : ℕ → UInt8) (s : Bytes) : Prop where
  bytes : ∀ k (hk : k < s.length), mem k = s[k]
  terminated : mem s.length = 0
  no_zero : (0 : UInt8) ∉ s

/-- The text up to its closing quote, with the escapes of quotes and backslashes
undone. -/
def unescapeText : Bytes → Bytes
  | [] => []
  | c :: s =>
      if c = 34 then []
      else if c = 92 then
        match s with
        | [] => [92]
        | d :: s => if d = 34 ∨ d = 92 then d :: unescapeText s else 92 :: d :: unescapeText s
      else c :: unescapeText s

/-- What the copy leaves depends on the answer only: the text `own` of the message,
cut to the buffer, and nothing is stored behind it. -/
structure TextFromAnswer (own : Bytes) (textSize : ℕ) (stores : List (ℕ × UInt8)) : Prop where
  inside : ∀ store ∈ stores, store.1 < textSize
  text : ∀ old, ReadsAs (applyStores old stores) ((unescapeText own).take (textSize - 1))
  same : ∀ old old' s s', ReadsAs (applyStores old stores) s →
    ReadsAs (applyStores old' stores) s' → s = s'

/-- The stores of a fetch that succeeds; `behind` are the bytes behind the
terminator of the answer. -/
def telegramFetchStores (textSize : ℕ) (data behind : Bytes) : Option (List (ℕ × UInt8)) :=
  (findMessageText data).map fun start ↦
    copyStores (textLimit textSize) 0 (start ++ 0 :: behind)

section Loop

variable {limit i k : ℕ} {src mem s : Bytes} {c d : UInt8} {old : ℕ → UInt8}
  {stores : List (ℕ × UInt8)}

theorem copyStores_stop (h : c = 0 ∨ c = 34 ∨ limit ≤ i) (mem : Bytes) :
    copyStores limit i (c :: mem) = [(i, 0)] := by
  cases mem <;> simp [copyStores, h]

theorem copyStores_slash (hlimit : i < limit) (d : UInt8) (mem : Bytes) :
    copyStores limit i (92 :: d :: mem) = (i + 1, d) :: copyStores limit (i + 2) mem := by
  simp [copyStores, hlimit]

theorem copyStores_cons (hzero : c ≠ 0) (hquote : c ≠ 34) (hslash : c ≠ 92) (hlimit : i < limit)
    (mem : Bytes) :
    copyStores limit i (c :: mem) = (i, c) :: copyStores limit (i + 1) mem := by
  cases mem <;> simp [copyStores, hzero, hquote, hslash, hlimit]

/-- In a buffer these are the stores of `copyText`, which stops at the end of the
text. -/
theorem copyText_eq_foldl (hzero : (0 : UInt8) ∉ src) (buf : Bytes) :
    copyText limit i src buf =
      (copyStores limit i (src ++ [0])).foldl (fun buf store ↦ buf.set store.1 store.2) buf := by
  fun_induction copyText limit i src buf with
  | case1 i buf =>
      rw [List.nil_append, copyStores_stop (.inl rfl)]
      rfl
  | case2 i c src buf hstop =>
      rw [List.cons_append, copyStores_stop (.inr hstop)]
      rfl
  | case3 i buf hstop =>
      obtain ⟨-, hlimit⟩ := not_or.mp hstop
      rw [List.cons_append, List.nil_append, copyStores_slash (not_le.mp hlimit)]
      rfl
  | case4 i buf d src hstop ih =>
      obtain ⟨-, hlimit⟩ := not_or.mp hstop
      rw [List.cons_append, List.cons_append, copyStores_slash (not_le.mp hlimit),
        ih fun h ↦ hzero (List.mem_cons_of_mem _ (List.mem_cons_of_mem _ h))]
      rfl
  | case5 i c src buf hstop hslash ih =>
      obtain ⟨hquote, hlimit⟩ := not_or.mp hstop
      obtain ⟨hc, hsrc⟩ := not_or.mp (mt List.mem_cons.mpr hzero)
      rw [List.cons_append, copyStores_cons (Ne.symm hc) hquote hslash (not_le.mp hlimit), ih hsrc]
      rfl

/-! ## Stores -/

theorem applyStores_cons (old : ℕ → UInt8) (store : ℕ × UInt8) (stores : List (ℕ × UInt8)) :
    applyStores old (store :: stores) =
      applyStores (Function.update old store.1 store.2) stores := rfl

/-- A byte that no store is made to stays what it was. -/
theorem applyStores_of_ne (h : ∀ store ∈ stores, store.1 ≠ k) (old : ℕ → UInt8) :
    applyStores old stores k = old k := by
  induction stores generalizing old with
  | nil => rfl
  | cons store stores ih =>
      obtain ⟨hfirst, hrest⟩ := List.forall_mem_cons.mp h
      rw [applyStores_cons, ih hrest, Function.update_of_ne (Ne.symm hfirst)]

theorem le_of_mem_copyStores (limit i : ℕ) (mem : Bytes) :
    ∀ store ∈ copyStores limit i mem, i ≤ store.1 := by
  fun_induction copyStores limit i mem with
  | case1 i => simp
  | case2 i c mem hstop => simp
  | case3 i => simp
  | case4 i hstop d mem ih =>
      refine List.forall_mem_cons.mpr ⟨Nat.le_succ i, fun store hstore ↦ ?_⟩
      exact (Nat.le_add_right i 2).trans (ih store hstore)
  | case5 i c mem hstop hslash ih =>
      refine List.forall_mem_cons.mpr ⟨le_rfl, fun store hstore ↦ ?_⟩
      exact (Nat.le_succ i).trans (ih store hstore)

theorem copyStores_ne_nil (limit i : ℕ) (mem : Bytes) : copyStores limit i mem ≠ [] := by
  fun_cases copyStores limit i mem <;> exact List.cons_ne_nil _ _

/-! ## Texts without escapes -/

/-- A byte that is copied as it is. -/
def CopiedPlain (c : UInt8) : Prop := c ≠ 0 ∧ c ≠ 34 ∧ c ≠ 92

theorem copyStores_plain (hplain : ∀ c ∈ s, CopiedPlain c) (hlimit : i + s.length ≤ limit)
    (mem : Bytes) :
    copyStores limit i (s ++ mem) =
      (s.zipIdx i).map Prod.swap ++ copyStores limit (i + s.length) mem := by
  induction s generalizing i with
  | nil => rfl
  | cons c s ih =>
      obtain ⟨⟨hzero, hquote, hslash⟩, hrest⟩ := List.forall_mem_cons.mp hplain
      rw [List.length_cons] at hlimit
      rw [List.cons_append, copyStores_cons hzero hquote hslash (by omega), ih hrest (by omega),
        List.zipIdx_cons, List.map_cons, List.cons_append, List.length_cons, Nat.add_right_comm i 1,
        Nat.add_assoc i]
      rfl

theorem applyStores_append (old : ℕ → UInt8) (stores stores' : List (ℕ × UInt8)) :
    applyStores old (stores ++ stores') = applyStores (applyStores old stores) stores' :=
  List.foldl_append

theorem applyStores_zipIdx (i : ℕ) (s : Bytes) (old : ℕ → UInt8) (k : ℕ) :
    applyStores old ((s.zipIdx i).map Prod.swap) (i + k) = s.getD k (old (i + k)) := by
  induction s generalizing i old k with
  | nil => rfl
  | cons c s ih =>
      rw [List.zipIdx_cons, List.map_cons, applyStores_cons]
      cases k with
      | zero =>
          have hlater : ∀ store ∈ (s.zipIdx (i + 1)).map Prod.swap, store.1 ≠ i := by
            intro store hstore
            obtain ⟨⟨b, m⟩, hmem, rfl⟩ := List.mem_map.mp hstore
            have hle := List.le_snd_of_mem_zipIdx hmem
            exact Nat.ne_of_gt hle
          change applyStores (Function.update old i c) _ i = c
          rw [applyStores_of_ne hlater, Function.update_self]
      | succ k =>
          have hnext := ih (i + 1) (Function.update old i c) k
          rw [Nat.add_right_comm i 1 k, Function.update_of_ne (by omega)] at hnext
          exact hnext

/-- What is copied in front of a later store. -/
theorem applyStores_front {stores : List (ℕ × UInt8)}
    (hlater : ∀ store ∈ stores, s.length ≤ store.1) (old : ℕ → UInt8) (hk : k < s.length) :
    applyStores old ((s.zipIdx 0).map Prod.swap ++ stores) k = s[k] := by
  have hne : ∀ store ∈ stores, store.1 ≠ k := by
    intro store hstore
    have hle := hlater store hstore
    omega
  have hfront := applyStores_zipIdx 0 s old k
  rw [Nat.zero_add, List.getD_eq_getElem?_getD, List.getElem?_eq_getElem hk, Option.getD_some]
    at hfront
  rw [applyStores_append, applyStores_of_ne hne, hfront]

theorem ReadsAs.unique {mem : ℕ → UInt8} {s' : Bytes} (h : ReadsAs mem s) (h' : ReadsAs mem s') :
    s = s' := by
  have hle : ∀ {s s' : Bytes}, ReadsAs mem s → ReadsAs mem s' → s.length ≤ s'.length := by
    intro s s' h h'
    by_contra hlt
    have hbyte := h.bytes s'.length (not_le.mp hlt)
    rw [h'.terminated] at hbyte
    exact h.no_zero (hbyte ▸ List.getElem_mem _)
  refine List.ext_getElem ((hle h h').antisymm (hle h' h)) fun k hk hk' ↦ ?_
  rw [← h.bytes k hk, ← h'.bytes k hk']

theorem unescapeText_plain (hplain : ∀ c ∈ s, CopiedPlain c) (t : Bytes) :
    unescapeText (s ++ t) = s ++ unescapeText t := by
  induction s with
  | nil => rfl
  | cons c s ih =>
      obtain ⟨⟨-, hquote, hslash⟩, hrest⟩ := List.forall_mem_cons.mp hplain
      have hcons : ∀ u, unescapeText (c :: u) = c :: unescapeText u := fun u ↦ by
        cases u <;> simp [unescapeText, hquote, hslash]
      rw [List.cons_append, hcons, ih hrest, List.cons_append]

/-- A plain text in front of the place where the loop stops. -/
theorem readsAs_copyStores {limit : ℕ} (hplain : ∀ c ∈ s, CopiedPlain c) (hlimit : s.length ≤ limit)
    (hstop : copyStores limit s.length mem = [(s.length, 0)]) :
    (∀ store ∈ copyStores limit 0 (s ++ mem), store.1 ≤ s.length) ∧
      ∀ old, ReadsAs (applyStores old (copyStores limit 0 (s ++ mem))) s := by
  have hstores := copyStores_plain hplain (by omega : 0 + s.length ≤ limit) mem
  rw [Nat.zero_add, hstop] at hstores
  rw [hstores]
  refine ⟨fun store hstore ↦ ?_, fun old ↦ ⟨fun k hk ↦ ?_, ?_, fun h ↦ (hplain 0 h).1 rfl⟩⟩
  · rcases List.mem_append.mp hstore with hstore | hstore
    · obtain ⟨⟨b, m⟩, hmem, rfl⟩ := List.mem_map.mp hstore
      have hlt := List.snd_lt_of_mem_zipIdx hmem
      exact hlt.le
    · rw [List.mem_singleton.mp hstore]
  · refine applyStores_front (fun store hstore ↦ ?_) old hk
    rw [List.mem_singleton.mp hstore]
  · rw [applyStores_append]
    exact Function.update_self _ _ _

/-- Behind a backslash the byte in its place is the old one. -/
theorem applyStores_slash (hplain : ∀ c ∈ s, CopiedPlain c) (hlimit : s.length < limit)
    (hmem : mem ≠ []) (old : ℕ → UInt8) :
    (∀ k (hk : k < s.length), applyStores old (copyStores limit 0 (s ++ 92 :: mem)) k = s[k]) ∧
      applyStores old (copyStores limit 0 (s ++ 92 :: mem)) s.length = old s.length := by
  obtain ⟨d, mem, rfl⟩ := List.exists_cons_of_ne_nil hmem
  have hstores := copyStores_plain hplain (by omega : 0 + s.length ≤ limit) (92 :: d :: mem)
  rw [Nat.zero_add, copyStores_slash hlimit] at hstores
  have hlater : ∀ store ∈ (s.length + 1, d) :: copyStores limit (s.length + 2) mem,
      s.length < store.1 := by
    refine List.forall_mem_cons.mpr ⟨Nat.lt_succ_self _, fun store hstore ↦ ?_⟩
    have hle := le_of_mem_copyStores limit (s.length + 2) mem store hstore
    omega
  rw [hstores]
  refine ⟨fun k hk ↦ applyStores_front (fun store hstore ↦ (hlater store hstore).le) old hk, ?_⟩
  have hback := applyStores_zipIdx 0 s old s.length
  rw [Nat.zero_add, List.getD_eq_getElem?_getD, List.getElem?_eq_none le_rfl, Option.getD_none]
    at hback
  rw [applyStores_append, applyStores_of_ne fun store hstore ↦ (hlater store hstore).ne', hback]

end Loop

/-! ## Which answers are copied whole -/

theorem findMessageText_suffix {data start : Bytes} (h : findMessageText data = some start) :
    start <:+ data := by
  unfold findMessageText at h
  obtain ⟨result, hresult, h⟩ := Option.bind_eq_some_iff.mp h
  obtain ⟨array, harray, h⟩ := Option.bind_eq_some_iff.mp h
  obtain ⟨msg, hmsg, h⟩ := Option.bind_eq_some_iff.mp h
  obtain ⟨text, htext, rfl⟩ := Option.map_eq_some_iff.mp h
  obtain ⟨-, -, hsuffix⟩ := CString.strchr_eq_some harray
  exact (List.drop_suffix 8 text).trans ((CString.strstr_eq_some htext).2.trans
    ((CString.strstr_eq_some hmsg).2.trans (hsuffix.trans (CString.strstr_eq_some hresult).2)))

/-- The text up to its first quote, escaped or not. -/
def rawText (start : Bytes) : Bytes := start.takeWhile fun c ↦ c != 34

section Answer

variable {start own : Bytes} {textSize : ℕ}

theorem plain_of_rawText (hzero : (0 : UInt8) ∉ start) {s : Bytes} (hs : s <+: rawText start)
    (hslash : (92 : UInt8) ∉ s) : ∀ c ∈ s, CopiedPlain c := by
  intro c hc
  have hraw := hs.mem hc
  refine ⟨fun h ↦ ?_, fun h ↦ ?_, fun h ↦ hslash (h ▸ hc)⟩
  · exact hzero (h ▸ (List.takeWhile_prefix _).mem hraw)
  · have hquote := List.mem_takeWhile_imp hraw
    rw [h] at hquote
    exact absurd hquote (by decide)

/-- The loop stops behind the part of the text that fits. -/
theorem copyStores_rest (start : Bytes) (textSize : ℕ) (behind : Bytes) :
    ∃ rest, start = (rawText start).take (textSize - 1) ++ rest ∧
      copyStores (textSize - 1) ((rawText start).take (textSize - 1)).length
          (rest ++ 0 :: behind) = [(((rawText start).take (textSize - 1)).length, 0)] ∧
      (unescapeText rest = [] ∨ ((rawText start).take (textSize - 1)).length = textSize - 1) := by
  have hsplit : start = rawText start ++ start.dropWhile fun c ↦ c != 34 :=
    List.takeWhile_append_dropWhile.symm
  by_cases hfits : (rawText start).length ≤ textSize - 1
  · rw [List.take_of_length_le hfits]
    refine ⟨_, hsplit, ?_⟩
    cases hrest : start.dropWhile fun c ↦ c != 34 with
    | nil => exact ⟨copyStores_stop (.inl rfl) behind, .inl rfl⟩
    | cons c rest =>
        have hquote : c = 34 := by
          have hnot := List.head?_dropWhile_not (fun c : UInt8 ↦ c != 34) start
          rw [hrest] at hnot
          simpa using hnot
        subst hquote
        refine ⟨copyStores_stop (.inr (.inl rfl)) _, .inl ?_⟩
        cases rest <;> simp [unescapeText]
  · have hlen : ((rawText start).take (textSize - 1)).length = textSize - 1 := by
      rw [List.length_take]
      omega
    refine ⟨(rawText start).drop (textSize - 1) ++ start.dropWhile fun c ↦ c != 34, ?_, ?_,
      .inr hlen⟩
    · rw [← List.append_assoc, List.take_append_drop]
      exact hsplit
    · rw [hlen]
      obtain ⟨c, mem, hmem⟩ := List.exists_cons_of_ne_nil
        (List.append_ne_nil_of_right_ne_nil
          ((rawText start).drop (textSize - 1) ++ start.dropWhile fun c ↦ c != 34)
          (List.cons_ne_nil 0 behind))
      rw [hmem]
      exact copyStores_stop (.inr (.inr le_rfl)) mem

theorem textFromAnswer_of_plain (hpos : 0 < textSize) (hzero : (0 : UInt8) ∉ start)
    (hslash : (92 : UInt8) ∉ (rawText start).take (textSize - 1)) (behind : Bytes) :
    TextFromAnswer start textSize (copyStores (textLimit textSize) 0 (start ++ 0 :: behind)) := by
  obtain ⟨rest, hsplit, hstop, hend⟩ := copyStores_rest start textSize behind
  have hplain := plain_of_rawText hzero (List.take_prefix _ _) hslash
  have hle : ((rawText start).take (textSize - 1)).length ≤ textSize - 1 := List.length_take_le _ _
  have hlimit : textLimit textSize = textSize - 1 := if_neg (Nat.pos_iff_ne_zero.mp hpos)
  obtain ⟨hinside, hreads⟩ := readsAs_copyStores hplain hle hstop
  rw [← List.append_assoc, ← hsplit] at hinside hreads
  rw [hlimit]
  have htext : (unescapeText start).take (textSize - 1) = (rawText start).take (textSize - 1) := by
    conv => lhs; rw [hsplit]
    rw [unescapeText_plain hplain]
    rcases hend with hend | hend
    · rw [hend, List.append_nil, List.take_of_length_le hle]
    · exact List.take_left' hend
  refine ⟨fun store hstore ↦ ?_, fun old ↦ htext ▸ hreads old, fun old old' s s' hs hs' ↦ ?_⟩
  · have hlast := hinside store hstore
    omega
  · exact (hs.unique (hreads old)).trans ((hreads old').unique hs')

theorem plain_of_textFromAnswer (hzero : (0 : UInt8) ∉ start)
    (h : TextFromAnswer own textSize (copyStores (textLimit textSize) 0 (start ++ [0]))) :
    0 < textSize ∧ (92 : UInt8) ∉ (rawText start).take (textSize - 1) := by
  have hpos : 0 < textSize := by
    obtain ⟨store, hstore⟩ :=
      List.exists_mem_of_ne_nil _ (copyStores_ne_nil (textLimit textSize) 0 (start ++ [0]))
    exact (Nat.zero_le _).trans_lt (h.inside store hstore)
  refine ⟨hpos, fun hslash ↦ ?_⟩
  have hlimit : textLimit textSize = textSize - 1 := if_neg (Nat.pos_iff_ne_zero.mp hpos)
  obtain ⟨s, t, hraw, hfirst⟩ := List.eq_append_cons_of_mem hslash
  have hfront : s ++ 92 :: t <+: rawText start := hraw ▸ List.take_prefix _ _
  have hplain := plain_of_rawText hzero ((List.prefix_append s _).trans hfront) hfirst
  have hlen : s.length < textSize - 1 := by
    have hle := congrArg List.length hraw
    rw [List.length_take, List.length_append, List.length_cons] at hle
    omega
  obtain ⟨rest, hrest⟩ := hfront.trans (List.takeWhile_prefix _)
  have hmem : start ++ [0] = s ++ 92 :: (t ++ rest ++ [0]) := by
    rw [← hrest]
    simp
  rw [hmem, hlimit] at h
  -- two buffers that differ where the backslash stands
  have hne : t ++ rest ++ [0] ≠ [] := List.append_ne_nil_of_right_ne_nil _ (List.cons_ne_nil _ _)
  obtain ⟨hbytes, hone⟩ := applyStores_slash hplain hlen hne fun _ ↦ 1
  obtain ⟨-, htwo⟩ := applyStores_slash hplain hlen hne fun _ ↦ 2
  have hreadsOne := h.text fun _ ↦ 1
  have hreadsTwo := h.text fun _ ↦ 2
  generalize (unescapeText own).take (textSize - 1) = expected at hreadsOne hreadsTwo
  rcases Nat.lt_trichotomy s.length expected.length with hlt | heq | hlt
  · have hbyte := hreadsOne.bytes s.length hlt
    rw [← hreadsTwo.bytes s.length hlt, hone, htwo] at hbyte
    exact absurd hbyte (by decide)
  · have hend := hreadsOne.terminated
    rw [← heq, hone] at hend
    exact absurd hend (by decide)
  · have hend := hreadsOne.terminated
    rw [hbytes _ hlt] at hend
    exact (hplain _ (List.getElem_mem hlt)).1 hend

/-- The text left by an answer depends on the answer only and is the text `own` of
its first message, exactly when the buffer is not empty, no backslash stands in the
part of the text that is found and copied, and this part reads as `own` does. -/
theorem polled_text_from_answer_iff {data : Bytes} (hdata : (0 : UInt8) ∉ data)
    (hfound : findMessageText data = some start) (own : Bytes) :
    (∀ behind stores, telegramFetchStores textSize data behind = some stores →
        TextFromAnswer own textSize stores) ↔
      0 < textSize ∧ (92 : UInt8) ∉ (rawText start).take (textSize - 1) ∧
        (unescapeText start).take (textSize - 1) = (unescapeText own).take (textSize - 1) := by
  have hzero : (0 : UInt8) ∉ start := fun h ↦ hdata ((findMessageText_suffix hfound).mem h)
  have hstores : ∀ behind, telegramFetchStores textSize data behind =
      some (copyStores (textLimit textSize) 0 (start ++ 0 :: behind)) := fun behind ↦ by
    rw [telegramFetchStores, hfound, Option.map_some]
  constructor
  · intro h
    have hown := h [] _ (hstores [])
    obtain ⟨hpos, hslash⟩ := plain_of_textFromAnswer hzero hown
    have hstart := textFromAnswer_of_plain hpos hzero hslash []
    exact ⟨hpos, hslash, (hstart.text fun _ ↦ 0).unique (hown.text fun _ ↦ 0)⟩
  · rintro ⟨hpos, hslash, hsame⟩ behind stores hsome
    rw [hstores] at hsome
    rw [← Option.some.inj hsome]
    obtain ⟨hinside, htext, hdepends⟩ := textFromAnswer_of_plain hpos hzero hslash behind
    rw [hsame] at htext
    exact ⟨hinside, htext, hdepends⟩

end Answer

/-- An answer whose text is `hi`. -/
def answerHi : Bytes := ascii "\x7b\"result\":[\x7b\"message\":\x7b\"text\":\"hi\"\x7d\x7d]\x7d"

/-- An answer whose text is `a"b`. -/
def answerQuote : Bytes :=
  ascii "\x7b\"result\":[\x7b\"message\":\x7b\"text\":\"a\\\"b\"\x7d\x7d]\x7d"

/-- In a reply the text that is replied to is found first. -/
example : findMessageText (ascii ("\x7b\"result\":[\x7b\"message\":\x7b\"reply_to_message\":" ++
    "\x7b\"text\":\"old\"\x7d,\"text\":\"new\"\x7d\x7d]\x7d")) =
      some (ascii "old\"\x7d,\"text\":\"new\"\x7d\x7d]\x7d") := by decide +kernel

theorem polled_text_from_answer_hi :
    let own := ascii "hi\"\x7d\x7d]\x7d"
    (0 : UInt8) ∉ answerHi ∧ findMessageText answerHi = some own ∧
      ((∀ behind stores, telegramFetchStores 4096 answerHi behind = some stores →
          TextFromAnswer own 4096 stores) ↔
        0 < 4096 ∧ (92 : UInt8) ∉ (rawText own).take (4096 - 1) ∧
          (unescapeText own).take (4096 - 1) = (unescapeText own).take (4096 - 1)) :=
  ⟨by decide, by decide, polled_text_from_answer_iff (by decide) (by decide) _⟩

/-- The byte of the last poll in front of the quote stays in the text. -/
theorem polled_text_keeps_old_byte :
    ¬ ∀ behind stores, telegramFetchStores 4096 answerQuote behind = some stores →
      TextFromAnswer (ascii "a\\\"b\"\x7d\x7d]\x7d") 4096 stores := by
  intro h
  have hfetch : telegramFetchStores 4096 answerQuote [] =
      some (copyStores (textLimit 4096) 0 (ascii "a\\\"b\"\x7d\x7d]\x7d" ++ [0])) := by decide
  have hplain := plain_of_textFromAnswer (by decide) (h [] _ hfetch)
  exact hplain.2 (by decide)

end DoctorClaw
