import DoctorClaw.Lib.CString

/-!
# Parsing of requests

`parse_http_request` copies the head of a request without the line end behind
its last line and then splits it at line ends, so that the last line is never
found.  The first line is kept with the header lines.  `get_header` compares
names byte by byte and skips the spaces in front of a value.

The loop over the lines compares a pointer into the copy with one into the
request.  These are different arrays, so the outcome is an argument of the
model; it holds when the copy lies below the request.
-/

namespace DoctorClaw

/-! ## The parser -/

structure HttpRequest where
  method : Bytes
  path : Bytes
  body : Bytes
  headers : List Bytes
  deriving DecidableEq

def maxRequestSize : ℕ := 65536

def crlf : Bytes := [13, 10]

/-- One `%<width>s` of `sscanf`: the word and the rest of the input. -/
def scanWord (width : ℕ) (s : Bytes) : Bytes × Bytes :=
  let s := s.dropWhile CString.isspace
  let word := (s.takeWhile fun c ↦ !CString.isspace c).take width
  (word, s.drop word.length)

def splitHeaderLines : ℕ → Bytes → List Bytes → List Bytes
  | 0, _, headers => headers
  | fuel + 1, headerLine, headers =>
      match CString.strstr crlf headerLine with
      | none => headers
      | some nextLine =>
          let line := headerLine.take (headerLine.length - nextLine.length)
          splitHeaderLines fuel (nextLine.drop 2)
            (if line.length < 512 ∧ headers.length < 32 then headers ++ [line] else headers)

/-- `raw` are the bytes received, and `inOrder` says that the copy of the head
lies below them. -/
def parseHttpRequest (inOrder : Bool) (raw : Bytes) : HttpRequest :=
  match CString.strstr (crlf ++ crlf) (CString.ofBuffer raw) with
  | none => ⟨[], [], [], []⟩
  | some bodyStart =>
      let headerLen := (CString.ofBuffer raw).length - bodyStart.length
      let headerPart := raw.take (if headerLen < 4095 then headerLen else 4095)
      let method := scanWord 15 headerPart
      let path := scanWord 255 method.2
      let scanned := method.1 ≠ [] ∧ path.1 ≠ []
      { method := if scanned then method.1 else []
        path := if scanned then path.1 else []
        body := if headerLen < raw.length - 4 then
            (raw.drop (headerLen + 4)).take (maxRequestSize - 1)
          else []
        headers := if inOrder then splitHeaderLines (headerPart.length + 1) headerPart [] else [] }

def getHeader (req : HttpRequest) (name : Bytes) : Option Bytes :=
  (req.headers.find? fun h ↦ (name ++ [58]).isPrefixOf h).map fun h ↦
    (h.drop (name.length + 1)).dropWhile fun c ↦ c = 32

/-! ## Well-formed requests -/

def isTokenByte (c : UInt8) : Bool :=
  (48 ≤ c && c ≤ 57) || (65 ≤ c && c ≤ 90) || (97 ≤ c && c ≤ 122) ||
    (ascii "!#$%&'*+-.^_`|~").contains c

def isToken (s : Bytes) : Bool := s ≠ [] && s.all isTokenByte

def isVisible (c : UInt8) : Bool := 33 ≤ c && c ≤ 126

def isFieldBlank (c : UInt8) : Bool := c == 32 || c == 9

def isFieldByte (c : UInt8) : Bool := isFieldBlank c || isVisible c || 128 ≤ c

/-- A header line: a name, a colon and a value with blanks on both sides. -/
structure FieldLine where
  name : Bytes
  lead : Bytes
  value : Bytes
  trail : Bytes
  name_token : isToken name = true
  lead_blank : lead.all isFieldBlank = true
  value_bytes : value.all isFieldByte = true
  value_first : value.head?.all (fun c ↦ !isFieldBlank c) = true
  value_last : value.getLast?.all (fun c ↦ !isFieldBlank c) = true
  trail_blank : trail.all isFieldBlank = true

def FieldLine.text (l : FieldLine) : Bytes := l.name ++ 58 :: (l.lead ++ l.value ++ l.trail)

structure RequestParts where
  method : Bytes
  target : Bytes
  lines : List FieldLine
  body : Bytes

def RequestParts.requestLine (p : RequestParts) : Bytes :=
  p.method ++ 32 :: p.target ++ ascii " HTTP/1.1"

def RequestParts.head (p : RequestParts) : Bytes :=
  p.requestLine ++ p.lines.flatMap fun l ↦ crlf ++ l.text

def RequestParts.render (p : RequestParts) : Bytes := p.head ++ (crlf ++ crlf) ++ p.body

/-- A well-formed request within the limits of the parser. -/
structure WellFormedRequest extends RequestParts where
  method_token : isToken method = true
  method_le : method.length ≤ 15
  target_visible : target ≠ [] ∧ target.all isVisible = true
  target_le : target.length ≤ 255
  lines_le : lines.length ≤ 31
  line_lt : ∀ l ∈ lines, l.text.length < 512
  head_lt : toRequestParts.head.length < 4095
  body_le : body.length ≤ 65535
  body_bytes : (0 : UInt8) ∉ body

/-- The value of the first line with a name. -/
def RequestParts.header (p : RequestParts) (name : Bytes) : Option Bytes :=
  (p.lines.find? fun l ↦ l.name = name).map FieldLine.value

/-! ## Bytes of a request -/

theorem isTokenByte_spec : ∀ c, isTokenByte c = true →
    c ≠ 0 ∧ c ≠ 13 ∧ c ≠ 58 ∧ c ≠ 32 ∧ CString.isspace c = false :=
  CString.forall_byte (by decide +kernel)

theorem isVisible_spec : ∀ c, isVisible c = true →
    c ≠ 0 ∧ c ≠ 13 ∧ CString.isspace c = false :=
  CString.forall_byte (by decide +kernel)

theorem isFieldByte_spec : ∀ c, isFieldByte c = true → c ≠ 0 ∧ c ≠ 13 :=
  CString.forall_byte (by decide +kernel)

theorem isFieldBlank_spec : ∀ c, isFieldBlank c = true → isFieldByte c = true :=
  CString.forall_byte (by decide +kernel)

theorem isToken_mem {s : Bytes} (h : isToken s = true) {c : UInt8} (hc : c ∈ s) :
    isTokenByte c = true := by
  simp only [isToken, Bool.and_eq_true] at h
  exact List.all_eq_true.mp h.2 c hc

theorem FieldLine.mem_text {l : FieldLine} {c : UInt8} (hc : c ∈ l.text) : c ≠ 0 ∧ c ≠ 13 := by
  have hlead := List.all_eq_true.mp l.lead_blank
  have hvalue := List.all_eq_true.mp l.value_bytes
  have htrail := List.all_eq_true.mp l.trail_blank
  simp only [FieldLine.text, List.mem_append, List.mem_cons] at hc
  rcases hc with hname | rfl | (hc | hc) | hc
  · have hspec := isTokenByte_spec c (isToken_mem l.name_token hname)
    exact ⟨hspec.1, hspec.2.1⟩
  · decide
  · exact isFieldByte_spec c (isFieldBlank_spec c (hlead c hc))
  · exact isFieldByte_spec c (hvalue c hc)
  · exact isFieldByte_spec c (isFieldBlank_spec c (htrail c hc))

theorem FieldLine.text_ne_nil (l : FieldLine) : l.text ≠ [] := by simp [FieldLine.text]

variable {req : WellFormedRequest}

theorem WellFormedRequest.mem_requestLine {c : UInt8} (hc : c ∈ req.requestLine) :
    c ≠ 0 ∧ c ≠ 13 := by
  simp only [RequestParts.requestLine, List.mem_append, List.mem_cons] at hc
  rcases hc with (hmethod | rfl | htarget) | hversion
  · have hspec := isTokenByte_spec c (isToken_mem req.method_token hmethod)
    exact ⟨hspec.1, hspec.2.1⟩
  · decide
  · have hspec := isVisible_spec c (List.all_eq_true.mp req.target_visible.2 c htarget)
    exact ⟨hspec.1, hspec.2.1⟩
  · have hall : (ascii " HTTP/1.1").all (fun c ↦ c != 0 && c != 13) = true := by decide
    simpa using List.all_eq_true.mp hall c hversion

theorem WellFormedRequest.zero_notMem_render : (0 : UInt8) ∉ req.render := by
  simp only [RequestParts.render, RequestParts.head, List.mem_append, List.mem_flatMap]
  rintro (((hline | ⟨l, hl, hcrlf | htext⟩) | (hcrlf | hcrlf)) | hbody)
  · exact (mem_requestLine hline).1 rfl
  · exact absurd hcrlf (by decide)
  · exact (FieldLine.mem_text htext).1 rfl
  · exact absurd hcrlf (by decide)
  · exact absurd hcrlf (by decide)
  · exact req.body_bytes hbody

/-! ## The head -/

/-- The first empty line is the one behind the head. -/
theorem strstr_head {first : Bytes} {lines : List FieldLine} (hfirst : (13 : UInt8) ∉ first)
    (rest : Bytes) :
    CString.strstr (crlf ++ crlf)
        (first ++ (lines.flatMap fun l ↦ crlf ++ l.text) ++ (crlf ++ crlf ++ rest)) =
      some (crlf ++ crlf ++ rest) := by
  induction lines generalizing first with
  | nil =>
      rw [List.flatMap_nil, List.append_nil, CString.strstr_append_of_notMem rfl hfirst]
      exact CString.strstr_of_isPrefix (List.prefix_append _ _)
  | cons l lines ih =>
      have htext : (13 : UInt8) ∉ l.text := fun h ↦ (FieldLine.mem_text h).2 rfl
      have hline : (13 : UInt8) ∉ 10 :: l.text := by simpa using htext
      obtain ⟨c, more, hmore⟩ := List.exists_cons_of_ne_nil l.text_ne_nil
      have hc : c ≠ 13 := by
        rintro rfl
        exact htext (by simp [hmore])
      have hnot : ¬ crlf ++ crlf <+: 13 :: (10 :: l.text ++
          ((lines.flatMap fun l ↦ crlf ++ l.text) ++ (crlf ++ crlf ++ rest))) := by
        rw [hmore]
        intro hpre
        simp only [crlf, List.cons_append, List.nil_append, List.cons_prefix_cons] at hpre
        exact hc hpre.2.2.1.symm
      have hsplit : first ++ ((l :: lines).flatMap fun l ↦ crlf ++ l.text) ++ (crlf ++ crlf ++ rest) =
          first ++ 13 :: (10 :: l.text ++
            ((lines.flatMap fun l ↦ crlf ++ l.text) ++ (crlf ++ crlf ++ rest))) := by
        simp [crlf]
      rw [hsplit, CString.strstr_append_of_notMem rfl hfirst, CString.strstr_cons_of_not hnot,
        ← List.append_assoc]
      exact ih hline

/-- All lines but the last are found. -/
theorem splitHeaderLines_eq {first : Bytes} {texts : List Bytes}
    (hlines : ∀ t ∈ first :: texts, (13 : UInt8) ∉ t ∧ t.length < 512) {fuel : ℕ}
    (hfuel : texts.length < fuel) {headers : List Bytes}
    (hroom : headers.length + texts.length ≤ 32) :
    splitHeaderLines fuel (first ++ texts.flatMap fun t ↦ crlf ++ t) headers =
      headers ++ (first :: texts).dropLast := by
  induction texts generalizing first fuel headers with
  | nil =>
      obtain ⟨fuel, rfl⟩ : ∃ k, fuel = k + 1 := ⟨fuel - 1, by omega⟩
      have hnone : CString.strstr crlf first = none := by
        rw [← List.append_nil first,
          CString.strstr_append_of_notMem rfl (hlines first List.mem_cons_self).1]
        rfl
      rw [List.flatMap_nil, List.append_nil, splitHeaderLines, hnone]
      simp
  | cons t texts ih =>
      obtain ⟨fuel, rfl⟩ : ∃ k, fuel = k + 1 := ⟨fuel - 1, by omega⟩
      obtain ⟨hcr, hlen⟩ := hlines first List.mem_cons_self
      have hsplit : (first ++ (t :: texts).flatMap fun t ↦ crlf ++ t) =
          first ++ (crlf ++ (t ++ texts.flatMap fun t ↦ crlf ++ t)) := by simp
      have hfound : CString.strstr crlf (first ++ (crlf ++ (t ++ texts.flatMap fun t ↦ crlf ++ t))) =
          some (crlf ++ (t ++ texts.flatMap fun t ↦ crlf ++ t)) := by
        rw [CString.strstr_append_of_notMem rfl hcr]
        exact CString.strstr_of_isPrefix (List.prefix_append _ _)
      have hnext : (crlf ++ (t ++ texts.flatMap fun t ↦ crlf ++ t)).drop 2 =
          t ++ texts.flatMap fun t ↦ crlf ++ t := rfl
      rw [List.length_cons] at hfuel hroom
      have hroom' : (headers ++ [first]).length + texts.length ≤ 32 := by
        rw [List.length_append, List.length_singleton]
        omega
      rw [hsplit, splitHeaderLines, hfound]
      simp only [List.length_append, Nat.add_sub_cancel_right, List.take_left, hnext]
      rw [if_pos ⟨hlen, by omega⟩, ih (fun u hu ↦ hlines u (List.mem_cons_of_mem _ hu))
        (Nat.lt_of_succ_lt_succ hfuel) hroom']
      simp

theorem scanWord_eq {word rest : Bytes} {width : ℕ} (hne : word ≠ [])
    (hword : ∀ c ∈ word, CString.isspace c = false) (hwidth : word.length ≤ width)
    {blanks : Bytes} (hblanks : ∀ c ∈ blanks, CString.isspace c = true) :
    scanWord width (blanks ++ word ++ 32 :: rest) = (word, 32 :: rest) := by
  have hdrop : (blanks ++ word ++ 32 :: rest).dropWhile CString.isspace = word ++ 32 :: rest := by
    obtain ⟨c, more, rfl⟩ := List.exists_cons_of_ne_nil hne
    rw [List.append_assoc, List.dropWhile_append_of_pos hblanks, List.cons_append,
      List.dropWhile_cons_of_neg (by simp [hword c])]
  have htake : (word ++ 32 :: rest).takeWhile (fun c ↦ !CString.isspace c) = word := by
    rw [List.takeWhile_append_of_pos, List.takeWhile_cons_of_neg (by decide), List.append_nil]
    intro c hc
    simp [hword c hc]
  simp only [scanWord, hdrop, htake, List.take_of_length_le hwidth, List.drop_left]

theorem WellFormedRequest.length_requestLine (req : WellFormedRequest) :
    req.requestLine.length < 512 := by
  have hversion : (ascii " HTTP/1.1").length = 9 := rfl
  have hmethod := req.method_le
  have htarget := req.target_le
  simp only [RequestParts.requestLine, List.length_append, List.length_cons, hversion]
  omega

theorem WellFormedRequest.scan_method (req : WellFormedRequest) :
    ∃ rest, scanWord 15 req.head = (req.method, rest) ∧ (scanWord 255 rest).1 = req.target := by
  have hmethod : req.method ≠ [] := by
    intro h
    simpa [isToken, h] using req.method_token
  have hmethod_bytes : ∀ c ∈ req.method, CString.isspace c = false := fun c hc ↦
    (isTokenByte_spec c (isToken_mem req.method_token hc)).2.2.2.2
  have htarget_bytes : ∀ c ∈ req.target, CString.isspace c = false := fun c hc ↦
    (isVisible_spec c (List.all_eq_true.mp req.target_visible.2 c hc)).2.2
  have hnone : ∀ c ∈ ([] : Bytes), CString.isspace c = true := List.forall_mem_nil _
  have hspace : ∀ c ∈ [(32 : UInt8)], CString.isspace c = true := by
    intro c hc
    rw [List.mem_singleton.mp hc]
    rfl
  have hversion : ascii " HTTP/1.1" = 32 :: ascii "HTTP/1.1" := rfl
  obtain ⟨rest, hhead⟩ : ∃ rest, req.head =
      [] ++ req.method ++ 32 :: (req.target ++ 32 :: rest) := by
    refine ⟨ascii "HTTP/1.1" ++ req.lines.flatMap fun l ↦ crlf ++ l.text, ?_⟩
    simp [RequestParts.head, RequestParts.requestLine, hversion]
  have hpath : scanWord 255 ([32] ++ req.target ++ 32 :: rest) = (req.target, 32 :: rest) :=
    scanWord_eq req.target_visible.1 htarget_bytes req.target_le hspace
  refine ⟨32 :: (req.target ++ 32 :: rest), ?_, congrArg Prod.fst hpath⟩
  rw [hhead]
  exact scanWord_eq hmethod hmethod_bytes req.method_le hnone

theorem WellFormedRequest.splitHeaderLines_head (req : WellFormedRequest) :
    splitHeaderLines (req.head.length + 1) req.head [] =
      (req.requestLine :: req.lines.map FieldLine.text).dropLast := by
  have hhead : req.head =
      req.requestLine ++ (req.lines.map FieldLine.text).flatMap fun t ↦ crlf ++ t := by
    rw [RequestParts.head, List.flatMap_map]
  have hlines : ∀ t ∈ req.requestLine :: req.lines.map FieldLine.text,
      (13 : UInt8) ∉ t ∧ t.length < 512 := by
    intro t ht
    rcases List.mem_cons.mp ht with rfl | ht
    · exact ⟨fun h ↦ (req.mem_requestLine h).2 rfl, req.length_requestLine⟩
    · obtain ⟨l, hl, rfl⟩ := List.mem_map.mp ht
      exact ⟨fun h ↦ (FieldLine.mem_text h).2 rfl, req.line_lt l hl⟩
  have hfuel : (req.lines.map FieldLine.text).length < req.head.length + 1 := by
    have hle : ∀ texts : List Bytes, texts.length ≤ (texts.flatMap fun t ↦ crlf ++ t).length := by
      intro texts
      induction texts with
      | nil => exact Nat.zero_le _
      | cons t texts ih =>
          simp only [List.flatMap_cons, List.length_append, List.length_cons, crlf] at ih ⊢
          omega
    rw [hhead, List.length_append]
    have := hle (req.lines.map FieldLine.text)
    omega
  have hroom : ([] : List Bytes).length + (req.lines.map FieldLine.text).length ≤ 32 := by
    have := req.lines_le
    simp only [List.length_nil, List.length_map]
    omega
  have hsplit := splitHeaderLines_eq hlines hfuel hroom
  rwa [← hhead, List.nil_append] at hsplit

/-- What the parser makes of a well-formed request. -/
theorem parseHttpRequest_render (inOrder : Bool) (req : WellFormedRequest) :
    parseHttpRequest inOrder req.render =
      { method := req.method
        path := req.target
        body := req.body
        headers := if inOrder then
            (req.requestLine :: req.lines.map FieldLine.text).dropLast
          else [] } := by
  have hbuffer : CString.ofBuffer req.render = req.render := by
    have happend := CString.ofBuffer_append req.zero_notMem_render []
    simpa [CString.ofBuffer] using happend
  have hfirst : (13 : UInt8) ∉ req.requestLine := fun h ↦ (req.mem_requestLine h).2 rfl
  have hfound : CString.strstr (crlf ++ crlf) req.render = some (crlf ++ crlf ++ req.body) := by
    rw [RequestParts.render, List.append_assoc]
    exact strstr_head hfirst req.body
  have hlen : req.render.length = req.head.length + 4 + req.body.length := by
    simp [RequestParts.render, crlf]
    omega
  have hheader : req.render.length - (crlf ++ crlf ++ req.body).length = req.head.length := by
    rw [hlen]
    simp [crlf]
    omega
  have hpart : req.render.take req.head.length = req.head := by
    rw [RequestParts.render, List.append_assoc, List.take_left]
  have hbody : req.render.drop (req.head.length + 4) = req.body := by
    rw [RequestParts.render, ← List.drop_drop, List.append_assoc, List.drop_left]
    rfl
  obtain ⟨rest, hmethod, htarget⟩ := req.scan_method
  have hnonempty : req.method ≠ [] ∧ req.target ≠ [] := by
    refine ⟨fun h ↦ ?_, req.target_visible.1⟩
    simpa [isToken, h] using req.method_token
  have hcopied : (if req.head.length < req.render.length - 4 then
      req.body.take (maxRequestSize - 1) else []) = req.body := by
    split_ifs with hmore
    · exact List.take_of_length_le req.body_le
    · rw [hlen] at hmore
      exact (List.length_eq_zero_iff.mp (by omega)).symm
  unfold parseHttpRequest
  simp only [hbuffer, hfound, hheader, if_pos req.head_lt, hpart, hmethod, htarget, hbody, hcopied,
    req.splitHeaderLines_head, hnonempty, ne_eq, not_false_eq_true, and_self, if_true]

/-! ## Header lines -/

theorem takeWhile_of_isPrefix {name s : Bytes} (hname : (58 : UInt8) ∉ name)
    (h : name ++ [58] <+: s) : (s.takeWhile fun c ↦ decide (c ≠ 58)) = name := by
  obtain ⟨rest, rfl⟩ := h
  rw [List.append_assoc, List.singleton_append, CString.takeWhile_ne_append hname]

theorem colon_notMem {name : Bytes} (h : isToken name = true) : (58 : UInt8) ∉ name := fun hc ↦
  (isTokenByte_spec 58 (isToken_mem h hc)).2.2.1 rfl

theorem FieldLine.isPrefixOf_text (l : FieldLine) {name : Bytes} (hname : isToken name = true) :
    (name ++ [58]).isPrefixOf l.text = decide (l.name = name) := by
  rw [Bool.eq_iff_iff, List.isPrefixOf_iff_prefix, decide_eq_true_iff]
  constructor
  · intro h
    have hfirst := takeWhile_of_isPrefix (colon_notMem hname) h
    rwa [takeWhile_of_isPrefix (colon_notMem l.name_token)] at hfirst
    exact ⟨l.lead ++ l.value ++ l.trail, by simp [FieldLine.text]⟩
  · rintro rfl
    exact ⟨l.lead ++ l.value ++ l.trail, by simp [FieldLine.text]⟩

/-- The request line is no header line: a blank comes before any colon. -/
theorem WellFormedRequest.isPrefixOf_requestLine (req : WellFormedRequest) {name : Bytes}
    (hname : isToken name = true) : (name ++ [58]).isPrefixOf req.requestLine = false := by
  rw [Bool.eq_false_iff]
  intro h
  have hfirst := takeWhile_of_isPrefix (colon_notMem hname) (List.isPrefixOf_iff_prefix.mp h)
  have hmethod : ∀ c ∈ req.method, decide (c ≠ 58) = true := by
    intro c hc
    simpa using fun hcolon : c = 58 ↦ colon_notMem req.method_token (hcolon ▸ hc)
  rw [RequestParts.requestLine, List.append_assoc, List.takeWhile_append_of_pos hmethod,
    List.cons_append, List.takeWhile_cons_of_pos (by decide)] at hfirst
  have hblank : (32 : UInt8) ∈ name := by
    rw [← hfirst]
    simp
  exact (isTokenByte_spec 32 (isToken_mem hname hblank)).2.2.2.1 rfl

theorem WellFormedRequest.find?_headers (req : WellFormedRequest) {name : Bytes}
    (hname : isToken name = true) :
    (req.requestLine :: req.lines.map FieldLine.text).dropLast.find?
        (fun h ↦ (name ++ [58]).isPrefixOf h) =
      (req.lines.dropLast.find? fun l ↦ l.name = name).map FieldLine.text := by
  cases hlines : req.lines with
  | nil => rfl
  | cons l lines =>
      rw [List.map_cons, List.dropLast_cons_cons, List.find?_cons_of_neg
        (by simp [req.isPrefixOf_requestLine hname]), ← List.map_cons, ← List.map_dropLast,
        List.find?_map]
      congr 2
      exact funext fun l ↦ l.isPrefixOf_text hname

/-- Only spaces in front of the value and nothing behind it. -/
def FieldLine.Tight (l : FieldLine) : Prop :=
  l.lead.all (fun c ↦ c = 32) = true ∧
    if l.value = [] then l.trail.all (fun c ↦ c = 32) = true else l.trail = []

theorem dropWhile_eq_iff {lead value : Bytes} (hlead : lead.all isFieldBlank = true)
    (hvalue : value.head?.all (fun c ↦ !isFieldBlank c) = true) (trail : Bytes) :
    (lead ++ value ++ trail).dropWhile (fun c ↦ c = 32) = value ↔
      lead.all (fun c ↦ c = 32) = true ∧
        if value = [] then trail.all (fun c ↦ c = 32) = true else trail = [] := by
  induction lead with
  | nil =>
      cases value with
      | nil => simp [List.dropWhile_eq_nil_iff]
      | cons c value =>
          have hc : c ≠ 32 := by
            rintro rfl
            simp [isFieldBlank] at hvalue
          simp [hc]
  | cons b lead ih =>
      rw [List.all_cons, Bool.and_eq_true] at hlead
      by_cases hb : b = 32
      · simpa [hb] using ih hlead.2
      · have hne : b :: (lead ++ (value ++ trail)) ≠ value := by
          intro heq
          rw [← heq] at hvalue
          simp [hlead.1] at hvalue
        simp [hb, hne]

/-! ## What is recovered -/

/-- The first line with the name is not the last header line of the request
and has no blanks but spaces in front of its value. -/
def WellFormedRequest.Found (req : WellFormedRequest) (inOrder : Bool) (name : Bytes) : Prop :=
  ∀ l, (req.lines.find? fun l ↦ l.name = name) = some l →
    inOrder = true ∧ name ∈ req.lines.dropLast.map FieldLine.name ∧ l.Tight

theorem find?_dropLast {lines : List FieldLine} {name : Bytes}
    (h : name ∈ lines.dropLast.map FieldLine.name) :
    (lines.dropLast.find? fun l ↦ l.name = name) = lines.find? fun l ↦ l.name = name := by
  obtain ⟨l, hl, hname⟩ := List.mem_map.mp h
  have hsome : (lines.dropLast.find? fun l ↦ decide (l.name = name)).isSome = true :=
    List.find?_isSome.mpr ⟨l, hl, decide_eq_true hname⟩
  obtain ⟨l', hl'⟩ := Option.isSome_iff_exists.mp hsome
  rw [hl', ((List.dropLast_prefix lines).find?_eq_some hl')]

theorem getHeader_render (inOrder : Bool) (req : WellFormedRequest) {name : Bytes}
    (hname : isToken name = true) :
    getHeader (parseHttpRequest inOrder req.render) name =
      if inOrder then
        (req.lines.dropLast.find? fun l ↦ l.name = name).map fun l ↦
          (l.lead ++ l.value ++ l.trail).dropWhile fun c ↦ c = 32
      else none := by
  rw [parseHttpRequest_render, getHeader]
  cases inOrder with
  | false => rfl
  | true =>
      simp only [if_true, req.find?_headers hname, Option.map_map]
      refine Option.map_congr fun l hl ↦ ?_
      have hl : l.name = name := by simpa using List.find?_some hl
      simp [FieldLine.text, ← hl]

/-- Method, path and body of a well-formed request are always recovered, and
the value of a header exactly when its line is found. -/
theorem http_request_recovered_iff (inOrder : Bool) (req : WellFormedRequest) (name : Bytes)
    (hname : isToken name = true) :
    let parsed := parseHttpRequest inOrder req.render
    (parsed.method = req.method ∧ parsed.path = req.target ∧ parsed.body = req.body ∧
      getHeader parsed name = req.header name) ↔ req.Found inOrder name := by
  intro parsed
  have hparsed : parsed = _ := parseHttpRequest_render inOrder req
  have hvalue : getHeader parsed name = _ := getHeader_render inOrder req hname
  have hparts : parsed.method = req.method ∧ parsed.path = req.target ∧
      parsed.body = req.body := by
    rw [hparsed]
    exact ⟨rfl, rfl, rfl⟩
  rw [← and_assoc, ← and_assoc, and_iff_right (and_assoc.mpr hparts), hvalue]
  unfold WellFormedRequest.Found RequestParts.header
  by_cases hkept : name ∈ req.lines.dropLast.map FieldLine.name
  · rw [find?_dropLast hkept]
    cases hfirst : req.lines.find? fun l ↦ decide (l.name = name) with
    | none => cases inOrder <;> simp
    | some l =>
        have htight := dropWhile_eq_iff l.lead_blank l.value_first l.trail
        cases inOrder with
        | false => simp
        | true =>
            simp only [if_true, Option.map_some, Option.some.injEq, forall_eq', hkept, true_and]
            exact htight
  · have hnone : (req.lines.dropLast.find? fun l ↦ decide (l.name = name)) = none := by
      rw [List.find?_eq_none]
      intro l hl hlname
      exact hkept (List.mem_map.mpr ⟨l, hl, by simpa using hlname⟩)
    rw [hnone]
    cases hfirst : req.lines.find? fun l ↦ decide (l.name = name) with
    | none => cases inOrder <;> simp
    | some l =>
        simp only [Option.map_none, Option.map_some, ite_self, Option.some.injEq, forall_eq', hkept,
          false_and, and_false, reduceCtorEq]

def hostLine : FieldLine where
  name := ascii "Host"
  lead := [32]
  value := ascii "localhost"
  trail := []
  name_token := by decide
  lead_blank := by decide
  value_bytes := by decide
  value_first := by decide
  value_last := by decide
  trail_blank := by decide

def authorizationLine : FieldLine where
  name := ascii "Authorization"
  lead := [32]
  value := ascii "Bearer secret"
  trail := []
  name_token := by decide
  lead_blank := by decide
  value_bytes := by decide
  value_first := by decide
  value_last := by decide
  trail_blank := by decide

def healthRequest : WellFormedRequest where
  method := ascii "GET"
  target := ascii "/health"
  lines := [hostLine, authorizationLine]
  body := []
  method_token := by decide
  method_le := by decide
  target_visible := by decide
  target_le := by decide
  lines_le := by decide
  line_lt := by decide
  head_lt := by decide
  body_le := by decide
  body_bytes := by decide

theorem http_request_recovered_iff_host :
    let parsed := parseHttpRequest true healthRequest.render
    isToken (ascii "Host") = true ∧ parsed.method = ascii "GET" ∧ parsed.path = ascii "/health" ∧
      parsed.body = [] ∧ getHeader parsed (ascii "Host") = some (ascii "localhost") := by
  have hfound : healthRequest.Found true (ascii "Host") := by
    intro l hl
    obtain rfl : hostLine = l := Option.some.inj hl
    exact ⟨rfl, by decide, by decide, rfl⟩
  exact ⟨by decide, (http_request_recovered_iff true healthRequest (ascii "Host")
    (by decide)).mpr hfound⟩

/-- The last header line is lost. -/
theorem last_header_is_lost :
    ¬ ∀ (inOrder : Bool) (req : WellFormedRequest) (name : Bytes), isToken name = true →
      (parseHttpRequest inOrder req.render).method = req.method ∧
        (parseHttpRequest inOrder req.render).path = req.target ∧
        (parseHttpRequest inOrder req.render).body = req.body ∧
        getHeader (parseHttpRequest inOrder req.render) name = req.header name := by
  intro h
  have hheader := (h true healthRequest (ascii "Authorization") (by decide)).2.2.2
  revert hheader
  decide +kernel

end DoctorClaw
