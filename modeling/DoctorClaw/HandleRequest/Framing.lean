import DoctorClaw.HandleRequest

/-!
# Framing of responses

A client takes the head of a response up to the first blank line and then as
many bytes as the head announces.  Every branch of the handler leaves a size
that makes it read the body and nothing else.
-/

namespace DoctorClaw

/-! ## Framing -/

/-- The bytes are a status line, header lines and a blank line, all as a client
expects them, and then the body, whose length is the only content length
among the header lines. -/
def Framed (sent body : Bytes) : Prop :=
  ∃ (statusLine : Bytes) (lines : List FieldLine),
    sent = statusLine ++ (lines.flatMap fun l ↦ crlf ++ l.text) ++ (crlf ++ crlf) ++ body ∧
      statusLine.all isFieldByte = true ∧ ascii "HTTP/1.1 " <+: statusLine ∧
      (lines.filter fun l ↦ l.name = ascii "Content-Length").map FieldLine.value =
        [Decimal.printNat body.length]

/-- The size of a response is that of its body, and the bytes sent for it are a
head and exactly that body, which starts behind the first blank line. -/
structure HttpResponse.WellFramed (resp : HttpResponse) : Prop where
  size_eq : resp.bodySize = (CString.ofBuffer resp.body.toList).length
  size_pos : 0 < resp.bodySize
  size_lt : resp.bodySize < 65536
  body_length : (resp.body.toList.take resp.bodySize).length = resp.bodySize
  framed : Framed (buildHttpResponse resp 131072) (resp.body.toList.take resp.bodySize)
  blank_line : CString.strstr (crlf ++ crlf) (buildHttpResponse resp 131072) =
    some (crlf ++ crlf ++ resp.body.toList.take resp.bodySize)

/-- The status and the content type are short and made of printable bytes. -/
structure HttpResponse.CleanHead (resp : HttpResponse) : Prop where
  code_lt : resp.statusCode < 1000
  status_lt : resp.statusText.length < 32
  status_bytes : resp.statusText.all isFieldByte = true
  type_lt : resp.contentType.length < 64
  type_bytes : resp.contentType.all isFieldByte = true
  type_first : resp.contentType.head?.all (fun c ↦ !isFieldBlank c) = true
  type_last : resp.contentType.getLast?.all (fun c ↦ !isFieldBlank c) = true

/-- The size of the response is that of its body. -/
structure HttpResponse.Sendable (resp : HttpResponse) : Prop extends resp.CleanHead where
  size_eq : resp.bodySize = resp.strlen
  size_pos : 0 < resp.bodySize
  size_lt : resp.bodySize < maxResponseSize

theorem isFieldByte_of_isDigit : ∀ c, Decimal.isDigit c = true →
    isFieldByte c = true ∧ isFieldBlank c = false :=
  CString.forall_byte (by decide +kernel)

theorem all_printNat (n : ℕ) : (Decimal.printNat n).all isFieldByte = true :=
  List.all_eq_true.mpr fun c hc ↦
    (isFieldByte_of_isDigit c (Decimal.isDigit_of_mem_printNat hc)).1

theorem blank_of_mem_printNat {n : ℕ} {c : UInt8} (hc : c ∈ Decimal.printNat n) :
    isFieldBlank c = false :=
  (isFieldByte_of_isDigit c (Decimal.isDigit_of_mem_printNat hc)).2

/-- A header line with one space in front of its value. -/
def printedLine (name value : Bytes) (hname : isToken name = true)
    (hbytes : value.all isFieldByte = true)
    (hfirst : value.head?.all (fun c ↦ !isFieldBlank c) = true)
    (hlast : value.getLast?.all (fun c ↦ !isFieldBlank c) = true) : FieldLine where
  name := name
  lead := [32]
  value := value
  trail := []
  name_token := hname
  lead_blank := rfl
  value_bytes := hbytes
  value_first := hfirst
  value_last := hlast
  trail_blank := rfl

def contentTypeLine {resp : HttpResponse} (h : resp.Sendable) : FieldLine :=
  printedLine (ascii "Content-Type") resp.contentType (by decide) h.type_bytes h.type_first
    h.type_last

def contentLengthLine (n : ℕ) : FieldLine :=
  printedLine (ascii "Content-Length") (Decimal.printNat n) (by decide) (all_printNat n)
    ((Option.all_eq_true_iff_get _ _).mpr fun h ↦ by
      simpa using blank_of_mem_printNat (List.mem_of_mem_head? (Option.get_mem h)))
    ((Option.all_eq_true_iff_get _ _).mpr fun h ↦ by
      simpa using blank_of_mem_printNat (List.mem_of_mem_getLast? (Option.get_mem h)))

def constantLines : List FieldLine :=
  [printedLine (ascii "Connection") (ascii "close") (by decide) (by decide) (by decide) (by decide),
    printedLine (ascii "Access-Control-Allow-Origin") (ascii "*") (by decide) (by decide)
      (by decide) (by decide),
    printedLine (ascii "X-Content-Type-Options") (ascii "nosniff") (by decide) (by decide)
      (by decide) (by decide),
    printedLine (ascii "X-Frame-Options") (ascii "DENY") (by decide) (by decide) (by decide)
      (by decide)]

def statusLine (resp : HttpResponse) : Bytes :=
  ascii "HTTP/1.1 " ++ Decimal.printNat resp.statusCode ++ [32] ++ resp.statusText

def responseLines {resp : HttpResponse} (h : resp.Sendable) : List FieldLine :=
  contentTypeLine h :: contentLengthLine resp.bodySize :: constantLines

theorem responseHead_eq {resp : HttpResponse} (h : resp.Sendable) :
    responseHead resp = statusLine resp ++
      ((responseLines h).flatMap fun l ↦ crlf ++ l.text) ++ (crlf ++ crlf) := by
  have htype : ascii "\r\nContent-Type: " = crlf ++ (ascii "Content-Type" ++ [58, 32]) := by decide
  have hlength : ascii "\r\nContent-Length: " = crlf ++ (ascii "Content-Length" ++ [58, 32]) := by
    decide
  have hrest : ascii "\r\nConnection: close\r\nAccess-Control-Allow-Origin: *\r\n" ++
      ascii "X-Content-Type-Options: nosniff\r\nX-Frame-Options: DENY\r\n\r\n" =
        (constantLines.flatMap fun l ↦ crlf ++ l.text) ++ (crlf ++ crlf) := by
    decide
  have hlines : (contentTypeLine h).text = ascii "Content-Type" ++ [58, 32] ++ resp.contentType ∧
      (contentLengthLine resp.bodySize).text =
        ascii "Content-Length" ++ [58, 32] ++ Decimal.printNat resp.bodySize := by
    simp [FieldLine.text, contentTypeLine, contentLengthLine, printedLine]
  rw [responseHead, List.append_assoc _ (ascii _) (ascii _), hrest, htype, hlength, responseLines,
    List.flatMap_cons, List.flatMap_cons, hlines.1, hlines.2, statusLine]
  simp only [List.append_assoc]

theorem all_statusLine {resp : HttpResponse} (h : resp.Sendable) :
    (statusLine resp).all isFieldByte = true := by
  have hversion : (ascii "HTTP/1.1 ").all isFieldByte = true := by decide
  have hblank : [(32 : UInt8)].all isFieldByte = true := by decide
  rw [statusLine]
  simp only [List.all_append, hversion, all_printNat, hblank, h.status_bytes, Bool.and_self]

theorem zero_notMem_responseHead {resp : HttpResponse} (h : resp.Sendable) :
    (0 : UInt8) ∉ responseHead resp := by
  rw [responseHead_eq h]
  simp only [List.mem_append, List.mem_flatMap, not_or, not_exists, not_and]
  refine ⟨⟨fun hc ↦ ?_, fun l _ ↦ ⟨by decide, fun hc ↦ (FieldLine.mem_text hc).1 rfl⟩⟩, by decide,
    by decide⟩
  have hbyte := List.all_eq_true.mp (all_statusLine h) 0 hc
  exact absurd hbyte (by decide)

/-- The numbers and texts of a head are short. -/
theorem length_responseHead_lt {resp : HttpResponse} (h : resp.Sendable) :
    (responseHead resp).length < 1024 := by
  have hcode := Decimal.length_printNat_le (n := resp.statusCode) (k := 3) (by omega) h.code_lt
  have hsize := Decimal.length_printNat_le (n := resp.bodySize) (k := 5) (by omega)
    (h.size_lt.trans (by decide))
  have hstatus := h.status_lt
  have htype := h.type_lt
  have hconst : (ascii "HTTP/1.1 ").length + (ascii "\r\nContent-Type: ").length +
      (ascii "\r\nContent-Length: ").length +
      (ascii "\r\nConnection: close\r\nAccess-Control-Allow-Origin: *\r\n").length +
      (ascii "X-Content-Type-Options: nosniff\r\nX-Frame-Options: DENY\r\n\r\n").length < 512 := by
    decide
  simp only [responseHead, List.length_append, List.length_singleton]
  omega

theorem HttpResponse.Sendable.length_take {resp : HttpResponse} (h : resp.Sendable) :
    (resp.body.toList.take resp.bodySize).length = resp.bodySize := by
  rw [List.length_take, Vector.length_toList]
  exact Nat.min_eq_left h.size_lt.le

/-- The head fits into the buffer together with any body. -/
theorem buildHttpResponse_eq {resp : HttpResponse} (h : resp.Sendable) :
    buildHttpResponse resp 131072 = responseHead resp ++ resp.body.toList.take resp.bodySize := by
  have hhead := length_responseHead_lt h
  have hsize : resp.bodySize < 65536 := h.size_lt
  have hout : CString.ofBuffer (CString.cut 131072 (responseHead resp)) = responseHead resp := by
    rw [CString.cut_of_lt (by omega), CString.ofBuffer_eq_self (zero_notMem_responseHead h)]
  rw [buildHttpResponse, hout, if_pos (by omega)]

theorem framed_buildHttpResponse {resp : HttpResponse} (h : resp.Sendable) :
    Framed (buildHttpResponse resp 131072) (resp.body.toList.take resp.bodySize) := by
  refine ⟨statusLine resp, responseLines h, ?_, all_statusLine h, ?_, ?_⟩
  · rw [buildHttpResponse_eq h, responseHead_eq h]
  · simp only [statusLine, List.append_assoc]
    exact List.prefix_append _ _
  · have hother : constantLines.filter (fun l ↦ l.name = ascii "Content-Length") = [] := by decide
    have htype : ¬ (contentTypeLine h).name = ascii "Content-Length" := by
      change ¬ ascii "Content-Type" = ascii "Content-Length"
      decide
    rw [responseLines, List.filter_cons_of_neg (by simpa using htype),
      List.filter_cons_of_pos (by simp [contentLengthLine, printedLine]), hother, h.length_take]
    rfl

/-- A client finds the body behind the first blank line. -/
theorem Framed.strstr_blank_line {sent body : Bytes} (h : Framed sent body) :
    CString.strstr (crlf ++ crlf) sent = some (crlf ++ crlf ++ body) := by
  obtain ⟨statusLine, lines, rfl, hbytes, -, -⟩ := h
  rw [List.append_assoc _ (crlf ++ crlf) body]
  refine strstr_head (fun hc ↦ ?_) body
  exact (isFieldByte_spec 13 (List.all_eq_true.mp hbytes 13 hc)).2 rfl

/-! ## Every branch answers -/

theorem zero_lt_strlen {s : Bytes} {c : UInt8} (hhead : s.head? = some c) (hc : c ≠ 0) :
    0 < (CString.ofBuffer (CString.cut maxResponseSize s)).length := by
  obtain ⟨s, rfl⟩ : ∃ rest, s = c :: rest := ⟨s.tail, (List.cons_head?_tail hhead).symm⟩
  simp [CString.cut, maxResponseSize, CString.ofBuffer, hc]

theorem strlen_cut_lt (s : Bytes) :
    (CString.ofBuffer (CString.cut maxResponseSize s)).length < maxResponseSize :=
  (List.takeWhile_prefix _).length_le.trans_lt (CString.length_cut_lt (by decide) s)

theorem HttpResponse.answer_bodySize (resp : HttpResponse) (text : Bytes) :
    (resp.answer text).bodySize = (resp.answer text).strlen := by
  simp only [HttpResponse.answer, HttpResponse.strlen]

theorem HttpResponse.strlen_answer (resp : HttpResponse) (text : Bytes) :
    (resp.answer text).strlen = (CString.ofBuffer (CString.cut maxResponseSize text)).length := by
  simp only [HttpResponse.answer, HttpResponse.strlen]
  rw [CString.ofBuffer_store (by decide)]

theorem HttpResponse.CleanHead.answer {resp : HttpResponse} (h : resp.CleanHead) (text : Bytes) :
    (resp.answer text).CleanHead := by
  unfold HttpResponse.answer
  exact ⟨h.code_lt, h.status_lt, h.status_bytes, h.type_lt, h.type_bytes, h.type_first,
    h.type_last⟩

theorem sendable_answer {resp : HttpResponse} (h : resp.CleanHead) {text : Bytes} {c : UInt8}
    (hhead : text.head? = some c) (hc : c ≠ 0) : (resp.answer text).Sendable where
  toCleanHead := h.answer text
  size_eq := resp.answer_bodySize text
  size_pos := by
    rw [resp.answer_bodySize, resp.strlen_answer]
    exact zero_lt_strlen hhead hc
  size_lt := by
    rw [resp.answer_bodySize, resp.strlen_answer]
    exact strlen_cut_lt text

theorem head?_quoted (key : String) (text : Bytes) : (quoted key text).head? = some 123 := rfl

theorem head?_queueReply (pushed : ℤ) (buffer : Bytes) :
    (queueReply pushed buffer).head? = some 123 := by
  unfold queueReply
  split_ifs <;> exact head?_quoted _ _

theorem head?_directReply (env : AgentEnv) (call : ℕ) (config : Option Config)
    (entry : AgentEntry) : (directReply env call config entry).head? = some 123 := by
  unfold directReply
  cases config with
  | none => exact head?_quoted _ _
  | some config =>
      dsimp only
      split_ifs <;> exact head?_quoted _ _

section Handler

variable {V : Type} (ops : DoubleOps V) (env : GatewayEnv V) (req : HttpRequest)

theorem head?_webhookReply (message : Bytes) :
    (env.webhookReply message).1.head? = some 123 := by
  unfold GatewayEnv.webhookReply
  cases env.config with
  | none => exact head?_quoted _ _
  | some config =>
      dsimp only
      split_ifs <;> exact head?_quoted _ _

theorem cleanHead_json : (HttpResponse.zero.withHead 200 "OK" "application/json").CleanHead := by
  constructor <;> decide

theorem sendable_handleChat : (handleChat env req).Sendable := by
  unfold handleChat
  dsimp only
  split
  · rename_i text hroute
    refine sendable_answer cleanHead_json (c := 123) ?_ (by decide)
    unfold handleAgentChat at hroute
    split at hroute
    · cases hroute
      exact head?_quoted _ _
    · split_ifs at hroute
      cases hroute
      exact head?_quoted _ _
  · exact sendable_answer cleanHead_json (head?_queueReply _ _) (by decide)
  · exact sendable_answer cleanHead_json (head?_directReply _ _ _ _) (by decide)

theorem head?_messageReply (body : Bytes) : (env.messageReply body).1.head? = some 123 := by
  unfold GatewayEnv.messageReply
  cases parseJsonWebhookMessage body 4096 with
  | none => rfl
  | some message =>
      dsimp only
      split_ifs
      · exact head?_queueReply _ _
      · exact head?_webhookReply env message

/-- An answer to a challenge is complete, and without one the response is
untouched. -/
theorem answerChallenge_cases {resp : HttpResponse} (h : resp.CleanHead) :
    (resp.answerChallenge req).Sendable ∨ resp.answerChallenge req = resp := by
  unfold HttpResponse.answerChallenge
  split_ifs
  · cases parseSlackChallenge (CString.ofBuffer req.body) 512 with
    | none => exact .inr rfl
    | some challenge => exact .inl (sendable_answer h (c := 123) rfl (by decide))
  · exact .inr rfl

theorem sendable_handleWebhook : (handleWebhook env req).1.Sendable := by
  unfold handleWebhook
  dsimp only
  obtain hdone | hsame := answerChallenge_cases req cleanHead_json
  · rw [if_neg hdone.size_pos.ne']
    exact hdone
  · have hfresh : (HttpResponse.zero.withHead 200 "OK" "application/json").bodySize = 0 := rfl
    rw [hsame, if_pos hfresh]
    exact sendable_answer cleanHead_json (head?_messageReply env _) (by decide)

theorem exportSums_isPrefix (outputSize offset : ℕ) (out : Bytes) (sums : List (Bytes × V)) :
    out <+: exportSums ops outputSize offset out sums := by
  induction sums generalizing offset out with
  | nil => exact List.prefix_rfl
  | cons sum sums ih =>
      obtain ⟨name, value⟩ := sum
      rw [exportSums]
      split_ifs
      · exact (List.prefix_append _ _).trans (ih _ _)
      · exact List.prefix_rfl

/-- The export starts with its first comment. -/
theorem head?_observabilityPrometheusExport (obs : Observability V) :
    ∃ buf, observabilityPrometheusExport ops (some obs) 8192 = some buf ∧
      buf.head? = some 35 ∧ (0 : UInt8) ∉ buf := by
  refine ⟨_, rfl, ?_, CString.zero_notMem_ofBuffer _⟩
  dsimp only
  obtain ⟨rest, hrest⟩ := exportSums_isPrefix ops 8192 (metricsHelp.length + metricsType.length)
    (CString.cut 8192 metricsHelp ++ CString.cut (8192 - metricsHelp.length) metricsType)
    (if metricsHelp.length + metricsType.length < 8192 - 100 then
      obs.metrics.foldl (addToSums ops) [] else [])
  rw [← hrest]
  rfl

/-- A text copied with its length, as `memcpy` does it. -/
theorem sendable_copy {resp : HttpResponse} (h : resp.CleanHead) {text : Bytes} {n : ℕ}
    (hclean : (0 : UInt8) ∉ text) (hn : text.length = n) (hpos : 0 < n)
    (hlt : n < maxResponseSize) :
    { resp with body := CString.store resp.body text, bodySize := n : HttpResponse }.Sendable where
  toCleanHead := ⟨h.code_lt, h.status_lt, h.status_bytes, h.type_lt, h.type_bytes, h.type_first,
    h.type_last⟩
  size_eq := by
    simp only [HttpResponse.strlen]
    rw [CString.ofBuffer_store (by decide), CString.cut_of_lt (hn ▸ hlt),
      CString.ofBuffer_eq_self hclean, hn]
  size_pos := hpos
  size_lt := hlt

theorem sendable_handleMetrics (obs : Observability V) : (handleMetrics ops obs).Sendable := by
  obtain ⟨buf, hbuf, hhead, hclean⟩ := head?_observabilityPrometheusExport ops obs
  have hpos : 0 < buf.length := List.length_pos_iff.mpr fun h ↦ by simp [h] at hhead
  have hmax : 1 < maxResponseSize := by decide
  have hmin : (if maxResponseSize ≤ buf.length then maxResponseSize - 1 else buf.length) =
      min buf.length (maxResponseSize - 1) := by
    split_ifs <;> omega
  unfold handleMetrics
  rw [hbuf]
  dsimp only
  rw [hmin]
  refine sendable_copy (by constructor <;> decide) ?_ ?_ ?_ ?_
  · exact fun h ↦ hclean (List.mem_of_mem_take h)
  · rw [List.length_take]
    omega
  · omega
  · omega

/-- Every answer has the size of its body, and the body is never empty. -/
theorem sendable_handleRequest : (handleRequest ops env req).resp.Sendable := by
  unfold handleRequest
  dsimp only
  split_ifs
  · exact sendable_handleMetrics ops _
  · exact sendable_answer (by constructor <;> decide) (c := 60) rfl (by decide)
  · exact sendable_answer cleanHead_json (c := 123) rfl (by decide)
  · exact sendable_answer cleanHead_json (c := 123) rfl (by decide)
  · exact sendable_answer cleanHead_json (c := 123) rfl (by decide)
  · exact sendable_handleWebhook env req
  · exact sendable_handleChat env req
  · exact sendable_answer (by constructor <;> decide) (c := 123) rfl (by decide)

/-- Whatever is asked and whatever the agent answers, the size in the response
is the length of its body, and the bytes sent are a head with that content
length and then the body. -/
theorem handle_request_frames_response : (handleRequest ops env req).resp.WellFramed := by
  have h := sendable_handleRequest ops env req
  have hframed := framed_buildHttpResponse h
  exact ⟨h.size_eq, h.size_pos, h.size_lt, h.length_take, hframed, hframed.strstr_blank_line⟩

end Handler

end DoctorClaw
