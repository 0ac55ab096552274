import DoctorClaw.SecurityMonitor.Injections

/-!
# Screening of requests

`gateway_worker` shows every parsed request to the security monitor and then
to the intrusion detection system, and hands it on only when both let it pass.
The two scanners read a bounded part of a body, the first 16384 bytes for
prompt injection and the first 8192 for attack signatures, and a body of more
than 32768 bytes is an anomaly.  So screening is independent of position as
long as the offending part stays inside the scanned part.
-/

namespace DoctorClaw

/-! ## Intrusion detection -/

inductive IdsResult
  | ok
  | alertSignature
  | alertAnomaly
  deriving DecidableEq

structure IdsSignature where
  name : Bytes
  pattern : Bytes
  caseInsensitive : Bool

structure Ids where
  signatures : List IdsSignature
  maxBodyBytes : ℕ
  anomalyBodySizeEnabled : Bool
  bodyBaseline : UInt32

def builtinSignatures : List IdsSignature :=
  [("sql_comment", "--"), ("sql_union", "union "), ("sql_select", "select "),
    ("sql_drop", "drop table"), ("sql_sleep", "sleep("), ("shell_cmd", "; /bin/"),
    ("shell_sh", "| sh "), ("shell_bash", "$(bash"), ("xss_script", "<script"),
    ("xss_onerror", "onerror="), ("path_etc", "/etc/passwd"), ("path_win", "..\\"),
    ("ldap_inject", "*)(uid="), ("null_byte", "%00"), ("crlf", "\r\n")].map
    fun e ↦ ⟨ascii e.1, ascii e.2, true⟩

def idsInitDefaults : Ids where
  signatures := builtinSignatures
  maxBodyBytes := 0
  anomalyBodySizeEnabled := true
  bodyBaseline := 8192

def foldCase (caseInsensitive : Bool) (c : UInt8) : UInt8 :=
  if caseInsensitive then CString.tolower c else c

def matchPattern (haystack pattern : Bytes) (caseInsensitive : Bool) : Bool :=
  if pattern.length = 0 ∨ haystack.length < pattern.length then false
  else (List.range (haystack.length - pattern.length + 1)).any fun i ↦
    ((haystack.drop i).take pattern.length).map (foldCase caseInsensitive) =
      pattern.map (foldCase caseInsensitive)

def Ids.signatureIn (ids : Ids) (text : Bytes) : Option IdsSignature :=
  ids.signatures.find? fun sig ↦ matchPattern text sig.pattern sig.caseInsensitive

def signatureScanLen : ℕ := 8192

def Ids.threshold (ids : Ids) : UInt32 :=
  if 0 < ids.bodyBaseline then ids.bodyBaseline * 4 else 65536

def idsReasonMax : ℕ := 128

def IdsResult.because (result : IdsResult) (reason : Bytes) : IdsResult × Bytes :=
  (result, CString.cut idsReasonMax reason)

def idsCheck (ids : Ids) (path body : Bytes) : IdsResult × Bytes :=
  match ids.signatureIn path with
  | some sig => IdsResult.alertSignature.because (ascii "signature:" ++ sig.name ++ ascii " in path")
  | none =>
    match ids.signatureIn (body.take signatureScanLen) with
    | some sig =>
        IdsResult.alertSignature.because (ascii "signature:" ++ sig.name ++ ascii " in body")
    | none =>
        if ids.anomalyBodySizeEnabled ∧ ids.threshold.toNat < body.length then
          IdsResult.alertAnomaly.because (ascii "anomaly:body_size " ++
            Decimal.printNat body.length ++ ascii " > " ++ Decimal.printNat ids.threshold.toNat)
        else if 0 < ids.maxBodyBytes ∧ ids.maxBodyBytes < body.length then
          IdsResult.alertAnomaly.because (ascii "body_size " ++ Decimal.printNat body.length ++
            ascii " exceeds max " ++ Decimal.printNat ids.maxBodyBytes)
        else (.ok, [])

/-! ## The gateway -/

structure GatewayResponse where
  statusCode : ℕ
  statusText : Bytes
  contentType : Bytes
  body : Bytes

def rejection (reason fallback : Bytes) : GatewayResponse where
  statusCode := 400
  statusText := ascii "Bad Request"
  contentType := ascii "application/json"
  body := ascii "\x7b\"error\":\"Request rejected\",\"reason\":\"" ++
    (if reason = [] then fallback else reason) ++ ascii "\"\x7d"

def rateLimitResponse : GatewayResponse where
  statusCode := 429
  statusText := ascii "Too Many Requests"
  contentType := ascii "application/json"
  body := ascii "\x7b\"error\":\"Rate limit exceeded\"\x7d"

/-- The answer that ends `gateway_worker` early; with `none` the request goes
on to `handle_request`. -/
def gatewayScreen (m : SecurityMonitor) (ids : Ids) (now : ℕ) (req : Request) :
    Option GatewayResponse × SecurityMonitor :=
  let (sec, m) := securityMonitorCheckRequest m now req
  if sec.1 = .rateLimited then (some rateLimitResponse, m)
  else if sec.1 ≠ .ok then (some (rejection sec.2 (ascii "security")), m)
  else
    let alert := idsCheck ids req.path req.body
    if alert.1 ≠ .ok then (some (rejection alert.2 (ascii "ids")), m) else (none, m)

/-! ## Scanning -/

theorem matchPattern_iff (haystack pattern : Bytes) (ci : Bool) :
    matchPattern haystack pattern ci = true ↔
      pattern ≠ [] ∧ pattern.map (foldCase ci) <:+: haystack.map (foldCase ci) := by
  unfold matchPattern
  constructor
  · intro h
    split_ifs at h with hlen
    obtain ⟨i, -, hi⟩ := List.any_eq_true.mp h
    refine ⟨fun hnil ↦ hlen (.inl (by rw [hnil]; rfl)), ?_⟩
    rw [← of_decide_eq_true hi]
    exact ((List.take_prefix _ _).isInfix.trans (List.drop_suffix _ _).isInfix).map _
  · rintro ⟨hne, s, t, h⟩
    have hlen := congrArg List.length h
    simp only [List.length_append, List.length_map] at hlen
    have hpos : 0 < pattern.length := List.length_pos_iff.mpr hne
    rw [if_neg (by omega), List.any_eq_true]
    refine ⟨s.length, List.mem_range.mpr (by omega), decide_eq_true ?_⟩
    rw [List.map_take, List.map_drop, ← h, List.append_assoc, List.drop_left,
      ← List.length_map (foldCase ci), List.take_left]

theorem matchPattern_mono {s t pattern : Bytes} {ci : Bool} (hst : s <:+: t)
    (h : matchPattern s pattern ci = true) : matchPattern t pattern ci = true := by
  rw [matchPattern_iff] at h ⊢
  exact ⟨h.1, h.2.trans (hst.map _)⟩

theorem signatureIn_mono {ids : Ids} {s t : Bytes} (hst : s <:+: t)
    (h : (ids.signatureIn s).isSome) : (ids.signatureIn t).isSome := by
  rw [Ids.signatureIn, List.find?_isSome] at h ⊢
  obtain ⟨sig, hmem, hmatch⟩ := h
  exact ⟨sig, hmem, matchPattern_mono hst hmatch⟩

theorem take_append_of_le {p b : Bytes} {n : ℕ} (hle : p.length + b.length ≤ n) (rest : Bytes) :
    (p ++ (b ++ rest)).take n = p ++ (b ++ rest.take (n - (p.length + b.length))) := by
  rw [← List.append_assoc, List.take_append, List.take_of_length_le (by simpa using hle),
    List.append_assoc, List.length_append]

theorem containsInjectionPattern_append {p b : Bytes} (hp : (0 : UInt8) ∉ p)
    (hle : p.length + b.length ≤ injectionScanLen) (rest : Bytes)
    (h : containsInjectionPattern b = true) :
    containsInjectionPattern (p ++ (b ++ rest)) = true := by
  rw [containsInjectionPattern_iff] at h ⊢
  obtain ⟨pattern, hmem, hin⟩ := h
  refine ⟨pattern, hmem, hin.trans ?_⟩
  rw [take_append_of_le hle, List.take_of_length_le (by omega), List.map_append,
    CString.ofBuffer_append (zero_notMem_map_tolower hp), List.map_append]
  exact (CString.ofBuffer_isPrefix_append _ _).isInfix.trans (List.suffix_append _ _).isInfix

/-! ## Rejections -/

theorem gatewayScreen_of_secmon {m : SecurityMonitor} {ids : Ids} {now : ℕ} {req : Request}
    (h : (securityMonitorCheckRequest m now req).1.1 ≠ .ok) :
    (gatewayScreen m ids now req).1 ≠ none := by
  simp only [gatewayScreen]
  split_ifs <;> simp

theorem gatewayScreen_eq_none {m : SecurityMonitor} {ids : Ids} {now : ℕ} {req : Request}
    (hsec : (securityMonitorCheckRequest m now req).1.1 = .ok)
    (hids : (idsCheck ids req.path req.body).1 = .ok) : (gatewayScreen m ids now req).1 = none := by
  simp [gatewayScreen, hsec, hids]

theorem gatewayScreen_of_ids {m : SecurityMonitor} {ids : Ids} {now : ℕ} {req : Request}
    (h : (idsCheck ids req.path req.body).1 ≠ .ok) :
    (gatewayScreen m ids now req).1 ≠ none := by
  simp only [gatewayScreen]
  split_ifs <;> simp

/-- The monitor suspects an injection exactly in a body with a pattern, and
lets no such body pass. -/
theorem containsInjectionPattern_of_suspected {m : SecurityMonitor} {now : ℕ} {req : Request}
    (h : (securityMonitorCheckRequest m now req).1.1 = .injectionSuspected) :
    containsInjectionPattern req.body = true := by
  simp only [securityMonitorCheckRequest, Request.screened, SecurityMonitor.scanBody,
    SecmonResult.because] at h
  split_ifs at h <;> simp_all

theorem securityMonitorCheckRequest_of_injection {m : SecurityMonitor} {now : ℕ} {req : Request}
    (hscan : m.config.injectionScanEnabled = true)
    (hbody : containsInjectionPattern req.body = true) :
    (securityMonitorCheckRequest m now req).1.1 ≠ .ok := by
  have hlen : 0 < req.body.length := by
    rw [List.length_pos_iff]
    intro hnil
    rw [hnil] at hbody
    revert hbody
    decide
  simp only [securityMonitorCheckRequest, Request.screened, SecurityMonitor.scanBody,
    SecmonResult.because]
  split_ifs <;> simp_all

theorem idsCheck_signature_iff (ids : Ids) (path body : Bytes) :
    (idsCheck ids path body).1 = .alertSignature ↔
      (ids.signatureIn path).isSome ∨ (ids.signatureIn (body.take signatureScanLen)).isSome := by
  unfold idsCheck
  cases hpath : ids.signatureIn path with
  | some sig => simp [IdsResult.because]
  | none =>
      cases hbody : ids.signatureIn (body.take signatureScanLen) with
      | some sig => simp [IdsResult.because]
      | none =>
          simp only [IdsResult.because]
          split_ifs <;> simp

theorem idsCheck_of_long {path body : Bytes} (hlong : 32768 < body.length) :
    (idsCheck idsInitDefaults path body).1 ≠ .ok := by
  unfold idsCheck
  cases idsInitDefaults.signatureIn path with
  | some sig => simp [IdsResult.because]
  | none =>
      cases idsInitDefaults.signatureIn (body.take signatureScanLen) with
      | some sig => simp [IdsResult.because]
      | none =>
          have hthreshold : idsInitDefaults.threshold.toNat = 32768 := by decide
          rw [if_pos ⟨rfl, by rwa [hthreshold]⟩]
          simp [IdsResult.because]

theorem idsCheck_append {ids : Ids} {path p b : Bytes}
    (hle : p.length + b.length ≤ signatureScanLen) (rest : Bytes)
    (h : (idsCheck ids path b).1 = .alertSignature) :
    (idsCheck ids path (p ++ (b ++ rest))).1 = .alertSignature := by
  rw [idsCheck_signature_iff] at h ⊢
  refine h.imp_right fun hbody ↦ ?_
  rw [take_append_of_le hle]
  apply signatureIn_mono _ hbody
  rw [List.take_of_length_le (by omega)]
  exact List.infix_append' _ _ _

/-- A rejected text is still rejected behind any `p` and in front of any `q`
as long as a leading part of it that is rejected by itself ends inside the
scanned part of the body; a signature in the path and a body of more than
32768 bytes are rejected in any case. -/
theorem screening_within_scan (m m' : SecurityMonitor) (now now' : ℕ) (req : Request)
    (p b₁ b₂ q : Bytes) (hdefault : m'.config = securityMonitorConfigDefaults)
    (hp : (0 : UInt8) ∉ p)
    (hrejected :
      (securityMonitorCheckRequest m now { req with body := b₁ }).1.1 = .injectionSuspected ∧
          p.length + b₁.length ≤ 16384 ∨
        (idsCheck idsInitDefaults req.path b₁).1 = .alertSignature ∧
          p.length + b₁.length ≤ 8192 ∨
        (idsCheck idsInitDefaults req.path []).1 = .alertSignature ∨
        32768 < (p ++ (b₁ ++ b₂) ++ q).length) :
    (gatewayScreen m' idsInitDefaults now' { req with body := p ++ (b₁ ++ b₂) ++ q }).1 ≠ none := by
  have hbody : p ++ (b₁ ++ b₂) ++ q = p ++ (b₁ ++ (b₂ ++ q)) := by simp
  rcases hrejected with ⟨hinjection, hle⟩ | ⟨hsignature, hle⟩ | hpath | hlong
  · apply gatewayScreen_of_secmon
    apply securityMonitorCheckRequest_of_injection
    · rw [hdefault]
      rfl
    · rw [hbody]
      exact containsInjectionPattern_append hp hle _
        (containsInjectionPattern_of_suspected hinjection)
  · apply gatewayScreen_of_ids
    rw [hbody, idsCheck_append hle _ hsignature]
    decide
  · apply gatewayScreen_of_ids
    have halways : (idsCheck idsInitDefaults req.path (p ++ (b₁ ++ b₂) ++ q)).1 =
        .alertSignature := by
      rw [idsCheck_signature_iff] at hpath ⊢
      exact hpath.imp_right fun hnil ↦ absurd hnil (by decide)
    rw [halways]
    decide
  · apply gatewayScreen_of_ids
    exact idsCheck_of_long hlong

def chatRequest (body : Bytes) : Request :=
  ⟨ascii "127.0.0.1", ascii "POST", ascii "/agent/chat", body⟩

theorem screening_within_scan_one_byte :
    (securityMonitorCheckRequest (securityMonitorInit securityMonitorConfigDefaults) 0
        (chatRequest (ascii "jailbreak"))).1.1 = .injectionSuspected ∧
      (gatewayScreen (securityMonitorInit securityMonitorConfigDefaults) idsInitDefaults 1
        (chatRequest ([120] ++ (ascii "jailbreak" ++ []) ++ [121]))).1 ≠ none := by
  have hsuspected : (securityMonitorCheckRequest (securityMonitorInit securityMonitorConfigDefaults)
      0 (chatRequest (ascii "jailbreak"))).1.1 = .injectionSuspected := by decide +kernel
  exact ⟨hsuspected, screening_within_scan _ _ 0 1 (chatRequest []) [120] (ascii "jailbreak") []
    [121] rfl (by decide) (.inl ⟨hsuspected, by decide⟩)⟩

theorem not_infix_replicate {pattern : Bytes} {c : UInt8} (h : ∃ x ∈ pattern, x ≠ c) (n : ℕ) :
    ¬ pattern <:+: List.replicate n c := by
  rintro hin
  obtain ⟨x, hx, hne⟩ := h
  exact hne (List.eq_of_mem_replicate (hin.subset hx))

theorem securityMonitorCheckRequest_of_clean {m : SecurityMonitor} {now : ℕ} {req : Request}
    (hform : req.screened m.config = none)
    (hrate : ¬ m.config.rateLimitPerWindow <
      ((m.buckets (hashIp req.clientIp)).hit m.config req.clientIp now).count)
    (hclean : containsInjectionPattern req.body = false) :
    (securityMonitorCheckRequest m now req).1.1 = .ok := by
  simp only [securityMonitorCheckRequest, hform, hrate, SecurityMonitor.scanBody, hclean]
  split_ifs <;> simp_all

theorem chatRequest_screened (body : Bytes) :
    (chatRequest body).screened securityMonitorConfigDefaults = none := by
  have hmethod : methodAllowed (ascii "POST") = true := by decide
  have hpath : pathHasTraversal (ascii "/agent/chat") = false := by decide
  simp [Request.screened, chatRequest, hmethod, hpath, securityMonitorConfigDefaults]

def filler : Bytes := List.replicate injectionScanLen 97

theorem filler_append_take {n : ℕ} (hn : n ≤ injectionScanLen) (rest : Bytes) :
    (filler ++ rest).take n = List.replicate n 97 := by
  rw [filler, List.take_append_of_le_length (by simpa using hn), List.take_replicate,
    min_eq_left hn]

theorem filler_hides_injection (rest : Bytes) :
    containsInjectionPattern (filler ++ rest) = false := by
  rw [← Bool.not_eq_true, containsInjectionPattern_iff, filler_append_take le_rfl]
  rintro ⟨pattern, hmem, hin⟩
  have hother : ∀ pattern ∈ injectionPatterns, ∃ x ∈ pattern, x ≠ 97 := by decide
  have hsub := hin.trans (List.takeWhile_prefix _).isInfix
  rw [List.map_replicate] at hsub
  exact not_infix_replicate (hother pattern hmem) _ hsub

theorem filler_hides_signature (rest : Bytes) :
    idsInitDefaults.signatureIn ((filler ++ rest).take signatureScanLen) = none := by
  rw [filler_append_take (by decide), Ids.signatureIn, List.find?_eq_none]
  intro sig hmem hmatch
  have hother : ∀ sig ∈ idsInitDefaults.signatures,
      ∃ x ∈ sig.pattern.map (foldCase sig.caseInsensitive), x ≠ foldCase sig.caseInsensitive 97 := by
    decide
  obtain ⟨-, hin⟩ := (matchPattern_iff _ _ _).mp hmatch
  rw [List.map_replicate] at hin
  exact not_infix_replicate (hother sig hmem) _ hin

theorem filler_idsCheck {rest : Bytes} (hlen : rest.length ≤ 16384) :
    (idsCheck idsInitDefaults (ascii "/agent/chat") (filler ++ rest)).1 = .ok := by
  have hpath : idsInitDefaults.signatureIn (ascii "/agent/chat") = none := by decide +kernel
  have hthreshold : idsInitDefaults.threshold.toNat = 32768 := by decide
  have hsize : ¬ 32768 < (filler ++ rest).length := by
    rw [List.length_append, filler, List.length_replicate, injectionScanLen]
    omega
  rw [idsCheck, hpath, filler_hides_signature, hthreshold]
  dsimp only
  rw [if_neg fun h ↦ hsize h.2, if_neg (by simp [idsInitDefaults])]

/-- Behind 16384 other bytes the same injection passes both scanners. -/
theorem screening_depends_on_position :
    ¬ ∀ (m m' : SecurityMonitor) (now now' : ℕ) (req : Request) (p b q : Bytes),
      m.config = securityMonitorConfigDefaults → m'.config = securityMonitorConfigDefaults →
      (0 : UInt8) ∉ p → (0 : UInt8) ∉ q → (p ++ b ++ q).length ≤ 65535 →
      ((securityMonitorCheckRequest m now { req with body := b }).1.1 = .injectionSuspected ∨
        (idsCheck idsInitDefaults req.path b).1 = .alertSignature) →
      (securityMonitorCheckRequest m' now' { req with body := p ++ b ++ q }).1.1 ≠
        .rateLimited →
      (gatewayScreen m' idsInitDefaults now' { req with body := p ++ b ++ q }).1 ≠ none := by
  intro h
  have hreq (body : Bytes) : { chatRequest [] with body := body } = chatRequest body := rfl
  have hsec : (securityMonitorCheckRequest (securityMonitorInit securityMonitorConfigDefaults) 0
      (chatRequest (filler ++ ascii "jailbreak"))).1.1 = .ok :=
    securityMonitorCheckRequest_of_clean (chatRequest_screened _) (by decide)
      (filler_hides_injection _)
  have hids : (idsCheck idsInitDefaults (ascii "/agent/chat")
      (filler ++ ascii "jailbreak")).1 = .ok := filler_idsCheck (by decide)
  have hchat := h (securityMonitorInit securityMonitorConfigDefaults)
    (securityMonitorInit securityMonitorConfigDefaults) 0 0 (chatRequest []) filler
    (ascii "jailbreak") []
  simp only [List.append_nil, hreq] at hchat
  refine hchat rfl rfl ?_ (by simp) ?_ (.inl (by decide +kernel)) ?_
    (gatewayScreen_eq_none hsec hids)
  · exact fun h0 ↦ absurd (List.eq_of_mem_replicate h0) (by decide)
  · rw [List.length_append, filler, List.length_replicate]
    decide
  · rw [hsec]
    decide

end DoctorClaw
