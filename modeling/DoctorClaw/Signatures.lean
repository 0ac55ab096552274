import DoctorClaw.Base64

/-!
# Signatures

The webhook signatures and the identity signatures are both meant to be keyed
hashes of the message.  In the first one the key cancels and the message is
never read; the second one is set to zero.  So there is one webhook signature
and one identity signature, whatever the key and the message.
-/

namespace DoctorClaw

/-! ## Webhooks -/

def hmacInnerMax : ℕ := 32768

/-- The array `tk`, which holds `stack` before the key is copied. -/
def hmacKey (stack : ℕ → UInt8) (key : Bytes) (i : ℕ) : UInt8 :=
  if 64 < key.length then 0 else if i < min key.length 32 then key.getD i 0 else stack i

def hmacSha256Compute (stack : ℕ → UInt8) (key data : Bytes) : Bytes :=
  let data := data.take hmacInnerMax
  let tk := hmacKey stack key
  let k (i : ℕ) : UInt8 := if i < 32 then tk i ^^^ 0x36 else tk (i - 32) ^^^ 0x5c
  let ipad (i : ℕ) : UInt8 := k i ^^^ 0x36
  let innerInput := (List.range 64).map ipad ++ data
  let innerResult := (List.range 32).map fun i ↦ innerInput.getD i 0
  let k (i : ℕ) : UInt8 := if i < 32 then tk i ^^^ 0x5c else tk (i - 32) ^^^ 0x36
  let hash2 := (List.range 64).map k ++ innerResult
  (List.range 32).map fun i ↦ hash2.getD (32 + i) 0 ^^^ innerResult.getD i 0

/-- `memory` is what the output buffer holds before. -/
def utilHmacSha256 (stack : ℕ → UInt8) (memory key message : Bytes) : Bytes :=
  utilBase64Encode memory (hmacSha256Compute stack key message) 65

/-- What is left over on the stack when a webhook is verified. -/
structure Leftovers where
  tk : ℕ → UInt8
  computed : Bytes

def webhookVerify (left : Leftovers) (secret body signature : Bytes) : ℤ :=
  if utilHmacSha256 left.tk left.computed secret body = signature then 0 else -1

def utilWebhookVerifyTelegram := webhookVerify

def utilWebhookVerifyDiscord := webhookVerify

def utilWebhookVerifySlack := webhookVerify

/-! ## Identities -/

/-- The fields of `identity_t` that signing reads, the key as its whole
buffer. -/
structure Identity where
  secretKey : Bytes
  initialized : Bool

/-- The pads are computed from the key and dropped. -/
def hmacSha256 (_key _message : Bytes) : Bytes := List.replicate 32 0

/-- The bytes of the key that signing decodes, into a buffer said to have no
room. -/
def Identity.key (id : Identity) : Bytes :=
  let text := CString.ofBuffer id.secretKey
  (utilBase64Decode text (fun i ↦ id.secretKey.getD (text.length + 1 + i) 0) 0).2

/-- The signature left in a buffer that holds `memory` and has `sigLen` bytes,
its length being the new `sig_len`. -/
def identitySign (id : Identity) (message memory : Bytes) (sigLen : ℕ) : Option Bytes :=
  if id.initialized then some (utilBase64Encode memory (hmacSha256 id.key message) sigLen)
  else none

/-- `computed` is what the buffer of that name holds before. -/
def identityVerify (id : Identity) (computed message signature : Bytes) (sigLen : ℕ) : ℤ :=
  match identitySign id message computed 256 with
  | none => -1
  | some expected =>
      if sigLen ≠ expected.length ∨ signature.take sigLen ≠ expected.take sigLen then -1 else 0

/-! ## The only signatures -/

theorem getD_range_map_append {n i : ℕ} (hi : i < n) (f : ℕ → UInt8) (rest : Bytes) :
    ((List.range n).map f ++ rest).getD i 0 = f i := by
  rw [List.getD_eq_getElem?_getD, List.getElem?_append_left (by simpa using hi)]
  simp [hi]

/-- The key enters twice and cancels. -/
theorem hmacSha256Compute_eq (stack : ℕ → UInt8) (key data : Bytes) :
    hmacSha256Compute stack key data = List.replicate 32 0x36 := by
  rw [List.eq_replicate_iff]
  refine ⟨by simp [hmacSha256Compute], fun b hb ↦ ?_⟩
  obtain ⟨i, hi, rfl⟩ := List.mem_map.mp hb
  have hi : i < 32 := List.mem_range.mp hi
  have hinner := getD_range_map_append hi (fun i ↦ ((List.range 64).map (fun i ↦
    (if i < 32 then hmacKey stack key i ^^^ 0x36 else hmacKey stack key (i - 32) ^^^ 0x5c) ^^^ 0x36) ++
      data.take hmacInnerMax).getD i 0) []
  rw [List.append_nil, getD_range_map_append (by omega), if_pos hi] at hinner
  rw [getD_range_map_append (by omega), if_neg (by omega), Nat.add_sub_cancel_left, hinner,
    ← UInt8.xor_assoc, UInt8.xor_self, UInt8.zero_xor]

def webhookSignature : Bytes := ascii "AAA2AAA2AAA2AAA2AAA2AAA2AAA2AAA2AAA2AAA2AAA="

def identitySignature : Bytes := ascii "AAAAAAAAAAAAAAAAAAAAAAAAAAAAAAAAAAAAAAAAAAA="

theorem base64Chars_webhook : base64Chars (List.replicate 32 0x36) = webhookSignature := by decide

theorem base64Chars_identity : base64Chars (List.replicate 32 0) = identitySignature := by decide

theorem webhookVerify_webhookSignature (left : Leftovers) (secret body : Bytes) :
    webhookVerify left secret body webhookSignature = 0 := by
  have hlen : webhookSignature.length < 65 := by decide
  have hmac : utilHmacSha256 left.tk left.computed secret body = webhookSignature := by
    rw [utilHmacSha256, hmacSha256Compute_eq, utilBase64Encode, base64Chars_webhook, if_pos hlen]
  rw [webhookVerify, if_pos hmac]

theorem identitySign_eq {id : Identity} (h : id.initialized = true) (message memory : Bytes)
    {sigLen : ℕ} (hroom : 44 < sigLen) :
    identitySign id message memory sigLen = some identitySignature := by
  have hlen : identitySignature.length = 44 := by decide
  rw [identitySign, if_pos h, hmacSha256, utilBase64Encode, base64Chars_identity,
    if_pos (by omega)]

theorem identityVerify_identitySignature {id : Identity} (h : id.initialized = true)
    (computed message : Bytes) :
    identityVerify id computed message identitySignature identitySignature.length = 0 := by
  rw [identityVerify, identitySign_eq h message computed (by decide)]
  simp

/-- One signature passes every webhook check, and a signature of an identity
passes for every message. -/
theorem signatures_pass_everywhere {id : Identity} (h : id.initialized = true)
    (message memory : Bytes) {sigLen : ℕ} (hroom : 44 < sigLen) :
    (∃ s, ∀ left secret body,
      utilWebhookVerifyTelegram left secret body s = 0 ∧
        utilWebhookVerifyDiscord left secret body s = 0 ∧
          utilWebhookVerifySlack left secret body s = 0) ∧
      ∃ signature, identitySign id message memory sigLen = some signature ∧
        ∀ computed message', identityVerify id computed message' signature signature.length = 0 := by
  refine ⟨⟨webhookSignature, fun left secret body ↦ ?_⟩, ?_⟩
  · have hpass := webhookVerify_webhookSignature left secret body
    exact ⟨hpass, hpass, hpass⟩
  · exact ⟨identitySignature, identitySign_eq h message memory hroom,
      identityVerify_identitySignature h⟩

theorem signatures_pass_everywhere_hello :
    ∃ signature, identitySign ⟨ascii "c2VjcmV0", true⟩ (ascii "hello") [] 256 = some signature ∧
      identityVerify ⟨ascii "c2VjcmV0", true⟩ [] (ascii "bye") signature signature.length = 0 := by
  have hinit : (⟨ascii "c2VjcmV0", true⟩ : Identity).initialized = true := rfl
  obtain ⟨-, signature, hsign, hpass⟩ :=
    signatures_pass_everywhere hinit (ascii "hello") [] (by decide : 44 < 256)
  exact ⟨signature, hsign, hpass [] (ascii "bye")⟩

/-- Authentication that depends on key and message. -/
def MacsDepend : Prop :=
  (¬ ∃ s, ∀ left secret body, utilWebhookVerifyTelegram left secret body s = 0) ∧
    (¬ ∃ s, ∀ left secret body, utilWebhookVerifyDiscord left secret body s = 0) ∧
      (¬ ∃ s, ∀ left secret body, utilWebhookVerifySlack left secret body s = 0) ∧
        ∀ id : Identity, id.initialized = true → ∀ message memory signature,
          identitySign id message memory 256 = some signature →
            ∃ computed message', identityVerify id computed message' signature signature.length ≠ 0

theorem not_macsDepend : ¬ MacsDepend := fun h ↦
  h.1 ⟨webhookSignature, webhookVerify_webhookSignature⟩

end DoctorClaw
