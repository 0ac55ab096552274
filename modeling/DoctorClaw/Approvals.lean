import DoctorClaw.Tools.Gate

/-!
# Approval requests

`approval_request` files a request for an action, `approval_respond` answers
it and `approval_clear_expired` drops what is older than five minutes.  The
answers go into the status of the request, and this is all that is known of
them: `approval_check` reads the text `approved_actions`, which nothing ever
writes.
-/

namespace DoctorClaw

/-! ## Requests -/

inductive ApprovalStatus
  | pending | approved | denied | timeout
  deriving DecidableEq

structure ApprovalRequest where
  requestId : Bytes
  action : Bytes
  reason : Bytes
  status : ApprovalStatus
  createdAt : UInt64
  expiresAt : UInt64
  requiresConfirmation : Bool
  deriving DecidableEq

/-- A slot that `memset` has cleared. -/
def ApprovalRequest.zero : ApprovalRequest := ⟨[], [], [], .pending, 0, 0, false⟩

def maxRequests : ℕ := 32

/-- The manager of `approval.h`.  The first `requestCount` slots are in use;
the others keep what was last written there. -/
structure Approvals extends ApprovalManager where
  requests : List ApprovalRequest
  requestCount : ℕ
  length_requests : requests.length = maxRequests
  requestCount_le : requestCount ≤ maxRequests

def Approvals.init : Approvals where
  autoApproveEnabled := false
  approvedActions := []
  requests := List.replicate maxRequests .zero
  requestCount := 0
  length_requests := List.length_replicate
  requestCount_le := Nat.zero_le _

/-- The requests on file. -/
def Approvals.active (mgr : Approvals) : List ApprovalRequest := mgr.requests.take mgr.requestCount

/-- The format `%08x`. -/
def printWord (w : UInt32) : Bytes :=
  let digits := Decimal.printHex w.toNat
  List.replicate (8 - digits.length) 48 ++ digits

/-- What two calls of `rand` are made into. -/
def makeRequestId (r₁ r₂ : UInt32) : Bytes := CString.cut 64 (printWord r₁ ++ printWord r₂)

/-- What `approval_request` writes over the slot `old`; without a reason, the
old one stays. -/
def ApprovalRequest.fill (old : ApprovalRequest) (action : Bytes) (reason : Option Bytes)
    (r₁ r₂ : UInt32) (now : UInt64) : ApprovalRequest where
  requestId := makeRequestId r₁ r₂
  action := CString.cut 128 action
  reason := (reason.map (CString.cut 512)).getD old.reason
  status := .pending
  createdAt := now
  expiresAt := now + 300
  requiresConfirmation := true

/-- `none` is the return value -1. -/
def approvalRequest (mgr : Approvals) (action : Bytes) (reason : Option Bytes) (r₁ r₂ : UInt32)
    (now : UInt64) : Option (Approvals × ApprovalRequest) :=
  if h : mgr.requestCount < maxRequests then
    let old := mgr.requests.get ⟨mgr.requestCount, mgr.length_requests ▸ h⟩
    let req := old.fill action reason r₁ r₂ now
    some ({ mgr with
      requests := mgr.requests.set mgr.requestCount req
      requestCount := mgr.requestCount + 1
      length_requests := by rw [List.length_set, mgr.length_requests]
      requestCount_le := h }, req)
  else none

def approvalRespond (mgr : Approvals) (requestId : Bytes) (approved : Bool) : Approvals × ℤ :=
  match mgr.active.findIdx? fun req ↦ req.requestId == requestId with
  | none => (mgr, -1)
  | some i => ({ mgr with
      requests := mgr.requests.modify i fun req ↦
        { req with status := if approved then .approved else .denied }
      length_requests := by rw [List.length_modify, mgr.length_requests] }, 0)

/-- The requests that are kept move to the front; what lies behind them is not
overwritten. -/
def approvalClearExpired (mgr : Approvals) (now : UInt64) : Approvals :=
  let kept := mgr.active.filter fun req ↦ now < req.expiresAt
  have hkept : kept.length ≤ maxRequests := by
    have hfilter : kept.length ≤ mgr.active.length := List.length_filter_le _ _
    have htake : mgr.active.length ≤ mgr.requests.length := List.length_take_le' _ _
    exact hfilter.trans (htake.trans mgr.length_requests.le)
  { mgr with
    requests := kept ++ mgr.requests.drop kept.length
    requestCount := kept.length
    length_requests := by
      rw [List.length_append, List.length_drop, mgr.length_requests]
      omega
    requestCount_le := hkept }

/-! ## Histories -/

inductive ApprovalEvent
  | request (action : Bytes) (reason : Option Bytes) (r₁ r₂ : UInt32) (now : UInt64)
  | respond (requestId : Bytes) (approved : Bool)
  | clearExpired (now : UInt64)

def Approvals.step (mgr : Approvals) : ApprovalEvent → Approvals
  | .request action reason r₁ r₂ now =>
      ((approvalRequest mgr action reason r₁ r₂ now).map Prod.fst).getD mgr
  | .respond requestId approved => (approvalRespond mgr requestId approved).1
  | .clearExpired now => approvalClearExpired mgr now

/-- The manager after a history that starts from `approval_manager_init`. -/
def approvalsAfter (evs : List ApprovalEvent) : Approvals := evs.foldl Approvals.step .init

/-- The last answer to a request with this id. -/
def lastAnswer (requestId : Bytes) : List ApprovalEvent → Option Bool
  | [] => none
  | .respond id approved :: evs =>
      (lastAnswer requestId evs).or (if id = requestId then some approved else none)
  | _ :: evs => lastAnswer requestId evs

/-- An accepted request for exactly this action is not yet expired, and the
last answer to it is an approval. -/
def Granted (evs : List ApprovalEvent) (action : Bytes) (now : UInt64) : Prop :=
  ∃ pre reason r₁ r₂ created post, evs = pre ++ .request action reason r₁ r₂ created :: post ∧
    (approvalsAfter pre).requestCount < maxRequests ∧ now < created + 300 ∧
      lastAnswer (makeRequestId r₁ r₂) post = some true

/-- The action of the request that an answer to this id reaches. -/
def Approvals.answeredAction (mgr : Approvals) (requestId : Bytes) : Option Bytes :=
  (mgr.active.find? fun req ↦ req.requestId == requestId).map ApprovalRequest.action

/-- The check lets an action pass when it was granted, and an answer to a
request for another action does not change this. -/
structure ChecksAnswers (evs : List ApprovalEvent) (action : Bytes) (now : UInt64) : Prop where
  check_iff : approvalCheck (approvalsAfter evs).toApprovalManager action = true ↔
    Granted evs action now
  respond_other : ∀ requestId approved,
    (approvalsAfter evs).answeredAction requestId ≠ some action →
      approvalCheck (approvalsAfter (evs ++ [.respond requestId approved])).toApprovalManager
          action =
        approvalCheck (approvalsAfter evs).toApprovalManager action

/-! ## What the check reads -/

theorem Approvals.toApprovalManager_step (mgr : Approvals) (ev : ApprovalEvent) :
    (mgr.step ev).toApprovalManager = mgr.toApprovalManager := by
  cases ev with
  | request action reason r₁ r₂ now =>
      rw [step, approvalRequest]
      split <;> rfl
  | respond requestId approved =>
      rw [step, approvalRespond]
      split <;> rfl
  | clearExpired now => rfl

theorem toApprovalManager_approvalsAfter (evs : List ApprovalEvent) :
    (approvalsAfter evs).toApprovalManager = Approvals.init.toApprovalManager := by
  unfold approvalsAfter
  induction evs using List.reverseRecOn with
  | nil => rfl
  | append_singleton evs ev ih =>
      rw [List.foldl_append, List.foldl_cons, List.foldl_nil, Approvals.toApprovalManager_step, ih]

/-- Whatever was requested and answered, only the empty text passes. -/
theorem approvalCheck_approvalsAfter_iff (evs : List ApprovalEvent) (action : Bytes) :
    approvalCheck (approvalsAfter evs).toApprovalManager action = true ↔ action = [] := by
  rw [toApprovalManager_approvalsAfter, approvalCheck]
  simp [Approvals.init, CString.strstr_isSome_iff]

/-- The check answers as it should for a named action exactly as long as no
request for it is granted, and for the empty one exactly when one is. -/
theorem checksAnswers_iff (evs : List ApprovalEvent) (action : Bytes) (now : UInt64) :
    ChecksAnswers evs action now ↔ (action = [] ↔ Granted evs action now) := by
  constructor
  · intro h
    rw [← approvalCheck_approvalsAfter_iff evs]
    exact h.check_iff
  · intro h
    refine ⟨(approvalCheck_approvalsAfter_iff evs action).trans h, fun requestId approved _ ↦ ?_⟩
    rw [toApprovalManager_approvalsAfter, toApprovalManager_approvalsAfter]

/-- An approved request for a shell does not let the shell pass. -/
theorem not_checksAnswers_shell :
    ¬ ChecksAnswers [.request (ascii "shell") none 1 2 1000, .respond (makeRequestId 1 2) true]
      (ascii "shell") 1000 := by
  intro h
  have hgranted : Granted [.request (ascii "shell") none 1 2 1000,
      .respond (makeRequestId 1 2) true] (ascii "shell") 1000 :=
    ⟨[], none, 1, 2, 1000, [.respond (makeRequestId 1 2) true], rfl, by decide, by decide, by
      simp [lastAnswer]⟩
  have hempty := (approvalCheck_approvalsAfter_iff _ _).mp (h.check_iff.mpr hgranted)
  exact absurd hempty (by decide)

end DoctorClaw
