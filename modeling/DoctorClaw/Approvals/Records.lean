import DoctorClaw.Approvals

/-!
# What the requests record

The manager does keep what a check would need.  In a history whose ids are
different, whose actions fit their field and whose clock does not pass `now`,
an action is granted at `now` exactly when a request for it is on file that is
approved and not expired.
-/

namespace DoctorClaw

/-! ## The requests on file -/

theorem Approvals.active_request {mgr : Approvals} (h : mgr.requestCount < maxRequests)
    (action : Bytes) (reason : Option Bytes) (r₁ r₂ : UInt32) (now : UInt64) :
    ∃ old : ApprovalRequest, (mgr.step (.request action reason r₁ r₂ now)).active =
      mgr.active ++ [old.fill action reason r₁ r₂ now] := by
  have hlt : mgr.requestCount < mgr.requests.length := mgr.length_requests ▸ h
  refine ⟨mgr.requests.get ⟨mgr.requestCount, hlt⟩, ?_⟩
  rw [step, approvalRequest, dif_pos h]
  change (mgr.requests.set _ _).take (mgr.requestCount + 1) = _
  rw [List.take_add_one, List.take_set_of_le le_rfl, List.getElem?_set_self hlt]
  rfl

theorem Approvals.step_request_of_full {mgr : Approvals} (h : ¬ mgr.requestCount < maxRequests)
    (action : Bytes) (reason : Option Bytes) (r₁ r₂ : UInt32) (now : UInt64) :
    mgr.step (.request action reason r₁ r₂ now) = mgr := by
  rw [step, approvalRequest, dif_neg h]
  rfl

def ApprovalRequest.answer (requestId : Bytes) (approved : Bool) (req : ApprovalRequest) :
    ApprovalRequest :=
  if req.requestId = requestId then { req with status := if approved then .approved else .denied }
  else req

theorem modify_findIdx?_eq_map {l : List ApprovalRequest} {requestId : Bytes} {approved : Bool}
    {i : ℕ} (hnodup : (l.map ApprovalRequest.requestId).Nodup)
    (hfind : (l.findIdx? fun req ↦ req.requestId == requestId) = some i) :
    (l.modify i fun req ↦ { req with status := if approved then .approved else .denied }) =
      l.map (.answer requestId approved) := by
  induction l generalizing i with
  | nil => simp at hfind
  | cons req l ih =>
      obtain ⟨hnot, hnodup⟩ := List.nodup_cons.mp hnodup
      rw [List.findIdx?_cons] at hfind
      split_ifs at hfind with hid
      · obtain rfl := Option.some.inj hfind
        have hid : req.requestId = requestId := by simpa using hid
        have hrest : l.map (.answer requestId approved) = l := by
          refine (List.map_congr_left fun other hother ↦ ?_).trans (List.map_id _)
          have hne : other.requestId ≠ requestId := fun heq ↦
            hnot (List.mem_map.mpr ⟨other, hother, heq.trans hid.symm⟩)
          rw [ApprovalRequest.answer, if_neg hne]
          rfl
        rw [List.modify_zero_cons, List.map_cons, hrest, ApprovalRequest.answer, if_pos hid]
      · obtain ⟨j, hj, rfl⟩ := Option.map_eq_some_iff.mp hfind
        have hne : req.requestId ≠ requestId := by simpa using hid
        rw [List.modify_succ_cons, List.map_cons, ih hnodup hj, ApprovalRequest.answer, if_neg hne]

theorem Approvals.active_respond {mgr : Approvals}
    (hnodup : (mgr.active.map ApprovalRequest.requestId).Nodup) (requestId : Bytes)
    (approved : Bool) : (mgr.step (.respond requestId approved)).active =
      mgr.active.map (.answer requestId approved) := by
  rw [step, approvalRespond]
  cases hfind : mgr.active.findIdx? fun req ↦ req.requestId == requestId with
  | none =>
      refine ((List.map_congr_left fun req hreq ↦ ?_).trans (List.map_id _)).symm
      have hne : req.requestId ≠ requestId := by
        simpa using List.findIdx?_eq_none_iff.mp hfind req hreq
      rw [ApprovalRequest.answer, if_neg hne]
      rfl
  | some i =>
      rw [← modify_findIdx?_eq_map hnodup hfind]
      exact List.take_modify _ _ _ _

theorem Approvals.active_clearExpired (mgr : Approvals) (now : UInt64) :
    (mgr.step (.clearExpired now)).active = mgr.active.filter fun req ↦ now < req.expiresAt :=
  List.take_left

/-! ## Requests in a history -/

def ApprovalEvent.requestId : ApprovalEvent → Option Bytes
  | .request _ _ r₁ r₂ _ => some (makeRequestId r₁ r₂)
  | _ => none

/-- The ids differ, the actions fit and nothing is cleared after `now`. -/
structure Orderly (evs : List ApprovalEvent) (now : UInt64) : Prop where
  nodup_requestId : (evs.filterMap ApprovalEvent.requestId).Nodup
  action_lt : ∀ action reason r₁ r₂ t, .request action reason r₁ r₂ t ∈ evs → action.length < 128
  clear_le : ∀ t, .clearExpired t ∈ evs → t ≤ now

/-- An accepted request, and the last answer to it. -/
def Filed (evs : List ApprovalEvent) (action requestId : Bytes) (expiresAt : UInt64)
    (answer : Option Bool) : Prop :=
  ∃ pre reason r₁ r₂ created post, evs = pre ++ .request action reason r₁ r₂ created :: post ∧
    (approvalsAfter pre).requestCount < maxRequests ∧ makeRequestId r₁ r₂ = requestId ∧
      created + 300 = expiresAt ∧ lastAnswer requestId post = answer

theorem lastAnswer_concat (requestId : Bytes) (evs : List ApprovalEvent) (ev : ApprovalEvent) :
    lastAnswer requestId (evs ++ [ev]) =
      (lastAnswer requestId [ev]).or (lastAnswer requestId evs) := by
  induction evs with
  | nil => simp [lastAnswer]
  | cons first evs ih =>
      cases first with
      | respond id approved => simp [lastAnswer, ih, Option.or_assoc]
      | request action reason r₁ r₂ now => simpa [lastAnswer] using ih
      | clearExpired now => simpa [lastAnswer] using ih

theorem filed_concat_iff {evs : List ApprovalEvent} {ev : ApprovalEvent} {action requestId : Bytes}
    {expiresAt : UInt64} {answer : Option Bool} :
    Filed (evs ++ [ev]) action requestId expiresAt answer ↔
      (∃ old, Filed evs action requestId expiresAt old ∧
        (lastAnswer requestId [ev]).or old = answer) ∨
      ∃ reason r₁ r₂ created, ev = .request action reason r₁ r₂ created ∧
        (approvalsAfter evs).requestCount < maxRequests ∧ makeRequestId r₁ r₂ = requestId ∧
          created + 300 = expiresAt ∧ answer = none := by
  constructor
  · rintro ⟨pre, reason, r₁, r₂, created, post, heq, hroom, hid, hexp, hanswer⟩
    rcases List.eq_nil_or_concat post with rfl | ⟨post, last, rfl⟩
    · obtain ⟨rfl, hev⟩ := List.append_inj' heq rfl
      exact .inr ⟨reason, r₁, r₂, created, List.head_eq_of_cons_eq hev, hroom, hid, hexp,
        hanswer.symm⟩
    · rw [List.concat_eq_append, ← List.cons_append, ← List.append_assoc] at heq
      obtain ⟨rfl, hlast⟩ := List.append_inj' heq rfl
      rw [List.concat_eq_append, lastAnswer_concat, ← hlast] at hanswer
      exact .inl ⟨_, ⟨pre, reason, r₁, r₂, created, post, rfl, hroom, hid, hexp, rfl⟩, hanswer⟩
  · rintro (⟨old, ⟨pre, reason, r₁, r₂, created, post, rfl, hroom, hid, hexp, rfl⟩, rfl⟩ |
      ⟨reason, r₁, r₂, created, rfl, hroom, hid, hexp, rfl⟩)
    · refine ⟨pre, reason, r₁, r₂, created, post ++ [ev], ?_, hroom, hid, hexp,
        lastAnswer_concat _ _ _⟩
      simp
    · exact ⟨evs, reason, r₁, r₂, created, [], rfl, hroom, hid, hexp, rfl⟩

theorem granted_iff_filed {evs : List ApprovalEvent} {action : Bytes} {now : UInt64} :
    Granted evs action now ↔
      ∃ requestId expiresAt, now < expiresAt ∧
        Filed evs action requestId expiresAt (some true) := by
  constructor
  · rintro ⟨pre, reason, r₁, r₂, created, post, rfl, hroom, hnow, hanswer⟩
    exact ⟨_, _, hnow, pre, reason, r₁, r₂, created, post, rfl, hroom, rfl, rfl, hanswer⟩
  · rintro ⟨_, _, hnow, pre, reason, r₁, r₂, created, post, rfl, hroom, rfl, rfl, hanswer⟩
    exact ⟨pre, reason, r₁, r₂, created, post, rfl, hroom, hnow, hanswer⟩

/-! ## The record -/

def statusOf : Option Bool → ApprovalStatus
  | none => .pending
  | some true => .approved
  | some false => .denied

theorem statusOf_injective : Function.Injective statusOf := by
  rintro (- | - | -) (- | - | -) h <;> first | rfl | cases h

/-- A request on file for this action, with this id, time and status. -/
def Approvals.Holds (mgr : Approvals) (action requestId : Bytes) (expiresAt : UInt64)
    (status : ApprovalStatus) : Prop :=
  ∃ req ∈ mgr.active, req.requestId = requestId ∧ req.action = action ∧
    req.expiresAt = expiresAt ∧ req.status = status

/-- The requests on file are those of the history that can still matter. -/
structure Recorded (evs : List ApprovalEvent) (mgr : Approvals) (now : UInt64) : Prop where
  sublist : (mgr.active.map ApprovalRequest.requestId).Sublist
    (evs.filterMap ApprovalEvent.requestId)
  status_mem : ∀ req ∈ mgr.active, ∃ answer, req.status = statusOf answer
  filed_iff : ∀ action requestId expiresAt answer, now < expiresAt →
    (Filed evs action requestId expiresAt answer ↔
      mgr.Holds action requestId expiresAt (statusOf answer))

section Step

variable {evs : List ApprovalEvent} {now : UInt64}

theorem Recorded.request (h : Recorded evs (approvalsAfter evs) now) {action : Bytes}
    (haction : action.length < 128) (reason : Option Bytes) (r₁ r₂ : UInt32) (t : UInt64) :
    Recorded (evs ++ [.request action reason r₁ r₂ t])
      ((approvalsAfter evs).step (.request action reason r₁ r₂ t)) now := by
  have hids : (evs ++ [ApprovalEvent.request action reason r₁ r₂ t]).filterMap
      ApprovalEvent.requestId = evs.filterMap ApprovalEvent.requestId ++ [makeRequestId r₁ r₂] := by
    rw [List.filterMap_append]
    rfl
  by_cases hroom : (approvalsAfter evs).requestCount < maxRequests
  · obtain ⟨old, hactive⟩ := Approvals.active_request hroom action reason r₁ r₂ t
    have hfits : CString.cut 128 action = action := CString.cut_of_lt haction
    refine ⟨?_, ?_, fun action' requestId expiresAt answer hnow ↦ ?_⟩
    · rw [hids, hactive, List.map_append]
      exact h.sublist.append (List.Sublist.refl _)
    · intro req hreq
      rw [hactive, List.mem_append, List.mem_singleton] at hreq
      rcases hreq with hreq | rfl
      · exact h.status_mem req hreq
      · exact ⟨none, rfl⟩
    · have hold := h.filed_iff action' requestId expiresAt answer hnow
      rw [filed_concat_iff, Approvals.Holds, hactive]
      simp only [lastAnswer, Option.none_or, exists_eq_right, List.mem_append, List.mem_singleton,
        or_and_right, exists_or, exists_eq_left]
      rw [hold]
      refine or_congr Iff.rfl ?_
      constructor
      · rintro ⟨_, _, _, _, heq, -, rfl, rfl, rfl⟩
        cases heq
        exact ⟨rfl, hfits, rfl, rfl⟩
      · rintro ⟨hid, haction', hexp, hstatus⟩
        refine ⟨reason, r₁, r₂, t, ?_, hroom, hid, hexp, statusOf_injective hstatus.symm⟩
        rw [← haction', ApprovalRequest.fill, hfits]
  · rw [Approvals.step_request_of_full hroom]
    refine ⟨hids ▸ h.sublist.trans (List.sublist_append_left _ _), h.status_mem, ?_⟩
    intro action' requestId expiresAt answer hnow
    rw [filed_concat_iff, ← h.filed_iff action' requestId expiresAt answer hnow]
    simp [lastAnswer, hroom]

theorem ApprovalRequest.requestId_answer (requestId : Bytes) (approved : Bool)
    (req : ApprovalRequest) : (req.answer requestId approved).requestId = req.requestId := by
  unfold answer
  split_ifs <;> rfl

theorem ApprovalRequest.answer_of_eq {requestId : Bytes} {req : ApprovalRequest}
    (h : req.requestId = requestId) (approved : Bool) :
    req.answer requestId approved = { req with status := statusOf (some approved) } := by
  rw [answer, if_pos h]
  cases approved <;> rfl

theorem ApprovalRequest.answer_of_ne {requestId : Bytes} {req : ApprovalRequest}
    (h : req.requestId ≠ requestId) (approved : Bool) : req.answer requestId approved = req := by
  rw [answer, if_neg h]

section Answers

variable {mgr : Approvals} (hnodup : (mgr.active.map ApprovalRequest.requestId).Nodup)
  {action : Bytes} {expiresAt : UInt64} {status : ApprovalStatus}

include hnodup

theorem Approvals.holds_respond_self (requestId : Bytes) (approved : Bool) :
    (mgr.step (.respond requestId approved)).Holds action requestId expiresAt status ↔
      (∃ old, mgr.Holds action requestId expiresAt old) ∧ statusOf (some approved) = status := by
  rw [Holds, Approvals.active_respond hnodup]
  constructor
  · rintro ⟨req, hreq, hid, haction, hexp, hstatus⟩
    obtain ⟨old, hold, rfl⟩ := List.mem_map.mp hreq
    rw [ApprovalRequest.requestId_answer] at hid
    rw [ApprovalRequest.answer_of_eq hid] at haction hexp hstatus
    exact ⟨⟨old.status, old, hold, hid, haction, hexp, rfl⟩, hstatus⟩
  · rintro ⟨⟨_, req, hreq, hid, haction, hexp, -⟩, rfl⟩
    refine ⟨req.answer requestId approved, List.mem_map_of_mem hreq, ?_⟩
    rw [ApprovalRequest.answer_of_eq hid]
    exact ⟨hid, haction, hexp, rfl⟩

theorem Approvals.holds_respond_of_ne {requestId id : Bytes} (hne : requestId ≠ id)
    (approved : Bool) :
    (mgr.step (.respond requestId approved)).Holds action id expiresAt status ↔
      mgr.Holds action id expiresAt status := by
  rw [Holds, Approvals.active_respond hnodup]
  constructor
  · rintro ⟨req, hreq, hid, hrest⟩
    obtain ⟨old, hold, rfl⟩ := List.mem_map.mp hreq
    rw [ApprovalRequest.requestId_answer] at hid
    rw [ApprovalRequest.answer_of_ne fun heq ↦ hne (heq.symm.trans hid)] at hrest
    exact ⟨old, hold, hid, hrest⟩
  · rintro ⟨req, hreq, hid, hrest⟩
    refine ⟨req, ?_, hid, hrest⟩
    rw [← ApprovalRequest.answer_of_ne (fun heq ↦ hne (heq.symm.trans hid)) approved]
    exact List.mem_map_of_mem hreq

end Answers

theorem Recorded.respond {mgr : Approvals} (h : Recorded evs mgr now)
    (hnodup : (evs.filterMap ApprovalEvent.requestId).Nodup) (requestId : Bytes) (approved : Bool) :
    Recorded (evs ++ [.respond requestId approved]) (mgr.step (.respond requestId approved))
      now := by
  have hids := hnodup.sublist h.sublist
  have hactive := Approvals.active_respond hids requestId approved
  refine ⟨?_, ?_, fun action id expiresAt answer hnow ↦ ?_⟩
  · have hsame : ApprovalRequest.requestId ∘ ApprovalRequest.answer requestId approved =
        ApprovalRequest.requestId := funext (ApprovalRequest.requestId_answer requestId approved)
    rw [hactive, List.map_map, hsame, List.filterMap_append]
    exact h.sublist.trans (List.sublist_append_left _ _)
  · intro req hreq
    rw [hactive] at hreq
    obtain ⟨old, hold, rfl⟩ := List.mem_map.mp hreq
    by_cases hid : old.requestId = requestId
    · exact ⟨some approved, by rw [ApprovalRequest.answer_of_eq hid]⟩
    · rw [ApprovalRequest.answer_of_ne hid]
      exact h.status_mem old hold
  · rw [filed_concat_iff, or_iff_left (by simp)]
    simp only [lastAnswer, Option.none_or]
    split_ifs with hid
    · subst hid
      rw [Approvals.holds_respond_self hids, statusOf_injective.eq_iff]
      constructor
      · rintro ⟨old, hfiled, rfl⟩
        exact ⟨⟨_, (h.filed_iff _ _ _ _ hnow).mp hfiled⟩, rfl⟩
      · rintro ⟨⟨_, req, hreq, hid, haction, hexp, -⟩, rfl⟩
        obtain ⟨old, hold⟩ := h.status_mem req hreq
        exact ⟨old, (h.filed_iff _ _ _ _ hnow).mpr ⟨req, hreq, hid, haction, hexp, hold⟩, rfl⟩
    · simp only [Option.none_or, exists_eq_right]
      rw [Approvals.holds_respond_of_ne hids hid]
      exact h.filed_iff _ _ _ _ hnow

theorem Recorded.clearExpired {mgr : Approvals} (h : Recorded evs mgr now) {t : UInt64}
    (ht : t ≤ now) :
    Recorded (evs ++ [.clearExpired t]) (mgr.step (.clearExpired t)) now := by
  have hactive := mgr.active_clearExpired t
  refine ⟨?_, ?_, fun action id expiresAt answer hnow ↦ ?_⟩
  · rw [hactive, List.filterMap_append]
    refine (List.Sublist.map _ List.filter_sublist).trans ?_
    exact h.sublist.trans (List.sublist_append_left _ _)
  · intro req hreq
    rw [hactive] at hreq
    exact h.status_mem req (List.mem_of_mem_filter hreq)
  · rw [filed_concat_iff, or_iff_left (by simp)]
    simp only [lastAnswer, Option.none_or, exists_eq_right, h.filed_iff _ _ _ _ hnow]
    -- What is cleared at `t` is expired at `now` too.
    refine exists_congr fun req ↦ ?_
    rw [hactive, List.mem_filter, and_assoc]
    refine and_congr_right fun _ ↦ (and_iff_right_of_imp ?_).symm
    rintro ⟨-, -, rfl, -⟩
    simpa using UInt64.lt_of_le_of_lt ht hnow

end Step

theorem Orderly.recorded {evs : List ApprovalEvent} {now : UInt64} (h : Orderly evs now) :
    Recorded evs (approvalsAfter evs) now := by
  induction evs using List.reverseRecOn with
  | nil =>
      refine ⟨List.Sublist.refl _, fun req hreq ↦ absurd hreq List.not_mem_nil, ?_⟩
      intro action requestId expiresAt answer _
      refine iff_of_false ?_ ?_
      · rintro ⟨pre, reason, r₁, r₂, created, post, heq, -⟩
        simp at heq
      · rintro ⟨req, hreq, -⟩
        exact absurd hreq List.not_mem_nil
  | append_singleton evs ev ih =>
      have hnodup : (evs.filterMap ApprovalEvent.requestId).Nodup := by
        have hall := h.nodup_requestId
        rw [List.filterMap_append] at hall
        exact (List.nodup_append.mp hall).1
      have hbefore : Recorded evs (approvalsAfter evs) now :=
        ih ⟨hnodup, fun action reason r₁ r₂ t hmem ↦
            h.action_lt action reason r₁ r₂ t (List.mem_append_left _ hmem),
          fun t hmem ↦ h.clear_le t (List.mem_append_left _ hmem)⟩
      rw [approvalsAfter, List.foldl_append, ← approvalsAfter]
      cases ev with
      | request action reason r₁ r₂ t =>
          exact hbefore.request (h.action_lt action reason r₁ r₂ t (by simp)) reason r₁ r₂ t
      | respond requestId approved => exact hbefore.respond hnodup requestId approved
      | clearExpired t => exact hbefore.clearExpired (h.clear_le t (by simp))

/-- The status of the requests on file tells which actions are granted. -/
theorem granted_iff_recorded {evs : List ApprovalEvent} {now : UInt64} (h : Orderly evs now)
    (action : Bytes) :
    Granted evs action now ↔
      ∃ req ∈ (approvalsAfter evs).active, req.action = action ∧ now < req.expiresAt ∧
        req.status = .approved := by
  rw [granted_iff_filed]
  constructor
  · rintro ⟨requestId, expiresAt, hnow, hfiled⟩
    obtain ⟨req, hreq, -, haction, rfl, hstatus⟩ := (h.recorded.filed_iff _ _ _ _ hnow).mp hfiled
    exact ⟨req, hreq, haction, hnow, hstatus⟩
  · rintro ⟨req, hreq, haction, hnow, hstatus⟩
    exact ⟨req.requestId, req.expiresAt, hnow,
      (h.recorded.filed_iff _ _ _ _ hnow).mpr ⟨req, hreq, rfl, haction, rfl, hstatus⟩⟩

end DoctorClaw
