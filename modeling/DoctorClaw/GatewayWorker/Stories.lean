import DoctorClaw.GatewayWorker
import DoctorClaw.HandleRequest.Framing
import DoctorClaw.Observability

/-!
# What every thread of the gateway does

Whatever the other threads do in between, the events of one thread tell one of
three stories: the request is let through, handled and answered; it is let
through and becomes a WebSocket session; or it is refused, audited, reported
and answered.  So a refused request never reaches `handle_request`, and no
request is answered twice.
-/

namespace DoctorClaw

open Transition

/-! ## Stories -/

/-- What a client sends. -/
structure Visit where
  ip : Bytes
  raw : Bytes
  inOrder : Bool

namespace Visit

variable (v : Visit)

def clientIp : Bytes := CString.cut 64 v.ip

def req : HttpRequest := parseHttpRequest v.inOrder v.raw

def request : Request := ⟨v.clientIp, v.req.method, v.req.path, v.req.body⟩

end Visit

section Story

variable {V : Type} (ops : DoubleOps V) (config : SecurityMonitorConfig) (id : ℕ) (v : Visit)

/-- The connection is counted, and may look like a probe. -/
inductive Opened : List GatewayEvent → Prop
  | quiet : Opened [.accept id v.ip v.raw, .connection id]
  | probe (now : UInt64) :
      Opened [.accept id v.ip v.raw, .connection id, .probe id ((probeCall v.clientIp).record now),
        .clear id]

/-- What the security monitor says of the request in some state of its table. -/
def Checked (now : ℕ) (verdict : SecmonResult) (reason : Bytes) : Prop :=
  ∃ m : SecurityMonitor, m.config = config ∧
    (securityMonitorCheckRequest m now v.request).1 = (verdict, reason)

/-- Both monitors let the request through. -/
def Passed (now : ℕ) : Prop :=
  (∃ reason, Checked config v now .ok reason) ∧
    (idsCheck idsInitDefaults v.req.path v.req.body).1 = .ok

/-- The request is refused by one of the two monitors. -/
inductive Refused : Refusal → List GatewayEvent → Prop
  | rejected {told : List GatewayEvent} (hopen : Opened id v told) {now : ℕ}
      {verdict : SecmonResult} {reason : Bytes} (hcheck : Checked config v now verdict reason)
      (hverdict : verdict ≠ .ok) :
      Refused (secmonRefusal v.req verdict reason)
        (told ++ .check id now v.request verdict :: verdict.metric.toList.map (.metric id))
  | alerted {told : List GatewayEvent} (hopen : Opened id v told) {now : ℕ} {passed : Bytes}
      (hcheck : Checked config v now .ok passed) {verdict : IdsResult} {reason : Bytes}
      (hids : idsCheck idsInitDefaults v.req.path v.req.body = (verdict, reason))
      (hverdict : verdict ≠ .ok) :
      Refused (idsRefusal v.req reason)
        (told ++ [.check id now v.request .ok, .ids id verdict])

def auditEvent (r : Refusal) : GatewayEvent :=
  .audit id (auditReject r.code v.clientIp v.req r.reason).1
    (auditReject r.code v.clientIp v.req r.reason).2

/-- The whole of a thread. -/
inductive Story : List GatewayEvent → Prop
  | served {told : List GatewayEvent} (hopen : Opened id v told) {now : ℕ}
      (hpassed : Passed config v now) (hplain : ¬ v.req.upgrades) (env : GatewayEnv V) :
      Story (told ++ [.check id now v.request .ok, .ids id .ok, .count id, .handle id,
        .respond id (buildHttpResponse (handleCounted ops env v.req) 131072)])
  | session {told : List GatewayEvent} (hopen : Opened id v told) {now : ℕ}
      (hpassed : Passed config v now) (hupgrade : v.req.upgrades) (stack : ℕ → UInt8)
      (decoded : ℕ → Bytes) (received : List Bytes) :
      Story (told ++ [.check id now v.request .ok, .ids id .ok,
        .session id (sessionFrames stack decoded v.req received)])
  | refused {r : Refusal} {told : List GatewayEvent} (hrefused : Refused config id v r told)
      (now : UInt64) :
      Story (told ++ [auditEvent id v r, .notify id ((r.call v.clientIp).record now),
        .respond id (buildHttpResponse r.resp 131072)])

/-- What has happened when the thread is in the phase. -/
def Told (mine : List GatewayEvent) : Phase → Prop
  | .connection => mine = [.accept id v.ip v.raw]
  | .probe _ => mine = [.accept id v.ip v.raw, .connection id]
  | .clear _ => ∃ now, mine = [.accept id v.ip v.raw, .connection id,
      .probe id ((probeCall v.clientIp).record now)]
  | .check => Opened id v mine
  | .metric name r => ∃ told now verdict reason, Opened id v told ∧
      Checked config v now verdict reason ∧ verdict ≠ .ok ∧ verdict.metric = some name ∧
      r = secmonRefusal v.req verdict reason ∧ mine = told ++ [.check id now v.request verdict]
  | .ids => ∃ told now reason, Opened id v told ∧ Checked config v now .ok reason ∧
      mine = told ++ [.check id now v.request .ok]
  | .audit r => Refused config id v r mine
  | .notify r => ∃ told, Refused config id v r told ∧ mine = told ++ [auditEvent id v r]
  | .count => ∃ told now, Opened id v told ∧ Passed config v now ∧
      mine = told ++ [.check id now v.request .ok, .ids id .ok]
  | .handle => ¬ v.req.upgrades ∧ ∃ told now, Opened id v told ∧ Passed config v now ∧
      mine = told ++ [.check id now v.request .ok, .ids id .ok, .count id]
  | .respond resp =>
      (¬ v.req.upgrades ∧ ∃ told now env, Opened id v told ∧ Passed config v now ∧
          resp = handleCounted ops env v.req ∧
          mine = told ++ [.check id now v.request .ok, .ids id .ok, .count id, .handle id]) ∨
        ∃ r told now, Refused config id v r told ∧ resp = r.resp ∧
          mine = told ++ [auditEvent id v r, .notify id ((r.call v.clientIp).record now)]
  | .closed => Story ops config id v mine

end Story

/-! ## Answers -/

section Answers

variable {V : Type} {ops : DoubleOps V} {config : SecurityMonitorConfig} {id : ℕ} {v : Visit}
  {told mine : List GatewayEvent}

theorem cleanHead_refused (limited : Bool) :
    (if limited then HttpResponse.zero.withHead 429 "Too Many Requests" "application/json"
      else HttpResponse.zero.withHead 400 "Bad Request" "application/json").CleanHead := by
  cases limited <;> constructor <;> decide

theorem sendable_rejection (reason fallback : Bytes) :
    ((rejection reason fallback).filled 400 "Bad Request").Sendable :=
  sendable_answer (cleanHead_refused false) (c := 123) rfl (by decide)

theorem sendable_secmonRefusal (req : HttpRequest) (verdict : SecmonResult) (reason : Bytes) :
    (secmonRefusal req verdict reason).resp.Sendable := by
  rw [secmonRefusal]
  dsimp only
  split_ifs
  · exact sendable_answer (cleanHead_refused true) (c := 123) rfl (by decide)
  · exact sendable_rejection _ _

theorem Refused.sendable {r : Refusal} (h : Refused config id v r told) : r.resp.Sendable := by
  cases h with
  | rejected => exact sendable_secmonRefusal _ _ _
  | alerted => exact sendable_rejection _ _

theorem sendable_handleCounted (ops : DoubleOps V) (env : GatewayEnv V) (req : HttpRequest) :
    (handleCounted ops env req).Sendable := by
  rw [handleCounted]
  split_ifs
  · exact sendable_handleMetrics ops _
  · exact sendable_handleRequest ops env req

/-- Every answer is complete. -/
theorem Story.framed {story : List GatewayEvent} (h : Story ops config id v story) {sent : Bytes}
    (hsent : .respond id sent ∈ story) : ∃ body, Framed sent body := by
  have hopened : ∀ told, Opened id v told → GatewayEvent.respond id sent ∉ told := by
    intro told hopen
    cases hopen <;> simp
  have hlast : ∀ resp : HttpResponse, resp.Sendable → sent = buildHttpResponse resp 131072 →
      ∃ body, Framed sent body := by
    rintro resp hresp rfl
    exact ⟨_, framed_buildHttpResponse hresp⟩
  cases h with
  | @served told hopen now hpassed hplain env =>
      exact hlast _ (sendable_handleCounted ops env v.req)
        (by simpa [hopened told hopen] using hsent)
  | @session told hopen => exact absurd hsent (by simp [hopened told hopen])
  | @refused r told hrefused now =>
      refine hlast _ hrefused.sendable ?_
      have hnone : GatewayEvent.respond id sent ∉ told := by
        cases hrefused with
        | @rejected told hopen => simp [hopened told hopen]
        | @alerted told hopen => simp [hopened told hopen]
      simpa [hnone, auditEvent] using hsent

end Answers

/-! ## The next event -/

section Next

variable {V : Type} {ops : DoubleOps V} {config : SecurityMonitorConfig} {id : ℕ} {v : Visit}
  {mine : List GatewayEvent}

theorem Told.connection (h : Told ops config id v mine .connection) (full : Option ℕ) :
    Told ops config id v (mine ++ [.connection id]) (full.elim .check .probe) := by
  obtain rfl := h
  cases full with
  | none => exact Opened.quiet
  | some i => rfl

theorem Told.probe {i : ℕ} (h : Told ops config id v mine (.probe i)) (now : UInt64) :
    Told ops config id v (mine ++ [.probe id ((probeCall v.clientIp).record now)]) (.clear i) := by
  obtain rfl := h
  exact ⟨now, rfl⟩

theorem Told.clear {i : ℕ} (h : Told ops config id v mine (.clear i)) :
    Told ops config id v (mine ++ [.clear id]) .check := by
  obtain ⟨now, rfl⟩ := h
  exact Opened.probe now

theorem Told.check (h : Told ops config id v mine .check) {now : ℕ} {verdict : SecmonResult}
    {reason : Bytes} (hcheck : Checked config v now verdict reason) :
    Told ops config id v (mine ++ [.check id now v.request verdict])
      (secmonPhase v.req verdict reason) := by
  rw [secmonPhase]
  by_cases hverdict : verdict = .ok
  · subst hverdict
    exact ⟨mine, now, reason, h, hcheck, rfl⟩
  · rw [if_neg hverdict]
    have hrefused := Refused.rejected h hcheck hverdict
    cases hmetric : verdict.metric with
    | none =>
        rw [hmetric] at hrefused
        exact hrefused
    | some name => exact ⟨mine, now, verdict, reason, h, hcheck, hverdict, hmetric, rfl, rfl⟩

theorem Told.metric {name : Bytes} {r : Refusal}
    (h : Told ops config id v mine (.metric name r)) :
    Told ops config id v (mine ++ [.metric id name]) (.audit r) := by
  obtain ⟨told, now, verdict, reason, hopen, hcheck, hverdict, hmetric, rfl, rfl⟩ := h
  have hrefused := Refused.rejected hopen hcheck hverdict
  rw [hmetric] at hrefused
  rw [List.append_assoc]
  exact hrefused

theorem Told.ids (h : Told ops config id v mine .ids) {verdict : IdsResult} {reason : Bytes}
    (hids : idsCheck idsInitDefaults v.req.path v.req.body = (verdict, reason)) :
    Told ops config id v (mine ++ [.ids id verdict]) (idsPhase v.req verdict reason) := by
  obtain ⟨told, now, passed, hopen, hcheck, rfl⟩ := h
  rw [List.append_assoc, idsPhase]
  split_ifs with hverdict
  · subst hverdict
    exact ⟨told, now, hopen, ⟨⟨passed, hcheck⟩, congrArg Prod.fst hids⟩, rfl⟩
  · exact Refused.alerted hopen hcheck hids hverdict

theorem Told.audit {r : Refusal} (h : Told ops config id v mine (.audit r))
    {action target : Bytes}
    (haudit : auditReject r.code v.clientIp v.req r.reason = (action, target)) :
    Told ops config id v (mine ++ [.audit id action target]) (.notify r) := by
  refine ⟨mine, h, ?_⟩
  rw [auditEvent, haudit]

theorem Told.notify {r : Refusal} (h : Told ops config id v mine (.notify r)) (now : UInt64) :
    Told ops config id v (mine ++ [.notify id ((r.call v.clientIp).record now)])
      (.respond r.resp) := by
  obtain ⟨told, hrefused, rfl⟩ := h
  refine .inr ⟨r, told, now, hrefused, rfl, ?_⟩
  rw [List.append_assoc]
  rfl

theorem Told.count (h : Told ops config id v mine .count) (hplain : ¬ v.req.upgrades) :
    Told ops config id v (mine ++ [.count id]) .handle := by
  obtain ⟨told, now, hopen, hpassed, rfl⟩ := h
  refine ⟨hplain, told, now, hopen, hpassed, ?_⟩
  rw [List.append_assoc]
  rfl

theorem Told.handle (h : Told ops config id v mine .handle) (env : GatewayEnv V) :
    Told ops config id v (mine ++ [.handle id]) (.respond (handleCounted ops env v.req)) := by
  obtain ⟨hplain, told, now, hopen, hpassed, rfl⟩ := h
  refine .inl ⟨hplain, told, now, env, hopen, hpassed, rfl, ?_⟩
  rw [List.append_assoc]
  rfl

theorem Told.session (h : Told ops config id v mine .count) (hupgrade : v.req.upgrades)
    (stack : ℕ → UInt8) (decoded : ℕ → Bytes) (received : List Bytes) :
    Told ops config id v (mine ++ [.session id (sessionFrames stack decoded v.req received)])
      .closed := by
  obtain ⟨told, now, hopen, hpassed, rfl⟩ := h
  rw [List.append_assoc]
  exact Story.session hopen hpassed hupgrade stack decoded received

theorem Told.respond {resp : HttpResponse} (h : Told ops config id v mine (.respond resp)) :
    Told ops config id v (mine ++ [.respond id (buildHttpResponse resp 131072)]) .closed := by
  obtain ⟨hplain, told, now, env, hopen, hpassed, rfl, rfl⟩ |
    ⟨r, told, now, hrefused, rfl, rfl⟩ := h
  · rw [List.append_assoc]
    exact Story.served hopen hpassed hplain env
  · rw [List.append_assoc]
    exact Story.refused hrefused now

end Next

/-! ## Every story can be finished -/

section Finish

variable {V : Type} (ops : DoubleOps V) {config : SecurityMonitorConfig} {id : ℕ} {v : Visit}
  {told mine : List GatewayEvent}

theorem Passed.finish (env : GatewayEnv V) {now : ℕ} (h : Passed config v now)
    (hopen : Opened id v told) :
    ∃ rest, Story ops config id v
      (told ++ [.check id now v.request .ok, .ids id .ok] ++ rest) := by
  by_cases hupgrade : v.req.upgrades
  · refine ⟨[.session id (sessionFrames (fun _ ↦ 0) (fun _ ↦ []) v.req [])], ?_⟩
    rw [List.append_assoc]
    exact .session hopen h hupgrade _ _ _
  · refine ⟨[.count id, .handle id,
      .respond id (buildHttpResponse (handleCounted ops env v.req) 131072)], ?_⟩
    rw [List.append_assoc]
    exact .served hopen h hupgrade env

/-- The intrusion detection decides. -/
theorem Checked.finish (env : GatewayEnv V) {now : ℕ} {reason : Bytes}
    (h : Checked config v now .ok reason) (hopen : Opened id v told) :
    ∃ story, Story ops config id v story ∧ told ++ [.check id now v.request .ok] <+: story := by
  obtain ⟨verdict, alert, hids⟩ : ∃ verdict alert,
    idsCheck idsInitDefaults v.req.path v.req.body = (verdict, alert) := ⟨_, _, rfl⟩
  by_cases hverdict : verdict = .ok
  · have hpassed : Passed config v now := ⟨⟨reason, h⟩, by rw [hids, hverdict]⟩
    obtain ⟨rest, hstory⟩ := hpassed.finish ops env hopen
    refine ⟨_, hstory, ?_⟩
    rw [List.append_assoc]
    exact (List.prefix_append_right_inj _).mpr (List.prefix_append [_] _)
  · refine ⟨_, .refused (.alerted hopen h hids hverdict) 0, ?_⟩
    rw [List.append_assoc]
    exact (List.prefix_append_right_inj _).mpr (List.prefix_append [_] _)

theorem Opened.finish (env : GatewayEnv V) (h : Opened id v told) (hmine : mine <+: told) :
    ∃ story, Story ops config id v story ∧ mine <+: story := by
  obtain ⟨verdict, reason, hcheck⟩ : ∃ verdict reason, Checked config v 0 verdict reason :=
    ⟨_, _, securityMonitorInit config, rfl, rfl⟩
  by_cases hverdict : verdict = .ok
  · subst hverdict
    obtain ⟨story, hstory, hprefix⟩ := hcheck.finish ops env h
    exact ⟨story, hstory, hmine.trans ((List.prefix_append _ _).trans hprefix)⟩
  · refine ⟨_, .refused (.rejected h hcheck hverdict) 0, hmine.trans ?_⟩
    rw [List.append_assoc]
    exact List.prefix_append _ _

theorem Told.finish (env : GatewayEnv V) {phase : Phase}
    (h : Told ops config id v mine phase) :
    ∃ story, Story ops config id v story ∧ mine <+: story := by
  cases phase with
  | connection =>
      obtain rfl := h
      exact Opened.quiet.finish ops env (List.prefix_append [_] [_])
  | probe i =>
      obtain rfl := h
      exact Opened.quiet.finish ops env List.prefix_rfl
  | clear i =>
      obtain ⟨now, rfl⟩ := h
      exact (Opened.probe now).finish ops env (List.prefix_append [_, _, _] [_])
  | check => exact Opened.finish ops env h List.prefix_rfl
  | metric name r =>
      obtain ⟨told, now, verdict, reason, hopen, hcheck, hverdict, hmetric, rfl, rfl⟩ := h
      refine ⟨_, .refused (.rejected hopen hcheck hverdict) 0, ?_⟩
      rw [List.append_assoc]
      exact (List.prefix_append_right_inj _).mpr (List.prefix_append [_] _)
  | ids =>
      obtain ⟨told, now, reason, hopen, hcheck, rfl⟩ := h
      exact hcheck.finish ops env hopen
  | audit r => exact ⟨_, .refused h 0, List.prefix_append _ _⟩
  | notify r =>
      obtain ⟨told, hrefused, rfl⟩ := h
      exact ⟨_, .refused hrefused 0, (List.prefix_append_right_inj _).mpr (List.prefix_append [_] _)⟩
  | count =>
      obtain ⟨told, now, hopen, hpassed, rfl⟩ := h
      obtain ⟨rest, hstory⟩ := hpassed.finish ops env hopen
      exact ⟨_, hstory, List.prefix_append _ _⟩
  | handle =>
      obtain ⟨hplain, told, now, hopen, hpassed, rfl⟩ := h
      exact ⟨_, .served hopen hpassed hplain env,
        (List.prefix_append_right_inj _).mpr (List.prefix_append [_, _, _] _)⟩
  | respond resp =>
      obtain ⟨hplain, told, now, env, hopen, hpassed, rfl, rfl⟩ | ⟨r, told, now, hrefused, -, rfl⟩ :=
        h
      · exact ⟨_, .served hopen hpassed hplain env,
          (List.prefix_append_right_inj _).mpr (List.prefix_append [_, _, _, _] _)⟩
      · exact ⟨_, .refused hrefused now,
          (List.prefix_append_right_inj _).mpr (List.prefix_append [_, _] _)⟩
  | closed => exact ⟨_, h, List.prefix_rfl⟩

end Finish

/-! ## Every run -/

section Runs

variable {V : Type} {ops : DoubleOps V} {g g' : Gateway V} {e : GatewayEvent} {id : ℕ}

def eventsOf (id : ℕ) (ls : List GatewayEvent) : List GatewayEvent :=
  ls.filter fun e ↦ e.worker = id

theorem eventsOf_append_self (ls : List GatewayEvent) (h : e.worker = id) :
    eventsOf id (ls ++ [e]) = eventsOf id ls ++ [e] := by
  simp [eventsOf, h]

theorem eventsOf_append_ne (ls : List GatewayEvent) (h : e.worker ≠ id) :
    eventsOf id (ls ++ [e]) = eventsOf id ls := by
  simp [eventsOf, h]

/-- The thread is where its events have led it. -/
structure Worker.Tells (w : Worker) (ops : DoubleOps V) (config : SecurityMonitorConfig) (id : ℕ)
    (v : Visit) (mine : List GatewayEvent) : Prop where
  clientIp : w.clientIp = v.clientIp
  req : w.req = v.req
  told : Told ops config id v mine w.phase

theorem Worker.request_eq {w : Worker} {v : Visit} (hip : w.clientIp = v.clientIp)
    (hreq : w.req = v.req) : w.request = v.request := by
  rw [Worker.request, Visit.request, hip, hreq]

/-- A step leaves the threads of other connections where they are. -/
theorem GatewayStep.workers_of_ne (h : GatewayStep ops g e g') (hne : id ≠ e.worker) :
    g'.workers id = g.workers id := by
  cases h <;> exact Function.update_of_ne hne _ _

theorem GatewayStep.settings (h : GatewayStep ops g e g') : g'.config = g.config ∧ g'.ids = g.ids := by
  cases h <;> exact ⟨rfl, rfl⟩

/-- The first event of a thread. -/
theorem GatewayStep.begins (h : GatewayStep ops g e g') (hfree : g.workers e.worker = none) :
    ∃ v w, g'.workers e.worker = some w ∧ w.Tells ops g.config e.worker v [e] := by
  cases h with
  | accept id ip raw inOrder =>
      exact ⟨⟨ip, raw, inOrder⟩, _, Function.update_self .., ⟨rfl, rfl, rfl⟩⟩
  | connection id now hw | probe id now hw | clear id hw | check id now hits rejects hw
  | metric id hw | ids id hw | audit id hw | notify id now hw | count id hw | handle id env hw
  | session id stack decoded received hw | respond id hw => exact absurd (hfree.symm.trans hw) nofun

/-- A thread that moves on, when the story goes on in the new phase. -/
theorem Worker.Tells.moves {config : SecurityMonitorConfig} {v : Visit}
    {mine : List GatewayEvent} {w w' : Worker} {phase next : Phase}
    (h : w.Tells ops config id v mine) (hold : g.workers id = some w)
    (hw : g.workers id = some w') (hphase : w'.phase = phase)
    (hnext : w'.clientIp = v.clientIp → w'.req = v.req → Told ops config id v mine phase →
      Told ops config id v (mine ++ [e]) next) :
    ∃ w'', g.moved id w' next id = some w'' ∧ w''.Tells ops config id v (mine ++ [e]) := by
  obtain rfl := Option.some.inj (hold.symm.trans hw)
  obtain ⟨hip, hreq, htold⟩ := h
  rw [hphase] at htold
  exact ⟨_, Function.update_self .., ⟨hip, hreq, hnext hip hreq htold⟩⟩

/-- Every other event of a thread continues its story. -/
theorem GatewayStep.continues (h : GatewayStep ops g e g') (hidle : g.ids = idsInitDefaults)
    {w : Worker} {v : Visit} {mine : List GatewayEvent} (hold : g.workers e.worker = some w)
    (htold : w.Tells ops g.config e.worker v mine) :
    ∃ w', g'.workers e.worker = some w' ∧ w'.Tells ops g.config e.worker v (mine ++ [e]) := by
  cases h with
  | accept id ip raw inOrder hfree => exact absurd (hold.symm.trans hfree) nofun
  | @connection id now w monitor full hw hphase hcount =>
      exact htold.moves hold hw hphase fun _ _ h ↦ h.connection full
  | probe id now hw hphase =>
      refine htold.moves hold hw hphase fun hip _ h ↦ ?_
      rw [hip]
      exact h.probe now
  | clear id hw hphase => exact htold.moves hold hw hphase fun _ _ h ↦ h.clear
  | check id now hits rejects hw hphase hcheck =>
      refine htold.moves hold hw hphase fun hip hreq h ↦ ?_
      have hrequest := Worker.request_eq hip hreq
      rw [hrequest] at hcheck ⊢
      rw [hreq]
      exact h.check ⟨_, rfl, congrArg Prod.fst hcheck⟩
  | metric id hw hphase => exact htold.moves hold hw hphase fun _ _ h ↦ h.metric
  | ids id hw hphase hids =>
      refine htold.moves hold hw hphase fun _ hreq h ↦ ?_
      rw [hidle, hreq] at hids
      rw [hreq]
      exact h.ids hids
  | audit id hw hphase haudit =>
      refine htold.moves hold hw hphase fun hip hreq h ↦ ?_
      rw [hip, hreq] at haudit
      exact h.audit haudit
  | notify id now hw hphase =>
      refine htold.moves hold hw hphase fun hip _ h ↦ ?_
      rw [hip]
      exact h.notify now
  | count id hw hphase hplain =>
      exact htold.moves hold hw hphase fun _ hreq h ↦ h.count (hreq ▸ hplain)
  | handle id env hw hphase henv =>
      refine htold.moves hold hw hphase fun _ hreq h ↦ ?_
      rw [hreq]
      exact h.handle env
  | session id stack decoded received hw hphase hupgrade =>
      refine htold.moves hold hw hphase fun _ hreq h ↦ ?_
      rw [hreq] at hupgrade ⊢
      exact h.session hupgrade stack decoded received
  | respond id hw hphase => exact htold.moves hold hw hphase fun _ _ h ↦ h.respond

/-- What holds of one thread in every run. -/
structure Gateway.TellsOf (g : Gateway V) (ops : DoubleOps V) (config : SecurityMonitorConfig)
    (id : ℕ) (ls : List GatewayEvent) : Prop where
  config_eq : g.config = config
  ids_eq : g.ids = idsInitDefaults
  tells : (g.workers id = none ∧ eventsOf id ls = []) ∨
    ∃ v w, g.workers id = some w ∧ w.Tells ops config id v (eventsOf id ls)

theorem tellsOf_run {config : SecurityMonitorConfig} {obs : Observability V}
    {ls : List GatewayEvent} (h : Run (GatewayStep ops) (Gateway.start config obs) ls g) (id : ℕ) :
    g.TellsOf ops config id ls := by
  refine h.invariant_trace (I := fun ls g ↦ g.TellsOf ops config id ls)
    ⟨rfl, rfl, .inl ⟨rfl, rfl⟩⟩ ?_
  intro ls g e g' _ ⟨hconfig, hids, htells⟩ hstep
  refine ⟨hstep.settings.1.trans hconfig, hstep.settings.2.trans hids, ?_⟩
  by_cases hid : id = e.worker
  · subst hid hconfig
    rw [eventsOf_append_self ls rfl]
    obtain ⟨hfree, hnone⟩ | ⟨v, w, hw, htells⟩ := htells
    · rw [hnone]
      exact .inr (hstep.begins hfree)
    · exact .inr ⟨v, hstep.continues hids hw htells⟩
  · rwa [eventsOf_append_ne ls (Ne.symm hid), hstep.workers_of_ne hid]

/-! ## Threads do not wait for each other -/

def Phase.rank : Phase → ℕ
  | .connection => 9
  | .probe _ => 8
  | .clear _ => 7
  | .check => 6
  | .metric _ _ | .ids => 5
  | .audit _ => 4
  | .notify _ | .count => 3
  | .handle => 2
  | .respond _ => 1
  | .closed => 0

theorem rank_secmonPhase (req : HttpRequest) (verdict : SecmonResult) (reason : Bytes) :
    (secmonPhase req verdict reason).rank < Phase.check.rank := by
  rw [secmonPhase]
  split_ifs
  · decide
  · cases verdict.metric <;> simp [Phase.rank]

theorem rank_idsPhase (req : HttpRequest) (verdict : IdsResult) (reason : Bytes) :
    (idsPhase req verdict reason).rank < Phase.ids.rank := by
  rw [idsPhase]
  split_ifs <;> simp [Phase.rank]

/-- A thread that is not done can take its next step at once. -/
theorem exists_step (ops : DoubleOps V) (env : GatewayEnv V) {w : Worker}
    (hw : g.workers id = some w) (hopen : w.phase ≠ .closed) :
    ∃ e g' phase, GatewayStep ops g e g' ∧ e.worker = id ∧
      g'.workers = g.moved id w phase ∧ phase.rank < w.phase.rank := by
  cases hphase : w.phase with
  | connection =>
      obtain ⟨monitor, full, hcount⟩ : ∃ monitor full,
        g.monitor.countConnection 0 w.clientIp = (monitor, full) := ⟨_, _, rfl⟩
      refine ⟨_, _, _, .connection id 0 hw hphase hcount, rfl, rfl, ?_⟩
      cases full <;> simp [Phase.rank]
  | probe i => exact ⟨_, _, _, .probe id 0 hw hphase, rfl, rfl, by simp [Phase.rank]⟩
  | clear i => exact ⟨_, _, _, .clear id hw hphase, rfl, rfl, by simp [Phase.rank]⟩
  | check =>
      obtain ⟨verdict, reason, secmon, hcheck⟩ : ∃ verdict reason secmon,
        securityMonitorCheckRequest (g.secmon 0 0) 0 w.request = ((verdict, reason), secmon) :=
        ⟨_, _, _, rfl⟩
      exact ⟨_, _, _, .check id 0 0 0 hw hphase hcheck, rfl, rfl, rank_secmonPhase _ _ _⟩
  | metric name r => exact ⟨_, _, _, .metric id hw hphase, rfl, rfl, by simp [Phase.rank]⟩
  | ids =>
      obtain ⟨verdict, reason, hids⟩ : ∃ verdict reason,
        idsCheck g.ids w.req.path w.req.body = (verdict, reason) := ⟨_, _, rfl⟩
      exact ⟨_, _, _, .ids id hw hphase hids, rfl, rfl, rank_idsPhase _ _ _⟩
  | audit r =>
      obtain ⟨action, target, haudit⟩ : ∃ action target,
        auditReject r.code w.clientIp w.req r.reason = (action, target) := ⟨_, _, rfl⟩
      exact ⟨_, _, _, .audit id hw hphase haudit, rfl, rfl, by simp [Phase.rank]⟩
  | notify r => exact ⟨_, _, _, .notify id 0 hw hphase, rfl, rfl, by simp [Phase.rank]⟩
  | count =>
      by_cases hupgrade : w.req.upgrades
      · exact ⟨_, _, _, .session id (fun _ ↦ 0) (fun _ ↦ []) [] hw hphase hupgrade, rfl, rfl,
          by simp [Phase.rank]⟩
      · exact ⟨_, _, _, .count id hw hphase hupgrade, rfl, rfl, by simp [Phase.rank]⟩
  | handle =>
      exact ⟨_, _, _, .handle id { env with obs := g.obs } hw hphase rfl, rfl, rfl, by simp [Phase.rank]⟩
  | respond resp => exact ⟨_, _, _, .respond id hw hphase, rfl, rfl, by simp [Phase.rank]⟩
  | closed => exact absurd hphase hopen

/-- Every thread can run to its end while all others stand still. -/
theorem exists_run_to_end (ops : DoubleOps V) (env : GatewayEnv V) {g₀ : Gateway V}
    {ls : List GatewayEvent} (hrun : Run (GatewayStep ops) g₀ ls g) {w : Worker}
    (hw : g.workers id = some w) :
    ∃ ls' g' w', Run (GatewayStep ops) g₀ (ls ++ ls') g' ∧ g'.workers id = some w' ∧
      w'.phase = .closed ∧ w'.req = w.req ∧ ∀ other, other ≠ id → g'.workers other = g.workers other := by
  induction hrank : w.phase.rank using Nat.strong_induction_on generalizing g ls w with
  | _ n ih =>
      by_cases hclosed : w.phase = .closed
      · refine ⟨[], g, w, ?_, hw, hclosed, rfl, fun _ _ ↦ rfl⟩
        rwa [List.append_nil]
      · obtain ⟨e, g', phase, hstep, hworker, hmoved, hlt⟩ := exists_step ops env hw hclosed
        have hw' : g'.workers id = some { w with phase := phase } := by
          rw [hmoved]
          exact Function.update_self ..
        obtain ⟨ls', g'', w', hrun', hend, hphase, hreq, hothers⟩ :=
          ih phase.rank (hrank ▸ hlt) (hrun.snoc hstep) hw' rfl
        refine ⟨e :: ls', g'', w', ?_, hend, hphase, hreq, fun other hother ↦ ?_⟩
        · rwa [List.append_cons]
        · rw [hothers other hother, hstep.workers_of_ne (hworker ▸ hother)]

/-- A gateway without agent and job cache. -/
def bareEnv (obs : Observability V) : GatewayEnv V where
  agent := ⟨fun _ _ ↦ -1, fun _ _ _ ↦ (-1, []), fun _ _ _ ↦ (-1, []), fun _ _ ↦ -1⟩
  call := 0
  config := none
  jobcache := false
  work := fun _ ↦ (-1, [], 0, -1)
  ctx := 0
  healthSecret := none
  obs := obs

theorem story_of_run {config : SecurityMonitorConfig} {obs : Observability V}
    {ls : List GatewayEvent} (hrun : Run (GatewayStep ops) (Gateway.start config obs) ls g)
    {w : Worker} (hw : g.workers id = some w) :
    ∃ v story, Story ops config id v story ∧ eventsOf id ls <+: story ∧
      (w.phase = .closed → eventsOf id ls = story) := by
  obtain ⟨hnone, -⟩ | ⟨v, w', hw', htells⟩ := (tellsOf_run hrun id).tells
  · exact absurd (hw.symm.trans hnone) nofun
  · obtain rfl := Option.some.inj (hw.symm.trans hw')
    have htold := htells.told
    by_cases hclosed : w.phase = .closed
    · rw [hclosed] at htold
      exact ⟨v, _, htold, List.prefix_rfl, fun _ ↦ rfl⟩
    · obtain ⟨story, hstory, hprefix⟩ := htold.finish ops (bareEnv obs)
      exact ⟨v, story, hstory, hprefix, fun h ↦ absurd h hclosed⟩

/-- In every run of all threads together, the events of each thread are the
beginning of a story, and the whole of it once its connection is closed; every
answer that is sent is complete. -/
theorem every_thread_tells_a_story (config : SecurityMonitorConfig) (obs : Observability V)
    {ls : List GatewayEvent} (hrun : Run (GatewayStep ops) (Gateway.start config obs) ls g)
    {w : Worker} (hw : g.workers id = some w) :
    (∃ v story, Story ops config id v story ∧ eventsOf id ls <+: story ∧
        (w.phase = .closed → eventsOf id ls = story)) ∧
      ∀ sent, .respond id sent ∈ ls → ∃ body, Framed sent body := by
  obtain ⟨v, story, hstory, hpre, hclosed⟩ := story_of_run hrun hw
  refine ⟨⟨v, story, hstory, hpre, hclosed⟩, fun sent hsent ↦ ?_⟩
  exact hstory.framed (hpre.subset (List.mem_filter.mpr ⟨hsent, by simp [GatewayEvent.worker]⟩))

end Runs

/-- Bytes that are no request are refused while another client connects. -/
theorem every_thread_tells_a_story_of_two :
    ∃ (ls : List GatewayEvent) (g : Gateway ℚ) (w : Worker),
      Run (GatewayStep (rationalOps printWhole))
          (Gateway.start securityMonitorConfigDefaults ⟨[], true⟩) ls g ∧
        g.workers 1 = some w ∧ w.phase = .closed ∧ ls.length = 7 ∧
        ∃ v story, Story (rationalOps printWhole) securityMonitorConfigDefaults 1 v story ∧
          eventsOf 1 ls = story := by
  have hstep : GatewayStep (rationalOps printWhole)
      (Gateway.start securityMonitorConfigDefaults ⟨[], true⟩)
      (.accept 1 (ascii "10.0.0.1") (ascii "hello")) _ :=
    .accept 1 _ _ false rfl (by decide) (by decide)
  have haccept := Run.nil.snoc hstep
  have hother := haccept.snoc (.accept 2 (ascii "10.0.0.2") (ascii "GET") false rfl (by decide)
    (by decide))
  have hconnection := hother.snoc (.connection 1 100 rfl rfl rfl)
  have hcheck := hconnection.snoc (.check 1 100 0 0 rfl rfl rfl)
  have haudit := hcheck.snoc (.audit 1 rfl rfl rfl)
  have hnotify := haudit.snoc (.notify 1 100 rfl rfl)
  have hrespond := hnotify.snoc (.respond 1 rfl rfl)
  obtain ⟨⟨v, story, hstory, -, hclosed⟩, -⟩ := @every_thread_tells_a_story _ _ _ 1 _ _ _ hrespond _ rfl
  exact ⟨_, _, _, hrespond, rfl, rfl, rfl, v, story, hstory, hclosed rfl⟩

end DoctorClaw
