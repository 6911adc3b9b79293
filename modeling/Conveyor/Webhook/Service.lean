import Conveyor.Actors.System
import Conveyor.Webhook.Token

/-!
# Callbacks of webhook workers

The service verifies a lease token against the secrets of the registration it names and tells that
registration's gateway. The bytes under the MAC could be split into claims in another way when a task id holds
a zero byte; the gateway's own check of the lease id is what rules that out.
-/

namespace Conveyor

open Lib

/-- What a callback asks for. -/
inductive Callback where
  | heartbeat
  | reportResult (outcome : TaskOutcome) (errorMsg : String)
  deriving DecidableEq

variable {callback : Callback}

namespace WebhookService

/-- Parse a lease token and verify it against the secrets of its registration. A name that is not a text is no
registration's. -/
def verify (hmac : Hmac) (workers : WebhookWorkers) (token : Bytes) : Option (String × LeaseClaims) :=
  match parseLeaseToken token with
  | none => none
  | some claims =>
    match bytesText claims.registration with
    | none => none
    | some name =>
      match workers.getWebhookWorker name with
      | .error _ => none
      | .ok worker =>
        if verifyLeaseToken hmac token claims (worker.secrets.map textBytes) then some (name, claims) else none

/-- Whether an outcome may be reported. -/
def acceptsOutcome : Callback → Bool
  | .heartbeat => true
  | .reportResult outcome _ => outcome ∈ [.success, .retry, .skipRetry]

/-- The message of a callback to the gateway. -/
def message (taskID leaseID : String) : Callback → GatewayMessage
  | .heartbeat => .leaseHeartbeat taskID leaseID
  | .reportResult outcome errorMsg => .leaseResult taskID leaseID outcome errorMsg

/-- Serve one callback: the registration whose gateway is told, and what it is told. An id that is not a text
matches no delivery, so no message stands for it. -/
def handle (hmac : Hmac) (workers : WebhookWorkers) (token : Bytes) (callback : Callback) :
    Option (String × GatewayMessage) :=
  if acceptsOutcome callback then
    match verify hmac workers token with
    | none => none
    | some (name, claims) =>
      match bytesText claims.taskID, bytesText claims.leaseID with
      | some taskID, some leaseID => some (name, message taskID leaseID callback)
      | _, _ => none
  else none

variable {hmac : Hmac} {workers : WebhookWorkers} {token : Bytes} {name : String}

/-- A verified token names a stored registration and is signed with one of its secrets. -/
theorem verify_spec {claims : LeaseClaims} (h : verify hmac workers token = some (name, claims)) :
    ∃ worker, workers.lookup name = some worker ∧ textBytes name = claims.registration ∧
      verifyLeaseToken hmac token claims (worker.secrets.map textBytes) = true := by
  rw [verify] at h
  split at h
  · cases h
  rename_i parsed hparsed
  split at h
  · cases h
  rename_i text htext
  cases hworker : workers.lookup text with
  | none =>
    rw [WebhookWorkers.getWebhookWorker, hworker] at h
    cases h
  | some worker =>
    rw [WebhookWorkers.getWebhookWorker, hworker] at h
    dsimp only at h
    split at h
    · rename_i hverified
      cases h
      exact ⟨worker, hworker, textBytes_of_bytesText htext, hverified⟩
    · cases h

/-- What a served callback rests on: a verified token whose ids are texts. -/
theorem handle_spec {m : GatewayMessage} (h : handle hmac workers token callback = some (name, m)) :
    ∃ claims taskID leaseID, verify hmac workers token = some (name, claims) ∧ textBytes taskID = claims.taskID ∧
      textBytes leaseID = claims.leaseID ∧ m = message taskID leaseID callback := by
  rw [handle] at h
  split at h
  · split at h
    · cases h
    · rename_i verified claims hverify
      split at h
      · rename_i taskID leaseID htask hlease
        cases h
        exact ⟨claims, taskID, leaseID, hverify, textBytes_of_bytesText htask, textBytes_of_bytesText hlease, rfl⟩
      · cases h
  · cases h

end WebhookService

/-- The task and the lease a call extends or settles. -/
def Call.delivery? : Call → Option (String × String)
  | .extendLease taskID leaseID _ => some (taskID, leaseID)
  | .ack taskID leaseID => some (taskID, leaseID)
  | .fail taskID leaseID _ _ => some (taskID, leaseID)
  | .release taskID leaseID => some (taskID, leaseID)
  | .archive taskID leaseID _ => some (taskID, leaseID)
  | _ => none

theorem applyOutcome_delivery (now : Time) (delay : Duration) (entry : InflightTask) (result : Result) :
    (applyOutcome now delay entry result).1.delivery? = some (result.taskId, entry.leaseID) := by
  simp only [applyOutcome]
  repeat' split
  all_goals rfl

/-- A callback makes a gateway act only on the delivery it tracks under the named task and lease. -/
theorem callback_delivery {settings : Settings} {w : WebhookGateway} {turn turn' : GatewayTurn}
    {taskID leaseID : String} {call : Call} (hidle : w.turn = [])
    (hcall : GatewayActor.nextCall settings turn'
      (.webhook (w.receive settings turn (WebhookService.message taskID leaseID callback)).1) = some call) :
    ∃ entry, w.inflight.lookup taskID = some entry ∧ entry.leaseID = leaseID ∧
      call.delivery? = some (taskID, leaseID) := by
  cases callback with
  | heartbeat =>
    simp only [WebhookService.message, WebhookGateway.receive, WebhookGateway.heartbeatAsync] at hcall
    split at hcall
    · simp [GatewayActor.nextCall, hidle] at hcall
    · rename_i entry hentry
      split at hcall
      · rename_i hasync
        simp only [GatewayActor.nextCall, List.head?_cons, Option.bind_some, WebhookGateway.call, hentry,
          Option.map_some, Option.some.injEq] at hcall
        refine ⟨entry, hentry, hasync.1, ?_⟩
        rw [← hcall, Call.delivery?, hasync.1]
      · simp [GatewayActor.nextCall, hidle] at hcall
  | reportResult =>
    simp only [WebhookService.message, WebhookGateway.receive, WebhookGateway.resultAsync] at hcall
    split at hcall
    · simp [GatewayActor.nextCall, hidle] at hcall
    · rename_i entry hentry
      split at hcall
      · rename_i hresult
        simp only [GatewayActor.nextCall, List.head?_cons, Option.bind_some, WebhookGateway.call, hentry,
          Option.map_some, Option.some.injEq] at hcall
        refine ⟨entry, hentry, hresult.1, ?_⟩
        rw [← hcall, applyOutcome_delivery, hresult.1]
      · simp [GatewayActor.nextCall, hidle] at hcall

/-- A callback acts only on the delivery a token was minted for, and every minted token is accepted for its
claims while its secret is among the registration's. -/
theorem lease_tokens_authorize (hmac : Hmac) :
    (∀ (history : List Authentication) (workers : WebhookWorkers) (token : Bytes) (callback : Callback)
      (settings : Settings) (w : WebhookGateway) (turn turn' : GatewayTurn) (registration : String)
      (message : GatewayMessage) (call : Call) (t leaseID : String),
      (∀ entry ∈ history, entry.Wellformed) → Unforged hmac history token →
      (∀ name ∈ workers, 0 ∉ textBytes name) →
      (∀ taskID entry, w.inflight.lookup taskID = some entry → 0 ∉ textBytes entry.leaseID) →
      WebhookService.handle hmac workers token callback = some (registration, message) → w.turn = [] →
      GatewayActor.nextCall settings turn' (.webhook (w.receive settings turn message).1) = some call →
      call.delivery? = some (t, leaseID) →
        ∃ secret, .token secret ⟨textBytes registration, textBytes t, textBytes leaseID⟩ ∈ history) ∧
    ∀ secret claims, parseLeaseToken (mintLeaseToken hmac secret claims) = some claims ∧
      ∀ secrets, secret ∈ secrets → verifyLeaseToken hmac (mintLeaseToken hmac secret claims) claims secrets = true := by
  constructor
  · intro history workers token callback settings w turn turn' registration message call t leaseID hhistory hunforged
      hnames hleases hhandle hidle hcall hdelivery
    obtain ⟨claims, taskID, lease, hverify, htask, hlease, rfl⟩ := WebhookService.handle_spec hhandle
    obtain ⟨worker, hworker, hname, hverified⟩ := WebhookService.verify_spec hverify
    obtain ⟨entry, hentry, hid, htarget⟩ := callback_delivery hidle hcall
    obtain ⟨rfl, rfl⟩ := Prod.mk.inj (Option.some.inj (htarget.symm.trans hdelivery))
    have hregistration : 0 ∉ claims.registration := hname ▸ hnames registration (GoMap.mem_of_lookup hworker)
    have hzero : 0 ∉ claims.leaseID := hlease ▸ hid ▸ hleases taskID entry hentry
    obtain ⟨secret, -, hminted⟩ := minted_of_verified hunforged hhistory hverified hregistration hzero
    refine ⟨secret, ?_⟩
    rw [hname, htask, hlease]
    exact hminted
  · exact fun secret claims => ⟨parse_mintLeaseToken hmac secret claims, fun secrets h => verify_mintLeaseToken hmac claims h⟩

/-- The claims of one delivery. -/
def oneDelivery : LeaseClaims := ⟨textBytes "r", textBytes "t", textBytes "L"⟩

/-- A MAC that is right only for that delivery, under the secret `k`. -/
def singleMac : Hmac := fun secret message =>
  if secret = textBytes "k" ∧ message = oneDelivery.message then [1] else []

/-- The registration, with that secret. -/
def signingWorkers : WebhookWorkers :=
  (∅ : WebhookWorkers).upsertWebhookWorker { name := "r", queues := ∅, concurrency := 1, secrets := ["k"] }

/-- Its gateway, with the delivery accepted for asynchronous completion. -/
def acceptedDelivery : WebhookGateway :=
  { registration := { name := "r", queues := ∅, concurrency := 1, secrets := ["k"] }
    name := "webhook-r"
    capacities := ∅
    inflight := (∅ : GoMap String InflightTask).insert "t"
      { leaseID := "L", queue := "q", taskType := "w", retried := 0, maxRetry := 3 }
    async := (∅ : GoMap String Time).insert "t" 1 }

theorem singleMac_unforged :
    Unforged singleMac [.token (textBytes "k") oneDelivery] (mintLeaseToken singleMac (textBytes "k") oneDelivery) := by
  intro secret message hmac
  rw [splitOn_mintLeaseToken] at hmac
  have hsigned := Option.some.inj hmac
  rw [tokenMAC, singleMac, singleMac, if_pos ⟨rfl, rfl⟩] at hsigned
  split at hsigned
  · rename_i hmatch
    rw [hmatch.1, hmatch.2]
    exact List.mem_singleton_self _
  · exact absurd hsigned (by decide)

theorem lease_tokens_authorize_heartbeat :
    (WebhookService.handle singleMac signingWorkers (mintLeaseToken singleMac (textBytes "k") oneDelivery) .heartbeat =
      some ("r", .leaseHeartbeat "t" "L")) ∧
    ∃ secret, Authentication.token secret ⟨textBytes "r", textBytes "t", textBytes "L"⟩ ∈
      [.token (textBytes "k") oneDelivery] := by
  have hhandle : WebhookService.handle singleMac signingWorkers
      (mintLeaseToken singleMac (textBytes "k") oneDelivery) .heartbeat = some ("r", .leaseHeartbeat "t" "L") := by
    rfl
  refine ⟨hhandle, (lease_tokens_authorize singleMac).1 _ signingWorkers _ .heartbeat
    { leaseBatchMax := 1, leaseTTL := 1, groupMaxSize := 1, webhookBreakerOpenTimeout := 1 } acceptedDelivery
    { now := 2 } { now := 2 } "r" _ _ "t" "L" ?_ singleMac_unforged ?_ ?_ hhandle rfl rfl rfl⟩
  · rintro entry hentry
    obtain rfl := List.mem_singleton.mp hentry
    exact ⟨by decide, by decide⟩
  · intro name hname
    obtain rfl := (AList.mem_insert _).mp hname |>.resolve_right (AList.notMem_empty _)
    decide
  · intro taskID entry hentry
    simp only [acceptedDelivery, GoMap.lookup_insert_eq_ite] at hentry
    split at hentry
    · cases hentry
      decide
    · cases hentry

end Conveyor
