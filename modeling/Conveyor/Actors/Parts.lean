import Conveyor.Actors.WebhookGateway

/-!
# What the turns of a gateway are made of

Past its dispatches, a gateway does the same few things in all its turns: it notes something, closes a delivery
with its report, records a transition, and announces its capacity. The parts of a turn of a webhook gateway are
taken apart into such steps once, and what holds of all of them is shown step by step.
-/

namespace Conveyor

open Lib

/-- The transitions and parkings a piece of work of a webhook gateway carries out, with the answer each
is for, given the records it looks up. -/
inductive WebhookWork.Settles (inflight : GoMap String InflightTask) :
    WebhookWork → Option Nat → String → String → Prop where
  | resolve {taskID : String} {result : Result} {cause : Option Nat} {e : InflightTask}
      (he : inflight.lookup taskID = some e) :
      Settles inflight (.resolve taskID result cause) cause result.taskId e.leaseID
  | member {taskID : String} {result : Result} {number : Nat} {e : InflightTask}
      (he : inflight.lookup taskID = some e) :
      Settles inflight (.member taskID false result number) (some number) result.taskId e.leaseID
  | park {taskID : String} {result : Result} {number : Nat} {e : InflightTask}
      (he : inflight.lookup taskID = some e) :
      Settles inflight (.member taskID true result number) (some number) taskID e.leaseID

/-- The effects of a gateway that are no dispatch: what it tells its grains under its name, where the capacities it
announces and the transitions it records have a property, and what it does about its own deliveries. Credits are
never negative. -/
inductive GatewayEffect.Follows (P : Option Nat → String → String → Prop) (announces : String → Int32 → Prop)
    (name : String) : GatewayEffect → Prop where
  | announce {queue : String} {capacity weight : Int32} {batchTypes : List String} (h : announces queue capacity) :
      Follows P announces name (.tellGrain queue (.registerGateway name capacity weight batchTypes))
  | taskCompleted {queue taskID : String} {success : Bool} :
      Follows P announces name (.tellGrain queue (.taskCompleted taskID success name))
  | batchCompleted {queue : String} {total succeeded : Nat} :
      Follows P announces name (.tellGrain queue (.batchCompleted name total succeeded))
  | credit {queue : String} {n : Int32} (h : 0 ≤ n.toInt) :
      Follows P announces name (.tellGrain queue (.gatewayCredit name n))
  | deferred {queue taskID : String} {success : Bool} :
      Follows P announces name (.tellSelf (.deferredCompletion queue taskID success))
  | applied {taskID leaseID : String} {cause : Option Nat} (h : P cause taskID leaseID) :
      Follows P announces name (.applied taskID leaseID cause)
  | resolveDependents {taskID : String} : Follows P announces name (.resolveDependents taskID)
  | cancel {taskID : String} : Follows P announces name (.cancel taskID)
  | abort {delivery : Nat} : Follows P announces name (.abort delivery)

variable {result : Result} {cause : Option Nat}

section Follows

variable {P Q : Option Nat → String → String → Prop} {announces announces' : String → Int32 → Prop} {name : String}

theorem GatewayEffect.Follows.mono {e : GatewayEffect} (h : e.Follows P announces name)
    (hPQ : ∀ cause t leaseID, P cause t leaseID → Q cause t leaseID)
    (hannounces : ∀ queue capacity, announces queue capacity → announces' queue capacity) :
    e.Follows Q announces' name := by
  cases h with
  | announce h => exact .announce (hannounces _ _ h)
  | applied h => exact .applied (hPQ _ _ _ h)
  | taskCompleted => exact .taskCompleted
  | batchCompleted => exact .batchCompleted
  | credit h => exact .credit h
  | deferred => exact .deferred
  | resolveDependents => exact .resolveDependents
  | cancel => exact .cancel
  | abort => exact .abort

theorem tellServed_follows {served : Bool} {queue : String} {message : GrainMessage}
    (h : (GatewayEffect.tellGrain queue message).Follows P announces name) :
    ∀ e ∈ tellServed served queue message, e.Follows P announces name := by
  rw [tellServed]
  split
  · exact List.forall_mem_singleton.mpr h
  · exact List.forall_mem_nil _

theorem deferReport_follows {turn : GatewayTurn} {queue taskID : String} {success : Bool}
    {report : List GatewayEffect} (h : ∀ e ∈ report, e.Follows P announces name) :
    ∀ e ∈ deferReport turn queue taskID success report, e.Follows P announces name := by
  rw [deferReport]
  split
  · exact List.forall_mem_singleton.mpr .deferred
  · exact h

theorem transitionEffects_follows {entry : InflightTask} {terminated : Bool}
    {reply : Reply} (h : P cause result.taskId entry.leaseID) :
    ∀ e ∈ transitionEffects entry result terminated cause reply, e.Follows P announces name := by
  rw [transitionEffects]
  split
  · refine List.forall_mem_cons.mpr ⟨.applied h, ?_⟩
    split
    · exact List.forall_mem_singleton.mpr .resolveDependents
    · exact List.forall_mem_nil _
  · exact List.forall_mem_nil _

end Follows

namespace WebhookGateway

variable {P : Option Nat → String → String → Prop} {A : Prop} {w : WebhookGateway} {settings : Settings} {turn : GatewayTurn}
  {t : String} {entry : InflightTask}

/-- The steps of a part of a turn that dispatches nothing. A delivery that is forgotten is reported, through its
batch if it has one; the transitions that are recorded have a property, and `A` says whether the part announces. -/
inductive Part (P : Option Nat → String → String → Prop) (A : Prop) :
    WebhookGateway → WebhookGateway → List GatewayEffect → Prop where
  | trans {w w₁ w₂ : WebhookGateway} {effects more : List GatewayEffect} (h : Part P A w w₁ effects)
      (h' : Part P A w₁ w₂ more) : Part P A w w₂ (effects ++ more)
  | note {w : WebhookGateway} (aborts : GoMap String Nat) (async : GoMap String Time) (withholding : Bool)
      (withheldAt : Time) (probing : Bool) :
      Part P A w
        { w with
          aborts := aborts, async := async, withholding := withholding, withheldAt := withheldAt, probing := probing } []
  | mark {w : WebhookGateway} {t : String} {entry : InflightTask} (hentry : w.inflight.lookup t = some entry) :
      Part P A w { w with inflight := w.inflight.insert t { entry with cancelRequested := true } } []
  | announce {w : WebhookGateway} (h : A) (order : MapOrder String) : Part P A w w (w.register order)
  | applied {w : WebhookGateway} {t leaseID : String} {cause : Option Nat} (h : P cause t leaseID) :
      Part P A w w [.applied t leaseID cause]
  | resolveDependents {w : WebhookGateway} (t : String) : Part P A w w [.resolveDependents t]
  | abort {w : WebhookGateway} (delivery : Nat) : Part P A w w [.abort delivery]
  | cancel {w : WebhookGateway} {t : String} {entry : InflightTask} (hentry : w.inflight.lookup t = some entry) :
      Part P A w w [.cancel t]
  | report {w : WebhookGateway} {t : String} {entry : InflightTask} (hentry : w.inflight.lookup t = some entry)
      (hsingle : w.batchStates.lookup entry.leaseID = none) (turn : GatewayTurn) (success : Bool) :
      Part P A w (w.forget t) (w.completionEffects turn entry.queue t success)
  | refill {w : WebhookGateway} {t : String} {entry : InflightTask} (hentry : w.inflight.lookup t = some entry)
      (hsingle : w.batchStates.lookup entry.leaseID = none) : Part P A w (w.forget t) (w.refillCredit entry.queue)
  | member {w : WebhookGateway} {t : String} {entry : InflightTask} {state : WebhookBatch}
      (hentry : w.inflight.lookup t = some entry) (hstate : w.batchStates.lookup entry.leaseID = some state)
      (success : Bool) :
      Part P A w ((w.forget t).resolveBatchMember entry.leaseID state success).1
        ((w.forget t).resolveBatchMember entry.leaseID state success).2

theorem Part.refl (w : WebhookGateway) : Part P A w w [] := .note w.aborts w.async w.withholding w.withheldAt w.probing

theorem transitionEffects_part (h : P cause result.taskId entry.leaseID)
    (terminated : Bool) (reply : Reply) : Part P A w w (transitionEffects entry result terminated cause reply) := by
  rw [transitionEffects]
  split
  · cases terminated with
    | true => exact .trans (.applied h) (.resolveDependents result.taskId)
    | false => exact .applied h
  · exact .refl w

theorem freeSlot_part (hentry : w.inflight.lookup t = some entry) (success : Bool) :
    Part P A w ((w.forget t).freeSlot turn t entry success).1 ((w.forget t).freeSlot turn t entry success).2 := by
  rw [freeSlot]
  split
  · rename_i state hstate
    exact .member hentry hstate success
  · rename_i hsingle
    exact .report hentry hsingle turn success

theorem resolveDelivery_part (hentry : w.inflight.lookup t = some entry) (h : P cause result.taskId entry.leaseID)
    (reply : Reply) :
    Part P A w (w.resolveDelivery turn entry t result cause reply).1
      (w.resolveDelivery turn entry t result cause reply).2 :=
  (transitionEffects_part h _ reply).trans (freeSlot_part hentry _)

theorem abortRequest_part (t : String) : Part P A w (w.abortRequest t).1 (w.abortRequest t).2 := by
  rw [abortRequest]
  split
  · exact .refl w
  · exact .trans (.note (w.aborts.erase t) w.async w.withholding w.withheldAt w.probing) (.abort _)

theorem dropDelivery_part (hentry : w.inflight.lookup t = some entry) (notifyCancel : Bool) :
    Part P A w (w.dropDelivery t entry notifyCancel).1 (w.dropDelivery t entry notifyCancel).2 := by
  have hnotified : Part P A w w (if notifyCancel then [.cancel t] else []) := by
    split
    · exact .cancel hentry
    · exact .refl w
  simp only [dropDelivery]
  split
  · rename_i state hstate
    exact hnotified.trans (.member hentry hstate false)
  · rename_i hsingle
    exact hnotified.trans (.refill hentry hsingle)

theorem reapStaleAsync_part (now : Time) (ids : List String) (w : WebhookGateway) :
    Part P A w (reapStaleAsync settings now ids w).1 (reapStaleAsync settings now ids w).2 := by
  induction ids generalizing w with
  | nil => exact .refl w
  | cons t rest ih =>
    rw [reapStaleAsync]
    split
    · exact ih w
    · split
      · exact .trans (.note w.aborts (w.async.erase t) w.withholding w.withheldAt w.probing) (ih _)
      · rename_i entry hentry
        exact (dropDelivery_part hentry false).trans (ih _)

/-- A piece of work records what it settles. -/
theorem finish_part (reply : Reply) (work : WebhookWork) :
    Part (work.Settles w.inflight) False w (w.finish settings turn reply work).1 (w.finish settings turn reply work).2 := by
  cases work with
  | release taskID leaseID open_ =>
    cases open_ with
    | none => exact .refl w
    | some delivery => exact .abort delivery
  | resolve =>
    rw [finish]
    split
    · exact .refl w
    · rename_i entry hentry
      exact resolveDelivery_part hentry (.resolve hentry) reply
  | member taskID accepted result cause =>
    rw [finish]
    split
    · exact .refl w
    · rename_i entry hentry
      cases accepted with
      | true => exact .trans (.note _ _ w.withholding w.withheldAt w.probing) (.applied (.park hentry))
      | false => exact resolveDelivery_part hentry (.member hentry) reply
  | extendLease taskID =>
    rw [finish]
    split
    · exact .refl w
    · rename_i entry hentry
      split
      · have habort : (w.abortRequest taskID).1.inflight = w.inflight := by
          rw [abortRequest]
          split <;> rfl
        exact (abortRequest_part taskID).trans (dropDelivery_part (habort ▸ hentry) false)
      · exact .refl w
  | extendAsync taskID =>
    rw [finish]
    split
    · exact .refl w
    · rename_i entry hentry
      split
      · exact .note w.aborts _ w.withholding w.withheldAt w.probing
      · exact dropDelivery_part hentry true
      · exact .refl w
  | reapStale => exact reapStaleAsync_part turn.now _ w

/-- Following the endpoint's health changes what is announced and nothing else. -/
theorem syncBreakerCapacity_part :
    Part P True w (w.syncBreakerCapacity settings turn).1 (w.syncBreakerCapacity settings turn).2 := by
  simp only [syncBreakerCapacity]
  split
  · exact .trans (.note w.aborts w.async true turn.now w.probing) (.announce trivial turn.order)
  · split
    · exact .trans (.note w.aborts w.async false w.withheldAt true) (.announce trivial turn.order)
    · exact .refl w

/-- A transport sample changes what is announced and nothing else. -/
theorem recordTransport_part :
    Part P True w (w.recordTransport settings turn).1 (w.recordTransport settings turn).2 := by
  rw [recordTransport]
  split
  · rw [resolveProbe]
    split
    · exact .trans (.note w.aborts w.async w.withholding w.withheldAt false) (.announce trivial turn.order)
    · exact .trans (.note w.aborts w.async true turn.now false) (.announce trivial turn.order)
    · exact .refl w
  · exact syncBreakerCapacity_part

/-- A message whose handling is made of such steps, up to the work it leaves to do. -/
def routine : GatewayMessage → Bool
  | .executeTask .. | .executeBatch .. | .drainSession | .updateRegistration _ | .deferredCompletion .. => false
  | _ => true

/-- The first part of a turn records only an answer it took. -/
theorem receive_part (settings : Settings) (turn : GatewayTurn) {message : GatewayMessage}
    (hroutine : routine message = true)
    (hanswer : ∀ t answer number entry, message = .webhookDelivery t answer number →
      w.inflight.lookup t = some entry → P (some number) t entry.leaseID) :
    ∃ w' work, (w.receive settings turn message).1 = { w' with turn := work } ∧
      Part P True w w' (w.receive settings turn message).2 := by
  cases message with
  | executeTask | executeBatch | drainSession | updateRegistration | deferredCompletion => cases hroutine
  | postStart => exact ⟨w, w.turn, rfl, .announce trivial turn.order⟩
  | registerTick => exact ⟨_, _, rfl, syncBreakerCapacity_part.trans (.announce trivial turn.order)⟩
  | webhookDelivery taskID answer cause =>
    rw [receive, complete]
    split
    · exact ⟨w, w.turn, rfl, .refl w⟩
    · rename_i entry hentry
      dsimp only
      split
      · exact ⟨(w.recordTransport settings turn).1.acceptAsync turn taskID, _, rfl, recordTransport_part.trans
          (.trans (.note _ _ _ _ _) (.applied (hanswer taskID answer cause entry rfl hentry)))⟩
      · exact ⟨_, _, rfl, recordTransport_part⟩
  | webhookBatchDelivery =>
    rw [receive, completeBatch]
    split
    · exact ⟨w, w.turn, rfl, .refl w⟩
    · exact ⟨_, _, rfl, recordTransport_part⟩
  | leaseHeartbeat =>
    rw [receive, heartbeatAsync]
    split
    · exact ⟨w, w.turn, rfl, .refl w⟩
    · split <;> exact ⟨w, _, rfl, .refl w⟩
  | leaseResult =>
    rw [receive, resultAsync]
    split
    · exact ⟨w, w.turn, rfl, .refl w⟩
    · split <;> exact ⟨w, _, rfl, .refl w⟩
  | cancelActive taskID =>
    rw [receive, cancelActive]
    split
    · exact ⟨w, w.turn, rfl, .refl w⟩
    · rename_i entry hentry
      dsimp only
      split
      · exact ⟨_, _, rfl, .trans (.mark hentry) (abortRequest_part taskID)⟩
      · exact ⟨_, _, rfl, .trans (.mark hentry) (.cancel (AList.lookup_insert _))⟩
  | result | batchResult | heartbeat | progress | credit => exact ⟨w, w.turn, rfl, .refl w⟩

variable {w' : WebhookGateway} {effects : List GatewayEffect}

/-- What the gateway is registered for and its turn stay. -/
theorem Part.frame (h : Part P A w w' effects) :
    w'.registration = w.registration ∧ w'.turn = w.turn ∧ w'.name = w.name := by
  induction h with
  | trans _ _ ih ih' => exact ⟨ih'.1.trans ih.1, ih'.2.1.trans ih.2.1, ih'.2.2.trans ih.2.2⟩
  | member =>
    rw [resolveBatchMember]
    split <;> exact ⟨rfl, rfl, rfl⟩
  | _ => exact ⟨rfl, rfl, rfl⟩

theorem register_follows {announces : String → Int32 → Prop}
    (h : ∀ queue capacity, queue ∈ w.registration.queues → announces queue capacity) (order : MapOrder String) :
    ∀ e ∈ w.register order, e.Follows P announces w.name := by
  rw [register]
  split
  · exact List.forall_mem_nil _
  · intro e he
    obtain ⟨queue, hqueue, rfl⟩ := List.mem_map.mp he
    exact .announce (h queue _ ((MapOrder.mem_visit ..).mp hqueue))

/-- A part of a turn tells only what a gateway tells. -/
theorem Part.follows (h : Part P A w w' effects) :
    ∀ e ∈ effects, e.Follows P (fun queue _ => A ∧ queue ∈ w.registration.queues) w.name := by
  induction h with
  | trans h _ ih ih' =>
    rw [h.frame.1, h.frame.2.2] at ih'
    exact List.forall_mem_append.mpr ⟨ih, ih'⟩
  | note | mark => exact List.forall_mem_nil _
  | announce h order => exact register_follows (fun _ _ hqueue => ⟨h, hqueue⟩) order
  | applied h => exact List.forall_mem_singleton.mpr (.applied h)
  | resolveDependents => exact List.forall_mem_singleton.mpr .resolveDependents
  | abort => exact List.forall_mem_singleton.mpr .abort
  | cancel => exact List.forall_mem_singleton.mpr .cancel
  | report => exact deferReport_follows (tellServed_follows .taskCompleted)
  | refill => exact tellServed_follows (.credit (by decide))
  | member =>
    rw [resolveBatchMember]
    split
    · exact List.forall_mem_nil _
    · exact tellServed_follows .batchCompleted

end WebhookGateway

end Conveyor
