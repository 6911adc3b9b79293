import Conveyor.Actors.Parts
import Conveyor.Actors.Step

/-!
# What a gateway tracks

A gateway starts to track a task when it is dispatched and at no other time; every later turn keeps
records or drops them. Both kinds of gateway are read through the same three views: the tracked tasks,
the members of the tracked batches, and the name they report under.
-/

namespace Conveyor

open Lib

/-- The tasks a message dispatches. -/
def GatewayMessage.dispatched : GatewayMessage → List TaskEnvelope
  | .executeTask task _ _ => [task]
  | .executeBatch tasks _ _ _ => tasks
  | _ => []

/-- The lease a message dispatches its tasks under. -/
def GatewayMessage.lease : GatewayMessage → String
  | .executeTask _ leaseID _ => leaseID
  | .executeBatch _ leaseID _ _ => leaseID
  | _ => ""

/-- The delivery a message starts. -/
def GatewayMessage.delivery (name : String) (sent : Bool) : GatewayMessage → Option Delivery
  | .executeTask task leaseID _ => some ⟨name, task.queue, leaseID, [task.id], false, sent, false⟩
  | .executeBatch (task :: rest) leaseID _ _ =>
    some ⟨name, task.queue, leaseID, (task :: rest).map TaskEnvelope.id, true, sent, false⟩
  | _ => none

namespace GatewayActor

/-- The tasks the gateway tracks. -/
def inflight : GatewayActor → GoMap String InflightTask
  | .stream g => g.inflight
  | .webhook w => w.inflight

/-- The members of a batch the gateway tracks. -/
def members (leaseID : String) : GatewayActor → Option (List String)
  | .stream g => g.batches.lookup leaseID
  | .webhook w => (w.batchStates.lookup leaseID).map WebhookBatch.members

/-- The name the gateway reports under. -/
def name : GatewayActor → String
  | .stream g => g.name
  | .webhook w => w.name

/-- Whether a dispatch in this turn reaches the worker or starts a request. -/
def sends (turn : GatewayTurn) : GatewayActor → Bool
  | .stream _ => !turn.sendFails
  | .webhook _ => true

end GatewayActor

variable {t : String}

section Maps

/-- Tracking the members of a batch replaces their records and keeps all others. -/
theorem trackAll_lookup (leaseID : String) (tasks : List TaskEnvelope) (inflight : GoMap String InflightTask)
    (t : String) :
    (∃ task ∈ tasks, task.id = t ∧ (trackAll leaseID tasks inflight).lookup t = some (trackedTask task leaseID)) ∨
      (t ∉ tasks.map TaskEnvelope.id ∧ (trackAll leaseID tasks inflight).lookup t = inflight.lookup t) := by
  induction tasks generalizing inflight with
  | nil => exact .inr ⟨List.not_mem_nil, rfl⟩
  | cons first rest ih =>
    rcases ih (inflight.insert first.id (trackedTask first leaseID)) with ⟨task, htask, hid, h⟩ | ⟨hnot, h⟩
    · exact .inl ⟨task, .tail first htask, hid, h⟩
    · by_cases ht : first.id = t
      · refine .inl ⟨first, .head _, ht, ?_⟩
        subst ht
        exact h.trans (AList.lookup_insert _)
      · refine .inr ⟨?_, h.trans (AList.lookup_insert_ne (Ne.symm ht))⟩
        rw [List.map_cons, List.mem_cons, not_or]
        exact ⟨Ne.symm ht, hnot⟩

/-- The members taken out of the map were in it, and what is left was too and is no member. -/
theorem takeMembers_spec (members : List String) (inflight : GoMap String InflightTask) :
    (∀ member ∈ (Gateway.takeMembers members inflight).1,
        member.1 ∈ members ∧ inflight.lookup member.1 = some member.2) ∧
      ∀ t e, (Gateway.takeMembers members inflight).2.lookup t = some e → t ∉ members ∧ inflight.lookup t = some e := by
  induction members generalizing inflight with
  | nil => exact ⟨fun _ h => absurd h List.not_mem_nil, fun t e h => ⟨List.not_mem_nil, h⟩⟩
  | cons id rest ih =>
    rw [Gateway.takeMembers]
    cases hid : inflight.lookup id with
    | none =>
      obtain ⟨htaken, hleft⟩ := ih inflight
      refine ⟨fun member hmember => ?_, fun t e ht => ?_⟩
      · obtain ⟨hin, hlookup⟩ := htaken member hmember
        exact ⟨.tail id hin, hlookup⟩
      · obtain ⟨hnot, hlookup⟩ := hleft t e ht
        refine ⟨List.not_mem_cons_of_ne_of_not_mem ?_ hnot, hlookup⟩
        rintro rfl
        rw [hid] at hlookup
        cases hlookup
    | some entry =>
      obtain ⟨htaken, hleft⟩ := ih (inflight.erase id)
      refine ⟨fun member hmember => ?_, fun t e ht => ?_⟩
      · rcases List.mem_cons.mp hmember with rfl | hmember
        · exact ⟨.head _, hid⟩
        · obtain ⟨hin, hlookup⟩ := htaken member hmember
          exact ⟨.tail id hin, GoMap.lookup_of_lookup_erase hlookup⟩
      · obtain ⟨hnot, hlookup⟩ := hleft t e ht
        rw [GoMap.lookup_erase_eq_ite] at hlookup
        split at hlookup
        · cases hlookup
        · rename_i hne
          exact ⟨List.not_mem_cons_of_ne_of_not_mem hne hnot, hlookup⟩

/-- Taking members out of the map leaves the others in it. -/
theorem takeMembers_others {members : List String} (h : t ∉ members) (inflight : GoMap String InflightTask) :
    (Gateway.takeMembers members inflight).2.lookup t = inflight.lookup t := by
  induction members generalizing inflight with
  | nil => rfl
  | cons id rest ih =>
    have hrest : t ∉ rest := fun hin => h (.tail id hin)
    rw [Gateway.takeMembers]
    cases inflight.lookup id with
    | none => exact ih hrest inflight
    | some entry =>
      refine (ih hrest (inflight.erase id)).trans (AList.lookup_erase_ne ?_)
      rintro rfl
      exact h (.head _)

end Maps

/-- Two records of one delivery: they differ at most in whether an admin canceled it. -/
structure InflightTask.SameDelivery (old e : InflightTask) : Prop where
  leaseID : old.leaseID = e.leaseID
  queue : old.queue = e.queue
  retried : old.retried = e.retried
  maxRetry : old.maxRetry = e.maxRetry

theorem InflightTask.SameDelivery.refl (e : InflightTask) : e.SameDelivery e := ⟨rfl, rfl, rfl, rfl⟩

theorem InflightTask.SameDelivery.trans {a b c : InflightTask} (h : a.SameDelivery b)
    (h' : b.SameDelivery c) : a.SameDelivery c :=
  ⟨h.leaseID.trans h'.leaseID, h.queue.trans h'.queue, h.retried.trans h'.retried, h.maxRetry.trans h'.maxRetry⟩

/-- A turn keeps records and batches or drops them: nothing new is tracked, and no record comes to
stand for another delivery. -/
structure GatewayActor.Keeps (a a' : GatewayActor) : Prop where
  records : ∀ t e, a'.inflight.lookup t = some e → ∃ old, a.inflight.lookup t = some old ∧ old.SameDelivery e
  members : ∀ leaseID ids, a'.members leaseID = some ids → a.members leaseID = some ids
  name : a'.name = a.name

variable {a : GatewayActor}

namespace GatewayActor.Keeps

theorem refl (a : GatewayActor) : Keeps a a := ⟨fun _ e h => ⟨e, h, .refl e⟩, fun _ _ h => h, rfl⟩

theorem trans {b c : GatewayActor} (h : Keeps a b) (h' : Keeps b c) : Keeps a c where
  records t e he := by
    obtain ⟨mid, hmid, hsame⟩ := h'.records t e he
    obtain ⟨old, hold, hsame'⟩ := h.records t mid hmid
    exact ⟨old, hold, hsame'.trans hsame⟩
  members leaseID ids hids := h.members leaseID ids (h'.members leaseID ids hids)
  name := h'.name.trans h.name

end GatewayActor.Keeps

namespace Gateway

open GatewayActor

variable (g : Gateway)

/-- Dropping records and batches keeps the rest. -/
theorem keeps_of_sub {g g' : Gateway} (hrecords : ∀ t e, g'.inflight.lookup t = some e → g.inflight.lookup t = some e)
    (hbatches : ∀ leaseID ids, g'.batches.lookup leaseID = some ids → g.batches.lookup leaseID = some ids)
    (hname : g'.name = g.name) : Keeps (.stream g) (.stream g') :=
  ⟨fun t e h => ⟨e, hrecords t e h, .refl e⟩, hbatches, hname⟩

theorem result_keeps (result : Result) (cause : Option Nat) : Keeps (.stream g) (.stream (g.result result cause)) := by
  rw [Gateway.result]
  split
  · exact .refl _
  · exact keeps_of_sub (fun _ _ => GoMap.lookup_of_lookup_erase) (fun _ _ h => h) rfl

theorem batchResult_keeps (results : List Result) (cause : Option Nat) :
    Keeps (.stream g) (.stream (g.batchResult results cause)) := by
  rw [batchResult]
  split
  · exact .refl _
  · split
    · exact .refl _
    · exact keeps_of_sub (fun t e h => ((takeMembers_spec _ _).2 t e h).2)
        (fun _ _ => GoMap.lookup_of_lookup_erase) rfl

theorem cancelActive_keeps (taskID : String) : Keeps (.stream g) (.stream (g.cancelActive taskID).1) := by
  rw [cancelActive]
  cases hentry : g.inflight.lookup taskID with
  | none => exact .refl _
  | some entry =>
    refine ⟨fun t e he => ?_, fun _ _ h => h, rfl⟩
    simp only [GatewayActor.inflight, GoMap.lookup_insert_eq_ite] at he ⊢
    split at he
    · rename_i heq
      cases he
      exact ⟨entry, heq ▸ hentry, rfl, rfl, rfl, rfl⟩
    · exact ⟨e, he, .refl e⟩

theorem progress_keeps (taskID : String) (percent : UInt32) (message : String) :
    Keeps (.stream g) (.stream (g.progress taskID percent message)) := by
  rw [progress]
  split
  · exact .refl _
  · exact keeps_of_sub (fun _ _ h => h) (fun _ _ h => h) rfl

theorem drain_keeps (turn : GatewayTurn) : Keeps (.stream g) (.stream (g.drain turn)) :=
  keeps_of_sub (fun _ _ h => by cases h) (fun _ _ h => by cases h) rfl

/-- A piece of work drops records and batches at most. -/
theorem finish_state (turn : GatewayTurn) (reply : Reply) (work : GatewayWork) :
    ∃ inflight batches, (g.finish turn reply work).1 = { g with inflight := inflight, batches := batches } ∧
      (∀ t e, inflight.lookup t = some e → g.inflight.lookup t = some e) ∧
      ∀ leaseID ids, batches.lookup leaseID = some ids → g.batches.lookup leaseID = some ids := by
  cases work with
  | extendLease taskID =>
    rw [finish]
    split
    · exact ⟨_, _, rfl, fun _ _ h => h, fun _ _ h => h⟩
    · split
      · simp only [dropLost, refundLostLease]
        split
        · exact ⟨_, _, rfl, fun _ _ => GoMap.lookup_of_lookup_erase, fun _ _ h => h⟩
        · split
          · exact ⟨_, _, rfl, fun _ _ => GoMap.lookup_of_lookup_erase, fun _ _ h => h⟩
          · exact ⟨_, _, rfl, fun _ _ => GoMap.lookup_of_lookup_erase, fun _ _ => GoMap.lookup_of_lookup_erase⟩
      · exact ⟨_, _, rfl, fun _ _ h => h, fun _ _ h => h⟩
  | _ => exact ⟨_, _, rfl, fun _ _ h => h, fun _ _ h => h⟩

end Gateway

variable {leaseID : String} {P : Option Nat → String → String → Prop}

namespace WebhookGateway

open GatewayActor

variable (w : WebhookGateway)

/-- Dropping records and keeping the members of every batch keeps the rest. -/
theorem keeps_of_sub {w w' : WebhookGateway}
    (hrecords : ∀ t e, w'.inflight.lookup t = some e → w.inflight.lookup t = some e)
    (hbatches : ∀ leaseID state', w'.batchStates.lookup leaseID = some state' →
      ∃ state, w.batchStates.lookup leaseID = some state ∧ state.members = state'.members)
    (hname : w'.name = w.name) : Keeps (.webhook w) (.webhook w') where
  records t e h := ⟨e, hrecords t e h, .refl e⟩
  members leaseID ids h := by
    obtain ⟨state', hstate', rfl⟩ := Option.map_eq_some_iff.mp h
    obtain ⟨state, hstate, hmembers⟩ := hbatches leaseID state' hstate'
    exact Option.map_eq_some_iff.mpr ⟨state, hstate, hmembers⟩
  name := hname

/-- A turn that leaves the records, the batches and the name alone. -/
theorem keeps_of_eq {w w' : WebhookGateway} (hrecords : w'.inflight = w.inflight)
    (hbatches : w'.batchStates = w.batchStates) (hname : w'.name = w.name) : Keeps (.webhook w) (.webhook w') :=
  keeps_of_sub (fun _ _ h => hrecords ▸ h) (fun _ state h => ⟨state, hbatches ▸ h, rfl⟩) hname

theorem forget_keeps (taskID : String) : Keeps (.webhook w) (.webhook (w.forget taskID)) :=
  keeps_of_sub (fun _ _ => GoMap.lookup_of_lookup_erase) (fun _ state h => ⟨state, h, rfl⟩) rfl

theorem resolveBatchMember_keeps {state : WebhookBatch} (hstate : w.batchStates.lookup leaseID = some state)
    (success : Bool) : Keeps (.webhook w) (.webhook (w.resolveBatchMember leaseID state success).1) := by
  simp only [resolveBatchMember]
  split
  · refine keeps_of_sub (fun _ _ h => h) (fun L state' h => ?_) rfl
    rw [GoMap.lookup_insert_eq_ite] at h
    split at h
    · rename_i heq
      cases h
      exact ⟨state, heq ▸ hstate, rfl⟩
    · exact ⟨state', h, rfl⟩
  · exact keeps_of_sub (fun _ _ h => h)
      (fun _ state' h => ⟨state', GoMap.lookup_of_lookup_erase h, rfl⟩) rfl

/-- No step of a part of a turn tracks anything new. -/
theorem Part.keeps {A : Prop} {w w' : WebhookGateway}
    {effects : List GatewayEffect} (h : Part P A w w' effects) : Keeps (.webhook w) (.webhook w') := by
  induction h with
  | trans _ _ ih ih' => exact ih.trans ih'
  | note => exact keeps_of_eq rfl rfl rfl
  | @mark w t entry hentry =>
    refine ⟨fun t e he => ?_, fun _ _ h => h, rfl⟩
    simp only [GatewayActor.inflight, GoMap.lookup_insert_eq_ite] at he ⊢
    split at he
    · rename_i heq
      cases he
      exact ⟨entry, heq ▸ hentry, rfl, rfl, rfl, rfl⟩
    · exact ⟨e, he, .refl e⟩
  | report | refill => exact forget_keeps _ _
  | @member w t _ _ _ hstate success =>
    exact (forget_keeps w t).trans (resolveBatchMember_keeps (w.forget t) hstate success)
  | announce | applied | resolveDependents | abort | cancel => exact .refl _

end WebhookGateway

/-- A message a gateway sends its grains under its name. -/
def GrainMessage.FromGateway (name : String) : GrainMessage → Prop
  | .taskCompleted _ _ gateway | .batchCompleted gateway _ _ | .registerGateway gateway _ _ _
  | .gatewayCredit gateway _ => gateway = name
  | _ => False

/-- The answer a message carries, if it carries one: the delivery it is for, or none when it is for
whatever delivery of the task there is. -/
def GatewayMessage.answer? : GatewayMessage → Option (Option Nat)
  | .result _ cause | .batchResult _ cause => some cause
  | .webhookDelivery _ _ number | .webhookBatchDelivery _ _ _ number => some (some number)
  | .leaseResult .. => some none
  | _ => none

/-- The tasks a gateway takes a message to be about. -/
def GatewayActor.Concerns (a : GatewayActor) (t : String) : GatewayMessage → Prop
  | .result result _ => result.taskId = t
  | .batchResult results _ => ∃ result ∈ results, ∃ first ids,
      a.inflight.lookup result.taskId = some first ∧ a.members first.leaseID = some ids ∧ t ∈ ids
  | .webhookDelivery taskID _ _ | .leaseResult taskID _ _ _ => taskID = t
  | .webhookBatchDelivery leaseID _ _ _ => ∃ ids, a.members leaseID = some ids ∧ t ∈ ids
  | _ => False

/-- The gateway takes the message as an answer for a task it tracks under the lease. -/
structure GatewayActor.Takes (a : GatewayActor) (message : GatewayMessage) (cause : Option Nat)
    (t leaseID : String) : Prop where
  answer : message.answer? = some cause
  concerns : a.Concerns t message
  tracked : ∃ e, a.inflight.lookup t = some e ∧ e.leaseID = leaseID

/-- The transitions a piece of work of a stream gateway carries out, with the answer each is for. -/
inductive GatewayWork.Settles : GatewayWork → Option Nat → String → String → Prop where
  | settle {entry : InflightTask} {result : Result} {cause : Option Nat} :
      Settles (.settle entry result cause) cause result.taskId entry.leaseID
  | settleMember {entry : InflightTask} {result : Result} {cause : Option Nat} :
      Settles (.settleMember entry result cause) cause result.taskId entry.leaseID
  | acknowledge {items : List AckItem} {item : AckItem} {queue : String} {total : Nat}
      {cause : Option Nat} (hitem : item ∈ items) :
      Settles (.ackBatch items queue total cause) cause item.taskID item.leaseID

/-- The transitions and parkings the turn of a gateway has still to carry out. -/
def GatewayActor.Settles (a : GatewayActor) (cause : Option Nat) (t leaseID : String) : Prop :=
  match a with
  | .stream g => ∃ work ∈ g.turn, work.Settles cause t leaseID
  | .webhook w => ∃ work ∈ w.turn, work.Settles w.inflight cause t leaseID

/-- The queues and capacities a gateway may announce when it handles a message. -/
def GatewayActor.Announces (message : GatewayMessage) : GatewayActor → String → Int32 → Prop
  | .stream g, of, capacity => of ∈ g.session.queues ∧ capacity = (g.capacities.lookup of).getD 0
  | .webhook w, of, _ =>
    of ∈ w.registration.queues ∨ ∃ worker, message = .updateRegistration worker ∧ of ∈ worker.queues

/-- The credits a worker announces. -/
def GatewayMessage.Pays : GatewayMessage → Prop
  | .credit n => 0 ≤ n.toInt
  | _ => True

/-- An effect that is not a dispatch and tells only what a gateway tells. The transitions it records
have a property. -/
def GatewayEffect.Ordinary (P : Option Nat → String → String → Prop) (name : String) :
    GatewayEffect → Prop
  | .tellGrain _ message => message.FromGateway name
  | .tellSelf message => ∃ queue taskID success, message = .deferredCompletion queue taskID success
  | .deliver .. => False
  | .applied taskID leaseID cause => P cause taskID leaseID
  | _ => True

variable {name : String}

theorem GatewayEffect.Follows.ordinary {announces : String → Int32 → Prop}
    {e : GatewayEffect} (h : e.Follows P announces name) : e.Ordinary P name := by
  cases h with
  | applied h => exact h
  | deferred => exact ⟨_, _, _, rfl⟩
  | announce | taskCompleted | batchCompleted | credit => exact rfl
  | resolveDependents | cancel | abort => trivial

namespace Gateway

open GatewayActor

variable {P : Option Nat → String → String → Prop} (g : Gateway)

theorem register_follows (message : GatewayMessage) :
    ∀ e ∈ g.register, e.Follows P (Announces message (.stream g)) g.name := by
  rw [register]
  split
  · exact List.forall_mem_nil _
  · intro e he
    obtain ⟨queue, hqueue, rfl⟩ := List.mem_map.mp he
    exact .announce ⟨hqueue, rfl⟩

theorem dropLost_follows (taskID : String) (entry : InflightTask) :
    ∀ e ∈ (g.dropLost taskID entry).2, e.Follows P (fun _ _ => False) g.name := by
  simp only [dropLost, refundLostLease]
  refine List.forall_mem_append.mpr ⟨?_, List.forall_mem_singleton.mpr .cancel⟩
  split
  · exact tellServed_follows (.credit (by decide))
  · split
    · exact List.forall_mem_nil _
    · exact tellServed_follows (.credit (by decide))

/-- A piece of work dispatches nothing, announces nothing, and records what it settles. -/
theorem finish_follows (turn : GatewayTurn) (reply : Reply) (work : GatewayWork) :
    ∀ e ∈ (g.finish turn reply work).2, e.Follows work.Settles (fun _ _ => False) g.name := by
  cases work with
  | release | setProgress => exact List.forall_mem_nil _
  | settle =>
    exact List.forall_mem_append.mpr
      ⟨transitionEffects_follows .settle, deferReport_follows (tellServed_follows .taskCompleted)⟩
  | settleMember => exact transitionEffects_follows .settleMember
  | ackBatch =>
    refine List.forall_mem_append.mpr ⟨fun e he => ?_, tellServed_follows .batchCompleted⟩
    obtain ⟨item, hitem, he⟩ := List.mem_flatMap.mp he
    rcases List.mem_pair.mp he with rfl | rfl
    · exact .applied (.acknowledge (List.mem_filter.mp hitem).1)
    · exact .resolveDependents
  | extendLease taskID =>
    rw [finish]
    split
    · exact List.forall_mem_nil _
    · split
      · exact dropLost_follows g taskID _
      · exact List.forall_mem_nil _

end Gateway

variable {d : Delivery}

namespace GatewayActor

variable {settings : Settings} {turn : GatewayTurn} {message : GatewayMessage} {a : GatewayActor}

/-- A message either dispatches nothing or starts a delivery. -/
theorem dispatched_or_delivery (message : GatewayMessage) (name : String) (sent : Bool) :
    message.dispatched = [] ∨ ∃ d, message.delivery name sent = some d := by
  cases message with
  | executeTask => exact .inr ⟨_, rfl⟩
  | executeBatch tasks leaseID expiresAt group =>
    cases tasks with
    | nil => exact .inl rfl
    | cons task rest => exact .inr ⟨_, rfl⟩
  | _ => exact .inl rfl

/-- A webhook gateway takes the response to a delivery that it tracks. -/
theorem takes_delivery {w : WebhookGateway} (t : String) (answer : WebhookAnswer) (number : Nat) (entry : InflightTask)
    (h : message = .webhookDelivery t answer number) (hentry : w.inflight.lookup t = some entry) :
    Takes (.webhook w) message (some number) t entry.leaseID := by
  subst h
  exact ⟨rfl, rfl, entry, hentry, rfl⟩

/-- A turn that dispatches nothing tracks nothing new. -/
theorem receive_keeps (h : message.dispatched = []) : Keeps a (a.receive settings turn message).1 := by
  cases a with
  | stream g =>
    cases message with
    | executeTask => cases h
    | executeBatch =>
      cases h
      exact .refl _
    | result result cause => exact Gateway.result_keeps g result cause
    | batchResult results cause => exact Gateway.batchResult_keeps g results cause
    | cancelActive taskID => exact Gateway.cancelActive_keeps g taskID
    | progress taskID percent text => exact Gateway.progress_keeps g taskID percent text
    | drainSession => exact Gateway.drain_keeps g turn
    | heartbeat ids => exact Gateway.keeps_of_sub (fun _ _ h => h) (fun _ _ h => h) rfl
    | _ => exact .refl _
  | webhook w =>
    have hroutine : WebhookGateway.routine message = true →
        Keeps (.webhook w) (.webhook (w.receive settings turn message).1) := by
      intro hroutine
      obtain ⟨w', work, heq, hpart⟩ := WebhookGateway.receive_part settings turn hroutine takes_delivery
      rw [heq]
      exact hpart.keeps.trans (WebhookGateway.keeps_of_eq rfl rfl rfl)
    cases message with
    | executeTask => cases h
    | executeBatch =>
      cases h
      exact .refl _
    | drainSession =>
      exact WebhookGateway.keeps_of_sub (fun _ _ h => by cases h) (fun _ _ h => by cases h) rfl
    | updateRegistration worker => exact WebhookGateway.keeps_of_eq rfl rfl rfl
    | deferredCompletion => exact .refl _
    | _ => exact hroutine rfl

/-- A turn that dispatches nothing tells only what a gateway tells, and records only an answer it took. -/
theorem receive_follows (h : message.dispatched = []) (hpays : message.Pays) :
    ∀ e ∈ (a.receive settings turn message).2, e.Follows (a.Takes message) (a.Announces message) a.name := by
  cases a with
  | stream g =>
    cases message with
    | executeTask => cases h
    | executeBatch =>
      cases h
      exact List.forall_mem_nil _
    | postStart | registerTick => exact Gateway.register_follows g _
    | deferredCompletion => exact tellServed_follows .taskCompleted
    | credit n =>
      intro e he
      obtain ⟨queue, -, rfl⟩ := List.mem_map.mp he
      exact .credit hpays
    | cancelActive taskID =>
      simp only [receive, Gateway.receive, Gateway.cancelActive]
      split
      · exact List.forall_mem_nil _
      · exact List.forall_mem_singleton.mpr .cancel
    | _ => exact List.forall_mem_nil _
  | webhook w =>
    have hroutine : WebhookGateway.routine message = true → ∀ e ∈ (w.receive settings turn message).2,
        e.Follows (Takes (.webhook w) message) (Announces message (.webhook w)) w.name := by
      intro hroutine e he
      obtain ⟨w', work, -, hpart⟩ := WebhookGateway.receive_part settings turn hroutine takes_delivery
      exact (hpart.follows e he).mono (fun _ _ _ h => h) fun _ _ h => .inl h.2
    cases message with
    | executeTask => cases h
    | executeBatch =>
      cases h
      exact List.forall_mem_nil _
    | drainSession => exact List.forall_mem_nil _
    | updateRegistration worker =>
      refine List.forall_mem_append.mpr ⟨fun e he => ?_, WebhookGateway.register_follows
        (fun queue _ hqueue => .inr ⟨worker, rfl, hqueue⟩) turn.order⟩
      obtain ⟨queue, hqueue, rfl⟩ := List.mem_map.mp he
      exact .announce (.inl ((MapOrder.mem_visit ..).mp (List.mem_filter.mp hqueue).1))
    | deferredCompletion => exact tellServed_follows .taskCompleted
    | _ => exact hroutine rfl

theorem receive_ordinary (h : message.dispatched = []) :
    ∀ e ∈ (a.receive settings turn message).2, e.Ordinary (a.Takes message) a.name := by
  cases message with
  | credit n =>
    -- credits the worker opens are passed on whatever their sign
    cases a with
    | stream g =>
      intro e he
      obtain ⟨queue, -, rfl⟩ := List.mem_map.mp he
      rfl
    | webhook w => exact List.forall_mem_nil _
  | _ => exact fun e he => (receive_follows h trivial e he).ordinary

/-- What a dispatch leaves: no records but the old ones and those of the tasks it tracks, and at most its own batch
next to the old ones. -/
theorem receive_dispatched (name : String) (h : message.dispatched ≠ []) :
    (∀ t e, (a.receive settings turn message).1.inflight.lookup t = some e →
        (trackAll message.lease message.dispatched a.inflight).lookup t = some e) ∧
      (∀ leaseID ids, (a.receive settings turn message).1.members leaseID = some ids →
        a.members leaseID = some ids ∨ ∃ d, message.delivery name (a.sends turn) = some d ∧
          d.batch = true ∧ d.leaseID = leaseID ∧ d.tasks = ids) ∧
      (a.receive settings turn message).1.name = a.name := by
  cases message with
  | executeTask =>
    cases a with
    | stream g =>
      simp only [receive, Gateway.receive, Gateway.dispatch, Prod.map]
      split
      · exact ⟨fun _ _ h => h, fun _ _ h => .inl h, rfl⟩
      · exact ⟨fun _ _ => GoMap.lookup_of_lookup_erase, fun _ _ h => .inl h, rfl⟩
    | webhook w => exact ⟨fun _ _ h => h, fun _ _ h => .inl h, rfl⟩
  | executeBatch tasks leaseID expiresAt group =>
    cases tasks with
    | nil => exact absurd rfl h
    | cons task rest =>
      cases a with
      | stream g =>
        have hinsert : ∀ L ids, (g.batches.insert leaseID ((task :: rest).map TaskEnvelope.id)).lookup L = some ids →
            g.batches.lookup L = some ids ∨ leaseID = L ∧ (task :: rest).map TaskEnvelope.id = ids := by
          intro L ids hids
          rw [GoMap.lookup_insert_eq_ite] at hids
          split at hids
          · rename_i heq
            exact .inr ⟨heq.symm, Option.some.inj hids⟩
          · exact .inl hids
        simp only [receive, Gateway.receive, Gateway.dispatchBatch, Prod.map]
        split
        · exact ⟨fun _ _ h => h, fun L ids h => (hinsert L ids h).imp_right fun h => ⟨_, rfl, rfl, h⟩, rfl⟩
        · exact ⟨fun _ _ => GoMap.lookup_of_lookup_erases _, fun L ids h =>
            (hinsert L ids (GoMap.lookup_of_lookup_erase h)).imp_right fun h => ⟨_, rfl, rfl, h⟩, rfl⟩
      | webhook w =>
        refine ⟨fun _ _ h => h, fun L ids hids => ?_, rfl⟩
        simp only [receive, WebhookGateway.receive, WebhookGateway.deliverBatch, Prod.map, members,
          GoMap.lookup_insert_eq_ite] at hids
        split at hids
        · rename_i heq
          exact .inr ⟨_, rfl, rfl, heq.symm, Option.some.inj hids⟩
        · exact .inl hids
  | _ => exact absurd rfl h

/-- Every record after the first part of a turn was there before or belongs to a task just
dispatched. -/
theorem receive_records {e : InflightTask} (h : (a.receive settings turn message).1.inflight.lookup t = some e) :
    (t ∉ message.dispatched.map TaskEnvelope.id ∧ ∃ old, a.inflight.lookup t = some old ∧ old.SameDelivery e) ∨ ∃ task ∈
      message.dispatched, task.id = t ∧ e = trackedTask task message.lease := by
  by_cases hnone : message.dispatched = []
  · obtain ⟨old, hold⟩ := (receive_keeps hnone).records t e h
    rw [hnone]
    exact .inl ⟨List.not_mem_nil, old, hold⟩
  · have htracked := (receive_dispatched "" hnone).1 t e h
    rcases trackAll_lookup message.lease message.dispatched a.inflight t with ⟨task, htask, hid, heq⟩ | ⟨hnot, heq⟩
    · exact .inr ⟨task, htask, hid, Option.some.inj (htracked.symm.trans heq)⟩
    · exact .inl ⟨hnot, e, heq.symm.trans htracked, .refl e⟩

/-- Every batch tracked after the first part of a turn was there before or was just dispatched. -/
theorem receive_members {ids : List String} (name : String)
    (h : (a.receive settings turn message).1.members leaseID = some ids) :
    a.members leaseID = some ids ∨ ∃ d, message.delivery name (a.sends turn) = some d ∧
      d.batch = true ∧ d.leaseID = leaseID ∧ d.tasks = ids := by
  by_cases hnone : message.dispatched = []
  · exact .inl ((receive_keeps hnone).members leaseID ids h)
  · exact (receive_dispatched name hnone).2.1 leaseID ids h

/-- A turn never renames the gateway. -/
theorem receive_name : (a.receive settings turn message).1.name = a.name := by
  by_cases hnone : message.dispatched = []
  · exact (receive_keeps hnone).name
  · exact (receive_dispatched "" hnone).2.2

/-- Going on with a turn keeps records or drops them. -/
theorem resume_keeps (reply : Reply) : Keeps a (a.resume settings turn reply).1 := by
  cases a with
  | stream g =>
    rw [resume]
    split
    · exact .refl _
    · rename_i work rest _
      obtain ⟨inflight, batches, heq, hrecords, hbatches⟩ := Gateway.finish_state { g with turn := rest } turn reply work
      have hkeeps : Keeps (.stream g) (.stream (Gateway.finish turn { g with turn := rest } reply work).1) := by
        rw [heq]
        exact Gateway.keeps_of_sub hrecords hbatches rfl
      exact hkeeps
  | webhook w =>
    rw [resume]
    split
    · exact .refl _
    · rename_i work rest _
      have hrest : Keeps (.webhook w) (.webhook { w with turn := rest }) := WebhookGateway.keeps_of_eq rfl rfl rfl
      exact hrest.trans (WebhookGateway.finish_part reply work).keeps

/-- Going on with a turn dispatches and announces nothing, and records what the turn had to settle. -/
theorem resume_follows (reply : Reply) :
    ∀ e ∈ (a.resume settings turn reply).2, e.Follows a.Settles (fun _ _ => False) a.name := by
  cases a with
  | stream g =>
    rw [resume]
    split
    · exact List.forall_mem_nil _
    · rename_i work rest hturn
      refine fun e he => (Gateway.finish_follows { g with turn := rest } turn reply work e he).mono ?_ fun _ _ => id
      exact fun cause t leaseID h => ⟨work, hturn ▸ (.head _), h⟩
  | webhook w =>
    rw [resume]
    split
    · exact List.forall_mem_nil _
    · rename_i work rest hturn
      refine fun e he => ((WebhookGateway.finish_part reply work).follows e he).mono ?_ fun _ _ => And.left
      exact fun cause t leaseID h => ⟨work, hturn ▸ (.head _), h⟩

theorem resume_ordinary (reply : Reply) : ∀ e ∈ (a.resume settings turn reply).2, e.Ordinary a.Settles a.name :=
  fun e he => (resume_follows reply e he).ordinary

/-- The effects of a dispatch are its delivery. -/
theorem receive_dispatch (settings : Settings) (turn : GatewayTurn)
    (h : message.delivery name (a.sends turn) = some d) :
    (a.receive settings turn message).2 = [.deliver d.queue d.leaseID d.tasks d.batch d.open_] ∧
      GatewayEffect.delivery name (.deliver d.queue d.leaseID d.tasks d.batch d.open_) = some d := by
  cases message with
  | executeTask =>
    cases h
    cases a <;> exact ⟨rfl, rfl⟩
  | executeBatch tasks leaseID expiresAt group =>
    cases tasks with
    | nil => cases h
    | cons task rest =>
      cases h
      cases a <;> exact ⟨rfl, rfl⟩
  | _ => cases h

end GatewayActor

/-- A turn that dispatches adds its delivery and changes the gateway, nothing else. -/
theorem System.gatewayTurn_dispatch {s : System} {settings : Settings} {turn : GatewayTurn}
    {message : GatewayMessage}     (h : message.delivery name (a.sends turn) = some d) :
    s.gatewayTurn settings turn name message a =
      { s with
        gateways := Function.update s.gateways name
          (some (a.receive settings { turn with delivery := s.deliveries.length } message).1)
        deliveries := s.deliveries ++ [d] } := by
  obtain ⟨heffects, hrecord⟩ := GatewayActor.receive_dispatch settings
    { turn with delivery := s.deliveries.length } h
  simp only [gatewayTurn, setGateway, emitGateway, heffects, List.filterMap_cons, List.filterMap_nil,
    hrecord, GatewayEffect.message, GatewayEffect.later, GatewayEffect.aborted, GatewayEffect.record,
    List.append_nil, List.foldl_nil]

/-- The gateways of a system that starts are as they start for a session or a registration. -/
theorem System.start_gateway {d : Deployment} (h : (System.start d).gateways name = some a) :
    (∃ session, a = .stream (Gateway.preStart session)) ∨
      ∃ registration, a = .webhook (WebhookGateway.preStart registration) := by
  simp only [System.start, Deployment.gateway] at h
  split at h
  · rename_i g hg
    obtain ⟨session, -, rfl⟩ := List.mem_map.mp (List.mem_of_find?_eq_some hg)
    exact .inl ⟨session, (Option.some.inj h).symm⟩
  · obtain ⟨w, hw, rfl⟩ := Option.map_eq_some_iff.mp h
    obtain ⟨registration, -, rfl⟩ := List.mem_map.mp (List.mem_of_find?_eq_some hw)
    exact .inr ⟨registration, rfl⟩

end Conveyor
