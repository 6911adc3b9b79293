import Conveyor.Actors.Ledger

/-!
# The credits a webhook gateway holds

As for a stream gateway, a part of a turn of a webhook gateway creates no credits: a delivery or a batch
is forgotten only with the report that frees its slot. A batch counts once, as long as some member
is tracked, so its count of remaining members has to cover the members tracked.
-/

namespace Conveyor

open Lib

namespace WebhookGateway

/-- Whether a lease is that of a tracked batch. -/
def batched (w : WebhookGateway) (leaseID : String) : Bool := (w.batchStates.lookup leaseID).isSome

/-- The credits of a queue a webhook gateway holds: one for each delivery, open or accepted, and one for
each batch. -/
def stake (queue : String) (w : WebhookGateway) : Int :=
  singles w.inflight w.batched queue + tally (fun _ state => state.queue == queue) w.batchStates

/-- The tasks tracked under a lease. -/
def trackedUnder (leaseID : String) (inflight : GoMap String InflightTask) : Int :=
  tally (fun _ entry => entry.leaseID == leaseID) inflight

/-- Every tracked batch has at least as many members to resolve as are tracked. -/
def Counted (w : WebhookGateway) : Prop :=
  ∀ leaseID state, w.batchStates.lookup leaseID = some state → trackedUnder leaseID w.inflight ≤ state.remaining

/-- A dispatch comes under a lease the gateway knows nothing of. -/
def Fits (w : WebhookGateway) : GatewayMessage → Prop
  | .executeTask _ leaseID _ => w.batchStates.lookup leaseID = none
  | .executeBatch tasks leaseID _ _ => tasks ≠ [] → w.batchStates.lookup leaseID = none ∧
      ∀ t entry, w.inflight.lookup t = some entry → entry.leaseID ≠ leaseID
  | _ => True

section Turn

variable {queue : String} {w : WebhookGateway} {settings : Settings} {turn : GatewayTurn}

variable {leaseID : String} {state : WebhookBatch}

theorem batched_of_lookup (h : w.batchStates.lookup leaseID = some state) : w.batched leaseID = true := by
  rw [batched, h]
  rfl

theorem not_batched_of_lookup (h : w.batchStates.lookup leaseID = none) : w.batched leaseID = false := by
  rw [batched, h]
  rfl

theorem stake_nonneg (queue : String) (w : WebhookGateway) : 0 ≤ w.stake queue :=
  add_nonneg (tally_nonneg _ _) (tally_nonneg _ _)

variable {t : String} {entry : InflightTask}

theorem trackedUnder_erase {inflight : GoMap String InflightTask} (h : inflight.lookup t = some entry)
    (leaseID : String) :
    trackedUnder leaseID (inflight.erase t) + indicator (entry.leaseID = leaseID) = trackedUnder leaseID inflight := by
  have herase := tally_erase (fun _ entry => entry.leaseID == leaseID) inflight t
  rw [tallyAt_of_lookup h] at herase
  simpa [trackedUnder, indicator] using herase

theorem trackedUnder_le {inflight inflight' : GoMap String InflightTask}
    (hsub : ∀ t entry, inflight'.lookup t = some entry → entry.leaseID = leaseID → inflight.lookup t = some entry) :
    trackedUnder leaseID inflight' ≤ trackedUnder leaseID inflight :=
  tally_le fun t entry hentry hlease => ⟨hsub t entry hentry (by simpa using hlease), hlease⟩

/-- A batch that goes on counts as before. -/
theorem stake_updateBatch {next : WebhookBatch}
    (hstate : w.batchStates.lookup leaseID = some state) (hqueue : next.queue = state.queue) :
    stake queue { w with batchStates := w.batchStates.insert leaseID next } = w.stake queue := by
  have hsame : singles w.inflight (batched { w with batchStates := w.batchStates.insert leaseID next }) queue =
      singles w.inflight w.batched queue := by
    refine singles_congr fun t entry _ => ?_
    rw [batched, batched, GoMap.lookup_insert_eq_ite]
    split_ifs with heq
    · rw [heq, hstate]
      rfl
    · rfl
  have hinsert := tally_insert (fun _ (state : WebhookBatch) => state.queue == queue) w.batchStates leaseID next
  rw [tallyAt_of_lookup hstate, hqueue] at hinsert
  rw [stake, stake, hsame]
  exact congrArg _ (add_right_cancel hinsert)

/-- A batch without tracked members gives its credit back when it is forgotten. -/
theorem stake_forgetBatch (hstate : w.batchStates.lookup leaseID = some state)
    (hnone : trackedUnder leaseID w.inflight ≤ 0) :
    stake queue { w with batchStates := w.batchStates.erase leaseID } + indicator (state.queue = queue) =
      w.stake queue := by
  have hsame : singles w.inflight (batched { w with batchStates := w.batchStates.erase leaseID }) queue =
      singles w.inflight w.batched queue := by
    refine singles_congr fun t entry hentry => ?_
    have hne : entry.leaseID ≠ leaseID := by
      rintro rfl
      have herase := trackedUnder_erase hentry entry.leaseID
      rw [indicator_true rfl] at herase
      have hnonneg : 0 ≤ trackedUnder entry.leaseID (w.inflight.erase t) := tally_nonneg _ _
      omega
    rw [batched, batched, AList.lookup_erase_ne hne]
  have herase := tally_erase (fun _ (state : WebhookBatch) => state.queue == queue) w.batchStates leaseID
  rw [tallyAt_of_lookup hstate] at herase
  rw [stake, stake, hsame, ← herase]
  simp [indicator, Int.add_assoc]

/-- A batch loses a member that is no longer tracked. The credit of the batch goes out with the report
for its last member. -/
theorem resolveBatchMember_balance (hstate : w.batchStates.lookup leaseID = some state) (success : Bool)
    (hleft : trackedUnder leaseID w.inflight ≤ state.remaining - 1) :
    (w.resolveBatchMember leaseID state success).1.stake queue +
      returned w.name queue (w.resolveBatchMember leaseID state success).2 ≤ w.stake queue := by
  rw [resolveBatchMember]
  split
  · have hupdate := @stake_updateBatch queue w leaseID state
      { state with
        remaining := state.remaining - 1
        succeeded := if success then state.succeeded + 1 else state.succeeded } hstate rfl
    exact ((add_zero _).trans hupdate).le
  · rename_i hlast
    have hforget := @stake_forgetBatch queue w leaseID state hstate (by omega)
    have hreport := (@returned_tellServed w.name queue (w.serves state.queue) state.queue
      (.batchCompleted w.name state.members.length (if success then state.succeeded + 1 else state.succeeded))
      (indicator_true rfl)).le
    exact le_trans (Int.add_le_add_left hreport _) hforget.le

/-- Forgetting a record. -/
theorem forget_stake (hentry : w.inflight.lookup t = some entry) :
    (w.forget t).stake queue + entry.single w.batched queue = w.stake queue := by
  have herase := @singles_erase _ w.batched queue t _ hentry
  change singles (w.inflight.erase t) w.batched queue + tally _ w.batchStates + _ = _
  rw [stake]
  omega

/-- A forgotten member of a batch leaves fewer members tracked than there were to resolve. -/
theorem forget_left (hcounted : w.Counted) (hentry : w.inflight.lookup t = some entry)
    (hstate : w.batchStates.lookup entry.leaseID = some state) :
    trackedUnder entry.leaseID (w.forget t).inflight ≤ state.remaining - 1 := by
  have herase := trackedUnder_erase hentry entry.leaseID
  rw [indicator_true rfl] at herase
  have := hcounted entry.leaseID state hstate
  have hforget : (w.forget t).inflight = w.inflight.erase t := rfl
  rw [hforget]
  omega

/-- A delivery of its own is forgotten with a report for its credit. -/
theorem forget_balance (hentry : w.inflight.lookup t = some entry) (hsingle : w.batchStates.lookup entry.leaseID = none)
    {report : List GatewayEffect} (hreport : returned w.name queue report ≤ indicator (entry.queue = queue)) :
    (w.forget t).stake queue + returned w.name queue report ≤ w.stake queue := by
  have hforget := @forget_stake queue w t entry hentry
  rw [InflightTask.single_of_not_batched (not_batched_of_lookup hsingle)] at hforget
  exact le_trans (Int.add_le_add_left hreport _) hforget.le

/-- Replacing or forgetting the state of a batch keeps the counts when its own is right. -/
theorem resolveBatchMember_counted (hcounted : w.Counted) (success : Bool)
    (hleft : trackedUnder leaseID w.inflight ≤ state.remaining - 1) :
    (w.resolveBatchMember leaseID state success).1.Counted := by
  intro other found hfound
  rw [resolveBatchMember] at hfound ⊢
  split at hfound
  · rename_i hmore
    rw [if_pos hmore]
    rw [GoMap.lookup_insert_eq_ite] at hfound
    split at hfound
    · rename_i heq
      subst heq
      cases hfound
      exact hleft
    · exact hcounted other found hfound
  · rename_i hmore
    rw [if_neg hmore]
    exact hcounted other found (GoMap.lookup_of_lookup_erase hfound)

theorem forget_counted (hcounted : w.Counted) (t : String) : (w.forget t).Counted := fun leaseID state hstate =>
  (trackedUnder_le fun _ _ hentry _ => GoMap.lookup_of_lookup_erase hentry).trans (hcounted leaseID state hstate)

/-- What a part of a turn that frees slots leaves behind. -/
structure Frees (w : WebhookGateway) (result : WebhookGateway × List GatewayEffect) : Prop where
  stake : ∀ queue, result.1.stake queue + returned w.name queue result.2 ≤ w.stake queue
  counted : result.1.Counted
  name : result.1.name = w.name

theorem Frees.refl (hcounted : w.Counted) : Frees w (w, []) :=
  ⟨fun queue => (add_zero (w.stake queue)).le, hcounted, rfl⟩

theorem Frees.trans {first next : WebhookGateway × List GatewayEffect} (h : Frees w first)
    (h' : Frees first.1 next) : Frees w (next.1, first.2 ++ next.2) where
  stake := fun queue => by
    have hfirst := h.stake queue
    have hnext := h'.stake queue
    rw [h.name] at hnext
    dsimp only
    rw [returned_append]
    omega
  counted := h'.counted
  name := h'.name.trans h.name

theorem register_returned (order : MapOrder String) : returned w.name queue (w.register order) = 0 := by
  rw [register]
  split
  · rfl
  · refine weigh_eq_zero fun effect heffect => ?_
    obtain ⟨of, -, rfl⟩ := List.mem_map.mp heffect
    simp [GatewayEffect.returns, GrainMessage.refund]

/-- A marked record counts for what it did before. -/
theorem mark_frees (hcounted : w.Counted) (hentry : w.inflight.lookup t = some entry) :
    Frees w ({ w with inflight := w.inflight.insert t { entry with cancelRequested := true } }, []) := by
  refine ⟨fun queue => ?_, fun leaseID state hstate => ?_, rfl⟩
  · have hinsert := tally_insert (fun _ entry => entry.queue == queue && !w.batched entry.leaseID) w.inflight
      t { entry with cancelRequested := true }
    rw [tallyAt_of_lookup hentry] at hinsert
    have hsame := add_right_cancel hinsert
    exact ((add_zero _).trans (congrArg (· + tally (fun _ (state : WebhookBatch) => state.queue == queue)
      w.batchStates) hsame)).le
  · have hinsert := tally_insert (fun _ entry => entry.leaseID == leaseID) w.inflight t
      { entry with cancelRequested := true }
    rw [tallyAt_of_lookup hentry] at hinsert
    exact (add_right_cancel hinsert).le.trans (hcounted leaseID state hstate)

/-- No part of a turn creates credits. -/
theorem Part.frees {P : Option Nat → String → String → Prop} {A : Prop} {w' : WebhookGateway}
    {effects : List GatewayEffect} (h : Part P A w w' effects) (hcounted : w.Counted) : Frees w (w', effects) := by
  induction h with
  | trans _ _ ih ih' => exact (ih hcounted).trans (ih' (ih hcounted).counted)
  | mark hentry => exact mark_frees hcounted hentry
  | announce _ order =>
    exact ⟨fun queue => ((congrArg _ (register_returned order)).trans (add_zero _)).le, hcounted, rfl⟩
  | @report w t entry hentry hsingle turn success =>
    refine ⟨fun queue => forget_balance hentry hsingle ?_, forget_counted hcounted t, rfl⟩
    exact (@returned_deferReport w.name queue turn entry.queue t success _ (.taskCompleted t success w.name)
      (indicator_true rfl)).le
  | @refill w t entry hentry hsingle =>
    refine ⟨fun queue => forget_balance hentry hsingle ?_, forget_counted hcounted t, rfl⟩
    exact (@returned_tellServed w.name queue _ entry.queue (.gatewayCredit w.name 1) (if_pos rfl)).le
  | @member w t entry state hentry hstate success =>
    have hleft := forget_left hcounted hentry hstate
    refine ⟨fun queue => ?_, resolveBatchMember_counted (forget_counted hcounted t) success hleft,
      (resolveBatchMember_keeps (w.forget t) hstate success).name⟩
    have hforget := @forget_stake queue w t entry hentry
    rw [InflightTask.single_of_batched (batched_of_lookup hstate), add_zero] at hforget
    exact (@resolveBatchMember_balance queue (w.forget t) entry.leaseID state hstate success hleft).trans hforget.le
  | note | applied | resolveDependents | abort | cancel =>
    exact ⟨fun queue => (add_zero (stake queue _)).le, hcounted, rfl⟩

/-- Posting one task. -/
theorem deliver_balance (task : TaskEnvelope) (hnew : w.batchStates.lookup leaseID = none) :
    (w.deliver turn task leaseID).1.stake queue + returned w.name queue (w.deliver turn task leaseID).2 ≤
      w.stake queue + indicator (task.queue = queue) := by
  have hsingle : (trackedTask task leaseID).single w.batched queue = indicator (task.queue = queue) :=
    InflightTask.single_of_not_batched (not_batched_of_lookup hnew)
  have hinsert := (@singles_insert w.inflight w.batched queue task.id (trackedTask task leaseID)).le
  change singles (w.inflight.insert task.id (trackedTask task leaseID)) w.batched queue + tally _ w.batchStates + 0 ≤ _
  rw [stake]
  omega

theorem deliver_counted (hcounted : w.Counted) (task : TaskEnvelope)
    (hnew : w.batchStates.lookup leaseID = none) : (w.deliver turn task leaseID).1.Counted := by
  intro other state hstate
  refine le_trans (trackedUnder_le fun t entry hentry hlease => ?_) (hcounted other state hstate)
  have hentry' : (w.inflight.insert task.id (trackedTask task leaseID)).lookup t = some entry := hentry
  rw [GoMap.lookup_insert_eq_ite] at hentry'
  split at hentry'
  · cases hentry'
    subst hlease
    cases hnew.symm.trans hstate
  · exact hentry'

/-- Posting a fired group. -/
theorem deliverBatch_balance (task : TaskEnvelope) (rest : List TaskEnvelope)
    (hnew : w.batchStates.lookup leaseID = none)
    (hunused : ∀ t entry, w.inflight.lookup t = some entry → entry.leaseID ≠ leaseID) :
    (w.deliverBatch turn (task :: rest) leaseID).1.stake queue +
      returned w.name queue (w.deliverBatch turn (task :: rest) leaseID).2 ≤ w.stake queue +
      indicator (task.queue = queue) := by
  generalize hstate : ({ queue := task.queue
                         members := (task :: rest).map TaskEnvelope.id
                         remaining := ((task :: rest).map TaskEnvelope.id).length } : WebhookBatch) = state
  have hbatch : ((w.batchStates.insert leaseID state).lookup leaseID).isSome = true := by
    rw [AList.lookup_insert]
    rfl
  have htrack := (@singles_trackAll (fun L => ((w.batchStates.insert leaseID state).lookup L).isSome) queue leaseID hbatch
    (task :: rest) w.inflight).le
  have hsame : singles w.inflight (fun L => ((w.batchStates.insert leaseID state).lookup L).isSome) queue =
      singles w.inflight w.batched queue := by
    refine singles_congr fun t entry hentry => ?_
    rw [AList.lookup_insert_ne (hunused t entry hentry)]
    rfl
  have hinsert := tally_insert (fun _ (state : WebhookBatch) => state.queue == queue) w.batchStates leaseID state
  have hind : indicator ((state.queue == queue) = true) = indicator (task.queue = queue) := by simp [← hstate, indicator]
  rw [tallyAt_of_none hnew, hind] at hinsert
  rw [hsame] at htrack
  subst hstate
  refine (Int.add_le_add_right (Int.add_le_add_right htrack _) 0).trans ?_
  change _ + tally _ (w.batchStates.insert leaseID _) + 0 ≤ _
  rw [stake]
  omega

/-- No more tasks are tracked under the lease of a new batch than it has members. -/
theorem trackedUnder_trackAll (tasks : List TaskEnvelope) (inflight : GoMap String InflightTask) :
    trackedUnder leaseID (trackAll leaseID tasks inflight) ≤ trackedUnder leaseID inflight + tasks.length := by
  induction tasks generalizing inflight with
  | nil => exact (add_zero _).ge
  | cons task rest ih =>
    have hrest := ih (inflight.insert task.id (trackedTask task leaseID))
    have hinsert := tally_insert (fun _ entry => entry.leaseID == leaseID) inflight task.id (trackedTask task leaseID)
    have hat := @tallyAt_nonneg _ _ (fun _ (entry : InflightTask) => entry.leaseID == leaseID) inflight _ task.id
    have hone : indicator (((trackedTask task leaseID).leaseID == leaseID) = true) = 1 := indicator_true (by simp [trackedTask])
    rw [List.length_cons]
    change trackedUnder leaseID (trackAll leaseID rest (inflight.insert task.id (trackedTask task leaseID))) ≤ _
    rw [trackedUnder] at hrest ⊢
    rw [trackedUnder] at hrest ⊢
    omega

theorem deliverBatch_counted (hcounted : w.Counted) (task : TaskEnvelope) (rest : List TaskEnvelope)
    (hunused : ∀ t entry, w.inflight.lookup t = some entry → entry.leaseID ≠ leaseID) :
    (w.deliverBatch turn (task :: rest) leaseID).1.Counted := by
  intro other state hstate
  change trackedUnder other (trackAll leaseID (task :: rest) w.inflight) ≤ _
  change (w.batchStates.insert leaseID _).lookup other = some state at hstate
  rw [GoMap.lookup_insert_eq_ite] at hstate
  split at hstate
  · rename_i heq
    subst heq
    cases hstate
    have hnone : trackedUnder other w.inflight = 0 :=
      tally_eq_zero fun t entry hentry => beq_eq_false_iff_ne.mpr (hunused t entry hentry)
    have htrack := @trackedUnder_trackAll other (task :: rest) w.inflight
    rw [hnone, zero_add] at htrack
    rw [List.length_map]
    exact htrack
  · rename_i hne
    refine le_trans (trackedUnder_le fun t entry hentry hlease => ?_) (hcounted other state hstate)
    rcases trackAll_lookup leaseID (task :: rest) w.inflight t with ⟨member, -, -, htracked⟩ | ⟨-, hsame⟩
    · cases htracked.symm.trans hentry
      exact absurd hlease.symm hne
    · exact hsame.symm.trans hentry

/-- The messages that are no dispatch and no withheld report. -/
theorem receive_frees (hcounted : w.Counted) {message : GatewayMessage} (hdispatched : message.dispatched = [])
    (hdeferred : ∀ of taskID success, message ≠ .deferredCompletion of taskID success) :
    Frees w (w.receive settings turn message) := by
  have hroutine : routine message = true → Frees w (w.receive settings turn message) := by
    intro hroutine
    obtain ⟨w', work, heq, hpart⟩ := receive_part (P := fun _ _ _ => True) settings turn hroutine
      fun _ _ _ _ _ _ => trivial
    have hfree := hpart.frees hcounted
    refine ⟨?_, ?_, ?_⟩ <;> rw [heq]
    · exact hfree.stake
    · exact hfree.counted
    · exact hfree.name
  cases message with
  | executeTask => cases hdispatched
  | executeBatch =>
    cases hdispatched
    exact .refl hcounted
  | deferredCompletion of taskID success => exact absurd rfl (hdeferred of taskID success)
  | updateRegistration worker =>
    rw [receive, apply]
    refine ⟨fun queue => ?_, hcounted, rfl⟩
    have hwithdrawn : ∀ dropped : List String, returned w.name queue
        (dropped.map fun of => GatewayEffect.tellGrain of (.registerGateway w.name 0 0 [])) = 0 := by
      intro dropped
      refine weigh_eq_zero fun effect heffect => ?_
      obtain ⟨of, -, rfl⟩ := List.mem_map.mp heffect
      simp [GatewayEffect.returns, GrainMessage.refund]
    have hregister := @register_returned queue
      { w with registration := worker, capacities := splitCapacities worker } turn.order
    rw [returned_append, hwithdrawn, zero_add]
    exact ((congrArg _ hregister).trans (add_zero _)).le
  | drainSession =>
    refine ⟨fun queue => ?_, fun leaseID state hstate => (by cases hstate), rfl⟩
    exact w.stake_nonneg queue
  | _ => exact hroutine rfl

/-- The first part of a turn creates no credits. -/
theorem receive_balance (hcounted : w.Counted) {message : GatewayMessage} (hfits : w.Fits message) :
    (w.receive settings turn message).1.stake queue + returned w.name queue (w.receive settings turn message).2 ≤
      w.stake queue + message.owed queue := by
  have hquiet : message.dispatched = [] → (∀ of taskID success, message ≠ .deferredCompletion of taskID success) →
      0 ≤ message.owed queue → (w.receive settings turn message).1.stake queue +
        returned w.name queue (w.receive settings turn message).2 ≤ w.stake queue + message.owed queue := by
    intro hdispatched hdeferred howed
    have := (@receive_frees w settings turn hcounted message hdispatched hdeferred).stake queue
    omega
  cases message with
  | executeTask task leaseID expiresAt => exact deliver_balance task hfits
  | executeBatch tasks leaseID expiresAt group =>
    cases tasks with
    | nil => exact hquiet rfl nofun le_rfl
    | cons task rest =>
      obtain ⟨hnew, hunused⟩ := hfits nofun
      exact deliverBatch_balance task rest hnew hunused
  | deferredCompletion of taskID success =>
    have hreport := (@returned_tellServed w.name queue (w.serves of) of (.taskCompleted taskID success w.name)
      (indicator_true rfl)).le
    exact Int.add_le_add_left hreport _
  | _ => exact hquiet rfl nofun le_rfl

/-- The first part of a turn keeps the counts of the batches right. -/
theorem receive_counted (hcounted : w.Counted) {message : GatewayMessage} (hfits : w.Fits message) :
    (w.receive settings turn message).1.Counted := by
  cases message with
  | executeTask task leaseID expiresAt => exact deliver_counted hcounted task hfits
  | executeBatch tasks leaseID expiresAt group =>
    cases tasks with
    | nil => exact hcounted
    | cons task rest => exact deliverBatch_counted hcounted task rest (hfits nofun).2
  | deferredCompletion => exact hcounted
  | _ =>
    refine (receive_frees hcounted rfl ?_).counted
    exact nofun

end Turn

end WebhookGateway

end Conveyor
