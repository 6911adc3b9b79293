import Conveyor.Actors.Records
import Conveyor.Lib.Tally

/-!
# The credit ledger

A credit a grain hands out is always somewhere: in the grain's list, in a dispatch on its way, in the
records of the gateway, in the calls its turn has still to make, or in a report on its way back. What is
outstanding for a gateway at a queue is the sum of them. A part of a gateway's turn moves credits from
one place to another; apart from the steps named in `grants` it creates none.
-/

namespace Conveyor

open Lib

/-- What is left of an amount: no more than there was, and all of it under a condition. -/
structure Balance (exact : Prop) (before after : Int) : Prop where
  le : after ≤ before
  eq : exact → after = before

theorem Balance.of_eq {exact : Prop} {before after : Int} (h : after = before) : Balance exact before after :=
  ⟨h.le, fun _ => h⟩

/-- The same change from another amount. -/
theorem Balance.transfer {exact exact' : Prop} {before after before' after' : Int} (h : Balance exact before after)
    (hexact : exact' → exact) (hchange : after' - before' = after - before) : Balance exact' before' after' := by
  have hle := h.le
  refine ⟨by omega, fun hall => ?_⟩
  have heq := h.eq (hexact hall)
  omega

/-- The credits a message returns to a gateway. -/
def GrainMessage.refund (name : String) : GrainMessage → Int
  | .taskCompleted _ _ gateway | .batchCompleted gateway _ _ => indicator (gateway = name)
  | .gatewayCredit gateway n => if gateway = name then n.toInt else 0
  | _ => 0

/-- The credits a message to a gateway carries: one for a dispatch, one for a report it withholds. -/
def GatewayMessage.owed (queue : String) : GatewayMessage → Int
  | .executeTask task _ _ => indicator (task.queue = queue)
  | .executeBatch (task :: _) _ _ _ => indicator (task.queue = queue)
  | .deferredCompletion of _ _ => indicator (of = queue)
  | _ => 0

/-- The credits an effect sends back to the grain of a queue, or withholds. -/
def GatewayEffect.returns (name queue : String) : GatewayEffect → Int
  | .tellGrain of message => if of = queue then message.refund name else 0
  | .tellSelf message => message.owed queue
  | _ => 0

/-- The credits the effects of a turn send back or withhold. -/
def returned (name queue : String) (effects : List GatewayEffect) : Int :=
  weigh (GatewayEffect.returns name queue) effects

section Returned

variable {name queue : String}

@[simp] theorem returned_nil : returned name queue [] = 0 := rfl

@[simp] theorem returned_cons (effect : GatewayEffect) (effects : List GatewayEffect) :
    returned name queue (effect :: effects) = effect.returns name queue + returned name queue effects :=
  weigh_cons _ _ _

@[simp] theorem returned_append (effects more : List GatewayEffect) :
    returned name queue (effects ++ more) = returned name queue effects + returned name queue more :=
  weigh_append _ _ _

/-- A refund to a queue that is served goes out in full. -/
theorem returned_tellServed (served : Bool) (of : String) {message : GrainMessage}
    (h : message.refund name = 1) :
    Balance (of = queue → served = true) (indicator (of = queue))
      (returned name queue (tellServed served of message)) := by
  cases served with
  | false => exact ⟨indicator_nonneg _, fun hserved => (indicator_false fun heq => nomatch hserved heq).symm⟩
  | true =>
    refine .of_eq ?_
    simp [tellServed, GatewayEffect.returns, h, indicator]

/-- A withheld report keeps its credit. -/
theorem returned_deferReport (turn : GatewayTurn) (of taskID : String) (success served : Bool)
    {message : GrainMessage} (h : message.refund name = 1) :
    Balance (of = queue → served = true) (indicator (of = queue))
      (returned name queue (deferReport turn of taskID success (tellServed served of message))) := by
  rw [deferReport]
  split
  · exact .of_eq (by simp [GatewayEffect.returns, GatewayMessage.owed])
  · exact returned_tellServed served of h

theorem returned_transition (entry : InflightTask) (result : Result) (terminated : Bool) (cause : Option Nat)
    (reply : Reply) : returned name queue (transitionEffects entry result terminated cause reply) = 0 := by
  rw [transitionEffects]
  split
  · cases terminated <;> rfl
  · rfl

end Returned

/-- The tracked deliveries of a queue that are not members of a batch. -/
def singles (inflight : GoMap String InflightTask) (batched : String → Bool) (queue : String) : Int :=
  tally (fun _ entry => entry.queue == queue && !batched entry.leaseID) inflight

section Singles

variable {inflight : GoMap String InflightTask} {batched : String → Bool} {queue : String}

/-- What a record counts for. -/
def InflightTask.single (batched : String → Bool) (queue : String) (entry : InflightTask) : Int :=
  indicator ((entry.queue == queue && !batched entry.leaseID) = true)

theorem InflightTask.single_of_batched {entry : InflightTask} (h : batched entry.leaseID = true) :
    entry.single batched queue = 0 := by
  simp [single, h]

theorem InflightTask.single_of_not_batched {entry : InflightTask} (h : batched entry.leaseID = false) :
    entry.single batched queue = indicator (entry.queue = queue) := by
  simp [single, h, indicator]

/-- Forgetting a record. -/
theorem singles_erase {t : String} {entry : InflightTask} (h : inflight.lookup t = some entry) :
    singles (inflight.erase t) batched queue + entry.single batched queue = singles inflight batched queue := by
  have herase := tally_erase (fun _ entry => entry.queue == queue && !batched entry.leaseID) inflight t
  rwa [tallyAt_of_lookup h] at herase

/-- Tracking a task anew replaces its record. -/
theorem singles_insert (t : String) (entry : InflightTask) :
    Balance (inflight.lookup t = none) (singles inflight batched queue + entry.single batched queue)
      (singles (inflight.insert t entry) batched queue) := by
  have hinsert := tally_insert (fun _ entry => entry.queue == queue && !batched entry.leaseID) inflight t entry
  have hat : 0 ≤ tallyAt (fun _ entry => entry.queue == queue && !batched entry.leaseID) inflight t := tallyAt_nonneg t
  refine ⟨?_, fun hnone => ?_⟩
  · rw [singles, singles, InflightTask.single]
    omega
  · rw [tallyAt_of_none hnone] at hinsert
    rw [singles, singles, InflightTask.single]
    omega

/-- Records of a smaller map, with the same batches among them. -/
theorem singles_le {inflight' : GoMap String InflightTask} {batched' : String → Bool}
    (hsub : ∀ t entry, inflight'.lookup t = some entry → inflight.lookup t = some entry)
    (hbatched : ∀ t entry, inflight'.lookup t = some entry → batched entry.leaseID = true →
      batched' entry.leaseID = true) :
    singles inflight' batched' queue ≤ singles inflight batched queue := by
  refine tally_le fun t entry hentry hsingle => ⟨hsub t entry hentry, ?_⟩
  simp only [Bool.and_eq_true, beq_iff_eq, Bool.not_eq_true'] at hsingle ⊢
  refine ⟨hsingle.1, Bool.eq_false_iff.mpr fun hb => ?_⟩
  rw [hbatched t entry hentry hb] at hsingle
  exact Bool.noConfusion hsingle.2

theorem singles_congr {batched' : String → Bool}
    (h : ∀ t entry, inflight.lookup t = some entry → batched' entry.leaseID = batched entry.leaseID) :
    singles inflight batched' queue = singles inflight batched queue :=
  tally_congr fun t entry hentry => by rw [h t entry hentry]

/-- Members of a batch that are tracked count for nothing on their own. -/
theorem singles_trackAll {leaseID : String} (hbatch : batched leaseID = true) (tasks : List TaskEnvelope)
    (inflight : GoMap String InflightTask) :
    Balance (∀ task ∈ tasks, inflight.lookup task.id = none) (singles inflight batched queue)
      (singles (trackAll leaseID tasks inflight) batched queue) := by
  have hle : singles (trackAll leaseID tasks inflight) batched queue ≤ singles inflight batched queue := by
    refine tally_le fun t entry hentry hsingle => ⟨?_, hsingle⟩
    rcases trackAll_lookup leaseID tasks inflight t with ⟨task, -, -, htracked⟩ | ⟨-, hsame⟩
    · cases htracked.symm.trans hentry
      simp [trackedTask, hbatch] at hsingle
    · exact hsame.symm.trans hentry
  refine ⟨hle, fun huntracked => le_antisymm hle ?_⟩
  refine tally_le fun t entry hentry hsingle => ⟨?_, hsingle⟩
  rcases trackAll_lookup leaseID tasks inflight t with ⟨task, htask, rfl, -⟩ | ⟨-, hsame⟩
  · cases (huntracked task htask).symm.trans hentry
  · exact hsame.trans hentry

end Singles

/-- The credit a piece of work still has to return. -/
def GatewayWork.owes (queue : String) : GatewayWork → Int
  | .settle entry _ _ => indicator (entry.queue = queue)
  | .ackBatch _ of _ _ => indicator (of = queue)
  | _ => 0

namespace Gateway

/-- Whether a lease is that of a tracked batch. -/
def batched (g : Gateway) (leaseID : String) : Bool := (g.batches.lookup leaseID).isSome

/-- The batches of a queue, where the queue of a lease is the one it was handed out for. -/
def batchCount (leases : List (String × String)) (queue : String) (batches : GoMap String (List String)) : Int :=
  tally (fun leaseID _ => leases.contains (leaseID, queue)) batches

/-- The credits of a queue a stream gateway holds: one for each single delivery, one for each batch, and
one for each report its turn has still to make. -/
def stake (leases : List (String × String)) (queue : String) (g : Gateway) : Int :=
  singles g.inflight g.batched queue + batchCount leases queue g.batches + weigh (GatewayWork.owes queue) g.turn

/-- The records of the gateway agree with the leases that were handed out and with each other. -/
structure Consistent (leases : List (String × String)) (g : Gateway) : Prop where
  unique : ∀ leaseID q q', (leaseID, q) ∈ leases → (leaseID, q') ∈ leases → q = q'
  queues : ∀ t entry, g.inflight.lookup t = some entry → (entry.leaseID, entry.queue) ∈ leases
  members : ∀ t entry ids, g.inflight.lookup t = some entry → g.batches.lookup entry.leaseID = some ids → t ∈ ids

/-- The credits that handling a message creates: a worker's credit frame, a result for one member of a
batch, and a batch result that finds a single delivery. -/
def grants (queue : String) (g : Gateway) : GatewayMessage → Int
  | .credit n => n.toInt * g.session.queues.count queue
  | .result result _ =>
    ((g.inflight.lookup result.taskId).map fun entry =>
      indicator (entry.queue = queue ∧ g.batched entry.leaseID = true)).getD 0
  | .batchResult results _ =>
    ((results.findSome? fun result => g.inflight.lookup result.taskId).map fun first =>
      indicator (first.queue = queue ∧ first.leaseID ≠ "" ∧ g.batched first.leaseID = false)).getD 0
  | _ => 0

/-- The messages whose handling loses no credit. -/
def Exact (turn : GatewayTurn) (g : Gateway) : GatewayMessage → Prop
  | .executeTask task _ _ => g.inflight.lookup task.id = none ∧ turn.sendFails = false
  | .executeBatch tasks _ _ _ =>
    (∀ task ∈ tasks, g.inflight.lookup task.id = none) ∧ turn.sendFails = false
  | .batchResult results _ => ∀ first ids t entry,
    results.findSome? (fun result => g.inflight.lookup result.taskId) = some first →
      g.batches.lookup first.leaseID = some ids → t ∈ ids → g.inflight.lookup t = some entry →
        entry.leaseID = first.leaseID
  | .drainSession => False
  | _ => True

/-- A dispatch comes under a lease the gateway knows nothing of. -/
def Fits (leases : List (String × String)) (g : Gateway) : GatewayMessage → Prop
  | .executeTask _ leaseID _ => g.batches.lookup leaseID = none
  | .executeBatch tasks leaseID _ _ => tasks ≠ [] → g.batches.lookup leaseID = none ∧
      (∀ t entry, g.inflight.lookup t = some entry → entry.leaseID ≠ leaseID) ∧
      ∀ task ∈ tasks, (leaseID, task.queue) ∈ leases
  | _ => True

/-- The work of a turn owes no negative credit. -/
theorem works_nonneg (queue : String) (works : List GatewayWork) : 0 ≤ weigh (GatewayWork.owes queue) works := by
  refine weigh_nonneg _ fun work _ => ?_
  cases work with
  | settle | ackBatch => exact indicator_nonneg _
  | _ => exact le_rfl

theorem stake_nonneg (leases : List (String × String)) (queue : String) (g : Gateway) : 0 ≤ g.stake leases queue := by
  have hworks := works_nonneg queue g.turn
  have hsingles : 0 ≤ singles g.inflight g.batched queue := tally_nonneg _ _
  have hbatches : 0 ≤ batchCount leases queue g.batches := tally_nonneg _ _
  rw [stake]
  omega

section Turn

variable {leases : List (String × String)} {queue : String} {g : Gateway} {turn : GatewayTurn}

theorem batched_of_lookup {leaseID : String} {ids : List String} (h : g.batches.lookup leaseID = some ids) :
    g.batched leaseID = true := by
  rw [batched, h]
  rfl

theorem not_batched_of_lookup {leaseID : String} (h : g.batches.lookup leaseID = none) : g.batched leaseID = false := by
  rw [batched, h]
  rfl

/-- The queue of a lease decides for which queue its batch counts. -/
theorem Consistent.contains_iff (h : g.Consistent leases) {leaseID of : String} (hlease : (leaseID, of) ∈ leases) :
    indicator (leases.contains (leaseID, queue) = true) = indicator (of = queue) := by
  have hiff : leases.contains (leaseID, queue) = true ↔ of = queue := by
    rw [List.contains_iff_mem]
    refine ⟨h.unique leaseID of queue hlease, ?_⟩
    rintro rfl
    exact hlease
  by_cases heq : of = queue
  · rw [indicator_true heq, indicator_true (hiff.mpr heq)]
  · rw [indicator_false heq, indicator_false (mt hiff.mp heq)]

/-- A task that reaches the worker is tracked. -/
theorem dispatch_sent (hsend : turn.sendFails = false) (task : TaskEnvelope) (leaseID : String) :
    g.dispatch turn task leaseID = ({ g with inflight := g.inflight.insert task.id (trackedTask task leaseID) },
      [.deliver task.queue leaseID [task.id] false true]) := by
  simp [dispatch, hsend]

/-- Forwarding one task. -/
theorem dispatch_balance (hidle : g.turn = []) (task : TaskEnvelope) {leaseID : String}
    (hfits : g.batches.lookup leaseID = none) :
    Balance (g.inflight.lookup task.id = none ∧ turn.sendFails = false)
      (g.stake leases queue + indicator (task.queue = queue))
      ((g.dispatch turn task leaseID).1.stake leases queue +
        returned g.name queue (g.dispatch turn task leaseID).2) := by
  have htracked : (trackedTask task leaseID).single g.batched queue = indicator (task.queue = queue) :=
    InflightTask.single_of_not_batched (not_batched_of_lookup hfits)
  have hinsert := @singles_insert g.inflight g.batched queue task.id (trackedTask task leaseID)
  rw [htracked] at hinsert
  cases hsend : turn.sendFails with
  | false =>
    rw [dispatch_sent hsend, stake]
    refine hinsert.transfer And.left ?_
    change singles _ g.batched queue + batchCount leases queue g.batches + weigh _ g.turn + 0 - _ = _
    dsimp only
    omega
  | true =>
    -- the record is taken back, so the credit of the dispatch is lost
    have hg : g.dispatch turn task leaseID =
        ({ g with
           inflight := (g.inflight.insert task.id (trackedTask task leaseID)).erase task.id
           turn := [.release task.id leaseID] },
         [.deliver task.queue leaseID [task.id] false false]) := by simp [dispatch, hsend]
    have herase := @singles_erase _ g.batched queue task.id _ (AList.lookup_insert (s := g.inflight)
      (a := task.id) (b := trackedTask task leaseID))
    have hle := hinsert.le
    have hnonneg := indicator_nonneg (task.queue = queue)
    rw [htracked] at herase
    rw [hg, stake, hidle, weigh_nil]
    refine ⟨?_, fun h => by cases h.2⟩
    change singles _ g.batched queue + batchCount leases queue g.batches + 0 + 0 ≤ _
    dsimp only
    omega

/-- A new batch counts for the queue of its lease. -/
theorem batchCount_insert (h : g.Consistent leases) {leaseID of : String} (hlease : (leaseID, of) ∈ leases)
    (hnew : g.batches.lookup leaseID = none) (ids : List String) :
    batchCount leases queue (g.batches.insert leaseID ids) =
      batchCount leases queue g.batches + indicator (of = queue) := by
  have hinsert := tally_insert (fun leaseID _ => leases.contains (leaseID, queue)) g.batches leaseID ids
  rw [tallyAt_of_none hnew, h.contains_iff hlease, add_zero] at hinsert
  exact hinsert

/-- A batch that is forgotten counted for the queue of its lease. -/
theorem batchCount_erase (h : g.Consistent leases) {leaseID of : String} (hlease : (leaseID, of) ∈ leases)
    {ids : List String} (hbatch : g.batches.lookup leaseID = some ids) :
    batchCount leases queue (g.batches.erase leaseID) + indicator (of = queue) = batchCount leases queue g.batches := by
  have herase := tally_erase (fun leaseID _ => leases.contains (leaseID, queue)) g.batches leaseID
  rw [tallyAt_of_lookup hbatch, h.contains_iff hlease] at herase
  exact herase

/-- Forgetting a batch that is not there. -/
theorem batchCount_erase_of_none {batches : GoMap String (List String)} {leaseID : String}
    (h : batches.lookup leaseID = none) :
    batchCount leases queue (batches.erase leaseID) = batchCount leases queue batches := by
  have herase := tally_erase (fun leaseID _ => leases.contains (leaseID, queue)) batches leaseID
  rwa [tallyAt_of_none h, add_zero] at herase

/-- A batch that is written and taken back. -/
theorem batchCount_undone (h : g.Consistent leases) {leaseID of : String} (hlease : (leaseID, of) ∈ leases)
    (hnew : g.batches.lookup leaseID = none) (ids : List String) :
    batchCount leases queue ((g.batches.insert leaseID ids).erase leaseID) = batchCount leases queue g.batches := by
  have herase := tally_erase (fun leaseID _ => leases.contains (leaseID, queue)) (g.batches.insert leaseID ids) leaseID
  have hinsert := @batchCount_insert leases queue g h leaseID of hlease hnew ids
  rw [tallyAt_of_lookup (AList.lookup_insert _), h.contains_iff hlease] at herase
  rw [batchCount] at hinsert ⊢
  omega

/-- A batch that reaches the worker is tracked with its members. -/
theorem dispatchBatch_sent (hsend : turn.sendFails = false) (task : TaskEnvelope) (rest : List TaskEnvelope)
    (leaseID : String) : g.dispatchBatch turn (task :: rest) leaseID =
      ({ g with
         inflight := trackAll leaseID (task :: rest) g.inflight
         batches := g.batches.insert leaseID ((task :: rest).map TaskEnvelope.id) },
       [.deliver task.queue leaseID ((task :: rest).map TaskEnvelope.id) true true]) := by
  simp [dispatchBatch, hsend]

/-- Forwarding a fired group. -/
theorem dispatchBatch_balance (hidle : g.turn = []) (h : g.Consistent leases) (tasks : List TaskEnvelope)
    {leaseID group : String} {expiresAt : Time}
    (hfits : g.Fits leases (.executeBatch tasks leaseID expiresAt group)) :
    Balance (g.Exact turn (.executeBatch tasks leaseID expiresAt group))
      (g.stake leases queue + GatewayMessage.owed queue (.executeBatch tasks leaseID expiresAt group))
      ((g.dispatchBatch turn tasks leaseID).1.stake leases queue +
        returned g.name queue (g.dispatchBatch turn tasks leaseID).2) := by
  cases tasks with
  | nil => exact .of_eq rfl
  | cons task rest =>
    obtain ⟨hnew, hunused, hqueues⟩ := hfits nofun
    have hlease := hqueues task (.head _)
    have howed : GatewayMessage.owed queue (.executeBatch (task :: rest) leaseID expiresAt group) =
        indicator (task.queue = queue) := rfl
    rw [howed]
    cases hsend : turn.sendFails with
    | false =>
      rw [dispatchBatch_sent hsend]
      generalize (task :: rest).map TaskEnvelope.id = ids
      have hbatch : ((g.batches.insert leaseID ids).lookup leaseID).isSome = true := by
        rw [AList.lookup_insert]
        rfl
      have htrack := @singles_trackAll (fun L => ((g.batches.insert leaseID ids).lookup L).isSome) queue leaseID hbatch
        (task :: rest) g.inflight
      -- the batches of the other records are the same
      have hsame : singles g.inflight (fun L => ((g.batches.insert leaseID ids).lookup L).isSome) queue =
          singles g.inflight g.batched queue := by
        refine singles_congr fun t entry hentry => ?_
        rw [AList.lookup_insert_ne (hunused t entry hentry)]
        rfl
      rw [hsame] at htrack
      refine htrack.transfer And.left ?_
      change singles (trackAll leaseID (task :: rest) g.inflight)
        (fun L => ((g.batches.insert leaseID ids).lookup L).isSome) queue +
          batchCount leases queue (g.batches.insert leaseID ids) + weigh _ g.turn + 0 - _ = _
      rw [batchCount_insert h hlease hnew, stake]
      omega
    | true =>
      -- the records are taken back, so the credit of the batch is lost
      have hg : g.dispatchBatch turn (task :: rest) leaseID =
          ({ g with
             inflight := ((task :: rest).map TaskEnvelope.id).foldl (fun inflight id => inflight.erase id)
               (trackAll leaseID (task :: rest) g.inflight)
             batches := (g.batches.insert leaseID ((task :: rest).map TaskEnvelope.id)).erase leaseID
             turn := ((task :: rest).map TaskEnvelope.id).map fun id => .release id leaseID },
           [.deliver task.queue leaseID ((task :: rest).map TaskEnvelope.id) true false]) := by
        simp [dispatchBatch, hsend]
      rw [hg]
      generalize hids : (task :: rest).map TaskEnvelope.id = ids
      have hleft : singles (ids.foldl (fun inflight id => inflight.erase id) (trackAll leaseID (task :: rest) g.inflight))
          (fun L => (((g.batches.insert leaseID ids).erase leaseID).lookup L).isSome) queue ≤
          singles g.inflight g.batched queue := by
        refine singles_le (fun t entry hentry => ?_) fun t entry _ hbatched => ?_
        · have hnot := GoMap.notMem_of_lookup_erases _ hentry
          have htracked := GoMap.lookup_of_lookup_erases _ hentry
          rcases trackAll_lookup leaseID (task :: rest) g.inflight t with ⟨member, hmember, rfl, -⟩ | ⟨-, hsame⟩
          · exact absurd (hids ▸ List.mem_map_of_mem hmember) hnot
          · exact hsame.symm.trans htracked
        · have hne : entry.leaseID ≠ leaseID := by
            rintro heq
            rw [heq, not_batched_of_lookup hnew] at hbatched
            cases hbatched
          rw [AList.lookup_erase_ne hne, AList.lookup_insert_ne hne]
          exact hbatched
      have hturn : weigh (GatewayWork.owes queue) (ids.map fun id => .release id leaseID) = 0 := by
        refine weigh_eq_zero fun work hwork => ?_
        obtain ⟨id, -, rfl⟩ := List.mem_map.mp hwork
        rfl
      have hnonneg := indicator_nonneg (task.queue = queue)
      refine ⟨?_, fun hexact => Bool.noConfusion (hsend.symm.trans hexact.2)⟩
      change singles _ _ queue + batchCount leases queue ((g.batches.insert leaseID ids).erase leaseID) + weigh _ _ + 0 ≤ _
      rw [hturn, batchCount_undone h hlease hnew, stake, hidle, weigh_nil]
      refine (Int.add_le_add_right (Int.add_le_add_right (Int.add_le_add_right hleft _) 0) 0).trans ?_
      omega

/-- Applying a worker's result. -/
theorem result_balance (hidle : g.turn = []) (result : Result) (cause : Option Nat) :
    (g.result result cause).stake leases queue = g.stake leases queue + g.grants queue (.result result cause) := by
  rw [Gateway.result, grants]
  cases hentry : g.inflight.lookup result.taskId with
  | none => simp
  | some entry =>
    have herase := @singles_erase _ g.batched queue result.taskId _ hentry
    change singles (g.inflight.erase result.taskId) g.batched queue + batchCount leases queue g.batches +
      (indicator (entry.queue = queue) + 0) = _
    rw [Option.map_some, Option.getD_some, stake, hidle, weigh_nil]
    cases hbatched : g.batched entry.leaseID with
    | false =>
      rw [InflightTask.single_of_not_batched hbatched] at herase
      have hnone : indicator (entry.queue = queue ∧ false = true) = 0 := indicator_false (by simp)
      omega
    | true =>
      rw [InflightTask.single_of_batched hbatched] at herase
      simp only [and_true]
      omega

/-- The works of a batch result owe the one credit of the batch. -/
theorem batchWork_owes (results : List Result) (of : String) (cause : Option Nat)
    (taken : List (String × InflightTask)) :
    weigh (GatewayWork.owes queue) (batchWork results of cause taken) = indicator (of = queue) := by
  have hmembers : weigh (GatewayWork.owes queue) ((taken.filter fun member => !acknowledges results member).map
      fun member => .settleMember member.2 (memberResult results member.1) cause) = 0 := by
    refine weigh_eq_zero fun work hwork => ?_
    obtain ⟨member, -, rfl⟩ := List.mem_map.mp hwork
    rfl
  rw [batchWork, weigh_append, hmembers, weigh_cons, weigh_nil, GatewayWork.owes]
  omega

/-- Applying a batch result: the credit of the batch moves to its report. -/
theorem batchResult_balance (hidle : g.turn = []) (h : g.Consistent leases) (results : List Result)
    (cause : Option Nat) :
    Balance (g.Exact turn (.batchResult results cause))
      (g.stake leases queue + g.grants queue (.batchResult results cause))
      ((g.batchResult results cause).stake leases queue) := by
  rw [batchResult, grants]
  cases hfirst : results.findSome? fun result => g.inflight.lookup result.taskId with
  | none => exact .of_eq (by simp)
  | some first =>
    dsimp only
    by_cases hlease : first.leaseID = ""
    · rw [if_pos hlease]
      exact .of_eq (by simp [hlease])
    rw [if_neg hlease]
    obtain ⟨result, -, hresult⟩ := List.exists_of_findSome?_eq_some hfirst
    have hqueue := h.queues result.taskId first hresult
    cases hbatch : g.batches.lookup first.leaseID with
    | none =>
      -- no batch is found: the report goes out for nothing
      have hstake : stake leases queue
          { g with
            batches := g.batches.erase first.leaseID
            turn := batchWork results first.queue cause [] } =
          singles g.inflight g.batched queue + batchCount leases queue g.batches + indicator (first.queue = queue) := by
        rw [stake, batchWork_owes, batchCount_erase_of_none hbatch]
        congr 2
        refine singles_congr fun t entry _ => ?_
        rw [batched, batched, GoMap.lookup_erase_eq_ite]
        split_ifs with heq
        · rw [heq, hbatch]
        · rfl
      have hgrant : indicator (first.queue = queue ∧ first.leaseID ≠ "" ∧ g.batched first.leaseID = false) =
          indicator (first.queue = queue) := by
        simp [hlease, not_batched_of_lookup hbatch]
      refine .of_eq ?_
      rw [Option.map_some, Option.getD_some, hgrant]
      refine hstake.trans ?_
      rw [stake, hidle, weigh_nil]
      omega
    | some ids =>
      obtain ⟨htaken, hleft⟩ := takeMembers_spec ids g.inflight
      have hgrant : indicator (first.queue = queue ∧ first.leaseID ≠ "" ∧ g.batched first.leaseID = false) = 0 :=
        indicator_false (by simp [batched_of_lookup hbatch])
      have hcount := @batchCount_erase leases queue g h first.leaseID first.queue hqueue ids hbatch
      -- what is left was tracked, and none of it under the lease of the batch
      have hkept : singles (takeMembers ids g.inflight).2
          (Gateway.batched { g with batches := g.batches.erase first.leaseID }) queue =
          singles (takeMembers ids g.inflight).2 g.batched queue := by
        refine singles_congr fun t entry hentry => ?_
        obtain ⟨hnot, htracked⟩ := hleft t entry hentry
        have hne : entry.leaseID ≠ first.leaseID := fun heq => hnot (h.members t entry ids htracked (heq ▸ hbatch))
        rw [batched, batched, AList.lookup_erase_ne hne]
      have hle : singles (takeMembers ids g.inflight).2 g.batched queue ≤ singles g.inflight g.batched queue :=
        singles_le (fun t entry hentry => (hleft t entry hentry).2) fun _ _ _ hb => hb
      have hstake : stake leases queue
          { g with
            inflight := (takeMembers ids g.inflight).2
            batches := g.batches.erase first.leaseID
            turn := batchWork results first.queue cause (takeMembers ids g.inflight).1 } =
          singles (takeMembers ids g.inflight).2 g.batched queue +
            batchCount leases queue (g.batches.erase first.leaseID) + indicator (first.queue = queue) := by
        rw [stake, batchWork_owes, ← hkept]
        rfl
      rw [Option.map_some, Option.getD_some, Option.getD_some, hgrant, hstake, stake, hidle, weigh_nil]
      refine ⟨by omega, fun hexact => ?_⟩
      have hge : singles g.inflight g.batched queue ≤ singles (takeMembers ids g.inflight).2 g.batched queue := by
        refine tally_le fun t entry hentry hsingle => ⟨?_, hsingle⟩
        refine (takeMembers_others (fun hin => ?_) g.inflight).trans hentry
        rw [hexact first ids t entry hfirst hbatch hin hentry, batched_of_lookup hbatch] at hsingle
        simp at hsingle
      omega

/-- Marking a delivery as canceled. -/
theorem cancelActive_balance (taskID : String) :
    (g.cancelActive taskID).1.stake leases queue + returned g.name queue (g.cancelActive taskID).2 =
      g.stake leases queue := by
  rw [cancelActive]
  cases hentry : g.inflight.lookup taskID with
  | none => exact add_zero _
  | some entry =>
    have hsame : singles (g.inflight.insert taskID { entry with cancelRequested := true }) g.batched queue =
        singles g.inflight g.batched queue := by
      have hinsert := tally_insert (fun _ entry => entry.queue == queue && !g.batched entry.leaseID) g.inflight
        taskID { entry with cancelRequested := true }
      rw [tallyAt_of_lookup hentry] at hinsert
      exact add_right_cancel hinsert
    change singles _ g.batched queue + batchCount leases queue g.batches + weigh _ g.turn + 0 = _
    rw [hsame, add_zero, stake]

/-- Ending a session gives up every record. -/
theorem drain_balance (turn : GatewayTurn) : (g.drain turn).stake leases queue ≤ g.stake leases queue := by
  have hturn : weigh (GatewayWork.owes queue) (g.drain turn).turn = 0 := by
    refine weigh_eq_zero fun work hwork => ?_
    obtain ⟨taskID, -, hwork⟩ := List.mem_filterMap.mp hwork
    obtain ⟨entry, -, rfl⟩ := Option.map_eq_some_iff.mp hwork
    rfl
  have hzero : (g.drain turn).stake leases queue = 0 := by
    rw [stake, hturn]
    rfl
  rw [hzero]
  exact g.stake_nonneg leases queue

/-- Credit frames of a worker. -/
theorem credit_returned (n : Int32) : returned g.name queue (g.credit n) = n.toInt * g.session.queues.count queue := by
  rw [credit]
  induction g.session.queues with
  | nil => simp
  | cons of rest ih =>
    rw [List.map_cons, returned_cons, ih, List.count_cons]
    by_cases h : of = queue
    · simp [GatewayEffect.returns, GrainMessage.refund, h, Int.mul_add, Int.add_comm]
    · simp [GatewayEffect.returns, h]

theorem register_returned : returned g.name queue g.register = 0 := by
  rw [register]
  split
  · rfl
  · refine weigh_eq_zero fun effect heffect => ?_
    obtain ⟨of, -, rfl⟩ := List.mem_map.mp heffect
    simp [GatewayEffect.returns, GrainMessage.refund]

/-- The first part of a turn: it creates no credits beyond its grants, and loses none when it is exact. -/
theorem receive_balance (hidle : g.turn = []) (h : g.Consistent leases) {message : GatewayMessage}
    (hfits : g.Fits leases message) :
    Balance (g.Exact turn message ∧ g.serves queue = true)
      (g.stake leases queue + message.owed queue + g.grants queue message)
      ((g.receive turn message).1.stake leases queue + returned g.name queue (g.receive turn message).2) := by
  cases message with
  | postStart | registerTick =>
    refine .of_eq ?_
    rw [receive, register_returned]
    simp [GatewayMessage.owed, grants]
  | executeTask task leaseID expiresAt =>
    exact (@dispatch_balance leases queue g turn hidle task leaseID hfits).transfer And.left (by simp [receive, GatewayMessage.owed, grants])
  | executeBatch tasks leaseID expiresAt group =>
    exact (@dispatchBatch_balance leases queue g turn hidle h tasks leaseID group expiresAt hfits).transfer And.left
      (by simp [receive, grants])
  | drainSession =>
    have hdrain := @drain_balance leases queue g turn
    exact ⟨by simpa [receive, GatewayMessage.owed, grants] using hdrain, fun hexact => hexact.1.elim⟩
  | result result cause =>
    have hresult := @result_balance leases queue g hidle result cause
    exact .of_eq (by simpa [receive, GatewayMessage.owed] using hresult)
  | batchResult results cause =>
    exact (@batchResult_balance leases queue g turn hidle h results cause).transfer And.left
      (by simp [receive, GatewayMessage.owed])
  | heartbeat ids =>
    have hworks : weigh (GatewayWork.owes queue) (ids.map .extendLease) = 0 := by
      refine weigh_eq_zero fun work hwork => ?_
      obtain ⟨id, -, rfl⟩ := List.mem_map.mp hwork
      rfl
    have hstake : stake leases queue { g with turn := ids.map .extendLease } = g.stake leases queue := by
      rw [stake, stake, hworks, hidle]
      rfl
    exact .of_eq (by simp [receive, hstake, GatewayMessage.owed, grants])
  | progress taskID percent text =>
    have hstake : (g.progress taskID percent text).stake leases queue = g.stake leases queue := by
      rw [progress]
      split
      · rfl
      · rw [stake, stake, hidle]
        rfl
    exact .of_eq (by simp [receive, hstake, GatewayMessage.owed, grants])
  | credit n =>
    refine .of_eq ?_
    rw [receive, credit_returned]
    simp [GatewayMessage.owed, grants]
  | cancelActive taskID =>
    refine .of_eq ?_
    rw [receive, cancelActive_balance]
    simp [GatewayMessage.owed, grants]
  | deferredCompletion of taskID success =>
    have hserved := @returned_tellServed g.name queue (g.serves of) of (.taskCompleted taskID success g.name)
      (indicator_true rfl)
    refine hserved.transfer (fun hexact heq => heq ▸ hexact.2) ?_
    change g.stake leases queue + returned g.name queue (tellServed _ of _) - _ = _
    simp only [GatewayMessage.owed, grants]
    omega
  | webhookDelivery | webhookBatchDelivery | leaseHeartbeat | leaseResult | updateRegistration =>
    exact .of_eq (by simp [receive, GatewayMessage.owed, grants])

/-- Returning the credit of a lost lease. -/
theorem dropLost_balance (h : g.Consistent leases) {taskID : String} {entry : InflightTask}
    (hentry : g.inflight.lookup taskID = some entry) :
    Balance (g.serves queue = true) (g.stake leases queue)
      ((g.dropLost taskID entry).1.stake leases queue + returned g.name queue (g.dropLost taskID entry).2) := by
  have herase := @singles_erase _ g.batched queue taskID _ hentry
  have hrefill := @returned_tellServed g.name queue (g.serves entry.queue) entry.queue (.gatewayCredit g.name 1)
    (if_pos rfl)
  have hserved : g.serves queue = true → entry.queue = queue → g.serves entry.queue = true := fun hq heq => heq ▸ hq
  have hcancel : returned g.name queue [.cancel taskID] = 0 := rfl
  have herased : ∀ {batches : GoMap String (List String)}, singles (g.inflight.erase taskID)
      (Gateway.batched { g with batches := batches }) queue = singles (g.inflight.erase taskID) g.batched queue →
      stake leases queue { g with inflight := g.inflight.erase taskID, batches := batches } =
        singles (g.inflight.erase taskID) g.batched queue + batchCount leases queue batches +
          weigh (GatewayWork.owes queue) g.turn := by
    intro batches hsame
    rw [stake, ← hsame]
    rfl
  rw [dropLost, refundLostLease]
  dsimp only
  cases hbatch : g.batches.lookup entry.leaseID with
  | none =>
    rw [InflightTask.single_of_not_batched (not_batched_of_lookup hbatch)] at herase
    dsimp only
    rw [refillCredit, returned_append, hcancel, herased rfl, stake]
    refine hrefill.transfer hserved ?_
    change _ + (returned g.name queue (tellServed (g.serves entry.queue) entry.queue (.gatewayCredit g.name 1)) + 0) - _ = _
    omega
  | some members =>
    rw [InflightTask.single_of_batched (batched_of_lookup hbatch)] at herase
    dsimp only
    split
    · -- another member is tracked, so the batch keeps its credit
      refine .of_eq ?_
      rw [List.nil_append, hcancel, herased rfl, stake]
      omega
    · rename_i hlast
      have hsame : singles (g.inflight.erase taskID)
          (Gateway.batched { g with batches := g.batches.erase entry.leaseID }) queue =
          singles (g.inflight.erase taskID) g.batched queue := by
        refine singles_congr fun t other hother => ?_
        have hne : other.leaseID ≠ entry.leaseID := by
          intro heq
          have hmember := h.members t other members (GoMap.lookup_of_lookup_erase hother) (heq ▸ hbatch)
          exact hlast (List.any_eq_true.mpr ⟨t, hmember, by rw [hother]; rfl⟩)
        rw [batched, batched, AList.lookup_erase_ne hne]
      have hcount := @batchCount_erase leases queue g h entry.leaseID entry.queue
        (h.queues taskID entry hentry) members hbatch
      rw [refillCredit, returned_append, hcancel, herased hsame, stake]
      refine hrefill.transfer hserved ?_
      change _ + (returned g.name queue (tellServed (g.serves entry.queue) entry.queue (.gatewayCredit g.name 1)) + 0) - _ = _
      omega

/-- One piece of work of a turn returns the credit it owes. -/
theorem finish_balance (h : g.Consistent leases) (reply : Reply) (work : GatewayWork) :
    Balance (g.serves queue = true) (g.stake leases queue + work.owes queue)
      ((g.finish turn reply work).1.stake leases queue + returned g.name queue (g.finish turn reply work).2) := by
  cases work with
  | release => exact .of_eq (by simp [finish, GatewayWork.owes])
  | setProgress => exact .of_eq (by simp [finish, GatewayWork.owes])
  | settle entry result cause =>
    have hreport := @returned_deferReport g.name queue turn entry.queue result.taskId (succeeded result reply)
      (g.serves entry.queue) (.taskCompleted result.taskId (succeeded result reply) g.name) (indicator_true rfl)
    rw [finish, returned_append, returned_transition, zero_add, GatewayWork.owes]
    exact hreport.transfer (fun hq heq => heq ▸ hq) (add_sub_add_left_eq_sub _ _ _)
  | settleMember entry result cause =>
    have hnothing : GatewayWork.owes queue (.settleMember entry result cause) = 0 := rfl
    refine .of_eq ?_
    rw [finish, returned_transition, hnothing]
  | ackBatch items of total cause =>
    have hreport := @returned_tellServed g.name queue (g.serves of) of
      (.batchCompleted g.name total (ackedIDs reply).length) (indicator_true rfl)
    have happlied : ∀ items : List AckItem, returned g.name queue (items.flatMap fun item =>
        [.applied item.taskID item.leaseID cause, .resolveDependents item.taskID]) = 0 := by
      intro items
      refine weigh_eq_zero fun effect heffect => ?_
      obtain ⟨item, -, hin⟩ := List.mem_flatMap.mp heffect
      simp only [List.mem_cons, List.not_mem_nil, or_false] at hin
      rcases hin with rfl | rfl <;> rfl
    rw [finish, returned_append, happlied, zero_add, GatewayWork.owes]
    exact hreport.transfer (fun hq heq => heq ▸ hq) (add_sub_add_left_eq_sub _ _ _)
  | extendLease taskID =>
    have hnothing : GatewayWork.owes queue (.extendLease taskID) = 0 := rfl
    rw [finish, hnothing, add_zero]
    cases hentry : g.inflight.lookup taskID with
    | none => exact .of_eq (by simp)
    | some entry =>
      dsimp only
      split
      · exact dropLost_balance h hentry
      · exact .of_eq (by simp)

end Turn

end Gateway

end Conveyor
