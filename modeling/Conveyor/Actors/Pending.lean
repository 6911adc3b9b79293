import Conveyor.Actors.Outstanding

/-!
# What a worker has still to answer

When a worker only answers its dispatches, names every member of a batch in the answer, and is sent no
task while it still works on an earlier dispatch of it, the records of its gateway are those of the
deliveries that are still to be answered: a record stands for such a delivery, and a batch is tracked
as long as one of its members is.
-/

namespace Conveyor

open Lib

/-- The lease of the batch a message dispatches. -/
def GatewayMessage.batchLease : GatewayMessage → Option String
  | .executeBatch (_ :: _) leaseID _ _ => some leaseID
  | _ => none

variable {t leaseID : String} {message : GatewayMessage}

namespace Gateway

/-- Batches and records of the gateway belong together, where the leases of batches are given. -/
structure Intact (isBatch : String → Prop) (g : Gateway) : Prop where
  whole : ∀ t entry, g.inflight.lookup t = some entry → isBatch entry.leaseID → g.batched entry.leaseID = true
  alive : ∀ leaseID ids, g.batches.lookup leaseID = some ids →
    ∃ t ∈ ids, ∃ entry, g.inflight.lookup t = some entry ∧ entry.leaseID = leaseID
  own : ∀ leaseID ids t entry, g.batches.lookup leaseID = some ids → t ∈ ids →
    g.inflight.lookup t = some entry → entry.leaseID = leaseID

/-- The gateway tracks the task, or a batch of which it is a member. -/
def Knows (g : Gateway) (t : String) : Prop :=
  (∃ entry, g.inflight.lookup t = some entry) ∨ ∃ leaseID ids, g.batches.lookup leaseID = some ids ∧ t ∈ ids

/-- The message fits what the gateway tracks: a dispatch is of tasks it knows nothing of, a result is for
a task that was delivered alone, and a batch result for a batch. -/
def Expects (g : Gateway) : GatewayMessage → Prop
  | .executeTask task _ _ => ¬ g.Knows task.id
  | .executeBatch tasks _ _ _ => ∀ task ∈ tasks, ¬ g.Knows task.id
  | .result result _ => ∀ entry, g.inflight.lookup result.taskId = some entry → g.batched entry.leaseID = false
  | .batchResult results _ => ∀ first,
    results.findSome? (fun result => g.inflight.lookup result.taskId) = some first →
      first.leaseID ≠ "" ∧ g.batched first.leaseID = true
  | .drainSession | .credit _ => False
  | _ => True

section Turn

variable {isBatch : String → Prop} {g g' : Gateway} {turn : GatewayTurn}

theorem untracked_of_unknown (h : ¬ g.Knows t) : g.inflight.lookup t = none :=
  Option.eq_none_iff_forall_ne_some.mpr fun entry hentry => h (.inl ⟨entry, hentry⟩)

/-- A message that fits creates no credits and loses none. -/
theorem Intact.exact (h : g.Intact isBatch) (hexpects : g.Expects message)
    (hsend : turn.sendFails = false) (queue : String) : g.Exact turn message ∧ g.grants queue message = 0 := by
  cases message with
  | executeTask => exact ⟨⟨untracked_of_unknown hexpects, hsend⟩, rfl⟩
  | executeBatch =>
    exact ⟨⟨fun task htask => untracked_of_unknown (hexpects task htask), hsend⟩, rfl⟩
  | result result cause =>
    refine ⟨trivial, ?_⟩
    rw [grants]
    cases hentry : g.inflight.lookup result.taskId with
    | none => rfl
    | some entry => exact indicator_false fun hbatched => Bool.noConfusion ((hexpects entry hentry).symm.trans hbatched.2)
  | batchResult results cause =>
    refine ⟨fun first ids t entry _ hids ht hentry => h.own _ ids t entry hids ht hentry, ?_⟩
    rw [grants]
    cases hfirst : results.findSome? fun result => g.inflight.lookup result.taskId with
    | none => rfl
    | some first =>
      exact indicator_false fun hsingle => Bool.noConfusion ((hexpects first hfirst).2.symm.trans hsingle.2.2)
  | drainSession | credit => exact hexpects.elim
  | _ => exact ⟨trivial, rfl⟩

/-- A change that leaves records and batches alone. -/
theorem Intact.of_eq (h : g.Intact isBatch) (hinflight : g'.inflight = g.inflight) (hbatches : g'.batches = g.batches) :
    g'.Intact isBatch := by
  constructor
  · intro t entry hentry
    rw [batched, hbatches]
    exact h.whole t entry (hinflight ▸ hentry)
  · intro leaseID ids hids
    rw [hinflight]
    exact h.alive leaseID ids (hbatches ▸ hids)
  · intro leaseID ids t entry hids ht hentry
    exact h.own leaseID ids t entry (hbatches ▸ hids) ht (hinflight ▸ hentry)

/-- A change that only forgets records and batches, each batch no sooner than its last record. -/
theorem Intact.shrink (h : g.Intact isBatch)
    (hrecords : ∀ {t entry}, g'.inflight.lookup t = some entry → g.inflight.lookup t = some entry)
    (hbatches : ∀ {L ids}, g'.batches.lookup L = some ids → g.batches.lookup L = some ids)
    (hwhole : ∀ t entry ids, g'.inflight.lookup t = some entry → g.batches.lookup entry.leaseID = some ids →
      g'.batches.lookup entry.leaseID = some ids)
    (halive : ∀ L ids, g'.batches.lookup L = some ids →
      ∃ t ∈ ids, ∃ entry, g'.inflight.lookup t = some entry ∧ entry.leaseID = L) : g'.Intact isBatch := by
  refine ⟨fun t entry ht hbatch => ?_, halive, fun L ids t entry hids ht hentry =>
    h.own L ids t entry (hbatches hids) ht (hrecords hentry)⟩
  obtain ⟨ids, hids⟩ := Option.isSome_iff_exists.mp (h.whole t entry (hrecords ht) hbatch)
  exact batched_of_lookup (hwhole t entry ids ht hids)

/-- Forgetting a task that was delivered alone. -/
theorem Intact.result (h : g.Intact isBatch) (result : Result) (cause : Option Nat)
    (hexpects : g.Expects (.result result cause)) : (g.result result cause).Intact isBatch := by
  rw [Gateway.result]
  cases hentry : g.inflight.lookup result.taskId with
  | none => exact h
  | some single =>
    refine h.shrink GoMap.lookup_of_lookup_erase id (fun _ _ _ _ hids => hids) fun leaseID ids hids => ?_
    obtain ⟨t, ht, entry, htracked, hlease⟩ := h.alive leaseID ids hids
    have hne : t ≠ result.taskId := by
      rintro rfl
      cases hentry.symm.trans htracked
      have hbatched : g.batched single.leaseID = true := batched_of_lookup (hlease ▸ hids)
      exact Bool.noConfusion ((hexpects single hentry).symm.trans hbatched)
    exact ⟨t, ht, entry, (AList.lookup_erase_ne hne).trans htracked, hlease⟩

section Members

variable (h : g.Intact isBatch)
  (hmembers : ∀ t entry ids, g.inflight.lookup t = some entry → g.batches.lookup entry.leaseID = some ids → t ∈ ids)
include h hmembers

/-- Taking a batch out with all its members. -/
theorem Intact.batchResult (results : List Result) (cause : Option Nat)
    (hexpects : g.Expects (.batchResult results cause)) : (g.batchResult results cause).Intact isBatch := by
  rw [Gateway.batchResult]
  split
  · exact h
  · rename_i first hfirst
    obtain ⟨hnonempty, hbatched⟩ := hexpects first hfirst
    obtain ⟨members, hids⟩ := Option.isSome_iff_exists.mp hbatched
    rw [if_neg hnonempty, hids, Option.getD_some]
    have hleft := (takeMembers_spec members g.inflight).2
    refine h.shrink (fun ht => (hleft _ _ ht).2) GoMap.lookup_of_lookup_erase (fun t entry ids ht hlookup => ?_)
      fun leaseID ids hlookup => ?_
    · obtain ⟨hnot, hentry⟩ := hleft t entry ht
      refine (AList.lookup_erase_ne fun heq => hnot ?_).trans hlookup
      exact hmembers t entry members hentry (heq ▸ hids)
    · have hne : leaseID ≠ first.leaseID := by
        rintro rfl
        rw [AList.lookup_erase] at hlookup
        cases hlookup
      obtain ⟨t, ht, entry, hentry, hlease⟩ := h.alive leaseID ids (GoMap.lookup_of_lookup_erase hlookup)
      have hnot : t ∉ members := fun hmem =>
        hne (hlease.symm.trans (h.own _ members t entry hids hmem hentry))
      exact ⟨t, ht, entry, (takeMembers_others hnot g.inflight).trans hentry, hlease⟩

/-- Dropping a delivery whose lease was lost. -/
theorem Intact.dropLost {taskID : String} {lost : InflightTask}
    (hlost : g.inflight.lookup taskID = some lost) : (g.dropLost taskID lost).1.Intact isBatch := by
  have hsub : ∀ {t : String} {entry : InflightTask}, (g.inflight.erase taskID).lookup t = some entry →
      g.inflight.lookup t = some entry := GoMap.lookup_of_lookup_erase
  -- the members of other batches are all still there
  have hothers : ∀ leaseID ids, g.batches.lookup leaseID = some ids → leaseID ≠ lost.leaseID →
      ∃ t ∈ ids, ∃ entry, (g.inflight.erase taskID).lookup t = some entry ∧ entry.leaseID = leaseID := by
    intro leaseID ids hids hne
    obtain ⟨t, ht, entry, hentry, hlease⟩ := h.alive leaseID ids hids
    have hother : t ≠ taskID := by
      rintro rfl
      cases hlost.symm.trans hentry
      exact hne hlease.symm
    exact ⟨t, ht, entry, (AList.lookup_erase_ne hother).trans hentry, hlease⟩
  rw [Gateway.dropLost, refundLostLease]
  dsimp only
  split
  · rename_i hnone
    refine h.shrink hsub id (fun _ _ _ _ hids => hids) fun leaseID ids hids => hothers leaseID ids hids ?_
    rintro rfl
    cases hnone.symm.trans hids
  · rename_i members hmembersOf
    split
    · rename_i hany
      refine h.shrink hsub id (fun _ _ _ _ hids => hids) fun leaseID ids hids => ?_
      rcases eq_or_ne leaseID lost.leaseID with rfl | hlease
      · cases hmembersOf.symm.trans hids
        obtain ⟨t, ht, hsome⟩ := List.any_eq_true.mp hany
        obtain ⟨entry, hentry⟩ := Option.isSome_iff_exists.mp hsome
        exact ⟨t, ht, entry, hentry, h.own _ members t entry hids ht (hsub hentry)⟩
      · exact hothers leaseID ids hids hlease
    · rename_i hall
      refine h.shrink hsub GoMap.lookup_of_lookup_erase (fun t entry ids ht hids => ?_) fun leaseID ids hids => ?_
      · refine (AList.lookup_erase_ne fun heq => hall (List.any_eq_true.mpr ?_)).trans hids
        exact ⟨t, hmembers t entry members (hsub ht) (heq ▸ hmembersOf), Option.isSome_iff_exists.mpr ⟨entry, ht⟩⟩
      · have hne : leaseID ≠ lost.leaseID := by
          rintro rfl
          rw [AList.lookup_erase] at hids
          cases hids
        exact hothers leaseID ids (GoMap.lookup_of_lookup_erase hids) hne

/-- A piece of work of a turn. -/
theorem Intact.finish (reply : Reply) (work : GatewayWork) :
    (g.finish turn reply work).1.Intact isBatch := by
  cases work with
  | extendLease taskID =>
    rw [Gateway.finish]
    split
    · exact h
    · rename_i entry hentry
      split
      · exact h.dropLost hmembers hentry
      · exact h
  | _ => exact h

end Members

variable {task : TaskEnvelope}

/-- Tracking a task that the gateway knew nothing of. -/
theorem Intact.dispatch (h : g.Intact isBatch) (hnew : ¬ g.Knows task.id) (hsingle : ¬ isBatch leaseID)
    (hsend : turn.sendFails = false) : (g.dispatch turn task leaseID).1.Intact isBatch := by
  have hg : (g.dispatch turn task leaseID).1 =
      { g with inflight := g.inflight.insert task.id (trackedTask task leaseID) } := by
    simp [Gateway.dispatch, hsend]
  have hlookup : ∀ {t : String}, t ≠ task.id →
      (g.inflight.insert task.id (trackedTask task leaseID)).lookup t = g.inflight.lookup t :=
    AList.lookup_insert_ne
  rw [hg]
  refine ⟨fun t entry ht hbatch => ?_, fun L ids hids => ?_, fun L ids t entry hids ht hentry => ?_⟩
  · rcases eq_or_ne t task.id with rfl | heq
    · cases (AList.lookup_insert (s := g.inflight) (a := task.id) (b := trackedTask task leaseID)).symm.trans ht
      exact absurd hbatch hsingle
    · exact h.whole t entry ((hlookup heq).symm.trans ht) hbatch
  · obtain ⟨t, ht, entry, hentry, hlease⟩ := h.alive L ids hids
    have hne : t ≠ task.id := by
      rintro rfl
      exact hnew (.inl ⟨entry, hentry⟩)
    exact ⟨t, ht, entry, (hlookup hne).trans hentry, hlease⟩
  · have hne : t ≠ task.id := by
      rintro rfl
      exact hnew (.inr ⟨L, ids, hids, ht⟩)
    exact h.own L ids t entry hids ht ((hlookup hne).symm.trans hentry)

variable {isBatch' : String → Prop}

/-- Tracking a batch of tasks that the gateway knew nothing of. -/
theorem Intact.dispatchBatch (h : g.Intact isBatch) {rest : List TaskEnvelope}
    (hnew : ∀ other ∈ task :: rest, ¬ g.Knows other.id) (hbatches : ∀ L, isBatch' L → L = leaseID ∨ isBatch L)
    (hsend : turn.sendFails = false) : (g.dispatchBatch turn (task :: rest) leaseID).1.Intact isBatch' := by
  have hg : (g.dispatchBatch turn (task :: rest) leaseID).1 =
      { g with
        inflight := trackAll leaseID (task :: rest) g.inflight
        batches := g.batches.insert leaseID ((task :: rest).map TaskEnvelope.id) } := by
    simp [Gateway.dispatchBatch, hsend]
  have hcases := trackAll_lookup leaseID (task :: rest) g.inflight
  -- a task that was known is as it was
  have hknown : ∀ {t : String}, g.Knows t →
      (trackAll leaseID (task :: rest) g.inflight).lookup t = g.inflight.lookup t := by
    intro t hknows
    rcases hcases t with ⟨other, hother, rfl, -⟩ | ⟨-, hsame⟩
    · exact absurd hknows (hnew other hother)
    · exact hsame
  have hmember : ∀ {t : String}, t ∈ (task :: rest).map TaskEnvelope.id →
      ∃ entry, (trackAll leaseID (task :: rest) g.inflight).lookup t = some entry ∧ entry.leaseID = leaseID := by
    intro t ht
    rcases hcases t with ⟨other, -, -, htracked⟩ | ⟨hnot, -⟩
    · exact ⟨_, htracked, rfl⟩
    · exact absurd ht hnot
  have hinsert : ∀ {L : String} {ids : List String},
      (g.batches.insert leaseID ((task :: rest).map TaskEnvelope.id)).lookup L = some ids →
      (L = leaseID ∧ ids = (task :: rest).map TaskEnvelope.id) ∨ g.batches.lookup L = some ids := by
    intro L ids hids
    rw [GoMap.lookup_insert_eq_ite] at hids
    split at hids
    · rename_i heq
      exact .inl ⟨heq, (Option.some.inj hids).symm⟩
    · exact .inr hids
  rw [hg]
  refine ⟨fun t entry ht hbatch => ?_, fun L ids hids => ?_, fun L ids t entry hids ht hentry => ?_⟩
  · rw [batched, GoMap.lookup_insert_eq_ite]
    split
    · rfl
    · rename_i hne
      rcases hcases t with ⟨other, -, -, htracked⟩ | ⟨-, hsame⟩
      · cases htracked.symm.trans ht
        exact absurd rfl hne
      · exact h.whole t entry (hsame.symm.trans ht) ((hbatches _ hbatch).resolve_left hne)
  · rcases hinsert hids with ⟨rfl, rfl⟩ | hold
    · obtain ⟨entry, hentry, hlease⟩ := hmember (t := task.id) (.head _)
      exact ⟨task.id, .head _, entry, hentry, hlease⟩
    · obtain ⟨t, ht, entry, hentry, hlease⟩ := h.alive L ids hold
      exact ⟨t, ht, entry, (hknown (.inl ⟨entry, hentry⟩)).trans hentry, hlease⟩
  · rcases hinsert hids with ⟨rfl, rfl⟩ | hold
    · obtain ⟨tracked, htracked, hlease⟩ := hmember ht
      cases htracked.symm.trans hentry
      exact hlease
    · exact h.own L ids t entry hold ht ((hknown (.inr ⟨L, ids, hold, ht⟩)).symm.trans hentry)

/-- Marking a delivery as canceled. -/
theorem Intact.cancelActive (h : g.Intact isBatch) (taskID : String) : (g.cancelActive taskID).1.Intact isBatch := by
  rw [Gateway.cancelActive]
  cases hmarked : g.inflight.lookup taskID with
  | none => exact h
  | some marked =>
    -- the new record stands for the same delivery
    have hold : ∀ {t : String} {entry : InflightTask},
        (g.inflight.insert taskID { marked with cancelRequested := true }).lookup t = some entry →
        ∃ old, g.inflight.lookup t = some old ∧ old.leaseID = entry.leaseID := by
      intro t entry ht
      rw [GoMap.lookup_insert_eq_ite] at ht
      split at ht
      · rename_i heq
        cases ht
        exact ⟨marked, heq ▸ hmarked, rfl⟩
      · exact ⟨entry, ht, rfl⟩
    refine ⟨fun t entry ht hbatch => ?_, fun L ids hids => ?_, fun L ids t entry hids ht hentry => ?_⟩
    · obtain ⟨old, hentry, hlease⟩ := hold ht
      exact hlease ▸ h.whole t old hentry (hlease ▸ hbatch)
    · obtain ⟨t, ht, entry, hentry, hlease⟩ := h.alive L ids hids
      rcases eq_or_ne t taskID with rfl | heq
      · cases hmarked.symm.trans hentry
        exact ⟨t, ht, _, AList.lookup_insert .., hlease⟩
      · exact ⟨t, ht, entry, (AList.lookup_insert_ne heq).trans hentry, hlease⟩
    · obtain ⟨old, hlookup, hlease⟩ := hold hentry
      exact hlease ▸ h.own L ids t old hids ht hlookup

theorem Intact.mono (h : g.Intact isBatch)
    (himp : ∀ t entry, g.inflight.lookup t = some entry → isBatch' entry.leaseID → isBatch entry.leaseID) :
    g.Intact isBatch' :=
  ⟨fun t entry ht hbatch => h.whole t entry ht (himp t entry ht hbatch), h.alive, h.own⟩

/-- The first part of a turn. -/
theorem Intact.receive (h : g.Intact isBatch)
    (hmembers : ∀ t entry ids, g.inflight.lookup t = some entry → g.batches.lookup entry.leaseID = some ids → t ∈ ids)
    (hexpects : g.Expects message) (hsend : turn.sendFails = false)
    (hbatches : ∀ L, isBatch' L → message.batchLease = some L ∨ isBatch L)
    (hsingle : ∀ task L expiresAt, message = .executeTask task L expiresAt → ¬ isBatch' L) :
    (g.receive turn message).1.Intact isBatch' := by
  have hmono : message.batchLease = none → g.Intact isBatch' := fun hnone =>
    h.mono fun _ _ _ hL => (hbatches _ hL).resolve_left fun hsome => nomatch hnone.symm.trans hsome
  cases message with
  | executeTask task leaseID expiresAt => exact (hmono rfl).dispatch hexpects (hsingle task leaseID expiresAt rfl) hsend
  | executeBatch tasks leaseID expiresAt group =>
    cases tasks with
    | nil => exact hmono rfl
    | cons task rest =>
      exact h.dispatchBatch hexpects (fun L hL => (hbatches L hL).imp_left fun heq => (Option.some.inj heq).symm) hsend
  | result result cause => exact (hmono rfl).result result cause hexpects
  | batchResult results cause => exact (hmono rfl).batchResult hmembers results cause hexpects
  | progress =>
    refine (hmono rfl).of_eq ?_ ?_ <;>
    · rw [Gateway.receive, Gateway.progress]
      split <;> rfl
  | cancelActive taskID => exact (hmono rfl).cancelActive taskID
  | drainSession | credit => exact hexpects.elim
  | _ => exact (hmono rfl).of_eq rfl rfl

end Turn

end Gateway

variable {rest : List (String × GatewayMessage)} {index number : Nat} {turn : GatewayTurn}

namespace System

/-- A lease under which a batch was delivered. -/
def BatchLease (s : System) (leaseID : String) : Prop :=
  ∃ d ∈ s.deliveries, d.batch = true ∧ d.leaseID = leaseID

/-- A delivery of the gateway whose answer is not given or not handled yet. -/
structure Pending (s : System) (name : String) (number : Nat) (d : Delivery) : Prop where
  logged : s.deliveries[number]? = some d
  gateway : d.gateway = name
  waits : d.open_ = true ∨ s.answered name number = true

theorem handled_gateway {s : System} {name target : String}
    (htake : takeAt s.toGateway index = some ((target, message), rest)) :
    s.handled name (.gateway index turn) = if target = name then some message else none := by
  rw [handled, htake]

theorem answered_mono {s s' : System} {name : String} (h : s.answered name number = true)
    (hsub : ∀ message, (name, message) ∈ s.toGateway → message.answer? = some (some number) →
      (name, message) ∈ s'.toGateway) : s'.answered name number = true := by
  obtain ⟨message, hmem, hanswer⟩ := answered_iff.mp h
  exact answered_iff.mpr ⟨message, hsub message hmem hanswer, hanswer⟩

end System

/-- Aborting requests leaves deliveries open. -/
theorem aborts_open (numbers : List Nat) (deliveries : List Delivery) :
    (numbers.foldl System.abortDelivery deliveries).map (fun d => (d.core, d.open_)) =
      deliveries.map fun d => (d.core, d.open_) :=
  List.foldlRecOn (motive := fun l : List Delivery => l.map _ = _) numbers _ rfl fun _ h number _ => by
    refine (map_modify_of_view ?_ number _).trans h
    exact fun _ => rfl

variable {d : Delivery}

/-- A delivery of the log after some were aborted and others added. -/
theorem aborted_delivery {deliveries more : List Delivery} (numbers : List Nat) (hd : deliveries[number]? = some d) :
    ∃ d', (numbers.foldl System.abortDelivery deliveries ++ more)[number]? = some d' ∧ d'.core = d.core ∧
      d'.open_ = d.open_ := by
  have hview := congrArg (·[number]?) (aborts_open numbers deliveries)
  simp only [List.getElem?_map, hd, Option.map_some] at hview
  obtain ⟨d', hd', heq⟩ := Option.map_eq_some_iff.mp hview
  obtain ⟨hlt, -⟩ := List.getElem?_eq_some_iff.mp hd'
  obtain ⟨hcore, hopen⟩ := Prod.mk.inj heq
  exact ⟨d', (List.getElem?_append_left hlt).trans hd', hcore, hopen⟩

variable {settings : Settings} {s s' : System} {e : Event} {name : String}

/-- A delivery stays pending until its answer is handled. -/
theorem Moves.pending (hmove : Moves settings s e s') (h : s.Pending name number d) :
    (∃ d', s'.Pending name number d' ∧ d'.core = d.core) ∨
      ∃ message, s.handled name e = some message ∧ message.answer? = some (some number) := by
  obtain ⟨hd, hgateway, hwaits⟩ := h
  have hsame : s'.deliveries = s.deliveries →
      (∀ message, (name, message) ∈ s.toGateway → (name, message) ∈ s'.toGateway) →
      ∃ d', s'.Pending name number d' ∧ d'.core = d.core := fun hlog hsub =>
    ⟨d, ⟨hlog ▸ hd, hgateway, hwaits.imp_right fun h => System.answered_mono h fun m hm _ => hsub m hm⟩, rfl⟩
  cases hmove with
  | idle | broker | tellGrain => exact .inl (hsame rfl fun _ hm => hm)
  | tellGateway | grain => exact .inl (hsame rfl fun _ hm => List.mem_append_left _ hm)
  | pipe =>
    rw [System.pipeStep_eq] at hsame ⊢
    exact .inl (hsame rfl fun _ hm => hm)
  | gateway htake ha hidle =>
    rename_i index turn target message rest a
    by_cases hanswer : target = name ∧ message.answer? = some (some number)
    · exact .inr ⟨message, (System.handled_gateway htake).trans (if_pos hanswer.1), hanswer.2⟩
    · obtain ⟨d', hd', hcore, hopen⟩ := aborted_delivery _ hd
      refine .inl ⟨d', ⟨hd', (core_fields hcore).1.trans hgateway, ?_⟩, hcore⟩
      refine hwaits.imp (hopen.trans) fun h => System.answered_mono h fun m hm hm' => ?_
      -- the message that was taken answers something else
      rcases List.mem_cons.mp ((takeAt_perm htake).mem_iff.mp hm) with heq | hrest
      · obtain ⟨rfl, rfl⟩ := Prod.mk.inj heq
        exact absurd ⟨rfl, hm'⟩ hanswer
      · exact List.mem_append_left _ hrest
  | resume ha hbusy =>
    obtain ⟨d', hd', hcore, hopen⟩ := aborted_delivery _ hd
    exact .inl ⟨d', ⟨hd', (core_fields hcore).1.trans hgateway, hwaits.imp (hopen.trans)
      fun h => System.answered_mono h fun m hm _ => List.mem_append_left _ hm⟩, hcore⟩
  | answer hd' hopen ha hreport =>
    rename_i other answer d' a message
    refine .inl ?_
    rcases eq_or_ne other number with rfl | heq
    · cases hd.symm.trans hd'
      refine ⟨{ d with open_ := false }, ⟨by simp [hd], hgateway, .inr ?_⟩, rfl⟩
      exact System.answered_iff.mpr ⟨message, List.mem_append_right _ (by simp [hgateway]), (report_answer hreport).1⟩
    · refine ⟨d, ⟨by simp [heq, hd], hgateway, hwaits.imp_right fun h => ?_⟩, rfl⟩
      exact System.answered_mono h fun m hm _ => List.mem_append_left _ hm

/-- What a step is for a gateway: nothing at all, something elsewhere, a part of a turn that goes on, or
the first part of a turn. -/
theorem Moves.at_gateway (hmove : Moves settings s e s') {a : GatewayActor} (ha : s.gateways name = some a) :
    s' = s ∨ (s.handled name e = none ∧ s'.gateways name = some a) ∨
      (∃ turn order reply, e = .resume name turn order ∧ s'.gateways name = some (a.resume settings turn reply).1) ∨
      ∃ index turn message rest, e = .gateway index turn ∧
        takeAt s.toGateway index = some ((name, message), rest) ∧ a.busy = false ∧
        s' = { s with toGateway := rest }.gatewayTurn settings turn name message a ∧
        s'.gateways name = some (a.receive settings { turn with delivery := s.deliveries.length } message).1 := by
  cases hmove with
  | idle => exact .inl rfl
  | broker | tellGrain | tellGateway | grain | answer => exact .inr (.inl ⟨rfl, ha⟩)
  | pipe =>
    rw [System.pipeStep_eq]
    exact .inr (.inl ⟨rfl, ha⟩)
  | gateway htake hb hidle =>
    rename_i index turn target message rest b
    rcases eq_or_ne target name with rfl | heq
    · cases hb.symm.trans ha
      exact .inr (.inr (.inr ⟨index, turn, message, rest, rfl, htake, hidle, rfl, Function.update_self ..⟩))
    · exact .inr (.inl ⟨(System.handled_gateway htake).trans (if_neg heq),
        (Function.update_of_ne heq.symm ..).trans ha⟩)
  | resume hb hbusy =>
    rename_i target turn order b
    rcases eq_or_ne target name with rfl | heq
    · cases hb.symm.trans ha
      exact .inr (.inr (.inl ⟨turn, order, _, rfl, Function.update_self ..⟩))
    · exact .inr (.inl ⟨rfl, (Function.update_of_ne heq.symm ..).trans ha⟩)

/-- A delivery of the log after a step was there before, or is that of the dispatch just handled. -/
theorem Moves.delivery_before (hmove : Moves settings s e s') {d' : Delivery} (hd' : d' ∈ s'.deliveries) :
    (∃ d ∈ s.deliveries, d'.core = d.core) ∨ ∃ index turn target message rest sent, e = .gateway index turn ∧
      takeAt s.toGateway index = some ((target, message), rest) ∧ message.delivery target sent = some d' := by
  obtain ⟨number, hnumber⟩ := List.mem_iff_getElem?.mp hd'
  rcases hmove.delivery_after hnumber with ⟨d, hd, hcore, -⟩ |
    ⟨index, turn, message, rest, a, he, -, htake, -, -, hd, -⟩
  · exact .inl ⟨d, List.mem_of_getElem? hd, hcore⟩
  · exact .inr ⟨index, turn, _, message, rest, _, he, htake, hd⟩

/-- A message that a stream gateway may find in its mailbox while its worker behaves. -/
def GatewayMessage.plain : GatewayMessage → Bool
  | .drainSession | .credit _ | .webhookDelivery .. | .webhookBatchDelivery .. => false
  | _ => true

/-- What the worker of a gateway and the network to it do: the worker sends no credits and stays connected,
answers its dispatches and nothing else, and names every member of a batch; frames reach it. -/
def System.Conforms (s : System) (name : String) : Event → Prop
  | .tellGateway target message => target = name → message.answer? = none ∧ message.plain = true
  | .gateway index turn => s.handled name (.gateway index turn) ≠ none → turn.sendFails = false
  | .answer number (.batchResult results) => ∀ d, s.deliveries[number]? = some d → d.gateway = name →
    ∀ t ∈ d.tasks, ∃ result ∈ results, result.taskId = t
  | _ => True

theorem System.Conforms.solicited (h : s.Conforms name e) : e.Solicited name := by
  cases e with
  | tellGateway => exact fun htarget => (h htarget).1
  | _ => trivial

/-- The records of a gateway are those of the deliveries still to be answered. -/
structure Engaged (name : String) (s : System) : Prop where
  stream : ∃ g, s.gateways name = some (.stream g)
  intact : ∀ g, s.gateways name = some (.stream g) → g.Intact s.BatchLease
  pending : ∀ g t entry, s.gateways name = some (.stream g) → g.inflight.lookup t = some entry →
    ∃ number d, s.Pending name number d ∧ d.leaseID = entry.leaseID ∧ t ∈ d.tasks
  singles : ∀ result number, (name, GatewayMessage.result result (some number)) ∈ s.toGateway →
    ∃ d, s.deliveries[number]? = some d ∧ d.batch = false ∧ d.tasks = [result.taskId]
  complete : ∀ results number, (name, GatewayMessage.batchResult results (some number)) ∈ s.toGateway →
    ∃ d, s.deliveries[number]? = some d ∧ ∀ t ∈ d.tasks, ∃ result ∈ results, result.taskId = t
  quiet : ∀ message, (name, message) ∈ s.toGateway → message.plain = true
  named : ∀ p ∈ s.leases, p.1 ≠ ""
  piped : ∀ p ∈ s.pipes, p.leaseID? ≠ some ""

/-- A lease is that of a batch after a step if it was before, or if the batch is just delivered. -/
theorem Moves.batchLease_after (hmove : Moves settings s e s') (h : s'.BatchLease leaseID) :
    s.BatchLease leaseID ∨ ∃ index turn target message rest, e = .gateway index turn ∧
      takeAt s.toGateway index = some ((target, message), rest) ∧ message.batchLease = some leaseID := by
  obtain ⟨d', hd', hbatch, rfl⟩ := h
  rcases hmove.delivery_before hd' with ⟨d, hd, hcore⟩ | ⟨index, turn, target, message, rest, sent, rfl, htake, hdelivery⟩
  · obtain ⟨-, -, hlease, -, hbatch'⟩ := core_fields hcore
    exact .inl ⟨d, hd, hbatch'.symm.trans hbatch, hlease.symm⟩
  · refine .inr ⟨index, turn, target, message, rest, rfl, htake, ?_⟩
    cases message with
    | executeTask =>
      cases hdelivery
      cases hbatch
    | executeBatch tasks leaseID expiresAt group =>
      cases tasks with
      | nil => cases hdelivery
      | cons =>
        cases hdelivery
        rfl
    | _ => cases hdelivery

/-- The lease of a batch that is just delivered is that of no record. -/
theorem Recorded.batchLease (hrecorded : Recorded s) (hmove : Moves settings s e s') {g : Gateway}
    (hg : s.gateways name = some (.stream g)) {entry : InflightTask}
    (hentry : g.inflight.lookup t = some entry) (h : s'.BatchLease entry.leaseID) : s.BatchLease entry.leaseID := by
  refine (hmove.batchLease_after h).resolve_right ?_
  rintro ⟨index, turn, target, message, rest, -, htake, hbatch⟩
  obtain ⟨d, hd, -, hlease, -⟩ := hrecorded.delivered.tasks name _ t entry hg hentry
  cases message with
  | executeBatch tasks leaseID expiresAt group =>
    cases tasks with
    | nil => cases hbatch
    | cons => exact hrecorded.flow.batch_lease (taken_mem htake) hd (hlease.trans (Option.some.inj hbatch).symm)
  | _ => cases hbatch

namespace Engaged

variable {g : Gateway} (h : Engaged name s) (hrecorded : Recorded s)
include h hrecorded

section Records

variable (hg : s.gateways name = some (.stream g))
include hg

/-- A batch that is tracked is a delivery still to be answered. -/
theorem batch_pending {ids : List String} (hids : g.batches.lookup leaseID = some ids) :
    ∃ number d, s.Pending name number d ∧ d.batch = true ∧ d.leaseID = leaseID ∧ d.tasks = ids := by
  obtain ⟨t, -, entry, hentry, hlease⟩ := (h.intact g hg).alive leaseID ids hids
  obtain ⟨number, d, hpending, hd, -⟩ := h.pending g t entry hg hentry
  obtain ⟨d', hd', -, hbatch', hlease', htasks'⟩ := hrecorded.delivered.batches name _ leaseID ids hg hids
  have hmem := List.mem_of_getElem? hpending.logged
  have hsame := hlease'.trans (hd.trans hlease).symm
  have hbatch := hrecorded.flow.batch_of_lease hd' hmem hbatch' hsame
  rw [hrecorded.flow.batch_unique hd' hmem hbatch' hbatch hsame] at htasks'
  exact ⟨number, d, hpending, hbatch, hd.trans hlease, htasks'⟩

/-- A task for which no answer is awaited is one the gateway knows nothing of. -/
theorem unknown (hawaits : s.awaits name t = false) : ¬ g.Knows t := by
  have hnone : ∀ {number : Nat} {d : Delivery}, s.Pending name number d → t ∉ d.tasks := by
    intro number d hpending ht
    rw [System.awaits_of_pending hpending.logged hpending.gateway ht hpending.waits] at hawaits
    cases hawaits
  rintro (⟨entry, hentry⟩ | ⟨leaseID, ids, hids, ht⟩)
  · obtain ⟨number, d, hpending, -, ht⟩ := h.pending g t entry hg hentry
    exact hnone hpending ht
  · obtain ⟨number, d, hpending, -, -, rfl⟩ := h.batch_pending hrecorded hg hids
    exact hnone hpending ht

/-- Every message the gateway may handle fits what it tracks. -/
theorem expects (hattributed : Attributed False name s) (hmem : (name, message) ∈ s.toGateway)
    (hawaits : ∀ task ∈ message.dispatched, s.awaits name task.id = false) : g.Expects message := by
  -- a record of a task of an answered delivery is under the lease of that delivery
  have hmatch : ∀ {number : Nat} {d : Delivery} {t : String} {entry : InflightTask},
      message.answer? = some (some number) → s.deliveries[number]? = some d → d.gateway = name → t ∈ d.tasks →
      g.inflight.lookup t = some entry → entry.leaseID = d.leaseID := by
    intro number d t entry hanswer hd hname ht hentry
    have hanswered := System.answered_iff.mpr ⟨message, hmem, hanswer⟩
    exact hattributed.matching number d _ t entry hd hname (.inr hanswered) ht hg hentry
  cases message with
  | executeTask task leaseID expiresAt => exact h.unknown hrecorded hg (hawaits task (.head _))
  | executeBatch =>
    exact fun task htask => h.unknown hrecorded hg (hawaits task htask)
  | result result cause =>
    cases cause with
    | none => exact (hattributed.reports _ none hmem rfl).elim
    | some number =>
      intro entry hentry
      obtain ⟨d, hd, hname, -⟩ := hattributed.reports _ (some number) hmem rfl
      obtain ⟨d', hd', hsingle, htasks⟩ := h.singles result number hmem
      cases hd.symm.trans hd'
      have hlease := hmatch rfl hd hname (by simp [htasks]) hentry
      refine Bool.eq_false_iff.mpr fun hbatched => ?_
      obtain ⟨ids, hids⟩ := Option.isSome_iff_exists.mp hbatched
      obtain ⟨d', hd', -, hbatch', hlease', -⟩ := hrecorded.delivered.batches name _ _ ids hg hids
      have hbatch := hrecorded.flow.batch_of_lease hd' (List.mem_of_getElem? hd) hbatch' (hlease'.trans hlease)
      exact Bool.noConfusion (hsingle.symm.trans hbatch)
  | batchResult results cause =>
    cases cause with
    | none => exact (hattributed.reports _ none hmem rfl).elim
    | some number =>
      intro first hfirst
      obtain ⟨d, hd, hname, hbatch, hmembers⟩ := hattributed.reports _ (some number) hmem rfl
      obtain ⟨result, hresult, hentry⟩ := List.exists_of_findSome?_eq_some hfirst
      have hlease := hmatch rfl hd hname (hmembers result hresult) hentry
      have hlog := List.mem_of_getElem? hd
      refine ⟨?_, (h.intact g hg).whole _ first hentry ⟨d, hlog, hbatch, hlease.symm⟩⟩
      rw [hlease]
      exact h.named _ (hrecorded.flow.delivery d hlog)
  | drainSession | credit => cases h.quiet _ hmem
  | _ => trivial

/-- The message the gateway takes fits its records, and its frame reaches the worker. -/
theorem expects_handled (hattributed : Attributed False name s)
    (htake : takeAt s.toGateway index = some ((name, message), rest))
    (hconforms : s.Conforms name (.gateway index turn)) (hanswered : s.DispatchesAnswered name (.gateway index turn)) :
    g.Expects message ∧ turn.sendFails = false := by
  have hhandled : s.handled name (.gateway index turn) = some message :=
    (System.handled_gateway htake).trans (if_pos rfl)
  rw [System.DispatchesAnswered, hhandled] at hanswered
  simp only [Option.all_some, List.all_eq_true, Bool.not_eq_true'] at hanswered
  refine ⟨h.expects hrecorded hg hattributed (taken_mem htake) hanswered, hconforms ?_⟩
  rw [hhandled]
  rintro ⟨⟩

/-- The answer to a delivery leaves no record of its tasks. -/
theorem untracked_after (hattributed : Attributed False name s) (hmem : (name, message) ∈ s.toGateway)
    (hexpects : g.Expects message)
    (hanswer : message.answer? = some (some number)) (hd : s.deliveries[number]? = some d) {entry entry' : InflightTask}
    (ht : t ∈ d.tasks) (hentry : g.inflight.lookup t = some entry)
    (hentry' : (g.receive turn message).1.inflight.lookup t = some entry') : False := by
  have hplain := h.quiet message hmem
  cases message with
  | result result cause =>
    cases hanswer
    obtain ⟨d', hd', -, htasks⟩ := h.singles result number hmem
    cases hd.symm.trans hd'
    rw [htasks, List.mem_singleton] at ht
    subst ht
    rw [Gateway.receive, Gateway.result, hentry] at hentry'
    rw [AList.lookup_erase] at hentry'
    cases hentry'
  | batchResult results cause =>
    cases hanswer
    obtain ⟨d', hd', hnamed⟩ := h.complete results number hmem
    cases hd.symm.trans hd'
    obtain ⟨d', hd', hname, hbatch, hmembers⟩ := hattributed.reports _ (some number) hmem rfl
    cases hd.symm.trans hd'
    have hanswered := System.answered_iff.mpr ⟨_, hmem, rfl⟩
    have hmatch := fun t e => hattributed.matching number d (.stream g) t e hd hname (.inr hanswered)
    -- the batch is found through one of its members, and all of them are taken out
    obtain ⟨result, hresult, rfl⟩ := hnamed t ht
    cases hfirst : results.findSome? fun result => g.inflight.lookup result.taskId with
    | none => cases hentry.symm.trans (List.findSome?_eq_none_iff.mp hfirst result hresult)
    | some first =>
      obtain ⟨other, hother, hlookup⟩ := List.exists_of_findSome?_eq_some hfirst
      obtain ⟨hnonempty, hbatched⟩ := hexpects first hfirst
      obtain ⟨ids, hids⟩ := Option.isSome_iff_exists.mp hbatched
      have hlease : entry.leaseID = first.leaseID :=
        (hmatch _ entry ht hg hentry).trans (hmatch _ first (hmembers other hother) hg hlookup).symm
      rw [Gateway.receive, Gateway.batchResult, hfirst] at hentry'
      dsimp only at hentry'
      rw [if_neg hnonempty, hids, Option.getD_some] at hentry'
      exact ((takeMembers_spec ids g.inflight).2 _ _ hentry').1
        ((hrecorded.consistent hg).members _ entry ids hentry (hlease ▸ hids))
  | leaseResult => cases hanswer
  | webhookDelivery | webhookBatchDelivery => cases hplain
  | _ => cases hanswer

end Records

variable (hattributed : Attributed False name s) (hmove : Moves settings s e s') (hconforms : s.Conforms name e)
  (hanswered : s.DispatchesAnswered name e)
include hattributed hmove hconforms hanswered

theorem intact_moves :
    ∀ g', s'.gateways name = some (.stream g') → g'.Intact s'.BatchLease := by
  intro g' hg'
  obtain ⟨g, hg⟩ := h.stream
  have hmembers := (hrecorded.consistent hg).members
  have hmono : g.Intact s'.BatchLease :=
    (h.intact g hg).mono fun t entry hentry => hrecorded.batchLease hmove hg hentry
  rcases hmove.at_gateway hg with rfl | ⟨-, hsame⟩ | ⟨turn, order, reply, -, hresume⟩ |
    ⟨index, turn, message, rest, rfl, htake, -, -, hreceive⟩
  · exact h.intact g' hg'
  · cases hsame.symm.trans hg'
    exact hmono
  · rw [hg', GatewayActor.resume] at hresume
    split at hresume
    · cases hresume
      exact hmono
    · rename_i work rest hturn
      cases hresume
      have hrest : Gateway.Intact s'.BatchLease { g with turn := rest } := hmono.of_eq rfl rfl
      exact hrest.finish hmembers reply work
  · obtain rfl : g' = (g.receive { turn with delivery := s.deliveries.length } message).1 :=
      GatewayActor.stream.inj (Option.some.inj (hg'.symm.trans hreceive))
    obtain ⟨hexpects, hsend⟩ := h.expects_handled hrecorded hg hattributed htake hconforms hanswered
    refine (h.intact g hg).receive hmembers hexpects hsend (fun L hL => ?_) ?_
    · rcases hmove.batchLease_after hL with hold | ⟨_, _, _, _, _, heq, htake', hbatch⟩
      · exact .inr hold
      · cases heq
        cases htake.symm.trans htake'
        exact .inl hbatch
    · rintro task L expiresAt rfl hL
      obtain ⟨d, hd, hbatch, hlease⟩ := (hmove.batchLease_after hL).resolve_right (by
        rintro ⟨_, _, _, _, _, heq, htake', hbatch⟩
        cases heq
        cases htake.symm.trans htake'
        cases hbatch)
      exact Bool.noConfusion ((hrecorded.flow.single_lease (taken_mem htake) hd hlease).symm.trans hbatch)

theorem pending_moves :
    ∀ g' t entry, s'.gateways name = some (.stream g') → g'.inflight.lookup t = some entry →
      ∃ number d, s'.Pending name number d ∧ d.leaseID = entry.leaseID ∧ t ∈ d.tasks := by
  intro g' t entry hg' hentry
  obtain ⟨g, hg⟩ := h.stream
  -- a record that was there stays pending as long as its answer is not handled
  have hstays : ∀ {old : InflightTask}, g.inflight.lookup t = some old → old.leaseID = entry.leaseID →
      (∀ number d message, s.deliveries[number]? = some d → t ∈ d.tasks → s.handled name e = some message →
        message.answer? ≠ some (some number)) →
      ∃ number d, s'.Pending name number d ∧ d.leaseID = entry.leaseID ∧ t ∈ d.tasks := by
    intro old hold hsame hunhandled
    obtain ⟨number, d, hpending, hlease, ht⟩ := h.pending g t old hg hold
    rcases hmove.pending hpending with ⟨d', hpending', hcore⟩ | ⟨message, hhandled, hanswer⟩
    · obtain ⟨-, -, hlease', htasks', -⟩ := core_fields hcore
      exact ⟨number, d', hpending', hlease'.trans (hlease.trans hsame), htasks' ▸ ht⟩
    · exact absurd hanswer (hunhandled number d message hpending.logged ht hhandled)
  rcases hmove.at_gateway hg with rfl | ⟨hnone, hsame⟩ | ⟨turn, order, reply, rfl, hresume⟩ |
    ⟨index, turn, message, rest, rfl, htake, -, hs', hreceive⟩
  · exact h.pending g' t entry hg' hentry
  · cases hsame.symm.trans hg'
    refine hstays hentry rfl fun _ _ message _ _ hhandled => ?_
    cases hnone.symm.trans hhandled
  · obtain ⟨old, hold, hsame⟩ := (@GatewayActor.resume_keeps settings turn (.stream g) reply).records t entry (by
      rw [← Option.some.inj (hg'.symm.trans hresume)]
      exact hentry)
    exact hstays hold hsame.leaseID fun _ _ message _ _ hhandled => nomatch hhandled
  · obtain rfl : g' = (g.receive { turn with delivery := s.deliveries.length } message).1 :=
      GatewayActor.stream.inj (Option.some.inj (hg'.symm.trans hreceive))
    have hhandled : s.handled name (.gateway index turn) = some message :=
      (System.handled_gateway htake).trans (if_pos rfl)
    obtain ⟨hexpects, hsend⟩ := h.expects_handled hrecorded hg hattributed htake hconforms hanswered
    rcases @GatewayActor.receive_records t settings { turn with delivery := s.deliveries.length } message (.stream g) entry
      hentry with ⟨-, old, hold, hsame⟩ | ⟨task, htask, rfl, rfl⟩
    · refine hstays hold hsame.leaseID fun number d other hd ht hother hanswer => ?_
      cases hhandled.symm.trans hother
      exact h.untracked_after hrecorded hg hattributed (taken_mem htake) hexpects hanswer hd ht hold hentry
    · rcases GatewayActor.dispatched_or_delivery message name (GatewayActor.sends turn (.stream g)) with hnone | ⟨d, hd⟩
      · rw [hnone] at htask
        cases htask
      · obtain ⟨hgateway, hlease, htasks, -⟩ := delivery_fields hd
        have hopen : d.open_ = true := by
          cases message with
          | executeTask =>
            cases hd
            simp [GatewayActor.sends, hsend]
          | executeBatch tasks =>
            cases tasks with
            | nil => cases htask
            | cons =>
              cases hd
              simp [GatewayActor.sends, hsend]
          | _ => cases htask
        refine ⟨s.deliveries.length, d, ⟨?_, hgateway, .inl hopen⟩, hlease, ?_⟩
        · rw [hs', System.gatewayTurn_dispatch hd]
          exact List.getElem?_concat_length
        · rw [htasks]
          exact List.mem_map_of_mem htask

end Engaged

variable {g : Gateway}

/-- The messages a worker's answers become. -/
theorem report_stream {answer : Answer} (h : d.report number (.stream g) answer = some message) :
    (∃ result, d.batch = false ∧ d.tasks = [result.taskId] ∧ message = .result result (some number)) ∨ ∃ results,
      answer = .batchResult results ∧ message = .batchResult results (some number) := by
  cases answer with
  | result outcome errorMsg =>
    simp only [Delivery.report] at h
    split at h
    · rename_i taskID hbatch htasks
      split at h
      · exact .inl ⟨⟨taskID, outcome, errorMsg⟩, hbatch, htasks, (Option.some.inj h).symm⟩
      · cases h
    · cases h
  | batchResult results =>
    simp only [Delivery.report] at h
    split at h
    · exact .inr ⟨results, rfl, (Option.some.inj h).symm⟩
    · cases h
  | response | responses => cases h

/-- A message to a gateway after a step: it was on its way before, is no answer, or is the answer just
given. -/
theorem Moves.mailbox (hmove : Moves settings s e s') (hconforms : s.Conforms name e)
    (hmem : (name, message) ∈ s'.toGateway) :
    (name, message) ∈ s.toGateway ∨ (message.answer? = none ∧ message.plain = true) ∨ ∃ number answer d a, e =
      .answer number answer ∧ s.deliveries[number]? = some d ∧ d.gateway = name ∧ s.gateways name = some a ∧
      d.report number a answer = some message ∧ s'.deliveries[number]? = some { d with open_ := false } := by
  rcases hmove.toGateway_after hmem with hold | ⟨ha, hadmits⟩ | ⟨htake, hnew⟩ | _ | ⟨hd, hopen, ha, hreport⟩
  · exact .inl hold
  · exact .inr (.inl (hconforms rfl))
  · refine .inr (.inl ?_)
    rcases emitted_dispatch hnew with ⟨_, _, _, _, -, _, -, rfl⟩ | ⟨_, _, _, _, _, _, -, -, rfl⟩ | ⟨_, rfl⟩ <;>
      exact ⟨rfl, rfl⟩
  · exact .inr (.inl ⟨rfl, rfl⟩)
  · exact .inr (.inr ⟨_, _, _, _, rfl, hd, rfl, ha, hreport, by simp [hd]⟩)

/-- Lease ids are never empty. -/
theorem Moves.lease_named (hmove : Moves settings s e s') (hleases : ∀ p ∈ s.leases, p.1 ≠ "")
    (hpipes : ∀ p ∈ s.pipes, p.leaseID? ≠ some "") :
    (∀ p ∈ s'.leases, p.1 ≠ "") ∧ ∀ p ∈ s'.pipes, p.leaseID? ≠ some "" := by
  cases hmove with
  | idle | broker | tellGrain | tellGateway | gateway | resume | answer => exact ⟨hleases, hpipes⟩
  | grain htake hfresh =>
    refine ⟨hleases, fun p hp => (List.mem_append.mp hp).elim (hpipes p) fun hnew hempty => ?_⟩
    rename_i index turn queue message rest
    have hnonempty : turn.newID ≠ "" := by
      simp only [System.fresh, Bool.and_eq_true, bne_iff_ne] at hfresh
      exact hfresh.1.1
    obtain ⟨effect, heffect, hpipe⟩ := List.mem_filterMap.mp hnew
    cases receive_emits heffect with
    | lease | leaseGroup =>
      cases hpipe
      exact hnonempty (Option.some.inj hempty)
    | release =>
      cases hpipe
      cases hempty
    | _ => cases hpipe
  | @pipe _ _ _ p rest htake =>
    rw [System.pipeStep_eq]
    refine ⟨fun q hq => (List.mem_append.mp hq).elim (hleases q) fun hnew hempty => ?_,
      fun q hq => (List.mem_append.mp hq).elim (fun hold => hpipes q (mem_of_takeAt htake hold)) fun hnew => ?_⟩
    · rw [Option.mem_toList] at hnew
      exact hpipes p (taken_mem htake) (by rw [p.leaseID_eq, hnew, ← hempty]; rfl)
    · obtain ⟨_, _, _, _, _, rfl⟩ := System.pipeRest_release (Option.mem_toList.mp hnew)
      rintro ⟨⟩

namespace Engaged

theorem moves (h : Engaged name s) (hattributed : Attributed False name s) (hrecorded : Recorded s)
    (hmove : Moves settings s e s') (hconforms : s.Conforms name e) (hanswered : s.DispatchesAnswered name e) :
    Engaged name s' where
  stream := by
    obtain ⟨g, hg⟩ := h.stream
    rcases hmove.at_gateway hg with rfl | ⟨-, hsame⟩ | ⟨turn, order, reply, -, hresume⟩ | ⟨_, _, _, _, -, -, -, -, hreceive⟩
    · exact ⟨g, hg⟩
    · exact ⟨g, hsame⟩
    · rw [hresume, GatewayActor.resume]
      split <;> exact ⟨_, rfl⟩
    · exact ⟨_, hreceive⟩
  intact := h.intact_moves hrecorded hattributed hmove hconforms hanswered
  pending := h.pending_moves hrecorded hattributed hmove hconforms hanswered
  singles result number hmem := by
    rcases hmove.mailbox hconforms hmem with hold | ⟨hnone, -⟩ | ⟨_, answer, d, a, -, hd, hname, ha, hreport, hd'⟩
    · obtain ⟨d, hd, hsingle, htasks⟩ := h.singles result number hold
      obtain ⟨d', hd', hcore, -⟩ := hmove.deliveries number d hd
      obtain ⟨-, -, -, htasks', hbatch'⟩ := core_fields hcore
      exact ⟨d', hd', hbatch'.trans hsingle, htasks'.trans htasks⟩
    · cases hnone
    · obtain ⟨g, hg⟩ := h.stream
      cases ha.symm.trans hg
      rcases report_stream hreport with ⟨_, hsingle, htasks, heq⟩ | ⟨_, -, heq⟩
      · cases heq
        exact ⟨_, hd', hsingle, htasks⟩
      · cases heq
  complete results number hmem := by
    rcases hmove.mailbox hconforms hmem with hold | ⟨hnone, -⟩ | ⟨_, answer, d, a, rfl, hd, hname, ha, hreport, hd'⟩
    · obtain ⟨d, hd, hnamed⟩ := h.complete results number hold
      obtain ⟨d', hd', hcore, -⟩ := hmove.deliveries number d hd
      obtain ⟨-, -, -, htasks', -⟩ := core_fields hcore
      exact ⟨d', hd', htasks' ▸ hnamed⟩
    · cases hnone
    · obtain ⟨g, hg⟩ := h.stream
      cases ha.symm.trans hg
      rcases report_stream hreport with ⟨_, -, -, heq⟩ | ⟨_, rfl, heq⟩
      · cases heq
      · cases heq
        exact ⟨_, hd', hconforms d hd hname⟩
  quiet message hmem := by
    rcases hmove.mailbox hconforms hmem with hold | ⟨-, hplain⟩ | ⟨_, answer, d, a, -, hd, hname, ha, hreport, -⟩
    · exact h.quiet message hold
    · exact hplain
    · obtain ⟨g, hg⟩ := h.stream
      cases ha.symm.trans hg
      rcases report_stream hreport with ⟨_, -, -, rfl⟩ | ⟨_, -, rfl⟩ <;> rfl
  named := (hmove.lease_named h.named h.piped).1
  piped := (hmove.lease_named h.named h.piped).2

end Engaged

/-- A gateway that starts has nothing to answer. -/
theorem engaged_start (d : Deployment) (hg : d.gateway name = some (.stream g)) : Engaged name (System.start d) := by
  have hempty : ∀ g, (System.start d).gateways name = some (.stream g) → g.inflight = ∅ ∧ g.batches = ∅ := by
    intro g hg
    rcases System.start_gateway hg with ⟨session, heq⟩ | ⟨registration, heq⟩ <;> cases heq
    exact ⟨rfl, rfl⟩
  refine ⟨⟨g, hg⟩, fun g hg => ?_, fun g t entry hg hentry => ?_, fun _ _ h => (nomatch h), fun _ _ h => (nomatch h),
    fun _ h => (nomatch h), fun _ h => (nomatch h), fun _ h => (nomatch h)⟩
  · obtain ⟨hinflight, hbatches⟩ := hempty g hg
    refine ⟨fun t entry hentry => ?_, fun L ids hids => ?_, fun L ids t entry hids => ?_⟩
    · rw [hinflight] at hentry
      cases hentry
    · rw [hbatches] at hids
      cases hids
    · rw [hbatches] at hids
      cases hids
  · rw [(hempty g hg).1] at hentry
    cases hentry

end Conveyor
