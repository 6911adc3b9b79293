import Conveyor.Broker.Exec

/-!
# Lease fencing

A task becomes active under a lease id only in the call that hands the id out. So once a task has
left a lease, no later operation can find it there again, as long as lease ids are not reused:
every lease-scoped operation under the old id is turned away, and at most one of them ever settled
the task.
-/

namespace Conveyor

open Lib

/-- The lease ids a run hands out, in order. -/
def leaseIDs (invocations : List Invocation) : List String :=
  invocations.filterMap fun i => i.call.leaseID?

/-- Every claiming call of the run uses a non-empty lease id that no other one uses. -/
def FreshLeases (invocations : List Invocation) : Prop :=
  (leaseIDs invocations).Nodup ∧ "" ∉ leaseIDs invocations

/-- A task is active, under whatever lease. -/
def Broker.Active (b : Broker) (t : String) : Prop :=
  ∃ row, b.tasks.lookup t = some row ∧ row.state = .active

/-- The task and lease a lease-scoped call names, batched acknowledgements apart. -/
def Call.scopedTo : Call → Option (String × String)
  | .extendLease taskID leaseID _ => some (taskID, leaseID)
  | .setProgress taskID leaseID _ _ => some (taskID, leaseID)
  | .ack taskID leaseID => some (taskID, leaseID)
  | .fail taskID leaseID _ _ => some (taskID, leaseID)
  | .release taskID leaseID => some (taskID, leaseID)
  | .archive taskID leaseID _ => if leaseID ≠ "" then some (taskID, leaseID) else none
  | _ => none

/-- The task and lease a call ends, if it ends one at all and succeeds. -/
def Call.settles : Call → Option (String × String)
  | .ack taskID leaseID => some (taskID, leaseID)
  | .fail taskID leaseID _ _ => some (taskID, leaseID)
  | .release taskID leaseID => some (taskID, leaseID)
  | .archive taskID leaseID _ => if leaseID ≠ "" then some (taskID, leaseID) else none
  | _ => none

/-- The items of a batched acknowledgement that found their task active under their lease. -/
def Broker.ackedItems (b : Broker) (now : Time) : List AckItem → List AckItem
  | [] => []
  | item :: rest =>
    match b.ack now item.taskID item.leaseID with
    | .error _ => ackedItems b now rest
    | .ok b' => item :: ackedItems b' now rest

/-- The (task, lease) pairs an invocation settles successfully. -/
def Broker.settlements (b : Broker) (i : Invocation) : List (String × String) :=
  match i.call with
  | .ackBatch items => (b.ackedItems i.now items).map fun item => (item.taskID, item.leaseID)
  | call =>
    match call.settles with
    | some pair => if (b.exec i).2 = .ok then [pair] else []
    | none => []

/-- The (task, lease) pairs a run settles successfully, in order. -/
def Broker.runSettlements (b : Broker) : List Invocation → List (String × String)
  | [] => []
  | i :: rest => b.settlements i ++ (b.after i).runSettlements rest

/-- The task ids in the reply of a claiming call. -/
def Reply.leasedIDs : Reply → List String
  | .leased tasks => tasks.map TaskEnvelope.id
  | _ => []

/-- The invocation cannot touch `t` under lease `L`: a scoped call is refused as lost with the store
unchanged, and a batched acknowledgement behaves as if the pair were not among its items. -/
def FencedOut (b : Broker) (i : Invocation) (t L : String) : Prop :=
  (i.call.scopedTo = some (t, L) → b.exec i = (b, .error .leaseLost)) ∧
  ∀ items, i.call = .ackBatch items →
    b.exec i = b.exec { i with call := .ackBatch (items.filter (· ≠ ⟨t, L⟩)) } ∧
    ∀ acked, (b.exec i).2 = .acked acked → t ∈ acked → ∃ item ∈ items, item.taskID = t ∧ item.leaseID ≠ L

variable {b : Broker} {row' : TaskRow}

section ActiveUnder

variable {now : Time} {call : Call} {seeds : List String} {base : Broker} {t L : String}

/-- No new task is active. -/
theorem initialState_ne_active (group : String) (processAt now : Time) (deps : GoMap String DependencyFailurePolicy)
    (cancel : Bool) : Broker.initialState group processAt now deps cancel ≠ .active := by
  rw [Broker.initialState]
  split_ifs <;> simp

/-- Two rows of one attempt at a task: the committed envelope and the retry counters agree. -/
structure TaskRow.SameAttempt (row row' : TaskRow) : Prop where
  envelope : row.envelope = row'.envelope
  retried : row.retried = row'.retried
  maxRetry : row.maxRetry = row'.maxRetry

theorem TaskRow.SameAttempt.refl (row : TaskRow) : row.SameAttempt row := ⟨rfl, rfl, rfl⟩

theorem TaskRow.SameAttempt.trans {a b c : TaskRow} (h : a.SameAttempt b) (h' : b.SameAttempt c) : a.SameAttempt c :=
  ⟨h.envelope.trans h'.envelope, h.retried.trans h'.retried, h.maxRetry.trans h'.maxRetry⟩

/-- A row is held under a lease only if it was already, in the same attempt, or if the call hands that
lease out. -/
theorem RowChange.heldUnder {row : TaskRow} (h : RowChange now t call row row') (hheld : row'.HeldUnder L) :
    row.HeldUnder L ∧ row.SameAttempt row' ∨ call.leaseID? = some L := by
  obtain ⟨hstate, hlease⟩ := hheld
  cases h with
  | leased h => exact .inr (congrArg some hlease)
  | groupLeased h => exact .inr (congrArg some hlease)
  | extended h => exact .inl ⟨⟨hstate, hlease⟩, rfl, rfl, rfl⟩
  | progressed h => exact .inl ⟨⟨hstate, hlease⟩, rfl, rfl, rfl⟩
  | unclaimed h => exact .inl ⟨⟨hstate, hlease⟩, rfl, rfl, rfl⟩
  | reaped h =>
    rw [TaskRow.reaped] at hstate
    split at hstate <;> cases hstate
  | promoted =>
    simp only [TaskRow.promoted] at hstate
    split_ifs at hstate
  | rescheduled h =>
    simp only [TaskRow.rescheduled] at hstate
    split_ifs at hstate
  | _ => cases hstate

/-- One step finds a task under a lease only if it was there already, in the same attempt, or if the
call hands that lease out. -/
theorem StoreStep.heldUnder {b' : Broker} (h : StoreStep now call seeds base b b')
    (hrow' : b'.tasks.lookup t = some row') (hheld : row'.HeldUnder L) :
    (∃ row, b.tasks.lookup t = some row ∧ row.HeldUnder L ∧ row.SameAttempt row') ∨ call.leaseID? = some L := by
  have hrow := h.row t
  rw [hrow'] at hrow
  generalize hstored : b.tasks.lookup t = stored at hrow
  cases hrow with
  | same => exact .inl ⟨row', rfl, hheld, .refl row'⟩
  | created => exact absurd hheld.1 (initialState_ne_active _ _ _ _ _)
  | @changed row _ hchange =>
    exact (hchange.heldUnder hheld).imp_left fun hold => ⟨row, rfl, hold⟩
  | @satisfied f finished row => exact .inl ⟨row, rfl, hheld, rfl, rfl, rfl⟩
  | cascaded => cases hheld.1

/-- A sequence of steps finds a task under a lease only if it was there already, in the same attempt,
or if the call hands that lease out. -/
theorem StoreSteps.heldUnder {b' : Broker} (h : StoreSteps now call seeds base b b')
    (hrow' : b'.tasks.lookup t = some row') (hheld : row'.HeldUnder L) :
    (∃ row, b.tasks.lookup t = some row ∧ row.HeldUnder L ∧ row.SameAttempt row') ∨ call.leaseID? = some L := by
  induction h generalizing row' with
  | refl => exact .inl ⟨row', hrow', hheld, .refl row'⟩
  | tail _ hlast ih =>
    rcases hlast.heldUnder hrow' hheld with ⟨mid, hmid, hheldMid, hattempt⟩ | hcall
    · rcases ih hmid hheldMid with ⟨row, hrow, hheldRow, hattempt'⟩ | hcall
      · exact .inl ⟨row, hrow, hheldRow, hattempt'.trans hattempt⟩
      · exact .inr hcall
    · exact .inr hcall

/-- A sequence of steps makes a task active under a lease only if the call hands that lease out. -/
theorem StoreSteps.activeUnder {b' : Broker} (h : StoreSteps now call seeds base b b')
    (hactive : b'.ActiveUnder t L) : b.ActiveUnder t L ∨ call.leaseID? = some L := by
  obtain ⟨row', hrow', hheld⟩ := hactive
  exact (h.heldUnder hrow' hheld).imp_left fun ⟨row, hrow, hold, _⟩ => ⟨row, hrow, hold⟩

/-- A run makes a task active under a lease only by handing that lease out. -/
theorem run_activeUnder (b : Broker) (invocations : List Invocation) (hactive : (b.run invocations).ActiveUnder t L) :
    b.ActiveUnder t L ∨ L ∈ leaseIDs invocations := by
  induction invocations generalizing b with
  | nil => exact .inl hactive
  | cons i rest ih =>
    rcases ih (b.after i) hactive with hafter | hmem
    · rcases (exec_steps b i).activeUnder hafter with hb | hcall
      · exact .inl hb
      · exact .inr (List.mem_filterMap.mpr ⟨i, .head _, hcall⟩)
    · obtain ⟨j, hj, hcall⟩ := List.mem_filterMap.mp hmem
      exact .inr (List.mem_filterMap.mpr ⟨j, .tail i hj, hcall⟩)

end ActiveUnder

variable {i : Invocation}

section Settling

variable {now : Time} {t L : String}

/-- An operation on a lease the task is not active under is refused and changes nothing. -/
theorem settle_refused (update : TaskRow → TaskRow) (h : ¬ b.ActiveUnder t L) :
    b.outcome (b.settle now t L update) = (b, .error .leaseLost) := by
  rw [Broker.settle, Broker.activeRow_eq_error b t L h]
  rfl

/-- A task whose row was just moved out of the active state is under no lease. -/
theorem transition_not_activeUnder {row : TaskRow} (h : row'.state ≠ .active) :
    ¬ (b.transition t row row' now).ActiveUnder t L := by
  rintro ⟨stored, hstored, hstate, -⟩
  rw [Broker.transition_tasks, AList.lookup_insert] at hstored
  cases hstored
  exact h hstate

/-- A successful operation that ends the active state finds the task under the lease and leaves it
out of it. -/
theorem settle_ends {update : TaskRow → TaskRow} (hupdate : ∀ row, (update row).state ≠ .active)
    (hok : (b.outcome (b.settle now t L update)).2 = .ok) :
    b.ActiveUnder t L ∧ ¬ (b.outcome (b.settle now t L update)).1.ActiveUnder t L := by
  by_cases hactive : b.ActiveUnder t L
  · refine ⟨hactive, ?_⟩
    obtain ⟨row, hrow⟩ := hactive
    have hok := (Broker.activeRow_eq_ok_iff b t L row).mpr hrow
    rw [Broker.settle, hok]
    exact transition_not_activeUnder (hupdate row)
  · rw [settle_refused update hactive] at hok
    cases hok

/-- A settling call that succeeds found the task under its lease and left it out of it. -/
theorem exec_settles (hcall : i.call.settles = some (t, L))
    (hok : (b.exec i).2 = .ok) : b.ActiveUnder t L ∧ ¬ (b.after i).ActiveUnder t L := by
  rcases i with ⟨now, call, order⟩
  cases call with
  | ack =>
    cases hcall
    exact settle_ends (fun _ => by rintro ⟨⟩) hok
  | fail =>
    cases hcall
    exact settle_ends (fun _ => by rintro ⟨⟩) hok
  | release =>
    cases hcall
    exact settle_ends (fun _ => by rintro ⟨⟩) hok
  | archive taskID leaseID errMsg =>
    simp only [Call.settles] at hcall
    split_ifs at hcall with hlease
    · cases hcall
      have heq : b.exec ⟨now, .archive t L errMsg, order⟩ =
          b.outcome (b.settle now t L fun row => row.archivedWith errMsg now) := by
        simp only [Broker.exec, Broker.archive, if_pos hlease]
      rw [heq] at hok
      rw [Broker.after, heq]
      exact settle_ends (fun _ => by rintro ⟨⟩) hok
  | _ => cases hcall

/-- A scoped call on a lease the task is not active under is refused and changes nothing. -/
theorem exec_refused (hcall : i.call.scopedTo = some (t, L))
    (h : ¬ b.ActiveUnder t L) : b.exec i = (b, .error .leaseLost) := by
  rcases i with ⟨now, call, order⟩
  cases call with
  | extendLease =>
    cases hcall
    exact settle_refused _ h
  | setProgress =>
    cases hcall
    exact settle_refused _ h
  | ack =>
    cases hcall
    exact settle_refused _ h
  | fail =>
    cases hcall
    exact settle_refused _ h
  | release =>
    cases hcall
    exact settle_refused _ h
  | archive =>
    simp only [Call.scopedTo] at hcall
    split_ifs at hcall with hlease
    · cases hcall
      simp only [Broker.exec, Broker.archive, if_pos hlease]
      exact settle_refused _ h
  | _ => cases hcall

/-- One acknowledgement either is refused, or ends the active state of the task it names and of no
other one. -/
theorem ack_cases (b : Broker) (now : Time) (taskID leaseID : String) :
    (¬ b.ActiveUnder taskID leaseID ∧ b.ack now taskID leaseID = .error .leaseLost) ∨ ∃ b', b.ack now taskID leaseID =
      .ok b' ∧ b.ActiveUnder taskID leaseID ∧ ¬ b'.ActiveUnder taskID leaseID ∧ ∀ t L, b'.ActiveUnder t L →
      b.ActiveUnder t L := by
  by_cases hactive : b.ActiveUnder taskID leaseID
  · obtain ⟨row, hrow⟩ := hactive
    have hack : b.ack now taskID leaseID = .ok (b.transition taskID row (row.acked now) now) := by
      rw [Broker.ack, Broker.settle, (Broker.activeRow_eq_ok_iff b taskID leaseID row).mpr hrow]
    refine .inr ⟨_, hack, ⟨row, hrow⟩, transition_not_activeUnder (by rintro ⟨⟩), fun t L hafter => ?_⟩
    have hstep : StoreSteps now (.ack taskID leaseID) [] b b
        (b.transition taskID row (row.acked now) now) :=
      StoreSteps.change hrow.1 (.acked hrow.2)
    exact (hstep.activeUnder hafter).resolve_right (by rintro ⟨⟩)
  · exact .inl ⟨hactive, by rw [Broker.ack, Broker.settle, Broker.activeRow_eq_error b _ _ hactive]⟩

/-- The reply of a batched acknowledgement lists the tasks of the items that were acknowledged. -/
theorem ackBatch_reply (items : List AckItem) (b : Broker) :
    (b.ackBatch now items).2 = (b.ackedItems now items).map AckItem.taskID := by
  induction items generalizing b with
  | nil => rfl
  | cons item rest ih =>
    rw [Broker.ackBatch, Broker.ackedItems]
    cases b.ack now item.taskID item.leaseID with
    | error e => exact ih b
    | ok b' => exact congrArg (item.taskID :: ·) (ih b')

/-- An acknowledged item found its task under its lease, and the batch leaves the task out of it. -/
theorem mem_ackedItems (items : List AckItem) (b : Broker) {item : AckItem} (hitem : item ∈ b.ackedItems now items) :
    item ∈ items ∧ b.ActiveUnder item.taskID item.leaseID ∧
      ¬ (b.ackBatch now items).1.ActiveUnder item.taskID item.leaseID := by
  induction items generalizing b with
  | nil => cases hitem
  | cons first rest ih =>
    rw [Broker.ackedItems] at hitem
    rw [Broker.ackBatch]
    rcases ack_cases b now first.taskID first.leaseID with ⟨-, hack⟩ | ⟨b', hack, hactive, hended, hkeeps⟩
    · rw [hack] at hitem ⊢
      obtain ⟨hmem, hrest⟩ := ih b hitem
      exact ⟨.tail first hmem, hrest⟩
    · rw [hack] at hitem ⊢
      rcases List.mem_cons.mp hitem with rfl | hlater
      · refine ⟨.head _, hactive, fun hafter => hended ?_⟩
        have hsteps : StoreSteps now (.ackBatch rest) [] b' b' (b'.ackBatch now rest).1 :=
          ackBatch_steps rest b' fun _ h => h
        exact (hsteps.activeUnder hafter).resolve_right (by rintro ⟨⟩)
      · obtain ⟨hmem, hactive', hended'⟩ := ih b' hlater
        exact ⟨.tail first hmem, hkeeps _ _ hactive', hended'⟩

/-- No item of a batch is acknowledged twice. -/
theorem ackedItems_nodup (items : List AckItem) (b : Broker) : (b.ackedItems now items).Nodup := by
  induction items generalizing b with
  | nil => exact List.nodup_nil
  | cons first rest ih =>
    rw [Broker.ackedItems]
    rcases ack_cases b now first.taskID first.leaseID with ⟨-, hack⟩ | ⟨b', hack, -, hended, -⟩
    · rw [hack]
      exact ih b
    · rw [hack]
      exact List.nodup_cons.mpr ⟨fun hmem => hended (mem_ackedItems rest b' hmem).2.1, ih b'⟩

/-- Items for a lease the task is not active under do not count. -/
theorem ackBatch_filter (items : List AckItem) (b : Broker) (h : ¬ b.ActiveUnder t L) :
    b.ackBatch now items = b.ackBatch now (items.filter (· ≠ ⟨t, L⟩)) := by
  induction items generalizing b with
  | nil => rfl
  | cons item rest ih =>
    by_cases hitem : item = ⟨t, L⟩
    · subst hitem
      rcases ack_cases b now t L with ⟨-, hack⟩ | ⟨b', -, hactive, -⟩
      · rw [List.filter_cons_of_neg (by simp), Broker.ackBatch, hack]
        exact ih b h
      · exact absurd hactive h
    · rw [List.filter_cons_of_pos (by simpa using hitem), Broker.ackBatch, Broker.ackBatch]
      rcases ack_cases b now item.taskID item.leaseID with ⟨-, hack⟩ | ⟨b', hack, -, -, hkeeps⟩
      · rw [hack]
        exact ih b h
      · rw [hack]
        dsimp only
        rw [ih b' fun hactive => h (hkeeps t L hactive)]

/-- A lease the task is not active under is fenced out. -/
theorem fencedOut_of_not_activeUnder (h : ¬ b.ActiveUnder t L) : FencedOut b i t L := by
  refine ⟨fun hcall => exec_refused hcall h, ?_⟩
  intro items hcall
  rcases i with ⟨now, call, order⟩
  cases hcall
  constructor
  · simp only [Broker.exec]
    rw [ackBatch_filter items b h]
  · intro acked hacked ht
    obtain rfl : (b.ackBatch now items).2 = acked := by
      simpa [Broker.exec] using hacked
    rw [ackBatch_reply] at ht
    obtain ⟨item, hitem, rfl⟩ := List.mem_map.mp ht
    obtain ⟨hmem, hactive, -⟩ := mem_ackedItems items b hitem
    exact ⟨item, hmem, rfl, fun hlease => h (hlease ▸ hactive)⟩

end Settling

variable {t : String}

section Claiming

variable {now : Time} {ttl : Duration} {leaseID : String}

/-- A claim leaves the rows it did not choose. -/
theorem claim_lookup_of_not_mem (chosen : List (String × TaskRow)) (b : Broker)
    (h : t ∉ chosen.map Prod.fst) : (b.claim now ttl leaseID chosen).tasks.lookup t = b.tasks.lookup t := by
  induction chosen generalizing b with
  | nil => rfl
  | cons entry rest ih =>
    rw [List.map_cons, List.mem_cons, not_or] at h
    refine (ih _ h.2).trans ?_
    rw [Broker.transition_tasks, AList.lookup_insert_ne h.1]

/-- A claim leaves each chosen row leased. -/
theorem claim_lookup (chosen : List (String × TaskRow)) (b : Broker)
    (hnodup : (chosen.map Prod.fst).Nodup) {entry : String × TaskRow} (hentry : entry ∈ chosen) :
    (b.claim now ttl leaseID chosen).tasks.lookup entry.1 = some (entry.2.leased now ttl leaseID) := by
  induction chosen generalizing b with
  | nil => cases hentry
  | cons first rest ih =>
    rw [List.map_cons, List.nodup_cons] at hnodup
    rcases List.mem_cons.mp hentry with rfl | hrest
    · refine (claim_lookup_of_not_mem rest _ hnodup.1).trans ?_
      rw [Broker.transition_tasks, AList.lookup_insert]
    · exact ih _ hnodup.2 hrest

variable {order : MapOrder String} {test : TaskRow → Bool} {cmp : TaskRow → TaskRow → Int} {limit : Int}

/-- A task in the reply of a sorted claim was stored, passed the test, and is active afterwards. -/
theorem claimSorted_leases (hkeyed : b.Keyed)
    (ht : t ∈ (b.claimSorted now order test cmp limit ttl leaseID).2.map TaskEnvelope.id) :
    (∃ row, b.tasks.lookup t = some row ∧ test row = true) ∧
      (b.claimSorted now order test cmp limit ttl leaseID).1.Active t := by
  rw [Broker.claimSorted] at ht ⊢
  split at ht
  · cases ht
  · rename_i hlimit
    rw [if_neg hlimit]
    obtain ⟨hnodup, hchosen⟩ := sorted_chosen b order test cmp limit.toNat
    rw [List.map_map, List.mem_map] at ht
    obtain ⟨entry, hentry, rfl⟩ := ht
    obtain ⟨hrow, htest⟩ := hchosen entry hentry
    have hid : entry.1 = entry.2.envelope.id := (hkeyed entry.1 entry.2 hrow).symm
    have hleased : (b.claim now ttl leaseID _).tasks.lookup entry.1 =
        some (entry.2.leased now ttl leaseID) := claim_lookup _ b hnodup hentry
    change (∃ row, b.tasks.lookup entry.2.envelope.id = some row ∧ test row = true) ∧
      (b.claim now ttl leaseID _).Active entry.2.envelope.id
    rw [← hid]
    exact ⟨⟨entry.2, hrow, htest⟩, ⟨_, hleased, rfl⟩⟩

/-- A task in the reply of a sorted claim is a stored row that passed the test, now leased. -/
theorem claimSorted_reply {task : TaskEnvelope}
    (htask : task ∈ (b.claimSorted now order test cmp limit ttl leaseID).2) :
    ∃ t row, b.tasks.lookup t = some row ∧ test row = true ∧ task = overlay (row.leased now ttl leaseID) ∧
      (b.claimSorted now order test cmp limit ttl leaseID).1.tasks.lookup t = some (row.leased now ttl leaseID) := by
  rw [Broker.claimSorted] at htask ⊢
  split at htask
  · cases htask
  · rename_i hlimit
    rw [if_neg hlimit]
    obtain ⟨hnodup, hchosen⟩ := sorted_chosen b order test cmp limit.toNat
    obtain ⟨entry, hentry, rfl⟩ := List.mem_map.mp htask
    obtain ⟨hrow, htest⟩ := hchosen entry hentry
    exact ⟨entry.1, entry.2, hrow, htest, rfl, claim_lookup _ b hnodup hentry⟩

/-- The tasks in the reply of a sorted claim are distinct. -/
theorem claimSorted_reply_nodup (hkeyed : b.Keyed) :
    ((b.claimSorted now order test cmp limit ttl leaseID).2.map TaskEnvelope.id).Nodup := by
  rw [Broker.claimSorted]
  split
  · exact List.nodup_nil
  · obtain ⟨hnodup, hchosen⟩ := sorted_chosen b order test cmp limit.toNat
    rw [List.map_map]
    have hids : ∀ entry ∈ (sortFunc (fun x y : String × TaskRow => cmp x.2 y.2)
        (b.rowsWhere order test)).take limit.toNat,
        (TaskEnvelope.id ∘ fun entry => overlay (entry.2.leased now ttl leaseID)) entry = entry.1 := by
      intro entry hentry
      exact hkeyed entry.1 entry.2 (hchosen entry hentry).1
    rw [List.map_congr_left hids]
    exact hnodup

/-- A task handed out by a claiming call waited in a leasable state and is active afterwards. -/
theorem leased_waiting (hkeyed : b.Keyed) (ht : t ∈ (b.exec i).2.leasedIDs) :
    (∃ row, b.tasks.lookup t = some row ∧ (dispatchable row.state = true ∨ row.state = .aggregating)) ∧
      (b.after i).Active t := by
  rcases i with ⟨now, call, order⟩
  cases call with
  | lease =>
    obtain ⟨⟨row, hrow, htest⟩, hactive⟩ := claimSorted_leases hkeyed ht
    simp only [Broker.leasable, Bool.and_eq_true] at htest
    exact ⟨⟨row, hrow, .inl htest.1.1.2⟩, hactive⟩
  | leaseGroup =>
    obtain ⟨⟨row, hrow, htest⟩, hactive⟩ := claimSorted_leases hkeyed ht
    exact ⟨⟨row, hrow, .inr (groupLeasable_state htest)⟩, hactive⟩
  | _ =>
    simp only [Broker.exec, Broker.outcome, Prod.map] at ht
    first
    | cases ht
    | (split at ht <;> cases ht)

/-- A task handed out by a claiming call was not active before it and is active after it. -/
theorem leased_activates (hkeyed : b.Keyed)
    (ht : t ∈ (b.exec i).2.leasedIDs) : ¬ b.Active t ∧ (b.after i).Active t := by
  obtain ⟨⟨row, hrow, hwaiting⟩, hactive⟩ := leased_waiting hkeyed ht
  refine ⟨?_, hactive⟩
  rintro ⟨row', hrow', hstate⟩
  cases hrow.symm.trans hrow'
  simp [dispatchable, hstate] at hwaiting

end Claiming

section Runs

/-- The pairs an invocation settles are distinct. -/
theorem settlements_nodup (b : Broker) (i : Invocation) : (b.settlements i).Nodup := by
  rw [Broker.settlements]
  split
  · rename_i items hcall
    refine (ackedItems_nodup items b).map ?_
    rintro ⟨t, L⟩ ⟨t', L'⟩ heq
    cases heq
    rfl
  · split
    · split
      · exact List.nodup_singleton _
      · exact List.nodup_nil
    · exact List.nodup_nil

/-- A settled pair was active before the invocation and is not after it. -/
theorem mem_settlements {L : String}
    (h : (t, L) ∈ b.settlements i) : b.ActiveUnder t L ∧ ¬ (b.after i).ActiveUnder t L := by
  rw [Broker.settlements] at h
  split at h
  · rename_i items hcall
    obtain ⟨item, hitem, heq⟩ := List.mem_map.mp h
    cases heq
    obtain ⟨-, hactive, hended⟩ := mem_ackedItems items b hitem
    refine ⟨hactive, ?_⟩
    have hafter : b.after i = (b.ackBatch i.now items).1 := by
      rw [Broker.after, Broker.exec, hcall]
      rfl
    rwa [hafter]
  · split at h
    · rename_i pair hsettles
      split at h
      · rename_i hok
        cases List.mem_singleton.mp h
        exact exec_settles hsettles hok
      · cases h
    · cases h

/-- A pair settled in a run was active at its start or its lease is handed out in the run. -/
theorem mem_runSettlements (invocations : List Invocation) (b : Broker) {L : String}
    (h : (t, L) ∈ b.runSettlements invocations) : b.ActiveUnder t L ∨ L ∈ leaseIDs invocations := by
  induction invocations generalizing b with
  | nil => cases h
  | cons i rest ih =>
    rcases List.mem_append.mp h with hnow | hlater
    · exact .inl (mem_settlements hnow).1
    · have hrest : L ∈ leaseIDs rest → L ∈ leaseIDs (i :: rest) := fun hmem => by
        obtain ⟨j, hj, hcall⟩ := List.mem_filterMap.mp hmem
        exact List.mem_filterMap.mpr ⟨j, .tail i hj, hcall⟩
      rcases ih (b.after i) hlater with hafter | hmem
      · rcases (exec_steps b i).activeUnder hafter with hb | hcall
        · exact .inl hb
        · exact .inr (List.mem_filterMap.mpr ⟨i, .head _, hcall⟩)
      · exact .inr (hrest hmem)

/-- No pair is settled twice in a run whose lease ids are new and distinct. The leases a task is
active under at the start are those already used. -/
theorem runSettlements_nodup (invocations : List Invocation) (b : Broker) (used : List String)
    (hused : ∀ t L, b.ActiveUnder t L → L ∈ used)
    (hfresh : (used ++ leaseIDs invocations).Nodup) : (b.runSettlements invocations).Nodup := by
  induction invocations generalizing b used with
  | nil => exact List.nodup_nil
  | cons i rest ih =>
    have hsplit : leaseIDs (i :: rest) = i.call.leaseID?.toList ++ leaseIDs rest := by
      cases hcall : i.call.leaseID? <;> simp [leaseIDs, hcall]
    rw [hsplit, ← List.append_assoc] at hfresh
    have hused' : ∀ t L, (b.after i).ActiveUnder t L → L ∈ used ++ i.call.leaseID?.toList := by
      intro t L hafter
      rcases (exec_steps b i).activeUnder hafter with hb | hcall
      · exact List.mem_append_left _ (hused t L hb)
      · exact List.mem_append_right _ (by simp [hcall])
    refine List.Nodup.append (settlements_nodup b i) (ih _ _ hused' hfresh) ?_
    rintro ⟨t, L⟩ hnow hlater
    obtain ⟨hactive, hended⟩ := mem_settlements hnow
    rcases mem_runSettlements rest _ hlater with hafter | hmem
    · exact hended hafter
    · exact (List.disjoint_of_nodup_append hfresh)
        (List.mem_append_left _ (hused t L hactive)) hmem

/-- Once a task has left a lease that the run handed out, it is never active under it again. -/
theorem not_activeUnder_of_left {pre mid later : List Invocation} {L : String}
    (hfresh : (leaseIDs (pre ++ mid ++ later)).Nodup) (hactive : (Broker.empty.run pre).ActiveUnder t L)
    (hleft : ¬ (Broker.empty.run (pre ++ mid)).ActiveUnder t L) :
    ¬ (Broker.empty.run (pre ++ mid ++ later)).ActiveUnder t L := by
  intro hagain
  have hpre : L ∈ leaseIDs pre := by
    refine (run_activeUnder Broker.empty pre hactive).resolve_left ?_
    rintro ⟨row, hrow, -⟩
    cases hrow
  rw [Broker.run_append] at hagain
  have hlater := (run_activeUnder _ later hagain).resolve_left hleft
  rw [List.append_assoc, leaseIDs, List.filterMap_append] at hfresh
  refine (List.disjoint_of_nodup_append hfresh) hpre ?_
  rw [List.filterMap_append]
  exact List.mem_append_right _ hlater

/-- Lease fencing. In every run whose claiming calls use new, non-empty lease ids, no (task, lease)
pair is settled twice; once a task has left a lease, every later use of that lease on it is fenced
out; and between two claims of one task, the task left the active state. -/
theorem lease_fencing (invocations : List Invocation) (hfresh : FreshLeases invocations) :
    (Broker.empty.runSettlements invocations).Nodup ∧
    (∀ pre mid later i post t L, invocations = pre ++ mid ++ later ++ i :: post →
      (Broker.empty.run pre).ActiveUnder t L → ¬ (Broker.empty.run (pre ++ mid)).ActiveUnder t L →
      FencedOut (Broker.empty.run (pre ++ mid ++ later)) i t L) ∧
    ∀ pre i mid j post t, invocations = pre ++ i :: mid ++ j :: post →
      t ∈ ((Broker.empty.run pre).exec i).2.leasedIDs →
      t ∈ ((Broker.empty.run (pre ++ i :: mid)).exec j).2.leasedIDs →
      (Broker.empty.run (pre ++ [i])).Active t ∧ ¬ (Broker.empty.run (pre ++ i :: mid)).Active t := by
  refine ⟨?_, ?_, ?_⟩
  · refine runSettlements_nodup invocations Broker.empty [] ?_ hfresh.1
    rintro t L ⟨row, hrow, -⟩
    cases hrow
  · intro pre mid later i post t L heq hactive hleft
    apply fencedOut_of_not_activeUnder
    refine not_activeUnder_of_left ?_ hactive hleft
    have hnodup := hfresh.1
    rw [heq, leaseIDs, List.filterMap_append] at hnodup
    exact hnodup.of_append_left
  · intro pre i mid j post t heq hfirst hsecond
    obtain ⟨-, hactive⟩ := leased_activates (run_keyed pre) hfirst
    obtain ⟨hinactive, -⟩ := leased_activates (run_keyed (pre ++ i :: mid)) hsecond
    refine ⟨?_, hinactive⟩
    rw [Broker.run_append]
    exact hactive

/-- A task is leased, reclaimed after its lease lapsed, and leased again; the first worker's
acknowledgement comes in before the second worker's. -/
def reclaimedRun : List Invocation :=
  [⟨1, .enqueue { id := "t", queue := "q", options := { maxRetry := 3 } }, {}⟩,
   ⟨2, .lease "q" 1 5 "L1", {}⟩,
   ⟨9, .reapExpiredLeases 10, {}⟩,
   ⟨10, .lease "q" 1 5 "L2", {}⟩,
   ⟨11, .ack "t" "L1", {}⟩,
   ⟨12, .ack "t" "L2", {}⟩]

/-- The reclaimed lease is fenced out, and only the second acknowledgement settles the task. -/
theorem lease_fencing_reclaimed :
    FreshLeases reclaimedRun ∧ Broker.empty.runSettlements reclaimedRun = [("t", "L2")] ∧
    FencedOut (Broker.empty.run (reclaimedRun.take 4)) ⟨11, .ack "t" "L1", {}⟩ "t" "L1" ∧
    (Broker.empty.run (reclaimedRun.take 2)).Active "t" ∧
    ¬ (Broker.empty.run (reclaimedRun.take 3)).Active "t" := by
  have hfresh : FreshLeases reclaimedRun := ⟨by decide, by decide⟩
  obtain ⟨-, hfenced, hleft⟩ := lease_fencing reclaimedRun hfresh
  refine ⟨hfresh, by decide, ?_, ?_⟩
  · refine hfenced (reclaimedRun.take 2) ((reclaimedRun.drop 2).take 1) ((reclaimedRun.drop 3).take 1)
      _ (reclaimedRun.drop 5) "t" "L1" rfl ⟨_, rfl, rfl, rfl⟩ ?_
    rintro ⟨row, hrow, hstate, -⟩
    cases hrow
    cases hstate
  · exact hleft (reclaimedRun.take 1) _ ((reclaimedRun.drop 2).take 1) _ (reclaimedRun.drop 4) "t" rfl
      (by decide) (by decide)

end Runs

end Conveyor
