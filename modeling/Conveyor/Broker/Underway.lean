import Conveyor.Broker.Terminal

/-!
# How a task that is under way ends

A task is under way from the moment it is due or scheduled until it is settled. An operation leaves it
under way, under the lease it was held under or a lease that the operation hands out, or ends it: through
the lease it is held under, by the reaper, by an admin, past its expiry, or by a cascade.
-/

namespace Conveyor

open Lib

/-- The states of a task that waits for nothing but its turn. -/
def underway : TaskState → Bool
  | .scheduled | .pending | .active | .retry => true
  | _ => false

/-- The operations that end a task which is under way with this row. -/
inductive EndCause (t : String) (row : TaskRow) : Call → Prop where
  | acked {leaseID : String} (hheld : row.HeldUnder leaseID) : EndCause t row (.ack t leaseID)
  | batchAcked {leaseID : String} {items : List AckItem} (hheld : row.HeldUnder leaseID)
      (hitem : ⟨t, leaseID⟩ ∈ items) : EndCause t row (.ackBatch items)
  | archived {leaseID errMsg : String} (hheld : row.HeldUnder leaseID) : EndCause t row (.archive t leaseID errMsg)
  | discarded {errMsg : String} : EndCause t row (.archive t "" errMsg)
  | reaped {limit : Int} : EndCause t row (.reapExpiredLeases limit)
  | expired {limit : Int} : EndCause t row (.archiveExpired limit)
  | canceled : EndCause t row (.cancelTask t)
  | deadLettered : EndCause t row (.archiveTask t)
  | deleted : EndCause t row (.deleteTask t)
  | cascaded {call : Call} (hcall : call.resolves = true) : EndCause t row call

/-- The row of a task that was under way: gone or terminal, and archived if the reaper ended it. -/
def EndedWith (call : Call) : Option TaskRow → Prop
  | none => ∀ limit, call ≠ .reapExpiredLeases limit
  | some row => terminal row.state = true ∧ ∀ limit, call = .reapExpiredLeases limit → row.state = .archived

/-- The row of a task that is still under way, as the operation that started with `before` leaves it. -/
structure StaysUnderway (call : Call) (before row : TaskRow) : Prop where
  state : underway row.state = true
  envelope : row.envelope = before.envelope
  held : ∀ leaseID, row.HeldUnder leaseID → before.HeldUnder leaseID ∨
    ∃ limit ttl, call = .lease before.envelope.queue limit ttl leaseID

section Changes

variable {now : Time} {call : Call} {t : String} {before row row' : TaskRow}

theorem EndCause.enqueued_nil (h : EndCause t row call) : call.enqueued = [] := by
  cases h with
  | cascaded hcall => exact Call.enqueued_nil_of_resolves hcall
  | _ => rfl

theorem EndCause.ne_runTaskNow (h : EndCause t row call) (id : String) : call ≠ .runTaskNow id := by
  rintro rfl
  cases h with
  | cascaded hcall => cases hcall

/-- A lease is handed out to a row that is not aggregating by leasing from its queue. -/
theorem RowChange.leased_queue {leaseID : String} (h : RowChange now t call row row')
    (hid : call.leaseID? = some leaseID) (hstate : row.state ≠ .aggregating) (henvelope : row.envelope = before.envelope) :
    ∃ limit ttl, call = .lease before.envelope.queue limit ttl leaseID := by
  cases h with
  | leased h =>
    simp only [Broker.leasable, Bool.and_eq_true, beq_iff_eq] at h
    cases hid
    exact ⟨_, _, by rw [← henvelope, h.1.1.1]⟩
  | groupLeased h => exact absurd (groupLeasable_state h) hstate
  | promoted hcall =>
    cases call <;> first | cases hcall; done | cases hid
  | _ => cases hid

/-- A row change leaves the task under way or ends it. -/
theorem RowChange.underway (h : RowChange now t call row row') (hstays : StaysUnderway call before row) :
    StaysUnderway call before row' ∨ (EndCause t before call ∧ EndedWith call (some row')) := by
  have hkept : Conveyor.underway row'.state = true → StaysUnderway call before row' := by
    refine fun hstate => ⟨hstate, h.envelope.trans hstays.envelope, fun leaseID hheld => ?_⟩
    rcases h.heldUnder hheld with ⟨hold, -⟩ | hid
    · exact hstays.held leaseID hold
    · refine .inr (h.leased_queue hid ?_ hstays.envelope)
      have hstate := hstays.state
      rintro hs
      rw [hs] at hstate
      cases hstate
  have hheld : ∀ {leaseID : String}, row.HeldUnder leaseID → call.leaseID? = none → before.HeldUnder leaseID := by
    intro leaseID h hnone
    refine (hstays.held _ h).resolve_right ?_
    rintro ⟨_, _, hcall⟩
    rw [hcall] at hnone
    cases hnone
  have hstate := hstays.state
  cases h with
  | leased | groupLeased | failed | released | due | ranNow => exact .inl (hkept rfl)
  | extended | progressed | unclaimed => exact .inl (hkept hstate)
  | rescheduled =>
    refine .inl (hkept ?_)
    rw [TaskRow.rescheduled]
    dsimp only
    split <;> rfl
  | acked h => exact .inr ⟨.acked (hheld h rfl), rfl, by rintro _ ⟨⟩⟩
  | batchAcked hitem h => exact .inr ⟨.batchAcked (hheld h rfl) hitem, rfl, by rintro _ ⟨⟩⟩
  | archived hlease h => exact .inr ⟨.archived (hheld h rfl), rfl, by rintro _ ⟨⟩⟩
  | discarded => exact .inr ⟨.discarded, rfl, by rintro _ ⟨⟩⟩
  | reaped h =>
    by_cases hspent : row.retried ≥ row.maxRetry
    · rw [TaskRow.reaped, if_pos hspent]
      exact .inr ⟨.reaped, rfl, fun _ _ => rfl⟩
    · refine .inl (hkept ?_)
      rw [TaskRow.reaped, if_neg hspent]
      rfl
  | expiredOut => exact .inr ⟨.expired, rfl, by rintro _ ⟨⟩⟩
  | promoted _ hblocked =>
    rw [hblocked] at hstate
    cases hstate
  | canceled => exact .inr ⟨.canceled, rfl, by rintro _ ⟨⟩⟩
  | deadLettered => exact .inr ⟨.deadLettered, rfl, by rintro _ ⟨⟩⟩

/-- A call that ended the task does not revive it. -/
theorem RowChange.ended (h : RowChange now t call row row') (hcause : EndCause t before call)
    (hended : EndedWith call (some row)) : EndedWith call (some row') := by
  obtain ⟨hterminal, harchived⟩ := hended
  cases h with
  | leased h => rcases leasable_state h with hs | hs <;> rw [hs] at hterminal <;> cases hterminal
  | groupLeased h =>
    rw [groupLeasable_state h] at hterminal
    cases hterminal
  | acked h | batchAcked _ h | failed h | released h | archived _ h =>
    rw [h.1] at hterminal
    cases hterminal
  | extended | progressed | unclaimed => exact ⟨hterminal, harchived⟩
  | discarded | expiredOut | canceled | deadLettered => exact ⟨rfl, by rintro _ ⟨⟩⟩
  | reaped h =>
    rw [reapable_state h] at hterminal
    cases hterminal
  | due h =>
    rw [promotable_state h] at hterminal
    cases hterminal
  | promoted _ hblocked =>
    rw [hblocked] at hterminal
    cases hterminal
  | ranNow => exact absurd rfl (hcause.ne_runTaskNow t)
  | rescheduled h =>
    cases hs : row.state <;> rw [hs] at h hterminal <;> first | cases hterminal; done | cases h

end Changes

/-- What an operation does to a task that is under way. -/
theorem after_underway {b : Broker} {i : Invocation} {t : String} {before : TaskRow}
    (hbefore : b.tasks.lookup t = some before) (hunderway : underway before.state = true) :
    (∃ row, (b.after i).tasks.lookup t = some row ∧ StaysUnderway i.call before row) ∨
      (EndCause t before i.call ∧ EndedWith i.call ((b.after i).tasks.lookup t)) := by
  apply after_induction (P := fun c => (∃ row, c.tasks.lookup t = some row ∧ StaysUnderway i.call before row) ∨
      (EndCause t before i.call ∧ EndedWith i.call (c.tasks.lookup t)))
    (.inl ⟨before, hbefore, hunderway, rfl, fun _ => .inl⟩)
  rintro c c' hstep (⟨row, hrow, hstays⟩ | ⟨hcause, hended⟩)
  · have hview := hstep.row t
    rw [hrow] at hview
    generalize hstored : c'.tasks.lookup t = stored at hview
    cases hview with
    | same => exact .inl ⟨row, rfl, hstays⟩
    | changed hchange => exact (hchange.underway hstays).imp_left fun h => ⟨_, rfl, h⟩
    | satisfied => exact .inl ⟨_, rfl, hstays.state, hstays.envelope, hstays.held⟩
    | cascaded hcall =>
      refine .inr ⟨.cascaded hcall, rfl, fun limit heq => ?_⟩
      rw [heq] at hcall
      cases hcall
    | deleted hcall =>
      rw [hcall]
      exact .inr ⟨.deleted, by rintro _ ⟨⟩⟩
    | purged =>
      have hstate := hstays.state
      cases hs : row.state <;> simp_all [purgeable, underway]
  · refine .inr ⟨hcause, ?_⟩
    have hview := hstep.row t
    generalize hstored : c.tasks.lookup t = stored at hview hended
    generalize hstored' : c'.tasks.lookup t = stored' at hview
    cases hview with
    | same => exact hended
    | created htask => simp [hcause.enqueued_nil] at htask
    | changed hchange => exact hchange.ended hcause hended
    | satisfied => exact hended
    | cascaded hcall =>
      refine ⟨rfl, fun limit heq => ?_⟩
      rw [heq] at hcall
      cases hcall
    | deleted hcall =>
      rw [hcall]
      rintro _ ⟨⟩
    | purged hcall =>
      rw [hcall]
      rintro _ ⟨⟩

end Conveyor
