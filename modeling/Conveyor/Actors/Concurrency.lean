import Conveyor.Actors.Leases
import Conveyor.Lib.Tally

/-!
# The per-key concurrency limit

A grain counts the slots of each concurrency key by task id, while executions are told apart by their
leases. The count is right as long as no completion report frees the slot of a task that is executing
again; a report that comes late does, and then one task more than the limit is admitted.
-/

namespace Conveyor

open Lib

variable {x : QueueGrain} {t : String} {turn : GrainTurn}

namespace QueueGrain

/-- The part of the grain that limits executions per key. -/
def semaphore (x : QueueGrain) : Int × GoMap String Int × GoMap String String :=
  (x.concurrencyLimit, x.activeByKey, x.inFlightKey)

/-- The count the grain keeps for a key. -/
def activeCount (x : QueueGrain) (key : String) : Int := (x.activeByKey.lookup key).getD 0

/-- The tasks that hold a slot of a key. -/
def slotCount (x : QueueGrain) (key : String) : Int := tally (fun _ held => held == key) x.inFlightKey

/-- The grain counts every slot that is held, and no more than the limit. -/
def SlotsCounted (x : QueueGrain) : Prop :=
  ∀ key, x.slotCount key ≤ x.activeCount key ∧ x.activeCount key ≤ x.concurrencyLimit

theorem SlotsCounted.of_semaphore {x' : QueueGrain} (h : x.SlotsCounted)
    (heq : x'.semaphore = x.semaphore) : x'.SlotsCounted := by
  obtain ⟨hlimit, hactive, hflight⟩ : x'.concurrencyLimit = x.concurrencyLimit ∧
      x'.activeByKey = x.activeByKey ∧ x'.inFlightKey = x.inFlightKey := by
    simpa [semaphore] using heq
  intro key
  rw [slotCount, activeCount, hlimit, hactive, hflight]
  exact h key

/-- Freeing a slot keeps the count right. -/
theorem releaseConcurrencyKey_counted (h : x.SlotsCounted) (hlimit : 0 ≤ x.concurrencyLimit)
    (taskID : String) : (x.releaseConcurrencyKey taskID).SlotsCounted := by
  rw [releaseConcurrencyKey]
  cases hheld : x.inFlightKey.lookup taskID with
  | none => exact h
  | some held =>
    intro key
    have herase := tally_erase (fun _ held => held == key) x.inFlightKey taskID
    rw [tallyAt_of_lookup hheld] at herase
    have hold := h key
    simp only [slotCount, activeCount] at hold ⊢
    -- the freed slot belongs to the key itself or to another one
    rcases eq_or_ne held key with rfl | hkey
    · rw [indicator_true (by simp)] at herase
      split
      · rw [AList.lookup_erase, Option.getD_none]
        omega
      · rw [AList.lookup_insert, Option.getD_some]
        omega
    · rw [indicator_false (by simpa using hkey)] at herase
      split
      · rw [AList.lookup_erase_ne hkey.symm]
        omega
      · rw [AList.lookup_insert_ne hkey.symm]
        omega

/-- Reserving a slot that is free, or held by the same task already, keeps the count right. -/
theorem reserveSlot_counted (h : x.SlotsCounted) (hlimit : 0 < x.concurrencyLimit)
    {taskID key : String} (hfree : x.saturated taskID key = false) : (x.reserveSlot taskID key).SlotsCounted := by
  rw [reserveSlot]
  split
  · exact h
  rename_i hne
  intro other
  have hinsert := tally_insert (fun _ held => held == other) x.inFlightKey taskID key
  have hold := h other
  simp only [slotCount, activeCount] at hold ⊢
  cases hholds : x.holdsSlot taskID key with
  | true =>
    have hlookup : x.inFlightKey.lookup taskID = some key := by
      simpa [holdsSlot, hne] using hholds
    rw [tallyAt_of_lookup hlookup] at hinsert
    rw [if_pos rfl]
    omega
  | false =>
    have hroom : (x.activeByKey.lookup key).getD 0 < x.concurrencyLimit := by
      simpa [saturated, hne, hholds, hlimit] using hfree
    rw [if_neg (by simp)]
    have hat : 0 ≤ tallyAt (fun _ held => held == other) x.inFlightKey taskID := indicator_nonneg _
    rcases eq_or_ne key other with rfl | hkey
    · rw [indicator_true (by simp)] at hinsert
      rw [AList.lookup_insert, Option.getD_some]
      omega
    · rw [indicator_false (by simpa using hkey)] at hinsert
      rw [AList.lookup_insert_ne hkey.symm]
      omega

section Parts

variable {turn : GrainTurn} {S : GrainEffect → Prop} {x x' : QueueGrain} {effects : List GrainEffect}

theorem Part.limit (h : Part turn S x x' effects) : x'.concurrencyLimit = x.concurrencyLimit := by
  induction h with
  | trans _ _ ih ih' => exact ih'.trans ih
  | sendTask =>
    rw [reserveSlot]
    split <;> rfl
  | _ => rfl

/-- A task reserves a slot that is free or its own, so the counts stay right. -/
theorem Part.counted (h : Part turn S x x' effects) (hcounted : x.SlotsCounted)
    (hlimit : 0 < x.concurrencyLimit) : x'.SlotsCounted := by
  induction h with
  | trans h _ ih ih' => exact ih' (ih hcounted hlimit) (h.limit ▸ hlimit)
  | @sendTask x i _ _ _ _ _ _ hfree =>
    have hspent : (x.spendCredit i).SlotsCounted := hcounted.of_semaphore rfl
    exact reserveSlot_counted hspent hlimit hfree
  | _ => exact hcounted.of_semaphore rfl

/-- Only slots of tasks that may be sent change hands. -/
theorem Part.others (h : Part turn S x x' effects)
    (hnot : ∀ gateway task leaseID expiresAt, S (.executeTask gateway task leaseID expiresAt) → task.id ≠ t) :
    x'.inFlightKey.lookup t = x.inFlightKey.lookup t := by
  induction h with
  | trans _ _ ih ih' => exact ih'.trans ih
  | sendTask _ _ _ hsend =>
    rw [reserveSlot]
    split
    · rfl
    · exact AList.lookup_insert_ne (hnot _ _ _ _ hsend).symm
  | _ => rfl

/-- A task that is sent holds a slot from then on, when it is sent with one key only. -/
theorem Part.holds {key : String} (hkey : key ≠ "") (h : Part turn S x x' effects)
    (hone : ∀ gateway task leaseID expiresAt, S (.executeTask gateway task leaseID expiresAt) → task.id = t →
      task.options.concurrencyKey = key)
    (hholds : x.inFlightKey.lookup t = some key ∨ ∃ gateway task leaseID expiresAt,
      .executeTask gateway task leaseID expiresAt ∈ effects ∧ task.id = t) :
    x'.inFlightKey.lookup t = some key := by
  induction h with
  | trans _ _ ih ih' =>
    rcases hholds with hheld | ⟨gateway, task, leaseID, expiresAt, hmem, hid⟩
    · exact ih' (.inl (ih (.inl hheld)))
    · rcases List.mem_append.mp hmem with hmem | hmem
      · exact ih' (.inl (ih (.inr ⟨gateway, task, leaseID, expiresAt, hmem, hid⟩)))
      · exact ih' (.inr ⟨gateway, task, leaseID, expiresAt, hmem, hid⟩)
  | @sendTask x i gateway task leaseID expiresAt _ _ _ hsend =>
    by_cases hid : task.id = t
    · rw [reserveSlot, hone _ _ _ _ hsend hid, if_neg hkey, hid]
      exact AList.lookup_insert _
    · have hheld := hholds.resolve_right (by simp [hid])
      rw [reserveSlot]
      split
      · exact hheld
      · exact (AList.lookup_insert_ne (Ne.symm hid)).trans hheld
  | quiet _ heffects =>
    refine hholds.resolve_right ?_
    rintro ⟨gateway, task, leaseID, expiresAt, hmem, -⟩
    cases (heffects _ hmem).1
  | _ => exact hholds.resolve_right (by simp)

end Parts

/-- Whether a lease cycle is under way, as the grain sees it. -/
def cycling (x : QueueGrain) : Int := indicator (x.leasing = true)

theorem cycling_le_one (x : QueueGrain) : x.cycling ≤ 1 := by
  rw [cycling, indicator]
  split <;> omega

/-- The lease cycles a turn starts. -/
def cyclesStarted (effects : List GrainEffect) : Int :=
  weigh (fun e => match e with | .lease .. => 1 | _ => 0) effects

theorem Part.cycling {S : GrainEffect → Prop} {x' : QueueGrain} {effects : List GrainEffect}
    (h : Part turn S x x' effects) : x'.cycling = x.cycling + cyclesStarted effects := by
  induction h with
  | trans _ _ ih ih' =>
    rw [ih', ih, cyclesStarted, cyclesStarted, cyclesStarted, weigh_append]
    omega
  | quiet _ heffects =>
    rw [cyclesStarted, weigh_eq_zero]
    · exact (add_zero _).symm
    · intro e he
      have hquiet := (heffects e he).1
      cases e <;> first | rfl | cases hquiet
  | wake hidle => simp [QueueGrain.cycling, cyclesStarted, hidle]
  | sendTask =>
    rw [reserveSlot]
    split <;> exact (add_zero _).symm
  | _ => exact (add_zero _).symm

/-- After a lease cycle the grain is idle, or on the next one. -/
theorem finishLeaseCycle_cycling (settings : Settings) (turn : GrainTurn) (leaseID : String)
    (expiresAt : Time) (error : String) (tasks : List TaskEnvelope) (x : QueueGrain) :
    (x.finishLeaseCycle settings turn leaseID expiresAt error tasks).1.cycling =
      cyclesStarted (x.finishLeaseCycle settings turn leaseID expiresAt error tasks).2 :=
  (finishLeaseCycle_part settings turn leaseID expiresAt error tasks x).cycling.trans (zero_add _)

theorem registerGateway_frame (x : QueueGrain) (name : String) (capacity weight : Int32) (batchTypes : List String) :
    (x.registerGateway name capacity weight batchTypes).semaphore = x.semaphore ∧
      (x.registerGateway name capacity weight batchTypes).leasing = x.leasing := by
  simp only [registerGateway]
  split <;> exact ⟨rfl, rfl⟩

theorem recordCompletion_semaphore (x : QueueGrain) (taskID name : String) :
    (x.recordCompletion taskID name).semaphore = (x.releaseConcurrencyKey taskID).semaphore := by
  simp only [recordCompletion, releaseConcurrencyKey]
  cases x.inFlightKey.lookup taskID <;> rfl

theorem releaseConcurrencyKey_leasing (x : QueueGrain) (taskID : String) :
    (x.releaseConcurrencyKey taskID).leasing = x.leasing := by
  rw [releaseConcurrencyKey]
  split <;> rfl

end QueueGrain

/-- Whether a message ends a lease cycle: its result, or the failure of its piped call. -/
def GrainMessage.isCycle : GrainMessage → Bool
  | .leaseCycleCompleted .. | .statusFailure => true
  | _ => false

variable {message : GrainMessage} {expiresAt : Time} {tasks : List TaskEnvelope}

namespace QueueGrain

variable (settings : Settings) (turn : GrainTurn) (x : QueueGrain)

/-- A turn on another message starts at most the lease cycle it notes. -/
theorem receive_cycling (hcycle : message.isCycle = false) :
    (x.receive settings turn message).1.cycling = x.cycling + cyclesStarted (x.receive settings turn message).2 := by
  have hnoted : (x.noted message).leasing = x.leasing := by
    cases message with
    | leaseCycleCompleted | statusFailure => cases hcycle
    | registerGateway name capacity weight batchTypes =>
      exact (registerGateway_frame x name capacity weight batchTypes).2
    | taskCompleted taskID => exact releaseConcurrencyKey_leasing _ taskID
    | _ => rfl
  obtain ⟨effects, hpart, heffects⟩ := receive_part settings turn x message
  have hstarted : cyclesStarted (x.receive settings turn message).2 = cyclesStarted effects := by
    rcases heffects with heq | ⟨hnone, group, type, limit, expiresAt, heq⟩
    · rw [heq]
    · rw [heq, hnone]
      rfl
  rw [hpart.cycling, hstarted, cycling, cycling, hnoted]

variable {settings turn x} {message : GrainMessage}

/-- The slot of a task after a message was noted: freed if the message reports the task, and as it was
otherwise. -/
theorem noted_slot (t : String) :
    (x.noted message).inFlightKey.lookup t = x.inFlightKey.lookup t ∧
      (∀ success name, message ≠ .taskCompleted t success name) ∨
      (∃ success name, message = .taskCompleted t success name) ∧ (x.noted message).inFlightKey.lookup t = none := by
  cases message with
  | taskCompleted taskID success name =>
    have hrecorded : (x.recordCompletion taskID name).inFlightKey = (x.releaseConcurrencyKey taskID).inFlightKey :=
      congrArg (·.2.2) (recordCompletion_semaphore x taskID name)
    rw [noted, hrecorded, releaseConcurrencyKey]
    rcases eq_or_ne t taskID with rfl | heq
    · refine .inr ⟨⟨success, name, rfl⟩, ?_⟩
      cases hheld : x.inFlightKey.lookup t with
      | none => exact hheld
      | some key => exact AList.lookup_erase _ _
    · refine .inl ⟨?_, fun _ _ h => heq (GrainMessage.taskCompleted.inj h).1.symm⟩
      split
      · rfl
      · exact AList.lookup_erase_ne heq
  | registerGateway name capacity weight batchTypes =>
    exact .inl ⟨congrArg (·.2.2.lookup t) (registerGateway_frame x name capacity weight batchTypes).1, nofun⟩
  | _ => exact .inl ⟨rfl, nofun⟩

/-- A turn that keeps the limit keeps the counts right. -/
theorem receive_counted (hcounted : x.SlotsCounted) (hpos : 0 < x.concurrencyLimit)
    (hkeeps : (x.receive settings turn message).1.concurrencyLimit = x.concurrencyLimit) :
    (x.receive settings turn message).1.SlotsCounted := by
  obtain ⟨effects, hpart, -⟩ := receive_part settings turn x message
  rw [hpart.limit] at hkeeps
  refine hpart.counted ?_ (hkeeps ▸ hpos)
  cases message with
  | taskCompleted taskID success name =>
    exact (releaseConcurrencyKey_counted hcounted hpos.le taskID).of_semaphore
      (recordCompletion_semaphore x taskID name)
  | concurrencyLimitChanged => exact hcounted.of_semaphore (Prod.ext hkeeps rfl)
  | registerGateway name capacity weight batchTypes =>
    exact hcounted.of_semaphore (registerGateway_frame x name capacity weight batchTypes).1
  | _ => exact hcounted.of_semaphore rfl

/-- A turn leaves the slots of tasks alone that it neither dispatches nor reports. -/
theorem receive_others
    (hcycle : ∀ leaseID expiresAt error tasks, message = .leaseCycleCompleted leaseID expiresAt error tasks →
      t ∉ tasks.map TaskEnvelope.id)
    (hreport : ∀ success name, message ≠ .taskCompleted t success name) :
    (x.receive settings turn message).1.inFlightKey.lookup t = x.inFlightKey.lookup t := by
  obtain ⟨effects, hpart, -⟩ := receive_part settings turn x message
  refine (hpart.others fun gateway task leaseID expiresAt hsend heq => ?_).trans ?_
  · cases hsend with
    | executeTask htask => exact hcycle _ _ _ _ rfl (heq ▸ List.mem_map_of_mem htask)
  · rcases @noted_slot x message t with ⟨hsame, -⟩ | ⟨⟨success, name, heq⟩, -⟩
    · exact hsame
    · exact absurd heq (hreport success name)

/-- A task that is sent after a lease cycle holds a slot of its key. -/
theorem receive_holds {gateway leaseID error : String} {task : TaskEnvelope}
    (hnodup : (tasks.map TaskEnvelope.id).Nodup)
    (hmem : .executeTask gateway task leaseID expiresAt ∈
      (x.receive settings turn (.leaseCycleCompleted leaseID expiresAt error tasks)).2)
    (hkey : task.options.concurrencyKey ≠ "") :
    (x.receive settings turn (.leaseCycleCompleted leaseID expiresAt error tasks)).1.inFlightKey.lookup task.id =
      some task.options.concurrencyKey := by
  have hpart := finishLeaseCycle_part settings turn leaseID expiresAt error tasks x
  have hsent : ∀ {gateway task id expires}, GrainEmits turn (.leaseCycleCompleted leaseID expiresAt error tasks)
      (.executeTask gateway task id expires) → task ∈ tasks := by
    intro gateway task id expires hsend
    cases hsend with
    | executeTask htask => exact htask
  refine hpart.holds hkey (fun _ other _ _ hsend hid => ?_) (.inr ⟨gateway, task, leaseID, expiresAt, hmem, rfl⟩)
  rw [List.inj_on_of_nodup_map hnodup (hsent hsend) (hsent (hpart.all _ hmem)) hid]

end QueueGrain

/-- The queue whose lease cycle a pipe is in. -/
def Pipe.cycleOf : Pipe → Option String
  | .lease queue .. => some queue
  | _ => none

namespace System

/-- Whether the task is active under a lease whose `ExecuteTask` the grain of the queue has sent. -/
def executing (s : System) (queue taskID : String) : Bool :=
  (s.broker.tasks.lookup taskID).any fun row =>
    row.state == .active && decide (⟨queue, taskID, row.leaseID⟩ ∈ s.sent)

/-- The tasks with a concurrency key that the grain of the queue has sent and that are active. -/
def executingWithKey (s : System) (queue key : String) : List String :=
  s.broker.tasks.keys.filter fun taskID =>
    s.executing queue taskID &&
      (s.broker.tasks.lookup taskID).any (·.envelope.options.concurrencyKey == key)

/-- The lease cycles of a queue that are under way. -/
def cycles (s : System) (queue : String) : Int :=
  weigh (fun p : Pipe => indicator (p.cycleOf = some queue)) s.pipes +
    weigh (fun p : String × GrainMessage => indicator (p.1 = queue ∧ p.2.isCycle = true)) s.toGrain

/-- What goakt does to the actors in step with the guard of a queue: of its piped calls only a lease cycle fails, and its
grain is activated only while none is under way. -/
def orderly (s : System) (queue : String) : Occurrence → Bool
  | .event _ => true
  | .pipeFails index _ => (takeAt s.pipes index).all fun taken =>
    taken.1.queue != queue || taken.1.cycleOf == some queue
  | .activates name => name != queue || decide (s.cycles queue = 0)

/-- The task whose completion report an event hands to the grain of the queue. -/
def reported (s : System) (queue : String) : Event → Option String
  | .grain index _ =>
    match takeAt s.toGrain index with
    | some ((name, .taskCompleted taskID _ _), _) => if name = queue then some taskID else none
    | _ => none
  | _ => none

/-- No completion report is handled for a task that the grain has sent and that is active. -/
def ReportsEnded (s : System) (queue : String) (e : Event) : Prop :=
  (s.reported queue e).all (fun taskID => !s.executing queue taskID) = true

instance (s : System) (queue : String) (e : Event) : Decidable (s.ReportsEnded queue e) :=
  inferInstanceAs (Decidable (_ = true))

/-- The limit of the queue stays what it is. -/
def KeepsLimit (s : System) (settings : Settings) (queue : String) (e : Event) : Prop :=
  ((s.step settings e).grains queue).concurrencyLimit = (s.grains queue).concurrencyLimit

instance (s : System) (settings : Settings) (queue : String) (e : Event) :
    Decidable (s.KeepsLimit settings queue e) := inferInstanceAs (Decidable (_ = _))

theorem executing_iff {s : System} {queue : String} :
    s.executing queue t = true ↔ ∃ row leaseID, s.broker.tasks.lookup t = some row ∧
      row.HeldUnder leaseID ∧ ⟨queue, t, leaseID⟩ ∈ s.sent := by
  cases hrow : s.broker.tasks.lookup t with
  | none => simp [executing, hrow]
  | some row => simp [executing, hrow, TaskRow.HeldUnder]

/-- The tasks of a lease cycle on its way to the grain: distinct, not executing yet, with the keys of
their rows. -/
structure Outstanding (s : System) (queue leaseID : String) (tasks : List TaskEnvelope) : Prop where
  nodup : (tasks.map TaskEnvelope.id).Nodup
  waiting : ∀ task ∈ tasks, s.executing queue task.id = false
  keys : ∀ task ∈ tasks, ∀ row, s.broker.tasks.lookup task.id = some row → row.HeldUnder leaseID →
    row.envelope.options.concurrencyKey = task.options.concurrencyKey

end System

section Frames

variable {settings : Settings} {queue : String} {s s' : System}

/-- What a gateway tells a grain completes no lease cycle. -/
theorem GrainMessage.FromGateway.not_cycle {name : String} {m : GrainMessage} (h : m.FromGateway name) :
    m.isCycle = false := by
  cases m <;> first | rfl | cases h

theorem mayTell_not_cycle (h : s.mayTell message = true) : message.isCycle = false := by
  cases message <;> first | rfl | cases h

variable {record : Sent}

/-- The tasks a turn sends are tasks of the lease cycle it completes. -/
theorem sent_of_cycle (h : record ∈ (x.receive settings turn message).2.filterMap (GrainEffect.sent queue)) :
    ∃ gateway task leaseID expiresAt error tasks, message = .leaseCycleCompleted leaseID expiresAt error tasks ∧
      .executeTask gateway task leaseID expiresAt ∈ (x.receive settings turn message).2 ∧ task ∈ tasks ∧ record =
      ⟨queue, task.id, leaseID⟩ := by
  obtain ⟨e, he, hrecord⟩ := List.mem_filterMap.mp h
  cases receive_emits he with
  | executeTask htask =>
    cases hrecord
    exact ⟨_, _, _, _, _, _, rfl, he, htask, rfl⟩
  | _ => cases hrecord

/-- A record of a dispatch was there before a step, or a grain just completed its lease cycle. -/
theorem Moves.sent_after {e : Event} (hmove : Moves settings s e s') (h : record ∈ s'.sent) :
    record ∈ s.sent ∨ ∃ index turn gateway task expiresAt error tasks rest, e = .grain index turn ∧
      takeAt s.toGrain index = some ((record.queue, .leaseCycleCompleted record.leaseID expiresAt error tasks), rest) ∧
      s' = { s with toGrain := rest }.grainTurn settings turn record.queue
        (.leaseCycleCompleted record.leaseID expiresAt error tasks) ∧
      .executeTask gateway task record.leaseID expiresAt ∈ ((s.grains record.queue).receive settings turn
        (.leaseCycleCompleted record.leaseID expiresAt error tasks)).2 ∧
      task ∈ tasks ∧ record.taskID = task.id := by
  cases hmove with
  | grain htake =>
    refine (List.mem_append.mp h).imp_right fun hnew => ?_
    obtain ⟨gateway, task, leaseID, expiresAt, error, tasks, rfl, heffect, htask, rfl⟩ := sent_of_cycle hnew
    exact ⟨_, _, gateway, task, expiresAt, error, tasks, _, rfl, htake, rfl, heffect, htask, rfl⟩
  | pipe =>
    rw [System.pipeStep_eq] at h
    exact .inl h
  | _ => exact .inl h

/-- The lease cycles among the pipes a turn starts. -/
theorem weigh_cycle_pipes (queue name : String) (effects : List GrainEffect) :
    weigh (fun p : Pipe => indicator (p.cycleOf = some queue)) (effects.filterMap (GrainEffect.pipe name)) = if name =
      queue then QueueGrain.cyclesStarted effects else 0 := by
  induction effects with
  | nil => split <;> rfl
  | cons e rest ih =>
    rw [QueueGrain.cyclesStarted] at ih ⊢
    cases e <;> simp only [List.filterMap_cons, GrainEffect.pipe, weigh_cons, ih] <;> split <;>
      simp_all [Pipe.cycleOf]

end Frames

/-- At most one lease cycle of a queue is under way, and the grain knows of it. -/
structure OneCycle (queue : String) (s : System) : Prop where
  cycles : s.cycles queue ≤ (s.grains queue).cycling

namespace OneCycle

variable {settings : Settings} {queue : String} {s s' : System} {e : Event}

theorem start (d : Deployment) (queue : String) : OneCycle queue (System.start d) := ⟨le_rfl⟩

/-- A step starts a lease cycle only where the grain notes one. -/
theorem moves (h : OneCycle queue s) (hmove : Moves settings s e s') : OneCycle queue s' := by
  refine ⟨?_⟩
  have hold := h.cycles
  have hquiet : ∀ {more : List (String × GrainMessage)}, (∀ p ∈ more, p.2.isCycle = false) →
      weigh (fun p : String × GrainMessage => indicator (p.1 = queue ∧ p.2.isCycle = true)) more = 0 :=
    fun hmore => weigh_eq_zero fun p hp => by simp [hmore p hp]
  -- messages that complete no lease cycle
  have htold : ∀ {more : List (String × GrainMessage)}, (∀ p ∈ more, p.2.isCycle = false) →
      System.cycles { s with toGrain := s.toGrain ++ more } queue ≤ (s.grains queue).cycling := by
    intro more hmore
    simpa [System.cycles, hquiet hmore] using hold
  cases hmove with
  | idle | broker | tellGateway | answer => exact hold
  | tellGrain hmay => exact htold fun p hp => List.mem_singleton.mp hp ▸ mayTell_not_cycle hmay
  | gateway => exact htold fun p hp => (receive_told hp).not_cycle
  | resume => exact htold fun p hp => (told_quiet (GatewayActor.resume_ordinary _) hp).not_cycle
  | @pipe index now order p rest htake =>
    have htaken := weigh_takeAt htake fun p : Pipe => indicator (p.cycleOf = some queue)
    have hrest : weigh (fun p : Pipe => indicator (p.cycleOf = some queue))
        (System.pipeRest { s with pipes := rest } now order p).toList = 0 := by
      refine weigh_eq_zero fun p hp => ?_
      obtain ⟨_, _, _, _, _, rfl⟩ := System.pipeRest_release (Option.mem_toList.mp hp)
      rfl
    have hreport : weigh (fun p : String × GrainMessage => indicator (p.1 = queue ∧ p.2.isCycle = true))
        (System.pipeReport settings { s with pipes := rest } now order p).toList ≤
          indicator (p.cycleOf = some queue) := by
      cases p with
      | lease => simp [System.pipeReport, Pipe.cycleOf, GrainMessage.isCycle, indicator]
      | leaseGroup => simp [System.pipeReport, Pipe.cycleOf, GrainMessage.isCycle, indicator]
      | release _ _ taskIDs =>
        cases taskIDs <;> simp [System.pipeReport, Pipe.cycleOf, GrainMessage.isCycle, indicator]
    rw [System.cycles, htaken] at hold
    rw [System.pipeStep_eq]
    simp only [System.cycles, weigh_append, hrest]
    omega
  | @grain index turn name message rest htake hfresh =>
    have htaken := weigh_takeAt htake fun p : String × GrainMessage =>
      indicator (p.1 = queue ∧ p.2.isCycle = true)
    rw [System.cycles, htaken] at hold
    simp only [System.cycles, System.grainTurn, System.emitGrain, System.setGrain, weigh_append, weigh_cycle_pipes]
    rcases eq_or_ne name queue with rfl | hname
    · rw [if_pos rfl, Function.update_self]
      have hone := (s.grains name).cycling_le_one
      by_cases hcycle : message.isCycle = true
      · have hended : ((s.grains name).receive settings turn message).1.cycling =
            QueueGrain.cyclesStarted ((s.grains name).receive settings turn message).2 := by
          cases message with
          | leaseCycleCompleted leaseID expiresAt error tasks =>
            exact QueueGrain.finishLeaseCycle_cycling settings turn leaseID expiresAt error tasks _
          | statusFailure => rfl
          | _ => cases hcycle
        rw [indicator_true ⟨rfl, hcycle⟩] at hold
        omega
      · rw [QueueGrain.receive_cycling settings turn _ (Bool.eq_false_of_not_eq_true hcycle)]
        rw [indicator_false (by simp [hcycle])] at hold
        omega
    · rw [if_neg hname, Function.update_of_ne hname.symm]
      rw [indicator_false fun hcycle => hname hcycle.1] at hold
      omega

variable {index : Nat} {other : GrainMessage}

/-- While one lease cycle is on its way to the grain there is no other one. -/
theorem only (h : OneCycle queue s) {rest : List (String × GrainMessage)}
    (htake : takeAt s.toGrain index = some ((queue, message), rest)) (hcycle : message.isCycle = true)
    (hother : (queue, other) ∈ rest) : other.isCycle = false := by
  by_contra hne
  rw [Bool.not_eq_false] at hne
  have htwo := h.cycles
  have hone := (s.grains queue).cycling_le_one
  have htaken := weigh_takeAt htake fun p : String × GrainMessage =>
    indicator (p.1 = queue ∧ p.2.isCycle = true)
  have hsecond := le_weigh_of_mem (fun p : String × GrainMessage =>
    indicator_nonneg (p.1 = queue ∧ p.2.isCycle = true)) hother
  have hpipes : 0 ≤ weigh (fun p : Pipe => indicator (p.cycleOf = some queue)) s.pipes :=
    weigh_nonneg _ fun _ _ => indicator_nonneg _
  rw [indicator_true ⟨rfl, hcycle⟩] at htaken
  rw [indicator_true ⟨rfl, hne⟩] at hsecond
  rw [System.cycles, htaken] at htwo
  omega

/-- While a pipe is to start a lease cycle none is on its way to the grain. -/
theorem no_message (h : OneCycle queue s) {p : Pipe} {rest : List Pipe} (htake : takeAt s.pipes index = some (p, rest))
    (hpipe : p.cycleOf = some queue) (hother : (queue, other) ∈ s.toGrain) : other.isCycle = false := by
  by_contra hne
  rw [Bool.not_eq_false] at hne
  have htwo := h.cycles
  have hone := (s.grains queue).cycling_le_one
  have htaken := weigh_takeAt htake fun p : Pipe => indicator (p.cycleOf = some queue)
  have hsecond := le_weigh_of_mem (fun p : String × GrainMessage =>
    indicator_nonneg (p.1 = queue ∧ p.2.isCycle = true)) hother
  have hpipes : 0 ≤ weigh (fun p : Pipe => indicator (p.cycleOf = some queue)) rest :=
    weigh_nonneg _ fun _ _ => indicator_nonneg _
  rw [indicator_true hpipe] at htaken
  rw [indicator_true ⟨rfl, hne⟩] at hsecond
  rw [System.cycles, htaken] at htwo
  omega

/-- The failure of a lease cycle takes the place of its result. -/
theorem occurs (h : OneCycle queue s) (o : Occurrence) (horderly : s.orderly queue o = true) :
    OneCycle queue (s.occur settings o) := by
  cases o with
  | event e => exact h.moves (step_moves settings s e)
  | pipeFails index called =>
    rw [System.occur]
    cases htake : takeAt s.pipes index with
    | none => exact h
    | some taken =>
      obtain ⟨pipe, rest⟩ := taken
      have hpipe : pipe.queue = queue → pipe.cycleOf = some queue := by
        simpa [System.orderly, htake, imp_iff_not_or] using horderly
      have hgrains : (s.madeCall settings called pipe).grains = s.grains := by
        cases called with
        | none => rfl
        | some call => rw [System.madeCall, System.pipeStep_eq]
      have hold := h.cycles
      have htaken := weigh_takeAt htake fun p : Pipe => indicator (p.cycleOf = some queue)
      refine ⟨?_⟩
      rw [System.cycles, htaken] at hold
      simp only [System.cycles, weigh_append, weigh_cons, weigh_nil, hgrains]
      by_cases hqueue : pipe.queue = queue
      · rw [indicator_true (hpipe hqueue)] at hold
        rw [indicator_true ⟨hqueue, rfl⟩]
        omega
      · rw [indicator_false fun hmessage => hqueue hmessage.1]
        have := indicator_nonneg (pipe.cycleOf = some queue)
        omega
  | activates name =>
    have hold := h.cycles
    refine ⟨?_⟩
    simp only [System.occur, System.setGrain]
    rcases eq_or_ne name queue with rfl | hname
    · have hidle : s.cycles name = 0 := by simpa [System.orderly] using horderly
      rw [Function.update_self]
      exact hidle.le
    · rw [Function.update_of_ne hname.symm]
      exact hold

/-- A queue has at most one lease cycle under way in every run, where of its piped calls only lease cycles fail and its
grain is activated again only between two of them. -/
theorem run_oneCycle (settings : Settings) (d : Deployment) (queue : String) (occurrences : List Occurrence)
    (horderly : StepsMeet (System.occur settings) (fun s o => s.orderly queue o = true) (System.start d) occurrences) :
    (run (System.occur settings) (System.start d) occurrences).cycles queue ≤ 1 := by
  have hone := run_invariant (OneCycle queue) (fun s o hmeet h => h.occurs o hmeet) (System.start d) occurrences horderly
    (start d queue)
  exact hone.cycles.trans (QueueGrain.cycling_le_one _)

end OneCycle

/-- The slots of a queue agree with what is executing. -/
structure SlotsHeld (queue : String) (limit : Int) (s : System) : Prop where
  limit_eq : (s.grains queue).concurrencyLimit = limit
  counted : (s.grains queue).SlotsCounted
  slot : ∀ t row, s.broker.tasks.lookup t = some row → s.executing queue t = true →
    row.envelope.options.concurrencyKey ≠ "" →
      (s.grains queue).inFlightKey.lookup t = some row.envelope.options.concurrencyKey
  cycles : s.cycles queue ≤ (s.grains queue).cycling
  sent : ∀ record ∈ s.sent, (record.leaseID, record.queue) ∈ s.leases
  outstanding : ∀ leaseID expiresAt error tasks,
    (queue, GrainMessage.leaseCycleCompleted leaseID expiresAt error tasks) ∈ s.toGrain →
      s.Outstanding queue leaseID tasks

namespace SlotsHeld

variable {settings : Settings} {queue : String} {limit : Int} {s s' : System} {e : Event}

theorem oneCycle (h : SlotsHeld queue limit s) : OneCycle queue s := ⟨h.cycles⟩

/-- What is executing after a step that sends nothing was executing before, with the same row. -/
theorem executing_before (h : SlotsHeld queue limit s) (hheld : s.HeldBefore s')
    (hsent : ∀ record ∈ s'.sent, record.queue = queue → record ∈ s.sent)
    (hexec : s'.executing queue t = true) : s.executing queue t = true := by
  obtain ⟨row', leaseID, hrow', hunder, hrecord⟩ := System.executing_iff.mp hexec
  have hold := hsent _ hrecord rfl
  obtain ⟨row, hrow, hunderRow, -⟩ := hheld t row' leaseID queue hrow' hunder (h.sent _ hold)
  exact System.executing_iff.mpr ⟨row, leaseID, hrow, hunderRow, hold⟩

/-- The tasks of a lease cycle stay as they are in a step that sends nothing. -/
theorem outstanding_after (h : SlotsHeld queue limit s) (hflow : LeaseFlow s) (hheld : s.HeldBefore s')
    (hsent : ∀ record ∈ s'.sent, record.queue = queue → record ∈ s.sent) {leaseID error : String}
    (hmem : (queue, GrainMessage.leaseCycleCompleted leaseID expiresAt error tasks) ∈ s.toGrain) :
    s'.Outstanding queue leaseID tasks := by
  obtain ⟨hnodup, hwaiting, hkeys⟩ := h.outstanding leaseID expiresAt error tasks hmem
  refine ⟨hnodup, fun task htask => ?_, fun task htask row' hrow' hunder => ?_⟩
  · by_contra hexec
    rw [Bool.not_eq_false] at hexec
    have hbefore := h.executing_before hheld hsent hexec
    rw [hwaiting task htask] at hbefore
    cases hbefore
  · obtain ⟨row, hrow, hunderRow, hattempt⟩ :=
      hheld task.id row' leaseID queue hrow' hunder (hflow.cycle _ _ _ _ _ hmem).1
    rw [← hattempt.envelope]
    exact hkeys task htask row hrow hunderRow

/-- The tasks a lease call returns are distinct and stored under the lease, with their keys. -/
theorem leased_rows {b : Broker} (hkeyed : b.Keyed) (now : Time) (order : Iteration)
    (queue : String) (limit : Int) (ttl : Duration) (leaseID : String) :
    let i : Invocation := ⟨now, .lease queue limit ttl leaseID, order⟩
    ((System.leasedTasks (b.exec i).2).map TaskEnvelope.id).Nodup ∧
      ∀ task ∈ System.leasedTasks (b.exec i).2, ∃ row,
        (b.after i).tasks.lookup task.id = some row ∧ row.leaseID = leaseID ∧
          row.envelope.options.concurrencyKey = task.options.concurrencyKey := by
  refine ⟨claimSorted_reply_nodup hkeyed, fun task htask => ?_⟩
  obtain ⟨t, row, hrow, -, rfl, hleased⟩ := claimSorted_reply (show task ∈ (b.claimSorted ..).2 from htask)
  have hid : (overlay (row.leased now ttl leaseID)).id = t := hkeyed t row hrow
  refine ⟨row.leased now ttl leaseID, ?_, rfl, rfl⟩
  rw [hid]
  exact hleased

/-- A lease cycle on its way to the grain has yet to be dispatched. -/
theorem outstanding_moves (h : SlotsHeld queue limit s) (hflow : LeaseFlow s) (hmove : Moves settings s e s')
    {leaseID error : String}    
    (hmem : (queue, GrainMessage.leaseCycleCompleted leaseID expiresAt error tasks) ∈ s'.toGrain) :
    s'.Outstanding queue leaseID tasks := by
  rcases hmove.cycle_after hmem with hold | ⟨index, now, order, amount, rest, -, htake, rfl, rfl⟩
  · by_cases hsent : ∀ record ∈ s'.sent, record.queue = queue → record ∈ s.sent
    · exact h.outstanding_after hflow (hmove.heldBefore hflow) hsent hold
    · -- a second lease cycle cannot be under way
      push Not at hsent
      obtain ⟨record, hrecord, rfl, hnot⟩ := hsent
      obtain ⟨_, _, _, _, _, _, _, _, -, htake, rfl, -⟩ := (hmove.sent_after hrecord).resolve_left hnot
      cases h.oneCycle.only htake rfl hmem
  · have hunused := hflow.pipe_unused htake rfl
    obtain ⟨hnodup, hrows⟩ := leased_rows hflow.keyed now order queue amount settings.leaseTTL leaseID
    refine ⟨hnodup, fun task htask => ?_, fun task htask row' hrow' _ => ?_⟩
    · -- the new id is on no record
      by_contra hexec
      rw [Bool.not_eq_false] at hexec
      obtain ⟨row', id', hrow', hunder, hrecord⟩ := System.executing_iff.mp hexec
      obtain ⟨row, hrow, hlease, -⟩ := hrows task htask
      cases hrow'.symm.trans hrow
      rw [← hunder.2, hlease] at hrecord
      exact hunused _ (h.sent _ hrecord)
    · obtain ⟨row, hrow, -, hkey⟩ := hrows task htask
      cases hrow'.symm.trans hrow
      exact hkey

/-- What is executing holds a slot of its key. -/
theorem slot_moves (h : SlotsHeld queue limit s) (hflow : LeaseFlow s) (hmove : Moves settings s e s')
    (hended : s.ReportsEnded queue e) {row' : TaskRow} (hrow' : s'.broker.tasks.lookup t = some row')
    (hexec : s'.executing queue t = true) (hkey : row'.envelope.options.concurrencyKey ≠ "") :
    (s'.grains queue).inFlightKey.lookup t = some row'.envelope.options.concurrencyKey := by
  obtain ⟨row₁, leaseID, hrow₁, hunder, hrecord⟩ := System.executing_iff.mp hexec
  cases hrow'.symm.trans hrow₁
  rcases hmove.sent_after hrecord with hold |
    ⟨index, turn, gateway, task, expiresAt, error, tasks, rest, rfl, htake, rfl, heffect, htask, rfl⟩
  · obtain ⟨row, hrow, hunderRow, hattempt⟩ :=
      hmove.heldBefore hflow t row' leaseID queue hrow' hunder (h.sent _ hold)
    have hbefore := System.executing_iff.mpr ⟨row, leaseID, hrow, hunderRow, hold⟩
    rw [← hattempt.envelope, ← h.slot t row hrow hbefore (hattempt.envelope ▸ hkey)]
    rcases hmove.grain_after queue with hsame | ⟨index, turn, message, rest, rfl, htake, hturn⟩
    · rw [hsame]
    · rw [hturn]
      refine QueueGrain.receive_others (fun id expiresAt error tasks heq hin => ?_) fun success name heq => ?_
      · -- sent before: not one of the tasks of this cycle
        subst heq
        obtain ⟨task, htask, rfl⟩ := List.mem_map.mp hin
        rw [(h.outstanding _ _ _ _ (taken_mem htake)).waiting task htask] at hbefore
        cases hbefore
      · subst heq
        simp [System.ReportsEnded, System.reported, htake, hbefore] at hended
  · obtain ⟨hnodup, -, hkeys⟩ := h.outstanding _ _ _ _ (taken_mem htake)
    rw [hkeys task htask row' (persist_tasks queue _ s.broker ▸ hrow') hunder] at hkey ⊢
    simp only [System.grainTurn, System.emitGrain, System.setGrain, Function.update_self]
    exact QueueGrain.receive_holds hnodup heffect hkey

/-- Every step that keeps the limit and reports no executing task keeps the slots in order. -/
theorem moves (h : SlotsHeld queue limit s) (hflow : LeaseFlow s) (hpos : 1 ≤ limit)
    (hmove : Moves settings s e s')
    (hkeeps : (s'.grains queue).concurrencyLimit = (s.grains queue).concurrencyLimit)
    (hended : s.ReportsEnded queue e) : SlotsHeld queue limit s' where
  limit_eq := hkeeps.trans h.limit_eq
  counted := by
    have hlimit := h.limit_eq
    rcases hmove.grain_after queue with hsame | ⟨_, _, _, _, -, -, hturn⟩
    · exact hsame ▸ h.counted
    · rw [hturn] at hkeeps ⊢
      exact QueueGrain.receive_counted h.counted (by omega) hkeeps
  slot _ _ := h.slot_moves hflow hmove hended
  cycles := (h.oneCycle.moves hmove).cycles
  sent record hrecord := by
    refine hmove.leases ?_
    rcases hmove.sent_after hrecord with hold | ⟨_, _, _, _, _, _, _, _, -, htake, -⟩
    · exact h.sent record hold
    · exact (hflow.cycle _ _ _ _ _ (taken_mem htake)).1
  outstanding _ _ _ _ := h.outstanding_moves hflow hmove

/-- The tasks with a key that are executing are no more than the limit. -/
theorem executing_le (h : SlotsHeld queue limit s) {key : String} (hkey : key ≠ "") :
    ((s.executingWithKey queue key).length : Int) ≤ limit := by
  have hnodup : (s.executingWithKey queue key).Nodup := s.broker.tasks.keys_nodup.filter _
  have hslots : ((s.executingWithKey queue key).length : Int) ≤ (s.grains queue).slotCount key := by
    refine length_le_tally hnodup fun t ht => ⟨key, ?_, by simp⟩
    obtain ⟨-, hboth⟩ := List.mem_filter.mp ht
    rw [Bool.and_eq_true] at hboth
    obtain ⟨hexec, hrowKey⟩ := hboth
    cases hrow : s.broker.tasks.lookup t with
    | none => simp [hrow] at hrowKey
    | some row =>
      simp only [hrow, Option.any_some, beq_iff_eq] at hrowKey
      rw [← hrowKey]
      exact h.slot t row hrow hexec (hrowKey ▸ hkey)
  obtain ⟨hcount, hle⟩ := h.counted key
  rw [h.limit_eq] at hle
  omega

end SlotsHeld

/-- Before anything runs no slot is held. -/
theorem slotsHeld_start (d : Deployment) (queue : String)
    (hpos : 1 ≤ ((System.start d).grains queue).concurrencyLimit) :
    SlotsHeld queue ((System.start d).grains queue).concurrencyLimit (System.start d) where
  limit_eq := rfl
  counted key := ⟨le_rfl, by
    have hzero : ((System.start d).grains queue).activeCount key = 0 := rfl
    omega⟩
  slot t row hrow := by cases hrow
  cycles := le_rfl
  sent record h := by cases h
  outstanding _ _ _ _ h := by cases h

/-- The grain admits at most `limit` tasks of a key as long as no completion report is handled for a
task that is executing again: after every run in which the limit stays and every step meets that
condition, no more than `limit` tasks with the key are active under leases the grain has sent. -/
theorem key_limit (settings : Settings) (d : Deployment) (queue : String) (limit : Int)
    (hpos : 1 ≤ limit) (hlimit : ((System.start d).grains queue).concurrencyLimit = limit)
    (events : List Event)
    (hmeet : StepsMeet (System.step settings)
      (fun s e => s.KeepsLimit settings queue e ∧ s.ReportsEnded queue e) (System.start d) events)
    (key : String) (hkey : key ≠ "") :
    (((run (System.step settings) (System.start d) events).executingWithKey queue key).length : Int) ≤ limit := by
  have hinv := run_invariant (fun s => LeaseFlow s ∧ SlotsHeld queue limit s)
    (fun s e hstep hs => ?_) (System.start d) events hmeet ⟨leaseFlow_start d, ?_⟩
  · exact hinv.2.executing_le hkey
  · have hmove := step_moves settings s e
    exact ⟨hs.1.moves hmove, hs.2.moves hs.1 hpos hmove hstep.1 hstep.2⟩
  · subst hlimit
    exact slotsHeld_start d queue hpos

/-- One queue with one slot per key, and one worker with room for four tasks. -/
def limitedDeployment : Deployment :=
  { concurrencyLimits := (∅ : GoMap String Int).insert "q" 1
    sessions := [{ sessionID := "s", queues := ["q"], concurrency := 4
                   weights := (∅ : GoMap String Int32).insert "q" 1 }] }

/-- A task of that queue with a concurrency key. -/
def keyedTask (id : String) : TaskEnvelope :=
  { id := id, queue := "q", options := { concurrencyKey := "k" } }

/-- The first task is leased, sent to the worker and given back by it; the report waits. -/
def givenBack : List Event :=
  [.broker { now := 1, call := .enqueue (keyedTask "t") },
   .tellGateway "gateway-s" .postStart, .gateway 0 { now := 1 },
   .grain 0 { now := 1, newID := "L1" }, .pipe 0 1 {}, .grain 0 { now := 1, newID := "L2" },
   .pipe 0 1 {}, .grain 0 { now := 1, newID := "L3" }, .gateway 0 { now := 1 },
   .answer 0 (.result .released ""), .gateway 0 { now := 2 }, .resume "gateway-s" { now := 2 } {}]

/-- The report is handled, and then the task is sent again. -/
def promptReport : List Event :=
  givenBack ++ [.grain 0 { now := 2, newID := "L3" }, .pipe 0 2 {}, .grain 0 { now := 2, newID := "L4" },
    .broker { now := 3, call := .enqueue (keyedTask "u") }, .pipe 0 3 {},
    .grain 0 { now := 3, newID := "L5" }]

/-- The task is sent again, and the report is handled while it executes. -/
def lateReport : List Event :=
  givenBack ++ [.tellGrain "q" .tasksAvailable, .grain 1 { now := 2, newID := "L3" }, .pipe 0 2 {},
    .grain 1 { now := 2, newID := "L4" }, .grain 0 { now := 3, newID := "L5" },
    .broker { now := 3, call := .enqueue (keyedTask "u") }, .pipe 0 3 {},
    .grain 0 { now := 3, newID := "L6" }]

theorem key_limit_promptReport :
    (run (System.step defaultSettings) (System.start limitedDeployment) promptReport).executingWithKey
        "q" "k" = ["t"] ∧
      ((run (System.step defaultSettings) (System.start limitedDeployment)
        promptReport).executingWithKey "q" "k").length ≤ (1 : Int) :=
  ⟨by decide +kernel, key_limit defaultSettings limitedDeployment "q" 1 (by decide) (by decide) promptReport
    (by decide +kernel) "k" (by decide)⟩

/-- A late report makes room for a second task while the first one executes. -/
theorem key_limit_lateReport :
    StepsMeet (System.step defaultSettings) (fun s e => s.KeepsLimit defaultSettings "q" e)
        (System.start limitedDeployment) lateReport ∧
      ((System.start limitedDeployment).grains "q").concurrencyLimit = 1 ∧
      (run (System.step defaultSettings) (System.start limitedDeployment) lateReport).executingWithKey
        "q" "k" = ["u", "t"] := by
  decide +kernel

/-- Two tasks of one key, and the grain about to lease them. -/
def firstCycle : List Occurrence :=
  [.event (.broker { now := 1, call := .enqueue (keyedTask "t") }),
   .event (.broker { now := 1, call := .enqueue (keyedTask "u") }),
   .event (.tellGateway "gateway-s" .postStart), .event (.gateway 0 { now := 1 }),
   .event (.grain 0 { now := 1, newID := "L1" })]

/-- A piped call fails, and a hint comes in after it. -/
def failedCall (newID : String) : List Occurrence :=
  [.pipeFails 0 none, .event (.grain 0 { now := 1, newID := newID }), .event (.tellGrain "q" .tasksAvailable),
   .event (.grain 0 { now := 1, newID := newID })]

/-- When the lease cycle fails, the next hint starts another one. -/
theorem run_oneCycle_failed :
    (run (System.occur defaultSettings) (System.start limitedDeployment) (firstCycle ++ failedCall "L2")).cycles "q" = 1 ∧
      (run (System.occur defaultSettings) (System.start limitedDeployment) (firstCycle ++ failedCall "L2")).cycles "q" ≤ 1 :=
  ⟨by decide +kernel, OneCycle.run_oneCycle defaultSettings limitedDeployment "q" _ (by decide +kernel)⟩

/-- The guard takes the failure of any piped call for one of the lease cycle: when giving back the second task fails
while the next cycle is under way, a hint starts a second one. -/
theorem failed_release_starts_second_cycle :
    (run (System.occur defaultSettings) (System.start limitedDeployment) (firstCycle ++
      [.event (.pipe 0 1 {}), .event (.grain 0 { now := 1, newID := "L2" })] ++ failedCall "L3")).cycles "q" = 2 := by
  decide +kernel

end Conveyor
