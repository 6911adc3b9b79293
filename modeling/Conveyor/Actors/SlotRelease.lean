import Conveyor.Actors.Served
import Conveyor.Broker.Underway

/-!
# Concurrency slots are given back

A grain frees the slot of a task when a completion is reported. A task that a gateway settles is reported;
one that ends in another way while the grain counts it keeps its slot.
-/

namespace Conveyor

open Lib

/-- Whether a task is stored and not terminal. -/
def Broker.live (b : Broker) (t : String) : Bool := (b.tasks.lookup t).any fun row => !terminal row.state

/-- Whether the call reclaims expired leases. -/
def Call.reaps : Call → Bool
  | .reapExpiredLeases _ => true
  | _ => false

namespace System

/-- The tasks a grain counts against a concurrency key, and the ones it is about to dispatch. -/
def holding (s : System) (queue : String) : List String :=
  (s.grains queue).inFlightKey.keys ++
    (s.toGrain.filter (·.1 == queue)).flatMap fun p =>
      match p.2 with
      | .leaseCycleCompleted _ _ _ tasks => tasks.map TaskEnvelope.id
      | _ => []

/-- No call of a producer, an admin, the resolver or a sweep other than the reaper ends or removes a task
while the grain holds it. -/
def KeepsHeld (s : System) (queue : String) (e : Event) : Prop :=
  (match e with
    | .broker i => i.call.reaps || (s.holding queue).all fun t => !s.broker.live t || (s.broker.after i).live t
    | _ => true) = true

instance (s : System) (queue : String) (e : Event) : Decidable (s.KeepsHeld queue e) :=
  inferInstanceAs (Decidable (_ = true))

/-- The reaper archives the task. -/
def Archives (s : System) (e : Event) (t : String) : Prop :=
  ∃ i, e = .broker i ∧ i.call.reaps = true ∧ s.broker.live t = true ∧
    ((s.broker.after i).tasks.lookup t).map TaskRow.state = some .archived

/-- A completion of the task is on its way to the grain of the queue. -/
def CompletionSent (s : System) (queue t : String) : Prop :=
  (∃ success gateway, (queue, GrainMessage.taskCompleted t success gateway) ∈ s.toGrain) ∨
    ∃ name success, (name, GatewayMessage.deferredCompletion queue t success) ∈ s.toGateway ∧ s.Serves name queue

/-- The task is under way in the queue, and if it is held, then under a lease of single tasks. -/
def InUse (s : System) (queue t : String) : Prop :=
  ∃ row, s.broker.tasks.lookup t = some row ∧ underway row.state = true ∧ row.envelope.queue = queue ∧
    ∀ leaseID, row.HeldUnder leaseID → (leaseID, queue) ∈ s.leases ∧ s.mentions true leaseID = 0

end System

variable {settings : Settings} {s s' : System} {e : Event} {queue t : String}

theorem System.InUse.live (h : s.InUse queue t) : s.broker.live t = true := by
  obtain ⟨row, hrow, hunderway, -⟩ := h
  rw [Broker.live, hrow]
  cases hs : row.state <;> simp_all [underway, terminal]

/-- What the release of slots rests on. -/
structure Orderly (s : System) : Prop where
  solvent : Solvent s
  served : Served s
  settling : Settling s
  undispatched : s.Undispatched
  oneCycle : ∀ queue, OneCycle queue s
  named : ∀ p ∈ s.leases, p.1 ≠ ""
  piped : ∀ p ∈ s.pipes, p.leaseID? ≠ some ""

theorem orderly_start (d : Deployment) (hworkers : d.registrations = []) : Orderly (System.start d) where
  solvent := solvent_start d
  served := served_start d hworkers
  settling := settling_start d
  undispatched := undispatched_start d
  oneCycle := OneCycle.start d
  named _ h := by cases h
  piped _ h := by cases h

variable {call : Call} {now : Time} {leaseID : String}

namespace Orderly

theorem moves (h : Orderly s) (hmove : Moves settings s e s') (hapart : s.Apart e) : Orderly s' where
  solvent := h.solvent.moves hmove
  served := h.served.moves h.solvent hmove
  settling := h.settling.moves h.served h.solvent.recorded hmove hapart
  undispatched := h.undispatched.moves h.solvent.recorded.flow h.oneCycle hmove
  oneCycle queue := (h.oneCycle queue).moves hmove
  named := (hmove.lease_named h.named h.piped).1
  piped := (hmove.lease_named h.named h.piped).2

/-- A task that stays under way is in use as before, or under a lease just handed out for its queue. -/
theorem inUse_of_stays (h : Orderly s) (hmove : Moves settings s e s') {row row' : TaskRow}
    (hunder : ∀ leaseID, row.HeldUnder leaseID → (leaseID, queue) ∈ s.leases ∧ s.mentions true leaseID = 0)
    (hqueue : row.envelope.queue = queue) (hrow' : s'.broker.tasks.lookup t = some row')
    (hstays : StaysUnderway call row row')
    (hnew : ∀ limit ttl leaseID, call = .lease queue limit ttl leaseID →
      (leaseID, queue) ∈ s'.leases ∧ s'.mentions true leaseID = 0) : s'.InUse queue t := by
  refine ⟨row', hrow', hstays.state, hstays.envelope ▸ hqueue, fun leaseID hheld => ?_⟩
  rcases hstays.held leaseID hheld with hold | ⟨limit, ttl, hcall⟩
  · obtain ⟨hlease, hnone⟩ := hunder leaseID hold
    refine ⟨hmove.leases hlease, ?_⟩
    by_contra hne
    have hpos := lt_of_le_of_ne (s'.mentions_nonneg true leaseID) (Ne.symm hne)
    have hbefore := hmove.mentions_before h.solvent.recorded.flow hlease hpos
    omega
  · exact hnew limit ttl leaseID (hqueue ▸ hcall)

variable {name : String} {g : Gateway} {entry : InflightTask} {result : Result}

/-- A gateway that settles a single delivery reports its completion. -/
theorem settle_reports (h : Orderly s) (hg : s.gateways name = some (.stream g))
    {cause : Option Nat} {rest : List GatewayWork}
    (hturn : g.turn = .settle entry result cause :: rest) (turn : GatewayTurn) (order : Iteration) :
    (s.gatewayResume settings turn order name (.stream g)).CompletionSent entry.queue result.taskId := by
  obtain ⟨hserves, -⟩ := h.settling.single name g entry result cause hg (hturn ▸ (.head _))
  have hbusy : GatewayActor.busy (.stream g) = true := by simp [GatewayActor.busy, hturn]
  have hserves' := (@Moves.resume settings s name turn order _ hg hbusy).serves hserves
  obtain ⟨g', hg', hserved⟩ := hserves
  cases hg.symm.trans hg'
  obtain ⟨b, reply, hresume⟩ : ∃ b reply, s.gatewayResume settings turn order name (.stream g) =
      ({ s with broker := b }.setGateway name ((GatewayActor.stream g).resume settings turn reply).1).emitGateway name
        ((GatewayActor.stream g).resume settings turn reply).2 := ⟨_, _, rfl⟩
  have heffects : ((GatewayActor.stream g).resume settings turn reply).2 =
      transitionEffects entry result (applyOutcome turn.now turn.delay entry result).2 cause reply ++
        Gateway.completionEffects { g with turn := rest } turn entry.queue result.taskId (succeeded result reply) := by
    rw [GatewayActor.resume, hturn]
    rfl
  have hserved' : Gateway.serves { g with turn := rest } entry.queue = true := hserved
  by_cases hdefer : turn.typeBreaker = .open_ ∧ turn.scheduled = true
  · refine .inr ⟨name, succeeded result reply, ?_, hserves'⟩
    rw [hresume, heffects]
    refine List.mem_append_right _ (List.mem_filterMap.mpr
      ⟨.tellSelf (.deferredCompletion entry.queue result.taskId (succeeded result reply)),
        List.mem_append_right _ ?_, rfl⟩)
    rw [Gateway.completionEffects, deferReport, if_pos hdefer]
    exact List.mem_singleton_self _
  · refine .inl ⟨succeeded result reply, g.name, ?_⟩
    rw [hresume, heffects]
    refine List.mem_append_right _ (List.mem_filterMap.mpr
      ⟨.tellGrain entry.queue (.taskCompleted result.taskId (succeeded result reply) g.name),
        List.mem_append_right _ ?_, rfl⟩)
    rw [Gateway.completionEffects, deferReport, if_neg hdefer, Gateway.reportCompletion, hserved']
    exact List.mem_singleton_self _

/-- The broker calls of a turn that settle the named task under a lease. -/
theorem outcome_lease {delay : Duration} (h : (applyOutcome now delay entry result).1 = .ack t leaseID ∨
      ∃ errMsg, (applyOutcome now delay entry result).1 = .archive t leaseID errMsg) :
    result.taskId = t ∧ entry.leaseID = leaseID := by
  simp only [applyOutcome] at h
  grind

/-- A gateway's call that ends a task in use settles a single delivery of it. -/
theorem ended_by_settle (h : Orderly s) (hg : s.gateways name = some (.stream g)) {turn : GatewayTurn}
    (hcall : (GatewayActor.stream g).nextCall settings turn = some call) {row : TaskRow}
    (hunder : ∀ leaseID, row.HeldUnder leaseID → s.mentions true leaseID = 0) (hcause : EndCause t row call) :
    ∃ entry result cause rest, g.turn = .settle entry result cause :: rest ∧ result.taskId = t ∧
      row.HeldUnder entry.leaseID := by
  obtain ⟨work, hhead, hwork⟩ := Option.bind_eq_some_iff.mp hcall
  obtain ⟨rest, hturn⟩ := List.head?_eq_some_iff.mp hhead
  have hmem : work ∈ g.turn := hturn ▸ (.head _)
  -- the leases of batches hold no task in use
  have hgroup : ∀ {leaseID : String}, row.HeldUnder leaseID → leaseID ∉ work.groupLeases := by
    intro leaseID hheld hin
    have hpos := (h.settling.group name g work hg hmem leaseID hin).mentions
    have hnone := hunder leaseID hheld
    omega
  have hnonempty : ∀ {leaseID : String}, leaseID ∈ work.groupLeases → leaseID ≠ "" := by
    intro leaseID hin
    obtain ⟨d, hd, -, rfl⟩ := h.settling.group name g work hg hmem leaseID hin
    exact h.named _ (h.solvent.recorded.flow.delivery d hd)
  have hscoped := nextCall_leaseScoped hcall
  cases work with
  | settle entry result cause =>
    have hsingle := h.settling.single name g entry result cause hg hmem
    have hcall' := Option.some.inj hwork
    cases hcause with
    | acked hheld =>
      obtain ⟨rfl, rfl⟩ := outcome_lease (.inl hcall')
      exact ⟨entry, result, cause, rest, hturn, rfl, hheld⟩
    | archived hheld =>
      obtain ⟨rfl, rfl⟩ := outcome_lease (.inr ⟨_, hcall'⟩)
      exact ⟨entry, result, cause, rest, hturn, rfl, hheld⟩
    | discarded =>
      obtain ⟨rfl, hempty⟩ := outcome_lease (.inr ⟨_, hcall'⟩)
      exact absurd hempty (h.named _ hsingle.2.1)
    | batchAcked hheld hitem =>
      simp only [applyOutcome] at hcall'
      grind
    | cascaded hresolves => cases call <;> first | cases hscoped; done | cases hresolves
    | _ => cases hscoped
  | settleMember =>
    have hcall' := Option.some.inj hwork
    cases hcause with
    | acked hheld =>
      obtain ⟨-, rfl⟩ := outcome_lease (.inl hcall')
      exact absurd (List.mem_singleton_self _) (hgroup hheld)
    | archived hheld =>
      obtain ⟨-, rfl⟩ := outcome_lease (.inr ⟨_, hcall'⟩)
      exact absurd (List.mem_singleton_self _) (hgroup hheld)
    | discarded =>
      obtain ⟨-, hempty⟩ := outcome_lease (.inr ⟨_, hcall'⟩)
      exact absurd hempty (hnonempty (List.mem_singleton_self _))
    | batchAcked hheld hitem =>
      simp only [applyOutcome] at hcall'
      grind
    | cascaded hresolves => cases call <;> first | cases hscoped; done | cases hresolves
    | _ => cases hscoped
  | ackBatch =>
    simp only [Gateway.call] at hwork
    split at hwork
    · cases hwork
    · cases hwork
      cases hcause with
      | batchAcked hheld hitem => exact absurd (List.mem_map_of_mem hitem) (hgroup hheld)
      | cascaded hresolves => cases hresolves
  | extendLease taskID =>
    obtain ⟨entry, -, rfl⟩ := Option.map_eq_some_iff.mp hwork
    cases hcause with
    | cascaded hresolves => cases hresolves
  | _ =>
    cases hwork
    cases hcause with
    | cascaded hresolves => cases hresolves

end Orderly

variable {b : Broker}

theorem EndedWith.not_live (h : EndedWith call (b.tasks.lookup t)) : b.live t = false := by
  rw [Broker.live]
  cases hrow : b.tasks.lookup t with
  | none => rfl
  | some row =>
    rw [hrow] at h
    simp [h.1]

theorem EndedWith.archived (h : EndedWith call (b.tasks.lookup t)) (hreaps : call.reaps = true) :
    (b.tasks.lookup t).map TaskRow.state = some .archived := by
  cases call with
  | reapExpiredLeases limit =>
    cases hrow : b.tasks.lookup t with
    | none =>
      rw [hrow] at h
      exact absurd rfl (h limit)
    | some row =>
      rw [hrow] at h
      exact congrArg some (h.2 limit rfl)
  | _ => cases hreaps

/-- Where the holder of a task after a step comes from: it held the task before, or a lease cycle of the
queue just handed the lease out. -/
def System.HolderKept (s s' : System) (queue t : String) (e : Event) : Prop :=
  ∀ row' leaseID, s'.broker.tasks.lookup t = some row' → row'.HeldUnder leaseID →
    (∃ row, s.broker.tasks.lookup t = some row ∧ row.HeldUnder leaseID) ∨
      ∃ index now order limit expiresAt rest, e = .pipe index now order ∧
        takeAt s.pipes index = some (.lease queue limit leaseID expiresAt, rest)

/-- What a step makes of a task in use: it stays in use, the reaper archives it, or a gateway settles a
delivery of it and reports the completion. -/
theorem Orderly.inUse_moves (h : Orderly s) (hmove : Moves settings s e s') (huse : s.InUse queue t)
    (hkeeps : s.KeepsHeld queue e) (hholds : t ∈ s.holding queue) :
    (s'.InUse queue t ∧ s.HolderKept s' queue t e) ∨ s.Archives e t ∨
      (s'.CompletionSent queue t ∧ ∃ row d, s.broker.tasks.lookup t = some row ∧ d ∈ s.deliveries ∧
        row.HeldUnder d.leaseID) := by
  have hlive := huse.live
  obtain ⟨row, hrow, hunderway, hqueue, hunder⟩ := huse
  have hflow' := h.solvent.recorded.flow.moves hmove
  -- the call of a step leaves the task in use unless it ends it
  have hcalled : ∀ {i : Invocation}, s'.broker = s.broker.after i →
      (∀ limit ttl leaseID, i.call = .lease queue limit ttl leaseID →
        ((leaseID, queue) ∈ s'.leases ∧ s'.mentions true leaseID = 0) ∧
          ∃ index now order limit expiresAt rest, e = .pipe index now order ∧
            takeAt s.pipes index = some (.lease queue limit leaseID expiresAt, rest)) →
      (s'.InUse queue t ∧ s.HolderKept s' queue t e) ∨
        (EndCause t row i.call ∧ EndedWith i.call (s'.broker.tasks.lookup t)) := by
    intro i hbroker hnew
    rcases @after_underway s.broker i t row hrow hunderway with ⟨row', hrow', hstays⟩ | hended
    · rw [← hbroker] at hrow'
      refine .inl ⟨h.inUse_of_stays hmove hunder hqueue hrow' hstays fun limit ttl leaseID hcall =>
        (hnew limit ttl leaseID hcall).1, fun row'' leaseID hrow'' hheld => ?_⟩
      cases hrow'.symm.trans hrow''
      rcases hstays.held leaseID hheld with hold | ⟨limit, ttl, hcall⟩
      · exact .inl ⟨row, hrow, hold⟩
      · exact .inr (hnew limit ttl leaseID (hqueue ▸ hcall)).2
    · rw [← hbroker] at hended
      exact .inr hended
  have hsame : s'.broker.tasks = s.broker.tasks → (s'.InUse queue t ∧ s.HolderKept s' queue t e) := by
    intro htasks
    have hstays : StaysUnderway (.deleteTask t) row row := ⟨hunderway, rfl, fun _ => .inl⟩
    exact ⟨h.inUse_of_stays hmove hunder hqueue (htasks ▸ hrow) hstays (by rintro _ _ _ ⟨⟩),
      fun row'' leaseID hrow'' hheld => .inl ⟨row'', htasks ▸ hrow'', hheld⟩⟩
  cases hmove with
  | idle | tellGrain | tellGateway | gateway | answer => exact .inl (hsame rfl)
  | grain => exact .inl (hsame (persist_tasks _ _ _))
  | broker hexternal =>
    rename_i i
    rcases hcalled rfl (fun limit ttl leaseID hcall => by rw [hcall] at hexternal; cases hexternal) with
      hkept | ⟨hcause, hended⟩
    · exact .inl hkept
    · have hreaps : i.call.reaps = true := by
        by_contra hne
        simp only [System.KeepsHeld, Bool.or_eq_true, hne, false_or, List.all_eq_true] at hkeeps
        have hstill := hkeeps t hholds
        rw [hlive, hended.not_live] at hstill
        simp at hstill
      exact .inr (.inl ⟨i, rfl, hreaps, hlive, hended.archived hreaps⟩)
  | resume ha hbusy =>
    rename_i name turn order a
    obtain ⟨g, rfl⟩ := h.served.streams name a ha
    cases hcall : (GatewayActor.stream g).nextCall settings turn with
    | none =>
      refine .inl (hsame ?_)
      rw [System.gatewayResume, hcall]
      rfl
    | some call =>
      have hscoped := nextCall_leaseScoped hcall
      have hbroker : (s.gatewayResume settings turn order name (.stream g)).broker =
          s.broker.after ⟨turn.now, call, order⟩ := by
        rw [System.gatewayResume, hcall]
        rfl
      rcases hcalled hbroker (fun limit ttl leaseID heq => by cases heq; cases hscoped) with hkept | ⟨hcause, -⟩
      · exact .inl hkept
      · obtain ⟨entry, result, cause, rest, hturn, rfl, hheld⟩ :=
          h.ended_by_settle ha hcall (fun leaseID hheld => (hunder leaseID hheld).2) hcause
        obtain ⟨-, hlease, d, hd, hid⟩ := h.settling.single name g entry result cause ha (hturn ▸ (.head _))
        have hof := h.solvent.recorded.flow.queue_unique hlease (hunder entry.leaseID hheld).1
        exact .inr (.inr ⟨hof ▸ h.settle_reports ha hturn turn order, row, d, hrow, hd, hid ▸ hheld⟩)
  | pipe htake =>
    rename_i index now order pipe rest
    have hending : ∀ {i : Invocation}, EndCause t row i.call → (i.call.leaseID?.isSome = true ∨
        ∃ taskID leaseID, i.call = .release taskID leaseID) → False := by
      rintro ⟨_, call, _⟩ hcause hpiped
      cases hcause with
      | cascaded hresolves => cases call <;> first | cases hresolves; done | simp [Call.leaseID?] at hpiped
      | _ => simp [Call.leaseID?] at hpiped
    cases pipe with
    | lease of limit id expiresAt =>
      refine (hcalled (i := ⟨now, .lease of limit settings.leaseTTL id, order⟩) rfl ?_).imp_right
        fun hended => (hending hended.1 (.inl rfl)).elim
      intro _ _ _ heq
      cases heq
      refine ⟨⟨List.mem_append_right _ (List.mem_singleton_self _), ?_⟩, index, now, order, limit, expiresAt, rest,
        rfl, htake⟩
      refine hflow'.kinds id (Int.lt_of_lt_of_le ?_ (System.grain_le_mentions _
        (List.mem_append_right _ (List.mem_singleton_self _)) false id))
      exact Int.lt_of_lt_of_le one_pos (indicator_true ⟨rfl, rfl⟩).ge
    | leaseGroup of group type limit id expiresAt =>
      exact (hcalled (i := ⟨now, .leaseGroup of group limit settings.leaseTTL id, order⟩) rfl (by rintro _ _ _ ⟨⟩)).imp_right
        fun hended => (hending hended.1 (.inl rfl)).elim
    | release of id taskIDs released failed =>
      cases taskIDs with
      | nil => exact .inl (hsame rfl)
      | cons taskID others =>
        exact (hcalled (i := ⟨now, .release taskID id, order⟩) rfl (by rintro _ _ _ ⟨⟩)).imp_right
          fun hended => (hending hended.1 (.inr ⟨taskID, id, rfl⟩)).elim

namespace QueueGrain

variable (turn : GrainTurn) (x : QueueGrain)

/-- A task that holds a slot after a turn held it before and was not reported, or was just leased. -/
theorem receive_slot (settings : Settings) (message : GrainMessage)
    (h : ((x.receive settings turn message).1.inFlightKey.lookup t).isSome = true) :
    ((x.inFlightKey.lookup t).isSome = true ∧ ∀ success name, message ≠ .taskCompleted t success name) ∨
      ∃ leaseID expiresAt error tasks, message = .leaseCycleCompleted leaseID expiresAt error tasks ∧ t ∈
      tasks.map TaskEnvelope.id := by
  by_cases hcycle : ∃ leaseID expiresAt error tasks, message = .leaseCycleCompleted leaseID expiresAt error tasks ∧
      t ∈ tasks.map TaskEnvelope.id
  · exact .inr hcycle
  obtain ⟨effects, hpart, -⟩ := receive_part settings turn x message
  rw [hpart.others fun gateway task leaseID expiresAt hsend heq => ?_] at h
  · rcases @noted_slot x message t with ⟨hsame, hne⟩ | ⟨-, hfreed⟩
    · exact .inl ⟨hsame ▸ h, hne⟩
    · rw [hfreed] at h
      cases h
  · cases hsend with
    | executeTask htask => exact hcycle ⟨_, _, _, _, rfl, heq ▸ List.mem_map_of_mem htask⟩

end QueueGrain

/-- The report of a completion stays on its way until the grain takes it. -/
theorem System.CompletionSent.moves (h : s.CompletionSent queue t) (hmove : Moves settings s e s') :
    s'.CompletionSent queue t ∨ ∃ turn success name,
      s'.grains queue = ((s.grains queue).receive settings turn (.taskCompleted t success name)).1 := by
  rcases h with ⟨success, gateway, hmem⟩ | ⟨name, success, hmem, hserves⟩
  · rcases hmove.toGrain_stays hmem with hstays | ⟨index, turn, rest, -, -, hturn⟩
    · exact .inl (.inl ⟨success, gateway, hstays⟩)
    · exact .inr ⟨turn, success, gateway, hturn⟩
  · left
    have hserves' := hmove.serves hserves
    cases hmove with
    | idle | broker | tellGrain => exact .inr ⟨name, success, hmem, hserves'⟩
    | tellGateway | grain | resume | answer => exact .inr ⟨name, success, List.mem_append_left _ hmem, hserves'⟩
    | pipe htake =>
      rename_i pipe rest
      refine .inr ⟨name, success, ?_, hserves'⟩
      cases pipe with
      | lease | leaseGroup => exact hmem
      | release of leaseID taskIDs => cases taskIDs <;> exact hmem
    | gateway htake ha hidle =>
      rcases List.mem_cons.mp ((takeAt_perm htake).mem_iff.mp hmem) with heq | hrest
      · -- the gateway handles the deferred report and tells the grain
        cases heq
        obtain ⟨g, hg, hserved⟩ := hserves
        cases ha.symm.trans hg
        refine .inl ⟨success, g.name, List.mem_append_right _ (List.mem_filterMap.mpr
          ⟨.tellGrain queue (.taskCompleted t success g.name), ?_, rfl⟩)⟩
        change _ ∈ g.reportCompletion queue t success
        rw [Gateway.reportCompletion, hserved]
        exact List.mem_singleton_self _
      · exact .inr ⟨name, success, List.mem_append_left _ hrest, hserves'⟩

/-- Where the tasks stand that a grain counts or is about to dispatch, up to the ones the reaper archived. -/
structure SlotsLive (queue : String) (seen : String → Prop) (s : System) : Prop where
  orderly : Orderly s
  counted : ∀ t, ((s.grains queue).inFlightKey.lookup t).isSome = true →
    s.InUse queue t ∨ s.CompletionSent queue t ∨ seen t
  cycle : ∀ leaseID expiresAt error tasks,
    (queue, GrainMessage.leaseCycleCompleted leaseID expiresAt error tasks) ∈ s.toGrain →
      ∀ t ∈ tasks.map TaskEnvelope.id, (s.InUse queue t ∧
        ∀ row id, s.broker.tasks.lookup t = some row → row.HeldUnder id → id = leaseID) ∨ seen t

namespace SlotsLive

theorem start (d : Deployment) (hworkers : d.registrations = []) : SlotsLive queue (fun _ => False)
    (System.start d) where
  orderly := orderly_start d hworkers
  counted _ h := by cases h
  cycle _ _ _ _ h := by cases h

variable {seen : String → Prop}

variable {expiresAt : Time}

/-- The tasks of a lease cycle that is on its way are in use under its lease until the grain takes them. -/
theorem cycle_moves (h : SlotsLive queue seen s) (hmove : Moves settings s e s') (hkeeps : s.KeepsHeld queue e)
    {error : String} {tasks : List TaskEnvelope}
    (hmem : (queue, GrainMessage.leaseCycleCompleted leaseID expiresAt error tasks) ∈ s.toGrain)
    (ht : t ∈ tasks.map TaskEnvelope.id) :
    (s'.InUse queue t ∧ ∀ row id, s'.broker.tasks.lookup t = some row → row.HeldUnder id → id = leaseID) ∨
      seen t ∨ s.Archives e t := by
  rcases h.cycle leaseID expiresAt error tasks hmem t ht with ⟨huse, hholder⟩ | hseen
  · have hholds : t ∈ s.holding queue :=
      List.mem_append_right _ (List.mem_flatMap.mpr ⟨_, List.mem_filter.mpr ⟨hmem, beq_self_eq_true queue⟩, ht⟩)
    rcases h.orderly.inUse_moves hmove huse hkeeps hholds with ⟨huse', hkept⟩ | harchives |
      ⟨-, row, d, hrow, hd, hheld⟩
    · refine .inl ⟨huse', fun row' id hrow' hheld => ?_⟩
      rcases hkept row' id hrow' hheld with ⟨row, hrow, hold⟩ | ⟨_, _, _, _, _, _, -, htake⟩
      · exact hholder row id hrow hold
      · cases (h.orderly.oneCycle queue).no_message htake rfl hmem
    · exact .inr (.inr harchives)
    · cases (h.orderly.undispatched queue leaseID expiresAt error tasks hmem).1 d hd (hholder row d.leaseID hrow hheld)
  · exact .inr (.inl hseen)

/-- The tasks a lease call returned are in use under its lease. -/
theorem cycle_starts (h : SlotsLive queue seen s) {index : Nat} {order : Iteration} {limit : Int}
    {rest : List Pipe}
    (htake : takeAt s.pipes index = some (.lease queue limit leaseID expiresAt, rest))
    (hmove : Moves settings s (.pipe index now order)
      ({ s with pipes := rest }.pipeStep settings now order (.lease queue limit leaseID expiresAt)))
    (ht : t ∈ (System.leasedTasks
      (s.broker.exec ⟨now, .lease queue limit settings.leaseTTL leaseID, order⟩).2).map TaskEnvelope.id) :
    ({ s with pipes := rest }.pipeStep settings now order (.lease queue limit leaseID expiresAt)).InUse queue t ∧
      ∀ row id, ({ s with pipes := rest }.pipeStep settings now order
        (.lease queue limit leaseID expiresAt)).broker.tasks.lookup t = some row → row.HeldUnder id → id = leaseID := by
  obtain ⟨task, htask, rfl⟩ := List.mem_map.mp ht
  have hflow' := h.orderly.solvent.recorded.flow.moves hmove
  obtain ⟨key, row, hrow, htest, rfl, hafter⟩ := claimSorted_reply (show task ∈ (s.broker.claimSorted ..).2 from htask)
  have hid := h.orderly.solvent.recorded.flow.keyed key row hrow
  subst hid
  have hqueue : row.envelope.queue = queue := by
    simp only [Broker.leasable, Bool.and_eq_true, beq_iff_eq] at htest
    exact htest.1.1.1
  have honly : ∀ id, (row.leased now settings.leaseTTL leaseID).HeldUnder id → id = leaseID := fun id hheld => hheld.2.symm
  refine ⟨⟨_, hafter, rfl, hqueue, fun id hheld => ?_⟩, fun row' id hrow' hheld => ?_⟩
  · obtain rfl := honly id hheld
    refine ⟨List.mem_append_right _ (List.mem_singleton_self _), ?_⟩
    refine hflow'.kinds id (Int.lt_of_lt_of_le ?_ (System.grain_le_mentions _
      (List.mem_append_right _ (List.mem_singleton_self _)) false id))
    exact Int.lt_of_lt_of_le one_pos (indicator_true ⟨rfl, rfl⟩).ge
  · cases hafter.symm.trans hrow'
    exact honly id hheld

/-- A task counted after a step was counted before and is not just reported, or its cycle was on its way. -/
theorem slot_before (hmove : Moves settings s e s') (hslot : ((s'.grains queue).inFlightKey.lookup t).isSome = true) :
    (((s.grains queue).inFlightKey.lookup t).isSome = true ∧ ∀ turn success name,
      s'.grains queue ≠ ((s.grains queue).receive settings turn (.taskCompleted t success name)).1) ∨
      ∃ leaseID expiresAt error tasks,
        (queue, GrainMessage.leaseCycleCompleted leaseID expiresAt error tasks) ∈ s.toGrain ∧
          t ∈ tasks.map TaskEnvelope.id := by
  -- a grain that has just handled the completion of a task does not count it
  have hreported : ∀ turn success name,
      s'.grains queue ≠ ((s.grains queue).receive settings turn (.taskCompleted t success name)).1 := by
    intro turn success name heq
    rw [heq] at hslot
    rcases QueueGrain.receive_slot turn (s.grains queue) settings _ hslot with ⟨-, hne⟩ | ⟨_, _, _, _, hcycle, -⟩
    · exact hne success name rfl
    · cases hcycle
  rcases hmove.grain_after queue with hsame | ⟨index, turn, message, rest, -, htake, hturn⟩
  · exact .inl ⟨hsame ▸ hslot, hreported⟩
  · rcases QueueGrain.receive_slot turn (s.grains queue) settings message (hturn ▸ hslot) with
      ⟨hold, -⟩ | ⟨leaseID, expiresAt, error, tasks, rfl, ht⟩
    · exact .inl ⟨hold, hreported⟩
    · exact .inr ⟨leaseID, expiresAt, error, tasks, taken_mem htake, ht⟩

theorem moves (h : SlotsLive queue seen s) (hmove : Moves settings s e s') (hkeeps : s.KeepsHeld queue e)
    (hapart : s.Apart e) : SlotsLive queue (fun t => seen t ∨ s.Archives e t) s' where
  orderly := h.orderly.moves hmove hapart
  counted t hslot := by
    rcases slot_before hmove hslot with ⟨hold, hreported⟩ | ⟨leaseID, expiresAt, error, tasks, hmem, ht⟩
    · rcases h.counted t hold with huse | hsent | hseen
      · have hholds : t ∈ s.holding queue :=
          List.mem_append_left _ (AList.lookup_isSome.mp hold)
        rcases h.orderly.inUse_moves hmove huse hkeeps hholds with ⟨huse', -⟩ | harchives | ⟨hsent, -⟩
        · exact .inl huse'
        · exact .inr (.inr (.inr harchives))
        · exact .inr (.inl hsent)
      · rcases hsent.moves hmove with hsent' | ⟨turn, success, name, hturn⟩
        · exact .inr (.inl hsent')
        · exact absurd hturn (hreported turn success name)
      · exact .inr (.inr (.inl hseen))
    · exact (h.cycle_moves hmove hkeeps hmem ht).imp (·.1) .inr
  cycle leaseID expiresAt error tasks hmem t ht := by
    rcases hmove.cycle_after hmem with hold | ⟨index, now, order, limit, rest, rfl, htake, rfl, rfl⟩
    · exact h.cycle_moves hmove hkeeps hold ht
    · exact .inl (h.cycle_starts htake (.pipe htake) ht)

end SlotsLive

/-- In a state with no message on its way, every task a grain counts against a concurrency key is stored and
not terminal, or was archived by the reaper. -/
theorem slots_released (settings : Settings) (d : Deployment) (hworkers : d.registrations = []) (queue : String)
    (events : List Event)
    (hsteps : StepsMeet (System.step settings) (fun s e => s.KeepsHeld queue e ∧ s.Apart e) (System.start d) events)
    (hgrains : (run (System.step settings) (System.start d) events).toGrain = [])
    (hgateways : (run (System.step settings) (System.start d) events).toGateway = []) :
    ∀ t key, ((run (System.step settings) (System.start d) events).grains queue).inFlightKey.lookup t = some key →
      (run (System.step settings) (System.start d) events).broker.live t = true ∨
      Happened (System.step settings) System.Archives t (System.start d) events := by
  intro t key hslot
  have hlive := run_history System.Archives (SlotsLive queue)
    (fun seen s e hmeet h => h.moves (step_moves settings s e) hmeet.1 hmeet.2) events hsteps (SlotsLive.start d hworkers)
  rcases hlive.counted t (Option.isSome_of_eq_some hslot) with
    huse | (⟨_, _, hmem⟩ | ⟨_, _, hmem, -⟩) | hnever | harchived
  · exact .inl huse.live
  · rw [hgrains] at hmem
    cases hmem
  · rw [hgateways] at hmem
    cases hmem
  · exact hnever.elim
  · exact .inr harchived

/-- A task with a concurrency key is sent to a worker whose session then ends. -/
def drainedSession : List Event :=
  [.broker { now := 1, call := .enqueue (keyedTask "t") },
   .tellGateway "gateway-s" .postStart, .gateway 0 { now := 1 },
   .grain 0 { now := 1, newID := "L1" }, .pipe 0 1 {}, .grain 0 { now := 1, newID := "L2" },
   .pipe 0 1 {}, .grain 0 { now := 1, newID := "L3" }, .gateway 0 { now := 1 },
   .tellGateway "gateway-s" .drainSession, .gateway 0 { now := 2 }, .resume "gateway-s" { now := 2 } {}]

/-- The task is canceled while it waits for another worker. -/
def canceledAfterDrain : List Event := drainedSession ++ [.broker { now := 3, call := .cancelTask "t" }]

theorem slots_released_drainedSession :
    ((run (System.step defaultSettings) (System.start limitedDeployment) drainedSession).grains "q").inFlightKey.lookup
        "t" = some "k" ∧
      ((run (System.step defaultSettings) (System.start limitedDeployment) drainedSession).broker.live "t" = true ∨
        Happened (System.step defaultSettings) System.Archives "t" (System.start limitedDeployment) drainedSession) := by
  have hslot : ((run (System.step defaultSettings) (System.start limitedDeployment)
      drainedSession).grains "q").inFlightKey.lookup "t" = some "k" := by decide +kernel
  exact ⟨hslot, slots_released defaultSettings limitedDeployment rfl "q" drainedSession (by decide +kernel) rfl rfl "t" "k" hslot⟩

/-- A cancellation reports nothing to the grain, so the slot of the canceled task stays taken. -/
theorem slot_leaked :
    StepsMeet (System.step defaultSettings) (fun s e => s.Apart e) (System.start limitedDeployment) canceledAfterDrain ∧
      (∀ i, .broker i ∈ canceledAfterDrain → i.call.reaps = false) ∧
      (run (System.step defaultSettings) (System.start limitedDeployment) canceledAfterDrain).toGrain = [] ∧
      (run (System.step defaultSettings) (System.start limitedDeployment) canceledAfterDrain).toGateway = [] ∧
      (run (System.step defaultSettings) (System.start limitedDeployment) canceledAfterDrain).pipes.length = 0 ∧
      ((run (System.step defaultSettings) (System.start limitedDeployment)
        canceledAfterDrain).grains "q").inFlightKey.lookup "t" = some "k" ∧
      (run (System.step defaultSettings) (System.start limitedDeployment) canceledAfterDrain).broker.live "t" = false := by
  refine ⟨by decide, ?_, rfl, rfl, rfl, by decide, by decide +kernel⟩
  intro i hi
  simp only [canceledAfterDrain, drainedSession, List.cons_append, List.nil_append, List.mem_cons, Event.broker.injEq,
    reduceCtorEq, false_or, or_false, List.not_mem_nil] at hi
  rcases hi with rfl | rfl <;> rfl

end Conveyor
