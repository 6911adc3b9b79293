import Conveyor.Actors.Outstanding

/-!
# How much a gateway holds

A gateway holds no more than what is outstanding for it. What is outstanding grows only by the grants of
a step, so a bound that no grant exceeds bounds what the gateway holds.
-/

namespace Conveyor

open Lib

variable {settings : Settings} {s s' : System} {e : Event} {name queue : String}

/-- Whether a message to a gateway dispatches tasks of the queue. -/
def GatewayMessage.dispatches (queue : String) : GatewayMessage → Bool
  | .executeTask task _ _ | .executeBatch (task :: _) _ _ _ => task.queue == queue
  | _ => false

/-- The deliveries and batches of a queue a stream gateway tracks. -/
def Gateway.tracked (leases : List (String × String)) (queue : String) (g : Gateway) : Int :=
  singles g.inflight g.batched queue + Gateway.batchCount leases queue g.batches

/-- What a worker session has to work off for a queue: the deliveries and batches tracked, and the dispatches
on their way to its gateway. -/
def System.load (s : System) (name queue : String) : Int :=
  (match s.gateways name with
    | some (.stream g) => g.tracked s.leases queue
    | _ => 0) +
  weigh (fun p : String × GatewayMessage => indicator (p.1 = name ∧ p.2.dispatches queue = true)) s.toGateway

/-- The capacity the gateway of a worker session registers with a queue. -/
def Deployment.declared (d : Deployment) (name queue : String) : Int :=
  match d.gateway name with
  | some (.stream g) => max ((g.capacities.lookup queue).getD 0).toInt 0
  | _ => 0

theorem Deployment.declared_nonneg (d : Deployment) (name queue : String) : 0 ≤ d.declared name queue := by
  rw [declared]
  split
  · exact le_max_right _ _
  · exact le_rfl

theorem Deployment.declared_lt (d : Deployment) (name queue : String) : d.declared name queue < 2 ^ 31 := by
  rw [declared]
  split
  · rename_i g hg
    have := Int32.toInt_lt ((g.capacities.lookup queue).getD 0)
    omega
  · decide

theorem Gateway.tracked_le_stake (leases : List (String × String)) (queue : String) (g : Gateway) :
    g.tracked leases queue ≤ g.stake leases queue := by
  have hworks := works_nonneg queue g.turn
  rw [tracked, stake]
  omega

theorem GatewayMessage.dispatches_le_owed (message : GatewayMessage) :
    indicator (message.dispatches queue = true) ≤ message.owed queue := by
  cases message with
  | executeTask => simp [dispatches, owed, indicator]
  | executeBatch tasks leaseID expiresAt group => cases tasks <;> simp [dispatches, owed, indicator]
  | deferredCompletion => exact indicator_nonneg _
  | _ => exact le_rfl

/-- What a gateway has to work off is outstanding. -/
theorem Solvent.load_le (h : Solvent s) : s.load name queue ≤ s.outstanding name queue := by
  have hrefunds := h.refunds_nonneg name queue
  have htransit : weigh (fun p : String × GatewayMessage => indicator (p.1 = name ∧ p.2.dispatches queue = true))
      s.toGateway ≤ s.inTransit name queue := by
    refine weigh_mono fun p _ => ?_
    by_cases hname : p.1 = name
    · simp only [hname, true_and, if_true]
      exact p.2.dispatches_le_owed
    · simp [hname]
  have hstake : (match s.gateways name with
      | some (.stream g) => g.tracked s.leases queue
      | _ => 0) ≤ s.stake name queue := by
    rw [System.stake]
    cases s.gateways name with
    | none => exact le_rfl
    | some a =>
      cases a with
      | stream g => exact g.tracked_le_stake s.leases queue
      | webhook w => exact w.stake_nonneg queue
  rw [System.load, System.outstanding]
  omega

variable {bound : Int}

/-- A step that grants nothing beyond a bound keeps what is outstanding within it. -/
theorem Moves.outstanding_le (hmove : Moves settings s e s') (h : Solvent s) (hbound : bound < 2 ^ 31)
    (hgrants : 0 < s.grants name queue e → s.outstanding name queue + s.grants name queue e ≤ bound)
    (hle : s.outstanding name queue ≤ bound) : s'.outstanding name queue ≤ bound := by
  rcases hmove.outstanding h (hle.trans_lt hbound) with rfl | hbalance
  · exact hle
  · have := hbalance.le
    by_cases hpos : 0 < s.grants name queue e
    · have := hgrants hpos
      omega
    · omega

/-- A worker session holds no more than it declared: in every run in which credits are granted to its
gateway at a queue only as far as the capacity leaves room beside those already outstanding, the gateway
never has more than that capacity to work off for the queue. -/
theorem load_le_declared (settings : Settings) (d : Deployment) (name queue : String) (events : List Event)
    (hmeet : StepsMeet (System.step settings)
      (fun s e => 0 < s.grants name queue e →
        s.outstanding name queue + s.grants name queue e ≤ d.declared name queue) (System.start d) events) :
    (run (System.step settings) (System.start d) events).load name queue ≤ d.declared name queue := by
  have hinv := run_invariant (fun s => Solvent s ∧ s.outstanding name queue ≤ d.declared name queue)
    (fun s e hcovered ⟨hsolvent, hle⟩ => ⟨hsolvent.moves (step_moves settings s e),
      (step_moves settings s e).outstanding_le hsolvent (d.declared_lt name queue) hcovered hle⟩)
    _ events hmeet ⟨solvent_start d, (start_outstanding d name queue).trans_le (d.declared_nonneg name queue)⟩
  exact hinv.1.load_le.trans hinv.2

/-- One queue and one worker that takes one task at a time. -/
def narrowDeployment : Deployment :=
  { sessions := [{ sessionID := "s", queues := ["q"], concurrency := 1
                   weights := (∅ : GoMap String Int32).insert "q" 1 }] }

/-- Two tasks wait, and the first one is dispatched to the worker. -/
def firstDispatched : List Event :=
  [.broker { now := 1, call := .enqueue { id := "t", queue := "q" } },
   .broker { now := 1, call := .enqueue { id := "u", queue := "q" } },
   .tellGateway "gateway-s" .postStart, .gateway 0 { now := 1 },
   .grain 0 { now := 1, newID := "L1" }, .pipe 0 1 {}, .grain 0 { now := 1, newID := "L2" }, .gateway 0 { now := 1 }]

/-- The worker answers, and the second task is dispatched. -/
def answeredFirst : List Event :=
  firstDispatched ++
    [.answer 0 (.result .success ""), .gateway 0 { now := 2 }, .resume "gateway-s" { now := 2 } {},
     .grain 0 { now := 2, newID := "L2" }, .pipe 0 2 {}, .grain 0 { now := 2, newID := "L3" }]

/-- The worker announces a slot while the task runs. -/
def announcedSlot : List Event :=
  firstDispatched ++
    [.tellGateway "gateway-s" (.credit 1), .gateway 0 { now := 2 }, .grain 0 { now := 2, newID := "L2" },
     .pipe 0 2 {}, .grain 0 { now := 2, newID := "L3" }]

theorem load_le_declared_answeredFirst :
    narrowDeployment.declared "gateway-s" "q" = 1 ∧
      (run (System.step defaultSettings) (System.start narrowDeployment) answeredFirst).load "gateway-s" "q" ≤ 1 :=
  ⟨by decide, load_le_declared defaultSettings narrowDeployment "gateway-s" "q" answeredFirst (by decide +kernel)⟩

/-- The worker that declared one slot holds one task, with another one on its way to it. -/
theorem load_exceeds_declared :
    narrowDeployment.declared "gateway-s" "q" = 1 ∧ accepts 1 (.credit 1) = true ∧
      (run (System.step defaultSettings) (System.start narrowDeployment) announcedSlot).load "gateway-s" "q" = 2 := by
  decide +kernel

/-- What a webhook gateway has in flight: open and accepted deliveries, a batch counting once. -/
def WebhookGateway.tracked (w : WebhookGateway) : Int :=
  tally (fun _ entry => !w.batched entry.leaseID) w.inflight + tally (fun _ _ => true) w.batchStates

/-- The queues an event makes a registration serve. -/
def Event.registers (name : String) : Event → List String
  | .tellGateway target (.updateRegistration worker) => if target = name then worker.queues.keys else []
  | _ => []

/-- The queues a registration serves at the start of a run or after one of its updates. -/
def Deployment.queuesOf (d : Deployment) (name : String) (events : List Event) : List String :=
  ((match d.gateway name with
    | some (.webhook w) => w.registration.queues.keys
    | _ => []) ++ events.flatMap (Event.registers name)).dedup

/-- What is outstanding for a gateway across queues. -/
def System.totalOutstanding (s : System) (name : String) (queues : List String) : Int :=
  weigh (s.outstanding name) queues

/-- The credits a step creates for a gateway across queues. -/
def System.totalGrants (s : System) (name : String) (queues : List String) (e : Event) : Int :=
  weigh (fun queue => s.grants name queue e) queues

theorem Solvent.outstanding_nonneg (h : Solvent s) (name queue : String) : 0 ≤ s.outstanding name queue := by
  have hrefunds := h.refunds_nonneg name queue
  have htransit := s.inTransit_nonneg name queue
  have hstake := s.stake_nonneg name queue
  rw [System.outstanding]
  omega

/-- A webhook gateway announces itself only to the queues of a list. -/
structure Confined (name : String) (queues : List String) (s : System) : Prop where
  served : ∃ w, s.gateways name = some (.webhook w) ∧ ∀ queue ∈ w.registration.queues, queue ∈ queues
  updates : ∀ worker, (name, GatewayMessage.updateRegistration worker) ∈ s.toGateway →
    ∀ queue ∈ worker.queues, queue ∈ queues
  announced : ∀ queue capacity weight batchTypes,
    (queue, GrainMessage.registerGateway name capacity weight batchTypes) ∈ s.toGrain → queue ∈ queues

section Confined

variable {queues : List String}

variable {worker : WebhookWorker}

theorem report_ne_update {d : Delivery} {number : Nat} {a : GatewayActor} {answer : Answer} :
    d.report number a answer ≠ some (.updateRegistration worker) := by
  cases a <;> cases answer <;> simp only [Delivery.report] <;> grind

theorem Confined.served_moves (h : Confined name queues s) (hmove : Moves settings s e s') :
    ∃ w, s'.gateways name = some (.webhook w) ∧ ∀ queue ∈ w.registration.queues, queue ∈ queues := by
  obtain ⟨w, hw, hserved⟩ := h.served
  obtain ⟨a', ha'⟩ := hmove.gateway_persists hw
  obtain ⟨a, ha, heq | ⟨index, turn, message, rest, -, htake, -, -, heq⟩ | ⟨turn, order, reply, -, -, -, heq⟩⟩ :=
    hmove.gateway_after ha'
  · exact ⟨w, ha'.trans (heq ▸ ha.symm.trans hw), hserved⟩
  · cases ha.symm.trans hw
    refine ⟨(w.receive settings { turn with delivery := s.deliveries.length } message).1,
      ha'.trans (congrArg some heq), ?_⟩
    rw [WebhookGateway.receive_registration]
    cases message with
    | updateRegistration worker => exact h.updates worker (taken_mem htake)
    | _ => exact hserved
  · cases ha.symm.trans hw
    rw [GatewayActor.resume] at heq
    split at heq
    · exact ⟨w, ha'.trans (congrArg some heq), hserved⟩
    · rename_i work rest hturn
      refine ⟨(WebhookGateway.finish settings turn { w with turn := rest } reply work).1,
        ha'.trans (congrArg some heq), ?_⟩
      rw [(WebhookGateway.finish_part reply work).frame.1]
      exact hserved

theorem Confined.updates_moves (h : Confined name queues s) (hmove : Moves settings s e s')
    (hregisters : ∀ queue ∈ e.registers name, queue ∈ queues)
    (hmem : (name, GatewayMessage.updateRegistration worker) ∈ s'.toGateway) :
    ∀ queue ∈ worker.queues, queue ∈ queues := by
  cases hmove with
  | idle | broker | tellGrain => exact h.updates worker hmem
  | tellGateway ha hadmits =>
    rcases List.mem_append.mp hmem with hold | hnew
    · exact h.updates worker hold
    · cases List.mem_singleton.mp hnew
      intro queue hqueue
      refine hregisters queue ?_
      rw [Event.registers, if_pos rfl]
      exact hqueue
  | grain htake =>
    rcases List.mem_append.mp hmem with hold | hnew
    · exact h.updates worker hold
    · rcases emitted_dispatch hnew with ⟨_, _, _, _, -, _, -, heq⟩ | ⟨_, _, _, _, _, _, -, -, heq⟩ | ⟨_, heq⟩ <;> cases heq
  | gateway htake ha hidle =>
    rcases List.mem_append.mp hmem with hold | hnew
    · exact h.updates worker (mem_of_takeAt htake hold)
    · obtain ⟨-, _, _, _, heq⟩ := receive_later hnew
      cases heq
  | resume ha hbusy =>
    rcases List.mem_append.mp hmem with hold | hnew
    · exact h.updates worker hold
    · obtain ⟨-, _, _, _, heq⟩ := later_deferred (GatewayActor.resume_ordinary _) hnew
      cases heq
  | pipe htake =>
    rename_i pipe rest
    cases pipe with
    | lease | leaseGroup => exact h.updates worker hmem
    | release other leaseID taskIDs => cases taskIDs <;> exact h.updates worker hmem
  | answer hd hopen ha hreport =>
    rcases List.mem_append.mp hmem with hold | hnew
    · exact h.updates worker hold
    · obtain ⟨-, heq⟩ := Prod.mk.inj (List.mem_singleton.mp hnew)
      exact absurd (heq ▸ hreport) report_ne_update

theorem Confined.announced_moves (h : Confined name queues s) (hsolvent : Solvent s) (hmove : Moves settings s e s')
    {queue : String} {capacity weight : Int32} {batchTypes : List String}
    (hmem : (queue, GrainMessage.registerGateway name capacity weight batchTypes) ∈ s'.toGrain) : queue ∈ queues := by
  rcases hmove.announced hsolvent hmem with hold | ⟨a, message, ha, hmessage, htells⟩
  · exact h.announced _ _ _ _ hold
  · obtain ⟨w, hw, hserved⟩ := h.served
    rw [Option.some.inj (ha.symm.trans hw)] at htells
    rcases htells with hqueue | ⟨worker, rfl, hqueue⟩
    · exact hserved queue hqueue
    · exact h.updates worker hmessage queue hqueue

theorem Confined.moves (h : Confined name queues s) (hsolvent : Solvent s) (hmove : Moves settings s e s')
    (hregisters : ∀ queue ∈ e.registers name, queue ∈ queues) : Confined name queues s' :=
  ⟨h.served_moves hmove, fun _ => h.updates_moves hmove hregisters, fun _ _ _ _ => h.announced_moves hsolvent hmove⟩

/-- A step creates credits only at the queues of the list. -/
theorem Confined.grants_eq_zero (h : Confined name queues s) (hqueue : queue ∉ queues) (e : Event) :
    s.grants name queue e = 0 := by
  cases e with
  | grain index turn =>
    rw [System.grants]
    split
    · rename_i of message rest htake
      split_ifs with heq
      · subst heq
        cases message with
        | registerGateway gateway capacity weight batchTypes =>
          refine if_neg ?_
          rintro rfl
          exact hqueue (h.announced of capacity weight batchTypes (taken_mem htake))
        | _ => rfl
      · rfl
    · rfl
  | gateway index turn =>
    obtain ⟨w, hw, -⟩ := h.served
    rw [System.grants]
    split
    · rw [hw, Option.elim_some, GatewayActor.grants, ite_self]
    · rfl
  | _ => rfl

/-- What holds as long as no grant exceeds the bound. -/
structure Bounded (name : String) (queues : List String) (bound : Int) (s : System) : Prop where
  solvent : Solvent s
  confined : Confined name queues s
  nowhere : ∀ queue, queue ∉ queues → s.outstanding name queue ≤ 0
  total : s.totalOutstanding name queues ≤ bound

theorem Bounded.outstanding_lt (h : Bounded name queues bound s) (hbound : bound < 2 ^ 31)
    (queue : String) : s.outstanding name queue < 2 ^ 31 := by
  by_cases hqueue : queue ∈ queues
  · have hle := le_weigh_of_mem (h.solvent.outstanding_nonneg name) hqueue
    exact (hle.trans h.total).trans_lt hbound
  · exact (h.nowhere queue hqueue).trans_lt (by decide)

theorem Bounded.moves (h : Bounded name queues bound s) (hbound : bound < 2 ^ 31)
    (hmove : Moves settings s e s') (hregisters : ∀ queue ∈ e.registers name, queue ∈ queues)
    (hgrants : 0 < s.totalGrants name queues e → s.totalOutstanding name queues + s.totalGrants name queues e ≤ bound) :
    Bounded name queues bound s' := by
  by_cases hsame : s' = s
  · exact hsame ▸ h
  have hstep : ∀ queue, s'.outstanding name queue ≤ s.outstanding name queue + s.grants name queue e := fun queue =>
    ((hmove.outstanding h.solvent (h.outstanding_lt hbound queue)).resolve_left hsame).le
  refine ⟨h.solvent.moves hmove, h.confined.moves h.solvent hmove hregisters, fun queue hqueue => ?_, ?_⟩
  · have hle := hstep queue
    rw [h.confined.grants_eq_zero hqueue e] at hle
    have := h.nowhere queue hqueue
    omega
  · have htotal : s'.totalOutstanding name queues ≤ s.totalOutstanding name queues + s.totalGrants name queues e :=
      (weigh_mono fun queue _ => hstep queue).trans (weigh_add _ _ _).le
    have := h.total
    by_cases hpos : 0 < s.totalGrants name queues e
    · have := hgrants hpos
      omega
    · omega

/-- What a webhook gateway has in flight is outstanding at the queues of the list. -/
theorem Bounded.tracked_le (h : Bounded name queues bound s) {w : WebhookGateway}
    (hw : s.gateways name = some (.webhook w)) : w.tracked ≤ bound := by
  have hstake : ∀ queue, w.stake queue ≤ s.outstanding name queue := by
    intro queue
    have hrefunds := h.solvent.refunds_nonneg name queue
    have htransit := s.inTransit_nonneg name queue
    have heq : s.stake name queue = w.stake queue := System.stake_of_gateway hw
    rw [System.outstanding]
    omega
  -- a queue with something in flight is one of the list
  have hlisted : ∀ queue, 0 < w.stake queue → queue ∈ queues := by
    intro queue hpos
    by_contra hqueue
    have := h.nowhere queue hqueue
    have := hstake queue
    omega
  have hsingles : tally (fun _ entry => !w.batched entry.leaseID) w.inflight ≤
      weigh (singles w.inflight w.batched) queues := by
    refine tally_le_sum _ queues fun t entry hentry hsingle => ⟨entry.queue, hlisted _ ?_, by simpa using hsingle⟩
    have hpos : 0 < singles w.inflight w.batched entry.queue := tally_pos hentry (by simpa using hsingle)
    have : 0 ≤ tally (fun _ (state : WebhookBatch) => state.queue == entry.queue) w.batchStates := tally_nonneg _ _
    rw [WebhookGateway.stake]
    omega
  have hbatches : tally (fun _ _ => true) w.batchStates ≤
      weigh (fun queue => tally (fun _ (state : WebhookBatch) => state.queue == queue) w.batchStates) queues := by
    refine tally_le_sum _ queues fun leaseID state hstate _ => ⟨state.queue, hlisted _ ?_, beq_self_eq_true _⟩
    have hpos : 0 < tally (fun _ (other : WebhookBatch) => other.queue == state.queue) w.batchStates :=
      tally_pos hstate (beq_self_eq_true _)
    have : 0 ≤ singles w.inflight w.batched state.queue := tally_nonneg _ _
    rw [WebhookGateway.stake]
    omega
  calc w.tracked
      ≤ weigh (singles w.inflight w.batched) queues +
          weigh (fun queue => tally (fun _ (state : WebhookBatch) => state.queue == queue) w.batchStates) queues :=
        add_le_add hsingles hbatches
    _ = weigh (w.stake) queues := (weigh_add _ _ _).symm
    _ ≤ s.totalOutstanding name queues := weigh_mono fun queue _ => hstake queue
    _ ≤ bound := h.total

end Confined

/-- A webhook endpoint has no more in flight than its registration allows: in every run in which credits
are granted to its gateway only as far as its concurrency leaves room beside those outstanding at all
its queues, the gateway never has more than that in flight. -/
theorem tracked_le_concurrency (settings : Settings) (d : Deployment) (name : String) (w : WebhookGateway)
    (hw : d.gateway name = some (.webhook w))
    (hqueues : (w.registration.queues.keys.length : Int) ≤ w.registration.concurrency.toInt) (events : List Event)
    (hmeet : StepsMeet (System.step settings)
      (fun s e => 0 < s.totalGrants name (d.queuesOf name events) e →
        s.totalOutstanding name (d.queuesOf name events) + s.totalGrants name (d.queuesOf name events) e ≤
          w.registration.concurrency.toInt) (System.start d) events) :
    ∀ w', (run (System.step settings) (System.start d) events).gateways name = some (.webhook w') →
      w'.tracked ≤ w.registration.concurrency.toInt := by
  have hregisters : ∀ e ∈ events, ∀ queue ∈ e.registers name, queue ∈ d.queuesOf name events := fun e he queue hqueue =>
    List.mem_dedup.mpr (List.mem_append_right _ (List.mem_flatMap.mpr ⟨e, he, hqueue⟩))
  have hserved : ∀ queue ∈ w.registration.queues, queue ∈ d.queuesOf name events := by
    intro queue hqueue
    rw [Deployment.queuesOf, hw]
    exact List.mem_dedup.mpr (List.mem_append_left _ hqueue)
  have hnonneg := le_trans (Int.natCast_nonneg _) hqueues
  have hstart : Bounded name (d.queuesOf name events) w.registration.concurrency.toInt (System.start d) := by
    refine ⟨solvent_start d, ⟨⟨w, hw, hserved⟩, ?_, ?_⟩, fun queue _ => (start_outstanding d name queue).le, ?_⟩
    · exact fun _ hmem => nomatch hmem
    · exact fun _ _ _ _ hmem => nomatch hmem
    · exact (weigh_eq_zero fun queue _ => start_outstanding d name queue).trans_le hnonneg
  have hinv := run_invariant (Bounded name (d.queuesOf name events) w.registration.concurrency.toInt)
    (fun s e hcond hs => hs.moves (Int32.toInt_lt _) (step_moves settings s e) hcond.2 hcond.1)
    _ events (hmeet.and (stepsMeet_of_forall hregisters _)) hstart
  exact fun w' hw' => hinv.tracked_le hw'

/-- The registration of the endpoint with another concurrency. -/
def endpointWith (concurrency : Int32) : WebhookWorker :=
  { name := "w", queues := (∅ : GoMap String Int32).insert "q" 1, concurrency := concurrency }

/-- The concurrency of the endpoint is lowered and restored, and the queue learns of both. -/
def loweredAndRestored : List Event :=
  [.tellGateway "webhook-w" (.updateRegistration (endpointWith 1)), .gateway 0 { now := 3 },
   .grain 0 { now := 3, newID := "L4" }, .tellGateway "webhook-w" (.updateRegistration (endpointWith 2)),
   .gateway 0 { now := 4 }, .grain 0 { now := 4, newID := "L5" }]

/-- A task is delivered and completed before the concurrency changes. -/
def changedWhileIdle : List Event :=
  [.broker { now := 1, call := .enqueue { id := "t", queue := "q" } },
   .tellGateway "webhook-w" .postStart, .gateway 0 { now := 1 }, .grain 0 { now := 1, newID := "L1" },
   .pipe 0 1 {}, .grain 0 { now := 1, newID := "L2" }, .gateway 0 { now := 1 },
   .answer 0 (.response { outcome := .completed }), .gateway 0 { now := 2 }, .resume "webhook-w" { now := 2 } {},
   .grain 0 { now := 2, newID := "L3" }] ++ loweredAndRestored

/-- Two tasks are accepted by the endpoint before the concurrency changes; a third one waits. -/
def changedWhileAccepted : List Event :=
  [.broker { now := 1, call := .enqueue { id := "t", queue := "q" } },
   .broker { now := 1, call := .enqueue { id := "u", queue := "q" } },
   .broker { now := 1, call := .enqueue { id := "v", queue := "q" } },
   .tellGateway "webhook-w" .postStart, .gateway 0 { now := 1 }, .grain 0 { now := 1, newID := "L1" },
   .pipe 0 1 {}, .grain 0 { now := 1, newID := "L2" }, .gateway 0 { now := 1 }, .gateway 0 { now := 1 },
   .answer 0 (.response { outcome := .accepted }), .gateway 0 { now := 2 },
   .answer 1 (.response { outcome := .accepted }), .gateway 0 { now := 2 }] ++ loweredAndRestored ++
  [.pipe 0 4 {}, .grain 0 { now := 4, newID := "L6" }, .gateway 0 { now := 4 }]

theorem tracked_le_concurrency_changedWhileIdle :
    (endpointDeployment.gateway "webhook-w").isSome = true ∧ ∀ w',
      (run (System.step defaultSettings) (System.start endpointDeployment) changedWhileIdle).gateways "webhook-w" =
      some (.webhook w') → w'.tracked ≤ 2 :=
  ⟨rfl, tracked_le_concurrency defaultSettings endpointDeployment "webhook-w"
    (WebhookGateway.preStart (endpointWith 2)) rfl (by decide +kernel) changedWhileIdle (by decide +kernel)⟩

/-- What the webhook gateway of a name has in flight. -/
def System.trackedBy (s : System) (name : String) : Option Int :=
  match s.gateways name with
  | some (.webhook w) => some w.tracked
  | _ => none

/-- With two accepted tasks still in flight, restoring the concurrency of two lets a third one be
delivered. -/
theorem tracked_exceeds_concurrency :
    endpointDeployment.registrations = [endpointWith 2] ∧
      (run (System.step defaultSettings) (System.start endpointDeployment) changedWhileAccepted).trackedBy "webhook-w" =
      some 3 :=
  ⟨rfl, by decide +kernel⟩

end Conveyor
