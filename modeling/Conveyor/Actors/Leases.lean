import Conveyor.Actors.After
import Conveyor.Broker.Fencing

/-!
# The path of a lease through the system

A lease id is handed out once, for one queue. A cycle lease may reach gateways in several dispatches;
a group lease is on its way in one place at a time and ends in one batch delivery. The invariant
`LeaseFlow` says so of every reachable state, by counting the places that mention a lease id.
-/

namespace Conveyor

open Lib

/-- Whether a message to a grain carries the tasks of a lease of the kind. -/
def GrainMessage.mentions (group : Bool) (leaseID : String) : GrainMessage → Int
  | .leaseCycleCompleted id _ _ _ => indicator (group = false ∧ id = leaseID)
  | .groupLeaseCompleted id _ _ _ _ _ => indicator (group = true ∧ id = leaseID)
  | _ => 0

/-- Whether a message to a gateway dispatches tasks under a lease of the kind. -/
def GatewayMessage.mentions (group : Bool) (leaseID : String) : GatewayMessage → Int
  | .executeTask _ id _ => indicator (group = false ∧ id = leaseID)
  | .executeBatch _ id _ _ => indicator (group = true ∧ id = leaseID)
  | _ => 0

/-- Whether a delivery is under a lease of the kind. -/
def Delivery.mentions (group : Bool) (leaseID : String) (d : Delivery) : Int :=
  indicator (d.batch = group ∧ d.leaseID = leaseID)

theorem GrainMessage.mentions_nonneg (group : Bool) (leaseID : String) (m : GrainMessage) :
    0 ≤ m.mentions group leaseID := by
  cases m <;> first | exact indicator_nonneg _ | exact le_rfl

theorem GatewayMessage.mentions_nonneg (group : Bool) (leaseID : String) (m : GatewayMessage) :
    0 ≤ m.mentions group leaseID := by
  cases m <;> first | exact indicator_nonneg _ | exact le_rfl

/-- A message that carries no leased tasks. -/
def GrainMessage.Quiet (m : GrainMessage) : Prop := ∀ group leaseID, m.mentions group leaseID = 0

/-- A message that dispatches nothing. -/
def GatewayMessage.Quiet (m : GatewayMessage) : Prop :=
  ∀ group leaseID, m.mentions group leaseID = 0

variable {d : Delivery} {queue leaseID : String} {message : GrainMessage}

namespace System

/-- The places that mention a lease of the kind after it was handed out. -/
def mentions (s : System) (group : Bool) (leaseID : String) : Int :=
  weigh (fun p : String × GrainMessage => p.2.mentions group leaseID) s.toGrain +
    weigh (fun p : String × GatewayMessage => p.2.mentions group leaseID) s.toGateway +
    weigh (Delivery.mentions group leaseID) s.deliveries

/-- No kind of place takes a mention away. -/
theorem mentions_parts (s : System) (group : Bool) (leaseID : String) :
    0 ≤ weigh (fun p : String × GrainMessage => p.2.mentions group leaseID) s.toGrain ∧
      0 ≤ weigh (fun p : String × GatewayMessage => p.2.mentions group leaseID) s.toGateway ∧
      0 ≤ weigh (Delivery.mentions group leaseID) s.deliveries :=
  ⟨weigh_nonneg _ fun p _ => GrainMessage.mentions_nonneg group leaseID p.2,
    weigh_nonneg _ fun p _ => GatewayMessage.mentions_nonneg group leaseID p.2,
    weigh_nonneg _ fun _ _ => indicator_nonneg _⟩

theorem mentions_nonneg (s : System) (group : Bool) (leaseID : String) : 0 ≤ s.mentions group leaseID := by
  have hparts := s.mentions_parts group leaseID
  rw [mentions]
  omega

/-- A delivery mentions its lease. -/
theorem mentions_pos_of_delivery {s : System} (hd : d ∈ s.deliveries) : 0 < s.mentions d.batch d.leaseID := by
  have hparts := s.mentions_parts d.batch d.leaseID
  have hdelivery : d.mentions d.batch d.leaseID ≤ weigh (Delivery.mentions d.batch d.leaseID) s.deliveries :=
    le_weigh_of_mem (fun _ => indicator_nonneg _) hd
  have hone : d.mentions d.batch d.leaseID = 1 := indicator_true ⟨rfl, rfl⟩
  rw [System.mentions]
  omega

/-- A message on its way to a grain adds its mention. -/
theorem grain_le_mentions (s : System) (h : (queue, message) ∈ s.toGrain)
    (group : Bool) (leaseID : String) : message.mentions group leaseID ≤ s.mentions group leaseID := by
  have hgrain : message.mentions group leaseID ≤
      weigh (fun p : String × GrainMessage => p.2.mentions group leaseID) s.toGrain :=
    le_weigh_of_mem (fun p => GrainMessage.mentions_nonneg group leaseID p.2) h
  have hparts := s.mentions_parts group leaseID
  rw [mentions]
  omega

/-- The calls that hand out a lease id, made or still to make. -/
def handedOut (s : System) (leaseID : String) : Int :=
  weigh (fun p : Pipe => indicator (p.leaseID? = some leaseID)) s.pipes +
    weigh (fun e : String × String => indicator (e.1 = leaseID)) s.leases

/-- A new lease id was not handed out. -/
theorem handedOut_fresh (s : System) (h : s.fresh leaseID = true) : s.handedOut leaseID = 0 := by
  simp only [fresh, Bool.and_eq_true, List.all_eq_true, bne_iff_ne] at h
  obtain ⟨⟨-, hleases⟩, hpipes⟩ := h
  rw [handedOut, weigh_eq_zero fun p hp => indicator_false (hpipes p hp),
    weigh_eq_zero fun e he => indicator_false (hleases e he)]
  rfl

end System

/-- How leases travel. -/
structure LeaseFlow (s : System) : Prop where
  keyed : s.broker.Keyed
  once : ∀ leaseID, s.handedOut leaseID ≤ 1
  cycle : ∀ queue leaseID expiresAt error tasks,
    (queue, GrainMessage.leaseCycleCompleted leaseID expiresAt error tasks) ∈ s.toGrain →
      (leaseID, queue) ∈ s.leases ∧ ∀ task ∈ tasks, task.queue = queue
  group : ∀ queue leaseID expiresAt group type error tasks,
    (queue, GrainMessage.groupLeaseCompleted leaseID expiresAt group type error tasks) ∈ s.toGrain →
      (leaseID, queue) ∈ s.leases ∧ ∀ task ∈ tasks, task.queue = queue
  dispatch : ∀ name message, (name, message) ∈ s.toGateway →
    (∀ task ∈ message.dispatched, (message.lease, task.queue) ∈ s.leases) ∧ (message.dispatched = [] → message.Quiet)
  delivery : ∀ d ∈ s.deliveries, (d.leaseID, d.queue) ∈ s.leases
  batchOnce : ∀ leaseID, s.mentions true leaseID ≤ 1
  kinds : ∀ leaseID, 0 < s.mentions false leaseID → s.mentions true leaseID = 0

namespace LeaseFlow

variable {s s' : System}

/-- A lease id belongs to one queue. -/
theorem queue_unique (h : LeaseFlow s) {q q' : String} (hq : (leaseID, q) ∈ s.leases)
    (hq' : (leaseID, q') ∈ s.leases) : q = q' := by
  have honce := h.once leaseID
  have hpipes : 0 ≤ weigh (fun p : Pipe => indicator (p.leaseID? = some leaseID)) s.pipes :=
    weigh_nonneg _ fun p _ => indicator_nonneg _
  rw [System.handedOut] at honce
  have hle : weigh (fun e : String × String => indicator (e.1 = leaseID)) s.leases ≤ 1 := by omega
  have heq := eq_of_weigh_le_one (fun e => indicator_nonneg _) hle hq hq' (indicator_true rfl)
    (indicator_true rfl)
  exact congrArg Prod.snd heq

/-- A lease that is mentioned was handed out. -/
theorem handed_out (h : LeaseFlow s) {group : Bool}
    (hmention : 0 < s.mentions group leaseID) : ∃ queue, (leaseID, queue) ∈ s.leases := by
  have hcases : 0 < weigh (fun p : String × GrainMessage => p.2.mentions group leaseID) s.toGrain ∨
      0 < weigh (fun p : String × GatewayMessage => p.2.mentions group leaseID) s.toGateway ∨
      0 < weigh (Delivery.mentions group leaseID) s.deliveries := by
    rw [System.mentions] at hmention
    omega
  rcases hcases with hpos | hpos | hpos
  · obtain ⟨⟨queue, m⟩, hmem, hm⟩ := exists_mem_of_weigh_pos hpos
    cases m with
    | leaseCycleCompleted =>
      obtain ⟨-, rfl⟩ := indicator_pos_iff.mp hm
      exact ⟨queue, (h.cycle _ _ _ _ _ hmem).1⟩
    | groupLeaseCompleted =>
      obtain ⟨-, rfl⟩ := indicator_pos_iff.mp hm
      exact ⟨queue, (h.group _ _ _ _ _ _ _ hmem).1⟩
    | _ => cases hm
  · obtain ⟨⟨name, m⟩, hmem, hm⟩ := exists_mem_of_weigh_pos hpos
    obtain ⟨hleases, hquiet⟩ := h.dispatch name m hmem
    have hne : m.dispatched ≠ [] := by
      intro hnil
      rw [hquiet hnil group leaseID] at hm
      cases hm
    obtain ⟨task, htask⟩ := List.exists_mem_of_ne_nil _ hne
    have hlease := hleases task htask
    cases m with
    | executeTask =>
      obtain ⟨-, rfl⟩ := indicator_pos_iff.mp hm
      exact ⟨_, hlease⟩
    | executeBatch =>
      obtain ⟨-, rfl⟩ := indicator_pos_iff.mp hm
      exact ⟨_, hlease⟩
    | _ => cases hm
  · obtain ⟨d, hmem, hd⟩ := exists_mem_of_weigh_pos hpos
    obtain ⟨-, rfl⟩ := indicator_pos_iff.mp hd
    exact ⟨d.queue, h.delivery d hmem⟩

/-- A batch lease has one delivery. -/
theorem batch_unique (h : LeaseFlow s) {d' : Delivery} (hd : d ∈ s.deliveries) (hd' : d' ∈ s.deliveries)
    (hbatch : d.batch = true) (hbatch' : d'.batch = true) (hlease : d.leaseID = d'.leaseID) : d = d' := by
  have hle := h.batchOnce d.leaseID
  rw [System.mentions] at hle
  have hgrain := weigh_nonneg s.toGrain
    fun p _ => GrainMessage.mentions_nonneg true d.leaseID p.2
  have hgateway := weigh_nonneg s.toGateway
    fun p _ => GatewayMessage.mentions_nonneg true d.leaseID p.2
  exact eq_of_weigh_le_one (fun _ => indicator_nonneg _)
    (show weigh (Delivery.mentions true d.leaseID) s.deliveries ≤ 1 by omega) hd hd'
    (indicator_true ⟨hbatch, rfl⟩) (indicator_true ⟨hbatch', hlease.symm⟩)

/-- A batch lease is not the lease of a single delivery. -/
theorem batch_of_lease (h : LeaseFlow s) {d' : Delivery} (hd : d ∈ s.deliveries) (hd' : d' ∈ s.deliveries)
    (hbatch : d.batch = true) (hlease : d.leaseID = d'.leaseID) : d'.batch = true := by
  by_contra hsingle
  rw [Bool.not_eq_true] at hsingle
  have hcycle := System.mentions_pos_of_delivery hd'
  have hgroup := System.mentions_pos_of_delivery hd
  rw [hsingle, ← hlease] at hcycle
  rw [hbatch, h.kinds _ hcycle] at hgroup
  exact lt_irrefl _ hgroup

end LeaseFlow

variable {name : String} {call : Call}

section Emissions

variable {settings : Settings} {turn : GrainTurn} {x : QueueGrain} {message : GrainMessage}

/-- The pipes a turn starts hand out the lease ids of its effects. -/
theorem weigh_pipes (queue leaseID : String) (effects : List GrainEffect) :
    weigh (fun p : Pipe => indicator (p.leaseID? = some leaseID)) (effects.filterMap (GrainEffect.pipe queue)) =
      weigh (fun id : String => indicator (some id = some leaseID)) (leasing effects) := by
  induction effects with
  | nil => rfl
  | cons e rest ih =>
    rw [leasing] at ih ⊢
    cases e <;>
      simp only [List.filterMap_cons, GrainEffect.pipe, GrainEffect.leaseID?, weigh_cons, ih] <;>
      simp [Pipe.leaseID?]

/-- What a grain sends on dispatches its leased tasks or nothing. -/
theorem emitted_dispatch {p : String × GatewayMessage}
    (hp : p ∈ (x.receive settings turn message).2.filterMap GrainEffect.message) :
    (∃ leaseID expiresAt error tasks, message = .leaseCycleCompleted leaseID expiresAt error tasks ∧
        ∃ task ∈ tasks, p.2 = .executeTask task leaseID expiresAt) ∨
      (∃ leaseID expiresAt group type error tasks,
        message = .groupLeaseCompleted leaseID expiresAt group type error tasks ∧ tasks ≠ [] ∧
          p.2 = .executeBatch tasks leaseID expiresAt group) ∨
      ∃ taskID, p.2 = .cancelActive taskID := by
  obtain ⟨e, he, hmessage⟩ := List.mem_filterMap.mp hp
  cases receive_emits he with
  | executeTask htask =>
    cases hmessage
    exact .inl ⟨_, _, _, _, rfl, _, htask, rfl⟩
  | executeBatch hne =>
    cases hmessage
    exact .inr (.inl ⟨_, _, _, _, _, _, rfl, hne, rfl⟩)
  | cancelActive =>
    cases hmessage
    exact .inr (.inr ⟨_, rfl⟩)
  | _ => cases hmessage

/-- A turn of a grain passes a group lease on at most once, and only the one it was handed. -/
theorem emitted_batch (settings : Settings) (turn : GrainTurn) (x : QueueGrain)
    (message : GrainMessage) (leaseID : String) :
    weigh (fun p : String × GatewayMessage => p.2.mentions true leaseID)
      ((x.receive settings turn message).2.filterMap GrainEffect.message) ≤ message.mentions true leaseID := by
  by_cases hgroup : ∃ id expiresAt group type error tasks,
      message = .groupLeaseCompleted id expiresAt group type error tasks
  · obtain ⟨id, expiresAt, group, type, error, tasks, rfl⟩ := hgroup
    simp only [QueueGrain.receive, QueueGrain.finishGroupLease, QueueGrain.releaseLeased]
    repeat' split
    all_goals first
      | exact indicator_nonneg _
      | simp [GrainEffect.message, GatewayMessage.mentions, GrainMessage.mentions]
  · rw [weigh_eq_zero]
    · exact GrainMessage.mentions_nonneg true leaseID message
    · intro p hp
      rcases emitted_dispatch hp with ⟨id, expiresAt, error, tasks, rfl, task, -, heq⟩ |
        ⟨id, expiresAt, group, type, error, tasks, rfl, -⟩ | ⟨taskID, heq⟩
      · simp [heq, GatewayMessage.mentions]
      · exact absurd ⟨_, _, _, _, _, _, rfl⟩ hgroup
      · rw [heq]
        rfl

/-- A turn of a grain passes on only the cycle lease it was handed. -/
theorem emitted_cycle
    (h : 0 < weigh (fun p : String × GatewayMessage => p.2.mentions false leaseID)
      ((x.receive settings turn message).2.filterMap GrainEffect.message)) :
    0 < message.mentions false leaseID := by
  obtain ⟨p, hp, hpos⟩ := exists_mem_of_weigh_pos h
  rcases emitted_dispatch hp with ⟨id, expiresAt, error, tasks, rfl, task, -, heq⟩ |
    ⟨id, expiresAt, group, type, error, tasks, rfl, -, heq⟩ | ⟨taskID, heq⟩
  · rw [heq] at hpos
    exact hpos
  · simp [heq, GatewayMessage.mentions] at hpos
  · rw [heq] at hpos
    cases hpos

theorem GatewayMessage.quiet_of_not_executes {m : GatewayMessage} (h : m.executes = false) : m.Quiet := by
  intro group leaseID
  cases m <;> first | rfl | cases h

/-- What a gateway tells its grains carries no leased tasks. -/
theorem GrainMessage.FromGateway.quiet {m : GrainMessage} (h : m.FromGateway name) : m.Quiet := by
  intro group leaseID
  cases m <;> first | rfl | cases h

/-- The broker calls on tasks that are held under a lease. -/
def Call.leaseScoped : Call → Bool
  | .extendLease .. | .setProgress .. | .ack .. | .ackBatch _ | .fail .. | .release .. | .archive .. => true
  | _ => false

/-- A call on leased tasks hands out no lease and commits no task. -/
theorem Call.leaseScoped_spec (h : call.leaseScoped = true) : call.leaseID? = none ∧ call.enqueued = [] := by
  cases call <;> first | exact ⟨rfl, rfl⟩ | cases h

/-- The transition of a finished delivery is a call on a leased task. -/
theorem applyOutcome_leaseScoped (now : Time) (delay : Duration) (entry : InflightTask)
    (result : Result) : (applyOutcome now delay entry result).1.leaseScoped = true := by
  simp only [applyOutcome]
  repeat' split
  all_goals rfl

/-- The broker calls of a gateway's turn: the transition of a delivery it took out or looks up, which alone counts
failures, and other calls on leased tasks. -/
inductive GatewayActor.Issues (turn : GatewayTurn) : GatewayActor → Call → Prop where
  | settle {g : Gateway} {entry : InflightTask} {result : Result} {cause : Option Nat}
      (hturn : .settle entry result cause ∈ g.turn ∨ .settleMember entry result cause ∈ g.turn) :
      Issues turn (.stream g) (applyOutcome turn.now turn.delay entry result).1
  | resolve {w : WebhookGateway} {taskID : String} {entry : InflightTask} {result : Result}
      (hturn : (∃ cause, .resolve taskID result cause ∈ w.turn) ∨ ∃ number, .member taskID false result number ∈ w.turn)
      (hentry : w.inflight.lookup taskID = some entry) :
      Issues turn (.webhook w) (applyOutcome turn.now turn.delay entry result).1
  | other {a : GatewayActor} {call : Call} (hscoped : call.leaseScoped = true)
      (hfail : ∀ t leaseID errMsg processAt, call ≠ .fail t leaseID errMsg processAt) : Issues turn a call

section Issues

variable {settings : Settings} {turn : GatewayTurn} {a : GatewayActor}

/-- A gateway issues no other calls. -/
theorem nextCall_issues (h : a.nextCall settings turn = some call) : a.Issues turn call := by
  cases a with
  | stream g =>
    obtain ⟨work, hhead, hcall⟩ := Option.bind_eq_some_iff.mp h
    have hwork := List.mem_of_mem_head? hhead
    cases work with
    | settle =>
      cases hcall
      exact .settle (.inl hwork)
    | settleMember =>
      cases hcall
      exact .settle (.inr hwork)
    | ackBatch =>
      simp only [Gateway.call] at hcall
      split at hcall <;> cases hcall
      exact .other rfl nofun
    | extendLease =>
      obtain ⟨entry, -, rfl⟩ := Option.map_eq_some_iff.mp hcall
      exact .other rfl nofun
    | _ =>
      cases hcall
      exact .other rfl nofun
  | webhook w =>
    obtain ⟨work, hhead, hcall⟩ := Option.bind_eq_some_iff.mp h
    have hwork := List.mem_of_mem_head? hhead
    cases work with
    | release =>
      cases hcall
      exact .other rfl nofun
    | resolve =>
      obtain ⟨entry, hentry, rfl⟩ := Option.map_eq_some_iff.mp hcall
      exact .resolve (.inl ⟨_, hwork⟩) hentry
    | member _ accepted =>
      cases accepted with
      | true => cases hcall
      | false =>
        obtain ⟨entry, hentry, rfl⟩ := Option.map_eq_some_iff.mp hcall
        exact .resolve (.inr ⟨_, hwork⟩) hentry
    | extendLease =>
      simp only [WebhookGateway.call] at hcall
      split at hcall
      · cases hcall
      · obtain ⟨entry, -, rfl⟩ := Option.map_eq_some_iff.mp hcall
        exact .other rfl nofun
    | extendAsync =>
      obtain ⟨entry, -, rfl⟩ := Option.map_eq_some_iff.mp hcall
      exact .other rfl nofun
    | reapStale => cases hcall

/-- A gateway's broker calls are on leased tasks. -/
theorem nextCall_leaseScoped (h : a.nextCall settings turn = some call) : call.leaseScoped = true := by
  cases nextCall_issues h with
  | settle | resolve => exact applyOutcome_leaseScoped _ _ _ _
  | other hscoped => exact hscoped

end Issues

/-- Deliveries with the same cores mention the same leases. -/
theorem mentions_of_core {l l' : List Delivery} (h : l'.map Delivery.core = l.map Delivery.core) (group : Bool)
    (leaseID : String) : weigh (Delivery.mentions group leaseID) l' = weigh (Delivery.mentions group leaseID) l := by
  have hview : ∀ l : List Delivery, weigh (Delivery.mentions group leaseID) (l.map Delivery.core) =
      weigh (Delivery.mentions group leaseID) l := weigh_map Delivery.core _
  rw [← hview l', h, hview l]

end Emissions

section Steps

variable {settings : Settings} {s s' : System} {e : Event}

variable {sent : Bool}

/-- A dispatch mentions as much as the delivery it becomes. -/
theorem delivery_mentions {message : GatewayMessage} (h : message.delivery name sent = some d) (group : Bool)
    (leaseID : String) : d.mentions group leaseID = message.mentions group leaseID := by
  cases message with
  | executeTask =>
    cases h
    cases group <;> simp [Delivery.mentions, GatewayMessage.mentions]
  | executeBatch tasks id expiresAt group' =>
    cases tasks with
    | nil => cases h
    | cons task rest =>
      cases h
      cases group <;> simp [Delivery.mentions, GatewayMessage.mentions]
  | _ => cases h

/-- A dispatch is under the lease and the queue of one of its tasks. -/
theorem delivery_task {message : GatewayMessage} (h : message.delivery name sent = some d) :
    ∃ task ∈ message.dispatched, d.queue = task.queue ∧ d.leaseID = message.lease := by
  cases message with
  | executeTask task id expiresAt =>
    cases h
    exact ⟨task, List.mem_singleton_self task, rfl, rfl⟩
  | executeBatch tasks id expiresAt group =>
    cases tasks with
    | nil => cases h
    | cons task rest =>
      cases h
      exact ⟨task, .head _, rfl, rfl⟩
  | _ => cases h

theorem mayTell_quiet (h : s.mayTell message = true) : message.Quiet := by
  cases message with
  | leaseCycleCompleted => cases h
  | groupLeaseCompleted => cases h
  | _ => exact fun _ _ => rfl

/-- The lease a step hands out, and whether it is that of a group. -/
def System.handing (s : System) : Event → Option (Bool × String)
  | .pipe index _ _ => (takeAt s.pipes index).bind fun p =>
    match p.1 with
    | .lease _ _ leaseID _ => some (false, leaseID)
    | .leaseGroup _ _ _ _ leaseID _ => some (true, leaseID)
    | .release .. => none
  | _ => none

/-- Ordinary effects mention no lease. -/
theorem emitGateway_mentions {P : Option Nat → String → String → Prop} {author : String} {effects : List GatewayEffect}
    (s : System) (name : String) (h : ∀ e ∈ effects, e.Ordinary P author) (group : Bool) (leaseID : String) :
    (s.emitGateway name effects).mentions group leaseID = s.mentions group leaseID := by
  have htold := weigh_eq_zero fun p hp => (told_quiet h hp).quiet group leaseID
  have hlater : weigh (fun p : String × GatewayMessage => p.2.mentions group leaseID)
      (effects.filterMap (GatewayEffect.later name)) = 0 := by
    refine weigh_eq_zero fun p hp => ?_
    obtain ⟨-, queue, taskID, success, heq⟩ := later_deferred h hp
    rw [heq]
    rfl
  simp only [System.mentions, System.emitGateway, weigh_append, htold, hlater, ordinary_deliveries h,
    weigh_nil, mentions_of_core (abort_core _ s.deliveries)]
  omega

/-- Nothing new mentions a lease, except that a lease may be handed out, and that a cycle lease may be
mentioned by more dispatches than before. -/
theorem Moves.mentions (hmove : Moves settings s e s') (group : Bool) (leaseID : String) :
    s'.mentions group leaseID ≤ s.mentions group leaseID + indicator (s.handing e = some (group, leaseID)) ∨
      group = false ∧ 0 < s.mentions false leaseID := by
  have hnonneg := indicator_nonneg (s.handing e = some (group, leaseID))
  cases hmove with
  | idle | broker => exact .inl (le_add_of_nonneg_right hnonneg)
  | tellGrain hmay =>
    have hzero := mayTell_quiet hmay group leaseID
    refine .inl ?_
    simp only [System.mentions, weigh_append, weigh_cons, weigh_nil, hzero]
    omega
  | tellGateway ha hadmits =>
    have hzero := GatewayMessage.quiet_of_not_executes (admits_not_executes hadmits) group leaseID
    refine .inl ?_
    simp only [System.mentions, weigh_append, weigh_cons, weigh_nil, hzero]
    omega
  | @grain index turn queue message rest htake hfresh =>
    have htaken := weigh_takeAt htake fun p => p.2.mentions group leaseID
    have hemitted : weigh (fun p : String × GatewayMessage => p.2.mentions group leaseID)
        (((s.grains queue).receive settings turn message).2.filterMap GrainEffect.message) ≤
          message.mentions group leaseID ∨ group = false ∧ 0 < message.mentions false leaseID := by
      cases group with
      | true => exact .inl (emitted_batch settings turn (s.grains queue) message leaseID)
      | false =>
        rcases le_or_gt (weigh (fun p : String × GatewayMessage => p.2.mentions false leaseID)
          (((s.grains queue).receive settings turn message).2.filterMap GrainEffect.message)) 0 with hle | hpos
        · exact .inl (hle.trans (message.mentions_nonneg false leaseID))
        · exact .inr ⟨rfl, emitted_cycle hpos⟩
    rcases hemitted with hle | ⟨rfl, hpos⟩
    · refine .inl ?_
      simp only [System.mentions, System.grainTurn, System.emitGrain, System.setGrain, weigh_append, htaken]
      omega
    · exact .inr ⟨rfl, hpos.trans_le (s.grain_le_mentions (taken_mem htake) false leaseID)⟩
  | @gateway index turn name message rest a htake ha hidle =>
    have htaken := weigh_takeAt htake fun p => p.2.mentions group leaseID
    have hmessage := message.mentions_nonneg group leaseID
    refine .inl ?_
    rcases GatewayActor.dispatched_or_delivery message name (a.sends turn) with hnone | ⟨d, hd⟩
    · refine le_trans (emitGateway_mentions _ name (GatewayActor.receive_ordinary hnone) group leaseID).le ?_
      simp only [System.mentions, System.setGateway, htaken]
      omega
    · rw [System.gatewayTurn_dispatch hd]
      simp only [System.mentions, htaken, weigh_append, weigh_cons, weigh_nil, delivery_mentions hd]
      omega
  | resume =>
    exact .inl ((emitGateway_mentions _ _ (GatewayActor.resume_ordinary _) group leaseID).le.trans
      (le_add_of_nonneg_right hnonneg))
  | @pipe index now order p rest htake =>
    have hreport : weigh (fun q : String × GrainMessage => q.2.mentions group leaseID)
        (System.pipeReport settings { s with pipes := rest } now order p).toList ≤
          indicator (s.handing (.pipe index now order) = some (group, leaseID)) := by
      rw [System.handing, htake]
      cases p with
      | release queue id taskIDs =>
        cases taskIDs <;> simp [System.pipeReport, GrainMessage.mentions]
      | _ => simp [System.pipeReport, GrainMessage.mentions, indicator, eq_comm]
    rw [System.pipeStep_eq]
    simp only [System.mentions, weigh_append]
    omega
  | answer hd hopen ha hreport =>
    have hzero := GatewayMessage.quiet_of_not_executes (report_not_executes hreport) group leaseID
    have hcore : ∀ number, (s.deliveries.modify number fun d => { d with open_ := false }).map Delivery.core =
        s.deliveries.map Delivery.core := by
      refine fun number => map_modify_of_view ?_ number s.deliveries
      exact fun _ => rfl
    refine .inl ?_
    simp only [System.mentions, weigh_append, weigh_cons, weigh_nil, hzero, mentions_of_core (hcore _)]
    omega

/-- A system that starts has handed out no lease. -/
theorem leaseFlow_start (d : Deployment) : LeaseFlow (System.start d) where
  keyed _ _ h := by cases h
  once _ := by simp [System.handedOut, System.start]
  cycle _ _ _ _ _ h := by cases h
  group _ _ _ _ _ _ _ h := by cases h
  dispatch _ _ h := by cases h
  delivery _ h := by cases h
  batchOnce _ := by simp [System.mentions, System.start]
  kinds _ h := by cases h

namespace LeaseFlow

/-- The lease id of a pipe was not handed out: the pipe is the one place it is in. -/
theorem pipe_unused (h : LeaseFlow s) {index : Nat} {p : Pipe} {rest : List Pipe}
    (htake : takeAt s.pipes index = some (p, rest)) (hid : p.leaseID? = some leaseID) (queue : String) :
    (leaseID, queue) ∉ s.leases := by
  intro hmem
  have honce := h.once leaseID
  rw [System.handedOut, weigh_takeAt htake, indicator_true hid] at honce
  have hpipes : 0 ≤ weigh (fun p : Pipe => indicator (p.leaseID? = some leaseID)) rest :=
    weigh_nonneg _ fun p _ => indicator_nonneg _
  have hone := le_weigh_of_mem (fun e : String × String => indicator_nonneg (e.1 = leaseID)) hmem
  rw [indicator_true rfl] at hone
  omega

variable {b : Broker} {now : Time} {order : Iteration} {limit : Int} {ttl : Duration} {task : TaskEnvelope}

/-- The tasks a lease call returns are of its queue. -/
theorem leasedTasks_queue (h : task ∈ System.leasedTasks (b.exec ⟨now, .lease queue limit ttl leaseID, order⟩).2) :
    task.queue = queue := by
  obtain ⟨t, row, -, htest, rfl, -⟩ := claimSorted_reply (show task ∈ (b.claimSorted ..).2 from h)
  simp only [Broker.leasable, Bool.and_eq_true, beq_iff_eq] at htest
  exact htest.1.1.1

/-- The tasks a group lease call returns are of its queue. -/
theorem leasedGroup_queue {group : String}
    (h : task ∈ System.leasedTasks (b.exec ⟨now, .leaseGroup queue group limit ttl leaseID, order⟩).2) :
    task.queue = queue := by
  obtain ⟨t, row, -, htest, rfl, -⟩ := claimSorted_reply (show task ∈ (b.claimSorted ..).2 from h)
  simp only [Broker.groupLeasable, Bool.and_eq_true, beq_iff_eq] at htest
  exact htest.1.2

/-- A lease id comes up once. -/
theorem once_moves (h : LeaseFlow s) (hmove : Moves settings s e s') (leaseID : String) : s'.handedOut leaseID ≤ 1 := by
  have hold := h.once leaseID
  cases hmove with
  | @grain index turn queue message rest htake hfresh =>
    have hnone := s.handedOut_fresh hfresh
    have hsplit : ({ s with toGrain := rest }.grainTurn settings turn queue message).handedOut leaseID =
        s.handedOut leaseID + weigh (fun id : String => indicator (some id = some leaseID))
          (leasing ((s.grains queue).receive settings turn message).2) := by
      rw [← weigh_pipes queue]
      simp only [System.handedOut, System.grainTurn, System.emitGrain, System.setGrain, weigh_append]
      omega
    rw [hsplit]
    rcases leasing_receive settings turn (s.grains queue) message with hnil | hone
    · rw [hnil, weigh_nil]
      omega
    · rw [hone, weigh_cons, weigh_nil]
      rcases eq_or_ne turn.newID leaseID with rfl | heq
      · simp [hnone]
      · simpa [heq] using hold
  | @pipe index now order p rest htake =>
    have hrest : weigh (fun p : Pipe => indicator (p.leaseID? = some leaseID))
        (s.pipeRest now order p).toList = 0 := by
      refine weigh_eq_zero fun p hp => ?_
      obtain ⟨_, _, _, _, _, rfl⟩ := System.pipeRest_release (Option.mem_toList.mp hp)
      rfl
    -- the id moves from the pipe to the log
    have hid : weigh (fun e : String × String => indicator (e.1 = leaseID)) p.handsOut.toList =
        indicator (p.leaseID? = some leaseID) := by
      cases p <;> simp [Pipe.handsOut, Pipe.leaseID?, indicator]
    rw [System.handedOut, weigh_takeAt htake] at hold
    rw [System.pipeStep_eq]
    simp only [System.handedOut, weigh_append, hid]
    have : weigh (fun p : Pipe => indicator (p.leaseID? = some leaseID))
      (System.pipeRest { s with pipes := rest } now order p).toList = 0 := hrest
    omega
  | _ => exact hold

/-- A lease that is being handed out is mentioned nowhere yet. -/
theorem handing_unused (h : LeaseFlow s) {kind : Bool}
    (hhands : s.handing e = some (kind, leaseID)) (group : Bool) : s.mentions group leaseID = 0 := by
  cases e with
  | pipe =>
    obtain ⟨⟨p, rest⟩, htake, hp⟩ := Option.bind_eq_some_iff.mp hhands
    have hid : p.leaseID? = some leaseID := by cases p <;> cases hp <;> rfl
    by_contra hne
    have hnonneg := s.mentions_nonneg group leaseID
    obtain ⟨q, hq⟩ := h.handed_out (show 0 < s.mentions group leaseID by omega)
    exact h.pipe_unused htake hid q hq
  | _ => cases hhands

/-- Every step keeps leases on their path. -/
theorem moves (h : LeaseFlow s) (hmove : Moves settings s e s') : LeaseFlow s' where
  keyed := by
    rcases hmove.broker_after with htasks | ⟨i, -, hafter⟩
    · exact fun t row hrow => h.keyed t row (htasks ▸ hrow)
    · exact hafter ▸ after_keyed h.keyed i
  once := h.once_moves hmove
  cycle queue leaseID expiresAt error tasks hmem := by
    rcases hmove.cycle_after hmem with hold | ⟨index, now, order, limit, rest, -, htake, rfl, rfl⟩
    · exact (h.cycle _ _ _ _ _ hold).imp_left hmove.leases
    · exact ⟨List.mem_append_right _ (List.mem_singleton_self _), fun _ htask => leasedTasks_queue htask⟩
  group queue leaseID expiresAt group type error tasks hmem := by
    rcases hmove.group_after hmem with hold | ⟨index, now, order, limit, rest, -, htake, rfl, rfl⟩
    · exact (h.group _ _ _ _ _ _ _ hold).imp_left hmove.leases
    · exact ⟨List.mem_append_right _ (List.mem_singleton_self _), fun _ htask => leasedGroup_queue htask⟩
  dispatch name message hmem := by
    rcases hmove.dispatch_after hmem with hold | hplain | ⟨_, turn, queue, received, rest, -, htake, -, hnew⟩
    · obtain ⟨hleases, hquiet⟩ := h.dispatch name message hold
      exact ⟨fun task htask => hmove.leases (hleases task htask), hquiet⟩
    · rw [GatewayMessage.dispatched_of_not_executes hplain]
      exact ⟨fun _ h => absurd h List.not_mem_nil, fun _ => GatewayMessage.quiet_of_not_executes hplain⟩
    · rcases emitted_dispatch hnew with ⟨id, expiresAt, error, tasks, rfl, task, htask, rfl⟩ |
        ⟨id, expiresAt, group, type, error, tasks, rfl, hne, rfl⟩ | ⟨taskID, rfl⟩
      · obtain ⟨hlease, hqueue⟩ := h.cycle _ _ _ _ _ (taken_mem htake)
        refine ⟨fun other hother => hmove.leases ?_, fun hnone => absurd hnone (List.cons_ne_nil _ _)⟩
        rw [List.mem_singleton.mp hother, hqueue task htask]
        exact hlease
      · obtain ⟨hlease, hqueue⟩ := h.group _ _ _ _ _ _ _ (taken_mem htake)
        refine ⟨fun other hother => hmove.leases ?_, fun hnone => absurd hnone hne⟩
        rw [hqueue other hother]
        exact hlease
      · exact ⟨fun _ h => absurd h List.not_mem_nil, fun _ _ _ => rfl⟩
  delivery d hd := by
    refine hmove.leases ?_
    obtain ⟨number, hnumber⟩ := List.mem_iff_getElem?.mp hd
    rcases hmove.delivery_after hnumber with ⟨old, hold, hcore, -⟩ |
      ⟨_, turn, message, rest, a, -, -, htake, -, -, hdelivery, -⟩
    · obtain ⟨-, hqueue, hlease, -⟩ := core_fields hcore
      rw [hlease, hqueue]
      exact h.delivery old (List.mem_of_getElem? hold)
    · obtain ⟨task, htask, hqueue, hlease⟩ := delivery_task hdelivery
      rw [hqueue, hlease]
      exact (h.dispatch _ _ (taken_mem htake)).1 task htask
  batchOnce leaseID := by
    have hold := h.batchOnce leaseID
    rcases hmove.mentions true leaseID with hle | ⟨hkind, -⟩
    · by_cases hhands : s.handing e = some (true, leaseID)
      · rw [indicator_true hhands, h.handing_unused hhands true] at hle
        omega
      · rw [indicator_false hhands] at hle
        omega
    · cases hkind
  kinds leaseID hpos := by
    have hnonneg := s'.mentions_nonneg true leaseID
    have htrue : s'.mentions true leaseID ≤ s.mentions true leaseID +
        indicator (s.handing e = some (true, leaseID)) :=
      (hmove.mentions true leaseID).resolve_right nofun
    have hfalse := hmove.mentions false leaseID
    by_cases hgroup : s.handing e = some (true, leaseID)
    · -- the id is new, and that of a group
      have hnone := h.handing_unused hgroup false
      rw [indicator_false (show s.handing e ≠ some (false, leaseID) by simp [hgroup])] at hfalse
      omega
    · rw [indicator_false hgroup] at htrue
      by_cases hcycle : s.handing e = some (false, leaseID)
      · have hnone := h.handing_unused hcycle true
        omega
      · rw [indicator_false hcycle] at hfalse
        have hzero := h.kinds leaseID (by omega)
        omega

/-- Leases travel so in every run. -/
theorem run_leaseFlow (d : Deployment) (events : List Event) :
    LeaseFlow (run (System.step settings) (System.start d) events) :=
  run_invariant_of_forall _ (fun s e h => h.moves (step_moves settings s e)) events (leaseFlow_start d)

end LeaseFlow

/-- The rows held under leases that were handed out before were held before, in the same attempt. -/
def System.HeldBefore (s s' : System) : Prop :=
  ∀ t row' leaseID queue, s'.broker.tasks.lookup t = some row' → row'.HeldUnder leaseID →
    (leaseID, queue) ∈ s.leases → ∃ row, s.broker.tasks.lookup t = some row ∧
      row.HeldUnder leaseID ∧ row.SameAttempt row'

theorem heldBefore_of_tasks (h : s'.broker.tasks = s.broker.tasks) : s.HeldBefore s' :=
  fun _ row' _ _ hrow' hunder _ => ⟨row', h ▸ hrow', hunder, .refl row'⟩

/-- A broker call that hands out no lease handed out before. -/
theorem heldBefore_of_call {i : Invocation} (h : s'.broker = s.broker.after i)
    (hcall : ∀ leaseID q, i.call.leaseID? = some leaseID → (leaseID, q) ∉ s.leases) : s.HeldBefore s' := by
  intro t row' leaseID q hrow' hunder hlease
  rw [h] at hrow'
  rcases (exec_steps s.broker i).heldUnder hrow' hunder with hold | hid
  · exact hold
  · exact absurd hlease (hcall leaseID q hid)

/-- A broker call from outside the actors hands out no lease. -/
theorem Call.leaseID_of_external (h : call.external = true) : call.leaseID? = none := by
  cases call <;> first | rfl | cases h

/-- No step hands out a lease that was handed out before. -/
theorem Moves.heldBefore (hmove : Moves settings s e s') (hflow : LeaseFlow s) : s.HeldBefore s' := by
  rcases hmove.broker_after with htasks | ⟨i, hcalls, hafter⟩
  · exact heldBefore_of_tasks htasks
  · refine heldBefore_of_call hafter fun leaseID q hid => ?_
    cases hcalls with
    | outside h =>
      rw [Call.leaseID_of_external h] at hid
      cases hid
    | gateway _ hcall =>
      rw [(Call.leaseScoped_spec (nextCall_leaseScoped hcall)).1] at hid
      cases hid
    | piped htake hcall => exact hflow.pipe_unused htake ((Pipe.call_leaseID hcall).symm.trans hid) q

end Steps

end Conveyor
