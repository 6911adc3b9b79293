import Conveyor.Actors.Answers
import Conveyor.Actors.Credits

/-!
# What the records of the actors refer to

A grain lists a gateway once. A gateway tracks a task only under a lease that was handed out for the
task's queue, and for a delivery of its own. A lease id is handed out once, so a row that is no longer
held under a lease never is again.
-/

namespace Conveyor

open Lib

variable {settings : Settings} {s s' : System} {e : Event}

/-- No grain lists a gateway twice. -/
def System.ListedOnce (s : System) : Prop := ∀ queue, DistinctNames (s.grains queue).gateways

theorem listedOnce_start (d : Deployment) : (System.start d).ListedOnce := fun _ => List.nodup_nil

theorem System.ListedOnce.moves (h : s.ListedOnce) (hmove : Moves settings s e s') : s'.ListedOnce := by
  intro queue
  rcases hmove.grain_after queue with hsame | ⟨index, turn, message, rest, -, -, hturn⟩
  · rw [hsame]
    exact h queue
  · obtain ⟨y, -, hspends⟩ := QueueGrain.receive_spends settings turn message "" (h queue)
    rw [hturn]
    exact hspends.distinct

/-- Every task a gateway tracks is tracked under a lease handed out for its queue. -/
def System.RecordsLeased (s : System) : Prop :=
  ∀ name a t entry, s.gateways name = some a → a.inflight.lookup t = some entry →
    (entry.leaseID, entry.queue) ∈ s.leases

theorem recordsLeased_start (d : Deployment) : (System.start d).RecordsLeased := by
  intro name a t entry ha hentry
  rcases System.start_gateway ha with ⟨session, rfl⟩ | ⟨registration, rfl⟩ <;> cases hentry

theorem System.RecordsLeased.moves (h : s.RecordsLeased) (hflow : LeaseFlow s)
    (hmove : Moves settings s e s') : s'.RecordsLeased := by
  intro name a' t entry ha' hentry
  refine hmove.leases ?_
  obtain ⟨a, ha, rfl | ⟨index, turn, message, rest, -, htake, -, -, rfl⟩ | ⟨turn, order, reply, -, -, -, rfl⟩⟩ :=
    hmove.gateway_after ha'
  · exact h name a' t entry ha hentry
  · rcases GatewayActor.receive_records hentry with ⟨-, old, hold, hsame⟩ | ⟨task, htask, rfl, rfl⟩
    · rw [← hsame.leaseID, ← hsame.queue]
      exact h name a t old ha hold
    · exact (hflow.dispatch name message (taken_mem htake)).1 task htask
  · obtain ⟨old, hold, hsame⟩ := (GatewayActor.resume_keeps reply).records t entry hentry
    rw [← hsame.leaseID, ← hsame.queue]
    exact h name a t old ha hold

/-- Every tracked task belongs to a delivery of its gateway under the same lease, and every tracked batch
is one. -/
structure System.RecordsDelivered (s : System) : Prop where
  tasks : ∀ name a t entry, s.gateways name = some a → a.inflight.lookup t = some entry →
    ∃ d ∈ s.deliveries, d.gateway = name ∧ d.leaseID = entry.leaseID ∧ t ∈ d.tasks
  batches : ∀ name a leaseID ids, s.gateways name = some a → a.members leaseID = some ids →
    ∃ d ∈ s.deliveries, d.gateway = name ∧ d.batch = true ∧ d.leaseID = leaseID ∧ d.tasks = ids

theorem recordsDelivered_start (d : Deployment) : (System.start d).RecordsDelivered := by
  constructor
  · intro name a t entry ha hentry
    rcases System.start_gateway ha with ⟨session, rfl⟩ | ⟨registration, rfl⟩ <;> cases hentry
  · intro name a leaseID ids ha hids
    rcases System.start_gateway ha with ⟨session, rfl⟩ | ⟨registration, rfl⟩ <;> cases hids

theorem System.RecordsDelivered.moves (h : s.RecordsDelivered) (hmove : Moves settings s e s') :
    s'.RecordsDelivered := by
  constructor
  · intro name a' t entry ha' hentry
    have hstays : (∃ d ∈ s.deliveries, d.gateway = name ∧ d.leaseID = entry.leaseID ∧ t ∈ d.tasks) →
        ∃ d ∈ s'.deliveries, d.gateway = name ∧ d.leaseID = entry.leaseID ∧ t ∈ d.tasks := by
      rintro ⟨d, hd, hgateway, hlease, ht⟩
      obtain ⟨d', hd', hcore⟩ := hmove.delivery_stays hd
      obtain ⟨hgateway', -, hlease', htasks', -⟩ := core_fields hcore
      exact ⟨d', hd', hgateway'.trans hgateway, hlease'.trans hlease, htasks' ▸ ht⟩
    obtain ⟨a, ha, rfl | ⟨index, turn, message, rest, -, htake, -, hs', rfl⟩ |
      ⟨turn, order, reply, -, -, -, rfl⟩⟩ := hmove.gateway_after ha'
    · exact hstays (h.tasks name a' t entry ha hentry)
    · rcases GatewayActor.receive_records hentry with ⟨-, old, hold, hsame⟩ | ⟨task, htask, rfl, rfl⟩
      · obtain ⟨d, hd, hgateway, hlease, ht⟩ := h.tasks name a t old ha hold
        exact hstays ⟨d, hd, hgateway, hlease.trans hsame.leaseID, ht⟩
      · rcases GatewayActor.dispatched_or_delivery message name (a.sends turn) with hnone | ⟨d, hd⟩
        · rw [hnone] at htask
          cases htask
        · obtain ⟨hgateway, hlease, htasks, -⟩ := delivery_fields hd
          refine ⟨d, hs' ▸ dispatch_logged hd, hgateway, hlease, ?_⟩
          rw [htasks]
          exact List.mem_map_of_mem htask
    · obtain ⟨old, hold, hsame⟩ := (GatewayActor.resume_keeps reply).records t entry hentry
      obtain ⟨d, hd, hgateway, hlease, ht⟩ := h.tasks name a t old ha hold
      exact hstays ⟨d, hd, hgateway, hlease.trans hsame.leaseID, ht⟩
  · intro name a' leaseID ids ha' hids
    have hstays : (∃ d ∈ s.deliveries, d.gateway = name ∧ d.batch = true ∧ d.leaseID = leaseID ∧ d.tasks = ids) →
        ∃ d ∈ s'.deliveries, d.gateway = name ∧ d.batch = true ∧ d.leaseID = leaseID ∧ d.tasks = ids := by
      rintro ⟨d, hd, hgateway, hbatch, hlease, htasks⟩
      obtain ⟨d', hd', hcore⟩ := hmove.delivery_stays hd
      obtain ⟨hgateway', -, hlease', htasks', hbatch'⟩ := core_fields hcore
      exact ⟨d', hd', hgateway'.trans hgateway, hbatch'.trans hbatch, hlease'.trans hlease, htasks'.trans htasks⟩
    obtain ⟨a, ha, rfl | ⟨index, turn, message, rest, -, htake, -, hs', rfl⟩ |
      ⟨turn, order, reply, -, -, -, rfl⟩⟩ := hmove.gateway_after ha'
    · exact hstays (h.batches name a' leaseID ids ha hids)
    · rcases GatewayActor.receive_members name hids with hold | ⟨d, hd, hbatch, hlease, htasks⟩
      · exact hstays (h.batches name a leaseID ids ha hold)
      · exact ⟨d, hs' ▸ dispatch_logged hd, (delivery_fields hd).1, hbatch, hlease, htasks⟩
    · exact hstays (h.batches name a leaseID ids ha ((GatewayActor.resume_keeps reply).members leaseID ids hids))

variable {name : String} {d : Delivery}

/-- A message on its way to a gateway and a delivery both mention their leases. -/
theorem mentions_of_dispatch {message : GatewayMessage} (hmem : (name, message) ∈ s.toGateway)
    (hd : d ∈ s.deliveries) (group : Bool) (leaseID : String) :
    message.mentions group leaseID + d.mentions group leaseID ≤ s.mentions group leaseID := by
  have hgrain := weigh_nonneg s.toGrain fun p _ => GrainMessage.mentions_nonneg group leaseID p.2
  have hgateway : message.mentions group leaseID ≤
      weigh (fun p : String × GatewayMessage => p.2.mentions group leaseID) s.toGateway :=
    le_weigh_of_mem (fun p : String × GatewayMessage => GatewayMessage.mentions_nonneg group leaseID p.2) hmem
  have hdelivery : d.mentions group leaseID ≤ weigh (Delivery.mentions group leaseID) s.deliveries :=
    le_weigh_of_mem (fun _ => indicator_nonneg _) hd
  rw [System.mentions]
  omega

variable {expiresAt : Time}

/-- The lease of a single dispatch is that of no batch. -/
theorem LeaseFlow.single_lease (h : LeaseFlow s) {leaseID : String} {task : TaskEnvelope}
    (hmem : (name, .executeTask task leaseID expiresAt) ∈ s.toGateway) (hd : d ∈ s.deliveries)
    (hlease : d.leaseID = leaseID) : d.batch = false := by
  have hkinds := h.kinds leaseID
  have hsingle := mentions_of_dispatch hmem hd false leaseID
  have hbatch := mentions_of_dispatch hmem hd true leaseID
  cases hb : d.batch with
  | false => rfl
  | true =>
    have hone : GatewayMessage.mentions false leaseID (.executeTask task leaseID expiresAt) = 1 :=
      indicator_true ⟨rfl, rfl⟩
    have hdelivery : d.mentions true leaseID = 1 := indicator_true ⟨hb, hlease⟩
    have hnonneg : 0 ≤ d.mentions false leaseID := indicator_nonneg _
    have hnone := GatewayMessage.mentions_nonneg true leaseID (.executeTask task leaseID expiresAt)
    have := hkinds (by omega)
    omega

/-- The lease of a batch dispatch is that of no delivery yet. -/
theorem LeaseFlow.batch_lease (h : LeaseFlow s) {leaseID group : String} {tasks : List TaskEnvelope}
    (hmem : (name, .executeBatch tasks leaseID expiresAt group) ∈ s.toGateway)
    (hd : d ∈ s.deliveries) : d.leaseID ≠ leaseID := by
  intro hlease
  have hone : GatewayMessage.mentions true leaseID (.executeBatch tasks leaseID expiresAt group) = 1 :=
    indicator_true ⟨rfl, rfl⟩
  have hbatch := mentions_of_dispatch hmem hd true leaseID
  have honce := h.batchOnce leaseID
  cases hb : d.batch with
  | true =>
    have hdelivery : d.mentions true leaseID = 1 := indicator_true ⟨hb, hlease⟩
    omega
  | false =>
    have hsingle := mentions_of_dispatch hmem hd false leaseID
    have hdelivery : d.mentions false leaseID = 1 := indicator_true ⟨hb, hlease⟩
    have hnone := GatewayMessage.mentions_nonneg false leaseID (.executeBatch tasks leaseID expiresAt group)
    have hnonneg : 0 ≤ d.mentions true leaseID := indicator_nonneg _
    have := h.kinds leaseID (by omega)
    omega

/-- A gateway goes by its own name. -/
def System.NamedByKey (s : System) : Prop := ∀ name a, s.gateways name = some a → a.name = name

theorem namedByKey_start (d : Deployment) : (System.start d).NamedByKey := by
  intro name a ha
  have hgateway : d.gateway name = some a := ha
  rw [Deployment.gateway] at hgateway
  split at hgateway
  · rename_i g hg
    cases hgateway
    have hname := List.find?_some hg
    exact beq_iff_eq.mp hname
  · obtain ⟨w, hw, rfl⟩ := Option.map_eq_some_iff.mp hgateway
    have hname := List.find?_some hw
    exact beq_iff_eq.mp hname

theorem System.NamedByKey.moves (h : s.NamedByKey) (hmove : Moves settings s e s') : s'.NamedByKey := by
  intro name a' ha'
  obtain ⟨a, ha, rfl | ⟨index, turn, message, rest, -, -, -, -, rfl⟩ | ⟨turn, order, reply, -, -, -, rfl⟩⟩ :=
    hmove.gateway_after ha'
  · exact h name a' ha
  · exact GatewayActor.receive_name.trans (h name a ha)
  · exact (GatewayActor.resume_keeps reply).name.trans (h name a ha)

/-- A row that a step leaves held under a lease handed out before was held under it before. -/
theorem LeaseFlow.heldBefore (hflow : LeaseFlow s) (hmove : Moves settings s e s') : s.HeldBefore s' := by
  cases hmove with
  | idle | tellGrain | tellGateway | gateway | answer => exact heldBefore_of_tasks rfl
  | grain => exact heldBefore_of_tasks (persist_tasks _ _ _)
  | broker hexternal =>
    refine heldBefore_of_call rfl fun leaseID queue hid => ?_
    rw [Call.leaseID_of_external hexternal] at hid
    cases hid
  | resume ha hbusy =>
    rename_i name turn order a
    rw [System.gatewayResume]
    cases hcall : a.nextCall settings turn with
    | none => exact heldBefore_of_tasks rfl
    | some call =>
      refine heldBefore_of_call (i := ⟨turn.now, call, order⟩) rfl fun leaseID queue hid => ?_
      rw [(Call.leaseScoped_spec (nextCall_leaseScoped hcall)).1] at hid
      cases hid
  | pipe htake =>
    rename_i now order p rest
    -- the id a claiming call hands out is new
    have hclaim : ∀ (call : Call) {s' : System}, call.leaseID? = p.leaseID? →
        s'.broker = s.broker.after ⟨now, call, order⟩ → s.HeldBefore s' := by
      intro call s' hid hbroker
      refine heldBefore_of_call hbroker fun leaseID queue hlease => ?_
      exact hflow.pipe_unused htake (hid.symm.trans hlease) queue
    cases p with
    | lease queue limit leaseID expiresAt =>
      exact hclaim (.lease queue limit settings.leaseTTL leaseID) rfl rfl
    | leaseGroup queue group type limit leaseID expiresAt =>
      exact hclaim (.leaseGroup queue group limit settings.leaseTTL leaseID) rfl rfl
    | release queue leaseID taskIDs released failed =>
      cases taskIDs with
      | nil => exact heldBefore_of_tasks rfl
      | cons taskID others => exact hclaim (.release taskID leaseID) rfl rfl

/-- What the records of a reachable state refer to. -/
structure Recorded (s : System) : Prop where
  flow : LeaseFlow s
  listed : s.ListedOnce
  leased : s.RecordsLeased
  delivered : s.RecordsDelivered
  named : s.NamedByKey

theorem recorded_start (d : Deployment) : Recorded (System.start d) :=
  ⟨leaseFlow_start d, listedOnce_start d, recordsLeased_start d, recordsDelivered_start d, namedByKey_start d⟩

theorem Recorded.moves (h : Recorded s) (hmove : Moves settings s e s') : Recorded s' :=
  ⟨h.flow.moves hmove, h.listed.moves hmove, h.leased.moves h.flow hmove, h.delivered.moves hmove, h.named.moves hmove⟩

theorem run_recorded (settings : Settings) (d : Deployment) (events : List Event) :
    Recorded (run (System.step settings) (System.start d) events) :=
  run_invariant_of_forall Recorded (fun s e hs => hs.moves (step_moves settings s e)) events (recorded_start d)

theorem run_leases (settings : Settings) (events : List Event) {p : String × String} (hp : p ∈ s.leases) :
    p ∈ (run (System.step settings) s events).leases :=
  run_invariant_of_forall (fun s => p ∈ s.leases) (fun s e => (step_moves settings s e).leases) events hp

end Conveyor
