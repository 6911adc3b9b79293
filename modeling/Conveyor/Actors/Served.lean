import Conveyor.Actors.Concurrency
import Conveyor.Actors.Pending

/-!
# What a gateway works on

In a deployment of worker sessions a queue's grain lists only gateways whose sessions declared the queue,
so whatever a gateway tracks or settles belongs to a queue it serves. A lease cycle on its way to its grain
was not dispatched yet.
-/

namespace Conveyor

open Lib

variable {settings : Settings} {s s' : System} {e : Event} {name queue : String}

/-- A stream gateway whose session declared the queue. -/
def System.Serves (s : System) (name queue : String) : Prop :=
  ∃ g, s.gateways name = some (.stream g) ∧ g.serves queue = true

variable {g : Gateway}

/-- A stream gateway keeps its session. -/
theorem Moves.session (hmove : Moves settings s e s') (hg : s.gateways name = some (.stream g)) :
    ∃ g', s'.gateways name = some (.stream g') ∧ g'.session = g.session := by
  rcases hmove.at_gateway hg with rfl | ⟨-, hsame⟩ | ⟨turn, order, reply, -, hresume⟩ |
    ⟨index, turn, message, rest, -, -, -, -, hreceive⟩
  · exact ⟨g, hg, rfl⟩
  · exact ⟨g, hsame, rfl⟩
  · obtain ⟨g', hg'⟩ : ∃ g', ((GatewayActor.stream g).resume settings turn reply).1 = .stream g' := by
      rw [GatewayActor.resume]
      split <;> exact ⟨_, rfl⟩
    exact ⟨g', hresume.trans (congrArg some hg'), (GatewayActor.resume_session hg').1⟩
  · exact ⟨_, hreceive, Gateway.receive_session.1⟩

theorem Moves.serves (hmove : Moves settings s e s') (h : s.Serves name queue) : s'.Serves name queue := by
  obtain ⟨g, hg, hserves⟩ := h
  obtain ⟨g', hg', hsession⟩ := hmove.session hg
  refine ⟨g', hg', ?_⟩
  rw [Gateway.serves, hsession]
  exact hserves

variable {message : GatewayMessage}

/-- What a grain dispatches to is listed. -/
theorem dispatched_listed {y x' : QueueGrain} {reachable : Prop} {effects : List GrainEffect}
    (hspends : QueueGrain.Spends reachable name y x' (dispatched name effects))
    (hmem : (name, message) ∈ effects.filterMap GrainEffect.message) (hne : message.dispatched ≠ []) :
    (y.account name).isSome = true := by
  obtain ⟨effect, heffect, hmessage⟩ := List.mem_filterMap.mp hmem
  have hdispatches : effect.dispatchesTo name = true := by
    cases effect with
    | executeTask | executeBatch =>
      cases hmessage
      simp [GrainEffect.dispatchesTo]
    | cancelActive =>
      cases hmessage
      exact absurd rfl hne
    | _ => cases hmessage
  have hone : indicator (effect.dispatchesTo name = true) ≤ dispatched name effects :=
    le_weigh_of_mem (fun _ => indicator_nonneg _) heffect
  have hspent := hspends.spent
  rw [indicator_true hdispatches] at hone
  by_contra hnone
  rw [Bool.not_eq_true, Option.isSome_eq_false_iff, Option.isNone_iff_eq_none] at hnone
  rw [QueueGrain.balance_of_unlisted hnone] at hspent
  omega

/-- Every gateway is that of a session, and works for queues its session declared. -/
structure Served (s : System) : Prop where
  streams : ∀ name a, s.gateways name = some a → ∃ g, a = .stream g
  listed : ∀ queue name, ((s.grains queue).account name).isSome = true → s.Serves name queue
  announced : ∀ queue name capacity weight batchTypes,
    (queue, GrainMessage.registerGateway name capacity weight batchTypes) ∈ s.toGrain → s.Serves name queue
  dispatched : ∀ name message, (name, message) ∈ s.toGateway → ∀ task ∈ message.dispatched, s.Serves name task.queue
  tracked : ∀ name a t entry, s.gateways name = some a → a.inflight.lookup t = some entry → s.Serves name entry.queue

theorem served_start (d : Deployment) (hworkers : d.registrations = []) : Served (System.start d) where
  streams name a ha := by
    have hgateway : d.gateway name = some a := ha
    rw [Deployment.gateway, hworkers] at hgateway
    split at hgateway
    · exact ⟨_, (Option.some.inj hgateway).symm⟩
    · cases hgateway
  listed _ _ h := by cases h
  announced _ _ _ _ _ h := by cases h
  dispatched _ _ h := by cases h
  tracked name a t entry ha hentry := by
    rcases System.start_gateway ha with ⟨session, rfl⟩ | ⟨registration, rfl⟩ <;> cases hentry

namespace Served

/-- A turn of a grain finds the gateways it dispatches to listed, or registers them. -/
theorem listed_turn (h : Served s) {message : GrainMessage} (hmem : (queue, message) ∈ s.toGrain) {y : QueueGrain}
    (hy : y.account name = message.adjust name ((s.grains queue).account name))
    (hsome : (y.account name).isSome = true) : s.Serves name queue := by
  cases haccount : (s.grains queue).account name with
  | some account => exact h.listed queue name (by rw [haccount]; rfl)
  | none =>
    rw [haccount] at hy
    rcases message.adjust_none name with hnone | ⟨announced, weight, batchTypes, rfl, -⟩
    · rw [hy, hnone] at hsome
      cases hsome
    · exact h.announced queue name announced weight batchTypes hmem

theorem moves (h : Served s) (hsolvent : Solvent s) (hmove : Moves settings s e s') : Served s' where
  streams name a' ha' := by
    obtain ⟨a, ha, -⟩ := hmove.gateway_after ha'
    obtain ⟨g, rfl⟩ := h.streams name a ha
    obtain ⟨g', hg', -⟩ := hmove.session ha
    exact ⟨g', Option.some.inj (ha'.symm.trans hg')⟩
  listed queue name hsome := by
    refine hmove.serves ?_
    rcases hmove.grain_after queue with hsame | ⟨index, turn, message, rest, -, htake, hturn⟩
    · exact h.listed queue name (hsame ▸ hsome)
    · obtain ⟨y, hy, hspends⟩ :=
        QueueGrain.receive_spends settings turn message name (hsolvent.recorded.listed queue)
      refine h.listed_turn (taken_mem htake) hy ?_
      obtain ⟨left, hleft⟩ := Option.isSome_iff_exists.mp (hturn ▸ hsome)
      obtain ⟨had, hhad, -⟩ := hspends.kept left hleft
      rw [hhad]
      rfl
  announced queue name capacity weight batchTypes hmem := by
    refine hmove.serves ?_
    rcases hmove.announced hsolvent hmem with hold | ⟨a, message, ha, hmessage, hannounces⟩
    · exact h.announced queue name capacity weight batchTypes hold
    · obtain ⟨g, rfl⟩ := h.streams name a ha
      exact ⟨g, ha, List.contains_iff_mem.mpr hannounces.1⟩
  dispatched name message hmem task htask := by
    refine hmove.serves ?_
    rcases hmove.dispatch_after hmem with hold | hnone | ⟨index, turn, queue, received, rest, -, htake, -, hemitted⟩
    · exact h.dispatched name message hold task htask
    · rw [GatewayMessage.dispatched_of_not_executes hnone] at htask
      cases htask
    · have hne := List.ne_nil_of_mem htask
      obtain ⟨y, hy, hspends⟩ := QueueGrain.receive_spends settings turn received name (hsolvent.recorded.listed queue)
      have hserves := h.listed_turn (taken_mem htake) hy
        (dispatched_listed hspends hemitted hne)
      rcases emitted_dispatch hemitted with ⟨leaseID, expiresAt, error, tasks, rfl, other, hother, rfl⟩ |
        ⟨leaseID, expiresAt, group, type, error, tasks, rfl, -, rfl⟩ | ⟨taskID, rfl⟩
      · rw [List.mem_singleton.mp htask, (hsolvent.recorded.flow.cycle _ _ _ _ _ (taken_mem htake)).2 other hother]
        exact hserves
      · rw [(hsolvent.recorded.flow.group _ _ _ _ _ _ _ (taken_mem htake)).2 task htask]
        exact hserves
      · cases htask
  tracked name a' t entry ha' hentry := by
    refine hmove.serves ?_
    obtain ⟨a, ha, rfl | ⟨index, turn, message, rest, -, htake, -, -, rfl⟩ | ⟨turn, order, reply, -, -, -, rfl⟩⟩ :=
      hmove.gateway_after ha'
    · exact h.tracked name a' t entry ha hentry
    · rcases GatewayActor.receive_records hentry with ⟨-, old, hold, hsame⟩ | ⟨task, htask, rfl, rfl⟩
      · exact hsame.queue ▸ h.tracked name a t old ha hold
      · exact h.dispatched name message (taken_mem htake) task htask
    · obtain ⟨old, hold, hsame⟩ := (GatewayActor.resume_keeps reply).records t entry hentry
      exact hsame.queue ▸ h.tracked name a t old ha hold

end Served

/-- A lease cycle on its way to its grain was not dispatched yet. -/
def System.Undispatched (s : System) : Prop :=
  ∀ queue leaseID expiresAt error tasks,
    (queue, GrainMessage.leaseCycleCompleted leaseID expiresAt error tasks) ∈ s.toGrain →
      (∀ d ∈ s.deliveries, d.leaseID ≠ leaseID) ∧
        ∀ name task expires, (name, GatewayMessage.executeTask task leaseID expires) ∉ s.toGateway

theorem undispatched_start (d : Deployment) : (System.start d).Undispatched := by
  intro _ _ _ _ _ h
  cases h

/-- A delivery that starts is the dispatch of a message under its lease. -/
theorem delivery_message {target : String} {sent : Bool} {d : Delivery} (h : message.delivery target sent = some d) :
    (d.batch = false ∧ ∃ task expires, message = .executeTask task d.leaseID expires) ∨
      (d.batch = true ∧ ∃ tasks expires group, message = .executeBatch tasks d.leaseID expires group) := by
  cases message with
  | executeTask task leaseID expires =>
    cases h
    exact .inl ⟨rfl, task, expires, rfl⟩
  | executeBatch tasks leaseID expires group =>
    cases tasks with
    | nil => cases h
    | cons =>
      cases h
      exact .inr ⟨rfl, _, expires, group, rfl⟩
  | _ => cases h

variable {leaseID : String} {tasks : List TaskEnvelope} {expires : Time}

/-- A dispatched batch mentions its lease. -/
theorem mentions_pos_of_batch {group : String}
    (hmem : (name, GatewayMessage.executeBatch tasks leaseID expires group) ∈ s.toGateway) :
    0 < s.mentions true leaseID := by
  have hle := le_weigh_of_mem (fun p : String × GatewayMessage => GatewayMessage.mentions_nonneg true leaseID p.2) hmem
  have hgrain := weigh_nonneg s.toGrain fun p _ => GrainMessage.mentions_nonneg true leaseID p.2
  have hdelivery : 0 ≤ weigh (Delivery.mentions true leaseID) s.deliveries := weigh_nonneg _ fun _ _ => indicator_nonneg _
  rw [show GatewayMessage.mentions true leaseID (.executeBatch tasks leaseID expires group) = 1 from
    indicator_true ⟨rfl, rfl⟩] at hle
  rw [System.mentions]
  omega

/-- A lease handed out for cycles is dispatched in no batch. -/
theorem LeaseFlow.cycle_not_batch (hflow : LeaseFlow s) {error : String} {expiresAt : Time}
    (hcycle : (queue, GrainMessage.leaseCycleCompleted leaseID expiresAt error tasks) ∈ s.toGrain)
    {members : List TaskEnvelope} {group : String} :
    (name, GatewayMessage.executeBatch members leaseID expires group) ∉ s.toGateway := by
  intro hbatch
  have hfalse := s.grain_le_mentions hcycle false leaseID
  rw [show GrainMessage.mentions false leaseID (.leaseCycleCompleted leaseID expiresAt error tasks) = 1 from
    indicator_true ⟨rfl, rfl⟩] at hfalse
  have hkinds := hflow.kinds leaseID (by omega)
  have htrue := mentions_pos_of_batch hbatch
  omega

theorem System.Undispatched.moves (h : s.Undispatched) (hflow : LeaseFlow s) (hone : ∀ queue, OneCycle queue s)
    (hmove : Moves settings s e s') : s'.Undispatched := by
  intro queue leaseID expiresAt error tasks hmem
  rcases hmove.cycle_after hmem with hold | ⟨index, now, order, limit, rest, rfl, htake, -, rfl⟩
  · obtain ⟨hdeliveries, hmessages⟩ := h queue leaseID expiresAt error tasks hold
    refine ⟨fun d' hd' hlease => ?_, fun name task expires hdispatch => ?_⟩
    · rcases hmove.delivery_before hd' with ⟨d, hd, hcore⟩ | ⟨index, turn, target, message, rest, sent, rfl, htake, hd⟩
      · exact hdeliveries d hd ((core_fields hcore).2.2.1.symm.trans hlease)
      · rcases delivery_message hd with ⟨-, task, expires, rfl⟩ | ⟨-, members, expires, group, rfl⟩
        · exact hmessages target task expires (hlease ▸ taken_mem htake)
        · exact hflow.cycle_not_batch hold (hlease ▸ taken_mem htake)
    · rcases hmove.dispatch_after hdispatch with hold' | hnone | ⟨index, turn, other, message, rest, rfl, htake, rfl, hemitted⟩
      · exact hmessages name task expires hold'
      · cases hnone
      · -- the dispatch completes the one lease cycle of its queue
        rcases emitted_dispatch hemitted with ⟨_, _, _, _, rfl, _, -, heq⟩ | ⟨_, _, _, _, _, _, -, -, heq⟩ | ⟨_, heq⟩ <;>
          cases heq
        obtain rfl : other = queue := hflow.queue_unique (hflow.cycle _ _ _ _ _ (taken_mem htake)).1
          (hflow.cycle _ _ _ _ _ hold).1
        cases (hone other).only htake rfl hmem
  · have hunused := hflow.pipe_unused htake rfl
    refine ⟨fun d hd hlease => hunused d.queue (hlease ▸ hflow.delivery d hd), fun name task expires hdispatch => ?_⟩
    exact hunused task.queue ((hflow.dispatch name _ hdispatch).1 task (List.mem_singleton_self _))

/-- The leases of the batch members a piece of work settles. -/
def GatewayWork.groupLeases : GatewayWork → List String
  | .settleMember entry _ _ => [entry.leaseID]
  | .ackBatch items _ _ _ => items.map AckItem.leaseID
  | _ => []

/-- A single task is dispatched only by a gateway that tracks no batch with it as a member. -/
def System.Apart (s : System) (e : Event) : Prop :=
  (match e with
    | .gateway index _ =>
      match takeAt s.toGateway index with
      | some ((name, .executeTask task _ _), _) =>
        match s.gateways name with
        | some (.stream g) => g.batches.keys.all fun leaseID => !((g.batches.lookup leaseID).getD []).contains task.id
        | _ => true
      | _ => true
    | _ => true) = true

instance (s : System) (e : Event) : Decidable (s.Apart e) := inferInstanceAs (Decidable (_ = true))

/-- What the turns of the gateways settle: single deliveries, or members of batches under the leases of
batches. -/
structure Settling (s : System) : Prop where
  single : ∀ name g entry result cause, s.gateways name = some (.stream g) →
    GatewayWork.settle entry result cause ∈ g.turn → s.Serves name entry.queue ∧
      (entry.leaseID, entry.queue) ∈ s.leases ∧ ∃ d ∈ s.deliveries, d.leaseID = entry.leaseID
  group : ∀ name g work, s.gateways name = some (.stream g) → work ∈ g.turn →
    ∀ leaseID ∈ work.groupLeases, s.BatchLease leaseID
  members : ∀ name g leaseID ids t entry, s.gateways name = some (.stream g) → g.batches.lookup leaseID = some ids →
    t ∈ ids → g.inflight.lookup t = some entry → s.BatchLease entry.leaseID

theorem settling_start (d : Deployment) : Settling (System.start d) := by
  have hempty : ∀ name g, (System.start d).gateways name = some (.stream g) → g.turn = [] ∧ g.batches = ∅ := by
    intro name g hg
    rcases System.start_gateway hg with ⟨session, heq⟩ | ⟨registration, heq⟩ <;> cases heq
    exact ⟨rfl, rfl⟩
  refine ⟨fun name g _ _ _ hg hwork => ?_, fun name g _ hg hwork => ?_, fun name g _ _ _ _ hg hids => ?_⟩
  · rw [(hempty name g hg).1] at hwork
    cases hwork
  · rw [(hempty name g hg).1] at hwork
    cases hwork
  · rw [(hempty name g hg).2] at hids
    cases hids

theorem Moves.batchLease (hmove : Moves settings s e s') (h : s.BatchLease leaseID) : s'.BatchLease leaseID := by
  obtain ⟨d, hd, hbatch, rfl⟩ := h
  obtain ⟨d', hd', hcore⟩ := hmove.delivery_stays hd
  obtain ⟨-, -, hlease, -, hbatch'⟩ := core_fields hcore
  exact ⟨d', hd', hbatch'.trans hbatch, hlease⟩

namespace Settling

theorem routed_batch (h : Settling s) (hg : s.gateways name = some (.stream g)) {results : List Result}
    {first entry : InflightTask} {t : String} (hrouted : g.routed results first t)
    (hentry : g.inflight.lookup t = some entry) : s.BatchLease entry.leaseID := by
  cases hids : g.batches.lookup first.leaseID with
  | none =>
    have hmem := hrouted.2
    rw [hids] at hmem
    cases hmem
  | some ids =>
    have hmem := hrouted.2
    rw [hids] at hmem
    exact h.members name g first.leaseID ids t entry hg hids hmem hentry

theorem moves (h : Settling s) (hserved : Served s) (hrecorded : Recorded s) (hmove : Moves settings s e s')
    (hapart : s.Apart e) : Settling s' := by
  have hsingle : ∀ {name : String} {entry : InflightTask}, (s.Serves name entry.queue ∧
      (entry.leaseID, entry.queue) ∈ s.leases ∧ ∃ d ∈ s.deliveries, d.leaseID = entry.leaseID) →
      s'.Serves name entry.queue ∧ (entry.leaseID, entry.queue) ∈ s'.leases ∧
        ∃ d ∈ s'.deliveries, d.leaseID = entry.leaseID := by
    rintro name entry ⟨hserves, hlease, d, hd, hid⟩
    obtain ⟨d', hd', hcore⟩ := hmove.delivery_stays hd
    exact ⟨hmove.serves hserves, hmove.leases hlease, d', hd', (core_fields hcore).2.2.1.trans hid⟩
  -- a gateway after the step, from the one before
  have hbefore : ∀ {name : String} {g' : Gateway}, s'.gateways name = some (.stream g') →
      ∃ g, s.gateways name = some (.stream g) ∧ (g' = g ∨
        (∃ index turn message rest, e = .gateway index turn ∧
          takeAt s.toGateway index = some ((name, message), rest) ∧ g.turn = [] ∧
          s' = { s with toGateway := rest }.gatewayTurn settings turn name message (.stream g) ∧
          g' = (g.receive { turn with delivery := s.deliveries.length } message).1) ∨
        ∃ turn reply, .stream g' = ((GatewayActor.stream g).resume settings turn reply).1) := by
    intro name g' hg'
    obtain ⟨a, ha, heq | ⟨index, turn, message, rest, he, htake, hidle, hs', heq⟩ |
      ⟨turn, order, reply, -, -, -, heq⟩⟩ := hmove.gateway_after hg' <;> obtain ⟨g, rfl⟩ := hserved.streams name a ha
    · exact ⟨g, ha, .inl (GatewayActor.stream.inj heq)⟩
    · have hturn : g.turn = [] := by simpa [GatewayActor.busy] using hidle
      exact ⟨g, ha, .inr (.inl ⟨index, turn, message, rest, he, htake, hturn, hs', GatewayActor.stream.inj heq⟩)⟩
    · exact ⟨g, ha, .inr (.inr ⟨turn, reply, heq⟩)⟩
  have hkept : ∀ {g g' : Gateway} {turn : GatewayTurn} {reply : Reply},
      GatewayActor.stream g' = ((GatewayActor.stream g).resume settings turn reply).1 →
      ∀ work ∈ g'.turn, work ∈ g.turn := by
    intro g g' turn reply heq
    obtain ⟨g₁, hg₁, hwork⟩ := GatewayActor.resume_work_stream heq.symm
    cases hg₁
    exact hwork
  refine ⟨fun name g' entry result cause hg' hwork => ?_, fun name g' work hg' hwork leaseID hlease => ?_,
    fun name g' leaseID ids t entry hg' hids ht hentry => ?_⟩
  · obtain ⟨g, hg, rfl | ⟨index, turn, message, rest, -, -, hidle, -, rfl⟩ | ⟨turn, reply, heq⟩⟩ := hbefore hg'
    · exact hsingle (h.single name g' entry result cause hg hwork)
    · cases g.receive_starts hwork with
      | kept hold =>
        rw [hidle] at hold
        cases hold
      | settle hentry =>
        obtain ⟨d, hd, -, hid, -⟩ := hrecorded.delivered.tasks name _ _ entry hg hentry
        exact hsingle ⟨hserved.tracked name _ _ entry hg hentry, hrecorded.leased name _ _ entry hg hentry, d, hd, hid⟩
    · exact hsingle (h.single name g entry result cause hg (hkept heq _ hwork))
  · obtain ⟨g, hg, rfl | ⟨index, turn, message, rest, -, -, hidle, -, rfl⟩ | ⟨turn, reply, heq⟩⟩ := hbefore hg'
    · exact hmove.batchLease (h.group name g' work hg hwork leaseID hlease)
    · refine hmove.batchLease ?_
      cases g.receive_starts hwork with
      | kept hold =>
        rw [hidle] at hold
        cases hold
      | settleMember hrouted hentry =>
        rw [List.mem_singleton.mp hlease]
        exact h.routed_batch hg hrouted hentry
      | ackBatch hitems =>
        obtain ⟨item, hitem, rfl⟩ := List.mem_map.mp hlease
        obtain ⟨hrouted, entry, hentry, hid⟩ := hitems item hitem
        exact hid ▸ h.routed_batch hg hrouted hentry
      | _ => cases hlease
    · exact hmove.batchLease (h.group name g work hg (hkept heq _ hwork) leaseID hlease)
  · obtain ⟨g, hg, rfl | ⟨index, turn, message, rest, rfl, htake, hidle, hs', rfl⟩ | ⟨turn, reply, heq⟩⟩ := hbefore hg'
    · exact hmove.batchLease (h.members name g' leaseID ids t entry hg hids ht hentry)
    · -- a batch just dispatched is in the log, and a single task is a member of no tracked batch
      rcases @GatewayActor.receive_records t settings { turn with delivery := s.deliveries.length } message (.stream g)
        entry hentry with ⟨hnot, old, hold, hsame⟩ | ⟨task, htask, rfl, rfl⟩
      · rcases @GatewayActor.receive_members leaseID settings { turn with delivery := s.deliveries.length } message
          (.stream g) ids name hids with hids' | ⟨d, hd, -, -, htasks⟩
        · exact hsame.leaseID ▸ hmove.batchLease (h.members name g leaseID ids t old hg hids' ht hold)
        · rw [← htasks, (delivery_fields hd).2.2.1] at ht
          exact absurd ht hnot
      · rcases GatewayActor.dispatched_or_delivery message name (GatewayActor.sends turn (.stream g)) with hnone | ⟨d, hd⟩
        · rw [hnone] at htask
          cases htask
        · rcases delivery_message hd with ⟨-, single, expires, rfl⟩ | ⟨hbatch, members, expires, group, rfl⟩
          · obtain rfl := List.mem_singleton.mp htask
            rcases @GatewayActor.receive_members leaseID settings { turn with delivery := s.deliveries.length }
              (.executeTask task d.leaseID expires) (.stream g) ids name hids with hids' | ⟨d', hd', hbatch, -⟩
            · have hids' : g.batches.lookup leaseID = some ids := hids'
              have hkey : leaseID ∈ g.batches.keys := AList.mem_keys.mp (AList.lookup_isSome.mp (by rw [hids']; rfl))
              simp only [System.Apart, htake, hg, List.all_eq_true] at hapart
              have hmember := hapart leaseID hkey
              rw [hids'] at hmember
              simp [ht] at hmember
            · cases hd'
              cases hbatch
          · exact ⟨d, hs' ▸ dispatch_logged hd, hbatch, rfl⟩
    · have hkeeps := @GatewayActor.resume_keeps settings turn (.stream g) reply
      rw [← heq] at hkeeps
      obtain ⟨old, hold, hsame⟩ := hkeeps.records t entry hentry
      exact hsame.leaseID ▸ hmove.batchLease
        (h.members name g leaseID ids t old hg (hkeeps.members leaseID ids hids) ht hold)

end Settling

/-- A place that mentions a lease of batches. -/
theorem System.mentions_group (h : 0 < s.mentions true leaseID) :
    (∃ of expiresAt group type error tasks,
        (of, GrainMessage.groupLeaseCompleted leaseID expiresAt group type error tasks) ∈ s.toGrain) ∨
      (∃ target tasks expires group, (target, GatewayMessage.executeBatch tasks leaseID expires group) ∈ s.toGateway) ∨
      s.BatchLease leaseID := by
  have hcases : 0 < weigh (fun p : String × GrainMessage => p.2.mentions true leaseID) s.toGrain ∨
      0 < weigh (fun p : String × GatewayMessage => p.2.mentions true leaseID) s.toGateway ∨
      0 < weigh (Delivery.mentions true leaseID) s.deliveries := by
    rw [System.mentions] at h
    omega
  rcases hcases with hpos | hpos | hpos
  · obtain ⟨⟨of, message⟩, hmem, hm⟩ := exists_mem_of_weigh_pos hpos
    cases message with
    | leaseCycleCompleted => cases (indicator_pos_iff.mp hm).1
    | groupLeaseCompleted id expiresAt group type error tasks =>
      obtain ⟨-, rfl⟩ := indicator_pos_iff.mp hm
      exact .inl ⟨of, expiresAt, group, type, error, tasks, hmem⟩
    | _ => cases hm
  · obtain ⟨⟨target, message⟩, hmem, hm⟩ := exists_mem_of_weigh_pos hpos
    cases message with
    | executeTask => cases (indicator_pos_iff.mp hm).1
    | executeBatch tasks id expires group =>
      obtain ⟨-, rfl⟩ := indicator_pos_iff.mp hm
      exact .inr (.inl ⟨target, tasks, expires, group, hmem⟩)
    | _ => cases hm
  · obtain ⟨d, hd, hm⟩ := exists_mem_of_weigh_pos hpos
    obtain ⟨hbatch, hlease⟩ := indicator_pos_iff.mp hm
    exact .inr (.inr ⟨d, hd, hbatch, hlease⟩)

theorem System.BatchLease.mentions (h : s.BatchLease leaseID) : 0 < s.mentions true leaseID := by
  obtain ⟨d, hd, hbatch, rfl⟩ := h
  exact hbatch ▸ System.mentions_pos_of_delivery hd

/-- A lease that was handed out before a step and is that of a batch after it was so before. -/
theorem Moves.mentions_before (hmove : Moves settings s e s') (hflow : LeaseFlow s)
    (hleased : (leaseID, queue) ∈ s.leases) (h : 0 < s'.mentions true leaseID) : 0 < s.mentions true leaseID := by
  have hgrain : ∀ {of group type error : String} {expiresAt : Time} {tasks : List TaskEnvelope},
      (of, GrainMessage.groupLeaseCompleted leaseID expiresAt group type error tasks) ∈ s.toGrain →
      0 < s.mentions true leaseID := fun hmem =>
    Int.lt_of_lt_of_le (by rw [show GrainMessage.mentions true leaseID (.groupLeaseCompleted leaseID _ _ _ _ _) = 1 from
      indicator_true ⟨rfl, rfl⟩]; exact one_pos) (s.grain_le_mentions hmem true leaseID)
  rcases System.mentions_group h with ⟨of, expiresAt, group, type, error, tasks, hmem⟩ |
    ⟨target, tasks, expires, group, hmem⟩ | ⟨d', hd', hbatch, rfl⟩
  · rcases hmove.group_after hmem with hold | ⟨index, now, order, limit, rest, -, htake, -⟩
    · exact hgrain hold
    · exact absurd hleased (hflow.pipe_unused htake rfl queue)
  · rcases hmove.dispatch_after hmem with hold | hnone | ⟨index, turn, of, message, rest, -, htake, -, hemitted⟩
    · exact mentions_pos_of_batch hold
    · cases hnone
    · rcases emitted_dispatch hemitted with ⟨_, _, _, _, -, _, -, heq⟩ | ⟨_, _, _, _, _, _, rfl, -, heq⟩ | ⟨_, heq⟩
      · cases heq
      · cases heq
        exact hgrain (taken_mem htake)
      · cases heq
  · rcases hmove.delivery_before hd' with ⟨d, hd, hcore⟩ | ⟨index, turn, target, message, rest, sent, -, htake, hd⟩
    · obtain ⟨-, -, hlease, -, hbatch'⟩ := core_fields hcore
      rw [hlease]
      exact System.BatchLease.mentions ⟨d, hd, hbatch'.symm.trans hbatch, rfl⟩
    · rcases delivery_message hd with ⟨hsingle, -⟩ | ⟨-, tasks, expires, group, rfl⟩
      · cases hsingle.symm.trans hbatch
      · exact mentions_pos_of_batch (taken_mem htake)

end Conveyor
