import Conveyor.Actors.Leases
import Conveyor.Actors.Work

/-!
# Answers and the deliveries they belong to

Worker frames and webhook responses name tasks, not leases, and a gateway applies an answer to
whatever record it has of the task. `Attributed` follows the answers of one gateway from the delivery
they are for, through the mailbox and the turn, to the transitions they cause. It is kept as long as no
task is dispatched to the gateway while the gateway awaits an answer for an earlier delivery of it.
-/

namespace Conveyor

open Lib

/-- The message reports on the delivery. -/
def GatewayMessage.Reports (d : Delivery) : GatewayMessage → Prop
  | .result r _ => r.taskId ∈ d.tasks
  | .batchResult rs _ => d.batch = true ∧ ∀ r ∈ rs, r.taskId ∈ d.tasks
  | .webhookDelivery taskID _ _ => taskID ∈ d.tasks
  | .webhookBatchDelivery leaseID _ _ _ => d.batch = true ∧ d.leaseID = leaseID
  | _ => True

/-- The environment sends the gateway no answer of its own accord. -/
def Event.Solicited (name : String) : Event → Prop
  | .tellGateway other message => other = name → message.answer? = none
  | _ => True

instance (name : String) (e : Event) : Decidable (e.Solicited name) :=
  match e with
  | .tellGateway other message => inferInstanceAs (Decidable (other = name → message.answer? = none))
  | .broker _ | .tellGrain .. | .grain .. | .gateway .. | .resume .. | .pipe .. | .answer .. =>
    isTrue trivial

variable {s : System} {name : String} {number : Nat} {d : Delivery}

namespace System

/-- Whether an answer to the delivery waits in the gateway's mailbox. -/
def answered (s : System) (name : String) (number : Nat) : Bool :=
  s.toGateway.any fun p => p.1 == name && p.2.answer? == some (some number)

/-- Whether the gateway has delivered the task and the answer is not given or not handled yet. -/
def awaits (s : System) (name t : String) : Bool :=
  (List.range s.deliveries.length).any fun number =>
    s.deliveries[number]?.any fun d =>
      d.gateway == name && d.tasks.contains t && (d.open_ || s.answered name number)

/-- The message an event has the gateway handle. -/
def handled (s : System) (name : String) : Event → Option GatewayMessage
  | .gateway index _ =>
    match takeAt s.toGateway index with
    | some ((other, message), _) => if other = name then some message else none
    | none => none
  | _ => none

/-- No dispatch of a task is handled while the gateway awaits an answer for the task. -/
def DispatchesAnswered (s : System) (name : String) (e : Event) : Prop :=
  (s.handled name e).all (fun message => message.dispatched.all fun task => !s.awaits name task.id) = true

instance (s : System) (name : String) (e : Event) : Decidable (s.DispatchesAnswered name e) :=
  inferInstanceAs (Decidable (_ = true))

theorem answered_iff :
    s.answered name number = true ↔
      ∃ message, (name, message) ∈ s.toGateway ∧ message.answer? = some (some number) := by
  simp only [answered, List.any_eq_true, Bool.and_eq_true, beq_iff_eq, Prod.exists]
  constructor
  · rintro ⟨other, message, hmem, rfl, hanswer⟩
    exact ⟨message, hmem, hanswer⟩
  · rintro ⟨message, hmem, hanswer⟩
    exact ⟨name, message, hmem, rfl, hanswer⟩

theorem awaits_of_pending {t : String} (hd : s.deliveries[number]? = some d) (hgateway : d.gateway = name)
    (ht : t ∈ d.tasks) (hpending : d.open_ = true ∨ s.answered name number = true) : s.awaits name t = true := by
  obtain ⟨hlt, -⟩ := List.getElem?_eq_some_iff.mp hd
  simp only [awaits, List.any_eq_true, List.mem_range]
  exact ⟨number, hlt, by simpa [hd, hgateway, ht] using hpending⟩

/-- The transition of the task under the lease is for an answer to a delivery of the task under that
lease. Transitions for no answer are allowed or not. -/
def Caused (s : System) (Free : Prop) (name : String) : Option Nat → String → String → Prop
  | some number, t, leaseID =>
    ∃ d, s.deliveries[number]? = some d ∧ d.gateway = name ∧ t ∈ d.tasks ∧ d.leaseID = leaseID
  | none, _, _ => Free

/-- The message reports on the delivery it is an answer to. -/
def Reported (s : System) (Free : Prop) (name : String) (message : GatewayMessage) :
    Option Nat → Prop
  | some number => ∃ d, s.deliveries[number]? = some d ∧ d.gateway = name ∧ message.Reports d
  | none => Free

end System

/-- The answers of a gateway's deliveries are on their way to the tasks and leases they are for. -/
structure Attributed (Free : Prop) (name : String) (s : System) : Prop where
  matching : ∀ number d a t e, s.deliveries[number]? = some d → d.gateway = name →
    (d.open_ = true ∨ s.answered name number = true) → t ∈ d.tasks → s.gateways name = some a →
      a.inflight.lookup t = some e → e.leaseID = d.leaseID
  reports : ∀ message cause, (name, message) ∈ s.toGateway → message.answer? = some cause →
    s.Reported Free name message cause
  settles : ∀ a cause t leaseID, s.gateways name = some a → a.Settles cause t leaseID →
    s.Caused Free name cause t leaseID
  batches : ∀ a leaseID ids, s.gateways name = some a → a.members leaseID = some ids →
    ∃ d ∈ s.deliveries, d.batch = true ∧ d.leaseID = leaseID ∧ d.tasks = ids
  applied : ∀ r ∈ s.applied, r.gateway = name → s.Caused Free name r.cause r.taskID r.leaseID

variable {cause : Option Nat} {settings : Settings}

section Messages

variable {a : GatewayActor} {message : GatewayMessage}

/-- What the environment tells a gateway answers no delivery. -/
theorem admits_answer (h : a.admits message = true) (hanswer : message.answer? = some cause) : cause = none := by
  cases message with
  | result r answers =>
    cases answers with
    | none => exact (Option.some.inj hanswer).symm
    | some number => cases a <;> cases h
  | batchResult rs answers =>
    cases answers with
    | none => exact (Option.some.inj hanswer).symm
    | some number => cases a <;> cases h
  | leaseResult => exact (Option.some.inj hanswer).symm
  | webhookDelivery => cases a <;> cases h
  | webhookBatchDelivery => cases a <;> cases h
  | _ => cases hanswer

/-- The message an answer becomes is an answer to its delivery and reports on it. -/
theorem report_answer {answer : Answer} (h : d.report number a answer = some message) :
    message.answer? = some (some number) ∧ message.Reports d := by
  cases a with
  | stream g =>
    cases answer with
    | result =>
      simp only [Delivery.report] at h
      split at h
      · rename_i taskID hbatch htasks
        split at h
        · cases h
          exact ⟨rfl, by simp [GatewayMessage.Reports, htasks]⟩
        · cases h
      · cases h
    | batchResult results =>
      simp only [Delivery.report] at h
      split at h
      · rename_i hall
        cases h
        simp only [Bool.and_eq_true, List.all_eq_true, List.contains_iff_mem] at hall
        exact ⟨rfl, hall.1.1, hall.1.2⟩
      · cases h
    | response answer => cases h
    | responses => cases h
  | webhook w =>
    cases answer with
    | response answer =>
      simp only [Delivery.report] at h
      split at h
      · rename_i taskID hbatch htasks
        split at h
        · cases h
        · cases h
          exact ⟨rfl, by simp [GatewayMessage.Reports, htasks]⟩
      · cases h
    | responses =>
      simp only [Delivery.report] at h
      split at h
      · cases h
      · rename_i hbatch
        cases h
        simp only [Bool.or_eq_true, Bool.not_eq_true', not_or, Bool.not_eq_false] at hbatch
        exact ⟨rfl, hbatch.1, rfl⟩
    | result => cases h
    | batchResult results => cases h

/-- The delivery of a dispatch: whose it is, under which lease, and of which tasks. -/
theorem delivery_fields {sent : Bool} (h : message.delivery name sent = some d) :
    d.gateway = name ∧ d.leaseID = message.lease ∧ d.tasks = message.dispatched.map TaskEnvelope.id ∧ message.answer? =
      none := by
  cases message with
  | executeTask =>
    cases h
    exact ⟨rfl, rfl, rfl, rfl⟩
  | executeBatch tasks leaseID expiresAt group =>
    cases tasks with
    | nil => cases h
    | cons task rest =>
      cases h
      exact ⟨rfl, rfl, rfl, rfl⟩
  | _ => cases h

/-- An answer in the mailbox after a step was there before, came from outside, or answers an open delivery. -/
theorem Moves.answer_after {s' : System} {e : Event} (hmove : Moves settings s e s')
    (hmem : (name, message) ∈ s'.toGateway) (hanswer : message.answer? = some cause) :
    (name, message) ∈ s.toGateway ∨ (cause = none ∧ e = .tellGateway name message) ∨ ∃ number d, cause = some number ∧
      s.deliveries[number]? = some d ∧ d.gateway = name ∧ d.open_ = true ∧ message.Reports d := by
  rcases hmove.toGateway_after hmem with hold | ⟨ha, hadmits⟩ | ⟨htake, hnew⟩ | _ | ⟨hd, hopen, ha, hreport⟩
  · exact .inl hold
  · exact .inr (.inl ⟨admits_answer hadmits hanswer, rfl⟩)
  · rcases emitted_dispatch hnew with ⟨_, _, _, _, -, task, -, rfl⟩ | ⟨_, _, _, _, _, _, -, -, rfl⟩ |
      ⟨taskID, rfl⟩ <;> cases hanswer
  · cases hanswer
  · obtain ⟨hnumber, hreports⟩ := report_answer hreport
    exact .inr (.inr ⟨_, _, Option.some.inj (hanswer.symm.trans hnumber), hd, rfl, hopen, hreports⟩)

end Messages

namespace Attributed

variable {Free : Prop} {name : String} {settings : Settings} {s s' : System} {e : Event}
  {a : GatewayActor}

/-- A cause stays one while deliveries are added, answered and aborted. -/
theorem caused_mono (h : DeliveriesKept s.deliveries s'.deliveries) {t leaseID : String}
    (hcaused : s.Caused Free name cause t leaseID) : s'.Caused Free name cause t leaseID := by
  cases cause with
  | none => exact hcaused
  | some number =>
    obtain ⟨d, hd, hgateway, ht, hlease⟩ := hcaused
    obtain ⟨d', hd', hcore, -⟩ := h number d hd
    obtain ⟨hgateway', -, hlease', htasks', -⟩ := core_fields hcore
    exact ⟨d', hd', hgateway'.trans hgateway, htasks' ▸ ht, hlease'.trans hlease⟩

variable {message : GatewayMessage}

/-- A report stays one while deliveries are added, answered and aborted. -/
theorem reported_mono (h : DeliveriesKept s.deliveries s'.deliveries) (hreported : s.Reported Free name message cause) :
    s'.Reported Free name message cause := by
  cases cause with
  | none => exact hreported
  | some number =>
    obtain ⟨d, hd, hgateway, hreports⟩ := hreported
    obtain ⟨d', hd', hcore, -⟩ := h number d hd
    obtain ⟨hgateway', -, hlease', htasks', hbatch'⟩ := core_fields hcore
    refine ⟨d', hd', hgateway'.trans hgateway, ?_⟩
    cases message <;> simp only [GatewayMessage.Reports] at hreports ⊢ <;>
      first | trivial | simpa only [hlease', htasks', hbatch'] using hreports

/-- What a gateway takes a message to answer is what the message is an answer for. -/
theorem takes (h : Attributed Free name s) (hflow : LeaseFlow s) (ha : s.gateways name = some a)
    (hmem : (name, message) ∈ s.toGateway) {t leaseID : String}
    (htakes : a.Takes message cause t leaseID) : s.Caused Free name cause t leaseID := by
  obtain ⟨hanswer, hconcerns, entry, hentry, rfl⟩ := htakes
  have hreported := h.reports message cause hmem hanswer
  cases cause with
  | none => exact hreported
  | some number =>
    obtain ⟨d, hd, hgateway, hreports⟩ := hreported
    have hanswered := System.answered_iff.mpr ⟨message, hmem, hanswer⟩
    have hmatch := fun t e => h.matching number d a t e hd hgateway (.inr hanswered)
    have hmemd := List.mem_of_getElem? hd
    -- a batch delivery is found again through its lease
    have hbatch : d.batch = true → ∀ ids, a.members d.leaseID = some ids → ids = d.tasks := by
      intro hbatch ids hids
      obtain ⟨d', hd', hbatch', hlease, htasks⟩ := h.batches a d.leaseID ids ha hids
      rw [← htasks, hflow.batch_unique hd' hmemd hbatch' hbatch hlease]
    have ht : t ∈ d.tasks := by
      cases message with
      | result r _ => exact hconcerns ▸ hreports
      | batchResult rs _ =>
        obtain ⟨r, hr, first, ids, hfirst, hids, ht⟩ := hconcerns
        rw [hmatch r.taskId first (hreports.2 r hr) ha hfirst] at hids
        exact hbatch hreports.1 ids hids ▸ ht
      | webhookDelivery taskID _ _ => exact hconcerns ▸ hreports
      | webhookBatchDelivery L _ _ _ =>
        obtain ⟨ids, hids, ht⟩ := hconcerns
        rw [← hreports.2] at hids
        exact hbatch hreports.1 ids hids ▸ ht
      | leaseResult => cases hanswer
      | _ => cases hconcerns
    exact ⟨d, hd, hgateway, ht, (hmatch t entry ht ha hentry).symm⟩

/-- A delivery that is still to be answered, or whose answer is waiting, was so before the step. -/
theorem pending_before (hmove : Moves settings s e s') {d' : Delivery}
    (hd : s.deliveries[number]? = some d) (hopen : d'.open_ = true → d.open_ = true)
    (h : d'.open_ = true ∨ s'.answered name number = true) : d.open_ = true ∨ s.answered name number = true := by
  refine h.elim (fun ho => .inl (hopen ho)) fun hanswered => ?_
  obtain ⟨message, hmem, hanswer⟩ := System.answered_iff.mp hanswered
  rcases hmove.answer_after hmem hanswer with hold | ⟨hnone, -⟩ | ⟨n, d₁, hn, hd₁, -, ho, -⟩
  · exact .inr (System.answered_iff.mpr ⟨message, hold, hanswer⟩)
  · cases hnone
  · cases hn
    exact .inl (Option.some.inj (hd₁.symm.trans hd) ▸ ho)

/-- The records of the gateway are under the leases of the deliveries it awaits answers for. The new
delivery of a dispatch is matched by the records it leaves, and no earlier one of its tasks is awaited. -/
theorem matching_moves (h : Attributed Free name s) (hmove : Moves settings s e s')
    (hanswered : s.DispatchesAnswered name e) {d' : Delivery} {a' : GatewayActor} {t : String}
    {entry : InflightTask} (hd' : s'.deliveries[number]? = some d') (hname : d'.gateway = name)
    (hpending : d'.open_ = true ∨ s'.answered name number = true) (ht : t ∈ d'.tasks) (ha' : s'.gateways name = some a')
    (hentry : a'.inflight.lookup t = some entry) : entry.leaseID = d'.leaseID := by
  rcases hmove.delivery_after hd' with ⟨d, hd, hcore, hopen⟩ |
    ⟨index, turn, message, rest, a, -, -, htake, ha, hidle, hdelivery, rfl⟩
  · obtain ⟨hname', -, hlease', htasks', -⟩ := core_fields hcore
    rw [htasks'] at ht
    have hbefore := pending_before hmove hd hopen hpending
    have hmatch := fun a e => h.matching number d a t e hd (hname'.symm.trans hname) hbefore ht
    rw [hlease']
    obtain ⟨a, ha, rfl | ⟨index, turn, message, rest, rfl, htake, -, -, rfl⟩ |
      ⟨turn, order, reply, -, -, -, rfl⟩⟩ := hmove.gateway_after ha'
    · exact hmatch _ entry ha hentry
    · rcases GatewayActor.receive_records hentry with ⟨-, old, hold, hsame⟩ | ⟨task, htask, rfl, -⟩
      · exact hsame.leaseID ▸ hmatch a old ha hold
      · simp only [System.DispatchesAnswered, System.handled, htake, if_pos, Option.all_some,
          List.all_eq_true, Bool.not_eq_true'] at hanswered
        have hawaits := System.awaits_of_pending hd (hname'.symm.trans hname) ht hbefore
        cases hawaits.symm.trans (hanswered task htask)
    · obtain ⟨old, hold, hsame⟩ := (GatewayActor.resume_keeps reply).records t entry hentry
      exact hsame.leaseID ▸ hmatch a old ha hold
  · subst hname
    obtain ⟨-, hlease, htasks, -⟩ := delivery_fields hdelivery
    simp only [System.gatewayTurn_dispatch hdelivery, Function.update_self, Option.some.injEq] at ha'
    subst ha'
    rcases GatewayActor.receive_records hentry with ⟨hnot, -⟩ | ⟨task, htask, -, rfl⟩
    · exact absurd (htasks ▸ ht) hnot
    · exact hlease.symm

/-- Every step keeps the answers with their deliveries if no task is dispatched to the gateway while
it awaits an answer for it. -/
theorem moves (h : Attributed Free name s) (hflow : LeaseFlow s) (hmove : Moves settings s e s')
    (hsolicited : Free ∨ e.Solicited name) (hanswered : s.DispatchesAnswered name e) :
    Attributed Free name s' where
  matching _ _ _ _ _ := h.matching_moves hmove hanswered
  reports message cause hmem hanswer := by
    rcases hmove.answer_after hmem hanswer with hold | ⟨rfl, rfl⟩ | ⟨number, d, rfl, hd, hname, -, hreports⟩
    · exact reported_mono hmove.deliveries (h.reports message cause hold hanswer)
    · refine hsolicited.elim id fun hnone => ?_
      rw [hnone rfl] at hanswer
      cases hanswer
    · exact reported_mono hmove.deliveries
        (show s.Reported Free name message (some number) from ⟨d, hd, hname, hreports⟩)
  settles a' cause t leaseID ha' hsettles := by
    refine caused_mono hmove.deliveries ?_
    obtain ⟨a, ha, rfl | ⟨index, turn, message, rest, -, htake, hidle, -, rfl⟩ |
      ⟨turn, order, reply, -, -, -, rfl⟩⟩ := hmove.gateway_after ha'
    · exact h.settles _ cause t leaseID ha hsettles
    · exact h.takes hflow ha (taken_mem htake) (GatewayActor.receive_settles hidle hsettles)
    · exact h.settles a cause t leaseID ha (GatewayActor.resume_settles hsettles)
  batches a' leaseID ids ha' hids := by
    have hstays : (∃ d ∈ s.deliveries, d.batch = true ∧ d.leaseID = leaseID ∧ d.tasks = ids) →
        ∃ d ∈ s'.deliveries, d.batch = true ∧ d.leaseID = leaseID ∧ d.tasks = ids := by
      rintro ⟨d, hd, hbatch, hlease, htasks⟩
      obtain ⟨d', hd', hcore⟩ := hmove.delivery_stays hd
      obtain ⟨-, -, hlease', htasks', hbatch'⟩ := core_fields hcore
      exact ⟨d', hd', hbatch'.trans hbatch, hlease'.trans hlease, htasks'.trans htasks⟩
    obtain ⟨a, ha, rfl | ⟨index, turn, message, rest, -, htake, -, hs', rfl⟩ |
      ⟨turn, order, reply, -, -, -, rfl⟩⟩ := hmove.gateway_after ha'
    · exact hstays (h.batches _ leaseID ids ha hids)
    · rcases GatewayActor.receive_members name hids with hold | ⟨d, hd, hbatch, hlease, htasks⟩
      · exact hstays (h.batches a leaseID ids ha hold)
      · exact ⟨d, hs' ▸ dispatch_logged hd, hbatch, hlease, htasks⟩
    · exact hstays (h.batches a leaseID ids ha ((GatewayActor.resume_keeps reply).members _ _ hids))
  applied r hr hname := by
    refine caused_mono hmove.deliveries ?_
    rcases hmove.applied_after hr with hold | ⟨a, ha, ⟨message, hmem, htakes⟩ | hsettles⟩
    · exact h.applied r hold hname
    · exact h.takes hflow (hname ▸ ha) (hname ▸ hmem) htakes
    · exact h.settles a _ _ _ (hname ▸ ha) hsettles

end Attributed

/-- A system that starts has delivered nothing. -/
theorem attributed_start (Free : Prop) (name : String) (d : Deployment) :
    Attributed Free name (System.start d) where
  matching _ _ _ _ _ hd := by cases hd
  reports _ _ hmem := by cases hmem
  settles a cause t leaseID ha hsettles := by
    have hidle : a.busy = false := by
      rcases System.start_gateway ha with ⟨session, rfl⟩ | ⟨registration, rfl⟩ <;> rfl
    exact absurd hsettles (GatewayActor.not_settles_of_idle hidle)
  batches a leaseID ids ha hids := by
    rcases System.start_gateway ha with ⟨session, rfl⟩ | ⟨registration, rfl⟩ <;> cases hids
  applied _ hr := by cases hr

/-- After every run whose steps meet the condition, the answers of the gateway are with their
deliveries. -/
theorem run_attributed {Free : Prop} {d : Deployment}
    {events : List Event}
    (hmeet : StepsMeet (System.step settings)
      (fun s e => (Free ∨ e.Solicited name) ∧ s.DispatchesAnswered name e) (System.start d) events) :
    Attributed Free name (run (System.step settings) (System.start d) events) := by
  have hinv := run_invariant (fun s => LeaseFlow s ∧ Attributed Free name s)
    (fun s e hstep hs => ?_) (System.start d) events hmeet ⟨leaseFlow_start d, attributed_start Free name d⟩
  · exact hinv.2
  · have hmove := step_moves settings s e
    exact ⟨hs.1.moves hmove, hs.2.moves hs.1 hmove hstep.1 hstep.2⟩

/-- A worker's result is applied to the dispatch that produced it: in every run in which the worker
only answers its dispatches, and no dispatch of a task is handled while an earlier dispatch of the task
is unanswered or its answer is waiting, every transition the gateway records was caused by the answer
to a delivery of that task under that lease. -/
theorem result_applied_to_its_dispatch (settings : Settings) (d : Deployment) (name : String)
    (events : List Event)
    (hmeet : StepsMeet (System.step settings)
      (fun s e => e.Solicited name ∧ s.DispatchesAnswered name e) (System.start d) events)
    (r : Applied) (hr : r ∈ (run (System.step settings) (System.start d) events).applied)
    (hname : r.gateway = name) :
    ∃ number delivery, r.cause = some number ∧
      (run (System.step settings) (System.start d) events).deliveries[number]? = some delivery ∧
      delivery.gateway = name ∧ r.taskID ∈ delivery.tasks ∧ delivery.leaseID = r.leaseID := by
  have hmeet' : StepsMeet (System.step settings)
      (fun s e => (False ∨ e.Solicited name) ∧ s.DispatchesAnswered name e) (System.start d) events := by
    simpa only [false_or] using hmeet
  have hcaused := (run_attributed hmeet').applied r hr hname
  cases hcause : r.cause with
  | none =>
    rw [hcause] at hcaused
    exact hcaused.elim
  | some number =>
    rw [hcause] at hcaused
    obtain ⟨delivery, hd, hgateway, ht, hlease⟩ := hcaused
    exact ⟨number, delivery, rfl, hd, hgateway, ht, hlease⟩

/-- One queue and one worker. -/
def workerDeployment : Deployment :=
  { sessions := [{ sessionID := "s", queues := ["q"], concurrency := 2
                   weights := (∅ : GoMap String Int32).insert "q" 1 }] }

/-- A task is dispatched under `L1`, its lease expires, and it is leased again under `L2`. -/
def dispatchedAgain (gateway : String) : List Event :=
  [.broker { now := 1, call := .enqueue { id := "t", queue := "q", options := { maxRetry := 3 } } },
   .tellGateway gateway .postStart, .gateway 0 { now := 1 },
   .grain 0 { now := 1, newID := "L1" }, .pipe 0 1 {}, .grain 0 { now := 1, newID := "L2" },
   .gateway 0 { now := 1 },
   .broker { now := 1 + 61 * 10 ^ 9, call := .reapExpiredLeases 10 },
   .pipe 0 (2 + 61 * 10 ^ 9) {}, .grain 0 { now := 2 + 61 * 10 ^ 9, newID := "L3" }]

/-- The first answer comes in before the second dispatch is handled. -/
def answeredInTurn (gateway : String) (answer : Answer) : List Event :=
  dispatchedAgain gateway ++
    [.answer 0 answer, .gateway 1 { now := 3 + 61 * 10 ^ 9 },
     .resume gateway { now := 3 + 61 * 10 ^ 9 } {}, .gateway 0 { now := 4 + 61 * 10 ^ 9 },
     .answer 1 answer, .gateway 0 { now := 5 + 61 * 10 ^ 9 },
     .resume gateway { now := 5 + 61 * 10 ^ 9 } {}]

/-- The second dispatch is handled before the first answer comes in. -/
def answeredLate (gateway : String) (answer : Answer) : List Event :=
  dispatchedAgain gateway ++
    [.gateway 0 { now := 3 + 61 * 10 ^ 9 }, .answer 0 answer, .gateway 0 { now := 4 + 61 * 10 ^ 9 },
     .resume gateway { now := 4 + 61 * 10 ^ 9 } {}]

theorem result_applied_to_its_dispatch_answeredInTurn :
    (run (System.step defaultSettings) (System.start workerDeployment)
        (answeredInTurn "gateway-s" (.result .success ""))).applied =
        [⟨"gateway-s", "t", "L2", some 1⟩] ∧
      ∃ number delivery, some 1 = some number ∧
        (run (System.step defaultSettings) (System.start workerDeployment)
          (answeredInTurn "gateway-s" (.result .success ""))).deliveries[number]? = some delivery ∧
        delivery.gateway = "gateway-s" ∧ "t" ∈ delivery.tasks ∧ delivery.leaseID = "L2" := by
  have happlied : (run (System.step defaultSettings) (System.start workerDeployment)
      (answeredInTurn "gateway-s" (.result .success ""))).applied = [⟨"gateway-s", "t", "L2", some 1⟩] := by decide +kernel
  exact ⟨happlied, result_applied_to_its_dispatch defaultSettings workerDeployment "gateway-s" _
    (by decide +kernel) ⟨"gateway-s", "t", "L2", some 1⟩ (happlied ▸ List.mem_singleton_self _) rfl⟩

/-- The result of the execution under the expired lease acknowledges the task under the new one. -/
theorem result_applied_to_later_dispatch :
    StepsMeet (System.step defaultSettings) (fun _ e => e.Solicited "gateway-s")
        (System.start workerDeployment) (answeredLate "gateway-s" (.result .success "")) ∧
      (run (System.step defaultSettings) (System.start workerDeployment)
        (answeredLate "gateway-s" (.result .success ""))).applied = [⟨"gateway-s", "t", "L2", some 0⟩] ∧
      (run (System.step defaultSettings) (System.start workerDeployment)
        (answeredLate "gateway-s" (.result .success ""))).deliveries.map Delivery.leaseID = ["L1", "L2"] := by
  decide +kernel

/-- A webhook response is applied to the delivery whose request it answers: in every run in which no
dispatch of a task is handled while an earlier request for the task is open or its response is
waiting, every transition and every parking that a response caused is of a task of its request, under
the lease of its request. -/
theorem response_applied_to_its_request (settings : Settings) (d : Deployment) (name : String) (events : List Event)
    (hmeet : StepsMeet (System.step settings) (fun s e => s.DispatchesAnswered name e) (System.start d) events)
    (r : Applied) (hr : r ∈ (run (System.step settings) (System.start d) events).applied) (hname : r.gateway = name)
    (number : Nat) (hcause : r.cause = some number) :
    ∃ delivery, (run (System.step settings) (System.start d) events).deliveries[number]? = some delivery ∧
      delivery.gateway = name ∧ r.taskID ∈ delivery.tasks ∧ delivery.leaseID = r.leaseID := by
  have hmeet' : StepsMeet (System.step settings)
      (fun s e => (True ∨ e.Solicited name) ∧ s.DispatchesAnswered name e) (System.start d) events := by
    simpa only [true_or, true_and] using hmeet
  have hcaused := (run_attributed hmeet').applied r hr hname
  rw [hcause] at hcaused
  exact hcaused

/-- One queue and one webhook registration. -/
def endpointDeployment : Deployment :=
  { registrations := [{ name := "w", queues := (∅ : GoMap String Int32).insert "q" 1, concurrency := 2 }] }

theorem response_applied_to_its_request_answeredInTurn :
    (run (System.step defaultSettings) (System.start endpointDeployment)
        (answeredInTurn "webhook-w" (.response { outcome := .completed }))).applied =
        [⟨"webhook-w", "t", "L2", some 1⟩] ∧
      ∃ delivery, (run (System.step defaultSettings) (System.start endpointDeployment)
          (answeredInTurn "webhook-w" (.response { outcome := .completed }))).deliveries[1]? =
          some delivery ∧
        delivery.gateway = "webhook-w" ∧ "t" ∈ delivery.tasks ∧ delivery.leaseID = "L2" := by
  have happlied : (run (System.step defaultSettings) (System.start endpointDeployment)
      (answeredInTurn "webhook-w" (.response { outcome := .completed }))).applied =
        [⟨"webhook-w", "t", "L2", some 1⟩] := by decide +kernel
  exact ⟨happlied, response_applied_to_its_request defaultSettings endpointDeployment "webhook-w" _
    (by decide +kernel) ⟨"webhook-w", "t", "L2", some 1⟩ (happlied ▸ List.mem_singleton_self _) rfl 1 rfl⟩

/-- The response to the request under the expired lease completes the task under the new one. -/
theorem response_applied_to_later_request :
    (run (System.step defaultSettings) (System.start endpointDeployment)
        (answeredLate "webhook-w" (.response { outcome := .completed }))).applied =
        [⟨"webhook-w", "t", "L2", some 0⟩] ∧
      (run (System.step defaultSettings) (System.start endpointDeployment)
        (answeredLate "webhook-w" (.response { outcome := .completed }))).deliveries.map
          Delivery.leaseID = ["L1", "L2"] := by
  decide +kernel

end Conveyor
