import Conveyor.Actors.Tracking

/-!
# What a step leaves behind

For each part of the state, where what it holds after a step comes from: it was there before, or it is
the work of the one actor, pipe or outside party whose step it was. The invariants of the system are
derived from these statements, so that each of them looks only at what concerns it.
-/

namespace Conveyor

open Lib

variable {p : String × GrainMessage}

section Emissions

variable {P : Option Nat → String → String → Prop} {name other : String} {effects : List GatewayEffect}
  {settings : Settings} {turn : GatewayTurn} {a : GatewayActor} {message : GatewayMessage}

/-- What a gateway tells its grains, from its effects. -/
theorem told_quiet (h : ∀ e ∈ effects, e.Ordinary P name) (hp : p ∈ effects.filterMap GatewayEffect.message) :
    p.2.FromGateway name := by
  obtain ⟨e, he, hmessage⟩ := List.mem_filterMap.mp hp
  have hordinary := h e he
  cases e with
  | tellGrain queue m =>
    cases hmessage
    exact hordinary
  | _ => cases hmessage

/-- What a gateway schedules for itself is a withheld report. -/
theorem later_deferred (h : ∀ e ∈ effects, e.Ordinary P name) {p : String × GatewayMessage}
    (hp : p ∈ effects.filterMap (GatewayEffect.later other)) :
    p.1 = other ∧ ∃ queue taskID success, p.2 = .deferredCompletion queue taskID success := by
  obtain ⟨e, he, hmessage⟩ := List.mem_filterMap.mp hp
  have hordinary := h e he
  cases e with
  | tellSelf m =>
    cases hmessage
    exact ⟨rfl, hordinary⟩
  | _ => cases hmessage

/-- Ordinary effects start no delivery. -/
theorem ordinary_deliveries (h : ∀ e ∈ effects, e.Ordinary P name) :
    effects.filterMap (GatewayEffect.delivery other) = [] := by
  apply List.filterMap_eq_nil_iff.mpr
  intro e he
  have hordinary := h e he
  cases e with
  | deliver => cases hordinary
  | _ => rfl

/-- A turn of a gateway tells grains only what a gateway tells. -/
theorem receive_told (hp : p ∈ (a.receive settings turn message).2.filterMap GatewayEffect.message) :
    p.2.FromGateway a.name := by
  rcases GatewayActor.dispatched_or_delivery message "" (a.sends turn) with hnone | ⟨d, hd⟩
  · exact told_quiet (GatewayActor.receive_ordinary hnone) hp
  · rw [(GatewayActor.receive_dispatch settings turn hd).1] at hp
    cases hp

/-- A turn of a gateway schedules nothing but completion reports. -/
theorem receive_later {p : String × GatewayMessage}
    (hp : p ∈ (a.receive settings turn message).2.filterMap (GatewayEffect.later name)) :
    p.1 = name ∧ ∃ queue taskID success, p.2 = .deferredCompletion queue taskID success := by
  rcases GatewayActor.dispatched_or_delivery message "" (a.sends turn) with hnone | ⟨d, hd⟩
  · exact later_deferred (GatewayActor.receive_ordinary hnone) hp
  · rw [(GatewayActor.receive_dispatch settings turn hd).1] at hp
    cases hp

/-- Persisting a pause flag leaves the tasks alone. -/
theorem persist_tasks (queue : String) (effects : List GrainEffect) (b : Broker) :
    (effects.foldl (GrainEffect.persist queue) b).tasks = b.tasks := by
  refine List.foldlRecOn (motive := fun c : Broker => c.tasks = b.tasks) effects _ rfl fun c hc e _ => ?_
  cases e <;> exact hc

end Emissions

/-- Whether a message to a gateway dispatches tasks. -/
def GatewayMessage.executes : GatewayMessage → Bool
  | .executeTask .. | .executeBatch .. => true
  | _ => false

theorem GatewayMessage.dispatched_of_not_executes {m : GatewayMessage} (h : m.executes = false) :
    m.dispatched = [] := by
  cases m <;> first | rfl | cases h

variable {d : Delivery} {number : Nat} {a : GatewayActor} {message : GatewayMessage}

/-- What the environment and the answers send dispatches nothing. -/
theorem report_not_executes {answer : Answer} (h : d.report number a answer = some message) :
    message.executes = false := by
  cases a <;> cases answer <;> simp only [Delivery.report] at h <;> grind [GatewayMessage.executes]

theorem admits_not_executes (h : a.admits message = true) : message.executes = false := by
  cases message <;> first | rfl | (cases a <;> cases h)

variable {d' : Delivery}

section Deliveries

/-- The deliveries of a later state: those of the earlier one, some of them answered or aborted
meanwhile, and possibly new ones. -/
def DeliveriesKept (l l' : List Delivery) : Prop :=
  ∀ (number : Nat) (d : Delivery), l[number]? = some d →
    ∃ d' : Delivery, l'[number]? = some d' ∧ d'.core = d.core ∧ (d'.open_ = true → d.open_ = true)

namespace DeliveriesKept

variable {l l' l'' : List Delivery}

theorem refl (l : List Delivery) : DeliveriesKept l l := fun _ d hd => ⟨d, hd, rfl, id⟩

theorem trans (h : DeliveriesKept l l') (h' : DeliveriesKept l' l'') : DeliveriesKept l l'' := by
  intro number d hd
  obtain ⟨d', hd', hcore, hopen⟩ := h number d hd
  obtain ⟨d'', hd'', hcore', hopen'⟩ := h' number d' hd'
  exact ⟨d'', hd'', hcore'.trans hcore, hopen ∘ hopen'⟩

theorem append (l more : List Delivery) : DeliveriesKept l (l ++ more) := by
  intro number d hd
  obtain ⟨hlt, -⟩ := List.getElem?_eq_some_iff.mp hd
  exact ⟨d, (List.getElem?_append_left hlt).trans hd, rfl, id⟩

theorem modify (l : List Delivery) (number : Nat) {f : Delivery → Delivery} (hcore : ∀ d, (f d).core = d.core)
    (hopen : ∀ d, (f d).open_ = true → d.open_ = true) : DeliveriesKept l (l.modify number f) := by
  intro other d hd
  rw [List.getElem?_modify, hd]
  by_cases heq : number = other
  · exact ⟨f d, by simp [heq], hcore d, hopen d⟩
  · exact ⟨d, by simp [heq], rfl, id⟩

theorem aborts (numbers : List Nat) (l : List Delivery) : DeliveriesKept l (numbers.foldl System.abortDelivery l) :=
  List.foldlRecOn (motive := DeliveriesKept l) numbers _ (refl l) fun _ h number _ => trans h (modify _ number (fun _ => rfl) fun _ => id)

/-- A delivery of the later state that is not new was there before. -/
theorem before (h : DeliveriesKept l l') (hlt : number < l.length) (hd' : l'[number]? = some d') :
    ∃ d, l[number]? = some d ∧ d'.core = d.core ∧ (d'.open_ = true → d.open_ = true) := by
  have hd := List.getElem?_eq_getElem hlt
  obtain ⟨d'', hd'', hcore, hopen⟩ := h number _ hd
  cases hd'.symm.trans hd''
  exact ⟨_, hd, hcore, hopen⟩

end DeliveriesKept

/-- Deliveries with the same core differ in their progress only. -/
theorem core_fields (h : d.core = d'.core) :
    d.gateway = d'.gateway ∧ d.queue = d'.queue ∧ d.leaseID = d'.leaseID ∧ d.tasks = d'.tasks ∧ d.batch = d'.batch := by
  cases d
  cases d'
  simp_all [Delivery.core]

/-- Aborting requests changes nothing else about the deliveries. -/
theorem abort_core (numbers : List Nat) (deliveries : List Delivery) :
    (numbers.foldl System.abortDelivery deliveries).map Delivery.core = deliveries.map Delivery.core :=
  List.foldlRecOn (motive := fun l : List Delivery => l.map Delivery.core = _) numbers _ rfl fun _ h number _ => by
    refine (map_modify_of_view ?_ number _).trans h
    exact fun _ => rfl

end Deliveries

/-- Where a new message on its way to a grain comes from. -/
inductive Tells (settings : Settings) (s : System) : Event → System → String × GrainMessage → Prop where
  | outside {s' : System} {queue : String} {message : GrainMessage} (h : s.mayTell message = true) :
      Tells settings s (.tellGrain queue message) s' (queue, message)
  | gateway {s' : System} {index : Nat} {turn : GatewayTurn} {name : String} {message : GatewayMessage}
      {rest : List (String × GatewayMessage)} {a : GatewayActor} {p : String × GrainMessage}
      (htake : takeAt s.toGateway index = some ((name, message), rest)) (ha : s.gateways name = some a)
      (h : p ∈ (a.receive settings { turn with delivery := s.deliveries.length } message).2.filterMap
        GatewayEffect.message) : Tells settings s (.gateway index turn) s' p
  | resume {s' : System} {name : String} {turn : GatewayTurn} {order : Iteration} {a : GatewayActor}
      {p : String × GrainMessage} (reply : Reply) (ha : s.gateways name = some a)
      (h : p ∈ (a.resume settings turn reply).2.filterMap GatewayEffect.message) :
      Tells settings s (.resume name turn order) s' p
  | piped {index : Nat} {now : Time} {order : Iteration} {pipe : Pipe} {rest : List Pipe}
      {p : String × GrainMessage} (htake : takeAt s.pipes index = some (pipe, rest))
      (h : s.pipeReport settings now order pipe = some p) :
      Tells settings s (.pipe index now order) ({ s with pipes := rest }.pipeStep settings now order pipe) p

/-- Where a new message on its way to a gateway comes from. -/
inductive Sends (settings : Settings) (s : System) : Event → System → String × GatewayMessage → Prop where
  | outside {s' : System} {name : String} {message : GatewayMessage} {a : GatewayActor}
      (ha : s.gateways name = some a) (h : a.admits message = true) :
      Sends settings s (.tellGateway name message) s' (name, message)
  | grain {index : Nat} {turn : GrainTurn} {queue : String} {message : GrainMessage}
      {rest : List (String × GrainMessage)} {p : String × GatewayMessage}
      (htake : takeAt s.toGrain index = some ((queue, message), rest))
      (h : p ∈ ((s.grains queue).receive settings turn message).2.filterMap GrainEffect.message) :
      Sends settings s (.grain index turn) ({ s with toGrain := rest }.grainTurn settings turn queue message) p
  | deferred {e : Event} {s' : System} {name queue taskID : String} {success : Bool} :
      Sends settings s e s' (name, .deferredCompletion queue taskID success)
  | answer {number : Nat} {answer : Answer} {d : Delivery} {a : GatewayActor} {message : GatewayMessage}
      (hd : s.deliveries[number]? = some d) (hopen : d.open_ = true) (ha : s.gateways d.gateway = some a)
      (hreport : d.report number a answer = some message) :
      Sends settings s (.answer number answer)
        { s with
          deliveries := s.deliveries.modify number fun d => { d with open_ := false }
          toGateway := s.toGateway ++ [(d.gateway, message)] } (d.gateway, message)

/-- Who makes a broker call. -/
inductive Calls (settings : Settings) (s : System) : Event → Invocation → Prop where
  | outside {i : Invocation} (h : i.call.external = true) : Calls settings s (.broker i) i
  | gateway {name : String} {turn : GatewayTurn} {order : Iteration} {a : GatewayActor} {call : Call}
      (ha : s.gateways name = some a) (hcall : a.nextCall settings turn = some call) :
      Calls settings s (.resume name turn order) ⟨turn.now, call, order⟩
  | piped {index : Nat} {now : Time} {order : Iteration} {pipe : Pipe} {rest : List Pipe} {call : Call}
      (htake : takeAt s.pipes index = some (pipe, rest)) (hcall : pipe.call settings = some call) :
      Calls settings s (.pipe index now order) ⟨now, call, order⟩

variable {settings : Settings} {s s' : System} {e : Event}

variable {name : String}

/-- The delivery that a dispatch starts is in the log. -/
theorem dispatch_logged {turn : GatewayTurn} (h : message.delivery name (a.sends turn) = some d) :
    d ∈ (s.gatewayTurn settings turn name message a).deliveries := by
  rw [System.gatewayTurn_dispatch h]
  exact List.mem_append_right _ (List.mem_singleton_self d)

/-- The transition a gateway records is for a message it takes to answer, or of the work it goes on with. -/
theorem Moves.applied_after (hmove : Moves settings s e s') {r : Applied} (hr : r ∈ s'.applied) :
    r ∈ s.applied ∨ ∃ a, s.gateways r.gateway = some a ∧
      ((∃ message, (r.gateway, message) ∈ s.toGateway ∧ a.Takes message r.cause r.taskID r.leaseID) ∨
        a.Settles r.cause r.taskID r.leaseID) := by
  have hrecord : ∀ {P : Option Nat → String → String → Prop} {name author : String}
      {effects : List GatewayEffect}, (∀ e ∈ effects, e.Ordinary P author) →
      r ∈ effects.filterMap (GatewayEffect.record name) → r.gateway = name ∧ P r.cause r.taskID r.leaseID := by
    intro P name author effects hordinary hnew
    obtain ⟨e, he, hrecord⟩ := List.mem_filterMap.mp hnew
    have hcaused := hordinary e he
    cases e with
    | applied =>
      cases hrecord
      exact ⟨rfl, hcaused⟩
    | _ => cases hrecord
  cases hmove with
  | @gateway index turn name message rest a htake ha hidle =>
    rcases GatewayActor.dispatched_or_delivery message name (a.sends turn) with hnone | ⟨d, hd⟩
    · refine (List.mem_append.mp hr).imp_right fun hnew => ?_
      obtain ⟨rfl, htakes⟩ := hrecord (GatewayActor.receive_ordinary hnone) hnew
      exact ⟨a, ha, .inl ⟨message, taken_mem htake, htakes⟩⟩
    · rw [System.gatewayTurn_dispatch hd] at hr
      exact .inl hr
  | resume ha =>
    refine (List.mem_append.mp hr).imp_right fun hnew => ?_
    obtain ⟨rfl, hsettles⟩ := hrecord (GatewayActor.resume_ordinary _) hnew
    exact ⟨_, ha, .inr hsettles⟩
  | pipe =>
    rw [System.pipeStep_eq] at hr
    exact .inl hr
  | _ => exact .inl hr

namespace Moves

variable (hmove : Moves settings s e s')

include hmove

/-- The state of a gateway after a step: as it was, or after one part of a turn. -/
theorem gateway_after {a' : GatewayActor} (ha' : s'.gateways name = some a') :
    ∃ a, s.gateways name = some a ∧ (a' = a ∨
      (∃ index turn message rest, e = .gateway index turn ∧
        takeAt s.toGateway index = some ((name, message), rest) ∧ a.busy = false ∧
        s' = { s with toGateway := rest }.gatewayTurn settings turn name message a ∧
        a' = (a.receive settings { turn with delivery := s.deliveries.length } message).1) ∨
      ∃ turn order reply, e = .resume name turn order ∧ a.busy = true ∧
        s' = s.gatewayResume settings turn order name a ∧ a' = (a.resume settings turn reply).1) := by
  -- only the gateway whose turn it is changes
  have hupdate : ∀ {other : String} {b b' : GatewayActor}, s.gateways other = some b →
      Function.update s.gateways other (some b') name = some a' →
      (other = name ∧ s.gateways name = some b ∧ a' = b') ∨ s.gateways name = some a' := by
    intro other b b' hb h
    rw [Function.update_apply] at h
    split at h
    · rename_i heq
      subst heq
      exact .inl ⟨rfl, hb, (Option.some.inj h).symm⟩
    · exact .inr h
  cases hmove with
  | idle | broker | tellGrain | tellGateway | grain | answer => exact ⟨a', ha', .inl rfl⟩
  | pipe =>
    rw [System.pipeStep_eq] at ha'
    exact ⟨a', ha', .inl rfl⟩
  | gateway htake ha hidle =>
    rcases hupdate ha ha' with ⟨rfl, hb, rfl⟩ | hsame
    · exact ⟨_, hb, .inr (.inl ⟨_, _, _, _, rfl, htake, hidle, rfl, rfl⟩)⟩
    · exact ⟨a', hsame, .inl rfl⟩
  | resume ha hbusy =>
    rcases hupdate ha ha' with ⟨rfl, hb, rfl⟩ | hsame
    · exact ⟨_, hb, .inr (.inr ⟨_, _, _, rfl, hbusy, rfl, rfl⟩)⟩
    · exact ⟨a', hsame, .inl rfl⟩

/-- A gateway that exists goes on existing. -/
theorem gateway_persists (ha : s.gateways name = some a) : ∃ a', s'.gateways name = some a' := by
  have hupdate : ∀ (other : String) (b : GatewayActor),
      ∃ a', Function.update s.gateways other (some b) name = some a' := by
    intro other b
    rw [Function.update_apply]
    split
    · exact ⟨b, rfl⟩
    · exact ⟨a, ha⟩
  cases hmove with
  | gateway | resume => exact hupdate _ _
  | pipe =>
    rw [System.pipeStep_eq]
    exact ⟨a, ha⟩
  | _ => exact ⟨a, ha⟩

/-- The state of a grain after a step: as it was, or after a turn. -/
theorem grain_after (queue : String) :
    s'.grains queue = s.grains queue ∨ ∃ index turn message rest, e = .grain index turn ∧ takeAt s.toGrain index =
      some ((queue, message), rest) ∧ s'.grains queue = ((s.grains queue).receive settings turn message).1 := by
  cases hmove with
  | grain htake =>
    rename_i index turn other message rest hfresh
    rcases eq_or_ne queue other with rfl | h
    · exact .inr ⟨index, turn, message, rest, rfl, htake, Function.update_self ..⟩
    · exact .inl (Function.update_of_ne h ..)
  | pipe =>
    rw [System.pipeStep_eq]
    exact .inl rfl
  | _ => exact .inl rfl

/-- A message to a gateway after a step was on its way before, or was sent in the step. -/
theorem toGateway_after {p : String × GatewayMessage} (hp : p ∈ s'.toGateway) :
    p ∈ s.toGateway ∨ Sends settings s e s' p := by
  have hdeferred : ∀ {name : String}, (p.1 = name ∧ ∃ queue taskID success,
      p.2 = .deferredCompletion queue taskID success) → Sends settings s e s' p := by
    rintro name ⟨rfl, queue, taskID, success, heq⟩
    rw [← Prod.mk.eta (p := p), heq]
    exact .deferred
  cases hmove with
  | idle | broker | tellGrain => exact .inl hp
  | tellGateway ha h =>
    refine (List.mem_append.mp hp).imp_right fun hnew => ?_
    rw [List.mem_singleton.mp hnew]
    exact .outside ha h
  | grain htake => exact (List.mem_append.mp hp).imp_right (.grain htake)
  | gateway htake =>
    exact (List.mem_append.mp hp).imp (mem_of_takeAt htake) fun hnew => hdeferred (receive_later hnew)
  | resume =>
    exact (List.mem_append.mp hp).imp_right fun hnew =>
      hdeferred (later_deferred (GatewayActor.resume_ordinary _) hnew)
  | pipe =>
    rw [System.pipeStep_eq] at hp
    exact .inl hp
  | answer hd hopen ha hreport =>
    refine (List.mem_append.mp hp).imp_right fun hnew => ?_
    rw [List.mem_singleton.mp hnew]
    exact .answer hd hopen ha hreport

/-- A message to a grain after a step was on its way before, or was sent in the step. -/
theorem toGrain_after (hp : p ∈ s'.toGrain) : p ∈ s.toGrain ∨ Tells settings s e s' p := by
  cases hmove with
  | idle | broker | tellGateway | answer => exact .inl hp
  | tellGrain hmay =>
    refine (List.mem_append.mp hp).imp_right fun hnew => ?_
    rw [List.mem_singleton.mp hnew]
    exact .outside hmay
  | grain htake => exact .inl (mem_of_takeAt htake hp)
  | gateway htake ha => exact (List.mem_append.mp hp).imp_right (.gateway htake ha)
  | resume ha => exact (List.mem_append.mp hp).imp_right (.resume _ ha)
  | pipe htake =>
    rw [System.pipeStep_eq] at hp
    exact (List.mem_append.mp hp).imp_right fun hnew => .piped htake (Option.mem_toList.mp hnew)

/-- A dispatch on its way to a gateway was so before, or a grain just sent it. -/
theorem dispatch_after {p : String × GatewayMessage} (hp : p ∈ s'.toGateway) : p ∈ s.toGateway ∨ p.2.executes = false ∨
      ∃ index turn queue message rest, e = .grain index turn ∧
        takeAt s.toGrain index = some ((queue, message), rest) ∧
        s' = { s with toGrain := rest }.grainTurn settings turn queue message ∧
        p ∈ ((s.grains queue).receive settings turn message).2.filterMap GrainEffect.message := by
  refine (hmove.toGateway_after hp).imp_right fun hnew => ?_
  cases hnew with
  | outside _ h => exact .inl (admits_not_executes h)
  | grain htake h => exact .inr ⟨_, _, _, _, _, rfl, htake, rfl, h⟩
  | deferred => exact .inl rfl
  | answer _ _ _ hreport => exact .inl (report_not_executes hreport)

variable {expiresAt : Time} {tasks : List TaskEnvelope}

/-- A finished lease cycle on its way to its grain was so before, or its pipe just made the call. -/
theorem cycle_after {queue leaseID error : String}
    (hp : (queue, GrainMessage.leaseCycleCompleted leaseID expiresAt error tasks) ∈ s'.toGrain) :
    (queue, GrainMessage.leaseCycleCompleted leaseID expiresAt error tasks) ∈ s.toGrain ∨ ∃ index now order limit rest,
      e = .pipe index now order ∧ takeAt s.pipes index = some (.lease queue limit leaseID expiresAt, rest) ∧ tasks =
      System.leasedTasks (s.broker.exec ⟨now, .lease queue limit settings.leaseTTL leaseID, order⟩).2 ∧ s' =
      { s with pipes := rest }.pipeStep settings now order (.lease queue limit leaseID expiresAt) := by
  refine (hmove.toGrain_after hp).imp_right fun hnew => ?_
  cases hnew with
  | outside h => cases h
  | gateway _ _ h => cases receive_told h
  | resume reply _ h => cases told_quiet (GatewayActor.resume_ordinary reply) h
  | @piped _ _ _ pipe _ _ htake h =>
    cases pipe with
    | lease =>
      cases h
      exact ⟨_, _, _, _, _, rfl, htake, rfl, rfl⟩
    | leaseGroup => cases h
    | release _ _ taskIDs => cases taskIDs <;> cases h

/-- A finished group lease on its way to its grain was so before, or its pipe just made the call. -/
theorem group_after {queue leaseID group type error : String}
        (hp : (queue, GrainMessage.groupLeaseCompleted leaseID expiresAt group type error tasks) ∈ s'.toGrain) :
    (queue, GrainMessage.groupLeaseCompleted leaseID expiresAt group type error tasks) ∈ s.toGrain ∨
      ∃ index now order limit rest, e = .pipe index now order ∧
        takeAt s.pipes index = some (.leaseGroup queue group type limit leaseID expiresAt, rest) ∧
        tasks = System.leasedTasks
          (s.broker.exec ⟨now, .leaseGroup queue group limit settings.leaseTTL leaseID, order⟩).2 ∧
        s' = { s with pipes := rest }.pipeStep settings now order
          (.leaseGroup queue group type limit leaseID expiresAt) := by
  refine (hmove.toGrain_after hp).imp_right fun hnew => ?_
  cases hnew with
  | outside h => cases h
  | gateway _ _ h => cases receive_told h
  | resume reply _ h => cases told_quiet (GatewayActor.resume_ordinary reply) h
  | @piped _ _ _ pipe _ _ htake h =>
    cases pipe with
    | leaseGroup =>
      cases h
      exact ⟨_, _, _, _, _, rfl, htake, rfl, rfl⟩
    | lease => cases h
    | release _ _ taskIDs => cases taskIDs <;> cases h

/-- A message to a grain stays on its way until a turn takes it. -/
theorem toGrain_stays (hp : p ∈ s.toGrain) :
    p ∈ s'.toGrain ∨ ∃ index turn rest, e = .grain index turn ∧ takeAt s.toGrain index = some (p, rest) ∧
      s'.grains p.1 = ((s.grains p.1).receive settings turn p.2).1 := by
  cases hmove with
  | idle | broker | tellGateway | answer => exact .inl hp
  | tellGrain | gateway | resume => exact .inl (List.mem_append_left _ hp)
  | pipe htake =>
    rw [System.pipeStep_eq]
    exact .inl (List.mem_append_left _ hp)
  | grain htake =>
    rcases List.mem_cons.mp ((takeAt_perm htake).mem_iff.mp hp) with rfl | hrest
    · exact .inr ⟨_, _, _, rfl, htake, Function.update_self ..⟩
    · exact .inl hrest

/-- Lease ids that were handed out stay recorded. -/
theorem leases {p : String × String} (hp : p ∈ s.leases) : p ∈ s'.leases := by
  cases hmove with
  | pipe =>
    rw [System.pipeStep_eq]
    exact List.mem_append_left _ hp
  | _ => exact hp

/-- Deliveries stay in the log; only their progress changes. -/
theorem deliveries : DeliveriesKept s.deliveries s'.deliveries := by
  cases hmove with
  | gateway | resume => exact (DeliveriesKept.aborts _ _).trans (.append _ _)
  | pipe =>
    rw [System.pipeStep_eq]
    exact .refl _
  | answer => exact .modify _ _ (fun _ => rfl) fun _ h => (nomatch h)
  | _ => exact .refl _

/-- A delivery of the log is still there after a step. -/
theorem delivery_stays (hd : d ∈ s.deliveries) : ∃ d' ∈ s'.deliveries, d'.core = d.core := by
  obtain ⟨number, hnumber⟩ := List.mem_iff_getElem?.mp hd
  obtain ⟨d', hd', hcore, -⟩ := hmove.deliveries number d hnumber
  exact ⟨d', List.mem_of_getElem? hd', hcore⟩

/-- A delivery after a step was in the log before, or is the one a gateway just started. -/
theorem delivery_after (hd' : s'.deliveries[number]? = some d') :
    (∃ d, s.deliveries[number]? = some d ∧ d'.core = d.core ∧ (d'.open_ = true → d.open_ = true)) ∨
      ∃ index turn message rest a, e = .gateway index turn ∧ number = s.deliveries.length ∧ takeAt s.toGateway index =
      some ((d'.gateway, message), rest) ∧ s.gateways d'.gateway = some a ∧ a.busy = false ∧
      message.delivery d'.gateway (a.sends turn) = some d' ∧ s' =
      { s with toGateway := rest }.gatewayTurn settings turn d'.gateway message a := by
  rcases Nat.lt_or_ge number s.deliveries.length with hlt | hge
  · exact .inl (hmove.deliveries.before hlt hd')
  have hnone : ∀ {l : List Delivery}, l.length = s.deliveries.length → l[number]? ≠ some d' := by
    intro l hlength
    simp [List.getElem?_eq_none (hlength.trans_le hge)]
  -- effects that are ordinary add nothing to the log
  have hemit : ∀ {P : Option Nat → String → String → Prop} {name author : String}
      {effects : List GatewayEffect}, (∀ e ∈ effects, e.Ordinary P author) →
      ((effects.filterMap GatewayEffect.aborted).foldl System.abortDelivery s.deliveries ++
        effects.filterMap (GatewayEffect.delivery name))[number]? ≠ some d' := by
    intro P name author effects hordinary
    rw [ordinary_deliveries hordinary, List.append_nil]
    exact hnone (by simpa using congrArg List.length (abort_core _ s.deliveries))
  cases hmove with
  | pipe =>
    rw [System.pipeStep_eq] at hd'
    exact absurd hd' (hnone rfl)
  | answer => exact absurd hd' (hnone (List.length_modify ..))
  | resume => exact absurd hd' (hemit (GatewayActor.resume_ordinary _))
  | @gateway index turn name message rest a htake ha hidle =>
    rcases GatewayActor.dispatched_or_delivery message name (a.sends turn) with hnothing | ⟨d, hd⟩
    · exact absurd hd' (hemit (GatewayActor.receive_ordinary hnothing))
    · have hs := @System.gatewayTurn_dispatch a name d { s with toGateway := rest } settings turn message hd
      rw [hs, List.getElem?_append_right hge] at hd'
      obtain rfl := List.mem_singleton.mp (List.mem_of_getElem? hd')
      have hfirst : number = s.deliveries.length := by
        have hlt := (List.getElem?_eq_some_iff.mp hd').1
        rw [List.length_singleton] at hlt
        omega
      have hname : d'.gateway = name := by
        cases message with
        | executeTask => cases hd; rfl
        | executeBatch tasks => cases tasks <;> cases hd; rfl
        | _ => cases hd
      subst hname
      exact .inr ⟨index, turn, message, rest, a, rfl, hfirst, htake, ha, hidle, hd, rfl⟩
  | _ => exact absurd hd' (hnone rfl)

/-- The stored tasks are as they were, or one broker call was made. -/
theorem broker_after : s'.broker.tasks = s.broker.tasks ∨ ∃ i, Calls settings s e i ∧ s'.broker = s.broker.after i := by
  cases hmove with
  | broker h => exact .inr ⟨_, .outside h, rfl⟩
  | grain => exact .inl (persist_tasks _ _ _)
  | @resume name turn order a ha =>
    cases hcall : a.nextCall settings turn with
    | none => exact .inl (by simp [System.gatewayResume, hcall, System.emitGateway, System.setGateway])
    | some call =>
      exact .inr ⟨_, .gateway ha hcall,
        by simp [System.gatewayResume, hcall, System.emitGateway, System.setGateway, Broker.after]⟩
  | @pipe _ _ _ p _ htake =>
    rw [System.pipeStep_eq]
    cases hcall : p.call settings with
    | none => exact .inl rfl
    | some call => exact .inr ⟨_, .piped htake hcall, rfl⟩
  | _ => exact .inl rfl

end Moves

end Conveyor
