import Conveyor.Actors.Records
import Conveyor.Actors.RetryBudget

/-!
# Stopping a webhook gateway

The drain turn of a stopping gateway releases what it tracks. A dispatch that reaches the gateway
after that turn is posted all the same, and nothing releases its task. When no dispatch is on its way at
the drain turn and no grain leases with a credit for the gateway afterwards, the stop is clean.
-/

namespace Conveyor

open Lib

/-- The effect posts to the endpoint: a delivery or the notification of a cancel. -/
def GatewayEffect.posts : GatewayEffect → Bool
  | .deliver .. | .cancel _ => true
  | _ => false

namespace System

/-- What a gateway does outside it in one step. -/
def effectsOf (settings : Settings) (s : System) (name : String) : Event → List GatewayEffect
  | .gateway index turn =>
    match takeAt s.toGateway index, s.gateways name with
    | some ((other, message), _), some a =>
      if other = name ∧ a.busy = false then
        (a.receive settings { turn with delivery := s.deliveries.length } message).2
      else []
    | _, _ => []
  | .resume other turn order =>
    match s.gateways name with
    | some a =>
      if other = name ∧ a.busy = true then
        (a.resume settings turn
          (match a.nextCall settings turn with
            | none => .ok
            | some call => (s.broker.exec ⟨turn.now, call, order⟩).2)).2
      else []
    | none => []
  | _ => []

/-- No grain handles a lease result while it holds a credit for the gateway. -/
def Spares (name : String) (s : System) : Event → Prop
  | .grain index _ =>
    (takeAt s.toGrain index).all (fun taken =>
      taken.1.2.leased.isNone || decide ((s.grains taken.1.1).balance name ≤ 0)) = true
  | _ => True

/-- The gateway tracks nothing and no dispatch is on its way to it. -/
structure Stopped (name : String) (s : System) : Prop where
  silent : ∀ a, s.gateways name = some a → ∃ w, a = .webhook w ∧ ∀ t, w.inflight.lookup t = none
  undispatched : ∀ message, (name, message) ∈ s.toGateway → message.dispatched = []

end System

namespace WebhookGateway

variable {settings : Settings} {turn : GatewayTurn} {w : WebhookGateway}

/-- A gateway that only announces its capacity posts nothing. -/
theorem register_posts (order : MapOrder String) : ∀ e ∈ w.register order, e.posts = false := by
  rw [register]
  split
  · simp
  · simp [GatewayEffect.posts]

/-- A part of a turn posts nothing when nothing is tracked. -/
theorem Part.posts {P : Option Nat → String → String → Prop} {A : Prop} {w' : WebhookGateway}
    {effects : List GatewayEffect} (h : Part P A w w' effects) (hnone : ∀ t, w.inflight.lookup t = none) :
    ∀ e ∈ effects, e.posts = false := by
  induction h with
  | @trans w w₁ _ _ _ h _ ih ih' =>
    refine List.forall_mem_append.mpr ⟨ih hnone, ih' fun t => Option.eq_none_iff_forall_ne_some.mpr fun entry hentry => ?_⟩
    obtain ⟨old, hold, -⟩ := h.keeps.records t entry hentry
    cases (hnone t).symm.trans hold
  | note => exact List.forall_mem_nil _
  | announce _ order => exact register_posts order
  | applied | resolveDependents | abort => exact List.forall_mem_singleton.mpr rfl
  | mark hentry | cancel hentry | report hentry | refill hentry | member hentry => cases (hnone _).symm.trans hentry

/-- Without a dispatch, a gateway that tracks nothing posts nothing. -/
theorem receive_posts (hnone : ∀ t, w.inflight.lookup t = none) {message : GatewayMessage}
    (hmessage : message.dispatched = []) : ∀ e ∈ (w.receive settings turn message).2, e.posts = false := by
  have hroutine : routine message = true → ∀ e ∈ (w.receive settings turn message).2, e.posts = false := by
    intro hroutine
    obtain ⟨w', work, -, hpart⟩ := receive_part (P := fun _ _ _ => True) settings turn hroutine
      fun _ _ _ _ _ _ => trivial
    exact hpart.posts hnone
  cases message with
  | executeTask => cases hmessage
  | executeBatch =>
    cases hmessage
    exact List.forall_mem_nil _
  | drainSession => exact List.forall_mem_nil _
  | updateRegistration worker =>
    refine List.forall_mem_append.mpr ⟨fun e he => ?_, register_posts turn.order⟩
    obtain ⟨queue, -, rfl⟩ := List.mem_map.mp he
    rfl
  | deferredCompletion =>
    rw [receive, reportCompletion, tellServed]
    split <;> simp [GatewayEffect.posts]
  | _ => exact hroutine rfl

end WebhookGateway

section Stopping

variable {settings : Settings} {s s' : System} {e : Event} {name : String}

/-- A turn of a grain without a credit for the gateway, or without a lease result, sends it no work. -/
theorem no_dispatch_without_credit {x : QueueGrain} {turn : GrainTurn} {message : GrainMessage}
    (hdistinct : DistinctNames x.gateways) (hcredit : message.leased ≠ none → x.balance name ≤ 0)
    {sent : GatewayMessage} (hsent : (name, sent) ∈ (x.receive settings turn message).2.filterMap GrainEffect.message) :
    sent.dispatched = [] := by
  obtain ⟨effect, heffect, hmessage⟩ := List.mem_filterMap.mp hsent
  -- a dispatch would be one of at most as many as there are credits
  have hnone : message.leased ≠ none → effect.dispatchesTo name = false := by
    intro hleased
    obtain ⟨y, hy, hspends⟩ := QueueGrain.receive_spends settings turn message name hdistinct
    have hsame : message.adjust name (x.account name) = x.account name := by
      cases message <;> first | rfl | exact absurd rfl hleased
    have hbalance : y.balance name ≤ 0 := by
      rw [QueueGrain.balance, hy, hsame]
      exact hcredit hleased
    have hsent := hspends.sent_le
    have hone := le_weigh_of_mem (fun e : GrainEffect => indicator_nonneg (e.dispatchesTo name = true)) heffect
    rw [← dispatched] at hone
    by_contra hdispatch
    rw [indicator_true (Bool.eq_true_of_not_eq_false hdispatch)] at hone
    omega
  cases effect with
  | executeTask =>
    cases hmessage
    have hemits := receive_emits heffect
    cases hemits
    exact absurd (hnone (by rintro ⟨⟩)) (by simp [GrainEffect.dispatchesTo])
  | executeBatch =>
    cases hmessage
    have hemits := receive_emits heffect
    cases hemits
    exact absurd (hnone (by rintro ⟨⟩)) (by simp [GrainEffect.dispatchesTo])
  | cancelActive =>
    cases hmessage
    rfl
  | lease | leaseGroup | release | setPaused => cases hmessage

/-- A stopped gateway stays stopped while the grains spare it. -/
theorem System.Stopped.moves (h : s.Stopped name) (hlisted : s.ListedOnce) (hmove : Moves settings s e s')
    (hspares : s.Spares name e) : s'.Stopped name where
  silent := fun a' ha' => by
    obtain ⟨a, ha, hcases⟩ := hmove.gateway_after ha'
    obtain ⟨w, rfl, hnone⟩ := h.silent a ha
    -- what the gateway tracks after the step it tracked before
    have hsilent : ∀ w', GatewayActor.Keeps (.webhook w) (.webhook w') → ∀ t, w'.inflight.lookup t = none := by
      intro w' hkeeps t
      refine Option.eq_none_iff_forall_ne_some.mpr fun entry hentry => ?_
      obtain ⟨old, hold, -⟩ := hkeeps.records t entry hentry
      cases (hnone t).symm.trans hold
    rcases hcases with rfl | ⟨index, turn, message, rest, -, htake, -, -, rfl⟩ |
      ⟨turn, order, reply, -, -, -, rfl⟩
    · exact ⟨w, rfl, hnone⟩
    · have hquiet := h.undispatched message (taken_mem htake)
      exact ⟨_, rfl, hsilent _ (GatewayActor.receive_keeps hquiet)⟩
    · have hkeeps : GatewayActor.Keeps (.webhook w) (GatewayActor.resume settings turn reply (.webhook w)).1 :=
        GatewayActor.resume_keeps reply
      obtain ⟨w', hw'⟩ : ∃ w', (GatewayActor.resume settings turn reply (.webhook w)).1 = .webhook w' := by
        rw [GatewayActor.resume]
        split <;> exact ⟨_, rfl⟩
      exact ⟨w', hw', hsilent w' (hw' ▸ hkeeps)⟩
  undispatched := fun message hmessage => by
    rcases hmove.dispatch_after hmessage with hold | hquiet |
      ⟨index, turn, queue, received, rest, rfl, htake, -, hsent⟩
    · exact h.undispatched message hold
    · exact GatewayMessage.dispatched_of_not_executes hquiet
    · refine no_dispatch_without_credit (hlisted queue) (fun hleased => ?_) hsent
      simp only [System.Spares, htake, Option.all_some, Bool.or_eq_true, decide_eq_true_eq,
        Option.isNone_iff_eq_none] at hspares
      exact hspares.resolve_left hleased

/-- A stopped gateway posts nothing. -/
theorem System.Stopped.posts (h : s.Stopped name) : ∀ effect ∈ s.effectsOf settings name e, effect.posts = false := by
  cases e with
  | gateway index turn =>
    rw [System.effectsOf]
    split
    · rename_i other message rest a htake ha
      split_ifs with hturn
      · obtain ⟨rfl, -⟩ := hturn
        obtain ⟨w, rfl, hnone⟩ := h.silent a ha
        exact WebhookGateway.receive_posts hnone (h.undispatched message (taken_mem htake))
      · simp
    · simp
  | resume =>
    rw [System.effectsOf]
    split
    · rename_i a ha
      split
      · obtain ⟨w, rfl, hnone⟩ := h.silent a ha
        rw [GatewayActor.resume]
        split
        · simp
        · rename_i work works hturn
          exact (WebhookGateway.finish_part _ work).posts hnone
      · simp
    · simp
  | _ => simp [System.effectsOf]

/-- A release that a turn has still to make is made before the gateway is idle again. -/
theorem release_reached {t leaseID : String} {open_ : Option Nat} {rest : List Event} {w : WebhookGateway}
    (hw : s.gateways name = some (.webhook w)) (hwork : .release t leaseID open_ ∈ w.turn)
    (hidle : ∀ a, (run (System.step settings) s rest).gateways name = some a → a.busy = false) :
    ∃ before turn order after v others, rest = before ++ .resume name turn order :: after ∧
      (run (System.step settings) s before).gateways name = some (.webhook v) ∧
      v.turn = .release t leaseID open_ :: others := by
  induction rest generalizing s w with
  | nil =>
    have hdone := hidle _ hw
    rw [GatewayActor.busy, Bool.not_eq_false', List.isEmpty_iff] at hdone
    rw [hdone] at hwork
    cases hwork
  | cons e rest ih =>
    have hmove := step_moves settings s e
    obtain ⟨a', ha'⟩ := hmove.gateway_persists hw
    -- the release is still to be made after this step
    have hlater : ∀ w', a' = .webhook w' → .release t leaseID open_ ∈ w'.turn →
        ∃ before turn order after v others, e :: rest = before ++ .resume name turn order :: after ∧
          (run (System.step settings) s before).gateways name = some (.webhook v) ∧
          v.turn = .release t leaseID open_ :: others := by
      rintro w' rfl hwork'
      obtain ⟨before, turn, order, after, v, others, rfl, hv, hturn⟩ := ih ha' hwork' hidle
      exact ⟨e :: before, turn, order, after, v, others, rfl, hv, hturn⟩
    obtain ⟨a, ha, hcases⟩ := hmove.gateway_after ha'
    cases hw.symm.trans ha
    rcases hcases with rfl | ⟨index, turn, message, others, -, -, hfree, -⟩ |
      ⟨turn, order, reply, rfl, -, -, rfl⟩
    · exact hlater w rfl hwork
    · rw [GatewayActor.busy, Bool.not_eq_false', List.isEmpty_iff] at hfree
      rw [hfree] at hwork
      cases hwork
    · cases hturn : w.turn with
      | nil => rw [hturn] at hwork; cases hwork
      | cons work works =>
        rw [hturn] at hwork
        rcases List.mem_cons.mp hwork with rfl | hin
        · exact ⟨[], turn, order, rest, w, works, rfl, hw, hturn⟩
        · have hresume : (GatewayActor.resume settings turn reply (.webhook w)).1 =
              .webhook (WebhookGateway.finish settings turn { w with turn := works } reply work).1 := by
            rw [GatewayActor.resume, hturn]
            rfl
          refine hlater _ hresume ?_
          rw [(WebhookGateway.finish_part reply work).frame.2.1]
          exact hin

/-- A release returns the task to pending without a retry penalty, and ends the lease on it. -/
theorem release_after (b : Broker) (now : Time) (order : Iteration) (t leaseID : String) :
    (∀ row, b.tasks.lookup t = some row → row.HeldUnder leaseID →
      ∃ row', (b.after ⟨now, .release t leaseID, order⟩).tasks.lookup t = some row' ∧
        row'.state = .pending ∧ row'.retried = row.retried) ∧
      ¬ (b.after ⟨now, .release t leaseID, order⟩).ActiveUnder t leaseID := by
  by_cases hactive : b.ActiveUnder t leaseID
  · obtain ⟨row, hrow, hheld⟩ := hactive
    have hafter : b.after ⟨now, .release t leaseID, order⟩ = b.transition t row (row.released now) now := by
      have hok := (Broker.activeRow_eq_ok_iff b t leaseID row).mpr ⟨hrow, hheld⟩
      change (b.outcome (b.settle now t leaseID fun row => row.released now)).1 = _
      rw [Broker.settle, hok]
      rfl
    rw [hafter]
    refine ⟨fun row' hrow' _ => ?_, transition_not_activeUnder (by rintro ⟨⟩)⟩
    cases hrow.symm.trans hrow'
    exact ⟨row.released now, by rw [Broker.transition_tasks, AList.lookup_insert], rfl, rfl⟩
  · have hafter : b.after ⟨now, .release t leaseID, order⟩ = b :=
      congrArg Prod.fst (settle_refused _ hactive)
    rw [hafter]
    exact ⟨fun row hrow hheld => absurd ⟨row, hrow, hheld⟩ hactive, hactive⟩

/-- A task that is no longer active under a lease handed out before never is again. -/
theorem run_not_activeUnder {t leaseID queue : String} (rest : List Event) (hflow : LeaseFlow s)
    (hlease : (leaseID, queue) ∈ s.leases) (hactive : ¬ s.broker.ActiveUnder t leaseID) :
    ¬ (run (System.step settings) s rest).broker.ActiveUnder t leaseID := by
  induction rest generalizing s with
  | nil => exact hactive
  | cons e rest ih =>
    have hmove := step_moves settings s e
    refine ih (hflow.moves hmove) (hmove.leases hlease) ?_
    rintro ⟨row', hrow', hheld⟩
    obtain ⟨row, hrow, hheld', -⟩ := hflow.heldBefore hmove t row' leaseID queue hrow' hheld hlease
    exact hactive ⟨row, hrow, hheld'⟩

/-- The drain turn of an idle gateway: nothing is tracked any more, and every task that was is to be
released. -/
theorem drain_turn {index : Nat} {turn : GatewayTurn} {w : WebhookGateway}
    {others : List (String × GatewayMessage)} (hw : s.gateways name = some (.webhook w)) (hidle : w.turn = [])
    (htake : takeAt s.toGateway index = some ((name, .drainSession), others)) :
    (s.step settings (.gateway index turn)).gateways name = some (.webhook (w.drain
        { turn with delivery := s.deliveries.length })) ∧
      (s.step settings (.gateway index turn)).toGateway = others ∧
      (s.step settings (.gateway index turn)).leases = s.leases := by
  have hfree : (GatewayActor.webhook w).busy = false := by
    rw [GatewayActor.busy, hidle]
    rfl
  have hstep : s.step settings (.gateway index turn) =
      { s with toGateway := others }.gatewayTurn settings turn name .drainSession (.webhook w) := by
    simp [System.step, htake, hw, hfree]
  rw [hstep]
  exact ⟨Function.update_self .., List.append_nil _, rfl⟩

/-- The drain turn puts the release of every tracked task into the turn. -/
theorem drain_releases {turn : GatewayTurn} {w : WebhookGateway} {t : String} {entry : InflightTask}
    (hentry : w.inflight.lookup t = some entry) :
    .release t entry.leaseID (w.aborts.lookup t) ∈ (w.drain turn).turn := by
  refine List.mem_filterMap.mpr ⟨t, ?_, by rw [hentry]; rfl⟩
  rw [MapOrder.mem_visit, ← AList.lookup_isSome, hentry]
  rfl

/-- The turn of a gateway comes to a release. -/
theorem resume_release {turn : GatewayTurn} {order : Iteration} {t leaseID : String} {open_ : Option Nat}
    {w : WebhookGateway} {works : List WebhookWork} (hw : s.gateways name = some (.webhook w))
    (hturn : w.turn = .release t leaseID open_ :: works) :
    (s.step settings (.resume name turn order)).broker = s.broker.after ⟨turn.now, .release t leaseID, order⟩ := by
  have hcall : (GatewayActor.webhook w).nextCall settings turn = some (.release t leaseID) := by
    rw [GatewayActor.nextCall, hturn]
    rfl
  have hbusy : (GatewayActor.webhook w).busy = true := by
    rw [GatewayActor.busy, hturn]
    rfl
  simp [System.step, hw, hbusy, System.gatewayResume, hcall, System.emitGateway, System.setGateway, Broker.after]

end Stopping

/-- A webhook gateway handles the request to stop while no dispatch is on its way to it, and after that
no grain handles a lease result while it holds a credit for the gateway. Then no later step makes the
gateway post, and by the time it is idle it has released every task it tracked: a task still active under
the lease of its delivery went back to pending with its retries unchanged, and none is active under
that lease any more. -/
theorem stopped_gateway_is_clean (settings : Settings) (d : Deployment) (first rest : List Event)
    (index : Nat) (turn : GatewayTurn) (name : String) (w : WebhookGateway)
    (others : List (String × GatewayMessage))
    (hw : (run (System.step settings) (System.start d) first).gateways name = some (.webhook w))
    (hidle : w.turn = [])
    (htake : takeAt (run (System.step settings) (System.start d) first).toGateway index =
      some ((name, .drainSession), others))
    (hundispatched : ∀ message, (name, message) ∈
      (run (System.step settings) (System.start d) first).toGateway → message.dispatched = [])
    (hspares : StepsMeet (System.step settings) (System.Spares name)
      (run (System.step settings) (System.start d) (first ++ [.gateway index turn])) rest) :
    let drained := run (System.step settings) (System.start d) (first ++ [.gateway index turn])
    StepsMeet (System.step settings)
        (fun s e => ∀ effect ∈ s.effectsOf settings name e, effect.posts = false) drained rest ∧
      ∀ a, (run (System.step settings) drained rest).gateways name = some a → a.busy = false →
        ∀ t entry, w.inflight.lookup t = some entry →
          ¬ (run (System.step settings) drained rest).broker.ActiveUnder t entry.leaseID ∧
          ∃ before turn order after, rest = before ++ .resume name turn order :: after ∧
            ∀ row, (run (System.step settings) drained before).broker.tasks.lookup t = some row →
              row.HeldUnder entry.leaseID →
              ∃ row', (run (System.step settings) drained
                  (before ++ [.resume name turn order])).broker.tasks.lookup t = some row' ∧
                row'.state = .pending ∧ row'.retried = row.retried := by
  intro drained
  have hrecorded := run_recorded settings d first
  have hdrained : drained = (run (System.step settings) (System.start d) first).step settings
      (.gateway index turn) := run_append ..
  obtain ⟨hgateway, hmailbox, hleases⟩ := @drain_turn settings _ name index turn w others hw hidle htake
  rw [← hdrained] at hgateway hmailbox hleases
  have hstopped : drained.Stopped name := by
    refine ⟨fun a ha => ⟨_, Option.some.inj (ha.symm.trans hgateway), fun t => rfl⟩, fun message hmessage => ?_⟩
    rw [hmailbox] at hmessage
    exact hundispatched message (mem_of_takeAt htake hmessage)
  have hlisted' : drained.ListedOnce := by
    rw [hdrained]
    exact hrecorded.listed.moves (step_moves settings _ _)
  refine ⟨hspares.imp (fun s => s.ListedOnce ∧ s.Stopped name) (fun s e hs hinv => ?_)
    (fun s e hs hinv => hinv.2.posts) ⟨hlisted', hstopped⟩, fun a ha hdone t entry hentry => ?_⟩
  · have hmove := step_moves settings s e
    exact ⟨hinv.1.moves hmove, hinv.2.moves hinv.1 hmove hs⟩
  · have hlease : (entry.leaseID, entry.queue) ∈ drained.leases := by
      rw [hleases]
      exact hrecorded.leased name _ t entry hw hentry
    obtain ⟨before, turn', order, after, v, works, rfl, hv, hturn⟩ := release_reached hgateway
      (drain_releases hentry) fun b hb => (Option.some.inj (hb.symm.trans ha)) ▸ hdone
    have hbroker := @resume_release settings _ name turn' order t entry.leaseID _ v works hv hturn
    obtain ⟨hpending, hended⟩ := release_after (run (System.step settings) drained before).broker turn'.now order t
      entry.leaseID
    rw [← hbroker] at hpending hended
    refine ⟨?_, before, turn', order, after, rfl, ?_⟩
    · have hflow' : LeaseFlow (run (System.step settings) drained (before ++ [.resume name turn' order])) := by
        refine run_invariant_of_forall LeaseFlow (fun s e hs => hs.moves (step_moves settings s e)) _ ?_
        rw [hdrained]
        exact hrecorded.flow.moves (step_moves settings _ _)
      rw [List.append_cons, run_append]
      refine run_not_activeUnder after hflow' (run_leases settings _ hlease) ?_
      rw [run_append]
      exact hended
    · rw [run_append]
      exact hpending

/-- A task is posted to the endpoint. -/
def postedTask : List Event :=
  [.broker { now := 1, call := .enqueue { id := "t", queue := "q" } },
   .tellGateway "webhook-w" .postStart, .gateway 0 { now := 1 }, .grain 0 { now := 1, newID := "L1" },
   .pipe 0 1 {}, .grain 0 { now := 1, newID := "L2" }, .gateway 0 { now := 1 },
   .tellGateway "webhook-w" .drainSession]

/-- The gateway that has posted the task. -/
def postedGateway : WebhookGateway :=
  { WebhookGateway.preStart
      { name := "w", queues := (∅ : GoMap String Int32).insert "q" 1, concurrency := 2 } with
    inflight := (∅ : GoMap String InflightTask).insert "t"
      { leaseID := "L1", queue := "q", taskType := "", retried := 0, maxRetry := 0 }
    aborts := (∅ : GoMap String Nat).insert "t" 0 }

/-- The gateway releases the task and is unregistered; the grain leases the task again and finds nobody
to send it to. -/
def cleanStop : List Event :=
  [.resume "webhook-w" { now := 3 } {}, .tellGrain "q" (.unregisterGateway "webhook-w"),
   .grain 0 { now := 3, newID := "L3" }, .pipe 0 4 {}, .grain 0 { now := 4, newID := "L4" }]

theorem stopped_gateway_is_clean_cleanStop :
    let drained := run (System.step defaultSettings) (System.start endpointDeployment)
      (postedTask ++ [.gateway 0 { now := 2 }])
    StepsMeet (System.step defaultSettings)
        (fun s e => ∀ effect ∈ s.effectsOf defaultSettings "webhook-w" e, effect.posts = false) drained cleanStop ∧
      drained.broker.ActiveUnder "t" "L1" ∧
      ¬ (run (System.step defaultSettings) drained cleanStop).broker.ActiveUnder "t" "L1" := by
  have hmailbox : (run (System.step defaultSettings) (System.start endpointDeployment) postedTask).toGateway =
      [("webhook-w", .drainSession)] := rfl
  have hstopped := stopped_gateway_is_clean defaultSettings endpointDeployment postedTask cleanStop 0 { now := 2 }
    "webhook-w" postedGateway [] rfl rfl rfl
    (fun message h => by rw [hmailbox] at h; cases List.mem_singleton.mp h; rfl)
    ⟨trivial, trivial, rfl, trivial, rfl, trivial⟩
  exact ⟨hstopped.1, ⟨_, rfl, rfl, rfl⟩, (hstopped.2 _ rfl rfl "t" _ rfl).1⟩

/-- A task is leased, the gateway drains, the grain dispatches the task to it before it handles the
unregistration, and the gateway handles the dispatch before it shuts down. -/
def dispatchedToDrained : List Event :=
  [.broker { now := 1, call := .enqueue { id := "t", queue := "q" } },
   .tellGateway "webhook-w" .postStart, .gateway 0 { now := 1 }, .grain 0 { now := 1, newID := "L1" },
   .pipe 0 1 {}, .tellGateway "webhook-w" .drainSession, .gateway 0 { now := 2 },
   .grain 0 { now := 3, newID := "L2" }, .tellGrain "q" (.unregisterGateway "webhook-w"),
   .gateway 0 { now := 3 }, .grain 0 { now := 4, newID := "L3" }]

/-- The gateway posts the task after its drain turn, and the task stays active when every message has
been handled. -/
theorem posts_after_drain :
    let drained := run (System.step defaultSettings) (System.start endpointDeployment) (dispatchedToDrained.take 7)
    let stopped := run (System.step defaultSettings) (System.start endpointDeployment) dispatchedToDrained
    ((drained.gateways "webhook-w").any GatewayActor.draining = true ∧ drained.deliveries = []) ∧
      stopped.deliveries = [⟨"webhook-w", "q", "L1", ["t"], false, true, false⟩] ∧
      stopped.toGateway.isEmpty = true ∧ stopped.toGrain.isEmpty = true ∧
      (stopped.gateways "webhook-w").any GatewayActor.busy = false ∧
      (stopped.grains "q").account "webhook-w" = none ∧
      (stopped.broker.tasks.lookup "t").map (fun row => (row.state, row.leaseID)) = some (.active, "L1") := by
  decide +kernel

end Conveyor
