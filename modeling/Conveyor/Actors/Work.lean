import Conveyor.Actors.Tracking

/-!
# What a turn of a gateway leaves to do

The pieces of work in the turn of a gateway stand for broker calls it has still to make. `Starts` says
which message a piece of work comes from and which records it was read from; going on with a turn
takes the first piece off and adds none.
-/

namespace Conveyor

open Lib

variable {results : List Result} {cause : Option Nat} {turn : GatewayTurn} {message : GatewayMessage}

namespace Gateway

/-- The members a batch result is routed to: those of the batch of the first known member. -/
def routed (g : Gateway) (results : List Result) (first : InflightTask) (t : String) : Prop :=
  results.findSome? (fun result => g.inflight.lookup result.taskId) = some first ∧
    t ∈ (g.batches.lookup first.leaseID).getD []

/-- Where the work of a stream gateway's turn comes from. -/
inductive Starts (g : Gateway) : GatewayMessage → GatewayWork → Prop where
  | kept {message : GatewayMessage} {work : GatewayWork} (h : work ∈ g.turn) : Starts g message work
  | release {message : GatewayMessage} {taskID leaseID : String} : Starts g message (.release taskID leaseID)
  | settle {result : Result} {cause : Option Nat} {entry : InflightTask}
      (hentry : g.inflight.lookup result.taskId = some entry) :
      Starts g (.result result cause) (.settle entry result cause)
  | settleMember {results : List Result} {cause : Option Nat} {first entry : InflightTask} {t : String}
      (hrouted : g.routed results first t) (hentry : g.inflight.lookup t = some entry) :
      Starts g (.batchResult results cause) (.settleMember entry (memberResult results t) cause)
  | ackBatch {results : List Result} {cause : Option Nat} {first : InflightTask} {items : List AckItem}
      {total : Nat} (hitems : ∀ item ∈ items, g.routed results first item.taskID ∧
        ∃ entry, g.inflight.lookup item.taskID = some entry ∧ entry.leaseID = item.leaseID) :
      Starts g (.batchResult results cause) (.ackBatch items first.queue total cause)
  | extendLease {message : GatewayMessage} {taskID : String} : Starts g message (.extendLease taskID)
  | setProgress {message : GatewayMessage} {taskID leaseID text : String} {percent : UInt32} :
      Starts g message (.setProgress taskID leaseID percent text)

/-- The result applied to a member names it. -/
@[simp] theorem memberResult_taskId (results : List Result) (t : String) : (memberResult results t).taskId = t := by
  rw [memberResult]
  cases hfind : results.reverse.find? (·.taskId == t) with
  | none => rfl
  | some result =>
    have hnamed := List.find?_some hfind
    exact beq_iff_eq.mp hnamed

variable (g : Gateway)

variable {work : GatewayWork}

/-- The work of a batch result is for members of the batch of its first known member. -/
theorem batchResult_starts (h : work ∈ (g.batchResult results cause).turn) :
    g.Starts (.batchResult results cause) work := by
  rw [batchResult] at h
  split at h
  · exact .kept h
  · rename_i first hfirst
    split at h
    · exact .kept h
    · obtain ⟨htaken, -⟩ :=
        takeMembers_spec ((g.batches.lookup first.leaseID).getD []) g.inflight
      simp only [batchWork, List.mem_append, List.mem_map, List.mem_filter, List.mem_singleton] at h
      rcases h with ⟨member, ⟨hmember, -⟩, rfl⟩ | rfl
      · obtain ⟨hmem, hentry⟩ := htaken member hmember
        exact .settleMember ⟨hfirst, hmem⟩ hentry
      · refine .ackBatch fun item hitem => ?_
        obtain ⟨member, hmember, rfl⟩ := List.mem_map.mp hitem
        obtain ⟨hmem, hentry⟩ := htaken member (List.mem_filter.mp hmember).1
        exact ⟨⟨hfirst, hmem⟩, member.2, hentry, rfl⟩

/-- The work a message leaves to do. -/
theorem receive_starts (h : work ∈ (g.receive turn message).1.turn) : g.Starts message work := by
  cases message with
  | executeTask =>
    simp only [receive, dispatch] at h
    split at h
    · exact .kept h
    · exact List.mem_singleton.mp h ▸ .release
  | executeBatch tasks leaseID expiresAt group =>
    cases tasks with
    | nil => exact .kept h
    | cons task rest =>
      simp only [receive, dispatchBatch] at h
      split at h
      · exact .kept h
      · obtain ⟨id, -, rfl⟩ := List.mem_map.mp h
        exact .release
  | result result cause =>
    simp only [receive, Gateway.result] at h
    split at h
    · exact .kept h
    · rename_i entry hentry
      exact List.mem_singleton.mp h ▸ .settle hentry
  | batchResult => exact batchResult_starts g h
  | heartbeat ids =>
    obtain ⟨id, -, rfl⟩ := List.mem_map.mp h
    exact .extendLease
  | progress =>
    simp only [receive, progress] at h
    split at h
    · exact .kept h
    · exact List.mem_singleton.mp h ▸ .setProgress
  | cancelActive taskID =>
    simp only [receive, cancelActive] at h
    split at h <;> exact .kept h
  | drainSession =>
    obtain ⟨id, -, hwork⟩ := List.mem_filterMap.mp h
    obtain ⟨entry, -, rfl⟩ := Option.map_eq_some_iff.mp hwork
    exact .release
  | _ => exact .kept h

end Gateway

namespace WebhookGateway

/-- Where the work of a webhook gateway's turn comes from. -/
inductive Starts (w : WebhookGateway) : GatewayMessage → WebhookWork → Prop where
  | kept {message : GatewayMessage} {work : WebhookWork} (h : work ∈ w.turn) : Starts w message work
  | release {message : GatewayMessage} {taskID leaseID : String} {open_ : Option Nat} :
      Starts w message (.release taskID leaseID open_)
  | resolve {taskID : String} {answer : WebhookAnswer} {cause : Nat} :
      Starts w (.webhookDelivery taskID answer cause)
        (.resolve taskID (deliveryResult taskID answer) (some cause))
  | callback {taskID leaseID errorMsg : String} {outcome : TaskOutcome} :
      Starts w (.leaseResult taskID leaseID outcome errorMsg)
        (.resolve taskID ⟨taskID, outcome, errorMsg⟩ none)
  | member {leaseID transportError t : String} {outcomes : GoMap String WebhookAnswer} {cause : Nat}
      {state : WebhookBatch} (hstate : w.batchStates.lookup leaseID = some state)
      (hmember : t ∈ state.members) :
      Starts w (.webhookBatchDelivery leaseID outcomes transportError cause)
        (.member t (memberAccepted outcomes transportError t)
          (batchMemberResult outcomes transportError t) cause)
  | extendLease {message : GatewayMessage} {taskID : String} : Starts w message (.extendLease taskID)
  | extendAsync {message : GatewayMessage} {taskID : String} : Starts w message (.extendAsync taskID)
  | reapStale {message : GatewayMessage} : Starts w message .reapStale

/-- The result applied to a batch member names it. -/
@[simp] theorem batchMemberResult_taskId (outcomes : GoMap String WebhookAnswer)
    (transportError t : String) : (batchMemberResult outcomes transportError t).taskId = t := by
  rw [batchMemberResult]
  split
  · rfl
  · split <;> rfl

variable (w : WebhookGateway)

@[simp] theorem recordTransport_turn (settings : Settings) (turn : GatewayTurn) :
    (w.recordTransport settings turn).1.turn = w.turn :=
  (recordTransport_part (P := fun _ _ _ => True)).frame.2.1

@[simp] theorem abortRequest_turn (taskID : String) : (w.abortRequest taskID).1.turn = w.turn :=
  (abortRequest_part (P := fun _ _ _ => True) (A := True) taskID).frame.2.1

/-- The work a message leaves to do. -/
theorem receive_starts {settings : Settings} {work : WebhookWork}
    (h : work ∈ (w.receive settings turn message).1.turn) : w.Starts message work := by
  cases message with
  | executeBatch tasks leaseID expiresAt group =>
    cases tasks <;> exact .kept h
  | webhookDelivery =>
    simp only [receive, complete] at h
    split at h
    · exact .kept h
    · split at h
      · exact .kept (by simpa [acceptAsync] using h)
      · exact List.mem_singleton.mp h ▸ .resolve
  | webhookBatchDelivery =>
    simp only [receive, completeBatch] at h
    split at h
    · exact .kept h
    · rename_i state hstate
      obtain ⟨t, ht, rfl⟩ := List.mem_map.mp h
      exact .member hstate ht
  | leaseHeartbeat =>
    simp only [receive, heartbeatAsync] at h
    split at h
    · exact .kept h
    · split at h
      · exact List.mem_singleton.mp h ▸ .extendAsync
      · exact .kept h
  | leaseResult =>
    simp only [receive, resultAsync] at h
    split at h
    · exact .kept h
    · split at h
      · exact List.mem_singleton.mp h ▸ .callback
      · exact .kept h
  | cancelActive taskID =>
    simp only [receive, cancelActive] at h
    split at h
    · exact .kept h
    · split at h
      · exact .kept (by simpa using h)
      · exact .kept h
  | drainSession =>
    obtain ⟨id, -, hwork⟩ := List.mem_filterMap.mp h
    obtain ⟨entry, -, rfl⟩ := Option.map_eq_some_iff.mp hwork
    exact .release
  | registerTick =>
    simp only [receive, tick, tickWork, List.mem_append, List.mem_map, List.mem_singleton] at h
    rcases h with ⟨id, -, rfl⟩ | rfl
    · exact .extendLease
    · exact .reapStale
  | _ => exact .kept h

end WebhookGateway

variable {w' : WebhookGateway}

namespace GatewayActor

variable {settings : Settings} {turn : GatewayTurn} {reply : Reply} {a : GatewayActor}

/-- Going on with a stream gateway's turn adds no work. -/
theorem resume_work_stream {g' : Gateway} (h : (a.resume settings turn reply).1 = .stream g') :
    ∃ g, a = .stream g ∧ ∀ work ∈ g'.turn, work ∈ g.turn := by
  cases a with
  | webhook w =>
    simp only [resume] at h
    split at h <;> cases h
  | stream g =>
    refine ⟨g, rfl, fun work hwork => ?_⟩
    simp only [resume] at h
    split at h
    · cases h
      exact hwork
    · rename_i first rest hturn
      obtain rfl : (Gateway.finish turn { g with turn := rest } reply first).1 = g' := stream.inj h
      obtain ⟨inflight, batches, heq, -⟩ := Gateway.finish_state { g with turn := rest } turn reply first
      rw [heq] at hwork
      exact hturn ▸ .tail first hwork

/-- Going on with a webhook gateway's turn adds no work. -/
theorem resume_work_webhook (h : (a.resume settings turn reply).1 = .webhook w') :
    ∃ w, a = .webhook w ∧ ∀ work ∈ w'.turn, work ∈ w.turn := by
  cases a with
  | stream g =>
    simp only [resume] at h
    split at h <;> cases h
  | webhook w =>
    refine ⟨w, rfl, fun work hwork => ?_⟩
    simp only [resume] at h
    split at h
    · cases h
      exact hwork
    · rename_i first rest hturn
      obtain rfl : (WebhookGateway.finish settings turn { w with turn := rest } reply first).1 = w' := webhook.inj h
      rw [(WebhookGateway.finish_part reply first).frame.2.1] at hwork
      exact hturn ▸ .tail first hwork

/-- An idle gateway has no work left. -/
theorem not_settles_of_idle (hidle : a.busy = false) {t leaseID : String} : ¬ a.Settles cause t leaseID := by
  intro h
  cases a with
  | stream g =>
    obtain ⟨work, hwork, -⟩ := h
    have hturn : g.turn = [] := by simpa [busy] using hidle
    rw [hturn] at hwork
    cases hwork
  | webhook w =>
    obtain ⟨work, hwork, -⟩ := h
    have hturn : w.turn = [] := by simpa [busy] using hidle
    rw [hturn] at hwork
    cases hwork

/-- The members a batch result is routed to are what the gateway takes it to be about. -/
theorem concerns_of_routed {g : Gateway} {first : InflightTask}
    {t : String} (h : g.routed results first t) : Concerns (.stream g) t (.batchResult results cause) := by
  obtain ⟨hfirst, hmember⟩ := h
  obtain ⟨result, hresult, hlookup⟩ := List.exists_of_findSome?_eq_some hfirst
  cases hids : g.batches.lookup first.leaseID with
  | none =>
    rw [hids] at hmember
    cases hmember
  | some ids =>
    rw [hids] at hmember
    exact ⟨result, hresult, first, ids, hlookup, hids, hmember⟩

/-- What an idle gateway has to settle after a message is what it took the message to answer. -/
theorem receive_settles (hidle : a.busy = false) {t leaseID : String}
    (h : (a.receive settings turn message).1.Settles cause t leaseID) : a.Takes message cause t leaseID := by
  cases a with
  | stream g =>
    obtain ⟨work, hwork, hsettles⟩ := h
    cases Gateway.receive_starts g hwork with
    | kept hold => exact absurd ⟨work, hold, hsettles⟩ (not_settles_of_idle hidle)
    | settle hentry =>
      cases hsettles
      exact ⟨rfl, rfl, _, hentry, rfl⟩
    | settleMember hrouted hentry =>
      cases hsettles
      rw [Gateway.memberResult_taskId]
      exact ⟨rfl, concerns_of_routed hrouted, _, hentry, rfl⟩
    | ackBatch hitems =>
      cases hsettles with
      | acknowledge hitem =>
        obtain ⟨hrouted, entry, hentry, hlease⟩ := hitems _ hitem
        exact ⟨rfl, concerns_of_routed hrouted, entry, hentry, hlease⟩
    | release => cases hsettles
    | extendLease => cases hsettles
    | setProgress => cases hsettles
  | webhook w =>
    obtain ⟨work, hwork, hsettles⟩ := h
    -- the records the work will look up were there before the turn
    have hkept : message.dispatched = [] → ∀ taskID e,
        (w.receive settings turn message).1.inflight.lookup taskID = some e →
          ∃ old, w.inflight.lookup taskID = some old ∧ old.leaseID = e.leaseID := by
      intro hnone taskID e he
      have hkeeps : Keeps (.webhook w) (receive settings turn message (.webhook w)).1 := receive_keeps hnone
      obtain ⟨old, hold, hsame⟩ := hkeeps.records taskID e he
      exact ⟨old, hold, hsame.leaseID⟩
    cases WebhookGateway.receive_starts w hwork with
    | kept hold =>
      have hturn : w.turn = [] := by simpa [busy] using hidle
      rw [hturn] at hold
      cases hold
    | resolve =>
      cases hsettles with
      | resolve he => exact ⟨rfl, rfl, hkept rfl _ _ he⟩
    | callback =>
      cases hsettles with
      | resolve he => exact ⟨rfl, rfl, hkept rfl _ _ he⟩
    | @member L transportError t' outcomes number state hstate hmember =>
      have hmembers : members L (.webhook w) = some state.members := by simp [members, hstate]
      generalize memberAccepted outcomes transportError t' = accepted at hsettles
      cases hsettles with
      | member he =>
        rw [WebhookGateway.batchMemberResult_taskId]
        exact ⟨rfl, ⟨_, hmembers, hmember⟩, hkept rfl _ _ he⟩
      | park he => exact ⟨rfl, ⟨_, hmembers, hmember⟩, hkept rfl _ _ he⟩
    | release => cases hsettles
    | extendLease => cases hsettles
    | extendAsync => cases hsettles
    | reapStale => cases hsettles

/-- Going on with a turn leaves nothing new to settle. -/
theorem resume_settles {t leaseID : String}
    (h : (a.resume settings turn reply).1.Settles cause t leaseID) : a.Settles cause t leaseID := by
  generalize hafter : (a.resume settings turn reply).1 = after at h
  cases after with
  | stream g' =>
    obtain ⟨g, rfl, hkept⟩ := resume_work_stream hafter
    obtain ⟨work, hwork, hsettles⟩ := h
    exact ⟨work, hkept work hwork, hsettles⟩
  | webhook w' =>
    have hkeeps : Keeps a (a.resume settings turn reply).1 := resume_keeps reply
    rw [hafter] at hkeeps
    obtain ⟨w, rfl, hkept⟩ := resume_work_webhook hafter
    obtain ⟨work, hwork, hsettles⟩ := h
    refine ⟨work, hkept work hwork, ?_⟩
    cases hsettles with
    | resolve he =>
      obtain ⟨old, hold, hsame⟩ := hkeeps.records _ _ he
      exact hsame.leaseID ▸ .resolve hold
    | member he =>
      obtain ⟨old, hold, hsame⟩ := hkeeps.records _ _ he
      exact hsame.leaseID ▸ .member hold
    | park he =>
      obtain ⟨old, hold, hsame⟩ := hkeeps.records _ _ he
      exact hsame.leaseID ▸ .park hold

end GatewayActor

/-- The result of the work is one for the task it looks up. -/
def WebhookWork.Named : WebhookWork → Prop
  | .resolve taskID result _ | .member taskID _ result _ => result.taskId = taskID
  | _ => True

/-- The work of every webhook gateway's turn names the tasks it looks up. -/
def System.WorkNamed (s : System) : Prop :=
  ∀ name w, s.gateways name = some (.webhook w) → ∀ work ∈ w.turn, work.Named

section Named

variable {settings : Settings} {s s' : System} {e : Event}

variable {a : GatewayActor}

/-- The work of a webhook gateway's turn names the tasks it looks up. -/
theorem receive_named (h : (a.receive settings turn message).1 = .webhook w')
    (hnamed : ∀ w, a = .webhook w → ∀ work ∈ w.turn, work.Named) : ∀ work ∈ w'.turn, work.Named := by
  intro work hwork
  cases a with
  | stream g => cases h
  | webhook w =>
    cases GatewayActor.webhook.inj h
    cases WebhookGateway.receive_starts w hwork with
    | kept hold => exact hnamed w rfl work hold
    | member => exact WebhookGateway.batchMemberResult_taskId _ _ _
    | resolve => rfl
    | callback => rfl
    | _ => trivial

/-- A system that starts has nothing to do. -/
theorem workNamed_start (d : Deployment) : (System.start d).WorkNamed := by
  intro name w hw work hwork
  rcases System.start_gateway hw with ⟨session, heq⟩ | ⟨registration, heq⟩
  · cases heq
  · cases heq
    cases hwork

namespace System.WorkNamed

/-- One gateway changes. -/
theorem update (h : s.WorkNamed) {name : String} (hgateways : s'.gateways = Function.update s.gateways name (some a))
    (hnamed : ∀ w, a = .webhook w → ∀ work ∈ w.turn, work.Named) : s'.WorkNamed := by
  intro other w hw
  rw [hgateways, Function.update_apply] at hw
  split at hw
  · exact hnamed w (Option.some.inj hw)
  · exact h other w hw

/-- Every step keeps the work naming its tasks. -/
theorem moves (h : s.WorkNamed) (hmove : Moves settings s e s') : s'.WorkNamed := by
  cases hmove with
  | @gateway index turn name message rest a htake ha hidle =>
    exact h.update rfl fun w hw => receive_named hw fun w hw => h name w (hw ▸ ha)
  | @resume name turn order a ha hbusy =>
    refine h.update rfl fun w' hw' work hwork => ?_
    obtain ⟨w, rfl, hkept⟩ := GatewayActor.resume_work_webhook hw'
    exact h name w ha work (hkept work hwork)
  | @pipe index now order p rest htake =>
    cases p with
    | release queue leaseID taskIDs released failed => cases taskIDs <;> exact h
    | _ => exact h
  | _ => exact h

end System.WorkNamed

end Named

end Conveyor
