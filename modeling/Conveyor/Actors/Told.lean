import Conveyor.Actors.Records

/-!
# What gateways announce and return

The messages with which a gateway moves credits: a registration, for a queue it serves, and credits it
hands back, which are never negative.
-/

namespace Conveyor

open Lib

/-- An effect that announces a capacity only as allowed, and hands back no negative credits. -/
def GatewayEffect.Tells (announces : String → Int32 → Prop) : GatewayEffect → Prop
  | .tellGrain of (.registerGateway _ capacity _ _) => announces of capacity
  | .tellGrain _ (.gatewayCredit _ n) => 0 ≤ n.toInt
  | _ => True

/-- The effects of a part of a turn. -/
def Told (announces : String → Int32 → Prop) (effects : List GatewayEffect) : Prop :=
  ∀ e ∈ effects, e.Tells announces

variable {announces : String → Int32 → Prop}

theorem GatewayEffect.Follows.tells {P : Option Nat → String → String → Prop} {name : String} {e : GatewayEffect}
    (h : e.Follows P announces name) : e.Tells announces := by
  cases h with
  | announce h => exact h
  | credit h => exact h
  | _ => trivial

namespace WebhookGateway

/-- The registration after a message: an update replaces it. -/
def registrationAfter (w : WebhookGateway) : GatewayMessage → WebhookWorker
  | .updateRegistration worker => worker
  | _ => w.registration

theorem receive_registration {w : WebhookGateway} {settings : Settings} {turn : GatewayTurn}
    (message : GatewayMessage) : (w.receive settings turn message).1.registration = w.registrationAfter message := by
  have hroutine : routine message = true → (w.receive settings turn message).1.registration = w.registration := by
    intro hroutine
    obtain ⟨w', work, heq, hpart⟩ := receive_part (P := fun _ _ _ => True) settings turn hroutine
      fun _ _ _ _ _ _ => trivial
    rw [heq]
    exact hpart.frame.1
  cases message with
  | executeBatch tasks => cases tasks <;> rfl
  | executeTask | drainSession | updateRegistration | deferredCompletion => rfl
  | _ => exact hroutine rfl

end WebhookGateway

namespace GatewayActor

variable {a : GatewayActor} {settings : Settings} {turn : GatewayTurn}

theorem receive_tells {message : GatewayMessage} (h : message.Pays) :
    Told (a.Announces message) (a.receive settings turn message).2 := by
  rcases dispatched_or_delivery message a.name (a.sends turn) with hnone | ⟨d, hd⟩
  · exact fun e he => (receive_follows hnone h e he).tells
  · rw [(receive_dispatch settings turn hd).1]
    exact List.forall_mem_singleton.mpr trivial

theorem resume_tells (reply : Reply) : Told announces (a.resume settings turn reply).2 :=
  fun e he => ((resume_follows reply e he).mono (fun _ _ _ h => h) fun _ _ => False.elim).tells

end GatewayActor

/-- A message among the effects of a part of a turn. -/
theorem Told.message {effects : List GatewayEffect} (h : Told announces effects) {of : String} {message : GrainMessage}
    (hmem : (of, message) ∈ effects.filterMap GatewayEffect.message) :
    (GatewayEffect.tellGrain of message).Tells announces := by
  obtain ⟨effect, heffect, hmessage⟩ := List.mem_filterMap.mp hmem
  cases effect with
  | tellGrain =>
    cases hmessage
    exact h _ heffect
  | _ => cases hmessage

section Session

variable {settings : Settings}

/-- A turn changes neither the session nor what the gateway announces, and only a stop drains it. -/
theorem Gateway.receive_session {g : Gateway} {turn : GatewayTurn} {message : GatewayMessage} :
    (g.receive turn message).1.session = g.session ∧ (g.receive turn message).1.capacities = g.capacities ∧
      (message ≠ .drainSession → (g.receive turn message).1.draining = g.draining) := by
  cases message with
  | drainSession => exact ⟨rfl, rfl, absurd rfl⟩
  | executeTask =>
    rw [receive, dispatch]
    dsimp only
    split <;> exact ⟨rfl, rfl, fun _ => rfl⟩
  | executeBatch tasks leaseID expiresAt group =>
    cases tasks with
    | nil => exact ⟨rfl, rfl, fun _ => rfl⟩
    | cons =>
      rw [receive, dispatchBatch]
      dsimp only
      split <;> exact ⟨rfl, rfl, fun _ => rfl⟩
  | result result cause =>
    rw [receive, Gateway.result]
    split <;> exact ⟨rfl, rfl, fun _ => rfl⟩
  | batchResult =>
    rw [receive, Gateway.batchResult]
    split
    · exact ⟨rfl, rfl, fun _ => rfl⟩
    · split <;> exact ⟨rfl, rfl, fun _ => rfl⟩
  | progress =>
    rw [receive, Gateway.progress]
    split <;> exact ⟨rfl, rfl, fun _ => rfl⟩
  | cancelActive taskID =>
    rw [receive, Gateway.cancelActive]
    split <;> exact ⟨rfl, rfl, fun _ => rfl⟩
  | _ => exact ⟨rfl, rfl, fun _ => rfl⟩

theorem GatewayActor.resume_session {g g' : Gateway} {turn : GatewayTurn} {reply : Reply}
    (h : ((GatewayActor.stream g).resume settings turn reply).1 = .stream g') :
    g'.session = g.session ∧ g'.capacities = g.capacities ∧ g'.draining = g.draining := by
  rw [resume] at h
  split at h
  · cases h
    exact ⟨rfl, rfl, rfl⟩
  · rename_i work rest _
    obtain ⟨inflight, batches, heq, -⟩ := Gateway.finish_state { g with turn := rest } turn reply work
    obtain rfl : (Gateway.finish turn { g with turn := rest } reply work).1 = g' := GatewayActor.stream.inj h
    rw [heq]
    exact ⟨rfl, rfl, rfl⟩

end Session

end Conveyor
