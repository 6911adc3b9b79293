import Conveyor.Actors.System
import Conveyor.Actors.GrainParts

/-!
# What a step of the system can do

`Moves` lists the steps with the guards under which they happen. The step of a piped call is one update
of the state whatever the call: the call is made, a lease may be handed out, a report may go to the grain,
and the pipe may go on.
-/

namespace Conveyor

open Lib

/-- The broker call a pipe makes next. -/
def Pipe.call (settings : Settings) : Pipe → Option Call
  | .lease queue limit leaseID _ => some (.lease queue limit settings.leaseTTL leaseID)
  | .leaseGroup queue group _ limit leaseID _ =>
    some (.leaseGroup queue group limit settings.leaseTTL leaseID)
  | .release _ _ [] .. => none
  | .release _ leaseID (taskID :: _) .. => some (.release taskID leaseID)

/-- The lease a pipe hands out when it makes its next step, with its queue. -/
def Pipe.handsOut : Pipe → Option (String × String)
  | .lease queue _ leaseID _ | .leaseGroup queue _ _ _ leaseID _ => some (leaseID, queue)
  | .release .. => none

theorem Pipe.leaseID_eq (p : Pipe) : p.leaseID? = p.handsOut.map Prod.fst := by cases p <;> rfl

/-- A pipe's call hands out the lease id of the pipe. -/
theorem Pipe.call_leaseID {settings : Settings} {p : Pipe} {call : Call} (h : p.call settings = some call) :
    call.leaseID? = p.leaseID? := by
  cases p with
  | release queue leaseID taskIDs => cases taskIDs <;> cases h; rfl
  | _ => cases h; rfl

/-- A pipe's call commits no task and counts no failure. -/
theorem Pipe.call_claims {settings : Settings} {p : Pipe} {call : Call} (h : p.call settings = some call) :
    call.enqueued = [] ∧ ∀ t leaseID errMsg processAt, call ≠ .fail t leaseID errMsg processAt := by
  cases p with
  | release queue leaseID taskIDs => cases taskIDs <;> cases h; exact ⟨rfl, fun _ _ _ _ => nofun⟩
  | _ => cases h; exact ⟨rfl, fun _ _ _ _ => nofun⟩

/-- The reports of piped calls. -/
def GrainMessage.Piped : GrainMessage → Prop
  | .leaseCycleCompleted .. | .groupLeaseCompleted .. | .leasedTasksReleased .. => True
  | _ => False

namespace System

variable (settings : Settings) (s : System) (now : Time) (order : Iteration)

/-- What a piped call reports to a grain when it makes its next step. -/
def pipeReport : Pipe → Option (String × GrainMessage)
  | .lease queue limit leaseID expiresAt =>
    some (queue, .leaseCycleCompleted leaseID expiresAt ""
      (leasedTasks (s.broker.exec ⟨now, .lease queue limit settings.leaseTTL leaseID, order⟩).2))
  | .leaseGroup queue group type limit leaseID expiresAt =>
    some (queue, .groupLeaseCompleted leaseID expiresAt group type ""
      (leasedTasks (s.broker.exec ⟨now, .leaseGroup queue group limit settings.leaseTTL leaseID, order⟩).2))
  | .release queue _ [] released failed => some (queue, .leasedTasksReleased released failed)
  | .release .. => none

/-- What is left of a pipe after its next step. -/
def pipeRest : Pipe → Option Pipe
  | .release queue leaseID (taskID :: rest) released failed =>
    some (if (s.broker.exec ⟨now, .release taskID leaseID, order⟩).2 = .ok then
      .release queue leaseID rest (released + 1) failed
      else .release queue leaseID rest released (failed + 1))
  | _ => none

theorem pipeStep_eq (p : Pipe) :
    s.pipeStep settings now order p = { s with
      broker := (p.call settings).elim s.broker fun call => s.broker.after ⟨now, call, order⟩
      leases := s.leases ++ p.handsOut.toList
      pipes := s.pipes ++ (s.pipeRest now order p).toList
      toGrain := s.toGrain ++ (s.pipeReport settings now order p).toList } := by
  cases p with
  | release queue leaseID taskIDs =>
    cases taskIDs <;> simp [pipeStep, pipeReport, pipeRest, Pipe.call, Pipe.handsOut, Broker.after]
  | _ => simp [pipeStep, pipeReport, pipeRest, Pipe.call, Pipe.handsOut, Broker.after]

/-- What a piped call reports no gateway tells. -/
theorem pipeReport_piped {settings : Settings} {s : System} {now : Time} {order : Iteration} {pipe : Pipe}
    {p : String × GrainMessage} (h : s.pipeReport settings now order pipe = some p) : p.2.Piped := by
  cases pipe with
  | release queue leaseID taskIDs =>
    cases taskIDs <;> cases h
    trivial
  | _ =>
    cases h
    trivial

/-- What is left of a pipe releases tasks. -/
theorem pipeRest_release {s : System} {now : Time} {order : Iteration} {p rest : Pipe}
    (h : s.pipeRest now order p = some rest) :
    ∃ queue leaseID taskIDs released failed, rest = .release queue leaseID taskIDs released failed := by
  cases p with
  | release queue leaseID taskIDs =>
    cases taskIDs with
    | nil => cases h
    | cons =>
      cases h
      split <;> exact ⟨_, _, _, _, _, rfl⟩
  | _ => cases h

end System

/-- The steps of the system, each with its guard. -/
inductive Moves (settings : Settings) (s : System) : Event → System → Prop where
  | idle (e : Event) : Moves settings s e s
  | broker {i : Invocation} (h : i.call.external = true) :
      Moves settings s (.broker i) { s with broker := s.broker.after i }
  | tellGrain {queue : String} {message : GrainMessage} (h : s.mayTell message = true) :
      Moves settings s (.tellGrain queue message)
        { s with toGrain := s.toGrain ++ [(queue, message)] }
  | tellGateway {name : String} {message : GatewayMessage} {a : GatewayActor}
      (ha : s.gateways name = some a) (h : a.admits message = true) :
      Moves settings s (.tellGateway name message)
        { s with toGateway := s.toGateway ++ [(name, message)] }
  | grain {index : Nat} {turn : GrainTurn} {queue : String} {message : GrainMessage}
      {rest : List (String × GrainMessage)}
      (htake : takeAt s.toGrain index = some ((queue, message), rest))
      (hfresh : s.fresh turn.newID = true) :
      Moves settings s (.grain index turn)
        ({ s with toGrain := rest }.grainTurn settings turn queue message)
  | gateway {index : Nat} {turn : GatewayTurn} {name : String} {message : GatewayMessage}
      {rest : List (String × GatewayMessage)} {a : GatewayActor}
      (htake : takeAt s.toGateway index = some ((name, message), rest))
      (ha : s.gateways name = some a) (hidle : a.busy = false) :
      Moves settings s (.gateway index turn)
        ({ s with toGateway := rest }.gatewayTurn settings turn name message a)
  | resume {name : String} {turn : GatewayTurn} {order : Iteration} {a : GatewayActor}
      (ha : s.gateways name = some a) (hbusy : a.busy = true) :
      Moves settings s (.resume name turn order) (s.gatewayResume settings turn order name a)
  | pipe {index : Nat} {now : Time} {order : Iteration} {p : Pipe} {rest : List Pipe}
      (htake : takeAt s.pipes index = some (p, rest)) :
      Moves settings s (.pipe index now order) ({ s with pipes := rest }.pipeStep settings now order p)
  | answer {number : Nat} {answer : Answer} {d : Delivery} {a : GatewayActor}
      {message : GatewayMessage} (hd : s.deliveries[number]? = some d) (hopen : d.open_ = true)
      (ha : s.gateways d.gateway = some a) (hreport : d.report number a answer = some message) :
      Moves settings s (.answer number answer)
        { s with
          deliveries := s.deliveries.modify number fun d => { d with open_ := false }
          toGateway := s.toGateway ++ [(d.gateway, message)] }

/-- Every step is one of the listed ones. -/
theorem step_moves (settings : Settings) (s : System) (e : Event) : Moves settings s e (s.step settings e) := by
  cases e with
  | broker i =>
    simp only [System.step]
    split_ifs with h
    · exact .broker h
    · exact .idle _
  | tellGrain =>
    simp only [System.step]
    split_ifs with h
    · exact .tellGrain h
    · exact .idle _
  | tellGateway name message =>
    simp only [System.step]
    split_ifs with h
    · cases ha : s.gateways name with
      | none => rw [ha] at h; cases h
      | some a =>
        rw [ha] at h
        exact .tellGateway ha h
    · exact .idle _
  | grain index turn =>
    simp only [System.step]
    split
    · exact .idle _
    · rename_i queue message rest htake
      split_ifs with hfresh
      · exact .grain htake hfresh
      · exact .idle _
  | gateway index turn =>
    simp only [System.step]
    split
    · exact .idle _
    · rename_i name message rest htake
      split
      · exact .idle _
      · rename_i a ha
        split
        · exact .idle _
        · rename_i hidle
          exact .gateway htake ha (by simpa using hidle)
  | resume =>
    simp only [System.step]
    split
    · exact .idle _
    · rename_i a ha
      split_ifs with hbusy
      · exact .resume ha hbusy
      · exact .idle _
  | pipe =>
    simp only [System.step]
    split
    · exact .idle _
    · rename_i p rest htake
      exact .pipe htake
  | answer number answer =>
    simp only [System.step]
    split
    · exact .idle _
    · rename_i d hd
      split_ifs with hopen
      · rw [System.answerDelivery]
        cases ha : s.gateways d.gateway with
        | none => exact .idle _
        | some a =>
          cases hreport : d.report number a answer with
          | none => simpa [hreport] using Moves.idle _
          | some message => simpa [hreport] using Moves.answer hd hopen ha hreport
      · exact .idle _

end Conveyor
