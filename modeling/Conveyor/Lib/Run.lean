import Mathlib.Data.List.Basic

/-!
# Runs of a state machine

A run applies a list of events to a state. A condition on the single steps of a run carries over to
an invariant of the states the run goes through.
-/

namespace Conveyor.Lib

variable {S E : Type} (step : S → E → S)

/-- The state after a run. -/
def run (s : S) (events : List E) : S := events.foldl step s

theorem run_append (s : S) (events more : List E) :
    run step s (events ++ more) = run step (run step s events) more := List.foldl_append

@[simp] theorem run_nil (s : S) : run step s [] = s := rfl

@[simp] theorem run_cons (s : S) (e : E) (rest : List E) : run step s (e :: rest) = run step (step s e) rest := rfl

/-- Every event of a run meets a condition on the state it happens in. -/
def StepsMeet (P : S → E → Prop) : S → List E → Prop
  | _, [] => True
  | s, e :: rest => P s e ∧ StepsMeet P (step s e) rest

/-- The condition of a run can be checked step by step. -/
instance decidableStepsMeet (P : S → E → Prop) [∀ s e, Decidable (P s e)] :
    (s : S) → (events : List E) → Decidable (StepsMeet step P s events)
  | _, [] => isTrue trivial
  | s, e :: rest =>
    have := decidableStepsMeet P (step s e) rest
    inferInstanceAs (Decidable (P s e ∧ StepsMeet step P (step s e) rest))

variable {step}

variable {P : S → E → Prop}

/-- What every step that meets the condition preserves holds after every such run. -/
theorem run_invariant (Inv : S → Prop) (hstep : ∀ s e, P s e → Inv s → Inv (step s e)) (s : S)
    (events : List E) (hmeet : StepsMeet step P s events) (hstart : Inv s) : Inv (run step s events) := by
  induction events generalizing s with
  | nil => exact hstart
  | cons e rest ih => exact ih (step s e) hmeet.2 (hstep s e hmeet.1 hstart)

variable {s : S} {events : List E}

/-- What the condition and an invariant together imply for single steps is met by the whole run. -/
theorem StepsMeet.imp {Q : S → E → Prop} (Inv : S → Prop)
    (hstep : ∀ s e, P s e → Inv s → Inv (step s e)) (himp : ∀ s e, P s e → Inv s → Q s e)
    (hmeet : StepsMeet step P s events) (hstart : Inv s) : StepsMeet step Q s events := by
  induction events generalizing s with
  | nil => trivial
  | cons e rest ih => exact ⟨himp s e hmeet.1 hstart, ih hmeet.2 (hstep s e hmeet.1 hstart)⟩

/-- An invariant of all steps holds after every run. -/
theorem run_invariant_of_forall (Inv : S → Prop) (hstep : ∀ s e, Inv s → Inv (step s e))
    (events : List E) (hstart : Inv s) : Inv (run step s events) := by
  induction events generalizing s with
  | nil => exact hstart
  | cons e rest ih => exact ih (hstep s e hstart)

theorem stepsMeet_append {more : List E} :
    StepsMeet step P s (events ++ more) ↔ StepsMeet step P s events ∧ StepsMeet step P (run step s events) more := by
  induction events generalizing s with
  | nil => simp [StepsMeet]
  | cons e rest ih => exact (and_congr_right fun _ => ih).trans and_assoc.symm

theorem StepsMeet.and {Q : S → E → Prop} (h : StepsMeet step P s events)
    (h' : StepsMeet step Q s events) : StepsMeet step (fun s e => P s e ∧ Q s e) s events := by
  induction events generalizing s with
  | nil => trivial
  | cons e rest ih => exact ⟨⟨h.1, h'.1⟩, ih h.2 h'.2⟩

/-- Some event of a run marks the item in the state it happens in. -/
def Happened {T : Type} (step : S → E → S) (mark : S → E → T → Prop) (item : T) : S → List E → Prop
  | _, [] => False
  | s, e :: rest => mark s e item ∨ Happened step mark item (step s e) rest

/-- An invariant with a memory of the items marked so far: what a step preserves while it adds the items it
marks holds after a run with all the items the run marked. -/
theorem run_history {T : Type} (mark : S → E → T → Prop) (Inv : (T → Prop) → S → Prop)
    (hstep : ∀ seen s e, P s e → Inv seen s → Inv (fun item => seen item ∨ mark s e item) (step s e))
    {seen : T → Prop} (events : List E) (hmeet : StepsMeet step P s events) (hstart : Inv seen s) :
    Inv (fun item => seen item ∨ Happened step mark item s events) (run step s events) := by
  induction events generalizing s seen with
  | nil => simpa [Happened] using hstart
  | cons e rest ih =>
    have hrest := ih hmeet.2 (hstep seen s e hmeet.1 hstart)
    simpa only [Happened, or_assoc, run_cons] using hrest

/-- A condition on the events alone is met by the steps of every run of such events. -/
theorem stepsMeet_of_forall {Q : E → Prop} (h : ∀ e ∈ events, Q e) (s : S) :
    StepsMeet step (fun _ e => Q e) s events := by
  induction events generalizing s with
  | nil => trivial
  | cons e rest ih =>
    exact ⟨h e (.head _), ih (fun e' he' => h e' (.tail e he')) (step s e)⟩

end Conveyor.Lib
