import Conveyor.Lib.Bag
import Conveyor.Lib.Run

/-!
# Wake-ups of one queue

Callers set a dirty flag and start a goroutine that sends wake-ups as long as the flag is set. A second flag,
under the same lock, tells whether such a goroutine runs. The steps of any number of callers and goroutines
interleave in any order; each locked section is one step.
-/

namespace Conveyor

open Lib

/-- The flags of one queue. -/
structure QueueWaker where
  dirty : Bool := false
  running : Bool := false

/-- What a call of `wake` does next. -/
inductive WakePoint where
  | load
  | lock
  | start

/-- What a drain goroutine does next. -/
inductive DrainPoint where
  | check
  | tell
  | told

/-- Whether a call is about to start a goroutine. -/
def WakePoint.starting : WakePoint → Int
  | .start => 1
  | _ => 0

/-- Whether the next step of a goroutine is a `TellQueue`. -/
def DrainPoint.telling : DrainPoint → Int
  | .tell => 1
  | _ => 0

/-- A call starts no negative number of goroutines. -/
theorem WakePoint.starting_nonneg (point : WakePoint) : 0 ≤ point.starting := by cases point <;> decide

/-- A goroutine starts at most one `TellQueue` next. -/
theorem DrainPoint.telling_mem (point : DrainPoint) : 0 ≤ point.telling ∧ point.telling ≤ 1 := by cases point <;> decide

/-- The queue's waker, once it is stored, with the calls and goroutines that have not ended. `tells` counts the
`TellQueue` calls that have started, and `marks` holds that count for each call at the moment it set the flag. -/
structure Waking where
  waker : Option QueueWaker := none
  callers : List WakePoint := []
  drains : List DrainPoint := []
  tells : Nat := 0
  marks : List Nat := []

namespace Waking

/-- The next step of a call: store the waker if there is none, mark it dirty, start a goroutine unless one runs. -/
def wake (s : Waking) : WakePoint → Waking
  | .load => { s with waker := some (s.waker.getD {}), callers := .lock :: s.callers }
  | .lock =>
    match s.waker with
    | none => s
    | some waker =>
      { s with
        waker := some { dirty := true, running := true }
        callers := if waker.running then s.callers else .start :: s.callers
        marks := s.tells :: s.marks }
  | .start => { s with drains := .check :: s.drains }

/-- The next step of a goroutine: clear the flag and send a wake-up, or find it clear and exit. -/
def drainWaker (s : Waking) : DrainPoint → Waking
  | .check =>
    match s.waker with
    | none => s
    | some waker =>
      if waker.dirty then { s with waker := some { waker with dirty := false }, drains := .tell :: s.drains }
      else { s with waker := some { waker with running := false } }
  | .tell => { s with tells := s.tells + 1, drains := .told :: s.drains }
  | .told => { s with drains := .check :: s.drains }

/-- A new call, or the next step of some call or goroutine. -/
inductive Step where
  | call
  | caller (index : Nat)
  | drain (index : Nat)

/-- One step of the queue's callers and goroutines. -/
def step (s : Waking) : Step → Waking
  | .call => { s with callers := .load :: s.callers }
  | .caller index =>
    match takeAt s.callers index with
    | some (point, rest) => { s with callers := rest }.wake point
    | none => s
  | .drain index =>
    match takeAt s.drains index with
    | some (point, rest) => { s with drains := rest }.drainWaker point
    | none => s

/-- The goroutines that are about to start or have not cleared `running`. -/
def live (s : Waking) : Int := weigh WakePoint.starting s.callers + weigh (fun _ => 1) s.drains

/-- Whether the waker says that a goroutine runs. -/
def running (s : Waking) : Bool := s.waker.any QueueWaker.running

/-- Whether a wake-up is owed. -/
def dirty (s : Waking) : Bool := s.waker.any QueueWaker.dirty

/-- The goroutines whose next step is a `TellQueue`. -/
def telling (s : Waking) : Int := weigh DrainPoint.telling s.drains

/-- The flag tells whether there is a goroutine, and every mark was followed by a wake-up or is owed one. -/
structure Coalesced (s : Waking) : Prop where
  live : s.live = if s.running then 1 else 0
  owed : ∀ mark ∈ s.marks, mark < s.tells ∨ mark = s.tells ∧ 0 < s.live ∧ (s.dirty = true ∨ 0 < s.telling)

variable {s s' : Waking} {index : Nat}

/-- A step that touches neither a flag nor a mark and sends nothing. -/
theorem Coalesced.of_eq (h : s.Coalesced) (hlive : s'.live = s.live) (htelling : s'.telling = s.telling)
    (hrunning : s'.running = s.running) (hdirty : s'.dirty = s.dirty) (htells : s'.tells = s.tells)
    (hmarks : s'.marks = s.marks) : s'.Coalesced where
  live := by rw [hlive, hrunning, h.live]
  owed := by
    rw [hmarks, htells, hlive, htelling, hdirty]
    exact h.owed

/-- A step of a call: of those that start a goroutine, only the one that finds none running does. -/
theorem Coalesced.wake (h : s.Coalesced) {point : WakePoint} {rest : List WakePoint}
    (htake : takeAt s.callers index = some (point, rest)) : ({ s with callers := rest }.wake point).Coalesced := by
  have hweigh := weigh_takeAt htake WakePoint.starting
  cases point with
  | load =>
    refine h.of_eq ?_ rfl ?_ ?_ rfl rfl
    · rw [Waking.live, Waking.live, hweigh]
      rfl
    · cases hwaker : s.waker <;> simp [Waking.wake, running, hwaker]
    · cases hwaker : s.waker <;> simp [Waking.wake, dirty, hwaker]
  | lock =>
    have hlive := h.live
    rw [Waking.live, hweigh, running] at hlive
    rw [Waking.wake]
    cases hwaker : s.waker with
    | none =>
      refine h.of_eq ?_ rfl (by simp [running, hwaker]) (by simp [dirty, hwaker]) rfl rfl
      rw [Waking.live, Waking.live, hweigh]
      exact congrArg (· + _) (zero_add _).symm
    | some waker =>
      rw [hwaker] at hlive
      -- the caller leaves one goroutine: the one that runs, or the one it is about to start
      have hone : weigh WakePoint.starting (if waker.running then rest else .start :: rest) +
          weigh (fun _ => 1) s.drains = 1 := by
        cases hrunning : waker.running <;> simp [hrunning, WakePoint.starting] at hlive ⊢ <;> omega
      refine ⟨hone, fun mark hmark => ?_⟩
      have hpos : 0 < weigh WakePoint.starting (if waker.running then rest else .start :: rest) +
          weigh (fun _ => 1) s.drains := by omega
      rcases List.mem_cons.mp hmark with rfl | hmark
      · exact .inr ⟨rfl, hpos, .inl rfl⟩
      · exact (h.owed mark hmark).imp_right fun howed => ⟨howed.1, hpos, .inl rfl⟩
  | start =>
    refine h.of_eq ?_ ?_ rfl rfl rfl rfl
    · rw [Waking.live, Waking.live, hweigh]
      simp only [Waking.wake, weigh_cons, WakePoint.starting]
      omega
    · simp [telling, Waking.wake, DrainPoint.telling]

/-- A step of a goroutine: it exits only when nothing is owed. -/
theorem Coalesced.drainWaker (h : s.Coalesced) {point : DrainPoint} {rest : List DrainPoint}
    (htake : takeAt s.drains index = some (point, rest)) : ({ s with drains := rest }.drainWaker point).Coalesced := by
  have hcount := weigh_takeAt htake fun _ => 1
  have hweigh := weigh_takeAt htake DrainPoint.telling
  have hlive := h.live
  rw [Waking.live, hcount] at hlive
  cases point with
  | check =>
    have hstarting := weigh_nonneg s.callers fun point _ => point.starting_nonneg
    have hrest := weigh_nonneg rest fun point _ => point.telling_mem.1
    have hle := weigh_mono fun point (_ : point ∈ rest) => point.telling_mem.2
    rw [running] at hlive
    rw [Waking.drainWaker]
    cases hwaker : s.waker with
    | none =>
      simp only [hwaker, Option.any_none, Bool.false_eq_true, if_false] at hlive
      omega
    | some waker =>
      simp only [hwaker, Option.any_some] at hlive
      dsimp only
      split
      · refine ⟨?_, fun mark hmark => (h.owed mark hmark).imp_right fun howed => ⟨howed.1, ?_, .inr ?_⟩⟩
        · simp only [Waking.live, running, Option.any_some, weigh_cons]
          exact hlive
        · simp only [Waking.live, weigh_cons]
          omega
        · simp only [telling, weigh_cons, DrainPoint.telling]
          omega
      · -- the goroutine that exits is the only one, so none is about to send
        rename_i hclean
        have hnone : weigh WakePoint.starting s.callers = 0 ∧ weigh (fun _ => 1) rest = 0 := by
          split at hlive <;> omega
        refine ⟨?_, fun mark hmark => .inl ((h.owed mark hmark).resolve_right ?_)⟩
        · simp [Waking.live, running, hnone]
        · rintro ⟨-, -, hdirty | htelling⟩
          · exact hclean (by simpa [dirty, hwaker] using hdirty)
          · have htelling : 0 < 0 + weigh DrainPoint.telling rest := hweigh ▸ htelling
            omega
  | tell =>
    refine ⟨?_, fun mark hmark => .inl ?_⟩
    · simp only [Waking.drainWaker, Waking.live, weigh_cons]
      exact hlive
    · rcases h.owed mark hmark with hlt | ⟨rfl, -⟩
      · exact Nat.lt_succ_of_lt hlt
      · exact Nat.lt_succ_self _
  | told =>
    refine h.of_eq ?_ ?_ rfl rfl rfl rfl
    · rw [Waking.live, Waking.live, hcount]
      rfl
    · rw [telling, telling, hweigh]
      rfl

/-- Every step keeps the flags in agreement with the goroutines. -/
theorem Coalesced.step (h : s.Coalesced) (e : Step) : (s.step e).Coalesced := by
  cases e with
  | call =>
    refine h.of_eq ?_ rfl rfl rfl rfl rfl
    simp [Waking.step, Waking.live, WakePoint.starting]
  | caller index =>
    rw [Waking.step]
    split
    · exact h.wake ‹_›
    · exact h
  | drain index =>
    rw [Waking.step]
    split
    · exact h.drainWaker ‹_›
    · exact h

/-- In every interleaving there is at most one goroutine and `running` tells whether there is one. For every call
that has set the flag, a `TellQueue` has started since, or there is a goroutine and either the flag is still set or
the goroutine starts a `TellQueue` next. -/
theorem wake_loses_no_hint (steps : List Step) :
    let s := run Waking.step {} steps
    s.live ≤ 1 ∧ (s.running = true ↔ s.live = 1) ∧ ∀ mark ∈ s.marks, mark < s.tells ∨
      s.live = 1 ∧ (s.dirty = true ∨ .tell ∈ s.drains) := by
  intro s
  have h : s.Coalesced := run_invariant_of_forall Coalesced (fun s e h => h.step e) steps ⟨rfl, nofun⟩
  have hlive := h.live
  refine ⟨by split at hlive <;> omega, ?_, fun mark hmark => (h.owed mark hmark).imp_right fun howed => ?_⟩
  · split at hlive <;> simp_all
  · obtain ⟨-, hpos, howed⟩ := howed
    refine ⟨by split at hlive <;> omega, howed.imp_right fun htelling => ?_⟩
    obtain ⟨point, hpoint, hpos⟩ := exists_mem_of_weigh_pos htelling
    cases point with
    | tell => exact hpoint
    | check | told => cases hpos

end Waking

end Conveyor
