import Conveyor.Actors.Concurrency
import Conveyor.Lib.Run

/-!
# The keyed semaphore and the tasks it tracks

A grain keeps a count per concurrency key and, per task id, the key whose slot the task holds. A dispatch under
another key than the recorded one moves the record to the new key and leaves the old count where it was.
-/

namespace Conveyor.QueueGrain

open Lib

variable {settings : Settings} {turn : GrainTurn} {x x' : QueueGrain} {message : GrainMessage} {taskID key : String}

/-- A count as it is stored; a key with no slot in use is not. -/
def storedCount (count : Int) : Option Int := if count = 0 then none else some count

/-- Each key is stored with the number of tasks that hold a slot of it. -/
def SlotsExact (x : QueueGrain) : Prop := ∀ key, x.activeByKey.lookup key = storedCount (x.slotCount key)

theorem SlotsExact.of_semaphore (h : x.SlotsExact) (heq : x'.semaphore.2 = x.semaphore.2) : x'.SlotsExact := by
  intro key
  have hactive : x'.activeByKey = x.activeByKey := congrArg Prod.fst heq
  have hflight : x'.inFlightKey = x.inFlightKey := congrArg Prod.snd heq
  rw [slotCount, hactive, hflight]
  exact h key

theorem SlotsExact.activeCount (h : x.SlotsExact) (key : String) : x.activeCount key = x.slotCount key := by
  rw [QueueGrain.activeCount, h key, storedCount]
  split <;> simp [*]

theorem releaseConcurrencyKey_exact (h : x.SlotsExact) (taskID : String) :
    (x.releaseConcurrencyKey taskID).SlotsExact := by
  rw [releaseConcurrencyKey]
  cases hheld : x.inFlightKey.lookup taskID with
  | none => exact h
  | some held =>
    intro key
    have hactive : (x.activeByKey.lookup held).getD 0 = x.slotCount held := h.activeCount held
    have herase := tally_erase (fun _ other => other == key) x.inFlightKey taskID
    have hleft := tally_nonneg (fun _ other => other == key) (x.inFlightKey.erase taskID)
    rw [tallyAt_of_lookup hheld] at herase
    simp only [hactive, slotCount] at herase ⊢
    rcases eq_or_ne key held with rfl | hkey
    · rw [indicator_true (by simp)] at herase
      split
      · rw [AList.lookup_erase, storedCount, if_pos (by omega)]
      · rw [AList.lookup_insert, storedCount, if_neg (by omega)]
        exact congrArg some (by omega)
    · rw [indicator_false (by simpa using Ne.symm hkey), add_zero] at herase
      rw [herase]
      split
      · exact (AList.lookup_erase_ne hkey).trans (h key)
      · exact (AList.lookup_insert_ne hkey).trans (h key)

/-- A slot is counted when it is reserved, as long as the task held none of another key. -/
theorem reserveSlot_exact (h : x.SlotsExact)
    (hfits : key ≠ "" → ∀ held, x.inFlightKey.lookup taskID = some held → held = key) :
    (x.reserveSlot taskID key).SlotsExact := by
  rw [reserveSlot]
  split
  · exact h
  rename_i hne
  intro other
  have hinsert := tally_insert (fun _ held => held == other) x.inFlightKey taskID key
  have hnonneg := tally_nonneg (fun _ held => held == other) x.inFlightKey
  have hother := h other
  simp only [slotCount] at hother ⊢
  cases hheld : x.inFlightKey.lookup taskID with
  | some held =>
    obtain rfl := hfits hne held hheld
    rw [tallyAt_of_lookup hheld, add_left_inj] at hinsert
    rw [hinsert, if_pos (by simp [holdsSlot, hne, hheld])]
    exact hother
  | none =>
    rw [tallyAt_of_none hheld, add_zero] at hinsert
    rw [hinsert, if_neg (by simp [holdsSlot, hheld])]
    rcases eq_or_ne other key with rfl | hkey
    · have hactive : (x.activeByKey.lookup other).getD 0 = x.slotCount other := h.activeCount other
      rw [AList.lookup_insert, hactive, indicator_true (by simp), storedCount, if_neg (by omega)]
      rfl
    · rw [AList.lookup_insert_ne hkey, hother, indicator_false (by simpa using Ne.symm hkey), add_zero]

/-- The tasks of a completed lease cycle. -/
def cycleTasks : GrainMessage → List TaskEnvelope
  | .leaseCycleCompleted _ _ _ tasks => tasks
  | _ => []

/-- A task that carries a key and is leased while it holds a slot carries the key of that slot, and so does every
task of its id in the same lease cycle. -/
def KeysKept (x : QueueGrain) (message : GrainMessage) : Prop :=
  ∀ task ∈ cycleTasks message, task.options.concurrencyKey ≠ "" →
    (∀ held, x.inFlightKey.lookup task.id = some held → held = task.options.concurrencyKey) ∧
    ∀ other ∈ cycleTasks message, other.id = task.id → other.options.concurrencyKey ≠ "" →
      other.options.concurrencyKey = task.options.concurrencyKey

/-- The parts of a turn keep the counts, as the tasks they send keep their keys. -/
theorem Part.exact {S : GrainEffect → Prop} {effects : List GrainEffect} (h : Part turn S x x' effects)
    (hsent : ∀ gateway task leaseID expiresAt, S (.executeTask gateway task leaseID expiresAt) →
      task ∈ cycleTasks message) (hkept : x.KeysKept message) (hexact : x.SlotsExact) :
    x'.SlotsExact ∧ x'.KeysKept message := by
  induction h with
  | trans _ _ ih ih' =>
    obtain ⟨hexact, hkept⟩ := ih hkept hexact
    exact ih' hkept hexact
  | @sendTask x i _ task _ _ _ _ _ hsend =>
    have htask := hsent _ _ _ _ hsend
    have hspent := hexact.of_semaphore rfl
    refine ⟨reserveSlot_exact hspent fun hne => (hkept task htask hne).1, fun other hother hne => ?_⟩
    refine ⟨fun held hheld => ?_, (hkept other hother hne).2⟩
    rw [reserveSlot] at hheld
    split at hheld
    · exact (hkept other hother hne).1 held hheld
    rename_i hkey
    -- the record of the task that was sent has its key, and a task of the same id carries the same one
    simp only [GoMap.lookup_insert_eq_ite] at hheld
    split at hheld
    · rename_i hid
      exact Option.some.inj hheld ▸ (hkept other hother hne).2 task htask hid.symm hkey
    · exact (hkept other hother hne).1 held hheld
  | _ => exact ⟨hexact.of_semaphore rfl, hkept⟩

/-- A turn keeps the counts. -/
theorem receive_exact (hexact : x.SlotsExact) (hkept : x.KeysKept message) :
    (x.receive settings turn message).1.SlotsExact := by
  obtain ⟨effects, hpart, -⟩ := receive_part settings turn x message
  have hsent : ∀ gateway task leaseID expiresAt, GrainEmits turn message (.executeTask gateway task leaseID expiresAt) →
      task ∈ cycleTasks message := fun _ _ _ _ hemits => by
    cases hemits with | executeTask htask => exact htask
  refine (hpart.exact hsent ?_ ?_).1
  · cases message with
    | leaseCycleCompleted => exact hkept
    | _ => exact fun _ h => absurd h List.not_mem_nil
  · cases message with
    | taskCompleted taskID success name =>
      exact (releaseConcurrencyKey_exact hexact taskID).of_semaphore
        (congrArg Prod.snd (recordCompletion_semaphore x taskID name))
    | registerGateway name capacity weight batchTypes =>
      exact hexact.of_semaphore (congrArg Prod.snd (registerGateway_frame x name capacity weight batchTypes).1)
    | _ => exact hexact.of_semaphore rfl

/-- The grain after it handled one message. -/
def after (settings : Settings) (x : QueueGrain) (event : GrainTurn × GrainMessage) : QueueGrain :=
  (x.receive settings event.1 event.2).1

/-- After every message to an activation, the count of a key is the number of tasks mapped to it and no stored count
is zero or less, as long as a task that holds a slot is only leased again with the key of that slot. -/
theorem semaphore_counts_tracked (settings : Settings) (queue : String) (paused : Bool) (override : Option Int)
    (events : List (GrainTurn × GrainMessage))
    (hkept : StepsMeet (after settings) (fun x event => x.KeysKept event.2) (activate queue paused override) events)
    (key : String) :
    let x := run (after settings) (activate queue paused override) events
    x.activeCount key = x.slotCount key ∧ ∀ count, x.activeByKey.lookup key = some count → 0 < count := by
  have hexact : (run (after settings) (activate queue paused override) events).SlotsExact :=
    run_invariant SlotsExact (fun x event hkept hexact => receive_exact hexact hkept) _ events hkept fun _ => rfl
  refine ⟨hexact.activeCount key, fun count hcount => ?_⟩
  have hnonneg := tally_nonneg (fun _ held => held == key)
    (run (after settings) (activate queue paused override) events).inFlightKey
  rw [hexact key, storedCount] at hcount
  split at hcount
  · cases hcount
  · cases hcount
    exact lt_of_le_of_ne hnonneg (Ne.symm ‹_›)

/-- A gateway registers, and task `t` is leased once for each of the keys. -/
def leasedWith (keys : List String) : List (GrainTurn × GrainMessage) :=
  ({ now := 0 }, .registerGateway "g" 2 1 []) :: keys.map fun key =>
    ({ now := 1 }, .leaseCycleCompleted "L" 9 "" [{ id := "t", queue := "q", type := "mail", options := { concurrencyKey := key } }])

theorem semaphore_counts_tracked_again :
    let x := run (after defaultSettings) (activate "q" false (some 1)) (leasedWith ["a", "a"])
    x.activeCount "a" = x.slotCount "a" ∧ ∀ count, x.activeByKey.lookup "a" = some count → 0 < count :=
  semaphore_counts_tracked defaultSettings "q" false (some 1) (leasedWith ["a", "a"])
    ⟨by simp [KeysKept, cycleTasks], by unfold KeysKept; decide, by unfold KeysKept; decide, trivial⟩ "a"

/-- Leased again under another key, the task leaves the count of its first key behind. -/
theorem count_left_behind :
    let x := run (after defaultSettings) (activate "q" false (some 1)) (leasedWith ["a", "b"])
    x.activeByKey.lookup "a" = some 1 ∧ x.slotCount "a" = 0 := by
  decide

end Conveyor.QueueGrain
