import Conveyor.Actors.RoundRobin

/-!
# The turns of fired groups

A firing is two messages to the grain, and the selection moves on with both: the first pick only decides whether the
group is leased, and the batch goes to the second one. The batches therefore follow every other turn of the
round-robin.
-/

namespace Conveyor

open Lib Lib.RoundRobin

/-- One firing of a group: what the turns of its two messages meet, the credits they find and the leased tasks. -/
structure Firing where
  group : String
  limit : Int32 := 0
  fireTurn : GrainTurn
  leaseTurn : GrainTurn
  fireCredits : Nat → Int32
  leaseCredits : Nat → Int32
  tasks : List TaskEnvelope

namespace QueueGrain

/-- The grain after reports that changed the credits of its gateways. -/
def recredit (credits : Nat → Int32) (x : QueueGrain) : QueueGrain :=
  { x with gateways := x.gateways.mapIdx fun index gateway => { gateway with credits := credits index } }

end QueueGrain

namespace Firing

variable (settings : Settings) (type : String)

/-- The grain handles both messages of a firing. -/
def handle (f : Firing) (x : QueueGrain) : QueueGrain × List GrainEffect :=
  let (x, fired) := (x.recredit f.fireCredits).receive settings f.fireTurn (.fireGroup f.group type f.limit)
  let (x, sent) := (x.recredit f.leaseCredits).receive settings f.leaseTurn
    (.groupLeaseCompleted f.fireTurn.newID (f.fireTurn.now + settings.leaseTTL) f.group type "" f.tasks)
  (x, fired ++ sent)

/-- The gateway a batch is sent to. -/
def receiver : GrainEffect → Option String
  | .executeBatch gateway .. => some gateway
  | _ => none

/-- The gateways that receive the batches of the firings, in order. -/
def receivers : QueueGrain → List Firing → List String
  | _, [] => []
  | x, f :: rest => (f.handle settings type x).2.filterMap receiver ++ receivers (f.handle settings type x).1 rest

/-- Tasks were leased, the send succeeds, and all gateways have credits whenever they are asked. -/
structure Proper (f : Firing) : Prop where
  tasks : f.tasks ≠ []
  reachable : f.leaseTurn.unreachable 0 = false
  fireCredits : ∀ index, 0 < f.fireCredits index
  leaseCredits : ∀ index, 0 < f.leaseCredits index

end Firing

namespace QueueGrain

/-- What the selection reads of a gateway that is eligible. -/
def columns (gateways : List GatewayCredits) : List (Int32 × Int32) :=
  gateways.map fun gateway => (gateway.weight, gateway.currentWeight)

section Select

variable {eligible eligible' : GatewayCredits → Bool} {gateways gateways' : List GatewayCredits}

theorem highest_congr (h : columns gateways = columns gateways') (hall : ∀ gateway ∈ gateways, eligible gateway = true)
    (hall' : ∀ gateway ∈ gateways', eligible' gateway = true) (index : Nat) (best : Option (Nat × Int32)) :
    highest eligible gateways index best = highest eligible' gateways' index best := by
  induction gateways generalizing gateways' index best with
  | nil => rw [List.map_eq_nil_iff.mp h.symm]; rfl
  | cons gateway rest ih =>
    obtain ⟨gateway', rest', rfl, hfirst, hrest⟩ := List.map_eq_cons_iff.mp h.symm
    obtain ⟨helig, hall⟩ := List.forall_mem_cons.mp hall
    obtain ⟨helig', hall'⟩ := List.forall_mem_cons.mp hall'
    obtain ⟨hweight, hcurrent⟩ := Prod.mk.inj hfirst
    simp only [highest, helig, helig', hweight, hcurrent, ih hrest.symm hall hall']

/-- With all gateways eligible, a selection depends on weights and accumulators alone. -/
theorem select_congr (h : columns gateways = columns gateways') (hall : ∀ gateway ∈ gateways, eligible gateway = true)
    (hall' : ∀ gateway ∈ gateways', eligible' gateway = true) :
    (selectWeightedGateway eligible gateways).2 = (selectWeightedGateway eligible' gateways').2 ∧
      columns (selectWeightedGateway eligible gateways).1 = columns (selectWeightedGateway eligible' gateways').1 := by
  have hraised : ∀ {gateways} {eligible : GatewayCredits → Bool}, (∀ gateway ∈ gateways, eligible gateway = true) →
      columns (gateways.map fun gateway =>
        if eligible gateway then { gateway with currentWeight := gateway.currentWeight + gateway.weight }
        else gateway) = (columns gateways).map fun c => (c.1, c.2 + c.1) := by
    intro gateways eligible hall
    simp only [columns, List.map_map]
    refine List.map_congr_left fun gateway hgateway => ?_
    simp [hall gateway hgateway]
  have htotal : ∀ {gateways} {eligible : GatewayCredits → Bool}, (∀ gateway ∈ gateways, eligible gateway = true) →
      (gateways.filter eligible).foldl (fun total gateway => total + gateway.weight) 0 =
        (columns gateways).foldl (fun total c => total + c.1) 0 := by
    intro gateways eligible hall
    rw [List.filter_eq_self.mpr hall, columns, List.foldl_map]
  have hdebit : ∀ (total : Int32) (index : Nat) (gateways : List GatewayCredits),
      columns (gateways.modify index fun gateway => { gateway with currentWeight := gateway.currentWeight - total }) =
        (columns gateways).modify index fun c => (c.1, c.2 - total) := by
    intro total index gateways
    refine List.ext_getElem? fun i => ?_
    rw [columns, List.getElem?_map, List.getElem?_modify, List.getElem?_modify, columns, List.getElem?_map]
    cases gateways[i]? <;> by_cases hi : index = i <;> simp [hi]
  simp only [selectWeightedGateway]
  rw [highest_congr h hall hall', htotal hall, htotal hall', h]
  cases highest eligible' gateways' 0 none with
  | none => exact ⟨rfl, by rw [hraised hall, hraised hall', h]⟩
  | some index => exact ⟨rfl, by rw [hdebit, hdebit, hraised hall, hraised hall', h]⟩

end Select

/-- A call with all gateways eligible. -/
def everyone : Selection := ⟨fun _ gateway => gateway, fun _ => true⟩

theorem everyone_found (gateways : List GatewayCredits) : everyone.found gateways = gateways := by
  simp [everyone, Selection.found, List.mapIdx_eq_zipIdx_map]

/-- The picks of so many such calls. -/
def cycle (n : Nat) (gateways : List GatewayCredits) : List (Option Nat) :=
  Selection.picks gateways (List.replicate n everyone)

/-- What the firings leave of the grain they started with, whose accumulators they moved to those of `gateways`. -/
structure Fired (start : QueueGrain) (gateways : List GatewayCredits) (x : QueueGrain) : Prop where
  columns : columns x.gateways = columns gateways
  names : x.gateways.map GatewayCredits.name = start.gateways.map GatewayCredits.name
  types : x.gateways.map GatewayCredits.batchTypes = start.gateways.map GatewayCredits.batchTypes
  unpaused : x.paused = false

section Firing

variable {start x : QueueGrain} {gateways : List GatewayCredits} {type : String} {credits : Nat → Int32}

/-- Reports about credits change neither weights nor accumulators, and no name. -/
theorem Fired.recredit (h : Fired start gateways x) (credits : Nat → Int32) :
    Fired start gateways (x.recredit credits) := by
  let s : Selection := ⟨fun index gateway => { gateway with credits := credits index }, hasCredit⟩
  have hview : ∀ {View : Type} {view : GatewayCredits → View},
      (∀ index gateway, view (s.update index gateway) = view gateway) →
      (x.recredit credits).gateways.map view = x.gateways.map view := found_map
  exact ⟨(hview fun _ _ => rfl).trans h.columns, (hview fun _ _ => rfl).trans h.names,
    (hview fun _ _ => rfl).trans h.types, h.unpaused⟩

/-- A batch-capable pick is a call with all gateways eligible. -/
theorem Fired.pick (h : Fired start gateways x) (htypes : ∀ gateway ∈ start.gateways, type ∈ gateway.batchTypes)
    (hcredits : ∀ index, 0 < credits index) :
    ((x.recredit credits).pickBatchGateway type).2 = everyone.picked gateways ∧
      Fired start (everyone.after gateways) ((x.recredit credits).pickBatchGateway type).1 := by
  have hfound := h.recredit credits
  have hall : ∀ gateway ∈ (x.recredit credits).gateways, batchCapable type gateway = true := by
    intro gateway hgateway
    have hmem : gateway.batchTypes ∈ start.gateways.map GatewayCredits.batchTypes :=
      hfound.types ▸ List.mem_map_of_mem hgateway
    obtain ⟨other, hother, heq⟩ := List.mem_map.mp hmem
    have htype : type ∈ gateway.batchTypes := heq ▸ htypes other hother
    obtain ⟨index, hlt, rfl⟩ := List.mem_mapIdx.mp hgateway
    exact Bool.and_eq_true_iff.mpr ⟨decide_eq_true (hcredits index), List.contains_iff_mem.mpr htype⟩
  have hsame := select_congr (hfound.columns.trans (congrArg _ (everyone_found gateways).symm)) hall
    (show ∀ gateway ∈ everyone.found gateways, everyone.eligible gateway = true from fun _ _ => rfl)
  have hview := @select_entries (batchCapable type) (x.recredit credits).gateways
  exact ⟨hsame.1, hsame.2, (hview fun _ _ => rfl).trans hfound.names, (hview fun _ _ => rfl).trans hfound.types,
    hfound.unpaused⟩

/-- The name of the picked gateway. -/
def nameOf (start : QueueGrain) (picked : Option Nat) : String :=
  (picked.bind fun index => (start.gateways.map GatewayCredits.name)[index]?).getD ""

/-- The grain moves on by two turns, and the second one gets the batch. -/
theorem Fired.handle (h : Fired start gateways x) (htypes : ∀ gateway ∈ start.gateways, type ∈ gateway.batchTypes)
    {f : Firing} (hf : f.Proper) (settings : Settings) (hpicks : everyone.picked (everyone.after gateways) ≠ none) :
    (f.handle settings type x).2.filterMap Firing.receiver =
      [nameOf start (everyone.picked (everyone.after gateways))] ∧
      Fired start (everyone.after (everyone.after gateways)) (f.handle settings type x).1 := by
  obtain ⟨-, hfired⟩ := h.pick htypes hf.fireCredits
  obtain ⟨hpicked, hleased⟩ := hfired.pick htypes hf.leaseCredits
  obtain ⟨index, hindex⟩ := Option.ne_none_iff_exists'.mp hpicks
  have hfire : ∃ effects, (x.recredit f.fireCredits).receive settings f.fireTurn (.fireGroup f.group type f.limit) =
      (((x.recredit f.fireCredits).pickBatchGateway type).1, effects) ∧ effects.filterMap Firing.receiver = [] := by
    simp only [receive, fireGroup, show (x.recredit f.fireCredits).paused = false from h.unpaused]
    split
    · cases ‹false = true›
    · split <;> exact ⟨_, rfl, rfl⟩
  obtain ⟨effects, heq, hnone⟩ := hfire
  rw [hindex] at hpicked ⊢
  set leased := ((((x.recredit f.fireCredits).pickBatchGateway type).1.recredit f.leaseCredits).pickBatchGateway type)
    with hleasedEq
  have hsent : f.handle settings type x = (leased.1.spendCredit index,
      effects ++ [.executeBatch ((leased.1.gateways[index]?.map GatewayCredits.name).getD "") f.tasks f.fireTurn.newID
        (f.fireTurn.now + settings.leaseTTL) f.group]) := by
    rw [Firing.handle, heq]
    simp only [receive, finishGroupLease, ← hleasedEq, hpicked, hleased.unpaused, hf.reachable, if_neg hf.tasks]
    rfl
  have hview : ∀ {View : Type} {view : GatewayCredits → View},
      (∀ gateway : GatewayCredits, view { gateway with credits := gateway.credits - 1 } = view gateway) →
      (leased.1.spendCredit index).gateways.map view = leased.1.gateways.map view :=
    fun hview => map_modify_of_view hview index _
  rw [hsent]
  refine ⟨?_, (hview fun _ => rfl).trans hleased.columns, (hview fun _ => rfl).trans hleased.names,
    (hview fun _ => rfl).trans hleased.types, hleased.unpaused⟩
  rw [List.filterMap_append, hnone, nameOf, Option.bind_some, ← hleased.names, List.getElem?_map]
  rfl

theorem picked_everyone_ne_none (hne : gateways ≠ []) : everyone.picked gateways ≠ none := by
  intro hnone
  obtain ⟨gateway, hgateway⟩ := List.exists_mem_of_ne_nil _ hne
  cases (select_none hnone).1 gateway ((everyone_found gateways).symm ▸ hgateway)

theorem length_after_everyone (gateways : List GatewayCredits) :
    (everyone.after gateways).length = gateways.length := by
  have hunits := @select_entries everyone.eligible (everyone.found gateways) Unit (fun _ => ()) fun _ _ => rfl
  simpa [Selection.after, everyone_found] using congrArg List.length hunits

theorem after_everyone_ne_nil (hne : gateways ≠ []) : everyone.after gateways ≠ [] := by
  intro hnil
  refine hne (List.eq_nil_of_length_eq_zero ?_)
  rw [← length_after_everyone, hnil]
  rfl

/-- The batches of firings follow every other turn. -/
theorem Fired.receivers (h : Fired start gateways x) (htypes : ∀ gateway ∈ start.gateways, type ∈ gateway.batchTypes)
    (hne : gateways ≠ []) (settings : Settings) {firings : List Firing} (hproper : ∀ f ∈ firings, f.Proper) :
    Firing.receivers settings type x firings =
      (alternate false (cycle (2 * firings.length) gateways)).map (nameOf start) := by
  induction firings generalizing x gateways with
  | nil => rfl
  | cons f rest ih =>
    obtain ⟨hf, hrest⟩ := List.forall_mem_cons.mp hproper
    have hlater := after_everyone_ne_nil hne
    obtain ⟨hsent, hnext⟩ := h.handle htypes hf settings (picked_everyone_ne_none hlater)
    rw [Firing.receivers, hsent, ih hnext (after_everyone_ne_nil hlater) hrest]
    rfl

end Firing

section Cycle

variable {gateways gateways' : List GatewayCredits}

theorem picks_append (gateways : List GatewayCredits) (selections more : List Selection) :
    Selection.picks gateways (selections ++ more) =
      Selection.picks gateways selections ++ Selection.picks (run Selection.after gateways selections) more := by
  induction selections generalizing gateways with
  | nil => rfl
  | cons s rest ih => exact congrArg _ (ih _)

theorem cycle_congr (h : columns gateways = columns gateways') (n : Nat) : cycle n gateways = cycle n gateways' := by
  induction n generalizing gateways gateways' with
  | zero => rfl
  | succ n ih =>
    rw [← everyone_found gateways, ← everyone_found gateways'] at h
    have hall : ∀ gateways : List GatewayCredits, ∀ gateway ∈ gateways, everyone.eligible gateway = true :=
      fun _ _ _ => rfl
    obtain ⟨hpick, hnext⟩ := select_congr h (hall _) (hall _)
    exact congrArg₂ List.cons hpick (ih hnext)

/-- A pick is the index of a gateway. -/
theorem mem_cycle {n : Nat} {pick : Option Nat} (hne : gateways ≠ []) (hpick : pick ∈ cycle n gateways) :
    ∃ i < gateways.length, pick = some i := by
  induction n generalizing gateways with
  | zero => cases hpick
  | succ n ih =>
    rcases List.mem_cons.mp hpick with rfl | hrest
    · obtain ⟨index, hindex⟩ := Option.ne_none_iff_exists'.mp (picked_everyone_ne_none hne)
      obtain ⟨gateway, hget, -⟩ := select_eligible hindex
      exact ⟨index, length_after_everyone gateways ▸ (List.getElem?_eq_some_iff.mp hget).1, hindex⟩
    · rw [← length_after_everyone]
      exact ih (after_everyone_ne_nil hne) hrest

/-- Neither the whole weight nor an accumulator of the round-robin, taken in the integers, outgrows 32 bits within as
many turns as the whole weight. -/
structure Fits (gateways : List GatewayCredits) : Prop where
  weight : totalWeight gateways < 2 ^ 31
  raised : ∀ k < (totalWeight gateways).toNat, ∀ i < gateways.length,
    (turn gateways.length (weights gateways))^[k] 0 i + weights gateways i < 2 ^ 31

variable {later : List GatewayCredits} {picks : List (Option Nat)}

/-- A call for all gateways whose raised accumulators fit into 32 bits does not overflow. -/
theorem Proportional.exact (h : Proportional gateways picks later) (hweight : totalWeight gateways < 2 ^ 31)
    (hraised : ∀ i < gateways.length, accumulators later i + weights gateways i < 2 ^ 31) :
    Exact everyone.eligible later := by
  have hat : ∀ {i gateway}, later[i]? = some gateway → i < gateways.length ∧
      accumulators later i = gateway.currentWeight.toInt ∧ weights gateways i = gateway.weight.toInt := by
    intro i gateway hget
    rw [← show weights later = weights gateways from column_congr h.settled.kept, ← h.settled.kept.length_eq]
    exact ⟨(List.getElem?_eq_some_iff.mp hget).1, by simp [accumulators, column, hget], by simp [weights, column, hget]⟩
  have hsum : ∀ {i gateway}, later[i]? = some gateway → (gateway.currentWeight + gateway.weight).toInt =
      accumulators later i + weights gateways i := by
    intro i gateway hget
    obtain ⟨hi, hacc, hown⟩ := hat hget
    have hlow := h.low i (Finset.mem_range.mpr hi)
    have hnonneg := weights_nonneg h.settled.positive i
    have hhigh := hraised i hi
    rw [hacc, hown] at hhigh ⊢
    exact toInt_add_of_fits (by omega) hhigh
  have hfilter : later.filter everyone.eligible = later := List.filter_eq_self.mpr fun _ _ => rfl
  have htotal : (eligibleWeight everyone.eligible later).toInt = totalWeight gateways := by
    have hkept : totalWeight later = totalWeight gateways := congrArg List.sum h.settled.kept
    rw [eligibleWeight, hfilter, ← hkept]
    refine (toInt_foldl_add32 _ _ (fun gateway hgateway => ?_) le_rfl ?_).trans (zero_add _)
    · obtain ⟨i, hi, rfl⟩ := List.mem_iff_getElem.mp hgateway
      rw [← (hat (List.getElem?_eq_getElem hi)).2.2]
      exact weights_nonneg h.settled.positive i
    · rw [Int32.toInt_zero, ← totalWeight, hkept]
      omega
  refine ⟨fun gateway hgateway _ => ?_, ?_, fun index hindex gateway hget => ?_⟩
  · obtain ⟨i, hi, rfl⟩ := List.mem_iff_getElem.mp hgateway
    have hget := List.getElem?_eq_getElem hi
    rw [hsum hget, (hat hget).2.1, (hat hget).2.2]
  · rw [htotal, hfilter]
    exact (congrArg List.sum h.settled.kept).symm
  · -- the accumulators sum up to zero, so the highest is positive once the weights are added
    obtain ⟨hi, hacc, hown⟩ := hat hget
    have hpositive : 0 < accumulators later index + weights gateways index := by
      by_contra hnot
      have htop : ∀ j ∈ Finset.range gateways.length, accumulators later j + weights gateways j ≤ 0 := by
        intro j hj
        rw [Finset.mem_range, ← h.settled.kept.length_eq] at hj
        have hle := (select_highest hindex hget (List.getElem?_eq_getElem hj) rfl).1
        rw [hsum hget, hsum (List.getElem?_eq_getElem hj)] at hle
        omega
      have hall := Finset.sum_nonpos htop
      rw [Finset.sum_add_distrib, h.settled.balanced.total, sum_weights] at hall
      have := h.totalWeight_pos
      omega
    have hhigh := hraised index hi
    have hwhole := h.totalWeight_pos
    rw [toInt_sub_of_fits] <;> rw [hsum hget, htotal] <;> omega

/-- So many turns keep the shares, and the accumulators are those of the round-robin in the integers. -/
theorem Fits.cycle (h : Fits gateways) (hfresh : Fresh gateways) {turns : Nat} (hturns : turns ≤ totalWeight gateways) :
    Proportional gateways (QueueGrain.cycle turns gateways)
        (run Selection.after gateways (List.replicate turns everyone)) ∧
      accumulators (run Selection.after gateways (List.replicate turns everyone)) =
        (turn gateways.length (weights gateways))^[turns] 0 := by
  induction turns with
  | zero => exact ⟨hfresh.proportional, funext (accumulators_eq_zero hfresh.zero)⟩
  | succ turns ih =>
    obtain ⟨hrun, hideal⟩ := ih (by omega)
    rw [QueueGrain.cycle, List.replicate_succ', picks_append, run_append]
    rw [QueueGrain.cycle] at hrun
    generalize run Selection.after gateways (List.replicate turns everyone) = later at hrun hideal ⊢
    have hkeeps : everyone.Keeps := fun _ _ => ⟨rfl, rfl⟩
    have hexact : Exact everyone.eligible (everyone.found later) := by
      rw [everyone_found]
      refine hrun.exact h.weight ?_
      rw [hideal]
      exact h.raised turns (by omega)
    refine ⟨hrun.call hkeeps (fun _ _ => rfl) hexact, ?_⟩
    obtain ⟨index, hpick, hstep⟩ := hrun.settled.step hrun.nonempty hkeeps (fun _ _ => rfl) hexact
    rw [Function.iterate_succ_apply', ← hideal]
    refine hstep.eq_turn (fun j hj => ?_) fun i hi => ?_
    · have hweights : weights gateways = weights later := (column_congr hrun.settled.kept).symm
      have hlength := hrun.settled.kept.length_eq
      have hlt : index < later.length := hlength ▸ Finset.mem_range.mp hstep.mem
      have hpick' : (selectWeightedGateway everyone.eligible later).2 = some index := by
        rw [Selection.picked, everyone_found] at hpick
        exact hpick
      have hless := (select_highest hpick' (List.getElem?_eq_getElem hlt)
        (List.getElem?_eq_getElem (hj.trans hlt)) rfl).2 hj
      rw [everyone_found] at hexact
      rw [hexact.raised _ (List.getElem_mem _) rfl, hexact.raised _ (List.getElem_mem _) rfl] at hless
      rw [hweights]
      simpa [accumulators, weights, column, hlt, hj.trans hlt] using hless
    · simp [weights, column, hi]

/-- Turns that give every gateway a whole number of picks end with the accumulators they began with. -/
theorem cycle_block (hfresh : Fresh gateways) (hfits : Fits gateways) {turns : Nat}
    (hturns : turns ≤ totalWeight gateways) {q : Nat → Int}
    (hblock : ∀ i, turns * weights gateways i = q i * totalWeight gateways) :
    (∀ i < gateways.length, ((cycle turns gateways).count (some i) : Int) = q i) ∧
      columns (run Selection.after gateways (List.replicate turns everyone)) = columns gateways := by
  obtain ⟨hrun, -⟩ := hfits.cycle hfresh hturns
  have hat : ∀ {i}, i < gateways.length → _ := hrun.block (q := q) <| by
    rw [cycle, length_picks, List.length_replicate]
    exact hblock
  refine ⟨fun i hi => (hat hi).1, ?_⟩
  have hreset := currentWeight_eq_zero fun i hi => (hat (hrun.settled.kept.length_eq ▸ hi)).2
  generalize run Selection.after gateways (List.replicate turns everyone) = later at hrun hreset ⊢
  have hweights : (later.map GatewayCredits.weight).map Int32.toInt =
      (gateways.map GatewayCredits.weight).map Int32.toInt := by
    rw [List.map_map, List.map_map]
    exact hrun.settled.kept
  have hcolumns : ∀ {gateways : List GatewayCredits}, (∀ gateway ∈ gateways, gateway.currentWeight = 0) →
      columns gateways = (gateways.map GatewayCredits.weight).map (·, 0) := by
    intro gateways hzero
    rw [columns, List.map_map]
    exact List.map_congr_left fun gateway hgateway => congrArg _ (hzero gateway hgateway)
  rw [hcolumns hreset, hcolumns hfresh.zero, (List.map_injective_iff.mpr fun _ _ => Int32.toInt_inj.mp) hweights]

section Rounds

variable {turns : Nat} (hback : columns (run Selection.after gateways (List.replicate turns everyone)) = columns gateways)

include hback

/-- Turns that bring the accumulators back are repeated by those that follow. -/
theorem cycle_add (more : Nat) : cycle (turns + more) gateways = cycle turns gateways ++ cycle more gateways := by
  rw [cycle, ← List.replicate_append_replicate, picks_append, ← cycle, ← cycle, cycle_congr hback]

/-- Every other of an even number of rounds of odd length. -/
theorem count_alternate_odd (hodd : turns % 2 = 1) (rounds : Nat) (pick : Option Nat) :
    (alternate false (cycle (2 * (turns * rounds)) gateways)).count pick = rounds * (cycle turns gateways).count pick := by
  induction rounds with
  | zero => simp [cycle, Selection.picks, alternate]
  | succ rounds ih =>
    rw [show 2 * (turns * (rounds + 1)) = turns + (turns + 2 * (turns * rounds)) by ring, cycle_add hback,
      cycle_add hback, count_alternate_twice, ih, Nat.succ_mul, add_comm]
    rw [cycle, length_picks, List.length_replicate]
    exact hodd

/-- Every other of rounds of even length. -/
theorem count_alternate_even (heven : turns % 2 = 0) (rounds : Nat) (pick : Option Nat) :
    (alternate false (cycle (turns * rounds) gateways)).count pick =
      rounds * (alternate false (cycle turns gateways)).count pick := by
  induction rounds with
  | zero => simp [cycle, Selection.picks, alternate]
  | succ rounds ih =>
    rw [show turns * (rounds + 1) = turns + turns * rounds by ring, cycle_add hback, alternate_even, List.count_append,
      ih, Nat.succ_mul, add_comm]
    rw [cycle, length_picks, List.length_replicate]
    exact heven

end Rounds

end Cycle

/-- The gateways of a list with distinct names are counted by their names. -/
theorem count_nameOf {start : QueueGrain} (hdistinct : DistinctNames start.gateways) {i : Nat}
    {gateway : GatewayCredits} (hget : start.gateways[i]? = some gateway) {picks : List (Option Nat)}
    (hpicks : ∀ pick ∈ picks, ∃ j < start.gateways.length, pick = some j) :
    (picks.map (nameOf start)).count gateway.name = picks.count (some i) := by
  rw [List.count, List.count, List.countP_map]
  refine List.countP_congr fun pick hpick => ?_
  obtain ⟨j, hj, rfl⟩ := hpicks pick hpick
  obtain ⟨hi, rfl⟩ := List.getElem?_eq_some_iff.mp hget
  have hinj := @List.Nodup.getElem_inj_iff _ _ hdistinct j (by simpa using hj) i (by simpa using hi)
  simpa [nameOf, hj] using hinj

/-- A paused grain sends no batch. -/
theorem receivers_paused (settings : Settings) (type : String) {x : QueueGrain} (hpaused : x.paused = true)
    (firings : List Firing) : Firing.receivers settings type x firings = [] := by
  have hreleased : ∀ turn leaseID tasks, (releaseLeased turn leaseID tasks).filterMap Firing.receiver = [] := by
    intro turn leaseID tasks
    rw [releaseLeased]
    split <;> rfl
  have hhandle : ∀ (x : QueueGrain) (f : Firing), x.paused = true → (f.handle settings type x).1.paused = true ∧
      (f.handle settings type x).2.filterMap Firing.receiver = [] := by
    intro x f hpaused
    have hfire : (x.recredit f.fireCredits).receive settings f.fireTurn (.fireGroup f.group type f.limit) =
        (x.recredit f.fireCredits, []) := if_pos hpaused
    rw [Firing.handle, hfire]
    simp only [receive, finishGroupLease, pickBatchGateway, recredit, hpaused]
    split_ifs
    · exact ⟨rfl, rfl⟩
    · exact ⟨rfl, rfl⟩
    · split
      · exact ⟨rfl, hreleased _ _ _⟩
      · exact ⟨rfl, hreleased _ _ _⟩
  induction firings generalizing x with
  | nil => rfl
  | cons f rest ih =>
    obtain ⟨hstays, hnone⟩ := hhandle x f hpaused
    rw [Firing.receivers, hnone, ih hstays]
    rfl

/-- The greatest common divisor of the weights. -/
def commonDivisor (gateways : List GatewayCredits) : Nat :=
  (gateways.map fun gateway => gateway.weight.toInt.natAbs).foldr Nat.gcd 0

theorem dvd_commonDivisor {gateways : List GatewayCredits} {d : Nat} :
    d ∣ commonDivisor gateways ↔ ∀ gateway ∈ gateways, (d : Int) ∣ gateway.weight.toInt := by
  induction gateways with
  | nil => simp [commonDivisor]
  | cons gateway rest ih =>
    rw [List.forall_mem_cons, ← ih, Int.natCast_dvd]
    exact Nat.dvd_gcd_iff

theorem commonDivisor_pos {gateways : List GatewayCredits} (hwhole : 0 < totalWeight gateways)
    (hdvd : (commonDivisor gateways : Int) ∣ totalWeight gateways) : 0 < commonDivisor gateways := by
  refine Nat.pos_of_ne_zero fun hzero => ?_
  rw [hzero, Nat.cast_zero, zero_dvd_iff] at hdvd
  exact hwhole.ne' hdvd

/-- Turns after which the accumulators are back: each gateway is picked as often as the greatest common divisor goes
into its weight. -/
structure Period (gateways : List GatewayCredits) (turns : Nat) : Prop where
  positive : 0 < commonDivisor gateways
  whole : totalWeight gateways = commonDivisor gateways * turns
  counts : ∀ i < gateways.length,
    (commonDivisor gateways : Int) * (cycle turns gateways).count (some i) = weights gateways i
  back : columns (run Selection.after gateways (List.replicate turns everyone)) = columns gateways

section Period

variable {gateways : List GatewayCredits} {turns : Nat}

theorem exists_period (hfresh : Fresh gateways) (hfits : Fits gateways) : ∃ turns, Period gateways turns := by
  have hweights : ∀ j, (commonDivisor gateways : Int) ∣ weights gateways j := by
    intro j
    rw [weights, column, List.getElem?_map]
    cases hget : gateways[j]? with
    | none => exact dvd_zero _
    | some other => exact dvd_commonDivisor.mp (dvd_refl _) other (List.mem_of_getElem? hget)
  have hwhole := hfresh.proportional.totalWeight_pos
  have hdvd : (commonDivisor gateways : Int) ∣ totalWeight gateways := by
    rw [← sum_weights]
    exact Finset.dvd_sum fun j _ => hweights j
  have hpositive := commonDivisor_pos hwhole hdvd
  obtain ⟨turns, hturns⟩ := hdvd
  lift turns to Nat using by
    rw [hturns] at hwhole
    exact (pos_of_mul_pos_right hwhole (Int.natCast_nonneg _)).le
  have hle : (turns : Int) ≤ totalWeight gateways := by
    rw [hturns]
    exact_mod_cast Nat.le_mul_of_pos_left turns hpositive
  obtain ⟨hcount, hback⟩ := @cycle_block gateways hfresh hfits turns hle
    (fun j => weights gateways j / commonDivisor gateways) fun j => by
      obtain ⟨m, hm⟩ := hweights j
      rw [hturns, hm, Int.mul_ediv_cancel_left m (by omega)]
      ring
  refine ⟨turns, hpositive, hturns, fun i hi => ?_, hback⟩
  rw [hcount i hi, Int.mul_ediv_cancel' (hweights i)]

/-- Every other pick of twice the whole weight is proportional to the weights exactly if the period is odd. With an even
one each gateway gets an even multiple of the greatest common divisor, which cannot be the weight of all. -/
theorem Period.shares_iff (h : Period gateways turns) :
    (∀ i < gateways.length, ((alternate false (cycle (2 * (turns * commonDivisor gateways)) gateways)).count (some i) :
      Int) = weights gateways i) ↔ turns % 2 = 1 := by
  have hpositive := h.positive
  rcases Nat.mod_two_eq_zero_or_one turns with heven | hodd
  · refine iff_of_false (fun hshares => ?_) (by omega)
    have htwice : 2 * commonDivisor gateways ∣ commonDivisor gateways := by
      refine dvd_commonDivisor.mpr fun gateway hgateway => ?_
      obtain ⟨i, hi, rfl⟩ := List.mem_iff_getElem.mp hgateway
      have hshare := hshares i hi
      rw [mul_left_comm, count_alternate_even h.back heven] at hshare
      rw [show gateways[i].weight.toInt = weights gateways i by simp [weights, column, hi], ← hshare]
      exact Int.natCast_dvd_natCast.mpr (Nat.dvd_mul_right _ _)
    have := Nat.le_of_dvd hpositive htwice
    omega
  · refine iff_of_true (fun i hi => ?_) hodd
    rw [count_alternate_odd h.back hodd, Nat.cast_mul, h.counts i hi]

/-- The period is odd exactly if twice the greatest common divisor does not divide the whole weight. -/
theorem Period.odd_iff (h : Period gateways turns) :
    turns % 2 = 1 ↔ ¬ (2 * commonDivisor gateways : Int) ∣ totalWeight gateways := by
  have hpositive := h.positive
  rw [h.whole, mul_comm (2 : Int), mul_dvd_mul_iff_left (by omega)]
  omega

end Period

/-- Fired groups are shared by weight exactly if the grain is not paused and the greatest common divisor of the weights
goes an odd number of times into the whole weight. -/
theorem receivers_proportional (settings : Settings) (type : String) (x : QueueGrain) (firings : List Firing)
    (hne : x.gateways ≠ []) (hdistinct : DistinctNames x.gateways)
    (htypes : ∀ gateway ∈ x.gateways, type ∈ gateway.batchTypes) (hpos : ∀ gateway ∈ x.gateways, 0 < gateway.weight)
    (hzero : ∀ gateway ∈ x.gateways, gateway.currentWeight = 0) (hproper : ∀ f ∈ firings, f.Proper)
    (hlength : firings.length = totalWeight x.gateways) (hfits : Fits x.gateways) :
    (∀ gateway ∈ x.gateways, ((Firing.receivers settings type x firings).count gateway.name : Int) =
      gateway.weight.toInt) ↔ x.paused = false ∧ ¬ (2 * commonDivisor x.gateways : Int) ∣ totalWeight x.gateways := by
  cases hpaused : x.paused with
  | true =>
    obtain ⟨gateway, hgateway⟩ := List.exists_mem_of_ne_nil _ hne
    refine iff_of_false (fun hshares => ?_) fun h => Bool.noConfusion h.1
    have hnone := hshares gateway hgateway
    rw [receivers_paused settings type hpaused] at hnone
    exact (Int32.lt_iff_toInt_lt.mp (hpos gateway hgateway)).ne hnone
  | false =>
    obtain ⟨turns, hperiod⟩ := exists_period ⟨hne, hpos, hzero⟩ hfits
    have hturns : firings.length = turns * commonDivisor x.gateways := by
      rw [mul_comm]
      exact_mod_cast hlength.trans hperiod.whole
    have hstart : Fired x x.gateways x := ⟨rfl, rfl, rfl, hpaused⟩
    rw [← hperiod.odd_iff, ← hperiod.shares_iff, List.forall_mem_iff_getElem, and_iff_right rfl]
    refine forall₂_congr fun i hi => ?_
    rw [hstart.receivers htypes hne settings hproper, count_nameOf hdistinct (List.getElem?_eq_getElem hi), hturns,
      show weights x.gateways i = x.gateways[i].weight.toInt by simp [weights, column, hi]]
    exact fun pick hpick => mem_cycle hne ((alternate_sublist ..).subset hpick)

/-- A firing that meets gateways with credits. -/
def plainFiring : Firing where
  group := "digest"
  fireTurn := { now := 0 }
  leaseTurn := { now := 0 }
  fireCredits _ := 4
  leaseCredits _ := 4
  tasks := [{ id := "t" }]

theorem plainFiring_proper : plainFiring.Proper :=
  have hcredits : (0 : Int32) < 4 := by decide
  ⟨List.cons_ne_nil _ _, rfl, fun _ => hcredits, fun _ => hcredits⟩

/-- A grain with gateways of such weights that take batches of the type "mail". -/
def mailGrain (weights : List (String × Int32)) : QueueGrain where
  queue := "q"
  gateways := weights.map fun w =>
    { name := w.1, capacity := 4, credits := 4, weight := w.2, batchTypes := ["mail"] }

/-- The batches of three firings with weights two and one. -/
theorem receivers_proportional_twoToOne :
    let x := mailGrain [("a", 2), ("b", 1)]
    ∀ gateway ∈ x.gateways, ((Firing.receivers defaultSettings "mail" x (List.replicate 3 plainFiring)).count
      gateway.name : Int) = gateway.weight.toInt :=
  (receivers_proportional defaultSettings "mail" (mailGrain [("a", 2), ("b", 1)]) (List.replicate 3 plainFiring)
    (by decide) (by rw [DistinctNames]; decide) (by decide) (by decide) (by decide)
    (fun f hf => List.eq_of_mem_replicate hf ▸ plainFiring_proper) (by decide) ⟨by decide, by decide⟩).mpr (by decide)

/-- Of two gateways with equal weights, the second one gets both batches. -/
theorem second_gets_all :
    let x := mailGrain [("a", 1), ("b", 1)]
    DistinctNames x.gateways ∧ totalWeight x.gateways = 2 ∧ plainFiring.Proper ∧
      Firing.receivers defaultSettings "mail" x [plainFiring, plainFiring] = ["b", "b"] :=
  ⟨by rw [DistinctNames]; decide, by decide, plainFiring_proper, by decide⟩

end QueueGrain

end Conveyor
