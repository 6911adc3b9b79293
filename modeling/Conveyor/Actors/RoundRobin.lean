import Conveyor.Actors.Credits
import Conveyor.Lib.RoundRobin
import Conveyor.Lib.Run
import Conveyor.Lib.Words
import Mathlib.Algebra.Order.Field.Rat
import Mathlib.Algebra.Order.Field.Basic

/-!
# The weighted round-robin of a grain

The grain's selection is a step of smooth weighted round-robin on the accumulators of its gateways, as long as its
32-bit sums do not overflow. Between two calls the credits and the batch types of the gateways may change, and with
them the gateways that are eligible.
-/

namespace Conveyor

open Lib Lib.RoundRobin

/-- One call of `selectWeightedGateway`: what became of each gateway since the call before, and which are eligible. -/
structure Selection where
  update : Nat → GatewayCredits → GatewayCredits
  eligible : GatewayCredits → Bool

namespace Selection

/-- The gateways a call finds. -/
def found (s : Selection) (gateways : List GatewayCredits) : List GatewayCredits := gateways.mapIdx s.update

/-- The gateways after a call. -/
def after (gateways : List GatewayCredits) (s : Selection) : List GatewayCredits :=
  (QueueGrain.selectWeightedGateway s.eligible (s.found gateways)).1

/-- The index of the gateway a call picks. -/
def picked (gateways : List GatewayCredits) (s : Selection) : Option Nat :=
  (QueueGrain.selectWeightedGateway s.eligible (s.found gateways)).2

/-- Weights and accumulators are left as the call before had them. -/
def Keeps (s : Selection) : Prop :=
  ∀ index gateway, (s.update index gateway).weight = gateway.weight ∧
    (s.update index gateway).currentWeight = gateway.currentWeight

/-- The indices a sequence of calls picks. -/
def picks (gateways : List GatewayCredits) : List Selection → List (Option Nat)
  | [] => []
  | s :: rest => s.picked gateways :: picks (s.after gateways) rest

end Selection

namespace QueueGrain

/-- The eligible weight, in 32 bits. -/
def eligibleWeight (eligible : GatewayCredits → Bool) (gateways : List GatewayCredits) : Int32 :=
  (gateways.filter eligible).foldl (fun total gateway => total + gateway.weight) 0

/-- The sums of a call are those of the integers. -/
structure Exact (eligible : GatewayCredits → Bool) (gateways : List GatewayCredits) : Prop where
  raised : ∀ gateway ∈ gateways, eligible gateway = true →
    (gateway.currentWeight + gateway.weight).toInt = gateway.currentWeight.toInt + gateway.weight.toInt
  total : (eligibleWeight eligible gateways).toInt =
    ((gateways.filter eligible).map fun gateway => gateway.weight.toInt).sum
  debited : ∀ index ∈ (selectWeightedGateway eligible gateways).2, ∀ gateway ∈ gateways[index]?,
    (gateway.currentWeight + gateway.weight - eligibleWeight eligible gateways).toInt =
      (gateway.currentWeight + gateway.weight).toInt - (eligibleWeight eligible gateways).toInt

/-- A column of the gateways as a function of the index. -/
def column (field : GatewayCredits → Int) (gateways : List GatewayCredits) (i : Nat) : Int :=
  (gateways.map field)[i]?.getD 0

/-- The weights and the accumulators. -/
def weights : List GatewayCredits → Nat → Int := column fun gateway => gateway.weight.toInt
def accumulators : List GatewayCredits → Nat → Int := column fun gateway => gateway.currentWeight.toInt

/-- The sum of a column. -/
theorem sum_column (field : GatewayCredits → Int) (gateways : List GatewayCredits) :
    ∑ i ∈ Finset.range gateways.length, column field gateways i = (gateways.map field).sum := by
  induction gateways with
  | nil => rfl
  | cons gateway rest ih =>
    rw [List.length_cons, Finset.sum_range_succ', List.map_cons, List.sum_cons, ← ih, add_comm]
    rfl

/-- The indices of the eligible gateways. -/
def eligibleAt (eligible : GatewayCredits → Bool) (gateways : List GatewayCredits) : Finset Nat :=
  (Finset.range gateways.length).filter fun i => gateways[i]?.any eligible = true

variable {eligible : GatewayCredits → Bool} {i : Nat}

theorem mem_eligibleAt {gateways : List GatewayCredits} :
    i ∈ eligibleAt eligible gateways ↔ ∃ gateway, gateways[i]? = some gateway ∧ eligible gateway = true := by
  rw [eligibleAt, Finset.mem_filter, Finset.mem_range]
  cases hget : gateways[i]? with
  | none => simp
  | some gateway => simp [(List.getElem?_eq_some_iff.mp hget).1]

/-- The weights of the eligible gateways. -/
theorem sum_eligibleAt (eligible : GatewayCredits → Bool) (gateways : List GatewayCredits) :
    ∑ i ∈ eligibleAt eligible gateways, weights gateways i =
      ((gateways.filter eligible).map fun gateway => gateway.weight.toInt).sum := by
  have hcolumn := sum_column (fun gateway => if eligible gateway = true then gateway.weight.toInt else 0) gateways
  have hfilter : (gateways.map fun gateway => if eligible gateway = true then gateway.weight.toInt else 0).sum =
      ((gateways.filter eligible).map fun gateway => gateway.weight.toInt).sum := by
    clear hcolumn
    induction gateways with
    | nil => rfl
    | cons gateway rest ih =>
      rw [List.map_cons, List.sum_cons, ih, List.filter_cons]
      split <;> simp
  rw [eligibleAt, Finset.sum_filter, ← hfilter, ← hcolumn]
  refine Finset.sum_congr rfl fun i _ => ?_
  cases hget : gateways[i]? <;> simp [weights, column, hget]

section Select

variable {eligible : GatewayCredits → Bool} {gateways : List GatewayCredits}

/-- The search fails only without an eligible gateway. -/
theorem highest_eq_none {start : Nat} (h : highest eligible gateways start none = none) :
    ∀ gateway ∈ gateways, eligible gateway = false := by
  have hsome : ∀ (gateways : List GatewayCredits) (start : Nat) (best : Nat × Int32),
      highest eligible gateways start (some best) ≠ none := by
    intro gateways
    induction gateways with
    | nil => exact fun start best => by rintro ⟨⟩
    | cons gateway rest ih =>
      intro start best
      rw [highest]
      split <;> exact ih _ _
  induction gateways generalizing start with
  | nil => rintro _ ⟨⟩
  | cons gateway rest ih =>
    rw [highest] at h
    split at h
    · exact absurd h (hsome _ _ _)
    · rename_i hpass
      exact List.forall_mem_cons.mpr ⟨by simpa using hpass, ih h⟩

/-- Without an eligible gateway nothing changes. -/
theorem select_none (h : (selectWeightedGateway eligible gateways).2 = none) :
    (∀ gateway ∈ gateways, eligible gateway = false) ∧ (selectWeightedGateway eligible gateways).1 = gateways := by
  simp only [selectWeightedGateway] at h ⊢
  cases hfound : highest eligible gateways 0 none with
  | some index =>
    rw [hfound] at h
    cases h
  | none =>
    have hnot := highest_eq_none hfound
    refine ⟨hnot, (List.map_congr_left fun gateway hgateway => ?_).trans (List.map_id _)⟩
    rw [hnot gateway hgateway]
    rfl

theorem select_snd (eligible : GatewayCredits → Bool) (gateways : List GatewayCredits) :
    (selectWeightedGateway eligible gateways).2 = highest eligible gateways 0 none := by
  simp only [selectWeightedGateway]
  cases highest eligible gateways 0 none <;> rfl

/-- No eligible gateway is higher than the picked one once the weights are added, and those before it are lower. -/
theorem select_highest {index : Nat} (h : (selectWeightedGateway eligible gateways).2 = some index)
    {gateway : GatewayCredits} (hget : gateways[index]? = some gateway) {i : Nat} {other : GatewayCredits}
    (hother : gateways[i]? = some other) (helig : eligible other = true) :
    (other.currentWeight + other.weight).toInt ≤ (gateway.currentWeight + gateway.weight).toInt ∧
      (i < index → (other.currentWeight + other.weight).toInt < (gateway.currentWeight + gateway.weight).toInt) := by
  rw [select_snd] at h
  obtain ⟨top, hnone | ⟨found, -, hfound, -, rfl⟩, -, hhighest⟩ := highest_spec h
  · cases hnone
  rw [Nat.sub_zero, hget, Option.some.injEq] at hfound
  have hfirst := (highest_first (by simp) h (Nat.zero_le index) hget).2 i other
  rw [hfound]
  exact ⟨hhighest other (List.mem_of_getElem? hother) helig, fun hlt => hfound ▸ hfirst hlt hother helig⟩

/-- A call that picks a gateway is a step of the round-robin. -/
theorem select_step (h : Exact eligible gateways) {index : Nat}
    (hpick : (selectWeightedGateway eligible gateways).2 = some index) :
    Step (weights gateways) (eligibleAt eligible gateways) index (accumulators gateways)
      (accumulators (selectWeightedGateway eligible gateways).1) := by
  have hdebited := h.debited index hpick
  have htotal := h.total
  rw [← sum_eligibleAt] at htotal
  simp only [selectWeightedGateway] at hpick ⊢
  rw [← eligibleWeight]
  cases hfound : highest eligible gateways 0 none with
  | none =>
    rw [hfound] at hpick
    cases hpick
  | some found =>
    rw [hfound] at hpick
    obtain rfl : found = index := Option.some.inj hpick
    obtain ⟨top, hnone | ⟨gateway, -, hget, helig, rfl⟩, -, hhighest⟩ := highest_spec hfound
    · cases hnone
    rw [Nat.sub_zero] at hget
    have hraised : ∀ {i other}, gateways[i]? = some other → eligible other = true →
        (other.currentWeight + other.weight).toInt = other.currentWeight.toInt + other.weight.toInt :=
      fun hother => h.raised _ (List.mem_of_getElem? hother)
    refine ⟨mem_eligibleAt.mpr ⟨gateway, hget, helig⟩, fun i hi => ?_, fun i => ?_⟩
    · obtain ⟨other, hother, hotherElig⟩ := mem_eligibleAt.mp hi
      have hle := hhighest other (List.mem_of_getElem? hother) hotherElig
      rw [hraised hother hotherElig, hraised hget helig] at hle
      simpa [weights, accumulators, column, hget, hother] using hle
    · rw [← htotal, accumulators, column, List.getElem?_map, List.getElem?_modify, List.getElem?_map]
      cases hother : gateways[i]? with
      | none =>
        have hne : i ≠ found := by
          rintro rfl
          cases hother.symm.trans hget
        simp [column, mem_eligibleAt, hother, hne]
      | some other =>
        rcases eq_or_ne i found with rfl | hfirst
        · cases hother.symm.trans hget
          have hexact := hdebited gateway hget
          rw [hraised hget helig] at hexact
          simpa [weights, accumulators, column, mem_eligibleAt, hget, helig] using hexact
        · cases hotherElig : eligible other with
          | true =>
            simpa [weights, accumulators, column, mem_eligibleAt, hother, hotherElig, hfirst, Ne.symm hfirst]
              using hraised hother hotherElig
          | false => simp [column, mem_eligibleAt, hother, hotherElig, hfirst, Ne.symm hfirst]

end Select

/-- The weight of all gateways. -/
def totalWeight (gateways : List GatewayCredits) : Int := (gateways.map fun gateway => gateway.weight.toInt).sum

/-- Later gateways have the weights of the first ones. -/
def SameWeights (gateways later : List GatewayCredits) : Prop :=
  (later.map fun gateway => gateway.weight.toInt) = gateways.map fun gateway => gateway.weight.toInt

/-- The gateways have kept their positive weights, and the accumulators are balanced. -/
structure Settled (gateways later : List GatewayCredits) : Prop where
  positive : ∀ gateway ∈ gateways, 0 < gateway.weight
  kept : SameWeights gateways later
  balanced : Balanced (Finset.range gateways.length) (weights gateways) (accumulators later)

section Calls

variable {gateways later : List GatewayCredits} {s : Selection}

theorem sum_weights (gateways : List GatewayCredits) :
    ∑ i ∈ Finset.range gateways.length, weights gateways i = totalWeight gateways := sum_column _ gateways

theorem weights_nonneg (hpos : ∀ gateway ∈ gateways, 0 < gateway.weight) (i : Nat) : 0 ≤ weights gateways i := by
  rw [weights, column, List.getElem?_map]
  cases hget : gateways[i]? with
  | none => exact le_rfl
  | some gateway => exact (Int32.lt_iff_toInt_lt.mp (hpos gateway (List.mem_of_getElem? hget))).le

theorem column_congr {field : GatewayCredits → Int} (h : later.map field = gateways.map field) :
    column field later = column field gateways := by
  funext i
  rw [column, column, h]

theorem SameWeights.length_eq (h : SameWeights gateways later) : later.length = gateways.length := by
  simpa using congrArg List.length h

/-- What is left alone between two calls is found by the later one. -/
theorem found_map {View : Type} {field : GatewayCredits → View}
    (hfield : ∀ index gateway, field (s.update index gateway) = field gateway) :
    (s.found later).map field = later.map field := by
  refine List.ext_getElem? fun i => ?_
  rw [Selection.found, List.getElem?_map, List.getElem?_map, List.getElem?_mapIdx]
  cases later[i]? with
  | none => rfl
  | some gateway => exact congrArg some (hfield i gateway)

/-- What a call does to weights and accumulators: nothing, when no gateway is eligible, or a step of the
round-robin. -/
theorem call_step (hkeeps : s.Keeps) (hexact : Exact s.eligible (s.found later)) :
    SameWeights later (s.after later) ∧
      ((∀ gateway ∈ s.found later, s.eligible gateway = false) ∧
          accumulators (s.after later) = accumulators later ∨
        ∃ index, s.picked later = some index ∧
          Step (weights later) (eligibleAt s.eligible (s.found later)) index (accumulators later)
            (accumulators (s.after later))) := by
  have hweights := @found_map later s Int (fun gateway => gateway.weight.toInt)
    fun index gateway => congrArg Int32.toInt (hkeeps index gateway).1
  have haccumulators : accumulators (s.found later) = accumulators later :=
    column_congr (found_map fun index gateway => congrArg Int32.toInt (hkeeps index gateway).2)
  refine ⟨(select_entries s.eligible (s.found later) fun _ _ => rfl).trans hweights, ?_⟩
  rw [← haccumulators, ← show weights (s.found later) = weights later from column_congr hweights]
  cases hpick : s.picked later with
  | none =>
    obtain ⟨hnone, hsame⟩ := select_none hpick
    exact .inl ⟨hnone, congrArg accumulators hsame⟩
  | some index => exact .inr ⟨index, rfl, select_step hexact hpick⟩

theorem eligibleAt_subset : eligibleAt eligible (s.found later) ⊆ Finset.range later.length := by
  intro i hi
  have hlt := Finset.mem_range.mp (Finset.mem_filter.mp hi).1
  rw [Selection.found, List.length_mapIdx] at hlt
  exact Finset.mem_range.mpr hlt

/-- A call keeps weights and balance. -/
theorem Settled.call (h : Settled gateways later) (hkeeps : s.Keeps) (hexact : Exact s.eligible (s.found later)) :
    Settled gateways (s.after later) := by
  obtain ⟨hkept, hstep⟩ := call_step hkeeps hexact
  refine ⟨h.positive, hkept.trans h.kept, ?_⟩
  rcases hstep with ⟨-, hsame⟩ | ⟨index, -, hstep⟩
  · rw [hsame]
    exact h.balanced
  · rw [show weights later = weights gateways from column_congr h.kept] at hstep
    refine h.balanced.step hstep (fun i _ => weights_nonneg h.positive i) ?_
    rw [← h.kept.length_eq]
    exact eligibleAt_subset

theorem accumulators_eq_zero (hzero : ∀ gateway ∈ gateways, gateway.currentWeight = 0) (i : Nat) :
    accumulators gateways i = 0 := by
  rw [accumulators, column, List.getElem?_map]
  cases hget : gateways[i]? with
  | none => rfl
  | some gateway =>
    rw [Option.map_some, hzero gateway (List.mem_of_getElem? hget)]
    rfl

theorem currentWeight_eq_zero (h : ∀ i < gateways.length, accumulators gateways i = 0) :
    ∀ gateway ∈ gateways, gateway.currentWeight = 0 := by
  intro gateway hgateway
  obtain ⟨i, hlt, hget⟩ := List.mem_iff_getElem.mp hgateway
  have hacc := h i hlt
  simp only [accumulators, column, List.getElem?_map, List.getElem?_eq_getElem hlt, hget] at hacc
  exact Int32.toInt_inj.mp hacc

/-- Gateways with zero accumulators. -/
theorem Settled.start (hpos : ∀ gateway ∈ gateways, 0 < gateway.weight)
    (hzero : ∀ gateway ∈ gateways, gateway.currentWeight = 0) : Settled gateways gateways := by
  have hnone := accumulators_eq_zero hzero
  refine ⟨hpos, rfl, Finset.sum_eq_zero fun i _ => hnone i, fun T hT => ?_⟩
  rw [Finset.sum_eq_zero fun i _ => hnone i]
  have hcard := Int.ofNat_le.mpr (Finset.card_le_card hT)
  exact mul_nonneg (mul_nonneg (Int.natCast_nonneg _) (by omega))
    (Finset.sum_nonneg fun i _ => weights_nonneg hpos i)

/-- Every accumulator is within `n - 1` times the whole weight. -/
theorem Settled.within (h : Settled gateways later) {gateway : GatewayCredits} (hgateway : gateway ∈ later) :
    |gateway.currentWeight.toInt| ≤ (gateways.length - 1) * totalWeight gateways := by
  obtain ⟨i, hlt, hget⟩ := List.mem_iff_getElem.mp hgateway
  have hbound := h.balanced.abs_acc_le (Finset.mem_range.mpr (h.kept.length_eq ▸ hlt))
  rw [Finset.card_range, sum_weights] at hbound
  simpa [accumulators, column, hlt, hget] using hbound

end Calls

/-- Whatever gateways are eligible in each call, the accumulators sum up to zero and stay bounded. -/
theorem accumulators_bounded (gateways : List GatewayCredits) (selections : List Selection)
    (hpos : ∀ gateway ∈ gateways, 0 < gateway.weight)
    (hzero : ∀ gateway ∈ gateways, gateway.currentWeight = 0)
    (hcalls : StepsMeet Selection.after (fun found s => s.Keeps ∧ Exact s.eligible (s.found found)) gateways
      selections) :
    let later := run Selection.after gateways selections
    (later.map fun gateway => gateway.currentWeight.toInt).sum = 0 ∧
      ∀ gateway ∈ later, |gateway.currentWeight.toInt| ≤ (gateways.length - 1) * totalWeight gateways := by
  have hsettled := run_invariant (Settled gateways)
    (fun later s hcall h => h.call hcall.1 hcall.2) gateways selections hcalls (.start hpos hzero)
  refine ⟨?_, fun gateway hgateway => hsettled.within hgateway⟩
  rw [← sum_column, hsettled.kept.length_eq]
  exact hsettled.balanced.total

/-- Two gateways, one with twice the weight of the other. -/
def twoToOne : List GatewayCredits :=
  [⟨"a", 4, 4, 2, 0, []⟩, ⟨"b", 4, 4, 1, 0, []⟩]

/-- A call for the gateways with credits, after the first gateway got so many. -/
def callWith (credits : Int32) : Selection where
  update index gateway := if index = 0 then { gateway with credits := credits } else gateway
  eligible := hasCredit

theorem callWith_keeps (credits : Int32) : (callWith credits).Keeps := by
  intro index gateway
  by_cases h : index = 0 <;> simp [callWith, h]

/-- The heavier gateway runs out of credits for one call. -/
theorem accumulators_bounded_outOfCredits :
    let later := run Selection.after twoToOne [callWith 1, callWith 0, callWith 1]
    (later.map fun gateway => gateway.currentWeight.toInt).sum = 0 ∧
      ∀ gateway ∈ later, |gateway.currentWeight.toInt| ≤ (twoToOne.length - 1) * totalWeight twoToOne :=
  accumulators_bounded twoToOne [callWith 1, callWith 0, callWith 1] (by decide) (by decide)
    ⟨⟨callWith_keeps 1, by decide, by decide, by decide⟩, ⟨callWith_keeps 0, by decide, by decide, by decide⟩,
      ⟨callWith_keeps 1, by decide, by decide, by decide⟩, trivial⟩

section Proportional

variable {gateways later : List GatewayCredits} {s : Selection} {picks : List (Option Nat)}

theorem mem_weights_nonneg (hpos : ∀ gateway ∈ gateways, 0 < gateway.weight) :
    ∀ n ∈ gateways.map fun gateway => gateway.weight.toInt, 0 ≤ n := by
  intro n hn
  obtain ⟨gateway, hgateway, rfl⟩ := List.mem_map.mp hn
  exact (Int32.lt_iff_toInt_lt.mp (hpos gateway hgateway)).le

/-- While the whole weight, times the number of gateways, fits into 32 bits, no call overflows. -/
theorem Settled.exact (h : Settled gateways later) (hfits : gateways.length * totalWeight gateways < 2 ^ 31)
    (eligible : GatewayCredits → Bool) : Exact eligible later := by
  have hpos' : ∀ gateway ∈ later, 0 < gateway.weight := by
    intro gateway hgateway
    have hmem : gateway.weight.toInt ∈ gateways.map fun gateway => gateway.weight.toInt :=
      h.kept ▸ List.mem_map_of_mem hgateway
    obtain ⟨other, hother, heq⟩ := List.mem_map.mp hmem
    rw [Int32.lt_iff_toInt_lt, ← heq, ← Int32.lt_iff_toInt_lt]
    exact h.positive other hother
  have hnonneg := mem_weights_nonneg hpos'
  have hweight : totalWeight later = totalWeight gateways := congrArg List.sum h.kept
  have hless := (List.filter_sublist (p := eligible) (l := later)).map fun gateway => gateway.weight.toInt
  have hpart : totalWeight (later.filter eligible) ≤ totalWeight later := hless.sum_le_sum hnonneg
  have hpart' : 0 ≤ totalWeight (later.filter eligible) := List.sum_nonneg fun n hn => hnonneg n (hless.subset hn)
  -- an accumulator leaves room for the whole weight, up and down
  have hroom : ∀ gateway ∈ later, -2 ^ 31 < gateway.currentWeight.toInt - totalWeight gateways ∧
      gateway.currentWeight.toInt + totalWeight gateways < 2 ^ 31 ∧
      0 ≤ gateway.weight.toInt ∧ gateway.weight.toInt ≤ totalWeight gateways := by
    intro gateway hgateway
    obtain ⟨hlow, hhigh⟩ := abs_le.mp (h.within hgateway)
    rw [sub_one_mul] at hlow hhigh
    have hmem := List.mem_map_of_mem (f := fun gateway : GatewayCredits => gateway.weight.toInt) hgateway
    have hsingle : gateway.weight.toInt ≤ totalWeight later := List.single_le_sum hnonneg _ hmem
    exact ⟨by omega, by omega, hnonneg _ hmem, hweight ▸ hsingle⟩
  have htotal : (eligibleWeight eligible later).toInt = totalWeight (later.filter eligible) := by
    refine (toInt_foldl_add32 _ _ (fun gateway hgateway =>
      hnonneg _ (List.mem_map_of_mem (List.mem_of_mem_filter hgateway))) le_rfl ?_).trans (zero_add _)
    rw [Int32.toInt_zero, ← totalWeight]
    cases later with
    | nil => simp [totalWeight]
    | cons gateway rest =>
      have := hroom gateway (.head _)
      omega
  have hraised : ∀ gateway ∈ later, (gateway.currentWeight + gateway.weight).toInt =
      gateway.currentWeight.toInt + gateway.weight.toInt := by
    intro gateway hgateway
    have := hroom gateway hgateway
    exact toInt_add_of_fits (by omega) (by omega)
  refine ⟨fun gateway hgateway _ => hraised gateway hgateway, htotal, fun index _ gateway hgateway => ?_⟩
  have hmem := List.mem_of_getElem? hgateway
  have := hroom gateway hmem
  rw [toInt_sub_of_fits] <;> rw [hraised gateway hmem, htotal] <;> omega

theorem totalWeight_pos (hne : gateways ≠ []) (hpos : ∀ gateway ∈ gateways, 0 < gateway.weight) :
    0 < totalWeight gateways := by
  refine List.sum_pos _ (fun n hn => ?_) (by simpa using hne)
  obtain ⟨gateway, hgateway, rfl⟩ := List.mem_map.mp hn
  exact Int32.lt_iff_toInt_lt.mp (hpos gateway hgateway)

/-- Gateways as they register: some, with positive weights and no turns yet. -/
structure Fresh (gateways : List GatewayCredits) : Prop where
  nonempty : gateways ≠ []
  positive : ∀ gateway ∈ gateways, 0 < gateway.weight
  zero : ∀ gateway ∈ gateways, gateway.currentWeight = 0

/-- All gateways were eligible all the time, and the calls picked them in this order. -/
structure Proportional (gateways : List GatewayCredits) (picks : List (Option Nat)) (later : List GatewayCredits) :
    Prop where
  nonempty : gateways ≠ []
  settled : Settled gateways later
  low : ∀ i ∈ Finset.range gateways.length, -totalWeight gateways < accumulators later i
  acc : ∀ i ∈ Finset.range gateways.length,
    accumulators later i = picks.length * weights gateways i - picks.count (some i) * totalWeight gateways
  count : ∑ i ∈ Finset.range gateways.length, picks.count (some i) = picks.length

/-- A call finds the gateways as the one before it left them. -/
theorem Settled.found (h : Settled gateways later) (hkeeps : s.Keeps) : Settled gateways (s.found later) := by
  refine ⟨h.positive, (found_map fun index gateway => congrArg Int32.toInt (hkeeps index gateway).1).trans h.kept, ?_⟩
  rw [show accumulators (s.found later) = accumulators later from
    column_congr (found_map fun index gateway => congrArg Int32.toInt (hkeeps index gateway).2)]
  exact h.balanced

/-- With all gateways eligible a call is a step of all of them. -/
theorem Settled.step (h : Settled gateways later) (hne : gateways ≠ []) (hkeeps : s.Keeps)
    (hall : ∀ gateway ∈ s.found later, s.eligible gateway = true) (hexact : Exact s.eligible (s.found later)) :
    ∃ index, s.picked later = some index ∧ Step (weights gateways) (Finset.range gateways.length) index
      (accumulators later) (accumulators (s.after later)) := by
  have hlength := (h.found hkeeps).kept.length_eq
  obtain ⟨-, ⟨hnone, -⟩ | ⟨index, hpick, hstep⟩⟩ := call_step hkeeps hexact
  · obtain ⟨gateway, hgateway⟩ := List.exists_mem_of_ne_nil (s.found later) fun hnil => hne <|
      List.eq_nil_of_length_eq_zero (by rw [← hlength, hnil]; rfl)
    exact absurd ((hall gateway hgateway).symm.trans (hnone gateway hgateway)) nofun
  have hU : eligibleAt s.eligible (s.found later) = Finset.range gateways.length := by
    rw [eligibleAt, hlength, Finset.filter_true_of_mem]
    intro i hi
    rw [Finset.mem_range, ← hlength] at hi
    rw [List.getElem?_eq_getElem hi]
    exact hall _ (List.getElem_mem hi)
  rw [hU, show weights later = weights gateways from column_congr h.kept] at hstep
  exact ⟨index, hpick, hstep⟩

/-- There is weight to share. -/
theorem Proportional.totalWeight_pos (h : Proportional gateways picks later) : 0 < totalWeight gateways :=
  QueueGrain.totalWeight_pos h.nonempty h.settled.positive

/-- A call with all gateways eligible. -/
theorem Proportional.call (h : Proportional gateways picks later) (hkeeps : s.Keeps)
    (hall : ∀ gateway ∈ s.found later, s.eligible gateway = true) (hexact : Exact s.eligible (s.found later)) :
    Proportional gateways (picks ++ [s.picked later]) (s.after later) := by
  obtain ⟨index, hpick, hstep⟩ := h.settled.step h.nonempty hkeeps hall hexact
  have hindex := hstep.mem
  have hsum := sum_weights gateways
  refine ⟨h.nonempty, h.settled.call hkeeps hexact, fun i hi => ?_, fun i hi => ?_, ?_⟩
  · rw [← hsum]
    refine hstep.neg_lt h.settled.balanced.total (fun i _ => weights_nonneg h.settled.positive i) ?_ ?_ hi
    · exact hsum ▸ h.totalWeight_pos
    · exact hsum ▸ h.low
  · rw [hstep.next, if_pos hi, h.acc i hi, hsum, hpick, List.length_append, List.count_append,
      List.length_singleton, List.count_singleton]
    by_cases hi : i = index
    · simp only [hi, if_true, beq_self_eq_true]
      push_cast
      ring
    · simp only [hi, Ne.symm hi, if_false, Option.some_beq_some, beq_iff_eq]
      push_cast
      ring
  · simp [List.count_append, Finset.sum_add_distrib, h.count, hpick, List.count_singleton, Finset.mem_range.mp hindex]

/-- Calls with all gateways eligible, one after the other. -/
theorem Proportional.calls (h : Proportional gateways picks later)
    (hfits : gateways.length * totalWeight gateways < 2 ^ 31) {selections : List Selection}
    (hcalls : StepsMeet Selection.after (fun found s => s.Keeps ∧ ∀ gateway ∈ s.found found, s.eligible gateway = true)
      later selections) :
    Proportional gateways (picks ++ Selection.picks later selections) (run Selection.after later selections) := by
  induction selections generalizing later picks with
  | nil => simpa [Selection.picks] using h
  | cons s rest ih =>
    have hexact := (h.settled.found hcalls.1.1).exact hfits s.eligible
    have hnext := ih (h.call hcalls.1.1 hcalls.1.2 hexact) hcalls.2
    rwa [List.append_assoc] at hnext

theorem Fresh.proportional (h : Fresh gateways) : Proportional gateways [] gateways := by
  have hnone := accumulators_eq_zero h.zero
  have hweight := totalWeight_pos h.nonempty h.positive
  exact ⟨h.nonempty, .start h.positive h.zero, fun i _ => by rw [hnone]; omega, fun i _ => by simp [hnone], by simp⟩

theorem length_picks (later : List GatewayCredits) (selections : List Selection) :
    (Selection.picks later selections).length = selections.length := by
  induction selections generalizing later with
  | nil => rfl
  | cons s rest ih => exact congrArg Nat.succ (ih _)

/-- After as many calls as give every gateway a whole number of turns. -/
theorem Proportional.block (h : Proportional gateways picks later) {q : Nat → Int}
    (hblock : ∀ i, picks.length * weights gateways i = q i * totalWeight gateways)
    (hi : i < gateways.length) : (picks.count (some i) : Int) = q i ∧ accumulators later i = 0 := by
  have hsum := sum_weights gateways
  refine @picks_eq Nat (weights gateways) _ _ picks.length q (fun i => picks.count (some i))
    (hsum ▸ h.totalWeight_pos) ?_ ?_
    h.count (fun i _ => hsum ▸ hblock i) i (Finset.mem_range.mpr hi)
  · exact hsum ▸ h.acc
  · exact hsum ▸ h.low

end Proportional

/-- With all gateways eligible, every block of as many calls as the whole weight picks each gateway as often as its
weight says and leaves all accumulators at zero; on the way no gateway gets a whole turn more than its share. -/
theorem picks_proportional (gateways : List GatewayCredits) (hne : gateways ≠ [])
    (hpos : ∀ gateway ∈ gateways, 0 < gateway.weight)
    (hzero : ∀ gateway ∈ gateways, gateway.currentWeight = 0)
    (hfits : gateways.length * totalWeight gateways < 2 ^ 31) (selections : List Selection)
    (hcalls : StepsMeet Selection.after (fun found s => s.Keeps ∧ ∀ gateway ∈ s.found found, s.eligible gateway = true)
      gateways selections) :
    (∀ i gateway, gateways[i]? = some gateway → ((Selection.picks gateways selections).count (some i) : ℚ) <
        selections.length * gateway.weight.toInt / totalWeight gateways + 1) ∧
      ∀ earlier block (j : Nat), selections = earlier ++ block →
        earlier.length = j * totalWeight gateways → block.length = totalWeight gateways →
        (∀ i gateway, gateways[i]? = some gateway →
          ((Selection.picks (run Selection.after gateways earlier) block).count (some i) : Int) =
            gateway.weight.toInt) ∧
        ∀ gateway ∈ run Selection.after gateways selections, gateway.currentWeight = 0 := by
  have hstart := Fresh.proportional ⟨hne, hpos, hzero⟩
  have hat : ∀ {i gateway}, gateways[i]? = some gateway →
      i < gateways.length ∧ weights gateways i = gateway.weight.toInt := by
    intro i gateway hget
    exact ⟨(List.getElem?_eq_some_iff.mp hget).1, by simp [weights, column, hget]⟩
  refine ⟨fun i gateway hget => ?_, ?_⟩
  · have hrun := hstart.calls hfits hcalls
    have hlow := hrun.low i (Finset.mem_range.mpr (hat hget).1)
    rw [hrun.acc i (Finset.mem_range.mpr (hat hget).1), (hat hget).2, List.nil_append, length_picks] at hlow
    have hpositive : (0 : ℚ) < totalWeight gateways := Int.cast_pos.mpr hstart.totalWeight_pos
    rw [div_add_one hpositive.ne', lt_div_iff₀ hpositive]
    exact_mod_cast (by linarith : _ * totalWeight gateways < _)
  · rintro earlier block j rfl hearlier hblock
    obtain ⟨hfirst, hthen⟩ := stepsMeet_append.mp hcalls
    have hbefore := hstart.calls hfits hfirst
    have hafter := hbefore.calls hfits hthen
    rw [← run_append] at hafter
    rw [List.nil_append] at hbefore hafter
    have hlast : ∀ {i}, i < gateways.length → _ := hafter.block (q := fun i => (j + 1) * weights gateways i)
      fun i => by
        rw [List.length_append, length_picks, length_picks, Nat.cast_add, hearlier, hblock]
        ring
    refine ⟨fun i gateway hget => ?_, fun gateway hgateway => ?_⟩
    · have hcounts := (hlast (hat hget).1).1
      rw [List.count_append, Nat.cast_add,
        (hbefore.block (fun i => by rw [length_picks, hearlier, mul_right_comm]) (hat hget).1).1,
        (hat hget).2] at hcounts
      linarith
    · exact currentWeight_eq_zero (fun i hi => (hlast (hafter.settled.kept.length_eq ▸ hi)).2) gateway hgateway

/-- Three calls pick the heavier gateway twice. -/
theorem picks_proportional_twoToOne :
    (∀ i gateway, twoToOne[i]? = some gateway →
      ((Selection.picks twoToOne (List.replicate 3 (callWith 1))).count (some i) : Int) = gateway.weight.toInt) ∧
    ∀ gateway ∈ run Selection.after twoToOne (List.replicate 3 (callWith 1)), gateway.currentWeight = 0 :=
  (picks_proportional twoToOne (by decide) (by decide) (by decide) (by decide) (List.replicate 3 (callWith 1))
    ⟨⟨callWith_keeps 1, by decide⟩, ⟨callWith_keeps 1, by decide⟩, ⟨callWith_keeps 1, by decide⟩, trivial⟩).2
    [] _ 0 rfl (by decide) (by decide)

end QueueGrain

end Conveyor
