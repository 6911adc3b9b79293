import Conveyor.Lib.Bag
import Conveyor.Lib.GoMap

/-!
# Counting the entries of a map

How many entries of a finite map meet a condition, and how writing or deleting one key changes the
count.
-/

namespace Conveyor.Lib

variable {K V : Type} (p : K → V → Bool) (m : GoMap K V)

/-- The number of entries that meet a condition. -/
def tally : Int := weigh (fun entry => indicator (p entry.1 entry.2 = true)) m.entries

@[simp] theorem tally_empty : tally p (∅ : GoMap K V) = 0 := rfl

theorem tally_nonneg : 0 ≤ tally p m := weigh_nonneg _ fun _ _ => indicator_nonneg _

variable [DecidableEq K]

/-- Whether the entry of a key meets the condition. -/
def tallyAt (k : K) : Int := indicator ((m.lookup k).any (p k) = true)

/-- Deleting a key takes its entry out of the count. -/
theorem tally_erase (k : K) : tally p (m.erase k) + tallyAt p m k = tally p m := by
  by_cases hk : k ∈ m
  · obtain ⟨v, before, after, hnot, hentries, herased⟩ := List.exists_of_kerase (AList.mem_keys.mp hk)
    have hlookup : m.lookup k = some v := by
      refine (List.mem_dlookup_iff m.nodupKeys).mpr ?_
      rw [hentries]
      exact List.mem_append_right _ (.head _)
    have hafter : tally p (m.erase k) = weigh (fun entry => indicator (p entry.1 entry.2 = true))
        (before ++ after) := by rw [← herased]; rfl
    rw [hafter, tally, hentries, tallyAt, hlookup]
    simp only [weigh_append, weigh_cons, Option.any_some]
    omega
  · have hnone := AList.lookup_eq_none.mpr hk
    have hsame : tally p (m.erase k) = tally p m := by
      have hentries : (m.erase k).entries = m.entries := List.kerase_of_notMem_keys (mt AList.mem_keys.mpr hk)
      rw [tally, tally, hentries]
    rw [hsame, tallyAt, hnone]
    simp

/-- Writing a key replaces its entry in the count. -/
theorem tally_insert (k : K) (v : V) :
    tally p (m.insert k v) + tallyAt p m k = tally p m + indicator (p k v = true) := by
  have hcons : tally p (m.insert k v) = indicator (p k v = true) + tally p (m.erase k) := by
    have hentries : (m.insert k v).entries = ⟨k, v⟩ :: (m.erase k).entries := rfl
    rw [tally, tally, hentries, weigh_cons]
  have herase := tally_erase p m k
  omega

variable {p m}

variable {k : K}

theorem tallyAt_of_lookup {v : V} (h : m.lookup k = some v) : tallyAt p m k = indicator (p k v = true) := by
  rw [tallyAt, h]
  rfl

theorem tallyAt_of_none (h : m.lookup k = none) : tallyAt p m k = 0 := by
  rw [tallyAt, h]
  rfl

theorem tallyAt_nonneg (k : K) : 0 ≤ tallyAt p m k := indicator_nonneg _

omit [DecidableEq K] in
theorem tally_eq_length (p : K → V → Bool) (m : GoMap K V) :
    tally p m = ((m.entries.filter fun entry => p entry.1 entry.2).length : Int) := by
  rw [tally]
  generalize m.entries = entries
  induction entries with
  | nil => rfl
  | cons entry rest ih =>
    rw [weigh_cons, ih]
    by_cases hp : p entry.1 entry.2 = true
    · rw [indicator_true hp, List.filter_cons, if_pos hp, List.length_cons]
      omega
    · rw [indicator_false hp, List.filter_cons, if_neg hp]
      omega

variable {p' : K → V → Bool}

/-- When each entry that meets a condition in one map is one of another map and meets its condition,
the first count is no larger than the second. -/
theorem tally_le {m' : GoMap K V}
    (h : ∀ k v, m.lookup k = some v → p k v = true → m'.lookup k = some v ∧ p' k v = true) :
    tally p m ≤ tally p' m' := by
  have hnodup := m.nodupKeys.nodup
  have hsub : (m.entries.filter fun entry => p entry.1 entry.2) ⊆
      m'.entries.filter fun entry => p' entry.1 entry.2 := by
    intro entry hentry
    obtain ⟨hmem, hp⟩ := List.mem_filter.mp hentry
    obtain ⟨hmem', hp'⟩ := h entry.1 entry.2 ((List.mem_dlookup_iff m.nodupKeys).mpr hmem) hp
    exact List.mem_filter.mpr ⟨(List.mem_dlookup_iff m'.nodupKeys).mp hmem', hp'⟩
  rw [tally_eq_length, tally_eq_length]
  exact Int.ofNat_le.mpr (List.subperm_of_subset (hnodup.filter _) hsub).length_le

/-- Conditions that agree on the entries of a map are met equally often. -/
theorem tally_congr (h : ∀ k v, m.lookup k = some v → p k v = p' k v) : tally p m = tally p' m :=
  le_antisymm (tally_le fun k v hkv hp => ⟨hkv, h k v hkv ▸ hp⟩)
    (tally_le fun k v hkv hp => ⟨hkv, (h k v hkv).symm ▸ hp⟩)

/-- A condition no entry meets. -/
theorem tally_eq_zero (h : ∀ k v, m.lookup k = some v → p k v = false) : tally p m = 0 := by
  rw [tally_congr h]
  exact weigh_eq_zero fun _ _ => rfl

/-- A count is at most the sum of counts that cover it. -/
theorem tally_le_sum {I : Type} (q : I → K → V → Bool) (indices : List I)
    (h : ∀ k v, m.lookup k = some v → p k v = true → ∃ i ∈ indices, q i k v = true) :
    tally p m ≤ weigh (fun i => tally (q i) m) indices := by
  have hswap := weigh_swap (fun i (entry : Sigma fun _ : K => V) => indicator (q i entry.1 entry.2 = true)) indices m.entries
  refine le_of_le_of_eq (weigh_mono fun entry hentry => ?_) hswap.symm
  by_cases hp : p entry.1 entry.2 = true
  · obtain ⟨i, hi, hq⟩ := h entry.1 entry.2 ((List.mem_dlookup_iff m.nodupKeys).mpr hentry) hp
    rw [indicator_true hp, ← indicator_true hq]
    exact le_weigh_of_mem (fun _ => indicator_nonneg _) hi
  · rw [indicator_false hp]
    exact weigh_nonneg _ fun _ _ => indicator_nonneg _

/-- Distinct keys whose entries meet the condition are no more than the count. -/
theorem length_le_tally {keys : List K} (hnodup : keys.Nodup)
    (h : ∀ k ∈ keys, ∃ v, m.lookup k = some v ∧ p k v = true) : (keys.length : Int) ≤ tally p m := by
  induction keys generalizing m with
  | nil => exact tally_nonneg p m
  | cons k rest ih =>
    obtain ⟨hnot, hrest⟩ := List.nodup_cons.mp hnodup
    obtain ⟨v, hlookup, hp⟩ := h k (.head _)
    have hle : (rest.length : Int) ≤ tally p (m.erase k) := by
      refine ih hrest fun k' hk' => ?_
      obtain ⟨v', hlookup', hp'⟩ := h k' (.tail k hk')
      refine ⟨v', ?_, hp'⟩
      have hne : k' ≠ k := by
        rintro rfl
        exact hnot hk'
      rw [AList.lookup_erase_ne hne]
      exact hlookup'
    have herase := tally_erase p m k
    rw [tallyAt_of_lookup hlookup, indicator_true hp] at herase
    rw [List.length_cons]
    omega

theorem tally_pos {v : V} (hlookup : m.lookup k = some v) (hp : p k v = true) : 0 < tally p m := by
  refine Int.lt_of_lt_of_le ?_ (length_le_tally (List.nodup_singleton k) fun k' hk' => ?_)
  · simp
  · exact List.mem_singleton.mp hk' ▸ ⟨v, hlookup, hp⟩

end Conveyor.Lib
