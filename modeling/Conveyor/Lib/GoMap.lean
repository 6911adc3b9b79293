import Mathlib.Data.List.AList
import Mathlib.Data.List.Perm.Subperm

/-!
# Finite maps whose iteration order is unspecified

A map holds finitely many keys, each with one value. A loop over it visits every key once, in
an order the language leaves open and may change from one loop to the next. The order is
therefore an argument of every loop that depends on it: a `MapOrder` rearranges the listed keys
and carries the proof that it only rearranges them.
-/

namespace Conveyor.Lib

/-- A finite map with one value per key. -/
abbrev GoMap (K V : Type) := AList (fun _ : K => V)

/-- A finite set, spelled as a map to the unit type. -/
abbrev GoSet (K : Type) := GoMap K Unit

/-- One way a loop may visit the keys of a map. -/
structure MapOrder (K : Type) where
  arrange : List K → List K
  perm : ∀ keys, (arrange keys).Perm keys

namespace MapOrder

variable {K V : Type}

/-- The order in which the keys are listed. -/
def listed : MapOrder K := ⟨id, fun keys => List.Perm.refl keys⟩

/-- The keys of a map in the order a loop visits them. -/
def visit (order : MapOrder K) (m : GoMap K V) : List K := order.arrange m.keys

/-- A loop visits exactly the keys of the map. -/
@[simp] theorem mem_visit (order : MapOrder K) (m : GoMap K V) (k : K) :
    k ∈ order.visit m ↔ k ∈ m := (order.perm m.keys).mem_iff

/-- A loop visits no key twice. -/
theorem nodup_visit (order : MapOrder K) (m : GoMap K V) : (order.visit m).Nodup :=
  (order.perm m.keys).nodup_iff.mpr m.keys_nodup

variable [DecidableEq K] {front : List K}

/-- The order that starts with the given keys, where the map has them all. -/
def startingWith (front : List K) : MapOrder K where
  arrange keys := if ∀ k ∈ front, front.count k ≤ keys.count k then front ++ keys.diff front else keys
  perm keys := by
    split
    · rename_i hcount
      exact List.subperm_append_diff_self_of_count_le hcount
    · exact .refl keys

/-- A loop in this order visits the given keys first. -/
theorem visit_startingWith {m : GoMap K V} (hnodup : front.Nodup) (hfront : ∀ k ∈ front, k ∈ m) :
    (startingWith front).visit m = front ++ m.keys.diff front := by
  refine if_pos fun k hk => ?_
  rw [List.count_eq_one_of_mem hnodup hk]
  exact List.one_le_count_iff.mpr (hfront k hk)

end MapOrder

namespace GoMap

variable {K V : Type} [DecidableEq K]

/-- Reading any key after writing one. -/
theorem lookup_insert_eq_ite (m : GoMap K V) (k k' : K) (v : V) :
    (m.insert k v).lookup k' = if k' = k then some v else m.lookup k' := by
  rcases eq_or_ne k' k with rfl | h
  · rw [if_pos rfl, AList.lookup_insert]
  · rw [if_neg h, AList.lookup_insert_ne h]

/-- Reading any key after deleting one. -/
theorem lookup_erase_eq_ite (m : GoMap K V) (k k' : K) :
    (m.erase k).lookup k' = if k' = k then none else m.lookup k' := by
  rcases eq_or_ne k' k with rfl | h
  · rw [if_pos rfl, AList.lookup_erase]
  · rw [if_neg h, AList.lookup_erase_ne h]

variable {m : GoMap K V} {k k' : K} {v : V}

/-- What is left after deleting a key was there before. -/
theorem lookup_of_lookup_erase (h : (m.erase k).lookup k' = some v) : m.lookup k' = some v := by
  rw [lookup_erase_eq_ite] at h
  split at h
  · cases h
  · exact h

/-- What is left after deleting several keys was there before. -/
theorem lookup_of_lookup_erases (ks : List K) (h : (ks.foldl (fun m k => m.erase k) m).lookup k' = some v) :
    m.lookup k' = some v := by
  induction ks generalizing m with
  | nil => exact h
  | cons k rest ih => exact lookup_of_lookup_erase (ih h)

/-- What is left after deleting several keys is under none of them. -/
theorem notMem_of_lookup_erases (ks : List K) (h : (ks.foldl (fun m k => m.erase k) m).lookup k' = some v) :
    k' ∉ ks := by
  induction ks generalizing m with
  | nil => exact List.not_mem_nil
  | cons k rest ih =>
    rw [List.mem_cons, not_or]
    refine ⟨?_, ih h⟩
    rintro rfl
    have hleft := lookup_of_lookup_erases rest h
    rw [AList.lookup_erase] at hleft
    cases hleft

/-- A key with a value is a key of the map. -/
theorem mem_of_lookup (h : m.lookup k = some v) : k ∈ m := by
  rw [← AList.lookup_isSome, h]
  rfl

/-- A key of the map has a value. -/
theorem lookup_of_mem (h : k ∈ m) : ∃ v, m.lookup k = some v :=
  Option.isSome_iff_exists.mp (AList.lookup_isSome.mpr h)

/-- A map without keys reads `none` everywhere. -/
theorem lookup_eq_none_of_keys_nil (h : m.keys = []) (k : K) : m.lookup k = none := by
  rw [AList.lookup_eq_none, AList.mem_keys, h]
  exact List.not_mem_nil

/-- Two parts of one map with the same keys are the same part. -/
theorem eq_of_sublist {m₁ m₂ : GoMap K V} (h₁ : m₁.entries.Sublist m.entries) (h₂ : m₂.entries.Sublist m.entries)
    (hkeys : ∀ k, k ∈ m₁ ↔ k ∈ m₂) : m₁ = m₂ := by
  classical
  have hmem : ∀ entry : (_ : K) × V, entry ∈ m₁.entries ↔ entry ∈ m₂.entries := by
    have hone : ∀ {part part' : GoMap K V}, part.entries.Sublist m.entries → part'.entries.Sublist m.entries →
        (∀ k, k ∈ part → k ∈ part') → ∀ entry ∈ part.entries, entry ∈ part'.entries := by
      intro part part' hpart hpart' hsub entry hentry
      obtain ⟨v, hv⟩ := lookup_of_mem (hsub entry.1 (List.mem_map_of_mem hentry))
      have hentry' := AList.mem_lookup_iff.mp (Option.mem_def.mpr hv)
      have hsame := m.nodupKeys.eq_of_mk_mem (hpart.subset hentry) (hpart'.subset hentry')
      rwa [← hsame] at hentry'
    exact fun entry => ⟨hone h₁ h₂ (fun k => (hkeys k).mp) entry, hone h₂ h₁ (fun k => (hkeys k).mpr) entry⟩
  -- a part is what a filter leaves of the whole
  have hfilter : ∀ {part : GoMap K V}, part.entries.Sublist m.entries →
      part.entries = m.entries.filter (· ∈ part.entries) := by
    intro part hpart
    have hsub : part.entries.Sublist (m.entries.filter (· ∈ part.entries)) := by
      have hself := List.filter_eq_self.mpr fun entry (hentry : entry ∈ part.entries) => decide_eq_true hentry
      have hboth := hpart.filter (· ∈ part.entries)
      rwa [hself] at hboth
    refine hsub.eq_of_length (List.Perm.length_eq ?_)
    refine (List.perm_ext_iff_of_nodup part.nodupKeys.nodup (m.nodupKeys.nodup.filter _)).mpr fun entry => ?_
    rw [List.mem_filter, decide_eq_true_eq]
    exact ⟨fun h => ⟨hpart.subset h, h⟩, And.right⟩
  apply AList.ext
  rw [hfilter h₁, hfilter h₂]
  exact List.filter_congr fun entry _ => decide_eq_decide.mpr (hmem entry)

/-- The values of a map replaced one by one. -/
def mapValues {W : Type} (f : K → V → W) (m : GoMap K V) : GoMap K W where
  entries := m.entries.map (.map id f)
  nodupKeys := List.NodupKeys.map₂ f m.entries m.nodupKeys

/-- Reading any key after replacing the values. -/
theorem lookup_mapValues {W : Type} (f : K → V → W) (m : GoMap K V) (k : K) :
    (mapValues f m).lookup k = (m.lookup k).map (f k) := List.dlookup_map₂ k

/-- The entries of a map that meet a condition. -/
def filterEntries (p : K → V → Bool) (m : GoMap K V) : GoMap K V where
  entries := m.entries.filter fun entry => p entry.1 entry.2
  nodupKeys := m.nodupKeys.sublist List.filter_sublist

/-- Reading any key after dropping entries. -/
theorem lookup_filterEntries_eq_some (p : K → V → Bool) (m : GoMap K V) (k : K) (v : V) :
    (filterEntries p m).lookup k = some v ↔ m.lookup k = some v ∧ p k v = true := by
  have hfilter := List.mem_dlookup_iff (a := k) (b := v) (filterEntries p m).nodupKeys
  have hentries := List.mem_dlookup_iff (a := k) (b := v) m.nodupKeys
  simp only [filterEntries, List.mem_filter] at hfilter
  exact hfilter.trans (and_congr_left' hentries.symm)

/-- The values of a map in the order a loop visits their keys. -/
def values (order : MapOrder K) (m : GoMap K V) : List V := (order.visit m).filterMap m.lookup

section Replacing

variable {W : Type} (f : K → V → W)

omit [DecidableEq K] in
/-- Replacing the values keeps the keys. -/
@[simp] theorem keys_mapValues (m : GoMap K V) : (mapValues f m).keys = m.keys := List.map₂_keys f m.entries

theorem kerase_mapValues (k : K) (entries : List ((_ : K) × V)) :
    List.kerase k (entries.map (Sigma.map id f : ((_ : K) × V) → (_ : K) × W)) =
      (List.kerase k entries).map (Sigma.map id f) := by
  induction entries with
  | nil => rfl
  | cons entry rest ih =>
    by_cases h : k = entry.1
    · rw [List.kerase_cons_eq h]
      exact List.kerase_cons_eq h
    · rw [List.kerase_cons_ne h, List.map_cons, List.map_cons, ← ih]
      exact List.kerase_cons_ne h

/-- Replacing the values after writing one. -/
theorem mapValues_insert (m : GoMap K V) (k : K) (v : V) :
    mapValues f (m.insert k v) = (mapValues f m).insert k (f k v) := by
  apply AList.ext
  have herase := kerase_mapValues f k m.entries
  change (List.kinsert k v m.entries).map _ = @List.kinsert K (fun _ => W) _ k (f k v) (m.entries.map _)
  rw [List.kinsert_def, List.kinsert_def, List.map_cons, ← herase]
  rfl

/-- Replacing the values after deleting one. -/
theorem mapValues_erase (m : GoMap K V) (k : K) : mapValues f (m.erase k) = (mapValues f m).erase k :=
  AList.ext (kerase_mapValues f k m.entries).symm

/-- The replaced values in the order of a loop. -/
theorem values_mapValues (g : V → W) (order : MapOrder K) (m : GoMap K V) :
    values order (mapValues (fun _ => g) m) = (values order m).map g := by
  rw [values, values, MapOrder.visit, MapOrder.visit, keys_mapValues, List.map_filterMap]
  exact List.filterMap_congr fun k _ => lookup_mapValues _ m k

end Replacing

end GoMap

end Conveyor.Lib
