import Mathlib.Data.List.Nodup
import Mathlib.Data.List.Perm.Subperm
import Mathlib.Tactic.Common

/-!
# Dictionaries that are filled once

A dictionary of pairs with different keys, in the order in which they were added. `add` leaves a key
that is present as it is, so that `addAll` completes a dictionary: it gives a value to the keys that
have none (`get?_addAll`). A dictionary that only has keys of a list, and as many as the list, has
all of them (`mem_keys_of_count`).
-/

/-- Pairs of keys and values, each key once. -/
structure Dictionary (κ α : Type*) where
  entries : List (κ × α)
  nodup : (entries.map Prod.fst).Nodup

namespace Dictionary

variable {κ α : Type*} [DecidableEq κ] {d : Dictionary κ α} {k k' : κ} {v : α}

/-- The dictionary without keys. -/
def empty (κ α : Type*) : Dictionary κ α := ⟨[], List.nodup_nil⟩

/-- The keys, in the order in which they were added. -/
def keys (d : Dictionary κ α) : List κ := d.entries.map Prod.fst

/-- The number of keys. -/
def count (d : Dictionary κ α) : ℕ := d.entries.length

/-- The value of a key. -/
def get? (d : Dictionary κ α) (k : κ) : Option α := (d.entries.find? (·.1 = k)).map Prod.snd

/-- Adds the pair unless the key is present. -/
def add (d : Dictionary κ α) (k : κ) (v : α) : Dictionary κ α :=
  if h : k ∈ d.keys then d
  else ⟨d.entries ++ [(k, v)], by
    rw [List.map_append]
    exact d.nodup.append (List.nodup_singleton k) (List.disjoint_singleton.2 h)⟩

/-- Adds all keys that are not present, with one value. -/
def addAll (d : Dictionary κ α) (ks : List κ) (v : α) : Dictionary κ α :=
  ks.foldl (fun d k => d.add k v) d

omit [DecidableEq κ] in
@[simp] theorem length_keys (d : Dictionary κ α) : d.keys.length = d.count := List.length_map ..

/-- A new key goes to the end. -/
theorem entries_add (h : k ∉ d.keys) : (d.add k v).entries = d.entries ++ [(k, v)] := by
  rw [add, dif_neg h]

omit [DecidableEq κ] in
/-- A key is one with a value. -/
theorem mem_keys : k ∈ d.keys ↔ ∃ v, (k, v) ∈ d.entries := by
  simp [keys]

/-- The value of a key is the one of its entry. -/
theorem get?_eq_some : d.get? k = some v ↔ (k, v) ∈ d.entries := by
  obtain ⟨entries, hnodup⟩ := d
  simp only [get?]
  induction entries with
  | nil => simp
  | cons e entries ih =>
    rw [List.map_cons, List.nodup_cons] at hnodup
    rw [List.find?_cons]
    by_cases he : e.1 = k
    · subst he
      have hnot : ∀ w, (e.1, w) ∉ entries := fun w hw =>
        hnodup.1 (List.mem_map.2 ⟨_, hw, rfl⟩)
      simp [hnot, Prod.ext_iff, eq_comm]
    · have hne : (k, v) ≠ e := fun h => he (congrArg Prod.fst h.symm)
      simpa [he, hne] using ih hnodup.2

/-- A key without a value is not there. -/
theorem get?_eq_none : d.get? k = none ↔ k ∉ d.keys := by
  simp [Option.eq_none_iff_forall_ne_some, get?_eq_some, mem_keys]

@[simp] theorem get?_empty : (empty κ α).get? k = none := rfl

/-- A key that is present keeps its value. -/
theorem get?_add :
    (d.add k v).get? k' = if k' = k then some ((d.get? k).getD v) else d.get? k' := by
  unfold add
  split
  case isTrue h =>
    split
    case isTrue heq =>
      obtain ⟨w, hw⟩ := mem_keys.1 h
      rw [heq, get?_eq_some.2 hw]
      rfl
    case isFalse => rfl
  case isFalse h =>
    rw [get?_eq_none.2 h]
    simp only [get?, List.find?_append, Option.map_or]
    split
    case isTrue heq =>
      subst heq
      have hnone : d.get? k' = none := get?_eq_none.2 h
      rw [get?] at hnone
      simp [hnone]
    case isFalse hne => simp [Ne.symm hne]

/-- Adding a pair adds its key. -/
theorem mem_keys_add : k' ∈ (d.add k v).keys ↔ k' = k ∨ k' ∈ d.keys := by
  rw [← not_iff_not, ← get?_eq_none, get?_add, not_or, ← get?_eq_none]
  split
  case isTrue h => simp [h]
  case isFalse h => simp [h]

/-- Keys that are present keep their values. -/
theorem get?_addAll (ks : List κ) (d : Dictionary κ α) :
    (d.addAll ks v).get? k = if k ∈ ks then some ((d.get? k).getD v) else d.get? k := by
  induction ks generalizing d with
  | nil => simp [addAll]
  | cons k' ks ih =>
    have hcons : d.addAll (k' :: ks) v = (d.add k' v).addAll ks v := rfl
    rw [hcons, ih, get?_add]
    by_cases heq : k = k'
    · subst heq
      by_cases hks : k ∈ ks <;> simp [hks]
    · by_cases hks : k ∈ ks <;> simp [heq, hks]

omit [DecidableEq κ] in
/-- A dictionary with as many keys as there may be has all of them. -/
theorem mem_keys_of_count {ks : List κ} (hsubset : d.keys ⊆ ks) (hcount : ks.length ≤ d.count)
    (hk : k ∈ ks) : k ∈ d.keys := by
  have hnodup : d.keys.Nodup := d.nodup
  have hperm : d.keys.Perm ks :=
    (hnodup.subperm hsubset).perm_of_length_le (by rwa [length_keys])
  exact hperm.symm.subset hk

end Dictionary
