import Mathlib.Algebra.BigOperators.Group.List.Lemmas
import Mathlib.Algebra.Order.Ring.Int
import Mathlib.Data.List.Dedup

/-!
# Counting by groups

A query `SELECT key, count(*) … GROUP BY key` returns each key of the rows once, with the number of
rows that have it. `IsCount keys out` says that `out` is its result, for the keys of the rows;
`groupCount` is one of them, in one of the orders in which the groups may be returned.

`sum_countP_fiber` is what makes a chart of such numbers complete: over distinct groups that leave
no row out, they add up to the number of rows. `IsCount.sum_filter` is the same for the groups with
a property.
-/

namespace GroupCount

variable {κ ι : Type*} [DecidableEq κ] [DecidableEq ι] {keys : List κ} {ks : List ι}
  {out : List (κ × ℕ)}

/-- `out` has each of the `keys` once, with the number of times that it occurs. -/
structure IsCount (keys : List κ) (out : List (κ × ℕ)) : Prop where
  nodup : (out.map Prod.fst).Nodup
  mem_iff : ∀ k, k ∈ out.map Prod.fst ↔ k ∈ keys
  count : ∀ e ∈ out, e.2 = keys.countP (· = e.1)

/-- The groups in the order of their last rows. -/
def groupCount (keys : List κ) : List (κ × ℕ) := keys.dedup.map fun k => (k, keys.countP (· = k))

/-- It is a result of the query. -/
theorem isCount_groupCount (keys : List κ) : IsCount keys (groupCount keys) := by
  have hfst : (groupCount keys).map Prod.fst = keys.dedup := by
    simp [groupCount, Function.comp_def]
  refine ⟨hfst ▸ List.nodup_dedup keys, fun k => by rw [hfst, List.mem_dedup], fun e he => ?_⟩
  obtain ⟨k, -, rfl⟩ := List.mem_map.1 he
  rfl

namespace IsCount

/-- The groups may come in any order. -/
theorem perm {out' : List (κ × ℕ)} (h : IsCount keys out) (hperm : out.Perm out') :
    IsCount keys out' where
  nodup := (hperm.map Prod.fst).nodup_iff.1 h.nodup
  mem_iff k := (hperm.map Prod.fst).mem_iff.symm.trans (h.mem_iff k)
  count e he := h.count e (hperm.mem_iff.2 he)

/-- A key that is looked up in the result, with 0 for one that is not there. -/
theorem lookup (h : IsCount keys out) (k : κ) :
    ((out.find? (·.1 = k)).map Prod.snd).getD 0 = keys.countP (· = k) := by
  cases hfind : out.find? (·.1 = k) with
  | none =>
    have hnot : k ∉ keys := fun hk => by
      obtain ⟨e, he, rfl⟩ := List.mem_map.1 ((h.mem_iff k).2 hk)
      simpa using List.find?_eq_none.1 hfind e he
    refine (List.countP_eq_zero.2 fun k' hk' heq => hnot ?_).symm
    exact of_decide_eq_true heq ▸ hk'
  | some e =>
    obtain rfl : e.1 = k := by simpa using List.find?_some hfind
    exact h.count e (List.mem_of_find?_eq_some hfind)

end IsCount

omit [DecidableEq κ] in
/-- Over distinct groups that have all the keys with `c`, these keys are counted once each. -/
theorem sum_countP_fiber (f : κ → ι) (c : κ → Prop) [DecidablePred c] (hks : ks.Nodup)
    (hcovers : ∀ k ∈ keys, c k → f k ∈ ks) :
    (ks.map fun i => keys.countP fun k => f k = i ∧ c k).sum = keys.countP fun k => c k := by
  induction keys with
  | nil => simp
  | cons k keys ih =>
    rw [List.forall_mem_cons] at hcovers
    have hone : (ks.map fun i => if decide (f k = i ∧ c k) = true then 1 else 0).sum =
        if decide (c k) = true then 1 else 0 := by
      rw [List.sum_map_eq_nsmul_single (f k)]
      · by_cases hk : c k
        · simp [hk, List.count_eq_one_of_mem hks (hcovers.1 hk)]
        · simp [hk]
      · intro i hi _
        simp [Ne.symm hi]
    simp only [List.countP_cons]
    rw [List.sum_map_add, ih hcovers.2, hone]

/-- The groups with a property are those of the rows with it. -/
theorem IsCount.filter (h : IsCount keys out) (p : κ → Prop) [DecidablePred p] :
    IsCount (keys.filter fun k => p k) (out.filter fun e => p e.1) where
  nodup := h.nodup.sublist (List.filter_sublist.map _)
  mem_iff k := by
    have hiff := h.mem_iff k
    simp only [List.mem_map, List.mem_filter, decide_eq_true_eq] at hiff ⊢
    rw [← hiff]
    constructor
    · rintro ⟨e, ⟨he, hp⟩, rfl⟩
      exact ⟨⟨e, he, rfl⟩, hp⟩
    · rintro ⟨⟨e, he, rfl⟩, hp⟩
      exact ⟨e, ⟨he, hp⟩, rfl⟩
  count e he := by
    obtain ⟨hmem, hp⟩ := List.mem_filter.1 he
    rw [h.count e hmem, List.countP_filter]
    congr 1
    funext k
    by_cases hk : k = e.1
    · simp [hk, of_decide_eq_true hp]
    · simp [hk]

/-- The numbers of the result add up to the number of rows. -/
theorem IsCount.sum (h : IsCount keys out) : (out.map Prod.snd).sum = keys.length := by
  have hcounts : out.map Prod.snd = (out.map Prod.fst).map fun k =>
      keys.countP fun k' => k' = k ∧ True := by
    rw [List.map_map]
    refine List.map_congr_left fun e he => (h.count e he).trans ?_
    simp
  rw [hcounts, sum_countP_fiber (fun k => k) (fun _ => True) h.nodup
    fun k hk _ => (h.mem_iff k).2 hk]
  simp

/-- The numbers of the groups with a property add up to the number of rows with it. -/
theorem IsCount.sum_filter (h : IsCount keys out) (p : κ → Prop) [DecidablePred p] :
    ((out.filter fun e => p e.1).map Prod.snd).sum = keys.countP fun k => p k := by
  rw [(h.filter p).sum, List.countP_eq_length_filter]

end GroupCount
