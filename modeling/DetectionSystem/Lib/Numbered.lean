import Mathlib.Data.List.AList
import Mathlib.Data.List.Nodup
import Mathlib.Data.List.Perm.Subperm
import Mathlib.Data.Nat.Find
import Mathlib.Tactic.Common

/-!
# Numbered names

A finite table of names, some of which differ by a number only. `whileFound` is the loop that looks
up one number after the other, runs its body on what it finds, and stops at the first number that is
not in the table; it is `none` where the fuel does not last. As the table is finite there is such a
number (`exists_stop`), so that one turn more than there are names is always enough, and the loop
has run its body on the entries that an unbroken sequence of numbers leads to
(`exists_whileFound`).
-/

namespace Numbered

variable {κ α σ : Type*} [DecidableEq κ] (names : AList fun _ : κ => α) (name : ℕ → κ)

/-- `while ((a = names[name(i)]) != null) { body(a); i++; }`. -/
def whileFound (body : σ → α → σ) : ℕ → ℕ → σ → Option σ
  | 0, _, _ => none
  | fuel + 1, i, s =>
    match names.lookup (name i) with
    | none => some s
    | some a => whileFound body fuel (i + 1) (body s a)

/-- `while (names[k] != null) names.remove(k)`. -/
def removeWhileFound (k : κ) (names : AList fun _ : κ => α) : AList fun _ : κ => α :=
  if (names.lookup k).isSome then removeWhileFound k (names.erase k) else names
termination_by names.keys.length
decreasing_by
  have hk : k ∈ names.keys := AList.mem_keys.1 (AList.lookup_isSome.1 ‹_›)
  rw [AList.keys_erase, List.length_erase_of_mem hk]
  exact Nat.sub_one_lt (Nat.ne_of_gt (List.length_pos_of_mem hk))

/-- All numbers from `start` to `i` are in the table. -/
def Unbroken (start i : ℕ) : Prop := ∀ j, start ≤ j → j ≤ i → name j ∈ names

/-- An unbroken sequence of numbers leads to the entry. -/
def Found (start : ℕ) (a : α) : Prop :=
  ∃ i, start ≤ i ∧ names.lookup (name i) = some a ∧ Unbroken names name start i

variable {names name} {body : σ → α → σ} {start n fuel : ℕ} {a b : α} {s : σ}

/-- A name that is not in the table is not removed. -/
theorem removeWhileFound_of_notMem {k : κ} (h : k ∉ names) : removeWhileFound k names = names := by
  rw [removeWhileFound, if_neg (mt AList.lookup_isSome.1 h)]

/-- An entry that is replaced need not be removed before. -/
theorem insert_erase {k : κ} : (names.erase k).insert k a = names.insert k a := by
  refine AList.ext ?_
  rw [AList.entries_insert, AList.entries_insert]
  exact congrArg _ (List.kerase_of_notMem_keys (List.notMem_keys_kerase k names.nodupKeys))

/-- Without the first name nothing is found. -/
theorem not_found (h : name start ∉ names) : ¬ Found names name start a := by
  rintro ⟨i, hi, -, hunbroken⟩
  exact h (hunbroken start le_rfl hi)

/-- The first entry, and what the next number leads to. -/
theorem found_iff (h : names.lookup (name start) = some b) :
    Found names name start a ↔ a = b ∨ Found names name (start + 1) a := by
  have hstart : name start ∈ names := AList.lookup_isSome.1 (Option.isSome_of_eq_some h)
  constructor
  · rintro ⟨i, hi, ha, hunbroken⟩
    rcases Nat.eq_or_lt_of_le hi with rfl | hlt
    · exact .inl (Option.some.inj (ha.symm.trans h))
    · exact .inr ⟨i, hlt, ha, fun j hj => hunbroken j (by omega)⟩
  · rintro (rfl | ⟨i, hi, ha, hunbroken⟩)
    · refine ⟨start, le_rfl, h, fun j hj hj' => ?_⟩
      exact le_antisymm hj hj' ▸ hstart
    · refine ⟨i, by omega, ha, fun j hj hj' => ?_⟩
      rcases Nat.eq_or_lt_of_le hj with rfl | hlt
      · exact hstart
      · exact hunbroken j hlt hj'

/-- The loop up to a number that is not in the table. -/
theorem whileFound_stops (hn : ∀ j < n, name (start + j) ∈ names) (hstop : name (start + n) ∉ names)
    (hfuel : n < fuel) :
    ∃ as : List α, whileFound names name body fuel start s = some (as.foldl body s) ∧
      ∀ a, a ∈ as ↔ Found names name start a := by
  induction n generalizing start fuel s with
  | zero =>
    obtain ⟨fuel, rfl⟩ := Nat.exists_eq_succ_of_ne_zero (Nat.ne_zero_of_lt hfuel)
    rw [Nat.add_zero] at hstop
    refine ⟨[], ?_, fun a => ?_⟩
    · rw [whileFound, AList.lookup_eq_none.2 hstop]
      rfl
    · simpa using not_found hstop
  | succ n ih =>
    obtain ⟨fuel, rfl⟩ := Nat.exists_eq_succ_of_ne_zero (Nat.ne_zero_of_lt hfuel)
    obtain ⟨b, hb⟩ : ∃ b, names.lookup (name start) = some b :=
      Option.isSome_iff_exists.1 (AList.lookup_isSome.2 (hn 0 (Nat.succ_pos n)))
    have hn' : ∀ j < n, name (start + 1 + j) ∈ names := fun j hj => by
      have := hn (j + 1) (Nat.succ_lt_succ hj)
      rwa [Nat.add_assoc, Nat.add_comm 1]
    have hstop' : name (start + 1 + n) ∉ names := by rwa [Nat.add_assoc, Nat.add_comm 1]
    obtain ⟨as, has, hmem⟩ :=
      @ih (start + 1) fuel (body s b) hn' hstop' (Nat.lt_of_succ_lt_succ hfuel)
    refine ⟨b :: as, ?_, fun a => ?_⟩
    · rw [whileFound, hb]
      exact has
    · rw [List.mem_cons, hmem, found_iff hb]

/-- Not all numbers are in a finite table. -/
theorem exists_stop (hname : Function.Injective name) (names : AList fun _ : κ => α) (start : ℕ) :
    ∃ n ≤ names.keys.length, (∀ j < n, name (start + j) ∈ names) ∧ name (start + n) ∉ names := by
  have hle : ∀ n, (∀ j < n, name (start + j) ∈ names) → n ≤ names.keys.length := by
    intro n hn
    have hnodup : ((List.range n).map fun j => name (start + j)).Nodup :=
      List.nodup_range.map fun i j hij => Nat.add_left_cancel (hname hij)
    have hsubset : (List.range n).map (fun j => name (start + j)) ⊆ names.keys := by
      intro k hk
      obtain ⟨j, hj, rfl⟩ := List.mem_map.1 hk
      exact AList.mem_keys.1 (hn j (List.mem_range.1 hj))
    simpa using (hnodup.subperm hsubset).length_le
  have hex : ∃ n, name (start + n) ∉ names := by
    by_contra hall
    exact absurd (hle (names.keys.length + 1) fun j _ => not_not.1 fun h => hall ⟨j, h⟩) (by omega)
  have hmin : ∀ j < Nat.find hex, name (start + j) ∈ names :=
    fun j hj => not_not.1 (Nat.find_min hex hj)
  exact ⟨Nat.find hex, hle _ hmin, hmin, Nat.find_spec hex⟩

/-- **The loop ends.** One turn more than there are names is enough, and the body has run on the
entries that an unbroken sequence of numbers leads to. -/
theorem exists_whileFound (hname : Function.Injective name) (body : σ → α → σ) (s : σ)
    (start : ℕ) (hfuel : names.keys.length < fuel) :
    ∃ as : List α, whileFound names name body fuel start s = some (as.foldl body s) ∧
      ∀ a, a ∈ as ↔ Found names name start a := by
  obtain ⟨n, hle, hn, hstop⟩ := exists_stop hname names start
  exact whileFound_stops hn hstop (by omega)

end Numbered
