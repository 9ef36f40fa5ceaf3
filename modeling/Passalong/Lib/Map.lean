import Mathlib

/-!
# Ordered finite maps

`Map K V` is the standard library's extensional ordered map, at the key type's
own comparison. This file adds what a development about records of maps keeps
asking for and the standard library states for an arbitrary comparison only:

- lookups after `insert`, `erase` and `filter`, in terms of *equality* of keys
  (`get_insert`, `get_erase`, `get_filter`);
- `weigh f m`: the sum of a weight over a map's entries, with the laws that say
  what an update does to it (`weigh_insert`, `weigh_erase`, `weigh_filter`) and
  how weights compare (`weigh_le_weigh`).
-/

namespace Lib

open Std

/-- An ordered finite map, at the comparison of its key type. -/
abbrev Map (K V : Type) [Ord K] : Type := ExtTreeMap K V compare

namespace Map

variable {K V : Type} [Ord K] [TransOrd K] [LawfulEqOrd K]

omit [TransOrd K] in
theorem compare_eq_iff {a b : K} : compare a b = .eq ↔ a = b :=
  LawfulEqCmp.compare_eq_iff_eq

/-! ## Lookups, by equality of keys -/

/-- Looking up after an insertion. -/
theorem get_insert [DecidableEq K] (m : Map K V) (k a : K) (v : V) :
    (m.insert k v)[a]? = if k = a then some v else m[a]? := by
  rw [ExtTreeMap.getElem?_insert]
  simp only [compare_eq_iff]

omit [LawfulEqOrd K] in
@[simp] theorem get_insert_self (m : Map K V) (k : K) (v : V) :
    (m.insert k v)[k]? = some v :=
  ExtTreeMap.getElem?_insert_self

theorem get_insert_of_ne (m : Map K V) {k a : K} (v : V) (h : k ≠ a) :
    (m.insert k v)[a]? = m[a]? := by
  classical
  rw [get_insert, if_neg h]

/-- Looking up after a removal. -/
theorem get_erase [DecidableEq K] (m : Map K V) (k a : K) :
    (m.erase k)[a]? = if k = a then none else m[a]? := by
  rw [ExtTreeMap.getElem?_erase]
  simp only [compare_eq_iff]

omit [LawfulEqOrd K] in
@[simp] theorem get_erase_self (m : Map K V) (k : K) : (m.erase k)[k]? = none :=
  ExtTreeMap.getElem?_erase_self

theorem get_erase_of_ne (m : Map K V) {k a : K} (h : k ≠ a) :
    (m.erase k)[a]? = m[a]? := by
  classical
  rw [get_erase, if_neg h]

/-- A removal only takes entries away. -/
theorem get_of_get_erase {m : Map K V} {k a : K} {v : V}
    (h : (m.erase k)[a]? = some v) : m[a]? = some v := by
  classical
  rw [get_erase] at h
  split at h
  · cases h
  · exact h

/-- Looking up after a filter. -/
theorem get_filter (m : Map K V) (p : K → V → Bool) (a : K) :
    (m.filter p)[a]? = m[a]?.filter (p a) :=
  ExtTreeMap.getElem?_filter'

theorem get_filter_eq_some {m : Map K V} {p : K → V → Bool} {a : K} {v : V} :
    (m.filter p)[a]? = some v ↔ m[a]? = some v ∧ p a v = true := by
  rw [get_filter, Option.filter_eq_some_iff]

/-- A filter only takes entries away. -/
theorem get_of_get_filter {m : Map K V} {p : K → V → Bool} {a : K} {v : V}
    (h : (m.filter p)[a]? = some v) : m[a]? = some v :=
  (get_filter_eq_some.mp h).1

omit [LawfulEqOrd K] in
theorem mem_iff_get {m : Map K V} {k : K} : k ∈ m ↔ ∃ v, m[k]? = some v := by
  rw [ExtTreeMap.mem_iff_isSome_getElem?, Option.isSome_iff_exists]

omit [LawfulEqOrd K] in
theorem contains_iff_get {m : Map K V} {k : K} :
    m.contains k = true ↔ ∃ v, m[k]? = some v := by
  rw [ExtTreeMap.contains_iff_mem, mem_iff_get]

omit [LawfulEqOrd K] in
theorem contains_eq_false_iff {m : Map K V} {k : K} :
    m.contains k = false ↔ m[k]? = none := by
  rw [← Bool.not_eq_true, contains_iff_get]
  cases m[k]? <;> simp

theorem mem_keys_iff {m : Map K V} {k : K} : k ∈ m.keys ↔ ∃ v, m[k]? = some v := by
  rw [ExtTreeMap.mem_keys, mem_iff_get]

theorem mem_toList_iff {m : Map K V} {k : K} {v : V} :
    (k, v) ∈ m.toList ↔ m[k]? = some v :=
  ExtTreeMap.mem_toList_iff_getElem?_eq_some

/-- A map in which every lookup fails is empty. -/
theorem eq_empty_of_get {m : Map K V} (h : ∀ k : K, m[k]? = none) : m = ∅ :=
  ExtTreeMap.ext_getElem? fun k => by rw [h k, ExtTreeMap.getElem?_empty]

/-- Overwriting an entry with itself changes nothing. -/
theorem insert_same {m : Map K V} {k : K} {v : V} (h : m[k]? = some v) :
    m.insert k v = m := by
  classical
  refine ExtTreeMap.ext_getElem? fun a => ?_
  rw [get_insert]
  split
  · rename_i e
    rw [← e, h]
  · rfl

/-- Removing what is not there changes nothing. -/
theorem erase_same {m : Map K V} {k : K} (h : m[k]? = none) : m.erase k = m := by
  classical
  refine ExtTreeMap.ext_getElem? fun a => ?_
  rw [get_erase]
  split
  · rename_i e
    rw [← e, h]
  · rfl

/-- Removing what was added to where nothing was undoes it. -/
theorem erase_insert {m : Map K V} {k : K} {v : V} (h : m[k]? = none) :
    (m.insert k v).erase k = m := by
  classical
  refine ExtTreeMap.ext_getElem? fun a => ?_
  rw [get_erase]
  split
  · rename_i e
    rw [← e, h]
  · rename_i hne
    rw [get_insert_of_ne _ _ hne]

/-- A filter that keeps every entry changes nothing. -/
theorem filter_same {m : Map K V} {p : K → V → Bool}
    (h : ∀ k v, m[k]? = some v → p k v = true) : m.filter p = m := by
  refine ExtTreeMap.ext_getElem? fun a => ?_
  rw [get_filter]
  cases hm : m[a]? with
  | none => rfl
  | some v => rw [Option.filter_some, if_pos (h a v hm)]

/-- Looking up after writing a value under each of a list of keys. -/
theorem get_foldl_insert [DecidableEq K] (f : K → V) (l : List K) (m : Map K V) (a : K) :
    (l.foldl (fun m k => m.insert k (f k)) m)[a]? = if a ∈ l then some (f a) else m[a]? := by
  induction l generalizing m with
  | nil => rfl
  | cons k l ih =>
    rw [List.foldl_cons, ih, get_insert]
    by_cases hmem : a ∈ l
    · rw [if_pos hmem, if_pos (List.mem_cons_of_mem _ hmem)]
    · rw [if_neg hmem]
      by_cases e : k = a
      · subst e
        rw [if_pos rfl, if_pos List.mem_cons_self]
      · have hout : a ∉ k :: l := by
          rw [List.mem_cons]
          exact fun h => h.elim (fun h => e h.symm) hmem
        rw [if_neg e, if_neg hout]

/-! ## Weights -/

omit [LawfulEqOrd K] in
theorem nodup_toList (m : Map K V) : m.toList.Nodup := by
  refine ExtTreeMap.distinct_keys_toList.imp ?_
  intro a b hne heq
  exact hne (by rw [heq]; exact ReflCmp.compare_self)

/-- The sum of a weight over the entries of a map. -/
def weigh (f : K → V → Nat) (m : Map K V) : Nat :=
  (m.toList.map fun e => f e.1 e.2).sum

omit [LawfulEqOrd K] in
@[simp] theorem weigh_empty (f : K → V → Nat) : weigh f (∅ : Map K V) = 0 := by
  rw [weigh, ExtTreeMap.toList_eq_nil_iff.mpr rfl]
  rfl

/-- The entries after inserting a new key: the new entry and the old ones. -/
theorem toList_insert_perm {m : Map K V} {k : K} (v : V) (h : m[k]? = none) :
    (m.insert k v).toList.Perm ((k, v) :: m.toList) := by
  classical
  have hnew : (k, v) ∉ m.toList := by
    rw [mem_toList_iff, h]
    exact nofun
  refine (List.perm_ext_iff_of_nodup (nodup_toList _)
    (List.nodup_cons.mpr ⟨hnew, nodup_toList m⟩)).mpr ?_
  rintro ⟨a, w⟩
  rw [mem_toList_iff, get_insert, List.mem_cons, mem_toList_iff, Prod.mk.injEq]
  by_cases e : k = a
  · subst e
    rw [if_pos rfl, h]
    constructor
    · intro hw
      exact .inl ⟨rfl, (Option.some.inj hw).symm⟩
    · rintro (⟨-, rfl⟩ | hw)
      · rfl
      · cases hw
  · rw [if_neg e]
    constructor
    · exact .inr
    · rintro (⟨rfl, -⟩ | hw)
      · exact absurd rfl e
      · exact hw

/-- A new entry adds its weight. -/
theorem weigh_insert {m : Map K V} {k : K} (f : K → V → Nat) (v : V) (h : m[k]? = none) :
    weigh f (m.insert k v) = f k v + weigh f m := by
  rw [weigh, ((toList_insert_perm v h).map _).sum_eq]
  rfl

/-- An entry taken away takes its weight with it. -/
theorem weigh_erase {m : Map K V} {k : K} {v : V} (f : K → V → Nat) (h : m[k]? = some v) :
    weigh f m = f k v + weigh f (m.erase k) := by
  classical
  have hback : (m.erase k).insert k v = m := by
    refine ExtTreeMap.ext_getElem? fun a => ?_
    rw [get_insert, get_erase]
    split
    · rename_i e
      rw [← e, h]
    · rfl
  calc weigh f m = weigh f ((m.erase k).insert k v) := by rw [hback]
    _ = f k v + weigh f (m.erase k) := weigh_insert f v (get_erase_self m k)

omit [LawfulEqOrd K] in
/-- Weighing what a filter keeps is weighing everything, the rest at nothing. -/
theorem weigh_filter (f : K → V → Nat) (p : K → V → Bool) (m : Map K V) :
    weigh f (m.filter p) = weigh (fun k v => if p k v then f k v else 0) m := by
  rw [weigh, ExtTreeMap.toList_filter, weigh]
  generalize m.toList = l
  induction l with
  | nil => rfl
  | cons e l ih =>
    rw [List.filter_cons, List.map_cons, List.sum_cons]
    by_cases hp : p e.1 e.2 = true
    · rw [if_pos hp, List.map_cons, List.sum_cons, if_pos hp, ih]
    · rw [if_neg hp, if_neg hp, Nat.zero_add, ih]

/-- Weights that compare on every entry compare in sum. -/
theorem weigh_le_weigh {f g : K → V → Nat} {m : Map K V}
    (h : ∀ k v, m[k]? = some v → f k v ≤ g k v) : weigh f m ≤ weigh g m := by
  refine List.sum_le_sum ?_
  rintro ⟨k, v⟩ he
  exact h k v (mem_toList_iff.mp he)

/-- Maps that agree on the values a predicate keeps list them alike. -/
theorem toList_filter_congr {m m' : Map K V} {p : V → Bool}
    (h : ∀ k : K, m'[k]?.filter p = m[k]?.filter p) :
    (m'.toList.filter fun e => p e.2) = m.toList.filter fun e => p e.2 := by
  have hkept : (m'.filter fun _ v => p v) = m.filter fun _ v => p v := by
    refine ExtTreeMap.ext_getElem? fun k => ?_
    rw [get_filter, get_filter]
    exact h k
  have hlists := congrArg ExtTreeMap.toList hkept
  rw [ExtTreeMap.toList_filter, ExtTreeMap.toList_filter] at hlists
  exact hlists

/-! ## Values -/

/-- The values of a map, in the order of their keys. -/
def vals (m : Map K V) : List V := m.toList.map Prod.snd

omit [LawfulEqOrd K] in
/-- The sum over the values a predicate keeps, as a weight. -/
theorem sum_vals_filter (m : Map K V) (p : V → Bool) (f : V → Nat) :
    (((vals m).filter p).map f).sum = weigh (fun _ v => if p v then f v else 0) m := by
  rw [weigh, vals]
  generalize m.toList = l
  induction l with
  | nil => rfl
  | cons e l ih =>
    rw [List.map_cons, List.filter_cons, List.map_cons, List.sum_cons]
    by_cases hp : p e.2 = true
    · rw [if_pos hp, List.map_cons, List.sum_cons, if_pos hp, ih]
    · rw [if_neg hp, if_neg hp, Nat.zero_add, ih]

omit [LawfulEqOrd K] in
/-- The sum over all values, as a weight. -/
theorem sum_vals (m : Map K V) (f : V → Nat) :
    ((vals m).map f).sum = weigh (fun _ v => f v) m := by
  rw [weigh, vals, List.map_map]
  rfl

end Map

end Lib
