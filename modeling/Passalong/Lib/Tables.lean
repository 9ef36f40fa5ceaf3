import Passalong.Lib.Map

/-!
# Tables with keys

A table is the list of its rows. What a store built on tables does to them is said here
once, for any row type:

- `insert`: a row goes in unless the table's constraints refuse it (a key that is taken,
  a parent that is not there);
- `insertEach`: one row per entry of a collection, each made and inserted in turn, where
  making a row can fail too. `insertEach_eq` says what comes of it when the keys of the
  entries are new and distinct;
- `collect`: a map read back from rows. `collect_toList`: rows that read back as a map's
  entries read back as the map.
-/

namespace Lib

namespace Tables

variable {R A E K : Type} [DecidableEq K]

/-- `INSERT`: refused for a row that the table may not hold, or whose key is taken. -/
def insert (admits : R → Bool) (key : R → K) (refusal : E) (table : List R) (row : R) :
    Except E (List R) :=
  if admits row ∧ key row ∉ table.map key then .ok (table ++ [row]) else .error refusal

/-- One row per entry, made and inserted in turn; the first failure stops it. -/
def insertEach (admits : R → Bool) (key : R → K) (refusal : E) (row : A → Except E R) :
    List A → List R → Except E (List R)
  | [], table => .ok table
  | a :: entries, table => do
    let made ← row a
    let table ← insert admits key refusal table made
    insertEach admits key refusal row entries table

section InsertEach

variable {admits : R → Bool} {key : R → K} {refusal : E} {row : A → Except E R}

theorem insert_ok {table : List R} {r : R} (hadmits : admits r) (hfresh : key r ∉ table.map key) :
    insert admits key refusal table r = .ok (table ++ [r]) :=
  if_pos ⟨hadmits, hfresh⟩

/-- A row whose making fails stops the rest. -/
theorem insertEach_cons_error {a : A} {entries : List A} {table : List R} {e : E}
    (h : row a = .error e) :
    insertEach admits key refusal row (a :: entries) table = .error e := by
  rw [insertEach, h]
  rfl

/-- A row that can be made and whose key is new goes in, and the rest follows. -/
theorem insertEach_cons_ok {a : A} {entries : List A} {table : List R} {r : R}
    (h : row a = .ok r) (hadmits : admits r) (hfresh : key r ∉ table.map key) :
    insertEach admits key refusal row (a :: entries) table =
      insertEach admits key refusal row entries (table ++ [r]) := by
  rw [insertEach, h]
  show (insert admits key refusal table r >>= _) = _
  rw [insert_ok hadmits hfresh]
  rfl

/-- The keys the entries will have are distinct, and none is in the table. -/
structure Fresh (key : R → K) (row : A → Except E R) (keyOf : A → K) (entries : List A)
    (table : List R) : Prop where
  made : ∀ a ∈ entries, ∀ r, row a = .ok r → key r = keyOf a
  distinct : (entries.map keyOf).Nodup
  apart : ∀ a ∈ entries, keyOf a ∉ table.map key

namespace Fresh

variable {keyOf : A → K} {a : A} {entries : List A} {table : List R} {r : R}

omit [DecidableEq K] in
theorem head (hfresh : Fresh key row keyOf (a :: entries) table) (h : row a = .ok r) :
    key r ∉ table.map key := by
  rw [hfresh.made a List.mem_cons_self r h]
  exact hfresh.apart a List.mem_cons_self

omit [DecidableEq K] in
/-- Inserting the first entry leaves the others new. -/
theorem tail (hfresh : Fresh key row keyOf (a :: entries) table) (h : row a = .ok r) :
    Fresh key row keyOf entries (table ++ [r]) where
  made b hb := hfresh.made b (List.mem_cons_of_mem _ hb)
  distinct := (List.nodup_cons.mp hfresh.distinct).2
  apart b hb := by
    have hkey := hfresh.made a List.mem_cons_self r h
    have hne : keyOf b ≠ keyOf a := by
      intro heq
      have hout := (List.nodup_cons.mp hfresh.distinct).1
      exact hout (heq ▸ List.mem_map_of_mem hb)
    simp only [List.map_append, List.map_cons, List.map_nil, List.mem_append, List.mem_singleton,
      hkey, not_or]
    exact ⟨hfresh.apart b (List.mem_cons_of_mem _ hb), hne⟩

end Fresh

/-- **Entries whose keys are new and distinct go in if their rows can be made**, all of
them and in order. -/
theorem insertEach_eq {keyOf : A → K} {entries : List A} {table : List R}
    (hadmits : ∀ a ∈ entries, ∀ r, row a = .ok r → admits r)
    (hfresh : Fresh key row keyOf entries table) :
    insertEach admits key refusal row entries table =
      (entries.mapM row).map (table ++ ·) := by
  induction entries generalizing table with
  | nil =>
    show Except.ok table = Except.ok (table ++ [])
    rw [List.append_nil]
  | cons a entries ih =>
    rw [List.mapM_cons]
    cases ha : row a with
    | error e => exact insertEach_cons_error ha
    | ok r =>
      rw [insertEach_cons_ok ha (hadmits a List.mem_cons_self r ha) (hfresh.head ha),
        ih (fun b hb => hadmits b (List.mem_cons_of_mem _ hb)) (hfresh.tail ha)]
      show _ = ((entries.mapM row >>= fun rows => pure (r :: rows)).map (table ++ ·))
      cases entries.mapM row with
      | error e => rfl
      | ok rows =>
        show Except.ok (table ++ [r] ++ rows) = Except.ok (table ++ r :: rows)
        rw [List.append_assoc, List.singleton_append]

end InsertEach

/-! ## Reading back -/

/-- A list of which every member is converted starts with the first one's result. -/
theorem mapM_cons_ok {B C : Type} {f : B → Except E C} {b : B} {bs : List B} {cs : List C}
    (h : (b :: bs).mapM f = .ok cs) :
    ∃ c rest, f b = .ok c ∧ bs.mapM f = .ok rest ∧ cs = c :: rest := by
  rw [List.mapM_cons] at h
  cases hb : f b with
  | error e =>
    rw [hb] at h
    cases h
  | ok c =>
    rw [hb] at h
    cases hbs : bs.mapM f with
    | error e =>
      rw [hbs] at h
      cases h
    | ok rest =>
      rw [hbs] at h
      cases h
      exact ⟨c, rest, rfl, rfl, rfl⟩

/-- What every member of a converted list converts back to is what it came from. -/
theorem mapM_back {f : A → Except E R} {g : R → Except E A}
    (hback : ∀ a r, f a = .ok r → g r = .ok a) {entries : List A} {rows : List R}
    (h : entries.mapM f = .ok rows) : rows.mapM g = .ok entries := by
  induction entries generalizing rows with
  | nil =>
    cases h
    rfl
  | cons a entries ih =>
    obtain ⟨r, rest, hrow, hrest, rfl⟩ := mapM_cons_ok h
    rw [List.mapM_cons, hback a r hrow, ih hrest]
    rfl

/-- A property of every row that can be made holds of all of them. -/
theorem forall_of_mapM {f : A → Except E R} {P : R → Prop} (hrow : ∀ a r, f a = .ok r → P r)
    {entries : List A} {rows : List R} (h : entries.mapM f = .ok rows) : ∀ r ∈ rows, P r := by
  induction entries generalizing rows with
  | nil =>
    cases h
    simp
  | cons a entries ih =>
    obtain ⟨r, rest, hmade, hrest, rfl⟩ := mapM_cons_ok h
    intro r' hr'
    rcases List.mem_cons.mp hr' with rfl | hr'
    · exact hrow a r' hmade
    · exact ih hrest r' hr'

section Collect

variable {V : Type} [Ord K] [Std.TransOrd K] [Std.LawfulEqOrd K]

/-- The map that rows hold, one entry a row; the first row that does not parse stops it. -/
def collect (entry : R → Except E (K × V)) : List R → Map K V → Except E (Map K V)
  | [], m => .ok m
  | r :: rows, m => do
    let e ← entry r
    collect entry rows (m.insert e.1 e.2)

omit [DecidableEq K] [Std.LawfulEqOrd K] in
/-- Rows that all parse are inserted in turn. -/
theorem collect_ok {entry : R → Except E (K × V)} {rows : List R} {entries : List (K × V)}
    (hentries : rows.mapM entry = .ok entries) (m : Map K V) :
    collect entry rows m = .ok (entries.foldl (fun m e => m.insert e.1 e.2) m) := by
  induction rows generalizing entries m with
  | nil =>
    cases hentries
    rfl
  | cons r rows ih =>
    obtain ⟨e, rest, hentry, hrest, rfl⟩ := mapM_cons_ok hentries
    rw [collect, hentry]
    exact ih hrest _

/-- Looking up after inserting entries with distinct keys. -/
theorem get_foldl_entries (entries : List (K × V)) (hkeys : (entries.map Prod.fst).Nodup)
    (m : Map K V) (k : K) (v : V) :
    (entries.foldl (fun m e => m.insert e.1 e.2) m)[k]? = some v ↔
      (k, v) ∈ entries ∨ (k ∉ entries.map Prod.fst ∧ m[k]? = some v) := by
  induction entries generalizing m with
  | nil => simp
  | cons e entries ih =>
    obtain ⟨k', v'⟩ := e
    obtain ⟨hout, hkeys⟩ := List.nodup_cons.mp hkeys
    simp only [List.foldl_cons, List.map_cons, List.mem_cons]
    rw [ih hkeys, Map.get_insert]
    by_cases hk : k' = k
    · subst hk
      have hnot : (k', v) ∉ entries := fun h => hout (List.mem_map.mpr ⟨(k', v), h, rfl⟩)
      rw [if_pos rfl]
      simp only [Prod.mk.injEq, true_and, Option.some.injEq, hnot, hout, false_or, or_false,
        not_true_eq_false, false_and, not_false_eq_true, eq_comm]
    · rw [if_neg hk]
      simp [Ne.symm hk]

omit [DecidableEq K] [Std.LawfulEqOrd K] in
/-- The keys of a map's entries are all different, and so is what stands for them. -/
theorem nodup_keys {C : Type} (m : Map K V) {f : K → C} (hf : Function.Injective f) :
    (m.toList.map fun e => f e.1).Nodup := by
  have hkeys : (m.toList.map Prod.fst).Nodup := by
    rw [Std.ExtTreeMap.map_fst_toList_eq_keys]
    exact Std.ExtTreeMap.nodup_keys
  rw [← Function.comp_def f Prod.fst, ← List.map_map]
  exact hkeys.map hf

/-- **A map's entries, read back from rows, are the map.** -/
theorem collect_toList {entry : R → Except E (K × V)} {rows : List R} {m : Map K V}
    (hentries : rows.mapM entry = .ok m.toList) : collect entry rows ∅ = .ok m := by
  have hkeys : (m.toList.map Prod.fst).Nodup := nodup_keys m Function.injective_id
  rw [collect_ok hentries]
  congr 1
  refine Std.ExtTreeMap.ext_getElem? fun k => Option.ext fun v => ?_
  rw [get_foldl_entries _ hkeys, Map.mem_toList_iff]
  simp

end Collect

end Tables

end Lib
