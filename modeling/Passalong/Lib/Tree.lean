import Mathlib.Data.List.Nodup
import Mathlib.Data.List.Infix

/-!
# A filesystem

Directories and files by path, a path being the list of its components from the root. The
operations are the ones a program performs in one step on a filesystem without I/O errors:
`makeDirAll`, `create` (open with truncation), `append`, `truncate`, `unlink`,
`removeAll`, `rename`, `readDir` and `read`. Each fails as POSIX says it does.

Everything is known about a tree by looking paths up, so each operation comes with the
lookup after it, for every path: `get_set`, `get_removeUnder`, `get_move`,
`get_makeDirAll`.
-/

namespace Lib

/-- What is at a path. -/
inductive Node (C : Type) where
  | dir
  | file (content : List C)
  deriving DecidableEq, Repr

/-- Why an operation failed. -/
inductive DiskError where
  | notFound
  | notADirectory
  | isADirectory
  | directoryNotEmpty
  | invalid
  deriving DecidableEq, Repr

/-- A filesystem: one node at each of finitely many paths. -/
structure Tree (N C : Type) where
  entries : List (List N × Node C)
  nodup : (entries.map Prod.fst).Nodup

namespace Tree

variable {N C : Type} [DecidableEq N]

/-- What is at a path, if anything is. -/
def get (t : Tree N C) (p : List N) : Option (Node C) :=
  (t.entries.find? fun e => e.1 = p).map Prod.snd

/-- Looking up is membership: there is one node at each path. -/
theorem get_eq_some {t : Tree N C} {p : List N} {n : Node C} :
    t.get p = some n ↔ (p, n) ∈ t.entries := by
  obtain ⟨entries, hnodup⟩ := t
  unfold get
  induction entries with
  | nil => simp
  | cons e entries ih =>
    obtain ⟨q, m⟩ := e
    simp only [List.map_cons, List.nodup_cons, List.mem_map, not_exists, not_and] at hnodup
    have hrest := ih hnodup.2
    simp only [List.find?_cons, List.mem_cons, Prod.mk.injEq] at hrest ⊢
    by_cases h : q = p
    · subst h
      have hout : (q, n) ∉ entries := fun hmem => hnodup.1 (q, n) hmem rfl
      simp only [decide_true, Option.map_some, Option.some.injEq, true_and, hout, or_false]
      exact eq_comm
    · simp only [h, decide_false, Ne.symm h, false_and, false_or]
      exact hrest

/-- Trees that hold the same entries are looked up alike. -/
theorem get_congr {t : Tree N C} {p : List N} {o : Option (Node C)}
    (h : ∀ n, (p, n) ∈ t.entries ↔ o = some n) : t.get p = o := by
  refine Option.ext fun n => ?_
  exact get_eq_some.trans (h n)

/-! ## Basic changes -/

/-- Puts a node at a path. -/
def set (t : Tree N C) (p : List N) (n : Node C) : Tree N C where
  entries := (p, n) :: t.entries.filter fun e => e.1 ≠ p
  nodup := by
    refine List.nodup_cons.mpr ⟨?_, (t.nodup.sublist (List.filter_sublist.map _))⟩
    simp

theorem get_set (t : Tree N C) (p q : List N) (n : Node C) :
    (t.set p n).get q = if p = q then some n else t.get q := by
  refine get_congr fun m => ?_
  show (q, m) ∈ (p, n) :: t.entries.filter _ ↔ _
  rw [List.mem_cons, List.mem_filter, ← get_eq_some, Prod.mk.injEq]
  by_cases h : p = q
  · subst h
    simp [eq_comm]
  · simp [h, Ne.symm h]

/-- Takes away a path with everything under it. -/
def removeUnder (t : Tree N C) (p : List N) : Tree N C where
  entries := t.entries.filter fun e => ¬ p <+: e.1
  nodup := t.nodup.sublist (List.filter_sublist.map _)

theorem get_removeUnder (t : Tree N C) (p q : List N) :
    (t.removeUnder p).get q = if p <+: q then none else t.get q := by
  refine get_congr fun m => ?_
  show (q, m) ∈ t.entries.filter _ ↔ _
  rw [List.mem_filter, ← get_eq_some]
  by_cases h : p <+: q <;> simp [h]

/-- The entries without the first of those under a path. -/
def dropSome (p : List N) : Nat → List (List N × Node C) → List (List N × Node C)
  | 0, entries => entries
  | _ + 1, [] => []
  | n + 1, e :: entries =>
    if p <+: e.1 then dropSome p n entries else e :: dropSome p (n + 1) entries

theorem dropSome_sublist (p : List N) (n : Nat) (entries : List (List N × Node C)) :
    (dropSome p n entries).Sublist entries := by
  induction entries generalizing n with
  | nil => cases n <;> exact List.Sublist.refl _
  | cons e entries ih =>
    cases n with
    | zero => exact List.Sublist.refl _
    | succ n =>
      unfold dropSome
      split_ifs
      · exact (ih n).cons e
      · exact (ih (n + 1)).cons_cons e

theorem mem_dropSome {p : List N} {n : Nat} {entries : List (List N × Node C)}
    {e : List N × Node C} (he : ¬p <+: e.1) : e ∈ dropSome p n entries ↔ e ∈ entries := by
  refine ⟨fun h => (dropSome_sublist p n entries).mem h, fun h => ?_⟩
  induction entries generalizing n with
  | nil => cases h
  | cons d entries ih =>
    cases n with
    | zero => exact h
    | succ n =>
      unfold dropSome
      rcases List.mem_cons.mp h with rfl | h
      · rw [if_neg he]
        exact List.mem_cons_self
      · split_ifs
        · exact ih h
        · exact List.mem_cons_of_mem d (ih h)

/-- Takes away so many of the entries under a path, or all of them. -/
def removeSome (t : Tree N C) (p : List N) (n : Nat) : Tree N C where
  entries := dropSome p n t.entries
  nodup := t.nodup.sublist ((dropSome_sublist p n t.entries).map _)

theorem get_removeSome {t : Tree N C} {p q : List N} (n : Nat) (hq : ¬p <+: q) :
    (t.removeSome p n).get q = t.get q :=
  get_congr fun _ => (mem_dropSome hq).trans get_eq_some.symm

/-- Puts what is under `src` under `dst`, in place of what is there. -/
def move (t : Tree N C) (src dst : List N) : Tree N C where
  entries := (t.entries.filter fun e => ¬ src <+: e.1 ∧ ¬ dst <+: e.1) ++
    (t.entries.filter fun e => src <+: e.1).map fun e => (dst ++ e.1.drop src.length, e.2)
  nodup := by
    rw [List.map_append, List.nodup_append]
    refine ⟨t.nodup.sublist (List.filter_sublist.map _), ?_, ?_⟩
    · rw [List.map_map]
      have hunder : ((t.entries.filter fun e => src <+: e.1).map Prod.fst).Nodup :=
        t.nodup.sublist (List.filter_sublist.map _)
      have hmap : (t.entries.filter fun e => src <+: e.1).map
          (Prod.fst ∘ fun e => (dst ++ e.1.drop src.length, e.2)) =
          ((t.entries.filter fun e => src <+: e.1).map Prod.fst).map
            fun q => dst ++ q.drop src.length := by
        rw [List.map_map]
        rfl
      rw [hmap]
      refine List.Nodup.map_on ?_ hunder
      intro a ha b hb heq
      obtain ⟨e, he, rfl⟩ := List.mem_map.mp ha
      obtain ⟨f, hf, rfl⟩ := List.mem_map.mp hb
      have hpe : src <+: e.1 := by simpa using (List.mem_filter.mp he).2
      have hpf : src <+: f.1 := by simpa using (List.mem_filter.mp hf).2
      have hdrop := List.append_cancel_left heq
      rw [List.prefix_iff_eq_append.mp hpe |>.symm, List.prefix_iff_eq_append.mp hpf |>.symm, hdrop]
    · intro a ha b hb heq
      obtain ⟨e, he, rfl⟩ := List.mem_map.mp ha
      obtain ⟨f, hf, rfl⟩ := List.mem_map.mp hb
      obtain ⟨g, -, rfl⟩ := List.mem_map.mp hf
      have hout := (List.mem_filter.mp he).2
      simp only [decide_eq_true_eq] at hout
      exact hout.2 (heq ▸ List.prefix_append dst _)

theorem get_move (t : Tree N C) (src dst q : List N) :
    (t.move src dst).get q =
      if dst <+: q then t.get (src ++ q.drop dst.length)
      else if src <+: q then none else t.get q := by
  refine get_congr fun m => ?_
  show (q, m) ∈ _ ++ _ ↔ _
  rw [List.mem_append, List.mem_filter, List.mem_map]
  constructor
  · rintro (⟨hmem, hout⟩ | ⟨⟨p, m'⟩, hp, heq⟩)
    · simp only [decide_eq_true_eq] at hout
      rw [if_neg hout.2, if_neg hout.1, get_eq_some]
      exact hmem
    · obtain ⟨hmem, hunder⟩ := List.mem_filter.mp hp
      simp only [decide_eq_true_eq] at hunder
      obtain ⟨rfl, rfl⟩ := Prod.mk.inj heq
      rw [if_pos (List.prefix_append _ _), List.drop_left, List.prefix_iff_eq_append.mp hunder,
        get_eq_some]
      exact hmem
  · intro h
    by_cases hdst : dst <+: q
    · rw [if_pos hdst, get_eq_some] at h
      refine .inr ⟨_, List.mem_filter.mpr ⟨h, by simp⟩, ?_⟩
      rw [List.drop_left, List.prefix_iff_eq_append.mp hdst]
    · rw [if_neg hdst] at h
      by_cases hsrc : src <+: q
      · rw [if_pos hsrc] at h
        cases h
      · rw [if_neg hsrc, get_eq_some] at h
        exact .inl ⟨h, by simp [hsrc, hdst]⟩

/-! ## Directories -/

/-- The last component of a path whose other components are `p`. -/
def childName (p q : List N) : Option N :=
  match q.drop p.length with
  | [x] => if q = p ++ [x] then some x else none
  | _ => none

theorem childName_eq_some {p q : List N} {x : N} : childName p q = some x ↔ q = p ++ [x] := by
  unfold childName
  constructor
  · intro h
    split at h
    · split at h
      · cases h
        assumption
      · cases h
    · cases h
  · rintro rfl
    rw [List.drop_left]
    simp

/-- The names in a directory, in no particular order. -/
def children (t : Tree N C) (p : List N) : List N :=
  (t.entries.map Prod.fst).filterMap (childName p)

theorem mem_children {t : Tree N C} {p : List N} {x : N} :
    x ∈ t.children p ↔ ∃ n, t.get (p ++ [x]) = some n := by
  unfold children
  rw [List.mem_filterMap]
  constructor
  · rintro ⟨q, hq, hname⟩
    obtain ⟨⟨q', n⟩, hmem, rfl⟩ := List.mem_map.mp hq
    obtain rfl := childName_eq_some.mp hname
    exact ⟨n, get_eq_some.mpr hmem⟩
  · rintro ⟨n, hn⟩
    exact ⟨p ++ [x], List.mem_map.mpr ⟨_, get_eq_some.mp hn, rfl⟩, childName_eq_some.mpr rfl⟩

theorem nodup_children (t : Tree N C) (p : List N) : (t.children p).Nodup := by
  refine t.nodup.filterMap fun q q' x hq hq' => ?_
  rw [childName_eq_some.mp hq, childName_eq_some.mp hq']

def isDir (t : Tree N C) (p : List N) : Bool := t.get p matches some .dir

def isFile (t : Tree N C) (p : List N) : Bool := t.get p matches some (.file _)

def exist (t : Tree N C) (p : List N) : Bool := (t.get p).isSome

/-- A directory where nothing is yet. -/
def ensureDir (t : Tree N C) (p : List N) : Tree N C :=
  match t.get p with
  | some _ => t
  | none => t.set p .dir

/-- `mkdir -p`. -/
def makeDirAll (t : Tree N C) (p : List N) : Except DiskError (Tree N C) :=
  if p.inits.any t.isFile then .error .notADirectory else .ok (p.inits.foldl ensureDir t)

theorem get_ensureDir (t : Tree N C) (p q : List N) :
    (t.ensureDir p).get q = if p = q then some ((t.get q).getD .dir) else t.get q := by
  unfold ensureDir
  split
  · rename_i n hn
    split
    · rename_i heq
      rw [← heq, hn]
      rfl
    · rfl
  · rename_i hn
    rw [get_set]
    split
    · rename_i heq
      rw [← heq, hn]
      rfl
    · rfl

theorem get_foldl_ensureDir (l : List (List N)) (t : Tree N C) (q : List N) :
    (l.foldl ensureDir t).get q = if q ∈ l then some ((t.get q).getD .dir) else t.get q := by
  induction l generalizing t with
  | nil => simp
  | cons p l ih =>
    rw [List.foldl_cons, ih, get_ensureDir]
    by_cases hp : p = q
    · subst hp
      by_cases hl : p ∈ l <;> simp [hl]
    · by_cases hl : q ∈ l <;> simp [hl, hp, Ne.symm hp]

/-- Where no file is in the way, every directory on the way is there afterwards, and
nothing else changes. -/
theorem get_makeDirAll {t : Tree N C} {p : List N} (h : ∀ q, q <+: p → t.isFile q = false) :
    ∃ t', t.makeDirAll p = .ok t' ∧
      ∀ q, t'.get q = if q <+: p then some .dir else t.get q := by
  have hnone : ¬ p.inits.any t.isFile = true := by
    rw [List.any_eq_true]
    rintro ⟨q, hq, hfile⟩
    rw [h q (List.mem_inits q p |>.mp hq)] at hfile
    cases hfile
  refine ⟨_, if_neg hnone, fun q => ?_⟩
  rw [get_foldl_ensureDir]
  simp only [List.mem_inits]
  by_cases hq : q <+: p
  · rw [if_pos hq, if_pos hq]
    have hfile := h q hq
    unfold isFile at hfile
    cases hget : t.get q with
    | none => rfl
    | some n =>
      rw [hget] at hfile
      cases n with
      | dir => rfl
      | file content => cases hfile
  · rw [if_neg hq, if_neg hq]

/-- `readdir`. -/
def readDir (t : Tree N C) (p : List N) : Except DiskError (List N) :=
  match t.get p with
  | none => .error .notFound
  | some (.file _) => .error .notADirectory
  | some .dir => .ok (t.children p)

/-- Removes a directory with everything in it. -/
def removeAll (t : Tree N C) (p : List N) : Except DiskError (Tree N C) :=
  match t.get p with
  | none => .error .notFound
  | some (.file _) => .error .notADirectory
  | some .dir => .ok (t.removeUnder p)

/-- `rename`: a directory may take the place of an empty one, and of nothing else. -/
def rename (t : Tree N C) (src dst : List N) : Except DiskError (Tree N C) :=
  match t.get src with
  | none => .error .notFound
  | some node =>
    if src <+: dst then .error .invalid
    else if t.isDir dst.dropLast = false then .error .notFound
    else
      match node, t.get dst with
      | .dir, some (.file _) => .error .notADirectory
      | .file _, some .dir => .error .isADirectory
      | .dir, some .dir =>
        if t.children dst = [] then .ok (t.move src dst) else .error .directoryNotEmpty
      | _, _ => .ok (t.move src dst)

/-! ## Files -/

/-- `open` for writing, with truncation. -/
def create (t : Tree N C) (p : List N) : Except DiskError (Tree N C) :=
  if t.isDir p.dropLast = false then .error .notFound
  else if t.isDir p then .error .isADirectory
  else .ok (t.set p (.file []))

/-- `write` at the end of a file that is open. -/
def append (t : Tree N C) (p : List N) (bytes : List C) : Except DiskError (Tree N C) :=
  match t.get p with
  | some (.file content) => .ok (t.set p (.file (content ++ bytes)))
  | _ => .error .notFound

/-- `set_len`, to no more than there is. -/
def truncate (t : Tree N C) (p : List N) (len : Nat) : Except DiskError (Tree N C) :=
  match t.get p with
  | some (.file content) => .ok (t.set p (.file (content.take len)))
  | _ => .error .notFound

def unlink (t : Tree N C) (p : List N) : Except DiskError (Tree N C) :=
  match t.get p with
  | none => .error .notFound
  | some .dir => .error .isADirectory
  | some (.file _) => .ok (t.removeUnder p)

/-- A file's bytes. -/
def read (t : Tree N C) (p : List N) : Except DiskError (List C) :=
  match t.get p with
  | none => .error .notFound
  | some .dir => .error .isADirectory
  | some (.file content) => .ok content

/-! ## What an operation that succeeds has done -/

section Done

variable {t t' : Tree N C} {p src dst : List N}

theorem get_of_create (h : t.create p = .ok t') (q : List N) :
    t'.get q = if p = q then some (.file []) else t.get q := by
  unfold create at h
  split_ifs at h
  cases h
  exact get_set t p q _

theorem get_of_truncate {len : Nat} (h : t.truncate p len = .ok t') {q : List N} (hq : p ≠ q) :
    t'.get q = t.get q := by
  unfold truncate at h
  split at h
  · cases h
    rw [get_set, if_neg hq]
  · cases h

theorem get_of_unlink (h : t.unlink p = .ok t') (q : List N) :
    t'.get q = if p <+: q then none else t.get q := by
  unfold unlink at h
  split at h
  · cases h
  · cases h
  · cases h
    exact get_removeUnder t p q

theorem get_of_removeAll (h : t.removeAll p = .ok t') (q : List N) :
    t'.get q = if p <+: q then none else t.get q := by
  unfold removeAll at h
  split at h
  · cases h
  · cases h
  · cases h
    exact get_removeUnder t p q

theorem of_rename (h : t.rename src dst = .ok t') :
    t' = t.move src dst ∧ ¬src <+: dst ∧ ∃ node, t.get src = some node := by
  unfold rename at h
  split at h
  · cases h
  · next node hnode =>
    by_cases hunder : src <+: dst
    · rw [if_pos hunder] at h
      cases h
    by_cases hparent : t.isDir dst.dropLast = false
    · rw [if_neg hunder, if_pos hparent] at h
      cases h
    rw [if_neg hunder, if_neg hparent] at h
    refine ⟨?_, hunder, node, hnode⟩
    split at h
    · cases h
    · cases h
    · split_ifs at h
      cases h
      rfl
    · cases h
      rfl

/-- What is there stays, and what is new is a directory on the way. -/
theorem get_of_makeDirAll (h : t.makeDirAll p = .ok t') (q : List N) :
    t'.get q = if q <+: p then some ((t.get q).getD .dir) else t.get q := by
  unfold makeDirAll at h
  split_ifs at h
  cases h
  rw [get_foldl_ensureDir]
  simp only [List.mem_inits]

/-- So it is with the first of the directories. -/
theorem get_some_ensureDir (t : Tree N C) (p q : List N) (n : Nat) :
    ((p.inits.take n).foldl ensureDir t).get q = t.get q ∨
      q <+: p ∧ ((p.inits.take n).foldl ensureDir t).get q = some ((t.get q).getD .dir) := by
  rw [get_foldl_ensureDir]
  split_ifs with hmem
  · exact .inr ⟨(List.mem_inits q p).mp (List.mem_of_mem_take hmem), rfl⟩
  · exact .inl rfl

end Done

end Tree

end Lib
