import Passalong.Scripts
import Passalong.Notes
import Passalong.Trait

/-!
# A removal is all or nothing (`shelf/fs.rs`)

`remove`, `drop_generation` and `stage_remove` rename what they take away into the trash, and
empty the trash after. Wherever such a call is cut, inside a step or between two, and however
often the opening of the next process is cut as well, once an opening gets through the shelf
holds what it held before the call, or what it holds after it (`removed_whole`).

- `Left` is what a disk looks like in between: outside the trash as that of a shelf, but for
  notes whose upload is gone.
- Each step of a removal leaves one of the two shelves so (`keeps_call`), and each step of an
  opening keeps whichever it is (`keeps_open`).
-/

namespace Passalong

open Lib

namespace FsShelf

namespace Script

/-- The disk with nothing in its trash. -/
def binned (disk : Disk) : Disk := (disk.removeUnder FsShelf.trash).set FsShelf.trash .dir

theorem get_binned (disk : Disk) (q : Path) :
    (binned disk).get q =
      if FsShelf.trash = q then some .dir
      else if FsShelf.trash <+: q then none else disk.get q := by
  unfold binned
  rw [Tree.get_set, Tree.get_removeUnder]

section
variable [ServerJson]

/-- What a removal or an opening that was cut leaves of a shelf. -/
structure Left (disk : Disk) (s : MemoryShelf) : Prop where
  /-- Outside the trash it is a disk of that shelf, and notes of uploads that are gone. -/
  held : ∃ whole, Holds whole s ∧ ∀ q, ¬FsShelf.trash <+: q → disk.get q = whole.get q ∨
    ∃ u bytes, q = digestFile u ∧ s.staging[u]? = none ∧ disk.get q = some (.file bytes)
  trash : disk.get FsShelf.trash = some .dir
  bins : ∀ x bytes, disk.get ["trash", x] ≠ some (.file bytes)

variable {disk disk' : Disk} {s s' : MemoryShelf} {u : UploadId} {fs fs' : FsShelf}

namespace Left

theorem of_holds (h : Holds disk s) : Left disk s where
  held := ⟨disk, h, fun _ _ => .inl rfl⟩
  trash := h.trash
  bins x bytes hfile := by
    rw [h.emptied x []] at hfile
    cases hfile

/-- What is in the trash is of no matter, as long as it is directories. -/
theorem elsewhere (h : Left disk s) (hout : ∀ q, ¬FsShelf.trash <+: q → disk'.get q = disk.get q)
    (htrash : disk'.get FsShelf.trash = some .dir)
    (hbins : ∀ x bytes, disk'.get ["trash", x] ≠ some (.file bytes)) : Left disk' s := by
  obtain ⟨whole, hholds, hsame⟩ := h.held
  refine ⟨⟨whole, hholds, fun q hq => ?_⟩, htrash, hbins⟩
  rw [hout q hq]
  exact hsame q hq

/-- Outside the notes, the disk is that of the shelf. -/
theorem get (h : Left disk s) {q : Path} (hq : ¬FsShelf.trash <+: q)
    (hnote : ∀ u, q ≠ digestFile u) :
    ∃ whole, Holds whole s ∧ disk.get q = whole.get q := by
  obtain ⟨whole, hholds, hsame⟩ := h.held
  rcases hsame q hq with heq | ⟨u, -, rfl, -⟩
  · exact ⟨whole, hholds, heq⟩
  · exact absurd rfl (hnote u)

theorem root (h : Left disk s) : disk.get [] = some .dir := by
  obtain ⟨whole, hholds, heq⟩ := h.get (q := []) (by simp [FsShelf.trash]) (by simp [digestFile])
  rw [heq, hholds.root]

theorem staging (h : Left disk s) : disk.get FsShelf.staging = some .dir := by
  obtain ⟨whole, hholds, heq⟩ := h.get (q := FsShelf.staging)
    (by simp [FsShelf.trash, FsShelf.staging]) (by simp [digestFile, FsShelf.staging])
  rw [heq, hholds.staging]

/-- A staging place is there exactly when its directory is. -/
theorem isDir_staged (h : Left disk s) (u : UploadId) :
    disk.isDir (stagedDir u) = s.staging[u]?.isSome := by
  obtain ⟨whole, hholds, heq⟩ := h.get (q := stagedDir u) (by simp [FsShelf.trash, stagedDir])
    (by simp [digestFile, stagedDir])
  rw [← hholds.isDir_staged, Tree.isDir, Tree.isDir, heq]

/-- No note is a directory, and nothing is in one. -/
theorem note (h : Left disk s) (u : UploadId) :
    disk.get (digestFile u) ≠ some .dir ∧
      ∀ x rest, disk.get (digestFile u ++ x :: rest) = none := by
  obtain ⟨whole, hholds, hsame⟩ := h.held
  constructor
  · rcases hsame (digestFile u) (by simp [FsShelf.trash, digestFile]) with
      heq | ⟨v, bytes, -, -, hfile⟩
    · rw [heq]
      have hplace := hholds.place u
      cases hu : s.staging[u]? with
      | none =>
        rw [hu] at hplace
        rw [hplace.2]
        simp
      | some place =>
        rw [hu] at hplace
        obtain ⟨-, -, -, -, hnote⟩ := hplace
        rw [hnote]
        cases place.digest <;> simp
    · rw [hfile]
      simp
  · intro x rest
    rcases hsame (digestFile u ++ x :: rest) (by simp [FsShelf.trash, digestFile]) with
      heq | ⟨v, bytes, hv, -, -⟩
    · rw [heq, hholds.notes]
    · simp [digestFile] at hv

/-- A note whose upload is gone goes with it. -/
theorem unnoted (h : Left disk s) (hgone : s.staging[u]? = none)
    (hget : ∀ q, disk'.get q = if digestFile u = q then none else disk.get q) : Left disk' s := by
  obtain ⟨whole, hholds, hsame⟩ := h.held
  refine ⟨⟨whole, hholds, fun q hq => ?_⟩, ?_, fun x bytes => ?_⟩
  · rw [hget]
    split
    · rename_i heq
      subst heq
      have hplace := hholds.place u
      rw [hgone] at hplace
      exact .inl hplace.2.symm
    · exact hsame q hq
  · rw [hget, if_neg (by simp [digestFile, FsShelf.trash])]
    exact h.trash
  · rw [hget, if_neg (by simp [digestFile])]
    exact h.bins x bytes

/-- Before the note of an upload that is gone is removed. -/
theorem of_unnoted (h : Holds disk' s) (hgone : s.staging[u]? = none)
    (hdir : disk.get (digestFile u) ≠ some .dir)
    (hget : ∀ q, disk'.get q = if digestFile u = q then none else disk.get q) : Left disk s where
  held := by
    refine ⟨disk', h, fun q _ => ?_⟩
    rw [hget]
    split
    · rename_i heq
      subst heq
      cases hnote : disk.get (digestFile u) with
      | none => exact .inl rfl
      | some node =>
        cases node with
        | dir => exact absurd hnote hdir
        | file bytes => exact .inr ⟨u, bytes, rfl, hgone, rfl⟩
    · exact .inl rfl
  trash := by
    have htrash := hget FsShelf.trash
    rw [if_neg (by simp [digestFile, FsShelf.trash]), h.trash] at htrash
    exact htrash.symm
  bins x bytes hfile := by
    have hbin := hget ["trash", x]
    rw [if_neg (by simp [digestFile]), h.emptied x [], hfile] at hbin
    cases hbin

/-- Once its trash is emptied and its notes are swept, the disk is that of the shelf. -/
theorem holds (h : Left disk s)
    (hnotes : ∀ u, s.staging[u]? = none → disk.get (digestFile u) = none) :
    Holds (binned disk) s := by
  obtain ⟨whole, hholds, hsame⟩ := h.held
  refine hholds.congr fun q => ?_
  rw [get_binned]
  by_cases htrash : FsShelf.trash = q
  · rw [if_pos htrash, ← htrash, hholds.trash]
  by_cases hunder : FsShelf.trash <+: q
  · rw [if_neg htrash, if_pos hunder]
    obtain ⟨rest, rfl⟩ := hunder
    cases rest with
    | nil => exact absurd rfl htrash
    | cons x rest => exact (hholds.emptied x rest).symm
  · rw [if_neg htrash, if_neg hunder]
    rcases hsame q hunder with heq | ⟨u, bytes, rfl, hgone, hfile⟩
    · exact heq
    · rw [hnotes u hgone] at hfile
      cases hfile

theorem congr (h : Left disk s) (hsame : ∀ q, disk'.get q = disk.get q) : Left disk' s := by
  refine h.elsewhere (fun q _ => hsame q) ?_ fun x bytes => ?_
  · rw [hsame]
    exact h.trash
  · rw [hsame]
    exact h.bins x bytes

end Left

/-! ## One program by itself -/

/-- What a program keeps when nothing else is under way. -/
def alone (I : FsShelf → Prop) : Terms FsShelf where
  inv := I
  rely s s' := s' = s
  may _ _ := True
  rely_refl _ := rfl
  rely_trans h h' := h'.trans h
  may_refl _ := trivial

variable {I : FsShelf → Prop} {α : Type} {Q : Except ApiError α → FsShelf → Prop}

omit [ServerJson] in
theorem keeps_alone {act : Steps α} {torn : Nat → FsShelf → FsShelf} (htorn : ∀ n, I (torn n fs))
    (hact : I (act fs).2) (hQ : Q (act fs).1 (act fs).2) :
    (Prog.tornAtom act torn : Script α).Keeps (alone I) Q fs := by
  refine Prog.keeps_tornAtom fun fs₁ heq _ => ?_
  obtain rfl : fs₁ = fs := heq
  exact ⟨fun n => ⟨htorn n, trivial⟩, ⟨hact, trivial⟩, hQ⟩

omit [ServerJson] in
theorem keeps_aloneOnce {act : Steps α} (hI : I fs) (hact : I (act fs).2)
    (hQ : Q (act fs).1 (act fs).2) : (once act).Keeps (alone I) Q fs :=
  keeps_alone (fun _ => hI) hact hQ

/-! ## Opening -/

/-- A directory that is there is made again. -/
theorem keeps_remade {path : Path} (h : Left fs.disk s)
    (hdirs : ∀ q, q <+: path → fs.disk.get q = some .dir) :
    (makeDir path).Keeps (alone fun fs => Left fs.disk s)
      (fun answer fs' => answer = .ok () ∧ (∀ q, fs'.disk.get q = fs.disk.get q) ∧
        fs'.process = fs.process ∧ fs'.trashed = fs.trashed) fs := by
  have hsame : ∀ q node, q <+: path ∧ node = some ((fs.disk.get q).getD .dir) →
      node = fs.disk.get q := by
    rintro q _ ⟨hq, rfl⟩
    rw [hdirs q hq]
    rfl
  obtain ⟨disk, hmake, hget⟩ := @makeDir_ok fs path fun q hq => by
    rw [Tree.isFile, hdirs q hq]
  have hall : ∀ q, disk.get q = fs.disk.get q := by
    intro q
    rw [hget]
    split
    · rename_i hq
      exact (hdirs q hq).symm
    · rfl
  refine keeps_alone (fun n => h.congr fun q => ?_) ?_ ?_
  · rcases Tree.get_some_ensureDir fs.disk path q n with heq | hmade
    · exact heq
    · exact hsame q _ hmade
  · rw [hmake]
    exact h.congr hall
  · rw [hmake]
    exact ⟨rfl, hall, rfl, rfl⟩

omit [ServerJson] in
/-- A directory in the trash is removed, if it is there. -/
theorem removeTree_bin {name : String}
    (hname : ∀ bytes, fs.disk.get ["trash", name] ≠ some (.file bytes)) :
    ∃ disk, FsShelf.removeTree ["trash", name] fs = (.ok (), { fs with disk }) ∧
      disk.get ["trash", name] = none ∧
      ∀ q, ¬["trash", name] <+: q → disk.get q = fs.disk.get q := by
  unfold FsShelf.removeTree removed
  dsimp only
  cases hget : fs.disk.get ["trash", name] with
  | none =>
    have hgone : fs.disk.removeAll ["trash", name] = .error .notFound := by
      simp only [Tree.removeAll, hget]
    rw [hgone]
    exact ⟨fs.disk, rfl, hget, fun _ _ => rfl⟩
  | some node =>
    cases node with
    | file bytes => exact absurd hget (hname bytes)
    | dir =>
      have hall : fs.disk.removeAll ["trash", name] =
          .ok (fs.disk.removeUnder ["trash", name]) := by simp only [Tree.removeAll, hget]
      rw [hall]
      refine ⟨_, rfl, ?_, fun q hq => ?_⟩
      · rw [Tree.get_removeUnder, if_pos (List.prefix_refl _)]
      · rw [Tree.get_removeUnder, if_neg hq]

/-- What is taken from the trash, whole or in part, is of no matter. -/
theorem Left.thrown (h : Left disk s) {name : String}
    (hsame : ∀ q, ¬["trash", name] <+: q → disk'.get q = disk.get q)
    (hname : disk'.get ["trash", name] = none ∨
      disk'.get ["trash", name] = disk.get ["trash", name]) :
    Left disk' s := by
  refine h.elsewhere (fun q hq => hsame q fun hpre => ?_) ?_ fun x bytes => ?_
  · exact hq (List.IsPrefix.trans ⟨[name], rfl⟩ hpre)
  · rw [hsame _ (by simp [FsShelf.trash])]
    exact h.trash
  · by_cases hx : name = x
    · subst hx
      rcases hname with hnone | hold
      · rw [hnone]
        simp
      · rw [hold]
        exact h.bins name bytes
    · rw [hsame _ (by simp [hx])]
      exact h.bins x bytes

omit [ServerJson] in
theorem get_torn (disk : Disk) (path : Path) (n : Nat) :
    (disk.removeSome path n).get path = none ∨
      (disk.removeSome path n).get path = disk.get path := by
  cases hget : (disk.removeSome path n).get path with
  | none => exact .inl rfl
  | some node =>
    have hmem := (Tree.dropSome_sublist path n disk.entries).subset (Tree.get_eq_some.mp hget)
    exact .inr (Tree.get_eq_some.mpr hmem).symm

/-- One directory of the trash. -/
theorem keeps_bin (name : String) (h : Left fs.disk s) :
    (removeTree ["trash", name]).Keeps (alone fun fs => Left fs.disk s)
      (fun answer fs' => answer = .ok () ∧ Left fs'.disk s ∧ fs'.process = fs.process ∧
        fs'.trashed = fs.trashed ∧
        ∀ x, fs'.disk.get ["trash", x] =
          if name = x then none else fs.disk.get ["trash", x]) fs := by
  obtain ⟨disk, hremove, hgone, hsame⟩ := removeTree_bin (h.bins name)
  have hleft : Left disk s := h.thrown hsame (.inl hgone)
  refine keeps_alone (fun n => ?_) ?_ ?_
  · exact h.thrown (fun q hq => Tree.get_removeSome n hq) (get_torn fs.disk _ n)
  · rw [hremove]
    exact hleft
  · rw [hremove]
    refine ⟨rfl, hleft, rfl, rfl, fun x => ?_⟩
    by_cases hx : name = x
    · subst hx
      rw [if_pos rfl]
      exact hgone
    · rw [if_neg hx]
      exact hsame _ (by simp [hx])

/-- All of them. -/
theorem keeps_bins (names : List String) (h : Left fs.disk s) :
    (emptyTrash names).Keeps (alone fun fs => Left fs.disk s)
      (fun answer fs' => answer = .ok () ∧ Left fs'.disk s ∧ fs'.process = fs.process ∧
        fs'.trashed = fs.trashed ∧
        ∀ x, fs'.disk.get ["trash", x] = if x ∈ names then none else fs.disk.get ["trash", x])
      fs := by
  induction names generalizing fs with
  | nil => exact ⟨rfl, h, rfl, rfl, fun x => by simp⟩
  | cons name names ih =>
    refine Prog.keeps_bind ((keeps_bin name h).mono ?_)
    rintro _ fs₁ ⟨rfl, h₁, hprocess, htrashed, hbins⟩
    refine (ih h₁).mono ?_
    rintro _ fs₂ ⟨rfl, h₂, hprocess₂, htrashed₂, hbins₂⟩
    refine ⟨rfl, h₂, hprocess₂.trans hprocess, htrashed₂.trans htrashed, fun x => ?_⟩
    rw [hbins₂, hbins]
    by_cases hx : name = x
    · subst hx
      simp
    · simp [hx, Ne.symm hx]

/-- What is known after some names of `staging/` were swept. -/
structure Swept (names : List String) (s : MemoryShelf) (fs fs' : FsShelf) : Prop where
  left : Left fs'.disk s
  process : fs'.process = fs.process
  trashed : fs'.trashed = fs.trashed
  others : ∀ q, (∀ name ∈ names, q ≠ ["staging", name]) → fs'.disk.get q = fs.disk.get q
  notes : ∀ u, digestName u ∈ names → s.staging[u]? = none → fs'.disk.get (digestFile u) = none

/-- A note whose upload is gone is swept, and no other file is. -/
theorem keeps_note {name : String} (h : Left fs.disk s)
    (hthere : ∃ node, fs.disk.get ["staging", name] = some node) :
    (if orphan fs.disk name then once (change (·.unlink ["staging", name]))
      else pure () : Script Unit).Keeps (alone fun fs => Left fs.disk s)
      (fun answer fs' => answer = .ok () ∧ Swept [name] s fs fs') fs := by
  by_cases horphan : orphan fs.disk name = true
  · rw [if_pos horphan]
    obtain ⟨u, hu, hgone⟩ := (Option.any_eq_true _ _).mp horphan
    obtain rfl := notedUpload_eq_some.mp hu
    rw [h.isDir_staged] at hgone
    have hnone : s.staging[u]? = none := by
      cases hstaged : s.staging[u]? with
      | none => rfl
      | some place =>
        rw [hstaged] at hgone
        cases hgone
    obtain ⟨hdir, hunder⟩ := h.note u
    obtain ⟨node, hnode⟩ := hthere
    have hunlink : fs.disk.unlink (digestFile u) = .ok (fs.disk.removeUnder (digestFile u)) := by
      have hget : fs.disk.get (digestFile u) = some node := hnode
      cases node with
      | dir => exact absurd hget hdir
      | file bytes => simp only [Tree.unlink, hget]
    have hsame : ∀ q, (fs.disk.removeUnder (digestFile u)).get q =
        if digestFile u = q then none else fs.disk.get q := by
      intro q
      rw [Tree.get_removeUnder]
      by_cases heq : digestFile u = q
      · subst heq
        rw [if_pos (List.prefix_refl _), if_pos rfl]
      · rw [if_neg heq]
        split
        · rename_i hpre
          obtain ⟨rest, rfl⟩ := hpre
          cases rest with
          | nil => exact absurd (List.append_nil _).symm heq
          | cons x rest => exact (hunder x rest).symm
        · rfl
    have hleft : Left (fs.disk.removeUnder (digestFile u)) s := h.unnoted hnone hsame
    have hchange : change (·.unlink ["staging", digestName u]) fs =
        (.ok (), { fs with disk := fs.disk.removeUnder (digestFile u) }) := change_ok hunlink
    refine keeps_aloneOnce h ?_ ?_
    · rw [hchange]
      exact hleft
    · rw [hchange]
      refine ⟨rfl, hleft, rfl, rfl, fun q hq => ?_, fun v hv _ => ?_⟩
      · exact (hsame q).trans (if_neg fun heq => hq _ (List.mem_singleton_self _) heq.symm)
      · obtain rfl := digestName_inj.mp (List.mem_singleton.mp hv)
        exact (hsame _).trans (if_pos rfl)
  · rw [if_neg horphan]
    refine ⟨rfl, h, rfl, rfl, fun _ _ => rfl, fun u hu hnone => ?_⟩
    -- a note whose upload is gone would have been swept
    refine absurd ((Option.any_eq_true _ _).mpr
      ⟨u, notedUpload_eq_some.mpr (List.mem_singleton.mp hu).symm, ?_⟩) horphan
    rw [h.isDir_staged, hnone]
    rfl

/-- All the names in `staging/`. -/
theorem keeps_notes (names : List String) (hnames : names.Nodup) (h : Left fs.disk s)
    (hthere : ∀ name ∈ names, ∃ node, fs.disk.get ["staging", name] = some node) :
    (sweepDigests names).Keeps (alone fun fs => Left fs.disk s)
      (fun answer fs' => answer = .ok () ∧ Swept names s fs fs') fs := by
  induction names generalizing fs with
  | nil =>
    exact ⟨rfl, h, rfl, rfl, fun _ _ => rfl, fun u hu => absurd hu List.not_mem_nil⟩
  | cons name names ih =>
    obtain ⟨hnot, hrest⟩ := List.nodup_cons.mp hnames
    have hbind : (do
        if orphan fs.disk name = true then once (change (·.unlink ["staging", name])) else pure ()
        sweepDigests names : Script Unit) =
        (if orphan fs.disk name = true then once (change (·.unlink ["staging", name]))
          else pure ()) >>= fun _ => sweepDigests names := by
      cases orphan fs.disk name <;> rfl
    refine Prog.keeps_bind (keeps_aloneOnce h h ?_)
    show Prog.Keeps _ _ (do
      if orphan fs.disk name = true then once (change (·.unlink ["staging", name])) else pure ()
      sweepDigests names : Script Unit) fs
    rw [hbind]
    refine Prog.keeps_bind ((keeps_note h (hthere name List.mem_cons_self)).mono ?_)
    rintro _ fs₁ ⟨rfl, h₁⟩
    refine (ih hrest h₁.left fun other hother => ?_).mono ?_
    · rw [h₁.others]
      · exact hthere other (List.mem_cons_of_mem _ hother)
      · intro one hone heq
        rw [List.mem_singleton.mp hone] at heq
        cases heq
        exact hnot hother
    · rintro _ fs₂ ⟨rfl, h₂⟩
      refine ⟨rfl, h₂.left, h₂.process.trans h₁.process, h₂.trashed.trans h₁.trashed,
        fun q hq => ?_, fun u hu hnone => ?_⟩
      · rw [h₂.others q fun one hone => hq one (List.mem_cons_of_mem _ hone)]
        refine h₁.others q fun one hone => ?_
        rw [List.mem_singleton.mp hone]
        exact hq name List.mem_cons_self
      · by_cases hmem : digestName u ∈ names
        · exact h₂.notes u hmem hnone
        · have hself : digestName u = name := (List.mem_cons.mp hu).resolve_right hmem
          rw [h₂.others (digestFile u) fun one hone heq => ?_]
          · exact h₁.notes u (List.mem_singleton.mpr hself) hnone
          · rw [show one = digestName u by simpa [digestFile] using heq.symm] at hone
            exact hmem hone

/-- **An opening keeps whichever shelf was left**, wherever it is cut, and one that is not cut
leaves nothing but the shelf. -/
theorem keeps_open (process : Nat) (h : Left fs.disk s) :
    (openAt process).Keeps (alone fun fs => Left fs.disk s)
      (fun answer fs' => answer = .ok () ∧ fs'.process = process ∧ fs'.trashed = 0 ∧
        fs'.disk.children FsShelf.trash = [] ∧ Holds (binned fs'.disk) s) fs := by
  have hone : ∀ (disk : Disk) (x : String), Left disk s → disk.get [x] = some .dir →
      ∀ q, q <+: [x] → disk.get q = some .dir := by
    intro disk x hleft hx q hq
    rw [← List.mem_inits] at hq
    simp only [List.inits, List.map_cons, List.map_nil, List.mem_cons, List.not_mem_nil,
      or_false] at hq
    rcases hq with rfl | rfl
    · exact hleft.root
    · exact hx
  -- the three directories, in the order of `open`
  refine Prog.keeps_bind (keeps_aloneOnce h h ?_)
  have h₀ : Left (⟨fs.disk, process, 0⟩ : FsShelf).disk s := h
  refine Prog.keeps_bind ((keeps_remade h₀ fun q hq => ?_).mono ?_)
  · rw [List.prefix_nil.mp hq]
    exact h.root
  rintro _ fs₁ ⟨rfl, hsame₁, hprocess₁, htrashed₁⟩
  have h₁ : Left fs₁.disk s := h.congr hsame₁
  refine Prog.keeps_bind ((keeps_remade h₁ (hone _ _ h₁ h₁.staging)).mono ?_)
  rintro _ fs₂ ⟨rfl, hsame₂, hprocess₂, htrashed₂⟩
  have h₂ : Left fs₂.disk s := h₁.congr hsame₂
  refine Prog.keeps_bind ((keeps_remade h₂ (hone _ _ h₂ h₂.trash)).mono ?_)
  rintro _ fs₃ ⟨rfl, hsame₃, hprocess₃, htrashed₃⟩
  have h₃ : Left fs₃.disk s := h₂.congr hsame₃
  -- then all that lies in the trash
  have htrash : listing FsShelf.trash fs₃ = (.ok (fs₃.disk.children FsShelf.trash), fs₃) :=
    listing_dir h₃.trash
  refine Prog.keeps_bind (keeps_aloneOnce h₃ ?_ ?_)
  · rw [htrash]
    exact h₃
  rw [htrash]
  refine Prog.keeps_bind ((keeps_bins _ h₃).mono ?_)
  rintro _ fs₄ ⟨rfl, h₄, hprocess₄, htrashed₄, hbins⟩
  -- then the notes that have no staging place beside them
  have hstaging : listing FsShelf.staging fs₄ = (.ok (fs₄.disk.children FsShelf.staging), fs₄) :=
    listing_dir h₄.staging
  refine Prog.keeps_bind (keeps_aloneOnce h₄ ?_ ?_)
  · rw [hstaging]
    exact h₄
  rw [hstaging]
  refine (keeps_notes _ (Tree.nodup_children _ _) h₄ fun name hname =>
    Tree.mem_children.mp hname).mono ?_
  rintro _ fs₅ ⟨rfl, h₅⟩
  refine ⟨rfl, ?_, ?_, ?_, h₅.left.holds fun u hnone => ?_⟩
  -- an opening that was not cut: nothing lies in the trash, and no note alone
  · rw [h₅.process, hprocess₄, hprocess₃, hprocess₂, hprocess₁]
  · rw [h₅.trashed, htrashed₄, htrashed₃, htrashed₂, htrashed₁]
  · rw [List.eq_nil_iff_forall_not_mem]
    intro x hx
    obtain ⟨node, hnode⟩ := Tree.mem_children.mp hx
    have hsame : fs₅.disk.get ["trash", x] = fs₄.disk.get ["trash", x] :=
      h₅.others _ fun name _ => by simp
    have hget : fs₅.disk.get ["trash", x] = some node := hnode
    rw [hsame, hbins] at hget
    split at hget
    · cases hget
    · rename_i hnot
      exact hnot (Tree.mem_children.mpr ⟨node, hget⟩)
  · by_cases hthere : ∃ node, fs₄.disk.get (digestFile u) = some node
    · exact h₅.notes u (Tree.mem_children.mpr hthere) hnone
    · have hnever : digestName u ∉ fs₄.disk.children FsShelf.staging := fun hmem =>
        hthere (Tree.mem_children.mp hmem)
      rw [h₅.others (digestFile u) fun name hname heq => ?_]
      · cases hget : fs₄.disk.get (digestFile u) with
        | none => rfl
        | some node => exact absurd ⟨node, hget⟩ hthere
      · rw [show name = digestName u by simpa [digestFile] using heq.symm] at hname
        exact hnever hname

/-! ## A removal -/

omit [ServerJson] in
/-- What keeps the one keeps the one or the other. -/
theorem keeps_widened {J : FsShelf → Prop} {p : Script α} (h : p.Keeps (alone I) Q fs) (hI : I fs)
    (hJ : ∀ fs, I fs → J fs) : p.Keeps (alone J) Q fs := by
  induction p generalizing fs with
  | done answer => exact h
  | step act torn next ih =>
    intro fs₁ heq _
    obtain rfl : fs₁ = fs := heq
    obtain ⟨htorn, hfine, hnext⟩ := h fs₁ rfl hI
    refine ⟨fun n => ⟨hJ _ (htorn n).1, trivial⟩, ⟨hJ _ hfine.1, trivial⟩, ?_⟩
    rcases hact : act fs₁ with ⟨e | b, fs₂⟩
    · rw [hact] at hnext
      exact hnext
    · rw [hact] at hnext hfine
      exact ih b hnext hfine.1

/-- The one shelf or the other. -/
def Either (s s' : MemoryShelf) (fs : FsShelf) : Prop := Left fs.disk s ∨ Left fs.disk s'

/-- What was thrown away is gone, and what is elsewhere is not. -/
def Without (path : Path) (disk disk' : Disk) : Prop :=
  ∀ q, ¬FsShelf.trash <+: q → disk'.get q = if path <+: q then none else disk.get q

/-- Where there is nothing, nothing is discarded. -/
theorem keeps_discardAbsent {path : Path} (h : Left fs.disk s)
    (habsent : fs.disk.get path = none) :
    (discard path).Keeps (alone (Either s s'))
      (fun answer fs' => answer = .ok false ∧ fs'.disk = fs.disk) fs := by
  have hmove : moveToTrash path fs = (.ok none, { fs with trashed := fs.trashed + 1 }) := by
    have hrename : ∀ bin, fs.disk.rename path bin = .error .notFound := by
      intro bin
      simp only [Tree.rename, habsent]
    rw [moveToTrash_eq, hrename]
  refine Prog.keeps_bind (keeps_aloneOnce (.inl h) ?_ ?_)
  · rw [hmove]
    exact .inl h
  · rw [hmove]
    exact ⟨rfl, rfl⟩

/-- **A directory is discarded in one step.** What becomes of it in the trash is of no matter. -/
theorem keeps_discardDir {path : Path} (h : Holds fs.disk s) (hdir : fs.disk.get path = some .dir)
    (hpath : ∀ x, ¬path <+: ["trash", x])
    (hafter : ∃ disk, Left disk s' ∧ Without path fs.disk disk) :
    (discard path).Keeps (alone (Either s s'))
      (fun answer fs' => answer = .ok true ∧ Left fs'.disk s') fs := by
  let name := toString fs.process ++ "-" ++ toString fs.trashed
  have hbin : fs.disk.get ["trash", name] = none := h.emptied name []
  have hrename : fs.disk.rename path ["trash", name] =
      .ok (fs.disk.move path ["trash", name]) := by
    have hparent : fs.disk.isDir (["trash", name] : Path).dropLast = true := by
      show fs.disk.isDir FsShelf.trash = true
      simp only [Tree.isDir, h.trash]
    simp only [Tree.rename, hdir, if_neg (hpath name), hparent, hbin, Bool.true_eq_false, if_false]
  have hmove : moveToTrash path fs = (.ok (some ["trash", name]),
      { fs with disk := fs.disk.move path ["trash", name], trashed := fs.trashed + 1 }) := by
    rw [moveToTrash_eq, hrename]
  have hwithout : Without path fs.disk (fs.disk.move path ["trash", name]) := by
    intro q hq
    have hout : ¬(["trash", name] : Path) <+: q := fun hpre =>
      hq (List.IsPrefix.trans ⟨[name], rfl⟩ hpre)
    rw [Tree.get_move, if_neg hout]
  have hleft : Left (fs.disk.move path ["trash", name]) s' := by
    obtain ⟨disk, hdisk, hsame⟩ := hafter
    refine hdisk.elsewhere (fun q hq => (hwithout q hq).trans (hsame q hq).symm) ?_
      fun x bytes => ?_
    · have hout : ¬path <+: FsShelf.trash := fun hpre =>
        hpath name (List.IsPrefix.trans hpre ⟨[name], rfl⟩)
      rw [Tree.get_move, if_neg (by simp [FsShelf.trash]), if_neg hout, h.trash]
    · rw [Tree.get_move]
      by_cases hx : name = x
      · subst hx
        rw [if_pos (List.prefix_refl _), List.drop_length, List.append_nil, hdir]
        simp
      · rw [if_neg (by simp [hx]), if_neg (hpath x), h.emptied x []]
        simp
  refine Prog.keeps_bind (keeps_aloneOnce (.inl (.of_holds h)) ?_ ?_)
  · rw [hmove]
    exact .inr hleft
  · rw [hmove]
    have hkept : (removeTree ["trash", name]).Keeps (alone fun fs => Left fs.disk s') _
        ⟨fs.disk.move path ["trash", name], fs.process, fs.trashed + 1⟩ := keeps_bin name hleft
    refine Prog.keeps_bind ((keeps_widened hkept hleft fun _ => .inr).mono ?_)
    rintro _ fs' ⟨rfl, h', -⟩
    exact ⟨rfl, h'⟩

/-- The calls that take something away. -/
def TakesAway : ShelfCall → Prop
  | .stageRemove _ | .remove .. | .dropGeneration _ => True
  | _ => False

omit [ServerJson] in
theorem syncDir_same (path : Path) (fs : FsShelf) : (syncDir path fs).2 = fs := by
  unfold syncDir
  split <;> rfl

theorem syncDir_either {path : Path} (h : Either s s' fs) :
    (once (syncDir path)).Keeps (alone (Either s s')) (fun _ => Either s s') fs := by
  refine keeps_aloneOnce h ?_ ?_
  · rw [syncDir_same]
    exact h
  · rw [syncDir_same]
    exact h

theorem dropGeneration_either (h : Holds fs.disk s) (g : Nat) :
    (dropGeneration g).Keeps (alone (Either s (s.dropGeneration g)))
      (fun _ => Either s (s.dropGeneration g)) fs := by
  obtain ⟨hempty, hnone⟩ | ⟨hdir, -, -⟩ := h.generation g
  · have habsent := hnone []
    rw [List.append_nil] at habsent
    refine Prog.keeps_bind ((keeps_discardAbsent (.of_holds h) habsent).mono ?_)
    rintro _ fs' ⟨rfl, hsame⟩
    rw [← hsame] at h
    exact .inl (.of_holds h)
  · have hout : ∀ x, ¬generationDir g <+: ["trash", x] := by simp [generationDir]
    obtain ⟨disk, hdrop, hholds⟩ := dropGeneration_holds h g
    obtain ⟨gone, hdiscard, hget⟩ := discard_ok hdir hout h.trash h.emptied
    obtain rfl : gone = disk := by
      unfold FsShelf.dropGeneration at hdrop
      rw [bind_ok hdiscard] at hdrop
      have hstate := congrArg Prod.snd hdrop
      rw [if_pos rfl, syncDir_same] at hstate
      exact congrArg FsShelf.disk hstate
    refine Prog.keeps_bind ((keeps_discardDir h hdir hout
      ⟨gone, .of_holds hholds, fun q _ => hget q⟩).mono ?_)
    rintro _ fs' ⟨rfl, h'⟩
    exact syncDir_either (.inr h')

theorem remove_either (hjson : ReadsBack) (h : Holds fs.disk s) (g : Nat) (id : ItemId) :
    (remove g id).Keeps (alone (Either s (s.remove g id).2))
      (fun _ => Either s (s.remove g id).2) fs := by
  have hread := readItem_holds hjson h g id
  have hboth : Either s (s.remove g id).2 fs := .inl (.of_holds h)
  refine Prog.keeps_bind (keeps_aloneOnce hboth ?_ ?_)
  · rw [hread]
    exact hboth
  rw [hread]
  cases hget : s.get g id with
  | none => exact hboth
  | some item =>
    have hdir : fs.disk.get (itemDir g id) = some .dir := by
      have hon := (h.generation g).item id
      unfold MemoryShelf.get at hget
      cases hitem : (s.generation g)[id]? with
      | none =>
        rw [hitem] at hget
        cases hget
      | some item =>
        rw [hitem] at hon
        exact hon.1
    have hout : ∀ x, ¬itemDir g id <+: ["trash", x] := by simp [itemDir]
    obtain ⟨disk, trashed, hremove, hholds⟩ := remove_holds hjson h g id
    obtain ⟨gone, hdiscard, hsame⟩ := discard_ok hdir hout h.trash h.emptied
    obtain rfl : gone = disk := by
      unfold FsShelf.remove at hremove
      rw [bind_ok hread, hget] at hremove
      dsimp only at hremove
      rw [bind_ok hdiscard, if_pos rfl] at hremove
      have hsync := syncDir_same (items g) { fs with disk := gone, trashed := fs.trashed + 1 }
      rcases hanswer : syncDir (items g) { fs with disk := gone, trashed := fs.trashed + 1 } with
        ⟨e | _, fs₂⟩
      · rw [hanswer] at hsync
        rw [bind_error hanswer] at hremove
        have hstate : fs₂ = _ := congrArg Prod.snd hremove
        exact congrArg FsShelf.disk (hsync.symm.trans hstate)
      · rw [hanswer] at hsync
        rw [bind_ok hanswer] at hremove
        have hstate : fs₂ = _ := congrArg Prod.snd hremove
        exact congrArg FsShelf.disk (hsync.symm.trans hstate)
    refine Prog.keeps_bind ((keeps_discardDir h hdir hout
      ⟨gone, .of_holds hholds, fun q _ => hsame q⟩).mono ?_)
    rintro _ fs' ⟨rfl, h'⟩
    refine Prog.keeps_bind ((syncDir_either (.inr h')).mono ?_)
    rintro (e | _) fs₂ h₂
    · exact h₂
    · exact h₂

/-- The note of an upload that is gone goes last. -/
theorem removeDigest_either {u : UploadId} {s₁ : MemoryShelf} (h : Left fs.disk s₁)
    (hgone : s₁.staging[u]? = none) (hI : ∀ fs, Left fs.disk s₁ → Either s s' fs) :
    (once (removeDigest u)).Keeps (alone (Either s s')) (fun _ => Either s s') fs := by
  obtain ⟨hdir, hunder⟩ := h.note u
  obtain ⟨disk, hremove, hget⟩ := unlink_ok hdir hunder
  have hleft : Left disk s₁ := h.unnoted hgone hget
  have hrun : removeDigest u fs = (.ok (), { fs with disk }) := hremove
  refine keeps_aloneOnce (hI _ h) ?_ ?_
  · rw [hrun]
    exact hI _ hleft
  · rw [hrun]
    exact hI _ hleft

theorem stageRemove_either (h : Holds fs.disk s) (u : UploadId) :
    (stageRemove u).Keeps (alone (Either s (s.stageRemove u)))
      (fun _ => Either s (s.stageRemove u)) fs := by
  have hplace := h.place u
  cases hu : s.staging[u]? with
  | none =>
    rw [hu] at hplace
    have habsent := hplace.1 []
    rw [List.append_nil] at habsent
    refine Prog.keeps_bind ((keeps_discardAbsent (.of_holds h) habsent).mono ?_)
    rintro _ fs' ⟨rfl, hsame⟩
    rw [← hsame] at h
    exact removeDigest_either (.of_holds h) hu fun _ => .inl
  | some place =>
    rw [hu] at hplace
    obtain ⟨hdir, -, -, -, hnote⟩ := hplace
    have hout : ∀ x, ¬stagedDir u <+: ["trash", x] := by simp [stagedDir]
    have hgone : (s.stageRemove u).staging[u]? = none := by
      rw [s.stageRemove_staging, if_pos rfl]
    obtain ⟨disk, hremove, hholds⟩ := stageRemove_holds h u
    obtain ⟨bare, hdiscard, hbare⟩ := discard_ok hdir hout h.trash h.emptied
    have hnoteDir : bare.get (digestFile u) ≠ some .dir := by
      rw [hbare, if_neg (by simp [stagedDir, digestFile]), hnote]
      cases place.digest <;> simp
    have hunder : ∀ x rest, bare.get (digestFile u ++ x :: rest) = none := by
      intro x rest
      rw [hbare, if_neg (by simp [stagedDir, digestFile]), h.notes]
    -- the directory is gone before its note is
    have hleft : Left bare (s.stageRemove u) := by
      obtain ⟨final, hunlink, hfinal⟩ := @unlink_ok
        { fs with disk := bare, trashed := fs.trashed + 1 } _ hnoteDir hunder
      obtain rfl : final = disk := by
        unfold FsShelf.stageRemove at hremove
        rw [bind_ok hdiscard] at hremove
        exact congrArg FsShelf.disk (congrArg Prod.snd (hunlink.symm.trans hremove))
      exact .of_unnoted hholds hgone hnoteDir hfinal
    refine Prog.keeps_bind ((keeps_discardDir h hdir hout
      ⟨bare, hleft, fun q _ => hbare q⟩).mono ?_)
    rintro _ fs' ⟨rfl, h'⟩
    exact removeDigest_either h' hgone fun _ => .inr

variable [Crates]

/-- **A removal keeps the shelf before it or the one after**, wherever it is cut. -/
theorem keeps_call (hjson : ReadsBack) (h : Holds fs.disk s) {c : ShelfCall} (hc : TakesAway c) :
    (call c).Keeps (alone (Either s (s.answer c).2)) (fun _ => Either s (s.answer c).2) fs := by
  cases c with
  | stageRemove u => exact (stageRemove_either h u).map fun _ => ShelfReply.done
  | remove g id => exact (remove_either hjson h g id).map ShelfReply.item
  | dropGeneration g => exact (dropGeneration_either h g).map fun _ => ShelfReply.done
  | stageCreate | stageWrite | stageWriteHashed | stageDigest | stageSize | staged | publish | get
  | openContent | openContentFrom | ids | generations | bytes => exact hc.elim

/-- Openings, by processes of some numbers, none of which gets through: each is cut after so
many steps, with so much of the next one made. -/
def reopened (openings : List (Nat × Nat × Nat)) (fs : FsShelf) : FsShelf :=
  openings.foldl (fun fs opening => (openAt opening.1).cut opening.2.1 opening.2.2 fs) fs

omit [Crates] in
theorem Either.reopened (h : Either s s' fs) (openings : List (Nat × Nat × Nat)) :
    Either s s' (reopened openings fs) := by
  induction openings generalizing fs with
  | nil => exact h
  | cons opening openings ih =>
    refine ih ?_
    rcases h with h | h
    · exact .inl ((keeps_open opening.1 h).cut h opening.2.1 opening.2.2)
    · exact .inr ((keeps_open opening.1 h).cut h opening.2.1 opening.2.2)

/-- **A removal is all or nothing**: wherever it is cut, and however often the opening after it
is, the first opening that gets through finds nothing in the trash, and the shelf as it was
before the call or as it is after it. `binned` drops what a torn removal left of a directory of
the trash that is gone itself, which no path leads to. -/
theorem removed_whole (hjson : ReadsBack) (h : Holds fs.disk s) {c : ShelfCall} (hc : TakesAway c)
    (k n : Nat) (openings : List (Nat × Nat × Nat)) (process : Nat) :
    ∃ disk, whole (openAt process) (reopened openings ((call c).cut k n fs)) =
        (.ok (), ⟨disk, process, 0⟩) ∧
      disk.children FsShelf.trash = [] ∧
      (Holds (binned disk) s ∨ Holds (binned disk) (s.answer c).2) := by
  have hcut : Either s (s.answer c).2 ((call c).cut k n fs) :=
    (keeps_call hjson h hc).cut (.inl (.of_holds h)) k n
  have hopened : ∀ {fs : FsShelf} {s : MemoryShelf}, Left fs.disk s →
      ∃ disk, whole (openAt process) fs = (.ok (), ⟨disk, process, 0⟩) ∧
        disk.children FsShelf.trash = [] ∧ Holds (binned disk) s := by
    intro fs s hleft
    obtain ⟨-, hanswer, hprocess, htrashed, hbins, hholds⟩ := (keeps_open process hleft).run hleft
    refine ⟨_, Prod.ext hanswer ?_, hbins, hholds⟩
    show ((openAt process).run fs).2 = _
    generalize (openAt process).run fs = left at hprocess htrashed ⊢
    obtain ⟨answer, disk, number, thrown⟩ := left
    rw [show number = process from hprocess, show thrown = 0 from htrashed]
  rcases hcut.reopened openings with hleft | hleft
  · obtain ⟨disk, hopen, hbins, hholds⟩ := hopened hleft
    exact ⟨disk, hopen, hbins, .inl hholds⟩
  · obtain ⟨disk, hopen, hbins, hholds⟩ := hopened hleft
    exact ⟨disk, hopen, hbins, .inr hholds⟩

end

end Script

end FsShelf

/-- The removal of an item, cut in its third step, and an opening that is cut as well. -/
theorem FsShelf.Script.removed_item :
    ∃ s disk,
      @whole Unit (openAt 9) (reopened [(8, 4, 1)] (@Prog.cut _ _ _ (@call Sample.crates
        Sample.serverJson (.remove 0 Sample.published)) 2 1 (@FsShelf.run Sample.crates
        Sample.serverJson (new 7) Sample.shelfCalls))) = (.ok (), ⟨disk, 9, 0⟩) ∧
      disk.children FsShelf.trash = [] ∧
      (@Holds Sample.serverJson (binned disk) s ∨ @Holds Sample.serverJson (binned disk)
        (@MemoryShelf.answer Sample.crates s (.remove 0 Sample.published)).2) := by
  let _ := Sample.crates
  let _ := Sample.serverJson
  have hrange : ∀ call ∈ Sample.shelfCalls, call.InRange := by
    simp [Sample.shelfCalls, ShelfCall.InRange, u64Bound, Sample.receipt]
  obtain ⟨s, hholds⟩ := FsShelf.run_holds Sample.serverJson_readsBack (holds_new 7) hrange
  exact ⟨s, removed_whole Sample.serverJson_readsBack hholds (c := .remove 0 Sample.published)
    trivial 2 1 [(8, 4, 1)] 9⟩

end Passalong
