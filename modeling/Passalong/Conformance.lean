import Passalong.Directories
import Passalong.Engine

/-!
# The shelf on a filesystem is the shelf in memory (`shelf/fs.rs`, `shelf/memory.rs`)

One entry of a map in `MemoryShelf` is a directory, up to three files and a note beside
it in `FsShelf`, and the methods judge by different ones of these whether it is there.

- `Holds`: the disk holds what the shelf in memory does. A staging directory may hold an
  envelope already (a publish that found the item there leaves one), and a generation's
  directory may be there without items;
- every method keeps it, and answers as the shelf in memory does: one lemma for each;
- `FsShelf.conforms`: so whole runs answer alike.
-/

namespace Passalong

open Lib

namespace FsShelf

/-! ## Names -/

theorem parseGeneration_generationName {g : Nat} (h : g < u64Bound) :
    parseGeneration (generationName g) = some g := by
  unfold parseGeneration generationName
  rw [String.toList_ofList]
  exact parseU64_toDigits h

theorem generationName_injective : Function.Injective generationName := by
  intro a b h
  have hchars := congrArg String.toList h
  simp only [generationName, String.toList_ofList] at hchars
  have hdigits := congrArg (Nat.ofDigitChars 10 · 0) (List.append_cancel_left hchars)
  simpa using hdigits

/-- A generation's directory has a name of its own. -/
theorem generationName_ne {g : Nat} {x : String} (hx : x.toList.head? ≠ some 'g') :
    generationName g ≠ x := by
  rintro rfl
  unfold generationName at hx
  rw [String.toList_ofList] at hx
  exact hx rfl

@[simp] theorem generationName_ne_staging (g : Nat) : generationName g ≠ "staging" :=
  generationName_ne (by decide)

@[simp] theorem generationName_ne_trash (g : Nat) : generationName g ≠ "trash" :=
  generationName_ne (by decide)

@[simp] theorem staging_ne_generationName (g : Nat) : "staging" ≠ generationName g :=
  (generationName_ne_staging g).symm

@[simp] theorem trash_ne_generationName (g : Nat) : "trash" ≠ generationName g :=
  (generationName_ne_trash g).symm

@[simp] theorem generationName_inj {g k : Nat} : generationName g = generationName k ↔ g = k :=
  generationName_injective.eq_iff

@[simp] theorem uploadId_asStr_inj {u v : UploadId} : u.asStr = v.asStr ↔ u = v :=
  UploadId.asStr_injective.eq_iff

@[simp] theorem itemId_asStr_inj {a b : ItemId} : a.asStr = b.asStr ↔ a = b :=
  ItemId.asStr_injective.eq_iff

@[simp] theorem digestName_inj {u v : UploadId} : digestName u = digestName v ↔ u = v := by
  unfold digestName
  constructor
  · intro h
    have hchars := congrArg String.toList h
    rw [String.toList_append, String.toList_append] at hchars
    exact UploadId.asStr_injective (String.toList_injective (List.append_cancel_right hchars))
  · rintro rfl
    rfl

theorem length_asStr (u : UploadId) : u.asStr.toList.length = 32 := by
  unfold UploadId.asStr
  rw [String.toList_ofList, length_numberText]

@[simp] theorem digestName_ne (u v : UploadId) : digestName u ≠ v.asStr := by
  intro h
  have hlength := congrArg (fun x => x.toList.length) h
  simp only [digestName, String.toList_append, List.length_append, length_asStr] at hlength
  have hsuffix : ".sha256".toList.length = 7 := by decide
  omega

@[simp] theorem ne_digestName (u v : UploadId) : v.asStr ≠ digestName u :=
  (digestName_ne u v).symm

/-! ## The note of a digest -/

@[simp] theorem length_numberBytes (width n : Nat) : (numberBytes width n).length = width := by
  induction width generalizing n with
  | zero => rfl
  | succ width ih => simp [numberBytes, ih]

theorem ofNumberBytes_numberBytes {width n : Nat} (h : n < 256 ^ width) :
    ofNumberBytes (numberBytes width n) = n := by
  induction width generalizing n with
  | zero =>
    simp only [pow_zero] at h
    obtain rfl : n = 0 := by omega
    rfl
  | succ width ih =>
    have hdiv : n / 256 < 256 ^ width := by
      rw [pow_succ] at h
      omega
    have hprefix := ih hdiv
    have hlast : (UInt8.ofNat (n % 256)).toNat = n % 256 := by
      simp
    unfold ofNumberBytes at hprefix ⊢
    rw [numberBytes, List.foldl_append, hprefix]
    show 256 * (n / 256) + (UInt8.ofNat (n % 256)).toNat = n
    omega

@[simp] theorem ofBytes_toBytes (digest : Digest) :
    Digest.ofBytes digest.toBytes = some digest := by
  have hvalue : ofNumberBytes (numberBytes 32 digest.number) = digest.number :=
    ofNumberBytes_numberBytes digest.number.isLt
  unfold Digest.ofBytes Digest.toBytes
  rw [dif_pos (length_numberBytes 32 _)]
  simp [hvalue]

/-! ## Steps -/

section Steps

variable {α β : Type} {fs fs' : FsShelf}

/-- Going on from a step that succeeded. -/
theorem bind_ok {m : Steps α} {f : α → Steps β} {a : α} (h : m fs = (.ok a, fs')) :
    (m >>= f) fs = f a fs' := by
  show ExceptT.bindCont f (m fs).1 (m fs).2 = f a fs'
  rw [h]
  rfl

theorem bind_error {m : Steps α} {f : α → Steps β} {e : ApiError} (h : m fs = (.error e, fs')) :
    (m >>= f) fs = (.error e, fs') := by
  show ExceptT.bindCont f (m fs).1 (m fs).2 = _
  rw [h]
  rfl

theorem change_ok {f : Disk → Except DiskError Disk} {disk : Disk} (h : f fs.disk = .ok disk) :
    change f fs = (.ok (), { fs with disk }) := by
  simp only [change, h]

theorem fetch_ok {f : Disk → Except DiskError α} {a : α} (h : f fs.disk = .ok a) :
    fetch f fs = (.ok a, fs) := by
  simp only [fetch, h]

theorem found_ok {f : Disk → Except DiskError α} {a : α} (h : f fs.disk = .ok a) :
    found f fs = (.ok (some a), fs) := by
  simp only [found, h]

theorem found_none {f : Disk → Except DiskError α} (h : f fs.disk = .error .notFound) :
    found f fs = (.ok none, fs) := by
  simp only [found, h]

theorem syncDir_ok {path : Path} {node : Node UInt8} (h : fs.disk.get path = some node) :
    syncDir path fs = (.ok (), fs) := by
  simp only [syncDir, Tree.exist, h, Option.isSome_some, if_true]

/-- What is at a path reads as what it holds. -/
theorem read_file {disk : Disk} {path : Path} {content : Bytes}
    (h : disk.get path = some (.file content)) : disk.read path = .ok content := by
  simp only [Tree.read, h]

theorem read_absent {disk : Disk} {path : Path} (h : disk.get path = none) :
    disk.read path = .error .notFound := by
  simp only [Tree.read, h]

/-- Every directory of a path is there after `makeDir`, and nothing else changes. -/
theorem makeDir_ok {path : Path} (h : ∀ q, q <+: path → fs.disk.isFile q = false) :
    ∃ disk, makeDir path fs = (.ok (), { fs with disk }) ∧
      ∀ q, disk.get q = if q <+: path then some .dir else fs.disk.get q := by
  obtain ⟨disk, hmake, hget⟩ := Tree.get_makeDirAll h
  exact ⟨disk, change_ok hmake, hget⟩

theorem isDir_eq_false {disk : Disk} {path : Path} (h : disk.get path ≠ some .dir) :
    disk.isDir path = false := by
  unfold Tree.isDir
  split
  · exact absurd ‹_› h
  · rfl

/-- A file in a directory is created, or emptied. -/
theorem createFile_ok {dir : Path} {name : String} (hdir : fs.disk.get dir = some .dir)
    (hfile : fs.disk.get (dir ++ [name]) ≠ some .dir) :
    ∃ disk, createFile (dir ++ [name]) fs = (.ok (), { fs with disk }) ∧
      ∀ q, disk.get q = if dir ++ [name] = q then some (.file []) else fs.disk.get q := by
  refine ⟨_, change_ok ?_, fun q => Tree.get_set _ _ _ _⟩
  have hparent : fs.disk.isDir (dir ++ [name]).dropLast = true := by
    rw [List.dropLast_concat]
    simp only [Tree.isDir, hdir]
  simp only [Tree.create, hparent, isDir_eq_false hfile]
  rfl

/-- A small file in a directory holds what was written. -/
theorem writeFile_ok {dir : Path} {name : String} (bytes : Bytes)
    (hdir : fs.disk.get dir = some .dir) (hfile : fs.disk.get (dir ++ [name]) ≠ some .dir) :
    ∃ disk, writeFile (dir ++ [name]) bytes fs = (.ok (), { fs with disk }) ∧
      ∀ q, disk.get q = if dir ++ [name] = q then some (.file bytes) else fs.disk.get q := by
  obtain ⟨created, hcreate, hget⟩ := createFile_ok hdir hfile
  refine ⟨created.set (dir ++ [name]) (.file bytes), ?_, fun q => ?_⟩
  · unfold writeFile
    rw [bind_ok hcreate]
    refine change_ok ?_
    simp only [Tree.append, hget, if_true, List.nil_append]
  · rw [Tree.get_set, hget]
    split <;> rfl

/-- The pieces of a stream end up in the file, one after the other. -/
theorem sink_ok {path : Path} (sunk : List Bytes) {content : Bytes}
    (h : fs.disk.get path = some (.file content)) :
    ∃ disk, sink path sunk fs = (.ok (), { fs with disk }) ∧
      ∀ q, disk.get q =
        if path = q then some (.file (content ++ sunk.flatten)) else fs.disk.get q := by
  induction sunk generalizing fs content with
  | nil =>
    refine ⟨fs.disk, rfl, fun q => ?_⟩
    split
    · rename_i heq
      rw [← heq, h, List.flatten_nil, List.append_nil]
    · rfl
  | cons piece sunk ih =>
    have hstep : change (·.append path piece) fs =
        (.ok (), { fs with disk := fs.disk.set path (.file (content ++ piece)) }) := by
      refine change_ok ?_
      simp only [Tree.append, h]
    have hnext : (fs.disk.set path (.file (content ++ piece))).get path =
        some (.file (content ++ piece)) := by
      rw [Tree.get_set, if_pos rfl]
    obtain ⟨disk, hsink, hget⟩ := @ih
      { fs with disk := fs.disk.set path (.file (content ++ piece)) }
      (content ++ piece) hnext
    refine ⟨disk, ?_, fun q => ?_⟩
    · rw [sink, bind_ok hstep]
      exact hsink
    · rw [hget, Tree.get_set, List.flatten_cons, List.append_assoc]
      split <;> rfl

/-- A file, or nothing, is removed. -/
theorem unlink_ok {path : Path} (h : fs.disk.get path ≠ some .dir)
    (hunder : ∀ x rest, fs.disk.get (path ++ x :: rest) = none) :
    ∃ disk, removed (·.unlink path) fs = (.ok (), { fs with disk }) ∧
      ∀ q, disk.get q = if path = q then none else fs.disk.get q := by
  cases hget : fs.disk.get path with
  | none =>
    refine ⟨fs.disk, ?_, fun q => ?_⟩
    · simp only [removed, Tree.unlink, hget]
    · split
      · rename_i heq
        rw [← heq, hget]
      · rfl
  | some node =>
    cases node with
    | dir => exact absurd hget h
    | file content =>
      refine ⟨fs.disk.removeUnder path, ?_, fun q => ?_⟩
      · simp only [removed, Tree.unlink, hget]
      · rw [Tree.get_removeUnder]
        by_cases hpre : path <+: q
        · rw [if_pos hpre]
          obtain ⟨rest, rfl⟩ := hpre
          cases rest with
          | nil => rw [List.append_nil, if_pos rfl]
          | cons x rest =>
            rw [hunder x rest]
            split <;> rfl
        · rw [if_neg hpre, if_neg]
          rintro rfl
          exact hpre (List.prefix_refl _)

/-- Nothing is discarded where there is nothing. -/
theorem discard_absent {path : Path} (h : fs.disk.get path = none) :
    discard path fs = (.ok false, { fs with trashed := fs.trashed + 1 }) := by
  simp only [discard, Tree.rename, h]

/-- A directory that is discarded is gone, with everything in it, and nothing else is. -/
theorem discard_ok {path : Path} (hdir : fs.disk.get path = some .dir)
    (hpath : ∀ x, ¬ path <+: ["trash", x]) (htrash : fs.disk.get trash = some .dir)
    (hemptied : ∀ x rest, fs.disk.get ("trash" :: x :: rest) = none) :
    ∃ disk, discard path fs = (.ok true, { fs with disk, trashed := fs.trashed + 1 }) ∧
      ∀ q, disk.get q = if path <+: q then none else fs.disk.get q := by
  let bin : Path := ["trash", toString fs.process ++ "-" ++ toString fs.trashed]
  have hbin : fs.disk.get bin = none := hemptied _ []
  have hrename : fs.disk.rename path bin = .ok (fs.disk.move path bin) := by
    have hparent : fs.disk.isDir bin.dropLast = true := by
      show fs.disk.isDir trash = true
      simp only [Tree.isDir, htrash]
    have hout : ¬ path <+: bin := hpath _
    simp only [Tree.rename, hdir, if_neg hout, hparent, hbin, Bool.true_eq_false, if_false]
  have hmoved : (fs.disk.move path bin).get bin = some .dir := by
    rw [Tree.get_move, if_pos (List.prefix_refl _), List.drop_length, List.append_nil, hdir]
  refine ⟨(fs.disk.move path bin).removeUnder bin, ?_, fun q => ?_⟩
  · have hremove : (fs.disk.move path bin).removeAll bin =
        .ok ((fs.disk.move path bin).removeUnder bin) := by
      simp only [Tree.removeAll, hmoved]
    simp only [discard, removeTree, removed]
    rw [hrename]
    simp only [hremove, bin]
  · rw [Tree.get_removeUnder, Tree.get_move]
    by_cases hq : bin <+: q
    · obtain ⟨rest, rfl⟩ := hq
      have hnone : fs.disk.get (bin ++ rest) = none := hemptied _ rest
      rw [if_pos (List.prefix_append _ _), hnone]
      split <;> rfl
    · rw [if_neg hq, if_neg hq]

/-- The names in a directory. -/
theorem listing_dir {path : Path} (h : fs.disk.get path = some .dir) :
    listing path fs = (.ok (fs.disk.children path), fs) := by
  have hread : fs.disk.readDir path = .ok (fs.disk.children path) := by
    simp only [Tree.readDir, h]
  unfold listing
  rw [bind_ok (found_ok hread)]
  rfl

theorem listing_absent {path : Path} (h : fs.disk.get path = none) :
    listing path fs = (.ok [], fs) := by
  have hread : fs.disk.readDir path = .error .notFound := by
    simp only [Tree.readDir, h]
  unfold listing
  rw [bind_ok (found_none hread)]
  rfl

end Steps

/-! ## What the disk holds -/

section Holds

variable [ServerJson]

/-- `server.json` of an envelope. -/
def serverFile (envelope : Envelope) : ServerFile :=
  ⟨envelope.under.map KeyId.asStr, envelope.receivedAt⟩

/-- A staging place on the disk. -/
def PlaceOn (disk : Disk) (u : UploadId) : Option Staged → Prop
  | none => (∀ rest, disk.get (stagedDir u ++ rest) = none) ∧ disk.get (digestFile u) = none
  | some place =>
    disk.get (stagedDir u) = some .dir ∧
    disk.get (stagedDir u ++ ["content"]) = some (.file place.content) ∧
    disk.get (stagedDir u ++ ["meta.json"]) ≠ some .dir ∧
    disk.get (stagedDir u ++ ["server.json"]) ≠ some .dir ∧
    disk.get (digestFile u) = place.digest.map fun digest => .file digest.toBytes

/-- An item on the disk. -/
def ItemOn (disk : Disk) (g : Nat) (id : ItemId) : Option Item → Prop
  | none => ∀ rest, disk.get (itemDir g id ++ rest) = none
  | some item =>
    disk.get (itemDir g id) = some .dir ∧
    disk.get (itemDir g id ++ ["content"]) = some (.file item.content) ∧
    disk.get (itemDir g id ++ ["meta.json"]) = some (.file item.envelope.metaJson) ∧
    disk.get (itemDir g id ++ ["server.json"]) =
      some (.file (ServerJson.toVec (serverFile item.envelope))) ∧
    item.envelope.receivedAt < u64Bound

/-- A generation on the disk: nothing, or its two directories with the items. -/
def GenerationOn (disk : Disk) (g : Nat) (stored : Map ItemId Item) : Prop :=
  (stored = ∅ ∧ ∀ rest, disk.get (generationDir g ++ rest) = none) ∨
  (disk.get (generationDir g) = some .dir ∧ disk.get (items g) = some .dir ∧
    ∀ id, ItemOn disk g id stored[id]?)

/-- The disk holds what the shelf in memory does. -/
structure Holds (disk : Disk) (s : MemoryShelf) : Prop where
  root : disk.get [] = some .dir
  staging : disk.get staging = some .dir
  trash : disk.get trash = some .dir
  emptied : ∀ x rest, disk.get ("trash" :: x :: rest) = none
  /-- Nothing is in a note but its bytes. -/
  notes : ∀ u x rest, disk.get (digestFile u ++ x :: rest) = none
  place : ∀ u, PlaceOn disk u s.staging[u]?
  generation : ∀ g, GenerationOn disk g (s.generation g)
  names : ∀ x node, disk.get [x] = some node →
    x = "staging" ∨ x = "trash" ∨ ∃ g, g < u64Bound ∧ x = generationName g

variable {disk disk' : Disk} {s s' : MemoryShelf} {u v : UploadId} {g k : Nat} {id : ItemId}

omit [ServerJson] in
theorem get_new (process : Nat) (q : Path) :
    (new process).disk.get q =
      if q = [] ∨ q = FsShelf.staging ∨ q = FsShelf.trash then some .dir else none := by
  refine Tree.get_congr fun node => ?_
  simp only [new, List.mem_cons, Prod.mk.injEq, List.not_mem_nil, or_false]
  by_cases hroot : q = []
  · simp [hroot, FsShelf.staging, FsShelf.trash, eq_comm]
  · by_cases hstaging : q = FsShelf.staging
    · simp [hstaging, FsShelf.staging, FsShelf.trash, eq_comm]
    · by_cases htrash : q = FsShelf.trash
      · simp [htrash, FsShelf.staging, FsShelf.trash, eq_comm]
      · simp [hroot, hstaging, htrash]

/-- A new shelf holds nothing. -/
theorem holds_new (process : Nat) : Holds (new process).disk MemoryShelf.empty where
  root := by simp [get_new]
  staging := by simp [get_new]
  trash := by simp [get_new]
  emptied x rest := by simp [get_new, FsShelf.staging, FsShelf.trash]
  notes u x rest := by simp [get_new, digestFile, FsShelf.staging, FsShelf.trash]
  place u := by
    have hnone : MemoryShelf.empty.staging[u]? = none := Std.ExtTreeMap.getElem?_empty
    rw [hnone]
    exact ⟨fun rest => by simp [get_new, stagedDir, FsShelf.staging, FsShelf.trash],
      by simp [get_new, digestFile, FsShelf.staging, FsShelf.trash]⟩
  generation g := by
    refine .inl ⟨MemoryShelf.generation_empty g, fun rest => ?_⟩
    simp [get_new, generationDir, FsShelf.staging, FsShelf.trash]
  names x node hx := by
    rw [get_new] at hx
    split at hx
    · rename_i hwhere
      simp only [FsShelf.staging, FsShelf.trash, List.cons.injEq, and_true, reduceCtorEq,
        false_or] at hwhere
      rcases hwhere with hwhere | hwhere
      · exact .inl hwhere
      · exact .inr (.inl hwhere)
    · cases hx

omit [ServerJson] in
/-- A staging place whose files stay is the same. -/
theorem PlaceOn.congr {place : Option Staged} (h : PlaceOn disk u place)
    (hdir : ∀ rest, disk'.get (stagedDir u ++ rest) = disk.get (stagedDir u ++ rest))
    (hnote : disk'.get (digestFile u) = disk.get (digestFile u)) : PlaceOn disk' u place := by
  have hself := hdir []
  rw [List.append_nil] at hself
  cases place with
  | none => exact ⟨fun rest => by rw [hdir, h.1], by rw [hnote, h.2]⟩
  | some place =>
    obtain ⟨hthere, hcontent, hmeta, hserver, hdigest⟩ := h
    exact ⟨by rw [hself, hthere], by rw [hdir, hcontent], by rwa [hdir], by rwa [hdir],
      by rw [hnote, hdigest]⟩

/-- An item whose files stay is the same. -/
theorem ItemOn.congr {item : Option Item} (h : ItemOn disk g id item)
    (hdir : ∀ rest, disk'.get (itemDir g id ++ rest) = disk.get (itemDir g id ++ rest)) :
    ItemOn disk' g id item := by
  have hself := hdir []
  rw [List.append_nil] at hself
  cases item with
  | none => exact fun rest => by rw [hdir, h]
  | some item =>
    obtain ⟨hthere, hcontent, hmeta, hserver, hbound⟩ := h
    exact ⟨by rw [hself, hthere], by rw [hdir, hcontent], by rw [hdir, hmeta],
      by rw [hdir, hserver],
      hbound⟩

/-- A generation whose files stay is the same. -/
theorem GenerationOn.congr {stored : Map ItemId Item} (h : GenerationOn disk g stored)
    (hdir : ∀ rest, disk'.get (generationDir g ++ rest) = disk.get (generationDir g ++ rest)) :
    GenerationOn disk' g stored := by
  obtain ⟨hempty, hnone⟩ | ⟨hthere, hitems, hitem⟩ := h
  · exact .inl ⟨hempty, fun rest => by rw [hdir, hnone]⟩
  · have hself := hdir []
    have hlist := hdir ["items"]
    rw [List.append_nil] at hself
    refine .inr ⟨by rw [hself, hthere], hlist.trans hitems,
      fun id => (hitem id).congr fun rest => ?_⟩
    exact hdir ("items" :: id.asStr :: rest)

/-- What holds after one staging place and one generation changed. -/
theorem Holds.update (h : Holds disk s) {place : Option Staged} {stored : Map ItemId Item}
    (hsame : ∀ q, ¬ stagedDir u <+: q → q ≠ digestFile u → ¬ generationDir g <+: q →
      disk'.get q = disk.get q)
    (hplace : PlaceOn disk' u place) (hgeneration : GenerationOn disk' g stored)
    (hbound : disk'.get (generationDir g) ≠ none → g < u64Bound)
    (hstaging : ∀ v : UploadId, s'.staging[v]? = if u = v then place else s.staging[v]?)
    (hgenerations : ∀ k, s'.generation k = if g = k then stored else s.generation k) :
    Holds disk' s' where
  root := by
    rw [hsame [] (by simp [stagedDir]) (by simp [digestFile]) (by simp [generationDir]), h.root]
  staging := by
    rw [hsame _ (by simp [stagedDir, FsShelf.staging]) (by simp [digestFile, FsShelf.staging])
      (by simp [generationDir, FsShelf.staging]), h.staging]
  trash := by
    rw [hsame _ (by simp [stagedDir, FsShelf.trash]) (by simp [digestFile, FsShelf.trash])
      (by simp [generationDir, FsShelf.trash]), h.trash]
  emptied x rest := by
    rw [hsame _ (by simp [stagedDir]) (by simp [digestFile]) (by simp [generationDir]), h.emptied]
  notes v x rest := by
    rw [hsame _ (by simp [stagedDir, digestFile]) (by simp [digestFile])
      (by simp [generationDir, digestFile]), h.notes]
  -- the other places lie under directories of other names
  place v := by
    rw [hstaging]
    by_cases hv : u = v
    · subst hv
      rw [if_pos rfl]
      exact hplace
    · rw [if_neg hv]
      refine (h.place v).congr (fun rest => hsame _ ?_ ?_ ?_) (hsame _ ?_ ?_ ?_)
      · simp [stagedDir, hv]
      · simp [stagedDir, digestFile]
      · simp [stagedDir, generationDir]
      · simp [stagedDir, digestFile]
      · simp [digestFile, Ne.symm hv]
      · simp [digestFile, generationDir]
  -- and so do the other generations
  generation k := by
    rw [hgenerations]
    by_cases hk : g = k
    · subst hk
      rw [if_pos rfl]
      exact hgeneration
    · rw [if_neg hk]
      refine (h.generation k).congr fun rest => hsame _ ?_ ?_ ?_
      · simp [stagedDir, generationDir]
      · simp [digestFile, generationDir]
      · simp [generationDir, hk]
  names x node hx := by
    by_cases hg : x = generationName g
    · refine .inr (.inr ⟨g, hbound ?_, hg⟩)
      show disk'.get [generationName g] ≠ none
      rw [← hg, hx]
      simp
    · refine h.names x node ?_
      rw [← hsame [x] (by simp [stagedDir]) (by simp [digestFile])
        (by simp [generationDir, Ne.symm hg])]
      exact hx

/-- What holds after one staging place changed. -/
theorem Holds.updatePlace (h : Holds disk s) (u : UploadId) (place : Option Staged)
    (hsame : ∀ q, ¬ stagedDir u <+: q → q ≠ digestFile u → disk'.get q = disk.get q)
    (hplace : PlaceOn disk' u place)
    (hstaging : ∀ v : UploadId, s'.staging[v]? = if u = v then place else s.staging[v]?)
    (hgenerations : ∀ k, s'.generation k = s.generation k) : Holds disk' s' := by
  refine h.update (g := 0) (fun q hq hnote _ => hsame q hq hnote) hplace
    ((h.generation 0).congr fun rest => hsame _ ?_ ?_) (fun _ => by decide) hstaging ?_
  · simp [stagedDir, generationDir]
  · simp [digestFile, generationDir]
  · intro k
    rw [hgenerations]
    split
    · rename_i hk
      rw [hk]
    · rfl

/-- What holds after one generation changed. -/
theorem Holds.updateGeneration (h : Holds disk s) {stored : Map ItemId Item}
    (hsame : ∀ q, ¬ generationDir g <+: q → disk'.get q = disk.get q)
    (hgeneration : GenerationOn disk' g stored)
    (hbound : disk'.get (generationDir g) ≠ none → g < u64Bound)
    (hstaging : s'.staging = s.staging)
    (hgenerations : ∀ k, s'.generation k = if g = k then stored else s.generation k) :
    Holds disk' s' := by
  refine h.update (u := ⟨0⟩) (fun q _ _ hq => hsame q hq)
    ((h.place ⟨0⟩).congr (fun rest => hsame _ ?_) (hsame _ ?_)) hgeneration hbound ?_ hgenerations
  · simp [stagedDir, generationDir]
  · simp [digestFile, generationDir]
  · intro v
    rw [hstaging]
    split
    · rename_i hv
      rw [hv]
    · rfl

/-! ## Staging -/

/-- A disk that is looked up alike holds the same. -/
theorem Holds.congr (h : Holds disk s) (hsame : ∀ q, disk'.get q = disk.get q) : Holds disk' s :=
  h.updatePlace ⟨0⟩ s.staging[(⟨0⟩ : UploadId)]? (fun q _ _ => hsame q)
    ((h.place ⟨0⟩).congr (fun _ => hsame _) (hsame _))
    (fun v => by
      split
      · rename_i hv
        rw [hv]
      · rfl)
    fun _ => rfl

omit [ServerJson] in
theorem prefix_pair {q : Path} {a b : String} :
    q <+: [a, b] ↔ q = [] ∨ q = [a] ∨ q = [a, b] := by
  rw [← List.mem_inits]
  simp [List.inits]

/-- A staging place is there exactly when its directory is. -/
theorem Holds.isDir_staged (h : Holds disk s) (u : UploadId) :
    disk.isDir (stagedDir u) = s.staging[u]?.isSome := by
  have hplace := h.place u
  cases hu : s.staging[u]? with
  | none =>
    rw [hu] at hplace
    have hnone := hplace.1 []
    rw [List.append_nil] at hnone
    simp [Tree.isDir, hnone]
  | some place =>
    rw [hu] at hplace
    simp [Tree.isDir, hplace.1]

/-- What is at a staging place is a directory or nothing. -/
theorem Holds.notFile_staged (h : Holds disk s) (u : UploadId) :
    disk.isFile (stagedDir u) = false := by
  have hplace := h.place u
  cases hu : s.staging[u]? with
  | none =>
    rw [hu] at hplace
    have hnone := hplace.1 []
    rw [List.append_nil] at hnone
    simp [Tree.isFile, hnone]
  | some place =>
    rw [hu] at hplace
    simp [Tree.isFile, hplace.1]

/-- **`stage_create` does the same to both.** -/
theorem stageCreate_holds {fs : FsShelf} (h : Holds fs.disk s) (u : UploadId) :
    ∃ disk, stageCreate u fs = (.ok (), { fs with disk }) ∧ Holds disk (s.stageCreate u) := by
  have hstaging := h.staging
  have hplace := h.place u
  have hnofile : ∀ q, q <+: stagedDir u → fs.disk.isFile q = false := by
    intro q hq
    rcases prefix_pair.mp hq with rfl | rfl | rfl
    · simp [Tree.isFile, h.root]
    · unfold FsShelf.staging at hstaging
      simp [Tree.isFile, hstaging]
    · exact h.notFile_staged u
  -- `create_dir_all` changes at most the staging place itself
  obtain ⟨made, hmake, hget⟩ := makeDir_ok hnofile
  have hcontent : made.get (stagedDir u ++ ["content"]) =
      fs.disk.get (stagedDir u ++ ["content"]) := by
    rw [hget, if_neg]
    simp [stagedDir]
  cases hu : s.staging[u]? with
  | some place =>
    -- the place is there with its content: all stays
    rw [hu] at hplace
    obtain ⟨hdir, hfile, -⟩ := hplace
    have hthere : look (·.exist (stagedDir u ++ ["content"])) { fs with disk := made } =
        (.ok true, { fs with disk := made }) := by
      simp only [look, Tree.exist, hcontent, hfile, Option.isSome_some]
    refine ⟨made, ?_, ?_⟩
    · unfold stageCreate
      rw [bind_ok hmake, bind_ok hthere]
      rfl
    · have hkept : s.stageCreate u = s := by
        simp only [MemoryShelf.stageCreate, hu]
      rw [hkept]
      refine h.congr fun q => ?_
      rw [hget]
      split
      · rename_i hq
        rcases prefix_pair.mp hq with rfl | rfl | rfl
        · exact h.root.symm
        · exact hstaging.symm
        · exact hdir.symm
      · rfl
  | none =>
    -- no place: an empty content is created in a new one
    rw [hu] at hplace
    obtain ⟨hnone, hnote⟩ := hplace
    have hthere : look (·.exist (stagedDir u ++ ["content"])) { fs with disk := made } =
        (.ok false, { fs with disk := made }) := by
      simp only [look, Tree.exist, hcontent, hnone, Option.isSome_none]
    have hdir : made.get (stagedDir u) = some .dir := by
      rw [hget, if_pos (List.prefix_refl _)]
    have hnodir : made.get (stagedDir u ++ ["content"]) ≠ some .dir := by
      rw [hcontent, hnone]
      simp
    obtain ⟨created, hcreate, hset⟩ := @createFile_ok { fs with disk := made } _ _ hdir hnodir
    have hafter : ∀ q, created.get q = if stagedDir u ++ ["content"] = q then some (.file [])
        else if q <+: stagedDir u then some .dir else fs.disk.get q := by
      intro q
      rw [hset, hget]
    refine ⟨created, ?_, ?_⟩
    · unfold stageCreate
      rw [bind_ok hmake, bind_ok hthere]
      exact hcreate
    · refine h.updatePlace u _ ?_ ?_ (s.stageCreate_staging u) fun k => s.stageCreate_generation u k
      · intro q hq _
        rw [hafter, if_neg]
        · split
          · rename_i hpre
            rcases prefix_pair.mp hpre with rfl | rfl | rfl
            · exact h.root.symm
            · exact hstaging.symm
            · exact absurd (List.prefix_refl _) hq
          · rfl
        · rintro rfl
          exact hq (List.prefix_append _ _)
      · rw [hu]
        refine ⟨?_, ?_, ?_, ?_, ?_⟩
        · rw [hafter, if_neg (by simp [stagedDir]), if_pos (List.prefix_refl _)]
        · rw [hafter, if_pos rfl]
          rfl
        · rw [hafter, if_neg (by simp [stagedDir]), if_neg (by simp [stagedDir]), hnone]
          simp
        · rw [hafter, if_neg (by simp [stagedDir]), if_neg (by simp [stagedDir]), hnone]
          simp
        · rw [hafter, if_neg (by simp [stagedDir, digestFile]),
            if_neg (by simp [stagedDir, digestFile]), hnote]
          rfl

/-- What a write leaves in a staging place. -/
def left [Crates] (hashed : Bool) (sunk : List Bytes) (written : Except ApiError Nat) : Staged :=
  match written with
  | .ok _ => ⟨sunk.flatten, if hashed then some (Crates.sha256 sunk.flatten) else none⟩
  | .error _ => ⟨[], none⟩

omit [ServerJson] in
theorem memory_write_present [Crates] {place : Staged} (hu : s.staging[u]? = some place)
    {content : Source} {announced : Nat} {hashed : Bool} {written : Except ApiError Nat}
    {sunk : List Bytes} (hpump : pump announced content 0 = (written, sunk)) :
    s.write u content announced hashed =
      (written, { s with staging := s.staging.insert u (left hashed sunk written) }) := by
  have hthere : s.staging.contains u = true := Map.contains_iff_get.mpr ⟨place, hu⟩
  simp only [MemoryShelf.write, hthere, if_true, hpump]
  rfl

omit [ServerJson] in
theorem memory_write_absent [Crates] (hu : s.staging[u]? = none) (content : Source)
    (announced : Nat) (hashed : Bool) :
    s.write u content announced hashed = (.error .notFound, s) := by
  have hnone : s.staging.contains u = false := Map.contains_eq_false_iff.mpr hu
  simp only [MemoryShelf.write, hnone, Bool.false_eq_true, if_false]

/-- A staging place that was written anew. -/
theorem Holds.written (h : Holds disk s) (next : Staged) {place : Staged}
    (hu : s.staging[u]? = some place)
    (hcontent : disk'.get (stagedDir u ++ ["content"]) = some (.file next.content))
    (hnote : disk'.get (digestFile u) = next.digest.map fun digest => .file digest.toBytes)
    (hsame : ∀ q, q ≠ stagedDir u ++ ["content"] → q ≠ digestFile u → disk'.get q = disk.get q) :
    Holds disk' { s with staging := s.staging.insert u next } := by
  have hplace := h.place u
  rw [hu] at hplace
  obtain ⟨hdir, -, hmeta, hserver, -⟩ := hplace
  refine h.updatePlace u (some next) ?_ ⟨?_, hcontent, ?_, ?_, hnote⟩ ?_ fun _ => rfl
  · intro q hq hnote
    refine hsame q ?_ hnote
    rintro rfl
    exact hq (List.prefix_append _ _)
  · rw [hsame _ (by simp [stagedDir]) (by simp [stagedDir, digestFile]), hdir]
  · rwa [hsame _ (by simp [stagedDir]) (by simp [stagedDir, digestFile])]
  · rwa [hsame _ (by simp [stagedDir]) (by simp [stagedDir, digestFile])]
  · intro v
    exact Map.get_insert _ _ _ _

/-- The steps by which a stream takes the place of what was staged: the note goes, the
content is emptied, and the pieces follow. -/
theorem Holds.sunk {fs : FsShelf} (h : Holds fs.disk s) {place : Staged}
    (hu : s.staging[u]? = some place) (sunk : List Bytes) :
    ∃ bare opened disk, removeDigest u fs = (.ok (), { fs with disk := bare }) ∧
      createFile (stagedDir u ++ ["content"]) { fs with disk := bare } =
        (.ok (), { fs with disk := opened }) ∧
      sink (stagedDir u ++ ["content"]) sunk { fs with disk := opened } =
        (.ok (), { fs with disk }) ∧
      ∀ q, disk.get q = if stagedDir u ++ ["content"] = q then some (.file sunk.flatten)
        else if digestFile u = q then none else fs.disk.get q := by
  have hplace := h.place u
  rw [hu] at hplace
  obtain ⟨hdir, hfile, -, -, hnote⟩ := hplace
  have hnotdir : fs.disk.get (digestFile u) ≠ some .dir := by
    rw [hnote]
    cases place.digest <;> simp
  obtain ⟨bare, hremove, hbare⟩ := unlink_ok hnotdir (h.notes u)
  have hdir' : bare.get (stagedDir u) = some .dir := by
    rw [hbare, if_neg (by simp [stagedDir, digestFile]), hdir]
  have hfile' : bare.get (stagedDir u ++ ["content"]) ≠ some .dir := by
    rw [hbare, if_neg (by simp [stagedDir, digestFile]), hfile]
    simp
  obtain ⟨opened, hcreate, hopened⟩ := @createFile_ok { fs with disk := bare } _ _ hdir' hfile'
  have hempty : opened.get (stagedDir u ++ ["content"]) = some (.file []) := by
    rw [hopened, if_pos rfl]
  obtain ⟨disk, hsink, hsunken⟩ := @sink_ok { fs with disk := opened } _ sunk _ hempty
  refine ⟨bare, opened, disk, hremove, hcreate, hsink, fun q => ?_⟩
  rw [hsunken, hopened]
  split
  · rfl
  · exact hbare q

/-- **`stage_write` and `stage_write_hashed` do the same to both.** -/
theorem write_holds [Crates] {fs : FsShelf} (h : Holds fs.disk s) (u : UploadId) (content : Source)
    (announced : Nat) (hashed : Bool) :
    ∃ disk, write u content announced hashed fs =
        ((s.write u content announced hashed).1, { fs with disk }) ∧
      Holds disk (s.write u content announced hashed).2 := by
  have hthere : look (·.isDir (stagedDir u)) fs = (.ok s.staging[u]?.isSome, fs) := by
    simp only [look, h.isDir_staged]
  cases hu : s.staging[u]? with
  | none =>
    -- without a staging place a put is refused
    rw [hu] at hthere
    rw [memory_write_absent hu]
    refine ⟨fs.disk, ?_, h⟩
    unfold write
    rw [bind_ok hthere]
    rfl
  | some place =>
    rw [hu] at hthere
    rcases hpump : pump announced content 0 with ⟨written, sunk⟩
    -- the note of an earlier put goes before the content is opened
    obtain ⟨bare, opened, sunken, hremove, hcreate, hsink, hall⟩ := h.sunk hu sunk
    rw [memory_write_present hu hpump]
    unfold write
    rw [bind_ok hthere]
    simp only [Option.isSome_some, Bool.not_true, Bool.false_eq_true, if_false]
    rw [bind_ok hremove, bind_ok hcreate, hpump]
    simp only
    rw [bind_ok hsink]
    cases written with
    | error e =>
      -- a put that fails empties the content
      have htruncate :
          change (·.truncate (stagedDir u ++ ["content"]) 0) { fs with disk := sunken } =
          (.ok (), { fs with disk := sunken.set (stagedDir u ++ ["content"]) (.file []) }) := by
        refine change_ok ?_
        simp only [Tree.truncate, hall, if_true, List.take_zero]
      refine ⟨sunken.set (stagedDir u ++ ["content"]) (.file []), ?_, ?_⟩
      · simp only
        rw [bind_ok htruncate]
        rfl
      · refine h.written ⟨[], none⟩ hu ?_ ?_ ?_
        · rw [Tree.get_set, if_pos rfl]
        · rw [Tree.get_set, if_neg (by simp [stagedDir, digestFile]), hall,
            if_neg (by simp [stagedDir, digestFile]), if_pos rfl]
          rfl
        · intro q hq hq'
          rw [Tree.get_set, if_neg (Ne.symm hq), hall, if_neg (Ne.symm hq), if_neg (Ne.symm hq')]
    | ok total =>
      -- one that succeeds leaves a note of its own if it hashed
      cases hashed with
      | false =>
        refine ⟨sunken, rfl, ?_⟩
        refine h.written ⟨sunk.flatten, none⟩ hu ?_ ?_ ?_
        · rw [hall, if_pos rfl]
        · rw [hall, if_neg (by simp [stagedDir, digestFile]), if_pos rfl]
          rfl
        · intro q hq hq'
          rw [hall, if_neg (Ne.symm hq), if_neg (Ne.symm hq')]
      | true =>
        have hstaging : sunken.get FsShelf.staging = some .dir := by
          rw [hall, if_neg (by simp [stagedDir, FsShelf.staging]),
            if_neg (by simp [digestFile, FsShelf.staging]), h.staging]
        have hnothing : sunken.get (FsShelf.staging ++ [digestName u]) ≠ some .dir := by
          show sunken.get (digestFile u) ≠ some .dir
          rw [hall, if_neg (by simp [stagedDir, digestFile]), if_pos rfl]
          simp
        obtain ⟨noted, hwrite, hnoted⟩ := @writeFile_ok { fs with disk := sunken } _ _
          (Crates.sha256 sunk.flatten).toBytes hstaging hnothing
        refine ⟨noted, ?_, ?_⟩
        · simp only [if_true]
          rw [show digestFile u = FsShelf.staging ++ [digestName u] from rfl, bind_ok hwrite]
          rfl
        · refine h.written ⟨sunk.flatten, some (Crates.sha256 sunk.flatten)⟩ hu ?_ ?_ ?_
          · rw [hnoted, if_neg (by simp [stagedDir, FsShelf.staging]), hall, if_pos rfl]
          · rw [hnoted]
            exact if_pos rfl
          · intro q hq hq'
            have hout : FsShelf.staging ++ [digestName u] ≠ q := Ne.symm hq'
            rw [hnoted, if_neg hout, hall, if_neg (Ne.symm hq), if_neg (Ne.symm hq')]

/-- **`stage_digest` answers the same.** -/
theorem stageDigest_holds {fs : FsShelf} (h : Holds fs.disk s) (u : UploadId) :
    stageDigest u fs = (.ok (s.stageDigest u), fs) := by
  have hplace := h.place u
  unfold stageDigest MemoryShelf.stageDigest
  cases hu : s.staging[u]? with
  | none =>
    rw [hu] at hplace
    rw [bind_ok (found_none (read_absent hplace.2))]
    rfl
  | some place =>
    rw [hu] at hplace
    obtain ⟨-, -, -, -, hnote⟩ := hplace
    cases hdigest : place.digest with
    | none =>
      rw [hdigest, Option.map_none] at hnote
      rw [bind_ok (found_none (read_absent hnote)), Option.bind_some, hdigest]
      rfl
    | some digest =>
      rw [hdigest, Option.map_some] at hnote
      rw [bind_ok (found_ok (read_file hnote)), Option.bind_some, ofBytes_toBytes, Option.bind_some,
        hdigest]
      rfl

/-- **`stage_size` answers the same.** -/
theorem stageSize_holds {fs : FsShelf} (h : Holds fs.disk s) (u : UploadId) :
    stageSize u fs = (.ok (s.stageSize u), fs) := by
  have hplace := h.place u
  unfold stageSize MemoryShelf.stageSize
  cases hu : s.staging[u]? with
  | none =>
    rw [hu] at hplace
    rw [bind_ok (found_none (read_absent (hplace.1 _)))]
    rfl
  | some place =>
    rw [hu] at hplace
    rw [bind_ok (found_ok (read_file hplace.2.1))]
    rfl

/-- **`stage_remove` does the same to both.** -/
theorem stageRemove_holds {fs : FsShelf} (h : Holds fs.disk s) (u : UploadId) :
    ∃ disk, stageRemove u fs = (.ok (), { fs with disk, trashed := fs.trashed + 1 }) ∧
      Holds disk (s.stageRemove u) := by
  have hplace := h.place u
  -- both ways, nothing is under the staging place once its directory is discarded
  have hdiscard : ∃ there disk, discard (stagedDir u) fs =
      (.ok there, { fs with disk, trashed := fs.trashed + 1 }) ∧
      ∀ q, disk.get q = if stagedDir u <+: q then none else fs.disk.get q := by
    cases hu : s.staging[u]? with
    | none =>
      rw [hu] at hplace
      have hnone := hplace.1 []
      rw [List.append_nil] at hnone
      refine ⟨false, fs.disk, discard_absent hnone, fun q => ?_⟩
      split
      · rename_i hq
        obtain ⟨rest, rfl⟩ := hq
        exact hplace.1 rest
      · rfl
    | some place =>
      rw [hu] at hplace
      obtain ⟨disk, hdiscard, hget⟩ := discard_ok hplace.1 (by simp [stagedDir]) h.trash h.emptied
      exact ⟨true, disk, hdiscard, hget⟩
  obtain ⟨there, bare, hdiscard, hbare⟩ := hdiscard
  have hnote : bare.get (digestFile u) ≠ some .dir := by
    rw [hbare, if_neg (by simp [stagedDir, digestFile])]
    cases hu : s.staging[u]? with
    | none =>
      rw [hu] at hplace
      rw [hplace.2]
      simp
    | some place =>
      rw [hu] at hplace
      obtain ⟨-, -, -, -, hnote⟩ := hplace
      rw [hnote]
      cases place.digest <;> simp
  have hnotes : ∀ x rest, bare.get (digestFile u ++ x :: rest) = none := by
    intro x rest
    rw [hbare, if_neg (by simp [stagedDir, digestFile]), h.notes]
  obtain ⟨disk, hremove, hget⟩ := @unlink_ok
    { fs with disk := bare, trashed := fs.trashed + 1 } _ hnote hnotes
  refine ⟨disk, ?_, ?_⟩
  · unfold stageRemove
    rw [bind_ok hdiscard]
    exact hremove
  · refine h.updatePlace u none ?_ ⟨?_, ?_⟩ (s.stageRemove_staging u) fun _ => rfl
    · intro q hq hq'
      rw [hget, if_neg (Ne.symm hq'), hbare, if_neg hq]
    · intro rest
      rw [hget, if_neg (by simp [stagedDir, digestFile]), hbare, if_pos (List.prefix_append _ _)]
    · rw [hget, if_pos rfl]

omit [ServerJson] in
/-- Two lists with the same members, each in order and without repetition, are equal. -/
theorem insertionSort_eq {α : Type} [LinearOrder α] {l keys : List α} (hnodup : l.Nodup)
    (hkeys : keys.Pairwise (· < ·)) (hmem : ∀ a, a ∈ l ↔ a ∈ keys) :
    l.insertionSort (· ≤ ·) = keys := by
  have hsame : (l.insertionSort (· ≤ ·)).Perm keys := by
    refine (List.perm_insertionSort _ l).trans ?_
    refine (List.perm_ext_iff_of_nodup hnodup ?_).mpr hmem
    exact hkeys.imp fun h => ne_of_lt h
  exact hsame.eq_of_pairwise' (List.pairwise_insertionSort _ l) (hkeys.imp fun h => le_of_lt h)

omit [ServerJson] in
/-- The keys of a map are in order. -/
theorem keys_pairwise {K V : Type} [LinearOrder K] [Std.LawfulEqOrd K] (m : Map K V) :
    m.keys.Pairwise (· < ·) :=
  Std.ExtTreeMap.ordered_keys.imp fun h => compare_lt_iff_lt.mp h

omit [ServerJson] in
/-- An id among names: the name is its text. -/
theorem parsedName_eq_some {α : Type} {parse : String → Except ApiError α} {asStr : α → String}
    (hparse : ∀ {name a}, parse name = .ok a → asStr a = name)
    (hback : ∀ a, parse (asStr a) = .ok a) {name : String} {a : α} :
    parsedName parse name = some a ↔ name = asStr a := by
  unfold parsedName
  constructor
  · intro h
    cases hname : parse name with
    | error e =>
      rw [hname] at h
      cases h
    | ok b =>
      rw [hname] at h
      cases h
      exact (hparse hname).symm
  · rintro rfl
    rw [hback]
    rfl

omit [ServerJson] in
/-- The ids among different names are different, and are those whose texts are there. -/
theorem parsed_names {α : Type} {parse : String → Except ApiError α} {asStr : α → String}
    (hparse : ∀ {name a}, parse name = .ok a → asStr a = name)
    (hback : ∀ a, parse (asStr a) = .ok a) {names : List String} (hnodup : names.Nodup) :
    (names.filterMap (parsedName parse)).Nodup ∧
      ∀ a, a ∈ names.filterMap (parsedName parse) ↔ asStr a ∈ names := by
  constructor
  · refine hnodup.filterMap fun a b id ha hb => ?_
    rw [(parsedName_eq_some hparse hback).mp ha, (parsedName_eq_some hparse hback).mp hb]
  · intro a
    rw [List.mem_filterMap]
    constructor
    · rintro ⟨name, hname, ha⟩
      rw [← (parsedName_eq_some hparse hback).mp ha]
      exact hname
    · intro ha
      exact ⟨_, ha, (parsedName_eq_some hparse hback).mpr rfl⟩

/-- **`staged` answers the same.** -/
theorem staged_holds {fs : FsShelf} (h : Holds fs.disk s) : staged fs = (.ok s.staged, fs) := by
  obtain ⟨hnodup, hmem⟩ := parsed_names UploadId.of_parse UploadId.parse_asStr
    (fs.disk.nodup_children FsShelf.staging)
  have hkeys : ∀ u, u ∈ (fs.disk.children FsShelf.staging).filterMap (parsedName UploadId.parse) ↔
      u ∈ s.staging.keys := by
    intro u
    have hplace := h.place u
    rw [hmem, Tree.mem_children, Map.mem_keys_iff]
    show (∃ node, fs.disk.get (stagedDir u) = some node) ↔ _
    cases hu : s.staging[u]? with
    | none =>
      rw [hu] at hplace
      have hnone := hplace.1 []
      rw [List.append_nil] at hnone
      simp [hnone]
    | some place =>
      rw [hu] at hplace
      simp [hplace.1]
  unfold staged
  rw [bind_ok (listing_dir h.staging)]
  show (Except.ok _, fs) = (Except.ok s.staging.keys, fs)
  rw [insertionSort_eq hnodup (keys_pairwise s.staging) hkeys]

/-! ## Publishing -/

/-- The first steps of a publish: the envelope's files go beside the content. -/
theorem Holds.enveloped {fs : FsShelf} (h : Holds fs.disk s) {place : Staged}
    (hu : s.staging[u]? = some place) (metaJson server : Bytes) :
    ∃ described disk,
      writeFile (stagedDir u ++ ["meta.json"]) metaJson fs =
        (.ok (), { fs with disk := described }) ∧
      writeFile (stagedDir u ++ ["server.json"]) server { fs with disk := described } =
        (.ok (), { fs with disk }) ∧
      ∀ q, disk.get q = if stagedDir u ++ ["server.json"] = q then some (.file server)
        else if stagedDir u ++ ["meta.json"] = q then some (.file metaJson) else fs.disk.get q := by
  have hplace := h.place u
  rw [hu] at hplace
  obtain ⟨hdir, -, hmeta, hserver, -⟩ := hplace
  obtain ⟨described, hwrite, hdescribed⟩ := writeFile_ok metaJson hdir hmeta
  have hdir' : described.get (stagedDir u) = some .dir := by
    rw [hdescribed, if_neg (by simp [stagedDir]), hdir]
  have hserver' : described.get (stagedDir u ++ ["server.json"]) ≠ some .dir := by
    rwa [hdescribed, if_neg (by simp [stagedDir])]
  obtain ⟨disk, hwrite', hget⟩ :=
    @writeFile_ok { fs with disk := described } _ _ server hdir' hserver'
  refine ⟨described, disk, hwrite, hwrite', fun q => ?_⟩
  rw [hget]
  split
  · rfl
  · exact hdescribed q

/-- Nothing but directories is on the way to a generation's items. -/
theorem notFile_items (hroot : disk.get [] = some .dir) {stored : Map ItemId Item}
    (h : GenerationOn disk g stored) : ∀ q, q <+: items g → disk.isFile q = false := by
  intro q hq
  rcases prefix_pair.mp hq with rfl | rfl | rfl
  · simp [Tree.isFile, hroot]
  · obtain ⟨-, hnone⟩ | ⟨hdir, -, -⟩ := h
    · have hnone' : disk.get [generationName g] = none := hnone []
      simp [Tree.isFile, hnone']
    · have hdir' : disk.get [generationName g] = some .dir := hdir
      simp [Tree.isFile, hdir']
  · obtain ⟨-, hnone⟩ | ⟨-, hitems, -⟩ := h
    · have hnone' : disk.get [generationName g, "items"] = none := hnone ["items"]
      simp [Tree.isFile, hnone']
    · have hitems' : disk.get [generationName g, "items"] = some .dir := hitems
      simp [Tree.isFile, hitems']

/-- What is at an item's place, whatever the generation has. -/
theorem GenerationOn.item {stored : Map ItemId Item} (h : GenerationOn disk g stored)
    (id : ItemId) : ItemOn disk g id stored[id]? := by
  obtain ⟨rfl, hnone⟩ | ⟨-, -, hitem⟩ := h
  · rw [Std.ExtTreeMap.getElem?_empty]
    intro rest
    exact hnone ("items" :: id.asStr :: rest)
  · exact hitem id

/-- The disk of a publish before its rename. -/
structure Ready (disk ready : Disk) (u : UploadId) (g : Nat) (envelope : Envelope) : Prop where
  get : ∀ q, ready.get q = if q <+: items g then some .dir
    else if stagedDir u ++ ["server.json"] = q then
      some (.file (ServerJson.toVec (serverFile envelope)))
    else if stagedDir u ++ ["meta.json"] = q then some (.file envelope.metaJson)
    else disk.get q

/-- A publish up to the rename: the envelope is written and the generation's directories
are there. -/
theorem Holds.readied {fs : FsShelf} (h : Holds fs.disk s) {place : Staged}
    (hu : s.staging[u]? = some place) (g : Nat) (envelope : Envelope) :
    ∃ described written ready,
      writeFile (stagedDir u ++ ["meta.json"]) envelope.metaJson fs =
        (.ok (), { fs with disk := described }) ∧
      writeFile (stagedDir u ++ ["server.json"]) (ServerJson.toVec (serverFile envelope))
        { fs with disk := described } = (.ok (), { fs with disk := written }) ∧
      syncDir (stagedDir u) { fs with disk := written } = (.ok (), { fs with disk := written }) ∧
      makeDir (items g) { fs with disk := written } = (.ok (), { fs with disk := ready }) ∧
      Ready fs.disk ready u g envelope := by
  obtain ⟨described, written, hmeta, hserver, hwritten⟩ :=
    h.enveloped hu envelope.metaJson (ServerJson.toVec (serverFile envelope))
  have hplace := h.place u
  rw [hu] at hplace
  have hdir : written.get (stagedDir u) = some .dir := by
    rw [hwritten, if_neg (by simp [stagedDir]), if_neg (by simp [stagedDir]), hplace.1]
  have hroot : written.get [] = some .dir := by
    rw [hwritten, if_neg (by simp [stagedDir]), if_neg (by simp [stagedDir]), h.root]
  have hgeneration : GenerationOn written g (s.generation g) := by
    refine (h.generation g).congr fun rest => ?_
    rw [hwritten, if_neg (by simp [stagedDir, generationDir]),
      if_neg (by simp [stagedDir, generationDir])]
  obtain ⟨ready, hmake, hget⟩ :=
    @makeDir_ok { fs with disk := written } _ (notFile_items hroot hgeneration)
  refine ⟨described, written, ready, hmeta, hserver, syncDir_ok hdir, hmake, ⟨fun q => ?_⟩⟩
  rw [hget]
  split
  · rfl
  · exact hwritten q

namespace Ready

variable {ready : Disk} {envelope : Envelope} (hready : Ready disk ready u g envelope)

include hready

/-- Away from the staging place and the generation, nothing changed. -/
theorem get_other (hroot : disk.get [] = some .dir) {q : Path} (hq : ¬ stagedDir u <+: q)
    (hgeneration : ¬ generationDir g <+: q) : ready.get q = disk.get q := by
  rw [hready.get]
  by_cases hpre : q <+: items g
  · rcases prefix_pair.mp hpre with rfl | rfl | rfl
    · rw [if_pos hpre, hroot]
    · exact absurd (List.prefix_refl _) hgeneration
    · exact absurd (by simp [generationDir]) hgeneration
  · rw [if_neg hpre, if_neg, if_neg]
    · rintro rfl
      exact hq (List.prefix_append _ _)
    · rintro rfl
      exact hq (List.prefix_append _ _)

/-- An item of the generation is as it was. -/
theorem get_item (id : ItemId) (rest : Path) :
    ready.get (itemDir g id ++ rest) = disk.get (itemDir g id ++ rest) := by
  rw [hready.get, if_neg (by simp [items, itemDir]), if_neg (by simp [stagedDir, itemDir]),
    if_neg (by simp [stagedDir, itemDir])]

theorem get_items : ready.get (items g) = some .dir := by
  rw [hready.get, if_pos (List.prefix_refl _)]

theorem get_generationDir : ready.get (generationDir g) = some .dir := by
  rw [hready.get, if_pos (by simp [items, generationDir])]

/-- The staging place has what it had, and the envelope. -/
theorem get_staged {place : Staged} (hplace : PlaceOn disk u (some place)) :
    ready.get (stagedDir u) = some .dir ∧
    ready.get (stagedDir u ++ ["content"]) = some (.file place.content) ∧
    ready.get (stagedDir u ++ ["meta.json"]) = some (.file envelope.metaJson) ∧
    ready.get (stagedDir u ++ ["server.json"]) =
      some (.file (ServerJson.toVec (serverFile envelope))) ∧
    ready.get (digestFile u) = place.digest.map fun digest => .file digest.toBytes := by
  obtain ⟨hdir, hcontent, -, -, hnote⟩ := hplace
  refine ⟨?_, ?_, ?_, ?_, ?_⟩
  · rw [hready.get, if_neg (by simp [items, stagedDir]), if_neg (by simp [stagedDir]),
      if_neg (by simp [stagedDir]), hdir]
  · rw [hready.get, if_neg (by simp [items, stagedDir]), if_neg (by simp [stagedDir]),
      if_neg (by simp [stagedDir]), hcontent]
  · rw [hready.get, if_neg (by simp [items, stagedDir]), if_neg (by simp [stagedDir]), if_pos rfl]
  · rw [hready.get, if_neg (by simp [items, stagedDir]), if_pos rfl]
  · rw [hready.get, if_neg (by simp [items, digestFile]), if_neg (by simp [stagedDir, digestFile]),
      if_neg (by simp [stagedDir, digestFile]), hnote]

/-- The rename finds its source, and the directory it goes to. -/
theorem rename_eq {place : Staged} (hplace : PlaceOn disk u (some place)) (id : ItemId) :
    ready.rename (stagedDir u) (itemDir g id) =
      match disk.get (itemDir g id) with
      | some (.file _) => .error .notADirectory
      | some .dir =>
        if ready.children (itemDir g id) = [] then .ok (ready.move (stagedDir u) (itemDir g id))
        else .error .directoryNotEmpty
      | none => .ok (ready.move (stagedDir u) (itemDir g id)) := by
  have hsrc := (hready.get_staged hplace).1
  have hout : ¬ stagedDir u <+: itemDir g id := by simp [stagedDir, itemDir]
  have hparent : ready.isDir (itemDir g id).dropLast = true := by
    show ready.isDir (items g) = true
    simp only [Tree.isDir, hready.get_items]
  have hdst := hready.get_item id []
  simp only [List.append_nil] at hdst
  simp only [Tree.rename, hsrc, if_neg hout, hparent, Bool.true_eq_false, if_false, hdst]
  cases disk.get (itemDir g id) with
  | none => rfl
  | some node => cases node <;> rfl

end Ready

/-- An item that is there keeps its place from a publish: the rename is refused, and
what holds is what held. -/
theorem Holds.kept {ready : Disk} {envelope : Envelope} (h : Holds disk s)
    (hready : Ready disk ready u g envelope) {place : Staged} (hu : s.staging[u]? = some place)
    {item : Item} (hitem : (s.generation g)[id]? = some item) (hg : g < u64Bound) :
    ready.rename (stagedDir u) (itemDir g id) = .error .directoryNotEmpty ∧ Holds ready s := by
  have hplace := h.place u
  rw [hu] at hplace
  have hon := (h.generation g).item id
  rw [hitem] at hon
  obtain ⟨hdir, hcontent, -⟩ := hon
  obtain ⟨hstaged, hfile, hmeta, hserver, hnote⟩ := hready.get_staged hplace
  constructor
  · have hchild : "content" ∈ ready.children (itemDir g id) := by
      rw [Tree.mem_children, hready.get_item, hcontent]
      exact ⟨_, rfl⟩
    rw [hready.rename_eq hplace, hdir]
    exact if_neg (List.ne_nil_of_mem hchild)
  · refine h.update (u := u) (g := g) (fun q hq _ hq' => hready.get_other h.root hq hq')
      ((?_ : PlaceOn ready u (some place))) ((?_ : GenerationOn ready g (s.generation g)))
      (fun _ => hg) ?_ ?_
    · refine ⟨hstaged, hfile, ?_, ?_, hnote⟩
      · rw [hmeta]
        simp
      · rw [hserver]
        simp
    · refine .inr ⟨hready.get_generationDir, hready.get_items, fun other => ?_⟩
      exact ((h.generation g).item other).congr (hready.get_item other)
    · intro v
      split
      · rename_i hv
        rw [← hv, hu]
      · rfl
    · intro k
      split
      · rename_i hk
        rw [hk]
      · rfl

/-- A publish that succeeded: the staging directory is the item's. -/
theorem Holds.renamed {ready final : Disk} {envelope : Envelope} (h : Holds disk s)
    (hready : Ready disk ready u g envelope) {place : Staged} (hu : s.staging[u]? = some place)
    (hg : g < u64Bound) (henvelope : envelope.receivedAt < u64Bound)
    (hfinal : ∀ q, final.get q = if digestFile u = q then none
      else (ready.move (stagedDir u) (itemDir g id)).get q) :
    Holds final
      { staging := s.staging.erase u
        items := s.items.insert g ((s.generation g).insert id ⟨place.content, envelope⟩) } := by
  have hplace := h.place u
  rw [hu] at hplace
  obtain ⟨hstaged, hfile, hmeta, hserver, -⟩ := hready.get_staged hplace
  -- the item is what the staging place was, and the rest is as it was made ready
  have hmoved : ∀ rest, final.get (itemDir g id ++ rest) = ready.get (stagedDir u ++ rest) := by
    intro rest
    rw [hfinal, if_neg (by simp [digestFile, itemDir]), Tree.get_move,
      if_pos (List.prefix_append _ _), List.drop_left]
  have hother : ∀ q, digestFile u ≠ q → ¬ itemDir g id <+: q → ¬ stagedDir u <+: q →
      final.get q = ready.get q := by
    intro q hq hq' hq''
    rw [hfinal, if_neg hq, Tree.get_move, if_neg hq', if_neg hq'']
  refine h.update (u := u) (g := g) (fun q hq hq' hq'' => ?_) ((?_ : PlaceOn final u none))
    ((?_ : GenerationOn final g ((s.generation g).insert id ⟨place.content, envelope⟩)))
    (fun _ => hg) (fun v => Map.get_erase _ _ _) ?_
  · rw [hother q (Ne.symm hq'), hready.get_other h.root hq hq'']
    · intro hpre
      exact hq'' (List.IsPrefix.trans (by simp [generationDir, itemDir]) hpre)
    · exact hq
  -- neither the place nor its note is left
  · refine ⟨fun rest => ?_, ?_⟩
    · rw [hfinal, if_neg (by simp [digestFile, stagedDir]), Tree.get_move,
        if_neg (by simp [itemDir, stagedDir]), if_pos (List.prefix_append _ _)]
    · rw [hfinal, if_pos rfl]
  -- the generation has the item, and its other items
  · refine .inr ⟨?_, ?_, fun other => ?_⟩
    · rw [hother _ (by simp [digestFile, generationDir]) (by simp [itemDir, generationDir])
        (by simp [stagedDir, generationDir]), hready.get_generationDir]
    · rw [hother _ (by simp [digestFile, items]) (by simp [itemDir, items])
        (by simp [stagedDir, items]), hready.get_items]
    · rw [Map.get_insert]
      by_cases heq : id = other
      · subst heq
        have hself := hmoved []
        simp only [List.append_nil] at hself
        rw [if_pos rfl]
        refine ⟨?_, ?_, ?_, ?_, henvelope⟩
        · rw [hself, hstaged]
        · rw [hmoved, hfile]
        · rw [hmoved, hmeta]
        · rw [hmoved, hserver]
      · rw [if_neg heq]
        refine ((h.generation g).item other).congr fun rest => ?_
        rw [hother _ (by simp [digestFile, itemDir]) (by simp [itemDir, heq])
          (by simp [stagedDir, itemDir]), hready.get_item]
  · intro k
    unfold MemoryShelf.generation
    rw [Map.get_insert]
    split <;> rfl

/-- What `publish` does once it has tried the rename. -/
def renamed (u : UploadId) (g : Nat) (outcome : Except DiskError Disk) : Steps Bool :=
  match outcome with
  | .ok disk => do
    change fun _ => .ok disk
    removeDigest u
    syncDir (items g)
    syncDir FsShelf.staging
    return true
  | .error .directoryNotEmpty => return false
  | .error _ => throw .serviceUnavailable

/-- **`publish` does the same to both.** -/
theorem publish_holds {fs : FsShelf} (h : Holds fs.disk s) (u : UploadId) (id : ItemId)
    {envelope : Envelope} (hg : g < u64Bound) (henvelope : envelope.receivedAt < u64Bound) :
    ∃ disk, publish u g id envelope fs = ((s.publish u g id envelope).1, { fs with disk }) ∧
      Holds disk (s.publish u g id envelope).2 := by
  have hthere : look (·.isDir (stagedDir u)) fs = (.ok s.staging[u]?.isSome, fs) := by
    simp only [look, h.isDir_staged]
  cases hu : s.staging[u]? with
  | none =>
    -- the staging place is gone: nothing is published
    rw [hu] at hthere
    refine ⟨fs.disk, ?_, ?_⟩
    · unfold publish
      rw [bind_ok hthere]
      simp only [MemoryShelf.publish, hu]
      rfl
    · simp only [MemoryShelf.publish, hu]
      exact h
  | some place =>
    rw [hu] at hthere
    have hplace := h.place u
    rw [hu] at hplace
    -- meta.json and server.json are written, then the item's directory is made
    obtain ⟨described, written, ready, hmeta, hserver, hsync, hmake, hready⟩ :=
      h.readied hu g envelope
    have hsteps : publish u g id envelope fs =
        renamed u g (ready.rename (stagedDir u) (itemDir g id)) { fs with disk := ready } := by
      unfold publish
      rw [bind_ok hthere]
      simp only [Option.isSome_some, Bool.not_true, Bool.false_eq_true, if_false]
      have hlook : look (·.rename (stagedDir u) (itemDir g id)) { fs with disk := ready } =
          (.ok (ready.rename (stagedDir u) (itemDir g id)), { fs with disk := ready }) := rfl
      have hserver' : writeFile (stagedDir u ++ ["server.json"])
          (ServerJson.toVec ⟨envelope.under.map KeyId.asStr, envelope.receivedAt⟩)
          { fs with disk := described } = (.ok (), { fs with disk := written }) := hserver
      rw [bind_ok hmeta, bind_ok hserver', bind_ok hsync, bind_ok hmake]
      exact bind_ok hlook
    rw [hsteps]
    cases hitem : (s.generation g)[id]? with
    | some item =>
      -- the item is there: the rename finds a directory that is not empty
      obtain ⟨hrename, hholds⟩ := h.kept hready hu hitem hg
      have hcontains : (s.generation g).contains id = true := Map.contains_iff_get.mpr ⟨item, hitem⟩
      refine ⟨ready, ?_, ?_⟩
      · rw [hrename, renamed]
        simp only [MemoryShelf.publish, hu, hcontains, if_true]
        rfl
      · simp only [MemoryShelf.publish, hu, hcontains, if_true]
        exact hholds
    | none =>
      have hcontains : (s.generation g).contains id = false := Map.contains_eq_false_iff.mpr hitem
      have hon := (h.generation g).item id
      rw [hitem] at hon
      have hnone := hon []
      rw [List.append_nil] at hnone
      have hrename : ready.rename (stagedDir u) (itemDir g id) =
          .ok (ready.move (stagedDir u) (itemDir g id)) := by
        rw [hready.rename_eq hplace, hnone]
      -- the rename is through; the note beside the place is removed after it
      have hnote : (ready.move (stagedDir u) (itemDir g id)).get (digestFile u) ≠ some .dir := by
        rw [Tree.get_move, if_neg (by simp [itemDir, digestFile]),
          if_neg (by simp [stagedDir, digestFile]), (hready.get_staged hplace).2.2.2.2]
        cases place.digest <;> simp
      have hnotes : ∀ x rest,
          (ready.move (stagedDir u) (itemDir g id)).get (digestFile u ++ x :: rest) = none := by
        intro x rest
        rw [Tree.get_move, if_neg (by simp [itemDir, digestFile]),
          if_neg (by simp [stagedDir, digestFile]),
          hready.get_other h.root (by simp [stagedDir, digestFile])
            (by simp [generationDir, digestFile]), h.notes]
      obtain ⟨final, hremove, hfinal⟩ := @unlink_ok
        { fs with disk := ready.move (stagedDir u) (itemDir g id) } _ hnote hnotes
      have hholds := h.renamed hready hu hg henvelope hfinal
      have hchange : change (fun _ => .ok (ready.move (stagedDir u) (itemDir g id)))
          { fs with disk := ready } =
          (.ok (), { fs with disk := ready.move (stagedDir u) (itemDir g id) }) := rfl
      have hitems : final.get (items g) = some .dir := by
        rw [hfinal, if_neg (by simp [items, digestFile]), Tree.get_move,
          if_neg (by simp [items, itemDir]), if_neg (by simp [items, stagedDir]), hready.get_items]
      refine ⟨final, ?_, ?_⟩
      · rw [hrename, renamed]
        simp only [MemoryShelf.publish, hu, hcontains, Bool.false_eq_true, if_false]
        have hremove' : removeDigest u { fs with disk := ready.move (stagedDir u) (itemDir g id) } =
          (.ok (), { fs with disk := final }) := hremove
        rw [bind_ok hchange, bind_ok hremove',
          bind_ok (@syncDir_ok { fs with disk := final } _ _ hitems),
          bind_ok (@syncDir_ok { fs with disk := final } _ _ hholds.staging)]
        rfl
      · simp only [MemoryShelf.publish, hu, hcontains, Bool.false_eq_true, if_false]
        exact hholds

/-! ## Items -/

/-- What holds of a shelf holds of one with the same places and items. -/
theorem Holds.sameShelf (h : Holds disk s) (hstaging : s'.staging = s.staging)
    (hgenerations : ∀ k, s'.generation k = s.generation k) : Holds disk s' :=
  h.updatePlace ⟨0⟩ s.staging[(⟨0⟩ : UploadId)]? (fun _ _ _ => rfl) (h.place ⟨0⟩)
    (fun v => by
      rw [hstaging]
      split
      · rename_i hv
        rw [hv]
      · rfl)
    hgenerations

/-- What `serde_json` reads from a `server.json` is what it was made of: a key id's text or
none, and a `u64`. -/
def ReadsBack : Prop :=
  ∀ (under : Option KeyId) (receivedAt : Nat), receivedAt < u64Bound →
    ServerJson.fromSlice (ServerJson.toVec ⟨under.map KeyId.asStr, receivedAt⟩) =
      some ⟨under.map KeyId.asStr, receivedAt⟩

/-- An item's directory reads as the item. -/
theorem readItem_holds (hjson : ReadsBack) {fs : FsShelf} (h : Holds fs.disk s) (g : Nat)
    (id : ItemId) : readItem (itemDir g id) fs = (.ok (s.get g id), fs) := by
  have hon := (h.generation g).item id
  unfold readItem MemoryShelf.get
  cases hitem : (s.generation g)[id]? with
  | none =>
    rw [hitem] at hon
    rw [bind_ok (found_none (read_absent (hon _)))]
    rfl
  | some item =>
    rw [hitem] at hon
    obtain ⟨-, hcontent, hmeta, hserver, hbound⟩ := hon
    have hback := hjson item.envelope.under item.envelope.receivedAt hbound
    rw [bind_ok (found_ok (read_file hcontent))]
    simp only
    rw [bind_ok (fetch_ok (read_file hmeta)), bind_ok (fetch_ok (read_file hserver))]
    unfold serverFile
    rw [hback]
    obtain ⟨content, metaJson, under, receivedAt⟩ := item
    cases under with
    | none => rfl
    | some key =>
      simp only [Option.map_some, KeyId.parse_asStr]
      rfl

/-- **`open_content_from` answers the same**, for an offset a filesystem can seek to. -/
theorem openContentFrom_holds {fs : FsShelf} (h : Holds fs.disk s) (g : Nat) (id : ItemId)
    {offset : Nat} (hoffset : offset < 2 ^ 63) :
    openContentFrom g id offset fs = (.ok (s.openContentFrom g id offset), fs) := by
  have hon := (h.generation g).item id
  unfold openContentFrom MemoryShelf.openContentFrom
  cases hitem : (s.generation g)[id]? with
  | none =>
    rw [hitem] at hon
    rw [bind_ok (found_none (read_absent (hon _)))]
    rfl
  | some item =>
    rw [hitem] at hon
    obtain ⟨-, hcontent, -⟩ := hon
    rw [bind_ok (found_ok (read_file hcontent))]
    simp only [if_neg (Nat.not_le.mpr hoffset)]
    rfl

/-- An item is there exactly when its content is a file. -/
theorem isFile_content {stored : Map ItemId Item} (h : GenerationOn disk g stored) (id : ItemId) :
    disk.isFile (items g ++ [id.asStr, "content"]) = true ↔ id ∈ stored.keys := by
  have hon := h.item id
  rw [Map.mem_keys_iff]
  show disk.isFile (itemDir g id ++ ["content"]) = true ↔ _
  cases hitem : stored[id]? with
  | none =>
    rw [hitem] at hon
    have hnone : disk.get (itemDir g id ++ ["content"]) = none := hon ["content"]
    simp [Tree.isFile, hnone]
  | some item =>
    rw [hitem] at hon
    simp [Tree.isFile, hon.2.1]

/-- **`ids` answers the same.** -/
theorem ids_holds {fs : FsShelf} (h : Holds fs.disk s) (g : Nat) :
    ids g fs = (.ok (s.ids g), fs) := by
  unfold ids MemoryShelf.ids
  have hgeneration := h.generation g
  have hfile := isFile_content hgeneration
  obtain ⟨hempty, hnone⟩ | ⟨-, hitems, hitem⟩ := hgeneration
  · have habsent : fs.disk.get (items g) = none := hnone ["items"]
    rw [bind_ok (listing_absent habsent), hempty]
    rfl
  · rw [bind_ok (listing_dir hitems)]
    obtain ⟨hnodup, hmem⟩ := parsed_names ItemId.of_parse ItemId.parse_asStr
      ((fs.disk.nodup_children (items g)).filter fun name =>
        fs.disk.isFile (items g ++ [name, "content"]))
    have hkeys : ∀ id, id ∈ ((fs.disk.children (items g)).filter fun name =>
        fs.disk.isFile (items g ++ [name, "content"])).filterMap (parsedName ItemId.parse) ↔
        id ∈ (s.generation g).keys := by
      intro id
      rw [hmem, List.mem_filter, hfile, Tree.mem_children]
      refine ⟨fun hid => hid.2, fun hid => ⟨?_, hid⟩⟩
      obtain ⟨item, hget⟩ := Map.mem_keys_iff.mp hid
      have hon := hitem id
      rw [hget] at hon
      exact ⟨_, hon.1⟩
    show (Except.ok _, fs) = (Except.ok (s.generation g).keys.reverse, fs)
    rw [insertionSort_eq hnodup (keys_pairwise _) hkeys]

/-- **`remove` does the same to both.** -/
theorem remove_holds (hjson : ReadsBack) {fs : FsShelf} (h : Holds fs.disk s) (g : Nat)
    (id : ItemId) :
    ∃ disk trashed, remove g id fs = (.ok (s.remove g id).1, { fs with disk, trashed }) ∧
      Holds disk (s.remove g id).2 := by
  have hon := (h.generation g).item id
  have hread := readItem_holds hjson h g id
  rw [s.remove_answer]
  unfold remove
  rw [bind_ok hread]
  cases hitem : (s.generation g)[id]? with
  | none =>
    -- no such item: nothing is removed
    have hget : s.get g id = none := by
      rw [MemoryShelf.get, hitem]
      rfl
    rw [hget]
    refine ⟨fs.disk, fs.trashed, rfl, h.sameShelf (s.remove_staging g id) fun k => ?_⟩
    rw [s.remove_generation]
    split
    · rename_i hk
      rw [← hk, Map.erase_same hitem]
    · rfl
  | some item =>
    have hget : s.get g id = some item.stored := by
      rw [MemoryShelf.get, hitem]
      rfl
    rw [hitem] at hon
    -- the item's directory goes to the trash and is emptied there
    obtain ⟨disk, hdiscard, hdisk⟩ := discard_ok hon.1 (by simp [itemDir]) h.trash h.emptied
    have hdirs : fs.disk.get (generationDir g) = some .dir ∧ fs.disk.get (items g) = some .dir ∧
        ∀ other, ItemOn fs.disk g other (s.generation g)[other]? := by
      obtain ⟨hempty, -⟩ | hdirs := h.generation g
      · rw [hempty, Std.ExtTreeMap.getElem?_empty] at hitem
        cases hitem
      · exact hdirs
    have hitems : disk.get (items g) = some .dir := by
      rw [hdisk, if_neg (by simp [itemDir, items]), hdirs.2.1]
    have hgdir : disk.get (generationDir g) = some .dir := by
      rw [hdisk, if_neg (by simp [itemDir, generationDir]), hdirs.1]
    rw [hget]
    refine ⟨disk, fs.trashed + 1, ?_, ?_⟩
    · simp only
      rw [bind_ok hdiscard]
      simp only [if_true]
      rw [bind_ok (@syncDir_ok { fs with disk, trashed := fs.trashed + 1 } _ _ hitems)]
      rfl
    · refine h.updateGeneration (g := g) ?_
        (.inr ⟨hgdir, hitems, ?_⟩ : GenerationOn disk g ((s.generation g).erase id)) ?_
        (s.remove_staging g id) fun k => ?_
      · intro q hq
        rw [hdisk, if_neg]
        intro hpre
        exact hq (List.IsPrefix.trans (by simp [generationDir, itemDir]) hpre)
      -- what lies under another item's directory is as it was
      · intro other
        rw [Map.get_erase]
        by_cases heq : id = other
        · subst heq
          rw [if_pos rfl]
          intro rest
          rw [hdisk, if_pos (List.prefix_append _ _)]
        · rw [if_neg heq]
          refine (hdirs.2.2 other).congr fun rest => ?_
          rw [hdisk, if_neg (by simp [itemDir, heq])]
      · intro _
        rcases h.names _ _ hdirs.1 with hname | hname | ⟨k, hk, hname⟩
        · exact absurd hname (by simp)
        · exact absurd hname (by simp)
        · rw [generationName_inj.mp hname]
          exact hk
      · rw [s.remove_generation]

/-- **`drop_generation` does the same to both.** -/
theorem dropGeneration_holds {fs : FsShelf} (h : Holds fs.disk s) (g : Nat) :
    ∃ disk, dropGeneration g fs = (.ok (), { fs with disk, trashed := fs.trashed + 1 }) ∧
      Holds disk (s.dropGeneration g) := by
  unfold dropGeneration
  obtain ⟨hempty, hnone⟩ | ⟨hdir, -, -⟩ := h.generation g
  · have habsent := hnone []
    rw [List.append_nil] at habsent
    refine ⟨fs.disk, ?_, h.sameShelf rfl fun k => ?_⟩
    · rw [bind_ok (discard_absent habsent)]
      rfl
    · rw [s.dropGeneration_generation]
      split
      · rename_i hk
        rw [← hk, hempty]
      · rfl
  · obtain ⟨disk, hdiscard, hdisk⟩ := discard_ok hdir (by simp [generationDir]) h.trash h.emptied
    have hroot : disk.get [] = some .dir := by
      rw [hdisk, if_neg (by simp [generationDir]), h.root]
    have hgone : ∀ rest, disk.get (generationDir g ++ rest) = none := by
      intro rest
      rw [hdisk, if_pos (List.prefix_append _ _)]
    refine ⟨disk, ?_, ?_⟩
    · rw [bind_ok hdiscard]
      simp only [if_true]
      exact @syncDir_ok { fs with disk, trashed := fs.trashed + 1 } _ _ hroot
    · refine h.updateGeneration (g := g) ?_ (.inl ⟨rfl, hgone⟩) ?_ rfl fun k =>
        s.dropGeneration_generation g k
      · intro q hq
        rw [hdisk, if_neg hq]
      · intro hthere
        have habsent := hgone []
        rw [List.append_nil] at habsent
        exact absurd habsent hthere

/-- A directory's number is a generation's only if it has the generation's name. -/
theorem Holds.parseGeneration_eq (h : Holds disk s) {x : String} {node : Node UInt8}
    (hx : disk.get [x] = some node) (hg : parseGeneration x = some g) : x = generationName g := by
  rcases h.names x node hx with rfl | rfl | ⟨k, hk, rfl⟩
  · have hnone : parseGeneration "staging" = none := by decide
    rw [hnone] at hg
    cases hg
  · have hnone : parseGeneration "trash" = none := by decide
    rw [hnone] at hg
    cases hg
  · rw [parseGeneration_generationName hk] at hg
    rw [Option.some.inj hg]

/-- The generations among some names, without the empty ones. -/
theorem holding_holds {fs : FsShelf} (h : Holds fs.disk s) (names : List String) :
    holding names fs =
      (.ok (names.filterMap fun name => (parseGeneration name).filter fun g => s.ids g ≠ []),
        fs) := by
  induction names with
  | nil => rfl
  | cons name names ih =>
    unfold holding
    cases hname : parseGeneration name with
    | none =>
      rw [List.filterMap_cons, hname]
      exact ih
    | some g =>
      simp only
      rw [bind_ok (ids_holds h g), bind_ok ih, List.filterMap_cons, hname]
      by_cases hempty : s.ids g = []
      · simp only [hempty, if_true, ne_eq, not_true_eq_false, decide_false, Option.filter_some,
          Bool.false_eq_true, if_false]
        rfl
      · simp only [hempty, if_false, ne_eq, not_false_eq_true, decide_true, Option.filter_some,
          if_true]
        rfl

omit [ServerJson] in
theorem generations_pairwise (s : MemoryShelf) : s.generations.Pairwise (· < ·) := by
  unfold MemoryShelf.generations
  rw [List.pairwise_map]
  refine List.Pairwise.sublist List.filter_sublist ?_
  exact Std.ExtTreeMap.ordered_keys_toList.imp fun h => compare_lt_iff_lt.mp h

/-- **`generations` answers the same.** -/
theorem generations_holds {fs : FsShelf} (h : Holds fs.disk s) :
    generations fs = (.ok s.generations, fs) := by
  have hnodup : ((fs.disk.children []).filterMap fun name =>
      (parseGeneration name).filter fun g => s.ids g ≠ []).Nodup := by
    refine List.pairwise_filterMap.mpr ((fs.disk.nodup_children []).imp_of_mem ?_)
    intro a b ha hb hne g hg k hk hgk
    subst hgk
    obtain ⟨node, hnode⟩ := Tree.mem_children.mp ha
    obtain ⟨node', hnode'⟩ := Tree.mem_children.mp hb
    have hname := h.parseGeneration_eq hnode (Option.filter_eq_some_iff.mp hg).1
    have hname' := h.parseGeneration_eq hnode' (Option.filter_eq_some_iff.mp hk).1
    exact hne (hname.trans hname'.symm)
  have hmem : ∀ g, g ∈ (fs.disk.children []).filterMap (fun name =>
      (parseGeneration name).filter fun g => s.ids g ≠ []) ↔ g ∈ s.generations := by
    intro g
    have hids : s.ids g = [] ↔ s.generation g = ∅ := by
      rw [← List.isEmpty_iff]
      exact MemoryShelf.ids_isEmpty_iff s
    rw [List.mem_filterMap, MemoryShelf.mem_generations]
    constructor
    · rintro ⟨name, -, hg⟩
      have hne := (Option.filter_eq_some_iff.mp hg).2
      rw [decide_eq_true_eq, ne_eq, hids] at hne
      exact hne
    · intro hne
      obtain ⟨hempty, -⟩ | ⟨hdir, -, -⟩ := h.generation g
      · exact absurd hempty hne
      · have hbound : g < u64Bound := by
          rcases h.names _ _ hdir with hname | hname | ⟨k, hk, hname⟩
          · exact absurd hname (by simp)
          · exact absurd hname (by simp)
          · rw [generationName_inj.mp hname]
            exact hk
        refine ⟨generationName g, Tree.mem_children.mpr ⟨_, hdir⟩, ?_⟩
        rw [parseGeneration_generationName hbound, Option.filter_some, if_pos]
        rw [decide_eq_true_eq, ne_eq, hids]
        exact hne
  unfold generations
  rw [bind_ok (listing_dir h.root), bind_ok (holding_holds h _)]
  show (Except.ok _, fs) = _
  rw [insertionSort_eq hnodup (generations_pairwise s) hmem]

/-- The sizes of items that are there add up. -/
theorem sizes_holds {fs : FsShelf} (h : Holds fs.disk s) (g : Nat) {here : List ItemId}
    (hhere : ∀ id ∈ here, id ∈ s.ids g) :
    sizes g here fs =
      (.ok (here.map fun id =>
          ((s.generation g)[id]?.map fun item => item.content.length).getD 0).sum,
        fs) := by
  induction here with
  | nil => rfl
  | cons id here ih =>
    obtain ⟨item, hitem⟩ := (MemoryShelf.mem_ids s).mp (hhere id List.mem_cons_self)
    have hon := (h.generation g).item id
    rw [hitem] at hon
    have hrest := ih fun other hother => hhere other (List.mem_cons_of_mem _ hother)
    unfold sizes
    rw [bind_ok (fetch_ok (read_file hon.2.1)), bind_ok hrest, List.map_cons, List.sum_cons, hitem]
    rfl

/-- **`bytes` answers the same.** -/
theorem bytes_holds {fs : FsShelf} (h : Holds fs.disk s) (g : Nat) :
    bytes g fs = (.ok (s.bytes g), fs) := by
  have hsum : ((s.ids g).map fun id =>
      ((s.generation g)[id]?.map fun item => item.content.length).getD 0).sum = s.bytes g := by
    unfold MemoryShelf.ids MemoryShelf.bytes Map.vals
    rw [List.map_reverse, List.sum_reverse, ← Std.ExtTreeMap.map_fst_toList_eq_keys, List.map_map,
      List.map_map]
    congr 1
    refine List.map_congr_left fun e he => ?_
    have hget := Map.mem_toList_iff.mp he
    simp only [Function.comp_apply, hget, Option.map_some, Option.getD_some]
  unfold bytes
  rw [bind_ok (ids_holds h g), sizes_holds h g fun _ hid => hid, hsum]

/-! ## Whole runs -/

omit [ServerJson] in
theorem bind_map {α β : Type} {fs fs' : FsShelf} {m : Steps α} (f : α → β) {r : Except ApiError α}
    (h : m fs = (r, fs')) : (m >>= fun a => pure (f a)) fs = (r.map f, fs') := by
  cases r with
  | error e => exact bind_error h
  | ok a =>
    rw [bind_ok h]
    rfl

variable [Crates]

/-- **Every call does the same to both, and is answered alike.** -/
theorem answer_holds (hjson : ReadsBack) {fs : FsShelf} (h : Holds fs.disk s) {call : ShelfCall}
    (hrange : call.InRange) :
    ∃ fs', fs.answer call = ((s.answer call).1, fs') ∧ Holds fs'.disk (s.answer call).2 := by
  unfold FsShelf.answer
  cases call with
  | stageCreate u =>
    obtain ⟨disk, hsteps, hholds⟩ := stageCreate_holds h u
    exact ⟨_, bind_map (fun _ => ShelfReply.done) hsteps, hholds⟩
  | stageWrite u content announced =>
    obtain ⟨disk, hsteps, hholds⟩ := write_holds h u content announced false
    exact ⟨_, bind_map ShelfReply.count hsteps, hholds⟩
  | stageWriteHashed u content announced =>
    obtain ⟨disk, hsteps, hholds⟩ := write_holds h u content announced true
    exact ⟨_, bind_map ShelfReply.count hsteps, hholds⟩
  | stageDigest u => exact ⟨fs, bind_map ShelfReply.digest (stageDigest_holds h u), h⟩
  | stageSize u => exact ⟨fs, bind_map ShelfReply.size (stageSize_holds h u), h⟩
  | stageRemove u =>
    obtain ⟨disk, hsteps, hholds⟩ := stageRemove_holds h u
    exact ⟨_, bind_map (fun _ => ShelfReply.done) hsteps, hholds⟩
  | staged => exact ⟨fs, bind_map ShelfReply.uploads (staged_holds h), h⟩
  | publish u g id envelope =>
    obtain ⟨disk, hsteps, hholds⟩ := publish_holds h u id hrange.1 hrange.2
    exact ⟨_, bind_map ShelfReply.published hsteps, hholds⟩
  | get g id => exact ⟨fs, bind_map ShelfReply.item (readItem_holds hjson h g id), h⟩
  | openContent g id =>
    exact ⟨fs, bind_map ShelfReply.content (openContentFrom_holds h g id (by decide)), h⟩
  | openContentFrom g id offset =>
    exact ⟨fs, bind_map ShelfReply.content (openContentFrom_holds h g id hrange), h⟩
  | ids g => exact ⟨fs, bind_map ShelfReply.ids (ids_holds h g), h⟩
  | remove g id =>
    obtain ⟨disk, trashed, hsteps, hholds⟩ := remove_holds hjson h g id
    exact ⟨_, bind_map ShelfReply.item hsteps, hholds⟩
  | dropGeneration g =>
    obtain ⟨disk, hsteps, hholds⟩ := dropGeneration_holds h g
    exact ⟨_, bind_map (fun _ => ShelfReply.done) hsteps, hholds⟩
  | generations => exact ⟨fs, bind_map ShelfReply.generations (generations_holds h), h⟩
  | bytes g => exact ⟨fs, bind_map ShelfReply.count (bytes_holds h g), h⟩

/-- Runs on shelves that hold the same are answered alike. -/
theorem answers_holds (hjson : ReadsBack) {fs : FsShelf} (h : Holds fs.disk s)
    {calls : List ShelfCall} (hrange : ∀ call ∈ calls, call.InRange) :
    fs.answers calls = s.answers calls := by
  induction calls generalizing fs s with
  | nil => rfl
  | cons call calls ih =>
    obtain ⟨fs', hanswer, hnext⟩ := answer_holds hjson h (hrange call List.mem_cons_self)
    have hrest := ih hnext fun c hc => hrange c (List.mem_cons_of_mem _ hc)
    show (fs.answer call).1 :: (fs.answer call).2.answers calls =
      (s.answer call).1 :: (s.answer call).2.answers calls
    rw [hanswer, hrest]

/-- After any calls, the disk holds what the shelf in memory does. -/
theorem run_holds (hjson : ReadsBack) {fs : FsShelf} (h : Holds fs.disk s) {calls : List ShelfCall}
    (hrange : ∀ call ∈ calls, call.InRange) :
    ∃ s', Holds (fs.run calls).disk s' := by
  induction calls generalizing fs s with
  | nil => exact ⟨s, h⟩
  | cons call calls ih =>
    obtain ⟨fs', hanswer, hnext⟩ := answer_holds hjson h (hrange call List.mem_cons_self)
    have hstep : (fs.answer call).2 = fs' := by rw [hanswer]
    exact ih (hstep ▸ hnext) fun c hc => hrange c (List.mem_cons_of_mem _ hc)

omit [ServerJson] in
/-- In memory, a publish that finds the item there changes nothing. -/
theorem publish_false {envelope : Envelope}
    (h : (s.answer (.publish u g id envelope)).1 = .ok (.published false)) :
    (s.answer (.publish u g id envelope)).2 = s := by
  simp only [MemoryShelf.answer, MemoryShelf.publish] at h ⊢
  cases hu : s.staging[u]? with
  | none => rfl
  | some place =>
    simp only [hu] at h
    by_cases hthere : (s.generation g).contains id = true
    · simp only [hthere, if_true]
    · simp only [hthere, Bool.false_eq_true, if_false] at h
      cases h

end Holds

/-- **The shelf on a filesystem is the shelf in memory**: from new ones, any calls are
answered alike; and a publish that is told the item exists leaves everything as it was, as
far as any later calls can tell. -/
theorem conforms [Crates] [ServerJson] (hjson : ReadsBack) (process : Nat)
    (calls : List ShelfCall) (hrange : ∀ call ∈ calls, call.InRange) :
    (new process).answers calls = MemoryShelf.empty.answers calls ∧
    ∀ u g id envelope later, (ShelfCall.publish u g id envelope).InRange →
      (∀ call ∈ later, call.InRange) →
      (((new process).run calls).answer (.publish u g id envelope)).1 = .ok (.published false) →
      (((new process).run calls).answer (.publish u g id envelope)).2.answers later =
        ((new process).run calls).answers later := by
  refine ⟨answers_holds hjson (holds_new process) hrange, ?_⟩
  intro u g id envelope later hpublish hlater hfalse
  obtain ⟨s, hholds⟩ := run_holds hjson (holds_new process) hrange
  obtain ⟨fs', hanswer, hnext⟩ := answer_holds hjson hholds hpublish
  rw [hanswer] at hfalse ⊢
  rw [publish_false hfalse] at hnext
  rw [answers_holds hjson hnext hlater, answers_holds hjson hholds hlater]

end FsShelf

namespace Sample

def opening : List Char := ['\x7b', '"', 'u', 'n', 'd', 'e', 'r', '"', ':']

def middle : List Char :=
  [',', '"', 'r', 'e', 'c', 'e', 'i', 'v', 'e', 'd', 'A', 't', '"', ':']

def null : List Char := ['n', 'u', 'l', 'l']

/-- The text of a `server.json`. -/
def serverText (file : ServerFile) : List Char :=
  opening ++ ((match file.under with
      | none => null
      | some key => '"' :: key.toList ++ ['"']) ++
    (middle ++ (Nat.toDigits 10 file.receivedAt ++ ['\x7d'])))

/-- What follows the opening of a `server.json`: the key id, and the rest. -/
def serverUnder (text : List Char) : Option String × List Char :=
  match text with
  | '"' :: rest =>
    (some (String.ofList (rest.takeWhile (· ≠ '"'))), (rest.dropWhile (· ≠ '"')).tail)
  | _ => (none, text.drop 4)

/-- A well-formed `server.json`, read. -/
def serverRead (text : List Char) : Option ServerFile :=
  let parts := serverUnder (text.drop 9)
  (parseU64 ((parts.2.drop 14).takeWhile Char.isDigit)).map fun receivedAt => ⟨parts.1, receivedAt⟩

/-- Writes and reads `server.json` as `serde_json` does, where its text is well formed. -/
@[reducible] def serverJson : ServerJson where
  toVec file := (serverText file).map fun c => UInt8.ofNat c.toNat
  fromSlice bytes := serverRead (bytes.map fun b => Char.ofNat b.toNat)

theorem takeWhile_stop {p : Char → Bool} {l rest : List Char} {c : Char} (hl : ∀ a ∈ l, p a = true)
    (hc : p c = false) : (l ++ c :: rest).takeWhile p = l := by
  rw [List.takeWhile_append_of_pos hl, List.takeWhile_cons_of_neg (by simp [hc]), List.append_nil]

theorem dropWhile_stop {p : Char → Bool} {l rest : List Char} {c : Char} (hl : ∀ a ∈ l, p a = true)
    (hc : p c = false) : (l ++ c :: rest).dropWhile p = c :: rest := by
  rw [List.dropWhile_append_of_pos hl, List.dropWhile_cons_of_neg (by simp [hc])]

/-- An ASCII character is the byte it is written as. -/
theorem char_of_byte {c : Char} (h : c.toNat < 128) :
    Char.ofNat (UInt8.ofNat c.toNat).toNat = c := by
  have hbyte : (UInt8.ofNat c.toNat).toNat = c.toNat := by
    rw [UInt8.toNat_ofNat']
    exact Nat.mod_eq_of_lt (by omega)
  rw [hbyte, Char.ofNat_toNat]

theorem hexChar_ascii (d : Fin 16) : (hexChar d).toNat < 128 ∧ hexChar d ≠ '"' := by
  revert d
  decide

theorem digit_ascii {c : Char} (h : c.isDigit = true) : c.toNat < 128 := by
  simp only [Char.isDigit, Bool.and_eq_true, decide_eq_true_eq, UInt32.le_iff_toNat_le] at h
  exact Nat.lt_of_le_of_lt h.2 (by decide)

/-- The characters of a `server.json` are ASCII. -/
theorem serverText_ascii (under : Option KeyId) (receivedAt : Nat) :
    ∀ c ∈ serverText ⟨under.map KeyId.asStr, receivedAt⟩, c.toNat < 128 := by
  have hdigits : ∀ c ∈ Nat.toDigits 10 receivedAt, c.toNat < 128 := fun c hc =>
    digit_ascii (Nat.isDigit_of_mem_toDigits (by decide) (by decide) hc)
  have hopen : ∀ c ∈ opening, c.toNat < 128 := by simp [opening]
  have hmiddle : ∀ c ∈ middle, c.toNat < 128 := by simp [middle]
  have hnull : ∀ c ∈ null, c.toNat < 128 := by simp [null]
  have hclose : '\x7d'.toNat < 128 := by decide
  have hquote : '"'.toNat < 128 := by decide
  intro c hc
  unfold serverText at hc
  simp only [List.mem_append, List.mem_singleton] at hc
  rcases hc with hc | hc | hc | hc | rfl
  · exact hopen c hc
  · cases under with
    | none => exact hnull c hc
    | some key =>
      simp only [Option.map_some, KeyId.asStr, String.toList_ofList, List.cons_append,
        List.mem_cons,
        List.mem_append, List.mem_map] at hc
      rcases hc with rfl | ⟨d, -, rfl⟩ | hc
      · exact hquote
      · exact (hexChar_ascii d).1
      · rcases hc with rfl | hc
        · exact hquote
        · cases hc
  · exact hmiddle c hc
  · exact hdigits c hc
  · exact hclose

theorem serverUnder_text (under : Option KeyId) (rest : List Char) :
    serverUnder ((match under.map KeyId.asStr with
      | none => null
      | some key => '"' :: key.toList ++ ['"']) ++ rest) = (under.map KeyId.asStr, rest) := by
  cases under with
  | none => rfl
  | some key =>
    have hkey : ∀ c ∈ key.asStr.toList, decide (c ≠ '"') = true := by
      intro c hc
      simp only [KeyId.asStr, String.toList_ofList, List.mem_map] at hc
      obtain ⟨d, -, rfl⟩ := hc
      exact decide_eq_true (hexChar_ascii d).2
    have hquote : decide ('"' ≠ '"') = false := by decide
    simp only [Option.map_some, List.cons_append, List.append_assoc,
      List.nil_append, serverUnder, takeWhile_stop hkey hquote, dropWhile_stop hkey hquote,
      List.tail_cons, String.ofList_toList]

/-- The text of a `server.json` reads as what it was made of. -/
theorem serverRead_text (under : Option KeyId) {receivedAt : Nat} (hbound : receivedAt < u64Bound) :
    serverRead (serverText ⟨under.map KeyId.asStr, receivedAt⟩) =
      some ⟨under.map KeyId.asStr, receivedAt⟩ := by
  have hdigits : ∀ c ∈ Nat.toDigits 10 receivedAt, c.isDigit = true := fun c hc =>
    Nat.isDigit_of_mem_toDigits (by decide) (by decide) hc
  have hclose : Char.isDigit '\x7d' = false := by decide
  have hopen : opening.length = 9 := by decide
  have hmiddle : middle.length = 14 := by decide
  have hparts : serverUnder ((serverText ⟨under.map KeyId.asStr, receivedAt⟩).drop 9) =
      (under.map KeyId.asStr, middle ++ (Nat.toDigits 10 receivedAt ++ ['\x7d'])) := by
    unfold serverText
    rw [List.drop_left' hopen]
    exact serverUnder_text under _
  simp only [serverRead, hparts]
  rw [List.drop_left' hmiddle, takeWhile_stop hdigits hclose, parseU64_toDigits hbound]
  rfl

theorem serverJson_readsBack : @FsShelf.ReadsBack serverJson := by
  intro under receivedAt hbound
  have hbytes : ((serverText ⟨under.map KeyId.asStr, receivedAt⟩).map fun c =>
      UInt8.ofNat c.toNat).map (fun b => Char.ofNat b.toNat) =
      serverText ⟨under.map KeyId.asStr, receivedAt⟩ := by
    rw [List.map_map]
    refine (List.map_congr_left fun c hc => ?_).trans (List.map_id _)
    exact char_of_byte (serverText_ascii under receivedAt c hc)
  exact (congrArg serverRead hbytes).trans (serverRead_text under hbound)

def published : ItemId := ⟨3, 9⟩

def receipt : Envelope := ⟨[4, 2], some ⟨[10, 1], by decide⟩, 60⟩

/-- Two uploads of one item, the second of which finds it there. -/
def shelfCalls : List ShelfCall :=
  [.stageCreate ⟨1⟩, .stageWriteHashed ⟨1⟩ [.piece [5], .interrupted, .piece [6]] 2,
    .stageDigest ⟨1⟩, .publish ⟨1⟩ 0 published receipt, .stageCreate ⟨2⟩,
    .stageWrite ⟨2⟩ [.piece [7], .failed] 1, .publish ⟨2⟩ 0 published receipt, .get 0 published,
    .openContentFrom 0 published 1, .staged, .ids 0, .generations, .bytes 0]

end Sample

theorem FsShelf.conforms_published :
    @FsShelf.answers Sample.crates Sample.serverJson (new 7) Sample.shelfCalls =
      @MemoryShelf.answers Sample.crates .empty Sample.shelfCalls ∧
    @FsShelf.answers Sample.crates Sample.serverJson
      (@FsShelf.answer Sample.crates Sample.serverJson
        (@FsShelf.run Sample.crates Sample.serverJson (new 7) Sample.shelfCalls)
        (.publish ⟨2⟩ 0 Sample.published Sample.receipt)).2 Sample.shelfCalls =
      @FsShelf.answers Sample.crates Sample.serverJson
        (@FsShelf.run Sample.crates Sample.serverJson (new 7) Sample.shelfCalls)
        Sample.shelfCalls := by
  have hrange : ∀ call ∈ Sample.shelfCalls, call.InRange := by
    simp [Sample.shelfCalls, ShelfCall.InRange, u64Bound, Sample.receipt]
  have hpublish : (ShelfCall.publish ⟨2⟩ 0 Sample.published Sample.receipt).InRange := by
    simp [ShelfCall.InRange, u64Bound, Sample.receipt]
  obtain ⟨hsame, hleft⟩ :=
    @FsShelf.conforms Sample.crates Sample.serverJson Sample.serverJson_readsBack 7 _ hrange
  refine ⟨hsame, hleft ⟨2⟩ 0 Sample.published Sample.receipt Sample.shelfCalls hpublish hrange ?_⟩
  decide +kernel

end Passalong
