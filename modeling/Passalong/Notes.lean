import Passalong.Scripts
import Passalong.FsShelf

/-!
# The note of a digest at every crash point (`shelf/fs.rs`, `upload.rs`)

The note of an upload's SHA-256 is a file beside the directory with its content, and both are
written, emptied, moved and removed, one after the other. Here every method may be cut at any
of its steps, and the steps of methods that are about different uploads come in any order
(`Script`, `Pool`). A commit's check of plaintext reads the note.

- `KeptAt` is what holds of an upload at every point: a note whose directory is there is that
  of the content. A note without a directory (`noteLeft`) is left by a removal or a publish that
  is under way, or was cut between the two, until the shelf is opened again.
- `Honest` is what holds of the items: one under no key is what its `meta` says.
- Each method keeps both, wherever it is cut and whatever the others do: `keeps_call`,
  `keeps_commit`, `keeps_openAt`.
- `notes_run`: so a note tells the truth in every run, and what is published under no key is
  what its `meta` says.
-/

namespace Passalong

open Lib

namespace FsShelf

namespace Script

/-! ## Places -/

/-- Where an upload's own files are. -/
def Place (u : UploadId) (q : Path) : Prop := stagedDir u <+: q ∨ digestFile u <+: q

theorem place_staged (u : UploadId) (rest : Path) : Place u (stagedDir u ++ rest) :=
  .inl (List.prefix_append _ _)

theorem place_dir (u : UploadId) : Place u (stagedDir u) := .inl (List.prefix_refl _)

theorem place_digest (u : UploadId) : Place u (digestFile u) := .inr (List.prefix_refl _)

theorem Place.staging {u : UploadId} {q : Path} (h : Place u q) : staging <+: q := by
  rcases h with h | h
  · exact (show FsShelf.staging <+: stagedDir u from ⟨[u.asStr], rfl⟩).trans h
  · exact (show FsShelf.staging <+: digestFile u from ⟨[digestName u], rfl⟩).trans h

/-- Two uploads have no place in common. -/
theorem Place.eq {u v : UploadId} {q : Path} (hu : Place u q) (hv : Place v q) : u = v := by
  have hsame : ∀ {x y : String}, ["staging", x] <+: q → ["staging", y] <+: q → x = y := by
    intro x y hx hy
    simpa using (List.prefix_of_prefix_length_le hx hy (le_refl 2)).eq_of_length rfl
  rcases hu with hu | hu <;> rcases hv with hv | hv
  · exact UploadId.asStr_injective (hsame hu hv)
  · exact absurd (hsame hu hv) (ne_digestName v u)
  · exact absurd (hsame hu hv) (digestName_ne u v)
  · exact digestName_inj.mp (hsame hu hv)

/-- What is in the staging directory is neither in the trash nor in a generation. -/
theorem apart_of_staging {q : Path} (hq : staging <+: q) :
    ¬trash <+: q ∧ ∀ g rest, ¬generationDir g ++ rest <+: q := by
  obtain ⟨back, rfl⟩ := hq
  refine ⟨?_, fun g rest => ?_⟩
  · simp [trash, staging]
  · simp [generationDir, staging]

/-- An upload's own files are as they were. -/
def Same (u : UploadId) (s s' : FsShelf) : Prop := ∀ q, Place u q → s'.disk.get q = s.disk.get q

section Same

variable {u : UploadId} {s s' s'' : FsShelf}

theorem Same.refl (u : UploadId) (s : FsShelf) : Same u s s := fun _ _ => rfl

theorem Same.trans (h : Same u s s') (h' : Same u s' s'') : Same u s s'' :=
  fun q hq => (h' q hq).trans (h q hq)

theorem Same.staged (h : Same u s s') (rest : Path) :
    s'.disk.get (stagedDir u ++ rest) = s.disk.get (stagedDir u ++ rest) :=
  h _ (place_staged u rest)

theorem Same.dir (h : Same u s s') : s'.disk.get (stagedDir u) = s.disk.get (stagedDir u) :=
  h _ (place_dir u)

theorem Same.note (h : Same u s s') : s'.disk.get (digestFile u) = s.disk.get (digestFile u) :=
  h _ (place_digest u)

end Same

/-! ## What changes, and what does not -/

/-- A change that leaves the uploads alone but `own`, and the items but for their removal. -/
structure Aside (own : Option UploadId) (s s' : FsShelf) : Prop where
  others : ∀ v, own ≠ some v → Same v s s'
  items : ∀ g id name, s'.disk.get (itemDir g id ++ [name]) = none ∨
    s'.disk.get (itemDir g id ++ [name]) = s.disk.get (itemDir g id ++ [name])

section Aside

variable {own : Option UploadId} {u : UploadId} {s s' : FsShelf}

/-- What is done in an upload's own places. -/
theorem aside_of_place (h : ∀ q, ¬Place u q → s'.disk.get q = s.disk.get q) :
    Aside (some u) s s' where
  others v hv q hq := h q fun hu => hv (congrArg some (hu.eq hq))
  items g id name := .inr <| h _ fun hu => by
    have hstaging := hu.staging
    simp [staging, itemDir] at hstaging

theorem aside_of_wrote {path : Path} {bytes : Bytes} (hpath : Place u path)
    (h : Wrote path bytes s s') : Aside (some u) s s' :=
  aside_of_place fun q hq => by
    rw [h q, if_neg]
    rintro rfl
    exact hq hpath

theorem aside_of_unnoted (h : Unnoted u s s') : Aside (some u) s s' :=
  aside_of_place fun q hq => h.2 q fun hpre => hq (.inr hpre)

theorem aside_of_emptied (h : Emptied s s') : Aside own s s' where
  others _ _ q hq := h q (apart_of_staging hq.staging).1
  items g id name := .inr <| h _ (by simp [trash, itemDir])

/-- A directory that is made on the way to the items, or at the top. -/
theorem aside_of_made {path : Path} (hpath : path.length ≤ 1 ∨ ∃ g, path = items g)
    (h : Made path s s') : Aside own s s' where
  others v _ q hq := by
    refine (h q).resolve_right fun ⟨hpre, _⟩ => ?_
    have hlength : 2 ≤ q.length := by
      rcases hq with hq | hq
      · exact hq.length_le
      · exact hq.length_le
    rcases hpath with hshort | ⟨g, rfl⟩
    · have hle := hpre.length_le
      omega
    · have hstaging := hq.staging.trans hpre
      simp [staging, FsShelf.items] at hstaging
  items g id name := .inr <| (h _).resolve_right fun ⟨hpre, _⟩ => by
    have hlength : path.length ≤ 2 := by
      rcases hpath with hshort | ⟨g, rfl⟩
      · omega
      · exact le_refl 2
    have hle := hpre.length_le
    simp only [itemDir, List.cons_append, List.nil_append, List.length_cons, List.length_nil] at hle
    omega

theorem aside_of_gone {path : Path} (hpath : ∃ g rest, path = generationDir g ++ rest)
    (h : Gone path s s') : Aside own s s' where
  others v _ q hq := by
    obtain ⟨g, rest, rfl⟩ := hpath
    rw [h q (apart_of_staging hq.staging).1, if_neg ((apart_of_staging hq.staging).2 g rest)]
  items g id name := by
    rw [h _ (by simp [trash, itemDir])]
    split_ifs
    · exact .inl rfl
    · exact .inr rfl

theorem aside_of_left (h : Gone (stagedDir u) s s') : Aside (some u) s s' where
  others v hv q hq := by
    rw [h q (apart_of_staging hq.staging).1, if_neg]
    exact fun hpre => hv (congrArg some (Place.eq (.inl hpre) hq))
  items g id name := by
    rw [h _ (by simp [trash, itemDir]), if_neg]
    · exact .inr rfl
    · simp [stagedDir, itemDir]

theorem aside_of_disk (h : s'.disk = s.disk) : Aside own s s' where
  others _ _ q _ := by rw [h]
  items g id name := .inr (by rw [h])

end Aside

/-! ## What a method has read -/

section Read

variable {α β : Type} {s s' : FsShelf}

/-- What went on to its end went through its first step. -/
theorem of_bind {m : Steps α} {f : α → Steps β} {b : β} (h : ((m >>= f) s).1 = .ok b) :
    ∃ a s', m s = (.ok a, s') ∧ (f a s').1 = .ok b := by
  rcases hrun : m s with ⟨e | a, s'⟩
  · rw [bind_error hrun] at h
    cases h
  · rw [bind_ok hrun] at h
    exact ⟨a, s', rfl, h⟩

theorem of_found {f : Disk → Except DiskError α} {a : α} (h : found f s = (.ok (some a), s')) :
    f s.disk = .ok a ∧ s' = s := by
  unfold found at h
  split at h <;> cases h
  exact ⟨by assumption, rfl⟩

theorem of_fetch {f : Disk → Except DiskError α} {a : α} (h : fetch f s = (.ok a, s')) :
    f s.disk = .ok a ∧ s' = s := by
  unfold fetch at h
  split at h <;> cases h
  exact ⟨by assumption, rfl⟩

theorem get_of_read {disk : Disk} {path : Path} {bytes : Bytes} (h : disk.read path = .ok bytes) :
    disk.get path = some (.file bytes) := by
  unfold Tree.read at h
  split at h <;> cases h
  assumption

theorem get_of_isDir {disk : Disk} {path : Path} (h : disk.isDir path = true) :
    disk.get path = some .dir := by
  by_contra hdir
  rw [isDir_eq_false hdir] at h
  cases h

/-- An item that is found is made of its three files. -/
theorem of_readItem [ServerJson] {dir : Path} {item : StoredItem}
    (h : (readItem dir s).1 = .ok (some item)) (hunder : item.envelope.under = none) :
    ∃ (content server : Bytes) (receivedAt : Nat),
      s.disk.get (dir ++ ["content"]) = some (.file content) ∧
      s.disk.get (dir ++ ["meta.json"]) = some (.file item.envelope.metaJson) ∧
      s.disk.get (dir ++ ["server.json"]) = some (.file server) ∧
      ServerJson.fromSlice server = some ⟨none, receivedAt⟩ := by
  obtain ⟨found, s₁, hfound, hrest⟩ := of_bind h
  cases found with
  | none => cases hrest
  | some content =>
  obtain ⟨hcontent, rfl⟩ := of_found hfound
  obtain ⟨metaJson, s₂, hfetch, hrest'⟩ := of_bind hrest
  obtain ⟨hmeta, rfl⟩ := of_fetch hfetch
  obtain ⟨server, s₃, hfetch', hlast⟩ := of_bind hrest'
  obtain ⟨hserver, rfl⟩ := of_fetch hfetch'
  cases hread : ServerJson.fromSlice server with
  | none =>
    simp only [hread] at hlast
    cases hlast
  | some file =>
    obtain ⟨under, receivedAt⟩ := file
    cases under with
    | none =>
      simp only [hread] at hlast
      cases hlast
      exact ⟨content, server, receivedAt, get_of_read hcontent, get_of_read hmeta,
        get_of_read hserver, hread⟩
    | some key =>
      cases hparse : KeyId.parse key with
      | error e =>
        simp only [hread, Option.map_some, hparse] at hlast
        cases hlast
      | ok id =>
        simp only [hread, Option.map_some, hparse] at hlast
        cases hlast
        cases hunder

end Read

/-! ## What holds at every point -/

section Kept

variable [Crates]

/-- Whether an upload has a whole note and no directory. -/
def noteLeft (u : UploadId) (s : FsShelf) : Bool :=
  (stageDigest u s).1.toOption.join.isSome && !s.disk.isDir (stagedDir u)

/-- What holds of an upload's note. A `loose` upload may have left one behind. -/
structure KeptAt (loose : Prop) (u : UploadId) (s : FsShelf) : Prop where
  /-- A note is that of the content, if the directory is there. -/
  told : ∀ bytes d, s.disk.get (digestFile u) = some (.file bytes) → Digest.ofBytes bytes = some d →
    s.disk.get (stagedDir u) = some .dir →
    ∃ content, s.disk.get (stagedDir u ++ ["content"]) = some (.file content) ∧
      d = Crates.sha256 content
  /-- A whole note without a directory was left behind. -/
  swept : ¬loose → ∀ bytes d, s.disk.get (digestFile u) = some (.file bytes) →
    Digest.ofBytes bytes = some d → s.disk.get (stagedDir u) = some .dir
  noteFile : s.disk.get (digestFile u) ≠ some .dir

/-- What `meta` says of the content, and the id with it. -/
def Describes (id : ItemId) (metaJson content : Bytes) : Prop :=
  ∃ fields, Crates.readMeta metaJson = some fields ∧
    fields.sha256 = some (Crates.sha256 content).hex ∧ fields.size = some content.length ∧
    id.contentKey = (Crates.sha256 content).contentKey

variable {loose loose' : Prop} {u : UploadId} {s s' : FsShelf}

theorem KeptAt.congr (h : KeptAt loose u s)
    (hnote : s'.disk.get (digestFile u) = s.disk.get (digestFile u))
    (hdir : s'.disk.get (stagedDir u) = s.disk.get (stagedDir u))
    (hcontent : s'.disk.get (stagedDir u ++ ["content"]) =
      s.disk.get (stagedDir u ++ ["content"])) :
    KeptAt loose u s' where
  told := by
    rw [hnote, hdir, hcontent]
    exact h.told
  swept := by
    rw [hnote, hdir]
    exact h.swept
  noteFile := by
    rw [hnote]
    exact h.noteFile

theorem KeptAt.same (h : KeptAt loose u s) (hsame : Same u s s') : KeptAt loose u s' :=
  h.congr hsame.note hsame.dir (hsame.staged _)

theorem KeptAt.loosen (h : KeptAt loose u s) (himp : loose → loose') : KeptAt loose' u s :=
  ⟨h.told, fun hloose => h.swept fun h => hloose (himp h), h.noteFile⟩

/-- Without a note there is nothing to be true. -/
theorem KeptAt.of_unnoted (h : s.disk.get (digestFile u) = none) : KeptAt loose u s where
  told bytes d hnote := by
    rw [h] at hnote
    cases hnote
  swept _ bytes d hnote := by
    rw [h] at hnote
    cases hnote
  noteFile := by
    rw [h]
    simp

/-- Without a directory there is none to speak of. -/
theorem KeptAt.of_gone (hloose : loose) (hdir : s.disk.get (stagedDir u) = none)
    (hnote : s.disk.get (digestFile u) ≠ some .dir) : KeptAt loose u s where
  told _ _ _ _ hthere := by
    rw [hdir] at hthere
    cases hthere
  swept h := absurd hloose h
  noteFile := hnote

omit [Crates] in
theorem stageDigest_note {bytes : Bytes} (h : s.disk.get (digestFile u) = some (.file bytes)) :
    (stageDigest u s).1 = .ok (Digest.ofBytes bytes) := by
  have hfound : found (·.read (digestFile u)) s = (.ok (some bytes), s) := by
    simp only [found, Tree.read, h]
  unfold stageDigest
  rw [bind_ok hfound]
  rfl

/-- Where no whole note was left without a directory, nothing more is to be feared. -/
theorem KeptAt.of_not_left (h : KeptAt loose u s) (hleft : noteLeft u s = false) :
    KeptAt loose' u s where
  told := h.told
  swept _ bytes d hnote hd := by
    by_contra hdir
    have hwhole : noteLeft u s = true := by
      unfold noteLeft
      rw [stageDigest_note hnote, hd, isDir_eq_false hdir]
      rfl
    rw [hleft] at hwhole
    cases hwhole
  noteFile := h.noteFile

variable [ServerJson]

/-- An item under no key is what its `meta` says. -/
def Honest (s : FsShelf) : Prop :=
  ∀ g id content metaJson server receivedAt,
    s.disk.get (itemDir g id ++ ["content"]) = some (.file content) →
    s.disk.get (itemDir g id ++ ["meta.json"]) = some (.file metaJson) →
    s.disk.get (itemDir g id ++ ["server.json"]) = some (.file server) →
    ServerJson.fromSlice server = some ⟨none, receivedAt⟩ → Describes id metaJson content

theorem Honest.aside {own : Option UploadId} (h : Honest s) (haside : Aside own s s') :
    Honest s' := by
  have hsame : ∀ {g id name content},
      s'.disk.get (itemDir g id ++ [name]) = some (.file content) →
      s.disk.get (itemDir g id ++ [name]) = some (.file content) := by
    intro g id name content hget
    rcases haside.items g id name with hnone | hsame
    · rw [hnone] at hget
      cases hget
    · exact hsame.symm.trans hget
  intro g id content metaJson server receivedAt hcontent hmeta hserver
  exact h g id content metaJson server receivedAt (hsame hcontent) (hsame hmeta) (hsame hserver)

/-! ## On whose terms -/

/-- What a method keeps to: `own` is the upload whose files it changes, and `checked` says
whether everything that is published under no key is checked. -/
def terms (checked : Prop) (own : Option UploadId) (loose : Prop) : Terms FsShelf where
  inv s := (∀ u, own = some u → KeptAt loose u s) ∧ (checked → Honest s)
  rely s s' := ∀ u, own = some u → Same u s s'
  may s s' := ∀ u, own ≠ some u → Same u s s'
  rely_refl s u _ := Same.refl u s
  rely_trans h h' u hu := (h u hu).trans (h' u hu)
  may_refl s u _ := Same.refl u s

/-- Methods about different uploads do not meet. -/
theorem terms_spares {checked : Prop} {own own' : Option UploadId}
    (h : ∀ u, own = some u → own' ≠ some u) :
    (terms checked own loose).Spares (terms checked own' loose') := by
  rintro s s' ⟨⟨-, hhonest⟩, hmay⟩ ⟨hkept, -⟩
  have hsame : ∀ u, own' = some u → Same u s s' := fun u hu => hmay u fun hown => h u hown hu
  exact ⟨hsame, fun u hu => (hkept u hu).same (hsame u hu), hhonest⟩

section Fine

variable {checked : Prop} {own : Option UploadId}

theorem fine_aside (hinv : (terms checked own loose).inv s) (haside : Aside own s s')
    (hkept : ∀ u, own = some u → KeptAt loose u s') : (terms checked own loose).Fine s s' :=
  ⟨⟨hkept, fun h => (hinv.2 h).aside haside⟩, haside.others⟩

/-- What is done elsewhere. -/
theorem fine_elsewhere (hinv : (terms checked own loose).inv s) (haside : Aside none s s') :
    (terms checked own loose).Fine s s' :=
  ⟨⟨fun u hu => (hinv.1 u hu).same (haside.others u nofun), fun h => (hinv.2 h).aside haside⟩,
    fun u _ => haside.others u nofun⟩

/-- What is done in the upload's places. -/
theorem fine_own (hinv : (terms checked (some u) loose).inv s) (haside : Aside (some u) s s')
    (hkept : KeptAt loose u s') : (terms checked (some u) loose).Fine s s' :=
  fine_aside hinv haside fun v hv => by
    cases hv
    exact hkept

end Fine

/-! ## The methods, on their terms -/

section Methods

variable {checked : Prop}

omit [ServerJson] in
/-- A directory that is made anew has no whole note. -/
theorem KeptAt.made (h : KeptAt loose u s) (hloose : ¬loose) (hmade : Made (stagedDir u) s s') :
    KeptAt loose u s' := by
  have hkeeps : ∀ q, ¬q <+: stagedDir u → s'.disk.get q = s.disk.get q :=
    fun q hq => (hmade q).resolve_right fun h => hq h.1
  have hnote : s'.disk.get (digestFile u) = s.disk.get (digestFile u) :=
    hkeeps _ (by simp [stagedDir, digestFile])
  have hcontent : s'.disk.get (stagedDir u ++ ["content"]) =
      s.disk.get (stagedDir u ++ ["content"]) :=
    hkeeps _ (by simp [stagedDir])
  rcases hmade (stagedDir u) with hdir | ⟨-, hdir⟩
  · exact h.congr hnote hdir hcontent
  · cases hthere : s.disk.get (stagedDir u) with
    | some node =>
      rw [hthere, Option.getD_some, ← hthere] at hdir
      exact h.congr hnote hdir hcontent
    | none =>
      have hnothing : ∀ bytes d, s'.disk.get (digestFile u) = some (.file bytes) →
          Digest.ofBytes bytes ≠ some d := by
        intro bytes d hbytes hd
        have hswept := h.swept hloose bytes d (hnote.symm.trans hbytes) hd
        rw [hthere] at hswept
        cases hswept
      exact ⟨fun bytes d hbytes hd => absurd hd (hnothing bytes d hbytes),
        fun _ bytes d hbytes hd => absurd hd (hnothing bytes d hbytes), hnote ▸ h.noteFile⟩

omit [Crates] [ServerJson] in
theorem aside_of_madeStaged (hmade : Made (stagedDir u) s s') : Aside (some u) s s' where
  others v hv q hq := by
    refine (hmade q).resolve_right fun ⟨hpre, _⟩ => hv (congrArg some ?_)
    have hlength : 2 ≤ q.length := by
      rcases hq with hq | hq
      · exact hq.length_le
      · exact hq.length_le
    have hplace : q = stagedDir u := hpre.eq_of_length_le hlength
    exact (place_dir u).eq (hplace ▸ hq)
  items g id name := .inr <| (hmade _).resolve_right fun ⟨hpre, _⟩ => by
    have hle := hpre.length_le
    simp [itemDir, stagedDir] at hle

theorem keeps_stageCreate (hloose : ¬loose) :
    (stageCreate u).Keeps (terms checked (some u) loose) (fun _ _ => True) s := by
  refine Prog.keeps_bind (keeps_makeDir fun s₁ _ hinv s₂ hmade => ?_)
  refine ⟨fine_own hinv (aside_of_madeStaged hmade) ((hinv.1 u rfl).made hloose hmade), ?_⟩
  rintro (e | _) -
  · trivial
  refine Prog.keeps_bind (keeps_look fun s₃ _ _ => ?_)
  show (if s₃.disk.exist (stagedDir u ++ ["content"]) = true then _ else _ :
    Script Unit).Keeps _ _ _
  split_ifs with hthere
  · trivial
  have habsent : s₃.disk.get (stagedDir u ++ ["content"]) = none := by
    simpa [Tree.exist] using hthere
  refine keeps_createFile fun s₄ hs₄ hinv₄ => ⟨fun s₅ hwrote => ⟨?_, trivial⟩, trivial⟩
  refine fine_own hinv₄ (aside_of_wrote (place_staged u _) hwrote) ?_
  have hnote : s₅.disk.get (digestFile u) = s₄.disk.get (digestFile u) := by
    rw [hwrote, if_neg]
    simp [stagedDir, digestFile]
  have hdir : s₅.disk.get (stagedDir u) = s₄.disk.get (stagedDir u) := by
    rw [hwrote, if_neg]
    simp [stagedDir]
  have hkept := hinv₄.1 u rfl
  refine ⟨fun bytes d hbytes hd hthere => ?_, ?_, hnote ▸ hkept.noteFile⟩
  -- there was no content, so there was no note of it
  · obtain ⟨content, hcontent, -⟩ :=
      hkept.told bytes d (hnote.symm.trans hbytes) hd (hdir.symm.trans hthere)
    rw [(hs₄ u rfl).staged, habsent] at hcontent
    cases hcontent
  · rw [hnote, hdir]
    exact hkept.swept

/-- A directory whose content is known. -/
structure Filled (u : UploadId) (content : Bytes) (s : FsShelf) : Prop where
  dir : s.disk.get (stagedDir u) = some .dir
  content_eq : s.disk.get (stagedDir u ++ ["content"]) = some (.file content)

/-- Without a note. -/
structure Writing (u : UploadId) (content : Bytes) (s : FsShelf) : Prop
    extends Filled u content s where
  unnoted : s.disk.get (digestFile u) = none

omit [Crates] [ServerJson] in
theorem Filled.same {content : Bytes} (h : Filled u content s) (hsame : Same u s s') :
    Filled u content s' :=
  ⟨hsame.dir.trans h.dir, (hsame.staged _).trans h.content_eq⟩

omit [Crates] [ServerJson] in
theorem Writing.same {content : Bytes} (h : Writing u content s) (hsame : Same u s s') :
    Writing u content s' :=
  ⟨h.toFilled.same hsame, hsame.note.trans h.unnoted⟩

omit [Crates] [ServerJson] in
theorem writing_of_wrote {bytes : Bytes} (hdir : s.disk.get (stagedDir u) = some .dir)
    (hnote : s.disk.get (digestFile u) = none)
    (hwrote : Wrote (stagedDir u ++ ["content"]) bytes s s') : Writing u bytes s' := by
  refine ⟨⟨?_, ?_⟩, ?_⟩
  · rw [hwrote, if_neg, hdir]
    simp [stagedDir]
  · rw [hwrote, if_pos rfl]
  · rw [hwrote, if_neg, hnote]
    simp [stagedDir, digestFile]

/-- While there is no note, the content may be anything. -/
theorem fine_writing {bytes : Bytes} (hinv : (terms checked (some u) loose).inv s)
    (hwriting : Writing u bytes s') (hwrote : Wrote (stagedDir u ++ ["content"]) bytes s s') :
    (terms checked (some u) loose).Fine s s' :=
  fine_own hinv (aside_of_wrote (place_staged u _) hwrote) (.of_unnoted hwriting.unnoted)

theorem keeps_sink {content : Bytes} (sunk : List Bytes) (h : Writing u content s) :
    (sink (stagedDir u ++ ["content"]) sunk).Keeps (terms checked (some u) loose)
      (fun answer s' => answer = .ok () ∧ Writing u (content ++ sunk.flatten) s') s := by
  induction sunk generalizing s content with
  | nil =>
    refine ⟨rfl, ?_⟩
    rw [List.flatten_nil, List.append_nil]
    exact h
  | cons piece sunk ih =>
    refine Prog.keeps_bind (keeps_append fun s₁ hs₁ hinv => ?_)
    have h₁ := h.same (hs₁ u rfl)
    refine ⟨content, h₁.content_eq, fun n s₂ hwrote => ?_, fun s₂ hwrote => ?_⟩
    · exact fine_writing hinv (writing_of_wrote h₁.dir h₁.unnoted hwrote) hwrote
    · refine (ih (writing_of_wrote h₁.dir h₁.unnoted hwrote)).mono fun answer s₃ hdone => ?_
      rw [List.flatten_cons, ← List.append_assoc]
      exact hdone

omit [ServerJson] in
/-- A note is written last, and is none until it is whole. -/
theorem Filled.wroteNote {content bytes : Bytes} (h : Filled u content s)
    (hbytes : ∀ d, Digest.ofBytes bytes = some d → d = Crates.sha256 content)
    (hwrote : Wrote (digestFile u) bytes s s') : KeptAt loose u s' ∧ Filled u content s' := by
  have hkeeps : ∀ rest, s'.disk.get (stagedDir u ++ rest) = s.disk.get (stagedDir u ++ rest) := by
    intro rest
    rw [hwrote, if_neg]
    simp [stagedDir, digestFile]
  have hdir := hkeeps []
  rw [List.append_nil, h.dir] at hdir
  have hnote : s'.disk.get (digestFile u) = some (.file bytes) := by rw [hwrote, if_pos rfl]
  refine ⟨⟨fun more d hmore hd _ => ?_, fun _ _ _ _ _ => hdir, ?_⟩,
    hdir, (hkeeps _).trans h.content_eq⟩
  · rw [hnote] at hmore
    cases hmore
    exact ⟨content, (hkeeps _).trans h.content_eq, hbytes d hd⟩
  · rw [hnote]
    simp

omit [Crates] [ServerJson] in
/-- A part of a digest's bytes is no digest, or all of them. -/
theorem ofBytes_take {digest d : Digest} {n : Nat}
    (h : Digest.ofBytes (digest.toBytes.take n) = some d) : d = digest := by
  have hlength : (digest.toBytes.take n).length = 32 := by
    by_contra hlength
    unfold Digest.ofBytes at h
    rw [dif_neg hlength] at h
    cases h
  have hwhole : digest.toBytes.take n = digest.toBytes := by
    refine List.take_of_length_le ?_
    have hbytes : digest.toBytes.length = 32 := length_numberBytes 32 _
    rw [List.length_take] at hlength
    omega
  rw [hwhole, ofBytes_toBytes] at h
  exact (Option.some.inj h).symm

theorem keeps_write (content : Source) (announced : Nat) (hashed : Bool) :
    (write u content announced hashed).Keeps (terms checked (some u) loose)
      (fun _ _ => True) s := by
  refine Prog.keeps_bind (keeps_look fun s₁ _ _ => ?_)
  show (if s₁.disk.isDir (stagedDir u) = true then _ else _ : Script Nat).Keeps _ _ _
  split_ifs with hthere
  swap
  · trivial
  have hdir := get_of_isDir hthere
  refine Prog.keeps_bind (keeps_removeDigest fun s₂ hs₂ hinv₂ => ⟨(hinv₂.1 u rfl).noteFile, ?_⟩)
  intro s₃ hunnoted
  refine ⟨fine_own hinv₂ (aside_of_unnoted hunnoted) (.of_unnoted hunnoted.1), ?_⟩
  have hdir₃ : s₃.disk.get (stagedDir u) = some .dir := by
    rw [hunnoted.2, (hs₂ u rfl).dir, hdir]
    simp [stagedDir, digestFile]
  refine Prog.keeps_bind (keeps_createFile fun s₄ hs₄ hinv₄ => ⟨fun s₅ hcreated => ?_, trivial⟩)
  have h₅ := writing_of_wrote ((hs₄ u rfl).dir.trans hdir₃)
    ((hs₄ u rfl).note.trans hunnoted.1) hcreated
  refine ⟨fine_writing hinv₄ h₅ hcreated, ?_⟩
  refine Prog.keeps_bind ((keeps_sink _ h₅).mono ?_)
  rintro answer s₆ ⟨rfl, h₆⟩
  rw [List.nil_append] at h₆
  show (settle u hashed _ _).Keeps _ _ s₆
  cases (pump announced content 0).1 with
  | ok total =>
    cases hashed with
    | false => trivial
    | true =>
      refine Prog.keeps_bind (keeps_writeFile h₆.toFilled (fun s₇ s₈ hs₈ h₇ => ?_)
        (fun n s₇ s₈ h₇ hinv₇ hwrote => ?_) (fun _ _ _ => trivial) fun _ _ => trivial)
      · exact ⟨h₇.same (hs₈ u rfl), (hs₈ u rfl).note⟩
      · obtain ⟨hkept, h₈⟩ := h₇.wroteNote (fun d hd => ofBytes_take hd) hwrote
        exact ⟨fine_own hinv₇ (aside_of_wrote (place_digest u) hwrote) hkept, h₈⟩
  | error refusal =>
    refine Prog.keeps_bind (keeps_change fun s₇ hs₇ hinv₇ => ⟨fun disk hdisk => ⟨?_, trivial⟩,
      trivial⟩)
    have hkeeps : ∀ q, stagedDir u ++ ["content"] ≠ q → disk.get q = s₇.disk.get q :=
      fun q hq => Tree.get_of_truncate hdisk hq
    refine fine_own hinv₇ (aside_of_place fun q hq => hkeeps q ?_) (.of_unnoted ?_)
    · rintro rfl
      exact hq (place_staged u _)
    · refine (hkeeps _ ?_).trans ((hs₇ u rfl).note.trans h₆.unnoted)
      simp [stagedDir, digestFile]

/-- The directory goes first. -/
theorem keeps_stageRemove (hloose : loose) :
    (stageRemove u).Keeps (terms checked (some u) loose) (fun _ _ => True) s := by
  have hnote : ∀ {s : FsShelf}, (terms checked (some u) loose).inv s →
      s.disk.get (digestFile u) ≠ some .dir := fun hinv => (hinv.1 u rfl).noteFile
  refine Prog.keeps_bind (keeps_discard (fun s₁ _ hinv => ⟨fun s₂ hdisk => ⟨?_, trivial⟩,
    fun s₂ hgone => ⟨?_, trivial⟩⟩) (fun _ _ _ _ => trivial) (P := fun _ => True)
    (fun s₁ s₂ _ hinv hemptied => ⟨fine_elsewhere hinv (aside_of_emptied hemptied), trivial⟩)
    fun answer s₁ _ => ?_)
  · exact fine_elsewhere hinv (aside_of_disk hdisk)
  · refine fine_own hinv (aside_of_left hgone) (.of_gone hloose ?_ ?_)
    · rw [hgone _ (by simp [trash, stagedDir]), if_pos (List.prefix_refl _)]
    · rw [hgone _ (by simp [trash, digestFile]), if_neg (by simp [stagedDir, digestFile])]
      exact hnote hinv
  · cases answer with
    | error e => trivial
    | ok _ =>
      refine keeps_removeDigest fun s₂ _ hinv => ⟨hnote hinv, fun s₃ hunnoted => ⟨?_, trivial⟩⟩
      exact fine_own hinv (aside_of_unnoted hunnoted) (.of_unnoted hunnoted.1)

/-! ## Publishing -/

/-- An upload that may be published: its note is in order, and under no key its content is what
the item's `meta` says. -/
structure Ready (checked loose : Prop) (u : UploadId) (id : ItemId) (envelope : Envelope)
    (s : FsShelf) : Prop where
  kept : KeptAt loose u s
  vouched : checked → envelope.under = none → ∃ content,
    s.disk.get (stagedDir u ++ ["content"]) = some (.file content) ∧
      Describes id envelope.metaJson content

/-- An upload whose envelope is written. -/
structure Enveloped (checked loose : Prop) (u : UploadId) (id : ItemId) (envelope : Envelope)
    (s : FsShelf) : Prop extends Ready checked loose u id envelope s where
  metaJson : s.disk.get (stagedDir u ++ ["meta.json"]) = some (.file envelope.metaJson)
  server : s.disk.get (stagedDir u ++ ["server.json"]) =
    some (.file (ServerJson.toVec (serverFile envelope)))

variable {g : Nat} {id : ItemId} {envelope : Envelope}

omit [ServerJson] in
theorem Ready.same (h : Ready checked loose u id envelope s) (hsame : Same u s s') :
    Ready checked loose u id envelope s' :=
  ⟨h.kept.same hsame, by rw [hsame.staged]; exact h.vouched⟩

theorem Enveloped.same (h : Enveloped checked loose u id envelope s) (hsame : Same u s s') :
    Enveloped checked loose u id envelope s' :=
  ⟨h.toReady.same hsame, (hsame.staged _).trans h.metaJson, (hsame.staged _).trans h.server⟩

omit [ServerJson] in
/-- A file of the directory that is not the content. -/
theorem KeptAt.wroteBeside (h : KeptAt loose u s) {name : String} {bytes : Bytes}
    (hname : name ≠ "content") (hwrote : Wrote (stagedDir u ++ [name]) bytes s s') :
    KeptAt loose u s' := by
  refine h.congr ?_ ?_ ?_
  · rw [hwrote, if_neg]
    simp [stagedDir, digestFile]
  · rw [hwrote, if_neg]
    simp [stagedDir]
  · rw [hwrote, if_neg]
    simp [stagedDir, hname]

omit [ServerJson] in
theorem Ready.wroteBeside (h : Ready checked loose u id envelope s) {name : String}
    {bytes : Bytes} (hname : name ≠ "content")
    (hwrote : Wrote (stagedDir u ++ [name]) bytes s s') : Ready checked loose u id envelope s' := by
  have hcontent : s'.disk.get (stagedDir u ++ ["content"]) =
      s.disk.get (stagedDir u ++ ["content"]) := by
    rw [hwrote, if_neg]
    simp [stagedDir, hname]
  exact ⟨h.kept.wroteBeside hname hwrote, by rw [hcontent]; exact h.vouched⟩

theorem fine_beside (hinv : (terms checked (some u) loose).inv s) {name : String} {bytes : Bytes}
    (hname : name ≠ "content") (hwrote : Wrote (stagedDir u ++ [name]) bytes s s') :
    (terms checked (some u) loose).Fine s s' :=
  fine_own hinv (aside_of_wrote (place_staged u _) hwrote)
    ((hinv.1 u rfl).wroteBeside hname hwrote)

/-- The directory has become the item. -/
theorem honest_move (hjson : ReadsBack) (hbound : envelope.receivedAt < u64Bound)
    (hchecked : checked) (h : Enveloped checked loose u id envelope s) (hhonest : Honest s) :
    Honest { s with disk := s.disk.move (stagedDir u) (itemDir g id) } := by
  intro g' id' content metaJson server receivedAt
  simp only [Tree.get_move]
  by_cases hplace : itemDir g id = itemDir g' id'
  · rw [← hplace]
    simp only [List.prefix_append, if_true, List.drop_left]
    intro hcontent hmeta hserver hread
    obtain rfl : id = id' := by simpa [itemDir] using (List.cons.inj hplace).2
    rw [h.metaJson] at hmeta
    rw [h.server] at hserver
    cases hmeta
    cases hserver
    have hunder := (hjson envelope.under envelope.receivedAt hbound).symm.trans hread
    have hnone : envelope.under = none := by
      cases hkey : envelope.under with
      | none => rfl
      | some key =>
        rw [hkey] at hunder
        cases hunder
    obtain ⟨staged, hstaged, hdescribes⟩ := h.vouched hchecked hnone
    rw [hstaged] at hcontent
    cases hcontent
    exact hdescribes
  · have hout : ∀ name, ¬itemDir g id <+: itemDir g' id' ++ [name] := by
      intro name hpre
      have hlengths : (itemDir g id).length = (itemDir g' id').length := by
        simp only [itemDir, List.length_cons, List.length_nil]
      have hshort := List.prefix_of_prefix_length_le hpre (List.prefix_append _ _) hlengths.le
      exact hplace (hshort.eq_of_length hlengths)
    have hapart : ∀ name, ¬stagedDir u <+: itemDir g' id' ++ [name] := by
      intro name
      simp [stagedDir, itemDir]
    simp only [hout, hapart, if_false]
    exact hhonest g' id' content metaJson server receivedAt

theorem fine_move (hjson : checked → ReadsBack) (hbound : envelope.receivedAt < u64Bound)
    (hloose : loose) (hinv : (terms checked (some u) loose).inv s)
    (h : Enveloped checked loose u id envelope s) :
    (terms checked (some u) loose).Fine s
      { s with disk := s.disk.move (stagedDir u) (itemDir g id) } := by
  have hout : ∀ {q}, staging <+: q → ¬itemDir g id <+: q :=
    fun hq => (apart_of_staging hq).2 g ["items", id.asStr]
  have hkeeps : ∀ q, staging <+: q → ¬stagedDir u <+: q →
      (s.disk.move (stagedDir u) (itemDir g id)).get q = s.disk.get q := by
    intro q hq hapart
    rw [Tree.get_move, if_neg (hout hq), if_neg hapart]
  refine ⟨⟨fun v hv => ?_, fun hchecked => honest_move (hjson hchecked) hbound hchecked h
    (hinv.2 hchecked)⟩,
    fun v hv q hq => ?_⟩
  · cases hv
    refine .of_gone hloose ?_ ?_
    · rw [Tree.get_move, if_neg (hout (place_dir u).staging), if_pos (List.prefix_refl _)]
    · rw [hkeeps _ (place_digest u).staging (by simp [stagedDir, digestFile])]
      exact (hinv.1 u rfl).noteFile
  · exact hkeeps q hq.staging fun hpre => hv (congrArg some (Place.eq (.inl hpre) hq))

/-- After the rename, the note goes. -/
theorem keeps_renamed :
    (do
      once (removeDigest u)
      once (syncDir (items g))
      once (syncDir staging)
      return true : Script Bool).Keeps (terms checked (some u) loose)
        (fun _ s' => KeptAt loose u s') s := by
  refine Prog.keeps_bind (keeps_removeDigest fun s₁ _ hinv => ⟨(hinv.1 u rfl).noteFile, ?_⟩)
  intro s₂ hunnoted
  refine ⟨fine_own hinv (aside_of_unnoted hunnoted) (.of_unnoted hunnoted.1), ?_⟩
  refine Prog.keeps_bind (keeps_reads (reads_syncDir _) fun s₃ hs₃ _ => ?_)
  have h₃ : KeptAt loose u s₃ := .of_unnoted ((hs₃ u rfl).note.trans hunnoted.1)
  cases (syncDir (items g) s₃).1 with
  | error e => exact h₃
  | ok _ =>
    refine Prog.keeps_bind (keeps_reads (reads_syncDir _) fun s₄ hs₄ _ => ?_)
    have h₄ : KeptAt loose u s₄ := h₃.same (hs₄ u rfl)
    cases (syncDir staging s₄).1 with
    | error e => exact h₄
    | ok _ => exact h₄

theorem keeps_rename (hjson : checked → ReadsBack) (hbound : envelope.receivedAt < u64Bound)
    (hloose : loose) (h : Enveloped checked loose u id envelope s) :
    (rename u g id).Keeps (terms checked (some u) loose) (fun _ s' => KeptAt loose u s') s := by
  refine Prog.keeps_bind (Prog.keeps_atom fun s₁ hs₁ hinv => ?_)
  have h₁ := h.same (hs₁ u rfl)
  unfold moveOnto
  cases hrename : s₁.disk.rename (stagedDir u) (itemDir g id) with
  | ok disk =>
    obtain ⟨rfl, -, -⟩ := Tree.of_rename hrename
    exact ⟨fine_move hjson hbound hloose hinv h₁, keeps_renamed⟩
  | error e =>
    have hfine : (terms checked (some u) loose).Fine s₁ s₁ :=
      ⟨hinv, (terms checked (some u) loose).may_refl s₁⟩
    cases e <;> exact ⟨hfine, h₁.kept⟩

/-- Whether an upload may be published under no key: if it has a directory, its content is what
the item's `meta` says. -/
def Vouched (checked : Prop) (u : UploadId) (id : ItemId) (envelope : Envelope) (s : FsShelf) :
    Prop :=
  checked → envelope.under = none → s.disk.get (stagedDir u) = some .dir → ∃ content,
    s.disk.get (stagedDir u ++ ["content"]) = some (.file content) ∧
      Describes id envelope.metaJson content

theorem keeps_publish (hjson : checked → ReadsBack) (hbound : envelope.receivedAt < u64Bound)
    (hloose : loose) (hkept : KeptAt loose u s) (hvouched : Vouched checked u id envelope s) :
    (publish u g id envelope).Keeps (terms checked (some u) loose)
      (fun _ s' => KeptAt loose u s') s := by
  refine Prog.keeps_bind (keeps_look fun s₁ hs₁ _ => ?_)
  show (if s₁.disk.isDir (stagedDir u) = true then _ else _ : Script Bool).Keeps _ _ s₁
  split_ifs with hthere
  swap
  · exact hkept.same (hs₁ u rfl)
  have hdir : s.disk.get (stagedDir u) = some .dir :=
    (hs₁ u rfl).dir.symm.trans (get_of_isDir hthere)
  have h₁ : Ready checked loose u id envelope s₁ :=
    Ready.same ⟨hkept, fun hchecked hunder => hvouched hchecked hunder hdir⟩ (hs₁ u rfl)
  -- the envelope's files
  refine Prog.keeps_bind (keeps_writeFile h₁ (fun s₂ s₃ hs₃ h₂ => ?_)
    (fun n s₂ s₃ h₂ hinv hwrote => ?_) (fun s₃ h₃ hmeta => ?_) fun s₂ h₂ => h₂.kept)
  · exact ⟨h₂.same (hs₃ u rfl), (hs₃ u rfl).staged _⟩
  · exact ⟨fine_beside hinv (by decide) hwrote, h₂.wroteBeside (by decide) hwrote⟩
  refine Prog.keeps_bind (keeps_writeFile (P := fun s => Ready checked loose u id envelope s ∧
      s.disk.get (stagedDir u ++ ["meta.json"]) = some (.file envelope.metaJson)) ⟨h₃, hmeta⟩
    (fun s₄ s₅ hs₅ h₄ => ?_) (fun n s₄ s₅ h₄ hinv hwrote => ?_) (fun s₅ h₅ hserver => ?_)
    fun s₄ h₄ => h₄.1.kept)
  · exact ⟨⟨h₄.1.same (hs₅ u rfl), ((hs₅ u rfl).staged _).trans h₄.2⟩, (hs₅ u rfl).staged _⟩
  · refine ⟨fine_beside hinv (by decide) hwrote, h₄.1.wroteBeside (by decide) hwrote, ?_⟩
    rw [hwrote, if_neg (by simp [stagedDir])]
    exact h₄.2
  have hready : Enveloped checked loose u id envelope s₅ := ⟨h₅.1, h₅.2, hserver⟩
  -- its place
  refine Prog.keeps_bind (keeps_reads (reads_syncDir _) fun s₆ hs₆ _ => ?_)
  have h₆ := hready.same (hs₆ u rfl)
  cases (syncDir (stagedDir u) s₆).1 with
  | error e => exact h₆.kept
  | ok _ =>
    refine Prog.keeps_bind (keeps_makeDir fun s₇ hs₇ hinv s₈ hmade => ?_)
    have haside : Aside none s₇ s₈ := aside_of_made (.inr ⟨g, rfl⟩) hmade
    have h₈ := (h₆.same (hs₇ u rfl)).same (haside.others u (by simp))
    refine ⟨fine_elsewhere hinv haside, fun answer _ => ?_⟩
    cases answer with
    | error e => exact h₈.kept
    | ok _ => exact keeps_rename hjson hbound hloose h₈

/-! ## A commit -/

omit [Crates] [ServerJson] in
theorem of_stageDigest {digest : Digest} (h : (stageDigest u s).1 = .ok (some digest)) :
    ∃ bytes, s.disk.get (digestFile u) = some (.file bytes) ∧
      Digest.ofBytes bytes = some digest := by
  obtain ⟨note, s', hfound, hnote⟩ := of_bind h
  obtain ⟨bytes, rfl, hbytes⟩ := Option.bind_eq_some_iff.mp (Except.ok.inj hnote)
  exact ⟨bytes, get_of_read (of_found hfound).1, hbytes⟩

omit [ServerJson] in
/-- What is not `loose` has left no note. -/
theorem KeptAt.not_left (h : KeptAt False u s) : noteLeft u s = false := by
  rw [Bool.eq_false_iff]
  intro hleft
  obtain ⟨hwhole, hgone⟩ := Bool.and_eq_true_iff.mp hleft
  obtain ⟨digest, hdigest⟩ := Option.isSome_iff_exists.mp hwhole
  obtain ⟨bytes, hbytes, hread⟩ : ∃ bytes, s.disk.get (digestFile u) = some (.file bytes) ∧
      Digest.ofBytes bytes = some digest := by
    refine of_stageDigest ?_
    cases hnote : (stageDigest u s).1 with
    | error e =>
      rw [hnote] at hdigest
      cases hdigest
    | ok note =>
      rw [hnote] at hdigest
      exact congrArg Except.ok hdigest
  have hdir := h.swept id bytes digest hbytes hread
  rw [Tree.isDir, hdir] at hgone
  cases hgone

omit [Crates] [ServerJson] in
theorem of_stageSize {size : Nat} (h : (stageSize u s).1 = .ok (some size)) :
    ∃ content : Bytes, s.disk.get (stagedDir u ++ ["content"]) = some (.file content) ∧
      content.length = size := by
  obtain ⟨there, s', hfound, hthere⟩ := of_bind h
  obtain ⟨content, rfl, hlength⟩ := Option.map_eq_some_iff.mp (Except.ok.inj hthere)
  exact ⟨content, get_of_read (of_found hfound).1, hlength⟩

/-- A commit that finds the note honest may publish. -/
theorem keeps_checkPlaintext {request : UploadRequest} {content : Bytes}
    (hcontent : s.disk.get (stagedDir u ++ ["content"]) = some (.file content))
    (hsize : content.length = request.size) (hkept : KeptAt loose u s) :
    (checkPlaintext u request).Keeps (terms checked (some u) loose)
      (fun answer s' => KeptAt loose u s' ∧ (answer = .ok () →
        s'.disk.get (stagedDir u) = some .dir → ∃ content,
          s'.disk.get (stagedDir u ++ ["content"]) = some (.file content) ∧
            Describes request.id request.metaJson content)) s := by
  unfold checkPlaintext
  cases hmeta : Crates.readMeta request.metaJson with
  | none => exact ⟨hkept, by simp⟩
  | some fields =>
    refine Prog.keeps_bind (keeps_reads (reads_stageDigest u) fun s₁ hs₁ hinv => ?_)
    have h₁ := hkept.same (hs₁ u rfl)
    have hcontent₁ := ((hs₁ u rfl).staged _).trans hcontent
    cases hnote : (stageDigest u s₁).1 with
    | error e => exact ⟨h₁, by simp⟩
    | ok note =>
      dsimp only [Prog.split]
      split
      · rename_i digest saidSha saidSize hsha hsaid
        split_ifs with hhonest
        swap
        · exact ⟨h₁, by simp⟩
        refine ⟨h₁, fun _ hdir => ⟨content, hcontent₁, fields, hmeta, ?_⟩⟩
        obtain ⟨bytes, hbytes, hdigest⟩ := of_stageDigest hnote
        obtain ⟨content', hcontent', rfl⟩ := h₁.told bytes digest hbytes hdigest hdir
        rw [hcontent₁] at hcontent'
        cases hcontent'
        obtain ⟨rfl, rfl, hkey⟩ := hhonest
        exact ⟨hsha, hsize ▸ hsaid, hkey⟩
      · exact ⟨h₁, by simp⟩

theorem keeps_settleUpload (hjson : checked → ReadsBack) {request : UploadRequest} {now : Nat}
    (hbound : now < u64Bound) (hloose : loose) (hkept : KeptAt loose u s)
    (hvouched : Vouched checked u request.id ⟨request.metaJson, request.expectedKeyId, now⟩ s) :
    (settleUpload u request g now).Keeps (terms checked (some u) loose)
      (fun _ s' => KeptAt loose u s') s := by
  refine Prog.keeps_bind (keeps_reads (reads_ids g) fun s₁ hs₁ _ => ?_)
  have h₁ := hkept.same (hs₁ u rfl)
  have hvouched₁ : Vouched checked u request.id
      ⟨request.metaJson, request.expectedKeyId, now⟩ s₁ := by
    unfold Vouched
    rw [(hs₁ u rfl).dir, (hs₁ u rfl).staged]
    exact hvouched
  cases (ids g s₁).1 with
  | error e => exact h₁
  | ok here =>
    dsimp only [Prog.split]
    split
    · exact h₁
    · exact (keeps_publish hjson hbound hloose h₁ hvouched₁).map fun _ => ()

/-- Under no key, what a commit publishes is checked. -/
theorem keeps_commit (hjson : checked → ReadsBack) {request : UploadRequest}
    {checkPlaintextContent : Bool}
    {now : Nat} (hbound : now < u64Bound) (hcheck : checked → checkPlaintextContent = true)
    (hloose : loose) (hkept : KeptAt loose u s) :
    (commit u request g checkPlaintextContent now).Keeps (terms checked (some u) loose)
      (fun _ s' => KeptAt loose u s') s := by
  refine Prog.keeps_bind (keeps_reads (reads_stageSize u) fun s₁ hs₁ _ => ?_)
  have h₁ := hkept.same (hs₁ u rfl)
  cases hsize : (stageSize u s₁).1 with
  | error e => exact h₁
  | ok size =>
    cases size with
    | none =>
      refine Prog.keeps_bind (keeps_reads (reads_readItem _) fun s₂ hs₂ _ => ?_)
      have h₂ := h₁.same (hs₂ u rfl)
      unfold FsShelf.get
      cases (readItem (itemDir g request.id) s₂).1 with
      | error e => exact h₂
      | ok published =>
        show (if published.any (·.size = request.size) = true then _ else _ : Script Unit).Keeps
          _ _ s₂
        split_ifs
        · have hreads : (once (bytes g)).Keeps (terms checked (some u) loose)
              (fun _ s' => KeptAt loose u s') s₂ :=
            keeps_reads (reads_bytes g) fun s₃ hs₃ _ => h₂.same (hs₃ u rfl)
          exact hreads.map fun _ => ()
        · exact h₂
    | some size =>
      obtain ⟨content, hcontent, hlength⟩ := of_stageSize hsize
      show (if size ≠ request.size then _
        else if (checkPlaintextContent && _) = true then _ else _ :
        Script Unit).Keeps _ _ s₁
      split_ifs with hne hchecks
      · exact h₁
      · refine Prog.keeps_bind ((keeps_checkPlaintext hcontent
          (hlength.trans (not_ne_iff.mp hne)) h₁).mono fun answer s₂ ⟨h₂, hdescribes⟩ => ?_)
        cases answer with
        | error e => exact h₂
        | ok _ => exact keeps_settleUpload hjson hbound hloose h₂ fun _ _ => hdescribes rfl
      · refine keeps_settleUpload hjson hbound hloose h₁ fun hchecked hunder => ?_
        rw [hcheck hchecked, Bool.true_and, Option.isNone_iff_eq_none] at hchecks
        exact absurd hunder hchecks

/-! ## What is about no upload -/

theorem keeps_discardOutside {path : Path} (hpath : ∃ g rest, path = generationDir g ++ rest) :
    (discard path).Keeps (terms checked none loose) (fun _ _ => True) s :=
  keeps_discard (P := fun _ => True) (fun _ _ hinv =>
    ⟨fun _ hdisk => ⟨fine_elsewhere hinv (aside_of_disk hdisk), trivial⟩,
      fun _ hgone => ⟨fine_elsewhere hinv (aside_of_gone hpath hgone), trivial⟩⟩)
    (fun _ _ _ _ => trivial)
    (fun _ _ _ hinv hemptied => ⟨fine_elsewhere hinv (aside_of_emptied hemptied), trivial⟩)
    fun _ _ _ => trivial

theorem keeps_remove (g : Nat) (id : ItemId) :
    (remove g id).Keeps (terms checked none loose) (fun _ _ => True) s := by
  refine Prog.keeps_bind (keeps_reads (reads_readItem _) fun s₁ _ _ => ?_)
  cases (readItem (itemDir g id) s₁).1 with
  | error e => trivial
  | ok item =>
    cases item with
    | none => trivial
    | some item =>
      refine Prog.keeps_bind ((keeps_discardOutside ⟨g, ["items", id.asStr], rfl⟩).mono
        fun answer s₂ _ => ?_)
      cases answer with
      | error e => trivial
      | ok there =>
        cases there with
        | false => trivial
        | true =>
          have hreads : (once (syncDir (items g))).Keeps (terms checked none loose)
              (fun _ _ => True) s₂ := keeps_reads (reads_syncDir _) fun _ _ _ => trivial
          exact hreads.map fun _ => some item

theorem keeps_dropGeneration (g : Nat) :
    (dropGeneration g).Keeps (terms checked none loose) (fun _ _ => True) s := by
  refine Prog.keeps_bind ((keeps_discardOutside ⟨g, [], rfl⟩).mono fun answer s₁ _ => ?_)
  cases answer with
  | error e => trivial
  | ok there =>
    cases there with
    | false => trivial
    | true => exact keeps_reads (reads_syncDir _) fun _ _ _ => trivial

end Methods

end Kept

/-! ## Everything that is done to the shelf -/

/-- The upload whose files a call changes. -/
def own : ShelfCall → Option UploadId
  | .stageCreate upload | .stageWrite upload _ _ | .stageWriteHashed upload _ _
  | .stageRemove upload | .publish upload _ _ _ => some upload
  | _ => none

/-- What is done to the shelf: a call of the trait, or a commit's part of it. -/
inductive Act where
  | call (c : ShelfCall)
  | commit (upload : UploadId) (request : UploadRequest) (generation : Nat)
      (checkPlaintextContent : Bool) (now : Nat)

namespace Act

def own : Act → Option UploadId
  | call c => Script.own c
  | commit upload _ _ _ _ => some upload

/-- Whether it makes a staging directory. -/
def creates : Act → Bool
  | call (.stageCreate _) => true
  | _ => false

/-- The time it puts into an envelope. -/
def time : Act → Option Nat
  | call (.publish _ _ _ envelope) => some envelope.receivedAt
  | commit _ _ _ _ now => some now
  | _ => none

/-- A time is a `u64`. -/
def InTime (a : Act) : Prop := ∀ t ∈ a.time, t < u64Bound

/-- Whether plaintext is checked before it is published. -/
def checks : Act → Bool
  | call (.publish _ _ _ envelope) => envelope.under.isSome
  | commit _ _ _ checkPlaintextContent _ => checkPlaintextContent
  | _ => true

section
variable [Crates] [ServerJson]

def script : Act → Script Unit
  | call c => do
    let _ ← Script.call c
  | commit upload request generation checkPlaintextContent now =>
    Script.commit upload request generation checkPlaintextContent now

variable {checked loose : Prop} {s : FsShelf}

/-- **Whatever is done to the shelf keeps its terms.** -/
theorem keeps_script (hjson : checked → ReadsBack) {a : Act} (htime : a.InTime)
    (hchecked : checked → a.checks = true) (hcreate : a.creates = true → ¬loose)
    (hloose : a.creates = false → loose)
    (hkept : ∀ u, a.own = some u → KeptAt loose u s) :
    a.script.Keeps (terms checked a.own loose) (fun _ _ => True) s := by
  have hreads : ∀ {m : Steps ShelfReply}, Reads m →
      (do let _ ← once m : Script Unit).Keeps (terms checked none loose) (fun _ _ => True) s :=
    fun hm => (keeps_reads hm fun _ _ _ => trivial).map _
  cases a with
  | commit u request g checkPlaintextContent now =>
    refine (keeps_commit hjson (htime now rfl) hchecked (hloose rfl) (hkept u rfl)).mono ?_
    exact fun _ _ _ => trivial
  | call c =>
    cases c with
    | stageCreate u => exact ((keeps_stageCreate (hcreate rfl)).map _).map _
    | stageWrite u content announced | stageWriteHashed u content announced =>
      exact ((keeps_write content announced _).map _).map _
    | stageRemove u => exact ((keeps_stageRemove (hloose rfl)).map _).map _
    | publish u g id envelope =>
      have hvouched : Vouched checked u id envelope s := fun h hunder =>
        absurd hunder (Option.isSome_iff_ne_none.mp (hchecked h))
      refine (((keeps_publish hjson (htime _ rfl) (hloose rfl) (hkept u rfl)
        hvouched).map _).map _).mono ?_
      exact fun _ _ _ => trivial
    | remove g id => exact ((keeps_remove g id).map _).map _
    | dropGeneration g => exact ((keeps_dropGeneration g).map _).map _
    | stageDigest u => exact hreads ((reads_stageDigest u).bind fun _ => reads_pure _)
    | stageSize u => exact hreads ((reads_stageSize u).bind fun _ => reads_pure _)
    | staged => exact hreads (reads_staged.bind fun _ => reads_pure _)
    | get g id => exact hreads ((reads_readItem _).bind fun _ => reads_pure _)
    | openContent g id => exact hreads ((reads_openContentFrom g id 0).bind fun _ => reads_pure _)
    | openContentFrom g id offset =>
      exact hreads ((reads_openContentFrom g id offset).bind fun _ => reads_pure _)
    | ids g => exact hreads ((reads_ids g).bind fun _ => reads_pure _)
    | generations => exact hreads (reads_generations.bind fun _ => reads_pure _)
    | bytes g => exact hreads ((reads_bytes g).bind fun _ => reads_pure _)

end

end Act

/-! ## Opening -/

/-- A note is named after its upload, and nothing else has such a name. -/
theorem notedUpload_eq_some {name : String} {u : UploadId} :
    notedUpload name = some u ↔ name = digestName u := by
  unfold notedUpload
  rw [Option.bind_eq_some_iff]
  simp only [List.dropSuffix?_eq_some_iff,
    parsedName_eq_some UploadId.of_parse UploadId.parse_asStr]
  constructor
  · rintro ⟨upload, ⟨suffix, hname, hsuffix⟩, hupload⟩
    rw [eq_of_beq hsuffix] at hname
    refine String.toList_injective (hname.trans ?_)
    unfold digestName
    rw [String.toList_append, ← hupload, String.toList_ofList (l := upload)]
  · rintro rfl
    refine ⟨u.asStr.toList, ⟨".sha256".toList, ?_, beq_self_eq_true _⟩, String.ofList_toList⟩
    unfold digestName
    rw [String.toList_append]

section Opening

variable [Crates] [ServerJson] {checked : Prop} {s s' : FsShelf}

/-- What `open` finds and keeps, alone: any upload may have left a note. -/
def opening (checked : Prop) : Terms FsShelf where
  inv s := (∀ u, KeptAt True u s) ∧ (checked → Honest s)
  rely s s' := s' = s
  may _ _ := True
  rely_refl _ := rfl
  rely_trans h h' := h'.trans h
  may_refl _ := trivial

theorem opening_aside (hinv : (opening checked).inv s) (haside : Aside none s s') :
    (opening checked).Fine s s' :=
  ⟨⟨fun u => (hinv.1 u).same (haside.others u nofun), fun h => (hinv.2 h).aside haside⟩, trivial⟩

theorem keeps_emptyTrash (names : List String) (hstaging : ∃ node, s.disk.get staging = some node) :
    (emptyTrash names).Keeps (opening checked)
      (fun _ s' => ∃ node, s'.disk.get staging = some node) s := by
  induction names generalizing s with
  | nil => exact hstaging
  | cons name names ih =>
    refine Prog.keeps_bind (keeps_removeTree ⟨[name], rfl⟩ fun s₁ hs₁ hinv s₂ hemptied => ?_)
    obtain rfl : s₁ = s := hs₁
    have hthere : ∃ node, s₂.disk.get staging = some node := by
      rw [hemptied _ (by simp [trash, staging])]
      exact hstaging
    refine ⟨opening_aside hinv (aside_of_emptied hemptied), fun answer => ?_⟩
    cases answer with
    | error e => exact hthere
    | ok _ => exact ih hthere

/-- After the sweep, no note is without its directory. -/
theorem keeps_sweepDigests (names : List String) (hinv : (opening checked).inv s)
    (h : ∀ u, digestName u ∉ names → ∀ bytes, s.disk.get (digestFile u) = some (.file bytes) →
      s.disk.get (stagedDir u) = some .dir) :
    (sweepDigests names).Keeps (opening checked)
      (fun answer s' => answer = .ok () → ∀ u, KeptAt False u s') s := by
  induction names generalizing s with
  | nil => exact fun _ u => ⟨(hinv.1 u).told, fun _ bytes _ hbytes _ =>
    h u (by simp) bytes hbytes, (hinv.1 u).noteFile⟩
  | cons name names ih =>
    refine Prog.keeps_bind (keeps_look fun s₁ hs₁ _ => ?_)
    obtain rfl : s₁ = s := hs₁
    show Prog.Keeps _ _ (do
      if orphan s₁.disk name = true then once (change (·.unlink ["staging", name])) else pure ()
      sweepDigests names) s₁
    split_ifs with horphan
    · -- a note whose upload is gone
      obtain ⟨u, hu, hgone⟩ := (Option.any_eq_true _ _).mp horphan
      obtain rfl := notedUpload_eq_some.mp hu
      refine Prog.keeps_bind (keeps_change fun s₂ hs₂ _ => ⟨fun disk hdisk => ?_, nofun⟩)
      obtain rfl : s₂ = s₁ := hs₂
      have hunnoted : Unnoted u s₂ { s₂ with disk } := by
        refine ⟨(Tree.get_of_unlink hdisk _).trans (if_pos (List.prefix_refl _)), fun q hq => ?_⟩
        exact (Tree.get_of_unlink hdisk q).trans (if_neg hq)
      have hfine : (opening checked).Fine s₂ { s₂ with disk } := by
        refine ⟨⟨fun v => ?_, fun hchecked =>
          (hinv.2 hchecked).aside (aside_of_unnoted hunnoted)⟩, trivial⟩
        by_cases hv : u = v
        · subst hv
          exact .of_unnoted hunnoted.1
        · exact (hinv.1 v).same ((aside_of_unnoted hunnoted).others v fun h =>
            hv (Option.some.inj h))
      refine ⟨hfine, ih hfine.1 fun v hv bytes hbytes => ?_⟩
      by_cases huv : u = v
      · subst huv
        rw [hunnoted.1] at hbytes
        cases hbytes
      · have hsame := (aside_of_unnoted hunnoted).others v fun h => huv (Option.some.inj h)
        rw [hsame.note] at hbytes
        rw [hsame.dir]
        refine h v ?_ bytes hbytes
        simp only [List.mem_cons, digestName_inj, not_or]
        exact ⟨Ne.symm huv, hv⟩
    · refine ih hinv fun v hv bytes hbytes => ?_
      by_cases hname : digestName v = name
      · by_contra hdir
        refine horphan ((Option.any_eq_true _ _).mpr ⟨v, notedUpload_eq_some.mpr hname.symm, ?_⟩)
        rw [isDir_eq_false hdir]
        rfl
      · exact h v (by simp [hname, hv]) bytes hbytes

omit [Crates] [ServerJson] in
theorem of_listing {path : Path} {names : List String} (h : (listing path s).1 = .ok names)
    (hthere : ∃ node, s.disk.get path = some node) : names = s.disk.children path := by
  obtain ⟨node, hnode⟩ := hthere
  cases node with
  | dir =>
    rw [listing_dir hnode] at h
    exact (Except.ok.inj h).symm
  | file content =>
    have hfound : found (·.readDir path) s = (.error .serviceUnavailable, s) := by
      simp only [found, Tree.readDir, hnode]
    unfold listing at h
    rw [bind_error hfound] at h
    cases h

/-- **Whatever was left, `open` sweeps it up**, and wherever it is cut, what holds stays. -/
theorem keeps_openAt (process : Nat) :
    (openAt process).Keeps (opening checked)
      (fun answer s' => answer = .ok () → ∀ u, KeptAt False u s') s := by
  refine Prog.keeps_bind (Prog.keeps_atom fun s₁ _ hinv =>
    ⟨opening_aside hinv (aside_of_disk rfl), ?_⟩)
  refine Prog.keeps_bind (keeps_makeDir fun s₂ _ hinv s₃ hmade =>
    ⟨opening_aside hinv (aside_of_made (.inl (by simp)) hmade), fun answer _ => ?_⟩)
  cases answer with
  | error e => nofun
  | ok _ =>
  refine Prog.keeps_bind (keeps_makeDir fun s₄ _ hinv s₅ hmade =>
    ⟨opening_aside hinv (aside_of_made (.inl (le_refl 1)) hmade), fun answer hnode => ?_⟩)
  cases answer with
  | error e => nofun
  | ok _ =>
  have hstaging := hnode rfl
  refine Prog.keeps_bind (keeps_makeDir fun s₆ hs₆ hinv s₇ htrash =>
    ⟨opening_aside hinv (aside_of_made (.inl (le_refl 1)) htrash), fun answer _ => ?_⟩)
  obtain rfl : s₆ = s₅ := hs₆
  cases answer with
  | error e => nofun
  | ok _ =>
  have hstaging₇ : ∃ node, s₇.disk.get staging = some node := by
    rcases htrash staging with hsame | ⟨-, hdir⟩
    · rw [hsame]
      exact hstaging
    · exact ⟨_, hdir⟩
  refine Prog.keeps_bind (keeps_reads (reads_listing _) fun s₈ hs₈ _ => ?_)
  obtain rfl : s₈ = s₇ := hs₈
  cases (listing trash s₈).1 with
  | error e => nofun
  | ok bins =>
  refine Prog.keeps_bind ((keeps_emptyTrash bins hstaging₇).mono fun answer s₉ hstaging₉ => ?_)
  cases answer with
  | error e => nofun
  | ok _ =>
  refine Prog.keeps_bind (keeps_reads (reads_listing _) fun s₁₀ hs₁₀ hinv => ?_)
  obtain rfl : s₁₀ = s₉ := hs₁₀
  cases hlisting : (listing staging s₁₀).1 with
  | error e => nofun
  | ok names =>
  refine keeps_sweepDigests names hinv fun u hu bytes hbytes => absurd ?_ hu
  rw [of_listing hlisting hstaging₉]
  exact Tree.mem_children.mpr ⟨_, hbytes⟩

end Opening

end Script

end FsShelf

end Passalong
