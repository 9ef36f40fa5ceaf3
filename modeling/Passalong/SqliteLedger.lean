import Passalong.Ledger
import Passalong.Lib.Except

/-!
# The ledger over the control database is the ledger in memory (`ledger/sqlite.rs`)

A record's sum types lie flat over nullable columns and its collections over four child
tables, and are put together again by every `read`. This file shows that nothing is lost
on the way and nothing gets in the way:

- `stored`: the rows a record is stored as. They read back as the record
  (`parse_stored`), and can be made exactly when its numbers fit (`fits_stored`);
- `Database.write_eq`: `write` puts them in place of the workspace's rows, with no
  constraint ever in the way, and leaves every other workspace's as they were;
- `Represents`: every workspace has the rows of what the memory ledger has for it. Every
  call keeps this (`Represents.answer`, `Represents.next`);
- `Database.is_memoryLedger`: whole runs answer alike, and every call keeps the promises
  of the `Ledger` trait.
-/

namespace Passalong

open Lib

/-! ## Columns read back -/

theorem toDb_ok {n : Nat} (h : n < dbBound) : toDb n = .ok (n : Int) := if_pos h

/-- Only a number that does not fit is refused, and as such. -/
theorem toDb_error {n : Nat} (h : ¬ n < dbBound) : toDb n = .error tooLarge := if_neg h

@[simp] theorem fromDb_cast (n : Nat) : fromDb (n : Int) = .ok n := by
  simp [fromDb]

theorem fromDb_of_toDb {n : Nat} {i : Int} (h : toDb n = .ok i) : fromDb i = .ok n := by
  unfold toDb at h
  split at h
  · cases h
    exact fromDb_cast n
  · cases h

theorem toDb_eq_cast {n : Nat} {i : Int} (h : toDb n = .ok i) : i = n := by
  unfold toDb at h
  split at h
  · cases h
    rfl
  · cases h

@[simp] theorem boolFromDb_boolToDb (b : Bool) : boolFromDb (boolToDb b) = b := by
  cases b <;> rfl

@[simp] theorem kindFrom_asStr (kind : RewriteKind) : kindFrom kind.asStr = .ok kind := by
  cases kind <;> rfl

@[simp] theorem parsed_ok {α : Type} (what : String) (a : α) : parsed what (.ok a) = .ok a := rfl

@[simp] theorem keyFrom_asStr (key : Option KeyId) : keyFrom (key.map KeyId.asStr) = .ok key := by
  cases key with
  | none => rfl
  | some key =>
    show (parsed "a key id" (KeyId.parse key.asStr)).map some = _
    rw [KeyId.parse_asStr]
    rfl

/-! ## What a record is stored as -/

/-- The rows a record is stored as, if its numbers fit their columns. -/
def stored (id : String) (rec : WorkspaceRecord) : Except Refusal View := do
  let row ← workspaceRow id rec
  let generations ← rec.used.toList.mapM (generationRow id)
  let uploads ← rec.tickets.toList.mapM (uploadRow id)
  let tombstones ← rec.tombstones.toList.mapM (tombstoneRow id)
  let ended ← rec.ended.mapM (endedRow id)
  .ok ⟨row, generations, uploads, tombstones, ended⟩

/-- The five steps of storing a record, each with what it made. -/
structure Stored (id : String) (rec : WorkspaceRecord) (v : View) : Prop where
  row : ∃ row, workspaceRow id rec = .ok row ∧ v.row = some row
  generations : rec.used.toList.mapM (generationRow id) = .ok v.generations
  uploads : rec.tickets.toList.mapM (uploadRow id) = .ok v.uploads
  tombstones : rec.tombstones.toList.mapM (tombstoneRow id) = .ok v.tombstones
  ended : rec.ended.mapM (endedRow id) = .ok v.endedRewrites

theorem stored_eq_ok {id : String} {rec : WorkspaceRecord} {v : View} :
    stored id rec = .ok v ↔ Stored id rec v := by
  constructor
  · intro h
    obtain ⟨row, hrow, h⟩ := bind_eq_ok h
    obtain ⟨generations, hgenerations, h⟩ := bind_eq_ok h
    obtain ⟨uploads, huploads, h⟩ := bind_eq_ok h
    obtain ⟨tombstones, htombstones, h⟩ := bind_eq_ok h
    obtain ⟨ended, hended, h⟩ := bind_eq_ok h
    cases h
    exact ⟨⟨row, hrow, rfl⟩, hgenerations, huploads, htombstones, hended⟩
  · rintro ⟨⟨row, hrow, hv⟩, hgenerations, huploads, htombstones, hended⟩
    obtain ⟨vrow, vgenerations, vuploads, vtombstones, vended⟩ := v
    cases hv
    unfold stored
    rw [hrow, hgenerations, huploads, htombstones, hended]
    rfl

/-! ## Rows read back -/

/-- The row of a record: its seal and session columns as `workspaceRow` fills them, its
numbers converted. -/
theorem workspaceRow_eq_ok {id : String} {rec : WorkspaceRecord} {row : WorkspaceRow}
    (h : workspaceRow id rec = .ok row) :
    row.id = id ∧ toDb rec.generation = .ok row.generation ∧
      rec.plain.mapM toDb = .ok row.plain ∧ toDb rec.nextGeneration = .ok row.nextGeneration ∧
      row.sealKey = (rec.seal?.map Seal.keyId).map KeyId.asStr ∧
      row.sealHeader = rec.seal?.map Seal.header ∧
      row.rwKind = (sessionColumn rec.state fun session => session.kind.asStr) ∧
      row.rwNextKey = (sessionColumn rec.state fun session => session.next.keyId.asStr) ∧
      row.rwNextHeader = (sessionColumn rec.state fun session => session.next.header) ∧
      row.rwHolder = (sessionColumn rec.state fun session => session.holder.text) ∧
      (sessionColumn rec.state Session.leaseExpiresAt).mapM toDb = .ok row.rwLeaseExpiresAt ∧
      (sessionColumn rec.state Session.stagedGeneration).mapM toDb =
        .ok row.rwStagedGeneration := by
  obtain ⟨generation, hgeneration, h⟩ := bind_eq_ok h
  obtain ⟨plain, hplain, h⟩ := bind_eq_ok h
  obtain ⟨next, hnext, h⟩ := bind_eq_ok h
  obtain ⟨lease, hlease, h⟩ := bind_eq_ok h
  obtain ⟨staged, hstaged, h⟩ := bind_eq_ok h
  cases h
  refine ⟨rfl, hgeneration, hplain, hnext, ?_, rfl, rfl, rfl, rfl, rfl, hlease, hstaged⟩
  rw [Option.map_map]
  rfl

/-- A nullable number column reads back. -/
theorem mapM_fromDb {o : Option Nat} {c : Option Int} (h : o.mapM toDb = .ok c) :
    c.mapM fromDb = .ok o := by
  cases o with
  | none =>
    cases h
    rfl
  | some n =>
    obtain ⟨i, hi, h⟩ := bind_eq_ok h
    cases h
    show (fromDb i >>= fun n => pure (some n)) = _
    rw [fromDb_of_toDb hi]
    rfl

theorem seal_workspaceRow {row : WorkspaceRow} {sealed : Option Seal}
    (hkey : row.sealKey = (sealed.map Seal.keyId).map KeyId.asStr)
    (hheader : row.sealHeader = sealed.map Seal.header) : row.seal? = .ok sealed := by
  unfold WorkspaceRow.seal?
  rw [hkey, hheader, keyFrom_asStr]
  cases sealed <;> rfl

/-- **The encryption state of a stored row reads back.** -/
theorem state_workspaceRow {id : String} {rec : WorkspaceRecord} {row : WorkspaceRow}
    (h : workspaceRow id rec = .ok row) : row.state = .ok rec.state := by
  obtain ⟨-, -, -, -, hkey, hheader, hkind, hnextKey, hnextHeader, hholder, hlease, hstaged⟩ :=
    workspaceRow_eq_ok h
  have hsealed := seal_workspaceRow hkey hheader
  unfold WorkspaceRow.state
  rw [hsealed, hkind, hnextKey, hnextHeader, hholder]
  unfold WorkspaceRecord.seal?
  cases hstate : rec.state with
  | settled sealed => rfl
  | rewriting session =>
    rw [hstate] at hlease hstaged
    obtain ⟨lease, hlease, hleaseRow⟩ := bind_eq_ok hlease
    obtain ⟨staged, hstaged, hstagedRow⟩ := bind_eq_ok hstaged
    rw [← Except.ok.inj hleaseRow, ← Except.ok.inj hstagedRow]
    have hnext := keyFrom_asStr (some session.next.keyId)
    simp only [sessionColumn, Option.map_some] at hnext ⊢
    simp only [kindFrom_asStr, hnext, needed, fromDb_of_toDb hlease, fromDb_of_toDb hstaged,
      bind, Except.bind]

theorem generationRow_eq_ok {id : String} {e : Nat × Nat} {row : GenerationRow}
    (h : generationRow id e = .ok row) :
    row.workspace = id ∧ row.generation = e.1 ∧ row.entry = .ok e := by
  obtain ⟨generation, hgeneration, h⟩ := bind_eq_ok h
  obtain ⟨bytes, hbytes, h⟩ := bind_eq_ok h
  cases h
  refine ⟨rfl, toDb_eq_cast hgeneration, ?_⟩
  unfold GenerationRow.entry
  rw [fromDb_of_toDb hgeneration, fromDb_of_toDb hbytes]
  rfl

theorem uploadRow_eq_ok {id : String} {e : UploadId × Ticket} {row : UploadRow}
    (h : uploadRow id e = .ok row) :
    row.workspace = id ∧ row.uploadId = e.1.asStr ∧ row.entry = .ok e := by
  obtain ⟨size, hsize, h⟩ := bind_eq_ok h
  obtain ⟨expires, hexpires, h⟩ := bind_eq_ok h
  cases h
  refine ⟨rfl, rfl, ?_⟩
  unfold UploadRow.entry
  simp only [UploadId.parse_asStr, ItemId.parse_asStr, parsed_ok, fromDb_of_toDb hsize,
    keyFrom_asStr, fromDb_of_toDb hexpires, boolFromDb_boolToDb, bind, Except.bind]

theorem tombstoneRow_eq_ok {id : String} {e : UploadId × Tombstone} {row : TombstoneRow}
    (h : tombstoneRow id e = .ok row) :
    row.workspace = id ∧ row.uploadId = e.1.asStr ∧ row.entry = .ok e := by
  obtain ⟨expires, hexpires, h⟩ := bind_eq_ok h
  cases h
  refine ⟨rfl, rfl, ?_⟩
  unfold TombstoneRow.entry
  simp only [UploadId.parse_asStr, ItemId.parse_asStr, parsed_ok, fromDb_of_toDb hexpires,
    boolFromDb_boolToDb, bind, Except.bind]

theorem endedRow_eq_ok {id : String} {key : KeyId} {row : EndedRow}
    (h : endedRow id key = .ok row) :
    row.workspace = id ∧ row.keyId = key.asStr ∧ row.entry = .ok key := by
  cases h
  refine ⟨rfl, rfl, ?_⟩
  show parsed "a key id" (KeyId.parse key.asStr) = _
  rw [KeyId.parse_asStr, parsed_ok]

@[simp] theorem ended_toFinset (rec : WorkspaceRecord) : rec.ended.toFinset = rec.endedRewrites :=
  Finset.sort_toFinset _ _

/-- **A stored record reads back whole.** -/
theorem parse_stored {id : String} {rec : WorkspaceRecord} {v : View} (h : stored id rec = .ok v) :
    v.parse = .ok rec := by
  obtain ⟨⟨row, hrow, hv⟩, hgenerations, huploads, htombstones, hended⟩ := stored_eq_ok.mp h
  have hused := Tables.collect_toList
    (Tables.mapM_back (fun _ _ h => (generationRow_eq_ok h).2.2) hgenerations)
  have htickets := Tables.collect_toList
    (Tables.mapM_back (fun _ _ h => (uploadRow_eq_ok h).2.2) huploads)
  have hstones := Tables.collect_toList
    (Tables.mapM_back (fun _ _ h => (tombstoneRow_eq_ok h).2.2) htombstones)
  have hkeys := Tables.mapM_back (fun _ _ h => (endedRow_eq_ok h).2.2) hended
  obtain ⟨-, hgeneration, hplain, hnext, -⟩ := workspaceRow_eq_ok hrow
  unfold View.parse
  rw [hv]
  simp only [state_workspaceRow hrow, hused, htickets, hstones, hkeys,
    fromDb_of_toDb hgeneration, mapM_fromDb hplain, fromDb_of_toDb hnext, bind, Except.bind,
    ended_toFinset]

/-! ## Records that fit -/

/-- Every number of a record is at most the greatest `i64`. -/
structure WorkspaceRecord.Fits (rec : WorkspaceRecord) : Prop where
  generation : rec.generation < dbBound
  plain : ∀ n ∈ rec.plain, n < dbBound
  next : rec.nextGeneration < dbBound
  lease : ∀ n ∈ sessionColumn rec.state Session.leaseExpiresAt, n < dbBound
  staged : ∀ n ∈ sessionColumn rec.state Session.stagedGeneration, n < dbBound
  used : ∀ e ∈ rec.used.toList, e.1 < dbBound ∧ e.2 < dbBound
  tickets : ∀ e ∈ rec.tickets.toList, e.2.request.size < dbBound ∧ e.2.expiresAt < dbBound
  tombstones : ∀ e ∈ rec.tombstones.toList, e.2.expiresAt < dbBound

/-- A computation that succeeds when `P` holds, and else is refused for a number that does
not fit. -/
def FitsExactly {α : Type} (P : Prop) (x : Except Refusal α) : Prop :=
  (P ∧ ∃ a, x = .ok a) ∨ (¬ P ∧ x = .error tooLarge)

namespace FitsExactly

variable {α β : Type} {P Q : Prop} {x : Except Refusal α}

theorem toDb (n : Nat) : FitsExactly (n < dbBound) (toDb n) := by
  by_cases h : n < dbBound
  · exact .inl ⟨h, n, toDb_ok h⟩
  · exact .inr ⟨h, toDb_error h⟩

theorem pure (a : α) : FitsExactly True (.ok a) := .inl ⟨trivial, a, rfl⟩

theorem bind {f : α → Except Refusal β} (hx : FitsExactly P x) (hf : ∀ a, FitsExactly Q (f a)) :
    FitsExactly (P ∧ Q) (x >>= f) := by
  obtain ⟨hp, a, rfl⟩ | ⟨hp, rfl⟩ := hx
  · obtain ⟨hq, b, hb⟩ | ⟨hq, hb⟩ := hf a
    · exact .inl ⟨⟨hp, hq⟩, b, hb⟩
    · exact .inr ⟨fun h => hq h.2, hb⟩
  · exact .inr ⟨fun h => hp h.1, rfl⟩

theorem congr (hx : FitsExactly P x) (hpq : P ↔ Q) : FitsExactly Q x := by
  rw [FitsExactly, ← hpq]
  exact hx

theorem mapM_option (o : Option Nat) :
    FitsExactly (∀ n ∈ o, n < dbBound) (o.mapM Passalong.toDb) := by
  cases o with
  | none => exact (pure none).congr (by simp)
  | some n => exact ((toDb n).bind fun i => pure (some i)).congr (by simp)

theorem mapM {A : Type} {p : A → Prop} {f : A → Except Refusal β}
    (hf : ∀ a, FitsExactly (p a) (f a)) (l : List A) :
    FitsExactly (∀ a ∈ l, p a) (l.mapM f) := by
  induction l with
  | nil => exact (pure []).congr (by simp)
  | cons a l ih =>
    rw [List.mapM_cons]
    exact ((hf a).bind fun b => ih.bind fun bs => pure (b :: bs)).congr (by simp)

end FitsExactly

theorem fits_workspaceRow (id : String) (rec : WorkspaceRecord) :
    FitsExactly (rec.generation < dbBound ∧ (∀ n ∈ rec.plain, n < dbBound) ∧
      rec.nextGeneration < dbBound ∧
      (∀ n ∈ sessionColumn rec.state Session.leaseExpiresAt, n < dbBound) ∧
      (∀ n ∈ sessionColumn rec.state Session.stagedGeneration, n < dbBound) ∧ True)
      (workspaceRow id rec) :=
  (FitsExactly.toDb _).bind fun _ => (FitsExactly.mapM_option _).bind fun _ =>
    (FitsExactly.toDb _).bind fun _ => (FitsExactly.mapM_option _).bind fun _ =>
      (FitsExactly.mapM_option _).bind fun _ => FitsExactly.pure _

theorem fits_generationRow (id : String) (e : Nat × Nat) :
    FitsExactly (e.1 < dbBound ∧ e.2 < dbBound) (generationRow id e) :=
  ((FitsExactly.toDb _).bind fun _ => (FitsExactly.toDb _).bind fun _ =>
    FitsExactly.pure _).congr (by simp)

theorem fits_uploadRow (id : String) (e : UploadId × Ticket) :
    FitsExactly (e.2.request.size < dbBound ∧ e.2.expiresAt < dbBound) (uploadRow id e) :=
  ((FitsExactly.toDb _).bind fun _ => (FitsExactly.toDb _).bind fun _ =>
    FitsExactly.pure _).congr (by simp)

theorem fits_tombstoneRow (id : String) (e : UploadId × Tombstone) :
    FitsExactly (e.2.expiresAt < dbBound) (tombstoneRow id e) :=
  ((FitsExactly.toDb _).bind fun _ => FitsExactly.pure _).congr (by simp)

/-- **A record is stored exactly when all its numbers fit**, and else is refused for a
number that does not. -/
theorem fits_stored (id : String) (rec : WorkspaceRecord) :
    FitsExactly rec.Fits (stored id rec) := by
  refine ((fits_workspaceRow id rec).bind fun _ =>
    (FitsExactly.mapM (fits_generationRow id) _).bind fun _ =>
      (FitsExactly.mapM (fits_uploadRow id) _).bind fun _ =>
        (FitsExactly.mapM (fits_tombstoneRow id) _).bind fun _ =>
          (FitsExactly.mapM (fun key => FitsExactly.pure _) _).bind fun _ =>
            FitsExactly.pure _).congr ?_
  constructor
  · rintro ⟨⟨hgeneration, hplain, hnext, hlease, hstaged, -⟩, hused, htickets, hstones, -⟩
    exact ⟨hgeneration, hplain, hnext, hlease, hstaged, hused, htickets, hstones⟩
  · rintro ⟨hgeneration, hplain, hnext, hlease, hstaged, hused, htickets, hstones⟩
    exact ⟨⟨hgeneration, hplain, hnext, hlease, hstaged, trivial⟩, hused, htickets, hstones,
      fun _ _ => trivial, trivial⟩

/-! ## Writing replaces one workspace's rows -/

section Replace

variable {R A K : Type} [DecidableEq K] {workspaces : List WorkspaceRow} {workspaceOf : R → String}
  {key : R → K} {id : String} (row : A → Except Refusal R) {keyOf : A → K} {entries : List A}
  {table rows : List R}

/-- A workspace's entries replace its rows if they can be made: no constraint is in the
way. -/
theorem replaceRows_eq (hparent : workspaces.any fun w => w.id = id)
    (hrow : ∀ a r, row a = .ok r → workspaceOf r = id ∧ key r = keyOf a)
    (hdistinct : (entries.map keyOf).Nodup) :
    replaceRows workspaces workspaceOf key id row entries table =
      (entries.mapM row).map ((table.filter fun r => workspaceOf r ≠ id) ++ ·) := by
  have hfresh : Tables.Fresh (fun r => (workspaceOf r, key r)) row (fun a => (id, keyOf a)) entries
      (table.filter fun r => workspaceOf r ≠ id) := by
    refine ⟨?_, ?_, ?_⟩
    · intro a _ r hr
      rw [(hrow a r hr).1, (hrow a r hr).2]
    · rw [← Function.comp_def (Prod.mk id) keyOf, ← List.map_map]
      exact hdistinct.map (Prod.mk_right_injective id)
    · intro a _ hmem
      obtain ⟨r, hr, heq⟩ := List.mem_map.mp hmem
      have hother := (List.mem_filter.mp hr).2
      have hsame : workspaceOf r = id := congrArg Prod.fst heq
      simp [hsame] at hother
  refine Tables.insertEach_eq (fun a _ r hr => ?_) hfresh
  rw [(hrow a r hr).1]
  exact hparent

theorem filter_replaced_self (hrows : ∀ r ∈ rows, workspaceOf r = id) :
    ((table.filter fun r => workspaceOf r ≠ id) ++ rows).filter (fun r => workspaceOf r = id) =
      rows := by
  have hold :
      (table.filter fun r => workspaceOf r ≠ id).filter (fun r => workspaceOf r = id) = [] := by
    rw [List.filter_filter, List.filter_eq_nil_iff]
    simp
  rw [List.filter_append, hold, List.nil_append, List.filter_eq_self]
  simpa using hrows

theorem filter_replaced_other {id' : String} (hne : id' ≠ id)
    (hrows : ∀ r ∈ rows, workspaceOf r = id) :
    ((table.filter fun r => workspaceOf r ≠ id) ++ rows).filter (fun r => workspaceOf r = id') =
      table.filter (fun r => workspaceOf r = id') := by
  have hnew : rows.filter (fun r => workspaceOf r = id') = [] := by
    rw [List.filter_eq_nil_iff]
    intro r hr
    simp [hrows r hr, hne.symm]
  rw [List.filter_append, hnew, List.append_nil, List.filter_filter]
  refine List.filter_congr fun r _ => ?_
  by_cases h : workspaceOf r = id'
  · simp [h, hne]
  · simp [h]

end Replace

/-- The database with a workspace's rows replaced by those of a view. -/
def Database.put (db : Database) (id : String) (v : View) : Database where
  workspaces := db.workspaces.map fun w => if w.id = id then v.row.getD w else w
  generations := (db.generations.filter fun r => r.workspace ≠ id) ++ v.generations
  uploads := (db.uploads.filter fun r => r.workspace ≠ id) ++ v.uploads
  tombstones := (db.tombstones.filter fun r => r.workspace ≠ id) ++ v.tombstones
  endedRewrites := (db.endedRewrites.filter fun r => r.workspace ≠ id) ++ v.endedRewrites

/-- Replacing a row by one of the same id keeps the workspace known. -/
theorem any_replaced {workspaces : List WorkspaceRow} {row : WorkspaceRow} {id : String}
    (hid : row.id = id) (h : workspaces.any fun w => w.id = id) :
    (workspaces.map fun w => if w.id = id then row else w).any fun w => w.id = id := by
  obtain ⟨w, hw, hwid⟩ := List.any_eq_true.mp h
  rw [List.any_map]
  refine List.any_eq_true.mpr ⟨w, hw, ?_⟩
  simp only [decide_eq_true_eq] at hwid
  simp [hwid, hid]

/-- A workspace has a row where `read` finds one. -/
theorem any_of_view {db : Database} {id : String} (h : (db.view id).row.isSome) :
    db.workspaces.any fun w => w.id = id :=
  (List.find?_isSome.trans List.any_eq_true.symm).mp h

/-- **`write` stores the record's rows in place of the workspace's, if they can be made.**
No constraint is ever in the way. -/
theorem Database.write_eq {db : Database} {ws : WorkspaceId}
    (hknown : (db.view ws.asStr).row.isSome) (rec : WorkspaceRecord) :
    db.write ws rec = (stored ws.asStr rec).map (db.put ws.asStr) := by
  have hgenerations := Tables.nodup_keys rec.used Int.ofNat_injective
  have huploads := Tables.nodup_keys rec.tickets UploadId.asStr_injective
  have htombstones := Tables.nodup_keys rec.tombstones UploadId.asStr_injective
  have hended : (rec.ended.map KeyId.asStr).Nodup :=
    (Finset.sort_nodup _ _).map KeyId.asStr_injective
  cases hrow : workspaceRow ws.asStr rec with
  | error e => simp only [Database.write, stored, hrow, bind, Except.bind, Except.map]
  | ok row =>
    have hparent := any_replaced (workspaceRow_eq_ok hrow).1 (any_of_view hknown)
    simp only [Database.write, stored, hrow, bind, Except.bind]
    rw [replaceRows_eq (generationRow ws.asStr) hparent
        (fun a r h => ⟨(generationRow_eq_ok h).1, (generationRow_eq_ok h).2.1⟩) hgenerations,
      replaceRows_eq (uploadRow ws.asStr) hparent
        (fun a r h => ⟨(uploadRow_eq_ok h).1, (uploadRow_eq_ok h).2.1⟩) huploads,
      replaceRows_eq (tombstoneRow ws.asStr) hparent
        (fun a r h => ⟨(tombstoneRow_eq_ok h).1, (tombstoneRow_eq_ok h).2.1⟩) htombstones,
      replaceRows_eq (endedRow ws.asStr) hparent
        (fun a r h => ⟨(endedRow_eq_ok h).1, (endedRow_eq_ok h).2.1⟩) hended]
    cases rec.used.toList.mapM (generationRow ws.asStr) with
    | error e => rfl
    | ok generations =>
      cases rec.tickets.toList.mapM (uploadRow ws.asStr) with
      | error e => rfl
      | ok uploads =>
        cases rec.tombstones.toList.mapM (tombstoneRow ws.asStr) with
        | error e => rfl
        | ok tombstones =>
          cases rec.ended.mapM (endedRow ws.asStr) with
          | error e => rfl
          | ok ended => rfl

/-- A view all of whose rows are of one workspace. -/
structure View.Of (v : View) (id : String) : Prop where
  row : ∃ row, v.row = some row ∧ row.id = id
  generations : ∀ r ∈ v.generations, r.workspace = id
  uploads : ∀ r ∈ v.uploads, r.workspace = id
  tombstones : ∀ r ∈ v.tombstones, r.workspace = id
  endedRewrites : ∀ r ∈ v.endedRewrites, r.workspace = id

theorem stored_of {id : String} {rec : WorkspaceRecord} {v : View} (h : stored id rec = .ok v) :
    v.Of id := by
  obtain ⟨⟨row, hrow, hv⟩, hgenerations, huploads, htombstones, hended⟩ := stored_eq_ok.mp h
  exact ⟨⟨row, hv, (workspaceRow_eq_ok hrow).1⟩,
    Tables.forall_of_mapM (fun _ _ h => (generationRow_eq_ok h).1) hgenerations,
    Tables.forall_of_mapM (fun _ _ h => (uploadRow_eq_ok h).1) huploads,
    Tables.forall_of_mapM (fun _ _ h => (tombstoneRow_eq_ok h).1) htombstones,
    Tables.forall_of_mapM (fun _ _ h => (endedRow_eq_ok h).1) hended⟩

/-- A workspace whose rows are replaced has the new ones. -/
theorem Database.view_put_self {db : Database} {id : String} {v : View}
    (hknown : (db.view id).row.isSome) (hv : v.Of id) : (db.put id v).view id = v := by
  obtain ⟨⟨row, hrow, hid⟩, hgenerations, huploads, htombstones, hended⟩ := hv
  refine View.ext ?_ (filter_replaced_self hgenerations) (filter_replaced_self huploads)
    (filter_replaced_self htombstones) (filter_replaced_self hended)
  obtain ⟨w, hw⟩ := Option.isSome_iff_exists.mp hknown
  have hwid : w.id = id := by simpa using List.find?_some hw
  show (db.workspaces.map _).find? _ = _
  rw [List.find?_map, hrow]
  have hsame :
      ((fun w => decide (w.id = id)) ∘ fun w => if w.id = id then (some row).getD w else w) =
      fun w => decide (w.id = id) := by
    funext w
    by_cases h : w.id = id <;> simp [h, hid]
  have hfind : db.workspaces.find? (fun w => decide (w.id = id)) = some w := hw
  rw [hsame, hfind]
  simp [hwid]

/-- Every other workspace keeps its rows. -/
theorem Database.view_put_other {db : Database} {id id' : String} {v : View} (hne : id' ≠ id)
    (hv : v.Of id) : (db.put id v).view id' = db.view id' := by
  obtain ⟨⟨row, hrow, hid⟩, hgenerations, huploads, htombstones, hended⟩ := hv
  refine View.ext ?_ (filter_replaced_other hne hgenerations) (filter_replaced_other hne huploads)
    (filter_replaced_other hne htombstones) (filter_replaced_other hne hended)
  show (db.workspaces.map _).find? _ = db.workspaces.find? _
  rw [hrow]
  generalize db.workspaces = l
  induction l with
  | nil => rfl
  | cons w l ih =>
    rw [List.map_cons, List.find?_cons, List.find?_cons, ih]
    by_cases h : w.id = id
    · simp [h, hid, hne.symm]
    · simp [h]

/-! ## The calls, case by case -/

/-- `create` adds the row of a fresh record where the workspace has none. -/
theorem Database.create_eq (db : Database) (ws : WorkspaceId) :
    db.create ws = .ok (if db.workspaces.any (fun w => w.id = ws.asStr) then db
      else { db with workspaces := db.workspaces ++
        [⟨ws.asStr, 0, none, 1, none, none, none, none, none, none, none, none⟩] }) := by
  have hzero : toDb WorkspaceRecord.initial.generation = .ok 0 := toDb_ok (by decide)
  have hone : toDb WorkspaceRecord.initial.nextGeneration = .ok 1 := toDb_ok (by decide)
  unfold Database.create
  rw [hzero, hone]
  exact (apply_ite Except.ok _ _ _).symm

section Transact

variable {T : Type} {records : MemoryLedger} {db stored : Database} {ws : WorkspaceId}
  {rule : LedgerRule T} {rec rec' : WorkspaceRecord} {answer : T} {e : ApiError} {refusal : Refusal}

theorem MemoryLedger.transact_absent (h : records[ws]? = none) :
    records.transact ws rule = (.error .notFound, records) := by
  simp only [MemoryLedger.transact, h]

theorem MemoryLedger.transact_refused (h : records[ws]? = some rec)
    (hrule : rule rec = (.error e, rec')) : records.transact ws rule = (.error e, records) := by
  simp only [MemoryLedger.transact, h, hrule]

theorem MemoryLedger.transact_done (h : records[ws]? = some rec)
    (hrule : rule rec = (.ok answer, rec')) :
    records.transact ws rule = (.ok answer, records.insert ws rec') := by
  simp only [MemoryLedger.transact, h, hrule]

theorem Database.transact_unread (h : db.read ws = .error refusal) :
    db.transact ws rule = (.error refusal, db) := by
  simp only [Database.transact, h]

theorem Database.transact_refused (h : db.read ws = .ok rec)
    (hrule : rule rec = (.error e, rec')) : db.transact ws rule = (.error (.api e), db) := by
  simp only [Database.transact, h, hrule]

theorem Database.transact_same (h : db.read ws = .ok rec) (hrule : rule rec = (.ok answer, rec)) :
    db.transact ws rule = (.ok answer, db) := by
  simp only [Database.transact, h, hrule, if_true]

theorem Database.transact_written (h : db.read ws = .ok rec)
    (hrule : rule rec = (.ok answer, rec')) (hne : rec' ≠ rec)
    (hwrite : db.write ws rec' = .ok stored) : db.transact ws rule = (.ok answer, stored) := by
  simp only [Database.transact, h, hrule, if_neg hne, hwrite]

theorem Database.transact_unwritten (h : db.read ws = .ok rec)
    (hrule : rule rec = (.ok answer, rec')) (hne : rec' ≠ rec)
    (hwrite : db.write ws rec' = .error refusal) :
    db.transact ws rule = (.error refusal, db) := by
  simp only [Database.transact, h, hrule, if_neg hne, hwrite]

end Transact

/-! ## Both ledgers, side by side -/

/-- No rows at all. -/
def View.empty : View := ⟨none, [], [], [], []⟩

/-- The database holds the rows each record is stored as, and no others. -/
def Represents (db : Database) (records : MemoryLedger) : Prop :=
  ∀ ws : WorkspaceId, match records[ws]? with
    | none => db.view ws.asStr = View.empty
    | some rec => stored ws.asStr rec = .ok (db.view ws.asStr)

/-- An answer of the memory ledger, as the database's ledger gives it: no refusal is about
the database. -/
def ruled {α : Type} (answer : Except ApiError α) : Except Refusal α :=
  answer.mapError .api

namespace Represents

variable {T : Type} {db : Database} {records : MemoryLedger} {ws : WorkspaceId}

theorem empty : Represents .empty ∅ := by
  intro ws
  rw [Std.ExtTreeMap.getElem?_empty]
  rfl

theorem absent (h : Represents db records) (hws : records[ws]? = none) :
    db.view ws.asStr = View.empty := by
  have hrow := h ws
  rw [hws] at hrow
  exact hrow

theorem present (h : Represents db records) {rec : WorkspaceRecord}
    (hws : records[ws]? = some rec) : stored ws.asStr rec = .ok (db.view ws.asStr) := by
  have hrow := h ws
  rw [hws] at hrow
  exact hrow

/-- A workspace with a record has its row. -/
theorem known (h : Represents db records) {rec : WorkspaceRecord}
    (hws : records[ws]? = some rec) : (db.view ws.asStr).row.isSome := by
  obtain ⟨row, hrow, -⟩ := (stored_of (h.present hws)).row
  rw [hrow]
  rfl

/-- **Both ledgers read the same.** -/
theorem read (h : Represents db records) (ws : WorkspaceId) :
    db.read ws = ruled (records.load ws) := by
  unfold Database.read MemoryLedger.load
  cases hws : records[ws]? with
  | none =>
    rw [h.absent hws]
    rfl
  | some rec => exact parse_stored (h.present hws)

theorem read_absent (h : Represents db records) (hws : records[ws]? = none) :
    db.read ws = .error (.api .notFound) := by
  rw [h.read, MemoryLedger.load, hws]
  rfl

theorem read_present (h : Represents db records) {rec : WorkspaceRecord}
    (hws : records[ws]? = some rec) : db.read ws = .ok rec := by
  rw [h.read, MemoryLedger.load, hws]
  rfl

/-- What holds for every workspace after one of them got new rows. -/
theorem update (h : Represents db records) {rec : WorkspaceRecord} {db' : Database}
    (hself : stored ws.asStr rec = .ok (db'.view ws.asStr))
    (hother : ∀ id, id ≠ ws.asStr → db'.view id = db.view id) :
    Represents db' (records.insert ws rec) := by
  intro other
  rw [Map.get_insert]
  by_cases heq : ws = other
  · subst heq
    rw [if_pos rfl]
    exact hself
  · have hid : other.asStr ≠ ws.asStr := fun hid => heq (WorkspaceId.asStr_injective hid).symm
    rw [if_neg heq, hother _ hid]
    exact h other

/-- **Creating a workspace does the same to both.** -/
theorem create (h : Represents db records) (ws : WorkspaceId) :
    ∃ db', db.create ws = .ok db' ∧ Represents db' (records.create ws) := by
  rw [Database.create_eq]
  unfold MemoryLedger.create
  cases hws : records[ws]? with
  | some rec =>
    rw [if_pos (any_of_view (h.known hws))]
    exact ⟨db, rfl, h⟩
  | none =>
    have hview := h.absent hws
    have hrow : db.workspaces.find? (fun w => decide (w.id = ws.asStr)) = none :=
      congrArg View.row hview
    have hnone : ¬ (db.workspaces.any fun w => decide (w.id = ws.asStr)) = true := by
      rw [List.any_eq_true]
      rintro ⟨w, hw, hid⟩
      exact List.find?_eq_none.mp hrow w hw hid
    rw [if_neg hnone]
    refine ⟨_, rfl, h.update ?_ ?_⟩
    · refine stored_eq_ok.mpr ⟨⟨_, rfl, ?_⟩, ?_, ?_, ?_, ?_⟩
      · show (db.workspaces ++ [_]).find? _ = _
        rw [List.find?_append, hrow]
        simp [sessionColumn, WorkspaceRecord.initial, WorkspaceRecord.seal?]
      · exact congrArg Except.ok (congrArg View.generations hview).symm
      · exact congrArg Except.ok (congrArg View.uploads hview).symm
      · exact congrArg Except.ok (congrArg View.tombstones hview).symm
      · have hended : WorkspaceRecord.initial.ended = [] := Finset.sort_empty _
        rw [hended]
        exact congrArg Except.ok (congrArg View.endedRewrites hview).symm
    · intro id hid
      refine View.ext ?_ rfl rfl rfl rfl
      show (db.workspaces ++ [_]).find? _ = db.workspaces.find? _
      rw [List.find?_append]
      simp [hid.symm]

/-- A record that fits is written, and nothing else changes. -/
theorem write (h : Represents db records) {rec rec' : WorkspaceRecord}
    (hws : records[ws]? = some rec) (hfits : rec'.Fits) :
    ∃ db', db.write ws rec' = .ok db' ∧ Represents db' (records.insert ws rec') := by
  obtain ⟨-, v, hv⟩ | ⟨hnot, -⟩ := fits_stored ws.asStr rec'
  · have hof := stored_of hv
    refine ⟨db.put ws.asStr v, ?_, h.update ?_ ?_⟩
    · rw [Database.write_eq (h.known hws), hv]
      rfl
    · rw [Database.view_put_self (h.known hws) hof]
      exact hv
    · intro id hid
      exact Database.view_put_other hid hof
  · exact absurd hfits hnot

/-- A record that does not fit is refused. -/
theorem write_tooLarge (h : Represents db records) {rec rec' : WorkspaceRecord}
    (hws : records[ws]? = some rec) (hfits : ¬ rec'.Fits) :
    db.write ws rec' = .error tooLarge := by
  obtain ⟨hyes, -⟩ | ⟨-, hv⟩ := fits_stored ws.asStr rec'
  · exact absurd hyes hfits
  · rw [Database.write_eq (h.known hws), hv]
    rfl

/-- The records of a database all fit. -/
theorem fits (h : Represents db records) {rec : WorkspaceRecord}
    (hws : records[ws]? = some rec) : rec.Fits := by
  obtain ⟨hyes, -⟩ | ⟨-, hv⟩ := fits_stored ws.asStr rec
  · exact hyes
  · rw [h.present hws] at hv
    cases hv

/-- A rule that succeeds with a record that fits has it stored. -/
theorem transact_done (h : Represents db records) {rule : LedgerRule T} {rec rec' : WorkspaceRecord}
    {answer : T} (hws : records[ws]? = some rec) (hrec : rule rec = (.ok answer, rec'))
    (hfits : rec'.Fits) :
    ∃ db', db.transact ws rule = (.ok answer, db') ∧ Represents db' (records.insert ws rec') := by
  by_cases hsame : rec' = rec
  · subst hsame
    refine ⟨db, Database.transact_same (h.read_present hws) hrec, ?_⟩
    rw [Map.insert_same hws]
    exact h
  · obtain ⟨db', hwrite, hdb'⟩ := h.write hws hfits
    exact ⟨db', Database.transact_written (h.read_present hws) hrec hsame hwrite, hdb'⟩

/-- A rule that succeeds with a record that does not fit is refused, and nothing changes. -/
theorem transact_tooLarge (h : Represents db records) {rule : LedgerRule T}
    {rec rec' : WorkspaceRecord} {answer : T} (hws : records[ws]? = some rec)
    (hrec : rule rec = (.ok answer, rec')) (hfits : ¬ rec'.Fits) :
    db.transact ws rule = (.error tooLarge, db) := by
  have hsame : rec' ≠ rec := by
    intro heq
    subst heq
    exact hfits (h.fits hws)
  exact Database.transact_unwritten (h.read_present hws) hrec hsame (h.write_tooLarge hws hfits)

/-- **A transaction whose record fits does the same to both.** -/
theorem transact (h : Represents db records) (ws : WorkspaceId) {rule : LedgerRule T}
    (hrule : ∀ rec answer rec', rule rec = (.ok answer, rec') → rec'.Fits) :
    (db.transact ws rule).1 = ruled (records.transact ws rule).1 ∧
      Represents (db.transact ws rule).2 (records.transact ws rule).2 := by
  cases hws : records[ws]? with
  | none =>
    rw [MemoryLedger.transact_absent hws, Database.transact_unread (h.read_absent hws)]
    exact ⟨rfl, h⟩
  | some rec =>
    have hread := h.read_present hws
    rcases hrec : rule rec with ⟨e | answer, rec'⟩
    · rw [MemoryLedger.transact_refused hws hrec, Database.transact_refused hread hrec]
      exact ⟨rfl, h⟩
    · rw [MemoryLedger.transact_done hws hrec]
      obtain ⟨db', hdone, hdb'⟩ := h.transact_done hws hrec (hrule rec answer rec' hrec)
      rw [hdone]
      exact ⟨rfl, hdb'⟩

end Represents

/-! ## Whole runs -/

namespace LedgerCall

variable {T : Type}

/-- The workspace a call is about. -/
def workspace : LedgerCall T → WorkspaceId
  | create ws => ws
  | load ws => ws
  | transact ws _ => ws

/-- Where the call's rule succeeds, it leaves a record that fits. -/
def Fits : LedgerCall T → Prop
  | create _ => True
  | load _ => True
  | transact _ rule => ∀ rec answer rec', rule rec = (.ok answer, rec') → rec'.Fits

end LedgerCall

/-- What a ledger over the control database promises at any time: what `create` and
`transact` do to a workspace's record, and that they do nothing else. -/
structure Database.Faithful (T : Type) (db : Database) : Prop where
  /-- No record is damaged. -/
  undamaged : ∀ ws refusal, db.read ws = .error refusal → refusal = .api .notFound
  /-- A new workspace gets a fresh record. -/
  fresh : ∀ ws, db.read ws = .error (.api .notFound) →
    ∃ db', db.create ws = .ok db' ∧ db'.read ws = .ok .initial
  /-- Creating again never resets what is there. -/
  kept : ∀ ws rec, db.read ws = .ok rec → db.create ws = .ok db
  /-- No rule runs on an unknown workspace. -/
  unknown : ∀ ws (rule : LedgerRule T), db.read ws = .error (.api .notFound) →
    db.transact ws rule = (.error (.api .notFound), db)
  /-- A refusal is the answer, and changes nothing. -/
  refused : ∀ ws (rule : LedgerRule T) rec e rec', db.read ws = .ok rec →
    rule rec = (.error e, rec') → db.transact ws rule = (.error (.api e), db)
  /-- What a rule leaves is stored, whole: the next `load` gives it. -/
  stores : ∀ ws (rule : LedgerRule T) rec answer rec', db.read ws = .ok rec →
    rule rec = (.ok answer, rec') → rec'.Fits →
    ∃ db', db.transact ws rule = (.ok answer, db') ∧ db'.read ws = .ok rec'
  /-- A larger number is answered `ServiceUnavailable`, and changes nothing. -/
  tooLarge : ∀ ws (rule : LedgerRule T) rec answer rec', db.read ws = .ok rec →
    rule rec = (.ok answer, rec') → ¬ rec'.Fits →
    (db.transact ws rule).1.mapError Refusal.shown = .error .serviceUnavailable ∧
      (db.transact ws rule).2 = db
  /-- Every other workspace's record stays as it is. -/
  apart : ∀ (call : LedgerCall T) other, other ≠ call.workspace →
    (db.answer call).2.read other = db.read other

namespace Represents

variable {T : Type} {db : Database} {records : MemoryLedger}

/-- **Every call answers the same over both ledgers**, where its record fits. -/
theorem answer (h : Represents db records) {call : LedgerCall T} (hfits : call.Fits) :
    (db.answer call).1 = ruled (records.answer call).1 ∧
      Represents (db.answer call).2 (records.answer call).2 := by
  cases call with
  | create ws =>
    obtain ⟨db', hcreate, hdb'⟩ := h.create ws
    simp only [Database.answer, hcreate]
    exact ⟨rfl, hdb'⟩
  | load ws =>
    refine ⟨?_, h⟩
    show (db.read ws).map _ = ruled ((records.load ws).map _)
    rw [h.read]
    cases records.load ws <;> rfl
  | transact ws rule =>
    obtain ⟨hanswer, hdb'⟩ := h.transact ws hfits
    refine ⟨?_, hdb'⟩
    show (db.transact ws rule).1.map _ = ruled ((records.transact ws rule).1.map _)
    rw [hanswer]
    cases (records.transact ws rule).1 <;> rfl

/-- Runs whose records fit answer the same over both. -/
theorem answers (h : Represents db records) {calls : List (LedgerCall T)}
    (hfits : ∀ call ∈ calls, call.Fits) :
    db.answers calls = (records.answers calls).map ruled := by
  induction calls generalizing db records with
  | nil => rfl
  | cons call calls ih =>
    obtain ⟨hanswer, hnext⟩ := h.answer (hfits call List.mem_cons_self)
    have hrest := ih hnext fun c hc => hfits c (List.mem_cons_of_mem _ hc)
    show (db.answer call).1 :: (db.answer call).2.answers calls =
      ruled (records.answer call).1 :: ((records.answer call).2.answers calls).map ruled
    rw [hanswer, hrest]

/-- After any call, the database holds records again: for every other workspace the same
ones. -/
theorem next (h : Represents db records) (call : LedgerCall T) :
    ∃ records', Represents (db.answer call).2 records' ∧
      ∀ other, other ≠ call.workspace → records'[other]? = records[other]? := by
  cases call with
  | create ws =>
    obtain ⟨db', hcreate, hdb'⟩ := h.create ws
    refine ⟨records.create ws, ?_, fun other hother => ?_⟩
    · simp only [Database.answer, hcreate]
      exact hdb'
    · unfold MemoryLedger.create
      split
      · rfl
      · exact Map.get_insert_of_ne _ _ (Ne.symm hother)
  | load ws => exact ⟨records, h, fun _ _ => rfl⟩
  | transact ws rule =>
    show ∃ records', Represents (db.transact ws rule).2 records' ∧ _
    cases hws : records[ws]? with
    | none =>
      rw [Database.transact_unread (h.read_absent hws)]
      exact ⟨records, h, fun _ _ => rfl⟩
    | some rec =>
      rcases hrec : rule rec with ⟨e | answer, rec'⟩
      · rw [Database.transact_refused (h.read_present hws) hrec]
        exact ⟨records, h, fun _ _ => rfl⟩
      · by_cases hfits : rec'.Fits
        · obtain ⟨db', hdone, hdb'⟩ := h.transact_done hws hrec hfits
          rw [hdone]
          exact ⟨records.insert ws rec', hdb', fun other hother =>
            Map.get_insert_of_ne _ _ (Ne.symm hother)⟩
        · rw [h.transact_tooLarge hws hrec hfits]
          exact ⟨records, h, fun _ _ => rfl⟩

/-- Where `read` gives a record, it is the one represented. -/
theorem get_of_read (h : Represents db records) {ws : WorkspaceId} {rec : WorkspaceRecord}
    (hread : db.read ws = .ok rec) : records[ws]? = some rec := by
  cases hws : records[ws]? with
  | none =>
    rw [h.read_absent hws] at hread
    cases hread
  | some rec' =>
    rw [h.read_present hws] at hread
    rw [Except.ok.inj hread]

/-- Where `read` gives none, there is none. -/
theorem absent_of_read (h : Represents db records) {ws : WorkspaceId} {refusal : Refusal}
    (hread : db.read ws = .error refusal) : records[ws]? = none := by
  cases hws : records[ws]? with
  | none => rfl
  | some rec =>
    rw [h.read_present hws] at hread
    cases hread

/-- **A database that holds records keeps every promise.** -/
theorem faithful (h : Represents db records) : db.Faithful T where
  undamaged ws refusal hread := by
    have hcopy := hread
    rw [h.read_absent (h.absent_of_read hread)] at hcopy
    exact (Except.error.inj hcopy).symm
  fresh ws hread := by
    have hws := h.absent_of_read hread
    obtain ⟨db', hcreate, hdb'⟩ := h.create ws
    refine ⟨db', hcreate, hdb'.read_present ?_⟩
    simp only [MemoryLedger.create, hws, Map.get_insert_self]
  kept ws rec hread := by
    rw [Database.create_eq, if_pos (any_of_view (h.known (h.get_of_read hread)))]
  unknown ws rule hread := Database.transact_unread hread
  refused ws rule rec e rec' hread hrec := Database.transact_refused hread hrec
  stores ws rule rec answer rec' hread hrec hfits := by
    obtain ⟨db', hdone, hdb'⟩ := h.transact_done (h.get_of_read hread) hrec hfits
    exact ⟨db', hdone, hdb'.read_present (Map.get_insert_self _ _ _)⟩
  tooLarge ws rule rec answer rec' hread hrec hfits := by
    rw [h.transact_tooLarge (h.get_of_read hread) hrec hfits]
    exact ⟨rfl, rfl⟩
  apart call other hother := by
    obtain ⟨records', hnext, hsame⟩ := h.next call
    rw [hnext.read, h.read, MemoryLedger.load, MemoryLedger.load, hsame other hother]

end Represents

/-- Calls keep a new database one that holds records. -/
theorem Database.represents_run {T : Type} (calls : List (LedgerCall T)) :
    ∃ records, Represents (Database.empty.run calls) records :=
  Runs.always (I := fun db => ∃ records, Represents db records) _
    (fun _ call h => by
      obtain ⟨records, h⟩ := h
      obtain ⟨records', h', -⟩ := h.next call
      exact ⟨records', h'⟩)
    ⟨∅, .empty⟩ calls

/-- **The ledger over the control database is the ledger in memory.** Calls whose rules
leave records that fit are answered alike, and no answer is about the database; and after
any calls at all, with rules of any kind, each further call keeps the promises of
`Faithful`. -/
theorem Database.is_memoryLedger {T : Type} (calls : List (LedgerCall T)) :
    ((∀ call ∈ calls, call.Fits) →
      Database.empty.answers calls = (MemoryLedger.answers ∅ calls).map ruled) ∧
    (Database.empty.run calls).Faithful T := by
  obtain ⟨records, h⟩ := Database.represents_run calls
  exact ⟨Represents.empty.answers, h.faithful⟩

namespace Sample

theorem ended_bounded : 0 < [(12 : Fin 16)].length ∧ [(12 : Fin 16)].length ≤ 64 := by decide

/-- A record with something in every field, empty texts of bytes included. -/
def fullRecord : WorkspaceRecord where
  state := .rewriting
    { kind := .rotate
      prior := some ⟨⟨[10, 10], by decide⟩, []⟩
      next := ⟨⟨[11, 11], by decide⟩, [1, 2]⟩
      holder := ⟨"phone"⟩
      leaseExpiresAt := 1600
      stagedGeneration := 5 }
  generation := 4
  plain := some 2
  nextGeneration := 6
  used := ((∅ : Map Nat Nat).insert 2 10).insert 4 0
  tickets := (∅ : Map UploadId Ticket).insert ⟨7⟩
    ⟨⟨"laptop"⟩, ⟨⟨1, 2⟩, [], 1000, some ⟨[11, 11], by decide⟩, true⟩, 90001⟩
  tombstones := (∅ : Map UploadId Tombstone).insert ⟨8⟩ ⟨⟨"phone"⟩, ⟨⟨9, 3⟩, true, false⟩, 99999⟩
  endedRewrites := {⟨[12], ended_bounded⟩}

theorem fullRecord_fits : fullRecord.Fits where
  generation := by decide +kernel
  plain := by decide +kernel
  next := by decide +kernel
  lease := by decide +kernel
  staged := by decide +kernel
  used := by decide +kernel
  tickets := by decide +kernel
  tombstones := by decide +kernel

/-- A workspace is created, its record is replaced, a rule is refused, and it is read. -/
def ledgerCalls : List (LedgerCall Unit) :=
  [.create ⟨5⟩, .transact ⟨5⟩ fun _ => (.ok (), fullRecord),
    .transact ⟨5⟩ fun rec => (.error .quotaExceeded, { rec with generation := 0 }),
    .load ⟨5⟩, .load ⟨6⟩]

end Sample

theorem Database.is_memoryLedger_calls :
    (∀ call ∈ Sample.ledgerCalls, call.Fits) ∧
      Database.empty.answers Sample.ledgerCalls =
        (MemoryLedger.answers ∅ Sample.ledgerCalls).map ruled := by
  have hfits : ∀ call ∈ Sample.ledgerCalls, call.Fits := by
    simp only [Sample.ledgerCalls, List.forall_mem_cons]
    refine ⟨trivial, ?_, ?_, trivial, trivial, by simp⟩
    · rintro rec answer rec' hrec
      cases hrec
      exact Sample.fullRecord_fits
    · rintro rec answer rec' hrec
      cases hrec
  exact ⟨hfits, (Database.is_memoryLedger Sample.ledgerCalls).1 hfits⟩

end Passalong
