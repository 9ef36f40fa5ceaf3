import Passalong.Lib.Map
import Passalong.Lib.Runs
import Passalong.Rules.Upload
import Passalong.SqliteLedger

/-!
# A workspace is opened while it is deleted (`engines.rs`)

`Engines::get` looks in the map, looks the workspace up in the control database, makes its
directory, makes its row, repairs its record, and puts the engine into the map. Another
process deletes the workspace: the row, with all that belongs to it, in one transaction,
and the directory afterwards. Only the steps are atomic, and the requests of engines
obtained earlier go on between them.

A deleted workspace comes back in two ways. A `get` that has found the row, but not yet
made sure of it, when the row is deleted makes a new one (`Site.opening`). And a probe that
has read the record when the directory is removed makes it again for its staging place,
which it does outside of any transaction (`Site.probing`). There is no third: in a run that
has come to its end, the row and the directory are gone if and only if no `get` was at that
point when the row was deleted, and no probe when the directory was removed
(`Site.deleted_run`).

1. After the deletion, a workspace without a row stays without one as long as no `get` is
   opening it (`Site.Gone`), and its directory stays away as long as no probe is making it
   (`Site.Cleared`).
2. The other way, a `get` that is opening it ends in a row, and a row stays
   (`Site.Returning`); a probe that is making the directory ends in a directory
   (`Site.Refilling`).
-/

namespace Passalong

open Lib

/-! ## The row -/

/-- Whether the workspace has a row. -/
def Database.has (db : Database) (ws : WorkspaceId) : Bool :=
  db.workspaces.any fun w => w.id = ws.asStr

/-- `DELETE FROM workspaces`, with what refers to the row. -/
def Database.delete (db : Database) (ws : WorkspaceId) : Database where
  workspaces := db.workspaces.filter fun w => w.id ≠ ws.asStr
  generations := db.generations.filter fun r => r.workspace ≠ ws.asStr
  uploads := db.uploads.filter fun r => r.workspace ≠ ws.asStr
  tombstones := db.tombstones.filter fun r => r.workspace ≠ ws.asStr
  endedRewrites := db.endedRewrites.filter fun r => r.workspace ≠ ws.asStr

section
variable {db : Database} {ws : WorkspaceId}

theorem Database.has_delete : (db.delete ws).has ws = false := by
  rw [Database.has, List.any_eq_false]
  intro w hw
  have hne : w.id ≠ ws.asStr := by simpa using (List.mem_filter.mp hw).2
  simpa using hne

theorem Database.has_create {db' : Database} (h : db.create ws = .ok db') : db'.has ws = true := by
  rw [Database.create_eq, Except.ok.injEq] at h
  by_cases hknown : (db.workspaces.any fun w => w.id = ws.asStr) = true
  · rw [if_pos hknown] at h
    rw [← h]
    exact hknown
  · rw [if_neg hknown] at h
    rw [← h, Database.has, List.any_append]
    simp

/-- A workspace has a row where its record is read. -/
theorem Database.has_of_read {rec : WorkspaceRecord} (h : db.read ws = .ok rec) :
    (db.view ws.asStr).row.isSome := by
  cases hrow : (db.view ws.asStr).row with
  | some row => rfl
  | none =>
    unfold Database.read View.parse at h
    rw [hrow] at h
    cases h

theorem Database.read_of_not_has (h : db.has ws = false) :
    ∃ refusal, db.read ws = .error refusal := by
  cases hread : db.read ws with
  | error refusal => exact ⟨refusal, rfl⟩
  | ok rec =>
    have hhas : db.has ws = true := any_of_view (Database.has_of_read hread)
    rw [h] at hhas
    cases hhas

/-- No rule deletes a row. -/
theorem Database.has_transact {rule : LedgerRule Unit} (h : db.has ws = true) :
    (db.transact ws rule).2.has ws = true := by
  cases hread : db.read ws with
  | error refusal =>
    rw [Database.transact_unread hread]
    exact h
  | ok rec =>
    rcases hrule : rule rec with ⟨e | answer, rec'⟩
    · rw [Database.transact_refused hread hrule]
      exact h
    · by_cases hsame : rec' = rec
      · rw [hsame] at hrule
        rw [Database.transact_same hread hrule]
        exact h
      · have hknown := Database.has_of_read hread
        cases hwrite : db.write ws rec' with
        | error refusal =>
          rw [Database.transact_unwritten hread hrule hsame hwrite]
          exact h
        | ok after =>
          rw [Database.transact_written hread hrule hsame hwrite]
          rw [Database.write_eq hknown] at hwrite
          cases hstored : stored ws.asStr rec' with
          | error refusal =>
            rw [hstored] at hwrite
            cases hwrite
          | ok v =>
            rw [hstored] at hwrite
            cases hwrite
            obtain ⟨row, hrow, -⟩ := (stored_of hstored).row
            refine any_of_view ?_
            rw [Database.view_put_self hknown (stored_of hstored), hrow]
            rfl

/-- Where there is no row, no rule runs. -/
theorem Database.transact_of_not_has (rule : LedgerRule Unit) (h : db.has ws = false) :
    ∃ refusal, db.transact ws rule = (.error refusal, db) := by
  obtain ⟨refusal, hread⟩ := Database.read_of_not_has h
  exact ⟨refusal, Database.transact_unread hread⟩

end

/-! ## What is under way -/

/-- How far a call of `Engines::get` has come. -/
inductive Getting where
  /-- The map has no engine. -/
  | missed
  /-- The control database has the workspace. -/
  | found
  /-- `FsShelf::open` has made the directory. -/
  | opened
  /-- `Engine::open` has made the row, if there was none. -/
  | created
  /-- `Engine::open` has repaired the record. -/
  | repaired
  | ended (answer : Except ApiError Unit)

/-- How far a `probeWrite` has come. -/
inductive Probing where
  /-- The record was read, and the probe is allowed. -/
  | loaded
  /-- `stage_create` has made the staging place, with the directories it is in. -/
  | made
  | ended (answer : Except ApiError Unit)

/-- How far `workspace delete` has come. -/
inductive Deleting where
  | pending
  | found
  /-- The transaction of `Control::delete_workspace` is committed. -/
  | committed
  /-- The directory is removed. -/
  | removed
  /-- There is no such workspace. -/
  | refused
  deriving DecidableEq

namespace Getting

/-- Found, and about to be made: the steps between the look and the row. -/
def opens : Getting → Bool
  | .found | .opened => true
  | _ => false

def isOver : Getting → Bool
  | .ended _ => true
  | _ => false

end Getting

namespace Probing

/-- The directory is about to be made. -/
def makes : Probing → Bool
  | .loaded => true
  | _ => false

def isOver : Probing → Bool
  | .ended _ => true
  | _ => false

end Probing

/-- Whether something of a kind is under way. -/
def underWay {V : Type} (p : V → Bool) (m : Map Nat V) : Bool := m.toList.any fun e => p e.2

section
variable {V : Type} {p : V → Bool} {m : Map Nat V} {i : Nat} {v : V}

theorem underWay_iff : underWay p m = true ↔ ∃ (i : Nat) (v : V), m[i]? = some v ∧ p v = true := by
  rw [underWay, List.any_eq_true]
  constructor
  · rintro ⟨⟨i, v⟩, hmem, hp⟩
    exact ⟨i, v, Map.mem_toList_iff.mp hmem, hp⟩
  · rintro ⟨i, v, hget, hp⟩
    exact ⟨(i, v), Map.mem_toList_iff.mpr hget, hp⟩

theorem underWay_insert (h : p v = true) : underWay p (m.insert i v) = true :=
  underWay_iff.mpr ⟨i, v, Map.get_insert_self m i v, h⟩

/-- What is none of the kind adds nothing. -/
theorem not_underWay_insert (hp : p v = false) (h : underWay p m = false) :
    underWay p (m.insert i v) = false := by
  rw [Bool.eq_false_iff] at h ⊢
  intro hinsert
  obtain ⟨j, w, hget, hw⟩ := underWay_iff.mp hinsert
  rw [Map.get_insert] at hget
  by_cases hij : i = j
  · rw [if_pos hij] at hget
    cases hget
    rw [hp] at hw
    cases hw
  · rw [if_neg hij] at hget
    exact h (underWay_iff.mpr ⟨j, w, hget, hw⟩)

/-- What was none of the kind takes nothing away. -/
theorem underWay_replaced (hold : ∀ w, m[i]? = some w → p w = false) (h : underWay p m = true) :
    underWay p (m.insert i v) = true := by
  obtain ⟨j, w, hget, hw⟩ := underWay_iff.mp h
  refine underWay_iff.mpr ⟨j, w, ?_, hw⟩
  by_cases hij : i = j
  · subst hij
    rw [hold w hget] at hw
    cases hw
  · rw [Map.get_insert_of_ne m v hij, hget]

end

/-! ## The steps -/

/-- A workspace, as the server and the process that deletes it see it. -/
structure Site where
  db : Database
  /-- Whether the workspace has a directory. -/
  directory : Bool
  /-- Whether the map has an engine for it. -/
  mapped : Bool
  /-- The call of `get` that has the map locked. -/
  holder : Option Nat
  gets : Map Nat Getting
  probes : Map Nat Probing
  deleting : Deleting

/-- What happens next. -/
inductive SiteStep where
  /-- The next step of a call of `get`. -/
  | get (i : Nat)
  /-- A request's transaction, which makes directories for the records in `makes`. -/
  | transact (rule : LedgerRule Unit) (makes : WorkspaceRecord → Bool)
  /-- The next step of a `probeWrite`, which is no transaction. -/
  | probe (i : Nat) (caller : Caller)
  /-- The next step of `workspace delete`. -/
  | delete

/-- `probeWrite`'s checks, of which the rules' are an instance. -/
def WorkspaceRecord.probeAllowed (rec : WorkspaceRecord) (caller : Caller) :
    Except ApiError Unit :=
  match caller.mustWrite with
  | .error e => .error e
  | .ok _ =>
    match rec.state with
    | .rewriting _ => .error .rewriteInProgress
    | .settled _ => .ok ()

namespace Site

/-- Before anything is asked for. -/
def new (db : Database) (directory mapped : Bool) : Site :=
  ⟨db, directory, mapped, none, ∅, ∅, .pending⟩

/-- A call of `get` comes a step further. -/
def getOn (s : Site) (i : Nat) (stage : Getting) : Site :=
  { s with gets := s.gets.insert i stage }

/-- A call of `get` answers, and unlocks the map. -/
def getEnded (s : Site) (i : Nat) (answer : Except ApiError Unit) : Site :=
  { s with gets := s.gets.insert i (.ended answer), holder := none }

def probeOn (s : Site) (i : Nat) (stage : Probing) : Site :=
  { s with probes := s.probes.insert i stage }

section
variable (ws : WorkspaceId) (repair : LedgerRule Unit)

/-- `Engines::get`, step by step; `Engine::open` makes the row and repairs the record. -/
def getStep (s : Site) (i : Nat) : Site :=
  match s.gets[i]? with
  | none =>
    if s.holder.isSome then s
    else if s.mapped then s.getEnded i (.ok ())
    else { s.getOn i .missed with holder := some i }
  | some .missed =>
    if s.db.has ws then s.getOn i .found else s.getEnded i (.error .notFound)
  | some .found => { s.getOn i .opened with directory := true }
  | some .opened =>
    match s.db.create ws with
    | .ok db => { s.getOn i .created with db := db }
    | .error e => s.getEnded i (.error e.shown)
  | some .created =>
    match s.db.transact ws repair with
    | (.ok _, db) => { s.getOn i .repaired with db := db }
    | (.error e, db) => { s.getEnded i (.error e.shown) with db := db }
  | some .repaired => { s.getEnded i (.ok ()) with mapped := true }
  | some (.ended _) => s

/-- A request of an engine obtained earlier, which the ledger's transaction makes one step. -/
def transact (s : Site) (rule : LedgerRule Unit) (makes : WorkspaceRecord → Bool) : Site :=
  if s.mapped then
    { s with
      db := (s.db.transact ws rule).2
      directory := s.directory ||
        match s.db.read ws with
        | .ok rec => makes rec
        | .error _ => false }
  else s

/-- `Engine::probe_write`, step by step. What it made is moved into the trash, and not moved
where there is no trash; the directories around it stay. -/
def probeStep (s : Site) (i : Nat) (caller : Caller) : Site :=
  match s.probes[i]? with
  | none =>
    if s.mapped then
      match s.db.read ws with
      | .error e => s.probeOn i (.ended (.error e.shown))
      | .ok rec =>
        match rec.probeAllowed caller with
        | .error e => s.probeOn i (.ended (.error e))
        | .ok _ => s.probeOn i .loaded
    else s
  | some .loaded => { s.probeOn i .made with directory := true }
  | some .made => s.probeOn i (.ended (.ok ()))
  | some (.ended _) => s

/-- `workspace delete`, step by step. -/
def deleteStep (s : Site) : Site :=
  match s.deleting with
  | .pending => { s with deleting := if s.db.has ws then .found else .refused }
  | .found => { s with db := s.db.delete ws, deleting := .committed }
  | .committed => { s with directory := false, deleting := .removed }
  | .removed => s
  | .refused => s

def step (s : Site) : SiteStep → Site
  | .get i => s.getStep ws repair i
  | .transact rule makes => s.transact ws rule makes
  | .probe i caller => s.probeStep ws i caller
  | .delete => s.deleteStep ws

end

/-! ## The end of a run -/

/-- A call of `get` has found the row and has not yet made sure of it. -/
def opening (s : Site) : Bool := underWay Getting.opens s.gets

/-- A probe has read the record and has not yet made its staging place. -/
def probing (s : Site) : Bool := underWay Probing.makes s.probes

/-- The workspace is deleted, and nothing is under way any more. -/
def Settled (s : Site) : Prop :=
  s.deleting = .removed ∧ underWay (fun g => !g.isOver) s.gets = false ∧
    underWay (fun g => !g.isOver) s.probes = false

instance (s : Site) : Decidable s.Settled := inferInstanceAs (Decidable (_ ∧ _))

/-- Neither the row nor the directory is there. -/
def Deleted (ws : WorkspaceId) (s : Site) : Prop := s.db.has ws = false ∧ s.directory = false

instance (ws : WorkspaceId) (s : Site) : Decidable (s.Deleted ws) :=
  inferInstanceAs (Decidable (_ ∧ _))

/-- The two steps of the deletion find nothing under way that makes anew what they take
away. -/
def clear (s : Site) : SiteStep → Bool
  | .delete =>
    match s.deleting with
    | .found => !s.opening
    | .committed => !s.probing
    | _ => true
  | _ => true

/-! ## What the steps preserve -/

section
variable {ws : WorkspaceId} {repair : LedgerRule Unit} {s : Site}

/-- Only the deletion's steps are the deletion's. -/
theorem step_deleting {e : SiteStep} (h : e ≠ .delete) :
    (s.step ws repair e).deleting = s.deleting := by
  cases e with
  | get i =>
    show (s.getStep ws repair i).deleting = _
    unfold getStep
    repeat' split
    all_goals rfl
  | transact rule makes =>
    show (s.transact ws rule makes).deleting = _
    unfold transact
    split <;> rfl
  | probe i caller =>
    show (s.probeStep ws i caller).deleting = _
    unfold probeStep
    repeat' split
    all_goals rfl
  | delete => exact absurd rfl h

/-! ### No row, and nothing that makes one -/

/-- The workspace has no row, and no `get` is about to make it one. -/
def Gone (ws : WorkspaceId) (s : Site) : Prop := s.db.has ws = false ∧ s.opening = false

/-- Where there is no row, a `get` finds none and makes none. -/
theorem Gone.getStep (h : s.Gone ws) (i : Nat) : (s.getStep ws repair i).Gone ws := by
  obtain ⟨hrow, hopening⟩ := h
  have hstage : ∀ stage, stage.opens = false →
      underWay Getting.opens (s.gets.insert i stage) = false :=
    fun _ hopens => not_underWay_insert hopens hopening
  have hnever : ∀ stage, s.gets[i]? = some stage → stage.opens = false := by
    intro stage hget
    by_contra hopens
    rw [Bool.not_eq_false] at hopens
    rw [opening, underWay_iff.mpr ⟨i, stage, hget, hopens⟩] at hopening
    cases hopening
  unfold Site.getStep
  cases hget : s.gets[i]? with
  | none =>
    dsimp only
    by_cases hheld : s.holder.isSome = true
    · rw [if_pos hheld]
      exact ⟨hrow, hopening⟩
    · rw [if_neg hheld]
      by_cases hmapped : s.mapped = true
      · rw [if_pos hmapped]
        exact ⟨hrow, hstage _ rfl⟩
      · rw [if_neg hmapped]
        exact ⟨hrow, hstage _ rfl⟩
  | some stage =>
    cases stage with
    | missed =>
      dsimp only
      rw [hrow, if_neg Bool.false_ne_true]
      exact ⟨hrow, hstage _ rfl⟩
    | found => cases hnever _ hget
    | opened => cases hnever _ hget
    | created =>
      obtain ⟨refusal, hrefused⟩ := Database.transact_of_not_has repair hrow
      dsimp only
      rw [hrefused]
      exact ⟨hrow, hstage _ rfl⟩
    | repaired => exact ⟨hrow, hstage _ rfl⟩
    | ended answer => exact ⟨hrow, hopening⟩

/-- A probe is no `get` and writes no row. -/
theorem probeStep_db (i : Nat) (caller : Caller) :
    (s.probeStep ws i caller).db = s.db ∧ (s.probeStep ws i caller).gets = s.gets := by
  unfold probeStep
  repeat' split
  all_goals exact ⟨rfl, rfl⟩

/-- **A workspace without a row stays without one as long as no `get` is opening it.** -/
theorem Gone.step (h : s.Gone ws) (e : SiteStep) : (s.step ws repair e).Gone ws := by
  cases e with
  | get i => exact h.getStep i
  | transact rule makes =>
    obtain ⟨refusal, hrefused⟩ := Database.transact_of_not_has rule h.1
    show (s.transact ws rule makes).Gone ws
    unfold transact
    rw [hrefused]
    split
    · exact ⟨h.1, h.2⟩
    · exact h
  | probe i caller =>
    obtain ⟨hdb, hgets⟩ := @probeStep_db ws s i caller
    refine ⟨?_, ?_⟩
    · show (s.probeStep ws i caller).db.has ws = false
      rw [hdb, h.1]
    · show underWay _ (s.probeStep ws i caller).gets = false
      rw [hgets]
      exact h.2
  | delete =>
    show (s.deleteStep ws).Gone ws
    unfold deleteStep
    split
    · exact ⟨h.1, h.2⟩
    · exact ⟨Database.has_delete, h.2⟩
    · exact ⟨h.1, h.2⟩
    · exact h
    · exact h

/-! ### No directory, and nothing that makes one -/

/-- The workspace has no directory, and no probe is about to make it one. -/
def Cleared (s : Site) : Prop := s.directory = false ∧ s.probing = false

/-- A `get` makes the directory of what it has found, and of nothing else. -/
theorem Cleared.getStep (hgone : s.Gone ws) (h : s.Cleared) (i : Nat) :
    (s.getStep ws repair i).Cleared := by
  unfold Site.getStep
  cases hget : s.gets[i]? with
  | none =>
    dsimp only
    split
    · exact h
    · split <;> exact ⟨h.1, h.2⟩
  | some stage =>
    cases stage with
    | found =>
      have hopening : s.opening = true := underWay_iff.mpr ⟨i, .found, hget, rfl⟩
      rw [hgone.2] at hopening
      cases hopening
    | missed =>
      dsimp only
      split <;> exact ⟨h.1, h.2⟩
    | opened =>
      dsimp only
      split <;> exact ⟨h.1, h.2⟩
    | created =>
      dsimp only
      split <;> exact ⟨h.1, h.2⟩
    | repaired => exact ⟨h.1, h.2⟩
    | ended answer => exact h

/-- Where there is no record to read, a probe goes no further. -/
theorem Cleared.probeStep (hgone : s.Gone ws) (h : s.Cleared) (i : Nat) (caller : Caller) :
    (s.probeStep ws i caller).Cleared := by
  have hstage : ∀ stage, stage.makes = false →
      underWay Probing.makes (s.probes.insert i stage) = false :=
    fun _ hmakes => not_underWay_insert hmakes h.2
  unfold Site.probeStep
  cases hget : s.probes[i]? with
  | none =>
    obtain ⟨refusal, hread⟩ := Database.read_of_not_has hgone.1
    dsimp only
    by_cases hmapped : s.mapped = true
    · rw [if_pos hmapped, hread]
      exact ⟨h.1, hstage _ rfl⟩
    · rw [if_neg hmapped]
      exact h
  | some stage =>
    cases stage with
    | loaded =>
      have hprobing : s.probing = true := underWay_iff.mpr ⟨i, .loaded, hget, rfl⟩
      rw [h.2] at hprobing
      cases hprobing
    | made => exact ⟨h.1, hstage _ rfl⟩
    | ended answer => exact h

/-- **A workspace without a row stays without a directory as long as no probe is making
it.** -/
theorem Cleared.step (hgone : s.Gone ws) (h : s.Cleared) (e : SiteStep) :
    (s.step ws repair e).Cleared := by
  cases e with
  | get i => exact h.getStep hgone i
  | transact rule makes =>
    obtain ⟨refusal, hread⟩ := Database.read_of_not_has hgone.1
    show (s.transact ws rule makes).Cleared
    unfold transact
    rw [hread]
    split
    · exact ⟨by rw [h.1]; rfl, h.2⟩
    · exact h
  | probe i caller => exact h.probeStep hgone i caller
  | delete =>
    show (s.deleteStep ws).Cleared
    unfold deleteStep
    split
    · exact ⟨h.1, h.2⟩
    · exact ⟨h.1, h.2⟩
    · exact ⟨rfl, h.2⟩
    · exact h
    · exact h

/-- What the deletion has reached so far. -/
def Reached (ws : WorkspaceId) (s : Site) : Prop :=
  match s.deleting with
  | .committed => s.Gone ws
  | .removed => s.Gone ws ∧ s.Cleared
  | _ => True

/-- A step that is clear loses nothing of it. -/
theorem Reached.step (h : s.Reached ws) (e : SiteStep) (hclear : s.clear e = true) :
    (s.step ws repair e).Reached ws := by
  by_cases hdelete : e = .delete
  · subst hdelete
    show (s.deleteStep ws).Reached ws
    unfold deleteStep
    cases hstage : s.deleting with
    | pending =>
      dsimp only
      by_cases hrow : s.db.has ws = true
      · rw [if_pos hrow]
        trivial
      · rw [if_neg hrow]
        trivial
    | found =>
      simp only [clear, hstage, Bool.not_eq_true'] at hclear
      exact ⟨Database.has_delete, hclear⟩
    | committed =>
      simp only [clear, hstage, Bool.not_eq_true'] at hclear
      simp only [Reached, hstage] at h
      exact ⟨⟨h.1, h.2⟩, rfl, hclear⟩
    | removed => exact h
    | refused => exact h
  · have hdeleting := @step_deleting ws repair s e hdelete
    unfold Reached at h ⊢
    rw [hdeleting]
    cases hstage : s.deleting with
    | committed =>
      rw [hstage] at h
      exact Gone.step h e
    | removed =>
      rw [hstage] at h
      exact ⟨h.1.step e, h.2.step h.1 e⟩
    | pending => trivial
    | found => trivial
    | refused => trivial

/-! ### What is made anew -/

/-- The row is deleted, and is there again or about to be. -/
def Returning (ws : WorkspaceId) (s : Site) : Prop :=
  (s.deleting ≠ .pending ∧ s.deleting ≠ .found) ∧ (s.db.has ws = true ∨ s.opening = true)

/-- A `get` that is opening the workspace ends in a row. -/
theorem opens_getStep (h : s.db.has ws = true ∨ s.opening = true) (i : Nat) :
    (s.getStep ws repair i).db.has ws = true ∨ (s.getStep ws repair i).opening = true := by
  have hstage : ∀ {stage stage' : Getting}, s.gets[i]? = some stage → stage.opens = false →
      s.opening = true → underWay Getting.opens (s.gets.insert i stage') = true := by
    intro stage stage' hget hopens hopening
    refine underWay_replaced (fun w hw => ?_) hopening
    rw [hget] at hw
    cases hw
    exact hopens
  have hbegun : ∀ {stage' : Getting}, s.gets[i]? = none →
      s.opening = true → underWay Getting.opens (s.gets.insert i stage') = true := by
    intro stage' hget hopening
    refine underWay_replaced (fun w hw => ?_) hopening
    rw [hget] at hw
    cases hw
  unfold getStep
  cases hget : s.gets[i]? with
  | none =>
    dsimp only
    split
    · exact h
    · split <;> exact h.imp_right (hbegun hget)
  | some stage =>
    cases stage with
    | missed =>
      dsimp only
      split <;> exact h.imp_right (hstage hget rfl)
    | found => exact .inr (underWay_insert rfl)
    | opened =>
      dsimp only
      have hcreated := Database.create_eq s.db ws
      rw [hcreated]
      exact .inl (Database.has_create hcreated)
    | created =>
      dsimp only
      rcases htransact : s.db.transact ws repair with ⟨e | answer, after⟩
      all_goals
        refine h.imp (fun hrow => ?_) (hstage hget rfl)
        have hkept := @Database.has_transact s.db ws repair hrow
        rw [htransact] at hkept
        exact hkept
    | repaired => exact h.imp_right (hstage hget rfl)
    | ended answer => exact h

/-- **A row that is there again, or about to be, stays.** -/
theorem Returning.step (h : s.Returning ws) (e : SiteStep) :
    (s.step ws repair e).Returning ws := by
  by_cases hdelete : e = .delete
  · subst hdelete
    show (s.deleteStep ws).Returning ws
    unfold deleteStep
    cases hstage : s.deleting with
    | pending => exact absurd hstage h.1.1
    | found => exact absurd hstage h.1.2
    | committed => exact ⟨⟨Deleting.noConfusion, Deleting.noConfusion⟩, h.2⟩
    | removed => exact h
    | refused => exact h
  · refine ⟨?_, ?_⟩
    · rw [step_deleting hdelete]
      exact h.1
    · cases e with
      | get i => exact opens_getStep h.2 i
      | transact rule makes =>
        show (s.transact ws rule makes).db.has ws = true ∨ (s.transact ws rule makes).opening = true
        unfold transact
        split
        · exact h.2.imp_left Database.has_transact
        · exact h.2
      | probe i caller =>
        obtain ⟨hdb, hgets⟩ := @probeStep_db ws s i caller
        show (s.probeStep ws i caller).db.has ws = true ∨
          underWay _ (s.probeStep ws i caller).gets = true
        rw [hdb, hgets]
        exact h.2
      | delete => exact absurd rfl hdelete

/-- The directory is removed, and is there again or about to be. -/
def Refilling (s : Site) : Prop :=
  s.deleting = .removed ∧ (s.directory = true ∨ s.probing = true)

/-- **A directory that is there again, or about to be, stays.** -/
theorem Refilling.step (h : s.Refilling) (e : SiteStep) : (s.step ws repair e).Refilling := by
  by_cases hdelete : e = .delete
  · subst hdelete
    show (s.deleteStep ws).Refilling
    unfold deleteStep
    rw [h.1]
    exact h
  · refine ⟨(step_deleting hdelete).trans h.1, ?_⟩
    cases e with
    | get i =>
      -- an opening makes the directory or is refused
      show (s.getStep ws repair i).directory = true ∨ (s.getStep ws repair i).probing = true
      unfold getStep
      repeat' split
      all_goals first | exact h.2 | exact .inl rfl
    | transact rule makes =>
      show (s.transact ws rule makes).directory = true ∨ (s.transact ws rule makes).probing = true
      unfold transact
      split
      · exact h.2.imp_left fun hdirectory => by rw [hdirectory]; rfl
      · exact h.2
    | probe i caller =>
      -- a probe makes the directory again, or is replaced by one that may
      have hreplaced : ∀ {stage : Probing}, (∀ w, s.probes[i]? = some w → w.makes = false) →
          s.probing = true → underWay Probing.makes (s.probes.insert i stage) = true :=
        fun hold => underWay_replaced hold
      show (s.probeStep ws i caller).directory = true ∨
        (s.probeStep ws i caller).probing = true
      unfold probeStep
      cases hget : s.probes[i]? with
      | none =>
        have hold : ∀ w, s.probes[i]? = some w → w.makes = false := by
          intro w hw
          rw [hget] at hw
          cases hw
        dsimp only
        repeat' split
        all_goals first | exact h.2 | exact h.2.imp_right (hreplaced hold)
      | some stage =>
        cases stage with
        | loaded => exact .inl rfl
        | made =>
          refine h.2.imp_right (hreplaced fun w hw => ?_)
          rw [hget] at hw
          cases hw
          rfl
        | ended answer => exact h.2
    | delete => exact absurd rfl hdelete

/-! ## Whole runs -/

/-- A step of the deletion that is not clear is followed by a row or a directory. -/
theorem returns_of_not_clear {e : SiteStep} (h : s.clear e ≠ true) :
    (s.step ws repair e).Returning ws ∨ (s.step ws repair e).Refilling := by
  cases e with
  | delete =>
    show (s.deleteStep ws).Returning ws ∨ (s.deleteStep ws).Refilling
    unfold deleteStep
    cases hstage : s.deleting with
    | found =>
      simp only [clear, hstage] at h
      rw [ne_eq, Bool.not_eq_true, Bool.not_eq_false'] at h
      exact .inl ⟨⟨Deleting.noConfusion, Deleting.noConfusion⟩, .inr h⟩
    | committed =>
      simp only [clear, hstage] at h
      rw [ne_eq, Bool.not_eq_true, Bool.not_eq_false'] at h
      exact .inr ⟨rfl, .inr h⟩
    | pending => exact absurd (by simp only [clear, hstage]) h
    | removed => exact absurd (by simp only [clear, hstage]) h
    | refused => exact absurd (by simp only [clear, hstage]) h
  | get i => exact absurd rfl h
  | transact rule makes => exact absurd rfl h
  | probe i caller => exact absurd rfl h

/-- When nothing is under way any more, what was about to be made is there. -/
theorem not_deleted_of_returns (hsettled : s.Settled)
    (h : s.Returning ws ∨ s.Refilling) : ¬ s.Deleted ws := by
  obtain ⟨-, hgets, hprobes⟩ := hsettled
  rintro ⟨hrow, hdirectory⟩
  rcases h with ⟨-, hhas | hopening⟩ | ⟨-, hmade | hprobing⟩
  · rw [hrow] at hhas
    cases hhas
  · obtain ⟨i, stage, hget, hopens⟩ := underWay_iff.mp hopening
    refine absurd (underWay_iff.mpr ⟨i, stage, hget, ?_⟩) (Bool.eq_false_iff.mp hgets)
    cases stage <;> first | rfl | cases hopens
  · rw [hdirectory] at hmade
    cases hmade
  · obtain ⟨i, stage, hget, hmakes⟩ := underWay_iff.mp hprobing
    refine absurd (underWay_iff.mpr ⟨i, stage, hget, ?_⟩) (Bool.eq_false_iff.mp hprobes)
    cases stage <;> first | rfl | cases hmakes

/-- A run that leaves the workspace deleted is clear at every step. -/
theorem clear_of_deleted {es : List SiteStep}
    (hsettled : (Runs.run (step ws repair) s es).Settled)
    (h : (Runs.run (step ws repair) s es).Deleted ws) :
    Runs.Along (step ws repair) (fun s e => s.clear e = true) s es := by
  induction es generalizing s with
  | nil => trivial
  | cons e es ih =>
    refine ⟨?_, ih hsettled h⟩
    by_contra hnot
    refine not_deleted_of_returns hsettled ?_ h
    rcases @returns_of_not_clear ws repair s e hnot with hreturning | hrefilling
    · exact .inl (Runs.always _ (fun _ e h => h.step e) hreturning es)
    · exact .inr (Runs.always _ (fun _ e h => h.step e) hrefilling es)

end

/-- **A deleted workspace stays deleted, except for what was about to make it anew.** In
every run at whose end the deletion is done and nothing is under way, the row and the
directory are gone if and only if no `get` was opening the workspace when its row was
deleted and no probe was making its directory when that was removed. -/
theorem deleted_run (ws : WorkspaceId) (repair : LedgerRule Unit) (db : Database)
    (directory mapped : Bool) (es : List SiteStep)
    (hsettled : (Runs.run (step ws repair) (new db directory mapped) es).Settled) :
    (Runs.run (step ws repair) (new db directory mapped) es).Deleted ws ↔
      Runs.Along (step ws repair) (fun s e => s.clear e = true) (new db directory mapped) es := by
  constructor
  · exact clear_of_deleted hsettled
  · intro hclear
    have hreached : (Runs.run (step ws repair) (new db directory mapped) es).Reached ws :=
      Runs.invariant _ (I := Reached ws) (fun _ e h hclear => h.step e hclear) trivial hclear
    unfold Reached at hreached
    rw [hsettled.1] at hreached
    exact ⟨hreached.1.1, hreached.2.1⟩

end Site

namespace Sample

/-- A workspace in the database. -/
def household : Database :=
  { Database.empty with
    workspaces := [⟨WorkspaceId.asStr ⟨5⟩, 0, none, 1, none, none, none, none, none, none, none,
      none⟩] }

/-- A repair that finds nothing to repair. -/
def nothingToRepair : LedgerRule Unit := fun rec => (.ok (), rec)

/-- A `get` finds the workspace, which is deleted before it makes the directory. -/
def getAmidDeletion : List SiteStep :=
  [.get 0, .get 0, .delete, .delete, .delete, .get 0, .get 0, .get 0, .get 0]

/-- A probe of an engine in use reads the record, and the workspace is deleted before it
makes its staging place. -/
def probeAmidDeletion : List SiteStep :=
  [.probe 0 ⟨⟨"phone"⟩, .readWrite⟩, .delete, .delete, .delete, .probe 0 ⟨⟨"phone"⟩, .readWrite⟩,
    .probe 0 ⟨⟨"phone"⟩, .readWrite⟩]

/-- A `get` makes the directory and the row, and the workspace is deleted before it repairs
the record. -/
def getBeforeDeletion : List SiteStep :=
  [.get 0, .get 0, .get 0, .get 0, .delete, .delete, .get 0, .delete]

end Sample

/-- A `get` in between leaves a row and a directory, and a probe leaves a directory. -/
theorem Site.not_deleted_amid :
    (let s := Runs.run (Site.step ⟨5⟩ Sample.nothingToRepair) (.new Sample.household false false)
      Sample.getAmidDeletion
     s.Settled ∧ s.db.has ⟨5⟩ = true ∧ s.directory = true) ∧
    (let s := Runs.run (Site.step ⟨5⟩ Sample.nothingToRepair) (.new Sample.household true true)
      Sample.probeAmidDeletion
     s.Settled ∧ s.db.has ⟨5⟩ = false ∧ s.directory = true) := by
  decide +kernel

theorem Site.deleted_before :
    (Runs.run (Site.step ⟨5⟩ Sample.nothingToRepair) (.new Sample.household false false)
      Sample.getBeforeDeletion).Deleted ⟨5⟩ :=
  (Site.deleted_run ⟨5⟩ Sample.nothingToRepair Sample.household false false
    Sample.getBeforeDeletion (by decide +kernel)).mpr (by decide +kernel)

end Passalong
