import Passalong.SqliteLedger
import Passalong.Engine

/-!
# Loads outside a transaction (`SqliteLedger::load`)

`transact` reads the record inside its transaction. `load` runs the same five `SELECT`s on
the bare connection, so each of them sees what is committed when it starts, and other
connections (the engines of the same server, the command line in another process) commit
in between. A load is a run over two kinds of events: its own next `SELECT`, and the
commit of any transaction of another connection, which is any function of the database.

The record that comes out may mix the row of one commit with the tickets, outcomes or used
bytes of another (`Loading.torn`). It does not where some moment of the load divides the
foreign commits: those before it leave the workspace's rows in the tables already read as
they were, and those after it leave the ones in the tables still to be read. The record is
then the one stored at that moment (`Loading.untorn_run`).
-/

namespace Passalong

open Lib

/-- The ledger's tables. -/
inductive Table where
  | workspaces
  | generations
  | uploads
  | tombstones
  | endedRewrites
  deriving DecidableEq, Repr

/-- The tables in the order `read` goes through them. -/
def Table.order : List Table :=
  [.workspaces, .generations, .uploads, .tombstones, .endedRewrites]

theorem Table.mem_order (t : Table) : t ∈ Table.order := by
  cases t <;> decide

/-- Two views have the same rows in a table. -/
def View.Same (t : Table) (v w : View) : Prop :=
  match t with
  | .workspaces => v.row = w.row
  | .generations => v.generations = w.generations
  | .uploads => v.uploads = w.uploads
  | .tombstones => v.tombstones = w.tombstones
  | .endedRewrites => v.endedRewrites = w.endedRewrites

instance (t : Table) (v w : View) : Decidable (View.Same t v w) := by
  unfold View.Same
  cases t <;> infer_instance

/-- What was seen so far, with the rows of one table as they are now. -/
def View.select (seen : View) (t : Table) (now : View) : View :=
  match t with
  | .workspaces => { seen with row := now.row }
  | .generations => { seen with generations := now.generations }
  | .uploads => { seen with uploads := now.uploads }
  | .tombstones => { seen with tombstones := now.tombstones }
  | .endedRewrites => { seen with endedRewrites := now.endedRewrites }

namespace View

variable {t u : Table} {v w x : View}

theorem Same.refl (t : Table) (v : View) : Same t v v := by
  cases t <;> rfl

theorem Same.symm (h : Same t v w) : Same t w v := by
  cases t <;> exact Eq.symm h

theorem Same.trans (h : Same t v w) (h' : Same t w x) : Same t v x := by
  cases t <;> exact Eq.trans h h'

/-- A statement sees its table. -/
theorem select_self (seen : View) (t : Table) (now : View) : Same t (seen.select t now) now := by
  cases t <;> rfl

/-- And leaves what the others saw. -/
theorem select_other (h : u ≠ t) (seen now : View) : Same u (seen.select t now) seen := by
  cases t <;> cases u <;> first | rfl | exact absurd rfl h

/-- Views with the same rows in every table are the same. -/
theorem eq_of_same (h : ∀ t, Same t v w) : v = w :=
  View.ext (h .workspaces) (h .generations) (h .uploads) (h .tombstones) (h .endedRewrites)

end View

/-- A load under way. -/
structure Loading where
  /-- What is committed now. -/
  db : Database
  /-- The statements still to run. -/
  rest : List Table
  /-- What those so far have found. -/
  seen : View
  /-- Every database there has been since the load began. -/
  moments : List Database

/-- What can happen during a load. -/
inductive LoadEvent where
  /-- The load runs its next `SELECT`. -/
  | select
  /-- Another connection's transaction commits. -/
  | commit (transaction : Database → Database)

namespace Loading

/-- A load of a workspace's record begins. -/
def start (db : Database) : Loading := ⟨db, Table.order, View.empty, [db]⟩

def step (ws : WorkspaceId) (l : Loading) : LoadEvent → Loading
  | .select =>
    match l.rest with
    | [] => l
    | t :: rest => { l with rest := rest, seen := l.seen.select t (l.db.view ws.asStr) }
  | .commit transaction =>
    { l with db := transaction l.db, moments := l.moments ++ [transaction l.db] }

/-- The load in the course of some events. -/
def run (ws : WorkspaceId) (l : Loading) (events : List LoadEvent) : Loading :=
  Runs.run (step ws) l events

/-- What a load that has run all its statements returns. -/
def record (l : Loading) : Except Refusal WorkspaceRecord := l.seen.parse

/-- A commit that leaves the workspace's rows in the tables already read. -/
def SparesRead (ws : WorkspaceId) (l : Loading) : LoadEvent → Prop
  | .select => True
  | .commit transaction =>
    ∀ t, t ∉ l.rest → View.Same t (l.db.view ws.asStr) ((transaction l.db).view ws.asStr)

/-- A commit that leaves the workspace's rows in the tables still to be read. -/
def SparesUnread (ws : WorkspaceId) (l : Loading) : LoadEvent → Prop
  | .select => True
  | .commit transaction =>
    ∀ t, t ∈ l.rest → View.Same t (l.db.view ws.asStr) ((transaction l.db).view ws.asStr)

/-- What was read so far is still there. -/
structure Current (ws : WorkspaceId) (l : Loading) : Prop where
  seen : ∀ t, t ∉ l.rest → View.Same t l.seen (l.db.view ws.asStr)
  mem : l.db ∈ l.moments

/-- What was read so far, and what is still to be read, is as it was at some moment. -/
structure AsOf (ws : WorkspaceId) (moment : Database) (l : Loading) : Prop where
  seen : ∀ t, t ∉ l.rest → View.Same t l.seen (moment.view ws.asStr)
  unread : ∀ t, t ∈ l.rest → View.Same t (l.db.view ws.asStr) (moment.view ws.asStr)
  mem : moment ∈ l.moments

variable {ws : WorkspaceId} {l : Loading} {moment : Database}

theorem current_start (db : Database) : Current ws (start db) where
  seen t ht := absurd t.mem_order ht
  mem := List.mem_singleton_self db

theorem step_done (h : l.rest = []) : step ws l .select = l := by
  simp only [step, h]

theorem step_select {t : Table} {rest : List Table} (h : l.rest = t :: rest) :
    step ws l .select = { l with rest := rest, seen := l.seen.select t (l.db.view ws.asStr) } := by
  simp only [step, h]

/-- After the load's next statement, a table that is not to be read was read before or is
the one read now. -/
theorem seen_select {t : Table} {rest : List Table} {seen now v : View}
    (hnow : View.Same t now v) (hseen : ∀ u, u ∉ t :: rest → View.Same u seen v) :
    ∀ u, u ∉ rest → View.Same u (seen.select t now) v := by
  intro u hu
  by_cases heq : u = t
  · subst heq
    exact (View.select_self seen u now).trans hnow
  · have hbefore : u ∉ t :: rest := by simp [heq, hu]
    exact (View.select_other heq seen now).trans (hseen u hbefore)

/-- Commits that spare what was read leave it current. -/
theorem current_step (l : Loading) (e : LoadEvent) (h : Current ws l) (he : SparesRead ws l e) :
    Current ws (step ws l e) := by
  cases e with
  | commit transaction =>
    exact ⟨fun t ht => (h.seen t ht).trans (he t ht),
      List.mem_append_right _ (List.mem_singleton_self _)⟩
  | select =>
    have hseen := h.seen
    cases hrest : l.rest with
    | nil =>
      rw [step_done hrest]
      exact h
    | cons t rest =>
      rw [step_select hrest]
      rw [hrest] at hseen
      exact ⟨seen_select (.refl t _) hseen, h.mem⟩

/-- Commits that spare what is still to be read leave the load at its moment. -/
theorem asOf_step (l : Loading) (e : LoadEvent) (h : AsOf ws moment l)
    (he : SparesUnread ws l e) : AsOf ws moment (step ws l e) := by
  cases e with
  | commit transaction =>
    exact ⟨h.seen, fun t ht => (he t ht).symm.trans (h.unread t ht), List.mem_append_left _ h.mem⟩
  | select =>
    have hseen := h.seen
    have hunread := h.unread
    cases hrest : l.rest with
    | nil =>
      rw [step_done hrest]
      exact h
    | cons t rest =>
      rw [step_select hrest]
      rw [hrest] at hseen hunread
      refine ⟨seen_select (hunread t List.mem_cons_self) hseen, ?_, h.mem⟩
      intro u hu
      exact hunread u (List.mem_cons_of_mem _ hu)

/-- What is current is as of now. -/
theorem Current.asOf (h : Current ws l) : AsOf ws l.db l :=
  ⟨h.seen, fun t _ => .refl t _, h.mem⟩

/-- A load that is done returns the record of its moment. -/
theorem AsOf.record (h : AsOf ws moment l) (hdone : l.rest = []) : l.record = moment.read ws := by
  have hseen : l.seen = moment.view ws.asStr := by
    refine View.eq_of_same fun t => h.seen t ?_
    rw [hdone]
    exact List.not_mem_nil
  rw [Loading.record, hseen]
  rfl

/-- **A load is not torn where a moment divides the commits beside it**: those before it
leave the workspace's rows in the tables already read, and those after it leave its rows in
the tables still to be read. What it then returns was the stored record at that moment. -/
theorem untorn_run (ws : WorkspaceId) (db : Database) (before after : List LoadEvent)
    (hbefore : Runs.Along (step ws) (SparesRead ws) (start db) before)
    (hafter : Runs.Along (step ws) (SparesUnread ws) (run ws (start db) before) after)
    (hdone : (run ws (start db) (before ++ after)).rest = []) {rec : WorkspaceRecord}
    (hrec : (run ws (start db) (before ++ after)).record = .ok rec) :
    ∃ moment ∈ (run ws (start db) (before ++ after)).moments, moment.read ws = .ok rec := by
  have hcurrent : Current ws (run ws (start db) before) :=
    Runs.invariant _ current_step (current_start db) hbefore
  have hasOf : AsOf ws (run ws (start db) before).db (run ws (start db) (before ++ after)) := by
    unfold run
    rw [Runs.run_append]
    exact Runs.invariant _ asOf_step hcurrent.asOf hafter
  refine ⟨_, hasOf.mem, ?_⟩
  rw [← hasOf.record hdone]
  exact hrec

end Loading

namespace Sample

/-- A rule of the engine as a ledger's transaction runs it, here over an empty shelf. -/
def ledgerRule {α : Type} (now : Nat) (rule : Rules → Except ApiError α × Rules) :
    LedgerRule Unit :=
  fun rec =>
    let out := rule ⟨rec, ⟨∅, ∅⟩, now, [], ⟨100, none, 60, 60, false⟩, []⟩
    (out.1.map fun _ => (), out.2.record)

def site : WorkspaceId := ⟨5⟩

/-- A workspace whose key is to be put on: the laptop has opened the rewrite. -/
def rewritten : Database :=
  Database.empty.run
    [.create site,
      .transact site (ledgerRule 10 fun r => r.beginRewrite laptop ⟨.migrate, none, keyA, []⟩)]

/-- The operator ends the rewrite, from another process. -/
def operatorAborts (db : Database) : Database :=
  (db.transact site (ledgerRule 20 fun r => r.operatorAbortRewrite true)).2

/-- The holder's heartbeat, from another connection. -/
def heartbeats (db : Database) : Database :=
  (db.transact site (ledgerRule 30 fun r => r.heartbeatRewrite laptop)).2

/-- The record before the abort with the ended keys after it. -/
def mixed : WorkspaceRecord :=
  { WorkspaceRecord.initial with
    state := .rewriting ⟨.migrate, none, ⟨keyA, []⟩, laptop.key, 70, 1⟩
    nextGeneration := 2
    endedRewrites := {keyA} }

/-- A load into which the operator's abort falls, after the first statement. -/
def tornLoad : Loading :=
  .run site (.start rewritten)
    [.select, .commit operatorAborts, .select, .select, .select, .select]

/-- What happens in a load into which a heartbeat falls, after the first statement. -/
def beating : List LoadEvent :=
  [.select, .commit heartbeats, .select, .select, .select, .select]

/-- The record before the abort. -/
def unmixed : WorkspaceRecord := { mixed with endedRewrites := ∅ }

end Sample

/-- A load whose first statement runs before the operator's abort and whose others run
after it returns a session that is open although its key is ended: a record the workspace
never had. -/
theorem Loading.torn :
    Sample.tornLoad.rest = [] ∧ Sample.tornLoad.record = .ok Sample.mixed ∧
      ¬ ∃ moment ∈ Sample.tornLoad.moments, moment.read Sample.site = .ok Sample.mixed := by
  decide +kernel

/-- A heartbeat that commits after the row was read does not tear the load. -/
theorem Loading.untorn_heartbeat :
    ∃ moment ∈ (Loading.run Sample.site (.start Sample.rewritten) ([] ++ Sample.beating)).moments,
      moment.read Sample.site = .ok Sample.unmixed := by
  refine Loading.untorn_run Sample.site Sample.rewritten [] Sample.beating trivial ?_
    (by decide +kernel) (by decide +kernel)
  refine ⟨trivial, ?_, trivial, trivial, trivial, trivial, trivial⟩
  have hspared : ∀ t ∈ [Table.generations, .uploads, .tombstones, .endedRewrites],
      View.Same t (Sample.rewritten.view Sample.site.asStr)
        ((Sample.heartbeats Sample.rewritten).view Sample.site.asStr) := by
    decide +kernel
  exact hspared

end Passalong
