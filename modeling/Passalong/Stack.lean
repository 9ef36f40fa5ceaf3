import Passalong.KeyBinding
import Passalong.Notes
import Passalong.Queries
import Passalong.Sums

/-!
# The server's engines over its real stores (`engines.rs`, `workspace.rs`)

A running server has one engine for each workspace, over the workspace's directory
(`FsShelf`) and the control database that all of them share (`SqliteLedger`). A `Stack` is
all of that: the tables, and for each workspace that was opened its directory and the
clean-ups that were issued and not yet performed. A request is run as `Engine::write` and
`Engine::read` do: the record is read from the workspace's rows, the rule's calls go to the
directory, and a record that was changed is written back, which may be refused.

The rest of this development is about a `World`: one workspace, with its record and its
shelf in memory. This file connects the two. Each workspace of a stack is at every moment as
some `World` that a run leads to, whatever is done to the others (`Stack.refines_run`): its
rows hold the record, its directory holds the shelf (`Holds`), and every answer that was
given was that `World`'s. So what holds of every run of a `World` holds of the server
(`World.play_is_run`), as that every item it answers is under its partition's key
(`Stack.underKey_run`).

1. `ServerEngine.Is` relates one engine to one `World`, and `Stack.Models` a stack to all.
2. What happens to an engine happens to its `World` (`Is.request`, `Is.query`, `Is.cut`, ...),
   and the other workspaces stay as they are (`Models.advance`).
3. A `Moment` is an event of a `World`, or a read, with what is answered.

A cut is between two calls of the trait; what a cut inside a call leaves is the subject of
`Crashes`. A shelf that is opened again is as it was (`FsShelf.reopen_holds`).
-/

namespace Passalong

open Lib

/-! ## A directory is opened again -/

namespace FsShelf

variable [ServerJson] {s : MemoryShelf}

/-- What is in order is not swept. -/
theorem sweep_holds {fs : FsShelf} (h : Holds fs.disk s) {names : List String}
    (hnames : ∀ name ∈ names, ∃ node, fs.disk.get ["staging", name] = some node) :
    (Script.whole (Script.sweepDigests names)) fs = (.ok (), fs) := by
  induction names with
  | nil => rfl
  | cons name names ih =>
    have horphan : Script.orphan fs.disk name = false := by
      rw [Bool.eq_false_iff]
      intro hyes
      obtain ⟨u, hu, hgone⟩ := (Option.any_eq_true _ _).mp hyes
      obtain rfl := Script.notedUpload_eq_some.mp hu
      -- a note has its upload's directory beside it
      obtain ⟨node, hnode⟩ := hnames _ List.mem_cons_self
      have hplace := h.place u
      rw [h.isDir_staged] at hgone
      cases hstaged : s.staging[u]? with
      | none =>
        rw [hstaged] at hplace
        have hnote : fs.disk.get ["staging", digestName u] = none := hplace.2
        rw [hnote] at hnode
        cases hnode
      | some place =>
        rw [hstaged] at hgone
        cases hgone
    unfold Script.sweepDigests
    rw [Script.whole_bind, Script.whole_once]
    have hlook : look (Script.orphan · name) fs = (.ok false, fs) := by
      show (Except.ok (Script.orphan fs.disk name), fs) = _
      rw [horphan]
    rw [bind_ok hlook]
    exact ih fun other hother => hnames other (List.mem_cons_of_mem _ hother)

/-- **A shelf that is opened again holds what it held.** -/
theorem reopen_holds {fs : FsShelf} (h : Holds fs.disk s) (process : Nat) :
    ∃ disk, Script.whole (Script.openAt process) fs = (.ok (), ⟨disk, process, 0⟩) ∧
      Holds disk s := by
  have hmade : ∀ (disk : Disk) (path : Path), Holds disk s →
      (∀ q, q <+: path → disk.get q = some .dir) → ∃ disk',
        makeDir path (⟨disk, process, 0⟩ : FsShelf) = (.ok (), ⟨disk', process, 0⟩) ∧
          Holds disk' s := by
    intro disk path hholds hdirs
    have hfile : ∀ q, q <+: path → (⟨disk, process, 0⟩ : FsShelf).disk.isFile q = false := by
      intro q hq
      show disk.isFile q = false
      simp [Tree.isFile, hdirs q hq]
    obtain ⟨disk', hmake, hget⟩ := makeDir_ok hfile
    refine ⟨disk', hmake, hholds.congr fun q => ?_⟩
    rw [hget]
    split
    · rename_i hq
      exact (hdirs q hq).symm
    · rfl
  have hone : ∀ (disk : Disk) (x : String), Holds disk s → disk.get [x] = some .dir →
      ∀ q, q <+: [x] → disk.get q = some .dir := by
    intro disk x hholds hx q hq
    rw [← List.mem_inits] at hq
    simp only [List.inits, List.map_cons, List.map_nil, List.mem_cons, List.not_mem_nil,
      or_false] at hq
    rcases hq with rfl | rfl
    · exact hholds.root
    · exact hx
  -- the three directories are made where they are there already
  obtain ⟨d₁, hroot, h₁⟩ := hmade fs.disk [] h fun q hq => by
    rw [List.prefix_nil.mp hq]
    exact h.root
  obtain ⟨d₂, hstaging, h₂⟩ := hmade d₁ staging h₁ (hone d₁ _ h₁ h₁.staging)
  obtain ⟨d₃, htrash, h₃⟩ := hmade d₂ trash h₂ (hone d₂ _ h₂ h₂.trash)
  -- the trash is empty, so there is nothing to take out
  have hempty : d₃.children trash = [] := by
    rw [List.eq_nil_iff_forall_not_mem]
    intro x hx
    obtain ⟨node, hnode⟩ := Tree.mem_children.mp hx
    have hnone : d₃.get (trash ++ [x]) = none := h₃.emptied x []
    rw [hnone] at hnode
    cases hnode
  have hbin : listing trash (⟨d₃, process, 0⟩ : FsShelf) = (.ok [], ⟨d₃, process, 0⟩) := by
    have hlisted : listing trash (⟨d₃, process, 0⟩ : FsShelf) =
        (.ok (d₃.children trash), ⟨d₃, process, 0⟩) := listing_dir h₃.trash
    rw [hlisted, hempty]
  have hnotes : listing staging (⟨d₃, process, 0⟩ : FsShelf) =
      (.ok (d₃.children staging), ⟨d₃, process, 0⟩) := listing_dir h₃.staging
  -- every note has its staging place, so the sweep keeps them all
  have hswept : Script.whole (Script.sweepDigests (d₃.children staging))
      (⟨d₃, process, 0⟩ : FsShelf) = (.ok (), ⟨d₃, process, 0⟩) := by
    have hholds : Holds (⟨d₃, process, 0⟩ : FsShelf).disk s := h₃
    exact sweep_holds hholds fun name hname => Tree.mem_children.mp hname
  have hnumbered : (fun fs : FsShelf => (.ok (), { fs with process, trashed := 0 }) :
      Steps Unit) fs = (.ok (), ⟨fs.disk, process, 0⟩) := rfl
  have hkept : Script.whole (Script.emptyTrash []) (⟨d₃, process, 0⟩ : FsShelf) =
      (.ok (), ⟨d₃, process, 0⟩) := rfl
  refine ⟨d₃, ?_, h₃⟩
  unfold Script.openAt
  simp only [Script.whole_bind, Script.whole_once, Script.whole_makeDir]
  refine (bind_ok hnumbered).trans ?_
  rw [bind_ok hroot, bind_ok hstaging, bind_ok htrash, bind_ok hbin, bind_ok hkept,
    bind_ok hnotes]
  exact hswept

end FsShelf

/-! ## The server -/

/-- An engine over its workspace's directory, and the clean-ups it has still to perform. -/
structure ServerEngine where
  shelf : FsShelf
  pending : List Cleanup

/-- The control database and the engines. -/
structure Stack where
  db : Database
  engines : Map WorkspaceId ServerEngine

/-- What can happen to one workspace of the server. -/
inductive ServerEvent where
  /-- A process opens the engine, and repairs what the last one left. -/
  | opened (process : Nat) (call : Call)
  | request (call : Call) (op : Op)
  | query (call : Call) (q : Query)
  /-- A rule runs and the process stops: after so many of the rule's calls, or before the
  record is stored. -/
  | cut (call : Call) (op : Op) (calls : Nat)
  | cleanup (i : Nat)
  | lose (i : Nat)
  | lateWrite (upload : UploadId) (content : Source) (announced : Nat) (hashed : Bool)

/-- An answer that was given. -/
inductive Response where
  | answer (answer : Except ApiError Answer)
  | fetched (answer : Except ApiError Fetched)

/-- What a rule is given to work on, but for its shelf. -/
def WorkspaceRecord.work (record : WorkspaceRecord) (limits : Limits) (call : Call) : Work where
  record := record
  now := call.now
  draws := call.draws
  limits := limits
  after := []

/-- How a clean-up is performed. -/
def Cleanup.call : Cleanup → ShelfCall
  | .dropGeneration g => .dropGeneration g
  | .removeStaging u => .stageRemove u

section
variable [Crates] [ServerJson]

namespace ServerEngine

variable (engine : ServerEngine) (db : Database) (ws : WorkspaceId) (limits : Limits)

/-- `Engine::write`: the rule's calls go to the directory whether or not its record is
stored, and its clean-ups are issued only when it is. -/
def write (call : Call) (op : Op) : Except ApiError Answer × ServerEngine × Database :=
  match db.read ws with
  | .error e => (.error e.shown, engine, db)
  | .ok record =>
    match (op.program (record.work limits call)).run FsShelf.serve engine.shelf with
    | (.error e, shelf) => (.error e, { engine with shelf }, db)
    | (.ok (answer, w), shelf) =>
      match db.transact ws fun _ => (.ok answer, w.record) with
      | (.error e, db) => (.error e.shown, { engine with shelf }, db)
      | (.ok answer, db) => (.ok answer, ⟨shelf, engine.pending ++ w.after⟩, db)

/-- `Engine::read`: on a copy of the record, of which nothing is stored. -/
def read {α : Type} (call : Call) (rule : Work → ShelfProgram α) :
    Except ApiError α × ServerEngine :=
  match db.read ws with
  | .error e => (.error e.shown, engine)
  | .ok record =>
    let (answer, shelf) := (rule (record.work limits call)).run FsShelf.serve engine.shelf
    (answer, { engine with shelf })

/-- Any operation. -/
def request (call : Call) (op : Op) : Except ApiError Answer × ServerEngine × Database :=
  if op.readsOnly then
    let (answer, engine) := engine.read db ws limits call fun w => op.program w
    (answer.map Prod.fst, engine, db)
  else engine.write db ws limits call op

/-- One event of an engine, with what is answered. -/
def step : ServerEvent → List Response × ServerEngine × Database
  | .opened process call =>
    match (FsShelf.Script.openAt process).whole engine.shelf with
    | (.error e, shelf) => ([.answer (.error e)], ⟨shelf, []⟩, db)
    | (.ok _, shelf) =>
      match db.create ws with
      | .error e => ([.answer (.error e.shown)], ⟨shelf, []⟩, db)
      | .ok db =>
        let (answer, engine, db) := write ⟨shelf, []⟩ db ws limits call .reconcile
        ([.answer answer], engine, db)
  | .request call op =>
    let (answer, engine, db) := engine.request db ws limits call op
    ([.answer answer], engine, db)
  | .query call q =>
    let (answer, engine) := engine.read db ws limits call fun w => q.program w
    ([.fetched answer], engine, db)
  | .cut call op calls =>
    match db.read ws with
    | .error _ => ([], engine, db)
    | .ok record =>
      let shelf := (op.program (record.work limits call)).cut FsShelf.serve calls engine.shelf
      ([], { engine with shelf }, db)
  | .cleanup i =>
    match engine.pending[i]? with
    | some c =>
      ([], ⟨(FsShelf.serve c.call engine.shelf).2, engine.pending.eraseIdx i⟩, db)
    | none => ([], engine, db)
  | .lose i => ([], { engine with pending := engine.pending.eraseIdx i }, db)
  | .lateWrite upload content announced hashed =>
    let shelf := (FsShelf.write upload content announced hashed engine.shelf).2
    ([], { engine with shelf }, db)

end ServerEngine

namespace Stack

variable (limits : WorkspaceId → Limits)

/-- A new server. -/
def initial : Stack := ⟨.empty, ∅⟩

/-- The engine an event is about: the one there is, or when it is opened for the first time
one over a new directory. -/
def engineOf (stack : Stack) (ws : WorkspaceId) : ServerEvent → Option ServerEngine
  | .opened process _ => some (stack.engines[ws]?.getD ⟨FsShelf.new process, []⟩)
  | _ => stack.engines[ws]?

/-- One event of one workspace. -/
def step (stack : Stack) (e : WorkspaceId × ServerEvent) : List Response × Stack :=
  match stack.engineOf e.1 e.2 with
  | none => ([], stack)
  | some engine =>
    let (replies, engine, db) := engine.step stack.db e.1 (limits e.1) e.2
    (replies, ⟨db, stack.engines.insert e.1 engine⟩)

def exec (stack : Stack) (e : WorkspaceId × ServerEvent) : Stack := (stack.step limits e).2

/-- A whole run. -/
def run : Stack → List (WorkspaceId × ServerEvent) → Stack := Runs.run (exec limits)

/-- What an event answers the clients of a workspace. -/
def replyTo (ws : WorkspaceId) (stack : Stack) (e : WorkspaceId × ServerEvent) : List Response :=
  if e.1 = ws then (stack.step limits e).1 else []

/-- What the clients of a workspace are answered in a whole run. -/
def replies (ws : WorkspaceId) : Stack → List (WorkspaceId × ServerEvent) → List Response :=
  Runs.history (exec limits) (replyTo limits ws)

end Stack

end

/-! ## One workspace by itself -/

/-- What happens to one workspace, and whether the answer to a request arrives. -/
inductive Moment where
  | event (e : Event) (heard : Bool)
  | query (call : Call) (q : Query)

/-- What the clock shows at a moment, where it matters later. -/
def Moment.times : Moment → List Nat
  | .event e _ => e.times
  | .query _ _ => []

def ServerEvent.times : ServerEvent → List Nat
  | .opened _ call | .request call _ | .cut call _ _ => [call.now]
  | _ => []

/-- Whether an event opens its engine. -/
def ServerEvent.opens : ServerEvent → Bool
  | .opened .. => true
  | _ => false

/-- What the clock shows is a `u64`, and an offset can be sought. -/
def ServerEvent.InRange : ServerEvent → Prop
  | .opened _ call | .request call _ | .cut call _ _ => call.now < u64Bound
  | .query call q => call.now < u64Bound ∧ q.InRange
  | _ => True

section
variable [Crates]

namespace World

variable (id : String) (limits : Limits)

def pass (w : World) : Moment → World
  | .event e _ => w.execStored id limits e
  | .query _ _ => w

/-- What a moment answers. -/
def replyTo (w : World) : Moment → List Response
  | .event (.request call op) true => [.answer (Engine.runStored id w limits call op).1]
  | .event _ _ => []
  | .query call q => [.fetched (q.answer (w.rules limits call))]

/-- A workspace in the course of some moments. -/
def play : World → List Moment → World := Runs.run (pass id limits)

def replies : World → List Moment → List Response :=
  Runs.history (pass id limits) (replyTo id limits)

/-! ### Such moments are a run -/

/-- A request whose record was not stored is a request that was cut before it was. -/
theorem execStored_is_exec (w : World) (e : Event) :
    ∃ e' : Event, w.execStored id limits e = w.exec limits e' ∧ e'.times = e.times := by
  cases e with
  | request call op =>
    rcases Engine.runStored_cases id w limits call op with ⟨hstored, -⟩ | ⟨hnot, hstored⟩
    · exact ⟨.request call op, congrArg Prod.snd hstored, rfl⟩
    · cases hop : op.readsOnly with
      | true =>
        refine ⟨.request call op, ?_, rfl⟩
        have hread : Engine.run w limits call op = Engine.read w limits call op.rule := by
          unfold Engine.run
          rw [hop, if_pos rfl]
        show (Engine.runStored id w limits call op).2 = (Engine.run w limits call op).2
        rw [hstored, hread]
        rfl
      | false =>
        -- its one step on the shelf was made
        refine ⟨.cut call op 1, ?_, rfl⟩
        have hcut : op.cutShelf (w.rules limits call) 1 =
            (op.rule (w.rules limits call)).2.shelf := by
          cases op with
          | probeWrite caller => cases hop
          | _ => rfl
        have hshelf : (Engine.run w limits call op).2.shelf =
            (op.rule (w.rules limits call)).2.shelf := by
          unfold Engine.run
          rw [hop, if_neg Bool.false_ne_true]
          unfold Engine.write
          rcases op.rule (w.rules limits call) with ⟨_ | _, r⟩ <;> rfl
        show (Engine.runStored id w limits call op).2 =
          { w with shelf := op.cutShelf (w.rules limits call) 1 }
        rw [hstored, hcut, hshelf]
  | _ => exact ⟨_, rfl, rfl⟩

/-- A workspace in the course of some moments is one in the course of some events. -/
theorem play_is_run (w : World) (moments : List Moment) :
    ∃ es, w.play id limits moments = w.run limits es ∧
      es.flatMap Event.times = moments.flatMap Moment.times := by
  induction moments generalizing w with
  | nil => exact ⟨[], rfl, rfl⟩
  | cons m moments ih =>
    cases m with
    | event e heard =>
      obtain ⟨e', he', htimes⟩ := w.execStored_is_exec id limits e
      obtain ⟨es, hes, hall⟩ := ih (w.execStored id limits e)
      refine ⟨e' :: es, ?_, ?_⟩
      · show (w.execStored id limits e).play id limits moments = _
        rw [hes, he']
        rfl
      · rw [List.flatMap_cons, List.flatMap_cons, hall, htimes]
        rfl
    | query call q => exact ih w

end World

end

/-! ## An engine is its workspace -/

section
variable [Crates] [ServerJson]

/-- An engine's directory holds the shelf of a workspace, and it has the same to remove. -/
structure ServerEngine.Is (engine : ServerEngine) (w : World) : Prop where
  shelf : FsShelf.Holds engine.shelf.disk w.shelf
  pending : engine.pending = w.pending

variable {db : Database} {records : MemoryLedger} {ws : WorkspaceId} {limits : Limits}
  {engine : ServerEngine} {w : World} {call : Call} {op : Op}

omit [Crates] [ServerJson] in
/-- The numbers of a record that is stored can be handed to a shelf. -/
theorem Represents.work_inRange {rec : WorkspaceRecord} (h : Represents db records)
    (hws : records[ws]? = some rec) (hnow : call.now < u64Bound) (limits : Limits) :
    (rec.work limits call).InRange := by
  have hfits := h.fits hws
  have hbound : dbBound < u64Bound := by decide
  refine ⟨hnow, fun g hg => Nat.lt_trans ?_ hbound⟩
  rcases WorkspaceRecord.mem_liveGenerations.mp hg with rfl | hplain | hstaged
  · exact hfits.generation
  · exact hfits.plain g hplain
  · refine hfits.staged g ?_
    unfold WorkspaceRecord.stagedGeneration at hstaged
    unfold sessionColumn
    cases hstate : rec.state with
    | settled sealed =>
      rw [show (rec.work limits call).record.state = rec.state from rfl, hstate] at hstaged
      cases hstaged
    | rewriting session =>
      rw [show (rec.work limits call).record.state = rec.state from rfl, hstate] at hstaged
      exact hstaged

namespace ServerEngine

/-- A rule does to the directory what it does to the shelf, and answers the same. -/
theorem Is.program (h : engine.Is w) (hjson : FsShelf.ReadsBack)
    (hrange : (w.record.work limits call).InRange) (op : Op) :
    ∃ shelf, (op.program (w.record.work limits call)).run FsShelf.serve engine.shelf =
        ((Rules.served (op.rule (w.rules limits call))).1, shelf) ∧
      FsShelf.Holds shelf.disk (op.rule (w.rules limits call)).2.shelf := by
  obtain ⟨hanswer, hholds⟩ := Calls.run_alike (FsShelf.serve_alike hjson)
    (Op.program_inRange op hrange) h.shelf
  have hserved : (op.program (w.record.work limits call)).run MemoryShelf.serve w.shelf =
      Rules.served (op.rule (w.rules limits call)) := Op.program_served op _ _
  rw [hserved] at hanswer hholds
  refine ⟨_, Prod.ext hanswer rfl, ?_⟩
  rcases hout : op.rule (w.rules limits call) with ⟨e | a, r⟩
  · rw [hout] at hholds
    exact hholds
  · rw [hout] at hholds
    exact hholds

/-- **`Engine::write` over the stores.** -/
theorem Is.write (h : engine.Is w) (hjson : FsShelf.ReadsBack) (hdb : Represents db records)
    (hws : records[ws]? = some w.record) (hnow : call.now < u64Bound) (limits : Limits) {op : Op}
    (hop : op.readsOnly = false) :
    ∃ engine' db', engine.write db ws limits call op =
        ((Engine.runStored ws.asStr w limits call op).1, engine', db') ∧
      engine'.Is (Engine.runStored ws.asStr w limits call op).2 ∧
      Represents db' (records.insert ws (Engine.runStored ws.asStr w limits call op).2.record) := by
  obtain ⟨shelf, hrun, hholds⟩ := h.program hjson (hdb.work_inRange hws hnow limits) op
  have hwrite : Engine.run w limits call op = Engine.write w limits call op.rule := by
    unfold Engine.run
    rw [hop, if_neg Bool.false_ne_true]
  unfold ServerEngine.write Engine.runStored
  rw [hdb.read_present hws, hwrite, hop]
  dsimp only
  rw [hrun]
  unfold Engine.write
  rcases hout : op.rule (w.rules limits call) with ⟨e | a, r⟩
  · rw [hout] at hholds
    refine ⟨_, _, rfl, ⟨hholds, h.pending⟩, ?_⟩
    show Represents db (records.insert ws w.record)
    rw [Map.insert_same hws]
    exact hdb
  · rw [hout] at hholds
    dsimp only [Rules.served]
    simp only [Bool.false_eq_true, if_false]
    obtain ⟨rule, hrule, hrecord⟩ : ∃ rule : LedgerRule Answer,
        rule = (fun _ => (.ok a, r.work.record)) ∧ rule w.record = (.ok a, r.record) :=
      ⟨_, rfl, rfl⟩
    rw [← hrule]
    rcases fits_stored ws.asStr r.record with ⟨hfits, v, hv⟩ | ⟨hnot, hv⟩
    · obtain ⟨db', hdone, hdb'⟩ := hdb.transact_done hws hrecord hfits
      rw [hdone, hv]
      refine ⟨_, _, rfl, ⟨hholds, ?_⟩, hdb'⟩
      show engine.pending ++ r.after = w.pending ++ r.after
      rw [h.pending]
    · rw [hdb.transact_tooLarge hws hrecord hnot, hv]
      refine ⟨_, _, rfl, ⟨hholds, h.pending⟩, ?_⟩
      show Represents db (records.insert ws w.record)
      rw [Map.insert_same hws]
      exact hdb

/-- **`Engine::read` over the stores**, for an operation. -/
theorem Is.readOnly (h : engine.Is w) (hjson : FsShelf.ReadsBack) (hdb : Represents db records)
    (hws : records[ws]? = some w.record) (hnow : call.now < u64Bound) (limits : Limits) {op : Op}
    (hop : op.readsOnly = true) :
    ∃ engine', engine.request db ws limits call op =
        ((Engine.runStored ws.asStr w limits call op).1, engine', db) ∧
      engine'.Is (Engine.runStored ws.asStr w limits call op).2 ∧
      (Engine.runStored ws.asStr w limits call op).2.record = w.record := by
  obtain ⟨shelf, hrun, hholds⟩ := h.program hjson (hdb.work_inRange hws hnow limits) op
  have hread : Engine.run w limits call op = Engine.read w limits call op.rule := by
    unfold Engine.run
    rw [hop, if_pos rfl]
  unfold ServerEngine.request ServerEngine.read Engine.runStored
  rw [hdb.read_present hws, hread, hop]
  simp only [if_true]
  rw [hrun]
  unfold Engine.read
  rcases hout : op.rule (w.rules limits call) with ⟨e | a, r⟩
  · rw [hout] at hholds
    exact ⟨_, rfl, ⟨hholds, h.pending⟩, rfl⟩
  · rw [hout] at hholds
    exact ⟨_, rfl, ⟨hholds, h.pending⟩, rfl⟩

/-- **Any operation over the stores.** -/
theorem Is.request (h : engine.Is w) (hjson : FsShelf.ReadsBack) (hdb : Represents db records)
    (hws : records[ws]? = some w.record) (hnow : call.now < u64Bound) (limits : Limits) (op : Op) :
    ∃ engine' db', engine.request db ws limits call op =
        ((Engine.runStored ws.asStr w limits call op).1, engine', db') ∧
      engine'.Is (Engine.runStored ws.asStr w limits call op).2 ∧
      Represents db' (records.insert ws (Engine.runStored ws.asStr w limits call op).2.record) := by
  cases hop : op.readsOnly with
  | true =>
    obtain ⟨engine', hrequest, his, hrecord⟩ := h.readOnly hjson hdb hws hnow limits hop
    refine ⟨engine', db, hrequest, his, ?_⟩
    rw [hrecord, Map.insert_same hws]
    exact hdb
  | false =>
    have hwrite : engine.request db ws limits call op = engine.write db ws limits call op := by
      unfold ServerEngine.request
      rw [hop, if_neg Bool.false_ne_true]
    rw [hwrite]
    exact h.write hjson hdb hws hnow limits hop

/-- **A read over the stores.** -/
theorem Is.query (h : engine.Is w) (hjson : FsShelf.ReadsBack) (hdb : Represents db records)
    (hws : records[ws]? = some w.record) (limits : Limits) (call : Call) {q : Query}
    (hq : q.InRange) :
    ∃ engine', engine.read db ws limits call (fun w => q.program w) =
        (q.answer (w.rules limits call), engine') ∧ engine'.Is w := by
  obtain ⟨hanswer, hholds⟩ := Calls.run_alike (FsShelf.serve_alike hjson)
    (Query.program_inRange hq (w.record.work limits call)) h.shelf
  have hserved : (q.program (w.record.work limits call)).run MemoryShelf.serve w.shelf =
      (q.answer (w.rules limits call), w.shelf) := Query.program_served q _ _
  rw [hserved] at hanswer hholds
  unfold ServerEngine.read
  rw [hdb.read_present hws]
  exact ⟨_, Prod.ext hanswer rfl, hholds, h.pending⟩

/-! ### One event -/

omit [ServerJson] in
/-- A request that edits no record leaves its shelf. -/
theorem runStored_readsOnly (id : String) (w : World) (hop : op.readsOnly = true) :
    (Engine.runStored id w limits call op).2 =
      { w with shelf := (op.rule (w.rules limits call)).2.shelf } := by
  have hread : Engine.run w limits call op = Engine.read w limits call op.rule := by
    unfold Engine.run
    rw [hop, if_pos rfl]
  unfold Engine.runStored
  rw [hread, hop]
  unfold Engine.read
  rcases op.rule (w.rules limits call) with ⟨_ | a, r⟩ <;> rfl

/-- **A cut over the stores.** Which event of the workspace it is does not depend on the
engine. -/
theorem cut_event (hjson : FsShelf.ReadsBack) (ws : WorkspaceId) (w : World)
    (hnow : call.now < u64Bound) (limits : Limits) (op : Op) (calls : Nat) :
    ∃ e : Event, e.times = [call.now] ∧
      (w.execStored ws.asStr limits e).record = w.record ∧
      w.replyTo ws.asStr limits (.event e false) = [] ∧
      ∀ {engine : ServerEngine} {db : Database} {records : MemoryLedger}, engine.Is w →
        Represents db records → records[ws]? = some w.record →
        ∃ engine', engine.step db ws limits (.cut call op calls) = ([], engine', db) ∧
          engine'.Is (w.execStored ws.asStr limits e) := by
  have hstep : ∀ {engine : ServerEngine} {db : Database} {records : MemoryLedger},
      Represents db records → records[ws]? = some w.record →
      engine.step db ws limits (.cut call op calls) =
        ([], ⟨(op.program (w.record.work limits call)).cut FsShelf.serve calls engine.shelf,
          engine.pending⟩, db) := by
    intro engine db records hdb hws
    dsimp only [ServerEngine.step]
    rw [hdb.read_present hws]
  have hshelf : ∀ {engine : ServerEngine} {db : Database} {records : MemoryLedger}, engine.Is w →
      Represents db records → records[ws]? = some w.record →
      FsShelf.Holds
        ((op.program (w.record.work limits call)).cut FsShelf.serve calls engine.shelf).disk
        ((op.program (w.record.work limits call)).cut MemoryShelf.serve calls w.shelf) :=
    fun h hdb hws => Calls.cut_alike (FsShelf.serve_alike hjson)
      (Op.program_inRange op (hdb.work_inRange hws hnow limits)) h.shelf calls
  rcases Op.program_cut op (w.record.work limits call) calls w.shelf with
    ⟨steps, hsteps⟩ | ⟨hop, hwhole⟩
  · rw [hsteps] at hshelf
    exact ⟨.cut call op steps, rfl, rfl, rfl,
      fun h hdb hws => ⟨_, hstep hdb hws, ⟨hshelf h hdb hws, h.pending⟩⟩⟩
  · -- all its calls are made, and nobody hears of it
    rw [hwhole] at hshelf
    have hexec : w.execStored ws.asStr limits (.request call op) =
        { w with shelf := (op.rule (w.rules limits call)).2.shelf } :=
      runStored_readsOnly _ _ hop
    refine ⟨.request call op, rfl, ?_, rfl, fun h hdb hws => ⟨_, hstep hdb hws, ?_⟩⟩
    · rw [hexec]
    · rw [hexec]
      exact ⟨hshelf h hdb hws, h.pending⟩

/-- A clean-up that is performed does the same to the directory. -/
theorem Is.cleaned (h : engine.Is w) (hjson : FsShelf.ReadsBack) (c : Cleanup) :
    FsShelf.Holds (FsShelf.serve c.call engine.shelf).2.disk (c.perform w.shelf) := by
  cases c with
  | dropGeneration g => exact (FsShelf.serve_alike hjson (.dropGeneration g) _ _ trivial h.shelf).2
  | removeStaging u => exact (FsShelf.serve_alike hjson (.stageRemove u) _ _ trivial h.shelf).2

omit [ServerJson] in
/-- A process that stops loses what it owed. -/
theorem play_lost (id : String) (w : World) :
    w.play id limits (List.replicate w.pending.length (.event (.lose 0) false)) =
        { w with pending := [] } ∧
      w.replies id limits (List.replicate w.pending.length (.event (.lose 0) false)) = [] := by
  obtain ⟨record, shelf, pending⟩ := w
  induction pending with
  | nil => exact ⟨rfl, rfl⟩
  | cons c pending ih => exact ih

/-- What an opening is to a workspace: what the process before owed is lost, and what it left
is repaired. -/
def openedMoments (w : World) (call : Call) : List Moment :=
  List.replicate w.pending.length (.event (.lose 0) false) ++
    [.event (.request call .reconcile) true]

omit [ServerJson] in
theorem play_opened (id : String) (limits : Limits) (w : World) (call : Call) :
    w.play id limits (openedMoments w call) =
        (Engine.runStored id { w with pending := [] } limits call .reconcile).2 ∧
      w.replies id limits (openedMoments w call) =
        [.answer (Engine.runStored id { w with pending := [] } limits call .reconcile).1] := by
  obtain ⟨hplay, hreplies⟩ := @play_lost _ limits id w
  constructor
  · refine (Runs.run_append _ _ _ _).trans ?_
    show World.play id limits (w.play id limits _) _ = _
    rw [hplay]
    rfl
  · refine (Runs.history_append _ _ _ _ _).trans ?_
    show w.replies id limits _ ++ World.replies id limits (w.play id limits _) _ = _
    rw [hreplies, hplay]
    rfl

/-- **An engine that is opened**, for the first time or again. -/
theorem Is.opened (h : engine.Is w) (hjson : FsShelf.ReadsBack) (hdb : Represents db records)
    (hws : (records.create ws)[ws]? = some w.record) (hnow : call.now < u64Bound)
    (limits : Limits) (process : Nat) :
    ∃ engine' db',
      engine.step db ws limits (.opened process call) =
        (w.replies ws.asStr limits (openedMoments w call), engine', db') ∧
      engine'.Is (w.play ws.asStr limits (openedMoments w call)) ∧
      Represents db' ((records.create ws).insert ws
        (w.play ws.asStr limits (openedMoments w call)).record) := by
  obtain ⟨disk, hopen, hholds⟩ := FsShelf.reopen_holds h.shelf process
  obtain ⟨db₁, hcreate, hdb₁⟩ := hdb.create ws
  have his : ServerEngine.Is ⟨⟨disk, process, 0⟩, []⟩ { w with pending := [] } := ⟨hholds, rfl⟩
  obtain ⟨engine', db', hwrite, his', hdb'⟩ :=
    his.write hjson hdb₁ hws hnow limits (show Op.reconcile.readsOnly = false from rfl)
  obtain ⟨hplay, hreplies⟩ := play_opened ws.asStr limits w call
  rw [hplay, hreplies]
  refine ⟨engine', db', ?_, his', hdb'⟩
  dsimp only [ServerEngine.step]
  rw [hopen, hcreate]
  dsimp only
  rw [hwrite]

/-- What an event amounts to for its workspace: some moments, whatever the engine, the
database and the other workspaces are. -/
structure Amounts (ws : WorkspaceId) (limits : Limits) (w : World) (e : ServerEvent)
    (moments : List Moment) : Prop where
  times : moments.flatMap Moment.times = e.times
  step : ∀ {engine : ServerEngine} {db : Database} {records : MemoryLedger}, engine.Is w →
    Represents db records → (records.create ws)[ws]? = some w.record →
    (e.opens = false → records[ws]? = some w.record) →
    ∃ engine' db',
      engine.step db ws limits e = (w.replies ws.asStr limits moments, engine', db') ∧
      engine'.Is (w.play ws.asStr limits moments) ∧
      Represents db' ((records.create ws).insert ws (w.play ws.asStr limits moments).record)

omit [Crates] [ServerJson] in
/-- What is there is not created again. -/
theorem create_present {rec : WorkspaceRecord} (h : records[ws]? = some rec) :
    records.create ws = records := by
  unfold MemoryLedger.create
  rw [h]

/-- An event of an engine that is open. -/
theorem amounts_ongoing {e : ServerEvent} {moments : List Moment} (hopens : e.opens = false)
    (htimes : moments.flatMap Moment.times = e.times)
    (h : ∀ {engine : ServerEngine} {db : Database} {records : MemoryLedger}, engine.Is w →
      Represents db records → records[ws]? = some w.record →
      ∃ engine' db',
        engine.step db ws limits e = (w.replies ws.asStr limits moments, engine', db') ∧
        engine'.Is (w.play ws.asStr limits moments) ∧
        Represents db' (records.insert ws (w.play ws.asStr limits moments).record)) :
    Amounts ws limits w e moments where
  times := htimes
  step his hdb _ hws := by
    obtain ⟨engine', db', hstep, his', hdb'⟩ := h his hdb (hws hopens)
    refine ⟨engine', db', hstep, his', ?_⟩
    rw [create_present (hws hopens)]
    exact hdb'

/-- **What happens to an engine happens to its workspace**, and the same is replies. -/
theorem amounts (hjson : FsShelf.ReadsBack) (ws : WorkspaceId) (limits : Limits) (w : World)
    {e : ServerEvent} (hrange : e.InRange) : ∃ moments, Amounts ws limits w e moments := by
  have hsame : ∀ {db : Database} {records : MemoryLedger}, Represents db records →
      records[ws]? = some w.record → Represents db (records.insert ws w.record) := by
    intro db records hdb hws
    rw [Map.insert_same hws]
    exact hdb
  cases e with
  | opened process call =>
    -- an opening may repair the shelf and drop what is left over, event by event
    refine ⟨openedMoments w call, ?_, fun his hdb hws _ => ?_⟩
    · unfold openedMoments
      rw [List.flatMap_append, List.flatMap_replicate]
      simp [Moment.times, Event.times, ServerEvent.times]
    · exact his.opened hjson hdb hws hrange limits process
  | request call op =>
    -- a request that ran is its own event, with its reply
    refine ⟨[.event (.request call op) true], amounts_ongoing rfl rfl fun his hdb hws => ?_⟩
    obtain ⟨engine', db', hrequest, his', hdb'⟩ := his.request hjson hdb hws hrange limits op
    refine ⟨engine', db', ?_, his', hdb'⟩
    dsimp only [ServerEngine.step]
    rw [hrequest]
    rfl
  | query call q =>
    refine ⟨[.query call q], amounts_ongoing rfl rfl fun {engine db records} his hdb hws => ?_⟩
    obtain ⟨engine', hquery, his'⟩ := his.query hjson hdb hws limits call hrange.2
    refine ⟨engine', db, ?_, his', hsame hdb hws⟩
    dsimp only [ServerEngine.step]
    rw [hquery]
    rfl
  | cut call op calls =>
    -- what a cut operation leaves is what some event of the model leaves
    obtain ⟨e, htimes, hrecord, hquiet, hcut⟩ := cut_event hjson ws w hrange limits op calls
    refine ⟨[.event e false], amounts_ongoing rfl ?_ fun {engine db records} his hdb hws => ?_⟩
    · show e.times ++ [] = _
      rw [htimes]
      rfl
    · obtain ⟨engine', hstep, his'⟩ := hcut his hdb hws
      refine ⟨engine', db, ?_, his', ?_⟩
      · rw [hstep]
        show _ = (w.replyTo ws.asStr limits (.event e false) ++ [], engine', db)
        rw [hquiet]
        rfl
      · show Represents db (records.insert ws (w.execStored ws.asStr limits e).record)
        rw [hrecord]
        exact hsame hdb hws
  | cleanup i =>
    -- a clean-up calls the shelf once, if it is still pending
    refine ⟨[.event (.cleanup i) false],
      amounts_ongoing rfl rfl fun {engine db records} his hdb hws => ?_⟩
    have hpending : engine.pending[i]? = w.pending[i]? := by rw [his.pending]
    show ∃ engine' db', engine.step db ws limits (.cleanup i) = ([], engine', db') ∧
      engine'.Is (w.execStored ws.asStr limits (.cleanup i)) ∧
      Represents db' (records.insert ws (w.execStored ws.asStr limits (.cleanup i)).record)
    cases hget : w.pending[i]? with
    | none =>
      have hplay : w.execStored ws.asStr limits (.cleanup i) = w := by
        simp only [World.execStored, World.exec, hget]
      rw [hplay]
      refine ⟨engine, db, ?_, his, hsame hdb hws⟩
      simp only [ServerEngine.step, hpending, hget]
    | some c =>
      have hplay : w.execStored ws.asStr limits (.cleanup i) =
          ⟨w.record, c.perform w.shelf, w.pending.eraseIdx i⟩ := by
        simp only [World.execStored, World.exec, hget]
      rw [hplay]
      refine ⟨⟨(FsShelf.serve c.call engine.shelf).2, engine.pending.eraseIdx i⟩, db, ?_, ?_,
        hsame hdb hws⟩
      · simp only [ServerEngine.step, hpending, hget]
      · exact ⟨his.cleaned hjson c, congrArg (fun p : List Cleanup => p.eraseIdx i) his.pending⟩
  | lose i =>
    refine ⟨[.event (.lose i) false],
      amounts_ongoing rfl rfl fun {engine db records} his hdb hws =>
        ⟨_, db, rfl, ⟨his.shelf, ?_⟩, hsame hdb hws⟩⟩
    exact congrArg (fun p : List Cleanup => p.eraseIdx i) his.pending
  | lateWrite upload content announced hashed =>
    -- a late put touches the shelf alone
    refine ⟨[.event (.lateWrite upload content announced hashed) false],
      amounts_ongoing rfl rfl fun {engine db records} his hdb hws => ?_⟩
    obtain ⟨disk, hwrite, hholds⟩ :=
      FsShelf.write_holds his.shelf upload content announced hashed
    refine ⟨⟨{ engine.shelf with disk }, engine.pending⟩, db, ?_, ⟨hholds, his.pending⟩,
      hsame hdb hws⟩
    dsimp only [ServerEngine.step]
    rw [hwrite]
    rfl

end ServerEngine

/-! ## The keys of what is answered -/

/-- The key a partition is under. -/
def WorkspaceRecord.keyFor (record : WorkspaceRecord) : Partition → Option KeyId
  | .current => record.keyId
  | .plain => none

/-- Every item in an answer is under the key of the partition that was asked for, or of the
open rewrite. -/
def Fetched.UnderKey (record : WorkspaceRecord) : Query → Fetched → Prop
  | .item partition _, .item answered =>
    ∀ item ∈ answered, item.envelope.under = record.keyFor partition
  | .itemsAfter partition _, .items answered =>
    ∀ one ∈ answered, one.2.envelope.under = record.keyFor partition
  | .stagedItem _ _, .item answered =>
    ∀ item ∈ answered, ∃ session, record.state = .rewriting session ∧
      item.envelope.under = some session.next.keyId
  | _, _ => True

namespace World

variable {w : World} {limits : Limits} {call : Call}

omit [Crates] [ServerJson] in
/-- Where every item is under its generation's key, so is every item a partition answers. -/
theorem KeyBound.item (h : w.KeyBound) {partition : Partition} {id : ItemId} {found : StoredItem}
    (hfound : (w.rules limits call).item partition id = some found) :
    found.envelope.under = w.record.keyFor partition := by
  have hlooked : ∀ g, w.shelf.get g id = some found →
      ∃ item : Item, (w.shelf.generation g)[id]? = some item ∧ item.envelope = found.envelope := by
    intro g hget
    obtain ⟨item, hitem, rfl⟩ := Option.map_eq_some_iff.mp hget
    exact ⟨item, hitem, rfl⟩
  cases partition with
  | current =>
    obtain ⟨item, hitem, henvelope⟩ := hlooked w.record.generation hfound
    rw [← henvelope]
    exact h.current id item hitem
  | plain =>
    unfold Rules.item at hfound
    rw [show (w.rules limits call).record.generationOf .plain = w.record.plain from rfl] at hfound
    cases hplain : w.record.plain with
    | none =>
      rw [hplain] at hfound
      cases hfound
    | some p =>
      rw [hplain] at hfound
      obtain ⟨item, hitem, henvelope⟩ := hlooked p hfound
      rw [← henvelope]
      exact h.plain p hplain id item hitem

omit [Crates] [ServerJson] in
/-- So is every item any read answers. -/
theorem KeyBound.answer (h : w.KeyBound) {q : Query} {fetched : Fetched}
    (hfetched : q.answer (w.rules limits call) = .ok fetched) :
    fetched.UnderKey w.record q := by
  cases q with
  | item partition id =>
    cases hfetched
    intro found hfound
    exact h.item hfound
  | itemsAfter partition after =>
    cases hfetched
    intro one hone
    obtain ⟨id, -, hid⟩ := List.mem_filterMap.mp hone
    obtain ⟨found, hfound, rfl⟩ := Option.map_eq_some_iff.mp hid
    exact h.item hfound
  | stagedItem caller id =>
    dsimp only [Query.answer] at hfetched
    unfold Rules.stagedItem at hfetched
    cases hheld : w.record.heldSession caller with
    | error e =>
      rw [show (w.rules limits call).record.heldSession caller = .error e from hheld] at hfetched
      cases hfetched
    | ok session =>
      rw [show (w.rules limits call).record.heldSession caller = .ok session from hheld] at hfetched
      dsimp only at hfetched
      cases hget : w.shelf.get session.stagedGeneration id with
      | none =>
        rw [show (w.rules limits call).shelf.get session.stagedGeneration id = none from hget]
          at hfetched
        cases hfetched
      | some found =>
        rw [show (w.rules limits call).shelf.get session.stagedGeneration id = some found from hget]
          at hfetched
        cases hfetched
        intro item hitem
        cases hitem
        obtain ⟨stored, hstored, rfl⟩ := Option.map_eq_some_iff.mp hget
        obtain ⟨hstate, -⟩ := WorkspaceRecord.heldSession_ok hheld
        exact ⟨session, hstate, h.staged session hstate id stored hstored⟩
  | _ => trivial

end World

/-! ## Whole runs -/

namespace Stack

variable {limits : WorkspaceId → Limits}

/-- The clock at the events of one workspace. -/
def times (ws : WorkspaceId) (e : WorkspaceId × ServerEvent) : List Nat :=
  if e.1 = ws then e.2.times else []

/-- A workspace after some moments. -/
def world (limits : WorkspaceId → Limits) (ws : WorkspaceId) (moments : List Moment) : World :=
  World.initial.play ws.asStr (limits ws) moments

/-- The stack holds what some workspaces are. -/
structure Shows (stack : Stack) (worlds : WorkspaceId → World) : Prop where
  rows : ∃ records : MemoryLedger, Represents stack.db records ∧
    ∀ ws, records[ws]? = stack.engines[ws]?.map fun _ => (worlds ws).record
  engine : ∀ (ws : WorkspaceId) (engine : ServerEngine), stack.engines[ws]? = some engine →
    engine.Is (worlds ws)
  unopened : ∀ ws : WorkspaceId, stack.engines[ws]? = none → worlds ws = World.initial

/-- After the events `es`, every workspace of the stack is as its moments have left it, and was
answered what they answer. -/
structure Models (limits : WorkspaceId → Limits) (es : List (WorkspaceId × ServerEvent))
    (stack : Stack) (moments : WorkspaceId → List Moment) : Prop where
  shown : stack.Shows fun ws => world limits ws (moments ws)
  replies : ∀ ws, initial.replies limits ws es =
    World.initial.replies ws.asStr (limits ws) (moments ws)
  times : ∀ ws, ((moments ws).flatMap Moment.times).Sublist (es.flatMap (times ws))

omit [Crates] in
theorem shows_initial : initial.Shows fun _ => World.initial where
  rows := ⟨∅, Represents.empty, fun ws => by
    rw [Std.ExtTreeMap.getElem?_empty, show initial.engines = ∅ from rfl,
      Std.ExtTreeMap.getElem?_empty]
    rfl⟩
  engine ws engine h := by
    rw [show initial.engines = ∅ from rfl, Std.ExtTreeMap.getElem?_empty] at h
    cases h
  unopened _ _ := rfl

theorem models_initial : Models limits [] initial fun _ => [] where
  shown := shows_initial
  replies _ := rfl
  times _ := List.Sublist.refl _

variable {es : List (WorkspaceId × ServerEvent)} {stack : Stack} {worlds : WorkspaceId → World}
  {moments : WorkspaceId → List Moment} {ws : WorkspaceId} {e : ServerEvent}

theorem replies_append (ws : WorkspaceId) (e : WorkspaceId × ServerEvent) :
    initial.replies limits ws (es ++ [e]) =
      initial.replies limits ws es ++ (initial.run limits es).replyTo limits ws e :=
  (Runs.history_append _ _ _ _ _).trans (congrArg _ (List.append_nil _))

/-- Nothing happens to a workspace that was never opened. -/
theorem step_idle (h : stack.engineOf ws e = none) : stack.step limits (ws, e) = ([], stack) := by
  unfold step
  dsimp only
  rw [h]

/-- The engines after an event that is about one. -/
theorem engines_step {engine : ServerEngine} (h : stack.engineOf ws e = some engine) :
    ∃ engine', (stack.exec limits (ws, e)).engines = stack.engines.insert ws engine' := by
  unfold exec step
  dsimp only
  rw [h]
  exact ⟨_, rfl⟩

omit [Crates] in
/-- An engine that is found stands for its workspace, which is stored if it was opened before. -/
theorem Shows.found (h : stack.Shows worlds) {records : MemoryLedger} {engine : ServerEngine}
    (hrecords : ∀ ws, records[ws]? = stack.engines[ws]?.map fun _ => (worlds ws).record)
    (hengine : stack.engineOf ws e = some engine) :
    engine.Is (worlds ws) ∧ (records.create ws)[ws]? = some (worlds ws).record ∧
      (e.opens = false → records[ws]? = some (worlds ws).record) := by
  cases hget : stack.engines[ws]? with
  | some there =>
    have hsame : there = engine := by
      unfold engineOf at hengine
      rw [hget] at hengine
      cases e <;> exact Option.some.inj hengine
    subst hsame
    have hws : records[ws]? = some (worlds ws).record := by
      rw [hrecords, hget]
      rfl
    refine ⟨h.engine ws there hget, ?_, fun _ => hws⟩
    rw [ServerEngine.create_present hws]
    exact hws
  | none =>
    -- its first opening
    have hnone : records[ws]? = none := by
      rw [hrecords, hget]
      rfl
    have hcreate : records.create ws = records.insert ws .initial := by
      unfold MemoryLedger.create
      rw [hnone]
    unfold engineOf at hengine
    rw [hget] at hengine
    rw [h.unopened ws hget, hcreate]
    cases e with
    | opened process call =>
      obtain rfl := Option.some.inj hengine
      exact ⟨⟨FsShelf.holds_new process, rfl⟩, Map.get_insert_self _ _ _,
        fun hopens => nomatch hopens⟩
    | _ => cases hengine

/-- **One event of the server** changes its own workspace, by the moments it amounts to. -/
theorem Shows.exec (h : stack.Shows worlds) {engine : ServerEngine} {more : List Moment}
    (hengine : stack.engineOf ws e = some engine)
    (hmore : ServerEngine.Amounts ws (limits ws) (worlds ws) e more) :
    (stack.step limits (ws, e)).1 = (worlds ws).replies ws.asStr (limits ws) more ∧
      (stack.exec limits (ws, e)).Shows
        (Function.update worlds ws ((worlds ws).play ws.asStr (limits ws) more)) := by
  obtain ⟨records, hdb, hrecords⟩ := h.rows
  obtain ⟨his, hcreated, hws⟩ := h.found hrecords hengine
  obtain ⟨engine', db', hstep, his', hdb'⟩ := hmore.step his hdb hcreated hws
  have hexec : stack.step limits (ws, e) =
      ((worlds ws).replies ws.asStr (limits ws) more, ⟨db', stack.engines.insert ws engine'⟩) := by
    unfold step
    dsimp only
    rw [hengine]
    dsimp only
    rw [hstep]
  have hnext : stack.exec limits (ws, e) = ⟨db', stack.engines.insert ws engine'⟩ := by
    unfold Stack.exec
    rw [hexec]
  -- the other workspaces' rows, engines and worlds stay
  have hothers : ∀ other, ws ≠ other →
      Function.update worlds ws ((worlds ws).play ws.asStr (limits ws) more) other =
        worlds other := fun other hother => Function.update_of_ne (Ne.symm hother) ..
  rw [hnext, hexec]
  refine ⟨rfl, ⟨_, hdb', fun other => ?_⟩, fun other engine₁ hother => ?_, fun other hother => ?_⟩
  · dsimp only
    rw [Map.get_insert, Map.get_insert]
    by_cases heq : ws = other
    · subst heq
      rw [if_pos rfl, if_pos rfl, Function.update_self]
      rfl
    · rw [if_neg heq, if_neg heq, hothers other heq, ← hrecords other]
      unfold MemoryLedger.create
      cases records[ws]? with
      | some there => rfl
      | none => exact Map.get_insert_of_ne _ _ heq
  · dsimp only at hother
    rw [Map.get_insert] at hother
    by_cases heq : ws = other
    · subst heq
      rw [if_pos rfl] at hother
      obtain rfl := Option.some.inj hother
      rw [Function.update_self]
      exact his'
    · rw [if_neg heq] at hother
      rw [hothers other heq]
      exact h.engine other engine₁ hother
  · dsimp only at hother
    rw [Map.get_insert] at hother
    by_cases heq : ws = other
    · rw [if_pos heq] at hother
      cases hother
    · rw [if_neg heq] at hother
      rw [hothers other heq]
      exact h.unopened other hother

/-- The same of a whole run. -/
theorem Models.exec (h : Models limits es stack moments) (hjson : FsShelf.ReadsBack)
    (hstack : stack = initial.run limits es) (ws : WorkspaceId) {e : ServerEvent}
    (hrange : e.InRange) :
    ∃ moments', Models limits (es ++ [(ws, e)]) (stack.exec limits (ws, e)) moments' := by
  cases hengine : stack.engineOf ws e with
  | none =>
    -- no engine takes it: nothing is done or answered
    have hidle := @step_idle _ _ limits stack ws e hengine
    have hsame : stack.exec limits (ws, e) = stack := by
      unfold Stack.exec
      rw [hidle]
    rw [hsame]
    refine ⟨moments, h.shown, fun other => ?_, fun other => ?_⟩
    · rw [replies_append, ← hstack, h.replies other]
      unfold replyTo
      rw [hidle, ite_self, List.append_nil]
    · rw [List.flatMap_append]
      exact (h.times other).trans (List.sublist_append_left _ _)
  | some engine =>
    obtain ⟨more, hmore⟩ :=
      ServerEngine.amounts hjson ws (limits ws) (world limits ws (moments ws)) hrange
    obtain ⟨hreplies, hshows⟩ := h.shown.exec hengine hmore
    have hself : Function.update moments ws (moments ws ++ more) ws = moments ws ++ more :=
      Function.update_self ..
    have hothers : ∀ other, ws ≠ other →
        Function.update moments ws (moments ws ++ more) other = moments other :=
      fun other hother => Function.update_of_ne (Ne.symm hother) ..
    refine ⟨Function.update moments ws (moments ws ++ more), ?_, fun other => ?_, fun other => ?_⟩
    -- only the workspace's own world moves on
    · have hworlds : (fun other =>
          world limits other (Function.update moments ws (moments ws ++ more) other)) =
          Function.update (fun other => world limits other (moments other)) ws
            ((world limits ws (moments ws)).play ws.asStr (limits ws) more) := by
        funext other
        by_cases heq : ws = other
        · subst heq
          rw [hself, Function.update_self]
          exact Runs.run_append _ _ _ _
        · rw [hothers other heq, Function.update_of_ne (Ne.symm heq)]
      rw [hworlds]
      exact hshows
    · rw [replies_append, ← hstack, h.replies other]
      unfold replyTo
      by_cases heq : ws = other
      · subst heq
        rw [if_pos rfl, hreplies, hself]
        exact (Runs.history_append _ _ _ _ _).symm
      · rw [if_neg heq, hothers other heq, List.append_nil]
    · rw [List.flatMap_append, List.flatMap_singleton]
      unfold Stack.times
      by_cases heq : ws = other
      · subst heq
        rw [if_pos rfl, hself, List.flatMap_append, hmore.times]
        exact (h.times ws).append_right _
      · rw [if_neg heq, hothers other heq, List.append_nil]
        exact h.times other

/-- After every run each workspace is as some moments have left it. -/
theorem models_run (hjson : FsShelf.ReadsBack) (es : List (WorkspaceId × ServerEvent))
    (hrange : ∀ e ∈ es, e.2.InRange) :
    ∃ moments, Models limits es (initial.run limits es) moments := by
  induction es using List.reverseRecOn with
  | nil => exact ⟨_, models_initial⟩
  | append_singleton es e ih =>
    obtain ⟨moments, h⟩ := ih fun e he => hrange e (List.mem_append_left _ he)
    obtain ⟨moments', h'⟩ := h.exec hjson rfl e.1
      (hrange e (List.mem_append_right _ (List.mem_singleton_self e)))
    refine ⟨moments', ?_⟩
    have hrun : initial.run limits (es ++ [e]) = (initial.run limits es).exec limits e :=
      Runs.run_append _ _ _ _
    rw [hrun]
    exact h'

end Stack

end

/-! ## A run -/

section
variable [Crates] [ServerJson]

/-- A workspace that was opened has an engine. -/
theorem Stack.engines_opened (limits : WorkspaceId → Limits) (es : List (WorkspaceId × ServerEvent))
    (ws : WorkspaceId) (process : Nat) (call : Call) :
    ∃ engine, (Stack.initial.run limits (es ++ [(ws, .opened process call)])).engines[ws]? =
      some engine := by
  have hrun : Stack.initial.run limits (es ++ [(ws, .opened process call)]) =
      (Stack.initial.run limits es).exec limits (ws, .opened process call) :=
    Runs.run_append _ _ _ _
  rw [hrun]
  exact ⟨_, Map.get_insert_self _ _ _⟩

end

namespace Sample

def house : WorkspaceId := ⟨1⟩

def office : WorkspaceId := ⟨2⟩

/-- A note is put into one workspace while another is read, and the server stops before the
commit is stored. -/
def together : List (WorkspaceId × ServerEvent) :=
  [(house, .opened 1 (call 0 [])), (office, .opened 1 (call 0 [])),
    (house, .request (call 1 [1]) (.beginUpload laptop (request 2 none))),
    (office, .query (call 1 []) (.itemsAfter .current none)),
    (house, .request (call 2 []) (.putUploadContent laptop (upload 1) [.piece [1, 2]])),
    (house, .cut (call 3 []) (.commitUpload laptop (upload 1)) 3)]

theorem together_inRange : ∀ e ∈ together, e.2.InRange := by
  simp [together, ServerEvent.InRange, Query.InRange, call, u64Bound]

end Sample

end Passalong
