import Passalong.Ledger
import Passalong.Lib.Runs

/-!
# Bringing the control database up to date (`ledger/sqlite.rs`, `control/schema.rs`)

`migrate_with` runs in one transaction the steps that the database has not had. The first
step makes the table that holds the version, with no row in it; the row is written at the
end, and by what was there before the steps ran it is told whether that is an `INSERT`.

Every database that openings have made has had the first so many of the steps and says so
(`Schema.upTo`). An opening of it fails and leaves it as it was, or brings it to the
opening server's own version (`migrateWith_upTo`). What goes wrong may be an error or the
end of the process: after the commit there is nothing left to go wrong.
-/

namespace Passalong

open Lib

/-! ## Databases and steps -/

/-- A database, as far as its schema goes. -/
structure Schema (Step : Type) where
  /-- The rows of `schema_version`, if there is such a table. -/
  rows : Option (List Int)
  /-- The steps that were run on it, in order. -/
  applied : List Step
  deriving DecidableEq, Repr

/-- Where an opening can fail, or the process stop: before or in a statement. -/
inductive Point where
  | begin
  | look
  | version
  | step (i : Nat)
  | record
  | commit
  deriving DecidableEq, Repr

section
variable {Step : Type}

/-- A new database. -/
def Schema.empty : Schema Step := ⟨none, []⟩

/-- The version a database says it has. -/
def Schema.version (db : Schema Step) : Option Int :=
  match db.rows with
  | none => some 0
  | some rows => rows.head?

/-- One opening by a server: the steps it knows, and what goes wrong on the way and
where. -/
structure Opening (Step : Type) where
  steps : List Step
  fails : Point → Option String

/-- Nothing goes wrong. -/
def Opening.whole (steps : List Step) : Opening Step := ⟨steps, fun _ => none⟩

namespace Opening

/-- A statement of the transaction; the action is for the log. -/
def run (o : Opening Step) (point : Point) (action : String) : Except Refusal Unit :=
  match o.fails point with
  | some err => .error (.unavailable action err)
  | none => .ok ()

variable (creates : Step → Bool)

/-- `execute_batch` of one step. -/
def execute (tx : Schema Step) (step : Step) : Except Refusal (Schema Step) :=
  if creates step then
    match tx.rows with
    | some _ => .error (.unavailable "migrate the schema" "table schema_version already exists")
    | none => .ok ⟨some [], tx.applied ++ [step]⟩
  else .ok ⟨tx.rows, tx.applied ++ [step]⟩

/-- The steps that are left, the first of them number `i`. -/
def executeAll (o : Opening Step) : Nat → Schema Step → List Step → Except Refusal (Schema Step)
  | _, tx, [] => .ok tx
  | i, tx, step :: steps =>
    match o.run (.step i) "migrate the schema" with
    | .error e => .error e
    | .ok () =>
      match execute creates tx step with
      | .error e => .error e
      | .ok tx => executeAll o (i + 1) tx steps

/-- `UPDATE` of every row, or `INSERT` of one. -/
def record (hasVersion : Bool) (latest : Int) (tx : Schema Step) :
    Except Refusal (Schema Step) :=
  match tx.rows with
  | none => .error (.unavailable "record the schema version" "no such table: schema_version")
  | some rows =>
    .ok { tx with rows := some (if hasVersion then rows.map fun _ => latest
      else rows ++ [latest]) }

/-- What the transaction reads: whether there is a version, and which. -/
def readVersion (o : Opening Step) (tx : Schema Step) : Except Refusal (Bool × Int) :=
  match tx.rows with
  | none => .ok (false, 0)
  | some rows =>
    match o.run .version "read the schema version" with
    | .error e => .error e
    | .ok () =>
      match rows with
      | [] => .error (.unavailable "read the schema version" "Query returned no rows")
      | version :: _ => .ok (true, version)

/-- The transaction: what it commits, if there was anything to do. -/
def transact (o : Opening Step) (tx : Schema Step) : Except Refusal (Option (Schema Step)) := do
  let latest : Int := o.steps.length
  o.run .begin "begin the schema check"
  o.run .look "read the schema"
  let (hasVersion, version) ← o.readVersion tx
  if latest < version ∨ version < 0 then
    .error (.unavailable "check the schema version"
      (s!"the database has schema {version}, this server {latest}"))
  else if version = latest then .ok none
  else do
    let tx ← o.executeAll creates version.toNat tx (o.steps.drop version.toNat)
    o.run .record "record the schema version"
    let tx ← record hasVersion latest tx
    o.run .commit "commit the migration"
    .ok (some tx)

/-- `migrate_with`: a transaction that is not committed leaves the database as it was. -/
def migrateWith (o : Opening Step) (db : Schema Step) : Except Refusal Unit × Schema Step :=
  match o.transact creates db with
  | .error e => (.error e, db)
  | .ok none => (.ok (), db)
  | .ok (some tx) => (.ok (), tx)

end Opening

/-! ## What openings make -/

/-- The first of all steps makes the table of the version, and no other does. -/
def Grown (creates : Step → Bool) : List Step → Prop
  | [] => True
  | first :: rest => creates first = true ∧ ∀ step ∈ rest, creates step = false

/-- A database that has had the first `n` of all steps. -/
def Schema.upTo (all : List Step) (n : Nat) : Schema Step :=
  if n = 0 then .empty else ⟨some [(n : Int)], all.take n⟩

namespace Opening

variable {creates : Step → Bool} {o : Opening Step} {all : List Step} {n : Nat}

theorem run_whole (h : ∀ point, o.fails point = none) (point : Point) (action : String) :
    o.run point action = .ok () := by
  unfold run
  rw [h]

/-- Steps that make no table. -/
theorem executeAll_rest {steps : List Step} (hsteps : ∀ step ∈ steps, creates step = false)
    (i : Nat) (tx : Schema Step) :
    ((∃ e, o.executeAll creates i tx steps = .error e) ∨
      o.executeAll creates i tx steps = .ok ⟨tx.rows, tx.applied ++ steps⟩) ∧
    ((∀ point, o.fails point = none) →
      o.executeAll creates i tx steps = .ok ⟨tx.rows, tx.applied ++ steps⟩) := by
  induction steps generalizing i tx with
  | nil =>
    have h : o.executeAll creates i tx [] = .ok ⟨tx.rows, tx.applied ++ []⟩ := by
      rw [List.append_nil]
      rfl
    exact ⟨.inr h, fun _ => h⟩
  | cons step steps ih =>
    obtain ⟨hstep, hrest⟩ := List.forall_mem_cons.mp hsteps
    have hexecute : execute creates tx step = .ok ⟨tx.rows, tx.applied ++ [step]⟩ := by
      unfold execute
      rw [hstep]
      rfl
    obtain ⟨hany, hwhole⟩ := ih hrest (i + 1) ⟨tx.rows, tx.applied ++ [step]⟩
    simp only [List.append_assoc, List.singleton_append] at hany hwhole
    unfold executeAll
    constructor
    · cases hrun : o.run (.step i) "migrate the schema" with
      | error e => exact .inl ⟨e, rfl⟩
      | ok u =>
        simp only [hexecute]
        exact hany
    · intro h
      rw [run_whole h]
      simp only [hexecute]
      exact hwhole h

/-- The steps that a database at some version has not had. -/
theorem executeAll_upTo (hgrown : Grown creates all) (hsteps : o.steps <+: all)
    (hn : n < o.steps.length) :
    let ran : Schema Step := ⟨some (if n = 0 then [] else [(n : Int)]), o.steps⟩
    ((∃ e, o.executeAll creates n (.upTo all n) (o.steps.drop n) = .error e) ∨
      o.executeAll creates n (.upTo all n) (o.steps.drop n) = .ok ran) ∧
    ((∀ point, o.fails point = none) →
      o.executeAll creates n (.upTo all n) (o.steps.drop n) = .ok ran) := by
  obtain ⟨later, rfl⟩ := hsteps
  cases hall : o.steps with
  | nil =>
    rw [hall] at hn
    cases hn
  | cons first rest =>
    rw [hall] at hn hgrown
    obtain ⟨hfirst, hothers⟩ := hgrown
    have hrest : ∀ step ∈ rest, creates step = false := fun step hstep =>
      hothers step (List.mem_append_left _ hstep)
    intro ran
    cases n with
    | zero =>
      have hexecute : execute creates (.upTo (first :: rest ++ later) 0) first =
          .ok ⟨some [], [first]⟩ := by
        unfold execute
        rw [hfirst]
        rfl
      obtain ⟨hany, hwhole⟩ := executeAll_rest (o := o) hrest 1 ⟨some [], [first]⟩
      unfold executeAll
      simp only [List.drop_zero]
      constructor
      · cases hrun : o.run (.step 0) "migrate the schema" with
        | error e => exact .inl ⟨e, rfl⟩
        | ok u =>
          simp only [hexecute]
          exact hany
      · intro h
        rw [run_whole h]
        simp only [hexecute]
        exact hwhole h
    | succ n =>
      have hdrop : ∀ step ∈ (first :: rest).drop (n + 1), creates step = false :=
        fun step hstep => hrest step (List.mem_of_mem_drop hstep)
      have htake : ((first :: rest) ++ later).take (n + 1) ++ (first :: rest).drop (n + 1) =
          first :: rest := by
        rw [List.take_append_of_le_length (by omega), List.take_append_drop]
      have h := executeAll_rest (o := o) hdrop (n + 1)
        (.upTo (first :: rest ++ later) (n + 1))
      simp only [Schema.upTo, Nat.succ_ne_zero, if_false, htake] at h ⊢
      exact h

/-- A version that is there is read. -/
theorem readVersion_upTo (n : Nat) :
    ((∃ e, o.readVersion (.upTo all n) = .error e) ∨
      o.readVersion (.upTo all n) = .ok (decide (n ≠ 0), (n : Int))) ∧
    ((∀ point, o.fails point = none) →
      o.readVersion (.upTo all n) = .ok (decide (n ≠ 0), (n : Int))) := by
  cases n with
  | zero => exact ⟨.inr rfl, fun _ => rfl⟩
  | succ n =>
    have hread : o.readVersion (.upTo all (n + 1)) =
        match o.run .version "read the schema version" with
        | .error e => .error e
        | .ok () => .ok (true, ((n + 1 : Nat) : Int)) := rfl
    rw [hread]
    constructor
    · cases o.run .version "read the schema version" with
      | error e => exact .inl ⟨e, rfl⟩
      | ok u => exact .inr (by simp)
    · intro h
      rw [run_whole h]
      simp

/-- The row is written as the version that the steps lead to. -/
theorem record_upTo (hsteps : o.steps <+: all) (hn : n < o.steps.length) :
    record (decide (n ≠ 0)) (o.steps.length : Int)
        ⟨some (if n = 0 then [] else [(n : Int)]), o.steps⟩ =
      .ok (.upTo all o.steps.length) := by
  have htake : all.take o.steps.length = o.steps := (List.prefix_iff_eq_take.mp hsteps).symm
  have hpos : o.steps.length ≠ 0 := by omega
  unfold record Schema.upTo
  rw [if_neg hpos, htake]
  by_cases hzero : n = 0
  · simp [hzero]
  · simp [hzero]

/-- **What an opening can do**: fail, find nothing to do, or bring the database to its own
version. -/
theorem transact_upTo (hgrown : Grown creates all) (hsteps : o.steps <+: all) :
    ((∃ e, o.transact creates (.upTo all n) = .error e) ∨
      n = o.steps.length ∧ o.transact creates (.upTo all n) = .ok none ∨
      n < o.steps.length ∧
        o.transact creates (.upTo all n) = .ok (some (.upTo all o.steps.length))) := by
  unfold transact
  cases hbegin : o.run .begin "begin the schema check" with
  | error e => exact .inl ⟨e, rfl⟩
  | ok u =>
  cases hlook : o.run .look "read the schema" with
  | error e => exact .inl ⟨e, rfl⟩
  | ok u =>
  rcases (@readVersion_upTo _ o all n).1 with ⟨e, hread⟩ | hread
  · exact .inl ⟨e, by rw [hread]; rfl⟩
  rw [hread]
  simp only [bind, Except.bind]
  by_cases hlater : (o.steps.length : Int) < n ∨ (n : Int) < 0
  · exact .inl ⟨_, if_pos hlater⟩
  rw [if_neg hlater]
  by_cases hsame : (n : Int) = o.steps.length
  · rw [if_pos hsame]
    exact .inr (.inl ⟨by omega, rfl⟩)
  rw [if_neg hsame, Int.toNat_natCast]
  have hn : n < o.steps.length := by omega
  rcases (executeAll_upTo hgrown hsteps hn).1 with ⟨e, hran⟩ | hran
  · exact .inl ⟨e, by rw [hran]⟩
  rw [hran]
  simp only
  cases hrecord : o.run .record "record the schema version" with
  | error e => exact .inl ⟨e, rfl⟩
  | ok u =>
  simp only [record_upTo hsteps hn]
  cases hcommit : o.run .commit "commit the migration" with
  | error e => exact .inl ⟨e, rfl⟩
  | ok u => exact .inr (.inr ⟨hn, rfl⟩)

/-- Nothing going wrong, an opening fails only where the database is of a later version. -/
theorem transact_whole (hgrown : Grown creates all) (hsteps : o.steps <+: all)
    (hwhole : ∀ point, o.fails point = none) (hn : n ≤ o.steps.length) :
    ∃ tx, o.transact creates (.upTo all n) = .ok tx := by
  unfold transact
  simp only [run_whole hwhole, (readVersion_upTo n).2 hwhole, bind, Except.bind]
  rw [if_neg (by omega)]
  by_cases hsame : (n : Int) = o.steps.length
  · rw [if_pos hsame]
    exact ⟨none, rfl⟩
  · have hlt : n < o.steps.length := by omega
    rw [if_neg hsame, Int.toNat_natCast, (executeAll_upTo hgrown hsteps hlt).2 hwhole]
    simp only [record_upTo hsteps hlt]
    exact ⟨_, rfl⟩

/-- **One opening**: it fails and changes nothing, or the database comes to the opening
server's version, which is none before its own. -/
theorem migrateWith_upTo (hgrown : Grown creates all) (hsteps : o.steps <+: all) :
    (∃ e, o.migrateWith creates (.upTo all n) = (.error e, .upTo all n)) ∨
      n ≤ o.steps.length ∧
        o.migrateWith creates (.upTo all n) = (.ok (), .upTo all o.steps.length) := by
  unfold migrateWith
  rcases transact_upTo (n := n) hgrown hsteps with ⟨e, h⟩ | ⟨rfl, h⟩ | ⟨hlt, h⟩
  · exact .inl ⟨e, by rw [h]⟩
  · exact .inr ⟨Nat.le_refl _, by rw [h]⟩
  · exact .inr ⟨hlt.le, by rw [h]⟩

theorem migrateWith_whole (hgrown : Grown creates all) (hsteps : o.steps <+: all)
    (hwhole : ∀ point, o.fails point = none) (hn : n ≤ o.steps.length) :
    o.migrateWith creates (.upTo all n) = (.ok (), .upTo all o.steps.length) := by
  rcases migrateWith_upTo (n := n) hgrown hsteps with ⟨e, h⟩ | ⟨-, h⟩
  · obtain ⟨tx, htx⟩ := transact_whole hgrown hsteps hwhole hn
    unfold migrateWith at h
    rw [htx] at h
    cases tx <;> cases h
  · exact h

/-- An earlier server is refused. -/
theorem migrateWith_older (hgrown : Grown creates all) (hsteps : o.steps <+: all)
    (hn : o.steps.length < n) :
    ∃ e, o.migrateWith creates (.upTo all n) = (.error e, .upTo all n) := by
  rcases migrateWith_upTo (n := n) hgrown hsteps with h | ⟨hle, -⟩
  · exact h
  · omega

end Opening

/-! ## Histories -/

namespace Schema

variable {creates : Step → Bool} {all : List Step}

theorem version_upTo (all : List Step) (n : Nat) : (upTo all n).version = some (n : Int) := by
  cases n with
  | zero => rfl
  | succ n => rfl

theorem applied_upTo (all : List Step) (n : Nat) : (upTo all n).applied = all.take n := by
  cases n with
  | zero => rfl
  | succ n => rfl

/-- What a sequence of openings leaves of a new database. -/
def afterAll (creates : Step → Bool) (openings : List (Opening Step)) : Schema Step :=
  Runs.run (fun db o => (o.migrateWith creates db).2) empty openings

/-- It is one that has had the first so many steps. -/
theorem afterAll_upTo (hgrown : Grown creates all) {openings : List (Opening Step)}
    (h : ∀ o ∈ openings, o.steps <+: all) :
    ∃ n, n ≤ all.length ∧ afterAll creates openings = upTo all n := by
  refine Runs.invariant (fun db (o : Opening Step) => (o.migrateWith creates db).2)
    (P := fun _ o => o.steps <+: all) (I := fun db => ∃ n, n ≤ all.length ∧ db = upTo all n)
    ?_ ⟨0, Nat.zero_le _, rfl⟩ (Runs.along_of_forall _ h)
  rintro db o ⟨n, hn, rfl⟩ ho
  rcases Opening.migrateWith_upTo (n := n) hgrown ho with ⟨e, hfails⟩ | ⟨-, hopens⟩
  · exact ⟨n, hn, by rw [hfails]⟩
  · exact ⟨o.steps.length, ho.length_le, by rw [hopens]⟩

/-- **Migration composes.** Whatever servers opened the database before, with whatever
going wrong: it has had the first steps there are, each once and in order, and says how
many. The next opening, if it fails, leaves it as it was; if it succeeds, the database has
had that server's steps, and those it had had before are the first of them; and a server
that knows fewer steps fails. To open with the first steps of a server, and then with all
of them, is to open with all of them. -/
theorem migrate_run (hgrown : Grown creates all) (openings : List (Opening Step))
    (h : ∀ o ∈ openings, o.steps <+: all) :
    let db := afterAll creates openings
    (db.applied <+: all ∧ db.version = some (db.applied.length : Int)) ∧
      ∀ o : Opening Step, o.steps <+: all →
        (∀ e db', o.migrateWith creates db = (.error e, db') → db' = db) ∧
        (∀ db', o.migrateWith creates db = (.ok (), db') →
          db'.applied = o.steps ∧ db.applied <+: db'.applied) ∧
        (o.steps.length < db.applied.length → ∃ e, o.migrateWith creates db = (.error e, db)) ∧
        ((∀ point, o.fails point = none) →
          (db.applied.length ≤ o.steps.length → (o.migrateWith creates db).1 = .ok ()) ∧
          ∀ fewer : Opening Step, fewer.steps <+: o.steps →
            o.migrateWith creates (fewer.migrateWith creates db).2 =
              o.migrateWith creates db) := by
  obtain ⟨n, hn, hdb⟩ := afterAll_upTo hgrown h
  intro db
  have hdb' : db = upTo all n := hdb
  have happlied : db.applied = all.take n := by rw [hdb', applied_upTo]
  have hlength : db.applied.length = n := by
    rw [happlied, List.length_take]
    omega
  refine ⟨⟨?_, ?_⟩, fun o ho => ?_⟩
  · rw [happlied]
    exact List.take_prefix n all
  · rw [hlength, hdb', version_upTo]
  rw [hlength, hdb']
  have htake : all.take o.steps.length = o.steps := (List.prefix_iff_eq_take.mp ho).symm
  have hopening := Opening.migrateWith_upTo (n := n) hgrown ho
  refine ⟨fun e db' hfails => ?_, fun db' hopens => ?_, Opening.migrateWith_older hgrown ho,
    fun hwhole => ⟨fun hle => ?_, fun fewer hfewer => ?_⟩⟩
  · rcases hopening with ⟨e', hunchanged⟩ | ⟨-, hopens⟩
    · rw [hunchanged] at hfails
      exact (congrArg Prod.snd hfails).symm
    · rw [hopens] at hfails
      cases congrArg Prod.fst hfails
  · rcases hopening with ⟨e', hunchanged⟩ | ⟨hle, hopens'⟩
    · rw [hunchanged] at hopens
      cases congrArg Prod.fst hopens
    · rw [hopens'] at hopens
      have heq : upTo all o.steps.length = db' := congrArg Prod.snd hopens
      rw [← heq, applied_upTo, applied_upTo, htake]
      refine ⟨rfl, ?_⟩
      have hprefix := List.take_prefix_take_left (l := all) hle
      rwa [htake] at hprefix
  · rw [Opening.migrateWith_whole hgrown ho hwhole hle]
  · -- the first opening leaves the database as it was, or at a version of its own steps
    rcases Opening.migrateWith_upTo (n := n) hgrown (hfewer.trans ho) with
      ⟨e, hunchanged⟩ | ⟨hle, hopens⟩
    · rw [hunchanged]
    · have hle' := hfewer.length_le
      rw [hopens, Opening.migrateWith_whole hgrown ho hwhole hle',
        Opening.migrateWith_whole hgrown ho hwhole (hle.trans hle')]

end Schema

end

/-! ## The schema's own steps -/

/-- The steps there are (`schema.rs`). -/
inductive SchemaStep where
  | v1
  | v2
  | v3
  deriving DecidableEq, Repr

namespace SchemaStep

def STEPS : List SchemaStep := [v1, v2, v3]

/-- The step has a `CREATE TABLE schema_version`. -/
def creates : SchemaStep → Bool
  | v1 => true
  | v2 | v3 => false

theorem grown_STEPS : Grown creates STEPS := ⟨rfl, by decide⟩

/-- A server of version 2 opens a new database, one of version 3 loses its disk in the last
step, and opens it again. -/
theorem migrate_STEPS :
    let full : Opening SchemaStep :=
      ⟨STEPS, fun point => if point = .step 2 then some "disk I/O error" else none⟩
    let db := Schema.afterAll creates [.whole [v1, v2], full]
    db.version = some (db.applied.length : Int) ∧
      (Opening.whole STEPS).migrateWith creates db = (.ok (), ⟨some [3], STEPS⟩) :=
  ⟨(Schema.migrate_run grown_STEPS _ (by decide)).1.2, by decide⟩

end SchemaStep

end Passalong
