import Passalong.Steps
import Passalong.Ledger

/-!
# Refusals (`workspace.rs`, `Engine::write` and `Engine::read`; `ledger/sqlite.rs`)

A request that is refused leaves the workspace as it was (`refused_run`). The rules edit
the record in place and may have taken a step on the shelf before they refuse, so the
argument is in two parts.

1. The record. What a rule edited is dropped by the transaction that ran it: the engine
   keeps the record it had, and in the database nothing is written (`transact_api`).
2. The shelf. No rule but a put has touched the shelf when it refuses
   (`Op.refused_shelf`). A put has, when it read the content and found it wrong: it
   leaves the staging place it was writing to empty (`put_refused`).
-/

namespace Passalong

open Lib

/-! ## What a refused put leaves -/

/-- The refusals that come from reading a content stream. -/
def ApiError.ofContent : ApiError → Bool
  | .contentMismatch | .invalidRequest _ => true
  | _ => false

/-- Reading a content stream is refused for its length, or for a failed read. -/
theorem pump_error {announced total : Nat} {content : Source} {e : ApiError}
    (h : (pump announced content total).1 = .error e) : e.ofContent = true := by
  induction content generalizing total with
  | nil => cases h
  | cons read rest ih =>
    cases read with
    | interrupted => exact ih h
    | failed =>
      cases h
      rfl
    | piece bytes =>
      unfold pump at h
      by_cases hend : bytes = []
      · rw [if_pos hend] at h
        cases h
      · rw [if_neg hend] at h
        by_cases hlong : announced < total + bytes.length
        · rw [if_pos hlong] at h
          cases h
          rfl
        · rw [if_neg hlong] at h
          exact ih h

section
variable [Crates]

/-- A write that is refused found no staging place, or has emptied it. -/
theorem MemoryShelf.write_refused {s : MemoryShelf} {u : UploadId} {content : Source}
    {announced : Nat} {hashed : Bool} {e : ApiError}
    (h : (s.write u content announced hashed).1 = .error e) :
    (e = .notFound ∧ (s.write u content announced hashed).2 = s) ∨
    (e.ofContent = true ∧ (s.write u content announced hashed).2 =
      { s with staging := s.staging.insert u ⟨[], none⟩ }) := by
  unfold write at h ⊢
  by_cases hthere : s.staging.contains u = true
  · rw [if_pos hthere] at h ⊢
    rcases hpump : pump announced content 0 with ⟨written, sunk⟩
    rw [hpump] at h
    have hwritten : written = .error e := h
    refine .inr ⟨pump_error (by rw [hpump]; exact hwritten), ?_⟩
    rw [hwritten]
  · rw [if_neg hthere] at h ⊢
    cases h
    exact .inl ⟨rfl, rfl⟩

/-- **A put that is refused** has done nothing, or has emptied its staging place because
of what it was sent. -/
theorem Rules.put_refused {r r' : Rules} {caller : Caller} {u : UploadId} {content : Source}
    {e : ApiError} (h : r.putUploadContent caller u content = (.error e, r')) :
    (e = .notFound ∧ r'.shelf = r.shelf) ∨
    (e.ofContent = true ∧
      r'.shelf = { r.shelf with staging := r.shelf.staging.insert u ⟨[], none⟩ }) := by
  unfold putUploadContent at h
  split at h
  · cases h
  · split at h
    · cases h
      exact .inl ⟨rfl, rfl⟩
    · rename_i ticket _
      -- both ways of writing are one write, with the digest or without
      have hwrite : ∃ hashed,
          ((r.shelf.write u content ticket.request.size hashed).1.map fun _ => (),
            { r with shelf := (r.shelf.write u content ticket.request.size hashed).2 }) =
              ((.error e, r') : Except ApiError Unit × Rules) := by
        cases hchecks : r.checksContent ticket.request with
        | true => exact ⟨true, by simpa [hchecks, MemoryShelf.stageWriteHashed] using h⟩
        | false => exact ⟨false, by simpa [hchecks, MemoryShelf.stageWrite] using h⟩
      obtain ⟨hashed, hwrite⟩ := hwrite
      obtain ⟨hanswer, hleft⟩ := Prod.mk.inj hwrite
      have hrefused : (r.shelf.write u content ticket.request.size hashed).1 = .error e := by
        cases hw : (r.shelf.write u content ticket.request.size hashed).1 with
        | ok n =>
          rw [hw] at hanswer
          cases hanswer
        | error e' =>
          rw [hw] at hanswer
          cases hanswer
          rfl
      rw [← hleft]
      exact MemoryShelf.write_refused hrefused

/-! ## What any refusal leaves -/

/-- The staging place a refusal has emptied, if there is one. -/
def Op.emptied (e : ApiError) : Op → Option UploadId
  | .putUploadContent _ upload _ => if e.ofContent then some upload else none
  | _ => none

/-- A workspace that is as it was, but for one staging place that is empty now. -/
structure World.SameBut (w : World) (emptied : Option UploadId) (w' : World) : Prop where
  record : w'.record = w.record
  items : w'.shelf.items = w.shelf.items
  staging : ∀ v : UploadId, w'.shelf.staging[v]? =
    if emptied = some v then some ⟨[], none⟩ else w.shelf.staging[v]?
  pending : w'.pending = w.pending

omit [Crates] in
theorem World.SameBut.refl (w : World) : w.SameBut none w where
  record := rfl
  items := rfl
  staging := fun _ => rfl
  pending := rfl

/-- The shelf a rule leaves when it refuses. -/
theorem Op.refused_sameBut {op : Op} {w : World} {limits : Limits} {call : Call}
    {r' : Rules} {e : ApiError} (h : op.rule (w.rules limits call) = (.error e, r')) :
    w.SameBut (op.emptied e) { w with shelf := r'.shelf } := by
  by_cases hput : ∃ caller u content, op = .putUploadContent caller u content
  · obtain ⟨caller, u, content, rfl⟩ := hput
    obtain ⟨rfl, hshelf⟩ | ⟨hcontent, hshelf⟩ := Rules.put_refused (answering_error h)
    · rw [hshelf]
      exact World.SameBut.refl w
    · have hemptied : (Op.putUploadContent caller u content).emptied e = some u := by
        simp only [Op.emptied, hcontent, if_true]
      rw [hshelf, hemptied]
      refine ⟨rfl, rfl, fun v => ?_, rfl⟩
      show (w.shelf.staging.insert u ⟨[], none⟩)[v]? = _
      rw [Map.get_insert]
      by_cases e : u = v
      · rw [if_pos e, if_pos (congrArg some e)]
      · rw [if_neg e, if_neg fun h => e (Option.some.inj h)]
  · have hnone : op.emptied e = none := by
      cases op with
      | putUploadContent caller u content => exact absurd ⟨caller, u, content, rfl⟩ hput
      | _ => rfl
    have hshelf : r'.shelf = w.shelf :=
      Op.refused_shelf (fun caller u content hop => hput ⟨caller, u, content, hop⟩) h
    rw [hnone, hshelf]
    exact World.SameBut.refl w

/-- Whether a transaction or a read ran it, the record is the one that was stored. -/
theorem Engine.run_error {w : World} {limits : Limits} {call : Call} {op : Op} {e : ApiError}
    (h : (Engine.run w limits call op).1 = .error e) :
    ∃ r', op.rule (w.rules limits call) = (.error e, r') ∧
      (Engine.run w limits call op).2 = { w with shelf := r'.shelf } := by
  unfold Engine.run Engine.read Engine.write at h ⊢
  rcases hout : op.rule (w.rules limits call) with ⟨answer, r'⟩
  rw [hout] at h
  refine ⟨r', ?_, ?_⟩
  · cases answer with
    | ok a => split at h <;> cases h
    | error e' => split at h <;> (cases h; rfl)
  · cases answer with
    | ok a => split at h <;> cases h
    | error e' => split <;> rfl

/-! ## Every operation of the engine -/

/-- An operation of the engine: one of those that may change something, or one that only
reads, as what it makes of the record and the shelf. -/
inductive Request (α : Type) where
  | change (op : Op)
  | read (rule : Rules → Except ApiError α)

namespace Request

variable {α : Type}

/-- What the engine does, and answers. -/
def run (w : World) (limits : Limits) (call : Call) :
    Request α → Except ApiError (Answer ⊕ α) × World
  | .change op => ((Engine.run w limits call op).1.map .inl, (Engine.run w limits call op).2)
  | .read rule =>
    let out := Engine.read w limits call fun r => (rule r, r)
    (out.1.map .inr, out.2)

def emptied (e : ApiError) : Request α → Option UploadId
  | .change op => op.emptied e
  | .read _ => none

/-- What the engine has a ledger run as one transaction, if it does. -/
def ledgerRule (w : World) (limits : Limits) (call : Call) : Request α → Option (LedgerRule Answer)
  | .change op =>
    if op.readsOnly then none
    else some fun rec =>
      let out := op.rule ({ w with record := rec }.rules limits call)
      (out.1, out.2.record)
  | .read _ => none

end Request

omit [Crates] in
/-- **A rule that refuses writes nothing**: the database is the one it was. -/
theorem Database.transact_api {T : Type} {db : Database} {ws : WorkspaceId}
    {rule : LedgerRule T} {rec rec' : WorkspaceRecord} {e : ApiError}
    (hread : db.read ws = .ok rec) (hrule : rule rec = (.error e, rec')) :
    db.transact ws rule = (.error (.api e), db) := by
  unfold transact
  rw [hread]
  simp only [hrule]

/-- **A refusal changes nothing.** In every reachable state, an operation that is refused
leaves the record, the items and the clean-ups as they were, and every staging place, but
for that of a put refused for its content, which is empty then; and where it ran in a
transaction on a database that holds this record, the database is the one it was. -/
theorem World.refused_run {α : Type} (limits : Limits) (es : List Event) (call : Call)
    (request : Request α) (e : ApiError)
    (h : (request.run (World.initial.run limits es) limits call).1 = .error e) :
    (World.initial.run limits es).SameBut (request.emptied e)
      (request.run (World.initial.run limits es) limits call).2 ∧
    ∀ (db : Database) (ws : WorkspaceId) (rule : LedgerRule Answer),
      db.read ws = .ok (World.initial.run limits es).record →
      request.ledgerRule (World.initial.run limits es) limits call = some rule →
      db.transact ws rule = (.error (.api e), db) := by
  generalize World.initial.run limits es = w at h ⊢
  cases request with
  | read rule => exact ⟨World.SameBut.refl w, fun _ _ _ _ hrule => by cases hrule⟩
  | change op =>
    have hrefused : (Engine.run w limits call op).1 = .error e := by
      cases hanswer : (Engine.run w limits call op).1 with
      | ok a =>
        have h' : (Engine.run w limits call op).1.map (Sum.inl (β := α)) = .error e := h
        rw [hanswer] at h'
        cases h'
      | error e' =>
        have h' : (Engine.run w limits call op).1.map (Sum.inl (β := α)) = .error e := h
        rw [hanswer] at h'
        cases h'
        rfl
    obtain ⟨r', hrule, hleft⟩ := Engine.run_error hrefused
    constructor
    · show w.SameBut (op.emptied e) (Engine.run w limits call op).2
      rw [hleft]
      exact Op.refused_sameBut hrule
    · intro db ws rule hread hsome
      by_cases hreads : op.readsOnly = true
      · simp only [Request.ledgerRule, if_pos hreads] at hsome
        cases hsome
      · simp only [Request.ledgerRule, if_neg hreads] at hsome
        obtain rfl := Option.some.inj hsome
        have hrec : ((op.rule (w.rules limits call)).1, (op.rule (w.rules limits call)).2.record) =
            (.error e, r'.record) := by
          rw [hrule]
        exact Database.transact_api hread hrec

end

namespace Sample

/-- A note is announced, and sent once. -/
def announced : List Event :=
  [.request (call 0 [1]) (.beginUpload laptop (request 2 none)),
    .request (call 0 []) (.putUploadContent laptop (upload 1) [.piece [1, 2]])]

/-- Three bytes where two were announced. -/
def tooLong : Request Unit :=
  .change (.putUploadContent laptop (upload 1) [.piece [1, 2, 3]])

end Sample

/-- Content that is too long empties what was sent before. -/
theorem World.refused_tooLong :
    (@World.run Sample.crates Sample.limits .initial Sample.announced).SameBut
      (some (Sample.upload 1))
      (@Request.run Sample.crates Unit (@World.run Sample.crates Sample.limits .initial
        Sample.announced) Sample.limits (Sample.call 1 []) Sample.tooLong).2 :=
  (@World.refused_run Sample.crates Unit Sample.limits Sample.announced (Sample.call 1 [])
    Sample.tooLong .contentMismatch (by decide +kernel)).1

end Passalong
