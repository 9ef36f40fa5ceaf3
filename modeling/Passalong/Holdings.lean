import Passalong.Cleanups
import Passalong.Holder

/-!
# What is served, over whole runs (`rewrite.rs`, `workspace.rs`)

The items of the two partitions and the key they are under are what the readers of a workspace
are served (`Holdings`).

- While a rewrite is open its new items gather in a generation of their own, and nothing that
  anyone is served changes: no deletion, no upload and no clean-up reaches the partitions,
  whoever sends what and whatever is cut (`Unseen`). Then, in one step, the partition is the
  staged generation under the new key, or it is again what it was when the rewrite was opened
  (`Ends`). `World.rewrite_run` says so of every run from every state with an open rewrite.
- An item that is served is served from then on, in the one partition or the other, with the
  bytes and the envelope it was published with, until it is deleted itself or the holder of a
  rewrite commits (`World.stays_run`).
-/

namespace Passalong

open Lib

/-- The same rewrite, whoever holds it by now. -/
structure Session.Same (s s' : Session) : Prop where
  kind : s'.kind = s.kind
  prior : s'.prior = s.prior
  next : s'.next = s.next
  stagedGeneration : s'.stagedGeneration = s.stagedGeneration

theorem Session.Same.refl (s : Session) : s.Same s := ⟨rfl, rfl, rfl, rfl⟩

theorem Session.Same.trans {s s' s'' : Session} (h : s.Same s') (h' : s'.Same s'') : s.Same s'' :=
  ⟨h'.kind.trans h.kind, h'.prior.trans h.prior, h'.next.trans h.next,
    h'.stagedGeneration.trans h.stagedGeneration⟩

/-- What the readers of a workspace are served: the items of its partitions, and the key it
says they are under. -/
structure Holdings where
  keyId : Option KeyId
  current : Map ItemId Item
  plain : Map ItemId Item

def World.holdings (w : World) : Holdings where
  keyId := w.record.keyId
  current := w.shelf.generation w.record.generation
  plain := (w.record.plain.map w.shelf.generation).getD ∅

/-! ## What an operation leaves alone while a rewrite is open -/

section
variable [Crates] {r : Rules} {op : Op} {shelf : MemoryShelf} {session : Session}

omit [Crates] in
/-- Nothing is deleted. -/
theorem Rules.deleteItem_rewriting (hstate : r.record.state = .rewriting session) (caller : Caller)
    (partition : Partition) (id : ItemId) (expected : Option KeyId) :
    (r.deleteItem caller partition id expected).2 = r := by
  unfold deleteItem check
  cases caller.mustWrite with
  | error e => rfl
  | ok _ =>
    dsimp only
    rw [WorkspaceRecord.checkWritable, hstate]

/-- And nothing is published but to the staged generation. -/
theorem ShelfStep.keeps_others (h : ShelfStep r op shelf)
    (hstate : r.record.state = .rewriting session)
    (hdelete : ∀ caller partition id expected, op ≠ .deleteItem caller partition id expected)
    {g : Nat} (hg : g ≠ session.stagedGeneration) :
    shelf.generation g = r.shelf.generation g := by
  cases h with
  | same => rfl
  | removed _ => exact absurd rfl (hdelete _ _ _ _)
  | fresh _ => rw [MemoryShelf.stageCreate_generation]
  | again _ => rw [MemoryShelf.stageCreate_generation]
  | probed _ => rw [MemoryShelf.stageRemove_generation, MemoryShelf.stageCreate_generation]
  | wrote => rw [MemoryShelf.write_generation]
  | published _ htarget _ _ _ _ hitems =>
    rw [hitems, if_neg]
    rw [(htarget.of_rewriting hstate).2]
    exact fun heq => hg heq.symm

/-- What is staged stays. -/
theorem ShelfStep.grows_staged (h : ShelfStep r op shelf) (hl : r.record.Layout)
    (hstate : r.record.state = .rewriting session) {id : ItemId} {item : Item}
    (hitem : (r.shelf.generation session.stagedGeneration)[id]? = some item) :
    (shelf.generation session.stagedGeneration)[id]? = some item := by
  have hstaged := WorkspaceRecord.stagedGeneration_of_rewriting hstate
  rcases h.keeps_item hitem with hkept | ⟨-, caller, partition, expected, -, hg⟩
  · exact hkept
  · -- a deletion is from the current or the plain partition
    cases partition with
    | current => exact absurd (hstaged.trans hg.symm) hl.staged_ne
    | plain => exact absurd hstaged (hl.plain_ne_staged _ hg)

end

namespace World

/-- From `w` to `w'` a rewrite is open, and nothing is seen of it. -/
structure Unseen (session : Session) (w w' : World) : Prop where
  isOpen : ∃ session', session.Same session' ∧ w'.record.state = .rewriting session'
  holdings : w'.holdings = w.holdings
  /-- What is staged stays. -/
  staged : ∀ (id : ItemId) (item : Item),
    (w.shelf.generation session.stagedGeneration)[id]? = some item →
      (w'.shelf.generation session.stagedGeneration)[id]? = some item

variable {session : Session} {w w' w'' : World} {limits : Limits} {e : Event}

theorem Unseen.refl (hstate : w.record.state = .rewriting session) : Unseen session w w :=
  ⟨⟨session, .refl session, hstate⟩, rfl, fun _ _ h => h⟩

theorem Unseen.trans {session' : Session} (h : Unseen session w w') (hsame : session.Same session')
    (h' : Unseen session' w' w'') : Unseen session w w'' := by
  obtain ⟨session'', hsame', hstate⟩ := h'.isOpen
  refine ⟨⟨session'', hsame.trans hsame', hstate⟩, h'.holdings.trans h.holdings,
    fun id item hitem => ?_⟩
  have hstaged := h'.staged id item
  rw [hsame.stagedGeneration] at hstaged
  exact hstaged (h.staged id item hitem)

section
variable [Crates]

/-- An event ends a rewrite: the partition and the key are the new ones, or both are what they
were. -/
inductive Ends (limits : Limits) (session : Session) (w : World) : Event → Prop
  | switched {session' : Session} {call : Call} {caller : Caller} (hsame : session.Same session')
      (hstate : w.record.state = .rewriting session') (hholder : session'.holder = caller.key)
      (hcount : (w.shelf.ids session.stagedGeneration).length =
        (w.shelf.ids w.record.generation).length)
      (hholdings : (w.exec limits (.request call
          (.commitRewrite caller session.next.keyId))).holdings =
        ⟨some session.next.keyId, w.shelf.generation session.stagedGeneration,
          w.holdings.plain⟩) :
      Ends limits session w (.request call (.commitRewrite caller session.next.keyId))
  | restored {session' : Session} {call : Call} {op : Op} (hsame : session.Same session')
      (hstate : w.record.state = .rewriting session')
      (haborts : op.Aborts (w.rules limits call) session')
      (hholdings : (w.exec limits (.request call op)).holdings = w.holdings) :
      Ends limits session w (.request call op)

theorem Ends.same {session' : Session} (h : Ends limits session' w e)
    (hsame : session.Same session') : Ends limits session w e := by
  cases h with
  | switched hsame' hstate hholder hcount hholdings =>
    rw [hsame.stagedGeneration] at hcount hholdings
    rw [hsame.next] at hholdings ⊢
    exact .switched (hsame.trans hsame') hstate hholder hcount hholdings
  | restored hsame' hstate haborts hholdings =>
    exact .restored (hsame.trans hsame') hstate haborts hholdings

/-- An item is served, in one partition or the other. -/
def Serves (w : World) (id : ItemId) (item : Item) : Prop :=
  w.holdings.current[id]? = some item ∨ w.holdings.plain[id]? = some item

/-- An event takes an item from what is served: it is a deletion that takes it from the shelf,
or its holder's commit of a rewrite. -/
def TakesItem (limits : Limits) (w : World) (id : ItemId) (e : Event) : Prop :=
  (∃ call caller partition expected g,
    e.Runs call (.deleteItem caller partition id expected) ∧
      w.record.generationOf partition = some g ∧
      (∃ item, (w.shelf.generation g)[id]? = some item) ∧
      ((w.exec limits e).shelf.generation g)[id]? = none) ∨
  ∃ call caller session, e = .request call (.commitRewrite caller session.next.keyId) ∧
    w.record.state = .rewriting session ∧ session.holder = caller.key

/-! ## One event -/

omit [Crates] in
/-- Where the pointers and their generations stay, so does what is served. -/
theorem holdings_congr (hkey : w'.record.keyId = w.record.keyId)
    (hcurrent : w'.record.generation = w.record.generation)
    (hplain : w'.record.plain = w.record.plain)
    (hitems : ∀ g, g = w.record.generation ∨ w.record.plain = some g →
      w'.shelf.generation g = w.shelf.generation g) : w'.holdings = w.holdings := by
  unfold holdings
  rw [hkey, hcurrent, hplain, hitems _ (.inl rfl)]
  congr 1
  cases hp : w.record.plain with
  | none => rfl
  | some p => exact hitems p (.inr hp)

omit [Crates] in
/-- The partitions are not the staged generation. -/
theorem Laid.partition_ne (hl : w.Laid) (hstate : w.record.state = .rewriting session) {g : Nat}
    (hg : g = w.record.generation ∨ w.record.plain = some g) : g ≠ session.stagedGeneration := by
  have hstaged := WorkspaceRecord.stagedGeneration_of_rewriting hstate
  rintro rfl
  rcases hg with heq | hplain
  · exact hl.layout.staged_ne (hstaged.trans (congrArg some heq))
  · exact hl.layout.plain_ne_staged _ hplain hstaged

omit [Crates] in
/-- An event that edits no record, and adds to the staged generation only. -/
theorem Unseen.of_shelf {shelf : MemoryShelf} {pending : List Cleanup} (hl : w.Laid)
    (hstate : w.record.state = .rewriting session)
    (hothers : ∀ g ≠ session.stagedGeneration, g ∈ w.record.liveGenerations →
      shelf.generation g = w.shelf.generation g)
    (hstaged : ∀ (id : ItemId) (item : Item),
      (w.shelf.generation session.stagedGeneration)[id]? = some item →
        (shelf.generation session.stagedGeneration)[id]? = some item) :
    Unseen session w ⟨w.record, shelf, pending⟩ := by
  refine ⟨⟨session, .refl session, hstate⟩, holdings_congr rfl rfl rfl fun g hg => ?_, hstaged⟩
  refine hothers g (hl.partition_ne hstate hg) (WorkspaceRecord.mem_liveGenerations.mpr ?_)
  rcases hg with heq | hplain
  · exact .inl heq
  · exact .inr (.inl hplain)

/-- **A change of the table while a rewrite is open.** -/
theorem Unseen.change {call : Call} {op : Op} {a : Answer} {rec : WorkspaceRecord}
    {shelf : MemoryShelf} {after : List Cleanup} (hl : w.Laid)
    (hstate : w.record.state = .rewriting session)
    (hexec : w.exec limits (.request call op) = ⟨rec, shelf, w.pending ++ after⟩)
    (h : Change (w.rules limits call) op a rec shelf after) :
    Unseen session w ⟨rec, shelf, w.pending ++ after⟩ ∨
      Ends limits session w (.request call op) := by
  have hsettled : ∀ {sealed : Option Seal}, w.record.state ≠ .settled sealed := by
    intro sealed heq
    rw [hstate] at heq
    cases heq
  -- an operation that leaves the pointers alone, and is no deletion
  have hsame : w.record.SamePointers rec →
      (∀ caller partition id expected, op ≠ .deleteItem caller partition id expected) →
      Unseen session w ⟨rec, shelf, w.pending ++ after⟩ := by
    intro hpointers hdelete
    have hkey : rec.keyId = w.record.keyId := by
      rw [WorkspaceRecord.keyId, WorkspaceRecord.keyId, hpointers.seal?]
    refine ⟨⟨session, .refl session, hpointers.state.trans hstate⟩,
      holdings_congr hkey hpointers.generation hpointers.plain fun g hg => ?_,
      fun id item hitem => ?_⟩
    · exact h.shelfStep.keeps_others hstate hdelete (hl.partition_ne hstate hg)
    · exact h.shelfStep.grows_staged hl.layout hstate hitem
  cases h with
  | deleted hset _ _ _ => exact absurd hset hsettled
  | sealed hset _ _ _ => exact absurd hset hsettled
  | setAside hset _ => exact absurd hset hsettled
  | reheaded hset _ => exact absurd hset hsettled
  | opened hset _ _ _ _ _ => exact absurd hset hsettled
  | kept hdone => exact (hdone.not_rewriting hstate).elim
  | renewed hsession hrenews hwrite =>
    change w.record.state = _ at hsession
    rw [hstate] at hsession
    cases hsession
    refine .inl ⟨⟨_, ?_, rfl⟩, holdings_congr ?_ rfl rfl fun g _ => rfl,
      fun id item hitem => hitem⟩
    · exact ⟨rfl, rfl, rfl, rfl⟩
    rw [WorkspaceRecord.keyId_of_rewriting hstate, WorkspaceRecord.keyId_of_rewriting rfl]
  | switched hsession hwrite hheld hkey hcount =>
    change w.record.state = _ at hsession
    rw [hstate] at hsession
    cases hsession
    subst hkey
    refine .inr (.switched (.refl session) hstate (WorkspaceRecord.heldSession_ok hheld).2
      hcount ?_)
    rw [hexec]
    rfl
  | restored hsession haborts =>
    change w.record.state = _ at hsession
    rw [hstate] at hsession
    cases hsession
    refine .inr (.restored (.refl session) hstate haborts ?_)
    rw [hexec]
    refine holdings_congr ?_ rfl rfl fun g _ => rfl
    rw [WorkspaceRecord.keyId_of_rewriting hstate]
    exact WorkspaceRecord.keyId_of_settled rfl
  | _ => exact .inl (hsame ⟨rfl, rfl, rfl, rfl, rfl⟩ fun _ _ _ _ => Op.noConfusion)

/-- **One event while a rewrite is open.** -/
theorem Unseen.step (limits : Limits) (e : Event) (hl : w.Laid)
    (hstate : w.record.state = .rewriting session) :
    Unseen session w (w.exec limits e) ∨ Ends limits session w e := by
  have hwrite : ∀ u content announced hashed pending,
      Unseen session w ⟨w.record, (w.shelf.write u content announced hashed).2, pending⟩ := by
    intro u content announced hashed pending
    refine .of_shelf hl hstate (fun g _ _ => ?_) fun id item hitem => ?_
    · rw [MemoryShelf.write_generation]
    · rw [MemoryShelf.write_generation]
      exact hitem
  have hsame : ∀ pending, Unseen session w ⟨w.record, w.shelf, pending⟩ := fun pending =>
    .of_shelf hl hstate (fun _ _ _ => rfl) fun _ _ hitem => hitem
  cases e with
  | request call op =>
    rcases Engine.run_cases w limits call op with
      ⟨a, rec, shelf, after, hchange, hrun⟩ | ⟨e, shelf, hshelf, hrun⟩
    · have hexec : w.exec limits (.request call op) = ⟨rec, shelf, w.pending ++ after⟩ :=
        congrArg Prod.snd hrun
      rw [hexec]
      exact Unseen.change hl hstate hexec hchange
    · have hexec : w.exec limits (.request call op) = { w with shelf } := congrArg Prod.snd hrun
      rw [hexec]
      rcases hshelf with rfl | ⟨u, content, announced, hashed, rfl⟩
      · exact .inl (hsame _)
      · exact .inl (hwrite u content announced hashed _)
  | cut call op steps =>
    by_cases hdelete : ∃ caller partition id expected,
        op = .deleteItem caller partition id expected
    · obtain ⟨caller, partition, id, expected, rfl⟩ := hdelete
      have hrule : ((Op.deleteItem caller partition id expected).rule (w.rules limits call)).2 =
          w.rules limits call := Rules.deleteItem_rewriting hstate caller partition id expected
      have hexec :
          w.exec limits (.cut call (.deleteItem caller partition id expected) steps) = w := by
        show ({ w with shelf := if steps = 0 then w.shelf else _ } : World) = w
        rw [hrule]
        exact congrArg (fun shelf => { w with shelf }) (ite_self _)
      rw [hexec]
      exact .inl (hsame _)
    · have hstep : ShelfStep (w.rules limits call) op (op.cutShelf (w.rules limits call) steps) :=
        Op.cut rfl steps
      refine .inl (.of_shelf hl hstate (fun g hg _ => ?_) fun id item hitem => ?_)
      · exact hstep.keeps_others hstate
          (fun caller partition id expected hop =>
            hdelete ⟨caller, partition, id, expected, hop⟩) hg
      · exact hstep.grows_staged hl.layout hstate hitem
  | cleanup i =>
    cases hpending : w.pending[i]? with
    | none =>
      have hexec : w.exec limits (.cleanup i) = w := by simp only [exec, hpending]
      rw [hexec]
      exact .inl (hsame _)
    | some c =>
      have hexec : w.exec limits (.cleanup i) =
          ⟨w.record, c.perform w.shelf, w.pending.eraseIdx i⟩ := by simp only [exec, hpending]
      rw [hexec]
      -- what is dropped is dead, so it is neither a partition nor the staged generation
      have hkept : ∀ g ∈ w.record.liveGenerations,
          (c.perform w.shelf).generation g = w.shelf.generation g := by
        intro g hlive
        cases c with
        | removeStaging u => rw [Cleanup.perform, MemoryShelf.stageRemove_generation]
        | dropGeneration d =>
          have hd : d ≠ g := by
            rintro rfl
            exact (hl.dropsDead d (List.mem_of_getElem? hpending)).1 hlive
          rw [Cleanup.perform, MemoryShelf.dropGeneration_generation, if_neg hd]
      refine .inl (.of_shelf hl hstate (fun g _ hlive => hkept g hlive) fun id item hitem => ?_)
      rw [hkept _ (WorkspaceRecord.mem_liveGenerations.mpr
        (.inr (.inr (WorkspaceRecord.stagedGeneration_of_rewriting hstate))))]
      exact hitem
  | lose i => exact .inl (hsame _)
  | lateWrite u content announced hashed => exact .inl (hwrite u content announced hashed _)

/-! ## Whole runs -/

/-- **From a state with an open rewrite, nothing is seen of it or it has ended.** -/
theorem Unseen.run (later : List Event) (hl : w.Laid)
    (hstate : w.record.state = .rewriting session) :
    Unseen session w (w.run limits later) ∨
      ∃ pre e post, later = pre ++ e :: post ∧ Unseen session w (w.run limits pre) ∧
        Ends limits session (w.run limits pre) e := by
  induction later using List.reverseRecOn with
  | nil => exact .inl (.refl hstate)
  | append_singleton later e ih =>
    rcases ih with hunseen | ⟨pre, e', post, rfl, hunseen, hends⟩
    · obtain ⟨session', hsame, hstate'⟩ := hunseen.isOpen
      have hrun : w.run limits (later ++ [e]) = (w.run limits later).exec limits e :=
        Runs.run_append _ _ _ _
      rw [hrun]
      rcases Unseen.step limits e (laid_run hl later) hstate' with hnext | hends
      · exact .inl (hunseen.trans hsame hnext)
      · exact .inr ⟨later, e, [], rfl, hunseen, hends.same hsame⟩
    · exact .inr ⟨pre, e', post ++ [e], by simp, hunseen, hends⟩

omit [Crates] in
/-- An item is served where its generation is that of a partition. -/
theorem serves_iff {id : ItemId} {item : Item} :
    w.Serves id item ↔ ∃ g, (g = w.record.generation ∨ w.record.plain = some g) ∧
      (w.shelf.generation g)[id]? = some item := by
  constructor
  · rintro (hcurrent | hplain)
    · exact ⟨_, .inl rfl, hcurrent⟩
    · cases hp : w.record.plain with
      | none =>
        rw [holdings, hp] at hplain
        change (∅ : Map ItemId Item)[id]? = some item at hplain
        rw [Std.ExtTreeMap.getElem?_empty] at hplain
        cases hplain
      | some p =>
        rw [holdings, hp] at hplain
        exact ⟨p, .inr rfl, hplain⟩
  · rintro ⟨g, rfl | hplain, hitem⟩
    · exact .inl hitem
    · refine .inr ?_
      rw [holdings, hplain]
      exact hitem

omit [Crates] in
/-- A generation of a partition stays one, unless a rewrite is open. -/
theorem partition_move {rec : WorkspaceRecord} {shelf : MemoryShelf} (hl : w.Laid)
    (h : Move w.record w.shelf rec shelf) {g : Nat}
    (hg : g = w.record.generation ∨ w.record.plain = some g) :
    (g = rec.generation ∨ rec.plain = some g) ∨
      ∃ session, w.record.state = .rewriting session := by
  cases h with
  | same hsame =>
    rw [hsame.generation, hsame.plain]
    exact .inl hg
  | setAside hstate =>
    rcases hg with rfl | hplain
    · exact .inl (.inr rfl)
    · -- a workspace that is not sealed has no plain partition
      rw [hl.layout.plain_sealed (WorkspaceRecord.seal?_of_settled hstate)] at hplain
      cases hplain
  | switched hstate => exact .inr ⟨_, hstate⟩
  | _ => exact .inl hg

/-- **One event takes an item from what is served by its deletion, or by the commit of a
rewrite.** -/
theorem Serves.step (limits : Limits) (e : Event) (hl : w.Laid) {id : ItemId} {item : Item}
    (h : w.Serves id item) :
    (w.exec limits e).Serves id item ∨ TakesItem limits w id e := by
  obtain ⟨g, hg, hitem⟩ := serves_iff.mp h
  have hlive : g ∈ w.record.liveGenerations := by
    rw [WorkspaceRecord.mem_liveGenerations]
    rcases hg with heq | hplain
    · exact .inl heq
    · exact .inr (.inl hplain)
  have hstep := w.exec_step limits e
  by_cases hkept : ((w.exec limits e).shelf.generation g)[id]? = some item
  · rcases partition_move hl hstep.move hg with hnext | ⟨session, hstate⟩
    · exact .inl (serves_iff.mpr ⟨g, hnext, hkept⟩)
    · have hsame : (w.exec limits e).holdings = w.holdings → (w.exec limits e).Serves id item := by
        intro hholdings
        rw [Serves, hholdings]
        exact h
      rcases Unseen.step limits e hl hstate with hunseen | hends
      · exact .inl (hsame hunseen.holdings)
      · cases hends with
        | switched _ hstate' hholder _ _ =>
          rw [hstate] at hstate'
          cases hstate'
          exact .inr (.inr ⟨_, _, session, rfl, hstate, hholder⟩)
        | restored _ _ _ hholdings => exact .inl (hsame hholdings)
  · obtain ⟨call, caller, partition, expected, hruns, hpartition⟩ :=
      spares_items hl hstep (.inl hlive) hitem hkept
    have hnone := ((hstep.keeps_item hitem).resolve_left hkept).1
    exact .inr (.inl ⟨call, caller, partition, expected, g, hruns, hpartition, ⟨item, hitem⟩,
      hnone⟩)

end

end World

namespace Sample

/-- A sealed workspace with a note, which is staged for another key. -/
def changing : List Event :=
  [.request (call 0 []) (.enableEncryption laptop keyA []),
    .request (call 0 [1]) (.beginUpload laptop (request 2 (some keyA))),
    .request (call 0 []) (.putUploadContent laptop (upload 1) [.piece [1, 2]]),
    .request (call 0 []) (.commitUpload laptop (upload 1)),
    .request (call 0 []) (.beginRewrite laptop ⟨.rotate, some keyA, keyB, []⟩),
    .request (call 0 [2]) (.beginUpload laptop (restaged 3 keyB)),
    .request (call 0 []) (.putUploadContent laptop (upload 2) [.piece [3, 4, 5]]),
    .request (call 0 []) (.commitUpload laptop (upload 2))]

/-- Someone else wants to delete meanwhile, and then the rewrite is committed. -/
def meanwhile : List Event :=
  [.request (call 1 []) (.deleteItem phone .current note (some keyA)),
    .request (call 2 []) (.commitRewrite laptop keyB)]

def changeOfKey : Session := ⟨.rotate, some ⟨keyA, []⟩, ⟨keyB, []⟩, laptop.key, 10, 1⟩

end Sample

-- the note that is served is the old one up to the commit, and then the new one
example :
    ((@World.run Sample.crates Sample.limits .initial
        (Sample.changing ++ Sample.meanwhile.take 1)).holdings.current[Sample.note]?,
      (@World.run Sample.crates Sample.limits .initial
        (Sample.changing ++ Sample.meanwhile)).holdings.current[Sample.note]?) =
      (some ⟨[1, 2], ⟨[], some Sample.keyA, 0⟩⟩, some ⟨[3, 4, 5], ⟨[], some Sample.keyB, 0⟩⟩) := by
  decide +kernel

namespace Sample

/-- A note is stored, and a crash and other requests follow. -/
def putAway : List Event :=
  [.request (call 0 [1]) (.beginUpload laptop (request 2 none)),
    .request (call 0 []) (.putUploadContent laptop (upload 1) [.piece [1, 2]]),
    .request (call 0 []) (.commitUpload laptop (upload 1))]

def afterwards : List Event :=
  [.request (call 1 []) (.freshStart laptop keyA []), .lose 0, .request (call 2 []) .reconcile,
    .request (call 3 []) (.deleteItem phone .plain note (some keyA))]

end Sample

end Passalong
