import Passalong.Cleanups
import Passalong.Outcomes
import Passalong.Refusals

/-!
# What the answer to an upload shows (`handlers/uploads.rs`, `outcome_json`)

The answer to a commit, first or repeated, and to a begin of content that is stored shows
an item. The outcome has its id only, and the handler looks the item up: an outcome of a
rewrite first in the caller's open session, and if it is not found there, for whatever
reason, in the current generation.

Which generation an upload was staged into is not remembered. Here a log beside the run
remembers it (`homes`), and the answer is compared with it (`shown_run`): it shows the
upload's own item, or none, exactly as long as the caller holds the session of the upload,
or neither its session nor the current generation has another item of that id
(`LooksHome`). Otherwise the answer shows another item: after an abort, the source item
that the rewrite was to replace.

1. `Kept`: what was staged stays while its session is open. The item cannot be deleted,
   and its generation is live, so no clean-up drops it.
2. `Housed`: the outcome of every staged upload is that of an item that is `Kept` in the
   generation the log has for it. A commit that is recorded enters the generation it went
   to, and a repeat enters nothing.
-/

namespace Passalong

open Lib

/-! ## The handler -/

/-- `{ item, created }`, with the item as it is stored now. -/
structure OutcomeOut where
  item : Option (ItemId × StoredItem)
  created : Bool
  deriving DecidableEq, Repr

namespace Rules

variable (r : Rules) (caller : Caller)

/-- `outcome_json`. -/
def outcomeJson (outcome : PutOutcome) : OutcomeOut :=
  -- whatever the look in the session is refused for, the current generation is next
  let staged := if outcome.staged then (r.stagedItem caller outcome.id).toOption else none
  let item :=
    match staged with
    | some item => some item
    | none => r.shelf.get r.record.generation outcome.id
  ⟨item.map fun item => (outcome.id, item), outcome.created⟩

/-- The generation in which the handler finds the item of a staged outcome. -/
def shownIn (id : ItemId) : Option Nat :=
  match r.record.heldSession caller with
  | .ok session =>
    if (r.shelf.get session.stagedGeneration id).isSome then some session.stagedGeneration
    else if (r.shelf.get r.record.generation id).isSome then some r.record.generation
    else none
  | .error _ =>
    if (r.shelf.get r.record.generation id).isSome then some r.record.generation else none

/-- What is shown is the item of that generation. -/
theorem outcomeJson_item {outcome : PutOutcome} (hstaged : outcome.staged = true) :
    (r.outcomeJson caller outcome).item =
      (r.shownIn caller outcome.id).bind fun g =>
        (r.shelf.get g outcome.id).map fun item => (outcome.id, item) := by
  have hcurrent : (r.shelf.get r.record.generation outcome.id).map
        (fun item => (outcome.id, item)) =
      (if (r.shelf.get r.record.generation outcome.id).isSome then some r.record.generation
        else none).bind fun g =>
        (r.shelf.get g outcome.id).map fun item => (outcome.id, item) := by
    cases hget : r.shelf.get r.record.generation outcome.id with
    | none => rfl
    | some item =>
      show _ = (r.shelf.get r.record.generation outcome.id).map _
      rw [hget]
  unfold outcomeJson shownIn
  rw [if_pos hstaged, stagedItem]
  cases hheld : r.record.heldSession caller with
  | error e => exact hcurrent
  | ok session =>
    dsimp only
    cases hget : r.shelf.get session.stagedGeneration outcome.id with
    | none =>
      rw [if_neg (by simp)]
      exact hcurrent
    | some item =>
      rw [if_pos (show (some item).isSome = true from rfl)]
      show _ = (r.shelf.get session.stagedGeneration outcome.id).map _
      rw [hget]
      rfl

/-- The answer shows the item of generation `g`, or none. -/
def ShowsOwn (outcome : PutOutcome) (g : Nat) : Prop :=
  ∀ shown, (r.outcomeJson caller outcome).item = some shown →
    r.shownIn caller outcome.id = some g ∧
      (r.shelf.get g outcome.id).map (fun item => (outcome.id, item)) = some shown

/-- The caller holds the session that stages generation `g`; or the session it holds, if
any, has nothing staged under the id, and the current generation is `g` or has nothing
under the id. -/
def LooksHome (id : ItemId) (g : Nat) : Prop :=
  (∃ session, r.record.heldSession caller = .ok session ∧ session.stagedGeneration = g) ∨
  (∀ session, r.record.heldSession caller = .ok session →
      r.shelf.get session.stagedGeneration id = none) ∧
    (r.record.generation = g ∨ r.shelf.get r.record.generation id = none)

/-- **What is shown is the own item** exactly when the look goes home, if the item is
there while its session is open. -/
theorem showsOwn_iff {outcome : PutOutcome} {g : Nat} (hstaged : outcome.staged = true)
    (hthere : r.record.stagedGeneration = some g → (r.shelf.get g outcome.id).isSome) :
    r.ShowsOwn caller outcome g ↔ r.LooksHome caller outcome.id g := by
  have hshown : r.ShowsOwn caller outcome g ↔
      ∀ h, r.shownIn caller outcome.id = some h → (r.shelf.get h outcome.id).isSome → h = g := by
    unfold ShowsOwn
    rw [outcomeJson_item r caller hstaged]
    constructor
    · intro hown h hin hsome
      obtain ⟨item, hitem⟩ := Option.isSome_iff_exists.mp hsome
      have hg := (hown (outcome.id, item) (by rw [hin]; simp [hitem])).1
      rw [hin] at hg
      exact Option.some.inj hg
    · intro hown shown hitem
      obtain ⟨h, hin, hget⟩ := Option.bind_eq_some_iff.mp hitem
      have hsome : (r.shelf.get h outcome.id).isSome := by
        obtain ⟨item, hitem, -⟩ := Option.map_eq_some_iff.mp hget
        rw [hitem]
        rfl
      obtain rfl := hown h hin hsome
      exact ⟨hin, hget⟩
  rw [hshown]
  -- what the look in the current generation comes to
  have hcurrent : (∀ h, (if (r.shelf.get r.record.generation outcome.id).isSome then
        some r.record.generation else none) = some h →
        (r.shelf.get h outcome.id).isSome → h = g) ↔
      (r.record.generation = g ∨ r.shelf.get r.record.generation outcome.id = none) := by
    by_cases hsome : (r.shelf.get r.record.generation outcome.id).isSome
    · rw [if_pos hsome]
      constructor
      · exact fun hown => .inl (hown _ rfl hsome)
      · rintro (rfl | hnone) h hh -
        · exact (Option.some.inj hh).symm
        · rw [hnone] at hsome
          cases hsome
    · rw [if_neg hsome]
      constructor
      · exact fun _ => .inr (Option.not_isSome_iff_eq_none.mp hsome)
      · rintro - h hh
        cases hh
  unfold shownIn LooksHome
  cases hheld : r.record.heldSession caller with
  | error e =>
    dsimp only
    rw [hcurrent]
    constructor
    · exact fun h => .inr ⟨fun session hs => (by cases hs), h⟩
    · rintro (⟨session, hs, -⟩ | ⟨-, h⟩)
      · cases hs
      · exact h
  | ok session =>
    have hopen : r.record.stagedGeneration = some session.stagedGeneration := by
      rw [WorkspaceRecord.stagedGeneration_of_rewriting (WorkspaceRecord.heldSession_ok hheld).1]
    dsimp only
    by_cases hsome : (r.shelf.get session.stagedGeneration outcome.id).isSome
    · rw [if_pos hsome]
      constructor
      · exact fun hown => .inl ⟨session, rfl, hown _ rfl hsome⟩
      · rintro (⟨session', hs, rfl⟩ | ⟨hnone, -⟩) h hh -
        · cases hs
          exact (Option.some.inj hh).symm
        · rw [hnone session rfl] at hsome
          cases hsome
    · rw [if_neg hsome, hcurrent]
      constructor
      · refine fun h => .inr ⟨fun session' hs => ?_, h⟩
        cases hs
        exact Option.not_isSome_iff_eq_none.mp hsome
      · rintro (⟨session', hs, rfl⟩ | ⟨-, h⟩)
        · -- its own session is open, so the item is there
          cases hs
          exact absurd (hthere hopen) hsome
        · exact h

end Rules

/-! ## Where uploads were put -/

/-- Which outcome an operation is answered with, and to whom. -/
def Op.tells : Op → Answer → Option (Caller × PutOutcome)
  | .commitUpload caller _, .outcome outcome => some (caller, outcome)
  | .beginUpload caller _, .begun (.stored outcome) => some (caller, outcome)
  | _, _ => none

section
variable [Crates]

/-- The generation an upload that commits goes to, when the commit is recorded. A commit
that is sent again puts nothing anywhere. -/
def World.settles (limits : Limits) (w : World) : Event → List (UploadId × Nat)
  | .request call (.commitUpload caller u) =>
    if (Engine.run w limits call (.commitUpload caller u)).1.isOk &&
        (w.record.tombstone call.now caller u).isNone then
      (w.record.tickets[u]?.bind fun ticket =>
        (w.record.uploadTarget caller ticket.request).toOption).toList.map fun g => (u, g)
    else []
  | _ => []

/-- Where the uploads of a run were put, in order. -/
def World.homes (limits : Limits) (w : World) (es : List Event) : List (UploadId × Nat) :=
  Runs.history (World.exec limits) (World.settles limits) w es

/-- Where an upload was put last. -/
def homeIn (log : List (UploadId × Nat)) (u : UploadId) : Option Nat :=
  (log.reverse.find? fun e => e.1 = u).map Prod.snd

omit [Crates] in
theorem homeIn_append_self (log : List (UploadId × Nat)) (u : UploadId) (g : Nat) :
    homeIn (log ++ [(u, g)]) u = some g := by
  unfold homeIn
  rw [List.reverse_append, List.reverse_singleton, List.singleton_append,
    List.find?_cons_of_pos (by simp)]
  rfl

omit [Crates] in
theorem homeIn_append_of_ne {log : List (UploadId × Nat)} {u v : UploadId} {g : Nat}
    (h : v ≠ u) : homeIn (log ++ [(v, g)]) u = homeIn log u := by
  unfold homeIn
  rw [List.reverse_append, List.reverse_singleton, List.singleton_append,
    List.find?_cons_of_neg (by simpa using h)]

/-! ## What was staged stays while its session is open -/

omit [Crates] in
/-- A generation that is staged was staged before, or is numbered only now. -/
theorem Move.staged_before {rec rec' : WorkspaceRecord} {shelf shelf' : MemoryShelf} {g : Nat}
    (h : Move rec shelf rec' shelf') (hlt : g < rec.nextGeneration)
    (hstaged : rec'.stagedGeneration = some g) : rec.stagedGeneration = some g := by
  cases h with
  | same hsame =>
    rw [WorkspaceRecord.stagedGeneration, hsame.state] at hstaged
    exact hstaged
  | opened _ _ hnumbered =>
    have hg : _ = g := Option.some.inj hstaged
    omega
  | renewed hstate => exact (WorkspaceRecord.stagedGeneration_of_rewriting hstate).trans hstaged
  | _ => cases hstaged

namespace World

/-- An item that was staged in generation `g` under `id` is there as long as a session
stages that generation. -/
structure Kept (w : World) (id : ItemId) (g : Nat) : Prop where
  numbered : g < w.record.nextGeneration
  there : w.record.stagedGeneration = some g → ∃ item, (w.shelf.generation g)[id]? = some item

variable {limits : Limits} {w w' : World} {e : Event} {id : ItemId} {g : Nat}

theorem Kept.step (hl : w.Laid) (hs : Step limits w e w') (h : w.Kept id g) : w'.Kept id g := by
  refine ⟨Nat.lt_of_lt_of_le h.numbered hs.move.nextGeneration_le, fun hstaged => ?_⟩
  have hbefore := hs.move.staged_before h.numbered hstaged
  obtain ⟨item, hitem⟩ := h.there hbefore
  have hlive : g ∈ w.record.liveGenerations :=
    WorkspaceRecord.mem_liveGenerations.mpr (.inr (.inr hbefore))
  refine ⟨item, ?_⟩
  by_contra hgone
  -- only a deletion takes an item away, and none reaches the staged generation
  obtain ⟨-, -, partition, -, -, hdeleted⟩ := spares_items hl hs (.inl hlive) hitem hgone
  cases partition with
  | current =>
    have hcurrent : w.record.generation = g := Option.some.inj hdeleted
    rw [← hcurrent] at hbefore
    exact hl.layout.staged_ne hbefore
  | plain => exact hl.layout.plain_ne_staged g hdeleted hbefore

theorem Kept.run (hl : w.Laid) (h : w.Kept id g) (es : List Event) :
    (w.run limits es).Kept id g :=
  (Runs.always (exec limits) (I := fun w => w.Laid ∧ w.Kept id g)
    (fun w e h => ⟨h.1.step (w.exec_step limits e), h.2.step h.1 (w.exec_step limits e)⟩)
    ⟨hl, h⟩ es).2

/-! ## Every staged outcome has a home -/

/-- The outcome of every staged upload is that of an item kept where the upload was
put. -/
def Housed (log : List (UploadId × Nat)) (w : World) : Prop :=
  ∀ (u : UploadId) (stone : Tombstone), w.record.tombstones[u]? = some stone →
    stone.outcome.staged = true → ∃ g, homeIn log u = some g ∧ w.Kept stone.outcome.id g

/-- What an event does to the outcomes: it adds none and puts nothing anywhere, or it is a
commit that is recorded. -/
inductive Settles (limits : Limits) (w w' : World) : Event → Prop
  | none {e : Event} (hlog : w.settles limits e = [])
      (hstones : ∀ (u : UploadId) (stone : Tombstone),
        w'.record.tombstones[u]? = some stone → w.record.tombstones[u]? = some stone) :
      Settles limits w w' e
  | commit {call : Call} {caller : Caller} {u : UploadId} {ticket : Ticket} {g : Nat}
      {stone : Tombstone} {item : Item}
      (hlog : w.settles limits (.request call (.commitUpload caller u)) = [(u, g)])
      (hstones : w'.record.tombstones = w.record.tombstones.insert u stone)
      (hstaged : stone.outcome.staged = ticket.request.inRewrite)
      (htarget : w.record.Targets caller ticket.request g)
      (hitem : (w'.shelf.generation g)[stone.outcome.id]? = some item)
      (hnext : w'.record.nextGeneration = w.record.nextGeneration) :
      Settles limits w w' (.request call (.commitUpload caller u))

/-- A commit that is recorded is entered in the log. -/
theorem settles_commit {call : Call} {caller : Caller} {u : UploadId} {ticket : Ticket}
    {a : Answer} (ha : w.record.Apart)
    (hanswer : (Engine.run w limits call (.commitUpload caller u)).1 = .ok a)
    (hticket : w.record.tickets[u]? = some ticket)
    (htarget : w.record.Targets caller ticket.request g) :
    w.settles limits (.request call (.commitUpload caller u)) = [(u, g)] := by
  have hnone : w.record.tombstone call.now caller u = none := by
    cases hstone : w.record.tombstones[u]? with
    | none =>
      rw [WorkspaceRecord.tombstone, hstone]
      rfl
    | some stone =>
      rw [ha u stone hstone] at hticket
      cases hticket
  dsimp only [settles]
  rw [hanswer, hnone, hticket, Option.bind_some, htarget.goes]
  rfl

/-- A commit that is sent again is not. -/
theorem settles_replayed {call : Call} {caller : Caller} {u : UploadId} {stone : Tombstone}
    (hstone : w.record.tombstone call.now caller u = some stone) :
    w.settles limits (.request call (.commitUpload caller u)) = [] := by
  dsimp only [settles]
  rw [hstone, Option.isNone_some, Bool.and_false, if_neg Bool.false_ne_true]

/-- Nor is what is refused. -/
theorem settles_refused {call : Call} {op : Op} {e : ApiError}
    (hanswer : (Engine.run w limits call op).1 = .error e) :
    w.settles limits (.request call op) = [] := by
  cases op with
  | commitUpload caller u =>
    dsimp only [settles]
    rw [hanswer]
    rfl
  | _ => rfl

/-- **Every event does one of the two.** -/
theorem settles_exec (ha : w.record.Apart) (e : Event) :
    Settles limits w (w.exec limits e) e := by
  cases e with
  | request call op =>
    cases hanswer : (Engine.run w limits call op).1 with
    | error e =>
      obtain ⟨r', -, hrun⟩ := Engine.run_error hanswer
      refine .none (settles_refused hanswer) fun u stone hstone => ?_
      change (Engine.run w limits call op).2.record.tombstones[u]? = some stone at hstone
      rw [hrun] at hstone
      exact hstone
    | ok a =>
      obtain ⟨rec, shelf, after, hchange, hexec⟩ := Engine.run_ok hanswer
      rw [hexec]
      -- only a commit adds to what is remembered
      by_cases hcommit : ∃ caller u, op = .commitUpload caller u
      · obtain ⟨caller, u, rfl⟩ := hcommit
        cases hchange with
        | kept hdone => exact absurd hdone not_false
        | replayed hstone => exact .none (settles_replayed hstone) fun _ _ => id
        | sealed _ _ hop => rcases hop with hop | hop <;> cases hop
        | duplicate hticket htarget _ hfound =>
          obtain ⟨⟨item, hitem⟩, -⟩ := findIn_eq_some hfound
          have hget := (WorkspaceRecord.liveTicket_eq_some hticket).1
          exact .commit (settles_commit ha hanswer hget htarget) rfl rfl htarget hitem rfl
        | @published _ _ ticket g staged _ hticket htarget _ _ _ _ hitems =>
          have hget := (WorkspaceRecord.liveTicket_eq_some hticket).1
          have hput : (shelf.generation g)[ticket.request.id]? = some ⟨staged.content,
              ⟨ticket.request.metaJson, ticket.request.expectedKeyId, call.now⟩⟩ := by
            rw [hitems, if_pos rfl]
            exact Map.get_insert_self _ _ _
          exact .commit (settles_commit ha hanswer hget htarget) rfl rfl htarget hput rfl
        | recovered hticket htarget _ hitem _ =>
          have hget := (WorkspaceRecord.liveTicket_eq_some hticket).1
          exact .commit (settles_commit ha hanswer hget htarget) rfl rfl htarget hitem rfl
        | renewed _ hrenews => exact absurd hrenews not_false
        | restored _ haborts => exact absurd haborts not_false
      -- the other operations answer no outcome, and forget at most
      · have hlog : w.settles limits (.request call op) = [] := by
          cases op with
          | commitUpload caller u => exact absurd ⟨caller, u, rfl⟩ hcommit
          | _ => rfl
        refine .none hlog fun u stone hstone => ?_
        cases hchange with
        | duplicate => exact absurd ⟨_, _, rfl⟩ hcommit
        | published => exact absurd ⟨_, _, rfl⟩ hcommit
        | recovered => exact absurd ⟨_, _, rfl⟩ hcommit
        | cleaned => exact Map.get_of_get_filter hstone
        | reconciled => exact Map.get_of_get_filter hstone
        | _ => exact hstone
  | cleanup i =>
    refine .none rfl fun u stone hstone => ?_
    simp only [exec] at hstone
    split at hstone <;> exact hstone
  | _ => exact .none rfl fun _ _ => id

/-- An event keeps the outcomes housed. -/
theorem Housed.step {log : List (UploadId × Nat)} (hl : w.Laid) (ha : w.record.Apart)
    (h : Housed log w) (e : Event) :
    Housed (log ++ w.settles limits e) (w.exec limits e) := by
  have hs := w.exec_step limits e
  intro u stone hstone hstaged
  cases (settles_exec ha e : Settles limits w (w.exec limits e) e) with
  | none hlog hstones =>
    obtain ⟨g, hhome, hkept⟩ := h u stone (hstones u stone hstone) hstaged
    rw [hlog, List.append_nil]
    exact ⟨g, hhome, hkept.step hl hs⟩
  | @commit call caller v ticket g stone' item hlog hstones hin htarget hitem hnext =>
    rw [hstones] at hstone
    rw [hlog]
    by_cases hv : v = u
    · -- its own commit: this is where it was put
      subst hv
      rw [Map.get_insert_self] at hstone
      cases hstone
      refine ⟨g, homeIn_append_self log v g, ?_, fun _ => ⟨item, hitem⟩⟩
      rw [hnext]
      exact hl.layout.live_lt g htarget.live
    · rw [Map.get_insert_of_ne _ _ hv] at hstone
      obtain ⟨g', hhome, hkept⟩ := h u stone hstone hstaged
      rw [homeIn_append_of_ne hv]
      exact ⟨g', hhome, hkept.step hl hs⟩

omit [Crates] in
theorem housed_initial : Housed [] initial := by
  intro u stone hstone
  rw [show initial.record.tombstones = ∅ from rfl, Std.ExtTreeMap.getElem?_empty] at hstone
  cases hstone

/-- After every run the outcome of every staged upload has a home. -/
theorem housed_run (es : List Event) :
    Housed (initial.homes limits es) (initial.run limits es) := by
  have hrun : (initial.run limits es).Laid ∧ (initial.run limits es).record.Apart ∧
      Housed ([] ++ initial.homes limits es) (initial.run limits es) :=
    Runs.pairwise_invariant (exec limits) (P := fun _ _ => True) (R := fun _ _ => True)
      (I := fun log w => w.Laid ∧ w.record.Apart ∧ Housed log w)
      (fun log w e h _ _ => ⟨h.1.step (w.exec_step limits e),
        (w.exec_step limits e).apart h.2.1, h.2.2.step h.1 h.2.1 e⟩)
      ⟨laid_initial, WorkspaceRecord.apart_initial, housed_initial⟩
      (Runs.along_of_forall _ fun _ _ => trivial)
      (List.pairwise_of_forall fun _ _ => trivial)
  exact hrun.2.2

/-! ## What the answers show -/

/-- The generation that the upload of an answer was put into: for a commit by the log,
for a begin of content that is stored by where it was looked for. -/
def home (limits : Limits) (es : List Event) (call : Call) : Op → Option Nat
  | .commitUpload caller u =>
    homeIn (initial.homes limits (es ++ [.request call (.commitUpload caller u)])) u
  | .beginUpload caller request =>
    ((initial.run limits es).record.uploadTarget caller request).toOption
  | _ => none

/-- The item of a staged outcome is kept where the upload was put, from the answer on. -/
theorem answer_kept {es : List Event} {call : Call} {op : Op} {a : Answer} {caller : Caller}
    {outcome : PutOutcome} (hanswer : (Engine.run (initial.run limits es) limits call op).1 = .ok a)
    (htells : op.tells a = some (caller, outcome)) (hstaged : outcome.staged = true) :
    ∃ g, home limits es call op = some g ∧
      ((initial.run limits es).exec limits (.request call op)).Kept outcome.id g := by
  have hsplit : ∀ e, initial.run limits (es ++ [e]) = (initial.run limits es).exec limits e :=
    fun e => Runs.run_append _ _ _ _
  obtain ⟨rec, shelf, after, hchange, hexec⟩ := Engine.run_ok hanswer
  cases op with
  | commitUpload caller' u =>
    -- the outcome that is told is the one that is remembered now
    obtain ⟨stone, hstone, hout⟩ : ∃ stone, ((initial.run limits es).exec limits
        (.request call (.commitUpload caller' u))).record.tombstones[u]? = some stone ∧
        stone.outcome = outcome := by
      rw [hexec]
      cases hchange with
      | kept hdone => exact absurd hdone not_false
      | replayed hstone =>
        cases htells
        exact ⟨_, (Option.filter_eq_some_iff.mp hstone).1, rfl⟩
      | sealed _ _ hop => rcases hop with hop | hop <;> cases hop
      | duplicate =>
        cases htells
        exact ⟨_, Map.get_insert_self _ _ _, rfl⟩
      | published =>
        cases htells
        exact ⟨_, Map.get_insert_self _ _ _, rfl⟩
      | recovered =>
        cases htells
        exact ⟨_, Map.get_insert_self _ _ _, rfl⟩
      | renewed _ hrenews => exact absurd hrenews not_false
      | restored _ haborts => exact absurd haborts not_false
    subst hout
    have hhoused := @housed_run _ limits (es ++ [.request call (.commitUpload caller' u)])
    rw [hsplit] at hhoused
    exact hhoused u stone hstone hstaged
  | beginUpload caller' request =>
    rw [hexec]
    cases hchange with
    | kept hdone => exact absurd hdone not_false
    | sealed _ _ hop => rcases hop with hop | hop <;> cases hop
    | begun => cases htells
    | rebegun => cases htells
    | @stored _ _ g id htarget hfound =>
      cases htells
      obtain ⟨⟨item, hitem⟩, -⟩ := findIn_eq_some hfound
      have hl : (initial.run limits es).Laid := laid_run laid_initial es
      refine ⟨g, ?_, hl.layout.live_lt g htarget.live, fun _ => ⟨item, hitem⟩⟩
      have hgoes : (initial.run limits es).record.uploadTarget caller request = .ok g :=
        htarget.goes
      show ((initial.run limits es).record.uploadTarget caller request).toOption = some g
      rw [hgoes]
      rfl
    | renewed _ hrenews => exact absurd hrenews not_false
    | restored _ haborts => exact absurd haborts not_false
  | _ => cases htells

/-- **The answer shows the upload's own item, or none, exactly when the look goes home.**
In every run, whenever a commit or a begin is answered with a staged outcome, and whatever
goes on before the handler looks the item up. -/
theorem shown_run (limits : Limits) (es : List Event) (call look : Call) (op : Op) (a : Answer)
    (caller : Caller) (outcome : PutOutcome) (between : List Event)
    (hanswer : (Engine.run (initial.run limits es) limits call op).1 = .ok a)
    (htells : op.tells a = some (caller, outcome)) (hstaged : outcome.staged = true) :
    ∃ g, home limits es call op = some g ∧
      (((initial.run limits (es ++ .request call op :: between)).rules limits look).ShowsOwn
          caller outcome g ↔
        ((initial.run limits (es ++ .request call op :: between)).rules limits look).LooksHome
          caller outcome.id g) := by
  obtain ⟨g, hhome, hkept⟩ := answer_kept hanswer htells hstaged
  have hrun : initial.run limits (es ++ .request call op :: between) =
      ((initial.run limits es).exec limits (.request call op)).run limits between :=
    Runs.run_append _ _ _ _
  have hl : (initial.run limits es).Laid := laid_run laid_initial es
  have hl₁ := hl.step ((initial.run limits es).exec_step limits (.request call op))
  have hlater : (((initial.run limits es).exec limits (.request call op)).run limits
      between).Kept outcome.id g := hkept.run hl₁ between
  refine ⟨g, hhome, Rules.showsOwn_iff _ caller hstaged fun hopen => ?_⟩
  rw [hrun] at hopen ⊢
  obtain ⟨item, hitem⟩ := hlater.there hopen
  show ((((initial.run limits es).exec limits (.request call op)).run limits
    between).shelf.get g outcome.id).isSome
  rw [MemoryShelf.get, hitem]
  rfl

end World

end

/-! ## Evaluated runs -/

namespace Sample

/-- A plaintext note of two bytes, and a migration that is about to stage it as one of
three. -/
def migrating : List Event :=
  [.request (call 0 [1]) (.beginUpload laptop (request 2 none)),
    .request (call 0 []) (.putUploadContent laptop (upload 1) [.piece [1, 2]]),
    .request (call 0 []) (.commitUpload laptop (upload 1)),
    .request (call 1 []) (.beginRewrite laptop ⟨.migrate, none, keyA, []⟩),
    .request (call 1 [2]) (.beginUpload laptop (restaged 3 keyA)),
    .request (call 1 []) (.putUploadContent laptop (upload 2) [.piece [3, 4, 5]])]

/-- What its commit is answered. -/
def stagedNote : PutOutcome := ⟨note, true, true⟩

/-- The note is staged, and the migration committed. -/
def migrated : List Event :=
  migrating ++
    .request (call 1 []) (.commitUpload laptop (upload 2)) ::
      [.request (call 2 []) (.commitRewrite laptop keyA)]

/-- The note is staged, and the migration aborted. -/
def unmigrated : List Event :=
  migrating ++
    [.request (call 1 []) (.commitUpload laptop (upload 2)),
      .request (call 2 []) (.abortRewrite laptop keyA)]

end Sample

/-- The commit is sent again after the abort, and its answer shows the plaintext note that
the migration was to replace. -/
theorem World.not_shown_aborted :
    let again : Op := .commitUpload Sample.laptop (Sample.upload 2)
    let w := @World.run Sample.crates Sample.limits .initial Sample.unmigrated
    let w' := @World.run Sample.crates Sample.limits .initial
      (Sample.unmigrated ++ [.request (Sample.call 3 []) again])
    let r := w'.rules Sample.limits (Sample.call 3 [])
    (@Engine.run Sample.crates w Sample.limits (Sample.call 3 []) again).1 =
        .ok (.outcome Sample.stagedNote) ∧
      @World.home Sample.crates Sample.limits Sample.unmigrated (Sample.call 3 []) again = some 1 ∧
      (r.outcomeJson Sample.laptop Sample.stagedNote).item =
        some (Sample.note, ⟨2, ⟨[], none, 0⟩⟩) ∧
      r.shownIn Sample.laptop Sample.note = some 0 ∧
      ¬ r.ShowsOwn Sample.laptop Sample.stagedNote 1 := by
  refine ⟨by decide +kernel, by decide +kernel, by decide +kernel, by decide +kernel, ?_⟩
  intro hown
  have hhome := (hown (Sample.note, ⟨2, ⟨[], none, 0⟩⟩) (by decide +kernel)).1
  revert hhome
  decide +kernel

/-- The migration commits before the handler looks: the answer shows the note that was
staged. -/
theorem World.shown_migrated :
    let w := @World.run Sample.crates Sample.limits .initial Sample.migrated
    (w.rules Sample.limits (Sample.call 3 [])).ShowsOwn Sample.laptop Sample.stagedNote 1 := by
  obtain ⟨g, hhome, hiff⟩ := @World.shown_run Sample.crates Sample.limits Sample.migrating
    (Sample.call 1 []) (Sample.call 3 []) (.commitUpload Sample.laptop (Sample.upload 2))
    (.outcome Sample.stagedNote) Sample.laptop Sample.stagedNote
    [.request (Sample.call 2 []) (.commitRewrite Sample.laptop Sample.keyA)]
    (by decide +kernel) rfl rfl
  have hg : some g = some 1 := hhome.symm.trans (by decide +kernel)
  obtain rfl := Option.some.inj hg
  refine hiff.mpr (.inr ⟨fun session hheld => ?_, .inl (by decide +kernel)⟩)
  -- no session is open any more
  have hnone : (@World.run Sample.crates Sample.limits .initial
      Sample.migrated).record.heldSession Sample.laptop = .error .notFound := by
    decide +kernel
  have hboth := hnone.symm.trans hheld
  cases hboth

end Passalong
