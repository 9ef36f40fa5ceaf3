import Passalong.Cleanups
import Passalong.Outcomes

/-!
# Deduplication

A content key is stored once per generation: no two items of a generation have the
same one, whatever happens (`distinct_run`). So, as long as nothing is deleted, every
outcome told for a generation and a content key should name one item, and one upload
should be told that it created it (`dedup_run`).

The second half rests on a commit telling its own unrecorded publish from another
upload's item. It takes the item under its id for its own when its staging place is
gone, and looks for it in the generation that is current *now*. That is the generation
it was published to, except when the workspace's key came back after rewrites: so the
theorem asks that no commit of a rewrite brings back a key under which an upload with
an unrecorded publish is still waiting (`switchClears`).

- `Publish` is what a publish did: which upload made which item of which generation.
- `Traced` relates these to the shelf, to the tickets whose staging place is gone, and
  to the outcomes told so far.
-/

namespace Passalong

open Lib

/-! ## One item for each content key -/

/-- No two items of a generation have the same content key. -/
def MemoryShelf.Distinct (s : MemoryShelf) : Prop :=
  ∀ (g : Nat) (id₁ id₂ : ItemId) (item₁ item₂ : Item),
    (s.generation g)[id₁]? = some item₁ → (s.generation g)[id₂]? = some item₂ →
      id₁.contentKey = id₂.contentKey → id₁ = id₂

/-- Fewer items are no less distinct. -/
theorem MemoryShelf.Distinct.fewer {s s' : MemoryShelf} (h : s.Distinct)
    (hitems : ∀ (g : Nat) (id : ItemId) (item : Item), (s'.generation g)[id]? = some item →
      (s.generation g)[id]? = some item) : s'.Distinct := by
  intro g id₁ id₂ item₁ item₂ h₁ h₂ hkey
  exact h g id₁ id₂ item₁ item₂ (hitems g id₁ item₁ h₁) (hitems g id₂ item₂ h₂) hkey

section
variable [Crates]

theorem ShelfStep.distinct {r : Rules} {op : Op} {shelf : MemoryShelf}
    (h : ShelfStep r op shelf) (hd : r.shelf.Distinct) : shelf.Distinct := by
  cases h with
  | same => exact hd
  | removed hg =>
    refine hd.fewer fun g id item hitem => ?_
    rw [MemoryShelf.remove_generation] at hitem
    split at hitem
    · rename_i e
      subst e
      exact Map.get_of_get_erase hitem
    · exact hitem
  | fresh _ =>
    refine hd.fewer fun g id item hitem => ?_
    rw [MemoryShelf.stageCreate_generation] at hitem
    exact hitem
  | again _ =>
    refine hd.fewer fun g id item hitem => ?_
    rw [MemoryShelf.stageCreate_generation] at hitem
    exact hitem
  | probed _ =>
    refine hd.fewer fun g id item hitem => ?_
    rw [MemoryShelf.stageRemove_generation, MemoryShelf.stageCreate_generation] at hitem
    exact hitem
  | wrote =>
    refine hd.fewer fun g id item hitem => ?_
    rw [MemoryShelf.write_generation] at hitem
    exact hitem
  | @published caller u ticket g staged _ hticket htarget hstaged hsize hnew hstaging hitems =>
    -- the content is new to the generation
    have hclash : ∀ (id : ItemId) (item : Item), (r.shelf.generation g)[id]? = some item →
        id.contentKey ≠ ticket.request.id.contentKey := findIn_eq_none_iff.mp hnew
    have hsplit : ∀ (h : Nat) (id : ItemId) (item : Item),
        (shelf.generation h)[id]? = some item →
        (h = g ∧ id = ticket.request.id) ∨ (r.shelf.generation h)[id]? = some item := by
      intro h id item hitem
      rw [hitems] at hitem
      split at hitem
      · rename_i e
        subst e
        rw [Map.get_insert] at hitem
        split at hitem
        · rename_i hid
          exact .inl ⟨rfl, hid.symm⟩
        · exact .inr hitem
      · exact .inr hitem
    intro h id₁ id₂ item₁ item₂ h₁ h₂ hkey
    rcases hsplit h id₁ item₁ h₁ with ⟨rfl, rfl⟩ | hold₁
    · rcases hsplit h id₂ item₂ h₂ with ⟨-, rfl⟩ | hold₂
      · rfl
      · exact absurd hkey.symm (hclash id₂ item₂ hold₂)
    · rcases hsplit h id₂ item₂ h₂ with ⟨rfl, rfl⟩ | hold₂
      · exact absurd hkey (hclash id₁ item₁ hold₁)
      · exact hd h id₁ id₂ item₁ item₂ hold₁ hold₂ hkey

theorem World.Step.distinct {limits : Limits} {w w' : World} {e : Event}
    (h : World.Step limits w e w') (hd : w.shelf.Distinct) : w'.shelf.Distinct := by
  have hwrite : ∀ u content announced hashed,
      (w.shelf.write u content announced hashed).2.Distinct := by
    intro u content announced hashed
    refine hd.fewer fun g id item hitem => ?_
    rw [MemoryShelf.write_generation] at hitem
    exact hitem
  cases h with
  | done _ hchange => exact hchange.shelfStep.distinct hd
  | refused hshelf =>
    rcases hshelf with rfl | ⟨u, content, announced, hashed, rfl⟩
    · exact hd
    · exact hwrite _ _ _ _
  | cut hshelf => exact hshelf.distinct hd
  | @performed i c _ =>
    cases c with
    | removeStaging u => exact hd
    | dropGeneration d =>
      refine hd.fewer fun g id item hitem => ?_
      change ((w.shelf.dropGeneration d).generation g)[id]? = some item at hitem
      rw [MemoryShelf.dropGeneration_generation] at hitem
      split at hitem
      · rw [Std.ExtTreeMap.getElem?_empty] at hitem
        cases hitem
      · exact hitem
  | idle _ => exact hd
  | lost => exact hd
  | wroteLate => exact hwrite _ _ _ _

/-- **One item for each content key and generation**, in every state of every run. -/
theorem World.distinct_run (limits : Limits) (es : List Event) :
    (World.initial.run limits es).shelf.Distinct := by
  refine Runs.always (World.exec limits) (I := fun w => w.shelf.Distinct)
    (fun w e h => (w.exec_step limits e).distinct h) ?_ es
  intro g id₁ id₂ item₁ item₂ h₁
  rw [show World.initial.shelf.generation g = ∅ from MemoryShelf.generation_empty g,
    Std.ExtTreeMap.getElem?_empty] at h₁
  cases h₁

/-! ## What clients are told -/

end

/-- An outcome a client is told: for which generation and content key, by the commit of
which upload (none for a begin), and what. -/
structure Told where
  generation : Nat
  contentKey : Fin (2 ^ 48)
  upload : Option UploadId
  outcome : PutOutcome
  deriving DecidableEq

section
variable [Crates]

/-- The outcome an event tells a client for the first time. A commit whose outcome is
remembered is told that outcome again, and tells nothing new. -/
def World.told (limits : Limits) (w : World) : Event → List Told
  | .request call (.commitUpload caller u) =>
    match (Engine.run w limits call (.commitUpload caller u)).1,
        w.record.liveTicket call.now caller u with
    | .ok (.outcome o), some ticket =>
      match w.record.uploadTarget caller ticket.request with
      | .ok g => [⟨g, ticket.request.id.contentKey, some u, o⟩]
      | .error _ => []
    | _, _ => []
  | .request call (.beginUpload caller request) =>
    match (Engine.run w limits call (.beginUpload caller request)).1,
        w.record.uploadTarget caller request with
    | .ok (.begun (.stored o)), .ok g => [⟨g, request.id.contentKey, none, o⟩]
    | _, _ => []
  | _ => []

/-- The outcomes told in a whole run. -/
def World.toldIn (limits : Limits) : World → List Event → List Told :=
  Runs.history (World.exec limits) (World.told limits)

/-- Where an outcome that is told comes from. -/
theorem World.mem_told {limits : Limits} {w : World} {e : Event} {t : Told}
    (h : t ∈ w.told limits e) :
    (∃ call caller u ticket, e = .request call (.commitUpload caller u) ∧
      (Engine.run w limits call (.commitUpload caller u)).1 = .ok (.outcome t.outcome) ∧
      w.record.liveTicket call.now caller u = some ticket ∧
      w.record.Targets caller ticket.request t.generation ∧
      t.contentKey = ticket.request.id.contentKey ∧ t.upload = some u) ∨
    (∃ call caller request, e = .request call (.beginUpload caller request) ∧
      (Engine.run w limits call (.beginUpload caller request)).1 =
        .ok (.begun (.stored t.outcome)) ∧
      w.record.Targets caller request t.generation ∧
      t.contentKey = request.id.contentKey ∧ t.upload = none) := by
  unfold told at h
  split at h
  · rename_i call caller u
    split at h
    · rename_i o ticket hrun hticket
      split at h
      · rename_i g hg
        rw [List.mem_singleton] at h
        subst h
        exact .inl ⟨call, caller, u, ticket, rfl, hrun, hticket,
          WorkspaceRecord.uploadTarget_ok hg, rfl, rfl⟩
      · cases h
    · cases h
  · rename_i call caller request
    split at h
    · rename_i o g hrun hg
      rw [List.mem_singleton] at h
      subst h
      exact .inr ⟨call, caller, request, rfl, hrun, WorkspaceRecord.uploadTarget_ok hg, rfl, rfl⟩
    · cases h
  · cases h

/-- A commit that is answered and held a ticket tells its outcome. -/
theorem World.told_of_commit {limits : Limits} {w : World} {call : Call} {caller : Caller}
    {u : UploadId} {ticket : Ticket} {g : Nat} {o : PutOutcome}
    (hrun : (Engine.run w limits call (.commitUpload caller u)).1 = .ok (.outcome o))
    (hticket : w.record.liveTicket call.now caller u = some ticket)
    (htarget : w.record.Targets caller ticket.request g) :
    ⟨g, ticket.request.id.contentKey, some u, o⟩ ∈
      w.told limits (.request call (.commitUpload caller u)) := by
  simp only [told]
  rw [hrun, hticket]
  simp only
  rw [htarget.goes]
  exact List.mem_singleton_self _

/-- So does a begin that is answered with an item. -/
theorem World.told_of_begin {limits : Limits} {w : World} {call : Call} {caller : Caller}
    {request : UploadRequest} {g : Nat} {o : PutOutcome}
    (hrun : (Engine.run w limits call (.beginUpload caller request)).1 = .ok (.begun (.stored o)))
    (htarget : w.record.Targets caller request g) :
    ⟨g, request.id.contentKey, none, o⟩ ∈
      w.told limits (.request call (.beginUpload caller request)) := by
  simp only [told]
  rw [hrun, htarget.goes]
  exact List.mem_singleton_self _

end

/-- An upload goes to one place. -/
theorem WorkspaceRecord.Targets.unique {rec : WorkspaceRecord} {caller : Caller}
    {request : UploadRequest} {g g' : Nat} (h : rec.Targets caller request g)
    (h' : rec.Targets caller request g') : g = g' := by
  have hboth := h.goes.symm.trans h'.goes
  cases hboth
  rfl

/-! ## Who published what -/

/-- A publish: which upload made which item of which generation. -/
structure Publish where
  generation : Nat
  id : ItemId
  upload : UploadId

/-- The generation a request may still go to, given that its upload's staging place is
gone. -/
structure WorkspaceRecord.LeadsTo (rec : WorkspaceRecord) (request : UploadRequest) (g : Nat) :
    Prop where
  staged : request.inRewrite = true → rec.stagedGeneration = some g
  ordinary : request.inRewrite = false → request.expectedKeyId = rec.keyId → g = rec.generation

/-- Where a request goes is where it leads. -/
theorem WorkspaceRecord.Targets.leadsTo {rec : WorkspaceRecord} {caller : Caller}
    {request : UploadRequest} {g : Nat} (h : rec.Targets caller request g) :
    rec.LeadsTo request g := by
  cases h with
  | staged session hstate hin _ _ =>
    refine ⟨fun _ => stagedGeneration_of_rewriting hstate, fun hout => ?_⟩
    rw [hin] at hout
    cases hout
  | current sealed hstate hin _ =>
    refine ⟨fun hout => ?_, fun _ _ => rfl⟩
    rw [hin] at hout
    cases hout

theorem WorkspaceRecord.LeadsTo.eq_of_targets {rec : WorkspaceRecord} {caller : Caller}
    {request : UploadRequest} {g g' : Nat} (h : rec.LeadsTo request g)
    (htarget : rec.Targets caller request g') : g = g' := by
  cases htarget with
  | staged session hstate hin _ _ =>
    have hs := h.staged hin
    rw [stagedGeneration_of_rewriting hstate] at hs
    exact (Option.some.inj hs).symm
  | current sealed hstate hin hkey =>
    exact h.ordinary hin (hkey.trans (keyId_of_settled hstate).symm)

/-- The publishes so far account for the shelf, for the tickets whose staging place is
gone, and for what was told. -/
structure Traced (pubs : Publish → Prop) (log : List Told) (rec : WorkspaceRecord)
    (shelf : MemoryShelf) : Prop where
  /-- Every item was published. -/
  item : ∀ (g : Nat) (id : ItemId) (item : Item), (shelf.generation g)[id]? = some item →
    ∃ u, pubs ⟨g, id, u⟩
  /-- What was published to a live generation is there. -/
  present : ∀ p, pubs p → p.generation ∈ rec.liveGenerations →
    ∃ item, (shelf.generation p.generation)[p.id]? = some item
  numbered : ∀ p, pubs p → p.generation < rec.nextGeneration
  /-- A content key was published once per generation. -/
  once : ∀ p q, pubs p → pubs q → p.generation = q.generation →
    p.id.contentKey = q.id.contentKey → p = q
  /-- A ticket without a staging place has published its item where it leads. -/
  gone : ∀ (u : UploadId) (ticket : Ticket), rec.tickets[u]? = some ticket →
    shelf.staging[u]? = none →
      ∃ g, pubs ⟨g, ticket.request.id, u⟩ ∧ rec.LeadsTo ticket.request g
  /-- What was told names a publish, and its upload if it says so. -/
  told : ∀ t ∈ log, ∃ v, pubs ⟨t.generation, t.outcome.id, v⟩ ∧
    t.outcome.id.contentKey = t.contentKey ∧ (t.outcome.created = true → t.upload = some v)
  /-- What is remembered was told. -/
  stones : ∀ (u : UploadId) (stone : Tombstone), rec.tombstones[u]? = some stone →
    ∃ t ∈ log, t.upload = some u ∧ t.outcome = stone.outcome

namespace Traced

variable {pubs : Publish → Prop} {log : List Told} {rec : WorkspaceRecord}
  {shelf shelf' : MemoryShelf}

/-- Items of live generations stay, others may go, and no staging place of a ticket
goes. -/
theorem fewer (h : Traced pubs log rec shelf)
    (hitems : ∀ (g : Nat) (id : ItemId) (item : Item), (shelf'.generation g)[id]? = some item →
      (shelf.generation g)[id]? = some item)
    (hlive : ∀ g ∈ rec.liveGenerations, shelf'.generation g = shelf.generation g)
    (hstaging : ∀ (u : UploadId) (ticket : Ticket), rec.tickets[u]? = some ticket →
      shelf'.staging[u]? = none → shelf.staging[u]? = none) :
    Traced pubs log rec shelf' where
  item := fun g id item hitem => h.item g id item (hitems g id item hitem)
  present := by
    intro p hp hg
    rw [hlive _ hg]
    exact h.present p hp hg
  numbered := h.numbered
  once := h.once
  gone := fun u ticket hticket hgone => h.gone u ticket hticket (hstaging u ticket hticket hgone)
  told := h.told
  stones := h.stones

/-- A write changes no item and takes no staging place. -/
theorem wrote [Crates] (h : Traced pubs log rec shelf) (u : UploadId) (content : Source)
    (announced : Nat) (hashed : Bool) :
    Traced pubs log rec (shelf.write u content announced hashed).2 := by
  refine h.fewer ?_ (fun g _ => MemoryShelf.write_generation ..) ?_
  · intro g id item hitem
    rw [MemoryShelf.write_generation] at hitem
    exact hitem
  · intro v ticket _ hgone
    rw [MemoryShelf.write_staging_eq_none] at hgone
    exact hgone

/-- A publish is added. -/
theorem published (h : Traced pubs log rec shelf) (hl : rec.Layout) {caller : Caller}
    {u : UploadId} {ticket : Ticket} {g : Nat} {item : Item}
    (hticket : rec.tickets[u]? = some ticket)
    (htarget : rec.Targets caller ticket.request g)
    (hnew : findIn shelf g ticket.request.id.contentKey = none)
    (hstaging : shelf'.staging = shelf.staging.erase u)
    (hitems : ∀ h, shelf'.generation h =
      if g = h then (shelf.generation g).insert ticket.request.id item
      else shelf.generation h) :
    Traced (fun p => pubs p ∨ p = ⟨g, ticket.request.id, u⟩) log rec shelf' := by
  have hclash : ∀ (id : ItemId) (item : Item), (shelf.generation g)[id]? = some item →
      id.contentKey ≠ ticket.request.id.contentKey := findIn_eq_none_iff.mp hnew
  -- a publish of the same content to this generation would still be there
  have honce : ∀ p, pubs p → p.generation = g →
      p.id.contentKey ≠ ticket.request.id.contentKey := by
    intro p hp hg hkey
    obtain ⟨item, hitem⟩ := h.present p hp (hg ▸ htarget.live)
    rw [hg] at hitem
    exact hclash p.id item hitem hkey
  refine ⟨?_, ?_, ?_, ?_, ?_, ?_, h.stones⟩
  · intro g' id item' hitem
    rw [hitems] at hitem
    split at hitem
    · rename_i e
      subst e
      rw [Map.get_insert] at hitem
      split at hitem
      · rename_i hid
        subst hid
        exact ⟨u, .inr rfl⟩
      · obtain ⟨v, hv⟩ := h.item g id item' hitem
        exact ⟨v, .inl hv⟩
    · obtain ⟨v, hv⟩ := h.item g' id item' hitem
      exact ⟨v, .inl hv⟩
  · rintro p (hp | rfl) hg
    · obtain ⟨item', hitem⟩ := h.present p hp hg
      rw [hitems]
      by_cases e : g = p.generation
      · have hid : ticket.request.id ≠ p.id := by
          intro hid
          exact honce p hp e.symm (by rw [hid])
        refine ⟨item', ?_⟩
        rw [if_pos e, Map.get_insert_of_ne _ _ hid, e]
        exact hitem
      · rw [if_neg e]
        exact ⟨item', hitem⟩
    · refine ⟨item, ?_⟩
      rw [hitems, if_pos rfl, Map.get_insert_self]
  · rintro p (hp | rfl)
    · exact h.numbered p hp
    · exact hl.live_lt _ htarget.live
  · rintro p q (hp | rfl) (hq | rfl) hg hkey
    · exact h.once p q hp hq hg hkey
    · exact absurd hkey (honce p hp hg)
    · exact absurd hkey.symm (honce q hq hg.symm)
    · rfl
  · intro v ticket' hticket' hgone
    by_cases e : u = v
    · subst e
      rw [hticket] at hticket'
      cases hticket'
      exact ⟨g, .inr rfl, htarget.leadsTo⟩
    · rw [hstaging, Map.get_erase_of_ne _ e] at hgone
      obtain ⟨g', hpub, hleads⟩ := h.gone v ticket' hticket' hgone
      exact ⟨g', .inl hpub, hleads⟩
  · intro t ht
    obtain ⟨v, hpub, hrest⟩ := h.told t ht
    exact ⟨v, .inl hpub, hrest⟩

end Traced

section
variable [Crates]

/-- The publishes after the shelf step of an operation that deletes nothing. -/
theorem Traced.shelfStep {pubs : Publish → Prop} {log : List Told} {past : List UploadId}
    {r : Rules} {op : Op} {shelf : MemoryShelf} (h : Traced pubs log r.record r.shelf)
    (hl : r.record.Layout)
    (hpast : ∀ (u : UploadId) (ticket : Ticket), r.record.tickets[u]? = some ticket → u ∈ past)
    (hnever : (past ++ op.minted r).Nodup) (hs : ShelfStep r op shelf)
    (hkeep : ∀ caller partition id expected, op ≠ .deleteItem caller partition id expected) :
    ∃ pubs' : Publish → Prop, (∀ p, pubs p → pubs' p) ∧ Traced pubs' log r.record shelf := by
  have hcreate : ∀ v, Traced pubs log r.record (r.shelf.stageCreate v) := by
    intro v
    refine h.fewer ?_ (fun g _ => r.shelf.stageCreate_generation v g) ?_
    · intro g id item hitem
      rw [MemoryShelf.stageCreate_generation] at hitem
      exact hitem
    · intro u ticket _ hgone
      rw [MemoryShelf.stageCreate_staging] at hgone
      split at hgone
      · cases hgone
      · exact hgone
  cases hs with
  | same => exact ⟨pubs, fun _ => id, h⟩
  | removed hg => exact absurd rfl (hkeep _ _ _ _)
  | fresh _ => exact ⟨pubs, fun _ => id, hcreate _⟩
  | again _ => exact ⟨pubs, fun _ => id, hcreate _⟩
  | @probed _ v hminted =>
    refine ⟨pubs, fun _ => id, (hcreate v).fewer (fun _ _ _ => id) (fun _ _ => rfl) ?_⟩
    intro u ticket hticket hgone
    -- the probe's id is new, so no ticket has it
    have hne : v ≠ u := by
      rintro rfl
      rw [hminted] at hnever
      exact (List.nodup_append.mp hnever).2.2 v (hpast v ticket hticket) v
        (List.mem_singleton_self _) rfl
    rw [MemoryShelf.stageRemove_staging, if_neg hne] at hgone
    exact hgone
  | wrote => exact ⟨pubs, fun _ => id, h.wrote _ _ _ _⟩
  | published hticket htarget hstaged hsize hnew hstaging hitems =>
    exact ⟨_, fun _ => .inl, h.published hl (WorkspaceRecord.liveTicket_eq_some hticket).1
      htarget hnew hstaging hitems⟩

end

/-! ## The record's part -/

/-- The condition under which a commit of a rewrite keeps uploads and items together: no
ordinary upload made under the key it brings in is waiting with its staging place gone. -/
def World.switchClears (w : World) : Event → Bool
  | .request _ (.commitRewrite caller newKeyId) =>
    match w.record.heldSession caller with
    | .error _ => true
    | .ok session =>
      if caller.role = .readWrite ∧ session.next.keyId = newKeyId ∧
          (w.shelf.ids session.stagedGeneration).length =
            (w.shelf.ids w.record.generation).length then
        w.record.tickets.toList.all fun e =>
          e.2.request.inRewrite || e.2.request.expectedKeyId ≠ some newKeyId ||
            w.shelf.staging.contains e.1
      else true
  | _ => true

/-- The same condition for one upload. -/
def World.switchSpares (u : UploadId) (w : World) : Event → Bool
  | .request _ (.commitRewrite caller newKeyId) =>
    match w.record.heldSession caller with
    | .error _ => true
    | .ok session =>
      if caller.role = .readWrite ∧ session.next.keyId = newKeyId ∧
          (w.shelf.ids session.stagedGeneration).length =
            (w.shelf.ids w.record.generation).length then
        match w.record.tickets[u]? with
        | none => true
        | some ticket =>
          ticket.request.inRewrite || ticket.request.expectedKeyId ≠ some newKeyId ||
            w.shelf.staging.contains u
      else true
  | _ => true

theorem World.switchSpares_of_clears {w : World} {e : Event} (h : w.switchClears e = true)
    (u : UploadId) : w.switchSpares u e = true := by
  unfold switchSpares
  split
  · next call caller newKeyId =>
    cases hheld : w.record.heldSession caller with
    | error e => rfl
    | ok session =>
      dsimp only
      split_ifs with hgoes
      · simp only [switchClears, hheld] at h
        rw [if_pos hgoes, List.all_eq_true] at h
        cases hticket : w.record.tickets[u]? with
        | none => rfl
        | some ticket => exact h (u, ticket) (Map.mem_toList_iff.mpr hticket)
      · rfl
  · rfl

section
variable [Crates] {r : Rules} {op : Op} {a : Answer} {rec : WorkspaceRecord}
  {shelf : MemoryShelf} {after : List Cleanup}

/-- A ticket without a staging place after a change is an old one. -/
theorem Change.old_ticket (h : Change r op a rec shelf after) {u : UploadId} {ticket : Ticket}
    (hticket : rec.tickets[u]? = some ticket) (hgone : shelf.staging[u]? = none) :
    r.record.tickets[u]? = some ticket := by
  cases h with
  | @begun caller request g v htarget hnew hquota hknown hminted _ =>
    change (r.record.tickets.insert v _)[u]? = some ticket at hticket
    have hne : v ≠ u := by
      rintro rfl
      rw [MemoryShelf.stageCreate_staging, if_pos rfl] at hgone
      cases hgone
    rw [Map.get_insert_of_ne _ _ hne] at hticket
    exact hticket
  | stored _ _ => exact Map.get_of_get_filter hticket
  | duplicate _ _ _ _ => exact Map.get_of_get_erase hticket
  | published _ _ _ _ _ _ _ => exact Map.get_of_get_erase hticket
  | recovered _ _ _ _ _ => exact Map.get_of_get_erase hticket
  | aborted => exact Map.get_of_get_filter hticket
  | switched _ _ _ _ _ => exact Map.get_of_get_filter hticket
  | restored _ => exact Map.get_of_get_filter hticket
  | cleaned => exact Map.get_of_get_filter hticket
  | reconciled => exact Map.get_of_get_filter hticket
  | _ => exact hticket

/-- **A ticket without a staging place still leads to where it published**, over every
change that keeps to the condition. -/
theorem Change.leadsTo (h : Change r op a rec shelf after) (hf : r.record.TicketsFit)
    {u : UploadId} (hspares : ∀ call pending,
      World.switchSpares u ⟨r.record, r.shelf, pending⟩ (.request call op) = true)
    {ticket : Ticket} (hticket : rec.tickets[u]? = some ticket)
    (hgone : shelf.staging[u]? = none) {g : Nat}
    (hleads : r.record.LeadsTo ticket.request g) : rec.LeadsTo ticket.request g := by
  have hold := h.old_ticket hticket hgone
  -- before a workspace is sealed no upload is made under a key
  have hunsealed : r.record.state = .settled none → ∀ key : KeyId,
      ticket.request.inRewrite = false → ticket.request.expectedKeyId ≠ some key := by
    intro hstate key hin hkey
    rw [hf.plaintext (WorkspaceRecord.seal?_of_settled hstate) u ticket hold hin] at hkey
    cases hkey
  have hordinary : ∀ sealed, r.record.state = .settled sealed →
      ticket.request.inRewrite ≠ true := by
    intro sealed hstate hin
    rw [hf.settled sealed hstate u ticket hold] at hin
    cases hin
  cases h with
  | sealed hstate _ =>
    exact ⟨fun hin => absurd hin (hordinary _ hstate),
      fun hin hkey => absurd hkey (hunsealed hstate _ hin)⟩
  | setAside hstate =>
    exact ⟨fun hin => absurd hin (hordinary _ hstate),
      fun hin hkey => absurd hkey (hunsealed hstate _ hin)⟩
  | reheaded hstate =>
    refine ⟨fun hin => absurd hin (hordinary _ hstate), fun hin hkey => ?_⟩
    exact hleads.ordinary hin (hkey.trans (WorkspaceRecord.keyId_of_settled hstate).symm)
  | opened hstate _ _ _ =>
    refine ⟨fun hin => absurd hin (hordinary _ hstate), fun hin hkey => ?_⟩
    exact hleads.ordinary hin (hkey.trans (WorkspaceRecord.keyId_of_settled hstate).symm)
  | renewed hstate =>
    refine ⟨fun hin => ?_, fun hin hkey => ?_⟩
    · have hs := hleads.staged hin
      rw [WorkspaceRecord.stagedGeneration_of_rewriting hstate] at hs
      exact hs
    · exact hleads.ordinary hin (hkey.trans (WorkspaceRecord.keyId_of_rewriting hstate).symm)
  | @switched caller newKeyId _ session hstate hwrite hheld hkey hcount =>
    have hin : ticket.request.inRewrite = false := by
      simpa using (Map.get_filter_eq_some.mp hticket).2
    refine ⟨fun hin' => ?_, fun _ hexpected => ?_⟩
    · rw [hin] at hin'
      cases hin'
    · -- the upload would be waiting under the key that comes in
      have hone := hspares ⟨0, []⟩ []
      simp only [World.switchSpares, hheld, hold] at hone
      rw [if_pos ⟨hwrite, hkey, hcount⟩] at hone
      have hstaging : r.shelf.staging.contains u = false := Map.contains_eq_false_iff.mpr hgone
      have hnew : ticket.request.expectedKeyId = some newKeyId := by
        rw [← hkey]
        exact hexpected
      simp [hin, hstaging, hnew] at hone
  | restored hstate =>
    have hin : ticket.request.inRewrite = false := by
      simpa using (Map.get_filter_eq_some.mp hticket).2
    refine ⟨fun hin' => ?_, fun _ hkey => ?_⟩
    · rw [hin] at hin'
      cases hin'
    · exact hleads.ordinary hin (hkey.trans (WorkspaceRecord.keyId_of_rewriting hstate).symm)
  | _ => exact ⟨hleads.staged, hleads.ordinary⟩

/-- What a change newly remembers, it tells. -/
theorem Change.stone (h : Change r op a rec shelf after) {u : UploadId} {stone : Tombstone}
    (hstone : rec.tombstones[u]? = some stone) :
    r.record.tombstones[u]? = some stone ∨
      ∃ caller ticket g, op = .commitUpload caller u ∧ a = .outcome stone.outcome ∧
        r.record.liveTicket r.now caller u = some ticket ∧
        r.record.Targets caller ticket.request g := by
  have hfinished : ∀ {caller : Caller} {v : UploadId} {ticket : Ticket} {g : Nat}
      (id : ItemId) (created : Bool),
      op = .commitUpload caller v → a = .outcome ⟨id, created, ticket.request.inRewrite⟩ →
      r.record.liveTicket r.now caller v = some ticket →
      r.record.Targets caller ticket.request g →
      (r.record.tombstones.insert v (r.stone ticket id created))[u]? = some stone →
      r.record.tombstones[u]? = some stone ∨
        ∃ caller ticket g, op = .commitUpload caller u ∧ a = .outcome stone.outcome ∧
          r.record.liveTicket r.now caller u = some ticket ∧
          r.record.Targets caller ticket.request g := by
    intro caller v ticket g id created hop ha hticket htarget hget
    rw [Map.get_insert] at hget
    split at hget
    · rename_i e
      subst e
      cases hget
      exact .inr ⟨caller, ticket, g, hop, ha, hticket, htarget⟩
    · exact .inl hget
  cases h with
  | duplicate hticket htarget _ _ => exact hfinished _ _ rfl rfl hticket htarget hstone
  | published hticket htarget _ _ _ _ _ => exact hfinished _ _ rfl rfl hticket htarget hstone
  | recovered hticket htarget _ _ _ => exact hfinished _ _ rfl rfl hticket htarget hstone
  | cleaned => exact .inl (Map.get_of_get_filter hstone)
  | reconciled => exact .inl (Map.get_of_get_filter hstone)
  | _ => exact .inl hstone

/-- A change, made on a shelf whose step is accounted for, is accounted for. -/
theorem Traced.change {pubs : Publish → Prop} {log told : List Told}
    (ht : Traced pubs log r.record shelf) (h : Change r op a rec shelf after)
    (hf : r.record.TicketsFit)
    (hclears : ∀ call pending,
      World.switchClears ⟨r.record, r.shelf, pending⟩ (.request call op) = true)
    (htold : ∀ t ∈ told, ∃ v, pubs ⟨t.generation, t.outcome.id, v⟩ ∧
      t.outcome.id.contentKey = t.contentKey ∧ (t.outcome.created = true → t.upload = some v))
    (hstones : ∀ caller u ticket g o, op = .commitUpload caller u → a = .outcome o →
      r.record.liveTicket r.now caller u = some ticket →
      r.record.Targets caller ticket.request g →
      ∃ t ∈ told, t.upload = some u ∧ t.outcome = o) :
    Traced pubs (log ++ told) rec shelf where
  item := ht.item
  present := by
    intro p hp hlive
    rcases h.move.live hlive with hold | hnext
    · exact ht.present p hp hold
    · exact absurd (ht.numbered p hp) (by omega)
  numbered := fun p hp => Nat.lt_of_lt_of_le (ht.numbered p hp) h.move.nextGeneration_le
  once := ht.once
  gone := by
    intro u ticket hticket hgone
    obtain ⟨g, hpub, hleads⟩ := ht.gone u ticket (h.old_ticket hticket hgone) hgone
    have hspares := fun call pending => World.switchSpares_of_clears (hclears call pending) u
    exact ⟨g, hpub, h.leadsTo hf hspares hticket hgone hleads⟩
  told := by
    intro t hmem
    rcases List.mem_append.mp hmem with hmem | hmem
    · exact ht.told t hmem
    · exact htold t hmem
  stones := by
    intro u stone hstone
    rcases h.stone hstone with hold | ⟨caller, ticket, g, hop, ha, hticket, htarget⟩
    · obtain ⟨t, hmem, hrest⟩ := ht.stones u stone hold
      exact ⟨t, List.mem_append_left _ hmem, hrest⟩
    · obtain ⟨t, hmem, hrest⟩ := hstones caller u ticket g stone.outcome hop ha hticket htarget
      exact ⟨t, List.mem_append_right _ hmem, hrest⟩

/-- A commit that held a ticket answers an item that was published where it goes, and
says so only if it published it. -/
theorem Change.commit_told {pubs pubs' : Publish → Prop} {log : List Told} {caller : Caller}
    {u : UploadId} {ticket : Ticket} {g : Nat} {o : PutOutcome}
    (h : Change r (.commitUpload caller u) (.outcome o) rec shelf after)
    (hapart : r.record.Apart) (hold : Traced pubs log r.record r.shelf)
    (hnew : Traced pubs' log r.record shelf) (hsub : ∀ p, pubs p → pubs' p)
    (hticket : r.record.liveTicket r.now caller u = some ticket)
    (htarget : r.record.Targets caller ticket.request g) :
    ∃ v, pubs' ⟨g, o.id, v⟩ ∧ o.id.contentKey = ticket.request.id.contentKey ∧
      (o.created = true → some u = some v) := by
  obtain ⟨hget, howner, hlive⟩ := WorkspaceRecord.liveTicket_eq_some hticket
  cases h with
  | @replayed _ _ stone hstone =>
    -- an upload with a ticket has no outcome yet
    have hsome := (Option.filter_eq_some_iff.mp hstone).1
    rw [hapart u stone hsome] at hget
    cases hget
  | duplicate hticket' htarget' _ hfound =>
    rw [hticket] at hticket'
    cases hticket'
    obtain ⟨⟨item, hitem⟩, hkey⟩ := findIn_eq_some hfound
    rw [htarget'.unique htarget] at hitem
    obtain ⟨v, hv⟩ := hold.item g _ item hitem
    exact ⟨v, hsub _ hv, hkey, fun hc => (by cases hc)⟩
  | @published _ _ _ g' staged _ hticket' htarget' hstaged _ _ hstaging _ =>
    rw [hticket] at hticket'
    cases hticket'
    -- the publish took the staging place, so it is on record where it leads
    have hgone : shelf.staging[u]? = none := by
      rw [hstaging, Map.get_erase_self]
    obtain ⟨g'', hpub, hleads⟩ := hnew.gone u ticket hget hgone
    rw [hleads.eq_of_targets htarget] at hpub
    exact ⟨u, hpub, rfl, fun _ => rfl⟩
  | recovered hticket' _ hgone _ _ =>
    rw [hticket] at hticket'
    cases hticket'
    obtain ⟨g'', hpub, hleads⟩ := hold.gone u ticket hget hgone
    rw [hleads.eq_of_targets htarget] at hpub
    exact ⟨u, hsub _ hpub, rfl, fun _ => rfl⟩

end

/-- Whether an event is a deletion, done or cut. -/
def Event.deletes : Event → Bool
  | .request _ (.deleteItem ..) | .cut _ (.deleteItem ..) _ => true
  | _ => false

namespace World

variable [Crates] {limits : Limits} {past : List UploadId} {log : List Told} {w w' : World}
  {e : Event}

/-- What holds between the events of a run that deletes nothing, makes up no id twice
and brings back no key an upload is waiting under. -/
structure Deduped (past : List UploadId) (log : List Told) (w : World) : Prop where
  laid : w.Laid
  tracked : w.Tracked past
  fit : w.record.TicketsFit
  apart : w.record.Apart
  traced : ∃ pubs, Traced pubs log w.record w.shelf

/-- What a completed operation tells is accounted for. -/
theorem Deduped.done {call : Call} {op : Op} {a : Answer} {rec : WorkspaceRecord}
    {shelf : MemoryShelf} {after : List Cleanup} (h : Deduped past log w)
    (hkeep : (Event.request call op).deletes = false)
    (hclears : w.switchClears (.request call op) = true)
    (hnever : (past ++ op.minted (w.rules limits call)).Nodup)
    (hanswer : (Engine.run w limits call op).1 = .ok a)
    (hchange : Change (w.rules limits call) op a rec shelf after) :
    ∃ pubs, Traced pubs (log ++ w.told limits (.request call op)) rec shelf := by
  obtain ⟨pubs, htraced⟩ := h.traced
  have hnodelete : ∀ caller partition id expected,
      op ≠ .deleteItem caller partition id expected := by
    rintro caller partition id expected rfl
    cases hkeep
  obtain ⟨pubs', hsub, hshelf⟩ := Traced.shelfStep (r := w.rules limits call) htraced
    h.laid.layout h.tracked.ticket hnever hchange.shelfStep hnodelete
  have hclears' : ∀ call' pending,
      switchClears ⟨w.record, w.shelf, pending⟩ (.request call' op) = true := by
    intro call' pending
    cases op with
    | commitRewrite caller newKeyId => exact hclears
    | _ => rfl
  refine ⟨pubs', hshelf.change hchange h.fit hclears' ?_ ?_⟩
  · intro t ht
    rcases mem_told ht with ⟨call', caller, u, ticket, he, hrun, hticket, htarget, hkey, hupload⟩ |
      ⟨call', caller, request, he, hrun, htarget, hkey, hupload⟩
    · cases he
      rw [hanswer] at hrun
      cases hrun
      obtain ⟨v, hpub, hcontent, hcreated⟩ :=
        hchange.commit_told h.apart htraced hshelf hsub hticket htarget
      exact ⟨v, hpub, hcontent.trans hkey.symm, fun hc => hupload.trans (hcreated hc)⟩
    · cases he
      rw [hanswer] at hrun
      cases hrun
      -- a begin that is told of an item found it on the shelf
      obtain ⟨tg, tk, tu, out⟩ := t
      cases hchange with
      | stored htarget' hfound =>
        obtain ⟨⟨item, hitem⟩, hcontent⟩ := findIn_eq_some hfound
        rw [htarget'.unique htarget] at hitem
        obtain ⟨v, hv⟩ := htraced.item tg _ item hitem
        exact ⟨v, hsub _ hv, hcontent.trans hkey.symm, fun hc => (by cases hc)⟩
  · rintro caller u ticket g o rfl rfl hticket htarget
    exact ⟨_, told_of_commit hanswer hticket htarget, rfl, rfl⟩

/-- A refusal tells nothing. -/
theorem told_of_error {call : Call} {op : Op} {error : ApiError}
    (h : (Engine.run w limits call op).1 = .error error) :
    w.told limits (.request call op) = [] := by
  refine List.eq_nil_iff_forall_not_mem.mpr fun t ht => ?_
  rcases mem_told ht with ⟨call', caller, u, ticket, he, hrun, -⟩ |
    ⟨call', caller, request, he, hrun, -⟩
  · cases he
    rw [h] at hrun
    cases hrun
  · cases he
    rw [h] at hrun
    cases hrun

/-- The shelf step of an operation that is refused or cut is accounted for. -/
theorem Deduped.shelfStep {call : Call} {op : Op} {shelf : MemoryShelf} (h : Deduped past log w)
    (hnever : (past ++ op.minted (w.rules limits call)).Nodup)
    (hshelf : ShelfStep (w.rules limits call) op shelf)
    (hkeep : ∀ caller partition id expected, op ≠ .deleteItem caller partition id expected) :
    ∃ pubs, Traced pubs log w.record shelf := by
  obtain ⟨pubs, htraced⟩ := h.traced
  obtain ⟨pubs', -, hnew⟩ := Traced.shelfStep (r := w.rules limits call) htraced h.laid.layout
    h.tracked.ticket hnever hshelf hkeep
  exact ⟨pubs', hnew⟩

omit [Crates] in
/-- So is a clean-up: it drops what is dead and removes what has no ticket. -/
theorem Deduped.performed (h : Deduped past log w) {c : Cleanup} (hc : c ∈ w.pending) :
    ∃ pubs, Traced pubs log w.record (c.perform w.shelf) := by
  obtain ⟨pubs, htraced⟩ := h.traced
  refine ⟨pubs, ?_⟩
  cases c with
  | dropGeneration d =>
    have hdead := (h.laid.dropsDead d hc).1
    refine htraced.fewer ?_ ?_ (fun _ _ _ hgone => hgone)
    · intro g id item hitem
      change ((w.shelf.dropGeneration d).generation g)[id]? = some item at hitem
      rw [MemoryShelf.dropGeneration_generation] at hitem
      split at hitem
      · rw [Std.ExtTreeMap.getElem?_empty] at hitem
        cases hitem
      · exact hitem
    · intro g hg
      have hne : d ≠ g := by
        rintro rfl
        exact hdead hg
      show (w.shelf.dropGeneration d).generation g = _
      rw [MemoryShelf.dropGeneration_generation, if_neg hne]
  | removeStaging v =>
    refine htraced.fewer (fun _ _ _ hitem => hitem) (fun _ _ => rfl) ?_
    intro u ticket hticket hgone
    have hne : v ≠ u := by
      rintro rfl
      rw [(h.tracked.removal v hc).2] at hticket
      cases hticket
    change (w.shelf.stageRemove v).staging[u]? = none at hgone
    rw [MemoryShelf.stageRemove_staging, if_neg hne] at hgone
    exact hgone

/-- **One event.** -/
theorem Deduped.traced_exec (h : Deduped past log w) (hkeep : e.deletes = false)
    (hclears : w.switchClears e = true) (hnever : (past ++ w.minted limits e).Nodup) :
    ∃ pubs, Traced pubs (log ++ w.told limits e) (w.exec limits e).record
      (w.exec limits e).shelf := by
  cases e with
  | request call op =>
    show ∃ pubs, Traced pubs _ (Engine.run w limits call op).2.record
      (Engine.run w limits call op).2.shelf
    rcases Engine.run_cases w limits call op with
      ⟨a, rec, shelf, after, hchange, hrun⟩ | ⟨error, shelf, hshelf, hrun⟩
    · rw [hrun]
      exact h.done hkeep hclears hnever (by rw [hrun]) hchange
    · rw [told_of_error (by rw [hrun]), List.append_nil, hrun]
      have hstep : ShelfStep (w.rules limits call) op shelf := by
        rcases hshelf with rfl | ⟨u, content, announced, hashed, rfl⟩
        · exact .same
        · exact .wrote
      refine h.shelfStep hnever hstep ?_
      rintro caller partition id expected rfl
      cases hkeep
  | cut call op steps =>
    show ∃ pubs, Traced pubs (log ++ []) w.record (op.cutShelf (w.rules limits call) steps)
    rw [List.append_nil]
    refine h.shelfStep hnever (Op.cut rfl steps) ?_
    rintro caller partition id expected rfl
    cases hkeep
  | cleanup i =>
    show ∃ pubs, Traced pubs (log ++ []) _ _
    rw [List.append_nil]
    simp only [exec]
    split
    · rename_i c hpending
      exact h.performed (List.mem_of_getElem? hpending)
    · exact h.traced
  | lose i =>
    show ∃ pubs, Traced pubs (log ++ []) w.record w.shelf
    rw [List.append_nil]
    exact h.traced
  | lateWrite u content announced hashed =>
    show ∃ pubs, Traced pubs (log ++ []) w.record (w.shelf.write u content announced hashed).2
    rw [List.append_nil]
    obtain ⟨pubs, htraced⟩ := h.traced
    exact ⟨pubs, htraced.wrote u content announced hashed⟩

theorem Deduped.step (h : Deduped past log w) (hkeep : e.deletes = false)
    (hclears : w.switchClears e = true) (hnever : (past ++ w.minted limits e).Nodup) :
    Deduped (past ++ w.minted limits e) (log ++ w.told limits e) (w.exec limits e) where
  laid := h.laid.step (w.exec_step limits e)
  tracked := h.tracked.step hnever (w.exec_step limits e)
  fit := (w.exec_step limits e).ticketsFit h.fit
  apart := (w.exec_step limits e).apart h.apart
  traced := h.traced_exec hkeep hclears hnever

omit [Crates] in
theorem deduped_initial : Deduped [] [] initial where
  laid := laid_initial
  tracked := tracked_initial
  fit := WorkspaceRecord.ticketsFit_initial
  apart := WorkspaceRecord.apart_initial
  traced := by
    refine ⟨fun _ => False, ?_, fun _ hp => hp.elim, fun _ hp => hp.elim, fun _ _ hp => hp.elim,
      ?_, ?_, ?_⟩
    · intro g id item hitem
      rw [show initial.shelf.generation g = ∅ from MemoryShelf.generation_empty g,
        Std.ExtTreeMap.getElem?_empty] at hitem
      cases hitem
    · intro u ticket hticket
      rw [show initial.record.tickets = ∅ from rfl, Std.ExtTreeMap.getElem?_empty] at hticket
      cases hticket
    · intro t ht
      cases ht
    · intro u stone hstone
      rw [show initial.record.tombstones = ∅ from rfl, Std.ExtTreeMap.getElem?_empty] at hstone
      cases hstone

/-- **A run that deletes nothing.** -/
theorem deduped_run {es : List Event} (hkeep : ∀ e ∈ es, e.deletes = false)
    (hclears : Runs.Along (exec limits) (fun w e => w.switchClears e = true) initial es)
    (hnever : (initial.mintedIn limits es).Nodup) :
    Deduped (initial.mintedIn limits es) (initial.toldIn limits es) (initial.run limits es) :=
  Runs.logged_invariant (exec limits) (I := Deduped)
    (P := fun w e => e.deletes = false ∧ w.switchClears e = true)
    (fun _ _ _ _ h hp hpair => h.step hp.1 hp.2 hpair) deduped_initial
    (Runs.along_and _ (Runs.along_of_forall _ hkeep) hclears) hnever

/-- An outcome that is answered was told, now or before. -/
structure Heard (limits : Limits) (before : List Event) (e : Event) : Prop where
  commits : ∀ call caller u o, e = .request call (.commitUpload caller u) →
    (Engine.run (initial.run limits before) limits call (.commitUpload caller u)).1 =
      .ok (.outcome o) →
    ∃ t ∈ initial.toldIn limits (before ++ [e]), t.upload = some u ∧ t.outcome = o
  begins : ∀ call caller request o, e = .request call (.beginUpload caller request) →
    (Engine.run (initial.run limits before) limits call (.beginUpload caller request)).1 =
      .ok (.begun (.stored o)) →
    ∃ t ∈ initial.toldIn limits (before ++ [e]),
      t.contentKey = request.id.contentKey ∧ t.outcome = o

theorem toldIn_concat (limits : Limits) (es : List Event) (e : Event) :
    initial.toldIn limits (es ++ [e]) =
      initial.toldIn limits es ++ (initial.run limits es).told limits e := by
  show Runs.history _ _ _ _ = _
  rw [Runs.history_append]
  exact congrArg _ (List.append_nil _)

theorem Deduped.heard {before : List Event}
    (h : Deduped past (initial.toldIn limits before) (initial.run limits before)) :
    Heard limits before e where
  commits := by
    rintro call caller u o rfl hanswer
    rw [toldIn_concat]
    obtain ⟨rec, shelf, after, hchange, -⟩ := Engine.run_ok hanswer
    have hnow : ∀ {ticket : Ticket} {g : Nat},
        (initial.run limits before).record.liveTicket call.now caller u = some ticket →
        (initial.run limits before).record.Targets caller ticket.request g →
        ∃ t ∈ initial.toldIn limits before ++
            (initial.run limits before).told limits (.request call (.commitUpload caller u)),
          t.upload = some u ∧ t.outcome = o := fun hticket htarget =>
      ⟨_, List.mem_append_right _ (told_of_commit hanswer hticket htarget), rfl, rfl⟩
    cases hchange with
    | replayed hstone =>
      obtain ⟨pubs, htraced⟩ := h.traced
      obtain ⟨t, ht, hrest⟩ := htraced.stones u _ (Option.filter_eq_some_iff.mp hstone).1
      exact ⟨t, List.mem_append_left _ ht, hrest⟩
    | duplicate hticket htarget _ _ => exact hnow hticket htarget
    | published hticket htarget _ _ _ _ _ => exact hnow hticket htarget
    | recovered hticket htarget _ _ _ => exact hnow hticket htarget
  begins := by
    rintro call caller request o rfl hanswer
    rw [toldIn_concat]
    obtain ⟨rec, shelf, after, hchange, -⟩ := Engine.run_ok hanswer
    cases hchange with
    | @stored _ _ g _ htarget hfound =>
      refine ⟨_, List.mem_append_right _ (told_of_begin hanswer htarget), rfl, rfl⟩

/-- **Content is stored once.** In every run in which no upload id is made up twice and
no commit of a rewrite brings back a key that an upload with an unrecorded publish is
waiting under: no two items of a generation have the same content key, and, if nothing
is deleted, the outcomes told for a generation and a content key name one item and one
upload that created it. Every outcome answered is one that was told. -/
theorem dedup_run (limits : Limits) (es : List Event)
    (hnever : (initial.mintedIn limits es).Nodup)
    (hclears : Runs.Along (exec limits) (fun w e => w.switchClears e = true) initial es) :
    (initial.run limits es).shelf.Distinct ∧
      ((∀ e ∈ es, e.deletes = false) →
        (∀ s ∈ initial.toldIn limits es, ∀ t ∈ initial.toldIn limits es,
          s.generation = t.generation → s.contentKey = t.contentKey →
            s.outcome.id = t.outcome.id ∧
            (s.outcome.created = true → t.outcome.created = true → s.upload = t.upload)) ∧
        ∀ before e after, es = before ++ e :: after → Heard limits before e) := by
  refine ⟨distinct_run limits es, fun hkeep => ⟨?_, ?_⟩⟩
  · obtain ⟨pubs, htraced⟩ := (deduped_run hkeep hclears hnever).traced
    intro s hs t ht hg hkey
    obtain ⟨v, hpub, hcontent, hcreated⟩ := htraced.told s hs
    obtain ⟨v', hpub', hcontent', hcreated'⟩ := htraced.told t ht
    -- both name the one publish of this content to this generation
    have hone := htraced.once _ _ hpub hpub' hg (hcontent.trans (hkey.trans hcontent'.symm))
    injection hone with _ hid hupload
    refine ⟨hid, fun hc hc' => ?_⟩
    rw [hcreated hc, hcreated' hc', hupload]
  · rintro before e after rfl
    have hbefore : (initial.mintedIn limits before).Nodup := by
      rw [mintedIn, Runs.history_append] at hnever
      exact (List.nodup_append.mp hnever).1
    exact (deduped_run (fun e he => hkeep e (List.mem_append_left _ he))
      ((Runs.along_append _).mp hclears).1 hbefore).heard

end World

/-! ## Evaluated runs -/

namespace Sample

/-- A note is begun and sent under a key, by an upload. -/
def sending (n : Fin (2 ^ 128)) (request : UploadRequest) : List Event :=
  [.request (call 0 [n]) (.beginUpload laptop request),
    .request (call 0 []) (.putUploadContent laptop (upload n) [.piece [1, 2]])]

/-- A publish whose record is never stored, and two rewrites, the second of which brings
the note and the key back. -/
def comingBack : List Event :=
  .request (call 0 []) (.enableEncryption laptop keyA []) :: sending 1 (request 2 (some keyA)) ++
    [.cut (call 0 []) (.commitUpload laptop (upload 1)) 1,
      .request (call 0 []) (.beginRewrite laptop ⟨.rotate, some keyA, keyB, []⟩)] ++
    sending 2 (restaged 2 keyB) ++
    [.request (call 0 []) (.commitUpload laptop (upload 2)),
      .request (call 0 []) (.commitRewrite laptop keyB),
      .request (call 0 []) (.beginRewrite laptop ⟨.rotate, some keyB, keyA, []⟩)] ++
    sending 3 (restaged 2 keyA) ++
    [.request (call 0 []) (.commitUpload laptop (upload 3)),
      .request (call 0 []) (.commitRewrite laptop keyA)]

/-- The interrupted commit is sent again, before the rewrites or after them. -/
def again : Event := .request (call 0 []) (.commitUpload laptop (upload 1))

end Sample

/-- The first upload is told that it created what the third one created: its own item
was in a generation two rewrites ago. -/
theorem World.dedup_twice_created :
    (@World.mintedIn Sample.crates Sample.limits .initial
      (Sample.comingBack ++ [Sample.again])).Nodup ∧
    (∀ e ∈ Sample.comingBack ++ [Sample.again], e.deletes = false) ∧
    ∃ s ∈ @World.toldIn Sample.crates Sample.limits .initial
        (Sample.comingBack ++ [Sample.again]),
      ∃ t ∈ @World.toldIn Sample.crates Sample.limits .initial
          (Sample.comingBack ++ [Sample.again]),
        s.generation = t.generation ∧ s.contentKey = t.contentKey ∧
          s.outcome.created = true ∧ t.outcome.created = true ∧ s.upload ≠ t.upload := by
  refine ⟨by decide +kernel, by decide, ?_⟩
  refine ⟨⟨2, 7, some (Sample.upload 3), ⟨Sample.note, true, true⟩⟩, by decide +kernel,
    ⟨2, 7, some (Sample.upload 1), ⟨Sample.note, true, false⟩⟩, by decide +kernel, ?_⟩
  decide

/-- Sent again before the rewrites, the commit is told of its own item, and so is a
second upload of the same content. -/
theorem World.dedup_recovered :
    let es := Sample.comingBack.take 4 ++
      [Sample.again, .request (Sample.call 0 [2])
        (.beginUpload Sample.laptop (Sample.request 2 (some Sample.keyA)))]
    let created : Told := ⟨0, 7, some (Sample.upload 1), ⟨Sample.note, true, false⟩⟩
    let found : Told := ⟨0, 7, none, ⟨Sample.note, false, false⟩⟩
    @World.toldIn Sample.crates Sample.limits .initial es = [created, found] ∧
      ∀ t ∈ @World.toldIn Sample.crates Sample.limits .initial es, t.generation = 0 →
        t.contentKey = 7 → t.outcome.id = Sample.note ∧
          (t.outcome.created = true → t.upload = some (Sample.upload 1)) := by
  intro es created found
  have htold : @World.toldIn Sample.crates Sample.limits .initial es = [created, found] := by
    decide +kernel
  have hcreated : created ∈ @World.toldIn Sample.crates Sample.limits .initial es := by
    rw [htold]
    exact List.mem_cons_self
  refine ⟨htold, fun t ht hg hkey => ?_⟩
  obtain ⟨hid, hupload⟩ := ((@dedup_run Sample.crates Sample.limits es (by decide +kernel)
    (by decide +kernel)).2 (by decide)).1 t ht created hcreated hg hkey
  exact ⟨hid, fun hc => hupload hc rfl⟩

end Passalong
