import Passalong.Dedup

/-!
# Whose item a recovered commit finds

A commit whose staging place is gone takes the item under its id for its own: "only this
upload could move its own staging place". `originIn` says which upload's staging place an
item on the shelf was moved from, over a whole run, and a commit that answers that it
created an item is right about it (`attributed_run`) as long as no step parts the upload,
while it is waiting so, from the item it published (`keepsApart`):

- no deletion of that item;
- no commit of a rewrite that brings in the key the upload was made under;
- no removal of its staging place by another than itself, which takes a random source
  that repeats itself.
-/

namespace Passalong

open Lib

/-! ## Where an upload is aimed -/

/-- The generation an upload goes to as things stand, whoever commits it. -/
def WorkspaceRecord.aim (rec : WorkspaceRecord) (request : UploadRequest) : Option Nat :=
  if request.inRewrite then rec.stagedGeneration
  else if request.expectedKeyId = rec.keyId then some rec.generation
  else none

namespace WorkspaceRecord

variable {rec : WorkspaceRecord} {request : UploadRequest} {g : Nat}

theorem Targets.aim {caller : Caller} (h : rec.Targets caller request g) :
    rec.aim request = some g := by
  cases h with
  | staged session hstate hin _ _ =>
    rw [WorkspaceRecord.aim, if_pos hin, stagedGeneration_of_rewriting hstate]
  | current sealed hstate hin hkey =>
    rw [WorkspaceRecord.aim, if_neg (by simp [hin]), if_pos]
    exact hkey.trans (keyId_of_settled hstate).symm

/-- An upload is aimed at a live generation. -/
theorem live_of_aim (h : rec.aim request = some g) : g ∈ rec.liveGenerations := by
  rw [mem_liveGenerations]
  unfold aim at h
  split at h
  · exact .inr (.inr h)
  · split at h
    · cases h
      exact .inl rfl
    · cases h

/-- Where an upload is aimed is where it leads. -/
theorem LeadsTo.eq_of_aim {g' : Nat} (h : rec.LeadsTo request g)
    (haim : rec.aim request = some g') : g = g' := by
  unfold aim at haim
  split at haim
  · rename_i hin
    rw [h.staged hin] at haim
    exact Option.some.inj haim
  · rename_i hin
    split at haim
    · rename_i hkey
      rw [h.ordinary (by simpa using hin) hkey]
      exact Option.some.inj haim
    · cases haim

theorem leadsTo_of_aim (h : rec.aim request = some g) : rec.LeadsTo request g := by
  unfold aim at h
  constructor
  · intro hin
    rw [if_pos hin] at h
    exact h
  · intro hin hkey
    rw [if_neg (by simp [hin]), if_pos hkey] at h
    exact (Option.some.inj h).symm

end WorkspaceRecord

/-! ## Where an item comes from -/

/-- Whether an item is there. -/
def MemoryShelf.holds (s : MemoryShelf) (g : Nat) (id : ItemId) : Bool :=
  (s.generation g).contains id

section
variable [Crates]

namespace World

/-- The upload whose staging place an event takes away by its commit. -/
def moved (limits : Limits) (w : World) (e : Event) : Option UploadId :=
  match e with
  | .request _ (.commitUpload _ u) | .cut _ (.commitUpload _ u) _ =>
    if w.shelf.staging.contains u && !(w.exec limits e).shelf.staging.contains u then some u
    else none
  | _ => none

/-- One event, and the upload from whose staging place the item under `id` came: that of
the event, if the item was not there before. -/
def originStep (limits : Limits) (g : Nat) (id : ItemId) (s : World × Option UploadId)
    (e : Event) : World × Option UploadId :=
  let w' := s.1.exec limits e
  (w', if s.1.shelf.holds g id then s.2
    else if w'.shelf.holds g id then s.1.moved limits e
    else none)

/-- The upload from whose staging place the item of generation `g` that is there after a
run came. -/
def originIn (limits : Limits) (g : Nat) (id : ItemId) (es : List Event) : Option UploadId :=
  (Runs.run (originStep limits g id) (initial, none) es).2

theorem originIn_concat (limits : Limits) (g : Nat) (id : ItemId) (es : List Event) (e : Event) :
    originIn limits g id (es ++ [e]) =
      if (initial.run limits es).shelf.holds g id then originIn limits g id es
      else if (initial.run limits (es ++ [e])).shelf.holds g id then
        (initial.run limits es).moved limits e
      else none := by
  have hfst : ∀ (s : World × Option UploadId) (es : List Event),
      (Runs.run (originStep limits g id) s es).1 = s.1.run limits es := by
    intro s es
    induction es generalizing s with
    | nil => rfl
    | cons e es ih => exact ih _
  have hlast : initial.run limits (es ++ [e]) = (initial.run limits es).exec limits e :=
    Runs.run_append _ _ _ _
  unfold originIn
  rw [Runs.run_append, hlast]
  have hworld := hfst (initial, none) es
  generalize Runs.run (originStep limits g id) (initial, none) es = s at hworld ⊢
  show (if s.1.shelf.holds g id then s.2
    else if (s.1.exec limits e).shelf.holds g id then s.1.moved limits e else none) = _
  rw [hworld]

end World

/-! ## The condition -/

/-- Whether an upload that goes to `g` is waiting with its staging place gone: it has
published the item under `id`, and no record of that was stored. -/
def World.waiting (u : UploadId) (w : World) (g : Nat) (id : ItemId) : Bool :=
  w.record.tickets[u]?.any fun ticket =>
    ticket.request.id = id && !w.shelf.staging.contains u && w.record.aim ticket.request = some g

/-- Whether a step leaves an upload that is waiting with the item it published. -/
def World.keepsApart (limits : Limits) (u : UploadId) (w : World) (e : Event) : Bool :=
  w.switchSpares u e && !((w.minted limits e).contains u && w.record.tickets.contains u) &&
    match e with
    | .cleanup i => !(w.pending[i]? = some (.removeStaging u) && w.record.tickets.contains u)
    | .request _ (.deleteItem caller partition id expected)
    | .cut _ (.deleteItem caller partition id expected) _ =>
      !(caller.role = .readWrite && (w.record.checkWritable expected).isOk &&
        (w.record.generationOf partition).any fun g => w.waiting u g id)
    | _ => true

/-! ## Over one step -/

/-- An upload that has lost its staging place has made its change or is waiting: over a
change that keeps to the condition it is aimed where it was. -/
theorem Change.aim {r : Rules} {op : Op} {a : Answer} {rec : WorkspaceRecord}
    {shelf : MemoryShelf} {after : List Cleanup} (h : Change r op a rec shelf after)
    (hf : r.record.TicketsFit) {u : UploadId}
    (hspares : ∀ call pending,
      World.switchSpares u ⟨r.record, r.shelf, pending⟩ (.request call op) = true)
    {ticket : Ticket} (hticket : rec.tickets[u]? = some ticket)
    (hgone : shelf.staging[u]? = none) {g : Nat} (haim : rec.aim ticket.request = some g) :
    r.record.aim ticket.request = some g := by
  have hleads : ∀ {g' : Nat}, r.record.LeadsTo ticket.request g' → g' = g := fun hl =>
    (h.leadsTo hf hspares hticket hgone hl).eq_of_aim haim
  cases hin : ticket.request.inRewrite with
  | true =>
    cases hstate : r.record.state with
    | settled sealed =>
      have hout := hf.settled sealed hstate u ticket (h.old_ticket hticket hgone)
      rw [hin] at hout
      cases hout
    | rewriting session =>
      have hold : r.record.aim ticket.request = some session.stagedGeneration := by
        rw [WorkspaceRecord.aim, if_pos hin,
          WorkspaceRecord.stagedGeneration_of_rewriting hstate]
      rw [hold, hleads (WorkspaceRecord.leadsTo_of_aim hold)]
  | false =>
    by_cases hkey : ticket.request.expectedKeyId = r.record.keyId
    · have hold : r.record.aim ticket.request = some r.record.generation := by
        rw [WorkspaceRecord.aim, if_neg (by simp [hin]), if_pos hkey]
      rw [hold, hleads (WorkspaceRecord.leadsTo_of_aim hold)]
    · -- an upload under another key would lead anywhere
      have hany : r.record.LeadsTo ticket.request (g + 1) := by
        constructor
        · intro hin'
          rw [hin] at hin'
          cases hin'
        · exact fun _ hkey' => absurd hkey' hkey
      have := hleads hany
      omega

/-- How an upload under way can lose its staging place to an operation: to a probe of its
id, or to its own publish. -/
theorem ShelfStep.takes {r : Rules} {op : Op} {shelf : MemoryShelf} (h : ShelfStep r op shelf)
    {u : UploadId} (hgone : shelf.staging[u]? = none) :
    r.shelf.staging[u]? = none ∨ op.minted r = [u] ∨
      ∃ caller ticket g item, op = .commitUpload caller u ∧
        r.record.liveTicket r.now caller u = some ticket ∧
        r.record.Targets caller ticket.request g ∧
        (r.shelf.generation g)[ticket.request.id]? = none ∧
        (shelf.generation g)[ticket.request.id]? = some item := by
  cases h with
  | same => exact .inl hgone
  | removed hg =>
    rw [MemoryShelf.remove_staging] at hgone
    exact .inl hgone
  | fresh _ =>
    rw [MemoryShelf.stageCreate_staging] at hgone
    split at hgone
    · cases hgone
    · exact .inl hgone
  | again _ =>
    rw [MemoryShelf.stageCreate_staging] at hgone
    split at hgone
    · cases hgone
    · exact .inl hgone
  | @probed _ v hminted =>
    -- a probe takes its own new place away
    rw [MemoryShelf.stageRemove_staging] at hgone
    split at hgone
    · rename_i e
      rw [← e]
      exact .inr (.inl hminted)
    · rename_i e
      rw [MemoryShelf.stageCreate_staging, if_neg e] at hgone
      exact .inl hgone
  | wrote =>
    rw [MemoryShelf.write_staging_eq_none] at hgone
    exact .inl hgone
  | @published caller v ticket g staged _ hticket htarget hstaged hsize hnew hstaging hitems =>
    -- a publish moves the place to an item that was not there
    by_cases e : v = u
    · subst e
      have hput : (shelf.generation g)[ticket.request.id]? = some ⟨staged.content,
          ⟨ticket.request.metaJson, ticket.request.expectedKeyId, r.now⟩⟩ := by
        rw [hitems, if_pos rfl, Map.get_insert_self]
      have hnone := get_of_findIn_eq_none hnew
      exact .inr (.inr ⟨caller, ticket, g, _, rfl, hticket, htarget, hnone, hput⟩)
    · rw [hstaging, Map.get_erase_of_ne _ e] at hgone
      exact .inl hgone

/-- A deletion that is refused leaves the shelf alone, done or cut. -/
theorem World.exec_delete_refused {limits : Limits} {w : World} {e : Event} {call : Call}
    {caller : Caller} {partition : Partition} {id : ItemId} {expected : Option KeyId}
    (he : e.Runs call (.deleteItem caller partition id expected))
    (hrefused : caller.role ≠ .readWrite ∨ (w.record.checkWritable expected).isOk = false) :
    (w.exec limits e).shelf = w.shelf := by
  have hrule : ∃ error, (Op.deleteItem caller partition id expected).rule
      (w.rules limits call) = (.error error, w.rules limits call) := by
    simp only [Op.rule, Rules.deleteItem, Rules.check, answering]
    cases hrole : caller.role with
    | readOnly =>
      rw [Caller.mustWrite, hrole]
      exact ⟨_, rfl⟩
    | readWrite =>
      rw [Caller.mustWrite, hrole]
      rcases hrefused with hne | hkey
      · exact absurd hrole hne
      · cases hw : (w.rules limits call).record.checkWritable expected with
        | error error => exact ⟨error, by simp [Except.map]⟩
        | ok _ =>
          rw [show w.record.checkWritable expected = .ok _ from hw] at hkey
          cases hkey
  obtain ⟨error, hrule⟩ := hrule
  rcases he with rfl | ⟨steps, rfl⟩
  · show (Engine.run w limits call _).2.shelf = _
    unfold Engine.run Engine.write
    rw [if_neg (by simp [Op.readsOnly]), hrule]
    rfl
  · show (if steps = 0 then w.shelf else _) = _
    rw [hrule]
    exact ite_self _

namespace World

variable {limits : Limits} {w w' : World} {e : Event}

omit [Crates] in
theorem waiting_of_gone {u : UploadId} {ticket : Ticket} {g : Nat}
    (hticket : w.record.tickets[u]? = some ticket) (hgone : w.shelf.staging[u]? = none)
    (haim : w.record.aim ticket.request = some g) :
    w.waiting u g ticket.request.id = true := by
  simp [waiting, hticket, Map.contains_eq_false_iff.mpr hgone, haim]

omit [Crates] in
theorem holds_iff {s : MemoryShelf} {g : Nat} {id : ItemId} :
    s.holds g id = true ↔ ∃ item, (s.generation g)[id]? = some item :=
  Map.contains_iff_get

/-- An item that an upload is waiting with stays. -/
theorem keeps_waiting (hl : w.Laid) {u : UploadId} (hkeeps : w.keepsApart limits u e = true)
    {ticket : Ticket} {g : Nat} (hticket : w.record.tickets[u]? = some ticket)
    (hgone : w.shelf.staging[u]? = none) (haim : w.record.aim ticket.request = some g)
    (hitem : w.shelf.holds g ticket.request.id = true) :
    (w.exec limits e).shelf.holds g ticket.request.id = true := by
  obtain ⟨item, hitem⟩ := holds_iff.mp hitem
  by_contra hlost
  have hne : ((w.exec limits e).shelf.generation g)[ticket.request.id]? ≠ some item := by
    intro hkept
    exact hlost (holds_iff.mpr ⟨item, hkept⟩)
  obtain ⟨call, caller, partition, expected, hruns, hg⟩ := spares_items hl
    (w.exec_step limits e) (.inl (WorkspaceRecord.live_of_aim haim)) hitem hne
  have hwaiting := waiting_of_gone hticket hgone haim
  -- a deletion that goes through is one the condition excludes
  by_cases hallowed : caller.role = .readWrite ∧ (w.record.checkWritable expected).isOk = true
  · unfold keepsApart at hkeeps
    rcases hruns with rfl | ⟨steps, rfl⟩
    · simp [hg, hwaiting, hallowed] at hkeeps
    · simp [hg, hwaiting, hallowed] at hkeeps
  · have hsame : (w.exec limits e).shelf = w.shelf := by
      refine exec_delete_refused hruns ?_
      by_cases hrole : caller.role = .readWrite
      · exact .inr (by simpa [hrole] using hallowed)
      · exact .inl hrole
    rw [hsame] at hne
    exact hne hitem

/-- A commit that publishes and is recorded leaves no ticket of its upload. -/
theorem no_ticket_published {r : Rules} {a : Answer} {rec : WorkspaceRecord} {shelf : MemoryShelf}
    {after : List Cleanup} {caller : Caller} {u : UploadId} {g : Nat} {id : ItemId} {item : Item}
    (hchange : Change r (.commitUpload caller u) a rec shelf after)
    (hnone : (r.shelf.generation g)[id]? = none) (hput : (shelf.generation g)[id]? = some item) :
    rec.tickets[u]? = none := by
  cases hchange with
  | kept hdone => cases hdone
  | sealed _ _ hop _ => rcases hop with hop | hop <;> cases hop
  | renewed _ hrenews _ => cases hrenews
  | restored _ haborts => cases haborts
  | replayed _ =>
    rw [hnone] at hput
    cases hput
  | duplicate _ _ _ _ => exact Map.get_erase_self _ _
  | published _ _ _ _ _ _ _ => exact Map.get_erase_self _ _
  | recovered _ _ _ _ _ => exact Map.get_erase_self _ _

/-- The place that a commit takes away is the one it has moved. -/
theorem moved_of_taken {u : UploadId} {staged : Staged} {caller : Caller} {call : Call}
    (hruns : e.Runs call (.commitUpload caller u))
    (hthere : w.shelf.staging[u]? = some staged)
    (hleft : (w.exec limits e).shelf.staging[u]? = none) : w.moved limits e = some u := by
  have hbefore : w.shelf.staging.contains u = true := Map.contains_iff_get.mpr ⟨_, hthere⟩
  have hafter : (w.exec limits e).shelf.staging.contains u = false :=
    Map.contains_eq_false_iff.mpr hleft
  rcases hruns with rfl | ⟨steps, rfl⟩
  · simp [moved, hbefore, hafter]
  · simp [moved, hbefore, hafter]

/-- How an upload that is waiting after a step came to: it was waiting before, or the step
is the cut of its own publish. -/
theorem waits (hf : w.record.TicketsFit) {u : UploadId}
    (hkeeps : w.keepsApart limits u e = true) {ticket : Ticket} {g : Nat}
    (hticket : (w.exec limits e).record.tickets[u]? = some ticket)
    (hgone : (w.exec limits e).shelf.staging[u]? = none)
    (haim : (w.exec limits e).record.aim ticket.request = some g) :
    (w.record.tickets[u]? = some ticket ∧ w.shelf.staging[u]? = none ∧
      w.record.aim ticket.request = some g) ∨
    (w.shelf.holds g ticket.request.id = false ∧
      (w.exec limits e).shelf.holds g ticket.request.id = true ∧
      w.moved limits e = some u) := by
  have hkeeps' := hkeeps
  simp only [keepsApart, Bool.and_eq_true] at hkeeps'
  obtain ⟨⟨hspares, hminted⟩, hevent⟩ := hkeeps'
  -- its id is not made up anew while it is under way
  have hfresh : w.record.tickets[u]? = some ticket → w.minted limits e ≠ [u] := by
    intro hold hu
    rw [hu] at hminted
    simp [Map.contains_iff_get.mpr ⟨ticket, hold⟩] at hminted
  generalize hw : w.exec limits e = w' at hticket hgone haim
  have hstep := w.exec_step limits e
  rw [hw] at hstep
  cases hstep with
  | @done call op a rec shelf after hanswer hchange =>
    have hold := hchange.old_ticket hticket hgone
    have hspares' : ∀ call' pending,
        switchSpares u ⟨w.record, w.shelf, pending⟩ (.request call' op) = true := by
      intro call' pending
      cases op with
      | commitRewrite caller newKeyId => exact hspares
      | _ => rfl
    have haim' := hchange.aim hf hspares' hticket hgone haim
    rcases hchange.shelfStep.takes hgone with hbefore | hmint |
      ⟨caller, ticket', g', item, rfl, hlive, -, hnone, hput⟩
    · exact .inl ⟨hold, hbefore, haim'⟩
    · exact absurd hmint (hfresh hold)
    · have hleft := no_ticket_published hchange hnone hput
      rw [hleft] at hticket
      cases hticket
  | refused hshelf =>
    refine .inl ⟨hticket, ?_, haim⟩
    rcases hshelf with rfl | ⟨v, content, announced, hashed, rfl⟩
    · exact hgone
    · rw [MemoryShelf.write_staging_eq_none] at hgone
      exact hgone
  | @cut call op steps shelf hshelf =>
    by_cases hbefore : w.shelf.staging[u]? = none
    · exact .inl ⟨hticket, hbefore, haim⟩
    rcases hshelf.takes hgone with hnone | hmint |
      ⟨caller, ticket', g', item, rfl, hlive, htarget, hnone, hput⟩
    · exact absurd hnone hbefore
    · exact absurd hmint (hfresh hticket)
    · obtain ⟨hget, -, -⟩ := WorkspaceRecord.liveTicket_eq_some hlive
      obtain rfl : ticket' = ticket := by
        have hboth : some ticket' = some ticket := hget.symm.trans hticket
        exact Option.some.inj hboth
      obtain rfl : g' = g := by
        have hboth : some g' = some g := htarget.aim.symm.trans haim
        exact Option.some.inj hboth
      refine .inr ⟨?_, holds_iff.mpr ⟨item, hput⟩, ?_⟩
      · exact Map.contains_eq_false_iff.mpr hnone
      · obtain ⟨staged, hstaged⟩ := Option.ne_none_iff_exists'.mp hbefore
        exact moved_of_taken (.inr ⟨steps, rfl⟩) hstaged (hw ▸ hgone)
  | @performed i c hpending =>
    refine .inl ⟨hticket, ?_, haim⟩
    cases c with
    | dropGeneration d => exact hgone
    | removeStaging v =>
      change (w.shelf.stageRemove v).staging[u]? = none at hgone
      rw [MemoryShelf.stageRemove_staging] at hgone
      split at hgone
      · rename_i e
        subst e
        simp [hpending, Map.contains_iff_get.mpr ⟨ticket, hticket⟩] at hevent
      · exact hgone
  | idle _ => exact .inl ⟨hticket, hgone, haim⟩
  | lost => exact .inl ⟨hticket, hgone, haim⟩
  | wroteLate =>
    refine .inl ⟨hticket, ?_, haim⟩
    rw [MemoryShelf.write_staging_eq_none] at hgone
    exact hgone

/-- While the upload is waiting, it waits with the item that its own staging place
became. -/
structure Attributed (limits : Limits) (u : UploadId) (es : List Event) : Prop where
  laid : (initial.run limits es).Laid
  fit : (initial.run limits es).record.TicketsFit
  waiting : ∀ (ticket : Ticket) (g : Nat),
    (initial.run limits es).record.tickets[u]? = some ticket →
    (initial.run limits es).shelf.staging[u]? = none →
    (initial.run limits es).record.aim ticket.request = some g →
      (initial.run limits es).shelf.holds g ticket.request.id = true ∧
        originIn limits g ticket.request.id es = some u

theorem Attributed.step {u : UploadId} {es : List Event} (h : Attributed limits u es)
    (hkeeps : (initial.run limits es).keepsApart limits u e = true) :
    Attributed limits u (es ++ [e]) := by
  have hlast : initial.run limits (es ++ [e]) = (initial.run limits es).exec limits e :=
    Runs.run_append _ _ _ _
  have hstep := (initial.run limits es).exec_step limits e
  refine ⟨?_, ?_, ?_⟩
  · rw [hlast]
    exact h.laid.step hstep
  · rw [hlast]
    exact hstep.ticketsFit h.fit
  · intro ticket g hticket hgone haim
    rw [originIn_concat]
    rw [hlast] at hticket hgone haim ⊢
    rcases waits h.fit hkeeps hticket hgone haim with
      ⟨hold, hbefore, haim'⟩ | ⟨hnone, hput, hmoved⟩
    · obtain ⟨hitem, horigin⟩ := h.waiting ticket g hold hbefore haim'
      rw [if_pos hitem]
      exact ⟨keeps_waiting h.laid hkeeps hold hbefore haim' hitem, horigin⟩
    · rw [hnone, if_neg Bool.false_ne_true, if_pos hput]
      exact ⟨hput, hmoved⟩

theorem attributed (limits : Limits) (u : UploadId) (es : List Event)
    (hkeeps : Runs.Along (exec limits) (fun w e => w.keepsApart limits u e = true) initial es) :
    Attributed limits u es := by
  induction es using List.reverseRecOn with
  | nil =>
    refine ⟨laid_initial, WorkspaceRecord.ticketsFit_initial, ?_⟩
    intro ticket g hticket
    change initial.record.tickets[u]? = some ticket at hticket
    rw [show initial.record.tickets = ∅ from rfl, Std.ExtTreeMap.getElem?_empty] at hticket
    cases hticket
  | append_singleton es e ih =>
    obtain ⟨hbefore, hlast, -⟩ := (Runs.along_append _).mp hkeeps
    exact (ih hbefore).step hlast

/-- **A commit that says it created an item did**: in every run whose steps do not part the
upload, while it is waiting, from the item it published, an upload that is answered so, and
not from a remembered outcome, finds on the shelf what was moved there from its own staging
place. -/
theorem attributed_run (limits : Limits) (es : List Event) (call : Call) (caller : Caller)
    (u : UploadId) (o : PutOutcome)
    (hkeeps : Runs.Along (exec limits) (fun w e => w.keepsApart limits u e = true) initial es)
    (hfirst : (initial.run limits es).record.tombstone call.now caller u = none)
    (hok : (Engine.run (initial.run limits es) limits call (.commitUpload caller u)).1 =
      .ok (.outcome o))
    (hcreated : o.created = true) :
    ∃ ticket g,
      (initial.run limits es).record.liveTicket call.now caller u = some ticket ∧
      (initial.run limits es).record.uploadTarget caller ticket.request = .ok g ∧
      (initial.run limits (es ++ [.request call (.commitUpload caller u)])).shelf.holds g
        o.id = true ∧
      originIn limits g o.id (es ++ [.request call (.commitUpload caller u)]) = some u := by
  have hattributed := attributed limits u es hkeeps
  have hlast : initial.run limits (es ++ [.request call (.commitUpload caller u)]) =
      (initial.run limits es).exec limits (.request call (.commitUpload caller u)) :=
    Runs.run_append _ _ _ _
  obtain ⟨rec, shelf, after, hchange, hexec⟩ := Engine.run_ok hok
  have hshelf : (initial.run limits (es ++ [.request call (.commitUpload caller u)])).shelf =
      shelf := by rw [hlast, hexec]
  cases hchange with
  | replayed hstone =>
    change (initial.run limits es).record.tombstone call.now caller u = _ at hstone
    rw [hfirst] at hstone
    cases hstone
  | duplicate _ _ _ _ => cases hcreated
  | @published _ _ ticket g staged _ hticket htarget hstaged _ hnew hstaging hitems =>
    -- the commit moves its own place to the item in this very step
    have hnone : (initial.run limits es).shelf.holds g ticket.request.id = false :=
      Map.contains_eq_false_iff.mpr (get_of_findIn_eq_none hnew)
    have hput : shelf.holds g ticket.request.id = true :=
      Map.contains_iff_get.mpr ⟨_, by rw [hitems, if_pos rfl, Map.get_insert_self]⟩
    refine ⟨ticket, g, hticket, htarget.goes, by rw [hshelf]; exact hput, ?_⟩
    rw [originIn_concat, hshelf, hnone, if_neg Bool.false_ne_true, if_pos hput]
    refine moved_of_taken (.inl rfl) hstaged ?_
    rw [hexec, hstaging, Map.get_erase_self]
  | @recovered _ _ ticket g item hticket htarget hgone hitem _ =>
    -- its publish was cut before: the item has stood since, by the run's condition
    obtain ⟨hget, -, -⟩ := WorkspaceRecord.liveTicket_eq_some hticket
    obtain ⟨hholds, horigin⟩ := hattributed.waiting ticket g hget hgone htarget.aim
    refine ⟨ticket, g, hticket, htarget.goes, by rw [hshelf]; exact hholds, ?_⟩
    rw [originIn_concat, if_pos hholds]
    exact horigin

end World

end

/-! ## Evaluated runs -/

namespace Sample

/-- A publish, in a sealed workspace, whose record is never stored. -/
def unrecorded : List Event :=
  .request (call 0 []) (.enableEncryption laptop keyA []) :: sending 1 (request 2 (some keyA)) ++
    [.cut (call 0 []) (.commitUpload laptop (upload 1)) 1]

/-- Another device deletes the item and stores one of its own under the same id. -/
def replaced : List Event :=
  unrecorded ++
    [.request (call 0 []) (.deleteItem phone .current note (some keyA)),
      .request (call 0 [2]) (.beginUpload phone (request 2 (some keyA))),
      .request (call 0 []) (.putUploadContent phone (upload 2) [.piece [3, 4]]),
      .request (call 0 []) (.commitUpload phone (upload 2))]

end Sample

/-- The first upload is told that it created the second one's item. -/
theorem World.attributed_replaced :
    (@World.run Sample.crates Sample.limits .initial Sample.replaced).record.tombstone 0
        Sample.laptop (Sample.upload 1) = none ∧
      (@Engine.run Sample.crates
        (@World.run Sample.crates Sample.limits .initial Sample.replaced) Sample.limits
        (Sample.call 0 []) (.commitUpload Sample.laptop (Sample.upload 1))).1 =
          .ok (.outcome ⟨Sample.note, true, false⟩) ∧
      @World.originIn Sample.crates Sample.limits 0 Sample.note
        (Sample.replaced ++ [Sample.again]) = some (Sample.upload 2) := by
  decide +kernel

/-- Sent again with nothing in between, the commit finds its own item. -/
theorem World.attributed_recovered :
    ∃ ticket g,
      (@World.run Sample.crates Sample.limits .initial Sample.unrecorded).record.liveTicket 0
        Sample.laptop (Sample.upload 1) = some ticket ∧
      (@World.run Sample.crates Sample.limits .initial Sample.unrecorded).record.uploadTarget
        Sample.laptop ticket.request = .ok g ∧
      (@World.run Sample.crates Sample.limits .initial
        (Sample.unrecorded ++ [Sample.again])).shelf.holds g Sample.note = true ∧
      @World.originIn Sample.crates Sample.limits g Sample.note
        (Sample.unrecorded ++ [Sample.again]) = some (Sample.upload 1) :=
  @World.attributed_run Sample.crates Sample.limits Sample.unrecorded (Sample.call 0 [])
    Sample.laptop (Sample.upload 1) ⟨Sample.note, true, false⟩ (by decide +kernel)
    (by decide +kernel) (by decide +kernel) rfl

end Passalong
