import Passalong.Steps

/-!
# One outcome per upload id (I5)

The upload id is what a replay is recognised by. Once a commit has recorded its
outcome, the same commit is answered with the same outcome for as long as outcomes
are remembered, whatever happens in between, and content sent again is acknowledged
and discarded (`outcome_run`). A begin never hands out an id the record knows, except
as the answer to a begin sent again, which gets the ticket it got before.

Two things keep this: an id with an outcome has no ticket (`Apart`), and only the
janitor forgets outcomes, once they are expired.
-/

namespace Passalong

open Lib

/-- No id has a ticket and an outcome. -/
def WorkspaceRecord.Apart (rec : WorkspaceRecord) : Prop :=
  ∀ (u : UploadId) (stone : Tombstone), rec.tombstones[u]? = some stone →
    rec.tickets[u]? = none

namespace WorkspaceRecord

variable {rec rec' : WorkspaceRecord}

theorem apart_initial : Apart initial := by
  intro u stone h
  rw [show initial.tombstones = ∅ from rfl, Std.ExtTreeMap.getElem?_empty] at h
  cases h

/-- Fewer tickets and fewer outcomes stay apart. -/
theorem Apart.fewer (h : rec.Apart)
    (hstones : ∀ (u : UploadId) (stone : Tombstone), rec'.tombstones[u]? = some stone →
      rec.tombstones[u]? = some stone)
    (htickets : ∀ (u : UploadId) (ticket : Ticket), rec'.tickets[u]? = some ticket →
      rec.tickets[u]? = some ticket) : rec'.Apart := by
  intro u stone hstone
  have hnone := h u stone (hstones u stone hstone)
  cases hticket : rec'.tickets[u]? with
  | none => rfl
  | some ticket =>
    rw [htickets u ticket hticket] at hnone
    cases hnone

/-- An upload that finishes changes sides. -/
theorem Apart.finished (h : rec.Apart) (hstones : rec'.tombstones = rec.tombstones)
    (htickets : rec'.tickets = rec.tickets) (u : UploadId) (stone : Tombstone) :
    (rec'.finished u stone).Apart := by
  intro v stone' hstone
  show (rec'.tickets.erase u)[v]? = none
  change (rec'.tombstones.insert u stone)[v]? = some stone' at hstone
  rw [Map.get_erase, htickets]
  rw [Map.get_insert, hstones] at hstone
  split
  · rfl
  · rename_i hne
    rw [if_neg hne] at hstone
    exact h v stone' hstone

end WorkspaceRecord

section
variable [Crates]

theorem Change.apart {r : Rules} {op : Op} {a : Answer} {rec : WorkspaceRecord}
    {shelf : MemoryShelf} {after : List Cleanup} (h : Change r op a rec shelf after)
    (hapart : r.record.Apart) : rec.Apart := by
  cases h with
  | @begun caller request g u htarget hnew hquota hknown hminted _ =>
    intro v stone hstone
    have hold := hapart v stone hstone
    show (r.record.tickets.insert u _)[v]? = none
    -- the id handed out has no outcome
    have hne : u ≠ v := by
      rintro rfl
      rw [(WorkspaceRecord.known_eq_false.mp hknown).2] at hstone
      cases hstone
    rw [Map.get_insert_of_ne _ _ hne]
    exact hold
  | duplicate _ _ _ _ => exact hapart.finished rfl rfl _ _
  | published _ _ _ _ _ _ _ => exact hapart.finished rfl rfl _ _
  | recovered _ _ _ _ _ => exact hapart.finished rfl rfl _ _
  | stored _ _ => exact hapart.fewer (fun _ _ => id) fun _ _ => Map.get_of_get_filter
  | aborted => exact hapart.fewer (fun _ _ => id) fun _ _ => Map.get_of_get_filter
  | switched _ _ _ _ _ => exact hapart.fewer (fun _ _ => id) fun _ _ => Map.get_of_get_filter
  | restored _ => exact hapart.fewer (fun _ _ => id) fun _ _ => Map.get_of_get_filter
  | cleaned =>
    exact hapart.fewer (fun _ _ => Map.get_of_get_filter) fun _ _ => Map.get_of_get_filter
  | reconciled =>
    exact hapart.fewer (fun _ _ => Map.get_of_get_filter) fun _ _ => Map.get_of_get_filter
  | _ => exact hapart

/-- **An outcome that has not expired survives every change.** -/
theorem Change.keeps_stone {r : Rules} {op : Op} {a : Answer} {rec : WorkspaceRecord}
    {shelf : MemoryShelf} {after : List Cleanup} (h : Change r op a rec shelf after)
    (hapart : r.record.Apart) {u : UploadId} {stone : Tombstone}
    (hstone : r.record.tombstones[u]? = some stone) (hlive : r.now < stone.expiresAt) :
    rec.tombstones[u]? = some stone := by
  -- an upload that finishes has a ticket, and this one has none
  have hfinished : ∀ {caller : Caller} {v : UploadId} {ticket : Ticket} (stone' : Tombstone),
      r.record.liveTicket r.now caller v = some ticket →
      (r.record.tombstones.insert v stone')[u]? = some stone := by
    intro caller v ticket stone' hticket
    have hne : v ≠ u := by
      rintro rfl
      have hget := (WorkspaceRecord.liveTicket_eq_some hticket).1
      rw [hapart v stone hstone] at hget
      cases hget
    rw [Map.get_insert_of_ne _ _ hne]
    exact hstone
  have hkept : (r.record.tombstones.filter fun _ s => r.now < s.expiresAt)[u]? = some stone :=
    Map.get_filter_eq_some.mpr ⟨hstone, decide_eq_true hlive⟩
  cases h with
  | duplicate hticket _ _ _ => exact hfinished _ hticket
  | published hticket _ _ _ _ _ _ => exact hfinished _ hticket
  | recovered hticket _ _ _ _ => exact hfinished _ hticket
  | cleaned => exact hkept
  | reconciled => exact hkept
  | _ => exact hstone

/-- A commit that is no replay records what it answers. -/
theorem Change.records {r : Rules} {caller : Caller} {u : UploadId} {o : PutOutcome}
    {rec : WorkspaceRecord} {shelf : MemoryShelf} {after : List Cleanup}
    (h : Change r (.commitUpload caller u) (.outcome o) rec shelf after)
    (hfirst : r.record.tombstone r.now caller u = none) :
    rec.tombstones[u]? = some ⟨caller.key, o, wrappingAdd r.now r.limits.stagingSecs⟩ := by
  have hfinished : ∀ {ticket : Ticket} (id : ItemId) (created : Bool),
      r.record.liveTicket r.now caller u = some ticket →
      (r.record.tombstones.insert u (r.stone ticket id created))[u]? =
        some ⟨caller.key, ⟨id, created, ticket.request.inRewrite⟩,
          wrappingAdd r.now r.limits.stagingSecs⟩ := by
    intro ticket id created hticket
    rw [Map.get_insert_self, ← (WorkspaceRecord.liveTicket_eq_some hticket).2.1]
    rfl
  cases h with
  | replayed hstone =>
    rw [hfirst] at hstone
    cases hstone
  | duplicate hticket _ _ _ => exact hfinished _ _ hticket
  | published hticket _ _ _ _ _ _ => exact hfinished _ _ hticket
  | recovered hticket _ _ _ _ => exact hfinished _ _ hticket

namespace World

variable {limits : Limits} {w w' : World} {e : Event}

theorem Step.apart (h : Step limits w e w') (ha : w.record.Apart) : w'.record.Apart := by
  cases h with
  | done _ hchange => exact hchange.apart ha
  | _ => exact ha

theorem apart_run (es : List Event) : (initial.run limits es).record.Apart :=
  Runs.always (exec limits) (I := fun w => w.record.Apart)
    (fun w e h => (w.exec_step limits e).apart h) WorkspaceRecord.apart_initial es

theorem Step.keeps_stone (h : Step limits w e w') (ha : w.record.Apart) {u : UploadId}
    {stone : Tombstone} (hstone : w.record.tombstones[u]? = some stone)
    (hlive : ∀ t ∈ e.times, t < stone.expiresAt) : w'.record.tombstones[u]? = some stone := by
  cases h with
  | @done call _ _ _ _ _ _ hchange =>
    exact hchange.keeps_stone ha hstone (hlive call.now List.mem_cons_self)
  | _ => exact hstone

/-- An outcome is remembered through every run that ends before it expires. -/
theorem keeps_stone_run (ha : w.record.Apart) {u : UploadId} {stone : Tombstone}
    (hstone : w.record.tombstones[u]? = some stone) {es : List Event}
    (hlive : ∀ t ∈ es.flatMap Event.times, t < stone.expiresAt) :
    (w.run limits es).record.tombstones[u]? = some stone := by
  have halong : Runs.Along (exec limits) (fun _ e => ∀ t ∈ e.times, t < stone.expiresAt) w es :=
    Runs.along_of_forall _ fun e he t ht => hlive t (List.mem_flatMap.mpr ⟨e, he, ht⟩)
  exact (Runs.invariant (exec limits)
    (I := fun w => w.record.Apart ∧ w.record.tombstones[u]? = some stone)
    (fun w e h hp => ⟨(w.exec_step limits e).apart h.1,
      (w.exec_step limits e).keeps_stone h.1 h.2 hp⟩) ⟨ha, hstone⟩ halong).2

/-- A remembered outcome answers the commit sent again. -/
theorem commit_of_stone {call : Call} {caller : Caller} {u : UploadId} {o : PutOutcome}
    {expiresAt : Nat} (hstone : w.record.tombstones[u]? = some ⟨caller.key, o, expiresAt⟩)
    (hlive : call.now < expiresAt) :
    (Engine.run w limits call (.commitUpload caller u)).1 = .ok (.outcome o) := by
  have hfound : w.record.tombstone call.now caller u = some ⟨caller.key, o, expiresAt⟩ := by
    rw [WorkspaceRecord.tombstone, hstone, Option.filter_some]
    simp [hlive]
  have hrule : (Op.commitUpload caller u).rule (w.rules limits call) =
      (.ok (.outcome o), w.rules limits call) := by
    show answering .outcome ((w.rules limits call).commitUpload caller u) = _
    unfold Rules.commitUpload
    rw [show (w.rules limits call).record.tombstone (w.rules limits call).now caller u = _
      from hfound]
    rfl
  show (Engine.write w limits call _).1 = _
  unfold Engine.write
  rw [hrule]

/-- And acknowledges content sent again, which changes nothing. -/
theorem put_of_stone {call : Call} {caller : Caller} {u : UploadId} {o : PutOutcome}
    {expiresAt : Nat} (hstone : w.record.tombstones[u]? = some ⟨caller.key, o, expiresAt⟩)
    (hlive : call.now < expiresAt) (content : Source) :
    Engine.run w limits call (.putUploadContent caller u content) = (.ok .done, w) := by
  have hfound : w.record.tombstone call.now caller u = some ⟨caller.key, o, expiresAt⟩ := by
    rw [WorkspaceRecord.tombstone, hstone, Option.filter_some]
    simp [hlive]
  have hrule : (Op.putUploadContent caller u content).rule (w.rules limits call) =
      (.ok .done, w.rules limits call) := by
    show answering _ ((w.rules limits call).putUploadContent caller u content) = _
    unfold Rules.putUploadContent
    rw [show (w.rules limits call).record.tombstone (w.rules limits call).now caller u = _
      from hfound]
    rfl
  have hreads : (Op.putUploadContent caller u content).readsOnly = true := rfl
  rw [Engine.run, if_pos hreads, Engine.read, hrule]
  rfl

/-- A begin hands out an id the record does not know, or the ticket its own caller got
for the same request before. -/
theorem begun_fresh_or_own (ha : w.record.Apart) {call : Call} {caller : Caller}
    {request : UploadRequest} {ticket : UploadTicket}
    (h : (Engine.run w limits call (.beginUpload caller request)).1 =
      .ok (.begun (.ticket ticket))) :
    w.record.tombstones[ticket.uploadId]? = none ∧
      ∀ held : Ticket, w.record.tickets[ticket.uploadId]? = some held →
        held.owner = caller.key ∧ held.request = request ∧
          held.expiresAt = ticket.expiresAt := by
  obtain ⟨rec, shelf, after, hchange, -⟩ := Engine.run_ok h
  cases hchange with
  | @begun _ _ _ u _ _ _ hknown _ _ =>
    obtain ⟨hticket, hstone⟩ := WorkspaceRecord.known_eq_false.mp hknown
    refine ⟨hstone, fun held hheld => ?_⟩
    change w.record.tickets[u]? = none at hticket
    rw [hticket] at hheld
    cases hheld
  | @rebegun _ _ u own _ hticket howner hrequest _ _ =>
    change w.record.tickets[u]? = some own at hticket
    refine ⟨?_, fun held hheld => ?_⟩
    · cases hstone : w.record.tombstones[u]? with
      | none => rfl
      | some stone =>
        rw [ha u stone hstone] at hticket
        cases hticket
    · rw [hticket] at hheld
      cases hheld
      exact ⟨howner, hrequest, rfl⟩

/-- What is promised of a commit that recorded its outcome after `before`, at any later time at
which outcomes of its time are remembered. -/
def Remembered (limits : Limits) : Prop :=
  ∀ (before after : List Event) (call call' : Call) (caller : Caller) (u : UploadId)
    (o : PutOutcome),
    ((before ++ .request call (.commitUpload caller u) :: after).flatMap Event.times ++
      [call'.now]).Pairwise (· ≤ ·) →
    (initial.run limits before).record.tombstone call.now caller u = none →
    (Engine.run (initial.run limits before) limits call (.commitUpload caller u)).1 =
      .ok (.outcome o) →
    call.now + limits.stagingSecs < u64Bound →
    call'.now < call.now + limits.stagingSecs →
    let w := initial.run limits (before ++ .request call (.commitUpload caller u) :: after)
    (Engine.run w limits call' (.commitUpload caller u)).1 = .ok (.outcome o) ∧
      ∀ content, Engine.run w limits call' (.putUploadContent caller u content) = (.ok .done, w)

/-- A commit records its outcome at a time from which outcomes are remembered within `u64`. Then,
as long as the clock does not go back and that time has not passed, the same commit is answered
with the same outcome, and content sent again is acknowledged and discarded. -/
theorem remembered (limits : Limits) : Remembered limits := by
  intro before after call call' caller u o hclock hfirst hok hfits hsoon w
  obtain ⟨rec, shelf, cleanups, hchange, hexec⟩ := Engine.run_ok hok
  have hstone := hchange.records hfirst
  rw [show wrappingAdd ((initial.run limits before).rules limits call).now
      ((initial.run limits before).rules limits call).limits.stagingSecs =
      call.now + limits.stagingSecs from wrappingAdd_of_lt hfits] at hstone
  -- the times of what follows are all before the outcome expires
  have htimes : ∀ t ∈ after.flatMap Event.times, t < call.now + limits.stagingSecs := by
    intro t ht
    refine Nat.lt_of_le_of_lt ?_ hsoon
    refine (List.pairwise_append.mp hclock).2.2 t ?_ call'.now (List.mem_singleton_self _)
    rw [List.flatMap_append, List.flatMap_cons]
    exact List.mem_append_right _ (List.mem_append_right _ ht)
  have hw : w = ((initial.run limits before).exec limits
      (.request call (.commitUpload caller u))).run limits after :=
    Runs.run_append _ _ _ _
  have hafter : w.record.tombstones[u]? =
      some ⟨caller.key, o, call.now + limits.stagingSecs⟩ := by
    rw [hw, hexec]
    refine keeps_stone_run ?_ hstone htimes
    exact hchange.apart (apart_run before)
  exact ⟨commit_of_stone hafter hsoon, put_of_stone hafter hsoon⟩

/-- **I5.** A recorded outcome is remembered. And in every reachable state, whatever its clock
was, no begin hands out an id the record knows, but for the ticket its own caller got for the
same request before. -/
theorem outcome_run (limits : Limits) :
    Remembered limits ∧ ∀ (es : List Event) (call : Call) (caller : Caller)
      (request : UploadRequest) (ticket : UploadTicket),
      (Engine.run (initial.run limits es) limits call (.beginUpload caller request)).1 =
          .ok (.begun (.ticket ticket)) →
        (initial.run limits es).record.tombstones[ticket.uploadId]? = none ∧
          ∀ held : Ticket, (initial.run limits es).record.tickets[ticket.uploadId]? = some held →
            held.owner = caller.key ∧ held.request = request ∧ held.expiresAt = ticket.expiresAt :=
  ⟨remembered limits, fun es _ _ _ _ hbegun => begun_fresh_or_own (apart_run es) hbegun⟩

end World

end

/-! ## Evaluated runs -/

namespace Sample

/-- An upload of two bytes is begun and its content sent. -/
def sent : List Event :=
  [.request (call 0 [1]) (.beginUpload laptop (request 2 none)),
    .request (call 0 []) (.putUploadContent laptop (upload 1) [.piece [1, 2]])]

/-- The commit of that upload, at a time. -/
def committed (now : Nat) : Event :=
  .request (call now []) (.commitUpload laptop (upload 1))

end Sample

/-- A commit at 0 is replayed at 5, in the presence of a janitor; and the id that a begin of
another request is handed at 6 has no outcome. -/
theorem World.outcome_replayed :
    (@Engine.run Sample.crates
      (@World.run Sample.crates Sample.limits .initial
        (Sample.sent ++ Sample.committed 0 :: [.request (Sample.call 4 []) .cleanStaging]))
      Sample.limits (Sample.call 5 []) (.commitUpload Sample.laptop (Sample.upload 1))).1 =
        .ok (.outcome ⟨Sample.note, true, false⟩) ∧
    (@World.run Sample.crates Sample.limits .initial
      (Sample.sent ++ [Sample.committed 0])).record.tombstones[Sample.upload 2]? = none :=
  ⟨((@World.outcome_run Sample.crates Sample.limits).1 Sample.sent
      [.request (Sample.call 4 []) .cleanStaging] (Sample.call 0 []) (Sample.call 5 [])
      Sample.laptop (Sample.upload 1) ⟨Sample.note, true, false⟩ (by decide) (by decide +kernel)
      (by decide +kernel) (by decide) (by decide)).1,
    ((@World.outcome_run Sample.crates Sample.limits).2 (Sample.sent ++ [Sample.committed 0])
      (Sample.call 6 [1, 2]) Sample.laptop ⟨⟨2, 8⟩, [], 1, none, false⟩ ⟨Sample.upload 2, 16⟩
      (by decide +kernel)).1⟩

/-- A replay does not prolong what it replays: committed at 0 and answered again at 5,
the outcome is forgotten at 12, less than ten seconds later. And a begin sent again is
handed the id the record holds its ticket under. -/
theorem World.outcome_not_prolonged :
    (@Engine.run Sample.crates
      (@World.run Sample.crates Sample.limits .initial (Sample.sent ++ [Sample.committed 0]))
      Sample.limits (Sample.call 5 []) (.commitUpload Sample.laptop (Sample.upload 1))).1 =
        .ok (.outcome ⟨Sample.note, true, false⟩) ∧
    (@Engine.run Sample.crates
      (@World.run Sample.crates Sample.limits .initial
        (Sample.sent ++ [Sample.committed 0, Sample.committed 5]))
      Sample.limits (Sample.call 12 []) (.commitUpload Sample.laptop (Sample.upload 1))).1 =
        .error .notFound ∧
    (@World.run Sample.crates Sample.limits .initial Sample.sent).record.known
      (Sample.upload 1) = true ∧
    (@Engine.run Sample.crates
      (@World.run Sample.crates Sample.limits .initial Sample.sent) Sample.limits
      (Sample.call 1 []) (.beginUpload Sample.laptop (Sample.request 2 none))).1 =
        .ok (.begun (.ticket ⟨Sample.upload 1, 10⟩)) := by
  decide +kernel

end Passalong
