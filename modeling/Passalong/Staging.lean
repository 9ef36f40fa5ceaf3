import Passalong.Repair
import Passalong.Refusals

/-!
# An upload's staging place is its own (`upload.rs`)

While an upload has a ticket, its staging place is touched by its owner's requests for
it, by the end of the rewrite it belongs to, and by the janitor once it has expired
(`Op.Concerns`). Every other operation, with the clean-ups it asks for, leaves the place
as it is, with one exception: a probe makes up an id, creates and removes the staging
place of that id, and does not look whether the record knows it, as the id loop of
`beginUpload` does. When the random source repeats the id of a ticket, the probe removes
what its owner has sent (`Op.Overwrites`). No other operation does (`ownPlace_run`).

The argument goes through the table of changes. Each change takes a step on the shelf
and asks for removals, and both name the uploads they are about:

1. an upload's own requests name it, and are made by the owner of its ticket;
2. a new id is one that the record does not know, so it is not that of a ticket;
3. the removals of a begin, an abort, the end of a rewrite or the janitor are those of
   tickets that the same change takes away.
-/

namespace Passalong

open Lib

/-- The operations that are about an upload, and so may do something to its staging
place: its owner's requests for it, the janitor's once it has expired, and what ends the
rewrite it belongs to. -/
def Op.Concerns (before after : WorkspaceRecord) (now : Nat) (u : UploadId) (ticket : Ticket)
    (op : Op) : Prop :=
  (match op with
    | .putUploadContent caller v _ | .commitUpload caller v | .abortUpload caller v =>
      v = u ∧ caller.key = ticket.owner
    | .beginUpload caller request => caller.key = ticket.owner ∧ request = ticket.request
    | .cleanStaging | .reconcile => ticket.expiresAt ≤ now
    | _ => False) ∨
  ticket.request.inRewrite = true ∧ before.stagedGeneration ≠ none ∧
    after.stagedGeneration = none

/-- A probe that makes up the id of an upload whose staging place is there. -/
def Op.Overwrites (r : Rules) (u : UploadId) : Op → Prop
  | .probeWrite caller =>
    r.probeAllowed caller = .ok () ∧ r.draws.head? = some u ∧ r.shelf.staging[u]? ≠ none
  | _ => False

section
variable [Crates]

/-- An operation, and then the clean-ups it asked for. -/
def World.serve (limits : Limits) (w : World) (step : Call × Op) : World :=
  let w' := (Engine.run w limits step.1 step.2).2
  { w' with
    shelf := sweep w'.shelf (w'.pending.drop w.pending.length)
    pending := w.pending }

/-- What an operation and its clean-ups come to. -/
theorem World.serve_eq {w w' : World} {limits : Limits} {call : Call} {op : Op}
    {after : List Cleanup} (hrun : (Engine.run w limits call op).2 = w')
    (hpending : w'.pending = w.pending ++ after) :
    w.serve limits (call, op) = ⟨w'.record, sweep w'.shelf after, w.pending⟩ := by
  unfold serve
  simp only [hrun, hpending, List.drop_left]

/-! ## What a change leaves of a staging place -/

omit [Crates] in
/-- Removing other staging places changes nothing. -/
theorem sweep_staging_of_not_mem {s : MemoryShelf} {cs : List Cleanup} {u : UploadId}
    (h : Cleanup.removeStaging u ∉ cs) : (sweep s cs).staging[u]? = s.staging[u]? := by
  rw [sweep_staging, if_neg h]

omit [Crates] in
/-- The removals for the tickets `p` picks spare the others. -/
theorem WorkspaceRecord.not_mem_removals {rec : WorkspaceRecord}
    {p : UploadId → Ticket → Bool} {u : UploadId} {ticket : Ticket}
    (hticket : rec.tickets[u]? = some ticket) (hp : p u ticket = false) :
    Cleanup.removeStaging u ∉ rec.removals p := by
  intro hmem
  obtain ⟨v, ticket', hv, hticket', hp'⟩ := WorkspaceRecord.mem_removals.mp hmem
  cases hv
  rw [hticket] at hticket'
  cases hticket'
  rw [hp] at hp'
  cases hp'

omit [Crates] in
/-- The janitor spares the ticket, and the staging place, of an upload that has not
expired. -/
theorem Rules.cleanStaging_spares {r : Rules} {u : UploadId} {ticket : Ticket}
    (h0 : r.after = []) (hticket : r.record.tickets[u]? = some ticket)
    (hlive : r.now < ticket.expiresAt) :
    r.cleanStaging.2.record.tickets[u]? = some ticket ∧
      Cleanup.removeStaging u ∉ r.cleanStaging.2.after := by
  have hkept : r.cleanStaging.2.record.tickets[u]? = some ticket := by
    show (r.record.tickets.filter fun _ ticket => r.now < ticket.expiresAt)[u]? = some ticket
    rw [Map.get_filter, hticket, Option.filter_some, if_pos (decide_eq_true hlive)]
  refine ⟨hkept, fun hmem => ?_⟩
  rcases mem_cleanStaging_after.mp hmem with h | ⟨v, hv, -, hnone⟩ | ⟨g, hg, -⟩
  · rw [h0] at h
    cases h
  · cases hv
    rw [hkept] at hnone
    cases hnone
  · cases hg

omit [Crates] in
/-- A probe leaves every staging place but the one whose id it makes up again. -/
theorem Op.overwrites_probe {r : Rules} {caller : Caller} {v : UploadId}
    (hminted : (Op.probeWrite caller).minted r = [v]) (u : UploadId) :
    ((r.shelf.stageCreate v).stageRemove v).staging[u]? = r.shelf.staging[u]? ↔
      ¬ (Op.probeWrite caller).Overwrites r u := by
  -- the probe was allowed, and made up the first id that was drawn
  obtain ⟨hallowed, hdraw⟩ : r.probeAllowed caller = .ok () ∧ r.draws.head? = some v := by
    simp only [Op.minted] at hminted
    split at hminted
    · rename_i hallowed
      cases hdraws : r.draws with
      | nil =>
        rw [hdraws] at hminted
        cases hminted
      | cons d ds =>
        rw [hdraws] at hminted
        cases hminted
        exact ⟨hallowed, rfl⟩
    · cases hminted
  rw [MemoryShelf.stageRemove_staging, MemoryShelf.stageCreate_staging]
  show _ ↔ ¬(r.probeAllowed caller = .ok () ∧ r.draws.head? = some u ∧
    r.shelf.staging[u]? ≠ none)
  rw [hdraw]
  by_cases e : v = u
  · subst e
    rw [if_pos rfl]
    constructor
    · exact fun hnone hover => hover.2.2 hnone.symm
    · exact fun hover => (not_not.mp fun hsome =>
        hover ⟨hallowed, rfl, hsome⟩).symm
  · rw [if_neg e, if_neg e]
    exact iff_of_true rfl fun hover => e (Option.some.inj hover.2.1)

omit [Crates] in
/-- The end of a rewrite concerns every upload of it. -/
theorem Op.ordinary_of_not_concerns {before after : WorkspaceRecord} {now : Nat} {u : UploadId}
    {ticket : Ticket} {op : Op} {session : Session}
    (hother : ¬ op.Concerns before after now u ticket) (hstate : before.state = .rewriting session)
    (hended : after.stagedGeneration = none) : ticket.request.inRewrite = false := by
  rw [Bool.eq_false_iff]
  intro hin
  refine hother (.inr ⟨hin, ?_, hended⟩)
  rw [WorkspaceRecord.stagedGeneration_of_rewriting hstate]
  exact Option.some_ne_none _

/-- **What a change of another's leaves of an upload**: its ticket, and its staging place
unless a probe made up its id. -/
theorem Change.spares {r : Rules} {op : Op} {a : Answer} {rec : WorkspaceRecord}
    {shelf : MemoryShelf} {after : List Cleanup} (h0 : r.after = [])
    (h : Change r op a rec shelf after)
    {u : UploadId} {ticket : Ticket} (hticket : r.record.tickets[u]? = some ticket)
    (hother : ¬ op.Concerns r.record rec r.now u ticket) :
    rec.tickets[u]? = some ticket ∧ Cleanup.removeStaging u ∉ after ∧
      (shelf.staging[u]? = r.shelf.staging[u]? ↔ ¬ op.Overwrites r u) := by
  have htouches := fun hop => hother (.inl hop)
  -- another's upload is another upload: a live ticket of this one is its owner's
  have hlive : ∀ {caller : Caller} {v : UploadId} {ticket' : Ticket},
      r.record.liveTicket r.now caller v = some ticket' →
      ¬(v = u ∧ caller.key = ticket.owner) → v ≠ u := by
    rintro caller v ticket' hlive hnot rfl
    obtain ⟨hget, howner, -⟩ := WorkspaceRecord.liveTicket_eq_some hlive
    rw [hticket] at hget
    cases hget
    exact hnot ⟨rfl, howner.symm⟩
  have hkept : ∀ {p : UploadId → Ticket → Bool}, p u ticket = false →
      (r.record.tickets.filter fun v t => !p v t)[u]? = some ticket := by
    intro p hp
    rw [Map.get_filter, hticket, Option.filter_some, hp]
    rfl
  cases h with
  | kept hdone =>
    refine ⟨hticket, List.not_mem_nil, iff_of_true rfl fun hover => ?_⟩
    cases op <;> first | exact hover | exact hdone
  | discarded => exact ⟨hticket, List.not_mem_nil, iff_of_true rfl not_false⟩
  | replayed => exact ⟨hticket, List.not_mem_nil, iff_of_true rfl not_false⟩
  | deleted =>
    refine ⟨hticket, List.not_mem_nil, iff_of_true ?_ not_false⟩
    rw [MemoryShelf.remove_staging]
  | sealed _ _ hop =>
    refine ⟨hticket, List.not_mem_nil, iff_of_true rfl ?_⟩
    rcases hop with rfl | rfl <;> exact not_false
  | setAside => exact ⟨hticket, List.not_mem_nil, iff_of_true rfl not_false⟩
  | reheaded => exact ⟨hticket, List.not_mem_nil, iff_of_true rfl not_false⟩
  | @begun _ _ _ v _ _ _ hknown =>
    have hne : v ≠ u := by
      rintro rfl
      rw [(WorkspaceRecord.known_eq_false.mp hknown).1] at hticket
      cases hticket
    refine ⟨?_, List.not_mem_nil, iff_of_true ?_ not_false⟩
    · show (r.record.tickets.insert v _)[u]? = _
      rw [Map.get_insert_of_ne _ _ hne, hticket]
    · rw [MemoryShelf.stageCreate_staging, if_neg hne]
  | @rebegun caller request v ticket' _ hticket' howner hrequest _ _ =>
    have hne : v ≠ u := by
      rintro rfl
      rw [hticket] at hticket'
      cases hticket'
      exact htouches ⟨howner.symm, hrequest.symm⟩
    refine ⟨hticket, List.not_mem_nil, iff_of_true ?_ not_false⟩
    rw [MemoryShelf.stageCreate_staging, if_neg hne]
  | @stored caller request _ _ _ _ =>
    have hp : (ticket.owner = caller.key && ticket.request = request : Bool) = false := by
      rw [Bool.eq_false_iff]
      intro hp
      simp only [Bool.and_eq_true, decide_eq_true_eq] at hp
      exact htouches ⟨hp.1.symm, hp.2.symm⟩
    exact ⟨hkept hp, WorkspaceRecord.not_mem_removals hticket hp, iff_of_true rfl not_false⟩
  | put hput =>
    refine ⟨hticket, List.not_mem_nil, iff_of_true ?_ not_false⟩
    rw [MemoryShelf.write_staging_of_ne _ (hlive hput htouches)]
  | duplicate hcommit =>
    have hne := hlive hcommit htouches
    refine ⟨?_, by simpa using hne.symm, iff_of_true rfl not_false⟩
    show (r.record.tickets.erase _)[u]? = _
    rw [Map.get_erase_of_ne _ hne, hticket]
  | published hcommit _ _ _ _ hstaging =>
    have hne := hlive hcommit htouches
    refine ⟨?_, by simpa using hne.symm, iff_of_true ?_ not_false⟩
    · show (r.record.tickets.erase _)[u]? = _
      rw [Map.get_erase_of_ne _ hne, hticket]
    · rw [hstaging, Map.get_erase_of_ne _ hne]
  | recovered hcommit =>
    have hne := hlive hcommit htouches
    refine ⟨?_, by simpa using hne.symm, iff_of_true rfl not_false⟩
    show (r.record.tickets.erase _)[u]? = _
    rw [Map.get_erase_of_ne _ hne, hticket]
  | @aborted caller v =>
    have hp : (u = v && ticket.owner = caller.key : Bool) = false := by
      rw [Bool.eq_false_iff]
      intro hp
      simp only [Bool.and_eq_true, decide_eq_true_eq] at hp
      exact htouches ⟨hp.1.symm, hp.2.symm⟩
    exact ⟨hkept hp, WorkspaceRecord.not_mem_removals hticket hp, iff_of_true rfl not_false⟩
  | probed hminted => exact ⟨hticket, List.not_mem_nil, Op.overwrites_probe hminted u⟩
  | opened => exact ⟨hticket, List.not_mem_nil, iff_of_true rfl not_false⟩
  | renewed _ hrenews =>
    refine ⟨hticket, List.not_mem_nil, iff_of_true rfl fun hover => ?_⟩
    cases op <;> first | exact hover | exact hrenews
  | @switched caller newKeyId view session hstate =>
    have hin := Op.ordinary_of_not_concerns hother hstate rfl
    refine ⟨hkept (p := fun _ t => t.request.inRewrite) hin, ?_, iff_of_true rfl not_false⟩
    rw [List.mem_cons, not_or]
    refine ⟨by simp, ?_⟩
    exact WorkspaceRecord.not_mem_removals (p := fun _ t => t.request.inRewrite) hticket hin
  | @restored op view session hstate haborts =>
    have hin := Op.ordinary_of_not_concerns hother hstate rfl
    refine ⟨hkept (p := fun _ t => t.request.inRewrite) hin, ?_, iff_of_true rfl fun hover => ?_⟩
    · rw [List.mem_cons, not_or]
      refine ⟨by simp, ?_⟩
      exact WorkspaceRecord.not_mem_removals (p := fun _ t => t.request.inRewrite) hticket hin
    · cases op <;> first | exact hover | exact haborts
  | cleaned =>
    obtain ⟨hstays, hspared⟩ :=
      Rules.cleanStaging_spares h0 hticket (Nat.lt_of_not_le htouches)
    exact ⟨hstays, hspared, iff_of_true rfl not_false⟩
  | reconciled =>
    obtain ⟨hstays, hspared⟩ := Rules.cleanStaging_spares
      (r := { r with record := { r.record with
        used := r.record.liveGenerations.foldl
          (fun used g => used.insert g (r.shelf.bytes g)) r.record.used } })
      h0 hticket (Nat.lt_of_not_le htouches)
    exact ⟨hstays, hspared, iff_of_true rfl not_false⟩

/-! ## What a refusal leaves of it -/

/-- A probe that makes up an id is not refused. -/
theorem Op.not_overwrites_refused {op : Op} {r r' : Rules} {e : ApiError} {u : UploadId}
    (h : op.rule r = (.error e, r')) : ¬ op.Overwrites r u := by
  intro hover
  cases op with
  | probeWrite caller =>
    obtain ⟨hallowed, hdraw, -⟩ := hover
    obtain ⟨draws, hdraws⟩ := List.head?_eq_some_iff.mp hdraw
    have hrule : r.probeWrite caller = (.error e, r') := answering_error h
    unfold Rules.probeWrite at hrule
    rw [hallowed, hdraws] at hrule
    cases hrule
  | _ => exact hover

/-- A refusal of another's request leaves the staging place as it is. -/
theorem Op.refused_spares {op : Op} {r r' : Rules} {e : ApiError} {u : UploadId}
    {ticket : Ticket} (hticket : r.record.tickets[u]? = some ticket)
    (hother : ¬ op.Concerns r.record r.record r.now u ticket)
    (h : op.rule r = (.error e, r')) : r'.shelf.staging[u]? = r.shelf.staging[u]? := by
  by_cases hput : ∃ caller v content, op = .putUploadContent caller v content
  · obtain ⟨caller, v, content, rfl⟩ := hput
    have hr : (r.putUploadContent caller v content).2 = r' := by rw [answering_error h]
    obtain hsame | ⟨ticket', hlive, hwrite⟩ := r.putUploadContent_cases caller v content
    · rw [← hr, hsame]
    · have hne : v ≠ u := by
        rintro rfl
        obtain ⟨hget, howner, -⟩ := WorkspaceRecord.liveTicket_eq_some hlive
        rw [hticket] at hget
        cases hget
        exact hother (.inl ⟨rfl, howner.symm⟩)
      rw [← hr, hwrite]
      exact MemoryShelf.write_staging_of_ne _ hne _ _ _
  · rw [Op.refused_shelf (fun caller v content hop => hput ⟨caller, v, content, hop⟩) h]

/-! ## Every operation, in every run -/

namespace World

variable {limits : Limits} {w : World} {u : UploadId} {ticket : Ticket}

/-- **One operation of another's**, with its clean-ups: the ticket stays, and the staging
place is the same exactly when no probe made up its id. -/
theorem serve_spares (hticket : w.record.tickets[u]? = some ticket) {call : Call} {op : Op}
    (hother : ¬ op.Concerns w.record (w.serve limits (call, op)).record call.now u ticket) :
    (w.serve limits (call, op)).record.tickets[u]? = some ticket ∧
      ((w.serve limits (call, op)).shelf.staging[u]? = w.shelf.staging[u]? ↔
        ¬ op.Overwrites (w.rules limits call) u) := by
  cases hanswer : (Engine.run w limits call op).1 with
  | ok a =>
    obtain ⟨rec, shelf, after, hchange, hrun⟩ := Engine.run_ok hanswer
    have hserve : w.serve limits (call, op) = ⟨rec, sweep shelf after, w.pending⟩ :=
      serve_eq hrun rfl
    rw [hserve] at hother ⊢
    obtain ⟨hstays, hspared, hplace⟩ := Change.spares rfl hchange hticket hother
    refine ⟨hstays, ?_⟩
    show (sweep shelf after).staging[u]? = _ ↔ _
    rw [sweep_staging_of_not_mem hspared]
    exact hplace
  | error e =>
    obtain ⟨r', hrule, hrun⟩ := Engine.run_error hanswer
    have hserve : w.serve limits (call, op) = ⟨w.record, sweep r'.shelf [], w.pending⟩ :=
      serve_eq hrun (List.append_nil _).symm
    rw [hserve] at hother ⊢
    refine ⟨hticket, iff_of_true ?_ (Op.not_overwrites_refused hrule)⟩
    exact Op.refused_spares (r := w.rules limits call) hticket hother hrule

/-- **An upload's staging place is its own, but for a probe's made-up id.** In every
reachable state, an operation that is not about an upload leaves, with its clean-ups, the
staging place of the upload as it is if and only if it is not a probe that makes up the
id of the upload; and so in every run of such operations the staging place stays as it
is. -/
theorem ownPlace_run (limits : Limits) (es : List Event) (u : UploadId) (ticket : Ticket)
    (hticket : (initial.run limits es).record.tickets[u]? = some ticket) :
    (∀ (call : Call) (op : Op),
      ¬ op.Concerns (initial.run limits es).record
        ((initial.run limits es).serve limits (call, op)).record call.now u ticket →
      (((initial.run limits es).serve limits (call, op)).shelf.staging[u]? =
          (initial.run limits es).shelf.staging[u]? ↔
        ¬ op.Overwrites ((initial.run limits es).rules limits call) u)) ∧
    ∀ steps : List (Call × Op),
      Runs.Along (serve limits)
        (fun w step => ¬ step.2.Concerns w.record (w.serve limits step).record step.1.now u
          ticket ∧ ¬ step.2.Overwrites (w.rules limits step.1) u)
        (initial.run limits es) steps →
      (Runs.run (serve limits) (initial.run limits es) steps).shelf.staging[u]? =
        (initial.run limits es).shelf.staging[u]? := by
  generalize initial.run limits es = w at hticket ⊢
  refine ⟨fun call op hother => (serve_spares hticket hother).2, fun steps halong => ?_⟩
  have hkept := Runs.invariant (serve limits)
    (I := fun w' => w'.record.tickets[u]? = some ticket ∧
      w'.shelf.staging[u]? = w.shelf.staging[u]?)
    (fun w' step h hstep => by
      obtain ⟨hstays, hplace⟩ := serve_spares h.1 hstep.1
      exact ⟨hstays, (hplace.mpr hstep.2).trans h.2⟩)
    ⟨hticket, rfl⟩ halong
  exact hkept.2

end World

end

namespace Sample

/-- The laptop has sent a note, and is about to commit it. -/
def handedOver : List Event :=
  [.request (call 0 [1]) (.beginUpload laptop (request 2 none)),
    .request (call 0 []) (.putUploadContent laptop (upload 1) [.piece [1, 2]])]

def handedTicket : Ticket := ⟨laptop.key, request 2 none, 10⟩

/-- The phone asks whether it could store an item; the random source gives an id again. -/
def repeatedProbe : Call × Op := (call 1 [1], .probeWrite phone)

/-- The same with an id of its own, and an upload of the phone's. -/
def besides : List (Call × Op) :=
  [(call 1 [2], .probeWrite phone),
    (call 1 [1, 3], .beginUpload phone ⟨⟨2, 8⟩, [], 3, none, false⟩)]

end Sample

/-- The phone's probe removes what the laptop has sent. -/
theorem World.ownPlace_probed :
    let w := @World.run Sample.crates Sample.limits .initial Sample.handedOver
    let w' := @World.serve Sample.crates Sample.limits w Sample.repeatedProbe
    w.record.tickets[Sample.upload 1]? = some Sample.handedTicket ∧
      ¬ Sample.repeatedProbe.2.Concerns w.record w'.record 1 (Sample.upload 1)
        Sample.handedTicket ∧
      w.shelf.staging[Sample.upload 1]? = some ⟨[1, 2], none⟩ ∧
      w'.shelf.staging[Sample.upload 1]? = none := by
  refine ⟨by decide +kernel, ?_, by decide +kernel, by decide +kernel⟩
  rintro (h | ⟨h, -⟩)
  · exact h
  · revert h
    decide +kernel

/-- A probe and an upload beside it leave it: the phone's upload drew its id again, and
got another. -/
theorem World.ownPlace_besides :
    let w := @World.run Sample.crates Sample.limits .initial Sample.handedOver
    (Runs.run (@World.serve Sample.crates Sample.limits) w
        Sample.besides).shelf.staging[Sample.upload 1]? =
      w.shelf.staging[Sample.upload 1]? := by
  refine (@World.ownPlace_run Sample.crates Sample.limits Sample.handedOver (Sample.upload 1)
    Sample.handedTicket (by decide +kernel)).2 Sample.besides ⟨⟨?_, ?_⟩, ⟨?_, ?_⟩, trivial⟩
  · rintro (h | ⟨h, -⟩)
    · exact h
    · revert h
      decide +kernel
  · rintro ⟨-, hdraw, -⟩
    revert hdraw
    decide +kernel
  · rintro (⟨h, -⟩ | ⟨h, -⟩) <;>
    · revert h
      decide +kernel
  · exact not_false

end Passalong
