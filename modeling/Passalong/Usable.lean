import Passalong.Outcomes
import Passalong.Refusals

/-!
# Tickets are good for an upload (`upload.rs`)

What a client does with a ticket: it sends the content, and commits. Both succeed, in
every reachable state, whatever crashes have left behind, because `beginUpload` answers a
ticket only when nothing with the content key is stored where the upload goes, and only
after it has made sure that the staging place is there (`usable_run`).

A commit that answers `ContentMismatch` promises the same of the ticket the client has
already: the content may be sent again. Here no one makes sure of the staging place. It
is gone when a commit published the item and stopped before it was recorded, and the item
was deleted before the commit was sent again. The put is then answered `NotFound`, and
the promise holds exactly when the staging place is there (`resent_run`).

1. `write_delivered`: what a stream delivers is what is staged, if it is not too long.
2. `put_awaited`, `put_missing`: a put under a live ticket, by the staging place.
3. `commit_sent`: a commit of exactly what was announced.
-/

namespace Passalong

open Lib

/-! ## What a content stream delivers -/

/-- The bytes a content stream gives to whoever reads it to its end; `none` when a read
fails. -/
def delivered : Source → Option Bytes
  | [] => some []
  | .interrupted :: rest => delivered rest
  | .failed :: _ => none
  | .piece bytes :: rest =>
    if bytes = [] then some [] else (delivered rest).map (bytes ++ ·)

/-- A stream that delivers no more than was announced is read whole. -/
theorem pump_delivered {announced total : Nat} {content : Source} {bytes : Bytes}
    (h : delivered content = some bytes) (hfits : total + bytes.length ≤ announced) :
    ∃ sunk, pump announced content total = (.ok (total + bytes.length), sunk) ∧
      sunk.flatten = bytes := by
  induction content generalizing total bytes with
  | nil =>
    cases h
    exact ⟨[], rfl, rfl⟩
  | cons read rest ih =>
    cases read with
    | interrupted => exact ih h hfits
    | failed => cases h
    | piece piece =>
      unfold delivered at h
      unfold pump
      by_cases hend : piece = []
      · rw [if_pos hend] at h ⊢
        cases h
        exact ⟨[], rfl, rfl⟩
      · rw [if_neg hend] at h ⊢
        obtain ⟨more, hmore, rfl⟩ := Option.map_eq_some_iff.mp h
        rw [List.length_append] at hfits
        have hshort : ¬announced < total + piece.length := by omega
        obtain ⟨sunk, hpump, hsunk⟩ :=
          ih hmore (show total + piece.length + more.length ≤ announced by omega)
        rw [if_neg hshort, hpump]
        refine ⟨piece :: sunk, ?_, ?_⟩
        · rw [List.length_append, Nat.add_assoc]
        · rw [List.flatten_cons, hsunk]

section
variable [Crates]

/-- What is staged once it is written, with its digest if that is asked for. -/
def Staged.written (bytes : Bytes) (hashed : Bool) : Staged :=
  ⟨bytes, if hashed then some (Crates.sha256 bytes) else none⟩

/-- **Writing to a staging place that is there** stages what the stream delivers. -/
theorem MemoryShelf.write_delivered {s : MemoryShelf} {u : UploadId} {content : Source}
    {bytes : Bytes} {announced : Nat} {hashed : Bool} (hthere : s.staging[u]?.isSome)
    (h : delivered content = some bytes) (hfits : bytes.length ≤ announced) :
    s.write u content announced hashed =
      (.ok bytes.length,
        { s with staging := s.staging.insert u (Staged.written bytes hashed) }) := by
  obtain ⟨staged, hstaged⟩ := Option.isSome_iff_exists.mp hthere
  obtain ⟨sunk, hpump, hsunk⟩ :=
    pump_delivered h (show 0 + bytes.length ≤ announced by omega)
  unfold write
  rw [if_pos (Map.contains_iff_get.mpr ⟨staged, hstaged⟩), hpump]
  simp only [hsunk, Nat.zero_add, Staged.written]

/-- A staging place that is not there is not written to. -/
theorem MemoryShelf.write_missing {s : MemoryShelf} {u : UploadId} {content : Source}
    {announced : Nat} {hashed : Bool} (hgone : s.staging[u]? = none) :
    s.write u content announced hashed = (.error .notFound, s) := by
  unfold write
  rw [if_neg]
  rw [Map.contains_eq_false_iff.mpr hgone]
  exact Bool.false_ne_true

/-- The content is what its `meta` and its id say. -/
def UploadRequest.Describes (request : UploadRequest) (bytes : Bytes) : Prop :=
  ∃ fields, Crates.readMeta request.metaJson = some fields ∧
    fields.sha256 = some (Crates.sha256 bytes).hex ∧ fields.size = some request.size ∧
    request.id.contentKey = (Crates.sha256 bytes).contentKey

namespace Rules

variable {r : Rules} {caller : Caller} {u : UploadId} {ticket : Ticket} {content : Source}
  {bytes : Bytes}

/-- **A put under a live ticket** stages what it delivers. -/
theorem put_awaited (hstone : r.record.tombstones[u]? = none)
    (hticket : r.record.liveTicket r.now caller u = some ticket)
    (hthere : r.shelf.staging[u]?.isSome) (h : delivered content = some bytes)
    (hsize : bytes.length = ticket.request.size) :
    r.putUploadContent caller u content =
      (.ok (), { r with
        shelf := { r.shelf with
          staging := r.shelf.staging.insert u
            (Staged.written bytes (r.checksContent ticket.request)) } }) := by
  have hnone : r.record.tombstone r.now caller u = none := by
    rw [WorkspaceRecord.tombstone, hstone]
    rfl
  have hwrite : ∀ hashed, r.shelf.write u content ticket.request.size hashed =
      (.ok bytes.length, { r.shelf with
        staging := r.shelf.staging.insert u (Staged.written bytes hashed) }) :=
    fun _ => MemoryShelf.write_delivered hthere h (Nat.le_of_eq hsize)
  unfold putUploadContent
  rw [hnone, hticket]
  cases hchecks : r.checksContent ticket.request with
  | true =>
    simp only [hchecks, if_true, MemoryShelf.stageWriteHashed, hwrite]
    rfl
  | false =>
    simp only [hchecks, Bool.false_eq_true, if_false, MemoryShelf.stageWrite, hwrite]
    rfl

/-- A put whose staging place is gone is refused. -/
theorem put_missing (hstone : r.record.tombstones[u]? = none)
    (hgone : r.shelf.staging[u]? = none) :
    (r.putUploadContent caller u content).1 = .error .notFound := by
  have hnone : r.record.tombstone r.now caller u = none := by
    rw [WorkspaceRecord.tombstone, hstone]
    rfl
  unfold putUploadContent
  rw [hnone]
  cases r.record.liveTicket r.now caller u with
  | none => rfl
  | some ticket =>
    cases hchecks : r.checksContent ticket.request <;>
      simp [hchecks, MemoryShelf.stageWriteHashed, MemoryShelf.stageWrite,
        MemoryShelf.write_missing hgone, Except.map]

/-- The look inside `meta` finds what was staged with its digest. -/
theorem checkPlaintext_described {request : UploadRequest}
    (hstaged : r.shelf.staging[u]? = some (Staged.written bytes true))
    (hmeta : request.Describes bytes) : r.checkPlaintext u request = .ok () := by
  obtain ⟨fields, hread, hsha, hsaid, hkey⟩ := hmeta
  have hdigest : r.shelf.stageDigest u = some (Crates.sha256 bytes) := by
    rw [MemoryShelf.stageDigest, hstaged]
    rfl
  unfold checkPlaintext
  rw [hread]
  simp only [hdigest, hsha, hsaid]
  exact if_pos ⟨trivial, trivial, hkey⟩

/-- **A commit of exactly what was announced**, sent under a live ticket to where it may
go: the outcome is someone else's item with this content, or a new item of these
bytes. -/
theorem commit_sent {g : Nat} (hstone : r.record.tombstones[u]? = none)
    (hticket : r.record.liveTicket r.now caller u = some ticket)
    (htarget : r.record.Targets caller ticket.request g)
    (hstaged : r.shelf.staging[u]? =
      some (Staged.written bytes (r.checksContent ticket.request)))
    (hsize : bytes.length = ticket.request.size)
    (hmeta : r.checksContent ticket.request = true → ticket.request.Describes bytes) :
    (∀ id, findIn r.shelf g ticket.request.id.contentKey = some id →
      (r.commitUpload caller u).1 = .ok ⟨id, false, ticket.request.inRewrite⟩) ∧
    (findIn r.shelf g ticket.request.id.contentKey = none →
      (r.commitUpload caller u).1 = .ok ⟨ticket.request.id, true, ticket.request.inRewrite⟩ ∧
      ((r.commitUpload caller u).2.shelf.generation g)[ticket.request.id]? =
        some ⟨bytes, ⟨ticket.request.metaJson, ticket.request.expectedKeyId, r.now⟩⟩) := by
  have hnone : r.record.tombstone r.now caller u = none := by
    rw [WorkspaceRecord.tombstone, hstone]
    rfl
  have hsome : r.shelf.stageSize u = some ticket.request.size := by
    rw [MemoryShelf.stageSize, hstaged, ← hsize]
    rfl
  -- nothing stands between the ticket and the publish
  have hcommit : r.commitUpload caller u = r.settleUpload u ticket g := by
    unfold commitUpload
    rw [hnone, hticket]
    simp only [check, htarget.goes, hsome]
    rw [if_neg (fun h => Option.some_ne_none _ h.1), if_neg (not_not.mpr rfl)]
    cases hchecks : r.checksContent ticket.request with
    | false => rw [if_neg Bool.false_ne_true]
    | true =>
      rw [hchecks] at hstaged
      rw [if_pos rfl, checkPlaintext_described hstaged (hmeta hchecks)]
  rw [hcommit]
  unfold settleUpload
  refine ⟨fun id hfound => by rw [hfound]; rfl, fun hnew => ?_⟩
  rw [hnew]
  dsimp only
  obtain ⟨hgone, -⟩ | ⟨-, -, ⟨item, hitem⟩, -⟩ | ⟨staged, s', hst, -, hpub, -, hgen⟩ :=
    r.shelf.publish_cases u g ticket.request.id
      ⟨ticket.request.metaJson, ticket.request.expectedKeyId, r.now⟩
  · rw [hstaged] at hgone
    cases hgone
  · exact absurd rfl (findIn_eq_none_iff.mp hnew _ item hitem)
  · rw [hstaged] at hst
    cases hst
    rw [hpub]
    refine ⟨rfl, ?_⟩
    show (s'.generation g)[ticket.request.id]? = _
    rw [hgen, if_pos rfl, Map.get_insert_self]
    rfl

omit [Crates] in
/-- **What a begin that answers a ticket has found and made**: nothing with the content
key is stored where the upload goes, and the ticket is the caller's, with its staging
place. -/
theorem beginUpload_ticket {r' : Rules} {request : UploadRequest} {t : UploadTicket}
    (h : r.beginUpload caller request = (.ok (.ticket t), r')) :
    ∃ g ticket, r.record.Targets caller request g ∧
      findIn r.shelf g request.id.contentKey = none ∧
      r'.record.tickets[t.uploadId]? = some ticket ∧ ticket.owner = caller.key ∧
      ticket.request = request ∧ ticket.expiresAt = t.expiresAt ∧
      r'.record.state = r.record.state ∧ r'.record.generation = r.record.generation ∧
      r'.shelf = r.shelf.stageCreate t.uploadId := by
  unfold beginUpload at h
  obtain ⟨e, -, he⟩ | ⟨-, -, h⟩ := check_cases h
  · cases he
  obtain ⟨e, -, he⟩ | ⟨g, htarget, h⟩ := check_cases h
  · cases he
  have htarget := WorkspaceRecord.uploadTarget_ok htarget
  split at h
  · cases h
  · split at h
    · cases h
    · rename_i hnew
      split at h
      · rename_i u ticket hlive
        obtain ⟨hget, -, howner, hrequest⟩ := WorkspaceRecord.liveTicketFor_eq_some hlive
        cases h
        exact ⟨g, ticket, htarget, hnew, hget, howner, hrequest, rfl, rfl, rfl, rfl⟩
      · split at h
        · cases h
        · split at h
          · cases h
          · rename_i u draws _
            cases h
            refine ⟨g, ⟨caller.key, request, _⟩, htarget, hnew, ?_, rfl, rfl, rfl, rfl, rfl, rfl⟩
            exact Map.get_insert_self _ _ _

/-- A commit that finds the content wrong has a live ticket, and its target. -/
theorem commitUpload_mismatch {r' : Rules}
    (h : r.commitUpload caller u = (.error .contentMismatch, r')) :
    ∃ ticket g, r.record.liveTicket r.now caller u = some ticket ∧
      r.record.Targets caller ticket.request g := by
  unfold commitUpload at h
  split at h
  · cases h
  · split at h
    · cases h
    · rename_i ticket hticket
      obtain ⟨e, hrefused, he⟩ | ⟨g, htarget, -⟩ := check_cases h
      · -- no target is refused in these words
        cases he
        unfold WorkspaceRecord.uploadTarget WorkspaceRecord.rewriteTarget
          WorkspaceRecord.heldSession WorkspaceRecord.checkWritable at hrefused
        grind
      · exact ⟨ticket, g, hticket, WorkspaceRecord.uploadTarget_ok htarget⟩

end Rules

omit [Crates] in
/-- Where an upload goes depends on the encryption and the current generation only. -/
theorem WorkspaceRecord.Targets.congr {rec rec' : WorkspaceRecord} {caller : Caller}
    {request : UploadRequest} {g : Nat} (h : rec.Targets caller request g)
    (hstate : rec'.state = rec.state) (hgen : rec'.generation = rec.generation) :
    rec'.Targets caller request g := by
  cases h with
  | staged session hopen hin hholder hkey =>
    exact .staged session (hstate.trans hopen) hin hholder hkey
  | current sealed hsettled hin hkey =>
    rw [← hgen]
    exact .current sealed (hstate.trans hsettled) hin hkey

/-! ## As the engine runs them -/

/-- An operation is answered what its rule answers, and leaves the shelf its rule
leaves. -/
theorem Engine.run_rule (w : World) (limits : Limits) (call : Call) (op : Op) :
    (Engine.run w limits call op).1 = (op.rule (w.rules limits call)).1 ∧
      (Engine.run w limits call op).2.shelf = (op.rule (w.rules limits call)).2.shelf := by
  unfold Engine.run Engine.read Engine.write
  rcases op.rule (w.rules limits call) with ⟨answer, r'⟩
  cases answer <;> (split <;> exact ⟨rfl, rfl⟩)

namespace World

/-- A ticket of the caller's that may be used: its upload has not finished, may go where
it goes, and has its staging place. -/
structure Ready (w : World) (caller : Caller) (u : UploadId) (ticket : Ticket) (g : Nat) :
    Prop where
  stone : w.record.tombstones[u]? = none
  held : w.record.tickets[u]? = some ticket
  owner : ticket.owner = caller.key
  target : w.record.Targets caller ticket.request g
  there : w.shelf.staging[u]?.isSome

variable {limits : Limits} {w : World} {caller : Caller} {u : UploadId} {ticket : Ticket}
  {g : Nat} {content : Source} {bytes : Bytes} {put commit : Call}

omit [Crates] in
/-- The ticket is live before it expires. -/
theorem Ready.live (h : w.Ready caller u ticket g) {now : Nat} (hlive : now < ticket.expiresAt) :
    w.record.liveTicket now caller u = some ticket := by
  rw [WorkspaceRecord.liveTicket, h.held, Option.filter_some, if_pos]
  simp [h.owner, hlive]

/-- **A ticket that may be used is good for an upload** of exactly what was announced:
the content is accepted, and the commit is answered with an item of this content. -/
theorem Ready.redeemed (h : w.Ready caller u ticket g) (hcontent : delivered content = some bytes)
    (hsize : bytes.length = ticket.request.size)
    (hmeta : limits.checkPlaintextContent = true → ticket.request.expectedKeyId = none →
      ticket.request.Describes bytes)
    (hput : put.now < ticket.expiresAt) (hcommit : commit.now < ticket.expiresAt) :
    let sent := Engine.run w limits put (.putUploadContent caller u content)
    let done := Engine.run sent.2 limits commit (.commitUpload caller u)
    sent.1 = .ok .done ∧
    (∀ id, findIn w.shelf g ticket.request.id.contentKey = some id →
      done.1 = .ok (.outcome ⟨id, false, ticket.request.inRewrite⟩)) ∧
    (findIn w.shelf g ticket.request.id.contentKey = none →
      done.1 = .ok (.outcome ⟨ticket.request.id, true, ticket.request.inRewrite⟩) ∧
      (done.2.shelf.generation g)[ticket.request.id]? =
        some ⟨bytes, ⟨ticket.request.metaJson, ticket.request.expectedKeyId, commit.now⟩⟩) := by
  have hsent : Engine.run w limits put (.putUploadContent caller u content) =
      (.ok .done, { w with
        shelf := { w.shelf with
          staging := w.shelf.staging.insert u
            (Staged.written bytes ((w.rules limits put).checksContent ticket.request)) } }) := by
    unfold Engine.run Engine.read
    rw [if_pos (show (Op.putUploadContent caller u content).readsOnly = true from rfl), Op.rule,
      Rules.put_awaited (r := w.rules limits put) h.stone (h.live hput)
      h.there hcontent hsize]
    rfl
  rw [hsent]
  refine ⟨rfl, ?_⟩
  dsimp only
  generalize hw₁ : ({ w with shelf := _ } : World) = w₁
  -- the commit finds the record as it was, and what was sent
  have hcommitted := @Rules.commit_sent _ (w₁.rules limits commit) caller u ticket bytes g
    (by subst hw₁; exact h.stone)
    (by subst hw₁; exact h.live hcommit) (by subst hw₁; exact h.target)
    (by subst hw₁; exact Map.get_insert_self _ _ _) hsize
    (fun hchecks => by
      have hboth : limits.checkPlaintextContent = true ∧
          ticket.request.expectedKeyId.isNone = true := by
        simpa [Rules.checksContent, World.rules] using hchecks
      exact hmeta hboth.1 (Option.isNone_iff_eq_none.mp hboth.2))
  have hfind : findIn w₁.shelf g ticket.request.id.contentKey =
      findIn w.shelf g ticket.request.id.contentKey := by
    subst hw₁
    exact findIn_congr rfl _
  obtain ⟨hanswer, hshelf⟩ := Engine.run_rule w₁ limits commit (.commitUpload caller u)
  rw [hanswer, hshelf, ← hfind]
  constructor
  · intro id hfound
    show ((w₁.rules limits commit).commitUpload caller u).1.map Answer.outcome = _
    rw [hcommitted.1 id hfound]
    rfl
  · intro hnew
    obtain ⟨hdone, hitem⟩ := hcommitted.2 hnew
    refine ⟨?_, hitem⟩
    show ((w₁.rules limits commit).commitUpload caller u).1.map Answer.outcome = _
    rw [hdone]
    rfl

/-- A begin that answers a ticket leaves it ready, with nothing stored in its way. -/
theorem begun_ready {begin : Call} {request : UploadRequest} {t : UploadTicket} {a : Answer}
    (ha : a = .begun (.ticket t))
    (hapart : (w.exec limits (.request begin (.beginUpload caller request))).record.Apart)
    (h : (Engine.run w limits begin (.beginUpload caller request)).1 = .ok a) :
    ∃ ticket g, ticket.request = request ∧ ticket.expiresAt = t.expiresAt ∧
      w.record.Targets caller request g ∧
      (Engine.run w limits begin (.beginUpload caller request)).2.Ready caller t.uploadId
        ticket g ∧
      findIn (Engine.run w limits begin (.beginUpload caller request)).2.shelf g
        request.id.contentKey = none := by
  subst ha
  change (Engine.run w limits begin (.beginUpload caller request)).2.record.Apart at hapart
  unfold Engine.run Engine.write at h hapart ⊢
  rw [if_neg (show ¬(Op.beginUpload caller request).readsOnly = true from Bool.false_ne_true)]
    at h hapart ⊢
  rcases hout : (Op.beginUpload caller request).rule (w.rules limits begin) with ⟨answer, r'⟩
  rw [hout] at h hapart
  cases answer with
  | error e => cases h
  | ok b =>
    obtain rfl := Except.ok.inj h
    obtain ⟨begun, hrule, hb⟩ := answering_ok hout
    cases hb
    obtain ⟨g, ticket, htarget, hnew, hget, howner, hrequest, hexpires, hstate, hgen, hshelf⟩ :=
      Rules.beginUpload_ticket hrule
    have hthere : r'.shelf.staging[t.uploadId]?.isSome := by
      rw [hshelf, MemoryShelf.stageCreate_staging, if_pos rfl]
      rfl
    have hstone : r'.record.tombstones[t.uploadId]? = none := by
      cases hstone : r'.record.tombstones[t.uploadId]? with
      | none => rfl
      | some stone =>
        have hnone := hapart _ _ hstone
        change r'.record.tickets[t.uploadId]? = none at hnone
        rw [hget] at hnone
        cases hnone
    subst hrequest
    refine ⟨ticket, g, rfl, hexpires, htarget, ⟨hstone, hget, howner, ?_, hthere⟩, ?_⟩
    · exact htarget.congr hstate hgen
    · show findIn r'.shelf g _ = none
      rw [hshelf, ← hnew]
      exact findIn_congr (MemoryShelf.stageCreate_generation _ _ _) _

/-- **Every ticket handed out is usable.** In every reachable state, a begin that answers
a ticket, followed by a put of exactly what was announced and a commit before it expires,
comes to the item that was asked for: new, with the id that was proposed, where the upload
goes, of exactly these bytes. -/
theorem usable_run (limits : Limits) (es : List Event) (caller : Caller)
    (request : UploadRequest) (t : UploadTicket) (content : Source) (bytes : Bytes)
    (begin put commit : Call)
    (hbegun : (Engine.run (initial.run limits es) limits begin
      (.beginUpload caller request)).1 = .ok (.begun (.ticket t)))
    (hcontent : delivered content = some bytes) (hsize : bytes.length = request.size)
    (hmeta : limits.checkPlaintextContent = true → request.expectedKeyId = none →
      request.Describes bytes)
    (hput : put.now < t.expiresAt) (hcommit : commit.now < t.expiresAt) :
    let begun := Engine.run (initial.run limits es) limits begin (.beginUpload caller request)
    let sent := Engine.run begun.2 limits put (.putUploadContent caller t.uploadId content)
    let done := Engine.run sent.2 limits commit (.commitUpload caller t.uploadId)
    sent.1 = .ok .done ∧ done.1 = .ok (.outcome ⟨request.id, true, request.inRewrite⟩) ∧
      ∃ g, (initial.run limits es).record.Targets caller request g ∧
        (done.2.shelf.generation g)[request.id]? =
          some ⟨bytes, ⟨request.metaJson, request.expectedKeyId, commit.now⟩⟩ := by
  have hapart : ((initial.run limits es).exec limits
      (.request begin (.beginUpload caller request))).record.Apart := by
    have hrun := @apart_run _ limits (es ++ [.request begin (.beginUpload caller request)])
    unfold run at hrun
    rw [Runs.run_append] at hrun
    exact hrun
  obtain ⟨ticket, g, rfl, hexpires, htarget, hready, hnew⟩ := begun_ready rfl hapart hbegun
  rw [← hexpires] at hput hcommit
  obtain ⟨hsent, -, hdone⟩ := hready.redeemed hcontent hsize hmeta hput hcommit
  obtain ⟨hanswer, hitem⟩ := hdone hnew
  exact ⟨hsent, hanswer, g, htarget, hitem⟩

/-- A put and a commit that come to an item: the one that is stored already with this
content, or a new one of these bytes. -/
def Redeems (limits : Limits) (w : World) (caller : Caller) (u : UploadId)
    (request : UploadRequest) (content : Source) (bytes : Bytes) (put commit : Call) : Prop :=
  let sent := Engine.run w limits put (.putUploadContent caller u content)
  let done := Engine.run sent.2 limits commit (.commitUpload caller u)
  sent.1 = .ok .done ∧ ∃ g, w.record.Targets caller request g ∧
    match findIn w.shelf g request.id.contentKey with
    | some id => done.1 = .ok (.outcome ⟨id, false, request.inRewrite⟩)
    | none =>
      done.1 = .ok (.outcome ⟨request.id, true, request.inRewrite⟩) ∧
      (done.2.shelf.generation g)[request.id]? =
        some ⟨bytes, ⟨request.metaJson, request.expectedKeyId, commit.now⟩⟩

/-- **After `ContentMismatch` the content may be sent again, if the staging place is
there.** In every reachable state in which a commit answers `ContentMismatch`, a put of
exactly what was announced and a commit, before the ticket expires, succeed if and only
if the staging place of the upload is there. -/
theorem resent_run (limits : Limits) (es : List Event) (caller : Caller) (u : UploadId)
    (ticket : Ticket) (content : Source) (bytes : Bytes) (first put commit : Call)
    (hmismatch : (Engine.run (initial.run limits es) limits first
      (.commitUpload caller u)).1 = .error .contentMismatch)
    (hticket : (initial.run limits es).record.tickets[u]? = some ticket)
    (hcontent : delivered content = some bytes) (hsize : bytes.length = ticket.request.size)
    (hmeta : limits.checkPlaintextContent = true → ticket.request.expectedKeyId = none →
      ticket.request.Describes bytes)
    (hput : put.now < ticket.expiresAt) (hcommit : commit.now < ticket.expiresAt) :
    (Engine.run (initial.run limits es) limits first (.commitUpload caller u)).2.Redeems limits
        caller u ticket.request content bytes put commit ↔
      (initial.run limits es).shelf.staging[u]?.isSome := by
  have hrefused : (Engine.run (initial.run limits es) limits first (.commitUpload caller u)).2 =
      initial.run limits es := Engine.run_refused (fun _ _ _ h => by cases h) hmismatch
  rw [hrefused]
  obtain ⟨r', hrule, -⟩ := Engine.run_error hmismatch
  obtain ⟨ticket', g, hlive, htarget⟩ := Rules.commitUpload_mismatch (answering_error hrule)
  obtain ⟨hget, howner, -⟩ := WorkspaceRecord.liveTicket_eq_some hlive
  have hsame : ticket' = ticket := Option.some.inj (hget.symm.trans hticket)
  subst hsame
  have hstone : (initial.run limits es).record.tombstones[u]? = none := by
    cases hstone : (initial.run limits es).record.tombstones[u]? with
    | none => rfl
    | some stone =>
      rw [@apart_run _ limits es u stone hstone] at hticket
      cases hticket
  constructor
  · rintro ⟨hsent, -⟩
    -- a put that finds no staging place is refused
    by_contra hgone
    have hgone := Option.not_isSome_iff_eq_none.mp hgone
    rw [(Engine.run_rule _ limits put (.putUploadContent caller u content)).1] at hsent
    have hmissing : (((initial.run limits es).rules limits put).putUploadContent caller u
        content).1 = .error .notFound := Rules.put_missing hstone hgone
    have hanswer : (((initial.run limits es).rules limits put).putUploadContent caller u
        content).1.map (fun _ => Answer.done) = .ok .done := hsent
    rw [hmissing] at hanswer
    cases hanswer
  · intro hthere
    have hready : (initial.run limits es).Ready caller u ticket' g :=
      ⟨hstone, hticket, howner, htarget, hthere⟩
    obtain ⟨hsent, hfound, hnew⟩ := hready.redeemed hcontent hsize hmeta hput hcommit
    refine ⟨hsent, g, htarget, ?_⟩
    cases hfind : findIn (initial.run limits es).shelf g ticket'.request.id.contentKey with
    | some id => exact hfound id hfind
    | none => exact hnew hfind

end World

end

/-! ## Evaluated runs -/

namespace Sample

/-- The laptop's commit publishes a note and stops before that is recorded; the phone
deletes the note. -/
def strayed : List Event :=
  [.request (call 0 [1]) (.beginUpload laptop (request 2 none)),
    .request (call 0 []) (.putUploadContent laptop (upload 1) [.piece [1, 2]]),
    .cut (call 0 []) (.commitUpload laptop (upload 1)) 1,
    .request (call 1 []) (.deleteItem phone .current note none)]

/-- The laptop sends one byte of two. -/
def shortened : List Event :=
  [.request (call 0 [1]) (.beginUpload laptop (request 2 none)),
    .request (call 0 []) (.putUploadContent laptop (upload 1) [.piece [1]])]

/-- The note in two pieces. -/
def wholeNote : Source := [.piece [1], .interrupted, .piece [2]]

end Sample

/-- After the crash and the deletion the laptop is answered its old ticket, and it is good
for the note. -/
theorem World.usable_unrecorded :
    let begun := @Engine.run Sample.crates
      (@World.run Sample.crates Sample.limits .initial Sample.strayed) Sample.limits
      (Sample.call 2 []) (.beginUpload Sample.laptop (Sample.request 2 none))
    let sent := @Engine.run Sample.crates begun.2 Sample.limits (Sample.call 3 [])
      (.putUploadContent Sample.laptop (Sample.upload 1) Sample.wholeNote)
    let done := @Engine.run Sample.crates sent.2 Sample.limits (Sample.call 3 [])
      (.commitUpload Sample.laptop (Sample.upload 1))
    done.1 = .ok (.outcome ⟨Sample.note, true, false⟩) :=
  (@World.usable_run Sample.crates Sample.limits Sample.strayed Sample.laptop
    (Sample.request 2 none) ⟨Sample.upload 1, 10⟩ Sample.wholeNote [1, 2] (Sample.call 2 [])
    (Sample.call 3 []) (Sample.call 3 []) (by decide +kernel) rfl rfl
    (fun h => by cases h) (by decide) (by decide)).2.1

/-- The commit sent again finds the content wrong; the content sent again is answered
`NotFound`. -/
theorem World.not_resent_unrecorded :
    let w := @World.run Sample.crates Sample.limits .initial Sample.strayed
    (@Engine.run Sample.crates w Sample.limits (Sample.call 2 [])
        (.commitUpload Sample.laptop (Sample.upload 1))).1 = .error .contentMismatch ∧
      w.record.tickets[Sample.upload 1]? =
        some ⟨Sample.laptop.key, Sample.request 2 none, 10⟩ ∧
      (@Engine.run Sample.crates w Sample.limits (Sample.call 3 [])
        (.putUploadContent Sample.laptop (Sample.upload 1) Sample.wholeNote)).1 =
          .error .notFound ∧
      ¬@World.Redeems Sample.crates Sample.limits w Sample.laptop (Sample.upload 1)
        (Sample.request 2 none) Sample.wholeNote [1, 2] (Sample.call 3 []) (Sample.call 3 []) := by
  refine ⟨by decide +kernel, by decide +kernel, by decide +kernel, ?_⟩
  rintro ⟨hsent, -⟩
  revert hsent
  decide +kernel

/-- A note that was too short may be sent again. -/
theorem World.resent_shortened :
    @World.Redeems Sample.crates Sample.limits
      (@Engine.run Sample.crates
        (@World.run Sample.crates Sample.limits .initial Sample.shortened) Sample.limits
        (Sample.call 1 []) (.commitUpload Sample.laptop (Sample.upload 1))).2
      Sample.laptop (Sample.upload 1) (Sample.request 2 none) Sample.wholeNote [1, 2]
      (Sample.call 2 []) (Sample.call 2 []) :=
  (@World.resent_run Sample.crates Sample.limits Sample.shortened Sample.laptop
    (Sample.upload 1) ⟨Sample.laptop.key, Sample.request 2 none, 10⟩ Sample.wholeNote [1, 2]
    (Sample.call 1 []) (Sample.call 2 []) (Sample.call 2 []) (by decide +kernel)
    (by decide +kernel) rfl rfl (fun h => by cases h) (by decide) (by decide)).mpr
    (by decide +kernel)

end Passalong
