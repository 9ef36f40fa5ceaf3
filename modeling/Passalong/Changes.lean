import Passalong.Engine

/-!
# What one operation can do

Every operation that succeeds makes one `Change`: the table below says, with the
guards the code checks, what each can do to the record and the shelf and which
clean-ups it asks for. `Op.change` is the one place where the rules are taken
apart; every invariant of the development is proved over the table.

A refusal leaves the shelf alone, except that a refused `putUploadContent` empties
its own staging place (`Op.refused`). Whether or not it succeeds, an operation
takes at most one of a few steps on the shelf (`ShelfStep`), and that is all that
is left of it when the process stops before the record is stored (`Op.cut`).
-/

namespace Passalong

open Lib

/-! ## Where an upload goes -/

/-- An upload goes to the open session's staged generation, under its new key and
for its holder, or to the current generation of a settled workspace, under the
workspace's key. -/
inductive WorkspaceRecord.Targets (rec : WorkspaceRecord) (caller : Caller)
    (request : UploadRequest) : Nat → Prop
  | staged (session : Session) (hstate : rec.state = .rewriting session)
      (hin : request.inRewrite = true) (hholder : session.holder = caller.key)
      (hkey : request.expectedKeyId = some session.next.keyId) :
      Targets rec caller request session.stagedGeneration
  | current (sealed : Option Seal) (hstate : rec.state = .settled sealed)
      (hin : request.inRewrite = false)
      (hkey : request.expectedKeyId = sealed.map Seal.keyId) :
      Targets rec caller request rec.generation

theorem Caller.mustWrite_ok {caller : Caller} {a : Unit} (h : caller.mustWrite = .ok a) :
    caller.role = .readWrite := by
  unfold mustWrite at h
  split at h
  · assumption
  · cases h

theorem WorkspaceRecord.heldSession_ok {rec : WorkspaceRecord} {caller : Caller}
    {session : Session} (h : rec.heldSession caller = .ok session) :
    rec.state = .rewriting session ∧ session.holder = caller.key := by
  unfold heldSession at h
  split at h
  · cases h
  · rename_i session' hstate
    split at h
    · cases h
    · rename_i hholder
      cases h
      exact ⟨hstate, not_not.mp hholder⟩

theorem WorkspaceRecord.checkWritable_ok {rec : WorkspaceRecord} {expected : Option KeyId}
    {a : Unit} (h : rec.checkWritable expected = .ok a) :
    ∃ sealed, rec.state = .settled sealed ∧ sealed.map Seal.keyId = expected := by
  unfold checkWritable at h
  split at h
  · cases h
  · rename_i sealed hstate
    split at h
    · rename_i hkey
      exact ⟨sealed, hstate, hkey⟩
    · cases h

theorem WorkspaceRecord.uploadTarget_ok {rec : WorkspaceRecord} {caller : Caller}
    {request : UploadRequest} {g : Nat} (h : rec.uploadTarget caller request = .ok g) :
    rec.Targets caller request g := by
  unfold uploadTarget at h
  split at h
  · rename_i hin
    unfold rewriteTarget at h
    split at h
    · cases h
    · rename_i session hheld
      obtain ⟨hstate, hholder⟩ := heldSession_ok hheld
      split at h
      · cases h
      · rename_i hkey
        cases h
        exact .staged session hstate hin hholder (not_not.mp hkey)
  · rename_i hin
    split at h
    · cases h
    · rename_i hw
      obtain ⟨sealed, hstate, hkey⟩ := checkWritable_ok hw
      cases h
      exact .current sealed hstate (by simpa using hin) hkey.symm

/-- And that is where it goes. -/
theorem WorkspaceRecord.Targets.goes {rec : WorkspaceRecord} {caller : Caller}
    {request : UploadRequest} {g : Nat} (h : rec.Targets caller request g) :
    rec.uploadTarget caller request = .ok g := by
  unfold uploadTarget
  cases h with
  | staged session hstate hin hholder hkey =>
    rw [if_pos hin, rewriteTarget, heldSession, hstate]
    simp [hholder, hkey]
  | current sealed hstate hin hkey =>
    rw [if_neg (by simp [hin]), checkWritable, hstate]
    simp [hkey]

theorem WorkspaceRecord.liveTicket_eq_some {rec : WorkspaceRecord} {now : Nat}
    {caller : Caller} {u : UploadId} {ticket : Ticket}
    (h : rec.liveTicket now caller u = some ticket) :
    rec.tickets[u]? = some ticket ∧ ticket.owner = caller.key ∧ now < ticket.expiresAt := by
  obtain ⟨hget, hp⟩ := Option.filter_eq_some_iff.mp h
  simp only [Bool.and_eq_true, decide_eq_true_eq] at hp
  exact ⟨hget, hp.1, hp.2⟩

theorem WorkspaceRecord.liveTicketFor_eq_some {rec : WorkspaceRecord} {now : Nat}
    {caller : Caller} {request : UploadRequest} {u : UploadId} {ticket : Ticket}
    (h : rec.liveTicketFor now caller request = some (u, ticket)) :
    rec.tickets[u]? = some ticket ∧ now < ticket.expiresAt ∧ ticket.owner = caller.key ∧
      ticket.request = request := by
  have hp := List.find?_some h
  simp only [Bool.and_eq_true, decide_eq_true_eq] at hp
  exact ⟨Map.mem_toList_iff.mp (List.mem_of_find?_eq_some h), hp.1, hp.2.1, hp.2.2⟩

theorem WorkspaceRecord.known_eq_false {rec : WorkspaceRecord} {u : UploadId} :
    rec.known u = false ↔ rec.tickets[u]? = none ∧ rec.tombstones[u]? = none := by
  rw [known, Bool.or_eq_false_iff, Map.contains_eq_false_iff, Map.contains_eq_false_iff]

/-! ## The table of changes -/

/-- The record once an upload has finished with an outcome. -/
def WorkspaceRecord.finished (rec : WorkspaceRecord) (upload : UploadId) (stone : Tombstone) :
    WorkspaceRecord :=
  { rec with
    tickets := rec.tickets.erase upload
    tombstones := rec.tombstones.insert upload stone }

/-- The record without the tickets `p` picks. -/
def WorkspaceRecord.without (rec : WorkspaceRecord) (p : UploadId → Ticket → Bool) :
    WorkspaceRecord :=
  { rec with tickets := rec.tickets.filter fun u t => !p u t }

/-- The removals of the staging places of the tickets `p` picks. -/
def WorkspaceRecord.removals (rec : WorkspaceRecord) (p : UploadId → Ticket → Bool) :
    List Cleanup :=
  (rec.tickets.filter p).keys.map .removeStaging

/-- The outcome of a finished upload, as it is remembered. -/
def Rules.stone (r : Rules) (ticket : Ticket) (id : ItemId) (created : Bool) : Tombstone :=
  ⟨ticket.owner, ⟨id, created, ticket.request.inRewrite⟩,
    wrappingAdd r.now r.limits.stagingSecs⟩

/-- The record after `commitRewrite`. -/
def WorkspaceRecord.switched (rec : WorkspaceRecord) (session : Session) : WorkspaceRecord :=
  WorkspaceRecord.without
    { rec with
      generation := session.stagedGeneration
      state := .settled (some session.next)
      used := rec.used.erase rec.generation }
    fun _ ticket => ticket.request.inRewrite

/-- The record after an abort. -/
def WorkspaceRecord.restored (rec : WorkspaceRecord) (session : Session) : WorkspaceRecord :=
  WorkspaceRecord.without
    { rec with
      endedRewrites := insert session.next.keyId rec.endedRewrites
      state := .settled session.prior
      used := rec.used.erase session.stagedGeneration }
    fun _ ticket => ticket.request.inRewrite

/-- What makes a request a repeat of what is done already. -/
def Op.Done (rec : WorkspaceRecord) : Op → Prop
  | .enableEncryption _ keyId _ | .freshStart _ keyId _ | .commitRewrite _ keyId =>
    ∃ header, rec.state = .settled (some ⟨keyId, header⟩)
  | .abortRewrite _ _ => ∃ sealed, rec.state = .settled sealed
  | _ => False

/-- Which requests renew the lease of a session, and for whom. -/
def Op.Renews (r : Rules) (session : Session) (caller : Caller) : Op → Prop
  | .beginRewrite caller' request =>
    caller' = caller ∧ session.holder = caller.key ∧ session.kind = request.kind ∧
      session.next.keyId = request.newKeyId
  | .heartbeatRewrite caller' => caller' = caller ∧ session.holder = caller.key
  | .takeOverRewrite caller' =>
    caller' = caller ∧ (session.holder = caller.key ∨ session.leaseExpiresAt ≤ r.now)
  | _ => False

/-- Which requests abort a session. -/
def Op.Aborts (r : Rules) (session : Session) : Op → Prop
  | .abortRewrite caller keyId =>
    caller.role = .readWrite ∧ session.holder = caller.key ∧ session.next.keyId = keyId
  | .operatorAbortRewrite force => force = true ∨ session.leaseExpiresAt ≤ r.now
  | _ => False

/-- What an operation that succeeds can do. -/
inductive Change [Crates] (r : Rules) :
    Op → Answer → WorkspaceRecord → MemoryShelf → List Cleanup → Prop
  /-- A repeat of what is done already. -/
  | kept {op : Op} (hdone : op.Done r.record) :
      Change r op (.encryption r.encryption) r.record r.shelf []
  /-- Content sent after the commit, or a commit sent again. -/
  | discarded {caller : Caller} {u : UploadId} {content : Source} :
      Change r (.putUploadContent caller u content) .done r.record r.shelf []
  | replayed {caller : Caller} {u : UploadId} {stone : Tombstone}
      (hstone : r.record.tombstone r.now caller u = some stone) :
      Change r (.commitUpload caller u) (.outcome stone.outcome) r.record r.shelf []
  | deleted {caller : Caller} {partition : Partition} {id : ItemId} {expected : Option KeyId}
      {g : Nat} {item : Item} {sealed : Option Seal}
      (hstate : r.record.state = .settled sealed)
      (hg : r.record.generationOf partition = some g)
      (hitem : (r.shelf.generation g)[id]? = some item)
      (hwrite : caller.role = .readWrite) :
      Change r (.deleteItem caller partition id expected) (.item item.stored)
        { r.record with
          used := r.record.used.insert g (r.record.usedIn g - item.content.length) }
        (r.shelf.remove g id).2 []
  /-- An empty plaintext workspace is sealed. -/
  | sealed {op : Op} {view : EncryptionView} {keyId : KeyId} {header : Bytes} {caller : Caller}
      (hstate : r.record.state = .settled none)
      (hempty : r.shelf.generation r.record.generation = ∅)
      (hop : op = .enableEncryption caller keyId header ∨ op = .freshStart caller keyId header)
      (hwrite : caller.role = .readWrite) :
      Change r op (.encryption view)
        { r.record with state := .settled (some ⟨keyId, header⟩) } r.shelf []
  /-- A plaintext workspace is sealed and its items set aside. -/
  | setAside {caller : Caller} {view : EncryptionView} {keyId : KeyId} {header : Bytes}
      (hstate : r.record.state = .settled none) (hwrite : caller.role = .readWrite) :
      Change r (.freshStart caller keyId header) (.encryption view)
        { r.record with
          plain := some r.record.generation
          generation := r.record.nextGeneration
          nextGeneration := r.record.nextGeneration + 1
          state := .settled (some ⟨keyId, header⟩) }
        r.shelf []
  | reheaded {caller : Caller} {view : EncryptionView} {worn : Seal} {header : Bytes}
      (hstate : r.record.state = .settled (some worn)) (hwrite : caller.role = .readWrite) :
      Change r (.replaceHeader caller worn.keyId header) (.encryption view)
        { r.record with state := .settled (some { worn with header }) } r.shelf []
  | begun {caller : Caller} {request : UploadRequest} {g : Nat} {u : UploadId}
      (htarget : r.record.Targets caller request g)
      (hnew : findIn r.shelf g request.id.contentKey = none)
      (hquota : saturatingAdd (r.held g request.inRewrite) request.size ≤ r.limits.quotaBytes)
      (hknown : r.record.known u = false)
      (hminted : (Op.beginUpload caller request).minted r = [u])
      (hfirst : r.record.liveTicketFor r.now caller request = none)
      (hwrite : caller.role = .readWrite) :
      Change r (.beginUpload caller request)
        (.begun (.ticket ⟨u, wrappingAdd r.now r.limits.stagingSecs⟩))
        { r.record with
          tickets := r.record.tickets.insert u
            ⟨caller.key, request, wrappingAdd r.now r.limits.stagingSecs⟩ }
        (r.shelf.stageCreate u) []
  /-- A begin sent again is answered with its live ticket. -/
  | rebegun {caller : Caller} {request : UploadRequest} {u : UploadId} {ticket : Ticket}
      {g : Nat} (hticket : r.record.tickets[u]? = some ticket)
      (howner : ticket.owner = caller.key) (hrequest : ticket.request = request)
      (hlive : r.now < ticket.expiresAt) (htarget : r.record.Targets caller request g) :
      Change r (.beginUpload caller request) (.begun (.ticket ⟨u, ticket.expiresAt⟩))
        r.record (r.shelf.stageCreate u) []
  /-- A begin of content that is stored already. -/
  | stored {caller : Caller} {request : UploadRequest} {g : Nat} {id : ItemId}
      (htarget : r.record.Targets caller request g)
      (hfound : findIn r.shelf g request.id.contentKey = some id) :
      Change r (.beginUpload caller request) (.begun (.stored ⟨id, false, request.inRewrite⟩))
        (r.record.without fun _ t => t.owner = caller.key && t.request = request) r.shelf
        (r.record.removals fun _ t => t.owner = caller.key && t.request = request)
  | put {caller : Caller} {u : UploadId} {content : Source} {ticket : Ticket}
      (hticket : r.record.liveTicket r.now caller u = some ticket) :
      Change r (.putUploadContent caller u content) .done r.record
        (r.shelf.write u content ticket.request.size (r.checksContent ticket.request)).2 []
  /-- A commit of content that someone stored first. -/
  | duplicate {caller : Caller} {u : UploadId} {ticket : Ticket} {g : Nat} {id : ItemId}
      (hticket : r.record.liveTicket r.now caller u = some ticket)
      (htarget : r.record.Targets caller ticket.request g)
      (hstaged : r.shelf.stageSize u = some ticket.request.size)
      (hfound : findIn r.shelf g ticket.request.id.contentKey = some id) :
      Change r (.commitUpload caller u) (.outcome ⟨id, false, ticket.request.inRewrite⟩)
        (r.record.finished u (r.stone ticket id false)) r.shelf [.removeStaging u]
  | published {caller : Caller} {u : UploadId} {ticket : Ticket} {g : Nat}
      {staged : Staged} {shelf : MemoryShelf}
      (hticket : r.record.liveTicket r.now caller u = some ticket)
      (htarget : r.record.Targets caller ticket.request g)
      (hstaged : r.shelf.staging[u]? = some staged)
      (hsize : staged.content.length = ticket.request.size)
      (hnew : findIn r.shelf g ticket.request.id.contentKey = none)
      (hstaging : shelf.staging = r.shelf.staging.erase u)
      (hitems : ∀ h, shelf.generation h =
        if g = h then
          (r.shelf.generation g).insert ticket.request.id
            ⟨staged.content, ⟨ticket.request.metaJson, ticket.request.expectedKeyId, r.now⟩⟩
        else r.shelf.generation h) :
      Change r (.commitUpload caller u)
        (.outcome ⟨ticket.request.id, true, ticket.request.inRewrite⟩)
        (WorkspaceRecord.finished
          { r.record with
            used := r.record.used.insert g (r.record.usedIn g + ticket.request.size) }
          u (r.stone ticket ticket.request.id true))
        shelf [.removeStaging u]
  /-- A commit that finds its own publish on the shelf, never recorded. -/
  | recovered {caller : Caller} {u : UploadId} {ticket : Ticket} {g : Nat} {item : Item}
      (hticket : r.record.liveTicket r.now caller u = some ticket)
      (htarget : r.record.Targets caller ticket.request g)
      (hgone : r.shelf.staging[u]? = none)
      (hitem : (r.shelf.generation g)[ticket.request.id]? = some item)
      (hsize : item.content.length = ticket.request.size) :
      Change r (.commitUpload caller u)
        (.outcome ⟨ticket.request.id, true, ticket.request.inRewrite⟩)
        (WorkspaceRecord.finished
          { r.record with used := r.record.used.insert g (r.shelf.bytes g) }
          u (r.stone ticket ticket.request.id true))
        r.shelf [.removeStaging u]
  | aborted {caller : Caller} {u : UploadId} :
      Change r (.abortUpload caller u) .done
        (r.record.without fun v t => v = u && t.owner = caller.key) r.shelf
        (r.record.removals fun v t => v = u && t.owner = caller.key)
  | probed {caller : Caller} {u : UploadId} (hminted : (Op.probeWrite caller).minted r = [u]) :
      Change r (.probeWrite caller) .done r.record ((r.shelf.stageCreate u).stageRemove u) []
  | opened {caller : Caller} {request : RewriteRequest} {view : SessionView} {prior : Option Seal}
      (hstate : r.record.state = .settled prior)
      (hkind : request.kind = .migrate ↔ prior = none)
      (hended : request.newKeyId ∉ r.record.endedRewrites)
      (hnew : prior.map Seal.keyId ≠ some request.newKeyId)
      (hexpected : prior.map Seal.keyId = request.expectedKeyId)
      (hwrite : caller.role = .readWrite) :
      Change r (.beginRewrite caller request) (.session view)
        { r.record with
          nextGeneration := r.record.nextGeneration + 1
          state := .rewriting
            { kind := request.kind
              prior
              next := ⟨request.newKeyId, request.newHeader⟩
              holder := caller.key
              leaseExpiresAt := wrappingAdd r.now r.limits.leaseSecs
              stagedGeneration := r.record.nextGeneration } }
        r.shelf []
  | renewed {op : Op} {view : SessionView} {session : Session} {caller : Caller}
      (hstate : r.record.state = .rewriting session) (hrenews : op.Renews r session caller)
      (hwrite : caller.role = .readWrite) :
      Change r op (.session view)
        { r.record with
          state := .rewriting { session with
            holder := caller.key
            leaseExpiresAt := wrappingAdd r.now r.limits.leaseSecs } }
        r.shelf []
  | switched {caller : Caller} {newKeyId : KeyId} {view : EncryptionView} {session : Session}
      (hstate : r.record.state = .rewriting session)
      (hwrite : caller.role = .readWrite) (hheld : r.record.heldSession caller = .ok session)
      (hkey : session.next.keyId = newKeyId)
      (hcount : (r.shelf.ids session.stagedGeneration).length =
        (r.shelf.ids r.record.generation).length) :
      Change r (.commitRewrite caller newKeyId) (.encryption view)
        (r.record.switched session) r.shelf
        (.dropGeneration r.record.generation ::
          r.record.removals fun _ ticket => ticket.request.inRewrite)
  | restored {op : Op} {view : EncryptionView} {session : Session}
      (hstate : r.record.state = .rewriting session) (haborts : op.Aborts r session) :
      Change r op (.encryption view) (r.record.restored session) r.shelf
        (.dropGeneration session.stagedGeneration ::
          r.record.removals fun _ ticket => ticket.request.inRewrite)
  | cleaned {n : Nat} :
      Change r .cleanStaging (.count n) r.cleanStaging.2.record r.shelf r.cleanStaging.2.after
  | reconciled :
      Change r .reconcile .done r.reconcile.2.record r.shelf r.reconcile.2.after

theorem WorkspaceRecord.mem_removals {rec : WorkspaceRecord} {p : UploadId → Ticket → Bool}
    {c : Cleanup} :
    c ∈ rec.removals p ↔
      ∃ u ticket, c = .removeStaging u ∧ rec.tickets[u]? = some ticket ∧ p u ticket = true := by
  rw [removals, List.mem_map]
  constructor
  · rintro ⟨u, hu, rfl⟩
    obtain ⟨ticket, hticket⟩ := Map.mem_keys_iff.mp hu
    exact ⟨u, ticket, rfl, Map.get_filter_eq_some.mp hticket⟩
  · rintro ⟨u, ticket, rfl, hticket⟩
    exact ⟨u, Map.mem_keys_iff.mpr ⟨ticket, Map.get_filter_eq_some.mpr hticket⟩, rfl⟩

/-! ## Every rule makes one of them -/

namespace Rules

variable [Crates] {r r' : Rules} {caller : Caller}

theorem deleteItem_change {partition : Partition} {id : ItemId} {expected : Option KeyId}
    {item : StoredItem} (h0 : r.after = [])
    (h : r.deleteItem caller partition id expected = (.ok item, r')) :
    Change r (.deleteItem caller partition id expected) (.item item)
      r'.record r'.shelf r'.after := by
  unfold deleteItem at h
  obtain ⟨e, -, he⟩ | ⟨_, hwrite, h⟩ := check_cases h
  · cases he
  obtain ⟨e, -, he⟩ | ⟨_, hw, h⟩ := check_cases h
  · cases he
  obtain ⟨sealed, hstate, -⟩ := WorkspaceRecord.checkWritable_ok hw
  split at h
  · cases h
  · rename_i g hg
    have hget := r.shelf.remove_answer g id
    split at h
    · cases h
    · rename_i stored shelf hrem
      rw [hrem] at hget
      obtain ⟨it, hit, rfl⟩ := Option.map_eq_some_iff.mp hget.symm
      have hshelf : shelf = (r.shelf.remove g id).2 := by rw [hrem]
      cases h
      show Change r _ _ { r.record with used := _ } shelf r.after
      rw [h0, hshelf]
      exact .deleted hstate hg hit (Caller.mustWrite_ok hwrite)

omit [Crates] in
/-- What `settle` found. -/
theorem settle_ok {keyId : KeyId} {already : Bool} (h : r.settle caller keyId = .ok already) :
    caller.role = .readWrite ∧
      ((already = true ∧ ∃ header, r.record.state = .settled (some ⟨keyId, header⟩)) ∨
        (already = false ∧ r.record.state = .settled none)) := by
  unfold settle at h
  split at h
  · cases h
  · rename_i hwrite
    refine ⟨Caller.mustWrite_ok hwrite, ?_⟩
    split at h
    · cases h
    · rename_i sealed hstate
      split at h
      · rename_i hkey
        cases h
        refine .inl ⟨rfl, sealed.header, ?_⟩
        rw [hstate, ← hkey]
      · cases h
    · rename_i hstate
      cases h
      exact .inr ⟨rfl, hstate⟩

theorem enableEncryption_change {keyId : KeyId} {header : Bytes} {view : EncryptionView}
    (h0 : r.after = []) (h : r.enableEncryption caller keyId header = (.ok view, r')) :
    Change r (.enableEncryption caller keyId header) (.encryption view)
      r'.record r'.shelf r'.after := by
  unfold enableEncryption at h
  obtain ⟨e, -, he⟩ | ⟨already, hsettle, h⟩ := check_cases h
  · cases he
  obtain ⟨hwrite, ⟨rfl, hdone⟩ | ⟨rfl, hstate⟩⟩ := settle_ok hsettle
  · cases h
    rw [h0]
    exact .kept hdone
  · rw [if_neg (by decide)] at h
    split at h
    · cases h
    · rename_i hids
      have hempty := r.shelf.ids_isEmpty_iff.mp (by simpa using hids)
      cases h
      show Change r _ (.encryption _) { r.record with state := _ } r.shelf r.after
      rw [h0]
      exact .sealed hstate hempty (.inl rfl) hwrite

theorem freshStart_change {keyId : KeyId} {header : Bytes} {view : EncryptionView}
    (h0 : r.after = []) (h : r.freshStart caller keyId header = (.ok view, r')) :
    Change r (.freshStart caller keyId header) (.encryption view) r'.record r'.shelf r'.after := by
  unfold freshStart at h
  obtain ⟨e, -, he⟩ | ⟨already, hsettle, h⟩ := check_cases h
  · cases he
  obtain ⟨hwrite, ⟨rfl, hdone⟩ | ⟨rfl, hstate⟩⟩ := settle_ok hsettle
  · cases h
    rw [h0]
    exact .kept hdone
  · rw [if_neg (by decide)] at h
    by_cases hids : (r.shelf.ids r.record.generation).isEmpty = true
    · rw [if_pos hids] at h
      have hempty := r.shelf.ids_isEmpty_iff.mp hids
      cases h
      show Change r _ (.encryption _) { r.record with state := _ } r.shelf r.after
      rw [h0]
      exact .sealed hstate hempty (.inr rfl) hwrite
    · rw [if_neg hids] at h
      cases h
      show Change r _ (.encryption _) _ r.shelf r.after
      rw [h0]
      exact .setAside hstate hwrite

theorem replaceHeader_change {expected : KeyId} {header : Bytes} {view : EncryptionView}
    (h0 : r.after = []) (h : r.replaceHeader caller expected header = (.ok view, r')) :
    Change r (.replaceHeader caller expected header) (.encryption view)
      r'.record r'.shelf r'.after := by
  unfold replaceHeader at h
  obtain ⟨e, -, he⟩ | ⟨_, hwrite, h⟩ := check_cases h
  · cases he
  split at h
  · cases h
  · cases h
  · rename_i worn hstate
    split at h
    · cases h
    · rename_i hkey
      cases h
      rw [← not_not.mp hkey]
      show Change r _ (.encryption _) { r.record with state := _ } r.shelf r.after
      rw [h0]
      exact .reheaded hstate (Caller.mustWrite_ok hwrite)

/-! ### Uploads -/

omit [Crates] in
/-- A ticket handed out for an id without one is of an id made up now. -/
theorem minted_of_begun {request : UploadRequest} {ticket : UploadTicket}
    (h : r.beginUpload caller request = (.ok (.ticket ticket), r'))
    (hnone : r.record.tickets[ticket.uploadId]? = none) :
    (Op.beginUpload caller request).minted r = [ticket.uploadId] := by
  simp only [Op.minted]
  rw [h]
  show (if r.record.tickets.contains ticket.uploadId then [] else [ticket.uploadId]) = _
  rw [Map.contains_eq_false_iff.mpr hnone]
  rfl

theorem beginUpload_change {request : UploadRequest} {begun : Begun} (h0 : r.after = [])
    (h : r.beginUpload caller request = (.ok begun, r')) :
    Change r (.beginUpload caller request) (.begun begun) r'.record r'.shelf r'.after := by
  have hrun := h
  unfold beginUpload at h
  obtain ⟨e, -, he⟩ | ⟨_, hwrite, h⟩ := check_cases h
  · cases he
  obtain ⟨e, -, he⟩ | ⟨g, htarget, h⟩ := check_cases h
  · cases he
  have htarget := WorkspaceRecord.uploadTarget_ok htarget
  split at h
  · cases h
  split at h
  · rename_i id hfound
    cases h
    show Change r _ _ (r.record.without _) r.shelf (r.after ++ r.record.removals _)
    rw [h0]
    exact .stored htarget hfound
  · rename_i hnew
    split at h
    · rename_i u ticket hlive
      obtain ⟨hticket, hlive, howner, hrequest⟩ :=
        WorkspaceRecord.liveTicketFor_eq_some hlive
      cases h
      show Change r _ _ r.record _ r.after
      rw [h0]
      exact .rebegun hticket howner hrequest hlive htarget
    · rename_i hfirst
      split at h
      · cases h
      · rename_i hquota
        split at h
        · cases h
        · rename_i u draws hmint
          have hknown := (mint_eq_some hmint).2
          cases h
          show Change r _ _ { r.record with tickets := _ } _ r.after
          rw [h0]
          exact .begun htarget hnew (Nat.le_of_not_lt hquota) hknown
            (minted_of_begun hrun (WorkspaceRecord.known_eq_false.mp hknown).1) hfirst
            (Caller.mustWrite_ok hwrite)

/-- Whether it is acknowledged or refused, a put writes its own staging place or
nothing. -/
theorem putUploadContent_cases (caller : Caller) (u : UploadId) (content : Source) :
    (r.putUploadContent caller u content).2 = r ∨
    ∃ ticket, r.record.liveTicket r.now caller u = some ticket ∧
      (r.putUploadContent caller u content).2 =
        { r with
          shelf := (r.shelf.write u content ticket.request.size
            (r.checksContent ticket.request)).2 } := by
  unfold putUploadContent
  split
  · exact .inl rfl
  · split
    · exact .inl rfl
    · rename_i ticket hticket
      refine .inr ⟨ticket, hticket, ?_⟩
      cases r.checksContent ticket.request <;> rfl

theorem settleUpload_change {u : UploadId} {ticket : Ticket} {g : Nat} {outcome : PutOutcome}
    (h0 : r.after = []) (hticket : r.record.liveTicket r.now caller u = some ticket)
    (htarget : r.record.Targets caller ticket.request g)
    (hstaged : r.shelf.stageSize u = some ticket.request.size)
    (h : r.settleUpload u ticket g = (.ok outcome, r')) :
    Change r (.commitUpload caller u) (.outcome outcome) r'.record r'.shelf r'.after := by
  unfold settleUpload at h
  split at h
  · rename_i id hfound
    cases h
    show Change r _ _ (r.record.finished u (r.stone ticket id false)) r.shelf
      (r.after ++ [.removeStaging u])
    rw [h0]
    exact .duplicate hticket htarget hstaged hfound
  · rename_i hnew
    obtain ⟨staged, hst, hsize⟩ := Option.map_eq_some_iff.mp hstaged
    dsimp only at h
    -- the content is new, so the item is, and the publish goes through
    obtain ⟨hnone, -⟩ | ⟨-, -, ⟨item, hitem⟩, -⟩ | ⟨staged', s', hst', -, hpub, hstag, hgen⟩ :=
      r.shelf.publish_cases u g ticket.request.id
        ⟨ticket.request.metaJson, ticket.request.expectedKeyId, r.now⟩
    · rw [hst] at hnone
      cases hnone
    · exact absurd rfl (findIn_eq_none_iff.mp hnew _ item hitem)
    · rw [hpub] at h
      cases h
      show Change r _ _ _ s' (r.after ++ [.removeStaging u])
      rw [h0]
      rw [hst] at hst'
      cases hst'
      exact .published hticket htarget hst hsize hnew hstag hgen

theorem commitUpload_change {u : UploadId} {outcome : PutOutcome} (h0 : r.after = [])
    (h : r.commitUpload caller u = (.ok outcome, r')) :
    Change r (.commitUpload caller u) (.outcome outcome) r'.record r'.shelf r'.after := by
  unfold commitUpload at h
  split at h
  · rename_i stone hstone
    cases h
    rw [h0]
    exact .replayed hstone
  · split at h
    · cases h
    · rename_i ticket hticket
      obtain ⟨e, -, he⟩ | ⟨g, htarget, h⟩ := check_cases h
      · cases he
      have htarget := WorkspaceRecord.uploadTarget_ok htarget
      dsimp only at h
      split at h
      · rename_i hgone
        obtain ⟨hnone, hany⟩ := hgone
        obtain ⟨stored, hget, hsize⟩ := (Option.any_eq_true _ _).mp hany
        obtain ⟨item, hitem, rfl⟩ := Option.map_eq_some_iff.mp hget
        cases h
        show Change r _ _ _ r.shelf (r.after ++ [.removeStaging u])
        rw [h0]
        exact .recovered hticket htarget (Option.map_eq_none_iff.mp hnone) hitem
          (of_decide_eq_true hsize)
      · split at h
        · cases h
        · rename_i hstaged
          have hstaged := not_not.mp hstaged
          split at h
          · obtain ⟨e, -, he⟩ | ⟨-, -, h⟩ := check_cases h
            · cases he
            exact settleUpload_change h0 hticket htarget hstaged h
          · exact settleUpload_change h0 hticket htarget hstaged h

/-! ### Rewrites -/

omit [Crates] in
theorem renewLease_eq {holder : ApiKeyId} {session : Session}
    (hstate : r.record.state = .rewriting session) :
    r.renewLease holder =
      { r with
        record := { r.record with
          state := .rewriting { session with
            holder
            leaseExpiresAt := wrappingAdd r.now r.limits.leaseSecs } } } := by
  unfold renewLease
  rw [hstate]

omit [Crates] in
theorem answerSession_ok {view : SessionView} (h : r.answerSession = (.ok view, r')) :
    r' = r := by
  unfold answerSession at h
  split at h <;> cases h
  rfl

theorem renewLease_change {session : Session} {view : SessionView} {op : Op}
    (h0 : r.after = []) (hstate : r.record.state = .rewriting session)
    (hrenews : op.Renews r session caller) (hwrite : caller.mustWrite = .ok ())
    (h : (r.renewLease caller.key).answerSession = (.ok view, r')) :
    Change r op (.session view) r'.record r'.shelf r'.after := by
  have hr := answerSession_ok h
  rw [renewLease_eq hstate] at hr
  subst hr
  show Change r op (.session view) _ r.shelf r.after
  rw [h0]
  exact .renewed hstate hrenews (Caller.mustWrite_ok hwrite)

theorem beginRewrite_change {request : RewriteRequest} {view : SessionView}
    (h0 : r.after = []) (h : r.beginRewrite caller request = (.ok view, r')) :
    Change r (.beginRewrite caller request) (.session view) r'.record r'.shelf r'.after := by
  unfold beginRewrite at h
  obtain ⟨e, -, he⟩ | ⟨_, hwrite, h⟩ := check_cases h
  · cases he
  split at h
  · rename_i session hstate
    split at h
    · rename_i hsame
      exact renewLease_change h0 hstate ⟨rfl, hsame⟩ hwrite h
    · cases h
  · rename_i prior hstate
    -- the two kinds that fit the state go on alike
    have hopen : ∀ (hkind : request.kind = .migrate ↔ prior = none),
        (if request.newKeyId ∈ r.record.endedRewrites then (.error .rewriteEnded, r)
          else if prior.map Seal.keyId ≠ request.expectedKeyId then (.error .keyIdMismatch, r)
          else if prior.map Seal.keyId = some request.newKeyId then
            (.error (.invalidRequest "the new key is the current one"), r)
          else answerSession { r with
            record := { r.record with
              nextGeneration := r.record.nextGeneration + 1
              state := .rewriting
                { kind := request.kind
                  prior
                  next := ⟨request.newKeyId, request.newHeader⟩
                  holder := caller.key
                  leaseExpiresAt := wrappingAdd r.now r.limits.leaseSecs
                  stagedGeneration := r.record.nextGeneration } } })
          = ((.ok view, r') : Except ApiError SessionView × Rules) →
        Change r (.beginRewrite caller request) (.session view) r'.record r'.shelf r'.after := by
      intro hkind h
      split at h
      · cases h
      rename_i hended
      split at h
      · cases h
      rename_i hexpected
      split at h
      · cases h
      rename_i hnew
      have hr := answerSession_ok h
      subst hr
      show Change r _ (.session view) _ r.shelf r.after
      rw [h0]
      exact .opened hstate hkind hended hnew (not_not.mp hexpected) (Caller.mustWrite_ok hwrite)
    split at h
    · cases h
    · cases h
    · rename_i hk
      exact hopen (by simp [hk]) h
    · rename_i hk
      exact hopen (by simp [hk]) h

theorem heartbeatRewrite_change {view : SessionView} (h0 : r.after = [])
    (h : r.heartbeatRewrite caller = (.ok view, r')) :
    Change r (.heartbeatRewrite caller) (.session view) r'.record r'.shelf r'.after := by
  unfold heartbeatRewrite at h
  obtain ⟨e, -, he⟩ | ⟨_, hwrite, h⟩ := check_cases h
  · cases he
  obtain ⟨e, -, he⟩ | ⟨session, hheld, h⟩ := check_cases h
  · cases he
  obtain ⟨hstate, hholder⟩ := WorkspaceRecord.heldSession_ok hheld
  exact renewLease_change h0 hstate ⟨rfl, hholder⟩ hwrite h

theorem takeOverRewrite_change {view : SessionView} (h0 : r.after = [])
    (h : r.takeOverRewrite caller = (.ok view, r')) :
    Change r (.takeOverRewrite caller) (.session view) r'.record r'.shelf r'.after := by
  unfold takeOverRewrite at h
  obtain ⟨e, -, he⟩ | ⟨_, hwrite, h⟩ := check_cases h
  · cases he
  split at h
  · cases h
  · rename_i session hstate
    split at h
    · cases h
    · rename_i hfree
      refine renewLease_change h0 hstate ⟨rfl, ?_⟩ hwrite h
      by_cases hholder : session.holder = caller.key
      · exact .inl hholder
      · exact .inr (Nat.le_of_not_lt fun hlt => hfree ⟨hholder, hlt⟩)

theorem commitRewrite_change {newKeyId : KeyId} {view : EncryptionView}
    (h0 : r.after = []) (h : r.commitRewrite caller newKeyId = (.ok view, r')) :
    Change r (.commitRewrite caller newKeyId) (.encryption view) r'.record r'.shelf r'.after := by
  unfold commitRewrite at h
  obtain ⟨e, -, he⟩ | ⟨_, hwrite, h⟩ := check_cases h
  · cases he
  split at h
  · rename_i sealed hstate
    split at h
    · rename_i hkey
      cases h
      rw [h0]
      obtain ⟨own, rfl, hown⟩ := Option.map_eq_some_iff.mp hkey
      refine .kept ⟨own.header, ?_⟩
      rw [hstate, ← hown]
    · cases h
  · obtain ⟨e, -, he⟩ | ⟨session, hheld, h⟩ := check_cases h
    · cases he
    split at h
    · cases h
    · rename_i hkey
      dsimp only at h
      split at h
      · cases h
      · rename_i hcount
        cases h
        show Change r _ (.encryption _) (r.record.switched session) r.shelf
          ((r.after ++ [.dropGeneration r.record.generation]) ++ _)
        rw [h0]
        exact .switched (WorkspaceRecord.heldSession_ok hheld).1 (Caller.mustWrite_ok hwrite)
          hheld (not_not.mp hkey) (not_not.mp hcount)

theorem endAborted_change {session : Session} {view : EncryptionView} {op : Op}
    (h0 : r.after = []) (hstate : r.record.state = .rewriting session)
    (haborts : op.Aborts r session) (h : r.endAborted session = (.ok view, r')) :
    Change r op (.encryption view) r'.record r'.shelf r'.after := by
  unfold endAborted at h
  cases h
  show Change r op (.encryption _) (r.record.restored session) r.shelf
    ((r.after ++ [.dropGeneration session.stagedGeneration]) ++ _)
  rw [h0]
  exact .restored hstate haborts

theorem abortRewrite_change {newKeyId : KeyId} {view : EncryptionView} (h0 : r.after = [])
    (h : r.abortRewrite caller newKeyId = (.ok view, r')) :
    Change r (.abortRewrite caller newKeyId) (.encryption view)
      r'.record r'.shelf r'.after := by
  unfold abortRewrite at h
  obtain ⟨e, -, he⟩ | ⟨_, hwrite, h⟩ := check_cases h
  · cases he
  split at h
  · rename_i sealed hstate
    cases h
    rw [h0]
    exact .kept ⟨sealed, hstate⟩
  · obtain ⟨e, -, he⟩ | ⟨session, hheld, h⟩ := check_cases h
    · cases he
    split at h
    · cases h
    · rename_i hkey
      obtain ⟨hstate, hholder⟩ := WorkspaceRecord.heldSession_ok hheld
      exact endAborted_change h0 hstate
        ⟨Caller.mustWrite_ok hwrite, hholder, not_not.mp hkey⟩ h

theorem operatorAbortRewrite_change {force : Bool} {view : EncryptionView} (h0 : r.after = [])
    (h : r.operatorAbortRewrite force = (.ok view, r')) :
    Change r (.operatorAbortRewrite force) (.encryption view) r'.record r'.shelf r'.after := by
  unfold operatorAbortRewrite at h
  split at h
  · cases h
  · rename_i session hstate
    split at h
    · cases h
    · rename_i hfree
      refine endAborted_change h0 hstate ?_ h
      cases force with
      | true => exact .inl rfl
      | false => exact .inr (Nat.le_of_not_lt fun hlt => hfree ⟨rfl, hlt⟩)

/-! ### The janitor -/

omit [Crates] in
/-- **What the janitor asks for**: the removal of the staging places without an
unexpired ticket, and of the generations that hold something and are not live. -/
theorem mem_cleanStaging_after {r : Rules} {c : Cleanup} :
    c ∈ r.cleanStaging.2.after ↔
      c ∈ r.after ∨
      (∃ u, c = .removeStaging u ∧ (∃ staged, r.shelf.staging[u]? = some staged) ∧
        r.cleanStaging.2.record.tickets[u]? = none) ∨
      (∃ g, c = .dropGeneration g ∧ r.shelf.generation g ≠ ∅ ∧
        g ∉ r.record.liveGenerations) := by
  show c ∈ r.after ++ List.map Cleanup.removeStaging (r.shelf.staged.filter fun upload =>
      !r.cleanStaging.2.record.tickets.contains upload) ++
    List.map Cleanup.dropGeneration (r.shelf.generations.filter fun g =>
      !r.record.liveGenerations.contains g) ↔ _
  rw [List.mem_append, List.mem_append, List.mem_map, List.mem_map, or_assoc]
  refine or_congr Iff.rfl (or_congr ?_ ?_)
  · refine exists_congr fun u => ?_
    rw [List.mem_filter, MemoryShelf.mem_staged, Bool.not_eq_true', Map.contains_eq_false_iff]
    exact ⟨fun ⟨h, e⟩ => ⟨e.symm, h⟩, fun ⟨e, h⟩ => ⟨h, e.symm⟩⟩
  · refine exists_congr fun g => ?_
    rw [List.mem_filter, MemoryShelf.mem_generations, Bool.not_eq_true',
      ← Bool.not_eq_true, List.contains_iff_mem]
    exact ⟨fun ⟨h, e⟩ => ⟨e.symm, h⟩, fun ⟨e, h⟩ => ⟨h, e.symm⟩⟩

/-! ### Probes -/

theorem probeWrite_change {a : Unit} (h0 : r.after = [])
    (h : r.probeWrite caller = (.ok a, r')) :
    Change r (.probeWrite caller) .done r'.record r'.shelf r'.after := by
  unfold probeWrite at h
  obtain ⟨e, -, he⟩ | ⟨_, hallowed, h⟩ := check_cases h
  · cases he
  split at h
  · cases h
  · rename_i probe draws hdraws
    cases h
    show Change r _ _ r.record _ r.after
    rw [h0]
    refine .probed ?_
    simp only [Op.minted]
    rw [hallowed, hdraws]
    rfl

end Rules

/-- An answer of one rule, as an answer of its operation. -/
theorem answering_ok {α : Type} {f : α → Answer} {out : Except ApiError α × Rules}
    {a : Answer} {r' : Rules} (h : answering f out = (.ok a, r')) :
    ∃ b, out = (.ok b, r') ∧ a = f b := by
  obtain ⟨res, r⟩ := out
  cases res with
  | error e => cases h
  | ok b =>
    cases h
    exact ⟨b, rfl, rfl⟩

/-- **Every operation that succeeds makes a change of the table.** -/
theorem Op.change [Crates] {op : Op} {r r' : Rules} {a : Answer} (h0 : r.after = [])
    (h : op.rule r = (.ok a, r')) : Change r op a r'.record r'.shelf r'.after := by
  cases op with
  | deleteItem caller partition id expected =>
    -- each operation by its own lemma; a put changes the shelf alone
    obtain ⟨b, hb, rfl⟩ := answering_ok h
    exact Rules.deleteItem_change h0 hb
  | enableEncryption caller keyId header =>
    obtain ⟨b, hb, rfl⟩ := answering_ok h
    exact Rules.enableEncryption_change h0 hb
  | freshStart caller keyId header =>
    obtain ⟨b, hb, rfl⟩ := answering_ok h
    exact Rules.freshStart_change h0 hb
  | replaceHeader caller expected header =>
    obtain ⟨b, hb, rfl⟩ := answering_ok h
    exact Rules.replaceHeader_change h0 hb
  | beginUpload caller request =>
    obtain ⟨b, hb, rfl⟩ := answering_ok h
    exact Rules.beginUpload_change h0 hb
  | putUploadContent caller u content =>
    obtain ⟨b, hb, rfl⟩ := answering_ok h
    have hr : (r.putUploadContent caller u content).2 = r' := by rw [hb]
    obtain hsame | ⟨ticket, hticket, hwrite⟩ := r.putUploadContent_cases caller u content
    · rw [hsame] at hr
      subst hr
      rw [h0]
      exact .discarded
    · rw [hwrite] at hr
      subst hr
      show Change r _ _ r.record _ r.after
      rw [h0]
      exact .put hticket
  | commitUpload caller u =>
    obtain ⟨b, hb, rfl⟩ := answering_ok h
    exact Rules.commitUpload_change h0 hb
  | abortUpload caller u =>
    -- an abort always succeeds, and what it takes away it owes to a clean-up
    obtain ⟨b, hb, rfl⟩ := answering_ok h
    cases hb
    show Change r _ _ (r.record.without _) r.shelf (r.after ++ r.record.removals _)
    rw [h0]
    exact .aborted
  | probeWrite caller =>
    obtain ⟨b, hb, rfl⟩ := answering_ok h
    exact Rules.probeWrite_change h0 hb
  | beginRewrite caller request =>
    obtain ⟨b, hb, rfl⟩ := answering_ok h
    exact Rules.beginRewrite_change h0 hb
  | heartbeatRewrite caller =>
    obtain ⟨b, hb, rfl⟩ := answering_ok h
    exact Rules.heartbeatRewrite_change h0 hb
  | takeOverRewrite caller =>
    obtain ⟨b, hb, rfl⟩ := answering_ok h
    exact Rules.takeOverRewrite_change h0 hb
  | commitRewrite caller newKeyId =>
    obtain ⟨b, hb, rfl⟩ := answering_ok h
    exact Rules.commitRewrite_change h0 hb
  | abortRewrite caller newKeyId =>
    obtain ⟨b, hb, rfl⟩ := answering_ok h
    exact Rules.abortRewrite_change h0 hb
  | operatorAbortRewrite force =>
    obtain ⟨b, hb, rfl⟩ := answering_ok h
    exact Rules.operatorAbortRewrite_change h0 hb
  | cleanStaging =>
    obtain ⟨b, hb, rfl⟩ := answering_ok h
    have hr : r' = r.cleanStaging.2 := by rw [hb]
    rw [hr]
    exact .cleaned
  | reconcile =>
    obtain ⟨b, hb, rfl⟩ := answering_ok h
    have hr : r' = r.reconcile.2 := by rw [hb]
    rw [hr]
    exact .reconciled

/-! ## Refusals -/

theorem answering_error {α : Type} {f : α → Answer} {out : Except ApiError α × Rules}
    {e : ApiError} {r' : Rules} (h : answering f out = (.error e, r')) :
    out = (.error e, r') := by
  obtain ⟨res, r⟩ := out
  cases res with
  | ok b => cases h
  | error e' =>
    cases h
    rfl

namespace Rules

variable {r r' : Rules} {caller : Caller} {e : ApiError}

theorem deleteItem_refused {partition : Partition} {id : ItemId} {expected : Option KeyId}
    (h : r.deleteItem caller partition id expected = (.error e, r')) :
    r'.shelf = r.shelf := by
  unfold deleteItem at h
  obtain ⟨_, -, he⟩ | ⟨-, -, h⟩ := check_cases h
  · cases he
    rfl
  obtain ⟨_, -, he⟩ | ⟨_, -, h⟩ := check_cases h
  · cases he
    rfl
  split at h
  · cases h
    rfl
  · rename_i g hg
    split at h
    · rename_i shelf hrem
      cases h
      -- the item was not there, so nothing was removed
      show shelf = r.shelf
      have hshelf : (r.shelf.remove g id).2 = shelf := by rw [hrem]
      have hget : r.shelf.get g id = none := by rw [← r.shelf.remove_answer, hrem]
      rw [← hshelf, r.shelf.remove_of_get_eq_none hget]
    · cases h

theorem enableEncryption_refused {keyId : KeyId} {header : Bytes}
    (h : r.enableEncryption caller keyId header = (.error e, r')) : r'.shelf = r.shelf := by
  unfold enableEncryption at h
  obtain ⟨_, -, he⟩ | ⟨already, -, h⟩ := check_cases h
  · cases he
    rfl
  split at h
  · cases h
  split at h <;> cases h
  rfl

theorem freshStart_refused {keyId : KeyId} {header : Bytes}
    (h : r.freshStart caller keyId header = (.error e, r')) : r'.shelf = r.shelf := by
  unfold freshStart at h
  obtain ⟨_, -, he⟩ | ⟨already, -, h⟩ := check_cases h
  · cases he
    rfl
  split at h <;> cases h

theorem replaceHeader_refused {expected : KeyId} {header : Bytes}
    (h : r.replaceHeader caller expected header = (.error e, r')) : r'.shelf = r.shelf := by
  unfold replaceHeader at h
  obtain ⟨_, -, he⟩ | ⟨-, -, h⟩ := check_cases h
  · cases he
    rfl
  split at h
  · cases h
    rfl
  · cases h
    rfl
  · split at h <;> cases h
    rfl

theorem beginUpload_refused {request : UploadRequest}
    (h : r.beginUpload caller request = (.error e, r')) : r'.shelf = r.shelf := by
  unfold beginUpload at h
  obtain ⟨_, -, he⟩ | ⟨-, -, h⟩ := check_cases h
  · cases he
    rfl
  obtain ⟨_, -, he⟩ | ⟨g, -, h⟩ := check_cases h
  · cases he
    rfl
  split at h
  · cases h
    rfl
  split at h
  · cases h
  split at h
  · cases h
  split at h
  · cases h
    rfl
  split at h <;> cases h
  rfl

theorem settleUpload_refused {u : UploadId} {ticket : Ticket} {g : Nat}
    (h : r.settleUpload u ticket g = (.error e, r')) : r'.shelf = r.shelf := by
  unfold settleUpload at h
  split at h
  · cases h
  · dsimp only at h
    obtain ⟨-, hpub⟩ | ⟨-, -, -, hpub⟩ | ⟨-, s', -, -, hpub, -⟩ :=
      r.shelf.publish_cases u g ticket.request.id
        ⟨ticket.request.metaJson, ticket.request.expectedKeyId, r.now⟩
    · rw [hpub] at h
      cases h
      rfl
    · rw [hpub] at h
      cases h
    · rw [hpub] at h
      cases h

theorem commitUpload_refused [Crates] {u : UploadId}
    (h : r.commitUpload caller u = (.error e, r')) : r'.shelf = r.shelf := by
  unfold commitUpload at h
  split at h
  · cases h
  split at h
  · cases h
    rfl
  obtain ⟨_, -, he⟩ | ⟨g, -, h⟩ := check_cases h
  · cases he
    rfl
  dsimp only at h
  split at h
  · cases h
  split at h
  · cases h
    rfl
  split at h
  · obtain ⟨_, -, he⟩ | ⟨-, -, h⟩ := check_cases h
    · cases he
      rfl
    exact settleUpload_refused h
  · exact settleUpload_refused h

theorem probeWrite_refused (h : r.probeWrite caller = (.error e, r')) :
    r'.shelf = r.shelf := by
  unfold probeWrite at h
  obtain ⟨_, -, he⟩ | ⟨-, -, h⟩ := check_cases h
  · cases he
    rfl
  split at h <;> cases h
  rfl

/-- No rule of a rewrite touches the shelf. -/
theorem answerSession_shelf (r : Rules) : r.answerSession.2.shelf = r.shelf := by
  unfold answerSession
  split <;> rfl

theorem renewLease_shelf (r : Rules) (holder : ApiKeyId) :
    (r.renewLease holder).shelf = r.shelf := by
  unfold renewLease
  split <;> rfl

theorem beginRewrite_shelf (r : Rules) (caller : Caller) (request : RewriteRequest) :
    (r.beginRewrite caller request).2.shelf = r.shelf := by
  unfold beginRewrite check
  repeat' first
    | rfl
    | rw [answerSession_shelf]
    | rw [renewLease_shelf]
    | split

theorem heartbeatRewrite_shelf (r : Rules) (caller : Caller) :
    (r.heartbeatRewrite caller).2.shelf = r.shelf := by
  unfold heartbeatRewrite check
  repeat' first
    | rfl
    | rw [answerSession_shelf]
    | rw [renewLease_shelf]
    | split

theorem takeOverRewrite_shelf (r : Rules) (caller : Caller) :
    (r.takeOverRewrite caller).2.shelf = r.shelf := by
  unfold takeOverRewrite check
  repeat' first
    | rfl
    | rw [answerSession_shelf]
    | rw [renewLease_shelf]
    | split

theorem commitRewrite_shelf (r : Rules) (caller : Caller) (newKeyId : KeyId) :
    (r.commitRewrite caller newKeyId).2.shelf = r.shelf := by
  unfold commitRewrite check
  dsimp only
  repeat' first
    | rfl
    | split

theorem abortRewrite_shelf (r : Rules) (caller : Caller) (newKeyId : KeyId) :
    (r.abortRewrite caller newKeyId).2.shelf = r.shelf := by
  unfold abortRewrite check
  dsimp only
  repeat' first
    | rfl
    | split

theorem operatorAbortRewrite_shelf (r : Rules) (force : Bool) :
    (r.operatorAbortRewrite force).2.shelf = r.shelf := by
  unfold operatorAbortRewrite
  repeat' first
    | rfl
    | split

end Rules

end Passalong
