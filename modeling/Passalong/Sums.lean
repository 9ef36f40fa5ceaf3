import Passalong.Quota
import Passalong.SqliteLedger

/-!
# The sums of the rules (`config.rs`, `upload.rs`, `rewrite.rs`, `workspace.rs`)

The rules add plainly: a time-to-live to what the clock shows, the bytes of tickets and
of generations to each other. Where such a sum passes `u64` a release build wraps, and
where it passes `i64` the control database refuses the record. The limits they add come
from the configuration, which bounds none of them: the hours of `max_age_hours` are
multiplied with saturation, and a quota may be any `u64`.

- `Op.deadlines` and `Op.totals`: the sums an operation makes;
- `Engine.runStored`: an operation over a ledger that refuses what does not fit, which
  is what the control database does (`Engine.runStored_transact`);
- `Bounds`: what admission keeps of the books and the tickets at any time. Twice the
  quota bounds every generation and once the quota bounds what is promised
  (`Change.bounds`), and so every number of the record fits (`Change.fits`);
- `World.sums_run`: with moderate limits no sum overflows in any run, and the ledger
  refuses no number. With others one does (`World.sums_overflow`).
-/

namespace Passalong

open Lib

/-! ## The limits of a configuration -/

/-- `saturating_mul`. -/
def saturatingMul (a b : Nat) : Nat := min (a * b) (u64Bound - 1)

namespace Config

/-- `[limits]`. -/
structure LimitsSection where
  /-- `none` is "unlimited". -/
  maxItemBytes : Option Nat := none
  workspaceQuotaBytes : Nat := 20 <<< 30
  deriving DecidableEq, Repr

/-- `[rewrite]`. -/
structure Rewrite where
  leaseSecs : Nat := 600
  deriving DecidableEq, Repr

/-- `[staging]`. -/
structure Staging where
  maxAgeHours : Nat := 24
  deriving DecidableEq, Repr

end Config

/-- The sections of the file that limits are made of. A file may give any number in
them. -/
structure Config where
  limits : Config.LimitsSection := {}
  rewrite : Config.Rewrite := {}
  staging : Config.Staging := {}
  deriving DecidableEq, Repr

/-- The limits of a workspace whose own quota is `quotaBytes`; `none` is the configured
default. -/
def Config.limitsFor (config : Config) (quotaBytes : Option Nat) : Limits where
  quotaBytes := quotaBytes.getD config.limits.workspaceQuotaBytes
  maxItemBytes := config.limits.maxItemBytes
  stagingSecs := saturatingMul config.staging.maxAgeHours 3600
  leaseSecs := config.rewrite.leaseSecs
  checkPlaintextContent := true

/-- Limits under which no sum of a run overflows, by a clock below `2 ^ 62`. -/
structure Limits.Moderate (limits : Limits) : Prop where
  staging : limits.stagingSecs ≤ 2 ^ 62
  lease : limits.leaseSecs ≤ 2 ^ 62
  quota : limits.quotaBytes < 2 ^ 62

/-- The same of the configuration they come from. -/
structure Config.Moderate (config : Config) (quotaBytes : Option Nat) : Prop where
  hours : config.staging.maxAgeHours * 3600 ≤ 2 ^ 62
  lease : config.rewrite.leaseSecs ≤ 2 ^ 62
  quota : quotaBytes.getD config.limits.workspaceQuotaBytes < 2 ^ 62

theorem Config.Moderate.limitsFor {config : Config} {quotaBytes : Option Nat}
    (h : config.Moderate quotaBytes) : (config.limitsFor quotaBytes).Moderate where
  staging := Nat.le_trans (Nat.min_le_left _ _) h.hours
  lease := h.lease
  quota := h.quota

/-- What a file that says nothing gives is moderate. -/
example : ({} : Config).Moderate none := ⟨by decide, by decide, by decide⟩

/-! ## The sums an operation makes -/

/-- The times an operation computes from the clock: when a ticket or an outcome
expires, and when a lease ends. -/
def Op.deadlines (r : Rules) : Op → List Nat
  | .beginUpload .. | .commitUpload .. => [r.now + r.limits.stagingSecs]
  | .beginRewrite .. | .heartbeatRewrite _ | .takeOverRewrite _ => [r.now + r.limits.leaseSecs]
  | _ => []

/-- The bytes an operation adds up: what is held and promised, for the admission of an
upload, and what a generation holds once one is published. -/
def Op.totals (r : Rules) : Op → List Nat
  | .beginUpload _ request =>
    [r.record.usedBytes, r.record.reservedBy r.now request.inRewrite]
  | .commitUpload caller upload =>
    match r.record.liveTicket r.now caller upload with
    | none => []
    | some ticket =>
      match r.record.uploadTarget caller ticket.request with
      | .error _ => []
      | .ok g => [r.record.usedIn g + ticket.request.size]
  | _ => []

/-! ## An engine over a ledger that stores what fits -/

section
variable [Crates]

/-- Runs an operation over the rows of a workspace: a record that cannot be stored is
refused, whatever its rule answered, and its clean-ups are not issued. -/
def Engine.runStored (id : String) (w : World) (limits : Limits) (call : Call) (op : Op) :
    Except ApiError Answer × World :=
  match Engine.run w limits call op with
  | (.error e, w') => (.error e, w')
  | (.ok answer, w') =>
    if op.readsOnly then (.ok answer, w')
    else
      match stored id w'.record with
      | .ok _ => (.ok answer, w')
      | .error e => (.error e.shown, { w with shelf := w'.shelf })

/-- The rule of an operation, as a ledger's transaction runs it. -/
def Op.ledgerRule (w : World) (limits : Limits) (call : Call) (op : Op) : LedgerRule Answer :=
  fun rec =>
    let (answer, r) := op.rule ({ w with record := rec }.rules limits call)
    (answer, r.record)

/-- **That is what the control database does**: it answers so, and then holds the
workspace's record as `runStored` leaves it. -/
theorem Engine.runStored_transact {db : Database} {records : MemoryLedger} {ws : WorkspaceId}
    {w : World} {limits : Limits} {call : Call} {op : Op} (h : Represents db records)
    (hws : records[ws]? = some w.record) (hop : op.readsOnly = false) :
    (db.transact ws (op.ledgerRule w limits call)).1.mapError Refusal.shown =
        (Engine.runStored ws.asStr w limits call op).1 ∧
      Represents (db.transact ws (op.ledgerRule w limits call)).2
        (records.insert ws (Engine.runStored ws.asStr w limits call op).2.record) := by
  have hrun : Engine.run w limits call op = Engine.write w limits call op.rule := by
    unfold Engine.run
    rw [hop, if_neg (by decide)]
  unfold Engine.runStored
  rw [hrun, hop]
  unfold Engine.write
  rcases hout : op.rule (w.rules limits call) with ⟨e | answer, r⟩
  · have hrec : op.ledgerRule w limits call w.record = (.error e, r.record) := by
      unfold Op.ledgerRule
      rw [hout]
    rw [Database.transact_refused (h.read_present hws) hrec]
    refine ⟨rfl, ?_⟩
    show Represents db (records.insert ws w.record)
    rw [Map.insert_same hws]
    exact h
  · have hrec : op.ledgerRule w limits call w.record = (.ok answer, r.record) := by
      unfold Op.ledgerRule
      rw [hout]
    simp only [Bool.false_eq_true, if_false]
    rcases fits_stored ws.asStr r.record with ⟨hfits, v, hv⟩ | ⟨hnot, hv⟩
    · obtain ⟨db', hdone, hdb'⟩ := h.transact_done hws hrec hfits
      rw [hdone, hv]
      exact ⟨rfl, hdb'⟩
    · rw [h.transact_tooLarge hws hrec hnot, hv]
      refine ⟨rfl, ?_⟩
      show Represents db (records.insert ws w.record)
      rw [Map.insert_same hws]
      exact h

end

/-! ## What admission keeps of the books -/

namespace WorkspaceRecord

variable {rec rec' : WorkspaceRecord}

/-- What the books say the plain partition holds. -/
def plainUsed (rec : WorkspaceRecord) : Nat := (rec.plain.map rec.usedIn).getD 0

theorem usedBytes_eq (rec : WorkspaceRecord) :
    rec.usedBytes = rec.usedIn rec.generation + rec.plainUsed + rec.stagedBytes := by
  unfold usedBytes liveGenerations plainUsed stagedBytes stagedGeneration
  cases rec.plain <;> cases rec.state <;> simp [Nat.add_assoc]

theorem stagedBytes_of_settled {sealed : Option Seal} (h : rec.state = .settled sealed) :
    rec.stagedBytes = 0 := by
  rw [stagedBytes, h]

theorem stagedBytes_of_rewriting {session : Session} (h : rec.state = .rewriting session) :
    rec.stagedBytes = rec.usedIn session.stagedGeneration := by
  rw [stagedBytes, h]

/-- The books of one generation do not show in the plain partition's, unless it is it. -/
theorem plainUsed_congr (hplain : rec'.plain = rec.plain)
    (hused : ∀ p, rec.plain = some p → rec'.usedIn p = rec.usedIn p) :
    rec'.plainUsed = rec.plainUsed := by
  unfold plainUsed
  rw [hplain]
  cases h : rec.plain with
  | none => rfl
  | some p => exact hused p h

end WorkspaceRecord

/-- What the books say is held and what tickets are promised, at a time. The quota bounds
what is beside the current generation; that generation was once allowed a quota of its
own, if a rewrite made it, and so only twice the quota bounds the whole. -/
structure Bounds (quota now : Nat) (rec : WorkspaceRecord) : Prop where
  others : rec.plainUsed + rec.reservedBy now false ≤ quota
  own : rec.usedIn rec.generation + rec.plainUsed + rec.reservedBy now false ≤ 2 * quota
  staged : ∀ session, rec.state = .rewriting session →
    rec.usedIn session.stagedGeneration + rec.reservedBy now true ≤ quota
  /-- No rewrite ends in a workspace without a seal. -/
  unsealed : rec.seal? = none → rec.usedIn rec.generation + rec.reservedBy now false ≤ quota

namespace Bounds

variable {quota now : Nat} {rec rec' : WorkspaceRecord}

theorem later (h : Bounds quota now rec) {now' : Nat} (hle : now ≤ now') :
    Bounds quota now' rec := by
  have hfalse := rec.reservedBy_antitone hle false
  have htrue := rec.reservedBy_antitone hle true
  constructor
  · have := h.others
    omega
  · have := h.own
    omega
  · intro session hstate
    have := h.staged session hstate
    omega
  · intro hseal
    have := h.unsealed hseal
    omega

/-- No pointer moves, and neither books nor tickets become more. -/
theorem fewer (h : Bounds quota now rec) (hp : rec.SamePointers rec')
    (hused : ∀ g ∈ rec.liveGenerations, rec'.usedIn g ≤ rec.usedIn g)
    (htickets : ∀ p, rec'.sumTickets p ≤ rec.sumTickets p) : Bounds quota now rec' := by
  have hgen : rec'.usedIn rec.generation ≤ rec.usedIn rec.generation :=
    hused _ (WorkspaceRecord.mem_liveGenerations.mpr (.inl rfl))
  have hplain : rec'.plainUsed ≤ rec.plainUsed := by
    unfold WorkspaceRecord.plainUsed
    rw [hp.plain]
    cases hplain : rec.plain with
    | none => exact Nat.le_refl _
    | some p => exact hused p (WorkspaceRecord.mem_liveGenerations.mpr (.inr (.inl hplain)))
  have hreserved : ∀ inRewrite, rec'.reservedBy now inRewrite ≤ rec.reservedBy now inRewrite := by
    intro inRewrite
    rw [WorkspaceRecord.reservedBy_eq, WorkspaceRecord.reservedBy_eq]
    exact htickets _
  have hfalse := hreserved false
  have htrue := hreserved true
  constructor
  · have := h.others
    omega
  · have := h.own
    rw [hp.generation]
    omega
  · intro session hstate
    rw [hp.state] at hstate
    have := h.staged session hstate
    have := hused session.stagedGeneration (WorkspaceRecord.mem_liveGenerations.mpr
      (.inr (.inr (WorkspaceRecord.stagedGeneration_of_rewriting hstate))))
    omega
  · intro hseal
    rw [hp.seal?] at hseal
    have := h.unsealed hseal
    rw [hp.generation]
    omega

/-- **What is used and promised is at most three times the quota.** -/
theorem usedBytes_le (h : Bounds quota now rec) : rec.usedBytes ≤ 3 * quota := by
  rw [rec.usedBytes_eq]
  have hown := h.own
  cases hstate : rec.state with
  | settled sealed =>
    rw [WorkspaceRecord.stagedBytes_of_settled hstate]
    omega
  | rewriting session =>
    rw [WorkspaceRecord.stagedBytes_of_rewriting hstate]
    have hstaged := h.staged session hstate
    omega

/-- A generation that is live has at most twice the quota in the books. -/
theorem usedIn_le (h : Bounds quota now rec) {g : Nat} (hg : g ∈ rec.liveGenerations) :
    rec.usedIn g ≤ 2 * quota := by
  have hown := h.own
  rcases WorkspaceRecord.mem_liveGenerations.mp hg with rfl | hplain | hst
  · omega
  · have hused : rec.plainUsed = rec.usedIn g := by
      rw [WorkspaceRecord.plainUsed, hplain]
      rfl
    omega
  · cases hstate : rec.state with
    | settled sealed =>
      rw [WorkspaceRecord.stagedGeneration_of_settled hstate] at hst
      cases hst
    | rewriting session =>
      rw [WorkspaceRecord.stagedGeneration_of_rewriting hstate] at hst
      cases hst
      have := h.staged session hstate
      omega

/-- What is promised is at most the quota: outside of a rewrite to ordinary uploads
alone. -/
theorem reservedBy_le (h : Bounds quota now rec) (hf : rec.TicketsFit) (inRewrite : Bool) :
    rec.reservedBy now inRewrite ≤ quota := by
  cases inRewrite with
  | false =>
    have := h.others
    omega
  | true =>
    cases hstate : rec.state with
    | rewriting session =>
      have := h.staged session hstate
      omega
    | settled sealed =>
      have hzero := @WorkspaceRecord.reservedBy_settled now rec hf _ hstate
      omega

/-- What was used becomes what the plain partition has used, and the next generation is new. -/
theorem setAside (h : Bounds quota now rec) (hnext : rec.usedIn rec.nextGeneration = 0)
    (hstate : rec.state = .settled none) (worn : Seal) :
    Bounds quota now
      { rec with
        plain := some rec.generation
        generation := rec.nextGeneration
        nextGeneration := rec.nextGeneration + 1
        state := .settled (some worn) } := by
  have hunsealed := h.unsealed (WorkspaceRecord.seal?_of_settled hstate)
  refine ⟨hunsealed, ?_, fun session hs => (by cases hs), fun hseal => (by cases hseal)⟩
  change rec.usedIn rec.nextGeneration + rec.usedIn rec.generation + rec.reservedBy now false ≤ _
  omega

/-- The next generation is new, and no upload of a rewrite is left. -/
theorem opened (h : Bounds quota now rec) (hnext : rec.usedIn rec.nextGeneration = 0)
    (hf : rec.TicketsFit) {session : Session} (hstate : rec.state = .settled session.prior)
    (hstaged : session.stagedGeneration = rec.nextGeneration) :
    Bounds quota now
      { rec with
        nextGeneration := rec.nextGeneration + 1
        state := .rewriting session } := by
  refine ⟨h.others, h.own, ?_, fun hseal => ?_⟩
  · rintro session' ⟨⟩
    have hzero := @WorkspaceRecord.reservedBy_settled now rec hf _ hstate
    rw [hstaged]
    change rec.usedIn rec.nextGeneration + rec.reservedBy now true ≤ _
    omega
  · exact h.unsealed ((WorkspaceRecord.seal?_of_settled hstate).trans hseal)

/-- The staged generation becomes the own one, whose bytes leave the books. -/
theorem switched (h : Bounds quota now rec) (hl : rec.Layout) {session : Session}
    (hstate : rec.state = .rewriting session) : Bounds quota now (rec.switched session) := by
  have hs := WorkspaceRecord.stagedGeneration_of_rewriting hstate
  have hused : ∀ g, g ≠ rec.generation → (rec.switched session).usedIn g = rec.usedIn g :=
    fun g hne => WorkspaceRecord.usedIn_of_get (Map.get_erase_of_ne _ (Ne.symm hne))
  have hstaged : (rec.switched session).usedIn session.stagedGeneration =
      rec.usedIn session.stagedGeneration := by
    refine hused _ fun e => hl.staged_ne ?_
    rw [hs, e]
  have hplain : (rec.switched session).plainUsed = rec.plainUsed :=
    WorkspaceRecord.plainUsed_congr rfl fun p hplain => by
      refine hused p fun e => hl.plain_ne ?_
      rw [hplain, e]
  have hfewer : (rec.switched session).reservedBy now false ≤ rec.reservedBy now false := by
    rw [WorkspaceRecord.reservedBy_eq, WorkspaceRecord.reservedBy_eq]
    exact WorkspaceRecord.sumTickets_filter rfl
  have hallowed := h.staged session hstate
  have hothers := h.others
  refine ⟨?_, ?_, fun session hs => (by cases hs), fun hseal => (by cases hseal)⟩
  · omega
  · show (rec.switched session).usedIn session.stagedGeneration + _ + _ ≤ _
    omega

/-- The bytes of the staged generation leave the books, and nothing else does. -/
theorem restored (h : Bounds quota now rec) (hl : rec.Layout) {session : Session}
    (hstate : rec.state = .rewriting session) : Bounds quota now (rec.restored session) := by
  have hs := WorkspaceRecord.stagedGeneration_of_rewriting hstate
  have hused : ∀ g, g ≠ session.stagedGeneration →
      (rec.restored session).usedIn g = rec.usedIn g := fun g hne =>
    WorkspaceRecord.usedIn_of_get (Map.get_erase_of_ne _ (Ne.symm hne))
  have hgen : (rec.restored session).usedIn rec.generation = rec.usedIn rec.generation := by
    refine hused _ fun e => hl.staged_ne ?_
    rw [hs, e]
  have hplain : (rec.restored session).plainUsed = rec.plainUsed :=
    WorkspaceRecord.plainUsed_congr rfl fun p hplain => by
      refine hused p fun e => hl.plain_ne_staged p hplain ?_
      rw [hs, e]
  have hfewer : (rec.restored session).reservedBy now false ≤ rec.reservedBy now false := by
    rw [WorkspaceRecord.reservedBy_eq, WorkspaceRecord.reservedBy_eq]
    exact WorkspaceRecord.sumTickets_filter rfl
  have hothers := h.others
  have hown := h.own
  refine ⟨?_, ?_, fun session hs => (by cases hs), fun hseal => ?_⟩
  · omega
  · show (rec.restored session).usedIn rec.generation + _ + _ ≤ _
    omega
  · have := h.unsealed ((WorkspaceRecord.seal?_of_rewriting hstate).trans hseal)
    show (rec.restored session).usedIn rec.generation + _ ≤ _
    omega

end Bounds

section
variable {r : Rules}

/-- A begin is admitted where it fits. -/
theorem Bounds.begun {caller : Caller} {request : UploadRequest} {g expiresAt : Nat}
    {u : UploadId} (hb : Bounds r.limits.quotaBytes r.now r.record)
    (htarget : r.record.Targets caller request g)
    (hroom : r.wouldHold g request ≤ r.limits.quotaBytes)
    (hnone : r.record.tickets[u]? = none) :
    Bounds r.limits.quotaBytes r.now
      { r.record with
        tickets := r.record.tickets.insert u ⟨caller.key, request, expiresAt⟩ } := by
  -- the request's size joins what its partition has reserved
  have hsum : ∀ inRewrite, WorkspaceRecord.reservedBy
      { r.record with tickets := r.record.tickets.insert u ⟨caller.key, request, expiresAt⟩ }
        r.now inRewrite ≤
      (if request.inRewrite = inRewrite then request.size else 0) +
        r.record.reservedBy r.now inRewrite := by
    intro inRewrite
    rw [WorkspaceRecord.reservedBy_eq, WorkspaceRecord.sumTickets_insert hnone rfl,
      ← WorkspaceRecord.reservedBy_eq]
    refine Nat.add_le_add_right ?_ _
    by_cases hin : request.inRewrite = inRewrite
    · rw [if_pos hin]
      split
      · exact Nat.le_refl _
      · exact Nat.zero_le _
    · rw [if_neg hin, if_neg (by simp [hin])]
  have hfalse := hsum false
  have htrue := hsum true
  cases htarget with
  | staged session hstate hin hholder hkey =>
    -- `wouldHold` counts the staged partition with its own promises
    rw [hin, if_neg (by decide)] at hfalse
    rw [hin, if_pos rfl] at htrue
    rw [Rules.wouldHold, hin, if_pos rfl] at hroom
    constructor
    · have := hb.others
      change r.record.plainUsed + _ ≤ _
      omega
    · have := hb.own
      change r.record.usedIn r.record.generation + r.record.plainUsed + _ ≤ _
      omega
    · intro session' hstate'
      rw [show r.record.state = .rewriting session' from hstate'] at hstate
      cases hstate
      change r.record.usedIn session.stagedGeneration + _ ≤ _
      omega
    · intro hseal
      have := hb.unsealed hseal
      change r.record.usedIn r.record.generation + _ ≤ _
      omega
  | current sealed hstate hin hkey =>
    -- and otherwise all that is used, which has no staged part here
    rw [hin, if_pos rfl] at hfalse
    rw [Rules.wouldHold, hin, if_neg (by decide), r.record.usedBytes_eq,
      WorkspaceRecord.stagedBytes_of_settled hstate] at hroom
    constructor
    · change r.record.plainUsed + _ ≤ _
      omega
    · change r.record.usedIn r.record.generation + r.record.plainUsed + _ ≤ _
      omega
    · intro session hs
      rw [show r.record.state = .rewriting session from hs] at hstate
      cases hstate
    · intro _
      change r.record.usedIn r.record.generation + _ ≤ _
      omega

/-- A publish turns what was promised into what is held. -/
theorem Bounds.published {caller : Caller} {u : UploadId} {ticket : Ticket} {g : Nat}
    {rec : WorkspaceRecord} (hb : Bounds r.limits.quotaBytes r.now r.record)
    (hl : r.record.Layout) (hticket : r.record.liveTicket r.now caller u = some ticket)
    (htarget : r.record.Targets caller ticket.request g) (hp : r.record.SamePointers rec)
    (hused : ∀ h, rec.usedIn h =
      if g = h then r.record.usedIn g + ticket.request.size else r.record.usedIn h)
    (htickets : rec.tickets = r.record.tickets.erase u) :
    Bounds r.limits.quotaBytes r.now rec := by
  obtain ⟨hget, -, hexpires⟩ := WorkspaceRecord.liveTicket_eq_some hticket
  -- the ticket's size leaves what is reserved and joins what is used
  have hsum : ∀ inRewrite, r.record.reservedBy r.now inRewrite =
      (if ticket.request.inRewrite = inRewrite then ticket.request.size else 0) +
        rec.reservedBy r.now inRewrite := by
    intro inRewrite
    rw [WorkspaceRecord.reservedBy_eq, WorkspaceRecord.sumTickets_erase hget htickets,
      ← WorkspaceRecord.reservedBy_eq]
    simp [hexpires]
  have hfalse := hsum false
  have htrue := hsum true
  have hhere : rec.usedIn g = r.record.usedIn g + ticket.request.size := by
    rw [hused, if_pos rfl]
  have hthere : ∀ h, g ≠ h → rec.usedIn h = r.record.usedIn h := by
    intro h hne
    rw [hused, if_neg hne]
  have hothers := hb.others
  have hown := hb.own
  cases htarget with
  | staged session hstate hin hholder hkey =>
    -- staged: neither the own partition nor the plain one is written to
    rw [hin, if_neg (by decide)] at hfalse
    rw [hin, if_pos rfl] at htrue
    have hs := WorkspaceRecord.stagedGeneration_of_rewriting hstate
    have hgen : rec.usedIn r.record.generation = r.record.usedIn r.record.generation := by
      refine hthere _ fun h => hl.staged_ne ?_
      rw [hs, h]
    have hplain : rec.plainUsed = r.record.plainUsed :=
      WorkspaceRecord.plainUsed_congr hp.plain fun p hplain => by
        refine hthere p fun h => hl.plain_ne_staged p hplain ?_
        rw [hs, h]
    constructor
    · omega
    · rw [hp.generation]
      omega
    · intro session' hstate'
      rw [hp.state, hstate] at hstate'
      cases hstate'
      have := hb.staged session hstate
      omega
    · intro hseal
      rw [hp.seal?] at hseal
      have := hb.unsealed hseal
      rw [hp.generation]
      omega
  | current sealed hstate hin hkey =>
    -- the own partition: there is no staged one
    rw [hin, if_pos rfl] at hfalse
    have hplain : rec.plainUsed = r.record.plainUsed :=
      WorkspaceRecord.plainUsed_congr hp.plain fun p hplain => by
        refine hthere p fun h => hl.plain_ne ?_
        rw [hplain, h]
    constructor
    · omega
    · rw [hp.generation]
      omega
    · intro session hs
      rw [hp.state, hstate] at hs
      cases hs
    · intro hseal
      rw [hp.seal?] at hseal
      have := hb.unsealed hseal
      rw [hp.generation]
      omega

end

/-! ## Every operation keeps to the bounds, and every number fits -/

section
variable [Crates] {r : Rules} {op : Op} {a : Answer} {rec : WorkspaceRecord}
  {shelf : MemoryShelf} {after : List Cleanup}

/-- **Every operation keeps to the bounds.** -/
theorem Change.bounds (h : Change r op a rec shelf after) (hl : r.record.Layout)
    (hb : Balanced r.record r.shelf) (hf : r.record.TicketsFit)
    (hquota : r.limits.quotaBytes < u64Bound - 1)
    (hw : Bounds r.limits.quotaBytes r.now r.record) :
    Bounds r.limits.quotaBytes r.now rec := by
  have hsame : ∀ g ∈ r.record.liveGenerations, r.record.usedIn g ≤ r.record.usedIn g :=
    fun _ _ => Nat.le_refl _
  have hnext : r.record.usedIn r.record.nextGeneration = 0 :=
    hb.usedIn_dead fun hlive => Nat.lt_irrefl _ (hl.live_lt _ hlive)
  cases h with
  | kept => exact hw
  | discarded => exact hw
  | replayed _ => exact hw
  | put _ => exact hw
  | probed _ => exact hw
  | rebegun _ _ _ => exact hw
  | @deleted _ _ _ _ g item _ hstate hg hitem =>
    refine hw.fewer ⟨rfl, rfl, rfl, rfl, rfl⟩ (fun h _ => ?_) fun _ => Nat.le_refl _
    rw [r.record.usedIn_insert]
    split
    · rename_i e
      rw [← e]
      exact Nat.sub_le _ _
    · exact Nat.le_refl _
  | sealed hstate _ _ _ =>
    exact ⟨hw.others, hw.own, fun session hs => (by cases hs), fun hseal => (by cases hseal)⟩
  | setAside hstate => exact hw.setAside hnext hstate _
  | reheaded hstate =>
    exact ⟨hw.others, hw.own, fun session hs => (by cases hs), fun hseal => (by cases hseal)⟩
  | begun htarget hnew hquotaFits hknown _ hfirst =>
    exact hw.begun htarget (Rules.wouldHold_le hquotaFits (.inl hquota))
      (WorkspaceRecord.known_eq_false.mp hknown).1
  | stored _ _ =>
    exact hw.fewer ⟨rfl, rfl, rfl, rfl, rfl⟩ hsame fun _ => WorkspaceRecord.sumTickets_filter rfl
  | duplicate hticket _ _ _ =>
    exact hw.fewer ⟨rfl, rfl, rfl, rfl, rfl⟩ hsame
      fun _ => WorkspaceRecord.sumTickets_finished hticket rfl
  | published hticket htarget _ _ _ _ _ =>
    exact hw.published hl hticket htarget ⟨rfl, rfl, rfl, rfl, rfl⟩
      (r.record.usedIn_insert _ _) rfl
  | @recovered _ _ _ g _ hticket htarget _ _ _ =>
    refine hw.fewer ⟨rfl, rfl, rfl, rfl, rfl⟩ (fun h _ => ?_)
      fun _ => WorkspaceRecord.sumTickets_finished hticket rfl
    -- the books had what the shelf has
    show ({ r.record with used := r.record.used.insert g (r.shelf.bytes g) } :
      WorkspaceRecord).usedIn h ≤ _
    rw [r.record.usedIn_insert]
    split
    · rename_i e
      rw [← e, hb.books g htarget.live]
    · exact Nat.le_refl _
  | aborted =>
    exact hw.fewer ⟨rfl, rfl, rfl, rfl, rfl⟩ hsame fun _ => WorkspaceRecord.sumTickets_filter rfl
  | opened hstate _ _ _ => exact hw.opened hnext hf hstate rfl
  | @renewed _ _ session _ hstate _ _ =>
    refine ⟨hw.others, hw.own, ?_, fun hseal => ?_⟩
    · rintro session' ⟨⟩
      exact hw.staged session hstate
    · exact hw.unsealed ((WorkspaceRecord.seal?_of_rewriting hstate).trans hseal)
  | switched hstate _ _ _ _ => exact hw.switched hl hstate
  | restored hstate => exact hw.restored hl hstate
  | cleaned =>
    refine hw.fewer ⟨rfl, rfl, rfl, rfl, rfl⟩ (fun g _ => ?_)
      fun _ => WorkspaceRecord.sumTickets_filter rfl
    unfold WorkspaceRecord.usedIn
    change ((r.record.used.filter _)[g]?).getD 0 ≤ _
    rw [Map.get_filter]
    cases r.record.used[g]? with
    | none => exact Nat.le_refl _
    | some n =>
      rw [Option.filter_some]
      split
      · exact Nat.le_refl _
      · exact Nat.zero_le _
  | reconciled =>
    refine hw.fewer ⟨rfl, rfl, rfl, rfl, rfl⟩ (fun g hg => ?_)
      fun _ => WorkspaceRecord.sumTickets_filter rfl
    rw [hb.books g hg, WorkspaceRecord.usedIn, r.reconcile_used, if_pos hg]
    exact Nat.le_refl _

/-- A ticket after a change was there before, or was admitted now. -/
theorem Change.admitted (h : Change r op a rec shelf after) {u : UploadId} {ticket : Ticket}
    (hticket : rec.tickets[u]? = some ticket) :
    r.record.tickets[u]? = some ticket ∨
      ∃ g, saturatingAdd (r.held g ticket.request.inRewrite) ticket.request.size ≤
          r.limits.quotaBytes ∧
        ticket.expiresAt = wrappingAdd r.now r.limits.stagingSecs := by
  cases h with
  | @begun caller request g v htarget hnew hquota hknown hminted _ =>
    change (r.record.tickets.insert v _)[u]? = some ticket at hticket
    rw [Map.get_insert] at hticket
    split at hticket
    · cases hticket
      exact .inr ⟨g, hquota, rfl⟩
    · exact .inl hticket
  | stored _ _ => exact .inl (Map.get_of_get_filter hticket)
  | duplicate _ _ _ _ => exact .inl (Map.get_of_get_erase hticket)
  | published _ _ _ _ _ _ _ => exact .inl (Map.get_of_get_erase hticket)
  | recovered _ _ _ _ _ => exact .inl (Map.get_of_get_erase hticket)
  | aborted => exact .inl (Map.get_of_get_filter hticket)
  | switched _ _ _ _ _ => exact .inl (Map.get_of_get_filter hticket)
  | restored _ => exact .inl (Map.get_of_get_filter hticket)
  | cleaned => exact .inl (Map.get_of_get_filter hticket)
  | reconciled => exact .inl (Map.get_of_get_filter hticket)
  | _ => exact .inl hticket

/-- An outcome after a change was there before, or is remembered from now on. -/
theorem Change.remembered (h : Change r op a rec shelf after) {u : UploadId}
    {stone : Tombstone} (hstone : rec.tombstones[u]? = some stone) :
    r.record.tombstones[u]? = some stone ∨
      stone.expiresAt = wrappingAdd r.now r.limits.stagingSecs := by
  have hfinished : ∀ {v : UploadId} {ticket : Ticket} {id : ItemId} {created : Bool},
      (r.record.tombstones.insert v (r.stone ticket id created))[u]? = some stone →
      r.record.tombstones[u]? = some stone ∨
        stone.expiresAt = wrappingAdd r.now r.limits.stagingSecs := by
    intro v ticket id created hget
    rw [Map.get_insert] at hget
    split at hget
    · cases hget
      exact .inr rfl
    · exact .inl hget
  cases h with
  | duplicate _ _ _ _ => exact hfinished hstone
  | published _ _ _ _ _ _ _ => exact hfinished hstone
  | recovered _ _ _ _ _ => exact hfinished hstone
  | cleaned => exact .inl (Map.get_of_get_filter hstone)
  | reconciled => exact .inl (Map.get_of_get_filter hstone)
  | _ => exact .inl hstone

/-- A lease after a change ends as it did before, or begins now. -/
theorem Change.leased (h : Change r op a rec shelf after) {session : Session}
    (hstate : rec.state = .rewriting session) :
    (∃ session', r.record.state = .rewriting session' ∧
      session'.leaseExpiresAt = session.leaseExpiresAt) ∨
      session.leaseExpiresAt = wrappingAdd r.now r.limits.leaseSecs := by
  cases h with
  | opened _ _ _ _ =>
    cases hstate
    exact .inr rfl
  | renewed _ _ _ =>
    cases hstate
    exact .inr rfl
  | sealed _ _ => cases hstate
  | setAside _ => cases hstate
  | reheaded _ => cases hstate
  | switched _ _ _ _ _ => cases hstate
  | restored _ => cases hstate
  | _ => exact .inl ⟨session, hstate, rfl⟩

/-- **Every number of a record fits after a change**, as long as that of the next
generation does. -/
theorem Change.fits (h : Change r op a rec shelf after) (hm : r.limits.Moderate)
    (hnow : r.now < 2 ^ 62) (hfits : r.record.Fits) (hnext : rec.nextGeneration < dbBound)
    (hl : rec.Layout) (hb : Balanced rec shelf)
    (hw : Bounds r.limits.quotaBytes r.now rec) : rec.Fits := by
  have hbound : dbBound = 2 ^ 62 + 2 ^ 62 := by decide
  have hu64 : u64Bound = dbBound + dbBound := by decide
  have hstaging := hm.staging
  have hlease := hm.lease
  have hquota := hm.quota
  have hexpires : wrappingAdd r.now r.limits.stagingSecs < dbBound := by
    rw [wrappingAdd_of_lt (by omega)]
    omega
  have hlive : ∀ g ∈ rec.liveGenerations, g < dbBound := fun g hg =>
    Nat.lt_trans (hl.live_lt g hg) hnext
  constructor
  -- the generations: all live ones are below the next
  · exact hlive _ (WorkspaceRecord.mem_liveGenerations.mpr (.inl rfl))
  · intro n hn
    exact hlive n (WorkspaceRecord.mem_liveGenerations.mpr (.inr (.inl hn)))
  · exact hnext
  -- the lease: an old one, or now and the lease
  · intro n hn
    cases hstate : rec.state with
    | settled sealed =>
      rw [hstate] at hn
      cases hn
    | rewriting session =>
      rw [hstate] at hn
      cases hn
      rcases h.leased hstate with ⟨session', hstate', hsame⟩ | hnew
      · rw [← hsame]
        refine hfits.lease _ ?_
        rw [hstate']
        rfl
      · rw [hnew, wrappingAdd_of_lt (by omega)]
        omega
  · intro n hn
    cases hstate : rec.state with
    | settled sealed =>
      rw [hstate] at hn
      cases hn
    | rewriting session =>
      rw [hstate] at hn
      cases hn
      exact hlive _ (WorkspaceRecord.mem_liveGenerations.mpr
        (.inr (.inr (WorkspaceRecord.stagedGeneration_of_rewriting hstate))))
  -- the bytes of a live generation are within a multiple of the quota
  · rintro ⟨g, n⟩ he
    have hget := Map.mem_toList_iff.mp he
    have hg := hb.only g n hget
    refine ⟨hlive g hg, ?_⟩
    have hused : rec.usedIn g = n := by
      rw [WorkspaceRecord.usedIn, hget]
      rfl
    have := hw.usedIn_le hg
    show n < dbBound
    omega
  -- tickets and tombstones: there before, or admitted now
  · rintro ⟨u, ticket⟩ he
    have hget := Map.mem_toList_iff.mp he
    rcases h.admitted hget with hold | ⟨g, hadmitted, hexpiry⟩
    · exact hfits.tickets ⟨u, ticket⟩ (Map.mem_toList_iff.mpr hold)
    · refine ⟨?_, ?_⟩
      · unfold saturatingAdd at hadmitted
        show ticket.request.size < dbBound
        omega
      · show ticket.expiresAt < dbBound
        rw [hexpiry]
        exact hexpires
  · rintro ⟨u, stone⟩ he
    rcases h.remembered (Map.mem_toList_iff.mp he) with hold | hexpiry
    · exact hfits.tombstones ⟨u, stone⟩ (Map.mem_toList_iff.mpr hold)
    · show stone.expiresAt < dbBound
      rw [hexpiry]
      exact hexpires

end

/-! ## Whole runs -/

/-- A generation that is numbered anew is taken without touching the shelf. -/
theorem Move.numbered {rec rec' : WorkspaceRecord} {shelf shelf' : MemoryShelf}
    (h : Move rec shelf rec' shelf') :
    rec'.nextGeneration = rec.nextGeneration ∨ shelf' = shelf := by
  cases h with
  | same h => exact .inl h.nextGeneration
  | _ => exact .inr rfl

/-- Every event but a stop in the middle of an operation. -/
def Event.uncut : Event → Bool
  | .cut .. => false
  | _ => true

section
variable [Crates] {id : String} {limits : Limits} {w w' : World} {call : Call} {op : Op}

/-- The ledger stores what fits, and what does not it refuses. -/
theorem Engine.runStored_cases (id : String) (w : World) (limits : Limits) (call : Call)
    (op : Op) :
    (Engine.runStored id w limits call op = Engine.run w limits call op ∧
      ((Engine.run w limits call op).2.record.Fits ∨
        (Engine.run w limits call op).2.record = w.record)) ∨
    (¬(Engine.run w limits call op).2.record.Fits ∧
      Engine.runStored id w limits call op =
        (.error .serviceUnavailable,
          { w with shelf := (Engine.run w limits call op).2.shelf })) := by
  unfold Engine.runStored
  rcases Engine.run_cases w limits call op with
    ⟨a, rec, shelf, after, hchange, hrun⟩ | ⟨e, shelf, -, hrun⟩
  · by_cases hreads : op.readsOnly = true
    · refine .inl ⟨?_, .inr ?_⟩
      · rw [hrun]
        simp only [hreads, if_true]
      · have hread : Engine.run w limits call op = Engine.read w limits call op.rule := by
          unfold Engine.run
          rw [if_pos hreads]
        rw [hread]
        rfl
    · rw [hrun]
      simp only [hreads, Bool.false_eq_true, if_false]
      rcases fits_stored id rec with ⟨hfits, v, hv⟩ | ⟨hnot, hv⟩
      · refine .inl ⟨?_, .inl hfits⟩
        rw [hv]
      · refine .inr ⟨hnot, ?_⟩
        rw [hv]
        rfl
  · rw [hrun]
    exact .inl ⟨rfl, .inr rfl⟩

namespace World

/-- One event, over a ledger that stores what fits. -/
def execStored (id : String) (limits : Limits) (w : World) : Event → World
  | .request call op => (Engine.runStored id w limits call op).2
  | e => w.exec limits e

/-- A whole run over such a ledger. -/
def runStored (id : String) (limits : Limits) : World → List Event → World :=
  Runs.run (execStored id limits)

/-- No sum an operation makes overflows, and what it leaves can be stored: if it is
refused, then for the number of generations, which is no sum. -/
structure SumsFit (id : String) (limits : Limits) (w : World) (call : Call) (op : Op) :
    Prop where
  deadlines : ∀ n ∈ op.deadlines (w.rules limits call), n < dbBound
  totals : ∀ n ∈ op.totals (w.rules limits call), n < u64Bound
  stores : Engine.runStored id w limits call op = Engine.run w limits call op ∨
    dbBound ≤ (Engine.run w limits call op).2.record.nextGeneration

/-- What holds between the events of a run by a clock that does not go back. -/
structure KeepsSums (limits : Limits) (past : List Nat) (w : World) : Prop where
  laid : w.Laid
  balanced : Balanced w.record w.shelf
  fit : w.record.TicketsFit
  bounds : ∀ now, (∀ t ∈ past, t ≤ now) → Bounds limits.quotaBytes now w.record
  fits : w.record.Fits

/-- The books stay balanced as long as nothing is cut. -/
theorem Step.balanced {e : Event} (hs : Step limits w e w') (hl : w.Laid)
    (hb : Balanced w.record w.shelf) (he : e.uncut = true) :
    Balanced w'.record w'.shelf := by
  cases hs with
  | done hanswer hchange => exact Balanced.step hl hb rfl (.done hanswer hchange)
  | @refused call op _ hshelf =>
    have hrefused : Step limits w (.request call op) _ := .refused hshelf
    exact Balanced.step hl hb rfl hrefused
  | @performed i c hpending =>
    have hdone : Step limits w (.cleanup i) _ := .performed hpending
    exact Balanced.step hl hb rfl hdone
  | idle _ => exact hb
  | cut _ => cases he
  | lost => exact hb
  | wroteLate => exact hb.same rfl rfl (MemoryShelf.write_generation _ _ _ _ _)

variable {past : List Nat}

omit [Crates] in
/-- Time may pass. -/
theorem KeepsSums.later (h : KeepsSums limits past w) (times : List Nat) :
    KeepsSums limits (past ++ times) w :=
  ⟨h.laid, h.balanced, h.fit,
    fun now hnow => h.bounds now fun t ht => hnow t (List.mem_append_left _ ht), h.fits⟩

/-- **An event keeps the bounds**, if the generation it numbers fits. -/
theorem KeepsSums.exec {e : Event} (h : KeepsSums limits past w) (hm : limits.Moderate)
    (he : e.uncut = true) (hclock : (past ++ e.times).Pairwise (· ≤ ·))
    (htimes : ∀ t ∈ e.times, t < 2 ^ 62) (hs : Step limits w e w')
    (hnext : w'.record.nextGeneration < dbBound) : KeepsSums limits (past ++ e.times) w' := by
  have hlaid := h.laid.step hs
  have hbalanced := hs.balanced h.laid h.balanced he
  have hfit := hs.ticketsFit h.fit
  have hu64 : u64Bound = 2 ^ 62 + 2 ^ 62 + 2 ^ 62 + 2 ^ 62 := by decide
  have hquota := hm.quota
  cases hs with
  | @done call op a rec shelf after hanswer hchange =>
    have hbefore : Bounds limits.quotaBytes call.now w.record :=
      h.bounds call.now fun t ht =>
        (List.pairwise_append.mp hclock).2.2 t ht call.now List.mem_cons_self
    have hafter : Bounds limits.quotaBytes call.now rec :=
      hchange.bounds h.laid.layout h.balanced h.fit
        (show limits.quotaBytes < u64Bound - 1 by omega) hbefore
    refine ⟨hlaid, hbalanced, hfit, fun now hnow => ?_, ?_⟩
    · exact hafter.later (hnow call.now (List.mem_append_right _ List.mem_cons_self))
    · exact hchange.fits hm (htimes call.now List.mem_cons_self) h.fits hnext hlaid.layout
        hbalanced hafter
  | cut _ => cases he
  | refused _ => exact ⟨hlaid, hbalanced, hfit, (h.later _).bounds, h.fits⟩
  | performed _ => exact ⟨hlaid, hbalanced, hfit, (h.later _).bounds, h.fits⟩
  | idle _ => exact h.later _
  | lost => exact ⟨hlaid, hbalanced, hfit, (h.later _).bounds, h.fits⟩
  | wroteLate => exact ⟨hlaid, hbalanced, hfit, (h.later _).bounds, h.fits⟩

/-- What the ledger refuses, it refuses for the number of generations, and then nothing
has changed. -/
theorem KeepsSums.refused (h : KeepsSums limits past w) (hm : limits.Moderate)
    (hclock : (past ++ [call.now]).Pairwise (· ≤ ·)) (htime : call.now < 2 ^ 62)
    (hnot : ¬(Engine.run w limits call op).2.record.Fits) :
    dbBound ≤ (Engine.run w limits call op).2.record.nextGeneration ∧
      { w with shelf := (Engine.run w limits call op).2.shelf } = w := by
  have hs : Step limits w (.request call op) (Engine.run w limits call op).2 :=
    w.exec_step limits (.request call op)
  have hnext : dbBound ≤ (Engine.run w limits call op).2.record.nextGeneration := by
    by_contra hlt
    have hkeeps : KeepsSums limits (past ++ (Event.request call op).times) _ :=
      h.exec hm rfl hclock ?_ hs (by omega)
    · exact hnot hkeeps.fits
    intro t ht
    cases List.mem_singleton.mp ht
    exact htime
  refine ⟨hnext, ?_⟩
  rcases hs.move.numbered with hsame | hshelf
  · have := h.fits.next
    omega
  · rw [hshelf]

/-- **An event keeps the bounds**, over a ledger that stores what fits. -/
theorem KeepsSums.step {e : Event} (h : KeepsSums limits past w) (hm : limits.Moderate)
    (he : e.uncut = true) (hclock : (past ++ e.times).Pairwise (· ≤ ·))
    (htimes : ∀ t ∈ e.times, t < 2 ^ 62) :
    KeepsSums limits (past ++ e.times) (w.execStored id limits e) := by
  have hs := w.exec_step limits e
  cases e with
  | request call op =>
    show KeepsSums limits _ (Engine.runStored id w limits call op).2
    rcases Engine.runStored_cases id w limits call op with ⟨hrun, hstored⟩ | ⟨hnot, hrun⟩
    · rw [hrun]
      refine h.exec hm he hclock htimes hs ?_
      rcases hstored with hfits | hsame
      · exact hfits.next
      · show (Engine.run w limits call op).2.record.nextGeneration < _
        rw [hsame]
        exact h.fits.next
    · have htime : call.now < 2 ^ 62 := htimes call.now List.mem_cons_self
      rw [hrun, (h.refused hm hclock htime hnot).2]
      exact h.later _
  | cut call op steps => cases he
  | cleanup i =>
    refine h.exec hm he hclock htimes hs ?_
    have hsame : (w.exec limits (.cleanup i)).record = w.record := by
      unfold World.exec
      dsimp only
      split <;> rfl
    show (w.exec limits (.cleanup i)).record.nextGeneration < dbBound
    rw [hsame]
    exact h.fits.next
  | lose i => exact h.exec hm he hclock htimes hs h.fits.next
  | lateWrite u content announced hashed => exact h.exec hm he hclock htimes hs h.fits.next

/-- **An operation's sums fit.** -/
theorem KeepsSums.sumsFit (h : KeepsSums limits past w) (hm : limits.Moderate)
    (hclock : (past ++ [call.now]).Pairwise (· ≤ ·)) (htime : call.now < 2 ^ 62) :
    w.SumsFit id limits call op := by
  have hbound : dbBound = 2 ^ 62 + 2 ^ 62 := by decide
  have hu64 : u64Bound = dbBound + dbBound := by decide
  have hstaging := hm.staging
  have hlease := hm.lease
  have hquota := hm.quota
  have hb : Bounds limits.quotaBytes call.now w.record :=
    h.bounds call.now fun t ht =>
      (List.pairwise_append.mp hclock).2.2 t ht call.now List.mem_cons_self
  constructor
  -- sums of times: now and a limit
  · intro n hn
    have hstaged : call.now + limits.stagingSecs < dbBound := by omega
    have hleased : call.now + limits.leaseSecs < dbBound := by omega
    cases op with
    | beginUpload caller request =>
      cases List.mem_singleton.mp hn
      exact hstaged
    | commitUpload caller u =>
      cases List.mem_singleton.mp hn
      exact hstaged
    | beginRewrite caller request =>
      cases List.mem_singleton.mp hn
      exact hleased
    | heartbeatRewrite caller =>
      cases List.mem_singleton.mp hn
      exact hleased
    | takeOverRewrite caller =>
      cases List.mem_singleton.mp hn
      exact hleased
    | _ => cases hn
  -- sums of bytes, each within a multiple of the quota
  · intro n hn
    cases op with
    | beginUpload caller request =>
      rcases List.mem_cons.mp hn with rfl | hn
      · have hused : w.record.usedBytes ≤ 3 * limits.quotaBytes := hb.usedBytes_le
        show w.record.usedBytes < u64Bound
        omega
      · cases List.mem_singleton.mp hn
        have hreserved := hb.reservedBy_le h.fit request.inRewrite
        show w.record.reservedBy call.now request.inRewrite < u64Bound
        omega
    | commitUpload caller u =>
      change n ∈ (match w.record.liveTicket call.now caller u with
        | none => []
        | some ticket =>
          match w.record.uploadTarget caller ticket.request with
          | .error _ => []
          | .ok g => [w.record.usedIn g + ticket.request.size]) at hn
      split at hn
      · cases hn
      · rename_i ticket hticket
        split at hn
        · cases hn
        · rename_i g htarget
          cases List.mem_singleton.mp hn
          have hused := hb.usedIn_le (WorkspaceRecord.uploadTarget_ok htarget).live
          have hsize := (h.fits.tickets (u, ticket)
            (Map.mem_toList_iff.mpr (WorkspaceRecord.liveTicket_eq_some hticket).1)).1
          change ticket.request.size < dbBound at hsize
          omega
    | _ => cases hn
  -- what is stored fits, or the database refuses it
  · rcases Engine.runStored_cases id w limits call op with ⟨hrun, -⟩ | ⟨hnot, -⟩
    · exact .inl hrun
    · exact .inr (h.refused hm hclock htime hnot).1

omit [Crates] in
theorem keepsSums_initial : KeepsSums limits [] initial where
  laid := laid_initial
  balanced := balanced_initial
  fit := WorkspaceRecord.ticketsFit_initial
  bounds := by
    intro now _
    have hnone : ∀ inRewrite, initial.record.reservedBy now inRewrite = 0 := by
      intro inRewrite
      rw [WorkspaceRecord.reservedBy_eq]
      refine WorkspaceRecord.sumTickets_eq_zero fun u ticket hticket => ?_
      rw [show initial.record.tickets = ∅ from rfl, Std.ExtTreeMap.getElem?_empty] at hticket
      cases hticket
    have hused : initial.record.usedIn 0 = 0 := by
      show ((∅ : Map Nat Nat)[0]?).getD 0 = 0
      rw [Std.ExtTreeMap.getElem?_empty]
      rfl
    have hfalse := hnone false
    refine ⟨?_, ?_, fun session hs => (by cases hs), fun _ => ?_⟩
    · show 0 + initial.record.reservedBy now false ≤ _
      omega
    · show initial.record.usedIn 0 + 0 + initial.record.reservedBy now false ≤ _
      omega
    · show initial.record.usedIn 0 + initial.record.reservedBy now false ≤ _
      omega
  fits := by
    constructor
    · decide
    · intro n hn
      cases hn
    · decide
    · intro n hn
      cases hn
    · intro n hn
      cases hn
    · intro e he
      cases he
    · intro e he
      cases he
    · intro e he
      cases he

/-- The bounds after a whole run. -/
theorem keepsSums_run (id : String) (hm : limits.Moderate) {es : List Event}
    (huncut : ∀ e ∈ es, e.uncut = true) (hclock : (es.flatMap Event.times).Pairwise (· ≤ ·))
    (htimes : ∀ t ∈ es.flatMap Event.times, t < 2 ^ 62) :
    KeepsSums limits (es.flatMap Event.times) (initial.runStored id limits es) := by
  have hboth : ∀ e ∈ es, e.uncut = true ∧ ∀ t ∈ e.times, t < 2 ^ 62 := fun e he =>
    ⟨huncut e he, fun t ht => htimes t (List.mem_flatMap.mpr ⟨e, he, ht⟩)⟩
  rw [← Runs.history_of_events (execStored id limits) Event.times initial es] at hclock ⊢
  have hkeeps : KeepsSums limits
      ([] ++ Runs.history (execStored id limits) (fun _ e => e.times) initial es)
      (initial.runStored id limits es) :=
    Runs.pairwise_invariant (execStored id limits)
      (fun past w e h hp hpair => h.step hm hp.1 hpair hp.2) keepsSums_initial
      (Runs.along_of_forall _ hboth) hclock
  exact hkeeps

/-- **No sum overflows.** In every run of operations that are not cut short, by a clock
that does not go back, with a configuration that is moderate: every request's sums fit,
and so does what the workspace then holds and has promised. -/
theorem sums_run (config : Config) (quotaBytes : Option Nat) (id : String) (es : List Event)
    (hm : config.Moderate quotaBytes) (huncut : ∀ e ∈ es, e.uncut = true)
    (hclock : (es.flatMap Event.times).Pairwise (· ≤ ·))
    (htimes : ∀ t ∈ es.flatMap Event.times, t < 2 ^ 62) :
    Runs.Along (execStored id (config.limitsFor quotaBytes))
      (fun w e => ∀ call op, e = .request call op →
        w.SumsFit id (config.limitsFor quotaBytes) call op) initial es ∧
    ∀ now, (∀ t ∈ es.flatMap Event.times, t ≤ now) →
      (initial.runStored id (config.limitsFor quotaBytes) es).record.usedBytes < u64Bound ∧
      ∀ inRewrite, (initial.runStored id (config.limitsFor quotaBytes) es).record.reservedBy
        now inRewrite < u64Bound := by
  have hlimits := hm.limitsFor
  constructor
  · refine Runs.along_of_splits _ fun pre e post hsplit call op he => ?_
    subst hsplit he
    rw [List.flatMap_append, List.flatMap_cons] at hclock htimes
    have hbefore : KeepsSums (config.limitsFor quotaBytes) (pre.flatMap Event.times)
        (initial.runStored id (config.limitsFor quotaBytes) pre) := by
      refine keepsSums_run id hlimits (fun e he => ?_) (List.pairwise_append.mp hclock).1
        fun t ht => htimes t (List.mem_append_left _ ht)
      exact huncut e (List.mem_append_left _ he)
    refine hbefore.sumsFit hlimits ?_ ?_
    · rw [← List.append_assoc] at hclock
      exact (List.pairwise_append.mp hclock).1
    · exact htimes call.now (List.mem_append_right _ (List.mem_append_left _ List.mem_cons_self))
  · intro now hnow
    have hkeeps := keepsSums_run id hlimits huncut hclock htimes
    have hb := hkeeps.bounds now hnow
    have hu64 : u64Bound = 2 ^ 62 + 2 ^ 62 + 2 ^ 62 + 2 ^ 62 := by decide
    have hquota := hlimits.quota
    constructor
    · have := hb.usedBytes_le
      omega
    · intro inRewrite
      have := hb.reservedBy_le hkeeps.fit inRewrite
      omega

end World

end

/-! ## Limits that are not moderate -/

namespace Sample

/-- Hours of which `u64` does not hold the seconds. -/
def boundless : Config where
  staging := { maxAgeHours := 2 ^ 63 - 1 }

/-- Hours whose seconds `u64` holds and the control database does not. -/
def overlong : Config where
  staging := { maxAgeHours := 3000000000000000 }

end Sample

/-- With a saturated time-to-live the expiry of a ticket that is handed out at `1` wraps to
`0`. With a shorter one that the database does not hold, no upload can begin. -/
theorem World.sums_overflow :
    ¬(∀ n ∈ (Op.beginUpload Sample.laptop (Sample.request 9 none)).deadlines
        (World.initial.rules (Sample.boundless.limitsFor none) (Sample.call 1 [1])), n < u64Bound) ∧
      (@Engine.run Sample.crates .initial (Sample.boundless.limitsFor none) (Sample.call 1 [1])
        (.beginUpload Sample.laptop (Sample.request 9 none))).1 =
          .ok (.begun (.ticket ⟨Sample.upload 1, 0⟩)) ∧
      (@Engine.runStored Sample.crates "home" .initial (Sample.overlong.limitsFor none)
        (Sample.call 1 [1]) (.beginUpload Sample.laptop (Sample.request 9 none))).1 =
          .error .serviceUnavailable := by
  refine ⟨by decide, by decide +kernel, by decide +kernel⟩

/-- A rotation under the default configuration. -/
theorem World.sums_rotation :
    Runs.Along (@execStored Sample.crates "home" (({} : Config).limitsFor none))
      (fun w e => ∀ call op, e = .request call op →
        @SumsFit Sample.crates "home" (({} : Config).limitsFor none) w call op) initial
      (Sample.rotation 1 1) ∧
    ∀ now, (∀ t ∈ (Sample.rotation 1 1).flatMap Event.times, t ≤ now) →
      (@runStored Sample.crates "home" (({} : Config).limitsFor none) initial
        (Sample.rotation 1 1)).record.usedBytes < u64Bound ∧
      ∀ inRewrite, (@runStored Sample.crates "home" (({} : Config).limitsFor none) initial
        (Sample.rotation 1 1)).record.reservedBy now inRewrite < u64Bound :=
  @sums_run Sample.crates {} none "home" (Sample.rotation 1 1)
    ⟨by decide, by decide, by decide⟩ (by decide) (by decide) (by decide)

end Passalong
