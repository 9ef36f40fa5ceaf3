import Passalong.Books

/-!
# The quota law

A begin is admitted when what the workspace holds, what it has promised and the new
upload fit the quota together; uploads of a rewrite have the quota as an allowance
of their own. The law that is meant by this: a settled workspace holds and has
promised no more than its quota, and during a rewrite the next generation and the
rest keep to one quota each.

The law holds in every run of completed operations with a clock that does not go
back, up to two things the code does not look at (`quotaLaw_run`):

- with a quota of the greatest `u64` a saturating sum never exceeds it
  (`beginFits`);
- `commitRewrite` moves a generation that was allowed a whole quota beside the plain
  partition, and makes ordinary tickets for its key count again, without asking
  whether they fit together (`switchFits`).
-/

namespace Passalong

open Lib

/-! ## Sums over tickets -/

namespace WorkspaceRecord

variable {rec rec' : WorkspaceRecord} {p q : Ticket → Bool}

/-- The bytes of the tickets `p` picks. -/
def sumTickets (rec : WorkspaceRecord) (p : Ticket → Bool) : Nat :=
  Map.weigh (fun _ ticket => if p ticket then ticket.request.size else 0) rec.tickets

/-- Bytes promised to live ordinary uploads made under a key. -/
def promised (rec : WorkspaceRecord) (now : Nat) (key : Option KeyId) : Nat :=
  (((Map.vals rec.tickets).filter fun ticket =>
    now < ticket.expiresAt && (!ticket.request.inRewrite && ticket.request.expectedKeyId = key)).map
      fun ticket => ticket.request.size).sum

theorem promised_eq (now : Nat) (key : Option KeyId) :
    rec.promised now key = rec.sumTickets fun ticket =>
      now < ticket.expiresAt &&
        (!ticket.request.inRewrite && ticket.request.expectedKeyId = key) :=
  Map.sum_vals_filter _ _ _

theorem reservedBy_eq (now : Nat) (inRewrite : Bool) :
    rec.reservedBy now inRewrite = rec.sumTickets fun ticket =>
      now < ticket.expiresAt && ticket.request.inRewrite == inRewrite :=
  Map.sum_vals_filter _ _ _

/-- Picking more adds up to more. -/
theorem sumTickets_mono (h : ∀ (u : UploadId) (ticket : Ticket), rec.tickets[u]? = some ticket →
    p ticket = true → q ticket = true) : rec.sumTickets p ≤ rec.sumTickets q := by
  refine Map.weigh_le_weigh fun u ticket hticket => ?_
  by_cases hp : p ticket = true
  · rw [if_pos hp, if_pos (h u ticket hticket hp)]
  · rw [if_neg hp]
    exact Nat.zero_le _

theorem sumTickets_eq_zero
    (h : ∀ (u : UploadId) (ticket : Ticket), rec.tickets[u]? = some ticket → p ticket = false) :
    rec.sumTickets p = 0 := by
  have hzero : rec.sumTickets p ≤ rec.sumTickets fun _ => false := by
    refine sumTickets_mono fun u ticket hticket hp => ?_
    rw [h u ticket hticket] at hp
    cases hp
  have hnone : (rec.sumTickets fun _ => false) = 0 := by
    rw [sumTickets, Map.weigh]
    simp
  omega

/-- Giving up tickets adds nothing. -/
theorem sumTickets_filter {f : UploadId → Ticket → Bool}
    (h : rec'.tickets = rec.tickets.filter f) : rec'.sumTickets p ≤ rec.sumTickets p := by
  rw [sumTickets, h, Map.weigh_filter]
  refine Map.weigh_le_weigh fun u ticket _ => ?_
  by_cases hf : f u ticket = true
  · rw [if_pos hf]
  · rw [if_neg hf]
    exact Nat.zero_le _

/-- A ticket that is picked takes its bytes with it when it goes. -/
theorem sumTickets_erase {u : UploadId} {ticket : Ticket}
    (hticket : rec.tickets[u]? = some ticket) (h : rec'.tickets = rec.tickets.erase u) :
    rec.sumTickets p = (if p ticket then ticket.request.size else 0) + rec'.sumTickets p := by
  rw [sumTickets, sumTickets, h]
  exact Map.weigh_erase _ hticket

/-- A ticket that is finished with adds nothing any more. -/
theorem sumTickets_finished {now : Nat} {caller : Caller} {u : UploadId} {ticket : Ticket}
    (hticket : rec.liveTicket now caller u = some ticket)
    (h : rec'.tickets = rec.tickets.erase u) : rec'.sumTickets p ≤ rec.sumTickets p := by
  rw [sumTickets_erase (liveTicket_eq_some hticket).1 h]
  exact Nat.le_add_left _ _

theorem sumTickets_insert {u : UploadId} {ticket : Ticket}
    (hnone : rec.tickets[u]? = none) (h : rec'.tickets = rec.tickets.insert u ticket) :
    rec'.sumTickets p = (if p ticket then ticket.request.size else 0) + rec.sumTickets p := by
  rw [sumTickets, sumTickets, h]
  exact Map.weigh_insert _ _ hnone

/-- As time passes tickets expire, and none comes back. -/
theorem promised_antitone {t t' : Nat} (h : t ≤ t') (key : Option KeyId) :
    rec.promised t' key ≤ rec.promised t key := by
  rw [promised_eq, promised_eq]
  refine sumTickets_mono fun u ticket _ hp => ?_
  simp only [Bool.and_eq_true, decide_eq_true_eq] at hp ⊢
  exact ⟨by omega, hp.2⟩

theorem reservedBy_antitone {t t' : Nat} (h : t ≤ t') (inRewrite : Bool) :
    rec.reservedBy t' inRewrite ≤ rec.reservedBy t inRewrite := by
  rw [reservedBy_eq, reservedBy_eq]
  refine sumTickets_mono fun u ticket _ hp => ?_
  simp only [Bool.and_eq_true, decide_eq_true_eq] at hp ⊢
  exact ⟨by omega, hp.2⟩

/-- What is promised under one key is part of what is reserved for ordinary
uploads. -/
theorem promised_le_reservedBy (now : Nat) (key : Option KeyId) :
    rec.promised now key ≤ rec.reservedBy now false := by
  rw [promised_eq, reservedBy_eq]
  refine sumTickets_mono fun u ticket _ hp => ?_
  simp only [Bool.and_eq_true, decide_eq_true_eq, Bool.not_eq_true'] at hp
  simp only [Bool.and_eq_true, decide_eq_true_eq, beq_iff_eq]
  exact ⟨hp.1, hp.2.1⟩

end WorkspaceRecord

/-! ## The law -/

namespace WorkspaceRecord

/-- The generations that are there outside of rewrites too. -/
def ownGenerations (rec : WorkspaceRecord) : List Nat := rec.generation :: rec.plain.toList

end WorkspaceRecord

/-- The bytes the own generations of a record hold. -/
def ownBytes (rec : WorkspaceRecord) (shelf : MemoryShelf) : Nat :=
  (rec.ownGenerations.map shelf.bytes).sum

theorem ownBytes_eq (rec : WorkspaceRecord) (shelf : MemoryShelf) :
    ownBytes rec shelf = shelf.bytes rec.generation + (rec.plain.map shelf.bytes).getD 0 := by
  unfold ownBytes WorkspaceRecord.ownGenerations
  cases rec.plain <;> simp

/-- With balanced books the code's count is the shelf's. -/
theorem Balanced.usedBytes_settled {rec : WorkspaceRecord} {shelf : MemoryShelf}
    (hb : Balanced rec shelf) {sealed : Option Seal} (hstate : rec.state = .settled sealed) :
    rec.usedBytes = ownBytes rec shelf := by
  have hlive := WorkspaceRecord.liveGenerations_of_settled hstate
  unfold WorkspaceRecord.usedBytes ownBytes WorkspaceRecord.ownGenerations
  rw [← hlive]
  exact congrArg List.sum (List.map_congr_left hb.books)

/-- What is meant by the quota, at a time. -/
structure World.QuotaLaw (quota now : Nat) (w : World) : Prop where
  settled : ∀ sealed, w.record.state = .settled sealed →
    w.record.usedBytes + w.record.promised now (sealed.map Seal.keyId) ≤ quota
  staged : ∀ session, w.record.state = .rewriting session →
    w.shelf.bytes session.stagedGeneration + w.record.reservedBy now true ≤ quota
  others : ∀ session, w.record.state = .rewriting session → ownBytes w.record w.shelf ≤ quota

/-- What the code keeps at any time, of the record and the shelf: the law, with the
promises under the key of before a rewrite, which its abort brings back. -/
structure Within (quota now : Nat) (rec : WorkspaceRecord) (shelf : MemoryShelf) : Prop where
  own : ownBytes rec shelf + rec.promised now rec.keyId ≤ quota
  staged : ∀ session, rec.state = .rewriting session →
    shelf.bytes session.stagedGeneration + rec.reservedBy now true ≤ quota

namespace Within

variable {quota now : Nat} {rec rec' : WorkspaceRecord} {shelf shelf' : MemoryShelf}

theorem later (h : Within quota now rec shelf) {now' : Nat} (hle : now ≤ now') :
    Within quota now' rec shelf where
  own := by
    have := rec.promised_antitone hle rec.keyId
    have := h.own
    omega
  staged := by
    intro session hstate
    have := rec.reservedBy_antitone hle true
    have := h.staged session hstate
    omega

/-- No pointer moves, and neither items nor tickets become more. -/
theorem fewer (h : Within quota now rec shelf) (hp : rec.SamePointers rec')
    (hbytes : ∀ g, shelf'.bytes g ≤ shelf.bytes g)
    (htickets : ∀ p, rec'.sumTickets p ≤ rec.sumTickets p) : Within quota now rec' shelf' := by
  have hkey : rec'.keyId = rec.keyId := by
    rw [WorkspaceRecord.keyId, WorkspaceRecord.keyId, hp.seal?]
  refine ⟨?_, ?_⟩
  · have hown : ownBytes rec' shelf' ≤ ownBytes rec shelf := by
      have hcur := hbytes rec.generation
      rw [ownBytes_eq, ownBytes_eq, hp.generation, hp.plain]
      cases hplain : rec.plain with
      | none => exact Nat.add_le_add_right hcur _
      | some p => exact Nat.add_le_add hcur (hbytes p)
    have hbefore := h.own
    rw [WorkspaceRecord.promised_eq] at hbefore
    have hfewer := htickets fun ticket => now < ticket.expiresAt &&
      (!ticket.request.inRewrite && ticket.request.expectedKeyId = rec.keyId)
    rw [hkey, WorkspaceRecord.promised_eq]
    omega
  · intro session hstate
    rw [hp.state] at hstate
    have hbefore := h.staged session hstate
    rw [WorkspaceRecord.reservedBy_eq] at hbefore
    have hfewer := htickets fun ticket => now < ticket.expiresAt &&
      ticket.request.inRewrite == true
    have hstaged := hbytes session.stagedGeneration
    rw [WorkspaceRecord.reservedBy_eq]
    omega

/-- The same where the generations stay as they are. -/
theorem kept (h : Within quota now rec shelf) (hp : rec.SamePointers rec')
    (hitems : ∀ g, shelf'.generation g = shelf.generation g)
    (htickets : ∀ p, rec'.sumTickets p ≤ rec.sumTickets p) : Within quota now rec' shelf' :=
  h.fewer hp (fun g => Nat.le_of_eq (MemoryShelf.bytes_congr (hitems g))) htickets

end Within

/-- The condition under which a commit of a rewrite keeps the law: the generation it
switches to fits the quota together with the plain partition and the promises that
were made under its key. -/
def World.switchFits (limits : Limits) (w : World) : Event → Bool
  | .request call (.commitRewrite caller newKeyId) =>
    match w.record.heldSession caller with
    | .error _ => true
    | .ok session =>
      if caller.role = .readWrite ∧ session.next.keyId = newKeyId ∧
          (w.shelf.ids session.stagedGeneration).length =
            (w.shelf.ids w.record.generation).length then
        w.shelf.bytes session.stagedGeneration + (w.record.plain.map w.shelf.bytes).getD 0 +
          w.record.promised call.now (some newKeyId) ≤ limits.quotaBytes
      else true
  | _ => true

/-- What an upload would make the workspace hold: the admission's sum, without
saturation. -/
def Rules.wouldHold (r : Rules) (g : Nat) (request : UploadRequest) : Nat :=
  (if request.inRewrite then r.record.usedIn g + r.record.reservedBy r.now true
    else r.record.usedBytes - r.record.stagedBytes + r.record.reservedBy r.now false) +
  request.size

/-- The condition under which a begin keeps the law: where it is admitted, the
admission's sum did not saturate at the quota. -/
def World.beginFits (limits : Limits) (w : World) : Event → Bool
  | .request call (.beginUpload caller request) =>
    match w.record.uploadTarget caller request with
    | .error _ => true
    | .ok g =>
      if findIn w.shelf g request.id.contentKey = none ∧
          w.record.liveTicketFor call.now caller request = none then
        limits.quotaBytes < u64Bound - 1 ||
          (w.rules limits call).wouldHold g request < u64Bound
      else true
  | _ => true

/-- What is admitted fits, where the sum did not saturate at the quota. -/
theorem Rules.wouldHold_le {r : Rules} {g : Nat} {request : UploadRequest}
    (h : saturatingAdd (r.held g request.inRewrite) request.size ≤ r.limits.quotaBytes)
    (hmax : r.limits.quotaBytes < u64Bound - 1 ∨ r.wouldHold g request < u64Bound) :
    r.wouldHold g request ≤ r.limits.quotaBytes := by
  unfold held saturatingAdd at h
  unfold wouldHold at hmax ⊢
  cases hin : request.inRewrite with
  | true =>
    rw [hin, if_pos rfl] at h hmax
    rw [if_pos rfl]
    omega
  | false =>
    rw [hin, if_neg (by decide)] at h hmax
    rw [if_neg (by decide)]
    omega

/-! ## Sealings and rewrites keep to the quota -/

section
variable {quota now : Nat} {rec : WorkspaceRecord} {shelf : MemoryShelf}

/-- Outside of a rewrite nothing is promised to one. -/
theorem WorkspaceRecord.reservedBy_settled (hf : rec.TicketsFit) {sealed : Option Seal}
    (hstate : rec.state = .settled sealed) : rec.reservedBy now true = 0 := by
  rw [WorkspaceRecord.reservedBy_eq]
  refine WorkspaceRecord.sumTickets_eq_zero fun u ticket hticket => ?_
  rw [hf.settled sealed hstate u ticket hticket, Bool.and_eq_false_iff]
  exact .inr rfl

/-- Ordinary uploads of a workspace that was never sealed are plaintext. -/
theorem WorkspaceRecord.promised_unsealed (hf : rec.TicketsFit)
    (hstate : rec.state = .settled none) (key : KeyId) : rec.promised now (some key) = 0 := by
  rw [WorkspaceRecord.promised_eq]
  refine WorkspaceRecord.sumTickets_eq_zero fun u ticket hticket => ?_
  have hin := hf.settled none hstate u ticket hticket
  have hnone := hf.plaintext (WorkspaceRecord.seal?_of_settled hstate) u ticket hticket hin
  simp [hnone]

theorem Within.sealed (hw : Within quota now rec shelf) (hf : rec.TicketsFit)
    (hstate : rec.state = .settled none) (worn : Seal) :
    Within quota now { rec with state := .settled (some worn) } shelf := by
  refine ⟨?_, fun session hs => (by cases hs)⟩
  have hbefore := hw.own
  have hzero := @WorkspaceRecord.promised_unsealed now rec hf hstate worn.keyId
  show ownBytes rec shelf + rec.promised now (some worn.keyId) ≤ _
  omega

/-- What was held becomes the plain partition, and the next generation is empty. -/
theorem Within.setAside (hw : Within quota now rec shelf) (hl : rec.Layout)
    (hempty : shelf.generation rec.nextGeneration = ∅) (hf : rec.TicketsFit)
    (hstate : rec.state = .settled none) (worn : Seal) :
    Within quota now
      { rec with
        plain := some rec.generation
        generation := rec.nextGeneration
        nextGeneration := rec.nextGeneration + 1
        state := .settled (some worn) } shelf := by
  refine ⟨?_, fun session hs => (by cases hs)⟩
  have hbefore := hw.own
  have hplain := hl.plain_sealed (WorkspaceRecord.seal?_of_settled hstate)
  have hnext := shelf.bytes_of_empty hempty
  have hzero := @WorkspaceRecord.promised_unsealed now rec hf hstate worn.keyId
  rw [ownBytes_eq, hplain] at hbefore
  change shelf.bytes rec.generation + 0 + _ ≤ _ at hbefore
  rw [ownBytes_eq]
  show shelf.bytes rec.nextGeneration + shelf.bytes rec.generation +
    rec.promised now (some worn.keyId) ≤ _
  omega

/-- The next generation is new, and no upload of a rewrite is left. -/
theorem Within.opened (hw : Within quota now rec shelf)
    (hempty : shelf.generation rec.nextGeneration = ∅) (hf : rec.TicketsFit) {session : Session}
    (hstate : rec.state = .settled session.prior)
    (hstaged : session.stagedGeneration = rec.nextGeneration) :
    Within quota now
      { rec with
        nextGeneration := rec.nextGeneration + 1
        state := .rewriting session } shelf := by
  refine ⟨?_, ?_⟩
  · have hbefore := hw.own
    rw [WorkspaceRecord.keyId_of_settled hstate] at hbefore
    exact hbefore
  · intro session' hs
    cases hs
    have hnext := shelf.bytes_of_empty hempty
    have hzero := @WorkspaceRecord.reservedBy_settled now rec hf _ hstate
    rw [hstaged]
    show shelf.bytes rec.nextGeneration + rec.reservedBy now true ≤ _
    omega

/-- The staged generation becomes the own one, and the uploads of the rewrite go. -/
theorem Within.switched {session : Session}
    (hroom : shelf.bytes session.stagedGeneration + (rec.plain.map shelf.bytes).getD 0 +
      rec.promised now (some session.next.keyId) ≤ quota) :
    Within quota now (rec.switched session) shelf := by
  refine ⟨?_, fun session hs => (by cases hs)⟩
  have hfewer : (rec.switched session).promised now (some session.next.keyId) ≤
      rec.promised now (some session.next.keyId) := by
    rw [WorkspaceRecord.promised_eq, WorkspaceRecord.promised_eq]
    exact WorkspaceRecord.sumTickets_filter rfl
  rw [ownBytes_eq, WorkspaceRecord.keyId_of_settled rfl]
  show shelf.bytes session.stagedGeneration + (rec.plain.map shelf.bytes).getD 0 +
    (rec.switched session).promised now (some session.next.keyId) ≤ _
  omega

/-- All is as it was before the rewrite, whose promises were kept all along. -/
theorem Within.restored (hw : Within quota now rec shelf) {session : Session}
    (hstate : rec.state = .rewriting session) : Within quota now (rec.restored session) shelf := by
  refine ⟨?_, fun session hs => (by cases hs)⟩
  have hbefore := hw.own
  rw [WorkspaceRecord.keyId_of_rewriting hstate] at hbefore
  have hfewer : (rec.restored session).promised now (session.prior.map Seal.keyId) ≤
      rec.promised now (session.prior.map Seal.keyId) := by
    rw [WorkspaceRecord.promised_eq, WorkspaceRecord.promised_eq]
    exact WorkspaceRecord.sumTickets_filter rfl
  rw [WorkspaceRecord.keyId_of_settled rfl]
  show ownBytes rec shelf + (rec.restored session).promised now (session.prior.map Seal.keyId) ≤ _
  omega

end

/-! ## Every completed operation keeps to the quota -/

section
variable {r : Rules}

/-- A begin is admitted where it fits. -/
theorem Within.begun {caller : Caller} {request : UploadRequest} {g expiresAt : Nat}
    {u : UploadId} (hw : Within r.limits.quotaBytes r.now r.record r.shelf)
    (hb : Balanced r.record r.shelf) (htarget : r.record.Targets caller request g)
    (hroom : r.wouldHold g request ≤ r.limits.quotaBytes)
    (hnone : r.record.tickets[u]? = none) :
    Within r.limits.quotaBytes r.now
      { r.record with tickets := r.record.tickets.insert u ⟨caller.key, request, expiresAt⟩ }
      (r.shelf.stageCreate u) := by
  have hsum : ∀ p : Ticket → Bool, WorkspaceRecord.sumTickets
      { r.record with tickets := r.record.tickets.insert u ⟨caller.key, request, expiresAt⟩ } p =
        (if p ⟨caller.key, request, expiresAt⟩ then request.size else 0) +
          r.record.sumTickets p :=
    fun p => WorkspaceRecord.sumTickets_insert hnone rfl
  have hbytes : ∀ h, (r.shelf.stageCreate u).bytes h = r.shelf.bytes h :=
    fun h => MemoryShelf.bytes_congr (r.shelf.stageCreate_generation u h)
  have hown : ownBytes
      { r.record with tickets := r.record.tickets.insert u ⟨caller.key, request, expiresAt⟩ }
      (r.shelf.stageCreate u) = ownBytes r.record r.shelf := by
    rw [ownBytes_eq, ownBytes_eq, hbytes, funext hbytes]
  refine ⟨?_, ?_⟩
  · rw [hown, WorkspaceRecord.promised_eq, hsum, ← WorkspaceRecord.promised_eq]
    have hbefore := hw.own
    cases htarget with
    | staged session hstate hin hholder hkey =>
      -- a ticket of the rewrite is not counted here
      rw [if_neg (by simp [hin])]
      show ownBytes r.record r.shelf + (0 + r.record.promised r.now r.record.keyId) ≤ _
      omega
    | current sealed hstate hin hkey =>
      rw [Rules.wouldHold, hin, if_neg (by decide)] at hroom
      have hused := hb.usedBytes_settled hstate
      have hstagedBytes : r.record.stagedBytes = 0 := by
        rw [WorkspaceRecord.stagedBytes, hstate]
      have hpart := r.record.promised_le_reservedBy r.now r.record.keyId
      rw [hused, hstagedBytes] at hroom
      show ownBytes r.record r.shelf +
        (_ + r.record.promised r.now r.record.keyId) ≤ r.limits.quotaBytes
      split <;> omega
  · intro session hstate
    rw [hbytes, WorkspaceRecord.reservedBy_eq, hsum, ← WorkspaceRecord.reservedBy_eq]
    have hbefore := hw.staged session hstate
    cases htarget with
    | current sealed hsettled hin hkey =>
      rw [show r.record.state = .rewriting session from hstate] at hsettled
      cases hsettled
    | staged session' hstate' hin hholder hkey =>
      rw [show r.record.state = .rewriting session from hstate] at hstate'
      cases hstate'
      rw [Rules.wouldHold, hin, if_pos rfl] at hroom
      have hlive : session.stagedGeneration ∈ r.record.liveGenerations :=
        WorkspaceRecord.mem_liveGenerations.mpr
          (.inr (.inr (WorkspaceRecord.stagedGeneration_of_rewriting hstate)))
      rw [hb.books _ hlive] at hroom
      split <;> omega

/-- A publish turns what was promised into what is held. -/
theorem Within.published {caller : Caller} {u : UploadId} {ticket : Ticket} {g : Nat}
    {item : Item} {rec : WorkspaceRecord} {shelf : MemoryShelf} {quota : Nat}
    (hw : Within quota r.now r.record r.shelf) (hl : r.record.Layout)
    (hticket : r.record.liveTicket r.now caller u = some ticket)
    (htarget : r.record.Targets caller ticket.request g)
    (hsize : item.content.length = ticket.request.size)
    (hnew : (r.shelf.generation g)[ticket.request.id]? = none)
    (hitems : ∀ h, shelf.generation h =
      if g = h then (r.shelf.generation g).insert ticket.request.id item
      else r.shelf.generation h)
    (hp : r.record.SamePointers rec) (htickets : rec.tickets = r.record.tickets.erase u) :
    Within quota r.now rec shelf := by
  obtain ⟨hget, -, hexpires⟩ := WorkspaceRecord.liveTicket_eq_some hticket
  -- what was promised and what is held, before and after
  have hsum : ∀ p : Ticket → Bool, r.record.sumTickets p =
      (if p ticket then ticket.request.size else 0) + rec.sumTickets p :=
    fun p => WorkspaceRecord.sumTickets_erase hget htickets
  have hhere : shelf.bytes g = r.shelf.bytes g + ticket.request.size := by
    have hgen := hitems g
    rw [if_pos rfl] at hgen
    rw [MemoryShelf.bytes_insert hnew hgen, hsize]
  have hthere : ∀ h, g ≠ h → shelf.bytes h = r.shelf.bytes h := by
    intro h hne
    refine MemoryShelf.bytes_congr ?_
    rw [hitems, if_neg hne]
  have hkey : rec.keyId = r.record.keyId := by
    rw [WorkspaceRecord.keyId, WorkspaceRecord.keyId, hp.seal?]
  have hplainbytes : ∀ {q : Nat}, (∀ p, r.record.plain = some p → q ≠ p) →
      (∀ h, q ≠ h → shelf.bytes h = r.shelf.bytes h) →
      (rec.plain.map shelf.bytes).getD 0 = (r.record.plain.map r.shelf.bytes).getD 0 := by
    intro q hq hsame
    rw [hp.plain]
    cases hplain : r.record.plain with
    | none => rfl
    | some p => exact hsame p (hq p hplain)
  refine ⟨?_, ?_⟩
  · have hbefore := hw.own
    rw [WorkspaceRecord.promised_eq, hsum, ← WorkspaceRecord.promised_eq, ownBytes_eq] at hbefore
    rw [ownBytes_eq, hkey, hp.generation]
    -- the staged partition: the own one and the plain one stay as they were
    cases htarget with
    | staged session hstate hin hholder hkeyId =>
      have hs := WorkspaceRecord.stagedGeneration_of_rewriting hstate
      have hne : session.stagedGeneration ≠ r.record.generation := by
        intro h
        exact hl.staged_ne (h ▸ hs)
      have hplain : ∀ p, r.record.plain = some p → session.stagedGeneration ≠ p := by
        rintro p hp rfl
        exact hl.plain_ne_staged _ hp hs
      rw [hthere _ hne, hplainbytes hplain hthere]
      omega
    | current sealed hstate hin hkeyId =>
      have hk : r.record.keyId = ticket.request.expectedKeyId :=
        (WorkspaceRecord.keyId_of_settled hstate).trans hkeyId.symm
      rw [if_pos (by simp [hexpires, hin, hk])] at hbefore
      have hne : ∀ p, r.record.plain = some p → r.record.generation ≠ p := by
        rintro p hplain rfl
        exact hl.plain_ne hplain
      rw [hhere, hplainbytes hne hthere]
      omega
  · intro session hstate
    rw [hp.state] at hstate
    have hbefore := hw.staged session hstate
    rw [WorkspaceRecord.reservedBy_eq, hsum, ← WorkspaceRecord.reservedBy_eq] at hbefore
    -- the staged partition against its own promises
    cases htarget with
    | current sealed hsettled hin hkeyId =>
      rw [hstate] at hsettled
      cases hsettled
    | staged session' hstate' hin hholder hkeyId =>
      rw [hstate] at hstate'
      cases hstate'
      rw [if_pos (by simp [hexpires, hin])] at hbefore
      rw [hhere]
      omega

/-- **Every completed operation keeps to the quota**, where begins and commits of a
rewrite fit. -/
theorem Change.within [Crates] {op : Op} {a : Answer} {rec : WorkspaceRecord}
    {shelf : MemoryShelf} {after : List Cleanup} (h : Change r op a rec shelf after)
    (hl : r.record.Layout)
    (hv : ∀ g, r.record.nextGeneration ≤ g → r.shelf.generation g = ∅)
    (hb : Balanced r.record r.shelf) (hf : r.record.TicketsFit)
    (hbegins : World.beginFits r.limits ⟨r.record, r.shelf, []⟩ (.request ⟨r.now, []⟩ op) = true)
    (hswitches :
      World.switchFits r.limits ⟨r.record, r.shelf, []⟩ (.request ⟨r.now, []⟩ op) = true)
    (hw : Within r.limits.quotaBytes r.now r.record r.shelf) :
    Within r.limits.quotaBytes r.now rec shelf := by
  have hle : ∀ p, r.record.sumTickets p ≤ r.record.sumTickets p := fun _ => Nat.le_refl _
  have hnext := hv _ (Nat.le_refl _)
  cases h with
  | kept => exact hw
  | discarded => exact hw
  | replayed _ => exact hw
  | @deleted _ _ _ _ g item _ hstate hg hitem =>
    refine hw.fewer ⟨rfl, rfl, rfl, rfl, rfl⟩ (fun h => ?_) hle
    by_cases e : g = h
    · subst e
      rw [MemoryShelf.bytes_remove hitem]
      exact Nat.sub_le _ _
    · refine Nat.le_of_eq (MemoryShelf.bytes_congr ?_)
      rw [MemoryShelf.remove_generation, if_neg e]
  | sealed hstate _ _ _ => exact hw.sealed hf hstate _
  | setAside hstate => exact hw.setAside hl hnext hf hstate _
  | reheaded hstate =>
    refine ⟨?_, fun session hs => (by cases hs)⟩
    have hbefore := hw.own
    rw [WorkspaceRecord.keyId_of_settled hstate] at hbefore
    exact hbefore
  | @begun caller request g _ htarget hnew hquota hknown _ hfirst =>
    simp only [World.beginFits, htarget.goes] at hbegins
    rw [if_pos ⟨hnew, hfirst⟩, Bool.or_eq_true, decide_eq_true_eq, decide_eq_true_eq] at hbegins
    have hroom : r.wouldHold g request ≤ r.limits.quotaBytes :=
      Rules.wouldHold_le hquota hbegins
    exact hw.begun hb htarget hroom (WorkspaceRecord.known_eq_false.mp hknown).1
  | rebegun _ _ _ =>
    exact hw.kept ⟨rfl, rfl, rfl, rfl, rfl⟩ (MemoryShelf.stageCreate_generation _ _) hle
  | stored _ _ =>
    exact hw.kept ⟨rfl, rfl, rfl, rfl, rfl⟩ (fun _ => rfl)
      fun _ => WorkspaceRecord.sumTickets_filter rfl
  | put _ =>
    exact hw.kept ⟨rfl, rfl, rfl, rfl, rfl⟩ (MemoryShelf.write_generation _ _ _ _ _) hle
  | duplicate hticket _ _ _ =>
    exact hw.kept ⟨rfl, rfl, rfl, rfl, rfl⟩ (fun _ => rfl)
      fun _ => WorkspaceRecord.sumTickets_finished hticket rfl
  | @published caller u ticket g staged _ hticket htarget hstaged hsize hnew hstaging hitems =>
    have hid := get_of_findIn_eq_none hnew
    exact hw.published hl hticket htarget hsize hid hitems ⟨rfl, rfl, rfl, rfl, rfl⟩ rfl
  | recovered hticket _ _ _ _ =>
    exact hw.kept ⟨rfl, rfl, rfl, rfl, rfl⟩ (fun _ => rfl)
      fun _ => WorkspaceRecord.sumTickets_finished hticket rfl
  | aborted =>
    exact hw.kept ⟨rfl, rfl, rfl, rfl, rfl⟩ (fun _ => rfl)
      fun _ => WorkspaceRecord.sumTickets_filter rfl
  | probed _ =>
    refine hw.kept ⟨rfl, rfl, rfl, rfl, rfl⟩ (fun g => ?_) hle
    rw [MemoryShelf.stageRemove_generation, MemoryShelf.stageCreate_generation]
  | opened hstate _ _ _ => exact hw.opened hnext hf hstate rfl
  | @renewed _ _ session _ hstate _ _ =>
    refine ⟨?_, ?_⟩
    · have hbefore := hw.own
      rw [WorkspaceRecord.keyId_of_rewriting hstate] at hbefore
      exact hbefore
    · intro session' hs
      cases hs
      exact hw.staged session hstate
  | @switched caller newKeyId _ session hstate hwrite hheld hkey hcount =>
    -- the condition on commits of a rewrite is used here alone
    simp only [World.switchFits, hheld] at hswitches
    rw [if_pos ⟨hwrite, hkey, hcount⟩, decide_eq_true_eq, ← hkey] at hswitches
    exact .switched hswitches
  | restored hstate => exact hw.restored hstate
  | cleaned =>
    exact hw.kept ⟨rfl, rfl, rfl, rfl, rfl⟩ (fun _ => rfl)
      fun _ => WorkspaceRecord.sumTickets_filter rfl
  | reconciled =>
    exact hw.kept ⟨rfl, rfl, rfl, rfl, rfl⟩ (fun _ => rfl)
      fun _ => WorkspaceRecord.sumTickets_filter rfl

end

namespace World

variable [Crates] {limits : Limits} {w w' : World} {e : Event}

omit [Crates] in
/-- A clean-up takes bytes away or leaves them. -/
theorem perform_bytes_le (c : Cleanup) (s : MemoryShelf) (g : Nat) :
    (c.perform s).bytes g ≤ s.bytes g := by
  cases c with
  | removeStaging u => exact Nat.le_refl _
  | dropGeneration d =>
    show (s.dropGeneration d).bytes g ≤ s.bytes g
    by_cases e : d = g
    · have hempty : (s.dropGeneration d).generation g = ∅ := by
        rw [MemoryShelf.dropGeneration_generation, if_pos e]
      rw [MemoryShelf.bytes_of_empty _ hempty]
      exact Nat.zero_le _
    · refine Nat.le_of_eq (MemoryShelf.bytes_congr ?_)
      rw [MemoryShelf.dropGeneration_generation, if_neg e]

/-- What holds between the events of a run of completed operations, at every time
that no event has seen pass. -/
structure KeepsQuota (limits : Limits) (past : List Nat) (w : World) : Prop where
  laid : w.Laid
  balanced : Balanced w.record w.shelf
  fit : w.record.TicketsFit
  within : ∀ now, (∀ t ∈ past, t ≤ now) → Within limits.quotaBytes now w.record w.shelf

theorem KeepsQuota.step {past : List Nat} (h : KeepsQuota limits past w)
    (he : e.completes = true) (hbegins : w.beginFits limits e = true)
    (hswitches : w.switchFits limits e = true) (hclock : (past ++ e.times).Pairwise (· ≤ ·))
    (hs : Step limits w e w') : KeepsQuota limits (past ++ e.times) w' where
  laid := h.laid.step hs
  balanced := Balanced.step h.laid h.balanced he hs
  fit := hs.ticketsFit h.fit
  within := by
    intro now hnow
    have hold : Within limits.quotaBytes now w.record w.shelf :=
      h.within now fun t ht => hnow t (List.mem_append_left _ ht)
    cases hs with
    | @done call op a rec shelf after _ hchange =>
      have hcall : call.now ≤ now := hnow call.now (List.mem_append_right _ List.mem_cons_self)
      have hbefore : Within limits.quotaBytes call.now w.record w.shelf :=
        h.within call.now fun t ht =>
          (List.pairwise_append.mp hclock).2.2 t ht call.now List.mem_cons_self
      -- neither condition looks at the draws or at what is pending
      have hbegins' :
          beginFits limits ⟨w.record, w.shelf, []⟩ (.request ⟨call.now, []⟩ op) = true := by
        cases op with
        | beginUpload caller request => exact hbegins
        | _ => rfl
      have hswitches' :
          switchFits limits ⟨w.record, w.shelf, []⟩ (.request ⟨call.now, []⟩ op) = true := by
        cases op with
        | commitRewrite caller newKeyId => exact hswitches
        | _ => rfl
      exact (hchange.within h.laid.layout h.laid.vacant h.balanced h.fit hbegins' hswitches'
        hbefore).later hcall
    | refused hshelf =>
      rcases hshelf with rfl | ⟨v, content, announced, hashed, rfl⟩
      · exact hold
      · exact hold.kept ⟨rfl, rfl, rfl, rfl, rfl⟩ (MemoryShelf.write_generation _ _ _ _ _)
          fun _ => Nat.le_refl _
    | performed _ =>
      exact hold.fewer ⟨rfl, rfl, rfl, rfl, rfl⟩ (perform_bytes_le _ _) fun _ => Nat.le_refl _
    | idle _ => exact hold
    | cut _ => cases he
    | lost => cases he
    | wroteLate => cases he

omit [Crates] in
theorem keepsQuota_initial : KeepsQuota limits [] initial where
  laid := laid_initial
  balanced := balanced_initial
  fit := WorkspaceRecord.ticketsFit_initial
  within := by
    intro now _
    refine ⟨?_, fun session hs => (by cases hs)⟩
    have hzero := initial.shelf.bytes_of_empty (MemoryShelf.generation_empty 0)
    have hnone : initial.record.promised now initial.record.keyId = 0 := by
      rw [WorkspaceRecord.promised_eq]
      refine WorkspaceRecord.sumTickets_eq_zero fun u ticket hticket => ?_
      rw [show initial.record.tickets = ∅ from rfl, Std.ExtTreeMap.getElem?_empty] at hticket
      cases hticket
    rw [ownBytes_eq, hnone]
    show initial.shelf.bytes 0 + 0 + 0 ≤ _
    omega

/-- **The quota law**, in every run of completed operations with a clock that does not
go back, where begins and commits of a rewrite fit. -/
theorem quotaLaw_run (limits : Limits) (es : List Event) (now : Nat)
    (hdone : ∀ e ∈ es, e.completes = true)
    (hclock : (es.flatMap Event.times).Pairwise (· ≤ ·))
    (hnow : ∀ t ∈ es.flatMap Event.times, t ≤ now)
    (hfits : Runs.Along (exec limits)
      (fun w e => w.beginFits limits e = true ∧ w.switchFits limits e = true) initial es) :
    QuotaLaw limits.quotaBytes now (initial.run limits es) := by
  have halong : Runs.Along (exec limits) (fun w e => e.completes = true ∧
      w.beginFits limits e = true ∧ w.switchFits limits e = true) initial es :=
    Runs.along_and _ (Runs.along_of_forall _ hdone) hfits
  rw [← Runs.history_of_events (exec limits) Event.times initial es] at hclock hnow
  have hkeeps : KeepsQuota limits
      ([] ++ Runs.history (exec limits) (fun _ e => e.times) initial es)
      (initial.run limits es) :=
    Runs.pairwise_invariant (exec limits)
      (fun past w e h hp hpair => h.step hp.1 hp.2.1 hp.2.2 hpair (w.exec_step limits e))
      keepsQuota_initial halong hclock
  have hwithin := hkeeps.within now hnow
  refine ⟨?_, hwithin.staged, ?_⟩
  · intro sealed hstate
    have hown := hwithin.own
    rw [WorkspaceRecord.keyId_of_settled hstate] at hown
    rw [hkeeps.balanced.usedBytes_settled hstate]
    exact hown
  · intro session _
    have hown := hwithin.own
    omega

end World

/-! ## Runs that overfill a workspace, and one that does not -/

namespace Sample

/-- A nine-byte item is set aside, a note of so many bytes stored under a first key, and
rewritten under a second one as a note of so many bytes. -/
def rotation (before after : Nat) : List Event :=
  [.request (call 0 [1]) (.beginUpload laptop (request 9 none)),
    .request (call 0 []) (.putUploadContent laptop (upload 1) [.piece (List.replicate 9 0)]),
    .request (call 0 []) (.commitUpload laptop (upload 1)),
    .request (call 0 []) (.freshStart laptop keyA []),
    .request (call 0 [2]) (.beginUpload laptop (request before (some keyA))),
    .request (call 0 [])
      (.putUploadContent laptop (upload 2) [.piece (List.replicate before 0)]),
    .request (call 0 []) (.commitUpload laptop (upload 2)),
    .request (call 0 []) (.beginRewrite laptop ⟨.rotate, some keyA, keyB, []⟩),
    .request (call 0 [3]) (.beginUpload laptop (restaged after keyB)),
    .request (call 0 [])
      (.putUploadContent laptop (upload 3) [.piece (List.replicate after 0)]),
    .request (call 0 []) (.commitUpload laptop (upload 3)),
    .request (call 0 []) (.commitRewrite laptop keyB)]

end Sample

/-- A quota of ten bytes, and a settled workspace that holds nineteen. -/
theorem World.quotaLaw_overfull :
    (∀ e ∈ Sample.rotation 1 10, e.completes = true) ∧
      ((Sample.rotation 1 10).flatMap Event.times).Pairwise (· ≤ ·) ∧
      ¬QuotaLaw Sample.limits.quotaBytes 0
        (@World.run Sample.crates Sample.limits .initial (Sample.rotation 1 10)) := by
  refine ⟨by decide, by decide, fun h => ?_⟩
  have hsettled := h.settled (some ⟨Sample.keyB, []⟩) (by decide +kernel)
  revert hsettled
  decide +kernel

/-- The same with a note that stays as it was. -/
theorem World.quotaLaw_rotated :
    QuotaLaw Sample.limits.quotaBytes 0
      (@World.run Sample.crates Sample.limits .initial (Sample.rotation 1 1)) :=
  @quotaLaw_run Sample.crates Sample.limits (Sample.rotation 1 1) 0 (by decide) (by decide)
    (by decide) (by decide +kernel)

end Passalong
