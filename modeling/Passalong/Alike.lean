import Passalong.Quota

/-!
# What a rule can see

A rule looks at the unexpired uploads and outcomes, at the books and the items of the
generations the workspace points to or will point to, and at the staging places of the
unexpired uploads.

- `WorkspaceRecord.Like`: two records that agree on that;
- `Rules.Close`, `Rules.Alike`: two rules at work that do;
- `Op.agree`: then every request that makes up no upload id is answered alike, and
  leaves the two alike.

Whatever an opening or a clean-up removes is nothing a rule can see, so this is what
relates a request to the same request after a crash.
-/

namespace Passalong

open Lib

namespace WorkspaceRecord

/-- A generation the record points to, or may point to later. -/
def Reaches (rec : WorkspaceRecord) (g : Nat) : Prop :=
  g ∈ rec.liveGenerations ∨ rec.nextGeneration ≤ g

/-- The same record up to what an opening sweeps at a time: uploads and outcomes that
are expired, and the books of generations that are dead. -/
structure Like (now : Nat) (rec rec' : WorkspaceRecord) : Prop where
  pointers : rec.SamePointers rec'
  used : ∀ g, rec.Reaches g → rec'.usedIn g = rec.usedIn g
  tickets : ∀ u : UploadId, rec'.tickets[u]?.filter (fun ticket => now < ticket.expiresAt) =
    rec.tickets[u]?.filter fun ticket => now < ticket.expiresAt
  tombstones : ∀ u : UploadId, rec'.tombstones[u]?.filter (fun stone => now < stone.expiresAt) =
    rec.tombstones[u]?.filter fun stone => now < stone.expiresAt

variable {rec rec' : WorkspaceRecord} {now : Nat}

theorem Reaches.generation (rec : WorkspaceRecord) : rec.Reaches rec.generation :=
  .inl (mem_liveGenerations.mpr (.inl rfl))

theorem Reaches.staged {session : Session} (h : rec.state = .rewriting session) :
    rec.Reaches session.stagedGeneration :=
  .inl (mem_liveGenerations.mpr (.inr (.inr (stagedGeneration_of_rewriting h))))

/-- What a record reaches after its pointers moved, it reached before. -/
theorem Reaches.of_move {shelf shelf' : MemoryShelf} (h : Move rec shelf rec' shelf') {g : Nat}
    (hg : rec'.Reaches g) : rec.Reaches g := by
  rcases hg with hlive | hnext
  · rcases h.live hlive with hold | rfl
    · exact .inl hold
    · exact .inr (Nat.le_refl _)
  · exact .inr (Nat.le_trans h.nextGeneration_le hnext)

namespace Like

theorem refl (rec : WorkspaceRecord) : rec.Like now rec :=
  ⟨⟨rfl, rfl, rfl, rfl, rfl⟩, fun _ _ => rfl, fun _ => rfl, fun _ => rfl⟩

/-- What looks at unexpired entries only finds the same. -/
theorem filter_live {α : Type} {o o' : Option α} {p live : α → Bool}
    (h : o'.filter live = o.filter live) :
    (o'.filter fun a => p a && live a) = o.filter fun a => p a && live a := by
  have hsplit : ∀ o : Option α, (o.filter fun a => p a && live a) = (o.filter live).filter p := by
    intro o
    rw [Option.filter_filter]
    simp only [Bool.and_comm]
  rw [hsplit, hsplit, h]

theorem liveTicket (h : rec.Like now rec') (caller : Caller) (u : UploadId) :
    rec'.liveTicket now caller u = rec.liveTicket now caller u :=
  filter_live (h.tickets u)

theorem tombstone (h : rec.Like now rec') (caller : Caller) (u : UploadId) :
    rec'.tombstone now caller u = rec.tombstone now caller u :=
  filter_live (h.tombstones u)

theorem liveTicketFor (h : rec.Like now rec') (caller : Caller) (request : UploadRequest) :
    rec'.liveTicketFor now caller request = rec.liveTicketFor now caller request := by
  have hlists := Map.toList_filter_congr h.tickets
  have hfind : ∀ l : List (UploadId × Ticket),
      (l.find? fun e => now < e.2.expiresAt && (e.2.owner = caller.key && e.2.request = request)) =
        (l.filter fun e => now < e.2.expiresAt).find?
          fun e => e.2.owner = caller.key && e.2.request = request := by
    intro l
    rw [List.find?_filter]
    simp only [Bool.decide_and, Bool.decide_eq_true]
  rw [WorkspaceRecord.liveTicketFor, WorkspaceRecord.liveTicketFor, hfind, hfind, hlists]

theorem reservedBy (h : rec.Like now rec') (inRewrite : Bool) :
    rec'.reservedBy now inRewrite = rec.reservedBy now inRewrite := by
  have hlists := Map.toList_filter_congr h.tickets
  have hvals : ∀ m : Map UploadId Ticket,
      ((Map.vals m).filter fun ticket =>
        now < ticket.expiresAt && ticket.request.inRewrite == inRewrite) =
        ((m.toList.filter fun e => now < e.2.expiresAt).map Prod.snd).filter
          fun ticket => ticket.request.inRewrite == inRewrite := by
    intro m
    rw [Map.vals, List.filter_map, List.filter_map, List.filter_filter]
    refine congrArg _ (List.filter_congr fun e _ => ?_)
    exact Bool.and_comm _ _
  rw [WorkspaceRecord.reservedBy, WorkspaceRecord.reservedBy, hvals, hvals, hlists]

theorem usedBytes (h : rec.Like now rec') : rec'.usedBytes = rec.usedBytes := by
  rw [WorkspaceRecord.usedBytes, WorkspaceRecord.usedBytes, h.pointers.liveGenerations]
  exact congrArg _ (List.map_congr_left fun g hg => h.used g (.inl hg))

theorem stagedBytes (h : rec.Like now rec') : rec'.stagedBytes = rec.stagedBytes := by
  unfold WorkspaceRecord.stagedBytes
  rw [h.pointers.state]
  split
  · rename_i session hstate
    exact h.used _ (Reaches.staged hstate)
  · rfl

theorem uploadTarget (h : rec.Like now rec') (caller : Caller) (request : UploadRequest) :
    rec'.uploadTarget caller request = rec.uploadTarget caller request := by
  unfold WorkspaceRecord.uploadTarget rewriteTarget heldSession checkWritable
  rw [h.pointers.state, h.pointers.generation]

end Like

end WorkspaceRecord

namespace Rules

/-! ## Rules at work that see the same -/

/-- Two rules at work on the same items and on records that are alike; where `kept`, on
the same record. -/
structure Close (kept : Prop) (r r' : Rules) : Prop where
  now : r'.now = r.now
  limits : r'.limits = r.limits
  record : r.record.Like r.now r'.record
  kept : kept → r'.record = r.record
  items : ∀ g, r.record.Reaches g → r'.shelf.generation g = r.shelf.generation g

/-- And on the same staging places, as far as tickets have not expired. -/
structure Alike (kept : Prop) (r r' : Rules) : Prop extends Close kept r r' where
  staging : ∀ (u : UploadId) (ticket : Ticket), r.record.tickets[u]? = some ticket →
    r.now < ticket.expiresAt → r'.shelf.staging[u]? = r.shelf.staging[u]?
  known : ∀ u, r.record.known u = false → r'.record.known u = false

/-- The ids that are drawn next make no difference. -/
theorem Alike.redrawn {kept : Prop} (r : Rules) (draws : List UploadId) :
    Alike kept r { r with draws } :=
  ⟨⟨rfl, rfl, .refl _, fun _ => rfl, fun _ _ => rfl⟩, fun _ _ _ _ => rfl, fun _ h => h⟩

variable {kept : Prop} {r r' : Rules} {caller : Caller}

/-- The two edit their records in the same way, and neither changes the shelf. -/
theorem Close.edited (h : Close kept r r') (edit : WorkspaceRecord → WorkspaceRecord)
    (hlike : (edit r.record).Like r.now (edit r'.record))
    (hreach : ∀ g, (edit r.record).Reaches g → r.record.Reaches g) (after after' : List Cleanup) :
    Close kept { r with record := edit r.record, after }
      { r' with record := edit r'.record, after := after' } where
  now := h.now
  limits := h.limits
  record := hlike
  kept := fun k => congrArg edit (h.kept k)
  items := fun g hg => h.items g (hreach g hg)

theorem Close.ids (h : Close kept r r') {g : Nat} (hg : r.record.Reaches g) :
    r'.shelf.ids g = r.shelf.ids g := by
  rw [MemoryShelf.ids, MemoryShelf.ids, h.items g hg]

/-- The items of the workspace, and how many it has. -/
theorem Close.currentIds (h : Close kept r r') :
    r'.shelf.ids r'.record.generation = r.shelf.ids r.record.generation := by
  rw [h.record.pointers.generation, h.ids (.generation _)]

theorem Close.sessionView (h : Close kept r r') : r'.sessionView = r.sessionView := by
  unfold Rules.sessionView
  rw [h.record.pointers.state]
  split
  · rfl
  · rename_i session hstate
    rw [h.ids (.staged hstate), h.currentIds]

theorem Close.encryption (h : Close kept r r') : r'.encryption = r.encryption := by
  unfold Rules.encryption
  rw [h.record.pointers.state, h.record.pointers.seal?, h.sessionView]

theorem Close.tombstone (h : Close kept r r') (caller : Caller) (u : UploadId) :
    r'.record.tombstone r'.now caller u = r.record.tombstone r.now caller u := by
  rw [h.now, h.record.tombstone]

theorem Close.liveTicket (h : Close kept r r') (caller : Caller) (u : UploadId) :
    r'.record.liveTicket r'.now caller u = r.record.liveTicket r.now caller u := by
  rw [h.now, h.record.liveTicket]

theorem Close.liveTicketFor (h : Close kept r r') (caller : Caller) (request : UploadRequest) :
    r'.record.liveTicketFor r'.now caller request =
      r.record.liveTicketFor r.now caller request := by
  rw [h.now, h.record.liveTicketFor]

/-! ## Rules that agree -/

/-- Where the first succeeds so does the second, with the same answer, and it leaves the
same. -/
def Agree {α : Type} (kept : Prop) (out out' : Except ApiError α × Rules) : Prop :=
  ∀ a, out.1 = .ok a → out'.1 = .ok a ∧ Close kept out.2 out'.2

namespace Agree

variable {α β : Type}

theorem refused {e : ApiError} {out' : Except ApiError α × Rules} :
    Agree kept (.error e, r) out' := by
  intro a ha
  cases ha

theorem done {a : α} (h : Close kept r r') : Agree kept (.ok a, r) (.ok a, r') := by
  intro a' ha
  cases ha
  exact ⟨rfl, h⟩

theorem viewed (h : Close kept r r') :
    Agree kept (.ok r.encryption, r) (.ok r'.encryption, r') := by
  rw [h.encryption]
  exact .done h

/-- A check that finds the same lets both go on, or neither. -/
theorem check {c c' : Except ApiError α} {next next' : α → Except ApiError β × Rules}
    (hc : c' = c) (h : ∀ a, c = .ok a → Agree kept (next a) (next' a)) :
    Agree kept (r.check c next) (r'.check c' next') := by
  subst hc
  cases hcheck : c' with
  | error e => exact .refused
  | ok a => exact h a hcheck

theorem answering {out out' : Except ApiError α × Rules} (h : Agree kept out out')
    (f : α → Answer) : Agree kept (Passalong.answering f out) (Passalong.answering f out') := by
  intro a ha
  obtain ⟨res, left⟩ := out
  cases res with
  | error e => cases ha
  | ok x =>
    cases ha
    obtain ⟨hsame, hclose⟩ := h x rfl
    refine ⟨?_, hclose⟩
    show out'.1.map f = _
    rw [hsame]
    rfl

end Agree

/-! ### Encryption -/

theorem Close.settle (h : Close kept r r') (caller : Caller) (keyId : KeyId) :
    r'.settle caller keyId = r.settle caller keyId := by
  unfold Rules.settle
  rw [h.record.pointers.state]

/-- The two change the state of encryption in the same way. -/
theorem Close.restated (h : Close kept r r') (state : State)
    (hreach : ∀ g, WorkspaceRecord.Reaches { r.record with state } g → r.record.Reaches g) :
    Close kept { r with record := { r.record with state } }
      { r' with record := { r'.record with state } } := by
  refine h.edited (fun rec => { rec with state }) ?_ hreach r.after r'.after
  obtain ⟨-, hgeneration, hplain, hnext, hended⟩ := h.record.pointers
  exact ⟨⟨rfl, hgeneration, hplain, hnext, hended⟩, fun g hg => h.record.used g (hreach g hg),
    h.record.tickets, h.record.tombstones⟩

theorem enableEncryption_agree (h : Close kept r r') (keyId : KeyId) (header : Bytes) :
    Agree kept (r.enableEncryption caller keyId header)
      (r'.enableEncryption caller keyId header) := by
  unfold enableEncryption
  refine .check (h.settle caller keyId) fun already hsettle => ?_
  obtain ⟨-, ⟨rfl, -⟩ | ⟨rfl, hstate⟩⟩ := settle_ok hsettle
  · rw [if_pos rfl, if_pos rfl]
    exact .viewed h
  · rw [if_neg Bool.false_ne_true, if_neg Bool.false_ne_true, h.currentIds]
    split
    · exact .refused
    · rename_i hids
      have hempty := r.shelf.ids_isEmpty_iff.mp (by simpa using hids)
      have hsealed := h.restated (.settled (some ⟨keyId, header⟩))
        fun g hg => .of_move (.sealed hstate hempty) hg
      dsimp only
      exact .viewed hsealed

theorem freshStart_agree (h : Close kept r r') (keyId : KeyId) (header : Bytes) :
    Agree kept (r.freshStart caller keyId header) (r'.freshStart caller keyId header) := by
  unfold freshStart
  refine .check (h.settle caller keyId) fun already hsettle => ?_
  obtain ⟨-, ⟨rfl, -⟩ | ⟨rfl, hstate⟩⟩ := settle_ok hsettle
  · rw [if_pos rfl, if_pos rfl]
    exact .viewed h
  · rw [if_neg Bool.false_ne_true, if_neg Bool.false_ne_true, h.currentIds]
    dsimp only
    by_cases hids : (r.shelf.ids r.record.generation).isEmpty = true
    · have hsealed := h.restated (.settled (some ⟨keyId, header⟩))
        fun g hg => .of_move (.sealed hstate (r.shelf.ids_isEmpty_iff.mp hids)) hg
      simp only [if_pos hids]
      exact .viewed hsealed
    · have hreach : ∀ g, WorkspaceRecord.Reaches
          { r.record with
            plain := some r.record.generation
            generation := r.record.nextGeneration
            nextGeneration := r.record.nextGeneration + 1
            state := .settled (some ⟨keyId, header⟩) } g → r.record.Reaches g :=
        fun g hg => .of_move (.setAside hstate : Move r.record r.shelf _ r.shelf) hg
      obtain ⟨-, hgeneration, hplain, hnext, hended⟩ := h.record.pointers
      have hsealed := h.edited
        (fun rec =>
          { rec with
            plain := some rec.generation
            generation := rec.nextGeneration
            nextGeneration := rec.nextGeneration + 1
            state := .settled (some ⟨keyId, header⟩) })
        ⟨⟨rfl, hnext, congrArg some hgeneration, congrArg (· + 1) hnext, hended⟩,
          fun g hg => h.record.used g (hreach g hg), h.record.tickets, h.record.tombstones⟩
        hreach r.after r'.after
      simp only [if_neg hids]
      exact .viewed hsealed

theorem replaceHeader_agree (h : Close kept r r') (expected : KeyId) (header : Bytes) :
    Agree kept (r.replaceHeader caller expected header)
      (r'.replaceHeader caller expected header) := by
  unfold replaceHeader
  refine .check rfl fun _ _ => ?_
  rw [h.record.pointers.state]
  cases hstate : r.record.state with
  | rewriting session => exact .refused
  | settled worn =>
    cases worn with
    | none => exact .refused
    | some worn =>
      dsimp only
      split
      · exact .refused
      · have hworn := h.restated (.settled (some { worn with header }))
          fun g hg => .of_move (.reheaded hstate : Move r.record r.shelf _ r.shelf) hg
        exact .viewed hworn

/-! ### Rewrites -/

theorem Close.heldSession (h : Close kept r r') (caller : Caller) :
    r'.record.heldSession caller = r.record.heldSession caller := by
  unfold WorkspaceRecord.heldSession
  rw [h.record.pointers.state]

theorem Close.leaseEnd (h : Close kept r r') :
    wrappingAdd r'.now r'.limits.leaseSecs = wrappingAdd r.now r.limits.leaseSecs := by
  rw [h.now, h.limits]

theorem answerSession_agree (h : Close kept r r') :
    Agree kept r.answerSession r'.answerSession := by
  unfold answerSession
  rw [h.sessionView]
  split
  · exact .done h
  · exact .refused

theorem renewLease_agree (h : Close kept r r') (holder : ApiKeyId) :
    Agree kept (r.renewLease holder).answerSession (r'.renewLease holder).answerSession := by
  cases hstate : r.record.state with
  | settled sealed =>
    have hr : r.renewLease holder = r := by
      unfold renewLease
      rw [hstate]
    have hr' : r'.renewLease holder = r' := by
      unfold renewLease
      rw [h.record.pointers.state, hstate]
    rw [hr, hr']
    exact answerSession_agree h
  | rewriting session =>
    rw [renewLease_eq hstate, renewLease_eq (h.record.pointers.state.trans hstate), h.leaseEnd]
    refine answerSession_agree (h.restated _ fun g hg => ?_)
    exact .of_move (.renewed hstate : Move r.record r.shelf _ r.shelf) hg

theorem heartbeatRewrite_agree (h : Close kept r r') :
    Agree kept (r.heartbeatRewrite caller) (r'.heartbeatRewrite caller) := by
  unfold heartbeatRewrite
  refine .check rfl fun _ _ => .check (h.heldSession caller) fun _ _ => ?_
  exact renewLease_agree h caller.key

theorem takeOverRewrite_agree (h : Close kept r r') :
    Agree kept (r.takeOverRewrite caller) (r'.takeOverRewrite caller) := by
  unfold takeOverRewrite
  refine .check rfl fun _ _ => ?_
  rw [h.record.pointers.state, h.now]
  cases hstate : r.record.state with
  | settled sealed => exact .refused
  | rewriting session =>
    dsimp only
    split
    · exact .refused
    · exact renewLease_agree h caller.key

/-- The two open the same session. -/
theorem Close.opened (h : Close kept r r') {request : RewriteRequest} (caller : Caller)
    (kind : RewriteKind) {prior : Option Seal} (hstate : r.record.state = .settled prior)
    (hended : request.newKeyId ∉ r.record.endedRewrites)
    (hnew : prior.map Seal.keyId ≠ some request.newKeyId) {lease : Nat} :
    let session (rec : WorkspaceRecord) : Session :=
      { kind
        prior
        next := ⟨request.newKeyId, request.newHeader⟩
        holder := caller.key
        leaseExpiresAt := lease
        stagedGeneration := rec.nextGeneration }
    Close kept
      { r with
        record := { r.record with
          nextGeneration := r.record.nextGeneration + 1
          state := .rewriting (session r.record) } }
      { r' with
        record := { r'.record with
          nextGeneration := r'.record.nextGeneration + 1
          state := .rewriting (session r'.record) } } := by
  intro session
  have hreach : ∀ g, WorkspaceRecord.Reaches
      { r.record with
        nextGeneration := r.record.nextGeneration + 1
        state := .rewriting (session r.record) } g → r.record.Reaches g :=
    fun g hg => .of_move (.opened hstate rfl rfl hended hnew : Move r.record r.shelf _ r.shelf) hg
  obtain ⟨-, hgeneration, hplain, hnext, hended⟩ := h.record.pointers
  refine h.edited
    (fun rec =>
      { rec with
        nextGeneration := rec.nextGeneration + 1
        state := .rewriting (session rec) }) ?_ hreach r.after r'.after
  refine ⟨⟨?_, hgeneration, hplain, congrArg (· + 1) hnext, hended⟩,
    fun g hg => h.record.used g (hreach g hg), h.record.tickets, h.record.tombstones⟩
  show State.rewriting (session r'.record) = .rewriting (session r.record)
  simp only [session, hnext]

theorem beginRewrite_agree (h : Close kept r r') (request : RewriteRequest) :
    Agree kept (r.beginRewrite caller request) (r'.beginRewrite caller request) := by
  unfold beginRewrite
  refine .check rfl fun _ _ => ?_
  rw [h.record.pointers.state]
  cases hstate : r.record.state with
  | rewriting session =>
    dsimp only
    split
    · exact renewLease_agree h caller.key
    · exact .refused
  | settled prior =>
    dsimp only
    rw [h.leaseEnd]
    -- the two kinds that fit the state go on alike
    have hopen : ∀ kind, Agree kept
        (if request.newKeyId ∈ r.record.endedRewrites then (.error .rewriteEnded, r)
          else if prior.map Seal.keyId ≠ request.expectedKeyId then (.error .keyIdMismatch, r)
          else if prior.map Seal.keyId = some request.newKeyId then
            (.error (.invalidRequest "the new key is the current one"), r)
          else answerSession { r with
            record := { r.record with
              nextGeneration := r.record.nextGeneration + 1
              state := .rewriting
                { kind
                  prior
                  next := ⟨request.newKeyId, request.newHeader⟩
                  holder := caller.key
                  leaseExpiresAt := wrappingAdd r.now r.limits.leaseSecs
                  stagedGeneration := r.record.nextGeneration } } })
        (if request.newKeyId ∈ r'.record.endedRewrites then (.error .rewriteEnded, r')
          else if prior.map Seal.keyId ≠ request.expectedKeyId then (.error .keyIdMismatch, r')
          else if prior.map Seal.keyId = some request.newKeyId then
            (.error (.invalidRequest "the new key is the current one"), r')
          else answerSession { r' with
            record := { r'.record with
              nextGeneration := r'.record.nextGeneration + 1
              state := .rewriting
                { kind
                  prior
                  next := ⟨request.newKeyId, request.newHeader⟩
                  holder := caller.key
                  leaseExpiresAt := wrappingAdd r.now r.limits.leaseSecs
                  stagedGeneration := r'.record.nextGeneration } } }) := by
      intro kind
      by_cases hended : request.newKeyId ∈ r.record.endedRewrites
      · rw [if_pos hended]
        exact .refused
      have hended' : request.newKeyId ∉ r'.record.endedRewrites := by
        rw [h.record.pointers.endedRewrites]
        exact hended
      rw [if_neg hended, if_neg hended']
      split
      · exact .refused
      split
      · exact .refused
      rename_i hnew
      exact answerSession_agree (h.opened caller kind hstate hended hnew)
    cases hkind : request.kind <;> cases prior
    · exact hopen .migrate
    · exact .refused
    · exact .refused
    · exact hopen .rotate

theorem Close.gaveUp (h : Close kept r r') (p : UploadId → Ticket → Bool) :
    Close kept (r.giveUp p) (r'.giveUp p) := by
  refine h.edited (fun rec => rec.without p) ?_ (fun g hg => hg) _ _
  obtain ⟨hstate, hgeneration, hplain, hnext, hended⟩ := h.record.pointers
  refine ⟨⟨hstate, hgeneration, hplain, hnext, hended⟩, h.record.used, fun u => ?_,
    h.record.tombstones⟩
  show ((r'.record.tickets.filter _)[u]?).filter _ = ((r.record.tickets.filter _)[u]?).filter _
  rw [Map.get_filter, Map.get_filter, Option.filter_filter, Option.filter_filter]
  exact WorkspaceRecord.Like.filter_live (h.record.tickets u)

/-- The two forget a generation's books. -/
theorem usedIn_forgot (h : r.record.Like r.now r'.record) {g d : Nat} (hg : r.record.Reaches g)
    (d' : Nat) (hd : d' = d) :
    ((r'.record.used.erase d')[g]?).getD 0 = ((r.record.used.erase d)[g]?).getD 0 := by
  subst hd
  rw [Map.get_erase, Map.get_erase]
  split
  · rfl
  · exact h.used g hg

theorem commitRewrite_agree (h : Close kept r r') (newKeyId : KeyId) :
    Agree kept (r.commitRewrite caller newKeyId) (r'.commitRewrite caller newKeyId) := by
  unfold commitRewrite
  refine .check rfl fun _ _ => ?_
  rw [h.record.pointers.state]
  cases hstate : r.record.state with
  | settled sealed =>
    dsimp only
    split
    · exact .viewed h
    · exact .refused
  | rewriting session =>
    dsimp only
    refine .check (h.heldSession caller) fun session' hheld => ?_
    obtain ⟨hstate', -⟩ := WorkspaceRecord.heldSession_ok hheld
    rw [h.currentIds, h.ids (.staged hstate')]
    split
    · exact .refused
    · split
      · exact .refused
      · have hreach : ∀ g, (r.record.switched session').Reaches g → r.record.Reaches g :=
          fun g hg => .of_move (.switched hstate' : Move r.record r.shelf _ r.shelf) hg
        obtain ⟨-, hgeneration, hplain, hnext, hended⟩ := h.record.pointers
        have hswitched := (h.edited
          (fun rec =>
            { rec with
              generation := session'.stagedGeneration
              state := .settled (some session'.next)
              used := rec.used.erase rec.generation })
          ⟨⟨rfl, rfl, hplain, hnext, hended⟩,
            fun g hg => usedIn_forgot h.record (hreach g hg) _ hgeneration,
            h.record.tickets, h.record.tombstones⟩ hreach
            (r.after ++ [.dropGeneration r.record.generation])
            (r'.after ++ [.dropGeneration r'.record.generation])).gaveUp
            fun _ ticket => ticket.request.inRewrite
        exact .viewed hswitched

theorem endAborted_agree (h : Close kept r r') {session : Session}
    (hstate : r.record.state = .rewriting session) :
    Agree kept (r.endAborted session) (r'.endAborted session) := by
  have hreach : ∀ g, (r.record.restored session).Reaches g → r.record.Reaches g :=
    fun g hg => .of_move (.restored hstate : Move r.record r.shelf _ r.shelf) hg
  obtain ⟨-, hgeneration, hplain, hnext, hended⟩ := h.record.pointers
  have hrestored := (h.edited
    (fun rec =>
      { rec with
        endedRewrites := insert session.next.keyId rec.endedRewrites
        state := .settled session.prior
        used := rec.used.erase session.stagedGeneration })
    ⟨⟨rfl, hgeneration, hplain, hnext, congrArg (insert session.next.keyId) hended⟩,
      fun g hg => usedIn_forgot h.record (hreach g hg) _ rfl, h.record.tickets,
      h.record.tombstones⟩
    hreach (r.after ++ [.dropGeneration session.stagedGeneration])
    (r'.after ++ [.dropGeneration session.stagedGeneration])).gaveUp
      fun _ ticket => ticket.request.inRewrite
  exact .viewed hrestored

theorem abortRewrite_agree (h : Close kept r r') (newKeyId : KeyId) :
    Agree kept (r.abortRewrite caller newKeyId) (r'.abortRewrite caller newKeyId) := by
  unfold abortRewrite
  refine .check rfl fun _ _ => ?_
  rw [h.record.pointers.state]
  cases hstate : r.record.state with
  | settled sealed => exact .viewed h
  | rewriting session =>
    dsimp only
    refine .check (h.heldSession caller) fun session' hheld => ?_
    split
    · exact .refused
    · exact endAborted_agree h (WorkspaceRecord.heldSession_ok hheld).1

/-! ### Uploads -/

theorem abortUpload_agree (h : Close kept r r') (u : UploadId) :
    Agree kept (r.abortUpload caller u) (r'.abortUpload caller u) :=
  .done (h.gaveUp _)

/-- The two change no record, and staging places only. -/
theorem Close.staged (h : Close kept r r') (u : UploadId) :
    Close kept { r with shelf := r.shelf.stageCreate u }
      { r' with shelf := r'.shelf.stageCreate u } where
  now := h.now
  limits := h.limits
  record := h.record
  kept := h.kept
  items := by
    intro g hg
    rw [MemoryShelf.stageCreate_generation, MemoryShelf.stageCreate_generation]
    exact h.items g hg

/-- A begin that makes up no upload id: the content is stored already, or the caller has
a ticket for it. -/
theorem beginUpload_agree (h : Close kept r r') {request : UploadRequest}
    (hold : ∀ g, r.record.uploadTarget caller request = .ok g →
      findIn r.shelf g request.id.contentKey = none →
      (r.record.liveTicketFor r.now caller request).isSome) :
    Agree kept (r.beginUpload caller request) (r'.beginUpload caller request) := by
  unfold beginUpload
  refine .check rfl fun _ _ => .check (h.record.uploadTarget caller request) fun g htarget => ?_
  have hreach : r.record.Reaches g := .inl (WorkspaceRecord.uploadTarget_ok htarget).live
  rw [congrArg Limits.maxItemBytes h.limits, findIn_congr (h.items g hreach), h.liveTicketFor]
  split
  · exact .refused
  · cases hfound : findIn r.shelf g request.id.contentKey with
    | some id => exact .done (h.gaveUp _)
    | none =>
      obtain ⟨⟨u, ticket⟩, hticket⟩ := Option.isSome_iff_exists.mp (hold g htarget hfound)
      rw [hticket]
      exact .done (h.staged u)

theorem Close.held (h : Close kept r r') {g : Nat} (hg : r.record.Reaches g) (inRewrite : Bool) :
    r'.held g inRewrite = r.held g inRewrite := by
  unfold Rules.held
  rw [h.now, h.record.used g hg, h.record.reservedBy, h.record.reservedBy, h.record.usedBytes,
    h.record.stagedBytes]

/-- The two finish an upload with the same outcome. -/
theorem Close.finishedUpload (h : Close kept r r') (u : UploadId) (ticket : Ticket) (id : ItemId)
    (created : Bool) :
    Agree kept ((.ok (r.finishUpload u ticket id created).1 : Except ApiError PutOutcome),
        (r.finishUpload u ticket id created).2)
      (.ok (r'.finishUpload u ticket id created).1, (r'.finishUpload u ticket id created).2) := by
  have hends : wrappingAdd r'.now r'.limits.stagingSecs =
      wrappingAdd r.now r.limits.stagingSecs := by
    rw [h.now, h.limits]
  unfold finishUpload
  rw [hends]
  refine .done (h.edited (fun rec => rec.finished u (r.stone ticket id created)) ?_ (fun g hg => hg)
    _ _)
  obtain ⟨hstate, hgeneration, hplain, hnext, hended⟩ := h.record.pointers
  refine ⟨⟨hstate, hgeneration, hplain, hnext, hended⟩, h.record.used, fun v => ?_, fun v => ?_⟩
  · show ((r'.record.tickets.erase u)[v]?).filter _ = ((r.record.tickets.erase u)[v]?).filter _
    rw [Map.get_erase, Map.get_erase]
    split
    · rfl
    · exact h.record.tickets v
  · show ((r'.record.tombstones.insert u _)[v]?).filter _ =
      ((r.record.tombstones.insert u _)[v]?).filter _
    rw [Map.get_insert, Map.get_insert]
    split
    · rfl
    · exact h.record.tombstones v

/-- The two book a generation anew. -/
theorem Close.booked (h : Close kept r r') (g : Nat) {n n' : Nat} (hn : n' = n) :
    Close kept { r with record := { r.record with used := r.record.used.insert g n } }
      { r' with record := { r'.record with used := r'.record.used.insert g n' } } := by
  subst hn
  refine h.edited (fun rec => { rec with used := rec.used.insert g n' }) ?_ (fun g hg => hg) _ _
  obtain ⟨hstate, hgeneration, hplain, hnext, hended⟩ := h.record.pointers
  refine ⟨⟨hstate, hgeneration, hplain, hnext, hended⟩, fun d hd => ?_, h.record.tickets,
    h.record.tombstones⟩
  rw [WorkspaceRecord.usedIn_insert, WorkspaceRecord.usedIn_insert]
  split
  · rfl
  · exact h.record.used d hd

/-- Publishing looks at its staging place and at its generation only. -/
theorem publish_congr {s s' : MemoryShelf} {u : UploadId} {g : Nat}
    (hstaging : s'.staging[u]? = s.staging[u]?) (hgen : s'.generation g = s.generation g)
    (id : ItemId) (envelope : Envelope) :
    (s'.publish u g id envelope).1 = (s.publish u g id envelope).1 ∧
      ∀ d, s'.generation d = s.generation d →
        (s'.publish u g id envelope).2.generation d =
          (s.publish u g id envelope).2.generation d := by
  unfold MemoryShelf.publish
  rw [hstaging, hgen]
  cases s.staging[u]? with
  | none => exact ⟨rfl, fun d hd => hd⟩
  | some staged =>
    dsimp only
    split
    · exact ⟨rfl, fun d hd => hd⟩
    · refine ⟨rfl, fun d hd => ?_⟩
      show ((s'.items.insert g _)[d]?).getD ∅ = ((s.items.insert g _)[d]?).getD ∅
      rw [Map.get_insert, Map.get_insert]
      split
      · rfl
      · exact hd

theorem settleUpload_agree (h : Alike kept r r') {u : UploadId} {ticket : Ticket} {g : Nat}
    (hticket : r.record.liveTicket r.now caller u = some ticket) (hg : r.record.Reaches g) :
    Agree kept (r.settleUpload u ticket g) (r'.settleUpload u ticket g) := by
  obtain ⟨hget, -, hlive⟩ := WorkspaceRecord.liveTicket_eq_some hticket
  unfold settleUpload
  rw [findIn_congr (h.items g hg)]
  cases hfound : findIn r.shelf g ticket.request.id.contentKey with
  | some id => exact h.toClose.finishedUpload u ticket id false
  | none =>
    obtain ⟨hanswer, hitems⟩ := publish_congr (h.staging u ticket hget hlive) (h.items g hg)
      ticket.request.id ⟨ticket.request.metaJson, ticket.request.expectedKeyId, r.now⟩
    dsimp only
    rw [show (⟨ticket.request.metaJson, ticket.request.expectedKeyId, r'.now⟩ : Envelope) =
      ⟨ticket.request.metaJson, ticket.request.expectedKeyId, r.now⟩ by rw [h.now]]
    rcases hout : r.shelf.publish u g ticket.request.id
      ⟨ticket.request.metaJson, ticket.request.expectedKeyId, r.now⟩ with ⟨res, shelf⟩
    rcases hout' : r'.shelf.publish u g ticket.request.id
      ⟨ticket.request.metaJson, ticket.request.expectedKeyId, r.now⟩ with ⟨res', shelf'⟩
    rw [hout, hout'] at hanswer hitems
    cases hanswer
    cases res with
    | error e => exact .refused
    | ok created =>
      have hpublished : Close kept { r with shelf } { r' with shelf := shelf' } :=
        ⟨h.now, h.limits, h.record, h.kept, fun d hd => hitems d (h.items d hd)⟩
      have hbooked : r'.record.usedIn g + ticket.request.size =
          r.record.usedIn g + ticket.request.size := by
        rw [h.record.used g hg]
      exact (hpublished.booked g hbooked).finishedUpload u ticket ticket.request.id true

section
variable [Crates]

theorem checkPlaintext_agree (h : Alike kept r r') {u : UploadId} {ticket : Ticket}
    (hticket : r.record.liveTicket r.now caller u = some ticket) :
    r'.checkPlaintext u ticket.request = r.checkPlaintext u ticket.request := by
  obtain ⟨hget, -, hlive⟩ := WorkspaceRecord.liveTicket_eq_some hticket
  unfold checkPlaintext MemoryShelf.stageDigest
  rw [h.staging u ticket hget hlive]

theorem commitUpload_agree (h : Alike kept r r') (u : UploadId) :
    Agree kept (r.commitUpload caller u) (r'.commitUpload caller u) := by
  unfold commitUpload
  rw [h.tombstone, h.liveTicket]
  cases r.record.tombstone r.now caller u with
  | some stone => exact .done h.toClose
  | none =>
    cases hticket : r.record.liveTicket r.now caller u with
    | none => exact .refused
    | some ticket =>
      obtain ⟨hget, -, hlive⟩ := WorkspaceRecord.liveTicket_eq_some hticket
      refine .check (h.record.uploadTarget caller ticket.request) fun g htarget => ?_
      have hg : r.record.Reaches g := .inl (WorkspaceRecord.uploadTarget_ok htarget).live
      have hsize : r'.shelf.stageSize u = r.shelf.stageSize u := by
        rw [MemoryShelf.stageSize, MemoryShelf.stageSize, h.staging u ticket hget hlive]
      have hitem : r'.shelf.get g ticket.request.id = r.shelf.get g ticket.request.id := by
        rw [MemoryShelf.get, MemoryShelf.get, h.items g hg]
      have hchecks : r'.checksContent ticket.request = r.checksContent ticket.request := by
        rw [checksContent, checksContent, h.limits]
      dsimp only
      rw [hsize, hitem, hchecks]
      split
      · have hbytes : r'.shelf.bytes g = r.shelf.bytes g := MemoryShelf.bytes_congr (h.items g hg)
        exact (h.toClose.booked g hbytes).finishedUpload u ticket ticket.request.id true
      · split
        · exact .refused
        · split
          · exact .check (checkPlaintext_agree h hticket) fun _ _ => settleUpload_agree h hticket hg
          · exact settleUpload_agree h hticket hg

end

end Rules

end Passalong
