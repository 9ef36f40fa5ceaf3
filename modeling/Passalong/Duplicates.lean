import Passalong.WellFormed

/-!
# Late duplicates

A request may arrive again at any later time. What belongs to a rewrite that has ended,
or to a sealing that was accepted, changes nothing then (`harmless_run`), provided every
attempt comes with a key id of its own:

- a begin names the key it expects to replace, and a key that was replaced never comes
  back (`Worn`); the new key of an aborted rewrite is remembered for good;
- a commit and an abort name the new key, which no later session has;
- uploads of the rewrite are gone with it, and begins of such uploads name its key.

Heartbeats, take-overs and new headers name no attempt, so a late one is taken for one
that is sent now (`late_run`).
-/

namespace Passalong

open Lib

/-! ## Attempts -/

/-- The new key an attempt to seal or to rewrite comes with. -/
def Op.newKey? : Op → Option KeyId
  | .enableEncryption _ keyId _ | .freshStart _ keyId _ => some keyId
  | .beginRewrite _ request => some request.newKeyId
  | _ => none

/-- The attempt an event makes, if it makes one. -/
def Event.attempts : Event → List Op
  | .request _ op | .cut _ op _ => if op.newKey?.isSome then [op] else []
  | _ => []

/-- No two attempts share a key id: those that do are one, sent again. -/
def OneKeyEach (ops : List Op) : Prop :=
  ops.Pairwise fun op op' => op.newKey? = op'.newKey? → op = op'

instance (ops : List Op) : Decidable (OneKeyEach ops) :=
  inferInstanceAs (Decidable (ops.Pairwise _))

theorem OneKeyEach.eq {ops : List Op} (h : OneKeyEach ops) {op op' : Op} (hop : op ∈ ops)
    (hop' : op' ∈ ops) (hkey : op.newKey? = op'.newKey?) : op = op' := by
  have hsymm : Std.Symm fun op op' : Op => op.newKey? = op'.newKey? → op = op' :=
    ⟨fun _ _ hsame hk => (hsame hk.symm).symm⟩
  exact List.Pairwise.forall_of_forall (fun _ _ _ => rfl) h hop hop' hkey

/-! ## Keys that were worn -/

/-- What is known of the keys a workspace has had: `left` are those it has no more. -/
structure Worn (seen : List Op) (left : List (Option KeyId)) (rec : WorkspaceRecord) : Prop where
  current : rec.keyId ∉ left
  /-- A plaintext workspace never had a key. -/
  plaintext : rec.keyId = none → left = []
  /-- A key came with an attempt. If that was a rewrite, the key it replaced is left. -/
  named : ∀ keyId, (some keyId ∈ left ∨ rec.keyId = some keyId) →
    ∃ op ∈ seen, op.newKey? = some keyId ∧
      ∀ caller request, op = .beginRewrite caller request → request.expectedKeyId ∈ left
  session : ∀ session, rec.state = .rewriting session →
    ∃ caller request, Op.beginRewrite caller request ∈ seen ∧
      request.newKeyId = session.next.keyId ∧ request.expectedKeyId = rec.keyId

namespace Worn

variable {seen later : List Op} {left : List (Option KeyId)} {rec rec' : WorkspaceRecord}

theorem initial : Worn [] [] WorkspaceRecord.initial where
  current := List.not_mem_nil
  plaintext := fun _ => rfl
  named := by
    rintro keyId (h | h)
    · cases h
    · cases h
  session := by rintro session ⟨⟩

/-- Further attempts change nothing. -/
theorem more (h : Worn seen left rec) : Worn (seen ++ later) left rec where
  current := h.current
  plaintext := h.plaintext
  named := by
    intro keyId hk
    obtain ⟨op, hop, hrest⟩ := h.named keyId hk
    exact ⟨op, List.mem_append_left _ hop, hrest⟩
  session := by
    intro session hs
    obtain ⟨caller, request, hop, hrest⟩ := h.session session hs
    exact ⟨caller, request, List.mem_append_left _ hop, hrest⟩

/-- Nor does what leaves the state alone. -/
theorem congr (h : Worn seen left rec) (hstate : rec'.state = rec.state) :
    Worn seen left rec' := by
  have hkey : rec'.keyId = rec.keyId := by
    rw [WorkspaceRecord.keyId, WorkspaceRecord.keyId, WorkspaceRecord.seal?,
      WorkspaceRecord.seal?, hstate]
  constructor
  · rw [hkey]
    exact h.current
  · rw [hkey]
    exact h.plaintext
  · rw [hkey]
    exact h.named
  · rw [hkey, hstate]
    exact h.session

/-- A settled workspace keeps its key. -/
theorem settled (h : Worn seen left rec) {sealed : Option Seal}
    (hstate : rec'.state = .settled sealed) (hkey : sealed.map Seal.keyId = rec.keyId) :
    Worn seen left rec' := by
  have hkey' : rec'.keyId = rec.keyId := (WorkspaceRecord.keyId_of_settled hstate).trans hkey
  refine ⟨?_, ?_, ?_, ?_⟩
  · rw [hkey']
    exact h.current
  · rw [hkey']
    exact h.plaintext
  · rw [hkey']
    exact h.named
  · intro session hs
    rw [hstate] at hs
    cases hs

/-- A workspace takes a key that it did not have before. -/
theorem changed (h : Worn seen left rec) {sealed : Seal} {op : Op}
    (hstate : rec'.state = .settled (some sealed)) (hop : op ∈ seen)
    (hnamed : op.newKey? = some sealed.keyId)
    (hexpected : ∀ caller request, op = .beginRewrite caller request →
      request.expectedKeyId = rec.keyId)
    (hnew : rec.keyId ≠ some sealed.keyId) (hleft : some sealed.keyId ∉ left) :
    Worn seen (rec.keyId :: left) rec' := by
  have hkey : rec'.keyId = some sealed.keyId := WorkspaceRecord.keyId_of_settled hstate
  refine ⟨?_, ?_, ?_, ?_⟩
  · rw [hkey]
    intro hmem
    rcases List.mem_cons.mp hmem with heq | hmem
    · exact hnew heq.symm
    · exact hleft hmem
  · intro hnone
    rw [hkey] at hnone
    cases hnone
  · intro keyId hk
    have hcases : rec'.keyId = some keyId ∨ some keyId ∈ left ∨ rec.keyId = some keyId := by
      rcases hk with hk | hk
      · rcases List.mem_cons.mp hk with heq | hmem
        · exact .inr (.inr heq.symm)
        · exact .inr (.inl hmem)
      · exact .inl hk
    rcases hcases with hk | hk
    · rw [hkey] at hk
      refine ⟨op, hop, hnamed.trans hk, fun caller request heq => ?_⟩
      rw [hexpected caller request heq]
      exact List.mem_cons_self
    · obtain ⟨op', hop', hnamed', hbegin⟩ := h.named keyId hk
      exact ⟨op', hop', hnamed', fun caller request heq =>
        List.mem_cons_of_mem _ (hbegin caller request heq)⟩
  · intro session hs
    rw [hstate] at hs
    cases hs

/-- The new key of an open rewrite is none the workspace ever had. -/
theorem next_new (h : Worn seen left rec) (hone : OneKeyEach seen) {session : Session}
    (hstate : rec.state = .rewriting session) : some session.next.keyId ∉ left := by
  intro hleft
  obtain ⟨caller, request, hbegin, hnew, hexpected⟩ := h.session session hstate
  obtain ⟨op, hop, hnamed, hworn⟩ := h.named _ (.inl hleft)
  -- the attempt that brought the key then is the one that is under way now
  have hsame : op = .beginRewrite caller request :=
    hone.eq hop hbegin (hnamed.trans (congrArg some hnew.symm))
  have hgone := hworn caller request hsame
  rw [hexpected] at hgone
  exact h.current hgone

end Worn

section
variable [Crates] {r : Rules} {op : Op} {a : Answer} {rec : WorkspaceRecord}
  {shelf : MemoryShelf} {after : List Cleanup} {seen : List Op} {left : List (Option KeyId)}

/-- **Keys that were worn, over every change.** What was left stays so. -/
theorem Change.worn (h : Change r op a rec shelf after) (hl : r.record.Layout)
    (hw : Worn seen left r.record) (hop : op.newKey?.isSome → op ∈ seen)
    (hone : OneKeyEach seen) :
    ∃ left', Worn seen left' rec ∧
      ∀ key, (key ∈ left ∨ r.record.keyId = key) → (key ∈ left' ∨ rec.keyId = key) := by
  -- sealing a plaintext workspace
  have hseal : ∀ {keyId : KeyId} {header : Bytes} {rec' : WorkspaceRecord},
      r.record.state = .settled none → op.newKey? = some keyId →
      (∀ caller request, op ≠ .beginRewrite caller request) →
      rec'.state = .settled (some ⟨keyId, header⟩) →
      ∃ left', Worn seen left' rec' ∧
        ∀ key, (key ∈ left ∨ r.record.keyId = key) → (key ∈ left' ∨ rec'.keyId = key) := by
    intro keyId header rec' hstate hkey hnot hstate'
    have hnone : r.record.keyId = none := WorkspaceRecord.keyId_of_settled hstate
    refine ⟨r.record.keyId :: left, hw.changed hstate' (hop (by rw [hkey]; rfl)) hkey
      (fun caller request heq => absurd heq (hnot caller request)) ?_ ?_, ?_⟩
    · rw [hnone]
      exact fun h => by cases h
    · rw [hw.plaintext hnone]
      exact List.not_mem_nil
    · rintro key (hmem | rfl)
      · exact .inl (List.mem_cons_of_mem _ hmem)
      · exact .inl List.mem_cons_self
  -- what leaves the key as it is leaves no key behind
  have hkept : ∀ {rec' : WorkspaceRecord}, rec'.keyId = r.record.keyId →
      Worn seen left rec' → ∃ left', Worn seen left' rec' ∧
        ∀ key, (key ∈ left ∨ r.record.keyId = key) → (key ∈ left' ∨ rec'.keyId = key) := by
    intro rec' hkey hw'
    refine ⟨left, hw', fun key hk => ?_⟩
    rw [hkey]
    exact hk
  cases h with
  | sealed hstate _ hops _ =>
    rcases hops with rfl | rfl
    · exact hseal hstate rfl (fun _ _ h => by cases h) rfl
    · exact hseal hstate rfl (fun _ _ h => by cases h) rfl
  | setAside hstate _ => exact hseal hstate rfl (fun _ _ h => by cases h) rfl
  | reheaded hstate _ =>
    have hkey := WorkspaceRecord.keyId_of_settled hstate
    exact hkept (by rw [hkey]; rfl) (hw.settled rfl (by rw [hkey]; rfl))
  | @opened caller request _ prior hstate _ _ _ hexpected _ =>
    have hkey := WorkspaceRecord.keyId_of_settled hstate
    refine hkept (by rw [hkey]; rfl) ⟨?_, ?_, ?_, ?_⟩
    · show prior.map Seal.keyId ∉ left
      rw [← hkey]
      exact hw.current
    · intro hnone
      exact hw.plaintext (hkey.trans hnone)
    · intro keyId hk
      exact hw.named keyId (hk.imp id fun hk => hkey.trans hk)
    · rintro session ⟨⟩
      exact ⟨caller, request, hop rfl, rfl, hexpected.symm⟩
  | @renewed _ _ session caller hstate _ _ =>
    have hkey := WorkspaceRecord.keyId_of_rewriting hstate
    refine hkept (by rw [hkey]; rfl) ⟨?_, ?_, ?_, ?_⟩
    · show session.prior.map Seal.keyId ∉ left
      rw [← hkey]
      exact hw.current
    · intro hnone
      exact hw.plaintext (hkey.trans hnone)
    · intro keyId hk
      exact hw.named keyId (hk.imp id fun hk => hkey.trans hk)
    · rintro session' ⟨⟩
      obtain ⟨caller', request, hbegin, hnew, hexpected⟩ := hw.session session hstate
      exact ⟨caller', request, hbegin, hnew, hexpected.trans hkey⟩
  | @switched caller newKeyId _ session hstate _ _ _ _ =>
    -- the old key is left behind, and the new one was never worn
    obtain ⟨caller', request, hbegin, hnew, hexpected⟩ := hw.session session hstate
    have hkey := WorkspaceRecord.keyId_of_rewriting hstate
    refine ⟨r.record.keyId :: left, hw.changed rfl hbegin (congrArg some hnew) ?_ ?_
      (hw.next_new hone hstate), ?_⟩
    · rintro caller'' request' ⟨⟩
      exact hexpected
    · rw [hkey]
      exact hl.new_key session hstate
    · rintro key (hmem | rfl)
      · exact .inl (List.mem_cons_of_mem _ hmem)
      · exact .inl List.mem_cons_self
  | restored hstate _ =>
    have hkey := WorkspaceRecord.keyId_of_rewriting hstate
    exact hkept (by rw [hkey]; rfl) (hw.settled rfl hkey.symm)
  | _ => exact hkept rfl (hw.congr rfl)

end

namespace World

variable [Crates] {limits : Limits} {w w' : World} {e : Event} {seen : List Op}
  {left : List (Option KeyId)} {keyId : KeyId}

theorem Step.worn (h : Step limits w e w') (hl : w.Laid) (hw : Worn seen left w.record)
    (hone : OneKeyEach (seen ++ e.attempts)) :
    ∃ left', Worn (seen ++ e.attempts) left' w'.record ∧
      ∀ key, (key ∈ left ∨ w.record.keyId = key) →
        (key ∈ left' ∨ w'.record.keyId = key) := by
  have hmore : Worn (seen ++ e.attempts) left w.record := hw.more
  cases h with
  | @done call op _ _ _ _ _ hchange =>
    refine hchange.worn hl.layout hmore (fun hsome => List.mem_append_right _ ?_) hone
    simp [Event.attempts, hsome]
  | _ => exact ⟨left, hmore, fun _ => id⟩

/-- Whether the open rewrite is that to a key. -/
def IsOpen (w : World) (keyId : KeyId) : Prop :=
  ∃ session, w.record.state = .rewriting session ∧ session.next.keyId = keyId

omit [Crates] in
/-- A rewrite that was open is open, was aborted, or its key has been the workspace's. -/
theorem IsOpen.move (hopen : w.IsOpen keyId) (h : Move w.record w.shelf w'.record w'.shelf) :
    w'.IsOpen keyId ∨ keyId ∈ w'.record.endedRewrites ∨ w'.record.keyId = some keyId := by
  obtain ⟨session, hstate, hkey⟩ := hopen
  generalize w'.shelf = shelf' at h
  generalize hrec : w'.record = rec' at h ⊢
  have hsettled : ∀ {sealed : Option Seal}, w.record.state = .settled sealed → False := by
    intro sealed hs
    rw [hstate] at hs
    cases hs
  cases h with
  | same hsame =>
    exact .inl ⟨session, by rw [hrec, hsame.state]; exact hstate, hkey⟩
  | sealed hs _ => exact (hsettled hs).elim
  | setAside hs => exact (hsettled hs).elim
  | reheaded hs => exact (hsettled hs).elim
  | opened hs _ _ _ _ => exact (hsettled hs).elim
  | renewed hs =>
    rw [hstate] at hs
    cases hs
    exact .inl ⟨_, congrArg WorkspaceRecord.state hrec, hkey⟩
  | switched hs =>
    rw [hstate] at hs
    cases hs
    exact .inr (.inr (congrArg some hkey))
  | restored hs =>
    rw [hstate] at hs
    cases hs
    refine .inr (.inl ?_)
    rw [← hkey]
    exact Finset.mem_insert_self _ _

omit [Crates] in
/-- What was aborted is remembered for good. -/
theorem ended_move (hended : keyId ∈ w.record.endedRewrites)
    (h : Move w.record w.shelf w'.record w'.shelf) : keyId ∈ w'.record.endedRewrites := by
  generalize w'.shelf = shelf' at h
  generalize w'.record = rec' at h ⊢
  cases h with
  | same hsame =>
    rw [hsame.endedRewrites]
    exact hended
  | restored _ => exact Finset.mem_insert_of_mem hended
  | _ => exact hended

/-- What is known of a rewrite that was open once. -/
structure Known (keyId : KeyId) (seen : List Op) (w : World) : Prop where
  laid : w.Laid
  worn : ∃ left, Worn seen left w.record ∧
    (w.IsOpen keyId ∨ keyId ∈ w.record.endedRewrites ∨ some keyId ∈ left ∨
      w.record.keyId = some keyId)

theorem Known.step (h : Known keyId seen w) (hone : OneKeyEach (seen ++ e.attempts)) :
    Known keyId (seen ++ e.attempts) (w.exec limits e) := by
  obtain ⟨left, hworn, hwhere⟩ := h.worn
  have hstep := w.exec_step limits e
  obtain ⟨left', hworn', hkept⟩ := hstep.worn h.laid hworn hone
  refine ⟨h.laid.step hstep, left', hworn', ?_⟩
  rcases hwhere with hopen | hended | hleft
  · rcases hopen.move hstep.move with hopen | hended | hkey
    · exact .inl hopen
    · exact .inr (.inl hended)
    · exact .inr (.inr (.inr hkey))
  · exact .inr (.inl (ended_move hended hstep.move))
  · exact .inr (.inr (hkept _ hleft))

/-- What is known of the keys of a workspace between any two events. -/
structure Wearing (seen : List Op) (w : World) : Prop where
  laid : w.Laid
  worn : ∃ left, Worn seen left w.record

theorem Wearing.step (h : Wearing seen w) (hone : OneKeyEach (seen ++ e.attempts)) :
    Wearing (seen ++ e.attempts) (w.exec limits e) := by
  obtain ⟨left, hworn⟩ := h.worn
  have hstep := w.exec_step limits e
  obtain ⟨left', hworn', -⟩ := hstep.worn h.laid hworn hone
  exact ⟨h.laid.step hstep, left', hworn'⟩

theorem worn_run (limits : Limits) (es : List Event)
    (hone : OneKeyEach (es.flatMap Event.attempts)) :
    ∃ left, Worn (es.flatMap Event.attempts) left (initial.run limits es).record := by
  rw [← Runs.history_of_events (exec limits) Event.attempts initial es] at hone ⊢
  have h : Wearing ([] ++ Runs.history (exec limits) (fun _ e => e.attempts) initial es)
      (initial.run limits es) :=
    Runs.pairwise_invariant (exec limits) (fun _ _ _ h _ hpair => h.step hpair)
      ⟨laid_initial, [], Worn.initial⟩ (Runs.along_of_forall _ fun _ _ => trivial) hone
  exact h.worn

/-- A rewrite to a key was open in the run, and is not open any more. -/
def Over (limits : Limits) (es : List Event) (keyId : KeyId) : Prop :=
  (∃ before later, es = before ++ later ∧ (initial.run limits before).IsOpen keyId) ∧
    ¬(initial.run limits es).IsOpen keyId

/-- **A rewrite that is over** was aborted, or its key has been the workspace's. -/
theorem Over.known {es : List Event} (h : Over limits es keyId)
    (hone : OneKeyEach (es.flatMap Event.attempts)) :
    ∃ left, Worn (es.flatMap Event.attempts) left (initial.run limits es).record ∧
      (keyId ∈ (initial.run limits es).record.endedRewrites ∨ some keyId ∈ left ∨
        (initial.run limits es).record.keyId = some keyId) := by
  obtain ⟨⟨before, later, rfl, hopen⟩, hclosed⟩ := h
  rw [List.flatMap_append] at hone ⊢
  obtain ⟨left, hworn⟩ := worn_run limits before (List.pairwise_append.mp hone).1
  have hstart : Known keyId (before.flatMap Event.attempts) (initial.run limits before) :=
    ⟨laid_run laid_initial before, left, hworn, .inl hopen⟩
  have hrun : initial.run limits (before ++ later) =
      (initial.run limits before).run limits later := Runs.run_append _ _ _ _
  rw [hrun] at hclosed ⊢
  rw [← Runs.history_of_events (exec limits) Event.attempts (initial.run limits before) later]
    at hone ⊢
  have hend : Known keyId (before.flatMap Event.attempts ++
      Runs.history (exec limits) (fun _ e => e.attempts) (initial.run limits before) later)
      ((initial.run limits before).run limits later) :=
    Runs.pairwise_invariant (exec limits) (fun _ _ _ h _ hpair => h.step hpair) hstart
      (Runs.along_of_forall _ fun _ _ => trivial) hone
  obtain ⟨left', hworn', hwhere⟩ := hend.worn
  exact ⟨left', hworn', hwhere.resolve_left hclosed⟩

/-- An upload id that was made up stands for one ticket. -/
structure Once (u : UploadId) (ticket : Ticket) (past : List UploadId) (w : World) : Prop where
  past : u ∈ past
  same : ∀ t, w.record.tickets[u]? = some t → t = ticket

theorem Once.step {u : UploadId} {ticket : Ticket} {past : List UploadId}
    (h : Once u ticket past w) (hnever : (past ++ w.minted limits e).Nodup) :
    Once u ticket (past ++ w.minted limits e) (w.exec limits e) := by
  refine ⟨List.mem_append_left _ h.past, fun t ht => h.same t ?_⟩
  generalize hw : w.exec limits e = w' at ht
  have hstep := w.exec_step limits e
  rw [hw] at hstep
  cases hstep with
  | done _ hchange =>
    rcases hchange.ticket ht with hold | hminted
    · exact hold
    · -- the id would be made up a second time
      exfalso
      change (past ++ Op.minted _ _).Nodup at hnever
      rw [hminted] at hnever
      exact (List.nodup_append.mp hnever).2.2 u h.past u (List.mem_singleton_self _) rfl
  | _ => exact ht

/-- **A ticket is never replaced by another one**, as long as no id is made up twice. -/
theorem once_run {u : UploadId} {ticket : Ticket} {before later : List Event}
    (hticket : (initial.run limits before).record.tickets[u]? = some ticket)
    (hnever : (initial.mintedIn limits (before ++ later)).Nodup) :
    ∀ t, (initial.run limits (before ++ later)).record.tickets[u]? = some t → t = ticket := by
  have hsplit : initial.mintedIn limits (before ++ later) = initial.mintedIn limits before ++
      Runs.history (exec limits) (minted limits) (initial.run limits before) later :=
    Runs.history_append _ _ _ _ _
  rw [hsplit] at hnever
  have hpast := (tracked_run (List.nodup_append.mp hnever).1).ticket u ticket hticket
  have hstart : Once u ticket (initial.mintedIn limits before) (initial.run limits before) := by
    refine ⟨hpast, fun t ht => ?_⟩
    rw [hticket] at ht
    exact (Option.some.inj ht).symm
  have hrun : initial.run limits (before ++ later) =
      (initial.run limits before).run limits later := Runs.run_append _ _ _ _
  rw [hrun]
  have hend : Once u ticket (initial.mintedIn limits before ++
      Runs.history (exec limits) (minted limits) (initial.run limits before) later)
      ((initial.run limits before).run limits later) :=
    Runs.pairwise_invariant (exec limits) (fun _ _ _ h _ hpair => h.step hpair) hstart
      (Runs.along_of_forall _ fun _ _ => trivial) hnever
  exact hend.same

end World

/-! ## Delivering a duplicate -/

/-- Whether an operation seals a plaintext workspace. -/
def Op.seals : Op → Bool
  | .enableEncryption .. | .freshStart .. => true
  | _ => false

theorem Op.Renews.not_seals {op : Op} {r : Rules} {session : Session} {caller : Caller}
    (h : op.Renews r session caller) : op.seals ≠ true := by
  cases op with
  | enableEncryption caller' keyId header => cases h
  | freshStart caller' keyId header => cases h
  | _ => exact Bool.false_ne_true

theorem Op.Aborts.not_seals {op : Op} {r : Rules} {session : Session}
    (h : op.Aborts r session) : op.seals ≠ true := by
  cases op with
  | enableEncryption caller' keyId header => cases h
  | freshStart caller' keyId header => cases h
  | _ => exact Bool.false_ne_true

section
variable [Crates] {r : Rules} {a : Answer} {rec : WorkspaceRecord} {shelf : MemoryShelf}
  {after : List Cleanup} {caller : Caller}

/-- A begin of a rewrite is accepted for a session that is open, or under the key that is
current, and not for one that was aborted. -/
theorem Change.of_beginRewrite {request : RewriteRequest}
    (h : Change r (.beginRewrite caller request) a rec shelf after) :
    (∃ session, r.record.state = .rewriting session ∧
      session.next.keyId = request.newKeyId) ∨
    (request.newKeyId ∉ r.record.endedRewrites ∧
      r.record.keyId = request.expectedKeyId ∧
      r.record.keyId ≠ some request.newKeyId) := by
  cases h with
  | kept hdone => cases hdone
  | sealed _ _ hop _ => rcases hop with hop | hop <;> cases hop
  | opened hstate _ hended hnew hexpected _ =>
    have hkey := WorkspaceRecord.keyId_of_settled hstate
    exact .inr ⟨hended, hkey.trans hexpected, by rw [hkey]; exact hnew⟩
  | renewed hstate hrenews _ => exact .inl ⟨_, hstate, hrenews.2.2.2⟩
  | restored _ haborts => cases haborts

/-- A commit changes the record of the open session it names only. -/
theorem Change.of_commitRewrite {keyId : KeyId}
    (h : Change r (.commitRewrite caller keyId) a rec shelf after) :
    (∃ session, r.record.state = .rewriting session ∧ session.next.keyId = keyId) ∨
      (rec = r.record ∧ shelf = r.shelf) := by
  cases h with
  | kept _ => exact .inr ⟨rfl, rfl⟩
  | sealed _ _ hop _ => rcases hop with hop | hop <;> cases hop
  | renewed _ hrenews _ => cases hrenews
  | switched hstate _ _ hkey _ => exact .inl ⟨_, hstate, hkey⟩
  | restored _ haborts => cases haborts

/-- So does an abort. -/
theorem Change.of_abortRewrite {keyId : KeyId}
    (h : Change r (.abortRewrite caller keyId) a rec shelf after) :
    (∃ session, r.record.state = .rewriting session ∧ session.next.keyId = keyId) ∨
      (rec = r.record ∧ shelf = r.shelf) := by
  cases h with
  | kept _ => exact .inr ⟨rfl, rfl⟩
  | sealed _ _ hop _ => rcases hop with hop | hop <;> cases hop
  | renewed _ hrenews _ => cases hrenews
  | restored hstate haborts => exact .inl ⟨_, hstate, haborts.2.2⟩

/-- An upload of a rewrite is begun while the rewrite is open. -/
theorem Change.of_beginUpload {request : UploadRequest}
    (h : Change r (.beginUpload caller request) a rec shelf after) :
    ∃ g, r.record.Targets caller request g := by
  cases h with
  | kept hdone => cases hdone
  | sealed _ _ hop _ => rcases hop with hop | hop <;> cases hop
  | begun htarget _ _ _ _ _ _ => exact ⟨_, htarget⟩
  | rebegun _ _ _ _ htarget => exact ⟨_, htarget⟩
  | stored htarget _ => exact ⟨_, htarget⟩
  | renewed _ hrenews _ => cases hrenews
  | restored _ haborts => cases haborts

/-- A commit of an upload without a ticket changes nothing. -/
theorem Change.of_commitUpload {u : UploadId}
    (h : Change r (.commitUpload caller u) a rec shelf after) :
    (∃ ticket g, r.record.tickets[u]? = some ticket ∧
      r.record.Targets caller ticket.request g) ∨ (rec = r.record ∧ shelf = r.shelf) := by
  cases h with
  | kept hdone => cases hdone
  | sealed _ _ hop _ => rcases hop with hop | hop <;> cases hop
  | replayed _ => exact .inr ⟨rfl, rfl⟩
  | duplicate hticket htarget _ _ =>
    exact .inl ⟨_, _, (WorkspaceRecord.liveTicket_eq_some hticket).1, htarget⟩
  | published hticket htarget _ _ _ _ _ =>
    exact .inl ⟨_, _, (WorkspaceRecord.liveTicket_eq_some hticket).1, htarget⟩
  | recovered hticket htarget _ _ _ =>
    exact .inl ⟨_, _, (WorkspaceRecord.liveTicket_eq_some hticket).1, htarget⟩
  | renewed _ hrenews _ => cases hrenews
  | restored _ haborts => cases haborts

/-- What seals a workspace changes a plaintext one only. -/
theorem Change.of_seal {op : Op} (h : Change r op a rec shelf after)
    (hop : op.seals = true) :
    r.record.seal? = none ∨ (rec = r.record ∧ shelf = r.shelf) := by
  cases h with
  | kept _ => exact .inr ⟨rfl, rfl⟩
  | sealed hstate _ _ _ => exact .inl (WorkspaceRecord.seal?_of_settled hstate)
  | setAside hstate _ => exact .inl (WorkspaceRecord.seal?_of_settled hstate)
  | renewed _ hrenews _ => exact absurd hop hrenews.not_seals
  | restored _ haborts => exact absurd hop haborts.not_seals
  | _ => cases hop

/-- Once it is accepted, the workspace is sealed. -/
theorem Change.sealed_after {op : Op} (h : Change r op a rec shelf after)
    (hop : op.seals = true) : ∃ sealed, rec.seal? = some sealed := by
  cases h with
  | kept hdone =>
    obtain ⟨keyId, header, hstate⟩ : ∃ keyId header,
        r.record.state = .settled (some ⟨keyId, header⟩) := by
      cases op with
      | enableEncryption caller keyId header => exact ⟨keyId, hdone⟩
      | freshStart caller keyId header => exact ⟨keyId, hdone⟩
      | _ => cases hop
    exact ⟨_, WorkspaceRecord.seal?_of_settled hstate⟩
  | sealed _ _ _ _ => exact ⟨_, rfl⟩
  | setAside _ _ => exact ⟨_, rfl⟩
  | renewed _ hrenews _ => exact absurd hop hrenews.not_seals
  | restored _ haborts => exact absurd hop haborts.not_seals
  | _ => cases hop

namespace World

variable {limits : Limits} {es : List Event}

/-- An operation was accepted in the run. -/
def Accepted (limits : Limits) (es : List Event) (op : Op) : Prop :=
  ∃ before call later a, es = before ++ .request call op :: later ∧
    (Engine.run (initial.run limits before) limits call op).1 = .ok a

/-- Whether a request is of a rewrite that is over, or a copy of an accepted sealing. -/
def LateCopy (limits : Limits) (es : List Event) : Op → Prop
  | .beginRewrite _ request => Over limits es request.newKeyId
  | .commitRewrite _ keyId | .abortRewrite _ keyId => Over limits es keyId
  | .beginUpload _ request => request.inRewrite = true ∧
    ∃ keyId, request.expectedKeyId = some keyId ∧ Over limits es keyId
  | .commitUpload _ u => ∃ before later ticket keyId, es = before ++ later ∧
    (initial.run limits before).record.tickets[u]? = some ticket ∧
    ticket.request.inRewrite = true ∧ ticket.request.expectedKeyId = some keyId ∧
    Over limits es keyId
  | .enableEncryption caller keyId header =>
    Accepted limits es (.enableEncryption caller keyId header)
  | .freshStart caller keyId header => Accepted limits es (.freshStart caller keyId header)
  | _ => False

/-- Nothing that a late copy could undo is touched. -/
structure Untouched (w w' : World) : Prop where
  pointers : w.record.SamePointers w'.record
  items : ∀ g, w'.shelf.generation g = w.shelf.generation g

/-- An upload of a rewrite that is over goes nowhere. -/
theorem Over.no_target {keyId : KeyId} (hover : Over limits es keyId)
    {request : UploadRequest} {g : Nat} (hin : request.inRewrite = true)
    (hkey : request.expectedKeyId = some keyId)
    (htarget : (initial.run limits es).record.Targets caller request g) : False := by
  cases htarget with
  | staged session hstate _ _ hnext =>
    rw [hkey] at hnext
    exact hover.2 ⟨session, hstate, (Option.some.inj hnext).symm⟩
  | current _ _ hout _ =>
    rw [hin] at hout
    cases hout

/-- A sealing that was accepted leaves no plaintext workspace behind. -/
theorem Accepted.sealed {op : Op} (h : Accepted limits es op)
    (hop : op.seals = true) : (initial.run limits es).record.seal? ≠ none := by
  obtain ⟨before, call, later, a, rfl, hok⟩ := h
  obtain ⟨rec, shelf, after, hchange, hexec⟩ := Engine.run_ok hok
  obtain ⟨sealed, hsealed⟩ := hchange.sealed_after hop
  have hrun : initial.run limits (before ++ .request call op :: later) =
      ((initial.run limits before).exec limits (.request call op)).run limits later :=
    Runs.run_append _ _ _ _
  have hbefore : (initial.run limits before).Laid := laid_run laid_initial before
  have hlaid := hbefore.step (exec_step limits _ (.request call op))
  rw [hexec] at hrun hlaid
  have hkeeps : rec.Keeps (World.run limits ⟨rec, shelf, _⟩ later).record :=
    keeps_run hlaid later
  obtain ⟨sealed', hsealed'⟩ := hkeeps.sealed sealed hsealed
  rw [hrun, hsealed']
  exact fun h => by cases h

/-- A late copy that is answered changes nothing. -/
theorem LateCopy.change {op : Op} {call : Call} (hlate : LateCopy limits es op)
    (hone : OneKeyEach ((es ++ [Event.request call op]).flatMap Event.attempts))
    (hnever : (initial.mintedIn limits es).Nodup)
    (h : Change ((initial.run limits es).rules limits call) op a rec shelf after) :
    rec = (initial.run limits es).record ∧ shelf = (initial.run limits es).shelf := by
  cases op with
  | beginRewrite caller request =>
    exfalso
    rw [List.flatMap_append] at hone
    obtain ⟨left, hworn, hwhere⟩ := hlate.known (List.pairwise_append.mp hone).1
    rcases h.of_beginRewrite with hopen | ⟨hended, hexpected, hnew⟩
    · exact hlate.2 hopen
    -- the key it brings was worn, so what it replaces is left
    have hkey : some request.newKeyId ∈ left ∨
        (initial.run limits es).record.keyId = some request.newKeyId :=
      hwhere.resolve_left hended
    obtain ⟨op, hop, hnamed, hbegin⟩ := hworn.named _ hkey
    have hsame : op = .beginRewrite caller request :=
      hone.eq (List.mem_append_left _ hop)
        (List.mem_append_right _ (List.mem_flatMap.mpr
          ⟨_, List.mem_singleton_self _, List.mem_singleton_self _⟩)) hnamed
    have hgone := hbegin caller request hsame
    rw [← hexpected] at hgone
    exact hworn.current hgone
  | commitRewrite caller keyId => exact h.of_commitRewrite.resolve_left hlate.2
  | abortRewrite caller keyId => exact h.of_abortRewrite.resolve_left hlate.2
  | beginUpload caller request =>
    obtain ⟨hin, keyId, hkey, hover⟩ := hlate
    obtain ⟨g, htarget⟩ := h.of_beginUpload
    exact (hover.no_target hin hkey htarget).elim
  | commitUpload caller u =>
    obtain ⟨before, later, ticket, keyId, rfl, hticket, hin, hkey, hover⟩ := hlate
    rcases h.of_commitUpload with ⟨ticket', g, hticket', htarget⟩ | hsame
    · obtain rfl := once_run hticket hnever ticket' hticket'
      exact (hover.no_target hin hkey htarget).elim
    · exact hsame
  | enableEncryption caller keyId header =>
    exact (h.of_seal rfl).resolve_left (Accepted.sealed hlate rfl)
  | freshStart caller keyId header =>
    exact (h.of_seal rfl).resolve_left (Accepted.sealed hlate rfl)
  | _ => cases hlate

/-- **Late copies are harmless.** In every run in which each attempt to seal or to rewrite
comes with a key id of its own, and no upload id is made up twice: a request of a rewrite
that is over, or a copy of an accepted sealing, leaves the pointers and every item as they
are; and a commit of a rewrite whose key is still the workspace's answers so. -/
theorem harmless_run (limits : Limits) (es : List Event) (call : Call) (op : Op)
    (hone : OneKeyEach ((es ++ [Event.request call op]).flatMap Event.attempts))
    (hnever : (initial.mintedIn limits es).Nodup) (hlate : LateCopy limits es op) :
    Untouched (initial.run limits es)
        ((initial.run limits es).exec limits (.request call op)) ∧
      ∀ caller keyId header, op = .commitRewrite caller keyId → caller.role = .readWrite →
        (initial.run limits es).record.state = .settled (some ⟨keyId, header⟩) →
        ∃ view, (Engine.run (initial.run limits es) limits call op).1 =
            .ok (.encryption view) ∧ view.state = .sealed ∧ view.keyId = some keyId := by
  constructor
  · show Untouched _ (Engine.run (initial.run limits es) limits call op).2
    rcases Engine.run_cases (initial.run limits es) limits call op with
      ⟨a, rec, shelf, after, hchange, hrun⟩ | ⟨error, shelf, hshelf, hrun⟩
    · obtain ⟨rfl, rfl⟩ := hlate.change hone hnever hchange
      rw [hrun]
      exact ⟨⟨rfl, rfl, rfl, rfl, rfl⟩, fun _ => rfl⟩
    · rw [hrun]
      refine ⟨⟨rfl, rfl, rfl, rfl, rfl⟩, fun g => ?_⟩
      rcases hshelf with rfl | ⟨u, content, announced, hashed, rfl⟩
      · rfl
      · exact MemoryShelf.write_generation _ _ _ _ _ _
  · rintro caller keyId header rfl hrole hstate
    have hstate' : ((initial.run limits es).rules limits call).record.state =
        .settled (some ⟨keyId, header⟩) := hstate
    refine ⟨((initial.run limits es).rules limits call).encryption, ?_, ?_, ?_⟩
    · unfold Engine.run Engine.write
      simp [Op.readsOnly, Op.rule, Rules.commitRewrite, Rules.check, Caller.mustWrite, hrole,
        hstate', answering, Except.map]
    · simp [Rules.encryption, hstate', WorkspaceRecord.seal?]
    · simp [Rules.encryption, hstate', WorkspaceRecord.seal?]

/-! ## Requests that name no attempt -/

/-- The workspace once the lease of its session is renewed for a key. -/
def renewed (limits : Limits) (w : World) (call : Call) (session : Session) (caller : Caller) :
    World :=
  { w with record := { w.record with
      state := .rewriting { session with
        holder := caller.key
        leaseExpiresAt := wrappingAdd call.now limits.leaseSecs } } }

/-- The workspace once its header is replaced. -/
def reheaded (w : World) (worn : Seal) (header : Bytes) : World :=
  { w with record := { w.record with state := .settled (some { worn with header }) } }

section Sent

variable {w : World} {caller : Caller}

/-- An operation whose rule is done. -/
theorem exec_done {op : Op} {call : Call} {a : Answer} {r : Rules} (hwrites : op.readsOnly = false)
    (h : op.rule (w.rules limits call) = (.ok a, r)) :
    w.exec limits (.request call op) = ⟨r.record, r.shelf, w.pending ++ r.after⟩ := by
  show (Engine.run w limits call op).2 = _
  rw [Engine.run, hwrites, if_neg Bool.false_ne_true, Engine.write, h]

/-- An operation whose rule refuses, and has not touched the shelf. -/
theorem exec_refused {op : Op} {call : Call} {e : ApiError} (hwrites : op.readsOnly = false)
    (h : op.rule (w.rules limits call) = (.error e, w.rules limits call)) :
    w.exec limits (.request call op) = w := by
  show (Engine.run w limits call op).2 = _
  rw [Engine.run, hwrites, if_neg Bool.false_ne_true, Engine.write, h]
  rfl

omit [Crates] in
/-- A lease that is renewed is answered. -/
theorem renewLease_answers {r : Rules} {session : Session} (holder : ApiKeyId)
    (hstate : r.record.state = .rewriting session) :
    ∃ view, (r.renewLease holder).answerSession = (.ok view, r.renewLease holder) := by
  rw [Rules.renewLease_eq hstate]
  exact ⟨_, rfl⟩

omit [Crates] in
theorem renewLease_rules {call : Call} {session : Session}
    (hstate : w.record.state = .rewriting session) :
    (⟨((w.rules limits call).renewLease caller.key).record,
      ((w.rules limits call).renewLease caller.key).shelf,
      w.pending ++ ((w.rules limits call).renewLease caller.key).after⟩ : World) =
      w.renewed limits call session caller := by
  have hstate' : (w.rules limits call).record.state = .rewriting session := hstate
  rw [Rules.renewLease_eq hstate']
  show (⟨_, w.shelf, w.pending ++ []⟩ : World) = _
  rw [List.append_nil]
  rfl

/-- A heartbeat of a key that may write renews the lease of a session which that key holds, and
is refused for another one. -/
theorem exec_heartbeat {session : Session} (call : Call) (hrole : caller.role = .readWrite)
    (hstate : w.record.state = .rewriting session) :
    w.exec limits (.request call (.heartbeatRewrite caller)) =
      if session.holder = caller.key then w.renewed limits call session caller else w := by
  have hstate' : (w.rules limits call).record.state = .rewriting session := hstate
  have hmust : caller.mustWrite = .ok () := by rw [Caller.mustWrite, hrole]
  by_cases hholder : session.holder = caller.key
  · rw [if_pos hholder, ← renewLease_rules hstate]
    obtain ⟨view, hview⟩ := renewLease_answers caller.key hstate'
    refine exec_done (a := .session view) rfl ?_
    simp [Op.rule, answering, Rules.heartbeatRewrite, Rules.check, hmust,
      WorkspaceRecord.heldSession, hstate', hholder, hview, Except.map]
  · rw [if_neg hholder]
    refine exec_refused (e := .leaseHeld) rfl ?_
    simp [Op.rule, answering, Rules.heartbeatRewrite, Rules.check, hmust,
      WorkspaceRecord.heldSession, hstate', hholder, Except.map]

/-- So does a take-over, and it takes over a session whose lease has ended. -/
theorem exec_takeOver {session : Session} (call : Call) (hrole : caller.role = .readWrite)
    (hstate : w.record.state = .rewriting session) :
    w.exec limits (.request call (.takeOverRewrite caller)) =
      if session.holder = caller.key ∨ session.leaseExpiresAt ≤ call.now then
        w.renewed limits call session caller
      else w := by
  have hstate' : (w.rules limits call).record.state = .rewriting session := hstate
  have hnow : (w.rules limits call).now = call.now := rfl
  have hmust : caller.mustWrite = .ok () := by rw [Caller.mustWrite, hrole]
  by_cases hmay : session.holder = caller.key ∨ session.leaseExpiresAt ≤ call.now
  · rw [if_pos hmay, ← renewLease_rules hstate]
    obtain ⟨view, hview⟩ := renewLease_answers caller.key hstate'
    have hfree : ¬(session.holder ≠ caller.key ∧ call.now < session.leaseExpiresAt) := by
      rintro ⟨hother, hheld⟩
      rcases hmay with hholder | hended
      · exact hother hholder
      · exact absurd hheld (Nat.not_lt.mpr hended)
    refine exec_done (a := .session view) rfl ?_
    simp only [Op.rule, answering, Rules.takeOverRewrite, Rules.check, hmust, hstate', hnow,
      if_neg hfree, hview, Except.map]
  · rw [if_neg hmay]
    have hheld : session.holder ≠ caller.key ∧ call.now < session.leaseExpiresAt := by
      rw [not_or, Nat.not_le] at hmay
      exact hmay
    refine exec_refused (e := .leaseHeld) rfl ?_
    simp only [Op.rule, answering, Rules.takeOverRewrite, Rules.check, hmust, hstate', hnow,
      if_pos hheld, Except.map]

/-- A header is written where no session is open, under the key it names. -/
theorem exec_replaceHeader (call : Call) (hrole : caller.role = .readWrite) (keyId : KeyId)
    (header : Bytes) :
    w.exec limits (.request call (.replaceHeader caller keyId header)) =
      match w.record.state with
      | .settled (some worn) => if worn.keyId = keyId then w.reheaded worn header else w
      | _ => w := by
  have hmust : caller.mustWrite = .ok () := by rw [Caller.mustWrite, hrole]
  cases hstate : w.record.state with
  | rewriting session =>
    have hstate' : (w.rules limits call).record.state = .rewriting session := hstate
    refine exec_refused (e := .rewriteInProgress) rfl ?_
    simp only [Op.rule, answering, Rules.replaceHeader, Rules.check, hmust, hstate', Except.map]
  | settled sealed =>
    have hstate' : (w.rules limits call).record.state = .settled sealed := hstate
    cases sealed with
    | none =>
      refine exec_refused (e := .invalidRequest "the workspace is not encrypted") rfl ?_
      simp only [Op.rule, answering, Rules.replaceHeader, Rules.check, hmust, hstate', Except.map]
    | some worn =>
      by_cases hkey : worn.keyId = keyId
      · simp only [hkey, if_true]
        have hrule : ∃ view, (Op.replaceHeader caller keyId header).rule (w.rules limits call) =
            (.ok (.encryption view), (w.reheaded worn header).rules limits call) := by
          refine ⟨((w.reheaded worn header).rules limits call).encryption, ?_⟩
          simp only [Op.rule, answering, Rules.replaceHeader, Rules.check, hmust, hstate',
            if_neg (not_not.mpr hkey), Except.map]
          rfl
        obtain ⟨view, hview⟩ := hrule
        rw [exec_done rfl hview]
        show (⟨_, w.shelf, w.pending ++ []⟩ : World) = _
        rw [List.append_nil]
        rfl
      · simp only [hkey, if_false]
        refine exec_refused (e := .keyIdMismatch) rfl ?_
        simp [Op.rule, answering, Rules.replaceHeader, Rules.check, hmust, hstate', hkey,
          Except.map]

end Sent

/-- A heartbeat or a take-over that was accepted, and a header that was, came from a key that may
write. -/
theorem Accepted.role {op : Op} {caller : Caller} (h : Accepted limits es op)
    (hop : op = .heartbeatRewrite caller ∨ op = .takeOverRewrite caller ∨
      ∃ keyId header, op = .replaceHeader caller keyId header) : caller.role = .readWrite := by
  obtain ⟨before, call, later, a, rfl, hok⟩ := h
  obtain ⟨rec, shelf, after, hchange, -⟩ := Engine.run_ok hok
  rcases hop with rfl | rfl | ⟨keyId, header, rfl⟩
  · cases hchange with
    | kept hdone => cases hdone
    | sealed _ _ hop _ => rcases hop with hop | hop <;> cases hop
    | renewed _ hrenews hwrite =>
      obtain ⟨rfl, -⟩ := hrenews
      exact hwrite
    | restored _ haborts => cases haborts
  · cases hchange with
    | kept hdone => cases hdone
    | sealed _ _ hop _ => rcases hop with hop | hop <;> cases hop
    | renewed _ hrenews hwrite =>
      obtain ⟨rfl, -⟩ := hrenews
      exact hwrite
    | restored _ haborts => cases haborts
  · cases hchange with
    | kept hdone => cases hdone
    | sealed _ _ hop _ => rcases hop with hop | hop <;> cases hop
    | reheaded _ hwrite => exact hwrite
    | renewed _ hrenews _ => cases hrenews
    | restored _ haborts => cases haborts

/-- **What a late copy of an accepted heartbeat, take-over or header does**: nothing, or what the
request would do if it were sent now. -/
structure TakenForNew (limits : Limits) (es : List Event) : Prop where
  /-- A heartbeat renews the lease of a session that its key holds. -/
  heartbeat : ∀ call caller session, Accepted limits es (.heartbeatRewrite caller) →
    (initial.run limits es).record.state = .rewriting session →
    (initial.run limits es).exec limits (.request call (.heartbeatRewrite caller)) =
      if session.holder = caller.key then
        (initial.run limits es).renewed limits call session caller
      else initial.run limits es
  /-- So does a take-over, and takes over a session whose lease has ended. -/
  takeOver : ∀ call caller session, Accepted limits es (.takeOverRewrite caller) →
    (initial.run limits es).record.state = .rewriting session →
    (initial.run limits es).exec limits (.request call (.takeOverRewrite caller)) =
      if session.holder = caller.key ∨ session.leaseExpiresAt ≤ call.now then
        (initial.run limits es).renewed limits call session caller
      else initial.run limits es
  /-- A header is written again while no session is open, under the key it names. -/
  replaceHeader : ∀ call caller keyId header,
    Accepted limits es (.replaceHeader caller keyId header) →
    (initial.run limits es).exec limits (.request call (.replaceHeader caller keyId header)) =
      match (initial.run limits es).record.state with
      | .settled (some worn) =>
        if worn.keyId = keyId then (initial.run limits es).reheaded worn header
        else initial.run limits es
      | _ => initial.run limits es

/-- **A late request that names no attempt is taken for a new one**, after any run. -/
theorem late_run (limits : Limits) (es : List Event) : TakenForNew limits es where
  heartbeat call _ _ haccepted hstate :=
    exec_heartbeat call (haccepted.role (.inl rfl)) hstate
  takeOver call _ _ haccepted hstate :=
    exec_takeOver call (haccepted.role (.inr (.inl rfl))) hstate
  replaceHeader call _ keyId header haccepted :=
    exec_replaceHeader call (haccepted.role (.inr (.inr ⟨keyId, header, rfl⟩))) keyId header

end World

end

/-! ## Evaluated runs -/

namespace Sample

def keyC : KeyId := ⟨[12], by decide⟩

/-- A rewrite to a second key, committed. -/
def rotated : List Event :=
  [.request (call 0 []) (.enableEncryption laptop keyA []),
    .request (call 0 []) (.beginRewrite laptop ⟨.rotate, some keyA, keyB, []⟩),
    .request (call 0 []) (.commitRewrite laptop keyB)]

/-- A rewrite is taken over by a phone and aborted, and the laptop begins another one. -/
def reopened : List Event :=
  [.request (call 0 []) (.enableEncryption laptop keyA []),
    .request (call 0 []) (.beginRewrite laptop ⟨.rotate, some keyA, keyB, []⟩),
    .request (call 5 []) (.heartbeatRewrite laptop),
    .request (call 20 []) (.takeOverRewrite phone),
    .request (call 21 []) (.abortRewrite phone keyB),
    .request (call 22 []) (.beginRewrite laptop ⟨.rotate, some keyA, keyC, []⟩)]

/-- The words are changed twice. -/
def reworded : List Event :=
  [.request (call 0 []) (.enableEncryption laptop keyA []),
    .request (call 1 []) (.replaceHeader laptop keyA [1]),
    .request (call 2 []) (.replaceHeader laptop keyA [2])]

/-- The session of the second rewrite. -/
def reopenedSession (holder : Caller) (lease : Nat) : Session where
  kind := .rotate
  prior := some ⟨keyA, []⟩
  next := ⟨keyC, []⟩
  holder := holder.key
  leaseExpiresAt := lease
  stagedGeneration := 2

end Sample

/-- The begin of the committed rewrite arrives again. -/
theorem World.harmless_begun :
    World.Untouched (@World.run Sample.crates Sample.limits .initial Sample.rotated)
      (@World.exec Sample.crates Sample.limits
        (@World.run Sample.crates Sample.limits .initial Sample.rotated)
        (.request (Sample.call 9 [])
          (.beginRewrite Sample.laptop ⟨.rotate, some Sample.keyA, Sample.keyB, []⟩))) :=
  (@World.harmless_run Sample.crates Sample.limits Sample.rotated (Sample.call 9 [])
    (.beginRewrite Sample.laptop ⟨.rotate, some Sample.keyA, Sample.keyB, []⟩)
    (by decide) (by decide +kernel)
    ⟨⟨Sample.rotated.take 2, Sample.rotated.drop 2, rfl,
        ⟨.rotate, some ⟨Sample.keyA, []⟩, ⟨Sample.keyB, []⟩, Sample.laptop.key, 10, 1⟩,
        by decide +kernel, rfl⟩,
      by
        rintro ⟨session, hstate, -⟩
        have hsettled : (@World.run Sample.crates Sample.limits .initial
            Sample.rotated).record.state = .settled (some ⟨Sample.keyB, []⟩) := by
          decide +kernel
        rw [hsettled] at hstate
        cases hstate⟩).1

/-- A heartbeat and a take-over of the first rewrite arrive during the second one, and the
first header after the second one: the lease is renewed, the session is taken over, and
the first header is back. -/
theorem World.late_undone :
    let run := @World.run Sample.crates Sample.limits .initial
    (run Sample.reopened).record.state =
        .rewriting (Sample.reopenedSession Sample.laptop 32) ∧
      (run (Sample.reopened ++ [.request (Sample.call 25 [])
        (.heartbeatRewrite Sample.laptop)])).record.state =
          .rewriting (Sample.reopenedSession Sample.laptop 35) ∧
      (run (Sample.reopened ++ [.request (Sample.call 40 [])
        (.takeOverRewrite Sample.phone)])).record.state =
          .rewriting (Sample.reopenedSession Sample.phone 50) ∧
      (run Sample.reworded).record.state = .settled (some ⟨Sample.keyA, [2]⟩) ∧
      (run (Sample.reworded ++ [.request (Sample.call 3 [])
        (.replaceHeader Sample.laptop Sample.keyA [1])])).record.state =
          .settled (some ⟨Sample.keyA, [1]⟩) := by
  decide +kernel

end Passalong
