import Passalong.Steps

/-!
# Read-only keys (`workspace.rs`, `upload.rs`, `handlers/viewer.rs`)

A key that may only read changes nothing, whatever it sends (`readOnly_run`). Most
operations look at the role. Three do not and go by the owner of an upload; a ticket is
given to a key that may write, so every upload and every outcome has such an owner
(`Owned`).
-/

namespace Passalong

open Lib

/-- Who sends an operation. What the janitor, an operator or an opening does is sent by
no key. -/
def Op.caller? : Op → Option Caller
  | .deleteItem caller .. | .enableEncryption caller .. | .freshStart caller ..
  | .replaceHeader caller .. | .beginUpload caller .. | .putUploadContent caller ..
  | .commitUpload caller .. | .abortUpload caller .. | .probeWrite caller
  | .beginRewrite caller .. | .heartbeatRewrite caller | .takeOverRewrite caller
  | .commitRewrite caller .. | .abortRewrite caller .. => some caller
  | .operatorAbortRewrite _ | .cleanStaging | .reconcile => none

/-- What a server deals with. -/
inductive Turn (α : Type) where
  | event (e : Event)
  /-- The handler of `cleanStaging`, which looks at the role itself. -/
  | cleanStaging (call : Call) (caller : Caller)
  /-- An operation that only reads, as what it makes of the record and the shelf. -/
  | read (call : Call) (caller : Caller) (rule : Rules → α)

namespace Turn

variable {α : Type}

/-- The key that sent it, if any did. -/
def caller? : Turn α → Option Caller
  | .event (.request _ op) | .event (.cut _ op _) => op.caller?
  | .event _ => none
  | .cleanStaging _ caller | .read _ caller _ => some caller

def readOnly (t : Turn α) : Bool := t.caller?.any fun caller => caller.role = .readOnly

variable [Crates]

/-- What a server does. -/
def exec (limits : Limits) (w : World) : Turn α → World
  | .event e => w.exec limits e
  | .cleanStaging call caller =>
    if caller.role = .readOnly then w else (Engine.run w limits call .cleanStaging).2
  | .read _ _ _ => w

/-- What it answers, if it is asked anything. -/
def answer (limits : Limits) (w : World) : Turn α → List (Except ApiError (Answer ⊕ α))
  | .event (.request call op) => [(Engine.run w limits call op).1.map .inl]
  | .event _ => []
  | .cleanStaging call caller =>
    if caller.role = .readOnly then [.error .forbiddenRole]
    else [(Engine.run w limits call .cleanStaging).1.map .inl]
  | .read call _ rule => [.ok (.inr (rule (w.rules limits call)))]

/-- What those are answered in a run who may write. -/
def answers (limits : Limits) (w : World) (ts : List (Turn α)) :
    List (Except ApiError (Answer ⊕ α)) :=
  Runs.history (exec limits) (fun w t => if t.readOnly then [] else t.answer limits w) w ts

end Turn

/-! ## Who owns uploads -/

/-- Every upload, and every outcome, is of a key that may write. -/
structure WorkspaceRecord.Owned (roles : ApiKeyId → Role) (rec : WorkspaceRecord) : Prop where
  ticket : ∀ (u : UploadId) (ticket : Ticket), rec.tickets[u]? = some ticket →
    roles ticket.owner = .readWrite
  stone : ∀ (u : UploadId) (stone : Tombstone), rec.tombstones[u]? = some stone →
    roles stone.owner = .readWrite

namespace WorkspaceRecord

variable {roles : ApiKeyId → Role} {rec rec' : WorkspaceRecord}

theorem owned_initial : Owned roles initial where
  ticket := by
    intro u ticket h
    rw [show initial.tickets = ∅ from rfl, Std.ExtTreeMap.getElem?_empty] at h
    cases h
  stone := by
    intro u stone h
    rw [show initial.tombstones = ∅ from rfl, Std.ExtTreeMap.getElem?_empty] at h
    cases h

/-- Fewer tickets and fewer outcomes are owned so. -/
theorem Owned.fewer (h : Owned roles rec)
    (htickets : ∀ (u : UploadId) (ticket : Ticket), rec'.tickets[u]? = some ticket →
      rec.tickets[u]? = some ticket)
    (hstones : ∀ (u : UploadId) (stone : Tombstone), rec'.tombstones[u]? = some stone →
      rec.tombstones[u]? = some stone) : Owned roles rec' where
  ticket := fun u ticket hticket => h.ticket u ticket (htickets u ticket hticket)
  stone := fun u stone hstone => h.stone u stone (hstones u stone hstone)

/-- An upload that finishes leaves its outcome to its owner. -/
theorem Owned.finished (h : Owned roles rec) (htickets : rec'.tickets = rec.tickets)
    (hstones : rec'.tombstones = rec.tombstones) {u : UploadId} {ticket : Ticket}
    (hticket : rec.tickets[u]? = some ticket) {stone : Tombstone}
    (howner : stone.owner = ticket.owner) : Owned roles (rec'.finished u stone) where
  ticket := by
    intro v ticket' hv
    change (rec'.tickets.erase u)[v]? = some ticket' at hv
    rw [htickets] at hv
    exact h.ticket v ticket' (Map.get_of_get_erase hv)
  stone := by
    intro v stone' hv
    change (rec'.tombstones.insert u stone)[v]? = some stone' at hv
    rw [Map.get_insert, hstones] at hv
    split at hv
    · cases hv
      rw [howner]
      exact h.ticket u ticket hticket
    · exact h.stone v stone' hv

/-- A key that may not write has no upload and no outcome. -/
theorem Owned.ticket_other (h : Owned roles rec) {caller : Caller}
    (hrole : roles caller.key = .readOnly) {u : UploadId} {ticket : Ticket}
    (hticket : rec.tickets[u]? = some ticket) : ticket.owner ≠ caller.key := by
  intro howner
  have hwrite := h.ticket u ticket hticket
  rw [howner, hrole] at hwrite
  cases hwrite

theorem Owned.no_ticket (h : Owned roles rec) {caller : Caller}
    (hrole : roles caller.key = .readOnly) (now : Nat) (u : UploadId) :
    rec.liveTicket now caller u = none := by
  cases hlive : rec.liveTicket now caller u with
  | none => rfl
  | some ticket =>
    obtain ⟨hticket, howner, -⟩ := liveTicket_eq_some hlive
    exact absurd howner (h.ticket_other hrole hticket)

theorem Owned.no_stone (h : Owned roles rec) {caller : Caller}
    (hrole : roles caller.key = .readOnly) (now : Nat) (u : UploadId) :
    rec.tombstone now caller u = none := by
  cases hstone : rec.tombstone now caller u with
  | none => rfl
  | some stone =>
    obtain ⟨hget, hp⟩ := Option.filter_eq_some_iff.mp hstone
    simp only [Bool.and_eq_true, decide_eq_true_eq] at hp
    have hwrite := h.stone u stone hget
    rw [hp.1, hrole] at hwrite
    cases hwrite

end WorkspaceRecord

section
variable [Crates] {roles : ApiKeyId → Role}

/-- **Uploads are owned by keys that may write, over every change.** -/
theorem Change.owned {r : Rules} {op : Op} {a : Answer} {rec : WorkspaceRecord}
    {shelf : MemoryShelf} {after : List Cleanup} (h : Change r op a rec shelf after)
    (ho : r.record.Owned roles)
    (hroles : ∀ caller, op.caller? = some caller → roles caller.key = caller.role) :
    rec.Owned roles := by
  cases h with
  | @begun caller request g u _ _ _ _ _ _ hwrite =>
    refine ⟨fun v ticket hticket => ?_, ho.stone⟩
    change (r.record.tickets.insert u _)[v]? = some ticket at hticket
    rw [Map.get_insert] at hticket
    split at hticket
    · cases hticket
      exact (hroles caller rfl).trans hwrite
    · exact ho.ticket v ticket hticket
  | duplicate hticket _ _ _ =>
    exact ho.finished rfl rfl (WorkspaceRecord.liveTicket_eq_some hticket).1 rfl
  | published hticket _ _ _ _ _ _ =>
    refine ho.finished ?_ ?_ (WorkspaceRecord.liveTicket_eq_some hticket).1 ?_ <;> rfl
  | recovered hticket _ _ _ _ =>
    refine ho.finished ?_ ?_ (WorkspaceRecord.liveTicket_eq_some hticket).1 ?_ <;> rfl
  | stored _ _ => exact ho.fewer (fun _ _ => Map.get_of_get_filter) fun _ _ => id
  | aborted => exact ho.fewer (fun _ _ => Map.get_of_get_filter) fun _ _ => id
  | switched _ _ _ _ _ => exact ho.fewer (fun _ _ => Map.get_of_get_filter) fun _ _ => id
  | restored _ _ => exact ho.fewer (fun _ _ => Map.get_of_get_filter) fun _ _ => id
  | cleaned =>
    exact ho.fewer (fun _ _ => Map.get_of_get_filter) fun _ _ => Map.get_of_get_filter
  | reconciled =>
    exact ho.fewer (fun _ _ => Map.get_of_get_filter) fun _ _ => Map.get_of_get_filter
  | _ => exact ⟨ho.ticket, ho.stone⟩

/-! ## What a read-only key can do -/

omit [Crates] in
/-- Where no ticket is picked nothing is given up. -/
theorem Rules.giveUp_none {r : Rules} {p : UploadId → Ticket → Bool}
    (hnone : ∀ (v : UploadId) (ticket : Ticket), r.record.tickets[v]? = some ticket →
      p v ticket = false) : r.giveUp p = r := by
  have hkept : (r.record.tickets.filter fun v ticket => !p v ticket) = r.record.tickets :=
    Map.filter_same fun v ticket hticket => by rw [hnone v ticket hticket]; rfl
  have hempty : r.record.tickets.filter p = ∅ := by
    refine Map.eq_empty_of_get fun v => ?_
    rw [Map.get_filter]
    cases hticket : r.record.tickets[v]? with
    | none => rfl
    | some ticket => rw [Option.filter_some, hnone v ticket hticket]; rfl
  unfold Rules.giveUp
  rw [hkept, hempty, Std.ExtTreeMap.keys_eq_nil_iff.mpr rfl, List.map_nil, List.append_nil]

/-- **A rule run for a key that may not write leaves everything as it is.** -/
theorem Op.readOnly_rule {op : Op} {r : Rules} {caller : Caller} (ho : r.record.Owned roles)
    (hcaller : op.caller? = some caller) (hrole : caller.role = .readOnly)
    (hkey : roles caller.key = .readOnly) : ∃ a, op.rule r = (a, r) := by
  have hmust : caller.mustWrite = .error .forbiddenRole := by rw [Caller.mustWrite, hrole]
  cases op with
  | putUploadContent caller' u content =>
    cases hcaller
    refine ⟨.error .notFound, ?_⟩
    simp only [Op.rule, Rules.putUploadContent]
    rw [ho.no_stone hkey, ho.no_ticket hkey]
    rfl
  | commitUpload caller' u =>
    cases hcaller
    refine ⟨.error .notFound, ?_⟩
    simp only [Op.rule, Rules.commitUpload]
    rw [ho.no_stone hkey, ho.no_ticket hkey]
    rfl
  | abortUpload caller' u =>
    cases hcaller
    -- no ticket is the caller's, so none is picked
    have hsame : (r.abortUpload caller u).2 = r := by
      refine Rules.giveUp_none fun v ticket hticket => ?_
      have hne := ho.ticket_other hkey hticket
      simp [hne]
    refine ⟨.ok .done, ?_⟩
    show (Except.ok Answer.done, (r.abortUpload caller u).2) = _
    rw [hsame]
  | freshStart caller' keyId header =>
    cases hcaller
    exact ⟨.error .forbiddenRole, by
      simp [Op.rule, Rules.freshStart, Rules.settle, Rules.check, hmust, answering, Except.map]⟩
  | enableEncryption caller' keyId header =>
    cases hcaller
    exact ⟨.error .forbiddenRole, by
      simp [Op.rule, Rules.enableEncryption, Rules.settle, Rules.check, hmust, answering,
        Except.map]⟩
  | probeWrite caller' =>
    cases hcaller
    exact ⟨.error .forbiddenRole, by
      simp [Op.rule, Rules.probeWrite, Rules.probeAllowed, Rules.check, hmust, answering,
        Except.map]⟩
  | deleteItem caller' partition id expected =>
    cases hcaller
    exact ⟨.error .forbiddenRole, by
      simp [Op.rule, Rules.deleteItem, Rules.check, hmust, answering, Except.map]⟩
  | replaceHeader caller' expected header =>
    cases hcaller
    exact ⟨.error .forbiddenRole, by
      simp [Op.rule, Rules.replaceHeader, Rules.check, hmust, answering, Except.map]⟩
  | beginUpload caller' request =>
    cases hcaller
    exact ⟨.error .forbiddenRole, by
      simp [Op.rule, Rules.beginUpload, Rules.check, hmust, answering, Except.map]⟩
  | beginRewrite caller' request =>
    cases hcaller
    exact ⟨.error .forbiddenRole, by
      simp [Op.rule, Rules.beginRewrite, Rules.check, hmust, answering, Except.map]⟩
  | heartbeatRewrite caller' =>
    cases hcaller
    exact ⟨.error .forbiddenRole, by
      simp [Op.rule, Rules.heartbeatRewrite, Rules.check, hmust, answering, Except.map]⟩
  | takeOverRewrite caller' =>
    cases hcaller
    exact ⟨.error .forbiddenRole, by
      simp [Op.rule, Rules.takeOverRewrite, Rules.check, hmust, answering, Except.map]⟩
  | commitRewrite caller' newKeyId =>
    cases hcaller
    exact ⟨.error .forbiddenRole, by
      simp [Op.rule, Rules.commitRewrite, Rules.check, hmust, answering, Except.map]⟩
  | abortRewrite caller' newKeyId =>
    cases hcaller
    exact ⟨.error .forbiddenRole, by
      simp [Op.rule, Rules.abortRewrite, Rules.check, hmust, answering, Except.map]⟩
  | operatorAbortRewrite force => cases hcaller
  | cleanStaging => cases hcaller
  | reconcile => cases hcaller

/-- **So does the operation**, answered or cut. -/
theorem Op.readOnly_engine {op : Op} {w : World} {limits : Limits} {call : Call} {caller : Caller}
    (ho : w.record.Owned roles) (hcaller : op.caller? = some caller)
    (hrole : caller.role = .readOnly) (hkey : roles caller.key = .readOnly) :
    (Engine.run w limits call op).2 = w ∧
      ∀ steps, op.cutShelf (w.rules limits call) steps = w.shelf := by
  have hrules : (w.rules limits call).record.Owned roles := ho
  obtain ⟨a, ha⟩ := Op.readOnly_rule hrules hcaller hrole hkey
  constructor
  · unfold Engine.run Engine.read Engine.write
    rw [ha]
    split
    · rfl
    · cases a with
      | error e => rfl
      | ok a =>
        show (⟨w.record, w.shelf, w.pending ++ []⟩ : World) = w
        rw [List.append_nil]
  · intro steps
    by_cases hprobe : op = .probeWrite caller
    · subst hprobe
      have hmust : caller.mustWrite = .error .forbiddenRole := by rw [Caller.mustWrite, hrole]
      simp only [Op.cutShelf]
      split
      · rw [Rules.probeAllowed, hmust]
        rfl
      · rfl
    · have hcut : op.cutShelf (w.rules limits call) steps =
          if steps = 0 then w.shelf else (op.rule (w.rules limits call)).2.shelf := by
        cases op with
        | probeWrite caller' =>
          cases hcaller
          exact absurd rfl hprobe
        | _ => rfl
      rw [hcut, ha]
      exact ite_self _

namespace Turn

variable {α : Type} {limits : Limits} {w : World}

/-- Every key that sends anything has the role it has. -/
def Fits (roles : ApiKeyId → Role) (t : Turn α) : Prop :=
  ∀ caller, t.caller? = some caller → roles caller.key = caller.role

/-- **A read-only key changes nothing.** -/
theorem readOnly_exec {t : Turn α} (ho : w.record.Owned roles) (hfits : t.Fits roles)
    (hread : t.readOnly = true) : t.exec limits w = w := by
  obtain ⟨caller, hcaller, hrole⟩ : ∃ caller, t.caller? = some caller ∧
      caller.role = .readOnly := by
    unfold readOnly at hread
    cases hc : t.caller? with
    | none =>
      rw [hc] at hread
      cases hread
    | some caller =>
      rw [hc] at hread
      exact ⟨caller, rfl, by simpa using hread⟩
  have hkey := (hfits caller hcaller).trans hrole
  cases t with
  | event e =>
    cases e with
    | request call op => exact (Op.readOnly_engine ho hcaller hrole hkey).1
    | cut call op steps =>
      show ({ w with shelf := op.cutShelf (w.rules limits call) steps } : World) = w
      rw [(Op.readOnly_engine ho hcaller hrole hkey).2 steps]
    | cleanup i => cases hcaller
    | lose i => cases hcaller
    | lateWrite u content announced hashed => cases hcaller
  | cleanStaging call caller' =>
    cases hcaller
    exact if_pos hrole
  | read call caller' rule => rfl

theorem owned_exec {t : Turn α} (ho : w.record.Owned roles) (hfits : t.Fits roles) :
    (t.exec limits w).record.Owned roles := by
  have hevent : ∀ e : Event, (∀ caller, (Turn.event (α := α) e).caller? = some caller →
      roles caller.key = caller.role) → (w.exec limits e).record.Owned roles := by
    intro e hroles
    generalize hw : w.exec limits e = w'
    have hstep := w.exec_step limits e
    rw [hw] at hstep
    cases hstep with
    | done _ hchange => exact hchange.owned ho hroles
    | _ => exact ho
  cases t with
  | event e => exact hevent e hfits
  | cleanStaging call caller =>
    simp only [exec]
    split
    · exact ho
    · refine hevent (.request call .cleanStaging) ?_
      rintro caller' ⟨⟩
  | read call caller rule => exact ho

/-- **Without the read-only keys, everything goes the same**: in every run, what such a
key sends leaves record, items, staging places and clean-ups as they are, and taking all
of it out changes no answer that anyone else gets, and nothing in the end. -/
theorem readOnly_run (limits : Limits) (roles : ApiKeyId → Role) (ts : List (Turn α))
    (hroles : ∀ t ∈ ts, t.Fits roles) :
    (∀ before t after, ts = before ++ t :: after → t.readOnly = true →
      t.exec limits (Runs.run (exec limits) .initial before) =
        Runs.run (exec limits) .initial before) ∧
    answers limits .initial ts = answers limits .initial (ts.filter fun t => !t.readOnly) ∧
    Runs.run (exec limits) .initial ts =
      Runs.run (exec limits) .initial (ts.filter fun t => !t.readOnly) := by
  have howned : ∀ {us : List (Turn α)}, (∀ t ∈ us, t.Fits roles) →
      (Runs.run (exec limits) .initial us).record.Owned roles := fun hus =>
    Runs.invariant (exec limits) (P := fun _ t => t.Fits roles)
      (I := fun w => w.record.Owned roles) (fun _ _ ho hf => owned_exec ho hf)
      WorkspaceRecord.owned_initial (Runs.along_of_forall _ hus)
  refine ⟨?_, ?_⟩
  · rintro before t after rfl hread
    refine readOnly_exec (howned fun u hu => hroles u (List.mem_append_left _ hu)) ?_ hread
    exact hroles t (List.mem_append_right _ List.mem_cons_self)
  · -- the two runs are in the same state all along
    have hsame : ∀ w : World, w.record.Owned roles →
        answers limits w ts = answers limits w (ts.filter fun t => !t.readOnly) ∧
        Runs.run (exec limits) w ts =
          Runs.run (exec limits) w (ts.filter fun t => !t.readOnly) := by
      induction ts with
      | nil => exact fun _ _ => ⟨rfl, rfl⟩
      | cons t ts ih =>
        intro w ho
        have hfits := hroles t List.mem_cons_self
        have hrest := ih fun u hu => hroles u (List.mem_cons_of_mem _ hu)
        by_cases hread : t.readOnly = true
        · have hexec : t.exec limits w = w := readOnly_exec ho hfits hread
          obtain ⟨hanswers, hrun⟩ := hrest w ho
          rw [List.filter_cons_of_neg (by simp [hread])]
          refine ⟨?_, ?_⟩
          · show (if t.readOnly then [] else t.answer limits w) ++
              answers limits (t.exec limits w) ts = _
            rw [hexec, if_pos hread, List.nil_append]
            exact hanswers
          · show Runs.run (exec limits) (t.exec limits w) ts = _
            rw [hexec]
            exact hrun
        · obtain ⟨hanswers, hrun⟩ := hrest (t.exec limits w) (owned_exec ho hfits)
          rw [List.filter_cons_of_pos (by simp [hread])]
          refine ⟨?_, hrun⟩
          show _ ++ answers limits (t.exec limits w) ts = _ ++ _
          rw [hanswers]
          rfl
    exact hsame .initial WorkspaceRecord.owned_initial

end Turn

end

namespace Sample

/-- A device that may only read. -/
def kiosk : Caller := ⟨⟨"kiosk"⟩, .readOnly⟩

/-- A laptop stores a note while a kiosk tries what it can. -/
def visited : List (Turn (List ItemId)) :=
  [.event (.request (call 0 [1]) (.beginUpload laptop (request 2 none))),
    .event (.request (call 0 [2]) (.beginUpload kiosk (request 2 none))),
    .event (.request (call 0 []) (.putUploadContent laptop (upload 1) [.piece [1, 2]])),
    .event (.request (call 0 []) (.putUploadContent kiosk (upload 1) [.piece [3, 4]])),
    .event (.request (call 0 []) (.abortUpload kiosk (upload 1))),
    .cleanStaging (call 99 []) kiosk,
    .event (.request (call 0 []) (.commitUpload laptop (upload 1))),
    .read (call 0 []) kiosk fun r => r.shelf.ids r.record.generation]

end Sample

/-- The kiosk leaves the note what it is. -/
theorem Turn.readOnly_visited :
    let run := Runs.run (@Turn.exec (List ItemId) Sample.crates Sample.limits) .initial
    run Sample.visited = run (Sample.visited.filter fun t => !t.readOnly) ∧
      ((run Sample.visited).shelf.generation 0)[Sample.note]?.map Item.content =
        some [1, 2] :=
  ⟨(@Turn.readOnly_run Sample.crates (List ItemId) Sample.limits
    (fun key => if key = Sample.kiosk.key then .readOnly else .readWrite) Sample.visited
    (by
      intro t ht caller hcaller
      simp only [Sample.visited, List.mem_cons, List.not_mem_nil, or_false] at ht
      rcases ht with rfl | rfl | rfl | rfl | rfl | rfl | rfl | rfl <;> cases hcaller <;>
        decide)).2.2,
    by decide +kernel⟩

end Passalong
