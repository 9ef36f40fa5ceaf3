import Passalong.Engines
import Passalong.KeyLife
import Passalong.ReadOnly
import Passalong.Stack

/-!
# From the token to the engine (`auth.rs`, `handlers/`)

A request goes through the bearer layer first: its token is looked up in the control database,
and what is found stays with the request. Its handler then asks the engine of the key's
workspace, any number of times, in the name of the key. In between the operator's commands
change the database, and the server itself asks engines for its own purposes.

`entitled_run`: whatever the order of all that, an engine is only ever asked by the server
itself, in nobody's name, or by a request whose token is that of a key which a command had
returned for this very workspace, and which was neither revoked nor expired nor gone when the
request arrived. A token opens no other workspace, and no handler speaks in another key's name
or with another role.

The engines see nothing of this but events, as long as no workspace is deleted (`stack_run`), so
that what is proved of any run of the `Stack` holds of the runs here. What else can happen while
a workspace is deleted is in `Engines`.
-/

namespace Passalong

open Lib

/-! ## Who asks -/

/-- The key in whose name a question is asked. -/
def Query.caller? : Query → Option Caller
  | .stagedItemIds caller | .stagedItem caller _ | .stagedItemContentFrom caller _ _
  | .uploadState caller _ => some caller
  | _ => none

/-- The key in whose name an engine is asked. -/
def ServerEvent.caller? : ServerEvent → Option Caller
  | .request _ op | .cut _ op _ => op.caller?
  | .query _ q => q.caller?
  | _ => none

/-- An operation is performed, or the process stops after so many of its calls. -/
def performs (call : Call) (op : Op) : Option Nat → ServerEvent
  | none => .request call op
  | some calls => .cut call op calls

theorem performs_caller (call : Call) (op : Op) (stops : Option Nat) :
    (performs call op stops).caller? = op.caller? := by
  cases stops <;> rfl

/-- What a handler asks of an engine, for the caller that the layer found. It speaks in the name
of that caller or of nobody. -/
structure Handler where
  ask : Caller → Option ServerEvent
  named : ∀ {caller event other}, ask caller = some event → event.caller? = some other →
    other = caller

namespace Handler

/-- An operation in the caller's name. -/
def request (call : Call) (stops : Option Nat) (op : Caller → Op)
    (h : ∀ caller, (op caller).caller? = some caller) : Handler where
  ask caller := some (performs call (op caller) stops)
  named := by
    rintro caller event other ⟨⟩ hother
    rw [performs_caller, h] at hother
    exact (Option.some.inj hother).symm

/-- `probe_write`. -/
def probeWrite (call : Call) (stops : Option Nat) : Handler :=
  .request call stops .probeWrite fun _ => rfl

/-- A question that anyone in the workspace may ask. -/
def query (call : Call) (q : Query) (h : q.caller? = none) : Handler where
  ask _ := some (.query call q)
  named := by
    rintro caller event other ⟨⟩ hother
    cases h.symm.trans hother

/-- `clean_staging`, which looks at the role itself. -/
def cleanStaging (call : Call) (stops : Option Nat) : Handler where
  ask caller :=
    if caller.role = .readOnly then none else some (performs call .cleanStaging stops)
  named := by
    intro caller event other hask hother
    split at hask
    · cases hask
    · cases hask
      rw [performs_caller] at hother
      cases hother

end Handler

/-! ## The server -/

/-- The control database, the engines, and whom the layer has found, by the requests that are
under way. -/
structure Front where
  control : Control
  stack : Stack
  admitted : Map Nat Authenticated

/-- What can happen to the server. -/
inductive FrontEvent where
  /-- A command of the operator's, in another process. -/
  | command (now : Nat) (call : ControlCall)
  /-- The layer looks at a request's token. -/
  | arrive (now request : Nat) (token : String) (noted : Bool)
  /-- A request's handler asks its engine. -/
  | ask (request : Nat) (handler : Handler)
  | finish (request : Nat)
  /-- The server opens, repairs or cleans up a workspace. -/
  | own (ws : WorkspaceId) (event : ServerEvent)
  /-- The directory of a deleted workspace is removed, and its engine forgotten. -/
  | removed (ws : WorkspaceId)

/-- What an engine was asked, and by which request. -/
structure EngineUse where
  workspace : WorkspaceId
  event : ServerEvent
  caller : Option (Nat × Caller)

def EngineUse.moment (a : EngineUse) : WorkspaceId × ServerEvent := (a.workspace, a.event)

namespace FrontEvent

/-- What the control database sees of an event. -/
def calls : FrontEvent → List (Nat × ControlCall)
  | .command now call => [(now, call)]
  | .arrive now _ token noted => [(now, .authenticate token noted)]
  | _ => []

/-- It takes a workspace away from the engines. -/
def deletes : FrontEvent → Bool
  | .command _ (.deleteWorkspace _) | .removed _ => true
  | _ => false

end FrontEvent

namespace Front

def initial : Front := ⟨.empty, .initial, ∅⟩

/-- What an engine is asked by an event. -/
def uses (s : Front) : FrontEvent → List EngineUse
  | .ask request handler =>
    match s.admitted[request]? with
    | none => []
    | some who =>
      match handler.ask who.caller with
      | none => []
      | some event => [⟨who.workspace, event, some (request, who.caller)⟩]
  | .own ws event => if event.caller?.isNone then [⟨ws, event, none⟩] else []
  | _ => []

theorem uses_ask {s : Front} {request : Nat} {handler : Handler} {who : Authenticated}
    {event : ServerEvent} (hwho : s.admitted[request]? = some who)
    (hask : handler.ask who.caller = some event) :
    s.uses (.ask request handler) =
      [⟨who.workspace, event, some (request, who.caller)⟩] := by
  simp only [uses, hwho, hask]

/-- An engine is used by the server itself, or by a request that was let in. -/
theorem uses_cases {s : Front} {e : FrontEvent} {a : EngineUse} (h : a ∈ s.uses e) :
    (a.caller = none ∧ a.event.caller? = none) ∨
      ∃ request who handler event, s.admitted[request]? = some who ∧
        Handler.ask handler who.caller = some event ∧
        a = ⟨who.workspace, event, some (request, who.caller)⟩ := by
  cases e with
  | command now call => cases h
  | arrive now request token noted => cases h
  | finish request => cases h
  | removed ws => cases h
  | own ws event =>
    change a ∈ if event.caller?.isNone then [⟨ws, event, none⟩] else [] at h
    split at h
    · rename_i hnobody
      obtain rfl := List.mem_singleton.mp h
      exact .inl ⟨rfl, Option.isNone_iff_eq_none.mp hnobody⟩
    · cases h
  | ask request handler =>
    cases hwho : s.admitted[request]? with
    | none =>
      simp only [uses, hwho] at h
      cases h
    | some who =>
      cases hask : handler.ask who.caller with
      | none =>
        simp only [uses, hwho, hask] at h
        cases h
      | some event =>
        rw [uses_ask hwho hask] at h
        exact .inr ⟨request, who, handler, event, hwho, hask, List.mem_singleton.mp h⟩

section
variable [Crates]

/-- Whom the layer has found after an event: a request whose token is refused goes no further. -/
def admits (s : Front) : FrontEvent → Map Nat Authenticated
  | .arrive now request token noted =>
    match (s.control.authenticate now token noted).1 with
    | .ok who => s.admitted.insert request who
    | .error _ => s.admitted
  | .finish request => s.admitted.erase request
  | _ => s.admitted

variable [ServerJson] (limits : WorkspaceId → Limits)

/-- The engines after an event, and their tables: a command that deletes a workspace deletes what
refers to its row as well. -/
def serves (s : Front) : FrontEvent → Stack
  | .command _ (.deleteWorkspace name) =>
    match s.control.workspace name with
    | .ok found => { s.stack with db := s.stack.db.delete found.id }
    | .error _ => s.stack
  | .removed ws =>
    if s.stack.db.has ws then s.stack else { s.stack with engines := s.stack.engines.erase ws }
  | e => Stack.run limits s.stack ((s.uses e).map EngineUse.moment)

def exec (s : Front) (e : FrontEvent) : Front where
  control := Runs.run Control.exec s.control e.calls
  stack := s.serves limits e
  admitted := s.admits e

/-- The server after the events so far. -/
def reached (es : List FrontEvent) : Front := Runs.run (exec limits) initial es

/-- What the engines are asked in a whole run. -/
def usesOf (es : List FrontEvent) : List EngineUse :=
  Runs.history (exec limits) uses initial es

theorem reached_append (es : List FrontEvent) (e : FrontEvent) :
    reached limits (es ++ [e]) = (reached limits es).exec limits e :=
  Runs.run_append (exec limits) initial es [e]

theorem usesOf_append (es : List FrontEvent) (e : FrontEvent) :
    usesOf limits (es ++ [e]) = usesOf limits es ++ (reached limits es).uses e := by
  unfold usesOf
  rw [Runs.history_append]
  exact congrArg _ (List.append_nil _)

/-- The control database sees the operator's commands and the tokens, in their order. -/
theorem control_run (es : List FrontEvent) :
    (reached limits es).control = Control.reached (es.flatMap FrontEvent.calls) := by
  induction es using List.reverseRecOn with
  | nil => rfl
  | append_singleton es e ih =>
    rw [reached_append, List.flatMap_append, List.flatMap_singleton, Control.reached_append, ← ih]
    rfl

theorem serves_uses {s : Front} {e : FrontEvent} (h : e.deletes = false) :
    s.serves limits e = Stack.run limits s.stack ((s.uses e).map EngineUse.moment) := by
  cases e with
  | command now call =>
    cases call with
    | deleteWorkspace name => cases h
    | _ => rfl
  | removed ws => cases h
  | _ => rfl

/-- The engines see what they are asked, in its order, and nothing else. -/
theorem stack_run (es : List FrontEvent) (h : ∀ e ∈ es, e.deletes = false) :
    (reached limits es).stack =
      Stack.run limits .initial ((usesOf limits es).map EngineUse.moment) := by
  induction es using List.reverseRecOn with
  | nil => rfl
  | append_singleton es e ih =>
    have hbefore := ih fun e' he' => h e' (List.mem_append_left _ he')
    have hlast := h e (List.mem_append_right _ (List.mem_singleton_self e))
    rw [reached_append, usesOf_append, List.map_append]
    refine (serves_uses limits hlast).trans ?_
    rw [hbefore]
    exact (Runs.run_append (Stack.exec limits) .initial _ _).symm

/-! ## Whom the layer lets in -/

/-- A request of the run arrived with a token by which the layer found who it is from. -/
def Found (es : List FrontEvent) (request : Nat) (who : Authenticated) : Prop :=
  ∃ pre now token noted post, es = pre ++ .arrive now request token noted :: post ∧
    ((reached limits pre).control.authenticate now token noted).1 = .ok who

variable {limits}

theorem Found.more {es : List FrontEvent} {request : Nat} {who : Authenticated}
    (h : Found limits es request who) (e : FrontEvent) : Found limits (es ++ [e]) request who := by
  obtain ⟨pre, now, token, noted, post, rfl, hfound⟩ := h
  exact ⟨pre, now, token, noted, post ++ [e], by simp, hfound⟩

/-- A request that the layer let in was found. -/
theorem found_admitted (es : List FrontEvent) {request : Nat} {who : Authenticated}
    (h : (reached limits es).admitted[request]? = some who) : Found limits es request who := by
  induction es using List.reverseRecOn with
  | nil => cases h
  | append_singleton es e ih =>
    rw [reached_append] at h
    change ((reached limits es).admits e)[request]? = some who at h
    cases e with
    | command now call => exact (ih h).more _
    | ask asking handler => exact (ih h).more _
    | own ws event => exact (ih h).more _
    | removed ws => exact (ih h).more _
    | finish finished => exact (ih (Map.get_of_get_erase h)).more _
    | arrive now arrived token noted =>
      unfold admits at h
      cases hanswer : ((reached limits es).control.authenticate now token noted).1 with
      | error refusal =>
        simp only [hanswer] at h
        exact (ih h).more _
      | ok found =>
        simp only [hanswer] at h
        by_cases hsame : request = arrived
        · -- it arrives now, and what was found of an earlier one of its number is forgotten
          obtain rfl := hsame
          rw [Map.get_insert_self] at h
          obtain rfl := Option.some.inj h
          exact ⟨es, now, token, noted, [], rfl, hanswer⟩
        · rw [Map.get_insert_of_ne _ _ (Ne.symm hsame)] at h
          exact (ih h).more _

/-! ## Who may ask -/

/-- A token opened a workspace when a request arrived with it: it is that of a key that a command
had returned, for this workspace and with this role, whose row was still there and which was
neither revoked nor expired. -/
def Opened (es : List FrontEvent) (request : Nat) (ws : WorkspaceId) (caller : Caller) : Prop :=
  ∃ pre now token noted post issued info, es = pre ++ .arrive now request token noted :: post ∧
    Control.Opens (pre.flatMap FrontEvent.calls) token issued info ∧ info.state now = .active ∧
    issued.workspace = ws ∧ caller = ⟨issued.id, issued.role⟩

/-- An engine is used by the server itself, in nobody's name, or by a request that opened the
workspace before, in the name of its key or of nobody. -/
def Entitled (es : List FrontEvent) (a : EngineUse) : Prop :=
  match a.caller with
  | none => a.event.caller? = none
  | some (request, caller) => Opened es request a.workspace caller ∧
    ∀ other, a.event.caller? = some other → other = caller

/-- The layer finds nobody but by the token of an active key. -/
theorem Found.opened {es rest : List FrontEvent} {request : Nat} {who : Authenticated}
    (h : Found limits es request who)
    (hsha : Control.NoCollision ((es ++ rest).flatMap FrontEvent.calls)) :
    Opened es request who.workspace who.caller := by
  obtain ⟨pre, now, token, noted, post, rfl, hfound⟩ := h
  -- the database sees the arrival between what it saw before and what it sees after
  have hsplit : ((pre ++ .arrive now request token noted :: post) ++ rest).flatMap
      FrontEvent.calls = pre.flatMap FrontEvent.calls ++
        (now, .authenticate token noted) :: (post ++ rest).flatMap FrontEvent.calls := by
    rw [List.append_assoc, List.cons_append, List.flatMap_append, List.flatMap_cons]
    rfl
  rw [control_run] at hfound
  obtain ⟨issued, info, hopens, hactive, rfl⟩ :=
    ((Control.answers hsplit hsha).ok who).mp hfound
  exact ⟨pre, now, token, noted, post, issued, info, rfl, hopens, hactive, rfl, rfl⟩

/-- What an event asks of an engine is asked by who may. -/
theorem entitled_uses {es rest : List FrontEvent}
    (hsha : Control.NoCollision ((es ++ rest).flatMap FrontEvent.calls)) {e : FrontEvent}
    {a : EngineUse} (h : a ∈ (reached limits es).uses e) : Entitled es a := by
  unfold Entitled
  rcases uses_cases h with ⟨hnobody, hown⟩ | ⟨request, who, handler, event, hwho, hask, rfl⟩
  · rw [hnobody]
    exact hown
  · -- who was found stays with the request, whatever has happened to the key since
    exact ⟨(found_admitted es hwho).opened hsha, fun _ hother => handler.named hask hother⟩

/-- **An engine is only asked by who may.** Whatever the operator's commands, the requests and
the server's own doings are, and in whatever order, every event of an engine comes from the
server itself, or from a request that had arrived with the token of a key of that workspace,
then neither revoked nor expired nor gone, and is in that key's name and role; as long as no two
secrets of the run have the same hash. -/
theorem entitled_run (limits : WorkspaceId → Limits) (es : List FrontEvent)
    (hsha : Control.NoCollision (es.flatMap FrontEvent.calls)) {pre post : List FrontEvent}
    {e : FrontEvent} (hsplit : es = pre ++ e :: post) {a : EngineUse}
    (ha : a ∈ (reached limits pre).uses e) : Entitled pre a := by
  rw [hsplit] at hsha
  exact entitled_uses hsha ha

end

end Front

namespace Sample

/-- A key is made and used, and tried again after it was revoked. -/
def phoneVisits : List FrontEvent :=
  [.command 10 (.createWorkspace "home" none ⟨5⟩),
    .command 10 (.createKey "home" "phone" .readWrite (some 100) [phoneKey]),
    .own ⟨5⟩ (.opened 1 (call 0 [])),
    .arrive 20 1 phoneKey.reveal true,
    .ask 1 (.probeWrite (call 21 []) none),
    .finish 1,
    .command 30 (.revokeKey phoneKey.keyId.text),
    .arrive 40 2 phoneKey.reveal true,
    .ask 2 (.probeWrite (call 41 []) none)]

end Sample

theorem Front.entitled_visits :
    (@Front.usesOf Sample.hashing Sample.serverJson (fun _ => Sample.limits)
        Sample.phoneVisits).length = 2 ∧
      @Front.Entitled Sample.hashing (Sample.phoneVisits.take 4)
        ⟨⟨5⟩, .request (Sample.call 21 []) (.probeWrite ⟨Sample.phoneKey.keyId, .readWrite⟩),
          some (1, ⟨Sample.phoneKey.keyId, .readWrite⟩)⟩ := by
  let _ : Crates := Sample.hashing
  let _ : ServerJson := Sample.serverJson
  have hissues : Runs.history Control.exec Control.issues .empty
      (Sample.phoneVisits.flatMap FrontEvent.calls) = [1] := by
    decide +kernel
  have hpresents : (Sample.phoneVisits.flatMap FrontEvent.calls).flatMap Control.presents =
      [1, 1] := by
    simp only [Sample.phoneVisits, FrontEvent.calls, List.flatMap_cons, List.flatMap_nil,
      List.append_nil, List.nil_append, List.cons_append, Control.presents,
      Sample.parse_phoneKey]
    rfl
  have hone : ∀ a ∈ Control.secrets (Sample.phoneVisits.flatMap FrontEvent.calls), a = 1 := by
    rw [Control.secrets, hissues, hpresents]
    simp
  have hsha := Control.noCollision_of_one hone
  have hwho : (Front.reached (fun _ => Sample.limits)
      (Sample.phoneVisits.take 4)).admitted[1]?.map (fun who => (who.workspace, who.caller)) =
        some (⟨5⟩, ⟨Sample.phoneKey.keyId, .readWrite⟩) := by
    decide +kernel
  obtain ⟨who, hadmitted, hsame⟩ := Option.map_eq_some_iff.mp hwho
  obtain ⟨hws, hcaller⟩ := Prod.mk.inj hsame
  have hused := @Front.uses_ask _ 1 (.probeWrite (Sample.call 21 []) none) who _ hadmitted rfl
  rw [hws, hcaller] at hused
  have hsplit : Sample.phoneVisits = Sample.phoneVisits.take 4 ++
      .ask 1 (.probeWrite (Sample.call 21 []) none) :: Sample.phoneVisits.drop 5 := rfl
  refine ⟨by decide +kernel, ?_⟩
  refine Front.entitled_run (fun _ => Sample.limits) Sample.phoneVisits hsha hsplit ?_
  rw [hused]
  exact List.mem_singleton_self _

end Passalong
