import Passalong.Stack

/-!
# Workspaces do not see each other

All the workspaces of a server are in one control database, and all their requests go through
one process. What the clients of a workspace are answered, and what is stored of it, is
nevertheless decided by its own events alone (`isolated_run`): two runs in which a workspace's
events are the same, whatever happens to the others in between and whatever their limits are,
answer its clients the same and leave it the same.

`Alike` is the relation that is kept: both servers hold the same workspace, as an abstract one.
An event of the workspace itself keeps it on both (`Alike.exec_own`), an event of another one on
either (`Alike.exec_other`), and so a run is as good as its own part of it (`alike_alone`).
-/

namespace Passalong

open Lib

section
variable [Crates] [ServerJson]

namespace Stack

/-- Two servers that are the same to one workspace. -/
structure Alike (ws : WorkspaceId) (stack stack' : Stack) : Prop where
  worlds : ∃ worlds worlds' : WorkspaceId → World, stack.Shows worlds ∧ stack'.Shows worlds' ∧
    worlds ws = worlds' ws
  opened : stack.engines[ws]?.isSome = stack'.engines[ws]?.isSome

variable {limits limits' : WorkspaceId → Limits} {ws : WorkspaceId} {stack stack' : Stack}
  {e : WorkspaceId × ServerEvent}

omit [Crates] in
theorem Alike.symm (h : Alike ws stack stack') : Alike ws stack' stack where
  worlds := by
    obtain ⟨worlds, worlds', hshows, hshows', hsame⟩ := h.worlds
    exact ⟨worlds', worlds, hshows', hshows, hsame.symm⟩
  opened := h.opened.symm

omit [Crates] in
theorem alike_initial : Alike ws initial initial where
  worlds := ⟨_, _, shows_initial, shows_initial, rfl⟩
  opened := rfl

omit [Crates] [ServerJson] in
/-- Whether there is an engine for an event depends on its workspace alone. -/
theorem engineOf_isSome (hopened : stack.engines[ws]?.isSome = stack'.engines[ws]?.isSome)
    (e : ServerEvent) : (stack.engineOf ws e).isSome = (stack'.engineOf ws e).isSome := by
  cases e with
  | opened process call => rfl
  | _ => exact hopened

/-- **An event of the workspace itself**, on both servers. -/
theorem Alike.exec_own (h : Alike ws stack stack') (hjson : FsShelf.ReadsBack)
    (hlimits : limits ws = limits' ws) {e : ServerEvent} (hrange : e.InRange) :
    (stack.step limits (ws, e)).1 = (stack'.step limits' (ws, e)).1 ∧
      Alike ws (stack.exec limits (ws, e)) (stack'.exec limits' (ws, e)) := by
  have hengines := engineOf_isSome h.opened e
  obtain ⟨worlds, worlds', hshows, hshows', hsame⟩ := h.worlds
  cases hengine : stack.engineOf ws e with
  | none =>
    rw [hengine] at hengines
    have hengine' : stack'.engineOf ws e = none :=
      Option.isNone_iff_eq_none.mp (by simpa using hengines)
    unfold exec
    rw [step_idle hengine, step_idle hengine']
    exact ⟨rfl, h⟩
  | some engine =>
    rw [hengine] at hengines
    obtain ⟨engine', hengine'⟩ := Option.isSome_iff_exists.mp hengines.symm
    obtain ⟨more, hmore⟩ := ServerEngine.amounts hjson ws (limits ws) (worlds ws) hrange
    have hmore' : ServerEngine.Amounts ws (limits' ws) (worlds' ws) e more := by
      rw [← hlimits, ← hsame]
      exact hmore
    obtain ⟨hanswers, hnext⟩ := hshows.exec hengine hmore
    obtain ⟨hanswers', hnext'⟩ := hshows'.exec hengine' hmore'
    refine ⟨?_, ⟨_, _, hnext, hnext', ?_⟩, ?_⟩
    · rw [hanswers, hanswers', hsame, hlimits]
    · rw [Function.update_self, Function.update_self, hsame, hlimits]
    · obtain ⟨left, hleft⟩ := @engines_step _ _ limits _ _ _ _ hengine
      obtain ⟨left', hleft'⟩ := @engines_step _ _ limits' _ _ _ _ hengine'
      rw [hleft, hleft', Map.get_insert_self, Map.get_insert_self]
      rfl

/-- **An event of another workspace**, on one of the servers. -/
theorem Alike.exec_other (h : Alike ws stack stack') (hjson : FsShelf.ReadsBack)
    (hother : e.1 ≠ ws) (hrange : e.2.InRange) : Alike ws (stack.exec limits e) stack' := by
  obtain ⟨worlds, worlds', hshows, hshows', hsame⟩ := h.worlds
  obtain ⟨other, e⟩ := e
  cases hengine : stack.engineOf other e with
  | none =>
    unfold exec
    rw [step_idle hengine]
    exact h
  | some engine =>
    obtain ⟨more, hmore⟩ := ServerEngine.amounts hjson other (limits other) (worlds other) hrange
    obtain ⟨-, hnext⟩ := hshows.exec hengine hmore
    refine ⟨⟨_, _, hnext, hshows', ?_⟩, ?_⟩
    · rw [Function.update_of_ne (Ne.symm hother), hsame]
    · obtain ⟨left, hleft⟩ := @engines_step _ _ limits _ _ _ _ hengine
      rw [hleft, Map.get_insert_of_ne _ _ hother]
      exact h.opened

/-- Whose an event is. -/
def own (ws : WorkspaceId) (e : WorkspaceId × ServerEvent) : Bool := e.1 = ws

/-- The others may as well do nothing. -/
theorem alike_alone (hjson : FsShelf.ReadsBack) (hlimits : limits ws = limits' ws)
    {es : List (WorkspaceId × ServerEvent)} (hrange : ∀ e ∈ es, e.2.InRange) :
    initial.replies limits ws es = initial.replies limits' ws (es.filter (own ws)) ∧
      Alike ws (initial.run limits es) (initial.run limits' (es.filter (own ws))) := by
  have hown : ∀ (stack stack' : Stack) (e : WorkspaceId × ServerEvent), e.2.InRange →
      own ws e = true → Alike ws stack stack' →
      stack.replyTo limits ws e = stack'.replyTo limits' ws e ∧
        Alike ws (stack.exec limits e) (stack'.exec limits' e) := by
    intro stack stack' e he hown h
    obtain ⟨other, e⟩ := e
    obtain rfl : other = ws := of_decide_eq_true hown
    obtain ⟨hanswers, hnext⟩ := h.exec_own hjson hlimits he
    unfold replyTo
    rw [if_pos rfl, if_pos rfl]
    exact ⟨hanswers, hnext⟩
  have hothers : ∀ (stack stack' : Stack) (e : WorkspaceId × ServerEvent), e.2.InRange →
      own ws e = false → Alike ws stack stack' →
      stack.replyTo limits ws e = [] ∧ Alike ws (stack.exec limits e) stack' := by
    intro stack stack' e he hown h
    have hother : e.1 ≠ ws := of_decide_eq_false hown
    unfold replyTo
    rw [if_neg hother]
    exact ⟨rfl, h.exec_other hjson hother he⟩
  exact Runs.unwinding _ hown hothers alike_initial hrange

omit [Crates] in
/-- What two such servers have stored. -/
theorem Alike.stored (h : Alike ws stack stack') {engine : ServerEngine}
    (hengine : stack.engines[ws]? = some engine) :
    ∃ engine', stack'.engines[ws]? = some engine' ∧ stack.db.read ws = stack'.db.read ws ∧
      engine.pending = engine'.pending := by
  have hopened := h.opened
  rw [hengine] at hopened
  obtain ⟨engine', hengine'⟩ := Option.isSome_iff_exists.mp hopened.symm
  obtain ⟨worlds, worlds', hshows, hshows', hsame⟩ := h.worlds
  have hread : ∀ {stack : Stack} {worlds : WorkspaceId → World} {engine : ServerEngine},
      stack.Shows worlds → stack.engines[ws]? = some engine →
      stack.db.read ws = .ok (worlds ws).record := by
    intro stack worlds engine hshows hengine
    obtain ⟨records, hdb, hrecords⟩ := hshows.rows
    refine hdb.read_present ?_
    rw [hrecords, hengine]
    rfl
  refine ⟨engine', hengine', ?_, ?_⟩
  · rw [hread hshows hengine, hread hshows' hengine', hsame]
  · rw [(hshows.engine ws engine hengine).pending, (hshows'.engine ws engine' hengine').pending,
      hsame]

/-- **Workspaces do not see each other.** In two runs in which the events of a workspace are
the same, in the same order, its clients are answered the same, its rows hold the same record
and the same is left to clean up, whatever the events and the limits of the others are and
however they come between. -/
theorem isolated_run (hjson : FsShelf.ReadsBack) (ws : WorkspaceId)
    (limits limits' : WorkspaceId → Limits) (hlimits : limits ws = limits' ws)
    (es es' : List (WorkspaceId × ServerEvent)) (hrange : ∀ e ∈ es, e.2.InRange)
    (hrange' : ∀ e ∈ es', e.2.InRange) (hown : es.filter (own ws) = es'.filter (own ws)) :
    initial.replies limits ws es = initial.replies limits' ws es' ∧
      ∀ engine, (initial.run limits es).engines[ws]? = some engine →
        ∃ engine', (initial.run limits' es').engines[ws]? = some engine' ∧
          (initial.run limits es).db.read ws = (initial.run limits' es').db.read ws ∧
          engine.pending = engine'.pending := by
  obtain ⟨hreplies, halike⟩ := alike_alone hjson hlimits hrange
  obtain ⟨hreplies', halike'⟩ := alike_alone hjson (rfl : limits' ws = limits' ws) hrange'
  rw [hown] at hreplies halike
  refine ⟨hreplies.trans hreplies'.symm, fun engine hengine => ?_⟩
  obtain ⟨alone, halone, hread, hpending⟩ := halike.stored hengine
  obtain ⟨engine', hengine', hread', hpending'⟩ := halike'.symm.stored halone
  exact ⟨engine', hengine', hread.trans hread', hpending.trans hpending'⟩

end Stack

end

namespace Sample

/-- What happens to the one workspace in `together`, while another one does something else. -/
def apart : List (WorkspaceId × ServerEvent) :=
  [(house, .opened 1 (call 0 [])),
    (house, .request (call 1 [1]) (.beginUpload laptop (request 2 none))),
    (office, .opened 7 (call 9 [])),
    (house, .request (call 2 []) (.putUploadContent laptop (upload 1) [.piece [1, 2]])),
    (office, .request (call 3 []) (.enableEncryption laptop keyA [])),
    (house, .cut (call 3 []) (.commitUpload laptop (upload 1)) 3)]

theorem apart_inRange : ∀ e ∈ apart, e.2.InRange := by
  simp [apart, ServerEvent.InRange, call, u64Bound]

end Sample

theorem Stack.isolated_house :
    @Stack.replies Sample.crates Sample.serverJson (fun _ => Sample.limits) Sample.house .initial
        Sample.together =
      @Stack.replies Sample.crates Sample.serverJson (fun _ => Sample.limits) Sample.house .initial
        Sample.apart ∧
      ∀ engine, (@Stack.run Sample.crates Sample.serverJson (fun _ => Sample.limits) .initial
          Sample.together).engines[Sample.house]? = some engine →
        ∃ engine', (@Stack.run Sample.crates Sample.serverJson (fun _ => Sample.limits) .initial
            Sample.apart).engines[Sample.house]? = some engine' ∧
          (@Stack.run Sample.crates Sample.serverJson (fun _ => Sample.limits) .initial
              Sample.together).db.read Sample.house =
            (@Stack.run Sample.crates Sample.serverJson (fun _ => Sample.limits) .initial
              Sample.apart).db.read Sample.house ∧
          engine.pending = engine'.pending :=
  @Stack.isolated_run Sample.crates Sample.serverJson Sample.serverJson_readsBack Sample.house
    (fun _ => Sample.limits) (fun _ => Sample.limits) rfl Sample.together Sample.apart
    Sample.together_inRange Sample.apart_inRange rfl

end Passalong
