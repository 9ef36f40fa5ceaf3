import Passalong.Outcomes
import Passalong.Tickets

/-!
# Well-formed records

The laws every stored record keeps, whoever asks for what and whenever
(`wellFormed_run`): of the pointers, of the open session, of the uploads of a rewrite,
and of upload ids. Two are about the past: a workspace that is sealed stays sealed, and
what a fresh start set aside stays where it is.
-/

namespace Passalong

open Lib

namespace WorkspaceRecord

/-- The laws of one record. -/
structure WellFormed (rec : WorkspaceRecord) : Prop where
  /-- No two pointers are to one generation. -/
  distinct : rec.liveGenerations.Nodup
  numbered : ∀ g ∈ rec.liveGenerations, g < rec.nextGeneration
  /-- A migration starts from plaintext, and a rotation does not. -/
  kind : ∀ session, rec.state = .rewriting session →
    (session.kind = .migrate ↔ session.prior = none)
  /-- Only a workspace that is sealed has set anything aside. -/
  plain : ∀ g, rec.plain = some g → ∃ sealed, rec.seal? = some sealed
  /-- An upload of a rewrite is one of the open session. -/
  staged : ∀ (u : UploadId) (ticket : Ticket), rec.tickets[u]? = some ticket →
    ticket.request.inRewrite = true → ∃ session, rec.state = .rewriting session ∧
      ticket.request.expectedKeyId = some session.next.keyId
  /-- An upload is under way or finished, and not both. -/
  apart : ∀ u : UploadId, rec.tickets[u]? = none ∨ rec.tombstones[u]? = none
  /-- The new key is new, and its rewrite has not ended. -/
  next : ∀ session, rec.state = .rewriting session →
    session.prior.map Seal.keyId ≠ some session.next.keyId ∧
      session.next.keyId ∉ rec.endedRewrites

/-- What a later record keeps of an earlier one. -/
structure Keeps (rec rec' : WorkspaceRecord) : Prop where
  plain : ∀ g, rec.plain = some g → rec'.plain = some g
  sealed : ∀ sealed, rec.seal? = some sealed → ∃ sealed', rec'.seal? = some sealed'

theorem Keeps.refl (rec : WorkspaceRecord) : Keeps rec rec :=
  ⟨fun _ h => h, fun sealed h => ⟨sealed, h⟩⟩

theorem Keeps.trans {rec rec' rec'' : WorkspaceRecord} (h : Keeps rec rec')
    (h' : Keeps rec' rec'') : Keeps rec rec'' where
  plain := fun g hg => h'.plain g (h.plain g hg)
  sealed := by
    intro sealed hsealed
    obtain ⟨sealed', hsealed'⟩ := h.sealed sealed hsealed
    exact h'.sealed sealed' hsealed'

/-- The part of the laws that is about the open session. -/
structure SessionFits (rec : WorkspaceRecord) : Prop where
  kind : ∀ session, rec.state = .rewriting session →
    (session.kind = .migrate ↔ session.prior = none)
  ended : ∀ session, rec.state = .rewriting session → session.next.keyId ∉ rec.endedRewrites
  staged : ∀ (u : UploadId) (ticket : Ticket), rec.tickets[u]? = some ticket →
    ticket.request.inRewrite = true → ∃ session, rec.state = .rewriting session ∧
      ticket.request.expectedKeyId = some session.next.keyId

theorem sessionFits_initial : SessionFits initial where
  kind := by rintro session ⟨⟩
  ended := by rintro session ⟨⟩
  staged := by
    intro u ticket h
    rw [show initial.tickets = ∅ from rfl, Std.ExtTreeMap.getElem?_empty] at h
    cases h

/-- Fewer tickets beside the same session fit. -/
theorem SessionFits.fewer {rec rec' : WorkspaceRecord} (hf : SessionFits rec)
    (hstate : rec'.state = rec.state) (hended : rec'.endedRewrites = rec.endedRewrites)
    (h : ∀ (u : UploadId) (ticket : Ticket), rec'.tickets[u]? = some ticket →
      rec.tickets[u]? = some ticket) : SessionFits rec' where
  kind := by
    rw [hstate]
    exact hf.kind
  ended := by
    rw [hstate, hended]
    exact hf.ended
  staged := by
    rw [hstate]
    intro u ticket hticket
    exact hf.staged u ticket (h u ticket hticket)

/-- Without a session, no upload of one is left. -/
theorem SessionFits.of_settled {rec : WorkspaceRecord} {sealed : Option Seal}
    (hstate : rec.state = .settled sealed)
    (h : ∀ (u : UploadId) (ticket : Ticket), rec.tickets[u]? = some ticket →
      ticket.request.inRewrite ≠ true) : SessionFits rec where
  kind := by
    intro session hs
    rw [hstate] at hs
    cases hs
  ended := by
    intro session hs
    rw [hstate] at hs
    cases hs
  staged := fun u ticket hticket hin => absurd hin (h u ticket hticket)

/-- A record without a session has no upload of one. -/
theorem SessionFits.ordinary {rec : WorkspaceRecord} {sealed : Option Seal}
    (hf : SessionFits rec) (hstate : rec.state = .settled sealed) (u : UploadId)
    (ticket : Ticket) (hticket : rec.tickets[u]? = some ticket) :
    ticket.request.inRewrite ≠ true := by
  intro hin
  obtain ⟨session, hs, -⟩ := hf.staged u ticket hticket hin
  rw [hstate] at hs
  cases hs

end WorkspaceRecord

section
variable [Crates] {r : Rules} {op : Op} {a : Answer} {rec : WorkspaceRecord}
  {shelf : MemoryShelf} {after : List Cleanup}

open WorkspaceRecord in
/-- **The open session fits, over every change.** -/
theorem Change.sessionFits (h : Change r op a rec shelf after) (hf : SessionFits r.record) :
    SessionFits rec := by
  -- the end of a rewrite drops the tickets of the rewrite
  have hdropped : ∀ (rec' : WorkspaceRecord), (rec'.tickets =
      r.record.tickets.filter fun _ ticket => !ticket.request.inRewrite) →
      ∀ (u : UploadId) (ticket : Ticket), rec'.tickets[u]? = some ticket →
        ticket.request.inRewrite ≠ true := by
    intro rec' hrec u ticket hticket hin
    rw [hrec] at hticket
    have hp := (Map.get_filter_eq_some.mp hticket).2
    rw [hin] at hp
    cases hp
  cases h with
  | sealed hstate _ => exact .of_settled rfl (hf.ordinary hstate)
  | setAside hstate => exact .of_settled rfl (hf.ordinary hstate)
  | reheaded hstate => exact .of_settled rfl (hf.ordinary hstate)
  | @begun caller request g u htarget _ _ _ _ _ =>
    -- a ticket of the rewrite is for its session's key
    refine ⟨hf.kind, hf.ended, fun v ticket hticket hin => ?_⟩
    change (r.record.tickets.insert u _)[v]? = some ticket at hticket
    rw [Map.get_insert] at hticket
    split at hticket
    · cases hticket
      cases htarget with
      | staged session hstate _ _ hkey => exact ⟨session, hstate, hkey⟩
      | current _ _ hout _ =>
        rw [show request.inRewrite = true from hin] at hout
        cases hout
    · exact hf.staged v ticket hticket hin
  | opened hstate hkind hended hnew =>
    -- the session is a new one, and no ticket is of it yet
    refine ⟨?_, ?_, ?_⟩
    · rintro session ⟨⟩
      exact hkind
    · rintro session ⟨⟩
      exact hended
    · intro u ticket hticket hin
      exact absurd hin (hf.ordinary hstate u ticket hticket)
  | @renewed _ _ session _ hstate _ _ =>
    refine ⟨?_, ?_, ?_⟩
    · rintro session' ⟨⟩
      exact hf.kind session hstate
    · rintro session' ⟨⟩
      exact hf.ended session hstate
    · intro u ticket hticket hin
      obtain ⟨session', hs, hkey⟩ := hf.staged u ticket hticket hin
      rw [hstate] at hs
      cases hs
      exact ⟨_, rfl, hkey⟩
  | switched hstate _ _ _ _ => exact .of_settled rfl (hdropped _ rfl)
  | restored hstate => exact .of_settled rfl (hdropped _ rfl)
  -- the others leave the session, and fewer tickets if not the same
  | stored _ _ => exact hf.fewer rfl rfl fun _ _ => Map.get_of_get_filter
  | duplicate _ _ _ _ => exact hf.fewer rfl rfl fun _ _ => Map.get_of_get_erase
  | published _ _ _ _ _ _ _ => exact hf.fewer rfl rfl fun _ _ => Map.get_of_get_erase
  | recovered _ _ _ _ _ => exact hf.fewer rfl rfl fun _ _ => Map.get_of_get_erase
  | aborted => exact hf.fewer rfl rfl fun _ _ => Map.get_of_get_filter
  | cleaned => exact hf.fewer rfl rfl fun _ _ => Map.get_of_get_filter
  | reconciled => exact hf.fewer rfl rfl fun _ _ => Map.get_of_get_filter
  | _ => exact hf.fewer rfl rfl fun _ _ => id

end

/-- A move of the pointers keeps what was set aside, and the seal. -/
theorem Move.keeps {rec rec' : WorkspaceRecord} {shelf shelf' : MemoryShelf}
    (h : Move rec shelf rec' shelf') (hl : rec.Layout) : rec.Keeps rec' := by
  cases h with
  | same hsame =>
    refine ⟨fun g hg => ?_, fun sealed hsealed => ⟨sealed, ?_⟩⟩
    · rw [hsame.plain]
      exact hg
    · rw [hsame.seal?]
      exact hsealed
  | sealed hstate _ => exact ⟨fun _ hg => hg, fun _ _ => ⟨_, rfl⟩⟩
  | setAside hstate =>
    refine ⟨fun g hg => ?_, fun _ _ => ⟨_, rfl⟩⟩
    -- a plaintext workspace has set nothing aside
    rw [hl.plain_sealed (WorkspaceRecord.seal?_of_settled hstate)] at hg
    cases hg
  | reheaded hstate => exact ⟨fun _ hg => hg, fun _ _ => ⟨_, rfl⟩⟩
  | opened hstate hprior _ _ _ =>
    refine ⟨fun _ hg => hg, fun sealed hsealed => ⟨sealed, ?_⟩⟩
    rw [WorkspaceRecord.seal?_of_settled hstate] at hsealed
    exact hprior.trans hsealed
  | renewed hstate =>
    refine ⟨fun _ hg => hg, fun sealed hsealed => ⟨sealed, ?_⟩⟩
    rw [WorkspaceRecord.seal?_of_rewriting hstate] at hsealed
    exact hsealed
  | switched hstate => exact ⟨fun _ hg => hg, fun _ _ => ⟨_, rfl⟩⟩
  | restored hstate =>
    refine ⟨fun _ hg => hg, fun sealed hsealed => ⟨sealed, ?_⟩⟩
    rw [WorkspaceRecord.seal?_of_rewriting hstate] at hsealed
    exact hsealed

namespace World

variable [Crates] {limits : Limits} {w w' : World} {e : Event}

theorem Step.sessionFits (h : Step limits w e w') (hf : w.record.SessionFits) :
    w'.record.SessionFits := by
  cases h with
  | done _ hchange => exact hchange.sessionFits hf
  | _ => exact hf

theorem sessionFits_run (limits : Limits) (es : List Event) :
    (initial.run limits es).record.SessionFits :=
  Runs.always (exec limits) (I := fun w => w.record.SessionFits)
    (fun w e h => (w.exec_step limits e).sessionFits h) WorkspaceRecord.sessionFits_initial es

theorem keeps_run (hl : w.Laid) (es : List Event) :
    w.record.Keeps (w.run limits es).record :=
  (Runs.always (exec limits) (I := fun v => v.Laid ∧ w.record.Keeps v.record)
    (fun v e h => ⟨h.1.step (v.exec_step limits e),
      h.2.trans ((v.exec_step limits e).move.keeps h.1.layout)⟩) ⟨hl, .refl _⟩ es).2

/-- **Every record is well-formed**, after any run, and every later one keeps the seal
and what was set aside. -/
theorem wellFormed_run (limits : Limits) (es later : List Event) :
    (initial.run limits es).record.WellFormed ∧
      (initial.run limits es).record.Keeps (initial.run limits (es ++ later)).record := by
  have hlaid : (initial.run limits es).Laid := laid_run laid_initial es
  have hfits := sessionFits_run limits es
  constructor
  · refine ⟨hlaid.layout.nodup, hlaid.layout.live_lt, hfits.kind, ?_, hfits.staged, ?_, ?_⟩
    · intro g hg
      cases hseal : (initial.run limits es).record.seal? with
      | none =>
        rw [hlaid.layout.plain_sealed hseal] at hg
        cases hg
      | some sealed => exact ⟨sealed, rfl⟩
    · intro u
      cases hstone : (initial.run limits es).record.tombstones[u]? with
      | none => exact .inr rfl
      | some stone => exact .inl (apart_run es u stone hstone)
    · intro session hstate
      exact ⟨hlaid.layout.new_key session hstate, hfits.ended session hstate⟩
  · rw [show initial.run limits (es ++ later) = (initial.run limits es).run limits later from
      Runs.run_append _ _ _ _]
    exact keeps_run hlaid later

end World

end Passalong
