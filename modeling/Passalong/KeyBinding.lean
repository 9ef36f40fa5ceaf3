import Passalong.Layout

/-!
# Every item is bound to its key (I2)

An item records the data key it was uploaded under. In every state of every run
the items of the current generation were uploaded under the key readers go by,
those of an open rewrite's staged generation under the rewrite's new key, and
those of the plain partition under none (`keyBound_run`).

The moves of the pointers relabel whole generations: `Labels` says which key goes
with which pointer, and `Move.labels` that a move gives a generation another key
only when the generation is empty.
-/

namespace Passalong

open Lib

/-- The key the items of a generation are to be under. -/
inductive WorkspaceRecord.Labels (rec : WorkspaceRecord) (g : Nat) (key : Option KeyId) : Prop
  | current (hg : g = rec.generation) (hkey : key = rec.keyId)
  | staged (session : Session) (hstate : rec.state = .rewriting session)
      (hg : g = session.stagedGeneration) (hkey : key = some session.next.keyId)
  | plain (hplain : rec.plain = some g) (hkey : key = none)

namespace WorkspaceRecord

variable {rec rec' : WorkspaceRecord}

/-- The live generations are distinct, so a generation has one label. -/
theorem Labels.unique (hl : rec.Layout) {g : Nat} {k₁ k₂ : Option KeyId}
    (h₁ : rec.Labels g k₁) (h₂ : rec.Labels g k₂) : k₁ = k₂ := by
  have hplain : rec.plain ≠ some rec.generation := hl.plain_ne
  have hstaged : rec.stagedGeneration ≠ some rec.generation := hl.staged_ne
  have hboth : ∀ p, rec.plain = some p → rec.stagedGeneration ≠ some p := hl.plain_ne_staged
  cases h₁ with
  | current hg hkey =>
    subst hg hkey
    cases h₂ with
    | current _ hkey => exact hkey.symm
    | staged session hstate hg _ =>
      exact absurd (hg ▸ stagedGeneration_of_rewriting hstate) hstaged
    | plain hp _ => exact absurd hp hplain
  | staged session hstate hg hkey =>
    have hs : rec.stagedGeneration = some g := hg ▸ stagedGeneration_of_rewriting hstate
    cases h₂ with
    | current hg' _ => exact absurd (hg' ▸ hs) hstaged
    | staged session' hstate' _ hkey' =>
      rw [hstate] at hstate'
      cases hstate'
      exact hkey.trans hkey'.symm
    | plain hp _ => exact absurd hs (hboth _ hp)
  | plain hp hkey =>
    cases h₂ with
    | current hg' _ => exact absurd (hg' ▸ hp) hplain
    | staged session hstate hg' _ =>
      exact absurd (hg' ▸ stagedGeneration_of_rewriting hstate) (hboth _ hp)
    | plain _ hkey' => exact hkey.trans hkey'.symm

/-- An upload goes where its key says. -/
theorem Targets.labels {caller : Caller} {request : UploadRequest} {g : Nat}
    (h : rec.Targets caller request g) : rec.Labels g request.expectedKeyId := by
  cases h with
  | staged session hstate hin hholder hkey => exact .staged session hstate rfl hkey
  | current sealed hstate hin hkey => exact .current rfl (hkey.trans (keyId_of_settled hstate).symm)

theorem SamePointers.labels (h : rec.SamePointers rec') {g : Nat} {key : Option KeyId}
    (hlabel : rec'.Labels g key) : rec.Labels g key := by
  cases hlabel with
  | current hg hkey =>
    have hsame : rec'.keyId = rec.keyId := by rw [keyId, keyId, h.seal?]
    exact .current (hg.trans h.generation) (hkey.trans hsame)
  | staged session hstate hg hkey =>
    exact .staged session (h.state.symm.trans hstate) hg hkey
  | plain hplain hkey => exact .plain (h.plain.symm.trans hplain) hkey

end WorkspaceRecord

open WorkspaceRecord in
/-- **A move keeps the label of every generation that holds anything.** -/
theorem Move.labels {rec rec' : WorkspaceRecord} {shelf shelf' : MemoryShelf}
    (h : Move rec shelf rec' shelf')
    (hv : ∀ g, rec.nextGeneration ≤ g → shelf.generation g = ∅) {g : Nat}
    {key : Option KeyId} (hlabel : rec'.Labels g key) :
    rec.Labels g key ∨ shelf'.generation g = ∅ := by
  cases h with
  | same h => exact .inl (h.labels hlabel)
  | sealed hstate hempty =>
    cases hlabel with
    | current hg hkey =>
      subst hg
      exact .inr hempty
    | staged session hs _ _ => cases hs
    | plain hplain hkey => exact .inl (.plain hplain hkey)
  | setAside hstate =>
    cases hlabel with
    | current hg hkey => exact .inr (hv g (Nat.le_of_eq hg.symm))
    | staged session hs _ _ => cases hs
    | plain hplain hkey =>
      -- the items set aside were plaintext
      have hnone : rec.keyId = none := keyId_of_settled hstate
      exact .inl (.current (Option.some.inj hplain).symm (hkey.trans hnone.symm))
  | reheaded hstate =>
    cases hlabel with
    | current hg hkey => exact .inl (.current hg (hkey.trans (keyId_of_settled hstate).symm))
    | staged session hs _ _ => cases hs
    | plain hplain hkey => exact .inl (.plain hplain hkey)
  | opened hstate hprior hstaged hended hnew =>
    cases hlabel with
    | current hg hkey =>
      refine .inl (.current hg ?_)
      rw [hkey, keyId_of_rewriting rfl, hprior, keyId_of_settled hstate]
    | staged session hs hg _ =>
      cases hs
      exact .inr (hv g (Nat.le_of_eq (hg.trans hstaged).symm))
    | plain hplain hkey => exact .inl (.plain hplain hkey)
  | renewed hstate =>
    cases hlabel with
    | current hg hkey => exact .inl (.current hg (hkey.trans (keyId_of_rewriting hstate).symm))
    | staged session hs hg hkey =>
      cases hs
      exact .inl (.staged _ hstate hg hkey)
    | plain hplain hkey => exact .inl (.plain hplain hkey)
  | switched hstate =>
    cases hlabel with
    | current hg hkey => exact .inl (.staged _ hstate hg hkey)
    | staged session hs _ _ => cases hs
    | plain hplain hkey => exact .inl (.plain hplain hkey)
  | restored hstate =>
    cases hlabel with
    | current hg hkey => exact .inl (.current hg (hkey.trans (keyId_of_rewriting hstate).symm))
    | staged session hs _ _ => cases hs
    | plain hplain hkey => exact .inl (.plain hplain hkey)

namespace World

/-- Every item is under the key its generation is for. -/
structure KeyBound (w : World) : Prop where
  current : ∀ (id : ItemId) (item : Item),
    (w.shelf.generation w.record.generation)[id]? = some item →
      item.envelope.under = w.record.keyId
  staged : ∀ session, w.record.state = .rewriting session → ∀ (id : ItemId) (item : Item),
    (w.shelf.generation session.stagedGeneration)[id]? = some item →
      item.envelope.under = some session.next.keyId
  plain : ∀ p, w.record.plain = some p → ∀ (id : ItemId) (item : Item),
    (w.shelf.generation p)[id]? = some item → item.envelope.under = none

/-- The same by labels: the three pointers in one. -/
theorem keyBound_iff {w : World} :
    w.KeyBound ↔ ∀ g key, w.record.Labels g key → ∀ (id : ItemId) (item : Item),
      (w.shelf.generation g)[id]? = some item → item.envelope.under = key := by
  constructor
  · intro h g key hlabel id item hitem
    cases hlabel with
    | current hg hkey =>
      subst hg hkey
      exact h.current id item hitem
    | staged session hstate hg hkey =>
      subst hg hkey
      exact h.staged session hstate id item hitem
    | plain hplain hkey =>
      subst hkey
      exact h.plain g hplain id item hitem
  · intro h
    exact ⟨h _ _ (.current rfl rfl), fun session hs => h _ _ (.staged session hs rfl rfl),
      fun p hp => h _ _ (.plain hp rfl)⟩

variable [Crates]

theorem KeyBound.step {limits : Limits} {w w' : World} {e : Event} (hl : w.Laid)
    (hk : w.KeyBound) (h : Step limits w e w') : w'.KeyBound := by
  rw [keyBound_iff] at hk ⊢
  intro g key hlabel id item hitem
  rcases h.move.labels hl.vacant hlabel with hlabel | hempty
  · rcases h.item hitem with hold | ⟨caller, request, htarget, -, hunder⟩
    · exact hk g key hlabel id item hold
    · rw [hunder]
      exact htarget.labels.unique hl.layout hlabel
  · rw [hempty, Std.ExtTreeMap.getElem?_empty] at hitem
    cases hitem

omit [Crates] in
theorem keyBound_initial : KeyBound initial := by
  rw [keyBound_iff]
  intro g key _ id item hitem
  rw [show initial.shelf.generation g = ∅ from MemoryShelf.generation_empty g,
    Std.ExtTreeMap.getElem?_empty] at hitem
  cases hitem

/-- **I2.** From a new workspace, whatever is requested by whomever and whenever, and
whatever is cut, delayed or lost, every item is under the key its generation is
for. -/
theorem keyBound_run (limits : Limits) (es : List Event) :
    KeyBound (initial.run limits es) :=
  (Runs.always (exec limits) (I := fun w => w.Laid ∧ w.KeyBound)
    (fun w e h =>
      ⟨h.1.step (w.exec_step limits e), h.2.step h.1 (w.exec_step limits e)⟩)
    ⟨laid_initial, keyBound_initial⟩ es).2

end World

end Passalong
