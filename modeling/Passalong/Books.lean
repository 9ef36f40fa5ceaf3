import Passalong.Cleanups
import Passalong.Repair

/-!
# Balanced books (I4)

The record counts the bytes of each live generation as it goes, and never looks at
the shelf between two openings. In every run of completed operations the count is
right (`balanced_run`): each live generation's entry is what the shelf holds, no
other generation has an entry, and once the clean-ups have run every staging place
has a ticket and every generation that holds an item is live.

`Balanced` is about the books alone. `Accounted` is about rubbish: what nothing
points to is owed to a pending clean-up.
-/

namespace Passalong

open Lib

/-! ## Reading and writing the books -/

theorem WorkspaceRecord.usedIn_insert (rec : WorkspaceRecord) (g n h : Nat) :
    ({ rec with used := rec.used.insert g n } : WorkspaceRecord).usedIn h =
      if g = h then n else rec.usedIn h := by
  show ((rec.used.insert g n)[h]?).getD 0 = _
  rw [Map.get_insert]
  split <;> rfl

theorem WorkspaceRecord.usedIn_of_get {rec rec' : WorkspaceRecord} {g : Nat}
    (h : rec'.used[g]? = rec.used[g]?) : rec'.usedIn g = rec.usedIn g := by
  rw [usedIn, usedIn, h]

/-- A partition's generation is live. -/
theorem WorkspaceRecord.generationOf_live {rec : WorkspaceRecord} {partition : Partition}
    {g : Nat} (h : rec.generationOf partition = some g) : g ∈ rec.liveGenerations := by
  rw [mem_liveGenerations]
  cases partition with
  | current => exact .inl (Option.some.inj h).symm
  | plain => exact .inr (.inl h)

/-- Publishing adds the item's bytes to its generation. -/
theorem MemoryShelf.bytes_insert {s s' : MemoryShelf} {g : Nat} {id : ItemId} {item : Item}
    (hnew : (s.generation g)[id]? = none)
    (hgen : s'.generation g = (s.generation g).insert id item) :
    s'.bytes g = s.bytes g + item.content.length := by
  rw [bytes_eq, bytes_eq, hgen, Map.weigh_insert _ _ hnew, Nat.add_comm]

/-- Removing takes the item's bytes from its generation. -/
theorem MemoryShelf.bytes_remove {s : MemoryShelf} {g : Nat} {id : ItemId} {item : Item}
    (hitem : (s.generation g)[id]? = some item) :
    (s.remove g id).2.bytes g = s.bytes g - item.content.length := by
  rw [bytes_eq, bytes_eq, remove_generation, if_pos rfl,
    Map.weigh_erase (fun _ item => item.content.length) hitem]
  omega

/-! ## The books are balanced -/

/-- Each live generation's entry is what the shelf holds, and no other generation has
an entry. -/
structure Balanced (rec : WorkspaceRecord) (shelf : MemoryShelf) : Prop where
  books : ∀ g ∈ rec.liveGenerations, rec.usedIn g = shelf.bytes g
  only : ∀ g n, rec.used[g]? = some n → g ∈ rec.liveGenerations

namespace Balanced

variable {rec rec' : WorkspaceRecord} {shelf shelf' : MemoryShelf}

/-- Nothing to book: neither the books nor the items change. -/
theorem same (hb : Balanced rec shelf) (hused : rec'.used = rec.used)
    (hlive : rec'.liveGenerations = rec.liveGenerations)
    (hitems : ∀ g, shelf'.generation g = shelf.generation g) : Balanced rec' shelf' where
  books := by
    intro g hg
    rw [hlive] at hg
    have hget : rec'.usedIn g = rec.usedIn g := WorkspaceRecord.usedIn_of_get (by rw [hused])
    rw [hget, hb.books g hg, MemoryShelf.bytes_congr (hitems g)]
  only := by
    intro g n hg
    rw [hused] at hg
    rw [hlive]
    exact hb.only g n hg

/-- A live generation is booked anew, with what the shelf then holds. -/
theorem booked (hb : Balanced rec shelf) {g n : Nat} (hg : g ∈ rec.liveGenerations)
    (hused : rec'.used = rec.used.insert g n)
    (hlive : rec'.liveGenerations = rec.liveGenerations) (hn : n = shelf'.bytes g)
    (hitems : ∀ h, g ≠ h → shelf'.generation h = shelf.generation h) :
    Balanced rec' shelf' where
  books := by
    intro h hh
    rw [hlive] at hh
    have hget : rec'.usedIn h = if g = h then n else rec.usedIn h := by
      rw [WorkspaceRecord.usedIn, hused]
      exact rec.usedIn_insert g n h
    rw [hget]
    by_cases e : g = h
    · subst e
      rw [if_pos rfl, hn]
    · rw [if_neg e, hb.books h hh, MemoryShelf.bytes_congr (hitems h e)]
  only := by
    intro h m hh
    rw [hlive]
    rw [hused, Map.get_insert] at hh
    split at hh
    · rename_i e
      subst e
      exact hg
    · exact hb.only h m hh

/-- A generation that was not live has no entry. -/
theorem usedIn_dead (hb : Balanced rec shelf) {g : Nat} (hg : g ∉ rec.liveGenerations) :
    rec.usedIn g = 0 := by
  rw [WorkspaceRecord.usedIn]
  cases hget : rec.used[g]? with
  | none => rfl
  | some n => exact absurd (hb.only g n hget) hg

/-- An empty generation becomes live, and none ceases to be. -/
theorem grown (hb : Balanced rec shelf) (hl : rec.Layout)
    (hv : shelf.generation rec.nextGeneration = ∅) (hused : rec'.used = rec.used)
    (hnew : ∀ g ∈ rec'.liveGenerations, g ∈ rec.liveGenerations ∨ g = rec.nextGeneration)
    (hold : ∀ g ∈ rec.liveGenerations, g ∈ rec'.liveGenerations) : Balanced rec' shelf where
  books := by
    intro g hg
    have hget : rec'.usedIn g = rec.usedIn g := WorkspaceRecord.usedIn_of_get (by rw [hused])
    rw [hget]
    rcases hnew g hg with hlive | rfl
    · exact hb.books g hlive
    · have hdead : rec.nextGeneration ∉ rec.liveGenerations := by
        intro hmem
        exact Nat.lt_irrefl _ (hl.live_lt _ hmem)
      rw [hb.usedIn_dead hdead, shelf.bytes_of_empty hv]
  only := by
    intro g n hg
    rw [hused] at hg
    exact hold g (hb.only g n hg)

/-- A generation ceases to be live, and its entry goes with it. -/
theorem dropped (hb : Balanced rec shelf) {d : Nat} (hused : rec'.used = rec.used.erase d)
    (hlive : ∀ g, g ∈ rec'.liveGenerations ↔ g ∈ rec.liveGenerations ∧ g ≠ d) :
    Balanced rec' shelf where
  books := by
    intro g hg
    obtain ⟨hmem, hne⟩ := (hlive g).mp hg
    have hget : rec'.used[g]? = rec.used[g]? := by
      rw [hused, Map.get_erase_of_ne _ (Ne.symm hne)]
    rw [WorkspaceRecord.usedIn_of_get hget]
    exact hb.books g hmem
  only := by
    intro g n hg
    rw [hused, Map.get_erase] at hg
    split at hg
    · cases hg
    · rename_i hne
      exact (hlive g).mpr ⟨hb.only g n hg, fun h => hne h.symm⟩

end Balanced

/-- The live generations once the staged one replaces the current one. -/
theorem WorkspaceRecord.live_switched {rec : WorkspaceRecord} {session : Session}
    (hl : rec.Layout) (hstate : rec.state = .rewriting session) (g : Nat) :
    g ∈ (rec.switched session).liveGenerations ↔
      g ∈ rec.liveGenerations ∧ g ≠ rec.generation := by
  have hplain := hl.plain_ne
  have hstaged := hl.staged_ne
  have hs := stagedGeneration_of_rewriting hstate
  rw [mem_liveGenerations, mem_liveGenerations, hs]
  rw [hs] at hstaged
  show g = session.stagedGeneration ∨ rec.plain = some g ∨ none = some g ↔ _
  constructor
  · rintro (rfl | hp | h)
    · exact ⟨.inr (.inr rfl), fun h => hstaged (by rw [h])⟩
    · refine ⟨.inr (.inl hp), ?_⟩
      rintro rfl
      exact hplain hp
    · cases h
  · rintro ⟨rfl | hp | hst, hne⟩
    · exact absurd rfl hne
    · exact .inr (.inl hp)
    · exact .inl (Option.some.inj hst).symm

/-- The live generations once the staged one is given up. -/
theorem WorkspaceRecord.live_restored {rec : WorkspaceRecord} {session : Session}
    (hl : rec.Layout) (hstate : rec.state = .rewriting session) (g : Nat) :
    g ∈ (rec.restored session).liveGenerations ↔
      g ∈ rec.liveGenerations ∧ g ≠ session.stagedGeneration := by
  have hstaged := hl.staged_ne
  have hboth := hl.plain_ne_staged
  have hs := stagedGeneration_of_rewriting hstate
  rw [mem_liveGenerations, mem_liveGenerations]
  rw [hs] at hstaged hboth ⊢
  show g = rec.generation ∨ rec.plain = some g ∨ none = some g ↔ _
  constructor
  · rintro (rfl | hp | h)
    · exact ⟨.inl rfl, fun h => hstaged (by rw [h])⟩
    · refine ⟨.inr (.inl hp), ?_⟩
      rintro rfl
      exact hboth _ hp rfl
    · cases h
  · rintro ⟨rfl | hp | hst, hne⟩
    · exact .inl rfl
    · exact .inr (.inl hp)
    · exact absurd (Option.some.inj hst).symm hne

section
variable [Crates]

/-- **Every completed operation keeps the books balanced.** -/
theorem Change.balanced {r : Rules} {op : Op} {a : Answer} {rec : WorkspaceRecord}
    {shelf : MemoryShelf} {after : List Cleanup} (h : Change r op a rec shelf after)
    (hl : r.record.Layout)
    (hv : ∀ g, r.record.nextGeneration ≤ g → r.shelf.generation g = ∅)
    (hb : Balanced r.record r.shelf) : Balanced rec shelf := by
  have hmove := h.move
  have hempty := hv _ (Nat.le_refl _)
  cases h with
  | kept => exact hb
  | discarded => exact hb
  | replayed _ => exact hb
  | deleted _ hg hitem =>
    refine hb.booked (WorkspaceRecord.generationOf_live hg) rfl rfl ?_ ?_
    · rw [MemoryShelf.bytes_remove hitem, hb.books _ (WorkspaceRecord.generationOf_live hg)]
    · intro h hne
      rw [MemoryShelf.remove_generation, if_neg hne]
  | sealed hstate _ =>
    refine hb.same rfl ?_ fun _ => rfl
    rw [WorkspaceRecord.liveGenerations_of_settled hstate,
      WorkspaceRecord.liveGenerations_of_settled rfl]
  | setAside hstate =>
    -- a plaintext workspace has no plain partition to forget
    have hplain := hl.plain_sealed (WorkspaceRecord.seal?_of_settled hstate)
    refine hb.grown hl hempty rfl (fun g hg => hmove.live hg) ?_
    intro g hg
    rw [WorkspaceRecord.liveGenerations_of_settled hstate, hplain] at hg
    rw [WorkspaceRecord.liveGenerations_of_settled rfl]
    exact List.mem_cons_of_mem _ hg
  | reheaded hstate =>
    refine hb.same rfl ?_ fun _ => rfl
    rw [WorkspaceRecord.liveGenerations_of_settled hstate,
      WorkspaceRecord.liveGenerations_of_settled rfl]
  | begun _ _ _ _ _ _ => exact hb.same rfl rfl (MemoryShelf.stageCreate_generation _ _)
  | rebegun _ _ _ => exact hb.same rfl rfl (MemoryShelf.stageCreate_generation _ _)
  | stored _ _ => exact hb.same rfl rfl fun _ => rfl
  | put _ => exact hb.same rfl rfl (MemoryShelf.write_generation _ _ _ _ _)
  | duplicate _ _ _ _ => exact hb.same rfl rfl fun _ => rfl
  | @published caller u ticket g staged _ hticket htarget hstaged hsize hnew hstaging hitems =>
    have hgen := hitems g
    rw [if_pos rfl] at hgen
    have hid := get_of_findIn_eq_none hnew
    refine hb.booked htarget.live rfl rfl ?_ ?_
    · rw [MemoryShelf.bytes_insert hid hgen, hb.books g htarget.live, hsize]
    · intro h hne
      rw [hitems, if_neg hne]
  | recovered _ htarget _ _ _ => exact hb.booked htarget.live rfl rfl rfl fun _ _ => rfl
  | aborted => exact hb.same rfl rfl fun _ => rfl
  | probed _ =>
    refine hb.same rfl rfl fun g => ?_
    rw [MemoryShelf.stageRemove_generation, MemoryShelf.stageCreate_generation]
  | opened hstate _ _ _ =>
    refine hb.grown hl hempty rfl (fun g hg => hmove.live hg) ?_
    intro g hg
    rw [WorkspaceRecord.liveGenerations_of_settled hstate] at hg
    rw [WorkspaceRecord.liveGenerations_of_rewriting rfl, ← List.cons_append]
    exact List.mem_append_left _ hg
  | renewed hstate =>
    refine hb.same rfl ?_ fun _ => rfl
    rw [WorkspaceRecord.liveGenerations_of_rewriting hstate,
      WorkspaceRecord.liveGenerations_of_rewriting rfl]
  | switched hstate _ _ _ _ =>
    exact hb.dropped rfl (WorkspaceRecord.live_switched hl hstate)
  | restored hstate =>
    exact hb.dropped rfl (WorkspaceRecord.live_restored hl hstate)
  | cleaned =>
    -- every entry is of a live generation, so none is dropped
    have hused : r.cleanStaging.2.record.used = r.record.used := by
      refine Map.filter_same fun g n hg => ?_
      have hlive := hb.only g n hg
      rw [Bool.not_eq_true', ← Bool.not_eq_true, List.contains_iff_mem, List.mem_filter,
        Bool.not_eq_true', ← Bool.not_eq_true, List.contains_iff_mem]
      exact fun h => h.2 hlive
    exact hb.same hused rfl fun _ => rfl
  | reconciled =>
    -- the live generations are counted anew
    refine ⟨fun g hg => ?_, fun g n hg => ?_⟩
    · change g ∈ r.record.liveGenerations at hg
      rw [WorkspaceRecord.usedIn, r.reconcile_used, if_pos hg]
      rfl
    · rw [r.reconcile_used] at hg
      by_cases hlive : g ∈ r.record.liveGenerations
      · exact hlive
      · rw [if_neg hlive] at hg
        split at hg
        · exact hb.only g n hg
        · cases hg

/-- Only live generations have an entry, whether or not it is right: a publish that was
never recorded is of a live generation. -/
theorem Change.only {r : Rules} {op : Op} {a : Answer} {rec : WorkspaceRecord}
    {shelf : MemoryShelf} {after : List Cleanup} (h : Change r op a rec shelf after)
    (hl : r.record.Layout)
    (ho : ∀ g n, r.record.used[g]? = some n → g ∈ r.record.liveGenerations) :
    ∀ g n, rec.used[g]? = some n → g ∈ rec.liveGenerations := by
  intro g n hg
  -- booked bytes are of a live generation; forgotten ones leave the books
  have hbooked : ∀ {d m : Nat}, d ∈ r.record.liveGenerations →
      (r.record.used.insert d m)[g]? = some n → g ∈ r.record.liveGenerations := by
    intro d m hd hget
    rw [Map.get_insert] at hget
    split at hget
    · rename_i e
      exact e ▸ hd
    · exact ho g n hget
  have hforgot : ∀ {d : Nat}, (r.record.used.erase d)[g]? = some n →
      g ∈ r.record.liveGenerations ∧ g ≠ d := by
    intro d hget
    rw [Map.get_erase] at hget
    split at hget
    · cases hget
    · rename_i hne
      exact ⟨ho g n hget, Ne.symm hne⟩
  cases h with
  | deleted _ hd _ _ => exact hbooked (WorkspaceRecord.generationOf_live hd) hg
  | published _ htarget _ _ _ _ _ => exact hbooked htarget.live hg
  | recovered _ htarget _ _ _ => exact hbooked htarget.live hg
  | sealed hstate _ _ _ =>
    -- the settled changes and the rewrite's begin lose no live generation
    have hold := ho g n hg
    rw [WorkspaceRecord.liveGenerations_of_settled hstate] at hold
    rw [WorkspaceRecord.liveGenerations_of_settled rfl]
    exact hold
  | setAside hstate _ =>
    have hold := ho g n hg
    rw [WorkspaceRecord.liveGenerations_of_settled hstate,
      hl.plain_sealed (WorkspaceRecord.seal?_of_settled hstate)] at hold
    rw [WorkspaceRecord.liveGenerations_of_settled rfl]
    exact List.mem_cons_of_mem _ hold
  | reheaded hstate _ =>
    have hold := ho g n hg
    rw [WorkspaceRecord.liveGenerations_of_settled hstate] at hold
    rw [WorkspaceRecord.liveGenerations_of_settled rfl]
    exact hold
  | opened hstate _ _ _ _ _ =>
    have hold := ho g n hg
    rw [WorkspaceRecord.liveGenerations_of_settled hstate] at hold
    rw [WorkspaceRecord.liveGenerations_of_rewriting rfl, ← List.cons_append]
    exact List.mem_append_left _ hold
  | renewed hstate _ _ =>
    have hold := ho g n hg
    rw [WorkspaceRecord.liveGenerations_of_rewriting hstate] at hold
    rw [WorkspaceRecord.liveGenerations_of_rewriting rfl]
    exact hold
  -- the end of a rewrite takes one generation from the live ones and from the books
  | switched hstate _ _ _ _ => exact (WorkspaceRecord.live_switched hl hstate g).mpr (hforgot hg)
  | restored hstate _ => exact (WorkspaceRecord.live_restored hl hstate g).mpr (hforgot hg)
  | cleaned => exact ho g n (Map.get_of_get_filter hg)
  | reconciled =>
    -- a reconcile counts the live generations anew
    rw [r.reconcile_used] at hg
    split at hg
    · rename_i hlive
      exact hlive
    · split at hg
      · exact ho g n hg
      · cases hg
  | _ => exact ho g n hg

/-! ## Rubbish is owed to a clean-up -/

/-- A staging place that a change leaves was there, or has a ticket. -/
theorem Change.staging {r : Rules} {op : Op} {a : Answer} {rec : WorkspaceRecord}
    {shelf : MemoryShelf} {after : List Cleanup} (h : Change r op a rec shelf after)
    {u : UploadId} {staged : Staged} (hstaged : shelf.staging[u]? = some staged) :
    (∃ staged', r.shelf.staging[u]? = some staged') ∨
      ∃ ticket, rec.tickets[u]? = some ticket := by
  cases h with
  | deleted _ _ _ =>
    rw [MemoryShelf.remove_staging] at hstaged
    exact .inl ⟨staged, hstaged⟩
  | begun _ _ _ _ _ _ =>
    rcases r.shelf.staging_of_stageCreate hstaged with rfl | hold
    · exact .inr ⟨_, Map.get_insert_self _ _ _⟩
    · exact .inl ⟨staged, hold⟩
  | rebegun hticket _ _ =>
    rcases r.shelf.staging_of_stageCreate hstaged with rfl | hold
    · exact .inr ⟨_, hticket⟩
    · exact .inl ⟨staged, hold⟩
  | put _ =>
    refine .inl (Option.isSome_iff_exists.mp ?_)
    rw [← MemoryShelf.write_staging_isSome, hstaged]
    rfl
  | published _ _ _ _ _ hstaging _ =>
    rw [hstaging] at hstaged
    exact .inl ⟨staged, Map.get_of_get_erase hstaged⟩
  | probed _ =>
    rw [MemoryShelf.stageRemove_staging] at hstaged
    split at hstaged
    · cases hstaged
    · rename_i hne
      rcases r.shelf.staging_of_stageCreate hstaged with rfl | hold
      · exact absurd rfl hne
      · exact .inl ⟨staged, hold⟩
  | _ => exact .inl ⟨staged, hstaged⟩

omit [Crates] in
/-- A ticket that is given up has its staging place removed. -/
theorem WorkspaceRecord.without_or_removal {rec : WorkspaceRecord}
    (p : UploadId → Ticket → Bool) {u : UploadId} {ticket : Ticket}
    (h : rec.tickets[u]? = some ticket) :
    (rec.without p).tickets[u]? = some ticket ∨ Cleanup.removeStaging u ∈ rec.removals p := by
  by_cases hp : p u ticket = true
  · exact .inr (mem_removals.mpr ⟨u, ticket, rfl, h, hp⟩)
  · refine .inl (Map.get_filter_eq_some.mpr ⟨h, ?_⟩)
    rw [Bool.not_eq_true', ← Bool.not_eq_true]
    exact hp

/-- A ticket that is gone after a change leaves no staging place, or one that is to be
removed. -/
theorem Change.keeps_ticket {r : Rules} {op : Op} {a : Answer} {rec : WorkspaceRecord}
    {shelf : MemoryShelf} {after : List Cleanup} (h : Change r op a rec shelf after)
    {u : UploadId} {ticket : Ticket} {staged : Staged}
    (hticket : r.record.tickets[u]? = some ticket)
    (hstaged : shelf.staging[u]? = some staged) :
    (∃ ticket', rec.tickets[u]? = some ticket') ∨ Cleanup.removeStaging u ∈ after := by
  -- a ticket goes only with the clean-up of its place
  have hfinished : ∀ v, (∃ ticket', (r.record.tickets.erase v)[u]? = some ticket') ∨
      Cleanup.removeStaging u ∈ [Cleanup.removeStaging v] := by
    intro v
    by_cases e : v = u
    · subst e
      exact .inr (List.mem_singleton_self _)
    · rw [Map.get_erase_of_ne _ e]
      exact .inl ⟨ticket, hticket⟩
  -- and one that the janitor forgets is cleaned up in the same pass
  have hjanitor : r.shelf.staging[u]? = some staged →
      (∃ ticket', r.cleanStaging.2.record.tickets[u]? = some ticket') ∨
        Cleanup.removeStaging u ∈ r.cleanStaging.2.after := by
    intro hold
    cases hclean : r.cleanStaging.2.record.tickets[u]? with
    | none =>
      exact .inr (Rules.mem_cleanStaging_after.mpr
        (.inr (.inl ⟨u, rfl, ⟨staged, hold⟩, hclean⟩)))
    | some ticket' => exact .inl ⟨ticket', rfl⟩
  cases h with
  | @begun _ _ _ v _ _ _ _ _ _ =>
    by_cases e : v = u
    · subst e
      exact .inl ⟨_, Map.get_insert_self _ _ _⟩
    · refine .inl ⟨ticket, ?_⟩
      show (r.record.tickets.insert v _)[u]? = some ticket
      rw [Map.get_insert_of_ne _ _ e]
      exact hticket
  | stored _ _ =>
    exact (WorkspaceRecord.without_or_removal _ hticket).imp (fun h => ⟨_, h⟩) id
  | duplicate _ _ _ _ => exact hfinished _
  | published _ _ _ _ _ _ _ => exact hfinished _
  | recovered _ _ _ _ _ => exact hfinished _
  | aborted => exact (WorkspaceRecord.without_or_removal _ hticket).imp (fun h => ⟨_, h⟩) id
  | switched _ _ _ _ _ =>
    exact (WorkspaceRecord.without_or_removal _ hticket).imp (fun h => ⟨_, h⟩)
      (List.mem_cons_of_mem _)
  | restored _ =>
    exact (WorkspaceRecord.without_or_removal _ hticket).imp (fun h => ⟨_, h⟩)
      (List.mem_cons_of_mem _)
  | cleaned => exact hjanitor hstaged
  | reconciled => exact hjanitor hstaged
  | _ => exact .inl ⟨ticket, hticket⟩

/-- A generation that ceases to be live is to be dropped. -/
theorem Change.keeps_live {r : Rules} {op : Op} {a : Answer} {rec : WorkspaceRecord}
    {shelf : MemoryShelf} {after : List Cleanup} (h : Change r op a rec shelf after)
    (hl : r.record.Layout) {g : Nat} (hg : g ∈ r.record.liveGenerations) :
    g ∈ rec.liveGenerations ∨ Cleanup.dropGeneration g ∈ after := by
  cases h with
  | sealed hstate _ =>
    rw [WorkspaceRecord.liveGenerations_of_settled hstate] at hg
    rw [WorkspaceRecord.liveGenerations_of_settled rfl]
    exact .inl hg
  | setAside hstate =>
    have hplain := hl.plain_sealed (WorkspaceRecord.seal?_of_settled hstate)
    rw [WorkspaceRecord.liveGenerations_of_settled hstate, hplain] at hg
    exact .inl (List.mem_cons_of_mem _ hg)
  | reheaded hstate =>
    rw [WorkspaceRecord.liveGenerations_of_settled hstate] at hg
    rw [WorkspaceRecord.liveGenerations_of_settled rfl]
    exact .inl hg
  | opened hstate _ _ _ =>
    rw [WorkspaceRecord.liveGenerations_of_settled hstate] at hg
    rw [WorkspaceRecord.liveGenerations_of_rewriting rfl, ← List.cons_append]
    exact .inl (List.mem_append_left _ hg)
  | renewed hstate =>
    rw [WorkspaceRecord.liveGenerations_of_rewriting hstate] at hg
    exact .inl hg
  | switched hstate _ _ _ _ =>
    by_cases e : g = r.record.generation
    · subst e
      exact .inr List.mem_cons_self
    · exact .inl ((WorkspaceRecord.live_switched hl hstate g).mpr ⟨hg, e⟩)
  | @restored _ _ session hstate =>
    by_cases e : g = session.stagedGeneration
    · subst e
      exact .inr List.mem_cons_self
    · exact .inl ((WorkspaceRecord.live_restored hl hstate g).mpr ⟨hg, e⟩)
  | _ => exact .inl hg

namespace World

/-- What nothing points to is owed to a pending clean-up. -/
structure Accounted (w : World) : Prop where
  staging : ∀ (u : UploadId) (staged : Staged), w.shelf.staging[u]? = some staged →
    (∃ ticket, w.record.tickets[u]? = some ticket) ∨ Cleanup.removeStaging u ∈ w.pending
  generations : ∀ g, w.shelf.generation g ≠ ∅ →
    g ∈ w.record.liveGenerations ∨ Cleanup.dropGeneration g ∈ w.pending

end World

/-- Whether an event is a completed operation or a clean-up: nothing is cut, lost or
late. -/
def Event.completes : Event → Bool
  | .request _ _ | .cleanup _ => true
  | _ => false

namespace World

variable {limits : Limits} {w w' : World} {e : Event}

omit [Crates] in
/-- A clean-up other than the one performed stays pending. -/
theorem mem_eraseIdx_of_ne {l : List Cleanup} {i : Nat} {c c' : Cleanup}
    (hi : l[i]? = some c) (hmem : c' ∈ l) (hne : c' ≠ c) : c' ∈ l.eraseIdx i := by
  obtain ⟨j, hj⟩ := List.mem_iff_getElem?.mp hmem
  refine List.mem_eraseIdx_iff_getElem?.mpr ⟨j, ?_, hj⟩
  rintro rfl
  rw [hi] at hj
  exact hne (Option.some.inj hj).symm

theorem Accounted.step (hl : w.Laid) (ha : w.Accounted) (he : e.completes = true)
    (h : Step limits w e w') : w'.Accounted := by
  cases h with
  | @done call op a rec shelf after _ hchange =>
    refine ⟨?_, ?_⟩
    · intro u staged hstaged
      rcases hchange.staging hstaged with ⟨staged', hold⟩ | hticket
      · rcases ha.staging u staged' hold with ⟨ticket, hticket⟩ | hpending
        · rcases hchange.keeps_ticket hticket hstaged with hkept | hafter
          · exact .inl hkept
          · exact .inr (List.mem_append_right _ hafter)
        · exact .inr (List.mem_append_left _ hpending)
      · exact .inl hticket
    · intro g hg
      -- what holds an item now held one before, or is where this was published
      have hbefore : g ∈ w.record.liveGenerations ∨ Cleanup.dropGeneration g ∈ w.pending := by
        by_contra hnot
        refine hg (Map.eq_empty_of_get fun id => ?_)
        cases hget : (shelf.generation g)[id]? with
        | none => rfl
        | some item =>
          rcases hchange.shelfStep.item hget with hold | ⟨_, _, htarget, -, -⟩
          · refine absurd (ha.generations g fun hempty => ?_) hnot
            change (w.shelf.generation g)[id]? = some item at hold
            rw [hempty, Std.ExtTreeMap.getElem?_empty] at hold
            cases hold
          · exact absurd (.inl htarget.live) hnot
      rcases hbefore with hlive | hpending
      · rcases hchange.keeps_live hl.layout hlive with hkept | hafter
        · exact .inl hkept
        · exact .inr (List.mem_append_right _ hafter)
      · exact .inr (List.mem_append_left _ hpending)
  | refused hshelf =>
    rcases hshelf with rfl | ⟨v, content, announced, hashed, rfl⟩
    · exact ha
    · refine ⟨?_, ?_⟩
      · intro u staged hstaged
        have hsome := w.shelf.write_staging_isSome v u content announced hashed
        rw [hstaged] at hsome
        obtain ⟨staged', hold⟩ := Option.isSome_iff_exists.mp hsome.symm
        exact ha.staging u staged' hold
      · intro g hg
        rw [MemoryShelf.write_generation] at hg
        exact ha.generations g hg
  | @performed i c hpending =>
    -- what the clean-up was owed for is gone, and it is no other's
    refine ⟨?_, ?_⟩
    · intro u staged hstaged
      cases c with
      | dropGeneration d =>
        rcases ha.staging u staged hstaged with hticket | hmem
        · exact .inl hticket
        · exact .inr (mem_eraseIdx_of_ne hpending hmem (by rintro ⟨⟩))
      | removeStaging v =>
        change (w.shelf.stageRemove v).staging[u]? = some staged at hstaged
        rw [MemoryShelf.stageRemove_staging] at hstaged
        split at hstaged
        · cases hstaged
        · rename_i hne
          rcases ha.staging u staged hstaged with hticket | hmem
          · exact .inl hticket
          · refine .inr (mem_eraseIdx_of_ne hpending hmem ?_)
            rintro h
            exact hne (Cleanup.removeStaging.inj h).symm
    · intro g hg
      cases c with
      | dropGeneration d =>
        change (w.shelf.dropGeneration d).generation g ≠ ∅ at hg
        rw [MemoryShelf.dropGeneration_generation] at hg
        split at hg
        · exact absurd rfl hg
        · rename_i hne
          rcases ha.generations g hg with hlive | hmem
          · exact .inl hlive
          · refine .inr (mem_eraseIdx_of_ne hpending hmem ?_)
            rintro h
            exact hne (Cleanup.dropGeneration.inj h).symm
      | removeStaging v =>
        rcases ha.generations g hg with hlive | hmem
        · exact .inl hlive
        · exact .inr (mem_eraseIdx_of_ne hpending hmem (by rintro ⟨⟩))
  | idle _ => exact ha
  | cut _ => cases he
  | lost => cases he
  | wroteLate => cases he

theorem Balanced.step (hl : w.Laid) (hb : Balanced w.record w.shelf)
    (he : e.completes = true) (h : Step limits w e w') : Balanced w'.record w'.shelf := by
  cases h with
  | done _ hchange => exact hchange.balanced hl.layout hl.vacant hb
  | refused hshelf =>
    rcases hshelf with rfl | ⟨v, content, announced, hashed, rfl⟩
    · exact hb
    · exact hb.same rfl rfl (MemoryShelf.write_generation _ _ _ _ _)
  | @performed i c hpending =>
    cases c with
    | removeStaging v => exact hb.same rfl rfl fun _ => rfl
    | dropGeneration d =>
      refine ⟨?_, hb.only⟩
      intro g hg
      -- what is dropped is dead, so no entry speaks of it
      have hne : d ≠ g := by
        rintro rfl
        exact (hl.dropsDead d (List.mem_of_getElem? hpending)).1 hg
      have hsame : (w.shelf.dropGeneration d).generation g = w.shelf.generation g := by
        rw [MemoryShelf.dropGeneration_generation, if_neg hne]
      show w.record.usedIn g = (w.shelf.dropGeneration d).bytes g
      rw [MemoryShelf.bytes_congr hsame]
      exact hb.books g hg
  | idle _ => exact hb
  | cut _ => cases he
  | lost => cases he
  | wroteLate => cases he

omit [Crates] in
theorem balanced_initial : Balanced initial.record initial.shelf where
  books := by
    intro g _
    rw [show initial.shelf.bytes g = 0 from
      MemoryShelf.bytes_of_empty _ (MemoryShelf.generation_empty g)]
    show ((∅ : Map Nat Nat)[g]?).getD 0 = 0
    rw [Std.ExtTreeMap.getElem?_empty]
    rfl
  only := by
    intro g n h
    change (∅ : Map Nat Nat)[g]? = some n at h
    rw [Std.ExtTreeMap.getElem?_empty] at h
    cases h

omit [Crates] in
theorem accounted_initial : Accounted initial where
  staging := by
    intro u staged h
    change (∅ : Map UploadId Staged)[u]? = some staged at h
    rw [Std.ExtTreeMap.getElem?_empty] at h
    cases h
  generations := by
    intro g hg
    exact absurd (MemoryShelf.generation_empty g) hg

theorem Step.only (h : Step limits w e w') (hl : w.record.Layout)
    (ho : ∀ g n, w.record.used[g]? = some n → g ∈ w.record.liveGenerations) :
    ∀ g n, w'.record.used[g]? = some n → g ∈ w'.record.liveGenerations := by
  cases h with
  | done _ hchange => exact hchange.only hl ho
  | _ => exact ho

/-- **In every run, crashes included, only live generations have an entry.** -/
theorem only_run (limits : Limits) (es : List Event) :
    ∀ g n, (initial.run limits es).record.used[g]? = some n →
      g ∈ (initial.run limits es).record.liveGenerations := by
  refine (Runs.always (exec limits)
    (I := fun w => w.Laid ∧ ∀ g n, w.record.used[g]? = some n → g ∈ w.record.liveGenerations)
    ?_ ⟨laid_initial, balanced_initial.only⟩ es).2
  rintro w e ⟨hl, ho⟩
  exact ⟨hl.step (w.exec_step limits e), (w.exec_step limits e).only hl.layout ho⟩

/-- The invariants of a run of completed operations, together. -/
theorem kept_run (limits : Limits) {es : List Event} (hdone : ∀ e ∈ es, e.completes = true) :
    (initial.run limits es).Laid ∧
      Balanced (initial.run limits es).record (initial.run limits es).shelf ∧
      (initial.run limits es).Accounted := by
  have halong : Runs.Along (exec limits) (fun _ e => e.completes = true) initial es :=
    Runs.along_of_forall _ hdone
  refine Runs.invariant (exec limits)
    (I := fun w => w.Laid ∧ Balanced w.record w.shelf ∧ w.Accounted) ?_
    ⟨laid_initial, balanced_initial, accounted_initial⟩ halong
  rintro w e ⟨hl, hb, ha⟩ he
  have hs := w.exec_step limits e
  exact ⟨hl.step hs, Balanced.step hl hb he hs, ha.step hl he hs⟩

/-- **I4.** In every run of completed operations and of their clean-ups, in any order,
the books are balanced; and when no clean-up is pending, nothing is left that
nothing points to. -/
theorem balanced_run (limits : Limits) (es : List Event)
    (hdone : ∀ e ∈ es, e.completes = true) :
    let w := initial.run limits es
    w.record.usedBytes = (w.record.liveGenerations.map w.shelf.bytes).sum ∧
      (∀ g ∈ w.record.liveGenerations, w.record.usedIn g = w.shelf.bytes g) ∧
      (∀ g n, w.record.used[g]? = some n → g ∈ w.record.liveGenerations) ∧
      (w.pending = [] →
        (∀ (u : UploadId) (staged : Staged), w.shelf.staging[u]? = some staged →
          ∃ ticket, w.record.tickets[u]? = some ticket) ∧
        ∀ g, w.shelf.generation g ≠ ∅ → g ∈ w.record.liveGenerations) := by
  intro w
  obtain ⟨-, hb, ha⟩ := kept_run limits hdone
  refine ⟨?_, hb.books, hb.only, fun hpending => ⟨?_, ?_⟩⟩
  · exact congrArg List.sum (List.map_congr_left hb.books)
  · intro u staged hstaged
    rcases ha.staging u staged hstaged with hticket | hmem
    · exact hticket
    · rw [show (initial.run limits es).pending = [] from hpending] at hmem
      cases hmem
  · intro g hg
    rcases ha.generations g hg with hlive | hmem
    · exact hlive
    · rw [show (initial.run limits es).pending = [] from hpending] at hmem
      cases hmem

end World

end

/-- An upload is stored and its clean-up performed. -/
def Sample.storing : List Event :=
  [.request (call 0 [1]) (.beginUpload laptop (request 2 none)),
    .request (call 0 []) (.putUploadContent laptop (upload 1) [.piece [1, 2]]),
    .request (call 0 []) (.commitUpload laptop (upload 1)),
    .cleanup 0]

theorem World.balanced_storing :
    let w := @World.run Sample.crates Sample.limits .initial Sample.storing
    w.record.usedBytes = (w.record.liveGenerations.map w.shelf.bytes).sum :=
  (@balanced_run Sample.crates Sample.limits Sample.storing (by decide)).1

end Passalong
