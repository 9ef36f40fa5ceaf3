import Passalong.Limiter

/-!
# The failure limiter is a sliding window (`rate.rs`)

The limiter forgets old failures late: those of an address when it is asked about, and an
address when a new one needs its place. What it answers is nonetheless what the failures in
the last minute say. `Exact` relates the table to all failures that were ever counted: what
is not in the table any more is older than a minute (`Exact.limited`, `Exact.failed`).

Times are `u64`, and `at + WINDOW` is taken as the machine takes it (`deadline`). What
bounds the table does not depend on it (`Bounds`).
-/

namespace Passalong

open Lib

namespace FailureLimiter

/-! ## The limiter on machine integers -/

/-- `at + WINDOW`, which wraps. -/
def deadline (failure : Nat) : Nat := (failure + failureWindow) % u64Bound

theorem deadline_eq {failure : Nat} (h : failure + failureWindow < u64Bound) :
    deadline failure = failure + failureWindow :=
  Nat.mod_eq_of_lt h

namespace Machine

/-- `forget_old`. -/
def forgetOld (failures : List Nat) (now : Nat) : List Nat :=
  failures.dropWhile fun failure => deadline failure ≤ now

/-- `limited`. -/
def limited (l : FailureLimiter) (address : IpAddr) (now : Nat) : Option Nat × FailureLimiter :=
  if l.perMinute = 0 then (none, l)
  else
    match l.table[countedAs address]? with
    | none => (none, l)
    | some failures =>
      match forgetOld failures now with
      | [] => (none, { l with table := l.table.erase (countedAs address) })
      | oldest :: later =>
        (if l.perMinute ≤ (oldest :: later).length then some (max (deadline oldest - now) 1)
          else none,
          { l with table := l.table.insert (countedAs address) (oldest :: later) })

/-- What has not cleared. -/
def uncleared (table : Map IpAddr (List Nat)) (now : Nat) : Map IpAddr (List Nat) :=
  table.filter fun _ failures => failures.getLast?.any fun last => now < deadline last

/-- `make_room`. -/
def makeRoom (table : Map IpAddr (List Nat)) (capacity now : Nat) : Map IpAddr (List Nat) :=
  let kept := uncleared table now
  if kept.size < capacity then kept
  else
    match stalest kept with
    | some address => kept.erase address
    | none => kept

/-- The table of `failed`, with room for the address. -/
def roomy (l : FailureLimiter) (address : IpAddr) (now : Nat) : Map IpAddr (List Nat) :=
  if !l.table.contains (countedAs address) && l.capacity ≤ l.table.size then
    makeRoom l.table l.capacity now
  else l.table

/-- `failed`. -/
def failed (l : FailureLimiter) (address : IpAddr) (now : Nat) : FailureLimiter :=
  if l.perMinute = 0 then l
  else
    let table := roomy l address now
    let failures := forgetOld (table[countedAs address]?.getD []) now
    let failures :=
      if failures.length < l.perMinute then failures ++ [now] else failures
    { l with table := table.insert (countedAs address) failures }

/-- An address that has not cleared makes room. -/
def evicts (l : FailureLimiter) (address : IpAddr) (now : Nat) : Bool :=
  !l.table.contains (countedAs address) && l.capacity ≤ l.table.size &&
    l.capacity ≤ (uncleared l.table now).size

end Machine

/-- A call. -/
inductive Call where
  | limited (address : IpAddr) (now : Nat)
  | failed (address : IpAddr) (now : Nat)
  deriving DecidableEq, Repr

namespace Call

def time : Call → Nat
  | limited _ now | failed _ now => now

def isLimited : Call → Bool
  | limited .. => true
  | failed .. => false

end Call

def exec (l : FailureLimiter) : Call → FailureLimiter
  | .limited address now => (Machine.limited l address now).2
  | .failed address now => Machine.failed l address now

/-! ## As long as no deadline wraps -/

theorem Machine.forgetOld_eq {failures : List Nat}
    (h : ∀ failure ∈ failures, failure + failureWindow < u64Bound) (now : Nat) :
    Machine.forgetOld failures now = FailureLimiter.forgetOld failures now := by
  unfold Machine.forgetOld FailureLimiter.forgetOld
  induction failures with
  | nil => rfl
  | cons failure failures ih =>
    obtain ⟨hfirst, hrest⟩ := List.forall_mem_cons.mp h
    unfold Windows.forget
    rw [List.dropWhile_cons, deadline_eq hfirst, ih hrest]
    simp only [decide_eq_true_eq]

variable {l : FailureLimiter} {address k : IpAddr} {now : Nat}

/-- The table holds times that are far from the end of `u64`. -/
def InRange (l : FailureLimiter) : Prop :=
  ∀ k, ∀ failure ∈ l.remembered k, failure + failureWindow < u64Bound

theorem InRange.get (h : l.InRange) {failures : List Nat} (hget : l.table[k]? = some failures) :
    ∀ failure ∈ failures, failure + failureWindow < u64Bound := by
  have hk := h k
  rw [remembered, hget] at hk
  exact hk

theorem Machine.forgetOld_subset (failures : List Nat) (now : Nat) :
    Machine.forgetOld failures now ⊆ failures :=
  (List.dropWhile_sublist _).subset

/-- Making room only takes addresses away. -/
theorem Machine.get_of_get_roomy {failures : List Nat}
    (h : (Machine.roomy l address now)[k]? = some failures) : l.table[k]? = some failures := by
  unfold Machine.roomy Machine.makeRoom at h
  split at h
  · simp only at h
    split at h
    · exact Map.get_of_get_filter h
    · split at h
      · exact Map.get_of_get_filter (Map.get_of_get_erase h)
      · exact Map.get_of_get_filter h
  · exact h

/-- **Then the machine's limiter is the limiter.** -/
theorem Machine.limited_eq (h : l.InRange) (address : IpAddr) (now : Nat) :
    Machine.limited l address now = l.limited address now := by
  unfold Machine.limited FailureLimiter.limited
  split
  · rfl
  cases hget : l.table[countedAs address]? with
  | none => rfl
  | some failures =>
    have hrange := h.get hget
    have hsubset := Machine.forgetOld_subset failures now
    rw [Machine.forgetOld_eq hrange] at hsubset
    simp only [Machine.forgetOld_eq hrange]
    cases hforgot : FailureLimiter.forgetOld failures now with
    | nil => rfl
    | cons oldest later =>
      rw [hforgot] at hsubset
      simp only [deadline_eq (hrange oldest (hsubset List.mem_cons_self))]

theorem Machine.failed_eq (h : l.InRange) (address : IpAddr) (now : Nat) :
    Machine.failed l address now = l.failed address now := by
  have hkept : uncleared l.table now = l.table.filter fun _ failures =>
      failures.getLast?.any fun last => now < last + failureWindow := by
    refine Std.ExtTreeMap.ext_getElem? fun k => ?_
    unfold uncleared
    rw [Map.get_filter, Map.get_filter]
    cases hget : l.table[k]? with
    | none => rfl
    | some failures =>
      have hsame : (failures.getLast?.any fun last => decide (now < deadline last)) =
          failures.getLast?.any fun last => decide (now < last + failureWindow) := by
        cases hlast : failures.getLast? with
        | none => rfl
        | some last =>
          rw [Option.any_some, Option.any_some,
            deadline_eq (h.get hget last (List.mem_of_getLast? hlast))]
      simp only [Option.filter_some, hsame]
  have hroomy : roomy l address now =
      if !l.table.contains (countedAs address) && l.capacity ≤ l.table.size then
        FailureLimiter.makeRoom l.table l.capacity now
      else l.table := by
    have hmade : makeRoom l.table l.capacity now =
        FailureLimiter.makeRoom l.table l.capacity now :=
      congrArg (fun kept => if kept.size < l.capacity then kept
        else match stalest kept with
          | some address => kept.erase address
          | none => kept) hkept
    unfold roomy
    rw [hmade]
  have hforgot : forgetOld ((roomy l address now)[countedAs address]?.getD []) now =
      FailureLimiter.forgetOld ((roomy l address now)[countedAs address]?.getD []) now := by
    refine forgetOld_eq (fun failure hmem => ?_) now
    cases hget : (roomy l address now)[countedAs address]? with
    | none =>
      rw [hget] at hmem
      cases hmem
    | some failures =>
      rw [hget] at hmem
      exact h.get (get_of_get_roomy hget) failure hmem
  unfold Machine.failed FailureLimiter.failed
  split
  · rfl
  · dsimp only
    rw [hforgot, hroomy]

/-! ## How large the table gets -/

/-- The table's bounds. -/
structure Bounds (l : FailureLimiter) : Prop where
  capacity : 1 ≤ l.capacity
  size : l.table.size ≤ l.capacity
  failures : ∀ (k : IpAddr) (failures : List Nat), l.table[k]? = some failures →
    1 ≤ failures.length ∧ failures.length ≤ l.perMinute

theorem bounds_new (perMinute capacity : Nat) : (new perMinute capacity).Bounds where
  capacity := Nat.le_max_right _ _
  size := by
    show (∅ : Map IpAddr (List Nat)).size ≤ _
    rw [Std.ExtTreeMap.size_empty]
    exact Nat.zero_le _
  failures k failures h := by
    have hnone : (∅ : Map IpAddr (List Nat))[k]? = none := Std.ExtTreeMap.getElem?_empty
    cases hnone.symm.trans h

/-- The time of the last failure, as `stalest` compares it. -/
def lastOf (failures : List Nat) : Nat := failures.getLast?.getD 0

/-- The fold of `stalest`: the first entry with the least last failure. -/
theorem stalest_fold (entries : List (IpAddr × List Nat)) (best : Option (IpAddr × List Nat)) :
    match entries.foldl (fun best e =>
        match best with
        | none => some e
        | some b => if e.2.getLast?.getD 0 < b.2.getLast?.getD 0 then some e else some b) best with
    -- the first entry stands until one with an older last failure comes
    | none => best = none ∧ entries = []
    | some e => (e ∈ entries ∨ best = some e) ∧ (∀ e' ∈ entries, lastOf e.2 ≤ lastOf e'.2) ∧
        ∀ b, best = some b → lastOf e.2 ≤ lastOf b.2 := by
  induction entries generalizing best with
  | nil =>
    cases best with
    | none => exact ⟨rfl, rfl⟩
    | some b =>
      refine ⟨.inr rfl, by simp, fun b' hb' => ?_⟩
      cases hb'
      exact Nat.le_refl _
  | cons e entries ih =>
    rw [List.foldl_cons]
    cases best with
    | none =>
      have h := ih (some e)
      dsimp only at h ⊢
      split at h
      · cases h.1
      · next found hfound =>
        obtain ⟨hmem, hall, hbest⟩ := h
        refine ⟨.inl ?_, fun e' he' => ?_, nofun⟩
        · rcases hmem with hmem | heq
          · exact List.mem_cons_of_mem _ hmem
          · cases heq
            exact List.mem_cons_self
        · rcases List.mem_cons.mp he' with rfl | he'
          · exact hbest _ rfl
          · exact hall e' he'
    | some b =>
      dsimp only
      -- an entry takes the best one's place where its last failure is older
      by_cases hless : lastOf e.2 < lastOf b.2
      · have h := ih (some e)
        rw [if_pos (show e.2.getLast?.getD 0 < b.2.getLast?.getD 0 from hless)]
        split at h
        · cases h.1
        · next found hfound =>
          obtain ⟨hmem, hall, hbest⟩ := h
          have hle := hbest e rfl
          refine ⟨.inl ?_, fun e' he' => ?_, fun b' hb' => ?_⟩
          · rcases hmem with hmem | heq
            · exact List.mem_cons_of_mem _ hmem
            · cases heq
              exact List.mem_cons_self
          · rcases List.mem_cons.mp he' with rfl | he'
            · exact hle
            · exact hall e' he'
          · cases hb'
            omega
      · have h := ih (some b)
        rw [if_neg (show ¬e.2.getLast?.getD 0 < b.2.getLast?.getD 0 from hless)]
        split at h
        · cases h.1
        · next found hfound =>
          obtain ⟨hmem, hall, hbest⟩ := h
          have hle := hbest b rfl
          refine ⟨hmem.imp (List.mem_cons_of_mem _) id, fun e' he' => ?_, fun b' hb' => ?_⟩
          · rcases List.mem_cons.mp he' with rfl | he'
            · omega
            · exact hall e' he'
          · cases hb'
            exact hle

/-- **The stalest address** is there, and no last failure is before its own. -/
theorem stalest_spec {table : Map IpAddr (List Nat)} {k : IpAddr}
    (h : stalest table = some k) :
    ∃ failures, table[k]? = some failures ∧
      ∀ (k' : IpAddr) (failures' : List Nat), table[k']? = some failures' →
        lastOf failures ≤ lastOf failures' := by
  have hfold := stalest_fold table.toList none
  obtain ⟨e, hfound, rfl⟩ := Option.map_eq_some_iff.mp h
  split at hfold
  · next hnone => cases hnone.symm.trans hfound
  · next found hfound' =>
    obtain rfl : found = e := Option.some.inj (hfound'.symm.trans hfound)
    obtain ⟨hmem, hall, -⟩ := hfold
    refine ⟨found.2, Map.mem_toList_iff.mp (hmem.resolve_right nofun), fun k' failures' hget => ?_⟩
    exact hall (k', failures') (Map.mem_toList_iff.mpr hget)

/-- A table that is not empty has one. -/
theorem stalest_isSome {table : Map IpAddr (List Nat)} (h : 0 < table.size) :
    ∃ k, stalest table = some k := by
  have hfold := stalest_fold table.toList none
  unfold stalest
  split at hfold
  · rw [← Std.ExtTreeMap.length_toList, hfold.2] at h
    cases h
  · next found hfound => exact ⟨found.1, congrArg (Option.map Prod.fst) hfound⟩

/-- Room is made in a full table. -/
theorem Machine.size_makeRoom {table : Map IpAddr (List Nat)} {capacity : Nat}
    (hpos : 1 ≤ capacity) (hsize : table.size ≤ capacity) (now : Nat) :
    (makeRoom table capacity now).size < capacity := by
  have hkept : (uncleared table now).size ≤ capacity :=
    Nat.le_trans Std.ExtTreeMap.size_filter_le_size hsize
  unfold makeRoom
  dsimp only
  split
  · next hlt => exact hlt
  · next hfull =>
    obtain ⟨k, hk⟩ := @stalest_isSome (uncleared table now) (by omega)
    obtain ⟨failures, hget, -⟩ := stalest_spec hk
    rw [hk]
    dsimp only
    rw [Std.ExtTreeMap.size_erase, if_pos (Map.contains_iff_get.mpr ⟨failures, hget⟩)]
    omega

theorem Machine.size_roomy (hb : l.Bounds) (address : IpAddr) (now : Nat) :
    (roomy l address now).size ≤ l.capacity ∧
      (countedAs address ∈ roomy l address now ∨ (roomy l address now).size < l.capacity) := by
  unfold roomy
  split
  · next hfull =>
    have hlt := size_makeRoom hb.capacity hb.size now
    exact ⟨hlt.le, .inr hlt⟩
  · next hroom =>
    refine ⟨hb.size, ?_⟩
    rw [Bool.and_eq_true, not_and_or] at hroom
    rcases hroom with hthere | hsize
    · exact .inl (by simpa using hthere)
    · exact .inr (by simpa using hsize)

/-- An entry of the table that was written over with other failures, or a new one. -/
theorem Bounds.insert {table : Map IpAddr (List Nat)} {failures : List Nat}
    (hb : l.Bounds) (hkept : ∀ (k : IpAddr) (failures : List Nat), table[k]? = some failures →
      l.table[k]? = some failures)
    (hsize : table.size ≤ l.capacity) (hroom : k ∈ table ∨ table.size < l.capacity)
    (hlength : 1 ≤ failures.length ∧ failures.length ≤ l.perMinute) :
    ({ l with table := table.insert k failures } : FailureLimiter).Bounds where
  capacity := hb.capacity
  size := by
    show (table.insert k failures).size ≤ l.capacity
    rw [Std.ExtTreeMap.size_insert]
    split
    · exact hsize
    · next hmem => exact hroom.resolve_left hmem
  failures k' failures' hget := by
    have hget' : (table.insert k failures)[k']? = some failures' := hget
    rw [Map.get_insert] at hget'
    split at hget'
    · cases hget'
      exact hlength
    · exact hb.failures k' failures' (hkept k' failures' hget')

/-- **No call breaks the bounds**, at whatever time. -/
theorem Bounds.exec (hpos : 0 < l.perMinute) (hb : l.Bounds) (call : Call) :
    (l.exec call).Bounds ∧ (l.exec call).perMinute = l.perMinute ∧
      (l.exec call).capacity = l.capacity := by
  have hne : ¬l.perMinute = 0 := Nat.pos_iff_ne_zero.mp hpos
  cases call with
  | limited address now =>
    unfold FailureLimiter.exec Machine.limited
    dsimp only
    rw [if_neg hne]
    cases hget : l.table[countedAs address]? with
    | none => exact ⟨hb, rfl, rfl⟩
    | some failures =>
      dsimp only
      have hold := hb.failures _ failures hget
      cases hforgot : Machine.forgetOld failures now with
      | nil =>
        refine ⟨⟨hb.capacity, ?_, fun k failures' hget' => ?_⟩, rfl, rfl⟩
        · exact Nat.le_trans Std.ExtTreeMap.size_erase_le hb.size
        · exact hb.failures k failures' (Map.get_of_get_erase hget')
      | cons oldest later =>
        have hlength : (oldest :: later).length ≤ failures.length := by
          rw [← hforgot]
          exact (List.dropWhile_sublist _).length_le
        exact ⟨hb.insert (fun _ _ h => h) hb.size (.inl (Map.mem_iff_get.mpr ⟨failures, hget⟩))
          ⟨Nat.succ_pos _, hlength.trans hold.2⟩, rfl, rfl⟩
  | failed address now =>
    obtain ⟨hsize, hroom⟩ := Machine.size_roomy hb address now
    unfold FailureLimiter.exec Machine.failed
    dsimp only
    rw [if_neg hne]
    refine ⟨hb.insert (fun _ _ h => Machine.get_of_get_roomy h) hsize hroom ?_, rfl, rfl⟩
    split
    · next hlt =>
      rw [List.length_append, List.length_singleton]
      omega
    · next hfull =>
      -- what is there already is not more than `perMinute`
      cases hthere : (Machine.roomy l address now)[countedAs address]? with
      | none =>
        rw [hthere] at hfull
        exact absurd hpos hfull
      | some failures =>
        have hold := (hb.failures _ failures (Machine.get_of_get_roomy hthere)).2
        have hforgot : (Machine.forgetOld failures now).length ≤ failures.length :=
          (List.dropWhile_sublist _).length_le
        rw [hthere, Option.getD_some] at hfull
        rw [Option.getD_some]
        omega

/-- An address that has not cleared is the stalest one, if it is gone when room was made. -/
theorem Machine.stalest_of_gone {failures : List Nat}
    (hk : (uncleared l.table now)[k]? = some failures)
    (hgone : (roomy l address now)[k]? = none) : stalest (uncleared l.table now) = some k := by
  unfold roomy makeRoom at hgone
  split at hgone
  · dsimp only at hgone
    split at hgone
    · cases hgone.symm.trans hk
    · cases hstalest : stalest (uncleared l.table now) with
      | none =>
        rw [hstalest] at hgone
        cases hgone.symm.trans hk
      | some stale =>
        rw [hstalest] at hgone
        by_contra hother
        have hne : stale ≠ k := fun heq => hother (congrArg some heq)
        rw [Map.get_erase_of_ne _ hne] at hgone
        cases hgone.symm.trans hk
  · cases hgone.symm.trans (Map.get_of_get_filter hk)

/-- What is gone after a failure was gone when room was made for it. -/
theorem Machine.roomy_of_failed {failures : List Nat} (hget : l.table[k]? = some failures)
    (hgone : (failed l address now).table[k]? = none) : (roomy l address now)[k]? = none := by
  unfold failed at hgone
  split at hgone
  · cases hgone.symm.trans hget
  · dsimp only at hgone
    rw [Map.get_insert] at hgone
    split at hgone
    · cases hgone
    · exact hgone

/-- An address whose last failure has not cleared. -/
def Uncleared (l : FailureLimiter) (now : Nat) (k : IpAddr) (last : Nat) : Prop :=
  ∃ failures, l.table[k]? = some failures ∧ failures.getLast? = some last ∧ now < deadline last

theorem Uncleared.get {last : Nat} (h : l.Uncleared now k last) :
    ∃ failures, (Machine.uncleared l.table now)[k]? = some failures ∧ lastOf failures = last := by
  obtain ⟨failures, hget, hlast, hnow⟩ := h
  refine ⟨failures, Map.get_filter_eq_some.mpr ⟨hget, ?_⟩, ?_⟩
  · rw [hlast, Option.any_some]
    exact decide_eq_true hnow
  · unfold lastOf
    rw [hlast]
    rfl

/-- **What is evicted**: of the addresses that have not cleared at most one, and none whose
last failure is after another one's. -/
theorem failed_evicts {k' : IpAddr} {last last' : Nat} (h : l.Uncleared now k last)
    (hgone : (Machine.failed l address now).table[k]? = none) (h' : l.Uncleared now k' last') :
    last ≤ last' ∧ ((Machine.failed l address now).table[k']? = none → k' = k) := by
  obtain ⟨failures, hget, hlast⟩ := h.get
  obtain ⟨failures', hget', hlast'⟩ := h'.get
  have hstalest := Machine.stalest_of_gone hget
    (Machine.roomy_of_failed (Map.get_of_get_filter hget) hgone)
  obtain ⟨failures₀, hget₀, hleast⟩ := stalest_spec hstalest
  cases hget₀.symm.trans hget
  refine ⟨?_, fun hgone' => ?_⟩
  · rw [← hlast, ← hlast']
    exact hleast k' failures' hget'
  · have hstalest' := Machine.stalest_of_gone hget'
      (Machine.roomy_of_failed (Map.get_of_get_filter hget') hgone')
    exact Option.some.inj (hstalest'.symm.trans hstalest)

/-- Asking makes no room: an address that is gone after it has cleared. -/
theorem limited_evicts {last : Nat} (h : l.Uncleared now k last) :
    (Machine.limited l address now).2.table[k]? ≠ none := by
  obtain ⟨failures, hget, hlast, hnow⟩ := h
  unfold Machine.limited
  split
  · rw [hget]
    exact nofun
  cases hget' : l.table[countedAs address]? with
  | none =>
    dsimp only
    rw [hget]
    exact nofun
  | some failures' =>
    dsimp only
    cases hforgot : Machine.forgetOld failures' now with
    | nil =>
      dsimp only
      rw [Map.get_erase]
      split
      · next heq =>
        rw [heq, hget] at hget'
        cases hget'
        have hold := List.dropWhile_eq_nil_iff.mp hforgot last (List.mem_of_getLast? hlast)
        have hle := of_decide_eq_true hold
        omega
      · rw [hget]
        exact nofun
    | cons oldest later =>
      dsimp only
      rw [Map.get_insert]
      split
      · exact nofun
      · rw [hget]
        exact nofun

/-! ## The window -/

/-- The failures in the minute up to `now`. -/
def recent (now : Nat) (failures : List Nat) : List Nat :=
  failures.filter fun failure => failure ≤ now && now < failure + failureWindow

/-- What is counted, of each counted address: failures while fewer than `perMinute` were in
the window. -/
def count (perMinute : Nat) (c : IpAddr → List Nat) : Call → IpAddr → List Nat
  | .limited _ _ => c
  | .failed address now => fun k =>
    if countedAs address = k ∧ (recent now (c k)).length < perMinute then c k ++ [now] else c k

/-- All failures that some calls counted. -/
def counted (perMinute : Nat) (calls : List Call) : IpAddr → List Nat :=
  Runs.run (count perMinute) (fun _ => []) calls

theorem recent_append (now : Nat) (failures failures' : List Nat) :
    recent now (failures ++ failures') = recent now failures ++ recent now failures' :=
  List.filter_append ..

/-- Failures that are older than the window. -/
theorem recent_old {failures : List Nat} (h : ∀ failure ∈ failures, failure + failureWindow ≤ now) :
    recent now failures = [] := by
  refine List.filter_eq_nil_iff.mpr fun failure hmem => ?_
  have hold := h failure hmem
  simp only [Bool.and_eq_true, decide_eq_true_eq]
  omega

/-- What is recent later is what is recent now, and still not older than the window. -/
theorem recent_later {failures : List Nat} {now' : Nat}
    (hpast : ∀ failure ∈ failures, failure ≤ now) (h : now ≤ now') :
    recent now' failures = (recent now failures).filter fun failure =>
      now' < failure + failureWindow := by
  unfold recent
  rw [List.filter_filter]
  refine List.filter_congr fun failure hmem => ?_
  have hle := hpast failure hmem
  rw [Bool.eq_iff_iff]
  simp only [Bool.and_eq_true, decide_eq_true_eq]
  omega

/-- Of failures in order, forgetting from the front leaves those that are recent. -/
theorem Machine.forgetOld_recent {failures : List Nat} (hsorted : failures.Pairwise (· ≤ ·))
    (hrange : ∀ failure ∈ failures, failure + failureWindow < u64Bound)
    (hpast : ∀ failure ∈ failures, failure ≤ now) :
    forgetOld failures now = recent now failures := by
  induction failures with
  | nil => rfl
  | cons failure failures ih =>
    obtain ⟨hleast, hsorted'⟩ := List.pairwise_cons.mp hsorted
    obtain ⟨hfirst, hrange'⟩ := List.forall_mem_cons.mp hrange
    obtain ⟨hpast₀, hpast'⟩ := List.forall_mem_cons.mp hpast
    have hrest := ih hsorted' hrange' hpast'
    unfold forgetOld recent at hrest ⊢
    by_cases hold : failure + failureWindow ≤ now
    · rw [List.dropWhile_cons_of_pos (by rw [deadline_eq hfirst]; exact decide_eq_true hold),
        List.filter_cons_of_neg (by simp only [Bool.and_eq_true, decide_eq_true_eq]; omega), hrest]
    · rw [List.dropWhile_cons_of_neg (by
        rw [deadline_eq hfirst]
        exact fun h => hold (of_decide_eq_true h))]
      refine (List.filter_eq_self.mpr fun failure' hmem => ?_).symm
      have hle : failure ≤ failure' := by
        rcases List.mem_cons.mp hmem with rfl | hmem
        · exact Nat.le_refl _
        · exact hleast failure' hmem
      have hpast₁ := hpast failure' hmem
      simp only [Bool.and_eq_true, decide_eq_true_eq]
      omega

/-- **What the table holds of what was counted**: all but failures that are older than the
window. -/
structure Exact (l : FailureLimiter) (c : IpAddr → List Nat) (clock : Nat) : Prop where
  suffix : ∀ k, ∃ old, c k = old ++ l.remembered k ∧
    ∀ failure ∈ old, failure + failureWindow ≤ clock
  sorted : ∀ k, (c k).Pairwise (· ≤ ·)
  past : ∀ k, ∀ failure ∈ c k, failure ≤ clock
  range : ∀ k, ∀ failure ∈ c k, failure + failureWindow < u64Bound

variable {c : IpAddr → List Nat} {clock : Nat}

theorem exact_new (perMinute capacity : Nat) :
    (new perMinute capacity).Exact (fun _ => []) 0 where
  suffix k := by
    have hnone : (∅ : Map IpAddr (List Nat))[k]? = none := Std.ExtTreeMap.getElem?_empty
    refine ⟨[], ?_, by simp⟩
    show [] = [] ++ ((∅ : Map IpAddr (List Nat))[k]?).getD []
    rw [hnone]
    rfl
  sorted _ := List.Pairwise.nil
  past _ _ h := by cases h
  range _ _ h := by cases h

theorem Exact.mem (h : l.Exact c clock) {failure : Nat} (hmem : failure ∈ l.remembered k) :
    failure ∈ c k := by
  obtain ⟨old, heq, -⟩ := h.suffix k
  rw [heq]
  exact List.mem_append_right _ hmem

theorem Exact.inRange (h : l.Exact c clock) : l.InRange :=
  fun k failure hmem => h.range k failure (h.mem hmem)

theorem Exact.remembered_sorted (h : l.Exact c clock) (k : IpAddr) :
    (l.remembered k).Pairwise (· ≤ ·) := by
  obtain ⟨old, heq, -⟩ := h.suffix k
  have hsorted := h.sorted k
  rw [heq] at hsorted
  exact (List.pairwise_append.mp hsorted).2.1

theorem Exact.later (h : l.Exact c clock) (hle : clock ≤ now) : l.Exact c now where
  suffix k := by
    obtain ⟨old, heq, hold⟩ := h.suffix k
    exact ⟨old, heq, fun failure hmem => (hold failure hmem).trans hle⟩
  sorted := h.sorted
  past k failure hmem := (h.past k failure hmem).trans hle
  range := h.range

/-- Once what is old is forgotten, what is left is what is recent. -/
theorem Exact.forgotten (h : l.Exact c clock) (hle : clock ≤ now) (k : IpAddr) :
    Machine.forgetOld (l.remembered k) now = recent now (c k) := by
  obtain ⟨old, heq, hold⟩ := h.suffix k
  rw [heq, recent_append, recent_old fun failure hmem => (hold failure hmem).trans hle,
    List.nil_append]
  exact Machine.forgetOld_recent (h.remembered_sorted k)
    (fun failure hmem => h.range k failure (h.mem hmem))
    fun failure hmem => (h.past k failure (h.mem hmem)).trans hle

/-- Forgetting more of what is old. -/
theorem Exact.forgets (h : l.Exact c now) {l' : FailureLimiter}
    (hforgets : ∀ k, ∃ old, l.remembered k = old ++ l'.remembered k ∧
      ∀ failure ∈ old, failure + failureWindow ≤ now) : l'.Exact c now where
  suffix k := by
    obtain ⟨old, heq, hold⟩ := h.suffix k
    obtain ⟨old', heq', hold'⟩ := hforgets k
    refine ⟨old ++ old', by rw [heq, heq', List.append_assoc], fun failure hmem => ?_⟩
    exact (List.mem_append.mp hmem).elim (hold failure) (hold' failure)
  sorted := h.sorted
  past := h.past
  range := h.range

/-- What `forget_old` takes away is old. -/
theorem Machine.forgetOld_split {failures : List Nat}
    (hrange : ∀ failure ∈ failures, failure + failureWindow < u64Bound) (now : Nat) :
    ∃ old, failures = old ++ forgetOld failures now ∧
      ∀ failure ∈ old, failure + failureWindow ≤ now := by
  refine ⟨failures.takeWhile fun failure => deadline failure ≤ now,
    List.takeWhile_append_dropWhile.symm, fun failure hmem => ?_⟩
  have hold : deadline failure ≤ now := by simpa using List.mem_takeWhile_imp hmem
  rwa [deadline_eq (hrange failure ((List.takeWhile_sublist _).subset hmem))] at hold

/-- Asking keeps the table exact. -/
theorem Exact.limited (hpos : 0 < l.perMinute) (h : l.Exact c clock) (hle : clock ≤ now) :
    (Machine.limited l address now).2.Exact c now := by
  refine (h.later hle).forgets fun k => ?_
  rw [Machine.limited_eq h.inRange, limited_remembered hpos]
  split
  · have hsplit := Machine.forgetOld_split (h.inRange k) now
    rw [Machine.forgetOld_eq (h.inRange k)] at hsplit
    exact hsplit
  · exact ⟨[], rfl, by simp⟩

/-- Room that is made without an eviction is made of what has cleared. -/
theorem Machine.roomy_remembered (hno : evicts l address now = false) (k : IpAddr) :
    (roomy l address now)[k]?.getD [] = l.remembered k ∨
      (roomy l address now)[k]?.getD [] = [] ∧
        ∀ last ∈ (l.remembered k).getLast?, deadline last ≤ now := by
  unfold roomy
  split
  · next hfull =>
    unfold evicts at hno
    rw [hfull, Bool.true_and, decide_eq_false_iff_not, Nat.not_le] at hno
    unfold makeRoom
    dsimp only
    rw [if_pos hno]
    unfold uncleared remembered
    rw [Map.get_filter]
    cases hget : l.table[k]? with
    | none => exact .inl rfl
    | some failures =>
      rw [Option.filter_some]
      split
      · exact .inl rfl
      · next hcleared =>
        refine .inr ⟨rfl, fun last hlast => ?_⟩
        rw [Option.getD_some] at hlast
        rw [show failures.getLast? = some last from hlast, Option.any_some] at hcleared
        simpa using hcleared
  · exact .inl rfl

theorem Exact.roomy (h : l.Exact c clock) (hle : clock ≤ now)
    (hno : Machine.evicts l address now = false) :
    ({ l with table := Machine.roomy l address now } : FailureLimiter).Exact c now := by
  refine (h.later hle).forgets fun k => ?_
  rcases Machine.roomy_remembered hno k with hsame | ⟨hgone, hcleared⟩
  · exact ⟨[], hsame.symm, by simp⟩
  · refine ⟨l.remembered k, ?_, fun failure hmem => ?_⟩
    · show _ = _ ++ (Machine.roomy l address now)[k]?.getD []
      rw [hgone, List.append_nil]
    · -- in order, all of them are at most the last one
      have hne : l.remembered k ≠ [] := List.ne_nil_of_mem hmem
      have hend := List.getLast?_eq_some_getLast hne
      have hlast := hcleared _ hend
      rw [deadline_eq (h.inRange k _ (List.mem_of_getLast? hend))] at hlast
      have hmax : failure ≤ (l.remembered k).getLast hne :=
        (h.remembered_sorted k).rel_getLast hmem
      omega

/-- **A failure keeps the table exact**, if no address that has not cleared was evicted for
it. -/
theorem Exact.failed (hpos : 0 < l.perMinute) (h : l.Exact c clock) (hle : clock ≤ now)
    (hrange : now + failureWindow < u64Bound) (hno : Machine.evicts l address now = false) :
    (Machine.failed l address now).Exact (count l.perMinute c (.failed address now)) now := by
  have hroomy := h.roomy hle hno
  have hforgot := hroomy.forgotten (Nat.le_refl now) (countedAs address)
  have hsplit := Machine.forgetOld_split (hroomy.inRange (countedAs address)) now
  -- what is remembered of each address, and what is counted, after the failure
  have hremembered : ∀ k, (Machine.failed l address now).remembered k =
      if countedAs address = k then
        if (recent now (c k)).length < l.perMinute then recent now (c k) ++ [now]
        else recent now (c k)
      else ({ l with table := Machine.roomy l address now } : FailureLimiter).remembered k := by
    intro k
    unfold Machine.failed
    rw [if_neg (Nat.pos_iff_ne_zero.mp hpos)]
    show (((Machine.roomy l address now).insert (countedAs address) _)[k]?).getD [] = _
    rw [Map.get_insert]
    split
    · next hk =>
      subst hk
      rw [Option.getD_some, ← hforgot]
      rfl
    · rfl
  have hcount : ∀ k, count l.perMinute c (.failed address now) k =
      if countedAs address = k ∧ (recent now (c k)).length < l.perMinute then c k ++ [now]
      else c k := fun k => rfl
  constructor
  -- the remembered failures are the counted ones less some that are out of the window
  · intro k
    obtain ⟨old, heq, hold⟩ := hroomy.suffix k
    rw [hremembered, hcount]
    by_cases hk : countedAs address = k
    · subst hk
      obtain ⟨old', heq', hold'⟩ := hsplit
      rw [hforgot] at heq'
      have hall : ∀ failure ∈ old ++ old', failure + failureWindow ≤ now := fun failure hmem =>
        (List.mem_append.mp hmem).elim (hold failure) (hold' failure)
      rw [heq'] at heq
      -- the failure is added to both, or to neither
      by_cases hroom : (recent now (c (countedAs address))).length < l.perMinute
      · rw [if_pos rfl, if_pos hroom, if_pos ⟨rfl, hroom⟩]
        refine ⟨old ++ old', ?_, hall⟩
        calc c (countedAs address) ++ [now]
            = (old ++ (old' ++ recent now (c (countedAs address)))) ++ [now] := by rw [← heq]
          _ = (old ++ old') ++ (recent now (c (countedAs address)) ++ [now]) := by
              simp only [List.append_assoc]
      · rw [if_pos rfl, if_neg hroom, if_neg fun hboth => hroom hboth.2]
        exact ⟨old ++ old', by rw [List.append_assoc, ← heq], hall⟩
    · rw [if_neg hk, if_neg fun hboth => hk hboth.1]
      exact ⟨old, heq, hold⟩
  · intro k
    rw [hcount]
    split
    · refine List.pairwise_append.mpr ⟨h.sorted k, List.pairwise_singleton .., ?_⟩
      intro failure hmem failure' hmem'
      rw [List.mem_singleton.mp hmem']
      exact (h.past k failure hmem).trans hle
    · exact h.sorted k
  · intro k failure hmem
    rw [hcount] at hmem
    split at hmem
    · rcases List.mem_append.mp hmem with hmem | hmem
      · exact (h.past k failure hmem).trans hle
      · exact (List.mem_singleton.mp hmem).le
    · exact (h.past k failure hmem).trans hle
  · intro k failure hmem
    rw [hcount] at hmem
    split at hmem
    · rcases List.mem_append.mp hmem with hmem | hmem
      · exact h.range k failure hmem
      · rw [List.mem_singleton.mp hmem]
        exact hrange
    · exact h.range k failure hmem

/-! ## The answers -/

/-- **What is answered** is told by what was counted. -/
theorem Exact.answer (hpos : 0 < l.perMinute) (h : l.Exact c clock) (hle : clock ≤ now) :
    (Machine.limited l address now).1 =
      match recent now (c (countedAs address)) with
      | [] => none
      | oldest :: later =>
        if l.perMinute ≤ (oldest :: later).length then some (max (oldest + failureWindow - now) 1)
        else none := by
  have hforgot := h.forgotten hle (countedAs address)
  unfold Machine.limited
  rw [if_neg (Nat.pos_iff_ne_zero.mp hpos)]
  unfold remembered at hforgot
  cases hget : l.table[countedAs address]? with
  | none =>
    rw [hget] at hforgot
    rw [← hforgot]
    rfl
  | some failures =>
    rw [hget, Option.getD_some] at hforgot
    dsimp only
    rw [hforgot]
    cases hrecent : recent now (c (countedAs address)) with
    | nil => rfl
    | cons oldest later =>
      have hmem : oldest ∈ c (countedAs address) := by
        refine List.mem_of_mem_filter (p := fun failure =>
          failure ≤ now && now < failure + failureWindow) ?_
        rw [show (c (countedAs address)).filter _ = _ from hrecent]
        exact List.mem_cons_self
      dsimp only
      rw [deadline_eq (h.range _ oldest hmem)]

theorem Exact.answer_isSome (hpos : 0 < l.perMinute) (h : l.Exact c clock) (hle : clock ≤ now) :
    (Machine.limited l address now).1.isSome = true ↔
      l.perMinute ≤ (recent now (c (countedAs address))).length := by
  rw [h.answer hpos hle]
  cases recent now (c (countedAs address)) with
  | nil => simpa using Nat.pos_iff_ne_zero.mp hpos
  | cons oldest later =>
    dsimp only
    split
    · next hfull => simpa using hfull
    · next hroom => simpa using hroom

/-- No more failures are recent than are ever remembered. -/
theorem Exact.recent_le (hb : l.Bounds) (h : l.Exact c clock) (hle : clock ≤ now) (k : IpAddr) :
    (recent now (c k)).length ≤ l.perMinute := by
  rw [← h.forgotten hle k]
  refine Nat.le_trans (List.dropWhile_sublist _).length_le ?_
  unfold remembered
  cases hget : l.table[k]? with
  | none => exact Nat.zero_le _
  | some failures => exact (hb.failures k failures hget).2

/-- **How long it takes**: the answer is there as long as the oldest of the recent failures
is in the window. -/
theorem Exact.wait (hpos : 0 < l.perMinute) (hb : l.Bounds) (h : l.Exact c clock)
    (hle : clock ≤ now) {s : Nat} (hs : (Machine.limited l address now).1 = some s) :
    1 ≤ s ∧ ∀ {l' : FailureLimiter} {clock' : Nat} (w : Nat), l'.perMinute = l.perMinute →
      l'.Exact c clock' → clock' ≤ now + w →
      ((Machine.limited l' address (now + w)).1 = none ↔ s ≤ w) := by
  have hall := h.recent_le hb hle (countedAs address)
  rw [h.answer hpos hle] at hs
  have hsorted : (recent now (c (countedAs address))).Pairwise (· ≤ ·) :=
    (h.sorted _).filter _
  cases hrecent : recent now (c (countedAs address)) with
  | nil =>
    rw [hrecent] at hs
    cases hs
  | cons oldest later =>
    rw [hrecent] at hs hall hsorted
    dsimp only at hs
    split at hs
    · next hfull =>
      cases hs
      have hnow : now < oldest + failureWindow := by
        have hmem : oldest ∈ recent now (c (countedAs address)) := by
          rw [hrecent]
          exact List.mem_cons_self
        have hkept := (List.mem_filter.mp hmem).2
        simp only [Bool.and_eq_true, decide_eq_true_eq] at hkept
        exact hkept.2
      refine ⟨Nat.le_max_right _ _, fun {l' clock'} w hsame h' hle' => ?_⟩
      have hisSome := @Exact.answer_isSome _ address _ _ _ (hsame ▸ hpos) h' hle'
      rw [recent_later (fun failure hmem => (h.past _ failure hmem).trans hle)
        (Nat.le_add_right now w), hrecent, hsame] at hisSome
      rw [← Option.not_isSome_iff_eq_none, hisSome]
      obtain ⟨hleast, -⟩ := List.pairwise_cons.mp hsorted
      by_cases hwait : now + w < oldest + failureWindow
      · -- all of them are in the window still
        have hkept : (oldest :: later).filter (fun failure =>
            decide (now + w < failure + failureWindow)) = oldest :: later := by
          refine List.filter_eq_self.mpr fun failure hmem => decide_eq_true ?_
          rcases List.mem_cons.mp hmem with rfl | hmem
          · exact hwait
          · have := hleast failure hmem
            omega
        rw [hkept]
        omega
      · -- the oldest is not, and there were no more than `perMinute`
        have hgone : ((oldest :: later).filter fun failure =>
            decide (now + w < failure + failureWindow)).length ≤ later.length := by
          rw [List.filter_cons_of_neg (by simpa using hwait)]
          exact List.length_filter_le ..
        rw [List.length_cons] at hall
        omega
    · cases hs

/-! ## Runs of calls -/

/-- The call evicts no address that has not cleared. -/
def sparesAll (l : FailureLimiter) : Call → Bool
  | .limited _ _ => true
  | .failed address now => !Machine.evicts l address now

theorem bounds_run (hpos : 0 < l.perMinute) (hb : l.Bounds) (calls : List Call) :
    (Runs.run exec l calls).Bounds ∧ (Runs.run exec l calls).perMinute = l.perMinute ∧
      (Runs.run exec l calls).capacity = l.capacity := by
  refine Runs.always exec (I := fun l' : FailureLimiter => l'.Bounds ∧
    l'.perMinute = l.perMinute ∧ l'.capacity = l.capacity) ?_ ⟨hb, rfl, rfl⟩ calls
  rintro l' call ⟨hb', hsame, hcapacity⟩
  obtain ⟨hbounds, hper, hcap⟩ := hb'.exec (hsame ▸ hpos) call
  exact ⟨hbounds, hper.trans hsame, hcap.trans hcapacity⟩

theorem exact_run (hpos : 0 < l.perMinute) (hb : l.Bounds) {calls : List Call}
    (h : l.Exact c clock) (hclock : (clock :: calls.map Call.time).Pairwise (· ≤ ·))
    (hrange : ∀ call ∈ calls, call.isLimited = false → call.time + failureWindow < u64Bound)
    (hspares : Runs.Along exec (fun l call => l.sparesAll call = true) l calls)
    (hnow : ∀ call ∈ calls, call.time ≤ now) (hle : clock ≤ now) :
    (Runs.run exec l calls).Exact (Runs.run (count l.perMinute) c calls) now := by
  induction calls generalizing l c clock with
  | nil => exact h.later hle
  | cons call calls ih =>
    rw [List.map_cons] at hclock
    obtain ⟨hfirst, hrest⟩ := List.pairwise_cons.mp hclock
    obtain ⟨hrange₁, hrange'⟩ := List.forall_mem_cons.mp hrange
    obtain ⟨hnow₁, hnow'⟩ := List.forall_mem_cons.mp hnow
    obtain ⟨hspares₁, hspares'⟩ := hspares
    have hstart := hfirst call.time List.mem_cons_self
    obtain ⟨hb', hsame, -⟩ := hb.exec hpos call
    have hstep : (l.exec call).Exact (count l.perMinute c call) call.time := by
      cases call with
      | limited address now => exact h.limited hpos hstart
      | failed address now =>
        refine h.failed hpos hstart (hrange₁ rfl) ?_
        simpa [sparesAll] using hspares₁
    have hih := ih (l := l.exec call) (hsame ▸ hpos) hb' hstep hrest hrange' hspares' hnow' hnow₁
    rw [hsame] at hih
    exact hih

end FailureLimiter

/-! ## Whom a count is shared by -/

namespace IpAddr

/-- The IPv4 address it is, or is the mapped form of. -/
def asV4 : IpAddr → Option Nat
  | .v4 bits => some bits
  | .v6 bits => if bits.val / 2 ^ 32 = 0xffff then some (bits.val % 2 ^ 32) else none

/-- The /64 of an IPv6 address. -/
def network : IpAddr → Option Nat
  | .v4 _ => none
  | .v6 bits => some (bits.val / 2 ^ 64)

end IpAddr

theorem countedAs_of_v4 {a : IpAddr} {n : Nat} (h : a.asV4 = some n) :
    ∃ hn, countedAs a = .v4 ⟨n, hn⟩ := by
  cases a with
  | v4 bits =>
    cases h
    exact ⟨bits.isLt, rfl⟩
  | v6 bits =>
    by_cases hmapped : bits.val / 2 ^ 32 = 0xffff
    · rw [show (IpAddr.v6 bits).asV4 = some (bits.val % 2 ^ 32) from if_pos hmapped] at h
      obtain rfl := Option.some.inj h
      exact ⟨Nat.mod_lt _ (show 0 < 2 ^ 32 by decide), if_pos hmapped⟩
    · rw [show (IpAddr.v6 bits).asV4 = none from if_neg hmapped] at h
      cases h

theorem countedAs_of_v6 {a : IpAddr} (h : a.asV4 = none) :
    ∃ net hn, a.network = some net ∧ countedAs a = .v6 ⟨net * 2 ^ 64, hn⟩ := by
  cases a with
  | v4 bits => cases h
  | v6 bits =>
    by_cases hmapped : bits.val / 2 ^ 32 = 0xffff
    · rw [show (IpAddr.v6 bits).asV4 = some (bits.val % 2 ^ 32) from if_pos hmapped] at h
      cases h
    · exact ⟨bits.val / 2 ^ 64, Nat.lt_of_le_of_lt (Nat.div_mul_le_self _ _) bits.isLt, rfl,
        if_neg hmapped⟩

/-- **Two addresses share a count** exactly if they are the same IPv4 address, mapped or not,
or IPv6 addresses of the same /64. -/
theorem countedAs_eq_iff (a b : IpAddr) :
    countedAs a = countedAs b ↔
      (∃ n, a.asV4 = some n ∧ b.asV4 = some n) ∨
        a.asV4 = none ∧ b.asV4 = none ∧ a.network = b.network := by
  cases ha : a.asV4 with
  | some n =>
    -- an IPv4 address, however it is written, is never counted with a network
    obtain ⟨hn, hca⟩ := countedAs_of_v4 ha
    rw [hca]
    cases hb : b.asV4 with
    | some m =>
      obtain ⟨hm, hcb⟩ := countedAs_of_v4 hb
      rw [hcb]
      constructor
      · intro heq
        cases heq
        exact .inl ⟨n, rfl, rfl⟩
      · rintro (⟨x, hx, hx'⟩ | ⟨h, -⟩)
        · cases hx
          cases hx'
          rfl
        · cases h
    | none =>
      obtain ⟨net, hnet, -, hcb⟩ := countedAs_of_v6 hb
      rw [hcb]
      constructor
      · intro heq
        cases heq
      · rintro (⟨x, -, hx'⟩ | ⟨h, -⟩)
        · cases hx'
        · cases h
  | none =>
    obtain ⟨net, hnet, hneta, hca⟩ := countedAs_of_v6 ha
    rw [hca]
    cases hb : b.asV4 with
    | some m =>
      obtain ⟨hm, hcb⟩ := countedAs_of_v4 hb
      rw [hcb]
      constructor
      · intro heq
        cases heq
      · rintro (⟨x, hx, -⟩ | ⟨-, h, -⟩)
        · cases hx
        · cases h
    | none =>
      -- two IPv6 addresses are counted alike when their first 64 bits are
      obtain ⟨net', hnet', hnetb, hcb⟩ := countedAs_of_v6 hb
      rw [hcb, hneta, hnetb]
      constructor
      · intro heq
        have hval : net * 2 ^ 64 = net' * 2 ^ 64 := congrArg Fin.val (IpAddr.v6.inj heq)
        have hsame : net = net' := Nat.eq_of_mul_eq_mul_right (by decide) hval
        exact .inr ⟨rfl, rfl, congrArg some hsame⟩
      · rintro (⟨x, hx, -⟩ | ⟨-, -, h⟩)
        · cases hx
        · cases Option.some.inj h
          rfl

namespace FailureLimiter

/-- **The failure limiter is an exact sliding window.** In every run of calls in the order of
time that evicts no address which has not cleared, an address is limited exactly while
`perMinute` counted failures are in the window, and the answer is how long it will be if
nothing else fails, whatever is asked meanwhile. In every run at all the table and what it
remembers of each address stay within bounds, and what is evicted before it has cleared is
one address, whose last failure is the oldest. -/
theorem window_run (perMinute capacity : Nat) (hpos : 0 < perMinute) (calls : List Call) :
    let l := Runs.run exec (new perMinute capacity) calls
    ((calls.map Call.time).Pairwise (· ≤ ·) →
      (∀ call ∈ calls, call.time + failureWindow < u64Bound) →
      Runs.Along exec (fun l call => l.sparesAll call = true) (new perMinute capacity) calls →
      ∀ (address : IpAddr) (now : Nat), (∀ call ∈ calls, call.time ≤ now) →
        ((Machine.limited l address now).1.isSome = true ↔
          perMinute ≤ (recent now (counted perMinute calls (countedAs address))).length) ∧
        ∀ s, (Machine.limited l address now).1 = some s →
          1 ≤ s ∧ ∀ (asked : List Call) (w : Nat), (∀ call ∈ asked, call.isLimited = true) →
            (now :: asked.map Call.time).Pairwise (· ≤ ·) →
            (∀ call ∈ asked, call.time ≤ now + w) →
            ((Machine.limited (Runs.run exec l asked) address (now + w)).1 = none ↔ s ≤ w)) ∧
    (∀ a b, countedAs a = countedAs b ↔
      (∃ n, a.asV4 = some n ∧ b.asV4 = some n) ∨
        a.asV4 = none ∧ b.asV4 = none ∧ a.network = b.network) ∧
    (l.table.size ≤ max capacity 1 ∧ ∀ (k : IpAddr) (failures : List Nat),
      l.table[k]? = some failures → 1 ≤ failures.length ∧ failures.length ≤ perMinute) ∧
    ∀ (call : Call) (k : IpAddr) (last : Nat), l.Uncleared call.time k last →
      (l.exec call).table[k]? = none →
      ∀ (k' : IpAddr) (last' : Nat), l.Uncleared call.time k' last' →
        last ≤ last' ∧ ((l.exec call).table[k']? = none → k' = k) := by
  obtain ⟨hb, hsame, hcapacity⟩ := bounds_run hpos (bounds_new perMinute capacity) calls
  intro l
  have hposl : 0 < l.perMinute := hsame ▸ hpos
  refine ⟨fun hclock hrange hspares address now hnow => ?_, countedAs_eq_iff, ⟨?_, ?_⟩, ?_⟩
  · have hexact : l.Exact (counted perMinute calls) now :=
      exact_run hpos (bounds_new perMinute capacity) (exact_new perMinute capacity)
        (List.pairwise_cons.mpr ⟨fun _ _ => Nat.zero_le _, hclock⟩)
        (fun call hmem _ => hrange call hmem) hspares hnow (Nat.zero_le _)
    have hisSome := @Exact.answer_isSome _ address _ _ _ hposl hexact (Nat.le_refl now)
    rw [hsame] at hisSome
    refine ⟨hisSome, fun s hs => ?_⟩
    obtain ⟨hleast, hwait⟩ := hexact.wait hposl hb (Nat.le_refl now) hs
    refine ⟨hleast, fun asked w hasked hclock' hlater => ?_⟩
    -- asking counts nothing
    have hcount : ∀ c, Runs.run (count l.perMinute) c asked = c := by
      intro c
      refine Runs.invariant (count l.perMinute) (P := fun _ call => call.isLimited = true)
        (I := fun c' => c' = c) ?_ rfl (Runs.along_of_forall _ hasked)
      rintro c' call rfl hlimited
      cases call with
      | limited => rfl
      | failed => cases hlimited
    have hexact' := exact_run hposl hb hexact hclock'
      (fun call hmem hfailed => by cases (hasked call hmem).symm.trans hfailed)
      (Runs.along_of_splits exec fun pre call post hsplit => by
        have hlimited := hasked call (by simp [hsplit])
        cases call with
        | limited => rfl
        | failed => cases hlimited) hlater (Nat.le_add_right now w)
    rw [hcount] at hexact'
    exact hwait w (bounds_run hposl hb asked).2.1 hexact' (Nat.le_refl _)
  · rw [← show l.capacity = max capacity 1 from hcapacity]
    exact hb.size
  · intro k failures hget
    rw [← show l.perMinute = perMinute from hsame]
    exact hb.failures k failures hget
  · intro call k last hlast hgone k' last' hlast'
    cases call with
    | limited address now => exact absurd hgone (limited_evicts hlast)
    | failed address now => exact failed_evicts hlast hgone hlast'

end FailureLimiter

namespace Sample

/-- Two failures of an IPv4 address, in its two forms, and a question between them. -/
def failing : List FailureLimiter.Call :=
  [.failed kitchen 100, .limited kitchen 110, .failed (.v6 (0xffff * 2 ^ 32 + 3221225985)) 130]

end Sample

/-- Two a minute are allowed: the address is limited for thirty seconds. -/
theorem FailureLimiter.window_failing :
    let l := Runs.run exec (new 2 1) Sample.failing
    (Machine.limited l Sample.kitchen 130).1 = some 30 ∧
      (Machine.limited l Sample.kitchen (130 + 30)).1 = none :=
  ⟨by decide +kernel, ((((window_run 2 1 (by decide) Sample.failing).1 (by decide) (by decide)
    (by decide +kernel) Sample.kitchen 130 (by decide)).2 30 (by decide +kernel)).2 [] 30
    (by simp) (by simp) (by simp)).mpr (Nat.le_refl 30)⟩

end Passalong
