import Passalong.Lib.Map
import Passalong.Lib.Runs
import Passalong.Lib.Windows
import Passalong.Ids

/-!
# Guesses are counted (`rate.rs`, `auth.rs`)

The bearer layer answers a request without a valid key in three steps: the limiter is
asked whether the address failed too often (`arrive`), the key is looked at (`look`), and
if it is none of this server's the failure is counted (`fail`). The requests of an address
are under way side by side, so their steps come in any order.

An address is let through as long as fewer than `perMinute` failures are remembered, and
those that are under way are not among them. With two of them under way where one is
allowed both are looked at, and so on for any number. What is kept is the bound of the
runs in which no guess is let through beyond what the failures in the window and the guesses
under way leave (`Bearer.leavesRoom`), as where an address sends one request after the other
(`leavesRoom_of_alone`): at most `perMinute` guesses of an address are looked at in every
window (`guesses_run`).

1. `remembered`: what the limiter does to what it remembers of an address, one lemma for
   each of its two methods. Nothing is evicted as long as there is room for every address.
2. `Bounded`: what is remembered and under way is at most `perMinute`, and every look since
   any time at which the window is not over is either remembered or still to be counted.
-/

namespace Passalong

open Lib

/-! ## Addresses -/

inductive IpAddr where
  | v4 (bits : Fin (2 ^ 32))
  | v6 (bits : Fin (2 ^ 128))
  deriving DecidableEq, Repr

/-- Addresses sort as numbers, the shorter ones first. -/
def IpAddr.rank : IpAddr → Nat
  | .v4 bits => bits
  | .v6 bits => 2 ^ 32 + bits

theorem IpAddr.rank_injective : Function.Injective IpAddr.rank := by
  intro a b h
  cases a with
  | v4 x =>
    cases b with
    | v4 y => exact congrArg IpAddr.v4 (Fin.ext h)
    | v6 y =>
      have hx := x.isLt
      simp only [rank] at h
      omega
  | v6 x =>
    cases b with
    | v4 y =>
      have hy := y.isLt
      simp only [rank] at h
      omega
    | v6 y => exact congrArg IpAddr.v6 (Fin.ext (Nat.add_left_cancel h))

instance : LinearOrder IpAddr := LinearOrder.lift' IpAddr.rank IpAddr.rank_injective

instance : Std.LawfulEqOrd IpAddr where
  eq_of_compare := compare_eq_iff_eq.mp

instance : Std.TransOrd IpAddr := inferInstance

/-- `counted_as`: an IPv6 client has a /64 of addresses to itself, as a rule, so that is
what is counted; an IPv4-mapped address is the IPv4 address it maps. -/
def countedAs : IpAddr → IpAddr
  | .v4 bits => .v4 bits
  | .v6 bits =>
    if bits.val / 2 ^ 32 = 0xffff then
      .v4 ⟨bits.val % 2 ^ 32, Nat.mod_lt _ (by decide)⟩
    else .v6 ⟨bits.val / 2 ^ 64 * 2 ^ 64, Nat.lt_of_le_of_lt (Nat.div_mul_le_self _ _) bits.isLt⟩

/-! ## The limiter -/

/-- `WINDOW`: the window failures are counted in, in seconds. -/
def failureWindow : Nat := 60

/-- The limiter. The time is its caller's to tell, in seconds. -/
structure FailureLimiter where
  perMinute : Nat
  capacity : Nat
  /-- The times of the failures of each address, the oldest first. -/
  table : Map IpAddr (List Nat)

namespace FailureLimiter

/-- `per_minute` of 0 turns the limiter off. -/
def new (perMinute capacity : Nat) : FailureLimiter := ⟨perMinute, max capacity 1, ∅⟩

/-- `forget_old`. -/
def forgetOld (failures : List Nat) (now : Nat) : List Nat :=
  Windows.forget failureWindow now failures

/-- `limited`: `some seconds` while `address` is limited, until there is room for another
attempt. -/
def limited (l : FailureLimiter) (address : IpAddr) (now : Nat) : Option Nat × FailureLimiter :=
  if l.perMinute = 0 then (none, l)
  else
    match l.table[countedAs address]? with
    | none => (none, l)
    | some failures =>
      match forgetOld failures now with
      | [] => (none, { l with table := l.table.erase (countedAs address) })
      | oldest :: later =>
        (if l.perMinute ≤ (oldest :: later).length then
            some (max (oldest + failureWindow - now) 1)
          else none,
          { l with table := l.table.insert (countedAs address) (oldest :: later) })

/-- The address whose last failure is the oldest. -/
def stalest (table : Map IpAddr (List Nat)) : Option IpAddr :=
  (table.toList.foldl
    (fun best e =>
      match best with
      | none => some e
      | some b => if e.2.getLast?.getD 0 < b.2.getLast?.getD 0 then some e else some b)
    none).map Prod.fst

/-- `make_room`: drops what has cleared; if nothing has, the stalest address. -/
def makeRoom (table : Map IpAddr (List Nat)) (capacity now : Nat) : Map IpAddr (List Nat) :=
  let kept := table.filter fun _ failures =>
    failures.getLast?.any fun last => now < last + failureWindow
  if kept.size < capacity then kept
  else
    match stalest kept with
    | some address => kept.erase address
    | none => kept

/-- `failed`: counts a failed authentication of `address`. -/
def failed (l : FailureLimiter) (address : IpAddr) (now : Nat) : FailureLimiter :=
  if l.perMinute = 0 then l
  else
    let table :=
      if !l.table.contains (countedAs address) && l.capacity ≤ l.table.size then
        makeRoom l.table l.capacity now
      else l.table
    let failures := forgetOld (table[countedAs address]?.getD []) now
    let failures :=
      if failures.length < l.perMinute then failures ++ [now] else failures
    { l with table := table.insert (countedAs address) failures }

/-! ### What it remembers of an address -/

/-- The failures remembered of a counted address. -/
def remembered (l : FailureLimiter) (k : IpAddr) : List Nat := l.table[k]?.getD []

/-- There is room for the address: nothing needs to make room for it. -/
def hasRoom (l : FailureLimiter) (address : IpAddr) : Bool :=
  l.table.contains (countedAs address) || l.table.size < l.capacity

variable {l : FailureLimiter} {address k : IpAddr} {now : Nat}

@[simp] theorem limited_perMinute : (l.limited address now).2.perMinute = l.perMinute := by
  unfold limited
  split
  · rfl
  · split
    · rfl
    · split <;> rfl

@[simp] theorem failed_perMinute : (l.failed address now).perMinute = l.perMinute := by
  unfold failed
  split <;> rfl

/-- Asking for an address forgets what is old of it, and nothing else. -/
theorem limited_remembered (hpos : 0 < l.perMinute) :
    (l.limited address now).2.remembered k =
      if countedAs address = k then forgetOld (l.remembered k) now else l.remembered k := by
  unfold limited
  rw [if_neg (Nat.pos_iff_ne_zero.mp hpos)]
  by_cases hk : countedAs address = k
  · subst hk
    rw [if_pos rfl]
    cases hget : l.table[countedAs address]? with
    | none =>
      dsimp only
      rw [remembered, hget]
      rfl
    | some failures =>
      have hold : l.remembered (countedAs address) = failures := by
        rw [remembered, hget]
        rfl
      rw [hold]
      dsimp only
      cases hforgot : forgetOld failures now with
      | nil =>
        show ((l.table.erase (countedAs address))[countedAs address]?).getD [] = []
        rw [Map.get_erase_self]
        rfl
      | cons oldest later =>
        show ((l.table.insert (countedAs address) _)[countedAs address]?).getD [] = _
        rw [Map.get_insert_self]
        rfl
  · rw [if_neg hk]
    cases hget : l.table[countedAs address]? with
    | none => rfl
    | some failures =>
      dsimp only
      cases forgetOld failures now with
      | nil =>
        show ((l.table.erase (countedAs address))[k]?).getD [] = _
        rw [Map.get_erase_of_ne _ hk]
        rfl
      | cons oldest later =>
        show ((l.table.insert (countedAs address) _)[k]?).getD [] = _
        rw [Map.get_insert_of_ne _ _ hk]
        rfl

/-- A failure is remembered while fewer than `perMinute` are, if there is room for its
address. -/
theorem failed_remembered (hpos : 0 < l.perMinute) (hroom : l.hasRoom address = true) :
    (l.failed address now).remembered k =
      if countedAs address = k then
        if (forgetOld (l.remembered k) now).length < l.perMinute then
          forgetOld (l.remembered k) now ++ [now]
        else forgetOld (l.remembered k) now
      else l.remembered k := by
  have hkept : (!l.table.contains (countedAs address) && decide (l.capacity ≤ l.table.size)) =
      false := by
    unfold hasRoom at hroom
    rcases Bool.or_eq_true_iff.mp hroom with hthere | hsize
    · rw [hthere]
      rfl
    · have hlt := of_decide_eq_true hsize
      rw [decide_eq_false (by omega), Bool.and_false]
  unfold failed
  rw [if_neg (Nat.pos_iff_ne_zero.mp hpos)]
  dsimp only
  rw [hkept, if_neg Bool.false_ne_true]
  by_cases hk : countedAs address = k
  · subst hk
    rw [if_pos rfl]
    show ((l.table.insert (countedAs address) _)[countedAs address]?).getD [] = _
    rw [Map.get_insert_self]
    rfl
  · rw [if_neg hk]
    show ((l.table.insert (countedAs address) _)[k]?).getD [] = _
    rw [Map.get_insert_of_ne _ _ hk]
    rfl

/-- An address is let through while fewer than `perMinute` failures are in the window. -/
theorem limited_none (hpos : 0 < l.perMinute) (h : (l.limited address now).1 = none) :
    (forgetOld (l.remembered (countedAs address)) now).length < l.perMinute := by
  unfold limited at h
  rw [if_neg (Nat.pos_iff_ne_zero.mp hpos)] at h
  unfold remembered
  cases hget : l.table[countedAs address]? with
  | none => exact hpos
  | some failures =>
    rw [hget] at h
    dsimp only at h
    rw [Option.getD_some]
    cases hforgot : forgetOld failures now with
    | nil => exact hpos
    | cons oldest later =>
      rw [hforgot] at h
      dsimp only at h
      by_contra hfull
      rw [if_pos (by omega)] at h
      cases h

end FailureLimiter

/-! ## The layer -/

/-- A request as far as the layer is concerned: whom it is counted for, if its peer is
known, and what its key is refused for. A request without a key is refused like one whose
key is unknown. -/
structure Attempt where
  address : Option IpAddr
  refusal : Option ApiError
  deriving DecidableEq, Repr

/-- A guess of an address: no key, or one that is not a key of this server. -/
def Attempt.guesses (k : IpAddr) (a : Attempt) : Bool :=
  a.refusal = some .unauthenticated && a.address.map countedAs = some k

/-- The layer: the limiter, and the requests that are between their steps. -/
structure Bearer where
  failures : FailureLimiter
  /-- Let through, and not looked at yet. -/
  admitted : List Attempt
  /-- Found to be guesses, and not counted yet. -/
  looked : List Attempt

/-- A step of a request. -/
inductive BearerStep where
  | arrive (a : Attempt)
  | look (a : Attempt)
  | fail (a : Attempt)
  deriving DecidableEq, Repr

namespace Bearer

def new (perMinute capacity : Nat) : Bearer := ⟨.new perMinute capacity, [], []⟩

/-- A step at a time. A request that is not where the step begins does nothing. -/
def exec (b : Bearer) : Nat × BearerStep → Bearer
  | (now, .arrive a) =>
    match a.address with
    | none => { b with admitted := a :: b.admitted }
    | some address =>
      match b.failures.limited address now with
      | (some _, failures) => { b with failures }
      | (none, failures) => { b with failures, admitted := a :: b.admitted }
  | (_, .look a) =>
    if a ∈ b.admitted then
      { b with
        admitted := b.admitted.erase a
        looked := if a.refusal = some .unauthenticated then a :: b.looked else b.looked }
    else b
  | (now, .fail a) =>
    if a ∈ b.looked then
      { b with
        looked := b.looked.erase a
        failures :=
          match a.address with
          | none => b.failures
          | some address => b.failures.failed address now }
    else b

/-- The guesses of a counted address that are looked at, by their times. -/
def looks (k : IpAddr) (b : Bearer) : Nat × BearerStep → List Nat
  | (now, .look a) => if a ∈ b.admitted ∧ a.guesses k then [now] else []
  | _ => []

/-- The guesses of a counted address that are under way. -/
def underway (b : Bearer) (k : IpAddr) : Nat :=
  b.admitted.countP (Attempt.guesses k) + b.looked.countP (Attempt.guesses k)

/-- A guess comes while the failures that are in the window and the guesses under way of its
address are fewer than are allowed, or while the failures alone are not, so that it is not let
through. -/
def leavesRoom (b : Bearer) : Nat × BearerStep → Bool
  | (now, .arrive a) =>
    match a.address with
    | none => true
    | some address =>
      let failures :=
        (FailureLimiter.forgetOld (b.failures.remembered (countedAs address)) now).length
      !a.guesses (countedAs address) || b.failures.perMinute ≤ failures ||
        failures + b.underway (countedAs address) < b.failures.perMinute
  | _ => true

/-- No address is evicted to count a failure. -/
def evictsNone (b : Bearer) : Nat × BearerStep → Bool
  | (_, .fail a) => a.address.all b.failures.hasRoom
  | _ => true

/-! ### The bound -/

/-- What is kept of a counted address: what it is remembered for and what is under way is
within the limit, and so are the looks in every window. `past` has the times of the steps
so far, and `seen` those of the looks. -/
structure Bounded (k : IpAddr) (perMinute : Nat) (past seen : List Nat) (b : Bearer) : Prop where
  limit : b.failures.perMinute = perMinute
  room : (b.failures.remembered k).length + b.underway k ≤ perMinute
  guesses : ∀ a ∈ b.looked, a.refusal = some .unauthenticated
  earlier : ∀ x ∈ seen, x ∈ past
  /-- Every look since a time whose window is not over is remembered, or to be counted. -/
  traced : ∀ t, (∀ x ∈ past, x < t + failureWindow) →
    Windows.since t seen ≤
      Windows.since t (b.failures.remembered k) + b.looked.countP (Attempt.guesses k)
  windows : ∀ t, Windows.within t failureWindow seen ≤ perMinute

variable {k : IpAddr} {perMinute now : Nat} {past seen : List Nat} {b : Bearer} {a : Attempt}

/-- What an element of a list counts for. -/
theorem countP_erase_add {p : Attempt → Bool} {l : List Attempt} (h : a ∈ l) :
    l.countP p = (l.erase a).countP p + if p a then 1 else 0 := by
  rw [(List.perm_cons_erase h).countP_eq, List.countP_cons]

/-- Times that are forgotten do not matter to a window that is not over. -/
theorem since_forgetOld {t : Nat} {failures : List Nat} (h : now < t + failureWindow) :
    Windows.since t (FailureLimiter.forgetOld failures now) = Windows.since t failures :=
  Windows.since_forget h

theorem guesses_eq_true : a.guesses k = true ↔
    a.refusal = some .unauthenticated ∧ a.address.map countedAs = some k := by
  simp [Attempt.guesses]

/-- Asking forgets what is old, which does not matter. -/
theorem Bounded.asked (hpos : 0 < perMinute) (h : Bounded k perMinute past seen b) (now : Nat)
    (address : IpAddr) :
    (b.failures.limited address now).2.perMinute = perMinute ∧
      ((b.failures.limited address now).2.remembered k).length ≤
        (b.failures.remembered k).length ∧
      ∀ t, (∀ x ∈ past ++ [now], x < t + failureWindow) →
        Windows.since t seen ≤ Windows.since t ((b.failures.limited address now).2.remembered k) +
          b.looked.countP (Attempt.guesses k) := by
  have hremembered : (b.failures.limited address now).2.remembered k =
      if countedAs address = k then FailureLimiter.forgetOld (b.failures.remembered k) now
      else b.failures.remembered k :=
    FailureLimiter.limited_remembered (h.limit ▸ hpos)
  refine ⟨FailureLimiter.limited_perMinute.trans h.limit, ?_, fun t hall => ?_⟩
  · rw [hremembered]
    by_cases hk : countedAs address = k
    · rw [if_pos hk]
      exact Windows.length_forget_le _ _ _
    · rw [if_neg hk]
  · have htraced := h.traced t fun x hx => hall x (List.mem_append_left _ hx)
    have hnow : now < t + failureWindow := hall now (by simp)
    rw [hremembered]
    by_cases hk : countedAs address = k
    · rw [if_pos hk, since_forgetOld hnow]
      exact htraced
    · rw [if_neg hk]
      exact htraced

theorem Bounded.arrive (hpos : 0 < perMinute) (h : Bounded k perMinute past seen b)
    (hroom : b.leavesRoom (now, .arrive a) = true) :
    Bounded k perMinute (past ++ [now]) seen (b.exec (now, .arrive a)) := by
  have hearlier : ∀ x ∈ seen, x ∈ past ++ [now] := fun x hx =>
    List.mem_append_left _ (h.earlier x hx)
  cases haddress : a.address with
  | none =>
    -- it is let through, and is no guess of any address
    have hother : a.guesses k = false := by
      rw [Attempt.guesses, haddress]
      simp
    have hexec : b.exec (now, .arrive a) = { b with admitted := a :: b.admitted } := by
      simp only [exec, haddress]
    rw [hexec]
    refine ⟨h.limit, ?_, h.guesses, hearlier, fun t hall => ?_, h.windows⟩
    · show _ + ((a :: b.admitted).countP _ + _) ≤ _
      rw [List.countP_cons_of_neg (by simp [hother])]
      exact h.room
    · exact h.traced t fun x hx => hall x (List.mem_append_left _ hx)
  | some address =>
    have hposb : 0 < b.failures.perMinute := h.limit ▸ hpos
    have hremembered : (b.failures.limited address now).2.remembered k =
        if countedAs address = k then FailureLimiter.forgetOld (b.failures.remembered k) now
        else b.failures.remembered k :=
      FailureLimiter.limited_remembered hposb
    obtain ⟨hlimit, hlength, htraced⟩ := h.asked hpos now address
    have hold := h.room
    rcases hanswer : b.failures.limited address now with ⟨wait, failures⟩
    rw [hanswer] at hlength htraced hlimit hremembered
    cases wait with
    | some seconds =>
      -- it is turned away: nothing more is under way
      have hexec : b.exec (now, .arrive a) = { b with failures } := by
        simp only [exec, haddress, hanswer]
      rw [hexec]
      refine ⟨hlimit, ?_, h.guesses, hearlier, htraced, h.windows⟩
      show (failures.remembered k).length + b.underway k ≤ perMinute
      dsimp only at hlength
      omega
    | none =>
      have hexec : b.exec (now, .arrive a) = { b with failures, admitted := a :: b.admitted } := by
        simp only [exec, haddress, hanswer]
      rw [hexec]
      refine ⟨hlimit, ?_, h.guesses, hearlier, htraced, h.windows⟩
      show (failures.remembered k).length +
        ((a :: b.admitted).countP (Attempt.guesses k) +
          b.looked.countP (Attempt.guesses k)) ≤ perMinute
      have hunder : b.underway k =
          b.admitted.countP (Attempt.guesses k) + b.looked.countP (Attempt.guesses k) := rfl
      dsimp only at hlength hremembered hlimit
      by_cases hguess : a.guesses k = true
      · -- a guess of this address: there was room for it
        have hk : countedAs address = k := by
          have := (guesses_eq_true.mp hguess).2
          rw [haddress] at this
          exact Option.some.inj this
        have hfew := FailureLimiter.limited_none hposb (congrArg Prod.fst hanswer)
        rw [if_pos hk] at hremembered
        rw [hremembered, List.countP_cons_of_pos hguess]
        simp only [leavesRoom, haddress, hk, hguess, Bool.not_true, Bool.false_or,
          Bool.or_eq_true, decide_eq_true_eq] at hroom
        rw [hk] at hfew
        have hlimit' := h.limit
        omega
      · rw [List.countP_cons_of_neg hguess]
        omega

/-- Time passes. -/
theorem Bounded.wait (h : Bounded k perMinute past seen b) (now : Nat) :
    Bounded k perMinute (past ++ [now]) seen b where
  limit := h.limit
  room := h.room
  guesses := h.guesses
  earlier x hx := List.mem_append_left _ (h.earlier x hx)
  traced t hall := h.traced t fun x hx => hall x (List.mem_append_left _ hx)
  windows := h.windows

/-- A window in which every look is remembered, or to be counted, has no more of them than are
allowed; and one that is over has those it had. -/
theorem windows_of_traced {failures : List Nat} {counted : Nat} (hnow : ∀ x ∈ past, x ≤ now)
    (hearlier : ∀ x ∈ seen, x ∈ past) (hroom : failures.length + counted ≤ perMinute)
    (htraced : ∀ t, (∀ x ∈ past ++ [now], x < t + failureWindow) →
      Windows.since t (seen ++ [now]) ≤ Windows.since t failures + counted)
    (hwindows : ∀ t, Windows.within t failureWindow seen ≤ perMinute) (t : Nat) :
    Windows.within t failureWindow (seen ++ [now]) ≤ perMinute := by
  by_cases hin : t ≤ now ∧ now < t + failureWindow
  · have hall : ∀ x ∈ past ++ [now], x < t + failureWindow := by
      intro x hx
      rcases List.mem_append.mp hx with hx | hx
      · exact Nat.lt_of_le_of_lt (hnow x hx) hin.2
      · rw [List.mem_singleton.mp hx]
        exact hin.2
    have hseen : ∀ x ∈ seen ++ [now], x < t + failureWindow := by
      intro x hx
      rcases List.mem_append.mp hx with hx | hx
      · exact hall x (List.mem_append_left _ (hearlier x hx))
      · exact hall x (List.mem_append_right _ hx)
    have hremembered := Windows.since_le_length t failures
    have hbound := htraced t hall
    rw [Windows.within_eq_since hseen]
    omega
  · rw [Windows.within_append, Windows.within_singleton_of_not hin]
    exact hwindows t

/-- A guess of the address is looked at: it waits to be counted. -/
theorem Bounded.look_guess (hnow : ∀ x ∈ past, x ≤ now) (h : Bounded k perMinute past seen b)
    (hmem : a ∈ b.admitted) (hguess : a.guesses k = true) :
    Bounded k perMinute (past ++ [now]) (seen ++ [now])
      { b with admitted := b.admitted.erase a, looked := a :: b.looked } := by
  -- it is under way as it was
  have hroom : (b.failures.remembered k).length +
      ((b.admitted.erase a).countP (Attempt.guesses k) +
        (a :: b.looked).countP (Attempt.guesses k)) ≤ perMinute := by
    have hcount := countP_erase_add (p := Attempt.guesses k) hmem
    have hold := h.room
    have hunder : b.underway k =
        b.admitted.countP (Attempt.guesses k) + b.looked.countP (Attempt.guesses k) := rfl
    rw [if_pos hguess] at hcount
    rw [List.countP_cons_of_pos hguess]
    omega
  -- one look more, and one to be counted
  have htraced : ∀ t, (∀ x ∈ past ++ [now], x < t + failureWindow) →
      Windows.since t (seen ++ [now]) ≤
        Windows.since t (b.failures.remembered k) +
          (a :: b.looked).countP (Attempt.guesses k) := by
    intro t hall
    have hbefore := h.traced t fun x hx => hall x (List.mem_append_left _ hx)
    rw [Windows.since_append, Windows.since_singleton, List.countP_cons_of_pos hguess]
    split <;> omega
  refine ⟨h.limit, hroom, ?_, ?_, htraced, ?_⟩
  · intro a' ha'
    rcases List.mem_cons.mp ha' with rfl | ha'
    · exact (guesses_eq_true.mp hguess).1
    · exact h.guesses a' ha'
  · intro x hx
    rcases List.mem_append.mp hx with hx | hx
    · exact List.mem_append_left _ (h.earlier x hx)
    · exact List.mem_append_right _ hx
  · exact windows_of_traced hnow h.earlier (by omega) htraced h.windows

/-- Another request is looked at. -/
theorem Bounded.look_other (h : Bounded k perMinute past seen b) (hmem : a ∈ b.admitted)
    (hguess : ¬a.guesses k = true) :
    Bounded k perMinute (past ++ [now]) seen
      { b with
        admitted := b.admitted.erase a
        looked := if a.refusal = some .unauthenticated then a :: b.looked else b.looked } := by
  have hlooked : (if a.refusal = some .unauthenticated then a :: b.looked
      else b.looked).countP (Attempt.guesses k) = b.looked.countP (Attempt.guesses k) := by
    split
    · rw [List.countP_cons_of_neg hguess]
    · rfl
  refine ⟨h.limit, ?_, ?_, (h.wait now).earlier, ?_, h.windows⟩
  · show (b.failures.remembered k).length + ((b.admitted.erase a).countP _ + _) ≤ _
    have hcount := countP_erase_add (p := Attempt.guesses k) hmem
    have hold := h.room
    have hunder : b.underway k =
        b.admitted.countP (Attempt.guesses k) + b.looked.countP (Attempt.guesses k) := rfl
    rw [if_neg hguess] at hcount
    rw [hlooked]
    omega
  · intro a' ha'
    by_cases hrefused : a.refusal = some .unauthenticated
    · rw [if_pos hrefused] at ha'
      rcases List.mem_cons.mp ha' with rfl | ha'
      · exact hrefused
      · exact h.guesses a' ha'
    · rw [if_neg hrefused] at ha'
      exact h.guesses a' ha'
  · intro t hall
    rw [hlooked]
    exact (h.wait now).traced t hall

theorem Bounded.look (hnow : ∀ x ∈ past, x ≤ now) (h : Bounded k perMinute past seen b) :
    Bounded k perMinute (past ++ [now]) (seen ++ b.looks k (now, .look a))
      (b.exec (now, .look a)) := by
  by_cases hmem : a ∈ b.admitted
  · have hexec : b.exec (now, .look a) =
        { b with
          admitted := b.admitted.erase a
          looked := if a.refusal = some .unauthenticated then a :: b.looked else b.looked } := by
      simp only [exec, if_pos hmem]
    by_cases hguess : a.guesses k = true
    · have hlooks : b.looks k (now, .look a) = [now] := by
        simp only [looks, if_pos (And.intro hmem hguess)]
      rw [hlooks, hexec, if_pos (guesses_eq_true.mp hguess).1]
      exact h.look_guess hnow hmem hguess
    · have hlooks : b.looks k (now, .look a) = [] := by
        simp only [looks, if_neg (fun hboth : a ∈ b.admitted ∧ a.guesses k = true =>
          hguess hboth.2)]
      rw [hlooks, List.append_nil, hexec]
      exact h.look_other hmem hguess
  · have hexec : b.exec (now, .look a) = b := by simp only [exec, if_neg hmem]
    have hlooks : b.looks k (now, .look a) = [] := by
      simp only [looks, if_neg (fun hboth : a ∈ b.admitted ∧ a.guesses k = true =>
        hmem hboth.1)]
    rw [hexec, hlooks, List.append_nil]
    exact h.wait now

/-- A guess of the address is counted: the failure takes its place. -/
theorem Bounded.fail_guess (hpos : 0 < perMinute) (hnow : ∀ x ∈ past, x ≤ now)
    (h : Bounded k perMinute past seen b) (hmem : a ∈ b.looked) (hguess : a.guesses k = true)
    {address : IpAddr} (hk : countedAs address = k) (hroomy : b.failures.hasRoom address = true) :
    Bounded k perMinute (past ++ [now]) seen
      { b with looked := b.looked.erase a, failures := b.failures.failed address now } := by
  have hcount := countP_erase_add (p := Attempt.guesses k) hmem
  rw [if_pos hguess] at hcount
  have hold := h.room
  have hunder : b.underway k =
      b.admitted.countP (Attempt.guesses k) + b.looked.countP (Attempt.guesses k) := rfl
  have hforgot := Windows.length_forget_le failureWindow now (b.failures.remembered k)
  -- the guess was under way, so there is room for its failure
  have hremembered : (b.failures.failed address now).remembered k =
      FailureLimiter.forgetOld (b.failures.remembered k) now ++ [now] := by
    have hposb : 0 < b.failures.perMinute := h.limit ▸ hpos
    have hshort : (FailureLimiter.forgetOld (b.failures.remembered k) now).length <
        b.failures.perMinute := by
      have hlimit := h.limit
      unfold FailureLimiter.forgetOld
      omega
    rw [FailureLimiter.failed_remembered hposb hroomy, if_pos hk, if_pos hshort]
  refine ⟨FailureLimiter.failed_perMinute.trans h.limit, ?_,
    fun a' ha' => h.guesses a' (List.mem_of_mem_erase ha'), (h.wait now).earlier, ?_, h.windows⟩
  · show ((b.failures.failed address now).remembered k).length +
      (b.admitted.countP (Attempt.guesses k) +
        (b.looked.erase a).countP (Attempt.guesses k)) ≤ perMinute
    rw [hremembered, List.length_append, List.length_singleton]
    unfold FailureLimiter.forgetOld
    omega
  · intro t hall
    show _ ≤ Windows.since t ((b.failures.failed address now).remembered k) + _
    have hbefore := (h.wait now).traced t hall
    rw [hremembered, Windows.since_append, Windows.since_singleton,
      since_forgetOld (hall now (by simp))]
    by_cases ht : t ≤ now
    · rw [if_pos ht]
      dsimp only
      omega
    · -- nothing was looked at since a time that is still to come
      have hnone : Windows.since t seen = 0 := by
        refine Windows.since_eq_zero fun x hx => ?_
        have := hnow x (h.earlier x hx)
        omega
      omega

/-- A guess of another address is counted: nothing changes for this one. -/
theorem Bounded.fail_other (h : Bounded k perMinute past seen b) (hmem : a ∈ b.looked)
    (hguess : ¬a.guesses k = true) {failures : FailureLimiter}
    (hlimit : failures.perMinute = perMinute)
    (hremembered : failures.remembered k = b.failures.remembered k) :
    Bounded k perMinute (past ++ [now]) seen
      { b with looked := b.looked.erase a, failures } := by
  have hcount := countP_erase_add (p := Attempt.guesses k) hmem
  rw [if_neg hguess] at hcount
  refine ⟨hlimit, ?_, fun a' ha' => h.guesses a' (List.mem_of_mem_erase ha'),
    (h.wait now).earlier, ?_, h.windows⟩
  · show (failures.remembered k).length + (b.admitted.countP (Attempt.guesses k) +
      (b.looked.erase a).countP (Attempt.guesses k)) ≤ perMinute
    have hold := h.room
    have hunder : b.underway k =
        b.admitted.countP (Attempt.guesses k) + b.looked.countP (Attempt.guesses k) := rfl
    rw [hremembered]
    omega
  · intro t hall
    show _ ≤ Windows.since t (failures.remembered k) +
      (b.looked.erase a).countP (Attempt.guesses k)
    have hbefore := (h.wait now).traced t hall
    rw [hremembered]
    omega

theorem Bounded.fail (hpos : 0 < perMinute) (hnow : ∀ x ∈ past, x ≤ now)
    (h : Bounded k perMinute past seen b) (hroom : b.evictsNone (now, .fail a) = true) :
    Bounded k perMinute (past ++ [now]) seen (b.exec (now, .fail a)) := by
  by_cases hmem : a ∈ b.looked
  · cases haddress : a.address with
    | none =>
      have hguess : ¬a.guesses k = true := by simp [Attempt.guesses, haddress]
      have hexec : b.exec (now, .fail a) = { b with looked := b.looked.erase a } := by
        simp only [exec, if_pos hmem, haddress]
      rw [hexec]
      exact h.fail_other hmem hguess h.limit rfl
    | some address =>
      have hroomy : b.failures.hasRoom address = true := by
        simpa [evictsNone, haddress] using hroom
      have hexec : b.exec (now, .fail a) =
          { b with looked := b.looked.erase a, failures := b.failures.failed address now } := by
        simp only [exec, if_pos hmem, haddress]
      rw [hexec]
      by_cases hk : countedAs address = k
      · have hguess : a.guesses k = true :=
          guesses_eq_true.mpr ⟨h.guesses a hmem, by rw [haddress, Option.map_some, hk]⟩
        exact h.fail_guess hpos hnow hmem hguess hk hroomy
      · have hguess : ¬a.guesses k = true := by
          intro hguess
          have hsame := (guesses_eq_true.mp hguess).2
          rw [haddress] at hsame
          exact hk (Option.some.inj hsame)
        refine h.fail_other hmem hguess (FailureLimiter.failed_perMinute.trans h.limit) ?_
        rw [FailureLimiter.failed_remembered (h.limit ▸ hpos) hroomy, if_neg hk]
  · have hexec : b.exec (now, .fail a) = b := by simp only [exec, if_neg hmem]
    rw [hexec]
    exact h.wait now

/-- **Every step keeps the bound**, if no guess is let through beyond the room that is
left. -/
theorem Bounded.step (hpos : 0 < perMinute) {e : Nat × BearerStep}
    (hclock : (past ++ [e.1]).Pairwise (· ≤ ·)) (h : Bounded k perMinute past seen b)
    (hroom : b.leavesRoom e = true) (hkept : b.evictsNone e = true) :
    Bounded k perMinute (past ++ [e.1]) (seen ++ b.looks k e) (b.exec e) := by
  obtain ⟨now, step⟩ := e
  have hnow : ∀ x ∈ past, x ≤ now := fun x hx =>
    (List.pairwise_append.mp hclock).2.2 x hx now (List.mem_singleton_self now)
  cases step with
  | arrive a =>
    rw [show b.looks k (now, .arrive a) = [] from rfl, List.append_nil]
    exact h.arrive hpos hroom
  | look a => exact h.look hnow
  | fail a =>
    rw [show b.looks k (now, .fail a) = [] from rfl, List.append_nil]
    exact h.fail hpos hnow hkept

theorem bounded_new (capacity : Nat) : Bounded k perMinute [] [] (new perMinute capacity) where
  limit := rfl
  room := by
    have hnone : (new perMinute capacity).failures.remembered k = [] := by
      show ((∅ : Map IpAddr (List Nat))[k]?).getD [] = []
      rw [Std.ExtTreeMap.getElem?_empty]
      rfl
    rw [hnone]
    exact Nat.zero_le _
  guesses := fun a ha => by cases ha
  earlier := fun x hx => by cases hx
  traced := fun _ _ => Nat.zero_le _
  windows := fun _ => Nat.zero_le _

/-- **At most `perMinute` guesses of an address are looked at in every window**, in every
run, of any number of requests whose steps come in any order, in which no guess is let
through beyond what the failures remembered and the guesses under way leave. -/
theorem guesses_run (perMinute capacity : Nat) (hpos : 0 < perMinute)
    (es : List (Nat × BearerStep)) (hclock : (es.map Prod.fst).Pairwise (· ≤ ·))
    (hkept : Runs.Along exec (fun b e => b.evictsNone e = true) (new perMinute capacity) es)
    (hroom : Runs.Along exec (fun b e => b.leavesRoom e = true) (new perMinute capacity) es)
    (k : IpAddr) (t : Nat) :
    Windows.within t failureWindow
      (Runs.history exec (looks k) (new perMinute capacity) es) ≤ perMinute := by
  have htimes : Runs.history exec (fun _ e => [e.1]) (new perMinute capacity) es =
      es.map Prod.fst := by
    rw [Runs.history_of_events]
    exact List.map_eq_flatMap.symm
  have hbounded : Bounded k perMinute
      ([] ++ Runs.history exec (fun _ e => [e.1]) (new perMinute capacity) es)
      ([] ++ Runs.history exec (looks k) (new perMinute capacity) es)
      (Runs.run exec (new perMinute capacity) es) :=
    Runs.logged_invariant exec (R := (· ≤ ·))
      (fun past seen b e h hboth hpair => h.step hpos hpair hboth.1 hboth.2)
      (bounded_new capacity) (Runs.along_and exec hroom hkept) (by rw [htimes]; exact hclock)
  exact hbounded.windows t

/-- Requests of an address that come one after the other leave room for each other: one
that comes while no guess of its address is under way is within the limit. -/
theorem leavesRoom_of_alone {address : IpAddr} (haddress : a.address = some address)
    (halone : b.underway (countedAs address) = 0) : b.leavesRoom (now, .arrive a) = true := by
  simp only [leavesRoom, haddress, halone, Nat.add_zero, Bool.or_eq_true, decide_eq_true_eq]
  rcases Nat.lt_or_ge
    (FailureLimiter.forgetOld (b.failures.remembered (countedAs address)) now).length
    b.failures.perMinute with hfew | hfull
  · exact .inr hfew
  · exact .inl (.inr hfull)

end Bearer

namespace Sample

/-- An address, and a guess from it. -/
def kitchen : IpAddr := .v4 3221225985

def guess : Attempt := ⟨some kitchen, some .unauthenticated⟩

/-- Two guesses that are under way side by side. -/
def sideBySide : List (Nat × BearerStep) :=
  [(100, .arrive guess), (100, .arrive guess), (100, .look guess), (100, .look guess),
    (100, .fail guess), (100, .fail guess)]

/-- Three guesses one after the other, of which the second comes too early. -/
def inTurn : List (Nat × BearerStep) :=
  [(100, .arrive guess), (100, .look guess), (101, .fail guess), (130, .arrive guess),
    (161, .arrive guess), (161, .look guess), (161, .fail guess)]

end Sample

/-- Where one guess a minute is allowed, two are looked at at once. -/
theorem Bearer.not_guesses_sideBySide :
    (Sample.sideBySide.map Prod.fst).Pairwise (· ≤ ·) ∧
      Runs.Along Bearer.exec (fun b e => b.evictsNone e = true) (.new 1 10000)
        Sample.sideBySide ∧
      Windows.within 100 failureWindow (Runs.history Bearer.exec
        (Bearer.looks Sample.kitchen) (.new 1 10000) Sample.sideBySide) = 2 := by
  decide +kernel

/-- One after the other, one is looked at. -/
theorem Bearer.guesses_inTurn :
    Windows.within 100 failureWindow (Runs.history Bearer.exec
      (Bearer.looks Sample.kitchen) (.new 1 10000) Sample.inTurn) ≤ 1 :=
  Bearer.guesses_run 1 10000 (by decide) Sample.inTurn (by decide) (by decide +kernel)
    (by decide +kernel) Sample.kitchen 100

end Passalong
