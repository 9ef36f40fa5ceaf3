import Mathlib.Logic.Basic

/-!
# Programs that work through an interface

A program makes calls and goes on by what it is answered; a server answers them and keeps
a state. `Q` are the calls, `A q` what `q` is answered with, and `E` what a refusal says,
which ends the program.

- `run` is a whole run with a server, and `cut k` what a program leaves that stops before
  its call number `k`.
- `Alike`: two servers that answer alike from related states. No program tells them apart
  (`run_alike`), and one that is cut leaves related states (`cut_alike`).
- `Quiet`: with this server the program changes nothing, wherever it is cut (`Quiet.cut`).
- `Single`: it changes the state by one call at most, so a cut leaves everything or nothing
  (`Single.cut`).
-/

namespace Lib

/-- A program over an interface that answers an `α` or stops with an `E`. -/
inductive Calls (Q : Type) (A : Q → Type) (E α : Type) : Type where
  | done (a : α)
  | stop (e : E)
  /-- A call, and how it goes on. -/
  | call (q : Q) (next : A q → Calls Q A E α)

/-- A server of the interface, with states `S`. -/
abbrev Server (Q : Type) (A : Q → Type) (E S : Type) : Type :=
  (q : Q) → S → Except E (A q) × S

namespace Calls

variable {Q : Type} {A : Q → Type} {E S T α β : Type}

protected def bind : Calls Q A E α → (α → Calls Q A E β) → Calls Q A E β
  | done a, f => f a
  | stop e, _ => stop e
  | call q next, f => call q fun a => (next a).bind f

instance : Monad (Calls Q A E) where
  pure := done
  bind := Calls.bind

/-- One call. -/
def ask (q : Q) : Calls Q A E (A q) := call q done

/-- Goes on with what is known, or stops. -/
def check : Except E α → Calls Q A E α
  | .ok a => done a
  | .error e => stop e

/-- How a run goes on behind a part of it. -/
def thread (r : Except E α × S) (next : α → S → Except E β × S) : Except E β × S :=
  match r with
  | (.ok a, s) => next a s
  | (.error e, s) => (.error e, s)

/-! ## Whole runs and cuts -/

section

variable (serve : Server Q A E S)

/-- A whole run. -/
def run : Calls Q A E α → S → Except E α × S
  | done a, s => (.ok a, s)
  | stop e, s => (.error e, s)
  | call q next, s => thread (serve q s) fun a s' => (next a).run s'

/-- What is left by a run that stops before its call number `k`. -/
def cut : Calls Q A E α → Nat → S → S
  | done _, _, s => s
  | stop _, _, s => s
  | call _ _, 0, s => s
  | call q next, k + 1, s =>
    match serve q s with
    | (.ok a, s') => (next a).cut k s'
    | (.error _, s') => s'

@[simp] theorem run_pure (a : α) (s : S) :
    (pure a : Calls Q A E α).run serve s = (.ok a, s) := rfl

@[simp] theorem run_stop (e : E) (s : S) :
    (stop e : Calls Q A E α).run serve s = (.error e, s) := rfl

@[simp] theorem run_check (c : Except E α) (s : S) :
    (check c : Calls Q A E α).run serve s = (c, s) := by
  cases c <;> rfl

@[simp] theorem run_ask (q : Q) (s : S) :
    (ask q : Calls Q A E (A q)).run serve s = serve q s := by
  show thread (serve q s) (fun a s' => (.ok a, s')) = serve q s
  rcases serve q s with ⟨_ | _, _⟩ <;> rfl

@[simp] theorem run_bind (p : Calls Q A E α) (f : α → Calls Q A E β) (s : S) :
    (p >>= f).run serve s = thread (p.run serve s) fun a s' => (f a).run serve s' := by
  show (p.bind f).run serve s = _
  induction p generalizing s with
  | done a => rfl
  | stop e => rfl
  | call q next ih =>
    show thread (serve q s) (fun a s' => ((next a).bind f).run serve s') =
      thread (thread (serve q s) fun a s' => (next a).run serve s') _
    rcases serve q s with ⟨e | a, s'⟩
    · rfl
    · exact ih a s'

end

@[simp] theorem thread_ok (a : α) (s : S) (next : α → S → Except E β × S) :
    thread (.ok a, s) next = next a s := rfl

@[simp] theorem thread_error (e : E) (s : S) (next : α → S → Except E β × S) :
    thread (.error e, s) next = (.error e, s) := rfl

/-! ## What every call of a program meets -/

/-- Every call of the program meets `P`, whatever the calls before it were answered. -/
def All (P : Q → Prop) : Calls Q A E α → Prop
  | done _ => True
  | stop _ => True
  | call q next => P q ∧ ∀ a, (next a).All P

section

variable {P : Q → Prop}

@[simp] theorem all_pure (a : α) : (pure a : Calls Q A E α).All P := trivial

@[simp] theorem all_stop (e : E) : (stop e : Calls Q A E α).All P := trivial

@[simp] theorem all_check (c : Except E α) : (check c : Calls Q A E α).All P := by
  cases c <;> trivial

theorem all_ask {q : Q} (h : P q) : (ask q : Calls Q A E (A q)).All P := ⟨h, fun _ => trivial⟩

theorem all_ite {c : Prop} [Decidable c] {p q : Calls Q A E α} (hp : p.All P) (hq : q.All P) :
    (if c then p else q).All P := by
  split
  · exact hp
  · exact hq

theorem All.bind {p : Calls Q A E α} {f : α → Calls Q A E β} (hp : p.All P)
    (hf : ∀ a, (f a).All P) : (p >>= f).All P := by
  show (p.bind f).All P
  induction p with
  | done a => exact hf a
  | stop e => trivial
  | call q next ih => exact ⟨hp.1, fun a => ih a (hp.2 a)⟩

/-- Behind a check, only what passes it matters. -/
theorem All.check_bind {c : Except E α} {f : α → Calls Q A E β}
    (h : ∀ a, c = .ok a → (f a).All P) : (check c >>= f : Calls Q A E β).All P := by
  cases c with
  | ok a => exact h a rfl
  | error e => trivial

theorem All.mono {P' : Q → Prop} {p : Calls Q A E α} (h : p.All P) (himp : ∀ q, P q → P' q) :
    p.All P' := by
  induction p with
  | done a => trivial
  | stop e => trivial
  | call q next ih => exact ⟨himp q h.1, fun a => ih a (h.2 a)⟩

end

/-! ## Servers no program tells apart -/

/-- From states that are related, calls that meet `P` are answered alike, and leave states
that are related. -/
def Alike (R : S → T → Prop) (P : Q → Prop) (f : Server Q A E S) (g : Server Q A E T) : Prop :=
  ∀ q s t, P q → R s t → (f q s).1 = (g q t).1 ∧ R (f q s).2 (g q t).2

section

variable {R : S → T → Prop} {P : Q → Prop} {f : Server Q A E S} {g : Server Q A E T}
  {p : Calls Q A E α} {s : S} {t : T}

/-- **No program tells them apart.** -/
theorem run_alike (h : Alike R P f g) (hp : p.All P) (hR : R s t) :
    (p.run f s).1 = (p.run g t).1 ∧ R (p.run f s).2 (p.run g t).2 := by
  induction p generalizing s t with
  | done a => exact ⟨rfl, hR⟩
  | stop e => exact ⟨rfl, hR⟩
  | call q next ih =>
    obtain ⟨hanswer, hnext⟩ := h q s t hp.1 hR
    unfold run
    rcases hf : f q s with ⟨e | a, s'⟩ <;> rcases hg : g q t with ⟨e' | a', t'⟩ <;>
      rw [hf, hg] at hanswer hnext <;> cases hanswer
    · exact ⟨rfl, hnext⟩
    · exact ih a (hp.2 a) hnext

/-- A program that is cut leaves what is related. -/
theorem cut_alike (h : Alike R P f g) (hp : p.All P) (hR : R s t) (k : Nat) :
    R (p.cut f k s) (p.cut g k t) := by
  induction p generalizing s t k with
  | done a => exact hR
  | stop e => exact hR
  | call q next ih =>
    cases k with
    | zero => exact hR
    | succ k =>
      obtain ⟨hanswer, hnext⟩ := h q s t hp.1 hR
      unfold cut
      rcases hf : f q s with ⟨e | a, s'⟩ <;> rcases hg : g q t with ⟨e' | a', t'⟩ <;>
        rw [hf, hg] at hanswer hnext <;> cases hanswer
      · exact hnext
      · exact ih a (hp.2 a) hnext k

end

/-! ## Programs that change little -/

section

variable {serve : Server Q A E S} {p : Calls Q A E α} {f : α → Calls Q A E β}

/-- Every call leaves every state alone. -/
def Quiet (serve : Server Q A E S) (p : Calls Q A E α) : Prop :=
  p.All fun q => ∀ s, (serve q s).2 = s

/-- At most one call of the program changes the state. -/
def Single (serve : Server Q A E S) : Calls Q A E α → Prop
  | done _ => True
  | stop _ => True
  | call q next =>
    (∀ a, (next a).Quiet serve) ∨ ((∀ s, (serve q s).2 = s) ∧ ∀ a, (next a).Single serve)

theorem Quiet.cut (h : p.Quiet serve) (k : Nat) (s : S) : p.cut serve k s = s := by
  induction p generalizing k s with
  | done a => rfl
  | stop e => rfl
  | call q next ih =>
    cases k with
    | zero => rfl
    | succ k =>
      have hq := h.1 s
      unfold Calls.cut
      rcases hserve : serve q s with ⟨e | a, s'⟩ <;> rw [hserve] at hq
      · exact hq
      · obtain rfl : s' = s := hq
        exact ih a (h.2 a) k s'

theorem Quiet.run (h : p.Quiet serve) (s : S) : (p.run serve s).2 = s := by
  induction p generalizing s with
  | done a => rfl
  | stop e => rfl
  | call q next ih =>
    have hq := h.1 s
    unfold Calls.run
    rcases hserve : serve q s with ⟨e | a, s'⟩ <;> rw [hserve] at hq
    · exact hq
    · obtain rfl : s' = s := hq
      exact ih a (h.2 a) s'

theorem Quiet.single (h : p.Quiet serve) : p.Single serve := by
  induction p with
  | done a => trivial
  | stop e => trivial
  | call q next ih => exact .inr ⟨h.1, fun a => ih a (h.2 a)⟩

/-- Reading before a change. -/
theorem Single.after (hp : p.Quiet serve) (hf : ∀ a, (f a).Single serve) :
    (p >>= f).Single serve := by
  show (p.bind f).Single serve
  induction p with
  | done a => exact hf a
  | stop e => trivial
  | call q next ih => exact .inr ⟨hp.1, fun a => ih a (hp.2 a)⟩

/-- Reading behind a change. -/
theorem Single.before (hp : p.Single serve) (hf : ∀ a, (f a).Quiet serve) :
    (p >>= f).Single serve := by
  show (p.bind f).Single serve
  induction p with
  | done a => exact (hf a).single
  | stop e => trivial
  | call q next ih =>
    rcases hp with hquiet | ⟨hq, hnext⟩
    · exact .inl fun a => (hquiet a).bind hf
    · exact .inr ⟨hq, fun a => ih a (hnext a)⟩

theorem single_check_bind {c : Except E α} (hf : ∀ a, (f a).Single serve) :
    (check c >>= f : Calls Q A E β).Single serve := by
  cases c with
  | ok a => exact hf a
  | error e => trivial

theorem single_ite {c : Prop} [Decidable c] {p q : Calls Q A E α} (hp : p.Single serve)
    (hq : q.Single serve) : (if c then p else q).Single serve := by
  split
  · exact hp
  · exact hq

theorem single_ask (q : Q) : (ask q : Calls Q A E (A q)).Single serve :=
  .inl fun _ => trivial

/-- **A cut leaves everything or nothing.** -/
theorem Single.cut (h : p.Single serve) (k : Nat) (s : S) :
    p.cut serve k s = s ∨ p.cut serve k s = (p.run serve s).2 := by
  induction p generalizing k s with
  | done a => exact .inl rfl
  | stop e => exact .inl rfl
  | call q next ih =>
    cases k with
    | zero => exact .inl rfl
    | succ k =>
      unfold Calls.cut Calls.run
      rcases hserve : serve q s with ⟨e | a, s'⟩
      · exact .inr rfl
      rcases h with hquiet | ⟨hq, hnext⟩
      · -- the change is made: nothing behind it makes another
        refine .inr ?_
        show (next a).cut serve k s' = ((next a).run serve s').2
        rw [(hquiet a).cut, (hquiet a).run]
      · have hsame : s' = s := by
          rw [← hq s, hserve]
        subst hsame
        exact ih a (hnext a) k s'

end

end Calls

end Lib
