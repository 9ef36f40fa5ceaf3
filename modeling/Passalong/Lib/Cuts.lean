import Mathlib.Tactic.SplitIfs

/-!
# Programs that may be cut, among others

A program is made of steps, each of which answers and changes the state at once. A program
that is cut stops between two steps or inside one, which then leaves a part of its change:
`tear n` is what is left of the next step, and `cut k n` what is left after `k` whole steps
and as much as `n` says of the next one. A `Pool` holds the programs under way, whose steps
come in any order.

- `Terms` says what a program may reckon with and what it may do: an invariant, what the
  others may change, and what it may change itself.
- `Keeps` is what has to be shown of a program: every step, whole or torn, is on its terms,
  whatever the others did before, and what is wanted holds in the end. It goes by the steps
  (`keeps_bind`, `keeps_tornAtom`).
- `Pool.Sound`: each program keeps to its terms, and no program's terms allow what another
  must reckon without. A step of any of them leaves it so (`Sound.step`), as does a cut
  (`Sound.cut`) and a program that starts (`Sound.start`).
-/

namespace Lib

/-- A program over states `S` that answers an `α` or an error. -/
inductive Prog (S E α : Type) : Type 1 where
  | done (answer : Except E α)
  /-- A step, what it leaves when it is cut, and how it goes on. -/
  | step {β : Type} (act : S → Except E β × S) (torn : Nat → S → S) (next : β → Prog S E α)

namespace Prog

variable {S E α β : Type}

protected def bind : Prog S E α → (α → Prog S E β) → Prog S E β
  | done (.ok a), f => f a
  | done (.error e), _ => done (.error e)
  | step act torn next, f => step act torn fun b => (next b).bind f

instance : Monad (Prog S E) where
  pure a := done (.ok a)
  bind := Prog.bind

instance : MonadExceptOf E (Prog S E) where
  throw e := done (.error e)
  tryCatch p _ := p

/-- One step. -/
def tornAtom (act : S → Except E α × S) (torn : Nat → S → S) : Prog S E α :=
  step act torn fun a => done (.ok a)

/-- One step that is made or not. -/
def atom (act : S → Except E α × S) : Prog S E α := tornAtom act fun _ s => s

/-- How it goes on after a step. -/
def split {γ : Sort*} (r : Except E α × S) (onError : E → S → γ) (onOk : α → S → γ) : γ :=
  match r with
  | (.ok a, s) => onOk a s
  | (.error e, s) => onError e s

/-! ## Whole runs and cuts -/

/-- The next step: what is left to do after it, and the state. -/
def advance : Prog S E α → S → Prog S E α × S
  | done answer, s => (done answer, s)
  | step act _ next, s => split (act s) (fun e s' => (done (.error e), s')) fun b s' => (next b, s')

/-- What a cut inside the next step leaves. -/
def tear : Prog S E α → Nat → S → S
  | done _, _, s => s
  | step _ torn _, n, s => torn n s

/-- A whole run. -/
def run : Prog S E α → S → Except E α × S
  | done answer, s => (answer, s)
  | step act _ next, s => split (act s) (fun e s' => (.error e, s')) fun b s' => (next b).run s'

/-- What is left by a run that is cut. -/
def cut : Prog S E α → Nat → Nat → S → S
  | done _, _, _, s => s
  | step _ torn _, 0, n, s => torn n s
  | step act _ next, k + 1, n, s => split (act s) (fun _ s' => s') fun b s' => (next b).cut k n s'

@[simp] theorem run_tornAtom (act : S → Except E α × S) (torn : Nat → S → S) :
    (tornAtom act torn).run = act := by
  funext s
  show split (act s) _ _ = act s
  rcases act s with ⟨_ | _, _⟩ <;> rfl

@[simp] theorem run_atom (act : S → Except E α × S) : (atom act).run = act :=
  run_tornAtom act _

theorem run_bind (p : Prog S E α) (f : α → Prog S E β) (s : S) :
    (p >>= f).run s =
      split (p.run s) (fun e s' => (.error e, s')) fun a s' => (f a).run s' := by
  show (p.bind f).run s = _
  induction p generalizing s with
  | done answer => cases answer <;> rfl
  | step act torn next ih =>
    show split (act s) _ (fun b s' => ((next b).bind f).run s') = split (split (act s) _ _) _ _
    rcases act s with ⟨e | b, s'⟩
    · rfl
    · exact ih b s'

end Prog

/-! ## What a program may reckon with, and what it may do -/

/-- What a program may reckon with, and what it may do, while others are under way. -/
structure Terms (S : Type) where
  /-- What holds between any two steps. -/
  inv : S → Prop
  /-- What the others may change. -/
  rely : S → S → Prop
  /-- What the program may change. -/
  may : S → S → Prop
  rely_refl : ∀ s, rely s s
  rely_trans : ∀ {s s' s'' : S}, rely s s' → rely s' s'' → rely s s''
  may_refl : ∀ s, may s s

/-- What a step may leave. -/
def Terms.Fine {S : Type} (T : Terms S) (s s' : S) : Prop := T.inv s' ∧ T.may s s'

/-- Whoever keeps to the one leaves the other what it reckons with. -/
def Terms.Spares {S : Type} (T T' : Terms S) : Prop :=
  ∀ s s', T.Fine s s' → T'.inv s → T'.rely s s' ∧ T'.inv s'

namespace Prog

variable {S E α β : Type}

/-- Every step is on the terms `T`, whatever the others do, and `Q` holds in the end. -/
def Keeps (T : Terms S) (Q : Except E α → S → Prop) : Prog S E α → S → Prop
  | done answer, s => Q answer s
  | step act torn next, s => ∀ s₁, T.rely s s₁ → T.inv s₁ →
      (∀ n, T.Fine s₁ (torn n s₁)) ∧ T.Fine s₁ (act s₁).2 ∧
        split (act s₁) (fun e s₂ => Q (.error e) s₂) fun b s₂ => (next b).Keeps T Q s₂

variable {T : Terms S} {Q Q' : Except E α → S → Prop} {p : Prog S E α} {s s' : S}

theorem Keeps.mono (h : p.Keeps T Q s) (hQ : ∀ answer s', Q answer s' → Q' answer s') :
    p.Keeps T Q' s := by
  induction p generalizing s with
  | done answer => exact hQ _ _ h
  | step act torn next ih =>
    intro s₁ hrely hinv
    obtain ⟨htorn, hfine, hnext⟩ := h s₁ hrely hinv
    refine ⟨htorn, hfine, ?_⟩
    rcases hact : act s₁ with ⟨e | b, s₂⟩
    · rw [hact] at hnext
      exact hQ _ _ hnext
    · rw [hact] at hnext
      exact ih b hnext

/-- What the others do is of no matter. -/
theorem Keeps.stable (h : p.Keeps T Q s) (hQ : ∀ answer, T.rely s s' → Q answer s → Q answer s')
    (hrely : T.rely s s') : p.Keeps T Q s' := by
  cases p with
  | done answer => exact hQ _ hrely h
  | step act torn next => exact fun s₁ hs₁ => h s₁ (T.rely_trans hrely hs₁)

theorem keeps_tornAtom {act : S → Except E α × S} {torn : Nat → S → S}
    (h : ∀ s₁, T.rely s s₁ → T.inv s₁ →
      (∀ n, T.Fine s₁ (torn n s₁)) ∧ T.Fine s₁ (act s₁).2 ∧ Q (act s₁).1 (act s₁).2) :
    (tornAtom act torn).Keeps T Q s := by
  intro s₁ hrely hinv
  obtain ⟨htorn, hfine, hQ⟩ := h s₁ hrely hinv
  refine ⟨htorn, hfine, ?_⟩
  rcases hact : act s₁ with ⟨e | a, s₂⟩
  · rw [hact] at hQ
    exact hQ
  · rw [hact] at hQ
    exact hQ

theorem keeps_atom {act : S → Except E α × S}
    (h : ∀ s₁, T.rely s s₁ → T.inv s₁ → T.Fine s₁ (act s₁).2 ∧ Q (act s₁).1 (act s₁).2) :
    (atom act).Keeps T Q s :=
  keeps_tornAtom fun s₁ hrely hinv => ⟨fun _ => ⟨hinv, T.may_refl s₁⟩, h s₁ hrely hinv⟩

/-- One program after the other. -/
theorem keeps_bind {f : α → Prog S E β} {R : Except E β → S → Prop}
    (h : p.Keeps T (fun answer s' =>
      split (answer, s') (fun e s' => R (.error e) s') fun a s' => (f a).Keeps T R s') s) :
    (p >>= f).Keeps T R s := by
  show (p.bind f).Keeps T R s
  induction p generalizing s with
  | done answer => cases answer <;> exact h
  | step act torn next ih =>
    intro s₁ hrely hinv
    obtain ⟨htorn, hfine, hnext⟩ := h s₁ hrely hinv
    refine ⟨htorn, hfine, ?_⟩
    rcases hact : act s₁ with ⟨e | b, s₂⟩
    · rw [hact] at hnext
      exact hnext
    · rw [hact] at hnext
      exact ih b hnext

/-- What is made of the answer is of no matter. -/
theorem Keeps.map {J : S → Prop} (h : p.Keeps T (fun _ => J) s) (f : α → β) :
    (p >>= fun a => pure (f a)).Keeps T (fun _ => J) s := by
  refine keeps_bind (h.mono fun answer s' hJ => ?_)
  cases answer <;> exact hJ

/-! ### One step of it -/

theorem Keeps.tear (h : p.Keeps T Q s) (hinv : T.inv s) (n : Nat) :
    T.Fine s (p.tear n s) := by
  cases p with
  | done answer => exact ⟨hinv, T.may_refl s⟩
  | step act torn next => exact (h s (T.rely_refl s) hinv).1 n

theorem Keeps.advance (h : p.Keeps T Q s) (hinv : T.inv s) :
    T.Fine s (p.advance s).2 ∧ (p.advance s).1.Keeps T Q (p.advance s).2 := by
  cases p with
  | done answer => exact ⟨⟨hinv, T.may_refl s⟩, h⟩
  | step act torn next =>
    obtain ⟨-, hfine, hnext⟩ := h s (T.rely_refl s) hinv
    show T.Fine s (split (act s) _ _ : _ × S).2 ∧ (split (act s) _ _ : Prog S E α × S).1.Keeps T Q
      (split (act s) _ _ : _ × S).2
    rcases hact : act s with ⟨e | b, s₁⟩
    · rw [hact] at hfine hnext
      exact ⟨hfine, hnext⟩
    · rw [hact] at hfine hnext
      exact ⟨hfine, hnext⟩

/-! ### All of it, alone -/

theorem Keeps.cut (h : p.Keeps T Q s) (hinv : T.inv s) (k n : Nat) : T.inv (p.cut k n s) := by
  induction p generalizing s k with
  | done answer => exact hinv
  | step act torn next ih =>
    obtain ⟨htorn, hfine, hnext⟩ := h s (T.rely_refl s) hinv
    cases k with
    | zero => exact (htorn n).1
    | succ k =>
      show T.inv (split (act s) _ fun b s' => (next b).cut k n s')
      rcases hact : act s with ⟨e | b, s'⟩
      · rw [hact] at hfine
        exact hfine.1
      · rw [hact] at hfine hnext
        exact ih b hnext hfine.1 k

theorem Keeps.run (h : p.Keeps T Q s) (hinv : T.inv s) :
    T.inv (p.run s).2 ∧ Q (p.run s).1 (p.run s).2 := by
  induction p generalizing s with
  | done answer => exact ⟨hinv, h⟩
  | step act torn next ih =>
    obtain ⟨-, hfine, hnext⟩ := h s (T.rely_refl s) hinv
    show T.inv (split (act s) (fun e s' => (.error e, s')) fun b s' => (next b).run s').2 ∧
      Q (split (act s) (fun e s' => (.error e, s')) fun b s' => (next b).run s').1
        (split (act s) (fun e s' => (.error e, s')) fun b s' => (next b).run s').2
    rcases hact : act s with ⟨e | b, s'⟩
    · rw [hact] at hfine hnext
      exact ⟨hfine.1, hnext⟩
    · rw [hact] at hfine hnext
      exact ih b hnext hfine.1

end Prog

/-! ## Programs under way -/

/-- Programs under way over one state, each under a label. -/
structure Pool (S E L : Type) : Type 1 where
  state : S
  /-- One place for each that was started, empty once it is over. -/
  running : List (Option (L × Prog S E Unit))

namespace Pool

variable {S E L : Type}

/-- The program at a place, with its label. -/
def task (pool : Pool S E L) (i : Nat) : Option (L × Prog S E Unit) := pool.running[i]?.join

def start (pool : Pool S E L) (label : L) (p : Prog S E Unit) : Pool S E L :=
  { pool with running := pool.running ++ [some (label, p)] }

/-- The next step of a program; one that has none left is over. -/
def step (pool : Pool S E L) (i : Nat) : Pool S E L :=
  match pool.task i with
  | none => pool
  | some (_, .done _) => { pool with running := pool.running.set i none }
  | some (label, p) =>
    ⟨(p.advance pool.state).2, pool.running.set i (some (label, (p.advance pool.state).1))⟩

/-- A program is cut. -/
def cut (pool : Pool S E L) (i n : Nat) : Pool S E L :=
  match pool.task i with
  | none => pool
  | some (_, p) => ⟨p.tear n pool.state, pool.running.set i none⟩

variable {pool : Pool S E L} {i : Nat} {label : L} {p : Prog S E Unit}

theorem task_eq_some {t : L × Prog S E Unit} :
    pool.task i = some t ↔ pool.running[i]? = some (some t) :=
  Option.join_eq_some_iff

theorem lt_of_task {t : L × Prog S E Unit} (h : pool.task i = some t) :
    i < pool.running.length :=
  (List.getElem?_eq_some_iff.mp (task_eq_some.mp h)).1

theorem task_set {s : S} {t : Option (L × Prog S E Unit)} (h : pool.task i ≠ none) (j : Nat) :
    (⟨s, pool.running.set i t⟩ : Pool S E L).task j = if i = j then t else pool.task j := by
  unfold task
  rw [List.getElem?_set]
  split_ifs with hij hlt
  · rfl
  · refine absurd ?_ h
    rw [task, List.getElem?_eq_none (by omega)]
    rfl
  · rfl

theorem task_start (j : Nat) :
    (pool.start label p).task j =
      if j = pool.running.length then some (label, p) else pool.task j := by
  unfold task start
  rw [List.getElem?_append]
  split_ifs with hlt heq heq
  · omega
  · rfl
  · rw [heq, Nat.sub_self]
    rfl
  · rw [List.getElem?_eq_none (by simp only [List.length_singleton]; omega),
      List.getElem?_eq_none (by omega)]

/-- Each program keeps to its terms, and to the others'. -/
structure Sound (T : L → Terms S) (Q : L → S → Prop) (pool : Pool S E L) : Prop where
  spares : ∀ i j a b, i ≠ j → pool.task i = some a → pool.task j = some b →
    (T a.1).Spares (T b.1)
  inv : ∀ i t, pool.task i = some t → (T t.1).inv pool.state
  keeps : ∀ i t, pool.task i = some t → t.2.Keeps (T t.1) (fun _ => Q t.1) pool.state

namespace Sound

variable {T : L → Terms S} {Q : L → S → Prop}

/-- What a step of a program comes to: it was over, or it goes on, on its terms. -/
theorem step_cases (h : pool.Sound T Q) (hi : pool.task i = some (label, p)) :
    ((pool.step i).state = pool.state ∧ Q label pool.state ∧
      ∀ j, (pool.step i).task j = if i = j then none else pool.task j) ∨
    ((T label).Fine pool.state (pool.step i).state ∧
      ∃ q : Prog S E Unit, q.Keeps (T label) (fun _ => Q label) (pool.step i).state ∧
        ∀ j, (pool.step i).task j = if i = j then some (label, q) else pool.task j) := by
  have hsome : pool.task i ≠ none := by simp [hi]
  have hkeeps := h.keeps i _ hi
  cases p with
  | done answer =>
    have hstep : pool.step i = { pool with running := pool.running.set i none } := by
      simp only [step, hi]
    rw [hstep]
    exact .inl ⟨rfl, hkeeps, task_set hsome⟩
  | @step β act torn next =>
    have hstep : pool.step i = ⟨((Prog.step act torn next).advance pool.state).2,
        pool.running.set i
          (some (label, ((Prog.step act torn next).advance pool.state).1))⟩ := by
      simp only [step, hi]
    obtain ⟨hfine, hnext⟩ := hkeeps.advance (h.inv i _ hi)
    rw [hstep]
    exact .inr ⟨hfine, _, hnext, task_set hsome⟩

theorem cut_cases (h : pool.Sound T Q) (hi : pool.task i = some (label, p)) (n : Nat) :
    (T label).Fine pool.state (pool.cut i n).state ∧
      ∀ j, (pool.cut i n).task j = if i = j then none else pool.task j := by
  have hsome : pool.task i ≠ none := by simp [hi]
  have hcut : pool.cut i n = ⟨p.tear n pool.state, pool.running.set i none⟩ := by
    simp only [cut, hi]
  rw [hcut]
  exact ⟨(h.keeps i _ hi).tear (h.inv i _ hi) n, task_set hsome⟩

/-- What a program does leaves every other one on its terms. -/
theorem moved (hQ : ∀ label s s', (T label).rely s s' → Q label s → Q label s')
    (h : pool.Sound T Q) (hi : pool.task i = some (label, p)) {pool' : Pool S E L}
    (hfine : (T label).Fine pool.state pool'.state)
    (hown : ∀ t, pool'.task i = some t → t.1 = label ∧ (T label).inv pool'.state ∧
      t.2.Keeps (T label) (fun _ => Q label) pool'.state)
    (hothers : ∀ j, i ≠ j → pool'.task j = pool.task j) : pool'.Sound T Q := by
  have hmoved : ∀ j b, i ≠ j → pool.task j = some b → (T b.1).inv pool'.state ∧
      b.2.Keeps (T b.1) (fun _ => Q b.1) pool'.state := by
    intro j b hij hj
    obtain ⟨hrely, hinv⟩ := h.spares i j _ _ hij hi hj _ _ hfine (h.inv j b hj)
    exact ⟨hinv, (h.keeps j b hj).stable (fun _ => hQ b.1 _ _) hrely⟩
  have hlabel : ∀ j b, pool'.task j = some b → ∃ q, pool.task j = some (b.1, q) := by
    intro j b hj
    by_cases hij : i = j
    · subst hij
      rw [(hown b hj).1]
      exact ⟨p, hi⟩
    · rw [hothers j hij] at hj
      exact ⟨b.2, hj⟩
  refine ⟨fun j k a b hjk ha hb => ?_, fun j b hj => ?_, fun j b hj => ?_⟩
  · obtain ⟨q, hq⟩ := hlabel j a ha
    obtain ⟨r, hr⟩ := hlabel k b hb
    exact h.spares j k (a.1, q) (b.1, r) hjk hq hr
  · by_cases hij : i = j
    · subst hij
      obtain ⟨rfl, hinv, -⟩ := hown b hj
      exact hinv
    · rw [hothers j hij] at hj
      exact (hmoved j b hij hj).1
  · by_cases hij : i = j
    · subst hij
      obtain ⟨rfl, -, hkeeps⟩ := hown b hj
      exact hkeeps
    · rw [hothers j hij] at hj
      exact (hmoved j b hij hj).2

variable (hQ : ∀ label s s', (T label).rely s s' → Q label s → Q label s')

include hQ

theorem step (h : pool.Sound T Q) (i : Nat) : (pool.step i).Sound T Q := by
  cases hi : pool.task i with
  | none =>
    have hstep : pool.step i = pool := by simp only [Pool.step, hi]
    rw [hstep]
    exact h
  | some t =>
    obtain ⟨label, p⟩ := t
    rcases h.step_cases hi with ⟨hstate, -, htask⟩ | ⟨hfine, q, hkeeps, htask⟩
    · refine moved hQ h hi ?_ (fun t ht => ?_) fun j hij => (htask j).trans (if_neg hij)
      · rw [hstate]
        exact ⟨h.inv i _ hi, (T label).may_refl _⟩
      · rw [htask i, if_pos rfl] at ht
        cases ht
    · refine moved hQ h hi hfine (fun t ht => ?_) fun j hij => (htask j).trans (if_neg hij)
      rw [htask i, if_pos rfl] at ht
      cases ht
      exact ⟨rfl, hfine.1, hkeeps⟩

theorem cut (h : pool.Sound T Q) (i n : Nat) : (pool.cut i n).Sound T Q := by
  cases hi : pool.task i with
  | none =>
    have hcut : pool.cut i n = pool := by simp only [Pool.cut, hi]
    rw [hcut]
    exact h
  | some t =>
    obtain ⟨label, p⟩ := t
    obtain ⟨hfine, htask⟩ := h.cut_cases hi n
    refine moved hQ h hi hfine (fun t ht => ?_) fun j hij => (htask j).trans (if_neg hij)
    rw [htask i, if_pos rfl] at ht
    cases ht

omit hQ in
theorem start (h : pool.Sound T Q) (hinv : (T label).inv pool.state)
    (hkeeps : p.Keeps (T label) (fun _ => Q label) pool.state)
    (hspares : ∀ i t, pool.task i = some t →
      (T label).Spares (T t.1) ∧ (T t.1).Spares (T label)) :
    (pool.start label p).Sound T Q := by
  refine ⟨fun i j a b hij ha hb => ?_, fun i t ht => ?_, fun i t ht => ?_⟩
  · rw [task_start] at ha hb
    split_ifs at ha hb
    · omega
    · cases ha
      exact (hspares j b hb).1
    · cases hb
      exact (hspares i a ha).2
    · exact h.spares i j a b hij ha hb
  · rw [task_start] at ht
    split_ifs at ht
    · cases ht
      exact hinv
    · exact h.inv i t ht
  · rw [task_start] at ht
    split_ifs at ht
    · cases ht
      exact hkeeps
    · exact h.keeps i t ht

end Sound

end Pool

end Lib
