import Mathlib.Data.List.Nodup

/-!
# Runs of a deterministic system

A system is a step function `step : S → E → S` over states and events. A run is
the fold of the step over a list of events, so that nondeterminism is in the
events.

- `Along step P s es`: every step of the run meets `P`, which sees the state
  before the step and the event;
- `history step out s es`: what the steps of the run put out, in order;
- `always`, `invariant`, `logged_invariant` and `pairwise_invariant`: the induction
  rules. The last two are for invariants that speak of what was put out so far, in a
  run whose outputs are pairwise related: never the same twice, or never decreasing;
- `unwinding`: what a party is told in a run does not depend on the events of others, where a
  relation between states is kept by its own events and by theirs;
- `ends_of_fair`: a system that has less to do with every change is over some time, under
  every schedule in which no kind of events stays away for ever.
-/

namespace Lib

namespace Runs

variable {S E O L : Type*} (step : S → E → S)

/-- A whole run. -/
def run (s : S) (es : List E) : S := es.foldl step s

@[simp] theorem run_nil (s : S) : run step s [] = s := rfl

@[simp] theorem run_cons (s : S) (e : E) (es : List E) :
    run step s (e :: es) = run step (step s e) es := rfl

theorem run_append (s : S) (es fs : List E) :
    run step s (es ++ fs) = run step (run step s es) fs :=
  List.foldl_append

/-! ## Steps that meet a condition -/

/-- Every step of the run meets `P`. -/
def Along (P : S → E → Prop) : S → List E → Prop
  | _, [] => True
  | s, e :: es => P s e ∧ Along P (step s e) es

instance decidableAlong (P : S → E → Prop) [∀ s e, Decidable (P s e)] :
    ∀ (s : S) (es : List E), Decidable (Along step P s es)
  | _, [] => .isTrue trivial
  | s, e :: es =>
    letI := decidableAlong P (step s e) es
    inferInstanceAs (Decidable (P s e ∧ Along step P (step s e) es))

theorem along_append {P : S → E → Prop} {s : S} {es fs : List E} :
    Along step P s (es ++ fs) ↔ Along step P s es ∧ Along step P (run step s es) fs := by
  induction es generalizing s with
  | nil => exact ⟨fun h => ⟨trivial, h⟩, fun h => h.2⟩
  | cons e es ih =>
    constructor
    · rintro ⟨he, h⟩
      obtain ⟨h1, h2⟩ := ih.mp h
      exact ⟨⟨he, h1⟩, h2⟩
    · rintro ⟨⟨he, h1⟩, h2⟩
      exact ⟨he, ih.mpr ⟨h1, h2⟩⟩

/-- A condition on the events alone. -/
theorem along_of_forall {P : E → Prop} {s : S} {es : List E} (h : ∀ e ∈ es, P e) :
    Along step (fun _ e => P e) s es := by
  induction es generalizing s with
  | nil => trivial
  | cons e es ih =>
    exact ⟨h e List.mem_cons_self, ih fun e' he' => h e' (List.mem_cons_of_mem _ he')⟩

/-- A condition that is met wherever the run is split. -/
theorem along_of_splits {P : S → E → Prop} {s : S} {es : List E}
    (h : ∀ pre e post, es = pre ++ e :: post → P (run step s pre) e) : Along step P s es := by
  induction es generalizing s with
  | nil => trivial
  | cons e es ih =>
    constructor
    · exact h [] e es rfl
    · refine ih fun pre e' post hes => ?_
      rw [hes] at h
      exact h (e :: pre) e' post rfl

theorem along_and {P Q : S → E → Prop} {s : S} {es : List E} (hp : Along step P s es)
    (hq : Along step Q s es) : Along step (fun s e => P s e ∧ Q s e) s es := by
  induction es generalizing s with
  | nil => trivial
  | cons e es ih => exact ⟨⟨hp.1, hq.1⟩, ih hp.2 hq.2⟩

/-- What every step that meets `P` preserves holds after every run along `P`. -/
theorem invariant {P : S → E → Prop} {I : S → Prop}
    (hstep : ∀ s e, I s → P s e → I (step s e)) {s : S} {es : List E}
    (h : I s) (halong : Along step P s es) : I (run step s es) := by
  induction es generalizing s with
  | nil => exact h
  | cons e es ih => exact ih (hstep s e h halong.1) halong.2

/-- What every step preserves holds after every run. -/
theorem always {I : S → Prop} (hstep : ∀ s e, I s → I (step s e)) {s : S} (h : I s)
    (es : List E) : I (run step s es) := by
  induction es generalizing s with
  | nil => exact h
  | cons e es ih => exact ih (hstep s e h)

/-! ## What a run puts out -/

/-- The outputs of the steps of a run, in order. -/
def history (out : S → E → List O) : S → List E → List O
  | _, [] => []
  | s, e :: es => out s e ++ history out (step s e) es

theorem history_append (out : S → E → List O) (s : S) (es fs : List E) :
    history step out s (es ++ fs) =
      history step out s es ++ history step out (run step s es) fs := by
  induction es generalizing s with
  | nil => rfl
  | cons e es ih =>
    show out s e ++ history step out (step s e) (es ++ fs) = _
    rw [ih, ← List.append_assoc]
    rfl

/-- What a step puts out is in the history. -/
theorem mem_history {out : S → E → List O} {s : S} {pre post : List E} {e : E} {x : O}
    (h : x ∈ out (run step s pre) e) : x ∈ history step out s (pre ++ e :: post) := by
  rw [history_append]
  exact List.mem_append_right _ (List.mem_append_left _ h)

/-- What is put out only once is not put out again by a later step. -/
theorem not_again {out : S → E → List O} {s : S} {pre mid post : List E} {e e' : E} {x : O}
    (hnodup : (history step out s (pre ++ e :: (mid ++ e' :: post))).Nodup)
    (h : x ∈ out (run step s pre) e) : x ∉ out (run step s (pre ++ e :: mid)) e' := by
  intro h'
  rw [history_append] at hnodup
  have hlater : (out (run step s pre) e ++
      history step out (step (run step s pre) e) (mid ++ e' :: post)).Nodup :=
    (List.nodup_append.mp hnodup).2.1
  rw [run_append] at h'
  exact (List.nodup_append.mp hlater).2.2 x h x (mem_history step h') rfl

/-- What is put out only once is put out by one step. -/
theorem eq_of_nodup_history {out : S → E → List O} {s : S} {pre pre' post post' : List E}
    {e e' : E} {x : O} (hsplit : pre ++ e :: post = pre' ++ e' :: post')
    (hnodup : (history step out s (pre ++ e :: post)).Nodup)
    (h : x ∈ out (run step s pre) e) (h' : x ∈ out (run step s pre') e') :
    pre = pre' ∧ e = e' ∧ post = post' := by
  rcases List.append_eq_append_iff.mp hsplit with ⟨mid, hpre, hpost⟩ | ⟨mid, hpre, hpost⟩
  · cases mid with
    | nil =>
      rw [List.append_nil] at hpre
      obtain ⟨rfl, rfl⟩ := List.cons.inj hpost
      exact ⟨hpre.symm, rfl, rfl⟩
    | cons a mid =>
      obtain ⟨rfl, rfl⟩ := List.cons.inj hpost
      rw [hpre] at h'
      exact absurd h' (not_again step hnodup h)
  · cases mid with
    | nil =>
      rw [List.append_nil] at hpre
      obtain ⟨rfl, rfl⟩ := List.cons.inj hpost
      exact ⟨hpre, rfl, rfl⟩
    | cons a mid =>
      obtain ⟨rfl, rfl⟩ := List.cons.inj hpost
      rw [hsplit] at hnodup
      rw [hpre] at h
      exact absurd h (not_again step hnodup h')

/-- What depends on the events alone. -/
theorem history_of_events (out : E → List O) (s : S) (es : List E) :
    history step (fun _ e => out e) s es = es.flatMap out := by
  induction es generalizing s with
  | nil => rfl
  | cons e es ih =>
    show out e ++ history step (fun _ e => out e) (step s e) es = _
    rw [ih, List.flatMap_cons]

/-- An invariant that speaks of what two outputs have put out so far, in a run along
`P` in which those of the first are pairwise related. -/
theorem logged_invariant {P : S → E → Prop} {out : S → E → List O} {log : S → E → List L}
    {R : O → O → Prop} {I : List O → List L → S → Prop}
    (hstep : ∀ past seen s e, I past seen s → P s e → (past ++ out s e).Pairwise R →
      I (past ++ out s e) (seen ++ log s e) (step s e))
    {past : List O} {seen : List L} {s : S} {es : List E} (h : I past seen s)
    (halong : Along step P s es) (hpair : (past ++ history step out s es).Pairwise R) :
    I (past ++ history step out s es) (seen ++ history step log s es) (run step s es) := by
  induction es generalizing past seen s with
  | nil =>
    show I (past ++ []) (seen ++ []) s
    rw [List.append_nil, List.append_nil]
    exact h
  | cons e es ih =>
    have hout : past ++ history step out s (e :: es) =
        (past ++ out s e) ++ history step out (step s e) es :=
      (List.append_assoc _ _ _).symm
    have hlog : seen ++ history step log s (e :: es) =
        (seen ++ log s e) ++ history step log (step s e) es :=
      (List.append_assoc _ _ _).symm
    rw [hout] at hpair ⊢
    rw [hlog]
    exact ih (hstep past seen s e h halong.1 (List.pairwise_append.mp hpair).1) halong.2 hpair

/-- The same with one output. -/
theorem pairwise_invariant {P : S → E → Prop} {out : S → E → List O} {R : O → O → Prop}
    {I : List O → S → Prop}
    (hstep : ∀ past s e, I past s → P s e → (past ++ out s e).Pairwise R →
      I (past ++ out s e) (step s e))
    {past : List O} {s : S} {es : List E} (h : I past s) (halong : Along step P s es)
    (hpair : (past ++ history step out s es).Pairwise R) :
    I (past ++ history step out s es) (run step s es) := by
  have hboth : ∀ (past : List O) (_ : List Empty) (s : S) (e : E), I past s → P s e →
      (past ++ out s e).Pairwise R → I (past ++ out s e) (step s e) :=
    fun past _ s e => hstep past s e
  exact @logged_invariant S E O Empty step P out (fun _ _ => []) R (fun past _ => I past) hboth
    past [] s es h halong hpair

/-! ## What one party is told -/

/-- A relation that says two states are the same to a party. Its own events, in both, put out
the same and keep the relation; an event of somebody else, in one of them, puts out nothing and
keeps it. Then the party is told in a run what it is told when nobody else does anything. -/
theorem unwinding {S' : Type*} {step' : S' → E → S'} {out : S → E → List O}
    {out' : S' → E → List O} {mine : E → Bool} {R : S → S' → Prop} {P : E → Prop}
    (hmine : ∀ s s' e, P e → mine e = true → R s s' →
      out s e = out' s' e ∧ R (step s e) (step' s' e))
    (hothers : ∀ s s' e, P e → mine e = false → R s s' → out s e = [] ∧ R (step s e) s')
    {s : S} {s' : S'} (h : R s s') {es : List E} (hes : ∀ e ∈ es, P e) :
    history step out s es = history step' out' s' (es.filter mine) ∧
      R (run step s es) (run step' s' (es.filter mine)) := by
  induction es generalizing s s' with
  | nil => exact ⟨rfl, h⟩
  | cons e es ih =>
    have he : P e := hes e List.mem_cons_self
    have hrest : ∀ e ∈ es, P e := fun e' he' => hes e' (List.mem_cons_of_mem _ he')
    show out s e ++ history step out (step s e) es = _ ∧ R (run step (step s e) es) _
    cases hown : mine e with
    | true =>
      obtain ⟨hout, hnext⟩ := hmine s s' e he hown h
      obtain ⟨hhistory, hlast⟩ := ih hnext hrest
      rw [List.filter_cons_of_pos hown, hout, hhistory]
      exact ⟨rfl, hlast⟩
    | false =>
      obtain ⟨hout, hnext⟩ := hothers s s' e he hown h
      rw [List.filter_cons_of_neg (by rw [hown]; exact Bool.false_ne_true), hout, List.nil_append]
      exact ih hnext hrest

/-! ## Schedules without an end -/

/-- The first events of a schedule. -/
def upTo (schedule : Nat → E) (n : Nat) : List E := (List.range n).map schedule

theorem run_upTo_succ (s : S) (schedule : Nat → E) (n : Nat) :
    run step s (upTo schedule (n + 1)) =
      step (run step s (upTo schedule n)) (schedule n) := by
  unfold upTo
  rw [List.range_succ, List.map_append, run_append]
  rfl

/-- Events of every kind come again and again. -/
def Fair {K : Type} (kind : E → Option K) (schedule : Nat → E) : Prop :=
  ∀ k n, ∃ m, n ≤ m ∧ kind (schedule m) = some k

/-- The state stays, or there is less to do. -/
theorem stays_or_less {work : S → Nat} (hwork : ∀ s e, step s e = s ∨ work (step s e) < work s)
    (s : S) (schedule : Nat → E) (n j : Nat) :
    run step s (upTo schedule (n + j)) = run step s (upTo schedule n) ∨
      work (run step s (upTo schedule (n + j))) < work (run step s (upTo schedule n)) := by
  induction j with
  | zero => exact .inl rfl
  | succ j ih =>
    rw [← Nat.add_assoc, run_upTo_succ]
    have hlast := hwork (run step s (upTo schedule (n + j))) (schedule (n + j))
    rcases ih with hstay | hless
    · rw [hstay] at hlast ⊢
      exact hlast
    · rcases hlast with hsame | hlast
      · rw [hsame]
        exact .inr hless
      · exact .inr (Nat.lt_trans hlast hless)

/-- What has less to do with every change, and some kind of events that change it as long as
it is not over, is over some time. -/
theorem ends_of_fair {K : Type} {kind : E → Option K} {I Over : S → Prop} {work : S → Nat}
    (hstep : ∀ s e, I s → I (step s e))
    (hwork : ∀ s e, step s e = s ∨ work (step s e) < work s)
    (hprogress : ∀ s, I s → ¬Over s → ∃ k, ∀ e, kind e = some k → step s e ≠ s)
    {s : S} (h : I s) {schedule : Nat → E} (hfair : Fair kind schedule) :
    ∃ n, Over (run step s (upTo schedule n)) := by
  by_contra hnever
  have hless : ∀ n, ∃ m, work (run step s (upTo schedule m)) <
      work (run step s (upTo schedule n)) := by
    intro n
    obtain ⟨k, hk⟩ := hprogress _ (always step hstep h (upTo schedule n))
      fun hover => hnever ⟨n, hover⟩
    obtain ⟨m, hm, hkind⟩ := hfair k n
    obtain ⟨j, rfl⟩ := Nat.exists_eq_add_of_le hm
    rcases stays_or_less step hwork s schedule n j with hstay | hless
    · refine ⟨n + j + 1, ?_⟩
      rw [run_upTo_succ, hstay]
      exact (hwork _ _).resolve_left (hk _ hkind)
    · exact ⟨n + j, hless⟩
  -- there is no end to having less to do
  have hall : ∀ w n, work (run step s (upTo schedule n)) = w → False := by
    intro w
    induction w using Nat.strongRecOn with
    | _ w ih =>
      intro n hn
      obtain ⟨m, hm⟩ := hless n
      exact ih _ (hn ▸ hm) m rfl
  exact hall _ 0 rfl

end Runs

end Lib
