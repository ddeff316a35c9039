import Mathlib.Data.List.Forall2
import Mathlib.Data.List.Induction
import Mathlib.Data.Nat.Cast.Basic
/-!
# Runs of a transition function

`run step s es` is the state after the events `es`. `exists_birth` is the rule for facts of the form "what
is so now has been so since a certain event": if a step can only keep an attribute, drop it, or set it
where it was absent, then an attribute present at the end of a run was set by one event of the run and
kept by all the later ones; `exists_last_write` is the same for an attribute that may be overwritten, and
`last_taken_iff` where a step may be refused.
`throughout_iff` turns a property of every state of a run into a condition on
its steps. `run_eq_add_tally` is the conservation rule: a counter that grows at every
step by the step's weight has grown by the weight of the run. `run_related` compares two runs event by
event.
-/
namespace Runs

variable {σ ε β : Type} (step : σ → ε → σ)

def run (s : σ) (es : List ε) : σ := es.foldl step s

@[simp] theorem run_nil (s : σ) : run step s [] = s := rfl

theorem run_append (s : σ) (es fs : List ε) : run step s (es ++ fs) = run step (run step s es) fs :=
  List.foldl_append

theorem run_concat (s : σ) (es : List ε) (e : ε) : run step s (es ++ [e]) = step (run step s es) e :=
  run_append step s es [e]

variable {step}

/-- **Since when.** `Birth s e b` says that event `e` in state `s` sets the attribute to `b`. -/
theorem exists_birth (attr : σ → Option β) {Birth : σ → ε → β → Prop}
    (hstep : ∀ s e b, attr (step s e) = some b → attr s = some b ∨ (attr s = none ∧ Birth s e b)) {s : σ}
    (h0 : attr s = none) {b : β} (es : List ε) (hes : attr (run step s es) = some b) :
    ∃ pre e post, es = pre ++ e :: post ∧ attr (run step s pre) = none ∧ Birth (run step s pre) e b ∧
      ∀ mid rest, post = mid ++ rest → attr (run step s (pre ++ e :: mid)) = some b := by
  induction es using List.reverseRecOn with
  | nil => rw [run_nil, h0] at hes; cases hes
  | append_singleton es e ih =>
    have hlast := hes
    rw [run_concat] at hes
    rcases hstep _ _ _ hes with hkept | ⟨hnone, hborn⟩
    · -- kept by the last step: set before it
      obtain ⟨pre, e', post, rfl, hpre, hborn, hsince⟩ := ih hkept
      refine ⟨pre, e', post ++ [e], by simp, hpre, hborn, fun mid rest hsplit => ?_⟩
      rcases List.eq_nil_or_concat rest with rfl | ⟨rest, r, rfl⟩
      · rw [← List.append_nil mid, ← hsplit, ← List.cons_append, ← List.append_assoc, hlast]
      · rw [List.concat_eq_append, ← List.append_assoc] at hsplit
        exact hsince mid rest (List.append_inj_left' hsplit rfl)
    · -- set by the last step
      refine ⟨es, e, [], rfl, hnone, hborn, fun mid rest hsplit => ?_⟩
      obtain ⟨rfl, rfl⟩ := List.append_eq_nil_iff.1 hsplit.symm
      exact hlast

/-- **Last written.** `Touches s e` says that event `e` in state `s` may change the attribute: one that is present at
the end was written by the last event that touched it. -/
theorem exists_last_write (attr : σ → Option β) {Touches : σ → ε → Prop}
    (hkeep : ∀ s e, ¬ Touches s e → attr (step s e) = attr s) {s : σ} (h0 : attr s = none) {b : β} (es : List ε)
    (hes : attr (run step s es) = some b) :
    ∃ pre e post, es = pre ++ e :: post ∧ Touches (run step s pre) e ∧ attr (step (run step s pre) e) = some b ∧
      ∀ mid f rest, post = mid ++ f :: rest → ¬ Touches (run step s (pre ++ e :: mid)) f := by
  induction es using List.reverseRecOn with
  | nil => rw [run_nil, h0] at hes; cases hes
  | append_singleton es e ih =>
    rw [run_concat] at hes
    by_cases ht : Touches (run step s es) e
    · refine ⟨es, e, [], rfl, ht, hes, fun mid f rest hsplit => ?_⟩
      exact absurd hsplit (by simp)
    · rw [hkeep _ _ ht] at hes
      obtain ⟨pre, e', post, rfl, ht', hb, hsince⟩ := ih hes
      refine ⟨pre, e', post ++ [e], by simp, ht', hb, fun mid f rest hsplit => ?_⟩
      rcases List.eq_nil_or_concat rest with rfl | ⟨rest, r, rfl⟩
      · -- the event just added
        obtain ⟨rfl, hf⟩ := List.append_inj' hsplit rfl
        cases hf
        exact ht
      · rw [List.concat_eq_append, ← List.cons_append, ← List.append_assoc] at hsplit
        exact hsince mid f rest (List.append_inj_left' hsplit rfl)

/-! ## Events that took effect -/

/-- The events of a run that `ok` accepts, each in the state it finds. -/
def taken (step : σ → ε → σ) (ok : σ → ε → Bool) : σ → List ε → List ε
  | _, [] => []
  | s, e :: es => if ok s e then e :: taken step ok (step s e) es else taken step ok (step s e) es

theorem taken_concat (ok : σ → ε → Bool) (s : σ) (es : List ε) (e : ε) :
    taken step ok s (es ++ [e]) = taken step ok s es ++ if ok (run step s es) e then [e] else [] := by
  induction es generalizing s with
  | nil => rfl
  | cons e' es ih =>
    rw [List.cons_append, taken, taken, ih]
    split <;> rfl

/-- **Last effective write.** Of the events that touch it, a fact is decided by the last one that took effect. -/
theorem last_taken_iff (Stored : σ → Prop) {ok : σ → ε → Bool} {touches : ε → Bool} {Writes : ε → Prop}
    (hkeep : ∀ s e, ok s e = false ∨ touches e = false → (Stored (step s e) ↔ Stored s))
    (hwrite : ∀ s e, ok s e = true → touches e = true → (Stored (step s e) ↔ Writes e)) {s : σ} (h0 : ¬ Stored s)
    (es : List ε) :
    Stored (run step s es) ↔ ∃ e, ((taken step ok s es).filter touches).getLast? = some e ∧ Writes e := by
  induction es using List.reverseRecOn with
  | nil => exact ⟨fun h => absurd h h0, by rintro ⟨e, h, -⟩; cases h⟩
  | append_singleton es e ih =>
    rw [run_concat, taken_concat, List.filter_append]
    cases hok : ok (run step s es) e with
    | false => rw [hkeep _ _ (Or.inl hok), ih]; simp
    | true =>
      cases ht : touches e with
      | false => rw [hkeep _ _ (Or.inr ht), ih]; simp [ht]
      | true => rw [hwrite _ _ hok ht]; simp [ht]

/-! ## Properties of every state of a run -/

theorem run_keeps {I : σ → Prop} {E : ε → Prop} (hstep : ∀ s e, I s → E e → I (step s e)) {s : σ} (h : I s) {es : List ε}
    (hes : ∀ e ∈ es, E e) : I (run step s es) := by
  induction es generalizing s with
  | nil => exact h
  | cons e es ih => exact ih (hstep s e h (hes e (by simp))) fun e' he' => hes e' (by simp [he'])

/-- **Step by step.** Where a step keeps `P` exactly under the condition `K`, a run has `P` throughout exactly when
`K` holds at every step. -/
theorem throughout_iff {I P : σ → Prop} {E : ε → Prop} {K : σ → ε → Prop}
    (hinv : ∀ s e, I s → E e → I (step s e)) (hstep : ∀ s e, I s → E e → P s → (P (step s e) ↔ K s e)) {s : σ} (hI : I s)
    (hP : P s) {es : List ε} (hes : ∀ e ∈ es, E e) :
    (∀ pre post, es = pre ++ post → P (run step s pre)) ↔
      ∀ pre e post, es = pre ++ e :: post → K (run step s pre) e := by
  have hpre : ∀ pre post, es = pre ++ post → I (run step s pre) := fun pre post he =>
    run_keeps hinv hI fun e hin => hes e (by rw [he]; exact List.mem_append_left post hin)
  constructor
  · intro h pre e post he
    have hnext := h (pre ++ [e]) post (by rw [he, List.append_assoc]; rfl)
    rw [run_concat] at hnext
    exact (hstep _ e (hpre pre _ he) (hes e (by rw [he]; simp)) (h pre _ he)).1 hnext
  · intro h pre
    induction pre using List.reverseRecOn with
    | nil => exact fun _ _ => hP
    | append_singleton pre e ih =>
      intro post he
      have he' : es = pre ++ e :: post := by rw [he, List.append_assoc]; rfl
      rw [run_concat]
      exact (hstep _ e (hpre pre _ he') (hes e (by rw [he]; simp)) (ih _ he')).2 (h pre e post he')

/-- What is never regained after it was lost holds at the end of a run iff it held throughout. -/
theorem last_iff_throughout {I P : σ → Prop} {E : ε → Prop} (hinv : ∀ s e, I s → E e → I (step s e))
    (hlost : ∀ s e, I s → E e → P (step s e) → P s) {s : σ} (hI : I s) {es : List ε} (hes : ∀ e ∈ es, E e) :
    P (run step s es) ↔ ∀ pre post, es = pre ++ post → P (run step s pre) := by
  constructor
  · intro hlast pre post he
    subst he
    induction post using List.reverseRecOn with
    | nil => rwa [List.append_nil] at hlast
    | append_singleton post e ih =>
      rw [← List.append_assoc] at hlast hes
      have hbefore : ∀ e ∈ pre ++ post, E e := fun e' he' => hes e' (List.mem_append_left _ he')
      rw [run_concat] at hlast
      exact ih hbefore (hlost _ e (run_keeps hinv hI hbefore) (hes e (by simp)) hlast)
  · exact fun h => h es [] (List.append_nil es).symm

/-! ## Counting along a run -/

/-- The weight of a run: what each event weighs in the state it finds. -/
def tally (step : σ → ε → σ) (w : σ → ε → Nat) : σ → List ε → Nat
  | _, [] => 0
  | s, e :: es => w s e + tally step w (step s e) es

theorem tally_add (w w' : σ → ε → Nat) (s : σ) (es : List ε) :
    tally step (fun s e => w s e + w' s e) s es = tally step w s es + tally step w' s es := by
  induction es generalizing s with
  | nil => rfl
  | cons e es ih => simp only [tally, ih]; omega

theorem tally_append (w : σ → ε → Nat) (s : σ) (es fs : List ε) :
    tally step w s (es ++ fs) = tally step w s es + tally step w (run step s es) fs := by
  induction es generalizing s with
  | nil => simp [tally]
  | cons e es ih =>
    rw [List.cons_append, tally, tally, ih, Nat.add_assoc]; rfl

theorem tally_eq_zero {w : σ → ε → Nat} {I : σ → Prop} (hI : ∀ s e, I s → I (step s e)) (hw : ∀ s e, I s → w s e = 0) {s : σ}
    (h : I s) (es : List ε) : tally step w s es = 0 := by
  induction es generalizing s with
  | nil => rfl
  | cons e es ih => rw [tally, hw s e h, ih (hI s e h)]

theorem tally_le {w w' : σ → ε → Nat} (h : ∀ s e, w s e ≤ w' s e) (s : σ) (es : List ε) :
    tally step w s es ≤ tally step w' s es := by
  induction es generalizing s with
  | nil => rfl
  | cons e es ih => exact Nat.add_le_add (h s e) (ih (step s e))

/-- **Balanced**: where each step's weight is what the potential gains and another weight takes, the run's is. -/
theorem tally_add_eq {w w' : σ → ε → Nat} (potential : σ → Nat)
    (hstep : ∀ s e, w s e + potential s = potential (step s e) + w' s e) (s : σ) (es : List ε) :
    tally step w s es + potential s = potential (run step s es) + tally step w' s es := by
  induction es generalizing s with
  | nil => simp [tally]
  | cons e es ih =>
    have he := hstep s e
    have hes := ih (step s e)
    have hrun : run step s (e :: es) = run step (step s e) es := rfl
    rw [tally, tally, hrun]
    omega

/-- **Conservation**: a counter that grows by each step's weight grows by the run's. -/
theorem run_eq_add_tally {M : Type} [AddMonoidWithOne M] (counter : σ → M) {w : σ → ε → Nat} {P : ε → Prop}
    (hstep : ∀ s e, P e → counter (step s e) = counter s + w s e) (s : σ) {es : List ε} (hes : ∀ e ∈ es, P e) :
    counter (run step s es) = counter s + tally step w s es := by
  induction es generalizing s with
  | nil => simp [tally]
  | cons e es ih =>
    have ih := ih (step s e) fun e' he' => hes e' (by simp [he'])
    calc counter (run step s (e :: es)) = counter (step s e) + tally step w (step s e) es := ih
      _ = counter s + tally step w s (e :: es) := by
        rw [hstep s e (hes e (by simp)), tally, Nat.cast_add, add_assoc]

/-! ## Two runs -/

/-- Lists with the same image are related element by element. -/
theorem forall₂_of_map_eq {φ γ : Type} {f : ε → γ} {g : φ → γ} {es : List ε} {fs : List φ} (h : es.map f = fs.map g) :
    List.Forall₂ (fun e e' => f e = g e') es fs := by
  have hmap : List.Forall₂ (· = ·) (es.map f) (fs.map g) := by
    rw [List.forall₂_eq_eq_eq]; exact h
  rwa [List.forall₂_map_left_iff, List.forall₂_map_right_iff] at hmap

/-- Related states stay related under events that are related one by one. -/
theorem run_related {τ φ : Type} {step' : τ → φ → τ} {R : σ → τ → Prop} {E : ε → φ → Prop}
    (hstep : ∀ s t e f, R s t → E e f → R (step s e) (step' t f)) {s : σ} {t : τ} (h : R s t) {es : List ε} {fs : List φ}
    (hes : List.Forall₂ E es fs) : R (run step s es) (run step' t fs) := by
  induction hes generalizing s t with
  | nil => exact h
  | cons he _ ih => exact ih (hstep _ _ _ _ h he)

theorem taken_related {τ : Type} {step' : τ → ε → τ} {R : σ → τ → Prop} {ok : σ → ε → Bool} {ok' : τ → ε → Bool}
    (hstep : ∀ s t e, R s t → R (step s e) (step' t e)) (hok : ∀ s t e, R s t → ok s e = ok' t e) {s : σ} {t : τ} (h : R s t)
    (es : List ε) : taken step ok s es = taken step' ok' t es := by
  induction es generalizing s t with
  | nil => rfl
  | cons e es ih => rw [taken, taken, hok _ _ _ h, ih (hstep _ _ _ h)]

theorem tally_related {τ φ : Type} {step' : τ → φ → τ} {R : σ → τ → Prop} {E : ε → φ → Prop} {w : σ → ε → Nat}
    {w' : τ → φ → Nat} (hstep : ∀ s t e f, R s t → E e f → R (step s e) (step' t f))
    (hw : ∀ s t e f, R s t → E e f → w s e = w' t f) {s : σ} {t : τ} (h : R s t) {es : List ε} {fs : List φ}
    (hes : List.Forall₂ E es fs) : tally step w s es = tally step' w' t fs := by
  induction hes generalizing s t with
  | nil => rfl
  | cons he _ ih => rw [tally, tally, hw _ _ _ _ h he, ih (hstep _ _ _ _ h he)]

end Runs
