import Mathlib.Data.List.Forall2
import Microseg.Lib.Runs
/-!
# Components of a transition system

A large system often serves many users side by side, each of whom sees a small part of it. `Projects` says
that such a part is a system of its own: what the user sees (`view`) moves by the small system's step at the
events that concern the user (`proj`), and not at all at the others. Then a run of the large system looks
like the small system's run over its own events (`Projects.run`), and the outputs are the small
system's outputs (`Projects.outputs`): users with the same events see the same, whatever else goes on
(`Projects.isolated`).

The condition `I` is what the component needs of the rest, at each step of a run (`Along`).
-/
namespace Projection
open Runs

variable {σ τ ε φ ω : Type}

/-- `I` holds at each step of a run, in the state the step finds. -/
def Along (step : σ → ε → σ) (I : σ → ε → Prop) : σ → List ε → Prop
  | _, [] => True
  | s, e :: es => I s e ∧ Along step I (step s e) es

instance decidableAlong (step : σ → ε → σ) (I : σ → ε → Prop) [∀ s e, Decidable (I s e)] :
    ∀ (s : σ) (es : List ε), Decidable (Along step I s es)
  | _, [] => isTrue trivial
  | s, e :: es => haveI := decidableAlong step I (step s e) es; instDecidableAnd

/-- What each step keeps where `I` holds is kept by such a run. -/
theorem Along.keeps {step : σ → ε → σ} {I : σ → ε → Prop} {J : σ → Prop} (hstep : ∀ s e, J s → I s e → J (step s e)) {s : σ}
    (hs : J s) {es : List ε} (h : Along step I s es) : J (run step s es) := by
  induction es generalizing s with
  | nil => exact hs
  | cons e es ih => exact ih (hstep s e hs h.1) h.2

/-- What a run puts out, step by step. -/
def outputs (step : σ → ε → σ) (out : σ → ε → List ω) : σ → List ε → List ω
  | _, [] => []
  | s, e :: es => out s e ++ outputs step out (step s e) es

section Related

variable {ω' : Type} {step : σ → ε → σ} {step' : τ → φ → τ} {out : σ → ε → List ω} {out' : τ → φ → List ω'}
  {R : σ → τ → Prop} {A : ω → ω' → Prop} {E : ε → Prop}

/-- **Related runs**: if each step of one system is a step of the other with related outputs, or shows nothing at all,
then so is each run. -/
theorem outputs_stutter {f : ε → Option φ}
    (hstep : ∀ s t e e', R s t → E e → f e = some e' → R (step s e) (step' t e') ∧ List.Forall₂ A (out s e) (out' t e'))
    (hstutter : ∀ s t e, R s t → E e → f e = none → R (step s e) t ∧ out s e = []) {s : σ} {t : τ} (h : R s t)
    {es : List ε} (hes : ∀ e ∈ es, E e) : R (run step s es) (run step' t (es.filterMap f)) ∧
      List.Forall₂ A (outputs step out s es) (outputs step' out' t (es.filterMap f)) := by
  induction es generalizing s t with
  | nil => exact ⟨h, .nil⟩
  | cons e es ih =>
    have hrest : ∀ e ∈ es, E e := fun e' he' => hes e' (by simp [he'])
    cases he : f e with
    | none =>
      obtain ⟨hnext, hout⟩ := hstutter s t e h (hes e (by simp)) he
      rw [List.filterMap_cons_none he, outputs, hout]
      exact ih hnext hrest
    | some e' =>
      obtain ⟨hnext, hout⟩ := hstep s t e e' h (hes e (by simp)) he
      obtain ⟨hrun, houts⟩ := ih hnext hrest
      rw [List.filterMap_cons_some he]
      exact ⟨hrun, List.rel_append hout houts⟩

/-- **Two representations** of a system, related step by step. -/
theorem outputs_related {f : ε → φ}
    (hstep : ∀ s t e, R s t → E e → R (step s e) (step' t (f e)) ∧ List.Forall₂ A (out s e) (out' t (f e))) {s : σ} {t : τ}
    (h : R s t) {es : List ε} (hes : ∀ e ∈ es, E e) : R (run step s es) (run step' t (es.map f)) ∧
      List.Forall₂ A (outputs step out s es) (outputs step' out' t (es.map f)) := by
  rw [← List.filterMap_eq_map]
  refine outputs_stutter (fun s t e e' h he hf => ?_) (fun s t e h he hf => by cases hf) h hes
  cases hf
  exact hstep s t e h he

end Related

theorem mem_outputs {step : σ → ε → σ} {out : σ → ε → List ω} {s : σ} {es : List ε} {o : ω}
    (h : o ∈ outputs step out s es) : ∃ pre e post, es = pre ++ e :: post ∧ o ∈ out (run step s pre) e := by
  induction es generalizing s with
  | nil => cases h
  | cons e es ih =>
    rcases List.mem_append.1 h with h | h
    · exact ⟨[], e, es, rfl, h⟩
    · obtain ⟨pre, e', post, rfl, ho⟩ := ih h
      exact ⟨e :: pre, e', post, rfl, ho⟩

theorem length_outputs (step : σ → ε → σ) (out : σ → ε → List ω) (s : σ) (es : List ε) :
    (outputs step out s es).length = tally step (fun s e => (out s e).length) s es := by
  induction es generalizing s with
  | nil => rfl
  | cons e es ih => rw [outputs, List.length_append, ih, tally]

/-- What each step puts out in the order of the steps is in that order. -/
theorem outputs_sublist {β : Type} {step : σ → ε → σ} {out : σ → ε → List ω} {f : ω → β} {g : ε → Option β}
    (h : ∀ s e, ((out s e).map f).Sublist (g e).toList) (s : σ) (es : List ε) :
    ((outputs step out s es).map f).Sublist (es.filterMap g) := by
  induction es generalizing s with
  | nil => exact .slnil
  | cons e es ih =>
    have hcons : (e :: es).filterMap g = (g e).toList ++ es.filterMap g := by
      cases hg : g e with
      | none => rw [List.filterMap_cons_none hg]; rfl
      | some b => rw [List.filterMap_cons_some hg]; rfl
    rw [hcons, outputs, List.map_append]
    exact (h s e).append (ih (step s e))

/-- `view` is a component: a system of its own over the events that concern it. -/
structure Projects (step : σ → ε → σ) (step' : τ → φ → τ) (out : σ → ε → List ω) (out' : τ → φ → List ω)
    (view : σ → τ) (proj : ε → Option φ) (I : σ → ε → Prop) : Prop where
  seen : ∀ s e f, I s e → proj e = some f → view (step s e) = step' (view s) f ∧ out s e = out' (view s) f
  unseen : ∀ s e, I s e → proj e = none → view (step s e) = view s ∧ out s e = []

namespace Projects

variable {step : σ → ε → σ} {step' : τ → φ → τ} {out : σ → ε → List ω} {out' : τ → φ → List ω} {view : σ → τ}
  {proj : ε → Option φ} {I : σ → ε → Prop} (h : Projects step step' out out' view proj I)

include h

/-- **A run** looks like the component's run over its own events. -/
theorem run {s : σ} {es : List ε} (hes : Along step I s es) :
    view (run step s es) = Runs.run step' (view s) (es.filterMap proj) := by
  induction es generalizing s with
  | nil => rfl
  | cons e es ih =>
    have ih := ih hes.2
    cases hp : proj e with
    | none =>
      rw [List.filterMap_cons_none hp, ← (h.unseen s e hes.1 hp).1]
      exact ih
    | some f =>
      rw [List.filterMap_cons_some hp]
      exact ih.trans (by rw [(h.seen s e f hes.1 hp).1]; rfl)

/-- **The outputs** are the component's. -/
theorem outputs {s : σ} {es : List ε} (hes : Along step I s es) :
    outputs step out s es = Projection.outputs step' out' (view s) (es.filterMap proj) := by
  induction es generalizing s with
  | nil => rfl
  | cons e es ih =>
    have ih := ih hes.2
    rw [Projection.outputs, ih]
    cases hp : proj e with
    | none =>
      obtain ⟨hview, hout⟩ := h.unseen s e hes.1 hp
      rw [List.filterMap_cons_none hp, hview, hout, List.nil_append]
    | some f =>
      obtain ⟨hview, hout⟩ := h.seen s e f hes.1 hp
      rw [List.filterMap_cons_some hp, hview, hout]; rfl

/-- **Isolation**: two runs with the same events of the component show it the same. -/
theorem isolated {s t : σ} {es fs : List ε} (hs : view s = view t) (hproj : es.filterMap proj = fs.filterMap proj)
    (hes : Along step I s es) (hfs : Along step I t fs) :
    view (Runs.run step s es) = view (Runs.run step t fs) ∧
      Projection.outputs step out s es = Projection.outputs step out t fs := by
  rw [h.run hes, h.run hfs, h.outputs hes, h.outputs hfs, hs, hproj]
  exact ⟨rfl, rfl⟩

end Projects

end Projection
