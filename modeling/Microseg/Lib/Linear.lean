import Mathlib.Data.List.Perm.Basic
import Microseg.Lib.Atomic
/-!
# Programs that take effect at once

A program of many operations may have one at which all that matters happens: before it and after it, it changes nothing
that is looked at (`view`), and what it answers is decided there. `OneShot` says so, with the effect and the allowed
answers as the program's `Spec`. However such programs are interleaved, the view is that of their effects one after
another, in the order in which they happened, and each has answered as it may at its turn (`linearize`). A program that
changes the view at most once leaves it, wherever it is stopped, as it was before or as it is after (`AtMostOnce.visits`).
-/
namespace Atomic

variable {σ V α : Type} (view : σ → V)

/-- What happens to the view, and what may be answered then. -/
structure Spec (V α : Type) where
  eff : V → V
  Answers : V → α → Prop

/-- The program no longer changes the view, and answers as `A` says. -/
inductive Settled (A : α → Prop) : Prog σ α → Prop
  | done {a} (ha : A a) : Settled A (.done a)
  | atom {upd next} (hupd : ∀ s, view (upd s) = view s) (hnext : ∀ s, Settled A (next s)) : Settled A (.atom upd next)

/-- The program takes its effect in one operation, which is yet to come. -/
inductive OneShot (spec : Spec V α) : Prog σ α → Prop
  /-- There is no effect, and the answer does not depend on when it would be. -/
  | idle {p} (heff : ∀ v, spec.eff v = v) (hp : ∀ v, Settled view (spec.Answers v) p) : OneShot spec p
  | before {upd next} (hupd : ∀ s, view (upd s) = view s) (hnext : ∀ s, OneShot spec (next s)) : OneShot spec (.atom upd next)
  | point {upd next} (hupd : ∀ s, view (upd s) = spec.eff (view s))
      (hnext : ∀ s, Settled view (spec.Answers (view s)) (next s)) : OneShot spec (.atom upd next)

variable {view}

theorem Settled.step {A : α → Prop} {p : Prog σ α} (h : Settled view A p) (s : σ) :
    Settled view A (Prog.step (p, s)).1 ∧ view (Prog.step (p, s)).2 = view s := by
  cases h with
  | done ha => exact ⟨.done ha, rfl⟩
  | atom hupd hnext => exact ⟨hnext s, hupd s⟩

theorem Settled.bind {β : Type} {A : α → Prop} {B : β → Prop} {p : Prog σ α} {f : α → Prog σ β} (h : Settled view A p)
    (hf : ∀ a, A a → Settled view B (f a)) : Settled view B (p >>= f) := by
  induction h with
  | done ha => exact hf _ ha
  | atom hupd _ ih => exact .atom hupd ih

theorem Settled.mono {A B : α → Prop} {p : Prog σ α} (h : Settled view A p) (hab : ∀ a, A a → B a) : Settled view B p := by
  induction h with
  | done ha => exact .done (hab _ ha)
  | atom hupd _ ih => exact .atom hupd ih

theorem Settled.result {A : α → Prop} {a : α} (h : Settled view A (.done a)) : A a := by
  cases h with
  | done ha => exact ha

/-- **One operation** of the program: still to come, or this was it. -/
theorem OneShot.step {spec : Spec V α} {p : Prog σ α} (h : OneShot view spec p) (s : σ) :
    (OneShot view spec (Prog.step (p, s)).1 ∧ view (Prog.step (p, s)).2 = view s) ∨
    (Settled view (spec.Answers (view s)) (Prog.step (p, s)).1 ∧ view (Prog.step (p, s)).2 = spec.eff (view s)) := by
  cases h with
  | idle heff hp =>
    obtain ⟨hsettled, hview⟩ := (hp (view s)).step s
    exact Or.inr ⟨hsettled, hview.trans (heff _).symm⟩
  | before hupd hnext => exact Or.inl ⟨hnext s, hupd s⟩
  | point hupd hnext => exact Or.inr ⟨hnext s, hupd s⟩

theorem Settled.run {A : α → Prop} {p : Prog σ α} (h : Settled view A p) (s : σ) :
    view (p.run s).1 = view s ∧ A (p.run s).2 := by
  induction h generalizing s with
  | done ha => exact ⟨rfl, ha⟩
  | atom hupd _ ih =>
    obtain ⟨hview, ha⟩ := ih s (_ : σ)
    exact ⟨hview.trans (hupd s), ha⟩

/-- **Alone** the program has its effect and answers as it may. -/
theorem OneShot.run {spec : Spec V α} {p : Prog σ α} (h : OneShot view spec p) (s : σ) :
    view (p.run s).1 = spec.eff (view s) ∧ spec.Answers (view s) (p.run s).2 := by
  induction h generalizing s with
  | @idle p heff hp =>
    obtain ⟨hview, ha⟩ := (hp (view s)).run s
    exact ⟨hview.trans (heff _).symm, ha⟩
  | @before upd next hupd _ ih =>
    have hrest := ih s (upd s)
    rw [hupd] at hrest
    exact hrest
  | @point upd next hupd hnext =>
    obtain ⟨hview, ha⟩ := (hnext s).run (upd s)
    exact ⟨hview.trans (hupd s), ha⟩

theorem Settled.act {β : Type} {A : β → Prop} {f : σ → σ × β} (h : ∀ s, view (f s).1 = view s ∧ A (f s).2) :
    Settled view A (Prog.act f) := .atom (fun s => (h s).1) fun s => .done (h s).2

/-- A finished program had no effect. -/
theorem OneShot.of_done {spec : Spec V α} {a : α} (h : OneShot view spec (.done a)) :
    (∀ v, spec.eff v = v) ∧ ∀ v, spec.Answers v a := by
  cases h with
  | idle heff hp => exact ⟨heff, fun v => (hp v).result⟩

/-! ## Cut short -/

/-- The program changes the view in one operation, or not at all. -/
inductive AtMostOnce (view : σ → V) : Prog σ α → Prop
  | never {p} (hp : Settled view (fun _ => True) p) : AtMostOnce view p
  | before {upd next} (hupd : ∀ s, view (upd s) = view s) (hnext : ∀ s, AtMostOnce view (next s)) :
    AtMostOnce view (.atom upd next)
  | point {upd next} (hnext : ∀ s, Settled view (fun _ => True) (next s)) : AtMostOnce view (.atom upd next)

theorem AtMostOnce.bind {β : Type} {p : Prog σ α} {f : α → Prog σ β} (h : Settled view (fun _ => True) p)
    (hf : ∀ a, AtMostOnce view (f a)) : AtMostOnce view (p >>= f) := by
  induction h with
  | done _ => exact hf _
  | atom hupd _ ih => exact .before hupd ih

theorem AtMostOnce.then {β : Type} {p : Prog σ α} {f : α → Prog σ β} (h : AtMostOnce view p)
    (hf : ∀ a, Settled view (fun _ => True) (f a)) : AtMostOnce view (p >>= f) := by
  induction h with
  | never hp => exact .never (hp.bind fun a _ => hf a)
  | before hupd _ ih => exact .before hupd ih
  | point hnext => exact .point fun s => (hnext s).bind fun a _ => hf a

theorem Settled.visits {A : α → Prop} {p : Prog σ α} (h : Settled view A p) (s : σ) :
    p.Visits (fun t => view t = view s) s := by
  induction h generalizing s with
  | done _ => rfl
  | @atom upd next hupd _ ih =>
    refine ⟨rfl, ?_⟩
    have hrest := ih s (upd s)
    rw [hupd] at hrest
    exact hrest

/-- **Before or after**: wherever the program is stopped, the view is that of its start or that of its end. -/
theorem AtMostOnce.visits {p : Prog σ α} (h : AtMostOnce view p) (s : σ) :
    p.Visits (fun t => view t = view s ∨ view t = view (p.run s).1) s := by
  induction h generalizing s with
  | never hp => exact (hp.visits s).mono fun t ht => Or.inl ht
  | @before upd next hupd _ ih =>
    refine ⟨Or.inl rfl, ?_⟩
    have hrest := ih s (upd s)
    rw [hupd] at hrest
    exact hrest
  | @point upd next hnext =>
    refine ⟨Or.inl rfl, ((hnext s).visits (upd s)).mono fun t ht => Or.inr (ht.trans ?_)⟩
    exact ((hnext s).run (upd s)).1.symm

/-- One such program after another: the view is also that between the two. -/
theorem AtMostOnce.visits_bind {β : Type} {p : Prog σ α} {f : α → Prog σ β} (hp : AtMostOnce view p)
    (hf : ∀ a, AtMostOnce view (f a)) (s : σ) : (p >>= f).Visits (fun t =>
      view t = view s ∨ view t = view (p.run s).1 ∨ view t = view ((p >>= f).run s).1) s := by
  rw [Prog.run_bind]
  refine Prog.visits_bind ((hp.visits s).mono fun t ht => ?_) (((hf _).visits _).mono fun t ht => Or.inr ht)
  exact ht.imp_right Or.inl

/-! ## Side by side -/

/-- The view after the effects of some of the programs, one after another. -/
def after (specs : List (Spec V α)) (v : V) (order : List Nat) : V :=
  order.foldl (fun v j => (specs[j]?).elim v fun spec => spec.eff v) v

theorem after_concat (specs : List (Spec V α)) (v : V) (order : List Nat) (j : Nat) :
    after specs v (order ++ [j]) = (specs[j]?).elim (after specs v order) fun spec => spec.eff (after specs v order) :=
  List.foldl_append

/-- Some of the programs, run one after another. -/
def inTurn (ps : List (Prog σ α)) (s : σ) (order : List Nat) : σ :=
  order.foldl (fun s j => (ps[j]?).elim s fun p => (p.run s).1) s

theorem inTurn_concat (ps : List (Prog σ α)) (s : σ) (order : List Nat) (j : Nat) :
    inTurn ps s (order ++ [j]) = (ps[j]?).elim (inTurn ps s order) fun p => (p.run (inTurn ps s order)).1 :=
  List.foldl_append

theorem after_eq_inTurn {specs : List (Spec V α)} {ps : List (Prog σ α)} (h : List.Forall₂ (OneShot view) specs ps) (s : σ)
    (order : List Nat) : after specs (view s) order = view (inTurn ps s order) := by
  induction order using List.reverseRecOn with
  | nil => rfl
  | append_singleton order j ih =>
    rw [after_concat, inTurn_concat, ih]
    cases hj : specs[j]? with
    | none =>
      have hnone : ps[j]? = none := by
        rw [List.getElem?_eq_none_iff, ← h.length_eq, ← List.getElem?_eq_none_iff, hj]
      rw [hnone]; rfl
    | some spec =>
      obtain ⟨p, hp, hshot⟩ := forall₂_getElem? h hj
      rw [hp]
      exact (hshot.run _).1.symm

variable (view)

/-- What has become of party `j` when the effects of `order` have happened. -/
def Placed (specs : List (Spec V α)) (v : V) (order : List Nat) (j : Nat) (p : Prog σ α) (spec : Spec V α) : Prop :=
  (j ∉ order ∧ OneShot view spec p) ∨
  ∃ pre post, order = pre ++ j :: post ∧ Settled view (spec.Answers (after specs v pre)) p

/-- The parties in the middle of an interleaving: `order` are those whose effect has happened. -/
structure Linearized (specs : List (Spec V α)) (v : V) (order : List Nat) (c : List (Prog σ α) × σ) : Prop where
  length : c.1.length = specs.length
  nodup : order.Nodup
  lt : ∀ j ∈ order, j < specs.length
  state : view c.2 = after specs v order
  placed : ∀ j p spec, c.1[j]? = some p → specs[j]? = some spec → Placed view specs v order j p spec

variable {view}

theorem Placed.concat {specs : List (Spec V α)} {v : V} {order : List Nat} {j k : Nat} {p : Prog σ α} {spec : Spec V α}
    (h : Placed view specs v order j p spec) (hne : j ≠ k) :
    Placed view specs v (order ++ [k]) j p spec := by
  rcases h with ⟨hj, hp⟩ | ⟨pre, post, rfl, hp⟩
  · exact Or.inl ⟨by simp [hj, hne], hp⟩
  · exact Or.inr ⟨pre, post ++ [k], by simp, hp⟩

/-- **One operation** of any party: the order stays as it is, or this party comes next in it. -/
theorem Linearized.step {specs : List (Spec V α)} {v : V} {order : List Nat} {c : List (Prog σ α) × σ}
    (h : Linearized view specs v order c) (k : Nat) :
    ∃ order', Linearized view specs v order' (poolStep Prog.step c k) := by
  rcases @poolStep_cases _ _ Prog.step c k with ⟨_, he⟩ | ⟨p, hk, he⟩
  · exact ⟨order, by rw [he]; exact h⟩
  have hlt : k < specs.length := by
    rw [← h.length]
    exact (List.getElem?_eq_some_iff.1 hk).1
  obtain ⟨spec, hspec⟩ : ∃ spec, specs[k]? = some spec := ⟨_, List.getElem?_eq_getElem hlt⟩
  have hlen : (c.1.set k (Prog.step (p, c.2)).1).length = specs.length := by rw [List.length_set, h.length]
  rw [he]
  -- the other parties stay what they are
  rcases h.placed k p spec hk hspec with ⟨hnew, hp⟩ | ⟨pre, post, horder, hp⟩
  · rcases hp.step c.2 with ⟨hp', hview⟩ | ⟨hp', hview⟩
    · refine ⟨order, hlen, h.nodup, h.lt, hview.trans h.state, fun j q spec' hq hj => ?_⟩
      rcases (getElem?_set_some hk).1 hq with ⟨rfl, rfl⟩ | ⟨_, hq⟩
      · cases hspec.symm.trans hj
        exact Or.inl ⟨hnew, hp'⟩
      · exact h.placed j q spec' hq hj
    · refine ⟨order ++ [k], hlen, ?_, ?_, ?_, fun j q spec' hq hj => ?_⟩
      · exact List.nodup_append.2 ⟨h.nodup, by simp, fun a ha b hb hab =>
          hnew (List.mem_singleton.1 hb ▸ hab ▸ ha)⟩
      · intro j hj
        rcases List.mem_append.1 hj with hj | hj
        · exact h.lt j hj
        · exact List.mem_singleton.1 hj ▸ hlt
      · rw [after_concat, hspec, hview, h.state]; rfl
      · rcases (getElem?_set_some hk).1 hq with ⟨rfl, rfl⟩ | ⟨hne, hq⟩
        · cases hspec.symm.trans hj
          exact Or.inr ⟨order, [], rfl, h.state ▸ hp'⟩
        · exact (h.placed j q spec' hq hj).concat hne
  · obtain ⟨hp', hview⟩ := hp.step c.2
    refine ⟨order, hlen, h.nodup, h.lt, hview.trans h.state, fun j q spec' hq hj => ?_⟩
    rcases (getElem?_set_some hk).1 hq with ⟨rfl, rfl⟩ | ⟨_, hq⟩
    · cases hspec.symm.trans hj
      exact Or.inr ⟨pre, post, horder, hp'⟩
    · exact h.placed j q spec' hq hj

theorem linearized_run {specs : List (Spec V α)} {ps : List (Prog σ α)} (h : List.Forall₂ (OneShot view) specs ps) (s : σ)
    (schedule : List Nat) :
    ∃ order, Linearized view specs (view s) order (Runs.run (poolStep Prog.step) (ps, s) schedule) := by
  have hstart : Linearized view specs (view s) [] (ps, s) := by
    refine ⟨h.length_eq.symm, .nil, by simp, rfl, fun j p spec hp hspec => Or.inl ⟨by simp, ?_⟩⟩
    obtain ⟨p', hp', hshot⟩ := forall₂_getElem? h hspec
    cases hp.symm.trans hp'
    exact hshot
  refine Runs.run_keeps (I := fun c => ∃ order, Linearized view specs (view s) order c) (E := fun _ => True)
    (fun c k hc _ => ?_) ⟨[], hstart⟩ fun _ _ => trivial
  obtain ⟨order, hc⟩ := hc
  exact hc.step k

/-- Programs without an effect may come last. -/
theorem after_append_idle {specs : List (Spec V α)} (v : V) (order : List Nat) {js : List Nat}
    (h : ∀ j ∈ js, ∀ spec, specs[j]? = some spec → ∀ v, spec.eff v = v) : after specs v (order ++ js) = after specs v order := by
  induction js using List.reverseRecOn with
  | nil => rw [List.append_nil]
  | append_singleton js j ih =>
    rw [← List.append_assoc, after_concat, ih fun i hi => h i (by simp [hi])]
    cases hj : specs[j]? with
    | none => rfl
    | some spec => exact h j (by simp) spec hj _

/-- **Linearization.** When all of the programs have finished, however they were interleaved: there is an order of
them in which they leave the same view when they run one after another, and each has answered as it may at its turn. -/
theorem linearize {specs : List (Spec V α)} {ps : List (Prog σ α)} (h : List.Forall₂ (OneShot view) specs ps) (s : σ)
    (schedule : List Nat) (hdone : ∀ q ∈ (Runs.run (poolStep Prog.step) (ps, s) schedule).1, q.result.isSome) :
    ∃ order : List Nat, order.Perm (List.range ps.length) ∧
      view (Runs.run (poolStep Prog.step) (ps, s) schedule).2 = view (inTurn ps s order) ∧
      ∀ j spec, specs[j]? = some spec → ∃ pre post a, order = pre ++ j :: post ∧
        (Runs.run (poolStep Prog.step) (ps, s) schedule).1[j]? = some (Prog.done a) ∧ spec.Answers (view (inTurn ps s pre)) a := by
  simp only [← after_eq_inTurn h]
  obtain ⟨order, hc⟩ := linearized_run h s schedule
  generalize Runs.run (poolStep Prog.step) (ps, s) schedule = c at hdone hc
  have hlast : ∀ j spec, specs[j]? = some spec → ∃ a : α, c.1[j]? = some (Prog.done a) := fun j spec hj => by
    have hlt : j < c.1.length := by
      rw [hc.length]
      exact (List.getElem?_eq_some_iff.1 hj).1
    have hq := hdone c.1[j] (List.getElem_mem hlt)
    cases hp : c.1[j] with
    | done a => exact ⟨a, by rw [List.getElem?_eq_getElem hlt, hp]⟩
    | atom upd next => rw [hp] at hq; cases hq
  -- those whose effect has not happened have none
  have hidle : ∀ j spec, j ∉ order → specs[j]? = some spec → ∀ a, c.1[j]? = some (Prog.done a) →
      (∀ v, spec.eff v = v) ∧ ∀ v, spec.Answers v a := fun j spec hj hspec a ha => by
    rcases hc.placed j _ spec ha hspec with ⟨_, hp⟩ | ⟨pre, post, horder, _⟩
    · exact hp.of_done
    · exact absurd (by simp [horder]) hj
  let rest := (List.range ps.length).filter fun j => j ∉ order
  have hlen : ps.length = specs.length := h.length_eq.symm
  refine ⟨order ++ rest, ?_, ?_, fun j spec hspec => ?_⟩
  · refine (List.perm_ext_iff_of_nodup ?_ List.nodup_range).2 fun j => ?_
    · refine List.nodup_append.2 ⟨hc.nodup, List.nodup_range.filter _, fun a ha b hb hab => ?_⟩
      subst hab
      simp [rest, ha] at hb
    · have hlt := hc.lt j
      by_cases hj : j ∈ order
      · simp [hj, hlen, hlt hj]
      · simp [rest, hj]
  · rw [hc.state, after_append_idle]
    intro j hj spec hspec
    obtain ⟨a, ha⟩ := hlast j spec hspec
    exact (hidle j spec (by simpa [rest] using (List.mem_filter.1 hj).2) hspec a ha).1
  · obtain ⟨a, ha⟩ := hlast j spec hspec
    rcases hc.placed j _ spec ha hspec with ⟨hj, hp⟩ | ⟨pre, post, horder, hp⟩
    · have hmem : j ∈ order ++ rest := by
        have hlt : j < ps.length := by
          rw [hlen]
          exact (List.getElem?_eq_some_iff.1 hspec).1
        simp [rest, hj, hlt]
      obtain ⟨pre, post, hsplit⟩ := List.append_of_mem hmem
      exact ⟨pre, post, a, hsplit, ha, hp.of_done.2 _⟩
    · exact ⟨pre, post ++ rest, a, by rw [horder]; simp, ha, hp.result⟩

end Atomic
