import Mathlib.Data.List.Forall2
import Mathlib.Data.List.ReduceOption
import Microseg.Lib.Runs
/-!
# Programs of atomic operations on a shared state

`Prog σ α` is a program that reaches a shared state `σ` only through atomic operations: each one
updates the state and lets the program go on with what it saw. `run` executes a program alone;
`Inter` interleaves it with steps of an environment, which may fall before, between and after its
operations. `inter_refines`: when the environment only changes what the program cannot see (a
relation `R` that its operations respect), every interleaving is in lockstep with the program
running alone, so the states met are those of `advance`, up to `R` (`inter_zoom_visits`). `turn` interleaves
a program with given events by a schedule; `exists_turn` cuts a schedule at the program's next operation, and
`eventsBefore` and `eventsAfter` are the two parts of its events at any of them.
`Simulates` compares programs on two representations of the state.
`poolStep` interleaves any number of parties, and `poolStep_related` compares two pools party by party.
-/
namespace Atomic

inductive Prog (σ α : Type) where
  | done (a : α)
  | atom (upd : σ → σ) (next : σ → Prog σ α)

namespace Prog

variable {σ α β : Type}

protected def bind : Prog σ α → (α → Prog σ β) → Prog σ β
  | .done a, f => f a
  | .atom upd next, f => .atom upd fun s => (next s).bind f

instance : Monad (Prog σ) where
  pure := .done
  bind := Prog.bind

/-- One atomic operation with an answer. -/
def act (f : σ → σ × β) : Prog σ β := .atom (fun s => (f s).1) fun s => .done (f s).2

/-- The program alone, to its end. -/
def run : Prog σ α → σ → σ × α
  | .done a, s => (s, a)
  | .atom upd next, s => (next s).run (upd s)

@[simp] theorem run_pure (a : α) (s : σ) : (pure a : Prog σ α).run s = (s, a) := rfl

@[simp] theorem run_act (f : σ → σ × β) (s : σ) : (act f).run s = f s := rfl

@[simp] theorem run_bind (p : Prog σ α) (f : α → Prog σ β) (s : σ) :
    (p >>= f).run s = (f (p.run s).2).run (p.run s).1 := by
  induction p generalizing s with
  | done a => rfl
  | atom upd next ih => exact ih s (upd s)

theorem bind_assoc {γ : Type} (p : Prog σ α) (f : α → Prog σ β) (g : β → Prog σ γ) :
    p >>= f >>= g = p >>= fun a => f a >>= g := by
  induction p with
  | done a => rfl
  | atom upd next ih => exact congrArg (Prog.atom upd) (funext ih)

/-- What a finished program answered. -/
def result : Prog σ α → Option α
  | .done a => some a
  | .atom _ _ => none

/-! ## Step by step -/

/-- The next operation of a program; a finished program stays where it is. -/
def step : Prog σ α × σ → Prog σ α × σ
  | (.done a, s) => (.done a, s)
  | (.atom upd next, s) => (next s, upd s)

/-- `n` operations of the program alone. -/
def advance : Nat → Prog σ α × σ → Prog σ α × σ
  | 0, c => c
  | n + 1, c => step (advance n c)

theorem advance_succ (n : Nat) (c : Prog σ α × σ) : advance (n + 1) c = advance n (step c) := by
  induction n with
  | zero => rfl
  | succ n ih => rw [advance, ih, advance]

/-! ## The states a program meets -/

/-- Every state the program meets when it runs alone, from the first to the last, satisfies `P`. -/
def Visits (P : σ → Prop) : Prog σ α → σ → Prop
  | .done _, s => P s
  | .atom upd next, s => P s ∧ (next s).Visits P (upd s)

theorem visits_start {P : σ → Prop} {p : Prog σ α} {s : σ} (h : p.Visits P s) : P s := by
  cases p with
  | done a => exact h
  | atom upd next => exact h.1

theorem Visits.mono {P Q : σ → Prop} {p : Prog σ α} {s : σ} (h : p.Visits P s) (hpq : ∀ s, P s → Q s) : p.Visits Q s := by
  induction p generalizing s with
  | done a => exact hpq s h
  | atom upd next ih => exact ⟨hpq s h.1, ih s h.2⟩

theorem visits_bind {P : σ → Prop} {p : Prog σ α} {f : α → Prog σ β} {s : σ} (hp : p.Visits P s)
    (hf : (f (p.run s).2).Visits P (p.run s).1) : (p >>= f).Visits P s := by
  induction p generalizing s with
  | done a => exact hf
  | atom upd next ih => exact ⟨hp.1, ih s hp.2 hf⟩

theorem visits_act {P : σ → Prop} {f : σ → σ × β} {s : σ} (h : P s) (h' : P (f s).1) : (act f).Visits P s := ⟨h, h'⟩

theorem visits_step {P : σ → Prop} {c : Prog σ α × σ} (h : c.1.Visits P c.2) : (step c).1.Visits P (step c).2 := by
  obtain ⟨p, s⟩ := c
  cases p with
  | done a => exact h
  | atom upd next => exact h.2

theorem visits_advance {P : σ → Prop} (n : Nat) {c : Prog σ α × σ} (h : c.1.Visits P c.2) : P (advance n c).2 := by
  induction n generalizing c with
  | zero => exact visits_start h
  | succ n ih =>
    rw [advance_succ]
    exact ih (visits_step h)

/-! ## A program on a component of a larger state -/

/-- The program with its state found by `get` in a larger one and written back by `set`. -/
def zoom {τ : Type} (get : τ → σ) (set : σ → τ → τ) : Prog σ α → Prog τ α
  | .done a => .done a
  | .atom upd next => .atom (fun t => set (upd (get t)) t) fun t => (next (get t)).zoom get set

section Zoom

variable {τ : Type} {get : τ → σ} {set : σ → τ → τ} (hget : ∀ s t, get (set s t) = s)

include hget

theorem advance_zoom (n : Nat) (p : Prog σ α) (t : τ) :
    get (advance n (p.zoom get set, t)).2 = (advance n (p, get t)).2 := by
  induction n generalizing p t with
  | zero => rfl
  | succ n ih =>
    rw [advance_succ, advance_succ]
    cases p with
    | done a => exact ih (.done a) t
    | atom upd next =>
      have hnext := ih (next (get t)) (set (upd (get t)) t)
      rw [hget] at hnext
      exact hnext

end Zoom

/-! ## Interleavings -/

/-- The program and an environment taking turns in any order. -/
inductive Inter (env : σ → σ → Prop) : Prog σ α × σ → Prog σ α × σ → Prop
  | refl (c) : Inter env c c
  | own {c d} : Inter env c d → Inter env c (step d)
  | env {c p s t} : Inter env c (p, s) → env s t → Inter env c (p, t)

/-- The program's operations respect `R`: related states give related results and the same rest. -/
def Respects (R : σ → σ → Prop) : Prog σ α → Prop
  | .done _ => True
  | .atom upd next => (∀ s t, R s t → R (upd s) (upd t) ∧ next s = next t) ∧ ∀ s, (next s).Respects R

theorem respects_step {R : σ → σ → Prop} {s t : σ} (h : R s t) {p : Prog σ α} (hp : p.Respects R) :
    (step (p, s)).1 = (step (p, t)).1 ∧ R (step (p, s)).2 (step (p, t)).2 ∧ (step (p, t)).1.Respects R := by
  cases p with
  | done a => exact ⟨rfl, h, trivial⟩
  | atom upd next =>
    obtain ⟨hupd, hnext⟩ := hp.1 s t h
    exact ⟨hnext, hupd, hp.2 t⟩

theorem respects_bind {R : σ → σ → Prop} {p : Prog σ α} {f : α → Prog σ β} (hp : p.Respects R)
    (hf : ∀ a, (f a).Respects R) : (p >>= f).Respects R := by
  induction p with
  | done a => exact hf a
  | atom upd next ih =>
    refine ⟨fun s t h => ?_, fun s => ih s (hp.2 s)⟩
    obtain ⟨hupd, hnext⟩ := hp.1 s t h
    exact ⟨hupd, congrArg (Prog.bind · f) hnext⟩

theorem respects_act {R : σ → σ → Prop} {f : σ → σ × β}
    (h : ∀ s t, R s t → R (f s).1 (f t).1 ∧ (f s).2 = (f t).2) : (act f).Respects R :=
  ⟨fun s t hr => ⟨(h s t hr).1, congrArg Prog.done (h s t hr).2⟩, fun _ => trivial⟩

theorem respects_zoom {τ : Type} {get : τ → σ} {set : σ → τ → τ} (hget : ∀ s t, get (set s t) = s)
    {R : σ → σ → Prop} {p : Prog σ α} (hp : p.Respects R) : (p.zoom get set).Respects fun t t' => R (get t) (get t') := by
  induction p with
  | done a => trivial
  | atom upd next ih =>
    refine ⟨fun t t' h => ?_, fun t => ih (get t) (hp.2 (get t))⟩
    obtain ⟨hupd, hnext⟩ := hp.1 _ _ h
    simp only [hget]
    exact ⟨hupd, congrArg (zoom get set) hnext⟩

/-- **Interference the program cannot see.** Under an environment whose steps stay within `R`, an
interleaving is at every moment the program run alone for some number of operations, up to `R`. -/
theorem inter_refines {R : σ → σ → Prop} {env : σ → σ → Prop} (hrefl : ∀ s, R s s)
    (henv : ∀ r s t, R r s → env s t → R r t) {p : Prog σ α} {s : σ} (hp : p.Respects R)
    {c : Prog σ α × σ} (h : Inter env (p, s) c) :
    ∃ n, (advance n (p, s)).1 = c.1 ∧ R (advance n (p, s)).2 c.2 ∧ c.1.Respects R := by
  induction h with
  | refl => exact ⟨0, rfl, hrefl s, hp⟩
  | @own d _ ih =>
    obtain ⟨n, h1, h2, h3⟩ := ih
    obtain ⟨q, t⟩ := d
    obtain ⟨e, hr, hr'⟩ := respects_step h2 h3
    have hc : advance n (p, s) = (q, (advance n (p, s)).2) := Prod.ext h1 rfl
    rw [← hc] at e hr
    exact ⟨n + 1, e, hr, hr'⟩
  | env _ he ih =>
    obtain ⟨n, h1, h2, h3⟩ := ih
    exact ⟨n, h1, henv _ _ _ h2 he, h3⟩

/-- **Up to `R`, what it meets alone.** A program on a component of a larger state leaves the component, whatever the
environment does within `R`, where it leaves it alone. -/
theorem inter_zoom_visits {τ : Type} {get : τ → σ} {set : σ → τ → τ} (hget : ∀ s t, get (set s t) = s) {R : σ → σ → Prop}
    {P : σ → Prop} (hP : ∀ s s', R s s' → P s → P s') (hrefl : ∀ s, R s s) {env : τ → τ → Prop}
    (henv : ∀ r s t, R (get r) (get s) → env s t → R (get r) (get t)) {p : Prog σ α} (hp : p.Respects R) {t : τ}
    (hv : p.Visits P (get t)) {c : Prog τ α × τ} (h : Inter env (p.zoom get set, t) c) : P (get c.2) := by
  obtain ⟨n, _, hn, _⟩ := inter_refines (fun s => hrefl (get s)) henv (respects_zoom hget hp) h
  have halone := visits_advance n (c := (p, get t)) hv
  rw [← advance_zoom hget] at halone
  exact hP _ _ hn halone

/-! ## Two representations of the state -/

section Simulation

variable {τ : Type} {R : σ → τ → Prop}

/-- Operation by operation, the programs keep related states related and see the same in them. -/
inductive Simulates (R : σ → τ → Prop) : Prog σ α → Prog τ α → Prop
  | done (a) : Simulates R (.done a) (.done a)
  | atom {upd next upd' next'} (hupd : ∀ s t, R s t → R (upd s) (upd' t))
      (hnext : ∀ s t, R s t → Simulates R (next s) (next' t)) : Simulates R (.atom upd next) (.atom upd' next')

theorem simulates_step {p : Prog σ α} {q : Prog τ α} (h : p.Simulates R q) {s : σ} {t : τ} (hr : R s t) :
    (step (p, s)).1.Simulates R (step (q, t)).1 ∧ R (step (p, s)).2 (step (q, t)).2 := by
  cases h with
  | done a => exact ⟨.done a, hr⟩
  | atom hupd hnext => exact ⟨hnext s t hr, hupd s t hr⟩

theorem simulates_bind {p : Prog σ α} {q : Prog τ α} {f : α → Prog σ β} {g : α → Prog τ β} (h : p.Simulates R q)
    (hf : ∀ a, (f a).Simulates R (g a)) : (p >>= f).Simulates R (q >>= g) := by
  induction h with
  | done a => exact hf a
  | atom hupd _ ih => exact .atom hupd ih

theorem simulates_act {f : σ → σ × α} {g : τ → τ × α} (h : ∀ s t, R s t → R (f s).1 (g t).1 ∧ (f s).2 = (g t).2) :
    (act f).Simulates R (act g) := by
  refine .atom (fun s t hr => (h s t hr).1) fun s t hr => ?_
  rw [(h s t hr).2]
  exact .done _

end Simulation

/-! ## Schedules -/

/-- What a program may answer, whatever it sees. -/
def Returns (P : α → Prop) : Prog σ α → Prop
  | .done a => P a
  | .atom _ next => ∀ s, (next s).Returns P

theorem returns_step {P : α → Prop} {c : Prog σ α × σ} (h : c.1.Returns P) : (step c).1.Returns P := by
  obtain ⟨p, s⟩ := c
  cases p with
  | done a => exact h
  | atom upd next => exact h s

section Turn

variable {ε : Type} (env : σ → ε → σ)

/-- One turn of a schedule: the program's next operation, or an event of the environment. -/
def turn (c : Prog σ α × σ) : Option ε → Prog σ α × σ
  | none => step c
  | some e => (c.1, env c.2 e)

variable {env}

theorem turn_returns {P : α → Prop} {c : Prog σ α × σ} (hc : c.1.Returns P) {os : List (Option ε)} {a : α}
    (h : (Runs.run (turn env) c os).1.result = some a) : P a := by
  induction os generalizing c with
  | nil =>
    obtain ⟨p, s⟩ := c
    cases p with
    | done b => cases h; exact hc
    | atom upd next => cases h
  | cons o os ih =>
    cases o with
    | none => exact ih (returns_step hc) h
    | some e => exact ih (c := turn env c (some e)) hc h

/-- **The next operation** of a program that finishes comes after some of the events. -/
theorem exists_turn {upd : σ → σ} {next : σ → Prog σ α} {s : σ} {os : List (Option ε)} {a : α}
    (h : (Runs.run (turn env) (.atom upd next, s) os).1.result = some a) :
    ∃ es rest, os = es.map some ++ none :: rest ∧
      (Runs.run (turn env) (next (Runs.run env s es), upd (Runs.run env s es)) rest).1.result = some a := by
  induction os generalizing s with
  | nil => cases h
  | cons o os ih =>
    cases o with
    | none => exact ⟨[], os, rfl, h⟩
    | some e =>
      obtain ⟨es, rest, rfl, hrest⟩ := ih h
      exact ⟨e :: es, rest, rfl, hrest⟩

end Turn

end Prog

/-- The events of a schedule before operation `n` of the program. -/
def eventsBefore {ε : Type} : Nat → List (Option ε) → List ε
  | _, [] => []
  | n, some e :: os => e :: eventsBefore n os
  | 0, none :: _ => []
  | n + 1, none :: os => eventsBefore n os

/-- The events of a schedule after operation `n` of the program. -/
def eventsAfter {ε : Type} : Nat → List (Option ε) → List ε
  | _, [] => []
  | n, some _ :: os => eventsAfter n os
  | 0, none :: os => os.reduceOption
  | n + 1, none :: os => eventsAfter n os

section Cuts

variable {ε : Type}

@[simp] theorem eventsBefore_none_zero (os : List (Option ε)) : eventsBefore 0 (none :: os) = [] := by rw [eventsBefore]

@[simp] theorem eventsBefore_none_succ (n : Nat) (os : List (Option ε)) :
    eventsBefore (n + 1) (none :: os) = eventsBefore n os := by rw [eventsBefore]

@[simp] theorem eventsBefore_map_append (n : Nat) (es : List ε) (os : List (Option ε)) :
    eventsBefore n (es.map some ++ os) = es ++ eventsBefore n os := by
  induction es with
  | nil => rfl
  | cons e es ih => rw [List.map_cons, List.cons_append, eventsBefore, ih, List.cons_append]

/-- An operation cuts the events in two. -/
theorem eventsBefore_append_eventsAfter (n : Nat) (os : List (Option ε)) :
    eventsBefore n os ++ eventsAfter n os = os.reduceOption := by
  induction os generalizing n with
  | nil => rfl
  | cons o os ih =>
    cases o with
    | some e => rw [eventsBefore, eventsAfter, List.cons_append, ih, List.reduceOption_cons_of_some]
    | none =>
      rw [List.reduceOption_cons_of_none]
      cases n with
      | zero => rfl
      | succ n => rw [eventsBefore, eventsAfter, ih]

/-- A later operation has more of the events before it. -/
theorem eventsBefore_le {m n : Nat} (h : m ≤ n) (os : List (Option ε)) :
    ∃ mid, eventsBefore n os = eventsBefore m os ++ mid := by
  induction os generalizing m n with
  | nil => exact ⟨[], rfl⟩
  | cons o os ih =>
    cases o with
    | some e =>
      obtain ⟨mid, hmid⟩ := ih h
      exact ⟨mid, by rw [eventsBefore, eventsBefore, hmid, List.cons_append]⟩
    | none =>
      cases m with
      | zero => exact ⟨_, rfl⟩
      | succ m =>
        obtain ⟨n, rfl⟩ := Nat.exists_eq_add_one_of_ne_zero (Nat.ne_zero_of_lt h)
        obtain ⟨mid, hmid⟩ := ih (Nat.le_of_succ_le_succ h)
        exact ⟨mid, by rw [eventsBefore, eventsBefore, hmid]⟩

end Cuts

/-! ## Pools -/

section Pool

variable {ℓ σ : Type} (act : ℓ × σ → ℓ × σ)

/-- Party `k` of a pool moves; each has a state of its own beside the shared one. An interleaving of the parties
is a list of such moves. -/
def poolStep (c : List ℓ × σ) (k : Nat) : List ℓ × σ :=
  match c.1[k]? with
  | none => c
  | some l => (c.1.set k (act (l, c.2)).1, (act (l, c.2)).2)

variable {act}

theorem poolStep_cases (c : List ℓ × σ) (k : Nat) :
    (c.1[k]? = none ∧ poolStep act c k = c) ∨
    ∃ l, c.1[k]? = some l ∧ poolStep act c k = (c.1.set k (act (l, c.2)).1, (act (l, c.2)).2) := by
  unfold poolStep
  cases h : c.1[k]? with
  | none => exact Or.inl ⟨rfl, rfl⟩
  | some l => exact Or.inr ⟨l, rfl, rfl⟩

/-- The parties after party `k` has become `l'`. -/
theorem getElem?_set_some {ls : List ℓ} {k j : Nat} {l l' x : ℓ} (hk : ls[k]? = some l) :
    (ls.set k l')[j]? = some x ↔ (j = k ∧ x = l') ∨ (j ≠ k ∧ ls[j]? = some x) := by
  have hlt : k < ls.length := (List.getElem?_eq_some_iff.1 hk).1
  by_cases hj : j = k
  · subst hj
    simp [hlt, eq_comm]
  · rw [List.getElem?_set_ne (Ne.symm hj)]
    simp [hj]

theorem forall₂_getElem? {ℓ' : Type} {R : ℓ → ℓ' → Prop} {ls : List ℓ} {ls' : List ℓ'} (h : List.Forall₂ R ls ls')
    {k : Nat} {l : ℓ} (hk : ls[k]? = some l) : ∃ l', ls'[k]? = some l' ∧ R l l' := by
  induction h generalizing k with
  | nil => cases hk
  | cons hhead _ ih =>
    cases k with
    | zero =>
      cases hk
      exact ⟨_, rfl, hhead⟩
    | succ k => exact ih hk

theorem forall₂_set {ℓ' : Type} {R : ℓ → ℓ' → Prop} {ls : List ℓ} {ls' : List ℓ'} (h : List.Forall₂ R ls ls') (k : Nat)
    {l : ℓ} {l' : ℓ'} (hl : R l l') : List.Forall₂ R (ls.set k l) (ls'.set k l') := by
  induction h generalizing k with
  | nil => exact .nil
  | cons hhead htail ih =>
    cases k with
    | zero => exact .cons hl htail
    | succ k => exact .cons hhead (ih k)

/-- Parties neither come nor go. -/
theorem run_poolStep_length (c : List ℓ × σ) (schedule : List Nat) :
    (Runs.run (poolStep act) c schedule).1.length = c.1.length := by
  refine Runs.run_keeps (I := fun d : List ℓ × σ => d.1.length = c.1.length) (E := fun _ => True) (fun d k hd _ => ?_) rfl fun _ _ => trivial
  rcases @poolStep_cases _ _ act d k with ⟨_, he⟩ | ⟨_, _, he⟩ <;> rw [he]
  · exact hd
  · rw [List.length_set, hd]

/-- A finished program stays finished, whoever moves. -/
theorem poolStep_done {β : Type} {c : List (Prog σ β) × σ} {j : Nat} {b : β} (h : c.1[j]? = some (.done b)) (k : Nat) :
    (poolStep Prog.step c k).1[j]? = some (.done b) := by
  rcases @poolStep_cases _ _ Prog.step c k with ⟨_, he⟩ | ⟨q, hk, he⟩
  · rw [he, h]
  · rw [he, getElem?_set_some hk]
    by_cases hjk : j = k
    · subst hjk
      rw [hk] at h
      cases h
      exact Or.inl ⟨rfl, rfl⟩
    · exact Or.inr ⟨hjk, h⟩

/-- **Simulation of pools**: parties that simulate one by one simulate side by side. -/
theorem poolStep_related {ℓ' σ' : Type} {act' : ℓ' × σ' → ℓ' × σ'} {R : ℓ → ℓ' → Prop} {S : σ → σ' → Prop}
    (hact : ∀ l l' s s', R l l' → S s s' → R (act (l, s)).1 (act' (l', s')).1 ∧ S (act (l, s)).2 (act' (l', s')).2)
    {c : List ℓ × σ} {c' : List ℓ' × σ'} (h : List.Forall₂ R c.1 c'.1 ∧ S c.2 c'.2) (k : Nat) :
    List.Forall₂ R (poolStep act c k).1 (poolStep act' c' k).1 ∧ S (poolStep act c k).2 (poolStep act' c' k).2 := by
  obtain ⟨hparties, hshared⟩ := h
  rcases @poolStep_cases _ _ act c k with ⟨hl, he⟩ | ⟨l, hl, he⟩
  · have hl' : c'.1[k]? = none := by
      rw [List.getElem?_eq_none_iff, ← hparties.length_eq, ← List.getElem?_eq_none_iff, hl]
    have he' : poolStep act' c' k = c' := by rw [poolStep, hl']
    rw [he, he']
    exact ⟨hparties, hshared⟩
  · obtain ⟨l', hl', hrel⟩ := forall₂_getElem? hparties hl
    have he' : poolStep act' c' k = (c'.1.set k (act' (l', c'.2)).1, (act' (l', c'.2)).2) := by rw [poolStep, hl']
    obtain ⟨hparty, hstate⟩ := hact l l' c.2 c'.2 hrel hshared
    rw [he, he']
    exact ⟨forall₂_set hparties k hparty, hstate⟩

end Pool

end Atomic
