import Microseg.Lib.Atomic
/-!
# Programs under interference

A party of a pool is proved on its own: between any two of its operations the others may change the state within its
`rely`, and each of its operations stays within its `guarantee`. `Meets` is the weakest such condition on a start state.
The states `τ` of the proof may hold more than those of the program (`view`): what each party has done so far, or a
proof that the state is well formed. Parties whose guarantees are within each other's relies meet their conditions side
by side, whatever the schedule (`pool_meets`). `pool_done`: a party whose program is of bounded length ends after as many
moves of its own.

| here | rely-guarantee reasoning |
|---|---|
| `Contract` | rely and guarantee of one party |
| `view` | the program's state without the auxiliary variables |
| `Meets` | weakest precondition under interference |
| `pool_meets` | the parallel rule |
-/
namespace Atomic

/-- What a party relies on and what it guarantees. -/
structure Contract (τ : Type) where
  rely : τ → τ → Prop
  guarantee : τ → τ → Prop
  refl : ∀ t, rely t t
  trans : ∀ {t u v}, rely t u → rely u v → rely t v

variable {σ τ α β : Type} {view : τ → σ} {C : Contract τ} {Q : α → τ → Prop}

/-- From `t`, every operation of the program keeps the guarantee and the answer is as `Q` says, with the others changing
the state within the rely before each operation and at the end. -/
def Meets (view : τ → σ) (C : Contract τ) (Q : α → τ → Prop) : Prog σ α → τ → Prop
  | .done a, t => ∀ t', C.rely t t' → Q a t'
  | .atom upd next, t => ∀ t', C.rely t t' →
      ∃ u, view u = upd (view t') ∧ C.guarantee t' u ∧ Meets view C Q (next (view t')) u

/-! ## Rules -/

/-- What is met stays met under interference. -/
theorem Meets.stable {p : Prog σ α} {t t' : τ} (h : Meets view C Q p t) (hr : C.rely t t') : Meets view C Q p t' := by
  cases p with
  | done a => exact fun u hu => h u (C.trans hr hu)
  | atom upd next => exact fun u hu => h u (C.trans hr hu)

theorem Meets.result {a : α} {t : τ} (h : Meets view C Q (.done a) t) : Q a t := h t (C.refl t)

theorem meets_pure {a : α} {t : τ} (h : ∀ t', C.rely t t' → Q a t') : Meets view C Q (pure a) t := h

/-- **One operation**: a step of the guarantee for every state it may find, and what holds after it. -/
theorem meets_act {f : σ → σ × α} {t : τ}
    (h : ∀ t', C.rely t t' → ∃ u, view u = (f (view t')).1 ∧ C.guarantee t' u ∧ ∀ u', C.rely u u' → Q (f (view t')).2 u') :
    Meets view C Q (.act f) t := h

/-- A read changes nothing. -/
theorem meets_read {f : σ → α} {t : τ} (hg : ∀ t, C.guarantee t t)
    (h : ∀ t' u', C.rely t t' → C.rely t' u' → Q (f (view t')) u') : Meets view C Q (.act fun s => (s, f s)) t :=
  meets_act fun t' ht => ⟨t', rfl, hg t', fun u' hu => h t' u' ht hu⟩

/-- **Sequencing.** -/
theorem meets_bind {Q' : β → τ → Prop} {p : Prog σ α} {f : α → Prog σ β} {t : τ} (hp : Meets view C Q p t)
    (hf : ∀ a t', Q a t' → Meets view C Q' (f a) t') : Meets view C Q' (p >>= f) t := by
  induction p generalizing t with
  | done a => exact hf a t hp.result
  | atom upd next ih =>
    intro t' ht
    obtain ⟨u, hu, hg, hnext⟩ := hp t' ht
    exact ⟨u, hu, hg, ih (view t') hnext⟩

theorem Meets.mono {Q' : α → τ → Prop} {p : Prog σ α} {t : τ} (h : Meets view C Q p t) (hq : ∀ a t', Q a t' → Q' a t') :
    Meets view C Q' p t := by
  induction p generalizing t with
  | done a => exact fun t' ht => hq a t' (h t' ht)
  | atom upd next ih =>
    intro t' ht
    obtain ⟨u, hu, hg, hnext⟩ := h t' ht
    exact ⟨u, hu, hg, ih (view t') hnext⟩

/-- The party's own next operation. -/
theorem Meets.step {p : Prog σ α} {t : τ} (h : Meets view C Q p t) :
    (∃ a, p = .done a) ∨
    ∃ u, view u = (Prog.step (p, view t)).2 ∧ C.guarantee t u ∧ Meets view C Q (Prog.step (p, view t)).1 u := by
  cases p with
  | done a => exact Or.inl ⟨a, rfl⟩
  | atom upd next => exact Or.inr (h t (C.refl t))

/-! ## Side by side -/

section Pool

variable {D : Nat → Contract τ} {post : Nat → α → τ → Prop}

/-- Some state of the proof is the pool's, and every party meets its condition from there. -/
def PoolMeets (view : τ → σ) (D : Nat → Contract τ) (post : Nat → α → τ → Prop) (c : List (Prog σ α) × σ) : Prop :=
  ∃ t, view t = c.2 ∧ ∀ j p, c.1[j]? = some p → Meets view (D j) (post j) p t

/-- One party's step keeps every party's condition. -/
theorem pool_meets_step (hD : ∀ i j, i ≠ j → ∀ t u, (D i).guarantee t u → (D j).rely t u) {c : List (Prog σ α) × σ}
    (h : PoolMeets view D post c) (k : Nat) : PoolMeets view D post (poolStep Prog.step c k) := by
  obtain ⟨t, ht, hall⟩ := h
  rcases @poolStep_cases _ _ Prog.step c k with ⟨_, he⟩ | ⟨p, hp, he⟩
  · rw [he]
    exact ⟨t, ht, hall⟩
  · rcases (hall k p hp).step with ⟨a, rfl⟩ | ⟨u, hu, hg, hnext⟩
    · -- a finished party does nothing
      have hc : poolStep Prog.step c k = c := by
        obtain ⟨hlt, hget⟩ := List.getElem?_eq_some_iff.1 hp
        rw [he]
        exact Prod.ext (by rw [Prog.step, ← hget, List.set_getElem_self]) rfl
      rw [hc]
      exact ⟨t, ht, hall⟩
    · rw [ht] at hu hnext
      rw [he]
      refine ⟨u, hu, fun j q hq => ?_⟩
      rw [getElem?_set_some hp] at hq
      rcases hq with ⟨rfl, rfl⟩ | ⟨hj, hq⟩
      · exact hnext
      · exact (hall j q hq).stable (hD k j (Ne.symm hj) t u hg)

/-- **The parallel rule.** Parties that guarantee what the others rely on meet their conditions in every interleaving. -/
theorem pool_meets (hD : ∀ i j, i ≠ j → ∀ t u, (D i).guarantee t u → (D j).rely t u) {c : List (Prog σ α) × σ}
    (h : PoolMeets view D post c) (schedule : List Nat) : PoolMeets view D post (Runs.run (poolStep Prog.step) c schedule) :=
  Runs.run_keeps (I := PoolMeets view D post) (E := fun _ => True) (fun _ k hc _ => pool_meets_step hD hc k) h
    fun _ _ => trivial

end Pool

/-! ## Finishing -/

/-- The program ends within `n` operations, whatever it sees. -/
def Within : Nat → Prog σ α → Prop
  | _, .done _ => True
  | 0, .atom _ _ => False
  | n + 1, .atom _ next => ∀ s, Within n (next s)

theorem within_pure (n : Nat) (a : α) : Within n (pure a : Prog σ α) := by cases n <;> trivial

theorem within_act (f : σ → σ × α) : Within 1 (.act f) := fun _ => trivial

theorem Within.mono {m n : Nat} {p : Prog σ α} (h : Within m p) (hmn : m ≤ n) : Within n p := by
  induction p generalizing m n with
  | done a => cases n <;> trivial
  | atom upd next ih =>
    cases m with
    | zero => cases h
    | succ m =>
      obtain ⟨n, rfl⟩ : ∃ k, n = k + 1 := ⟨n - 1, by omega⟩
      exact fun s => ih s (h s) (Nat.le_of_succ_le_succ hmn)

theorem Within.bind {m n : Nat} {p : Prog σ α} {f : α → Prog σ β} (h : Within m p) (hf : ∀ a, Within n (f a)) :
    Within (m + n) (p >>= f) := by
  induction p generalizing m with
  | done a => exact (hf a).mono (Nat.le_add_left n m)
  | atom upd next ih =>
    cases m with
    | zero => cases h
    | succ m =>
      rw [Nat.succ_add]
      exact fun s => ih s (h s)

/-- **No party waits for another**: one that ends within `n` operations has ended after `n` moves of its own. -/
theorem pool_done {n j : Nat} {c : List (Prog σ α) × σ} {p : Prog σ α} (hp : c.1[j]? = some p) (h : Within n p)
    {schedule : List Nat} (hn : n ≤ schedule.count j) :
    ∃ a, (Runs.run (poolStep Prog.step) c schedule).1[j]? = some (.done a) := by
  induction schedule generalizing c p n with
  | nil =>
    obtain rfl : n = 0 := Nat.le_zero.1 hn
    cases p with
    | done a => exact ⟨a, hp⟩
    | atom upd next => cases h
  | cons k schedule ih =>
    rcases @poolStep_cases _ _ Prog.step c k with ⟨hk, he⟩ | ⟨q, hk, he⟩
    · have hne : k ≠ j := by
        rintro rfl
        rw [hp] at hk
        cases hk
      rw [List.count_cons_of_ne hne] at hn
      exact ih (c := poolStep Prog.step c k) (by rw [he, hp]) h hn
    · by_cases hkj : k = j
      · subst hkj
        rw [hp] at hk
        cases hk
        rw [List.count_cons_self] at hn
        have hnext : (poolStep Prog.step c k).1[k]? = some (Prog.step (p, c.2)).1 := by
          rw [he, getElem?_set_some hp]
          exact Or.inl ⟨rfl, rfl⟩
        cases p with
        | done a => exact ih hnext (within_pure (n - 1) a) (by omega)
        | atom upd next =>
          cases n with
          | zero => cases h
          | succ n => exact ih hnext (h c.2) (Nat.le_of_succ_le_succ hn)
      · rw [List.count_cons_of_ne hkj] at hn
        refine ih (c := poolStep Prog.step c k) ?_ h hn
        rw [he, getElem?_set_some hk]
        exact Or.inr ⟨Ne.symm hkj, hp⟩

end Atomic
