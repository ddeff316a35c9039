import Mathlib.Algebra.GroupWithZero.Nat
/-!
# Programs that call an outside world

A program makes calls, one after another, to a world of which nothing is known: a call `c` may be answered with any
value of its type `R c`, and the program goes on by what it was answered (`Prog`). `Steps p t q` says that `p`, with the
calls and answers of the trace `t`, comes to `q`; a program that is stopped in the middle of a run has made such steps.

What a program owes the world is kept in a ledger: `account` says how a call and its answer change it, and that
the call may not be made (`none`). `Keeps account Q p l` says of a program that from the ledger `l` on, whatever it
is answered, it makes no other calls than allowed ones and ends with `Q`; it is proved call by call (`keeps_bind`,
`keeps_mono`), and holds of every run and part of a run (`keeps_steps`).
-/
namespace Calls

inductive Prog {C : Type} (R : C → Type) (α : Type)
  | done (a : α)
  | call (c : C) (next : R c → Prog R α)

namespace Prog

variable {C : Type} {R : C → Type} {α β L : Type}

protected def bind : Prog R α → (α → Prog R β) → Prog R β
  | .done a, f => f a
  | .call c next, f => .call c fun r => (next r).bind f

instance : Monad (Prog R) where
  pure := .done
  bind := Prog.bind

/-- One call. -/
def ask (c : C) : Prog R (R c) := .call c .done

/-! ## Runs -/

/-- A call with its answer. -/
abbrev Event (R : C → Type) : Type := Σ c, R c

inductive Steps : Prog R α → List (Event R) → Prog R α → Prop
  | refl (p) : Steps p [] p
  | call {c next r t q} : Steps (next r) t q → Steps (.call c next) (⟨c, r⟩ :: t) q

/-- The run in a world that answers by what it was asked before. -/
def exec (world : List (Event R) → (c : C) → R c) : List (Event R) → Prog R α → List (Event R) × α
  | _, .done a => ([], a)
  | past, .call c next =>
    let r := world past c
    let (t, a) := exec world (past ++ [⟨c, r⟩]) (next r)
    (⟨c, r⟩ :: t, a)

theorem exec_steps (world : List (Event R) → (c : C) → R c) (past : List (Event R)) (p : Prog R α) :
    p.Steps (p.exec world past).1 (.done (p.exec world past).2) := by
  induction p generalizing past with
  | done a => exact .refl _
  | call c next ih => exact .call (ih _ _)

/-! ## Ledgers -/

variable (account : L → (c : C) → R c → Option L)

/-- The ledger after a trace of allowed calls. -/
def settle : L → List (Event R) → Option L
  | l, [] => some l
  | l, e :: t => (account l e.1 e.2).bind fun l' => settle l' t

/-- Every call is allowed, and at the end `Q` holds. -/
def Keeps (Q : α → L → Prop) : Prog R α → L → Prop
  | .done a, l => Q a l
  | .call c next, l => ∀ r, ∃ l', account l c r = some l' ∧ (next r).Keeps Q l'

variable {account} {Q : α → L → Prop}

theorem keeps_bind {Q : β → L → Prop} {p : Prog R α} {f : α → Prog R β} {l : L}
    (h : p.Keeps account (fun a l => (f a).Keeps account Q l) l) : (p >>= f).Keeps account Q l := by
  induction p generalizing l with
  | done a => exact h
  | call c next ih =>
    intro r
    obtain ⟨l', hl', hnext⟩ := h r
    exact ⟨l', hl', ih r hnext⟩

theorem keeps_mono {Q' : α → L → Prop} {p : Prog R α} {l : L} (h : p.Keeps account Q l) (hq : ∀ a l, Q a l → Q' a l) :
    p.Keeps account Q' l := by
  induction p generalizing l with
  | done a => exact hq a l h
  | call c next ih =>
    intro r
    obtain ⟨l', hl', hnext⟩ := h r
    exact ⟨l', hl', ih r hnext⟩

/-- **Sound**: of every part of a run, the calls have been allowed, and the rest is kept from the ledger they lead to. -/
theorem keeps_steps {p q : Prog R α} {t : List (Event R)} (hs : p.Steps t q) {l : L} (h : p.Keeps account Q l) :
    ∃ l', settle account l t = some l' ∧ q.Keeps account Q l' := by
  induction hs generalizing l with
  | refl p => exact ⟨l, rfl, h⟩
  | @call c next r t q _ ih =>
    obtain ⟨l₁, hl₁, hnext⟩ := h r
    obtain ⟨l', hl', hq⟩ := ih hnext
    exact ⟨l', by rw [settle, hl₁, Option.bind_some, hl'], hq⟩

/-- **What allowed calls keep**, and what every one of them satisfies. -/
theorem settle_keeps {I : L → Prop} {P : (c : C) → R c → Prop}
    (hstep : ∀ l c r l', I l → account l c r = some l' → I l' ∧ P c r) {l l' : L} {t : List (Event R)} (h : I l)
    (ht : settle account l t = some l') : I l' ∧ ∀ e ∈ t, P e.1 e.2 := by
  induction t generalizing l with
  | nil =>
    cases ht
    exact ⟨h, fun e he => absurd he List.not_mem_nil⟩
  | cons e t ih =>
    obtain ⟨l₁, hl₁, hrest⟩ := Option.bind_eq_some_iff.1 ht
    obtain ⟨h₁, he⟩ := hstep l e.1 e.2 l₁ h hl₁
    obtain ⟨h', hall⟩ := ih h₁ hrest
    exact ⟨h', List.forall_mem_cons.2 ⟨he, hall⟩⟩

/-- **Balance**: what is taken is what is returned and what is held at the end, where it is so call by call. -/
theorem settle_balance {taken returned : (c : C) → R c → Nat} {held : L → Nat}
    (hstep : ∀ l c r l', account l c r = some l' → taken c r + held l = returned c r + held l') {l l' : L}
    {t : List (Event R)} (ht : settle account l t = some l') :
    (t.map fun e => taken e.1 e.2).sum + held l = (t.map fun e => returned e.1 e.2).sum + held l' := by
  induction t generalizing l with
  | nil =>
    cases ht
    rfl
  | cons e t ih =>
    obtain ⟨l₁, hl₁, hrest⟩ := Option.bind_eq_some_iff.1 ht
    have he := hstep l e.1 e.2 l₁ hl₁
    have ih := ih hrest
    simp only [List.map_cons, List.sum_cons]
    omega

end Prog

end Calls
