import Microseg.Lib.Atomic
import Microseg.Lib.Runs
import Microseg.Lib.SlotArray
/-!
# Racing for slots

Clients that each store one entry in a slot array, side by side, with nothing but atomic reads and writes:
a client reads one slot after another until it finds one that is free or has its key, and then writes there.
Between the read and the write another client may have taken the slot. Occupied slots of the start are safe
(`Sound.kept`), and a placed entry is lost exactly when a client writes a slot that is no longer free
(`noneLost_iff`).
-/
namespace SlotRace
open KernelMap SlotArray Atomic Runs

variable {α κ : Type} {n : Nat} {L : Layout α κ}

/-- How far a client has come: the slot it reads next, the slot it writes next, or the end. -/
inductive Stage where
  | reading (i : Nat)
  | writing (i : Nat)
  | placed
deriving DecidableEq

structure Client (α : Type) where
  entry : α
  stage : Stage

/-- The clients and the array they share. -/
abbrev Race (α : Type) (n : Nat) := List (Client α) × ArrayMap α n

def start (xs : List α) : List (Client α) := xs.map fun x => ⟨x, .reading 0⟩

/-! ## What a race keeps -/

/-- What holds of every state of a race that started on the array `m₀`. -/
structure Sound (L : Layout α κ) (m₀ : ArrayMap α n) (c : Race α n) : Prop where
  inj : ∀ {j j' : Nat} {l l' : Client α}, c.1[j]? = some l → c.1[j']? = some l' → L.key l.entry = L.key l'.entry → j = j'
  used : ∀ {j : Nat} {l : Client α}, c.1[j]? = some l → L.key l.entry ≠ L.free
  /-- A client that has not written has no slot. -/
  waiting : ∀ {j : Nat} {l : Client α}, c.1[j]? = some l → l.stage ≠ .placed → ∀ i y, c.2.lookup i = some y →
    L.key y ≠ L.key l.entry
  unique : ∀ {j : Nat} {l : Client α}, c.1[j]? = some l → ∀ {i i' : Nat}, c.2.lookup i = some l.entry →
    c.2.lookup i' = some l.entry → i = i'
  /-- A client writes a slot that was free at the start. -/
  target : ∀ {j : Nat} {l : Client α}, c.1[j]? = some l → ∀ {i : Nat}, l.stage = .writing i → ∀ y, m₀.lookup i = some y →
    L.key y = L.free
  kept : ∀ {i : Nat} {y : α}, m₀.lookup i = some y → L.key y ≠ L.free → c.2.lookup i = some y
  origin : ∀ {i : Nat} {y : α}, c.2.lookup i = some y → L.key y ≠ L.free → m₀.lookup i = some y ∨
    ∃ j : Nat, c.1[j]? = some ⟨y, .placed⟩

/-- Every placed entry is in a slot. -/
def NoneLost (c : Race α n) : Prop :=
  ∀ (j : Nat) (l : Client α), c.1[j]? = some l → l.stage = .placed → ∃ i, c.2.lookup i = some l.entry

/-- If client `k` writes next, the slot is free. -/
def WritesFree (L : Layout α κ) (c : Race α n) (k : Nat) : Prop :=
  ∀ l i y, c.1[k]? = some l → l.stage = .writing i → c.2.lookup i = some y → L.key y = L.free

theorem getElem?_start {xs : List α} {j : Nat} {l : Client α} (h : (start xs)[j]? = some l) :
    xs[j]? = some l.entry ∧ l.stage = .reading 0 := by
  rw [start, List.getElem?_map] at h
  obtain ⟨x, hx, rfl⟩ := Option.map_eq_some_iff.1 h
  exact ⟨hx, rfl⟩

theorem sound_start {m₀ : ArrayMap α n} {xs : List α} (hnodup : (xs.map L.key).Nodup)
    (hused : ∀ x ∈ xs, L.key x ≠ L.free) (hnew : ∀ x ∈ xs, ∀ i y, m₀.lookup i = some y → L.key y ≠ L.key x) :
    Sound L m₀ (start xs, m₀) where
  inj {j j' l l'} h h' hkey := by
    have hj := (getElem?_start h).1
    have hj' := (getElem?_start h').1
    have hlt : j < (xs.map L.key).length := by
      rw [List.length_map]; exact (List.getElem?_eq_some_iff.1 hj).1
    refine (List.getElem?_inj hlt hnodup).1 ?_
    rw [List.getElem?_map, List.getElem?_map, hj, hj', Option.map_some, Option.map_some, hkey]
  used h := hused _ (List.mem_of_getElem? (getElem?_start h).1)
  waiting h _ := hnew _ (List.mem_of_getElem? (getElem?_start h).1)
  unique h i i' hi _ := absurd rfl (hnew _ (List.mem_of_getElem? (getElem?_start h).1) i _ hi)
  target h i hst := by rw [(getElem?_start h).2] at hst; cases hst
  kept h _ := h
  origin h _ := Or.inl h

section Step

variable {m₀ : ArrayMap α n} {c : Race α n} {k : Nat} {l : Client α}

/-- A client keeps its entry when it moves. -/
theorem entry_set (hk : c.1[k]? = some l) {st : Stage} {j : Nat} {x : Client α}
    (hx : (c.1.set k ⟨l.entry, st⟩)[j]? = some x) : ∃ y, c.1[j]? = some y ∧ y.entry = x.entry := by
  rcases (getElem?_set_some hk).1 hx with ⟨rfl, rfl⟩ | ⟨_, hx⟩
  · exact ⟨l, hk, rfl⟩
  · exact ⟨x, hx, rfl⟩

theorem Sound.inj_set (h : Sound L m₀ c) (hk : c.1[k]? = some l) {st : Stage} {j j' : Nat} {x x' : Client α}
    (hx : (c.1.set k ⟨l.entry, st⟩)[j]? = some x) (hx' : (c.1.set k ⟨l.entry, st⟩)[j']? = some x')
    (hkey : L.key x.entry = L.key x'.entry) : j = j' := by
  obtain ⟨y, hy, he⟩ := entry_set hk hx
  obtain ⟨y', hy', he'⟩ := entry_set hk hx'
  exact h.inj hy hy' (by rw [he, he', hkey])

theorem Sound.used_set (h : Sound L m₀ c) (hk : c.1[k]? = some l) {st : Stage} {j : Nat} {x : Client α}
    (hx : (c.1.set k ⟨l.entry, st⟩)[j]? = some x) : L.key x.entry ≠ L.free := by
  obtain ⟨y, hy, he⟩ := entry_set hk hx
  exact he ▸ h.used hy

/-- A client that only moves on. -/
theorem sound_quiet (h : Sound L m₀ c) (hk : c.1[k]? = some l) {st : Stage} (hplaced : st = .placed ↔ l.stage = .placed)
    (hfit : ∀ i, st = .writing i → l.stage = .writing i ∨
      ∃ y, c.2.lookup i = some y ∧ (L.key y = L.free ∨ L.key y = L.key l.entry)) :
    Sound L m₀ (c.1.set k ⟨l.entry, st⟩, c.2) := by
  refine ⟨h.inj_set hk, h.used_set hk, ?_, ?_, ?_, h.kept, ?_⟩
  · intro j x hx hst
    rcases (getElem?_set_some hk).1 hx with ⟨rfl, rfl⟩ | ⟨_, hx⟩
    · have hwait := h.waiting hk (mt hplaced.2 hst)
      exact hwait
    · exact h.waiting hx hst
  · intro j x hx
    obtain ⟨y, hy, he⟩ := entry_set hk hx
    exact he ▸ h.unique hy
  · intro j x hx i hst z hz
    rcases (getElem?_set_some hk).1 hx with ⟨rfl, rfl⟩ | ⟨_, hx⟩
    · rcases hfit i hst with hst | ⟨y, hy, hfree⟩
      · exact h.target hk hst z hz
      · -- the slot that was read is free, and so was it at the start
        by_contra hne
        have hsame : y = z := Option.some.inj (hy.symm.trans (h.kept hz hne))
        subst hsame
        have hnot : l.stage ≠ .placed := fun hp => by rw [hplaced.2 hp] at hst; cases hst
        exact hfree.elim hne (h.waiting hk hnot i y hy)
    · exact h.target hx hst z hz
  · intro i y hy hne
    rcases h.origin hy hne with h0 | ⟨j, hj⟩
    · exact Or.inl h0
    · refine Or.inr ⟨j, (getElem?_set_some hk).2 ?_⟩
      by_cases hjk : j = k
      · subst hjk
        rw [hk] at hj
        cases hj
        exact Or.inl ⟨rfl, by rw [hplaced.2 rfl]⟩
      · exact Or.inr ⟨hjk, hj⟩

/-- A client that writes. -/
theorem sound_write (h : Sound L m₀ c) (hk : c.1[k]? = some l) {i : Nat} (hst : l.stage = .writing i) {m' : ArrayMap α n}
    (hput : c.2.put i l.entry = some m') : Sound L m₀ (c.1.set k ⟨l.entry, .placed⟩, m') := by
  have hnot : l.stage ≠ .placed := fun hp => by rw [hst] at hp; cases hp
  refine ⟨h.inj_set hk, h.used_set hk, ?_, ?_, ?_, ?_, ?_⟩
  · intro j x hx hwait i' y hy
    rcases (getElem?_set_some hk).1 hx with ⟨rfl, rfl⟩ | ⟨hjk, hx⟩
    · exact absurd rfl hwait
    · rw [ArrayMap.lookup_put hput] at hy
      split at hy
      · cases hy
        exact fun hkey => hjk (h.inj hx hk hkey.symm)
      · exact h.waiting hx hwait i' y hy
  · intro j x hx i₁ i₂ h₁ h₂
    rw [ArrayMap.lookup_put hput] at h₁ h₂
    rcases (getElem?_set_some hk).1 hx with ⟨rfl, rfl⟩ | ⟨hjk, hx⟩
    · -- the entry was nowhere before
      have honly : ∀ {i' : Nat}, (if i' = i then some l.entry else c.2.lookup i') = some l.entry → i' = i := fun {i'} h' => by
        split at h'
        · assumption
        · exact absurd rfl (h.waiting hk hnot i' _ h')
      rw [honly h₁, honly h₂]
    · have hother : ∀ {i' : Nat}, (if i' = i then some l.entry else c.2.lookup i') = some x.entry →
          c.2.lookup i' = some x.entry := fun {i'} h' => by
        split at h'
        · exact absurd (h.inj hx hk (by rw [Option.some.inj h'])) hjk
        · exact h'
      exact h.unique hx (hother h₁) (hother h₂)
  · intro j x hx i' hst'
    rcases (getElem?_set_some hk).1 hx with ⟨rfl, rfl⟩ | ⟨_, hx⟩
    · cases hst'
    · exact h.target hx hst'
  · intro i' y hy hne
    rw [ArrayMap.lookup_put hput]
    split
    · next hi =>
      subst hi
      exact absurd (h.target hk hst y hy) hne
    · exact h.kept hy hne
  · intro i' y hy hne
    rw [ArrayMap.lookup_put hput] at hy
    split at hy
    · cases hy
      exact Or.inr ⟨k, (getElem?_set_some hk).2 (Or.inl ⟨rfl, rfl⟩)⟩
    · refine (h.origin hy hne).imp_right fun ⟨j, hj⟩ => ⟨j, (getElem?_set_some hk).2 (Or.inr ⟨?_, hj⟩)⟩
      rintro rfl
      rw [hk] at hj
      cases hj
      exact hnot rfl

theorem noneLost_quiet_iff (hk : c.1[k]? = some l) {st : Stage} (hplaced : st = .placed ↔ l.stage = .placed) :
    NoneLost (c.1.set k ⟨l.entry, st⟩, c.2) ↔ NoneLost c := by
  constructor
  · intro h j x hx hst
    by_cases hjk : j = k
    · subst hjk
      rw [hk] at hx
      cases hx
      exact h j ⟨l.entry, st⟩ ((getElem?_set_some hk).2 (Or.inl ⟨rfl, rfl⟩)) (hplaced.2 hst)
    · exact h j x ((getElem?_set_some hk).2 (Or.inr ⟨hjk, hx⟩)) hst
  · intro h j x hx hst
    rcases (getElem?_set_some hk).1 hx with ⟨rfl, rfl⟩ | ⟨_, hx⟩
    · exact h j l hk (hplaced.1 hst)
    · exact h j x hx hst

/-- A write keeps every placed entry iff it goes to a free slot. -/
theorem noneLost_write_iff (h : Sound L m₀ c) (hnone : NoneLost c) (hk : c.1[k]? = some l) {i : Nat}
    (hst : l.stage = .writing i) {m' : ArrayMap α n} (hput : c.2.put i l.entry = some m') :
    NoneLost (c.1.set k ⟨l.entry, .placed⟩, m') ↔ ∀ y, c.2.lookup i = some y → L.key y = L.free := by
  constructor
  · intro hafter y hy
    by_contra hne
    rcases h.origin hy hne with h0 | ⟨j, hj⟩
    · exact hne (h.target hk hst y h0)
    · -- the slot is another client's, whose entry is nowhere else
      have hjk : j ≠ k := fun he => by
        rw [he, hk] at hj
        cases hj
        cases hst
      obtain ⟨i', hi'⟩ := hafter j ⟨y, .placed⟩ ((getElem?_set_some hk).2 (Or.inr ⟨hjk, hj⟩)) rfl
      rw [ArrayMap.lookup_put hput] at hi'
      split at hi'
      · exact hjk (h.inj hj hk (by rw [Option.some.inj hi']))
      · next hi => exact hi (h.unique hj hi' hy)
  · intro hfree j x hx hplaced
    rcases (getElem?_set_some hk).1 hx with ⟨rfl, rfl⟩ | ⟨_, hx⟩
    · exact ⟨i, by rw [ArrayMap.lookup_put hput, if_pos rfl]⟩
    · obtain ⟨i', hi'⟩ := hnone j x hx hplaced
      refine ⟨i', ?_⟩
      rw [ArrayMap.lookup_put hput, if_neg ?_, hi']
      rintro rfl
      exact h.used hx (hfree _ hi')

/-- A lost entry is not found again. -/
theorem noneLost_of_write (h : Sound L m₀ c) (hk : c.1[k]? = some l) {i : Nat} (hst : l.stage = .writing i)
    {m' : ArrayMap α n} (hput : c.2.put i l.entry = some m') (hafter : NoneLost (c.1.set k ⟨l.entry, .placed⟩, m')) :
    NoneLost c := by
  intro j x hx hplaced
  have hjk : j ≠ k := fun he => by
    rw [he, hk] at hx
    cases hx
    rw [hst] at hplaced; cases hplaced
  obtain ⟨i', hi'⟩ := hafter j x ((getElem?_set_some hk).2 (Or.inr ⟨hjk, hx⟩)) hplaced
  rw [ArrayMap.lookup_put hput] at hi'
  split at hi'
  · exact absurd (h.inj hx hk (by rw [Option.some.inj hi'])) hjk
  · exact ⟨i', hi'⟩

end Step

/-! ## The race -/

section Moves

variable (L) [DecidableEq κ]

/-- The next operation of a client; one that has read every slot is stuck. -/
def move (c : Client α × ArrayMap α n) : Client α × ArrayMap α n :=
  match c.1.stage with
  | .reading i =>
    match c.2.lookup i with
    | none => c
    | some y =>
      (⟨c.1.entry, if L.key y = L.free ∨ L.key y = L.key c.1.entry then .writing i else .reading (i + 1)⟩, c.2)
  | .writing i =>
    match c.2.put i c.1.entry with
    | none => c
    | some m => (⟨c.1.entry, .placed⟩, m)
  | .placed => c

variable {L}

/-- A client moves on without a trace, or writes its entry. -/
theorem move_cases (l : Client α) (m : ArrayMap α n) :
    (∃ st, move L (l, m) = (⟨l.entry, st⟩, m) ∧ (st = .placed ↔ l.stage = .placed) ∧
      (∀ i, st = .writing i → l.stage = .writing i ∨
        ∃ y, m.lookup i = some y ∧ (L.key y = L.free ∨ L.key y = L.key l.entry)) ∧
      ∀ i, l.stage = .writing i → m.lookup i = none) ∨
    ∃ i m', l.stage = .writing i ∧ m.put i l.entry = some m' ∧ move L (l, m) = (⟨l.entry, .placed⟩, m') := by
  obtain ⟨x, st⟩ := l
  cases st with
  | reading i =>
    refine Or.inl ?_
    cases hy : m.lookup i with
    | none => exact ⟨.reading i, by simp only [move, hy], Iff.rfl, fun _ => Or.inl, fun j h => by cases h⟩
    | some y =>
      refine ⟨if L.key y = L.free ∨ L.key y = L.key x then .writing i else .reading (i + 1), by simp only [move, hy], ?_,
        fun j h => ?_, fun j h => by cases h⟩
      · refine iff_of_false (fun h => ?_) Stage.noConfusion
        split at h <;> cases h
      · split at h
        · next hfit => cases h; exact Or.inr ⟨y, hy, hfit⟩
        · cases h
  | writing i =>
    cases hm : m.put i x with
    | none =>
      refine Or.inl ⟨.writing i, by simp only [move, hm], Iff.rfl, fun j h => Or.inl h, fun j h => ?_⟩
      cases h
      rw [← Option.not_isSome_iff_eq_none, ArrayMap.lookup_isSome, ← ArrayMap.put_isSome (v := x), hm]
      exact Bool.false_ne_true
    | some m' => exact Or.inr ⟨i, m', rfl, hm, by simp only [move, hm]⟩
  | placed => exact Or.inl ⟨.placed, rfl, Iff.rfl, fun j h => Or.inl h, fun j h => by cases h⟩

variable {m₀ : ArrayMap α n} {c : Race α n}

theorem sound_step (h : Sound L m₀ c) (k : Nat) : Sound L m₀ (poolStep (move L) c k) := by
  rcases poolStep_cases c k with ⟨_, he⟩ | ⟨l, hk, he⟩
  · rw [he]; exact h
  · rcases move_cases (L := L) l c.2 with ⟨st, hmove, hplaced, hfit, _⟩ | ⟨i, m', hst, hput, hmove⟩
    · rw [he, hmove]
      exact sound_quiet h hk hplaced hfit
    · rw [he, hmove]
      exact sound_write h hk hst hput

/-- **One step** keeps every placed entry iff it writes no slot that is taken. -/
theorem noneLost_step_iff (h : Sound L m₀ c) (hnone : NoneLost c) (k : Nat) :
    NoneLost (poolStep (move L) c k) ↔ WritesFree L c k := by
  rcases poolStep_cases c k with ⟨hk, he⟩ | ⟨l, hk, he⟩
  · rw [he]
    exact iff_of_true hnone fun l i y hl => by rw [hk] at hl; cases hl
  · have honly : ∀ {l' : Client α}, c.1[k]? = some l' → l' = l := fun hl => Option.some.inj (hl.symm.trans hk)
    rcases move_cases (L := L) l c.2 with ⟨st, hmove, hplaced, _, hout⟩ | ⟨i, m', hst, hput, hmove⟩
    · rw [he, hmove, noneLost_quiet_iff hk hplaced]
      refine iff_of_true hnone fun l' i y hl hst hy => ?_
      rw [hout i (honly hl ▸ hst)] at hy; cases hy
    · rw [he, hmove, noneLost_write_iff h hnone hk hst hput]
      constructor
      · intro hfree l' i' y hl hst' hy
        rw [honly hl, hst] at hst'
        cases hst'
        exact hfree y hy
      · exact fun hfree y => hfree l i y hk hst

theorem noneLost_of_step (h : Sound L m₀ c) (k : Nat) (hafter : NoneLost (poolStep (move L) c k)) : NoneLost c := by
  rcases poolStep_cases c k with ⟨_, he⟩ | ⟨l, hk, he⟩
  · rwa [he] at hafter
  · rcases move_cases (L := L) l c.2 with ⟨st, hmove, hplaced, _⟩ | ⟨i, m', hst, hput, hmove⟩
    · rw [he, hmove] at hafter
      exact (noneLost_quiet_iff hk hplaced).1 hafter
    · rw [he, hmove] at hafter
      exact noneLost_of_write h hk hst hput hafter

theorem sound_run (h : Sound L m₀ c) (moves : List Nat) : Sound L m₀ (run (poolStep (move L)) c moves) :=
  run_keeps (I := Sound L m₀) (E := fun _ => True) (fun _ k h _ => sound_step h k) h fun _ _ => trivial

/-- Clients keep their entries. -/
theorem entries_run (c : Race α n) (moves : List Nat) :
    (run (poolStep (move L)) c moves).1.map Client.entry = c.1.map Client.entry := by
  refine run_keeps (I := fun d : Race α n => d.1.map Client.entry = c.1.map Client.entry) (E := fun _ => True) (fun d k h _ => ?_) rfl
    fun _ _ => trivial
  rcases @poolStep_cases _ _ (move L) d k with ⟨_, he⟩ | ⟨l, hk, he⟩
  · rw [he, h]
  · have hentry : (move L (l, d.2)).1.entry = l.entry := by
      rcases move_cases (L := L) l d.2 with ⟨st, hmove, _⟩ | ⟨i, m', _, _, hmove⟩ <;> rw [hmove]
    have hlt : k < d.1.length := (List.getElem?_eq_some_iff.1 hk).1
    rw [he, ← h, List.map_set, hentry]
    refine List.ext_getElem? fun j => ?_
    rw [List.getElem?_set, List.getElem?_map]
    split
    · next hkj => subst hkj; rw [hk]; simp [hlt]
    · rfl

/-- Once every client has written, nothing is lost iff every entry is in a slot. -/
theorem noneLost_iff_present (hall : ∀ l ∈ c.1, l.stage = .placed) :
    NoneLost c ↔ ∀ x ∈ c.1.map Client.entry, ∃ i, c.2.lookup i = some x := by
  constructor
  · intro h x hx
    obtain ⟨l, hl, rfl⟩ := List.mem_map.1 hx
    obtain ⟨j, hj⟩ := List.mem_iff_getElem?.1 hl
    exact h j l hj (hall l hl)
  · exact fun h j l hj _ => h l.entry (List.mem_map_of_mem (List.mem_of_getElem? hj))

/-- **The race loses nothing** iff no client ever writes a slot that another has taken since it was read. -/
theorem noneLost_iff {xs : List α} (h : Sound L m₀ (start xs, m₀)) {moves : List Nat} :
    NoneLost (run (poolStep (move L)) (start xs, m₀) moves) ↔
      ∀ pre k post, moves = pre ++ k :: post → WritesFree L (run (poolStep (move L)) (start xs, m₀) pre) k := by
  have hnone : NoneLost (start xs, m₀) := fun j l hl hplaced => by rw [(getElem?_start hl).2] at hplaced; cases hplaced
  have htrue : ∀ k ∈ moves, True := fun _ _ => trivial
  have hsound : ∀ c k, Sound L m₀ c → True → Sound L m₀ (poolStep (move L) c k) := fun _ k h _ => sound_step h k
  rw [last_iff_throughout hsound (fun _ k h _ => noneLost_of_step h k) h htrue]
  exact throughout_iff hsound (fun _ k h _ hn => noneLost_step_iff h hn k) h hnone htrue

end Moves

end SlotRace
