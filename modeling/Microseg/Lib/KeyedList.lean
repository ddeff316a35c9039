import Mathlib.Data.List.Basic
import Mathlib.Data.List.Forall2
import Mathlib.Data.List.MinMax
import Mathlib.Data.List.Nodup
/-!
# Lists with one element per key

`upsert key x l` replaces the element of `x`'s key where it stands, or appends `x` when the key is
new: the insert-or-update of a keyed table, and the "same slot or first free slot" rule of an array.
`Nodup (l.map key)` is the invariant; `getElem?_upsert` gives every position of the result, so an
array can be compared with the list slot by slot. `upsertWith` makes the new element from the old one
instead. The element of the largest key does not depend on the order of the list (`argmax_perm`).
-/
namespace KeyedList

variable {α κ : Type} [DecidableEq κ]

def upsert (key : α → κ) (x : α) : List α → List α
  | [] => [x]
  | y :: ys => if key y = key x then x :: ys else y :: upsert key x ys

/-- The element of `x`'s key becomes what `f` makes of it; a new key is appended with `x`. -/
def upsertWith (key : α → κ) (x : α) (f : α → α) : List α → List α
  | [] => [x]
  | y :: ys => if key y = key x then f y :: ys else y :: upsertWith key x f ys

theorem upsert_eq_upsertWith (key : α → κ) (x : α) (l : List α) : upsert key x l = upsertWith key x (fun _ => x) l := by
  induction l with
  | nil => rfl
  | cons y ys ih => rw [upsert, upsertWith, ih]

/-- Where `upsert` writes: the first position of the key, or the end. -/
def position (key : α → κ) (k : κ) (l : List α) : Nat := l.findIdx fun y => key y = k

theorem position_le (key : α → κ) (k : κ) (l : List α) : position key k l ≤ l.length :=
  List.findIdx_le_length

theorem position_lt_iff {key : α → κ} {k : κ} {l : List α} :
    position key k l < l.length ↔ k ∈ l.map key := by
  simp [position, List.findIdx_lt_length]

theorem position_eq_length {key : α → κ} {k : κ} {l : List α} (h : k ∉ l.map key) :
    position key k l = l.length := by
  have h1 := position_le key k l
  have h2 := mt position_lt_iff.1 h
  omega

theorem key_position {key : α → κ} {k : κ} {l : List α} {y : α} (h : l[position key k l]? = some y) :
    key y = k := by
  obtain ⟨hl, rfl⟩ := List.getElem?_eq_some_iff.1 h
  exact of_decide_eq_true (List.findIdx_getElem (w := hl))

/-- An element stands at the position of its key. -/
theorem position_of_getElem? {key : α → κ} {l : List α} (hn : (l.map key).Nodup) {i : Nat} {x : α} (h : l[i]? = some x) :
    position key (key x) l = i := by
  have hi : i < l.length := (List.getElem?_eq_some_iff.1 h).1
  have hp : position key (key x) l < l.length := position_lt_iff.2 (List.mem_map_of_mem (List.mem_of_getElem? h))
  have hkey : key (l[position key (key x) l]) = key x := key_position (List.getElem?_eq_getElem hp)
  have hmap : (l.map key)[i]? = (l.map key)[position key (key x) l]? := by
    rw [List.getElem?_map, List.getElem?_map, h, List.getElem?_eq_getElem hp, Option.map_some, Option.map_some, hkey]
  exact ((List.getElem?_inj (by rwa [List.length_map]) hn).1 hmap).symm

theorem upsert_new {key : α → κ} {x : α} {l : List α} (h : key x ∉ l.map key) : upsert key x l = l ++ [x] := by
  induction l with
  | nil => rfl
  | cons y ys ih =>
    simp only [List.map_cons, List.mem_cons, not_or] at h
    rw [upsert, if_neg (Ne.symm h.1), ih h.2]; rfl

theorem getElem?_upsert {key : α → κ} {x : α} (l : List α) (i : Nat) :
    (upsert key x l)[i]? = if i = position key (key x) l then some x else l[i]? := by
  induction l generalizing i with
  | nil => cases i <;> simp [upsert, position]
  | cons y ys ih =>
    by_cases h : key y = key x
    · cases i <;> simp [upsert, position, h, List.findIdx_cons]
    · have hp : position key (key x) (y :: ys) = position key (key x) ys + 1 := by
        simp [position, List.findIdx_cons, h]
      cases i with
      | zero => simp [upsert, h, hp]
      | succ i => simp [upsert, h, hp, ih]

theorem map_key_upsertWith {key : α → κ} {x : α} {f : α → α} (hf : ∀ y, key y = key x → key (f y) = key x) (l : List α) :
    (upsertWith key x f l).map key = if key x ∈ l.map key then l.map key else l.map key ++ [key x] := by
  induction l with
  | nil => simp [upsertWith]
  | cons y ys ih =>
    by_cases h : key y = key x
    · simp [upsertWith, h, hf y h]
    · have h' : key x ≠ key y := Ne.symm h
      simp only [upsertWith, h, ↓reduceIte, List.map_cons, ih, List.mem_cons, h', false_or]
      split <;> rfl

theorem nodup_upsertWith {key : α → κ} {x : α} {f : α → α} (hf : ∀ y, key y = key x → key (f y) = key x) {l : List α}
    (h : (l.map key).Nodup) : ((upsertWith key x f l).map key).Nodup := by
  rw [map_key_upsertWith hf]
  split
  · exact h
  · next hx => exact List.nodup_append.2 ⟨h, by simp, by simpa using fun a ha e => hx (by simpa [e] using ⟨a, ha, e⟩)⟩

theorem map_key_upsert {key : α → κ} {x : α} (l : List α) :
    (upsert key x l).map key = if key x ∈ l.map key then l.map key else l.map key ++ [key x] := by
  rw [upsert_eq_upsertWith]
  exact map_key_upsertWith (fun _ _ => rfl) l

theorem nodup_upsert {key : α → κ} {x : α} {l : List α} (h : (l.map key).Nodup) :
    ((upsert key x l).map key).Nodup := by
  rw [upsert_eq_upsertWith]
  exact nodup_upsertWith (fun _ _ => rfl) h

/-- Element by element, an update in place is an `upsert` if it is one on the element of the key. -/
theorem forall₂_upsertWith {β κ' : Type} [DecidableEq κ'] {R : α → β → Prop} {key : α → κ} {key' : β → κ'} {x : α} {y : β}
    {f : α → α} (hkey : ∀ a b, R a b → (key a = key x ↔ key' b = key' y)) (hx : R x y)
    (hf : ∀ a b, R a b → key a = key x → R (f a) y) {l : List α} {l' : List β} (h : List.Forall₂ R l l') :
    List.Forall₂ R (upsertWith key x f l) (upsert key' y l') := by
  induction h with
  | nil => exact .cons hx .nil
  | @cons a b l l' hab hrest ih =>
    rw [upsertWith, upsert]
    by_cases ha : key a = key x
    · rw [if_pos ha, if_pos ((hkey a b hab).1 ha)]
      exact .cons (hf a b hab ha) hrest
    · rw [if_neg ha, if_neg fun hb => ha ((hkey a b hab).2 hb)]
      exact .cons hab ih

/-- Whatever the keys, `upsert` adds nothing but its argument. -/
theorem mem_of_mem_upsert {key : α → κ} {x z : α} {l : List α} (h : z ∈ upsert key x l) : z = x ∨ z ∈ l := by
  induction l with
  | nil => exact Or.inl (List.mem_singleton.1 h)
  | cons y ys ih =>
    unfold upsert at h
    split at h
    · exact (List.mem_cons.1 h).imp_right fun hz => List.mem_cons_of_mem _ hz
    · rcases List.mem_cons.1 h with rfl | hz
      · exact Or.inr (by simp)
      · exact (ih hz).imp_right fun hz => List.mem_cons_of_mem _ hz

theorem mem_upsert {key : α → κ} {x z : α} {l : List α} (h : (l.map key).Nodup) :
    z ∈ upsert key x l ↔ z = x ∨ (z ∈ l ∧ key z ≠ key x) := by
  induction l with
  | nil => simp [upsert]
  | cons y ys ih =>
    simp only [List.map_cons, List.nodup_cons] at h
    have ih := ih h.2
    by_cases hk : key y = key x
    · have hys : z ∈ ys → key z ≠ key x := fun hz e => h.1 (by rw [hk, ← e]; exact List.mem_map_of_mem hz)
      simp only [upsert, hk, ↓reduceIte, List.mem_cons]
      constructor
      · rintro (rfl | hz)
        · exact Or.inl rfl
        · exact Or.inr ⟨Or.inr hz, hys hz⟩
      · rintro (rfl | ⟨rfl | hz, hne⟩)
        · exact Or.inl rfl
        · exact absurd hk hne
        · exact Or.inr hz
    · simp only [upsert, hk, ↓reduceIte, List.mem_cons, ih]
      constructor
      · rintro (rfl | rfl | ⟨hz, hne⟩)
        · exact Or.inr ⟨Or.inl rfl, hk⟩
        · exact Or.inl rfl
        · exact Or.inr ⟨Or.inr hz, hne⟩
      · rintro (rfl | ⟨rfl | hz, hne⟩)
        · exact Or.inr (Or.inl rfl)
        · exact Or.inl rfl
        · exact Or.inr (Or.inr ⟨hz, hne⟩)

/-- The elements of the other keys stay, in their order. -/
theorem filter_upsert {key : α → κ} {x : α} (l : List α) :
    (upsert key x l).filter (fun y => key y ≠ key x) = l.filter fun y => key y ≠ key x := by
  induction l with
  | nil => simp [upsert]
  | cons y ys ih =>
    unfold upsert
    split
    · next h => simp [h]
    · next h =>
      simp only [List.filter_cons, h, ne_eq, not_false_eq_true, decide_true, ↓reduceIte]
      exact congrArg (y :: ·) ih

theorem length_upsert_le (key : α → κ) (x : α) (l : List α) : (upsert key x l).length ≤ l.length + 1 := by
  induction l with
  | nil => simp [upsert]
  | cons y ys ih =>
    unfold upsert
    split
    · simp
    · simp only [List.length_cons]; omega

/-- With one element per key, the element of the largest key is the same in any order. -/
theorem argmax_perm {α κ : Type} [LinearOrder κ] {key : α → κ} {l l' : List α} (h : l.Perm l') (hn : (l.map key).Nodup) :
    l.argmax key = l'.argmax key := by
  cases hl : l.argmax key with
  | none =>
    rw [List.argmax_eq_none] at hl
    subst hl
    rw [h.nil_eq.symm]; rfl
  | some x =>
    cases hl' : l'.argmax key with
    | none =>
      rw [List.argmax_eq_none] at hl'
      subst hl'
      rw [h.eq_nil] at hl; cases hl
    | some y =>
      have hx : x ∈ l := List.argmax_mem hl
      have hy : y ∈ l := h.mem_iff.2 (List.argmax_mem hl')
      have hxy : key x ≤ key y := List.le_of_mem_argmax (h.mem_iff.1 hx) hl'
      have hyx : key y ≤ key x := List.le_of_mem_argmax hy hl
      rw [List.inj_on_of_nodup_map hn hx hy (le_antisymm hxy hyx)]

end KeyedList
