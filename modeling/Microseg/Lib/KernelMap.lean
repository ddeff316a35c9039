import Mathlib.Algebra.BigOperators.Group.Finset.Basic
import Mathlib.Data.Finmap
/-!
# Kernel maps: bounded hash maps and arrays

`HashMap κ ν cap` is a finite map that never holds more than `cap` keys: the bound is a field, so
every map that can be built respects it. Its operations are those a map in the kernel offers: an
insert-or-overwrite that fails only when a new key finds no room (`put`), an insert that refuses an
existing key (`putNew`), a delete that fails on an absent key (`delete`), and an update in place
through the pointer a lookup returned (`modify`). `ArrayMap ν n` is a preallocated array: every slot
always holds a value, and only an index out of range fails.

Both are extensional: two maps with the same lookups are equal. `HashMap.sum` adds up something over the
values of a hash map; a change at one key moves it by the difference there (`sum_off`).
-/
namespace KernelMap

/-! ## Hash maps -/

structure HashMap (κ ν : Type) (cap : Nat) where
  entries : Finmap fun _ : κ => ν
  card_le : entries.keys.card ≤ cap

theorem keys_insert {κ ν : Type} [DecidableEq κ] (k : κ) (v : ν) (s : Finmap fun _ : κ => ν) :
    (s.insert k v).keys = insert k s.keys := by
  ext x
  simp [Finmap.mem_keys, Finmap.mem_insert]

namespace HashMap

variable {κ ν : Type} [DecidableEq κ] {cap : Nat}

def empty : HashMap κ ν cap := ⟨∅, by simp⟩

def lookup (m : HashMap κ ν cap) (k : κ) : Option ν := m.entries.lookup k

def size (m : HashMap κ ν cap) : Nat := m.entries.keys.card

/-- A new key needs room, an existing one is overwritten; `none` is the full map's error. -/
def put (m : HashMap κ ν cap) (k : κ) (v : ν) : Option (HashMap κ ν cap) :=
  if h : k ∈ m.entries.keys ∨ m.size < cap then
    some ⟨m.entries.insert k v, by
      rw [keys_insert]
      rcases h with h | h
      · rw [Finset.insert_eq_of_mem h]; exact m.card_le
      · exact (Finset.card_insert_le _ _).trans h⟩
  else none

/-- Insert that refuses an existing key. -/
def putNew (m : HashMap κ ν cap) (k : κ) (v : ν) : Option (HashMap κ ν cap) :=
  if (m.lookup k).isSome then none else m.put k v

def erase (m : HashMap κ ν cap) (k : κ) : HashMap κ ν cap :=
  ⟨m.entries.erase k, by rw [Finmap.keys_erase]; exact (Finset.card_erase_le).trans m.card_le⟩

/-- `none` is the error for an absent key. -/
def delete (m : HashMap κ ν cap) (k : κ) : Option (HashMap κ ν cap) :=
  if (m.lookup k).isSome then some (m.erase k) else none

/-- Write through the pointer returned by a lookup of `k`. -/
def modify (m : HashMap κ ν cap) (k : κ) (f : ν → ν) : HashMap κ ν cap :=
  match h : m.entries.lookup k with
  | none => m
  | some v => ⟨m.entries.insert k (f v), by
      have hk : k ∈ m.entries.keys := Finmap.mem_keys.2 (Finmap.mem_of_lookup_eq_some h)
      rw [keys_insert, Finset.insert_eq_of_mem hk]; exact m.card_le⟩

theorem ext_lookup {m m' : HashMap κ ν cap} (h : ∀ k, m.lookup k = m'.lookup k) : m = m' := by
  obtain ⟨e, _⟩ := m
  obtain ⟨e', _⟩ := m'
  have he : e = e' := Finmap.ext_lookup h
  subst he; rfl

@[simp] theorem lookup_empty (k : κ) : (empty : HashMap κ ν cap).lookup k = none := Finmap.lookup_empty k

theorem mem_keys_iff (m : HashMap κ ν cap) (k : κ) : k ∈ m.entries.keys ↔ (m.lookup k).isSome := by
  rw [Finmap.mem_keys, lookup, Finmap.lookup_isSome]

theorem lookup_put {m m' : HashMap κ ν cap} {k : κ} {v : ν} (h : m.put k v = some m') (x : κ) :
    m'.lookup x = if x = k then some v else m.lookup x := by
  unfold put at h
  split at h
  · cases h
    by_cases hx : x = k
    · subst hx; simp [lookup]
    · simp [lookup, hx, Finmap.lookup_insert_of_ne _ hx]
  · cases h

/-- A `put` succeeds exactly when the key is there or there is room. -/
theorem put_isSome {m : HashMap κ ν cap} {k : κ} {v : ν} :
    (m.put k v).isSome ↔ (m.lookup k).isSome ∨ m.size < cap := by
  unfold put
  rw [← mem_keys_iff]
  split <;> rename_i h <;> simp [h]

theorem exists_put {m : HashMap κ ν cap} {k : κ} (h : (m.lookup k).isSome ∨ m.size < cap) (v : ν) :
    ∃ m', m.put k v = some m' :=
  Option.isSome_iff_exists.1 (put_isSome.2 h)

theorem putNew_eq_some {m m' : HashMap κ ν cap} {k : κ} {v : ν} :
    m.putNew k v = some m' ↔ m.lookup k = none ∧ m.put k v = some m' := by
  unfold putNew
  cases h : m.lookup k <;> simp

theorem lookup_erase (m : HashMap κ ν cap) (k x : κ) :
    (m.erase k).lookup x = if x = k then none else m.lookup x := by
  by_cases hx : x = k
  · subst hx; simp [lookup, erase]
  · simp [lookup, erase, hx, Finmap.lookup_erase_ne hx]

theorem erase_of_lookup_none {m : HashMap κ ν cap} {k : κ} (h : m.lookup k = none) : m.erase k = m := by
  apply ext_lookup
  intro x
  rw [lookup_erase]
  split
  · next hx => rw [hx, h]
  · rfl

/-- Erasing a key makes room. -/
theorem size_erase_lt {m : HashMap κ ν cap} {k : κ} (h : (m.lookup k).isSome) :
    (m.erase k).size < m.size := by
  have hk : k ∈ m.entries.keys := (mem_keys_iff m k).2 h
  have hkeys : (m.erase k).entries.keys = m.entries.keys.erase k := Finmap.keys_erase k m.entries
  rw [size, size, hkeys]
  exact Finset.card_erase_lt_of_mem hk

/-- A key may leave the map before it comes back. -/
theorem put_erase {m : HashMap κ ν cap} {k : κ} (h : (m.lookup k).isSome) (v : ν) : (m.erase k).put k v = m.put k v := by
  have hroom : (m.erase k).size < cap := (size_erase_lt h).trans_le m.card_le
  obtain ⟨x, hx⟩ := exists_put (Or.inr hroom) v
  obtain ⟨y, hy⟩ := exists_put (m := m) (Or.inl h) v
  rw [hx, hy]
  congr 1
  apply ext_lookup
  intro j
  rw [lookup_put hx, lookup_put hy, lookup_erase]
  split <;> rfl

theorem lookup_modify (m : HashMap κ ν cap) (k x : κ) (f : ν → ν) :
    (m.modify k f).lookup x = if x = k then (m.lookup k).map f else m.lookup x := by
  unfold modify
  split
  · next h =>
    have hk : m.lookup k = none := h
    split
    · next hx => rw [hx, hk]; rfl
    · rfl
  · next v h =>
    have hk : m.lookup k = some v := h
    by_cases hx : x = k
    · subst hx; simp [hk]; simp [lookup]
    · simp [hx, lookup, Finmap.lookup_insert_of_ne _ hx]

/-- Only the value that is there matters. -/
theorem modify_congr {m : HashMap κ ν cap} {k : κ} {v : ν} {f g : ν → ν} (h : m.lookup k = some v) (hfg : f v = g v) :
    m.modify k f = m.modify k g := by
  apply ext_lookup
  intro x
  rw [lookup_modify, lookup_modify, h, Option.map_some, Option.map_some, hfg]

/-- Two writes through one pointer. -/
theorem modify_modify (m : HashMap κ ν cap) (k : κ) (f g : ν → ν) :
    (m.modify k f).modify k g = m.modify k (g ∘ f) := by
  apply ext_lookup
  intro x
  rw [lookup_modify, lookup_modify, lookup_modify, lookup_modify, if_pos rfl, Option.map_map]
  split <;> rfl

theorem lookup_modify_isSome (m : HashMap κ ν cap) (k x : κ) (f : ν → ν) :
    ((m.modify k f).lookup x).isSome = (m.lookup x).isSome := by
  rw [lookup_modify]
  split
  · next hx => rw [hx, Option.isSome_map]
  · rfl

theorem size_modify (m : HashMap κ ν cap) (k : κ) (f : ν → ν) : (m.modify k f).size = m.size := by
  have hkeys : (m.modify k f).entries.keys = m.entries.keys := by
    ext x
    rw [mem_keys_iff, mem_keys_iff, lookup_modify_isSome]
  rw [size, size, hkeys]

/-- An insert of a new key adds one. -/
theorem size_putNew {m m' : HashMap κ ν cap} {k : κ} {v : ν} (h : m.putNew k v = some m') : m'.size = m.size + 1 := by
  obtain ⟨hk, hput⟩ := putNew_eq_some.1 h
  have hk' : k ∉ m.entries.keys := by
    rw [mem_keys_iff, hk]
    exact Bool.false_ne_true
  unfold put at hput
  split at hput
  · cases hput
    rw [size, size, keys_insert, Finset.card_insert_of_notMem hk']
  · cases hput

/-- Adding a new key and deleting it again gives the map back. -/
theorem erase_put {m m' : HashMap κ ν cap} {k : κ} {v : ν} (hk : m.lookup k = none)
    (h : m.put k v = some m') : m'.erase k = m := by
  apply ext_lookup
  intro x
  rw [lookup_erase, lookup_put h]
  split
  · next hx => rw [hx, hk]
  · rfl

/-! ### Sums over the values -/

section Sum

variable {M : Type} [AddCommMonoid M] (f : ν → M)

/-- The share of one key in a sum. -/
def share (m : HashMap κ ν cap) (k : κ) : M := ((m.lookup k).map f).getD 0

/-- The sum of `f` over the values of the map. -/
def sum (m : HashMap κ ν cap) : M := ∑ k ∈ m.entries.keys, m.share f k

variable {f}

theorem share_some {m : HashMap κ ν cap} {k : κ} {v : ν} (h : m.lookup k = some v) : m.share f k = f v := by
  rw [share, h]; rfl

theorem share_none {m : HashMap κ ν cap} {k : κ} (h : m.lookup k = none) : m.share f k = 0 := by
  rw [share, h]; rfl

theorem sum_empty {m : HashMap κ ν cap} (h : ∀ k, m.lookup k = none) : m.sum f = 0 :=
  Finset.sum_eq_zero fun k _ => share_none (h k)

/-- Keys outside the map add nothing. -/
theorem sum_eq_of_subset {m : HashMap κ ν cap} {t : Finset κ} (h : m.entries.keys ⊆ t) :
    m.sum f = ∑ k ∈ t, m.share f k := by
  refine Finset.sum_subset h fun k _ hk => share_none ?_
  rw [mem_keys_iff] at hk
  exact Option.not_isSome_iff_eq_none.1 hk

/-- **A change at one key** moves the sum by the difference of the shares. -/
theorem sum_off {m m' : HashMap κ ν cap} {k : κ} (h : ∀ x, x ≠ k → m'.lookup x = m.lookup x) :
    m'.sum f + m.share f k = m.sum f + m'.share f k := by
  let t := insert k (m.entries.keys ∪ m'.entries.keys)
  have hk : k ∈ t := Finset.mem_insert_self _ _
  have hm : m.entries.keys ⊆ t := fun x hx => by simp [t, hx]
  have hm' : m'.entries.keys ⊆ t := fun x hx => by simp [t, hx]
  have hrest : ∑ x ∈ t.erase k, m'.share f x = ∑ x ∈ t.erase k, m.share f x :=
    Finset.sum_congr rfl fun x hx => by rw [share, share, h x (Finset.ne_of_mem_erase hx)]
  rw [sum_eq_of_subset hm, sum_eq_of_subset hm', ← Finset.add_sum_erase t _ hk, ← Finset.add_sum_erase t _ hk, hrest]
  rw [add_right_comm, add_assoc, add_comm, add_comm (m.share f k)]

end Sum

/-- A change at one key moves the size by at most one. -/
theorem size_off {m m' : HashMap κ ν cap} {k : κ} (h : ∀ x, x ≠ k → m'.lookup x = m.lookup x) :
    m'.size + (m.lookup k).isSome.toNat = m.size + (m'.lookup k).isSome.toNat := by
  have hshare : ∀ (m : HashMap κ ν cap) k, m.share (fun _ => 1) k = (m.lookup k).isSome.toNat := fun m k => by
    rw [share]
    cases m.lookup k <;> rfl
  have hsize : ∀ m : HashMap κ ν cap, m.sum (fun _ => 1) = m.size := fun m => by
    rw [sum, size, Finset.card_eq_sum_ones]
    refine Finset.sum_congr rfl fun k hk => ?_
    rw [hshare, (mem_keys_iff m k).1 hk]; rfl
  have hsum := sum_off (f := fun _ : ν => 1) h
  rwa [hsize, hsize, hshare, hshare] at hsum

end HashMap

/-- A way of walking through the entries of a hash map: each entry once, in an order of its own. -/
structure Iteration (κ ν : Type) [DecidableEq κ] (cap : Nat) where
  visit : HashMap κ ν cap → List (κ × ν)
  mem_visit : ∀ m k v, (k, v) ∈ visit m ↔ m.lookup k = some v
  nodup : ∀ m, ((visit m).map Prod.fst).Nodup

/-- A finite map has an order to walk through it in. -/
theorem Iteration.nonempty (κ ν : Type) [DecidableEq κ] (cap : Nat) : Nonempty (Iteration κ ν cap) := by
  refine ⟨⟨fun m => m.entries.entries.toList.map fun e => (e.1, e.2), fun m k v => ?_, fun m => ?_⟩⟩
  · rw [HashMap.lookup, ← Option.mem_def, Finmap.mem_lookup_iff, ← Multiset.mem_toList, List.mem_map]
    constructor
    · rintro ⟨⟨k', v'⟩, he, heq⟩
      cases heq; exact he
    · exact fun he => ⟨⟨k, v⟩, he, rfl⟩
  · have hkeys := m.entries.nodupKeys
    rw [← Multiset.coe_toList m.entries.entries, Multiset.coe_nodupKeys] at hkeys
    rw [List.map_map]
    exact hkeys

/-! ## Arrays -/

structure ArrayMap (ν : Type) (n : Nat) where
  slot : Fin n → ν

namespace ArrayMap

variable {ν : Type} {n : Nat}

/-- The array a program starts with: every slot the same (zero) value. -/
def replicate (v : ν) : ArrayMap ν n := ⟨fun _ => v⟩

def lookup (m : ArrayMap ν n) (i : Nat) : Option ν := if h : i < n then some (m.slot ⟨i, h⟩) else none

def put (m : ArrayMap ν n) (i : Nat) (v : ν) : Option (ArrayMap ν n) :=
  if h : i < n then some ⟨Function.update m.slot ⟨i, h⟩ v⟩ else none

@[ext] theorem ext_lookup {m m' : ArrayMap ν n} (h : ∀ i, m.lookup i = m'.lookup i) : m = m' := by
  obtain ⟨s⟩ := m
  obtain ⟨s'⟩ := m'
  congr 1
  funext i
  simpa [lookup, i.isLt] using h i.val

theorem lookup_replicate (v : ν) (i : Nat) :
    (replicate v : ArrayMap ν n).lookup i = if i < n then some v else none := by
  simp [lookup, replicate]

theorem lookup_isSome {m : ArrayMap ν n} {i : Nat} : (m.lookup i).isSome ↔ i < n := by
  simp [lookup]

theorem put_isSome {m : ArrayMap ν n} {i : Nat} {v : ν} : (m.put i v).isSome ↔ i < n := by
  unfold put; split <;> rename_i h <;> simp [h]

theorem exists_lookup (m : ArrayMap ν n) {i : Nat} (h : i < n) : ∃ v, m.lookup i = some v :=
  Option.isSome_iff_exists.1 (lookup_isSome.2 h)

theorem exists_put (m : ArrayMap ν n) {i : Nat} (h : i < n) (v : ν) : ∃ m', m.put i v = some m' :=
  Option.isSome_iff_exists.1 (put_isSome.2 h)

theorem lookup_put {m m' : ArrayMap ν n} {i : Nat} {v : ν} (h : m.put i v = some m') (j : Nat) :
    m'.lookup j = if j = i then some v else m.lookup j := by
  unfold put at h
  split at h
  · next hi =>
    cases h
    by_cases hj : j = i
    · subst hj; simp [lookup, hi]
    · simp [lookup, hj, Function.update, Fin.ext_iff]
  · cases h

end ArrayMap

end KernelMap
