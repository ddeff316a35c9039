import Microseg.Lib.KernelMap
import Microseg.Lib.KeyedList
/-!
# Slot arrays

An array whose slots are free or hold an entry, at most one entry per key, filled from the front: the
first slot that is free or already has the key is where an entry goes (`firstSlot`). Such an array is a
keyed list (`Holds`), and writing an entry at that slot is `KeyedList.upsert` (`Holds.write`). A scan over
the first `k` slots sees the first `k` elements of the list (`Holds.scan`).
-/
namespace SlotArray
open KernelMap KeyedList

variable {α κ : Type} {n : Nat}

/-- How entries are told apart, and the value of an unused slot. -/
structure Layout (α κ : Type) where
  key : α → κ
  free : κ
  blank : α
  key_blank : key blank = free

variable (L : Layout α κ)

/-- The array holds exactly the entries `l`, in the first slots. -/
structure Holds (m : ArrayMap α n) (l : List α) : Prop where
  lookup : ∀ i < n, m.lookup i = some (l[i]?.getD L.blank)
  length_le : l.length ≤ n
  used : ∀ x ∈ l, L.key x ≠ L.free
  nodup : (l.map L.key).Nodup

/-- Whether an entry of key `k` may go to slot `i`. -/
def fits [DecidableEq κ] (m : ArrayMap α n) (k : κ) (i : Nat) : Bool :=
  (m.lookup i).elim true fun x => L.key x = L.free ∨ L.key x = k

def firstSlot [DecidableEq κ] (m : ArrayMap α n) (k : κ) : Option Nat := (List.range' 0 n).find? (fits L m k)

variable {L}

theorem holds_replicate : Holds L (ArrayMap.replicate L.blank : ArrayMap α n) [] where
  lookup i hi := by simp [ArrayMap.lookup_replicate, hi]
  length_le := Nat.zero_le n
  used x hx := by cases hx
  nodup := List.nodup_nil

variable {m m' : ArrayMap α n} {l : List α}

theorem Holds.lookup_of_getElem? (h : Holds L m l) {i : Nat} {x : α} (hx : l[i]? = some x) : m.lookup i = some x := by
  have hi : i < l.length := (List.getElem?_eq_some_iff.1 hx).1
  rw [h.lookup i (Nat.lt_of_lt_of_le hi h.length_le), hx]; rfl

/-- The list determines the array. -/
theorem Holds.eq (h : Holds L m l) (h' : Holds L m' l) : m = m' := by
  apply ArrayMap.ext_lookup
  intro i
  by_cases hi : i < n
  · rw [h.lookup i hi, h'.lookup i hi]
  · have hnone : ∀ a : ArrayMap α n, a.lookup i = none := fun a =>
      Option.not_isSome_iff_eq_none.1 fun hs => hi (ArrayMap.lookup_isSome.1 hs)
    rw [hnone, hnone]

/-- An occupied slot is an element of the list. -/
theorem Holds.getElem?_of_lookup (h : Holds L m l) {i : Nat} {x : α} (hx : m.lookup i = some x)
    (hu : L.key x ≠ L.free) : l[i]? = some x := by
  have hi : i < n := ArrayMap.lookup_isSome.1 (by rw [hx]; rfl)
  rw [h.lookup i hi] at hx
  cases hl : l[i]? with
  | none => rw [hl] at hx; cases hx; exact absurd L.key_blank hu
  | some y => rw [hl] at hx; exact hx

variable [DecidableEq κ]

/-- Slot `i` is acceptable for `k` when it is free or is the slot of `k`. -/
theorem Holds.fits_iff (h : Holds L m l) {k : κ} {i : Nat} (hi : i < n) :
    fits L m k i = true ↔ l.length ≤ i ∨ i = position L.key k l := by
  cases hl : l[i]? with
  | none =>
    have hle : l.length ≤ i := List.getElem?_eq_none_iff.1 hl
    simp [fits, h.lookup i hi, L.key_blank, hle]
  | some x =>
    have hlt : i < l.length := (List.getElem?_eq_some_iff.1 hl).1
    have hu : L.key x ≠ L.free := h.used x (List.mem_of_getElem? hl)
    have hkey : L.key x = k ↔ i = position L.key k l := by
      constructor
      · rintro rfl
        exact (position_of_getElem? h.nodup hl).symm
      · rintro rfl
        exact key_position hl
    simp [fits, h.lookup_of_getElem? hl, hu, hkey, Nat.not_le.2 hlt]

/-- **The search** stops at the key's slot, else at the first free one. -/
theorem Holds.firstSlot_eq (h : Holds L m l) (k : κ) :
    firstSlot L m k = if position L.key k l < n then some (position L.key k l) else none := by
  have hp := position_le L.key k l
  have hn := h.length_le
  split
  · next hlt =>
    refine List.find?_range'_eq_some.2 ⟨(h.fits_iff hlt).2 (Or.inr rfl), by simp [hlt], fun j _ hj => ?_⟩
    rw [Bool.not_eq_true', Bool.eq_false_iff, Ne, h.fits_iff (by omega)]
    omega
  · refine List.find?_range'_eq_none.2 fun j _ hj => ?_
    rw [Bool.not_eq_true', Bool.eq_false_iff, Ne, h.fits_iff (by omega)]
    omega

/-- The search for the key of an entry stops at its slot. -/
theorem Holds.firstSlot_of_getElem? (h : Holds L m l) {i : Nat} {x : α} (hx : l[i]? = some x) :
    firstSlot L m (L.key x) = some i := by
  have hi : i < l.length := (List.getElem?_eq_some_iff.1 hx).1
  rw [h.firstSlot_eq, position_of_getElem? h.nodup hx,
    if_pos (Nat.lt_of_lt_of_le hi h.length_le)]

/-- The search for a key that no entry has stops at the first free slot. -/
theorem Holds.firstSlot_of_not_mem (h : Holds L m l) {k : κ} (hk : k ∉ l.map L.key) :
    firstSlot L m k = if l.length < n then some l.length else none := by
  rw [h.firstSlot_eq, position_eq_length hk]

/-- Once written, an entry is found where it was written. -/
theorem firstSlot_put {k : κ} {i : Nat} {x : α} (hi : firstSlot L m k = some i) (hx : L.key x = k) (hput : m.put i x = some m') :
    firstSlot L m' k = some i := by
  obtain ⟨_, hmem, hbefore⟩ := List.find?_range'_eq_some.1 hi
  refine List.find?_range'_eq_some.2 ⟨?_, hmem, fun j h0 hj => ?_⟩
  · simp [fits, ArrayMap.lookup_put hput, hx]
  · have hsame : m'.lookup j = m.lookup j := (ArrayMap.lookup_put hput j).trans (if_neg (by omega))
    have hno := hbefore j h0 hj
    rw [fits, ← hsame, ← fits] at hno
    exact hno

/-- The slot of an entry is where the search for its key stops. -/
theorem Holds.slot_eq (h : Holds L m l) {i j : Nat} {x : α} (hj : m.lookup j = some x) (hu : L.key x ≠ L.free)
    (hi : firstSlot L m (L.key x) = some i) : j = i := by
  have hpos : position L.key (L.key x) l = j := position_of_getElem? h.nodup (h.getElem?_of_lookup hj hu)
  rw [h.firstSlot_eq, hpos] at hi
  split at hi
  · exact Option.some.inj hi
  · cases hi

/-- **Writing** an entry where the search stops is an update of the keyed list. -/
theorem Holds.write (h : Holds L m l) {x : α} (hx : L.key x ≠ L.free) {i : Nat}
    (hi : firstSlot L m (L.key x) = some i) (hput : m.put i x = some m') :
    i = position L.key (L.key x) l ∧ Holds L m' (upsert L.key x l) := by
  rw [h.firstSlot_eq] at hi
  split at hi
  · next hlt =>
    cases hi
    refine ⟨rfl, ?_, ?_, ?_, nodup_upsert h.nodup⟩
    · intro j hj
      rw [ArrayMap.lookup_put hput, getElem?_upsert]
      split
      · rfl
      · exact h.lookup j hj
    · by_cases hmem : L.key x ∈ l.map L.key
      · have hlen : (upsert L.key x l).length = l.length := by
          rw [← List.length_map L.key, map_key_upsert, if_pos hmem, List.length_map]
        have := h.length_le
        omega
      · rw [position_eq_length hmem] at hlt
        have := length_upsert_le L.key x l
        omega
    · intro y hy
      rcases (mem_upsert h.nodup).1 hy with rfl | ⟨hy, _⟩
      · exact hx
      · exact h.used y hy
  · cases hi

/-- There is a slot for an existing key, and for any key while the list is not full. -/
theorem Holds.firstSlot_isSome (h : Holds L m l) {k : κ} :
    (firstSlot L m k).isSome ↔ k ∈ l.map L.key ∨ l.length < n := by
  have hn := h.length_le
  rw [h.firstSlot_eq]
  by_cases hmem : k ∈ l.map L.key
  · have := position_lt_iff.2 hmem
    rw [if_pos (by omega)]
    simp [hmem]
  · rw [position_eq_length hmem]
    split <;> simp [*]

/-- **A scan** of the first `k` slots for used entries with a property sees the first `k` elements. -/
theorem Holds.scan (h : Holds L m l) (p : α → Bool) (k : Nat) (hk : k ≤ n) :
    ((List.range k).filterMap m.lookup).filter (fun x => L.key x ≠ L.free ∧ p x = true) = (l.take k).filter p := by
  induction k with
  | zero => simp
  | succ k ih =>
    have ih := ih (by omega)
    rw [List.range_succ, List.filterMap_append, List.filter_append, ih, List.take_add_one, List.filter_append]
    congr 1
    cases hl : l[k]? with
    | none => simp [h.lookup k hk, hl, L.key_blank]
    | some x =>
      have hu : L.key x ≠ L.free := h.used x (List.mem_of_getElem? hl)
      simp [h.lookup k hk, hl, List.filter_cons, hu]

end SlotArray
