import Mathlib.Data.List.Forall2
import Microseg.Lib.KernelMap
/-!
# Maps of encoded keys and values

A map may hold its keys and values in another form, as bytes say. `Encodes e R raw m` says that `raw` is `m` with
keys under `e` and values related by `R`. Where `e` is injective, each operation on `raw` is the operation on `m`: it
succeeds on the one when it does on the other (`encodes_put`, `encodes_delete`), an update in place is one of the
value (`encodes_modify`), and a walk meets the same entries (`encodes_visit`).
-/
namespace KernelMap

/-! ## Lists related entry by entry -/

section Lists

variable {α β : Type} {P : α → β → Prop}

theorem exists_forall₂ {l' : List β} (h : ∀ b ∈ l', ∃ a, P a b) : ∃ l, List.Forall₂ P l l' := by
  induction l' with
  | nil => exact ⟨[], .nil⟩
  | cons b l' ih =>
    obtain ⟨a, ha⟩ := h b (by simp)
    obtain ⟨l, hl⟩ := ih fun c hc => h c (by simp [hc])
    exact ⟨a :: l, .cons ha hl⟩

theorem forall₂_mem_left {l : List α} {l' : List β} (h : List.Forall₂ P l l') {a : α} (ha : a ∈ l) : ∃ b, P a b := by
  induction h with
  | nil => cases ha
  | cons hhead _ ih =>
    rcases List.mem_cons.1 ha with rfl | ha
    · exact ⟨_, hhead⟩
    · exact ih ha

theorem forall₂_mem_right {l : List α} {l' : List β} (h : List.Forall₂ P l l') {b : β} (hb : b ∈ l') : ∃ a ∈ l, P a b := by
  induction h with
  | nil => cases hb
  | cons hhead _ ih =>
    rcases List.mem_cons.1 hb with rfl | hb
    · exact ⟨_, by simp, hhead⟩
    · obtain ⟨a, ha, hab⟩ := ih hb
      exact ⟨a, by simp [ha], hab⟩

end Lists

/-! ## Hash maps -/

section HashMaps

variable {κ κ' ν ν' : Type} [DecidableEq κ] [DecidableEq κ'] {cap : Nat} {e : κ → κ'} {R : ν → ν' → Prop}

/-- `raw` is `m` with its keys encoded and its values related, and nothing else. -/
structure Encodes (e : κ → κ') (R : ν → ν' → Prop) (raw : HashMap κ' ν' cap) (m : HashMap κ ν cap) : Prop where
  lookup : ∀ k, Option.Rel R (m.lookup k) (raw.lookup (e k))
  onto : ∀ k', (raw.lookup k').isSome → ∃ k, e k = k'
  size : raw.size = m.size

/-- An injective encoding keeps the size. -/
theorem encodes_of_lookup {raw : HashMap κ' ν' cap} {m : HashMap κ ν cap} (he : Function.Injective e)
    (hlookup : ∀ k, Option.Rel R (m.lookup k) (raw.lookup (e k))) (honto : ∀ k', (raw.lookup k').isSome → ∃ k, e k = k') :
    Encodes e R raw m where
  lookup := hlookup
  onto := honto
  size := by
    have hsome : ∀ k, (raw.lookup (e k)).isSome = (m.lookup k).isSome := fun k => by
      have hk := hlookup k
      revert hk
      cases m.lookup k <;> cases raw.lookup (e k) <;> intro hk <;> cases hk <;> rfl
    have hkeys : raw.entries.keys = m.entries.keys.map ⟨e, he⟩ := by
      ext k'
      rw [HashMap.mem_keys_iff, Finset.mem_map]
      constructor
      · intro hk'
        obtain ⟨k, rfl⟩ := honto k' hk'
        exact ⟨k, (HashMap.mem_keys_iff m k).2 (hsome k ▸ hk'), rfl⟩
      · rintro ⟨k, hk, rfl⟩
        exact (hsome k).trans ((HashMap.mem_keys_iff m k).1 hk)
    rw [HashMap.size, HashMap.size, hkeys, Finset.card_map]

theorem encodes_empty : Encodes e R (.empty : HashMap κ' ν' cap) .empty where
  lookup k := by
    rw [HashMap.lookup_empty, HashMap.lookup_empty]
    exact .none
  onto k' h := by simp at h
  size := rfl

section Lookups

variable {raw : HashMap κ' ν' cap} {m : HashMap κ ν cap} (h : Encodes e R raw m)

include h

/-- **A lookup** finds nothing in both, or related values. -/
theorem Encodes.cases (k : κ) :
    (m.lookup k = none ∧ raw.lookup (e k) = none) ∨
    ∃ v v', m.lookup k = some v ∧ raw.lookup (e k) = some v' ∧ R v v' := by
  have hk := h.lookup k
  revert hk
  cases m.lookup k <;> cases raw.lookup (e k) <;> intro hk <;> cases hk
  · exact Or.inl ⟨rfl, rfl⟩
  · next hr => exact Or.inr ⟨_, _, rfl, rfl, hr⟩

theorem Encodes.isSome (k : κ) : (raw.lookup (e k)).isSome = (m.lookup k).isSome := by
  rcases h.cases k with ⟨hm, hraw⟩ | ⟨v, v', hm, hraw, _⟩ <;> rw [hm, hraw] <;> rfl

/-- Both maps change at one key only, to the same effect. -/
theorem Encodes.change {raw' : HashMap κ' ν' cap} {m' : HashMap κ ν cap} (he : Function.Injective e) (k : κ)
    (hraw : ∀ x, x ≠ e k → raw'.lookup x = raw.lookup x) (hm : ∀ x, x ≠ k → m'.lookup x = m.lookup x)
    (hk : Option.Rel R (m'.lookup k) (raw'.lookup (e k))) : Encodes e R raw' m' where
  lookup x := by
    by_cases hx : x = k
    · rw [hx]
      exact hk
    · rw [hraw _ (he.ne hx), hm x hx]
      exact h.lookup x
  onto x hx := by
    by_cases hxk : x = e k
    · exact ⟨k, hxk.symm⟩
    · rw [hraw x hxk] at hx
      exact h.onto x hx
  size := by
    have hsize := HashMap.size_off hraw
    have hsize' := HashMap.size_off hm
    have hnew : (raw'.lookup (e k)).isSome = (m'.lookup k).isSome := by
      revert hk
      cases m'.lookup k <;> cases raw'.lookup (e k) <;> intro hk <;> cases hk <;> rfl
    rw [h.isSome, h.size, hnew] at hsize
    omega

end Lookups

variable {raw : HashMap κ' ν' cap} {m : HashMap κ ν cap} (h : Encodes e R raw m) (he : Function.Injective e)

include h he

/-- **An insert** fails on both, or goes into both. -/
theorem encodes_put (k : κ) {v : ν} {v' : ν'} (hv : R v v') :
    (raw.put (e k) v' = none ∧ m.put k v = none) ∨
    ∃ raw' m', raw.put (e k) v' = some raw' ∧ m.put k v = some m' ∧ Encodes e R raw' m' := by
  have hsome : (raw.put (e k) v').isSome ↔ (m.put k v).isSome := by
    rw [HashMap.put_isSome, HashMap.put_isSome, h.isSome, h.size]
  cases hm : m.put k v with
  | none =>
    refine Or.inl ⟨?_, rfl⟩
    rw [hm] at hsome
    exact Option.not_isSome_iff_eq_none.1 fun hs => by simpa using hsome.1 hs
  | some m' =>
    obtain ⟨raw', hraw⟩ := Option.isSome_iff_exists.1 (hsome.2 (by rw [hm]; rfl))
    refine Or.inr ⟨raw', m', hraw, rfl, h.change he k (fun x hx => ?_) (fun x hx => ?_) ?_⟩
    · rw [HashMap.lookup_put hraw, if_neg hx]
    · rw [HashMap.lookup_put hm, if_neg hx]
    · rw [HashMap.lookup_put hraw, HashMap.lookup_put hm, if_pos rfl, if_pos rfl]
      exact .some hv

theorem encodes_putNew (k : κ) {v : ν} {v' : ν'} (hv : R v v') :
    (raw.putNew (e k) v' = none ∧ m.putNew k v = none) ∨
    ∃ raw' m', raw.putNew (e k) v' = some raw' ∧ m.putNew k v = some m' ∧ Encodes e R raw' m' := by
  unfold HashMap.putNew
  rw [h.isSome]
  split
  · exact Or.inl ⟨rfl, rfl⟩
  · exact encodes_put h he k hv

theorem encodes_erase (k : κ) : Encodes e R (raw.erase (e k)) (m.erase k) :=
  h.change he k (fun x hx => by rw [HashMap.lookup_erase, if_neg hx])
    (fun x hx => by rw [HashMap.lookup_erase, if_neg hx]) (by
      rw [HashMap.lookup_erase, HashMap.lookup_erase, if_pos rfl, if_pos rfl]
      exact .none)

/-- **A delete** fails on both, or takes the entry out of both. -/
theorem encodes_delete (k : κ) :
    (raw.delete (e k) = none ∧ m.delete k = none) ∨
    ∃ raw' m', raw.delete (e k) = some raw' ∧ m.delete k = some m' ∧ Encodes e R raw' m' := by
  unfold HashMap.delete
  rw [h.isSome]
  split
  · exact Or.inr ⟨_, _, rfl, rfl, encodes_erase h he k⟩
  · exact Or.inl ⟨rfl, rfl⟩

/-- **An update in place** keeps the values related. -/
theorem encodes_modify {g : ν → ν} {g' : ν' → ν'} (hg : ∀ v v', R v v' → R (g v) (g' v')) (k : κ) :
    Encodes e R (raw.modify (e k) g') (m.modify k g) :=
  h.change he k (fun x hx => by rw [HashMap.lookup_modify, if_neg hx])
    (fun x hx => by rw [HashMap.lookup_modify, if_neg hx]) (by
      rw [HashMap.lookup_modify, HashMap.lookup_modify, if_pos rfl, if_pos rfl]
      rcases h.cases k with ⟨hm, hraw⟩ | ⟨v, v', hm, hraw, hv⟩ <;> rw [hm, hraw]
      · exact .none
      · exact .some (hg v v' hv))

/-- **A walk** through the encoded map meets the entries of the map, each once. -/
theorem encodes_visit (rawIter : Iteration κ' ν' cap) (iter : Iteration κ ν cap) :
    ∃ l, l.Perm (iter.visit m) ∧
      List.Forall₂ (fun kv kv' => e kv.1 = kv'.1 ∧ R kv.2 kv'.2) l (rawIter.visit raw) := by
  have hentry : ∀ kv' ∈ rawIter.visit raw, ∃ kv : κ × ν, m.lookup kv.1 = some kv.2 ∧ e kv.1 = kv'.1 ∧ R kv.2 kv'.2 := by
    intro kv' hkv'
    have hlook := (rawIter.mem_visit raw kv'.1 kv'.2).1 hkv'
    obtain ⟨k, hk⟩ := h.onto kv'.1 (by rw [hlook]; rfl)
    rcases h.cases k with ⟨_, hraw⟩ | ⟨v, v', hm, hraw, hv⟩ <;> rw [hk, hlook] at hraw <;> cases hraw
    exact ⟨(k, v), hm, hk, hv⟩
  obtain ⟨l, hl⟩ := exists_forall₂ hentry
  refine ⟨l, ?_, hl.imp fun _ _ hkv => hkv.2⟩
  have hkeys : l.map (fun kv => e kv.1) = (rawIter.visit raw).map Prod.fst := by
    rw [← List.forall₂_eq_eq_eq, List.forall₂_map_left_iff, List.forall₂_map_right_iff]
    exact hl.imp fun _ _ hkv => hkv.2.1
  have hnodup : l.Nodup := .of_map (fun kv => e kv.1) (hkeys ▸ rawIter.nodup raw)
  refine (List.perm_ext_iff_of_nodup hnodup (.of_map Prod.fst (iter.nodup m))).2 fun kv => ?_
  rw [iter.mem_visit]
  constructor
  · intro hkv
    obtain ⟨_, hlook, _⟩ := forall₂_mem_left hl hkv
    exact hlook
  · intro hlook
    rcases h.cases kv.1 with ⟨hm, _⟩ | ⟨v, v', hm, hraw, hv⟩ <;> rw [hlook] at hm <;> cases hm
    obtain ⟨x, hx, hxlook, hxk, _⟩ := forall₂_mem_right hl ((rawIter.mem_visit raw (e kv.1) v').2 hraw)
    have hkey : x.1 = kv.1 := he hxk
    have hval : x.2 = kv.2 := Option.some.inj (hxlook.symm.trans (hkey ▸ hlook))
    exact Prod.ext hkey hval ▸ hx

end HashMaps

/-! ## Arrays -/

section Arrays

variable {ν ν' : Type} {n : Nat} {f : ν → ν'}

/-- The array with each slot under a function. -/
def ArrayMap.map (g : ν → ν') (a : ArrayMap ν n) : ArrayMap ν' n := ⟨fun i => g (a.slot i)⟩

theorem ArrayMap.lookup_map (g : ν → ν') (a : ArrayMap ν n) (i : Nat) : (a.map g).lookup i = (a.lookup i).map g := by
  unfold ArrayMap.lookup ArrayMap.map
  split <;> rfl

theorem ArrayMap.map_map_of_leftInverse {d : ν' → ν} (hd : Function.LeftInverse d f) (a : ArrayMap ν n) :
    (a.map f).map d = a := by
  apply ArrayMap.ext_lookup
  intro i
  rw [lookup_map, lookup_map, Option.map_map, hd.comp_eq_id, Option.map_id, id]

theorem ArrayMap.map_put (a : ArrayMap ν n) (i : Nat) (v : ν) : (a.map f).put i (f v) = (a.put i v).map (·.map f) := by
  cases hp : a.put i v with
  | none =>
    have hlt : ¬ i < n := fun hi => by simpa [hp] using (put_isSome (m := a) (v := v)).2 hi
    exact Option.not_isSome_iff_eq_none.1 fun hs => hlt (put_isSome.1 hs)
  | some a' =>
    have hlt : i < n := put_isSome.1 (Option.isSome_iff_exists.2 ⟨a', hp⟩)
    obtain ⟨b, hb⟩ := (a.map f).exists_put hlt (f v)
    rw [hb, Option.map_some]
    congr 1
    apply ArrayMap.ext_lookup
    intro j
    rw [lookup_put hb, lookup_map, lookup_map, lookup_put hp]
    split <;> rfl

end Arrays

end KernelMap
