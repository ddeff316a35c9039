import Microseg.Lib.SlotArray
import Microseg.Denote
/-!
# The wildcard array between its two users

The agent fills the array from the front, one slot per rule id (`addToSlot`), and never frees a slot: in
every state that `AddPolicy` calls with non-zero rule ids reach, the array is a list of entries keyed by
rule id (`holds_addPolicy`), and a call is an update of that list (`place`). The program scans the first
100 slots only, while the agent uses all 1000 (`WILDCARD_POLICY_FIX.md:363-364`), so a rule is considered
exactly when its id was among the first 100 placed (`wildcard_considered`).
-/
namespace Microseg
open Words KernelMap KeyedList SlotArray Atomic GoNet

/-- Entries are told apart by rule id; id 0 marks a free slot. -/
def wildcardLayout : Layout WildcardPolicy U32 := ⟨WildcardPolicy.ruleId, 0, .zero, rfl⟩

/-- The array holds the entries `l`. -/
abbrev PolicyMaps.Holds (m : PolicyMaps) (l : List WildcardPolicy) : Prop :=
  SlotArray.Holds wildcardLayout m.wildcardPolicyMap l

theorem holds_empty : PolicyMaps.empty.Holds [] := holds_replicate

/-- The entries after an `AddPolicy` call. -/
def place (l : List WildcardPolicy) (p : Policy) : List WildcardPolicy :=
  match hasWildcard p, wildcardEntry p with
  | true, .ok w =>
    if w.ruleId ∈ l.map WildcardPolicy.ruleId ∨ l.length < maxEntriesWildcardPolicy then
      upsert WildcardPolicy.ruleId w l
    else l
  | _, _ => l

/-- The entries after a sequence of calls on empty maps, in the order their rule ids were first placed. -/
def placed (ps : List Policy) : List WildcardPolicy := ps.foldl place []

/-- How many other rule ids had been placed before `r` was, or would be now. -/
def rank (ps : List Policy) (r : U32) : Nat := position WildcardPolicy.ruleId r (placed ps)

/-- A call that succeeds on a wildcard policy updates the list at the policy's rule id. -/
theorem holds_add_wildcard {m m' : PolicyMaps} {l : List WildcardPolicy} (h : m.Holds l) {p : Policy}
    (h0 : p.ruleID ≠ 0) (hw : hasWildcard p = true) (hadd : m.add p = .ok m') :
    ∃ t : Parsed p, place l p = upsert WildcardPolicy.ruleId t.wildcard l ∧ m'.Holds (place l p) := by
  obtain ⟨t, i, hi, hput, _⟩ := (add_wildcard_ok hw).1 hadd
  have hx : wildcardLayout.key t.wildcard ≠ wildcardLayout.free := h0
  have hroom : t.wildcard.ruleId ∈ l.map WildcardPolicy.ruleId ∨ l.length < maxEntriesWildcardPolicy :=
    h.firstSlot_isSome.1 (Option.isSome_iff_exists.2 ⟨i, hi⟩)
  have hplace : place l p = upsert WildcardPolicy.ruleId t.wildcard l := by
    simp only [place, hw, t.wildcardEntry_eq, hroom, ↓reduceIte]
  exact ⟨t, hplace, hplace ▸ (h.write hx hi hput).2⟩

/-- A wildcard policy that parses finds a slot as long as its rule id has one or one is free. -/
theorem exists_add_wildcard {m : PolicyMaps} {l : List WildcardPolicy} (h : m.Holds l) {p : Policy} (t : Parsed p)
    (hw : hasWildcard p = true)
    (hroom : p.ruleID ∈ l.map WildcardPolicy.ruleId ∨ l.length < maxEntriesWildcardPolicy) :
    ∃ m', m.add p = .ok m' := by
  obtain ⟨i, hi⟩ := Option.isSome_iff_exists.1 (h.firstSlot_isSome.2 hroom)
  exact exists_add_of_slotFor hw t hi

theorem place_of_add_error {m : PolicyMaps} {l : List WildcardPolicy} (h : m.Holds l) {p : Policy}
    {e : Err} (hadd : m.add p = .error e) : place l p = l := by
  cases hw : hasWildcard p with
  | false => simp only [place, hw]
  | true =>
    rcases parsed_cases p with ⟨⟨t⟩⟩ | ⟨e', _, he'⟩
    · have hno : ¬ (t.wildcard.ruleId ∈ l.map WildcardPolicy.ruleId ∨ l.length < maxEntriesWildcardPolicy) := by
        intro hroom
        obtain ⟨m', hok⟩ := exists_add_wildcard h t hw hroom
        rw [hok] at hadd; cases hadd
      simp only [place, hw, t.wildcardEntry_eq, hno, ↓reduceIte]
    · simp only [place, hw, he']

/-- **One call** of `AddPolicy` with a non-zero rule id keeps the array a keyed list. -/
theorem holds_addPolicy {pm : PolicyManager} {l : List WildcardPolicy} (h : pm.maps.Holds l) {p : Policy}
    (h0 : p.ruleID ≠ 0) : ((addPolicy p).run pm).1.maps.Holds (place l p) := by
  rw [addPolicy_maps]
  cases hadd : pm.maps.add p with
  | error e => rw [place_of_add_error h hadd]; exact h
  | ok m' =>
    cases hw : hasWildcard p with
    | true =>
      obtain ⟨_, _, hm'⟩ := holds_add_wildcard h h0 hw hadd
      exact hm'
    | false =>
      obtain ⟨_, _, he⟩ := (add_exact_ok hw).1 hadd
      have hplace : place l p = l := by simp only [place, hw]
      rw [hplace, PolicyMaps.Holds, Except.toOption, Option.getD_some, he]
      exact h

/-- **Any sequence of calls** keeps it. -/
theorem holds_after (ps : List Policy) {pm : PolicyManager} {l : List WildcardPolicy} (h : pm.maps.Holds l)
    (h0 : ∀ p ∈ ps, p.ruleID ≠ 0) : (pm.after ps).maps.Holds (ps.foldl place l) := by
  induction ps generalizing pm l with
  | nil => exact h
  | cons p ps ih =>
    rw [after_cons]
    exact ih (holds_addPolicy h (h0 p (by simp))) fun q hq => h0 q (by simp [hq])

/-! ## An entry stays where it is -/

theorem getElem?_place {pm : PolicyManager} {l : List WildcardPolicy} (h : pm.maps.Holds l) {i : Nat}
    {w : WildcardPolicy} (hi : l[i]? = some w) {q : Policy} (h0 : q.ruleID ≠ 0)
    (hq : hasWildcard q = true → q.ruleID = w.ruleId → ((addPolicy q).run pm).2 ≠ .ok ()) :
    (place l q)[i]? = some w := by
  cases hadd : pm.maps.add q with
  | error e => rw [place_of_add_error h hadd, hi]
  | ok m' =>
    cases hw : hasWildcard q with
    | false =>
      have hplace : place l q = l := by simp only [place, hw]
      rw [hplace, hi]
    | true =>
      obtain ⟨t, hplace, _⟩ := holds_add_wildcard h h0 hw hadd
      have hne : i ≠ position WildcardPolicy.ruleId t.wildcard.ruleId l := by
        rintro rfl
        exact hq hw (key_position hi).symm (addPolicy_ok_iff.2 ⟨m', hadd⟩)
      rw [hplace, getElem?_upsert, if_neg hne, hi]

/-- An entry that no later successful call overwrites keeps its slot. -/
theorem getElem?_after (post : List Policy) {pm : PolicyManager} {l : List WildcardPolicy} (h : pm.maps.Holds l)
    {i : Nat} {w : WildcardPolicy} (hi : l[i]? = some w) (h0 : ∀ q ∈ post, q.ruleID ≠ 0)
    (hkeep : ∀ a q b, post = a ++ q :: b → hasWildcard q = true → q.ruleID = w.ruleId →
      ((addPolicy q).run (pm.after a)).2 ≠ .ok ()) : (post.foldl place l)[i]? = some w := by
  induction post generalizing pm l with
  | nil => exact hi
  | cons q post ih =>
    have hq0 : q.ruleID ≠ 0 := h0 q (by simp)
    have hstep := getElem?_place h hi hq0 (hkeep [] q post rfl)
    refine ih (holds_addPolicy h hq0) hstep (fun r hr => h0 r (by simp [hr])) ?_
    intro a r b he hw hr
    have := hkeep (q :: a) r b (by rw [he]; rfl) hw hr
    rwa [after_cons] at this

/-! ## What the scan sees -/

/-- The scan of an array that holds `l` is an argmax over the first 100 elements. -/
theorem bestMatch_holds {m : PolicyMaps} {l : List WildcardPolicy} (h : m.Holds l) (key : FlowKey) :
    bestMatch key m.wildcardPolicyMap =
      ((l.take scanLimit).filter (matchesWildcard key)).argmax fun w => w.priority.toNat := by
  rw [bestMatch_eq_argmax]
  congr 1
  exact h.scan (matchesWildcard key) scanLimit (by decide)

/-- `lookup_policy_action` takes `w` into account: it decides every flow that it matches and no other entry does. -/
def Considered (m : PolicyMaps) (w : WildcardPolicy) : Prop :=
  ∀ key, matchesWildcard key w = true → m.policyMap.lookup key = none →
    (∀ j w', m.wildcardPolicyMap.lookup j = some w' → w'.ruleId ≠ 0 → matchesWildcard key w' = true → w' = w) →
    decision m key = (w.action, w.ruleId)

/-- `lookup_policy_action` never answers with the rule of `w`, unless an exact entry does. -/
def Ignored (m : PolicyMaps) (w : WildcardPolicy) : Prop :=
  ∀ key, m.policyMap.lookup key = none → (decision m key).2 ≠ w.ruleId

theorem considered_of_lt {m : PolicyMaps} {l : List WildcardPolicy} (h : m.Holds l) {i : Nat} {w : WildcardPolicy}
    (hi : l[i]? = some w) (hlt : i < scanLimit) : Considered m w := by
  intro key hm hx hother
  have hslot := h.lookup_of_getElem? hi
  have h0 : w.ruleId ≠ 0 := h.used w (List.mem_of_getElem? hi)
  rw [decision_scan hx, bestMatch_of_unique hlt hslot h0 hm fun j _ w' => hother j w', answer]

theorem ignored_of_ge {m : PolicyMaps} {l : List WildcardPolicy} (h : m.Holds l) {i : Nat} {w : WildcardPolicy}
    (hi : l[i]? = some w) (hge : scanLimit ≤ i) : Ignored m w := by
  intro key hx
  have h0 : w.ruleId ≠ 0 := h.used w (List.mem_of_getElem? hi)
  rw [decision_scan hx]
  cases hb : bestMatch key m.wildcardPolicyMap with
  | none => exact h0.symm
  | some b =>
    obtain ⟨j, hj, hjb, hb0, _⟩ := bestMatch_mem hb
    have hjl : l[j]? = some b := h.getElem?_of_lookup hjb hb0
    -- two slots with one rule id would be one slot
    intro he
    have hj' : position WildcardPolicy.ruleId b.ruleId l = j := position_of_getElem? h.nodup hjl
    have hi' : position WildcardPolicy.ruleId w.ruleId l = i := position_of_getElem? h.nodup hi
    have hid : b.ruleId = w.ruleId := he
    rw [hid, hi'] at hj'
    omega

/-- **Capacity**: in any sequence of `AddPolicy` calls on empty maps, the entry of an accepted wildcard policy
that no later call replaces stays in the slot of its rank, is considered when that rank is below 100,
and is ignored from 100 on. -/
theorem wildcard_considered {pm : PolicyManager} (hpm : pm.maps = .empty) {pre post : List Policy} {p : Policy}
    (hids : ∀ q ∈ pre ++ p :: post, q.ruleID ≠ 0) (hw : hasWildcard p = true)
    (hok : ((addPolicy p).run (pm.after pre)).2 = .ok ())
    (hkeep : ∀ a q b, post = a ++ q :: b → hasWildcard q = true → q.ruleID = p.ruleID →
      ((addPolicy q).run (pm.after (pre ++ p :: a))).2 ≠ .ok ()) :
    ∃ w, wildcardEntry p = .ok w ∧
      (pm.after (pre ++ p :: post)).maps.wildcardPolicyMap.lookup (rank pre p.ruleID) = some w ∧
      (rank pre p.ruleID < 100 → Considered (pm.after (pre ++ p :: post)).maps w) ∧
      (100 ≤ rank pre p.ruleID → Ignored (pm.after (pre ++ p :: post)).maps w) := by
  have hempty : pm.maps.Holds [] := hpm ▸ holds_empty
  have hpre : (pm.after pre).maps.Holds (placed pre) :=
    holds_after pre hempty fun q hq => hids q (by simp [hq])
  have hp0 : p.ruleID ≠ 0 := hids p (by simp)
  obtain ⟨m', hadd⟩ := addPolicy_ok_iff.1 hok
  obtain ⟨t, hplace, _⟩ := holds_add_wildcard hpre hp0 hw hadd
  have hnew : (place (placed pre) p)[rank pre p.ruleID]? = some t.wildcard := by
    rw [hplace, getElem?_upsert, if_pos (by rfl)]
  have hmid : ((addPolicy p).run (pm.after pre)).1.maps.Holds (place (placed pre) p) := holds_addPolicy hpre hp0
  have hpost0 : ∀ q ∈ post, q.ruleID ≠ 0 := fun q hq => hids q (by simp [hq])
  have hend := getElem?_after post hmid hnew hpost0 fun a q b he hqw hq => by
    have := hkeep a q b he hqw hq
    rwa [after_append, after_cons] at this
  have hfin := holds_after post hmid hpost0
  rw [after_append, after_cons]
  exact ⟨t.wildcard, t.wildcardEntry_eq, hfin.lookup_of_getElem? hend, considered_of_lt hfin hend,
    ignored_of_ge hfin hend⟩

/-! ### The hundred and first rule -/

/-- Rule `n + 1`: "deny TCP from 10.0.0.5 to port `n + 1` of 10.0.0.5". -/
def numbered (n : Nat) : Policy :=
  ⟨BitVec.ofNat 32 (n + 1), "10.0.0.5", "10.0.0.5", 0, BitVec.ofNat 16 (n + 1), "tcp", "deny", 100⟩

/-- What rule `n + 1` parses to. -/
def numberedParsed (n : Nat) : Parsed (numbered n) where
  src := (v4InV6Prefix ++ host5.addr.bytes, cidrMask host5.prefixLen 32)
  dst := (v4InV6Prefix ++ host5.addr.bytes, cidrMask host5.prefixLen 32)
  proto := 6
  action := 1
  hsrc := parseCIDR_text host5
  hdst := parseCIDR_text host5
  hproto := (by decide : parseProtocol "tcp" = .ok 6)
  haction := (by decide : parseAction "deny" = .ok 1)

theorem numbered_ruleID_inj {i j : Nat} (hi : i < 1000) (hj : j < 1000) (h : (numbered i).ruleID = (numbered j).ruleID) :
    i = j := by
  have := congrArg BitVec.toNat h
  simp only [numbered, BitVec.toNat_ofNat] at this
  omega

theorem numbered_ruleID_ne_zero {i : Nat} (hi : i < 1000) : (numbered i).ruleID ≠ 0 := by
  intro h
  have := congrArg BitVec.toNat h
  simp only [numbered, BitVec.toNat_ofNat, BitVec.ofNat_eq_ofNat] at this
  omega

theorem placed_numbered (n : Nat) (hn : n ≤ 1000) :
    placed ((List.range n).map numbered) = (List.range n).map fun i => (numberedParsed i).wildcard := by
  induction n with
  | zero => rfl
  | succ n ih =>
    have ih := ih (by omega)
    have hnew : (numberedParsed n).wildcard.ruleId ∉
        ((List.range n).map fun i => (numberedParsed i).wildcard).map WildcardPolicy.ruleId := by
      intro hmem
      obtain ⟨w, hw, he⟩ := List.mem_map.1 hmem
      obtain ⟨i, hi, rfl⟩ := List.mem_map.1 hw
      have hlt := List.mem_range.1 hi
      have := numbered_ruleID_inj (by omega) (by omega) he
      omega
    have hroom : ((List.range n).map fun i => (numberedParsed i).wildcard).length < maxEntriesWildcardPolicy := by
      rw [List.length_map, List.length_range, maxEntriesWildcardPolicy]; omega
    have hwild : hasWildcard (numbered n) = true := rfl
    rw [placed, List.range_succ, List.map_append, List.map_append, List.foldl_append, ← placed, ih, List.map_cons,
      List.map_nil, List.foldl_cons, List.foldl_nil]
    simp only [place, hwild, (numberedParsed n).wildcardEntry_eq, hroom, or_true, ↓reduceIte, upsert_new hnew]
    rfl

theorem policyMap_after (ps : List Policy) (pm : PolicyManager) (h : ∀ p ∈ ps, hasWildcard p = true) :
    (pm.after ps).maps.policyMap = pm.maps.policyMap := by
  induction ps generalizing pm with
  | nil => rfl
  | cons p ps ih =>
    rw [after_cons, ih _ fun q hq => h q (by simp [hq]), addPolicy_maps]
    cases hadd : pm.maps.add p with
    | error e => rfl
    | ok m' =>
      obtain ⟨_, _, _, _, hsame⟩ := (add_wildcard_ok (h p (by simp))).1 hadd
      exact hsame

/-- The first hundred rules. -/
def firstHundred : List Policy := (List.range 100).map numbered

/-- A connection to port 101. -/
def toPort101 : Flow := ⟨0x0a000005, 0x0a000005, 40000, 101, ipprotoTcp, fun h => absurd rfl h⟩

/-- Rule 101 is accepted; no other entry matches the connection, and still the lookup does not find it. -/
theorem rule_101_ignored :
    (∀ q ∈ firstHundred ++ [numbered 100], q.ruleID ≠ 0) ∧ hasWildcard (numbered 100) = true ∧
    ((addPolicy (numbered 100)).run (PolicyManager.fresh.after firstHundred)).2 = .ok () ∧
    wildcardEntry (numbered 100) = .ok (numberedParsed 100).wildcard ∧
    ¬ Considered (PolicyManager.fresh.after (firstHundred ++ [numbered 100])).maps (numberedParsed 100).wildcard := by
  have hlast : firstHundred ++ [numbered 100] = (List.range 101).map numbered := by
    rw [firstHundred, List.range_succ, List.map_append]; rfl
  have hids : ∀ n ≤ 1000, ∀ q ∈ (List.range n).map numbered, q.ruleID ≠ 0 := by
    intro n hn q hq
    obtain ⟨i, hi, rfl⟩ := List.mem_map.1 hq
    have := List.mem_range.1 hi
    exact numbered_ruleID_ne_zero (by omega)
  have hpre : (PolicyManager.fresh.after firstHundred).maps.Holds (placed firstHundred) :=
    holds_after firstHundred holds_empty (hids 100 (by omega))
  have hfin : (PolicyManager.fresh.after ((List.range 101).map numbered)).maps.Holds
      ((List.range 101).map fun i => (numberedParsed i).wildcard) :=
    placed_numbered 101 (by omega) ▸ holds_after _ holds_empty (hids 101 (by omega))
  have hlen : (placed firstHundred).length = 100 := by
    rw [firstHundred, placed_numbered 100 (by omega), List.length_map, List.length_range]
  refine ⟨hlast ▸ hids 101 (by omega), rfl, ?_, (numberedParsed 100).wildcardEntry_eq, ?_⟩
  · refine addPolicy_ok_iff.2 (exists_add_wildcard hpre (numberedParsed 100) rfl
      (Or.inr ?_))
    rw [hlen, maxEntriesWildcardPolicy]; omega
  · rw [hlast]
    intro hc
    have h100 : ((List.range 101).map fun i => (numberedParsed i).wildcard)[100]? = some (numberedParsed 100).wildcard := rfl
    have hx : (PolicyManager.fresh.after ((List.range 101).map numbered)).maps.policyMap.lookup toPort101.key = none := by
      rw [policyMap_after _ _ fun q hq => by obtain ⟨i, _, rfl⟩ := List.mem_map.1 hq; rfl]
      exact HashMap.lookup_empty _
    refine ignored_of_ge hfin h100 (by decide) toPort101.key hx (congrArg Prod.snd (hc toPort101.key (by decide) hx ?_))
    intro j w' hj h0 hm
    obtain ⟨i, hi, rfl⟩ := List.mem_map.1 (List.mem_of_getElem? (hfin.getElem?_of_lookup hj h0))
    have hlt := List.mem_range.1 hi
    -- an entry matches only its own destination port
    have hport := (matchesWildcard_iff.1 hm).2.2.2.1
    simp only [Parsed.wildcard, numbered, htons_eq_swap16, toPort101, Flow.key, swap16_inj] at hport
    have hi100 : i = 100 := by
      rcases hport with h | h
      · have := congrArg BitVec.toNat (swap16_eq_zero.1 h)
        simp only [BitVec.toNat_ofNat] at this
        omega
      · have := congrArg BitVec.toNat h
        simp only [BitVec.toNat_ofNat, BitVec.ofNat_eq_ofNat] at this
        omega
    rw [hi100]

/-- Rules 2 and 5, rule 2 once more, and a rule 1 that is refused. -/
def earlierRules : List Policy :=
  [allowHost, numbered 4, { allowHost with priority := 10 }, { denyHost with action := "drop" }]

/-- Rule 7, a rule 1 that is refused, and rule 9 for a single flow. -/
def laterRules : List Policy := [numbered 6, { denyHost with action := "drop" }, { denyPort443 with ruleID := 9 }]

/-- Rule 1 after two other rules, and with later calls that leave it alone. -/
theorem third_rule_considered : ∃ w, wildcardEntry denyHost = .ok w ∧
    (PolicyManager.fresh.after (earlierRules ++ denyHost :: laterRules)).maps.wildcardPolicyMap.lookup
      (rank earlierRules denyHost.ruleID) = some w ∧
    (rank earlierRules denyHost.ruleID < 100 →
      Considered (PolicyManager.fresh.after (earlierRules ++ denyHost :: laterRules)).maps w) ∧
    (100 ≤ rank earlierRules denyHost.ruleID →
      Ignored (PolicyManager.fresh.after (earlierRules ++ denyHost :: laterRules)).maps w) := by
  refine wildcard_considered rfl (by decide) (by decide) (by decide +kernel) fun a q b h hw hid => ?_
  -- the only later call with rule id 1 is the refused one
  rcases a with _ | ⟨_, _ | ⟨_, _ | ⟨_, a⟩⟩⟩
  · cases h
    exact absurd hid (by decide)
  · cases h
    decide +kernel
  · cases h
    exact absurd hw (by decide)
  · have hlen := congrArg List.length h
    simp [laterRules] at hlen

end Microseg
