import Microseg.Accounting
import Microseg.Exhaustion
/-!
# Hit counts (`tc_microsegment.bpf.c:154-206`, `hit_count` of `struct policy_value`)

The lookup runs only for packets without a session, and a match of the exact map moves `hit_count` of the entry
found. So between two writes of the policies an entry gains one hit for each packet with its key that finds no
session (`hitCount_run`), and nothing else in the two maps changes. The exact entries and the scan share
`STATS_POLICY_HITS` between them (`liveHits_step`). A hit is a connection rather than a packet: a key's packets
find no session once for each session that was evicted, could not be inserted or is new and still there
(`sessionless_eq`).
-/
namespace Microseg
open Words KernelMap Runs

/-! ## What is counted -/

/-- A packet with the key that finds no session. -/
def sessionlessOf (key : FlowKey) (s : Bpf) (e : BpfEvent) : Bool :=
  decide (e.key = some key) && (s.sessionMap.lookup key).isNone

/-- A packet without a session whose key has an exact entry. -/
def exactHit (s : Bpf) (e : BpfEvent) : Bool :=
  e.key.any fun key => (s.sessionMap.lookup key).isNone && (s.maps.policyMap.lookup key).isSome

/-- A packet without a session that the scan of the wildcard array decides. -/
def scanHit (s : Bpf) (e : BpfEvent) : Bool :=
  e.key.any fun key => (s.sessionMap.lookup key).isNone && (s.maps.policyMap.lookup key).isNone &&
    (bestMatch key s.maps.wildcardPolicyMap).isSome

/-- The LRU map drops a session of the key. -/
def evicts (key : FlowKey) (s : Bpf) : BpfEvent → Bool
  | .evict k => decide (k = key) && (s.sessionMap.lookup key).isSome
  | _ => false

/-- A packet with the key that finds no session and leaves none. -/
def insertFailedOf (key : FlowKey) (s : Bpf) (e : BpfEvent) : Bool :=
  sessionlessOf key s e && ((s.step e).sessionMap.lookup key).isNone

/-- The entry after `n` more hits. -/
def PolicyValue.hits (n : Nat) (v : PolicyValue) : PolicyValue := { v with hitCount := v.hitCount + BitVec.ofNat 64 n }

/-- The hits of the entries in the exact map. -/
def liveHits (s : Bpf) : U64 := s.maps.policyMap.sum PolicyValue.hitCount

theorem PolicyValue.hits_zero (v : PolicyValue) : v.hits 0 = v := by
  rw [PolicyValue.hits, BitVec.add_zero]

theorem PolicyValue.hits_hits (m n : Nat) (v : PolicyValue) : (v.hits m).hits n = v.hits (m + n) := by
  simp only [PolicyValue.hits, BitVec.ofNat_add, BitVec.add_assoc]

/-! ## One event -/

/-- A packet without a session is counted in the entry under its key. -/
theorem maps_sessionless {s : Bpf} {e : BpfEvent} {key : FlowKey} (hk : e.key = some key)
    (hs : s.sessionMap.lookup key = none) : (s.step e).maps = countHit s.maps key := by
  rcases event_cases s e with ⟨hk', _⟩ | ⟨x, skb, k, v, rfl, hk', hv, _, _⟩ | ⟨x, skb, k, rfl, hk', _, h, _⟩ <;>
    rw [hk] at hk' <;> cases hk'
  · rw [hs] at hv; cases hv
  · rw [Bpf.step, h, slowPath_maps]

/-- Other events leave the policies alone. -/
theorem maps_other {s : Bpf} {e : BpfEvent} (he : e.Quiet)
    (h : ∀ key, e.key = some key → s.sessionMap.lookup key ≠ none) : (s.step e).maps = s.maps := by
  rcases event_cases s e with ⟨hk, _⟩ | ⟨x, skb, key, v, rfl, _, _, hstep, _⟩ | ⟨x, skb, key, rfl, hk, hv, _, _⟩
  · cases e with
    | policies maps => exact absurd rfl (he maps)
    | evict key => rfl
    | packet x skb => rw [Bpf.step, filter_eq, hk]
  · rw [Bpf.step, hstep]; rfl
  · exact absurd hv (h key hk)

theorem sessionlessOf_iff {key : FlowKey} {s : Bpf} {e : BpfEvent} :
    sessionlessOf key s e = true ↔ e.key = some key ∧ s.sessionMap.lookup key = none := by
  simp [sessionlessOf]

/-- **The entry of a key** gains a hit with a packet that has the key and finds no session. -/
theorem hitCount_step {s : Bpf} {e : BpfEvent} (he : e.Quiet) (key : PolicyKey) :
    (s.step e).maps.policyMap.lookup key =
      (s.maps.policyMap.lookup key).map (PolicyValue.hits (sessionlessOf key s e).toNat) := by
  have hzero : PolicyValue.hits 0 = id := funext PolicyValue.hits_zero
  by_cases hless : sessionlessOf key s e = true
  · obtain ⟨hk, hs⟩ := sessionlessOf_iff.1 hless
    rw [maps_sessionless hk hs, countHit, HashMap.lookup_modify, if_pos rfl, hless]; rfl
  · have hcount : (sessionlessOf key s e).toNat = 0 := by rw [Bool.eq_false_iff.2 hless]; rfl
    rw [hcount, hzero, Option.map_id, id]
    by_cases hany : ∃ k, e.key = some k ∧ s.sessionMap.lookup k = none
    · -- a packet of another key
      obtain ⟨k, hk, hs⟩ := hany
      have hne : key ≠ k := fun h => hless (sessionlessOf_iff.2 ⟨h ▸ hk, h ▸ hs⟩)
      rw [maps_sessionless hk hs, countHit, HashMap.lookup_modify, if_neg hne]
    · rw [maps_other he fun k hk hs => hany ⟨k, hk, hs⟩]

theorem wildcardPolicyMap_step {s : Bpf} {e : BpfEvent} (he : e.Quiet) :
    (s.step e).maps.wildcardPolicyMap = s.maps.wildcardPolicyMap := by
  by_cases hany : ∃ k, e.key = some k ∧ s.sessionMap.lookup k = none
  · obtain ⟨k, hk, hs⟩ := hany
    rw [maps_sessionless hk hs]; rfl
  · rw [maps_other he fun k hk hs => hany ⟨k, hk, hs⟩]

/-- A hit is one of the exact map or of the scan. -/
theorem hit_gains (s : Bpf) (e : BpfEvent) : gains s e .policyHits = (exactHit s e).toNat + (scanHit s e).toNat := by
  rcases event_cases s e with ⟨hk, hg⟩ | ⟨x, skb, key, v, _, hk, hv, _, hg⟩ | ⟨x, skb, key, _, hk, hv, _, hg⟩
  · rw [hg, exactHit, scanHit, hk]; rfl
  · rw [hg, exactHit, scanHit, hk, Option.any_some, Option.any_some, hv]; rfl
  · rw [hg, exactHit, scanHit, hk, Option.any_some, Option.any_some, hv]
    cases hx : s.maps.policyMap.lookup key with
    | some p => simp [slowGains, Hit, hx]
    | none => cases hb : bestMatch key s.maps.wildcardPolicyMap <;> simp [slowGains, Hit, hx, hb]

/-- **The exact map's hits** grow with each packet that it decides. -/
theorem liveHits_step {s : Bpf} {e : BpfEvent} (he : e.Quiet) :
    liveHits (s.step e) = liveHits s + ((exactHit s e).toNat : U64) := by
  by_cases hany : ∃ k, e.key = some k ∧ s.sessionMap.lookup k = none
  · obtain ⟨key, hk, hs⟩ := hany
    -- only the entry under the key differs
    have hoff : ∀ k, k ≠ key → (s.step e).maps.policyMap.lookup k = s.maps.policyMap.lookup k := fun k hne => by
      rw [maps_sessionless hk hs, countHit, HashMap.lookup_modify, if_neg hne]
    have hown : (s.step e).maps.policyMap.lookup key = (s.maps.policyMap.lookup key).map (PolicyValue.hits 1) := by
      rw [hitCount_step he, sessionlessOf_iff.2 ⟨hk, hs⟩]; rfl
    have hsum := HashMap.sum_off (f := PolicyValue.hitCount) hoff
    rw [exactHit, hk, Option.any_some, hs, Option.isNone_none, Bool.true_and]
    cases hx : s.maps.policyMap.lookup key with
    | none =>
      rw [hx] at hown
      rw [HashMap.share_none hx, HashMap.share_none hown, add_zero, add_zero] at hsum
      exact hsum.trans (add_zero _).symm
    | some p =>
      rw [hx] at hown
      have hshare : (p.hits 1).hitCount = p.hitCount + 1 := rfl
      rw [HashMap.share_some hx, HashMap.share_some hown, hshare, add_comm p.hitCount, ← add_assoc] at hsum
      exact add_right_cancel hsum
  · have hmiss : exactHit s e = false := by
      rw [exactHit]
      cases hk : e.key with
      | none => rfl
      | some k =>
        cases hs : s.sessionMap.lookup k with
        | none => exact absurd ⟨k, hk, hs⟩ hany
        | some v => rw [Option.any_some, hs]; rfl
    rw [liveHits, maps_other he fun k hk hs => hany ⟨k, hk, hs⟩, hmiss]
    exact (add_zero _).symm

/-! ## Along a run -/

/-- **An entry's hits** are the packets with its key that found no session. -/
theorem hitCount_run (s : Bpf) {es : List BpfEvent} (hes : ∀ e ∈ es, e.Quiet) (key : PolicyKey) :
    (run Bpf.step s es).maps.policyMap.lookup key =
      (s.maps.policyMap.lookup key).map (PolicyValue.hits (countEvents (sessionlessOf key) s es)) := by
  induction es generalizing s with
  | nil =>
    cases h : s.maps.policyMap.lookup key with
    | none => exact h
    | some v => exact h.trans (by rw [countEvents, tally, Option.map_some, PolicyValue.hits_zero])
  | cons e es ih =>
    have ih := ih (s.step e) fun e' he' => hes e' (by simp [he'])
    have hrun : run Bpf.step s (e :: es) = run Bpf.step (s.step e) es := rfl
    rw [hrun, ih, hitCount_step (hes e (by simp)), Option.map_map]
    congr 1
    funext v
    exact v.hits_hits _ _

/-- An event that leaves the key's session does not evict it. -/
theorem evicts_kept {key : FlowKey} {s : Bpf} {e : BpfEvent}
    (h : (s.step e).sessionMap.lookup key = s.sessionMap.lookup key) : evicts key s e = false := by
  cases e with
  | packet x skb => rfl
  | policies maps => rfl
  | evict k =>
    by_cases hk : k = key
    · rw [hk, Bpf.step, HashMap.lookup_erase, if_pos rfl] at h
      rw [evicts, ← h, Option.isSome_none, Bool.and_false]
    · rw [evicts, decide_eq_false hk, Bool.false_and]

/-- **The packets of a key that find no session** are those that leave one, of which the last may still be there and the
others were evicted, and those whose session is refused. -/
theorem sessionless_eq (key : FlowKey) (s : Bpf) (es : List BpfEvent) :
    countEvents (sessionlessOf key) s es + (s.sessionMap.lookup key).isSome.toNat =
      ((run Bpf.step s es).sessionMap.lookup key).isSome.toNat +
        (countEvents (evicts key) s es + countEvents (insertFailedOf key) s es) := by
  have hstep : ∀ s e, (sessionlessOf key s e).toNat + (s.sessionMap.lookup key).isSome.toNat =
      ((s.step e).sessionMap.lookup key).isSome.toNat + ((evicts key s e).toNat + (insertFailedOf key s e).toNat) := by
    intro s e
    simp only [insertFailedOf, sessionlessOf]
    rcases session_cases s e key with ⟨hk, hkept | ⟨rfl, hgone⟩⟩ | ⟨x, skb, v, rfl, hk, hv, hv'⟩ |
      ⟨x, skb, rfl, hk, hv, hfail | hnew⟩
    · simp [hk, hkept, evicts_kept hkept]
    · -- an eviction pays for the session it drops
      simp only [hk, hgone, evicts, decide_true, decide_false, Bool.false_and, Bool.true_and, Bool.toNat_false,
        Option.isSome_none]
      omega
    · simp [hk, hv, hv', evicts]
    · simp [hk, hv, hfail, evicts]
    · simp [hk, hv, hnew, evicts]
  have hrun := tally_add_eq (fun s : Bpf => (s.sessionMap.lookup key).isSome.toNat) hstep s es
  rw [tally_add] at hrun
  exact hrun

/-- The hits of a run without policy writes. -/
structure HitBooks (ncpu : Nat) (s₀ : Bpf) (es : List BpfEvent) : Prop where
  entries : ∀ key, (run Bpf.step s₀ es).maps.policyMap.lookup key =
    (s₀.maps.policyMap.lookup key).map (PolicyValue.hits (countEvents (sessionlessOf key) s₀ es))
  slots : (run Bpf.step s₀ es).maps.wildcardPolicyMap = s₀.maps.wildcardPolicyMap
  total : readStat ncpu (run Bpf.step s₀ es) .policyHits - liveHits (run Bpf.step s₀ es) =
    readStat ncpu s₀ .policyHits - liveHits s₀ + BitVec.ofNat 64 (countEvents scanHit s₀ es)
  connections : ∀ key, countEvents (sessionlessOf key) s₀ es + (s₀.sessionMap.lookup key).isSome.toNat =
    ((run Bpf.step s₀ es).sessionMap.lookup key).isSome.toNat +
      (countEvents (evicts key) s₀ es + countEvents (insertFailedOf key) s₀ es)

/-- **Hit counts**: over any run of packets and evictions without a write of the policies, from any state, each exact
entry gains one hit for each packet with its key that found no session, and no entry of either map changes
otherwise; the policy hits gained are those of the exact entries and of the scan; and a key's packets find no
session once for each of its sessions that was evicted, was refused or is there at the end and was not before. -/
theorem hits_accounted {ncpu : Nat} (s₀ : Bpf) {es : List BpfEvent} (hquiet : ∀ e ∈ es, e.Quiet)
    (hcpu : ∀ e ∈ es, e.OnCpus ncpu) : HitBooks ncpu s₀ es where
  entries := hitCount_run s₀ hquiet
  slots := run_keeps (I := fun s : Bpf => s.maps.wildcardPolicyMap = s₀.maps.wildcardPolicyMap) (E := BpfEvent.Quiet)
    (fun _ _ h he => (wildcardPolicyMap_step he).trans h) rfl hquiet
  total := by
    have hrun := run_eq_add_tally (P := fun e : BpfEvent => e.Quiet ∧ e.OnCpus ncpu)
      (fun s => readStat ncpu s .policyHits - liveHits s) (w := fun s e => (scanHit s e).toNat)
      (fun s e he => by
        rw [readStat_step he.2, hit_gains, liveHits_step he.1, Nat.cast_add]
        abel) s₀ fun e he => ⟨hquiet e he, hcpu e he⟩
    rw [hrun, countEvents, BitVec.natCast_eq_ofNat]
  connections key := sessionless_eq key s₀ es

/-- A connection with an exact entry: its session is hit, evicted, refused once and recreated. -/
theorem recreated_hits : HitBooks 2 deniedSys.bpf recreated :=
  hits_accounted deniedSys.bpf (by simp [recreated, BpfEvent.Quiet])
    (by simp [recreated, BpfEvent.OnCpus, BpfEvent.cpu])

end Microseg
