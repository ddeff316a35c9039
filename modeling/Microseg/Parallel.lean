import Microseg.Interference
/-!
# Verdicts and counters of racing CPUs (`tc_microsegment.bpf.c:63-320`)

One CPU, whatever the others do between its accesses: each part of the program with what it answers and what the CPU
has done after it (`After`), from `update_stats` to a whole queue (`serve_meets`).
-/
namespace Microseg.Multicore
open Words KernelMap Atomic Prog World

variable {s₀ : Bpf} {queues : List (List (Exec × SkBuff))} {w : World s₀ queues} {j : Nat} {o : Own} {key : FlowKey}

/-- A CPU relies on its own counters and on what is there, and guarantees the same to the others. -/
def contract (j : Nat) : Contract (World s₀ queues) where
  rely w w' := w'.own j = w.own j ∧ w.Grows w'
  guarantee w w' := (∀ c, c ≠ j → w'.own c = w.own c) ∧ w.Grows w'
  refl w := ⟨rfl, .refl w⟩
  trans h h' := ⟨h'.1.trans h.1, h.2.trans h'.2⟩

theorem guarantee_rely {i : Nat} (h : i ≠ j) (w w' : World s₀ queues) (hg : (contract i).guarantee w w') :
    (contract j).rely w w' := ⟨hg.1 j (Ne.symm h), hg.2⟩

/-- CPU `j` has done `o`, and nothing has gone away since `w`. -/
structure After (w : World s₀ queues) (j : Nat) (o : Own) (w' : World s₀ queues) : Prop where
  own : w'.own j = o
  grows : w.Grows w'

/-- One thing after another. -/
theorem After.then {w' w'' : World s₀ queues} {f : Own → Own} (h : After w j o w') (h' : After w' j (f (w'.own j)) w'') :
    After w j (f o) w'' :=
  ⟨h'.own.trans (congrArg f h.own), h.grows.trans h'.grows⟩

/-- What the CPU has done since includes what it had done. -/
theorem After.since {w' w'' : World s₀ queues} {o' : Own} (h : After w j o' w') (h' : After w' j o w'') : After w j o w'' :=
  ⟨h'.own, h.grows.trans h'.grows⟩

theorem After.keep {w' w'' : World s₀ queues} (h : After w j o w') (h' : After w' j (w'.own j) w'') : After w j o w'' :=
  h.then (f := fun o => o) h'

theorem After.stable {w' w'' : World s₀ queues} (h : After w j o w') (hr : (contract j).rely w' w'') : After w j o w'' :=
  ⟨hr.1.trans h.own, h.grows.trans hr.2⟩

theorem after_rely {w' : World s₀ queues} (hr : (contract j).rely w w') : After w j (w.own j) w' := ⟨hr.1, hr.2⟩

/-- What the program of CPU `j` does from `w`. -/
abbrev Does {α : Type} (j : Nat) (post : α → World s₀ queues → Prop) (p : Prog Bpf α) (w : World s₀ queues) : Prop :=
  Meets World.bpf (contract j) post p w

/-! ## Single accesses -/

/-- A read sees the maps of some moment after `w`. -/
theorem does_read {α : Type} (f : Bpf → α) :
    Does j (fun a w' => After w j (w.own j) w' ∧ ∃ u : World s₀ queues, w.Grows u ∧ u.own j = w.own j ∧ u.Grows w' ∧ a = f u.bpf)
      (act fun s => (s, f s)) w :=
  meets_read (fun w => ⟨fun _ _ => rfl, .refl w⟩) fun u _ hu hu' =>
    ⟨(after_rely hu).stable hu', u, hu.2, hu.1, hu'.2, rfl⟩

/-- A write is a step of the CPU. -/
theorem does_write {upd : Bpf → Bpf} (h : ∀ w', (contract j).rely w w' → ∃ u, u.bpf = upd w'.bpf ∧ w'.Steps j o u) :
    Does j (fun _ w' => After w j o w') (act fun s => (upd s, ())) w :=
  meets_act fun w' hr =>
    let ⟨u, hu, hsteps⟩ := h w' hr
    ⟨u, hu, ⟨hsteps.others, hsteps.grows⟩, fun _ hr' => ⟨hr'.1.trans hsteps.own, (hr.2.trans hsteps.grows).trans hr'.2⟩⟩

/-- `update_stats`: nobody else writes the CPU's counter between the load and the store. -/
theorem updateStats_does (k : StatsKey) : Does j (fun _ w' => After w j ((w.own j).count k) w') (updateStats j k) w := by
  refine meets_bind (does_read fun s => s.statsMap j k) ?_
  rintro count w₁ ⟨h₁, u, _, hown, _, rfl⟩
  refine (does_write (o := (w₁.own j).count k) fun w₂ hr => ?_).mono fun _ w' h => h₁.then h
  obtain ⟨v, hv, hsteps⟩ := exists_setStat w₂ j k
  have hcount : w₂.bpf.statsMap j k = u.bpf.statsMap j k :=
    congrFun (congrArg Own.counters ((hr.1.trans h₁.own).trans hown.symm)) k
  rw [hcount] at hv
  rw [hr.1] at hsteps
  exact ⟨v, hv, hsteps⟩

/-! ## The session -/

theorem sessionLookup_does : Does j (fun session w' => After w j (w.own j) w' ∧
    (session.isSome → (w'.bpf.sessionMap.lookup key).isSome)) (sessionLookup key) w :=
  (does_read fun s => s.sessionMap.lookup key).mono fun _ _ ⟨h, _, _, _, hgrows, he⟩ =>
    ⟨h, fun hsome => hgrows.sessions key (he ▸ hsome)⟩

/-- A load through a pointer that is still in the map. -/
theorem loadSession_does {α : Type} (hkey : (w.bpf.sessionMap.lookup key).isSome) (session : SessionValue)
    (field : SessionValue → α) :
    Does j (fun a w' => After w j (w.own j) w' ∧ ∃ (u : World s₀ queues) (v : SessionValue), u.Grows w' ∧
      u.bpf.sessionMap.lookup key = some v ∧ a = field v)
      (loadSession key session field) w := by
  refine (does_read fun s => field ((s.sessionMap.lookup key).getD session)).mono ?_
  rintro _ w' ⟨h, u, hgrows, _, hgrows', rfl⟩
  obtain ⟨v, hv⟩ := Option.isSome_iff_exists.1 (hgrows.sessions key hkey)
  exact ⟨h, u, v, hgrows', hv, by rw [hv, Option.getD_some]⟩

/-- A store to a field the others never decide by. -/
theorem storeSession_does (hj : j < queues.length) {field : SessionValue → SessionValue}
    (hact : ∀ v, (field v).policyAction = v.policyAction) (hpackets : ∀ v, (field v).packetsToServer = v.packetsToServer) :
    Does j (fun _ w' => After w j (w.own j) w') (storeSession key field) w := by
  refine (does_write fun w₁ hr => ?_)
  obtain ⟨u, hu, hsteps⟩ := exists_storeSession w₁ hj key hact 0
    (fun v hv => by
      rw [hpackets]
      exact w₁.cells (.packets key) v.packetsToServer (by rw [Cell.read, hv]; rfl))
    (w₁.demanded j (.packets key))
  rw [Own.store_zero, hr.1] at hsteps
  exact ⟨u, hu, hsteps⟩

/-- A loaded value and the increment of it that is stored, `m` stores later at most. -/
theorem increment_within {x base : U64} {m m' : Nat} (h : ∃ n ≤ m, x = base + BitVec.ofNat 64 n) (hm : m ≤ m') :
    ∃ n ≤ m' + 1, x + 1 = base + BitVec.ofNat 64 n := by
  obtain ⟨n, hn, rfl⟩ := h
  exact ⟨n + 1, Nat.add_le_add_right (hn.trans hm) 1, by rw [BitVec.ofNat_add, ← BitVec.add_assoc]; rfl⟩

/-- The store of `packets_to_server += 1`, however old the loaded value is. -/
theorem storePackets_does (hj : j < queues.length) {packets : U64}
    (hloaded : ∃ n ≤ w.stored (.packets key), packets = ((Cell.packets key).read s₀).getD 0 + BitVec.ofNat 64 n)
    (hroom : (w.own j).ghost.stores (.packets key) + 1 ≤ demand (queues.getD j []) key) :
    Does j (fun _ w' => After w j ((w.own j).store (.packets key) 1) w')
      (storeSession key fun v => { v with packetsToServer := packets + 1 }) w := by
  refine does_write fun w₁ hr => ?_
  rw [← hr.1] at hroom ⊢
  exact exists_storeSession w₁ hj key (f := fun v => { v with packetsToServer := packets + 1 }) (fun _ => rfl) 1
    (fun _ _ => increment_within hloaded (hr.2.stored_le _)) hroom

/-! ## The lookup -/

theorem policyLookup_does : Does j (fun policy w' => After w j (w.own j) w' ∧
    policy.map stripHits = (s₀.maps.policyMap.lookup key).map stripHits) (policyLookup key) w :=
  (does_read fun s => s.maps.policyMap.lookup key).mono fun _ _ ⟨h, u, _, _, _, he⟩ =>
    ⟨h, by rw [he]; exact (u.policies.policyMap key).symm⟩

/-- A load through a pointer to a policy: the field of the policy that was there from the start. -/
theorem loadPolicy_does {α : Type} {p : PolicyValue} (hkey : s₀.maps.policyMap.lookup key = some p) (policy : PolicyValue)
    (field : PolicyValue → α) :
    Does j (fun a w' => After w j (w.own j) w' ∧ ∃ (u : World s₀ queues) (v : PolicyValue), u.Grows w' ∧
      u.bpf.maps.policyMap.lookup key = some v ∧ stripHits v = stripHits p ∧ a = field v) (loadPolicy key policy field) w := by
  refine (does_read fun s => field ((s.maps.policyMap.lookup key).getD policy)).mono ?_
  rintro _ w' ⟨h, u, _, _, hgrows', rfl⟩
  have hstrip := u.policies.policyMap key
  rw [hkey, Option.map_some] at hstrip
  obtain ⟨v, hv, he⟩ := Option.map_eq_some_iff.1 hstrip.symm
  exact ⟨h, u, v, hgrows', hv, he, by rw [hv, Option.getD_some]⟩

/-- The store of `hit_count += 1`. -/
theorem storeHit_does (hj : j < queues.length) {hitCount : U64}
    (hloaded : ∃ n ≤ w.stored (.hits key), hitCount = ((Cell.hits key).read s₀).getD 0 + BitVec.ofNat 64 n)
    (hroom : (w.own j).ghost.stores (.hits key) + 1 ≤ demand (queues.getD j []) key) :
    Does j (fun _ w' => After w j ((w.own j).store (.hits key) 1) w')
      (storePolicy key fun v => { v with hitCount := hitCount + 1 }) w := by
  refine does_write fun w₁ hr => ?_
  rw [← hr.1] at hroom ⊢
  exact exists_storeHit w₁ hj key (increment_within hloaded (hr.2.stored_le _)) hroom

/-- The scan sees the slots as they were at the start. -/
theorem scan_does (is : List Nat) (best : Best) :
    Does j (fun b w' => After w j (w.own j) w' ∧ b = Microseg.scan key s₀.maps.wildcardPolicyMap is best) (scan key is best) w := by
  induction is generalizing best w with
  | nil => exact meets_pure fun w' hr => ⟨after_rely hr, rfl⟩
  | cons i is ih =>
    rw [scan, Microseg.scan]
    split
    · exact meets_pure fun w' hr => ⟨after_rely hr, rfl⟩
    · refine meets_bind (does_read fun s => scanSlot key s.maps.wildcardPolicyMap i best) ?_
      rintro b w₁ ⟨h₁, u, _, _, _, rfl⟩
      refine (ih _).mono ?_
      rintro b' w₂ ⟨h₂, rfl⟩
      exact ⟨h₁.keep h₂, by rw [u.policies.wildcardPolicyMap]⟩

/-- What a lookup leaves: one hit or miss counted, and a store to the policy it found. -/
def lookedUp (m : PolicyMaps) (key : FlowKey) (o : Own) : Own :=
  (o.store (.hits key) (m.policyMap.lookup key).isSome.toNat).count (if Hit m key then .policyHits else .policyMisses)

/-- **`lookup_policy_action`** gives the decision of the policies, whoever else counts hits. -/
theorem lookupPolicyAction_does (hj : j < queues.length)
    (hroom : (w.own j).ghost.stores (.hits key) + 1 ≤ demand (queues.getD j []) key) :
    Does j (fun a w' => After w j (lookedUp s₀.maps key (w.own j)) w' ∧ a = decision s₀.maps key)
      (lookupPolicyAction j key) w := by
  refine meets_bind policyLookup_does ?_
  rintro policy w₁ ⟨h₁, hpolicy⟩
  rw [← h₁.own] at hroom
  cases hp : s₀.maps.policyMap.lookup key with
  | some p =>
    rw [hp, Option.map_some] at hpolicy
    obtain ⟨policy, rfl, _⟩ := Option.map_eq_some_iff.1 hpolicy
    refine meets_bind (loadPolicy_does hp policy PolicyValue.hitCount) ?_
    rintro hitCount w₂ ⟨h₂, u, v, hgrows, hv, _, rfl⟩
    rw [← h₂.own] at hroom
    have hloaded := u.cells (.hits key) v.hitCount (by rw [Cell.read, hv]; rfl)
    have hloaded' : ∃ n ≤ w₂.stored (.hits key), v.hitCount = ((Cell.hits key).read s₀).getD 0 + BitVec.ofNat 64 n := by
      obtain ⟨n, hn, he⟩ := hloaded
      exact ⟨n, hn.trans (hgrows.stored_le _), he⟩
    refine meets_bind (storeHit_does hj hloaded' hroom) fun _ w₃ h₃ => ?_
    refine meets_bind (updateStats_does .policyHits) fun _ w₄ h₄ => ?_
    refine meets_bind (loadPolicy_does hp policy PolicyValue.ruleId) ?_
    rintro ruleId w₅ ⟨h₅, _, v₅, _, _, hv₅, rfl⟩
    refine meets_bind (loadPolicy_does hp policy PolicyValue.action) ?_
    rintro action w₆ ⟨h₆, _, v₆, _, _, hv₆, rfl⟩
    have hown := (((((h₁.keep h₂).then h₃).then h₄).keep h₅).keep h₆)
    refine meets_pure fun w₇ hr => ⟨?_, ?_⟩
    · have hhit : Hit s₀.maps key := Or.inl (by rw [hp]; rfl)
      rw [lookedUp, if_pos hhit, hp]
      exact hown.stable hr
    · have ha := congrArg PolicyValue.action hv₆
      have hi := congrArg PolicyValue.ruleId hv₅
      rw [decision_exact hp]
      exact Prod.ext ha hi
  | none =>
    rw [hp, Option.map_none, Option.map_eq_none_iff] at hpolicy
    subst hpolicy
    refine meets_bind (scan_does (List.range scanLimit) (none, 0)) ?_
    rintro best w₂ ⟨h₂, rfl⟩
    have hdecision : decision s₀.maps key = answer (bestMatch key s₀.maps.wildcardPolicyMap) := decision_scan hp
    have hstore : (w.own j).store (.hits key) (s₀.maps.policyMap.lookup key).isSome.toNat = w.own j := by
      rw [hp, Option.isSome_none, Bool.toNat_false, Own.store_zero]
    have hnone : (s₀.maps.policyMap.lookup key).isSome = false := by rw [hp]; rfl
    rw [lookedUp, hstore, hdecision]
    cases hb : bestMatch key s₀.maps.wildcardPolicyMap with
    | some b =>
      have hhit : Hit s₀.maps key := Or.inr (by rw [hb]; rfl)
      rw [if_pos hhit]
      rw [bestMatch] at hb
      rw [hb]
      refine meets_bind (updateStats_does .policyHits) fun _ w₃ h₃ => meets_pure fun w₄ hr => ?_
      exact ⟨((h₁.keep h₂).then h₃).stable hr, rfl⟩
    | none =>
      have hmiss : ¬Hit s₀.maps key := by
        rintro (h | h)
        · rw [hnone] at h
          cases h
        · rw [hb] at h
          cases h
      rw [if_neg hmiss]
      rw [bestMatch] at hb
      rw [hb]
      refine meets_bind (updateStats_does .policyMisses) fun _ w₃ h₃ => meets_pure fun w₄ hr => ?_
      exact ⟨((h₁.keep h₂).then h₃).stable hr, rfl⟩

/-! ## The new session -/

/-- The submission of an event for a session that only this CPU created. -/
theorem submit_does (hj : j < queues.length) {event : FlowEvent}
    (hnew : (w.own j).ghost.reported.count event.key + 1 ≤ (w.own j).ghost.created.count event.key) :
    Does j (fun _ w' => After w j ((w.own j).report event.key) w') (submit event) w := by
  refine does_write fun w₁ hr => ?_
  rw [← hr.1] at hnew ⊢
  exact exists_submit w₁ hj hnew

/-- What an attempt to create a session leaves: nothing, or the session, counted and perhaps reported. -/
inductive Attempt (key : FlowKey) (o : Own) : Own → Prop
  | failed : Attempt key o o
  | created : Attempt key o ((o.create key).count .newSessions)
  | reported : Attempt key o (((o.create key).count .newSessions).report key)

/-- **`create_session`**: the kernel's insert admits one CPU, and only that one goes on to report the flow. -/
theorem createSession_does {x : Exec} (hj : x.cpu < queues.length) (ts : U64) (len : U32)
    (hroom : (w.own x.cpu).ghost.stores (.packets key) + 1 ≤ demand (queues.getD x.cpu []) key) :
    Does x.cpu (fun _ w' => ∃ o, After w x.cpu o w' ∧ Attempt key (w.own x.cpu) o)
      (createSession x key (decision s₀.maps key).1 ts len) w := by
  have hinsert : Does x.cpu (fun created w' => (created = false ∧ After w x.cpu (w.own x.cpu) w') ∨
      (created = true ∧ After w x.cpu ((w.own x.cpu).create key) w' ∧
        (w'.ghost x.cpu).reported.count key + 1 ≤ (w'.ghost x.cpu).created.count key))
      (sessionInsert x key (newSession (decision s₀.maps key).1 ts len)) w := by
    refine meets_act fun w₁ hr => ?_
    rw [← hr.1] at hroom
    cases hm : x.insert key (newSession (decision s₀.maps key).1 ts len) w₁.bpf.sessionMap with
    | none => exact ⟨w₁, rfl, ⟨fun _ _ => rfl, .refl w₁⟩, fun _ hr' => Or.inl ⟨rfl, (after_rely hr).stable hr'⟩⟩
    | some m =>
      have hput : w₁.bpf.sessionMap.putNew key (newSession (decision s₀.maps key).1 ts len) = some m := by
        unfold Exec.insert at hm
        split at hm
        · exact hm
        · cases hm
      obtain ⟨u, hu, hsteps, hnew⟩ := exists_insert w₁ hj hput rfl rfl hroom
      refine ⟨u, hu, ⟨hsteps.others, hsteps.grows⟩, fun u' hr' => Or.inr ⟨rfl, ?_, ?_⟩⟩
      · exact ⟨by rw [hr'.1, hsteps.own, hr.1], (hr.2.trans hsteps.grows).trans hr'.2⟩
      · have hghost : u'.ghost x.cpu = u.ghost x.cpu := congrArg Own.ghost hr'.1
        rw [hghost]
        exact hnew
  refine meets_bind hinsert ?_
  rintro created w₁ (⟨rfl, h₁⟩ | ⟨rfl, h₁, hnew⟩)
  · exact meets_pure fun w₂ hr => ⟨_, h₁.stable hr, .failed⟩
  · simp only [if_true]
    refine meets_bind (updateStats_does .newSessions) fun _ w₂ h₂ => ?_
    have hghost : w₂.ghost x.cpu = w₁.ghost x.cpu := congrArg Own.ghost h₂.own
    rw [← hghost] at hnew
    split
    · refine meets_bind (submit_does hj hnew) fun _ w₃ h₃ => meets_pure fun w₄ hr => ?_
      exact ⟨_, ((h₁.then h₂).then h₃).stable hr, .reported⟩
    · exact meets_pure fun w₃ hr => ⟨_, (h₁.then h₂).stable hr, .created⟩

/-! ## A packet -/

theorem enforce_does (action : U8) : Does j (fun v w' =>
    After w j ((w.own j).count (if action = PolicyAction.deny.code then .deniedPackets else .allowedPackets)) w' ∧
      v = verdict action) (enforce j action) w := by
  unfold enforce verdict
  split
  · exact meets_bind (updateStats_does _) fun _ w₁ h₁ => meets_pure fun _ hr => ⟨h₁.stable hr, rfl⟩
  · exact meets_bind (updateStats_does _) fun _ w₁ h₁ => meets_pure fun _ hr => ⟨h₁.stable hr, rfl⟩

/-- What serving a packet with a key leaves: it was counted and its session updated, or it was looked up and its session
attempted. -/
inductive Handled (m : PolicyMaps) (key : FlowKey) (o : Own) : Own → Prop
  | cached : Handled m key o (((o.count .totalPackets).store (.packets key) 1).count
      (if (decision m key).1 = PolicyAction.deny.code then .deniedPackets else .allowedPackets))
  | decided {o' : Own} (h : Attempt key (lookedUp m key (o.count .totalPackets)) o') : Handled m key o (o'.count
      (if (decision m key).1 = PolicyAction.deny.code then .deniedPackets else .allowedPackets))

/-- **One packet** among the accesses of the other CPUs. -/
theorem filter_does {x : Exec} {skb : SkBuff} (hj : x.cpu < queues.length) (hkey : extractFlowKey skb = some (some key))
    (hroom : ∀ cell : Cell, cell.key = key → (w.own x.cpu).ghost.stores cell + 1 ≤ demand (queues.getD x.cpu []) key) :
    Does x.cpu (fun v w' => v = verdict (decision s₀.maps key).1 ∧
      ∃ o, After w x.cpu o w' ∧ Handled s₀.maps key (w.own x.cpu) o) (tcMicrosegmentFilter x skb) w := by
  simp only [tcMicrosegmentFilter, hkey]
  refine meets_bind (updateStats_does .totalPackets) fun _ w₁ h₁ => meets_bind sessionLookup_does ?_
  rintro session w₂ ⟨h₂, hsession⟩
  have hown₂ := (h₁.keep h₂).own
  have hghost : (w₂.own x.cpu).ghost = (w.own x.cpu).ghost := by rw [hown₂]; rfl
  rw [← hghost] at hroom
  cases session with
  | some session =>
    have hthere := hsession rfl
    refine meets_bind (loadSession_does hthere session SessionValue.policyAction) ?_
    rintro action w₃ ⟨h₃, u, v, _, hv, rfl⟩
    rw [u.sessions key v hv]
    refine meets_bind (storeSession_does hj (fun _ => rfl) fun _ => rfl) fun _ w₄ h₄ => ?_
    have hgrows := h₃.grows.trans h₄.grows
    refine meets_bind (loadSession_does (hgrows.sessions key hthere) session SessionValue.packetsToServer) ?_
    rintro packets w₅ ⟨h₅, u', v', hgrows', hv', rfl⟩
    have hloaded : ∃ n ≤ w₅.stored (.packets key),
        v'.packetsToServer = ((Cell.packets key).read s₀).getD 0 + BitVec.ofNat 64 n := by
      obtain ⟨n, hn, he⟩ := u'.cells (.packets key) v'.packetsToServer (by rw [Cell.read, hv']; rfl)
      exact ⟨n, hn.trans (hgrows'.stored_le _), he⟩
    have hroom₅ := hroom (.packets key) rfl
    have h₂₅ := (h₃.keep h₄).keep h₅
    rw [← h₂₅.own] at hroom₅
    refine meets_bind (storePackets_does hj hloaded hroom₅) fun _ w₆ h₆ => ?_
    have hthere₆ := (h₂₅.grows.trans h₆.grows).sessions key hthere
    refine meets_bind (loadSession_does hthere₆ session SessionValue.bytesToServer) ?_
    rintro bytes w₇ ⟨h₇, _⟩
    refine meets_bind (storeSession_does hj (fun _ => rfl) fun _ => rfl) fun _ w₈ h₈ => ?_
    refine (enforce_does _).mono ?_
    rintro v₉ w₉ ⟨h₉, rfl⟩
    exact ⟨rfl, _, ((((h₁.keep h₂).keep h₂₅).then h₆ |>.keep h₇).keep h₈).then h₉, .cached⟩
  | none =>
    refine meets_bind (lookupPolicyAction_does hj (hroom (.hits key) rfl)) ?_
    rintro a w₃ ⟨h₃, rfl⟩
    have hroom₃ : (w₃.own x.cpu).ghost.stores (.packets key) + 1 ≤ demand (queues.getD x.cpu []) key := by
      rw [h₃.own]
      exact hroom (.packets key) rfl
    refine meets_bind (createSession_does hj x.ktime skb.len hroom₃) ?_
    rintro _ w₄ ⟨o, h₄, hattempt⟩
    refine (enforce_does _).mono ?_
    rintro v₅ w₅ ⟨h₅, rfl⟩
    rw [h₃.own, hown₂] at hattempt
    exact ⟨rfl, _, (h₁.keep h₂).since (h₃.since (h₄.then h₅)), .decided hattempt⟩

/-! ## A queue -/

@[simp] theorem store_counters (o : Own) (cell : Cell) (n : Nat) : (o.store cell n).counters = o.counters := rfl

@[simp] theorem create_counters (o : Own) (key : FlowKey) : (o.create key).counters = o.counters := rfl

@[simp] theorem report_counters (o : Own) (key : FlowKey) : (o.report key).counters = o.counters := rfl

@[simp] theorem count_ghost (o : Own) (k : StatsKey) : (o.count k).ghost = o.ghost := rfl

theorem count_counters (o : Own) (k k' : StatsKey) :
    (o.count k).counters k' = o.counters k' + BitVec.ofNat 64 (if k' = k then 1 else 0) := by
  by_cases hk : k' = k <;> simp [Own.count, hk]

theorem demand_append (ps qs : List (Exec × SkBuff)) (k : FlowKey) : demand (ps ++ qs) k = demand ps k + demand qs k :=
  List.countP_append

/-- What serving packets adds to what CPU `c` has done. -/
structure Served (m : PolicyMaps) (c : Nat) (packets : List (Exec × SkBuff)) (o o' : Own) : Prop where
  verdicts : ∀ k, k.IsVerdict → o'.counters k =
    o.counters k + BitVec.ofNat 64 ((packets.map fun p => share m c k (p.1.cpu, p.2)).sum)
  newSessions : o'.counters .newSessions + BitVec.ofNat 64 o.ghost.created.length =
    o.counters .newSessions + BitVec.ofNat 64 o'.ghost.created.length
  stores : ∀ cell, o'.ghost.stores cell ≤ o.ghost.stores cell + demand packets cell.key

theorem served_nil (m : PolicyMaps) (c : Nat) (o : Own) : Served m c [] o o :=
  ⟨fun k _ => by simp, rfl, fun _ => Nat.le_add_right _ _⟩

theorem served_rejected (m : PolicyMaps) (c : Nat) {p : Exec × SkBuff} (hkey : (extractFlowKey p.2).join = none) (o : Own) :
    Served m c [p] o o where
  verdicts k _ := by
    have hshare : share m c k (p.1.cpu, p.2) = 0 := by rw [share, hkey]
    rw [List.map_singleton, List.sum_singleton, hshare]
    exact (BitVec.add_zero _).symm
  newSessions := rfl
  stores _ := Nat.le_add_right _ _

theorem Served.append {m : PolicyMaps} {c : Nat} {ps qs : List (Exec × SkBuff)} {o o' o'' : Own} (h : Served m c ps o o')
    (h' : Served m c qs o' o'') : Served m c (ps ++ qs) o o'' where
  verdicts k hk := by
    rw [h'.verdicts k hk, h.verdicts k hk, List.map_append, List.sum_append, BitVec.ofNat_add, BitVec.add_assoc]
  newSessions := by
    have h₁ := h.newSessions
    have h₂ := h'.newSessions
    bv_omega
  stores cell := by
    have h₁ := h.stores cell
    have h₂ := h'.stores cell
    rw [demand_append]
    omega

/-- An attempt to create a session moves no verdict, counts what it creates and stores at most once. -/
theorem Attempt.spec {o o' : Own} (h : Attempt key o o') :
    (∀ k, k ≠ .newSessions → o'.counters k = o.counters k) ∧
    (o'.counters .newSessions + BitVec.ofNat 64 o.ghost.created.length =
      o.counters .newSessions + BitVec.ofNat 64 o'.ghost.created.length) ∧
    ∀ cell, o'.ghost.stores cell ≤ o.ghost.stores cell + if cell = .packets key then 1 else 0 := by
  have hother : ∀ k, k ≠ .newSessions → ((o.create key).count .newSessions).counters k = o.counters k := fun k hk => by
    rw [count_counters, if_neg hk, create_counters]
    exact BitVec.add_zero _
  have hnew : ((o.create key).count .newSessions).counters .newSessions + BitVec.ofNat 64 o.ghost.created.length =
      o.counters .newSessions + BitVec.ofNat 64 (key :: o.ghost.created).length := by
    rw [count_counters, if_pos rfl, create_counters, List.length_cons, BitVec.ofNat_add, BitVec.add_assoc,
      BitVec.add_comm (BitVec.ofNat 64 1)]
  cases h with
  | failed => exact ⟨fun _ _ => rfl, rfl, fun _ => Nat.le_add_right _ _⟩
  | created => exact ⟨hother, hnew, fun _ => Nat.le_refl _⟩
  | reported => exact ⟨hother, hnew, fun _ => Nat.le_refl _⟩

theorem demand_singleton (p : Exec × SkBuff) (hkey : extractFlowKey p.2 = some (some key)) (k : FlowKey) :
    demand [p] k = if k = key then 1 else 0 := by
  rw [demand, List.countP_singleton, hkey]
  exact if_congr (by simp [eq_comm]) rfl rfl

/-- The verdict of a packet is counted where a packet alone counts it. -/
theorem share_singleton (m : PolicyMaps) (p : Exec × SkBuff) (hkey : extractFlowKey p.2 = some (some key)) (k : StatsKey) :
    ([p].map fun p' => share m p.1.cpu k (p'.1.cpu, p'.2)).sum = (if k = .totalPackets then 1 else 0) +
      if k = (if (decision m key).1 = PolicyAction.deny.code then .deniedPackets else .allowedPackets) then 1 else 0 := by
  rw [List.map_singleton, List.sum_singleton, share, hkey, ← fastGains_eq]
  exact if_pos rfl

theorem served_of_handled {m : PolicyMaps} {p : Exec × SkBuff} (hkey : extractFlowKey p.2 = some (some key)) {o o' : Own}
    (h : Handled m key o o') : Served m p.1.cpu [p] o o' where
  verdicts k hk := by
    rw [share_singleton m p hkey, BitVec.ofNat_add, ← BitVec.add_assoc]
    cases h with
    | cached => rw [count_counters, store_counters, count_counters]
    | decided h =>
      have hnew : k ≠ .newSessions := by
        rintro rfl
        rcases hk with h | h | h <;> cases h
      have hlook : k ≠ (if Hit m key then .policyHits else .policyMisses) := by
        rintro rfl
        split at hk <;> rcases hk with h | h | h <;> cases h
      rw [count_counters, h.spec.1 k hnew, lookedUp, count_counters, if_neg hlook, store_counters, count_counters]
      congr 1
      exact BitVec.add_zero _
  newSessions := by
    have hv : StatsKey.newSessions ≠ (if (decision m key).1 = PolicyAction.deny.code then .deniedPackets else .allowedPackets) := by
      split <;> decide
    have hl : StatsKey.newSessions ≠ (if Hit m key then .policyHits else .policyMisses) := by
      split <;> decide
    have ht : StatsKey.newSessions ≠ .totalPackets := by decide
    have hcount : ∀ (o : Own) k, StatsKey.newSessions ≠ k → (o.count k).counters .newSessions = o.counters .newSessions :=
      fun o k hk => by
        rw [count_counters, if_neg hk]
        exact BitVec.add_zero _
    cases h with
    | cached =>
      rw [hcount _ _ hv, store_counters, hcount _ _ ht]
      rfl
    | decided h =>
      have hattempt := h.spec.2.1
      rw [lookedUp, hcount _ _ hl, store_counters, hcount _ _ ht] at hattempt
      rw [hcount _ _ hv]
      exact hattempt
  stores cell := by
    rw [demand_singleton p hkey]
    cases h with
    | cached =>
      refine Nat.add_le_add_left ?_ _
      split
      · next hc =>
        rw [hc]
        exact (if_pos rfl).ge
      · exact Nat.zero_le _
    | decided h =>
      refine (h.spec.2.2 cell).trans ?_
      have hlook : (lookedUp m key (o.count .totalPackets)).ghost.stores cell =
          o.ghost.stores cell + if cell = .hits key then (m.policyMap.lookup key).isSome.toNat else 0 := rfl
      have hone : (m.policyMap.lookup key).isSome.toNat ≤ 1 := Bool.toNat_le _
      rw [hlook, Nat.add_assoc]
      refine Nat.add_le_add_left ?_ _
      cases cell with
      | hits k =>
        rw [if_neg (c := Cell.hits k = .packets key) (by simp), Cell.key]
        split
        · next hc =>
          cases hc
          rw [if_pos rfl]
          exact hone
        · exact Nat.zero_le _
      | packets k =>
        rw [if_neg (c := Cell.packets k = .hits key) (by simp), Nat.zero_add, Cell.key]
        split
        · next hc =>
          cases hc
          rw [if_pos rfl]
        · exact Nat.zero_le _

/-- **One CPU**: every packet of the queue gets the verdict of the policies. -/
theorem serve_does (hj : j < queues.length) {packets : List (Exec × SkBuff)} (hcpu : ∀ p ∈ packets, p.1.cpu = j)
    (hroom : ∀ cell : Cell, (w.own j).ghost.stores cell + demand packets cell.key ≤ demand (queues.getD j []) cell.key) :
    Does j (fun vs w' => vs = packets.map (fun p => lookupVerdict s₀ (p.1.cpu, p.2)) ∧
      ∃ o, After w j o w' ∧ Served s₀.maps j packets (w.own j) o) (serve packets) w := by
  induction packets generalizing w with
  | nil => exact meets_pure fun w' hr => ⟨rfl, _, after_rely hr, served_nil _ _ _⟩
  | cons p packets ih =>
    obtain ⟨x, skb⟩ := p
    have hx : x.cpu = j := hcpu (x, skb) (by simp)
    subst hx
    have hcons : ∀ k, demand ((x, skb) :: packets) k = demand [(x, skb)] k + demand packets k := demand_append [(x, skb)] packets
    have hpacket : Does x.cpu (fun v w' => v = lookupVerdict s₀ (x.cpu, skb) ∧
        ∃ o, After w x.cpu o w' ∧ Served s₀.maps x.cpu [(x, skb)] (w.own x.cpu) o) (tcMicrosegmentFilter x skb) w := by
      rcases extractFlowKey_cases skb with ⟨hkey, _⟩ | ⟨f, hkey, _⟩
      · simp only [tcMicrosegmentFilter, hkey]
        exact meets_pure fun w' hr =>
          ⟨by rw [lookupVerdict, hkey]; rfl, _, after_rely hr, served_rejected _ _ (by rw [hkey]; rfl) _⟩
      · refine (filter_does hj hkey fun cell hcell => ?_).mono ?_
        · have hall := hroom cell
          rw [hcons, demand_singleton (x, skb) hkey, hcell, if_pos rfl] at hall
          omega
        · rintro v w' ⟨rfl, o, hafter, hhandled⟩
          refine ⟨?_, o, hafter, served_of_handled (p := (x, skb)) hkey hhandled⟩
          have hlook := Microseg.lookupPolicyAction_eq x.cpu f.key s₀
          rw [lookupVerdict, hkey]
          exact (congrArg (fun r => verdict r.2.1) hlook).symm
    refine meets_bind hpacket ?_
    rintro v w₁ ⟨rfl, o, h₁, hserved⟩
    have hroom₁ : ∀ cell : Cell,
        (w₁.own x.cpu).ghost.stores cell + demand packets cell.key ≤ demand (queues.getD x.cpu []) cell.key := fun cell => by
      have hbefore := hroom cell
      have hstores := hserved.stores cell
      rw [hcons] at hbefore
      rw [h₁.own]
      omega
    refine meets_bind (ih (fun p hp => hcpu p (by simp [hp])) hroom₁) ?_
    rintro vs w₂ ⟨rfl, o', h₂, hserved'⟩
    rw [h₁.own] at hserved'
    exact meets_pure fun w₃ hr => ⟨rfl, o', (h₁.since h₂).stable hr, hserved.append hserved'⟩

/-! ## All CPUs -/

/-- Before any CPU has done anything. -/
def World.start (h : Cached s₀.maps s₀) (queues : List (List (Exec × SkBuff))) : World s₀ queues where
  bpf := s₀
  ghost _ := ⟨[], [], fun _ => 0⟩
  policies := sameButHits_refl _
  sessions := h.sessions
  created _ := by simp
  size := by simp
  events _ := by simp
  reported _ _ := Nat.le_refl _
  cells cell v hv := ⟨0, Nat.zero_le _, by rw [hv]; exact (BitVec.add_zero v).symm⟩
  demanded _ _ := Nat.zero_le _

/-- What holds while and after the CPUs serve their queues from `s₀` on, of the programs that are left and the maps. -/
structure Unbroken (s₀ : Bpf) (queues : List (List (Exec × SkBuff))) (c : List (Prog Bpf (List Int)) × Bpf) : Prop where
  policies : s₀.maps.SameButHits c.2.maps
  sessions : ∀ key v, c.2.sessionMap.lookup key = some v → v.policyAction = (decision s₀.maps key).1
  kept : ∀ key, (s₀.sessionMap.lookup key).isSome → (c.2.sessionMap.lookup key).isSome
  /-- A flow is reported at most once, and only if it got its session meanwhile. -/
  reports : ∀ key, c.2.flowEvents.countP (fun e => e.key = key) + (s₀.sessionMap.lookup key).isSome.toNat ≤
    s₀.flowEvents.countP (fun e => e.key = key) + (c.2.sessionMap.lookup key).isSome.toNat
  /-- Racing counters may lose packets, but never count one that was not there. -/
  cells : ∀ (cell : Cell) v, cell.read c.2 = some v → ∃ n ≤ demand queues.flatten cell.key,
    v = (cell.read s₀).getD 0 + BitVec.ofNat 64 n
  /-- A CPU that is done has given each packet the verdict it gets alone at the start, and counted them all. -/
  finished : ∀ (j : Nat) queue vs, queues[j]? = some queue → c.1[j]? = some (.done vs) →
    vs = queue.map (fun p => (Microseg.tcMicrosegmentFilter p.1 p.2 s₀).2) ∧
    ∀ k, k.IsVerdict → c.2.statsMap j k =
      s₀.statsMap j k + BitVec.ofNat 64 ((queue.map fun p => share s₀.maps j k (p.1.cpu, p.2)).sum)
  /-- Once all are done, `NewSessions` has grown as the table has. -/
  newSessions : (∀ (j : Nat) p, c.1[j]? = some p → ∃ vs, p = Prog.done vs) →
    readStat queues.length c.2 .newSessions + BitVec.ofNat 64 s₀.sessionMap.size =
      readStat queues.length s₀ .newSessions + BitVec.ofNat 64 c.2.sessionMap.size

/-- **The CPUs side by side.** -/
theorem pool_serves (h : Cached s₀.maps s₀) (hcpu : ∀ (j : Nat) queue, queues[j]? = some queue → ∀ p ∈ queue, p.1.cpu = j)
    (schedule : List Nat) :
    PoolMeets (World.bpf : World s₀ queues → Bpf) contract (fun j vs w' => ∀ queue, queues[j]? = some queue →
        vs = queue.map (fun p => lookupVerdict s₀ (p.1.cpu, p.2)) ∧
        Served s₀.maps j queue ⟨s₀.statsMap j, ⟨[], [], fun _ => 0⟩⟩ (w'.own j))
      (Runs.run (poolStep Prog.step) (queues.map serve, s₀) schedule) := by
  refine pool_meets (fun i j hij => guarantee_rely hij) ⟨World.start h queues, rfl, fun j p hp => ?_⟩ schedule
  rw [List.getElem?_map, Option.map_eq_some_iff] at hp
  obtain ⟨queue, hqueue, rfl⟩ := hp
  have hj : j < queues.length := (List.getElem?_eq_some_iff.1 hqueue).1
  have hget : queues.getD j [] = queue := by rw [List.getD_eq_getElem?_getD, hqueue, Option.getD_some]
  refine (serve_does hj (hcpu j queue hqueue) fun cell => ?_).mono ?_
  · rw [hget]
    exact (Nat.zero_add _).le
  · rintro vs w' ⟨rfl, o, hafter, hserved⟩ queue' hqueue'
    rw [hqueue] at hqueue'
    cases hqueue'
    rw [hafter.own]
    exact ⟨rfl, hserved⟩

/-- The packets of all queues. -/
theorem sum_demand (queues : List (List (Exec × SkBuff))) (key : FlowKey) :
    ∑ c ∈ Finset.range queues.length, demand (queues.getD c []) key = demand queues.flatten key := by
  induction queues with
  | nil => rfl
  | cons queue queues ih =>
    rw [List.length_cons, Finset.sum_range_succ', List.flatten_cons, demand_append, ← ih, Nat.add_comm]
    rfl

/-- Each CPU's counter by its own amount. -/
theorem readStat_add {n : Nat} {s s' : Bpf} {k : StatsKey} {f : Nat → Nat}
    (h : ∀ c, c < n → s'.statsMap c k = s.statsMap c k + BitVec.ofNat 64 (f c)) :
    readStat n s' k = readStat n s k + BitVec.ofNat 64 (∑ c ∈ Finset.range n, f c) := by
  rw [readStat_eq_sum, readStat_eq_sum]
  induction n with
  | zero => exact (BitVec.add_zero _).symm
  | succ n ih =>
    have ih := ih fun c hc => h c (Nat.lt_succ_of_lt hc)
    rw [List.range_succ, List.map_append, List.map_append, List.sum_append, List.sum_append, List.map_singleton,
      List.map_singleton, List.sum_singleton, List.sum_singleton, ih, h n (Nat.lt_succ_self n), Finset.sum_range_succ,
      BitVec.ofNat_add]
    ac_rfl

theorem pool_unbroken (h : Cached s₀.maps s₀)
    (hcpu : ∀ (j : Nat) queue, queues[j]? = some queue → ∀ p ∈ queue, p.1.cpu = j) (schedule : List Nat) :
    Unbroken s₀ queues (Runs.run (poolStep Prog.step) (queues.map serve, s₀) schedule) := by
  obtain ⟨w, hw, hmeets⟩ := pool_serves h hcpu schedule
  have hserved : ∀ (j : Nat) queue vs, queues[j]? = some queue →
      (Runs.run (poolStep Prog.step) (queues.map serve, s₀) schedule).1[j]? = some (.done vs) →
      vs = queue.map (fun p => lookupVerdict s₀ (p.1.cpu, p.2)) ∧
      Served s₀.maps j queue ⟨s₀.statsMap j, ⟨[], [], fun _ => 0⟩⟩ (w.own j) :=
    fun j queue vs hqueue hdone => (hmeets j _ hdone).result queue hqueue
  have hlen : (Runs.run (poolStep Prog.step) (queues.map serve, s₀) schedule).1.length = queues.length := by
    rw [run_poolStep_length, List.length_map]
  generalize Runs.run (poolStep Prog.step) (queues.map serve, s₀) schedule = c at hw hserved hlen ⊢
  obtain ⟨left, bpf⟩ := c
  dsimp only at hw hserved hlen
  subst hw
  have hstart : ∀ key, (s₀.sessionMap.lookup key).isSome.toNat ≤ (w.bpf.sessionMap.lookup key).isSome.toNat := fun key =>
    (w.created key).symm ▸ Nat.le_add_right _ _
  refine ⟨w.policies, w.sessions, fun key hk => ?_, fun key => ?_, fun cell v hv => ?_, fun j queue vs hqueue hdone => ?_,
    fun hdone => ?_⟩
  · have hle := hstart key
    rw [hk, Bool.toNat_true] at hle
    cases hs : (w.bpf.sessionMap.lookup key).isSome with
    | true => rfl
    | false =>
      rw [hs] at hle
      cases hle
  · have hcreated := w.created key
    have hreported := Finset.sum_le_sum fun c (_ : c ∈ Finset.range queues.length) => w.reported c key
    have hevents := w.events key
    dsimp only
    omega
  · obtain ⟨n, hn, he⟩ := w.cells cell v hv
    refine ⟨n, hn.trans ?_, he⟩
    rw [← sum_demand]
    exact Finset.sum_le_sum fun c _ => w.demanded c cell
  · obtain ⟨hvs, hown⟩ := hserved j queue vs hqueue hdone
    refine ⟨hvs.trans ?_, hown.verdicts⟩
    exact List.map_congr_left fun p _ => (h.verdict_eq p.1 p.2).symm
  · have hcount : ∀ c, c < queues.length → w.bpf.statsMap c .newSessions =
        s₀.statsMap c .newSessions + BitVec.ofNat 64 (w.ghost c).created.length := fun c hc => by
      obtain ⟨queue, hqueue⟩ : ∃ queue, queues[c]? = some queue := ⟨_, List.getElem?_eq_getElem hc⟩
      obtain ⟨p, hp⟩ : ∃ p, left[c]? = some p := ⟨_, List.getElem?_eq_getElem (hlen ▸ hc)⟩
      obtain ⟨vs, rfl⟩ := hdone c p hp
      have hnew := (hserved c queue vs hqueue hp).2.newSessions
      exact (BitVec.add_zero _).symm.trans hnew
    dsimp only
    rw [readStat_add hcount, w.size, BitVec.ofNat_add]
    ac_rfl

/-- Both CPUs receive a packet of the same new connection. -/
def oneConnection : List (List (Exec × SkBuff)) :=
  [[(⟨0, 1, true, true⟩, packet443)], [(⟨1, 2, true, true⟩, packet443), (⟨1, 3, true, true⟩, packet443)]]

/-- The CPUs take turns. -/
def alternating : List Nat := (List.replicate 300 [0, 1]).flatten

end Microseg.Multicore
