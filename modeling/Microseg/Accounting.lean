import Microseg.Statistics
/-!
# Session accounting (`src/bpf/tc_microsegment.bpf.c:208-305`)

The packet that creates a session is credited by the initialiser of `create_session`, later ones by the
update on the fast path. `Account` is the meaning of a session over the packets it has seen, as a list:

| here (list of packets) | there (`struct session_value`) |
|---|---|
| length, modulo 2^64 | `packets_to_server` |
| sum of `skb->len`, modulo 2^64 | `bytes_to_server` |
| time of the first | `created_ts` |
| time of the last | `last_seen_ts` |

`session_account` shows that a live session is the account of the packets with its key since the one that
created it; `credit_step` is the balance of one event, and `session_accounting` puts the two together.
-/
namespace Microseg
open Words KernelMap Runs

/-! ## The packets of a key -/

/-- The packet of an event, if it has this key. -/
def BpfEvent.packetOf (key : FlowKey) : BpfEvent → Option (Exec × SkBuff)
  | .packet x skb => if (BpfEvent.packet x skb).key = some key then some (x, skb) else none
  | _ => none

/-- The packets of a run that have this key. -/
def ofKey (key : FlowKey) (es : List BpfEvent) : List (Exec × SkBuff) := es.filterMap (BpfEvent.packetOf key)

/-- The time an execution sees. -/
def BpfEvent.ktime : BpfEvent → Option U64
  | .packet x _ => some x.ktime
  | _ => none

/-- The clock does not go back. -/
def ClockMonotone (es : List BpfEvent) : Prop := (es.filterMap BpfEvent.ktime).Pairwise (· ≤ ·)

theorem packetOf_of_key {key : FlowKey} {x : Exec} {skb : SkBuff} (h : (BpfEvent.packet x skb).key = some key) :
    (BpfEvent.packet x skb).packetOf key = some (x, skb) := if_pos h

theorem packetOf_of_ne {key : FlowKey} {e : BpfEvent} (h : e.key ≠ some key) : e.packetOf key = none := by
  cases e with
  | packet x skb => exact if_neg h
  | evict k => rfl
  | policies maps => rfl

theorem packetOf_eq_some {key : FlowKey} {e : BpfEvent} {p : Exec × SkBuff} (h : e.packetOf key = some p) :
    e.ktime = some p.1.ktime := by
  cases e with
  | packet x skb =>
    by_cases hk : (BpfEvent.packet x skb).key = some key
    · rw [packetOf_of_key hk] at h
      cases h; rfl
    · rw [packetOf_of_ne hk] at h; cases h
  | evict k => cases h
  | policies maps => cases h

theorem ofKey_concat (key : FlowKey) (es : List BpfEvent) (e : BpfEvent) :
    ofKey key (es ++ [e]) = ofKey key es ++ (e.packetOf key).toList := by
  rw [ofKey, List.filterMap_append]
  cases h : e.packetOf key <;> simp [ofKey, h]

/-- The packets of a key come in the order of their times. -/
theorem ofKey_times {es : List BpfEvent} (h : ClockMonotone es) (key : FlowKey) :
    (ofKey key es).Pairwise fun p q => p.1.ktime ≤ q.1.ktime := by
  rw [ClockMonotone, List.pairwise_filterMap] at h
  rw [ofKey, List.pairwise_filterMap]
  refine h.imp ?_
  intro _ _ hle p hp q hq
  exact hle _ (packetOf_eq_some hp) _ (packetOf_eq_some hq)

/-! ## The account of a session -/

/-- The session has seen exactly these packets. -/
structure Account (v : SessionValue) (ps : List (Exec × SkBuff)) : Prop where
  packets : v.packetsToServer = BitVec.ofNat 64 ps.length
  bytes : v.bytesToServer = BitVec.ofNat 64 (ps.map fun p => p.2.len.toNat).sum
  created : ps.head?.map (fun p => p.1.ktime) = some v.createdTs
  lastSeen : ps.getLast?.map (fun p => p.1.ktime) = some v.lastSeenTs

/-- The initialiser of `create_session` credits the first packet. -/
theorem account_new (action : U8) (x : Exec) (skb : SkBuff) : Account (newSession action x.ktime skb.len) [(x, skb)] where
  packets := rfl
  bytes := by simp [newSession]
  created := rfl
  lastSeen := rfl

/-- The fast path credits the packet it handles. -/
theorem Account.touch {v : SessionValue} {ps : List (Exec × SkBuff)} (h : Account v ps) (x : Exec) (skb : SkBuff) :
    Account (touch x skb.len v) (ps ++ [(x, skb)]) where
  packets := by
    rw [Microseg.touch, h.packets, List.length_append, BitVec.ofNat_add]; rfl
  bytes := by
    simp only [Microseg.touch, h.bytes, List.map_append, List.sum_append, BitVec.ofNat_add]
    simp
  created := by
    have hne : ps ≠ [] := by
      rintro rfl
      cases h.created
    rw [List.head?_append_of_ne_nil _ hne]
    exact h.created
  lastSeen := by rw [List.getLast?_concat]; rfl

/-- A count that a 64-bit counter holds is read back. -/
theorem Account.packets_toNat {v : SessionValue} {ps : List (Exec × SkBuff)} (h : Account v ps) (hlt : ps.length < 2 ^ 64) :
    v.packetsToServer.toNat = ps.length := by
  rw [h.packets, BitVec.toNat_ofNat, Nat.mod_eq_of_lt hlt]

theorem Account.created_le_lastSeen {v : SessionValue} {ps : List (Exec × SkBuff)} (h : Account v ps)
    (hps : ps.Pairwise fun p q => p.1.ktime ≤ q.1.ktime) : v.createdTs ≤ v.lastSeenTs := by
  obtain ⟨p, hp, hcreated⟩ := Option.map_eq_some_iff.1 h.created
  obtain ⟨q, hq, hlast⟩ := Option.map_eq_some_iff.1 h.lastSeen
  obtain ⟨rest, rfl⟩ := List.head?_eq_some_iff.1 hp
  rw [← hcreated, ← hlast]
  rcases List.mem_cons.1 (List.mem_of_getLast? hq) with rfl | hmem
  · exact BitVec.le_refl _
  · exact (List.pairwise_cons.1 hps).1 q hmem

/-- **One event** keeps the account of a session that it leaves live. -/
theorem account_step {s : Bpf} {e : BpfEvent} {key : FlowKey} {v v' : SessionValue} {ps : List (Exec × SkBuff)}
    (hv : s.sessionMap.lookup key = some v) (h : Account v ps) (hv' : (s.step e).sessionMap.lookup key = some v') :
    Account v' (ps ++ (e.packetOf key).toList) := by
  rcases session_cases s e key with ⟨hk, hkept | ⟨_, hgone⟩⟩ | ⟨x, skb, w, rfl, hk, hw, hcredited⟩ | ⟨x, skb, _, _, hnone, _⟩
  · -- not a packet of the session
    rw [hkept, hv] at hv'
    cases hv'
    rw [packetOf_of_ne hk, Option.toList_none, List.append_nil]
    exact h
  · rw [hgone] at hv'; cases hv'
  · rw [hv] at hw
    cases hw
    rw [hcredited] at hv'
    cases hv'
    rw [packetOf_of_key hk]
    exact h.touch x skb
  · rw [hnone] at hv; cases hv

/-! ## The life of a session -/

/-- `e` creates the session of the key. -/
def CreatesSession (key : FlowKey) (s : Bpf) (e : BpfEvent) : Prop :=
  ∃ x skb, e = .packet x skb ∧ e.key = some key ∧
    (s.step e).sessionMap.lookup key = some (newSession (decision s.maps key).1 x.ktime skb.len)

/-- A session appears only by being created. -/
theorem live_step (key : FlowKey) (s : Bpf) (e : BpfEvent) (b : Unit)
    (h : ((s.step e).sessionMap.lookup key).map (fun _ => ()) = some b) :
    (s.sessionMap.lookup key).map (fun _ => ()) = some b ∨
      ((s.sessionMap.lookup key).map (fun _ => ()) = none ∧ CreatesSession key s e) := by
  rcases session_cases s e key with ⟨_, hkept | ⟨_, hgone⟩⟩ | ⟨x, skb, v, _, _, hv, _⟩ |
    ⟨x, skb, he, hk, hnone, hfailed | hnew⟩
  · rw [hkept] at h
    exact Or.inl h
  · rw [hgone] at h; cases h
  · exact Or.inl (by rw [hv]; rfl)
  · rw [hfailed] at h; cases h
  · exact Or.inr ⟨by rw [hnone]; rfl, x, skb, he, hk, hnew⟩

/-- The packet `x, skb` created the session of the key after `pre`, and it has been live since. -/
structure LiveSince (s₀ : Bpf) (pre : List BpfEvent) (x : Exec) (skb : SkBuff) (post : List BpfEvent) (key : FlowKey) :
    Prop where
  parsed : (BpfEvent.packet x skb).key = some key
  fresh : (run Bpf.step s₀ pre).sessionMap.lookup key = none
  live : ∀ mid rest, post = mid ++ rest → ((run Bpf.step s₀ (pre ++ .packet x skb :: mid)).sessionMap.lookup key).isSome

/-- **A live session** is the account of the packets with its key since the one that created it. -/
theorem session_account {s₀ : Bpf} {key : FlowKey} (h₀ : s₀.sessionMap.lookup key = none) {es : List BpfEvent}
    {v : SessionValue} (hv : (run Bpf.step s₀ es).sessionMap.lookup key = some v) :
    ∃ pre x skb post, es = pre ++ .packet x skb :: post ∧ LiveSince s₀ pre x skb post key ∧
      Account v (ofKey key (.packet x skb :: post)) := by
  have hlive : ((run Bpf.step s₀ es).sessionMap.lookup key).map (fun _ => ()) = some () := by rw [hv]; rfl
  have hnone₀ : (s₀.sessionMap.lookup key).map (fun _ => ()) = none := by rw [h₀]; rfl
  obtain ⟨pre, e, post, rfl, hpre, ⟨x, skb, rfl, hk, hnew⟩, hsince⟩ :=
    exists_birth (fun s : Bpf => (s.sessionMap.lookup key).map fun _ => ()) (live_step key) hnone₀ es hlive
  have hlives : ∀ mid rest, post = mid ++ rest →
      ∃ w, (run Bpf.step s₀ (pre ++ .packet x skb :: mid)).sessionMap.lookup key = some w := by
    intro mid rest hsplit
    obtain ⟨w, hw, _⟩ := Option.map_eq_some_iff.1 (hsince mid rest hsplit)
    exact ⟨w, hw⟩
  -- by induction on the events since: live all along, so each step keeps the account
  have haccount : ∀ mid rest, post = mid ++ rest → ∀ w,
      (run Bpf.step s₀ (pre ++ .packet x skb :: mid)).sessionMap.lookup key = some w →
        Account w (ofKey key (.packet x skb :: mid)) := by
    intro mid
    induction mid using List.reverseRecOn with
    | nil =>
      intro rest _ w hw
      rw [run_concat, hnew] at hw
      cases hw
      rw [ofKey, List.filterMap_cons, packetOf_of_key hk]
      exact account_new _ x skb
    | append_singleton mid f ih =>
      intro rest hsplit w' hw'
      have hsplit' : post = mid ++ f :: rest := by rw [hsplit, List.append_assoc]; rfl
      obtain ⟨w, hw⟩ := hlives mid (f :: rest) hsplit'
      rw [← List.cons_append, ← List.append_assoc, run_concat] at hw'
      rw [← List.cons_append, ofKey_concat]
      exact account_step hw (ih (f :: rest) hsplit' w hw) hw'
  refine ⟨pre, x, skb, post, rfl, ⟨hk, Option.map_eq_none_iff.1 hpre, fun mid rest hsplit => ?_⟩,
    haccount post [] (List.append_nil post).symm v hv⟩
  obtain ⟨w, hw⟩ := hlives mid rest hsplit
  rw [hw]; rfl

/-- A packet leaves the session of every other key. -/
theorem session_other {s : Bpf} {x : Exec} {skb : SkBuff} {key : FlowKey} (h : (BpfEvent.packet x skb).key ≠ some key) :
    (s.step (.packet x skb)).sessionMap.lookup key = s.sessionMap.lookup key := by
  rcases session_cases s (.packet x skb) key with ⟨_, hkept | ⟨he, _⟩⟩ | ⟨_, _, _, _, hk, _⟩ | ⟨_, _, _, hk, _⟩
  · exact hkept
  · cases he
  · exact absurd hk h
  · exact absurd hk h

/-! ## The balance of the credits -/

/-- The packets credited to the live sessions. -/
def liveCredit (s : Bpf) : U64 := s.sessionMap.sum SessionValue.packetsToServer

/-- The packets credited to the session that an eviction removes. -/
def evictedCredit (s : Bpf) : BpfEvent → Nat
  | .evict key => s.sessionMap.share (fun v => v.packetsToServer.toNat) key
  | _ => 0

/-- A parsed packet that finds no session and leaves none: its insert failed. -/
def insertFailed (s : Bpf) (e : BpfEvent) : Bool :=
  e.key.any fun key => (s.sessionMap.lookup key).isNone && ((s.step e).sessionMap.lookup key).isNone

theorem evictedCredit_cast (s : Bpf) (key : FlowKey) :
    (evictedCredit s (.evict key) : U64) = s.sessionMap.share SessionValue.packetsToServer key := by
  rw [evictedCredit]
  cases h : s.sessionMap.lookup key with
  | none => rw [HashMap.share_none h, HashMap.share_none h]; rfl
  | some v => rw [HashMap.share_some h, HashMap.share_some h, BitVec.natCast_eq_ofNat, BitVec.ofNat_toNat, BitVec.setWidth_eq]

/-- **One event**: what the sessions hold, what was evicted and what no insert took balances with the parsed packet. -/
theorem liveCredit_step (s : Bpf) (e : BpfEvent) :
    liveCredit (s.step e) + (evictedCredit s e + (insertFailed s e).toNat : U64) = liveCredit s + ((parsed s e).toNat : U64) := by
  cases e with
  | policies maps => rfl
  | evict key =>
    have hoff : ∀ k, k ≠ key → (s.step (.evict key)).sessionMap.lookup k = s.sessionMap.lookup k := fun k hk => by
      rw [Bpf.step, HashMap.lookup_erase, if_neg hk]
    have hgone : (s.step (.evict key)).sessionMap.lookup key = none := by rw [Bpf.step, HashMap.lookup_erase, if_pos rfl]
    have hsum := HashMap.sum_off (f := SessionValue.packetsToServer) hoff
    rw [HashMap.share_none hgone] at hsum
    rw [evictedCredit_cast]
    simpa [liveCredit, insertFailed, parsed, BpfEvent.key] using hsum
  | packet x skb =>
    cases hk : (BpfEvent.packet x skb).key with
    | none =>
      have hstep : s.step (.packet x skb) = s := by rw [Bpf.step, filter_eq, hk]
      simp [hstep, evictedCredit, insertFailed, parsed, hk]
    | some key =>
      have hoff : ∀ k, k ≠ key → (s.step (.packet x skb)).sessionMap.lookup k = s.sessionMap.lookup k := fun k hne =>
        session_other (by rw [hk]; simp [Ne.symm hne])
      have hsum := HashMap.sum_off (f := SessionValue.packetsToServer) hoff
      have hparsed : parsed s (.packet x skb) = true := by rw [parsed, hk]; rfl
      rw [hparsed, insertFailed, hk, Option.any_some]
      rcases session_cases s (.packet x skb) key with ⟨hne, _⟩ | ⟨y, b, v, _, _, hv, hv'⟩ | ⟨y, b, _, _, hv, hv' | hv'⟩
      · exact absurd hk hne
      · -- credited to its session
        have hshare : (touch y b.len v).packetsToServer = v.packetsToServer + 1 := rfl
        rw [HashMap.share_some hv, HashMap.share_some hv', hshare, add_comm v.packetsToServer, ← add_assoc] at hsum
        simpa [hv, evictedCredit, liveCredit] using add_right_cancel hsum
      · -- the insert failed
        rw [HashMap.share_none hv, HashMap.share_none hv', add_zero, add_zero] at hsum
        simp [hv, hv', evictedCredit, liveCredit, hsum]
      · -- credited by the initialiser
        have hshare : (newSession (decision s.maps key).1 y.ktime b.len).packetsToServer = 1 := rfl
        rw [HashMap.share_none hv, HashMap.share_some hv', hshare, add_zero] at hsum
        simp [hv, hv', evictedCredit, liveCredit, hsum]

/-- **One event** moves the total and the credit of the live sessions apart by what was evicted or failed. -/
theorem credit_step {ncpu : Nat} {e : BpfEvent} (h : e.OnCpus ncpu) (s : Bpf) :
    readStat ncpu (s.step e) .totalPackets - liveCredit (s.step e) =
      readStat ncpu s .totalPackets - liveCredit s + ((evictedCredit s e + (insertFailed s e).toNat : Nat) : U64) := by
  have hbalance := liveCredit_step s e
  rw [← Nat.cast_add] at hbalance
  rw [readStat_step h, parsed_gains, sub_add_eq_add_sub, sub_eq_sub_iff_add_eq_add, add_assoc, add_assoc,
    add_comm _ (liveCredit s), ← hbalance, add_comm (liveCredit (s.step e))]

/-- The books of a run: its live sessions, its packets, its total. -/
structure Books (ncpu : Nat) (s₀ : Bpf) (es : List BpfEvent) : Prop where
  sessions : ∀ key v, (run Bpf.step s₀ es).sessionMap.lookup key = some v →
    ∃ pre x skb post, es = pre ++ .packet x skb :: post ∧ LiveSince s₀ pre x skb post key ∧
      Account v (ofKey key (.packet x skb :: post)) ∧
      ((ofKey key (.packet x skb :: post)).length < 2 ^ 64 →
        v.packetsToServer.toNat = (ofKey key (.packet x skb :: post)).length) ∧
      v.createdTs ≤ v.lastSeenTs
  others : ∀ pre x skb post key, es = pre ++ .packet x skb :: post → (BpfEvent.packet x skb).key ≠ some key →
    (run Bpf.step s₀ (pre ++ [.packet x skb])).sessionMap.lookup key = (run Bpf.step s₀ pre).sessionMap.lookup key
  total : readStat ncpu (run Bpf.step s₀ es) .totalPackets = liveCredit (run Bpf.step s₀ es) +
    BitVec.ofNat 64 (tally Bpf.step evictedCredit s₀ es) + BitVec.ofNat 64 (countEvents insertFailed s₀ es)

/-- **Session accounting**: after any run of packets, evictions and policy changes from an empty session map and zeroed
counters, under a clock that does not go back, each live session is the account of the packets with its key since
the one that created it, no packet has touched another key's session, and the packets credited to the live sessions
and to those that were evicted, with those whose insert failed, add up to the total. -/
theorem session_accounting {ncpu : Nat} {s₀ : Bpf} (h₀ : ∀ k, s₀.sessionMap.lookup k = none)
    (hz : ∀ c k, s₀.statsMap c k = 0) {es : List BpfEvent} (hes : ∀ e ∈ es, e.OnCpus ncpu) (hclock : ClockMonotone es) :
    Books ncpu s₀ es where
  sessions key v hv := by
    obtain ⟨pre, x, skb, post, rfl, hsince, haccount⟩ := session_account (h₀ key) hv
    have htimes : (ofKey key (pre ++ .packet x skb :: post)).Pairwise fun p q => p.1.ktime ≤ q.1.ktime :=
      ofKey_times hclock key
    rw [ofKey, List.filterMap_append] at htimes
    exact ⟨pre, x, skb, post, rfl, hsince, haccount, haccount.packets_toNat,
      haccount.created_le_lastSeen (List.pairwise_append.1 htimes).2.1⟩
  others pre x skb post key _ hkey := by
    rw [run_concat, session_other hkey]
  total := by
    have hrun := run_eq_add_tally (fun s => readStat ncpu s .totalPackets - liveCredit s)
      (fun s _ he => credit_step he s) s₀ hes
    have hlive₀ : liveCredit s₀ = 0 := HashMap.sum_empty h₀
    rw [readStat_zero hz, hlive₀, sub_zero, zero_add, tally_add, Nat.cast_add] at hrun
    rw [sub_eq_iff_eq_add.1 hrun, countEvents, ← BitVec.natCast_eq_ofNat, ← BitVec.natCast_eq_ofNat]
    abel

/-- A connection whose session is hit once, evicted, not taken back by a full map and then recreated. -/
def recreated : List BpfEvent :=
  [.packet ⟨0, 1, true, true⟩ packet443, .packet ⟨1, 3, true, true⟩ packet443, .evict toPort443.key,
    .packet ⟨1, 4, false, true⟩ packet443, .packet ⟨0, 4, true, true⟩ packet443]

theorem recreated_books : Books 2 deniedSys.bpf recreated :=
  session_accounting HashMap.lookup_empty (fun _ _ => rfl) (by simp [recreated, BpfEvent.OnCpus, BpfEvent.cpu])
    (by unfold ClockMonotone; decide)

end Microseg
