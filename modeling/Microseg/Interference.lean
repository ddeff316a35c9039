import Mathlib.Algebra.BigOperators.Group.Finset.Piecewise
import Mathlib.Algebra.Order.BigOperators.Group.Finset
import Microseg.Multicore
/-!
# What racing CPUs cannot break (`tc_microsegment.bpf.c:63-320`)

The CPUs of `Microseg.Multicore` interleave access by access, and the increments of a session's `packets_to_server` and
a policy's `hit_count` race. A proof state (`World`) is the maps with what each CPU has done so far, and carries what
holds at every moment: sessions have the action the policies decide, the table has grown by the sessions created, a
flow is reported at most once, and no racing counter says more than what was stored. Each CPU relies on the others to
leave its own counters alone and to take no session away, and guarantees as much (`contract`). `unbroken` puts the CPUs
together by the parallel rule.
-/
namespace Microseg.Multicore
open Words KernelMap Atomic Prog

/-! ## What a CPU has done -/

/-- A counter in a map element, incremented by a load and a store. -/
inductive Cell where
  | hits (key : PolicyKey)
  | packets (key : FlowKey)
deriving DecidableEq

namespace Cell

def key : Cell → FlowKey
  | hits key => key
  | packets key => key

def read (s : Bpf) : Cell → Option U64
  | hits key => (s.maps.policyMap.lookup key).map PolicyValue.hitCount
  | packets key => (s.sessionMap.lookup key).map SessionValue.packetsToServer

end Cell

/-- What one CPU has created, reported and stored. -/
structure Ghost where
  created : List FlowKey
  reported : List FlowKey
  stores : Cell → Nat

/-- What belongs to one CPU: its counters in `stats_map`, and what it has done. -/
structure Own where
  counters : StatsKey → U64
  ghost : Ghost

namespace Own

def count (k : StatsKey) (o : Own) : Own := { o with counters := fun k' => if k' = k then o.counters k' + 1 else o.counters k' }

/-- `n` stores to the cell. -/
def store (cell : Cell) (n : Nat) (o : Own) : Own :=
  { o with ghost.stores := fun c => o.ghost.stores c + if c = cell then n else 0 }

/-- A new session, with its first packet. -/
def create (key : FlowKey) (o : Own) : Own := { o.store (.packets key) 1 with ghost.created := key :: o.ghost.created }

def report (key : FlowKey) (o : Own) : Own := { o with ghost.reported := key :: o.ghost.reported }

@[simp] theorem store_zero (cell : Cell) (o : Own) : o.store cell 0 = o := by
  have hstores : (fun c => o.ghost.stores c + if c = cell then 0 else 0) = o.ghost.stores := by
    funext c
    rw [ite_self, Nat.add_zero]
  rw [store, hstores]

end Own

/-- The packets of a queue with the key. -/
def demand (queue : List (Exec × SkBuff)) (key : FlowKey) : Nat :=
  queue.countP fun p => (extractFlowKey p.2).join = some key

/-! ## The state of the proof -/

/-- The maps while the CPUs serve their queues from `s₀` on, with what each CPU has done. -/
structure World (s₀ : Bpf) (queues : List (List (Exec × SkBuff))) where
  bpf : Bpf
  ghost : Nat → Ghost
  policies : s₀.maps.SameButHits bpf.maps
  sessions : ∀ key v, bpf.sessionMap.lookup key = some v → v.policyAction = (decision s₀.maps key).1
  created : ∀ key, (bpf.sessionMap.lookup key).isSome.toNat =
    (s₀.sessionMap.lookup key).isSome.toNat + ∑ c ∈ Finset.range queues.length, (ghost c).created.count key
  size : bpf.sessionMap.size = s₀.sessionMap.size + ∑ c ∈ Finset.range queues.length, (ghost c).created.length
  events : ∀ key, bpf.flowEvents.countP (fun e => e.key = key) = s₀.flowEvents.countP (fun e => e.key = key) +
    ∑ c ∈ Finset.range queues.length, (ghost c).reported.count key
  reported : ∀ c key, (ghost c).reported.count key ≤ (ghost c).created.count key
  /-- A racing counter may have lost stores, but has gained nothing else. -/
  cells : ∀ cell v, cell.read bpf = some v → ∃ n ≤ ∑ c ∈ Finset.range queues.length, (ghost c).stores cell,
    v = (cell.read s₀).getD 0 + BitVec.ofNat 64 n
  demanded : ∀ c cell, (ghost c).stores cell ≤ demand (queues.getD c []) cell.key

theorem count_cons_key (k key : FlowKey) (l : List FlowKey) : (key :: l).count k = l.count k + if k = key then 1 else 0 := by
  rw [List.count_cons]
  by_cases hk : k = key
  · rw [hk, if_pos rfl, if_pos (beq_self_eq_true key)]
  · rw [if_neg hk, if_neg (fun h => hk (beq_iff_eq.1 h).symm)]

/-- One CPU's part of a sum. -/
theorem sum_update {n j : Nat} (hj : j < n) (ghost : Nat → Ghost) (g : Ghost) {f : Ghost → Nat} {d : Nat}
    (hd : f g = f (ghost j) + d) :
    ∑ c ∈ Finset.range n, f (Function.update ghost j g c) = ∑ c ∈ Finset.range n, f (ghost c) + d := by
  have hmem : j ∈ Finset.range n := Finset.mem_range.2 hj
  have hrest : ∑ c ∈ (Finset.range n).erase j, f (Function.update ghost j g c) = ∑ c ∈ (Finset.range n).erase j, f (ghost c) :=
    Finset.sum_congr rfl fun c hc => by rw [Function.update_of_ne (Finset.ne_of_mem_erase hc)]
  rw [← Finset.add_sum_erase _ _ hmem, ← Finset.add_sum_erase _ (fun c => f (ghost c)) hmem, hrest,
    Function.update_self, hd]
  omega

namespace World

variable {s₀ : Bpf} {queues : List (List (Exec × SkBuff))} (w : World s₀ queues) {j : Nat}

def own (j : Nat) : Own := ⟨w.bpf.statsMap j, w.ghost j⟩

/-- What all CPUs have stored to a cell. -/
def stored (cell : Cell) : Nat := ∑ c ∈ Finset.range queues.length, (w.ghost c).stores cell

/-- CPU `j` has done `o`. -/
def ghostOf (j : Nat) (o : Own) : Nat → Ghost := Function.update w.ghost j o.ghost

variable {w}

/-- What is there stays, and stores are only added. -/
structure Grows (w w' : World s₀ queues) : Prop where
  sessions : ∀ key, (w.bpf.sessionMap.lookup key).isSome → (w'.bpf.sessionMap.lookup key).isSome
  stores : ∀ c cell, (w.ghost c).stores cell ≤ (w'.ghost c).stores cell

theorem Grows.refl (w : World s₀ queues) : w.Grows w := ⟨fun _ h => h, fun _ _ => Nat.le_refl _⟩

theorem Grows.trans {w w' w'' : World s₀ queues} (h : w.Grows w') (h' : w'.Grows w'') : w.Grows w'' :=
  ⟨fun key hk => h'.sessions key (h.sessions key hk), fun c cell => (h.stores c cell).trans (h'.stores c cell)⟩

theorem Grows.stored_le {w w' : World s₀ queues} (h : w.Grows w') (cell : Cell) : w.stored cell ≤ w'.stored cell :=
  Finset.sum_le_sum fun c _ => h.stores c cell

/-- A session that is there now but was not at the start is one that a CPU created. -/
theorem count_created_eq_zero {w : World s₀ queues} {key : FlowKey} (h : w.bpf.sessionMap.lookup key = none) (hj : j < queues.length) :
    s₀.sessionMap.lookup key = none ∧ (w.ghost j).created.count key = 0 := by
  have hsum := w.created key
  rw [h, Option.isSome_none, Bool.toNat_false] at hsum
  have hone := Finset.single_le_sum (f := fun c => (w.ghost c).created.count key) (fun c _ => Nat.zero_le _)
    (Finset.mem_range.2 hj)
  refine ⟨?_, by omega⟩
  cases hs : s₀.sessionMap.lookup key with
  | none => rfl
  | some v =>
    rw [hs, Option.isSome_some, Bool.toNat_true] at hsum
    omega

/-! ## What a CPU can do to it -/

theorem stores_ghostOf_le {o : Own} (ho : ∀ cell, (w.ghost j).stores cell ≤ o.ghost.stores cell) (c : Nat) (cell : Cell) :
    (w.ghost c).stores cell ≤ (w.ghostOf j o c).stores cell := by
  by_cases hc : c = j
  · rw [hc, ghostOf, Function.update_self]
    exact ho cell
  · rw [ghostOf, Function.update_of_ne hc]

section Store

variable (hj : j < queues.length) {o : Own} {cell : Cell} {d : Nat}
  (ho : ∀ c, o.ghost.stores c = (w.ghost j).stores c + if c = cell then d else 0)

include ho

/-- After `d` stores to one cell, the others as they were. -/
theorem cells_store {bpf : Bpf} (hj : j < queues.length) (hother : ∀ c, c ≠ cell → c.read bpf = c.read w.bpf)
    (hcell : ∀ v, cell.read bpf = some v → ∃ n ≤ w.stored cell + d, v = (cell.read s₀).getD 0 + BitVec.ofNat 64 n)
    (c : Cell) (v : U64) (hv : c.read bpf = some v) :
    ∃ n ≤ ∑ i ∈ Finset.range queues.length, (w.ghostOf j o i).stores c, v = (c.read s₀).getD 0 + BitVec.ofNat 64 n := by
  have hsum := sum_update (f := fun g => g.stores c) hj w.ghost o.ghost (ho c)
  rw [ghostOf, hsum]
  by_cases hc : c = cell
  · subst hc
    rw [if_pos rfl]
    exact hcell v hv
  · rw [if_neg hc]
    rw [hother c hc] at hv
    exact w.cells c v hv

theorem demanded_store (hroom : (w.ghost j).stores cell + d ≤ demand (queues.getD j []) cell.key) (c : Nat) (cell' : Cell) :
    (w.ghostOf j o c).stores cell' ≤ demand (queues.getD c []) cell'.key := by
  by_cases hc : c = j
  · subst hc
    rw [ghostOf, Function.update_self, ho]
    by_cases hcell : cell' = cell
    · subst hcell
      rw [if_pos rfl]
      exact hroom
    · rw [if_neg hcell]
      exact w.demanded c cell'
  · rw [ghostOf, Function.update_of_ne hc]
    exact w.demanded c cell'

end Store

/-- A step of CPU `j` after which it has done `o`. -/
structure Steps (w : World s₀ queues) (j : Nat) (o : Own) (u : World s₀ queues) : Prop where
  own : u.own j = o
  others : ∀ c, c ≠ j → u.own c = w.own c
  grows : w.Grows u

/-- A write to one of the CPU's own counters. -/
theorem exists_setStat (w : World s₀ queues) (j : Nat) (k : StatsKey) :
    ∃ u, u.bpf = setStat j k (w.bpf.statsMap j k + 1) w.bpf ∧ w.Steps j ((w.own j).count k) u := by
  refine ⟨{ w with
    bpf := setStat j k (w.bpf.statsMap j k + 1) w.bpf
    cells := fun cell v hv => w.cells cell v (by cases cell <;> exact hv) }, rfl, ?_, fun c hc => ?_, fun _ h => h,
    fun _ _ => Nat.le_refl _⟩
  · simp only [own, Own.count, setStat, true_and]
    congr 1
    funext k'
    split
    · next hk => rw [hk]
    · rfl
  · simp only [own, setStat, hc, false_and, if_false]

/-- Stores to elements that are there, `d` of them to a racing counter. -/
theorem exists_store (w : World s₀ queues) (hj : j < queues.length) (cell : Cell) (d : Nat) {bpf : Bpf}
    (hpolicies : w.bpf.maps.SameButHits bpf.maps)
    (hsessions : ∀ key, (bpf.sessionMap.lookup key).map SessionValue.policyAction =
      (w.bpf.sessionMap.lookup key).map SessionValue.policyAction)
    (hsize : bpf.sessionMap.size = w.bpf.sessionMap.size) (hstats : bpf.statsMap = w.bpf.statsMap)
    (hevents : bpf.flowEvents = w.bpf.flowEvents) (hother : ∀ c, c ≠ cell → c.read bpf = c.read w.bpf)
    (hcell : ∀ v, cell.read bpf = some v → ∃ n ≤ w.stored cell + d, v = (cell.read s₀).getD 0 + BitVec.ofNat 64 n)
    (hroom : (w.ghost j).stores cell + d ≤ demand (queues.getD j []) cell.key) :
    ∃ u, u.bpf = bpf ∧ w.Steps j ((w.own j).store cell d) u := by
  have ho : ∀ c, ((w.own j).store cell d).ghost.stores c = (w.ghost j).stores c + if c = cell then d else 0 := fun _ => rfl
  have hsum : ∀ g : Ghost → Nat, g ((w.own j).store cell d).ghost = g (w.ghost j) →
      ∑ c ∈ Finset.range queues.length, g (w.ghostOf j ((w.own j).store cell d) c) =
        ∑ c ∈ Finset.range queues.length, g (w.ghost c) := fun g hg => sum_update (f := g) (d := 0) hj _ _ hg
  have hsome : ∀ key, (bpf.sessionMap.lookup key).isSome = (w.bpf.sessionMap.lookup key).isSome := fun key => by
    rw [← Option.isSome_map, hsessions, Option.isSome_map]
  refine ⟨{
    bpf
    ghost := w.ghostOf j ((w.own j).store cell d)
    policies := w.policies.trans hpolicies
    sessions := fun key v hv => ?_
    created := fun key => ?_
    size := ?_
    events := fun key => ?_
    reported := fun c key => ?_
    cells := cells_store ho hj hother hcell
    demanded := demanded_store ho hroom }, rfl, ?_, fun c hc => ?_, fun key hk => ?_, fun c cell' => ?_⟩
  · have hact := hsessions key
    rw [hv] at hact
    obtain ⟨v', hv', ha⟩ := Option.map_eq_some_iff.1 hact.symm
    rw [← ha]
    exact w.sessions key v' hv'
  · rw [hsum (fun g => g.created.count key) rfl, hsome]
    exact w.created key
  · rw [hsum (fun g => g.created.length) rfl, hsize]
    exact w.size
  · rw [hsum (fun g => g.reported.count key) rfl, hevents]
    exact w.events key
  · by_cases hc : c = j
    · rw [hc, ghostOf, Function.update_self]
      exact w.reported j key
    · rw [ghostOf, Function.update_of_ne hc]
      exact w.reported c key
  · simp only [own, ghostOf, Function.update_self, hstats]
    rfl
  · simp only [own, ghostOf, Function.update_of_ne hc, hstats]
  · rw [hsome]
    exact hk
  · exact stores_ghostOf_le (fun c' => (Nat.le_add_right _ _).trans (ho c').ge) c cell'

/-- A store to a session that leaves its action alone. -/
theorem exists_storeSession (w : World s₀ queues) (hj : j < queues.length) (key : FlowKey) {f : SessionValue → SessionValue}
    (hf : ∀ v, (f v).policyAction = v.policyAction) (d : Nat)
    (hcell : ∀ v, w.bpf.sessionMap.lookup key = some v → ∃ n ≤ w.stored (.packets key) + d,
      (f v).packetsToServer = ((Cell.packets key).read s₀).getD 0 + BitVec.ofNat 64 n)
    (hroom : (w.ghost j).stores (.packets key) + d ≤ demand (queues.getD j []) key) :
    ∃ u, u.bpf = { w.bpf with sessionMap := w.bpf.sessionMap.modify key f } ∧
      w.Steps j ((w.own j).store (.packets key) d) u := by
  refine exists_store w hj (.packets key) d (sameButHits_refl _) (fun k => ?_) (HashMap.size_modify _ _ _) rfl rfl
    (fun c hc => ?_) (fun v hv => ?_) hroom
  · dsimp only
    rw [HashMap.lookup_modify]
    split
    · next hk =>
      rw [hk, Option.map_map]
      exact congrArg (fun g => (w.bpf.sessionMap.lookup key).map g) (funext hf)
    · rfl
  · cases c with
    | hits k => rfl
    | packets k =>
      have hk : k ≠ key := fun h => hc (by rw [h])
      simp only [Cell.read, HashMap.lookup_modify, if_neg hk]
  · simp only [Cell.read, HashMap.lookup_modify, if_true, Option.map_map, Option.map_eq_some_iff] at hv
    obtain ⟨v', hv', he⟩ := hv
    rw [← he]
    exact hcell v' hv'

/-- A store to the hit count of a policy. -/
theorem exists_storeHit (w : World s₀ queues) (hj : j < queues.length) (key : FlowKey) {count : U64}
    (hcell : ∃ n ≤ w.stored (.hits key) + 1, count = ((Cell.hits key).read s₀).getD 0 + BitVec.ofNat 64 n)
    (hroom : (w.ghost j).stores (.hits key) + 1 ≤ demand (queues.getD j []) key) :
    ∃ u, u.bpf = { w.bpf with maps.policyMap := w.bpf.maps.policyMap.modify key fun v => { v with hitCount := count } } ∧
      w.Steps j ((w.own j).store (.hits key) 1) u := by
  refine exists_store w hj (.hits key) 1 ⟨fun k => ?_, rfl⟩ (fun k => rfl) rfl rfl rfl
    (fun c hc => ?_) (fun v hv => ?_) hroom
  · rw [HashMap.lookup_modify]
    split
    · next hk =>
      rw [hk, Option.map_map]
      rfl
    · rfl
  · cases c with
    | packets k => rfl
    | hits k =>
      have hk : k ≠ key := fun h => hc (by rw [h])
      simp only [Cell.read, HashMap.lookup_modify, if_neg hk]
  · simp only [Cell.read, HashMap.lookup_modify, if_true, Option.map_map, Option.map_eq_some_iff] at hv
    obtain ⟨v', hv', he⟩ := hv
    rw [← he]
    exact hcell

/-- The insert of a session that was not there. -/
theorem exists_insert (w : World s₀ queues) (hj : j < queues.length) {key : FlowKey} {session : SessionValue}
    {m : HashMap FlowKey SessionValue maxEntriesSession} (hput : w.bpf.sessionMap.putNew key session = some m)
    (hact : session.policyAction = (decision s₀.maps key).1) (hpackets : session.packetsToServer = 1)
    (hroom : (w.ghost j).stores (.packets key) + 1 ≤ demand (queues.getD j []) key) :
    ∃ u, u.bpf = { w.bpf with sessionMap := m } ∧ w.Steps j ((w.own j).create key) u ∧
      (u.ghost j).reported.count key + 1 ≤ (u.ghost j).created.count key := by
  have ho : ∀ c, ((w.own j).create key).ghost.stores c = (w.ghost j).stores c + if c = .packets key then 1 else 0 :=
    fun _ => rfl
  have hcreated : ∀ k, ((w.own j).create key).ghost.created.count k = (w.ghost j).created.count k + if k = key then 1 else 0 :=
    fun k => count_cons_key k key _
  obtain ⟨hkey, hp⟩ := HashMap.putNew_eq_some.1 hput
  obtain ⟨hstart, hzero⟩ := count_created_eq_zero hkey hj
  have hlookup : ∀ k, m.lookup k = if k = key then some session else w.bpf.sessionMap.lookup k := HashMap.lookup_put hp
  refine ⟨{
    bpf := { w.bpf with sessionMap := m }
    ghost := w.ghostOf j ((w.own j).create key)
    policies := w.policies
    sessions := fun k v hv => ?_
    created := fun k => ?_
    size := ?_
    events := fun k => ?_
    reported := fun c k => ?_
    cells := cells_store ho hj (fun c hc => ?_) fun v hv => ?_
    demanded := demanded_store ho hroom }, rfl, ⟨?_, fun c hc => ?_, fun k hk => ?_, fun c cell => ?_⟩, ?_⟩
  · rw [hlookup] at hv
    split at hv
    · next hk =>
      cases hv
      rw [hk, hact]
    · exact w.sessions k v hv
  · have hsum := sum_update (f := fun g => g.created.count k) hj w.ghost _ (hcreated k)
    rw [ghostOf, hsum]
    have hbefore := w.created k
    dsimp only
    rw [hlookup]
    by_cases hk : k = key
    · rw [hk, hkey, hstart] at hbefore
      rw [hk, if_pos rfl, if_pos rfl, hstart]
      simp only [Option.isSome_none, Option.isSome_some, Bool.toNat_false, Bool.toNat_true] at hbefore ⊢
      omega
    · rw [if_neg hk, if_neg hk]
      exact hbefore
  · have hsum := sum_update (f := fun g => g.created.length) (d := 1) hj w.ghost ((w.own j).create key).ghost rfl
    rw [ghostOf, hsum]
    dsimp only
    rw [HashMap.size_putNew hput, w.size]
    rfl
  · have hsum := sum_update (f := fun g => g.reported.count k) (d := 0) hj w.ghost ((w.own j).create key).ghost rfl
    rw [ghostOf, hsum]
    exact w.events k
  · by_cases hc : c = j
    · rw [hc, ghostOf, Function.update_self, hcreated]
      exact (w.reported j k).trans (Nat.le_add_right _ _)
    · rw [ghostOf, Function.update_of_ne hc]
      exact w.reported c k
  · cases c with
    | hits k => rfl
    | packets k =>
      have hk : k ≠ key := fun h => hc (by rw [h])
      simp only [Cell.read, hlookup, if_neg hk]
  · simp only [Cell.read, hlookup, if_true, Option.map_some, Option.some.injEq] at hv
    refine ⟨1, Nat.le_add_left _ _, ?_⟩
    rw [← hv, hpackets, Cell.read, hstart]
    rfl
  · simp only [own, ghostOf, Function.update_self]
    rfl
  · simp only [own, ghostOf, Function.update_of_ne hc]
  · rw [hlookup]
    split
    · rfl
    · exact hk
  · exact stores_ghostOf_le (fun c' => (Nat.le_add_right _ _).trans (ho c').ge) c cell
  · have hle : ((w.own j).create key).ghost.reported.count key ≤ (w.ghost j).created.count key := w.reported j key
    simp only [ghostOf, Function.update_self, hcreated, if_true]
    omega

/-- The submission of an event for a session that the CPU has created and not reported. -/
theorem exists_submit (w : World s₀ queues) (hj : j < queues.length) {event : FlowEvent}
    (hnew : (w.ghost j).reported.count event.key + 1 ≤ (w.ghost j).created.count event.key) :
    ∃ u, u.bpf = { w.bpf with flowEvents := w.bpf.flowEvents ++ [event] } ∧ w.Steps j ((w.own j).report event.key) u := by
  have hreported : ∀ k, ((w.own j).report event.key).ghost.reported.count k =
      (w.ghost j).reported.count k + if k = event.key then 1 else 0 := fun k => count_cons_key k event.key _
  refine ⟨{
    bpf := { w.bpf with flowEvents := w.bpf.flowEvents ++ [event] }
    ghost := w.ghostOf j ((w.own j).report event.key)
    policies := w.policies
    sessions := w.sessions
    created := fun k => ?_
    size := ?_
    events := fun k => ?_
    reported := fun c k => ?_
    cells := fun c v hv => ?_
    demanded := fun c cell => ?_ }, rfl, ?_, fun c hc => ?_, fun k hk => hk, fun c cell => ?_⟩
  · have hsum := sum_update (f := fun g => g.created.count k) (d := 0) hj w.ghost ((w.own j).report event.key).ghost rfl
    rw [ghostOf, hsum]
    exact w.created k
  · have hsum := sum_update (f := fun g => g.created.length) (d := 0) hj w.ghost ((w.own j).report event.key).ghost rfl
    rw [ghostOf, hsum]
    exact w.size
  · have hsum := sum_update (f := fun g => g.reported.count k) hj w.ghost _ (hreported k)
    have hone : [event].countP (fun e => e.key = k) = if k = event.key then 1 else 0 := by
      rw [List.countP_singleton]
      exact if_congr (decide_eq_true_iff.trans eq_comm) rfl rfl
    rw [ghostOf, hsum, List.countP_append, w.events k, hone, Nat.add_assoc]
  · by_cases hc : c = j
    · rw [hc, ghostOf, Function.update_self, hreported]
      split
      · next hk =>
        rw [hk]
        exact hnew
      · exact w.reported j k
    · rw [ghostOf, Function.update_of_ne hc]
      exact w.reported c k
  · have hsum := sum_update (f := fun g => g.stores c) (d := 0) hj w.ghost ((w.own j).report event.key).ghost rfl
    rw [ghostOf, hsum]
    exact w.cells c v (by cases c <;> exact hv)
  · by_cases hc : c = j
    · rw [hc, ghostOf, Function.update_self]
      exact w.demanded j cell
    · rw [ghostOf, Function.update_of_ne hc]
      exact w.demanded c cell
  · simp only [own, ghostOf, Function.update_self]
    rfl
  · simp only [own, ghostOf, Function.update_of_ne hc]
  · exact stores_ghostOf_le (fun _ => Nat.le_refl _) c cell

end World

end Microseg.Multicore
