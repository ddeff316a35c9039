import Microseg.Lib.Runs
import Microseg.Filter
import Microseg.Api
import Microseg.Denote
/-!
# The running system

The data plane and any number of control-plane calls share the policy maps. A run is a list of events:
executions of the program on packets of any flows, evictions by the LRU session map, new calls, and single
map or storage operations of calls in progress. Every interleaving of these is a run.

A session's `policy_action` is written once, by the packet that creates the session, and kept by every
event until the session is evicted (`action_step`); so the verdict of a packet with a live session is the
one its creator was given (`session_verdict_stable`).
-/
namespace Microseg
open Words KernelMap Atomic Runs

/-- The kernel's maps, the database, and the calls in progress. -/
structure Sys where
  bpf : Bpf
  storage : Option SQLiteStorage
  calls : List (Op Unit)

/-- What the control plane sees. -/
def Sys.manager (s : Sys) : PolicyManager := ⟨s.bpf.maps, s.storage⟩

def Sys.setManager (s : Sys) (pm : PolicyManager) : Sys :=
  { s with bpf := { s.bpf with maps := pm.maps }, storage := pm.storage }

/-- `AddPolicy`, `DeletePolicy` and the `UpdatePolicy` request. -/
inductive Call where
  | addPolicy (p : Policy)
  | deletePolicy (p : Policy)
  | updatePolicy (id : String) (body : Option PolicyRequest)

def Call.program : Call → Op Unit
  | .addPolicy p => do
    let _ ← Microseg.addPolicy p
  | .deletePolicy p => do
    let _ ← Microseg.deletePolicy p
  | .updatePolicy id body => do
    let _ ← Api.updatePolicy id body

inductive Event where
  | packet (x : Exec) (skb : SkBuff)
  | evict (key : FlowKey)
  | call (c : Call)
  /-- The next operation of the `i`-th call. -/
  | op (i : Nat)

def step (s : Sys) : Event → Sys
  | .packet x skb => { s with bpf := (tcMicrosegmentFilter x skb s.bpf).1 }
  | .evict key => { s with bpf := { s.bpf with sessionMap := s.bpf.sessionMap.erase key } }
  | .call c => { s with calls := s.calls ++ [c.program] }
  | .op i =>
    match s.calls[i]? with
    | none => s
    | some p =>
      let (p, pm) := Prog.step (p, s.manager)
      { s.setManager pm with calls := s.calls.set i p }

/-! ## Sessions -/

/-- The cached action of a live session. -/
def Sys.action (s : Sys) (key : FlowKey) : Option U8 := (s.bpf.sessionMap.lookup key).map SessionValue.policyAction

/-- The packet that creates a session of `key`, with the action the policy maps give it. -/
def Creates (key : FlowKey) (s : Sys) (e : Event) (action : U8) : Prop :=
  ∃ x skb, e = .packet x skb ∧ extractFlowKey skb = some (some key) ∧ action = (decision s.bpf.maps key).1

theorem step_op_sessionMap (s : Sys) (i : Nat) : (step s (.op i)).bpf.sessionMap = s.bpf.sessionMap := by
  simp only [step]
  cases s.calls[i]? <;> rfl

theorem fastPath_action (x : Exec) (skb : SkBuff) (k : FlowKey) (v : SessionValue) (s : Bpf) (key : FlowKey) :
    ((fastPath x skb k v s).sessionMap.lookup key).map SessionValue.policyAction =
      (s.sessionMap.lookup key).map SessionValue.policyAction := by
  simp only [fastPath, countVerdict_sessionMap, HashMap.lookup_modify]
  split
  · next h => rw [h, Option.map_map]; rfl
  · rfl

/-- What one event can do to the cached action of a flow: nothing, unless the session is evicted or created. -/
theorem action_step (key : FlowKey) (s : Sys) (e : Event) (a : U8) (h : (step s e).action key = some a) :
    s.action key = some a ∨ (s.action key = none ∧ Creates key s e a) := by
  cases e with
  | evict k =>
    refine Or.inl ?_
    simp only [step, Sys.action, HashMap.lookup_erase] at h
    split at h
    · cases h
    · exact h
  | call c => exact Or.inl h
  | op i =>
    rw [Sys.action, step_op_sessionMap] at h
    exact Or.inl h
  | packet x skb =>
    rcases filter_cases x skb s.bpf with ⟨_, e⟩ | ⟨k, v, _, _, e⟩ | ⟨k, hk, hnone, e⟩ <;>
      simp only [step, Sys.action, e] at h
    · exact Or.inl h
    · rw [fastPath_action] at h
      exact Or.inl h
    · -- the slow path: the insert adds the session of this packet or nothing
      rw [slowPath, countVerdict_sessionMap] at h
      rcases createSession_sessionMap x k (decision s.bpf.maps k).1 x.ktime skb.len (lookedUp x k s.bpf) with
        ⟨_, hsame⟩ | ⟨_, hnew⟩
      · rw [hsame] at h
        exact Or.inl h
      · have hlook := HashMap.lookup_put (HashMap.putNew_eq_some.1 hnew).2 key
        rw [hlook] at h
        by_cases hkey : key = k
        · subst hkey
          rw [if_pos rfl] at h
          refine Or.inr ⟨by rw [Sys.action, hnone]; rfl, x, skb, rfl, hk, ?_⟩
          cases h; rfl
        · rw [if_neg hkey] at h
          exact Or.inl h

/-- **Session verdict stability.** In every run from a state without sessions, a parsed packet whose key has
a live session has a creator: an earlier packet with that key, at a time when there was no session, since
when the session has been live. Both packets get the same verdict, `TC_ACT_SHOT` iff the lookup against
the maps at the creator's time returned DENY. -/
theorem session_verdict_stable {s₀ : Sys} (h₀ : ∀ k, s₀.bpf.sessionMap.lookup k = none) {es : List Event} {x : Exec}
    {skb : SkBuff} {key : FlowKey} (hp : extractFlowKey skb = some (some key))
    (hlive : ((run step s₀ es).bpf.sessionMap.lookup key).isSome) :
    ∃ pre x₀ skb₀ post, es = pre ++ .packet x₀ skb₀ :: post ∧ extractFlowKey skb₀ = some (some key) ∧
      (run step s₀ pre).bpf.sessionMap.lookup key = none ∧
      (∀ mid rest, post = mid ++ rest →
        ((run step s₀ (pre ++ .packet x₀ skb₀ :: mid)).bpf.sessionMap.lookup key).isSome) ∧
      (tcMicrosegmentFilter x skb (run step s₀ es).bpf).2 = (tcMicrosegmentFilter x₀ skb₀ (run step s₀ pre).bpf).2 ∧
      ((tcMicrosegmentFilter x skb (run step s₀ es).bpf).2 = tcActShot ↔
        (lookupPolicyAction x₀.cpu key (run step s₀ pre).bpf).2.1 = PolicyAction.deny.code) := by
  obtain ⟨v, hv⟩ := Option.isSome_iff_exists.1 hlive
  have hact : (run step s₀ es).action key = some v.policyAction := by rw [Sys.action, hv]; rfl
  have hnone₀ : s₀.action key = none := by rw [Sys.action, h₀]; rfl
  obtain ⟨pre, e, post, hes, hpre, ⟨x₀, skb₀, rfl, hp₀, ha⟩, hsince⟩ :=
    exists_birth (Sys.action · key) (action_step key) hnone₀ es hact
  have hpre' : (run step s₀ pre).bpf.sessionMap.lookup key = none := Option.map_eq_none_iff.1 hpre
  have hnow : (tcMicrosegmentFilter x skb (run step s₀ es).bpf).2 = verdict v.policyAction := by
    rw [filter_verdict hp, enforced, hv]
  have hthen : (tcMicrosegmentFilter x₀ skb₀ (run step s₀ pre).bpf).2 = verdict v.policyAction := by
    rw [filter_verdict hp₀, enforced, hpre', ha]
  refine ⟨pre, x₀, skb₀, post, hes, hp₀, hpre', fun mid rest hsplit => ?_, hnow.trans hthen.symm, ?_⟩
  · have hkept := hsince mid rest hsplit
    cases hl : (run step s₀ (pre ++ .packet x₀ skb₀ :: mid)).bpf.sessionMap.lookup key with
    | none => rw [Sys.action, hl] at hkept; cases hkept
    | some _ => rfl
  · rw [hnow, verdict_eq_shot, ha, lookupPolicyAction_eq]

/-! ### A rule deleted behind a session -/

/-- A deny rule for one connection is in force. -/
def deniedSys : Sys := ⟨⟨.empty, (PolicyManager.fresh.after [denyPort443]).maps, fun _ _ => 0, []⟩, none, []⟩

def packet443 : SkBuff := ⟨toPort443.frame.bytes, 54⟩

/-- The connection is denied, then the rule is deleted. -/
def denyThenDelete : List Event := [.packet ⟨0, 1, true, true⟩ packet443, .call (.deletePolicy denyPort443), .op 0]

theorem deleted_rule_still_denies :
    ∃ pre x₀ skb₀ post, denyThenDelete = pre ++ .packet x₀ skb₀ :: post ∧
      extractFlowKey skb₀ = some (some toPort443.key) ∧
      (run step deniedSys pre).bpf.sessionMap.lookup toPort443.key = none ∧
      (∀ mid rest, post = mid ++ rest →
        ((run step deniedSys (pre ++ .packet x₀ skb₀ :: mid)).bpf.sessionMap.lookup toPort443.key).isSome) ∧
      (tcMicrosegmentFilter ⟨0, 2, true, true⟩ packet443 (run step deniedSys denyThenDelete).bpf).2 =
        (tcMicrosegmentFilter x₀ skb₀ (run step deniedSys pre).bpf).2 ∧
      ((tcMicrosegmentFilter ⟨0, 2, true, true⟩ packet443 (run step deniedSys denyThenDelete).bpf).2 = tcActShot ↔
        (lookupPolicyAction x₀.cpu toPort443.key (run step deniedSys pre).bpf).2.1 = PolicyAction.deny.code) :=
  session_verdict_stable HashMap.lookup_empty (extractFlowKey_frame toPort443 54) (by decide +kernel)

end Microseg
