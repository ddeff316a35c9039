import Microseg.Manager
/-!
# The policy handlers (`src/agent/pkg/api/handlers/policy.go`, `api/models`)

A handler is a program of the manager's operations that ends with a response. The request body reaches
it as decoded JSON, or as nothing when it does not decode; `shouldBindJSON` then applies the `binding`
tags. `models.PolicyRequest` and `models.PolicyResponse` have exactly the fields of `policy.Policy`.

| here | there |
| --- | --- |
| `createPolicy`, `listPolicies`, `getPolicy`, `updatePolicy`, `deletePolicy` | the methods of `PolicyHandler` (`policy.go:27`, `:81`, `:119`, `:174`, `:258`) |
| `serve` | the routes (`router.go:25-29`) |
-/
namespace Microseg
open Words KernelMap Atomic

abbrev PolicyRequest := Policy
abbrev PolicyResponse := Policy

/-! ## Binding -/

/-- A failed tag of a field. -/
structure FieldError where
  field : String
  tag : String
deriving DecidableEq, Repr

inductive BindError where
  | json
  | validation (errs : List FieldError)
deriving DecidableEq, Repr

/-- `required` on a string, then `oneof`: the first tag that fails. -/
def requiredOneOf (field : String) (oneof : List String) (v : String) : List FieldError :=
  if v = "" then [⟨field, "required"⟩] else if v ∈ oneof then [] else [⟨field, "oneof"⟩]

/-- The `binding` tags of `PolicyRequest` (`models/policy.go:4-13`), field by field. -/
def validate (req : PolicyRequest) : List FieldError :=
  (if req.ruleID = 0 then [⟨"RuleID", "required"⟩] else []) ++
  (if req.srcIP = "" then [⟨"SrcIP", "required"⟩] else []) ++
  (if req.dstIP = "" then [⟨"DstIP", "required"⟩] else []) ++
  requiredOneOf "Protocol" ["tcp", "udp", "icmp", "any"] req.protocol ++
  requiredOneOf "Action" ["allow", "deny", "log"] req.action

/-- `c.ShouldBindJSON(&req)`. -/
def shouldBindJSON : Option PolicyRequest → Except BindError PolicyRequest
  | none => .error .json
  | some req => if validate req = [] then .ok req else .error (.validation (validate req))

/-! ## The rule id in the URL -/

/-- `strconv.NumError` of `ParseUint`. -/
inductive NumError where
  | errSyntax (num : String)
  | errRange (num : String)
deriving DecidableEq, Repr

/-- The digit loop of `strconv.ParseUint(s, 10, 32)`, with the number read so far. -/
def parseDigits (num : String) (n : Nat) : List Char → Except NumError U32
  | [] => .ok (BitVec.ofNat 32 n)
  | c :: s =>
    if c.isDigit then
      if n * 10 + GoNet.digitVal c ≥ 2 ^ 32 then .error (.errRange num)
      else parseDigits num (n * 10 + GoNet.digitVal c) s
    else .error (.errSyntax num)

def parseUint32 (s : String) : Except NumError U32 :=
  if s = "" then .error (.errSyntax s) else parseDigits s 0 s.toList

/-! ## Responses -/

/-- The `details` of an error response. -/
inductive Details where
  | none
  | bind (e : BindError)
  | num (e : NumError)
  | err (e : Err)
deriving DecidableEq, Repr

inductive Body where
  | policy (p : PolicyResponse)
  /-- `PolicyListResponse`; its count is the length. -/
  | list (policies : List PolicyResponse)
  | message (text : String)
  | error (error message : String) (details : Details)
deriving DecidableEq, Repr

structure Response where
  status : Nat
  body : Body
deriving DecidableEq, Repr

def invalidBody (e : BindError) : Response := ⟨400, .error "validation_error" "Invalid request body" (.bind e)⟩
def invalidRuleID (e : NumError) : Response := ⟨400, .error "validation_error" "Invalid rule ID" (.num e)⟩
def policyError (message : String) (e : Err) : Response := ⟨500, .error "policy_error" message (.err e)⟩
def notFound (ruleID : U32) : Response :=
  ⟨404, .error "not_found" ("Policy with rule ID " ++ toString ruleID.toNat ++ " not found") .none⟩

/-! ## Handlers -/

namespace Api

/-- `CreatePolicy` (`:27`). -/
def createPolicy (body : Option PolicyRequest) : Op Response :=
  match shouldBindJSON body with
  | .error e => pure (invalidBody e)
  | .ok p => do
    let r ← addPolicy p
    match r with
    | .error e => return policyError "Failed to add policy" e
    | .ok () => return ⟨201, .policy p⟩

variable (iter : Iteration PolicyKey PolicyValue maxEntriesPolicy)

/-- `ListPolicies` (`:81`). -/
def listPolicies : Op Response := do
  let policies ← Microseg.listPolicies iter
  return ⟨200, .list policies⟩

/-- `GetPolicy` (`:119`). -/
def getPolicy (id : String) : Op Response :=
  match parseUint32 id with
  | .error e => pure (invalidRuleID e)
  | .ok ruleID => do
    let policies ← Microseg.listPolicies iter
    match policies.find? fun p => p.ruleID = ruleID with
    | some p => return ⟨200, .policy p⟩
    | none => return notFound ruleID

/-- `UpdatePolicy` once the request is validated (`:224-254`): delete, then add; a failing delete is only
logged. -/
def replacePolicy (p : PolicyRequest) : Op Response := do
  let _ ← Microseg.deletePolicy p
  let r ← addPolicy p
  match r with
  | .error e => return policyError "Failed to update policy" e
  | .ok () => return ⟨200, .policy p⟩

/-- `UpdatePolicy` (`:174`). -/
def updatePolicy (id : String) (body : Option PolicyRequest) : Op Response :=
  match parseUint32 id with
  | .error e => pure (invalidRuleID e)
  | .ok ruleID =>
    match shouldBindJSON body with
    | .error e => pure (invalidBody e)
    | .ok p =>
      if p.ruleID ≠ ruleID then
        pure ⟨400, .error "validation_error" "Rule ID in URL does not match rule ID in request body" .none⟩
      else replacePolicy p

/-- `DeletePolicy` (`:258`). -/
def deletePolicy (id : String) : Op Response :=
  match parseUint32 id with
  | .error e => pure (invalidRuleID e)
  | .ok ruleID => do
    let policies ← Microseg.listPolicies iter
    match policies.find? fun p => p.ruleID = ruleID with
    | none => return notFound ruleID
    | some p =>
      let r ← Microseg.deletePolicy p
      match r with
      | .error e => return policyError "Failed to delete policy" e
      | .ok () =>
        return ⟨200, .message ("Policy with rule ID " ++ toString ruleID.toNat ++ " deleted successfully")⟩

/-- A request to the policy endpoints. -/
inductive Request where
  | create (body : Option PolicyRequest)
  | list
  | get (id : String)
  | update (id : String) (body : Option PolicyRequest)
  | delete (id : String)

def serve : Request → Op Response
  | .create body => createPolicy body
  | .list => listPolicies iter
  | .get id => getPolicy iter id
  | .update id body => updatePolicy id body
  | .delete id => deletePolicy iter id

end Api

/-! ## What binding promises -/

theorem validate_eq_nil {req : PolicyRequest} (h : validate req = []) :
    req.ruleID ≠ 0 ∧ req.protocol ∈ ["tcp", "udp", "icmp", "any"] ∧ req.action ∈ ["allow", "deny", "log"] := by
  simp only [validate, List.append_eq_nil_iff] at h
  obtain ⟨⟨⟨⟨h1, _⟩, _⟩, h4⟩, h5⟩ := h
  refine ⟨fun h0 => ?_, ?_, ?_⟩
  · rw [if_pos h0] at h1; cases h1
  · unfold requiredOneOf at h4
    split_ifs at h4 with _ hmem
    exact hmem
  · unfold requiredOneOf at h5
    split_ifs at h5 with _ hmem
    exact hmem

theorem shouldBindJSON_ok {body : Option PolicyRequest} {p : PolicyRequest} (h : shouldBindJSON body = .ok p) :
    body = some p ∧ validate p = [] := by
  cases body with
  | none => cases h
  | some req =>
    simp only [shouldBindJSON] at h
    split_ifs at h with hv
    cases h
    exact ⟨rfl, hv⟩

end Microseg
