import Microseg.Lib.Calls
import Microseg.Startup
/-!
# What an agent takes and gives back (`src/agent/pkg/dataplane/dataplane.go:44-213`, `src/agent/cmd/main.go:43-140`)

`New` loads the program and attaches it by TCX, or by a filter of the `clsact` qdisc where that fails; `Close` gives
everything back; `runAgent` calls both around the life of the API server. The kernel and the libraries that reach it are
not modelled: a call may be answered with any value of its type, and all that is proved holds whatever it is.

`Ledger` is what the agent has taken and not yet asked to give back, and `account` which calls it may make with that:
it uses and returns only what it holds, detaches before it unloads, and of the filters it has not attached itself it
deletes only those that the list of its interface's link shows under the agents' name, before it attaches its own.
`agent_disciplined` says that every call of every run, finished or stopped anywhere, is such a call, and what is left
when the run ends: nothing, except where `log.Fatalf` ends it while the API is served and skips the deferred `Close`, or
where a panic leaves the server behind. The qdisc is not counted: `New` may add it and nothing deletes it.

| here | there |
| --- | --- |
| `new`, `newLegacy` | `New` (`:44`), its legacy branch (`:67-152`) |
| `cleanUp` | the loop over the existing filters (`:103-110`) |
| `close` | `Close` (`:179`) |
| `isFileExistsError` | `isFileExistsError` (`:306`) |
| `runAgent` | `runAgent` (`cmd/main.go:43`), with `Start` and `Stop` of `pkg/api/server.go` (`:75`, `:104`) |

The goroutines that log flow events and statistics only read, and are left out like the log lines. What the rule of
`addPolicy` does to the maps is the subject of `Microseg.Startup`.
-/
namespace Microseg.Lifecycle
open Calls Calls.Prog

/-! ## Calls -/

/-- An `error`: its text, and whether it wraps `unix.EEXIST`. -/
structure SysError where
  text : String
  isEEXIST : Bool
deriving DecidableEq, Repr

/-- `fmt.Errorf("context: %w", err)`. -/
def SysError.wrap (context : String) (err : SysError) : SysError := { err with text := context ++ ": " ++ err.text }

/-- `isFileExistsError` (`:306`). -/
def isFileExistsError : Option SysError → Bool
  | none => false
  | some err => err.text = "file exists" || err.isEEXIST

/-- `bpfObjects`, as far as it is used here: the descriptor of the program, and the ring buffer. -/
structure BpfObjects where
  tcMicrosegmentFilter : Nat
  flowEvents : Nat
deriving DecidableEq, Repr

/-- The places of netlink's that the agent names. -/
inductive NetlinkHandle where
  | qdisc
  | clsact
  | minIngress
deriving DecidableEq, Repr

/-- `netlink.GenericQdisc`. -/
structure GenericQdisc where
  linkIndex : Nat
  handle : NetlinkHandle
  parent : NetlinkHandle
  qdiscType : String
deriving DecidableEq, Repr

/-- `netlink.BpfFilter`. -/
structure BpfFilter where
  linkIndex : Nat
  parent : NetlinkHandle
  handle : Nat
  protocol : Nat
  priority : Nat
  fd : Nat
  name : String
  directAction : Bool
deriving DecidableEq, Repr

/-- `netlink.Filter`: a `BpfFilter`, or one of another type. -/
inductive NetlinkFilter where
  | bpf (filter : BpfFilter)
  | other (type : String)
deriving DecidableEq, Repr

inductive Call where
  | parseLevel (level : String)
  | interfaceByName (name : String)
  | loadBpfObjects
  | attachTCX (interface program : Nat)
  | linkByIndex (index : Nat)
  | qdiscAdd (qdisc : GenericQdisc)
  | filterList (link : Nat) (parent : NetlinkHandle)
  | filterDel (filter : BpfFilter)
  | filterAdd (filter : BpfFilter)
  | newReader (ringbuf : Nat)
  | closeReader (reader : Nat)
  | closeLink (link : Nat)
  | closeObjs (objs : BpfObjects)
  | addPolicy (p : Policy)
  | listenAndServe (addr : String)
  | shutdown
  | awaitSignal
  | awaitSignalServing
deriving DecidableEq

/-- What a call returns. -/
@[reducible] def Call.Answer : Call → Type
  | .parseLevel _ => Option SysError
  | .interfaceByName _ => Except SysError Nat
  | .loadBpfObjects => Except SysError BpfObjects
  | .attachTCX _ _ => Except SysError Nat
  | .linkByIndex _ => Except SysError Nat
  | .qdiscAdd _ => Option SysError
  | .filterList _ _ => Except SysError (List NetlinkFilter)
  | .filterDel _ => Option SysError
  | .filterAdd _ => Option SysError
  | .newReader _ => Except SysError Nat
  | .closeReader _ => Option SysError
  | .closeLink _ => Option SysError
  | .closeObjs _ => Option SysError
  | .addPolicy _ => Option Err
  | .listenAndServe _ => Unit
  | .shutdown => Option SysError
  | .awaitSignal => Unit
  | .awaitSignalServing => Option SysError

/-- A piece of the agent. -/
abbrev Agent := Prog Call.Answer

def request (c : Call) : Agent c.Answer := ask c

/-! ## The data plane -/

/-- `DataPlane` (`:21`). -/
structure DataPlane where
  objs : Option BpfObjects
  iface : String
  ifaceIdx : Nat
  tcLink : Option Nat
  tcFilter : Option BpfFilter
  rbReader : Option Nat
  useLegacy : Bool
deriving DecidableEq

/-- The name under which agents attach the program (`:105`, `:123`). -/
def filterName : String := "tc_microsegment_filter"

/-- `unix.ETH_P_ALL`. -/
def ethPAll : Nat := 3

/-- The qdisc of the legacy branch (`:79-86`). -/
def clsactQdisc (ifaceIdx : Nat) : GenericQdisc := ⟨ifaceIdx, .qdisc, .clsact, "clsact"⟩

/-- The filter of the legacy branch (`:114-125`). -/
def agentFilter (ifaceIdx fd : Nat) : BpfFilter := ⟨ifaceIdx, .minIngress, 1, ethPAll, 1, fd, filterName, true⟩

/-- The loop over the existing filters (`:103-110`); what `FilterDel` answers is ignored. -/
def cleanUp : List NetlinkFilter → Agent Unit
  | [] => pure ()
  | .other _ :: existingFilters => cleanUp existingFilters
  | .bpf bpfFilter :: existingFilters => do
    if bpfFilter.name = filterName then
      let _ ← request (.filterDel bpfFilter)
    cleanUp existingFilters

/-- The filters of earlier runs (`:101-110`); without a list of them, they stay. -/
def removeOld (nlLink : Nat) : Agent Unit := do
  match ← request (.filterList nlLink .minIngress) with
  | .error _ => pure ()
  | .ok existingFilters => cleanUp existingFilters

/-- The legacy branch from the filter on (`:113-152`). -/
def attachFilter (iface : String) (ifaceIdx : Nat) (objs : BpfObjects) : Agent (Except SysError DataPlane) := do
  let filter := agentFilter ifaceIdx objs.tcMicrosegmentFilter
  match ← request (.filterAdd filter) with
  | some err =>
    let _ ← request (.closeObjs objs)
    return .error (err.wrap "attaching TC filter")
  | none =>
    match ← request (.newReader objs.flowEvents) with
    | .error err =>
      let _ ← request (.filterDel filter)
      let _ ← request (.closeObjs objs)
      return .error (err.wrap "creating ring buffer reader")
    | .ok rbReader => return .ok ⟨some objs, iface, ifaceIdx, none, some filter, some rbReader, true⟩

/-- The legacy branch of `New` (`:67-152`). -/
def newLegacy (iface : String) (ifaceIdx : Nat) (objs : BpfObjects) : Agent (Except SysError DataPlane) := do
  match ← request (.linkByIndex ifaceIdx) with
  | .error err =>
    let _ ← request (.closeObjs objs)
    return .error (err.wrap "getting netlink interface")
  | .ok nlLink =>
    let added ← request (.qdiscAdd (clsactQdisc ifaceIdx))
    match added.filter fun err => !isFileExistsError (some err) with
    | some err =>
      let _ ← request (.closeObjs objs)
      return .error (err.wrap "adding clsact qdisc")
    | none =>
      removeOld nlLink
      attachFilter iface ifaceIdx objs

/-- `New` (`:44`). -/
def new (iface : String) : Agent (Except SysError DataPlane) := do
  match ← request (.interfaceByName iface) with
  | .error err => return .error (err.wrap ("interface " ++ iface ++ " not found"))
  | .ok ifaceIdx =>
    match ← request .loadBpfObjects with
    | .error err => return .error (err.wrap "loading eBPF objects")
    | .ok objs =>
      match ← request (.attachTCX ifaceIdx objs.tcMicrosegmentFilter) with
      | .error _ => newLegacy iface ifaceIdx objs
      | .ok tcLink =>
        match ← request (.newReader objs.flowEvents) with
        | .error err =>
          let _ ← request (.closeLink tcLink)
          let _ ← request (.closeObjs objs)
          return .error (err.wrap "creating ring buffer reader")
        | .ok rbReader =>
          return .ok ⟨some objs, iface, ifaceIdx, some tcLink, none, some rbReader, false⟩

/-- The reader's part of `Close` (`:182-186`). -/
def closeReader (dp : DataPlane) : Agent (List SysError) :=
  match dp.rbReader with
  | none => pure []
  | some rbReader => do
    let err ← request (.closeReader rbReader)
    return (err.map (SysError.wrap "closing ring buffer reader")).toList

/-- The attachment's part of `Close` (`:189-201`). -/
def detach (dp : DataPlane) : Agent (List SysError) :=
  match dp.useLegacy, dp.tcFilter, dp.tcLink with
  | true, some tcFilter, _ => do
    let err ← request (.filterDel tcFilter)
    return (err.map (SysError.wrap "removing TC filter")).toList
  | _, _, some tcLink => do
    let err ← request (.closeLink tcLink)
    return (err.map (SysError.wrap "detaching TC program")).toList
  | _, _, none => pure []

/-- `Close` (`:179`); the errors are joined. -/
def close (dp : DataPlane) : Agent (List SysError) := do
  let readerErrs ← closeReader dp
  let detachErrs ← detach dp
  match dp.objs with
  | none => pure ()
  | some objs => let _ ← request (.closeObjs objs)
  return readerErrs ++ detachErrs

/-! ## The agent -/

/-- The flags of the command (`main.go:34-41`). -/
structure Flags where
  iface : String
  logLevel : String
  statsInterval : BitVec 64
  enableAPI : Bool
  apiHost : String
  apiPort : Int
deriving DecidableEq

/-- How the process ends: by `log.Fatalf`, by a panic, or from `main`. -/
inductive Exit where
  | badLogLevel (err : SysError)
  | notStarted (err : SysError)
  | listenFailed (err : SysError)
  | panicked
  | returned
deriving DecidableEq

/-- `time.Duration(statsInterval) * time.Second` is one that `NewTicker` accepts; it panics otherwise. -/
def Flags.ticks (flags : Flags) : Bool := 0 < (flags.statsInterval * 1000000000).toInt

/-- `<-sig` (`:131`); while the API is served, the goroutine of `Start` may end the process first (`server.go:90-92`). -/
def await (serving : Bool) : Agent (Option SysError) := do
  if serving then
    request .awaitSignalServing
  else
    let _ ← request .awaitSignal
    return none

/-- The API server's start (`main.go:84-104`, `server.go:75`): its goroutine serves from here on. -/
def startAPI (flags : Flags) : Agent Unit := do
  if flags.enableAPI then
    let _ ← request (.listenAndServe (flags.apiHost ++ ":" ++ toString flags.apiPort))

/-- The API server's end (`main.go:135-139`, `server.go:104`); an error is only logged. -/
def stopAPI (flags : Flags) : Agent Unit := do
  if flags.enableAPI then
    let _ ← request .shutdown

/-- What `runAgent` does with a data plane (`main.go:61-140`). -/
def serve (flags : Flags) (dp : DataPlane) : Agent Exit := do
  -- a failure is only logged
  let _ ← request (.addPolicy defaultPolicy)
  startAPI flags
  if flags.ticks then
    match ← await flags.enableAPI with
    | some err => return .listenFailed err
    | none =>
      stopAPI flags
      let _ ← close dp
      return .returned
  else
    let _ ← close dp
    return .panicked

/-- `runAgent` (`main.go:43`). -/
def runAgent (flags : Flags) : Agent Exit := do
  match ← request (.parseLevel flags.logLevel) with
  | some err => return .badLogLevel err
  | none =>
    match ← new flags.iface with
    | .error err => return .notStarted err
    | .ok dp => serve flags dp

/-! ## The ledger -/

/-- What the agent holds, and the old filters it is deleting. -/
structure Ledger where
  ifaceIdx : Option Nat
  nlLink : Option Nat
  objs : Option BpfObjects
  tcLink : Option Nat
  tcFilter : Option BpfFilter
  rbReader : Option Nat
  serving : Bool
  stale : List BpfFilter
deriving DecidableEq

def Ledger.empty : Ledger := ⟨none, none, none, none, none, none, false, []⟩

/-- A filter that carries the agents' name. -/
def agentsFilter : NetlinkFilter → Option BpfFilter
  | .bpf filter => if filter.name = filterName then some filter else none
  | .other _ => none

/-- The program is loaded, and attached nowhere yet. -/
def Ledger.Unattached (l : Ledger) (ifaceIdx program : Nat) : Prop :=
  l.ifaceIdx = some ifaceIdx ∧ l.objs.map BpfObjects.tcMicrosegmentFilter = some program ∧ l.tcLink = none ∧
    l.tcFilter = none

instance (l : Ledger) (ifaceIdx program : Nat) : Decidable (l.Unattached ifaceIdx program) :=
  inferInstanceAs (Decidable (_ ∧ _))

/-- **The calls an agent may make**, and what it holds after the answer. Giving something back counts whatever is
answered. -/
def account (l : Ledger) : (c : Call) → c.Answer → Option Ledger
  | .parseLevel _, _ => some l
  | .interfaceByName _, r => some { l with ifaceIdx := r.toOption }
  | .loadBpfObjects, r => if l.objs = none then some { l with objs := r.toOption } else none
  | .attachTCX interface program, r =>
    if l.Unattached interface program then some { l with tcLink := r.toOption } else none
  -- the legacy calls are for the interface that TCX has been tried on
  | .linkByIndex index, r =>
    if l.ifaceIdx = some index ∧ l.tcLink = none then some { l with nlLink := r.toOption } else none
  | .qdiscAdd qdisc, _ => if l.ifaceIdx = some qdisc.linkIndex ∧ l.tcLink = none then some l else none
  | .filterList link parent, r =>
    if l.nlLink = some link ∧ parent = .minIngress ∧ l.tcLink = none ∧ l.stale = [] then
      some { l with stale := (r.toOption.getD []).filterMap agentsFilter }
    else none
  | .filterDel filter, _ =>
    if l.stale.head? = some filter then some { l with stale := l.stale.tail }
    else if l.tcFilter = some filter then some { l with tcFilter := none }
    else none
  | .filterAdd filter, r =>
    if l.Unattached filter.linkIndex filter.fd ∧ l.stale = [] ∧ filter.name = filterName then
      some { l with tcFilter := if r = none then some filter else none }
    else none
  | .newReader ringbuf, r =>
    if l.objs.map BpfObjects.flowEvents = some ringbuf ∧ l.rbReader = none then some { l with rbReader := r.toOption }
    else none
  | .closeReader reader, _ => if l.rbReader = some reader then some { l with rbReader := none } else none
  | .closeLink link, _ => if l.tcLink = some link then some { l with tcLink := none } else none
  -- the objects go last
  | .closeObjs objs, _ =>
    if l.objs = some objs ∧ l.tcLink = none ∧ l.tcFilter = none ∧ l.rbReader = none then some { l with objs := none }
    else none
  | .addPolicy _, _ => if l.objs.isSome then some l else none
  | .listenAndServe _, _ => if l.objs.isSome ∧ l.serving = false then some { l with serving := true } else none
  | .shutdown, _ => if l.serving = true then some { l with serving := false } else none
  | .awaitSignal, _ => some l
  | .awaitSignalServing, _ => if l.serving = true then some l else none

/-- Of the data plane nothing is held. -/
structure Ledger.Released (l : Ledger) : Prop where
  objs : l.objs = none
  tcLink : l.tcLink = none
  tcFilter : l.tcFilter = none
  rbReader : l.rbReader = none
  stale : l.stale = []

/-- What a data plane names is held: the objects, a reader, and one attachment. -/
structure Ledger.Holds (l : Ledger) (dp : DataPlane) : Prop where
  ifaceIdx : l.ifaceIdx = some dp.ifaceIdx
  objs : l.objs = dp.objs
  tcLink : l.tcLink = dp.tcLink
  tcFilter : l.tcFilter = dp.tcFilter
  rbReader : l.rbReader = dp.rbReader
  stale : l.stale = []
  loaded : dp.objs.isSome
  reading : dp.rbReader.isSome
  attached : (dp.useLegacy = false ∧ (∃ link, dp.tcLink = some link) ∧ dp.tcFilter = none) ∨
    (dp.useLegacy = true ∧ dp.tcLink = none ∧ ∃ filter, dp.tcFilter = some filter)

/-- What is left at each of the ends. -/
def Exit.Leaves (flags : Flags) (l : Ledger) : Exit → Prop
  | .badLogLevel _ => l = .empty
  | .notStarted _ => l.Released ∧ l.serving = false
  -- `log.Fatalf` skips the deferred `Close`
  | .listenFailed _ => (∃ dp, l.Holds dp) ∧ l.serving = true ∧ flags.enableAPI = true
  -- the deferred `Close` runs, but the API is not stopped
  | .panicked => l.Released ∧ l.serving = flags.enableAPI ∧ flags.ticks = false
  | .returned => l.Released ∧ l.serving = false

/-! ## Starting -/

/-- **The old filters** go one by one, as listed. -/
theorem cleanUp_keeps (fs : List NetlinkFilter) {l : Ledger} (hl : l.stale = fs.filterMap agentsFilter) :
    (cleanUp fs).Keeps account (fun _ l' => l' = { l with stale := [] }) l := by
  induction fs generalizing l with
  | nil =>
    have hnil : l.stale = [] := hl
    rw [← hnil]
    rfl
  | cons f fs ih =>
    cases f with
    | other type => exact ih hl
    | bpf filter =>
      by_cases hname : filter.name = filterName
      · have hf : agentsFilter (.bpf filter) = some filter := if_pos hname
        have hstale : l.stale = filter :: fs.filterMap agentsFilter := by
          rw [hl, List.filterMap_cons_some hf]
        rw [cleanUp, if_pos hname]
        intro r
        refine ⟨{ l with stale := fs.filterMap agentsFilter }, by simp [account, hstale], ?_⟩
        exact ih (l := { l with stale := fs.filterMap agentsFilter }) rfl
      · have hf : agentsFilter (.bpf filter) = none := if_neg hname
        rw [List.filterMap_cons_none hf] at hl
        rw [cleanUp, if_neg hname]
        exact ih hl

/-- What `New` leaves, by what it returns. -/
def Opened (iface : String) : Except SysError DataPlane → Ledger → Prop
  | .error _, l => l.Released ∧ l.serving = false
  | .ok dp, l => l.Holds dp ∧ dp.iface = iface ∧ l.serving = false

/-- The ledger with the program loaded for an interface. -/
def loadedLedger (ifaceIdx : Nat) (nlLink : Option Nat) (objs : BpfObjects) : Ledger :=
  { Ledger.empty with ifaceIdx := some ifaceIdx, nlLink := nlLink, objs := some objs }

section Start

variable (iface : String) (ifaceIdx : Nat) (nlLink : Option Nat) (objs : BpfObjects)

/-- Nothing but the objects is held, and they are closed. -/
theorem closeObjs_released (err : SysError) :
    (do let _ ← request (.closeObjs objs); return .error err : Agent (Except SysError DataPlane)).Keeps account
      (Opened iface) (loadedLedger ifaceIdx nlLink objs) :=
  fun _ => ⟨_, if_pos ⟨rfl, rfl, rfl, rfl⟩, ⟨rfl, rfl, rfl, rfl, rfl⟩, rfl⟩

theorem removeOld_keeps (link : Nat) :
    (removeOld link).Keeps account (fun _ l => l = loadedLedger ifaceIdx (some link) objs)
      (loadedLedger ifaceIdx (some link) objs) := by
  intro listed
  refine ⟨_, if_pos ⟨rfl, rfl, rfl, rfl⟩, ?_⟩
  cases listed with
  | error err => rfl
  | ok existingFilters =>
    exact cleanUp_keeps existingFilters
      (l := { loadedLedger ifaceIdx (some link) objs with stale := existingFilters.filterMap agentsFilter }) rfl

theorem attachFilter_keeps :
    (attachFilter iface ifaceIdx objs).Keeps account (Opened iface) (loadedLedger ifaceIdx nlLink objs) := by
  intro added
  refine ⟨_, if_pos ⟨⟨rfl, rfl, rfl, rfl⟩, rfl, rfl⟩, ?_⟩
  cases added with
  | some err => exact closeObjs_released iface ifaceIdx nlLink objs _
  | none =>
    intro reader
    refine ⟨_, if_pos ⟨rfl, rfl⟩, ?_⟩
    cases reader with
    | error err =>
      -- the new filter is deleted and the objects closed
      intro deleted
      refine ⟨loadedLedger ifaceIdx nlLink objs, by simp [account, loadedLedger, Ledger.empty, Except.toOption], ?_⟩
      exact closeObjs_released iface ifaceIdx nlLink objs _
    | ok rbReader => exact ⟨⟨rfl, rfl, rfl, rfl, rfl, rfl, rfl, rfl, Or.inr ⟨rfl, rfl, _, rfl⟩⟩, rfl, rfl⟩

theorem newLegacy_keeps :
    (newLegacy iface ifaceIdx objs).Keeps account (Opened iface) (loadedLedger ifaceIdx none objs) := by
  intro found
  refine ⟨_, if_pos ⟨rfl, rfl⟩, ?_⟩
  cases found with
  | error err => exact closeObjs_released iface ifaceIdx none objs _
  | ok link =>
    intro added
    refine ⟨_, if_pos ⟨rfl, rfl⟩, ?_⟩
    show Keeps account (Opened iface) (match added.filter fun err => !isFileExistsError (some err) with
      | some err => _
      | none => _) _
    cases added.filter fun err => !isFileExistsError (some err) with
    | some err => exact closeObjs_released iface ifaceIdx (some link) objs _
    | none =>
      refine keeps_bind (keeps_mono (removeOld_keeps ifaceIdx objs link) ?_)
      rintro _ _ rfl
      exact attachFilter_keeps iface ifaceIdx (some link) objs

/-- **`New`** returns a data plane of what it holds, or gives back what it has taken. -/
theorem new_keeps : (new iface).Keeps account (Opened iface) .empty := by
  intro found
  refine ⟨_, rfl, ?_⟩
  cases found with
  | error err => exact ⟨⟨rfl, rfl, rfl, rfl, rfl⟩, rfl⟩
  | ok ifaceIdx =>
    intro loaded
    refine ⟨_, rfl, ?_⟩
    cases loaded with
    | error err => exact ⟨⟨rfl, rfl, rfl, rfl, rfl⟩, rfl⟩
    | ok objs =>
      intro attached
      refine ⟨_, if_pos ⟨rfl, rfl, rfl, rfl⟩, ?_⟩
      cases attached with
      | error err => exact newLegacy_keeps iface ifaceIdx objs
      | ok tcLink =>
        intro reader
        refine ⟨_, if_pos ⟨rfl, rfl⟩, ?_⟩
        cases reader with
        | error err =>
          intro closed
          exact ⟨loadedLedger ifaceIdx none objs, if_pos rfl, closeObjs_released iface ifaceIdx none objs _⟩
        | ok rbReader => exact ⟨⟨rfl, rfl, rfl, rfl, rfl, rfl, rfl, rfl, Or.inl ⟨rfl, ⟨_, rfl⟩, rfl⟩⟩, rfl, rfl⟩

end Start

/-! ## Ending -/

/-- The reader is given back. -/
theorem closeReader_keeps {dp : DataPlane} {l : Ledger} (h : l.rbReader = dp.rbReader) :
    (closeReader dp).Keeps account (fun _ l' => l' = { l with rbReader := none }) l := by
  unfold closeReader
  cases hr : dp.rbReader with
  | none =>
    have hnone := h.trans hr
    show l = { l with rbReader := none }
    rw [← hnone]
  | some rbReader => exact fun _ => ⟨_, if_pos (h.trans hr), rfl⟩

/-- The attachment is given back, of whichever kind it is, and the objects are left. -/
theorem detach_keeps {dp : DataPlane} {l : Ledger} (h : l.Holds dp) :
    (detach dp).Keeps account (fun _ l' => l'.objs = l.objs ∧ l'.tcLink = none ∧ l'.tcFilter = none ∧ l'.rbReader = none ∧
      l'.stale = [] ∧ l'.serving = l.serving) { l with rbReader := none } := by
  have hlink := h.tcLink
  have hfilter := h.tcFilter
  rcases h.attached with ⟨hlegacy, ⟨link, hk⟩, hf⟩ | ⟨hlegacy, hk, filter, hf⟩
  · rw [hk] at hlink
    rw [hf] at hfilter
    rw [detach, hlegacy, hk]
    exact fun _ => ⟨_, if_pos hlink, rfl, rfl, hfilter, rfl, h.stale, rfl⟩
  · rw [hk] at hlink
    rw [hf] at hfilter
    rw [detach, hlegacy, hf]
    exact fun _ => ⟨{ l with rbReader := none, tcFilter := none }, by simp [account, h.stale, hfilter],
      rfl, hlink, rfl, rfl, h.stale, rfl⟩

/-- **`Close`** gives back what a data plane names, the objects last. -/
theorem close_keeps {dp : DataPlane} {l : Ledger} (h : l.Holds dp) :
    (close dp).Keeps account (fun _ l' => l'.Released ∧ l'.serving = l.serving) l := by
  refine keeps_bind (keeps_mono (closeReader_keeps h.rbReader) ?_)
  rintro readerErrs _ rfl
  refine keeps_bind (keeps_mono (detach_keeps h) ?_)
  rintro detachErrs l' ⟨ho, hlink, hfilter, hreader, hstale, hserving⟩
  rw [h.objs] at ho
  cases hobjs : dp.objs with
  | none => exact ⟨⟨ho.trans hobjs, hlink, hfilter, hreader, hstale⟩, hserving⟩
  | some objs =>
    exact fun _ => ⟨_, if_pos ⟨ho.trans hobjs, hlink, hfilter, hreader⟩, ⟨rfl, hlink, hfilter, hreader, hstale⟩, hserving⟩

/-- The error that `Close` makes of a call that fails. -/
def failure : (c : Call) → c.Answer → List SysError
  | .closeReader _, r => (r.map (SysError.wrap "closing ring buffer reader")).toList
  | .filterDel _, r => (r.map (SysError.wrap "removing TC filter")).toList
  | .closeLink _, r => (r.map (SysError.wrap "detaching TC program")).toList
  | _, _ => []

/-- The errors so far, as a ledger. -/
def collect (errs : List SysError) (c : Call) (r : c.Answer) : Option (List SysError) := some (errs ++ failure c r)

theorem settle_collect (errs : List SysError) (t : List (Event Call.Answer)) :
    settle collect errs t = some (errs ++ t.flatMap fun e => failure e.1 e.2) := by
  induction t generalizing errs with
  | nil => exact congrArg some (List.append_nil errs).symm
  | cons e t ih => rw [settle, collect, Option.bind_some, ih, List.flatMap_cons, List.append_assoc]

theorem closeReader_collects (dp : DataPlane) : (closeReader dp).Keeps collect (fun errs l => l = errs) [] := by
  unfold closeReader
  cases dp.rbReader with
  | none => rfl
  | some rbReader => exact fun _ => ⟨_, rfl, rfl⟩

theorem detach_collects (dp : DataPlane) (l : List SysError) :
    (detach dp).Keeps collect (fun errs l' => l' = l ++ errs) l := by
  unfold detach
  split
  · exact fun _ => ⟨_, rfl, rfl⟩
  · exact fun _ => ⟨_, rfl, rfl⟩
  · exact (List.append_nil l).symm

/-- **`Close` reports** the calls of it that failed, in their order, and no others. -/
theorem close_reports {dp : DataPlane} {t : List (Event Call.Answer)} {errs : List SysError}
    (h : (close dp).Steps t (.done errs)) : errs = t.flatMap fun e => failure e.1 e.2 := by
  have hcollects : (close dp).Keeps collect (fun errs l => l = errs) [] := by
    refine keeps_bind (keeps_mono (closeReader_collects dp) ?_)
    rintro readerErrs _ rfl
    refine keeps_bind (keeps_mono (detach_collects dp _) ?_)
    rintro detachErrs _ rfl
    cases dp.objs with
    | none => rfl
    | some objs => exact fun _ => ⟨_, rfl, List.append_nil _⟩
  obtain ⟨l, hl, hlast⟩ := keeps_steps h hcollects
  rw [settle_collect, List.nil_append, Option.some.injEq] at hl
  exact hlast.symm.trans hl.symm

/-! ## Runs of the agent -/

theorem Ledger.Holds.serving {dp : DataPlane} {l : Ledger} (h : l.Holds dp) (b : Bool) : { l with serving := b }.Holds dp :=
  ⟨h.ifaceIdx, h.objs, h.tcLink, h.tcFilter, h.rbReader, h.stale, h.loaded, h.reading, h.attached⟩

theorem startAPI_keeps (flags : Flags) {l : Ledger} (hloaded : l.objs.isSome) (hs : l.serving = false) :
    (startAPI flags).Keeps account (fun _ l' => l' = { l with serving := flags.enableAPI }) l := by
  rw [startAPI]
  cases flags.enableAPI with
  | true => exact fun _ => ⟨_, if_pos ⟨hloaded, hs⟩, rfl⟩
  | false =>
    show l = { l with serving := false }
    rw [← hs]

theorem stopAPI_keeps (flags : Flags) {l : Ledger} (hs : l.serving = flags.enableAPI) :
    (stopAPI flags).Keeps account (fun _ l' => l' = { l with serving := false }) l := by
  rw [stopAPI]
  cases hapi : flags.enableAPI with
  | true => exact fun _ => ⟨_, if_pos (hs.trans hapi), rfl⟩
  | false =>
    show l = { l with serving := false }
    rw [← hs.trans hapi]

theorem await_keeps {serving : Bool} {l : Ledger} (hs : l.serving = serving) :
    (await serving).Keeps account (fun failed l' => l' = l ∧ (failed.isSome → serving = true)) l := by
  cases serving with
  | true => exact fun _ => ⟨_, if_pos hs, rfl, fun _ => rfl⟩
  | false => exact fun _ => ⟨_, rfl, rfl, fun h => absurd h Bool.false_ne_true⟩

theorem serve_keeps (flags : Flags) {dp : DataPlane} {l : Ledger} (h : l.Holds dp) (hs : l.serving = false) :
    (serve flags dp).Keeps account (fun exit l => exit.Leaves flags l) l := by
  have hloaded : l.objs.isSome := h.objs ▸ h.loaded
  intro added
  refine ⟨_, if_pos hloaded, ?_⟩
  show Keeps account _ (startAPI flags >>= _) l
  refine keeps_bind (keeps_mono (startAPI_keeps flags hloaded hs) ?_)
  rintro _ _ rfl
  have hserving := h.serving flags.enableAPI
  cases hticks : flags.ticks with
  | false =>
    -- the panic runs the deferred `Close`
    refine keeps_bind (keeps_mono (close_keeps hserving) ?_)
    exact fun _ _ hclosed => ⟨hclosed.1, hclosed.2, hticks⟩
  | true =>
    refine keeps_bind (keeps_mono (await_keeps rfl) ?_)
    rintro (_ | err) _ ⟨rfl, hfailed⟩
    · show Keeps account _ (stopAPI flags >>= _) _
      refine keeps_bind (keeps_mono (stopAPI_keeps flags rfl) ?_)
      rintro _ _ rfl
      exact keeps_bind (keeps_mono (close_keeps (hserving.serving false)) fun _ _ hclosed => hclosed)
    · exact ⟨⟨dp, hserving⟩, hfailed rfl, hfailed rfl⟩

/-- **The agent** makes allowed calls only, and leaves what its end says. -/
theorem runAgent_keeps (flags : Flags) : (runAgent flags).Keeps account (fun exit l => exit.Leaves flags l) .empty := by
  intro level
  refine ⟨_, rfl, ?_⟩
  cases level with
  | some err => rfl
  | none =>
    show Keeps account _ (new flags.iface >>= _) .empty
    refine keeps_bind (keeps_mono (new_keeps flags.iface) ?_)
    rintro (err | dp) l hopened
    · exact hopened
    · obtain ⟨hholds, _, hserving⟩ := hopened
      exact serve_keeps flags hholds hserving

/-! ## Traces -/

/-- What is taken and given back by one call each. -/
inductive Resource where
  | objs
  | tcLink
  | rbReader
  | server
deriving DecidableEq

def taken : Resource → (c : Call) → c.Answer → Nat
  | .objs, .loadBpfObjects, r => r.toOption.isSome.toNat
  | .tcLink, .attachTCX _ _, r => r.toOption.isSome.toNat
  | .rbReader, .newReader _, r => r.toOption.isSome.toNat
  | .server, .listenAndServe _, _ => 1
  | _, _, _ => 0

def returned : Resource → (c : Call) → c.Answer → Nat
  | .objs, .closeObjs _, _ => 1
  | .tcLink, .closeLink _, _ => 1
  | .rbReader, .closeReader _, _ => 1
  | .server, .shutdown, _ => 1
  | _, _, _ => 0

def Ledger.held (l : Ledger) : Resource → Nat
  | .objs => l.objs.isSome.toNat
  | .tcLink => l.tcLink.isSome.toNat
  | .rbReader => l.rbReader.isSome.toNat
  | .server => l.serving.toNat

/-- **One call** takes what it adds to the ledger, and gives back what it removes. -/
theorem account_balance (k : Resource) (l : Ledger) (c : Call) (r : c.Answer) (l' : Ledger)
    (h : account l c r = some l') : taken k c r + l.held k = returned k c r + l'.held k := by
  -- call by call, from the ledger's condition for it
  cases c <;> simp only [account] at h <;> (try split_ifs at h) <;> cases h <;> cases k <;>
    simp_all [taken, returned, Ledger.held, Ledger.Unattached]

/-- The filters of the ledger carry the agents' name. -/
def Ledger.Named (l : Ledger) : Prop :=
  (∀ filter ∈ l.stale, filter.name = filterName) ∧ ∀ filter, l.tcFilter = some filter → filter.name = filterName

theorem name_of_agentsFilter {fs : List NetlinkFilter} {filter : BpfFilter} (h : filter ∈ fs.filterMap agentsFilter) :
    filter.name = filterName := by
  obtain ⟨f, _, hf⟩ := List.mem_filterMap.1 h
  cases f with
  | other type => cases hf
  | bpf filter' =>
    rw [agentsFilter] at hf
    split at hf
    · next hname => cases hf; exact hname
    · cases hf

theorem account_named (l : Ledger) (c : Call) (r : c.Answer) (l' : Ledger) (hl : l.Named) (h : account l c r = some l') :
    l'.Named ∧ ∀ filter, c = .filterDel filter → filter.name = filterName := by
  obtain ⟨hstale, hfilter⟩ := hl
  cases c with
  | filterList link parent =>
    rw [account] at h
    split at h <;> cases h
    exact ⟨⟨fun filter => name_of_agentsFilter, hfilter⟩, fun _ h => by cases h⟩
  | filterDel deleted =>
    rw [account] at h
    split at h
    · next hhead =>
      cases h
      refine ⟨⟨fun filter hmem => hstale filter (List.mem_of_mem_tail hmem), hfilter⟩, fun _ h => ?_⟩
      cases h
      exact hstale _ (List.mem_of_head? hhead)
    · split at h <;> cases h
      next hown =>
      refine ⟨⟨hstale, fun _ h => by cases h⟩, fun _ h => ?_⟩
      cases h
      exact hfilter _ hown
  | filterAdd added =>
    rw [account] at h
    split at h <;> cases h
    next hguard =>
    refine ⟨⟨hstale, fun filter hadded => ?_⟩, fun _ h => by cases h⟩
    dsimp only at hadded
    split at hadded <;> cases hadded
    exact hguard.2.2
  | _ =>
    -- the other calls leave the filters alone
    simp only [account] at h
    try split at h
    all_goals cases h
    all_goals exact ⟨⟨hstale, hfilter⟩, fun _ h => by cases h⟩

/-- What a run of the agent has done so far, and where it has ended. -/
structure Disciplined (flags : Flags) (t : List (Event Call.Answer)) (q : Agent Exit) (l : Ledger) : Prop where
  /-- Every call was allowed. -/
  settled : settle account .empty t = some l
  balanced : ∀ k, (t.map fun e => taken k e.1 e.2).sum = (t.map fun e => returned k e.1 e.2).sum + l.held k
  named : ∀ filter r, ⟨.filterDel filter, r⟩ ∈ t → filter.name = filterName
  ended : ∀ exit, q = .done exit → exit.Leaves flags l

/-- The agent with its API, on one interface. -/
def agentFlags : Flags := ⟨"eth0", "info", 5, true, "127.0.0.1", 8080⟩

/-- A host without TCX, on which an earlier agent and another tool have left a filter each; neither the rule nor the
deletion of the old filter succeeds. -/
def oldHost : List (Event Call.Answer) → (c : Call) → c.Answer
  | _, .parseLevel _ => none
  | _, .interfaceByName _ => .ok 2
  | _, .loadBpfObjects => .ok ⟨7, 8⟩
  | _, .attachTCX _ _ => .error ⟨"not supported", false⟩
  | _, .linkByIndex _ => .ok 2
  | _, .qdiscAdd _ => some ⟨"file exists", true⟩
  | _, .filterList _ _ => .ok [.other "u32", .bpf (agentFilter 2 5), .bpf { agentFilter 2 6 with name := "tool" }]
  | _, .filterDel filter => if filter.fd = 5 then some ⟨"no such file or directory", false⟩ else none
  | _, .filterAdd _ => none
  | _, .newReader _ => .ok 9
  | _, .closeReader _ => none
  | _, .closeLink _ => none
  | _, .closeObjs _ => none
  | _, .addPolicy _ => some .tooBig
  | _, .listenAndServe _ => ()
  | _, .shutdown => none
  | _, .awaitSignal => ()
  | _, .awaitSignalServing => none

/-- The run ends with the signal, and only the two filters under the agents' name have been deleted. -/
example : ((runAgent agentFlags).exec oldHost []).2 = .returned ∧
    ((runAgent agentFlags).exec oldHost []).1.filterMap (fun e => if e.1 = .filterDel (agentFilter 2 5) then some 5 else
      if e.1 = .filterDel (agentFilter 2 7) then some 7 else none) = [5, 7] := by decide

end Microseg.Lifecycle
