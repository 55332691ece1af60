import Archon.Kernel.Select
import Archon.Lib.DebugText

/-! Machine inventories as agents report them, and the graph facts the controller
makes of them. Ids are taken from a counter; running out of them, and a reference
to a host node that is not there, end the process and yield nothing here. -/
namespace Archon.Node
open Archon.Kernel Fallible

/-- One normalized host resource; ids are stable within the machine. -/
structure HostNodeSpec where
  id : String
  kind : ResourceClass
  parent : Option String
  attrs : Attrs
  capacity : Quantity
  deriving DecidableEq

/-- One device, under an id that survives registration. -/
structure DeviceSpec where
  kind : ResourceClass
  id : String
  dev : String
  hostParent : Option String
  access : List String
  attrs : Attrs
  deriving DecidableEq

structure MachineDescription where
  instanceId : String
  name : String
  cpus : UInt64
  memoryBytes : UInt64
  hostNodes : List HostNodeSpec
  devices : List DeviceSpec
  deriving DecidableEq

/-! How the records of an inventory are shown. -/

section Debug
open DebugText

def shownClass (kind : ResourceClass) : String := "ResourceClass(" ++ quoted kind.name ++ ")"

def shownDimension (dimension : CapacityDimension) : String :=
  "CapacityDimension(" ++ quoted dimension.name ++ ")"

def HostNodeSpec.debug (self : HostNodeSpec) : String := record "HostNodeSpec" [
  ("id", quoted self.id),
  ("kind", shownClass self.kind),
  ("parent", optional quoted self.parent),
  ("attrs", mapped quoted quoted self.attrs),
  ("capacity", mapped shownDimension toString self.capacity)]

def DeviceSpec.debug (self : DeviceSpec) : String := record "DeviceSpec" [
  ("kind", shownClass self.kind),
  ("id", quoted self.id),
  ("dev", quoted self.dev),
  ("host_parent", optional quoted self.hostParent),
  ("access", listed quoted self.access),
  ("attrs", mapped quoted quoted self.attrs)]

end Debug

/-! Arrays of strings in JSON, as device facts carry them. -/

namespace Json

def renderString (text : String) : String :=
  let escaped := text.toList.flatMap fun c =>
    if c = '"' then ['\\', '"']
    else if c = '\\' then ['\\', '\\']
    else if c = '\n' then ['\\', 'n']
    else if c = '\r' then ['\\', 'r']
    else if c = '\t' then ['\\', 't']
    else if c.toNat = 8 then ['\\', 'b']
    else if c.toNat = 12 then ['\\', 'f']
    else if c.toNat < 32 then
      ['\\', 'u', '0', '0', Nat.digitChar (c.toNat / 16), Nat.digitChar (c.toNat % 16)]
    else [c]
  "\"" ++ String.ofList escaped ++ "\""

def render (texts : List String) : String := "[" ++ ",".intercalate (texts.map renderString) ++ "]"

def skipBlank (text : List Char) : List Char := text.dropWhile fun c => c ∈ [' ', '\n', '\r', '\t']

def hexDigit (c : Char) : Option Nat :=
  if c.isDigit then some (c.toNat - 48)
  else if 'a' ≤ c && c ≤ 'f' then some (c.toNat - 87)
  else if 'A' ≤ c && c ≤ 'F' then some (c.toNat - 55)
  else none

def hexQuad : List Char → Option (Nat × List Char)
  | a :: b :: c :: d :: rest => do
    let a ← hexDigit a
    let b ← hexDigit b
    let c ← hexDigit c
    let d ← hexDigit d
    return (((a * 16 + b) * 16 + c) * 16 + d, rest)
  | _ => none

/-- A character escaped by its code unit, or by a surrogate pair. -/
def unicodeEscape (text : List Char) : Option (Char × List Char) := do
  let (high, rest) ← hexQuad text
  if 0xD800 ≤ high && high < 0xDC00 then
    match rest with
    | '\\' :: 'u' :: rest =>
      let (low, rest) ← hexQuad rest
      if 0xDC00 ≤ low && low < 0xE000 then
        return (Char.ofNat (0x10000 + (high - 0xD800) * 0x400 + (low - 0xDC00)), rest)
      else none
    | _ => none
  else if 0xDC00 ≤ high && high < 0xE000 then none
  else return (Char.ofNat high, rest)

/-- The rest of a string after its opening quote; `fuel` bounds its length. -/
def stringBody : Nat → List Char → Option (List Char × List Char)
  | 0, _ => none
  | _ + 1, '"' :: rest => some ([], rest)
  | fuel + 1, '\\' :: 'u' :: rest => do
    let (c, rest) ← unicodeEscape rest
    let (body, rest) ← stringBody fuel rest
    return (c :: body, rest)
  | fuel + 1, '\\' :: code :: rest => do
    let c ← match code with
      | '"' => some '"'
      | '\\' => some '\\'
      | '/' => some '/'
      | 'b' => some (Char.ofNat 8)
      | 'f' => some (Char.ofNat 12)
      | 'n' => some '\n'
      | 'r' => some '\r'
      | 't' => some '\t'
      | _ => none
    let (body, rest) ← stringBody fuel rest
    return (c :: body, rest)
  | fuel + 1, c :: rest => do
    if c.toNat < 32 then none
    let (body, rest) ← stringBody fuel rest
    return (c :: body, rest)
  | _, [] => none

/-- The items after the opening bracket, up to the closing one. -/
def items : Nat → List Char → Option (List String × List Char)
  | 0, _ => none
  | fuel + 1, text =>
    match skipBlank text with
    | '"' :: rest => do
      let (body, rest) ← stringBody (rest.length + 1) rest
      match skipBlank rest with
      | ']' :: rest => return ([String.ofList body], rest)
      | ',' :: rest => do
        let (others, rest) ← items fuel rest
        return (String.ofList body :: others, rest)
      | _ => none
    | _ => none

def strings (text : String) : Option (List String) :=
  match skipBlank text.toList with
  | '[' :: rest =>
    match skipBlank rest with
    | ']' :: rest => if skipBlank rest = [] then some [] else none
    | rest =>
      match items (rest.length + 1) rest with
      | some (found, rest) => if skipBlank rest = [] then some found else none
      | none => none
  | _ => none

end Json

namespace Discover

def hostIdAttr : String := "archon.host-id"
def deviceHostParentAttr : String := "archon.host-parent"
def hostFactWriter : FactWriterId := 1
def deviceFactWriter : FactWriterId := 2

/-- The kinds a device inventory may hold. -/
def isDeviceKind (kind : ResourceClass) : Bool := kind = .gpu || kind = .nic || kind = .nvme

/-! Graph facts of a new machine. -/

abbrev IdGen := StateT UInt64 Option

/-- The next id. A full counter ends the process, as in a build that checks for overflow. -/
def freshNode : IdGen NodeId := do
  let next ← get
  if next = 18446744073709551615 then failure
  set (next + 1)
  return ⟨next + 1⟩

def freshNodes : Nat → IdGen (List NodeId)
  | 0 => return []
  | count + 1 => do
    let id ← freshNode
    let rest ← freshNodes count
    return id :: rest

/-- A node with the container it hangs from. -/
structure Placed where
  node : Node
  container : NodeId

def Placed.edge (placed : Placed) : Edge := ⟨placed.container, placed.node.id, .contains, ∅⟩

/-- The flat inventory: memory and one node for each logical CPU. -/
def flatHost (description : MachineDescription) (machine : NodeId) : IdGen (List Placed) := do
  let cpus ← freshNodes description.cpus.toNat
  let memory ← freshNode
  return ⟨⟨memory, .memory, ∅, qty .bytes description.memoryBytes⟩, machine⟩ ::
    cpus.map fun cpu => ⟨⟨cpu, .cpu, ∅, qty .count 1⟩, machine⟩

def sortSpecs (specs : List HostNodeSpec) : List HostNodeSpec :=
  specs.mergeSort fun left right => (compare left.id right.id).isLE

/-- The container a stable id names; without one it is the machine. -/
def containerOf (machine : NodeId) (hostIds : OrdMap String NodeId) : Option String → IdGen NodeId
  | none => return machine
  | some parent => liftM (hostIds[parent]? : Option NodeId)

def placeHost (machine : NodeId) (hostIds : OrdMap String NodeId) (entry : HostNodeSpec × NodeId) :
    IdGen Placed := do
  let container ← containerOf machine hostIds entry.1.parent
  return ⟨⟨entry.2, entry.1.kind, entry.1.attrs.insert hostIdAttr entry.1.id, entry.1.capacity⟩,
    container⟩

/-- The provider's own tree; parents are looked up by their stable ids. -/
def normalizedHost (description : MachineDescription) (machine : NodeId) :
    IdGen (List Placed × OrdMap String NodeId) := do
  let specs := sortSpecs description.hostNodes
  let ids ← freshNodes specs.length
  let hostIds : OrdMap String NodeId :=
    (specs.zip ids).foldl (fun index (spec, id) => index.insert spec.id id) ∅
  let placed ← (specs.zip ids).mapM (placeHost machine hostIds)
  return (placed, hostIds)

def hostInventory (description : MachineDescription) (machine : NodeId) :
    IdGen (List Placed × OrdMap String NodeId) :=
  if description.hostNodes = [] then do
    let host ← flatHost description machine
    return (host, ∅)
  else
    normalizedHost description machine

/-- The facts of a device that registration writes. -/
def deviceAttrs (spec : DeviceSpec) : Attrs :=
  let attrs := (spec.attrs.insert "id" spec.id).insert "dev" spec.dev
  let attrs := if spec.access ≠ [] then attrs.insert "access" (Json.render spec.access) else attrs
  match spec.hostParent with
  | some parent => attrs.insert deviceHostParentAttr parent
  | none => attrs

def placeDevice (machine : NodeId) (hostIds : OrdMap String NodeId) (spec : DeviceSpec) :
    IdGen Placed := do
  let device ← freshNode
  let container ← containerOf machine hostIds spec.hostParent
  return ⟨⟨device, spec.kind, deviceAttrs spec, qty .count 1⟩, container⟩

def machineFacts (description : MachineDescription) : IdGen (List Node × List Edge) := do
  let machine ← freshNode
  let name := ((∅ : Attrs).insert "name" description.name).insert "agent_id" description.instanceId
  let (host, hostIds) ← hostInventory description machine
  let devices ← description.devices.mapM (placeDevice machine hostIds)
  let placed := host ++ devices
  return (⟨machine, .machine, name, ∅⟩ :: placed.map Placed.node, placed.map Placed.edge)

def buildGraph (description : MachineDescription) (firstId : UInt64) :
    Option (List Node × List Edge) :=
  ((machineFacts description).run firstId).map Prod.fst

/-! Contracts and writers. -/

/-- What the shipped providers can bind and fence. -/
def claimContract (kind : ResourceClass) : Option (CapacityDimension × BindingScope) :=
  if kind = .cpu then some (.count, .exclusive)
  else if kind = .memory then some (.bytes, .independentShare)
  else if isDeviceKind kind then some (.count, .exclusive)
  else none

def claimBindings (nodes : List Node) : List ClaimBindingUpdate :=
  nodes.filterMap fun node =>
    (claimContract node.kind).bind fun (dimension, scope) =>
      if 0 < quantityGet node.capacity dimension then
        some ⟨node.id, dimension, some ⟨.enforce, scope⟩⟩
      else none

/-- Host and device facts, each under its own writer. -/
def providerFactBatches (nodes : List Node) (edges : List Edge) : List ProviderFactBatch :=
  let writers : OrdMap NodeId Bool :=
    nodes.foldl (fun index node => index.insert node.id (isDeviceKind node.kind)) ∅
  let ofDevice := fun id : NodeId => writers[id]?.getD false
  let host : ProviderFactBatch := ⟨hostFactWriter, nodes.filter fun node => !ofDevice node.id,
    edges.filter fun edge => !ofDevice edge.toNode⟩
  let device : ProviderFactBatch := ⟨deviceFactWriter, nodes.filter fun node => ofDevice node.id,
    edges.filter fun edge => ofDevice edge.toNode⟩
  [host, device].filter fun batch => batch.nodes ≠ [] || batch.edges ≠ []

/-- A device the agent no longer reports is left out of what it may own. -/
def currentlyReported (devices : List DeviceSpec) (node : Node) : Bool :=
  !isDeviceKind node.kind ||
    node.attrs["id"]?.any fun stable => devices.any fun device => device.id = stable

def currentFactWriterAssignments (graph : Graph) (machine : NodeId) (devices : List DeviceSpec) :
    List FactWriterAssignment :=
  let included := (graph.descendants machine ++ [machine]).filter fun id =>
    (graph.node id).any (currentlyReported devices)
  let ofDevice := fun id : NodeId => (graph.node id).any fun node => isDeviceKind node.kind
  let edges := (graph.edges.filter fun edge =>
    edge.kind = .contains && edge.toNode ∈ included).map Edge.key
  let host : FactWriterAssignment := ⟨hostFactWriter, included.filter fun id => !ofDevice id,
    edges.filter fun edge => !ofDevice edge.toNode⟩
  let device : FactWriterAssignment := ⟨deviceFactWriter, included.filter fun id => ofDevice id,
    edges.filter fun edge => ofDevice edge.toNode⟩
  [host, device].filter fun assignment => assignment.nodes ≠ [] || assignment.edges ≠ []

def hostParentNode (graph : Graph) (machine : NodeId) (hostParent : String) : Except String NodeId :=
  okOr ((graph.descendants machine).find? fun id =>
      ((graph.node id).bind fun node => node.attrs[hostIdAttr]?).any fun found => found = hostParent)
    s!"unknown committed host parent {DebugText.quoted hostParent}"

/-! Validation. -/

/-- The characters that trimming removes. -/
def isWhiteSpace (c : Char) : Bool :=
  let n := c.toNat
  (9 ≤ n && n ≤ 13) || (0x2000 ≤ n && n ≤ 0x200A) ||
    n ∈ [0x20, 0x85, 0xA0, 0x1680, 0x2028, 0x2029, 0x202F, 0x205F, 0x3000]

def isBlank (text : String) : Bool := text.toList.all isWhiteSpace

/-- What the inventory sums up to, while its nodes are checked. -/
structure HostTotals where
  ids : List String
  cpuCount : Nat
  memoryTotal : UInt64
  memoryNodes : Nat

def checkHostNode (totals : HostTotals) (spec : HostNodeSpec) : Except String HostTotals := do
  refuseIf (isBlank spec.id) "host node id must be non-empty"
  refuseIf (hostIdAttr ∈ spec.attrs ∨ deviceHostParentAttr ∈ spec.attrs)
    s!"host node {DebugText.quoted spec.id} uses a reserved Archon attribute"
  refuseIf (spec.id ∈ totals.ids) s!"duplicate host node id {DebugText.quoted spec.id}"
  let totals := { totals with ids := spec.id :: totals.ids }
  if spec.kind = .socket || spec.kind = .numa || spec.kind = .pcieRoot then
    refuseIf (¬spec.capacity.isEmpty)
      s!"structural host node {DebugText.quoted spec.id} must not advertise claimable capacity"
    return totals
  else if spec.kind = .cpu then
    refuseIf (spec.capacity ≠ qty .count 1)
      s!"logical CPU {DebugText.quoted spec.id} must advertise exactly count=1 under the exclusive v0 binding model"
    return { totals with cpuCount := totals.cpuCount + 1 }
  else if spec.kind = .memory then
    refuseIf (spec.capacity.keys.any fun dimension => dimension ≠ .bytes)
      s!"memory resource {DebugText.quoted spec.id} must advertise only byte capacity"
    let bytes := quantityGet spec.capacity .bytes
    refuseIf (2 ^ 64 ≤ totals.memoryTotal.toNat + bytes.toNat) "host memory total overflows"
    return { totals with
      memoryTotal := totals.memoryTotal + bytes, memoryNodes := totals.memoryNodes + 1 }
  else
    .error s!"resource class {spec.kind.name} is not valid in the host inventory"

/-- Follow parents from a node and report the first id met twice. -/
def hostCycle (parentOf : String → Option String) : Nat → List String → Option String → Option String
  | _, _, none => none
  | 0, _, some id => some id
  | fuel + 1, seen, some id =>
    if id ∈ seen then some id else hostCycle parentOf fuel (id :: seen) (parentOf id)

def checkHostParent (specs : List HostNodeSpec) (spec : HostNodeSpec) : Except String Unit := do
  let byId := fun id : String => specs.find? fun other => other.id = id
  match spec.parent with
  | none => pure ()
  | some parent =>
    let found ← okOr (byId parent)
      s!"host node {DebugText.quoted spec.id} references unknown parent {DebugText.quoted parent}"
    refuseIf (found.kind = .cpu ∨ found.kind = .memory)
      s!"host node {DebugText.quoted spec.id} cannot be contained by claimable leaf {DebugText.quoted parent}"
  match hostCycle (fun id => (byId id).bind HostNodeSpec.parent) (specs.length + 1) [] (some spec.id) with
  | some id => .error s!"host containment cycle through {DebugText.quoted id}"
  | none => .ok ()

def checkDevice (specs : List HostNodeSpec) (seen : List String) (device : DeviceSpec) :
    Except String (List String) := do
  refuseIf (isBlank device.id ∨ isBlank device.dev) "device stable id and path must be non-empty"
  refuseIf (¬isDeviceKind device.kind)
    s!"resource class {device.kind.debugText} is not valid in a device inventory"
  refuseIf (device.id ∈ seen) s!"provider reported duplicate stable device id {DebugText.quoted device.id}"
  refuseIf (hostIdAttr ∈ device.attrs ∨ deviceHostParentAttr ∈ device.attrs)
    s!"device {DebugText.quoted device.id} uses a reserved Archon attribute"
  match device.hostParent with
  | none => pure ()
  | some parent =>
    let found ← okOr (specs.find? fun other => other.id = parent)
      s!"device {DebugText.quoted device.id} references unknown host parent {DebugText.quoted parent}"
    refuseIf (found.kind = .cpu ∨ found.kind = .memory)
      s!"device {DebugText.quoted device.id} cannot be contained by claimable host leaf {DebugText.quoted parent}"
  return device.id :: seen

def validateMachineDescription (description : MachineDescription) : Except String Unit := do
  let totals ← description.hostNodes.foldlM checkHostNode ⟨[], 0, 0, 0⟩
  description.hostNodes.forM (checkHostParent description.hostNodes)
  refuseIf (description.hostNodes ≠ [] ∧ totals.cpuCount ≠ description.cpus.toNat)
    s!"host inventory reports {totals.cpuCount} logical CPUs but machine summary reports {description.cpus}"
  refuseIf (description.hostNodes ≠ [] ∧
      (totals.memoryNodes = 0 ∨ totals.memoryTotal ≠ description.memoryBytes))
    s!"host inventory reports {totals.memoryTotal} memory bytes across {totals.memoryNodes} nodes but machine summary reports {description.memoryBytes}"
  let _ ← description.devices.foldlM (checkDevice description.hostNodes) []
  return ()

/-! Returning machines. -/

/-- A committed host node as the agent would have to report it. -/
def committedSpec (graph : Graph) (machine id : NodeId) : Except String (Option HostNodeSpec) :=
  match graph.node id with
  | none => .ok none
  | some node =>
    match node.attrs[hostIdAttr]? with
    | none => .ok none
    | some hostId => do
      let parent ← match graph.parentOf id with
        | none => .error s!"host node {DebugText.quoted hostId} lost containment"
        | some parent =>
          if parent = machine then .ok none
          else (okOr ((graph.node parent).bind fun node => node.attrs[hostIdAttr]?)
            s!"host node {DebugText.quoted hostId} has a non-host containment parent").map some
      return some ⟨hostId, node.kind, parent, node.attrs.erase hostIdAttr, node.capacity⟩

def verifyRegisteredHost (graph : Graph) (machine : NodeId) (description : MachineDescription) :
    Except String Unit := do
  let descendants := graph.descendants machine
  let nodes := descendants.filterMap graph.node
  if description.hostNodes = [] then
    refuseIf (nodes.any fun node => hostIdAttr ∈ node.attrs)
      "returning agent omitted previously authoritative normalized host topology"
    let cpus := nodes.filter fun node => node.kind = .cpu
    let memory := nodes.filter fun node => node.kind = .memory
    refuseIf (cpus.length ≠ description.cpus.toNat ∨ (cpus.any fun node => node.capacity ≠ qty .count 1) ∨
        memory.map (fun node => quantityGet node.capacity .bytes) ≠ [description.memoryBytes])
      "returning agent changed host CPU or memory facts"
  else
    let actual ← descendants.mapM (committedSpec graph machine)
    refuseIf (sortSpecs (actual.filterMap id) ≠ sortSpecs description.hostNodes)
      "returning agent changed authoritative host topology or capacity"

end Discover
end Archon.Node
