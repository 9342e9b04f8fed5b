import M57Card.Lib.Json
import Mathlib.Data.Int.Order.Basic
import Mathlib.Logic.Function.Basic

/-!
# The configuration in memory and in the file

`json_read_config_file` parses the configuration file and copies its nodes to the configuration in
memory (`json-oal.c`, lines 437–625). `config_set_if_cmd_port` and `config_set_link_switch`
(`conf.c`, lines 136–156 and 402–415) change the memory and save: `json_write_config_param` (lines
235–303) writes the memory into the nodes of the tree that was parsed, which is then printed.

The file has what concerns the ports of the interfaces and the link switches. The tree that is
printed is the tree that a later start parses. Every access to `network`, `data_port` or
`link_switch`, and every node of which a member is used without a check, is a `Touch`; what an
access outside of an array would read or change is not part of the model.

## Main definitions

* `NetworkSt`, `LinkSwitchSt`, `Config`.
* `jsonParseConfigParam`, `jsonWriteConfigParam`, with their accesses `readTouches`, `writeTouches`.
* `configGetIfNametoindex`, `configSetIfCmdPort`, `configGetLinkSwitch`, `configSetLinkSwitch`.
* `Saved`, `ConfigOp`, `Saved.step`, `Saved.run`.
-/

namespace M57Card.Conf

open Json

/-- `MAX_FPGA_CARD_SLOT_NUM`. -/
def MAX_FPGA_CARD_SLOT_NUM : ℤ := 16

/-- The size of `network` in `struct poal_config`. -/
def NETWORK_NUM : ℕ := 4

/-- `NET_DATA_TYPE_MAX`. -/
def NET_DATA_TYPE_MAX : ℕ := 5

/-- The conversion of an `int` to an `uint16_t`. -/
def toU16 (n : ℤ) : BitVec 16 := BitVec.ofInt 16 n

/-- `struct network_st`. -/
structure NetworkSt where
  ifname : Option String := none
  port : BitVec 16 := 0
  dataPort : ℕ → BitVec 16 := fun _ => 0

/-- `struct link_switch_st`. -/
structure LinkSwitchSt where
  slodId : ℤ := 0
  onoff : ℤ := 0
  deriving DecidableEq

/-- The configuration in memory. -/
structure Config where
  version : Option String := none
  network : ℤ → NetworkSt := fun _ => {}
  linkSwitch : ℤ → LinkSwitchSt := fun _ => {}

namespace Config

/-- Change an interface. -/
def onNetwork (i : ℤ) (f : NetworkSt → NetworkSt) (c : Config) : Config :=
  { c with network := Function.update c.network i (f (c.network i)) }

/-- Change a link switch. -/
def onLink (id : ℤ) (f : LinkSwitchSt → LinkSwitchSt) (c : Config) : Config :=
  { c with linkSwitch := Function.update c.linkSwitch id (f (c.linkSwitch id)) }

variable {c : Config}

@[simp] theorem network_onNetwork_self (i : ℤ) (f : NetworkSt → NetworkSt) :
    (c.onNetwork i f).network i = f (c.network i) :=
  Function.update_self ..

theorem network_onNetwork_of_ne {i k : ℤ} (hk : k ≠ i) (f : NetworkSt → NetworkSt) :
    (c.onNetwork i f).network k = c.network k :=
  Function.update_of_ne hk ..

@[simp] theorem linkSwitch_onLink_self (id : ℤ) (f : LinkSwitchSt → LinkSwitchSt) :
    (c.onLink id f).linkSwitch id = f (c.linkSwitch id) :=
  Function.update_self ..

theorem linkSwitch_onLink_of_ne {id k : ℤ} (hk : k ≠ id) (f : LinkSwitchSt → LinkSwitchSt) :
    (c.onLink id f).linkSwitch k = c.linkSwitch k :=
  Function.update_of_ne hk ..

end Config

/-- An access to an array at an index, or to a member of a node that a lookup has found or not. -/
inductive Touch where
  | network (i : ℤ)
  | dataPort (j : ℕ)
  | linkSwitch (id : ℤ)
  | node (found : Bool)
  deriving DecidableEq

/-- The access is inside of its array. -/
def Touch.Inside : Touch → Prop
  | network i => 0 ≤ i ∧ i < NETWORK_NUM
  | dataPort j => j < NET_DATA_TYPE_MAX
  | linkSwitch id => 0 ≤ id ∧ id < MAX_FPGA_CARD_SLOT_NUM
  | node found => found = true

/-! ### Nodes of an interface -/

/-- The text of `ifname`. -/
def nodeName (node : Json) : Option String := (node.getItem "ifname").bind string?

/-- The number of `port.command`. -/
def nodeCommand (node : Json) : Option ℤ :=
  ((node.getItem "port").bind fun value => value.getItem "command").bind number?

/-- The elements of `port.data`. -/
def nodeData (node : Json) : List Json :=
  (((node.getItem "port").bind fun value => value.getItem "data").map items).getD []

/-- The number at a position of `port.data`. -/
def nodeDataPort (node : Json) (j : ℕ) : Option ℤ := (nodeData node)[j]?.bind number?

/-- The positions of `port.data` with a number. -/
def dataPositions (node : Json) : List ℕ :=
  (List.range (nodeData node).length).filter fun j => (nodeDataPort node j).isSome

/-! ### Reading -/

/-- The port of version `1.0` in the node `name`, for the interface `i`. -/
def readPort10 (name : String) (i : ℤ) (root : Json) (c : Config) : Config :=
  match ((root.getItem name).bind fun node => node.getItem "port").bind number? with
  | some n => c.onNetwork i fun net =>
      { net with port := toU16 n, dataPort := Function.update net.dataPort 0 (toU16 (n + 1)) }
  | none => c

/-- What the loop over the interfaces does with one of them. -/
def readIf (node : Json) (net : NetworkSt) : NetworkSt where
  ifname := match nodeName node with
    | some s => some s
    | none => net.ifname
  port := match nodeCommand node with
    | some n => toU16 n
    | none => net.port
  dataPort j := match nodeDataPort node j with
    | some n => toU16 n
    | none => net.dataPort j

/-- The loop over the interfaces, which ends with the array. -/
def readNetwork (nodes : List Json) (c : Config) : Config :=
  (nodes.take NETWORK_NUM).zipIdx.foldl (fun c x => c.onNetwork x.2 (readIf x.1)) c

/-- The nodes that the loops over `network` go through. -/
def networkNodes (root : Json) : List Json := ((root.getItem "network").map items).getD []

/-- The slot of an entry of `linkSwitch`. -/
def slotValue (e : Json) : ℤ := ((e.getItem "slotId").map valueInt).getD 0

/-- The slot of an entry is a number. -/
def slotIsNumber (e : Json) : Bool := ((e.getItem "slotId").bind number?).isSome

/-- The number of `on`. -/
def entryOn (e : Json) : Option ℤ := (e.getItem "on").bind number?

/-- What the loop over `linkSwitch` does with one entry. -/
def readLink (c : Config) (e : Json) : Config :=
  if MAX_FPGA_CARD_SLOT_NUM ≤ slotValue e then
    c
  else
    let c := if slotIsNumber e then
        c.onLink (slotValue e) fun l => { l with slodId := slotValue e }
      else
        c
    match entryOn e with
    | some n => c.onLink (slotValue e) fun l => { l with onoff := n }
    | none => c

/-- The entries of `control_parm.linkSwitch`. -/
def linkNodes (root : Json) : List Json :=
  (((root.getItem "control_parm").bind fun p => p.getItem "linkSwitch").map items).getD []

/-- The text of `version`. -/
def rootVersion (root : Json) : Option String := (root.getItem "version").bind string?

/-- The interface of the node `network_10g` of version `1.0`: `index` counts a node `network`, and
one more. -/
def index10g (root : Json) : ℤ := if (root.getItem "network").isSome then 2 else 1

/-- The ports, read as the version says. -/
def readPorts (root : Json) (c : Config) : Config :=
  match rootVersion root with
  | none => c
  | some v =>
      let c := { c with version := some v }
      if v = "1.0" then
        readPort10 "network_10g" (index10g root) root (readPort10 "network" 1 root c)
      else
        readNetwork (networkNodes root) c

/-- `json_parse_config_param`, with its result. -/
def jsonParseConfigParam (root : Json) (c : Config) : Config × ℤ :=
  if (root.getItem "status_parm").isNone then
    (c, -1)
  else
    let c := readPorts root c
    if (root.getItem "control_parm").isNone then
      (c, -1)
    else
      let c := (linkNodes root).foldl readLink c
      if (root.getItem "calibration_parm").isNone then
        (c, -1)
      else if (root.getItem "spectrum_parm").isNone then
        (c, -1)
      else
        (c, 0)

/-- The accesses to the port of version `1.0`. -/
def readPort10Touches (name : String) (i : ℤ) (root : Json) : List Touch :=
  if (((root.getItem name).bind fun node => node.getItem "port").bind number?).isSome then
    [.network i, .dataPort 0]
  else
    []

/-- The accesses of the loop to one interface. -/
def readIfTouches (x : Json × ℕ) : List Touch :=
  .network x.2 :: (dataPositions x.1).map .dataPort

/-- The accesses of the loop to one entry of `linkSwitch`. -/
def readLinkTouches (e : Json) : List Touch :=
  .node (e.getItem "slotId").isSome ::
    (if slotValue e < MAX_FPGA_CARD_SLOT_NUM ∧ (slotIsNumber e ∨ (entryOn e).isSome) then
      [.linkSwitch (slotValue e)]
    else
      [])

/-- The accesses of `json_parse_config_param`. -/
def readTouches (root : Json) : List Touch :=
  (match rootVersion root with
    | none => []
    | some v =>
        if v = "1.0" then
          readPort10Touches "network" 1 root ++
            readPort10Touches "network_10g" (index10g root) root
        else
          ((networkNodes root).take NETWORK_NUM).zipIdx.flatMap readIfTouches) ++
    (linkNodes root).flatMap readLinkTouches

/-! ### The memory -/

/-- `config_get_if_nametoindex`. -/
def configGetIfNametoindex (c : Config) (ifname : String) : ℤ :=
  if ifname = "" then
    -1
  else
    match (List.range NETWORK_NUM).find? fun i : ℕ =>
        decide ((c.network i).ifname = some ifname) with
    | some i => i
    | none => -1

/-- `config_set_if_cmd_port`: the memory afterwards when it is saved. -/
def configSetIfCmdPort (ifname : String) (port : BitVec 16) (c : Config) : Option Config :=
  let i := configGetIfNametoindex c ifname
  if i < 0 ∨ (c.network i).port = port then
    none
  else
    some (c.onNetwork i fun net => { net with port := port })

/-- `config_get_link_switch`. -/
def configGetLinkSwitch (c : Config) (id : ℤ) : ℤ :=
  if MAX_FPGA_CARD_SLOT_NUM ≤ id then
    -1
  else if (c.linkSwitch id).slodId = id then
    if (c.linkSwitch id).onoff = 0 then 0 else 1
  else
    0

/-- `config_set_link_switch`: the memory afterwards when it is saved. -/
def configSetLinkSwitch (id onoff : ℤ) (c : Config) : Option Config :=
  if MAX_FPGA_CARD_SLOT_NUM ≤ id then
    none
  else if (c.linkSwitch id).slodId = id then
    some (c.onLink id fun l => { l with onoff := if onoff = 0 then 0 else 1 })
  else
    some c

/-! ### Writing -/

/-- The number of a port. -/
def portValue (p : BitVec 16) : ℤ := p.toNat

/-- The port of version `1.0` in the node `name`: `json_write_double_param`. -/
def writePort10 (name : String) (c : Config) (root : Json) : Json :=
  root.modifyItem name (modifyItem "port" (setNumber (portValue (c.network 0).port)))

/-- The node `port` of an interface, and the loop over its data ports. -/
def writeValue (net : NetworkSt) (value : Json) : Json :=
  (value.modifyItem "command" (setNumber (portValue net.port))).modifyItem "data"
    (mapItems fun j => setNumber (portValue (net.dataPort j)))

/-- What the loop over the interfaces does with one of them. -/
def writeIf (c : Config) (node : Json) : Json :=
  match nodeName node with
  | none => node
  | some s => node.modifyItem "port" (writeValue (c.network (configGetIfNametoindex c s)))

/-- What the loop over `linkSwitch` does with one entry. -/
def writeLink (c : Config) (e : Json) : Json :=
  if slotValue e < MAX_FPGA_CARD_SLOT_NUM ∧ slotIsNumber e ∧
      (c.linkSwitch (slotValue e)).slodId = slotValue e then
    e.modifyItem "on" (setNumber (c.linkSwitch (slotValue e)).onoff)
  else
    e

/-- The ports, written as the version says. -/
def writePorts (c : Config) (root : Json) : Json :=
  if c.version = some "1.0" then
    writePort10 "network_10g" c (writePort10 "network" c root)
  else
    root.modifyItem "network" (mapItems fun _ => writeIf c)

/-- `json_write_config_param`. Without `control_parm` nothing follows the ports. -/
def jsonWriteConfigParam (c : Config) (root : Json) : Json :=
  (writePorts c root).modifyItem "control_parm"
    (modifyItem "linkSwitch" (mapItems fun _ => writeLink c))

/-- The accesses to the port of version `1.0`. -/
def writePort10Touches (name : String) (root : Json) : List Touch :=
  [.network 0, .node ((root.getItem name).bind fun node => node.getItem "port").isSome]

/-- The accesses of the loop to one interface. -/
def writeIfTouches (c : Config) (node : Json) : List Touch :=
  match nodeName node with
  | none => []
  | some s =>
      (if (nodeCommand node).isSome then [.network (configGetIfNametoindex c s)] else []) ++
        (dataPositions node).flatMap fun j =>
          [.network (configGetIfNametoindex c s), .dataPort j]

/-- The accesses of the loop to one entry of `linkSwitch`. -/
def writeLinkTouches (c : Config) (e : Json) : List Touch :=
  .node (e.getItem "slotId").isSome ::
    (if slotValue e < MAX_FPGA_CARD_SLOT_NUM ∧ slotIsNumber e then
      .linkSwitch (slotValue e) ::
        (if (c.linkSwitch (slotValue e)).slodId = slotValue e then
          [.node (e.getItem "on").isSome]
        else
          [])
    else
      [])

/-- The accesses of `json_write_config_param`. -/
def writeTouches (c : Config) (root : Json) : List Touch :=
  (if c.version = some "1.0" then
      writePort10Touches "network" root ++ writePort10Touches "network_10g" root
    else
      (networkNodes root).flatMap (writeIfTouches c)) ++
    (linkNodes root).flatMap (writeLinkTouches c)

/-! ### Runs -/

/-- The tree that has been parsed, the configuration, and the accesses so far. -/
structure Saved where
  root : Json
  config : Config
  touches : List Touch

/-- A call. -/
inductive ConfigOp where
  | setIfCmdPort (ifname : String) (port : BitVec 16)
  | setLinkSwitch (id onoff : ℤ)
  deriving DecidableEq

namespace Saved

/-- The configuration is read at the start of the process. -/
def load (root : Json) : Saved where
  root := root
  config := (jsonParseConfigParam root {}).1
  touches := readTouches root

/-- `config_save_all`. -/
def save (s : Saved) : Saved :=
  { s with
    root := jsonWriteConfigParam s.config s.root
    touches := s.touches ++ writeTouches s.config s.root }

/-- One call. -/
def step (s : Saved) : ConfigOp → Saved
  | .setIfCmdPort ifname port =>
      match configSetIfCmdPort ifname port s.config with
      | some c => { s with config := c }.save
      | none => s
  | .setLinkSwitch id onoff =>
      match configSetLinkSwitch id onoff s.config with
      | some c => { s with config := c }.save
      | none => s

/-- The calls `ops`, one after the other, after the configuration file has been read. -/
def run (root : Json) (ops : List ConfigOp) : Saved := ops.foldl step (load root)

end Saved

end M57Card.Conf
