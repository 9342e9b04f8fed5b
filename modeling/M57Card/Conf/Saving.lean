import M57Card.Conf.Config
import Mathlib.Data.Int.Basic
import Mathlib.Data.List.Induction

/-!
# What saving does to the file

Saving changes numbers of the tree and nothing else: the nodes that are looked up, the names of the
interfaces and the slots of the entries stay. It depends on the names of the interfaces and the
slots in memory, which no call changes, and what is saved last does not depend on what has been
saved before.

## Main definitions

* `SameNames` : two configurations with the same version, names and slots.

## Main results

* `nodeCommand_writeIf`, `nodeDataPort_writeIf`, `entryOn_writeLink` : the numbers afterwards.
* `jsonWriteConfigParam_write` : saving after saving.
* `Saved.runInv_run` : what holds after any number of calls.
-/

namespace M57Card.Conf

open Json

/-! ### An interface -/

theorem nodeName_writeIf (c : Config) (node : Json) :
    nodeName (writeIf c node) = nodeName node := by
  have hne : sameName "port" "ifname" = false := by decide
  unfold writeIf
  split
  · rfl
  · exact congrArg (·.bind string?) (getItem_modifyItem_of_ne hne _ node)

theorem writeIf_of_none {c : Config} {node : Json} (hs : nodeName node = none) :
    writeIf c node = node := by
  unfold writeIf
  rw [hs]

theorem writeIf_of_some {c : Config} {node : Json} {s : String} (hs : nodeName node = some s) :
    writeIf c node =
      node.modifyItem "port" (writeValue (c.network (configGetIfNametoindex c s))) := by
  unfold writeIf
  rw [hs]

/-- The node `port` after the interface has been written. -/
theorem getItem_port_writeIf {c : Config} {node : Json} {s : String} (hs : nodeName node = some s) :
    (writeIf c node).getItem "port" = (node.getItem "port").map
      (writeValue (c.network (configGetIfNametoindex c s))) := by
  rw [writeIf_of_some hs]
  exact getItem_modifyItem_self _ _ _

theorem getItem_command_writeValue (net : NetworkSt) (value : Json) :
    (writeValue net value).getItem "command" =
      (value.getItem "command").map (setNumber (portValue net.port)) := by
  rw [writeValue, getItem_modifyItem_of_ne (by decide), getItem_modifyItem_self]

theorem getItem_data_writeValue (net : NetworkSt) (value : Json) :
    (writeValue net value).getItem "data" = (value.getItem "data").map
      (mapItems fun j => setNumber (portValue (net.dataPort j))) := by
  rw [writeValue, getItem_modifyItem_self, getItem_modifyItem_of_ne (by decide)]

theorem writeValue_writeValue (net net' : NetworkSt) (value : Json) :
    writeValue net (writeValue net' value) = writeValue net value := by
  have hne : sameName "data" "command" = false := by decide
  unfold writeValue
  rw [modifyItem_comm hne, modifyItem_modifyItem, modifyItem_modifyItem]
  congr 1
  · funext data
    simp only [Function.comp_apply, mapItems_mapItems]
    congr 1
    funext j e
    exact setNumber_setNumber _ _ e
  · congr 1
    funext command
    exact setNumber_setNumber _ _ command

theorem nodeCommand_writeIf {c : Config} {node : Json} {s : String} (hs : nodeName node = some s) :
    nodeCommand (writeIf c node) = (nodeCommand node).map fun _ =>
      portValue (c.network (configGetIfNametoindex c s)).port := by
  unfold nodeCommand
  rw [getItem_port_writeIf hs]
  cases node.getItem "port" with
  | none => rfl
  | some value =>
    simp only [Option.map_some, Option.bind_some, getItem_command_writeValue]
    cases value.getItem "command" with
    | none => rfl
    | some command => exact number?_setNumber _ command

theorem nodeData_writeIf {c : Config} {node : Json} {s : String} (hs : nodeName node = some s) :
    nodeData (writeIf c node) = (nodeData node).mapIdx fun j =>
      setNumber (portValue ((c.network (configGetIfNametoindex c s)).dataPort j)) := by
  unfold nodeData
  rw [getItem_port_writeIf hs]
  cases node.getItem "port" with
  | none => rfl
  | some value =>
    simp only [Option.map_some, Option.bind_some, getItem_data_writeValue]
    cases value.getItem "data" with
    | none => rfl
    | some data => exact items_mapItems _ data

theorem nodeDataPort_writeIf {c : Config} {node : Json} {s : String} (hs : nodeName node = some s)
    (j : ℕ) : nodeDataPort (writeIf c node) j = (nodeDataPort node j).map fun _ =>
      portValue ((c.network (configGetIfNametoindex c s)).dataPort j) := by
  unfold nodeDataPort
  rw [nodeData_writeIf hs, List.getElem?_mapIdx]
  cases (nodeData node)[j]? with
  | none => rfl
  | some e => exact number?_setNumber _ e

/-- Whether a node has a command number stays. -/
theorem isSome_nodeCommand_writeIf (c : Config) (node : Json) :
    (nodeCommand (writeIf c node)).isSome = (nodeCommand node).isSome := by
  cases hs : nodeName node with
  | none => rw [writeIf_of_none hs]
  | some s => rw [nodeCommand_writeIf hs, Option.isSome_map]

theorem dataPositions_writeIf (c : Config) (node : Json) :
    dataPositions (writeIf c node) = dataPositions node := by
  cases hs : nodeName node with
  | none => rw [writeIf_of_none hs]
  | some s =>
    unfold dataPositions
    rw [nodeData_writeIf hs, List.length_mapIdx]
    refine List.filter_congr fun j _ => ?_
    rw [nodeDataPort_writeIf hs, Option.isSome_map]

/-! ### An entry of the link switches -/

theorem slotValue_writeLink (c : Config) (e : Json) : slotValue (writeLink c e) = slotValue e := by
  unfold writeLink slotValue
  split_ifs
  · rw [getItem_modifyItem_of_ne (by decide)]
  · rfl

theorem isSome_slotId_writeLink (c : Config) (e : Json) :
    ((writeLink c e).getItem "slotId").isSome = (e.getItem "slotId").isSome := by
  unfold writeLink
  split_ifs
  · rw [getItem_modifyItem_of_ne (by decide)]
  · rfl

theorem slotIsNumber_writeLink (c : Config) (e : Json) :
    slotIsNumber (writeLink c e) = slotIsNumber e := by
  unfold writeLink
  split_ifs
  · unfold slotIsNumber
    rw [getItem_modifyItem_of_ne (by decide)]
  · rfl

theorem isSome_on_writeLink (c : Config) (e : Json) :
    ((writeLink c e).getItem "on").isSome = (e.getItem "on").isSome := by
  unfold writeLink
  split_ifs
  · rw [getItem_modifyItem_self, Option.isSome_map]
  · rfl

/-- The number of an entry that is written. -/
theorem entryOn_writeLink (c : Config) (e : Json) :
    entryOn (writeLink c e) =
      if slotValue e < MAX_FPGA_CARD_SLOT_NUM ∧ slotIsNumber e ∧
          (c.linkSwitch (slotValue e)).slodId = slotValue e then
        (entryOn e).map fun _ => (c.linkSwitch (slotValue e)).onoff
      else
        entryOn e := by
  unfold writeLink
  split_ifs
  · unfold entryOn
    rw [getItem_modifyItem_self]
    cases e.getItem "on" with
    | none => rfl
    | some on => exact number?_setNumber _ on
  · rfl

theorem isSome_entryOn_writeLink (c : Config) (e : Json) :
    (entryOn (writeLink c e)).isSome = (entryOn e).isSome := by
  rw [entryOn_writeLink]
  split_ifs
  · exact Option.isSome_map
  · rfl

/-! ### The tree -/

section Tree

variable (c : Config) (root : Json)

/-- The nodes that are looked up at the root, other than those that are written. -/
theorem getItem_write {name : String} (hnet : sameName "network" name = false)
    (hnet10 : sameName "network_10g" name = false) (hctrl : sameName "control_parm" name = false) :
    (jsonWriteConfigParam c root).getItem name = root.getItem name := by
  rw [jsonWriteConfigParam, getItem_modifyItem_of_ne hctrl, writePorts]
  split_ifs
  · rw [writePort10, getItem_modifyItem_of_ne hnet10, writePort10, getItem_modifyItem_of_ne hnet]
  · rw [getItem_modifyItem_of_ne hnet]

theorem rootVersion_write : rootVersion (jsonWriteConfigParam c root) = rootVersion root := by
  rw [rootVersion, getItem_write c root (by decide) (by decide) (by decide), rootVersion]

/-- `control_parm` after the ports have been written. -/
theorem getItem_control_writePorts :
    (writePorts c root).getItem "control_parm" = root.getItem "control_parm" := by
  rw [writePorts]
  split_ifs
  · rw [writePort10, getItem_modifyItem_of_ne (by decide), writePort10,
      getItem_modifyItem_of_ne (by decide)]
  · rw [getItem_modifyItem_of_ne (by decide)]

theorem isNone_control_write : ((jsonWriteConfigParam c root).getItem "control_parm").isNone =
    (root.getItem "control_parm").isNone := by
  rw [jsonWriteConfigParam, getItem_modifyItem_self, getItem_control_writePorts, Option.isNone_map]

theorem linkNodes_write :
    linkNodes (jsonWriteConfigParam c root) = (linkNodes root).map (writeLink c) := by
  unfold linkNodes
  rw [jsonWriteConfigParam, getItem_modifyItem_self, getItem_control_writePorts]
  cases root.getItem "control_parm" with
  | none => rfl
  | some p =>
    simp only [Option.map_some, Option.bind_some, getItem_modifyItem_self]
    cases p.getItem "linkSwitch" with
    | none => rfl
    | some links =>
      simp only [Option.map_some, Option.getD_some, items_mapItems]
      exact List.ext_getElem? fun i => by simp

/-- The node `name` after the rest has been written. -/
theorem getItem_write_of_ne {name : String} (hctrl : sameName "control_parm" name = false) :
    (jsonWriteConfigParam c root).getItem name = (writePorts c root).getItem name := by
  rw [jsonWriteConfigParam, getItem_modifyItem_of_ne hctrl]

theorem networkNodes_write (hv : c.version ≠ some "1.0") :
    networkNodes (jsonWriteConfigParam c root) = (networkNodes root).map (writeIf c) := by
  unfold networkNodes
  rw [getItem_write_of_ne c root (by decide), writePorts, if_neg hv, getItem_modifyItem_self]
  cases root.getItem "network" with
  | none => rfl
  | some node =>
    simp only [Option.map_some, Option.getD_some, items_mapItems]
    exact List.ext_getElem? fun i => by simp

/-- The node of a port of version `1.0`. -/
def port10 (name : String) (root : Json) : Option Json :=
  (root.getItem name).bind fun node => node.getItem "port"

theorem getItem_write_port10 (hv : c.version = some "1.0") {name : String}
    (hname : name = "network" ∨ name = "network_10g") :
    (jsonWriteConfigParam c root).getItem name = (root.getItem name).map
      (modifyItem "port" (setNumber (portValue (c.network 0).port))) := by
  have hports : (writePorts c root).getItem name = (root.getItem name).map
      (modifyItem "port" (setNumber (portValue (c.network 0).port))) := by
    rw [writePorts, if_pos hv]
    rcases hname with rfl | rfl
    · rw [writePort10, getItem_modifyItem_of_ne (by decide), writePort10, getItem_modifyItem_self]
    · rw [writePort10, getItem_modifyItem_self, writePort10, getItem_modifyItem_of_ne (by decide)]
  have hctrl : sameName "control_parm" name = false := by
    rcases hname with rfl | rfl <;> decide
  rw [getItem_write_of_ne c root hctrl, hports]

theorem index10g_write (hv : c.version = some "1.0") :
    index10g (jsonWriteConfigParam c root) = index10g root := by
  rw [index10g, getItem_write_port10 c root hv (Or.inl rfl), Option.isSome_map, index10g]

theorem port10_write (hv : c.version = some "1.0") {name : String}
    (hname : name = "network" ∨ name = "network_10g") :
    port10 name (jsonWriteConfigParam c root) =
      (port10 name root).map (setNumber (portValue (c.network 0).port)) := by
  unfold port10
  rw [getItem_write_port10 c root hv hname]
  cases root.getItem name with
  | none => rfl
  | some node => exact getItem_modifyItem_self _ _ node

end Tree

/-! ### Saving twice -/

theorem writeIf_writeIf (c c' : Config) (node : Json) :
    writeIf c (writeIf c' node) = writeIf c node := by
  cases hs : nodeName node with
  | none => rw [writeIf_of_none hs]
  | some s =>
    have hs' : nodeName (writeIf c' node) = some s := (nodeName_writeIf c' node).trans hs
    rw [writeIf_of_some hs', writeIf_of_some hs, writeIf_of_some hs, modifyItem_modifyItem]
    congr 1
    funext value
    exact writeValue_writeValue _ _ value

/-- Two configurations with the same version, names and slots, and the same data ports. -/
structure SameNames (c c' : Config) : Prop where
  version : c'.version = c.version
  ifname : ∀ i, (c'.network i).ifname = (c.network i).ifname
  dataPort : ∀ i, (c'.network i).dataPort = (c.network i).dataPort
  slodId : ∀ id, (c'.linkSwitch id).slodId = (c.linkSwitch id).slodId

theorem SameNames.refl (c : Config) : SameNames c c :=
  ⟨rfl, fun _ => rfl, fun _ => rfl, fun _ => rfl⟩

theorem SameNames.trans {c c' c'' : Config} (h : SameNames c c') (h' : SameNames c' c'') :
    SameNames c c'' :=
  ⟨h'.version.trans h.version, fun i => (h'.ifname i).trans (h.ifname i),
    fun i => (h'.dataPort i).trans (h.dataPort i), fun id => (h'.slodId id).trans (h.slodId id)⟩

theorem SameNames.symm {c c' : Config} (h : SameNames c c') : SameNames c' c :=
  ⟨h.version.symm, fun i => (h.ifname i).symm, fun i => (h.dataPort i).symm,
    fun id => (h.slodId id).symm⟩

theorem SameNames.index {c c' : Config} (h : SameNames c c') (s : String) :
    configGetIfNametoindex c' s = configGetIfNametoindex c s := by
  unfold configGetIfNametoindex
  simp only [h.ifname]

theorem writeLink_writeLink {c c' : Config} (h : SameNames c c') (e : Json) :
    writeLink c (writeLink c' e) = writeLink c e := by
  have hcond : (slotValue e < MAX_FPGA_CARD_SLOT_NUM ∧ slotIsNumber e ∧
      (c'.linkSwitch (slotValue e)).slodId = slotValue e) ↔
      (slotValue e < MAX_FPGA_CARD_SLOT_NUM ∧ slotIsNumber e ∧
        (c.linkSwitch (slotValue e)).slodId = slotValue e) := by
    rw [h.slodId]
  rw [writeLink, slotValue_writeLink, slotIsNumber_writeLink]
  by_cases hw : slotValue e < MAX_FPGA_CARD_SLOT_NUM ∧ slotIsNumber e ∧
      (c.linkSwitch (slotValue e)).slodId = slotValue e
  · rw [if_pos hw, writeLink, if_pos (hcond.mpr hw), writeLink, if_pos hw, modifyItem_modifyItem]
    congr 1
    funext on
    exact setNumber_setNumber _ _ on
  · rw [if_neg hw, writeLink, if_neg (mt hcond.mp hw), writeLink, if_neg hw]

theorem writePorts_modifyItem (c : Config) (f : Json → Json) (root : Json) :
    writePorts c (modifyItem "control_parm" f root) =
      modifyItem "control_parm" f (writePorts c root) := by
  have hnet : sameName "control_parm" "network" = false := by decide
  have hnet10 : sameName "control_parm" "network_10g" = false := by decide
  unfold writePorts writePort10
  split_ifs
  · rw [modifyItem_comm hnet, modifyItem_comm hnet10]
  · rw [modifyItem_comm hnet]

theorem writePorts_writePorts {c c' : Config} (h : SameNames c c') (root : Json) :
    writePorts c (writePorts c' root) = writePorts c root := by
  have hne : sameName "network_10g" "network" = false := by decide
  unfold writePorts
  rw [h.version]
  split_ifs
  · have hport (f g : ℤ) : modifyItem "port" (setNumber g) ∘ modifyItem "port" (setNumber f) =
        modifyItem "port" (setNumber g) := by
      funext node
      simp only [Function.comp_apply, modifyItem_modifyItem]
      congr 1
      funext port
      exact setNumber_setNumber f g port
    simp only [writePort10]
    rw [modifyItem_comm hne, modifyItem_modifyItem, modifyItem_modifyItem, hport]
  · rw [modifyItem_modifyItem]
    congr 1
    funext node
    simp only [Function.comp_apply, mapItems_mapItems]
    congr 1
    funext i e
    exact writeIf_writeIf c c' e

/-- What is saved last does not depend on what has been saved before. -/
theorem jsonWriteConfigParam_write {c c' : Config} (h : SameNames c c') (root : Json) :
    jsonWriteConfigParam c (jsonWriteConfigParam c' root) = jsonWriteConfigParam c root := by
  unfold jsonWriteConfigParam
  rw [writePorts_modifyItem, modifyItem_modifyItem, writePorts_writePorts h]
  congr 1
  funext p
  simp only [Function.comp_apply, modifyItem_modifyItem]
  congr 1
  funext links
  simp only [Function.comp_apply, mapItems_mapItems]
  congr 1
  funext i e
  exact writeLink_writeLink h e

/-! ### Accesses -/

theorem readPort10Touches_write {c : Config} {root : Json} (hv : c.version = some "1.0")
    {name : String} (hname : name = "network" ∨ name = "network_10g") (i : ℤ) :
    readPort10Touches name i (jsonWriteConfigParam c root) = readPort10Touches name i root := by
  have hport := port10_write c root hv hname
  unfold port10 at hport
  unfold readPort10Touches
  rw [hport]
  cases (root.getItem name).bind fun node => node.getItem "port" with
  | none => rfl
  | some port => rw [Option.map_some, Option.bind_some, Option.bind_some, number?_setNumber,
      Option.isSome_map]

/-- Reading what has been saved goes to the same places. -/
theorem readTouches_write {c : Config} {root : Json} (hv : c.version = rootVersion root) :
    readTouches (jsonWriteConfigParam c root) = readTouches root := by
  have hlinks : (linkNodes (jsonWriteConfigParam c root)).flatMap readLinkTouches =
      (linkNodes root).flatMap readLinkTouches := by
    rw [linkNodes_write, List.flatMap_map]
    refine congrArg (fun f => (linkNodes root).flatMap f) (funext fun e => ?_)
    simp only [readLinkTouches, isSome_slotId_writeLink, slotValue_writeLink,
      slotIsNumber_writeLink, isSome_entryOn_writeLink]
  unfold readTouches
  rw [hlinks, rootVersion_write]
  congr 1
  cases hroot : rootVersion root with
  | none => rfl
  | some v =>
    dsimp only
    split_ifs with hv10
    · have hv' : c.version = some "1.0" := by rw [hv, hroot, hv10]
      rw [readPort10Touches_write hv' (Or.inl rfl), readPort10Touches_write hv' (Or.inr rfl),
        index10g_write c root hv']
    · have hv' : c.version ≠ some "1.0" := by
        rw [hv, hroot]
        exact fun h => hv10 (Option.some.inj h)
      rw [networkNodes_write c root hv', ← List.map_take, List.zipIdx_map, List.flatMap_map]
      refine congrArg (fun f => List.flatMap f _) (funext fun x => ?_)
      simp only [readIfTouches, Prod.map_fst, Prod.map_snd, id, dataPositions_writeIf]

/-- Saving again goes to the same places. -/
theorem writeTouches_write {c c' : Config} (h : SameNames c c') (root : Json) :
    writeTouches c (jsonWriteConfigParam c' root) = writeTouches c root := by
  have hlinks : (linkNodes (jsonWriteConfigParam c' root)).flatMap (writeLinkTouches c) =
      (linkNodes root).flatMap (writeLinkTouches c) := by
    rw [linkNodes_write, List.flatMap_map]
    refine congrArg (fun f => (linkNodes root).flatMap f) (funext fun e => ?_)
    simp only [writeLinkTouches, isSome_slotId_writeLink, slotValue_writeLink,
      slotIsNumber_writeLink, isSome_on_writeLink]
  unfold writeTouches
  rw [hlinks]
  congr 1
  split_ifs with hv
  · have hv' : c'.version = some "1.0" := h.version.trans hv
    have hnet := port10_write c' root hv' (Or.inl rfl)
    have hnet10 := port10_write c' root hv' (Or.inr rfl)
    unfold port10 at hnet hnet10
    simp only [writePort10Touches, hnet, hnet10, Option.isSome_map]
  · have hv' : c'.version ≠ some "1.0" := fun h' => hv (h.version.symm.trans h')
    rw [networkNodes_write c' root hv', List.flatMap_map]
    refine congrArg (fun f => (networkNodes root).flatMap f) (funext fun node => ?_)
    simp only [writeIfTouches, nodeName_writeIf, isSome_nodeCommand_writeIf, dataPositions_writeIf]

theorem writeTouches_congr {c c' : Config} (h : SameNames c c') (root : Json) :
    writeTouches c' root = writeTouches c root := by
  have hif : writeIfTouches c' = writeIfTouches c := by
    funext node
    simp only [writeIfTouches, h.index]
  have hlink : writeLinkTouches c' = writeLinkTouches c := by
    funext e
    simp only [writeLinkTouches, h.slodId]
  rw [writeTouches, writeTouches, hif, hlink, h.version]

/-! ### Runs -/

/-- An index that is found is that of an interface with the name. -/
theorem index_spec {c : Config} {s : String} (h : 0 ≤ configGetIfNametoindex c s) :
    configGetIfNametoindex c s < NETWORK_NUM ∧
      (c.network (configGetIfNametoindex c s)).ifname = some s := by
  unfold configGetIfNametoindex at h ⊢
  by_cases hs : s = ""
  · rw [if_pos hs] at h
    exact absurd h (by decide)
  rw [if_neg hs] at h ⊢
  cases hfind : (List.range NETWORK_NUM).find? fun i : ℕ =>
      decide ((c.network i).ifname = some s) with
  | none =>
    rw [hfind] at h
    exact absurd h (by decide)
  | some i =>
    have hmem := List.mem_range.mp (List.mem_of_find?_eq_some hfind)
    exact ⟨Int.ofNat_lt.mpr hmem, by simpa using List.find?_some hfind⟩

/-- A call changes the port of an interface with a name. -/
theorem sameNames_setIfCmdPort {c c' : Config} {s : String} {port : BitVec 16}
    (h : configSetIfCmdPort s port c = some c') : SameNames c c' ∧
      ∀ i, (c.network i).ifname = none → (c'.network i).port = (c.network i).port := by
  unfold configSetIfCmdPort at h
  dsimp only at h
  split_ifs at h with hnone
  obtain rfl := Option.some.inj h
  have hindex : 0 ≤ configGetIfNametoindex c s := not_lt.mp (not_or.mp hnone).1
  have hname := (index_spec hindex).2
  refine ⟨⟨rfl, fun i => ?_, fun i => ?_, fun _ => rfl⟩, fun i hi => ?_⟩
  · by_cases hi : i = configGetIfNametoindex c s
    · rw [hi, Config.network_onNetwork_self]
    · rw [Config.network_onNetwork_of_ne hi]
  · by_cases hi : i = configGetIfNametoindex c s
    · rw [hi, Config.network_onNetwork_self]
    · rw [Config.network_onNetwork_of_ne hi]
  · have hne : i ≠ configGetIfNametoindex c s := by
      rintro rfl
      exact absurd (hi.symm.trans hname) (by simp)
    rw [Config.network_onNetwork_of_ne hne]

theorem sameNames_setLinkSwitch {c c' : Config} {id onoff : ℤ}
    (h : configSetLinkSwitch id onoff c = some c') :
    SameNames c c' ∧ c'.network = c.network := by
  unfold configSetLinkSwitch at h
  by_cases hmax : MAX_FPGA_CARD_SLOT_NUM ≤ id
  · rw [if_pos hmax] at h
    exact absurd h (by simp)
  rw [if_neg hmax] at h
  by_cases hslot : (c.linkSwitch id).slodId = id
  · rw [if_pos hslot] at h
    obtain rfl := Option.some.inj h
    refine ⟨⟨rfl, fun _ => rfl, fun _ => rfl, fun i => ?_⟩, rfl⟩
    by_cases hi : i = id
    · rw [hi, Config.linkSwitch_onLink_self]
    · rw [Config.linkSwitch_onLink_of_ne hi]
  · rw [if_neg hslot] at h
    obtain rfl := Option.some.inj h
    exact ⟨SameNames.refl c, rfl⟩

namespace Saved

/-- What holds after any number of calls: the names and slots are as loaded, a port without a name
too, the tree is the one that was parsed with one saving at most, and the accesses were those of
reading and saving it. -/
structure RunInv (root : Json) (s : Saved) : Prop where
  names : SameNames (load root).config s.config
  unnamed : ∀ i, ((load root).config.network i).ifname = none →
    (s.config.network i).port = ((load root).config.network i).port
  tree : s.root = root ∨
    ∃ c', SameNames (load root).config c' ∧ s.root = jsonWriteConfigParam c' root
  sub : ∀ t ∈ s.touches, t ∈ readTouches root ∨ t ∈ writeTouches (load root).config root
  read : ∀ t ∈ readTouches root, t ∈ s.touches

variable {root : Json} {s : Saved}

theorem RunInv.save_root (hs : RunInv root s) :
    s.save.root = jsonWriteConfigParam s.config root := by
  change jsonWriteConfigParam s.config s.root = _
  obtain h | ⟨c', hc', h⟩ := hs.tree
  · rw [h]
  · rw [h, jsonWriteConfigParam_write (hs.names.symm.trans hc')]

theorem RunInv.save_touches (hs : RunInv root s) :
    writeTouches s.config s.root = writeTouches (load root).config root := by
  obtain h | ⟨c', hc', h⟩ := hs.tree
  · rw [h, writeTouches_congr hs.names]
  · rw [h, writeTouches_write (hs.names.symm.trans hc'), writeTouches_congr hs.names]

theorem RunInv.save (hs : RunInv root s) : RunInv root s.save := by
  refine ⟨hs.names, hs.unnamed, Or.inr ⟨s.config, hs.names, hs.save_root⟩, fun t ht => ?_,
    fun t ht => List.mem_append_left _ (hs.read t ht)⟩
  rcases List.mem_append.mp ht with ht | ht
  · exact hs.sub t ht
  · rw [hs.save_touches] at ht
    exact Or.inr ht

/-- A change of the memory, which is then saved. -/
theorem RunInv.of_config (hs : RunInv root s) {c : Config} (hnames : SameNames s.config c)
    (hports : ∀ i, (s.config.network i).ifname = none →
      (c.network i).port = (s.config.network i).port) :
    RunInv root { s with config := c } := by
  refine ⟨hs.names.trans hnames, fun i hi => ?_, hs.tree, hs.sub, hs.read⟩
  have hi' : (s.config.network i).ifname = none := (hs.names.ifname i).trans hi
  exact (hports i hi').trans (hs.unnamed i hi)

theorem RunInv.step (hs : RunInv root s) (op : ConfigOp) : RunInv root (s.step op) := by
  cases op with
  | setIfCmdPort ifname port =>
    dsimp only [Saved.step]
    split
    case h_1 c hc =>
      obtain ⟨hnames, hports⟩ := sameNames_setIfCmdPort hc
      exact (hs.of_config hnames hports).save
    case h_2 => exact hs
  | setLinkSwitch id onoff =>
    dsimp only [Saved.step]
    split
    case h_1 c hc =>
      obtain ⟨hnames, hnet⟩ := sameNames_setLinkSwitch hc
      exact (hs.of_config hnames fun i _ => by rw [hnet]).save
    case h_2 => exact hs

theorem runInv_load (root : Json) : RunInv root (load root) :=
  ⟨SameNames.refl _, fun _ _ => rfl, Or.inl rfl, fun _ ht => Or.inl ht, fun _ ht => ht⟩

theorem runInv_run (root : Json) (ops : List ConfigOp) : RunInv root (run root ops) :=
  List.foldlRecOn ops step (runInv_load root) fun _ hs op _ => hs.step op

end Saved

end M57Card.Conf
