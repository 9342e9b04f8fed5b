import M57Card.Conf.Saving

/-!
# Saving and restoring the configuration

A configuration that is saved and read again at the next start should have the same ports and the
same link switches.

For version `1.0` the ports are read into the interfaces `1` and `2` and written from the interface
`0`, which that version does not use. For the other versions they are read by position and written
by name, so that the second of two interfaces with one name is written with the ports of the first,
and a name that is not among the first four has no index. The link switches are written to the
entries of the file: what is set for a slot without an entry is lost.

## Main definitions

* `Accepted` : the file is read without an error.
* `RoundTrip` : reading what has been saved gives the ports and switches in memory, and all
  accesses are inside of their arrays.
* `Keeps` : the condition on the file and the memory.

## Main results

* `roundTrip_iff` : the round trip, after any calls.
* `linkSwitch_foldl_readLink`, `lastOn_map_writeLink` : the entries of a slot, read and written.
-/

namespace M57Card.Conf

open Json

/-- `json_read_config_file` returns: no node is missing that it needs. -/
def Accepted (root : Json) : Prop :=
  (jsonParseConfigParam root {}).2 = 0 ∧ ∀ e ∈ linkNodes root, (e.getItem "slotId").isSome = true

/-- After the calls `ops` the configuration is saved and read again. -/
structure RoundTrip (root : Json) (ops : List ConfigOp) : Prop where
  inside : ∀ t ∈ (Saved.run root ops).save.touches ++ readTouches (Saved.run root ops).save.root,
    t.Inside
  ports : ∀ i < NETWORK_NUM,
    ((jsonParseConfigParam (Saved.run root ops).save.root {}).1.network i).port =
      ((Saved.run root ops).config.network i).port
  dataPorts : ∀ i < NETWORK_NUM, ∀ j < NET_DATA_TYPE_MAX,
    ((jsonParseConfigParam (Saved.run root ops).save.root {}).1.network i).dataPort j =
      ((Saved.run root ops).config.network i).dataPort j
  links : ∀ id, 0 ≤ id → id < MAX_FPGA_CARD_SLOT_NUM →
    configGetLinkSwitch (jsonParseConfigParam (Saved.run root ops).save.root {}).1 id =
      configGetLinkSwitch (Saved.run root ops).config id

/-- The interface at position `i` of the file is accessed inside of the arrays: its numbers are data
ports of the array, and when it has a name and a number, an interface in memory has the name. -/
structure IfInside (c : Config) (i : ℕ) (node : Json) : Prop where
  read : c.version.isSome = true → i < NETWORK_NUM →
    ∀ j, (nodeDataPort node j).isSome = true → j < NET_DATA_TYPE_MAX
  command : ∀ s, nodeName node = some s → (nodeCommand node).isSome = true →
    0 ≤ configGetIfNametoindex c s
  data : ∀ s, nodeName node = some s → ∀ j, (nodeDataPort node j).isSome = true →
    0 ≤ configGetIfNametoindex c s ∧ j < NET_DATA_TYPE_MAX

/-- The ports of the interface at position `i` have a number in the file, and are those of the first
interface with its name. -/
structure IfPorts (c : Config) (i : ℕ) (node : Json) : Prop where
  unset : nodeCommand node = none → (c.network i).port = 0
  port : ∀ s, nodeName node = some s → (nodeCommand node).isSome = true →
    (c.network (configGetIfNametoindex c s)).port = (c.network i).port
  data : ∀ s, nodeName node = some s → ∀ j < NET_DATA_TYPE_MAX,
    (nodeDataPort node j).isSome = true →
      (c.network (configGetIfNametoindex c s)).dataPort j = (c.network i).dataPort j

/-- The last number that the entries have for a slot, and whether its entry gives the slot as a
number. -/
def lastOn (es : List Json) (id : ℤ) : Option (Bool × ℤ) :=
  (es.filterMap fun e =>
    if slotValue e = id then (entryOn e).map (Prod.mk (slotIsNumber e)) else none).getLast?

/-- The switch of a slot in memory is one that its last entry has or gets. -/
def SlotKept (root : Json) (c : Config) (id : ℤ) : Prop :=
  (c.linkSwitch id).slodId = id →
    match lastOn (linkNodes root) id with
    | some (true, _) => True
    | some (false, n) => n = 0 ↔ (c.linkSwitch id).onoff = 0
    | none => (c.linkSwitch id).onoff = 0

/-- The configuration `c` in memory is kept by the file. -/
structure Keeps (root : Json) (c : Config) : Prop where
  ports10 : c.version = some "1.0" → ∀ name, name = "network" ∨ name = "network_10g" →
    ∃ port, port10 name root = some port ∧ ∀ n, port.number? = some n → toU16 n = 0
  inside : c.version ≠ some "1.0" → ∀ i node, (networkNodes root)[i]? = some node →
    IfInside c i node
  ports : c.version ≠ some "1.0" → c.version.isSome = true → ∀ i < NETWORK_NUM, ∀ node,
    (networkNodes root)[i]? = some node → IfPorts c i node
  entries : ∀ e ∈ linkNodes root, slotIsNumber e = true → slotValue e < MAX_FPGA_CARD_SLOT_NUM →
    0 ≤ slotValue e ∧ (e.getItem "on").isSome = true
  slots : ∀ id, 0 ≤ id → id < MAX_FPGA_CARD_SLOT_NUM → SlotKept root c id

/-! ### Reading the interfaces -/

theorem network_foldl_readIf (l : List Json) (k : ℕ) (c : Config) (i : ℕ) :
    ((l.zipIdx k).foldl (fun c x => c.onNetwork x.2 (readIf x.1)) c).network i =
      if k ≤ i then
        match l[i - k]? with
        | some node => readIf node (c.network i)
        | none => c.network i
      else
        c.network i := by
  induction l generalizing k c with
  | nil => simp
  | cons a l ih =>
    rw [List.zipIdx_cons, List.foldl_cons, ih]
    by_cases hik : i = k
    · subst hik
      rw [if_neg (Nat.not_succ_le_self i), if_pos le_rfl, Nat.sub_self, List.getElem?_cons_zero,
        Config.network_onNetwork_self]
    · have hne : (i : ℤ) ≠ (k : ℤ) := fun h => hik (Int.ofNat.inj h)
      rw [Config.network_onNetwork_of_ne hne]
      by_cases hle : k ≤ i
      · have hlt : k + 1 ≤ i := by omega
        have hsub : i - k = (i - (k + 1)) + 1 := by omega
        rw [if_pos hlt, if_pos hle, hsub, List.getElem?_cons_succ]
      · rw [if_neg (by omega), if_neg hle]

/-- The loop over the interfaces reads the first four. -/
theorem network_readNetwork (nodes : List Json) (c : Config) {i : ℕ} (hi : i < NETWORK_NUM) :
    (readNetwork nodes c).network i =
      match nodes[i]? with
      | some node => readIf node (c.network i)
      | none => c.network i := by
  rw [readNetwork, network_foldl_readIf, if_pos (Nat.zero_le i), Nat.sub_zero,
    List.getElem?_take_of_lt hi]

theorem rest_foldl_readIf (l : List (Json × ℕ)) (c : Config) :
    (l.foldl (fun c x => c.onNetwork x.2 (readIf x.1)) c).version = c.version ∧
      (l.foldl (fun c x => c.onNetwork x.2 (readIf x.1)) c).linkSwitch = c.linkSwitch := by
  induction l generalizing c with
  | nil => exact ⟨rfl, rfl⟩
  | cons a l ih =>
    rw [List.foldl_cons]
    exact ih (c.onNetwork a.2 (readIf a.1))

theorem rest_readPort10 (name : String) (i : ℤ) (root : Json) (c : Config) :
    (readPort10 name i root c).version = c.version ∧
      (readPort10 name i root c).linkSwitch = c.linkSwitch := by
  unfold readPort10
  split <;> exact ⟨rfl, rfl⟩

/-- Reading the ports sets the version, and leaves the link switches. -/
theorem rest_readPorts (root : Json) :
    (readPorts root {}).version = rootVersion root ∧
      (readPorts root {}).linkSwitch = fun _ => {} := by
  unfold readPorts
  cases rootVersion root with
  | none => exact ⟨rfl, rfl⟩
  | some v =>
    dsimp only
    split_ifs
    · obtain ⟨hv, hl⟩ := rest_readPort10 "network_10g" (index10g root) root
        (readPort10 "network" 1 root { version := some v })
      obtain ⟨hv', hl'⟩ := rest_readPort10 "network" 1 root { version := some v }
      exact ⟨hv.trans hv', hl.trans hl'⟩
    · exact rest_foldl_readIf _ _

/-! ### Reading the link switches -/

theorem network_readLink (c : Config) (e : Json) :
    (readLink c e).network = c.network ∧ (readLink c e).version = c.version := by
  unfold readLink
  dsimp only
  split_ifs
  · exact ⟨rfl, rfl⟩
  · split <;> exact ⟨rfl, rfl⟩
  · split <;> exact ⟨rfl, rfl⟩

theorem network_foldl_readLink (es : List Json) (c : Config) :
    (es.foldl readLink c).network = c.network ∧ (es.foldl readLink c).version = c.version := by
  induction es generalizing c with
  | nil => exact ⟨rfl, rfl⟩
  | cons e es ih =>
    obtain ⟨hnet, hversion⟩ := ih (readLink c e)
    obtain ⟨hnet', hversion'⟩ := network_readLink c e
    exact ⟨hnet.trans hnet', hversion.trans hversion'⟩

/-- What one entry does to a slot. -/
theorem linkSwitch_readLink (c : Config) (e : Json) {id : ℤ} (hid : id < MAX_FPGA_CARD_SLOT_NUM) :
    (readLink c e).linkSwitch id =
      if slotValue e = id then
        { slodId := if slotIsNumber e then id else (c.linkSwitch id).slodId
          onoff := (entryOn e).getD (c.linkSwitch id).onoff }
      else
        c.linkSwitch id := by
  unfold readLink
  by_cases hmax : MAX_FPGA_CARD_SLOT_NUM ≤ slotValue e
  · have hne : slotValue e ≠ id := fun h => absurd hid (not_lt.mpr (h ▸ hmax))
    rw [if_pos hmax, if_neg hne]
  rw [if_neg hmax]
  by_cases hslot : slotValue e = id
  · subst hslot
    rw [if_pos rfl]
    cases entryOn e with
    | none => by_cases hnum : slotIsNumber e = true <;> simp [hnum]
    | some n => by_cases hnum : slotIsNumber e = true <;> simp [hnum]
  · have hne : id ≠ slotValue e := fun h => hslot h.symm
    rw [if_neg hslot]
    cases entryOn e with
    | none =>
      by_cases hnum : slotIsNumber e = true
      · simp only [hnum, if_true, Config.linkSwitch_onLink_of_ne hne]
      · simp only [hnum, if_false, Bool.false_eq_true]
    | some n =>
      by_cases hnum : slotIsNumber e = true
      · simp only [hnum, if_true, Config.linkSwitch_onLink_of_ne hne]
      · simp only [hnum, if_false, Bool.false_eq_true, Config.linkSwitch_onLink_of_ne hne]

/-- Any entry of a slot that gives it as a number sets the id. -/
theorem slodId_foldl_readLink (es : List Json) (c : Config) {id : ℤ}
    (hid : id < MAX_FPGA_CARD_SLOT_NUM) :
    ((es.foldl readLink c).linkSwitch id).slodId =
      if ∃ e ∈ es, slotValue e = id ∧ slotIsNumber e = true then id
      else (c.linkSwitch id).slodId := by
  induction es using List.reverseRecOn with
  | nil => simp
  | append_singleton es e ih =>
    have hmem : (∃ e' ∈ es ++ [e], slotValue e' = id ∧ slotIsNumber e' = true) ↔
        (∃ e' ∈ es, slotValue e' = id ∧ slotIsNumber e' = true) ∨
          slotValue e = id ∧ slotIsNumber e = true := by
      simp only [List.mem_append, List.mem_singleton, or_and_right, exists_or, exists_eq_left]
    rw [List.foldl_append, List.foldl_cons, List.foldl_nil, linkSwitch_readLink _ e hid,
      if_congr hmem rfl rfl]
    by_cases hlast : slotValue e = id ∧ slotIsNumber e = true
    · rw [if_pos hlast.1, if_pos (Or.inr hlast)]
      exact if_pos hlast.2
    · rw [if_congr (or_iff_left hlast) rfl rfl, ← ih]
      split_ifs with hslot hnum
      · exact absurd ⟨hslot, hnum⟩ hlast
      · rfl
      · rfl

/-- The last entry of a slot with a number sets the switch. -/
theorem onoff_foldl_readLink (es : List Json) (c : Config) {id : ℤ}
    (hid : id < MAX_FPGA_CARD_SLOT_NUM) :
    ((es.foldl readLink c).linkSwitch id).onoff =
      ((lastOn es id).map Prod.snd).getD (c.linkSwitch id).onoff := by
  induction es using List.reverseRecOn with
  | nil => simp [lastOn]
  | append_singleton es e ih =>
    rw [List.foldl_append, List.foldl_cons, List.foldl_nil, linkSwitch_readLink _ e hid]
    unfold lastOn
    rw [List.filterMap_append]
    by_cases hslot : slotValue e = id
    · rw [if_pos hslot]
      cases hon : entryOn e with
      | none =>
        simp only [List.filterMap_cons, hslot, if_true, hon, Option.map_none, List.filterMap_nil,
          List.append_nil, Option.getD_none]
        exact ih
      | some n =>
        simp [hslot, hon]
    · rw [if_neg hslot]
      simp only [List.filterMap_cons, hslot, if_false, List.filterMap_nil, List.append_nil]
      exact ih

/-- The last number of a slot after the entries have been written. -/
theorem lastOn_map_writeLink (c : Config) (es : List Json) {id : ℤ}
    (hid : id < MAX_FPGA_CARD_SLOT_NUM) :
    lastOn (es.map (writeLink c)) id = (lastOn es id).map fun x => (x.1,
      if x.1 = true ∧ (c.linkSwitch id).slodId = id then (c.linkSwitch id).onoff else x.2) := by
  unfold lastOn
  rw [List.filterMap_map, ← List.getLast?_map, List.map_filterMap]
  congr 1
  refine List.filterMap_congr fun e _ => ?_
  simp only [Function.comp_apply, slotValue_writeLink, slotIsNumber_writeLink, entryOn_writeLink]
  by_cases hslot : slotValue e = id
  · subst hslot
    simp only [if_true, hid, true_and]
    by_cases hw : slotIsNumber e = true ∧ (c.linkSwitch (slotValue e)).slodId = slotValue e
    · rw [if_pos hw]
      cases entryOn e with
      | none => rfl
      | some n => simp [hw]
    · rw [if_neg hw]
      cases entryOn e with
      | none => rfl
      | some n => simp [hw]
  · simp [hslot]

/-! ### The configuration that is read -/

theorem parse_ret_iff (root : Json) : (jsonParseConfigParam root {}).2 = 0 ↔
    (root.getItem "status_parm").isNone = false ∧ (root.getItem "control_parm").isNone = false ∧
      (root.getItem "calibration_parm").isNone = false ∧
      (root.getItem "spectrum_parm").isNone = false := by
  unfold jsonParseConfigParam
  dsimp only
  split_ifs <;> simp [*]

theorem parse_eq {root : Json} (hread : (jsonParseConfigParam root {}).2 = 0) :
    (jsonParseConfigParam root {}).1 = (linkNodes root).foldl readLink (readPorts root {}) := by
  obtain ⟨hstatus, hctrl, hcal, hspectrum⟩ := (parse_ret_iff root).mp hread
  simp [jsonParseConfigParam, hstatus, hctrl, hcal, hspectrum]

/-- What has been saved is read without an error. -/
theorem parse_write {root : Json} (hread : (jsonParseConfigParam root {}).2 = 0) (c : Config) :
    (jsonParseConfigParam (jsonWriteConfigParam c root) {}).2 = 0 := by
  rw [parse_ret_iff] at hread ⊢
  rwa [isNone_control_write, getItem_write c root (by decide) (by decide) (by decide),
    getItem_write c root (by decide) (by decide) (by decide),
    getItem_write c root (by decide) (by decide) (by decide)]

section Loaded

variable {root : Json} (hread : (jsonParseConfigParam root {}).2 = 0)

include hread

theorem loaded_version : (jsonParseConfigParam root {}).1.version = rootVersion root := by
  rw [parse_eq hread, (network_foldl_readLink _ _).2, (rest_readPorts root).1]

theorem loaded_network :
    (jsonParseConfigParam root {}).1.network = (readPorts root {}).network := by
  rw [parse_eq hread, (network_foldl_readLink _ _).1]

theorem loaded_link {id : ℤ} (hid : id < MAX_FPGA_CARD_SLOT_NUM) :
    ((jsonParseConfigParam root {}).1.linkSwitch id).slodId =
        (if ∃ e ∈ linkNodes root, slotValue e = id ∧ slotIsNumber e = true then id else 0) ∧
      ((jsonParseConfigParam root {}).1.linkSwitch id).onoff =
        ((lastOn (linkNodes root) id).map Prod.snd).getD 0 := by
  have hslod := slodId_foldl_readLink (linkNodes root) (readPorts root {}) hid
  have honoff := onoff_foldl_readLink (linkNodes root) (readPorts root {}) hid
  rw [(rest_readPorts root).2] at hslod honoff
  rw [parse_eq hread]
  exact ⟨hslod, honoff⟩

end Loaded

/-- The interfaces of a version other than `1.0`. -/
theorem network_readPorts {root : Json} {v : String} (hv : rootVersion root = some v)
    (hne : v ≠ "1.0") {i : ℕ} (hi : i < NETWORK_NUM) :
    (readPorts root {}).network i =
      match (networkNodes root)[i]? with
      | some node => readIf node {}
      | none => {} := by
  unfold readPorts
  rw [hv]
  dsimp only
  rw [if_neg hne, network_readNetwork _ _ hi]

/-- The interfaces of a file without a version. -/
theorem network_readPorts_none {root : Json} (hv : rootVersion root = none) (i : ℤ) :
    (readPorts root {}).network i = {} := by
  unfold readPorts
  rw [hv]

theorem network_readPort10 (name : String) (k : ℤ) (root : Json) (c : Config) (i : ℤ) :
    (readPort10 name k root c).network i =
      if i = k then
        match (port10 name root).bind number? with
        | some n =>
            { c.network i with
              port := toU16 n
              dataPort := Function.update (c.network i).dataPort 0 (toU16 (n + 1)) }
        | none => c.network i
      else
        c.network i := by
  unfold readPort10 port10
  cases ((root.getItem name).bind fun node => node.getItem "port").bind number? with
  | none => simp
  | some n =>
    by_cases hik : i = k
    · subst hik
      simp
    · rw [if_neg hik]
      exact Config.network_onNetwork_of_ne hik _

/-- The interface that version `1.0` has for a node. -/
def net10 (port : Option Json) : NetworkSt :=
  match port.bind number? with
  | some n => { port := toU16 n, dataPort := Function.update (fun _ => 0) 0 (toU16 (n + 1)) }
  | none => {}

/-- When `network_10g` has the first interface, there is no node `network`. -/
theorem port10_network_eq_none {root : Json} (h : index10g root = 1) :
    port10 "network" root = none := by
  unfold index10g at h
  split_ifs at h with hsome
  · exact absurd h (by decide)
  · rw [port10, Option.not_isSome_iff_eq_none.mp hsome]
    rfl

theorem index10g_eq (root : Json) : index10g root = 1 ∨ index10g root = 2 := by
  unfold index10g
  split_ifs
  · exact Or.inr rfl
  · exact Or.inl rfl

/-- The interfaces of version `1.0`. -/
theorem network_readPorts10 {root : Json} (hv : rootVersion root = some "1.0") (i : ℤ) :
    (readPorts root {}).network i =
      if i = index10g root then net10 (port10 "network_10g" root)
      else if i = 1 then net10 (port10 "network" root)
      else {} := by
  unfold readPorts
  rw [hv]
  dsimp only
  have hfirst : (readPort10 "network" 1 root { version := some "1.0" }).network i =
      if i = 1 then net10 (port10 "network" root) else {} := network_readPort10 _ _ _ _ _
  rw [if_pos rfl, network_readPort10, hfirst]
  by_cases h10 : i = index10g root
  · have hfree : (if i = 1 then net10 (port10 "network" root) else {}) = ({} : NetworkSt) := by
      split_ifs with h1
      · rw [port10_network_eq_none (h10.symm.trans h1)]
        rfl
      · rfl
    rw [if_pos h10, if_pos h10, hfree]
    rfl
  · rw [if_neg h10, if_neg h10]

/-! ### Accesses inside of the arrays -/

theorem mem_dataPositions {node : Json} {j : ℕ} :
    j ∈ dataPositions node ↔ (nodeDataPort node j).isSome = true := by
  rw [dataPositions, List.mem_filter, List.mem_range]
  refine ⟨And.right, fun h => ⟨?_, h⟩⟩
  by_contra hlt
  rw [nodeDataPort, List.getElem?_eq_none (not_lt.mp hlt)] at h
  exact absurd h (by simp)

/-- A slot that is not given by a number is zero or one. -/
theorem slotValue_of_not_number {e : Json} (h : slotIsNumber e = false) :
    slotValue e = 0 ∨ slotValue e = 1 := by
  unfold slotIsNumber at h
  unfold slotValue
  cases hslot : e.getItem "slotId" with
  | none => exact Or.inl rfl
  | some slot =>
    rw [hslot] at h
    cases slot with
    | num n => exact absurd h (by simp [number?])
    | bool b =>
      cases b with
      | false => exact Or.inl rfl
      | true => exact Or.inr rfl
    | _ => exact Or.inl rfl

theorem inside_readLink_iff {e : Json} (hslot : (e.getItem "slotId").isSome = true) :
    (∀ t ∈ readLinkTouches e, t.Inside) ↔
      (slotIsNumber e = true → slotValue e < MAX_FPGA_CARD_SLOT_NUM → 0 ≤ slotValue e) := by
  unfold readLinkTouches
  rw [List.forall_mem_cons]
  constructor
  · rintro ⟨-, hall⟩ hnum hmax
    rw [if_pos ⟨hmax, Or.inl hnum⟩] at hall
    exact (hall _ (List.mem_singleton_self _)).1
  · refine fun hpos => ⟨hslot, fun t ht => ?_⟩
    split_ifs at ht with hcond
    · rw [List.mem_singleton.mp ht]
      refine ⟨?_, hcond.1⟩
      by_cases hnum : slotIsNumber e = true
      · exact hpos hnum hcond.1
      · have hbit := slotValue_of_not_number (e := e) (by simpa using hnum)
        omega
    · exact absurd ht List.not_mem_nil

theorem inside_writeLink_iff {c : Config} {e : Json} (hslot : (e.getItem "slotId").isSome = true)
    (hslod : slotIsNumber e = true → slotValue e < MAX_FPGA_CARD_SLOT_NUM →
      (c.linkSwitch (slotValue e)).slodId = slotValue e) :
    (∀ t ∈ writeLinkTouches c e, t.Inside) ↔
      (slotIsNumber e = true → slotValue e < MAX_FPGA_CARD_SLOT_NUM →
        0 ≤ slotValue e ∧ (e.getItem "on").isSome = true) := by
  unfold writeLinkTouches
  rw [List.forall_mem_cons]
  constructor
  · rintro ⟨-, hall⟩ hnum hmax
    rw [if_pos ⟨hmax, hnum⟩, if_pos (hslod hnum hmax), List.forall_mem_cons,
      List.forall_mem_singleton] at hall
    exact ⟨hall.1.1, hall.2⟩
  · refine fun hpos => ⟨hslot, fun t ht => ?_⟩
    split_ifs at ht with hcond hid
    · obtain ⟨hge, hon⟩ := hpos hcond.2 hcond.1
      rcases List.mem_cons.mp ht with rfl | ht
      · exact ⟨hge, hcond.1⟩
      · rw [List.mem_singleton.mp ht]
        exact hon
    · exact absurd (hslod hcond.2 hcond.1) hid
    · exact absurd ht List.not_mem_nil

theorem inside_writeIf_iff {c : Config} {node : Json} :
    (∀ t ∈ writeIfTouches c node, t.Inside) ↔
      (∀ s, nodeName node = some s → (nodeCommand node).isSome = true →
          0 ≤ configGetIfNametoindex c s) ∧
        ∀ s, nodeName node = some s → ∀ j, (nodeDataPort node j).isSome = true →
          0 ≤ configGetIfNametoindex c s ∧ j < NET_DATA_TYPE_MAX := by
  unfold writeIfTouches
  cases nodeName node with
  | none => simp
  | some s =>
    have hindex : (Touch.network (configGetIfNametoindex c s)).Inside ↔
        0 ≤ configGetIfNametoindex c s :=
      and_iff_left_of_imp fun h => (index_spec h).1
    simp only [List.mem_append, or_imp, forall_and, Option.some.injEq, forall_eq']
    refine and_congr ?_ ?_
    · by_cases hcmd : (nodeCommand node).isSome = true
      · simp [hcmd, hindex]
      · simp [hcmd]
    · simp only [List.mem_flatMap, mem_dataPositions, List.mem_cons, List.not_mem_nil, or_false,
        forall_exists_index, and_imp]
      constructor
      · exact fun hall => ⟨fun j hj => hindex.mp (hall _ j hj (Or.inl rfl)),
          fun j hj => hall _ j hj (Or.inr rfl)⟩
      · rintro ⟨hnet, hdata⟩ t j hj (rfl | rfl)
        · exact hindex.mpr (hnet j hj)
        · exact hdata j hj

theorem inside_readIf_iff {x : Json × ℕ} (hx : x.2 < NETWORK_NUM) :
    (∀ t ∈ readIfTouches x, t.Inside) ↔
      ∀ j, (nodeDataPort x.1 j).isSome = true → j < NET_DATA_TYPE_MAX := by
  unfold readIfTouches
  rw [List.forall_mem_cons]
  constructor
  · rintro ⟨-, hall⟩ j hj
    exact hall (.dataPort j) (List.mem_map_of_mem (mem_dataPositions.mpr hj))
  · refine fun hall => ⟨⟨Int.natCast_nonneg _, Int.ofNat_lt.mpr hx⟩, fun t ht => ?_⟩
    obtain ⟨j, hj, rfl⟩ := List.mem_map.mp ht
    exact hall j (mem_dataPositions.mp hj)

theorem inside_readPort10 (name : String) {i : ℤ} (hi : 0 ≤ i ∧ i < NETWORK_NUM) (root : Json) :
    ∀ t ∈ readPort10Touches name i root, t.Inside := by
  intro t ht
  unfold readPort10Touches at ht
  split_ifs at ht
  · rcases List.mem_cons.mp ht with rfl | ht
    · exact hi
    · rw [List.mem_singleton.mp ht]
      change 0 < NET_DATA_TYPE_MAX
      decide
  · exact absurd ht List.not_mem_nil

/-- The accesses of reading an accepted file. -/
theorem inside_read_iff {root : Json}
    (hslots : ∀ e ∈ linkNodes root, (e.getItem "slotId").isSome = true) :
    (∀ t ∈ readTouches root, t.Inside) ↔
      (rootVersion root ≠ some "1.0" → (rootVersion root).isSome = true → ∀ i node,
        (networkNodes root)[i]? = some node → i < NETWORK_NUM →
          ∀ j, (nodeDataPort node j).isSome = true → j < NET_DATA_TYPE_MAX) ∧
        ∀ e ∈ linkNodes root, slotIsNumber e = true → slotValue e < MAX_FPGA_CARD_SLOT_NUM →
          0 ≤ slotValue e := by
  unfold readTouches
  simp only [List.mem_append, or_imp, forall_and]
  refine and_congr ?_ ?_
  · cases hv : rootVersion root with
    | none => simp
    | some v =>
      dsimp only
      split_ifs with hv10
      · subst hv10
        refine iff_of_true (fun t ht => ?_) (fun h => absurd rfl h)
        rcases List.mem_append.mp ht with ht | ht
        · exact inside_readPort10 _ (by decide) root t ht
        · have hindex : 0 ≤ index10g root ∧ index10g root < NETWORK_NUM := by
            rcases index10g_eq root with h | h <;> rw [h] <;> decide
          exact inside_readPort10 _ hindex root t ht
      · have hne : some v ≠ some "1.0" := fun h => hv10 (Option.some.inj h)
        simp only [hne, ne_eq, not_false_eq_true, Option.isSome_some, forall_const,
          List.mem_flatMap, forall_exists_index, and_imp]
        constructor
        · intro hall i node hi hlt
          have hmem : (node, i) ∈ ((networkNodes root).take NETWORK_NUM).zipIdx := by
            rw [List.mem_zipIdx_iff_getElem?]
            exact (List.getElem?_take_of_lt hlt).trans hi
          exact (inside_readIf_iff hlt).mp fun t ht => hall t _ hmem ht
        · intro hall t x hx ht
          have hget := List.mem_zipIdx_iff_getElem?.mp hx
          obtain ⟨hlt, -⟩ := List.getElem?_eq_some_iff.mp hget
          have hlt' : x.2 < NETWORK_NUM :=
            lt_of_lt_of_le hlt (List.length_take_le _ _)
          rw [List.getElem?_take_of_lt hlt'] at hget
          exact (inside_readIf_iff hlt').mpr (hall _ _ hget hlt') t ht
  · simp only [List.mem_flatMap, forall_exists_index, and_imp]
    constructor
    · exact fun hall e he => (inside_readLink_iff (hslots e he)).mp fun t ht => hall t e he ht
    · exact fun hall t e he ht => (inside_readLink_iff (hslots e he)).mpr (hall e he) t ht

/-- The accesses of saving. -/
theorem inside_write_iff {root : Json} {c : Config}
    (hslots : ∀ e ∈ linkNodes root, (e.getItem "slotId").isSome = true)
    (hslod : ∀ e ∈ linkNodes root, slotIsNumber e = true → slotValue e < MAX_FPGA_CARD_SLOT_NUM →
      (c.linkSwitch (slotValue e)).slodId = slotValue e) :
    (∀ t ∈ writeTouches c root, t.Inside) ↔
      (c.version = some "1.0" → (port10 "network" root).isSome = true ∧
        (port10 "network_10g" root).isSome = true) ∧
      (c.version ≠ some "1.0" → ∀ node ∈ networkNodes root,
        (∀ s, nodeName node = some s → (nodeCommand node).isSome = true →
          0 ≤ configGetIfNametoindex c s) ∧
        ∀ s, nodeName node = some s → ∀ j, (nodeDataPort node j).isSome = true →
          0 ≤ configGetIfNametoindex c s ∧ j < NET_DATA_TYPE_MAX) ∧
      ∀ e ∈ linkNodes root, slotIsNumber e = true → slotValue e < MAX_FPGA_CARD_SLOT_NUM →
        0 ≤ slotValue e ∧ (e.getItem "on").isSome = true := by
  have hlinks : (∀ t ∈ (linkNodes root).flatMap (writeLinkTouches c), t.Inside) ↔
      ∀ e ∈ linkNodes root, slotIsNumber e = true → slotValue e < MAX_FPGA_CARD_SLOT_NUM →
        0 ≤ slotValue e ∧ (e.getItem "on").isSome = true := by
    simp only [List.mem_flatMap, forall_exists_index, and_imp]
    constructor
    · exact fun hall e he =>
        (inside_writeLink_iff (hslots e he) (hslod e he)).mp fun t ht => hall t e he ht
    · exact fun hall t e he ht =>
        (inside_writeLink_iff (hslots e he) (hslod e he)).mpr (hall e he) t ht
  unfold writeTouches
  rw [List.forall_mem_append, hlinks, ← and_assoc]
  refine and_congr_left' ?_
  split_ifs with hv
  · have hzero : (Touch.network 0).Inside := by
      change (0 : ℤ) ≤ 0 ∧ (0 : ℤ) < NETWORK_NUM
      decide
    simp only [hv, forall_const, ne_eq, not_true_eq_false, false_imp_iff, and_true,
      writePort10Touches, List.forall_mem_append, List.forall_mem_cons, hzero, true_and,
      List.not_mem_nil, implies_true]
    rfl
  · simp only [hv, false_imp_iff, true_and, ne_eq, not_false_eq_true, forall_const,
      List.mem_flatMap, forall_exists_index, and_imp]
    constructor
    · exact fun hall node hnode => inside_writeIf_iff.mp fun t ht => hall t node hnode ht
    · exact fun hall t node hnode ht => inside_writeIf_iff.mpr (hall node hnode) t ht

/-! ### The ports that are read again -/

@[simp] theorem toU16_portValue (p : BitVec 16) : toU16 (portValue p) = p := by
  rw [toU16, portValue, BitVec.ofInt_natCast, BitVec.ofNat_toNat, BitVec.setWidth_eq]

/-- An interface of the file, whose data ports and, without a name, port are as they were read, is
read again as it is in memory exactly when its ports are kept. -/
theorem ifPorts_iff {c : Config} {i : ℕ} {node : Json}
    (hport : nodeName node = none → (c.network i).port = (readIf node {}).port)
    (hdata : (c.network i).dataPort = (readIf node {}).dataPort) :
    ((readIf (writeIf c node) {}).port = (c.network i).port ∧
      ∀ j < NET_DATA_TYPE_MAX,
        (readIf (writeIf c node) {}).dataPort j = (c.network i).dataPort j) ↔ IfPorts c i node := by
  cases hname : nodeName node with
  | none =>
    rw [writeIf_of_none hname]
    refine iff_of_true ⟨(hport hname).symm, fun j _ => by rw [hdata]⟩ ⟨fun hcmd => ?_,
      fun s hs => absurd (hname.symm.trans hs) (by simp),
      fun s hs => absurd (hname.symm.trans hs) (by simp)⟩
    rw [hport hname, readIf, hcmd]
  | some s =>
    have hportIff : (readIf (writeIf c node) {}).port = (c.network i).port ↔
        (nodeCommand node = none → (c.network i).port = 0) ∧
          ((nodeCommand node).isSome = true →
            (c.network (configGetIfNametoindex c s)).port = (c.network i).port) := by
      rw [readIf, nodeCommand_writeIf hname]
      cases nodeCommand node with
      | none => simp [eq_comm]
      | some n => simp
    have hdataIff (j : ℕ) : (readIf (writeIf c node) {}).dataPort j = (c.network i).dataPort j ↔
        ((nodeDataPort node j).isSome = true →
          (c.network (configGetIfNametoindex c s)).dataPort j = (c.network i).dataPort j) := by
      rw [readIf]
      dsimp only
      rw [nodeDataPort_writeIf hname]
      cases hj : nodeDataPort node j with
      | none => simp [hdata, readIf, hj]
      | some n => simp
    rw [hportIff]
    constructor
    · rintro ⟨⟨hunset, hfirst⟩, hall⟩
      refine ⟨hunset, fun s' hs' => ?_, fun s' hs' j hj => ?_⟩
      · obtain rfl : s = s' := Option.some.inj (hname.symm.trans hs')
        exact hfirst
      · obtain rfl : s = s' := Option.some.inj (hname.symm.trans hs')
        exact (hdataIff j).mp (hall j hj)
    · exact fun h => ⟨⟨h.unset, h.port s hname⟩, fun j hj => (hdataIff j).mpr (h.data s hname j hj)⟩

/-- A port of version `1.0` is written as zero. -/
theorem net10_iff (port : Option Json) :
    ((net10 (port.map (setNumber 0))).port = (net10 port).port ∧
      ∀ j < NET_DATA_TYPE_MAX,
        (net10 (port.map (setNumber 0))).dataPort j = (net10 port).dataPort j) ↔
      ∀ node, port = some node → ∀ n, node.number? = some n → toU16 n = 0 := by
  cases port with
  | none => simp
  | some node =>
    simp only [Option.map_some, net10, Option.bind_some, number?_setNumber, Option.some.injEq,
      forall_eq']
    cases node.number? with
    | none => simp
    | some n =>
      simp only [Option.map_some, Option.some.injEq, forall_eq']
      have hsucc : toU16 (n + 1) = toU16 n + 1 := by
        rw [toU16, BitVec.ofInt_add]
        rfl
      constructor
      · exact fun h => h.1.symm
      · intro hn
        rw [hsucc, hn]
        exact ⟨rfl, fun _ _ => rfl⟩

/-! ### After the calls -/

section Run

variable {root : Json} {ops : List ConfigOp}

/-- The accesses of a run are those of reading and of saving the file. -/
theorem inside_run_iff (hread : (jsonParseConfigParam root {}).2 = 0) (ops : List ConfigOp) :
    (∀ t ∈ (Saved.run root ops).save.touches ++ readTouches (Saved.run root ops).save.root,
        t.Inside) ↔
      (∀ t ∈ readTouches root, t.Inside) ∧
        ∀ t ∈ writeTouches (Saved.run root ops).config root, t.Inside := by
  have hinv := Saved.runInv_run root ops
  have hversion : (Saved.run root ops).config.version = rootVersion root :=
    hinv.names.version.trans (loaded_version hread)
  have hwrite := writeTouches_congr hinv.names root
  rw [hinv.save_root, readTouches_write hversion]
  constructor
  · intro hall
    refine ⟨fun t ht => hall t (List.mem_append_right _ ht), fun t ht => ?_⟩
    refine hall t (List.mem_append_left _ (List.mem_append_right _ ?_))
    rwa [hinv.save_touches, ← hwrite]
  · rintro ⟨hr, hw⟩ t ht
    rcases List.mem_append.mp ht with ht | ht
    · rcases hinv.save.sub t ht with ht | ht
      · exact hr t ht
      · rw [← hwrite] at ht
        exact hw t ht
    · exact hr t ht

/-- What the calls leave of the interfaces that were read. -/
theorem network_run (hread : (jsonParseConfigParam root {}).2 = 0) (ops : List ConfigOp) (i : ℤ) :
    ((Saved.run root ops).config.network i).dataPort = ((readPorts root {}).network i).dataPort ∧
      (((readPorts root {}).network i).ifname = none →
        ((Saved.run root ops).config.network i).port = ((readPorts root {}).network i).port) := by
  have hinv := Saved.runInv_run root ops
  have hload : (Saved.load root).config.network = (readPorts root {}).network :=
    loaded_network hread
  rw [← hload]
  exact ⟨hinv.names.dataPort i, hinv.unnamed i⟩

/-- Two configurations agree in the ports of the interfaces. -/
def SamePorts (c c' : Config) : Prop :=
  ∀ i < NETWORK_NUM, (c'.network i).port = (c.network i).port ∧
    ∀ j < NET_DATA_TYPE_MAX, (c'.network i).dataPort j = (c.network i).dataPort j

theorem RoundTrip.samePorts (h : RoundTrip root ops) :
    SamePorts (Saved.run root ops).config
      (jsonParseConfigParam (Saved.run root ops).save.root {}).1 :=
  fun i hi => ⟨h.ports i hi, h.dataPorts i hi⟩

/-- The ports after saving and reading, of a version other than `1.0`. -/
theorem ports_iff (hread : (jsonParseConfigParam root {}).2 = 0)
    (hv : (Saved.run root ops).config.version ≠ some "1.0") :
    SamePorts (Saved.run root ops).config
        (jsonParseConfigParam (Saved.run root ops).save.root {}).1 ↔
      ((Saved.run root ops).config.version.isSome = true → ∀ i < NETWORK_NUM, ∀ node,
        (networkNodes root)[i]? = some node → IfPorts (Saved.run root ops).config i node) := by
  have hinv := Saved.runInv_run root ops
  have hrun := network_run hread ops
  rw [hinv.save_root]
  set c := (Saved.run root ops).config
  have hversion : c.version = rootVersion root := hinv.names.version.trans (loaded_version hread)
  rw [SamePorts, loaded_network (parse_write hread c)]
  cases hroot : rootVersion root with
  | none =>
    have hnone : rootVersion (jsonWriteConfigParam c root) = none := by
      rw [rootVersion_write, hroot]
    rw [hversion, hroot]
    refine iff_of_true (fun i _ => ?_) fun h => absurd h (by simp)
    have hzero := network_readPorts_none hroot i
    obtain ⟨hdata, hport⟩ := hrun i
    rw [hzero] at hdata hport
    rw [network_readPorts_none hnone, hport rfl, hdata]
    exact ⟨rfl, fun _ _ => rfl⟩
  | some v =>
    have hne : v ≠ "1.0" := by
      rintro rfl
      exact hv (hversion.trans hroot)
    have hroot' : rootVersion (jsonWriteConfigParam c root) = some v := by
      rw [rootVersion_write, hroot]
    rw [hversion, hroot]
    rw [Option.isSome_some, forall_prop_of_true rfl]
    refine forall₂_congr fun i hi => ?_
    obtain ⟨hdata, hport⟩ := hrun i
    rw [network_readPorts hroot hne hi] at hdata hport
    rw [network_readPorts hroot' hne hi, networkNodes_write c root hv, List.getElem?_map]
    cases hnode : (networkNodes root)[i]? with
    | none =>
      rw [hnode] at hdata hport
      refine iff_of_true ⟨(hport rfl).symm, fun j _ => ?_⟩ fun node h => absurd h (by simp)
      rw [hdata]
      rfl
    | some node =>
      rw [hnode] at hdata hport
      simp only [Option.map_some, Option.some.injEq, forall_eq']
      refine ifPorts_iff (fun hname => hport ?_) hdata
      simp only [readIf, hname]

/-- The ports after saving and reading, of version `1.0`. -/
theorem ports10_iff (hread : (jsonParseConfigParam root {}).2 = 0)
    (hv : (Saved.run root ops).config.version = some "1.0") :
    SamePorts (Saved.run root ops).config
        (jsonParseConfigParam (Saved.run root ops).save.root {}).1 ↔
      ∀ name, name = "network" ∨ name = "network_10g" →
        ∀ port, port10 name root = some port → ∀ n, port.number? = some n → toU16 n = 0 := by
  have hinv := Saved.runInv_run root ops
  have hrun := network_run hread ops
  rw [hinv.save_root]
  set c := (Saved.run root ops).config
  have hroot : rootVersion root = some "1.0" := by
    rw [← hv, hinv.names.version]
    exact (loaded_version hread).symm
  have hroot' : rootVersion (jsonWriteConfigParam c root) = some "1.0" := by
    rw [rootVersion_write, hroot]
  -- no interface has a name, so the ports are as they were read
  have hname (i : ℤ) : ((readPorts root {}).network i).ifname = none := by
    rw [network_readPorts10 hroot]
    unfold net10
    split_ifs
    · split <;> rfl
    · split <;> rfl
    · rfl
  have hport (i : ℤ) : (c.network i).port = ((readPorts root {}).network i).port :=
    (hrun i).2 (hname i)
  have hzero : (c.network 0).port = 0 := by
    have hindex : (0 : ℤ) ≠ index10g root := by
      rcases index10g_eq root with h | h <;> rw [h] <;> decide
    rw [hport, network_readPorts10 hroot, if_neg hindex]
    rfl
  have hwrite {name : String} (hname : name = "network" ∨ name = "network_10g") :
      port10 name (jsonWriteConfigParam c root) = (port10 name root).map (setNumber 0) := by
    rw [port10_write c root hv hname, hzero]
    rfl
  rw [SamePorts, loaded_network (parse_write hread c)]
  simp only [hport, (hrun _).1, network_readPorts10 hroot, network_readPorts10 hroot',
    hwrite (Or.inl rfl), hwrite (Or.inr rfl), index10g_write c root hv]
  constructor
  · rintro hall name (rfl | rfl)
    · intro port hnetwork
      have hindex : ((1 : ℕ) : ℤ) ≠ index10g root := fun h =>
        absurd ((port10_network_eq_none h.symm).symm.trans hnetwork) (by simp)
      have hfirst := hall 1 (by decide)
      rw [if_neg hindex, if_neg hindex] at hfirst
      exact (net10_iff _).mp hfirst port hnetwork
    · obtain ⟨i, hi, hindex⟩ : ∃ i < NETWORK_NUM, (i : ℤ) = index10g root := by
        rcases index10g_eq root with h | h
        · exact ⟨1, by decide, h.symm⟩
        · exact ⟨2, by decide, h.symm⟩
      have hsecond := hall i hi
      rw [if_pos hindex, if_pos hindex] at hsecond
      exact (net10_iff _).mp hsecond
  · intro hall i hi
    by_cases h10 : (i : ℤ) = index10g root
    · rw [if_pos h10, if_pos h10]
      exact (net10_iff _).mpr (hall "network_10g" (Or.inr rfl))
    · rw [if_neg h10, if_neg h10]
      by_cases h1 : (i : ℤ) = 1
      · rw [if_pos h1, if_pos h1]
        exact (net10_iff _).mpr (hall "network" (Or.inl rfl))
      · rw [if_neg h1, if_neg h1]
        exact ⟨rfl, fun _ _ => rfl⟩

/-- The link switches after saving and reading. -/
theorem links_iff (hread : (jsonParseConfigParam root {}).2 = 0) {id : ℤ}
    (hid : id < MAX_FPGA_CARD_SLOT_NUM) :
    configGetLinkSwitch (jsonParseConfigParam (Saved.run root ops).save.root {}).1 id =
        configGetLinkSwitch (Saved.run root ops).config id ↔
      SlotKept root (Saved.run root ops).config id := by
  have hinv := Saved.runInv_run root ops
  rw [hinv.save_root]
  set c := (Saved.run root ops).config
  obtain ⟨hslod, honoff⟩ := loaded_link (parse_write hread c) hid
  have hsame : ((jsonParseConfigParam (jsonWriteConfigParam c root) {}).1.linkSwitch id).slodId =
      (c.linkSwitch id).slodId := by
    have hslod' : (c.linkSwitch id).slodId = _ :=
      (hinv.names.slodId id).trans (loaded_link hread hid).1
    rw [hslod, hslod', linkNodes_write]
    simp only [List.mem_map, exists_exists_and_eq_and, slotValue_writeLink, slotIsNumber_writeLink]
  unfold configGetLinkSwitch SlotKept
  rw [if_neg (not_le.mpr hid), if_neg (not_le.mpr hid), hsame]
  by_cases hslot : (c.linkSwitch id).slodId = id
  · rw [if_pos hslot, if_pos hslot, honoff, linkNodes_write, lastOn_map_writeLink c _ hid,
      forall_prop_of_true hslot]
    cases lastOn (linkNodes root) id with
    | none =>
      by_cases hc : (c.linkSwitch id).onoff = 0 <;> simp [hc]
    | some x =>
      obtain ⟨b, n⟩ := x
      cases b with
      | true => simp [hslot]
      | false =>
        simp only [Option.map_some, Bool.false_eq_true, false_and, if_false, Option.getD_some]
        by_cases hn : n = 0 <;> by_cases hc : (c.linkSwitch id).onoff = 0 <;> simp [hn, hc]
  · rw [if_neg hslot, if_neg hslot]
    exact iff_of_true rfl fun h => absurd h hslot

end Run

/-- **Saving and restoring.** After any calls, a configuration that has been read from an accepted
file is saved and read again with the same ports and link switches, and all accesses are inside of
their arrays, exactly when the file keeps the configuration in memory. -/
theorem roundTrip_iff {root : Json} (hacc : Accepted root) (ops : List ConfigOp) :
    RoundTrip root ops ↔ Keeps root (Saved.run root ops).config := by
  obtain ⟨hread, hslots⟩ := hacc
  have hinv := Saved.runInv_run root ops
  have hversion : (Saved.run root ops).config.version = rootVersion root :=
    hinv.names.version.trans (loaded_version hread)
  have hslod (e : Json) (he : e ∈ linkNodes root) (hnum : slotIsNumber e = true)
      (hmax : slotValue e < MAX_FPGA_CARD_SLOT_NUM) :
      ((Saved.run root ops).config.linkSwitch (slotValue e)).slodId = slotValue e := by
    have hload := (loaded_link hread hmax).1
    rw [if_pos ⟨e, he, rfl, hnum⟩] at hload
    exact (hinv.names.slodId _).trans hload
  have hinside := (inside_run_iff hread ops).trans
    (and_congr (inside_read_iff hslots) (inside_write_iff hslots hslod))
  rw [← hversion] at hinside
  constructor
  · intro h
    obtain ⟨⟨hreadIn, -⟩, hports10, hwriteIn, hentries⟩ := hinside.mp h.inside
    refine ⟨fun hv name hname => ?_, fun hv i node hi => ?_, fun hv => ?_, hentries,
      fun id hge hlt => (links_iff hread hlt).mp (h.links id hge hlt)⟩
    · have hsome : (port10 name root).isSome = true := by
        obtain ⟨hnet, hnet10⟩ := hports10 hv
        rcases hname with rfl | rfl
        · exact hnet
        · exact hnet10
      obtain ⟨port, hport⟩ := Option.isSome_iff_exists.mp hsome
      exact ⟨port, hport, (ports10_iff hread hv).mp h.samePorts name hname port hport⟩
    · obtain ⟨hcmd, hdata⟩ := hwriteIn hv node (List.mem_of_getElem? hi)
      exact ⟨fun hsome hlt => hreadIn hv hsome i node hi hlt, hcmd, hdata⟩
    · exact (ports_iff hread hv).mp h.samePorts
  · intro h
    have hports : SamePorts (Saved.run root ops).config
        (jsonParseConfigParam (Saved.run root ops).save.root {}).1 := by
      by_cases hv : (Saved.run root ops).config.version = some "1.0"
      · refine (ports10_iff hread hv).mpr fun name hname port hport => ?_
        obtain ⟨port', hport', hzero⟩ := h.ports10 hv name hname
        obtain rfl : port = port' := Option.some.inj (hport.symm.trans hport')
        exact hzero
      · exact (ports_iff hread hv).mpr (h.ports hv)
    refine ⟨hinside.mpr ⟨⟨?_, fun e he hnum hmax => (h.entries e he hnum hmax).1⟩, ?_, ?_,
      h.entries⟩, fun i hi => (hports i hi).1, fun i hi => (hports i hi).2,
      fun id hge hlt => (links_iff hread hlt).mpr (h.slots id hge hlt)⟩
    · exact fun hv hsome i node hi hlt => (h.inside hv i node hi).read hsome hlt
    · intro hv
      obtain ⟨port, hport, -⟩ := h.ports10 hv "network" (Or.inl rfl)
      obtain ⟨port', hport', -⟩ := h.ports10 hv "network_10g" (Or.inr rfl)
      exact ⟨by rw [hport]; rfl, by rw [hport']; rfl⟩
    · intro hv node hnode
      obtain ⟨i, hi⟩ := List.mem_iff_getElem?.mp hnode
      exact ⟨(h.inside hv i node hi).command, (h.inside hv i node hi).data⟩

/-- A file with two interfaces and a link switch. -/
def twoInterfaces : Json :=
  .obj [("version", .str "1.1"),
    ("network", .arr [
      .obj [("ifname", .str "eth0"),
        ("port", .obj [("command", .num 1325), ("data", .arr [.num 1326])])],
      .obj [("ifname", .str "eth1"), ("port", .obj [("command", .num 6080), ("data", .arr [])])]]),
    ("control_parm", .obj [("linkSwitch", .arr [.obj [("slotId", .num 2), ("on", .num 1)]])]),
    ("status_parm", .obj []), ("calibration_parm", .obj []), ("spectrum_parm", .obj [])]

theorem roundTrip_iff_twoInterfaces :
    RoundTrip twoInterfaces [.setIfCmdPort "eth1" 7000, .setLinkSwitch 2 0] ↔
      Keeps twoInterfaces
        (Saved.run twoInterfaces [.setIfCmdPort "eth1" 7000, .setLinkSwitch 2 0]).config :=
  roundTrip_iff ⟨by decide, by decide⟩ _

/-- A file of version `1.0`. -/
def version10 : Json :=
  .obj [("version", .str "1.0"), ("network", .obj [("port", .num 1325)]),
    ("network_10g", .obj [("port", .num 6080)]), ("control_parm", .obj []),
    ("status_parm", .obj []), ("calibration_parm", .obj []), ("spectrum_parm", .obj [])]

/-- The ports of version `1.0` are saved as zero. -/
theorem not_roundTrip_version10 : Accepted version10 ∧ ¬ RoundTrip version10 [] := by
  refine ⟨⟨by decide, by decide⟩, fun h => ?_⟩
  have hport := h.ports 1 (by decide)
  revert hport
  decide

end M57Card.Conf
