import Mathlib.Algebra.Ring.Nat
import M57Card.Conf.Config

/-!
# The network settings of an interface

`parse_json_net` (`parse_json.c`, lines 192–285) takes the name of an interface and up to three
addresses. An address that the interface does not have yet is given to a script
(`config_set_netaddr` and its three callers, `conf.c`, lines 239–284), and the addresses of the
interface are read back. The fields are taken one after the other: a field is parsed and set before
the next one is parsed. The name is copied to an array of `IFNAMSIZ` bytes, and a longer one has no
defined result.

A name is the text of a C string. What the script does, and what is read back after it, is up to the
environment; a setting that is refused by the script or because the system does not know the
interface has a result other than 0.

## Main definitions

* `inetPton`, `configSetNetaddr`, `parseField`, `parseJsonNet`.
* `SettingsWhole` : the settings of a request are applied completely or not at all.
* `NothingHalfDone` : the requests and interface tables for which they are.

## Main results

* `parseFields_whole_iff` : the fields of a request.
* `settingsWhole_iff` : the whole request.
-/

namespace M57Card.Conf

open Json

/-! ### Addresses -/

/-- An octet of an address: a decimal number up to 255, without leading zeros. -/
def inetOctet (text : List Char) : Option ℕ :=
  let n := text.foldl (fun n c => 10 * n + (c.toNat - '0'.toNat)) 0
  if text ≠ [] ∧ text.all Char.isDigit ∧ (text.head? = some '0' → text = ['0']) ∧ n ≤ 255 then
    some n
  else
    none

/-- `inet_pton` with `AF_INET`: the address in the order of its bytes in memory. -/
def inetPton (text : String) : Option ℕ :=
  match (text.toList.splitOn '.').mapM inetOctet with
  | some [a, b, c, d] => some (a + b * 2 ^ 8 + c * 2 ^ 16 + d * 2 ^ 24)
  | _ => none

/-- `IFNAMSIZ`. -/
def IFNAMSIZ : ℕ := 16

/-- The addresses of `struct network_addr_st`. -/
structure NetworkAddrSt where
  ipaddress : ℕ
  netmask : ℕ
  gateway : ℕ
  deriving DecidableEq

/-- The configuration with the addresses of the interfaces. -/
structure NetState where
  conf : Config := {}
  addr : ℤ → NetworkAddrSt

/-- The functions that set an address. -/
inductive Setter where
  | configSetIp
  | configSetNetmask
  | configSetGateway
  deriving DecidableEq

/-- The script of a setter. -/
def Setter.script : Setter → String
  | configSetIp => "/etc/netset.sh set_ip"
  | configSetNetmask => "/etc/netset.sh set_netmask"
  | configSetGateway => "/etc/netset.sh set_gw"

/-- What the system answers to the setters, which are numbered in their order. -/
structure NetEnv where
  /-- `if_nametoindex` finds the interface -/
  ifNametoindex : ℕ → String → Bool
  /-- `safe_system` of a script for an interface and an address -/
  safeSystem : ℕ → String → String → ℕ → ℤ
  /-- the addresses of the interface that are read back -/
  readBack : ℕ → NetworkAddrSt

/-- `config_load_network`, with the addresses that are read. -/
def configLoadNetwork (read : NetworkAddrSt) (ifname : String) (st : NetState) : NetState :=
  if configGetIfNametoindex st.conf ifname = -1 then
    st
  else
    { st with addr := Function.update st.addr (configGetIfNametoindex st.conf ifname) read }

/-- `config_set_netaddr`, as the setter with the number `k`. -/
def configSetNetaddr (env : NetEnv) (k : ℕ) (ifname : String) (netaddr : ℕ) (script : String)
    (st : NetState) : ℤ × NetState :=
  if env.ifNametoindex k ifname then
    (env.safeSystem k script ifname netaddr, configLoadNetwork (env.readBack k) ifname st)
  else
    (-1, st)

/-- The interface with the number `i` has the name. -/
def NetState.named (st : NetState) (ifname : String) (i : ℕ) : Bool :=
  (st.conf.network i).ifname = some ifname

/-- `config_match_gateway_addr`: the gateway of any interface. -/
def configMatchGatewayAddr (st : NetState) (_ifname : String) (gateway : ℕ) : Bool :=
  (List.range NETWORK_NUM).any fun i =>
    (st.conf.network i).ifname.isSome && (st.addr i).gateway == gateway

/-- `config_match_ipaddr_addr`. -/
def configMatchIpaddrAddr (st : NetState) (ifname : String) (ipaddr : ℕ) : Bool :=
  (List.range NETWORK_NUM).any fun i => st.named ifname i && (st.addr i).ipaddress == ipaddr

/-- `config_match_netmask_addr`. -/
def configMatchNetmaskAddr (st : NetState) (ifname : String) (netmask : ℕ) : Bool :=
  (List.range NETWORK_NUM).any fun i => st.named ifname i && (st.addr i).netmask == netmask

/-! ### The request -/

/-- `RESP_CODE_OK`, `RESP_CODE_EXECMD_REBOOT`, `RESP_CODE_PARSE_ERR`, `RESP_CODE_EXECMD_ERR`. -/
def RESP_CODE_OK : ℤ := 0
def RESP_CODE_EXECMD_REBOOT : ℤ := 1
def RESP_CODE_PARSE_ERR : ℤ := -2
def RESP_CODE_EXECMD_ERR : ℤ := -12

/-- A field of the request: its name, its test, its setter, whether a setting asks for a restart,
and the address of an interface that it is about. -/
structure NetField where
  item : String
  isMatch : NetState → String → ℕ → Bool
  setter : Setter
  reboot : Bool
  value : NetworkAddrSt → ℕ

/-- The fields in the order of the code. -/
def netFields : List NetField :=
  [⟨"ipaddr", configMatchIpaddrAddr, .configSetIp, true, NetworkAddrSt.ipaddress⟩,
    ⟨"netmask", configMatchNetmaskAddr, .configSetNetmask, false, NetworkAddrSt.netmask⟩,
    ⟨"gateway", configMatchGatewayAddr, .configSetGateway, false, NetworkAddrSt.gateway⟩]

/-- A call of a setter, with its result. -/
structure SetCall where
  setter : Setter
  ifname : String
  netaddr : ℕ
  ret : ℤ
  deriving DecidableEq

/-- The state of a request: the configuration, the calls of the setters so far, and `is_reboot`. -/
structure NetRun where
  st : NetState
  calls : List SetCall := []
  isReboot : Bool := false

section Request

variable (env : NetEnv) (root : Json) (ifname : String)

/-- The text of a field. -/
def NetField.text (f : NetField) (root : Json) : Option String := (root.getItem f.item).bind string?

/-- The part of `parse_json_net` about one field: the state afterwards, and the answer where the
function returns. -/
def parseField (f : NetField) (s : NetRun) : NetRun × Option ℤ :=
  match f.text root with
  | none => (s, none)
  | some text =>
    match inetPton text with
    | none => (s, some RESP_CODE_PARSE_ERR)
    | some v =>
      if f.isMatch s.st ifname v then
        (s, none)
      else
        let (ret, st) := configSetNetaddr env s.calls.length ifname v f.setter.script s.st
        let s := { s with st := st, calls := s.calls ++ [⟨f.setter, ifname, v, ret⟩] }
        if ret ≠ 0 then (s, some RESP_CODE_EXECMD_ERR)
        else ({ s with isReboot := s.isReboot || f.reboot }, none)

/-- The fields one after the other. -/
def parseFields : List NetField → NetRun → NetRun × Option ℤ
  | [], s => (s, none)
  | f :: fs, s =>
    let (s, code) := parseField env root ifname f s
    match code with
    | some code => (s, some code)
    | none => parseFields fs s

/-- The part about the port of the interface. -/
def parsePort (s : NetRun) : NetRun :=
  match (root.getItem "port").bind number? with
  | none => s
  | some n =>
    match configSetIfCmdPort ifname (toU16 n) s.st.conf with
    | none => s
    | some conf => { s with st := { s.st with conf := conf }, isReboot := true }

end Request

/-- `parse_json_net` on a body that is parsed or not: the answer and the state afterwards, and no
result when the name of the interface does not fit. -/
def parseJsonNet (env : NetEnv) (st : NetState) (body : Option Json) : Option (ℤ × NetRun) :=
  match body with
  | none => some (RESP_CODE_PARSE_ERR, { st := st })
  | some root =>
    match nodeName root with
    | none => some (RESP_CODE_PARSE_ERR, { st := st })
    | some ifname =>
      if ifname = "" then
        some (RESP_CODE_PARSE_ERR, { st := st })
      else if IFNAMSIZ ≤ ifname.utf8ByteSize then
        none
      else
        let (s, code) := parseFields env root ifname netFields { st := st }
        match code with
        | some code => some (code, s)
        | none =>
          let s := parsePort root ifname s
          some (if s.isReboot then RESP_CODE_EXECMD_REBOOT else RESP_CODE_OK, s)

/-! ### Completely or not at all -/

/-- An interface with the name has the address. -/
def HasAddr (f : NetField) (st : NetState) (ifname : String) (v : ℕ) : Prop :=
  ∃ i < NETWORK_NUM, st.named ifname i ∧ f.value (st.addr i) = v

/-- The address that a field gives. -/
def NetField.given (f : NetField) (root : Json) : Option ℕ := (f.text root).bind inetPton

section Whole

variable (env : NetEnv) (root : Json) (ifname : String)

/-- Every field that gives another address than the interface has when the field is reached is among
the calls that succeeded. -/
def EachSet (calls : List SetCall) : List NetField → NetRun → Prop
  | [], _ => True
  | f :: fs, s =>
      (∀ v, f.given root = some v → ¬ HasAddr f s.st ifname v →
        (⟨f.setter, ifname, v, 0⟩ : SetCall) ∈ calls) ∧
      EachSet calls fs (parseField env root ifname f s).1

/-- What becomes of a field. -/
inductive FieldStatus where
  | keeps
  | sets
  | fails
  deriving DecidableEq

/-- A field that is not given or that matches leaves the interface as it is; another one is set, or
fails because it is no address or because the setter with the number `k` is refused. -/
def fieldStatus (f : NetField) (st : NetState) (k : ℕ) : FieldStatus :=
  match f.text root with
  | none => .keeps
  | some text =>
    match inetPton text with
    | none => .fails
    | some v =>
      if f.isMatch st ifname v then .keeps
      else if (configSetNetaddr env k ifname v f.setter.script st).1 = 0 then .sets
      else .fails

/-- No field fails behind a setting, and a field that matches gives an address of the interface. -/
def NothingHalfDone : List NetField → NetState → ℕ → Prop
  | [], _, _ => True
  | f :: fs, st, k =>
    match fieldStatus env root ifname f st k with
    | .keeps =>
      (∀ v, f.given root = some v → HasAddr f st ifname v) ∧ NothingHalfDone fs st k
    | .sets => NothingHalfDone fs (configLoadNetwork (env.readBack k) ifname st) (k + 1)
    | .fails => k = 0

end Whole

/-- The settings of a request are applied completely or not at all: the name is copied only if it
fits; a request that is answered with an error has made no call that succeeded; and one that is
answered with `RESP_CODE_OK` or `RESP_CODE_EXECMD_REBOOT` has set every address that differs. -/
structure SettingsWhole (env : NetEnv) (st : NetState) (body : Option Json) : Prop where
  fits : parseJsonNet env st body ≠ none
  error : ∀ r, parseJsonNet env st body = some r → r.1 ≠ RESP_CODE_OK →
    r.1 ≠ RESP_CODE_EXECMD_REBOOT → ∀ c ∈ r.2.calls, c.ret ≠ 0
  accepted : ∀ r, parseJsonNet env st body = some r →
    r.1 = RESP_CODE_OK ∨ r.1 = RESP_CODE_EXECMD_REBOOT →
    ∀ root ifname, body = some root → nodeName root = some ifname →
      EachSet env root ifname r.2.calls netFields { st := st }

/-! ### One field -/

section Field

variable {env : NetEnv} {root : Json} {ifname : String} {f : NetField} {s : NetRun}

/-- A setter that succeeds has read the addresses back. -/
theorem configSetNetaddr_of_zero {k v : ℕ} {script : String} {st : NetState}
    (h : (configSetNetaddr env k ifname v script st).1 = 0) :
    configSetNetaddr env k ifname v script st =
      (0, configLoadNetwork (env.readBack k) ifname st) := by
  unfold configSetNetaddr at h ⊢
  cases hknown : env.ifNametoindex k ifname with
  | false =>
    rw [hknown] at h
    cases h
  | true =>
    rw [hknown] at h
    exact Prod.ext h rfl

/-- A field that keeps the interface as it is. -/
theorem parseField_of_keeps (h : fieldStatus env root ifname f s.st s.calls.length = .keeps) :
    parseField env root ifname f s = (s, none) := by
  unfold fieldStatus at h
  unfold parseField
  cases htext : f.text root with
  | none => rfl
  | some text =>
    rw [htext] at h
    dsimp only at h ⊢
    cases hv : inetPton text with
    | none =>
      rw [hv] at h
      cases h
    | some v =>
      rw [hv] at h
      dsimp only at h ⊢
      split_ifs at h with hmatch hret
      rw [if_pos hmatch]

/-- A field that is set: the call that succeeded is recorded, and the addresses are read back. -/
theorem parseField_of_sets (h : fieldStatus env root ifname f s.st s.calls.length = .sets) :
    ∃ v, f.given root = some v ∧ parseField env root ifname f s =
      ({ st := configLoadNetwork (env.readBack s.calls.length) ifname s.st
         calls := s.calls ++ [⟨f.setter, ifname, v, 0⟩]
         isReboot := s.isReboot || f.reboot }, none) := by
  unfold fieldStatus at h
  unfold parseField NetField.given
  cases htext : f.text root with
  | none =>
    rw [htext] at h
    cases h
  | some text =>
    rw [htext] at h
    dsimp only [Option.bind_some] at h ⊢
    cases hv : inetPton text with
    | none =>
      rw [hv] at h
      cases h
    | some v =>
      rw [hv] at h
      dsimp only at h ⊢
      split_ifs at h with hmatch hret
      rw [if_neg hmatch, configSetNetaddr_of_zero hret]
      exact ⟨v, rfl, rfl⟩

/-- A field that fails: the request is answered with an error, and a call that was made is one that
did not succeed. -/
theorem parseField_of_fails (h : fieldStatus env root ifname f s.st s.calls.length = .fails) :
    ∃ code s', parseField env root ifname f s = (s', some code) ∧ code ≠ RESP_CODE_OK ∧
      code ≠ RESP_CODE_EXECMD_REBOOT ∧ ∃ failed, s'.calls = s.calls ++ failed ∧
        ∀ c ∈ failed, c.ret ≠ 0 := by
  unfold fieldStatus at h
  unfold parseField
  cases htext : f.text root with
  | none =>
    rw [htext] at h
    cases h
  | some text =>
    rw [htext] at h
    dsimp only at h ⊢
    cases hv : inetPton text with
    | none =>
      exact ⟨_, _, rfl, by decide, by decide, [], (List.append_nil _).symm,
        fun c hc => absurd hc List.not_mem_nil⟩
    | some v =>
      rw [hv] at h
      dsimp only at h ⊢
      split_ifs at h with hmatch hret
      rw [if_neg hmatch, if_pos hret]
      exact ⟨_, _, rfl, by decide, by decide, [_], rfl, List.forall_mem_singleton.mpr hret⟩

/-- A field that is given and keeps the interface as it is matches. -/
theorem isMatch_of_keeps {k v : ℕ} {st : NetState}
    (h : fieldStatus env root ifname f st k = .keeps) (hgiven : f.given root = some v) :
    f.isMatch st ifname v = true := by
  obtain ⟨text, htext, hv⟩ := Option.bind_eq_some_iff.mp hgiven
  unfold fieldStatus at h
  rw [htext] at h
  dsimp only at h
  rw [hv] at h
  dsimp only at h
  split_ifs at h with hmatch
  exact hmatch

end Field

/-! ### All fields -/

section Fields

variable {env : NetEnv} {root : Json} {ifname : String}

/-- What the fields do is done completely or not at all. -/
def FieldsWhole (env : NetEnv) (root : Json) (ifname : String) (fs : List NetField) (s : NetRun) :
    Prop :=
  ((parseFields env root ifname fs s).2 ≠ none →
    ∀ c ∈ (parseFields env root ifname fs s).1.calls, c.ret ≠ 0) ∧
  ((parseFields env root ifname fs s).2 = none →
    EachSet env root ifname (parseFields env root ifname fs s).1.calls fs s)

/-- The calls so far stay among the calls. -/
theorem calls_subset_parseFields (fs : List NetField) (s : NetRun) :
    s.calls ⊆ (parseFields env root ifname fs s).1.calls := by
  induction fs generalizing s with
  | nil => exact List.Subset.refl _
  | cons f fs ih =>
    unfold parseFields
    cases hstatus : fieldStatus env root ifname f s.st s.calls.length with
    | keeps =>
      rw [parseField_of_keeps hstatus]
      exact ih s
    | sets =>
      obtain ⟨v, -, hset⟩ := parseField_of_sets hstatus
      rw [hset]
      exact fun c hc => ih _ (List.mem_append_left _ hc)
    | fails =>
      obtain ⟨code, s', hfail, -, -, failed, hcalls, -⟩ := parseField_of_fails hstatus
      rw [hfail, hcalls]
      exact List.subset_append_left _ _

/-- **The fields of a request** are applied completely or not at all exactly when none fails behind
a setting and the last one does not match by the address of another interface. The induction is on
the fields: a field that keeps the interface changes nothing, one that is set is among the calls,
and one that fails ends the request. -/
theorem parseFields_whole_iff {fs : List NetField} {s : NetRun}
    (hexact : ∀ f ∈ fs.dropLast, ∀ st ifname v, f.isMatch st ifname v = true →
      HasAddr f st ifname v)
    (hnodup : (fs.map NetField.setter).Nodup) (hzero : ∀ c ∈ s.calls, c.ret = 0)
    (hfresh : ∀ c ∈ s.calls, c.setter ∉ fs.map NetField.setter) :
    FieldsWhole env root ifname fs s ↔
      NothingHalfDone env root ifname fs s.st s.calls.length := by
  induction fs generalizing s with
  | nil => exact iff_of_true ⟨fun h => absurd rfl h, fun _ => trivial⟩ trivial
  | cons f fs ih =>
    obtain ⟨hsetter, hrest⟩ := List.nodup_cons.mp hnodup
    have hexactRest : ∀ g ∈ fs.dropLast, ∀ st ifname v, g.isMatch st ifname v = true →
        HasAddr g st ifname v := by
      intro g hg
      cases fs with
      | nil => exact absurd hg List.not_mem_nil
      | cons _ _ => exact hexact g (List.mem_cons_of_mem _ hg)
    unfold FieldsWhole NothingHalfDone parseFields EachSet
    cases hstatus : fieldStatus env root ifname f s.st s.calls.length with
    | keeps =>
      rw [parseField_of_keeps hstatus]
      have hih := ih hexactRest hrest hzero fun c hc hmem =>
        hfresh c hc (List.mem_cons_of_mem _ hmem)
      refine Iff.trans ?_ (and_congr_right fun _ => hih)
      constructor
      · rintro ⟨herror, haccepted⟩
        have hhas : ∀ v, f.given root = some v → HasAddr f s.st ifname v := by
          intro v hgiven
          cases fs with
          | nil =>
            -- the last field: its setter has not been called
            by_contra hnot
            have hcall := (haccepted rfl).1 v hgiven hnot
            exact hfresh _ hcall List.mem_cons_self
          | cons g fs =>
            exact hexact f List.mem_cons_self _ _ v (isMatch_of_keeps hstatus hgiven)
        exact ⟨hhas, herror, fun hnone => (haccepted hnone).2⟩
      · rintro ⟨hhas, herror, haccepted⟩
        exact ⟨herror, fun hnone =>
          ⟨fun v hgiven hnot => absurd (hhas v hgiven) hnot, haccepted hnone⟩⟩
    | sets =>
      obtain ⟨v, hgiven, hset⟩ := parseField_of_sets hstatus
      rw [hset]
      have hih := ih (s := { st := configLoadNetwork (env.readBack s.calls.length) ifname s.st
                             calls := s.calls ++ [⟨f.setter, ifname, v, 0⟩]
                             isReboot := s.isReboot || f.reboot }) hexactRest hrest
        (List.forall_mem_append.mpr ⟨hzero, List.forall_mem_singleton.mpr rfl⟩)
        (List.forall_mem_append.mpr ⟨fun c hc hmem => hfresh c hc (List.mem_cons_of_mem _ hmem),
          List.forall_mem_singleton.mpr hsetter⟩)
      rw [List.length_append, List.length_singleton] at hih
      refine Iff.trans ?_ hih
      refine and_congr_right fun _ => imp_congr_right fun _ => and_iff_right ?_
      intro w hw _
      obtain rfl := Option.some.inj (hgiven.symm.trans hw)
      exact calls_subset_parseFields fs _ (List.mem_append_right _ List.mem_cons_self)
    | fails =>
      obtain ⟨code, s', hfail, -, -, failed, hcalls, hne⟩ := parseField_of_fails hstatus
      rw [hfail]
      constructor
      · rintro ⟨herror, -⟩
        by_contra hlen
        obtain ⟨c, hc⟩ := List.exists_mem_of_length_pos (Nat.pos_of_ne_zero hlen)
        exact herror (Option.some_ne_none code) c (hcalls ▸ List.mem_append_left _ hc)
          (hzero c hc)
      · intro hlen
        refine ⟨fun _ => ?_, fun hnone => absurd hnone (Option.some_ne_none code)⟩
        rw [hcalls, List.length_eq_zero_iff.mp hlen]
        exact hne

/-- The answer to a failed request is an error. -/
theorem parseFields_code {fs : List NetField} {s : NetRun} {code : ℤ}
    (h : (parseFields env root ifname fs s).2 = some code) :
    code ≠ RESP_CODE_OK ∧ code ≠ RESP_CODE_EXECMD_REBOOT := by
  induction fs generalizing s with
  | nil => cases h
  | cons f fs ih =>
    unfold parseFields at h
    cases hstatus : fieldStatus env root ifname f s.st s.calls.length with
    | keeps =>
      rw [parseField_of_keeps hstatus] at h
      exact ih h
    | sets =>
      obtain ⟨v, -, hset⟩ := parseField_of_sets hstatus
      rw [hset] at h
      exact ih h
    | fails =>
      obtain ⟨code', s', hfail, hok, hreboot, -⟩ := parseField_of_fails hstatus
      rw [hfail] at h
      obtain rfl := Option.some.inj h
      exact ⟨hok, hreboot⟩

end Fields

theorem calls_parsePort (root : Json) (ifname : String) (s : NetRun) :
    (parsePort root ifname s).calls = s.calls := by
  unfold parsePort
  cases (root.getItem "port").bind number? with
  | none => rfl
  | some n =>
    dsimp only
    cases configSetIfCmdPort ifname (toU16 n) s.st.conf <;> rfl

/-- The tests of the address and of the netmask are about the interface. -/
theorem hasAddr_of_isMatch : ∀ f ∈ netFields.dropLast, ∀ st ifname v,
    f.isMatch st ifname v = true → HasAddr f st ifname v := by
  have hany (value : NetworkAddrSt → ℕ) (st : NetState) (ifname : String) (v : ℕ)
      (h : ((List.range NETWORK_NUM).any fun i =>
        st.named ifname i && value (st.addr i) == v) = true) :
      ∃ i < NETWORK_NUM, st.named ifname i ∧ value (st.addr i) = v := by
    obtain ⟨i, hi, hboth⟩ := List.any_eq_true.mp h
    rw [Bool.and_eq_true, beq_iff_eq] at hboth
    exact ⟨i, List.mem_range.mp hi, hboth⟩
  have hdrop : netFields.dropLast =
      [⟨"ipaddr", configMatchIpaddrAddr, .configSetIp, true, NetworkAddrSt.ipaddress⟩,
        ⟨"netmask", configMatchNetmaskAddr, .configSetNetmask, false, NetworkAddrSt.netmask⟩] :=
    rfl
  rw [hdrop, List.forall_mem_cons, List.forall_mem_singleton]
  exact ⟨fun st ifname v => hany NetworkAddrSt.ipaddress st ifname v,
    fun st ifname v => hany NetworkAddrSt.netmask st ifname v⟩

/-! ### The whole request -/

section Request

variable {env : NetEnv} {st : NetState} {root : Json} {ifname : String}

/-- A request without a body or without a name is refused at once. -/
theorem settingsWhole_of_refused {body : Option Json}
    (h : parseJsonNet env st body = some (RESP_CODE_PARSE_ERR, { st := st })) :
    SettingsWhole env st body := by
  have hok : RESP_CODE_PARSE_ERR ≠ RESP_CODE_OK := by decide
  have hreboot : RESP_CODE_PARSE_ERR ≠ RESP_CODE_EXECMD_REBOOT := by decide
  refine ⟨fun hnone => ?_, fun r hr _ _ c hc => ?_, fun r hr hcode => ?_⟩
  · rw [h] at hnone
    cases hnone
  · obtain rfl := Option.some.inj (h.symm.trans hr)
    exact absurd hc List.not_mem_nil
  · obtain rfl := Option.some.inj (h.symm.trans hr)
    exact absurd hcode (not_or.mpr ⟨hok, hreboot⟩)

/-- A request with a name that fits takes the fields, and then the port. -/
theorem parseJsonNet_of_fits (env : NetEnv) (st : NetState) (hname : nodeName root = some ifname)
    (hne : ifname ≠ "") (hfits : ifname.utf8ByteSize < IFNAMSIZ) :
    (∀ code, (parseFields env root ifname netFields { st := st }).2 = some code →
      parseJsonNet env st (some root) =
        some (code, (parseFields env root ifname netFields { st := st }).1)) ∧
    ((parseFields env root ifname netFields { st := st }).2 = none →
      ∃ code, (code = RESP_CODE_OK ∨ code = RESP_CODE_EXECMD_REBOOT) ∧
        parseJsonNet env st (some root) = some (code,
          parsePort root ifname (parseFields env root ifname netFields { st := st }).1)) := by
  unfold parseJsonNet
  dsimp only
  rw [hname]
  dsimp only
  rw [if_neg hne, if_neg (Nat.not_le.mpr hfits)]
  generalize parseFields env root ifname netFields { st := st } = r
  obtain ⟨s, code⟩ := r
  refine ⟨?_, ?_⟩
  · rintro code rfl
    rfl
  · rintro rfl
    refine ⟨_, ?_, rfl⟩
    cases (parsePort root ifname s).isReboot with
    | false => exact .inl rfl
    | true => exact .inr rfl

/-- A request with a name that fits does what its fields do. -/
theorem settingsWhole_of_fits (hname : nodeName root = some ifname) (hne : ifname ≠ "")
    (hfits : ifname.utf8ByteSize < IFNAMSIZ) :
    SettingsWhole env st (some root) ↔
      FieldsWhole env root ifname netFields { st := st } := by
  obtain ⟨hfail, hend⟩ := parseJsonNet_of_fits env st hname hne hfits
  unfold FieldsWhole
  cases hres : (parseFields env root ifname netFields { st := st }).2 with
  | some code =>
    have hjson := hfail code hres
    obtain ⟨hok, hreboot⟩ := parseFields_code hres
    constructor
    · intro h
      exact ⟨fun _ => h.error _ hjson hok hreboot, fun hnone => absurd hnone (by simp)⟩
    · rintro ⟨herror, -⟩
      refine ⟨by simp [hjson], fun r hr _ _ => ?_, fun r hr hcode' => ?_⟩
      · obtain rfl := Option.some.inj (hjson.symm.trans hr)
        exact herror (Option.some_ne_none code)
      · obtain rfl := Option.some.inj (hjson.symm.trans hr)
        exact absurd hcode' (not_or.mpr ⟨hok, hreboot⟩)
  | none =>
    obtain ⟨code, hok, hjson⟩ := hend hres
    constructor
    · intro h
      refine ⟨fun hsome => absurd rfl hsome, fun _ => ?_⟩
      have haccepted := h.accepted _ hjson hok root ifname rfl hname
      rwa [calls_parsePort] at haccepted
    · rintro ⟨-, haccepted⟩
      refine ⟨by simp [hjson], fun r hr hne' hne'' => ?_,
        fun r hr _ root' ifname' hroot hname' => ?_⟩
      · obtain rfl := Option.some.inj (hjson.symm.trans hr)
        exact absurd hok (not_or.mpr ⟨hne', hne''⟩)
      · obtain rfl := Option.some.inj (hjson.symm.trans hr)
        obtain rfl := Option.some.inj hroot
        obtain rfl := Option.some.inj (hname.symm.trans hname')
        rw [calls_parsePort]
        exact haccepted rfl

end Request

/-- **The settings of a request** are applied completely or not at all exactly when the name that is
given fits, no field fails behind one that is set, and the gateway is not one that only another
interface has. -/
theorem settingsWhole_iff (env : NetEnv) (st : NetState) (body : Option Json) :
    SettingsWhole env st body ↔
      ∀ root ifname, body = some root → nodeName root = some ifname → ifname ≠ "" →
        ifname.utf8ByteSize < IFNAMSIZ ∧ NothingHalfDone env root ifname netFields st 0 := by
  cases body with
  | none => exact iff_of_true (settingsWhole_of_refused rfl) fun _ _ h => by cases h
  | some root =>
    cases hname : nodeName root with
    | none =>
      refine iff_of_true (settingsWhole_of_refused ?_) fun root' ifname hroot hname' => ?_
      · unfold parseJsonNet
        dsimp only
        rw [hname]
      · obtain rfl := Option.some.inj hroot
        rw [hname] at hname'
        cases hname'
    | some ifname =>
      have hforall {P : Json → String → Prop} :
          (∀ root' ifname', some root = some root' → nodeName root' = some ifname' →
            P root' ifname') ↔ P root ifname := by
        constructor
        · exact fun h => h root ifname rfl hname
        · rintro h root' ifname' hroot hname'
          obtain rfl := Option.some.inj hroot
          obtain rfl := Option.some.inj (hname.symm.trans hname')
          exact h
      rw [hforall]
      by_cases hempty : ifname = ""
      · refine iff_of_true (settingsWhole_of_refused ?_) fun hne => absurd hempty hne
        unfold parseJsonNet
        dsimp only
        rw [hname]
        exact if_pos hempty
      rcases Nat.lt_or_ge ifname.utf8ByteSize IFNAMSIZ with hfits | hlong
      · rw [settingsWhole_of_fits hname hempty hfits, parseFields_whole_iff hasAddr_of_isMatch
          (by decide) (fun c hc => absurd hc List.not_mem_nil)
          (fun c hc => absurd hc List.not_mem_nil)]
        exact ⟨fun h _ => ⟨hfits, h⟩, fun h => (h hempty).2⟩
      · refine iff_of_false (fun h => h.fits ?_) fun h => absurd (h hempty).1 (Nat.not_lt.mpr hlong)
        unfold parseJsonNet
        dsimp only
        rw [hname]
        dsimp only
        rw [if_neg hempty, if_pos hlong]

/-! ### A setting before an error -/

/-- One interface without addresses. -/
def oneInterface : NetState where
  conf := { network := fun i => if i = 0 then { ifname := some "eth0" } else {} }
  addr _ := ⟨0, 0, 0⟩

/-- A system that sets everything. -/
def willing : NetEnv where
  ifNametoindex _ _ := true
  safeSystem _ _ _ _ := 0
  readBack _ := ⟨33554442, 0, 0⟩

/-- An address that is valid, and a netmask that is not. -/
def halfValid : Json :=
  .obj [("ifname", .str "eth0"), ("ipaddr", .str "10.0.0.2"), ("netmask", .str "none")]

example : inetPton "10.0.0.2" = some 33554442 := by decide

/-- The address is set, and the request is answered with an error. -/
theorem not_settingsWhole_halfValid : ¬ SettingsWhole willing oneInterface (some halfValid) := by
  intro h
  have hrun : ∃ r, parseJsonNet willing oneInterface (some halfValid) = some r ∧
      r.1 = RESP_CODE_PARSE_ERR ∧ r.2.calls = [⟨.configSetIp, "eth0", 33554442, 0⟩] :=
    ⟨_, rfl, rfl, rfl⟩
  obtain ⟨r, hr, hcode, hcalls⟩ := hrun
  have hret := h.error r hr (by rw [hcode]; decide) (by rw [hcode]; decide)
  rw [hcalls] at hret
  exact hret _ List.mem_cons_self rfl

end M57Card.Conf
