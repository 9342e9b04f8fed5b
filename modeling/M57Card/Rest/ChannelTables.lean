import M57Card.Lib.Runs
import M57Card.Rest.Handlers

/-!
# The indices of the channel tables

The validators let a negative channel pass and the number after the last one, the channel is cut to
eight bits on its way into the body parsers, and the indices and counts of a body are not compared
with the size of the tables. A run of requests stays inside the tables, and keeps the scan loops
inside them, exactly where every request names channels, indices and counts that are.

## Main definitions

* `Access.InRange`, `StepSafe` : what is promised of a request.
* `Action.Allowed`, `Request.Allowed` : the requests that keep to it.

## Main results

* `forall_inRange_arrayAccesses_iff` : the entries of a body that stay inside a scan table.
* `runAction_iff` : one command.
* `stepSafe_iff` : runs of requests.
-/

namespace M57Card.Rest

/-- A channel of the table. -/
def ChannelInRange (ch : ℤ) : Prop := 0 ≤ ch ∧ ch < maxRadioChannelNum

/-- A subchannel of the table. -/
def SubchInRange (subch : ℤ) : Prop := 0 ≤ subch ∧ subch < maxSignalChannelNum

/-- An index of a scan table. -/
def IndexInRange (i : ℤ) : Prop := 0 ≤ i ∧ i < (maxSigChannle : ℤ)

/-- The element lies inside its table. -/
def Access.InRange : Access → Prop
  | .channel ch => ChannelInRange ch
  | .points ch i | .fregment ch i => ChannelInRange ch ∧ IndexInRange i
  | .subCh ch subch | .subChEnable ch subch => ChannelInRange ch ∧ SubchInRange subch

/-- The counts of the channels are at most the size of the scan tables. -/
def CountsInRange (config : Config) : Prop :=
  ∀ ch, ChannelInRange ch →
    (config ch).freqPointCnt ≤ maxSigChannle ∧ (config ch).freqSegmentCnt ≤ maxSigChannle

/-- A request uses the tables inside their bounds and leaves counts with which the scans do. -/
structure StepSafe (config : Config) (r : Request) : Prop where
  inRange : ∀ a ∈ (onRequest config r).1, a.InRange
  counts : CountsInRange (onRequest config r).2
  scans : ∀ ch, ChannelInRange ch → ∀ reset : ℕ → Bool,
    ∀ a ∈ executorPointsScan (onRequest config r).2 ch reset, a.InRange

/-- The parameters before the first request. -/
def configInit : Config := fun _ => ⟨0, 0⟩

/-- The parameters after some requests. -/
def configAfter (reqs : List Request) : Config :=
  reqs.foldl (fun config r => (onRequest config r).2) configInit

/-! ### The requests that are allowed -/

/-- The entries of a scan table have indices of the table, or none; where the first one has none,
`subcid` starts with an index of the table. -/
def EntriesInRange (subcid : ℤ) (entries : List Json) : Prop :=
  (∀ node ∈ entries, ∀ i, numberItem node "index" = some i → IndexInRange i) ∧
    ∀ node, entries.head? = some node → numberItem node "index" = none → IndexInRange subcid

/-- What a command asks of the parameters of the path, of the body and of the stack, where its
validators accept the parameters. -/
def Action.Allowed (kv : Kvlist) (body : Option Json) (stack : ℕ) : Action → Prop
  | .cmdMutiPoint => ∀ ch, pathCh kv = some ch → ∀ root, body = some root →
      ChannelInRange (toUint8 ch) ∧ ∀ mutiPoint, root.getItem "array" = some mutiPoint →
        mutiPoint.items.length ≤ maxSigChannle ∧ EntriesInRange 0 mutiPoint.items
  | .cmdMultiBand => ∀ ch, pathCh kv = some ch → ∀ root, body = some root →
      ChannelInRange (toUint8 ch) ∧
        (∀ n, numberItem root "freqSegmentCnt" = some n → toUint32 n ≤ (maxSigChannle : ℤ)) ∧
        ∀ multiBand, root.getItem "array" = some multiBand → EntriesInRange stack multiBand.items
  | .cmdDemodulation => ∀ ch, pathCh kv = some ch → ∀ subch, pathSubch kv = some subch →
      ∀ root, body = some root → ChannelInRange (toUint8 ch) ∧ SubchInRange (toUint8 subch)
  | .cmdBddc => ∀ ch, pathCh kv = some ch → ∀ root, body = some root → ChannelInRange (toUint8 ch)
  | .cmdIfSingleValueSet => ∀ ch, pathCh kv = some ch → optionalSubch kv = true →
      ∀ value, strToS64 (kvlistGet kv "value".toList) = some value →
      (kvlistGet kv "value2".toList = none ∨ strToS64 (kvlistGet kv "value2".toList) ≠ none) →
      ∀ sType, kvlistGet kv "type".toList = some sType →
      ∀ type, findIdxSafe ifTypes sType = some type → type ≠ .decMidFreq →
      (type = .muteSw → toUint8 value ≤ 1) → ChannelInRange (toUint8 ch)
  | .cmdRfSingleValueSet => ∀ ch, pathCh kv = some ch → optionalSubch kv = true →
      ∀ value, strToS64 (kvlistGet kv "value".toList) = some value →
      ∀ sType, kvlistGet kv "type".toList = some sType →
      ∀ type, findIdxSafe rfTypes sType = some type → type ≠ .antennaSelect →
      type ≠ .statusTemperat → type ≠ .calibrate → ChannelInRange (toUint8 ch)
  | .cmdRfMultiValueSet => ∀ ch, pathCh kv = some ch → optionalSubch kv = true →
      ∀ root, body = some root → ChannelInRange (toUint8 ch)
  | .cmdChEnableSet => ∀ ch, pathCh kv = some ch →
      ∀ enable, strToInt (kvlistGet kv "value".toList) checkValidEnable = some enable →
      ChannelInRange ch
  | .cmdSubchEnableSet => ∀ ch, pathCh kv = some ch →
      ∀ enable, strToInt (kvlistGet kv "value".toList) checkValidEnable = some enable →
      ∀ subch, pathSubch kv = some subch → ChannelInRange ch ∧ SubchInRange subch
  | _ => True

/-- The command that a request reaches allows it. -/
def Request.Allowed (r : Request) : Prop :=
  ∀ action, r.called = some action → action.Allowed r.vars r.body r.stack

/-! ### Indices -/

theorem toUint8_of_inRange {ch : ℤ} (h : ChannelInRange ch) : toUint8 ch = ch := by
  unfold ChannelInRange maxRadioChannelNum at h
  unfold toUint8
  omega

theorem toUint32_of_inRange {i : ℤ} (h : IndexInRange i) : toUint32 i = i := by
  unfold IndexInRange maxSigChannle at h
  unfold toUint32
  omega

theorem indexInRange_zero : IndexInRange 0 := ⟨Int.le_refl 0, by decide⟩

/-- The entries of a body that stay inside the table. -/
theorem forall_inRange_arrayAccesses_iff {table : ℤ → Access}
    (htable : ∀ i, (table i).InRange ↔ IndexInRange i) (subcid : ℤ) (entries : List Json) :
    (∀ a ∈ arrayAccesses table subcid entries, a.InRange) ↔ EntriesInRange subcid entries := by
  induction entries generalizing subcid with
  | nil => simp [arrayAccesses, EntriesInRange]
  | cons node rest ih =>
    rw [arrayAccesses, EntriesInRange, List.forall_mem_cons]
    cases hindex : numberItem node "index" with
    | none =>
      rw [List.forall_mem_cons, htable, ih, EntriesInRange]
      simp only [List.head?_cons, Option.some.injEq, reduceCtorEq, false_imp_iff, implies_true,
        true_and]
      constructor
      · rintro ⟨hstart, hrest, -⟩
        exact ⟨hrest, fun _ _ _ => hstart⟩
      · rintro ⟨hrest, hstart⟩
        have hstart := hstart node rfl hindex
        exact ⟨hstart, hrest, fun _ _ _ => hstart⟩
    | some i =>
      rw [List.forall_mem_cons, List.forall_mem_cons, htable, htable, ih, EntriesInRange]
      simp only [List.head?_cons, Option.some.injEq, forall_eq']
      constructor
      · rintro ⟨hi, -, hrest, -⟩
        refine ⟨⟨hi, hrest⟩, ?_⟩
        intro hnone
        exact absurd (hindex.symm.trans hnone) (Option.some_ne_none i)
      · rintro ⟨⟨hi, hrest⟩, -⟩
        rw [toUint32_of_inRange hi]
        exact ⟨hi, hi, hrest, fun _ _ _ => hi⟩

/-! ### One command -/

/-- A handler uses the tables inside their bounds and leaves counts inside them. -/
def Reply.Safe (r : Reply) : Prop := (∀ a ∈ r.accesses, a.InRange) ∧ CountsInRange r.config

section

variable {kv : Kvlist} {body : Option Json} {config : Config} {cid : ℤ}

theorem countsInRange_update (hconfig : CountsInRange config) (cid : ℤ) (para : ChannelPara) :
    CountsInRange (Function.update config cid para) ↔
      (ChannelInRange cid →
        para.freqPointCnt ≤ maxSigChannle ∧ para.freqSegmentCnt ≤ maxSigChannle) := by
  constructor
  · intro h hcid
    have hpara := h cid hcid
    rwa [Function.update_self] at hpara
  · intro h ch hch
    by_cases heq : ch = cid
    · subst heq
      rw [Function.update_self]
      exact h hch
    · rw [Function.update_of_ne heq]
      exact hconfig ch hch

theorem forall_of_none {α : Type} {P : α → Prop} : ∀ x, (none : Option α) = some x → P x :=
  fun x h => absurd h.symm (Option.some_ne_none x)

/-- A handler that uses nothing. -/
theorem safe_nil (hconfig : CountsInRange config) (code : Option RespCode) :
    (Reply.mk code [] config).Safe :=
  ⟨List.forall_mem_nil _, hconfig⟩

/-- A handler that stops at something that is not there. -/
theorem stopped_iff {α : Type} (hconfig : CountsInRange config) (code : Option RespCode)
    {P : α → Prop} :
    (Reply.mk code [] config).Safe ↔ ∀ x, (none : Option α) = some x → P x :=
  iff_of_true (safe_nil hconfig code) forall_of_none

theorem safe_iff (hconfig : CountsInRange config) (code : Option RespCode) (as : List Access) :
    (Reply.mk code as config).Safe ↔ ∀ a ∈ as, a.InRange :=
  and_iff_left hconfig

theorem parseJsonMutiPoint_safe_iff (hconfig : CountsInRange config) :
    (parseJsonMutiPoint body cid config).Safe ↔
      ∀ root, body = some root → ChannelInRange cid ∧
        ∀ mutiPoint, root.getItem "array" = some mutiPoint →
          mutiPoint.items.length ≤ maxSigChannle ∧ EntriesInRange 0 mutiPoint.items := by
  cases body with
  | none => exact stopped_iff hconfig _
  | some root =>
    simp only [Option.some.injEq, forall_eq', parseJsonMutiPoint]
    cases root.getItem "array" with
    | none =>
      rw [safe_iff hconfig, List.forall_mem_singleton]
      exact (and_iff_left forall_of_none).symm
    | some mutiPoint =>
      simp only [Option.some.injEq, forall_eq', Reply.Safe, List.forall_mem_cons,
        countsInRange_update hconfig]
      constructor
      · rintro ⟨⟨hcid, hentries⟩, hcounts⟩
        have htable (i : ℤ) : (Access.points cid i).InRange ↔ IndexInRange i := and_iff_right hcid
        exact ⟨hcid, (hcounts hcid).1, (forall_inRange_arrayAccesses_iff htable _ _).mp hentries⟩
      · rintro ⟨hcid, hlen, hentries⟩
        have htable (i : ℤ) : (Access.points cid i).InRange ↔ IndexInRange i := and_iff_right hcid
        exact ⟨⟨hcid, (forall_inRange_arrayAccesses_iff htable _ _).mpr hentries⟩,
          fun _ => ⟨hlen, (hconfig cid hcid).2⟩⟩

theorem parseJsonMultiBand_safe_iff (hconfig : CountsInRange config) (stack : ℕ) :
    (parseJsonMultiBand body cid stack config).Safe ↔
      ∀ root, body = some root → ChannelInRange cid ∧
        (∀ n, numberItem root "freqSegmentCnt" = some n → toUint32 n ≤ (maxSigChannle : ℤ)) ∧
        ∀ multiBand, root.getItem "array" = some multiBand →
          EntriesInRange stack multiBand.items := by
  cases body with
  | none => exact stopped_iff hconfig _
  | some root =>
    have hcounts (n : ℤ) (hcid : ChannelInRange cid) :
        CountsInRange (Function.update config cid
            { config cid with freqSegmentCnt := (toUint32 n).toNat }) ↔
          toUint32 n ≤ (maxSigChannle : ℤ) := by
      simp only [countsInRange_update hconfig, hcid, true_imp_iff, (hconfig cid hcid).1, true_and,
        Int.toNat_le]
    have hentries (multiBand : Json) (hcid : ChannelInRange cid) :
        (∀ a ∈ arrayAccesses (.fregment cid) stack multiBand.items, a.InRange) ↔
          EntriesInRange stack multiBand.items := by
      have htable (i : ℤ) : (Access.fregment cid i).InRange ↔ IndexInRange i := and_iff_right hcid
      exact forall_inRange_arrayAccesses_iff htable _ _
    -- the count and the entries are there or not, independently of each other
    simp only [Option.some.injEq, forall_eq', parseJsonMultiBand, Reply.Safe, List.forall_mem_cons]
    rw [and_assoc]
    refine and_congr_right fun hcid => ?_
    rw [and_comm]
    refine and_congr ?_ ?_
    · cases numberItem root "freqSegmentCnt" with
      | none => exact iff_of_true hconfig forall_of_none
      | some n =>
        simp only [Option.some.injEq, forall_eq']
        exact hcounts n hcid
    · cases root.getItem "array" with
      | none => exact iff_of_true (List.forall_mem_nil _) forall_of_none
      | some multiBand =>
        simp only [Option.some.injEq, forall_eq']
        exact hentries multiBand hcid

theorem cmdMutiPoint_safe_iff (hconfig : CountsInRange config) (stack : ℕ) :
    (cmdMutiPoint kv body config).Safe ↔ Action.cmdMutiPoint.Allowed kv body stack := by
  rw [cmdMutiPoint]
  change _ ↔ ∀ ch, pathCh kv = some ch → _
  cases pathCh kv with
  | none => exact stopped_iff hconfig _
  | some ch =>
    simp only [Option.some.injEq, forall_eq']
    exact parseJsonMutiPoint_safe_iff hconfig

theorem cmdMultiBand_safe_iff (hconfig : CountsInRange config) (stack : ℕ) :
    (cmdMultiBand kv body config stack).Safe ↔ Action.cmdMultiBand.Allowed kv body stack := by
  rw [cmdMultiBand]
  change _ ↔ ∀ ch, pathCh kv = some ch → _
  cases pathCh kv with
  | none => exact stopped_iff hconfig _
  | some ch =>
    simp only [Option.some.injEq, forall_eq']
    exact parseJsonMultiBand_safe_iff hconfig stack

theorem cmdDemodulation_safe_iff (hconfig : CountsInRange config) (stack : ℕ) :
    (cmdDemodulation kv body config).Safe ↔ Action.cmdDemodulation.Allowed kv body stack := by
  rw [cmdDemodulation]
  change _ ↔ ∀ ch, pathCh kv = some ch → _
  cases pathCh kv with
  | none => exact stopped_iff hconfig _
  | some ch =>
    simp only [Option.some.injEq, forall_eq']
    cases pathSubch kv with
    | none => exact stopped_iff hconfig _
    | some subch =>
      simp only [Option.some.injEq, forall_eq', parseJsonDemodulation]
      cases body with
      | none => exact stopped_iff hconfig _
      | some root =>
        simp only [Option.some.injEq, forall_eq']
        rw [safe_iff hconfig, List.forall_mem_cons, List.forall_mem_cons, List.forall_mem_singleton]
        exact ⟨fun h => h.2.1, fun h => ⟨h.1, h, h.1, indexInRange_zero⟩⟩

theorem cmdBddc_safe_iff (hconfig : CountsInRange config) (stack : ℕ) :
    (cmdBddc kv body config).Safe ↔ Action.cmdBddc.Allowed kv body stack := by
  rw [cmdBddc]
  change _ ↔ ∀ ch, pathCh kv = some ch → _
  cases pathCh kv with
  | none => exact stopped_iff hconfig _
  | some ch =>
    simp only [Option.some.injEq, forall_eq', parseJsonBddc]
    cases body with
    | none => exact stopped_iff hconfig _
    | some root =>
      simp only [Option.some.injEq, forall_eq']
      rw [safe_iff hconfig, List.forall_mem_cons, List.forall_mem_singleton]
      exact ⟨And.left, fun h => ⟨h, h, indexInRange_zero⟩⟩

theorem configWriteMidFreq_inRange_iff (type : Option IfType) (ch value : ℤ) :
    (∀ a ∈ configWriteMidFreq type ch value, a.InRange) ↔
      ∀ t, type = some t → t ≠ .decMidFreq → (t = .muteSw → toUint8 value ≤ 1) →
        ChannelInRange ch := by
  have hpoint : (∀ a ∈ [Access.points ch 0], a.InRange) ↔ ChannelInRange ch := by
    rw [List.forall_mem_singleton]
    exact and_iff_left indexInRange_zero
  cases type with
  | none => exact iff_of_true (List.forall_mem_nil _) forall_of_none
  | some t =>
    simp only [Option.some.injEq, forall_eq']
    cases t with
    | muteSw =>
      rw [configWriteMidFreq]
      split_ifs with hvalue
      · refine iff_of_true (List.forall_mem_nil _) fun _ h => ?_
        exact absurd (h rfl) (Int.not_le.mpr hvalue)
      · rw [hpoint]
        exact ⟨fun h _ _ => h, fun h => h (by decide) fun _ => Int.not_lt.mp hvalue⟩
    | decMidFreq => exact iff_of_true (List.forall_mem_nil _) fun h => absurd rfl h
    | smoothTime | smoothType | smoothThre | audioSampleRate | windowType =>
      simp [configWriteMidFreq, Access.InRange]
    | muteThre | midFreq | bandwith | decMethod | decBw | fftSize | resolution | audioVolCtrl =>
      refine hpoint.trans ?_
      simp

theorem configWriteRfFreq_inRange_iff (type : Option RfType) (ch : ℤ) :
    (∀ a ∈ configWriteRfFreq type ch, a.InRange) ↔
      ∀ t, type = some t → t ≠ .antennaSelect → t ≠ .statusTemperat → t ≠ .calibrate →
        ChannelInRange ch := by
  cases type with
  | none => exact iff_of_true (List.forall_mem_nil _) forall_of_none
  | some t => cases t <;> simp [configWriteRfFreq, Access.InRange]

theorem cmdIfSingleValueSet_safe_iff (hconfig : CountsInRange config) (stack : ℕ) :
    (cmdIfSingleValueSet kv config).Safe ↔ Action.cmdIfSingleValueSet.Allowed kv body stack := by
  rw [cmdIfSingleValueSet]
  change _ ↔ ∀ ch, pathCh kv = some ch → _
  cases pathCh kv with
  | none => exact stopped_iff hconfig _
  | some ch =>
    simp only [Option.some.injEq, forall_eq']
    cases optionalSubch kv with
    | false => exact iff_of_true (safe_nil hconfig _) fun h => absurd h Bool.false_ne_true
    | true =>
      simp only [if_true, true_imp_iff]
      cases strToS64 (kvlistGet kv "value".toList) with
      | none => exact stopped_iff hconfig _
      | some value =>
        have hvalue2 : ((kvlistGet kv "value2".toList).isSome &&
            (strToS64 (kvlistGet kv "value2".toList)).isNone) = true ↔
            ¬ (kvlistGet kv "value2".toList = none ∨
              strToS64 (kvlistGet kv "value2".toList) ≠ none) := by
          rw [Bool.and_eq_true, Option.isSome_iff_ne_none, Option.isNone_iff_eq_none, not_or,
            not_not]
        simp only [Option.some.injEq, forall_eq']
        split_ifs with h2
        · exact iff_of_true (safe_nil hconfig _) fun h => absurd h (hvalue2.mp h2)
        · rw [hvalue2, not_not] at h2
          simp only [h2, true_imp_iff]
          cases kvlistGet kv "type".toList with
          | none => exact stopped_iff hconfig _
          | some sType =>
            simp only [Option.some.injEq, forall_eq']
            rw [safe_iff hconfig]
            exact configWriteMidFreq_inRange_iff _ _ _

theorem cmdRfSingleValueSet_safe_iff (hconfig : CountsInRange config) (stack : ℕ) :
    (cmdRfSingleValueSet kv config).Safe ↔ Action.cmdRfSingleValueSet.Allowed kv body stack := by
  rw [cmdRfSingleValueSet]
  change _ ↔ ∀ ch, pathCh kv = some ch → _
  cases pathCh kv with
  | none => exact stopped_iff hconfig _
  | some ch =>
    simp only [Option.some.injEq, forall_eq']
    cases optionalSubch kv with
    | false => exact iff_of_true (safe_nil hconfig _) fun h => absurd h Bool.false_ne_true
    | true =>
      simp only [if_true, true_imp_iff]
      cases strToS64 (kvlistGet kv "value".toList) with
      | none => exact stopped_iff hconfig _
      | some value =>
        simp only [Option.some.injEq, forall_eq']
        cases kvlistGet kv "type".toList with
        | none => exact stopped_iff hconfig _
        | some sType =>
          simp only [Option.some.injEq, forall_eq']
          rw [safe_iff hconfig]
          exact configWriteRfFreq_inRange_iff _ _

theorem cmdRfMultiValueSet_safe_iff (hconfig : CountsInRange config) (stack : ℕ) :
    (cmdRfMultiValueSet kv body config).Safe ↔
      Action.cmdRfMultiValueSet.Allowed kv body stack := by
  rw [cmdRfMultiValueSet]
  change _ ↔ ∀ ch, pathCh kv = some ch → _
  cases pathCh kv with
  | none => exact stopped_iff hconfig _
  | some ch =>
    simp only [Option.some.injEq, forall_eq']
    cases optionalSubch kv with
    | false => exact iff_of_true (safe_nil hconfig _) fun h => absurd h Bool.false_ne_true
    | true =>
      simp only [if_true, true_imp_iff, parseJsonRfMultiValue]
      cases body with
      | none => exact stopped_iff hconfig _
      | some root =>
        simp only [safe_iff hconfig, List.forall_mem_singleton, Access.InRange, Option.some.injEq,
          forall_eq']

/-- The channel is used as it is; cut to eight bits it is the same one. -/
theorem cmdChEnableSet_safe_iff (hconfig : CountsInRange config) (stack : ℕ) :
    (cmdChEnableSet kv config).Safe ↔ Action.cmdChEnableSet.Allowed kv body stack := by
  rw [cmdChEnableSet]
  change _ ↔ ∀ ch, pathCh kv = some ch → _
  cases pathCh kv with
  | none => exact stopped_iff hconfig _
  | some ch =>
    simp only [Option.some.injEq, forall_eq']
    cases strToInt (kvlistGet kv "value".toList) checkValidEnable with
    | none => exact stopped_iff hconfig _
    | some enable =>
      have hone (code : Option RespCode) :
          (Reply.mk code [.channel ch] config).Safe ↔ ChannelInRange ch := by
        rw [safe_iff hconfig, List.forall_mem_singleton]
        rfl
      have htwo (code : Option RespCode) :
          (Reply.mk code [.channel ch, .channel (toUint8 ch)] config).Safe ↔ ChannelInRange ch := by
        rw [safe_iff hconfig, List.forall_mem_cons, List.forall_mem_singleton]
        exact ⟨And.left, fun h => ⟨h, (toUint8_of_inRange h).symm ▸ h⟩⟩
      simp only [Option.some.injEq, forall_eq']
      cases kvlistGet kv "type".toList with
      | none => exact hone _
      | some sType =>
        dsimp only
        split_ifs
        · exact htwo _
        · exact hone _
        · exact hone _

theorem cmdSubchEnableSet_safe_iff (hconfig : CountsInRange config) (stack : ℕ) :
    (cmdSubchEnableSet kv config).Safe ↔ Action.cmdSubchEnableSet.Allowed kv body stack := by
  rw [cmdSubchEnableSet]
  change _ ↔ ∀ ch, pathCh kv = some ch → _
  cases pathCh kv with
  | none => exact stopped_iff hconfig _
  | some ch =>
    simp only [Option.some.injEq, forall_eq']
    cases strToInt (kvlistGet kv "value".toList) checkValidEnable with
    | none => exact stopped_iff hconfig _
    | some enable =>
      simp only [Option.some.injEq, forall_eq']
      cases pathSubch kv with
      | none => exact stopped_iff hconfig _
      | some subch =>
        have hone (code : Option RespCode) :
            (Reply.mk code [.subChEnable ch subch] config).Safe ↔
              ChannelInRange ch ∧ SubchInRange subch := by
          rw [safe_iff hconfig, List.forall_mem_singleton]
          rfl
        simp only [Option.some.injEq, forall_eq']
        cases kvlistGet kv "type".toList with
        | none => exact hone _
        | some sType =>
          dsimp only
          split_ifs <;> exact hone _

/-- One command stays inside the tables exactly where it allows the request. -/
theorem runAction_iff (hconfig : CountsInRange config) (action : Action) (stack : ℕ) :
    ((∀ a ∈ (runAction kv body config action stack).1, a.InRange) ∧
      CountsInRange (runAction kv body config action stack).2) ↔ action.Allowed kv body stack := by
  cases action with
  | cmdMutiPoint => exact cmdMutiPoint_safe_iff hconfig stack
  | cmdMultiBand => exact cmdMultiBand_safe_iff hconfig stack
  | cmdDemodulation => exact cmdDemodulation_safe_iff hconfig stack
  | cmdBddc => exact cmdBddc_safe_iff hconfig stack
  | cmdIfSingleValueSet => exact cmdIfSingleValueSet_safe_iff hconfig stack
  | cmdRfSingleValueSet => exact cmdRfSingleValueSet_safe_iff hconfig stack
  | cmdRfMultiValueSet => exact cmdRfMultiValueSet_safe_iff hconfig stack
  | cmdChEnableSet => exact cmdChEnableSet_safe_iff hconfig stack
  | cmdSubchEnableSet => exact cmdSubchEnableSet_safe_iff hconfig stack
  | cmdIfMultiValueSet =>
    refine iff_of_true ?_ trivial
    rw [runAction, cmdIfMultiValueSet]
    cases pathCh kv <;> exact ⟨List.forall_mem_nil _, hconfig⟩
  | _ => exact iff_of_true ⟨List.forall_mem_nil _, hconfig⟩ trivial

end

/-! ### Runs of requests -/

theorem pointsFrom_inRange {ch : ℤ} (hch : ChannelInRange ch) (reset : ℕ → Bool) {i n : ℕ}
    (hn : i + n ≤ maxSigChannle) : ∀ a ∈ pointsFrom ch reset i n, a.InRange := by
  induction n generalizing i with
  | zero => exact List.forall_mem_nil _
  | succ n ih =>
    rw [pointsFrom, List.forall_mem_cons, List.forall_mem_cons]
    refine ⟨⟨hch, Int.natCast_nonneg i, by omega⟩, ⟨hch, indexInRange_zero⟩, ?_⟩
    split_ifs
    · exact List.forall_mem_nil _
    · exact ih (by omega)

/-- A scan stays inside the points where the count does. -/
theorem executorPointsScan_inRange {config : Config} (hconfig : CountsInRange config) {ch : ℤ}
    (hch : ChannelInRange ch) (reset : ℕ → Bool) :
    ∀ a ∈ executorPointsScan config ch reset, a.InRange := by
  rw [executorPointsScan, List.forall_mem_cons]
  refine ⟨hch, pointsFrom_inRange hch reset ?_⟩
  rw [Nat.zero_add]
  exact (hconfig ch hch).1

theorem stepSafe_iff_allowed {config : Config} (hconfig : CountsInRange config) (r : Request) :
    StepSafe config r ↔ r.Allowed := by
  have hstep : ((∀ a ∈ (onRequest config r).1, a.InRange) ∧ CountsInRange (onRequest config r).2) ↔
      r.Allowed := by
    rw [onRequest, Request.Allowed]
    cases r.called with
    | none =>
      exact iff_of_true ⟨List.forall_mem_nil _, hconfig⟩
        forall_of_none
    | some action =>
      simp only [Option.some.injEq, forall_eq']
      exact runAction_iff hconfig action r.stack
  rw [← hstep]
  constructor
  · exact fun h => ⟨h.inRange, h.counts⟩
  · exact fun h => ⟨h.1, h.2, fun _ hch reset => executorPointsScan_inRange h.2 hch reset⟩

theorem countsInRange_init : CountsInRange configInit :=
  fun _ _ => ⟨Nat.zero_le _, Nat.zero_le _⟩

/-- Every request of a run stays inside the tables exactly where every one of them is allowed. -/
theorem stepSafe_iff (reqs : List Request) :
    (∀ pre r, pre ++ [r] <+: reqs → StepSafe (configAfter pre) r) ↔ ∀ r ∈ reqs, r.Allowed := by
  have hruns := forall_steps_iff (P := CountsInRange) (C := fun _ r => r.Allowed)
    countsInRange_init (fun _ r hconfig h => ((stepSafe_iff_allowed hconfig r).mpr h).counts)
    (fun _ r hconfig => stepSafe_iff_allowed hconfig r) reqs
  refine hruns.trans ⟨fun h r hr => ?_, fun h pre r hpre => ?_⟩
  · obtain ⟨pre, post, rfl⟩ := List.append_of_mem hr
    exact h pre r ⟨post, by rw [List.append_assoc, List.singleton_append]⟩
  · exact h r (hpre.subset (List.mem_append_right _ (List.mem_singleton.mpr rfl)))

section Agrees

variable {r : Request} {i : ℕ} {info : RequestInfo} (hi : httpReqCmd[i]? = some info)
  (hmethod : info.method = r.method) (ha : agrees r.path info.path = true)

include hi hmethod ha

/-- A request reaches the command of the entry that agrees. -/
theorem called_of_agrees : r.called = some info.action := by
  rw [Request.called, served, httpOnRequest_of_agrees hi hmethod ha]
  dsimp only
  rw [List.head?_cons, Option.bind_some, hi]
  rfl

/-- Its parameters are those that the entry writes. -/
theorem vars_of_agrees :
    r.vars = ((written r.path info.path).foldl Client.write
      (Client.request r.method (some r.path))).resetfulVar :=
  served_resetfulVar hi hmethod ha

end Agrees

/-- The number after the last channel passes `check_valid_ch` and indexes the table. -/
theorem not_stepSafe_channel_one :
    ¬ ∀ pre r, pre ++ [r] <+: [⟨"PUT", "/enable/1/iq/1".toList, none, 0⟩] →
      StepSafe (configAfter pre) r := by
  intro h
  let r : Request := ⟨"PUT", "/enable/1/iq/1".toList, none, 0⟩
  let info : RequestInfo := cmd "PUT" "/enable/@ch/@type/@value" (-1) .cmdChEnableSet
  have hentry : httpReqCmd[25]? = some info := rfl
  have hagrees : agrees r.path info.path = true := by decide +kernel
  have hvars := vars_of_agrees (r := r) hentry rfl hagrees
  have hallowed := (stepSafe_iff_allowed countsInRange_init r).mp (h [] r (List.prefix_refl _))
    .cmdChEnableSet (called_of_agrees hentry rfl hagrees)
  rw [hvars] at hallowed
  have hch : ChannelInRange 1 := hallowed 1 (by decide +kernel) 1 (by decide +kernel)
  exact absurd hch.2 (by decide)

end M57Card.Rest
