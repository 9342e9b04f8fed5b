import Mathlib.Data.Int.Notation
import Mathlib.Logic.Function.Basic
import M57Card.Lib.Patterns

/-!
# Routing a REST request

The table of the REST commands and how a request finds its entry. The path of the request and the
template of an entry are cut at `/` into words; a template word with `@` or `:` in front is a
parameter. While an entry is compared its parameters are written into `resetful_var`, each from a
text `name,segment` put together in a buffer of 512 bytes.

## Main definitions

* `Text`, `Kvlist`, `words`.
* `Action`, `RequestInfo`, `httpReqCmd`.
* `Client`, `parseResetfulVar`, `urlParamNumIsEqual`, `parseFormatUrl`, `httpOnRequest`.

## Main results

* `parseFormatUrl_eq` : what an entry answers and what it writes, from the two lists of words.
* `httpOnRequest_of_agrees`, `httpOnRequest_of_none` : what a request does.
-/

namespace M57Card.Rest

/-- The text of a C string, a character for each byte. -/
abbrev Text : Type := List Char

/-- A list of values by name. -/
abbrev Kvlist : Type := Text → Option Text

/-- `kvlist_get`. -/
def kvlistGet (kv : Kvlist) (name : Text) : Option Text := kv name

/-- `kvlist_set`: the value of an older entry is replaced. -/
def kvlistSet (kv : Kvlist) (name data : Text) : Kvlist := Function.update kv name (some data)

/-- The words that `strtok_r` finds with `URL_SEPARATOR`. -/
def words (url : Text) : List Text := (url.splitOn '/').filter fun w => !w.isEmpty

/-- The commands of the table. -/
inductive Action where
  | cmdFileDelete | cmdFileStore | cmdFileBacktrace | cmdFileList | cmdFileFind | cmdDiskFormat
  | cmdMutiPoint | cmdMultiBand | cmdDemodulation | cmdBddc
  | cmdIfSingleValueSet | cmdIfMultiValueSet | cmdRfSingleValueSet | cmdRfMultiValueSet
  | cmdNetset | cmdNetget | cmdNetClient | cmdNetClientType
  | cmdSubchEnableSet | cmdChEnableSet | cmdPing
  | cmdGetFpgaInfo | cmdGetAllInfo | cmdGetSelfcheckInfo | cmdGetStatusUplinkInfo
  | cmdGetStatusDownlinkInfo | cmdGetStatusSlotInfo | cmdGetStatusClientInfo
  | cmdGetStatusClientSubInfo | cmdGetStatusSpmHashInfo | cmdGetSysInfo | cmdGetRfIdentifyInfo
  | cmdGetStatisticsInfo | cmdGetDeviceStatus | cmdGetSoftversion | cmdGetTemperature
  | cmdTimesourceSet | cmdRfPowerOnoff | cmdRfAgcmode | cmdRouteReload | cmdLinkcheckSet
  | cmdUnloadFpgaBit | cmdUnloadFpgaBitById | cmdQaXdmaloop
  deriving DecidableEq

/-- The parameters whose text a command uses without looking whether it is there. -/
def Action.unchecked : Action → List Text
  | .cmdFileDelete | .cmdFileStore | .cmdFileBacktrace | .cmdFileFind => ["filename".toList]
  | .cmdIfSingleValueSet | .cmdRfSingleValueSet => ["type".toList]
  | .cmdSubchEnableSet | .cmdChEnableSet => ["type".toList]
  | .cmdTimesourceSet | .cmdRfPowerOnoff | .cmdRfAgcmode => ["value".toList]
  | _ => []

/-- `struct request_info`. -/
structure RequestInfo where
  method : String
  path : Text
  dispatchCmd : ℤ
  action : Action

/-- An entry of the table. -/
def cmd (method path : String) (dispatchCmd : ℤ) (action : Action) : RequestInfo :=
  ⟨method, path.toList, dispatchCmd, action⟩

/-- `http_req_cmd`, built without `SUPPORT_XWFS`. -/
def httpReqCmd : List RequestInfo :=
  [ -- files on the disk
    cmd "DELETE" "/file/@filename" (-1) .cmdFileDelete,
    cmd "POST" "/file/store/@ch/@enable/@filename" (-1) .cmdFileStore,
    cmd "POST" "/file/backtrace/@ch/@enable/@filename" (-1) .cmdFileBacktrace,
    cmd "GET" "/file/list" (-1) .cmdFileList,
    cmd "GET" "/file/find/@filename" (-1) .cmdFileFind,
    cmd "GET" "/disk/format" (-1) .cmdDiskFormat,
    -- modes
    cmd "POST" "/mode/mutiPoint/@ch" (-1) .cmdMutiPoint,
    cmd "POST" "/mode/multiBand/@ch" (-1) .cmdMultiBand,
    cmd "POST" "/demodulation/@ch/@subch" (-1) .cmdDemodulation,
    cmd "POST" "/nddc/@ch/@subch" (-1) .cmdDemodulation,
    cmd "POST" "/bddc/@ch" (-1) .cmdBddc,
    -- intermediate frequency
    cmd "PUT" "/if/@ch/@subch/@type/@value" (-1) .cmdIfSingleValueSet,
    cmd "PUT" "/if/@ch/@subch/@type/@value/@value2" (-1) .cmdIfSingleValueSet,
    cmd "PUT" "/if/@ch/@type/@value" (-1) .cmdIfSingleValueSet,
    cmd "POST" "/if/@ch/@subch" (-1) .cmdIfMultiValueSet,
    cmd "POST" "/if/@ch" (-1) .cmdIfMultiValueSet,
    -- radio frequency
    cmd "PUT" "/rf/@ch/@subch/@type/@value" (-1) .cmdRfSingleValueSet,
    cmd "PUT" "/rf/@ch/@type/@value" (-1) .cmdRfSingleValueSet,
    cmd "POST" "/rf/@ch/@subch" (-1) .cmdRfMultiValueSet,
    cmd "POST" "/rf/@ch" (-1) .cmdRfMultiValueSet,
    -- network
    cmd "POST" "/net" (-1) .cmdNetset,
    cmd "GET" "/net" (-1) .cmdNetget,
    cmd "POST" "/net/@ch/client" (-1) .cmdNetClient,
    cmd "POST" "/net/@ch/client/@type" (-1) .cmdNetClientType,
    -- switches
    cmd "PUT" "/enable/@ch/@subch/@type/@value" (-1) .cmdSubchEnableSet,
    cmd "PUT" "/enable/@ch/@type/@value" (-1) .cmdChEnableSet,
    cmd "GET" "/ping" (-1) .cmdPing,
    -- status
    cmd "GET" "/status/device/fpgaInfo" (-1) .cmdGetFpgaInfo,
    cmd "GET" "/status/device/all" (-1) .cmdGetAllInfo,
    cmd "GET" "/status/device/selfcheckInfo" (-1) .cmdGetSelfcheckInfo,
    cmd "GET" "/status/uplink" (-1) .cmdGetStatusUplinkInfo,
    cmd "GET" "/status/downlink" (-1) .cmdGetStatusDownlinkInfo,
    cmd "GET" "/status/slot" (-1) .cmdGetStatusSlotInfo,
    cmd "GET" "/status/client" (-1) .cmdGetStatusClientInfo,
    cmd "GET" "/status/client/subInfo" (-1) .cmdGetStatusClientSubInfo,
    cmd "GET" "/status/spm/hashInfo" (-1) .cmdGetStatusSpmHashInfo,
    cmd "GET" "/status/sysinfo" (-1) .cmdGetSysInfo,
    cmd "GET" "/status/rf_identify_info" (-1) .cmdGetRfIdentifyInfo,
    cmd "GET" "/statistics" (-1) .cmdGetStatisticsInfo,
    cmd "GET" "/device/status" (-1) .cmdGetDeviceStatus,
    cmd "GET" "/device/softversion" (-1) .cmdGetSoftversion,
    cmd "GET" "/device/temperature" (-1) .cmdGetTemperature,
    cmd "PUT" "/timesource/@value" (-1) .cmdTimesourceSet,
    cmd "PUT" "/rf/power/@value" (-1) .cmdRfPowerOnoff,
    cmd "PUT" "/rf/agcCtrlMode/@value" (-1) .cmdRfAgcmode,
    -- routes, link switches, control
    cmd "GET" "/route/reload" (-1) .cmdRouteReload,
    cmd "PUT" "/link/@slotId/@enable" (-1) .cmdLinkcheckSet,
    cmd "GET" "/unload/@fpga_id" (-1) .cmdUnloadFpgaBit,
    cmd "GET" "/unload/@slotid/@chipid" (-1) .cmdUnloadFpgaBitById,
    cmd "GET" "/qa/xdmaloop/@ch/@enable" (-1) .cmdQaXdmaloop ]

/-- `UH_REQUEST_DONE` and `UH_REQUEST_CONTINUE`. -/
inductive UhRequest where
  | done
  | continue

/-- What routing reads and writes of a client: the request, its parameters, the texts put together
in `concat_url_param`, the command for the file service, and the entries whose action was called. -/
structure Client where
  method : String
  path : Option Text
  resetfulVar : Kvlist
  assembled : List Text
  dispatchCmd : Option ℤ
  ran : List ℕ

/-- A client with a request that has just been read. -/
def Client.request (method : String) (path : Option Text) : Client :=
  ⟨method, path, fun _ => none, [], none, []⟩

/-- `parse_resetful_var`: the text is cut at its first comma. -/
def Client.parseResetfulVar (cl : Client) (str : Text) : Client :=
  let k := str.takeWhile (· != ',')
  match str.dropWhile (· != ',') with
  | [] => cl
  | _ :: v => if k = [] then cl else { cl with resetfulVar := kvlistSet cl.resetfulVar k v }

/-- `url_param_num_is_equal`. -/
def urlParamNumIsEqual (url urlFormat : Text) : Bool :=
  (words urlFormat).length == (words url).length

/-- The template word is a parameter. -/
def isParam (curWordFormat : Text) : Bool :=
  curWordFormat.head? == some ':' || curWordFormat.head? == some '@'

/-- A file name has a dot; the other parameters take any word. -/
def isValidParam (curWordFormat curWord : Text) : Bool :=
  !(curWordFormat.tail == "filename".toList && !curWord.contains '.')

/-- `sprintf(concat_url_param, "%s,%s", cur_word_format+1, cur_word)`. -/
def concatUrlParam (curWordFormat curWord : Text) : Text := curWordFormat.tail ++ ',' :: curWord

/-- The words of the request and of the template, one after the other. -/
def Client.parseWords (cl : Client) : List Text → List Text → Client × ℤ
  | curWordFormat :: fs, curWord :: ws =>
    if curWord ≠ curWordFormat then
      if isParam curWordFormat then
        if isValidParam curWordFormat curWord then
          let str := concatUrlParam curWordFormat curWord
          ({ cl with assembled := cl.assembled ++ [str] }.parseResetfulVar str).parseWords
            fs ws
        else (cl, -1)
      else (cl, -1)
    else cl.parseWords fs ws
  | _, _ => (cl, 0)

/-- The template has a parameter. -/
def hasParam (urlFormat : Text) : Bool := urlFormat.contains ':' || urlFormat.contains '@'

/-- `parse_format_url`. -/
def Client.parseFormatUrl (cl : Client) (urlFormat : Text) : Client × ℤ :=
  match cl.path with
  | none => (cl, -1)
  | some url =>
    if urlParamNumIsEqual url urlFormat then
      if hasParam urlFormat then cl.parseWords (words urlFormat) (words url)
      else (cl, if url = urlFormat then 0 else -1)
    else (cl, -1)

/-- The entries of the table, in their order; the action of the first one that agrees is called. -/
def Client.tryEntries (cl : Client) : List (RequestInfo × ℕ) → Client × UhRequest
  | [] => ({ cl with dispatchCmd := some 0 }, .continue)
  | (info, i) :: rest =>
    if cl.method ≠ info.method then cl.tryEntries rest
    else
      let r := cl.parseFormatUrl info.path
      if r.2 = 0 then
        if info.dispatchCmd = -1 then ({ r.1 with ran := r.1.ran ++ [i] }, .done)
        else ({ r.1 with dispatchCmd := some info.dispatchCmd }, .continue)
      else r.1.tryEntries rest

/-- `http_on_request`. -/
def Client.httpOnRequest (cl : Client) : Client × UhRequest :=
  match cl.path with
  | none => (cl, .done)
  | some _ => cl.tryEntries httpReqCmd.zipIdx

/-! ### One entry -/

/-- The answer of `parse_format_url` is 0. -/
def agrees (url urlFormat : Text) : Bool :=
  urlParamNumIsEqual url urlFormat &&
    if hasParam urlFormat then Patterns.passes isParam isValidParam (words urlFormat) (words url)
    else url == urlFormat

/-- The parameters that `parse_format_url` writes, with their words. -/
def written (url urlFormat : Text) : List (Text × Text) :=
  if urlParamNumIsEqual url urlFormat && hasParam urlFormat then
    Patterns.taken isParam isValidParam (words urlFormat) (words url)
  else []

/-- One parameter is written. -/
def Client.write (cl : Client) (x : Text × Text) : Client :=
  { cl with assembled := cl.assembled ++ [concatUrlParam x.1 x.2] }.parseResetfulVar
    (concatUrlParam x.1 x.2)

theorem parseResetfulVar_frame (cl : Client) (str : Text) :
    (cl.parseResetfulVar str).method = cl.method ∧ (cl.parseResetfulVar str).path = cl.path ∧
      (cl.parseResetfulVar str).assembled = cl.assembled ∧
      (cl.parseResetfulVar str).ran = cl.ran := by
  unfold Client.parseResetfulVar
  dsimp only
  split
  · exact ⟨rfl, rfl, rfl, rfl⟩
  · split_ifs <;> exact ⟨rfl, rfl, rfl, rfl⟩

@[simp] theorem write_method (cl : Client) (x : Text × Text) : (cl.write x).method = cl.method :=
  (parseResetfulVar_frame _ _).1

@[simp] theorem write_path (cl : Client) (x : Text × Text) : (cl.write x).path = cl.path :=
  (parseResetfulVar_frame _ _).2.1

@[simp] theorem write_assembled (cl : Client) (x : Text × Text) :
    (cl.write x).assembled = cl.assembled ++ [concatUrlParam x.1 x.2] :=
  (parseResetfulVar_frame _ _).2.2.1

@[simp] theorem write_ran (cl : Client) (x : Text × Text) : (cl.write x).ran = cl.ran :=
  (parseResetfulVar_frame _ _).2.2.2

@[simp] theorem foldl_write_method (xs : List (Text × Text)) (cl : Client) :
    (xs.foldl Client.write cl).method = cl.method := by
  induction xs generalizing cl with
  | nil => rfl
  | cons x xs ih => rw [List.foldl_cons, ih, write_method]

@[simp] theorem foldl_write_path (xs : List (Text × Text)) (cl : Client) :
    (xs.foldl Client.write cl).path = cl.path := by
  induction xs generalizing cl with
  | nil => rfl
  | cons x xs ih => rw [List.foldl_cons, ih, write_path]

@[simp] theorem foldl_write_ran (xs : List (Text × Text)) (cl : Client) :
    (xs.foldl Client.write cl).ran = cl.ran := by
  induction xs generalizing cl with
  | nil => rfl
  | cons x xs ih => rw [List.foldl_cons, ih, write_ran]

@[simp] theorem foldl_write_assembled (xs : List (Text × Text)) (cl : Client) :
    (xs.foldl Client.write cl).assembled =
      cl.assembled ++ xs.map fun x => concatUrlParam x.1 x.2 := by
  induction xs generalizing cl with
  | nil => simp
  | cons x xs ih => rw [List.foldl_cons, ih, write_assembled, List.map_cons, List.append_assoc]; rfl

theorem parseWords_eq (fs ws : List Text) (cl : Client) :
    cl.parseWords fs ws =
      ((Patterns.taken isParam isValidParam fs ws).foldl Client.write cl,
        if Patterns.passes isParam isValidParam fs ws = true then 0 else -1) := by
  induction fs generalizing ws cl with
  | nil => rfl
  | cons f fs ih =>
    cases ws with
    | nil => rfl
    | cons w ws =>
      rw [Client.parseWords, Patterns.taken, Patterns.passes]
      by_cases hwf : w = f
      · rw [if_neg (not_not.mpr hwf), if_pos hwf, if_pos hwf, ih]
      · rw [if_pos hwf, if_neg hwf, if_neg hwf]
        cases hparam : isParam f with
        | false => rfl
        | true =>
          cases hvalid : isValidParam f w with
          | false => rfl
          | true =>
            simp only [if_true, Bool.and_self, List.foldl_cons]
            exact ih ws _

/-- What `parse_format_url` writes and answers. -/
theorem parseFormatUrl_eq {cl : Client} {url : Text} (hpath : cl.path = some url)
    (urlFormat : Text) :
    cl.parseFormatUrl urlFormat =
      ((written url urlFormat).foldl Client.write cl,
        if agrees url urlFormat = true then 0 else -1) := by
  rw [Client.parseFormatUrl, hpath, written, agrees]
  dsimp only
  cases hlen : urlParamNumIsEqual url urlFormat with
  | false => rfl
  | true =>
    cases hparam : hasParam urlFormat with
    | false =>
      simp only [if_true, Bool.true_and, Bool.false_eq_true, if_false, List.foldl_nil, beq_iff_eq]
    | true => simp only [if_true, Bool.true_and, parseWords_eq]

/-- An entry that agrees has as many words as the path and passes the walk. -/
theorem passes_of_agrees {url urlFormat : Text} (h : agrees url urlFormat = true) :
    (words urlFormat).length = (words url).length ∧
      Patterns.passes isParam isValidParam (words urlFormat) (words url) = true := by
  rw [agrees, Bool.and_eq_true, urlParamNumIsEqual, beq_iff_eq] at h
  obtain ⟨hlen, h⟩ := h
  refine ⟨hlen, ?_⟩
  split_ifs at h with hparam
  · exact h
  · rw [beq_iff_eq] at h
    rw [Patterns.passes_iff hlen, h]
    exact List.forall₂_same.mpr fun p _ => Or.inl rfl

/-! ### The table -/

/-- Two entries of one method with as many words differ before their parameters. -/
def apart (a b : RequestInfo) : Bool :=
  a.method != b.method || (words a.path).length != (words b.path).length ||
    Patterns.clash isParam (words a.path) (words b.path)

/-- What every entry of the table keeps to. -/
structure RequestInfo.WellFormed (info : RequestInfo) : Prop where
  runs : info.dispatchCmd = -1
  hasParam_of_isParam : ∀ p ∈ words info.path, isParam p = true → hasParam info.path = true
  nodup : (words info.path).Nodup
  named : ∀ p ∈ words info.path, isParam p = true →
    p.head? = some '@' ∧ p.tail ≠ [] ∧ ',' ∉ p.tail ∧ p.length ≤ 20
  unchecked : ∀ name ∈ info.action.unchecked, '@' :: name ∈ words info.path

/-- An entry whose path is known character by character, and the entries behind it. -/
theorem cmd_cons {method path : String} {dispatchCmd : ℤ} {action : Action} {l : Text}
    {rest rest' : List RequestInfo} (hpath : path = String.ofList l) (hrest : rest = rest') :
    cmd method path dispatchCmd action :: rest = ⟨method, l, dispatchCmd, action⟩ :: rest' := by
  rw [cmd, hpath, hrest, String.toList_ofList]

/-- The entries of a table are apart, and each keeps to `RequestInfo.WellFormed`. -/
def Checked (table : List RequestInfo) : Prop :=
  table.Pairwise (fun a b => apart a b = true) ∧
    ∀ info ∈ table, info.dispatchCmd = -1 ∧
      (∀ p ∈ words info.path, isParam p = true → hasParam info.path = true) ∧
      (words info.path).Nodup ∧
      (∀ p ∈ words info.path, isParam p = true →
        p.head? = some '@' ∧ p.tail ≠ [] ∧ ',' ∉ p.tail ∧ p.length ≤ 20) ∧
      ∀ name ∈ info.action.unchecked, '@' :: name ∈ words info.path

instance (table : List RequestInfo) : Decidable (Checked table) :=
  inferInstanceAs (Decidable (_ ∧ _))

theorem httpReqCmd_checked : Checked httpReqCmd := by
  -- the paths are spelled out first, since to reduce a string takes long
  have htable : ∃ table, httpReqCmd = table ∧ Checked table := by
    constructor
    constructor
    · unfold httpReqCmd
      repeat apply cmd_cons rfl
      exact rfl
    · decide +kernel
  obtain ⟨table, heq, hchecked⟩ := htable
  exact heq ▸ hchecked

theorem wellFormed_of_mem {info : RequestInfo} (h : info ∈ httpReqCmd) : info.WellFormed := by
  obtain ⟨hruns, hparam, hnodup, hnamed, hunchecked⟩ := httpReqCmd_checked.2 info h
  exact ⟨hruns, hparam, hnodup, hnamed, hunchecked⟩

theorem clash_of_ne {i j : ℕ} {a b : RequestInfo} (hi : httpReqCmd[i]? = some a)
    (hj : httpReqCmd[j]? = some b) (hij : i ≠ j) (hmethod : a.method = b.method)
    (hlen : (words a.path).length = (words b.path).length) :
    Patterns.clash isParam (words a.path) (words b.path) = true := by
  obtain ⟨hi', rfl⟩ := List.getElem?_eq_some_iff.mp hi
  obtain ⟨hj', rfl⟩ := List.getElem?_eq_some_iff.mp hj
  have hall := List.pairwise_iff_getElem.mp httpReqCmd_checked.1
  have hapart : ∀ {a b : RequestInfo}, apart a b = true → a.method = b.method →
      (words a.path).length = (words b.path).length →
      Patterns.clash isParam (words a.path) (words b.path) = true := by
    intro a b h hm hl
    simpa only [apart, hm, hl, bne_self_eq_false, Bool.false_or] using h
  rcases Nat.lt_or_gt_of_ne hij with hlt | hlt
  · exact hapart (hall i j hi' hj' hlt) hmethod hlen
  · exact Patterns.clash_symm (hapart (hall j i hj' hi' hlt) hmethod.symm hlen.symm)

/-- An entry that agrees leaves nothing to the others of its method. -/
theorem alone_of_agrees {url : Text} {i j : ℕ} {a b : RequestInfo} (hi : httpReqCmd[i]? = some a)
    (hj : httpReqCmd[j]? = some b) (hij : i ≠ j) (hmethod : a.method = b.method)
    (hb : agrees url b.path = true) : agrees url a.path = false ∧ written url a.path = [] := by
  obtain ⟨hlenb, hpassb⟩ := passes_of_agrees hb
  rw [agrees, written]
  cases heq : urlParamNumIsEqual url a.path with
  | false => exact ⟨rfl, rfl⟩
  | true =>
    have hlen : (words a.path).length = (words url).length := beq_iff_eq.mp heq
    have hclash := clash_of_ne hi hj hij hmethod (hlen.trans hlenb.symm)
    have hnot := Patterns.not_passes_of_clash hclash hlenb hpassb
    have htaken := Patterns.taken_of_clash hclash hlenb hpassb
    refine ⟨?_, by rw [htaken, ite_self]⟩
    rw [← Bool.not_eq_true]
    intro ha
    have hagrees : agrees url a.path = true := by rwa [agrees, heq]
    exact absurd (passes_of_agrees hagrees).2 (Bool.not_eq_true _ ▸ hnot)

/-! ### A request -/

/-- Entries that do not agree are passed over. -/
theorem tryEntries_append {url : Text} {pre : List (RequestInfo × ℕ)}
    (rest : List (RequestInfo × ℕ)) {cl : Client} (hpath : cl.path = some url)
    (hpre : ∀ x ∈ pre, x.1.method = cl.method → agrees url x.1.path = false) :
    cl.tryEntries (pre ++ rest) =
      (((pre.filter fun x => x.1.method == cl.method).flatMap fun x => written url x.1.path).foldl
        Client.write cl).tryEntries rest := by
  induction pre generalizing cl with
  | nil => rfl
  | cons x pre ih =>
    rw [List.forall_mem_cons] at hpre
    rw [List.cons_append, Client.tryEntries]
    by_cases hm : x.1.method = cl.method
    · have hx := hpre.1 hm
      rw [if_neg (not_not.mpr hm.symm), parseFormatUrl_eq hpath, hx]
      dsimp only
      rw [if_neg Bool.false_ne_true, if_neg (by decide), ih (by rw [foldl_write_path, hpath])
        (by rw [foldl_write_method]; exact hpre.2),
        List.filter_cons_of_pos (by simpa using hm), List.flatMap_cons, List.foldl_append,
        foldl_write_method]
    · rw [if_pos (Ne.symm hm), ih hpath hpre.2, List.filter_cons_of_neg (by simpa using hm)]

/-- The entry at the front agrees and has an action. -/
theorem tryEntries_cons_of_agrees {info : RequestInfo} (i : ℕ) (rest : List (RequestInfo × ℕ))
    {cl : Client} {url : Text} (hpath : cl.path = some url) (hmethod : cl.method = info.method)
    (ha : agrees url info.path = true) (hruns : info.dispatchCmd = -1) :
    cl.tryEntries ((info, i) :: rest) =
      ({ (written url info.path).foldl Client.write cl with
          ran := ((written url info.path).foldl Client.write cl).ran ++ [i] }, .done) := by
  rw [Client.tryEntries, if_neg (not_not.mpr hmethod), parseFormatUrl_eq hpath, ha]
  dsimp only
  rw [if_pos rfl, if_pos rfl, if_pos hruns]

theorem getElem?_of_mem_zipIdx {x : RequestInfo × ℕ} (hx : x ∈ httpReqCmd.zipIdx) :
    httpReqCmd[x.2]? = some x.1 := List.mem_zipIdx_iff_getElem?.mp hx

/-- An entry of the method that agrees: its parameters are written and its action is called. -/
theorem httpOnRequest_of_agrees {method : String} {url : Text} {i : ℕ} {info : RequestInfo}
    (hi : httpReqCmd[i]? = some info) (hmethod : info.method = method)
    (ha : agrees url info.path = true) :
    (Client.request method (some url)).httpOnRequest =
      ({ (written url info.path).foldl Client.write (Client.request method (some url)) with
          ran := [i] }, .done) := by
  subst hmethod
  obtain ⟨hlt, hget⟩ := List.getElem?_eq_some_iff.mp hi
  have hlt' : i < httpReqCmd.zipIdx.length := by rwa [List.length_zipIdx]
  have hsplit : httpReqCmd.zipIdx =
      httpReqCmd.zipIdx.take i ++ (info, i) :: httpReqCmd.zipIdx.drop (i + 1) := by
    conv_lhs => rw [← List.take_append_drop i httpReqCmd.zipIdx, List.drop_eq_getElem_cons hlt']
    rw [List.getElem_zipIdx, hget, Nat.zero_add]
  -- The entries of the method before this one neither agree nor write.
  have hothers : ∀ x ∈ httpReqCmd.zipIdx.take i, x.1.method = info.method →
      agrees url x.1.path = false ∧ written url x.1.path = [] := by
    intro x hx hm
    obtain ⟨k, hk, rfl⟩ := List.mem_take_iff_getElem.mp hx
    have hne : k ≠ i := Nat.ne_of_lt (Nat.lt_of_lt_of_le hk (Nat.min_le_left _ _))
    refine alone_of_agrees (i := k) ?_ hi hne hm ha
    have hmem := getElem?_of_mem_zipIdx (List.mem_of_mem_take hx)
    rw [List.getElem_zipIdx, Nat.zero_add] at hmem ⊢
    exact hmem
  have hnone : ((httpReqCmd.zipIdx.take i).filter fun x => x.1.method == info.method).flatMap
      (fun x => written url x.1.path) = [] := by
    rw [List.flatMap_eq_nil_iff]
    intro x hx
    rw [List.mem_filter, beq_iff_eq] at hx
    exact (hothers x hx.1 hx.2).2
  have hruns := (wellFormed_of_mem (List.mem_of_getElem? hi)).runs
  have hpath : (Client.request info.method (some url)).path = some url := rfl
  rw [Client.httpOnRequest, hpath]
  dsimp only
  rw [hsplit, tryEntries_append _ hpath fun x hx hm => (hothers x hx hm).1]
  -- The client still has the request's method.
  change ((((httpReqCmd.zipIdx.take i).filter fun x => x.1.method == info.method).flatMap fun x =>
    written url x.1.path).foldl Client.write _).tryEntries _ = _
  rw [hnone, List.foldl_nil, tryEntries_cons_of_agrees _ _ hpath rfl ha hruns, foldl_write_ran]
  rfl

/-- No entry of the method agrees: whatever they write stays, and the file service takes over. -/
theorem httpOnRequest_of_none {method : String} {url : Text}
    (hnone : ∀ info ∈ httpReqCmd, info.method = method → agrees url info.path = false) :
    (Client.request method (some url)).httpOnRequest =
      ({ ((httpReqCmd.zipIdx.filter fun x => x.1.method == method).flatMap fun x =>
          written url x.1.path).foldl Client.write (Client.request method (some url)) with
          dispatchCmd := some 0 }, .continue) := by
  have hall : ∀ x ∈ httpReqCmd.zipIdx, x.1.method = method → agrees url x.1.path = false :=
    fun x hx => hnone x.1 (List.mem_of_getElem? (getElem?_of_mem_zipIdx hx))
  have hpath : (Client.request method (some url)).path = some url := rfl
  have h := tryEntries_append [] hpath hall
  rw [List.append_nil] at h
  exact h

end M57Card.Rest
