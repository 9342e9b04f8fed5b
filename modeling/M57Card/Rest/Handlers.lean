import Mathlib.Algebra.Ring.Int.Defs
import Mathlib.Algebra.Ring.Nat
import M57Card.Lib.Json
import M57Card.Rest.Bindings

/-!
# The handlers that use the channel tables

The commands of the table that read or write the parameters of a channel: `channel[ch]`, the scan
points and scan segments of a channel and its subchannels. The channel and the subchannel come from
the path, the indices and the counts of the scan tables from the body. A handler is modelled by its
answer, by the elements it uses (each named once for a stretch of the code that uses no other), and
by the two counts that the scan loops read.

## Main definitions

* `strtol`, `strToInt`, `checkValidCh`, `checkValidSubch`.
* `Access`, `Config`, `Reply`.
* `parseJsonMutiPoint`, `parseJsonMultiBand`, `configWriteMidFreq`, `cmdChEnableSet`, ….
* `runAction`, `onRequest`, `executorPointsScan`.
-/

namespace M57Card.Rest

/-! ### Numbers from texts -/

/-- `isspace`. -/
def isSpace (c : Char) : Bool := c == ' ' || decide ('\t' ≤ c) && decide (c ≤ '\r')

/-- `strtol` with base 10, for a `long` of 64 bits; nothing where no digit is found. -/
def strtol (str : Text) : Option ℤ :=
  let (minus, rest) := match str.dropWhile isSpace with
    | '-' :: rest => (true, rest)
    | '+' :: rest => (false, rest)
    | rest => (false, rest)
  let digits := rest.takeWhile Char.isDigit
  if digits = [] then none
  else
    let n : ℤ := digits.foldl (fun n c => 10 * n + (c.toNat - '0'.toNat : ℕ)) 0
    some (max (-2 ^ 63) (min (2 ^ 63 - 1) (if minus then -n else n)))

/-- The conversion to `int`. -/
def toInt (n : ℤ) : ℤ := Int.bmod n (2 ^ 32)

/-- The conversion to `uint8_t`. -/
def toUint8 (n : ℤ) : ℤ := n % 2 ^ 8

/-- The conversion to `uint32_t`. -/
def toUint32 (n : ℤ) : ℤ := n % 2 ^ 32

/-- `str_to_int`: the value, where it is one and passes the check. -/
def strToInt (str : Option Text) (check : ℤ → Bool) : Option ℤ :=
  match str.bind strtol with
  | none => none
  | some n => if check (toInt n) then some (toInt n) else none

/-- `str_to_s64` without a check. -/
def strToS64 (str : Option Text) : Option ℤ := str.bind strtol

/-- `MAX_RADIO_CHANNEL_NUM`. -/
def maxRadioChannelNum : ℤ := 1

/-- `MAX_SIGNAL_CHANNEL_NUM`. -/
def maxSignalChannelNum : ℤ := 1

/-- `MAX_SIG_CHANNLE`. -/
def maxSigChannle : ℕ := 1

/-- `check_valid_ch`. -/
def checkValidCh (ch : ℤ) : Bool := if ch > maxRadioChannelNum then false else true

/-- `check_valid_subch`. -/
def checkValidSubch (subch : ℤ) : Bool := if subch > maxSignalChannelNum then false else true

/-- `check_valid_enable`. -/
def checkValidEnable (enable : ℤ) : Bool := if enable ≠ 0 ∧ enable ≠ 1 then false else true

/-! ### The tables of the channels -/

/-- An element of the tables of `poal_config->channel`. -/
inductive Access where
  | channel (ch : ℤ)
  | points (ch i : ℤ)
  | fregment (ch i : ℤ)
  | subCh (ch subch : ℤ)
  | subChEnable (ch subch : ℤ)

/-- The counts of a channel's scan tables. -/
structure ChannelPara where
  freqPointCnt : ℕ
  freqSegmentCnt : ℕ

/-- The parameters of the channels. -/
abbrev Config : Type := ℤ → ChannelPara

/-- The `RESP_CODE` values of these handlers. -/
inductive RespCode where
  | ok
  | parseErr
  | channelErr
  | pathParamErr
  deriving DecidableEq

/-- What a handler does: its answer (nothing where it passes NULL to `strcmp`), the elements it uses
and the parameters afterwards. -/
structure Reply where
  code : Option RespCode
  accesses : List Access
  config : Config

/-- `cJSON_GetObjectItem` and `cJSON_IsNumber`. -/
def numberItem (node : Json) (name : String) : Option ℤ := (node.getItem name).bind Json.number?

/-- The loop over the entries of a scan table. An entry with an index uses the element at the index,
then each entry uses the element at `subcid`, the last index so far as `uint32_t`. -/
def arrayAccesses (table : ℤ → Access) : ℤ → List Json → List Access
  | _, [] => []
  | subcid, node :: rest =>
    match numberItem node "index" with
    | some index =>
      table index :: table (toUint32 index) :: arrayAccesses table (toUint32 index) rest
    | none => table subcid :: arrayAccesses table subcid rest

/-- `parse_json_muti_point`. -/
def parseJsonMutiPoint (body : Option Json) (cid : ℤ) (config : Config) : Reply :=
  match body with
  | none => ⟨some .parseErr, [], config⟩
  | some root =>
    match root.getItem "array" with
    | none => ⟨some .ok, [.channel cid], config⟩
    | some mutiPoint =>
      ⟨some .ok, .channel cid :: arrayAccesses (.points cid) 0 mutiPoint.items,
        Function.update config cid { config cid with freqPointCnt := mutiPoint.items.length }⟩

/-- `parse_json_multi_band`; `stack` is what the uninitialised `subcid` holds. -/
def parseJsonMultiBand (body : Option Json) (cid : ℤ) (stack : ℕ) (config : Config) : Reply :=
  match body with
  | none => ⟨some .parseErr, [], config⟩
  | some root =>
    ⟨some .ok,
      .channel cid :: match root.getItem "array" with
        | none => []
        | some multiBand => arrayAccesses (.fregment cid) stack multiBand.items,
      match numberItem root "freqSegmentCnt" with
        | none => config
        | some n =>
          Function.update config cid { config cid with freqSegmentCnt := (toUint32 n).toNat }⟩

/-- `parse_json_demodulation`. -/
def parseJsonDemodulation (body : Option Json) (cid subid : ℤ) (config : Config) : Reply :=
  match body with
  | none => ⟨some .parseErr, [], config⟩
  | some _ => ⟨some .ok, [.channel cid, .subCh cid subid, .points cid 0], config⟩

/-- `parse_json_bddc`. -/
def parseJsonBddc (body : Option Json) (ch : ℤ) (config : Config) : Reply :=
  match body with
  | none => ⟨some .parseErr, [], config⟩
  | some _ => ⟨some .ok, [.channel ch, .points ch 0], config⟩

/-- `parse_json_rf_multi_value`. -/
def parseJsonRfMultiValue (body : Option Json) (cid : ℤ) (config : Config) : Reply :=
  match body with
  | none => ⟨some .parseErr, [], config⟩
  | some _ => ⟨some .ok, [.channel cid], config⟩

/-- The parameters of `if_types`. -/
inductive IfType where
  | muteSw | muteThre | midFreq | bandwith | decMethod | decBw | decMidFreq | smoothTime
  | smoothType | smoothThre | audioSampleRate | fftSize | resolution | audioVolCtrl | windowType
  deriving DecidableEq

/-- `if_types`. -/
def ifTypes : List (String × IfType) :=
  [("muteSwitch", .muteSw), ("muteThreshold", .muteThre), ("midFreq", .midFreq),
    ("bandwidth", .bandwith), ("decMethodId", .decMethod), ("decBandwidth", .decBw),
    ("decMidFreq", .decMidFreq), ("smoothTimes", .smoothTime), ("smoothMode", .smoothType),
    ("smoothThreshold", .smoothThre), ("audioSampleRate", .audioSampleRate), ("fftSize", .fftSize),
    ("freqResolution", .resolution), ("audioVolume", .audioVolCtrl), ("windowType", .windowType)]

/-- The parameters of `rf_types`. -/
inductive RfType where
  | midFreq | midBw | modeCode | gainMode | mgcGain | agcCtrlTime | agcOutputAmp | antennaSelect
  | attenuation | statusTemperat | calibrate
  deriving DecidableEq

/-- `rf_types`. -/
def rfTypes : List (String × RfType) :=
  [("midFreq", .midFreq), ("bandwidth", .midBw), ("modeCode", .modeCode), ("gainMode", .gainMode),
    ("mgcGain", .mgcGain), ("agcCtrlTime", .agcCtrlTime), ("agcOutPutAmp", .agcOutputAmp),
    ("antennaSelect", .antennaSelect), ("rfAttenuation", .attenuation),
    ("temperature", .statusTemperat), ("calibrate", .calibrate)]

/-- `find_idx_safe`. -/
def findIdxSafe {T : Type} (list : List (String × T)) (str : Text) : Option T :=
  (list.find? fun x => x.1.toList == str).map Prod.snd

/-- `config_write_data` with `EX_MID_FREQ_CMD`: the first scan point or the channel is written. -/
def configWriteMidFreq (type : Option IfType) (ch value : ℤ) : List Access :=
  match type with
  | some .muteSw => if toUint8 value > 1 then [] else [.points ch 0]
  | some .muteThre | some .midFreq | some .bandwith | some .decMethod | some .decBw | some .fftSize
  | some .resolution | some .audioVolCtrl => [.points ch 0]
  | some .smoothTime | some .smoothType | some .smoothThre | some .audioSampleRate
  | some .windowType => [.channel ch]
  | some .decMidFreq | none => []

/-- `config_write_data` with `EX_RF_FREQ_CMD`. -/
def configWriteRfFreq (type : Option RfType) (ch : ℤ) : List Access :=
  match type with
  | some .antennaSelect | some .statusTemperat | some .calibrate | none => []
  | some _ => [.channel ch]

/-! ### The handlers -/

section

variable (kv : Kvlist) (body : Option Json) (config : Config)

/-- The channel of the path, where `check_valid_ch` accepts it. -/
def pathCh : Option ℤ := strToInt (kvlistGet kv "ch".toList) checkValidCh

/-- The subchannel of the path, where `check_valid_subch` accepts it. -/
def pathSubch : Option ℤ := strToInt (kvlistGet kv "subch".toList) checkValidSubch

/-- A subchannel need not be there. -/
def optionalSubch : Bool := (kvlistGet kv "subch".toList).isNone || (pathSubch kv).isSome

/-- `cmd_muti_point`. -/
def cmdMutiPoint : Reply :=
  match pathCh kv with
  | none => ⟨some .channelErr, [], config⟩
  | some ch => parseJsonMutiPoint body (toUint8 ch) config

/-- `cmd_multi_band`. -/
def cmdMultiBand (stack : ℕ) : Reply :=
  match pathCh kv with
  | none => ⟨some .channelErr, [], config⟩
  | some ch => parseJsonMultiBand body (toUint8 ch) stack config

/-- `cmd_demodulation`. -/
def cmdDemodulation : Reply :=
  match pathCh kv with
  | none => ⟨some .channelErr, [], config⟩
  | some ch =>
    match pathSubch kv with
    | none => ⟨some .channelErr, [], config⟩
    | some subch => parseJsonDemodulation body (toUint8 ch) (toUint8 subch) config

/-- `cmd_bddc`. -/
def cmdBddc : Reply :=
  match pathCh kv with
  | none => ⟨some .channelErr, [], config⟩
  | some ch => parseJsonBddc body (toUint8 ch) config

/-- `cmd_if_single_value_set`; `executor_set_command` leaves the tables alone and returns 0. -/
def cmdIfSingleValueSet : Reply :=
  match pathCh kv with
  | none => ⟨some .channelErr, [], config⟩
  | some ch =>
    if optionalSubch kv then
      match strToS64 (kvlistGet kv "value".toList) with
      | none => ⟨some .pathParamErr, [], config⟩
      | some value =>
        if (kvlistGet kv "value2".toList).isSome && (strToS64 (kvlistGet kv "value2".toList)).isNone
        then ⟨some .pathParamErr, [], config⟩
        else
          match kvlistGet kv "type".toList with
          | none => ⟨none, [], config⟩
          | some sType =>
            ⟨some .ok, configWriteMidFreq (findIdxSafe ifTypes sType) (toUint8 ch) value, config⟩
    else ⟨some .channelErr, [], config⟩

/-- `cmd_if_multi_value_set`: the body is not read. -/
def cmdIfMultiValueSet : Reply :=
  match pathCh kv with
  | none => ⟨some .channelErr, [], config⟩
  | some _ => ⟨some .ok, [], config⟩

/-- `cmd_rf_single_value_set`. -/
def cmdRfSingleValueSet : Reply :=
  match pathCh kv with
  | none => ⟨some .channelErr, [], config⟩
  | some ch =>
    if optionalSubch kv then
      match strToS64 (kvlistGet kv "value".toList) with
      | none => ⟨some .pathParamErr, [], config⟩
      | some _ =>
        match kvlistGet kv "type".toList with
        | none => ⟨none, [], config⟩
        | some sType =>
          ⟨some .ok, configWriteRfFreq (findIdxSafe rfTypes sType) (toUint8 ch), config⟩
    else ⟨some .channelErr, [], config⟩

/-- `cmd_rf_multi_value_set`. -/
def cmdRfMultiValueSet : Reply :=
  match pathCh kv with
  | none => ⟨some .channelErr, [], config⟩
  | some ch =>
    if optionalSubch kv then parseJsonRfMultiValue body (toUint8 ch) config
    else ⟨some .channelErr, [], config⟩

/-- `cmd_ch_enable_set`. The channel is used as `int`; `EX_FFT_ENABLE_CMD` marks the channel again,
as `uint8_t`. -/
def cmdChEnableSet : Reply :=
  match pathCh kv with
  | none => ⟨some .channelErr, [], config⟩
  | some ch =>
    match strToInt (kvlistGet kv "value".toList) checkValidEnable with
    | none => ⟨some .channelErr, [], config⟩
    | some _ =>
      match kvlistGet kv "type".toList with
      | none => ⟨none, [.channel ch], config⟩
      | some sType =>
        if sType = "psd".toList ∨ sType = "audio".toList then
          ⟨some .ok, [.channel ch, .channel (toUint8 ch)], config⟩
        else if sType = "iq".toList ∨ sType = "biq".toList then
          ⟨some .ok, [.channel ch], config⟩
        else ⟨some .pathParamErr, [.channel ch], config⟩

/-- `cmd_subch_enable_set`. -/
def cmdSubchEnableSet : Reply :=
  match pathCh kv with
  | none => ⟨some .channelErr, [], config⟩
  | some ch =>
    match strToInt (kvlistGet kv "value".toList) checkValidEnable with
    | none => ⟨some .pathParamErr, [], config⟩
    | some _ =>
      match pathSubch kv with
      | none => ⟨some .channelErr, [], config⟩
      | some subch =>
        match kvlistGet kv "type".toList with
        | none => ⟨none, [.subChEnable ch subch], config⟩
        | some sType =>
          if sType = "iq".toList ∨ sType = "niq".toList ∨ sType = "audio".toList then
            ⟨some .ok, [.subChEnable ch subch], config⟩
          else ⟨some .pathParamErr, [.subChEnable ch subch], config⟩

/-- The elements that a command uses and the parameters afterwards; the other commands use none. -/
def runAction (action : Action) (stack : ℕ) : List Access × Config :=
  let answer (r : Reply) := (r.accesses, r.config)
  match action with
  | .cmdMutiPoint => answer (cmdMutiPoint kv body config)
  | .cmdMultiBand => answer (cmdMultiBand kv body config stack)
  | .cmdDemodulation => answer (cmdDemodulation kv body config)
  | .cmdBddc => answer (cmdBddc kv body config)
  | .cmdIfSingleValueSet => answer (cmdIfSingleValueSet kv config)
  | .cmdIfMultiValueSet => answer (cmdIfMultiValueSet kv config)
  | .cmdRfSingleValueSet => answer (cmdRfSingleValueSet kv config)
  | .cmdRfMultiValueSet => answer (cmdRfMultiValueSet kv body config)
  | .cmdChEnableSet => answer (cmdChEnableSet kv config)
  | .cmdSubchEnableSet => answer (cmdSubchEnableSet kv config)
  | _ => ([], config)

end

/-- A request: its method, its path, the tree that the library gives for its body, and what the
stack holds where `parse_json_multi_band` keeps `subcid`. -/
structure Request where
  method : String
  path : Text
  body : Option Json
  stack : ℕ

/-- The command that a request reaches. -/
def Request.called (r : Request) : Option Action :=
  (served r.method r.path).ran.head?.bind fun i => httpReqCmd[i]?.map RequestInfo.action

/-- The parameters of its path. -/
def Request.vars (r : Request) : Kvlist := (served r.method r.path).resetfulVar

/-- A request is served. -/
def onRequest (config : Config) (r : Request) : List Access × Config :=
  match r.called with
  | none => ([], config)
  | some action => runAction r.vars r.body config action r.stack

/-- The points of the loop from the point `i` on; `reset i` stops the work at a point. -/
def pointsFrom (ch : ℤ) (reset : ℕ → Bool) : ℕ → ℕ → List Access
  | _, 0 => []
  | i, n + 1 =>
    .points ch i :: .points ch 0 :: if reset i then [] else pointsFrom ch reset (i + 1) n

/-- `executor_points_scan`. -/
def executorPointsScan (config : Config) (ch : ℤ) (reset : ℕ → Bool) : List Access :=
  .channel ch :: pointsFrom ch reset 0 (config ch).freqPointCnt

end M57Card.Rest
