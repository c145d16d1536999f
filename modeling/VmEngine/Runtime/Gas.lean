/-
  Gas (`gas/gas.go`, `gas/gas_old.go`, `gas/gas2312.go`).

  A charge function takes the gas used so far and returns the new amount with an
  error.  All of them add a price in `uint64` arithmetic and compare the sum with the
  limit; on an error they return the amount 0 (`charge`).
-/
import VmEngine.Runtime.Messages

namespace VmEngine.Runtime

/-- `uint64(len(b))`. -/
def goLen (b : Bytes) : UInt64 := UInt64.ofNat b.length

def version2310 : UInt32 := 2030100
def version2312 : UInt32 := 2030102

/-- The text of the newer charge functions. -/
def overGasLimited : Bytes := text "over gas limited"

/-- The text of the older charge functions, which ends in a blank. -/
def overGasLimitedBlank : Bytes := text "over gas limited "

variable (P : Protocol)

/-- `CheckGasLimit`. -/
def checkGasLimit (gasUsed : UInt64) : Bool := gasUsed > P.gasLimit

/-- Add a price, which may itself fail to be computed, and check the limit. -/
def charge (limitErr : Bytes) (gasUsed : UInt64) (price : Except Bytes UInt64) :
    UInt64 × Option Bytes :=
  match price with
  | .error err => (0, some err)
  | .ok c => if checkGasLimit P (gasUsed + c) then (0, some limitErr) else (gasUsed + c, none)

/-! ## Prices -/

def getStateGasPrice : UInt64 := 1
def getBatchStateGasPrice : UInt64 := 1
def putStateGasPrice : UInt64 := 10
def emitEventGasPrice : UInt64 := 5
def kvIteratorCreateGasPrice : UInt64 := 1
def kvIteratorNextGasPrice : UInt64 := 1
def keyHistoryIterCreateGasPrice : UInt64 := 1
def keyHistoryIterHasNextGasPrice : UInt64 := 1
def getSenderAddressGasPrice : UInt64 := 1
def defaultInvokeBaseGas : UInt64 := 10000
def initFuncGas : UInt64 := 1250

def initContract : Bytes := text "init_contract"
def upgradeContract : Bytes := text "upgrade"

def putStatePrice (contractName key field value : Bytes) : UInt64 :=
  (goLen value + goLen (contractName ++ key ++ field)) * putStateGasPrice

def emitEventPrice (event : ContractEvent) : Except Bytes UInt64 :=
  (P.marshalContractEvent event).map fun b => goLen b * emitEventGasPrice

/-- The gas price of the chain's configuration, 0 without one. -/
def invokeGasPrice (gasConfig : Option GasConfig) : Float32 :=
  match gasConfig with
  | some c => c.gasPriceForInvoke
  | none => 0

/-- The price of data of a size since version 2312. -/
def dataPrice (gasConfig : Option GasConfig) (dataSize : ℕ) : Except Bytes UInt64 :=
  P.multiplyGasPrice dataSize (invokeGasPrice gasConfig)

/-! ## Before version 2312 -/

def getStateGasUsedLt2312 (gasUsed : UInt64) (value : Bytes) : UInt64 × Option Bytes :=
  charge P overGasLimitedBlank gasUsed (.ok (goLen value * getStateGasPrice))

def getBatchStateGasUsedLt2312 (gasUsed : UInt64) (payload : Bytes) : UInt64 × Option Bytes :=
  charge P overGasLimitedBlank gasUsed (.ok (goLen payload * getBatchStateGasPrice))

def putStateGasUsedLt2312 (gasUsed : UInt64) (contractName key field value : Bytes) :
    UInt64 × Option Bytes :=
  charge P overGasLimitedBlank gasUsed (.ok (putStatePrice contractName key field value))

def emitEventGasUsedLt2312 (gasUsed : UInt64) (contractEvent : ContractEvent) :
    UInt64 × Option Bytes :=
  charge P overGasLimitedBlank gasUsed (emitEventPrice P contractEvent)

def getInitFuncGasUsed (gasUsed configDefaultGas : UInt64) : UInt64 :=
  if configDefaultGas = 0 then gasUsed + defaultInvokeBaseGas + initFuncGas
  else gasUsed + configDefaultGas + initFuncGas

def initFuncGasUsedLt2312 (gasUsed configDefaultGas : UInt64) : UInt64 × Option Bytes :=
  charge P overGasLimitedBlank (getInitFuncGasUsed gasUsed configDefaultGas) (.ok 0)

def contractGasUsed (gasUsed : UInt64) (method contractName byteCode : Bytes) :
    UInt64 × Option Bytes :=
  let gasUsed := if method = initContract then
      gasUsed + (goLen (contractName ++ P.prefixContractByteCode) + goLen byteCode) * putStateGasPrice
    else gasUsed
  let gasUsed := if method = upgradeContract then gasUsed + goLen byteCode * putStateGasPrice
    else gasUsed
  charge P overGasLimitedBlank gasUsed (.ok 0)

def createKeyHistoryIterGasUsedLt2312 (gasUsed : UInt64) : UInt64 × Option Bytes :=
  charge P overGasLimited gasUsed (.ok (10 * keyHistoryIterCreateGasPrice))

def consumeKeyHistoryIterGasUsedLt2312 (gasUsed : UInt64) : UInt64 × Option Bytes :=
  charge P overGasLimited gasUsed (.ok (10 * keyHistoryIterHasNextGasPrice))

def createKvIteratorGasUsedLt2312 (gasUsed : UInt64) : UInt64 × Option Bytes :=
  charge P overGasLimited gasUsed (.ok (10 * kvIteratorCreateGasPrice))

def consumeKvIteratorGasUsedLt2312 (gasUsed : UInt64) : UInt64 × Option Bytes :=
  charge P overGasLimited gasUsed (.ok (10 * kvIteratorNextGasPrice))

/-! ## Since version 2312

State access, events and the consumption of iterators are free. -/

def putStateGasUsed2312 (_gasConfig : Option GasConfig) (gasUsed : UInt64)
    (_contractName _key _field _value : Bytes) : UInt64 × Option Bytes := (gasUsed, none)

def getStateGasUsed2312 (_gasConfig : Option GasConfig) (gasUsed : UInt64)
    (_contractName _key _field _value : Bytes) : UInt64 × Option Bytes := (gasUsed, none)

def getBatchStateGasUsed2312 (_gasConfig : Option GasConfig) (gasUsed : UInt64) (_payload : Bytes) :
    UInt64 × Option Bytes := (gasUsed, none)

def emitEventGasUsed2312 (_gasConfig : Option GasConfig) (gasUsed : UInt64)
    (_contractEvent : ContractEvent) : UInt64 × Option Bytes := (gasUsed, none)

def consumeKeyHistoryIterGasUsed2312 (_gasConfig : Option GasConfig) (gasUsed : UInt64) :
    UInt64 × Option Bytes := (gasUsed, none)

def consumeKvIteratorGasUsed2312 (_gasConfig : Option GasConfig) (gasUsed : UInt64) :
    UInt64 × Option Bytes := (gasUsed, none)

def consumeKvIteratorNextGasUsed2312 (_gasConfig : Option GasConfig) (gasUsed : UInt64)
    (_key _field _value : Bytes) : UInt64 × Option Bytes := (gasUsed, none)

def consumeKeyHistoryIterNextGasUsed2312 (_gasConfig : Option GasConfig) (gasUsed : UInt64)
    (_value : Bytes) : UInt64 × Option Bytes := (gasUsed, none)

def createKeyHistoryIterGasUsed2312 (gasConfig : Option GasConfig) (params : Payload)
    (gasUsed : UInt64) : UInt64 × Option Bytes :=
  charge P overGasLimited gasUsed (dataPrice P gasConfig
    ((params.get .historyIterKey).length + (params.get .historyIterField).length))

def createKvIteratorGasUsed2312 (gasConfig : Option GasConfig) (params : Payload)
    (gasUsed : UInt64) : UInt64 × Option Bytes :=
  charge P overGasLimited gasUsed (dataPrice P gasConfig
    ((params.get .iterStartKey).length + (params.get .iterStartField).length +
      (params.get .iterLimitKey).length + (params.get .iterLimitField).length))

/-- A parameter that is not charged: its name begins and ends with two underscores. -/
def builtinParameter (key : Bytes) : Bool :=
  (text "__").isPrefixOf key && (text "__").isSuffixOf key

/-- The size of a call: names and parameters, without the built-in ones. -/
def callDataSize (contractName contractMethod : Bytes) (parameters : GoMap) : ℕ :=
  parameters.entries.foldl
    (fun n e => if builtinParameter e.1 then n else n + (e.1.length + e.2.length))
    (contractName.length + contractMethod.length)

def callContractGasUsed2312 (gasConfig : Option GasConfig) (gasUsed : UInt64)
    (contractName contractMethod : Bytes) (parameters : GoMap) : UInt64 × Option Bytes :=
  charge P overGasLimited gasUsed
    (dataPrice P gasConfig (callDataSize contractName contractMethod parameters))

/-! ## By block version -/

def getSenderAddressGasUsed (gasUsed : UInt64) : UInt64 × Option Bytes :=
  charge P overGasLimited gasUsed (.ok (10 * getSenderAddressGasPrice))

variable (blockVersion : UInt32) (gasConfig : Option GasConfig)

def putStateGasUsed (gasUsed : UInt64) (contractName key field value : Bytes) :
    UInt64 × Option Bytes :=
  if blockVersion < version2312 then putStateGasUsedLt2312 P gasUsed contractName key field value
  else putStateGasUsed2312 gasConfig gasUsed contractName key field value

def getStateGasUsed (gasUsed : UInt64) (contractName key field value : Bytes) :
    UInt64 × Option Bytes :=
  if blockVersion < version2312 then getStateGasUsedLt2312 P gasUsed value
  else getStateGasUsed2312 gasConfig gasUsed contractName key field value

def getBatchStateGasUsed (gasUsed : UInt64) (payload : Bytes) : UInt64 × Option Bytes :=
  if blockVersion < version2312 then getBatchStateGasUsedLt2312 P gasUsed payload
  else getBatchStateGasUsed2312 gasConfig gasUsed payload

def emitEventGasUsed (gasUsed : UInt64) (contractEvent : ContractEvent) : UInt64 × Option Bytes :=
  if blockVersion < version2312 then emitEventGasUsedLt2312 P gasUsed contractEvent
  else emitEventGasUsed2312 gasConfig gasUsed contractEvent

def createKeyHistoryIterGasUsed (params : Payload) (gasUsed : UInt64) : UInt64 × Option Bytes :=
  if blockVersion < version2312 then createKeyHistoryIterGasUsedLt2312 P gasUsed
  else createKeyHistoryIterGasUsed2312 P gasConfig params gasUsed

def consumeKeyHistoryIterGasUsed (gasUsed : UInt64) : UInt64 × Option Bytes :=
  if blockVersion < version2312 then consumeKeyHistoryIterGasUsedLt2312 P gasUsed
  else consumeKeyHistoryIterGasUsed2312 gasConfig gasUsed

def createKvIteratorGasUsed (params : Payload) (gasUsed : UInt64) : UInt64 × Option Bytes :=
  if blockVersion < version2312 then createKvIteratorGasUsedLt2312 P gasUsed
  else createKvIteratorGasUsed2312 P gasConfig params gasUsed

def consumeKvIteratorGasUsed (gasUsed : UInt64) : UInt64 × Option Bytes :=
  if blockVersion < version2312 then consumeKvIteratorGasUsedLt2312 P gasUsed
  else consumeKvIteratorGasUsed2312 gasConfig gasUsed

def callContractGasUsed (gasUsed : UInt64) (contractName contractMethod : Bytes)
    (parameters : GoMap) : UInt64 × Option Bytes :=
  if blockVersion < version2312 then (gasUsed, none)
  else callContractGasUsed2312 P gasConfig gasUsed contractName contractMethod parameters

end VmEngine.Runtime
