import Timetable.Config
import Timetable.Text.Blank
import Timetable.Text.Quoted

/-!
# Configuration from the environment

Every setting has a variable. A variable that is not set leaves the default; one that is set has to
be text and, blanks at its ends apart, a value of the setting's type. The pool may be sized by the
number of processors first, which explicit sizes override.
-/
namespace Timetable

/-- The value of a variable: a text, or bytes that are none. -/
inductive EnvValue where
  | text (s : String)
  | bytes (b : List UInt8)
deriving DecidableEq, Repr

/-- The value that the bytes make. -/
def EnvValue.ofBytes (b : List UInt8) : EnvValue :=
  match Text.ofBytes? b with
  | some s => .text (String.ofList s)
  | none => .bytes b

/-- The variables that are set, by name. -/
abbrev Environment := String → Option EnvValue

/-- Why a text is no value of its type. -/
inductive ValueFault where
  | emptyNumber
  | badDigit
  | tooLarge
  | notBoolean
deriving DecidableEq, Repr

/-- The sentence for a fault. -/
def ValueFault.message : ValueFault → String
  | emptyNumber => "cannot parse integer from empty string"
  | badDigit => "invalid digit found in string"
  | tooLarge => "number too large to fit in target type"
  | notBoolean => "provided string was not `true` or `false`"

/-- Why an environment makes no configuration. -/
inductive EnvFault where
  | unreadable (name raw : String) (fault : ValueFault)
  | notText (name : String) (bytes : List UInt8)
  | invalid (fault : ConfigFault)
deriving DecidableEq, Repr

/-- The sentence for a fault. -/
def EnvFault.message : EnvFault → String
  | unreadable name raw fault => name ++ ": cannot parse `" ++ raw ++ "`: " ++ fault.message
  | notText name bytes =>
    name ++ ": environment variable was not valid unicode: " ++ Text.quotedBytes bytes
  | invalid fault => fault.message

namespace Environment

/-- The digits read on from a number, as long as it fits a 64-bit word. -/
def readDigits (value : Nat) : List Char → Except ValueFault UInt64
  | [] => .ok (UInt64.ofNat value)
  | c :: cs =>
    if !c.isDigit then .error .badDigit
    else
      let value := value * 10 + (c.toNat - '0'.toNat)
      if value < wordLimit then readDigits value cs else .error .tooLarge

/-- A decimal number that fits a 64-bit word, perhaps after a plus sign. -/
def readNumber : List Char → Except ValueFault UInt64
  | [] => .error .emptyNumber
  | ['+'] => .error .badDigit
  | '+' :: digits => readDigits 0 digits
  | digits => readDigits 0 digits

/-- The words `true` and `false`. -/
def readFlag (s : List Char) : Except ValueFault Bool :=
  if s = "true".toList then .ok true
  else if s = "false".toList then .ok false
  else .error .notBoolean

/-- What the names of all variables begin with. -/
def namesBegin : String := "TASK_SCHEDULER_"

/-- The value of a variable, or the default if it is not set. -/
def get {α : Type} (env : Environment) (name : String)
    (read : List Char → Except ValueFault α) (default : α) : Except EnvFault α :=
  match env (namesBegin ++ name) with
  | none => .ok default
  | some (.bytes b) => .error (.notText (namesBegin ++ name) b)
  | some (.text raw) =>
    match read (Text.trimmed raw.toList) with
    | .ok value => .ok value
    | .error fault => .error (.unreadable (namesBegin ++ name) raw fault)

/-- The configuration that the variables make, whether it is valid or not. -/
def settings (env : Environment) (processors : UInt64) : Except EnvFault Config := do
  let sized ← env.get "POOL_SIZE_FOR_CPUS" readFlag false
  let c : Config := if sized then ({} : Config).sizedFor processors else {}
  let tickIntervalMs ← env.get "TICK_INTERVAL_MS" readNumber c.tickIntervalMs
  let corePoolSize ← env.get "CORE_POOL_SIZE" readNumber c.corePoolSize
  let maxPoolSize ← env.get "MAX_POOL_SIZE" readNumber c.maxPoolSize
  let keepAliveMs ← env.get "KEEP_ALIVE_MS" readNumber c.keepAliveMs
  let retryDelayMs ← env.get "RETRY_DELAY_MS" readNumber c.retryDelayMs
  let shutdownGraceMs ← env.get "SHUTDOWN_GRACE_MS" readNumber c.shutdownGraceMs
  let threadStackSize ← env.get "THREAD_STACK_SIZE" readNumber c.threadStackSize
  let autoTick ← env.get "AUTO_TICK" readFlag c.autoTick
  return {
    tickIntervalMs, corePoolSize, maxPoolSize, keepAliveMs, retryDelayMs, shutdownGraceMs
    threadStackSize, autoTick }

end Environment

/-- The valid configuration that the variables make. -/
def Config.ofEnvironment (env : Environment) (processors : UInt64) : Except EnvFault Config := do
  let c ← env.settings processors
  match c.fault? with
  | some fault => .error (.invalid fault)
  | none => .ok c

end Timetable
