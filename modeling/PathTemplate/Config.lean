import PathTemplate.Numeric.Digits
import PathTemplate.Policy
import PathTemplate.Text.Quoted

namespace PathTemplate

structure DiskConfig where
  dir : String
  ttl : Option Nat := none
  deriving DecidableEq, Repr

structure Config where
  policy : Policy
  optimize : Bool := true
  maxDepth : Nat := 64
  capacity : Nat := 1024
  ttl : Option Nat := none
  sweepInterval : Option Nat := none
  disk : Option DiskConfig := none
  deriving DecidableEq, Repr

inductive ConfigError where
  | missing (var : String)
  | invalid (var value reason : String)
  deriving DecidableEq, Repr

def ConfigError.message : ConfigError → String
  | .missing var => var ++ " is not set"
  | .invalid var value reason => var ++ "=" ++ Text.quoted value ++ ": " ++ reason

namespace Config

def ofPolicy (policy : Policy) : Config := { policy }

/-- At least one program is kept. -/
def withCapacity (c : Config) (n : Nat) : Config := { c with capacity := max n 1 }

def parseBool (var raw : String) : Except ConfigError Bool :=
  let word := Policy.folded raw
  if ["true", "1", "yes", "on"].contains word then .ok true
  else if ["false", "0", "no", "off"].contains word then .ok false
  else .error (.invalid var raw "expected true or false")

/-- A number of up to 64 bits in decimal, with a plus sign allowed in front. -/
def parseNat? (s : String) : Option Nat :=
  let digits := match s.toList with
    | '+' :: rest => rest
    | cs => cs
  if digits.isEmpty || !digits.all Char.isDigit then none
  else
    let n := Numeric.natOfDigits digits
    if n < 18446744073709551616 then some n else none

/-- Seconds, at least one, in milliseconds. -/
def parseSeconds (var raw : String) : Except ConfigError Nat :=
  match parseNat? (Text.trim raw) with
  | some (n + 1) => .ok ((n + 1) * 1000)
  | _ => .error (.invalid var raw "expected a positive number of seconds")

def policyVar : String := "FPATH_POLICY"

def optimizeVar : String := "FPATH_OPTIMIZE"

def ttlVar : String := "FPATH_CACHE_TTL_SECS"

def sweepVar : String := "FPATH_SWEEP_INTERVAL_SECS"

def dirVar : String := "FPATH_CACHE_DIR"

/-- Reads the settings from variables. Only the policy has to be set. -/
def ofLookup (lookup : String → Option String) : Except ConfigError Config := do
  let raw ← match lookup policyVar with
    | some raw => pure raw
    | none => .error (.missing policyVar)
  let policy ← match Policy.ofText raw with
    | .ok p => pure p
    | .error reason => .error (.invalid policyVar raw reason)
  let optimize ← match lookup optimizeVar with
    | some raw => parseBool optimizeVar raw
    | none => pure true
  let ttl ← (lookup ttlVar).mapM (parseSeconds ttlVar)
  let sweepInterval ← (lookup sweepVar).mapM (parseSeconds sweepVar)
  let disk := match lookup dirVar with
    | some dir => if (Text.trim dir).isEmpty then none else some { dir, ttl }
    | none => none
  return { policy, optimize, ttl, sweepInterval, disk }

end Config

end PathTemplate
