import LogCatalog.Json.Writer

/-!
# Why settings are refused
-/
namespace LogCatalog

/-- Why a file's text cannot be had. -/
inductive ReadFailure where
  | directory
  | notText
  | other (detail : String)

def ReadFailure.message : ReadFailure → String
  | .directory => "Is a directory (os error 21)"
  | .notText => "stream did not contain valid UTF-8"
  | .other detail => detail

/-- Why a text does not set any fields. -/
inductive FormFailure where
  | unparsed
  | unknownField (name : String)
  | notMapping (got : Json)
  | other (detail : String)

def FormFailure.message : FormFailure → String
  | .unparsed => "<parser>"
  | .unknownField name => "unknown field `" ++ name ++ "`"
  | .notMapping got => "expected a mapping at the top level, got " ++ got.compact
  | .other detail => detail

/-- Why a field does not take a value. -/
inductive ValueFailure where
  | notNatural (field : String) (got : Json)
  | zero (field : String)
  | exceedsWord (field : String) (got : UInt64)
  | exceedsWorkers (field : String) (got : UInt64) (limit : UInt64)
  | other (detail : String)

def ValueFailure.message : ValueFailure → String
  | .notNatural field got => field ++ ": expected non-negative integer, got " ++ got.compact
  | .zero field => field ++ ": must be greater than zero"
  | .exceedsWord field got => field ++ ": value " ++ toString got.toNat ++ " exceeds u32"
  | .exceedsWorkers field got limit =>
    field ++ ": value " ++ toString got.toNat ++ " exceeds " ++ toString limit.toNat
  | .other detail => detail

inductive SettingsError where
  | unreadable (cause : ReadFailure)
  | invalid (cause : FormFailure)
  | invalidValue (cause : ValueFailure)

def SettingsError.message : SettingsError → String
  | .unreadable cause => "io error: " ++ cause.message
  | .invalid cause => "invalid config: " ++ cause.message
  | .invalidValue cause => "invalid value: " ++ cause.message

end LogCatalog
