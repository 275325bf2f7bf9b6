/-!
# Failures of a remote listing
-/
namespace LogCatalog

inductive FetchError where
  | unavailable
  | transport (detail : String)
  | decode (detail : String)
deriving DecidableEq

def FetchError.message : FetchError → String
  | .unavailable => "logsearch unavailable"
  | .transport detail => "transport error: " ++ detail
  | .decode detail => "decode error: " ++ detail

end LogCatalog
