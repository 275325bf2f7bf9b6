/-!
# Settings of the catalog

Four fields with defaults, and the values that the catalog takes from them: nothing that the catalog
cannot work with, whatever the fields hold.
-/
namespace LogCatalog

/-- `cacheHours` is the lifetime of cached entries, `fetchTimeoutMs` the deadline of one listing,
`fetchWorkers` how many listings may run at once, `sweepSeconds` the time between two sweeps. -/
structure Settings where
  cacheHours : UInt32 := 24
  fetchTimeoutMs : UInt64 := 5000
  fetchWorkers : UInt64 := 1
  sweepSeconds : UInt64 := 300
deriving DecidableEq, Inhabited

/-- A field of the settings, by the name that texts use. -/
inductive Field where
  | cacheHours
  | fetchTimeoutMs
  | fetchWorkers
  | sweepSeconds
deriving DecidableEq

namespace Field

/-- The fields in the order of their declaration. -/
def all : List Field := [.cacheHours, .fetchTimeoutMs, .fetchWorkers, .sweepSeconds]

def name : Field → String
  | .cacheHours => "metadata_cache_expire_hours"
  | .fetchTimeoutMs => "fetch_timeout_ms"
  | .fetchWorkers => "fetch_workers"
  | .sweepSeconds => "maintenance_interval_secs"

def ofName? (name : String) : Option Field := all.find? fun f => f.name == name

end Field

namespace Settings

/-- The largest number of listings that may run at once. -/
def maxWorkers : UInt64 := 256

def get (s : Settings) : Field → UInt64
  | .cacheHours => s.cacheHours.toUInt64
  | .fetchTimeoutMs => s.fetchTimeoutMs
  | .fetchWorkers => s.fetchWorkers
  | .sweepSeconds => s.sweepSeconds

/-- Sets a field; the hours keep their low 32 bits. -/
def set (s : Settings) (f : Field) (n : UInt64) : Settings :=
  match f with
  | .cacheHours => { s with cacheHours := n.toUInt32 }
  | .fetchTimeoutMs => { s with fetchTimeoutMs := n }
  | .fetchWorkers => { s with fetchWorkers := n }
  | .sweepSeconds => { s with sweepSeconds := n }

end Settings

/-- What the catalog takes from its settings. All times but the hours are in milliseconds. -/
structure Policy where
  expireHours : Nat
  lifetime : Nat
  timeout : Nat := 5000
  workers : Nat := 1
  sweepEvery : Nat := 300000
deriving DecidableEq

/-- A policy that fixes nothing but the hours. -/
def Policy.ofHours (hours : UInt32) : Policy :=
  { expireHours := hours.toNat, lifetime := hours.toNat * 3600000 }

/-- The clock counts less than two to the 63rd seconds; these are as many milliseconds. -/
def clockRange : Nat := 9223372036854775807 * 1000

/-- Thirty years of 365 days. -/
def thirtyYears : Nat := 30 * 365 * 24 * 3600 * 1000

/-- The time from one sweep to the next. An interval that ends where the clock does not count any more is
taken as thirty years. -/
def Policy.sweepPeriod (p : Policy) : Nat :=
  if p.sweepEvery < clockRange then p.sweepEvery else thirtyYears

def Settings.policy (s : Settings) : Policy :=
  { expireHours := s.cacheHours.toNat
    lifetime := s.cacheHours.toNat * 3600000
    timeout := max s.fetchTimeoutMs.toNat 1
    workers := max 1 (min s.fetchWorkers.toNat maxWorkers.toNat)
    sweepEvery := max s.sweepSeconds.toNat 1 * 1000 }

end LogCatalog
