/-! Log levels, as they are named on the command line. -/

namespace Dxl

/-- How much is logged, from nothing to everything. -/
inductive LogLevel where
  | off
  | error
  | warn
  | info
  | debug
  | trace
deriving DecidableEq

namespace LogLevel

/-- The name of a level in reports. -/
def name : LogLevel → String
  | .off => "OFF"
  | .error => "ERROR"
  | .warn => "WARN"
  | .info => "INFO"
  | .debug => "DEBUG"
  | .trace => "TRACE"

/-- The level that a word asks for; warnings may be written in two ways. -/
def ofWord? : String → Option LogLevel
  | "off" => some .off
  | "trace" => some .trace
  | "debug" => some .debug
  | "info" => some .info
  | "warning" | "warn" => some .warn
  | "error" => some .error
  | _ => none

/-- What is said about a word that is no level. -/
def unknownMessage (word : String) : String :=
  "unknown log level `" ++ word
    ++ "`, expected one of `off`, `trace`, `debug`, `info`, `warning` or `error`"

end LogLevel

end Dxl
