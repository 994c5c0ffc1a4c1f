import StubWriter.Event
import StubWriter.Text.Numeral
import StubWriter.Text.UpperCase
import StubWriter.Text.Utf8

/-!
# Settings

What the environment may set: the encoding of sources, the roots to search, the compiler and its
time, and how much is logged. A variable that is missing or blank leaves the default.

Sources are read and written in UTF-8, the default, and compilers are told so. The name of another
encoding is read from the environment, but no run in another encoding is described: no run sees it.
-/

namespace StubWriter

/-- The variables of an environment; of two with one name the later one counts. -/
abbrev Environment := List (String × String)

/-- The settings of a run whose sources are in UTF-8. -/
structure Settings where
  sourcePath : List Path
  compiler : String
  timeout : Int
  logLevel : String
  deriving DecidableEq, Repr

/-- All that an environment asks for: the settings of a run, and the encoding of its sources. -/
structure Preferences extends Settings where
  encoding : String
  deriving DecidableEq, Repr

namespace Environment

/-- The value of a variable without blanks at its ends, unless nothing is left. -/
def value? (env : Environment) (name : String) : Option String :=
  ((env.reverse.lookup name).map Text.strip).filter fun value => !value.isEmpty

/-- A whole number, or the default with an event about a value that is none. -/
def number (env : Environment) (name : String) (default : Int) : Int × List Event :=
  match env.value? name with
  | none => (default, [])
  | some raw =>
    match Text.decimal? raw.toList with
    | some n => (n, [])
    | none => (default, [.badNumber name raw default])

end Environment

namespace Settings

/-- The paths of a list with colons between them; empty ones are dropped. -/
def pathsOf (list : String) : List Path :=
  ((splitText ':' list).filter fun part => !part.isEmpty).map Path.ofString

def defaultSourcePath : List Path :=
  [Path.ofString "."]

def sourcePathOf (env : Environment) : List Path :=
  match pathsOf ((env.value? "STUBFORGE_SOURCE_PATH").getD "") with
  | [] => defaultSourcePath
  | paths => paths

/-- What an environment asks for, with what there is to report about it. -/
def ofEnvironment (env : Environment) : Preferences × List Event :=
  let (timeout, log) := env.number "STUBFORGE_JAVAC_TIMEOUT" 300
  ({ encoding := (env.value? "STUBFORGE_ENCODING").getD Text.utf8Name
     sourcePath := sourcePathOf env
     compiler := (env.value? "STUBFORGE_JAVAC").getD "javac"
     timeout
     logLevel := ((env.value? "STUBFORGE_LOG_LEVEL").map Text.upperCase).getD "WARNING" }, log)

/-- The settings of an empty environment. -/
def default : Settings :=
  (ofEnvironment []).1.toSettings

/-- The lowest rank of events that are shown. -/
def logRank (s : Settings) : Nat :=
  match s.logLevel with
  | "NOTSET" => 0
  | "DEBUG" => LogLevel.debug.rank
  | "INFO" => LogLevel.info.rank
  | "ERROR" => LogLevel.error.rank
  | "CRITICAL" => 50
  | "FATAL" => 50
  | _ => LogLevel.warning.rank

end Settings

end StubWriter
