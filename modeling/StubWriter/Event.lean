import StubWriter.Path
import StubWriter.TypeInfo
import StubWriter.Text.Quoted

/-!
# The log

What a run reports beside its result. Each event has a level and belongs to a part of the program,
whose name stands in front of its text.
-/

namespace StubWriter

inductive LogLevel where
  | debug
  | info
  | warning
  | error
  deriving DecidableEq, Repr

def LogLevel.rank : LogLevel → Nat
  | .debug => 10
  | .info => 20
  | .warning => 30
  | .error => 40

def LogLevel.word : LogLevel → String
  | .debug => "DEBUG"
  | .info => "INFO"
  | .warning => "WARNING"
  | .error => "ERROR"

inductive Event where
  /-- A type is loaded from a unit. -/
  | loading (name origin : String)
  /-- The supertypes of a type are not all known. -/
  | ancestryEnds (name unknown : String)
  /-- A name that no source declares is taken to be in a package. -/
  | assumed (name full : String)
  /-- The superclass chain of a type. -/
  | chain (name : String) (types : List String)
  /-- A slot that the stub fills. -/
  | stubbing (slot : Slot)
  | wroteSource (path : Path)
  | wroteArchive (path : Path)
  | compiling (command : List String)
  | compilerFailed (status : Int) (output : String)
  /-- A setting is no whole number. -/
  | badNumber (setting raw : String) (used : Int)
  deriving DecidableEq, Repr

namespace Event

def level : Event → LogLevel
  | .loading _ _ => .debug
  | .ancestryEnds _ _ => .debug
  | .assumed _ _ => .warning
  | .chain _ _ => .debug
  | .stubbing _ => .debug
  | .wroteSource _ => .info
  | .wroteArchive _ => .info
  | .compiling _ => .debug
  | .compilerFailed _ _ => .error
  | .badNumber _ _ _ => .warning

/-- The part of the program that reports the event. -/
def part : Event → String
  | .loading _ _ => "stubforge.adapters.java_adapter"
  | .ancestryEnds _ _ => "stubforge.adapters.java_adapter"
  | .assumed _ _ => "stubforge.adapters.java_adapter"
  | .chain _ _ => "stubforge.introspector"
  | .stubbing _ => "stubforge.resolver"
  | .wroteSource _ => "stubforge.emitter"
  | .wroteArchive _ => "stubforge.toolchain"
  | .compiling _ => "stubforge.toolchain"
  | .compilerFailed _ _ => "stubforge.toolchain"
  | .badNumber _ _ _ => "stubforge.config"

def text : Event → String
  | .loading name origin => s!"loading {name} from {origin}"
  | .ancestryEnds name unknown => s!"ancestry of {name} stops at unknown type {unknown}"
  | .assumed name full => s!"could not resolve type {name}, assuming {full}"
  | .chain name types => s!"ancestor chain of {name}: {Text.quotedList types}"
  | .stubbing slot => s!"stubbing {slot}"
  | .wroteSource path => s!"wrote {path}"
  | .wroteArchive path => s!"wrote {path}"
  | .compiling command => "running " ++ " ".intercalate command
  | .compilerFailed status output => s!"javac exited with {status}:\n{output}"
  | .badNumber setting raw used =>
    s!"{setting}={Text.quoted raw} is not a whole number; using {used}"

/-- The event in the form of a log line, without its end. -/
def line (e : Event) : String :=
  s!"{e.level.word} {e.part}: {e.text}"

/-- Whether the event is at least a warning. -/
def isWarning (e : Event) : Bool :=
  LogLevel.warning.rank ≤ e.level.rank

end Event

end StubWriter
