import StubWriter.Failure
import StubWriter.Event

/-!
# Compilers

A compiler turns source files into class files and answers with a status, which is zero if it
succeeds. How a compiler program is called, and what follows from how it ends, is the same whatever
runs it.
-/

namespace StubWriter

/-- A call of a compiler, and the files at the time. -/
structure CompilerCall where
  classpath : List String
  sources : List Path
  tree : FileTree

/-- What a call of a compiler leaves behind. -/
structure Compiled where
  status : Except Failure Int
  tree : FileTree
  log : List Event

abbrev Compiler := CompilerCall → Compiled

/-- A compiler program and how long it may run. -/
structure CompilerProgram where
  program : String
  timeout : Int
  classpath : List String

/-- How a program ends. -/
inductive ProgramEnd where
  | notFound
  | timedOut
  | exited (status : Int) (output errors : String)

namespace CompilerProgram

/-- The words of a call: the encoding of the sources, the classpath unless it is empty, the sources.
Types that are only read get no class files. -/
def command (c : CompilerProgram) (sources : List Path) : List String :=
  [c.program, "-encoding", Text.utf8Name, "-implicit:none"] ++
    (if c.classpath.isEmpty then [] else ["-cp", ":".intercalate c.classpath]) ++
    sources.map toString

/-- What the end of a call amounts to. A program that fails is reported with its error output, or
else with its output. -/
def outcome (c : CompilerProgram) : ProgramEnd → Except Failure Int × List Event
  | .notFound => (.error (.noCompiler c.program), [])
  | .timedOut => (.error (.slowCompiler c.timeout), [])
  | .exited status output errors =>
    let shown := Text.strip (if errors.isEmpty then output else errors)
    (.ok status, if status == 0 then [] else [.compilerFailed status shown])

/-- A compiler that runs a program. -/
def run (c : CompilerProgram) (call : CompilerCall) (ending : ProgramEnd) (tree : FileTree) :
    Compiled :=
  let (status, log) := c.outcome ending
  ⟨status, tree, .compiling (c.command call.sources) :: log⟩

end CompilerProgram

end StubWriter
