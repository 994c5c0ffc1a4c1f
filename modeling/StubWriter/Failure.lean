import StubWriter.FileTree
import StubWriter.Text.Utf8
import StubWriter.Grammar.Units
import StubWriter.TypeInfo

/-!
# Failures

Why no stub can be made, by cause. `Failure.kind` tells the stage that gave up, `Failure.message`
is the text for the user.
-/

namespace StubWriter

/-- Why the content of a file is no text. -/
inductive ReadFault where
  | system (e : OsError)
  | encoding (fault : Text.Utf8Fault)
  | noArchive
  deriving DecidableEq, Repr

def ReadFault.message : ReadFault → String
  | .system e => e.message
  | .encoding fault => fault.message
  | .noArchive => "File is not a zip file"

/-- Why a tree cannot be packed. -/
inductive PackFault where
  | system (e : OsError)
  | outside (entry base : Path)
  deriving DecidableEq, Repr

def PackFault.message : PackFault → String
  | .system e => e.message
  | .outside entry base => entry.outsideMessage base

/-- In which way a type is above another one. -/
inductive SupertypeRole where
  | superclass
  | interface
  deriving DecidableEq, Repr

def SupertypeRole.word : SupertypeRole → String
  | .superclass => "Superclass"
  | .interface => "Interface"

inductive Failure where
  /-- A primitive type has no stub. -/
  | primitiveTarget (name : String)
  /-- A final class has no stub. -/
  | finalTarget (name : String)
  /-- Enums and annotations have no stub. -/
  | closedTarget (name : String) (kind : TypeKind)
  /-- A class whose constructors are all private cannot be extended. -/
  | noConstructor (name : String)
  /-- The supertypes of a type lead back to it, so that a walk over them has no end. This stands for
  the stack that runs out under such a walk. It is no failure that anything looks for: it breaks a
  run off, and no type was refused, although its kind is the one of refused types. -/
  | endlessHierarchy (name : String)
  | typeNotFound (name : String)
  | supertypeNotFound (role : SupertypeRole) (name sub : String)
  /-- A name that no source declares and that several packages might. -/
  | severalGuesses (name : String) (packages : List String)
  /-- A name that several packages imported on demand declare. -/
  | ambiguousName (name : String) (candidates : List String)
  | badUnit (origin : String) (fault : UnitFault)
  | unreadableSource (path : Path) (fault : ReadFault)
  | unreadableArchive (root : Path) (fault : ReadFault)
  | unreadableEntry (entry : String) (root : Path) (fault : ReadFault)
  /-- An archive lost an entry after its entries had been listed. -/
  | lostEntry (entry : String)
  | cannotWrite (path : Path) (e : OsError)
  | noCompiler (program : String)
  | slowCompiler (seconds : Int)
  | compileStatus (path : Path) (status : Int)
  | cannotPack (path : Path) (fault : PackFault)
  /-- An archive needs a name. -/
  | namelessArchive (path : Path)
  /-- The system refuses to tell what a path leads to, or to remove the remains of an archive, or
  cannot be asked at all. -/
  | system (e : OsError)
  deriving DecidableEq, Repr

inductive FailureKind where
  | unsupportedTarget
  | noAccessibleConstructor
  | typeNotFound
  | sourceParse
  | archiveRead
  | emission
  | compilation
  | packaging
  | invalidArgument
  | missingKey
  | system (errno : Errno)
  deriving DecidableEq, Repr

namespace Failure

def kind : Failure → FailureKind
  | .primitiveTarget _ => .unsupportedTarget
  | .finalTarget _ => .unsupportedTarget
  | .closedTarget _ _ => .unsupportedTarget
  | .endlessHierarchy _ => .unsupportedTarget
  | .noConstructor _ => .noAccessibleConstructor
  | .typeNotFound _ => .typeNotFound
  | .supertypeNotFound _ _ _ => .typeNotFound
  | .severalGuesses _ _ => .typeNotFound
  | .ambiguousName _ _ => .typeNotFound
  | .badUnit _ _ => .sourceParse
  | .unreadableSource _ _ => .sourceParse
  | .unreadableArchive _ _ => .archiveRead
  | .unreadableEntry _ _ _ => .archiveRead
  | .lostEntry _ => .missingKey
  | .cannotWrite _ _ => .emission
  | .noCompiler _ => .compilation
  | .slowCompiler _ => .compilation
  | .compileStatus _ _ => .compilation
  | .cannotPack _ _ => .packaging
  | .namelessArchive _ => .invalidArgument
  | .system e => .system e.errno

def unitMessage (origin : String) : UnitFault → String
  | .lexical fault => s!"Failed to parse Java code in {origin}: {fault.message}"
  | .grammar stop => s!"Java syntax error in {origin}: {stop.message}"
  | .brokenHead => s!"Failed to parse Java code in {origin}: "

def message : Failure → String
  | .primitiveTarget name => s!"Type {name} is primitive"
  | .finalTarget name => s!"Class {name} is final"
  | .closedTarget name kind => s!"Type {name} is an {kind.word} and cannot be implemented"
  | .noConstructor name => s!"Class {name} has no non-private constructor"
  | .endlessHierarchy _ => "maximum recursion depth exceeded"
  | .typeNotFound name => s!"Type {name} not found on the source path"
  | .supertypeNotFound role name sub =>
    s!"{role.word} {name} of {sub} not found on the source path"
  | .severalGuesses name packages =>
    s!"Type {name} is not on the source path and could come from any of: " ++
      ", ".intercalate packages
  | .ambiguousName name candidates =>
    s!"Type {name} is ambiguous: " ++ ", ".intercalate candidates
  | .badUnit origin fault => unitMessage origin fault
  | .unreadableSource path fault => s!"Couldn't read {path}: {fault.message}"
  | .unreadableArchive root fault => s!"Couldn't read archive {root}: {fault.message}"
  | .unreadableEntry entry root fault => s!"Couldn't read {entry} from {root}: {fault.message}"
  | .lostEntry entry =>
    Text.quoted s!"There is no item named {Text.quoted entry} in the archive"
  | .cannotWrite path e => s!"Couldn't write {path}: {e.message}"
  | .noCompiler program => s!"Compiler executable '{program}' not found"
  | .slowCompiler seconds => s!"Compiler did not finish within {seconds}s"
  | .compileStatus path status => s!"Couldn't compile {path} (exit status {status})"
  | .cannotPack path fault => s!"Couldn't write archive {path}: {fault.message}"
  | .namelessArchive path => s!"PosixPath({Text.quoted path.toString}) has an empty name"
  | .system e => e.message

/-- The failure to write a file. A path that the system never sees is not worth naming. -/
def ofWriting (path : Path) (e : OsError) : Failure :=
  if e.errno == .nulInPath then .system e else .cannotWrite path e

/-- Whether the failure only says that a type was not found. -/
def isNotFound (f : Failure) : Bool :=
  f.kind == .typeNotFound

/-- Whether the failure is one to account for to the user. The others, walks without an end and
refusals where none was looked for, break a run off. -/
def isExpected : Failure → Bool
  | .endlessHierarchy _ => false
  | f =>
    match f.kind with
    | .invalidArgument | .missingKey | .system _ => false
    | _ => true

end Failure

end StubWriter
