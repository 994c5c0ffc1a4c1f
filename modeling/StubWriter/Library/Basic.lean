import StubWriter.Failure
import StubWriter.Event
import StubWriter.TypeGraph
import StubWriter.Library.Platform

/-!
# The library of types

A library finds types by name: in the units given to it, in the sources below its roots, and among
those of the platform. A root is a directory or an archive of sources; a type `a.b.C` is looked for
in `a/b/C.java`. What was found, and what was not, is remembered.

* `findSource?`: the source that should declare a name, its own or that of a type it is nested in.
* `exists?`: whether a name can be taken for that of a type, without loading it.
-/

namespace StubWriter

/-- Where types are looked for, and what is known of them so far. -/
structure Library where
  roots : List Path
  tree : FileTree
  graph : TypeGraph
  /-- Names that were looked for in vain. -/
  missing : List String
  /-- Names without a source of their own. -/
  absent : List String
  /-- The entries of the archives that were opened. -/
  archives : List (Path × List String)
  /-- Names that the given units declare. -/
  known : List String
  /-- A bound on the number of types, and of names of types, that a search can come across. -/
  extent : Nat
  log : List Event

/-- A search in a library; what it learns stays known when it fails. -/
abbrev Lookup := EStateM Failure Library

/-- A source text and the place to name it by. -/
structure Source where
  unit : Except UnitFault CompilationUnit
  origin : String

namespace Library

/-- A library over roots. Every type and every name of one takes at least a byte of a source, or
belongs to the platform. The bytes count twice: a file may be read both as a source and as an archive
of sources. -/
def ofRoots (roots : List Path) (tree : FileTree) : Library :=
  { roots, tree, graph := .empty, missing := [], absent := [], archives := [], known := [],
    extent := 2 * tree.size + 128, log := [] }

/-- The library over a tree that has changed. What it has learned stays. -/
def withTree (l : Library) (tree : FileTree) : Library :=
  { l with tree, extent := l.extent + 2 * tree.size }

def report (e : Event) : Lookup Unit :=
  modify fun l => { l with log := l.log ++ [e] }

/-! ## Roots -/

def isArchiveName (p : Path) : Bool :=
  [".jar", ".zip"].contains p.suffix.toLower

/-- Whether a root is an archive, and not a directory of that name. -/
def isArchive (root : Path) : Disk Bool :=
  if isArchiveName root then Disk.isFile root else return false

/-- Asks the tree of files. -/
def ask {α : Type} (x : Disk α) : Lookup α := do
  match x (← get).tree with
  | .ok a _ => return a
  | .error e _ => throw (.system e)

def membersOf (content : Content) : Except ReadFault (List (String × ByteArray)) :=
  match content.members? with
  | some members => .ok members
  | none => .error .noArchive

/-- What a file of the tree holds, as an outcome. -/
def contentAt (tree : FileTree) (p : Path) : Except ReadFault Content :=
  match Disk.read p tree with
  | .ok content _ => .ok content
  | .error e _ => .error (.system e)

/-- The names in an archive, listed once. -/
def archiveEntries (root : Path) : Lookup (List String) := do
  match (← get).archives.lookup root with
  | some names => return names
  | none =>
    match contentAt (← get).tree root >>= membersOf with
    | .error fault => throw (.unreadableArchive root fault)
    | .ok members =>
      let names := members.map Prod.fst
      modify fun l => { l with archives := l.archives ++ [(root, names)] }
      return names

/-- The text of an entry of an archive, in UTF-8; of entries with one name the last one counts. -/
def readEntry (root : Path) (entry : String) : Lookup String := do
  match contentAt (← get).tree root >>= membersOf with
  | .error fault => throw (.unreadableEntry entry root fault)
  | .ok members =>
    match members.reverse.lookup entry with
    | none => throw (.lostEntry entry)
    | some bytes =>
      match Text.decodeUtf8 bytes with
      | .ok text => return text
      | .error fault => throw (.unreadableEntry entry root (.encoding fault))

/-- The text of a file, in UTF-8, with its line ends unified. -/
def readFile (p : Path) : Lookup String := do
  match contentAt (← get).tree p with
  | .error fault => throw (.unreadableSource p fault)
  | .ok content =>
    match Text.decodeUtf8 (content.bytes) with
    | .ok text => return String.ofList (Text.unifyLineEnds text.toList)
    | .error fault => throw (.unreadableSource p (.encoding fault))

/-- Whether a root has a file of a relative name. -/
def rootHas (relative : String) (root : Path) : Lookup Bool := do
  if ← ask (isArchive root) then return (← archiveEntries root).contains relative
  else ask (Disk.isFile (root / relative))

def readFromRoot (relative : String) (root : Path) : Lookup String := do
  if ← ask (isArchive root) then readEntry root relative else readFile (root / relative)

/-! ## Sources -/

/-- The file that declares a type, relative to a root. -/
def relativeSource (segments : List String) : String :=
  "/".intercalate segments ++ ".java"

/-- The files that may declare a type: its own, then those of the types it may be nested in. -/
def candidates (name : String) : List String :=
  let segments := splitText '.' name
  (List.range segments.length).map fun i => relativeSource (segments.take (segments.length - i))

/-- The first of the places that has a source. -/
def firstSource? : List (String × Path) → Lookup (Option Source)
  | [] => return none
  | (relative, root) :: rest => do
    if ← rootHas relative root then
      let text ← readFromRoot relative root
      return some ⟨CompilationUnit.ofText text, toString (root / relative)⟩
    else firstSource? rest

/-- The source that should declare a name. -/
def findSource? (name : String) : Lookup (Option Source) := do
  let roots := (← get).roots
  match ← firstSource? ((candidates name).flatMap fun relative => roots.map (relative, ·)) with
  | some source => return some source
  | none =>
    return (Platform.unit? name).map fun unit =>
      ⟨.ok unit, "<jdk>/" ++ relativeSource (splitText '.' name)⟩

/-- A name split before its last dot. -/
def splitName (name : String) : String × String :=
  let segments := splitText '.' name
  (".".intercalate segments.dropLast, segments.getLast?.getD "")

def anyRoot (relative : String) : List Path → Lookup Bool
  | [] => return false
  | root :: rest => do
    if ← rootHas relative root then return true else anyRoot relative rest

/-- Whether a name can be taken for that of a type: it is loaded, declared by a given unit, part of
the platform, or has a source of its own. -/
def exists? (name : String) : Lookup Bool := do
  let l ← get
  if l.graph.contains name || l.known.contains name || (Platform.unit? name).isSome then
    return true
  else if l.missing.contains name || l.absent.contains name then return false
  else if Platform.lists (splitName name).1 (splitName name).2 then return true
  else if ← anyRoot (relativeSource (splitText '.' name)) l.roots then return true
  else
    modify fun l => { l with absent := l.absent ++ [name] }
    return false

end Library

end StubWriter
