import StubWriter.Text.Quoted

/-!
# Paths

A path is a list of segments behind zero, one or two leading slashes. Empty segments and `.` are
dropped when a path is read, `..` stays. The empty relative path is written `.`.
-/

namespace StubWriter

/-- `slashes` leading slashes (a relative path has none), then the segments. -/
structure Path where
  slashes : Nat
  segments : List String
  deriving DecidableEq, Repr, Inhabited

/-- The maximal pieces of `cs` between occurrences of `sep`, empty ones included. -/
def splitChars (sep : Char) : List Char → List (List Char)
  | [] => [[]]
  | c :: cs =>
    if c == sep then [] :: splitChars sep cs
    else
      match splitChars sep cs with
      | [] => [[c]]
      | piece :: pieces => (c :: piece) :: pieces

/-- The pieces of a text between occurrences of `sep`, empty ones included. -/
def splitText (sep : Char) (s : String) : List String :=
  (splitChars sep s.toList).map String.ofList

namespace Path

def isAbsolute (p : Path) : Bool :=
  p.slashes != 0

/-- Two leading slashes are a root of their own, any other number of them is one. -/
def ofString (s : String) : Path :=
  let slashes := (s.toList.takeWhile (· == '/')).length
  ⟨if slashes ≤ 2 then slashes else 1, (splitText '/' s).filter fun seg => seg != "" && seg != "."⟩

/-- The segments between slashes, without the `.` of the empty path. -/
def spelling (p : Path) : String :=
  String.ofList (List.replicate p.slashes '/') ++ "/".intercalate p.segments

def toString (p : Path) : String :=
  if p.slashes == 0 && p.segments.isEmpty then "." else p.spelling

instance : ToString Path := ⟨Path.toString⟩

/-- `q` seen from `p`; an absolute `q` stays as it is. -/
def join (p q : Path) : Path :=
  if q.isAbsolute then q else { p with segments := p.segments ++ q.segments }

/-- The path that a text spells, seen from `p`. -/
def child (p : Path) (s : String) : Path :=
  p.join (ofString s)

instance : HDiv Path String Path := ⟨child⟩

/-- The last segment, or nothing. -/
def name (p : Path) : String :=
  p.segments.getLast?.getD ""

/-- The directory of the last segment; a path without segments is its own. -/
def parent (p : Path) : Path :=
  { p with segments := p.segments.dropLast }

def withName (p : Path) (name : String) : Path :=
  { p with segments := p.segments.dropLast ++ [name] }

/-- A name split before its last dot, unless that dot is its first or last character. -/
def splitSuffix (name : String) : String × String :=
  let (revSuffix, revStem) := name.toList.reverse.span (· != '.')
  match revStem with
  | '.' :: rest@(_ :: _) =>
    if revSuffix.isEmpty then (name, "")
    else (String.ofList rest.reverse, String.ofList ('.' :: revSuffix.reverse))
  | _ => (name, "")

def stem (p : Path) : String :=
  (splitSuffix p.name).1

def suffix (p : Path) : String :=
  (splitSuffix p.name).2

/-- What remains of `p` below `base`, if `base` leads to it segment by segment. -/
def relativeTo? (p base : Path) : Option Path :=
  if p.slashes != base.slashes then none
  else if base.segments.isPrefixOf p.segments then
    some ⟨0, p.segments.drop base.segments.length⟩
  else none

/-- The complaint about a path that does not lie below a base. -/
def outsideMessage (p base : Path) : String :=
  s!"{Text.quoted p.toString} is not in the subpath of {Text.quoted base.spelling} " ++
    "OR one path is relative and the other is absolute."

end Path

end StubWriter
