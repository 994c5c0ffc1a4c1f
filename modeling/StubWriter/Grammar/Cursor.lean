import StubWriter.Token

/-!
# Reading tokens

A reader moves a cursor over the tokens of a unit. It stops at a token it does not expect, or when
it has to take a token and there is none.

`Reader.attempt` tries a reader and goes back if it meets an unexpected token. Where it goes back to
is kept in the cursor, because a nested attempt that succeeds moves that point of the attempt
around it to its own start.
-/

namespace StubWriter.Grammar

/-- The tokens ahead, and the tokens to go back to when the attempt under way fails. -/
structure Cursor where
  ahead : List Token
  mark : List Token
  deriving Repr

/-- What a token may have to be: a given text, or any token of a sort. -/
inductive Pattern where
  | text (s : String)
  | sort (s : TokenSort)
  deriving DecidableEq, Repr

instance : Coe String Pattern := ⟨.text⟩

instance : Coe TokenSort Pattern := ⟨.sort⟩

def Pattern.accepts (p : Pattern) (t : Token) : Bool :=
  match p with
  | .text s => t.text == s
  | .sort s => t.sort == s

/-- Why a reader stops. -/
inductive Stop where
  | expectedToken (p : Pattern)
  | expected (what : String)
  | arrayWithConstructorArguments
  | endOfInput
  deriving DecidableEq, Repr

def Stop.message : Stop → String
  | .expectedToken (.text s) => s!"Expected '{s}'"
  | .expectedToken (.sort s) => s!"Expected {s.name}"
  | .expected what => s!"Expected {what}"
  | .arrayWithConstructorArguments =>
    "Array creator not allowed with generic constructor type arguments"
  | .endOfInput => "Unexpected end of input"

abbrev Reader := EStateM Stop Cursor

namespace Reader

/-- The token `i` places ahead. -/
def look? (i : Nat) : Reader (Option Token) :=
  return (← get).ahead[i]?

/-- The text of the next token. -/
def lookText? : Reader (Option String) :=
  return (← look? 0).map (·.text)

def lookSort? : Reader (Option TokenSort) :=
  return (← look? 0).map (·.sort)

/-- Takes the next token, whatever it is. -/
def take : Reader Token := do
  match (← get).ahead with
  | t :: rest =>
    modify fun c => { c with ahead := rest }
    return t
  | [] => throw .endOfInput

/-- Takes a token that a pattern accepts. -/
def accept (p : Pattern) : Reader String := do
  let t ← take
  if p.accepts t then return t.text else throw (.expectedToken p)

def acceptAll : List Pattern → Reader Unit
  | [] => return
  | p :: ps => do
    let _ ← accept p
    acceptAll ps

/-- Whether the patterns accept the tokens ahead, one by one. -/
def sees (ps : List Pattern) : Reader Bool := do
  let ahead := (← get).ahead
  return ps.length ≤ ahead.length && (ps.zip ahead).all fun x => x.1.accepts x.2

def seesOne (p : Pattern) : Reader Bool :=
  sees [p]

/-- Whether the next token has one of the given texts. -/
def seesAny (texts : List String) : Reader Bool :=
  return (← lookText?).any texts.contains

/-- Takes the tokens ahead if the patterns accept them. -/
def tryAll (ps : List Pattern) : Reader Bool := do
  if ← sees ps then
    modify fun c => { c with ahead := c.ahead.drop ps.length }
    return true
  else return false

def tryOne (p : Pattern) : Reader Bool :=
  tryAll [p]

def fail {α : Type} (what : String) : Reader α :=
  throw (.expected what)

def ignore {α : Type} (r : Reader α) : Reader Unit := do
  let _ ← r

/-- Repeats a reader until it returns nothing. Every round has to take a token, so that there are
fewer rounds than tokens ahead. -/
def repeatFor {α : Type} (r : Reader (Option α)) : Nat → Reader (List α)
  | 0 => throw .endOfInput
  | n + 1 => do
    match ← r with
    | some a => return a :: (← repeatFor r n)
    | none => return []

def many {α : Type} (r : Reader (Option α)) : Reader (List α) := do
  repeatFor r ((← get).ahead.length + 1)

/-- Repeats `r` as long as `go` holds. -/
def manyWhile {α : Type} (go : Reader Bool) (r : Reader α) : Reader (List α) :=
  many do
    if ← go then return some (← r) else return none

/-- Repeats `r` until the text is next. -/
def manyUntil {α : Type} (closing : String) (r : Reader α) : Reader (List α) :=
  manyWhile (return !(← seesOne closing)) r

/-- One or more `r` with a separator between them. -/
def sepBy {α : Type} (separator : String) (r : Reader α) : Reader (List α) := do
  let first ← r
  let rest ← manyWhile (tryOne separator) r
  return first :: rest

/-- One or more `r`, each followed by the closing text, which ends the list, or by a comma. -/
def sepUntil {α : Type} (closing : String) (r : Reader α) : Reader (List α) := do
  let first ← r
  let rest ← many do
    if ← tryOne closing then return none
    else
      let _ ← accept ","
      return some (← r)
  return first :: rest

/-- Makes the place where the cursor stands the one to go back to. -/
def setMark : Reader Unit :=
  modify fun c => { c with mark := c.ahead }

def goBack : Reader Unit :=
  modify fun c => { c with ahead := c.mark }

/-- Tries `r` and says whether it succeeded. On an unexpected token the cursor goes back to its
mark; the end of the input is final. -/
def attempt {α : Type} (r : Reader α) : Reader (Option α) := fun c =>
  match r { c with mark := c.ahead } with
  | .ok a c' => .ok (some a) c'
  | .error .endOfInput c' => .error .endOfInput { ahead := c'.mark, mark := c.mark }
  | .error _ c' => .ok none { ahead := c'.mark, mark := c.mark }

end Reader

/-! ## Names -/

open Reader

def identifier : Reader String :=
  accept TokenSort.identifier

def qualifiedName : Reader (List String) :=
  sepBy "." identifier

def qualifiedNames : Reader (List (List String)) :=
  sepBy "," qualifiedName

/-- Pairs of brackets, counted. -/
def dimensions : Reader Nat := do
  return (← manyWhile (sees ["[", "]"]) (acceptAll ["[", "]"])).length

end StubWriter.Grammar
