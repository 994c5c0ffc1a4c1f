import StubWriter.Grammar.Expressions

/-!
# Statements

Like expressions, statements only decide whether a unit can be read. A statement that may also be
the declaration of a variable is attempted as one.
-/

namespace StubWriter.Grammar

open Reader

variable (r : Rules)

/-! ## Variables -/

def declaratorRest : Reader Unit := do
  ignore dimensions
  if ← tryOne "=" then variableInitializer r

def declarator : Reader Unit := do
  ignore identifier
  declaratorRest r

def localVariable : Reader Unit := do
  variableModifiers r
  ignore (typeUse r)
  ignore (sepBy "," (declarator r))
  ignore (accept ";")

/-! ## What a statement in a block starts with -/

inductive Start where
  | typeDecl
  | variable
  | variableOrStatement
  | statement
  deriving DecidableEq, Repr

/-- The tokens behind the parenthesis that closes the `depth` open ones. -/
def skipParens : Nat → List Token → List Token
  | 0, ts => ts
  | _ + 1, [] => []
  | depth + 1, t :: ts =>
    if t.text == "(" then skipParens (depth + 2) ts
    else if t.text == ")" then skipParens depth ts
    else skipParens (depth + 1) ts

/-- The tokens behind the dots and words that go on a dotted name. -/
def skipDotted : List Token → List Token
  | t :: w :: ts => if t.text == "." then skipDotted ts else t :: w :: ts
  | [t] => if t.text == "." then [] else [t]
  | [] => []

/-- The tokens to go on with behind an annotation, given those behind its `@`. Arguments are passed
over whole; without arguments the token that follows the name is passed over unseen, so that
`@A class` does not show its `class`. -/
def skipAnnotationUse (ts : List Token) : List Token :=
  match skipDotted ts.tail with
  | t :: rest => if t.text == "(" then skipParens 1 rest else rest
  | [] => []

/-- Decides by the first token that is no modifier and no annotation. A modifier other than `final`
is found on declarations of types only. -/
def startOf (annotated : Bool) : Nat → List Token → Start
  | 0, _ => .statement
  | _ + 1, [] => if annotated then .variable else .statement
  | n + 1, t :: ts =>
    if t.sort == .modifier then
      if t.text == "final" then startOf annotated n ts else .typeDecl
    else if startsAnnotationUse (t :: ts) then startOf true n (skipAnnotationUse ts)
    else if ["class", "enum", "interface", "@"].contains t.text then .typeDecl
    else if annotated || t.sort == .basicType then .variable
    else if t.sort == .identifier then .variableOrStatement
    else .statement

def localType : Reader Unit := do
  ignore (r.typeDecl (← modifiers r))

def blockStatement : Reader Unit := do
  if ← sees [TokenSort.identifier, ":"] then r.statement
  else if ← seesOne "synchronized" then r.statement
  else
    let ahead := (← get).ahead
    match startOf false (ahead.length + 1) ahead with
    | .typeDecl => localType r
    | .variable => localVariable r
    | .statement => r.statement
    | .variableOrStatement =>
      if (← attempt (localVariable r)).isNone then r.statement

def block : Reader Unit := do
  ignore (accept "\x7b")
  ignore (manyUntil "\x7d" (blockStatement r))
  ignore (accept "\x7d")

/-! ## Loops -/

def expressions : Reader Unit :=
  ignore (sepBy "," r.expression)

/-- The condition and the update of a loop, with the semicolons in front of them. -/
def loopTail : Reader Unit := do
  ignore (accept ";")
  if !(← seesOne ";") then r.expression
  ignore (accept ";")
  if !(← seesOne ")") then expressions r

/-- The head of a loop over a variable that it declares. -/
def variableLoopHead : Reader Unit := do
  variableModifiers r
  ignore (typeUse r)
  ignore identifier
  ignore dimensions
  if ← tryOne ":" then r.expression
  else
    if !(← seesOne ";") then
      if ← tryOne "=" then variableInitializer r
      ignore (manyWhile (tryOne ",") (declarator r))
    loopTail r

def loopHead : Reader Unit := do
  if (← attempt (variableLoopHead r)).isNone then
    if !(← seesOne ";") then expressions r
    loopTail r

/-! ## Selections -/

def switchLabel : Reader Unit := do
  let word ← take
  if word.text == "case" then
    if ← sees [TokenSort.identifier, ":"] then ignore identifier else r.expression
  ignore (accept ":")

def switchGroup : Reader Unit := do
  switchLabel r
  ignore (manyWhile (seesAny ["case", "default"]) (switchLabel r))
  ignore (manyWhile (return !(← seesAny ["case", "default", "\x7d"])) (blockStatement r))

def switchBody : Reader Unit := do
  ignore (accept "\x7b")
  ignore (manyWhile (seesAny ["case", "default"]) (switchGroup r))
  ignore (accept "\x7d")

/-! ## Exceptions -/

def catchClause : Reader Unit := do
  acceptAll ["catch", "("]
  variableModifiers r
  ignore (sepBy "|" qualifiedName)
  ignore identifier
  ignore (accept ")")
  r.block

def resource : Reader Unit := do
  variableModifiers r
  ignore (referenceType r)
  ignore dimensions
  ignore identifier
  ignore dimensions
  ignore (accept "=")
  r.expression

/-- Resources with a semicolon behind each, except that the last one needs none. -/
def resources : Nat → Reader Unit
  | 0 => throw .endOfInput
  | n + 1 => do
    resource r
    if !(← seesOne ")") then ignore (accept ";")
    if !(← tryOne ")") then resources n

/-- What follows the block of a `try`; without resources there has to be something. -/
def handlers (required : Bool) : Reader Unit := do
  let catches ← manyWhile (seesOne "catch") (catchClause r)
  if ← tryOne "finally" then r.block
  else if required && catches.isEmpty then fail "catch/finally block"

def tryRest : Reader Unit := do
  if ← seesOne "\x7b" then
    r.block
    handlers r true
  else
    ignore (accept "(")
    resources r ((← get).ahead.length + 1)
    r.block
    handlers r false

/-! ## Statements -/

def jump : Reader Unit := do
  if ← seesOne TokenSort.identifier then ignore identifier
  ignore (accept ";")

def ifRest : Reader Unit := do
  parenthesized r
  r.statement
  if ← tryOne "else" then r.statement

def assertRest : Reader Unit := do
  r.expression
  if ← tryOne ":" then r.expression
  ignore (accept ";")

def doRest : Reader Unit := do
  r.statement
  ignore (accept "while")
  parenthesized r
  ignore (accept ";")

def statement : Reader Unit := do
  if ← seesOne "\x7b" then r.block
  else if ← tryOne ";" then return
  else if ← sees [TokenSort.identifier, ":"] then
    acceptAll [TokenSort.identifier, ":"]
    r.statement
  else if ← tryOne "if" then ifRest r
  else if ← tryOne "assert" then assertRest r
  else if ← tryOne "switch" then
    parenthesized r
    switchBody r
  else if ← tryOne "while" then
    parenthesized r
    r.statement
  else if ← tryOne "do" then doRest r
  else if ← tryOne "for" then
    ignore (accept "(")
    loopHead r
    ignore (accept ")")
    r.statement
  else if ← tryOne "break" then jump
  else if ← tryOne "continue" then jump
  else if ← tryOne "return" then
    if !(← seesOne ";") then r.expression
    ignore (accept ";")
  else if ← tryOne "throw" then
    r.expression
    ignore (accept ";")
  else if ← tryOne "synchronized" then
    parenthesized r
    r.block
  else if ← tryOne "try" then tryRest r
  else
    r.expression
    ignore (accept ";")

end StubWriter.Grammar
