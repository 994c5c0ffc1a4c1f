import StubWriter.Grammar.Headers

/-!
# Expressions

An expression only decides whether a unit can be read, so its readers return nothing. Lambdas and
casts start like expressions in parentheses and are attempted first.
-/

namespace StubWriter.Grammar

open Reader

variable (r : Rules)

def arguments : Reader Unit := do
  ignore (accept "(")
  if ← tryOne ")" then return
  ignore (sepBy "," r.expression)
  ignore (accept ")")

def parenthesized : Reader Unit := do
  ignore (accept "(")
  r.expression
  ignore (accept ")")

/-! ## Initializers -/

/-- Items with a comma behind each, except that the last one needs none, and the closing brace. -/
def arrayItems : Nat → Reader Unit
  | 0 => throw .endOfInput
  | n + 1 => do
    r.variableInitializer
    if !(← seesOne "\x7d") then ignore (accept ",")
    if !(← tryOne "\x7d") then arrayItems n

def arrayInitializer : Reader Unit := do
  ignore (accept "\x7b")
  if ← tryOne "," then ignore (accept "\x7d")
  else if !(← tryOne "\x7d") then arrayItems r ((← get).ahead.length + 1)

def variableInitializer : Reader Unit := do
  if ← seesOne "\x7b" then arrayInitializer r else r.expression

/-! ## Creation -/

def classCreatorRest : Reader Unit := do
  arguments r
  if ← seesOne "\x7b" then ignore r.classBody

def arrayCreatorRest : Reader Unit := do
  if ← sees ["[", "]"] then
    ignore dimensions
    arrayInitializer r
  else
    ignore (manyWhile (return (← seesOne "[") && !(← sees ["[", "]"])) do
      ignore (accept "[")
      r.expression
      ignore (accept "]"))
    ignore dimensions

def createdName : Reader Unit :=
  ignore (sepBy "." do
    ignore identifier
    if ← seesOne "<" then
      if ← tryAll ["<", ">"] then return
      else r.typeArguments)

def creator : Reader Unit := do
  if ← seesOne TokenSort.basicType then
    ignore take
    arrayCreatorRest r
  else
    let constructorArguments ← seesOne "<"
    if constructorArguments then plainTypeArguments r
    createdName r
    if ← seesOne "[" then
      if constructorArguments then throw .arrayWithConstructorArguments
      arrayCreatorRest r
    else classCreatorRest r

def innerCreator : Reader Unit := do
  ignore identifier
  if ← seesOne "<" then
    if !(← tryAll ["<", ">"]) then plainTypeArguments r
  classCreatorRest r

/-- What follows the keyword `new` behind an outer instance. -/
def qualifiedCreator : Reader Unit := do
  if ← seesOne "<" then plainTypeArguments r
  innerCreator r

/-! ## Primaries -/

def superSuffix : Reader Unit := do
  if ← tryOne "." then
    if ← seesOne "<" then plainTypeArguments r
    ignore identifier
    if ← seesOne "(" then arguments r
  else arguments r

def genericInvocationSuffix : Reader Unit := do
  if ← tryOne "super" then superSuffix r
  else
    ignore identifier
    arguments r

def genericInvocation : Reader Unit := do
  plainTypeArguments r
  genericInvocationSuffix r

def identifierSuffix : Reader Unit := do
  if ← tryAll ["[", "]"] then
    ignore dimensions
    acceptAll [".", "class"]
  else if ← seesOne "(" then arguments r
  else if ← tryAll [".", "class"] then return
  else if ← tryAll [".", "this"] then return
  else if ← sees [".", "<"] then
    ignore take
    genericInvocation r
  else if ← tryAll [".", "new"] then qualifiedCreator r
  else if ← sees [".", "super", "("] then
    acceptAll [".", "super"]
    arguments r

/-- An identifier with those that dots join to it, and what may follow them. -/
def namePrimary : Reader Unit := do
  ignore identifier
  ignore (manyWhile (sees [".", TokenSort.identifier]) do
    ignore (accept ".")
    ignore identifier)
  identifierSuffix r

def primary : Reader Unit := do
  let sort? ← lookSort?
  if sort? == some .literal then ignore take
  else if ← seesOne "(" then parenthesized r
  else if ← tryOne "this" then
    if ← seesOne "(" then arguments r
  else if ← sees ["super", "::"] then ignore take
  else if ← tryOne "super" then superSuffix r
  else if ← tryOne "new" then creator r
  else if ← seesOne "<" then
    plainTypeArguments r
    if ← tryOne "this" then arguments r else genericInvocationSuffix r
  else if sort? == some .identifier then namePrimary r
  else if sort? == some .basicType then
    ignore take
    ignore dimensions
    acceptAll [".", "class"]
  else if ← tryOne "void" then acceptAll [".", "class"]
  else fail "expression"

def selector : Reader Unit := do
  if ← tryOne "[" then
    r.expression
    ignore (accept "]")
  else if ← tryOne "." then
    if ← seesOne TokenSort.identifier then
      ignore take
      if ← seesOne "(" then arguments r
    else if ← sees ["super", "::"] then ignore take
    else if ← seesOne "<" then genericInvocation r
    else if ← tryOne "this" then return
    else if ← tryOne "super" then superSuffix r
    else if ← tryOne "new" then qualifiedCreator r
    else fail "selector"
  else fail "selector"

/-! ## Operators -/

/-- What a lambda does, behind its parameters. -/
def lambdaBody : Reader Unit := do
  ignore (accept "->")
  if ← seesOne "\x7b" then r.block else r.expression

def lambda : Reader Unit := do
  if ← sees ["(", TokenSort.identifier, ","] then
    ignore (accept "(")
    ignore (manyUntil ")" do
      ignore identifier
      ignore (tryOne ","))
    ignore (accept ")")
  else ignore (params r)
  lambdaBody r

def cast : Reader Unit := do
  ignore (accept "(")
  ignore (typeUse r)
  ignore (accept ")")
  r.unary

def selectedPrimary : Reader Unit := do
  primary r
  ignore (manyWhile (seesAny ["[", "."]) (selector r))
  ignore (manyWhile (seesAny Token.postfixes) take)

def unary : Reader Unit := do
  ignore (manyWhile (seesAny Token.prefixes) take)
  if ← seesOne "(" then
    if (← attempt (lambda r)).isSome then return
    if (← attempt (cast r)).isSome then return
  selectedPrimary r

/-- An operator between two operands; up to three adjacent `>` are one operator. -/
def infixOperator : Reader Unit := do
  let op ← accept TokenSort.operator
  if op == ">" then
    if ← tryOne ">" then ignore (tryOne ">")

def binary : Reader Unit := do
  unary r
  ignore (manyWhile (seesAny ("instanceof" :: Token.infixes)) do
    if ← tryOne "instanceof" then ignore (typeUse r)
    else
      infixOperator
      unary r)

def methodReference : Reader Unit := do
  if ← seesOne "<" then plainTypeArguments r
  if !(← tryOne "new") then r.expression

/-- An expression without an assignment. -/
def conditional : Reader Unit := do
  binary r
  if ← tryOne "?" then
    r.expression
    ignore (accept ":")
    r.conditional
  else if ← seesOne "->" then lambdaBody r
  else if ← tryOne "::" then methodReference r

def expression : Reader Unit := do
  conditional r
  if ← seesAny Token.assignments then
    ignore take
    r.expression

end StubWriter.Grammar
