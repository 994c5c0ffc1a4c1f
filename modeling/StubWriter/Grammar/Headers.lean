import StubWriter.Grammar.Types

/-!
# Annotations, modifiers and parameters

What stands in front of a declaration, and the parameters of a method.
-/

namespace StubWriter.Grammar

open Reader

variable (r : Rules)

/-- Whether the tokens start with an annotation, and not with the declaration of one. -/
def startsAnnotationUse : List Token → Bool
  | t :: next :: _ => t.sort == .atSign && next.text != "interface"
  | [t] => t.sort == .atSign
  | [] => false

/-- Whether the tokens start with the declaration of an annotation type. -/
def startsAnnotationDecl : List Token → Bool
  | t :: next :: _ => t.sort == .atSign && next.text == "interface"
  | _ => false

def seesAnnotationUse : Reader Bool :=
  return startsAnnotationUse (← get).ahead

def seesAnnotationDecl : Reader Bool :=
  return startsAnnotationDecl (← get).ahead

def elementPair : Reader Unit := do
  ignore identifier
  ignore (accept "=")
  r.elementValue

def annotationUse : Reader Unit := do
  ignore (accept "@")
  ignore qualifiedName
  if ← tryOne "(" then
    if !(← seesOne ")") then
      if ← sees [TokenSort.identifier, "="] then ignore (sepBy "," (elementPair r))
      else r.elementValue
    ignore (accept ")")

/-- Values between braces, with commas between them and perhaps one behind them. -/
def elementArray : Reader Unit := do
  ignore (accept "\x7b")
  if ← tryOne "\x7d" then return
  r.elementValue
  ignore (manyWhile (return !((← seesOne "\x7d") || (← sees [",", "\x7d"]))) do
    ignore (accept ",")
    r.elementValue)
  ignore (tryOne ",")
  ignore (accept "\x7d")

def elementValue : Reader Unit := do
  if ← seesAnnotationUse then annotationUse r
  else if ← seesOne "\x7b" then elementArray r
  else r.conditional

/-- Modifiers, each once, and annotations, which are dropped. -/
def modifiers : Reader (List String) := do
  let words ← many do
    if ← seesOne TokenSort.modifier then
      return some [← accept TokenSort.modifier]
    else if ← seesAnnotationUse then
      annotationUse r
      return some []
    else return none
  return words.flatten.eraseDups

def annotations : Reader Unit := do
  annotationUse r
  ignore (manyWhile seesAnnotationUse (annotationUse r))

/-- `final` and annotations in front of a variable. -/
def variableModifiers : Reader Unit :=
  ignore (many do
    if ← tryOne "final" then return some ()
    else if ← seesAnnotationUse then
      annotationUse r
      return some ()
    else return none)

def param : Reader Param := do
  variableModifiers r
  let type ← typeUse r
  let varargs ← tryOne "..."
  ignore identifier
  return ⟨type.addDims (← dimensions), varargs⟩

/-- Parameters behind the first one; nothing follows a parameter that takes any number of
arguments. -/
def moreParams (last : Param) : Nat → Reader (List Param)
  | 0 => throw .endOfInput
  | n + 1 => do
    if last.varargs then return []
    else if ← tryOne "," then
      let next ← param r
      return next :: (← moreParams next n)
    else return []

def params : Reader (List Param) := do
  ignore (accept "(")
  if ← tryOne ")" then return []
  let first ← param r
  let rest ← moreParams r first ((← get).ahead.length + 1)
  ignore (accept ")")
  return first :: rest

def optionalThrows : Reader (List (List String)) := do
  if ← tryOne "throws" then qualifiedNames else return []

end StubWriter.Grammar
