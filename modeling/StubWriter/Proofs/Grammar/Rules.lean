import StubWriter.Grammar.Units
import StubWriter.Proofs.Grammar.Forward

/-!
# Every rule of the grammar moves forward

Each rule is put together from readers that move forward, given that the rules it contains do. This
holds for what the rules are tied to as well, at every depth.
-/

namespace StubWriter.Grammar

open Reader

/-- Rules whose readers all move forward. -/
class Rules.Forward (r : Rules) : Prop where
  typeArguments : Reader.Forward r.typeArguments
  elementValue : Reader.Forward r.elementValue
  variableInitializer : Reader.Forward r.variableInitializer
  expression : Reader.Forward r.expression
  conditional : Reader.Forward r.conditional
  unary : Reader.Forward r.unary
  block : Reader.Forward r.block
  statement : Reader.Forward r.statement
  classBody : Reader.Forward r.classBody
  typeDecl : ∀ mods, Reader.Forward (r.typeDecl mods)

attribute [instance] Rules.Forward.typeArguments Rules.Forward.elementValue
  Rules.Forward.variableInitializer Rules.Forward.expression Rules.Forward.conditional
  Rules.Forward.unary Rules.Forward.block Rules.Forward.statement Rules.Forward.classBody
  Rules.Forward.typeDecl

-- A rule of many alternatives is a deep term, and so is the instance for it.
set_option synthInstance.maxSize 1000000

variable (r : Rules) [r.Forward]

/-! ## Types -/

instance : Forward (referenceType r) := by unfold referenceType; infer_instance

instance : Forward (typeUse r) := by
  unfold typeUse
  have hsort : ∀ sort? : Option TokenSort, Forward (match sort? with
      | some .basicType => do
        let name ← accept TokenSort.basicType
        return TypeUse.basic name (← dimensions)
      | some .identifier => do
        let segments ← referenceType r
        return .named segments (← dimensions)
      | _ => fail "type") := by
    intro sort?
    split <;> infer_instance
  infer_instance

instance : Forward (listedType r) := by unfold listedType; infer_instance
instance : Forward (typeList r) := by unfold typeList; infer_instance
instance : Forward (typeArgument r) := by unfold typeArgument; infer_instance
instance : Forward (typeArguments r) := by unfold typeArguments; infer_instance
instance : Forward (plainTypeArguments r) := by unfold plainTypeArguments; infer_instance
instance : Forward (typeParam r) := by unfold typeParam; infer_instance
instance : Forward (typeParams r) := by unfold typeParams; infer_instance
instance : Forward (optionalTypeParams r) := by unfold optionalTypeParams; infer_instance
instance (keyword : String) :
    Forward (optionalTypes r keyword) := by unfold optionalTypes; infer_instance

/-! ## Annotations, modifiers and parameters -/

instance : Forward seesAnnotationUse := by unfold seesAnnotationUse; infer_instance
instance : Forward seesAnnotationDecl := by unfold seesAnnotationDecl; infer_instance
instance : Forward (elementPair r) := by unfold elementPair; infer_instance
instance : Forward (annotationUse r) := by unfold annotationUse; infer_instance
instance : Forward (elementArray r) := by unfold elementArray; infer_instance
instance : Forward (elementValue r) := by unfold elementValue; infer_instance
instance : Forward (modifiers r) := by unfold modifiers; infer_instance
instance : Forward (annotations r) := by unfold annotations; infer_instance
instance : Forward (variableModifiers r) := by unfold variableModifiers; infer_instance
instance : Forward (param r) := by unfold param; infer_instance

instance (last : Param) (n : Nat) : Forward (moreParams r last n) := by
  induction n generalizing last with
  | zero => exact inferInstanceAs (Forward (throw _))
  | succ n ih =>
    unfold moreParams
    infer_instance

instance : Forward (params r) := by unfold params; infer_instance
instance : Forward optionalThrows := by unfold optionalThrows; infer_instance

/-! ## Expressions -/

instance : Forward (arguments r) := by unfold arguments; infer_instance
instance : Forward (parenthesized r) := by unfold parenthesized; infer_instance

instance (n : Nat) : Forward (arrayItems r n) := by
  induction n with
  | zero => exact inferInstanceAs (Forward (throw _))
  | succ n ih =>
    unfold arrayItems
    infer_instance

instance : Forward (arrayInitializer r) := by unfold arrayInitializer; infer_instance
instance : Forward (variableInitializer r) := by unfold variableInitializer; infer_instance
instance : Forward (classCreatorRest r) := by unfold classCreatorRest; infer_instance
instance : Forward (arrayCreatorRest r) := by unfold arrayCreatorRest; infer_instance
instance : Forward (createdName r) := by unfold createdName; infer_instance
instance : Forward (creator r) := by unfold creator; infer_instance
instance : Forward (innerCreator r) := by unfold innerCreator; infer_instance
instance : Forward (qualifiedCreator r) := by unfold qualifiedCreator; infer_instance
instance : Forward (superSuffix r) := by unfold superSuffix; infer_instance
instance : Forward (genericInvocationSuffix r) := by unfold genericInvocationSuffix; infer_instance
instance : Forward (genericInvocation r) := by unfold genericInvocation; infer_instance
instance : Forward (identifierSuffix r) := by unfold identifierSuffix; infer_instance
instance : Forward (namePrimary r) := by unfold namePrimary; infer_instance
instance : Forward (primary r) := by unfold primary; infer_instance
instance : Forward (selector r) := by unfold selector; infer_instance
instance : Forward (lambdaBody r) := by unfold lambdaBody; infer_instance
instance : Forward (lambda r) := by unfold lambda; infer_instance
instance : Forward (cast r) := by unfold cast; infer_instance
instance : Forward (selectedPrimary r) := by unfold selectedPrimary; infer_instance
instance : Forward (unary r) := by unfold unary; infer_instance
instance : Forward infixOperator := by unfold infixOperator; infer_instance
instance : Forward (binary r) := by unfold binary; infer_instance
instance : Forward (methodReference r) := by unfold methodReference; infer_instance
instance : Forward (conditional r) := by unfold conditional; infer_instance
instance : Forward (expression r) := by unfold expression; infer_instance

/-! ## Statements -/

instance : Forward (declaratorRest r) := by unfold declaratorRest; infer_instance
instance : Forward (declarator r) := by unfold declarator; infer_instance
instance : Forward (localVariable r) := by unfold localVariable; infer_instance
instance : Forward (localType r) := by unfold localType; infer_instance

instance : Forward (blockStatement r) := by
  unfold blockStatement
  have hstart : ∀ start : Start, Forward (match start with
      | .typeDecl => localType r
      | .variable => localVariable r
      | .statement => r.statement
      | .variableOrStatement => do
        if (← attempt (localVariable r)).isNone then r.statement) := by
    intro start
    split <;> infer_instance
  infer_instance

instance : Forward (block r) := by unfold block; infer_instance
instance : Forward (expressions r) := by unfold expressions; infer_instance
instance : Forward (loopTail r) := by unfold loopTail; infer_instance
instance : Forward (variableLoopHead r) := by unfold variableLoopHead; infer_instance
instance : Forward (loopHead r) := by unfold loopHead; infer_instance
instance : Forward (switchLabel r) := by unfold switchLabel; infer_instance
instance : Forward (switchGroup r) := by unfold switchGroup; infer_instance
instance : Forward (switchBody r) := by unfold switchBody; infer_instance
instance : Forward (catchClause r) := by unfold catchClause; infer_instance
instance : Forward (resource r) := by unfold resource; infer_instance

instance (n : Nat) : Forward (resources r n) := by
  induction n with
  | zero => exact inferInstanceAs (Forward (throw _))
  | succ n ih =>
    unfold resources
    infer_instance

instance (required : Bool) : Forward (handlers r required) := by unfold handlers; infer_instance
instance : Forward (tryRest r) := by unfold tryRest; infer_instance
instance : Forward jump := by unfold jump; infer_instance
instance : Forward (ifRest r) := by unfold ifRest; infer_instance
instance : Forward (assertRest r) := by unfold assertRest; infer_instance
instance : Forward (doRest r) := by unfold doRest; infer_instance
instance : Forward (statement r) := by unfold statement; infer_instance

/-! ## Declarations -/

instance : Forward (blockOrSemicolon r) := by unfold blockOrSemicolon; infer_instance

instance (brackets : Reader Nat) [Forward brackets] (name : String) (mods : List String)
    (tps : List TypeParam) (returns : Option TypeUse) :
    Forward (methodRest r brackets name mods tps returns) := by
  unfold methodRest
  infer_instance

instance (mods : List String) (tps : List TypeParam) :
    Forward (voidMethod r mods tps) := by unfold voidMethod; infer_instance
instance (name : String) (mods : List String) (tps : List TypeParam) (returns : TypeUse) :
    Forward (typedMethod r name mods tps returns) := by unfold typedMethod; infer_instance
instance (mods : List String) (tps : List TypeParam) :
    Forward (constructorRest r mods tps) := by unfold constructorRest; infer_instance
instance : Forward (fieldRest r) := by unfold fieldRest; infer_instance
instance : Forward (constantRest r) := by unfold constantRest; infer_instance
instance : Forward (constantsRest r) := by unfold constantsRest; infer_instance
instance : Forward seesTypeDecl := by unfold seesTypeDecl; infer_instance
instance (mods : List String) :
    Forward (genericMember r mods) := by unfold genericMember; infer_instance
instance (mods : List String) :
    Forward (typedMember r mods) := by unfold typedMember; infer_instance
instance : Forward (classMember r) := by unfold classMember; infer_instance
instance : Forward (classBody r) := by unfold classBody; infer_instance
instance (mods : List String) :
    Forward (genericInterfaceMember r mods) := by unfold genericInterfaceMember; infer_instance
instance (mods : List String) :
    Forward (typedInterfaceMember r mods) := by unfold typedInterfaceMember; infer_instance
instance : Forward (interfaceMember r) := by unfold interfaceMember; infer_instance
instance : Forward (interfaceBody r) := by unfold interfaceBody; infer_instance
instance : Forward (enumConstant r) := by unfold enumConstant; infer_instance

instance (n : Nat) : Forward (enumConstants r n) := by
  induction n with
  | zero => exact inferInstanceAs (Forward (throw _))
  | succ n ih =>
    unfold enumConstants
    infer_instance

instance : Forward (enumBody r) := by unfold enumBody; infer_instance
instance : Forward (annotationElement r) := by unfold annotationElement; infer_instance
instance : Forward (annotationMember r) := by unfold annotationMember; infer_instance
instance : Forward (annotationBody r) := by unfold annotationBody; infer_instance
instance (mods : List String) : Forward (classDecl r mods) := by unfold classDecl; infer_instance
instance (mods : List String) :
    Forward (interfaceDecl r mods) := by unfold interfaceDecl; infer_instance
instance (mods : List String) : Forward (enumDecl r mods) := by unfold enumDecl; infer_instance
instance (mods : List String) :
    Forward (annotationDecl r mods) := by unfold annotationDecl; infer_instance
instance (mods : List String) : Forward (typeDecl r mods) := by unfold typeDecl; infer_instance
/-! ## All rules -/

instance : Rules.none.Forward := by
  constructor <;> (unfold Rules.none; infer_instance)

instance (n : Nat) : (rules n).Forward := by
  induction n with
  | zero => exact inferInstanceAs Rules.none.Forward
  | succ n ih =>
    exact {
      typeArguments := inferInstanceAs (Forward (typeArguments (rules n)))
      elementValue := inferInstanceAs (Forward (elementValue (rules n)))
      variableInitializer := inferInstanceAs (Forward (variableInitializer (rules n)))
      expression := inferInstanceAs (Forward (expression (rules n)))
      conditional := inferInstanceAs (Forward (conditional (rules n)))
      unary := inferInstanceAs (Forward (unary (rules n)))
      block := inferInstanceAs (Forward (block (rules n)))
      statement := inferInstanceAs (Forward (statement (rules n)))
      classBody := inferInstanceAs (Forward (classBody (rules n)))
      typeDecl := fun mods => inferInstanceAs (Forward (typeDecl (rules n) mods)) }

end StubWriter.Grammar
