import JBLang.Ast.VisitState

/-!
# The visitor

Model of the visit methods of `src/ast/TranspilerVisitor.cpp`. A visit of an expression returns
its C text and may write statements to the output before the statement it stands in. Where the
source streams several pieces with `<<`, a piece that visits a node is visited after the pieces
before it are written.
-/

namespace JBLang.Ast

open JBLang.Base JBLang.Types JBLang.Codegen

variable (gen : CCodeGenerator)

/-! ### Expressions -/

/-- Write an increment of a pointer variable, if it is one. -/
def emitIncRef (indent : Str) (var : Option Variable) (other : Str) : VisitM Unit :=
  match pointerVar var with
  | some var => emit (indent ++ gen.generateIncRef var other)
  | none => pure ()

/-- Write a decrement of a pointer variable, if it is one. -/
def emitDecRef (indent : Str) (var : Option Variable) : VisitM Unit :=
  match pointerVar var with
  | some var => emit (indent ++ gen.generateDecRef var)
  | none => pure ()

/-- The lines of `visitInitializerList`, `src/ast/TranspilerVisitor.cpp:1060–1067`. -/
def initializerLines (indent : Str) : List Initializer → VisitM Str
  | [] => return ""
  | .mk name value :: is => do
    let assignExpr := value.getText
    emitIncRef gen indent (← lookupSymbol assignExpr) "NULL"
    let code ← initializerLines indent is
    return indent ++ "." ++ name.text ++ " = " ++ assignExpr ++ ",\n" ++ code

/-- `visitInitializerList`, `src/ast/TranspilerVisitor.cpp:1051–1069`. -/
def visitInitializerList (inits : List Initializer) : VisitM Str := do
  if ← inFirstPass then return ""
  initializerLines gen (← indentLevel) inits

/-- The text of `this->field` in a method or constructor, if the class of the current function
resolves it, `src/ast/TranspilerVisitor.cpp:929–944`. -/
def thisFieldAccess (s : VState) (base fieldName : Str) : Option Str := do
  let func ← if base = "this" then s.symbolTable.currentFunc else none
  let className ← beforeFirst "_" func.name
  let classType ← (s.typeSystem.resolveType className).toOption
  if classType.isClass then (resolveFieldAccess s.typeSystem fieldName className).toOption
  else none

/-- The text of `base->member` where `base` is a variable of a class type, if that decides it,
`src/ast/TranspilerVisitor.cpp:946–968`. -/
def objectMemberAccess (s : VState) (base memberName : Str) : Option Str := do
  let baseVar ← s.symbolTable.lookupSymbol base
  let className ← if baseVar.type.isClass then some baseVar.type.structName else none
  match (s.typeSystem.getClassMethods className).find?
    fun method ↦ method.isVirtual || method.name = className ++ "_" ++ memberName with
  | some method =>
    if method.isVirtual then "VIRTUAL_CALL:" ++ memberName ++ ":" ++ base
    else "METHOD_CALL:" ++ className ++ "_" ++ memberName ++ ":" ++ base
  | none => do
    let fieldAccess ← (resolveFieldAccess s.typeSystem memberName className).toOption
    base ++ fieldAccess.drop 4

/-- `visitPointerMemberExpr`, `src/ast/TranspilerVisitor.cpp:923–971`, with the base visited. -/
def memberAccess (s : VState) (base memberName : Str) : Str :=
  match thisFieldAccess s base memberName with
  | some text => text
  | none => match objectMemberAccess s base memberName with
    | some text => text
    | none => base ++ "->" ++ memberName

/-- The cast of a variable's value to a type, where the types are compatible. -/
def castTo (code : Str) (fromVar : Option Variable) (toType : Ty) : VisitM Str :=
  match fromVar with
  | none => return code
  | some fromVar => do
    if ← askTypes (·.isCompatible fromVar.type toType) then
      return generateCast code fromVar.type toType
    else return code

/-- The right side of an assignment, cast to the type of the left side,
`src/ast/TranspilerVisitor.cpp:366–374`. -/
def castAssigned (left right : Str) : VisitM Str := do
  match ← lookupSymbol left with
  | none => return right
  | some leftVar => do castTo right (← lookupSymbol right) leftVar.type

/-- The increment for an assigned variable, `src/ast/TranspilerVisitor.cpp:376–391`. -/
def retainAssigned (left right : Str) : VisitM Unit := do
  match pointerVar (← lookupSymbol right) with
  | none => pure ()
  | some assignedFrom => match beforeFirst "->" left with
    | some pre => match pointerVar (← lookupSymbol pre) with
      | some assignedTo => do
        emit ((← indentLevel) ++ gen.generateIncRef assignedFrom assignedTo.name)
      | none => pure ()
    | none => do emit ((← indentLevel) ++ gen.generateIncRef assignedFrom "NULL")

/-- The end of `visitAssignExpr`, `src/ast/TranspilerVisitor.cpp:366–397`, with both sides
visited. -/
def assignCode (left right : Str) : VisitM Str := do
  let right ← castAssigned left right
  retainAssigned gen left right
  emitDecRef gen (← indentLevel) (← lookupSymbol left)
  return left ++ " = " ++ right

/-- The name of the next temporary. -/
def freshTemp : VisitM Str := do
  let counter := (← get).tempVarCounter
  modify fun s ↦ { s with tempVarCounter := counter + 1 }
  return "temp_" ++ decimal counter

/-- The increment for an argument of a call, and whether it is counted,
`src/ast/TranspilerVisitor.cpp:453–458`. -/
def countArg (indent argString : Str) : VisitM Bool := do
  match pointerVar (← lookupSymbol argString) with
  | none => return false
  | some assignedFrom => do
    if (← get).addRefCounts then
      emit (indent ++ gen.generateIncRef assignedFrom "NULL")
      return true
    else return false

/-- The decrement for an argument of a call, `src/ast/TranspilerVisitor.cpp:470–475`. -/
def releaseText (indent argString : Str) : VisitM Str := do
  match pointerVar (← lookupSymbol argString) with
  | some assignedFrom => return indent ++ gen.generateDecRef assignedFrom
  | none => return ""

/-- The text of a computation made only where `addRefCounts` is set. -/
def whenCounting (m : VisitM Str) : VisitM Str := do
  if (← get).addRefCounts then m else return ""

/-- The receiver and the class of a method call: the variable must be of a class type,
`src/ast/TranspilerVisitor.cpp:798–807`. -/
def receiverClass (objExpr : Str) : VisitM Str := do
  match ← lookupSymbol objExpr with
  | none => throw (.compiler .nameError ("Unknown object: " ++ objExpr))
  | some objVar =>
    if objVar.type.isClass then return objVar.type.structName
    else throw (.compiler .typeError "Method call on non-class type")

/-- The end of `visitMethodCallExpr`, `src/ast/TranspilerVisitor.cpp:833–874`, with the
arguments visited. -/
def methodCallCode (objExpr methodName className currentClass : Str) (method : Function)
    (args : List Str) : VisitM Str := do
  if method.isVirtual then
    let classType ← askTypes (·.resolveType className)
    return (VTablePath.ofType classType).fromObject objExpr ++ "->" ++ methodName ++ "(" ++
      objExpr ++ (args.map fun arg ↦ (", " : Str) ++ arg).flatten ++ ")"
  else
    let receiver := if currentClass ≠ className then "&((" ++ objExpr ++ ")->parent)" else objExpr
    return generateFunctionCall method.name (receiver :: args)

mutual

/-- The visit of an expression, by alternative. -/
def visitExpr : Expr → VisitM Str
  | .paren e => do
    let code ← visitExpr e
    return "(" ++ code ++ ")"
  | .ident name => return name.text
  | .primaryLiteral l | .literal l => return l.getText
  | .member e name => do
    let base ← visitExpr e
    return base ++ "." ++ name.text
  | .funcCall name args => do
    -- The branches for `METHOD_CALL:` and `VIRTUAL_CALL:` need a name with a colon.
    if ← inFirstPass then return ""
    let indent ← indentLevel
    let (argTexts, pointerArgs) ← visitCallArgs indent args
    let code := indent ++ generateFunctionCall name.text argTexts ++
      (if pointerArgs then (";\n" : Str) else "")
    let releases ← whenCounting (visitReleasedArgs indent args)
    return code ++ releases
  | .mulDiv left op right => do
    let left ← visitExpr left
    let right ← visitExpr right
    return left ++ " " ++ op.getText ++ " " ++ right
  | .addSub left op right => do
    let left ← visitExpr left
    let right ← visitExpr right
    return left ++ " " ++ op.getText ++ " " ++ right
  | .compare left op right => do
    let left ← visitExpr left
    let right ← visitExpr right
    return left ++ " " ++ op.getText ++ " " ++ right
  | .assign left right => do
    if ← inFirstPass then return ""
    let left ← visitExpr left
    let right ← visitExpr right
    assignCode gen left right
  -- `visitVarExpr` is not overridden and gives no string.
  | .var _ => throw .badAnyCast
  | .new t => do
    let type ← resolveTypeFromContext t
    return generateAlloc type
  | .newWithConstructor name args => do
    if ← inFirstPass then return ""
    match (← get).typeSystem.getClassConstructor name.text with
    | none => throw (.compiler .nameError ("No constructor for class: " ++ name.text))
    | some constructor => do
      let tempVar ← freshTemp
      let indent ← indentLevel
      let classType ← askTypes (·.resolveType name.text)
      emit (indent ++ generateVarDecl tempVar classType.setPointer
        (" = " ++ generateAlloc classType))
      let args ← visitArgs args
      emit (indent ++ generateFunctionCall constructor.name (tempVar :: args) ++ ";\n")
      return tempVar
  | .pointerMember e name => do
    if ← inFirstPass then return ""
    let base ← visitExpr e
    return memberAccess (← get) base name.text
  | .addressOf e => do
    let code ← visitExpr e
    return "&" ++ code
  | .dereference e => do
    let code ← visitExpr e
    return "*" ++ code
  | .arrayAccess array index => do
    let array ← visitExpr array
    let index ← visitExpr index
    return array ++ "[" ++ index ++ "]"
  | .methodCall e name args => do
    if ← inFirstPass then return ""
    let objExpr ← visitExpr e
    let className ← receiverClass objExpr
    let (currentClass, method) ← askTypes fun ts ↦ findMethod ts className name.text
    let args ← visitArgs args
    methodCallCode objExpr name.text className currentClass method args
  | .structInit inits _ => do
    if inits.isEmpty then throw .nullAccess
    let code ← visitInitializerList gen inits
    return "\x7b\n" ++ code ++ (← indentLevel) ++ "\x7d"
  | .postIncrement e => do
    let code ← visitExpr e
    return code ++ "++"
  | .postDecrement e => do
    let code ← visitExpr e
    return code ++ "--"
  | .preIncrement e => do
    let code ← visitExpr e
    return "++" ++ code
  | .preDecrement e => do
    let code ← visitExpr e
    return "--" ++ code

/-- The arguments of a constructor or method, in order. -/
def visitArgs : List Expr → VisitM (List Str)
  | [] => return []
  | e :: es => do
    let arg ← visitExpr e
    let args ← visitArgs es
    return arg :: args

/-- The first loop of `visitFunctionCall`, `src/ast/TranspilerVisitor.cpp:450–461`: the
arguments, and whether one of them is counted. -/
def visitCallArgs (indent : Str) : List Expr → VisitM (List Str × Bool)
  | [] => return ([], false)
  | e :: es => do
    let argString ← visitExpr e
    let counted ← countArg gen indent argString
    let (args, pointerArgs) ← visitCallArgs indent es
    return (argString :: args, counted || pointerArgs)

/-- The second loop of `visitFunctionCall`, `src/ast/TranspilerVisitor.cpp:468–476`, which visits
the arguments again. -/
def visitReleasedArgs (indent : Str) : List Expr → VisitM Str
  | [] => return ""
  | e :: es => do
    let argString ← visitExpr e
    let release ← releaseText gen indent argString
    let releases ← visitReleasedArgs indent es
    return release ++ releases

end

/-! ### Statements -/

/-- An expression that the grammar makes optional and the source visits unconditionally. -/
def visitPresent : Option Expr → VisitM Str
  | none => throw .nullAccess
  | some e => visitExpr gen e

/-- The declaration that `visitVarDecl` writes, `src/ast/TranspilerVisitor.cpp:150–168`. -/
def declareVar (indent varName : Str) (varType : Ty) : Option Expr → VisitM Unit
  | none => emit (indent ++ generateVarDecl varName varType "")
  | some e => do
    let initExpr ← visitExpr gen e
    let initExpr ← castTo initExpr (← lookupSymbol initExpr) varType
    emitIncRef gen indent (← lookupSymbol initExpr) "NULL"
    emit (indent ++ generateVarDecl varName varType (" = " ++ initExpr))

/-- A pointer declared in the global scope is remembered in the first pass. -/
def rememberGlobal (varName : Str) (varType : Ty) : VisitM Unit := do
  let s ← get
  if s.symbolTable.isGlobalScope && varType.isPointer && s.firstPass then
    modifySymbols fun st ↦ { st with globalVars := st.globalVars ++ [(varName, varType)] }
  else pure ()

/-- `visitVarDecl`, `src/ast/TranspilerVisitor.cpp:132–177`. -/
def visitVarDecl (d : Declarator) (init : Option Expr) : VisitM Unit := do
  let indent ← indentLevel
  let (varName, varType) ← declaratorType d
  rememberGlobal varName varType
  secondPassOnly (declareVar gen indent varName varType init)
  addSymbol varName varType

/-- The releases of the pointers among some symbols. -/
def releaseSymbols (indent : Str) : List (Str × Variable) → Str
  | [] => ""
  | (_, var) :: symbols =>
    (if var.type.isPointer then indent ++ gen.generateDecRef var else "") ++
      releaseSymbols indent symbols

/-- The releases of the innermost scope. -/
def releaseScope (indent : Str) : VisitM Unit := do
  emit (releaseSymbols gen indent (← get).symbolTable.getCurrentScopeSymbols)

/-- `visitBlock`, `src/ast/TranspilerVisitor.cpp:179–205`, around the visits of its statements. -/
def inBlock (statements : VisitM Unit) : VisitM Unit := do
  modifySymbols (·.enterScope)
  secondPassOnly (emit generateScopeEntry)
  let indent ← indentLevel
  statements
  secondPassOnly (releaseScope gen indent)
  modifySymbols (·.exitScope)
  secondPassOnly (emit (indent ++ generateScopeExit))

/-- What `visitReturnStmt` writes, `src/ast/TranspilerVisitor.cpp:219–233`. -/
def emitReturn (returnExpr : Str) : VisitM Unit := do
  let indent ← indentLevel
  emitIncRef gen indent (← lookupSymbol returnExpr) "NULL"
  releaseScope gen indent
  emit (indent ++ generateReturn returnExpr)

/-- `visitReturnStmt`, `src/ast/TranspilerVisitor.cpp:213–235`. -/
def visitReturnStmt (e : Option Expr) : VisitM Unit := do
  setAddRefCounts false
  let returnExpr ← visitPresent gen e
  setAddRefCounts true
  secondPassOnly (emitReturn gen returnExpr)

/-- `visitExprStmt`, `src/ast/TranspilerVisitor.cpp:237–244`. -/
def visitExprStmt (e : Expr) : VisitM Unit := do
  let output ← visitExpr gen e
  secondPassOnly do emit ((← indentLevel) ++ output ++ ";\n")

/-- A condition between two texts, visited without reference counting,
`src/ast/TranspilerVisitor.cpp:892–895` and `:914–917`. -/
def visitCondition (before : Str) (cond : Expr) (after : Str) : VisitM Unit := do
  setAddRefCounts false
  emit before
  let code ← visitExpr gen cond
  emit (code ++ after)
  setAddRefCounts true

/-- The first clause of a loop, `src/ast/TranspilerVisitor.cpp:255–278`. -/
def visitForInit : ForInit → VisitM Unit
  | .varDecl d none => do
    let (varName, varType) ← declaratorType d
    emit (varType.toStr ++ " " ++ varName)
    addSymbol varName varType
  | .varDecl d (some e) => do
    let (varName, varType) ← declaratorType d
    emit (varType.toStr ++ " " ++ varName)
    let initExpr ← visitExpr gen e
    emit (" = " ++ initExpr)
    addSymbol varName varType
  | .exprStmt e => do
    let exprStr ← visitExpr gen e
    emit exprStr
  | .none => pure ()

/-- The second clause of a loop, `src/ast/TranspilerVisitor.cpp:282–286`. -/
def visitForCond : Option Expr → VisitM Unit
  | none => pure ()
  | some e => visitCondition gen "" e ""

/-- The third clause of a loop, `src/ast/TranspilerVisitor.cpp:290–292`. -/
def visitForStep : Option Expr → VisitM Unit
  | none => pure ()
  | some e => do
    let code ← visitExpr gen e
    emit code

/-- The head of a loop, `src/ast/TranspilerVisitor.cpp:253–294`. A step without a condition is
the first expression and stands in the place of the condition. -/
def visitForHead (init : ForInit) (cond step : Option Expr) : VisitM Unit := do
  emit ((← indentLevel) ++ "for (")
  visitForInit gen init
  emit "; "
  visitForCond gen (cond.or step)
  emit "; "
  visitForStep gen (cond.bind fun _ ↦ step)
  emit ") "

/-- The type that a `typedef` names. -/
def typedefType : TypedefBody → VisitM Ty
  | .structDecl d => getStructFromCode d
  | .typeSpec t => resolveTypeFromContext t

/-- `visitTypedefDecl`, `src/ast/TranspilerVisitor.cpp:983–995`. -/
def visitTypedefDecl (body : TypedefBody) (name : Ident) : VisitM Unit := do
  let type ← typedefType body
  if ← inFirstPass then modifyTypes (·.registerTypeDef name.text type)
  else emit (generateTypeDef name.text type)

/-- `visitStructDecl`, `src/ast/TranspilerVisitor.cpp:521–528`. -/
def visitStructDecl (d : StructDecl) : VisitM Unit := do
  let structType ← getStructFromCode d
  secondPassOnly (emit (generateStructDecl structType.structName structType))

/-- `generateParentConstructorCall`, `src/ast/TranspilerVisitor.cpp:559–576`, in the second
pass. -/
def parentConstructorCall : Option (Ident × List Expr) → VisitM Str
  | none => return ""
  | some (parentName, args) => do
    if args.isEmpty then throw .nullAccess
    let args ← visitArgs gen args
    return (← indentLevel) ++ generateFunctionCall (parentName.text ++ "_" ++ parentName.text)
      ("&(this->parent)" :: args) ++ ";\n"

/-- The struct of a class, `src/ast/TranspilerVisitor.cpp:604–615`. -/
def classStruct (ts : TypeSystem) (className : Str) (classType : Ty) : Str :=
  "struct " ++ className ++ " \x7b\n" ++
    ((classLayout ts className classType).map LayoutMember.text).flatten ++ "\x7d;\n\n"

/-- A constructor or method up to its body: the receiver and the parameters,
`src/ast/TranspilerVisitor.cpp:624–642` and `:689–707`. -/
def memberParams (classType : Ty) (params : List Declarator) : VisitM (List (Str × Ty)) := do
  let params ← declaratorTypes params
  return ("this", classType.setPointer) :: params

/-- The vtable pointer of a new object, `src/ast/TranspilerVisitor.cpp:652–660`. -/
def storeVTable (className : Str) (classType : Ty) : VisitM Unit := do
  let allVirtuals ← askTypes (·.getAllVirtualMethods className)
  if allVirtuals.isEmpty then pure ()
  else emit ("    " ++ (VTablePath.ofType classType).fromThis ++ " = &" ++ className ++ "_vtable;\n")

/-- The beginning of a constructor's definition, `src/ast/TranspilerVisitor.cpp:649–660`. -/
def constructorPrologue (className : Str) (classType : Ty) (constructor : Function)
    (parentCall : Option (Ident × List Expr)) : VisitM Unit := do
  emit (generateFunctionDecl constructor ++ " \x7b\n")
  let call ← parentConstructorCall gen parentCall
  emit call
  storeVTable className classType

/-- Whether a method is virtual: its text says so, or it overrides a virtual method of the parent
class, `src/ast/TranspilerVisitor.cpp:673–687`. -/
def methodIsVirtual (ts : TypeSystem) (classType : Ty) (methodName methodText : Str) :
    Except VisitError Bool :=
  if occursIn "virtual" methodText then pure true
  else if classType.hasParent then do
    let parentVirtuals ← ts.getAllVirtualMethods classType.parentClass
    pure (parentVirtuals.any fun parentMethod ↦ baseName parentMethod.name = methodName)
  else pure false

/-- The first pass adds a class to `classNames`, the second one writes its struct. -/
def announceClass (className : Str) (classType : Ty) : VisitM Unit := do
  if ← inFirstPass then
    modify fun s ↦ { s with classNames := s.classNames ++ [className] }
  else emit (classStruct (← get).typeSystem className classType)

/-- The registration of a method, with its record. -/
def registerMethod (className methodName : Str) (saysVirtual : Bool) (method : Function) :
    VisitM Unit :=
  modify fun s ↦ { s with
    typeSystem := s.typeSystem.registerClassMethod className method
    registered := s.registered ++ [⟨className, methodName, saysVirtual, method, s.typeSystem⟩] }

/-- The header of a method's definition, with its record. -/
def defineMethod (method : Function) : VisitM Unit := do
  emit (generateFunctionDecl method)
  modify fun s ↦ { s with defined := s.defined ++ [method] }

/-- The body of a method: a virtual one gets its receiver back, and is not visited in the first
pass, `src/ast/TranspilerVisitor.cpp:714–725`. -/
def methodBody (className : Str) (isVirtual : Bool) (body : VisitM Unit) : VisitM Unit :=
  if isVirtual then
    secondPassOnly do
      emit (" \x7b\n    struct " ++ className ++ "* this = (struct " ++ className ++
        "*)this_param;\n")
      body
      emit "\x7d\n\n"
  else body

mutual

/-- The visit of a statement, by kind. -/
def visitStmt : Stmt → VisitM Unit
  | .functionDecl result name params body => do
    let params ← declaratorTypes params
    let returnType ← resolveTypeFromContext result
    let func : Function := { name := name.text, params, returnType }
    firstPassOnly (modifyTypes (·.registerFunction func))
    setCurrentFunc func
    secondPassOnly do
      emit (generateFunctionDecl func)
      inBlock gen (visitStmts body)
    setCurrentFunc none
  | .varDecl d init => visitVarDecl gen d init
  | .spawnStmt _ => pure ()
  | .returnStmt e => visitReturnStmt gen e
  | .exprStmt e => visitExprStmt gen e
  | .block body => inBlock gen (visitStmts body)
  | .structDecl d => visitStructDecl d
  | .classDecl name parent members => do
    let classType ← getClassFromCode name parent members
    announceClass name.text classType
    visitMembers name.text classType members
  | .ifStmt cond thenBranch none =>
    secondPassOnly do
      visitCondition gen ((← indentLevel) ++ "if (") cond ") \x7b\n"
      visitStmt thenBranch
      emit "\x7d\n"
  | .ifStmt cond thenBranch (some elseBranch) =>
    secondPassOnly do
      visitCondition gen ((← indentLevel) ++ "if (") cond ") \x7b\n"
      visitStmt thenBranch
      emit "\x7d\n"
      emit ((← indentLevel) ++ "else \x7b\n")
      visitStmt elseBranch
      emit "\x7d\n"
  | .whileStmt cond body =>
    secondPassOnly do
      visitCondition gen ((← indentLevel) ++ "while (") cond ") \x7b\n"
      visitStmt body
      emit "\x7d\n"
  | .forStmt init cond step body =>
    -- The test is the other way round than in the other visits.
    firstPassOnly do
      let indent ← indentLevel
      visitForHead gen init cond step
      -- A `StatementContext` is never a `BlockContext`, so the cast fails for every body.
      emit "\x7b\n"
      visitStmt body
      emit (indent ++ "\x7d\n")
  | .typedefDecl body name => visitTypedefDecl body name

/-- The statements of a list, in order. -/
def visitStmts : List Stmt → VisitM Unit
  | [] => pure ()
  | s :: ss => do
    visitStmt s
    visitStmts ss

/-- The part of `visitClassDecl` for one member, `src/ast/TranspilerVisitor.cpp:618–729`. -/
def visitMember (className : Str) (classType : Ty) : ClassMember → VisitM Unit
  | .field _ => pure ()
  | .constructor _ params parentCall body => do
    let params ← memberParams classType params
    let constructor : Function := { name := className ++ "_" ++ className, params }
    firstPassOnly (modifyTypes (·.registerClassConstructor className constructor))
    setCurrentFunc constructor
    secondPassOnly (constructorPrologue gen className classType constructor parentCall)
    inBlock gen (visitStmts body)
    secondPassOnly (emit "\x7d\n\n")
    setCurrentFunc none
  | .method virtualKeyword result name params body => do
    let returnType ← resolveTypeFromContext result
    let methodText := (ClassMember.method virtualKeyword result name params body).getText
    let isVirtual ← askTypes fun ts ↦ methodIsVirtual ts classType name.text methodText
    let params ← memberParams classType params
    let method : Function := { name := className ++ "_" ++ name.text, params, returnType, isVirtual }
    firstPassOnly (registerMethod className name.text (occursIn "virtual" methodText) method)
    setCurrentFunc method
    secondPassOnly (defineMethod method)
    methodBody className isVirtual (inBlock gen (visitStmts body))
    setCurrentFunc none

/-- The members of a class, in order. -/
def visitMembers (className : Str) (classType : Ty) : List ClassMember → VisitM Unit
  | [] => pure ()
  | m :: ms => do
    visitMember className classType m
    visitMembers className classType ms

end

/-! ### Programs -/

/-- `visitPreprocessorDirective`, `src/ast/TranspilerVisitor.cpp:482–495`. -/
def visitPreprocessorDirective : Directive → VisitM Unit
  | .include file => emit (Directive.include file).getText
  | .define name value => do
    let value : Str := match value with
      | none => ""
      | some (.inl n) => n.text
      | some (.inr s) => s.text
    modifyTypes (·.registerDefine name.text value)
    emit ("#define " ++ name.text ++ " " ++ value ++ "\n")

/-- The directives of a program, each with a line end. -/
def visitDirectives : List Directive → VisitM Unit
  | [] => pure ()
  | d :: ds => do
    visitPreprocessorDirective d
    emit "\n"
    visitDirectives ds

/-- One pass over the statements, each with a line end. -/
def visitTopLevel : List Stmt → VisitM Unit
  | [] => pure ()
  | s :: ss => do
    visitStmt gen s
    emit "\n"
    visitTopLevel ss

/-- The first pass: the beginning of `visitProgram`, `src/ast/TranspilerVisitor.cpp:8–19`. -/
def firstPassProgram (p : Program) : VisitM Unit := do
  emit "#include \"runtime.h\"\n"
  visitDirectives p.directives
  modify fun s ↦ { s with firstPass := true }
  visitTopLevel gen p.statements

/-- What is written between the passes, `src/ast/TranspilerVisitor.cpp:21–55`. -/
def emitVTables : VisitM Unit := do
  let vtableStruct ← askTypes (·.generateVTableStruct)
  emit vtableStruct
  let classNames := (← get).classNames
  let prototypes ← askTypes fun ts ↦ vtablePrototypes ts classNames []
  emit (prototypes.map fun func ↦ generateFunctionDecl func ++ ";\n").flatten
  emit "\n"
  let instances ← askTypes fun ts ↦ vtableInstances ts classNames
  emit instances

/-- The registration of a global root. -/
def registerRootText (name : Str) : Str := "    runtime_register_root(&" ++ name ++ ");\n"

/-- The second pass and the `main` function, `src/ast/TranspilerVisitor.cpp:57–69`. -/
def secondPassProgram (p : Program) : VisitM Unit := do
  modify fun s ↦ { s with firstPass := false }
  visitTopLevel gen p.statements
  emit "int main() \x7b\n    runtime_init();\n"
  let globalVars := (← get).symbolTable.globalVars
  emit (globalVars.map fun var ↦ registerRootText var.1).flatten
  emit "    main_();\n    runtime_shutdown();\n\x7d\n"

/-- `visitProgram`, `src/ast/TranspilerVisitor.cpp:6–72`. -/
def visitProgram (p : Program) : VisitM Unit := do
  firstPassProgram gen p
  emitVTables
  secondPassProgram gen p

/-- The members of the visitor after `visitProgram`, or why it did not return. -/
def translate (p : Program) : Except VisitError VState := do
  let (_, s) ← (visitProgram gen p).run {}
  pure s

end JBLang.Ast
