import JBLang.Ast.Grammar
import JBLang.Codegen.CCodeGenerator

/-!
# State and helpers of the visitor

The members of `TranspilerVisitor`, `include/jblang/ast/TranspilerVisitor.h:90–101`, and the
helper functions of `src/ast/TranspilerVisitor.cpp` that visit no node.
-/

namespace JBLang.Ast

open JBLang.Base JBLang.Types JBLang.Codegen

/-- A registered method: the class, its own name, whether the text of its declaration contains
`virtual`, what is registered, and the types of that moment. -/
structure MethodEntry where
  className : Str
  methodName : Str
  saysVirtual : Bool
  method : Function
  types : TypeSystem

/-- The members of `TranspilerVisitor`. The fields from `registered` on are a record of the run
that no visit reads. -/
structure VState where
  output : Str := []
  symbolTable : SymbolTable := {}
  typeSystem : TypeSystem := {}
  firstPass : Bool := false
  tempVarCounter : Nat := 0
  addRefCounts : Bool := true
  classNames : List Str := []
  /-- The methods registered in the first pass, in the order of their registration. -/
  registered : List MethodEntry := []
  /-- The method headers written in the second pass. -/
  defined : List Function := []

/-- Visits read and change the members and may fail. -/
abbrev VisitM := StateT VState (Except VisitError)

/-- `m_output << text`. -/
def emit (text : Str) : VisitM Unit := modify fun s ↦ { s with output := s.output ++ text }

/-- `m_symbolTable->getIndentLevel()`. -/
def indentLevel : VisitM Str := do return (← get).symbolTable.getIndentLevel

/-- `m_symbolTable->lookupSymbol(name, var)`. -/
def lookupSymbol (name : Str) : VisitM (Option Variable) := do
  return (← get).symbolTable.lookupSymbol name

/-- `m_first_pass`. -/
def inFirstPass : VisitM Bool := do return (← get).firstPass

/-- `if (m_first_pass)`. -/
def firstPassOnly (m : VisitM Unit) : VisitM Unit := do
  if ← inFirstPass then m else pure ()

/-- `if (!m_first_pass)`. -/
def secondPassOnly (m : VisitM Unit) : VisitM Unit := do
  if ← inFirstPass then pure () else m

/-- Change the symbol table. -/
def modifySymbols (f : SymbolTable → SymbolTable) : VisitM Unit :=
  modify fun s ↦ { s with symbolTable := f s.symbolTable }

/-- Change the type system. -/
def modifyTypes (f : TypeSystem → TypeSystem) : VisitM Unit :=
  modify fun s ↦ { s with typeSystem := f s.typeSystem }

/-- Set `addRefCounts`. -/
def setAddRefCounts (b : Bool) : VisitM Unit := modify fun s ↦ { s with addRefCounts := b }

/-- Set `currentFunc`. -/
def setCurrentFunc (f : Option Function) : VisitM Unit :=
  modifySymbols fun st ↦ { st with currentFunc := f }

/-- `m_symbolTable->addSymbol(name, type)`. -/
def addSymbol (name : Str) (type : Ty) : VisitM Unit := do
  let s ← get
  let st ← s.symbolTable.addSymbol name type
  set { s with symbolTable := st }

/-- A question to the type system. -/
def askTypes {α : Type} (f : TypeSystem → Except VisitError α) : VisitM α := do
  f (← get).typeSystem

/-- An operation of the type system that changes it and returns a type. -/
def updateTypes (f : TypeSystem → Except VisitError (TypeSystem × Ty)) : VisitM Ty := do
  let s ← get
  let (ts, type) ← f s.typeSystem
  set { s with typeSystem := ts }
  return type

/-- A pointer variable, if it is one. -/
def pointerVar (var : Option Variable) : Option Variable := var.filter (·.type.isPointer)

/-! ### Types from parse trees -/

/-- `resolveTypeFromContext` on the text of a specifier, `src/ast/TranspilerVisitor.cpp:1071–1094`. -/
def resolveTypeText (ts : TypeSystem) (typeText : Str) : Except VisitError Ty :=
  if typeText.take 6 = "struct" then
    let structName := typeText.drop 6
    if structName.getLast? = some '*' then do
      let structType ← ts.resolveType structName.dropLast
      pure structType.setPointer
    else ts.resolveType structName
  else ts.resolveType typeText

/-- `resolveTypeFromContext`. -/
def resolveTypeFromContext (t : TypeSpec) : VisitM Ty :=
  askTypes fun ts ↦ resolveTypeText ts t.getText

/-- One size of an array declarator. -/
def arraySizeValue (ts : TypeSystem) : ArraySize → Except VisitError Int
  | .define name => stoi (ts.getDefineValue name.text)
  | .integer n => stoi n.text

/-- The name and type of a declarator; the array case is `getArrayFromCode`,
`src/ast/TranspilerVisitor.cpp:74–91`. -/
def declaratorType : Declarator → VisitM (Str × Ty)
  | .plain t name => do
    let type ← resolveTypeFromContext t
    return (name.text, type)
  | .array t name sizes => do
    let type ← resolveTypeFromContext t
    let sizes ← askTypes fun ts ↦ sizes.mapM (arraySizeValue ts)
    return (name.text, type.setArray name.text sizes)

/-- The declarators of a list, in order. -/
def declaratorTypes : List Declarator → VisitM (List (Str × Ty))
  | [] => return []
  | d :: ds => do
    let p ← declaratorType d
    let ps ← declaratorTypes ds
    return p :: ps

/-- `getStructFromCode`, `src/ast/TranspilerVisitor.cpp:497–519`. -/
def getStructFromCode (d : StructDecl) : VisitM Ty := do
  firstPassOnly (modifyTypes (·.registerStruct d.name.text))
  let members ← declaratorTypes d.members
  updateTypes (·.setStructMembers d.name.text members)

/-- The fields among the members of a class. -/
def fieldDeclarators : List ClassMember → List Declarator
  | [] => []
  | .field d :: ms => d :: fieldDeclarators ms
  | .method .. :: ms | .constructor .. :: ms => fieldDeclarators ms

/-- The parent link of a class, where the declaration names a parent. -/
def setParent (name : Ident) : Option Ident → VisitM Unit
  | none => pure ()
  | some parent => do
    let ts ← askTypes (·.setClassParent name.text parent.text)
    modifyTypes fun _ ↦ ts

/-- `getClassFromCode`, `src/ast/TranspilerVisitor.cpp:530–557`. -/
def getClassFromCode (name : Ident) (parent : Option Ident) (members : List ClassMember) :
    VisitM Ty := do
  firstPassOnly (modifyTypes (·.registerClass name.text))
  setParent name parent
  let fields ← declaratorTypes (fieldDeclarators members)
  updateTypes (·.setClassMembers name.text fields)

/-- `resolveFieldAccess`, `src/ast/TranspilerVisitor.cpp:578–594`. -/
def resolveFieldAccess (ts : TypeSystem) (fieldName className : Str) : Except VisitError Str := do
  let classType ← ts.resolveType className
  if (classType.structMembers.map Prod.fst).contains fieldName then pure ("this->" ++ fieldName)
  else if classType.hasParent then pure ("this->parent." ++ fieldName)
  else .error (.compiler .nameError ("Field not found: " ++ fieldName))

/-! ### Class layouts and virtual calls -/

/-- A member of the struct that a class becomes. -/
inductive LayoutMember where
  | parent (className : Str)
  | vtable
  | field (name : Str) (type : Ty)

namespace LayoutMember

/-- The name of the member. -/
def name : LayoutMember → Str
  | .parent _ => "parent"
  | .vtable => "vtable"
  | .field name _ => name

/-- The line that declares the member. -/
def text : LayoutMember → Str
  | .parent className => "    struct " ++ className ++ " parent;\n"
  | .vtable => "    struct vtable* vtable;\n"
  | .field name type => "    " ++ type.toStr ++ " " ++ name ++ ";\n"

end LayoutMember

/-- The member that `visitClassDecl` writes before the fields of a class. -/
def layoutHead (ts : TypeSystem) (className : Str) (classType : Ty) : Option LayoutMember :=
  if classType.hasParent then some (.parent classType.parentClass)
  else if ts.hasVirtualMethods className then some .vtable
  else none

/-- The members of the struct that `visitClassDecl` writes for a class,
`src/ast/TranspilerVisitor.cpp:606–614`. -/
def classLayout (ts : TypeSystem) (className : Str) (classType : Ty) : List LayoutMember :=
  (layoutHead ts className classType).toList ++
    classType.structMembers.map fun m ↦ .field m.1 m.2

/-- The two ways to the vtable pointer of an object. -/
inductive VTablePath where
  | own
  | viaParent
deriving DecidableEq

namespace VTablePath

/-- The way that is taken for an object of a class type: by whether it has a parent. -/
def ofType (classType : Ty) : VTablePath := if classType.hasParent then .viaParent else .own

/-- The member names along the way. -/
def members : VTablePath → List Str
  | .own => ["vtable".toList]
  | .viaParent => ["parent".toList, "vtable".toList]

/-- The way from `this`, as a constructor writes it. -/
def fromThis : VTablePath → Str
  | .own => "this->vtable"
  | .viaParent => "(this->parent).vtable"

/-- The way from an object, as a virtual call reads it. -/
def fromObject (objExpr : Str) : VTablePath → Str
  | .own => objExpr ++ "->vtable"
  | .viaParent => objExpr ++ "->parent.vtable"

end VTablePath

/-- The method of this name that a class has under its own name. -/
def ownMethod (ts : TypeSystem) (methodName className : Str) : Option Function :=
  (ts.getClassMethods className).find? fun method ↦ method.name = className ++ "_" ++ methodName

/-- The lookup loop of `visitMethodCallExpr`, `src/ast/TranspilerVisitor.cpp:813–831`: the class
that declares the method, and the method. -/
def findMethodFrom (ts : TypeSystem) (className methodName : Str) :
    Nat → Str → Except VisitError (Str × Function)
  | 0, _ => .error .diverges
  | fuel + 1, currentClass => match ownMethod ts methodName currentClass with
    | some method => .ok (currentClass, method)
    | none => match ts.resolveType currentClass with
      | .error e => .error e
      | .ok classType =>
        if classType.hasParent then
          findMethodFrom ts className methodName fuel classType.parentClass
        else .error (.compiler .nameError
          ("Method not found: " ++ methodName ++ " in class " ++ className))

/-- The method that a call on an object of static class `className` finds. -/
def findMethod (ts : TypeSystem) (className methodName : Str) :
    Except VisitError (Str × Function) :=
  findMethodFrom ts className methodName ts.walkBound className

/-- Add a method to the prototypes unless one of its name is there. -/
def declareOnce (declared : List Function) (method : Function) : List Function :=
  if (declared.map (·.name)).contains method.name then declared else declared ++ [method]

/-- The prototypes that `visitProgram` writes between the passes,
`src/ast/TranspilerVisitor.cpp:23–47`; `declaredMethods` holds the names of those made so far. -/
def vtablePrototypes (ts : TypeSystem) :
    List Str → List Function → Except VisitError (List Function)
  | [], declared => pure declared
  | className :: classNames, declared => do
    let allVirtuals ← ts.getAllVirtualMethods className
    let declared := allVirtuals.foldl declareOnce declared
    vtablePrototypes ts classNames ((ts.getVirtualMethods className).foldl declareOnce declared)

/-- The vtable instances, `src/ast/TranspilerVisitor.cpp:50–55`. -/
def vtableInstances (ts : TypeSystem) : List Str → Except VisitError Str
  | [] => pure ""
  | className :: classNames => do
    let text ← ts.generateVTableInstance className
    let rest ← vtableInstances ts classNames
    pure (text ++ rest)

end JBLang.Ast
