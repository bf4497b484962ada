import JBLang.Base.Text

/-!
# Types, functions and errors

Model of `Type` and `Function` of `include/jblang/types/TypeSystem.h` and of the ways in which
a translation can end without output. `NO_TYPE` has no counterpart: it occurs only as an
argument that `generateReturn` ignores. Neither have the flags `m_isConst` and
`m_hasVirtualMethods`, which nothing reads.
-/

namespace JBLang.Types

open JBLang.Base

/-- `CompilerError::ErrorType`, as far as errors are raised. -/
inductive ErrorType where
  | typeError
  | nameError
  | other
deriving DecidableEq, Repr

/-- Ways for a visit not to return. -/
inductive VisitError where
  /-- A `CompilerError`. -/
  | compiler (type : ErrorType) (message : Str)
  /-- Another `std::runtime_error`. -/
  | runtime (message : Str)
  /-- `std::stoi` finds no number, or one that is no `int`. -/
  | stoi
  /-- `std::bad_any_cast`: the visited node gives no string. -/
  | badAnyCast
  /-- An absent child is visited or read. -/
  | nullAccess
  /-- A walk along the parent links does not end. -/
  | diverges
deriving DecidableEq, Repr

/-- `Type::BaseType`. -/
inductive BaseType where
  | void
  | int
  | string
  | bool
  | struct
  | «class»
deriving DecidableEq, Repr

/-- `Type`; `array` holds the name and the sizes of an array, and a parent class or a struct
name that is not set is empty. -/
structure Ty where
  base : BaseType
  isPointer : Bool := false
  array : Option (Str × List Int) := none
  structName : Str := []
  parentClass : Str := []
  structMembers : List (Str × Ty) := []

namespace Ty

/-- `isArray`. -/
def isArray (t : Ty) : Bool := t.array.isSome

/-- `isStruct`. -/
def isStruct (t : Ty) : Bool := t.base == .struct

/-- `isClass`. -/
def isClass (t : Ty) : Bool := t.base == .class

/-- `getArrayName`. -/
def getArrayName (t : Ty) : Str := (t.array.map Prod.fst).getD []

/-- `getArraySizes`. -/
def getArraySizes (t : Ty) : List Int := (t.array.map Prod.snd).getD []

/-- `hasParent`. -/
def hasParent (t : Ty) : Bool := !t.parentClass.isEmpty

/-- The types differ at most in being a pointer or an array. -/
structure SameCore (t t₀ : Ty) : Prop where
  base : t.base = t₀.base
  structName : t.structName = t₀.structName
  parentClass : t.parentClass = t₀.parentClass
  structMembers : t.structMembers = t₀.structMembers

theorem SameCore.refl (t : Ty) : t.SameCore t := ⟨rfl, rfl, rfl, rfl⟩

theorem SameCore.trans {t t₁ t₂ : Ty} (h : t.SameCore t₁) (h' : t₁.SameCore t₂) : t.SameCore t₂ :=
  ⟨h.base.trans h'.base, h.structName.trans h'.structName, h.parentClass.trans h'.parentClass,
    h.structMembers.trans h'.structMembers⟩

theorem SameCore.hasParent {t t₀ : Ty} (h : t.SameCore t₀) : t.hasParent = t₀.hasParent := by
  rw [Ty.hasParent, h.parentClass, Ty.hasParent]

/-- `setPointer(true)`. -/
def setPointer (t : Ty) : Ty := { t with isPointer := true }

/-- `setArray`. -/
def setArray (t : Ty) (name : Str) (sizes : List Int) : Ty := { t with array := some (name, sizes) }

/-- `setStructMembers`. -/
def setStructMembers (t : Ty) (members : List (Str × Ty)) : Ty := { t with structMembers := members }

/-- `setParentClass`. -/
def setParentClass (t : Ty) (parent : Str) : Ty := { t with parentClass := parent }

end Ty

/-- `Type::baseTypeToString`, `src/types/TypeSystem.cpp:32–43`. -/
def baseTypeToString : BaseType → Str
  | .void => "void"
  | .int => "int"
  | .string => "char*"
  | .bool => "bool"
  | .struct | .class => "struct"

/-- The dimensions of an array, as they are printed. -/
def sizesText (sizes : List Int) : Str := (sizes.map fun n ↦ "[" ++ decimalInt n ++ "]").flatten

/-- `Type::toString`, `src/types/TypeSystem.cpp:45–66`. -/
def Ty.toStr (t : Ty) : Str :=
  let str := if t.isStruct || t.isClass then "struct " ++ t.structName else baseTypeToString t.base
  let str := match t.array with
    | some (name, sizes) => str ++ " " ++ name ++ sizesText sizes
    | none => str
  if t.isPointer then str ++ "*" else str

/-- `outputVariable`, `src/types/TypeSystem.cpp:5–11`. -/
def outputVariable (type : Ty) (name : Str) : Str :=
  if type.isArray then type.toStr else type.toStr ++ " " ++ name

/-- `Function`. -/
structure Function where
  name : Str
  params : List (Str × Ty) := []
  returnType : Ty := { base := .void }
  isVirtual : Bool := false

/-- `Function::getSignature`, `src/types/TypeSystem.cpp:13–30`. -/
def Function.getSignature (f : Function) : Str :=
  let funcName : Str := if f.name = "main" then "main_" else f.name
  f.returnType.toStr ++ " " ++ funcName ++ "(" ++
    joinWith ", " (f.params.map fun p ↦ outputVariable p.2 p.1) ++ ")"

end JBLang.Types
