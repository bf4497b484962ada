import JBLang.Types.Basic
import Mathlib.Algebra.Group.Nat.Defs

/-!
# The type system

Model of `src/types/TypeSystem.cpp` and of the inline members of
`include/jblang/types/TypeSystem.h`. The maps are ordered by key, as `std::map` is. A loop that
follows parent links visits each name at most once or runs forever, so it is given as many
rounds as there are declared names and one more.
-/

namespace JBLang.Types

open JBLang.Base

/-- `std::map` with text keys. -/
abbrev NameMap (V : Type) := Std.TreeMap Str V

theorem NameMap.lookup_insert {V : Type} (m : NameMap V) (name : Str) (v : V) (n : Str) :
    (m.insert name v)[n]? = if n = name then some v else m[n]? := by
  rw [Std.TreeMap.getElem?_insert]
  by_cases h : n = name
  · simp [h]
  · simp [h, Ne.symm h]

/-- `TypeSystem`. -/
structure TypeSystem where
  typedefs : NameMap Ty := ∅
  funcs : NameMap Function := ∅
  defines : NameMap Str := ∅
  structs : NameMap Ty := ∅
  classes : NameMap Ty := ∅
  classMethods : NameMap (List Function) := ∅
  classConstructors : NameMap Function := ∅

/-- `std::stoi` on the texts it is called with: the digits at the start are the number. -/
def stoi (s : Str) : Except VisitError Int :=
  let digits := s.takeWhile Char.isDigit
  let n := digits.foldl (fun n c ↦ 10 * n + (c.toNat - '0'.toNat)) 0
  if digits.isEmpty || n ≥ 2 ^ 31 then .error .stoi else .ok n

/-- The part of a mangled name behind its first underscore,
`name.substr(name.find('_')+1)`; without underscore the whole name. -/
def baseName (name : Str) : Str :=
  match beforeFirst "_" name with
  | some pre => name.drop (pre.length + 1)
  | none => name

/-- A mangled name gives back the method's name when the class name has no underscore. -/
theorem baseName_mangled {className : Str} (h : '_' ∉ className) (methodName : Str) :
    baseName (className ++ "_" ++ methodName) = methodName := by
  have hname : className ++ "_".toList ++ methodName = className ++ '_' :: methodName := by
    rw [List.append_assoc]; rfl
  have hpre : beforeFirst "_".toList (className ++ '_' :: methodName) = some className :=
    beforeFirst_append_of_not_mem h methodName
  rw [baseName, hname, hpre]
  simp

theorem mangled_inj {C C' m m' : Str} (hC : '_' ∉ C) (hC' : '_' ∉ C')
    (h : C ++ "_" ++ m = C' ++ "_" ++ m') : C = C' ∧ m = m' := by
  have hm : m = m' := by rw [← baseName_mangled hC m, h, baseName_mangled hC']
  rw [hm, List.append_assoc, List.append_assoc] at h
  exact ⟨List.append_cancel_right h, hm⟩

namespace TypeSystem

/-- Rounds of a loop along parent links. -/
def walkBound (ts : TypeSystem) : Nat :=
  ts.typedefs.size + ts.structs.size + ts.classes.size + 1

/-- The chain of tests of `translateType` for a name without `*` and `[`. -/
def resolveBase (ts : TypeSystem) (baseType sourceType : Str) : Except VisitError Ty :=
  if baseType = "void" then .ok { base := .void }
  else if baseType = "int" then .ok { base := .int }
  else if baseType = "string" then .ok { base := .string, isPointer := true }
  else if baseType = "bool" then .ok { base := .bool }
  else match ts.typedefs[baseType]? with
    | some t => .ok t
    | none => match ts.structs[baseType]? with
      | some t => .ok t
      | none => match ts.classes[baseType]? with
        | some t => .ok t
        | none => .error (.runtime ("Unknown type: " ++ sourceType))

/-- A type that needs no declaration. -/
structure Builtin (t : Ty) : Prop where
  not_struct : t.base ≠ .struct
  not_class : t.base ≠ .class
  parentClass : t.parentClass = []

variable {ts : TypeSystem} {name : Str}

/-- A name stands for a builtin type or for an entry of the tables. -/
theorem resolveBase_eq_ok {source : Str} {t : Ty}
    (h : ts.resolveBase name source = .ok t) : Builtin t ∨ ts.typedefs[name]? = some t ∨
      ts.structs[name]? = some t ∨ ts.classes[name]? = some t := by
  unfold resolveBase at h
  iterate 4
    split at h
    · cases h
      exact .inl ⟨nofun, nofun, rfl⟩
  split at h
  next ht =>
    cases h
    exact .inr (.inl ht)
  next =>
    split at h
    next ht =>
      cases h
      exact .inr (.inr (.inl ht))
    next =>
      split at h
      next ht =>
        cases h
        exact .inr (.inr (.inr ht))
      next => cases h

/-- The size between the brackets; it is read and not used. -/
def bracketSize (sizeStr : Str) : Except VisitError Int :=
  if sizeStr.isEmpty then .ok 0 else stoi sizeStr

/-- The array part of `translateType`, `src/types/TypeSystem.cpp:110–120`. -/
def arrayType (type : Ty) (sourceType : Str) : Option Str → Except VisitError Ty
  | none => .ok type
  | some pre => match beforeFirst "]" sourceType with
    | none => .error (.runtime ("Invalid array type: " ++ sourceType))
    | some preEnd => do
      let _ ← bracketSize
        ((sourceType.drop (pre.length + 1)).take (preEnd.length - pre.length - 1))
      pure (type.setArray "james_fix" [-1])

/-- `translateType`, `src/types/TypeSystem.cpp:68–123`. -/
def translateType (ts : TypeSystem) (sourceType : Str) : Except VisitError Ty := do
  let arrayStart := beforeFirst "[" sourceType
  let pointerStart := beforeFirst "*" sourceType
  let baseType := pointerStart.getD (arrayStart.getD sourceType)
  let type ← ts.resolveBase baseType sourceType
  arrayType (if pointerStart.isSome then type.setPointer else type) sourceType arrayStart

theorem arrayType_sameCore {type t : Ty} {sourceType : Str} {arrayStart : Option Str}
    (h : arrayType type sourceType arrayStart = .ok t) : t.SameCore type := by
  unfold arrayType at h
  split at h
  next => cases h; exact .refl type
  next pre =>
    split at h
    next => cases h
    next preEnd _ =>
      cases hsize : bracketSize
        ((sourceType.drop (pre.length + 1)).take (preEnd.length - pre.length - 1)) with
      | error e => rw [hsize] at h; cases h
      | ok n => rw [hsize] at h; cases h; exact ⟨rfl, rfl, rfl, rfl⟩

/-- A translated type is a type of the tables or a builtin type, up to pointer and array. -/
theorem translateType_eq_ok {sourceType : Str} {t : Ty}
    (h : ts.translateType sourceType = .ok t) :
    ∃ baseType t₀, ts.resolveBase baseType sourceType = .ok t₀ ∧ t.SameCore t₀ := by
  unfold translateType at h
  cases ht : ts.resolveBase ((beforeFirst "*" sourceType).getD
    ((beforeFirst "[" sourceType).getD sourceType)) sourceType with
  | error e =>
    simp only [ht] at h
    cases h
  | ok t₀ =>
    simp only [ht] at h
    refine ⟨_, t₀, ht, (arrayType_sameCore h).trans ?_⟩
    split <;> exact ⟨rfl, rfl, rfl, rfl⟩

/-- `resolveType`. -/
def resolveType (ts : TypeSystem) (typeStr : Str) : Except VisitError Ty := ts.translateType typeStr

/-- The ways for the resolution of a type to fail. -/
theorem resolveType_eq_error {typeStr : Str} {e : VisitError}
    (h : ts.resolveType typeStr = .error e) : (∃ message, e = .runtime message) ∨ e = .stoi := by
  have hbase : ∀ {baseType e}, ts.resolveBase baseType typeStr = .error e →
      ∃ message, e = .runtime message := by
    intro baseType e he
    unfold resolveBase at he
    split_ifs at he
    split at he
    · cases he
    · split at he
      · cases he
      · split at he
        · cases he
        · cases he
          exact ⟨_, rfl⟩
  have hsize : ∀ {sizeStr e}, bracketSize sizeStr = .error e → e = .stoi := by
    intro sizeStr e he
    unfold bracketSize stoi at he
    simp only at he
    split_ifs at he
    cases he
    rfl
  have harray : ∀ {type arrayStart e}, arrayType type typeStr arrayStart = .error e →
      (∃ message, e = .runtime message) ∨ e = .stoi := by
    intro type arrayStart e he
    unfold arrayType at he
    split at he
    · cases he
    next pre =>
      split at he
      · cases he
        exact .inl ⟨_, rfl⟩
      next preEnd _ =>
        cases hs : bracketSize
          ((typeStr.drop (pre.length + 1)).take (preEnd.length - pre.length - 1)) with
        | error e' =>
          rw [hs] at he
          cases he
          exact .inr (hsize hs)
        | ok n =>
          rw [hs] at he
          cases he
  unfold resolveType translateType at h
  cases ht : ts.resolveBase ((beforeFirst "*" typeStr).getD
    ((beforeFirst "[" typeStr).getD typeStr)) typeStr with
  | error e' =>
    simp only [ht] at h
    cases h
    exact .inl (hbase ht)
  | ok t =>
    simp only [ht] at h
    exact harray h

/-- A name without `*` and `[` is looked up as it is. -/
theorem resolveType_plain (ts : TypeSystem) (hstar : '*' ∉ name)
    (hbracket : '[' ∉ name) : ts.resolveType name = ts.resolveBase name name := by
  have hs : beforeFirst "*".toList name = none := beforeFirst_of_not_mem hstar []
  have hb : beforeFirst "[".toList name = none := beforeFirst_of_not_mem hbracket []
  simp only [resolveType, translateType, hs, hb, Option.getD_none]
  cases ts.resolveBase name name <;> rfl

/-- `registerStruct`, `src/types/TypeSystem.cpp:125–131`. -/
def registerStruct (ts : TypeSystem) (name : Str) : TypeSystem :=
  { ts with structs := ts.structs.insert name { base := .struct, structName := name } }

/-- `setStructMembers`, `src/types/TypeSystem.cpp:133–142`. -/
def setStructMembers (ts : TypeSystem) (name : Str) (members : List (Str × Ty)) :
    Except VisitError (TypeSystem × Ty) :=
  match ts.structs[name]? with
  | none => .error (.compiler .typeError ("Struct not found: " ++ name))
  | some t =>
    let t := t.setStructMembers members
    .ok ({ ts with structs := ts.structs.insert name t }, t)

theorem setStructMembers_eq_ok {ts' : TypeSystem} {members : List (Str × Ty)}
    {type : Ty} : ts.setStructMembers name members = .ok (ts', type) ↔
      ∃ t, ts.structs[name]? = some t ∧ type = t.setStructMembers members ∧
        ts' = { ts with structs := ts.structs.insert name type } := by
  unfold setStructMembers
  cases ts.structs[name]? with
  | none => simp
  | some t => grind

/-- `registerTypeDef`, `src/types/TypeSystem.cpp:144–147`. -/
def registerTypeDef (ts : TypeSystem) (name : Str) (type : Ty) : TypeSystem :=
  { ts with typedefs := ts.typedefs.insert name type }

/-- `registerFunction`, `src/types/TypeSystem.cpp:149–155`. -/
def registerFunction (ts : TypeSystem) (func : Function) : TypeSystem :=
  { ts with funcs := ts.funcs.insert func.name func }

/-- `registerClass`, `src/types/TypeSystem.cpp:157–163`. -/
def registerClass (ts : TypeSystem) (name : Str) : TypeSystem :=
  { ts with classes := ts.classes.insert name { base := .class, structName := name } }

/-- `setClassMembers`, `src/types/TypeSystem.cpp:165–174`. -/
def setClassMembers (ts : TypeSystem) (name : Str) (members : List (Str × Ty)) :
    Except VisitError (TypeSystem × Ty) :=
  match ts.classes[name]? with
  | none => .error (.compiler .typeError ("Class not found: " ++ name))
  | some t =>
    let t := t.setStructMembers members
    .ok ({ ts with classes := ts.classes.insert name t }, t)

theorem setClassMembers_eq_ok {ts' : TypeSystem} {members : List (Str × Ty)}
    {type : Ty} : ts.setClassMembers name members = .ok (ts', type) ↔
      ∃ t, ts.classes[name]? = some t ∧ type = t.setStructMembers members ∧
        ts' = { ts with classes := ts.classes.insert name type } := by
  unfold setClassMembers
  cases ts.classes[name]? with
  | none => simp
  | some t => grind

/-- `getClassMethods`, `src/types/TypeSystem.cpp:184–188`. -/
def getClassMethods (ts : TypeSystem) (className : Str) : List Function :=
  ts.classMethods.getD className []

/-- `registerClassMethod`, `src/types/TypeSystem.cpp:176–182`. -/
def registerClassMethod (ts : TypeSystem) (className : Str) (method : Function) : TypeSystem :=
  { ts with
    classMethods := ts.classMethods.insert className (ts.getClassMethods className ++ [method]) }

/-- `registerClassConstructor`, `src/types/TypeSystem.cpp:190–196`. -/
def registerClassConstructor (ts : TypeSystem) (className : Str) (constructor : Function) :
    TypeSystem :=
  { ts with classConstructors := ts.classConstructors.insert className constructor }

/-- `getClassConstructor`, `src/types/TypeSystem.cpp:198–202`. -/
def getClassConstructor (ts : TypeSystem) (className : Str) : Option Function :=
  ts.classConstructors[className]?

/-- `setClassParent`, `src/types/TypeSystem.cpp:204–219`. -/
def setClassParent (ts : TypeSystem) (className parentName : Str) : Except VisitError TypeSystem :=
  match ts.classes[className]? with
  | none => .error (.compiler .typeError ("Class not found: " ++ className))
  | some t =>
    if ts.classes.contains parentName then
      .ok { ts with classes := ts.classes.insert className (t.setParentClass parentName) }
    else .error (.compiler .typeError ("Parent class not found: " ++ parentName))

theorem setClassParent_eq_ok {ts' : TypeSystem} {className parentName : Str} :
    ts.setClassParent className parentName = .ok ts' ↔
      ∃ t, ts.classes[className]? = some t ∧ parentName ∈ ts.classes ∧
        ts' = { ts with classes := ts.classes.insert className (t.setParentClass parentName) } := by
  unfold setClassParent
  cases ts.classes[className]? with
  | none => simp
  | some t =>
    rw [← Std.TreeMap.contains_iff_mem]
    cases ts.classes.contains parentName with
    | true => simp [eq_comm]
    | false => simp

/-- The parent link of a class, which all loops below follow. -/
def parentOf (ts : TypeSystem) (className : Str) : Option Str :=
  match ts.classes[className]? with
  | some t => if t.hasParent then some t.parentClass else none
  | none => none

/-- The loop of `isSubclassOf`. -/
def isSubclassFrom (ts : TypeSystem) (parent : Str) : Nat → Str → Except VisitError Bool
  | 0, _ => .error .diverges
  | fuel + 1, current => match ts.parentOf current with
    | none => pure false
    | some parentClass =>
      if parentClass = parent then pure true else ts.isSubclassFrom parent fuel parentClass

/-- `isSubclassOf`, `src/types/TypeSystem.cpp:221–238`. -/
def isSubclassOf (ts : TypeSystem) (child parent : Str) : Except VisitError Bool :=
  ts.isSubclassFrom parent ts.walkBound child

/-- The recursion of `getAllClassMembers`. -/
def allMembersFrom (ts : TypeSystem) : Nat → Str → Except VisitError (List (Str × Ty))
  | 0, _ => .error .diverges
  | fuel + 1, className => match ts.classes[className]? with
    | none => .error (.compiler .typeError ("Class not found: " ++ className))
    | some t =>
      if t.hasParent then do
        let parentMembers ← ts.allMembersFrom fuel t.parentClass
        pure (parentMembers ++ t.structMembers)
      else pure t.structMembers

/-- `getAllClassMembers`, `src/types/TypeSystem.cpp:240–258`. -/
def getAllClassMembers (ts : TypeSystem) (className : Str) :
    Except VisitError (List (Str × Ty)) :=
  ts.allMembersFrom ts.walkBound className

/-- `getVirtualMethods`, `src/types/TypeSystem.cpp:260–270`. -/
def getVirtualMethods (ts : TypeSystem) (className : Str) : List Function :=
  (ts.getClassMethods className).filter (·.isVirtual)

/-- `hasVirtualMethods`, `src/types/TypeSystem.cpp:272–275`. -/
def hasVirtualMethods (ts : TypeSystem) (className : Str) : Bool :=
  !(ts.getVirtualMethods className).isEmpty

/-- The body of the inner loop of `getAllVirtualMethods`; `seenMethods` holds the names of the
methods collected so far. -/
def addVirtual (allVirtuals : List Function) (method : Function) : List Function :=
  if method.isVirtual && !(allVirtuals.map (·.name)).contains method.name then
    allVirtuals ++ [method]
  else allVirtuals

/-- The loop of `getAllVirtualMethods`. -/
def allVirtualsFrom (ts : TypeSystem) :
    Nat → Str → List Function → Except VisitError (List Function)
  | 0, _, _ => .error .diverges
  | fuel + 1, current, allVirtuals => match ts.classes[current]? with
    | none => pure allVirtuals
    | some t =>
      let allVirtuals := (ts.getClassMethods current).foldl addVirtual allVirtuals
      if t.hasParent then ts.allVirtualsFrom fuel t.parentClass allVirtuals else pure allVirtuals

/-- `getAllVirtualMethods`, `src/types/TypeSystem.cpp:277–300`. -/
def getAllVirtualMethods (ts : TypeSystem) (className : Str) : Except VisitError (List Function) :=
  ts.allVirtualsFrom ts.walkBound className []

/-- The body of the loop of `generateVTableStruct`. -/
def addSlots (ts : TypeSystem) (slots : NameMap Unit) (className : Str) :
    Except VisitError (NameMap Unit) := do
  let virtuals ← ts.getAllVirtualMethods className
  pure (virtuals.foldl (fun slots method ↦ slots.insert (baseName method.name) ()) slots)

/-- The slots of `struct vtable`: a `std::set`, so each once and in order. -/
def vtableSlots (ts : TypeSystem) : Except VisitError (List Str) := do
  let slots ← ts.classes.keys.foldlM ts.addSlots ∅
  pure slots.keys

/-- The declaration of a slot. -/
def slotDecl (methodName : Str) : Str := "    void (*" ++ methodName ++ ")(void* this);\n"

/-- `generateVTableStruct`, `src/types/TypeSystem.cpp:302–321`. -/
def generateVTableStruct (ts : TypeSystem) : Except VisitError Str := do
  let slots ← ts.vtableSlots
  pure ("struct vtable \x7b\n" ++
    (slots.map slotDecl).flatten ++ "\x7d;\n\n")

/-- The loop of `findMethodImplementation`. -/
def implementationFrom (ts : TypeSystem) (methodName : Str) :
    Nat → Str → Except VisitError (Option Str)
  | 0, _ => .error .diverges
  | fuel + 1, current =>
    match (ts.getClassMethods current).find? fun method ↦ baseName method.name = methodName with
    | some method => pure (some method.name)
    | none => match ts.parentOf current with
      | none => pure none
      | some parent => ts.implementationFrom methodName fuel parent

/-- `findMethodImplementation`, `src/types/TypeSystem.cpp:344–362`. -/
def findMethodImplementation (ts : TypeSystem) (className methodName : Str) :
    Except VisitError Str := do
  let found ← ts.implementationFrom methodName ts.walkBound className
  pure (found.getD (className ++ "_" ++ methodName))

/-- The initialisers of a vtable instance, slot and function name; `processedMethods` holds the
slots of the entries made so far. -/
def vtableEntriesFrom (ts : TypeSystem) (className : Str) :
    List Function → List (Str × Str) → Except VisitError (List (Str × Str))
  | [], entries => pure entries
  | method :: methods, entries =>
    if (entries.map Prod.fst).contains (baseName method.name) then
      ts.vtableEntriesFrom className methods entries
    else do
      let implName ← ts.findMethodImplementation className (baseName method.name)
      ts.vtableEntriesFrom className methods (entries ++ [(baseName method.name, implName)])

/-- The initialisers of the vtable instance of a class. -/
def vtableEntries (ts : TypeSystem) (className : Str) : Except VisitError (List (Str × Str)) := do
  let allVirtuals ← ts.getAllVirtualMethods className
  ts.vtableEntriesFrom className allVirtuals []

/-- The initialiser of a slot. -/
def entryText (entry : Str × Str) : Str := "    ." ++ entry.1 ++ " = " ++ entry.2 ++ ",\n"

/-- `generateVTableInstance`, `src/types/TypeSystem.cpp:323–342`. -/
def generateVTableInstance (ts : TypeSystem) (className : Str) : Except VisitError Str := do
  let allVirtuals ← ts.getAllVirtualMethods className
  if allVirtuals.isEmpty then pure ""
  else do
    let entries ← ts.vtableEntriesFrom className allVirtuals []
    pure ("static struct vtable " ++ className ++ "_vtable = \x7b\n" ++
      (entries.map entryText).flatten ++ "\x7d;\n\n")

/-- `getDefineValue`. -/
def getDefineValue (ts : TypeSystem) (key : Str) : Str := ts.defines.getD key ""

/-- `registerDefine`. -/
def registerDefine (ts : TypeSystem) (key val : Str) : TypeSystem :=
  { ts with defines := ts.defines.insert key val }

/-- `isCompatible`, `include/jblang/types/TypeSystem.h:160–171`. -/
def isCompatible (ts : TypeSystem) (src dst : Ty) : Except VisitError Bool :=
  if src.toStr = dst.toStr then pure true
  else if src.isPointer && dst.isPointer && src.isClass && dst.isClass then
    ts.isSubclassOf src.structName dst.structName
  else pure false

end TypeSystem

end JBLang.Types
