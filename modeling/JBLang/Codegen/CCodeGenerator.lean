import JBLang.Types.SymbolTable

/-!
# The C code generator

Model of `src/codegen/CCodeGenerator.cpp`. The only state of a generator is whether it emits
reference counting.
-/

namespace JBLang.Codegen

open JBLang.Base JBLang.Types

/-- `CCodeGenerator`. -/
structure CCodeGenerator where
  useRefCounts : Bool
deriving DecidableEq

/-- A parameter behind the receiver of a virtual method. -/
def virtualParam (p : Str × Ty) : Str := ", " ++ p.2.toStr ++ " " ++ p.1

/-- `generateFunctionDecl`, `src/codegen/CCodeGenerator.cpp:13–26`. -/
def generateFunctionDecl (func : Function) : Str :=
  if func.isVirtual then
    func.returnType.toStr ++ " " ++ func.name ++ "(void* this_param" ++
      (func.params.tail.map virtualParam).flatten ++ ")"
  else func.getSignature

/-- `generateVarDecl`, `src/codegen/CCodeGenerator.cpp:28–32`. -/
def generateVarDecl (name : Str) (type : Ty) (initializer : Str) : Str :=
  outputVariable type name ++ initializer ++ ";\n"

/-- A member line of `generateStructDecl`, up to its `;`. -/
def structMemberText (member : Str × Ty) : Str :=
  if member.2.isArray then
    let baseTypeStr : Str :=
      if member.2.isStruct then "struct " ++ member.2.structName
      else baseTypeToString member.2.base
    let baseTypeStr := if member.2.isPointer then baseTypeStr ++ "*" else baseTypeStr
    baseTypeStr ++ " " ++ member.1 ++ sizesText member.2.getArraySizes
  else member.2.toStr ++ " " ++ member.1

/-- `generateStructDecl`, `src/codegen/CCodeGenerator.cpp:34–66`. -/
def generateStructDecl (name : Str) (type : Ty) : Str :=
  "struct " ++ name ++ " \x7b\n" ++
    (type.structMembers.map fun member ↦ ("\t" : Str) ++ structMemberText member ++ ";\n").flatten ++
    "\x7d"

/-- `generateTypeDef`, `src/codegen/CCodeGenerator.cpp:68–73`. -/
def generateTypeDef (name : Str) (type : Ty) : Str :=
  "typedef " ++ (if type.isStruct then generateStructDecl type.structName type else type.toStr) ++
    " " ++ name ++ ";\n"

/-- `generateFunctionCall`, `src/codegen/CCodeGenerator.cpp:75–88`. -/
def generateFunctionCall (name : Str) (args : List Str) : Str :=
  name ++ "(" ++ joinWith ", " args ++ ")"

/-- `generateReturn`, `src/codegen/CCodeGenerator.cpp:90–93`. -/
def generateReturn (value : Str) : Str := "return " ++ value ++ ";\n"

/-- `generateScopeEntry`, `src/codegen/CCodeGenerator.cpp:95–98`. -/
def generateScopeEntry : Str := "\x7b\n"

/-- `generateScopeExit`, `src/codegen/CCodeGenerator.cpp:100–103`. -/
def generateScopeExit : Str := "\x7d\n"

/-- `generateAlloc`, `src/codegen/CCodeGenerator.cpp:105–108`. -/
def generateAlloc (type : Ty) : Str := "runtime_alloc(sizeof(" ++ type.toStr ++ "))"

/-- `generateIncRef`, `src/codegen/CCodeGenerator.cpp:110–118`. -/
def CCodeGenerator.generateIncRef (gen : CCodeGenerator) (var : Variable) (other : Str) : Str :=
  if gen.useRefCounts then "runtime_inc_ref_count(" ++ var.name ++ ", " ++ other ++ ");\n" else ""

/-- `generateDecRef`, `src/codegen/CCodeGenerator.cpp:120–134`. -/
def CCodeGenerator.generateDecRef (gen : CCodeGenerator) (var : Variable) : Str :=
  if gen.useRefCounts then
    "runtime_dec_ref_count(" ++ var.name ++ ", " ++
      (if var.fieldName.isEmpty then ("0" : Str)
        else "offsetof(" ++ var.structName ++ ", " ++ var.fieldName ++ ")") ++ ");\n"
  else ""

/-- `generateCast`, `src/codegen/CCodeGenerator.cpp:136–153`. -/
def generateCast (expr : Str) (fromType toType : Ty) : Str :=
  if fromType.isPointer && toType.isPointer && fromType.isClass && toType.isClass then
    if fromType.structName = toType.structName then expr else "&((" ++ expr ++ ")->parent)"
  else expr

end JBLang.Codegen
