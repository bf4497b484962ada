import JBLang.Types.TypeSystem

/-!
# The symbol table

Model of `include/jblang/types/SymbolTable.h`. The scopes are listed from the innermost one
outwards.
-/

namespace JBLang.Types

open JBLang.Base

/-- `Variable`. -/
structure Variable where
  name : Str
  type : Ty
  structName : Str := []
  fieldName : Str := []

/-- `SymbolTable`. -/
structure SymbolTable where
  scopes : List (NameMap Variable) := [∅]
  globalVars : List (Str × Ty) := []
  currentFunc : Option Function := none

namespace SymbolTable

/-- `enterScope`. -/
def enterScope (st : SymbolTable) : SymbolTable := { st with scopes := ∅ :: st.scopes }

/-- `exitScope`. -/
def exitScope (st : SymbolTable) : SymbolTable := { st with scopes := st.scopes.tail }

/-- `getIndentLevel`. -/
def getIndentLevel (st : SymbolTable) : Str := blanks (st.scopes.length * 4)

/-- `addSymbol`, as it is called: without struct and field name. -/
def addSymbol (st : SymbolTable) (name : Str) (type : Ty) : Except VisitError SymbolTable :=
  match st.scopes with
  | [] => .error (.compiler .other "No active scope")
  | scope :: scopes =>
    .ok { st with scopes := scope.insert name { name := name, type := type } :: scopes }

/-- The variable of the innermost scope that has one of this name. -/
def findInScopes (name : Str) : List (NameMap Variable) → Option Variable
  | [] => none
  | scope :: scopes => match scope[name]? with
    | some var => some var
    | none => findInScopes name scopes

/-- `lookupSymbol`, `include/jblang/types/SymbolTable.h:66–86`. -/
def lookupSymbol (st : SymbolTable) (name : Str) : Option Variable :=
  match findInScopes name st.scopes with
  | some var => some var
  | none => match st.currentFunc with
    | none => none
    | some func => (func.params.find? (·.1 = name)).map fun p ↦ { name := name, type := p.2 }

theorem findInScopes_eq_some {name : Str} {var : Variable} {scopes : List (NameMap Variable)}
    (h : findInScopes name scopes = some var) : ∃ scope ∈ scopes, scope[name]? = some var := by
  induction scopes with
  | nil => cases h
  | cons scope scopes ih =>
    rw [findInScopes] at h
    split at h
    · next hget =>
      cases h
      exact ⟨scope, List.mem_cons_self, hget⟩
    · obtain ⟨scope', hmem, hget⟩ := ih h
      exact ⟨scope', List.mem_cons_of_mem _ hmem, hget⟩

/-- A found variable is in a scope, or is a parameter of the current function. -/
theorem lookupSymbol_eq_some {st : SymbolTable} {name : Str} {var : Variable}
    (h : st.lookupSymbol name = some var) : (∃ scope ∈ st.scopes, scope[name]? = some var) ∨
      ∃ func type, st.currentFunc = some func ∧ (name, type) ∈ func.params ∧
        var = { name := name, type := type } := by
  unfold lookupSymbol at h
  split at h
  · next hfind =>
    cases h
    exact .inl (findInScopes_eq_some hfind)
  · split at h
    · cases h
    · next func hfunc =>
      obtain ⟨⟨n, type⟩, hp, rfl⟩ := Option.map_eq_some_iff.mp h
      obtain rfl : n = name := by simpa using List.find?_some hp
      exact .inr ⟨func, type, hfunc, List.mem_of_find?_eq_some hp, rfl⟩

/-- `getCurrentScopeSymbols`, in the order of the map. -/
def getCurrentScopeSymbols (st : SymbolTable) : List (Str × Variable) :=
  match st.scopes with
  | [] => []
  | scope :: _ => scope.toList

/-- `isGlobalScope`. -/
def isGlobalScope (st : SymbolTable) : Bool := st.scopes.length == 1

end SymbolTable

end JBLang.Types
