import JBLang.Ast.Names
import JBLang.Emitted.Tracking

/-!
# Releases before a return

A `return` releases the pointer variables of the innermost block, as statements in front of the
returned expression. Which expressions still have their value then, and which blocks around the
innermost one are forgotten.
-/

namespace JBLang.Emitted

open JBLang.Base JBLang.Types JBLang.Codegen JBLang.Ast JBLang.Runtime

/-! ### Returned expressions -/

/-- Variables, literals, arithmetic, comparisons, and reads of fields, elements and targets of
pointers. -/
def isPlain : Expr → Bool
  | .ident _ | .primaryLiteral _ | .literal _ => true
  | .paren e | .member e _ | .pointerMember e _ | .dereference e => isPlain e
  | .mulDiv left _ right | .addSub left _ right | .compare left _ right
  | .arrayAccess left right => isPlain left && isPlain right
  | _ => false

/-- What the code does not decide: the values of literals and operations, and what is read from a
name without value. -/
structure Arithmetic where
  literal : Literal → Nat
  binary : Str → Nat → Nat → Nat
  unset : Str → Nat

/-- The value of a name. -/
def readName (op : Arithmetic) (env : List Frame) (name : Str) : Nat :=
  if name = nilName then 0 else (lookupVar env name).join.getD (op.unset name)

/-- The pointer variables of a scope. -/
def scopePointers (scope : NameMap Variable) : List Str :=
  scope.toList.filterMap fun p ↦ if p.2.type.isPointer then some p.2.name else none

section Text

variable {s : VState} {e : Expr} {ts : TypeSystem} {st : SymbolTable}

end Text

/-! ### Values of the pointer variables -/

section Values

variable {P : Ty → Option Nat → Prop} {st : SymbolTable} {scope : NameMap Variable}
  {scopes : List (NameMap Variable)} {frame : Frame} {env : List Frame} {x : Str}

/-- A pointer variable of a scope is a variable of its frame. -/
theorem Agrees.pointer (h : Agrees P (scope[·]?) (frame.lookup ·)) (hx : x ∈ scopePointers scope) :
    ∃ type v, type.isPointer = true ∧ frame.lookup x = some v ∧ x ≠ nilName ∧ P type v := by
  obtain ⟨p, hp, hname⟩ := List.mem_filterMap.mp hx
  obtain ⟨hpointer, hname⟩ := Option.ite_none_right_eq_some.mp hname
  obtain ⟨v, hv, hkey, hnil, hP⟩ := h.found (Std.TreeMap.mem_toList_iff_getElem?_eq_some.mp hp)
  rw [Option.some.injEq, hkey] at hname
  subst hname
  exact ⟨p.2.type, v, hpointer, hv, hnil, hP⟩

variable (hP : ∀ type v, P type v → type.isPointer = true → v.isSome)

include hP

end Values

section Releases

variable (platform : Platform) (callee : Callee) {refs : Nat → Nat} {v : Nat}

variable {vs : List Nat} {st : SymbolTable} {op : Arithmetic} {heap : RCState}

end Releases

/-! ### Reads of a plain expression -/

section Reads

variable {op : Arithmetic} {st : SymbolTable} {env : List Frame} {memory : Nat → Selector → Nat}
  {Q : Nat → Prop} {p : Nat}

end Reads

/-! ### Returns that are right -/

section States

variable {st : SymbolTable}

end States

/-! ### Returns that are wrong -/

section Wrong

variable {platform : Platform} {callee : Callee} {st : SymbolTable} {e : Expr}

end Wrong

end JBLang.Emitted
