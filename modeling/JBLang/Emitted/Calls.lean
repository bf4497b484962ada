import Mathlib.Data.List.Forall2
import JBLang.Emitted.TakenReferences

/-!
# Arguments of calls

The pointer variables among the arguments of a call are incremented before it and decremented
behind it, by name. The increments are statements of their own; the decrements follow the
statement that contains the call, which may have declared or changed a variable of such a name.
-/

namespace JBLang.Emitted

open JBLang.Base JBLang.Types JBLang.Codegen JBLang.Ast JBLang.Runtime

/-! ### The source -/

/-- A call whose arguments are without effect. -/
structure CallSite where
  name : Ident
  args : List Expr
  isPure : ∀ a ∈ args, isPure a = true

namespace CallSite

variable (ts : TypeSystem) (st : SymbolTable) (c : CallSite)

/-- The parse tree of a call. -/
def tree : Expr := .funcCall c.name c.args

/-- The texts of the arguments. -/
def texts : List Str := c.args.map (pureText ts st)

/-- The call in the code. -/
def value : CValue := .call c.name.text (c.texts ts st)

/-- The arguments that are counted. -/
def counted : List Str := (c.texts ts st).filterMap (countedName st)

end CallSite

/-! ### Runs of the visitor -/

section Visits

variable {s : VState} {c : CallSite}

/-- The text of a call is no name. -/
theorem CallSite.lookup_rawText (h : Tidy s.symbolTable) (level : Nat) :
    s.symbolTable.lookupSymbol
      (rawText s.symbolTable level (c.value s.typeSystem s.symbolTable)) = none := by
  refine h.lookup_eq_none (c := '(') ?_ (by decide) (by decide)
  simp [rawText, CallSite.value, CValue.text, generateFunctionCall]

end Visits

/-! ### What should be counted -/

section Executions

variable {platform : Platform} {callee : Callee} {ts : TypeSystem} {st : SymbolTable}
  {c : CallSite} {env env' : List Frame} {w : World} {σ σ' : CState} {vs olds : List Nat}
  {line : Line} {after : Nat → List Frame} {name x : Str} {names : List Str}

end Executions

/-! ### Counts -/

section Counts

variable {w : World} {vs : List Nat}

end Counts

/-! ### Calls in statements, declarations and assignments -/

private def callF : Ident := ⟨"f".toList, isIdentifier_f⟩

end JBLang.Emitted
