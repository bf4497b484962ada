import JBLang.Ast.Visitor
import JBLang.Base.Postcondition

/-!
# Postconditions of the visitor's operations

One rule for each operation of `JBLang.Ast.VisitState` and each combinator of the visitor that
visits nothing itself.
-/

namespace JBLang.Ast

open JBLang.Base JBLang.Types JBLang.Codegen

variable {s : VState} {Q : Unit → VState → Prop}

@[simp] theorem post_emit {text : Str} :
    Post (emit text) s Q ↔ Q () { s with output := s.output ++ text } := post_modify

@[simp] theorem post_indentLevel {Q : Str → VState → Prop} :
    Post indentLevel s Q ↔ Q s.symbolTable.getIndentLevel s := by
  simp [indentLevel]

@[simp] theorem post_lookupSymbol {name : Str} {Q : Option Variable → VState → Prop} :
    Post (lookupSymbol name) s Q ↔ Q (s.symbolTable.lookupSymbol name) s := by
  simp [lookupSymbol]

@[simp] theorem post_inFirstPass {Q : Bool → VState → Prop} :
    Post inFirstPass s Q ↔ Q s.firstPass s := by
  simp [inFirstPass]

@[simp] theorem post_firstPassOnly {m : VisitM Unit} :
    Post (firstPassOnly m) s Q ↔
      (s.firstPass = true → Post m s Q) ∧ (s.firstPass = false → Q () s) := by
  simp [firstPassOnly, post_ite]

@[simp] theorem post_secondPassOnly {m : VisitM Unit} :
    Post (secondPassOnly m) s Q ↔
      (s.firstPass = true → Q () s) ∧ (s.firstPass = false → Post m s Q) := by
  simp [secondPassOnly, post_ite]

theorem firstPassOnly_of_first {m : VisitM Unit} (hs : s.firstPass = true) (h : Post m s Q) :
    Post (firstPassOnly m) s Q := by
  simpa [hs] using h

theorem firstPassOnly_of_second {m : VisitM Unit} (hs : s.firstPass = false) (h : Q () s) :
    Post (firstPassOnly m) s Q := by
  simpa [hs] using h

theorem secondPassOnly_of_first {m : VisitM Unit} (hs : s.firstPass = true) (h : Q () s) :
    Post (secondPassOnly m) s Q := by
  simpa [hs] using h

theorem secondPassOnly_of_second {m : VisitM Unit} (hs : s.firstPass = false) (h : Post m s Q) :
    Post (secondPassOnly m) s Q := by
  simpa [hs] using h

@[simp] theorem post_modifySymbols {f : SymbolTable → SymbolTable} :
    Post (modifySymbols f) s Q ↔ Q () { s with symbolTable := f s.symbolTable } := post_modify

@[simp] theorem post_modifyTypes {f : TypeSystem → TypeSystem} :
    Post (modifyTypes f) s Q ↔ Q () { s with typeSystem := f s.typeSystem } := post_modify

@[simp] theorem post_setAddRefCounts {b : Bool} :
    Post (setAddRefCounts b) s Q ↔ Q () { s with addRefCounts := b } := post_modify

@[simp] theorem post_setCurrentFunc {f : Option Function} :
    Post (setCurrentFunc f) s Q ↔
      Q () { s with symbolTable := { s.symbolTable with currentFunc := f } } := post_modify

@[simp] theorem post_addSymbol {name : Str} {type : Ty} :
    Post (addSymbol name type) s Q ↔
      ∀ st, s.symbolTable.addSymbol name type = .ok st → Q () { s with symbolTable := st } := by
  simp [addSymbol]

@[simp] theorem post_askTypes {α : Type} {f : TypeSystem → Except VisitError α}
    {Q : α → VState → Prop} :
    Post (askTypes f) s Q ↔ ∀ a, f s.typeSystem = .ok a → Q a s := by
  simp [askTypes]

@[simp] theorem post_updateTypes {f : TypeSystem → Except VisitError (TypeSystem × Ty)}
    {Q : Ty → VState → Prop} :
    Post (updateTypes f) s Q ↔
      ∀ ts type, f s.typeSystem = .ok (ts, type) → Q type { s with typeSystem := ts } := by
  simp [updateTypes]

/-! ### Translations -/

/-- What holds of the visit of a program from the start holds of its translation. -/
theorem outcome_translate {gen : CCodeGenerator} {p : Program} {Q : VState → Prop}
    {E : VisitError → Prop} (h : Outcome (visitProgram gen p) {} (fun _ s ↦ Q s) E) :
    (∀ s, translate gen p = .ok s → Q s) ∧ ∀ e, translate gen p = .error e → E e := by
  unfold translate
  unfold Outcome at h
  cases hrun : (visitProgram gen p).run {} with
  | error e =>
    rw [hrun] at h
    exact ⟨nofun, fun _ he ↦ by cases he; exact h⟩
  | ok r =>
    rw [hrun] at h
    exact ⟨fun _ hs ↦ by cases hs; exact h, nofun⟩

/-- The error of a translation. -/
def errorOf : Except VisitError VState → Option VisitError
  | .ok _ => none
  | .error e => some e

theorem eq_error_of_errorOf {r : Except VisitError VState} {e : VisitError}
    (h : errorOf r = some e) : r = .error e := by
  cases r with
  | ok s => cases h
  | error e' =>
    cases h
    rfl

end JBLang.Ast
