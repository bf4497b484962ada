import JBLang.Emitted.Functions

/-!
# Programs of functions over pointer variables

The code of whole functions, with their parameters, and of the functions of a program one after the
other.
-/

namespace JBLang.Emitted

open JBLang.Base JBLang.Types JBLang.Codegen JBLang.Ast

namespace PFunction

variable (ts : TypeSystem) (st : SymbolTable) (f : PFunction)

/-- The function as the visitor records it. -/
def signature : Function where
  name := f.name.text
  params := f.params.map fun p ↦ (p.2.text, typeOf ts p.1)
  returnType := typeOf ts f.result

/-- The symbol table in the function, outside its body. -/
def table : SymbolTable := { st with currentFunc := some (f.signature ts) }

/-- The code of the function. -/
def compile : CFunction where
  params := f.params.map (·.2.text)
  body := compileBody ts (f.table ts st).enterScope f.body

/-- The types of the function resolve, no parameter has the name of the null pointer, and its body
can be translated. -/
structure Translates : Prop where
  result : ∃ type, resolveTypeText ts f.result.getText = .ok type
  params : ∀ p ∈ f.params, p.2.text ≠ nilName ∧ ∃ type, resolveTypeText ts p.1.getText = .ok type
  body : bodyTranslates ts (f.table ts st).enterScope f.body

/-- The text of the function. -/
def text : Str :=
  generateFunctionDecl (f.signature ts) ++ inBraces (st.scopes.length + 1)
    (renderAll (st.scopes.length + 1) (f.compile ts st).body)

end PFunction

/-- The symbol table outside of functions. -/
def outside (st : SymbolTable) : SymbolTable := { st with currentFunc := none }

section Run

variable {s : VState} {f : PFunction} {st : SymbolTable} {ts : TypeSystem}

theorem Tidy.outside (h : Tidy st) : Tidy (outside st) := by
  refine ⟨h.scopes, fun name var hlookup ↦ ?_⟩
  rcases SymbolTable.lookupSymbol_eq_some hlookup with ⟨scope, hscope, hget⟩ | ⟨func, type, hfunc, -⟩
  · refine h.symbols name var ?_
    unfold SymbolTable.lookupSymbol at hlookup ⊢
    split at hlookup
    · next hfind =>
      rw [show SymbolTable.findInScopes name st.scopes = _ from hfind]
      exact hlookup
    · cases hlookup
  · cases hfunc

theorem lookupSymbol_table (name : Str) : (f.table ts st).lookupSymbol name =
    ((SymbolTable.findInScopes name st.scopes).or
      (((f.signature ts).params.find? (·.1 = name)).map fun p ↦ { name := name, type := p.2 })) := by
  unfold SymbolTable.lookupSymbol PFunction.table
  dsimp only
  cases SymbolTable.findInScopes name st.scopes <;> rfl

theorem Tidy.table (h : Tidy st) (hparams : ∀ p ∈ f.params, p.2.text ≠ nilName) :
    Tidy (f.table ts st) := by
  refine ⟨h.scopes, fun name var hlookup ↦ ?_⟩
  rw [lookupSymbol_table, Option.or_eq_some_iff] at hlookup
  rcases hlookup with hfind | ⟨-, hparam⟩
  · refine h.symbols name var ?_
    unfold SymbolTable.lookupSymbol
    rw [hfind]
  · obtain ⟨p, hp, rfl⟩ := Option.map_eq_some_iff.mp hparam
    obtain ⟨q, hq, rfl⟩ := List.mem_map.mp (List.mem_of_find?_eq_some hp)
    obtain rfl : q.2.text = name := by simpa using List.find?_some hp
    exact ⟨q.2.valid, hparams q hq, rfl⟩

theorem run_declaratorTypes {ps : List (TypeSpec × Ident)}
    (h : ∀ p ∈ ps, ∃ type, resolveTypeText s.typeSystem p.1.getText = .ok type) :
    (declaratorTypes (ps.map fun p ↦ .plain p.1 p.2)).run s =
      .ok (ps.map fun p ↦ (p.2.text, typeOf s.typeSystem p.1), s) := by
  induction ps with
  | nil => rfl
  | cons p ps ih =>
    obtain ⟨type, htype⟩ := h p List.mem_cons_self
    have ih := ih fun q hq ↦ h q (List.mem_cons_of_mem _ hq)
    rw [List.map_cons, declaratorTypes, run_bind_of_ok (run_declaratorType htype p.2),
      run_bind_of_ok ih]
    rfl

theorem run_firstPassOnly (hpass : s.firstPass = false) (m : VisitM Unit) :
    (firstPassOnly m).run s = .ok ((), s) := by
  rw [firstPassOnly, run_bind_of_ok (run_inFirstPass hpass)]
  rfl

theorem run_setCurrentFunc (func : Option Function) : (setCurrentFunc func).run s =
    .ok ((), withTable s { s.symbolTable with currentFunc := func }) := rfl

/-- What the visitor writes for a function is the text of its code. -/
theorem run_visitFunction (hs : Ready s) (h : f.Translates s.typeSystem s.symbolTable) :
    (visitStmt ⟨true⟩ f.toStmt).run s = .ok ((), withTable
      (wrote s (f.text s.typeSystem s.symbolTable)) (outside s.symbolTable)) := by
  obtain ⟨type, hresult⟩ := h.result
  have htable : Tidy (f.table s.typeSystem s.symbolTable) :=
    hs.table.table fun p hp ↦ (h.params p hp).1
  have hin := hs.withTable htable
  have hblock := run_inBlock_wrote hin h.body (fun s hs ↦ run_visitStmts f.body hs)
    (generateFunctionDecl (f.signature s.typeSystem))
  have hbody : (secondPassOnly do
      emit (generateFunctionDecl (f.signature s.typeSystem))
      inBlock ⟨true⟩ (visitStmts ⟨true⟩ (toStmts f.body))).run
        (withTable s (f.table s.typeSystem s.symbolTable)) =
      .ok ((), withTable (wrote s (f.text s.typeSystem s.symbolTable))
        (f.table s.typeSystem s.symbolTable)) := by
    rw [run_secondPassOnly hin.pass, run_bind_of_ok (run_emit _), hblock, wrote_wrote]
    rfl
  rw [PFunction.toStmt, visitStmt,
    run_bind_of_ok (run_declaratorTypes fun p hp ↦ (h.params p hp).2),
    run_bind_of_ok (run_resolveTypeFromContext hresult)]
  dsimp only
  rw [run_bind_of_ok (run_firstPassOnly hs.pass _), run_bind_of_ok (run_setCurrentFunc _)]
  exact (run_bind_of_ok hbody).trans rfl

/-- The symbol table outside of functions is the same for the code of a function. -/
theorem PFunction.Translates.outside (h : f.Translates ts st) : f.Translates ts (outside st) :=
  ⟨h.result, h.params, h.body⟩

end Run

/-! ### A struct and its pointers -/

/-- `T` -/
def structT : Ident := ⟨"T".toList, by decide +kernel⟩

/-- `T*` -/
def pointerT : TypeSpec := .pointer (.named none structT)

/-- `main` -/
def mainIdent : Ident := ⟨"main".toList, isIdentifier_main⟩

/-- The second pass behind a declaration of the struct. -/
def behindT : VState := { typeSystem := TypeSystem.registerStruct {} structT.text }

theorem ready_behindT : Ready behindT := ⟨rfl, rfl, by decide, nofun⟩

end JBLang.Emitted
