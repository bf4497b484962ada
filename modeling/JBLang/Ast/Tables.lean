import JBLang.Ast.ExprFrame
import JBLang.Ast.Steps
import JBLang.Base.Runs

/-!
# Traits of the types in the tables

What holds of the types and method names that the visitor stores, and is kept by each way of
making one, holds along both passes. The traits are a parameter; they may exclude classes, for
programs that declare none.
-/

namespace JBLang.Ast

open JBLang.Base JBLang.Types JBLang.Codegen

mutual

/-- Whether a class is declared in a statement. -/
def declaresClass : Stmt → Bool
  | .classDecl .. => true
  | .functionDecl _ _ _ body | .block body => anyDeclaresClass body
  | .ifStmt _ thenBranch none => declaresClass thenBranch
  | .ifStmt _ thenBranch (some elseBranch) => declaresClass thenBranch || declaresClass elseBranch
  | .whileStmt _ body | .forStmt _ _ _ body => declaresClass body
  | .varDecl .. | .spawnStmt .. | .returnStmt .. | .exprStmt .. | .structDecl ..
  | .typedefDecl .. => false

/-- Whether a class is declared in a list of statements. -/
def anyDeclaresClass : List Stmt → Bool
  | [] => false
  | s :: ss => declaresClass s || anyDeclaresClass ss

end

/-- Nothing is said about the results. -/
def anything {α : Type} (_ : α) : Prop := True

/-- What is followed: a property of types, one of the names of methods, and whether classes are
declared. -/
structure Traits where
  type : Ty → Prop
  method : Str → Prop
  withClasses : Bool

namespace Traits

/-- Every way in which the visitor makes a type or the name of a method keeps the traits. -/
structure Lawful (T : Traits) : Prop where
  builtin : ∀ base isPointer, base ≠ .struct → base ≠ .class → T.type { base, isPointer }
  struct : ∀ name : Ident, T.type { base := .struct, structName := name.text }
  setPointer : ∀ {t}, T.type t → T.type t.setPointer
  setArray : ∀ {t} (name : Ident) (sizes), T.type t → T.type (t.setArray name.text sizes)
  setStructMembers : ∀ {t} (members), T.type t → T.type (t.setStructMembers members)
  «class» : T.withClasses = true → ∀ name : Ident,
    T.type { base := .class, structName := name.text }
  setParentClass : T.withClasses = true → ∀ {t} (parent), T.type t → T.type (t.setParentClass parent)
  mangled : T.withClasses = true → ∀ className methodName : Ident,
    T.method (className.text ++ "_" ++ methodName.text)

/-- The traits of a type system. -/
structure Types (T : Traits) (ts : TypeSystem) : Prop where
  typedefs : ∀ (name : Str) (t : Ty), ts.typedefs[name]? = some t → T.type t
  structs : ∀ (name : Str) (t : Ty), ts.structs[name]? = some t → T.type t
  classes : ∀ (name : Str) (t : Ty), ts.classes[name]? = some t → T.type t
  methods : ∀ (className : Str), ∀ method ∈ ts.getClassMethods className, T.method method.name

/-- The traits of a variable or parameter. -/
structure Param (T : Traits) (p : Str × Ty) : Prop where
  name : isIdentifier p.1 = true
  type : T.type p.2

/-- The traits of a symbol table, whose symbols are stored under their own names. -/
structure Symbols (T : Traits) (st : SymbolTable) : Prop where
  scopes : ∀ scope ∈ st.scopes, ∀ (name : Str) (var : Variable), scope[name]? = some var →
    T.Param (name, var.type) ∧ var = { name := name, type := var.type }
  params : ∀ func, st.currentFunc = some func → ∀ p ∈ func.params, T.Param p

/-- The traits of the visitor's members. -/
structure Holds (T : Traits) (s : VState) : Prop where
  types : T.Types s.typeSystem
  symbols : T.Symbols s.symbolTable

variable {T : Traits} {st st' : SymbolTable} {ts ts' : TypeSystem} {name : Str} {var : Variable}
  {t : Ty}

theorem holds_start : T.Holds {} := by
  refine ⟨⟨nofun, nofun, nofun, nofun⟩, ⟨fun scope hscope name var hget ↦ ?_, nofun⟩⟩
  rw [List.mem_singleton.mp hscope] at hget
  simp at hget

/-- A lookup finds a variable of that name with the traits. -/
theorem Symbols.lookupSymbol (h : T.Symbols st) (hlookup : st.lookupSymbol name = some var) :
    T.Param (name, var.type) ∧ var = { name := name, type := var.type } := by
  rcases SymbolTable.lookupSymbol_eq_some hlookup with
    ⟨scope, hmem, hget⟩ | ⟨func, type, hfunc, hp, rfl⟩
  · exact h.scopes scope hmem name var hget
  · exact ⟨h.params func hfunc _ hp, rfl⟩

theorem Symbols.addSymbol (h : T.Symbols st) (hparam : T.Param (name, t))
    (hst : st.addSymbol name t = .ok st') : T.Symbols st' := by
  unfold SymbolTable.addSymbol at hst
  split at hst
  · cases hst
  · next scope scopes hscopes =>
    cases hst
    refine ⟨fun scope' hmem name' var hget ↦ ?_, h.params⟩
    rcases List.mem_cons.mp hmem with rfl | hmem
    · rw [NameMap.lookup_insert] at hget
      split at hget
      · next heq =>
        cases hget
        rw [heq]
        exact ⟨hparam, rfl⟩
      · exact h.scopes scope (by rw [hscopes]; exact List.mem_cons_self) name' var hget
    · exact h.scopes scope' (by rw [hscopes]; exact List.mem_cons_of_mem _ hmem) name' var hget

theorem Symbols.enterScope (h : T.Symbols st) : T.Symbols st.enterScope := by
  refine ⟨fun scope hmem name var hget ↦ ?_, h.params⟩
  rcases List.mem_cons.mp hmem with rfl | hmem
  · simp at hget
  · exact h.scopes scope hmem name var hget

theorem Symbols.exitScope (h : T.Symbols st) : T.Symbols st.exitScope :=
  ⟨fun scope hmem ↦ h.scopes scope (List.mem_of_mem_tail hmem), h.params⟩

theorem Types.resolveType (h : T.Types ts) (hT : T.Lawful) {text : Str}
    (ht : ts.resolveType text = .ok t) : T.type t := by
  have hbase : ∀ {baseType t₀}, ts.resolveBase baseType text = .ok t₀ → T.type t₀ := by
    intro baseType t₀ ht₀
    unfold TypeSystem.resolveBase at ht₀
    iterate 4
      split at ht₀
      · cases ht₀
        exact hT.builtin _ _ nofun nofun
    split at ht₀
    · next hget =>
      cases ht₀
      exact h.typedefs _ _ hget
    · split at ht₀
      · next hget =>
        cases ht₀
        exact h.structs _ _ hget
      · split at ht₀
        · next hget =>
          cases ht₀
          exact h.classes _ _ hget
        · cases ht₀
  simp only [TypeSystem.resolveType, TypeSystem.translateType] at ht
  obtain ⟨t₀, ht₀, hrest⟩ := bind_eq_ok.mp ht
  have htype : T.type (if (beforeFirst "*" text).isSome then t₀.setPointer else t₀) := by
    split
    · exact hT.setPointer (hbase ht₀)
    · exact hbase ht₀
  unfold TypeSystem.arrayType at hrest
  split at hrest
  · cases hrest
    exact htype
  · split at hrest
    · cases hrest
    · obtain ⟨_, -, hlast⟩ := bind_eq_ok.mp hrest
      cases hlast
      exact hT.setArray ⟨"james_fix".toList, by decide +kernel⟩ _ htype

theorem Types.resolveTypeText (h : T.Types ts) (hT : T.Lawful) {text : Str}
    (ht : resolveTypeText ts text = .ok t) : T.type t := by
  unfold Ast.resolveTypeText at ht
  simp only at ht
  split_ifs at ht
  · obtain ⟨t₀, ht₀, hrest⟩ := bind_eq_ok.mp ht
    cases hrest
    exact hT.setPointer (h.resolveType hT ht₀)
  · exact h.resolveType hT ht
  · exact h.resolveType hT ht

/-! ### Visits -/

variable {α β : Type} {gen : CCodeGenerator} {P : α → Prop} {Q : β → Prop}

/-- From states with the traits the computation gives results with `P`, and such states. -/
def Gives (T : Traits) (P : α → Prop) (m : VisitM α) : Prop :=
  ∀ s, T.Holds s → Post m s fun a s' ↦ P a ∧ T.Holds s'

variable {m : VisitM α} {f : α → VisitM β}

theorem gives_pure {a : α} (ha : P a) : T.Gives P (pure a) := fun _ hs ↦ post_pure.mpr ⟨ha, hs⟩

theorem Gives.bind (hm : T.Gives P m) (hf : ∀ a, P a → T.Gives Q (f a)) : T.Gives Q (m >>= f) := by
  intro s hs
  rw [post_bind]
  apply (hm s hs).mono
  rintro a s₁ ⟨ha, hs₁⟩
  exact hf a ha s₁ hs₁

/-- A computation that leaves types and symbols alone. -/
theorem gives_of_same (h : ∀ s, Post m s fun _ s' ↦
    s'.typeSystem = s.typeSystem ∧ s'.symbolTable = s.symbolTable) : T.Gives anything m := by
  intro s hs
  apply (h s).mono
  rintro a s' ⟨htypes, hsymbols⟩
  exact ⟨trivial, by rw [htypes]; exact hs.types, by rw [hsymbols]; exact hs.symbols⟩

theorem gives_emit (text : Str) : T.Gives anything (emit text) :=
  gives_of_same fun _ ↦ post_emit.mpr ⟨rfl, rfl⟩

theorem gives_setAddRefCounts (b : Bool) : T.Gives anything (setAddRefCounts b) :=
  gives_of_same fun _ ↦ post_setAddRefCounts.mpr ⟨rfl, rfl⟩

theorem gives_indentLevel : T.Gives anything indentLevel :=
  gives_of_same fun _ ↦ post_indentLevel.mpr ⟨rfl, rfl⟩

theorem gives_get : T.Gives anything (get : VisitM VState) :=
  gives_of_same fun _ ↦ post_get.mpr ⟨rfl, rfl⟩

theorem gives_visitExpr (e : Expr) : T.Gives anything (visitExpr gen e) := by
  refine gives_of_same fun s ↦ (visitExpr_frame e s).mono ?_
  rintro _ _ ⟨⟨_, _, rfl⟩, -⟩
  exact ⟨rfl, rfl⟩

theorem gives_lookupSymbol (name : Str) : T.Gives anything (lookupSymbol name) :=
  gives_of_same fun _ ↦ post_lookupSymbol.mpr ⟨rfl, rfl⟩

theorem gives_castTo (code : Str) (fromVar : Option Variable) (toType : Ty) :
    T.Gives anything (castTo code fromVar toType) := by
  refine gives_of_same fun s ↦ (castTo_frame code fromVar toType).mono ?_
  rintro _ _ rfl
  exact ⟨rfl, rfl⟩

theorem gives_emitIncRef (indent : Str) (var : Option Variable) (other : Str) :
    T.Gives anything (emitIncRef gen indent var other) := by
  unfold emitIncRef
  split
  · exact gives_emit _
  · exact gives_pure trivial

theorem gives_firstPassOnly {m : VisitM Unit} (hm : T.Gives anything m) :
    T.Gives anything (firstPassOnly m) :=
  fun s hs ↦ post_firstPassOnly.mpr ⟨fun _ ↦ hm s hs, fun _ ↦ ⟨trivial, hs⟩⟩

theorem gives_secondPassOnly {m : VisitM Unit} (hm : T.Gives anything m) :
    T.Gives anything (secondPassOnly m) :=
  fun s hs ↦ post_secondPassOnly.mpr ⟨fun _ ↦ ⟨trivial, hs⟩, fun _ ↦ hm s hs⟩

theorem gives_modifyTypes {f : TypeSystem → TypeSystem}
    (hf : ∀ ts, T.Types ts → T.Types (f ts)) : T.Gives anything (modifyTypes f) :=
  fun _ hs ↦ post_modifyTypes.mpr ⟨trivial, hf _ hs.types, hs.symbols⟩

theorem gives_modifySymbols {f : SymbolTable → SymbolTable}
    (hf : ∀ st, T.Symbols st → T.Symbols (f st)) : T.Gives anything (modifySymbols f) :=
  fun _ hs ↦ post_modifySymbols.mpr ⟨trivial, hs.types, hf _ hs.symbols⟩

theorem gives_askTypes {g : TypeSystem → Except VisitError α}
    (hg : ∀ ts a, T.Types ts → g ts = .ok a → P a) : T.Gives P (askTypes g) :=
  fun _ hs ↦ post_askTypes.mpr fun a ha ↦ ⟨hg _ a hs.types ha, hs⟩

theorem gives_addSymbol (hparam : T.Param (name, t)) : T.Gives anything (addSymbol name t) :=
  fun _ hs ↦ post_addSymbol.mpr fun _ hst ↦ ⟨trivial, hs.types, hs.symbols.addSymbol hparam hst⟩

theorem Types.insert_struct (h : T.Types ts) (ht : T.type t) (name : Str) :
    T.Types { ts with structs := ts.structs.insert name t } := by
  refine ⟨h.typedefs, fun name' t' hget ↦ ?_, h.classes, h.methods⟩
  rw [NameMap.lookup_insert] at hget
  split at hget
  · cases hget
    exact ht
  · exact h.structs name' t' hget

theorem Types.insert_class (h : T.Types ts) (ht : T.type t) (name : Str) :
    T.Types { ts with classes := ts.classes.insert name t } := by
  refine ⟨h.typedefs, h.structs, fun name' t' hget ↦ ?_, h.methods⟩
  rw [NameMap.lookup_insert] at hget
  split at hget
  · cases hget
    exact ht
  · exact h.classes name' t' hget

theorem Types.registerTypeDef (h : T.Types ts) (ht : T.type t) (name : Str) :
    T.Types (ts.registerTypeDef name t) := by
  refine ⟨fun name' t' hget ↦ ?_, h.structs, h.classes, h.methods⟩
  rw [TypeSystem.registerTypeDef, NameMap.lookup_insert] at hget
  split at hget
  · cases hget
    exact ht
  · exact h.typedefs name' t' hget

theorem Types.registerClassMethod (h : T.Types ts) {method : Function}
    (hmethod : T.method method.name) (className : Str) :
    T.Types (ts.registerClassMethod className method) := by
  refine ⟨h.typedefs, h.structs, h.classes, fun className' method' hmem ↦ ?_⟩
  simp only [TypeSystem.registerClassMethod, TypeSystem.getClassMethods,
    Std.TreeMap.getD_insert] at hmem
  split at hmem
  · rcases List.mem_append.mp hmem with hmem | hmem
    · exact h.methods className method' hmem
    · rw [List.mem_singleton.mp hmem]
      exact hmethod
  · exact h.methods className' method' hmem

theorem gives_updateTypes {g : TypeSystem → Except VisitError (TypeSystem × Ty)}
    (hg : ∀ ts ts' t, T.Types ts → g ts = .ok (ts', t) → T.type t ∧ T.Types ts') :
    T.Gives T.type (updateTypes g) :=
  fun _ hs ↦ post_updateTypes.mpr fun ts' t ht ↦
    ⟨(hg _ ts' t hs.types ht).1, (hg _ ts' t hs.types ht).2, hs.symbols⟩

theorem gives_releaseScope (indent : Str) : T.Gives anything (releaseScope gen indent) :=
  gives_get.bind fun _ _ ↦ gives_emit _

theorem gives_inBlock {statements : VisitM Unit} (h : T.Gives anything statements) :
    T.Gives anything (inBlock gen statements) :=
  (gives_modifySymbols fun _ hst ↦ hst.enterScope).bind fun _ _ ↦
    (gives_secondPassOnly (gives_emit _)).bind fun _ _ ↦ gives_indentLevel.bind fun _ _ ↦
      h.bind fun _ _ ↦ (gives_secondPassOnly (gives_releaseScope _)).bind fun _ _ ↦
        (gives_modifySymbols fun _ hst ↦ hst.exitScope).bind fun _ _ ↦
          gives_secondPassOnly (gives_emit _)

theorem gives_visitReturnStmt (e : Option Expr) : T.Gives anything (visitReturnStmt gen e) := by
  have hpresent : T.Gives anything (visitPresent gen e) := by
    cases e with
    | none => exact fun _ _ ↦ post_throw.mpr trivial
    | some e => exact gives_visitExpr e
  exact (gives_setAddRefCounts _).bind fun _ _ ↦ hpresent.bind fun _ _ ↦
    (gives_setAddRefCounts _).bind fun _ _ ↦ gives_secondPassOnly
      (gives_indentLevel.bind fun _ _ ↦ (gives_lookupSymbol _).bind fun _ _ ↦
        (gives_emitIncRef _ _ _).bind fun _ _ ↦ (gives_releaseScope _).bind fun _ _ ↦ gives_emit _)

theorem gives_visitCondition (before : Str) (cond : Expr) (after : Str) :
    T.Gives anything (visitCondition gen before cond after) :=
  (gives_setAddRefCounts _).bind fun _ _ ↦ (gives_emit _).bind fun _ _ ↦
    (gives_visitExpr cond).bind fun _ _ ↦ (gives_emit _).bind fun _ _ ↦ gives_setAddRefCounts _

theorem gives_setCurrentFunc {func : Option Function}
    (h : ∀ f, func = some f → ∀ p ∈ f.params, T.Param p) :
    T.Gives anything (setCurrentFunc func) :=
  gives_modifySymbols fun _ hst ↦ ⟨hst.scopes, h⟩

theorem gives_enterFunction {func : Function} (h : ∀ p ∈ func.params, T.Param p) :
    T.Gives anything (setCurrentFunc (some func)) :=
  gives_setCurrentFunc fun f hf ↦ by cases hf; exact h

theorem gives_leaveFunction : T.Gives anything (setCurrentFunc none) := gives_setCurrentFunc nofun

theorem gives_constructorPrologue (className : Str) (classType : Ty) (constructor : Function)
    (call : Option (Ident × List Expr)) :
    T.Gives anything (constructorPrologue gen className classType constructor call) := by
  have hcall : T.Gives anything (parentConstructorCall gen call) := by
    refine gives_of_same fun s ↦ (parentConstructorCall_frame call).mono ?_
    rintro _ _ ⟨⟨_, _, rfl⟩, -⟩
    exact ⟨rfl, rfl⟩
  refine (gives_emit _).bind fun _ _ ↦ hcall.bind fun _ _ ↦ (gives_emit _).bind fun _ _ ↦
    (gives_askTypes (P := anything) fun _ _ _ _ ↦ trivial).bind fun allVirtuals _ ↦ ?_
  split
  · exact gives_pure trivial
  · exact gives_emit _

theorem gives_methodBody {body : VisitM Unit} (className : Str) (isVirtual : Bool)
    (h : T.Gives anything body) : T.Gives anything (methodBody className isVirtual body) := by
  cases isVirtual with
  | false => exact h
  | true =>
    exact gives_secondPassOnly ((gives_emit _).bind fun _ _ ↦ h.bind fun _ _ ↦ gives_emit _)


/-! ### Declarations -/

section Visits

variable (hT : T.Lawful)
include hT

theorem gives_resolveTypeFromContext (spec : TypeSpec) :
    T.Gives T.type (resolveTypeFromContext spec) :=
  gives_askTypes fun _ _ hts ht ↦ hts.resolveTypeText hT ht

theorem gives_declaratorType (d : Declarator) : T.Gives T.Param (declaratorType d) := by
  cases d with
  | plain spec name =>
    exact (gives_resolveTypeFromContext hT spec).bind fun type htype ↦
      gives_pure ⟨name.valid, htype⟩
  | array spec name sizes =>
    refine (gives_resolveTypeFromContext hT spec).bind fun type htype ↦ ?_
    refine (gives_askTypes (P := anything) fun _ _ _ _ ↦ trivial).bind fun sizes _ ↦ ?_
    exact gives_pure ⟨name.valid, hT.setArray name sizes htype⟩

theorem gives_declaratorTypes (ds : List Declarator) :
    T.Gives (fun ps : List (Str × Ty) ↦ ∀ p ∈ ps, T.Param p) (declaratorTypes ds) := by
  induction ds with
  | nil => exact gives_pure nofun
  | cons d ds ih =>
    refine (gives_declaratorType hT d).bind fun p hp ↦ ih.bind fun ps hps ↦ gives_pure ?_
    intro q hq
    rcases List.mem_cons.mp hq with rfl | hq
    · exact hp
    · exact hps q hq

theorem gives_getStructFromCode (d : StructDecl) : T.Gives T.type (getStructFromCode d) := by
  refine (gives_firstPassOnly (gives_modifyTypes fun ts hts ↦ ?_)).bind fun _ _ ↦ ?_
  · exact hts.insert_struct (hT.struct d.name) _
  · refine (gives_declaratorTypes hT _).bind fun members _ ↦ gives_updateTypes ?_
    intro ts ts' t hts ht
    obtain ⟨t₀, hget, rfl, rfl⟩ := TypeSystem.setStructMembers_eq_ok.mp ht
    have hword := hT.setStructMembers members (hts.structs _ _ hget)
    exact ⟨hword, hts.insert_struct hword _⟩

theorem gives_getClassFromCode (hclasses : T.withClasses = true) (name : Ident) (parent : Option Ident)
    (members : List ClassMember) : T.Gives T.type (getClassFromCode name parent members) := by
  have hparent : T.Gives anything (setParent name parent) := by
    cases parent with
    | none => exact gives_pure trivial
    | some parent =>
      refine (gives_askTypes (P := T.Types) ?_).bind fun ts hts ↦
        gives_modifyTypes fun _ _ ↦ hts
      intro ts ts' hts hset
      obtain ⟨t₀, hget, -, rfl⟩ := TypeSystem.setClassParent_eq_ok.mp hset
      exact hts.insert_class (hT.setParentClass hclasses _ (hts.classes _ _ hget)) _
  refine (gives_firstPassOnly (gives_modifyTypes fun ts hts ↦ ?_)).bind fun _ _ ↦
    hparent.bind fun _ _ ↦ ?_
  · exact hts.insert_class (hT.class hclasses name) _
  · refine (gives_declaratorTypes hT _).bind fun fields _ ↦ gives_updateTypes ?_
    intro ts ts' t hts ht
    obtain ⟨t₀, hget, rfl, rfl⟩ := TypeSystem.setClassMembers_eq_ok.mp ht
    have hword := hT.setStructMembers fields (hts.classes _ _ hget)
    exact ⟨hword, hts.insert_class hword _⟩

theorem gives_visitVarDecl (d : Declarator) (init : Option Expr) :
    T.Gives anything (visitVarDecl gen d init) := by
  have hdeclare : ∀ indent varName varType,
      T.Gives anything (declareVar gen indent varName varType init) := by
    intro indent varName varType
    cases init with
    | none => exact gives_emit _
    | some e =>
      exact (gives_visitExpr e).bind fun _ _ ↦ (gives_lookupSymbol _).bind fun _ _ ↦
        (gives_castTo _ _ _).bind fun _ _ ↦ (gives_lookupSymbol _).bind fun _ _ ↦
          (gives_emitIncRef _ _ _).bind fun _ _ ↦ gives_emit _
  refine gives_indentLevel.bind fun indent _ ↦ (gives_declaratorType hT d).bind fun p hp ↦ ?_
  have hremember : T.Gives anything (rememberGlobal p.1 p.2) := by
    intro s hs
    simp only [rememberGlobal, post_bind, post_get]
    split
    · exact post_modifySymbols.mpr ⟨trivial, hs.types, hs.symbols.scopes, hs.symbols.params⟩
    · exact post_pure.mpr ⟨trivial, hs⟩
  exact hremember.bind fun _ _ ↦ (gives_secondPassOnly (hdeclare indent p.1 p.2)).bind fun _ _ ↦
    gives_addSymbol hp

theorem gives_visitForHead (init : ForInit) (cond step : Option Expr) :
    T.Gives anything (visitForHead gen init cond step) := by
  have hinit : T.Gives anything (visitForInit gen init) := by
    cases init with
    | none => exact gives_pure trivial
    | exprStmt e => exact (gives_visitExpr e).bind fun _ _ ↦ gives_emit _
    | varDecl d init =>
      cases init with
      | none =>
        exact (gives_declaratorType hT d).bind fun _ hp ↦ (gives_emit _).bind fun _ _ ↦
          gives_addSymbol hp
      | some e =>
        exact (gives_declaratorType hT d).bind fun _ hp ↦ (gives_emit _).bind fun _ _ ↦
          (gives_visitExpr e).bind fun _ _ ↦ (gives_emit _).bind fun _ _ ↦ gives_addSymbol hp
  have hcond : T.Gives anything (visitForCond gen (cond.or step)) := by
    cases cond.or step with
    | none => exact gives_pure trivial
    | some e => exact gives_visitCondition _ _ _
  have hstep : T.Gives anything (visitForStep gen (cond.bind fun _ ↦ step)) := by
    cases cond.bind fun _ ↦ step with
    | none => exact gives_pure trivial
    | some e => exact (gives_visitExpr e).bind fun _ _ ↦ gives_emit _
  exact gives_indentLevel.bind fun _ _ ↦ (gives_emit _).bind fun _ _ ↦ hinit.bind fun _ _ ↦
    (gives_emit _).bind fun _ _ ↦ hcond.bind fun _ _ ↦ (gives_emit _).bind fun _ _ ↦
      hstep.bind fun _ _ ↦ gives_emit _

theorem gives_visitTypedefDecl (body : TypedefBody) (name : Ident) :
    T.Gives anything (visitTypedefDecl body name) := by
  have htype : T.Gives T.type (typedefType body) := by
    cases body with
    | structDecl d => exact gives_getStructFromCode hT d
    | typeSpec spec => exact gives_resolveTypeFromContext hT spec
  refine htype.bind fun type htype s hs ↦ ?_
  simp only [post_bind, post_inFirstPass, post_ite, post_modifyTypes, post_emit]
  exact ⟨fun _ ↦ ⟨trivial, hs.types.registerTypeDef htype _, hs.symbols⟩,
    fun _ ↦ ⟨trivial, hs.types, hs.symbols⟩⟩

theorem gives_memberParams {classType : Ty} (hclass : T.type classType)
    (params : List Declarator) :
    T.Gives (fun ps : List (Str × Ty) ↦ ∀ p ∈ ps, T.Param p) (memberParams classType params) := by
  refine (gives_declaratorTypes hT params).bind fun ps hps ↦ gives_pure fun p hp ↦ ?_
  rcases List.mem_cons.mp hp with rfl | hp
  · have hthis : isIdentifier "this" = true := by decide +kernel
    exact ⟨hthis, hT.setPointer hclass⟩
  · exact hps p hp
/-! ### Statements -/

set_option linter.unusedSectionVars false

mutual

/-- The visit of a statement keeps the traits. -/
theorem gives_visitStmt : ∀ stmt : Stmt, (T.withClasses = false → declaresClass stmt = false) →
    T.Gives anything (visitStmt gen stmt)
  | .functionDecl result name params body, hc => by
    unfold visitStmt
    refine (gives_declaratorTypes hT params).bind fun ps hps ↦
      (gives_resolveTypeFromContext hT result).bind fun returnType _ ↦
        (gives_firstPassOnly (gives_modifyTypes fun ts hts ↦ ?_)).bind fun _ _ ↦ ?_
    · exact ⟨hts.typedefs, hts.structs, hts.classes, hts.methods⟩
    · exact (gives_enterFunction hps).bind fun _ _ ↦
        (gives_secondPassOnly ((gives_emit _).bind fun _ _ ↦
          gives_inBlock (gives_visitStmts body hc))).bind fun _ _ ↦ gives_leaveFunction
  | .varDecl d init, _ => by
    unfold visitStmt
    exact gives_visitVarDecl hT d init
  | .spawnStmt _, _ => by
    unfold visitStmt
    exact gives_pure trivial
  | .returnStmt e, _ => by
    unfold visitStmt
    exact gives_visitReturnStmt e
  | .exprStmt e, _ => by
    unfold visitStmt
    exact (gives_visitExpr e).bind fun _ _ ↦ gives_secondPassOnly
      (gives_indentLevel.bind fun _ _ ↦ gives_emit _)
  | .block body, hc => by
    unfold visitStmt
    exact gives_inBlock (gives_visitStmts body hc)
  | .structDecl d, _ => by
    unfold visitStmt
    exact (gives_getStructFromCode hT d).bind fun _ _ ↦ gives_secondPassOnly (gives_emit _)
  | .classDecl name parent members, hc => by
    have hclasses : T.withClasses = true := by
      by_contra hnot
      cases hc (Bool.eq_false_iff.mpr hnot)
    unfold visitStmt
    refine (gives_getClassFromCode hT hclasses name parent members).bind fun classType hclass ↦ ?_
    have hannounce : T.Gives anything (announceClass name.text classType) := by
      refine gives_of_same fun s ↦ ?_
      simp only [announceClass, post_bind, post_inFirstPass, post_ite, post_modify, post_get,
        post_emit]
      exact ⟨fun _ ↦ ⟨trivial, trivial⟩, fun _ ↦ ⟨trivial, trivial⟩⟩
    exact hannounce.bind fun _ _ ↦ gives_visitMembers hclasses name hclass members
  | .ifStmt cond body none, hc | .whileStmt cond body, hc => by
    unfold visitStmt
    exact gives_secondPassOnly (gives_indentLevel.bind fun _ _ ↦
      (gives_visitCondition _ cond _).bind fun _ _ ↦
        (gives_visitStmt body hc).bind fun _ _ ↦ gives_emit _)
  | .ifStmt cond thenBranch (some elseBranch), hc => by
    have hbranches : T.withClasses = false →
        declaresClass thenBranch = false ∧ declaresClass elseBranch = false :=
      fun h ↦ Bool.or_eq_false_iff.mp (hc h)
    unfold visitStmt
    exact gives_secondPassOnly (gives_indentLevel.bind fun _ _ ↦
      (gives_visitCondition _ cond _).bind fun _ _ ↦
        (gives_visitStmt thenBranch fun h ↦ (hbranches h).1).bind fun _ _ ↦
          (gives_emit _).bind fun _ _ ↦ gives_indentLevel.bind fun _ _ ↦
            (gives_emit _).bind fun _ _ ↦
              (gives_visitStmt elseBranch fun h ↦ (hbranches h).2).bind fun _ _ ↦ gives_emit _)
  | .forStmt init cond step body, hc => by
    unfold visitStmt
    exact gives_firstPassOnly (gives_indentLevel.bind fun _ _ ↦
      (gives_visitForHead hT init cond step).bind fun _ _ ↦ (gives_emit _).bind fun _ _ ↦
        (gives_visitStmt body hc).bind fun _ _ ↦ gives_emit _)
  | .typedefDecl body name, _ => by
    unfold visitStmt
    exact gives_visitTypedefDecl hT body name

theorem gives_visitStmts : ∀ stmts : List Stmt,
    (T.withClasses = false → anyDeclaresClass stmts = false) →
      T.Gives anything (visitStmts gen stmts)
  | [], _ => by
    unfold visitStmts
    exact gives_pure trivial
  | stmt :: stmts, hc => by
    have hparts : T.withClasses = false →
        declaresClass stmt = false ∧ anyDeclaresClass stmts = false :=
      fun h ↦ Bool.or_eq_false_iff.mp (hc h)
    unfold visitStmts
    exact (gives_visitStmt stmt fun h ↦ (hparts h).1).bind fun _ _ ↦
      gives_visitStmts stmts fun h ↦ (hparts h).2

theorem gives_visitMember (hclasses : T.withClasses = true) (className : Ident) {classType : Ty}
    (hclass : T.type classType) : ∀ member : ClassMember,
    T.Gives anything (visitMember gen className.text classType member)
  | .field _ => by
    unfold visitMember
    exact gives_pure trivial
  | .constructor _ params parentCall body => by
    unfold visitMember
    refine (gives_memberParams hT hclass params).bind fun ps hps ↦
      (gives_firstPassOnly (gives_modifyTypes fun ts hts ↦ ?_)).bind fun _ _ ↦ ?_
    · exact ⟨hts.typedefs, hts.structs, hts.classes, hts.methods⟩
    · exact (gives_enterFunction hps).bind fun _ _ ↦
        (gives_secondPassOnly (gives_constructorPrologue _ _ _ _)).bind fun _ _ ↦
          (gives_inBlock (gives_visitStmts body (by simp [hclasses]))).bind fun _ _ ↦
            (gives_secondPassOnly (gives_emit _)).bind fun _ _ ↦ gives_leaveFunction
  | .method virtualKeyword result name params body => by
    unfold visitMember
    refine (gives_resolveTypeFromContext hT result).bind fun returnType _ ↦
      (gives_askTypes (P := anything) fun _ _ _ _ ↦ trivial).bind fun isVirtual _ ↦
        (gives_memberParams hT hclass params).bind fun ps hps ↦ ?_
    have hregister : ∀ flag : Bool, T.Gives anything (registerMethod className.text name.text flag
        { name := className.text ++ "_" ++ name.text, params := ps, returnType, isVirtual }) :=
      fun _ _ hs ↦ post_modify.mpr ⟨trivial,
        hs.types.registerClassMethod (hT.mangled hclasses className name) _, hs.symbols⟩
    have hdefine : ∀ method, T.Gives anything (defineMethod method) := fun _ ↦
      (gives_emit _).bind fun _ _ ↦ gives_of_same fun _ ↦ post_modify.mpr ⟨rfl, rfl⟩
    exact (gives_firstPassOnly (hregister _)).bind fun _ _ ↦
      (gives_enterFunction hps).bind fun _ _ ↦
        (gives_secondPassOnly (hdefine _)).bind fun _ _ ↦
          (gives_methodBody className.text isVirtual (gives_inBlock
            (gives_visitStmts body (by simp [hclasses])))).bind fun _ _ ↦ gives_leaveFunction

theorem gives_visitMembers (hclasses : T.withClasses = true) (className : Ident) {classType : Ty}
    (hclass : T.type classType) : ∀ members : List ClassMember,
    T.Gives anything (visitMembers gen className.text classType members)
  | [] => by
    unfold visitMembers
    exact gives_pure trivial
  | member :: members => by
    unfold visitMembers
    exact (gives_visitMember hclasses className hclass member).bind fun _ _ ↦
      gives_visitMembers hclasses className hclass members

end

end Visits

end Traits

end JBLang.Ast
