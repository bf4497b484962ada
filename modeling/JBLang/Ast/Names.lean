import JBLang.Ast.Tables

/-!
# Names in the tables

Every name that the visitor stores comes from an `IDENTIFIER` token. So symbols are stored under
identifiers, and the names in types and methods have letters, digits and underscores only.
-/

namespace JBLang.Ast

open JBLang.Base JBLang.Types JBLang.Codegen

/-! ### Words -/

/-- A text of letters, digits and underscores. -/
def IsWord (t : Str) : Prop := t.all isIdentRest = true

instance (t : Str) : Decidable (IsWord t) := inferInstanceAs (Decidable (_ = _))

theorem isIdentRest_of_start {c : Char} (h : isIdentStart c = true) : isIdentRest c = true := by
  simp only [isIdentStart, isIdentRest, Char.isAlphanum, Bool.or_eq_true] at h ⊢
  tauto

theorem isWord_of_identifier {name : Str} (h : isIdentifier name = true) : IsWord name := by
  cases name with
  | nil => cases h
  | cons c name =>
    simp only [isIdentifier, Bool.and_eq_true] at h
    simp only [IsWord, List.all_cons, Bool.and_eq_true]
    exact ⟨isIdentRest_of_start h.1.1, h.1.2⟩

theorem Ident.isWord (name : Ident) : IsWord name.text := isWord_of_identifier name.valid

theorem IntegerToken.isWord (n : IntegerToken) : IsWord n.text := by
  have h := n.valid
  simp only [Bool.and_eq_true, List.all_eq_true] at h
  rw [IsWord, List.all_eq_true]
  intro c hc
  simp [isIdentRest, Char.isAlphanum, h.2 c hc]

theorem IsWord.append {t u : Str} (ht : IsWord t) (hu : IsWord u) : IsWord (t ++ u) := by
  simp only [IsWord, List.all_append, Bool.and_eq_true]
  exact ⟨ht, hu⟩

theorem IsWord.not_mem {t : Str} (ht : IsWord t) {c : Char} (hc : isIdentRest c = false) :
    c ∉ t := by
  intro hmem
  rw [List.all_eq_true.mp ht c hmem] at hc
  cases hc

theorem isWord_mangled {className methodName : Str} (hc : IsWord className)
    (hm : IsWord methodName) : IsWord (className ++ "_" ++ methodName) :=
  (hc.append (by decide +kernel)).append hm

/-! ### Tables -/

/-- The names that a type prints are words. -/
structure WordType (t : Ty) : Prop where
  structName : IsWord t.structName
  array : ∀ a, t.array = some a → IsWord a.1

theorem WordType.setPointer {t : Ty} (h : WordType t) : WordType t.setPointer :=
  ⟨h.structName, h.array⟩

theorem WordType.setStructMembers {t : Ty} (h : WordType t) (members : List (Str × Ty)) :
    WordType (t.setStructMembers members) := ⟨h.structName, h.array⟩

theorem WordType.setParentClass {t : Ty} (h : WordType t) (parent : Str) :
    WordType (t.setParentClass parent) := ⟨h.structName, h.array⟩

theorem wordType_named (base : BaseType) (name : Ident) :
    WordType { base := base, structName := name.text } :=
  ⟨name.isWord, fun _ h ↦ by cases h⟩

theorem WordType.setArray {t : Ty} (h : WordType t) {name : Str} (hname : IsWord name)
    (sizes : List Int) : WordType (t.setArray name sizes) :=
  ⟨h.structName, by rintro _ ⟨⟩; exact hname⟩

/-- The types and methods of the tables have words for names. -/
structure NamedTypes (ts : TypeSystem) : Prop where
  typedefs : ∀ (name : Str) (t : Ty), ts.typedefs[name]? = some t → WordType t
  structs : ∀ (name : Str) (t : Ty), ts.structs[name]? = some t → WordType t
  classes : ∀ (name : Str) (t : Ty), ts.classes[name]? = some t → WordType t
  methods : ∀ (className : Str), ∀ method ∈ ts.getClassMethods className, IsWord method.name

/-- A parameter or variable with an identifier for a name. -/
structure NamedParam (p : Str × Ty) : Prop where
  name : isIdentifier p.1 = true
  type : WordType p.2

/-- Symbols are stored under their own names, and these are identifiers. -/
structure NamedTable (st : SymbolTable) : Prop where
  scopes : ∀ scope ∈ st.scopes, ∀ (name : Str) (var : Variable), scope[name]? = some var →
    NamedParam (name, var.type) ∧ var = { name := name, type := var.type }
  params : ∀ func, st.currentFunc = some func → ∀ p ∈ func.params, NamedParam p

/-- The names in the members of the visitor are those of identifiers. -/
structure Named (s : VState) : Prop where
  types : NamedTypes s.typeSystem
  symbols : NamedTable s.symbolTable

theorem named_start : Named {} := by
  refine ⟨⟨nofun, nofun, nofun, nofun⟩, ⟨fun scope hscope name var hget ↦ ?_, nofun⟩⟩
  rw [List.mem_singleton.mp hscope] at hget
  simp at hget

variable {st st' : SymbolTable} {ts ts' : TypeSystem} {name : Str} {var : Variable} {t : Ty}

/-- A lookup finds identifiers only, and a variable of that name. -/
theorem NamedTable.lookupSymbol (h : NamedTable st) (hlookup : st.lookupSymbol name = some var) :
    NamedParam (name, var.type) ∧ var = { name := name, type := var.type } := by
  rcases SymbolTable.lookupSymbol_eq_some hlookup with
    ⟨scope, hmem, hget⟩ | ⟨func, type, hfunc, hp, rfl⟩
  · exact h.scopes scope hmem name var hget
  · exact ⟨h.params func hfunc _ hp, rfl⟩

/-! ### Visits -/

variable {α : Type} {gen : CCodeGenerator} {P : α → Prop} {m : VisitM α} {s : VState}

/-- From named states the computation gives results with `P`, and named states. -/
def Gives (P : α → Prop) (m : VisitM α) : Prop :=
  ∀ s, Named s → Post m s fun a s' ↦ P a ∧ Named s'

/-- The names in types and of methods are words. -/
def words : Traits := ⟨WordType, IsWord, true⟩

theorem words_lawful : words.Lawful where
  builtin _ _ _ _ := ⟨rfl, nofun⟩
  struct name := wordType_named _ name
  setPointer h := h.setPointer
  setArray name sizes h := h.setArray name.isWord sizes
  setStructMembers members h := h.setStructMembers members
  «class» _ name := wordType_named _ name
  setParentClass _ _ parent h := h.setParentClass parent
  mangled _ className methodName := isWord_mangled className.isWord methodName.isWord

theorem namedParam_iff (p : Str × Ty) : NamedParam p ↔ words.Param p :=
  ⟨fun h ↦ ⟨h.name, h.type⟩, fun h ↦ ⟨h.name, h.type⟩⟩

theorem namedTable_iff : NamedTable st ↔ words.Symbols st := by
  constructor
  · rintro ⟨hscopes, hparams⟩
    exact ⟨fun scope hmem name var hget ↦
      (hscopes scope hmem name var hget).imp_left (namedParam_iff _).mp,
      fun func hfunc p hp ↦ (namedParam_iff p).mp (hparams func hfunc p hp)⟩
  · rintro ⟨hscopes, hparams⟩
    exact ⟨fun scope hmem name var hget ↦
      (hscopes scope hmem name var hget).imp_left (namedParam_iff _).mpr,
      fun func hfunc p hp ↦ (namedParam_iff p).mpr (hparams func hfunc p hp)⟩

theorem NamedTable.addSymbol (h : NamedTable st) (hparam : NamedParam (name, t))
    (hst : st.addSymbol name t = .ok st') : NamedTable st' :=
  namedTable_iff.mpr ((namedTable_iff.mp h).addSymbol ((namedParam_iff _).mp hparam) hst)

theorem named_iff_words : Named s ↔ words.Holds s := by
  constructor
  · rintro ⟨⟨htypedefs, hstructs, hclasses, hmethods⟩, hsymbols⟩
    exact ⟨⟨htypedefs, hstructs, hclasses, hmethods⟩, namedTable_iff.mp hsymbols⟩
  · rintro ⟨⟨htypedefs, hstructs, hclasses, hmethods⟩, hsymbols⟩
    exact ⟨⟨htypedefs, hstructs, hclasses, hmethods⟩, namedTable_iff.mpr hsymbols⟩

theorem gives_of_words (h : words.Gives P m) : Gives P m := by
  intro s hs
  apply (h s (named_iff_words.mp hs)).mono
  rintro a s' ⟨ha, hs'⟩
  exact ⟨ha, named_iff_words.mpr hs'⟩

theorem gives_resolveTypeFromContext (spec : TypeSpec) :
    Gives WordType (resolveTypeFromContext spec) :=
  gives_of_words (Traits.gives_resolveTypeFromContext words_lawful spec)

/-- The visit of a statement keeps the names. -/
theorem gives_visitStmt (stmt : Stmt) : Gives anything (visitStmt gen stmt) :=
  gives_of_words (Traits.gives_visitStmt words_lawful stmt nofun)

/-! ### Texts that are no names -/

theorem not_identifier_of_mem {text : Str} {c : Char} (hmem : c ∈ text) (hc : isIdentRest c = false) :
    isIdentifier text = false := by
  by_contra h
  exact (isWord_of_identifier (Bool.not_eq_false _ ▸ h)).not_mem hc hmem

theorem NamedTable.lookup_none {text : Str} {st : SymbolTable} (h : NamedTable st)
    (htext : isIdentifier text = false) : st.lookupSymbol text = none := by
  cases hlookup : st.lookupSymbol text with
  | none => rfl
  | some var =>
    have hname := (h.lookupSymbol hlookup).1.name
    rw [htext] at hname
    cases hname

theorem not_identStart_of_isDigit {c : Char} (h : c.isDigit = true) : isIdentStart c = false := by
  simp only [Char.isDigit, Bool.and_eq_true, decide_eq_true_eq, UInt32.le_iff_toNat_le,
    ge_iff_le] at h
  have hnine : '9'.val.toNat = 57 := rfl
  by_contra hstart
  simp only [isIdentStart, Bool.not_eq_false, Bool.or_eq_true, beq_iff_eq] at hstart
  rcases hstart with hletter | rfl
  · rcases Bool.or_eq_true_iff.mp hletter with hupper | hlower
    · have hA : 65 ≤ c.val.toNat :=
        UInt32.le_iff_toNat_le.mp (of_decide_eq_true hupper).1
      omega
    · have ha : 97 ≤ c.val.toNat :=
        UInt32.le_iff_toNat_le.mp (of_decide_eq_true (Bool.and_eq_true_iff.mp hlower).1)
      omega
  · exact absurd h.2 (by decide)

theorem literal_not_identifier (l : Literal) : isIdentifier l.getText = false := by
  cases l with
  | integer n =>
    have h := n.valid
    cases htext : n.text with
    | nil => simp [htext] at h
    | cons c rest =>
      simp only [htext, List.all_cons, Bool.and_eq_true] at h
      simp [Literal.getText, htext, isIdentifier, not_identStart_of_isDigit h.2.1]
  | string t => exact not_identifier_of_mem (c := '"') (by simp [Literal.getText, StringToken.text]) (by decide)
  | true => decide +kernel
  | false => decide +kernel

/-! ### Texts of members -/

theorem eq_ok_of_toOption {α : Type} {x : Except VisitError α} {a : α} (h : x.toOption = some a) :
    x = .ok a := by
  cases x with
  | error e => cases h
  | ok b =>
    cases h
    rfl

/-- A field of a class is found in the class itself or in its parent. -/
theorem resolveFieldAccess_cases {fieldName className access : Str}
    (h : resolveFieldAccess ts fieldName className = .ok access) :
    ∃ path : Str, (path = [] ∨ path = "parent.".toList) ∧ access = "this->" ++ path ++ fieldName := by
  obtain ⟨classType, -, hrest⟩ := bind_eq_ok.mp h
  split_ifs at hrest
  · cases hrest
    exact ⟨[], .inl rfl, by simp⟩
  · cases hrest
    exact ⟨_, .inr rfl, by simp⟩

/-- A member is printed as an access through the base, or as a call where the base is a variable
of a class. -/
theorem memberAccess_cases (s : VState) (base name : Str) :
    (∃ path : Str, (path = [] ∨ path = "parent.".toList) ∧
      memberAccess s base name = base ++ "->" ++ path ++ name) ∨
    ∃ var, s.symbolTable.lookupSymbol base = some var ∧
      (memberAccess s base name = "VIRTUAL_CALL:" ++ name ++ ":" ++ base ∨
        memberAccess s base name =
          "METHOD_CALL:" ++ var.type.structName ++ "_" ++ name ++ ":" ++ base) := by
  unfold memberAccess
  split
  · next access haccess =>
    left
    unfold thisFieldAccess at haccess
    simp only at haccess
    split at haccess
    · next hthis =>
      obtain ⟨func, -, haccess⟩ := Option.bind_eq_some_iff.mp haccess
      obtain ⟨className, -, haccess⟩ := Option.bind_eq_some_iff.mp haccess
      obtain ⟨classType, -, haccess⟩ := Option.bind_eq_some_iff.mp haccess
      split_ifs at haccess
      obtain ⟨path, hpath, rfl⟩ := resolveFieldAccess_cases (eq_ok_of_toOption haccess)
      exact ⟨path, hpath, by rw [hthis]; simp⟩
    · cases haccess
  · split
    · next access haccess =>
      unfold objectMemberAccess at haccess
      obtain ⟨baseVar, hlookup, haccess⟩ := Option.bind_eq_some_iff.mp haccess
      simp only at haccess
      split at haccess
      · rw [Option.bind_eq_bind, Option.bind_some] at haccess
        split at haccess
        · right
          refine ⟨baseVar, hlookup, ?_⟩
          split at haccess
          · cases haccess
            exact .inl rfl
          · cases haccess
            exact .inr rfl
        · left
          obtain ⟨field, hget, haccess⟩ := Option.bind_eq_some_iff.mp haccess
          cases haccess
          obtain ⟨path, hpath, rfl⟩ := resolveFieldAccess_cases (eq_ok_of_toOption hget)
          exact ⟨path, hpath, by simp⟩
      · cases haccess
    · exact .inl ⟨[], .inl rfl, by simp⟩

/-- The text of a member is no name. -/
theorem memberAccess_not_identifier (s : VState) (base name : Str) :
    isIdentifier (memberAccess s base name) = false := by
  rcases memberAccess_cases s base name with ⟨path, -, heq⟩ | ⟨var, -, heq | heq⟩
  · rw [heq]
    exact not_identifier_of_mem (c := '-') (by simp) (by decide)
  · rw [heq]
    exact not_identifier_of_mem (c := ':') (by simp) (by decide)
  · rw [heq]
    exact not_identifier_of_mem (c := ':') (by simp) (by decide)

end JBLang.Ast
