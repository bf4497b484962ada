import JBLang.Base.Brackets
import JBLang.Emitted.Pieces

/-!
# Values of initializers

`visitInitializerList` copies the source text of a value instead of visiting it. The copy is what
a visit of the value would have returned for names, literals and accesses without translation, and
for nothing else.
-/

namespace JBLang.Ast

open JBLang.Base JBLang.Types JBLang.Codegen

/-! ### Texts with paired brackets -/

theorem IsWord.neat {t : Str} (h : IsWord t) : Neat true t := by
  apply neat_plain
  rw [List.all_eq_true]
  intro c hc
  simp only [isPlainChar, Bool.and_eq_true, bne_iff_ne, Bool.not_eq_true', Bool.and_eq_false_iff,
    beq_eq_false_iff_ne]
  refine ⟨⟨⟨?_, ?_⟩, ?_⟩, .inr ?_⟩
  all_goals
    rintro rfl
    exact h.not_mem (by decide) hc

theorem Ident.neat (name : Ident) : Neat true name.text := name.isWord.neat

theorem neat_property (strict : Bool) : TextProperty (Neat strict) where
  append := Neat.append
  brackets := Neat.brackets
  word ht := by
    cases strict with
    | true => exact ht.neat
    | false => exact ht.neat.of_strict
  literal := neat_literal
  mark := by
    have hplain : marks.all (isPlainChar strict) = true := by cases strict <;> decide
    exact fun c hc ↦ neat_plain (by simp [List.all_eq_true.mp hplain c hc])

/-- The source text of an expression has paired brackets, and blanks in string literals only. -/
theorem Expr.neat_getText (e : Expr) : Neat true e.getText := (neat_property true).expr e

theorem neat_blanks (n : Nat) : Neat false (blanks n) := by
  apply neat_plain
  rw [List.all_eq_true]
  intro c hc
  rw [List.eq_of_mem_replicate hc]
  decide

theorem WordType.neat_toStr {t : Ty} (h : WordType t) : Neat false t.toStr :=
  (neat_property false).toStr (neat_plain (by decide)) h

theorem neat_generateCast {text : Str} (h : Neat false text) (fromType toType : Ty) :
    Neat false (generateCast text fromType toType) := by
  unfold generateCast
  split
  · split
    · exact h
    · exact (h.before "&((").behind ")->parent)"
  · exact h

theorem neat_call {name : Str} {args : List Str} (hname : Neat false name)
    (hargs : ∀ arg ∈ args, Neat false arg) : Neat false (generateFunctionCall name args) :=
  (hname.around "(" (neat_joinWith ", " hargs)).behind ")"

theorem neat_fromObject {objExpr : Str} (hobj : Neat false objExpr) (path : VTablePath) :
    Neat false (path.fromObject objExpr) := by
  cases path with
  | own => exact hobj.behind "->vtable"
  | viaParent => exact hobj.behind "->parent.vtable"

theorem neat_memberAccess {s : VState} (hs : Named s) {base : Str} (hbase : Neat false base)
    (name : Ident) : Neat false (memberAccess s base name.text) := by
  have hname := name.neat.of_strict
  rcases memberAccess_cases s base name.text with ⟨path, rfl | rfl, heq⟩ | ⟨var, hlookup, heq | heq⟩
  · rw [heq]
    exact (hbase.around "->" neat_nil).append hname
  · rw [heq]
    exact (hbase.around "->" (neat_plain (by decide))).append hname
  · rw [heq]
    exact (hname.before "VIRTUAL_CALL:").around ":" hbase
  · have hclass := (hs.symbols.lookupSymbol hlookup).1.type.structName.neat.of_strict
    rw [heq]
    exact ((hclass.before "METHOD_CALL:").around "_" hname).around ":" hbase

/-! ### Members that are read directly -/

/-- The class whose member the current function is. -/
def thisClass (s : VState) : Option Ty := do
  let func ← s.symbolTable.currentFunc
  let className ← beforeFirst "_" func.name
  let classType ← (s.typeSystem.resolveType className).toOption
  if classType.isClass then some classType else none

/-- The class declares the field. -/
def declaresField (classType : Ty) (fieldName : Str) : Bool :=
  (classType.structMembers.map Prod.fst).contains fieldName

/-- The member is no method of the variable's class, and no field that the class inherits. -/
def directOfVariable (s : VState) (base memberName : Str) : Bool :=
  match s.symbolTable.lookupSymbol base with
  | none => true
  | some var =>
    if var.type.isClass then
      match (s.typeSystem.getClassMethods var.type.structName).find? fun method ↦
        method.isVirtual || method.name = var.type.structName ++ "_" ++ memberName with
      | some _ => false
      | none => match s.typeSystem.resolveType var.type.structName with
        | .error _ => true
        | .ok classType => declaresField classType memberName || !classType.hasParent
    else true

/-- The member is read as it is written: no method, and no field that a class inherits. -/
def directMember (s : VState) (base memberName : Str) : Bool :=
  match if base = "this" then thisClass s else none with
  | none => directOfVariable s base memberName
  | some classType => declaresField classType memberName ||
    (!classType.hasParent && directOfVariable s base memberName)

/-- How a field of a class is reached. -/
theorem resolveFieldAccess_eq {ts : TypeSystem} {className : Str} {classType : Ty}
    (h : ts.resolveType className = .ok classType) (fieldName : Str) :
    (resolveFieldAccess ts fieldName className).toOption =
      if declaresField classType fieldName then some ("this->" ++ fieldName)
      else if classType.hasParent then some ("this->parent." ++ fieldName) else none := by
  unfold resolveFieldAccess declaresField
  rw [h]
  change Except.toOption (if _ then _ else _) = _
  split
  · rfl
  · split <;> rfl

theorem thisFieldAccess_eq (s : VState) (base fieldName : Str) :
    thisFieldAccess s base fieldName =
      (if base = "this" then thisClass s else none).bind fun classType ↦
        if declaresField classType fieldName then some ("this->" ++ fieldName)
        else if classType.hasParent then some ("this->parent." ++ fieldName) else none := by
  unfold thisFieldAccess thisClass
  dsimp only
  split
  · cases s.symbolTable.currentFunc with
    | none => rfl
    | some func =>
      simp only [Option.bind_eq_bind, Option.bind_some]
      cases beforeFirst "_" func.name with
      | none => rfl
      | some className =>
        simp only [Option.bind_some]
        cases htype : s.typeSystem.resolveType className with
        | error e => rfl
        | ok classType =>
          change (if _ then _ else _) = Option.bind (if _ then _ else _) _
          rw [resolveFieldAccess_eq htype]
          split <;> rfl
  · rfl

/-- Two texts that differ by a part in the middle. -/
theorem append_ne_of_middle {a b c : Str} (hb : b ≠ []) : a ++ b ++ c ≠ a ++ c := by
  intro h
  rw [List.append_assoc] at h
  have hlength := congrArg List.length (List.append_cancel_left h)
  rw [List.length_append] at hlength
  have hpos := List.length_pos_iff.mpr hb
  omega

theorem parent_ne (base name : Str) : base ++ "->parent." ++ name ≠ base ++ "->" ++ name := by
  have h := append_ne_of_middle (a := base ++ "->".toList) (b := "parent.".toList) (c := name)
    (by decide)
  simpa using h

theorem objectMemberAccess_direct {s : VState} (hs : Named s) (base : Str) (name : Ident) :
    (objectMemberAccess s base name.text).getD (base ++ "->" ++ name.text) =
      base ++ "->" ++ name.text ↔ directOfVariable s base name.text = true := by
  unfold directOfVariable objectMemberAccess
  cases hlookup : s.symbolTable.lookupSymbol base with
  | none => exact iff_of_true rfl rfl
  | some var =>
    have hvar := (hs.symbols.lookupSymbol hlookup).1
    simp only [Option.bind_eq_bind, Option.bind_some]
    split
    · cases (s.typeSystem.getClassMethods var.type.structName).find? fun method ↦
          method.isVirtual || method.name = var.type.structName ++ "_" ++ name.text with
      | some method =>
        -- The texts for a call have no `>`.
        refine iff_of_false (fun h ↦ ?_) Bool.false_ne_true
        have hmem : '>' ∈ base ++ "->" ++ name.text := by simp
        have hword : ∀ t : Str, IsWord t → '>' ∉ t := fun t ht ↦ ht.not_mem (by decide)
        have hbase := hword base (isWord_of_identifier hvar.name)
        have hname := hword name.text name.isWord
        have hclass := hword _ hvar.type.structName
        rw [← h] at hmem
        dsimp only at hmem
        split at hmem
        · simp [hbase, hname] at hmem
        · simp [hbase, hname, hclass] at hmem
      | none =>
        cases htype : s.typeSystem.resolveType var.type.structName with
        | error e =>
          refine iff_of_true ?_ rfl
          unfold resolveFieldAccess
          rw [htype]
          rfl
        | ok classType =>
          rw [resolveFieldAccess_eq htype]
          dsimp only
          cases declaresField classType name.text with
          | true =>
            refine iff_of_true ?_ rfl
            change base ++ ("->" ++ name.text) = base ++ "->" ++ name.text
            exact (List.append_assoc ..).symm
          | false =>
            cases classType.hasParent with
            | true =>
              refine iff_of_false (fun h ↦ parent_ne base name.text ?_) Bool.false_ne_true
              change base ++ ("->parent." ++ name.text) = base ++ "->" ++ name.text at h
              exact (List.append_assoc ..).trans h
            | false => exact iff_of_true rfl rfl
    · exact iff_of_true rfl rfl

/-- A member is printed as it is written exactly if it is read directly. -/
theorem memberAccess_eq_iff {s : VState} (hs : Named s) (base : Str) (name : Ident) :
    memberAccess s base name.text = base ++ "->" ++ name.text ↔
      directMember s base name.text = true := by
  have hobject := objectMemberAccess_direct hs base name
  have heq : memberAccess s base name.text = (thisFieldAccess s base name.text).getD
      ((objectMemberAccess s base name.text).getD (base ++ "->" ++ name.text)) := by
    unfold memberAccess
    cases thisFieldAccess s base name.text with
    | some text => rfl
    | none => cases objectMemberAccess s base name.text <;> rfl
  rw [heq, thisFieldAccess_eq]
  unfold directMember
  cases hthis : if base = "this".toList then thisClass s else none with
  | none => exact hobject
  | some classType =>
    rw [Option.bind_some]
    dsimp only
    have hbase : base = "this" := by
      by_contra hne
      rw [if_neg hne] at hthis
      cases hthis
    cases declaresField classType name.text with
    | true =>
      refine iff_of_true ?_ rfl
      rw [hbase]
      simp
    | false =>
      cases classType.hasParent with
      | true =>
        refine iff_of_false (fun h ↦ parent_ne base name.text ?_) Bool.false_ne_true
        rw [← h, hbase]
        simp
      | false => exact hobject

end JBLang.Ast

namespace JBLang.Emitted

open JBLang.Base JBLang.Types JBLang.Codegen JBLang.Ast

theorem neat_initCode {indent : Str} (hindent : Neat false indent) (is : List Initializer) :
    Neat false (initCode indent is) := by
  induction is with
  | nil => exact neat_nil
  | cons i is ih =>
    obtain ⟨name, value⟩ := i
    unfold initCode
    exact ((hindent.around "." name.neat.of_strict).around " = "
      value.neat_getText.of_strict).around ",\n" ih

theorem neat_castText {ts : TypeSystem} {st : SymbolTable} (left : Str) {right : Str}
    (hright : Neat false right) : Neat false (castText ts st left right) := by
  unfold castText
  split
  · split
    · exact neat_generateCast hright _ _
    · exact hright
  · exact hright

namespace Setting

variable {σ : Setting}

/-- The names in the tables of the setting are those of identifiers. -/
def Named (σ : Setting) : Prop := Ast.Named { symbolTable := σ.symbols, typeSystem := σ.types }

theorem Named.pointer (hσ : σ.Named) {text : Str} {var : Variable}
    (h : σ.pointer text = some var) : isIdentifier text = true ∧ var.name = text ∧
      var.fieldName = [] := by
  obtain ⟨hlookup, -⟩ := Option.filter_eq_some_iff.mp h
  obtain ⟨hparam, hvar⟩ := hσ.symbols.lookupSymbol hlookup
  exact ⟨hparam.name, by rw [hvar], by rw [hvar]⟩

theorem Named.neat_releaseText (hσ : σ.Named) (text : Str) : Neat false (σ.releaseText text) := by
  unfold releaseText
  split
  · next var hvar =>
    obtain ⟨hid, hname, hfield⟩ := hσ.pointer hvar
    refine (neat_blanks _).append ?_
    unfold CCodeGenerator.generateDecRef
    rw [hname, hfield, List.isEmpty_nil, if_pos rfl]
    split
    · exact (((isWord_of_identifier hid).neat.of_strict.before "runtime_dec_ref_count(").around
        ", " (neat_plain (by decide))).behind ");\n"
    · exact neat_nil
  · exact neat_nil

theorem Named.neat_callText (hσ : σ.Named) (name : Ident) {args again : List Str}
    (hargs : ∀ arg ∈ args, Neat false arg) : Neat false (σ.callText name.text args again) := by
  have hcall := (neat_blanks (σ.symbols.scopes.length * 4)).append
    (neat_call name.neat.of_strict hargs)
  unfold callText
  refine (hcall.append ?_).append ?_
  · split
    · exact neat_plain (by decide)
    · exact neat_nil
  · split
    · apply neat_flatten
      intro t ht
      obtain ⟨arg, -, rfl⟩ := List.mem_map.mp ht
      exact hσ.neat_releaseText arg
    · exact neat_nil

theorem Named.neat_methodText (hσ : σ.Named) {objExpr : Str} (name : Ident) {args : List Str}
    (hobj : Neat false objExpr) (hargs : ∀ arg ∈ args, Neat false arg) :
    Neat false (σ.methodText objExpr name.text args) := by
  unfold methodText
  split
  · exact neat_nil
  · next var hvar =>
    split
    · exact neat_nil
    · next currentClass method hmethod =>
      unfold foundMethodText
      split
      · refine Neat.behind (Neat.append (((neat_fromObject hobj _).around "->"
          name.neat.of_strict).around "(" hobj) (neat_flatten ?_)) ")"
        intro t ht
        obtain ⟨arg, harg, rfl⟩ := List.mem_map.mp ht
        exact (hargs arg harg).before ", "
      · refine neat_call (hσ.types.findMethod hmethod).neat.of_strict ?_
        refine List.forall_mem_cons.mpr ⟨?_, hargs⟩
        split
        · exact (hobj.before "&((").behind ")->parent)"
        · exact hobj

theorem Named.neat_typeOf (hσ : σ.Named) (spec : TypeSpec) :
    Neat false (typeOf σ.types spec).toStr := by
  unfold typeOf
  split
  · next type htype =>
    have hword : WordType type :=
      (named_iff_words.mp hσ).types.resolveTypeText words_lawful htype
    exact hword.neat_toStr
  · exact neat_plain (by decide)

mutual

/-- The text of a visited expression has paired brackets. -/
theorem Named.neat_codeOf (hσ : σ.Named) : ∀ (e : Expr) (n : Nat), Neat false (σ.codeOf n e)
  | .paren e, n => by
    rw [codeOf]
    exact ((hσ.neat_codeOf e n).before "(").behind ")"
  | .ident name, n => by
    rw [codeOf]
    exact name.neat.of_strict
  | .primaryLiteral l, n | .literal l, n => by
    rw [codeOf]
    exact (neat_property false).literalText l
  | .member e name, n => by
    rw [codeOf]
    exact (hσ.neat_codeOf e n).around "." name.neat.of_strict
  | .funcCall name args, n => by
    rw [codeOf]
    exact hσ.neat_callText name (hσ.neat_codesOf args n)
  | .mulDiv l op r, n | .addSub l op r, n | .compare l op r, n => by
    rw [codeOf]
    exact (((hσ.neat_codeOf l n).behind " ").behind op.getText (by cases op <;> decide)).around " "
      (hσ.neat_codeOf r _)
  | .assign l r, n => by
    rw [codeOf]
    exact (hσ.neat_codeOf l n).around " = " (neat_castText _ (hσ.neat_codeOf r _))
  | .var _, n => by
    rw [codeOf]
    exact neat_nil
  | .new spec, n => by
    rw [codeOf]
    exact ((hσ.neat_typeOf spec).before "runtime_alloc(sizeof(").behind "))"
  | .newWithConstructor .., n => by
    rw [codeOf]
    exact (isWord_tempName n).neat.of_strict
  | .pointerMember e name, n => by
    rw [codeOf]
    exact neat_memberAccess hσ (hσ.neat_codeOf e n) name
  | .addressOf e, n | .dereference e, n | .preIncrement e, n | .preDecrement e, n => by
    rw [codeOf]
    exact (hσ.neat_codeOf e n).before _
  | .arrayAccess l r, n => by
    rw [codeOf]
    exact (hσ.neat_codeOf l n).index (hσ.neat_codeOf r _)
  | .methodCall e name args, n => by
    rw [codeOf]
    exact hσ.neat_methodText name (hσ.neat_codeOf e n) (hσ.neat_codesOf args _)
  | .structInit inits _, n => by
    rw [codeOf]
    exact (((neat_initCode (neat_blanks _) inits).before "\x7b\n").append (neat_blanks _)).behind
      "\x7d"
  | .postIncrement e, n | .postDecrement e, n => by
    rw [codeOf]
    exact (hσ.neat_codeOf e n).behind _

theorem Named.neat_codesOf (hσ : σ.Named) : ∀ (es : List Expr) (n : Nat),
    ∀ t ∈ σ.codesOf n es, Neat false t
  | [], n => by
    rw [codesOf]
    exact nofun
  | e :: es, n => by
    rw [codesOf]
    exact List.forall_mem_cons.mpr ⟨hσ.neat_codeOf e n, hσ.neat_codesOf es _⟩

end

/-! ### Copied texts -/

/-- The expression is a name, a literal or an access to such, and no part of it is translated. -/
def copied (σ : Setting) : Expr → Bool
  | .ident _ | .primaryLiteral _ | .literal _ => true
  | .paren e | .member e _ | .addressOf e | .dereference e | .postIncrement e | .postDecrement e
  | .preIncrement e | .preDecrement e => copied σ e
  | .pointerMember e name => copied σ e &&
    directMember { symbolTable := σ.symbols, typeSystem := σ.types } e.getText name.text
  | .arrayAccess l r => copied σ l && copied σ r
  | .funcCall .. | .mulDiv .. | .addSub .. | .compare .. | .assign .. | .var _ | .new _
  | .newWithConstructor .. | .methodCall .. | .structInit .. => false

theorem getText_ne_of_blank (e : Expr) {text t : Str} (ht : Neat false t) (u : Str)
    (htext : text = t ++ ' ' :: u) : text ≠ e.getText := by
  intro h
  apply ht.not_blank u
  rw [← htext, h]
  exact e.neat_getText

/-- A call whose last argument does not end in a parenthesis is no call without arguments. -/
theorem call_ne {x y arg : Str} (harg : arg ≠ []) (hlast : arg.getLast? ≠ some '(') :
    x ++ "(" ++ arg ++ ")" ≠ y ++ "(" ++ joinWith "," [] ++ ")" := by
  intro h
  have hends := congrArg List.getLast? (List.append_cancel_right h)
  rw [joinWith, List.append_nil, List.getLast?_append_of_ne_nil _ harg,
    List.getLast?_append_of_ne_nil _ (by decide)] at hends
  exact hlast hends

theorem getLast_ne_of_identifier {name : Str} (h : isIdentifier name = true) :
    name ≠ [] ∧ name.getLast? ≠ some '(' := by
  refine ⟨?_, fun hlast ↦ ?_⟩
  · rintro rfl
    cases h
  · exact (isWord_of_identifier h).not_mem (by decide) (List.mem_of_getLast? hlast)

/-- The text of a method call differs from its source text by the receiver. -/
theorem Named.methodText_ne (hσ : σ.Named) (e : Expr) (name : Ident) (args : List Expr)
    (objExpr : Str) (n : Nat) : σ.methodText objExpr name.text (σ.codesOf n args) ≠
      (Expr.methodCall e name args).getText := by
  intro h
  unfold methodText at h
  have hmem : '(' ∈ (Expr.methodCall e name args).getText := by
    unfold Expr.getText
    simp
  split at h
  · rw [← h] at hmem
    cases hmem
  next var hvar =>
  split at h
  · rw [← h] at hmem
    cases hmem
  next currentClass method hmethod =>
  have hid := (hσ.symbols.lookupSymbol hvar).1.name
  have hobj : Neat false objExpr := (isWord_of_identifier hid).neat.of_strict
  have hmethodName := (hσ.types.findMethod hmethod).neat.of_strict
  obtain ⟨hne, hlast⟩ := getLast_ne_of_identifier hid
  unfold foundMethodText at h
  cases args with
  | nil =>
    rw [codesOf, Expr.getText, argTexts] at h
    split at h
    · rw [List.map_nil, List.flatten_nil, List.append_nil] at h
      exact call_ne hne hlast h
    · refine call_ne ?_ ?_ h
      · split
        · exact List.append_ne_nil_of_right_ne_nil _ (by decide)
        · exact hne
      · split
        · rw [joinWith, List.getLast?_append_of_ne_nil _ (by decide)]
          decide
        · exact hlast
  | cons a as =>
    rw [codesOf] at h
    split at h
    · have hpath := neat_fromObject hobj (VTablePath.ofType (σ.classOf var.type.structName))
      refine getText_ne_of_blank _ (((hpath.around "->" name.neat.of_strict).around "("
        hobj).behind ",") (σ.codeOf n a ++ ((σ.codesOf (n + temps σ.site a) as).map
          fun arg ↦ (", " : Str) ++ arg).flatten ++ ")") ?_ h
      simp
    · have hreceiver : Neat false (if currentClass ≠ var.type.structName then
          "&((" ++ objExpr ++ ")->parent)" else objExpr) := by
        split
        · exact (hobj.before "&((").behind ")->parent)"
        · exact hobj
      have regroup : ∀ f r rest : Str, f ++ "(" ++ (r ++ ", " ++ rest) ++ ")" =
          f ++ "(" ++ r ++ "," ++ ' ' :: (rest ++ ")") := by simp
      exact getText_ne_of_blank _ ((hmethodName.around "(" hreceiver).behind ",") _
        (regroup ..) h

/-- Where the visit of an expression returns its source text, the expression is copied. -/
theorem Named.copied_of_codeOf (hσ : σ.Named) (hscopes : σ.symbols.scopes ≠ []) :
    ∀ (e : Expr) (n : Nat), σ.codeOf n e = e.getText → copied σ e = true
  | .ident _, _, _ | .primaryLiteral _, _, _ | .literal _, _, _ => by
    rw [copied]
  | .paren e, n, h | .member e _, n, h | .addressOf e, n, h | .dereference e, n, h
  | .postIncrement e, n, h | .postDecrement e, n, h | .preIncrement e, n, h
  | .preDecrement e, n, h => by
    rw [codeOf, Expr.getText] at h
    rw [copied]
    exact hσ.copied_of_codeOf hscopes e n (by simpa using h)
  | .pointerMember e name, n, h => by
    rw [codeOf, Expr.getText] at h
    have hbase : σ.codeOf n e = e.getText := by
      have hmem : '>' ∈ e.getText ++ "->" ++ name.text := by simp
      have hword : ∀ t : Str, IsWord t → '>' ∉ t := fun t ht ↦ ht.not_mem (by decide)
      have hname := hword name.text name.isWord
      rcases memberAccess_cases { symbolTable := σ.symbols, typeSystem := σ.types } (σ.codeOf n e)
        name.text with ⟨path, rfl | rfl, heq⟩ | ⟨var, hlookup, heq⟩
      · rw [heq] at h
        simpa using h
      · -- The paths end in different characters.
        rw [heq] at h
        have hlast := congrArg List.getLast? (List.append_cancel_right h)
        rw [List.getLast?_append_of_ne_nil _ (by decide),
          List.getLast?_append_of_ne_nil _ (by decide)] at hlast
        exact absurd hlast (by decide)
      · have hvar := (hσ.symbols.lookupSymbol hlookup).1
        have hcode := hword _ (isWord_of_identifier hvar.name)
        have hclass := hword _ hvar.type.structName
        dsimp only at hcode
        rw [← h] at hmem
        rcases heq with heq | heq
        · rw [heq] at hmem
          simp [hcode, hname] at hmem
        · rw [heq] at hmem
          simp [hcode, hname, hclass] at hmem
    rw [hbase] at h
    rw [copied, Bool.and_eq_true]
    exact ⟨hσ.copied_of_codeOf hscopes e n hbase, (memberAccess_eq_iff hσ _ name).mp h⟩
  | .arrayAccess l r, n, h => by
    rw [codeOf, Expr.getText] at h
    obtain ⟨hl, hr⟩ := index_operands_eq (hσ.neat_codeOf l n) (hσ.neat_codeOf r _)
      l.neat_getText.of_strict r.neat_getText.of_strict h
    rw [copied, Bool.and_eq_true]
    exact ⟨hσ.copied_of_codeOf hscopes l n hl, hσ.copied_of_codeOf hscopes r _ hr⟩
  | .mulDiv l op r, n, h | .addSub l op r, n, h | .compare l op r, n, h => by
    rw [codeOf] at h
    exact absurd h (getText_ne_of_blank _ (hσ.neat_codeOf l n)
      (op.getText ++ " " ++ σ.codeOf (n + temps σ.site l) r) (by simp))
  | .assign l r, n, h => by
    rw [codeOf] at h
    exact absurd h (getText_ne_of_blank _ (hσ.neat_codeOf l n)
      ("= " ++ castText σ.types σ.symbols (σ.codeOf n l) (σ.codeOf (n + temps σ.site l) r))
      (by simp))
  | .funcCall name args, n, h => by
    obtain ⟨scope, scopes, hcons⟩ := List.exists_cons_of_ne_nil hscopes
    have hindent : ∃ u, σ.codeOf n (.funcCall name args) = [] ++ ' ' :: u := by
      rw [codeOf, callText, indent, SymbolTable.getIndentLevel, hcons, List.length_cons,
        Nat.succ_mul]
      exact ⟨_, rfl⟩
    obtain ⟨u, hu⟩ := hindent
    exact absurd h (getText_ne_of_blank _ neat_nil u hu)
  | .methodCall e name args, n, h => by
    rw [codeOf] at h
    exact absurd h (hσ.methodText_ne e name args _ _)
  | .var name, n, h => by
    rw [codeOf, Expr.getText] at h
    have hvalid := name.valid
    rw [← h] at hvalid
    cases hvalid
  | .new _, n, h | .newWithConstructor .., n, h => by
    rw [codeOf, Expr.getText] at h
    exact absurd (Option.some.inj (congrArg List.head? h)) (by decide)
  | .structInit inits trailingComma, n, h => by
    rw [codeOf, Expr.getText] at h
    have hsecond := congrArg (fun t : Str ↦ t[1]?) h
    cases inits with
    | nil =>
      cases trailingComma with
      | true => exact absurd (Option.some.inj hsecond) (by decide)
      | false => exact absurd (Option.some.inj hsecond) (by decide)
    | cons i is =>
      obtain ⟨name, value⟩ := i
      rw [initTexts] at hsecond
      generalize initTexts is = texts at hsecond
      cases texts with
      | nil => exact absurd (Option.some.inj hsecond) (by decide)
      | cons t ts => exact absurd (Option.some.inj hsecond) (by decide)

end Setting

/-! ### Initializers -/

variable {gen : CCodeGenerator} {s : VState}

theorem settingOf_named (hs : Ast.Named s) : (settingOf gen s).Named := ⟨hs.types, hs.symbols⟩

/-- The visit of a copied expression returns its source text and writes nothing. -/
theorem run_copied (hpass : s.firstPass = false) (hs : Ast.Named s) :
    ∀ e : Expr, Setting.copied (settingOf gen s) e = true →
      (visitExpr gen e).run s = .ok (e.getText, s)
  | .ident _, _ | .primaryLiteral _, _ | .literal _, _ => by
    rw [visitExpr, Expr.getText]
    rfl
  | .paren e, h | .member e _, h | .addressOf e, h | .dereference e, h | .postIncrement e, h
  | .postDecrement e, h | .preIncrement e, h | .preDecrement e, h => by
    rw [Setting.copied] at h
    rw [visitExpr, run_bind_of_ok (run_copied hpass hs e h), Expr.getText]
    rfl
  | .pointerMember e name, h => by
    rw [Setting.copied, Bool.and_eq_true] at h
    rw [visitExpr, run_bind_of_ok (run_inFirstPass hpass), if_neg Bool.false_ne_true,
      run_bind_of_ok (run_copied hpass hs e h.1), run_bind_of_ok run_get, Expr.getText]
    have hmember : memberAccess s e.getText name.text = e.getText ++ "->" ++ name.text :=
      (memberAccess_eq_iff hs e.getText name).mpr h.2
    rw [hmember]
    rfl
  | .arrayAccess l r, h => by
    rw [Setting.copied, Bool.and_eq_true] at h
    rw [visitExpr, run_bind_of_ok (run_copied hpass hs l h.1),
      run_bind_of_ok (run_copied hpass hs r h.2), Expr.getText]
    rfl
  | .funcCall .., h | .mulDiv .., h | .addSub .., h | .compare .., h | .assign .., h | .var _, h
  | .new _, h | .newWithConstructor .., h | .methodCall .., h | .structInit .., h => by
    rw [Setting.copied] at h
    cases h

/-- The pointer variable that an expression is. -/
def pointerOf (s : VState) : Expr → Option Variable
  | .ident name => pointerVar (s.symbolTable.lookupSymbol name.text)
  | _ => none

/-- A value with this text and these counts is translated like an ordinary expression: the text is
the one that its visit returns, and one increment is written for a pointer variable. -/
structure TranslatedAlike (gen : CCodeGenerator) (s : VState) (value : Expr) (text count : Str) :
    Prop where
  text : ∃ s', (visitExpr gen value).run s = .ok (text, s')
  count : count = match pointerOf s value with
    | some var => s.symbolTable.getIndentLevel ++ gen.generateIncRef var "NULL"
    | none => []

/-- The source text of a copied expression is a name only if the expression is that name. -/
theorem pointer_getText (hs : Ast.Named s) : ∀ e : Expr,
    Setting.copied (settingOf gen s) e = true →
      (settingOf gen s).pointer e.getText = pointerOf s e
  | .ident name, _ => by
    rw [Expr.getText]
    rfl
  | .primaryLiteral l, _ | .literal l, _ => by
    rw [Expr.getText, Setting.pointer]
    exact congrArg pointerVar (hs.symbols.lookup_none (literal_not_identifier l))
  | .paren e, _ => no_pointer hs '(' (by rw [Expr.getText]; simp) rfl
  | .member e _, _ => no_pointer hs '.' (by rw [Expr.getText]; simp) rfl
  | .addressOf e, _ => no_pointer hs '&' (by rw [Expr.getText]; simp) rfl
  | .dereference e, _ => no_pointer hs '*' (by rw [Expr.getText]; simp) rfl
  | .postIncrement e, _ | .preIncrement e, _ => no_pointer hs '+' (by rw [Expr.getText]; simp) rfl
  | .postDecrement e, _ | .preDecrement e, _ => no_pointer hs '-' (by rw [Expr.getText]; simp) rfl
  | .pointerMember e _, _ => no_pointer hs '>' (by rw [Expr.getText]; simp) rfl
  | .arrayAccess l r, _ => no_pointer hs ']' (by rw [Expr.getText]; simp) rfl
  | .funcCall .., h | .mulDiv .., h | .addSub .., h | .compare .., h | .assign .., h | .var _, h
  | .new _, h | .newWithConstructor .., h | .methodCall .., h | .structInit .., h => by
    rw [Setting.copied] at h
    cases h
where
  no_pointer (hs : Ast.Named s) {e : Expr} (c : Char) (hmem : c ∈ e.getText)
      (hc : isIdentRest c = false) : (settingOf gen s).pointer e.getText = none :=
    congrArg pointerVar (hs.symbols.lookup_none (not_identifier_of_mem hmem hc))

/-- In the second pass the visit of a struct initializer returns the source texts of its values,
and writes an increment for each that is the name of a pointer variable. A value is translated
like an ordinary expression exactly if it is a name, a literal or an access to such, and neither
a method nor an inherited field is accessed. -/
theorem initializer_alike_iff (gen : CCodeGenerator) {s : VState} (hpass : s.firstPass = false)
    (hs : Ast.Named s) (hscopes : s.symbolTable.scopes ≠ []) {inits : List Initializer}
    (hinits : inits ≠ []) (trailingComma : Bool) :
    (visitExpr gen (.structInit inits trailingComma)).run s =
      .ok ("\x7b\n" ++ initCode s.symbolTable.getIndentLevel inits ++
        s.symbolTable.getIndentLevel ++ "\x7d", wrote s ((settingOf gen s).initCounts inits)) ∧
    ∀ name value, Initializer.mk name value ∈ inits →
      (TranslatedAlike gen s value value.getText ((settingOf gen s).incText value.getText) ↔
        Setting.copied (settingOf gen s) value = true) := by
  constructor
  · have hempty : inits.isEmpty = false := List.isEmpty_eq_false_iff.mpr hinits
    have hlist : (visitInitializerList gen inits).run s =
        .ok (initCode s.symbolTable.getIndentLevel inits,
          wrote s ((settingOf gen s).initCounts inits)) := by
      rw [visitInitializerList, run_bind_of_ok (run_inFirstPass hpass), if_neg Bool.false_ne_true,
        run_bind_of_ok run_indentLevel]
      exact run_initializerLines inits s
    rw [visitExpr, hempty, if_neg Bool.false_ne_true, run_bind_of_ok hlist]
    rfl
  · intro name value _
    constructor
    · rintro ⟨⟨s', hrun⟩, -⟩
      obtain ⟨hcode, -⟩ := (visitExpr_gives value s hpass).of_run _ _ hrun
      exact (settingOf_named hs).copied_of_codeOf hscopes value _ hcode.symm
    · intro h
      refine ⟨⟨s, run_copied hpass hs value h⟩, ?_⟩
      rw [Setting.incText, pointer_getText hs value h]
      rfl

private def initF : Ident := ⟨"f".toList, isIdentifier_f⟩

private def initOne : Expr := .primaryLiteral (.integer ⟨"1".toList, isInteger_1⟩)

theorem initializer_alike_iff_literal :
    TranslatedAlike ⟨true⟩ {} (.paren initOne) "(1)" [] :=
  ((initializer_alike_iff ⟨true⟩ rfl named_start (by decide)
    (List.cons_ne_nil (.mk initF (.paren initOne)) []) false).2 initF (.paren initOne)
    List.mem_cons_self).mpr (by decide +kernel)

/-- `\{ .f = new int }` is printed with an undeclared name in the place of the allocation. -/
theorem newInt_not_alike :
    ((visitExpr ⟨true⟩ (.structInit [.mk initF (.new .int)] false)).run {}).toOption.map Prod.fst =
      some ("\x7b\n    .f = newint,\n    \x7d" : Str) ∧
    ((visitExpr ⟨true⟩ (.new .int)).run {}).toOption.map Prod.fst =
      some ("runtime_alloc(sizeof(int))" : Str) ∧
    ¬ TranslatedAlike ⟨true⟩ {} (.new .int) "newint" [] := by
  have hvisit : ((visitExpr ⟨true⟩ (.new .int)).run {}).toOption.map Prod.fst =
      some ("runtime_alloc(sizeof(int))" : Str) := by decide +kernel
  refine ⟨by decide +kernel, hvisit, fun h ↦ ?_⟩
  obtain ⟨s', hrun⟩ := h.text
  rw [hrun] at hvisit
  have htext : "newint".toList = "runtime_alloc(sizeof(int))".toList := Option.some.inj hvisit
  exact absurd htext (by decide)

end JBLang.Emitted
