import JBLang.Ast.Names
import JBLang.Base.Quoting

/-!
# Statement ends in the texts of expressions

When the text that the visit of an expression returns has a `;` outside string literals. A call
with a counted argument puts one behind its own text, and the texts around it carry it along.
-/

namespace JBLang.Ast

open JBLang.Base JBLang.Types JBLang.Codegen

/-! ### Which texts have a statement end -/

/-- What the text of an expression depends on besides the expression. -/
structure Site where
  /-- The names of pointer variables. -/
  isPointer : Str → Bool
  firstPass : Bool
  counting : Bool

/-- The site of a state. -/
def VState.site (s : VState) : Site where
  isPointer name := (pointerVar (s.symbolTable.lookupSymbol name)).isSome
  firstPass := s.firstPass
  counting := s.addRefCounts

mutual

/-- The number of temporaries that the visit of an expression takes. The arguments of a call are
visited twice where references are counted. -/
def temps (σ : Site) : Expr → Nat
  | .paren e | .member e _ | .addressOf e | .dereference e | .postIncrement e | .postDecrement e
  | .preIncrement e | .preDecrement e => temps σ e
  | .ident _ | .primaryLiteral _ | .literal _ | .var _ | .new _ | .structInit .. => 0
  | .mulDiv l _ r | .addSub l _ r | .compare l _ r | .arrayAccess l r => temps σ l + temps σ r
  | .assign l r => if σ.firstPass then 0 else temps σ l + temps σ r
  | .funcCall _ args =>
    if σ.firstPass then 0
    else argsTemps σ args + if σ.counting then argsTemps σ args else 0
  | .newWithConstructor _ args => if σ.firstPass then 0 else 1 + argsTemps σ args
  | .pointerMember e _ => if σ.firstPass then 0 else temps σ e
  | .methodCall e _ args => if σ.firstPass then 0 else temps σ e + argsTemps σ args

/-- The same for the expressions of a list. -/
def argsTemps (σ : Site) : List Expr → Nat
  | [] => 0
  | e :: es => temps σ e + argsTemps σ es

end

/-- The name of the `n`th temporary. -/
def tempName (n : Nat) : Str := "temp_" ++ decimal n

/-- The name that is the text of an expression, where the text is one. -/
def nameOf (σ : Site) (n : Nat) : Expr → Option Str
  | .ident name => some name.text
  | .newWithConstructor .. => if σ.firstPass then none else some (tempName n)
  | _ => none

/-- The expression is a pointer variable, or a temporary that is called like one. -/
def isPointerArg (σ : Site) (n : Nat) (e : Expr) : Bool := (nameOf σ n e).any σ.isPointer

/-- One of the expressions is a pointer variable. -/
def anyPointerArg (σ : Site) : Nat → List Expr → Bool
  | _, [] => false
  | n, e :: es => isPointerArg σ n e || anyPointerArg σ (n + temps σ e) es

mutual

/-- The text of an expression has a statement end: a call in it, other than among the arguments
of a constructor, has a pointer variable as an argument while references are counted. -/
def endsStatement (gen : CCodeGenerator) (σ : Site) : Nat → Expr → Bool
  | n, .paren e | n, .member e _ | n, .addressOf e | n, .dereference e | n, .postIncrement e
  | n, .postDecrement e | n, .preIncrement e | n, .preDecrement e => endsStatement gen σ n e
  | _, .ident _ | _, .primaryLiteral _ | _, .literal _ | _, .var _ | _, .new _
  | _, .structInit .. | _, .newWithConstructor .. => false
  | n, .mulDiv l _ r | n, .addSub l _ r | n, .compare l _ r | n, .arrayAccess l r =>
    endsStatement gen σ n l || endsStatement gen σ (n + temps σ l) r
  | n, .assign l r =>
    !σ.firstPass && (endsStatement gen σ n l || endsStatement gen σ (n + temps σ l) r)
  | n, .funcCall _ args =>
    !σ.firstPass && ((argsEndStatement gen σ n args || (σ.counting && anyPointerArg σ n args)) ||
      (σ.counting && (gen.useRefCounts && anyPointerArg σ (n + argsTemps σ args) args)))
  | n, .pointerMember e _ => !σ.firstPass && endsStatement gen σ n e
  | n, .methodCall e _ args =>
    !σ.firstPass && (endsStatement gen σ n e || argsEndStatement gen σ (n + temps σ e) args)

/-- The text of one of the expressions has a statement end. -/
def argsEndStatement (gen : CCodeGenerator) (σ : Site) : Nat → List Expr → Bool
  | _, [] => false
  | n, e :: es => endsStatement gen σ n e || argsEndStatement gen σ (n + temps σ e) es

end

/-! ### Texts without statement end -/

theorem IsWord.ends {t : Str} (h : IsWord t) : Ends t false :=
  ends_of_not_mem (h.not_mem (by decide)) (h.not_mem (by decide))

theorem Ident.ends (name : Ident) : Ends name.text false := name.isWord.ends

theorem isWord_decimal (n : Nat) : IsWord (decimal n) := by
  rw [IsWord, List.all_eq_true]
  intro c hc
  have hdigit := Nat.isDigit_of_mem_toDigits (by decide) (by decide) hc
  simp [isIdentRest, Char.isAlphanum, hdigit]

theorem isWord_tempName (n : Nat) : IsWord (tempName n) :=
  IsWord.append (by decide +kernel) (isWord_decimal n)

theorem ends_blanks (n : Nat) : Ends (blanks n) false := by
  refine ends_of_not_mem ?_ ?_ <;> simp [blanks, List.mem_replicate]

/-- What is written between the words and string literals of an expression. -/
def marks : Str := "().,->\x7b\x7d*/+=<>!&"

/-- A property that words and string literals have, and the texts made of them. -/
structure TextProperty (P : Str → Prop) : Prop where
  append : ∀ {t u}, P t → P u → P (t ++ u)
  brackets : ∀ {t}, P t → P ("[" ++ t ++ "]")
  word : ∀ {t}, IsWord t → P t
  literal : ∀ {t}, '"' ∉ t → P ('"' :: t ++ ['"'])
  mark : ∀ c ∈ marks, P [c]

namespace TextProperty

variable {P : Str → Prop} (h : TextProperty P)

include h

theorem fixed (t : Str) (ht : t.all (fun c ↦ isIdentRest c || marks.contains c) = true := by decide) :
    P t := by
  induction t with
  | nil => exact h.word rfl
  | cons c t ih =>
    rw [List.all_cons, Bool.and_eq_true, Bool.or_eq_true, List.contains_iff_mem] at ht
    refine h.append (t := [c]) (ht.1.elim (fun hc ↦ h.word ?_) (h.mark c)) (ih ht.2)
    rw [IsWord, List.all_cons, hc]
    rfl

theorem around {t u : Str} (ht : P t) (sep : Str) (hu : P u)
    (hsep : sep.all (fun c ↦ isIdentRest c || marks.contains c) = true := by decide) :
    P (t ++ sep ++ u) := h.append (h.append ht (h.fixed sep hsep)) hu

theorem commas {ts : List Str} (hts : ∀ t ∈ ts, P t) : P (joinWith "," ts) := by
  induction ts with
  | nil => exact h.word rfl
  | cons t ts ih =>
    rw [List.forall_mem_cons] at hts
    cases ts with
    | nil => exact hts.1
    | cons t' ts => exact h.around hts.1 "," (ih hts.2)

theorem call {name : Str} {args : List Str} (hname : P name) (hargs : ∀ t ∈ args, P t) :
    P (name ++ "(" ++ joinWith "," args ++ ")") :=
  h.append (h.around hname "(" (h.commas hargs)) (h.fixed ")")

theorem sizesText (sizes : List Int) : P (Types.sizesText sizes) := by
  induction sizes with
  | nil => exact h.word rfl
  | cons n sizes ih =>
    refine h.append (h.brackets ?_) ih
    cases n with
    | ofNat n => exact h.word (isWord_decimal n)
    | negSucc n => exact h.append (h.fixed ['-']) (h.word (isWord_decimal (n + 1)))

theorem toStr (hblank : P " ") {t : Ty} (ht : WordType t) : P t.toStr := by
  have hcore : P (if t.isStruct || t.isClass then "struct " ++ t.structName
      else baseTypeToString t.base) := by
    split
    · exact h.append (h.append (h.fixed "struct") hblank) (h.word ht.structName)
    · cases t.base <;> exact h.fixed _
  have hpointer : ∀ {str : Str}, P str → P (if t.isPointer then str ++ "*" else str) := by
    intro str hstr
    split
    · exact h.append hstr (h.fixed "*")
    · exact hstr
  apply hpointer
  cases ha : t.array with
  | none => exact hcore
  | some a =>
    exact h.append (h.append (h.append hcore hblank) (h.word (ht.array _ ha))) (h.sizesText a.2)

theorem literalText (l : Literal) : P l.getText := by
  cases l with
  | integer n => exact h.word n.isWord
  | string t => exact h.literal t.valid
  | true | false => exact h.fixed _

theorem typeSpec (spec : TypeSpec) : P spec.getText := by
  induction spec with
  | void | int | bool | string => exact h.fixed _
  | named tag name =>
    cases tag with
    | none => exact h.word name.isWord
    | some tag => cases tag <;> exact h.append (h.fixed _) (h.word name.isWord)
  | pointer spec ih => exact h.append ih (h.fixed "*")

omit h

mutual

/-- The source text of an expression has the property. -/
theorem expr (h : TextProperty P) : ∀ e : Expr, P e.getText
  | .ident name | .var name => by
    unfold Expr.getText
    exact h.word name.isWord
  | .primaryLiteral l | .literal l => by
    unfold Expr.getText
    exact h.literalText l
  | .paren e => by
    unfold Expr.getText
    exact h.append (h.append (h.fixed "(") (h.expr e)) (h.fixed ")")
  | .addressOf e | .dereference e | .preIncrement e | .preDecrement e => by
    unfold Expr.getText
    exact h.append (h.fixed _) (h.expr e)
  | .postIncrement e | .postDecrement e => by
    unfold Expr.getText
    exact h.append (h.expr e) (h.fixed _)
  | .member e name | .pointerMember e name => by
    unfold Expr.getText
    exact h.around (h.expr e) _ (h.word name.isWord)
  | .mulDiv l op r | .addSub l op r | .compare l op r => by
    unfold Expr.getText
    exact h.around (h.expr l) _ (h.expr r) (by cases op <;> decide)
  | .assign l r => by
    unfold Expr.getText
    exact h.around (h.expr l) "=" (h.expr r)
  | .arrayAccess l r => by
    have hindex := h.append (h.expr l) (h.brackets (h.expr r))
    rwa [← List.append_assoc, ← List.append_assoc] at hindex
  | .new spec => by
    unfold Expr.getText
    exact h.append (h.fixed "new") (h.typeSpec spec)
  | .funcCall name args => by
    unfold Expr.getText
    exact h.call (h.word name.isWord) (h.argTexts args)
  | .newWithConstructor name args => by
    unfold Expr.getText
    exact h.call (h.append (h.fixed "new") (h.word name.isWord)) (h.argTexts args)
  | .methodCall e name args => by
    unfold Expr.getText
    exact h.call (h.around (h.expr e) "->" (h.word name.isWord)) (h.argTexts args)
  | .structInit inits trailingComma => by
    have hinits := h.append (h.fixed "\x7b") (h.commas (h.initTexts inits))
    unfold Expr.getText
    cases trailingComma <;> exact h.append (h.append hinits (h.fixed _)) (h.fixed "\x7d")

theorem argTexts (h : TextProperty P) : ∀ es : List Expr, ∀ t ∈ Ast.argTexts es, P t
  | [] => by
    unfold Ast.argTexts
    exact nofun
  | e :: es => by
    unfold Ast.argTexts
    exact List.forall_mem_cons.mpr ⟨h.expr e, h.argTexts es⟩

theorem initTexts (h : TextProperty P) : ∀ is : List Initializer, ∀ t ∈ Ast.initTexts is, P t
  | [] => by
    unfold Ast.initTexts
    exact nofun
  | .mk name value :: is => by
    unfold Ast.initTexts
    exact List.forall_mem_cons.mpr
      ⟨h.around (h.append (h.fixed ".") (h.word name.isWord)) "=" (h.expr value), h.initTexts is⟩

end

end TextProperty

theorem ends_property : TextProperty (Ends · false) where
  append ht hu := ht.append hu
  brackets ht := (ht.before "[").behind "]"
  word ht := ht.ends
  literal ht := ends_literal ht
  mark := by
    have hfixed : marks.all (isFixed [·]) = true := by decide
    exact fun c hc ↦ ends_fixed (List.all_eq_true.mp hfixed c hc)

theorem ends_call {name : Str} {args : List Str} {b c : Bool} (hname : Ends name b)
    (hargs : EndsAny args c) (sep : Str) (hsep : isFixed sep = true := by decide) :
    Ends (name ++ "(" ++ joinWith sep args ++ ")") (b || c) :=
  (hname.around "(" (hargs.joinWith sep hsep)).behind ")"

/-! ### Texts of visits -/

variable {s s' s₁ s₂ : VState} {gen : CCodeGenerator} {text : Str} {e : Expr}

theorem ExprFrame.site (h : ExprFrame s s') : s'.site = s.site := by
  obtain ⟨⟨_, _, rfl⟩, -⟩ := h
  rfl

theorem ExprFrame.symbolTable (h : ExprFrame s s') : s'.symbolTable = s.symbolTable := by
  obtain ⟨⟨_, _, rfl⟩, -⟩ := h
  rfl

theorem ExprFrame.named (h : ExprFrame s s') (hs : Named s) : Named s' := by
  obtain ⟨⟨_, _, rfl⟩, -⟩ := h
  exact ⟨hs.types, hs.symbols⟩

/-- What the visit of an expression from `s` returns and does: whether the text has a statement
end, what it is looked up as, and how many temporaries were taken. -/
structure Told (gen : CCodeGenerator) (s : VState) (e : Expr) (text : Str) (s' : VState) : Prop where
  ends : Ends text (endsStatement gen s.site s.tempVarCounter e)
  lookup : s.symbolTable.lookupSymbol text =
    (nameOf s.site s.tempVarCounter e).bind s.symbolTable.lookupSymbol
  temps : s'.tempVarCounter = s.tempVarCounter + temps s.site e
  frame : ExprFrame s s'

/-- A text that is no identifier. -/
theorem Told.of_text (hs : Named s) {c : Char} (hmem : c ∈ text) (hc : isIdentRest c = false)
    (hname : nameOf s.site s.tempVarCounter e = none)
    (hends : Ends text (endsStatement gen s.site s.tempVarCounter e))
    (htemps : s'.tempVarCounter = s.tempVarCounter + Ast.temps s.site e) (hframe : ExprFrame s s') :
    Told gen s e text s' := by
  refine ⟨hends, ?_, htemps, hframe⟩
  rw [hname, hs.symbols.lookup_none (not_identifier_of_mem hmem hc)]
  rfl

/-- A later visit, seen from the state before the earlier ones. -/
theorem Told.since {n : Nat} (h : Told gen s₁ e text s₂) (hframe : ExprFrame s s₁)
    (hn : s₁.tempVarCounter = s.tempVarCounter + n) :
    Ends text (endsStatement gen s.site (s.tempVarCounter + n) e) ∧
      s₂.tempVarCounter = s.tempVarCounter + (n + Ast.temps s.site e) ∧ ExprFrame s s₂ := by
  have hends := h.ends
  have htemps := h.temps
  rw [hframe.site, hn] at hends htemps
  exact ⟨hends, by rw [htemps, Nat.add_assoc], hframe.trans h.frame⟩

/-- Whether the text of an argument is a pointer variable. -/
theorem Told.isSome_pointerVar (h : Told gen s e text s') :
    (pointerVar (s.symbolTable.lookupSymbol text)).isSome =
      isPointerArg s.site s.tempVarCounter e := by
  rw [h.lookup, isPointerArg]
  cases nameOf s.site s.tempVarCounter e with
  | none => rfl
  | some name => rfl

theorem ends_generateDecRef {var : Variable} (hname : IsWord var.name) (hfield : var.fieldName = []) :
    Ends (gen.generateDecRef var) gen.useRefCounts := by
  unfold CCodeGenerator.generateDecRef
  cases gen.useRefCounts with
  | false => exact ends_nil
  | true =>
    have hend : Ends ");\n" true := ⟨by decide, by decide⟩
    have hargs := ((hname.ends.before "runtime_dec_ref_count(").behind ", ").behind "0"
    simp only [hfield, if_true, List.isEmpty_nil]
    exact hargs.append hend

theorem generateAlloc_ends {t : Ty} (ht : WordType t) : Ends (generateAlloc t) false :=
  ((ends_property.toStr (ends_fixed (by decide)) ht).before "runtime_alloc(sizeof(").behind "))"

/-- A cast keeps a statement end out of a text, or in it. -/
theorem generateCast_ends {b : Bool} (h : Ends text b) (fromType toType : Ty) :
    Ends (generateCast text fromType toType) b := by
  unfold generateCast
  split
  · split
    · exact h
    · exact (h.before "&((").behind ")->parent)"
  · exact h

theorem castTo_ends {b : Bool} (h : Ends text b) (fromVar : Option Variable) (toType : Ty) :
    Post (castTo text fromVar toType) s fun text' s' ↦ Ends text' b ∧ s' = s := by
  unfold castTo
  split
  · exact post_pure.mpr ⟨h, rfl⟩
  · simp only [post_bind, post_askTypes]
    intro compatible _
    cases compatible with
    | true => exact post_pure.mpr ⟨generateCast_ends h _ _, rfl⟩
    | false => exact post_pure.mpr ⟨h, rfl⟩

theorem emitIncRef_temps (indent : Str) (var : Option Variable) (other : Str) :
    Post (emitIncRef gen indent var other) s fun _ s' ↦ s'.tempVarCounter = s.tempVarCounter := by
  unfold emitIncRef
  split
  · exact post_emit.mpr rfl
  · exact post_pure.mpr rfl

theorem emitDecRef_temps (indent : Str) (var : Option Variable) :
    Post (emitDecRef gen indent var) s fun _ s' ↦ s'.tempVarCounter = s.tempVarCounter := by
  unfold emitDecRef
  split
  · exact post_emit.mpr rfl
  · exact post_pure.mpr rfl

theorem retainAssigned_temps (left right : Str) :
    Post (retainAssigned gen left right) s fun _ s' ↦ s'.tempVarCounter = s.tempVarCounter := by
  simp only [retainAssigned, post_bind, post_lookupSymbol]
  split
  · exact post_pure.mpr rfl
  · split
    · simp only [post_bind, post_lookupSymbol]
      split
      · simp only [post_bind, post_indentLevel, post_emit]
      · exact post_pure.mpr rfl
    · simp only [post_bind, post_indentLevel, post_emit]

theorem assignCode_ends {left right : Str} {b c : Bool} (hleft : Ends left b)
    (hright : Ends right c) :
    Post (assignCode gen left right) s fun text s' ↦
      Ends text (b || c) ∧ '=' ∈ text ∧ s'.tempVarCounter = s.tempVarCounter := by
  have hcast : Post (castAssigned left right) s fun right' s' ↦ Ends right' c ∧ s' = s := by
    simp only [castAssigned, post_bind, post_lookupSymbol]
    split
    · exact post_pure.mpr ⟨hright, rfl⟩
    · simp only [post_bind, post_lookupSymbol]
      exact castTo_ends hright _ _
  simp only [assignCode, post_bind, post_indentLevel, post_lookupSymbol, post_pure]
  apply hcast.mono
  rintro right' _ ⟨hright', rfl⟩
  apply (retainAssigned_temps left right').mono
  intro _ s₁ h₁
  apply (emitDecRef_temps _ _).mono
  intro _ s₂ h₂
  refine ⟨hleft.around " = " hright', ?_, h₂.trans h₁⟩
  exact List.mem_append_left _ (List.mem_append_right _ (by decide))

/-- The text of a member has a statement end where that of the base has one. -/
theorem memberAccess_ends {base : Str} {b : Bool} (hs : Named s) (hbase : Ends base b)
    (name : Ident) : Ends (memberAccess s base name.text) b ∧
      ∃ c ∈ memberAccess s base name.text, isIdentRest c = false := by
  rcases memberAccess_cases s base name.text with ⟨path, hpath, heq⟩ | ⟨var, hlookup, heq⟩
  · rw [heq]
    refine ⟨?_, '-', by simp, by decide⟩
    rcases hpath with rfl | rfl
    · simpa using hbase.around "->" name.ends
    · simpa using hbase.around "->parent." name.ends
  · have hvar := (hs.symbols.lookupSymbol hlookup).1
    have hends := (isWord_of_identifier hvar.name).ends
    obtain rfl : false = b := hends.terminator.symm.trans hbase.terminator
    have hclass := hvar.type.structName.ends
    rcases heq with heq | heq
    · rw [heq]
      exact ⟨(name.ends.before "VIRTUAL_CALL:").around ":" hends, ':', by simp, by decide⟩
    · rw [heq]
      exact ⟨((hclass.before "METHOD_CALL:").around "_" name.ends).around ":" hends, ':', by simp,
        by decide⟩

/-- The method that a call finds has a word for its name. -/
theorem NamedTypes.findMethod {ts : TypeSystem} (h : NamedTypes ts) {className methodName : Str}
    {found : Str × Function} (hfound : findMethod ts className methodName = .ok found) :
    IsWord found.2.name := by
  have walk : ∀ fuel current, findMethodFrom ts className methodName fuel current = .ok found →
      IsWord found.2.name := by
    intro fuel
    induction fuel with
    | zero => exact fun _ ↦ nofun
    | succ fuel ih =>
      intro current hfound
      unfold findMethodFrom at hfound
      split at hfound
      · next method hown =>
        cases hfound
        exact h.methods current method (List.mem_of_find?_eq_some hown)
      · split at hfound
        · cases hfound
        · split at hfound
          · exact ih _ hfound
          · cases hfound
  exact walk _ _ hfound

theorem methodCallCode_ends {objExpr className currentClass : Str} {name : Ident}
    {method : Function} {args : List Str} {b c : Bool} (hobj : Ends objExpr b)
    (hmethod : IsWord method.name) (hargs : EndsAny args c) :
    Post (methodCallCode objExpr name.text className currentClass method args) s fun text s' ↦
      Ends text (b || c) ∧ '(' ∈ text ∧ s' = s := by
  unfold methodCallCode
  split
  · simp only [post_bind, post_askTypes, post_pure]
    intro classType _
    have hpath : Ends ((VTablePath.ofType classType).fromObject objExpr) b := by
      cases VTablePath.ofType classType with
      | own => exact hobj.behind "->vtable"
      | viaParent => exact hobj.behind "->parent.vtable"
    refine ⟨?_, ?_, trivial⟩
    · have h := (((hpath.around "->" name.ends).around "(" hobj).append
        (hargs.flatten_map ", ")).behind ")"
      rwa [Bool.or_false, Bool.or_self] at h
    · exact List.mem_append_left _ (List.mem_append_left _ (List.mem_append_left _
        (List.mem_append_right _ (by decide))))
  · have hreceiver : Ends (if currentClass ≠ className then "&((" ++ objExpr ++ ")->parent)"
        else objExpr) b := by
      split
      · exact (hobj.before "&((").behind ")->parent)"
      · exact hobj
    have hall : EndsAny ((if currentClass ≠ className then "&((" ++ objExpr ++ ")->parent)"
        else objExpr) :: args) (b || c) := ⟨b, c, hreceiver, hargs, rfl⟩
    refine post_pure.mpr ⟨?_, ?_, rfl⟩
    · have h := ends_call hmethod.ends hall ", "
      rwa [Bool.false_or] at h
    · exact List.mem_append_left _ (List.mem_append_left _ (List.mem_append_right _ (by decide)))

theorem initializerLines_ends {indent : Str} (hindent : Ends indent false)
    (is : List Initializer) :
    Post (initializerLines gen indent is) s fun text s' ↦
      Ends text false ∧ s'.tempVarCounter = s.tempVarCounter := by
  induction is generalizing s with
  | nil => exact post_pure.mpr ⟨ends_nil, rfl⟩
  | cons i is ih =>
    obtain ⟨name, value⟩ := i
    simp only [initializerLines, post_bind, post_lookupSymbol, post_pure]
    apply (emitIncRef_temps _ _ _).mono
    intro _ s₁ h₁
    apply ih.mono
    rintro code s₂ ⟨hcode, h₂⟩
    exact ⟨((hindent.around "." name.ends).around " = " (ends_property.expr value)).around ",\n" hcode,
      h₂.trans h₁⟩

theorem site_of_first (h : s.firstPass = true) : s.site.firstPass = true := h

theorem site_of_second (h : s.firstPass = false) : s.site.firstPass = false := h

/-- In the first pass the text is empty. -/
theorem told_first (hs : Named s)
    (hname : nameOf s.site s.tempVarCounter e = none)
    (hends : endsStatement gen s.site s.tempVarCounter e = false) (htemps : temps s.site e = 0) :
    Told gen s e "" s := by
  refine ⟨by rw [hends]; exact ends_nil, ?_, by rw [htemps]; rfl, .refl s⟩
  rw [hname, hs.symbols.lookup_none rfl]
  rfl

/-- Something around the text of a single operand. -/
theorem told_unary {e' : Expr} {text' : Str} {c : Char} (hs : Named s) (h : Told gen s e text s')
    (htext : Ends text' (endsStatement gen s.site s.tempVarCounter e)) (hmem : c ∈ text')
    (hc : isIdentRest c = false) (hname : nameOf s.site s.tempVarCounter e' = none)
    (hends : endsStatement gen s.site s.tempVarCounter e' =
      endsStatement gen s.site s.tempVarCounter e)
    (htemps : temps s.site e' = temps s.site e) : Told gen s e' text' s' :=
  .of_text hs hmem hc hname (by rw [hends]; exact htext) (by rw [htemps, h.temps]) h.frame

/-- An operator between two texts. -/
theorem told_binary {l r : Expr} {left right op : Str} (hs : Named s)
    (h₁ : Told gen s l left s₁) (h₂ : Told gen s₁ r right s₂) (hop : isFixed op = true)
    (hname : nameOf s.site s.tempVarCounter e = none)
    (hends : endsStatement gen s.site s.tempVarCounter e =
      (endsStatement gen s.site s.tempVarCounter l ||
        endsStatement gen s.site (s.tempVarCounter + temps s.site l) r))
    (htemps : temps s.site e = temps s.site l + temps s.site r) :
    Told gen s e (left ++ " " ++ op ++ " " ++ right) s₂ := by
  obtain ⟨hright, htemps₂, hframe⟩ := h₂.since h₁.frame h₁.temps
  refine .of_text hs (c := ' ') (by simp) (by decide) hname ?_ (by rw [htemps₂, htemps]) hframe
  rw [hends]
  exact ((h₁.ends.behind " ").behind op hop).around " " hright

/-- What the visits of the arguments of a call from `s` return and do. -/
structure ToldArgs (gen : CCodeGenerator) (s : VState) (es : List Expr) (texts : List Str)
    (s' : VState) : Prop where
  ends : EndsAny texts (argsEndStatement gen s.site s.tempVarCounter es)
  temps : s'.tempVarCounter = s.tempVarCounter + argsTemps s.site es
  frame : ExprFrame s s'

theorem ToldArgs.nil (gen : CCodeGenerator) (s : VState) : ToldArgs gen s [] [] s := by
  refine ⟨?_, ?_, .refl s⟩
  · unfold argsEndStatement
    rfl
  · unfold argsTemps
    rfl

theorem ToldArgs.cons {es : List Expr} {texts : List Str} (h : Told gen s e text s₁)
    (h' : ToldArgs gen s₁ es texts s') : ToldArgs gen s (e :: es) (text :: texts) s' := by
  have hends := h'.ends
  have htemps := h'.temps
  rw [h.frame.site, h.temps] at hends htemps
  refine ⟨?_, ?_, h.frame.trans h'.frame⟩
  · unfold argsEndStatement
    exact ⟨_, _, h.ends, hends, rfl⟩
  · unfold argsTemps
    rw [htemps, Nat.add_assoc]

/-- Counting an argument writes and takes no temporary. -/
theorem countArg_told (h : Told gen s e text s₁) (hs : s.firstPass = false) (indent : Str) :
    Post (countArg gen indent text) s₁ fun counted s' ↦
      counted = (s.site.counting && isPointerArg s.site s.tempVarCounter e) ∧
        Told gen s e text s' := by
  have hpointer := h.isSome_pointerVar
  rw [← h.frame.symbolTable] at hpointer
  have hcounting : s₁.addRefCounts = s.site.counting := congrArg Site.counting h.frame.site
  simp only [countArg, post_bind, post_lookupSymbol]
  split
  · next hnone =>
    rw [hnone] at hpointer
    exact post_pure.mpr ⟨by rw [← hpointer]; simp, h⟩
  · next var hsome =>
    rw [hsome] at hpointer
    simp only [post_bind, post_get, post_ite, post_emit, post_pure]
    rw [← hcounting]
    refine ⟨fun hcount ↦ ⟨by rw [hcount, ← hpointer]; rfl, h.ends, h.lookup, h.temps, ?_⟩,
      fun hcount ↦ ⟨by simp [hcount], h⟩⟩
    exact h.frame.trans (.of_second (h.frame.firstPass_eq.trans hs) _ _)

theorem releaseText_told (h : Told gen s e text s₁) (hs : Named s) {indent : Str}
    (hindent : Ends indent false) :
    Post (releaseText gen indent text) s₁ fun release s' ↦ s' = s₁ ∧
      Ends release (gen.useRefCounts && isPointerArg s.site s.tempVarCounter e) := by
  have hpointer := h.isSome_pointerVar
  rw [← h.frame.symbolTable] at hpointer
  simp only [releaseText, post_bind, post_lookupSymbol]
  split
  · next var hsome =>
    rw [hsome] at hpointer
    have hlookup := (Option.filter_eq_some_iff.mp hsome).1
    rw [h.frame.symbolTable] at hlookup
    obtain ⟨hparam, hvar⟩ := hs.symbols.lookupSymbol hlookup
    refine post_pure.mpr ⟨rfl, ?_⟩
    rw [← hpointer, Option.isSome_some, Bool.and_true]
    have hname : var.name = text := by rw [hvar]
    have hdec : Ends (gen.generateDecRef var) gen.useRefCounts :=
      ends_generateDecRef (by rw [hname]; exact isWord_of_identifier hparam.name) (by rw [hvar])
    have hrelease := hindent.append hdec
    rwa [Bool.false_or] at hrelease
  · next hnone =>
    rw [hnone] at hpointer
    refine post_pure.mpr ⟨rfl, ?_⟩
    rw [← hpointer, Option.isSome_none, Bool.and_false]
    exact ends_nil

/-! ### Expressions -/

mutual

/-- The text of an expression has a statement end exactly where `endsStatement` says so. -/
theorem visitExpr_told : ∀ (e : Expr) (s : VState), Named s →
    Post (visitExpr gen e) s (Told gen s e)
  | .paren e, s, hs => by
    simp only [visitExpr, post_bind, post_pure]
    apply (visitExpr_told e s hs).mono
    intro text s' h
    exact told_unary hs h ((h.ends.before "(").behind ")") (c := '(') (by simp) (by decide) rfl
      (by rw [endsStatement]) (by rw [temps])
  | .member e name, s, hs => by
    simp only [visitExpr, post_bind, post_pure]
    apply (visitExpr_told e s hs).mono
    intro text s' h
    have hends := h.ends.around "." name.ends
    rw [Bool.or_false] at hends
    exact told_unary hs h hends (c := '.') (by simp) (by decide) rfl
      (by rw [endsStatement]) (by rw [temps])
  | .addressOf e, s, hs | .dereference e, s, hs | .preIncrement e, s, hs
  | .preDecrement e, s, hs => by
    simp only [visitExpr, post_bind, post_pure]
    apply (visitExpr_told e s hs).mono
    intro text s' h
    exact told_unary hs h (h.ends.before _) List.mem_cons_self (by decide) rfl
      (by rw [endsStatement]) (by rw [temps])
  | .postIncrement e, s, hs | .postDecrement e, s, hs => by
    simp only [visitExpr, post_bind, post_pure]
    apply (visitExpr_told e s hs).mono
    intro text s' h
    exact told_unary hs h (h.ends.behind _) (List.mem_append_right _ List.mem_cons_self) (by decide)
      rfl (by rw [endsStatement]) (by rw [temps])
  | .ident name, s, hs => by
    simp only [visitExpr, post_pure]
    exact ⟨by rw [endsStatement]; exact name.ends, rfl, by rw [temps]; rfl, .refl s⟩
  | .primaryLiteral l, s, hs | .literal l, s, hs => by
    simp only [visitExpr, post_pure]
    exact ⟨by rw [endsStatement]; exact ends_property.literalText l,
      hs.symbols.lookup_none (literal_not_identifier l), by rw [temps]; rfl, .refl s⟩
  | .var _, s, _ => by
    simp only [visitExpr]
    exact post_throw.mpr trivial
  | .new spec, s, hs => by
    simp only [visitExpr, post_bind, post_pure]
    apply (gives_resolveTypeFromContext spec s hs |>.and (resolveTypeFromContext_frame spec)).mono
    rintro type s' ⟨⟨htype, -⟩, rfl⟩
    refine .of_text hs (c := '(') ?_ (by decide) rfl ?_ ?_ (.refl _)
    · exact List.mem_append_left _ (List.mem_append_left _ (by decide))
    · unfold endsStatement
      exact generateAlloc_ends htype
    · unfold temps
      rfl
  | .mulDiv l op r, s, hs | .addSub l op r, s, hs | .compare l op r, s, hs => by
    simp only [visitExpr, post_bind, post_pure]
    apply (visitExpr_told l s hs).mono
    intro left s₁ h₁
    apply (visitExpr_told r s₁ (h₁.frame.named hs)).mono
    intro right s₂ h₂
    exact told_binary hs h₁ h₂ (by cases op <;> decide) rfl (by rw [endsStatement]) (by rw [temps])
  | .arrayAccess l r, s, hs => by
    simp only [visitExpr, post_bind, post_pure]
    apply (visitExpr_told l s hs).mono
    intro left s₁ h₁
    apply (visitExpr_told r s₁ (h₁.frame.named hs)).mono
    intro right s₂ h₂
    obtain ⟨hends, htemps, hframe⟩ := h₂.since h₁.frame h₁.temps
    refine .of_text hs (c := ']') (by simp) (by decide) rfl ?_ ?_ hframe
    · unfold endsStatement
      exact (h₁.ends.around "[" hends).behind "]"
    · unfold temps
      exact htemps
  | .assign l r, s, hs => by
    simp only [visitExpr, post_bind, post_inFirstPass, post_ite, post_pure, Bool.not_eq_true]
    refine ⟨fun hfirst ↦ told_first hs rfl (by simp [endsStatement, site_of_first hfirst])
      (by simp [temps, site_of_first hfirst]), fun hsecond ↦ ?_⟩
    apply (visitExpr_told l s hs).mono
    intro left s₁ h₁
    apply (visitExpr_told r s₁ (h₁.frame.named hs)).mono
    intro right s₂ h₂
    obtain ⟨hends, htemps, hframe⟩ := h₂.since h₁.frame h₁.temps
    have hsecond₂ := hframe.firstPass_eq.trans hsecond
    apply ((assignCode_ends h₁.ends hends).and (frame_of_grows (E := (· ≠ missingScope)) hsecond₂ (quiet_assignCode left right))).mono
    rintro text s₃ ⟨⟨htext, heq, h₃⟩, hframe₃⟩
    refine .of_text hs heq (by decide) rfl ?_ ?_ (hframe.trans hframe₃)
    · simpa [endsStatement, site_of_second hsecond] using htext
    · simpa [temps, site_of_second hsecond, h₃] using htemps
  | .funcCall name args, s, hs => by
    simp only [visitExpr, post_bind, post_inFirstPass, post_ite, post_pure, post_indentLevel,
      Bool.not_eq_true]
    refine ⟨fun hfirst ↦ told_first hs rfl (by simp [endsStatement, site_of_first hfirst])
      (by simp [temps, site_of_first hfirst]), fun hsecond ↦ ?_⟩
    apply (visitCallArgs_told args s hs hsecond).mono
    rintro ⟨texts, pointerArgs⟩ s₁ ⟨h₁, hpointers⟩
    have hindent : Ends s.symbolTable.getIndentLevel false := ends_blanks _
    have hcall : Ends (s.symbolTable.getIndentLevel ++ generateFunctionCall name.text texts)
        (argsEndStatement gen s.site s.tempVarCounter args) := by
      have h := hindent.append (ends_call name.ends h₁.ends ", ")
      rwa [Bool.false_or, Bool.false_or] at h
    have hterm : Ends (if pointerArgs then (";\n" : Str) else "")
        (s.site.counting && anyPointerArg s.site s.tempVarCounter args) := by
      have hflag : pointerArgs = _ := hpointers
      rw [← hflag]
      cases pointerArgs with
      | true => exact ⟨by decide, by decide⟩
      | false => exact ends_nil
    have hcounting : s₁.addRefCounts = s.site.counting := congrArg Site.counting h₁.frame.site
    have hparen : ∀ u v : Str, '(' ∈ s.symbolTable.getIndentLevel ++
        generateFunctionCall name.text texts ++ u ++ v := fun u v ↦
      List.mem_append_left _ (List.mem_append_left _ (List.mem_append_right _
        (List.mem_append_left _ (List.mem_append_left _ (List.mem_append_right _ (by decide))))))
    simp only [whenCounting, post_bind, post_get, post_ite, post_pure, hcounting, Bool.not_eq_true]
    refine ⟨fun hcount ↦ ?_, fun hcount ↦ ?_⟩
    · apply (visitReleasedArgs_told hindent args s₁ (h₁.frame.named hs)).mono
      rintro releases s₂ ⟨hreleases, htemps, hframe⟩
      rw [h₁.frame.site, h₁.temps] at hreleases htemps
      refine .of_text hs (hparen _ _) (by decide) rfl ?_ ?_ (h₁.frame.trans hframe)
      · have h := (hcall.append hterm).append hreleases
        rw [endsStatement, site_of_second hsecond]
        simpa only [hcount, Bool.not_false, Bool.true_and] using h
      · simpa [temps, site_of_second hsecond, hcount, Nat.add_assoc] using htemps
    · refine .of_text hs (hparen _ _) (by decide) rfl ?_ ?_ h₁.frame
      · have h := (hcall.append hterm).behind ""
        rw [endsStatement, site_of_second hsecond]
        simpa only [hcount, Bool.false_and, Bool.or_false, Bool.not_false, Bool.true_and] using h
      · simpa [temps, site_of_second hsecond, hcount] using h₁.temps
  | .newWithConstructor name args, s, hs => by
    simp only [visitExpr, post_bind, post_inFirstPass, post_ite, post_pure, post_get,
      Bool.not_eq_true]
    refine ⟨fun hfirst ↦ told_first hs (by simp [nameOf, site_of_first hfirst])
      (by simp [endsStatement]) (by simp [temps, site_of_first hfirst]), fun hsecond ↦ ?_⟩
    split
    · exact post_throw.mpr trivial
    · simp only [freshTemp, post_bind, post_get, post_modify, post_pure, post_indentLevel,
        post_askTypes, post_emit]
      intro classType _
      have hframe : ExprFrame s { s with
          output := s.output ++ (s.symbolTable.getIndentLevel ++ generateVarDecl
            ("temp_" ++ decimal s.tempVarCounter) classType.setPointer
              (" = " ++ generateAlloc classType))
          tempVarCounter := s.tempVarCounter + 1 } := .of_second hsecond _ _
      apply (visitArgs_told args _ (hframe.named hs)).mono
      intro texts s₂ h₂
      have hframe₂ := hframe.trans h₂.frame
      have htemps := h₂.temps
      rw [hframe.site] at htemps
      refine ⟨?_, ?_, ?_, hframe₂.trans (.of_second (hframe₂.firstPass_eq.trans hsecond) _ _)⟩
      · rw [endsStatement]
        exact (isWord_tempName _).ends
      · simp [nameOf, site_of_second hsecond, tempName]
      · simpa [temps, site_of_second hsecond, Nat.add_assoc] using htemps
  | .pointerMember e name, s, hs => by
    simp only [visitExpr, post_bind, post_inFirstPass, post_ite, post_pure, post_get,
      Bool.not_eq_true]
    refine ⟨fun hfirst ↦ told_first hs rfl (by simp [endsStatement, site_of_first hfirst])
      (by simp [temps, site_of_first hfirst]), fun hsecond ↦ ?_⟩
    apply (visitExpr_told e s hs).mono
    intro base s₁ h₁
    obtain ⟨hends, c, hmem, hc⟩ := memberAccess_ends (h₁.frame.named hs) h₁.ends name
    refine .of_text hs hmem hc rfl ?_ ?_ h₁.frame
    · simpa [endsStatement, site_of_second hsecond] using hends
    · simpa [temps, site_of_second hsecond] using h₁.temps
  | .methodCall e name args, s, hs => by
    simp only [visitExpr, post_bind, post_inFirstPass, post_ite, post_pure, post_askTypes,
      Bool.not_eq_true]
    refine ⟨fun hfirst ↦ told_first hs rfl (by simp [endsStatement, site_of_first hfirst])
      (by simp [temps, site_of_first hfirst]), fun hsecond ↦ ?_⟩
    apply (visitExpr_told e s hs).mono
    intro objExpr s₁ h₁
    apply (receiverClass_frame objExpr).mono
    rintro className _ rfl found hfound
    have hnamed := h₁.frame.named hs
    apply (visitArgs_told args _ hnamed).mono
    intro texts s₂ h₂
    have hargs := h₂.ends
    have htemps := h₂.temps
    rw [h₁.frame.site, h₁.temps] at hargs htemps
    apply (methodCallCode_ends h₁.ends (hnamed.types.findMethod hfound) hargs).mono
    rintro text _ ⟨htext, hmem, rfl⟩
    refine .of_text hs hmem (by decide) rfl ?_ ?_ (h₁.frame.trans h₂.frame)
    · simpa [endsStatement, site_of_second hsecond] using htext
    · simpa [temps, site_of_second hsecond, Nat.add_assoc] using htemps
  | .structInit inits _, s, hs => by
    simp only [visitExpr]
    split
    · simp only [post_bind, post_throw]
    · simp only [visitInitializerList, post_bind, post_inFirstPass, post_ite, post_pure,
        Bool.not_eq_true, post_indentLevel]
      have htold : ∀ {code : Str} {s₁ : VState}, Ends code false →
          s₁.tempVarCounter = s.tempVarCounter → ExprFrame s s₁ →
            Told gen s (.structInit inits ‹Bool›)
              ("\x7b\n" ++ code ++ s₁.symbolTable.getIndentLevel ++ "\x7d") s₁ := by
        intro code s₁ hcode htemps hframe
        refine .of_text hs (c := '\x7b') ?_ (by decide) rfl ?_ ?_ hframe
        · exact List.mem_append_left _ (List.mem_append_left _ (List.mem_append_left _ (by decide)))
        · rw [endsStatement]
          exact ((hcode.before "\x7b\n").append (ends_blanks _)).behind "\x7d"
        · rw [temps, htemps]
          rfl
      refine ⟨fun _ ↦ htold ends_nil rfl (.refl s), fun hsecond ↦ ?_⟩
      apply ((initializerLines_ends (ends_blanks _) inits).and
        (frame_of_grows (E := (· ≠ missingScope)) hsecond (quiet_initializerLines _ inits))).mono
      rintro code s₁ ⟨⟨hcode, htemps⟩, hframe⟩
      exact htold hcode htemps hframe

theorem visitArgs_told : ∀ (es : List Expr) (s : VState), Named s →
    Post (visitArgs gen es) s (ToldArgs gen s es)
  | [], s, _ => by
    simp only [visitArgs, post_pure]
    exact .nil gen s
  | e :: es, s, hs => by
    simp only [visitArgs, post_bind, post_pure]
    apply (visitExpr_told e s hs).mono
    intro text s₁ h₁
    apply (visitArgs_told es s₁ (h₁.frame.named hs)).mono
    intro texts s₂ h₂
    exact .cons h₁ h₂

theorem visitCallArgs_told {indent : Str} : ∀ (es : List Expr) (s : VState), Named s →
    s.firstPass = false → Post (visitCallArgs gen indent es) s fun r s' ↦
      ToldArgs gen s es r.1 s' ∧
        r.2 = (s.site.counting && anyPointerArg s.site s.tempVarCounter es)
  | [], s, _, _ => by
    simp only [visitCallArgs, post_pure]
    exact ⟨.nil gen s, by simp [anyPointerArg]⟩
  | e :: es, s, hs, hsecond => by
    simp only [visitCallArgs, post_bind, post_pure]
    apply (visitExpr_told e s hs).mono
    intro text s₁ h₁
    apply (countArg_told h₁ hsecond indent).mono
    rintro counted s₂ ⟨hcounted, h₂⟩
    apply (visitCallArgs_told es s₂ (h₂.frame.named hs) (h₂.frame.firstPass_eq.trans hsecond)).mono
    rintro r s₃ ⟨h₃, hr⟩
    refine ⟨.cons h₂ h₃, ?_⟩
    rw [h₂.frame.site, h₂.temps] at hr
    rw [hcounted, hr, anyPointerArg, Bool.and_or_distrib_left]

theorem visitReleasedArgs_told {indent : Str} (hindent : Ends indent false) :
    ∀ (es : List Expr) (s : VState), Named s →
    Post (visitReleasedArgs gen indent es) s fun text s' ↦
      Ends text (gen.useRefCounts && anyPointerArg s.site s.tempVarCounter es) ∧
        s'.tempVarCounter = s.tempVarCounter + argsTemps s.site es ∧ ExprFrame s s'
  | [], s, _ => by
    simp only [visitReleasedArgs, post_pure, anyPointerArg, Bool.and_false]
    unfold argsTemps
    exact ⟨ends_nil, rfl, .refl s⟩
  | e :: es, s, hs => by
    simp only [visitReleasedArgs, post_bind, post_pure]
    apply (visitExpr_told e s hs).mono
    intro text s₁ h₁
    apply (releaseText_told h₁ hs hindent).mono
    rintro release _ ⟨rfl, hrelease⟩
    apply (visitReleasedArgs_told hindent es _ (h₁.frame.named hs)).mono
    rintro releases s₂ ⟨hreleases, htemps, hframe⟩
    rw [h₁.frame.site, h₁.temps] at hreleases htemps
    refine ⟨?_, ?_, h₁.frame.trans hframe⟩
    · rw [anyPointerArg, Bool.and_or_distrib_left]
      exact hrelease.append hreleases
    · unfold argsTemps
      rw [htemps, Nat.add_assoc]

end

/-! ### Calls -/

/-- The text that the visitor returns for an expression has no statement end exactly when no call
in it that is printed has, while references are counted, an argument that is a pointer variable.
The names in the tables are those of identifiers at the start, and every visit keeps that. -/
theorem text_without_end_iff (gen : CCodeGenerator) :
    Named {} ∧ (∀ stmt : Stmt, Gives anything (visitStmt gen stmt)) ∧
      ∀ (e : Expr) (s s' : VState) (text : Str), Named s →
        (visitExpr gen e).run s = .ok (text, s') →
          (hasTerminator text = false ↔ endsStatement gen s.site s.tempVarCounter e = false) := by
  refine ⟨named_start, gives_visitStmt, fun e s s' text hs hrun ↦ ?_⟩
  rw [((visitExpr_told e s hs).of_run text s' hrun).ends.terminator]

private def callF : Ident := ⟨"f".toList, isIdentifier_f⟩

private def argX : Ident := ⟨"x".toList, isIdentifier_x⟩

private def literalOne : Expr := .primaryLiteral (.integer ⟨"1".toList, isInteger_1⟩)

/-- `f(1) + 1` -/
def plainCallSum : Expr := .addSub (.funcCall callF [literalOne]) .add literalOne

/-- `f(x) + 1` -/
def pointerCallSum : Expr := .addSub (.funcCall callF [.ident argX]) .add literalOne

theorem text_without_end_iff_plainCallSum : ∃ text s,
    (visitExpr ⟨true⟩ plainCallSum).run {} = .ok (text, s) ∧ hasTerminator text = false :=
  ⟨"    f(1) + 1", {}, rfl,
    ((text_without_end_iff ⟨true⟩).2.2 plainCallSum {} {} _ named_start rfl).mpr
      (by decide +kernel)⟩

/-- The text of an expression after the declaration `int* x;`. -/
def textBehindPointer (gen : CCodeGenerator) (e : Expr) : Option Str :=
  ((do visitStmt gen (.varDecl (.plain (.pointer .int) argX) none); visitExpr gen e).run
    {}).toOption.map Prod.fst

/-- In both modes the call in `f(x) + 1` is ended by a `;` in the middle of the sum. -/
theorem pointerCallSum_ended :
    textBehindPointer ⟨true⟩ pointerCallSum =
      some ("    f(x);\n    runtime_dec_ref_count(x, 0);\n + 1" : Str) ∧
      textBehindPointer ⟨false⟩ pointerCallSum = some ("    f(x);\n     + 1" : Str) ∧
      hasTerminator "    f(x);\n     + 1" = true := by
  refine ⟨?_, ?_, ?_⟩ <;> decide +kernel

end JBLang.Ast
