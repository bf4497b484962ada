import JBLang.Ast.VisitRules

/-!
# Visits that leave the scopes alone

The operations of the visitor that do not touch the symbol table, with their errors: none of them
reports a missing scope. All visits of expressions are such.
-/

namespace JBLang.Ast

open JBLang.Base JBLang.Types JBLang.Codegen

variable {gen : CCodeGenerator} {α β : Type}

/-- The error of `addSymbol` without an active scope. -/
def missingScope : VisitError := .compiler .other "No active scope"

/-- The symbol table and the pass are as before. -/
structure SameScopes (s s' : VState) : Prop where
  symbolTable : s'.symbolTable = s.symbolTable
  firstPass : s'.firstPass = s.firstPass

theorem SameScopes.refl (s : VState) : SameScopes s s := ⟨rfl, rfl⟩

theorem SameScopes.trans (s₁ s₂ s₃ : VState) (h : SameScopes s₁ s₂) (h' : SameScopes s₂ s₃) :
    SameScopes s₁ s₃ :=
  ⟨h'.symbolTable.trans h.symbolTable, h'.firstPass.trans h.firstPass⟩

theorem SameScopes.nonempty {s s' : VState} (h : SameScopes s s')
    (hs : s.symbolTable.scopes ≠ []) : s'.symbolTable.scopes ≠ [] := by
  rwa [h.symbolTable]

/-- A relation that the output and the temporaries may grow in. -/
class Growing (R : VState → VState → Prop) : Prop where
  refl : ∀ s, R s s
  trans : ∀ s₁ s₂ s₃, R s₁ s₂ → R s₂ s₃ → R s₁ s₃
  grow : ∀ (s : VState) text n, R s { s with output := s.output ++ text, tempVarCounter := n }

instance : Growing SameScopes := ⟨.refl, .trans, fun _ _ _ ↦ ⟨rfl, rfl⟩⟩

/-- The computation leaves the symbol table alone and reports no missing scope. -/
def Quiet (m : VisitM α) : Prop := Keeps SameScopes (· ≠ missingScope) m

theorem Quiet.same {m : VisitM α} {s s' : VState} {a : α} (hm : Quiet m)
    (hrun : m.run s = .ok (a, s')) : SameScopes s s' := (hm s).of_run hrun

/-- The errors of the type system are neither a missing scope nor an absent child. -/
structure ByTypes (e : VisitError) : Prop where
  scope : e ≠ missingScope
  child : e ≠ .nullAccess

/-- A set of errors that has all errors of the type system. -/
class HasTypeErrors (E : VisitError → Prop) : Prop where
  of_types : ∀ e, ByTypes e → E e

instance : HasTypeErrors (· ≠ missingScope) := ⟨fun _ h ↦ h.scope⟩

instance : HasTypeErrors (· ≠ .nullAccess) := ⟨fun _ h ↦ h.child⟩

/-! ### Rules -/

section Rules

variable {E : VisitError → Prop} {R : VState → VState → Prop}

theorem quiet_throw {e : VisitError} (he : E e) : Keeps R E (throw e : VisitM α) := Keeps.throw he

theorem quiet_modify {f : VState → VState} (hf : ∀ s, R s (f s)) :
    Keeps R E (modify f : VisitM Unit) := hf

variable [Growing R]

theorem quiet_pure (a : α) : Keeps R E (pure a : VisitM α) := Keeps.pure Growing.refl a

theorem quiet_bind {m : VisitM α} {f : α → VisitM β} (hm : Keeps R E m)
    (hf : ∀ a, Keeps R E (f a)) : Keeps R E (m >>= f) := Keeps.bind Growing.trans hm hf

theorem quiet_get : Keeps R E (get : VisitM VState) := Keeps.get Growing.refl

theorem quiet_emit (text : Str) : Keeps R E (emit text) :=
  quiet_modify fun s ↦ Growing.grow s text s.tempVarCounter

theorem quiet_freshTemp : Keeps R E freshTemp :=
  quiet_bind quiet_get fun s₀ ↦ quiet_bind (quiet_modify fun s ↦ by
    simpa using Growing.grow (R := R) s [] (s₀.tempVarCounter + 1)) fun _ ↦ quiet_pure _

theorem quiet_indentLevel : Keeps R E indentLevel :=
  quiet_bind quiet_get fun _ ↦ quiet_pure _

theorem quiet_lookupSymbol (name : Str) : Keeps R E (lookupSymbol name) :=
  quiet_bind quiet_get fun _ ↦ quiet_pure _

theorem quiet_inFirstPass : Keeps R E inFirstPass :=
  quiet_bind quiet_get fun _ ↦ quiet_pure _

theorem quiet_setAddRefCounts (b : Bool) : Keeps SameScopes E (setAddRefCounts b) :=
  quiet_modify fun _ ↦ ⟨rfl, rfl⟩

theorem quiet_modifyTypes (f : TypeSystem → TypeSystem) : Keeps SameScopes E (modifyTypes f) :=
  quiet_modify fun _ ↦ ⟨rfl, rfl⟩

theorem quiet_firstPassOnly {m : VisitM Unit} (hm : Keeps R E m) :
    Keeps R E (firstPassOnly m) :=
  quiet_bind quiet_inFirstPass fun b ↦ by
    cases b
    · exact quiet_pure _
    · exact hm

theorem quiet_secondPassOnly {m : VisitM Unit} (hm : Keeps R E m) :
    Keeps R E (secondPassOnly m) :=
  quiet_bind quiet_inFirstPass fun b ↦ by
    cases b
    · exact hm
    · exact quiet_pure _

end Rules

/-! ### Errors of the type system -/

/-- An answer of the type system: a value, or one of its errors. -/
def Answers (x : Except VisitError α) : Prop := ∀ e, x = .error e → ByTypes e

theorem answers_ok (a : α) : Answers (.ok a) := nofun

theorem answers_error {e : VisitError} (he : ByTypes e) :
    Answers (.error e : Except VisitError α) := by
  rintro _ ⟨⟩
  exact he

theorem Answers.bind {x : Except VisitError α} {f : α → Except VisitError β} (hx : Answers x)
    (hf : ∀ a, Answers (f a)) : Answers (x >>= f) := by
  cases x with
  | error e => exact answers_error (hx e rfl)
  | ok a => exact hf a

theorem resolveType_answers (ts : TypeSystem) (text : Str) : Answers (ts.resolveType text) := by
  intro e h
  rcases TypeSystem.resolveType_eq_error h with ⟨message, rfl⟩ | rfl
  · exact ⟨nofun, nofun⟩
  · exact ⟨nofun, nofun⟩

theorem resolveTypeText_answers (ts : TypeSystem) (text : Str) :
    Answers (resolveTypeText ts text) := by
  unfold resolveTypeText
  simp only
  split_ifs
  · exact (resolveType_answers ts _).bind fun _ ↦ answers_ok _
  · exact resolveType_answers ts _
  · exact resolveType_answers ts _

theorem arraySizeValue_answers (ts : TypeSystem) (size : ArraySize) :
    Answers (arraySizeValue ts size) := by
  have hstoi : ∀ text, Answers (stoi text) := by
    intro text
    unfold stoi
    simp only
    split
    · exact answers_error ⟨nofun, nofun⟩
    · exact answers_ok _
  cases size with
  | define name => exact hstoi _
  | integer n => exact hstoi _

theorem arraySizes_answers (ts : TypeSystem) (sizes : List ArraySize) :
    Answers (sizes.mapM (arraySizeValue ts)) := by
  induction sizes with
  | nil => exact answers_ok _
  | cons size sizes ih =>
    rw [List.mapM_cons]
    exact (arraySizeValue_answers ts size).bind fun _ ↦ ih.bind fun _ ↦ answers_ok _

theorem setStructMembers_answers (ts : TypeSystem) (name : Str) (members : List (Str × Ty)) :
    Answers (ts.setStructMembers name members) := by
  unfold TypeSystem.setStructMembers
  split
  · exact answers_error ⟨nofun, nofun⟩
  · exact answers_ok _

theorem setClassMembers_answers (ts : TypeSystem) (name : Str) (members : List (Str × Ty)) :
    Answers (ts.setClassMembers name members) := by
  unfold TypeSystem.setClassMembers
  split
  · exact answers_error ⟨nofun, nofun⟩
  · exact answers_ok _

theorem setClassParent_answers (ts : TypeSystem) (name parent : Str) :
    Answers (ts.setClassParent name parent) := by
  unfold TypeSystem.setClassParent
  split
  · exact answers_error ⟨nofun, nofun⟩
  · split
    · exact answers_ok _
    · exact answers_error ⟨nofun, nofun⟩

theorem isCompatible_answers (ts : TypeSystem) (src dst : Ty) :
    Answers (ts.isCompatible src dst) := by
  have walk : ∀ fuel current, Answers (ts.isSubclassFrom dst.structName fuel current) := by
    intro fuel
    induction fuel with
    | zero => exact fun _ ↦ answers_error ⟨nofun, nofun⟩
    | succ fuel ih =>
      intro current
      unfold TypeSystem.isSubclassFrom
      split
      · exact answers_ok _
      · split
        · exact answers_ok _
        · exact ih _
  unfold TypeSystem.isCompatible
  split_ifs
  · exact answers_ok _
  · exact walk _ _
  · exact answers_ok _

theorem getAllVirtualMethods_answers (ts : TypeSystem) (className : Str) :
    Answers (ts.getAllVirtualMethods className) := by
  have walk : ∀ fuel current acc, Answers (ts.allVirtualsFrom fuel current acc) := by
    intro fuel
    induction fuel with
    | zero => exact fun _ _ ↦ answers_error ⟨nofun, nofun⟩
    | succ fuel ih =>
      intro current acc
      unfold TypeSystem.allVirtualsFrom
      split
      · exact answers_ok _
      · split
        · exact ih _ _
        · exact answers_ok _
  exact walk _ _ _

theorem methodIsVirtual_answers (ts : TypeSystem) (classType : Ty) (methodName text : Str) :
    Answers (methodIsVirtual ts classType methodName text) := by
  unfold methodIsVirtual
  split_ifs
  · exact answers_ok _
  · exact (getAllVirtualMethods_answers ts _).bind fun _ ↦ answers_ok _
  · exact answers_ok _

theorem findMethod_answers (ts : TypeSystem) (className methodName : Str) :
    Answers (findMethod ts className methodName) := by
  have walk : ∀ fuel current, Answers (findMethodFrom ts className methodName fuel current) := by
    intro fuel
    induction fuel with
    | zero => exact fun _ ↦ answers_error ⟨nofun, nofun⟩
    | succ fuel ih =>
      intro current
      unfold findMethodFrom
      split
      · exact answers_ok _
      · split
        next e he => exact answers_error (resolveType_answers ts current e he)
        next =>
          split
          · exact ih _
          · exact answers_error ⟨nofun, nofun⟩
  exact walk _ _

theorem findMethodImplementation_answers (ts : TypeSystem) (className methodName : Str) :
    Answers (ts.findMethodImplementation className methodName) := by
  have walk : ∀ fuel current, Answers (ts.implementationFrom methodName fuel current) := by
    intro fuel
    induction fuel with
    | zero => exact fun _ ↦ answers_error ⟨nofun, nofun⟩
    | succ fuel ih =>
      intro current
      unfold TypeSystem.implementationFrom
      split
      · exact answers_ok _
      · split
        · exact answers_ok _
        · exact ih _
  exact (walk _ _).bind fun _ ↦ answers_ok _

theorem generateVTableStruct_answers (ts : TypeSystem) : Answers ts.generateVTableStruct := by
  have hslots : ∀ (names : List Str) slots, Answers (names.foldlM ts.addSlots slots) := by
    intro names
    induction names with
    | nil => exact fun _ ↦ answers_ok _
    | cons name names ih =>
      intro slots
      rw [List.foldlM_cons]
      exact ((getAllVirtualMethods_answers ts name).bind fun _ ↦ answers_ok _).bind fun _ ↦ ih _
  exact ((hslots _ _).bind fun _ ↦ answers_ok _).bind fun _ ↦ answers_ok _

theorem vtablePrototypes_answers (ts : TypeSystem) (classNames : List Str)
    (declared : List Function) : Answers (vtablePrototypes ts classNames declared) := by
  induction classNames generalizing declared with
  | nil => exact answers_ok _
  | cons className classNames ih =>
    exact (getAllVirtualMethods_answers ts className).bind fun _ ↦ ih _

theorem generateVTableInstance_answers (ts : TypeSystem) (className : Str) :
    Answers (ts.generateVTableInstance className) := by
  have hentries : ∀ methods entries, Answers (ts.vtableEntriesFrom className methods entries) := by
    intro methods
    induction methods with
    | nil => exact fun _ ↦ answers_ok _
    | cons method methods ih =>
      intro entries
      unfold TypeSystem.vtableEntriesFrom
      split
      · exact ih _
      · exact (findMethodImplementation_answers ts _ _).bind fun _ ↦ ih _
  unfold TypeSystem.generateVTableInstance
  refine (getAllVirtualMethods_answers ts className).bind fun allVirtuals ↦ ?_
  split
  · exact answers_ok _
  · exact (hentries _ _).bind fun _ ↦ answers_ok _

theorem vtableInstances_answers (ts : TypeSystem) (classNames : List Str) :
    Answers (vtableInstances ts classNames) := by
  induction classNames with
  | nil => exact answers_ok _
  | cons className classNames ih =>
    exact (generateVTableInstance_answers ts className).bind fun _ ↦ ih.bind fun _ ↦ answers_ok _

/-! ### Parts of visits -/

section Parts

variable {E : VisitError → Prop} {R : VState → VState → Prop} [Growing R]

theorem quiet_announceClass (className : Str) (classType : Ty) :
    Keeps SameScopes E (announceClass className classType) :=
  quiet_bind quiet_inFirstPass fun b ↦ by
    cases b
    · exact quiet_bind quiet_get fun _ ↦ quiet_emit _
    · exact quiet_modify fun _ ↦ ⟨rfl, rfl⟩

theorem quiet_registerMethod (className methodName : Str) (saysVirtual : Bool) (method : Function) :
    Keeps SameScopes E (registerMethod className methodName saysVirtual method) :=
  quiet_modify fun _ ↦ ⟨rfl, rfl⟩

theorem quiet_defineMethod (method : Function) : Keeps SameScopes E (defineMethod method) :=
  quiet_bind (quiet_emit _) fun _ ↦ quiet_modify fun _ ↦ ⟨rfl, rfl⟩

theorem quiet_emitIncRef (indent : Str) (var : Option Variable) (other : Str) :
    Keeps R E (emitIncRef gen indent var other) := by
  unfold emitIncRef
  split
  · exact quiet_emit _
  · exact quiet_pure _

theorem quiet_emitDecRef (indent : Str) (var : Option Variable) :
    Keeps R E (emitDecRef gen indent var) := by
  unfold emitDecRef
  split
  · exact quiet_emit _
  · exact quiet_pure _

theorem quiet_retainAssigned (left right : Str) :
    Keeps R E (retainAssigned gen left right) :=
  quiet_bind (quiet_lookupSymbol _) fun var ↦ by
    split
    · exact quiet_pure _
    · split
      · refine quiet_bind (quiet_lookupSymbol _) fun _ ↦ ?_
        split
        · exact quiet_bind quiet_indentLevel fun _ ↦ quiet_emit _
        · exact quiet_pure _
      · exact quiet_bind quiet_indentLevel fun _ ↦ quiet_emit _

theorem quiet_initializerLines (indent : Str) (is : List Initializer) :
    Keeps R E (initializerLines gen indent is) := by
  induction is with
  | nil => exact quiet_pure _
  | cons i is ih =>
    obtain ⟨name, value⟩ := i
    exact quiet_bind (quiet_lookupSymbol _) fun _ ↦ quiet_bind (quiet_emitIncRef _ _ _) fun _ ↦
      quiet_bind ih fun _ ↦ quiet_pure _

theorem quiet_countArg (indent argString : Str) :
    Keeps R E (countArg gen indent argString) :=
  quiet_bind (quiet_lookupSymbol _) fun var ↦ by
    split
    · exact quiet_pure _
    · refine quiet_bind quiet_get fun s ↦ ?_
      split
      · exact quiet_bind (quiet_emit _) fun _ ↦ quiet_pure _
      · exact quiet_pure _

theorem quiet_releaseText (indent argString : Str) :
    Keeps R E (releaseText gen indent argString) :=
  quiet_bind (quiet_lookupSymbol _) fun var ↦ by
    split <;> exact quiet_pure _

/-- The branch of an expression that is visited in the second pass only. -/
theorem quiet_unlessFirst {m : VisitM Str} (hm : Keeps R E m) :
    Keeps R E (inFirstPass >>= fun first ↦ if first then pure "".toList else m) :=
  quiet_bind quiet_inFirstPass fun b ↦ by
    cases b
    · exact hm
    · exact quiet_pure _

theorem quiet_visitDirectives (ds : List Directive) : Keeps SameScopes E (visitDirectives ds) := by
  have hdirective : ∀ d, Keeps SameScopes E (visitPreprocessorDirective d) := by
    intro d
    cases d with
    | «include» file => exact quiet_emit _
    | define name value => exact quiet_bind (quiet_modifyTypes _) fun _ ↦ quiet_emit _
  induction ds with
  | nil => exact quiet_pure _
  | cons d ds ih =>
    exact quiet_bind (hdirective d) fun _ ↦ quiet_bind (quiet_emit _) fun _ ↦ ih

variable [HasTypeErrors E]

theorem quiet_askTypes {f : TypeSystem → Except VisitError α} (hf : ∀ ts, Answers (f ts)) :
    Keeps R E (askTypes f) :=
  quiet_bind quiet_get fun s ↦ Keeps.lift Growing.refl fun e he ↦
    HasTypeErrors.of_types e (hf s.typeSystem e he)

theorem quiet_updateTypes {f : TypeSystem → Except VisitError (TypeSystem × Ty)}
    (hf : ∀ ts, Answers (f ts)) : Keeps SameScopes E (updateTypes f) := by
  intro s
  simp only [updateTypes, outcome_bind, outcome_get, outcome_lift, outcome_set, outcome_pure]
  exact ⟨fun _ _ ↦ ⟨rfl, rfl⟩, fun e he ↦ HasTypeErrors.of_types e (hf s.typeSystem e he)⟩

theorem quiet_resolveTypeFromContext (t : TypeSpec) :
    Keeps R E (resolveTypeFromContext t) :=
  quiet_askTypes fun ts ↦ resolveTypeText_answers ts _

theorem quiet_declaratorType (d : Declarator) : Keeps R E (declaratorType d) := by
  cases d with
  | plain t name => exact quiet_bind (quiet_resolveTypeFromContext t) fun _ ↦ quiet_pure _
  | array t name sizes =>
    exact quiet_bind (quiet_resolveTypeFromContext t) fun _ ↦
      quiet_bind (quiet_askTypes fun ts ↦ arraySizes_answers ts sizes) fun _ ↦ quiet_pure _

theorem quiet_declaratorTypes (ds : List Declarator) : Keeps R E (declaratorTypes ds) := by
  induction ds with
  | nil => exact quiet_pure _
  | cons d ds ih =>
    exact quiet_bind (quiet_declaratorType d) fun _ ↦ quiet_bind ih fun _ ↦ quiet_pure _

theorem quiet_getStructFromCode (d : StructDecl) : Keeps SameScopes E (getStructFromCode d) :=
  quiet_bind (quiet_firstPassOnly (quiet_modifyTypes _)) fun _ ↦
    quiet_bind (quiet_declaratorTypes _) fun members ↦
      quiet_updateTypes fun ts ↦ setStructMembers_answers ts _ members

theorem quiet_getClassFromCode (name : Ident) (parent : Option Ident)
    (members : List ClassMember) : Keeps SameScopes E (getClassFromCode name parent members) := by
  have hparent : Keeps SameScopes E (setParent name parent) := by
    cases parent with
    | none => exact quiet_pure _
    | some parent =>
      exact quiet_bind (quiet_askTypes fun ts ↦ setClassParent_answers ts _ _) fun _ ↦
        quiet_modifyTypes _
  exact quiet_bind (quiet_firstPassOnly (quiet_modifyTypes _)) fun _ ↦
    quiet_bind hparent fun _ ↦ quiet_bind (quiet_declaratorTypes _) fun fields ↦
      quiet_updateTypes fun ts ↦ setClassMembers_answers ts _ fields

theorem quiet_memberParams (classType : Ty) (params : List Declarator) :
    Keeps R E (memberParams classType params) :=
  quiet_bind (quiet_declaratorTypes params) fun _ ↦ quiet_pure _

theorem quiet_methodIsVirtual (classType : Ty) (methodName text : Str) :
    Keeps R E (askTypes fun ts ↦ methodIsVirtual ts classType methodName text) :=
  quiet_askTypes fun ts ↦ methodIsVirtual_answers ts classType methodName text

theorem quiet_castTo (code : Str) (fromVar : Option Variable) (toType : Ty) :
    Keeps R E (castTo code fromVar toType) := by
  unfold castTo
  split
  · exact quiet_pure _
  · refine quiet_bind (quiet_askTypes fun ts ↦ isCompatible_answers ts _ _) fun b ↦ ?_
    cases b <;> exact quiet_pure _

theorem quiet_assignCode (left right : Str) : Keeps R E (assignCode gen left right) := by
  have hcast : Keeps R E (castAssigned left right) :=
    quiet_bind (quiet_lookupSymbol _) fun var ↦ by
      cases var with
      | none => exact quiet_pure _
      | some leftVar => exact quiet_bind (quiet_lookupSymbol _) fun _ ↦ quiet_castTo _ _ _
  exact quiet_bind hcast fun right ↦ quiet_bind (quiet_retainAssigned left right) fun _ ↦
    quiet_bind quiet_indentLevel fun _ ↦ quiet_bind (quiet_lookupSymbol _) fun _ ↦
      quiet_bind (quiet_emitDecRef _ _) fun _ ↦ quiet_pure _

theorem quiet_receiverClass (objExpr : Str) : Keeps R E (receiverClass objExpr) :=
  quiet_bind (quiet_lookupSymbol _) fun var ↦ by
    split
    · exact quiet_throw (HasTypeErrors.of_types _ ⟨nofun, nofun⟩)
    · split
      · exact quiet_pure _
      · exact quiet_throw (HasTypeErrors.of_types _ ⟨nofun, nofun⟩)

theorem quiet_methodCallCode (objExpr methodName className currentClass : Str)
    (method : Function) (args : List Str) :
    Keeps R E (methodCallCode objExpr methodName className currentClass method args) := by
  unfold methodCallCode
  split
  · exact quiet_bind (quiet_askTypes fun ts ↦ resolveType_answers ts _) fun _ ↦ quiet_pure _
  · exact quiet_pure _

theorem quiet_storeVTable (className : Str) (classType : Ty) :
    Keeps R E (storeVTable className classType) := by
  refine quiet_bind (quiet_askTypes fun ts ↦ getAllVirtualMethods_answers ts _)
    fun allVirtuals ↦ ?_
  split
  · exact quiet_pure _
  · exact quiet_emit _

theorem quiet_visitStructDecl (d : StructDecl) : Keeps SameScopes E (visitStructDecl d) :=
  quiet_bind (quiet_getStructFromCode d) fun _ ↦ quiet_secondPassOnly (quiet_emit _)

theorem quiet_visitTypedefDecl (body : TypedefBody) (name : Ident) :
    Keeps SameScopes E (visitTypedefDecl body name) := by
  have htype : Keeps SameScopes E (typedefType body) := by
    cases body with
    | structDecl d => exact quiet_getStructFromCode d
    | typeSpec t => exact quiet_resolveTypeFromContext t
  refine quiet_bind htype fun type ↦ quiet_bind quiet_inFirstPass fun b ↦ ?_
  cases b
  · exact quiet_emit _
  · exact quiet_modifyTypes (·.registerTypeDef name.text type)

/-- Between the passes the symbol table stays as it is. -/
theorem quiet_emitVTables : Keeps R E emitVTables :=
  quiet_bind (quiet_askTypes generateVTableStruct_answers) fun _ ↦ quiet_bind (quiet_emit _) fun _ ↦
    quiet_bind quiet_get fun _ ↦ quiet_bind (quiet_askTypes fun ts ↦ vtablePrototypes_answers ts _ _)
      fun _ ↦ quiet_bind (quiet_emit _) fun _ ↦ quiet_bind (quiet_emit _) fun _ ↦
        quiet_bind (quiet_askTypes fun ts ↦ vtableInstances_answers ts _) fun _ ↦ quiet_emit _

end Parts

/-! ### Expressions -/

variable {R : VState → VState → Prop} [Growing R]

mutual

/-- Expressions only let the output and the temporaries grow. -/
theorem quiet_visitExpr : ∀ e : Expr, Keeps R (· ≠ missingScope) (visitExpr gen e)
  | .paren e | .member e _ | .addressOf e | .dereference e | .postIncrement e | .postDecrement e
  | .preIncrement e | .preDecrement e => by
    unfold visitExpr
    exact quiet_bind (quiet_visitExpr e) fun _ ↦ quiet_pure _
  | .ident _ | .primaryLiteral _ | .literal _ => by
    unfold visitExpr
    exact quiet_pure _
  | .var _ => by
    unfold visitExpr
    exact quiet_throw nofun
  | .new t => by
    unfold visitExpr
    exact quiet_bind (quiet_resolveTypeFromContext t) fun _ ↦ quiet_pure _
  | .mulDiv l _ r | .addSub l _ r | .compare l _ r | .arrayAccess l r => by
    unfold visitExpr
    exact quiet_bind (quiet_visitExpr l) fun _ ↦ quiet_bind (quiet_visitExpr r) fun _ ↦ quiet_pure _
  | .funcCall name args => by
    unfold visitExpr
    refine quiet_unlessFirst (quiet_bind quiet_indentLevel fun indent ↦
      quiet_bind (quiet_visitCallArgs indent args) fun _ ↦ quiet_bind ?_ fun _ ↦ quiet_pure _)
    refine quiet_bind quiet_get fun s ↦ ?_
    split
    · exact quiet_visitReleasedArgs indent args
    · exact quiet_pure _
  | .assign left right => by
    unfold visitExpr
    exact quiet_unlessFirst (quiet_bind (quiet_visitExpr left) fun _ ↦
      quiet_bind (quiet_visitExpr right) fun _ ↦ quiet_assignCode _ _)
  | .newWithConstructor name args => by
    unfold visitExpr
    refine quiet_unlessFirst (quiet_bind quiet_get fun s ↦ ?_)
    split
    · exact quiet_throw nofun
    · exact quiet_bind quiet_freshTemp fun _ ↦ quiet_bind quiet_indentLevel fun _ ↦
        quiet_bind (quiet_askTypes fun ts ↦ resolveType_answers ts _) fun _ ↦
          quiet_bind (quiet_emit _) fun _ ↦ quiet_bind (quiet_visitArgs args) fun _ ↦
            quiet_bind (quiet_emit _) fun _ ↦ quiet_pure _
  | .pointerMember e name => by
    unfold visitExpr
    exact quiet_unlessFirst (quiet_bind (quiet_visitExpr e) fun _ ↦
      quiet_bind quiet_get fun _ ↦ quiet_pure _)
  | .methodCall e name args => by
    unfold visitExpr
    exact quiet_unlessFirst (quiet_bind (quiet_visitExpr e) fun _ ↦
      quiet_bind (quiet_receiverClass _) fun _ ↦
        quiet_bind (quiet_askTypes fun ts ↦ findMethod_answers ts _ _) fun _ ↦
          quiet_bind (quiet_visitArgs args) fun _ ↦ quiet_methodCallCode _ _ _ _ _ _)
  | .structInit inits _ => by
    unfold visitExpr
    have hinits : Keeps R (· ≠ missingScope) (visitInitializerList gen inits) :=
      quiet_unlessFirst (quiet_bind quiet_indentLevel fun _ ↦ quiet_initializerLines _ inits)
    split
    · exact quiet_throw nofun
    · exact quiet_bind hinits fun _ ↦ quiet_bind quiet_indentLevel fun _ ↦ quiet_pure _

theorem quiet_visitArgs : ∀ es : List Expr, Keeps R (· ≠ missingScope) (visitArgs gen es)
  | [] => by
    unfold visitArgs
    exact quiet_pure _
  | e :: es => by
    unfold visitArgs
    exact quiet_bind (quiet_visitExpr e) fun _ ↦ quiet_bind (quiet_visitArgs es) fun _ ↦ quiet_pure _

theorem quiet_visitCallArgs (indent : Str) :
    ∀ es : List Expr, Keeps R (· ≠ missingScope) (visitCallArgs gen indent es)
  | [] => by
    unfold visitCallArgs
    exact quiet_pure _
  | e :: es => by
    unfold visitCallArgs
    exact quiet_bind (quiet_visitExpr e) fun _ ↦ quiet_bind (quiet_countArg _ _) fun _ ↦
      quiet_bind (quiet_visitCallArgs indent es) fun _ ↦ quiet_pure _

theorem quiet_visitReleasedArgs (indent : Str) :
    ∀ es : List Expr, Keeps R (· ≠ missingScope) (visitReleasedArgs gen indent es)
  | [] => by
    unfold visitReleasedArgs
    exact quiet_pure _
  | e :: es => by
    unfold visitReleasedArgs
    exact quiet_bind (quiet_visitExpr e) fun _ ↦ quiet_bind (quiet_releaseText _ _) fun _ ↦
      quiet_bind (quiet_visitReleasedArgs indent es) fun _ ↦ quiet_pure _

end

end JBLang.Ast
