import JBLang.Ast.Steps
import JBLang.Types.Shapes
import Mathlib.Data.List.Forall2

/-!
# The types of vtable slots

`generateVTableStruct` gives every slot the type of a function without result and without
parameters behind the receiver. What a slot holds is defined with the result and the parameters of
its declaration.
-/

namespace JBLang.Classes

open JBLang.Base JBLang.Types JBLang.Ast JBLang.Codegen

/-! ### Slots and headers -/

/-- The result type and the parameter types behind the receiver, as they are printed. -/
structure Signature where
  result : Str
  params : List Str
deriving DecidableEq

/-- A pointer to a function of a signature, as the vtable struct declares it. -/
def Signature.pointer (sig : Signature) (name : Str) : Str :=
  sig.result ++ " (*" ++ name ++ ")(void* this" ++
    (sig.params.map fun param ↦ (", " : Str) ++ param).flatten ++ ")"

/-- The signature of every slot. -/
def slotSignature : Signature := ⟨"void", []⟩

theorem slotDecl_eq (m : Str) :
    TypeSystem.slotDecl m = "    " ++ slotSignature.pointer m ++ ";\n" := by
  have hfront : "    void (*".toList = "    ".toList ++ ("void".toList ++ " (*".toList) := by
    decide +kernel
  have hback : ")(void* this);\n".toList =
      ")(void* this".toList ++ (")".toList ++ ";\n".toList) := by
    decide +kernel
  have hpointer : slotSignature.pointer m =
      ("void" : Str) ++ " (*" ++ m ++ ")(void* this" ++ ([] : Str) ++ ")" := rfl
  have hslot : TypeSystem.slotDecl m = "    void (*" ++ m ++ ")(void* this);\n" := rfl
  rw [hpointer, hslot, hfront, hback]
  simp only [List.append_assoc, List.append_nil]

/-- The signature of a method as its header prints it. -/
def signatureOf (f : Function) : Signature :=
  ⟨f.returnType.toStr, f.params.tail.map fun p ↦ p.2.toStr⟩

theorem generateFunctionDecl_virtual {f : Function} (h : f.isVirtual = true) :
    generateFunctionDecl f = (signatureOf f).result ++ " " ++ f.name ++ "(void* this_param" ++
      (((signatureOf f).params.zip (f.params.tail.map Prod.fst)).map fun p ↦
        (", " : Str) ++ p.1 ++ " " ++ p.2).flatten ++ ")" := by
  have hparams : f.params.tail.map virtualParam =
      ((signatureOf f).params.zip (f.params.tail.map Prod.fst)).map fun p ↦
        (", " : Str) ++ p.1 ++ " " ++ p.2 := by
    rw [signatureOf, List.zip_map', List.map_map]
    rfl
  rw [generateFunctionDecl, if_pos h, hparams]
  rfl

/-- A function of this name is in the vtable of a class. -/
def Installed (s : VState) (name : Str) : Prop :=
  ∃ D ∈ s.classNames, ∃ entries, s.typeSystem.vtableEntries D = .ok entries ∧
    ∃ m, (m, name) ∈ entries

/-- Every method in a vtable is defined with the signature of its slot; `s` is the state in which
the vtables are written. -/
def SlotsTyped (s : VState) (defined : List Function) : Prop :=
  ∀ name, Installed s name → ∀ f ∈ defined, f.name = name → signatureOf f = slotSignature

/-! ### Declarations -/

/-- The declaration of a method. -/
structure MethodDecl where
  className : Str
  result : TypeSpec
  name : Ident
  params : List Declarator

/-- The name of the method in C. -/
def MethodDecl.mangled (d : MethodDecl) : Str := d.className ++ "_" ++ d.name.text

mutual

/-- The methods declared in a statement that the second pass visits: not in the body of a `for`
statement. -/
def methodDecls : Stmt → List MethodDecl
  | .functionDecl _ _ _ body => methodDeclsIn body
  | .block body => methodDeclsIn body
  | .classDecl name _ members => methodDeclsOf name.text members
  | .ifStmt _ thenBranch none => methodDecls thenBranch
  | .ifStmt _ thenBranch (some elseBranch) => methodDecls thenBranch ++ methodDecls elseBranch
  | .whileStmt _ body => methodDecls body
  | .varDecl .. | .spawnStmt .. | .returnStmt .. | .exprStmt .. | .structDecl .. | .forStmt ..
  | .typedefDecl .. => []

/-- The methods declared in a list of statements. -/
def methodDeclsIn : List Stmt → List MethodDecl
  | [] => []
  | s :: ss => methodDecls s ++ methodDeclsIn ss

/-- The methods declared by a member of a class, those in its body included. -/
def methodDeclsOfMember (className : Str) : ClassMember → List MethodDecl
  | .field _ => []
  | .constructor _ _ _ body => methodDeclsIn body
  | .method _ result name params body => ⟨className, result, name, params⟩ :: methodDeclsIn body

/-- The methods declared by the members of a class. -/
def methodDeclsOf (className : Str) : List ClassMember → List MethodDecl
  | [] => []
  | m :: ms => methodDeclsOfMember className m ++ methodDeclsOf className ms

end

/-- The result of the declaration is a type that is printed like the result of a slot. -/
def VoidResult (ts : TypeSystem) (d : MethodDecl) : Prop :=
  ∃ t, resolveTypeText ts d.result.getText = .ok t ∧ t.toStr = slotSignature.result

/-! ### The headers of the second pass -/

theorem resolveTypeText_shapes {ts ts' : TypeSystem} (h : ts.SameShapes ts') (text : Str) :
    (resolveTypeText ts text).map Ty.shape = (resolveTypeText ts' text).map Ty.shape := by
  unfold resolveTypeText
  split
  · simp only
    split
    · have hbase := h.resolveType (text.drop 6).dropLast
      cases ht : ts.resolveType (text.drop 6).dropLast with
      | error e => cases ht' : ts'.resolveType (text.drop 6).dropLast with
        | error e' =>
          rw [ht, ht'] at hbase
          cases hbase
          rfl
        | ok t' =>
          rw [ht, ht'] at hbase
          cases hbase
      | ok t => cases ht' : ts'.resolveType (text.drop 6).dropLast with
        | error e' =>
          rw [ht, ht'] at hbase
          cases hbase
        | ok t' =>
          rw [ht, ht'] at hbase
          obtain ⟨hb, -, ha, hn⟩ := Shape.mk.inj (Except.ok.inj hbase)
          refine congrArg Except.ok ?_
          simp [Ty.shape, Ty.setPointer, hb, ha, hn]
    · exact h.resolveType _
  · exact h.resolveType _

/-- A state of the second pass, with the types of the first one up to members and parents. -/
structure SecondPass (ts : TypeSystem) (s : VState) : Prop where
  pass : s.firstPass = false
  shapes : ts.SameShapes s.typeSystem

variable {gen : CCodeGenerator} {ts : TypeSystem} {s s' s'' : VState} {b : Bool}

private theorem linkClass_shapes {ts ts' : TypeSystem} {name : Str} {parent : Option Str}
    {fields : List (Str × Ty)} {type : Ty} (h : linkClass ts name parent fields = .ok (ts', type)) :
    ts.SameShapes ts' := by
  have hlink := linkClass_spec h
  obtain ⟨t, ht, htype⟩ := hlink.type_eq
  rw [hlink.frame]
  refine ⟨fun _ ↦ rfl, fun _ ↦ rfl, fun n ↦ ?_⟩
  rw [hlink.lookup]
  split
  next hn =>
    rw [hn, ht, htype]
    rfl
  next => rfl

theorem SecondPass.step (hs : SecondPass ts s) (h : VisitStep b s s') : SecondPass ts s' := by
  have hpass := h.firstPass_eq.trans hs.pass
  cases h with
  | registerStruct _ hf | registerTypeDef _ hf | registerFunction _ hf | registerConstructor _ _ hf
  | declareClass _ hf | registerMethod _ hf => simp [hs.pass] at hf
  | @setStructMembers name members ts₁ type h =>
    refine ⟨hpass, hs.shapes.trans ?_⟩
    obtain ⟨t, ht, rfl, rfl⟩ := TypeSystem.setStructMembers_eq_ok.mp h
    refine ⟨fun _ ↦ rfl, fun n ↦ ?_, fun _ ↦ rfl⟩
    rw [NameMap.lookup_insert]
    split
    next hn =>
      rw [hn, ht]
      rfl
    next => rfl
  | relinkClass _ _ h => exact ⟨hpass, hs.shapes.trans (linkClass_shapes h)⟩
  | _ => exact ⟨hpass, hs.shapes⟩

theorem secondPass_of_steps (h : Steps b s s') (hs : SecondPass ts s) : SecondPass ts s' :=
  (h.invariant (fun _ _ _ hstep hs ↦ hs.step hstep) hs).1

/-- The header of a declared method. -/
structure HeaderOf (ts : TypeSystem) (d : MethodDecl) (f : Function) : Prop where
  name : f.name = d.mangled
  result : ∃ t, resolveTypeText ts d.result.getText = .ok t ∧ f.returnType.toStr = t.toStr
  params : f.params.tail.length = d.params.length

/-- A header has the signature of a slot exactly when its declaration has no result and no
parameters. -/
theorem HeaderOf.signature_iff {d : MethodDecl} {f : Function} (h : HeaderOf ts d f) :
    signatureOf f = slotSignature ↔ d.params = [] ∧ VoidResult ts d := by
  obtain ⟨t, ht, hresult⟩ := h.result
  have hparams : f.params.tail.map (fun p ↦ p.2.toStr) = [] ↔ d.params = [] := by
    rw [List.map_eq_nil_iff, ← List.length_eq_zero_iff, h.params, List.length_eq_zero_iff]
  have hvoid : f.returnType.toStr = slotSignature.result ↔ VoidResult ts d := by
    rw [hresult]
    constructor
    · exact fun h ↦ ⟨t, ht, h⟩
    · rintro ⟨t', ht', h'⟩
      rw [ht] at ht'
      cases ht'
      exact h'
  rw [← hparams, ← hvoid, and_comm]
  exact Signature.mk.injEq .. ▸ Iff.rfl

/-- The second pass has written the headers of these declarations, in order. -/
structure Headers (ts : TypeSystem) (decls : List MethodDecl) (s s' : VState) : Prop where
  pass : SecondPass ts s'
  defined : ∃ fs, s'.defined = s.defined ++ fs ∧ List.Forall₂ (HeaderOf ts) decls fs

namespace Headers

variable {decls decls' : List MethodDecl}

theorem trans (h : Headers ts decls s s') (h' : Headers ts decls' s' s'') :
    Headers ts (decls ++ decls') s s'' := by
  obtain ⟨fs, hfs, hall⟩ := h.defined
  obtain ⟨fs', hfs', hall'⟩ := h'.defined
  refine ⟨h'.pass, fs ++ fs', ?_, List.rel_append hall hall'⟩
  rw [hfs', hfs, List.append_assoc]

theorem of_plain (hs : SecondPass ts s) (h : Steps false s s') : Headers ts [] s s' :=
  ⟨secondPass_of_steps h hs, [], by simp [h.record_eq.2.2], .nil⟩

theorem plain_after (h : Headers ts decls s s') (h' : Steps false s' s'') :
    Headers ts decls s s'' := by
  simpa using h.trans (of_plain h.pass h')

theorem start (h : Headers ts decls s' s'') (heq : s'.defined = s.defined) :
    Headers ts decls s s'' :=
  ⟨h.pass, heq ▸ h.defined⟩

end Headers

theorem resolveTypeText_second (hs : SecondPass ts s) {text : Str} {type : Ty}
    (h : resolveTypeText s.typeSystem text = .ok type) :
    ∃ type', resolveTypeText ts text = .ok type' ∧ type.toStr = type'.toStr := by
  obtain ⟨type', htype', hshape⟩ :=
    exists_ok_of_map_eq (resolveTypeText_shapes hs.shapes text).symm h
  exact ⟨type', htype', (Ty.toStr_eq_of_shape hshape).symm⟩

/-- A class declaration writes no header before its members. -/
private theorem classDecl_headers (hs : SecondPass ts s) (name : Ident) (parent : Option Ident)
    (members : List ClassMember) :
    Post (getClassFromCode name parent members) s fun classType s₁ ↦
      Post (announceClass name.text classType) s₁ fun _ s' ↦ Headers ts [] s s' := by
  simp only [announceClass, post_bind, post_inFirstPass, post_ite, post_modify, post_get, post_emit]
  apply (getClassFromCode_spec name parent members).mono
  rintro type _ ⟨fields, ts', rfl, hlink⟩
  rw [if_neg (by simp [hs.pass])] at hlink
  have hlinked := hs.step (.relinkClass s rfl hs.pass hlink)
  exact ⟨fun h ↦ by simp [hs.pass] at h, fun _ ↦
    ⟨⟨hlinked.pass, hlinked.shapes⟩, [], by simp, .nil⟩⟩

/-- The second pass writes the header of each method that statements declare, in order. -/
theorem headers_walk (ts : TypeSystem) : WalkRules
    (fun stmts s s' ↦ SecondPass ts s → Headers ts (methodDeclsIn stmts) s s')
    (fun C _ ms s s' ↦ SecondPass ts s → Headers ts (methodDeclsOf C ms) s s') where
  before h h' hs := (h' (secondPass_of_steps h hs)).start h.record_eq.2.2
  after h h' hs := (h hs).plain_after h'
  nil s hs := .of_plain hs (.refl s)
  cons h h' hs := by
    have h₁ := h hs
    simp only [methodDeclsIn, List.append_nil] at h₁ ⊢
    exact h₁.trans (h' h₁.pass)
  inner {stmt _ _} hclass h hs := by
    have h₁ := h hs
    rw [hs.pass] at h₁
    cases stmt with
    | classDecl name parent members => exact absurd rfl (hclass name parent members)
    | ifStmt cond thenBranch elseBranch =>
      cases elseBranch <;> simpa [innerStmts, methodDeclsIn, methodDecls] using h₁
    | _ => simpa [innerStmts, methodDeclsIn, methodDecls] using h₁
  declare h₁ h₂ h₃ hs := by
    have h := ((classDecl_headers hs _ _ _).of_run _ _ h₁).of_run _ _ h₂
    simp only [methodDeclsIn, methodDecls, List.append_nil]
    exact h.trans (h₃ h.pass)
  noMember _ _ s hs := .of_plain hs (.refl s)
  members h h' hs := by
    have h₁ := h hs
    simp only [methodDeclsOf, List.append_nil] at h₁ ⊢
    exact h₁.trans (h' h₁.pass)
  field _ _ _ s hs := .of_plain hs (.refl s)
  constructor h hs := by
    simp only [methodDeclsOf, methodDeclsOfMember, List.append_nil]
    exact h hs
  method {C _ _ result name params _ s _ _ _ _} hresult _ hparams h hs := by
    rw [hs.pass, Bool.false_and, if_neg Bool.false_ne_true, recordHeader,
      if_neg (by simp [hs.pass])] at h
    obtain ⟨-, hparams⟩ := (declaratorTypes_frame _).of_run _ _ hparams
    simp only [methodDeclsOf, methodDeclsOfMember, List.append_nil]
    change Headers ts ([⟨C, result, name, params⟩] ++ _) s _
    refine Headers.trans ?_ (h ⟨hs.pass, hs.shapes⟩)
    exact ⟨⟨hs.pass, hs.shapes⟩, [_], rfl,
      .cons ⟨rfl, resolveTypeText_second hs hresult, hparams⟩ .nil⟩

/-- The first pass writes no header. -/
theorem afterFirstPass_defined {p : Program}
    (h : (firstPassProgram gen p).run {} = .ok ((), s)) : s.defined = [] := by
  obtain ⟨output, defines, hsteps⟩ := (firstPassProgram_steps p).of_run _ _ h
  refine (hsteps.invariant (P := fun s ↦ s.defined = []) (fun s₁ s₂ hs hstep h₁ ↦ ?_) rfl).1
  cases hstep with
  | defineMethod _ _ hf => simp [hs] at hf
  | _ => exact h₁

/-- A translation defines the declared methods. -/
theorem translate_headers {p : Program} (h : translate gen p = .ok s) :
    List.Forall₂ (HeaderOf (afterFirstPass gen p).typeSystem) (methodDeclsIn p.statements)
      s.defined := by
  obtain ⟨hfirst, s₁, htables, hsecond⟩ := translate_eq_ok h
  obtain ⟨text, rfl⟩ := emitVTables_frame.of_run _ _ htables
  have headers : Post (secondPassProgram gen p) { afterFirstPass gen p with
      output := (afterFirstPass gen p).output ++ text } fun _ s' ↦
        Headers (afterFirstPass gen p).typeSystem (methodDeclsIn p.statements)
          (afterFirstPass gen p) s' := by
    simp only [secondPassProgram, post_bind, post_modify, post_emit, post_get]
    refine Post.mono (visitTopLevel_walk (headers_walk (afterFirstPass gen p).typeSystem) p.statements) ?_
    intro _ s₁ h₁
    have headers := h₁ ⟨rfl, .refl _⟩
    exact (headers.plain_after ((((Steps.refl s₁).write _).write _).write _)).start rfl
  obtain ⟨fs, hfs, hall⟩ := (headers.of_run _ _ hsecond).defined
  rw [afterFirstPass_defined hfirst, List.nil_append] at hfs
  exact hfs ▸ hall

/-! ### Slots and what they hold -/

private theorem forall_mem_congr {α β : Type} {R : α → β → Prop} {P : α → Prop} {Q : β → Prop}
    {l : List α} {l' : List β} (h : List.Forall₂ R l l') (hR : ∀ a b, R a b → (P a ↔ Q b)) :
    (∀ a ∈ l, P a) ↔ ∀ b ∈ l', Q b := by
  induction h with
  | nil => simp
  | cons h _ ih => rw [List.forall_mem_cons, List.forall_mem_cons, hR _ _ h, ih]

/-- Every method that a vtable holds has the type of its slot exactly when each is declared
without parameters and with a result that is printed as `void`. -/
theorem slots_typed_iff {p : Program} (h : translate gen p = .ok s) :
    SlotsTyped (afterFirstPass gen p) s.defined ↔
      ∀ d ∈ methodDeclsIn p.statements, Installed (afterFirstPass gen p) d.mangled →
        d.params = [] ∧ VoidResult (afterFirstPass gen p).typeSystem d := by
  rw [forall_mem_congr (translate_headers h) (Q := fun f ↦
    Installed (afterFirstPass gen p) f.name → signatureOf f = slotSignature)]
  · constructor
    · intro htyped f hf hinst
      exact htyped f.name hinst f hf rfl
    · rintro hdefined _ hinst f hf rfl
      exact hdefined f hf hinst
  · intro d f hheader
    rw [hheader.name, hheader.signature_iff]

private def typeA : Ident := ⟨"A".toList, isIdentifier_A⟩

private def methodGet : Ident := ⟨"get".toList, by decide +kernel⟩

private def paramX : Ident := ⟨"x".toList, isIdentifier_x⟩

/-- `class A { virtual void get() {} }` -/
def plainVirtual : Program where
  directives := []
  statements := [.classDecl typeA none [.method true .void methodGet [] []]]

/-- `class A { virtual int get(int x) { return x; } }` -/
def typedVirtual : Program where
  directives := []
  statements := [.classDecl typeA none [.method true .int methodGet [.plain .int paramX]
    [.returnStmt (some (.ident paramX))]]]

/-- The method without result and parameters fits its slot. -/
theorem slots_typed_iff_plainVirtual : ∃ s, translate ⟨true⟩ plainVirtual = .ok s ∧
    Installed (afterFirstPass ⟨true⟩ plainVirtual) "A_get" ∧
    SlotsTyped (afterFirstPass ⟨true⟩ plainVirtual) s.defined := by
  obtain ⟨s, hs⟩ := translate_of_isOk ⟨true⟩ plainVirtual (by decide +kernel)
  have hentries : (afterFirstPass ⟨true⟩ plainVirtual).typeSystem.vtableEntries "A" =
      .ok [("get".toList, "A_get".toList)] := by
    decide +kernel
  refine ⟨s, hs, ⟨"A".toList, by decide +kernel, _, hentries, "get", by simp⟩, ?_⟩
  refine (slots_typed_iff hs).mpr fun d hd _ ↦ ?_
  obtain rfl : d = ⟨typeA.text, .void, methodGet, []⟩ := List.mem_singleton.mp hd
  exact ⟨rfl, { base := .void }, rfl, by decide +kernel⟩

/-- A slot without result and parameters holds a method with both. -/
theorem typedVirtual_slot_mismatch : ∃ s, translate ⟨true⟩ typedVirtual = .ok s ∧
    ¬ SlotsTyped (afterFirstPass ⟨true⟩ typedVirtual) s.defined := by
  obtain ⟨s, hs⟩ := translate_of_isOk ⟨true⟩ typedVirtual (by decide +kernel)
  have hdefined : (translate ⟨true⟩ typedVirtual).toOption.map
      (fun s ↦ s.defined.map fun f ↦ (f.name, signatureOf f)) =
        some [("A_get".toList, ⟨"int", ["int".toList]⟩)] := by
    decide +kernel
  have hentries : (afterFirstPass ⟨true⟩ typedVirtual).typeSystem.vtableEntries "A" =
      .ok [("get".toList, "A_get".toList)] := by
    decide +kernel
  rw [hs] at hdefined
  have hmap : s.defined.map (fun f ↦ (f.name, signatureOf f)) =
      [("A_get".toList, ⟨"int", ["int".toList]⟩)] := Option.some.inj hdefined
  refine ⟨s, hs, fun htyped ↦ ?_⟩
  obtain ⟨f, hf, hpair⟩ : ∃ f ∈ s.defined,
      (f.name, signatureOf f) = ("A_get".toList, ⟨"int", ["int".toList]⟩) := by
    rw [← List.mem_map, hmap]
    exact List.mem_singleton_self _
  obtain ⟨hname, hsig⟩ := Prod.mk.inj hpair
  have hslot := htyped "A_get" ⟨"A".toList, by decide +kernel, _, hentries, "get", by simp⟩ f hf hname
  rw [hsig] at hslot
  exact absurd hslot (by decide +kernel)

end JBLang.Classes
