import JBLang.Ast.Contributions
import JBLang.Ast.Scopes
import JBLang.Runtime.Collection
import JBLang.Runtime.Dispatch
import Mathlib.Logic.Encodable.Basic
import Mathlib.Logic.Equiv.List

/-!
# Roots of the collector in global storage

`main` registers the address of every global that had a pointer type in the first pass, and
`mark_phase` reads one word at each registered address. The words of a global are the scalars that
the C type of its declaration consists of.
-/

namespace JBLang.Ast

open JBLang.Base JBLang.Types JBLang.Codegen JBLang.Runtime

/-! ### Storage -/

/-- A scalar of a C object. -/
inductive Scalar where
  | pointer
  | data
deriving DecidableEq

/-- The number of elements of an array; an object that is no array is one element. -/
def elementCount (t : Ty) : Nat :=
  match t.array with
  | none => 1
  | some (_, sizes) => (sizes.map Int.toNat).prod

mutual

/-- The scalars of an object of a type, in the order of their addresses. -/
inductive Storage (ts : TypeSystem) : Ty → List Scalar → Prop
  | pointer {t : Ty} (h : t.isPointer = true) :
    Storage ts t (List.replicate (elementCount t) .pointer)
  | plain {t : Ty} (h : t.isPointer = false) (hs : t.isStruct = false) (hc : t.isClass = false) :
    Storage ts t (List.replicate (elementCount t) .data)
  | struct {t : Ty} {words : List Scalar} (h : t.isPointer = false) (hs : t.isStruct = true)
    (hm : MemberStorage ts (t.structMembers.map fun m ↦ .field m.1 m.2) words) :
    Storage ts t (List.replicate (elementCount t) words).flatten
  | object {t : Ty} {words : List Scalar} (h : t.isPointer = false) (hc : t.isClass = true)
    (hm : MemberStorage ts (classLayout ts t.structName t) words) :
    Storage ts t (List.replicate (elementCount t) words).flatten

/-- The scalars of the members of a struct, one member after the other. -/
inductive MemberStorage (ts : TypeSystem) : List LayoutMember → List Scalar → Prop
  | nil : MemberStorage ts [] []
  | field {name : Str} {type : Ty} {members : List LayoutMember} {words rest : List Scalar}
    (hw : Storage ts type words) (hr : MemberStorage ts members rest) :
    MemberStorage ts (.field name type :: members) (words ++ rest)
  | vtable {members : List LayoutMember} {rest : List Scalar} (hr : MemberStorage ts members rest) :
    MemberStorage ts (.vtable :: members) (.pointer :: rest)
  | parent {className : Str} {type : Ty} {members : List LayoutMember} {words rest : List Scalar}
    (hp : ts.classes[className]? = some type) (hw : Storage ts type words)
    (hr : MemberStorage ts members rest) :
    MemberStorage ts (.parent className :: members) (words ++ rest)

end

/-- Where the globals are: the address of each scalar of each of them. -/
structure Placement where
  address : Str → Nat → Nat
  injective : ∀ {x y : Str} {i j : Nat}, address x i = address y j → x = y ∧ i = j

instance : Inhabited Placement where
  default := {
    address := fun x i ↦ Encodable.encode (x.map Char.toNat, i)
    injective := fun {x y i j} h ↦ by
      have hpair := Encodable.encode_injective h
      simp only [Prod.mk.injEq] at hpair
      exact ⟨List.map_injective_iff.mpr (fun _ _ ↦ Char.toNat_inj.mp) hpair.1, hpair.2⟩ }

/-! ### Globals of a program -/

/-- The variable of a declaration, where its type is known. -/
def declaredIn (d : Declarator) (s : VState) : List (Str × Ty) :=
  match (declaratorType d).run s with
  | .ok (var, _) => [var]
  | .error _ => []

/-- The variables that a statement at top level declares outside of blocks, visited in state `s`:
those of declarations and, in the first pass, of bodies of `for` statements. -/
def globalsOf (gen : CCodeGenerator) : Stmt → VState → List (Str × Ty)
  | .varDecl d _, s => declaredIn d s
  | .forStmt init cond step body, s =>
    if s.firstPass then
      match (visitForHead gen init cond step >>= fun _ ↦ emit "\x7b\n").run s with
      | .ok (_, s') => globalsOf gen body s'
      | .error _ => []
    else []
  | _, _ => []

/-- The variables of a pass over the statements of a program that starts in state `s`. -/
def globalsIn (gen : CCodeGenerator) : List Stmt → VState → List (Str × Ty)
  | [], _ => []
  | stmt :: stmts, s => globalsOf gen stmt s ++
    match (visitStmt gen stmt >>= fun _ ↦ emit "\n").run s with
    | .ok (_, s') => globalsIn gen stmts s'
    | .error _ => []

/-- The globals as the first pass sees them. -/
def firstGlobals (gen : CCodeGenerator) (p : Program) : List (Str × Ty) :=
  match (openFirstPass p).run {} with
  | .ok (_, s) => globalsIn gen p.statements s
  | .error _ => []

/-- The globals as the second pass declares them in the output. -/
def emittedGlobals (gen : CCodeGenerator) (p : Program) : List (Str × Ty) :=
  match emitVTables.run (afterFirstPass gen p) with
  | .ok (_, s) => globalsIn gen p.statements { s with firstPass := false }
  | .error _ => []

/-- The addresses that `main` registers. -/
def registeredRoots (place : Placement) (s : VState) : List Nat :=
  s.symbolTable.globalVars.map fun var ↦ place.address var.1 0

/-- Every pointer among the scalars of the globals is at a registered address. -/
def RootsComplete (place : Placement) (ts : TypeSystem) (globals : List (Str × Ty))
    (roots : List Nat) : Prop :=
  ∀ var ∈ globals, ∀ words, Storage ts var.2 words → ∀ i, words[i]? = some .pointer →
    place.address var.1 i ∈ roots

/-- Once `main` has registered the roots, every collection keeps the blocks that globals
point to. -/
def GlobalsKept (place : Placement) (ts : TypeSystem) (globals : List (Str × Ty))
    (roots : List Nat) : Prop :=
  ∀ (frame : Nat) (start : MSState), roots.foldlM msRegisterRoot (msInit .boot frame) = .ok start →
    ∀ (c : Contents) (ms : MSState) (l : List Nat), ms.roots = start.roots → Listed ms l →
      Placed ms l → ∃ ms' l', collectGarbage c ms = .ok ms' ∧ Listed ms' l' ∧
        ∀ var ∈ globals, ∀ words, Storage ts var.2 words → ∀ i, words[i]? = some .pointer →
          ∀ b ∈ targets ms l (c.word (place.address var.1 i)), b ∈ l'

/-- One registered word is enough for a global: it holds no pointer behind its first scalar, and if
it holds one the first pass has seen a pointer of its name. -/
structure OneRoot (ts : TypeSystem) (first : List (Str × Ty)) (var : Str × Ty) : Prop where
  array : var.2.isPointer = true → elementCount var.2 ≤ 1
  struct : var.2.isPointer = false → ∀ words, Storage ts var.2 words → .pointer ∉ words.tail
  seen : (∃ words, Storage ts var.2 words ∧ .pointer ∈ words) →
    ∃ w ∈ first, w.1 = var.1 ∧ w.2.isPointer = true

/-! ### What the first pass remembers -/

/-- The pointers among variables. -/
def pointersIn (vars : List (Str × Ty)) : List (Str × Ty) := vars.filter fun var ↦ var.2.isPointer

theorem pointersIn_append (vars vars' : List (Str × Ty)) :
    pointersIn (vars ++ vars') = pointersIn vars ++ pointersIn vars' := List.filter_append ..

variable {gen : CCodeGenerator} {s s' : VState}

theorem addSymbol_globalVars {st st' : SymbolTable} {name : Str} {type : Ty}
    (h : st.addSymbol name type = .ok st') : st'.globalVars = st.globalVars := by
  unfold SymbolTable.addSymbol at h
  split at h
  · cases h
  · cases h
    rfl

private theorem scopes_ne_nil (hg : s.symbolTable.isGlobalScope = true) :
    s.symbolTable.scopes ≠ [] := by
  intro hnil
  simp [SymbolTable.isGlobalScope, hnil] at hg

/-- A statement without declarations outside of blocks adds no global. -/
private theorem globals_of_none {stmt : Stmt} (hs : s.firstPass = true)
    (hg : s.symbolTable.isGlobalScope = true) (hdecls : outerDecls true stmt = []) :
    Post (visitStmt gen stmt) s fun _ s' ↦
      s'.symbolTable.globalVars = s.symbolTable.globalVars := by
  refine ⟨fun _ s' hrun ↦ ?_⟩
  obtain ⟨vars, hvars, -, hglobals⟩ :=
    ((visitStmt_scopes stmt s (scopes_ne_nil hg)).of_run hrun).declared
  rw [hs, hdecls] at hvars
  cases hvars
  simpa [remembered, hs, hg] using hglobals

/-- The variable in the head of a loop is not remembered. -/
private theorem headDecls_globals {init : ForInit} (h : KeepsScopes (headDecls init) s s') :
    s'.symbolTable.globalVars = s.symbolTable.globalVars := by
  obtain ⟨vars, hvars, -, hglobals⟩ := h.declared
  have hnone : remembered vars = [] := by
    cases init with
    | varDecl d e =>
      cases hvars with
      | cons hv hrest =>
        cases hrest
        simp [remembered, hv.inLoopHead]
    | exprStmt | none =>
      cases hvars
      rfl
  rw [hglobals, hnone, ite_self, List.append_nil]

/-- What the first pass remembers are the pointers among the globals it sees. -/
theorem visitStmt_globals : ∀ (stmt : Stmt) (s : VState), s.firstPass = true →
    s.symbolTable.isGlobalScope = true →
    Post (visitStmt gen stmt) s fun _ s' ↦ s'.symbolTable.globalVars =
      s.symbolTable.globalVars ++ pointersIn (globalsOf gen stmt s)
  | .varDecl d init, s, hs, hg => by
    simp only [visitStmt, visitVarDecl, post_bind, post_indentLevel]
    apply (Post.run_eq.and (declaratorType_frame d)).mono
    rintro ⟨varName, varType⟩ s ⟨hrun, rfl⟩
    have hvars : globalsOf gen (.varDecl d init) s = [(varName, varType)] := by
      rw [globalsOf, declaredIn, hrun]
    rw [hvars]
    simp only [rememberGlobal, post_bind, post_get, hs, hg, Bool.true_and, Bool.and_true]
    -- The first pass adds the symbol right after it has remembered a pointer.
    have finish : ∀ s₁ : VState, s₁.firstPass = true → Post (secondPassOnly (declareVar gen
        s.symbolTable.getIndentLevel varName varType init)) s₁ fun _ s₂ ↦
          Post (addSymbol varName varType) s₂ fun _ s' ↦
            s'.symbolTable.globalVars = s₁.symbolTable.globalVars := by
      intro s₁ hs₁
      refine secondPassOnly_of_first hs₁ (post_addSymbol.mpr fun st hst ↦ ?_)
      exact addSymbol_globalVars hst
    cases hp : varType.isPointer with
    | true =>
      simp only [if_true, post_modifySymbols, pointersIn, List.filter_cons, hp, List.filter_nil]
      exact finish _ hs
    | false =>
      simp only [Bool.false_eq_true, if_false, post_pure, pointersIn, List.filter_cons, hp,
        List.filter_nil, List.append_nil]
      exact finish _ hs
  | .forStmt init cond step body, s, hs, hg => by
    simp only [visitStmt]
    refine firstPassOnly_of_first hs ?_
    simp only [post_bind, post_indentLevel, post_emit]
    refine ⟨fun _ s₁ hrun ↦ ?_⟩
    have hhead := (visits_visitForHead init cond step (scopes_ne_nil hg)).of_run hrun
    have hglobals := headDecls_globals hhead
    have hrun' : (visitForHead gen init cond step >>= fun _ ↦ emit "\x7b\n").run s =
        .ok ((), { s₁ with output := s₁.output ++ "\x7b\n" }) :=
      run_bind_eq_ok.mpr ⟨(), s₁, hrun, rfl⟩
    have hbody : globalsOf gen (.forStmt init cond step body) s =
        globalsOf gen body { s₁ with output := s₁.output ++ "\x7b\n" } := by
      rw [globalsOf, if_pos hs, hrun']
    rw [hbody]
    refine Post.mono (visitStmt_globals body _ ?_ ?_) ?_
    · exact hhead.firstPass.trans hs
    · exact hhead.isGlobalScope_eq.trans hg
    · intro _ s₂ h₂
      rw [h₂]
      exact congrArg (· ++ _) hglobals
  | .functionDecl .., s, hs, hg | .spawnStmt _, s, hs, hg | .returnStmt _, s, hs, hg
  | .exprStmt _, s, hs, hg | .block _, s, hs, hg | .structDecl _, s, hs, hg
  | .classDecl .., s, hs, hg | .typedefDecl .., s, hs, hg | .ifStmt _ _ none, s, hs, hg
  | .ifStmt _ _ (some _), s, hs, hg | .whileStmt .., s, hs, hg => by
    apply (globals_of_none hs hg (by simp only [outerDecls, if_true])).mono
    intro _ s' h
    rw [h]
    exact (List.append_nil _).symm

theorem visitTopLevel_globals (stmts : List Stmt) (hs : s.firstPass = true)
    (hg : s.symbolTable.isGlobalScope = true) :
    Post (visitTopLevel gen stmts) s fun _ s' ↦ s'.symbolTable.globalVars =
      s.symbolTable.globalVars ++ pointersIn (globalsIn gen stmts s) := by
  induction stmts generalizing s with
  | nil =>
    simp only [visitTopLevel, post_pure]
    exact (List.append_nil _).symm
  | cons stmt stmts ih =>
    simp only [visitTopLevel, post_bind, post_emit]
    refine ⟨fun _ s₁ hrun ↦ ?_⟩
    have h₁ := (visitStmt_globals stmt s hs hg).of_run _ _ hrun
    have hkeeps := (visitStmt_scopes stmt s (scopes_ne_nil hg)).of_run hrun
    have hrun' : (visitStmt gen stmt >>= fun _ ↦ emit "\n").run s =
        .ok ((), { s₁ with output := s₁.output ++ "\n" }) :=
      run_bind_eq_ok.mpr ⟨(), s₁, hrun, rfl⟩
    have hglobals : globalsIn gen (stmt :: stmts) s = globalsOf gen stmt s ++
        globalsIn gen stmts { s₁ with output := s₁.output ++ "\n" } := by
      rw [globalsIn, hrun']
    have hrest : Post (visitTopLevel gen stmts) { s₁ with output := s₁.output ++ "\n" } _ :=
      ih (hkeeps.firstPass.trans hs) (hkeeps.isGlobalScope_eq.trans hg)
    apply hrest.mono
    intro _ s₂ h₂
    rw [h₂, hglobals, pointersIn_append, ← List.append_assoc]
    exact congrArg (· ++ _) h₁

variable {p : Program} {place : Placement} {ts : TypeSystem}

/-- The first pass starts with an empty global scope. -/
theorem openFirstPass_symbolTable (h : (openFirstPass p).run {} = .ok ((), s)) :
    s.symbolTable = {} := by
  have hpost : Post (openFirstPass p) {} fun _ s ↦ s.symbolTable = {} := by
    simp only [openFirstPass, post_bind, post_emit, post_modify]
    apply (visitDirectives_frame p.directives).mono
    rintro _ _ ⟨text, defines, rfl⟩
    rfl
  exact hpost.of_run _ _ h

/-- A translation remembers the pointers among the globals of the first pass. -/
theorem translate_globalVars (h : translate gen p = .ok s) :
    s.symbolTable.globalVars = pointersIn (firstGlobals gen p) := by
  obtain ⟨hfirst, s₁, htables, hsecond⟩ := translate_eq_ok h
  obtain ⟨text, rfl⟩ := emitVTables_frame.of_run _ _ htables
  obtain ⟨s₀, hopen, hpass, hrun⟩ := firstPassProgram_run hfirst
  have hstart := openFirstPass_symbolTable hopen
  have hg : s₀.symbolTable.isGlobalScope = true := by rw [hstart]; rfl
  have hglobals := (visitTopLevel_globals p.statements hpass hg).of_run _ _ hrun
  have hkeeps := (visitTopLevel_scopes p.statements (scopes_ne_nil hg)).of_run hrun
  have hsame : Post (secondPassProgram gen p) { afterFirstPass gen p with
      output := (afterFirstPass gen p).output ++ text } fun _ s' ↦
        s'.symbolTable.globalVars = (afterFirstPass gen p).symbolTable.globalVars := by
    simp only [secondPassProgram, post_bind, post_modify, post_emit, post_get]
    refine ⟨fun _ s₂ hrun₂ ↦ ?_⟩
    have hne : (afterFirstPass gen p).symbolTable.scopes ≠ [] :=
      hkeeps.nonempty (scopes_ne_nil hg)
    have hkeeps₂ : KeepsScopes _ _ s₂ := (visitTopLevel_scopes p.statements (by exact hne)).of_run hrun₂
    obtain ⟨_, -, -, hglobals₂⟩ := hkeeps₂.declared
    simpa using hglobals₂
  rw [hsame.of_run _ _ hsecond, hglobals, hstart, firstGlobals, hopen]
  rfl

/-! ### Completeness -/

theorem mem_registeredRoots {x : Str} {i : Nat} : place.address x i ∈ registeredRoots place s ↔
      i = 0 ∧ ∃ var ∈ s.symbolTable.globalVars, var.1 = x := by
  rw [registeredRoots, List.mem_map]
  constructor
  · rintro ⟨var, hvar, heq⟩
    obtain ⟨hname, hi⟩ := place.injective heq
    exact ⟨hi.symm, var, hvar, hname⟩
  · rintro ⟨rfl, var, hvar, rfl⟩
    exact ⟨var, hvar, rfl⟩

/-- The storage of a pointer or of an array of pointers. -/
theorem Storage.eq_of_pointer {t : Ty} {words : List Scalar}
    (h : Storage ts t words) (hp : t.isPointer = true) :
    words = List.replicate (elementCount t) .pointer := by
  cases h with
  | pointer => rfl
  | plain h | struct h | object h => simp [hp] at h

/-- Registered roots leave no pointer of the globals out exactly if one word is enough for each. -/
theorem rootsComplete_iff {globals first : List (Str × Ty)}
    (hs : s.symbolTable.globalVars = pointersIn first) :
    RootsComplete place ts globals (registeredRoots place s) ↔
      ∀ var ∈ globals, OneRoot ts first var := by
  have hseen : ∀ x, (∃ var ∈ s.symbolTable.globalVars, var.1 = x) ↔
      ∃ w ∈ first, w.1 = x ∧ w.2.isPointer = true := by
    intro x
    simp only [hs, pointersIn, List.mem_filter]
    constructor
    · rintro ⟨w, ⟨hw, hp⟩, hx⟩
      exact ⟨w, hw, hx, hp⟩
    · rintro ⟨w, hw, hx, hp⟩
      exact ⟨w, ⟨hw, hp⟩, hx⟩
  simp only [RootsComplete, mem_registeredRoots, hseen]
  constructor
  · intro h var hvar
    refine ⟨fun hp ↦ ?_, fun _ words hwords hmem ↦ ?_, fun ⟨words, hwords, hmem⟩ ↦ ?_⟩
    · by_contra hcount
      have hword : (List.replicate (elementCount var.2) Scalar.pointer)[1]? = some .pointer := by
        rw [List.getElem?_replicate, if_pos (by omega)]
      have hzero := (h var hvar _ (.pointer hp) 1 hword).1
      omega
    · obtain ⟨i, hi⟩ := List.mem_iff_getElem?.mp hmem
      rw [List.getElem?_tail] at hi
      have hzero := (h var hvar words hwords (i + 1) hi).1
      omega
    · obtain ⟨i, hi⟩ := List.mem_iff_getElem?.mp hmem
      exact (h var hvar words hwords i hi).2
  · intro h var hvar words hwords i hi
    have hone := h var hvar
    refine ⟨?_, hone.seen ⟨words, hwords, List.mem_of_getElem? hi⟩⟩
    cases hp : var.2.isPointer with
    | true =>
      rw [hwords.eq_of_pointer hp, List.getElem?_replicate] at hi
      have hcount := hone.array hp
      split at hi
      · omega
      · cases hi
    | false =>
      cases i with
      | zero => rfl
      | succ i =>
        rw [← List.getElem?_tail] at hi
        exact absurd (List.mem_of_getElem? hi) (hone.struct hp words hwords)

/-- Registration keeps the addresses in order, unless it exits. -/
theorem msRegisterRoot_roots {ms ms' : MSState} (roots : List Nat)
    (h : roots.foldlM msRegisterRoot ms = .ok ms') : ms'.roots = ms.roots ++ roots := by
  induction roots generalizing ms with
  | nil =>
    cases h
    exact (List.append_nil _).symm
  | cons root roots ih =>
    rw [List.foldlM_cons] at h
    obtain ⟨ms₁, h₁, hrest⟩ := bind_eq_ok.mp h
    unfold msRegisterRoot at h₁
    split at h₁
    · cases h₁
    · cases h₁
      rw [ih hrest, List.append_assoc]
      rfl

theorem globalsKept_of_complete {globals : List (Str × Ty)}
    {roots : List Nat} (h : RootsComplete place ts globals roots) :
    GlobalsKept place ts globals roots := by
  intro frame start hstart c ms l hroots hlisted hplaced
  obtain ⟨ms', l', hrun, hlisted', hkeeps⟩ := collectGarbage_keeps c hlisted hplaced
  refine ⟨ms', l', hrun, hlisted', fun var hvar words hwords i hi b hb ↦ hkeeps b hb.1 ?_⟩
  have hregistered : start.roots = roots := msRegisterRoot_roots roots hstart
  refine ⟨_, List.mem_append_right _ (List.mem_map_of_mem ?_), b, hb, .refl⟩
  rw [hroots, hregistered]
  exact h var hvar words hwords i hi

/-- The roots that a translated program registers are complete exactly if no global needs more
than one, and complete roots keep every block that globals point to. -/
theorem global_roots_iff {p : Program} (h : translate gen p = .ok s) (place : Placement) :
    (RootsComplete place s.typeSystem (emittedGlobals gen p) (registeredRoots place s) ↔
      ∀ var ∈ emittedGlobals gen p, OneRoot s.typeSystem (firstGlobals gen p) var) ∧
    (RootsComplete place s.typeSystem (emittedGlobals gen p) (registeredRoots place s) →
      GlobalsKept place s.typeSystem (emittedGlobals gen p) (registeredRoots place s)) :=
  ⟨rootsComplete_iff (translate_globalVars h), globalsKept_of_complete⟩

private def globalG : Ident := ⟨"g".toList, isIdentifier_g⟩

/-- `int* g;` -/
def pointerGlobal : Program where
  directives := []
  statements := [.varDecl (.plain (.pointer .int) globalG) none]

/-- `int* g[2];` -/
def pointerArrayGlobal : Program where
  directives := []
  statements := [.varDecl (.array (.pointer .int) globalG [.integer ⟨"2".toList, by decide +kernel⟩])
    none]

/-- A global pointer is covered by its root. -/
theorem global_roots_iff_pointerGlobal : ∃ s, translate ⟨true⟩ pointerGlobal = .ok s ∧
    ∀ place, GlobalsKept place s.typeSystem [("g".toList, { base := .int, isPointer := true })]
      (registeredRoots place s) := by
  obtain ⟨s, hs⟩ := translate_of_isOk ⟨true⟩ pointerGlobal (by decide +kernel)
  refine ⟨s, hs, fun place ↦ ?_⟩
  have hemitted : emittedGlobals ⟨true⟩ pointerGlobal =
      [("g".toList, { base := .int, isPointer := true })] := by
    rfl
  have hfirst : firstGlobals ⟨true⟩ pointerGlobal =
      [("g".toList, { base := .int, isPointer := true })] := by
    rfl
  obtain ⟨hiff, hkept⟩ := global_roots_iff hs place
  rw [hemitted] at hiff hkept
  refine hkept (hiff.mpr fun var hvar ↦ ?_)
  rw [List.mem_singleton.mp hvar, hfirst]
  exact ⟨fun _ ↦ le_refl 1, nofun, fun _ ↦ ⟨_, List.mem_singleton_self _, rfl, rfl⟩⟩

/-- The second element of a global array of pointers is not read. -/
theorem pointerArrayGlobal_incomplete : ∃ s, translate ⟨true⟩ pointerArrayGlobal = .ok s ∧
    ∀ place, ¬ RootsComplete place s.typeSystem (emittedGlobals ⟨true⟩ pointerArrayGlobal)
      (registeredRoots place s) := by
  obtain ⟨s, hs⟩ := translate_of_isOk ⟨true⟩ pointerArrayGlobal (by decide +kernel)
  refine ⟨s, hs, fun place hcomplete ↦ ?_⟩
  have hemitted : emittedGlobals ⟨true⟩ pointerArrayGlobal =
      [("g".toList, { base := .int, isPointer := true, array := some ("g".toList, [2]) })] := by
    rfl
  have hword := hcomplete _ (by rw [hemitted]; exact List.mem_singleton_self _) _ (.pointer rfl) 1 rfl
  exact absurd (mem_registeredRoots.mp hword).1 Nat.one_ne_zero

/-! ### Runs of `main` -/

/-- The emitted `main` with the roots of these globals. -/
def mainText (globals : List (Str × Ty)) : Str :=
  "int main() \x7b\n    runtime_init();\n" ++
    ((globals.map fun var ↦ registerRootText var.1).flatten ++
      "    main_();\n    runtime_shutdown();\n\x7d\n")

theorem translate_main (h : translate gen p = .ok s) :
    ∃ before, s.output = before ++ mainText s.symbolTable.globalVars := by
  obtain ⟨-, s₁, -, hsecond⟩ := translate_eq_ok h
  have hmain : Post (secondPassProgram gen p) s₁ fun _ s' ↦
      ∃ before, s'.output = before ++ mainText s'.symbolTable.globalVars := by
    simp only [secondPassProgram, post_bind, post_modify, post_emit, post_get]
    refine ⟨fun _ s₂ _ ↦ ⟨s₂.output, ?_⟩⟩
    exact (List.append_assoc _ _ _).trans (List.append_assoc s₂.output _ _)
  exact hmain.of_run _ _ hsecond

/-- The emitted program ends with a `main` that registers the pointers among the globals. With the
mark-sweep allocator its run gives back all memory, whatever the program does between, unless the
pointers are more than `MAX_ROOTS`; then it exits. -/
theorem main_gives_back (h : translate gen p = .ok s) (place : Placement)
    {frame : Nat} {body : List RuntimeCall} (c : Contents)
    (hbody : BodyAllowed frame (registeredRoots place s) body) :
    (∃ before, s.output = before ++ mainText (pointersIn (firstGlobals gen p))) ∧
      (registeredRoots place s).length = (pointersIn (firstGlobals gen p)).length ∧
      MainEnds frame (registeredRoots place s) body c := by
  have hmain := translate_main h
  rw [translate_globalVars h] at hmain
  refine ⟨hmain, ?_, mainEnds _ _ _ c hbody⟩
  rw [registeredRoots, List.length_map, translate_globalVars h]

/-- A program with one global pointer allocates a block. -/
theorem main_gives_back_pointerGlobal : ∃ s, translate ⟨true⟩ pointerGlobal = .ok s ∧
    ∀ (place : Placement) (c : Contents),
      MainEnds 8008 (registeredRoots place s) [.alloc 8 (some 1000) c] c := by
  obtain ⟨s, hs⟩ := translate_of_isOk ⟨true⟩ pointerGlobal (by decide +kernel)
  refine ⟨s, hs, fun place c ↦ ?_⟩
  refine (main_gives_back hs place c ⟨by simp [RuntimeCall.isProgramCall], ?_⟩).2.2
  rw [registeredRoots, translate_globalVars hs]
  refine ⟨trivial, fun s' hs' ↦ ?_⟩
  cases hs'
  exact ⟨⟨List.not_mem_nil, by decide⟩, fun _ _ ↦ trivial⟩

end JBLang.Ast
