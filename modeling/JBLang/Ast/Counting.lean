import JBLang.Ast.Tables
import JBLang.Base.TwoRuns
import Mathlib.Data.List.Forall2

/-!
# With and without reference counting

Two translations of a program, one with `useRefCounts` and one without, run side by side. Their
texts differ in the texts of `generateIncRef` and `generateDecRef`, which stand in the output and,
behind a call, in the text of an expression. A visit looks expressions up as names and searches
them for `->`; an expression with counting text has an opening parenthesis before it, which no name
has, and counting text has no `-`.
-/

namespace JBLang.Ast

open JBLang.Base JBLang.Types JBLang.Codegen

/-! ### Texts -/

/-- The texts that count references. -/
def CountingText (text : Str) : Prop :=
  (∃ var other, text = (⟨true⟩ : CCodeGenerator).generateIncRef var other) ∨
    ∃ var, text = (⟨true⟩ : CCodeGenerator).generateDecRef var

/-- The second text is the first one with counting texts deleted. -/
inductive Erases : Str → Str → Prop
  | nil : Erases [] []
  | keep {c : Char} {t t' : Str} (h : Erases t t') : Erases (c :: t) (c :: t')
  | delete {text t t' : Str} (htext : CountingText text) (h : Erases t t') : Erases (text ++ t) t'

/-- The second text is the first one without counting texts, which stand behind blanks and, unless
`opened`, behind an opening parenthesis. -/
inductive Spliced : Bool → Str → Str → Prop
  | nil {opened : Bool} : Spliced opened [] []
  | char {opened : Bool} {c : Char} {t t' : Str} (h : Spliced (opened || c == '(') t t') :
    Spliced opened (c :: t) (c :: t')
  | counting {text t t' : Str} (htext : CountingText text) (hdash : '-' ∉ text)
    (h : Spliced true t t') : Spliced true (' ' :: (text ++ t)) (' ' :: t')

namespace Spliced

variable {opened opened' : Bool} {t t' u u' : Str}

theorem refl (opened : Bool) (t : Str) : Spliced opened t t := by
  induction t generalizing opened with
  | nil => exact .nil
  | cons c t ih => exact .char (ih _)

theorem mono (h : Spliced opened t t') (ho : opened = true → opened' = true) :
    Spliced opened' t t' := by
  induction h generalizing opened' with
  | nil => exact .nil
  | char _ ih =>
    refine .char (ih fun hor ↦ ?_)
    rw [Bool.or_eq_true] at hor ⊢
    exact hor.imp_left ho
  | counting htext hdash _ ih =>
    rw [ho rfl]
    exact .counting htext hdash (ih fun _ ↦ rfl)

theorem append (h : Spliced opened t t') (h' : Spliced opened u u') :
    Spliced opened (t ++ u) (t' ++ u') := by
  induction h with
  | nil => exact h'
  | char _ ih => exact .char (ih (h'.mono fun ho ↦ by rw [ho]; rfl))
  | counting htext hdash _ ih =>
    rw [List.cons_append, List.append_assoc]
    exact .counting htext hdash (ih h')

theorem append_right (h : Spliced opened t t') (u : Str) : Spliced opened (t ++ u) (t' ++ u) :=
  h.append (.refl opened u)

theorem append_left (h : Spliced opened t t') (u : Str) : Spliced opened (u ++ t) (u ++ t') :=
  (Spliced.refl opened u).append h

/-- Behind an opening parenthesis there may be counting text. -/
theorem append_opened (h : Spliced opened t t') (hparen : opened = true ∨ '(' ∈ t)
    (h' : Spliced true u u') : Spliced opened (t ++ u) (t' ++ u') := by
  induction h with
  | nil => exact h'.mono fun _ ↦ hparen.resolve_right (by simp)
  | @char opened c t t' _ ih =>
    refine .char (ih ?_)
    rw [List.mem_cons] at hparen
    rcases hparen with ho | rfl | hmem
    · exact .inl (by rw [ho]; rfl)
    · exact .inl (by simp)
    · exact .inr hmem
  | counting htext hdash _ ih =>
    rw [List.cons_append, List.append_assoc]
    exact .counting htext hdash (ih (.inl rfl))

theorem flatten {ts ts' : List Str} (h : List.Forall₂ (Spliced opened) ts ts') :
    Spliced opened ts.flatten ts'.flatten := by
  induction h with
  | nil => exact .nil
  | cons h _ ih => exact h.append ih

theorem joinWith {ts ts' : List Str} (h : List.Forall₂ (Spliced opened) ts ts') (sep : Str) :
    Spliced opened (Base.joinWith sep ts) (Base.joinWith sep ts') := by
  induction h with
  | nil => exact .nil
  | cons h hrest ih =>
    cases hrest with
    | nil => exact h
    | cons => exact (h.append_right sep).append ih

theorem functionCall {args args' : List Str} (h : List.Forall₂ (Spliced opened) args args')
    (name : Str) :
    Spliced opened (generateFunctionCall name args) (generateFunctionCall name args') :=
  ((joinWith h _).append_left _).append_right _

theorem erases (h : Spliced opened t t') : Erases t t' := by
  induction h with
  | nil => exact .nil
  | char _ ih => exact .keep ih
  | counting htext _ _ ih => exact .keep (.delete htext ih)

private theorem opened_or_eq (h : Spliced opened t t') :
    opened = true ∨ t = t' ∨ '(' ∈ t ∧ '(' ∈ t' := by
  induction h with
  | nil => exact .inr (.inl rfl)
  | @char opened c t t' _ ih =>
    by_cases hc : c = '('
    · exact .inr (.inr (by simp [hc]))
    · rcases ih with ho | rfl | ⟨hmem, hmem'⟩
      · exact .inl (by simpa [hc] using ho)
      · exact .inr (.inl rfl)
      · exact .inr (.inr ⟨List.mem_cons_of_mem _ hmem, List.mem_cons_of_mem _ hmem'⟩)
  | counting => exact .inl rfl

/-- Texts that differ have an opening parenthesis. -/
theorem eq_or_paren (h : Spliced false t t') : t = t' ∨ '(' ∈ t ∧ '(' ∈ t' :=
  h.opened_or_eq.resolve_left (by simp)

theorem head?_eq (h : Spliced opened t t') : t.head? = t'.head? := by
  cases h <;> rfl

end Spliced

/-- Texts with and without counting have their first arrow at the same place. -/
theorem Spliced.beforeFirst_arrow {opened : Bool} {t t' : Str} (h : Spliced opened t t') :
    Option.Rel (Spliced opened) (beforeFirst "->" t) (beforeFirst "->" t') := by
  induction h with
  | nil => exact .none
  | @char opened c t t' h ih =>
    have hhead : "->".toList.isPrefixOf (c :: t) = "->".toList.isPrefixOf (c :: t') := by
      have hlist : ∀ u : Str, ['>'].isPrefixOf u = (u.head? == some '>') := by
        intro u
        cases u with
        | nil => rfl
        | cons d u => simp [List.isPrefixOf, Bool.beq_comm]
      change (_ && ['>'].isPrefixOf t) = (_ && ['>'].isPrefixOf t')
      rw [hlist, hlist, h.head?_eq]
    rw [beforeFirst, beforeFirst, hhead]
    split
    · exact .some .nil
    · generalize beforeFirst "->".toList t = pre, beforeFirst "->".toList t' = pre' at ih ⊢
      cases ih with
      | none => exact .none
      | some hpre => exact .some (.char hpre)
  | @counting text t t' htext hdash h ih =>
    have hskip : beforeFirst "->".toList (text ++ t) = (beforeFirst "->".toList t).map (text ++ ·) :=
      beforeFirst_skip hdash _ t
    rw [beforeFirst, beforeFirst, if_neg (by simp [List.isPrefixOf]), if_neg (by simp [List.isPrefixOf]),
      hskip]
    generalize beforeFirst "->".toList t = pre, beforeFirst "->".toList t' = pre' at ih ⊢
    cases ih with
    | none => exact .none
    | some hpre => exact .some (.counting htext hdash hpre)

/-! ### Names -/

/-- A text without the characters of calls and arrows, as every name is. -/
structure PlainName (name : Str) : Prop where
  paren : '(' ∉ name
  dash : '-' ∉ name

theorem plainName_of_identifier {name : Str} (h : isIdentifier name = true) : PlainName name :=
  ⟨not_mem_identifier h (by decide) (by decide), not_mem_identifier h (by decide) (by decide)⟩

/-- A variable as `addSymbol` stores it. -/
structure PlainVar (var : Variable) : Prop where
  name : PlainName var.name
  field : var.fieldName = []

/-- The symbols and parameters in a symbol table have identifiers for names. -/
abbrev PlainTable (st : SymbolTable) : Prop := Traits.Symbols ⟨anything, anything, true⟩ st

variable {var : Variable} {other name : Str} {st st' : SymbolTable} {t t' : Str} {n : Nat}

theorem PlainVar.dash_generateIncRef (h : PlainVar var) (hother : PlainName other) :
    '-' ∉ (⟨true⟩ : CCodeGenerator).generateIncRef var other := by
  have hname := h.name.dash
  have hdash := hother.dash
  simp [CCodeGenerator.generateIncRef, hname, hdash]

theorem PlainVar.dash_generateDecRef (h : PlainVar var) :
    '-' ∉ (⟨true⟩ : CCodeGenerator).generateDecRef var := by
  have hname := h.name.dash
  have hfield : var.fieldName.isEmpty = true := by simp [h.field]
  simp [CCodeGenerator.generateDecRef, hname, hfield]

/-- What a lookup finds has a plain name, and so has what was looked up. -/
theorem PlainTable.plain (h : PlainTable st) (hlookup : st.lookupSymbol name = some var) :
    PlainName name ∧ PlainVar var := by
  obtain ⟨hparam, hvar⟩ := h.lookupSymbol hlookup
  rw [hvar]
  exact ⟨plainName_of_identifier hparam.name, plainName_of_identifier hparam.name, rfl⟩

/-- Counting text in a text does not change what the text is looked up as. -/
theorem PlainTable.lookupSymbol_spliced (h : PlainTable st) (ht : Spliced false t t') :
    st.lookupSymbol t = st.lookupSymbol t' := by
  rcases ht.eq_or_paren with rfl | ⟨hparen, hparen'⟩
  · rfl
  · have hnone : ∀ u : Str, '(' ∈ u → st.lookupSymbol u = none := by
      intro u hu
      by_contra hsome
      obtain ⟨var, hvar⟩ := Option.ne_none_iff_exists'.mp hsome
      exact (h.plain hvar).1.paren hu
    rw [hnone t hparen, hnone t' hparen']

/-! ### Two runs -/

/-- The states of the two runs differ in counting texts in the output only, at a depth of scopes. -/
inductive SameRun (n : Nat) : VState → VState → Prop
  | mk {s : VState} {output : Str} (houtput : Spliced true s.output output)
    (htable : PlainTable s.symbolTable) (hdepth : s.symbolTable.scopes.length = n + 1) :
    SameRun n s { s with output := output }

/-- The errors differ in counting texts in their messages only. -/
inductive SameError : VisitError → VisitError → Prop
  | same (e : VisitError) : SameError e e
  | message {type : ErrorType} {message message' : Str} (h : Erases message message') :
    SameError (.compiler type message) (.compiler type message')

/-- Two visits that stay in related states. -/
abbrev Both (n : Nat) {α β : Type} (m : VisitM α) (m' : VisitM β) (R : α → β → Prop) : Prop :=
  Related SameError (SameRun n) m m' R (SameRun n)

/-- Nothing is said about the results. -/
abbrev anyResult {α β : Type} : α → β → Prop := fun _ _ ↦ True

variable {α β : Type} {m m' : VisitM Unit}

theorem both_emit (h : Spliced true t t') : Both n (emit t) (emit t') anyResult := by
  refine .modify ?_
  rintro _ _ ⟨houtput, htable, hdepth⟩
  exact .mk (houtput.append h) htable hdepth

/-- A text that counting does not touch. -/
theorem both_emit_same (t : Str) : Both n (emit t) (emit t) anyResult := both_emit (.refl true t)

/-- A change that does not concern the output. -/
theorem both_modify {f : VState → VState}
    (hf : ∀ s output, f { s with output := output } = { f s with output := output })
    (houtput : ∀ s, (f s).output = s.output)
    (htable : ∀ s, PlainTable s.symbolTable → PlainTable (f s).symbolTable)
    (hdepth : ∀ s, (f s).symbolTable.scopes.length = s.symbolTable.scopes.length) :
    Both n (modify f) (modify f) anyResult := by
  refine .modify fun s s' hs ↦ ?_
  cases hs with
  | @mk output hspliced hplain hlength =>
    rw [hf s output]
    refine .mk ?_ (htable s hplain) ?_
    · rw [houtput]
      exact hspliced
    · rw [hdepth]
      exact hlength

theorem both_modifyTypes (f : TypeSystem → TypeSystem) :
    Both n (modifyTypes f) (modifyTypes f) anyResult :=
  both_modify (fun _ _ ↦ rfl) (fun _ ↦ rfl) (fun _ h ↦ h) fun _ ↦ rfl

theorem both_setAddRefCounts (b : Bool) :
    Both n (setAddRefCounts b) (setAddRefCounts b) anyResult :=
  both_modify (fun _ _ ↦ rfl) (fun _ ↦ rfl) (fun _ h ↦ h) fun _ ↦ rfl

theorem both_setCurrentFunc {f : Option Function}
    (hf : ∀ func, f = some func → ∀ p ∈ func.params, isIdentifier p.1 = true) :
    Both n (setCurrentFunc f) (setCurrentFunc f) anyResult :=
  both_modify (fun _ _ ↦ rfl) (fun _ ↦ rfl)
    (fun _ h ↦ ⟨h.scopes, fun func hfunc p hp ↦ ⟨hf func hfunc p hp, trivial⟩⟩) fun _ ↦ rfl

/-- A part of the state other than the output. -/
theorem both_ask {f : VState → α} (hf : ∀ s output, f { s with output := output } = f s) :
    Both n (do return f (← get)) (do return f (← get)) Eq := by
  refine Related.get.bind ?_
  rintro _ _ ⟨houtput, htable, hdepth⟩
  exact .pure (hf _ _).symm

theorem both_inFirstPass : Both n inFirstPass inFirstPass Eq := both_ask fun _ _ ↦ rfl

/-- Indentation is never empty. -/
def Indentation (indent : Str) : Prop := ∃ k, indent = blanks k ++ [' ']

theorem both_indentLevel : Both n indentLevel indentLevel fun a b ↦ a = b ∧ Indentation a := by
  refine Related.get.bind ?_
  rintro s _ ⟨houtput, htable, hdepth⟩
  refine .pure ⟨rfl, n * 4 + 3, ?_⟩
  change blanks (s.symbolTable.scopes.length * 4) = _
  rw [hdepth, blanks, blanks, show (n + 1) * 4 = n * 4 + 3 + 1 by omega, List.replicate_succ']

/-- A text that is looked up is found in both runs, and then it is the same in both. -/
theorem both_lookupSymbol (ht : Spliced false t t') :
    Both n (lookupSymbol t) (lookupSymbol t') fun a b ↦ a = b ∧
      ∀ var, a = some var → PlainVar var ∧ t = t' := by
  refine Related.get.bind ?_
  rintro s _ ⟨houtput, htable, hdepth⟩
  refine .pure ⟨htable.lookupSymbol_spliced ht, fun var hvar ↦ ?_⟩
  obtain ⟨hname, hplain⟩ := htable.plain hvar
  exact ⟨hplain, ht.eq_or_paren.resolve_right fun hparen ↦ hname.paren hparen.1⟩

theorem both_firstPassOnly (h : Both n m m' anyResult) :
    Both n (firstPassOnly m) (firstPassOnly m') anyResult := by
  refine both_inFirstPass.bind ?_
  rintro first _ rfl
  cases first with
  | false => exact .pure trivial
  | true => exact h

theorem both_secondPassOnly (h : Both n m m' anyResult) :
    Both n (secondPassOnly m) (secondPassOnly m') anyResult := by
  refine both_inFirstPass.bind ?_
  rintro first _ rfl
  cases first with
  | false => exact h
  | true => exact .pure trivial

/-- In the first pass the visit of an expression gives no text. -/
theorem both_unlessFirst {m m' : VisitM Str} (h : Both n m m' (Spliced false)) :
    Both n (inFirstPass >>= fun first ↦ if first then pure "".toList else m)
      (inFirstPass >>= fun first ↦ if first then pure "".toList else m') (Spliced false) := by
  refine both_inFirstPass.bind ?_
  rintro first _ rfl
  cases first with
  | false => exact h
  | true => exact .pure .nil

theorem both_askTypes (f : TypeSystem → Except VisitError α) :
    Both n (askTypes f) (askTypes f) Eq := by
  refine Related.get.bind ?_
  rintro s _ ⟨houtput, htable, hdepth⟩
  exact (Related.lift .same).mono fun a b h ↦ h.1

theorem both_updateTypes (f : TypeSystem → Except VisitError (TypeSystem × Ty)) :
    Both n (updateTypes f) (updateTypes f) Eq := by
  refine Related.get.bind ?_
  rintro s _ ⟨houtput, htable, hdepth⟩
  refine (Related.lift .same).bind ?_
  rintro ⟨ts, type⟩ _ ⟨rfl, -⟩
  refine Related.bind (Related.set (T := SameRun n) (.mk houtput htable hdepth)) fun _ _ _ ↦ ?_
  exact .pure rfl

theorem both_addSymbol {type : Ty} (hname : isIdentifier name = true) :
    Both n (addSymbol name type) (addSymbol name type) anyResult := by
  refine Related.get.bind ?_
  rintro s _ ⟨houtput, htable, hdepth⟩
  refine (Related.lift .same).bind ?_
  rintro st _ ⟨rfl, hst⟩
  refine .set (.mk houtput (htable.addSymbol ⟨hname, trivial⟩ hst) ?_)
  unfold SymbolTable.addSymbol at hst
  split at hst
  · cases hst
  · next hscopes =>
    cases hst
    rw [hscopes] at hdepth
    exact hdepth

/-! ### Parts of visits -/

/-- Counting text behind indentation. -/
theorem Indentation.spliced {indent text : Str} (h : Indentation indent) (htext : CountingText text)
    (hdash : '-' ∉ text) : Spliced true (indent ++ text) indent := by
  obtain ⟨k, rfl⟩ := h
  rw [List.append_assoc]
  have hcounting := Spliced.counting htext hdash .nil
  rw [List.append_nil] at hcounting
  exact hcounting.append_left (blanks k)

theorem PlainVar.spliced_inc {indent : Str} (hvar : PlainVar var) (hother : PlainName other)
    (hindent : Indentation indent) :
    Spliced true (indent ++ (⟨true⟩ : CCodeGenerator).generateIncRef var other)
      (indent ++ (⟨false⟩ : CCodeGenerator).generateIncRef var other) := by
  have hnone : (⟨false⟩ : CCodeGenerator).generateIncRef var other = [] := rfl
  rw [hnone, List.append_nil]
  exact hindent.spliced (.inl ⟨var, other, rfl⟩) (hvar.dash_generateIncRef hother)

theorem PlainVar.spliced_dec {indent : Str} (hvar : PlainVar var) (hindent : Indentation indent) :
    Spliced true (indent ++ (⟨true⟩ : CCodeGenerator).generateDecRef var)
      (indent ++ (⟨false⟩ : CCodeGenerator).generateDecRef var) := by
  have hnone : (⟨false⟩ : CCodeGenerator).generateDecRef var = [] := rfl
  rw [hnone, List.append_nil]
  exact hindent.spliced (.inr ⟨var, rfl⟩) hvar.dash_generateDecRef

theorem plainName_null : PlainName "NULL" := ⟨by decide, by decide⟩

theorem pointerVar_eq_some {v : Option Variable} (h : pointerVar v = some var) : v = some var :=
  (Option.filter_eq_some_iff.mp h).1

variable {indent : Str} {v : Option Variable}

theorem both_emitIncRef (hindent : Indentation indent) (hv : ∀ var, v = some var → PlainVar var)
    (hother : PlainName other) :
    Both n (emitIncRef ⟨true⟩ indent v other) (emitIncRef ⟨false⟩ indent v other) anyResult := by
  unfold emitIncRef
  cases hp : pointerVar v with
  | none => exact .pure trivial
  | some var => exact both_emit ((hv var (pointerVar_eq_some hp)).spliced_inc hother hindent)

theorem both_emitDecRef (hindent : Indentation indent) (hv : ∀ var, v = some var → PlainVar var) :
    Both n (emitDecRef ⟨true⟩ indent v) (emitDecRef ⟨false⟩ indent v) anyResult := by
  unfold emitDecRef
  cases hp : pointerVar v with
  | none => exact .pure trivial
  | some var => exact both_emit ((hv var (pointerVar_eq_some hp)).spliced_dec hindent)

theorem both_initializerLines (hindent : Indentation indent) (is : List Initializer) :
    Both n (initializerLines ⟨true⟩ indent is) (initializerLines ⟨false⟩ indent is) Eq := by
  induction is with
  | nil => exact .pure rfl
  | cons i is ih =>
    obtain ⟨field, value⟩ := i
    refine (both_lookupSymbol (.refl false _)).bind ?_
    rintro v _ ⟨rfl, hv⟩
    refine (both_emitIncRef hindent (fun var h ↦ (hv var h).1) plainName_null).bind fun _ _ _ ↦ ?_
    refine ih.bind ?_
    rintro code _ rfl
    exact .pure rfl

theorem both_visitInitializerList (is : List Initializer) :
    Both n (visitInitializerList ⟨true⟩ is) (visitInitializerList ⟨false⟩ is) Eq := by
  refine both_inFirstPass.bind ?_
  rintro first _ rfl
  cases first with
  | true => exact .pure rfl
  | false =>
    refine both_indentLevel.bind ?_
    rintro indent _ ⟨rfl, hindent⟩
    exact both_initializerLines hindent is

/-- A member access on a text that is a name in one run is the same in both, and on another text
it only appends. -/
theorem spliced_memberAccess {s : VState} {output base base' : Str} (memberName : Str)
    (htable : PlainTable s.symbolTable) (h : Spliced false base base') :
    Spliced false (memberAccess s base memberName)
      (memberAccess { s with output := output } base' memberName) := by
  rcases h.eq_or_paren with rfl | ⟨hparen, hparen'⟩
  · exact .refl false _
  · have hthis : ∀ (s : VState) (u : Str), '(' ∈ u → thisFieldAccess s u memberName = none := by
      intro s u hu
      have hne : u ≠ "this" := by
        rintro rfl
        simp at hu
      rw [thisFieldAccess, if_neg hne]
      rfl
    have hobject : ∀ (s : VState) (u : Str), PlainTable s.symbolTable → '(' ∈ u →
        objectMemberAccess s u memberName = none := by
      intro s u hplain hu
      have hnone : s.symbolTable.lookupSymbol u = none := by
        by_contra hsome
        obtain ⟨var, hvar⟩ := Option.ne_none_iff_exists'.mp hsome
        exact (hplain.plain hvar).1.paren hu
      rw [objectMemberAccess, hnone]
      rfl
    unfold memberAccess
    rw [hthis s base hparen, hthis _ base' hparen', hobject s base htable hparen,
      hobject { s with output := output } base' htable hparen']
    exact (h.append_right _).append_right _

theorem both_castTo (ht : Spliced false t t') (v : Option Variable) (type : Ty) :
    Both n (castTo t v type) (castTo t' v type) (Spliced false) := by
  cases v with
  | none => exact .pure ht
  | some var =>
    refine (both_askTypes _).bind ?_
    rintro compatible _ rfl
    cases compatible with
    | false => exact .pure ht
    | true =>
      refine .pure ?_
      unfold generateCast
      split
      · split
        · exact ht
        · exact (ht.append_left _).append_right _
      · exact ht

variable {left left' right right' : Str}

theorem both_castAssigned (hleft : Spliced false left left') (hright : Spliced false right right') :
    Both n (castAssigned left right) (castAssigned left' right') (Spliced false) := by
  refine (both_lookupSymbol hleft).bind ?_
  rintro v _ ⟨rfl, -⟩
  cases v with
  | none => exact .pure hright
  | some leftVar =>
    refine (both_lookupSymbol hright).bind ?_
    rintro w _ ⟨rfl, -⟩
    exact both_castTo hright w leftVar.type

theorem both_retainAssigned (hleft : Spliced false left left')
    (hright : Spliced false right right') :
    Both n (retainAssigned ⟨true⟩ left right) (retainAssigned ⟨false⟩ left' right') anyResult := by
  refine (both_lookupSymbol hright).bind ?_
  rintro v _ ⟨rfl, hv⟩
  cases hp : pointerVar v with
  | none => exact .pure trivial
  | some assignedFrom =>
    have hfrom := (hv _ (pointerVar_eq_some hp)).1
    have hinc : ∀ {other : Str}, PlainName other → Both n
        (do emit ((← indentLevel) ++ (⟨true⟩ : CCodeGenerator).generateIncRef assignedFrom other))
        (do emit ((← indentLevel) ++ (⟨false⟩ : CCodeGenerator).generateIncRef assignedFrom other))
        anyResult := by
      intro other hother
      refine both_indentLevel.bind ?_
      rintro indent _ ⟨rfl, hindent⟩
      exact both_emit (hfrom.spliced_inc hother hindent)
    have harrow := hleft.beforeFirst_arrow
    simp only
    generalize beforeFirst "->".toList left = pre, beforeFirst "->".toList left' = pre' at harrow ⊢
    cases harrow with
    | none => exact hinc plainName_null
    | some hpre =>
      refine (both_lookupSymbol hpre).bind ?_
      rintro w _ ⟨rfl, hw⟩
      cases hq : pointerVar w with
      | none => exact .pure trivial
      | some assignedTo => exact hinc (hw _ (pointerVar_eq_some hq)).1.name

theorem both_assignCode (hleft : Spliced false left left') (hright : Spliced false right right') :
    Both n (assignCode ⟨true⟩ left right) (assignCode ⟨false⟩ left' right') (Spliced false) := by
  refine (both_castAssigned hleft hright).bind fun right right' hright ↦ ?_
  refine (both_retainAssigned hleft hright).bind fun _ _ _ ↦ ?_
  refine both_indentLevel.bind ?_
  rintro indent _ ⟨rfl, hindent⟩
  refine (both_lookupSymbol hleft).bind ?_
  rintro v _ ⟨rfl, hv⟩
  refine (both_emitDecRef hindent fun var h ↦ (hv var h).1).bind fun _ _ _ ↦ ?_
  exact .pure ((hleft.append_right _).append hright)

theorem both_countArg (hindent : Indentation indent) (ht : Spliced false t t') :
    Both n (countArg ⟨true⟩ indent t) (countArg ⟨false⟩ indent t') Eq := by
  refine (both_lookupSymbol ht).bind ?_
  rintro v _ ⟨rfl, hv⟩
  cases hp : pointerVar v with
  | none => exact .pure rfl
  | some assignedFrom =>
    refine Related.get.bind ?_
    rintro s _ ⟨houtput, htable, hdepth⟩
    simp only
    split
    · have hfrom := (hv _ (pointerVar_eq_some hp)).1
      refine (both_emit (hfrom.spliced_inc plainName_null hindent)).bind fun _ _ _ ↦ ?_
      exact .pure rfl
    · exact .pure rfl

theorem both_releaseText (hindent : Indentation indent) (ht : Spliced false t t') :
    Both n (releaseText ⟨true⟩ indent t) (releaseText ⟨false⟩ indent t') (Spliced true) := by
  refine (both_lookupSymbol ht).bind ?_
  rintro v _ ⟨rfl, hv⟩
  cases hp : pointerVar v with
  | none => exact .pure .nil
  | some assignedFrom => exact .pure ((hv _ (pointerVar_eq_some hp)).1.spliced_dec hindent)

theorem both_whenCounting {m m' : VisitM Str} (h : Both n m m' (Spliced true)) :
    Both n (whenCounting m) (whenCounting m') (Spliced true) := by
  refine Related.get.bind ?_
  rintro s _ ⟨houtput, htable, hdepth⟩
  simp only
  split
  · exact h
  · exact .pure .nil

/-- The receiver of a call is a name, or the error shows its text. -/
theorem both_receiverClass (ht : Spliced false t t') :
    Both n (receiverClass t) (receiverClass t') fun a b ↦ a = b ∧ t = t' := by
  refine (both_lookupSymbol ht).bind ?_
  rintro v _ ⟨rfl, hv⟩
  cases v with
  | none => exact .throw (.message (ht.append_left _).erases)
  | some objVar =>
    simp only
    split
    · exact .pure ⟨rfl, (hv _ rfl).2⟩
    · exact .throw (.same _)

theorem both_methodCallCode (objExpr methodName className currentClass : Str) (method : Function)
    {args args' : List Str} (hargs : List.Forall₂ (Spliced false) args args') :
    Both n (methodCallCode objExpr methodName className currentClass method args)
      (methodCallCode objExpr methodName className currentClass method args') (Spliced false) := by
  unfold methodCallCode
  split
  · refine (both_askTypes _).bind ?_
    rintro classType _ rfl
    refine .pure (Spliced.append_right (Spliced.append_left (.flatten ?_) _) _)
    rw [List.forall₂_map_left_iff, List.forall₂_map_right_iff]
    exact hargs.imp fun _ _ h ↦ h.append_left _
  · exact .pure (.functionCall (.cons (.refl false _) hargs) _)

theorem both_freshTemp : Both n freshTemp freshTemp Eq := by
  refine Related.get.bind ?_
  rintro s _ ⟨houtput, htable, hdepth⟩
  refine Related.bind (both_modify (fun _ _ ↦ rfl) (fun _ ↦ rfl) (fun _ h ↦ h) fun _ ↦ rfl)
    fun _ _ _ ↦ ?_
  exact .pure rfl

theorem both_resolveTypeFromContext (type : TypeSpec) :
    Both n (resolveTypeFromContext type) (resolveTypeFromContext type) Eq := both_askTypes _

/-! ### Expressions -/

mutual

/-- The texts of an expression in the two runs. -/
theorem both_visitExpr : ∀ e : Expr,
    Both n (visitExpr ⟨true⟩ e) (visitExpr ⟨false⟩ e) (Spliced false)
  | .paren e => by
    unfold visitExpr
    refine (both_visitExpr e).bind fun code code' hcode ↦ ?_
    exact .pure ((hcode.append_left _).append_right _)
  | .ident _ | .primaryLiteral _ | .literal _ => by
    unfold visitExpr
    exact .pure (.refl false _)
  | .member e _ | .postIncrement e | .postDecrement e => by
    unfold visitExpr
    refine (both_visitExpr e).bind fun code code' hcode ↦ ?_
    first | exact .pure ((hcode.append_right _).append_right _) | exact .pure (hcode.append_right _)
  | .addressOf e | .dereference e | .preIncrement e | .preDecrement e => by
    unfold visitExpr
    refine (both_visitExpr e).bind fun code code' hcode ↦ ?_
    exact .pure (hcode.append_left _)
  | .funcCall name args => by
    unfold visitExpr
    refine both_unlessFirst (both_indentLevel.bind ?_)
    rintro indent _ ⟨rfl, hindent⟩
    refine (both_visitCallArgs hindent args).bind ?_
    rintro ⟨args₁, counted⟩ ⟨args₂, _⟩ ⟨hargs, rfl⟩
    refine (both_whenCounting (both_visitReleasedArgs hindent args)).bind fun _ _ hreleases ↦ ?_
    -- The releases stand behind the call and its parenthesis.
    have hcall := (Spliced.functionCall hargs name.text).append_left indent
    refine .pure ((hcall.append_right _).append_opened (.inr ?_) hreleases)
    simp [generateFunctionCall]
  | .mulDiv left _ right | .addSub left _ right | .compare left _ right => by
    unfold visitExpr
    refine (both_visitExpr left).bind fun code code' hcode ↦ ?_
    refine (both_visitExpr right).bind fun code₂ code₂' hcode₂ ↦ ?_
    exact .pure ((((hcode.append_right _).append_right _).append_right _).append hcode₂)
  | .assign left right => by
    unfold visitExpr
    refine both_unlessFirst ((both_visitExpr left).bind fun code code' hcode ↦ ?_)
    refine (both_visitExpr right).bind fun code₂ code₂' hcode₂ ↦ ?_
    exact both_assignCode hcode hcode₂
  | .var _ => by
    unfold visitExpr
    exact .throw (.same _)
  | .new type => by
    unfold visitExpr
    refine (both_resolveTypeFromContext type).bind ?_
    rintro type _ rfl
    exact .pure (.refl false _)
  | .newWithConstructor name args => by
    unfold visitExpr
    refine both_unlessFirst (Related.get.bind ?_)
    rintro s _ ⟨houtput, htable, hdepth⟩
    simp only
    split
    · exact .throw (.same _)
    · refine both_freshTemp.bind ?_
      rintro tempVar _ rfl
      refine both_indentLevel.bind ?_
      rintro indent _ ⟨rfl, -⟩
      refine (both_askTypes _).bind ?_
      rintro classType _ rfl
      refine (both_emit_same _).bind fun _ _ _ ↦ ?_
      refine (both_visitArgs args).bind fun args₁ args₂ hargs ↦ ?_
      refine (both_emit ?_).bind fun _ _ _ ↦ .pure (.refl false _)
      have hcall := Spliced.functionCall (.cons (.refl false tempVar) hargs)
      exact (((hcall _).append_left indent).append_right _).mono (by simp)
  | .pointerMember e name => by
    unfold visitExpr
    refine both_unlessFirst ((both_visitExpr e).bind fun base base' hbase ↦ ?_)
    refine Related.get.bind ?_
    rintro s _ ⟨houtput, htable, hdepth⟩
    exact .pure (spliced_memberAccess name.text htable hbase)
  | .arrayAccess array index => by
    unfold visitExpr
    refine (both_visitExpr array).bind fun code code' hcode ↦ ?_
    refine (both_visitExpr index).bind fun code₂ code₂' hcode₂ ↦ ?_
    exact .pure (((hcode.append_right _).append hcode₂).append_right _)
  | .methodCall e name args => by
    unfold visitExpr
    refine both_unlessFirst ((both_visitExpr e).bind fun objExpr objExpr' hobj ↦ ?_)
    refine (both_receiverClass hobj).bind ?_
    rintro className _ ⟨rfl, rfl⟩
    refine (both_askTypes _).bind ?_
    rintro ⟨currentClass, method⟩ _ rfl
    refine (both_visitArgs args).bind fun args₁ args₂ hargs ↦ ?_
    exact both_methodCallCode _ _ _ _ _ hargs
  | .structInit inits _ => by
    unfold visitExpr
    split
    · exact .throw (.same _)
    · refine (both_visitInitializerList inits).bind ?_
      rintro code _ rfl
      refine both_indentLevel.bind ?_
      rintro indent _ ⟨rfl, -⟩
      exact .pure (.refl false _)

theorem both_visitArgs : ∀ es : List Expr,
    Both n (visitArgs ⟨true⟩ es) (visitArgs ⟨false⟩ es) (List.Forall₂ (Spliced false))
  | [] => by
    unfold visitArgs
    exact .pure .nil
  | e :: es => by
    unfold visitArgs
    refine (both_visitExpr e).bind fun arg arg' harg ↦ ?_
    refine (both_visitArgs es).bind fun args args' hargs ↦ ?_
    exact .pure (.cons harg hargs)

theorem both_visitCallArgs {indent : Str} (hindent : Indentation indent) : ∀ es : List Expr,
    Both n (visitCallArgs ⟨true⟩ indent es) (visitCallArgs ⟨false⟩ indent es)
      fun a b ↦ List.Forall₂ (Spliced false) a.1 b.1 ∧ a.2 = b.2
  | [] => by
    unfold visitCallArgs
    exact .pure ⟨.nil, rfl⟩
  | e :: es => by
    unfold visitCallArgs
    refine (both_visitExpr e).bind fun arg arg' harg ↦ ?_
    refine (both_countArg hindent harg).bind ?_
    rintro counted _ rfl
    refine (both_visitCallArgs hindent es).bind ?_
    rintro ⟨args, pointerArgs⟩ ⟨args', _⟩ ⟨hargs, rfl⟩
    exact .pure ⟨.cons harg hargs, rfl⟩

theorem both_visitReleasedArgs {indent : Str} (hindent : Indentation indent) : ∀ es : List Expr,
    Both n (visitReleasedArgs ⟨true⟩ indent es) (visitReleasedArgs ⟨false⟩ indent es) (Spliced true)
  | [] => by
    unfold visitReleasedArgs
    exact .pure .nil
  | e :: es => by
    unfold visitReleasedArgs
    refine (both_visitExpr e).bind fun arg arg' harg ↦ ?_
    refine (both_releaseText hindent harg).bind fun release release' hrelease ↦ ?_
    refine (both_visitReleasedArgs hindent es).bind fun releases releases' hreleases ↦ ?_
    exact .pure (hrelease.append hreleases)

end

/-! ### Declarations and types -/

theorem both_declaratorType (d : Declarator) :
    Both n (declaratorType d) (declaratorType d) fun a b ↦ a = b ∧ isIdentifier a.1 = true := by
  cases d with
  | plain type name =>
    refine (both_resolveTypeFromContext type).bind ?_
    rintro type _ rfl
    exact .pure ⟨rfl, name.valid⟩
  | array type name sizes =>
    refine (both_resolveTypeFromContext type).bind ?_
    rintro type _ rfl
    refine (both_askTypes _).bind ?_
    rintro sizes _ rfl
    exact .pure ⟨rfl, name.valid⟩

theorem both_declaratorTypes (ds : List Declarator) :
    Both n (declaratorTypes ds) (declaratorTypes ds)
      fun a b ↦ a = b ∧ ∀ p ∈ a, isIdentifier p.1 = true := by
  induction ds with
  | nil => exact .pure ⟨rfl, by simp⟩
  | cons d ds ih =>
    refine (both_declaratorType d).bind ?_
    rintro p _ ⟨rfl, hp⟩
    refine ih.bind ?_
    rintro ps _ ⟨rfl, hps⟩
    refine .pure ⟨rfl, fun q hq ↦ ?_⟩
    rcases List.mem_cons.mp hq with rfl | hq
    · exact hp
    · exact hps q hq

theorem both_memberParams (classType : Ty) (ds : List Declarator) :
    Both n (memberParams classType ds) (memberParams classType ds)
      fun a b ↦ a = b ∧ ∀ p ∈ a, isIdentifier p.1 = true := by
  refine (both_declaratorTypes ds).bind ?_
  rintro ps _ ⟨rfl, hps⟩
  refine .pure ⟨rfl, fun q hq ↦ ?_⟩
  rcases List.mem_cons.mp hq with rfl | hq
  · rfl
  · exact hps q hq

theorem both_getStructFromCode (d : StructDecl) :
    Both n (getStructFromCode d) (getStructFromCode d) Eq := by
  refine (both_firstPassOnly (both_modifyTypes _)).bind fun _ _ _ ↦ ?_
  refine (both_declaratorTypes _).bind ?_
  rintro members _ ⟨rfl, -⟩
  exact both_updateTypes _

theorem both_getClassFromCode (name : Ident) (parent : Option Ident) (members : List ClassMember) :
    Both n (getClassFromCode name parent members) (getClassFromCode name parent members) Eq := by
  have hparent : Both n (setParent name parent) (setParent name parent) anyResult := by
    cases parent with
    | none => exact .pure trivial
    | some parent =>
      refine (both_askTypes _).bind ?_
      rintro ts _ rfl
      exact both_modifyTypes _
  refine (both_firstPassOnly (both_modifyTypes _)).bind fun _ _ _ ↦ ?_
  refine hparent.bind fun _ _ _ ↦ (both_declaratorTypes _).bind ?_
  rintro fields _ ⟨rfl, -⟩
  exact both_updateTypes _

theorem both_declareVar (hindent : Indentation indent) (varName : Str) (varType : Ty)
    (init : Option Expr) :
    Both n (declareVar ⟨true⟩ indent varName varType init)
      (declareVar ⟨false⟩ indent varName varType init) anyResult := by
  cases init with
  | none => exact both_emit_same _
  | some e =>
    refine (both_visitExpr e).bind fun code code' hcode ↦ ?_
    refine (both_lookupSymbol hcode).bind ?_
    rintro v _ ⟨rfl, -⟩
    refine (both_castTo hcode v varType).bind fun init init' hinit ↦ ?_
    refine (both_lookupSymbol hinit).bind ?_
    rintro w _ ⟨rfl, hw⟩
    refine (both_emitIncRef hindent (fun var h ↦ (hw var h).1) plainName_null).bind fun _ _ _ ↦ ?_
    have hdecl := ((hinit.append_left " = ").append_left (outputVariable varType varName)).append_right
      ";\n"
    exact both_emit ((hdecl.append_left indent).mono (by simp))

theorem both_rememberGlobal (varName : Str) (varType : Ty) :
    Both n (rememberGlobal varName varType) (rememberGlobal varName varType) anyResult := by
  refine Related.get.bind ?_
  rintro s _ ⟨houtput, htable, hdepth⟩
  simp only
  split
  · exact both_modify (fun _ _ ↦ rfl) (fun _ ↦ rfl) (fun _ h ↦ ⟨h.scopes, h.params⟩) fun _ ↦ rfl
  · exact .pure trivial

theorem both_visitVarDecl (d : Declarator) (init : Option Expr) :
    Both n (visitVarDecl ⟨true⟩ d init) (visitVarDecl ⟨false⟩ d init) anyResult := by
  refine both_indentLevel.bind ?_
  rintro indent _ ⟨rfl, hindent⟩
  refine (both_declaratorType d).bind ?_
  rintro ⟨varName, varType⟩ _ ⟨rfl, hname⟩
  refine (both_rememberGlobal varName varType).bind fun _ _ _ ↦ ?_
  refine (both_secondPassOnly (both_declareVar hindent _ _ _)).bind fun _ _ _ ↦ ?_
  exact both_addSymbol hname

/-! ### Blocks and simple statements -/

theorem spliced_releaseSymbols (hindent : Indentation indent) (symbols : List (Str × Variable))
    (h : ∀ p ∈ symbols, PlainVar p.2) :
    Spliced true (releaseSymbols ⟨true⟩ indent symbols) (releaseSymbols ⟨false⟩ indent symbols) := by
  induction symbols with
  | nil => exact .nil
  | cons p symbols ih =>
    unfold releaseSymbols
    refine Spliced.append ?_ (ih fun q hq ↦ h q (List.mem_cons_of_mem _ hq))
    split
    · exact (h p List.mem_cons_self).spliced_dec hindent
    · exact .nil

theorem both_releaseScope (hindent : Indentation indent) :
    Both n (releaseScope ⟨true⟩ indent) (releaseScope ⟨false⟩ indent) anyResult := by
  refine Related.get.bind ?_
  rintro s _ ⟨houtput, htable, hdepth⟩
  refine both_emit (spliced_releaseSymbols hindent _ fun p hp ↦ ?_)
  cases hscopes : s.symbolTable.scopes with
  | nil => simp [hscopes] at hdepth
  | cons scope scopes =>
    rw [SymbolTable.getCurrentScopeSymbols, hscopes] at hp
    have hget := Std.TreeMap.mem_toList_iff_getElem?_eq_some.mp hp
    obtain ⟨hparam, hvar⟩ :=
      htable.scopes scope (by rw [hscopes]; exact List.mem_cons_self) p.1 p.2 hget
    rw [hvar]
    exact ⟨plainName_of_identifier hparam.name, rfl⟩

theorem both_inBlock (h : Both (n + 1) m m' anyResult) :
    Both n (inBlock ⟨true⟩ m) (inBlock ⟨false⟩ m') anyResult := by
  have henter : Related SameError (SameRun n) (modifySymbols (·.enterScope))
      (modifySymbols (·.enterScope)) anyResult (SameRun (n + 1)) := by
    refine .modify ?_
    rintro s _ ⟨houtput, htable, hdepth⟩
    exact .mk houtput htable.enterScope (congrArg (· + 1) hdepth)
  have hexit : Related SameError (SameRun (n + 1)) (modifySymbols (·.exitScope))
      (modifySymbols (·.exitScope)) anyResult (SameRun n) := by
    refine .modify ?_
    rintro s _ ⟨houtput, htable, hdepth⟩
    refine .mk houtput htable.exitScope ?_
    change s.symbolTable.scopes.tail.length = n + 1
    rw [List.length_tail, hdepth]
    rfl
  refine henter.bind fun _ _ _ ↦ ?_
  refine (both_secondPassOnly (both_emit_same _)).bind fun _ _ _ ↦ both_indentLevel.bind ?_
  rintro indent _ ⟨rfl, hindent⟩
  refine h.bind fun _ _ _ ↦ (both_secondPassOnly (both_releaseScope hindent)).bind fun _ _ _ ↦ ?_
  exact hexit.bind fun _ _ _ ↦ both_secondPassOnly (both_emit_same _)

theorem both_visitPresent (e : Option Expr) :
    Both n (visitPresent ⟨true⟩ e) (visitPresent ⟨false⟩ e) (Spliced false) := by
  cases e with
  | none => exact .throw (.same _)
  | some e => exact both_visitExpr e

theorem both_emitReturn (ht : Spliced false t t') :
    Both n (emitReturn ⟨true⟩ t) (emitReturn ⟨false⟩ t') anyResult := by
  refine both_indentLevel.bind ?_
  rintro indent _ ⟨rfl, hindent⟩
  refine (both_lookupSymbol ht).bind ?_
  rintro v _ ⟨rfl, hv⟩
  refine (both_emitIncRef hindent (fun var h ↦ (hv var h).1) plainName_null).bind fun _ _ _ ↦ ?_
  refine (both_releaseScope hindent).bind fun _ _ _ ↦ both_emit ?_
  exact (((ht.append_left "return ").append_right ";\n").append_left indent).mono (by simp)

theorem both_visitReturnStmt (e : Option Expr) :
    Both n (visitReturnStmt ⟨true⟩ e) (visitReturnStmt ⟨false⟩ e) anyResult := by
  refine (both_setAddRefCounts false).bind fun _ _ _ ↦ ?_
  refine (both_visitPresent e).bind fun code code' hcode ↦ ?_
  exact (both_setAddRefCounts true).bind fun _ _ _ ↦ both_secondPassOnly (both_emitReturn hcode)

theorem both_visitExprStmt (e : Expr) :
    Both n (visitExprStmt ⟨true⟩ e) (visitExprStmt ⟨false⟩ e) anyResult := by
  refine (both_visitExpr e).bind fun code code' hcode ↦ both_secondPassOnly ?_
  refine both_indentLevel.bind ?_
  rintro indent _ ⟨rfl, -⟩
  exact both_emit (((hcode.append_left indent).append_right ";\n").mono (by simp))

theorem both_visitCondition (before : Str) (cond : Expr) (after : Str) :
    Both n (visitCondition ⟨true⟩ before cond after) (visitCondition ⟨false⟩ before cond after)
      anyResult := by
  refine (both_setAddRefCounts false).bind fun _ _ _ ↦ (both_emit_same _).bind fun _ _ _ ↦ ?_
  refine (both_visitExpr cond).bind fun code code' hcode ↦ ?_
  refine (both_emit ((hcode.append_right after).mono (by simp))).bind fun _ _ _ ↦ ?_
  exact both_setAddRefCounts true

/-- The text of an expression is written as it is. -/
theorem both_emitExpr (e : Expr) (before : Str) :
    Both n (do let code ← visitExpr ⟨true⟩ e; emit (before ++ code))
      (do let code ← visitExpr ⟨false⟩ e; emit (before ++ code)) anyResult :=
  (both_visitExpr e).bind fun _ _ hcode ↦ both_emit ((hcode.append_left before).mono (by simp))

theorem both_visitForInit (init : ForInit) :
    Both n (visitForInit ⟨true⟩ init) (visitForInit ⟨false⟩ init) anyResult := by
  cases init with
  | none => exact .pure trivial
  | exprStmt e => exact both_emitExpr e []
  | varDecl d init =>
    cases init with
    | none =>
      refine (both_declaratorType d).bind ?_
      rintro ⟨varName, varType⟩ _ ⟨rfl, hname⟩
      exact (both_emit_same _).bind fun _ _ _ ↦ both_addSymbol hname
    | some e =>
      refine (both_declaratorType d).bind ?_
      rintro ⟨varName, varType⟩ _ ⟨rfl, hname⟩
      refine (both_emit_same _).bind fun _ _ _ ↦ (both_visitExpr e).bind fun code code' hcode ↦ ?_
      refine (both_emit ((hcode.append_left " = ").mono (by simp))).bind fun _ _ _ ↦ ?_
      exact both_addSymbol hname

theorem both_visitForHead (init : ForInit) (cond step : Option Expr) :
    Both n (visitForHead ⟨true⟩ init cond step) (visitForHead ⟨false⟩ init cond step) anyResult := by
  have hcond : ∀ e, Both n (visitForCond ⟨true⟩ e) (visitForCond ⟨false⟩ e) anyResult := by
    intro e
    cases e with
    | none => exact .pure trivial
    | some e => exact both_visitCondition _ _ _
  have hstep : ∀ e, Both n (visitForStep ⟨true⟩ e) (visitForStep ⟨false⟩ e) anyResult := by
    intro e
    cases e with
    | none => exact .pure trivial
    | some e => exact both_emitExpr e []
  refine both_indentLevel.bind ?_
  rintro indent _ ⟨rfl, -⟩
  refine (both_emit_same _).bind fun _ _ _ ↦ (both_visitForInit init).bind fun _ _ _ ↦ ?_
  refine (both_emit_same _).bind fun _ _ _ ↦ (hcond _).bind fun _ _ _ ↦ ?_
  exact (both_emit_same _).bind fun _ _ _ ↦ (hstep _).bind fun _ _ _ ↦ both_emit_same _

theorem both_visitStructDecl (d : StructDecl) :
    Both n (visitStructDecl d) (visitStructDecl d) anyResult := by
  refine (both_getStructFromCode d).bind ?_
  rintro type _ rfl
  exact both_secondPassOnly (both_emit_same _)

theorem both_visitTypedefDecl (body : TypedefBody) (name : Ident) :
    Both n (visitTypedefDecl body name) (visitTypedefDecl body name) anyResult := by
  have htype : Both n (typedefType body) (typedefType body) Eq := by
    cases body with
    | structDecl d => exact both_getStructFromCode d
    | typeSpec type => exact both_resolveTypeFromContext type
  refine htype.bind ?_
  rintro type _ rfl
  refine both_inFirstPass.bind ?_
  rintro first _ rfl
  cases first with
  | false => exact both_emit_same _
  | true => exact both_modifyTypes (·.registerTypeDef name.text type)

/-! ### Classes -/

theorem both_constructorPrologue (className : Str) (classType : Ty) (constructor : Function)
    (call : Option (Ident × List Expr)) :
    Both n (constructorPrologue ⟨true⟩ className classType constructor call)
      (constructorPrologue ⟨false⟩ className classType constructor call) anyResult := by
  have hcall : Both n (parentConstructorCall ⟨true⟩ call) (parentConstructorCall ⟨false⟩ call)
      (Spliced false) := by
    cases call with
    | none => exact .pure .nil
    | some call =>
      obtain ⟨parentName, args⟩ := call
      unfold parentConstructorCall
      simp only
      split
      · exact .throw (.same _)
      · refine (both_visitArgs args).bind fun args₁ args₂ hargs ↦ both_indentLevel.bind ?_
        rintro indent _ ⟨rfl, -⟩
        have htext := Spliced.functionCall (.cons (.refl false "&(this->parent)".toList) hargs)
        exact .pure (((htext _).append_left indent).append_right _)
  have hstore : Both n (storeVTable className classType) (storeVTable className classType)
      anyResult := by
    refine (both_askTypes _).bind ?_
    rintro allVirtuals _ rfl
    split
    · exact .pure trivial
    · exact both_emit_same _
  refine (both_emit_same _).bind fun _ _ _ ↦ hcall.bind fun text text' htext ↦ ?_
  exact (both_emit (htext.mono (by simp))).bind fun _ _ _ ↦ hstore

theorem both_announceClass (className : Str) (classType : Ty) :
    Both n (announceClass className classType) (announceClass className classType) anyResult := by
  refine both_inFirstPass.bind ?_
  rintro first _ rfl
  cases first with
  | true => exact both_modify (fun _ _ ↦ rfl) (fun _ ↦ rfl) (fun _ h ↦ h) fun _ ↦ rfl
  | false =>
    refine Related.get.bind ?_
    rintro s _ ⟨houtput, htable, hdepth⟩
    exact both_emit_same _

theorem both_registerMethod (className methodName : Str) (saysVirtual : Bool) (method : Function) :
    Both n (registerMethod className methodName saysVirtual method)
      (registerMethod className methodName saysVirtual method) anyResult :=
  both_modify (fun _ _ ↦ rfl) (fun _ ↦ rfl) (fun _ h ↦ h) fun _ ↦ rfl

theorem both_defineMethod (method : Function) :
    Both n (defineMethod method) (defineMethod method) anyResult :=
  (both_emit_same _).bind fun _ _ _ ↦
    both_modify (fun _ _ ↦ rfl) (fun _ ↦ rfl) (fun _ h ↦ h) fun _ ↦ rfl

theorem both_methodBody (className : Str) (isVirtual : Bool) (h : Both n m m' anyResult) :
    Both n (methodBody className isVirtual m) (methodBody className isVirtual m') anyResult := by
  cases isVirtual with
  | false => exact h
  | true =>
    refine both_secondPassOnly ((both_emit_same _).bind fun _ _ _ ↦ h.bind fun _ _ _ ↦ ?_)
    exact both_emit_same _

theorem both_leaveFunction : Both n (setCurrentFunc none) (setCurrentFunc none) anyResult :=
  both_setCurrentFunc nofun

/-! ### Statements -/

mutual

/-- The visits of a statement in the two runs. -/
theorem both_visitStmt {n : Nat} : ∀ stmt : Stmt,
    Both n (visitStmt ⟨true⟩ stmt) (visitStmt ⟨false⟩ stmt) anyResult
  | .functionDecl result name params body => by
    unfold visitStmt
    refine (both_declaratorTypes params).bind ?_
    rintro params _ ⟨rfl, hparams⟩
    refine (both_resolveTypeFromContext result).bind ?_
    rintro returnType _ rfl
    refine (both_firstPassOnly (both_modifyTypes _)).bind fun _ _ _ ↦ ?_
    have hfunc : ∀ func, some { name := name.text, params, returnType : Function } = some func →
        ∀ p ∈ func.params, isIdentifier p.1 = true := by
      rintro _ ⟨⟩
      exact hparams
    refine (both_setCurrentFunc hfunc).bind fun _ _ _ ↦ ?_
    refine (both_secondPassOnly ?_).bind fun _ _ _ ↦ both_leaveFunction
    exact (both_emit_same _).bind fun _ _ _ ↦ both_inBlock (both_visitStmts body)
  | .varDecl d init => by
    unfold visitStmt
    exact both_visitVarDecl d init
  | .spawnStmt _ => by
    unfold visitStmt
    exact .pure trivial
  | .returnStmt e => by
    unfold visitStmt
    exact both_visitReturnStmt e
  | .exprStmt e => by
    unfold visitStmt
    exact both_visitExprStmt e
  | .block body => by
    unfold visitStmt
    exact both_inBlock (both_visitStmts body)
  | .structDecl d => by
    unfold visitStmt
    exact both_visitStructDecl d
  | .classDecl name parent members => by
    unfold visitStmt
    refine (both_getClassFromCode name parent members).bind ?_
    rintro classType _ rfl
    refine (both_announceClass name.text classType).bind fun _ _ _ ↦ ?_
    exact both_visitMembers name.text classType members
  | .ifStmt cond body none | .whileStmt cond body => by
    unfold visitStmt
    refine both_secondPassOnly (both_indentLevel.bind ?_)
    rintro indent _ ⟨rfl, -⟩
    refine (both_visitCondition _ cond _).bind fun _ _ _ ↦ ?_
    exact (both_visitStmt body).bind fun _ _ _ ↦ both_emit_same _
  | .ifStmt cond thenBranch (some elseBranch) => by
    unfold visitStmt
    refine both_secondPassOnly (both_indentLevel.bind ?_)
    rintro indent _ ⟨rfl, -⟩
    refine (both_visitCondition _ cond _).bind fun _ _ _ ↦ ?_
    refine (both_visitStmt thenBranch).bind fun _ _ _ ↦ (both_emit_same _).bind fun _ _ _ ↦ ?_
    refine both_indentLevel.bind ?_
    rintro indent _ ⟨rfl, -⟩
    refine (both_emit_same _).bind fun _ _ _ ↦ ?_
    exact (both_visitStmt elseBranch).bind fun _ _ _ ↦ both_emit_same _
  | .forStmt init cond step body => by
    unfold visitStmt
    refine both_firstPassOnly (both_indentLevel.bind ?_)
    rintro indent _ ⟨rfl, -⟩
    refine (both_visitForHead init cond step).bind fun _ _ _ ↦ ?_
    refine (both_emit_same _).bind fun _ _ _ ↦ ?_
    exact (both_visitStmt body).bind fun _ _ _ ↦ both_emit_same _
  | .typedefDecl body name => by
    unfold visitStmt
    exact both_visitTypedefDecl body name

theorem both_visitStmts {n : Nat} : ∀ stmts : List Stmt,
    Both n (visitStmts ⟨true⟩ stmts) (visitStmts ⟨false⟩ stmts) anyResult
  | [] => by
    unfold visitStmts
    exact .pure trivial
  | stmt :: stmts => by
    unfold visitStmts
    exact (both_visitStmt stmt).bind fun _ _ _ ↦ both_visitStmts stmts

theorem both_visitMember {n : Nat} (className : Str) (classType : Ty) : ∀ member : ClassMember,
    Both n (visitMember ⟨true⟩ className classType member)
      (visitMember ⟨false⟩ className classType member) anyResult
  | .field _ => by
    unfold visitMember
    exact .pure trivial
  | .constructor _ params parentCall body => by
    unfold visitMember
    refine (both_memberParams classType params).bind ?_
    rintro params _ ⟨rfl, hparams⟩
    refine (both_firstPassOnly (both_modifyTypes _)).bind fun _ _ _ ↦ ?_
    refine (both_setCurrentFunc ?_).bind fun _ _ _ ↦ ?_
    · rintro _ ⟨⟩
      exact hparams
    refine (both_secondPassOnly (both_constructorPrologue _ _ _ _)).bind fun _ _ _ ↦ ?_
    refine (both_inBlock (both_visitStmts body)).bind fun _ _ _ ↦ ?_
    exact (both_secondPassOnly (both_emit_same _)).bind fun _ _ _ ↦ both_leaveFunction
  | .method virtualKeyword result name params body => by
    unfold visitMember
    refine (both_resolveTypeFromContext result).bind ?_
    rintro returnType _ rfl
    refine (both_askTypes _).bind ?_
    rintro isVirtual _ rfl
    refine (both_memberParams classType params).bind ?_
    rintro params' _ ⟨rfl, hparams⟩
    refine (both_firstPassOnly (both_registerMethod _ _ _ _)).bind fun _ _ _ ↦ ?_
    refine (both_setCurrentFunc ?_).bind fun _ _ _ ↦ ?_
    · rintro _ ⟨⟩
      exact hparams
    refine (both_secondPassOnly (both_defineMethod _)).bind fun _ _ _ ↦ ?_
    refine (both_methodBody className isVirtual (both_inBlock (both_visitStmts body))).bind
      fun _ _ _ ↦ both_leaveFunction

theorem both_visitMembers {n : Nat} (className : Str) (classType : Ty) :
    ∀ members : List ClassMember, Both n (visitMembers ⟨true⟩ className classType members)
      (visitMembers ⟨false⟩ className classType members) anyResult
  | [] => by
    unfold visitMembers
    exact .pure trivial
  | member :: members => by
    unfold visitMembers
    exact (both_visitMember className classType member).bind fun _ _ _ ↦
      both_visitMembers className classType members

end

/-! ### Programs -/

end JBLang.Ast
