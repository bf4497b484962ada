import JBLang.Ast.Specifiers
import JBLang.Classes.Inheritance

/-!
# Paths to inherited fields

`resolveFieldAccess` looks at the class and takes its parent for everything else. Here its paths
are compared with the place where a field is declared, and the access through a variable with the
access through `this`.
-/

namespace JBLang.Classes

open JBLang.Base JBLang.Types JBLang.Ast JBLang.Codegen Relation

variable {ts : TypeSystem} {f C : Str} {k : Nat} {t : Ty}

/-! ### Where a field is declared -/

/-- A class declares a field. -/
def ClassDeclares (ts : TypeSystem) (f C : Str) : Prop := f ∈ (ts.ownMembers C).map Prod.fst

instance (ts : TypeSystem) (f C : Str) : Decidable (ClassDeclares ts f C) :=
  inferInstanceAs (Decidable (f ∈ (ts.ownMembers C).map Prod.fst))

/-- The first class that declares the field, on the way up from a class, is that many links above
it. -/
inductive DeclaredAbove (ts : TypeSystem) (f : Str) : Nat → Str → Prop
  | here {C : Str} (h : ClassDeclares ts f C) : DeclaredAbove ts f 0 C
  | above {C P : Str} {k : Nat} (hC : ¬ ClassDeclares ts f C) (hP : ts.parentOf C = some P)
    (h : DeclaredAbove ts f k P) : DeclaredAbove ts f (k + 1) C

/-- No class on the way up declares the field. -/
def NowhereDeclared (ts : TypeSystem) (f C : Str) : Prop :=
  ∀ D, ReflTransGen (Follows ts.parentOf) C D → ¬ ClassDeclares ts f D

theorem classDeclares_iff (ht : ts.classes[C]? = some t) :
    ClassDeclares ts f C ↔ DeclaresField t f := by
  rw [ClassDeclares, TypeSystem.ownMembers, ht, DeclaresField]

theorem DeclaredAbove.not_nowhere (h : DeclaredAbove ts f k C) : ¬ NowhereDeclared ts f C := by
  induction h with
  | here h => exact fun hnowhere ↦ hnowhere _ .refl h
  | above _ hP _ ih => exact fun hnowhere ↦ ih fun D hD ↦ hnowhere D (.head hP hD)

/-- Without cycles a field is declared somewhere above, or nowhere. -/
theorem declaredAbove_or_nowhere (h : ts.Hierarchy) (f C : Str) :
    (∃ k, DeclaredAbove ts f k C) ∨ NowhereDeclared ts f C := by
  obtain ⟨l, hl, -⟩ := h.exists_chain C
  induction hl with
  | @last C hn =>
    by_cases hC : ClassDeclares ts f C
    · exact .inl ⟨0, .here hC⟩
    · refine .inr fun D hD ↦ ?_
      rcases ReflTransGen.cases_head hD with rfl | ⟨P, hP, -⟩
      · exact hC
      · rw [Follows, hn] at hP
        cases hP
  | @step C P l hP _ ih =>
    by_cases hC : ClassDeclares ts f C
    · exact .inl ⟨0, .here hC⟩
    · rcases ih with ⟨k, hk⟩ | hnowhere
      · exact .inl ⟨k + 1, .above hC hP hk⟩
      · refine .inr fun D hD ↦ ?_
        rcases ReflTransGen.cases_head hD with rfl | ⟨P', hP', hD⟩
        · exact hC
        · rw [Follows, hP, Option.some.injEq] at hP'
          exact hnowhere D (hP' ▸ hD)

/-! ### The paths of `resolveFieldAccess` -/

/-- The path from `this` to a field that is declared that many links above. -/
def fieldPath (k : Nat) (f : Str) : Str :=
  "this->" ++ (List.replicate k "parent.".toList).flatten ++ f

/-- `resolveFieldAccess` leads to the class that declares the field, and reports a field that is
nowhere declared. -/
structure FieldPathRight (ts : TypeSystem) (f C : Str) : Prop where
  reached : ∀ k, DeclaredAbove ts f k C → resolveFieldAccess ts f C = .ok (fieldPath k f)
  missing : (∃ message, resolveFieldAccess ts f C = .error (.compiler .nameError message)) ↔
    NowhereDeclared ts f C

/-- The field is declared in the class or its parent, or else the class has no parent; and no
`typedef` or struct of the class's name has other fields or another parent. -/
structure FieldNearby (ts : TypeSystem) (f C : Str) (t : Ty) : Prop where
  near : ∀ k, DeclaredAbove ts f k C → k ≤ 1
  own : ∀ r, ts.resolveType C = .ok r → (DeclaresField r f ↔ DeclaresField t f)
  parent : ∀ r, ts.resolveType C = .ok r → ¬ DeclaresField t f →
    (r.hasParent = true ↔ ∃ k, DeclaredAbove ts f k C)

/-- The name of a declared class resolves. -/
theorem exists_resolveType (C : Ident) (hC : C.text ∈ ts.classes) :
    ∃ r, ts.resolveType C.text = .ok r := by
  have hresolve := resolveType_stars ts C.isWord 0
  have hself : C.text ++ starsText 0 = C.text := List.append_nil _
  rw [hself, namedType_ident] at hresolve
  obtain ⟨t, ht⟩ := TypeSystem.exists_class_of_mem hC
  have hsome : (declaredType ts C.text).isSome = true := by
    rw [declaredType, ht]
    simp
  obtain ⟨r, hr⟩ := Option.isSome_iff_exists.mp hsome
  rw [hr] at hresolve
  exact ⟨_, eq_ok_iff_toOption.mpr hresolve⟩

variable {s : VState} {r : Ty}

theorem resolveFieldAccess_of_own (hr : ts.resolveType C = .ok r) (h : DeclaresField r f) :
    resolveFieldAccess ts f C = .ok (fieldPath 0 f) := by
  have hcontains := List.contains_iff_mem.mpr h
  simp only [resolveFieldAccess, hr, bind, Except.bind, hcontains, if_true]
  rfl

theorem resolveFieldAccess_of_parent (hr : ts.resolveType C = .ok r)
    (h : ¬ DeclaresField r f) (hp : r.hasParent = true) :
    resolveFieldAccess ts f C = .ok (fieldPath 1 f) := by
  have hcontains := Bool.eq_false_iff.mpr (mt List.contains_iff_mem.mp h)
  simp only [resolveFieldAccess, hr, bind, Except.bind, hcontains, Bool.false_eq_true, if_false, hp,
    if_true]
  rfl

theorem resolveFieldAccess_of_none (hr : ts.resolveType C = .ok r)
    (h : ¬ DeclaresField r f) (hp : r.hasParent = false) : resolveFieldAccess ts f C =
      .error (.compiler .nameError ("Field not found: " ++ f)) := by
  have hcontains := Bool.eq_false_iff.mpr (mt List.contains_iff_mem.mp h)
  simp only [resolveFieldAccess, hr, bind, Except.bind, hcontains, Bool.false_eq_true, if_false, hp]

theorem fieldPath_injective {k k' : Nat} (h : fieldPath k f = fieldPath k' f) : k = k' := by
  have hlength := congrArg List.length (List.append_cancel_right h)
  simp only [List.length_append, List.length_flatten, List.map_replicate,
    List.sum_replicate_nat] at hlength
  have hseven : "parent.".toList.length = 7 := rfl
  rw [hseven] at hlength
  omega

/-- What `resolveFieldAccess` gives, by the type that the class's name resolves to. -/
theorem resolveFieldAccess_iff (hr : ts.resolveType C = .ok r) :
    (resolveFieldAccess ts f C = .ok (fieldPath k f) ↔
      (k = 0 ∧ DeclaresField r f) ∨ (k = 1 ∧ ¬ DeclaresField r f ∧ r.hasParent = true)) ∧
    ((∃ message, resolveFieldAccess ts f C = .error (.compiler .nameError message)) ↔
      ¬ DeclaresField r f ∧ r.hasParent = false) := by
  by_cases hf : DeclaresField r f
  · rw [resolveFieldAccess_of_own hr hf]
    refine ⟨⟨fun h ↦ .inl ⟨?_, hf⟩, ?_⟩, by simp [hf]⟩
    · exact (fieldPath_injective (Except.ok.inj h)).symm
    · rintro (⟨rfl, -⟩ | ⟨-, hnot, -⟩)
      · rfl
      · exact absurd hf hnot
  · cases hp : r.hasParent with
    | true =>
      rw [resolveFieldAccess_of_parent hr hf hp]
      refine ⟨⟨fun h ↦ .inr ⟨?_, hf, rfl⟩, ?_⟩, by simp⟩
      · exact (fieldPath_injective (Except.ok.inj h)).symm
      · rintro (⟨-, hown⟩ | ⟨rfl, -⟩)
        · exact absurd hown hf
        · rfl
    | false =>
      rw [resolveFieldAccess_of_none hr hf hp]
      exact ⟨by simp [hf], by simp [hf]⟩

/-- `resolveFieldAccess` is right about a field exactly when it is near. -/
theorem field_path_iff (h : ts.Hierarchy) (C : Ident) (ht : ts.classes[C.text]? = some t) (f : Str) :
    FieldPathRight ts f C.text ↔ FieldNearby ts f C.text t := by
  obtain ⟨r, hr⟩ := exists_resolveType C (TypeSystem.mem_classes_of_getElem? ht)
  have hcases := fun k ↦ (resolveFieldAccess_iff (f := f) (k := k) hr).1
  have hmissing := (resolveFieldAccess_iff (f := f) (k := 0) hr).2
  have hunique : ∀ r', ts.resolveType C.text = .ok r' → r' = r := fun r' hr' ↦
    Except.ok.inj (hr'.symm.trans hr)
  constructor
  · intro hright
    have hplace := fun k hk ↦ (hcases k).mp (hright.reached k hk)
    have hnowhere : NowhereDeclared ts f C.text → ¬ DeclaresField r f ∧ r.hasParent = false :=
      fun hn ↦ hmissing.mp (hright.missing.mpr hn)
    refine ⟨fun k hk ↦ ?_, fun r' hr' ↦ ?_, fun r' hr' hnot ↦ ?_⟩
    · rcases hplace k hk with ⟨rfl, -⟩ | ⟨rfl, -⟩
      · exact Nat.zero_le 1
      · exact Nat.le_refl 1
    · rw [hunique r' hr', ← classDeclares_iff ht]
      constructor
      · intro hown
        -- Above the class the path would not be the one of its own field.
        rcases declaredAbove_or_nowhere h f C.text with ⟨k, hk⟩ | hn
        · rcases hplace k hk with ⟨rfl, -⟩ | ⟨-, hnot, -⟩
          · cases hk with
            | here hC => exact hC
          · exact absurd hown hnot
        · exact absurd hown (hnowhere hn).1
      · intro hC
        rcases hplace 0 (.here hC) with ⟨-, hown⟩ | ⟨hone, -⟩
        · exact hown
        · cases hone
    · rw [hunique r' hr']
      constructor
      · intro hp
        rcases declaredAbove_or_nowhere h f C.text with hk | hn
        · exact hk
        · rw [(hnowhere hn).2] at hp
          cases hp
      · rintro ⟨k, hk⟩
        rcases hplace k hk with ⟨rfl, hown⟩ | ⟨-, -, hp⟩
        · cases hk with
          | here hC => exact absurd ((classDeclares_iff ht).mp hC) hnot
        · exact hp
  · intro hnear
    have hown := hnear.own r hr
    refine ⟨fun k hk ↦ (hcases k).mpr ?_, hmissing.trans ⟨?_, fun hn ↦ ?_⟩⟩
    · have hle := hnear.near k hk
      cases hk with
      | here hC => exact .inl ⟨rfl, hown.mpr ((classDeclares_iff ht).mp hC)⟩
      | @above _ P k hC hP hk =>
        have hnot := mt (classDeclares_iff ht).mpr hC
        refine .inr ⟨by omega, mt hown.mp hnot, ?_⟩
        exact (hnear.parent r hr hnot).mpr ⟨_, .above hC hP hk⟩
    · rintro ⟨hnot, hp⟩
      rcases declaredAbove_or_nowhere h f C.text with hk | hn
      · rw [(hnear.parent r hr (mt hown.mpr hnot)).mpr hk] at hp
        cases hp
      · exact hn
    · have hC := mt (classDeclares_iff ht).mpr (hn C.text .refl)
      refine ⟨mt hown.mp hC, Bool.eq_false_iff.mpr fun hp ↦ ?_⟩
      obtain ⟨k, hk⟩ := (hnear.parent r hr hC).mp hp
      exact hk.not_nowhere hn

private def thirdClass : Ident := ⟨"C".toList, isIdentifier_C⟩

private def secondClass : Ident := ⟨"B".toList, isIdentifier_B⟩

theorem fieldsOfThree_hierarchy : (typesOf fieldsOfThree).Hierarchy :=
  .of_parentsFirst ["A".toList, "B".toList, "C".toList] (by decide +kernel)

theorem fieldsOfThree_second : (typesOf fieldsOfThree).parentOf "B" = some "A".toList := by
  decide +kernel

theorem fieldsOfThree_third : (typesOf fieldsOfThree).parentOf "C" = some "B".toList := by
  decide +kernel

/-- The field `x` of `A` is found from `B`. -/
theorem field_path_iff_parent : FieldPathRight (typesOf fieldsOfThree) "x" secondClass.text := by
  have hdeclared : ((typesOf fieldsOfThree).classes[secondClass.text]?).isSome = true := by
    decide +kernel
  have hresolved : ((typesOf fieldsOfThree).resolveType secondClass.text).toOption.map
      (fun r ↦ ((r.structMembers.map Prod.fst).contains "x".toList, r.hasParent)) =
        some (false, true) := by decide +kernel
  obtain ⟨t, ht⟩ := Option.isSome_iff_exists.mp hdeclared
  have hnot : ¬ ClassDeclares (typesOf fieldsOfThree) "x" secondClass.text := by decide +kernel
  have hA : ClassDeclares (typesOf fieldsOfThree) "x" "A" := by decide +kernel
  refine (field_path_iff fieldsOfThree_hierarchy secondClass ht "x").mpr ⟨fun k hk ↦ ?_,
    fun r hr ↦ ?_, fun r hr _ ↦ ?_⟩
  · cases hk with
    | here hC => exact absurd hC hnot
    | above _ hP hk =>
      cases fieldsOfThree_second.symm.trans hP
      cases hk with
      | here => exact Nat.le_refl 1
      | above hA' => exact absurd hA hA'
  · rw [hr] at hresolved
    refine iff_of_false (fun hr' ↦ ?_) (mt (classDeclares_iff ht).mpr hnot)
    have hcontains := (Prod.mk.inj (Option.some.inj hresolved)).1
    exact Bool.eq_false_iff.mp hcontains (List.contains_iff_mem.mpr hr')
  · rw [hr] at hresolved
    exact iff_of_true (Prod.mk.inj (Option.some.inj hresolved)).2
      ⟨1, .above hnot fieldsOfThree_second (.here hA)⟩

/-- The field `x` of `A` is looked for in the parent of `C`, two links below `A`, and a field that
no class declares is taken for one of the parent too. -/
theorem field_path_too_short :
    (typesOf fieldsOfThree).Hierarchy ∧ DeclaredAbove (typesOf fieldsOfThree) "x" 2 thirdClass.text ∧
      (resolveFieldAccess (typesOf fieldsOfThree) "x" thirdClass.text).toOption =
        some "this->parent.x".toList ∧ fieldPath 2 "x" = "this->parent.parent.x" ∧
      NowhereDeclared (typesOf fieldsOfThree) "z" thirdClass.text ∧
      (resolveFieldAccess (typesOf fieldsOfThree) "z" thirdClass.text).toOption =
        some "this->parent.z".toList := by
  have hnowhere : ∀ D ∈ ["C".toList, "B".toList, "A".toList],
      ¬ ClassDeclares (typesOf fieldsOfThree) "z" D := by decide +kernel
  have hroot : (typesOf fieldsOfThree).parentOf "A" = none := by decide +kernel
  have hchain : Chain (typesOf fieldsOfThree).parentOf thirdClass.text
      ["C".toList, "B".toList, "A".toList] :=
    .step fieldsOfThree_third (.step fieldsOfThree_second (.last hroot))
  refine ⟨fieldsOfThree_hierarchy, .above (by decide +kernel) fieldsOfThree_third
    (.above (by decide +kernel) fieldsOfThree_second (.here (by decide +kernel))), by decide +kernel,
    by decide, fun D hD ↦ hnowhere D (hchain.mem_iff.mpr hD), by decide +kernel⟩

/-! ### Access from outside -/

/-- How many links above a class of this type its field is looked for, if at all. -/
def typePath (r : Ty) (f : Str) : Option Nat :=
  if DeclaresField r f then some 0 else if r.hasParent then some 1 else none

/-- Where `this->f` is looked for in a function whose name begins with that of the class. -/
def thisPath (ts : TypeSystem) (f C : Str) : Option Nat :=
  (ts.resolveType C).toOption.bind fun r ↦ if r.isClass then typePath r f else none

/-- Where the field is looked for through a variable; a field that is not found is taken for one of
the class itself. -/
def objectPath (ts : TypeSystem) (f C : Str) : Nat :=
  ((ts.resolveType C).toOption.bind (typePath · f)).getD 0

/-- Where the field is looked for before the variable's type is asked: only through `this`, in the
class that the current function's name begins with. -/
def currentPath (s : VState) (base f : Str) : Option Nat :=
  (if base = "this" then s.symbolTable.currentFunc else none).bind fun func ↦
    (beforeFirst "_" func.name).bind (thisPath s.typeSystem f)

/-- The first method that is taken in the field's place: a virtual one, or the one of its name. -/
def hidingMethod (ts : TypeSystem) (f C : Str) : Option Function :=
  (ts.getClassMethods C).find? fun method ↦ method.isVirtual || method.name = C ++ "_" ++ f

/-- The text of a field that many links above the class of a variable. -/
def fieldText (base : Str) (k : Nat) (f : Str) : Str := base ++ (fieldPath k f).drop 4

theorem fieldText_eq (base : Str) (k : Nat) (f : Str) : fieldText base k f =
    base ++ "->" ++ ((List.replicate k "parent.".toList).flatten ++ f) := by
  have hpath : fieldPath k f = "this->" ++ ((List.replicate k "parent.".toList).flatten ++ f) :=
    List.append_assoc _ _ _
  have hdrop : ("this->".toList).drop 4 = "->".toList := by decide
  rw [fieldText, hpath, List.drop_append_of_le_length (by decide), hdrop, List.append_assoc]

/-- The text of a call in the field's place. -/
def callInPlace (C f base : Str) (method : Function) : Str :=
  if method.isVirtual then "VIRTUAL_CALL:" ++ f ++ ":" ++ base
  else "METHOD_CALL:" ++ C ++ "_" ++ f ++ ":" ++ base

/-- The text of `base->f` for a variable of a class. -/
def accessText (ts : TypeSystem) (f C base : Str) : Option Nat → Str
  | some k => fieldText base k f
  | none => match hidingMethod ts f C with
    | some method => callInPlace C f base method
    | none => fieldText base (objectPath ts f C) f

theorem resolveFieldAccess_toOption (ts : TypeSystem) (f C : Str) :
    (resolveFieldAccess ts f C).toOption =
      ((ts.resolveType C).toOption.bind (typePath · f)).map (fieldPath · f) := by
  cases hr : ts.resolveType C with
  | error e =>
    rw [resolveFieldAccess, hr]
    rfl
  | ok r =>
    change _ = (typePath r f).map _
    unfold typePath
    by_cases hf : DeclaresField r f
    · rw [resolveFieldAccess_of_own hr hf, if_pos hf]
      rfl
    · cases hp : r.hasParent with
      | true =>
        rw [resolveFieldAccess_of_parent hr hf hp, if_neg hf]
        rfl
      | false =>
        rw [resolveFieldAccess_of_none hr hf hp, if_neg hf]
        rfl

theorem thisFieldAccess_eq (s : VState) (base f : Str) :
    thisFieldAccess s base f = (currentPath s base f).map (fieldPath · f) := by
  unfold thisFieldAccess currentPath
  by_cases hbase : base = "this".toList
  · simp only [hbase, if_true, Option.bind_eq_bind]
    cases s.symbolTable.currentFunc with
    | none => rfl
    | some func =>
      simp only [Option.bind_some]
      cases beforeFirst "_" func.name with
      | none => rfl
      | some C =>
        simp only [Option.bind_some, thisPath, resolveFieldAccess_toOption]
        cases (s.typeSystem.resolveType C).toOption with
        | none => rfl
        | some r =>
          simp only [Option.bind_some]
          split <;> rfl
  · simp only [hbase, if_false]
    rfl

/-- `base->f` for a variable of a class. -/
theorem memberAccess_eq_accessText {base : Str} {var : Variable}
    (hvar : s.symbolTable.lookupSymbol base = some var) (hclass : var.type.isClass = true)
    (hname : var.type.structName = C) (f : Str) :
    memberAccess s base f = accessText s.typeSystem f C base (currentPath s base f) := by
  unfold memberAccess
  rw [thisFieldAccess_eq]
  cases hpath : currentPath s base f with
  | some k =>
    have hthis : base = "this" := by
      unfold currentPath at hpath
      split at hpath
      · assumption
      · cases hpath
    rw [hthis]
    rfl
  | none =>
    have hobject : objectMemberAccess s base f = match hidingMethod s.typeSystem f C with
        | some method => some (callInPlace C f base method)
        | none => ((resolveFieldAccess s.typeSystem f C).toOption).map (base ++ ·.drop 4) := by
      unfold objectMemberAccess
      simp only [hvar, hclass, hname, if_true, Option.bind_eq_bind, Option.bind_some]
      cases hfind : hidingMethod s.typeSystem f C with
      | some method =>
        unfold hidingMethod at hfind
        simp only [hfind, callInPlace]
        split <;> rfl
      | none =>
        unfold hidingMethod at hfind
        simp only [hfind]
        cases (resolveFieldAccess s.typeSystem f C).toOption <;> rfl
    simp only [Option.map_none, hobject, accessText]
    cases hidingMethod s.typeSystem f C with
    | some method => rfl
    | none =>
      simp only [resolveFieldAccess_toOption, objectPath]
      cases (s.typeSystem.resolveType C).toOption.bind (typePath · f) with
      | some k => rfl
      | none => exact (fieldText_eq base 0 f).symm

/-- A variable of a class, in the second pass. -/
structure HasObject (s : VState) (v : Str) (C : Ident) : Prop where
  pass : s.firstPass = false
  object : ∃ var, s.symbolTable.lookupSymbol v = some var ∧ var.type.isClass = true ∧
    var.type.isPointer = true ∧ var.type.structName = C.text

/-- The receiver's name. -/
def thisName : Ident := ⟨"this".toList, by decide +kernel⟩

/-- In a method of a class, with its receiver in scope. -/
structure InMethod (s : VState) (C : Ident) : Prop extends HasObject s thisName.text C where
  function : ∃ (func : Function) (m : Ident), s.symbolTable.currentFunc = some func ∧
    func.name = C.text ++ "_" ++ m.text

/-- The class that the methods of a class are taken for: its name up to an underscore. -/
def methodClass (C : Ident) : Str := (beforeFirst "_" C.text).getD C.text

/-- An occurrence of `this` is replaced by another name. -/
def ReplacesThis (v inside outside : Str) : Prop :=
  ∃ before after, inside = before ++ "this" ++ after ∧ outside = before ++ v ++ after

/-- Both accesses are decided in the same way, or neither is a call and both lead to the same
class. -/
def AccessesMeet (ts : TypeSystem) (f C : Str) (inner outer : Option Nat) : Prop :=
  inner = outer ∨ (hidingMethod ts f C = none ∧
    inner.getD (objectPath ts f C) = outer.getD (objectPath ts f C))

theorem beforeFirst_mangled (C m : Str) :
    beforeFirst "_" (C ++ "_" ++ m) = some ((beforeFirst "_" C).getD C) := by
  induction C with
  | nil => rfl
  | cons c C ih =>
    have hone : ∀ s : Str, "_".toList.isPrefixOf (c :: s) = ('_' == c) := by
      intro s
      change ('_' == c && [].isPrefixOf s) = _
      rw [List.isPrefixOf_nil_left, Bool.and_true]
    rw [List.cons_append, List.cons_append, beforeFirst, beforeFirst, hone, hone]
    split
    · rfl
    · rw [ih]
      cases beforeFirst "_" C <;> rfl

theorem currentPath_method {C : Ident} (h : InMethod s C) (f : Str) :
    currentPath s thisName.text f = thisPath s.typeSystem f (methodClass C) := by
  obtain ⟨func, m, hfunc, hname⟩ := h.function
  have hthis : thisName.text = "this".toList := rfl
  rw [currentPath, if_pos hthis, hfunc, Option.bind_some, hname, beforeFirst_mangled,
    Option.bind_some]
  rfl

theorem run_pointerMember {gen : CCodeGenerator} (hs : s.firstPass = false)
    (v f : Ident) : (visitExpr gen (.pointerMember (.ident v) f)).run s =
      .ok (memberAccess s v.text f.text, s) := by
  simp [visitExpr, inFirstPass, hs]
  rfl

theorem length_fieldText (base : Str) (k : Nat) (f : Str) :
    (fieldText base k f).length = base.length + (2 + (7 * k + f.length)) := by
  have hseven : "parent.".toList.length = 7 := rfl
  have htwo : "->".toList.length = 2 := rfl
  rw [fieldText_eq, List.length_append, List.length_append, List.length_append,
    List.length_flatten, List.map_replicate, List.sum_replicate_nat, hseven, htwo]
  omega

theorem colon_not_mem_fieldText {base : Str} (hbase : ':' ∉ base) (k : Nat) (f : Ident) :
    ':' ∉ fieldText base k f.text := by
  have hparent : ':' ∉ (List.replicate k "parent.".toList).flatten := by
    intro hmem
    obtain ⟨part, hpart, hmem⟩ := List.mem_flatten.mp hmem
    rw [List.eq_of_mem_replicate hpart] at hmem
    exact absurd hmem (by decide)
  have hf : ':' ∉ f.text := f.isWord.not_mem (by decide)
  have harrow : ':' ∉ "->".toList := by decide
  rw [fieldText_eq]
  simp only [List.mem_append, hbase, hparent, hf, harrow, or_self, not_false_eq_true]

theorem colon_mem_callInPlace (C f base : Str) (method : Function) :
    ':' ∈ callInPlace C f base method := by
  unfold callInPlace
  split
  · simp only [List.mem_append]
    exact .inl (.inl (.inl (by decide)))
  · simp only [List.mem_append]
    exact .inl (.inl (.inl (.inl (.inl (by decide)))))

/-- The same text around another object. -/
theorem replacesThis_accessText (ts : TypeSystem) (f C v : Str) (path : Option Nat) :
    ReplacesThis v (accessText ts f C "this" path) (accessText ts f C v path) := by
  have hfield : ∀ k, ReplacesThis v (fieldText "this" k f) (fieldText v k f) :=
    fun k ↦ ⟨[], (fieldPath k f).drop 4, rfl, rfl⟩
  cases path with
  | some k => exact hfield k
  | none =>
    unfold accessText
    cases hidingMethod ts f C with
    | none => exact hfield _
    | some method =>
      simp only [callInPlace]
      cases method.isVirtual with
      | true => exact ⟨"VIRTUAL_CALL:" ++ f ++ ":", [], by simp, by simp⟩
      | false => exact ⟨"METHOD_CALL:" ++ C ++ "_" ++ f ++ ":", [], by simp, by simp⟩

theorem accessText_of_not_hidden {ts : TypeSystem} {f C : Str} (h : hidingMethod ts f C = none)
    (base : Str) (path : Option Nat) :
    accessText ts f C base path = fieldText base (path.getD (objectPath ts f C)) f := by
  cases path with
  | some k => rfl
  | none => rw [accessText, h, Option.getD_none]

/-- Paths of different lengths are not the same text around another object. -/
theorem ReplacesThis.path_eq {v : Str} {k k' : Nat}
    (h : ReplacesThis v (fieldText "this" k f) (fieldText v k' f)) : k = k' := by
  obtain ⟨before, after, hinside, houtside⟩ := h
  have hin := congrArg List.length hinside
  have hout := congrArg List.length houtside
  rw [length_fieldText, List.length_append, List.length_append] at hin hout
  omega

/-- A colon of one text is one of the other. -/
theorem ReplacesThis.colon_iff {v inside outside : Str} (h : ReplacesThis v inside outside)
    (hv : ':' ∉ v) : ':' ∈ inside ↔ ':' ∈ outside := by
  obtain ⟨before, after, rfl, rfl⟩ := h
  have hthis : ':' ∉ "this".toList := by decide
  simp only [List.mem_append, hthis, hv]

theorem replacesThis_iff (ts : TypeSystem) (f v : Ident) (C : Str) (inner outer : Option Nat) :
    ReplacesThis v.text (accessText ts f.text C "this" inner) (accessText ts f.text C v.text outer) ↔
      AccessesMeet ts f.text C inner outer := by
  have hv : ':' ∉ v.text := v.isWord.not_mem (by decide)
  have hthis : ':' ∉ "this".toList := by decide
  constructor
  · intro h
    cases hhiding : hidingMethod ts f.text C with
    | none =>
      rw [accessText_of_not_hidden hhiding, accessText_of_not_hidden hhiding] at h
      exact .inr ⟨hhiding, h.path_eq⟩
    | some method =>
      have hcall : ∀ base, accessText ts f.text C base none = callInPlace C f.text base method := by
        intro base
        rw [accessText, hhiding]
      refine .inl ?_
      cases inner with
      | none => cases outer with
        | none => rfl
        | some k =>
          rw [hcall] at h
          exact absurd ((h.colon_iff hv).mp (colon_mem_callInPlace ..))
            (colon_not_mem_fieldText hv k f)
      | some k => cases outer with
        | none =>
          rw [hcall] at h
          exact absurd ((h.colon_iff hv).mpr (colon_mem_callInPlace ..))
            (colon_not_mem_fieldText hthis k f)
        | some k' => exact congrArg some h.path_eq
  · rintro (rfl | ⟨hhiding, hpath⟩)
    · exact replacesThis_accessText ts f.text C v.text inner
    · rw [accessText_of_not_hidden hhiding, accessText_of_not_hidden hhiding, hpath]
      exact replacesThis_accessText ts f.text C v.text (some _)

/-- The text of `v->f` is that of `this->f` in a method of the class of `v`, with `v` in place of
`this`, exactly when the two accesses meet. -/
theorem member_access_iff (gen : CCodeGenerator) {s s' : VState} {C : Ident} (v f : Ident)
    (hmethod : InMethod s C) (hobject : HasObject s' v.text C)
    (htypes : s'.typeSystem = s.typeSystem) :
    (∃ inside outside, (visitExpr gen (.pointerMember (.ident thisName) f)).run s = .ok (inside, s) ∧
      (visitExpr gen (.pointerMember (.ident v) f)).run s' = .ok (outside, s') ∧
      ReplacesThis v.text inside outside) ↔
    AccessesMeet s.typeSystem f.text C.text (thisPath s.typeSystem f.text (methodClass C))
      (currentPath s' v.text f.text) := by
  obtain ⟨thisVar, hthis, hthisClass, -, hthisName⟩ := hmethod.object
  obtain ⟨var, hvar, hclass, -, hname⟩ := hobject.object
  have hinside := memberAccess_eq_accessText hthis hthisClass hthisName f.text
  have houtside := memberAccess_eq_accessText hvar hclass hname f.text
  rw [currentPath_method hmethod] at hinside
  rw [htypes] at houtside
  rw [run_pointerMember hmethod.pass, run_pointerMember hobject.pass, hinside, houtside,
    ← replacesThis_iff]
  constructor
  · rintro ⟨inside, outside, hin, hout, h⟩
    cases hin
    cases hout
    exact h
  · exact fun h ↦ ⟨_, _, rfl, rfl, h⟩

private def objectA : Ident := ⟨"A".toList, isIdentifier_A⟩

private def objectP : Ident := ⟨"p".toList, isIdentifier_p⟩

private def objectX : Ident := ⟨"x".toList, isIdentifier_x⟩

private def objectM : Ident := ⟨"m".toList, isIdentifier_m⟩

private def objectF : Ident := ⟨"f".toList, isIdentifier_f⟩

/-- `class A { int x; void m() {} }`, with a `virtual` method or not. -/
def oneField (isVirtual : Bool) : Program where
  directives := []
  statements := [.classDecl objectA none
    [.field (.plain .int objectX), .method isVirtual .void objectM [] []]]

/-- A function of this name with one parameter that is a pointer to `A`. -/
def insideFunction (isVirtual : Bool) (name param : Str) : VState :=
  let s := afterFirstPass ⟨true⟩ (oneField isVirtual)
  let type : Ty := { base := .class, structName := objectA.text, isPointer := true }
  { s with
    firstPass := false
    symbolTable := { s.symbolTable with currentFunc := some { name, params := [(param, type)] } } }

theorem hasObject_insideFunction (isVirtual : Bool) (name param : Str) :
    HasObject (insideFunction isVirtual name param) param objectA := by
  have hscopes : (afterFirstPass ⟨true⟩ (oneField isVirtual)).symbolTable.scopes = [∅] := by
    cases isVirtual <;> rfl
  refine ⟨rfl, ⟨{ name := param, type :=
    { base := .class, structName := objectA.text, isPointer := true } }, ?_, rfl, rfl, rfl⟩⟩
  simp [SymbolTable.lookupSymbol, hscopes, SymbolTable.findInScopes, insideFunction]

theorem inMethod_insideFunction (isVirtual : Bool) :
    InMethod (insideFunction isVirtual (objectA.text ++ "_" ++ objectM.text) thisName.text)
      objectA :=
  ⟨hasObject_insideFunction .., ⟨_, objectM, rfl, rfl⟩⟩

/-- Without virtual methods `p->x` is `this->x` with `p` for `this`. -/
theorem member_access_iff_plain : ∃ inside outside,
    (visitExpr ⟨true⟩ (.pointerMember (.ident thisName) objectX)).run
      (insideFunction false (objectA.text ++ "_" ++ objectM.text) thisName.text) =
        .ok (inside, insideFunction false (objectA.text ++ "_" ++ objectM.text) thisName.text) ∧
    (visitExpr ⟨true⟩ (.pointerMember (.ident objectP) objectX)).run
      (insideFunction false objectF.text objectP.text) =
        .ok (outside, insideFunction false objectF.text objectP.text) ∧
    ReplacesThis objectP.text inside outside :=
  (member_access_iff ⟨true⟩ objectP objectX (inMethod_insideFunction false)
    (hasObject_insideFunction false objectF.text objectP.text) rfl).mpr
      (.inr ⟨Option.isNone_iff_eq_none.mp (by decide +kernel), by decide +kernel⟩)

/-- With a virtual method `p->x` is taken for a call. -/
theorem virtual_method_hides_field :
    memberAccess (insideFunction true (objectA.text ++ "_" ++ objectM.text) thisName.text)
        thisName.text objectX.text = "this->x" ∧
      memberAccess (insideFunction true objectF.text objectP.text) objectP.text objectX.text =
        "VIRTUAL_CALL:x:p" := by
  decide +kernel

end JBLang.Classes
