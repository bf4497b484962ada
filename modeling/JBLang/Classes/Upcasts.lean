import JBLang.Classes.FieldPaths

/-!
# Conversions to an ancestor

An object is converted to an ancestor by the address of its embedded parent, in declarations and
assignments and as the receiver of an inherited method. The type of that address is read off the
emitted struct of the object's class.
-/

namespace JBLang.Classes

open JBLang.Base JBLang.Types JBLang.Ast JBLang.Codegen Relation

/-- What is printed around an object that is converted. -/
inductive Conversion where
  | same
  | toParent
deriving DecidableEq

/-- The text of a converted object. -/
def Conversion.text (expr : Str) : Conversion → Str
  | .same => expr
  | .toParent => "&((" ++ expr ++ ")->parent)"

/-- The class to whose struct the converted object points, by the emitted structs. -/
def Conversion.target (ts : TypeSystem) (C : Str) : Conversion → Option Str
  | .same => some C
  | .toParent => match memberNamed ts C "parent" with
    | some (.parent P) => some P
    | _ => none

/-- The conversion of an object of class `C` to class `A`. -/
def upcast (C A : Str) : Conversion := if A = C then .same else .toParent

/-- A pointer to an object of a class. -/
structure ClassPointer (t : Ty) (C : Str) : Prop where
  isClass : t.isClass = true
  isPointer : t.isPointer = true
  name : t.structName = C
  array : t.array = none

variable {ts : TypeSystem} {C A : Str} {s : VState}

variable {var : Variable} {t : Ty}

theorem ClassPointer.toStr_eq (h : ClassPointer t C) : t.toStr = "struct " ++ C ++ "*" := by
  simp only [Ty.toStr, h.isClass, h.isPointer, h.name, h.array, Bool.or_true, if_true]

theorem generateCast_eq_upcast {t' : Ty} (h : ClassPointer t C) (h' : ClassPointer t' A)
    (expr : Str) : generateCast expr t t' = (upcast C A).text expr := by
  simp only [generateCast, h.isPointer, h'.isPointer, h.isClass, h'.isClass, Bool.and_self, if_true,
    h.name, h'.name, upcast, eq_comm (a := C)]
  split <;> rfl

/-- An object is compatible with its ancestors and its own class. -/
theorem isCompatible_of_reflTransGen (h : Acyclic ts.parentOf) {t' : Ty} (ht : ClassPointer t C)
    (ht' : ClassPointer t' A) (hCA : ReflTransGen (Follows ts.parentOf) C A) :
    ts.isCompatible t t' = .ok true := by
  unfold TypeSystem.isCompatible
  rcases reflTransGen_iff_eq_or_transGen.mp hCA with rfl | hup
  · rw [if_pos (by rw [ht.toStr_eq, ht'.toStr_eq])]
    rfl
  · split
    · rfl
    · simp only [ht.isPointer, ht'.isPointer, ht.isClass, ht'.isClass, Bool.and_self, if_true,
        ht.name, ht'.name]
      exact (TypeSystem.isSubclassOf_iff h C A).1.mpr hup

theorem run_castTo_upcast (h : Acyclic s.typeSystem.parentOf)
    (hCA : ReflTransGen (Follows s.typeSystem.parentOf) C A) {toType : Ty}
    (hvar : ClassPointer var.type C) (hto : ClassPointer toType A) (code : Str) :
    (castTo code (some var) toType).run s = .ok ((upcast C A).text code, s) := by
  have hcompatible := isCompatible_of_reflTransGen h hvar hto hCA
  rw [← generateCast_eq_upcast hvar hto]
  simp [castTo, askTypes, hcompatible]
  rfl

theorem run_receiverClass {v : Str} (hvar : s.symbolTable.lookupSymbol v = some var)
    (hclass : ClassPointer var.type C) : (receiverClass v).run s = .ok (C, s) := by
  refine run_bind_eq_ok.mpr ⟨some var, s, by rw [← hvar]; rfl, ?_⟩
  dsimp only
  rw [if_pos hclass.isClass, hclass.name]
  rfl

/-- The receiver of a method that is not virtual. -/
theorem run_methodCall_upcast (gen : CCodeGenerator) {s' : VState} (hs : s.firstPass = false)
    {v m : Ident} {args : List Expr} {texts : List Str} {method : Function}
    (hvar : s.symbolTable.lookupSymbol v.text = some var) (hclass : ClassPointer var.type C)
    (hfind : findMethod s.typeSystem C m.text = .ok (A, method)) (hvirtual : method.isVirtual = false)
    (hargs : (visitArgs gen args).run s = .ok (texts, s')) :
    (visitExpr gen (.methodCall (.ident v) m args)).run s =
      .ok (generateFunctionCall method.name ((upcast C A).text v.text :: texts), s') := by
  have hreceiver : (if A ≠ C then "&((" ++ v.text ++ ")->parent)" else v.text) =
      (upcast C A).text v.text := by
    unfold upcast
    by_cases hAC : A = C
    · rw [if_neg (not_not.mpr hAC), if_pos hAC]
      rfl
    · rw [if_pos hAC, if_neg hAC]
      rfl
  have hfound : (askTypes fun ts ↦ findMethod ts C m.text).run s = .ok ((A, method), s) := by
    simp [askTypes, hfind]
  have hcode : (methodCallCode v.text m.text C A method texts).run s' =
      .ok (generateFunctionCall method.name ((upcast C A).text v.text :: texts), s') := by
    unfold methodCallCode
    rw [if_neg (Bool.eq_false_iff.mp hvirtual), ← hreceiver]
    rfl
  rw [visitExpr]
  refine run_bind_eq_ok.mpr ⟨false, s, by rw [← hs]; rfl, ?_⟩
  rw [if_neg Bool.false_ne_true]
  refine run_bind_eq_ok.mpr ⟨v.text, s, rfl, ?_⟩
  refine run_bind_eq_ok.mpr ⟨C, s, run_receiverClass hvar hclass, ?_⟩
  refine run_bind_eq_ok.mpr ⟨(A, method), s, hfound, ?_⟩
  exact run_bind_eq_ok.mpr ⟨texts, s', hargs, hcode⟩

/-- The struct of a class has its parent as a member of that name unless a field is called so. -/
theorem target_toParent_iff (ht : ts.classes[C]? = some t) :
    Conversion.toParent.target ts C = some A ↔
      ts.parentOf C = some A ∧ ¬ ClassDeclares ts "parent" C := by
  have hmember : Conversion.toParent.target ts C = some A ↔
      memberNamed ts C "parent" = some (.parent A) := by
    simp only [Conversion.target]
    split
    · next P hP => rw [hP, Option.some.injEq, Option.some.injEq, LayoutMember.parent.injEq]
    · next hne => exact iff_of_false nofun fun hP ↦ hne A hP
  rw [hmember, memberNamed_parent_iff ht, classDeclares_iff ht, TypeSystem.parentOf_of_class ht,
    ← and_assoc]
  cases t.hasParent with
  | false => simp
  | true => simp

/-- The conversions to an ancestor or the own class that are emitted for a cast and for a receiver,
and where they have the type of the ancestor. -/
theorem upcast_typed_iff (gen : CCodeGenerator) (hs : s.firstPass = false)
    (h : Acyclic s.typeSystem.parentOf) (hCA : ReflTransGen (Follows s.typeSystem.parentOf) C A) :
    (∀ {var : Variable} {toType : Ty} (code : Str), ClassPointer var.type C →
      ClassPointer toType A →
      (castTo code (some var) toType).run s = .ok ((upcast C A).text code, s)) ∧
    (∀ {v m : Ident} {var : Variable} {args : List Expr} {texts : List Str} {method : Function}
      {s' : VState}, s.symbolTable.lookupSymbol v.text = some var → ClassPointer var.type C →
      findMethod s.typeSystem C m.text = .ok (A, method) → method.isVirtual = false →
      (visitArgs gen args).run s = .ok (texts, s') →
      (visitExpr gen (.methodCall (.ident v) m args)).run s =
        .ok (generateFunctionCall method.name ((upcast C A).text v.text :: texts), s')) ∧
    (A = C → upcast C A = .same) ∧
    ((upcast C A).target s.typeSystem C = some A ↔ A = C ∨
      (s.typeSystem.parentOf C = some A ∧ ¬ ClassDeclares s.typeSystem "parent" C)) := by
  refine ⟨fun code hvar hto ↦ run_castTo_upcast h hCA hvar hto code,
    fun hvar hclass hfind hvirtual hargs ↦
      run_methodCall_upcast gen hs hvar hclass hfind hvirtual hargs, fun hAC ↦ if_pos hAC, ?_⟩
  by_cases hAC : A = C
  · rw [upcast, if_pos hAC, hAC]
    exact iff_of_true rfl (.inl rfl)
  · have hup := (reflTransGen_iff_eq_or_transGen.mp hCA).resolve_left hAC
    obtain ⟨P, hP, -⟩ := TransGen.head'_iff.mp hup
    obtain ⟨t, ht, -⟩ := TypeSystem.parentOf_eq_some hP
    rw [upcast, if_neg hAC, target_toParent_iff ht]
    exact (or_iff_right hAC).symm

/-- The second pass with these types. -/
private def secondPassWith (ts : TypeSystem) : VState := { typeSystem := ts, firstPass := false }

private def classVariable (name C : Str) : Variable :=
  { name, type := (typeOf fieldsOfThree C).setPointer }

private theorem secondPassWith_types : (secondPassWith ts).typeSystem = ts := rfl

/-- From `B` to its parent `A`. -/
theorem upcast_typed_iff_parent :
    (upcast "B" "A").target (typesOf fieldsOfThree) "B" = some "A".toList := by
  have hnot : ¬ ClassDeclares (typesOf fieldsOfThree) "parent" "B" := by decide +kernel
  have hiff := upcast_typed_iff (C := "B") (A := "A") (s := secondPassWith (typesOf fieldsOfThree))
    ⟨true⟩ rfl
  rw [secondPassWith_types] at hiff
  exact (hiff fieldsOfThree_hierarchy.acyclic (.single fieldsOfThree_second)).2.2.2.mpr
    (.inr ⟨fieldsOfThree_second, hnot⟩)

/-- A variable of class `C` that is converted to `A`, two links above, becomes a pointer to `B`. -/
theorem upcast_stops_at_parent :
    Acyclic (typesOf fieldsOfThree).parentOf ∧
      TransGen (Follows (typesOf fieldsOfThree).parentOf) "C" "A" ∧
      ((castTo "c" (classVariable "c" "C") (classVariable "a" "A").type).run
        (secondPassWith (typesOf fieldsOfThree))).toOption.map Prod.fst = some "&((c)->parent)".toList ∧
      Conversion.toParent.target (typesOf fieldsOfThree) "C" = some "B".toList := by
  refine ⟨fieldsOfThree_hierarchy.acyclic,
    .head fieldsOfThree_third (.single fieldsOfThree_second), ?_, ?_⟩
  · decide +kernel
  · decide +kernel

end JBLang.Classes
