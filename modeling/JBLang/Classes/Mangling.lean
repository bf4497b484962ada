import JBLang.Classes.Registration

/-!
# Mangled names

A method gets the C name `Class_method`, and five places of `src/types/TypeSystem.cpp` and
`src/ast/TranspilerVisitor.cpp` take such a name apart at its first underscore.
-/

namespace JBLang.Classes

open JBLang.Base JBLang.Types JBLang.Ast

variable {s : VState}

/-- The parts of a name around its first underscore: the class as `visitPointerMemberExpr` reads
it, the method as the vtables and the override check read it. -/
def demangle (name : Str) : Option (Str × Str) :=
  (beforeFirst "_" name).map fun className ↦ (className, baseName name)

/-- A mangled name is taken apart into its parts when the class name has no underscore, and only
then. -/
theorem demangle_mangled_iff (className methodName : Str) :
    demangle (className ++ "_" ++ methodName) = some (className, methodName) ↔
      '_' ∉ className := by
  have hname : className ++ "_".toList ++ methodName = className ++ '_' :: methodName := by
    rw [List.append_assoc]
    rfl
  constructor
  · intro h
    obtain ⟨pre, hpre, heq⟩ := Option.map_eq_some_iff.mp h
    obtain ⟨rfl, -⟩ := Prod.mk.inj heq
    exact not_mem_of_beforeFirst hpre
  · intro h
    have hpre : beforeFirst "_".toList (className ++ '_' :: methodName) = some className :=
      beforeFirst_append_of_not_mem h methodName
    rw [demangle, baseName_mangled h, hname, hpre]
    rfl

/-- The names of the registered methods can be taken apart, so that different methods have
different names, and the slot that the vtables give to a method is the one a call reads. -/
structure Reversible (s : VState) : Prop where
  decoded : ∀ e ∈ s.registered, demangle e.method.name = some (e.className, e.methodName)
  distinct : ∀ e ∈ s.registered, ∀ e' ∈ s.registered, e.method.name = e'.method.name →
    e.className = e'.className ∧ e.methodName = e'.methodName
  slot : ∀ e ∈ s.registered, baseName e.method.name = e.methodName

/-- The names that a first pass registers can be taken apart exactly when no class that declares a
method has an underscore in its name. -/
theorem mangling_reversible_iff {gen : Codegen.CCodeGenerator} {p : Program}
    (hrun : (firstPassProgram gen p).run {} = .ok ((), s)) :
    Reversible s ↔ ∀ e ∈ s.registered, '_' ∉ e.className := by
  have hrecorded := (firstPass_recorded hrun).1
  constructor
  · intro h e he
    rw [← demangle_mangled_iff e.className e.methodName, ← hrecorded.method_name e he]
    exact h.decoded e he
  · intro h
    have decoded : ∀ e ∈ s.registered,
        demangle e.method.name = some (e.className, e.methodName) := by
      intro e he
      rw [hrecorded.method_name e he, demangle_mangled_iff]
      exact h e he
    refine ⟨decoded, ?_, ?_⟩
    · intro e he e' he' hname
      have hparts := decoded e he
      rw [hname, decoded e' he', Option.some.injEq, Prod.mk.injEq] at hparts
      exact ⟨hparts.1.symm, hparts.2.symm⟩
    · intro e he
      rw [hrecorded.method_name e he, baseName_mangled (h e he)]

private def classAb : Ident := ⟨"A_b".toList, by decide +kernel⟩

private def plainA : Ident := ⟨"A".toList, isIdentifier_A⟩

private def plainM : Ident := ⟨"m".toList, isIdentifier_m⟩

private def underscoreM : Ident := ⟨"b_m".toList, by decide +kernel⟩

/-- `class A { void b_m() {} }` -/
def underscoreMethod : Program where
  directives := []
  statements := [.classDecl plainA none [.method false .void underscoreM [] []]]

/-- `class A { void b_m() {} } class A_b { void m() {} }` -/
def collidingNames : Program where
  directives := []
  statements := [.classDecl plainA none [.method false .void underscoreM [] []],
    .classDecl classAb none [.method false .void plainM [] []]]

/-- An underscore in the name of a method does no harm. -/
theorem mangling_reversible_iff_underscoreMethod :
    Reversible (afterFirstPass ⟨true⟩ underscoreMethod) := by
  refine (mangling_reversible_iff (run_firstPassProgram (by decide +kernel))).mpr ?_
  decide +kernel

/-- Two methods of different classes get one name. -/
theorem collidingNames_not_reversible :
    ∃ s, (firstPassProgram ⟨true⟩ collidingNames).run {} = .ok ((), s) ∧ ¬ Reversible s := by
  have hnames : ((afterFirstPass ⟨true⟩ collidingNames).registered.map fun e ↦
      (e.className, e.methodName, e.method.name)) =
        [("A".toList, "b_m".toList, "A_b_m".toList), ("A_b".toList, "m".toList, "A_b_m".toList)] := by
    decide +kernel
  refine ⟨_, run_firstPassProgram (by decide +kernel), fun h ↦ ?_⟩
  match hr : (afterFirstPass ⟨true⟩ collidingNames).registered with
  | [x, y] =>
    rw [hr] at hnames
    simp only [List.map_cons, List.map_nil, List.cons.injEq, Prod.mk.injEq, and_true] at hnames
    obtain ⟨⟨hxC, -, hx⟩, hyC, -, hy⟩ := hnames
    have hclass := (h.distinct x (by simp [hr]) y (by simp [hr]) (hx.trans hy.symm)).1
    rw [hxC, hyC] at hclass
    exact absurd hclass (by decide +kernel)
  | [] => simp [hr] at hnames
  | [x] => simp [hr] at hnames
  | x :: y :: z :: l => simp [hr] at hnames

end JBLang.Classes
