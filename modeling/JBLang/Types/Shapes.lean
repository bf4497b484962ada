import JBLang.Types.TypeSystem
import JBLang.Base.Runs

/-!
# What is printed of a type

The printed text of a type depends on its shape only. Type systems whose tables differ in members
and parents resolve every text to types of the same shape.
-/

namespace JBLang.Types

open JBLang.Base

/-- The part of a type that `toString` reads. -/
structure Shape where
  base : BaseType
  isPointer : Bool
  array : Option (Str × List Int)
  structName : Str
deriving DecidableEq

/-- The shape of a type. -/
def Ty.shape (t : Ty) : Shape := ⟨t.base, t.isPointer, t.array, t.structName⟩

theorem Ty.toStr_eq_of_shape {t t' : Ty} (h : t.shape = t'.shape) : t.toStr = t'.toStr := by
  cases t
  cases t'
  obtain ⟨rfl, rfl, rfl, rfl⟩ := Shape.mk.inj h
  rfl

namespace TypeSystem

/-- The type names stand for types of the same shape. -/
structure SameShapes (ts ts' : TypeSystem) : Prop where
  typedefs : ∀ n : Str, ts.typedefs[n]?.map Ty.shape = ts'.typedefs[n]?.map Ty.shape
  structs : ∀ n : Str, ts.structs[n]?.map Ty.shape = ts'.structs[n]?.map Ty.shape
  classes : ∀ n : Str, ts.classes[n]?.map Ty.shape = ts'.classes[n]?.map Ty.shape

namespace SameShapes

variable {ts ts' ts'' : TypeSystem}

theorem refl (ts : TypeSystem) : SameShapes ts ts := ⟨fun _ ↦ rfl, fun _ ↦ rfl, fun _ ↦ rfl⟩

theorem trans (h : SameShapes ts ts') (h' : SameShapes ts' ts'') : SameShapes ts ts'' :=
  ⟨fun n ↦ (h.typedefs n).trans (h'.typedefs n), fun n ↦ (h.structs n).trans (h'.structs n),
    fun n ↦ (h.classes n).trans (h'.classes n)⟩

private theorem lookup_cases {t t' : Option Ty} (h : t.map Ty.shape = t'.map Ty.shape) :
    (t = none ∧ t' = none) ∨ ∃ u u', t = some u ∧ t' = some u' ∧ u.shape = u'.shape := by
  cases t with
  | none => exact .inl ⟨rfl, by simpa using h.symm⟩
  | some u => cases t' with
    | none => simp at h
    | some u' => exact .inr ⟨u, u', rfl, rfl, by simpa using h⟩

theorem resolveBase (h : SameShapes ts ts') (name source : Str) :
    (ts.resolveBase name source).map Ty.shape = (ts'.resolveBase name source).map Ty.shape := by
  unfold TypeSystem.resolveBase
  split_ifs
  · rfl
  · rfl
  · rfl
  · rfl
  · rcases lookup_cases (h.typedefs name) with ⟨h₁, h₂⟩ | ⟨u, u', h₁, h₂, hu⟩
    · rw [h₁, h₂]
      rcases lookup_cases (h.structs name) with ⟨h₃, h₄⟩ | ⟨u, u', h₃, h₄, hu⟩
      · rw [h₃, h₄]
        rcases lookup_cases (h.classes name) with ⟨h₅, h₆⟩ | ⟨u, u', h₅, h₆, hu⟩
        · rw [h₅, h₆]
        · rw [h₅, h₆]
          exact congrArg Except.ok hu
      · rw [h₃, h₄]
        exact congrArg Except.ok hu
    · rw [h₁, h₂]
      exact congrArg Except.ok hu

private theorem arrayType {t t' : Ty} (h : t.shape = t'.shape) (source : Str)
    (arrayStart : Option Str) :
    (TypeSystem.arrayType t source arrayStart).map Ty.shape =
      (TypeSystem.arrayType t' source arrayStart).map Ty.shape := by
  obtain ⟨hbase, hpointer, -, hname⟩ := Shape.mk.inj h
  cases arrayStart with
  | none => exact congrArg Except.ok h
  | some pre =>
    unfold TypeSystem.arrayType
    cases beforeFirst "]" source with
    | none => rfl
    | some preEnd =>
      simp only
      cases bracketSize ((source.drop (pre.length + 1)).take (preEnd.length - pre.length - 1)) with
      | error e => rfl
      | ok n =>
        refine congrArg Except.ok ?_
        simp [Ty.shape, Ty.setArray, hbase, hpointer, hname]

theorem resolveType (h : SameShapes ts ts') (text : Str) :
    (ts.resolveType text).map Ty.shape = (ts'.resolveType text).map Ty.shape := by
  have hbase := h.resolveBase ((beforeFirst "*" text).getD ((beforeFirst "[" text).getD text)) text
  simp only [TypeSystem.resolveType, translateType]
  generalize ts.resolveBase _ _ = r at hbase ⊢
  generalize ts'.resolveBase _ _ = r' at hbase ⊢
  cases r with
  | error e => cases r' with
    | error e' =>
      cases hbase
      rfl
    | ok u' => cases hbase
  | ok u => cases r' with
    | error e' => cases hbase
    | ok u' =>
      have hu : u.shape = u'.shape := Except.ok.inj hbase
      refine arrayType ?_ text _
      obtain ⟨hbase, hpointer, harray, hname⟩ := Shape.mk.inj hu
      split
      · simp [Ty.shape, Ty.setPointer, hbase, harray, hname]
      · exact hu

end SameShapes

/-- What a name stands for in one type system it stands for in the other, up to members and
parents. -/
def Preserves (ts ts' : TypeSystem) : Prop :=
  ∀ name t, ts.resolveBase name name = .ok t →
    ∃ t', ts'.resolveBase name name = .ok t' ∧ t'.shape = t.shape

/-- The text around a name is for the error message only. -/
theorem resolveBase_source {ts : TypeSystem} {name source : Str} {t : Ty} (source' : Str)
    (h : ts.resolveBase name source = .ok t) : ts.resolveBase name source' = .ok t := by
  unfold TypeSystem.resolveBase at h ⊢
  split_ifs at h ⊢
  · exact h
  · exact h
  · exact h
  · exact h
  · cases htypedef : ts.typedefs[name]? with
    | some u => simpa only [htypedef] using h
    | none => cases hstruct : ts.structs[name]? with
      | some u => simpa only [htypedef, hstruct] using h
      | none => cases hclass : ts.classes[name]? with
        | some u => simpa only [htypedef, hstruct, hclass] using h
        | none => simp [htypedef, hstruct, hclass] at h

theorem SameShapes.preserves {ts ts' : TypeSystem} (h : SameShapes ts ts') : Preserves ts ts' :=
  fun name _ ht ↦ exists_ok_of_map_eq (h.resolveBase name name) ht

namespace Preserves

variable {ts ts' ts'' : TypeSystem}

theorem trans (h : Preserves ts ts') (h' : Preserves ts' ts'') : Preserves ts ts'' := by
  intro name t ht
  obtain ⟨t', ht', hshape'⟩ := h name t ht
  obtain ⟨t'', ht'', hshape''⟩ := h' name t' ht'
  exact ⟨t'', ht'', hshape''.trans hshape'⟩

theorem resolveType (h : Preserves ts ts') {text : Str} {t : Ty} (ht : ts.resolveType text = .ok t) :
    ∃ t', ts'.resolveType text = .ok t' ∧ t'.shape = t.shape := by
  simp only [TypeSystem.resolveType, translateType] at ht ⊢
  generalize hname : (beforeFirst "*".toList text).getD
    ((beforeFirst "[".toList text).getD text) = name at ht ⊢
  cases hbase : ts.resolveBase name text with
  | error e =>
    rw [hbase] at ht
    cases ht
  | ok u =>
    obtain ⟨u', hu', hshape⟩ := h name u (resolveBase_source name hbase)
    have hbase' := resolveBase_source text hu'
    rw [hbase] at ht
    rw [hbase']
    obtain ⟨hb, hp, ha, hn⟩ := Shape.mk.inj hshape
    have hpointer : (if (beforeFirst "*".toList text).isSome then u'.setPointer else u').shape =
        (if (beforeFirst "*".toList text).isSome then u.setPointer else u).shape := by
      split
      · simp [Ty.shape, Ty.setPointer, hb, ha, hn]
      · exact hshape
    have harray := SameShapes.arrayType hpointer text (beforeFirst "[".toList text)
    exact exists_ok_of_map_eq harray.symm ht

end Preserves

/-- Both type systems have classes only, and those of the first are in the second. -/
def keepsClasses (ts ts' : TypeSystem) : Bool :=
  ts.typedefs.isEmpty && ts.structs.isEmpty && ts'.typedefs.isEmpty && ts'.structs.isEmpty &&
    ts.classes.toList.all fun c ↦ ts'.classes[c.1]?.map Ty.shape == some c.2.shape

theorem Preserves.of_keepsClasses {ts ts' : TypeSystem} (h : keepsClasses ts ts' = true) :
    Preserves ts ts' := by
  simp only [keepsClasses, Bool.and_eq_true, List.all_eq_true, beq_iff_eq] at h
  obtain ⟨⟨⟨⟨htypedefs, hstructs⟩, htypedefs'⟩, hstructs'⟩, hclasses⟩ := h
  intro name t ht
  have hnone : ∀ {m : NameMap Ty}, m.isEmpty = true → m[name]? = none :=
    fun hm ↦ Std.TreeMap.getElem?_of_isEmpty hm
  unfold resolveBase at ht ⊢
  split_ifs at ht ⊢
  · exact ⟨t, ht, rfl⟩
  · exact ⟨t, ht, rfl⟩
  · exact ⟨t, ht, rfl⟩
  · exact ⟨t, ht, rfl⟩
  · simp only [hnone htypedefs, hnone hstructs] at ht
    simp only [hnone htypedefs', hnone hstructs']
    cases hclass : ts.classes[name]? with
    | none =>
      rw [hclass] at ht
      cases ht
    | some u =>
      rw [hclass] at ht
      cases ht
      have hkept := hclasses (name, t) (Std.TreeMap.mem_toList_iff_getElem?_eq_some.mpr hclass)
      obtain ⟨t', ht', hshape⟩ := Option.map_eq_some_iff.mp hkept
      exact ⟨t', by rw [ht'], hshape⟩

end TypeSystem

end JBLang.Types
