import JBLang.Classes.Registration
import JBLang.Classes.VTables
import Mathlib.Data.List.Nodup

/-!
# Virtual dispatch

The walks along the parent links that decide a virtual call are compared with each other: the
override check at a declaration, the slots and entries of the vtables, the prototypes, and the
lookup at a call.
-/

namespace JBLang.Classes

open JBLang.Base JBLang.Types JBLang.Ast Relation

variable {s : VState} {ts : TypeSystem}

/-- No class declares two methods of one name. -/
def DistinctMethods (s : VState) : Prop :=
  (s.registered.map fun e ↦ (e.className, e.methodName)).Nodup

/-- `e` is the method `m` of the nearest class on the chain from `D` upwards that declares one. -/
def NearestMethod (s : VState) (D m : Str) (e : MethodEntry) : Prop :=
  e ∈ s.registered ∧ e.methodName = m ∧
    ∃ before after, Chain s.typeSystem.parentOf D (before ++ e.className :: after) ∧
      ∀ z ∈ s.registered, z.methodName = m → z.className ∉ before

/-- A virtual call of `m` on an object of class `D` reaches the nearest method. -/
structure DispatchesTo (s : VState) (D m : Str) (e : MethodEntry) : Prop where
  nearest : NearestMethod s D m e
  slot : ∃ slots, s.typeSystem.vtableSlots = .ok slots ∧ m ∈ slots
  entry : ∃ entries, s.typeSystem.vtableEntries D = .ok entries ∧
    entries.filter (·.1 = m) = [(m, e.className ++ "_" ++ m)]
  virtual : e.method.isVirtual = true
  prototype : ∃ protos, vtablePrototypes s.typeSystem s.classNames [] = .ok protos ∧
    protos.filter (·.name = e.className ++ "_" ++ m) = [e.method]

/-- Where the lookup of a call goes from a class: nowhere if the class declares the method, else
to the parent of what its name resolves to. -/
def lookupNext (ts : TypeSystem) (m C : Str) : Option Str :=
  match ownMethod ts m C, ts.resolveType C with
  | none, .ok t => if t.hasParent then some t.parentClass else none
  | _, _ => none

/-- Where an ancestor of a method's class declares the method as `virtual`, one such declaration
comes before the method or the method's own text says `virtual`. -/
def OverridesSeen (s : VState) : Prop :=
  ∀ earlier e later, s.registered = earlier ++ e :: later →
    MarkedBefore s.typeSystem s.registered e →
    e.saysVirtual = true ∨ MarkedBefore s.typeSystem earlier e

/-- A lookup that leaves the chain of its class, by way of a class whose name also names another
type, meets a virtual method only if there is one on the chain. -/
def LookupsOnChain (s : VState) : Prop :=
  ∀ C ∈ s.classNames, ∀ earlier e later, s.registered = earlier ++ e :: later →
    ReflTransGen (Follows (lookupNext s.typeSystem e.methodName)) C e.className →
    e.saysVirtual = true ∨ MarkedBefore s.typeSystem earlier e →
    ∃ z ∈ s.registered, z.methodName = e.methodName ∧ z.saysVirtual = true ∧
      ReflTransGen (Follows s.typeSystem.parentOf) C z.className

/-! ### The lookup of a call -/

variable {C m : Str}

variable {f : Function} {X : Str}

/-- A lookup that returns has walked to the class that declares the method. -/
theorem findMethodFrom_ok {C₀ : Str} {fuel : Nat}
    (h : findMethodFrom ts C₀ m fuel C = .ok (X, f)) :
    ReflTransGen (Follows (lookupNext ts m)) C X ∧ ownMethod ts m X = some f := by
  induction fuel generalizing C with
  | zero => cases h
  | succ fuel ih =>
    rw [findMethodFrom] at h
    cases hown : ownMethod ts m C with
    | some method =>
      rw [hown] at h
      cases h
      exact ⟨.refl, hown⟩
    | none => cases ht : ts.resolveType C with
      | error e => simp [hown, ht] at h
      | ok t => cases hp : t.hasParent with
        | false => simp [hown, ht, hp] at h
        | true =>
          have hnext : lookupNext ts m C = some t.parentClass := by simp [lookupNext, hown, ht, hp]
          simp only [hown, ht, hp, if_true] at h
          obtain ⟨hreach, hX⟩ := ih h
          exact ⟨.head hnext hreach, hX⟩

/-- A lookup returns when its walk leads to a class that declares the method and is not too
long. -/
theorem findMethodFrom_of_chain {C₀ : Str} {l : List Str} (hl : Chain (lookupNext ts m) C l)
    (hX : X ∈ l) (hf : ownMethod ts m X = some f) {fuel : Nat}
    (hfuel : l.length ≤ fuel) : findMethodFrom ts C₀ m fuel C = .ok (X, f) := by
  revert hX
  refine hl.walk hfuel (fun n C _ hX ↦ ?_) fun n C P l h _ ih hX ↦ ?_
  · obtain rfl := List.mem_singleton.mp hX
    rw [findMethodFrom, hf]
  · unfold lookupNext at h
    split at h
    next t hown ht =>
      split at h
      next hp =>
        cases h
        have hX' : X ∈ l := by
          rcases List.mem_cons.mp hX with rfl | hX
          · rw [hown] at hf
            cases hf
          · exact hX
        rw [findMethodFrom, hown, ht]
        simpa only [hp, if_true] using ih hX'
      next => cases h
    next => cases h

/-- A lookup goes on from a class to a class, by a name of the tables. -/
private theorem lookupNext_spec (h : Recorded s) {P : Str} (hC : C ∈ s.classNames)
    (hP : lookupNext s.typeSystem m C = some P) :
    P ∈ s.classNames ∧ C ∈ s.typeSystem.typedefs.keys ++ s.typeSystem.structs.keys ++
      s.typeSystem.classes.keys := by
  unfold lookupNext at hP
  split at hP
  next t _ ht =>
    split at hP
    next hp =>
      cases hP
      constructor
      · obtain ⟨t', ht', hp', heq⟩ := resolveType_parent ht hp
        rw [← h.classes_iff, ← heq]
        exact h.parent_declared t' ht' hp'
      · have hid := h.identifier C hC
        rw [TypeSystem.resolveType_plain _ (not_mem_identifier hid (by decide) (by decide))
          (not_mem_identifier hid (by decide) (by decide))] at ht
        simp only [List.mem_append, Std.TreeMap.mem_keys, Std.TreeMap.mem_iff_isSome_getElem?]
        rcases resolveBase_lookup ht hp with hn | hn | hn <;> simp [hn]
    next => cases hP
  next => cases hP

/-- The walks of lookups are short enough. -/
theorem findMethod_of_reach (h : Recorded s) (hC : C ∈ s.classNames)
    (hreach : ReflTransGen (Follows (lookupNext s.typeSystem m)) C X)
    (hf : ownMethod s.typeSystem m X = some f) : findMethod s.typeSystem C m = .ok (X, f) := by
  have hlast : lookupNext s.typeSystem m X = none := by simp [lookupNext, hf]
  obtain ⟨l, hl⟩ := Chain.of_reflTransGen hreach hlast
  have hmem : ∀ D ∈ l, D ∈ s.classNames := by
    intro D hD
    have hCD := hl.mem_iff.mp hD
    induction hCD with
    | refl => exact hC
    | tail hCD' hstep ih => exact (lookupNext_spec h (ih (hl.mem_iff.mpr hCD')) hstep).1
  refine findMethodFrom_of_chain hl (hl.mem_iff.mpr hreach) hf ?_
  have hlen := hl.length_le fun D hD P hP ↦ (lookupNext_spec h (hmem D hD) hP).2
  simpa [TypeSystem.walkBound, Std.TreeMap.length_keys, Nat.add_assoc] using hlen

/-! ### Methods by name -/

/-- A state after the first pass over a program with distinct class and method names and without
cyclic parents. -/
structure WellNamed (s : VState) : Prop where
  recorded : Recorded s
  plain : PlainClassNames s
  marked : VirtualAsMarked s
  distinct : DistinctMethods s
  hierarchy : s.typeSystem.Hierarchy

namespace WellNamed

variable {D m : Str} {l : List Str} {e z : MethodEntry}

theorem eq_of_names (h : WellNamed s) (he : e ∈ s.registered) (hz : z ∈ s.registered)
    (hC : e.className = z.className) (hm : e.methodName = z.methodName) : e = z :=
  List.inj_on_of_nodup_map h.distinct he hz (by rw [hC, hm])

theorem no_underscore (h : WellNamed s) (he : e ∈ s.registered) : '_' ∉ e.className :=
  h.plain.no_underscore _ (h.recorded.method_class e he)

theorem eq_of_method_name (h : WellNamed s) (he : e ∈ s.registered) (hz : z ∈ s.registered)
    (hname : e.method.name = z.method.name) : e = z := by
  rw [h.recorded.method_name e he, h.recorded.method_name z hz] at hname
  obtain ⟨hC, hm⟩ := mangled_inj (h.no_underscore he) (h.no_underscore hz) hname
  exact h.eq_of_names he hz hC hm

theorem baseName_eq (h : WellNamed s) (he : e ∈ s.registered) :
    baseName e.method.name = e.methodName := by
  rw [h.recorded.method_name e he, baseName_mangled (h.no_underscore he)]

/-- The lookup of a call finds a declared method in its class. -/
theorem ownMethod_eq (h : WellNamed s) (he : e ∈ s.registered) :
    ownMethod s.typeSystem e.methodName e.className = some e.method := by
  have hmem := h.recorded.mem_getClassMethods.mpr ⟨e, he, rfl, rfl⟩
  cases hfind : ownMethod s.typeSystem e.methodName e.className with
  | none =>
    have := List.find?_eq_none.mp hfind e.method hmem
    simp [h.recorded.method_name e he] at this
  | some f =>
    obtain ⟨z, hz, -, rfl⟩ := h.recorded.mem_getClassMethods.mp (List.mem_of_find?_eq_some hfind)
    have hname := List.find?_some hfind
    rw [decide_eq_true_eq, ← h.recorded.method_name e he] at hname
    rw [h.eq_of_method_name hz he hname]

/-- The search for an implementation finds a declared method in its class. -/
theorem ownImplementation_eq_some {name : Str} (h : WellNamed s) :
    ownImplementation s.typeSystem m C = some name ↔
      ∃ e ∈ s.registered, e.className = C ∧ e.methodName = m ∧ e.method.name = name := by
  unfold ownImplementation
  constructor
  · intro hown
    obtain ⟨f, hfind, rfl⟩ := Option.map_eq_some_iff.mp hown
    obtain ⟨e, he, hC, rfl⟩ := h.recorded.mem_getClassMethods.mp (List.mem_of_find?_eq_some hfind)
    have hm := List.find?_some hfind
    rw [decide_eq_true_eq, h.baseName_eq he] at hm
    exact ⟨e, he, hC, hm, rfl⟩
  · rintro ⟨e, he, rfl, rfl, rfl⟩
    have hmem := h.recorded.mem_getClassMethods.mpr ⟨e, he, rfl, rfl⟩
    cases hfind : (s.typeSystem.getClassMethods e.className).find?
        fun method ↦ baseName method.name = e.methodName with
    | none =>
      have := List.find?_eq_none.mp hfind e.method hmem
      simp [h.baseName_eq he] at this
    | some f =>
      obtain ⟨z, hz, hC, rfl⟩ := h.recorded.mem_getClassMethods.mp (List.mem_of_find?_eq_some hfind)
      have hm := List.find?_some hfind
      rw [decide_eq_true_eq, h.baseName_eq hz] at hm
      rw [h.eq_of_names hz he hC hm]
      rfl

/-- Where a class of the chain declares the method, the nearest one is found. -/
theorem exists_nearest (h : WellNamed s) (hl : Chain s.typeSystem.parentOf D l)
    (hz : z ∈ s.registered) (hm : z.methodName = m) (hzl : z.className ∈ l) :
    ∃ e, NearestMethod s D m e ∧
      l.findSome? (ownImplementation s.typeSystem m) = some e.method.name := by
  cases hfind : l.findSome? (ownImplementation s.typeSystem m) with
  | none =>
    have hnone := List.findSome?_eq_none_iff.mp hfind _ hzl
    rw [h.ownImplementation_eq_some.mpr ⟨z, hz, rfl, hm, rfl⟩] at hnone
    cases hnone
  | some name =>
    obtain ⟨before, C, after, rfl, hC, hbefore⟩ := List.findSome?_eq_some_iff.mp hfind
    obtain ⟨e, he, rfl, hme, rfl⟩ := h.ownImplementation_eq_some.mp hC
    refine ⟨e, ⟨he, hme, before, after, hl, fun y hy hmy hyb ↦ ?_⟩, rfl⟩
    have hnone := hbefore _ hyb
    rw [h.ownImplementation_eq_some.mpr ⟨y, hy, rfl, hmy, rfl⟩] at hnone
    cases hnone

/-- What is above the nearest method on its chain is an ancestor of its class. -/
theorem transGen_of_nearest (h : WellNamed s) (hl : Chain s.typeSystem.parentOf D l)
    (he : NearestMethod s D m e) (hz : z ∈ s.registered) (hm : z.methodName = m)
    (hzl : z.className ∈ l) :
    z = e ∨ TransGen (Follows s.typeSystem.parentOf) e.className z.className := by
  obtain ⟨hmem, hme, before, after, hchain, hbefore⟩ := he
  rw [hl.unique hchain, List.mem_append, or_iff_right (hbefore z hz hm)] at hzl
  rcases reflTransGen_iff_eq_or_transGen.mp ((hchain.suffix rfl).mem_iff.mp hzl) with heq | hup
  · exact .inl (h.eq_of_names hz hmem heq (hm.trans hme.symm))
  · exact .inr hup

/-- A class that declares the method is the nearest one to itself. -/
theorem nearest_of_own (h : WellNamed s) (hz : z ∈ s.registered)
    (he : NearestMethod s z.className z.methodName e) : e = z := by
  obtain ⟨l, hl, -⟩ := h.hierarchy.exists_chain z.className
  rcases h.transGen_of_nearest hl he hz rfl hl.mem_self with rfl | hup
  · rfl
  · obtain ⟨-, -, before, after, hchain, -⟩ := he
    have hdown := hchain.mem_iff.mp (List.mem_append_right before (List.mem_cons_self ..))
    exact absurd (hup.trans_left hdown) (h.hierarchy.acyclic _)

/-! ### Vtables and prototypes -/

theorem getAllVirtualMethods_eq (h : WellNamed s) :
    ∃ chain : Str → List Str, (∀ C, Chain s.typeSystem.parentOf C (chain C)) ∧
      ∀ C ∈ s.typeSystem.classes, s.typeSystem.getAllVirtualMethods C =
        .ok (s.typeSystem.virtualsOn (chain C)) := by
  choose chain hchain _ using h.hierarchy.exists_chain
  exact ⟨chain, hchain, fun C hC ↦ h.hierarchy.getAllVirtualMethods_eq hC (hchain C)⟩

/-- A virtual method has one prototype. -/
theorem prototype (h : WellNamed s) (he : e ∈ s.registered) (hv : e.method.isVirtual = true) :
    ∃ protos, vtablePrototypes s.typeSystem s.classNames [] = .ok protos ∧
      protos.filter (·.name = e.method.name) = [e.method] := by
  obtain ⟨chain, hchain, hvirtuals⟩ := h.getAllVirtualMethods_eq
  obtain ⟨protos, heq, hprotos⟩ := vtablePrototypes_eq
    (fun C ↦ s.typeSystem.virtualsOn (chain C)) s.classNames
    (fun C hC ↦ hvirtuals C ((h.recorded.classes_iff C).mpr hC)) [] List.nodup_nil
  refine ⟨protos, heq, ?_⟩
  -- Whatever has this name among the prototypes is a registered method, and so this one.
  have sound : ∀ g ∈ protos, ∃ y ∈ s.registered, y.method = g := by
    intro g hg
    rcases hprotos.sound g hg with hg | hg
    · cases hg
    · obtain ⟨C, -, hg⟩ := List.mem_flatMap.mp hg
      have hgC : ∃ D, g ∈ s.typeSystem.getClassMethods D := by
        rcases List.mem_append.mp hg with hg | hg
        · obtain ⟨-, D, -, hgD⟩ := TypeSystem.mem_virtualsOn hg
          exact ⟨D, hgD⟩
        · exact ⟨C, (List.mem_filter.mp hg).1⟩
      obtain ⟨D, hgD⟩ := hgC
      obtain ⟨y, hy, -, rfl⟩ := h.recorded.mem_getClassMethods.mp hgD
      exact ⟨y, hy, rfl⟩
  have hmem : e.method ∈ protos := by
    obtain ⟨g, hg, hname⟩ := TypeSystem.exists_mem_virtualsOn (hchain e.className).mem_self
      (h.recorded.mem_getClassMethods.mpr ⟨e, he, rfl, rfl⟩) hv
    have hnames := (hprotos.names e.method.name).mpr (.inr ⟨g, List.mem_flatMap.mpr
      ⟨e.className, h.recorded.method_class e he, List.mem_append_left _ hg⟩, hname⟩)
    obtain ⟨f, hf, hfname⟩ := List.mem_map.mp hnames
    obtain ⟨y, hy, rfl⟩ := sound f hf
    rwa [h.eq_of_method_name hy he hfname] at hf
  exact filter_key_eq_singleton hprotos.nodup hmem

/-- Where a method of the chain is marked and the nearest one is virtual, calls reach it. -/
theorem dispatchesTo (h : WellNamed s) (hl : Chain s.typeSystem.parentOf D l)
    (hD : D ∈ s.typeSystem.classes) (hz : z ∈ s.registered) (hm : z.methodName = m)
    (hmarked : z.saysVirtual = true) (hzl : z.className ∈ l) :
    ∃ e, NearestMethod s D m e ∧ (e.method.isVirtual = true → DispatchesTo s D m e) := by
  obtain ⟨e, hnearest, hfind⟩ := h.exists_nearest hl hz hm hzl
  refine ⟨e, hnearest, fun hv ↦ ?_⟩
  have hname : e.method.name = e.className ++ "_" ++ m := by
    rw [h.recorded.method_name e hnearest.1, hnearest.2.1]
  obtain ⟨before, after, hsplit⟩ := List.append_of_mem hz
  have hcollected := (exists_virtualsOn_iff h.recorded (m := m) hl).mpr
    ⟨z, hz, (h.marked before z after hsplit).mpr (.inl hmarked),
      (h.plain.baseName_eq h.recorded hz).trans hm, hl.mem_iff.mp hzl⟩
  obtain ⟨chain, hchain, hvirtuals⟩ := h.getAllVirtualMethods_eq
  obtain ⟨slots, hslots, hmem⟩ := vtableSlots_eq _ hvirtuals
  obtain ⟨entries, hentries, hnodup, hentry⟩ := vtableEntries_eq h.hierarchy hD hl
  refine ⟨hnearest, ⟨slots, hslots, (hmem m).mpr ⟨D, hD, ?_⟩⟩, ⟨entries, hentries, ?_⟩, hv, ?_⟩
  · rwa [(hchain D).unique hl]
  · refine filter_key_eq_singleton (x := (m, e.className ++ "_" ++ m)) hnodup
      ((hentry _ _).mpr ⟨hcollected, ?_⟩)
    rw [hfind, hname]
    rfl
  · rw [← hname]
    exact h.prototype hnearest.1 hv

end WellNamed

/-! ### Calls -/

/-- Every virtual call dispatches to the nearest method: whenever the lookup for `m` on static
class `C` ends at a virtual method, calls on objects of `C` and of its descendants do. -/
def VirtualDispatch (s : VState) : Prop :=
  ∀ C ∈ s.classNames, ∀ m X f, findMethod s.typeSystem C m = .ok (X, f) → f.isVirtual = true →
    ∀ D, ReflTransGen (Follows s.typeSystem.parentOf) D C → ∃ e, DispatchesTo s D m e

/-- A descendant of a class is a class. -/
private theorem mem_classes_of_descendant {D : Str} (hC : C ∈ ts.classes)
    (h : ReflTransGen (Follows ts.parentOf) D C) : D ∈ ts.classes := by
  rcases ReflTransGen.cases_head h with rfl | ⟨P, hP, -⟩
  · exact hC
  · obtain ⟨t, ht, -⟩ := TypeSystem.parentOf_eq_some hP
    exact TypeSystem.mem_classes_of_getElem? ht

private theorem virtualDispatch_of (h : WellNamed s) (hover : OverridesSeen s)
    (hlook : LookupsOnChain s) : VirtualDispatch s := by
  intro C hC m X f hfind hv D hDC
  obtain ⟨hreach, hown⟩ := findMethodFrom_ok hfind
  -- The method that the lookup ends at.
  obtain ⟨x, hx, rfl, rfl, rfl⟩ : ∃ x ∈ s.registered, x.className = X ∧ x.methodName = m ∧
      x.method = f := by
    obtain ⟨x, hx, hxC, rfl⟩ :=
      h.recorded.mem_getClassMethods.mp (List.mem_of_find?_eq_some hown)
    have hname := List.find?_some hown
    rw [decide_eq_true_eq, h.recorded.method_name x hx, hxC] at hname
    exact ⟨x, hx, hxC, List.append_cancel_left hname, rfl⟩
  obtain ⟨earlier, later, hsplit⟩ := List.append_of_mem hx
  obtain ⟨z, hz, hm, hmarked, hup⟩ := hlook C hC earlier x later hsplit hreach
    ((h.marked earlier x later hsplit).mp hv)
  obtain ⟨l, hl, -⟩ := h.hierarchy.exists_chain D
  have hzl := hl.mem_iff.mpr (hDC.trans hup)
  obtain ⟨e, hnearest, hdispatch⟩ := h.dispatchesTo hl
    (mem_classes_of_descendant ((h.recorded.classes_iff C).mpr hC) hDC) hz hm hmarked hzl
  refine ⟨e, hdispatch ?_⟩
  obtain ⟨earlier', later', hsplit'⟩ := List.append_of_mem hnearest.1
  rw [h.marked earlier' e later' hsplit']
  rcases h.transGen_of_nearest hl hnearest hz hm hzl with rfl | habove
  · exact .inl hmarked
  · exact hover earlier' e later' hsplit' ⟨z, hz, hm.trans hnearest.2.1.symm, hmarked, habove⟩

private theorem overridesSeen_of (h : WellNamed s) (hdisp : VirtualDispatch s) :
    OverridesSeen s := by
  rintro earlier e later hsplit ⟨z, hz, hm, hmarked, hup⟩
  have he : e ∈ s.registered := by rw [hsplit]; simp
  obtain ⟨earlier', later', hsplit'⟩ := List.append_of_mem hz
  -- A call on the ancestor finds the ancestor's own method, on an object of `e`'s class.
  have hfind := findMethod_of_reach h.recorded (h.recorded.method_class z hz) .refl
    (h.ownMethod_eq hz)
  obtain ⟨e', hdispatch⟩ := hdisp z.className (h.recorded.method_class z hz) z.methodName _ _ hfind
    ((h.marked earlier' z later' hsplit').mpr (.inl hmarked)) e.className hup.to_reflTransGen
  rw [hm] at hdispatch
  rw [← h.marked earlier e later hsplit, ← h.nearest_of_own he hdispatch.nearest]
  exact hdispatch.virtual

private theorem lookupsOnChain_of (h : WellNamed s) (hdisp : VirtualDispatch s) :
    LookupsOnChain s := by
  intro C hC earlier e later hsplit hreach hmarked
  have he : e ∈ s.registered := by rw [hsplit]; simp
  have hfind := findMethod_of_reach h.recorded hC hreach (h.ownMethod_eq he)
  obtain ⟨e', hdispatch⟩ := hdisp C hC _ _ _ hfind
    ((h.marked earlier e later hsplit).mpr hmarked) C .refl
  obtain ⟨he', hm, before, after, hchain, -⟩ := hdispatch.nearest
  have hup := hchain.mem_iff.mp (List.mem_append_right before (List.mem_cons_self ..))
  obtain ⟨earlier', later', hsplit'⟩ := List.append_of_mem he'
  rcases (h.marked earlier' e' later' hsplit').mp hdispatch.virtual with hmarked | ⟨z, hz, hzm, hmarked, hz'⟩
  · exact ⟨e', he', hm, hmarked, hup⟩
  · exact ⟨z, by rw [hsplit']; exact List.mem_append_left _ hz, hzm.trans hm, hmarked,
      hup.trans hz'.to_reflTransGen⟩

/-- After the first pass over a program with distinct class names without underscores, distinct
method names in each class and no cyclic parents, virtual calls dispatch to the nearest method
exactly if every override is declared after a method that it overrides or says `virtual` itself,
and no lookup is led off its chain to a virtual method that the chain does not have. -/
theorem virtual_dispatch_iff {gen : Codegen.CCodeGenerator} {p : Program}
    (hrun : (firstPassProgram gen p).run {} = .ok ((), s)) (hnames : PlainClassNames s)
    (hmethods : DistinctMethods s) (hacyclic : Acyclic s.typeSystem.parentOf) :
    VirtualDispatch s ↔ OverridesSeen s ∧ LookupsOnChain s := by
  obtain ⟨hrecorded, hflags⟩ := firstPass_recorded hrun
  have h : WellNamed s := ⟨hrecorded, hnames, (hflags hnames.nodup).marked hrecorded hnames,
    hmethods, hrecorded.parentOf_declared, hacyclic⟩
  constructor
  · exact fun hdisp ↦ ⟨overridesSeen_of h hdisp, lookupsOnChain_of h hdisp⟩
  · exact fun ⟨hover, hlook⟩ ↦ virtualDispatch_of h hover hlook

private def classA : Ident := ⟨"A".toList, isIdentifier_A⟩

private def classB : Ident := ⟨"B".toList, isIdentifier_B⟩

private def methodM : Ident := ⟨"m".toList, isIdentifier_m⟩

/-- `class A { virtual void m() {} } class B : A { void m() {} }` -/
def overriding : Program where
  directives := []
  statements := [.classDecl classA none [.method true .void methodM [] []],
    .classDecl classB (some classA) [.method false .void methodM [] []]]

/-- `class A { A() { class B : A { void m() {} } } virtual void m() {} }` -/
def nestedOverride : Program where
  directives := []
  statements := [.classDecl classA none [
    .constructor classA [] none [.classDecl classB (some classA) [.method false .void methodM [] []]],
    .method true .void methodM [] []]]

/-- The hypotheses on names and parents, for a state with two classes. -/
private theorem names_of_two {A B : Str} (hclasses : s.classNames = [A, B])
    (hAB : [A, B].Nodup ∧ ∀ C ∈ [A, B], '_' ∉ C)
    (hparents : s.typeSystem.parentsFirst [A, B] = true)
    (hmethods : (s.registered.map fun e ↦ (e.className, e.methodName)).Nodup) :
    PlainClassNames s ∧ DistinctMethods s ∧ Acyclic s.typeSystem.parentOf :=
  ⟨⟨hclasses ▸ hAB.1, hclasses ▸ hAB.2⟩, hmethods,
    (TypeSystem.Hierarchy.of_parentsFirst _ hparents).acyclic⟩

private theorem overriding_names :
    PlainClassNames (afterFirstPass ⟨true⟩ overriding) ∧
      DistinctMethods (afterFirstPass ⟨true⟩ overriding) ∧
      Acyclic (afterFirstPass ⟨true⟩ overriding).typeSystem.parentOf :=
  names_of_two (A := "A") (B := "B") (by decide +kernel) (by decide +kernel) (by decide +kernel)
    (by decide +kernel)

private theorem nestedOverride_names :
    PlainClassNames (afterFirstPass ⟨true⟩ nestedOverride) ∧
      DistinctMethods (afterFirstPass ⟨true⟩ nestedOverride) ∧
      Acyclic (afterFirstPass ⟨true⟩ nestedOverride).typeSystem.parentOf :=
  names_of_two (A := "A") (B := "B") (by decide +kernel) (by decide +kernel) (by decide +kernel)
    (by decide +kernel)

/-- The record of two methods, by class, name and mark. -/
theorem registered_of_two {D n : Str} {b c : Bool}
    (h : (s.registered.map fun e ↦ (e.className, e.methodName, e.saysVirtual)) =
      [(C, m, b), (D, n, c)]) :
    ∃ x y : MethodEntry, s.registered = [x, y] ∧ x.className = C ∧ x.methodName = m ∧
      x.saysVirtual = b ∧ y.className = D ∧ y.methodName = n ∧ y.saysVirtual = c := by
  match hr : s.registered with
  | [x, y] =>
    rw [hr] at h
    simp only [List.map_cons, List.map_nil, List.cons.injEq, Prod.mk.injEq, and_true] at h
    exact ⟨x, y, rfl, h.1.1, h.1.2.1, h.1.2.2, h.2.1, h.2.2.1, h.2.2.2⟩
  | [] => simp [hr] at h
  | [x] => simp [hr] at h
  | x :: y :: z :: l => simp [hr] at h

/-- An override declared after the method it overrides is dispatched to. -/
theorem virtual_dispatch_iff_overriding :
    VirtualDispatch (afterFirstPass ⟨true⟩ overriding) := by
  obtain ⟨hnames, hmethods, hacyclic⟩ := overriding_names
  have hclasses : (afterFirstPass ⟨true⟩ overriding).classNames = ["A".toList, "B".toList] := by
    decide +kernel
  have hBA : (afterFirstPass ⟨true⟩ overriding).typeSystem.parentOf "B" = some "A".toList := by
    decide +kernel
  obtain ⟨x, y, hr, hx, hxm, hxs, hy, hym, hys⟩ := registered_of_two
    (s := afterFirstPass ⟨true⟩ overriding) (C := "A") (D := "B") (m := "m") (n := "m") (b := true)
    (c := false) (by decide +kernel)
  refine (virtual_dispatch_iff (run_firstPassProgram (by decide +kernel)) hnames hmethods
    hacyclic).mpr ⟨?_, ?_⟩
  · rintro earlier e later hsplit ⟨z, hz, hzm, hzs, hup⟩
    rw [hr] at hsplit hz
    obtain rfl : z = x := by
      rcases List.mem_cons.mp hz with rfl | hz
      · rfl
      · rw [List.mem_singleton.mp hz, hys] at hzs
        cases hzs
    match earlier, hsplit with
    | [], hsplit =>
      cases hsplit
      exact .inl hxs
    | w :: earlier, hsplit =>
      obtain ⟨rfl, -⟩ := List.cons.inj hsplit
      exact .inr ⟨z, by simp, hzm, hzs, hup⟩
  · intro C hC earlier e later hsplit _ _
    have he : e ∈ (afterFirstPass ⟨true⟩ overriding).registered := by rw [hsplit]; simp
    have hem : e.methodName = "m" := by
      rw [hr] at he
      rcases List.mem_cons.mp he with rfl | he
      · exact hxm
      · rw [List.mem_singleton.mp he, hym]
    refine ⟨x, by simp [hr], hxm.trans hem.symm, hxs, ?_⟩
    rw [hclasses] at hC
    rw [hx]
    rcases List.mem_cons.mp hC with rfl | hC
    · exact .refl
    · rw [List.mem_singleton.mp hC]
      exact .single hBA

/-- An override that is registered before the method it overrides is not virtual. -/
theorem nestedOverride_not_dispatched :
    ∃ s, (firstPassProgram ⟨true⟩ nestedOverride).run {} = .ok ((), s) ∧ PlainClassNames s ∧
      DistinctMethods s ∧ Acyclic s.typeSystem.parentOf ∧ ¬ VirtualDispatch s := by
  obtain ⟨hnames, hmethods, hacyclic⟩ := nestedOverride_names
  have hrun : (firstPassProgram ⟨true⟩ nestedOverride).run {} =
      .ok ((), afterFirstPass ⟨true⟩ nestedOverride) := run_firstPassProgram (by decide +kernel)
  refine ⟨_, hrun, hnames, hmethods, hacyclic, fun hdisp ↦ ?_⟩
  obtain ⟨hrecorded, hflags⟩ := firstPass_recorded hrun
  have hover := overridesSeen_of ⟨hrecorded, hnames,
    (hflags hnames.nodup).marked hrecorded hnames, hmethods, hrecorded.parentOf_declared,
    hacyclic⟩ hdisp
  have hBA : (afterFirstPass ⟨true⟩ nestedOverride).typeSystem.parentOf "B" = some "A".toList := by
    decide +kernel
  obtain ⟨x, y, hr, hx, hxm, hxs, hy, hym, hys⟩ := registered_of_two
    (s := afterFirstPass ⟨true⟩ nestedOverride) (C := "B") (D := "A") (m := "m") (n := "m")
    (b := false) (c := true) (by decide +kernel)
  have hmark : MarkedBefore (afterFirstPass ⟨true⟩ nestedOverride).typeSystem
      (afterFirstPass ⟨true⟩ nestedOverride).registered x := by
    refine ⟨y, by simp [hr], hym.trans hxm.symm, hys, .single ?_⟩
    rw [hx, hy]
    exact hBA
  rcases hover [] x [y] hr hmark with hmarked | ⟨z, hz, -⟩
  · rw [hxs] at hmarked
    cases hmarked
  · cases hz

end JBLang.Classes
