import JBLang.Base.Chain
import JBLang.Types.TypeSystem

/-!
# The class hierarchy

The parent links of the class table, and the loops of `src/types/TypeSystem.cpp` that follow
them: over a table without cycles each loop ends and computes a function of the chain of the
class it starts at.
-/

namespace JBLang.Types

open JBLang.Base Relation

namespace TypeSystem

variable {ts : TypeSystem} {C D P : Str} {l : List Str}

theorem parentOf_eq_some (h : ts.parentOf C = some P) :
    ∃ t, ts.classes[C]? = some t ∧ t.hasParent = true ∧ t.parentClass = P := by
  unfold parentOf at h
  split at h
  next t ht =>
    split at h
    next hp => exact ⟨t, ht, hp, Option.some.inj h⟩
    next => cases h
  next => cases h

theorem parentOf_of_class {t : Ty} (ht : ts.classes[C]? = some t) :
    ts.parentOf C = if t.hasParent then some t.parentClass else none := by
  simp [parentOf, ht]

theorem mem_classes_of_getElem? {t : Ty} (ht : ts.classes[C]? = some t) : C ∈ ts.classes := by
  rw [Std.TreeMap.mem_iff_isSome_getElem?, ht]
  rfl

theorem exists_class_of_mem (h : C ∈ ts.classes) : ∃ t, ts.classes[C]? = some t := by
  rw [Std.TreeMap.mem_iff_isSome_getElem?] at h
  exact Option.isSome_iff_exists.mp h

theorem mem_keys_of_parentOf (C P : Str) (h : ts.parentOf C = some P) : C ∈ ts.classes.keys := by
  obtain ⟨t, ht, -⟩ := parentOf_eq_some h
  exact Std.TreeMap.mem_keys.mpr (mem_classes_of_getElem? ht)

/-- A class table without cycles whose parents are classes, as `setClassParent` checks. -/
structure Hierarchy (ts : TypeSystem) : Prop where
  parent_declared : ∀ C P, ts.parentOf C = some P → P ∈ ts.classes
  acyclic : Acyclic ts.parentOf

/-- The classes are listed so that each parent is a class and comes before its children. -/
def parentsFirst (ts : TypeSystem) (order : List Str) : Bool :=
  ts.classes.toList.all fun c ↦ !c.2.hasParent ||
    (ts.classes.contains c.2.parentClass && order.idxOf c.2.parentClass < order.idxOf c.1)

theorem Hierarchy.of_parentsFirst (order : List Str) (h : ts.parentsFirst order = true) :
    Hierarchy ts := by
  have link : ∀ C P, ts.parentOf C = some P → P ∈ ts.classes ∧ order.idxOf P < order.idxOf C := by
    intro C P hP
    obtain ⟨t, ht, hp, rfl⟩ := parentOf_eq_some hP
    have hc := List.all_eq_true.mp h (C, t) (Std.TreeMap.mem_toList_iff_getElem?_eq_some.mpr ht)
    simpa [hp, Std.TreeMap.contains_iff_mem] using hc
  exact ⟨fun C P hP ↦ (link C P hP).1, acyclic_of_rank order.idxOf fun C P hP ↦ (link C P hP).2⟩

/-- Without cycles every class has a chain, and the loops make enough rounds for it. -/
theorem exists_chain_of_acyclic (h : Acyclic ts.parentOf) (C : Str) :
    ∃ l, Chain ts.parentOf C l ∧ l.length ≤ ts.walkBound := by
  obtain ⟨l, hl⟩ := Chain.exists_of_acyclic h mem_keys_of_parentOf C
  refine ⟨l, hl, ?_⟩
  have hlen := hl.length_le fun C _ ↦ mem_keys_of_parentOf C
  rw [Std.TreeMap.length_keys] at hlen
  unfold walkBound
  omega

namespace Hierarchy

theorem exists_chain (h : Hierarchy ts) (C : Str) :
    ∃ l, Chain ts.parentOf C l ∧ l.length ≤ ts.walkBound :=
  exists_chain_of_acyclic h.acyclic C

theorem mem_classes_of_chain (h : Hierarchy ts) (hC : C ∈ ts.classes) (hl : Chain ts.parentOf C l) :
    ∀ D ∈ l, D ∈ ts.classes := by
  induction hl with
  | last => simpa using hC
  | step hP _ ih => simpa using ⟨hC, ih (h.parent_declared _ _ hP)⟩

end Hierarchy

/-! ### Subclasses -/

variable {methods : List Function} {fuel : Nat}

private theorem isSubclassFrom_chain (hl : Chain ts.parentOf C l)
    (hfuel : l.length ≤ fuel) : ts.isSubclassFrom P fuel C = .ok (decide (P ∈ l.tail)) := by
  refine hl.walk hfuel (fun n C hn ↦ ?_) fun n C D l hD hl ih ↦ ?_
  · simp only [isSubclassFrom, hn]
    rfl
  · simp only [isSubclassFrom, hD, List.tail_cons]
    -- The parent is compared before the walk moves on to it.
    split
    next h =>
      subst h
      simp only [hl.mem_self, decide_true]
      rfl
    next h =>
      rw [ih]
      refine congrArg Except.ok (decide_eq_decide.mpr ?_)
      cases hl <;> simp [Ne.symm h]

/-- The loop of `isSubclassOf` finds the ancestors. -/
theorem isSubclassOf_iff (h : Acyclic ts.parentOf) (child parent : Str) :
    (ts.isSubclassOf child parent = .ok true ↔ TransGen (Follows ts.parentOf) child parent) ∧
      (ts.isSubclassOf child parent = .ok false ↔
        ¬ TransGen (Follows ts.parentOf) child parent) := by
  obtain ⟨l, hl, hlen⟩ := exists_chain_of_acyclic h child
  rw [isSubclassOf, isSubclassFrom_chain hl hlen, ← hl.mem_tail_iff]
  simp

/-! ### Collected members -/

/-- The fields that a class declares itself. -/
def ownMembers (ts : TypeSystem) (C : Str) : List (Str × Ty) :=
  match ts.classes[C]? with
  | some t => t.structMembers
  | none => []

/-- What `getAllClassMembers` collects along a chain: the members of the last ancestor first. -/
def membersOn (ts : TypeSystem) (l : List Str) : List (Str × Ty) := l.reverse.flatMap ts.ownMembers

theorem membersOn_cons (C : Str) (l : List Str) :
    ts.membersOn (C :: l) = ts.membersOn l ++ ts.ownMembers C := by
  simp [membersOn]

private theorem allMembersFrom_chain (hl : Chain ts.parentOf C l) (hfuel : l.length ≤ fuel) :
    (∀ D ∈ l, D ∈ ts.classes) → ts.allMembersFrom fuel C = .ok (ts.membersOn l) := by
  refine hl.walk hfuel (fun n C hn hmem ↦ ?_) fun n C P l hP _ ih hmem ↦ ?_
  · obtain ⟨t, ht⟩ := exists_class_of_mem (hmem C (by simp))
    rw [parentOf_of_class ht] at hn
    have hp : t.hasParent = false := by simpa using hn
    simp [allMembersFrom, membersOn, ownMembers, ht, hp]
    rfl
  · obtain ⟨t, ht, hp, rfl⟩ := parentOf_eq_some hP
    rw [membersOn_cons]
    simp only [allMembersFrom, ownMembers, ht, hp, if_true]
    rw [ih fun D hD ↦ hmem D (List.mem_cons_of_mem _ hD)]
    rfl

/-- `getAllClassMembers` returns, with the members of the chain. -/
theorem Hierarchy.getAllClassMembers_eq (h : Hierarchy ts) (hC : C ∈ ts.classes)
    (hl : Chain ts.parentOf C l) : ts.getAllClassMembers C = .ok (ts.membersOn l) := by
  obtain ⟨l', hl', hlen⟩ := h.exists_chain C
  rw [hl'.unique hl] at hlen
  exact allMembersFrom_chain hl hlen (h.mem_classes_of_chain hC hl)

/-! ### Collected virtual methods -/

/-- What `getAllVirtualMethods` collects along a chain. -/
def virtualsOn (ts : TypeSystem) (l : List Str) : List Function :=
  (l.flatMap ts.getClassMethods).foldl addVirtual []

private theorem allVirtualsFrom_chain (hl : Chain ts.parentOf C l)
    (hfuel : l.length ≤ fuel) : (∀ D ∈ l, D ∈ ts.classes) → ∀ acc,
      ts.allVirtualsFrom fuel C acc = .ok ((l.flatMap ts.getClassMethods).foldl addVirtual acc) := by
  refine hl.walk hfuel (fun n C hn hmem acc ↦ ?_) fun n C P l hP _ ih hmem acc ↦ ?_
  · obtain ⟨t, ht⟩ := exists_class_of_mem (hmem C (by simp))
    rw [parentOf_of_class ht] at hn
    have hp : t.hasParent = false := by simpa using hn
    simp [allVirtualsFrom, ht, hp]
    rfl
  · obtain ⟨t, ht, hp, rfl⟩ := parentOf_eq_some hP
    simp only [allVirtualsFrom, ht, hp, if_true, List.flatMap_cons, List.foldl_append]
    exact ih (fun D hD ↦ hmem D (List.mem_cons_of_mem _ hD)) _

private theorem allVirtualsFrom_ok (hp : ∀ C P, ts.parentOf C = some P → P ∈ ts.classes) :
    ∀ {fuel : Nat} {C : Str} {acc methods : List Function}, C ∈ ts.classes →
      ts.allVirtualsFrom fuel C acc = .ok methods →
      ∃ l, Chain ts.parentOf C l ∧ methods = (l.flatMap ts.getClassMethods).foldl addVirtual acc := by
  intro fuel
  induction fuel with
  | zero => nofun
  | succ fuel ih =>
    intro C acc methods hC h
    obtain ⟨t, ht⟩ := exists_class_of_mem hC
    rw [allVirtualsFrom, ht] at h
    cases hparent : t.hasParent with
    | false =>
      simp only [hparent, Bool.false_eq_true, if_false] at h
      cases h
      exact ⟨[C], .last (by rw [parentOf_of_class ht, hparent]; rfl), by simp⟩
    | true =>
      simp only [hparent, if_true] at h
      have hlink : ts.parentOf C = some t.parentClass := by
        rw [parentOf_of_class ht, hparent]; rfl
      obtain ⟨l, hl, rfl⟩ := ih (hp _ _ hlink) h
      exact ⟨C :: l, .step hlink hl, by rw [List.flatMap_cons, List.foldl_append]⟩

/-- Where `getAllVirtualMethods` returns, the class has a chain. -/
theorem getAllVirtualMethods_ok (hp : ∀ C P, ts.parentOf C = some P → P ∈ ts.classes)
    (hC : C ∈ ts.classes) (h : ts.getAllVirtualMethods C = .ok methods) :
    ∃ l, Chain ts.parentOf C l ∧ methods = ts.virtualsOn l :=
  allVirtualsFrom_ok hp hC h

/-- `getAllVirtualMethods` returns, with the virtual methods of the chain. -/
theorem Hierarchy.getAllVirtualMethods_eq (h : Hierarchy ts) (hC : C ∈ ts.classes)
    (hl : Chain ts.parentOf C l) : ts.getAllVirtualMethods C = .ok (ts.virtualsOn l) := by
  obtain ⟨l', hl', hlen⟩ := h.exists_chain C
  rw [hl'.unique hl] at hlen
  exact allVirtualsFrom_chain hl hlen (h.mem_classes_of_chain hC hl) _

private theorem mem_foldl_addVirtual :
    ∀ {acc : List Function} {f : Function}, f ∈ methods.foldl addVirtual acc →
      f ∈ acc ∨ f ∈ methods ∧ f.isVirtual = true := by
  induction methods with
  | nil => intro acc f hf; exact .inl hf
  | cons g methods ih =>
    intro acc f hf
    rcases ih hf with hf | ⟨hf, hv⟩
    · unfold addVirtual at hf
      split at hf
      next hg =>
        rcases List.mem_append.mp hf with hf | hf
        · exact .inl hf
        · rw [List.mem_singleton] at hf
          simp only [Bool.and_eq_true] at hg
          exact .inr ⟨by simp [hf], hf ▸ hg.1⟩
      next => exact .inl hf
    · exact .inr ⟨List.mem_cons_of_mem _ hf, hv⟩

private theorem names_foldl_addVirtual : ∀ {acc : List Function} {n : Str},
      (n ∈ acc.map (·.name) ∨ ∃ f ∈ methods, f.isVirtual = true ∧ f.name = n) →
      n ∈ (methods.foldl addVirtual acc).map (·.name) := by
  induction methods with
  | nil => intro acc n hn; simpa using hn
  | cons g methods ih =>
    intro acc n hn
    apply ih
    rcases hn with hn | ⟨f, hf, hv, rfl⟩
    · left
      unfold addVirtual
      split
      · rw [List.map_append]
        exact List.mem_append_left _ hn
      · exact hn
    · rcases List.mem_cons.mp hf with rfl | hf
      · left
        unfold addVirtual
        split
        · simp
        next hnot => simpa [hv] using hnot
      · exact .inr ⟨f, hf, hv, rfl⟩

/-- Only virtual methods of the chain are collected. -/
theorem mem_virtualsOn {f : Function} (hf : f ∈ ts.virtualsOn l) :
    f.isVirtual = true ∧ ∃ D ∈ l, f ∈ ts.getClassMethods D := by
  rcases mem_foldl_addVirtual hf with hf | ⟨hf, hv⟩
  · cases hf
  · exact ⟨hv, by simpa using hf⟩

/-- Every virtual method of the chain is collected, by its name. -/
theorem exists_mem_virtualsOn {f : Function} (hD : D ∈ l) (hf : f ∈ ts.getClassMethods D)
    (hv : f.isVirtual = true) : ∃ g ∈ ts.virtualsOn l, g.name = f.name := by
  have hname : f.name ∈ (ts.virtualsOn l).map (·.name) :=
    names_foldl_addVirtual (.inr ⟨f, List.mem_flatMap.mpr ⟨D, hD, hf⟩, hv, rfl⟩)
  simpa using hname

theorem hasVirtualMethods_iff :
    ts.hasVirtualMethods C = true ↔ ∃ f ∈ ts.getClassMethods C, f.isVirtual = true := by
  simp [hasVirtualMethods, getVirtualMethods]

/-- Something is collected when a class of the chain has a virtual method. -/
theorem virtualsOn_ne_nil_iff : ts.virtualsOn l ≠ [] ↔ ∃ D ∈ l, ts.hasVirtualMethods D = true := by
  constructor
  · intro h
    obtain ⟨f, hf⟩ := List.exists_mem_of_ne_nil _ h
    obtain ⟨hv, D, hD, hf⟩ := mem_virtualsOn hf
    exact ⟨D, hD, hasVirtualMethods_iff.mpr ⟨f, hf, hv⟩⟩
  · rintro ⟨D, hD, hvD⟩
    obtain ⟨f, hf, hv⟩ := hasVirtualMethods_iff.mp hvD
    obtain ⟨g, hg, -⟩ := exists_mem_virtualsOn hD hf hv
    exact List.ne_nil_of_mem hg

end TypeSystem

end JBLang.Types
