import JBLang.Ast.VisitState
import JBLang.Types.Hierarchy

/-!
# The emitted vtables

What the slots of `struct vtable`, the entries of a vtable instance and the prototypes before the
instances are, over a class table without cycles: functions of the chains of the classes.
-/

namespace JBLang.Classes

open JBLang.Base JBLang.Types JBLang.Ast

variable {ts : TypeSystem} {D m : Str} {l : List Str}

/-- Where keys are different, one element has the key of a given one. -/
theorem filter_key_eq_singleton {α κ : Type} [DecidableEq κ] {key : α → κ} {l : List α}
    (hl : (l.map key).Nodup) {x : α} (hx : x ∈ l) : l.filter (key · = key x) = [x] := by
  induction l with
  | nil => cases hx
  | cons y l ih =>
    rw [List.map_cons, List.nodup_cons] at hl
    rcases List.mem_cons.mp hx with rfl | hx
    · have hnil : l.filter (key · = key x) = [] := by
        rw [List.filter_eq_nil_iff]
        intro z hz hkey
        exact hl.1 (List.mem_map.mpr ⟨z, hz, by simpa using hkey⟩)
      simp [hnil]
    · have hne : key y ≠ key x := fun h ↦ hl.1 (List.mem_map.mpr ⟨x, hx, h.symm⟩)
      rw [List.filter_cons_of_neg (by simpa using hne), ih hl.2 hx]

/-! ### Slots -/

private theorem mem_insertAll (methods : List Function) (slots : NameMap Unit) (m : Str) :
    m ∈ methods.foldl (fun slots method ↦ slots.insert (baseName method.name) ()) slots ↔
      m ∈ slots ∨ ∃ f ∈ methods, baseName f.name = m := by
  induction methods generalizing slots with
  | nil => simp
  | cons f methods ih =>
    rw [List.foldl_cons, ih, Std.TreeMap.mem_insert]
    simp only [Std.LawfulEqCmp.compare_eq_iff_eq, List.mem_cons, exists_eq_or_imp]
    tauto

private theorem foldlM_addSlots (virtuals : Str → List Function) (classes : List Str)
    (slots : NameMap Unit)
    (hv : ∀ C ∈ classes, ts.getAllVirtualMethods C = .ok (virtuals C)) :
    ∃ slots', classes.foldlM ts.addSlots slots = .ok slots' ∧
      ∀ m, m ∈ slots' ↔ m ∈ slots ∨ ∃ C ∈ classes, ∃ f ∈ virtuals C, baseName f.name = m := by
  induction classes generalizing slots with
  | nil => exact ⟨slots, rfl, by simp⟩
  | cons C classes ih =>
    rw [List.forall_mem_cons] at hv
    obtain ⟨slots', hslots', hmem⟩ := ih
      ((virtuals C).foldl (fun slots method ↦ slots.insert (baseName method.name) ()) slots) hv.2
    refine ⟨slots', ?_, fun m ↦ ?_⟩
    · rw [List.foldlM_cons, TypeSystem.addSlots, hv.1]
      exact hslots'
    · rw [hmem, mem_insertAll, or_assoc]
      simp only [List.mem_cons, exists_eq_or_imp]

/-- `struct vtable` has a slot for each virtual method of each class. -/
theorem vtableSlots_eq (virtuals : Str → List Function)
    (hv : ∀ C ∈ ts.classes, ts.getAllVirtualMethods C = .ok (virtuals C)) :
    ∃ slots, ts.vtableSlots = .ok slots ∧
      ∀ m, m ∈ slots ↔ ∃ C ∈ ts.classes, ∃ f ∈ virtuals C, baseName f.name = m := by
  obtain ⟨slots, hslots, hmem⟩ := foldlM_addSlots virtuals ts.classes.keys ∅
    fun C hC ↦ hv C (Std.TreeMap.mem_keys.mp hC)
  refine ⟨slots.keys, ?_, fun m ↦ ?_⟩
  · rw [TypeSystem.vtableSlots, hslots]
    rfl
  · rw [Std.TreeMap.mem_keys, hmem]
    simp [Std.TreeMap.mem_keys]

/-! ### Entries -/

/-- The method of this name that a class declares itself. -/
def ownImplementation (ts : TypeSystem) (m C : Str) : Option Str :=
  ((ts.getClassMethods C).find? fun method ↦ baseName method.name = m).map (·.name)

/-- One round of the loop. -/
private theorem implementationFrom_succ (fuel : Nat) (C : Str) :
    ts.implementationFrom m (fuel + 1) C = match ownImplementation ts m C with
      | some name => .ok (some name)
      | none => match ts.parentOf C with
        | none => .ok none
        | some parent => ts.implementationFrom m fuel parent := by
  rw [TypeSystem.implementationFrom, ownImplementation]
  cases (ts.getClassMethods C).find? fun method ↦ baseName method.name = m <;> rfl

private theorem implementationFrom_chain (hl : Chain ts.parentOf D l) {fuel : Nat}
    (hfuel : l.length ≤ fuel) :
    ts.implementationFrom m fuel D = .ok (l.findSome? (ownImplementation ts m)) := by
  refine hl.walk hfuel (fun n C h ↦ ?_) fun n C P l h _ ih ↦ ?_
  · rw [implementationFrom_succ, h]
    cases hown : ownImplementation ts m C <;> simp [hown]
  · rw [implementationFrom_succ, h, List.findSome?_cons]
    cases hown : ownImplementation ts m C with
    | some name => rfl
    | none => exact ih

/-- An implementation is the method of the nearest class of the chain that declares one. -/
theorem findMethodImplementation_eq (h : ts.Hierarchy) (hl : Chain ts.parentOf D l) (m : Str) :
    ts.findMethodImplementation D m =
      .ok ((l.findSome? (ownImplementation ts m)).getD (D ++ "_" ++ m)) := by
  obtain ⟨l', hl', hlen⟩ := h.exists_chain D
  rw [hl'.unique hl] at hlen
  rw [TypeSystem.findMethodImplementation, implementationFrom_chain hl hlen]
  rfl

/-- Each slot has one entry, with the implementation found for it. -/
private def OneEntryEach (impl : Str → Str) (entries : List (Str × Str)) : Prop :=
  (entries.map Prod.fst).Nodup ∧ ∀ entry ∈ entries, entry.2 = impl entry.1

private theorem vtableEntriesFrom_eq (impl : Str → Str)
    (himpl : ∀ m, ts.findMethodImplementation D m = .ok (impl m)) (methods : List Function) :
    ∀ entries, OneEntryEach impl entries →
      ∃ entries', ts.vtableEntriesFrom D methods entries = .ok entries' ∧
        OneEntryEach impl entries' ∧ ∀ m, m ∈ entries'.map Prod.fst ↔
          m ∈ entries.map Prod.fst ∨ ∃ f ∈ methods, baseName f.name = m := by
  induction methods with
  | nil => exact fun entries hone ↦ ⟨entries, rfl, hone, by simp⟩
  | cons f methods ih =>
    intro entries hone
    rw [TypeSystem.vtableEntriesFrom]
    by_cases hmem : baseName f.name ∈ entries.map Prod.fst
    · obtain ⟨entries', heq, hone', hkeys⟩ := ih entries hone
      refine ⟨entries', by simpa [hmem] using heq, hone', fun m ↦ ?_⟩
      rw [hkeys]
      simp only [List.mem_cons, exists_eq_or_imp]
      constructor
      · rintro (h | h)
        · exact .inl h
        · exact .inr (.inr h)
      · rintro (h | rfl | h)
        · exact .inl h
        · exact .inl hmem
        · exact .inr h
    · have hone₁ : OneEntryEach impl (entries ++ [(baseName f.name, impl (baseName f.name))]) := by
        constructor
        · rw [List.map_append, List.nodup_append]
          refine ⟨hone.1, by simp, fun a ha b hb hab ↦ hmem ?_⟩
          obtain rfl : b = baseName f.name := by simpa using hb
          exact hab ▸ ha
        · intro entry hentry
          rcases List.mem_append.mp hentry with h | h
          · exact hone.2 entry h
          · rw [List.mem_singleton.mp h]
      obtain ⟨entries', heq, hone', hkeys⟩ := ih _ hone₁
      refine ⟨entries', ?_, hone', fun m ↦ ?_⟩
      · rw [if_neg (by simpa using hmem), himpl]
        exact heq
      · rw [hkeys, List.map_append, List.mem_append, or_assoc]
        simp [eq_comm]

/-- The vtable instance of a class has one entry for each virtual method of its chain, and none
else: the nearest method of that name. -/
theorem vtableEntries_eq (h : ts.Hierarchy) (hD : D ∈ ts.classes) (hl : Chain ts.parentOf D l) :
    ∃ entries, ts.vtableEntries D = .ok entries ∧ (entries.map Prod.fst).Nodup ∧
      ∀ m impl, (m, impl) ∈ entries ↔ (∃ f ∈ ts.virtualsOn l, baseName f.name = m) ∧
        impl = (l.findSome? (ownImplementation ts m)).getD (D ++ "_" ++ m) := by
  obtain ⟨entries, heq, hone, hkeys⟩ := vtableEntriesFrom_eq _
    (fun m ↦ findMethodImplementation_eq h hl m) (ts.virtualsOn l) [] ⟨by simp, by simp⟩
  refine ⟨entries, ?_, hone.1, fun m impl ↦ ?_⟩
  · rw [TypeSystem.vtableEntries, h.getAllVirtualMethods_eq hD hl]
    exact heq
  · constructor
    · intro hentry
      refine ⟨?_, hone.2 _ hentry⟩
      simpa using (hkeys m).mp (List.mem_map.mpr ⟨_, hentry, rfl⟩)
    · rintro ⟨hf, rfl⟩
      obtain ⟨⟨m', impl⟩, hentry, rfl⟩ := List.mem_map.mp ((hkeys m).mpr (.inr hf))
      have himpl : impl = _ := hone.2 _ hentry
      exact himpl ▸ hentry

/-! ### Prototypes -/

/-- `declared'` is `declared` and some of the methods `new`, so that each of their names is there
and no name is there twice. -/
structure DeclaredOnce (declared new declared' : List Function) : Prop where
  nodup : (declared'.map (·.name)).Nodup
  sound : ∀ g ∈ declared', g ∈ declared ∨ g ∈ new
  names : ∀ n, n ∈ declared'.map (·.name) ↔ n ∈ declared.map (·.name) ∨ ∃ f ∈ new, f.name = n

namespace DeclaredOnce

variable {declared declared' declared'' new new' : List Function}

theorem nil (h : (declared.map (·.name)).Nodup) : DeclaredOnce declared [] declared :=
  ⟨h, fun _ hg ↦ .inl hg, by simp⟩

theorem trans (h : DeclaredOnce declared new declared')
    (h' : DeclaredOnce declared' new' declared'') :
    DeclaredOnce declared (new ++ new') declared'' where
  nodup := h'.nodup
  sound g hg := by
    rcases h'.sound g hg with hg | hg
    · exact (h.sound g hg).imp_right (List.mem_append_left _)
    · exact .inr (List.mem_append_right _ hg)
  names n := by
    rw [h'.names, h.names, or_assoc]
    simp only [List.mem_append, or_and_right, exists_or]

theorem single (h : (declared.map (·.name)).Nodup) (f : Function) :
    DeclaredOnce declared [f] (declareOnce declared f) := by
  unfold declareOnce
  split
  next hmem =>
    refine ⟨h, fun g hg ↦ .inl hg, fun n ↦ ⟨.inl, ?_⟩⟩
    rintro (hn | ⟨g, hg, rfl⟩)
    · exact hn
    · rw [List.mem_singleton.mp hg]
      simpa using hmem
  next hmem =>
    refine ⟨?_, fun g hg ↦ by simpa using hg, fun n ↦ by simp [eq_comm]⟩
    rw [List.map_append, List.nodup_append]
    refine ⟨h, by simp, fun a ha b hb hab ↦ hmem ?_⟩
    obtain rfl : b = f.name := by simpa using hb
    simpa [← hab] using ha

theorem foldl (h : (declared.map (·.name)).Nodup) (methods : List Function) :
    DeclaredOnce declared methods (methods.foldl declareOnce declared) := by
  induction methods generalizing declared with
  | nil => exact .nil h
  | cons f methods ih => exact (single h f).trans (ih (single h f).nodup)

end DeclaredOnce

/-- The prototypes before the vtable instances: of the virtual methods of all classes, each name
once. -/
theorem vtablePrototypes_eq (virtuals : Str → List Function) (classes : List Str)
    (hv : ∀ C ∈ classes, ts.getAllVirtualMethods C = .ok (virtuals C)) (declared : List Function)
    (hd : (declared.map (·.name)).Nodup) :
    ∃ protos, vtablePrototypes ts classes declared = .ok protos ∧
      DeclaredOnce declared (classes.flatMap fun C ↦ virtuals C ++ ts.getVirtualMethods C)
        protos := by
  induction classes generalizing declared with
  | nil => exact ⟨declared, rfl, .nil hd⟩
  | cons C classes ih =>
    rw [List.forall_mem_cons] at hv
    have hC := (DeclaredOnce.foldl hd (virtuals C)).trans
      (.foldl (DeclaredOnce.foldl hd (virtuals C)).nodup (ts.getVirtualMethods C))
    obtain ⟨protos, heq, hprotos⟩ := ih hv.2 _ hC.nodup
    refine ⟨protos, ?_, hC.trans hprotos⟩
    rw [vtablePrototypes, hv.1]
    exact heq

end JBLang.Classes
