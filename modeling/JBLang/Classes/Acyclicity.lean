import JBLang.Ast.Steps
import JBLang.Base.Runs
import JBLang.Types.Hierarchy

/-!
# Walks along parent links

`setClassParent` checks that the parent is declared, not that the link closes no circle. Over a
sequence of class declarations all walks along the parent links end as long as no class is linked
to a class from which it is reached.
-/

namespace JBLang.Classes

open JBLang.Base JBLang.Types JBLang.Ast Relation

variable {ts ts' : TypeSystem} {C m : Str} {l : List Str}

/-! ### Sequences of declarations -/

/-- A class declaration, in one of the passes. -/
structure ClassHead where
  firstPass : Bool
  name : Ident
  parent : Option Ident
  members : List ClassMember := []

/-- `getClassFromCode` on a declaration. -/
def processClass (s : VState) (d : ClassHead) : Except VisitError VState := do
  let (_, s') ← (getClassFromCode d.name d.parent d.members).run { s with firstPass := d.firstPass }
  pure s'

/-- No walk along the parent links goes on forever. -/
structure AllWalksEnd (ts : TypeSystem) : Prop where
  getParentClass : WalksEnd ts.parentOf
  isSubclassOf : ∀ child parent, ts.isSubclassOf child parent ≠ .error .diverges
  getAllVirtualMethods : ∀ C, ts.getAllVirtualMethods C ≠ .error .diverges
  getAllClassMembers : ∀ C, ts.getAllClassMembers C ≠ .error .diverges
  findMethodImplementation : ∀ C m, ts.findMethodImplementation C m ≠ .error .diverges
  findMethod : ∀ C m, findMethod ts C m ≠ .error .diverges

/-- The class is neither the parent that it names nor an ancestor of that parent. -/
def LinksUpwards (s : VState) (d : ClassHead) : Prop :=
  ∀ P, d.parent = some P → ¬ ReflTransGen (Follows s.typeSystem.parentOf) P.text d.name.text

/-- A type system in which only classes have parents, and declared ones. -/
structure ClassesOnly (ts : TypeSystem) : Prop where
  no_typedefs : ∀ n : Str, ts.typedefs[n]? = none
  structs : ∀ (n : Str) t, ts.structs[n]? = some t → t.hasParent = false
  names : ∀ C : Str, C ∈ ts.classes → '*' ∉ C ∧ '[' ∉ C
  parent_declared : ∀ C P, ts.parentOf C = some P → P ∈ ts.classes

/-! ### Each walk -/

variable {fuel : Nat} {d : ClassHead}

private theorem allVirtualsFrom_ends (hl : Chain ts.parentOf C l)
    (hfuel : l.length ≤ fuel) : ∀ acc, ts.allVirtualsFrom fuel C acc ≠ .error .diverges := by
  refine hl.walk hfuel (fun n C hn acc ↦ ?_) fun n C P l hP _ ih acc ↦ ?_
  · cases ht : ts.classes[C]? with
    | none => simp [TypeSystem.allVirtualsFrom, ht, pure, Except.pure]
    | some t =>
      rw [TypeSystem.parentOf_of_class ht] at hn
      have hp : t.hasParent = false := by simpa using hn
      simp [TypeSystem.allVirtualsFrom, ht, hp, pure, Except.pure]
  · obtain ⟨t, ht, hp, rfl⟩ := TypeSystem.parentOf_eq_some hP
    simp only [TypeSystem.allVirtualsFrom, ht, hp, if_true]
    exact ih _

private theorem allMembersFrom_ends (hl : Chain ts.parentOf C l)
    (hfuel : l.length ≤ fuel) : ts.allMembersFrom fuel C ≠ .error .diverges := by
  refine hl.walk hfuel (fun n C hn ↦ ?_) fun n C P l hP _ ih ↦ ?_
  · cases ht : ts.classes[C]? with
    | none => simp [TypeSystem.allMembersFrom, ht]
    | some t =>
      rw [TypeSystem.parentOf_of_class ht] at hn
      have hp : t.hasParent = false := by simpa using hn
      simp [TypeSystem.allMembersFrom, ht, hp, pure, Except.pure]
  · obtain ⟨t, ht, hp, rfl⟩ := TypeSystem.parentOf_eq_some hP
    simp only [TypeSystem.allMembersFrom, ht, hp, if_true]
    cases hrest : ts.allMembersFrom n t.parentClass with
    | error e =>
      intro h
      cases h
      exact ih hrest
    | ok members => rintro ⟨⟩

private theorem implementationFrom_ends (hl : Chain ts.parentOf C l)
    (hfuel : l.length ≤ fuel) : ts.implementationFrom m fuel C ≠ .error .diverges := by
  refine hl.walk hfuel (fun n C hn ↦ ?_) fun n C P l hP _ ih ↦ ?_
  · simp only [TypeSystem.implementationFrom, hn]
    split <;> rintro ⟨⟩
  · simp only [TypeSystem.implementationFrom, hP]
    split
    · rintro ⟨⟩
    · exact ih

/-- What a name of the table resolves to has the parent of the class, or none. -/
private theorem parentOf_of_resolveType (h : ClassesOnly ts) (hC : '*' ∉ C ∧ '[' ∉ C) {t : Ty}
    (ht : ts.resolveType C = .ok t) (hp : t.hasParent = true) :
    ts.parentOf C = some t.parentClass := by
  rw [TypeSystem.resolveType_plain ts hC.1 hC.2] at ht
  rcases TypeSystem.resolveBase_eq_ok ht with hbuiltin | hdef | hstruct | hclass
  · simp [Ty.hasParent, hbuiltin.parentClass] at hp
  · simp [h.no_typedefs] at hdef
  · simp [h.structs C t hstruct] at hp
  · rw [TypeSystem.parentOf_of_class hclass, if_pos hp]

private theorem resolveType_parent_declared (h : ClassesOnly ts) {text : Str} {t : Ty}
    (ht : ts.resolveType text = .ok t) (hp : t.hasParent = true) : t.parentClass ∈ ts.classes := by
  obtain ⟨name, t₀, ht₀, hcore⟩ := TypeSystem.translateType_eq_ok ht
  rw [hcore.hasParent] at hp
  rw [hcore.parentClass]
  rcases TypeSystem.resolveBase_eq_ok ht₀ with hbuiltin | hdef | hstruct | hclass
  · simp [Ty.hasParent, hbuiltin.parentClass] at hp
  · simp [h.no_typedefs] at hdef
  · simp [h.structs name t₀ hstruct] at hp
  · exact h.parent_declared name _ (by rw [TypeSystem.parentOf_of_class hclass, if_pos hp])

/-- A lookup ends if it ends from the parent that its name resolves to. -/
private theorem findMethodFrom_step {C₀ : Str}
    (h : ∀ t, ts.resolveType C = .ok t → t.hasParent = true →
      findMethodFrom ts C₀ m fuel t.parentClass ≠ .error .diverges) :
    findMethodFrom ts C₀ m (fuel + 1) C ≠ .error .diverges := by
  rw [findMethodFrom]
  split
  · rintro ⟨⟩
  · split
    next e he =>
      rcases TypeSystem.resolveType_eq_error he with ⟨message, rfl⟩ | rfl <;> rintro ⟨⟩
    next t ht =>
      split
      next hp => exact h t ht hp
      next => rintro ⟨⟩

private theorem findMethodFrom_ends (h : ClassesOnly ts) {C₀ : Str} (hl : Chain ts.parentOf C l)
    (hfuel : l.length ≤ fuel) : C ∈ ts.classes → findMethodFrom ts C₀ m fuel C ≠ .error .diverges := by
  refine hl.walk hfuel (fun n C hn hC ↦ ?_) fun n C P l hP _ ih hC ↦ ?_
  · refine findMethodFrom_step fun t ht hp ↦ ?_
    rw [parentOf_of_resolveType h (h.names C hC) ht hp] at hn
    cases hn
  · refine findMethodFrom_step fun t ht hp ↦ ?_
    rw [parentOf_of_resolveType h (h.names C hC) ht hp, Option.some.injEq] at hP
    rw [hP]
    exact ih (h.parent_declared C P (by
      rw [← hP]
      exact parentOf_of_resolveType h (h.names C hC) ht hp))

/-- Where every chain of parents ends, so does every walk. -/
theorem allWalksEnd (h : ClassesOnly ts) (hends : WalksEnd ts.parentOf) : AllWalksEnd ts := by
  have hac := hends.acyclic
  have chain : ∀ C, ∃ l, Chain ts.parentOf C l ∧ l.length ≤ ts.walkBound :=
    TypeSystem.exists_chain_of_acyclic hac
  refine ⟨hends, fun child parent ↦ ?_, fun C ↦ ?_, fun C ↦ ?_, fun C m ↦ ?_, fun C m ↦ ?_⟩
  · by_cases hsub : TransGen (Follows ts.parentOf) child parent
    · rw [(TypeSystem.isSubclassOf_iff hac child parent).1.mpr hsub]
      exact nofun
    · rw [(TypeSystem.isSubclassOf_iff hac child parent).2.mpr hsub]
      exact nofun
  · obtain ⟨l, hl, hlen⟩ := chain C
    exact allVirtualsFrom_ends hl hlen _
  · obtain ⟨l, hl, hlen⟩ := chain C
    exact allMembersFrom_ends hl hlen
  · obtain ⟨l, hl, hlen⟩ := chain C
    intro hdiv
    unfold TypeSystem.findMethodImplementation at hdiv
    cases himpl : ts.implementationFrom m ts.walkBound C with
    | error e =>
      rw [himpl] at hdiv
      cases hdiv
      exact implementationFrom_ends hl hlen himpl
    | ok found =>
      rw [himpl] at hdiv
      cases hdiv
  · refine findMethodFrom_step fun t ht hp ↦ ?_
    -- From the second round on the walk goes through declared classes, each at most once.
    have hdeclared := resolveType_parent_declared h ht hp
    obtain ⟨l, hl⟩ := hends t.parentClass
    refine findMethodFrom_ends h hl ?_ hdeclared
    have hsub : l ⊆ ts.classes.keys := fun D hD ↦ Std.TreeMap.mem_keys.mpr
      (TypeSystem.Hierarchy.mem_classes_of_chain ⟨h.parent_declared, hac⟩ hdeclared hl D hD)
    have hlen := (hl.nodup.subperm hsub).length_le
    rw [Std.TreeMap.length_keys] at hlen
    omega

/-! ### One declaration -/

theorem processClass_spec {s s' : VState} (h : processClass s d = .ok s') :
    ∃ fields type, linkClass (if d.firstPass then s.typeSystem.registerClass d.name.text
      else s.typeSystem) d.name.text (d.parent.map Ident.text) fields = .ok (s'.typeSystem, type) := by
  unfold processClass at h
  cases hrun : (getClassFromCode d.name d.parent d.members).run
      { s with firstPass := d.firstPass } with
  | error e =>
    rw [hrun] at h
    cases h
  | ok r =>
    rw [hrun] at h
    cases h
    obtain ⟨fields, ts, hs', hlink⟩ := (getClassFromCode_spec d.name d.parent d.members).of_run _ _ hrun
    exact ⟨fields, r.1, by rw [hs']; exact hlink⟩

/-- What a declaration does to the class table: the class gets the parent that is named, and
without one it loses its parent in the first pass only. -/
structure Declared (s : VState) (d : ClassHead) (ts' : TypeSystem) : Prop where
  typedefs : ts'.typedefs = s.typeSystem.typedefs
  structs : ts'.structs = s.typeSystem.structs
  mem_classes : ∀ C : Str, C ∈ ts'.classes ↔ C = d.name.text ∨ C ∈ s.typeSystem.classes
  link : ∀ P, d.parent = some P → ts'.parentOf d.name.text = some P.text
  no_link : d.parent = none → ts'.parentOf d.name.text = none ∨
    ts'.parentOf d.name.text = s.typeSystem.parentOf d.name.text
  other : ∀ C, C ≠ d.name.text → ts'.parentOf C = s.typeSystem.parentOf C
  parent_declared : ∀ P, d.parent = some P → P.text ∈ ts'.classes

private theorem text_ne_nil (name : Ident) : name.text.isEmpty = false := by
  cases h : name.text with
  | nil => exact absurd name.valid (by rw [h]; exact nofun)
  | cons c l => rfl

/-- The table that the declared class is linked in: of the class itself only the name is new. -/
private structure Opened (s : VState) (d : ClassHead) (ts : TypeSystem) : Prop where
  typedefs : ts.typedefs = s.typeSystem.typedefs
  structs : ts.structs = s.typeSystem.structs
  own : ∀ t, ts.classes[d.name.text]? = some t → t.parentClass = [] ∨
    s.typeSystem.classes[d.name.text]? = some t
  other : ∀ C : Str, C ≠ d.name.text → ts.classes[C]? = s.typeSystem.classes[C]?

private theorem opened (s : VState) (d : ClassHead) : Opened s d
    (if d.firstPass then s.typeSystem.registerClass d.name.text else s.typeSystem) := by
  split
  · refine ⟨rfl, rfl, fun t ht ↦ .inl ?_, fun C hC ↦ ?_⟩
    · rw [TypeSystem.registerClass, NameMap.lookup_insert, if_pos rfl] at ht
      cases ht
      rfl
    · rw [TypeSystem.registerClass, NameMap.lookup_insert, if_neg hC]
  · exact ⟨rfl, rfl, fun t ht ↦ .inr ht, fun _ _ ↦ rfl⟩

private theorem parentOf_congr {C' : Str} (h : ts'.classes[C]? = ts.classes[C']?) :
    ts'.parentOf C = ts.parentOf C' := by
  rw [TypeSystem.parentOf, h, TypeSystem.parentOf]

theorem processClass_declared {s s' : VState} (h : processClass s d = .ok s') :
    Declared s d s'.typeSystem := by
  obtain ⟨fields, type, hlink⟩ := processClass_spec h
  have hopen := opened s d
  obtain ⟨hframe, hlookup, ⟨t₀, ht₀, rfl⟩, hparent⟩ := linkClass_spec hlink
  have hown := (hlookup d.name.text).trans (if_pos rfl)
  have hother : ∀ C : Str, C ≠ d.name.text →
      s'.typeSystem.classes[C]? = s.typeSystem.classes[C]? :=
    fun C hC ↦ ((hlookup C).trans (if_neg hC)).trans (hopen.other C hC)
  have hmem : ∀ C : Str, C ∈ s'.typeSystem.classes ↔ C = d.name.text ∨ C ∈ s.typeSystem.classes := by
    intro C
    rw [Std.TreeMap.mem_iff_isSome_getElem?, Std.TreeMap.mem_iff_isSome_getElem?]
    by_cases hC : C = d.name.text
    · simp [hC, hown]
    · simp [hC, hother C hC]
  exact {
    typedefs := by rw [hframe]; exact hopen.typedefs
    structs := by rw [hframe]; exact hopen.structs
    mem_classes := hmem
    link := fun P hP ↦ by
      rw [TypeSystem.parentOf_of_class hown]
      simp [hP, Ty.hasParent, text_ne_nil P]
    no_link := fun hP ↦ by
      rw [hP] at hown
      rcases hopen.own t₀ ht₀ with hroot | hold
      · left
        rw [TypeSystem.parentOf_of_class hown]
        simp [Ty.hasParent, hroot]
      · right
        rw [TypeSystem.parentOf_of_class hown, TypeSystem.parentOf_of_class hold]
        rfl
    other := fun C hC ↦ parentOf_congr (hother C hC)
    parent_declared := fun P hP ↦ by
      have hdeclared := hparent P.text (by rw [hP]; rfl)
      rw [hmem]
      by_cases hC : P.text = d.name.text
      · exact .inl hC
      · rw [Std.TreeMap.mem_iff_isSome_getElem?, hopen.other _ hC] at hdeclared
        exact .inr (Std.TreeMap.mem_iff_isSome_getElem?.mpr hdeclared) }

variable {s s' : VState} {d : ClassHead}

theorem ClassesOnly.step (h : ClassesOnly s.typeSystem) (hd : Declared s d ts') :
    ClassesOnly ts' where
  no_typedefs := by
    rw [hd.typedefs]
    exact h.no_typedefs
  structs := by
    rw [hd.structs]
    exact h.structs
  names C hC := by
    rcases (hd.mem_classes C).mp hC with rfl | hC
    · exact ⟨not_mem_identifier d.name.valid (by decide) (by decide),
        not_mem_identifier d.name.valid (by decide) (by decide)⟩
    · exact h.names C hC
  parent_declared C P hP := by
    rw [hd.mem_classes]
    by_cases hC : C = d.name.text
    · subst hC
      cases hparent : d.parent with
      | some Q =>
        rw [hd.link Q hparent, Option.some.injEq] at hP
        rw [← hP, ← hd.mem_classes]
        exact hd.parent_declared Q hparent
      | none =>
        rcases hd.no_link hparent with hnone | hold
        · rw [hnone] at hP
          cases hP
        · exact .inr (h.parent_declared _ P (hold ▸ hP))
    · exact .inr (h.parent_declared C P (hd.other C hC ▸ hP))

/-- One declaration keeps the chains of parents finite exactly if it links upwards. -/
theorem walksEnd_step_iff (h : WalksEnd s.typeSystem.parentOf) (hd : Declared s d ts') :
    WalksEnd ts'.parentOf ↔ LinksUpwards s d := by
  cases hparent : d.parent with
  | some P =>
    rw [h.link_iff hd.other (hd.link P hparent), LinksUpwards, hparent]
    simp
  | none =>
    refine iff_of_true ?_ fun P hP ↦ by rw [hparent] at hP; cases hP
    rcases hd.no_link hparent with hnone | hold
    · exact h.of_changed hd.other ⟨_, .last hnone⟩
    · have hsame : ts'.parentOf = s.typeSystem.parentOf := by
        funext C
        by_cases hC : C = d.name.text
        · rw [hC, hold]
        · exact hd.other C hC
      rw [hsame]
      exact h

/-- From a state without classes and typedefs, no walk along parent links goes on forever at any
point of a run of declarations exactly if each of them links its class upwards. -/
theorem walks_end_iff {ds : List ClassHead} (h : ClassesOnly s.typeSystem)
    (hnone : ∀ C : Str, C ∉ s.typeSystem.classes) (hrun : runAll processClass s ds = .ok s') :
    AtEveryPoint processClass (fun s ↦ AllWalksEnd s.typeSystem) s ds ↔
      AllAllowed processClass LinksUpwards s ds := by
  have hstart : WalksEnd s.typeSystem.parentOf := by
    intro C
    refine ⟨[C], .last ?_⟩
    cases hC : s.typeSystem.parentOf C with
    | none => rfl
    | some P =>
      obtain ⟨t, ht, -⟩ := TypeSystem.parentOf_eq_some hC
      exact absurd (TypeSystem.mem_classes_of_getElem? ht) (hnone C)
  refine atEveryPoint_iff_allAllowed (I := fun s : VState ↦ ClassesOnly s.typeSystem)
    (fun {s d s'} hI hP hstep ↦ ?_) h (allWalksEnd h hstart) ds hrun
  have hd := processClass_declared hstep
  have hI' := hI.step hd
  exact ⟨hI', Iff.trans ⟨fun hw ↦ hw.getParentClass, allWalksEnd hI'⟩
    (walksEnd_step_iff hP.getParentClass hd)⟩

private def classSelf : Ident := ⟨"A".toList, isIdentifier_A⟩

private def classChild : Ident := ⟨"B".toList, isIdentifier_B⟩

private theorem classesOnly_empty : ClassesOnly ({} : VState).typeSystem where
  no_typedefs n := by simp
  structs n t ht := by simp at ht
  names C hC := by simp at hC
  parent_declared C P hP := by simp [TypeSystem.parentOf] at hP

/-- `class A {} class B : A {}`, in both passes. -/
def childAfterParent : List ClassHead :=
  [⟨true, classSelf, none, []⟩, ⟨true, classChild, some classSelf, []⟩,
    ⟨false, classSelf, none, []⟩, ⟨false, classChild, some classSelf, []⟩]

/-- Each class of `childAfterParent` is linked upwards, in both passes. -/
theorem walks_end_iff_childAfterParent :
    ClassesOnly ({} : VState).typeSystem ∧ ∃ s, runAll processClass {} childAfterParent = .ok s ∧
      AtEveryPoint processClass (fun s ↦ AllWalksEnd s.typeSystem) {} childAfterParent := by
  have hok : (runAll processClass {} childAfterParent).isOk = true := by decide +kernel
  have upwards : ∀ {s : VState} {pass : Bool}, s.typeSystem.parentOf "A" = none →
      LinksUpwards s ⟨pass, classChild, some classSelf, []⟩ := by
    rintro s pass hroot P hP hreach
    cases hP
    rcases ReflTransGen.cases_head hreach with heq | ⟨Q, hQ, -⟩
    · have hne : classSelf.text ≠ classChild.text := by decide +kernel
      exact absurd heq hne
    · rw [Follows, show classSelf.text = "A".toList from rfl, hroot] at hQ
      cases hQ
  have root : ∀ {s s' : VState} {pass : Bool}, s.typeSystem.parentOf "A" = none →
      processClass s ⟨pass, classSelf, none, []⟩ = .ok s' → s'.typeSystem.parentOf "A" = none := by
    intro s s' pass hroot hstep
    rcases (processClass_declared hstep).no_link rfl with hnone | hold
    · exact hnone
    · exact hold.trans hroot
  cases hrun : runAll processClass {} childAfterParent with
  | error e =>
    rw [hrun] at hok
    cases hok
  | ok s =>
    refine ⟨classesOnly_empty, s, rfl, (walks_end_iff classesOnly_empty (by simp) hrun).mpr ?_⟩
    refine ⟨by rintro _ ⟨⟩, fun s₁ h₁ ↦ ?_⟩
    have hroot₁ := root rfl h₁
    refine ⟨upwards hroot₁, fun s₂ h₂ ↦ ⟨by rintro _ ⟨⟩, fun s₃ h₃ ↦ ?_⟩⟩
    have hroot₂ := ((processClass_declared h₂).other "A" (by decide +kernel)).trans hroot₁
    exact ⟨upwards (root hroot₂ h₃), fun _ _ ↦ trivial⟩

/-- `class A : A {}` -/
def selfParent : ClassHead := ⟨true, classSelf, some classSelf, []⟩

/-- The declaration is accepted, and the class is its own parent. -/
theorem selfParent_accepted : ∃ s, runAll processClass {} [selfParent] = .ok s ∧
    s.typeSystem.parentOf "A" = some "A".toList ∧
    s.typeSystem.getAllVirtualMethods "A" = .error .diverges ∧
    ¬ WalksEnd s.typeSystem.parentOf := by
  have hok : (runAll processClass {} [selfParent]).isOk = true := by decide +kernel
  cases hrun : runAll processClass {} [selfParent] with
  | error e =>
    rw [hrun] at hok
    cases hok
  | ok s =>
    have hfacts : (runAll processClass {} [selfParent]).toOption.map (fun s ↦
        (s.typeSystem.parentOf "A", s.typeSystem.walkBound)) = some (some "A".toList, 2) := by
      decide +kernel
    rw [hrun] at hfacts
    obtain ⟨hself, hbound⟩ : s.typeSystem.parentOf "A" = some "A".toList ∧
        s.typeSystem.walkBound = 2 := by
      simpa only [Except.toOption, Option.map_some, Option.some.injEq, Prod.mk.injEq] using hfacts
    refine ⟨s, rfl, hself, ?_, fun h ↦ h.acyclic _ (.single hself)⟩
    obtain ⟨t, ht, hp, hparent⟩ := TypeSystem.parentOf_eq_some hself
    simp only [TypeSystem.getAllVirtualMethods, hbound, TypeSystem.allVirtualsFrom, ht, hp, hparent,
      if_true]

end JBLang.Classes
