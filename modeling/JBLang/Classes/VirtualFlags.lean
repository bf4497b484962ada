import JBLang.Classes.Passes

/-!
# Virtual by declaration

The first pass takes a method for virtual if the concatenated text of its declaration contains
`virtual`, or if the name of a virtual method above it, cut off at the first underscore, is its
name. This is compared with the declarations: the keyword, or a virtual method of the same name in
an ancestor.
-/

namespace JBLang.Classes

open JBLang.Base JBLang.Types JBLang.Ast JBLang.Codegen Relation

/-! ### Declarations of methods -/

/-- The declaration of a method, with its class. -/
structure DeclaredMethod where
  owner : ClassDecl
  virtualKeyword : Bool
  result : TypeSpec
  name : Ident
  params : List Declarator
  body : List Stmt

namespace DeclaredMethod

/-- The member of the class. -/
def member (d : DeclaredMethod) : ClassMember :=
  .method d.virtualKeyword d.result d.name d.params d.body

/-- The declaration stands in one of the classes. -/
def DeclaredIn (decls : List ClassDecl) (d : DeclaredMethod) : Prop :=
  d.owner ∈ decls ∧ d.member ∈ d.owner.members

end DeclaredMethod

/-- A declaration and what is registered for it. -/
abbrev Registration := DeclaredMethod × MethodEntry

/-- The method is registered under the names of its declaration. -/
structure IsEntryOf (d : DeclaredMethod) (e : MethodEntry) : Prop where
  className : e.className = d.owner.name.text
  methodName : e.methodName = d.name.text
  mangled : e.method.name = d.owner.name.text ++ "_" ++ d.name.text

/-- A method is virtual by declaration: it has the keyword, or a class above declares a method of
its name that is virtual. -/
inductive DeclaredVirtual (ts : TypeSystem) (decls : List DeclaredMethod) : DeclaredMethod → Prop
  | keyword {d : DeclaredMethod} (h : d.virtualKeyword = true) : DeclaredVirtual ts decls d
  | inherited {d z : DeclaredMethod} (hz : z ∈ decls) (hname : z.name.text = d.name.text)
    (hup : TransGen (Follows ts.parentOf) d.owner.name.text z.owner.name.text)
    (hvirtual : DeclaredVirtual ts decls z) : DeclaredVirtual ts decls d

/-- Every method is registered as virtual exactly if it is virtual by declaration. -/
def FlagsDeclared (ts : TypeSystem) (rs : List Registration) : Prop :=
  ∀ r ∈ rs, r.2.method.isVirtual = true ↔ DeclaredVirtual ts (rs.map (·.1)) r.1

/-- What the override check compares: in the class table of that moment the class of `z` is the
parent or above it, and the mangled name of `z` behind its first underscore is the name of the
method. -/
def NamedAbove (r z : Registration) : Prop :=
  baseName (z.1.owner.name.text ++ "_" ++ z.1.name.text) = r.1.name.text ∧
    ∃ P, r.1.owner.parent = some P ∧
      ReflTransGen (Follows r.2.types.parentOf) P.text z.1.owner.name.text

/-- Where texts and names give no other answer than the declarations. -/
structure TextsTell (ts : TypeSystem) (rs : List Registration) : Prop where
  /-- The text of a method contains `virtual` only if the method is virtual. -/
  text : ∀ r ∈ rs, occursIn "virtual" r.1.member.getText = true → DeclaredVirtual ts (rs.map (·.1)) r.1
  /-- A virtual method is recognised by its text or by a virtual method registered before. -/
  found : ∀ before r after, rs = before ++ r :: after → DeclaredVirtual ts (rs.map (·.1)) r.1 →
    occursIn "virtual" r.1.member.getText = true ∨
      ∃ z ∈ before, NamedAbove r z ∧ DeclaredVirtual ts (rs.map (·.1)) z.1
  /-- A method taken for an override is one. -/
  named : ∀ before r after, rs = before ++ r :: after → ∀ z ∈ before, NamedAbove r z →
    DeclaredVirtual ts (rs.map (·.1)) z.1 → DeclaredVirtual ts (rs.map (·.1)) r.1

/-! ### Registrations in order -/

/-- What is registered after `before`. -/
structure RegisteredAfter (before : List Registration) (r : Registration) : Prop where
  entry : IsEntryOf r.1 r.2
  flag : r.2.method.isVirtual = true ↔ occursIn "virtual" r.1.member.getText = true ∨
    ∃ z ∈ before, NamedAbove r z ∧ z.2.method.isVirtual = true

/-- Each method is registered after those before it. -/
def RegisteredInOrder (rs : List Registration) : Prop :=
  ∀ before r after, rs = before ++ r :: after → RegisteredAfter before r

variable {rs : List Registration} {d : DeclaredMethod} {e : MethodEntry} {t : Ty}

theorem RegisteredInOrder.snoc {r : Registration}
    (h : RegisteredInOrder rs) (hr : RegisteredAfter rs r) : RegisteredInOrder (rs ++ [r]) := by
  intro before r' after hsplit
  rcases List.eq_nil_or_concat after with rfl | ⟨after, last, rfl⟩
  · obtain ⟨rfl, hlast⟩ := List.append_inj' hsplit rfl
    obtain rfl : r = r' := by simpa using hlast
    exact hr
  · rw [List.concat_eq_append, ← List.cons_append, ← List.append_assoc] at hsplit
    exact h before r' after (List.append_inj' hsplit rfl).1

/-- The flags follow the declarations exactly if texts and names do. -/
theorem RegisteredInOrder.flags_iff {ts : TypeSystem}
    (h : RegisteredInOrder rs) : FlagsDeclared ts rs ↔ TextsTell ts rs := by
  constructor
  · intro hflags
    refine ⟨fun r hr htext ↦ ?_, fun before r after hsplit hdecl ↦ ?_,
      fun before r after hsplit z hz hnamed hdecl ↦ ?_⟩
    · obtain ⟨before, after, hsplit⟩ := List.append_of_mem hr
      exact (hflags r hr).mp ((h before r after hsplit).flag.mpr (.inl htext))
    · have hr : r ∈ rs := by simp [hsplit]
      refine ((h before r after hsplit).flag.mp ((hflags r hr).mpr hdecl)).imp_right ?_
      rintro ⟨z, hz, hnamed, hvirtual⟩
      exact ⟨z, hz, hnamed, (hflags z (by simp [hsplit, hz])).mp hvirtual⟩
    · have hr : r ∈ rs := by simp [hsplit]
      have hvirtual := (hflags z (by simp [hsplit, hz])).mpr hdecl
      exact (hflags r hr).mp ((h before r after hsplit).flag.mpr (.inr ⟨z, hz, hnamed, hvirtual⟩))
  · intro htell
    -- By induction on the position: the flags before a method are known.
    have main : ∀ (n : Nat) (before : List Registration) (r : Registration)
        (after : List Registration), before.length = n → rs = before ++ r :: after →
          (r.2.method.isVirtual = true ↔ DeclaredVirtual ts (rs.map (·.1)) r.1) := by
      intro n
      induction n using Nat.strongRecOn with
      | _ n ih =>
        intro before r after hlen hsplit
        have hbefore : ∀ z ∈ before, z.2.method.isVirtual = true ↔
            DeclaredVirtual ts (rs.map (·.1)) z.1 := by
          intro z hz
          obtain ⟨before', after', rfl⟩ := List.append_of_mem hz
          refine ih before'.length ?_ before' z (after' ++ r :: after) rfl (by simp [hsplit])
          rw [← hlen, List.length_append, List.length_cons]
          omega
        rw [(h before r after hsplit).flag]
        constructor
        · rintro (htext | ⟨z, hz, hnamed, hvirtual⟩)
          · exact htell.text r (by simp [hsplit]) htext
          · exact htell.named before r after hsplit z hz hnamed ((hbefore z hz).mp hvirtual)
        · intro hdecl
          refine (htell.found before r after hsplit hdecl).imp_right ?_
          rintro ⟨z, hz, hnamed, hz'⟩
          exact ⟨z, hz, hnamed, (hbefore z hz).mpr hz'⟩
    intro r hr
    obtain ⟨before, after, hsplit⟩ := List.append_of_mem hr
    exact main _ before r after rfl hsplit

/-! ### What the first pass registers -/

variable {gen : CCodeGenerator} {s s' s'' : VState} {decls : List ClassDecl} {c : ClassDecl}

/-- A state of the first pass. -/
structure InFirst (s : VState) : Prop where
  pass : s.firstPass = true
  recorded : Recorded s

/-- A part of the first pass that registers methods of these classes. -/
structure RegistersSome (decls : List ClassDecl) (s s' : VState) : Prop where
  state : InFirst s'
  classNames : s.classNames ⊆ s'.classNames
  entries : ∀ rs, RegisteredInOrder rs → rs.map (·.2) = s.registered → ∃ new,
    (∀ r ∈ new, r.1.DeclaredIn decls) ∧ RegisteredInOrder (rs ++ new) ∧
      (rs ++ new).map (·.2) = s'.registered

theorem Recorded.steps {b : Bool} (h : Recorded s) (hsteps : Steps b s s') : Recorded s' :=
  (hsteps.invariant (fun _ _ _ hstep h ↦ h.step hstep) h).1

theorem InFirst.steps {b : Bool} (hs : InFirst s) (h : Steps b s s') : InFirst s' :=
  ⟨h.firstPass_eq.trans hs.pass, hs.recorded.steps h⟩

namespace RegistersSome

theorem trans (h : RegistersSome decls s s') (h' : RegistersSome decls s' s'') :
    RegistersSome decls s s'' := by
  refine ⟨h'.state, fun _ hC ↦ h'.classNames (h.classNames hC), fun rs hrs hs ↦ ?_⟩
  obtain ⟨new, hdecls, hnew, hs'⟩ := h.entries rs hrs hs
  obtain ⟨new', hdecls', hnew', hs''⟩ := h'.entries _ hnew hs'
  rw [List.append_assoc] at hnew' hs''
  refine ⟨new ++ new', fun r hr ↦ ?_, hnew', hs''⟩
  exact (List.mem_append.mp hr).elim (hdecls r) (hdecls' r)

/-- A part of the pass that registers no method. -/
theorem of_registered (hs : InFirst s') (hclasses : s.classNames ⊆ s'.classNames)
    (h : s'.registered = s.registered) : RegistersSome decls s s' := by
  refine ⟨hs, hclasses, fun rs hrs hs ↦ ⟨[], nofun, ?_, ?_⟩⟩
  · rwa [List.append_nil]
  · rw [List.append_nil, hs, h]

theorem of_plain (hs : InFirst s) (h : Steps false s s') : RegistersSome decls s s' := by
  obtain ⟨hclasses, hregistered, -⟩ := h.record_eq
  exact .of_registered (hs.steps h) (by rw [hclasses]; exact List.Subset.refl _) hregistered

theorem plain_after (h : RegistersSome decls s s') (h' : Steps false s' s'') :
    RegistersSome decls s s'' :=
  h.trans (.of_plain h.state h')

end RegistersSome

/-- A class and its parent are declared. -/
structure KnownDecl (c : ClassDecl) (s : VState) : Prop where
  own : c.name.text ∈ s.classNames
  parent : ∀ P, c.parent = some P → P.text ∈ s.classNames

theorem KnownDecl.mono (h : KnownDecl c s) (hclasses : s.classNames ⊆ s'.classNames) :
    KnownDecl c s' :=
  ⟨hclasses h.own, fun P hP ↦ hclasses (h.parent P hP)⟩

/-- A class declaration before its members. -/
theorem classDecl_registers (c : ClassDecl) (hs : InFirst s) :
    Post (getClassFromCode c.name c.parent c.members) s fun t s₁ ↦
      Post (announceClass c.name.text t) s₁ fun _ s' ↦
        RegistersSome decls s s' ∧ ClassTypeOf c t ∧ KnownDecl c s' := by
  apply (getClassFromCode_spec c.name c.parent c.members).mono
  rintro type _ ⟨fields, ts, rfl, hlink⟩
  simp only [announceClass, post_bind, post_inFirstPass, post_ite, post_modify, post_get, post_emit]
  refine ⟨fun _ ↦ ?_, fun hs' ↦ absurd hs.pass (by simpa using hs')⟩
  rw [if_pos hs.pass] at hlink
  have hstep : VisitStep true s _ := .declareClass s rfl hs.pass hlink
  obtain ⟨-, -, ⟨t₀, ht₀, htype⟩, hparent⟩ := linkClass_spec hlink
  rw [TypeSystem.registerClass, NameMap.lookup_insert, if_pos rfl] at ht₀
  refine ⟨.of_registered (hs.steps (.single hstep)) (List.subset_append_left _ _) rfl, ?_,
    List.mem_append_right _ (List.mem_singleton_self _), fun P hP ↦ ?_⟩
  · rw [htype, ← Option.some.inj ht₀]
    exact ⟨rfl, rfl⟩
  · have hmem := hparent P.text (by rw [hP]; rfl)
    rw [Std.TreeMap.mem_iff_isSome_getElem?, TypeSystem.registerClass, NameMap.lookup_insert] at hmem
    split at hmem
    next heq =>
      rw [heq]
      exact List.mem_append_right _ (List.mem_singleton_self _)
    next =>
      rw [← Std.TreeMap.mem_iff_isSome_getElem?] at hmem
      exact List.mem_append_left _ ((hs.recorded.classes_iff _).mp hmem)

theorem ClassTypeOf.parent_cases (h : ClassTypeOf c t) : c.parent = none ∧ t.hasParent = false ∨
      ∃ P, c.parent = some P ∧ t.hasParent = true ∧ t.parentClass = P.text := by
  have hlink := h.hasParent_iff
  cases hp : c.parent with
  | none =>
    refine .inl ⟨rfl, ?_⟩
    cases ht : t.hasParent with
    | false => rfl
    | true => simp [ht, hp] at hlink
  | some P =>
    refine .inr ⟨P, rfl, ?_⟩
    cases ht : t.hasParent with
    | false => simp [ht, hp] at hlink
    | true => simpa [ht, hp] using hlink

/-- The header of a method is registered with the flag that the override check gives. -/
theorem registeredAfter_of_header
    (hs : InFirst s) (htype : ClassTypeOf d.owner t) (hknown : KnownDecl d.owner s)
    (hof : IsEntryOf d e) (htypes : e.types = s.typeSystem)
    (hvirtual : methodIsVirtual s.typeSystem t d.name.text d.member.getText =
      .ok e.method.isVirtual)
    (rs : List Registration) (hrs : RegisteredInOrder rs) (hregistered : rs.map (·.2) = s.registered) :
    RegisteredAfter rs (d, e) := by
  have hentry : ∀ z ∈ rs, IsEntryOf z.1 z.2 := by
    intro z hz
    obtain ⟨before, after, hsplit⟩ := List.append_of_mem hz
    exact (hrs before z after hsplit).entry
  refine ⟨hof, ?_⟩
  rcases htype.parent_cases with ⟨hnone, hp⟩ | ⟨P, hP, hp, hclass⟩
  · rw [methodIsVirtual_iff_parent hs.recorded (fun hp' ↦ by rw [hp] at hp'; cases hp') hvirtual]
    simp [hp, NamedAbove, hnone]
  · have hmem : t.parentClass ∈ s.typeSystem.classes := by
      rw [hclass]
      exact (hs.recorded.classes_iff _).mpr (hknown.parent P hP)
    rw [methodIsVirtual_iff_parent hs.recorded (fun _ ↦ hmem) hvirtual, ← hregistered]
    refine or_congr_right ⟨?_, ?_⟩
    · rintro ⟨-, e', he', hzvirtual, hname, hup⟩
      obtain ⟨z, hz, rfl⟩ := List.mem_map.mp he'
      rw [(hentry z hz).mangled] at hname
      rw [hclass, (hentry z hz).className, ← htypes] at hup
      exact ⟨z, hz, ⟨hname, P, hP, hup⟩, hzvirtual⟩
    · rintro ⟨z, hz, ⟨hname, P', hP', hup⟩, hzvirtual⟩
      obtain rfl : P = P' := Option.some.inj (hP.symm.trans hP')
      rw [← (hentry z hz).mangled] at hname
      rw [← hclass, ← (hentry z hz).className] at hup
      refine ⟨hp, z.2, List.mem_map_of_mem hz, hzvirtual, hname, ?_⟩
      rw [← htypes]
      exact hup

/-- A method is registered with its header. -/
theorem RegistersSome.of_header (hs : InFirst s)
    (hdecl : d.DeclaredIn decls) (htype : ClassTypeOf d.owner t) (hknown : KnownDecl d.owner s)
    (hof : IsEntryOf d e) (htypes : e.types = s.typeSystem)
    (hvirtual : methodIsVirtual s.typeSystem t d.name.text d.member.getText =
      .ok e.method.isVirtual) : RegistersSome decls s (recordHeader e s) := by
  rw [recordHeader, if_pos hs.pass]
  have hrecorded := hs.recorded.registerMethod
    (by rw [hof.className]; exact hknown.own)
    (by rw [hof.className, hof.methodName]; exact hof.mangled)
  refine ⟨⟨hs.pass, hrecorded⟩, List.Subset.refl _, fun rs hrs hregistered ↦
    ⟨[(d, e)], ?_, hrs.snoc ?_, ?_⟩⟩
  · intro r hr
    rw [List.mem_singleton.mp hr]
    exact hdecl
  · exact registeredAfter_of_header hs htype hknown hof htypes hvirtual rs hrs hregistered
  · rw [List.map_append, hregistered]
    rfl

/-- The first pass over statements registers methods of the classes in them. -/
theorem registers_walk : WalkRules
    (fun stmts s s' ↦ classDeclsIn true stmts ⊆ decls → InFirst s → RegistersSome decls s s')
    (fun C t ms s s' ↦ ∀ c ∈ decls, c.name.text = C → ClassTypeOf c t → ms ⊆ c.members →
      classDeclsOf true ms ⊆ decls → InFirst s → KnownDecl c s → RegistersSome decls s s') where
  before h h' hsub hs := (RegistersSome.of_plain hs h).trans (h' hsub (hs.steps h))
  after h h' hsub hs := (h hsub hs).plain_after h'
  nil s _ hs := .of_plain hs (.refl s)
  cons h h' hsub hs := by
    simp only [classDeclsIn, List.append_nil, List.append_subset] at h hsub
    have h₁ := h hsub.1 hs
    exact h₁.trans (h' hsub.2 h₁.state)
  inner hclass h hsub := h (List.Subset.trans (classDeclsIn_inner _ hclass).subset hsub)
  declare h₁ h₂ h₃ hsub hs := by
    simp only [classDeclsIn, classDecls, List.append_nil, List.cons_subset] at hsub
    obtain ⟨h, htype, hknown⟩ := ((classDecl_registers ⟨_, _, _⟩ hs).of_run _ _ h₁).of_run _ _ h₂
    exact h.trans (h₃ _ hsub.1 rfl htype (List.Subset.refl _) hsub.2 h.state hknown)
  noMember _ _ s _ _ _ _ _ _ hs _ := .of_plain hs (.refl s)
  members h h' c hc hC htype hms hsub hs hknown := by
    simp only [classDeclsOf, List.append_nil, List.append_subset] at h hsub
    rw [List.cons_subset] at hms
    have h₁ := h c hc hC htype (by simpa using hms.1) hsub.1 hs hknown
    exact h₁.trans (h' c hc hC htype hms.2 hsub.2 h₁.state (hknown.mono h₁.classNames))
  field _ _ _ s _ _ _ _ _ _ hs _ := .of_plain hs (.refl s)
  constructor h c _ _ _ _ hsub hs _ := by
    simp only [classDeclsOf, classDeclsOfMember, List.append_nil] at hsub
    exact h hsub hs
  method {C t virtualKeyword result name params body s s' _ isVirtual _} _ hvirtual _ h c hc hC htype
      hms hsub hs hknown := by
    subst hC
    simp only [classDeclsOf, classDeclsOfMember, List.append_nil] at hsub
    have hinner : classDeclsIn true (if s.firstPass && isVirtual then [] else body) ⊆ decls := by
      split
      · exact List.nil_subset _
      · exact hsub
    suffices hheader : RegistersSome decls s _ from hheader.trans (h hinner hheader.state)
    exact .of_header (d := ⟨c, virtualKeyword, result, name, params, body⟩) hs
      ⟨hc, hms List.mem_cons_self⟩ htype hknown ⟨rfl, rfl, rfl⟩ rfl hvirtual

/-! ### Programs -/

theorem visitTopLevel_registers (stmts : List Stmt) (hsub : classDeclsIn true stmts ⊆ decls)
    (hs : InFirst s) : Post (visitTopLevel gen stmts) s fun _ s' ↦ RegistersSome decls s s' :=
  (visitTopLevel_walk registers_walk stmts).mono fun _ _ h ↦ h hsub hs

/-- The methods that the first pass over a program has registered, each with its declaration. -/
structure Registrations (p : Program) (s : VState) (rs : List Registration) : Prop where
  registered : rs.map (·.2) = s.registered
  methods : ∀ C, s.typeSystem.getClassMethods C =
    (rs.filter (·.1.owner.name.text = C)).map (·.2.method)
  declared : ∀ r ∈ rs, r.1.DeclaredIn (classDeclsIn true p.statements)
  entry : ∀ r ∈ rs, IsEntryOf r.1 r.2

/-- After the first pass every method is registered as virtual exactly if it is declared or
inherited so, if and only if texts and names tell the same as the declarations. -/
theorem flags_declared_iff {p : Program} (hrun : (firstPassProgram gen p).run {} = .ok ((), s)) :
    ∃ rs, Registrations p s rs ∧ (FlagsDeclared s.typeSystem rs ↔ TextsTell s.typeSystem rs) := by
  have hpost : Post (firstPassProgram gen p) {} fun _ s ↦
      ∃ s₀, s₀.registered = [] ∧ RegistersSome (classDeclsIn true p.statements) s₀ s := by
    simp only [firstPassProgram, post_bind, post_emit, post_modify]
    apply (visitDirectives_frame p.directives).mono
    rintro _ _ ⟨text, defines, rfl⟩
    refine Post.mono (visitTopLevel_registers p.statements (List.Subset.refl _) ⟨rfl, ?_⟩) ?_
    · exact .initial _ _
    · exact fun _ s h ↦ ⟨_, rfl, h⟩
  obtain ⟨s₀, hnone, hsome⟩ := hpost.of_run _ _ hrun
  obtain ⟨rs, hdecls, horder, hregistered⟩ := hsome.entries [] (fun before r after hsplit ↦ by
    simp at hsplit) (by rw [hnone]; rfl)
  have hentry : ∀ r ∈ rs, IsEntryOf r.1 r.2 := by
    intro r hr
    obtain ⟨before, after, hsplit⟩ := List.append_of_mem hr
    exact (horder before r after hsplit).entry
  refine ⟨rs, ⟨hregistered, fun C ↦ ?_, hdecls, hentry⟩, horder.flags_iff⟩
  rw [hsome.state.recorded.methods, ← hregistered, List.nil_append, List.filter_map, List.map_map]
  refine congrArg (List.map _) (List.filter_congr fun r hr ↦ ?_)
  simp [(hentry r hr).className]

/-- The override of the example is virtual by inheritance, and found to be. -/
theorem flags_declared_iff_overriding : ∃ s rs,
    (firstPassProgram ⟨true⟩ overriding).run {} = .ok ((), s) ∧ Registrations overriding s rs ∧
      FlagsDeclared s.typeSystem rs := by
  have hrun : (firstPassProgram ⟨true⟩ overriding).run {} =
      .ok ((), afterFirstPass ⟨true⟩ overriding) := run_firstPassProgram (by decide +kernel)
  obtain ⟨rs, hrs, hiff⟩ := flags_declared_iff hrun
  have hBA : (afterFirstPass ⟨true⟩ overriding).typeSystem.parentOf "B" = some "A".toList := by
    decide +kernel
  have hnames : (afterFirstPass ⟨true⟩ overriding).registered.map
      (fun e ↦ (e.className, e.methodName)) = [("A".toList, "m".toList), ("B".toList, "m".toList)] := by
    decide +kernel
  rw [← hrs.registered, List.map_map] at hnames
  obtain ⟨a, _, rfl, ha, hnames⟩ := List.map_eq_cons_iff.mp hnames
  obtain ⟨b, rfl, hb⟩ := List.map_eq_singleton_iff.mp hnames
  have hentry := hrs.entry a (by simp)
  have hentry' := hrs.entry b (by simp)
  simp only [Function.comp_apply, hentry.className, hentry.methodName, hentry'.className,
    hentry'.methodName, Prod.mk.injEq] at ha hb
  obtain ⟨howner, hmember⟩ := hrs.declared a (by simp)
  obtain ⟨howner', -⟩ := hrs.declared b (by simp)
  -- The registrations belong to the two declarations of the program.
  have hA : a.1.virtualKeyword = true ∧ occursIn "virtual" a.1.member.getText = true := by
    rcases List.mem_cons.mp howner with howner | howner
    · rw [howner] at hmember
      have hmethod := List.mem_singleton.mp hmember
      refine ⟨(ClassMember.method.inj hmethod).1, ?_⟩
      rw [hmethod]
      decide +kernel
    · rw [List.mem_singleton.mp howner] at ha
      exact absurd ha.1 (by decide +kernel)
  have hB : ∃ P, b.1.owner.parent = some P ∧ P.text = "A" := by
    rcases List.mem_cons.mp howner' with howner' | howner'
    · rw [howner'] at hb
      exact absurd hb.1 (by decide +kernel)
    · rw [List.mem_singleton.mp howner']
      exact ⟨_, rfl, rfl⟩
  have hvirtual : DeclaredVirtual (afterFirstPass ⟨true⟩ overriding).typeSystem [a.1, b.1] a.1 :=
    .keyword hA.1
  have hvirtual' : DeclaredVirtual (afterFirstPass ⟨true⟩ overriding).typeSystem [a.1, b.1] b.1 := by
    refine .inherited List.mem_cons_self (ha.2.trans hb.2.symm) ?_ hvirtual
    rw [ha.1, hb.1]
    exact .single hBA
  have hall : ∀ r ∈ [a, b], DeclaredVirtual (afterFirstPass ⟨true⟩ overriding).typeSystem
      [a.1, b.1] r.1 := by
    intro r hr
    rcases List.mem_cons.mp hr with rfl | hr
    · exact hvirtual
    · rw [List.mem_singleton.mp hr]
      exact hvirtual'
  refine ⟨_, _, hrun, hrs, hiff.mpr ⟨fun r hr _ ↦ hall r hr, fun before r after hsplit _ ↦ ?_,
    fun before r after hsplit _ _ _ _ ↦ hall r (by rw [hsplit]; simp)⟩⟩
  match before, hsplit with
  | [], hsplit =>
    cases hsplit
    exact .inl hA.2
  | [z], hsplit =>
    cases hsplit
    obtain ⟨P, hP, hname⟩ := hB
    refine .inr ⟨a, List.mem_singleton_self a, ⟨?_, P, hP, ?_⟩, hvirtual⟩
    · rw [ha.1, ha.2, hb.2]
      decide +kernel
    · rw [hname, ha.1]
  | z :: z' :: before, hsplit => simp at hsplit

private def sizedClass : Ident := ⟨"A".toList, isIdentifier_A⟩

private def virtualSize : Ident := ⟨"virtualSize".toList, by decide +kernel⟩

/-- `class A { int virtualSize() {} }` -/
def sizedProgram : Program where
  directives := []
  statements := [.classDecl sizedClass none [.method false .int virtualSize [] []]]

/-- A method whose name contains `virtual` is registered as virtual, without the keyword and
without an ancestor. -/
theorem virtualSize_flagged : ∃ s, (firstPassProgram ⟨true⟩ sizedProgram).run {} = .ok ((), s) ∧
    Acyclic s.typeSystem.parentOf ∧
      ∀ rs, Registrations sizedProgram s rs → ¬ FlagsDeclared s.typeSystem rs := by
  have hparents : (afterFirstPass ⟨true⟩ sizedProgram).typeSystem.parentsFirst ["A".toList] = true := by
    decide +kernel
  have hacyclic := (TypeSystem.Hierarchy.of_parentsFirst _ hparents).acyclic
  have hflags : (afterFirstPass ⟨true⟩ sizedProgram).registered.map (·.method.isVirtual) = [true] := by
    decide +kernel
  refine ⟨_, run_firstPassProgram (by decide +kernel), hacyclic, fun rs hrs hdecl ↦ ?_⟩
  rw [← hrs.registered, List.map_map] at hflags
  obtain ⟨r, rfl, hr⟩ := List.map_eq_singleton_iff.mp hflags
  obtain ⟨howner, hmember⟩ := hrs.declared r (List.mem_singleton_self r)
  have hkeyword : r.1.virtualKeyword = false := by
    rw [List.mem_singleton.mp howner] at hmember
    exact (ClassMember.method.inj (List.mem_singleton.mp hmember)).1
  cases (hdecl r (List.mem_singleton_self r)).mp hr with
  | keyword hk =>
    rw [hkeyword] at hk
    cases hk
  | inherited hz hname hup hvirtual =>
    rw [List.map_singleton, List.mem_singleton] at hz
    rw [hz] at hup
    exact hacyclic _ hup

end JBLang.Classes
