import JBLang.Ast.Steps
import JBLang.Types.Shapes
import Mathlib.Data.List.Forall2

/-!
# What a pass builds from methods

Either pass builds a header from every method of every class that it meets. Which classes a pass
meets depends on the pass: the first one leaves out bodies, the second one `for` statements. The
methods of a class are met together, in their order.
-/

namespace JBLang.Classes

open JBLang.Base JBLang.Types JBLang.Ast JBLang.Codegen

/-! ### Class declarations -/

/-- A class declaration. -/
structure ClassDecl where
  name : Ident
  parent : Option Ident
  members : List ClassMember

mutual

/-- The class declarations in a statement, those in bodies of `for` statements where asked for. -/
def classDecls (inFor : Bool) : Stmt → List ClassDecl
  | .functionDecl _ _ _ body => classDeclsIn inFor body
  | .block body => classDeclsIn inFor body
  | .classDecl name parent members => ⟨name, parent, members⟩ :: classDeclsOf inFor members
  | .ifStmt _ thenBranch none => classDecls inFor thenBranch
  | .ifStmt _ thenBranch (some elseBranch) =>
    classDecls inFor thenBranch ++ classDecls inFor elseBranch
  | .whileStmt _ body => classDecls inFor body
  | .forStmt _ _ _ body => if inFor then classDecls inFor body else []
  | .varDecl .. | .spawnStmt .. | .returnStmt .. | .exprStmt .. | .structDecl ..
  | .typedefDecl .. => []

/-- The class declarations in a list of statements. -/
def classDeclsIn (inFor : Bool) : List Stmt → List ClassDecl
  | [] => []
  | s :: ss => classDecls inFor s ++ classDeclsIn inFor ss

/-- The class declarations in the body of a member. -/
def classDeclsOfMember (inFor : Bool) : ClassMember → List ClassDecl
  | .field _ => []
  | .constructor _ _ _ body => classDeclsIn inFor body
  | .method _ _ _ _ body => classDeclsIn inFor body

/-- The class declarations in the bodies of the members of a class. -/
def classDeclsOf (inFor : Bool) : List ClassMember → List ClassDecl
  | [] => []
  | m :: ms => classDeclsOfMember inFor m ++ classDeclsOf inFor ms

end

/-- No class name is declared twice in the program. -/
def DistinctClasses (decls : List ClassDecl) : Prop := (decls.map (·.name.text)).Nodup

instance (decls : List ClassDecl) : Decidable (DistinctClasses decls) :=
  inferInstanceAs (Decidable (List.Nodup _))

/-! ### What a pass builds from a method -/

/-- The type of a class as it is declared. -/
structure ClassTypeOf (c : ClassDecl) (t : Ty) : Prop where
  shape : t.shape = ⟨.class, false, none, c.name.text⟩
  parentClass : t.parentClass = (c.parent.map Ident.text).getD []

/-- The name and the type of a declarator. -/
inductive DeclaratorTyped (ts : TypeSystem) : Declarator → Str × Ty → Prop
  | plain {t : TypeSpec} {name : Ident} {type : Ty}
    (h : resolveTypeText ts t.getText = .ok type) :
    DeclaratorTyped ts (.plain t name) (name.text, type)
  | array {t : TypeSpec} {name : Ident} {sizes : List ArraySize} {type : Ty} {ns : List Int}
    (h : resolveTypeText ts t.getText = .ok type)
    (hsizes : sizes.mapM (arraySizeValue ts) = .ok ns) :
    DeclaratorTyped ts (.array t name sizes) (name.text, type.setArray name.text ns)

/-- The header that a pass builds from a method, in a state where `I` holds. -/
inductive Built (I : VState → Prop) : ClassDecl × ClassMember → MethodEntry → Prop
  | method {c : ClassDecl} {virtualKeyword : Bool} {result : TypeSpec} {name : Ident}
    {params : List Declarator} {body : List Stmt} {s : VState} {classType returnType : Ty}
    {ps : List (Str × Ty)} {isVirtual : Bool} (hI : I s) (hclass : ClassTypeOf c classType)
    (hresult : resolveTypeText s.typeSystem result.getText = .ok returnType)
    (hvirtual : methodIsVirtual s.typeSystem classType name.text
      (ClassMember.method virtualKeyword result name params body).getText = .ok isVirtual)
    (hparams : List.Forall₂ (DeclaratorTyped s.typeSystem) params ps) :
    Built I (c, .method virtualKeyword result name params body)
      { className := c.name.text
        methodName := name.text
        saysVirtual := occursIn "virtual"
          (ClassMember.method virtualKeyword result name params body).getText
        method := { name := c.name.text ++ "_" ++ name.text
                    params := ("this", classType.setPointer) :: ps
                    returnType, isVirtual }
        types := s.typeSystem }

variable {gen : CCodeGenerator} {s s' s'' : VState} {c : ClassDecl}

theorem declaratorType_typed (d : Declarator) :
    Post (declaratorType d) s fun p s' ↦ s' = s ∧ DeclaratorTyped s.typeSystem d p := by
  cases d with
  | plain t name =>
    simp only [declaratorType, resolveTypeFromContext, post_bind, post_askTypes, post_pure]
    exact fun type h ↦ ⟨trivial, .plain h⟩
  | array t name sizes =>
    simp only [declaratorType, resolveTypeFromContext, post_bind, post_askTypes, post_pure]
    exact fun type h ns hns ↦ ⟨trivial, .array h hns⟩

theorem declaratorTypes_typed (ds : List Declarator) :
    Post (declaratorTypes ds) s fun ps s' ↦
      s' = s ∧ List.Forall₂ (DeclaratorTyped s.typeSystem) ds ps := by
  induction ds with
  | nil =>
    simp only [declaratorTypes, post_pure]
    exact ⟨trivial, .nil⟩
  | cons d ds ih =>
    simp only [declaratorTypes, post_bind, post_pure]
    apply (declaratorType_typed d).mono
    rintro p s ⟨rfl, hp⟩
    apply ih.mono
    rintro ps s ⟨rfl, hps⟩
    exact ⟨rfl, .cons hp hps⟩

theorem Built.className_eq {I : VState → Prop} {site : ClassDecl × ClassMember}
    {e : MethodEntry} (h : Built I site e) : e.className = site.1.name.text := by
  cases h
  rfl

/-! ### What a pass meets -/

/-- The methods among the members of a class. -/
def methodsOf (c : ClassDecl) : List ClassMember → List (ClassDecl × ClassMember)
  | [] => []
  | .method v result name params body :: ms =>
    (c, .method v result name params body) :: methodsOf c ms
  | .field _ :: ms | .constructor .. :: ms => methodsOf c ms

variable {ms : List ClassMember}

theorem class_of_mem_methodsOf {x : ClassDecl × ClassMember} (h : x ∈ methodsOf c ms) : x.1 = c := by
  induction ms with
  | nil => cases h
  | cons m ms ih =>
    cases m with
    | field | «constructor» => exact ih h
    | method =>
      rcases List.mem_cons.mp h with rfl | h
      · rfl
      · exact ih h

/-- The methods of a class, in a list of methods. -/
def sitesOf (C : Str) (sites : List (ClassDecl × ClassMember)) : List (ClassDecl × ClassMember) :=
  sites.filter (·.1.name.text = C)

/-- The list holds for each class of `met` the methods it is paired with, and no others. -/
structure Holds (met : List (ClassDecl × List ClassMember))
    (sites : List (ClassDecl × ClassMember)) : Prop where
  owned : ∀ x ∈ sites, ∃ w ∈ met, w.1.name.text = x.1.name.text
  complete : ∀ w ∈ met, sitesOf w.1.name.text sites = methodsOf w.1 w.2

namespace Holds

variable {met met' : List (ClassDecl × List ClassMember)}
  {sites sites' : List (ClassDecl × ClassMember)}

theorem sitesOf_eq_nil (h : Holds met sites) {C : Str} (hC : ∀ w ∈ met, w.1.name.text ≠ C) :
    sitesOf C sites = [] := by
  refine List.filter_eq_nil_iff.mpr fun x hx ↦ ?_
  obtain ⟨w, hw, hname⟩ := h.owned x hx
  simpa [← hname] using hC w hw

theorem sitesOf_append (C : Str) : sitesOf C (sites ++ sites') = sitesOf C sites ++ sitesOf C sites' :=
  List.filter_append ..

/-- Two parts of a program that declare different classes. -/
theorem append (h : Holds met sites) (h' : Holds met' sites')
    (hne : ∀ w ∈ met, ∀ w' ∈ met', w.1.name.text ≠ w'.1.name.text) :
    Holds (met ++ met') (sites ++ sites') where
  owned x hx := by
    rcases List.mem_append.mp hx with hx | hx
    · obtain ⟨w, hw, hname⟩ := h.owned x hx
      exact ⟨w, List.mem_append_left _ hw, hname⟩
    · obtain ⟨w, hw, hname⟩ := h'.owned x hx
      exact ⟨w, List.mem_append_right _ hw, hname⟩
  complete w hw := by
    rw [sitesOf_append]
    rcases List.mem_append.mp hw with hw | hw
    · rw [h.complete w hw, h'.sitesOf_eq_nil fun w' hw' ↦ (hne w hw w' hw').symm, List.append_nil]
    · rw [h'.complete w hw, h.sitesOf_eq_nil fun w' hw' ↦ hne w' hw' w hw, List.nil_append]

/-- A class next to others, with members that are no methods. -/
theorem own_none (h : Holds met sites) (hc : ∀ w ∈ met, w.1.name.text ≠ c.name.text)
    (hms : methodsOf c ms = []) : Holds ((c, ms) :: met) sites where
  owned x hx := by
    obtain ⟨w, hw, hname⟩ := h.owned x hx
    exact ⟨w, List.mem_cons_of_mem _ hw, hname⟩
  complete w hw := by
    rcases List.mem_cons.mp hw with rfl | hw
    · exact (h.sitesOf_eq_nil hc).trans hms.symm
    · exact h.complete w hw

theorem methodsOf_append (c : ClassDecl) (ms ms' : List ClassMember) :
    methodsOf c (ms ++ ms') = methodsOf c ms ++ methodsOf c ms' := by
  induction ms with
  | nil => rfl
  | cons m ms ih =>
    cases m with
    | field | «constructor» => exact ih
    | method => exact congrArg (_ :: ·) ih

/-- Two parts of the members of a class. -/
theorem members {ms' : List ClassMember} (h : Holds ((c, ms) :: met) sites)
    (h' : Holds ((c, ms') :: met') sites') (hc : ∀ w ∈ met ++ met', w.1.name.text ≠ c.name.text)
    (hne : ∀ w ∈ met, ∀ w' ∈ met', w.1.name.text ≠ w'.1.name.text) :
    Holds ((c, ms ++ ms') :: (met ++ met')) (sites ++ sites') where
  owned x hx := by
    rcases List.mem_append.mp hx with hx | hx
    · obtain ⟨w, hw, hname⟩ := h.owned x hx
      rcases List.mem_cons.mp hw with rfl | hw
      · exact ⟨_, List.mem_cons_self, hname⟩
      · exact ⟨w, List.mem_cons_of_mem _ (List.mem_append_left _ hw), hname⟩
    · obtain ⟨w, hw, hname⟩ := h'.owned x hx
      rcases List.mem_cons.mp hw with rfl | hw
      · exact ⟨_, List.mem_cons_self, hname⟩
      · exact ⟨w, List.mem_cons_of_mem _ (List.mem_append_right _ hw), hname⟩
  complete w hw := by
    rw [sitesOf_append]
    rcases List.mem_cons.mp hw with rfl | hw
    · rw [h.complete _ List.mem_cons_self, h'.complete _ List.mem_cons_self, methodsOf_append]
    · have hcw := hc w hw
      rcases List.mem_append.mp hw with hw | hw
      · rw [h.complete w (List.mem_cons_of_mem _ hw), h'.sitesOf_eq_nil, List.append_nil]
        intro w' hw'
        rcases List.mem_cons.mp hw' with rfl | hw'
        · exact hcw.symm
        · exact (hne w hw w' hw').symm
      · rw [h'.complete w (List.mem_cons_of_mem _ hw), h.sitesOf_eq_nil, List.nil_append]
        intro w' hw'
        rcases List.mem_cons.mp hw' with rfl | hw'
        · exact hcw.symm
        · exact hne w' hw' w hw

end Holds

/-- A class with all its members. -/
def whole (c : ClassDecl) : ClassDecl × List ClassMember := (c, c.members)

/-- What the record of a run gets from classes and headers, in either pass. -/
structure Adds (met : List ClassDecl) (new : List MethodEntry) (s s' : VState) : Prop where
  pass : s'.firstPass = s.firstPass
  classNames : s.firstPass = true → s'.classNames = s.classNames ++ met.map (·.name.text)
  registered : s.firstPass = true → s'.registered = s.registered ++ new
  defined : s.firstPass = false → s'.defined = s.defined ++ new.map (·.method)

theorem Adds.trans {met met' : List ClassDecl} {new new' : List MethodEntry}
    (h : Adds met new s s') (h' : Adds met' new' s' s'') :
    Adds (met ++ met') (new ++ new') s s'' where
  pass := h'.pass.trans h.pass
  classNames hs := by
    rw [h'.classNames (h.pass.trans hs), h.classNames hs, List.map_append, List.append_assoc]
  registered hs := by
    rw [h'.registered (h.pass.trans hs), h.registered hs, List.append_assoc]
  defined hs := by
    rw [h'.defined (h.pass.trans hs), h.defined hs, List.map_append, List.append_assoc]

theorem Adds.of_plain (h : Steps false s s') : Adds [] [] s s' := by
  obtain ⟨hclasses, hregistered, hdefined⟩ := h.record_eq
  exact ⟨h.firstPass_eq, fun _ ↦ by simp [hclasses], fun _ ↦ by simp [hregistered],
    fun _ ↦ by simp [hdefined]⟩

/-- What holds in a state of a pass is kept by its steps; where it meets one of the classes it
knows the type and `K` holds of the class. -/
structure PassInvariant (decls : List ClassDecl) (I : VState → Prop) (K : ClassDecl → Prop) :
    Prop where
  plain : ∀ {s s' : VState}, Steps false s s' → I s → I s'
  declare : ∀ {s : VState} {c : ClassDecl}, c ∈ decls → I s →
    Post (getClassFromCode c.name c.parent c.members) s fun t s₁ ↦
      Post (announceClass c.name.text t) s₁ fun _ s' ↦ I s' ∧ ClassTypeOf c t ∧ K c
  register : ∀ {s : VState} (entry : MethodEntry), s.firstPass = true → I s →
    I { s with
      typeSystem := s.typeSystem.registerClassMethod entry.className entry.method
      registered := s.registered ++ [entry] }
  define : ∀ {s : VState} (f : Function), I s → I { s with defined := s.defined ++ [f] }

section

variable {decls : List ClassDecl} {I : VState → Prop} {K : ClassDecl → Prop}
  {own own' : List (ClassDecl × List ClassMember)} {all all' outer outer' : List ClassDecl}

/-- A part of a pass over `all` classes, `outer` those outside of `for` statements, that builds the
headers of the methods it meets; `own` is a class that it is inside of. -/
structure Builds (I : VState → Prop) (K : ClassDecl → Prop)
    (own : List (ClassDecl × List ClassMember)) (all outer : List ClassDecl) (s s' : VState) :
    Prop where
  inv : I s'
  built : ∃ met sites new, met.Sublist all ∧ (s.firstPass = false → met = outer) ∧
    (∀ c ∈ met, K c) ∧ Holds (own ++ met.map whole) sites ∧
    List.Forall₂ (Built I) sites new ∧ Adds met new s s'

namespace Builds

/-- Two parts one after the other, where the methods they meet fit together. -/
theorem combine {own'' : List (ClassDecl × List ClassMember)} (h : Builds I K own all outer s s')
    (h' : Builds I K own' all' outer' s' s'')
    (hholds : ∀ {met met' : List ClassDecl} {sites sites' : List (ClassDecl × ClassMember)},
      met.Sublist all → met'.Sublist all' →
      Holds (own ++ met.map whole) sites → Holds (own' ++ met'.map whole) sites' →
      Holds (own'' ++ (met.map whole ++ met'.map whole)) (sites ++ sites')) :
    Builds I K own'' (all ++ all') (outer ++ outer') s s'' := by
  obtain ⟨met, sites, new, hsub, houter, hK, hsites, hbuilt, hadds⟩ := h.built
  obtain ⟨met', sites', new', hsub', houter', hK', hsites', hbuilt', hadds'⟩ := h'.built
  refine ⟨h'.inv, met ++ met', sites ++ sites', new ++ new', hsub.append hsub', fun hs ↦ ?_,
    fun c hc ↦ (List.mem_append.mp hc).elim (hK c) (hK' c), ?_, List.rel_append hbuilt hbuilt',
    hadds.trans hadds'⟩
  · rw [houter hs, houter' (hadds.pass.trans hs)]
  · rw [List.map_append]
    exact hholds hsub hsub' hsites hsites'

/-- A part of a pass that meets no class. -/
theorem of_plain (hinv : PassInvariant decls I K) (hs : I s) (h : Steps false s s')
    (houter : s.firstPass = false → outer = []) : Builds I K [] all outer s s' :=
  ⟨hinv.plain h hs, [], [], [], List.nil_sublist _, fun hp ↦ (houter hp).symm, nofun, ⟨nofun, nofun⟩,
    .nil, .of_plain h⟩

theorem plain_after (hinv : PassInvariant decls I K) (h : Builds I K own all outer s s')
    (h' : Steps false s' s'') : Builds I K own all outer s s'' := by
  obtain ⟨met, sites, new, hsub, houter, hK, hsites, hbuilt, hadds⟩ := h.built
  exact ⟨hinv.plain h' h.inv, met, sites, new, hsub, houter, hK, hsites, hbuilt,
    by simpa using hadds.trans (.of_plain h')⟩

theorem plain_before (h : Steps false s s') (h' : Builds I K own all outer s' s'') :
    Builds I K own all outer s s'' := by
  obtain ⟨met, sites, new, hsub, houter, hK, hsites, hbuilt, hadds⟩ := h'.built
  exact ⟨h'.inv, met, sites, new, hsub, fun hs ↦ houter (h.firstPass_eq.trans hs), hK, hsites,
    hbuilt, by simpa using (Adds.of_plain h).trans hadds⟩

/-- The first pass may leave out classes, and the second those in `for` statements. -/
theorem within (h : Builds I K own all outer s s') (hall : all.Sublist all')
    (houter : s.firstPass = false → outer = outer') : Builds I K own all' outer' s s' := by
  obtain ⟨met, sites, new, hsub, hmet, hrest⟩ := h.built
  exact ⟨h.inv, met, sites, new, hsub.trans hall, fun hs ↦ (hmet hs).trans (houter hs), hrest⟩

end Builds

/-- Different parts of a program declare different classes. -/
theorem DistinctClasses.ne (hd : DistinctClasses decls) (hsub : (all ++ all').Sublist decls)
    {c c' : ClassDecl} (hc : c ∈ all) (hc' : c' ∈ all') : c.name.text ≠ c'.name.text := by
  have hnodup : ((all ++ all').map fun c : ClassDecl ↦ c.name.text).Nodup :=
    (hsub.map _).nodup hd
  rw [List.map_append] at hnodup
  exact (List.nodup_append.mp hnodup).2.2 _ (List.mem_map_of_mem hc) _ (List.mem_map_of_mem hc')

/-- A class has another name than those declared in its members. -/
theorem DistinctClasses.ne_head (hd : DistinctClasses decls) (hsub : (c :: all).Sublist decls)
    {c' : ClassDecl} (hc' : c' ∈ all) : c'.name.text ≠ c.name.text := by
  have hsub' : ([c] ++ all).Sublist decls := hsub
  exact (hd.ne hsub' (List.mem_singleton_self c) hc').symm

/-- The classes met on the way are among those declared there. -/
private theorem whole_mem {met : List ClassDecl} {w : ClassDecl × List ClassMember}
    (hmet : met.Sublist all) (hw : w ∈ met.map whole) : w.1 ∈ all := by
  obtain ⟨c, hc, rfl⟩ := List.mem_map.mp hw
  exact hmet.subset hc

theorem Builds.trans (hd : DistinctClasses decls) (hsub : (all ++ all').Sublist decls)
    (h : Builds I K [] all outer s s') (h' : Builds I K [] all' outer' s' s'') :
    Builds I K [] (all ++ all') (outer ++ outer') s s'' :=
  h.combine h' fun hmet hmet' hsites hsites' ↦ hsites.append hsites' fun _ hw _ hw' ↦
    hd.ne hsub (whole_mem hmet hw) (whole_mem hmet' hw')

/-- Two parts of the members of a class. -/
theorem Builds.members {ms' : List ClassMember} (hd : DistinctClasses decls)
    (hsub : (c :: (all ++ all')).Sublist decls) (h : Builds I K [(c, ms)] all outer s s')
    (h' : Builds I K [(c, ms')] all' outer' s' s'') :
    Builds I K [(c, ms ++ ms')] (all ++ all') (outer ++ outer') s s'' := by
  refine h.combine h' fun hmet hmet' hsites hsites' ↦ hsites.members hsites' ?_ fun _ hw _ hw' ↦
    hd.ne ((List.sublist_cons_self _ _).trans hsub) (whole_mem hmet hw) (whole_mem hmet' hw')
  intro w hw
  have hall : w.1 ∈ all ++ all' := by
    rcases List.mem_append.mp hw with hw | hw
    · exact List.mem_append_left _ (whole_mem hmet hw)
    · exact List.mem_append_right _ (whole_mem hmet' hw)
  exact hd.ne_head hsub hall

/-- The body of a member, in the class it belongs to. -/
theorem Builds.of_body (hd : DistinctClasses decls) (hsub : (c :: all).Sublist decls)
    (hms : methodsOf c ms = []) (h : Builds I K [] all outer s s') :
    Builds I K [(c, ms)] all outer s s' := by
  obtain ⟨met, sites, new, hmet, houter, hK, hsites, hbuilt, hadds⟩ := h.built
  refine ⟨h.inv, met, sites, new, hmet, houter, hK, hsites.own_none (fun w hw ↦ ?_) hms,
    hbuilt, hadds⟩
  exact hd.ne_head hsub (whole_mem hmet hw)

/-- A class with all its members. -/
theorem Builds.of_members (hc : K c) (hstart : Adds [c] [] s s')
    (h : Builds I K [(c, c.members)] all outer s' s'') :
    Builds I K [] (c :: all) (c :: outer) s s'' := by
  obtain ⟨met, sites, new, hmet, houter, hK, hsites, hbuilt, hadds⟩ := h.built
  refine ⟨h.inv, c :: met, sites, new, hmet.cons_cons c, fun hs ↦ ?_, ?_, hsites, hbuilt,
    hstart.trans hadds⟩
  · rw [houter (hstart.pass.trans hs)]
  · intro c' hc'
    rcases List.mem_cons.mp hc' with rfl | hc'
    · exact hc
    · exact hK c' hc'

/-- A class declaration is recorded before its members. -/
theorem classDecl_adds (c : ClassDecl) :
    Post (getClassFromCode c.name c.parent c.members) s fun t s₁ ↦
      Post (announceClass c.name.text t) s₁ fun _ s' ↦ Adds [c] [] s s' := by
  apply (getClassFromCode_spec c.name c.parent c.members).mono
  rintro type _ ⟨fields, ts, rfl, -⟩
  simp only [announceClass, post_bind, post_inFirstPass, post_ite, post_modify, post_get, post_emit]
  exact ⟨fun hs ↦ ⟨rfl, fun _ ↦ rfl, fun _ ↦ by simp, fun hs' ↦ by simp [hs] at hs'⟩,
    fun hs ↦ ⟨rfl, fun hs' ↦ by simp [hs'] at hs, fun _ ↦ by simp, fun _ ↦ by simp⟩⟩

/-- The header of a method, as either pass records it. -/
private theorem header_builds (hinv : PassInvariant decls I K) (hs : I s) {m : ClassMember}
    {e : MethodEntry} (he : Built I (c, m) e) (hmethods : methodsOf c [m] = [(c, m)]) :
    Builds I K [(c, [m])] [] [] s (recordHeader e s) := by
  have hrecord : I (recordHeader e s) ∧ Adds [] [e] s (recordHeader e s) := by
    unfold recordHeader
    split
    next hpass => exact ⟨hinv.register e hpass hs, rfl, fun _ ↦ by simp, fun _ ↦ rfl,
      fun hs' ↦ by simp [hpass] at hs'⟩
    next hpass => exact ⟨hinv.define _ hs, rfl, fun hs' ↦ absurd hs' hpass,
      fun hs' ↦ absurd hs' hpass, fun _ ↦ rfl⟩
  refine ⟨hrecord.1, [], [(c, m)], [e], List.Sublist.refl _, fun _ ↦ rfl, nofun, ⟨?_, ?_⟩,
    .cons he .nil, hrecord.2⟩
  · intro x hx
    rw [List.mem_singleton.mp hx]
    exact ⟨_, List.mem_singleton_self _, rfl⟩
  · intro w hw
    rw [List.map_nil, List.append_nil, List.mem_singleton] at hw
    subst hw
    simp [sitesOf, hmethods]

/-- The classes that a pass meets inside of a statement are classes of the statement. -/
theorem classDeclsIn_inner (first : Bool) {stmt : Stmt}
    (hclass : ∀ name parent members, stmt ≠ .classDecl name parent members) :
    (classDeclsIn true (innerStmts first stmt)).Sublist (classDeclsIn true [stmt]) := by
  cases stmt with
  | classDecl name parent members => exact absurd rfl (hclass name parent members)
  | ifStmt cond thenBranch elseBranch =>
    cases elseBranch <;> cases first <;> simp [innerStmts, classDeclsIn, classDecls]
  | _ => cases first <;> simp [innerStmts, classDeclsIn, classDecls]

/-- The second pass meets all of them but those in `for` statements. -/
theorem classDeclsIn_inner_second {stmt : Stmt}
    (hclass : ∀ name parent members, stmt ≠ .classDecl name parent members) :
    classDeclsIn false (innerStmts false stmt) = classDeclsIn false [stmt] := by
  cases stmt with
  | classDecl name parent members => exact absurd rfl (hclass name parent members)
  | ifStmt cond thenBranch elseBranch =>
    cases elseBranch <;> simp [innerStmts, classDeclsIn, classDecls]
  | _ => simp [innerStmts, classDeclsIn, classDecls]

/-- A pass builds the headers of the methods of the classes it meets. -/
theorem builds_walk (hinv : PassInvariant decls I K) (hd : DistinctClasses decls) : WalkRules
    (fun stmts s s' ↦ (classDeclsIn true stmts).Sublist decls → I s →
      Builds I K [] (classDeclsIn true stmts) (classDeclsIn false stmts) s s')
    (fun C t ms s s' ↦ ∀ c : ClassDecl, c.name.text = C → ClassTypeOf c t →
      (c :: classDeclsOf true ms).Sublist decls → I s →
        Builds I K [(c, ms)] (classDeclsOf true ms) (classDeclsOf false ms) s s') where
  before h h' hsub hs := (h' hsub (hinv.plain h hs)).plain_before h
  after h h' hsub hs := (h hsub hs).plain_after hinv h'
  nil s _ hs := .of_plain hinv hs (.refl s) fun _ ↦ rfl
  cons h h' hsub hs := by
    simp only [classDeclsIn, List.append_nil] at h hsub ⊢
    have h₁ := h ((List.sublist_append_left _ _).trans hsub) hs
    exact h₁.trans hd hsub (h' ((List.sublist_append_right _ _).trans hsub) h₁.inv)
  inner {_ s _} hclass h hsub hs := by
    have hinner := classDeclsIn_inner s.firstPass hclass
    refine (h (hinner.trans hsub) hs).within hinner fun hs' ↦ ?_
    rw [hs', classDeclsIn_inner_second hclass]
  declare {name parent members _ _ _ _ _} h₁ h₂ h₃ hsub hs := by
    simp only [classDeclsIn, classDecls, List.append_nil] at hsub ⊢
    have hmem : (⟨name, parent, members⟩ : ClassDecl) ∈ decls := hsub.subset List.mem_cons_self
    obtain ⟨hs₂, htype, hK⟩ := ((hinv.declare hmem hs).of_run _ _ h₁).of_run _ _ h₂
    have hadds := ((classDecl_adds ⟨name, parent, members⟩).of_run _ _ h₁).of_run _ _ h₂
    exact .of_members hK hadds (h₃ _ rfl htype hsub hs₂)
  noMember _ _ s _ _ _ hsub hs := .of_body hd hsub rfl (.of_plain hinv hs (.refl s) fun _ ↦ rfl)
  members h h' c hC htype hsub hs := by
    simp only [classDeclsOf, List.append_nil] at h hsub ⊢
    have h₁ := h c hC htype (((List.sublist_append_left _ _).cons_cons c).trans hsub) hs
    exact h₁.members hd hsub
      (h' c hC htype (((List.sublist_append_right _ _).cons_cons c).trans hsub) h₁.inv)
  field _ _ _ s _ _ _ hsub hs := .of_body hd hsub rfl (.of_plain hinv hs (.refl s) fun _ ↦ rfl)
  constructor h c _ _ hsub hs := by
    simp only [classDeclsOf, classDeclsOfMember, List.append_nil] at hsub ⊢
    exact .of_body hd hsub rfl (h ((List.sublist_cons_self _ _).trans hsub) hs)
  method {C t virtualKeyword result name params body s s' _ isVirtual _} hresult hvirtual hparams h c
      hC htype hsub hs := by
    subst hC
    simp only [classDeclsOf, classDeclsOfMember, List.append_nil] at hsub ⊢
    obtain ⟨-, hparams⟩ := (declaratorTypes_typed params).of_run _ _ hparams
    have hheader := header_builds hinv hs (Built.method (c := c) hs htype hresult hvirtual hparams) rfl
    split at h
    next hskip =>
      simp only [classDeclsIn] at h
      have hown : [c].Sublist decls := List.singleton_sublist.mpr (hsub.subset List.mem_cons_self)
      have h₁ := h (List.nil_sublist _) hheader.inv
      refine (hheader.members hd hown (.of_body hd hown rfl h₁)).within (List.nil_sublist _) ?_
      intro hs'
      simp [hs'] at hskip
    next =>
      have h₁ := h ((List.sublist_cons_self _ _).trans hsub) hheader.inv
      exact hheader.members hd hsub (.of_body hd hsub rfl h₁)

theorem visitTopLevel_builds (hinv : PassInvariant decls I K) (hd : DistinctClasses decls)
    (stmts : List Stmt) (hsub : (classDeclsIn true stmts).Sublist decls) (hs : I s) :
    Post (visitTopLevel gen stmts) s fun _ s' ↦
      Builds I K [] (classDeclsIn true stmts) (classDeclsIn false stmts) s s' :=
  (visitTopLevel_walk (builds_walk hinv hd) stmts).mono fun _ _ h ↦ h hsub hs

end

end JBLang.Classes
