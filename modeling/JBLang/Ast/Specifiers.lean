import JBLang.Ast.Names
import JBLang.Ast.Parsing

/-!
# The names that type specifiers are looked up under

`resolveTypeFromContext` takes the text of a specifier apart again: a leading `struct` is cut off,
whether it is the keyword or the beginning of the name, and the keyword `class` becomes a part of
the name. What the specifier resolves to is then the entry of the remaining name, made a pointer
where stars follow.
-/

namespace JBLang.Ast

open JBLang.Base JBLang.Types

variable {ts : TypeSystem} {name : Str} {t : Ty}

/-! ### Names -/

/-- The types that need no declaration. -/
def builtinType (name : Str) : Option Ty :=
  if name = "void" then some { base := .void }
  else if name = "int" then some { base := .int }
  else if name = "string" then some { base := .string, isPointer := true }
  else if name = "bool" then some { base := .bool }
  else none

/-- The registered type of a name: the first one in the order of the registries. -/
def declaredType (ts : TypeSystem) (name : Str) : Option Ty :=
  (ts.typedefs[name]?).or ((ts.structs[name]?).or ts.classes[name]?)

/-- What a name stands for. -/
def namedType (ts : TypeSystem) (name : Str) : Option Ty :=
  (builtinType name).or (declaredType ts name)

theorem resolveBase_toOption (ts : TypeSystem) (name source : Str) :
    (ts.resolveBase name source).toOption = namedType ts name := by
  unfold TypeSystem.resolveBase namedType builtinType declaredType
  split_ifs
  · rfl
  · rfl
  · rfl
  · rfl
  · cases ts.typedefs[name]? with
    | some t => rfl
    | none => cases ts.structs[name]? with
      | some t => rfl
      | none => cases ts.classes[name]? <;> rfl

/-- No identifier is the name of a builtin type. -/
theorem builtinType_ident (name : Ident) : builtinType name.text = none := by
  have hkeyword : ∀ word ∈ keywords, name.text ≠ word := by
    rintro word hword rfl
    have hvalid := name.valid
    cases htext : name.text with
    | nil => simp [htext, isIdentifier] at hvalid
    | cons c rest =>
      rw [htext] at hword
      simp [htext, isIdentifier, hword] at hvalid
  unfold builtinType
  rw [if_neg (hkeyword _ (by decide)), if_neg (hkeyword _ (by decide)),
    if_neg (hkeyword _ (by decide)), if_neg (hkeyword _ (by decide))]

theorem namedType_ident (ts : TypeSystem) (name : Ident) :
    namedType ts name.text = declaredType ts name.text := by
  rw [namedType, builtinType_ident, Option.none_or]

/-! ### Stars -/

/-- Some stars. -/
def starsText (n : Nat) : Str := List.replicate n '*'

/-- A type with some stars behind it: they make a pointer, whatever their number. -/
def withStars (n : Nat) (t : Ty) : Ty := if n = 0 then t else t.setPointer

theorem setPointer_withStars (n : Nat) (t : Ty) : (withStars n t).setPointer = t.setPointer := by
  unfold withStars
  split <;> rfl

/-- A word with stars behind it stands for the word's type. -/
theorem resolveType_stars (ts : TypeSystem) (hname : IsWord name) (n : Nat) :
    (ts.resolveType (name ++ starsText n)).toOption = (namedType ts name).map (withStars n) := by
  have hstar : '*' ∉ name := hname.not_mem (by decide)
  have hbracket : '[' ∉ name ++ starsText n := by
    rw [List.mem_append, not_or]
    exact ⟨hname.not_mem (by decide), fun hmem ↦ absurd (List.eq_of_mem_replicate hmem) (by decide)⟩
  have hnone : beforeFirst "[".toList (name ++ starsText n) = none :=
    beforeFirst_of_not_mem hbracket []
  rw [← resolveBase_toOption ts name (name ++ starsText n)]
  simp only [TypeSystem.resolveType, TypeSystem.translateType, hnone, Option.getD_none]
  cases n with
  | zero =>
    have hself : name ++ starsText 0 = name := List.append_nil name
    have hs : beforeFirst "*".toList name = none := beforeFirst_of_not_mem hstar []
    rw [hself, hs, Option.getD_none]
    cases ts.resolveBase name name <;> rfl
  | succ n =>
    have hs : beforeFirst "*".toList (name ++ starsText (n + 1)) = some name :=
      beforeFirst_append_of_not_mem hstar _
    rw [hs, Option.getD_some]
    cases ts.resolveBase name (name ++ starsText (n + 1)) <;> rfl

/-! ### Specifiers -/

/-- The specifier without its stars. -/
def TypeSpec.bare : TypeSpec → TypeSpec
  | .pointer t => t.bare
  | t => t

/-- The number of stars. -/
def TypeSpec.stars : TypeSpec → Nat
  | .pointer t => t.stars + 1
  | _ => 0

theorem TypeSpec.getText_eq (t : TypeSpec) : t.getText = t.bare.getText ++ starsText t.stars := by
  induction t with
  | pointer t ih =>
    have hstars : starsText (t.stars + 1) = starsText t.stars ++ "*" := List.replicate_succ'
    have htext : (pointer t).getText = t.getText ++ "*" := rfl
    rw [htext, ih, bare, stars, hstars, List.append_assoc]
  | _ => simp [bare, stars, starsText]

theorem TypeSpec.isWord_bare (t : TypeSpec) : IsWord t.bare.getText := by
  induction t with
  | named tag name =>
    rcases tag with _ | _ | _
    · exact name.isWord
    · exact IsWord.append (by decide) name.isWord
    · exact IsWord.append (by decide) name.isWord
  | pointer t ih => exact ih
  | _ => decide

/-- The name that the text of a specifier without stars is looked up under. -/
def lookedUp (text : Str) : Str := if text.take 6 = "struct" then text.drop 6 else text

theorem take_stars_iff (word : Str) (n : Nat) :
    (word ++ starsText n).take 6 = "struct".toList ↔ word.take 6 = "struct".toList := by
  have hskip : ∀ text : Str, text.take 6 = "struct".toList ↔ "struct".toList <+: text := by
    intro text
    rw [List.prefix_iff_eq_take, eq_comm]
    rfl
  rw [hskip, hskip]
  constructor
  · intro h
    rcases List.prefix_or_prefix_of_prefix h (List.prefix_append word _) with hp | ⟨rest, hrest⟩
    · exact hp
    · -- What the keyword has behind the word would be stars.
      cases rest with
      | nil =>
        rw [List.append_nil] at hrest
        exact hrest ▸ List.prefix_refl _
      | cons c rest =>
        rw [← hrest, List.prefix_append_right_inj] at h
        have hc : c = '*' := List.eq_of_mem_replicate (h.subset List.mem_cons_self)
        have hmem : c ∈ "struct".toList := hrest ▸ List.mem_append_right _ List.mem_cons_self
        rw [hc] at hmem
        exact absurd hmem (by decide)
  · intro h
    exact h.trans (List.prefix_append word _)

/-- A word with stars behind it as a specifier. -/
theorem resolveTypeText_stars (ts : TypeSystem) {word : Str} (hword : IsWord word) (n : Nat) :
    (resolveTypeText ts (word ++ starsText n)).toOption =
      (namedType ts (lookedUp word)).map (withStars n) := by
  unfold resolveTypeText lookedUp
  by_cases hstruct : word.take 6 = "struct".toList
  · rw [if_pos ((take_stars_iff word n).mpr hstruct), if_pos hstruct]
    have hlength : 6 ≤ word.length := by
      have hlen := congrArg List.length hstruct
      have hsix : "struct".toList.length = 6 := rfl
      rw [List.length_take] at hlen
      omega
    have hdrop : (word ++ starsText n).drop 6 = word.drop 6 ++ starsText n :=
      List.drop_append_of_le_length hlength
    have hrest : IsWord (word.drop 6) :=
      List.all_eq_true.mpr fun c hc ↦ List.all_eq_true.mp hword c (List.mem_of_mem_drop hc)
    simp only [hdrop]
    cases n with
    | zero =>
      have hlast : (word.drop 6 ++ starsText 0).getLast? ≠ some '*' := by
        intro hlast
        have hmem := List.mem_of_getLast? hlast
        simp only [starsText, List.replicate_zero, List.append_nil] at hmem
        exact hrest.not_mem (by decide) hmem
      rw [if_neg hlast]
      exact resolveType_stars ts hrest 0
    | succ n =>
      have hlast : (word.drop 6 ++ starsText (n + 1)).getLast? = some '*' := by
        rw [starsText, List.getLast?_append, List.getLast?_replicate]
        rfl
      have hinit : (word.drop 6 ++ starsText (n + 1)).dropLast = word.drop 6 ++ starsText n := by
        rw [starsText, List.dropLast_append_of_ne_nil (by simp), List.dropLast_replicate]
        rfl
      rw [if_pos hlast, hinit]
      have hresolve := resolveType_stars ts hrest n
      -- The last star is taken off and makes the pointer; those before it are found again.
      cases hfound : ts.resolveType (word.drop 6 ++ starsText n) with
      | error e =>
        rw [hfound] at hresolve
        rw [eq_comm, Except.toOption, Option.map_eq_none_iff] at hresolve
        rw [hresolve]
        rfl
      | ok t =>
        rw [hfound] at hresolve
        obtain ⟨t', ht', rfl⟩ := Option.map_eq_some_iff.mp hresolve.symm
        rw [ht']
        exact congrArg some (setPointer_withStars n t')
  · rw [if_neg fun h ↦ hstruct ((take_stars_iff word n).mp h), if_neg hstruct]
    exact resolveType_stars ts hword n

/-- What a specifier resolves to. -/
theorem resolveTypeText_getText (ts : TypeSystem) (t : TypeSpec) :
    (resolveTypeText ts t.getText).toOption =
      (namedType ts (lookedUp t.bare.getText)).map (withStars t.stars) := by
  rw [t.getText_eq]
  exact resolveTypeText_stars ts t.isWord_bare t.stars

theorem eq_ok_iff_toOption {x : Except VisitError Ty} {t : Ty} :
    x = .ok t ↔ x.toOption = some t := by
  constructor
  · rintro rfl
    rfl
  · exact eq_ok_of_toOption

/-! ### Spellings of a declared name -/

/-- The registered type that a spelling of a name asks for. -/
def registeredType (ts : TypeSystem) (name : Str) : Option Tag → Option Ty
  | none => declaredType ts name
  | some .struct => ts.structs[name]?
  | some .class => ts.classes[name]?

/-- The spelling leads to the type: a name that begins with `struct` would have to leave a name
of the same type, a struct must not have the name of another `typedef`, and behind `class` the
type must be registered under the two words in one. -/
def SpellingReaches (ts : TypeSystem) (name : Str) (t : Ty) : Option Tag → Prop
  | none => ∀ rest : Str, name = "struct" ++ rest → namedType ts rest = some t
  | some .struct => ∀ t', ts.typedefs[name]? = some t' → t' = t
  | some .class => declaredType ts ("class" ++ name) = some t

theorem TypeSpec.bare_addPointers (tag : Option Tag) (name : Ident) (n : Nat) :
    ((TypeSpec.named tag name).addPointers n).bare = .named tag name := by
  induction n with
  | zero => rfl
  | succ n ih => exact ih

theorem TypeSpec.stars_addPointers (tag : Option Tag) (name : Ident) (n : Nat) :
    ((TypeSpec.named tag name).addPointers n).stars = n := by
  induction n with
  | zero => rfl
  | succ n ih => rw [addPointers, stars, ih]

theorem run_resolveTypeFromContext_iff {s : VState} {spec : TypeSpec} :
    (resolveTypeFromContext spec).run s = .ok (t, s) ↔
      resolveTypeText s.typeSystem spec.getText = .ok t := by
  change (askTypes fun ts ↦ resolveTypeText ts spec.getText).run s = _ ↔ _
  have hrun : (askTypes fun ts ↦ resolveTypeText ts spec.getText).run s =
      (resolveTypeText s.typeSystem spec.getText).map fun t ↦ (t, s) := by
    unfold askTypes
    cases hresolve : resolveTypeText s.typeSystem spec.getText with
    | error e => simp [hresolve, Except.map]
    | ok t => simp [hresolve, Except.map]
  rw [hrun]
  cases resolveTypeText s.typeSystem spec.getText with
  | error e => simp [Except.map]
  | ok t' => simp [Except.map]

/-- The spelling resolves to its type if the name it is looked up under stands for it. -/
theorem spellings_iff_namedType {s : VState} (name : Ident) (tag : Option Tag) :
    (∀ n, (resolveTypeFromContext ((TypeSpec.named tag name).addPointers n)).run s =
        .ok (withStars n t, s)) ↔
      namedType s.typeSystem (lookedUp (TypeSpec.named tag name).getText) = some t := by
  simp only [run_resolveTypeFromContext_iff, eq_ok_iff_toOption, resolveTypeText_getText,
    TypeSpec.bare_addPointers, TypeSpec.stars_addPointers]
  constructor
  · intro h
    obtain ⟨t', ht', heq⟩ := Option.map_eq_some_iff.mp (h 0)
    rw [ht']
    exact congrArg some heq
  · intro h n
    rw [h]
    rfl

/-- A declared name resolves to its registered type in a spelling, with any number of stars, if
and only if the spelling reaches it. -/
theorem spellings_resolve_iff (s : VState) (name : Ident) (tag : Option Tag)
    (h : registeredType s.typeSystem name.text tag = some t) :
    (∀ n, (resolveTypeFromContext ((TypeSpec.named tag name).addPointers n)).run s =
        .ok (withStars n t, s)) ↔ SpellingReaches s.typeSystem name.text t tag := by
  rw [spellings_iff_namedType]
  rcases tag with _ | _ | _
  · change namedType s.typeSystem (lookedUp name.text) = some t ↔ _
    unfold lookedUp
    by_cases hstruct : name.text.take 6 = "struct".toList
    · have hsplit : name.text = "struct" ++ name.text.drop 6 := by
        rw [← hstruct, List.take_append_drop]
      rw [if_pos hstruct]
      constructor
      · intro hnamed rest hrest
        rwa [hrest] at hnamed
      · exact fun hreach ↦ hreach _ hsplit
    · rw [if_neg hstruct, namedType_ident]
      refine iff_of_true h fun rest hrest ↦ absurd ?_ hstruct
      rw [hrest]
      rfl
  · change namedType s.typeSystem name.text = some t ↔ _
    have hstruct : s.typeSystem.structs[name.text]? = some t := h
    rw [namedType_ident, declaredType, hstruct, SpellingReaches]
    cases s.typeSystem.typedefs[name.text]? with
    | none => simp
    | some t' => simp
  · have hlooked : lookedUp (TypeSpec.named (some .class) name).getText = "class" ++ name.text := by
      have hfirst : ("class" ++ name.text).take 6 ≠ "struct".toList := by simp
      have htext : (TypeSpec.named (some .class) name).getText = "class" ++ name.text := rfl
      rw [htext, lookedUp, if_neg hfirst]
    have hbuiltin : builtinType ("class" ++ name.text) = none := by
      simp [builtinType]
    rw [hlooked, namedType, hbuiltin, Option.none_or]
    rfl

private def pointName : Ident := ⟨"Point".toList, by decide +kernel⟩

private def structureName : Ident := ⟨"structure".toList, by decide +kernel⟩

private def declaredClass : Ident := ⟨"A".toList, isIdentifier_A⟩

/-- The state after the first pass over `struct Point {} struct structure {} class A {}`. -/
def behindDeclarations : VState :=
  afterFirstPass ⟨true⟩ ⟨[], [.structDecl ⟨pointName, []⟩, .structDecl ⟨structureName, []⟩,
    .classDecl declaredClass none []]⟩

/-- `struct structure` resolves, with any number of stars. -/
theorem spellings_resolve_iff_struct : ∃ t,
    registeredType behindDeclarations.typeSystem structureName.text (some .struct) = some t ∧
      ∀ n, (resolveTypeFromContext ((TypeSpec.named (some .struct) structureName).addPointers n)).run
        behindDeclarations = .ok (withStars n t, behindDeclarations) := by
  have hdeclared : (registeredType behindDeclarations.typeSystem structureName.text
      (some .struct)).isSome = true ∧
      behindDeclarations.typeSystem.typedefs[structureName.text]?.isNone = true := by
    decide +kernel
  obtain ⟨t, ht⟩ := Option.isSome_iff_exists.mp hdeclared.1
  refine ⟨t, ht, (spellings_resolve_iff _ structureName (some .struct) ht).mpr fun t' ht' ↦ ?_⟩
  rw [Option.isNone_iff_eq_none.mp hdeclared.2] at ht'
  cases ht'

/-- `class A` and `structure` do not resolve, though both are declared. -/
theorem spellings_unresolved :
    (registeredType behindDeclarations.typeSystem declaredClass.text (some .class)).isSome = true ∧
      ((resolveTypeFromContext (.named (some .class) declaredClass)).run behindDeclarations).isOk = false ∧
      (registeredType behindDeclarations.typeSystem structureName.text none).isSome = true ∧
      ((resolveTypeFromContext (.named none structureName)).run behindDeclarations).isOk = false := by
  decide +kernel

end JBLang.Ast
