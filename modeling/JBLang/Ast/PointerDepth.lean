import JBLang.Ast.Specifiers

/-!
# The depth of printed pointers

What a specifier denotes in C is a base with any number of stars. The printed type has at most
one star of its own, and `string` brings another one. The declarations of a program are followed
together with what C takes the names of `typedef`s for.
-/

namespace JBLang.Ast

open JBLang.Base JBLang.Types

/-! ### Types of C -/

/-- A type of C that is no pointer. -/
inductive CBase where
  | void
  | int
  | bool
  | char
  | struct (name : Str)
deriving DecidableEq

/-- A type of C: a base and how often it is pointed to. -/
structure CType where
  base : CBase
  depth : Nat
deriving DecidableEq

/-- The text of a base. -/
def CBase.text : CBase → Str
  | .void => "void"
  | .int => "int"
  | .bool => "bool"
  | .char => "char"
  | .struct name => "struct " ++ name

/-- The text of a type. -/
def CType.text (c : CType) : Str := c.base.text ++ starsText c.depth

/-- Some more stars. -/
def CType.pointed (n : Nat) (c : CType) : CType := { c with depth := c.depth + n }

/-- The type that is printed in place of a type: one star at most, and two behind `char`. -/
def CType.printed (c : CType) : CType :=
  { c with depth := if c.base = .char then 2 else min c.depth 1 }

/-- The base is `void`, `int`, `bool`, `char` or a struct whose name is a word. -/
def CBase.Named : CBase → Prop
  | .struct name => IsWord name
  | _ => True

theorem CBase.text_struct (name : Str) : (CBase.struct name).text = "struct " ++ name := rfl

theorem CBase.star_not_mem {b : CBase} (h : b.Named) : '*' ∉ b.text := by
  cases b with
  | struct name =>
    rw [text_struct, List.mem_append, not_or]
    exact ⟨by decide, IsWord.not_mem h (by decide)⟩
  | _ => decide

/-- The text of a struct has a blank. -/
theorem CBase.blank_mem_struct (name : Str) : ' ' ∈ (CBase.struct name).text := by
  rw [text_struct]
  exact List.mem_append_left _ (by decide)

theorem CBase.text_injective {b b' : CBase} (h : b.text = b'.text) : b = b' := by
  have hstruct : ∀ b : CBase, ' ' ∈ b.text → ∃ name, b = .struct name := by
    intro b hb
    cases b with
    | struct name => exact ⟨name, rfl⟩
    | _ => exact absurd hb (by decide)
  by_cases hblank : ' ' ∈ b.text
  · obtain ⟨name, rfl⟩ := hstruct b hblank
    obtain ⟨name', rfl⟩ := hstruct b' (h ▸ hblank)
    rw [text_struct, text_struct] at h
    rw [List.append_cancel_left h]
  · have hblank' : ' ' ∉ b'.text := h ▸ hblank
    cases b with
    | struct name => exact absurd (blank_mem_struct name) hblank
    | _ => cases b' with
      | struct name' => exact absurd (blank_mem_struct name') hblank'
      | _ => first | rfl | exact absurd h (by decide)

/-- Different types have different texts. -/
theorem CType.text_injective {c c' : CType} (hc : c.base.Named) (hc' : c'.base.Named)
    (h : c.text = c'.text) : c = c' := by
  have hcount : ∀ c : CType, c.base.Named → c.text.count '*' = c.depth := by
    intro c hc
    rw [text, List.count_append, List.count_eq_zero_of_not_mem (CBase.star_not_mem hc), starsText,
      List.count_replicate_self, Nat.zero_add]
  have hdepth : c.depth = c'.depth := by rw [← hcount c hc, h, hcount c' hc']
  rw [text, text, hdepth] at h
  have hbase := CBase.text_injective (List.append_cancel_right h)
  cases c
  cases c'
  simp_all

/-! ### What specifiers denote -/

/-- What the name of a `typedef` denotes by its definition, and what the definition is looked up
as. -/
structure Meaning where
  denoted : Option CType
  found : CType

/-- The `typedef`s of a program. -/
abbrev Meanings := NameMap Meaning

/-- What the names of the builtin types denote. -/
def builtinMeaning (name : Str) : Option CType :=
  if name = "void" then some ⟨.void, 0⟩
  else if name = "int" then some ⟨.int, 0⟩
  else if name = "string" then some ⟨.char, 1⟩
  else if name = "bool" then some ⟨.bool, 0⟩
  else none

/-- The struct that a struct or a class of the name becomes. -/
def structMeaning (ts : TypeSystem) (name : Str) : Option CType :=
  if ts.structs.contains name || ts.classes.contains name then some ⟨.struct name, 0⟩ else none

/-- The type that a specifier of the grammar denotes. -/
def TypeSpec.denotes (ts : TypeSystem) (Γ : Meanings) : TypeSpec → Option CType
  | .void => some ⟨.void, 0⟩
  | .int => some ⟨.int, 0⟩
  | .bool => some ⟨.bool, 0⟩
  | .string => some ⟨.char, 1⟩
  | .named none name => match Γ[name.text]? with
    | some meaning => meaning.denoted
    | none => structMeaning ts name.text
  | .named (some .struct) name =>
    if ts.structs.contains name.text then some ⟨.struct name.text, 0⟩ else none
  | .named (some .class) name =>
    if ts.classes.contains name.text then some ⟨.struct name.text, 0⟩ else none
  | .pointer t => (t.denotes ts Γ).map (CType.pointed 1)

/-- What a name is found as. -/
def nameFound (ts : TypeSystem) (Γ : Meanings) (name : Str) : Option CType :=
  (builtinMeaning name).or (((Γ[name]?).map Meaning.found).or (structMeaning ts name))

/-- What a specifier is found as, by the name that it is looked up under. -/
def TypeSpec.found (ts : TypeSystem) (Γ : Meanings) (spec : TypeSpec) : Option CType :=
  (nameFound ts Γ (lookedUp spec.bare.getText)).map (CType.pointed spec.stars)

/-- The type systems that declarations lead to, with what the `typedef`s mean. -/
inductive Declared : TypeSystem → Meanings → Prop
  | start : Declared {} ∅
  | typedefSpec {ts : TypeSystem} {Γ : Meanings} (h : Declared ts Γ) (name : Ident)
    {spec : TypeSpec} {type : Ty} {c : CType} (hresolve : resolveTypeText ts spec.getText = .ok type)
    (hfound : spec.found ts Γ = some c) :
    Declared (ts.registerTypeDef name.text type) (Γ.insert name.text ⟨spec.denotes ts Γ, c⟩)
  | typedefStruct {ts : TypeSystem} {Γ : Meanings} (h : Declared ts Γ) (name : Ident)
    {structName : Str} {type : Ty} (hstruct : ts.structs[structName]? = some type) :
    Declared (ts.registerTypeDef name.text type)
      (Γ.insert name.text ⟨some ⟨.struct structName, 0⟩, ⟨.struct structName, 0⟩⟩)
  | registerStruct {ts : TypeSystem} {Γ : Meanings} (h : Declared ts Γ) (name : Ident) :
    Declared (ts.registerStruct name.text) Γ
  | setStructMembers {ts ts' : TypeSystem} {Γ : Meanings} (h : Declared ts Γ) {name : Str}
    {members : List (Str × Ty)} {type : Ty}
    (hset : ts.setStructMembers name members = .ok (ts', type)) : Declared ts' Γ
  | registerClass {ts : TypeSystem} {Γ : Meanings} (h : Declared ts Γ) (name : Ident) :
    Declared (ts.registerClass name.text) Γ
  | setClassParent {ts ts' : TypeSystem} {Γ : Meanings} (h : Declared ts Γ) {name parent : Str}
    (hset : ts.setClassParent name parent = .ok ts') : Declared ts' Γ
  | setClassMembers {ts ts' : TypeSystem} {Γ : Meanings} (h : Declared ts Γ) {name : Str}
    {members : List (Str × Ty)} {type : Ty}
    (hset : ts.setClassMembers name members = .ok (ts', type)) : Declared ts' Γ
  -- Functions, methods, constructors and defined names are in other tables.
  | other {ts ts' : TypeSystem} {Γ : Meanings} (h : Declared ts Γ)
    (htypedefs : ts'.typedefs = ts.typedefs) (hstructs : ts'.structs = ts.structs)
    (hclasses : ts'.classes = ts.classes) : Declared ts' Γ

/-! ### What registered types stand for -/

/-- The base of a registered type, in C. -/
def cBase (t : Ty) : CBase :=
  match t.base with
  | .void => .void
  | .int => .int
  | .bool => .bool
  | .string => .char
  | .struct | .class => .struct t.structName

/-- A registered type stands for a type of C: it has the base, and knows whether it is a
pointer. -/
structure Stands (t : Ty) (c : CType) : Prop where
  array : t.array = none
  base : cBase t = c.base
  pointer : t.isPointer = true ↔ c.base = .char ∨ 0 < c.depth
  named : c.base.Named

variable {ts : TypeSystem} {Γ : Meanings} {t : Ty} {c : CType} {name : Str}

theorem Stands.withStars (h : Stands t c) (n : Nat) : Stands (withStars n t) (c.pointed n) := by
  cases n with
  | zero => exact h
  | succ n =>
    refine ⟨h.array, h.base, iff_of_true rfl (.inr ?_), h.named⟩
    exact Nat.succ_pos (c.depth + n)

/-- The stars of a printed type: one for a pointer, and one that `string` brings. -/
theorem toStr_eq_stars (h : t.array = none) : t.toStr = (cBase t).text ++
    starsText ((if cBase t = .char then 1 else 0) + if t.isPointer then 1 else 0) := by
  obtain ⟨base, isPointer, array, structName, parentClass, structMembers⟩ := t
  subst h
  cases isPointer with
  | true => cases base <;> rfl
  | false => cases base <;> first | rfl | exact (List.append_nil _).symm

/-- What stands for a type is printed with one star at most, or two behind `char`. -/
theorem Stands.toStr_eq (h : Stands t c) : t.toStr = c.printed.text := by
  have hdepth : (if c.base = .char then 1 else 0) + (if t.isPointer = true then 1 else 0) =
      c.printed.depth := by
    rw [CType.printed]
    by_cases hchar : c.base = .char
    · rw [if_pos hchar, if_pos hchar, if_pos (h.pointer.mpr (.inl hchar))]
    · rw [if_neg hchar, if_neg hchar]
      by_cases hpos : 0 < c.depth
      · rw [if_pos (h.pointer.mpr (.inr hpos))]
        exact (Nat.min_eq_right hpos).symm
      · rw [if_neg fun hp ↦ (h.pointer.mp hp).elim hchar hpos]
        rw [Nat.eq_zero_of_not_pos hpos]
        rfl
  rw [toStr_eq_stars h.array, h.base, hdepth]
  rfl

theorem stands_builtin (hname : builtinType name = some t) :
    ∃ c, builtinMeaning name = some c ∧ Stands t c := by
  unfold builtinType at hname
  unfold builtinMeaning
  split_ifs at hname ⊢
  · cases hname
    exact ⟨_, rfl, rfl, rfl, by simp, trivial⟩
  · cases hname
    exact ⟨_, rfl, rfl, rfl, by simp, trivial⟩
  · cases hname
    exact ⟨_, rfl, rfl, rfl, by simp, trivial⟩
  · cases hname
    exact ⟨_, rfl, rfl, rfl, by simp, trivial⟩

theorem builtinMeaning_eq_none (hname : builtinType name = none) : builtinMeaning name = none := by
  unfold builtinType at hname
  unfold builtinMeaning
  split_ifs at hname ⊢
  rfl

/-- The registered types stand for what they are found as. -/
structure Followed (ts : TypeSystem) (Γ : Meanings) : Prop where
  typedefs : ∀ name : Str, (ts.typedefs[name]? = none ∧ Γ[name]? = none) ∨
    ∃ t, ∃ meaning : Meaning, ts.typedefs[name]? = some t ∧ Γ[name]? = some meaning ∧
      Stands t meaning.found
  denoted : ∀ (name : Str) meaning c, Γ[name]? = some meaning → meaning.denoted = some c →
    c.base.Named
  structs : ∀ (name : Str) t, ts.structs[name]? = some t → Stands t ⟨.struct name, 0⟩
  classes : ∀ (name : Str) t, ts.classes[name]? = some t → Stands t ⟨.struct name, 0⟩

/-- A name is found as what its type stands for. -/
theorem Followed.nameFound (h : Followed ts Γ) (name : Str) :
    (namedType ts name = none ∧ nameFound ts Γ name = none) ∨
      ∃ t c, namedType ts name = some t ∧ nameFound ts Γ name = some c ∧ Stands t c := by
  unfold namedType declaredType Ast.nameFound
  cases hbuiltin : builtinType name with
  | some t =>
    obtain ⟨c, hc, hstands⟩ := stands_builtin hbuiltin
    exact .inr ⟨t, c, rfl, by rw [hc, Option.some_or], hstands⟩
  | none =>
    rw [builtinMeaning_eq_none hbuiltin, Option.none_or, Option.none_or]
    rcases h.typedefs name with ⟨ht, hΓ⟩ | ⟨t, meaning, ht, hΓ, hstands⟩
    · rw [ht, hΓ, Option.map_none, Option.none_or, Option.none_or, structMeaning,
        Std.TreeMap.contains_eq_isSome_getElem?, Std.TreeMap.contains_eq_isSome_getElem?]
      cases hstruct : ts.structs[name]? with
      | some t => exact .inr ⟨t, _, rfl, by simp, h.structs name t hstruct⟩
      | none => cases hclass : ts.classes[name]? with
        | some t => exact .inr ⟨t, _, by simp, by simp, h.classes name t hclass⟩
        | none => exact .inl (by simp)
    · rw [ht, hΓ, Option.map_some, Option.some_or, Option.some_or]
      exact .inr ⟨t, _, rfl, rfl, hstands⟩

/-- A specifier that is found resolves to a type that stands for it. -/
theorem Followed.resolves (h : Followed ts Γ) (spec : TypeSpec) :
    ((resolveTypeText ts spec.getText).toOption = none ∧ spec.found ts Γ = none) ∨
      ∃ t c, resolveTypeText ts spec.getText = .ok t ∧ spec.found ts Γ = some c ∧ Stands t c := by
  simp only [eq_ok_iff_toOption]
  rw [resolveTypeText_getText, TypeSpec.found]
  rcases h.nameFound (lookedUp spec.bare.getText) with ⟨ht, hc⟩ | ⟨t, c, ht, hc, hstands⟩
  · rw [ht, hc]
    exact .inl ⟨rfl, rfl⟩
  · rw [ht, hc]
    exact .inr ⟨_, _, rfl, rfl, hstands.withStars spec.stars⟩

variable {s : VState} {spec : TypeSpec}

/-- What is denoted has a name that is a word. -/
theorem Followed.named (h : Followed ts Γ) (hc : spec.denotes ts Γ = some c) : c.base.Named := by
  have hstruct : ∀ {test : Bool} (name : Ident) {c : CType},
      (if test = true then some (⟨.struct name.text, 0⟩ : CType) else none) = some c →
        c.base.Named := by
    intro test name c hsome
    split_ifs at hsome
    cases hsome
    exact name.isWord
  induction spec generalizing c with
  | named tag name =>
    rcases tag with _ | _ | _
    · rw [TypeSpec.denotes] at hc
      split at hc
      · next meaning hmeaning => exact h.denoted name.text meaning c hmeaning hc
      · exact hstruct name hc
    · exact hstruct name hc
    · exact hstruct name hc
  | pointer t ih =>
    obtain ⟨c₀, hc₀, rfl⟩ := Option.map_eq_some_iff.mp hc
    exact ih (c := c₀) hc₀
  | _ =>
    cases hc
    trivial

theorem Followed.insert_typedef (h : Followed ts Γ) (name : Str) {meaning : Meaning}
    (ht : Stands t meaning.found) (hc : ∀ c, meaning.denoted = some c → c.base.Named) :
    Followed (ts.registerTypeDef name t) (Γ.insert name meaning) := by
  have hlookup : ∀ name' : Str, (ts.registerTypeDef name t).typedefs[name']? =
      if name' = name then some t else ts.typedefs[name']? := NameMap.lookup_insert _ _ _
  refine ⟨fun name' ↦ ?_, fun name' meaning' c hmeaning ↦ ?_, h.structs, h.classes⟩
  · rw [hlookup, NameMap.lookup_insert]
    split
    · exact .inr ⟨t, meaning, rfl, rfl, ht⟩
    · exact h.typedefs name'
  · rw [NameMap.lookup_insert] at hmeaning
    split at hmeaning
    · cases hmeaning
      exact hc c
    · exact h.denoted name' meaning' c hmeaning

theorem Followed.insert_struct (h : Followed ts Γ) (ht : Stands t ⟨.struct name, 0⟩) :
    Followed { ts with structs := ts.structs.insert name t } Γ := by
  refine ⟨h.typedefs, h.denoted, fun name' t' ht' ↦ ?_, h.classes⟩
  change (ts.structs.insert name t)[name']? = some t' at ht'
  rw [NameMap.lookup_insert] at ht'
  split at ht'
  · next heq =>
    cases ht'
    exact heq ▸ ht
  · exact h.structs name' t' ht'

theorem Followed.insert_class (h : Followed ts Γ) (ht : Stands t ⟨.struct name, 0⟩) :
    Followed { ts with classes := ts.classes.insert name t } Γ := by
  refine ⟨h.typedefs, h.denoted, h.structs, fun name' t' ht' ↦ ?_⟩
  change (ts.classes.insert name t)[name']? = some t' at ht'
  rw [NameMap.lookup_insert] at ht'
  split at ht'
  · next heq =>
    cases ht'
    exact heq ▸ ht
  · exact h.classes name' t' ht'

/-- Members and parents do not change what a type stands for. -/
theorem Stands.congr {t' : Ty} (h : Stands t c) (hcore : t'.base = t.base)
    (hname : t'.structName = t.structName) (hpointer : t'.isPointer = t.isPointer)
    (harray : t'.array = t.array) : Stands t' c := by
  refine ⟨harray.trans h.array, ?_, by rw [hpointer, h.pointer], h.named⟩
  rw [← h.base, cBase, cBase, hcore, hname]

theorem Declared.followed (h : Declared ts Γ) : Followed ts Γ := by
  induction h with
  | start => exact ⟨fun name ↦ .inl ⟨by simp, by simp⟩, by simp, by simp, by simp⟩
  | typedefSpec _ name hresolve hfound ih =>
    refine ih.insert_typedef name.text ?_ fun c hc ↦ ih.named hc
    rcases ih.resolves _ with ⟨hnone, -⟩ | ⟨t, c, ht, hc, hstands⟩
    · rw [hresolve] at hnone
      cases hnone
    · rw [hresolve] at ht
      rw [hfound] at hc
      cases ht
      cases hc
      exact hstands
  | typedefStruct _ name hstruct ih =>
    have hstands := ih.structs _ _ hstruct
    refine ih.insert_typedef name.text hstands fun c hc ↦ ?_
    cases hc
    exact hstands.named
  | registerStruct _ name ih =>
    exact ih.insert_struct ⟨rfl, rfl, by simp, name.isWord⟩
  | setStructMembers _ hset ih =>
    obtain ⟨t, ht, rfl, rfl⟩ := TypeSystem.setStructMembers_eq_ok.mp hset
    exact ih.insert_struct ((ih.structs _ _ ht).congr rfl rfl rfl rfl)
  | registerClass _ name ih =>
    exact ih.insert_class ⟨rfl, rfl, by simp, name.isWord⟩
  | setClassParent _ hset ih =>
    obtain ⟨t, ht, -, rfl⟩ := TypeSystem.setClassParent_eq_ok.mp hset
    exact ih.insert_class ((ih.classes _ _ ht).congr rfl rfl rfl rfl)
  | setClassMembers _ hset ih =>
    obtain ⟨t, ht, rfl, rfl⟩ := TypeSystem.setClassMembers_eq_ok.mp hset
    exact ih.insert_class ((ih.classes _ _ ht).congr rfl rfl rfl rfl)
  | other _ htypedefs hstructs hclasses ih =>
    refine ⟨fun name ↦ ?_, ih.denoted, fun name t ↦ ?_, fun name t ↦ ?_⟩
    · rw [htypedefs]
      exact ih.typedefs name
    · rw [hstructs]
      exact ih.structs name t
    · rw [hclasses]
      exact ih.classes name t

/-! ### Declarations that are visited -/

/-- A step of a visit that leaves the `typedef`s alone. -/
theorem Declared.step {s' : VState} {b : Bool} (h : Declared s.typeSystem Γ)
    (hstep : VisitStep b s s') (hsame : s'.typeSystem.typedefs = s.typeSystem.typedefs) :
    Declared s'.typeSystem Γ := by
  have hlink : ∀ {ts ts' : TypeSystem} {name : Str} {parent : Option Str}
      {fields : List (Str × Ty)} {type : Ty}, Declared ts Γ →
      linkClass ts name parent fields = .ok (ts', type) → Declared ts' Γ := by
    intro ts ts' name parent fields type hts hok
    cases parent with
    | none => exact hts.setClassMembers hok
    | some parent =>
      obtain ⟨ts₁, hparent, hmembers⟩ := bind_eq_ok.mp hok
      exact (hts.setClassParent hparent).setClassMembers hmembers
  cases hstep with
  | write | temp | counting | symbols | defineMethod => exact h
  | registerStruct name => exact h.registerStruct name
  | setStructMembers hset => exact h.setStructMembers hset
  | registerTypeDef => exact h.other hsame rfl rfl
  | registerFunction | registerConstructor | registerMethod => exact h.other rfl rfl rfl
  | declareClass _ _ hlinked => exact hlink (h.registerClass _) hlinked
  | relinkClass _ _ hlinked => exact hlink h hlinked

/-- A `typedef` of a specifier in the first pass. -/
theorem Declared.visitTypedefDecl (h : Declared s.typeSystem Γ)
    (hs : s.firstPass = true) (spec : TypeSpec) (name : Ident) :
    Post (visitTypedefDecl (.typeSpec spec) name) s fun _ s' ↦ ∃ c,
      spec.found s.typeSystem Γ = some c ∧
        Declared s'.typeSystem (Γ.insert name.text ⟨spec.denotes s.typeSystem Γ, c⟩) := by
  simp only [Ast.visitTypedefDecl, typedefType, resolveTypeFromContext, post_bind, post_askTypes,
    post_inFirstPass, post_ite, post_modifyTypes]
  intro type htype
  refine ⟨fun _ ↦ ?_, fun hfirst ↦ absurd hs hfirst⟩
  rcases h.followed.resolves spec with ⟨hnone, -⟩ | ⟨t, c, -, hc, -⟩
  · rw [htype] at hnone
    cases hnone
  · exact ⟨c, hc, h.typedefSpec name htype hc⟩

/-! ### Printed specifiers -/

/-- The specifier resolves, and to a type that is printed as this one. -/
def PrintsAs (s : VState) (spec : TypeSpec) (c : CType) : Prop :=
  ∃ type, (resolveTypeFromContext spec).run s = .ok (type, s) ∧ type.toStr = c.text

theorem printsAs_iff (h : Declared s.typeSystem Γ) (hc : spec.denotes s.typeSystem Γ = some c) :
    PrintsAs s spec c ↔ ∃ c', spec.found s.typeSystem Γ = some c' ∧ c'.printed = c := by
  have hnamed := h.followed.named hc
  simp only [PrintsAs, run_resolveTypeFromContext_iff]
  rcases h.followed.resolves spec with ⟨hnone, hfound⟩ | ⟨t, c', ht, hfound, hstands⟩
  · constructor
    · rintro ⟨type, htype, -⟩
      rw [htype] at hnone
      cases hnone
    · rintro ⟨c', hc', -⟩
      rw [hfound] at hc'
      cases hc'
  · rw [ht, hfound]
    constructor
    · rintro ⟨type, htype, htext⟩
      cases htype
      rw [hstands.toStr_eq] at htext
      exact ⟨c', rfl, CType.text_injective hstands.named hnamed htext⟩
    · rintro ⟨_, ⟨⟩, rfl⟩
      exact ⟨t, rfl, hstands.toStr_eq⟩

/-- A specifier is printed as the type that it denotes if and only if the type it is found as is,
after its stars are cut to one, or set to two behind `char`, the denoted one. Specifiers of different
types that are printed so are printed differently. -/
theorem pointer_depth_iff {s : VState} (h : Declared s.typeSystem Γ) :
    (∀ spec c, spec.denotes s.typeSystem Γ = some c →
      (PrintsAs s spec c ↔ ∃ c', spec.found s.typeSystem Γ = some c' ∧ c'.printed = c)) ∧
    ∀ spec spec' c c', spec.denotes s.typeSystem Γ = some c →
      spec'.denotes s.typeSystem Γ = some c' → PrintsAs s spec c → PrintsAs s spec' c' → c ≠ c' →
      ∀ type type', (resolveTypeFromContext spec).run s = .ok (type, s) →
        (resolveTypeFromContext spec').run s = .ok (type', s) → type.toStr ≠ type'.toStr := by
  refine ⟨fun spec c hc ↦ printsAs_iff h hc, ?_⟩
  rintro spec spec' c c' hc hc' ⟨t, ht, htext⟩ ⟨t', ht', htext'⟩ hne type type' htype htype' heq
  rw [ht] at htype
  rw [ht'] at htype'
  cases htype
  cases htype'
  rw [htext, htext'] at heq
  exact hne (CType.text_injective (h.followed.named hc) (h.followed.named hc') heq)

/-- `int*` is printed as it is. -/
theorem pointer_depth_iff_int : PrintsAs {} (.pointer .int) ⟨.int, 1⟩ :=
  ((pointer_depth_iff (s := {}) (Γ := ∅) .start).1 (.pointer .int) ⟨.int, 1⟩ rfl).mpr
    ⟨⟨.int, 1⟩, by decide +kernel, by decide⟩

/-- `string` is printed with a star too many, and `int**` like `int*`. -/
theorem stars_misprinted : TypeSpec.string.denotes {} ∅ = some ⟨.char, 1⟩ ∧
    (∃ type, (resolveTypeFromContext .string).run {} = .ok (type, {}) ∧ type.toStr = "char**") ∧
    TypeSpec.denotes {} ∅ (.pointer (.pointer .int)) = some ⟨.int, 2⟩ ∧
    ∃ type, (resolveTypeFromContext (.pointer (.pointer .int))).run {} = .ok (type, {}) ∧
      type.toStr = "int*" := by
  refine ⟨rfl, ⟨{ base := .string, isPointer := true }, ?_, rfl⟩, rfl,
    ⟨{ base := .int, isPointer := true }, ?_, rfl⟩⟩
  · exact run_resolveTypeFromContext_iff.mpr (by rfl)
  · exact run_resolveTypeFromContext_iff.mpr (by rfl)

end JBLang.Ast
