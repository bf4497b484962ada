import JBLang.Ast.PlainTexts
import JBLang.Ast.PointerDepth

/-!
# Printed declarators

The type of a declared name is printed by four routines. What they print is read as C reads it:
a base, stars, the name and the sizes of an array. The words of these texts are the same for C as
for the lexer of the grammar.
-/

namespace JBLang.Ast

open JBLang.Base JBLang.Types JBLang.Codegen

/-! ### Reading a declaration -/

/-- The keywords of C that are identifiers for the grammar. -/
def cKeywords : List Str :=
  ["auto".toList, "break".toList, "case".toList, "char".toList, "const".toList,
    "continue".toList, "default".toList, "do".toList, "double".toList, "enum".toList,
    "extern".toList, "float".toList, "goto".toList, "inline".toList, "long".toList,
    "register".toList, "restrict".toList, "short".toList, "signed".toList, "sizeof".toList,
    "static".toList, "switch".toList, "union".toList, "unsigned".toList, "volatile".toList]

/-- An identifier that is a name in C. -/
def isCName (name : Str) : Bool := !cKeywords.contains name

/-- What a declaration of C declares: a name for arrays of these sizes of a type. -/
structure CDeclaration where
  type : CType
  name : Str
  sizes : List Str
deriving DecidableEq

/-- The base of a type. -/
def readBase : List (TokenKind × Str) → Option (CBase × List (TokenKind × Str))
  | (.quoted, ['v', 'o', 'i', 'd']) :: ts => some (.void, ts)
  | (.quoted, ['i', 'n', 't']) :: ts => some (.int, ts)
  | (.quoted, ['b', 'o', 'o', 'l']) :: ts => some (.bool, ts)
  | (.identifier, ['c', 'h', 'a', 'r']) :: ts => some (.char, ts)
  | (.quoted, ['s', 't', 'r', 'u', 'c', 't']) :: (.identifier, name) :: ts =>
    if isCName name then some (.struct name, ts) else none
  | _ => none

/-- The stars behind a base. -/
def readStars : List (TokenKind × Str) → Nat × List (TokenKind × Str)
  | (.quoted, ['*']) :: ts => ((readStars ts).1 + 1, (readStars ts).2)
  | ts => (0, ts)

/-- The declared name. -/
def readName : List (TokenKind × Str) → Option (Str × List (TokenKind × Str))
  | (.identifier, name) :: ts => if isCName name then some (name, ts) else none
  | _ => none

/-- The sizes of an array, up to the end. -/
def readSizes : List (TokenKind × Str) → Option (List Str)
  | [] => some []
  | (.quoted, ['[']) :: (.integer, n) :: (.quoted, [']']) :: ts => (readSizes ts).map (n :: ·)
  | _ => none

/-- A declaration with one declarator. -/
def readTokens (ts : List (TokenKind × Str)) : Option CDeclaration := do
  let (base, ts) ← readBase ts
  let (depth, ts) := readStars ts
  let (name, ts) ← readName ts
  let sizes ← readSizes ts
  return ⟨⟨base, depth⟩, name, sizes⟩

/-- The declaration that a text is for C. -/
def readDeclaration (text : Str) : Option CDeclaration := (lexer.lex text).bind readTokens

/-! ### Printers -/

/-- The routines that print declarations. -/
inductive Printer where
  | declaration
  | structMember
  | classField
  | virtualParam
deriving DecidableEq

/-- The declaration that a routine prints. -/
def Printer.text : Printer → Str → Ty → Str
  | .declaration, name, t => outputVariable t name
  | .structMember, name, t => structMemberText (name, t)
  | .classField, name, t => t.toStr ++ " " ++ name
  | .virtualParam, name, t => t.toStr ++ " " ++ name

theorem generateVarDecl_eq (name initializer : Str) (t : Ty) :
    generateVarDecl name t initializer = Printer.declaration.text name t ++ initializer ++ ";\n" := by
  rw [generateVarDecl, Printer.text]

theorem virtualParam_eq (name : Str) (t : Ty) :
    Codegen.virtualParam (name, t) = ", " ++ Printer.virtualParam.text name t := by
  rw [Codegen.virtualParam, Printer.text, List.append_assoc, List.append_assoc, List.append_assoc]

theorem field_text_eq (name : Str) (t : Ty) :
    (LayoutMember.field name t).text = "    " ++ Printer.classField.text name t ++ ";\n" := by
  have htext : (LayoutMember.field name t).text = "    " ++ t.toStr ++ " " ++ name ++ ";\n" := rfl
  rw [htext, Printer.text, List.append_assoc "    ".toList, List.append_assoc "    ".toList]

/-- A type as it is made for a declared name: an array holds the name too. -/
structure IsDeclared (t : Ty) (name : Ident) (sizes : List Nat) : Prop where
  structName : t.isStruct = true ∨ t.isClass = true → isIdentifier t.structName = true
  array : t.array = if sizes = [] then none else some (name.text, sizes.map Int.ofNat)

/-- The star that `string` has. -/
def charStars (t : Ty) : Nat := if cBase t = .char then 1 else 0

/-- The star of a pointer. -/
def pointerStars (t : Ty) : Nat := if t.isPointer then 1 else 0

/-- What should be declared: arrays of these sizes of pointers to the base. -/
def declares (t : Ty) (name : Ident) (sizes : List Nat) : CDeclaration where
  type := ⟨cBase t, charStars t + pointerStars t⟩
  name := name.text
  sizes := sizes.map decimal

/-- Where a routine prints the declaration: `outputVariable` all but arrays of pointers,
`generateStructDecl` all but arrays of classes, the others all but arrays. -/
def Printer.Prints (p : Printer) (t : Ty) (sizes : List Nat) : Prop :=
  match p with
  | .declaration => sizes = [] ∨ t.isPointer = false
  | .structMember => sizes = [] ∨ t.isClass = false
  | .classField | .virtualParam => sizes = []

/-! ### Tokens of the texts -/

/-- The name in place of `char`. -/
def charName : Ident := ⟨"char".toList, by decide +kernel⟩

/-- The tokens of a base. -/
inductive BaseTokens : CBase → List Token → Prop
  | void : BaseTokens .void [.void]
  | int : BaseTokens .int [.int]
  | bool : BaseTokens .bool [.bool]
  | char : BaseTokens .char [.ident charName]
  | struct (name : Ident) : BaseTokens (.struct name.text) [.struct, .ident name]

/-- The number of a size. -/
def sizeToken (n : Nat) : IntegerToken where
  text := decimal n
  valid := by
    rw [Bool.and_eq_true, Bool.not_eq_true', List.isEmpty_eq_false_iff, List.all_eq_true]
    exact ⟨Nat.toDigits_ne_nil, fun c hc ↦ Nat.isDigit_of_mem_toDigits (by decide) (by decide) hc⟩

/-- The tokens of the sizes of an array. -/
def sizeTokens : List Nat → List Token
  | [] => []
  | n :: sizes => .leftBracket :: .integer (sizeToken n) :: .rightBracket :: sizeTokens sizes

/-- The words that begin a declaration. -/
def baseWords : List Token := [.void, .int, .bool, .struct]

theorem printed_word {t : Token} (ht : t ∈ baseWords) : Printed t.text [t] := by
  have hall : ∀ t ∈ baseWords, t.text.all isIdentRest = true ∧ t.text ≠ [] ∧
      quotedWords.contains t.text = true ∧ t.lexeme.1 = .quoted := by decide +kernel
  obtain ⟨hword, hne, hquoted, hk⟩ := hall t ht
  have hw := List.all_eq_true.mp hword
  refine ⟨fun hrest ↦ hrest.append fun hmem ↦ absurd (hw _ hmem) (by decide), ?_⟩
  intro rest _ hrest _ h
  exact lexes_token hne (by rw [hk, ruleOf_quoted hquoted]) (stops_word hne hw hrest) h

variable {ints : List Int} {us : List Token} {u : Str}

theorem printed_blank {v : Str} {vs : List Token} (h : Printed u us) (h' : Printed v vs)
    (hv : StartsWord v) : Printed (u ++ ' ' :: v) (us ++ vs) := by
  have hblank : Printed (' ' :: v) vs := by
    refine ⟨fun hrest ↦ ?_, fun hrest hcalm hlexes ↦ ?_⟩
    · exact (h'.calm hrest).append (w := [' ']) (by decide)
    · exact lexes_blank (hv.append _) (h'.lexes hrest hcalm hlexes)
  exact h.append hblank (apart_cons (by decide) v)

variable {b : CBase} {ts : List Token}

theorem printed_base (h : BaseTokens b ts) : Printed b.text ts := by
  cases h with
  | void => exact printed_word (t := .void) (by simp [baseWords])
  | int => exact printed_word (t := .int) (by simp [baseWords])
  | bool => exact printed_word (t := .bool) (by simp [baseWords])
  | char => exact printed_ident charName
  | struct name =>
    exact printed_blank (printed_word (t := .struct) (by simp [baseWords])) (printed_ident name)
      (startsWord_ident name)

theorem printed_stars (h : Printed u us) (n : Nat) :
    Printed (u ++ starsText n) (us ++ List.replicate n .star) := by
  induction n generalizing u us with
  | zero => simpa [starsText] using h
  | succ n ih =>
    have hstar := h.append (isMark_of_mem (t := .star) (by simp)).printed (apart_cons (by decide) _)
    have hstars := ih hstar
    rw [List.append_assoc, List.append_assoc] at hstars
    rw [List.replicate_succ]
    exact hstars

theorem printed_sizes (h : Printed u us) (sizes : List Nat) :
    Printed (u ++ sizesText (sizes.map Int.ofNat)) (us ++ sizeTokens sizes) := by
  induction sizes generalizing u us with
  | nil => simpa [sizesText, sizeTokens] using h
  | cons n sizes ih =>
    have hsize := (isMark_of_mem (t := .leftBracket) (by simp)).before
      ((printed_literal (.integer (sizeToken n))).append
        (isMark_of_mem (t := .rightBracket) (by simp)).printed (apart_cons (by decide) _))
    have htext : sizesText ((n :: sizes).map Int.ofNat) =
        "[" ++ (decimal n ++ "]") ++ sizesText (sizes.map Int.ofNat) := by
      simp [sizesText, decimalInt]
    have htokens : sizeTokens (n :: sizes) =
        [.leftBracket, .integer (sizeToken n), .rightBracket] ++ sizeTokens sizes := rfl
    rw [htext, htokens, ← List.append_assoc u, ← List.append_assoc us]
    exact ih (h.append hsize (apart_cons (by decide) _))

/-! ### What is read -/

/-- The name of a struct is a name in C. -/
def CBase.isCName : CBase → Bool
  | .struct name => Ast.isCName name
  | _ => true

theorem readBase_tokens (h : BaseTokens b ts) (rest : List (TokenKind × Str)) :
    readBase (ts.map Token.lexeme ++ rest) = if b.isCName then some (b, rest) else none := by
  cases h with
  | struct name => rfl
  | _ => rfl

theorem readStars_replicate (n : Nat) (rest : List (TokenKind × Str))
    (hrest : readStars rest = (0, rest)) :
    readStars ((List.replicate n Token.star).map Token.lexeme ++ rest) = (n, rest) := by
  induction n with
  | zero => exact hrest
  | succ n ih =>
    rw [List.replicate_succ, List.map_cons, List.cons_append]
    change ((readStars _).1 + 1, (readStars _).2) = _
    rw [ih]

theorem readSizes_tokens (sizes : List Nat) (rest : List (TokenKind × Str)) :
    readSizes ((sizeTokens sizes).map Token.lexeme ++ rest) =
      (readSizes rest).map (sizes.map decimal ++ ·) := by
  induction sizes with
  | nil => simp [sizeTokens]
  | cons n sizes ih =>
    change (readSizes ((sizeTokens sizes).map Token.lexeme ++ rest)).map (decimal n :: ·) = _
    rw [ih, Option.map_map]
    rfl

/-- A base, stars, a name and sizes are read as what they declare, if nothing follows. -/
theorem readTokens_declarator (h : BaseTokens b ts) (k : Nat)
    (name : Ident) (sizes : List Nat) (rest : List Token) :
    readTokens ((ts ++ List.replicate k Token.star ++ [Token.ident name] ++ sizeTokens sizes ++
        rest).map Token.lexeme) =
      if b.isCName && isCName name.text then
        (readSizes (rest.map Token.lexeme)).map fun more ↦
          ⟨⟨b, k⟩, name.text, sizes.map decimal ++ more⟩
      else none := by
  simp only [List.map_append, List.append_assoc]
  rw [readTokens, readBase_tokens h]
  cases hb : b.isCName with
  | false => rfl
  | true =>
    simp only [if_true, Option.bind_eq_bind, Option.bind_some, Bool.true_and]
    rw [readStars_replicate k ([Token.ident name].map Token.lexeme ++
      ((sizeTokens sizes).map Token.lexeme ++ rest.map Token.lexeme)) rfl]
    cases hname : isCName name.text with
    | false => simp [readName, Token.lexeme, hname]
    | true =>
      simp only [readName, Token.lexeme, hname, List.map_cons, List.map_nil, List.cons_append,
        List.nil_append, if_true, Option.bind_some, readSizes_tokens]
      cases readSizes (rest.map Token.lexeme) <;> rfl

/-! ### What is printed -/

variable {t : Ty} {name : Ident} {sizes : List Nat}

theorem exists_baseTokens (h : IsDeclared t name sizes) : ∃ ts, BaseTokens (cBase t) ts := by
  have hname := h.structName
  obtain ⟨base, isPointer, array, structName, parentClass, structMembers⟩ := t
  cases base with
  | void => exact ⟨_, .void⟩
  | int => exact ⟨_, .int⟩
  | bool => exact ⟨_, .bool⟩
  | string => exact ⟨_, .char⟩
  | struct => exact ⟨_, .struct ⟨structName, hname (.inl rfl)⟩⟩
  | «class» => exact ⟨_, .struct ⟨structName, hname (.inr rfl)⟩⟩

/-- The base as it is printed. -/
theorem printedBase_eq (t : Ty) :
    (if t.isStruct || t.isClass then "struct " ++ t.structName else baseTypeToString t.base) =
      (cBase t).text ++ starsText (charStars t) := by
  obtain ⟨base, isPointer, array, structName, parentClass, structMembers⟩ := t
  cases base <;> first | rfl | exact (List.append_nil _).symm

theorem append_pointerStars (t : Ty) (s : Str) :
    (if t.isPointer then s ++ "*" else s) = s ++ starsText (pointerStars t) := by
  unfold pointerStars
  split
  · rfl
  · exact (List.append_nil s).symm

theorem toStr_plain (h : t.array = none) :
    t.toStr = (cBase t).text ++ starsText (charStars t) ++ starsText (pointerStars t) := by
  simp only [Ty.toStr, h]
  rw [append_pointerStars, printedBase_eq]

theorem toStr_array (h : t.array = some (name.text, ints)) :
    t.toStr = (cBase t).text ++ starsText (charStars t) ++ ' ' :: name.text ++ sizesText ints ++
      starsText (pointerStars t) := by
  simp only [Ty.toStr, h]
  rw [append_pointerStars, printedBase_eq]
  simp

theorem structMemberText_array (h : t.array = some (name.text, ints))
    (hclass : t.isClass = false) : structMemberText (name.text, t) =
      (cBase t).text ++ starsText (charStars t) ++ starsText (pointerStars t) ++ ' ' :: name.text ++
        sizesText ints := by
  have hbase := printedBase_eq t
  rw [hclass, Bool.or_false] at hbase
  simp only [structMemberText, Ty.isArray, h, Option.isSome_some, if_true, Ty.getArraySizes,
    Option.map_some, Option.getD_some]
  rw [append_pointerStars, hbase]
  simp

theorem structMemberText_class (h : t.array = some (name.text, ints))
    (hclass : t.isClass = true) : structMemberText (name.text, t) =
      "struct" ++ starsText (pointerStars t) ++ ' ' :: name.text ++ sizesText ints := by
  have hbase : t.base = .class := eq_of_beq hclass
  have hstruct : t.isStruct = false := by rw [Ty.isStruct, hbase]; rfl
  simp only [structMemberText, Ty.isArray, h, Option.isSome_some, if_true, Ty.getArraySizes,
    Option.map_some, Option.getD_some, hstruct, Bool.false_eq_true, if_false, hbase]
  rw [append_pointerStars, List.append_assoc _ " ".toList]
  rfl

/-- A type that is no array is printed before its name by every routine. -/
theorem text_plain (p : Printer) (h : t.array = none) : p.text name.text t =
    (cBase t).text ++ starsText (charStars t) ++ starsText (pointerStars t) ++ ' ' :: name.text := by
  have htext : p.text name.text t = t.toStr ++ " " ++ name.text := by
    cases p <;> simp [Printer.text, outputVariable, structMemberText, Ty.isArray, h]
  rw [htext, toStr_plain h]
  simp

/-! ### Printed and read -/

theorem printed_declarator (hb : BaseTokens b ts) (k : Nat) (name : Ident) (sizes : List Nat) :
    Printed (b.text ++ starsText k ++ ' ' :: name.text ++ sizesText (sizes.map Int.ofNat))
      (ts ++ List.replicate k .star ++ [.ident name] ++ sizeTokens sizes) :=
  printed_sizes (printed_blank (printed_stars (printed_base hb) k) (printed_ident name)
    (startsWord_ident name)) sizes

/-- A text with the tokens of a declarator, and nothing else, declares it. -/
theorem readDeclaration_iff (hb : BaseTokens b ts) {k : Nat} {text : Str} (hprinted : Printed text
      (ts ++ List.replicate k .star ++ [.ident name] ++ sizeTokens sizes)) :
    readDeclaration text = some ⟨⟨b, k⟩, name.text, sizes.map decimal⟩ ↔
      isCName name.text = true ∧ b.isCName = true := by
  have hread := readTokens_declarator hb k name sizes []
  rw [List.append_nil] at hread
  rw [readDeclaration, hprinted.lex, Option.bind_some, hread, and_comm, ← Bool.and_eq_true]
  split
  · next h => exact iff_of_true (by simp [readSizes]) h
  · next h => exact iff_of_false nofun h

/-- Behind the sizes nothing else may stand. -/
theorem readDeclaration_none (hb : BaseTokens b ts) {k : Nat}
    {rest : List Token} {text : Str} (hprinted : Printed text
      (ts ++ List.replicate k .star ++ [.ident name] ++ sizeTokens sizes ++ rest))
    (hrest : readSizes (rest.map Token.lexeme) = none) : readDeclaration text = none := by
  rw [readDeclaration, hprinted.lex, Option.bind_some, readTokens_declarator hb, hrest]
  split <;> rfl

theorem starsText_add (k n : Nat) : starsText k ++ starsText n = starsText (k + n) :=
  List.replicate_append_replicate

/-- An array whose brackets come before its star, and one that has the name behind that again. -/
theorem readDeclaration_toStr (h : IsDeclared t name sizes) (hsizes : sizes ≠ []) :
    (readDeclaration t.toStr = some (declares t name sizes) ↔
      isCName name.text = true ∧ (cBase t).isCName = true ∧ t.isPointer = false) ∧
    readDeclaration (t.toStr ++ " " ++ name.text) = none := by
  obtain ⟨ts, hb⟩ := exists_baseTokens h
  have harray := h.array
  rw [if_neg hsizes] at harray
  have hdeclarator := printed_declarator hb (charStars t) name sizes
  have hprinted := printed_stars hdeclarator (pointerStars t)
  rw [toStr_array harray]
  constructor
  · cases hp : t.isPointer with
    | false =>
      have hstars : pointerStars t = 0 := if_neg (Bool.eq_false_iff.mp hp)
      have htype : declares t name sizes =
          ⟨⟨cBase t, charStars t⟩, name.text, sizes.map decimal⟩ := by
        rw [declares, hstars]
        rfl
      rw [hstars] at hprinted ⊢
      rw [htype, and_iff_left rfl]
      exact readDeclaration_iff hb (by simpa using hprinted)
    | true =>
      have hstars : pointerStars t = 1 := if_pos hp
      rw [hstars] at hprinted ⊢
      rw [readDeclaration_none hb hprinted rfl]
      exact iff_of_false nofun nofun
  · have hnamed := printed_blank hprinted (printed_ident name) (startsWord_ident name)
    rw [List.append_assoc _ " ".toList, List.append_assoc _ _ [Token.ident name]] at *
    refine readDeclaration_none hb hnamed ?_
    unfold pointerStars
    split <;> rfl

/-- An array of classes as a member of a struct: `struct` is printed without the name of the
class. -/
theorem readDeclaration_class (h : IsDeclared t name sizes) (hsizes : sizes ≠ [])
    (hclass : t.isClass = true) : readDeclaration (structMemberText (name.text, t)) = none := by
  have harray := h.array
  rw [if_neg hsizes] at harray
  have hstruct : Printed "struct" [.struct] :=
    printed_word (t := .struct) (by simp [baseWords])
  have hprinted := printed_sizes (printed_blank (printed_stars hstruct (pointerStars t))
    (printed_ident name) (startsWord_ident name)) sizes
  obtain ⟨n, sizes, rfl⟩ := List.exists_cons_of_ne_nil hsizes
  rw [structMemberText_class harray hclass, readDeclaration, hprinted.lex, Option.bind_some]
  unfold pointerStars
  split
  · rfl
  · change readTokens ((Token.struct.lexeme :: (Token.ident name).lexeme ::
      Token.leftBracket.lexeme :: _)) = none
    rw [readTokens]
    change (if isCName name.text then _ else none).bind _ = none
    split <;> rfl

/-- Every declaration that is printed for a declared name declares it as it should, except for
arrays of pointers as variables, arrays of classes as members of structs, and arrays as fields and
parameters of virtual methods, and as far as its names are none of C's own. -/
theorem declarator_iff (h : IsDeclared t name sizes) (p : Printer) :
    readDeclaration (p.text name.text t) = some (declares t name sizes) ↔
      isCName name.text = true ∧ (cBase t).isCName = true ∧ p.Prints t sizes := by
  obtain ⟨ts, hb⟩ := exists_baseTokens h
  have harray := h.array
  have hplain := printed_declarator hb (charStars t + pointerStars t) name sizes
  rw [← starsText_add, ← List.append_assoc] at hplain
  by_cases hsizes : sizes = []
  · rw [if_pos hsizes] at harray
    subst hsizes
    have hprints : p.Prints t [] := by
      cases p
      · exact .inl rfl
      · exact .inl rfl
      · exact rfl
      · exact rfl
    rw [text_plain p harray, and_iff_left hprints]
    rw [List.map_nil, sizesText, List.map_nil, List.flatten_nil, List.append_nil] at hplain
    exact readDeclaration_iff hb hplain
  · rw [if_neg hsizes] at harray
    have htoStr := readDeclaration_toStr h hsizes
    cases p with
    | declaration =>
      have hprints : Printer.declaration.Prints t sizes ↔ t.isPointer = false := or_iff_right hsizes
      have htext : Printer.declaration.text name.text t = t.toStr := by
        simp [Printer.text, outputVariable, Ty.isArray, harray]
      rw [htext, hprints]
      exact htoStr.1
    | structMember =>
      have hprints : Printer.structMember.Prints t sizes ↔ t.isClass = false := or_iff_right hsizes
      rw [hprints]
      cases hclass : t.isClass with
      | false =>
        rw [and_iff_left rfl, Printer.text, structMemberText_array harray hclass]
        exact readDeclaration_iff hb hplain
      | true =>
        refine iff_of_false ?_ nofun
        rw [Printer.text, readDeclaration_class h hsizes hclass]
        exact nofun
    | classField | virtualParam =>
      refine iff_of_false ?_ fun hcond ↦ hsizes hcond.2.2
      rw [Printer.text, htoStr.2]
      exact nofun

private def declaredX : Ident := ⟨"x".toList, isIdentifier_x⟩

/-- An `int` or a class, a pointer or not, as an array of three. -/
private def arrayOfThree (base : BaseType) (isPointer : Bool) : Ty :=
  { base, isPointer, structName := "A", array := some ("x", [3]) }

private theorem isDeclared_arrayOfThree (base : BaseType) (isPointer : Bool) :
    IsDeclared (arrayOfThree base isPointer) declaredX [3] := by
  refine ⟨fun _ ↦ ?_, rfl⟩
  change isIdentifier "A" = true
  decide +kernel

/-- `int* x[3]` as a member of a struct. -/
theorem declarator_iff_member :
    readDeclaration (Printer.structMember.text declaredX.text (arrayOfThree .int true)) =
      some ⟨⟨.int, 1⟩, "x", ["3".toList]⟩ :=
  (declarator_iff (isDeclared_arrayOfThree .int true) .structMember).mpr
    ⟨by decide +kernel, by decide, .inr rfl⟩

/-- `int* x[3]` is printed `int x[3]*` as a variable; an array of classes is printed `struct x[3]`
as a member of a struct; fields and parameters of virtual methods have the name twice. -/
theorem declarators_misprinted :
    Printer.declaration.text "x" (arrayOfThree .int true) = "int x[3]*" ∧
      readDeclaration "int x[3]*" = none ∧
      Printer.structMember.text "x" (arrayOfThree .class false) = "struct x[3]" ∧
      readDeclaration "struct x[3]" = none ∧
      Printer.classField.text "x" (arrayOfThree .int false) = "int x[3] x" ∧
      Printer.virtualParam.text "x" (arrayOfThree .int false) = "int x[3] x" ∧
      readDeclaration "int x[3] x" = none := by
  decide +kernel

end JBLang.Ast
