import JBLang.Base.Text

/-!
# Parse trees

Model of `grammar/JBLang.g4`: one constructor for each alternative of a rule, without tokens
that carry nothing. An empty argument, parameter or initializer list stands for an absent one,
since the grammar has no empty lists. The `;` that may follow a struct or class body is left
out. `getText` is ANTLR's: the tokens of a subtree one after the other.
-/

namespace JBLang.Ast

open JBLang.Base

/-- The keywords, which no `IDENTIFIER` token can be. -/
def keywords : List Str :=
  ["typedef".toList, "class".toList, "virtual".toList, "for".toList, "void".toList, "int".toList,
    "bool".toList, "string".toList, "struct".toList, "spawn".toList, "return".toList, "if".toList,
    "else".toList, "while".toList, "new".toList, "true".toList, "false".toList]

/-- `[a-zA-Z_]`. -/
def isIdentStart (c : Char) : Bool := c.isAlpha || c == '_'

/-- `[a-zA-Z0-9_]`. -/
def isIdentRest (c : Char) : Bool := c.isAlphanum || c == '_'

/-- The texts of `IDENTIFIER` tokens, `grammar/JBLang.g4:165`. -/
def isIdentifier : Str → Bool
  | [] => false
  | c :: s => isIdentStart c && s.all isIdentRest && !(keywords.contains (c :: s))

/-- An identifier has letters, digits and underscores only. -/
theorem not_mem_identifier {name : Str} (h : isIdentifier name = true) {c : Char}
    (hc : isIdentStart c = false) (hc' : isIdentRest c = false) : c ∉ name := by
  cases name with
  | nil => simp
  | cons d name =>
    simp only [isIdentifier, Bool.and_eq_true, List.all_eq_true] at h
    rw [List.mem_cons, not_or]
    constructor
    · rintro rfl
      simp [hc] at h
    · intro hmem
      simpa [hc'] using h.1.2 c hmem

/-- `IDENTIFIER`. -/
structure Ident where
  text : Str
  valid : isIdentifier text = true
deriving DecidableEq

/-- `INTEGER`, `grammar/JBLang.g4:162`. -/
structure IntegerToken where
  text : Str
  valid : (!text.isEmpty && text.all Char.isDigit) = true
deriving DecidableEq

/-! Names and numbers of the sample programs. -/

theorem isIdentifier_A : isIdentifier "A".toList = true := by decide

theorem isIdentifier_B : isIdentifier "B".toList = true := by decide

theorem isIdentifier_C : isIdentifier "C".toList = true := by decide

theorem isIdentifier_f : isIdentifier "f".toList = true := by decide

theorem isIdentifier_g : isIdentifier "g".toList = true := by decide

theorem isIdentifier_m : isIdentifier "m".toList = true := by decide

theorem isIdentifier_n : isIdentifier "n".toList = true := by decide

theorem isIdentifier_p : isIdentifier "p".toList = true := by decide

theorem isIdentifier_q : isIdentifier "q".toList = true := by decide

theorem isIdentifier_x : isIdentifier "x".toList = true := by decide

theorem isIdentifier_y : isIdentifier "y".toList = true := by decide

theorem isIdentifier_main : isIdentifier "main".toList = true := by decide

theorem isIdentifier_next : isIdentifier "next".toList = true := by decide

theorem isInteger_1 : (!"1".toList.isEmpty && "1".toList.all Char.isDigit) = true := by decide

theorem isInteger_3 : (!"3".toList.isEmpty && "3".toList.all Char.isDigit) = true := by decide

/-- `STRING`, `grammar/JBLang.g4:163`, by the text between its quotes. -/
structure StringToken where
  body : Str
  valid : '"' ∉ body
deriving DecidableEq

/-- The token's text, quotes included. -/
def StringToken.text (t : StringToken) : Str := '"' :: t.body ++ ['"']

/-- `literal`. -/
inductive Literal where
  | integer (n : IntegerToken)
  | string (s : StringToken)
  | true
  | false
deriving DecidableEq

/-- The keyword that may stand before a type name. -/
inductive Tag where
  | struct
  | «class»
deriving DecidableEq

/-- `typeSpec`. -/
inductive TypeSpec where
  | void
  | int
  | bool
  | string
  | named (tag : Option Tag) (name : Ident)
  | pointer (t : TypeSpec)
deriving DecidableEq

/-- `arraySize`. -/
inductive ArraySize where
  | integer (n : IntegerToken)
  | define (name : Ident)
deriving DecidableEq

/-- `(typeSpec IDENTIFIER) | arrayDecl`, the part that variables, parameters, struct members and
class fields share. -/
inductive Declarator where
  | plain (t : TypeSpec) (name : Ident)
  | array (t : TypeSpec) (name : Ident) (sizes : List ArraySize)
deriving DecidableEq

/-- Operators of `MulDivExpr`. -/
inductive MulDivOp where
  | mul
  | div
deriving DecidableEq

/-- Operators of `AddSubExpr`. -/
inductive AddSubOp where
  | add
  | sub
deriving DecidableEq

/-- Operators of `CompareExpr`. -/
inductive CompareOp where
  | eq
  | ne
  | lt
  | gt
  | le
  | ge
deriving DecidableEq

mutual

/-- `expression`, with the alternatives of `primary` in place of `PrimaryExpr`. -/
inductive Expr where
  | paren (e : Expr)
  | ident (name : Ident)
  | primaryLiteral (l : Literal)
  | member (e : Expr) (name : Ident)
  | funcCall (name : Ident) (args : List Expr)
  | mulDiv (left : Expr) (op : MulDivOp) (right : Expr)
  | addSub (left : Expr) (op : AddSubOp) (right : Expr)
  | compare (left : Expr) (op : CompareOp) (right : Expr)
  | assign (left right : Expr)
  | var (name : Ident)
  | literal (l : Literal)
  | new (t : TypeSpec)
  | newWithConstructor (name : Ident) (args : List Expr)
  | pointerMember (e : Expr) (name : Ident)
  | addressOf (e : Expr)
  | dereference (e : Expr)
  | arrayAccess (array index : Expr)
  | methodCall (e : Expr) (name : Ident) (args : List Expr)
  | structInit (inits : List Initializer) (trailingComma : Bool)
  | postIncrement (e : Expr)
  | postDecrement (e : Expr)
  | preIncrement (e : Expr)
  | preDecrement (e : Expr)

/-- `initializer`. -/
inductive Initializer where
  | mk (name : Ident) (value : Expr)

end

/-- First clause of a `forStmt`: a declaration, an expression or nothing. -/
inductive ForInit where
  | varDecl (d : Declarator) (init : Option Expr)
  | exprStmt (e : Expr)
  | none

/-- `structDecl`. -/
structure StructDecl where
  name : Ident
  members : List Declarator

/-- What a `typedefDecl` names. -/
inductive TypedefBody where
  | typeSpec (t : TypeSpec)
  | structDecl (d : StructDecl)

mutual

/-- `statement`. -/
inductive Stmt where
  | functionDecl (result : TypeSpec) (name : Ident) (params : List Declarator) (body : List Stmt)
  | varDecl (d : Declarator) (init : Option Expr)
  | spawnStmt (e : Expr)
  | returnStmt (e : Option Expr)
  | exprStmt (e : Expr)
  | block (body : List Stmt)
  | structDecl (d : StructDecl)
  | classDecl (name : Ident) (parent : Option Ident) (members : List ClassMember)
  | ifStmt (cond : Expr) (thenBranch : Stmt) (elseBranch : Option Stmt)
  | whileStmt (cond : Expr) (body : Stmt)
  | forStmt (init : ForInit) (cond step : Option Expr) (body : Stmt)
  | typedefDecl (t : TypedefBody) (name : Ident)

/-- `classMember`. -/
inductive ClassMember where
  | field (d : Declarator)
  | method (isVirtual : Bool) (result : TypeSpec) (name : Ident) (params : List Declarator)
      (body : List Stmt)
  | constructor (name : Ident) (params : List Declarator)
      (parentCall : Option (Ident × List Expr)) (body : List Stmt)

end

/-- `preprocessorDirective`: the text of an included name, or a definition. -/
inductive Directive where
  | include (file : Str)
  | define (name : Ident) (value : Option (IntegerToken ⊕ StringToken))

/-- `program`. -/
structure Program where
  directives : List Directive
  statements : List Stmt

/-! ### Texts -/

namespace Literal

/-- Text of a literal. -/
def getText : Literal → Str
  | .integer n => n.text
  | .string s => s.text
  | .true => "true"
  | .false => "false"

end Literal

/-- Text of a type specifier. -/
def TypeSpec.getText : TypeSpec → Str
  | .void => "void"
  | .int => "int"
  | .bool => "bool"
  | .string => "string"
  | .named none name => name.text
  | .named (some .struct) name => "struct" ++ name.text
  | .named (some .class) name => "class" ++ name.text
  | .pointer t => t.getText ++ "*"

/-- Text of an array size. -/
def ArraySize.getText : ArraySize → Str
  | .integer n => "[" ++ n.text ++ "]"
  | .define name => "[" ++ name.text ++ "]"

/-- Text of a declarator. -/
def Declarator.getText : Declarator → Str
  | .plain t name => t.getText ++ name.text
  | .array t name sizes => t.getText ++ name.text ++ (sizes.map ArraySize.getText).flatten

/-- Text of an operator. -/
def MulDivOp.getText : MulDivOp → Str
  | .mul => "*"
  | .div => "/"

/-- Text of an operator. -/
def AddSubOp.getText : AddSubOp → Str
  | .add => "+"
  | .sub => "-"

/-- Text of an operator. -/
def CompareOp.getText : CompareOp → Str
  | .eq => "=="
  | .ne => "!="
  | .lt => "<"
  | .gt => ">"
  | .le => "<="
  | .ge => ">="

mutual

/-- Text of an expression. -/
def Expr.getText : Expr → Str
  | .paren e => "(" ++ e.getText ++ ")"
  | .ident name | .var name => name.text
  | .primaryLiteral l | .literal l => l.getText
  | .member e name => e.getText ++ "." ++ name.text
  | .funcCall name args => name.text ++ "(" ++ joinWith "," (argTexts args) ++ ")"
  | .mulDiv left op right => left.getText ++ op.getText ++ right.getText
  | .addSub left op right => left.getText ++ op.getText ++ right.getText
  | .compare left op right => left.getText ++ op.getText ++ right.getText
  | .assign left right => left.getText ++ "=" ++ right.getText
  | .new t => "new" ++ t.getText
  | .newWithConstructor name args =>
    "new" ++ name.text ++ "(" ++ joinWith "," (argTexts args) ++ ")"
  | .pointerMember e name => e.getText ++ "->" ++ name.text
  | .addressOf e => "&" ++ e.getText
  | .dereference e => "*" ++ e.getText
  | .arrayAccess array index => array.getText ++ "[" ++ index.getText ++ "]"
  | .methodCall e name args =>
    e.getText ++ "->" ++ name.text ++ "(" ++ joinWith "," (argTexts args) ++ ")"
  | .structInit inits trailingComma =>
    "\x7b" ++ joinWith "," (initTexts inits) ++ (if trailingComma then ("," : Str) else "") ++ "\x7d"
  | .postIncrement e => e.getText ++ "++"
  | .postDecrement e => e.getText ++ "--"
  | .preIncrement e => "++" ++ e.getText
  | .preDecrement e => "--" ++ e.getText

/-- Texts of the expressions of an argument list. -/
def argTexts : List Expr → List Str
  | [] => []
  | e :: es => e.getText :: argTexts es

/-- Texts of the initializers of a list. -/
def initTexts : List Initializer → List Str
  | [] => []
  | .mk name value :: is => ("." ++ name.text ++ "=" ++ value.getText) :: initTexts is

end

/-- Text of a parenthesized parameter list. -/
def paramsText (params : List Declarator) : Str :=
  "(" ++ joinWith "," (params.map Declarator.getText) ++ ")"

/-- Text of an initializer that may be absent. -/
def initText : Option Expr → Str
  | none => ""
  | some e => "=" ++ e.getText

/-- Text of an expression that may be absent. -/
def optionText : Option Expr → Str
  | none => ""
  | some e => e.getText

/-- Text of a struct declaration. -/
def StructDecl.getText (d : StructDecl) : Str :=
  "struct" ++ d.name.text ++ "\x7b" ++ (d.members.map fun m : Declarator ↦ m.getText ++ ";").flatten ++ "\x7d"

/-- Text of the first clause of a loop, its `;` included. -/
def ForInit.getText : ForInit → Str
  | .varDecl d init => d.getText ++ initText init ++ ";"
  | .exprStmt e => e.getText ++ ";"
  | .none => ";"

/-- Text of what a `typedef` names. -/
def TypedefBody.getText : TypedefBody → Str
  | .typeSpec t => t.getText
  | .structDecl d => d.getText

/-- Text of a call of the parent's constructor. -/
def parentCallText : Option (Ident × List Expr) → Str
  | none => ""
  | some (name, args) => ":" ++ name.text ++ "(" ++ joinWith "," (argTexts args) ++ ")"

mutual

/-- Text of a statement. -/
def Stmt.getText : Stmt → Str
  | .functionDecl result name params body =>
    result.getText ++ name.text ++ paramsText params ++ "\x7b" ++ stmtsText body ++ "\x7d"
  | .varDecl d init => d.getText ++ initText init ++ ";"
  | .spawnStmt e => "spawn" ++ e.getText ++ ";"
  | .returnStmt e => "return" ++ optionText e ++ ";"
  | .exprStmt e => e.getText ++ ";"
  | .block body => "\x7b" ++ stmtsText body ++ "\x7d"
  | .structDecl d => d.getText
  | .classDecl name none members => "class" ++ name.text ++ "\x7b" ++ membersText members ++ "\x7d"
  | .classDecl name (some parent) members =>
    "class" ++ name.text ++ ":" ++ parent.text ++ "\x7b" ++ membersText members ++ "\x7d"
  | .ifStmt cond thenBranch none => "if(" ++ cond.getText ++ ")" ++ thenBranch.getText
  | .ifStmt cond thenBranch (some elseBranch) =>
    "if(" ++ cond.getText ++ ")" ++ thenBranch.getText ++ "else" ++ elseBranch.getText
  | .whileStmt cond body => "while(" ++ cond.getText ++ ")" ++ body.getText
  | .forStmt init cond step body =>
    "for(" ++ init.getText ++ optionText cond ++ ";" ++ optionText step ++ ")" ++ body.getText
  | .typedefDecl t name => "typedef" ++ t.getText ++ name.text ++ ";"

/-- Text of a statement list. -/
def stmtsText : List Stmt → Str
  | [] => ""
  | s :: ss => s.getText ++ stmtsText ss

/-- Text of a class member. -/
def ClassMember.getText : ClassMember → Str
  | .field d => d.getText ++ ";"
  | .method isVirtual result name params body =>
    (if isVirtual then ("virtual" : Str) else "") ++ result.getText ++ name.text ++
      paramsText params ++ "\x7b" ++ stmtsText body ++ "\x7d"
  | .constructor name params parentCall body =>
    name.text ++ paramsText params ++ parentCallText parentCall ++ "\x7b" ++ stmtsText body ++ "\x7d"

/-- Text of a class body. -/
def membersText : List ClassMember → Str
  | [] => ""
  | m :: ms => m.getText ++ membersText ms

end

/-- Text of a directive. -/
def Directive.getText : Directive → Str
  | .include file => "#include" ++ file
  | .define name none => "#define" ++ name.text
  | .define name (some (.inl n)) => "#define" ++ name.text ++ n.text
  | .define name (some (.inr s)) => "#define" ++ name.text ++ s.text

end JBLang.Ast
