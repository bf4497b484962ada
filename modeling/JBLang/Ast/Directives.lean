import JBLang.Ast.Lexing
import JBLang.Ast.Steps

/-!
# Directives

The lines at the beginning of a program: their tokens, the directives that the parser reads from
them, and the definitions that are registered. The word of an `INCLUDE_STRING` goes to the last
`>` at a line end that no double quote stands before, so that it can go beyond its line.
-/

namespace JBLang.Base

end JBLang.Base

namespace JBLang.Ast

open JBLang.Base JBLang.Types

/-- Text of a defined value. -/
def valueText : IntegerToken ⊕ StringToken → Str
  | .inl n => n.text
  | .inr s => s.text

/-- An included name in angle brackets, up to the line end. -/
def angled (name : Str) : Str := "<" ++ name ++ ">\n"

/-- A line with a directive. -/
inductive DirectiveLine where
  /-- `#include <name>` -/
  | includeAngle (name : Str) (line : '\n' ∉ name)
  /-- `#include "file"` -/
  | includeQuoted (file : StringToken) (line : '\n' ∉ file.body)
  /-- `#define NAME value` -/
  | define (name : Ident) (value : IntegerToken ⊕ StringToken) (line : '\n' ∉ valueText value)

namespace DirectiveLine

/-- The line. -/
def text : DirectiveLine → Str
  | .includeAngle name _ => "#include " ++ angled name
  | .includeQuoted file _ => "#include " ++ file.text ++ "\n"
  | .define name value _ => "#define " ++ name.text ++ " " ++ valueText value ++ "\n"

/-- The kind of a defined value and its text. -/
def valueLexeme : IntegerToken ⊕ StringToken → TokenKind × Str
  | .inl n => (.integer, n.text)
  | .inr s => (.string, s.text)

/-- The tokens that the line should have. -/
def tokens : DirectiveLine → List (TokenKind × Str)
  | .includeAngle name _ => [(.quoted, "#include"), (.includeString, angled name)]
  | .includeQuoted file _ => [(.quoted, "#include"), (.string, file.text)]
  | .define name value _ => [(.quoted, "#define"), (.identifier, name.text), valueLexeme value]

/-- The name and the value of a definition. -/
def defined : DirectiveLine → Option (Str × Str)
  | .includeAngle .. | .includeQuoted .. => none
  | .define name value _ => some (name.text, valueText value)

end DirectiveLine

variable {ts : List (TokenKind × Str)} {ds : List (Str × Str)} {s : VState}

section Words

variable {rest : Str}

variable {w : Str} {kind : TokenKind}

variable {ts : List (TokenKind × Str)} {c : Char}

end Words

/-! ### Definitions -/

end JBLang.Ast
