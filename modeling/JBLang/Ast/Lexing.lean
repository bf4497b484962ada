import JBLang.Base.Lexing
import JBLang.Ast.Parsing
import JBLang.Ast.Names

/-!
# The lexer

Model of the lexer that ANTLR makes from `grammar/JBLang.g4`: the quoted words of all rules, with
the brackets of `:160–161`, and then the rules `:162–167`. A word that two rules accept is of the
first one, so that a keyword is no identifier.
-/

namespace JBLang.Ast

open JBLang.Base

/-- Kinds of tokens: a quoted word, or one of the named rules. -/
inductive TokenKind where
  | quoted
  | integer
  | string
  | includeString
  | identifier
  | ws
  | comment
deriving DecidableEq

/-- The quoted words of the grammar. -/
def quotedWords : List Str :=
  ["#include".toList, "#define".toList, "typedef".toList, ";".toList, "class".toList, ":".toList,
    "\x7b".toList, "\x7d".toList, "virtual".toList, "(".toList, ")".toList, "for".toList,
    ",".toList, "void".toList, "int".toList, "bool".toList, "string".toList, "struct".toList,
    "*".toList, "=".toList, "spawn".toList, "return".toList, "if".toList, "else".toList,
    "while".toList, ".".toList, "/".toList, "+".toList, "-".toList, "==".toList, "!=".toList,
    "<".toList, ">".toList, "<=".toList, ">=".toList, "new".toList, "->".toList, "&".toList,
    "++".toList, "--".toList, "true".toList, "false".toList, "[".toList, "]".toList]

/-- `[ \t\r\n]`. -/
def isSpace (c : Char) : Bool := c == ' ' || c == '\t' || c == '\r' || c == '\n'

/-- The words of a kind. -/
def TokenKind.accepts : TokenKind → Str → Bool
  | .quoted, w => quotedWords.contains w
  | .integer, w => !w.isEmpty && w.all Char.isDigit
  | .string, '"' :: w => w.getLast? == some '"' && !w.dropLast.contains '"'
  | .string, _ => false
  | .includeString, '<' :: w => !w.contains '"' && ">\n".toList.isSuffixOf w
  | .includeString, _ => false
  | .identifier, c :: w => isIdentStart c && w.all isIdentRest
  | .identifier, [] => false
  | .ws, w => !w.isEmpty && w.all isSpace
  | .comment, '/' :: '/' :: w => w.all fun c ↦ c != '\r' && c != '\n'
  | .comment, _ => false

/-- The lexer of the grammar. -/
def lexer : Lexer Char TokenKind where
  rules := [.quoted, .integer, .string, .includeString, .identifier, .ws, .comment]
  accepts := TokenKind.accepts
  skips k := k = .ws || k = .comment

/-- The kind and the text of a token. -/
def Token.lexeme : Token → TokenKind × Str
  | .ident name => (.identifier, name.text)
  | .integer n => (.integer, n.text)
  | .string s => (.string, s.text)
  | .trueLiteral => (.quoted, "true")
  | .falseLiteral => (.quoted, "false")
  | .new => (.quoted, "new")
  | .void => (.quoted, "void")
  | .int => (.quoted, "int")
  | .bool => (.quoted, "bool")
  | .stringType => (.quoted, "string")
  | .struct => (.quoted, "struct")
  | .class => (.quoted, "class")
  | .leftParen => (.quoted, "(")
  | .rightParen => (.quoted, ")")
  | .leftBracket => (.quoted, "[")
  | .rightBracket => (.quoted, "]")
  | .leftBrace => (.quoted, "\x7b")
  | .rightBrace => (.quoted, "\x7d")
  | .dot => (.quoted, ".")
  | .comma => (.quoted, ",")
  | .arrow => (.quoted, "->")
  | .ampersand => (.quoted, "&")
  | .star => (.quoted, "*")
  | .slash => (.quoted, "/")
  | .plus => (.quoted, "+")
  | .minus => (.quoted, "-")
  | .equalEqual => (.quoted, "==")
  | .notEqual => (.quoted, "!=")
  | .less => (.quoted, "<")
  | .greater => (.quoted, ">")
  | .lessEqual => (.quoted, "<=")
  | .greaterEqual => (.quoted, ">=")
  | .equal => (.quoted, "=")
  | .plusPlus => (.quoted, "++")
  | .minusMinus => (.quoted, "--")

/-- The text of a token. -/
def Token.text (t : Token) : Str := t.lexeme.2

/-! ### The words of the rules -/

section Words

variable {w rest u : Str} {c : Char}

/-- A word is of the kind that is tried first. -/
theorem ruleOf_eq_some {k : TokenKind} (before after : List TokenKind)
    (hrules : lexer.rules = before ++ k :: after) (hk : k.accepts w = true)
    (hbefore : ∀ k' ∈ before, k'.accepts w = false) : lexer.ruleOf w = some k := by
  have hnone : before.find? (lexer.accepts · w) = none :=
    List.find?_eq_none.mpr fun k' hk' ↦ Bool.eq_false_iff.mp (hbefore k' hk')
  rw [Lexer.ruleOf, hrules, List.find?_append, hnone, Option.none_or]
  exact List.find?_cons_of_pos hk

theorem ruleOf_rejects (h : ∀ k : TokenKind, k.accepts w = false) : lexer.ruleOf w = none :=
  Lexer.ruleOf_eq_none fun k _ ↦ h k

/-- The characters that a rule's words can begin with. -/
def TokenKind.starts : TokenKind → Char → Bool
  | .quoted, c => quotedWords.any fun q ↦ q.head? == some c
  | .integer, c => c.isDigit
  | .string, c => c == '"'
  | .includeString, c => c == '<'
  | .identifier, c => isIdentStart c
  | .ws, c => isSpace c
  | .comment, c => c == '/'

theorem accepts_of_starts {k : TokenKind} (h : k.starts c = false) : k.accepts (c :: w) = false := by
  cases k with
  | quoted =>
    rw [TokenKind.starts, List.any_eq_false] at h
    refine Bool.eq_false_iff.mpr fun hmem ↦ h _ (List.contains_iff_mem.mp hmem) ?_
    simp
  | integer => simp [TokenKind.accepts, show c.isDigit = false from h]
  | string => 
    unfold TokenKind.accepts
    split <;> simp_all [TokenKind.starts]
  | includeString =>
    unfold TokenKind.accepts
    split <;> simp_all [TokenKind.starts]
  | identifier => simp [TokenKind.accepts, show isIdentStart c = false from h]
  | ws => simp [TokenKind.accepts, show isSpace c = false from h]
  | comment =>
    unfold TokenKind.accepts
    split <;> simp_all [TokenKind.starts]

/-- A quoted word is made of letters, digits and underscores if it begins with one. -/
def isWordOrMark : Str → Bool
  | [] => true
  | c :: w => !isIdentRest c || w.all isIdentRest

/-- The facts about the list of quoted words. -/
theorem quotedWords_facts : quotedWords.all isWordOrMark = true ∧
    (∀ q ∈ quotedWords, ' ' ∉ q) ∧
    quotedWords.all (fun q ↦ !TokenKind.identifier.accepts q || keywords.contains q) = true ∧
    quotedWords.all (fun q ↦ !TokenKind.integer.accepts q) = true ∧
    TokenKind.quoted.starts '"' = false ∧ TokenKind.quoted.starts ' ' = false ∧
    (∀ t ∈ [Token.trueLiteral, .falseLiteral], quotedWords.contains t.text = true ∧
      t.text ≠ [] ∧ t.text.all isIdentRest = true) := by
  decide +kernel

/-- Quoted words that begin with a letter, a digit or an underscore have no other characters. -/
theorem quotedWords_words (h : c :: w ∈ quotedWords) (hc : isIdentRest c = true) :
    ∀ d ∈ w, isIdentRest d = true := by
  have hword := List.all_eq_true.mp quotedWords_facts.1 _ h
  rw [isWordOrMark] at hword
  simp only [hc, Bool.not_true, Bool.false_or] at hword
  exact List.all_eq_true.mp hword

/-- Letters, digits and underscores begin quoted words, integers and identifiers. -/
theorem starts_identRest (hc : isIdentRest c = true) {k : TokenKind} (hk : k.starts c = true) :
    k = .quoted ∨ k = .integer ∨ k = .identifier := by
  have hne : ∀ d, isIdentRest d = false → c ≠ d := by
    rintro d hd rfl
    rw [hc] at hd
    cases hd
  cases k with
  | quoted => exact .inl rfl
  | integer => exact .inr (.inl rfl)
  | identifier => exact .inr (.inr rfl)
  | string => exact absurd (eq_of_beq hk) (hne '"' (by decide))
  | includeString => exact absurd (eq_of_beq hk) (hne '<' (by decide))
  | comment => exact absurd (eq_of_beq hk) (hne '/' (by decide))
  | ws =>
    simp only [TokenKind.starts, isSpace, Bool.or_eq_true, beq_iff_eq] at hk
    rcases hk with ((hk | hk) | hk) | hk
    · exact absurd hk (hne ' ' (by decide))
    · exact absurd hk (hne '\t' (by decide))
    · exact absurd hk (hne '\r' (by decide))
    · exact absurd hk (hne '\n' (by decide))

/-- A text that no letter, digit or underscore comes first in. -/
def EndsWord (rest : Str) : Prop := ∀ c ∈ rest.head?, isIdentRest c = false

/-- Keywords, identifiers and integers. -/
theorem stops_word (hne : w ≠ []) (hw : ∀ c ∈ w, isIdentRest c = true) (hrest : EndsWord rest) :
    lexer.Stops w rest := by
  obtain ⟨d, w, rfl⟩ := List.exists_cons_of_ne_nil hne
  refine Lexer.stops_of_head fun c hc u ↦ ruleOf_rejects fun k ↦ ?_
  have hend := hrest c hc
  have hd := hw d List.mem_cons_self
  rw [List.cons_append]
  cases hk : k.starts d with
  | false => exact accepts_of_starts hk
  | true =>
    refine Bool.eq_false_iff.mpr fun haccepts ↦ Bool.eq_false_iff.mp hend ?_
    obtain rfl | rfl | rfl := starts_identRest hd hk
    · exact quotedWords_words (List.contains_iff_mem.mp haccepts) hd c (by simp)
    · simp only [TokenKind.accepts, Bool.and_eq_true, List.all_eq_true] at haccepts
      have hdigit := haccepts.2 c (by simp)
      simp [isIdentRest, Char.isAlphanum, hdigit]
    · simp only [TokenKind.accepts, Bool.and_eq_true, List.all_eq_true] at haccepts
      exact haccepts.2 c (by simp)

/-- A quoted word that no other word begins with. -/
def isSymbol (w : Str) : Bool :=
  !w.isEmpty && quotedWords.contains w && (quotedWords.all fun q ↦ !w.isPrefixOf q || q == w) &&
    w.head?.all fun c ↦ lexer.rules.all fun k ↦ k = .quoted || !k.starts c

theorem stops_symbol (hw : isSymbol w = true) (rest : Str) : lexer.Stops w rest := by
  simp only [isSymbol, Bool.and_eq_true, List.all_eq_true, Bool.or_eq_true, Bool.not_eq_true',
    decide_eq_true_eq, beq_iff_eq, Option.all_eq_true_iff_get] at hw
  obtain ⟨⟨⟨hne, -⟩, honly⟩, hstarts⟩ := hw
  cases w with
  | nil => simp at hne
  | cons d w =>
    refine Lexer.stops_of_head fun c _ u ↦ ruleOf_rejects fun k ↦ ?_
    rcases hstarts rfl k (by cases k <;> decide) with rfl | hstart
    · refine Bool.eq_false_iff.mpr fun haccepts ↦ ?_
      rcases honly _ (List.contains_iff_mem.mp haccepts) with hprefix | heq
      · rw [List.isPrefixOf_iff_prefix.mpr (List.prefix_append ..)] at hprefix
        cases hprefix
      · simp at heq
    · exact accepts_of_starts hstart

/-- A string is closed by its second quote. -/
theorem stops_string (s : StringToken) (rest : Str) : lexer.Stops s.text rest := by
  refine Lexer.stops_of_head fun c _ u ↦ ruleOf_rejects fun k ↦ ?_
  have htext : s.text ++ c :: u = '"' :: (s.body ++ ['"'] ++ c :: u) := rfl
  rw [htext]
  cases k with
  | string =>
    have hmem : '"' ∈ (s.body ++ ['"'] ++ c :: u).dropLast := by
      rw [List.dropLast_append_of_ne_nil (List.cons_ne_nil c u)]
      simp
    simp only [TokenKind.accepts, List.contains_iff_mem.mpr hmem, Bool.not_true,
      Bool.and_false]
  | quoted =>
    obtain ⟨-, -, -, -, hquote, -⟩ := quotedWords_facts
    exact accepts_of_starts hquote
  | integer | includeString | identifier | ws | comment =>
    apply accepts_of_starts
    decide

/-- One blank between words. -/
theorem stops_blank (hrest : ∀ c ∈ rest.head?, isSpace c = false) : lexer.Stops [' '] rest := by
  refine Lexer.stops_of_head fun c hc u ↦ ruleOf_rejects fun k ↦ ?_
  cases k with
  | ws =>
    have hspace := hrest c hc
    simp [TokenKind.accepts, hspace]
  | quoted =>
    obtain ⟨-, -, -, -, -, hblank, -⟩ := quotedWords_facts
    exact accepts_of_starts hblank
  | integer | string | includeString | identifier | comment =>
    apply accepts_of_starts
    decide

/-- A text with no line end before its first quote, as an included name would need. -/
def Calm (rest : Str) : Prop := ∀ p, p <+: rest → '"' ∉ p → '\n' ∉ p

theorem calm_nil : Calm [] := fun p hp _ ↦ by simp [List.prefix_nil.mp hp]

theorem Calm.append (h : Calm rest) (hw : '\n' ∉ w) : Calm (w ++ rest) := by
  intro p hp hquote
  rcases List.prefix_or_prefix_of_prefix hp (List.prefix_append w rest) with hp' | ⟨p', rfl⟩
  · exact fun hmem ↦ hw (hp'.subset hmem)
  · rw [List.mem_append, not_or] at hquote ⊢
    exact ⟨hw, h p' ((List.prefix_append_right_inj w).mp hp) hquote.2⟩

theorem calm_quote (rest : Str) : Calm ('"' :: rest) := by
  intro p hp hquote
  cases p with
  | nil => simp
  | cons c p =>
    obtain ⟨rfl, -⟩ := List.cons_prefix_cons.mp hp
    simp at hquote

/-- An operator starts like no word with an end of its own. -/
private theorem operator_head (op : BinaryOp) : ∃ d w, op.token.text = d :: w ∧
    TokenKind.integer.starts d = false ∧ TokenKind.string.starts d = false ∧
    TokenKind.identifier.starts d = false ∧ TokenKind.ws.starts d = false ∧ '\n' ∉ d :: w := by
  rcases op with (_ | _) | (_ | _) | (_ | _ | _ | _ | _ | _) | _ <;>
    exact ⟨_, _, rfl, by decide⟩

/-- The operators are among the quoted words. -/
private theorem operator_quoted (op : BinaryOp) : quotedWords.contains op.token.text = true := by
  have hall : ([.mulDiv .mul, .mulDiv .div, .addSub .add, .addSub .sub, .compare .eq, .compare .ne,
      .compare .lt, .compare .gt, .compare .le, .compare .ge, .assign] : List BinaryOp).all
      (fun op ↦ quotedWords.contains op.token.text) = true := by decide +kernel
  rw [List.all_eq_true] at hall
  refine hall op ?_
  rcases op with (_ | _) | (_ | _) | (_ | _ | _ | _ | _ | _) | _ <;> simp

/-- Only `//` begins a comment. -/
private theorem operator_comment (op : BinaryOp) (p : Str) :
    TokenKind.comment.accepts (op.token.text ++ ' ' :: p) = false := by
  rcases op with (_ | _) | (_ | _) | (_ | _ | _ | _ | _ | _) | _ <;> rfl

theorem includeString_accepts (h : TokenKind.includeString.accepts w = true) :
    '"' ∉ w ∧ '\n' ∈ w := by
  unfold TokenKind.accepts at h
  split at h
  all_goals cases ‹TokenKind.includeString = _›
  · next w =>
    simp only [Bool.and_eq_true, Bool.not_eq_true', List.isSuffixOf_iff_suffix] at h
    refine ⟨?_, List.mem_cons_of_mem _ (h.2.subset (by simp))⟩
    rw [List.mem_cons, not_or]
    exact ⟨by decide, fun hmem ↦ Bool.eq_false_iff.mp h.1 (List.contains_iff_mem.mpr hmem)⟩
  · cases h

/-- An operator with a blank behind it. -/
theorem stops_operator (op : BinaryOp) (hcalm : Calm rest) :
    lexer.Stops op.token.text (' ' :: rest) := by
  intro p hp hprefix
  obtain ⟨c, p, rfl⟩ := List.exists_cons_of_ne_nil hp
  obtain ⟨rfl, hp'⟩ := List.cons_prefix_cons.mp hprefix
  obtain ⟨d, w, htext, hinteger, hstring, hident, hws, hline⟩ := operator_head op
  refine ruleOf_rejects fun k ↦ ?_
  cases k with
  | quoted =>
    exact Bool.eq_false_iff.mpr fun hmem ↦
      quotedWords_facts.2.1 _ (List.contains_iff_mem.mp hmem) (by simp)
  | comment => exact operator_comment op p
  | includeString =>
    refine Bool.eq_false_iff.mpr fun haccepts ↦ ?_
    obtain ⟨hquote, hmem⟩ := includeString_accepts haccepts
    simp only [htext, List.mem_append, List.mem_cons, not_or] at hquote hmem hline
    refine hcalm p hp' hquote.2.2 ?_
    simpa [hline] using hmem
  | integer | string | identifier | ws =>
    rw [htext, List.cons_append]
    apply accepts_of_starts
    assumption

end Words

/-! ### Tokens of a text -/

section Tokens

variable {rest : Str} {ts : List (TokenKind × Str)}

/-- A token of the grammar in front of a text. -/
theorem lexes_token {t : Token} (hne : t.text ≠ []) (hr : lexer.ruleOf t.text = some t.lexeme.1)
    (hstop : lexer.Stops t.text rest) (h : lexer.Lexes rest ts) :
    lexer.Lexes (t.text ++ rest) (t.lexeme :: ts) := by
  refine .token hne hr hstop ?_ h
  cases t <;> rfl

theorem ruleOf_quoted {w : Str} (h : quotedWords.contains w = true) :
    lexer.ruleOf w = some .quoted :=
  ruleOf_eq_some [] _ rfl h nofun

theorem ruleOf_ident (name : Ident) : lexer.ruleOf name.text = some .identifier := by
  obtain ⟨text, valid⟩ := name
  cases text with
  | nil => simp [isIdentifier] at valid
  | cons c w =>
    simp only [isIdentifier, Bool.and_eq_true, Bool.not_eq_true'] at valid
    obtain ⟨⟨hc, hw⟩, hkeyword⟩ := valid
    have hword : TokenKind.identifier.accepts (c :: w) = true := by
      rw [TokenKind.accepts, hc, hw, Bool.and_self]
    have hquoted : TokenKind.quoted.accepts (c :: w) = false := by
      refine Bool.eq_false_iff.mpr fun hmem ↦ ?_
      obtain ⟨-, -, hkeywords, -⟩ := quotedWords_facts
      have hkey := List.all_eq_true.mp hkeywords _ (List.contains_iff_mem.mp hmem)
      rw [hword, hkeyword] at hkey
      cases hkey
    refine ruleOf_eq_some [.quoted, .integer, .string, .includeString] _ rfl hword fun k hk ↦ ?_
    cases hstart : k.starts c with
    | false => exact accepts_of_starts hstart
    | true =>
      obtain rfl | rfl | rfl := starts_identRest (isIdentRest_of_start hc) hstart
      · exact hquoted
      · rw [not_identStart_of_isDigit hstart] at hc
        cases hc
      · simp at hk

theorem ruleOf_integer (n : IntegerToken) : lexer.ruleOf n.text = some .integer := by
  obtain ⟨text, valid⟩ := n
  refine ruleOf_eq_some [.quoted] _ rfl valid fun k hk ↦ ?_
  rw [List.mem_singleton.mp hk]
  refine Bool.eq_false_iff.mpr fun hmem ↦ ?_
  obtain ⟨-, -, -, hintegers, -⟩ := quotedWords_facts
  have hnot := List.all_eq_true.mp hintegers _ (List.contains_iff_mem.mp hmem)
  rw [TokenKind.accepts, valid] at hnot
  cases hnot

theorem ruleOf_string (s : StringToken) : lexer.ruleOf s.text = some .string := by
  have htext : s.text = '"' :: (s.body ++ ['"']) := rfl
  have haccepts : TokenKind.string.accepts s.text = true := by
    rw [htext, TokenKind.accepts, List.getLast?_concat, List.dropLast_concat,
      Bool.eq_false_iff.mpr (mt List.contains_iff_mem.mp s.valid)]
    rfl
  refine ruleOf_eq_some [.quoted, .integer] _ rfl haccepts fun k hk ↦ ?_
  rw [htext]
  apply accepts_of_starts
  obtain ⟨-, -, -, -, hquote, -⟩ := quotedWords_facts
  rcases List.mem_cons.mp hk with rfl | hk
  · exact hquote
  · rw [List.mem_singleton.mp hk]
    decide

theorem lexes_ident (name : Ident) (hrest : EndsWord rest) (h : lexer.Lexes rest ts) :
    lexer.Lexes (name.text ++ rest) ((Token.ident name).lexeme :: ts) := by
  have hne : name.text ≠ [] := fun hnil ↦ by
    have hvalid := name.valid
    rw [hnil] at hvalid
    cases hvalid
  exact lexes_token (t := .ident name) hne (ruleOf_ident name)
    (stops_word hne (List.all_eq_true.mp name.isWord) hrest) h

theorem lexes_literal (l : Literal) (hrest : EndsWord rest) (h : lexer.Lexes rest ts) :
    lexer.Lexes (l.getText ++ rest) (l.token.lexeme :: ts) := by
  cases l with
  | integer n =>
    have hvalid := n.valid
    simp only [Bool.and_eq_true, Bool.not_eq_true', List.isEmpty_eq_false_iff] at hvalid
    exact lexes_token (t := .integer n) hvalid.1 (ruleOf_integer n)
      (stops_word hvalid.1 (List.all_eq_true.mp n.isWord) hrest) h
  | string s =>
    exact lexes_token (t := .string s) (List.cons_ne_nil _ _) (ruleOf_string s) (stops_string s _) h
  | true =>
    obtain ⟨-, -, -, -, -, -, hliterals⟩ := quotedWords_facts
    obtain ⟨hquoted, hne, hword⟩ := hliterals .trueLiteral (by simp)
    exact lexes_token (t := .trueLiteral) hne (ruleOf_quoted hquoted)
      (stops_word hne (List.all_eq_true.mp hword) hrest) h
  | false =>
    obtain ⟨-, -, -, -, -, -, hliterals⟩ := quotedWords_facts
    obtain ⟨hquoted, hne, hword⟩ := hliterals .falseLiteral (by simp)
    exact lexes_token (t := .falseLiteral) hne (ruleOf_quoted hquoted)
      (stops_word hne (List.all_eq_true.mp hword) hrest) h

theorem lexes_symbol {t : Token} (ht : isSymbol t.text = true) (hk : t.lexeme.1 = .quoted)
    (h : lexer.Lexes rest ts) : lexer.Lexes (t.text ++ rest) (t.lexeme :: ts) := by
  have hwords := ht
  simp only [isSymbol, Bool.and_eq_true, Bool.not_eq_true', List.isEmpty_eq_false_iff] at hwords
  obtain ⟨⟨⟨hne, hquoted⟩, -⟩, -⟩ := hwords
  exact lexes_token hne (by rw [hk, ruleOf_quoted hquoted]) (stops_symbol ht rest) h

/-- A text that begins with a word. -/
def StartsWord (rest : Str) : Prop := ∃ c s, rest = c :: s ∧ isSpace c = false

theorem StartsWord.append (h : StartsWord rest) (s : Str) : StartsWord (rest ++ s) := by
  obtain ⟨c, s', rfl, hc⟩ := h
  exact ⟨c, s' ++ s, rfl, hc⟩

theorem lexes_blank (hrest : StartsWord rest) (h : lexer.Lexes rest ts) :
    lexer.Lexes (' ' :: rest) ts := by
  obtain ⟨c, s, rfl, hc⟩ := hrest
  have hws : lexer.ruleOf [' '] = some .ws := by
    obtain ⟨-, -, -, -, -, hblank, -⟩ := quotedWords_facts
    refine ruleOf_eq_some [.quoted, .integer, .string, .includeString, .identifier] _ rfl rfl ?_
    intro k hk
    apply accepts_of_starts
    rcases List.mem_cons.mp hk with rfl | hk
    · exact hblank
    · revert k
      decide
  refine .skip (w := [' ']) (List.cons_ne_nil _ _) hws (stops_blank fun d hd ↦ ?_) rfl h
  cases hd
  exact hc

/-- An operator between blanks. -/
theorem lexes_operator (op : BinaryOp) (hrest : StartsWord rest) (hcalm : Calm rest)
    (h : lexer.Lexes rest ts) :
    lexer.Lexes (' ' :: (op.token.text ++ ' ' :: rest)) (op.token.lexeme :: ts) := by
  obtain ⟨d, w, htext, -, -, -, hws, -⟩ := operator_head op
  have hquoted : op.token.lexeme.1 = .quoted := by
    rcases op with (_ | _) | (_ | _) | (_ | _ | _ | _ | _ | _) | _ <;> rfl
  have hstarts : StartsWord (op.token.text ++ ' ' :: rest) := ⟨d, w ++ ' ' :: rest, by
    rw [htext]
    rfl, hws⟩
  refine lexes_blank hstarts (lexes_token ?_ ?_ (stops_operator op hcalm) (lexes_blank hrest h))
  · rw [htext]
    exact List.cons_ne_nil _ _
  · rw [hquoted, ruleOf_quoted (operator_quoted op)]

end Tokens

end JBLang.Ast
