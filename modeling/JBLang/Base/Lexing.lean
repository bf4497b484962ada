import Mathlib.Data.List.Basic
import Mathlib.Data.List.Infix

/-!
# Lexers by longest match

A lexer is a list of rules, each with the words that it accepts. At every place it takes the
longest word that a rule accepts, by the first rule that does. `Lexes` is the relation between a
text and its tokens; it is built from the end of the text, one word at a time, with the condition
that no longer word could have been taken.
-/

namespace JBLang.Base

/-- A lexer: its rules in order, their words, and the rules whose words are left out. -/
structure Lexer (α κ : Type) where
  rules : List κ
  accepts : κ → List α → Bool
  skips : κ → Bool

namespace Lexer

variable {α κ : Type} (L : Lexer α κ)

/-- The first rule that accepts a word. -/
def ruleOf (w : List α) : Option κ := L.rules.find? (L.accepts · w)

/-- The longest word of at most that many characters at the beginning of a text. -/
def munch (text : List α) : Nat → Option (κ × List α)
  | 0 => none
  | n + 1 => match L.ruleOf (text.take (n + 1)) with
    | some r => some (r, text.take (n + 1))
    | none => munch text n

/-- The tokens of a text of at most that many words. -/
def lexWords : Nat → List α → Option (List (κ × List α))
  | _, [] => some []
  | 0, _ :: _ => none
  | n + 1, text => do
    let (r, w) ← L.munch text text.length
    let ts ← lexWords n (text.drop w.length)
    return if L.skips r then ts else (r, w) :: ts

/-- The tokens of a text, if it is made of words. -/
def lex (text : List α) : Option (List (κ × List α)) := L.lexWords text.length text

/-- The word is not continued by what follows it. -/
def Stops (w rest : List α) : Prop := ∀ p, p ≠ [] → p <+: rest → L.ruleOf (w ++ p) = none

/-- A text and its tokens. -/
inductive Lexes : List α → List (κ × List α) → Prop
  | nil : Lexes [] []
  | token {r : κ} {w rest : List α} {ts : List (κ × List α)} (hw : w ≠ [])
    (hr : L.ruleOf w = some r) (hstop : L.Stops w rest) (hkept : L.skips r = false)
    (h : Lexes rest ts) : Lexes (w ++ rest) ((r, w) :: ts)
  | skip {r : κ} {w rest : List α} {ts : List (κ × List α)} (hw : w ≠ [])
    (hr : L.ruleOf w = some r) (hstop : L.Stops w rest) (hskip : L.skips r = true)
    (h : Lexes rest ts) : Lexes (w ++ rest) ts

variable {L} {r : κ} {w rest : List α}

theorem ruleOf_eq_none (h : ∀ r ∈ L.rules, L.accepts r w = false) : L.ruleOf w = none :=
  List.find?_eq_none.mpr fun r hr ↦ Bool.eq_false_iff.mp (h r hr)

/-- A word that no accepted word begins with the next character behind it. -/
theorem stops_of_head (h : ∀ c ∈ rest.head?, ∀ u, L.ruleOf (w ++ c :: u) = none) :
    L.Stops w rest := by
  intro p hp hstart
  obtain ⟨c, u, rfl⟩ := List.exists_cons_of_ne_nil hp
  obtain ⟨rest', rfl⟩ := hstart
  exact h c (by simp) u

/-- The longest word is found from any greater length. -/
theorem munch_of_stops (hw : w ≠ []) (hr : L.ruleOf w = some r) (hstop : L.Stops w rest) (n : Nat)
    (hn : n ≤ rest.length) : L.munch (w ++ rest) (w.length + n) = some (r, w) := by
  induction n with
  | zero =>
    obtain ⟨c, u, rfl⟩ := List.exists_cons_of_ne_nil hw
    rw [Nat.add_zero, List.length_cons, munch, ← List.length_cons, List.take_left, hr]
  | succ n ih =>
    have htake : (w ++ rest).take (w.length + n + 1) = w ++ rest.take (n + 1) := by
      rw [Nat.add_assoc, List.take_length_add_append]
    have hne : rest.take (n + 1) ≠ [] := by
      rw [← List.length_pos_iff, List.length_take]
      omega
    rw [← Nat.add_assoc, munch, htake, hstop _ hne (List.take_prefix ..)]
    exact ih (by omega)

variable {text : List α} {ts : List (κ × List α)}

theorem lexWords_of_lexes (h : L.Lexes text ts) :
    ∀ {n : Nat}, text.length ≤ n → L.lexWords n text = some ts := by
  -- One word, of at least one character, for each unit of fuel.
  have step : ∀ {r : κ} {w rest : List α} {ts : List (κ × List α)}, w ≠ [] →
      L.ruleOf w = some r → L.Stops w rest →
      (∀ {n : Nat}, rest.length ≤ n → L.lexWords n rest = some ts) →
      ∀ {n : Nat}, (w ++ rest).length ≤ n →
        L.lexWords n (w ++ rest) = some (if L.skips r then ts else (r, w) :: ts) := by
    intro r w rest ts hw hr hstop ih n hn
    have hpos := List.length_pos_iff.mpr hw
    rw [List.length_append] at hn
    obtain ⟨n, rfl⟩ : ∃ m, n = m + 1 := ⟨n - 1, by omega⟩
    have hmunch := munch_of_stops hw hr hstop rest.length (Nat.le_refl _)
    obtain ⟨c, u, rfl⟩ := List.exists_cons_of_ne_nil hw
    rw [List.cons_append, lexWords, ← List.cons_append, List.length_append, hmunch]
    simp only [Option.bind_eq_bind, Option.bind_some, List.drop_left]
    rw [ih (by omega)]
    rfl
    nofun
  induction h with
  | nil => intro n _; cases n <;> rfl
  | token hw hr hstop hkept _ ih =>
    intro n hn
    rw [step hw hr hstop ih hn, hkept, if_neg Bool.false_ne_true]
  | skip hw hr hstop hskip _ ih =>
    intro n hn
    rw [step hw hr hstop ih hn, hskip, if_pos rfl]

theorem lex_of_lexes (h : L.Lexes text ts) : L.lex text = some ts := lexWords_of_lexes h (Nat.le_refl _)

/-! ### One word -/

end Lexer

end JBLang.Base
