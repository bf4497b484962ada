import Mathlib.Data.List.Basic

/-!
# Texts as character lists

The strings of a translator are lists of characters, so that its text processing is list
recursion. String literals are written as such and coerced.
-/

namespace JBLang.Base

/-- A text. -/
abbrev Str := List Char

instance : Coe String Str := ⟨String.toList⟩

/-- `n` blanks. -/
def blanks (n : Nat) : Str := List.replicate n ' '

/-- Decimal text of a natural number. -/
def decimal (n : Nat) : Str := Nat.toDigits 10 n

/-- Decimal text of an integer. -/
def decimalInt : Int → Str
  | .ofNat n => decimal n
  | .negSucc n => '-' :: decimal (n + 1)

/-- Texts with a separator between them. -/
def joinWith (sep : Str) : List Str → Str
  | [] => []
  | [a] => a
  | a :: b :: l => a ++ sep ++ joinWith sep (b :: l)

/-- The text before the first occurrence of `pattern`, if there is one. -/
def beforeFirst (pattern : Str) : Str → Option Str
  | [] => if pattern = [] then some [] else none
  | c :: s =>
    if pattern.isPrefixOf (c :: s) then some []
    else (beforeFirst pattern s).map (c :: ·)

/-- A text without the first character of the pattern is skipped. -/
theorem beforeFirst_skip {c : Char} {text : Str} (h : c ∉ text) (pattern t : Str) :
    beforeFirst (c :: pattern) (text ++ t) = (beforeFirst (c :: pattern) t).map (text ++ ·) := by
  induction text with
  | nil => simp
  | cons d text ih =>
    rw [List.mem_cons, not_or] at h
    have hne : (c == d) = false := beq_eq_false_iff_ne.mpr h.1
    rw [List.cons_append, beforeFirst, if_neg (by simp [List.isPrefixOf, hne]), ih h.2,
      Option.map_map]
    rfl

theorem beforeFirst_of_not_mem {c : Char} {s : Str} (h : c ∉ s) (pattern : Str) :
    beforeFirst (c :: pattern) s = none := by
  have hskip := beforeFirst_skip h pattern []
  rwa [List.append_nil, beforeFirst, if_neg (by simp)] at hskip

/-- A character that is not in the text before it. -/
theorem beforeFirst_append_of_not_mem {c : Char} {s : Str} (h : c ∉ s) (t : Str) :
    beforeFirst [c] (s ++ c :: t) = some s := by
  rw [beforeFirst_skip h, beforeFirst, if_pos (by simp)]
  simp

/-- What stands before the first occurrence of a character does not contain it. -/
theorem not_mem_of_beforeFirst {c : Char} {s pre : Str} (h : beforeFirst [c] s = some pre) :
    c ∉ pre := by
  induction s generalizing pre with
  | nil => simp [beforeFirst] at h
  | cons d s ih =>
    by_cases hc : c = d
    · simp only [beforeFirst, hc, List.isPrefixOf, beq_self_eq_true, Bool.and_self, if_true,
        Option.some.injEq] at h
      simp [← h]
    · simp only [beforeFirst, List.isPrefixOf, beq_eq_false_iff_ne.mpr hc, Bool.false_and,
        Bool.false_eq_true, if_false, Option.map_eq_some_iff] at h
      obtain ⟨pre', hpre', rfl⟩ := h
      simp [hc, ih hpre']

/-- `pattern` occurs in the text. -/
def occursIn (pattern s : Str) : Bool := (beforeFirst pattern s).isSome

end JBLang.Base
