import Mathlib.Tactic

/-! Patterns as SQL's `GLOB` reads them: `*` for any text, `?` for one character, `[...]` for one of
a set, where `[^...]` excludes the set, a `]` right after the opening bracket is a member and `a-z`
is a range. A set that is never closed matches nothing. -/

namespace Glob

abbrev CharSet := List (Char × Char)

def CharSet.has (set : CharSet) (c : Char) : Bool := set.any fun range => range.1 ≤ c && c ≤ range.2

inductive Token where
  | any | one
  | oneOf (inverted : Bool) (set : CharSet)
  | literal (c : Char)
  deriving DecidableEq

def isWildcard (c : Char) : Bool := c == '*' || c == '?' || c == '['

inductive Position where
  | outside | opened | inverted
  | inside (inverted : Bool) (set : CharSet) (prior : Option Char)
  deriving Repr

/-- Tokens of a pattern; `none` when a set is left open. -/
def tokens : Position → List Char → Option (List Token)
  | .outside, [] => some []
  | .outside, c :: rest =>
    if c = '*' then (tokens .outside rest).map (Token.any :: ·)
    else if c = '?' then (tokens .outside rest).map (Token.one :: ·)
    else if c = '[' then tokens .opened rest
    else (tokens .outside rest).map (Token.literal c :: ·)
  | .opened, c :: rest =>
    if c = '^' then tokens .inverted rest
    else if c = ']' then tokens (.inside false [(c, c)] none) rest
    else tokens (.inside false [(c, c)] (some c)) rest
  | .inverted, c :: rest =>
    if c = ']' then tokens (.inside true [(c, c)] none) rest
    else tokens (.inside true [(c, c)] (some c)) rest
  | .inside inverted set prior, '-' :: high :: rest =>
    match prior with
    | some low =>
      -- a dash right before the closing bracket is a member, not a range
      if high = ']' then tokens (.inside inverted (set ++ [('-', '-')]) (some '-')) (high :: rest)
      else tokens (.inside inverted (set ++ [(low, high)]) none) rest
    | none => tokens (.inside inverted (set ++ [('-', '-')]) (some '-')) (high :: rest)
  | .inside inverted set _, c :: rest =>
    if c = ']' then (tokens .outside rest).map (Token.oneOf inverted set :: ·)
    else tokens (.inside inverted (set ++ [(c, c)]) (some c)) rest
  | _, [] => none

def matchTokens : List Token → List Char → Bool
  | [], text => text.isEmpty
  | .any :: rest, text => text.tails.any fun tail => matchTokens rest tail
  | .one :: rest, text => match text with
      | [] => false
      | _ :: tail => matchTokens rest tail
  | .oneOf inverted set :: rest, text => match text with
      | [] => false
      | c :: tail => (set.has c != inverted) && matchTokens rest tail
  | .literal d :: rest, text => match text with
      | [] => false
      | c :: tail => c == d && matchTokens rest tail

/-- `text GLOB pattern`. -/
def glob (pattern text : List Char) : Bool :=
  match tokens .outside pattern with
  | some tokens => matchTokens tokens text
  | none => false

variable {lead text : List Char}

theorem tokens_literals (plain : ∀ c ∈ lead, isWildcard c = false) (rest : List Char) :
    tokens .outside (lead ++ rest) = (tokens .outside rest).map (lead.map Token.literal ++ ·) := by
  induction lead with
  | nil => simp
  | cons c lead step =>
    obtain ⟨here, later⟩ := List.forall_mem_cons.mp plain
    simp only [isWildcard, Bool.or_eq_false_iff, beq_eq_false_iff_ne] at here
    obtain ⟨⟨notAny, notOne⟩, notSet⟩ := here
    rw [List.cons_append, tokens, if_neg notAny, if_neg notOne, if_neg notSet, step later]
    simp [Function.comp_def]

theorem matchTokens_literals (rest : List Token) :
    matchTokens (lead.map Token.literal ++ rest) text = true ↔
      ∃ tail, text = lead ++ tail ∧ matchTokens rest tail = true := by
  induction lead generalizing text with
  | nil => simp
  | cons c lead step =>
    cases text with
    | nil => simp [matchTokens]
    | cons d text =>
      rw [List.map_cons, List.cons_append, matchTokens, Bool.and_eq_true, beq_iff_eq, step]
      constructor
      · rintro ⟨rfl, tail, rfl, rest⟩
        exact ⟨tail, rfl, rest⟩
      · rintro ⟨tail, same, rest⟩
        obtain ⟨rfl, rfl⟩ := List.cons.inj same
        exact ⟨rfl, tail, rfl, rest⟩

theorem matchTokens_any : matchTokens [.any] text = true := by
  simp only [matchTokens, List.any_eq_true]
  exact ⟨[], (List.mem_tails _ _).mpr List.nil_suffix, rfl⟩

theorem glob_star (plain : ∀ c ∈ lead, isWildcard c = false) :
    glob (lead ++ ['*']) text = true ↔ lead <+: text := by
  have star : tokens .outside ['*'] = some [.any] := by simp [tokens]
  rw [glob, tokens_literals plain, star, Option.map_some]
  simp only [matchTokens_literals, matchTokens_any, and_true]
  exact ⟨fun ⟨tail, same⟩ => ⟨tail, same.symm⟩, fun ⟨tail, same⟩ => ⟨tail, same.symm⟩⟩

example : glob "ev[0-9]:*".toList "ev7:intent".toList = true := by decide

end Glob
