import Commentary.Text.LetterCase
import Mathlib.Data.List.Infix

/-!
# Patterns

A pattern says how a text may start. There may be several ways to match it, and they are tried one
after the other: the first part of a choice before the second one, and a repetition as often as it
can be done before it is done less often. The first way that succeeds is the match. Here a way is
known by what it leaves of the text.
-/

namespace Commentary

/-- How a text may start. -/
inductive Pattern where
  | nothing
  /-- One character of a class. -/
  | one (p : Char → Bool)
  | seq (a b : Pattern)
  /-- One or the other, where the first one is preferred. -/
  | alt (a b : Pattern)
  /-- Any number of times, where more times are preferred. -/
  | star (a : Pattern)

namespace Pattern

/-! ## Ways to match -/

/-- What the ways to repeat a step leave of a text. A step that takes nothing is not repeated. -/
def repeated (step : Text → List Text) (t : Text) : List Text :=
  ((step t).flatMap fun rest => if rest.length < t.length then repeated step rest else []) ++ [t]
termination_by t.length

/-- What the ways to match a pattern leave of a text, in the order in which they are tried. -/
def rests : Pattern → Text → List Text
  | nothing, t => [t]
  | one _, [] => []
  | one p, c :: t => if p c then [t] else []
  | seq a b, t => (a.rests t).flatMap b.rests
  | alt a b, t => a.rests t ++ b.rests t
  | star a, t => repeated a.rests t

/-- Once or not at all, where once is preferred. -/
def opt (a : Pattern) : Pattern := alt a nothing

/-- At least once, where more times are preferred. -/
def plus (a : Pattern) : Pattern := seq a (star a)

/-- At most a number of characters of a class, where more are preferred. -/
def atMost (p : Char → Bool) : Nat → Pattern
  | 0 => nothing
  | n + 1 => opt (seq (one p) (atMost p n))

/-- A word, given in small letters, in any case. -/
def word : Text → Pattern
  | [] => nothing
  | m :: w => seq (one (Text.isLetter m)) (word w)

/-- One of some words, where earlier ones are preferred. -/
def anyOf : List Text → Pattern
  | [] => one fun _ => false
  | w :: words => alt (word w) (anyOf words)

variable {a b : Pattern} {p x : Char → Bool} {t rest : Text}

theorem rests_seq (a b : Pattern) (t : Text) :
    (seq a b).rests t = (a.rests t).flatMap b.rests := rfl

theorem rests_opt (a : Pattern) (t : Text) : (opt a).rests t = a.rests t ++ [t] := rfl

theorem rests_one_cons (p : Char → Bool) (c : Char) (t : Text) :
    (one p).rests (c :: t) = if p c then [t] else [] := rfl

theorem rests_star (h : ∀ rest ∈ a.rests t, rest.length < t.length) :
    (star a).rests t = (a.rests t).flatMap (star a).rests ++ [t] := by
  have hstar : (star a).rests = repeated a.rests := funext fun t => rfl
  rw [hstar, repeated]
  refine congrArg (· ++ [t]) (List.flatMap_congr fun rest hrest => ?_)
  rw [if_pos (h rest hrest)]

theorem rests_star_one_nil (p : Char → Bool) : (star (one p)).rests [] = [[]] := by
  rw [rests_star (by simp [rests])]
  rfl

theorem rests_star_one_cons_of_pos {c : Char} (h : p c) (t : Text) :
    (star (one p)).rests (c :: t) = (star (one p)).rests t ++ [c :: t] := by
  rw [rests_star (by simp [rests, h]), rests_one_cons, if_pos h, List.flatMap_singleton]

theorem rests_star_one_cons_of_neg {c : Char} (h : ¬ p c) (t : Text) :
    (star (one p)).rests (c :: t) = [c :: t] := by
  rw [rests_star (by simp [rests, h]), rests_one_cons, if_neg h]
  rfl

theorem rests_word (w t : Text) : (word w).rests t = (Text.afterWord? w t).toList := by
  induction w generalizing t with
  | nil => rfl
  | cons m w ih =>
      cases t with
      | nil => rfl
      | cons c t =>
          rw [word, rests_seq, rests_one_cons, Text.afterWord?]
          split_ifs
          · rw [List.flatMap_singleton, ih]
          · rfl

theorem rests_anyOf (words : List Text) (t : Text) :
    (anyOf words).rests t = words.flatMap fun w => (Text.afterWord? w t).toList := by
  induction words with
  | nil => cases t <;> rfl
  | cons w words ih =>
      rw [anyOf, rests, rests_word, ih]
      rfl

/-! ## Runs of characters -/

/-- Of a run of characters as long as it can be, behind which a character stands that is not one of
them, there is one way at most. -/
theorem rests_star_one_then (h : ∀ c, p c → ¬ x c) (t : Text) :
    (seq (star (one p)) (one x)).rests t = (one x).rests (t.dropWhile p) := by
  rw [rests_seq]
  induction t with
  | nil => rw [rests_star_one_nil, List.flatMap_singleton]; rfl
  | cons c t ih =>
      by_cases hc : p c
      · rw [rests_star_one_cons_of_pos hc, List.flatMap_append, ih, List.flatMap_singleton,
          rests_one_cons, if_neg (h c hc), List.append_nil, List.dropWhile_cons_of_pos hc]
      · rw [rests_star_one_cons_of_neg hc, List.flatMap_singleton, List.dropWhile_cons_of_neg hc]

theorem rests_plus_one_then (h : ∀ c, p c → ¬ x c) (t : Text) :
    (seq (plus (one p)) (one x)).rests t =
      if t.takeWhile p = [] then [] else (one x).rests (t.dropWhile p) := by
  rw [rests_seq, plus, rests_seq, List.flatMap_assoc]
  cases t with
  | nil => rfl
  | cons c t =>
      rw [rests_one_cons]
      by_cases hc : p c
      · rw [if_pos hc, List.flatMap_singleton, List.takeWhile_cons_of_pos hc,
          List.dropWhile_cons_of_pos hc, if_neg (List.cons_ne_nil _ _)]
        exact rests_star_one_then h t
      · rw [if_neg hc, List.takeWhile_cons_of_neg hc, if_pos rfl]
        rfl

theorem head?_rests_atMost (p : Char → Bool) (n : Nat) (t : Text) :
    ((atMost p n).rests t).head? = some (t.drop ((t.takeWhile p).take n).length) := by
  induction n generalizing t with
  | zero => rfl
  | succ n ih =>
      rw [atMost, rests_opt, rests_seq, List.head?_append]
      cases t with
      | nil => rfl
      | cons c t =>
          rw [rests_one_cons]
          by_cases hc : p c
          · rw [if_pos hc, List.flatMap_singleton, ih, List.takeWhile_cons_of_pos hc]
            rfl
          · rw [if_neg hc, List.takeWhile_cons_of_neg hc]
            rfl

end Pattern

end Commentary
