import Commentary.Text.Blank
import Mathlib.Data.List.DropRight
import Mathlib.Tactic.SplitIfs

/-!
# Parts of a text

Trimming takes away what stands at an end of a text, and nothing else. Cutting a text at a mark
gives what stands before the mark and behind it, and splitting it into lines gives the lines one
behind the other. All of these are parts of the text.
-/

namespace Commentary.Text

variable {p : Char → Bool} {t : Text}

theorem isBlank_of_isSpace {c : Char} (h : isSpace c) : isBlank c := by
  rw [eq_of_beq h]
  decide

theorem isBlank_of_isSpaceOrTab {c : Char} (h : isSpaceOrTab c) : isBlank c := by
  rcases Bool.or_eq_true_iff.mp h with h | h <;> rw [eq_of_beq h] <;> decide

/-! ## Trimming -/

theorem trimStart_eq_nil_iff : trimStart p t = [] ↔ t.all p := by
  rw [List.dropWhile_eq_nil_iff, List.all_eq_true]

/-- Trimming stops at a character that stays. -/
theorem not_of_trimStart_eq_cons {c : Char} {rest : Text} (h : trimStart p t = c :: rest) :
    ¬ p c := by
  have hhead := List.head?_dropWhile_not p t
  rw [← trimStart, h] at hhead
  simpa using hhead

theorem all_trimStart (p : Char → Bool) (t : Text) : (trimStart p t).all p = t.all p := by
  induction t with
  | nil => rfl
  | cons c t ih =>
      rw [trimStart, List.dropWhile_cons]
      split_ifs with hc
      · rw [List.all_cons, hc, Bool.true_and]
        exact ih
      · rfl

theorem trimEnd_concat (p : Char → Bool) (t : Text) (c : Char) :
    trimEnd p (t ++ [c]) = if p c then trimEnd p t else t ++ [c] := by
  induction t with
  | nil => rfl
  | cons d t ih =>
      rw [List.cons_append, trimEnd, ih]
      by_cases hc : p c
      · rw [if_pos hc, if_pos hc, trimEnd]
      · rw [if_neg hc, if_neg hc]
        cases t <;> rfl

theorem trimEnd_eq_rdropWhile (p : Char → Bool) (t : Text) : trimEnd p t = t.rdropWhile p := by
  induction t using List.reverseRecOn with
  | nil => rfl
  | append_singleton t c ih => rw [trimEnd_concat, List.rdropWhile_concat, ih]

theorem trimEnd_isPrefix (p : Char → Bool) (t : Text) : trimEnd p t <+: t :=
  trimEnd_eq_rdropWhile p t ▸ List.rdropWhile_prefix p t

theorem trim_sublist (p : Char → Bool) (t : Text) : (trim p t).Sublist t :=
  (trimEnd_isPrefix p _).sublist.trans (List.dropWhile_sublist p)

theorem trimEnd_eq_self_iff : trimEnd p t = t ↔ ∀ c, t.getLast? = some c → ¬ p c := by
  rw [trimEnd_eq_rdropWhile, List.rdropWhile_eq_self_iff]
  refine ⟨fun h c hc => ?_, fun h hne => h _ (List.getLast?_eq_some_getLast hne)⟩
  obtain ⟨hne, rfl⟩ := List.mem_getLast?_eq_getLast hc
  exact h hne

theorem trimEnd_trimEnd (p : Char → Bool) (t : Text) : trimEnd p (trimEnd p t) = trimEnd p t := by
  rw [trimEnd_eq_rdropWhile, trimEnd_eq_rdropWhile, List.rdropWhile_idempotent]

/-- Trimming stops at a character outside of `p`. -/
theorem trimEnd_append_of_exists {s : Text} (h : ∃ c ∈ s, ¬ p c) (t : Text) :
    trimEnd p (t ++ s) = t ++ trimEnd p s := by
  obtain ⟨c, hc, hp⟩ := h
  induction s using List.reverseRecOn with
  | nil => exact absurd hc List.not_mem_nil
  | append_singleton s d ih =>
      rw [← List.append_assoc, trimEnd_concat, trimEnd_concat]
      split_ifs with hd
      · have hmem : c ∈ s := (List.mem_append.mp hc).resolve_right fun hlast =>
          hp (List.mem_singleton.mp hlast ▸ hd)
        exact ih hmem
      · exact List.append_assoc t s [d]

theorem length_trimEnd_lt {c : Char} (h : t.getLast? = some c) (hc : p c) :
    (trimEnd p t).length < t.length := by
  obtain ⟨s, rfl⟩ := List.getLast?_eq_some_iff.mp h
  rw [trimEnd_concat, if_pos hc, List.length_append]
  exact Nat.lt_succ_of_le (trimEnd_isPrefix p s).length_le

theorem trimEnd_cons_of_neg {c : Char} (h : ¬ p c) (t : Text) :
    trimEnd p (c :: t) = c :: trimEnd p t := by
  rw [trimEnd]
  split
  · next hnil => rw [if_neg h, hnil]
  · rfl

theorem trimEnd_append_of_eq_self {s : Text} (h : trimEnd p s = s) (t : Text) :
    trimEnd p (s ++ t) = s ++ trimEnd p t := by
  induction t using List.reverseRecOn with
  | nil => rw [List.append_nil, h]; exact (List.append_nil s).symm
  | append_singleton t c ih =>
      rw [← List.append_assoc, trimEnd_concat, trimEnd_concat]
      split_ifs
      · exact ih
      · exact List.append_assoc s t [c]

theorem trimEnd_eq_nil_iff : trimEnd p t = [] ↔ t.all p := by
  rw [trimEnd_eq_rdropWhile, List.rdropWhile_eq_nil_iff, List.all_eq_true]

section

variable {q : Char → Bool}

theorem all_trimEnd (h : ∀ c, p c → q c) (t : Text) : (trimEnd p t).all q = t.all q := by
  induction t using List.reverseRecOn with
  | nil => rfl
  | append_singleton t c ih =>
      rw [trimEnd_concat]
      split_ifs with hc
      · simp [ih, h c hc]
      · rfl

theorem trimEnd_trimEnd_of_imp (h : ∀ c, p c → q c) (t : Text) :
    trimEnd q (trimEnd p t) = trimEnd q t := by
  induction t using List.reverseRecOn with
  | nil => rfl
  | append_singleton t c ih =>
      rw [trimEnd_concat]
      split_ifs with hc
      · rw [ih, trimEnd_concat, if_pos (h c hc)]
      · rfl

end

/-! ## Cutting -/

theorem eq_append_of_afterStart? {mark rest : Text} (h : afterStart? mark t = some rest) :
    t = mark ++ rest := by
  induction mark generalizing t with
  | nil => exact Option.some_inj.mp h
  | cons m mark ih =>
      cases t with
      | nil => cases h
      | cons c t =>
          obtain ⟨rfl, hrest⟩ : m = c ∧ afterStart? mark t = some rest :=
            Option.ite_none_right_eq_some.mp h
          exact congrArg (m :: ·) (ih hrest)

theorem afterStart?_append (mark t : Text) : afterStart? mark (mark ++ t) = some t := by
  induction mark with
  | nil => rfl
  | cons m mark ih => rwa [List.cons_append, afterStart?, if_pos rfl]

theorem isSome_afterStart?_iff {mark : Text} : (afterStart? mark t).isSome ↔ mark <+: t := by
  rw [Option.isSome_iff_exists]
  constructor
  · rintro ⟨rest, hrest⟩
    exact ⟨rest, (eq_append_of_afterStart? hrest).symm⟩
  · rintro ⟨rest, rfl⟩
    exact ⟨rest, afterStart?_append mark rest⟩

theorem eq_append_of_cutAt? {mark before after : Text} (h : cutAt? mark t = some (before, after)) :
    t = before ++ (mark ++ after) := by
  induction t generalizing before with
  | nil =>
      obtain ⟨rfl, h⟩ := Option.ite_none_right_eq_some.mp h
      cases h
      rfl
  | cons c t ih =>
      rw [cutAt?] at h
      split at h
      · next rest hrest =>
          cases h
          exact (eq_append_of_afterStart? hrest :)
      · obtain ⟨⟨before', after'⟩, hcut, heq⟩ := Option.map_eq_some_iff.mp h
        cases heq
        exact congrArg (c :: ·) (ih hcut)

theorem not_isInfix_of_cutAt? {mark : Text} (h : cutAt? mark t = none) : ¬ mark <:+: t := by
  induction t with
  | nil =>
      intro hinfix
      rw [cutAt?, if_pos (List.eq_nil_of_infix_nil hinfix)] at h
      cases h
  | cons c t ih =>
      rw [cutAt?] at h
      split at h
      · cases h
      · next hnone =>
          rw [List.infix_cons_iff, not_or, ← isSome_afterStart?_iff, hnone]
          exact ⟨Bool.false_ne_true, ih (Option.map_eq_none_iff.mp h)⟩

/-- A text is cut at the first of several occurrences of a mark. -/
theorem length_le_of_cutAt? {mark before after start rest : Text}
    (h : cutAt? mark t = some (before, after)) (ht : t = start ++ (mark ++ rest)) :
    before.length ≤ start.length := by
  induction t generalizing before start with
  | nil =>
      obtain ⟨-, h⟩ := Option.ite_none_right_eq_some.mp h
      cases h
      exact Nat.zero_le _
  | cons c t ih =>
      rw [cutAt?] at h
      split at h
      · cases h
        exact Nat.zero_le _
      · next hnone =>
          obtain ⟨⟨before', after'⟩, hcut, heq⟩ := Option.map_eq_some_iff.mp h
          cases heq
          cases start with
          | nil =>
              rw [ht, List.nil_append, afterStart?_append] at hnone
              cases hnone
          | cons d start =>
              exact Nat.succ_le_succ (ih hcut (List.cons_eq_cons.mp ht).2)

theorem flatten_linesWithEnds (t : Text) : (linesWithEnds t).flatten = t := by
  induction t with
  | nil => rfl
  | cons c t ih =>
      rw [linesWithEnds]
      split_ifs with hc
      · exact congrArg (c :: ·) ih
      · split
        · next hnil =>
            rw [hnil] at ih
            exact congrArg (c :: ·) ih
        · next line lines hlines =>
            rw [hlines] at ih
            exact congrArg (c :: ·) ih

end Commentary.Text
