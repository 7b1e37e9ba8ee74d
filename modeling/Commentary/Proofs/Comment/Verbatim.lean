import Commentary.Comment.Cleaner
import Mathlib.Data.List.TakeWhile
import Mathlib.Tactic.SplitIfs

/-!
# Verbatim sections of a comment

Whether a line lies in a verbatim section is decided by the lines before it. Cleaning follows the
lines that it has cleaned, and compaction those that it keeps. Both come to a line with the same
opinion of it, and inside of a section no rule is blanked.
-/

namespace Commentary

namespace Text

theorem exists_append_of_afterWord? {word t rest : Text} (h : afterWord? word t = some rest) :
    ∃ w, t = w ++ rest ∧ w.length = word.length ∧ ∀ c ∈ w, ∃ m ∈ word, isLetter m c := by
  induction word generalizing t with
  | nil =>
      cases h
      exact ⟨[], rfl, rfl, nofun⟩
  | cons m word ih =>
      cases t with
      | nil => exact absurd h (by simp [afterWord?])
      | cons c t =>
          obtain ⟨hc, h⟩ := Option.ite_none_right_eq_some.mp h
          obtain ⟨w, rfl, hlength, hw⟩ := ih h
          refine ⟨c :: w, rfl, congrArg Nat.succ hlength, List.forall_mem_cons.mpr ⟨?_, ?_⟩⟩
          · exact ⟨m, List.mem_cons_self, hc⟩
          · exact fun d hd => (hw d hd).imp fun _ => And.imp_left (List.mem_cons_of_mem m)

theorem isAlpha_of_isAlpha_toLower {c : Char} (h : c.toLower.isAlpha) : c.isAlpha := by
  by_cases hupper : c.isUpper
  · exact (Bool.or_eq_true _ _).mpr (.inl hupper)
  · have hlower : c.toLower = c := dif_neg fun hrange => hupper (decide_eq_true hrange)
    rwa [hlower] at h

theorem toNat_of_isAlpha {c : Char} (h : c.isAlpha) : 65 ≤ c.toNat ∧ c.toNat ≤ 122 := by
  have hrange : 65 ≤ c.toNat ∧ c.toNat ≤ 90 ∨ 97 ≤ c.toNat ∧ c.toNat ≤ 122 := by
    rcases (Bool.or_eq_true _ _).mp h with hupper | hlower
    · exact .inl (of_decide_eq_true hupper)
    · exact .inr (((Bool.and_eq_true _ _).mp hlower).imp of_decide_eq_true of_decide_eq_true)
  omega

theorem isAlphanumeric_of_isBasicLetter {c : Char} (h : isBasicLetter c) : isAlphanumeric c := by
  simp only [isBasicLetter, Bool.or_eq_true, beq_iff_eq] at h
  rcases h with (h | rfl) | rfl
  · have hlt : c.toNat < 0x80 := Nat.lt_of_le_of_lt (toNat_of_isAlpha h).2 (by decide)
    rw [isAlphanumeric, if_pos hlt, Char.isAlphanum, h, Bool.true_or]
  · decide
  · decide +kernel

theorem not_isBlank_of_isBasicLetter {c : Char} (h : isBasicLetter c) : ¬ isBlank c := by
  simp only [isBasicLetter, Bool.or_eq_true, beq_iff_eq] at h
  rcases h with (h | rfl) | rfl
  · have hnat := toNat_of_isAlpha h
    simp only [isBlank, Bool.or_eq_true, Bool.and_eq_true, beq_iff_eq, decide_eq_true_eq]
    omega
  · decide
  · decide

theorem isBasicLetter_of_isLetter {m c : Char} (hm : m.isAlpha) (h : isLetter m c) :
    isBasicLetter c := by
  simp only [isLetter, Bool.or_eq_true, Bool.and_eq_true, beq_iff_eq] at h
  simp only [isBasicLetter, Bool.or_eq_true, beq_iff_eq]
  rcases h with (rfl | ⟨-, h⟩) | ⟨-, h⟩
  · exact .inl (.inl (isAlpha_of_isAlpha_toLower hm))
  · exact .inl (.inr h)
  · exact .inr h

theorem mem_trimEnd_of_mem {p : Char → Bool} {t : Text} {c : Char} (h : c ∈ t) (hc : ¬ p c) :
    c ∈ trimEnd p t := by
  induction t with
  | nil => cases h
  | cons d t ih =>
      rw [trimEnd]
      split
      · next hnil =>
          rcases List.mem_cons.mp h with rfl | h
          · rw [if_neg hc]
            exact List.mem_singleton_self c
          · rw [hnil] at ih
            exact absurd (ih h) List.not_mem_nil
      · exact List.mem_cons.mpr ((List.mem_cons.mp h).imp_right ih)

end Text

namespace Verbatim

/-! ## Lines that open and close sections -/

theorem exists_append_of_afterAny? {words : List Text} {t rest : Text}
    (h : afterAny? words t = some rest) :
    ∃ word ∈ words, ∃ w, t = w ++ rest ∧ w.length = word.length ∧
      ∀ c ∈ w, ∃ m ∈ word, Text.isLetter m c := by
  obtain ⟨word, hword, h⟩ := List.exists_of_findSome?_eq_some h
  exact ⟨word, hword, Text.exists_append_of_afterWord? h⟩

theorem inside?_eq_some {line t : Text} (h : inside? line = some t) :
    ∃ s, Text.trimStart Text.isSpace line = '(' :: s ∧ t = Text.trimStart Text.isSpace s := by
  rw [inside?] at h
  split at h
  · next s hs =>
      cases h
      exact ⟨s, hs, rfl⟩
  · cases h

/-- A text without a dash that a parenthesis closes. -/
def Closed (t : Text) : Prop := '-' ∉ t ∧ t.getLast? = some ')'

theorem Closed.append {w t : Text} (hw : '-' ∉ w) (h : Closed t) : Closed (w ++ t) :=
  ⟨fun hmem => (List.mem_append.mp hmem).elim hw h.1, by rw [List.getLast?_append, h.2]; rfl⟩

theorem closed_of_trimStart {t : Text} (h : Closed (Text.trimStart Text.isSpace t)) :
    Closed t := by
  rw [← List.takeWhile_append_dropWhile (p := Text.isSpace) (l := t)]
  refine h.append fun hmem => ?_
  have hspace := List.mem_takeWhile_imp hmem
  exact absurd hspace (by decide)

theorem closed_of_closes {t : Text} (h : closes t) : Closed t := by
  refine closed_of_trimStart ?_
  rw [of_decide_eq_true h]
  exact ⟨by decide, rfl⟩

/-- All words that name, open or close a section. -/
def vocabulary : List Text := contents ++ startWords ++ endWords

theorem isAlpha_of_mem_vocabulary :
    ∀ word ∈ vocabulary, word ≠ [] ∧ word.all Char.isAlpha := by
  decide

theorem closed_of_afterAny? {words : List Text} (hwords : words ⊆ vocabulary) {t rest : Text}
    (h : afterAny? words t = some rest) (hrest : Closed rest) : Closed t := by
  obtain ⟨word, hword, w, rfl, -, hletters⟩ := exists_append_of_afterAny? h
  refine hrest.append fun hmem => ?_
  obtain ⟨m, hm, hletter⟩ := hletters '-' hmem
  have halpha := List.all_eq_true.mp (isAlpha_of_mem_vocabulary word (hwords hword)).2 m hm
  exact absurd (Text.isBasicLetter_of_isLetter halpha hletter) (by decide)

theorem closed_of_closesAfterContents {t : Text} (h : closesAfterContents t) : Closed t := by
  rw [closesAfterContents] at h
  cases hrest : afterAny? contents t with
  | none => simp [hrest] at h
  | some rest =>
      rw [hrest] at h
      exact closed_of_afterAny? (by simp [vocabulary]) hrest (closed_of_closes h)

/-- A line that opens a section is a parenthesis without a dash. -/
theorem closed_of_isStart {line : Text} (h : isStart line) :
    ∃ t, Text.trimStart Text.isSpace line = '(' :: t ∧ Closed t := by
  rw [isStart] at h
  cases hinside : inside? line with
  | none => simp [hinside] at h
  | some t =>
      obtain ⟨s, hs, rfl⟩ := inside?_eq_some hinside
      refine ⟨s, hs, closed_of_trimStart ?_⟩
      rw [hinside] at h
      dsimp only at h
      split at h
      · next rest hrest =>
          refine closed_of_afterAny? (by simp [vocabulary]) hrest ?_
          have hrest := closed_of_trimStart (closed_of_closesAfterContents h)
          exact hrest.append (w := [' ']) (by decide)
      · exact closed_of_closesAfterContents h

/-- A line that closes a section holds a letter. -/
theorem exists_isBasicLetter_of_isEnd {line : Text} (h : isEnd line) :
    ∃ c ∈ Text.trimStart Text.isSpace line, Text.isBasicLetter c := by
  rw [isEnd] at h
  cases hrest : (inside? line).bind (afterAny? endWords) with
  | none => simp [hrest] at h
  | some rest =>
      obtain ⟨t, hinside, hword⟩ := Option.bind_eq_some_iff.mp hrest
      obtain ⟨s, hs, rfl⟩ := inside?_eq_some hinside
      obtain ⟨word, hmem, w, hw, hlength, hletters⟩ := exists_append_of_afterAny? hword
      obtain ⟨hne, halpha⟩ := isAlpha_of_mem_vocabulary word (by simp [vocabulary, hmem])
      cases w with
      | nil => exact absurd (List.eq_nil_of_length_eq_zero hlength.symm) hne
      | cons c w =>
          obtain ⟨m, hm, hletter⟩ := hletters c List.mem_cons_self
          refine ⟨c, ?_, ?_⟩
          · have hc : c ∈ Text.trimStart Text.isSpace s := by simp [hw]
            rw [hs]
            exact List.mem_cons_of_mem _ ((List.dropWhile_suffix _).subset hc)
          · exact Text.isBasicLetter_of_isLetter (List.all_eq_true.mp halpha m hm) hletter

theorem isEnd_eq_false_of_isIndentedRule {line : Text} (h : Rule.isIndentedRule line) :
    isEnd line = false := by
  rw [← Bool.not_eq_true]
  intro hend
  obtain ⟨c, hc, hletter⟩ := exists_isBasicLetter_of_isEnd hend
  simp only [Rule.isIndentedRule, Rule.isRule, Bool.and_eq_true] at h
  have hsymbol := List.all_eq_true.mp h.1.2 c
    (Text.mem_trimEnd_of_mem hc (Text.not_isBlank_of_isBasicLetter hletter))
  simp [isSymbol, Text.isAlphanumeric_of_isBasicLetter hletter] at hsymbol

/-! ## The lines before a line -/

/-- Whether the line behind some lines lies in a section. -/
def after (inSection : Bool) (lines : List Text) : Bool := lines.foldl step inSection

/-- Whether a line of a comment lies in a section that a line before it has opened. The line that
closes the section does, and the one that opens it does not. -/
def inside (lines : List Text) (n : Nat) : Bool := after false (lines.take n)

theorem after_cons (inSection : Bool) (line : Text) (lines : List Text) :
    after inSection (line :: lines) = after (step inSection line) lines := rfl

theorem after_append (inSection : Bool) (before behind : List Text) :
    after inSection (before ++ behind) = after (after inSection before) behind :=
  List.foldl_append

theorem inside_succ {lines : List Text} {n : Nat} {line : Text} (h : lines[n]? = some line) :
    inside lines (n + 1) = step (inside lines n) line := by
  rw [inside, List.take_add_one, h, after_append]
  rfl

end Verbatim

namespace Cleaner

open Verbatim

/-! ## Cleaning -/

theorem cleanFrom_append (frame : Frame) (inSection : Bool) (before behind : List Text) :
    cleanFrom frame inSection (before ++ behind) =
      cleanFrom frame inSection before ++
        cleanFrom frame (after inSection (cleanFrom frame inSection before)) behind := by
  induction before generalizing inSection with
  | nil => rfl
  | cons line before ih =>
      simp only [List.cons_append, cleanFrom, ih]
      rfl

theorem take_cleanFrom (frame : Frame) (inSection : Bool) (lines : List Text) (n : Nat) :
    (cleanFrom frame inSection lines).take n = cleanFrom frame inSection (lines.take n) := by
  induction lines generalizing inSection n with
  | nil => rw [List.take_nil, cleanFrom, List.take_nil]
  | cons line lines ih =>
      cases n with
      | zero => rfl
      | succ n => simp only [cleanFrom, List.take_succ_cons, ih]

/-- Cleaning comes to a line with the opinion that the cleaned lines before it lead to. -/
theorem cleanFrom_eq_take_append (frame : Frame) (lines : List Text) (n : Nat) :
    let cleaned := cleanFrom frame false lines
    cleaned = cleaned.take n ++ cleanFrom frame (inside cleaned n) (lines.drop n) := by
  dsimp only
  rw [inside, take_cleanFrom, ← cleanFrom_append, List.take_append_drop]

theorem getElem?_cleanFrom {frame : Frame} {inSection : Bool} {lines : List Text} {n : Nat}
    {line : Text} (h : lines[n]? = some line) :
    (cleanFrom frame inSection lines)[n]? =
      some (cleanLine frame (after inSection ((cleanFrom frame inSection lines).take n)) line) := by
  induction lines generalizing inSection n with
  | nil => cases h
  | cons first lines ih =>
      cases n with
      | zero =>
          cases h
          rfl
      | succ n => exact ih h

theorem length_cleanFrom (frame : Frame) (inSection : Bool) (lines : List Text) :
    (cleanFrom frame inSection lines).length = lines.length := by
  induction lines generalizing inSection with
  | nil => rfl
  | cons line lines ih => exact congrArg Nat.succ (ih _)

theorem length_clean (cleaner : Cleaner) (lines : List Text) :
    (cleaner.clean lines).length = lines.length :=
  (length_cleanFrom _ _ _).trans (List.length_map _)

/-- The frame that a cleaner takes off some lines. -/
def frame (cleaner : Cleaner) (lines : List Text) : Frame :=
  .ofLines cleaner.openerEdge (lines.map cleaner.prepare)

theorem getElem?_clean (cleaner : Cleaner) (lines : List Text) (n : Nat) :
    (cleaner.clean lines)[n]? = (lines.map cleaner.prepare)[n]?.map
      (cleanLine (cleaner.frame lines) (inside (cleaner.clean lines) n)) := by
  cases hline : (lines.map cleaner.prepare)[n]? with
  | none =>
      rw [List.getElem?_eq_none_iff, List.length_map] at hline
      exact List.getElem?_eq_none ((cleaner.length_clean lines).trans_le hline)
  | some line => exact getElem?_cleanFrom hline

/-- Inside of a section nothing is blanked. -/
theorem getElem?_clean_inside (cleaner : Cleaner) {lines : List Text} {n : Nat} {line : Text}
    (h : (lines.map cleaner.prepare)[n]? = some line) (hinside : inside (cleaner.clean lines) n) :
    (cleaner.clean lines)[n]? =
      some (if Rule.isIndentedRule line then line else (cleaner.frame lines).strip line) := by
  rw [getElem?_clean, h, hinside, Option.map_some, cleanLine]
  simp

/-! ## Compaction -/

/-- Whether the last of some lines is blank. Where there is none, `start` decides. -/
def endsBlank (start : Bool) (lines : List (Nat × Text)) : Bool :=
  (lines.getLast?.map fun line => decide (line.2 = [])).getD start

theorem endsBlank_cons (start : Bool) (line : Nat × Text) (lines : List (Nat × Text)) :
    endsBlank start (line :: lines) = endsBlank (line.2 = []) lines := by
  rw [endsBlank, endsBlank, List.getLast?_cons]
  cases lines.getLast? <;> rfl

theorem step_of_dropped {inSection afterBlank : Bool} {t : Text}
    (h : t = [] ∧ !inSection ∧ afterBlank) : step inSection t = inSection := by
  obtain ⟨rfl, hsection, -⟩ := h
  rw [Bool.not_eq_true'] at hsection
  rw [hsection]
  rfl

theorem compactFrom_append (inSection afterBlank : Bool) (before behind : List (Nat × Text)) :
    compactFrom inSection afterBlank (before ++ behind) =
      compactFrom inSection afterBlank before ++
        compactFrom (after inSection (before.map Prod.snd))
          (endsBlank afterBlank (compactFrom inSection afterBlank before)) behind := by
  induction before generalizing inSection afterBlank with
  | nil => rfl
  | cons line before ih =>
      obtain ⟨index, t⟩ := line
      rw [List.cons_append, compactFrom, compactFrom]
      split_ifs with hdrop
      · rw [ih, List.map_cons, after_cons, step_of_dropped hdrop]
      · rw [ih, List.cons_append, endsBlank_cons]
        rfl

/-- What is kept of some lines leads to the same opinion as all of them. -/
theorem after_compactFrom (inSection afterBlank : Bool) (lines : List (Nat × Text)) :
    after inSection ((compactFrom inSection afterBlank lines).map Prod.snd) =
      after inSection (lines.map Prod.snd) := by
  induction lines generalizing inSection afterBlank with
  | nil => rfl
  | cons line lines ih =>
      obtain ⟨index, t⟩ := line
      rw [compactFrom]
      split_ifs with hdrop
      · rw [ih, List.map_cons, after_cons, step_of_dropped hdrop]
      · exact ih _ _

/-- A line that is kept stands behind what is kept of the lines before it. -/
theorem exists_of_compactFrom_eq_append {inSection afterBlank : Bool}
    {lines before behind : List (Nat × Text)} {line : Nat × Text}
    (h : compactFrom inSection afterBlank lines = before ++ line :: behind) :
    ∃ front rest, lines = front ++ line :: rest ∧
      compactFrom inSection afterBlank front = before := by
  induction lines generalizing inSection afterBlank before with
  | nil => simp [compactFrom] at h
  | cons first lines ih =>
      obtain ⟨index, t⟩ := first
      rw [compactFrom] at h
      split_ifs at h with hdrop
      · obtain ⟨front, rest, rfl, hfront⟩ := ih h
        exact ⟨(index, t) :: front, rest, rfl, by rw [compactFrom, if_pos hdrop, hfront]⟩
      · rcases List.cons_eq_append_iff.mp h with ⟨rfl, heq⟩ | ⟨kept, rfl, hkept⟩
        · cases heq
          exact ⟨[], lines, rfl, rfl⟩
        · obtain ⟨front, rest, rfl, hfront⟩ := ih hkept
          exact ⟨(index, t) :: front, rest, rfl, by rw [compactFrom, if_neg hdrop, hfront]⟩

theorem dropBlankEnd_isPrefix (lines : List (Nat × Text)) : dropBlankEnd lines <+: lines := by
  induction lines with
  | nil => exact List.prefix_rfl
  | cons line lines ih =>
      obtain ⟨index, t⟩ := line
      rw [dropBlankEnd]
      split
      · split_ifs
        · exact List.nil_prefix
        · exact List.prefix_cons_inj (index, t) |>.mpr List.nil_prefix
      · exact List.prefix_cons_inj (index, t) |>.mpr ih

/-- The lines of a comment, each with its place. -/
def numbered (lines : List Text) : List (Nat × Text) := lines.zipIdx.map fun (t, i) => (i, t)

theorem map_snd_numbered (lines : List Text) : (numbered lines).map Prod.snd = lines := by
  rw [numbered, List.map_map]
  exact List.zipIdx_map_fst 0 lines

theorem getElem?_numbered (lines : List Text) (n : Nat) :
    (numbered lines)[n]? = lines[n]?.map fun t => (n, t) := by
  rw [numbered, List.getElem?_map, List.getElem?_zipIdx]
  cases lines[n]? <;> simp

theorem cleanCompact_isPrefix (cleaner : Cleaner) (lines : List Text) :
    cleaner.cleanCompact lines <+: compactFrom false true (numbered (cleaner.clean lines)) :=
  dropBlankEnd_isPrefix _

/-- Compaction is of the same opinion about a line that it keeps. -/
theorem inside_cleanCompact (cleaner : Cleaner) {lines : List Text} {m i : Nat} {t : Text}
    (h : (cleaner.cleanCompact lines)[m]? = some (i, t)) :
    (cleaner.clean lines)[i]? = some t ∧
      inside ((cleaner.cleanCompact lines).map Prod.snd) m = inside (cleaner.clean lines) i := by
  obtain ⟨more, hmore⟩ := cleaner.cleanCompact_isPrefix lines
  generalize cleaner.clean lines = cleaned at *
  generalize cleaner.cleanCompact lines = kept at *
  obtain ⟨hm, hm'⟩ := List.getElem?_eq_some_iff.mp h
  rw [← List.take_append_drop m kept, List.drop_eq_getElem_cons hm, hm', List.append_assoc,
    List.cons_append] at hmore
  obtain ⟨front, rest, hfront, hbefore⟩ := exists_of_compactFrom_eq_append hmore.symm
  have hline : (numbered cleaned)[front.length]? = some (i, t) := by rw [hfront]; simp
  rw [getElem?_numbered] at hline
  obtain ⟨_, hget, heq⟩ := Option.map_eq_some_iff.mp hline
  cases heq
  refine ⟨hget, ?_⟩
  have htake : cleaned.take front.length = front.map Prod.snd := by
    rw [← map_snd_numbered cleaned, hfront, List.map_append]
    exact List.take_left' (List.length_map _)
  rw [inside, ← List.map_take, ← hbefore, after_compactFrom, inside, htake]

end Cleaner

end Commentary
