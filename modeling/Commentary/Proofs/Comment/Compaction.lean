import Commentary.Proofs.Comment.Verbatim
import Mathlib.Data.List.Sort

/-!
# What compaction keeps

Compaction goes through the cleaned lines of a comment with two flags in hand and cuts off what is
blank at the end. It comes to a simple rule. Every line of text is kept with its place, and so is
every line of a verbatim section. Of the other blank lines those are kept that stand right behind a
line of text.
-/

namespace Commentary.Cleaner

open Verbatim

variable {lines : List Text} {i j : Nat} {t : Text}

/-! ## Places -/

theorem mem_numbered {l : Nat × Text} : l ∈ numbered lines ↔ lines[l.1]? = some l.2 := by
  simp only [numbered, List.mem_map, Prod.exists, List.mk_mem_zipIdx_iff_getElem?]
  constructor
  · rintro ⟨t, i, h, rfl⟩
    exact h
  · exact fun h => ⟨l.2, l.1, h, rfl⟩

theorem pairwise_numbered (lines : List Text) :
    (numbered lines).Pairwise fun a b => a.1 < b.1 := by
  have hplaces : (numbered lines).map Prod.fst = List.range lines.length := by
    simp [numbered, Function.comp_def, List.range_eq_range']
  rw [← List.pairwise_map (f := Prod.fst) (R := (· < ·)), hplaces]
  exact List.pairwise_lt_range

theorem lt_of_getElem? {kept : List (Nat × Text)} (hpair : kept.Pairwise fun a b => a.1 < b.1)
    {m n : Nat} {a b : Nat × Text} (ha : kept[m]? = some a) (hb : kept[n]? = some b)
    (hmn : m < n) : a.1 < b.1 := by
  obtain ⟨hm, rfl⟩ := List.getElem?_eq_some_iff.mp ha
  obtain ⟨hn, rfl⟩ := List.getElem?_eq_some_iff.mp hb
  exact List.pairwise_iff_getElem.mp hpair m n hm hn hmn

/-- No line stands between two neighbours. -/
theorem le_or_le_of_mem {kept : List (Nat × Text)} (hpair : kept.Pairwise fun a b => a.1 < b.1)
    {n : Nat} {a b l : Nat × Text} (ha : kept[n]? = some a) (hb : kept[n + 1]? = some b)
    (hl : l ∈ kept) : l.1 ≤ a.1 ∨ b.1 ≤ l.1 := by
  obtain ⟨k, hk⟩ := List.mem_iff_getElem?.mp hl
  rcases Nat.lt_trichotomy k n with hlt | rfl | hlt
  · exact .inl (Nat.le_of_lt (lt_of_getElem? hpair hk ha hlt))
  · rw [hk] at ha
    cases ha
    exact .inl (Nat.le_refl _)
  · right
    by_cases hnext : k = n + 1
    · rw [hnext, hb] at hk
      cases hk
      exact Nat.le_refl _
    · exact Nat.le_of_lt (lt_of_getElem? hpair hb hk (by omega))

theorem numbered_eq_append (h : lines[i]? = some t) :
    numbered lines = (numbered lines).take i ++ (i, t) :: (numbered lines).drop (i + 1) := by
  have hline : (numbered lines)[i]? = some (i, t) := by simp [getElem?_numbered, h]
  obtain ⟨hi, hget⟩ := List.getElem?_eq_some_iff.mp hline
  rw [← hget, ← List.drop_eq_getElem_cons hi, List.take_append_drop]

theorem compactFrom_sublist (inSection afterBlank : Bool) (lines : List (Nat × Text)) :
    (compactFrom inSection afterBlank lines).Sublist lines := by
  induction lines generalizing inSection afterBlank with
  | nil => exact List.Sublist.refl []
  | cons line lines ih =>
      obtain ⟨index, t⟩ := line
      rw [compactFrom]
      split_ifs
      · exact (ih _ _).cons _
      · exact (ih _ _).cons_cons _

/-! ## Blank lines -/

theorem inside_of_blanks (hij : i ≤ j) (h : ∀ k, i ≤ k → k < j → lines[k]? = some []) :
    inside lines j = inside lines i := by
  induction j, hij using Nat.le_induction with
  | base => rfl
  | succ j hij ih =>
      rw [inside_succ (h j hij (by omega)), ih fun k hik hkj => h k hik (by omega)]
      -- A blank line neither opens a section nor closes one.
      cases inside lines i <;> rfl

/-- The line before is there, and it is not blank. -/
def BehindText (lines : List Text) (i : Nat) : Prop :=
  ∃ k t, i = k + 1 ∧ lines[k]? = some t ∧ t ≠ []

/-- A blank line is dropped behind another blank line only, so the lines that are kept end like all
of them. -/
theorem endsBlank_compactFrom (inSection afterBlank : Bool) (lines : List (Nat × Text)) :
    endsBlank afterBlank (compactFrom inSection afterBlank lines) = endsBlank afterBlank lines := by
  induction lines generalizing inSection afterBlank with
  | nil => rfl
  | cons line lines ih =>
      obtain ⟨index, t⟩ := line
      rw [compactFrom, endsBlank_cons]
      split_ifs with hdrop
      · have hflag : afterBlank = decide (t = []) := by simp [hdrop.1, hdrop.2.2]
        rw [ih, hflag]
      · rw [endsBlank_cons, ih]

theorem endsBlank_take_numbered (h : lines[i]? = some t) :
    endsBlank true ((numbered lines).take i) = false ↔ BehindText lines i := by
  cases i with
  | zero => simp [endsBlank, BehindText]
  | succ k =>
      have hk : k < lines.length := by
        have hlt := (List.getElem?_eq_some_iff.mp h).1
        omega
      have hget : lines[k]? = some lines[k] := List.getElem?_eq_getElem hk
      rw [List.take_add_one, getElem?_numbered, hget]
      simp [endsBlank, BehindText, hget]

/-! ## Lines that are kept -/

/-- The first pass of compaction keeps lines of text, lines of verbatim sections, and blank lines
right behind lines of text. -/
theorem mem_compactFrom_numbered :
    (i, t) ∈ compactFrom false true (numbered lines) ↔
      lines[i]? = some t ∧ (t ≠ [] ∨ inside lines i ∨ BehindText lines i) := by
  by_cases hline : lines[i]? = some t
  · have hsplit := numbered_eq_append hline
    have hpair := pairwise_numbered lines
    rw [hsplit, List.pairwise_append, List.pairwise_cons] at hpair
    obtain ⟨-, ⟨hbehind, -⟩, hbefore⟩ := hpair
    -- The line has its place for itself, so only its own flags decide about it.
    have hnotBefore (b : Bool) : (i, t) ∉ compactFrom false b ((numbered lines).take i) :=
      fun hmem => Nat.lt_irrefl i
        (hbefore _ ((compactFrom_sublist _ _ _).subset hmem) (i, t) List.mem_cons_self)
    have hnotBehind (a b : Bool) : (i, t) ∉ compactFrom a b ((numbered lines).drop (i + 1)) :=
      fun hmem => Nat.lt_irrefl i (hbehind _ ((compactFrom_sublist _ _ _).subset hmem))
    have hsection : after false (((numbered lines).take i).map Prod.snd) = inside lines i := by
      rw [List.map_take, map_snd_numbered, inside]
    have hflag := endsBlank_take_numbered hline
    rw [hsplit, compactFrom_append, hsection, endsBlank_compactFrom, compactFrom,
      List.mem_append, or_iff_right (hnotBefore true)]
    split_ifs with hdrop
    · obtain ⟨ht, hinside, hblank⟩ := hdrop
      refine iff_of_false (hnotBehind _ _) ?_
      rw [Bool.not_eq_true'] at hinside
      simp [ht, hinside, ← hflag, hblank]
    · refine iff_of_true List.mem_cons_self ⟨hline, ?_⟩
      rw [← hflag]
      by_contra hnone
      simp only [not_or, not_not, Bool.not_eq_true, Bool.not_eq_false] at hnone
      exact hdrop ⟨hnone.1, by simp [hnone.2.1], hnone.2.2⟩
  · refine iff_of_false (fun hmem => hline ?_) fun h => hline h.1
    exact mem_numbered.mp ((compactFrom_sublist _ _ _).subset hmem)

/-- What stands behind the last line that is not blank. -/
theorem exists_append_dropBlankEnd (lines : List (Nat × Text)) :
    ∃ numbers : List Nat, dropBlankEnd lines ++ numbers.map (·, []) = lines := by
  induction lines with
  | nil => exact ⟨[], rfl⟩
  | cons line lines ih =>
      obtain ⟨index, t⟩ := line
      obtain ⟨numbers, ih⟩ := ih
      rw [dropBlankEnd]
      cases hkept : dropBlankEnd lines with
      | nil =>
          rw [hkept] at ih
          subst ih
          by_cases ht : t = []
          · exact ⟨index :: numbers, by rw [if_pos ht, ht]; rfl⟩
          · exact ⟨numbers, by rw [if_neg ht]; rfl⟩
      | cons first kept =>
          rw [hkept] at ih
          exact ⟨numbers, congrArg ((index, t) :: ·) ih⟩

theorem ne_nil_of_getLast?_dropBlankEnd {lines : List (Nat × Text)} {l : Nat × Text}
    (h : (dropBlankEnd lines).getLast? = some l) : l.2 ≠ [] := by
  induction lines with
  | nil => simp [dropBlankEnd] at h
  | cons line lines ih =>
      obtain ⟨index, t⟩ := line
      rw [dropBlankEnd] at h
      cases hkept : dropBlankEnd lines with
      | nil =>
          rw [hkept] at h
          by_cases ht : t = []
          · simp [ht] at h
          · simp only [if_neg ht, List.getLast?_singleton, Option.some.injEq] at h
            rwa [← h]
      | cons first kept =>
          rw [hkept] at h ih
          exact ih (by simpa [List.getLast?_cons_cons] using h)

theorem ne_nil_of_head?_compactFrom {lines : List (Nat × Text)} {l : Nat × Text}
    (h : (compactFrom false true lines).head? = some l) : l.2 ≠ [] := by
  induction lines with
  | nil => simp [compactFrom] at h
  | cons line lines ih =>
      obtain ⟨index, t⟩ := line
      rw [compactFrom] at h
      split_ifs at h with hdrop
      · exact ih h
      · simp only [List.head?_cons, Option.some.injEq] at h
        simpa [← h] using hdrop

/-- A line is cut off at the end only if no text follows. -/
theorem mem_dropBlankEnd {lines : List (Nat × Text)} (hpair : lines.Pairwise fun a b => a.1 < b.1)
    {l m : Nat × Text} (hl : l ∈ lines) (hm : m ∈ lines) (htext : m.2 ≠ []) (hlm : l.1 ≤ m.1) :
    l ∈ dropBlankEnd lines := by
  obtain ⟨numbers, hcut⟩ := exists_append_dropBlankEnd lines
  have hblank : ∀ x ∈ numbers.map fun n => (n, ([] : Text)), x.2 = [] := by simp
  rw [← hcut, List.mem_append] at hl hm
  have hkept := hm.resolve_right fun h => htext (hblank m h)
  refine hl.resolve_right fun h => ?_
  rw [← hcut, List.pairwise_append] at hpair
  have hbehind := hpair.2.2 m hkept l h
  omega

/-! ## Compaction as a whole -/

/-- What compaction keeps of the cleaned lines of a comment. -/
structure Compaction (cleaned : List Text) (kept : List (Nat × Text)) : Prop where
  /-- Places only grow, and each line stands at its place among the cleaned ones. -/
  ordered : (kept.map Prod.fst).Pairwise (· < ·)
  placed : ∀ l ∈ kept, cleaned[l.1]? = some l.2
  dropped : ∀ i t, cleaned[i]? = some t → i ∉ kept.map Prod.fst → t = []
  first : ∀ l, kept.head? = some l → l.2 ≠ []
  last : ∀ l, kept.getLast? = some l → l.2 ≠ []
  /-- Two blank lines in a row are lines of a section. -/
  neighbours : ∀ m a b, kept[m]? = some a → kept[m + 1]? = some b → a.2 = [] → b.2 = [] →
    inside cleaned a.1 ∧ inside cleaned b.1
  /-- Between two lines of text, outside of sections, the first blank line is kept and no other. -/
  between : ∀ i j s t, i < j → cleaned[i]? = some s → s ≠ [] → cleaned[j]? = some t → t ≠ [] →
    (∀ k, i < k → k < j → cleaned[k]? = some []) → ¬ inside cleaned (i + 1) →
      kept.filter (fun l => i < l.1 ∧ l.1 < j) = if i + 1 < j then [(i + 1, [])] else []

section

variable (cleaner : Cleaner) {source : List Text} {l m : Nat × Text}

theorem pairwise_compactFrom_numbered (lines : List Text) :
    (compactFrom false true (numbered lines)).Pairwise fun a b => a.1 < b.1 :=
  (pairwise_numbered lines).sublist (compactFrom_sublist _ _ _)

theorem pairwise_cleanCompact (source : List Text) :
    (cleaner.cleanCompact source).Pairwise fun a b => a.1 < b.1 :=
  (pairwise_compactFrom_numbered _).sublist (cleaner.cleanCompact_isPrefix source).sublist

/-- Up to the last line of text compaction keeps what its first pass keeps. -/
theorem mem_cleanCompact (hm : (cleaner.clean source)[m.1]? = some m.2) (htext : m.2 ≠ [])
    (hlm : l.1 ≤ m.1) :
    l ∈ cleaner.cleanCompact source ↔
      (cleaner.clean source)[l.1]? = some l.2 ∧
        (l.2 ≠ [] ∨ inside (cleaner.clean source) l.1 ∨ BehindText (cleaner.clean source) l.1) := by
  rw [← mem_compactFrom_numbered]
  constructor
  · exact fun hl => (cleaner.cleanCompact_isPrefix source).subset hl
  · intro hl
    have hkept := mem_compactFrom_numbered.mpr ⟨hm, .inl htext⟩
    exact mem_dropBlankEnd (pairwise_compactFrom_numbered _) hl hkept htext hlm

theorem mem_cleanCompact_of_text (hl : (cleaner.clean source)[l.1]? = some l.2)
    (htext : l.2 ≠ []) : l ∈ cleaner.cleanCompact source :=
  (cleaner.mem_cleanCompact hl htext (Nat.le_refl l.1)).mpr ⟨hl, .inl htext⟩

theorem of_mem_cleanCompact (hl : l ∈ cleaner.cleanCompact source) :
    (cleaner.clean source)[l.1]? = some l.2 ∧
      (l.2 ≠ [] ∨ inside (cleaner.clean source) l.1 ∨ BehindText (cleaner.clean source) l.1) :=
  mem_compactFrom_numbered.mp ((cleaner.cleanCompact_isPrefix source).subset hl)

/-- The second of two blank neighbours cannot stand behind text, for that text would be kept and
stand between the two. So it is a line of a section, and with it the first. -/
theorem inside_of_blank_neighbours {n : Nat} {a b : Nat × Text}
    (ha : (cleaner.cleanCompact source)[n]? = some a)
    (hb : (cleaner.cleanCompact source)[n + 1]? = some b) (hablank : a.2 = [])
    (hbblank : b.2 = []) :
    inside (cleaner.clean source) a.1 ∧ inside (cleaner.clean source) b.1 := by
  have hpair := cleaner.pairwise_cleanCompact source
  obtain ⟨hline, hopinion⟩ := cleaner.inside_cleanCompact ha
  obtain ⟨-, hopinion'⟩ := cleaner.inside_cleanCompact hb
  have hinside : inside (cleaner.clean source) b.1 := by
    obtain ⟨-, htext | hinside | hbehind⟩ :=
      cleaner.of_mem_cleanCompact (List.mem_of_getElem? hb)
    · exact absurd hbblank htext
    · exact hinside
    · obtain ⟨k, t, hk, hget, htext⟩ := hbehind
      have hkept := cleaner.mem_cleanCompact_of_text (l := (k, t)) hget htext
      have hlt := lt_of_getElem? hpair ha hb (Nat.lt_succ_self n)
      have hplace : k = a.1 := by
        have hends := le_or_le_of_mem hpair ha hb hkept
        omega
      rw [hplace, hline, hablank] at hget
      exact absurd (Option.some.inj hget).symm htext
  have hblank : ((cleaner.cleanCompact source).map Prod.snd)[n]? = some [] := by
    rw [List.getElem?_map, ha, ← hablank]
    rfl
  have hsame := inside_of_blanks (Nat.le_succ n) fun k hk hk' => by
    rwa [show k = n by omega]
  rw [hopinion, hopinion'] at hsame
  exact ⟨hsame ▸ hinside, hinside⟩

/-- Of the blank lines between two lines of text the first is kept, and outside of sections no
other. -/
theorem mem_cleanCompact_between {i j k : Nat} {s t u : Text}
    (hi : (cleaner.clean source)[i]? = some s) (hs : s ≠ [])
    (hj : (cleaner.clean source)[j]? = some t) (ht : t ≠ [])
    (hblank : ∀ k, i < k → k < j → (cleaner.clean source)[k]? = some [])
    (hinside : ¬ inside (cleaner.clean source) (i + 1)) (hik : i < k) (hkj : k < j) :
    (k, u) ∈ cleaner.cleanCompact source ↔ u = [] ∧ k = i + 1 := by
  have hsame : inside (cleaner.clean source) k = inside (cleaner.clean source) (i + 1) :=
    inside_of_blanks hik fun n hn hnk => hblank n (by omega) (by omega)
  rw [cleaner.mem_cleanCompact (m := (j, t)) hj ht (Nat.le_of_lt hkj), hsame, hblank k hik hkj]
  constructor
  · rintro ⟨hu, hreason⟩
    cases hu
    refine ⟨rfl, ?_⟩
    obtain ⟨n, v, rfl, hget, hv⟩ := (hreason.resolve_left (by simp)).resolve_left hinside
    -- The text that it stands behind can only be the first of the two lines.
    by_contra hne
    rw [hblank n (by omega) (by omega)] at hget
    exact hv (Option.some.inj hget).symm
  · rintro ⟨rfl, rfl⟩
    exact ⟨rfl, .inr (.inr ⟨i, s, rfl, hi, hs⟩)⟩

/-- Compaction drops blank lines only and leaves every line at its place. -/
theorem compaction_cleanCompact (source : List Text) :
    Compaction (cleaner.clean source) (cleaner.cleanCompact source) where
  ordered := List.pairwise_map.mpr (cleaner.pairwise_cleanCompact source)
  placed _ hl := (cleaner.of_mem_cleanCompact hl).1
  dropped i t hget hdropped := by
    by_contra htext
    have hkept := cleaner.mem_cleanCompact_of_text (l := (i, t)) hget htext
    exact hdropped (List.mem_map_of_mem (f := Prod.fst) hkept)
  first l hl := by
    obtain ⟨more, hmore⟩ := cleaner.cleanCompact_isPrefix source
    have hhead : (compactFrom false true (numbered (cleaner.clean source))).head? = some l := by
      simp [← hmore, List.head?_append, hl]
    exact ne_nil_of_head?_compactFrom hhead
  last l hl := ne_nil_of_getLast?_dropBlankEnd hl
  neighbours _ _ _ := cleaner.inside_of_blank_neighbours
  between i j s t hij hi hs hj ht hblank hinside := by
    have hmem {k : Nat} {u : Text} (hik : i < k) (hkj : k < j) :=
      cleaner.mem_cleanCompact_between (u := u) hi hs hj ht hblank hinside hik hkj
    have : Std.Irrefl fun a b : Nat × Text => a.1 < b.1 := ⟨fun a => Nat.lt_irrefl a.1⟩
    have : Std.Antisymm fun a b : Nat × Text => a.1 < b.1 :=
      ⟨fun a b hab hba => absurd hab (Nat.lt_asymm hba)⟩
    apply ((cleaner.pairwise_cleanCompact source).filter _).eq_of_mem_iff
    · split_ifs <;> simp
    · rintro ⟨k, u⟩
      simp only [List.mem_filter, decide_eq_true_eq]
      constructor
      · rintro ⟨hkept, hik, hkj⟩
        obtain ⟨rfl, rfl⟩ := (hmem hik hkj).mp hkept
        simp [hkj]
      · intro hk
        split_ifs at hk with hgap
        · obtain ⟨rfl, rfl⟩ := Prod.mk.inj (List.mem_singleton.mp hk)
          exact ⟨(hmem (by omega) hgap).mpr ⟨rfl, rfl⟩, by omega, hgap⟩
        · simp at hk

end

end Commentary.Cleaner
