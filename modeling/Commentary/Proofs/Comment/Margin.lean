import Commentary.Comment.Basic
import Commentary.Proofs.Comment.Letter
import Commentary.Proofs.Language.Header

/-!
# Margins

The wording of a line starts at its first letter or digit, and its margin is what stands before. A
header never starts in a margin, so a line is a header if its margin is passed over and its wording
is one. What is passed over depends on who reads. In a line as it stands it is white space, and any
run of a symbol that a space follows. In a cleaned line it is what went with the frame.
-/

namespace Commentary

namespace Text

/-- What stands before the first letter or digit of a line. -/
def margin (line : Text) : Text := line.takeWhile fun c => !isAlphanumeric c

/-- A line from its first letter or digit on. -/
def wording (line : Text) : Text := line.dropWhile fun c => !isAlphanumeric c

/-- A text without the run of its first character. -/
def dropRun : Text → Text
  | [] => []
  | c :: t => t.dropWhile (· = c)

/-- A text starts with a letter or a digit. -/
def IsWorded (t : Text) : Prop := ∃ c rest, t = c :: rest ∧ isAlphanumeric c

/-- A class of characters without letters and digits. -/
def IsWordless (p : Char → Bool) : Prop := ∀ c, isAlphanumeric c → ¬ p c

variable {p : Char → Bool} {line m t w : Text} {c : Char}

theorem margin_append_wording (line : Text) : line.margin ++ line.wording = line :=
  List.takeWhile_append_dropWhile

theorem alphanumerics_margin (line : Text) : line.margin.alphanumerics = [] :=
  alphanumerics_eq_nil_iff.mpr fun c hc => by simpa using List.mem_takeWhile_imp hc

theorem alphanumerics_of_wording_eq_nil (h : line.wording = []) : line.alphanumerics = [] := by
  rw [← margin_append_wording line, h, List.append_nil]
  exact alphanumerics_margin line

theorem wording_eq_nil_or (line : Text) : line.wording = [] ∨ line.wording.IsWorded := by
  cases h : line.wording with
  | nil => exact .inl rfl
  | cons c rest => exact .inr ⟨c, rest, rfl, by simpa using not_of_trimStart_eq_cons h⟩

theorem isWordless_isSpace : IsWordless isSpace := fun c hc hspace => by
  simp [isAlphanumeric_of_isSpace hspace] at hc

theorem isWordless_isBlank : IsWordless isBlank := fun c hc hblank => by
  simp [isAlphanumeric_of_isBlank hblank] at hc

theorem isWordless_eq (h : isAlphanumeric c = false) : IsWordless (· = c) := fun d hd heq => by
  rw [of_decide_eq_true heq, h] at hd
  cases hd

namespace IsWorded

theorem ne_nil (hw : w.IsWorded) : w ≠ [] := by
  rintro rfl
  obtain ⟨c, rest, h, -⟩ := hw
  cases h

theorem append (hw : w.IsWorded) (t : Text) : (w ++ t).IsWorded := by
  obtain ⟨c, rest, rfl, hc⟩ := hw
  exact ⟨c, rest ++ t, rfl, hc⟩

theorem head?_ne (hw : w.IsWorded) (hp : IsWordless p) (hc : p c) : w.head? ≠ some c := by
  obtain ⟨d, rest, rfl, hd⟩ := hw
  rintro heq
  obtain rfl := Option.some_inj.mp heq
  exact hp d hd hc

theorem dropWhile_append (hw : w.IsWorded) (hp : IsWordless p) (m : Text) :
    (m ++ w).dropWhile p = m.dropWhile p ++ w := by
  induction m with
  | nil =>
      obtain ⟨c, rest, rfl, hc⟩ := hw
      simp [hp c hc]
  | cons d m ih =>
      rw [List.cons_append, List.dropWhile_cons, List.dropWhile_cons]
      split_ifs
      · exact ih
      · rfl

theorem trimEnd_append (hw : w.IsWorded) (hp : IsWordless p) (m : Text) :
    trimEnd p (m ++ w) = m ++ trimEnd p w := by
  obtain ⟨c, rest, rfl, hc⟩ := hw
  exact trimEnd_append_of_exists ⟨c, List.mem_cons_self, hp c hc⟩ m

theorem trimEnd (hw : w.IsWorded) (hp : IsWordless p) : (trimEnd p w).IsWorded := by
  obtain ⟨c, rest, rfl, hc⟩ := hw
  refine ⟨c, Text.trimEnd p rest, ?_, hc⟩
  rw [Text.trimEnd]
  split
  · next h => rw [if_neg (hp c hc), h]
  · rfl

theorem alphanumerics_ne_nil (hw : w.IsWorded) (m : Text) : (m ++ w).alphanumerics ≠ [] := by
  obtain ⟨c, rest, rfl, hc⟩ := hw
  rw [Ne, alphanumerics_eq_nil_iff]
  intro h
  simp [h c (by simp)] at hc

theorem dropRun_append (hw : w.IsWorded) (hm : m.alphanumerics = []) (hne : m ≠ []) :
    dropRun (m ++ w) = dropRun m ++ w := by
  cases m with
  | nil => exact absurd rfl hne
  | cons c m =>
      have hc := alphanumerics_eq_nil_iff.mp hm c List.mem_cons_self
      exact hw.dropWhile_append (isWordless_eq hc) m

end IsWorded

theorem dropRun_isSuffix (t : Text) : dropRun t <:+ t := by
  cases t with
  | nil => exact List.suffix_rfl
  | cons c t => exact (List.dropWhile_suffix _).trans (List.suffix_cons c t)

theorem alphanumerics_of_sublist (h : m.Sublist t) (ht : t.alphanumerics = []) :
    m.alphanumerics = [] :=
  alphanumerics_eq_nil_iff.mpr fun c hc => alphanumerics_eq_nil_iff.mp ht c (h.subset hc)

end Text

open Text

/-! ## Headers behind a margin -/

namespace KeywordTable

variable {keywords : KeywordTable} {m t w : Text} {c : Char}

theorem isAlphanumeric_of_isHeaderChar (h : isHeaderChar c) (hc : c ≠ ' ') : isAlphanumeric c := by
  simp only [isHeaderChar, Bool.or_eq_true] at h
  rcases h with (h | h) | h
  · exact isAlphanumeric_of_isBasicLetter h
  · have hlt : c.toNat < 0x80 := by
      simp only [Char.isDigit, Bool.and_eq_true, decide_eq_true_eq] at h
      have hnine : c.toNat ≤ '9'.toNat := UInt32.le_iff_toNat_le.mp h.2
      exact Nat.lt_of_le_of_lt hnine (by decide)
    rw [isAlphanumeric, if_pos hlt, Char.isAlphanum, h, Bool.or_true]
  · exact absurd (of_decide_eq_true h) hc

theorem header?_trimStart (t : Text) :
    keywords.header? (trimStart isSpace t) = keywords.header? t := by
  rw [header?, header?, splitHeader?, splitHeader?, trimStart, List.dropWhile_idempotent]

/-- A header starts with a letter or a digit, behind spaces. -/
theorem header?_eq_none_of_head
    (h : ∀ d, (trimStart isSpace t).head? = some d → ¬ isAlphanumeric d) :
    keywords.header? t = none := by
  have hkeyword : (trimStart isSpace t).takeWhile isHeaderChar = [] := by
    cases ht : trimStart isSpace t with
    | nil => rfl
    | cons d rest =>
        rw [ht] at h
        refine List.takeWhile_cons_of_neg fun hd => h d rfl ?_
        refine isAlphanumeric_of_isHeaderChar hd ?_
        rintro rfl
        exact not_of_trimStart_eq_cons ht rfl
  rw [header?, splitHeader?, hkeyword]
  split
  · rfl
  · next h =>
      split at h
      · simp at h
      · cases h

theorem header?_eq_none_of_alphanumerics (h : t.alphanumerics = []) :
    keywords.header? t = none := by
  refine header?_eq_none_of_head fun d hd => ?_
  have hmem : d ∈ t := (List.dropWhile_suffix _).subset (List.mem_of_head? hd)
  simp [alphanumerics_eq_nil_iff.mp h d hmem]

/-- Spaces before the wording of a line do not count, and anything else hides a header. -/
theorem header?_append (hw : w.IsWorded) (hm : m.alphanumerics = []) :
    keywords.header? (m ++ w) = if m.all isSpace then keywords.header? w else none := by
  have hstart := hw.dropWhile_append isWordless_isSpace m
  split_ifs with hspaces
  · have hnil : m.dropWhile isSpace = [] := trimStart_eq_nil_iff.mpr hspaces
    rw [← header?_trimStart, trimStart, hstart, hnil, List.nil_append]
  · refine header?_eq_none_of_head fun d hd => ?_
    rw [trimStart, hstart] at hd
    cases hrest : m.dropWhile isSpace with
    | nil => exact absurd (trimStart_eq_nil_iff.mp hrest) hspaces
    | cons c rest =>
        rw [hrest] at hd
        obtain rfl := Option.some_inj.mp hd
        have hmem : c ∈ m := (List.dropWhile_suffix _).subset (hrest ▸ List.mem_cons_self)
        simp [alphanumerics_eq_nil_iff.mp hm c hmem]

end KeywordTable

/-! ## Lines as they stand -/

namespace Comment

variable {keywords : KeywordTable} {line t : Text} {c : Char}

/-- A margin is passed over in a line as it stands: it is white space, perhaps with a run of one
symbol that a space follows. -/
def isSkipped (margin : Text) : Bool :=
  let t := trimStart isBlank margin
  t = [] || (dropRun t).head? = some ' ' && (dropRun t).all isBlank

theorem isSkipped_of_nil {margin : Text} (h : trimStart isBlank margin = []) :
    isSkipped margin := by
  simp [isSkipped, h]

theorem isSkipped_iff_of_cons {margin : Text} (h : trimStart isBlank margin = c :: t) :
    isSkipped margin ↔
      (dropRun (c :: t)).head? = some ' ' ∧ (dropRun (c :: t)).all isBlank := by
  simp [isSkipped, h]

theorem undecorated_of_nil (h : trimStart isBlank line = []) : undecorated line = [] := by
  rw [undecorated, h]

theorem undecorated_of_alphanumeric (h : trimStart isBlank line = c :: t) (hc : isAlphanumeric c) :
    undecorated line = c :: t := by
  rw [undecorated, h]
  exact if_pos hc

theorem undecorated_of_symbol (h : trimStart isBlank line = c :: t)
    (hc : isAlphanumeric c = false) :
    undecorated line =
      if dropRun (c :: t) = [] ∨ (dropRun (c :: t)).head? = some ' ' then
        trimStart isBlank (dropRun (c :: t))
      else c :: t := by
  rw [undecorated, h]
  exact if_neg (by simp [hc])

theorem core_dropRun (hc : isAlphanumeric c = false) (t : Text) :
    Core (c :: t) (dropRun (c :: t)) := by
  have hchar : ∀ d, decide (d = c) → isAlphanumeric d = false := fun d hd => by
    rw [of_decide_eq_true hd, hc]
  have hrun : (c :: t).dropWhile (· = c) = dropRun (c :: t) := by simp [dropRun]
  exact hrun ▸ Core.dropWhile hchar (c :: t)

/-- A line as it stands loses no letter and no digit. -/
theorem core_undecorated (line : Text) : Core line (undecorated line) := by
  have hblank : ∀ c, isBlank c → isAlphanumeric c = false := fun _ => isAlphanumeric_of_isBlank
  have hstart : Core line (trimStart isBlank line) := Core.dropWhile hblank line
  cases ht : trimStart isBlank line with
  | nil =>
      rw [undecorated_of_nil ht]
      rwa [ht] at hstart
  | cons c t =>
      rw [ht] at hstart
      cases hc : isAlphanumeric c with
      | true => rwa [undecorated_of_alphanumeric ht hc]
      | false =>
          rw [undecorated_of_symbol ht hc]
          split_ifs
          · exact hstart.trans ((core_dropRun hc t).trans (Core.dropWhile hblank _))
          · exact hstart

theorem all_isSpace_trimStart (t : Text) : (trimStart isBlank t).all isSpace = t.all isBlank := by
  cases h : trimStart isBlank t with
  | nil => exact (trimStart_eq_nil_iff.mp h).symm
  | cons c rest =>
      have hblank : ¬ isBlank c := not_of_trimStart_eq_cons h
      have hspace : isSpace c = false := by simpa using mt isBlank_of_isSpace hblank
      have hc : c ∈ t := (List.dropWhile_suffix _).subset (h ▸ List.mem_cons_self)
      rw [List.all_cons, hspace, Bool.false_and, eq_comm, List.all_eq_false]
      exact ⟨c, hc, hblank⟩

theorem header?_undecorated_append {m w : Text} (hm : alphanumerics m = []) (hw : w.IsWorded) :
    keywords.header? (undecorated (m ++ w)) = if isSkipped m then keywords.header? w else none := by
  have hstart : trimStart isBlank (m ++ w) = trimStart isBlank m ++ w :=
    hw.dropWhile_append isWordless_isBlank m
  cases ht : trimStart isBlank m with
  | nil =>
      rw [ht, List.nil_append] at hstart
      obtain ⟨c, rest, rfl, hc⟩ := hw
      rw [undecorated_of_alphanumeric hstart hc, if_pos (isSkipped_of_nil ht)]
  | cons c t =>
      have hct : alphanumerics (c :: t) = [] := by
        rw [← ht]
        exact alphanumerics_of_sublist (List.dropWhile_sublist _) hm
      have hc : isAlphanumeric c = false := alphanumerics_eq_nil_iff.mp hct c List.mem_cons_self
      have hrun : dropRun (c :: (t ++ w)) = dropRun (c :: t) ++ w :=
        hw.dropRun_append hct (List.cons_ne_nil c t)
      rw [ht, List.cons_append] at hstart
      rw [undecorated_of_symbol hstart hc, hrun]
      simp only [isSkipped_iff_of_cons ht]
      by_cases hspace : (dropRun (c :: t)).head? = some ' '
      · have hrest : alphanumerics (trimStart isBlank (dropRun (c :: t))) = [] :=
          alphanumerics_of_sublist
            ((List.dropWhile_sublist _).trans (dropRun_isSuffix _).sublist) hct
        rw [if_pos (.inr (by simp [List.head?_append, hspace])), trimStart,
          hw.dropWhile_append isWordless_isBlank, KeywordTable.header?_append hw hrest,
          all_isSpace_trimStart]
        simp only [hspace, true_and]
      · -- The run is followed by the wording or by another symbol, and it hides what follows.
        have hnone : ¬ (dropRun (c :: t) ++ w = [] ∨
            (dropRun (c :: t) ++ w).head? = some ' ') := by
          simp only [List.append_eq_nil_iff, hw.ne_nil, and_false, false_or, List.head?_append]
          cases hdrop : dropRun (c :: t) with
          | nil => simpa using hw.head?_ne isWordless_isSpace rfl
          | cons d rest => simpa [hdrop] using hspace
        have hspaces : ¬ (c :: t).all isSpace := fun hall => by
          have hspace := List.all_eq_true.mp hall c List.mem_cons_self
          exact not_of_trimStart_eq_cons ht (isBlank_of_isSpace hspace)
        rw [if_neg hnone, if_neg fun h => hspace h.1, ← List.cons_append,
          KeywordTable.header?_append hw hct, if_neg hspaces]

/-- A line as it stands is a header if its margin is passed over and its wording is one. -/
theorem header?_undecorated (line : Text) : keywords.header? (undecorated line) =
    if isSkipped line.margin then keywords.header? line.wording else none := by
  rcases wording_eq_nil_or line with hnil | hw
  · rw [hnil, KeywordTable.header?_eq_none_of_alphanumerics (t := []) rfl, ite_self]
    exact KeywordTable.header?_eq_none_of_alphanumerics
      ((core_undecorated line).alphanumerics_eq.trans (alphanumerics_of_wording_eq_nil hnil))
  · conv_lhs => rw [← margin_append_wording line]
    exact header?_undecorated_append (alphanumerics_margin line) hw

end Comment

/-! ## Cleaned lines -/

namespace Text

variable {width column : Nat} {t w : Text} {c : Char}

theorem expandTabsFrom_append (width column : Nat) (s t : Text) :
    expandTabsFrom width column (s ++ t) = expandTabsFrom width column s ++
      expandTabsFrom width (column + (expandTabsFrom width column s).length) t := by
  induction s generalizing column with
  | nil => rfl
  | cons c s ih =>
      rw [List.cons_append, expandTabsFrom, expandTabsFrom]
      dsimp only
      split_ifs
      · rw [ih, List.append_assoc, List.length_append, spaces, List.length_replicate,
          Nat.add_assoc]
      · rw [ih, List.cons_append, List.length_cons, Nat.add_assoc, Nat.add_comm 1]

theorem expandTabsFrom_cons (h : c ≠ '\t') (t : Text) :
    expandTabsFrom width column (c :: t) = c :: expandTabsFrom width (column + 1) t := by
  rw [expandTabsFrom, if_neg h]

/-- A tab becomes at least one space. -/
theorem exists_expandTabsFrom_tab (hwidth : 0 < width) (column : Nat) (t : Text) :
    ∃ n, expandTabsFrom width column ('\t' :: t) =
      spaces (n + 1) ++ expandTabsFrom width (column + (n + 1)) t := by
  have hpos : 0 < width - column % width := Nat.sub_pos_of_lt (Nat.mod_lt _ hwidth)
  obtain ⟨n, hn⟩ := Nat.exists_eq_succ_of_ne_zero hpos.ne'
  refine ⟨n, ?_⟩
  rw [expandTabsFrom, if_pos rfl, hn]

theorem IsWorded.expandTabsFrom (hw : w.IsWorded) (width column : Nat) :
    (expandTabsFrom width column w).IsWorded := by
  obtain ⟨c, rest, rfl, hc⟩ := hw
  have htab : c ≠ '\t' := by
    rintro rfl
    exact absurd hc (by decide)
  exact ⟨c, _, expandTabsFrom_cons htab rest, hc⟩

theorem all_isSpace_spaces (n : Nat) : (spaces n).all isSpace :=
  List.all_eq_true.mpr fun c hc => by rw [List.eq_of_mem_replicate hc]; rfl

theorem isSpaceOrTab_of_ne (h : c ≠ '\t') : isSpaceOrTab c = isSpace c := by
  simp [isSpaceOrTab, isSpace, h]

theorem all_isSpace_expandTabsFrom (width column : Nat) (t : Text) :
    (expandTabsFrom width column t).all isSpace = t.all isSpaceOrTab := by
  induction t generalizing column with
  | nil => rfl
  | cons c t ih =>
      rw [expandTabsFrom]
      split_ifs with hc
      · rw [List.all_append, all_isSpace_spaces, Bool.true_and, ih, hc]
        rfl
      · rw [List.all_cons, List.all_cons, ih, isSpaceOrTab_of_ne hc]

/-- Spaces and tabs that indent a text become spaces. -/
theorem exists_trimStart_expandTabsFrom (width column : Nat) (t : Text) :
    ∃ column', trimStart isSpace (expandTabsFrom width column t) =
      expandTabsFrom width column' (trimStart isSpaceOrTab t) := by
  induction t generalizing column with
  | nil => exact ⟨0, rfl⟩
  | cons c t ih =>
      rw [expandTabsFrom]
      split_ifs with hc
      · obtain ⟨column', h⟩ := ih (column + (width - column % width))
        refine ⟨column', ?_⟩
        have hspaces := List.all_eq_true.mp (all_isSpace_spaces (width - column % width))
        rw [trimStart, List.dropWhile_append_of_pos hspaces, hc]
        exact h
      · rw [trimStart, trimStart, List.dropWhile_cons, List.dropWhile_cons, isSpaceOrTab_of_ne hc]
        split_ifs
        · exact ih (column + 1)
        · exact ⟨column, (expandTabsFrom_cons hc t).symm⟩

/-- A run of a character other than spaces and tabs is not touched. -/
theorem exists_dropWhile_expandTabsFrom (hwidth : 0 < width) (hc : ¬ isSpaceOrTab c)
    (column : Nat) (t : Text) :
    ∃ column', (expandTabsFrom width column t).dropWhile (· = c) =
      expandTabsFrom width column' (t.dropWhile (· = c)) := by
  simp only [isSpaceOrTab, Bool.or_eq_true, beq_iff_eq, not_or] at hc
  induction t generalizing column with
  | nil => exact ⟨0, rfl⟩
  | cons d t ih =>
      by_cases hd : d = '\t'
      · -- A space ends the run as the tab does.
        obtain ⟨n, hexpand⟩ := exists_expandTabsFrom_tab hwidth column t
        have htab : ¬ decide (d = c) := by simp [hd, Ne.symm hc.2]
        have hspace : ¬ decide (' ' = c) := by simp [Ne.symm hc.1]
        refine ⟨column, ?_⟩
        rw [List.dropWhile_cons, if_neg htab, hd, hexpand, spaces, List.replicate_succ,
          List.cons_append, List.dropWhile_cons, if_neg hspace]
      · rw [expandTabsFrom_cons hd, List.dropWhile_cons, List.dropWhile_cons]
        split_ifs
        · exact ih (column + 1)
        · exact ⟨column, (expandTabsFrom_cons hd t).symm⟩

theorem exists_dropRun_expandTabsFrom (hwidth : 0 < width) (column : Nat) (t : Text) :
    ∃ column', dropRun (expandTabsFrom width column (trimStart isSpaceOrTab t)) =
      expandTabsFrom width column' (dropRun (trimStart isSpaceOrTab t)) := by
  cases h : trimStart isSpaceOrTab t with
  | nil => exact ⟨0, rfl⟩
  | cons c rest =>
      have hc : ¬ isSpaceOrTab c := not_of_trimStart_eq_cons h
      have htab : c ≠ '\t' := by
        rintro rfl
        exact hc rfl
      rw [expandTabsFrom_cons htab]
      exact exists_dropWhile_expandTabsFrom hwidth hc (column + 1) rest

end Text

namespace Edge

variable {m w : Text}

theorem dropLeft_eq (h : m.alphanumerics = []) :
    dropLeft m = if m.all isSpace then m else dropRun (trimStart isSpace m) := by
  rw [dropLeft]
  split
  · next hnil => rw [if_pos (trimStart_eq_nil_iff.mp hnil)]
  · next c t ht =>
      have hmem : c ∈ m := (List.dropWhile_suffix _).subset (ht ▸ List.mem_cons_self)
      have hspace : ¬ isSpace c := not_of_trimStart_eq_cons ht
      have hsymbol : isSymbol c := by
        simp [isSymbol, alphanumerics_eq_nil_iff.mp h c hmem, hspace]
      rw [if_pos hsymbol, if_neg fun hall => hspace (List.all_eq_true.mp hall c hmem), ht]
      rfl

theorem all_isSpace_dropLeft (h : m.alphanumerics = []) :
    (dropLeft m).all isSpace = (dropRun (trimStart isSpace m)).all isSpace := by
  rw [dropLeft_eq h]
  split_ifs with hall
  · rw [trimStart_eq_nil_iff.mpr hall, hall]
    rfl
  · rfl

theorem dropLeft_append (hm : m.alphanumerics = []) (hw : w.IsWorded) :
    dropLeft (m ++ w) = dropLeft m ++ w := by
  have hstart : trimStart isSpace (m ++ w) = trimStart isSpace m ++ w :=
    hw.dropWhile_append isWordless_isSpace m
  cases ht : trimStart isSpace m with
  | nil =>
      obtain ⟨c, rest, rfl, hc⟩ := hw
      rw [ht, List.nil_append] at hstart
      rw [dropLeft, dropLeft, hstart, ht]
      exact if_neg (by simp [isSymbol, hc])
  | cons c t =>
      have hc : isAlphanumeric c = false :=
        alphanumerics_eq_nil_iff.mp hm c
          ((List.dropWhile_suffix _).subset (ht ▸ List.mem_cons_self))
      have hspace : isSpace c = false := by simpa using not_of_trimStart_eq_cons ht
      have hsymbol : isSymbol c := by simp [isSymbol, hc, hspace]
      rw [ht, List.cons_append] at hstart
      rw [dropLeft, dropLeft, hstart, ht]
      dsimp only
      rw [if_pos hsymbol, if_pos hsymbol, hw.dropWhile_append (isWordless_eq hc)]

theorem dropRight_append (m : Text) (hw : w.IsWorded) : dropRight (m ++ w) = m ++ dropRight w := by
  rw [dropRight, dropRight, List.getLast?_append_of_ne_nil m hw.ne_nil]
  cases hlast : w.getLast? with
  | none => rfl
  | some c =>
      dsimp only
      split_ifs with hc
      · have hrun := isWordless_eq (isAlphanumeric_of_isSymbol hc)
        rw [hw.trimEnd_append hrun, (hw.trimEnd hrun).trimEnd_append isWordless_isSpace]
      · rfl

theorem isWorded_dropRight (hw : w.IsWorded) : (dropRight w).IsWorded := by
  rw [dropRight]
  split
  · exact hw
  · split_ifs with hc
    · exact (hw.trimEnd (isWordless_eq (isAlphanumeric_of_isSymbol hc))).trimEnd isWordless_isSpace
    · exact hw

end Edge

namespace Frame

/-- Takes the left edge off a line, if it stands. -/
def dropLeft (f : Frame) (t : Text) : Text := if f.left.isSome then Edge.dropLeft t else t

/-- Takes the right edge off a line, if it stands. -/
def dropRight (f : Frame) (t : Text) : Text := if f.right.isSome then Edge.dropRight t else t

/-- A margin goes with a frame: it holds spaces and tabs, and with a left edge the run of one symbol
behind the first of them. -/
def covers (f : Frame) (margin : Text) : Bool :=
  let t := trimStart isSpaceOrTab margin
  (if f.left.isSome then dropRun t else t).all isSpaceOrTab

variable {f : Frame} {m w : Text}

theorem strip_eq (f : Frame) (t : Text) : f.strip t = f.dropRight (f.dropLeft t) := rfl

theorem strip_append (hm : m.alphanumerics = []) (hw : w.IsWorded) :
    f.strip (m ++ w) = f.dropLeft m ++ f.dropRight w := by
  have hleft : f.dropLeft (m ++ w) = f.dropLeft m ++ w := by
    rw [dropLeft, dropLeft]
    split_ifs
    · exact Edge.dropLeft_append hm hw
    · rfl
  rw [strip_eq, hleft, dropRight, dropRight]
  split_ifs
  · exact Edge.dropRight_append _ hw
  · rfl

theorem isWorded_dropRight (hw : w.IsWorded) : (f.dropRight w).IsWorded := by
  rw [dropRight]
  split_ifs
  · exact Edge.isWorded_dropRight hw
  · exact hw

theorem alphanumerics_dropLeft (hm : m.alphanumerics = []) : (f.dropLeft m).alphanumerics = [] := by
  rw [dropLeft]
  split_ifs
  · exact alphanumerics_of_sublist (Edge.dropLeft_isSuffix m).sublist hm
  · exact hm

/-- A margin is covered if only spaces are left of it when its tabs are expanded. -/
theorem all_isSpace_dropLeft {width : Nat} (hwidth : 0 < width) (hm : m.alphanumerics = []) :
    (f.dropLeft (expandTabsFrom width 0 m)).all isSpace = f.covers m := by
  have hexpanded : (expandTabsFrom width 0 m).alphanumerics = [] :=
    (alphanumerics_expandTabsFrom width 0 m).trans hm
  rw [dropLeft, covers]
  split_ifs
  · obtain ⟨column, hstart⟩ := exists_trimStart_expandTabsFrom width 0 m
    obtain ⟨column', hrun⟩ := exists_dropRun_expandTabsFrom hwidth column m
    rw [Edge.all_isSpace_dropLeft hexpanded, hstart, hrun, all_isSpace_expandTabsFrom]
  · rw [all_isSpace_expandTabsFrom, all_trimStart]

end Frame

namespace Cleaner

variable {keywords : KeywordTable} {f : Frame} {inSection : Bool} {line : Text}

/-- A line with a letter or a digit loses the frame and nothing else. -/
theorem cleanLine_of_alphanumerics_ne (h : line.alphanumerics ≠ []) :
    cleanLine f inSection line = f.strip line := by
  have hrule : Rule.isIndentedRule line = false := by
    simpa using mt Rule.alphanumerics_of_isIndentedRule h
  have hstripped : Rule.isIndentedRule (f.strip line) = false := by
    rw [← (f.core_strip line).alphanumerics_eq] at h
    simpa using mt Rule.alphanumerics_of_isIndentedRule h
  simp [cleanLine, hrule, hstripped]

theorem exists_prepare_eq (cleaner : Cleaner) (h : line.wording.IsWorded) :
    ∃ column, cleaner.prepare line = expandTabsFrom cleaner.tabWidth 0 line.margin ++
      expandTabsFrom cleaner.tabWidth column (trimBlankEnd line.wording) := by
  refine ⟨0 + (expandTabsFrom cleaner.tabWidth 0 line.margin).length, ?_⟩
  rw [prepare, expandTabs, ← expandTabsFrom_append, trimBlankEnd,
    ← h.trimEnd_append isWordless_isBlank, margin_append_wording]

/-- A cleaned line is a header if its margin went with the frame and what is left of its wording is
one. -/
theorem exists_header?_cleanLine (keywords : KeywordTable) (cleaner : Cleaner) (f : Frame)
    (inSection : Bool) (line : Text) :
    ∃ column, keywords.header? (cleanLine f inSection (cleaner.prepare line)) =
      if f.covers line.margin then
        keywords.header?
          (f.dropRight (expandTabsFrom cleaner.tabWidth column (trimBlankEnd line.wording)))
      else none := by
  rcases wording_eq_nil_or line with hnil | hw
  · have hprepared : (cleaner.prepare line).alphanumerics = [] :=
      (cleaner.alphanumerics_prepare line).trans (alphanumerics_of_wording_eq_nil hnil)
    have hnone : keywords.header? (f.dropRight []) = none := by
      rw [Frame.dropRight]
      split_ifs <;> rfl
    refine ⟨0, ?_⟩
    rw [hnil, show expandTabsFrom cleaner.tabWidth 0 (trimBlankEnd []) = [] from rfl, hnone,
      ite_self]
    exact KeywordTable.header?_eq_none_of_alphanumerics
      (alphanumerics_of_sublist (cleanLine_sublist f inSection _) hprepared)
  · have hm := alphanumerics_margin line
    have hmargin : (expandTabsFrom cleaner.tabWidth 0 line.margin).alphanumerics = [] :=
      (alphanumerics_expandTabsFrom _ _ _).trans hm
    obtain ⟨column, hprepared⟩ := cleaner.exists_prepare_eq hw
    have hrest := (hw.trimEnd isWordless_isBlank).expandTabsFrom cleaner.tabWidth column
    refine ⟨column, ?_⟩
    rw [hprepared, cleanLine_of_alphanumerics_ne (hrest.alphanumerics_ne_nil _),
      Frame.strip_append hmargin hrest,
      KeywordTable.header?_append (Frame.isWorded_dropRight hrest)
        (Frame.alphanumerics_dropLeft hmargin),
      Frame.all_isSpace_dropLeft cleaner.tabWidth_pos hm]

end Cleaner

end Commentary
