import Commentary.Proofs.Comment.Edge
import Commentary.Proofs.Comment.Margin

/-!
# Headers that are cleaned

When a line is cleaned, its tabs become spaces and white space and an edge go from its end. A header
stays the header that it was unless its title goes, and what was none becomes one only where a tab
stood in its keyword or behind the colon.
-/

namespace Commentary

/-! ## The end of a text -/

namespace Text

variable {t : Text} {c : Char}

/-- A run at the end of a text stays when tabs become spaces. -/
theorem trimEnd_expandTabsFrom {width : Nat} (hwidth : 0 < width) (hc : ¬ isSpaceOrTab c)
    (column : Nat) (t : Text) :
    trimEnd (· = c) (expandTabsFrom width column t) =
      expandTabsFrom width column (trimEnd (· = c) t) := by
  simp only [isSpaceOrTab, Bool.or_eq_true, beq_iff_eq, not_or] at hc
  induction t using List.reverseRecOn with
  | nil => rfl
  | append_singleton t d ih =>
      by_cases hd : d = '\t'
      · -- A space ends the text as the tab does.
        obtain ⟨n, hexpand⟩ := exists_expandTabsFrom_tab hwidth
          (column + (expandTabsFrom width column t).length) []
        have htab : ¬ decide (d = c) := by simp [hd, Ne.symm hc.2]
        have hspace : ¬ decide (' ' = c) := by simp [Ne.symm hc.1]
        rw [trimEnd_concat, if_neg htab, expandTabsFrom_append, hd, hexpand, expandTabsFrom,
          List.append_nil, spaces, List.replicate_succ', ← List.append_assoc, trimEnd_concat,
          if_neg hspace]
      · have hexpand : expandTabsFrom width column (t ++ [d]) =
            expandTabsFrom width column t ++ [d] := by
          rw [expandTabsFrom_append, expandTabsFrom_cons hd]
          rfl
        rw [hexpand, trimEnd_concat, trimEnd_concat]
        split_ifs
        · exact ih
        · exact hexpand.symm

end Text

open Text

/-! ## Titles -/

namespace Edge

variable {s t : Text} {c : Char}

/-- An edge is taken off the part of a line behind a space. -/
theorem dropRight_append_space {before : Text} (h : trimEnd isSpace before = before) (t : Text) :
    dropRight (before ++ ' ' :: t) = before ++ dropRight (' ' :: t) := by
  rw [dropRight, dropRight, List.getLast?_append_of_ne_nil before (List.cons_ne_nil _ t)]
  cases hlast : (' ' :: t).getLast? with
  | none => rfl
  | some c =>
      dsimp only
      split_ifs with hc
      · have hspace : ∃ d ∈ ' ' :: t, ¬ decide (d = c) :=
          ⟨' ', List.mem_cons_self, by simpa using (ne_space_of_isSymbol hc).symm⟩
        rw [trimEnd_append_of_exists hspace, trimEnd_append_of_eq_self h]
      · rfl

theorem getLast?_expandTabsFrom_of_trimmed (width column : Nat) (h : trimBlankEnd t = t) :
    (expandTabsFrom width column t).getLast? = t.getLast? := by
  cases hlast : t.getLast? with
  | none => rw [List.getLast?_eq_none_iff.mp hlast]; rfl
  | some c =>
      refine getLast?_expandTabsFrom hlast ?_
      rintro rfl
      exact trimEnd_eq_self_iff.mp h _ hlast (by decide)

theorem dropRight_of_isSymbol (hlast : t.getLast? = some c) (hc : isSymbol c) :
    dropRight t = trimEnd isSpace (trimEnd (· = c) t) := by
  rw [dropRight, hlast]
  exact if_pos hc

theorem dropRight_of_not_isSymbol (h : ∀ c, t.getLast? = some c → ¬ isSymbol c) :
    dropRight t = t := by
  rw [dropRight]
  split
  · rfl
  · next c hlast => exact if_neg (h c hlast)

theorem isSpaceOrTab_of_isSpace (h : isSpace c) : isSpaceOrTab c := by
  rw [eq_of_beq h]
  rfl

/-- Expanding tabs does not change whether only white space is left without the right edge. -/
theorem all_isSpace_dropRight {width : Nat} (hwidth : 0 < width) (column : Nat)
    (h : trimBlankEnd t = t) :
    (dropRight (expandTabsFrom width column t)).all isSpace = (dropRight t).all isSpaceOrTab := by
  have hlast := getLast?_expandTabsFrom_of_trimmed width column h
  by_cases hsymbol : ∃ c, t.getLast? = some c ∧ isSymbol c
  · obtain ⟨c, hc, hsymbol⟩ := hsymbol
    have htab := mt isBlank_of_isSpaceOrTab (trimEnd_eq_self_iff.mp h c hc)
    rw [dropRight_of_isSymbol hc hsymbol, dropRight_of_isSymbol (hlast.trans hc) hsymbol,
      all_trimEnd fun _ => id, all_trimEnd fun _ => isSpaceOrTab_of_isSpace,
      trimEnd_expandTabsFrom hwidth htab, all_isSpace_expandTabsFrom]
  · have hnone : ∀ c, t.getLast? = some c → ¬ isSymbol c := by simpa using hsymbol
    rw [dropRight_of_not_isSymbol hnone, dropRight_of_not_isSymbol (hlast ▸ hnone),
      all_isSpace_expandTabsFrom]

/-- A space in front of a text does not matter. -/
theorem all_isSpaceOrTab_dropRight_cons (h : t ≠ []) :
    (dropRight (' ' :: t)).all isSpaceOrTab = (dropRight t).all isSpaceOrTab := by
  have hlast : (' ' :: t).getLast? = t.getLast? := List.getLast?_cons_of_ne_nil h
  by_cases hsymbol : ∃ c, t.getLast? = some c ∧ isSymbol c
  · obtain ⟨c, hc, hsymbol⟩ := hsymbol
    have hne : ¬ decide (' ' = c) := by simpa using (ne_space_of_isSymbol hsymbol).symm
    rw [dropRight_of_isSymbol hc hsymbol, dropRight_of_isSymbol (hlast.trans hc) hsymbol,
      all_trimEnd fun _ => isSpaceOrTab_of_isSpace, all_trimEnd fun _ => isSpaceOrTab_of_isSpace,
      trimEnd_cons_of_neg hne]
    rfl
  · have hnone : ∀ c, t.getLast? = some c → ¬ isSymbol c := by simpa using hsymbol
    rw [dropRight_of_not_isSymbol hnone, dropRight_of_not_isSymbol (hlast ▸ hnone)]
    rfl

end Edge

namespace Frame

variable {f : Frame} {width : Nat}

/-- A title goes with the end of its line: without white space and an edge at its end nothing but
spaces and tabs is left of it. -/
def swallows (f : Frame) (title : Text) : Bool :=
  (f.dropRight (trimBlankEnd title)).all isSpaceOrTab

theorem all_isSpace_dropRight (hwidth : 0 < width) (column : Nat) (t : Text) :
    (f.dropRight (expandTabsFrom width column (trimBlankEnd t))).all isSpace = f.swallows t := by
  rw [swallows, dropRight, dropRight]
  split_ifs
  · exact Edge.all_isSpace_dropRight hwidth column (trimEnd_trimEnd _ t)
  · exact all_isSpace_expandTabsFrom _ _ _

theorem dropRight_isPrefix (f : Frame) (t : Text) : f.dropRight t <+: t := by
  rw [dropRight]
  split_ifs
  · exact Edge.dropRight_isPrefix t
  · exact List.prefix_rfl

theorem dropRight_append_space {before : Text} (h : trimEnd isSpace before = before) (t : Text) :
    f.dropRight (before ++ ' ' :: t) = before ++ f.dropRight (' ' :: t) := by
  rw [dropRight, dropRight]
  split_ifs
  · exact Edge.dropRight_append_space h t
  · rfl

theorem swallows_cons (f : Frame) (t : Text) : f.swallows (' ' :: t) = f.swallows t := by
  rw [swallows, swallows, trimBlankEnd, trimBlankEnd, trimEnd]
  split
  · next hnil => rw [hnil, if_pos (by decide)]
  · next hne =>
      rw [dropRight, dropRight]
      split_ifs
      · exact Edge.all_isSpaceOrTab_dropRight_cons hne
      · rfl

theorem swallows_trim (f : Frame) (t : Text) : f.swallows (trim isSpace t) = f.swallows t := by
  have htrim : f.swallows (trim isSpace t) = f.swallows (trimStart isSpace t) := by
    rw [swallows, trim, trimBlankEnd, trimEnd_trimEnd_of_imp fun _ => isBlank_of_isSpace]
    rfl
  rw [htrim]
  clear htrim
  induction t with
  | nil => rfl
  | cons c t ih =>
      rw [trimStart, List.dropWhile_cons]
      split_ifs with hc
      · rw [eq_of_beq hc, swallows_cons]
        exact ih
      · rfl

end Frame

/-! ## Keywords and colons -/

namespace KeywordTable

variable {keywords : KeywordTable} {keyword rest w : Text} {header : Header} {f : Frame}
  {width column : Nat}

theorem header?_colon (hkeyword : CanHead keyword) (hworded : keyword.IsWorded)
    (hrest : lineFeed ∉ rest) :
    keywords.header? (keyword ++ ':' :: ' ' :: rest) =
      if trim isSpace rest = [] then none
      else (keywords.kind? keyword).map (⟨·, trim isSpace rest⟩) := by
  have hstart : trimStart isSpace keyword = keyword := by
    simpa using hworded.dropWhile_append isWordless_isSpace []
  rw [header?, splitHeader?_append hkeyword hrest, hstart]

/-- What a header is cut into that starts with a letter or a digit. -/
theorem exists_of_header? (hw : w.IsWorded) (h : keywords.header? w = some header) :
    ∃ keyword rest, w = keyword ++ ':' :: ' ' :: rest ∧ CanHead keyword ∧ keyword.IsWorded ∧
      keywords.kind? keyword = some header.kind ∧ trim isSpace rest = header.title ∧
        header.title ≠ [] := by
  rw [header?] at h
  split at h
  · cases h
  · next keyword title hsplit =>
      obtain ⟨htitle, h⟩ := Option.ite_none_left_eq_some.mp h
      obtain ⟨kind, hkind, rfl⟩ := Option.map_eq_some_iff.mp h
      obtain ⟨indent, rest, rfl, hindent, hchars, hne, hlast, htrim⟩ :=
        exists_of_splitHeader? hsplit
      obtain ⟨c, t, hc, halpha⟩ := hw
      cases indent with
      | cons d indent =>
          obtain ⟨rfl, -⟩ := List.cons_eq_cons.mp hc
          simp [isAlphanumeric_of_isSpace (hindent d List.mem_cons_self)] at halpha
      | nil =>
          refine ⟨keyword, rest, rfl, ⟨hchars, ?_⟩, ?_, hkind, htrim, htitle⟩
          · obtain ⟨e, he⟩ := Option.ne_none_iff_exists'.mp (mt List.getLast?_eq_none_iff.mp hne)
            exact ⟨e, he, fun hspace => hlast (hspace ▸ he)⟩
          · cases keyword with
            | nil => exact absurd rfl hne
            | cons d keyword =>
                obtain ⟨rfl, -⟩ := List.cons_eq_cons.mp hc
                exact ⟨d, keyword, rfl, halpha⟩

/-- A tab stands in the keyword of a header or right behind its colon. -/
def isTabbed (wording : Text) : Bool :=
  let t := wording.dropWhile isHeaderChar
  t.head? = some '\t' || [':', '\t'].isPrefixOf t

theorem mem_expandTabsFrom {t : Text} {c : Char} (h : c ∈ expandTabsFrom width column t) :
    c = ' ' ∨ c ∈ t := by
  induction t generalizing column with
  | nil => cases h
  | cons d t ih =>
      rw [expandTabsFrom] at h
      split_ifs at h
      · rcases List.mem_append.mp h with h | h
        · exact .inl (List.eq_of_mem_replicate h)
        · exact (ih h).imp_right (List.mem_cons_of_mem d)
      · rcases List.mem_cons.mp h with rfl | h
        · exact .inr List.mem_cons_self
        · exact (ih h).imp_right (List.mem_cons_of_mem d)

theorem CanHead.tab_not_mem (h : CanHead keyword) : '\t' ∉ keyword := fun hmem =>
  absurd (h.chars _ hmem) (by decide)

/-- What cleaning leaves behind a keyword. -/
theorem exists_cleaned_eq (width column : Nat) (hkeyword : CanHead keyword) (rest : Text) :
    ∃ column', expandTabsFrom width column (trimBlankEnd (keyword ++ ':' :: ' ' :: rest)) =
      keyword ++ ':' :: expandTabsFrom width column' (trimBlankEnd (' ' :: rest)) := by
  have hcolon : ¬ isBlank ':' := by decide
  refine ⟨column + keyword.length + 1, ?_⟩
  rw [trimBlankEnd, trimEnd_append_of_exists ⟨':', List.mem_cons_self, hcolon⟩,
    trimEnd_cons_of_neg hcolon, expandTabsFrom_append, expandTabsFrom_eq_self hkeyword.tab_not_mem,
    expandTabsFrom_cons (by decide)]

/-- Two texts are cut alike at their first characters that a keyword cannot hold. -/
theorem eq_of_append_eq {s s' t t' : Text} {c c' : Char} (hs : ∀ d ∈ s, isHeaderChar d)
    (hs' : ∀ d ∈ s', isHeaderChar d) (hc : ¬ isHeaderChar c) (hc' : ¬ isHeaderChar c')
    (h : s ++ c :: t = s' ++ c' :: t') : s = s' ∧ c = c' ∧ t = t' := by
  have hcut := congrArg (List.takeWhile isHeaderChar) h
  rw [List.takeWhile_append_of_pos hs, List.takeWhile_append_of_pos hs',
    List.takeWhile_cons_of_neg hc, List.takeWhile_cons_of_neg hc', List.append_nil,
    List.append_nil] at hcut
  subst hcut
  obtain ⟨rfl, rfl⟩ := List.cons_eq_cons.mp (List.append_cancel_left h)
  exact ⟨rfl, rfl, rfl⟩

theorem not_isHeaderChar_colon : ¬ isHeaderChar ':' := by decide

/-- Without a space behind the colon there is no header. -/
theorem header?_eq_none_of_isPrefix (hkeyword : CanHead keyword) (hw : w.IsWorded)
    (h : w <+: keyword ++ [':']) : keywords.header? w = none := by
  rw [Option.eq_none_iff_forall_ne_some]
  intro header hheader
  obtain ⟨own, rest, rfl, hown, -⟩ := exists_of_header? hw hheader
  obtain ⟨more, hmore⟩ := h
  rw [List.append_assoc] at hmore
  obtain ⟨-, -, hrest⟩ := eq_of_append_eq hown.chars hkeyword.chars not_isHeaderChar_colon
    not_isHeaderChar_colon hmore
  simp at hrest

theorem kind_header?_append (hkeyword : CanHead keyword) (hworded : keyword.IsWorded) {t : Text}
    (ht : t = [] ∨ t.head? = some ' ') (hline : lineFeed ∉ t) :
    (keywords.header? (keyword ++ ':' :: t)).map (·.kind) =
      if t.all isSpace then none else keywords.kind? keyword := by
  cases t with
  | nil =>
      have hcolon : (keyword ++ [':']).IsWorded := hworded.append [':']
      rw [header?_eq_none_of_isPrefix hkeyword hcolon List.prefix_rfl]
      rfl
  | cons c rest =>
      obtain rfl : c = ' ' := by simpa using ht
      rw [header?_colon hkeyword hworded fun hmem => hline (List.mem_cons_of_mem _ hmem)]
      have hspaces : trim isSpace rest = [] ↔ (' ' :: rest).all isSpace := by
        rw [trim, trimEnd_eq_nil_iff, all_trimStart]
        rfl
      simp only [← hspaces]
      split_ifs
      · rfl
      · rw [Option.map_map]
        exact congrFun Option.map_id _

theorem head?_eq_of_isPrefix {s t : Text} {c d : Char} (h : s <+: c :: t) (hs : s.head? = some d) :
    d = c := by
  obtain ⟨rest, rfl⟩ := List.head?_eq_some_iff.mp hs
  exact (List.cons_prefix_cons.mp h).1

/-- A header that is cleaned stays one of its kind unless its title goes. -/
theorem kind_header?_cleaned (hwidth : 0 < width) (column : Nat) (hw : w.IsWorded)
    (hline : lineFeed ∉ w) (h : keywords.header? w = some header) :
    (keywords.header? (f.dropRight (expandTabsFrom width column (trimBlankEnd w)))).map (·.kind) =
      if f.swallows header.title then none else some header.kind := by
  obtain ⟨keyword, rest, rfl, hkeyword, hworded, hkind, htitle, -⟩ := exists_of_header? hw h
  obtain ⟨column', hcleaned⟩ := exists_cleaned_eq width column hkeyword rest
  have hall := f.all_isSpace_dropRight hwidth column' (' ' :: rest)
  rw [f.swallows_cons, ← f.swallows_trim, htitle] at hall
  have hfeed : ∀ t, t <+: expandTabsFrom width column' (trimBlankEnd (' ' :: rest)) →
      lineFeed ∉ t := fun t ht hmem => by
    rcases mem_expandTabsFrom (ht.subset hmem) with hspace | hmem
    · cases hspace
    · exact hline (by simp [(trimEnd_isPrefix isBlank _).subset hmem])
  rw [hcleaned, ← hall, ← hkind]
  cases hrest : trimBlankEnd (' ' :: rest) with
  | nil =>
      have hcolon : (f.dropRight (keyword ++ [':'])).IsWorded :=
        Frame.isWorded_dropRight (hworded.append [':'])
      have hnil : f.dropRight [] = [] := List.prefix_nil.mp (f.dropRight_isPrefix [])
      rw [expandTabsFrom, hnil,
        header?_eq_none_of_isPrefix hkeyword hcolon (f.dropRight_isPrefix _)]
      rfl
  | cons c t =>
      have hhead : (trimEnd isBlank (' ' :: rest)).head? = some c := by
        rw [← trimBlankEnd, hrest]
        rfl
      obtain rfl : c = ' ' := head?_eq_of_isPrefix (trimEnd_isPrefix isBlank _) hhead
      rw [hrest, expandTabsFrom_cons (by decide)] at hfeed
      have htrim : trimEnd isSpace (keyword ++ [':']) = keyword ++ [':'] := by
        rw [trimEnd_concat, if_neg (by decide)]
      have hcut := f.dropRight_append_space htrim (expandTabsFrom width (column' + 1) t)
      have hprefix := f.dropRight_isPrefix (' ' :: expandTabsFrom width (column' + 1) t)
      rw [List.append_assoc, List.append_assoc] at hcut
      rw [expandTabsFrom_cons (by decide)]
      refine (congrArg (Option.map _ <| keywords.header? ·) hcut).trans
        (kind_header?_append hkeyword hworded ?_ (hfeed _ hprefix))
      cases hleft : f.dropRight (' ' :: expandTabsFrom width (column' + 1) t) with
      | nil => exact .inl rfl
      | cons d more =>
          rw [hleft] at hprefix
          exact .inr (congrArg some (List.cons_prefix_cons.mp hprefix).1)

theorem isTabbed_append (hkeyword : CanHead keyword) (t : Text) :
    isTabbed (keyword ++ ':' :: t) ↔ t.head? = some '\t' := by
  simp only [isTabbed, List.dropWhile_append_of_pos hkeyword.chars,
    List.dropWhile_cons_of_neg not_isHeaderChar_colon]
  cases t with
  | nil => decide
  | cons c t => simp [List.isPrefixOf, eq_comm (a := c)]

theorem not_isTabbed_of_header? (hw : w.IsWorded) (h : keywords.header? w = some header) :
    isTabbed w = false := by
  obtain ⟨keyword, rest, rfl, hkeyword, -⟩ := exists_of_header? hw h
  rw [← Bool.not_eq_true, isTabbed_append hkeyword]
  simp

/-- What is a keyword and a colon with its tabs expanded was one before if no tab was there. -/
theorem exists_of_expandTabsFrom_eq (htab : isTabbed w = false) (hkeyword : CanHead keyword)
    (h : expandTabsFrom width column w = keyword ++ ':' :: ' ' :: rest) :
    ∃ title, w = keyword ++ ':' :: ' ' :: title := by
  have hcut : w.takeWhile isHeaderChar ++ w.dropWhile isHeaderChar = w :=
    List.takeWhile_append_dropWhile
  have hchars : ∀ d ∈ w.takeWhile isHeaderChar, isHeaderChar d := fun d => List.mem_takeWhile_imp
  have htakes : '\t' ∉ w.takeWhile isHeaderChar := fun hmem => absurd (hchars _ hmem) (by decide)
  rw [← hcut, expandTabsFrom_append, expandTabsFrom_eq_self htakes] at h
  cases hbehind : w.dropWhile isHeaderChar with
  | nil =>
      rw [hbehind, expandTabsFrom, List.append_nil] at h
      exact absurd (hchars ':' (h ▸ by simp)) not_isHeaderChar_colon
  | cons d t =>
      have hstop : ¬ isHeaderChar d := not_of_trimStart_eq_cons hbehind
      have hd : d ≠ '\t' := by
        rintro rfl
        simp [isTabbed, hbehind] at htab
      rw [hbehind, expandTabsFrom_cons hd] at h
      obtain ⟨hkeys, rfl, ht⟩ :=
        eq_of_append_eq hchars hkeyword.chars hstop not_isHeaderChar_colon h
      rw [hkeys, hbehind] at hcut
      rw [← hcut, ← Bool.not_eq_true, isTabbed_append hkeyword] at htab
      cases t with
      | nil => cases ht
      | cons e t =>
          rw [expandTabsFrom_cons fun he => htab (congrArg some he)] at ht
          obtain ⟨rfl, -⟩ := List.cons_eq_cons.mp ht
          exact ⟨t, hcut.symm⟩

/-- A line that is a header when it is cleaned was one before unless a tab stood in its keyword or
behind its colon. -/
theorem header?_eq_none_iff_isTabbed (column : Nat) (hw : w.IsWorded) (hline : lineFeed ∉ w)
    (h : keywords.header? (f.dropRight (expandTabsFrom width column (trimBlankEnd w))) =
      some header) : keywords.header? w = none ↔ isTabbed w := by
  constructor
  · intro hnone
    by_contra htab
    rw [Bool.not_eq_true] at htab
    have hleft : (f.dropRight (expandTabsFrom width column (trimBlankEnd w))).IsWorded :=
      Frame.isWorded_dropRight ((hw.trimEnd isWordless_isBlank).expandTabsFrom width column)
    obtain ⟨keyword, rest, hcut, hkeyword, hworded, hkind, -⟩ := exists_of_header? hleft h
    obtain ⟨more, hmore⟩ := f.dropRight_isPrefix (expandTabsFrom width column (trimBlankEnd w))
    obtain ⟨blanks, hblanks⟩ := trimEnd_isPrefix isBlank w
    have hexpand : ∃ rest', expandTabsFrom width column w = keyword ++ ':' :: ' ' :: rest' := by
      rw [← hblanks, expandTabsFrom_append, ← trimBlankEnd, ← hmore, hcut, List.append_assoc,
        List.append_assoc]
      exact ⟨_, rfl⟩
    obtain ⟨rest', hrest'⟩ := hexpand
    obtain ⟨title, rfl⟩ := exists_of_expandTabsFrom_eq htab hkeyword hrest'
    rw [header?_colon hkeyword hworded fun hmem => hline (by simp [hmem]), hkind] at hnone
    have htitle : trim isSpace title = [] := by simpa using hnone
    -- Without a title nothing would be left behind the colon.
    have hspaces : trimBlankEnd (' ' :: title) = [] := by
      rw [trim, trimEnd_eq_nil_iff, all_trimStart, List.all_eq_true] at htitle
      rw [trimEnd_eq_nil_iff, List.all_eq_true]
      exact List.forall_mem_cons.mpr ⟨by decide, fun c hc => isBlank_of_isSpace (htitle c hc)⟩
    obtain ⟨column', hcleaned⟩ := exists_cleaned_eq width column hkeyword title
    have hprefix := f.dropRight_isPrefix
      (expandTabsFrom width column (trimBlankEnd (keyword ++ ':' :: ' ' :: title)))
    rw [hcleaned, hspaces] at hprefix hleft h
    rw [header?_eq_none_of_isPrefix hkeyword hleft hprefix] at h
    cases h
  · intro htab
    rw [Option.eq_none_iff_forall_ne_some]
    intro header' hheader
    rw [not_isTabbed_of_header? hw hheader] at htab
    cases htab

end KeywordTable

end Commentary
