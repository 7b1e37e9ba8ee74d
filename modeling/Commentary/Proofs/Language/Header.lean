import Commentary.Language.Keyword
import Commentary.Proofs.Comment.Verbatim
import Commentary.Proofs.Ordered
import Commentary.Proofs.Text.Words

/-!
# Keywords at the head of a topic

A table takes any keyword, but a header is cut off its line before the table is asked, and only
letters from a to z, digits and spaces are cut off as a keyword. So a keyword can head a topic if
it is written in these and does not end with a space. Lower case keeps to these characters, and
none of it comes from any other character.
-/

namespace Commentary.KeywordTable

open Text

/-! ## Lower case of a keyword in a header -/

theorem toNat_of_isHeaderChar {c : Char} (h : isHeaderChar c) :
    c.toNat < 0x80 ∨ c.toNat = 0x17F ∨ c.toNat = 0x212A := by
  simp only [isHeaderChar, isBasicLetter, isSpace, Bool.or_eq_true, beq_iff_eq] at h
  rcases h with (((h | rfl) | rfl) | h) | rfl
  · have hletter := toNat_of_isAlpha h
    omega
  · decide
  · decide
  · simp only [Char.isDigit, Bool.and_eq_true, decide_eq_true_eq] at h
    have hnine : c.toNat ≤ '9'.toNat := UInt32.le_iff_toNat_le.mp h.2
    simp at hnine
    omega
  · decide

theorem forall_ascii {P : Char → Prop} (h : ∀ n < 0x80, P (Char.ofNat n)) {c : Char}
    (hc : c.toNat < 0x80) : P c := by
  have hcode := h c.toNat hc
  rwa [Char.ofNat_toNat] at hcode

theorem toLower_ascii {c : Char} (h : c.toNat < 0x80) :
    isHeaderChar c.toLower = isHeaderChar c ∧ isBlank c.toLower = isBlank c ∧
      (c.toLower = ' ' ↔ c = ' ') := by
  apply forall_ascii _ h
  decide

/-- The lower case of a character that a keyword may hold in a header. -/
def small (c : Char) : Char := if c = '\u212A' then 'k' else c.toLower

theorem small_of_toNat_lt {c : Char} (h : c.toNat < 0x80) : small c = c.toLower := by
  have hne : c ≠ '\u212A' := by
    rintro rfl
    simp at h
  rw [small, if_neg hne]

theorem small_spec {c : Char} (h : isHeaderChar c) :
    isHeaderChar (small c) ∧ isBlank (small c) = isBlank c ∧ (small c = ' ' ↔ c = ' ') := by
  rcases toNat_of_isHeaderChar h with hn | hn | hn
  · obtain ⟨hheader, hrest⟩ := toLower_ascii hn
    rw [small_of_toNat_lt hn, hheader]
    exact ⟨h, hrest⟩
  · obtain rfl : c = 'ſ' := Char.toNat_inj.mp hn
    decide
  · obtain rfl : c = '\u212A' := Char.toNat_inj.mp hn
    decide

theorem lowerChar_of_isHeaderChar {c : Char} (h : isHeaderChar c) : lowerChar c = [small c] := by
  rcases toNat_of_isHeaderChar h with hn | hn | hn
  · rw [lowerChar, if_pos hn, small_of_toNat_lt hn]
  · obtain rfl : c = 'ſ' := Char.toNat_inj.mp hn
    decide
  · obtain rfl : c = '\u212A' := Char.toNat_inj.mp hn
    decide

/-- Beyond ASCII just the Kelvin sign has a lower case that a keyword may hold in a header. -/
theorem targets_lowerCaseRuns :
    ∀ run ∈ lowerCaseRuns, run.first = 0x212A ∧ run.last = 0x212A ∨
      0x80 ≤ run.target ∧ (0x17F < run.target ∨ run.target + (run.last - run.first) < 0x17F) ∧
        (0x212A < run.target ∨ run.target + (run.last - run.first) < 0x212A) := by
  decide +kernel

theorem eq_kelvin_of_lower? {c : Char} {m : Nat}
    (hrun : lowerCaseRuns.findSome? (·.lower? c.toNat) = some m)
    (h : isHeaderChar (Char.ofNat m)) : c = '\u212A' := by
  obtain ⟨run, hmem, hlower⟩ := List.exists_of_findSome?_eq_some hrun
  obtain ⟨⟨hfirst, hlast, -⟩, hm⟩ := Option.ite_none_right_eq_some.mp hlower
  have hm := Option.some.inj hm
  rcases targets_lowerCaseRuns run hmem with hkelvin | htarget
  · apply Char.toNat_inj.mp
    have hcode : '\u212A'.toNat = 0x212A := by decide
    omega
  · have hn := toNat_of_isHeaderChar h
    by_cases hvalid : m.isValidChar
    · have hm' : (Char.ofNat m).toNat = m := by
        rw [Char.ofNat, dif_pos hvalid]
        rfl
      omega
    · rw [Char.ofNat, dif_neg hvalid] at h
      exact absurd h (by decide)

theorem isHeaderChar_of_lowerChar {c : Char} (h : ∀ d ∈ lowerChar c, isHeaderChar d) :
    isHeaderChar c := by
  by_cases hn : c.toNat < 0x80
  · rw [lowerChar, if_pos hn, List.forall_mem_singleton, (toLower_ascii hn).1] at h
    exact h
  · by_cases hdot : c.toNat = 0x130
    · rw [lowerChar, if_neg hn, if_pos hdot] at h
      exact absurd (h '\u0307' (by simp)) (by decide)
    · rw [lowerChar, if_neg hn, if_neg hdot, List.forall_mem_singleton] at h
      cases hrun : lowerCaseRuns.findSome? (·.lower? c.toNat) with
      | none => simpa [hrun] using h
      | some m =>
          rw [hrun] at h
          rw [eq_kelvin_of_lower? hrun h]
          decide

theorem lowerCaseAfter_eq_map {before t : Text} (h : ∀ c ∈ t, isHeaderChar c) :
    lowerCaseAfter before t = t.map small := by
  induction t generalizing before with
  | nil => rfl
  | cons c t ih =>
      have hc := h c List.mem_cons_self
      have hsigma : c ≠ 'Σ' := by
        rintro rfl
        exact absurd hc (by decide)
      rw [lowerCaseAfter, if_neg hsigma, lowerChar_of_isHeaderChar hc,
        ih fun d hd => h d (List.mem_cons_of_mem c hd)]
      rfl

theorem lowerCase_eq_map {t : Text} (h : ∀ c ∈ t, isHeaderChar c) :
    lowerCase t = t.map small :=
  lowerCaseAfter_eq_map h

theorem isHeaderChar_of_lowerCaseAfter {before t : Text}
    (h : ∀ d ∈ lowerCaseAfter before t, isHeaderChar d) : ∀ c ∈ t, isHeaderChar c := by
  induction t generalizing before with
  | nil => simp
  | cons c t ih =>
      rw [lowerCaseAfter, List.forall_mem_append] at h
      refine List.forall_mem_cons.mpr ⟨?_, ih h.2⟩
      by_cases hsigma : c = 'Σ'
      · rw [if_pos hsigma, List.forall_mem_singleton] at h
        have hnot : ¬ isHeaderChar 'ς' ∧ ¬ isHeaderChar 'σ' := by decide
        split_ifs at h
        · exact absurd h.1 hnot.1
        · exact absurd h.1 hnot.2
      · rw [if_neg hsigma] at h
        exact isHeaderChar_of_lowerChar h.1

/-! ## Keywords that can head a topic -/

/-- A keyword as it can stand before the colon of a header. -/
structure CanHead (keyword : Text) : Prop where
  chars : ∀ c ∈ keyword, isHeaderChar c
  last : ∃ c, keyword.getLast? = some c ∧ c ≠ ' '

/-- A spelling that differs in the case of letters only. -/
theorem CanHead.of_lowerCase_eq {keyword spelling : Text} (h : CanHead keyword)
    (heq : lowerCase spelling = lowerCase keyword) : CanHead spelling := by
  have hsmall : ∀ d ∈ lowerCase spelling, isHeaderChar d := by
    rw [heq, lowerCase_eq_map h.chars]
    intro d hd
    obtain ⟨c, hc, rfl⟩ := List.mem_map.mp hd
    exact (small_spec (h.chars c hc)).1
  have hchars := isHeaderChar_of_lowerCaseAfter hsmall
  refine ⟨hchars, ?_⟩
  rw [lowerCase_eq_map h.chars, lowerCase_eq_map hchars] at heq
  obtain ⟨c, hlast, hc⟩ := h.last
  have hends := congrArg List.getLast? heq
  rw [List.getLast?_map, List.getLast?_map, hlast] at hends
  obtain ⟨d, hd, hdc⟩ := Option.map_eq_some_iff.mp hends
  refine ⟨d, hd, fun hspace => hc ?_⟩
  have hc' := small_spec (h.chars c (List.mem_of_getLast? hlast))
  have hd' := small_spec (hchars d (List.mem_of_getLast? hd))
  exact hc'.2.2.mp (hdc ▸ hd'.2.2.mpr hspace)

theorem canHead_congr {keyword spelling : Text} (heq : lowerCase spelling = lowerCase keyword) :
    CanHead spelling ↔ CanHead keyword :=
  ⟨fun h => h.of_lowerCase_eq heq.symm, fun h => h.of_lowerCase_eq heq⟩

theorem normalForm_eq {keyword : Text} (h : ∀ c ∈ keyword, isHeaderChar c) :
    normalForm keyword = squeeze (lowerCase keyword) := by
  have hsqueezed : ∀ c ∈ squeeze keyword, isHeaderChar c := by
    intro c hc
    rcases mem_squeeze hc with rfl | hc
    · decide
    · exact h c hc
  rw [normalForm, lowerCase_eq_map hsqueezed, lowerCase_eq_map h,
    squeeze_map (by decide) fun c hc => (small_spec (h c hc)).2.1]

theorem squeeze_trimStart_isSpace (t : Text) : squeeze (trimStart isSpace t) = squeeze t := by
  induction t with
  | nil => rfl
  | cons c t ih =>
      rw [trimStart, List.dropWhile_cons]
      split_ifs with hc
      · have hblank : isBlank c := by
          rw [of_decide_eq_true hc]
          decide
        rw [← trimStart, ih, squeeze, squeeze, words_blank_cons hblank]
      · rfl

/-! ## Headers -/

/-- A title as it can stand behind the colon of a header. -/
structure IsTitle (t : Text) : Prop where
  nonempty : t ≠ []
  line : lineFeed ∉ t
  first : t.head? ≠ some ' '
  last : t.getLast? ≠ some ' '

theorem IsTitle.trimEnd_append {title : Text} (h : IsTitle title) (t : Text) :
    trimEnd isSpace (t ++ title) = t ++ title := by
  apply trimEnd_eq_self_iff.mpr
  intro c hc hspace
  rw [List.getLast?_append_of_ne_nil _ h.nonempty] at hc
  exact h.last (by rw [hc, of_decide_eq_true hspace])

theorem IsTitle.trim_eq {title : Text} (h : IsTitle title) : trim isSpace title = title := by
  have hstart : trimStart isSpace title = title := by
    cases title with
    | nil => rfl
    | cons c t =>
        have hc : ¬ isSpace c := by
          intro hspace
          exact h.first (by rw [List.head?_cons, of_decide_eq_true hspace])
        rw [trimStart, List.dropWhile_cons_of_neg hc]
  rw [trim, hstart]
  exact h.trimEnd_append []

theorem trimStart_append_colon (t rest : Text) :
    trimStart isSpace (t ++ ':' :: rest) = trimStart isSpace t ++ ':' :: rest := by
  induction t with
  | nil => rfl
  | cons c t ih =>
      simp only [trimStart, List.cons_append, List.dropWhile_cons] at ih ⊢
      split_ifs with hc
      · exact ih
      · rfl

section

variable {keyword title : Text}

theorem CanHead.getLast?_trimStart (h : CanHead keyword) :
    ∃ c, (trimStart isSpace keyword).getLast? = some c ∧ c ≠ ' ' := by
  obtain ⟨c, hlast, hc⟩ := h.last
  have hne : trimStart isSpace keyword ≠ [] := by
    intro hnil
    have hspace := List.dropWhile_eq_nil_iff.mp hnil c (List.mem_of_getLast? hlast)
    exact hc (of_decide_eq_true hspace)
  refine ⟨c, ?_, hc⟩
  have hsplit := List.takeWhile_append_dropWhile (p := isSpace) (l := keyword)
  rw [← hlast, ← List.getLast?_append_of_ne_nil (keyword.takeWhile isSpace) hne]
  exact congrArg List.getLast? hsplit

/-- The keyword of a header is found behind its indent. -/
theorem splitHeader?_append (h : CanHead keyword) {rest : Text} (hrest : lineFeed ∉ rest) :
    splitHeader? (keyword ++ ':' :: ' ' :: rest) =
      some (trimStart isSpace keyword, trim isSpace rest) := by
  obtain ⟨c, hlast, hc⟩ := h.getLast?_trimStart
  have hchars : ∀ c ∈ trimStart isSpace keyword, isHeaderChar c :=
    fun c hc => h.chars c ((List.dropWhile_suffix _).subset hc)
  have hcolon : ¬ isHeaderChar ':' := by decide
  have hne : trimStart isSpace keyword ≠ [] := by
    rintro hnil
    simp [hnil] at hlast
  simp only [splitHeader?, trimStart_append_colon, List.takeWhile_append_of_pos hchars,
    List.dropWhile_append_of_pos hchars, List.takeWhile_cons_of_neg hcolon,
    List.dropWhile_cons_of_neg hcolon, List.append_nil]
  rw [if_neg]
  simp [hne, hlast, hc, hrest]

theorem trim_ne_of_colon (htitle : IsTitle title) (t : Text) :
    trim isSpace (t ++ ':' :: ' ' :: title) ≠ title := by
  intro h
  have hlength := congrArg List.length h
  have hcut : trimStart isSpace t ++ ':' :: ' ' :: title =
      (trimStart isSpace t ++ [':', ' ']) ++ title := by simp
  rw [trim, trimStart_append_colon, hcut, htitle.trimEnd_append] at hlength
  simp only [List.length_append, List.length_cons] at hlength
  omega

/-- A line that is cut with the same title is cut at the same colon: at one before that the title
would hold a colon more, and at one behind it the keyword would. -/
theorem eq_of_cut (htitle : IsTitle title) {before rest : Text} (hbefore : ':' ∉ before)
    (hcut : before ++ ':' :: ' ' :: rest = keyword ++ ':' :: ' ' :: title)
    (hrest : trim isSpace rest = title) : keyword = before := by
  rcases List.append_eq_append_iff.mp hcut with ⟨more, hkeyword, hmore⟩ | ⟨more, hline, hmore⟩
  · match more with
    | [] => simpa using hkeyword
    | [c] => simp at hmore
    | c :: d :: more =>
        simp only [List.cons_append, List.cons.injEq] at hmore
        rw [hmore.2.2] at hrest
        exact absurd hrest (trim_ne_of_colon htitle more)
  · cases more with
    | nil => simpa using hline.symm
    | cons c more =>
        simp only [List.cons_append, List.cons.injEq] at hmore
        simp [hline, ← hmore.1] at hbefore

/-- The pieces that a header is cut into. -/
theorem exists_of_splitHeader? {line own : Text} (h : splitHeader? line = some (own, title)) :
    ∃ indent rest, line = (indent ++ own) ++ ':' :: ' ' :: rest ∧ (∀ c ∈ indent, isSpace c) ∧
      (∀ c ∈ own, isHeaderChar c) ∧ own ≠ [] ∧ own.getLast? ≠ some ' ' ∧
        trim isSpace rest = title := by
  simp only [splitHeader?] at h
  split at h
  · next rest hrest =>
      obtain ⟨hvalid, h⟩ := Option.ite_none_left_eq_some.mp h
      obtain ⟨rfl, htrim⟩ := Prod.mk.inj (Option.some.inj h)
      simp only [not_or] at hvalid
      refine ⟨line.takeWhile isSpace, rest, ?_, ?_, ?_, hvalid.1, hvalid.2.1, htrim⟩
      · rw [List.append_assoc, ← hrest, List.takeWhile_append_dropWhile]
        exact List.takeWhile_append_dropWhile.symm
      · exact fun c hc => List.mem_takeWhile_imp hc
      · exact fun c hc => List.mem_takeWhile_imp hc
  · cases h

theorem canHead_of_splitHeader? (htitle : IsTitle title) {own : Text}
    (h : splitHeader? (keyword ++ ':' :: ' ' :: title) = some (own, title)) : CanHead keyword := by
  obtain ⟨indent, rest, hline, hindent, hown, hne, hlast, htrim⟩ := exists_of_splitHeader? h
  have hchars : ∀ c ∈ indent ++ own, isHeaderChar c := by
    refine List.forall_mem_append.mpr ⟨?_, hown⟩
    intro c hc
    simp [isHeaderChar, hindent c hc]
  have hcolon : ':' ∉ indent ++ own := fun hmem => absurd (hchars ':' hmem) (by decide)
  rw [eq_of_cut htitle hcolon hline.symm htrim]
  obtain ⟨c, hc⟩ := Option.ne_none_iff_exists'.mp (mt List.getLast?_eq_none_iff.mp hne)
  refine ⟨hchars, c, ?_, ?_⟩
  · rw [List.getLast?_append_of_ne_nil _ hne, hc]
  · rintro rfl
    exact hlast hc

end

/-- A keyword heads a topic, in any case, if it consists of letters from a to z, digits and spaces
and does not end with a space. No other keyword does, whatever the table holds. -/
theorem header?_insert_iff (table : KeywordTable) (kind : TopicKind)
    {keyword spelling title : Text} (hspelling : lowerCase spelling = lowerCase keyword)
    (htitle : IsTitle title) :
    (table.insert keyword kind).header? (spelling ++ ':' :: ' ' :: title) = some ⟨kind, title⟩ ↔
      CanHead keyword := by
  rw [← canHead_congr hspelling]
  constructor
  · intro h
    rw [header?] at h
    split at h
    · cases h
    · next t title' hsplit =>
        obtain ⟨-, h⟩ := Option.ite_none_left_eq_some.mp h
        obtain ⟨kind', -, heq⟩ := Option.map_eq_some_iff.mp h
        cases heq
        exact canHead_of_splitHeader? htitle hsplit
  · intro h
    have hkeyword : CanHead keyword := (canHead_congr hspelling).mp h
    have hnormal : normalForm (trimStart isSpace spelling) = normalForm keyword := by
      rw [normalForm, squeeze_trimStart_isSpace, ← normalForm, normalForm_eq h.chars, hspelling,
        ← normalForm_eq hkeyword.chars]
    rw [header?, splitHeader?_append h htitle.line, htitle.trim_eq]
    simp [htitle.nonempty, kind?, insert, Table.insert, Table.get?_upsert, hnormal]

theorem header?_insert_shouted :
    (empty.insert "my rule".toList (.single .genericType)).header?
        ("My RULE".toList ++ ':' :: ' ' :: "A title".toList) =
      some ⟨.single .genericType, "A title".toList⟩ :=
  (header?_insert_iff empty _ (by decide)
    ⟨by decide, by decide, by decide, by decide⟩).mpr
    ⟨List.all_eq_true.mp (by decide), 'e', by decide, by decide⟩

/-- Not every keyword that a table takes can head a topic. -/
theorem not_header?_insert :
    ¬ ∀ (table : KeywordTable) (keyword : Text) (kind : TopicKind) (title : Text),
      (∃ c ∈ keyword, c ≠ ' ') → IsTitle title →
        (table.insert keyword kind).header? (keyword ++ ':' :: ' ' :: title) =
          some ⟨kind, title⟩ := by
  intro h
  have haccented := h empty "é".toList (.single .functionType) "T".toList
    ⟨'é', by decide, by decide⟩
    ⟨by decide, by decide, by decide, by decide⟩
  revert haccented
  decide

end Commentary.KeywordTable
