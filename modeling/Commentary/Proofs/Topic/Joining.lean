import Commentary.Proofs.Topic.Verbatim

/-!
# One comment and two comments

Where a comment goes on behind a blank line with the header of a further topic, it might as well end
there and a second comment begin. Cutting goes on behind the seam as it would start, and the blank
line at the end of the body before it is not seen in any block, unless a verbatim section is open.
-/

namespace Commentary

open Verbatim

/-! ## A blank line behind a body -/

namespace Markup

variable {kind : TopicKind} {body : List Text}

/-- The block that is open at the end is the same with a blank line behind it. -/
theorem Reader.blocks_blank {r : Reader} (h : r.current.isVerbatim = false) :
    r.blocks kind [[]] = r.blocks kind [] := by
  obtain ⟨current, afterBlank, describesParameters⟩ := r
  cases current with
  | none => rfl
  | paragraph t => rfl
  | bullets done last => rfl
  | entries done last => rfl
  | marked lines thenBlank => cases thenBlank <;> rfl
  | verbatim lines => cases h

theorem formatBody_append_blank (h : Verbatim.after false body = false) :
    formatBody kind (body ++ [[]]) = formatBody kind body := by
  have hreader : (Reader.after kind {} body).current.isVerbatim = false := by
    rw [Reader.isVerbatim_after]
    exact h
  have hblocks : Block.ofLines kind (body ++ [[]]) = Block.ofLines kind (body ++ []) := by
    rw [Block.ofLines, Block.ofLines, Reader.blocks_append, Reader.blocks_append,
      Reader.blocks_blank hreader]
  rw [formatBody, hblocks, List.append_nil]
  rfl

end Markup

/-! ## Cutting at a seam -/

namespace Section

/-- The sections with some more lines in the body of the last one. -/
def extendLast (more : List Text) : List Section → List Section
  | [] => []
  | [s] => [{ s with body := s.body ++ more }]
  | s :: sections => s :: extendLast more sections

variable {keywords : KeywordTable} {p : Place} {context : Context}

/-- The lines behind a seam are cut from the place that the lines before it lead to. Those before
their first header belong to the last section before the seam. -/
theorem split_append (keywords : KeywordTable) (p : Place) (before behind : List (Nat × Text)) :
    let here := split keywords p before
    let there := split keywords (p.after keywords before) behind
    split keywords p (before ++ behind) =
      (if here.2 = [] then here.1 ++ there.1 else here.1,
        extendLast there.1 here.2 ++ there.2) := by
  induction before generalizing p with
  | nil => rfl
  | cons line before ih =>
      obtain ⟨number, t⟩ := line
      dsimp only at ih ⊢
      cases h : p.header? keywords t with
      | some header =>
          have hafter : p.after keywords ((number, t) :: before) =
              Place.afterText.after keywords before := by simp [Place.after, h]
          rw [List.cons_append, split_cons_of_header h, split_cons_of_header h, ih, hafter]
          cases (split keywords .afterText before).2 <;> rfl
      | none =>
          have hafter : p.after keywords ((number, t) :: before) =
              (p.next t).after keywords before := by simp [Place.after, h]
          rw [List.cons_append, split_cons_of_none h, split_cons_of_none h, ih, hafter]
          cases (split keywords (p.next t) before).2 <;> rfl

theorem fst_split_eq_map_snd {lines : List (Nat × Text)} (h : (split keywords p lines).2 = []) :
    (split keywords p lines).1 = lines.map Prod.snd := by
  induction lines generalizing p with
  | nil => rfl
  | cons line lines ih =>
      obtain ⟨number, t⟩ := line
      cases hheader : p.header? keywords t with
      | some header =>
          rw [split_cons_of_header hheader] at h
          cases h
      | none =>
          rw [split_cons_of_none hheader] at h ⊢
          exact congrArg (t :: ·) (ih h)

/-- A verbatim section is open behind the last body if it is open behind all lines. -/
theorem after_body_of_getLast? {inSection afterBlank : Bool} (hp : p.Tracked inSection afterBlank)
    {lines : List (Nat × Text)} {s : Section} (h : (split keywords p lines).2.getLast? = some s) :
    Verbatim.after false s.body = Verbatim.after inSection (lines.map Prod.snd) := by
  induction lines generalizing p inSection afterBlank with
  | nil => cases h
  | cons line lines ih =>
      obtain ⟨number, t⟩ := line
      rw [List.map_cons, after_cons]
      cases hheader : p.header? keywords t with
      | some header =>
          rw [split_cons_of_header hheader, List.getLast?_cons] at h
          have htracked := hp.header hheader
          cases hlast : (split keywords .afterText lines).2.getLast? with
          | some last =>
              rw [hlast] at h
              cases h
              exact ih htracked hlast
          | none =>
              rw [hlast] at h
              cases h
              -- The header opens the last section, and the section has all lines behind it.
              have hsection : Verbatim.step inSection t = false := by
                rw [← Bool.not_eq_true, htracked.inSection_iff]
                exact Place.noConfusion
              rw [hsection]
              exact congrArg _ (fst_split_eq_map_snd (List.getLast?_eq_none_iff.mp hlast))
      | none =>
          rw [split_cons_of_none hheader] at h
          exact ih (hp.next t) h

theorem topics_append (context : Context) (before behind : List Section) :
    let here := topics context before
    let there := topics here.2 behind
    topics context (before ++ behind) = (here.1 ++ there.1, there.2) := by
  induction before generalizing context with
  | nil => rfl
  | cons s before ih =>
      simp only [List.cons_append, topics]
      rw [ih]

theorem topic_congr_body (context : Context) {s : Section} {body : List Text}
    (h : Markup.formatBody s.header.kind body = Markup.formatBody s.header.kind s.body) :
    topic { s with body } context = s.topic context := by
  rw [topic, topic, h]
  rfl

/-- Lines that are not seen in the last body are not seen in the topics. -/
theorem topics_extendLast {more : List Text} {sections : List Section}
    (h : ∀ s, sections.getLast? = some s →
      Markup.formatBody s.header.kind (s.body ++ more) = Markup.formatBody s.header.kind s.body) :
    topics context (extendLast more sections) = topics context sections := by
  induction sections generalizing context with
  | nil => rfl
  | cons s sections ih =>
      cases sections with
      | nil =>
          have hs := topic_congr_body context (h s rfl)
          simp only [extendLast, topics, hs]
          rfl
      | cons t sections =>
          rw [List.getLast?_cons_cons] at h
          simp only [extendLast, topics] at ih ⊢
          rw [ih h]

/-- Lines with their numbers, where the first one has a given number. -/
def numberFrom (first : Nat) (lines : List Text) : List (Nat × Text) :=
  (lines.zipIdx first).map Prod.swap

theorem map_snd_numberFrom (first : Nat) (lines : List Text) :
    (numberFrom first lines).map Prod.snd = lines := by
  rw [numberFrom, List.map_map]
  exact List.zipIdx_map_fst first lines

theorem numberFrom_append (first : Nat) (before behind : List Text) :
    numberFrom first (before ++ behind) =
      numberFrom first before ++ numberFrom (first + before.length) behind := by
  rw [numberFrom, List.zipIdx_append, List.map_append]
  rfl

/-- Behind lines that leave no verbatim section open, a blank line makes room for a header. -/
theorem next_nil_after {lines : List (Nat × Text)}
    (h : Verbatim.after false (lines.map Prod.snd) = false) :
    (Place.afterBlank.after keywords lines).next [] = .afterBlank := by
  obtain ⟨_, htracked⟩ := Place.Tracked.start.after keywords lines
  rw [h] at htracked
  cases hplace : Place.afterBlank.after keywords lines with
  | insideVerbatim =>
      rw [hplace] at htracked
      exact absurd (htracked.inSection_iff.mpr rfl) Bool.false_ne_true
  | _ => rfl

/-- Where a header stands behind a blank line, the lines are cut as if they were two comments. Only
the last body before the header keeps the blank line. -/
theorem ofLines_append_blank {before : List (Nat × Text)} (seam number : Nat) {line : Text}
    {header : Header} (behind : List (Nat × Text))
    (hbefore : Verbatim.after false (before.map Prod.snd) = false)
    (hheader : keywords.header? line = some header) :
    ofLines keywords (before ++ (seam, []) :: (number, line) :: behind) =
      extendLast [[]] (ofLines keywords before) ++
        ofLines keywords ((number, line) :: behind) := by
  have hplace : Place.afterBlank.header? keywords line = some header :=
    (if_pos ⟨rfl, by simp [isStart_eq_false_of_header? hheader]⟩).trans hheader
  rw [ofLines, split_append, split_cons_of_none (Place.header?_nil _ _), next_nil_after hbefore,
    split_cons_of_header hplace, ofLines, ofLines, split_cons_of_header hplace]

end Section

/-! ## Topics on both sides of a seam -/

namespace Topic

open Section

theorem ofComment_none (keywords : KeywordTable) (context : Context) (lines : List (Nat × Text)) :
    ofComment keywords context lines none = topics context (ofLines keywords lines) := by
  rw [ofComment_eq]
  rcases topics context (ofLines keywords lines) with ⟨- | ⟨t, - | ⟨u, more⟩⟩, after⟩ <;> rfl

/-- Documented items may share a comment or stand in two that follow each other: if no verbatim
section is open before a blank line and a header stands behind it, the topics of all lines are those
of the lines before, and then those of the lines behind in the context that the former leave. They
are the same in every field, and so is the context at the end. -/
theorem ofComment_append_blank (keywords : KeywordTable) (context : Context) (first : Nat)
    {before behind : List Text} (hbefore : Verbatim.after false before = false)
    (hbehind : (behind.head?.bind keywords.header?).isSome) :
    let found := ofComment keywords context (numberFrom first before) none
    let more := ofComment keywords found.2 (numberFrom (first + before.length + 1) behind) none
    ofComment keywords context (numberFrom first (before ++ [] :: behind)) none =
      (found.1 ++ more.1, more.2) := by
  intro found more
  cases behind with
  | nil => cases hbehind
  | cons line behind =>
      obtain ⟨header, hheader⟩ := Option.isSome_iff_exists.mp hbehind
      let lines := numberFrom first before
      have hsection : Verbatim.after false (lines.map Prod.snd) = false :=
        (map_snd_numberFrom first before).symm ▸ hbefore
      -- The blank line at the end of the last body is not seen.
      have hlast : ∀ s, (ofLines keywords lines).getLast? = some s →
          Markup.formatBody s.header.kind (s.body ++ [[]]) =
            Markup.formatBody s.header.kind s.body := fun s hs =>
        Markup.formatBody_append_blank
          ((after_body_of_getLast? Place.Tracked.start hs).trans hsection)
      have hcut := ofLines_append_blank (first + before.length) (first + before.length + 1)
        (numberFrom (first + before.length + 1 + 1) behind) hsection hheader
      calc ofComment keywords context (numberFrom first (before ++ [] :: line :: behind)) none
        _ = topics context (extendLast [[]] (ofLines keywords lines) ++
              ofLines keywords (numberFrom (first + before.length + 1) (line :: behind))) := by
          rw [ofComment_none, numberFrom_append]
          exact congrArg (topics context) hcut
        _ = (found.1 ++ more.1, more.2) := by
          rw [topics_append, topics_extendLast hlast, ← ofComment_none, ← ofComment_none]

/-- A class and a function of it that share a comment. -/
theorem ofComment_append_blank_class :
    let keywords := (KeywordTable.empty.insert "class".toList (.single .classType)).insert
      "function".toList (.single .functionType)
    let before := ["Class: Dog".toList, [], "> x".toList]
    let behind := ["Function: Bark".toList]
    let found := ofComment keywords {} (numberFrom 1 before) none
    let more := ofComment keywords found.2 (numberFrom 5 behind) none
    Verbatim.after false before = false ∧ (behind.head?.bind keywords.header?).isSome ∧
      more.1.map (fun t => (t.line, t.symbol)) = [(5, "Dog.Bark".toList)] ∧
      ofComment keywords {} (numberFrom 1 (before ++ [] :: behind)) none =
        (found.1 ++ more.1, more.2) := by
  intro keywords before behind found more
  have hbefore : Verbatim.after false before = false := by decide +kernel
  have hbehind : (behind.head?.bind keywords.header?).isSome := by decide +kernel
  exact ⟨hbefore, hbehind, by decide +kernel,
    ofComment_append_blank keywords {} 1 hbefore hbehind⟩

end Topic

end Commentary
