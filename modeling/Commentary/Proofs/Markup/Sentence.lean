import Commentary.Proofs.Markup.Query
import Commentary.Proofs.Markup.Span
import Commentary.Proofs.Text.Parts

/-!
# Summaries as markup

The first sentence is cut out of finished markup, and the search for its end takes no notice of
tags. It passes over a tag unless the value of an attribute holds the end of a sentence, and then
the summary ends inside of the tag. Otherwise it ends between two tokens, where spans may still be
open.
-/

namespace Commentary.Markup

variable {r s x y : Text} {tokens : List Token}

/-! ## Sentences of tokens -/

/-- A mark that a sentence may end with. -/
def IsStop (c : Char) : Prop := c = '.' ∨ c = '!' ∨ c = '?'

instance : DecidablePred IsStop := fun c =>
  inferInstanceAs (Decidable (c = '.' ∨ c = '!' ∨ c = '?'))

/-- The second character makes the first one the end of a sentence. -/
def EndsSentence (c d : Char) : Prop :=
  IsStop c ∧ (d = ')' ∨ d = '\x7d' ∨ d = '\'' ∨ d = ' ' ∨ d = '"' ∨ d = '>')

instance (c d : Char) : Decidable (EndsSentence c d) :=
  inferInstanceAs (Decidable (_ ∧ (_ ∨ _ ∨ _ ∨ _ ∨ _ ∨ _)))

/-- The character that makes a character before it the end of a sentence. -/
def closer? (c : Char) : List Token → Option Char
  | .char d :: _ => if EndsSentence c d then some d else none
  | _ => none

/-- Whether a sentence ends in a text. -/
def holdsEnd : Text → Bool
  | [] => false
  | c :: t => (closer? c (chars t)).isSome || holdsEnd t

/-- Whether a sentence ends in the value of an attribute. -/
def Tag.holdsEnd (t : Tag) : Bool := t.attributes.any fun a => Markup.holdsEnd a.2

/-- The tokens of the first sentence, or all of them. There are none if it ends inside of a tag. -/
def sentence? : List Token → Option (List Token)
  | [] => some []
  | .tag t :: tokens => if t.holdsEnd then none else (sentence? tokens).map (.tag t :: ·)
  | .char c :: tokens =>
    match closer? c tokens with
    | some d => some [.char c, .char d]
    | none => (sentence? tokens).map (.char c :: ·)

/-! ## Looking for the end of a sentence -/

theorem sentenceEnd?_of_not_isStop {c : Char} (h : ¬ IsStop c) (t : Text) :
    sentenceEnd? (c :: t) = none := if_neg h

theorem sentenceEnd?_of_isStop {c : Char} (h : IsStop c) (d : Char) (t : Text) :
    sentenceEnd? (c :: d :: t) =
      if d = ')' ∨ d = '\x7d' ∨ d = '\'' ∨ d = ' ' then some [c, d]
      else if (Text.afterStart? "&quot;".toList (d :: t)).isSome then
        some (c :: "&quot;".toList)
      else if (Text.afterStart? "&gt;".toList (d :: t)).isSome then some (c :: "&gt;".toList)
      else none := if_pos h

theorem isSome_afterStart?_append {m : Char} {mark : Text} (hm : m ∉ mark) (x y : Text) :
    (Text.afterStart? mark (x ++ m :: y)).isSome = (Text.afterStart? mark x).isSome := by
  induction mark generalizing x with
  | nil => cases x <;> rfl
  | cons e mark ih =>
      obtain ⟨he, hmark⟩ := not_or.mp (mt List.mem_cons.mpr hm)
      cases x with
      | nil => exact congrArg Option.isSome (if_neg (Ne.symm he))
      | cons c x =>
          rw [List.cons_append, Text.afterStart?, Text.afterStart?]
          split_ifs
          · exact ih hmark x
          · rfl

/-- The marks of tags end no sentence. -/
theorem sentenceEnd?_append {m : Char} (hm : IsMarkup m) (x y : Text) :
    sentenceEnd? (x ++ m :: y) = sentenceEnd? x := by
  cases x with
  | nil => exact sentenceEnd?_of_not_isStop (by rcases hm with rfl | rfl | rfl <;> decide) y
  | cons c x =>
      have hquot : (Text.afterStart? "&quot;".toList (x ++ m :: y)).isSome =
          (Text.afterStart? "&quot;".toList x).isSome :=
        isSome_afterStart?_append (by rcases hm with rfl | rfl | rfl <;> decide) x y
      have hgt : (Text.afterStart? "&gt;".toList (x ++ m :: y)).isSome =
          (Text.afterStart? "&gt;".toList x).isSome :=
        isSome_afterStart?_append (by rcases hm with rfl | rfl | rfl <;> decide) x y
      cases x with
      | nil => rcases hm with rfl | rfl | rfl <;> rfl
      | cons d x =>
          rw [List.cons_append] at hquot hgt
          simp only [List.cons_append, sentenceEnd?, hquot, hgt]

/-- A character closes a sentence as it is written, be it by itself or as an entity. -/
theorem sentenceEnd?_escapeChar {c : Char} (hc : IsStop c) (d : Char) (y : Text) :
    sentenceEnd? (c :: (escapeChar d ++ y)) =
      if EndsSentence c d then some (c :: escapeChar d) else none := by
  obtain ⟨rfl, he⟩ | ⟨rfl, he⟩ | ⟨rfl, he⟩ | ⟨rfl, he⟩ | ⟨hamp, hd, he⟩ := escapeChar_cases d
  · rw [he, if_neg (by simp [EndsSentence])]
    exact (sentenceEnd?_of_isStop hc _ _).trans rfl
  · rw [he, if_neg (by simp [EndsSentence])]
    exact (sentenceEnd?_of_isStop hc _ _).trans rfl
  · rw [he, if_pos (by simp [EndsSentence, hc])]
    exact (sentenceEnd?_of_isStop hc _ _).trans rfl
  · rw [he, if_pos (by simp [EndsSentence, hc])]
    exact (sentenceEnd?_of_isStop hc _ _).trans rfl
  · have hentity : ∀ mark : Text, Text.afterStart? ('&' :: mark) (d :: y) = none :=
      fun mark => if_neg (Ne.symm hamp)
    have hquot : Text.afterStart? "&quot;".toList (d :: y) = none := hentity _
    have hgt : Text.afterStart? "&gt;".toList (d :: y) = none := hentity _
    have hclosers : EndsSentence c d ↔ d = ')' ∨ d = '\x7d' ∨ d = '\'' ∨ d = ' ' := by
      have hmarks : d ≠ '"' ∧ d ≠ '>' :=
        ⟨fun e => hd (.inr (.inr e)), fun e => hd (.inr (.inl e))⟩
      simp [EndsSentence, hc, hmarks]
    rw [he, List.singleton_append, sentenceEnd?_of_isStop hc, hquot, hgt]
    simp only [hclosers, Option.isSome_none, Bool.false_eq_true, if_false]

/-- The end of a sentence is found where the tokens have it. -/
theorem sentenceEnd?_render (c : Char) (tokens : List Token) :
    sentenceEnd? (c :: tokens.flatMap Token.render) =
      (closer? c tokens).map fun d => c :: escapeChar d := by
  by_cases hc : IsStop c
  · rcases tokens with _ | ⟨d | t, tokens⟩
    · exact if_pos hc
    · rw [List.flatMap_cons, Token.render, sentenceEnd?_escapeChar hc, closer?]
      split_ifs <;> rfl
    · exact (if_pos hc).trans rfl
  · rw [sentenceEnd?_of_not_isStop hc]
    rcases tokens with _ | ⟨d | t, tokens⟩
    · rfl
    · rw [closer?, if_neg fun h => hc h.1]
      rfl
    · rfl

theorem exists_of_firstSentence?_cons {c : Char} (h : sentenceEnd? (c :: y) = none)
    (hr : firstSentence? (c :: y) = some r) : ∃ r', r = c :: r' ∧ firstSentence? y = some r' := by
  simp only [firstSentence?, h] at hr
  obtain ⟨-, hr⟩ := Option.ite_none_left_eq_some.mp hr
  obtain ⟨r', hr', rfl⟩ := Option.map_eq_some_iff.mp hr
  exact ⟨r', rfl, hr'⟩

theorem exists_of_firstSentence?_append (h : ∀ c ∈ x, ¬ IsStop c)
    (hr : firstSentence? (x ++ y) = some r) : ∃ r', r = x ++ r' ∧ firstSentence? y = some r' := by
  induction x generalizing r with
  | nil => exact ⟨r, rfl, hr⟩
  | cons c x ih =>
      obtain ⟨hc, hx⟩ := List.forall_mem_cons.mp h
      obtain ⟨r₁, rfl, hr₁⟩ := exists_of_firstSentence?_cons (sentenceEnd?_of_not_isStop hc _) hr
      obtain ⟨r₂, rfl, hr₂⟩ := ih hx hr₁
      exact ⟨r₂, rfl, hr₂⟩

/-- A stop is written as itself, and no other character is written with one. -/
theorem escapeChar_eq_or (c : Char) : escapeChar c = [c] ∨ ∀ d ∈ escapeChar c, ¬ IsStop d := by
  obtain ⟨-, he⟩ | ⟨-, he⟩ | ⟨-, he⟩ | ⟨-, he⟩ | ⟨-, -, he⟩ := escapeChar_cases c
  · exact .inr (by rw [he]; simp [IsStop])
  · exact .inr (by rw [he]; simp [IsStop])
  · exact .inr (by rw [he]; simp [IsStop])
  · exact .inr (by rw [he]; simp [IsStop])
  · exact .inl he

/-- A character is passed over where no sentence ends. -/
theorem exists_of_firstSentence?_escapeChar {c : Char} (h : sentenceEnd? (c :: y) = none)
    (hr : firstSentence? (escapeChar c ++ y) = some r) :
    ∃ r', r = escapeChar c ++ r' ∧ firstSentence? y = some r' := by
  rcases escapeChar_eq_or c with hc | hc
  · rw [hc] at hr ⊢
    exact exists_of_firstSentence?_cons h hr
  · exact exists_of_firstSentence?_append hc hr

theorem eq_cons_of_closer? {c d : Char} (h : closer? c tokens = some d) :
    EndsSentence c d ∧ ∃ rest, tokens = .char d :: rest := by
  rcases tokens with _ | ⟨d' | t, tokens⟩
  · cases h
  · obtain ⟨hends, hd⟩ := Option.ite_none_right_eq_some.mp h
    cases hd
    exact ⟨hends, tokens, rfl⟩
  · cases h

theorem firstSentence?_of_closer? {c d : Char} (hd : closer? c tokens = some d)
    (h : sentenceEnd? (c :: y) = (closer? c tokens).map fun d => c :: escapeChar d) :
    firstSentence? (escapeChar c ++ y) = some (escapeChar c ++ escapeChar d) := by
  have hc : escapeChar c = [c] := by
    rcases (eq_cons_of_closer? hd).1.1 with rfl | rfl | rfl <;> rfl
  rw [hc, List.singleton_append, firstSentence?, h, hd]
  rfl

/-- In the value of an attribute, a sentence ends where one ends in what the value stands for. -/
theorem firstSentence?_escape {m : Char} (hm : IsMarkup m) (v : Text)
    (hr : firstSentence? (escape v ++ m :: y) = some r) :
    if holdsEnd v then r <+: escape v
    else ∃ r', r = escape v ++ r' ∧ firstSentence? (m :: y) = some r' := by
  induction v generalizing r with
  | nil => exact ⟨r, rfl, hr⟩
  | cons c v ih =>
      -- What stands behind the value closes no sentence, so the value is read as if it were alone.
      have hend : sentenceEnd? (c :: (escape v ++ m :: y)) =
          (closer? c (chars v)).map fun d => c :: escapeChar d := by
        rw [← List.cons_append, sentenceEnd?_append hm, ← render_chars, sentenceEnd?_render]
      rw [escape_cons, List.append_assoc] at hr
      rw [holdsEnd, escape_cons]
      cases hcloser : closer? c (chars v) with
      | some d =>
          rw [firstSentence?_of_closer? hcloser hend] at hr
          cases hr
          obtain ⟨-, rest, hv⟩ := eq_cons_of_closer? hcloser
          rw [← render_chars, hv]
          exact (List.prefix_append_right_inj _).mpr (List.prefix_append _ _)
      | none =>
          rw [hcloser] at hend
          obtain ⟨r₁, rfl, hr₁⟩ := exists_of_firstSentence?_escapeChar hend hr
          have hv := ih hr₁
          rw [Option.isSome_none, Bool.false_or]
          split_ifs at hv ⊢
          · exact (List.prefix_append_right_inj _).mpr hv
          · obtain ⟨r₂, rfl, hr₂⟩ := hv
            exact ⟨r₂, (List.append_assoc _ _ _).symm, hr₂⟩

/-! ## The first sentence of what is written -/

/-- A text ends inside of the value of an attribute. -/
def EndsInValue (t : Text) : Prop :=
  ∃ tokens tag key seen, Place.text.run? t = some (tokens, .value tag key seen)

/-- The search passes over attributes, unless the value of one holds the end of a sentence. -/
theorem firstSentence?_attributes {place : Place} {tag : Tag} (h : place.Holds tag)
    (attributes : List (AttributeName × Text))
    (hr : firstSentence? (attributes.flatMap renderAttribute ++ y) = some r) :
    if attributes.any fun a => holdsEnd a.2 then
      ∃ tag' key seen, place.run? r = some ([], .value tag' key seen)
    else ∃ r', r = attributes.flatMap renderAttribute ++ r' ∧ firstSentence? y = some r' := by
  induction attributes generalizing place tag r with
  | nil => exact ⟨r, rfl, hr⟩
  | cons a attributes ih =>
      obtain ⟨key, v⟩ := a
      have hstart : ∀ c ∈ ' ' :: (key.text ++ ['=', '"']), ¬ IsStop c := by
        cases key <;> simp [AttributeName.text, IsStop]
      have hsplit : ∀ z, renderAttribute (key, v) ++ z =
          (' ' :: (key.text ++ ['=', '"'])) ++ (escape v ++ '"' :: z) := by
        simp [renderAttribute]
      rw [List.flatMap_cons, List.append_assoc, hsplit] at hr
      obtain ⟨r₁, rfl, hr₁⟩ := exists_of_firstSentence?_append hstart hr
      have hv := firstSentence?_escape (.inr (.inr rfl)) v hr₁
      rw [List.any_cons]
      by_cases hends : holdsEnd v
      · rw [if_pos hends] at hv
        rw [if_pos (by simp [hends])]
        refine ⟨tag, key, r₁, ?_⟩
        have hvalue := Place.run?_value tag key
          (fun c hc => not_isMarkup_of_mem_escape (hv.subset hc)) []
        rw [List.cons_append, Place.run?_cons h.space,
          Place.run?_append (Place.run?_attributeName tag key), hvalue]
        rfl
      · rw [if_neg hends] at hv
        obtain ⟨r₂, rfl, hr₂⟩ := hv
        obtain ⟨r₃, rfl, hr₃⟩ := exists_of_firstSentence?_cons
          (sentenceEnd?_of_not_isStop (by decide) _) hr₂
        have hbehind := Place.holds_behind { tag with attributes := tag.attributes ++ [(key, v)] }
        have hrest := ih hbehind hr₃
        rw [← hsplit, Bool.eq_false_iff.mpr hends, Bool.false_or]
        split_ifs at hrest ⊢
        · obtain ⟨tag', key', seen, hrun⟩ := hrest
          exact ⟨tag', key', seen, by rw [Place.run?_append (h.run?_attribute (key, v)), hrun]; rfl⟩
        · obtain ⟨r₄, rfl, hr₄⟩ := hrest
          exact ⟨r₄, by rw [List.flatMap_cons, List.append_assoc], hr₄⟩

/-- The search passes over a tag, unless an attribute holds the end of a sentence. -/
theorem firstSentence?_tag (t : Tag) (hr : firstSentence? (t.render ++ y) = some r) :
    if t.holdsEnd then ∃ tag key seen, Place.text.run? r = some ([], .value tag key seen)
    else ∃ r', r = t.render ++ r' ∧ firstSentence? y = some r' := by
  obtain ⟨closing, name, attributes⟩ := t
  have hstart : ∀ c ∈ '<' :: ((if closing then ['/'] else []) ++ name.text), ¬ IsStop c := by
    cases closing <;> cases name <;> simp [TagName.text, IsStop]
  have hsplit : ∀ z, Tag.render ⟨closing, name, attributes⟩ ++ z =
      ('<' :: ((if closing then ['/'] else []) ++ name.text)) ++
        (attributes.flatMap renderAttribute ++ '>' :: z) := by
    simp [Tag.render]
  rw [hsplit] at hr
  obtain ⟨r₁, rfl, hr₁⟩ := exists_of_firstSentence?_append hstart hr
  have hrest := firstSentence?_attributes (Place.holds_tagName closing name) attributes hr₁
  by_cases hends : attributes.any fun a => holdsEnd a.2
  · rw [if_pos hends] at hrest
    obtain ⟨tag, key, seen, hrun⟩ := hrest
    refine (if_pos hends).mpr ⟨tag, key, seen, ?_⟩
    rw [Place.run?_append (Place.run?_tagStart closing name), hrun]
    rfl
  · rw [if_neg hends] at hrest
    obtain ⟨r₂, rfl, hr₂⟩ := hrest
    obtain ⟨r₃, rfl, hr₃⟩ := exists_of_firstSentence?_cons
      (sentenceEnd?_of_not_isStop (by decide) _) hr₂
    exact (if_neg hends).mpr ⟨r₃, (hsplit r₃).symm, hr₃⟩

/-- A reader that has read tokens goes on as from the start. -/
theorem EndsInValue.append (h : Place.text.run? x = some (tokens, .text)) (hr : EndsInValue r) :
    EndsInValue (x ++ r) := by
  obtain ⟨more, tag, key, seen, hrun⟩ := hr
  exact ⟨tokens ++ more, tag, key, seen, by rw [Place.run?_append h, hrun]; rfl⟩

/-- The first sentence of what is written is written with the tokens of the sentence, or it ends
inside of a tag. -/
theorem firstSentence?_render (hr : firstSentence? (tokens.flatMap Token.render) = some r) :
    match sentence? tokens with
    | some sentence => r = sentence.flatMap Token.render
    | none => EndsInValue r := by
  induction tokens generalizing r with
  | nil => exact (Option.some.inj hr).symm
  | cons token tokens ih =>
      rw [List.flatMap_cons] at hr
      cases token with
      | char c =>
          have hend := sentenceEnd?_render c tokens
          rw [sentence?]
          cases hcloser : closer? c tokens with
          | some d =>
              rw [Token.render, firstSentence?_of_closer? hcloser hend] at hr
              cases hr
              simp [Token.render]
          | none =>
              rw [hcloser] at hend
              obtain ⟨r₁, rfl, hr₁⟩ := exists_of_firstSentence?_escapeChar hend hr
              have hrest := ih hr₁
              cases hs : sentence? tokens with
              | some sentence =>
                  rw [hs] at hrest
                  exact congrArg (escapeChar c ++ ·) hrest
              | none =>
                  rw [hs] at hrest
                  exact EndsInValue.append (Place.run?_escapeChar c) hrest
      | tag t =>
          have ht := firstSentence?_tag t hr
          rw [sentence?]
          split_ifs at ht ⊢
          · obtain ⟨tag, key, seen, hrun⟩ := ht
            exact ⟨[], tag, key, seen, hrun⟩
          · obtain ⟨r₁, rfl, hr₁⟩ := ht
            have hrest := ih hr₁
            cases hs : sentence? tokens with
            | some sentence =>
                rw [hs] at hrest
                exact congrArg (t.render ++ ·) hrest
            | none =>
                rw [hs] at hrest
                exact EndsInValue.append (Place.run?_tag t) hrest

/-! ## White space at the end -/

theorem exists_of_run?_concat {place last : Place} {c : Char}
    (h : place.run? (x ++ [c]) = some (tokens, last)) :
    ∃ first mid more, place.run? x = some (first, mid) ∧ mid.next? c = some (more, last) := by
  induction x generalizing place tokens with
  | nil =>
      obtain ⟨⟨more, mid⟩, hnext, hrun⟩ := Option.bind_eq_some_iff.mp h
      cases hrun
      exact ⟨[], place, more, rfl, hnext⟩
  | cons d x ih =>
      obtain ⟨⟨more, mid⟩, hnext, hrun⟩ := Option.bind_eq_some_iff.mp h
      obtain ⟨⟨rest, last'⟩, hrest, heq⟩ := Option.map_eq_some_iff.mp hrun
      cases heq
      obtain ⟨first, mid', more', hfirst, hlast⟩ := ih hrest
      exact ⟨more ++ first, mid', more', by rw [Place.run?_cons hnext, hfirst]; rfl, hlast⟩

/-- Only a quote leads into the value of an attribute. -/
theorem eq_value_of_next? {place : Place} {c : Char} {tag : Tag} {key : AttributeName} {seen : Text}
    (h : place.next? c = some (tokens, .value tag key seen)) (hc : c ≠ '"') :
    ∃ seen', place = .value tag key seen' := by
  cases place with
  | value tag' key' seen' =>
      rw [Place.next?, if_neg hc] at h
      obtain ⟨-, h⟩ := Option.ite_none_left_eq_some.mp h
      cases h
      exact ⟨seen', rfl⟩
  | quote tag' key' =>
      rw [Place.next?, if_neg hc] at h
      cases h
  | _ => grind [Place.next?, Option.map_eq_some_iff]

/-- What ends inside of a tag still does so without the white space at its end. -/
theorem EndsInValue.trimBlankEnd (h : EndsInValue x) : EndsInValue (Text.trimBlankEnd x) := by
  induction x using List.reverseRecOn with
  | nil => exact h
  | append_singleton x c ih =>
      rw [Text.trimBlankEnd, Text.trimEnd_concat]
      split_ifs with hc
      · obtain ⟨tokens, tag, key, seen, hrun⟩ := h
        obtain ⟨first, mid, more, hfirst, hnext⟩ := exists_of_run?_concat hrun
        obtain ⟨seen', rfl⟩ := eq_value_of_next? hnext (by rintro rfl; exact absurd hc (by decide))
        exact ih ⟨first, tag, key, seen', hfirst⟩
      · exact h

/-- A token is written as one character, or with one at its end that is not white space. -/
theorem render_eq_or (token : Token) :
    (∃ c, token = .char c ∧ token.render = [c]) ∨
      ∃ start e, token.render = start ++ [e] ∧ ¬ Text.isBlank e := by
  cases token with
  | tag t =>
      refine .inr ⟨'<' :: ((if t.closing then ['/'] else []) ++ t.name.text ++
        t.attributes.flatMap renderAttribute), '>', ?_, by decide⟩
      simp [Token.render, Tag.render]
  | char c =>
      obtain ⟨-, he⟩ | ⟨-, he⟩ | ⟨-, he⟩ | ⟨-, he⟩ | ⟨-, -, he⟩ := escapeChar_cases c
      · exact .inr ⟨"&amp".toList, ';', he, by decide⟩
      · exact .inr ⟨"&lt".toList, ';', he, by decide⟩
      · exact .inr ⟨"&gt".toList, ';', he, by decide⟩
      · exact .inr ⟨"&quot".toList, ';', he, by decide⟩
      · exact .inl ⟨c, rfl, he⟩

/-- White space at the end of what is written belongs to characters. -/
theorem exists_trimBlankEnd_render (tokens : List Token) :
    ∃ kept blank, tokens = kept ++ chars blank ∧
      Text.trimBlankEnd (tokens.flatMap Token.render) = kept.flatMap Token.render := by
  induction tokens using List.reverseRecOn with
  | nil => exact ⟨[], [], rfl, rfl⟩
  | append_singleton tokens token ih =>
      have hall : ∀ start e, token.render = start ++ [e] → ¬ Text.isBlank e →
          ∃ kept blank, tokens ++ [token] = kept ++ chars blank ∧
            Text.trimBlankEnd ((tokens ++ [token]).flatMap Token.render) =
              kept.flatMap Token.render := by
        intro start e he hblank
        refine ⟨tokens ++ [token], [], (List.append_nil _).symm, ?_⟩
        rw [List.flatMap_append, List.flatMap_singleton, he, ← List.append_assoc,
          Text.trimBlankEnd, Text.trimEnd_concat, if_neg hblank]
      rcases render_eq_or token with ⟨c, rfl, hc⟩ | ⟨start, e, he, hblank⟩
      · by_cases hblank : Text.isBlank c
        · obtain ⟨kept, blank, rfl, htrim⟩ := ih
          refine ⟨kept, blank ++ [c], by simp [chars], ?_⟩
          rw [List.flatMap_append, List.flatMap_singleton, hc, Text.trimBlankEnd,
            Text.trimEnd_concat, if_pos hblank]
          exact htrim
        · exact hall [] c hc hblank
      · exact hall start e he hblank

/-! ## Spans in a summary -/

/-- Every tag that opens a span is followed by one that closes it. -/
def AllClosed (tokens : List Token) : Prop :=
  ∀ (s : Style) before after, tokens = before ++ s.opening :: after → s.closing ∈ after

/-- Markup that ends outside of tags and leaves no span open. -/
def WellFormed (t : Text) : Prop := ∃ tokens, read? t = some tokens ∧ AllClosed tokens

/-- Characters close no spans and open none. -/
theorem allClosed_append_chars (tokens : List Token) (t : Text) :
    AllClosed (tokens ++ chars t) ↔ AllClosed tokens := by
  have hopening : ∀ s : Style, s.opening ∉ chars t := by simp [chars, Style.opening]
  have hclosing : ∀ s : Style, s.closing ∉ chars t := by simp [chars, Style.closing]
  constructor
  · rintro h s before after rfl
    have hmem := h s before (after ++ chars t) (by simp)
    exact (List.mem_append.mp hmem).resolve_right (hclosing s)
  · intro h s before after heq
    rcases List.append_eq_append_iff.mp heq with ⟨more, -, ht⟩ | ⟨more, rfl, ht⟩
    · exact absurd (by rw [ht]; simp) (hopening s)
    · cases more with
      | nil =>
          rw [List.nil_append] at ht
          exact absurd (by rw [← ht]; exact List.mem_cons_self) (hopening s)
      | cons token more =>
          obtain ⟨rfl, rfl⟩ := List.cons.inj ht
          exact List.mem_append_left _ (h s before more rfl)

theorem not_wellFormed_of_endsInValue (h : EndsInValue x) : ¬ WellFormed x := by
  rintro ⟨tokens, hread, -⟩
  obtain ⟨more, tag, key, seen, hrun⟩ := h
  rw [read?, hrun] at hread
  cases hread

/-- The summary of a run of text. -/
def excerpt? (t : Text) : Option Text := (firstSentence? (Inline.format t)).bind summaryOf

/-- A summary is well-formed if its sentence ends outside of tags and of spans. -/
theorem wellFormed_excerpt?_iff {t : Text} (h : excerpt? t = some s) :
    WellFormed s ↔
      ∃ sentence, sentence? (Inline.tokensOf t) = some sentence ∧ AllClosed sentence := by
  obtain ⟨r, hr, hs⟩ := Option.bind_eq_some_iff.mp h
  obtain ⟨-, hs⟩ := Option.ite_none_left_eq_some.mp hs
  cases hs
  rw [← Inline.render_tokensOf] at hr
  have hsentence := firstSentence?_render hr
  cases hs : sentence? (Inline.tokensOf t) with
  | none =>
      rw [hs] at hsentence
      exact iff_of_false (not_wellFormed_of_endsInValue hsentence.trimBlankEnd) (by simp)
  | some sentence =>
      rw [hs] at hsentence
      obtain ⟨kept, blank, rfl, htrim⟩ := exists_trimBlankEnd_render sentence
      rw [hsentence]
      simp only [WellFormed, htrim, read?_render, Option.some.injEq, exists_eq_left',
        allClosed_append_chars]

/-! ## Where summaries come from -/

/-- The paragraph that some blocks start with. -/
def paragraph? : List Block → Option Text
  | .paragraph t :: _ => some t
  | _ => none

/-- The run of text that the summary of a body is taken from: the paragraph that it starts with.
A heading may stand before it if it holds no tags. -/
def leading? : List Block → Option Text
  | .heading t :: blocks => if '<' ∈ Inline.format t then none else paragraph? blocks
  | blocks => paragraph? blocks

/-- The runs of text that summaries are taken from. -/
def summarized (blocks : List Block) : List Text :=
  (leading? blocks).toList ++
    ((blocks.flatMap Block.listed).filter (·.isSymbol)).map (·.description)

/-- The summaries that are taken from a body. -/
def summaries (body : Text) : List Text :=
  (summary? body).toList ++ (symbolEntries body).filterMap (·.summary)

theorem Misses.of_suffix {α : Type} {at? : Text → Option α} (h : Misses at? x) (hs : y <:+ x) :
    Misses at? y := by
  obtain ⟨start, rfl⟩ := hs
  induction start with
  | nil => exact h
  | cons c start ih => exact ih h.2

/-- In a paragraph the first sentence is looked for as it is elsewhere. -/
theorem paragraphSentence?_append (h : Misses (Text.afterStart? "</p>".toList) x) (y : Text) :
    paragraphSentence? (x ++ ("</p>".toList ++ y)) = firstSentence? x := by
  induction x with
  | nil => rfl
  | cons c x ih =>
      have hend : sentenceEnd? (c :: (x ++ ("</p>".toList ++ y))) = sentenceEnd? (c :: x) :=
        sentenceEnd?_append (.inl rfl) (c :: x) _
      have hnone : Text.afterStart? "</p>".toList (c :: (x ++ ("</p>".toList ++ y))) = none := h.1 _
      rw [List.cons_append, paragraphSentence?, firstSentence?, hnone, hend, ih h.2]
      rfl

theorem element_append (tag : String) (t y : Text) :
    element tag t ++ y =
      ('<' :: tag.toList ++ ['>']) ++ (t ++ ('<' :: '/' :: tag.toList ++ ['>'] ++ y)) := by
  simp [element]

theorem paragraphSentence?_flatMap_render (blocks : List Block) :
    (Text.afterStart? "<p>".toList (blocks.flatMap Block.render)).bind paragraphSentence? =
      (paragraph? blocks).bind fun t => firstSentence? (Inline.format t) := by
  rcases blocks with _ | ⟨_ | _ | _ | _ | _, blocks⟩
  case cons.paragraph t =>
    have hsplit : (Block.paragraph t).render ++ blocks.flatMap Block.render =
        "<p>".toList ++ (Inline.format t ++ ("</p>".toList ++ blocks.flatMap Block.render)) :=
      element_append "p" (Inline.format t) _
    have hmisses : Misses (Text.afterStart? "</p>".toList) (Inline.format t) :=
      (seeks_closing .p).misses_format (by decide) t
    rw [List.flatMap_cons, hsplit, Text.afterStart?_append, Option.bind_some,
      paragraphSentence?_append hmisses]
    rfl
  all_goals rfl

/-- A heading with a tag in it is not passed over. -/
theorem afterHeading?_heading (t y : Text) :
    afterHeading? ((Block.heading t).render ++ y) =
      if '<' ∈ Inline.format t then none else some y := by
  have hsplit : (Block.heading t).render ++ y =
      "<h>".toList ++ (Inline.format t ++ ("</h>".toList ++ y)) :=
    element_append "h" (Inline.format t) y
  rw [afterHeading?, hsplit, Text.afterStart?_append, Option.bind_some]
  split_ifs with hless
  · have hformat : Misses (Text.afterStart? "</h>".toList) (Inline.format t) :=
      (seeks_closing .h).misses_format (by decide) t
    have hmisses := hformat.of_suffix (List.dropWhile_suffix fun c => decide (c ≠ '<'))
    cases hdrop : (Inline.format t).dropWhile fun c => decide (c ≠ '<') with
    | nil => exact absurd (List.dropWhile_eq_nil_iff.mp hdrop '<' hless) (by decide)
    | cons c z =>
        rw [hdrop] at hmisses
        rw [List.dropWhile_append, hdrop]
        exact hmisses.1 _
  · have hplain : ∀ c ∈ Inline.format t, decide (c ≠ '<') = true := fun c hc =>
      decide_eq_true fun e => hless (e ▸ hc)
    rw [List.dropWhile_append_of_pos hplain]
    exact Text.afterStart?_append "</h>".toList y

theorem summary?_flatMap_render (blocks : List Block) :
    summary? (blocks.flatMap Block.render) = (leading? blocks).bind excerpt? := by
  have hstart : ∀ blocks : List Block,
      ((Text.afterStart? "<p>".toList (blocks.flatMap Block.render)).bind paragraphSentence?).bind
        summaryOf = (paragraph? blocks).bind excerpt? := by
    intro blocks
    rw [paragraphSentence?_flatMap_render, Option.bind_assoc]
    rfl
  rw [summary?]
  rcases blocks with _ | ⟨_ | _ | _ | _ | _, blocks⟩
  case cons.heading t =>
    rw [List.flatMap_cons, afterHeading?_heading, leading?]
    split_ifs
    · rfl
    · exact hstart blocks
  all_goals exact hstart _

theorem summaries_flatMap_render (blocks : List Block) :
    summaries (blocks.flatMap Block.render) = (summarized blocks).filterMap excerpt? := by
  rw [summaries, summarized, summary?_flatMap_render, symbolEntries_flatMap_render,
    Entry.summaries, List.filterMap_append, List.filterMap_map, List.filterMap_map]
  congr 1
  cases leading? blocks with
  | none => rfl
  | some t => cases h : excerpt? t <;> simp [h]

/-! ## Well-formed summaries -/

/-- Two summaries that end too early: that of the body inside of a span, and that of its entry
inside of a tag. -/
theorem not_wellFormed_summaries :
    let body := formatBody (.list .functionType)
      ["*One. Two*".toList, [], "A - See <One. Two>.".toList]
    (summary? body = some "<b>One.".toList ∧ ¬ WellFormed "<b>One.".toList) ∧
      (symbolEntries body).map (·.summary) = [some "See <link target=\"One.".toList] ∧
        ¬ WellFormed "See <link target=\"One.".toList := by
  intro body
  have hbody : body = [Block.paragraph "*One. Two*".toList,
      .entries [⟨true, ['A'], "See <One. Two>.".toList⟩]].flatMap Block.render :=
    congrArg (List.flatMap Block.render) (by decide)
  refine ⟨⟨?_, ?_⟩, ?_, ?_⟩
  · rw [hbody, summary?_flatMap_render]
    decide
  · rintro ⟨tokens, hread, hclosed⟩
    have hbold : read? "<b>One.".toList =
        some (Style.bold.opening :: chars "One.".toList) := by decide
    cases hbold.symm.trans hread
    exact absurd (hclosed .bold [] _ rfl) (by decide)
  · rw [hbody, symbolEntries_flatMap_render]
    decide
  · exact not_wellFormed_of_endsInValue
      ⟨chars "See ".toList, { name := .link }, .target, "One.".toList, rfl⟩

/-- A summary is well-formed if and only if the first sentence of the text that it is taken from
ends between two tokens and behind all spans that it opens. -/
theorem wellFormed_iff_of_mem_summaries {kind : TopicKind} {lines : List Text}
    (h : s ∈ summaries (formatBody kind lines)) :
    ∃ t ∈ summarized (Block.ofLines kind lines), excerpt? t = some s ∧
      (WellFormed s ↔
        ∃ sentence, sentence? (Inline.tokensOf t) = some sentence ∧ AllClosed sentence) := by
  rw [formatBody, summaries_flatMap_render] at h
  obtain ⟨t, ht, hs⟩ := List.mem_filterMap.mp h
  exact ⟨t, ht, hs, wellFormed_excerpt?_iff hs⟩

/-- A sentence that ends behind a span, in the description of a symbol. -/
theorem wellFormed_iff_described :
    let lines := ["One - *First* thing. More.".toList]
    let s := "<b>First</b> thing.".toList
    s ∈ summaries (formatBody (.list .functionType) lines) ∧
      ∃ t ∈ summarized (Block.ofLines (.list .functionType) lines), excerpt? t = some s ∧
        (WellFormed s ↔
          ∃ sentence, sentence? (Inline.tokensOf t) = some sentence ∧ AllClosed sentence) := by
  intro lines s
  have hblocks : Block.ofLines (.list .functionType) lines =
      [.entries [⟨true, "One".toList, "*First* thing. More.".toList⟩]] := by decide
  have hexcerpt : excerpt? "*First* thing. More.".toList = some s := by decide
  have h : s ∈ summaries (formatBody (.list .functionType) lines) := by
    rw [formatBody, summaries_flatMap_render, hblocks]
    exact List.mem_filterMap.mpr ⟨_, List.mem_cons_self, hexcerpt⟩
  exact ⟨h, wellFormed_iff_of_mem_summaries h⟩

end Commentary.Markup
