import Commentary.Proofs.Markup.Span

/-!
# How spans lie to each other

The search for the end of a span looks at marks of its own style only, so a span of one style may
end inside of a span of the other one. In what is written, two spans lie to each other exactly as
their marks do in the text.
-/

namespace Commentary.Markup

variable {s : Style} {t : Text}

/-! ## Spans of an output -/

/-- A span of a style in some tokens, from the tag that opens it to the tag that closes it. -/
def SpanIn (s : Style) (tokens : List Token) (first last : Nat) : Prop :=
  ∃ before inner after, tokens = before ++ s.opening :: (inner ++ s.closing :: after) ∧
    (∀ token ∈ inner, ¬ s.IsTag token) ∧ first = before.length ∧
    last = before.length + (inner.length + 1)

/-- The spans from `a` to `b` and from `c` to `d` are disjoint, or one lies inside the other. -/
def Apart (a b c d : Nat) : Prop := b < c ∨ d < a ∨ (a < c ∧ d < b) ∨ (c < a ∧ b < d)

instance (a b c d : Nat) : Decidable (Apart a b c d) :=
  inferInstanceAs (Decidable (b < c ∨ d < a ∨ (a < c ∧ d < b) ∨ (c < a ∧ b < d)))

/-- No bold span and underlined span of an output overlap partially. -/
def SpansApart (output : Text) : Prop :=
  ∀ tokens, read? output = some tokens → ∀ a b c d, SpanIn .bold tokens a b →
    SpanIn .underline tokens c d → Apart a b c d

/-- A bold span that ends inside of an underlined one. -/
theorem not_spansApart_crossing :
    Inline.format "*a _b* c_".toList = "<b>a <u>b</b> c</u>".toList ∧
      ¬ SpansApart (Inline.format "*a _b* c_".toList) := by
  have hformat : Inline.format "*a _b* c_".toList = "<b>a <u>b</b> c</u>".toList := by decide
  have hread : read? "<b>a <u>b</b> c</u>".toList = some
      [Style.bold.opening, .char 'a', .char ' ', Style.underline.opening, .char 'b',
        Style.bold.closing, .char ' ', .char 'c', Style.underline.closing] := by decide
  refine ⟨hformat, fun h => ?_⟩
  rw [hformat] at h
  have hbold : SpanIn .bold _ 0 5 :=
    ⟨[], [.char 'a', .char ' ', Style.underline.opening, .char 'b'],
      [.char ' ', .char 'c', Style.underline.closing], rfl, by decide, rfl, rfl⟩
  have hunderline : SpanIn .underline _ 3 8 :=
    ⟨[Style.bold.opening, .char 'a', .char ' '],
      [.char 'b', Style.bold.closing, .char ' ', .char 'c'], [], rfl, by decide, rfl, rfl⟩
  exact absurd (h _ hread 0 5 3 8 hbold hunderline) (by decide)

/-! ## Where elements begin -/

/-- The tokens of some elements. -/
def tokensIn (elements : List (Visit × Inline)) : List Token := elements.flatMap (·.2.tokens)

theorem tokensIn_append (l m : List (Visit × Inline)) :
    tokensIn (l ++ m) = tokensIn l ++ tokensIn m := List.flatMap_append

theorem tokensIn_cons (x : Visit × Inline) (l : List (Visit × Inline)) :
    tokensIn (x :: l) = x.2.tokens ++ tokensIn l := List.flatMap_cons

/-- The tokens of an element of a text begin at an index. -/
def BeginsAt (t : Text) (x : Visit × Inline) (i : Nat) : Prop :=
  ∃ before rest, traceOf t = before ++ x :: rest ∧ i = (tokensIn before).length

/-- An element that is a token by itself is found where the token stands. -/
theorem exists_of_tokensIn_eq_append {token : Token} {elements : List (Visit × Inline)}
    {before after : List Token} (hone : ∀ i : Inline, token ∈ i.tokens → i.tokens = [token])
    (h : tokensIn elements = before ++ token :: after) :
    ∃ passed x rest, elements = passed ++ x :: rest ∧ x.2.tokens = [token] ∧
      before = tokensIn passed ∧ after = tokensIn rest := by
  induction elements generalizing before with
  | nil => cases before <;> cases h
  | cons y elements ih =>
      have hlater : ∀ before', before = y.2.tokens ++ before' →
          tokensIn elements = before' ++ token :: after →
          ∃ passed x rest, y :: elements = passed ++ x :: rest ∧ x.2.tokens = [token] ∧
            before = tokensIn passed ∧ after = tokensIn rest := by
        intro before' hbefore h
        obtain ⟨passed, x, rest, rfl, hx, rfl, rfl⟩ := ih h
        exact ⟨y :: passed, x, rest, rfl, hx, hbefore, rfl⟩
      rw [tokensIn_cons] at h
      rcases List.append_eq_append_iff.mp h with ⟨more, hbefore, hrest⟩ | ⟨more, htokens, hrest⟩
      · exact hlater more hbefore hrest
      · cases more with
        | nil =>
            rw [List.append_nil] at htokens
            exact hlater [] (by rw [htokens, List.append_nil]) hrest.symm
        | cons d more =>
            obtain ⟨rfl, hafter⟩ := List.cons.inj hrest
            have hy : y.2.tokens = [token] := hone y.2 (by simp [htokens])
            rw [hy] at htokens
            obtain ⟨rfl, hmore⟩ : before = [] ∧ more = [] := by
              cases before with
              | nil => exact ⟨rfl, (List.cons.inj htokens).2.symm⟩
              | cons e before => simp at htokens
            exact ⟨[], y, elements, rfl, hy, rfl, by rw [hafter, hmore]; rfl⟩

/-- The tags of a style are written by two elements, each of which is one of the tags. -/
theorem isTagOf_of_mem_tokens {i : Inline} {token : Token} (ht : s.IsTag token)
    (h : token ∈ i.tokens) :
    (i = .opens s ∧ token = s.opening) ∨ (i = .closes s ∧ token = s.closing) := by
  have hmem : token ∈ i.tokens.filter s.IsTag := List.mem_filter.mpr ⟨h, decide_eq_true ht⟩
  by_cases htag : i.IsTagOf s
  · rcases htag with rfl | rfl
    · rw [filter_tokens_opens] at hmem
      exact .inl ⟨rfl, List.mem_singleton.mp hmem⟩
    · rw [filter_tokens_closes] at hmem
      exact .inr ⟨rfl, List.mem_singleton.mp hmem⟩
  · rw [filter_tokens_of_not_isTagOf htag] at hmem
    cases hmem

theorem eq_opens_of_mem_tokens {i : Inline} (h : s.opening ∈ i.tokens) : i = .opens s := by
  rcases isTagOf_of_mem_tokens (.inl rfl) h with ⟨hi, -⟩ | ⟨-, htag⟩
  · exact hi
  · cases htag

theorem eq_closes_of_mem_tokens {i : Inline} (h : s.closing ∈ i.tokens) : i = .closes s := by
  rcases isTagOf_of_mem_tokens (.inr rfl) h with ⟨-, htag⟩ | ⟨hi, -⟩
  · cases htag
  · exact hi

theorem exists_isTag_of_isTagOf {i : Inline} (h : i.IsTagOf s) :
    ∃ token ∈ i.tokens, s.IsTag token := by
  rcases h with rfl | rfl
  · exact ⟨s.opening, List.mem_singleton_self _, .inl rfl⟩
  · exact ⟨s.closing, List.mem_singleton_self _, .inr rfl⟩

theorem tokensIn_traceOf (t : Text) : tokensIn (traceOf t) = Inline.tokensOf t := by
  rw [Inline.tokensOf, ← map_snd_traceOf, List.flatMap_map]
  rfl

theorem pairwise_place_traceOf (t : Text) :
    (traceOf t).Pairwise fun x y => x.1.place < y.1.place := by
  have h := pairwise_place_visitsFrom 0 none 0 (Piece.ofText t)
  rw [← visits, ← map_fst_trace {} (visits t), List.pairwise_map] at h
  exact h

theorem lt_of_length_lt {x y : Visit × Inline} {before rest before' rest' : List (Visit × Inline)}
    (hne : x.2.tokens ≠ []) (h : traceOf t = before ++ x :: rest)
    (h' : traceOf t = before' ++ y :: rest') (hlt : before.length < before'.length) :
    (tokensIn before).length < (tokensIn before').length ∧ x.1.place < y.1.place := by
  rcases List.append_eq_append_iff.mp (h.symm.trans h') with ⟨more, rfl, hx⟩ | ⟨more, rfl, -⟩
  · cases more with
    | nil => simp at hlt
    | cons z more =>
        obtain ⟨rfl, -⟩ := List.cons.inj hx
        refine ⟨?_, ?_⟩
        · have hlength := List.length_pos_iff.mpr hne
          rw [tokensIn_append, tokensIn_cons, List.length_append, List.length_append]
          omega
        · have hpairs := pairwise_place_traceOf t
          rw [h'] at hpairs
          exact (List.pairwise_append.mp hpairs).2.2 x (by simp) y (by simp)
  · rw [List.length_append] at hlt
    omega

/-- Elements come in the order of their places in the text. -/
theorem lt_iff_of_beginsAt {x y : Visit × Inline} {i j : Nat} (hx : BeginsAt t x i)
    (hy : BeginsAt t y j) (hxne : x.2.tokens ≠ []) (hyne : y.2.tokens ≠ []) :
    i < j ↔ x.1.place < y.1.place := by
  obtain ⟨before, rest, h, rfl⟩ := hx
  obtain ⟨before', rest', h', rfl⟩ := hy
  rcases Nat.lt_trichotomy before.length before'.length with hlt | heq | hgt
  · obtain ⟨htokens, hplace⟩ := lt_of_length_lt hxne h h' hlt
    exact iff_of_true htokens hplace
  · obtain ⟨rfl, hcons⟩ := List.append_inj (h.symm.trans h') heq
    cases hcons
    exact iff_of_false (Nat.lt_irrefl _) (Nat.lt_irrefl _)
  · obtain ⟨htokens, hplace⟩ := lt_of_length_lt hyne h' h hgt
    exact iff_of_false (Nat.lt_asymm htokens) (Nat.lt_asymm hplace)

/-! ## Where the spans of an output come from -/

/-- A span of the output of a text and the marks that it is written for. -/
structure SpanFrom (s : Style) (t : Text) (first last : Nat) (v w : Visit) : Prop where
  span : SpanIn s (Inline.tokensOf t) first last
  opens : BeginsAt t (v, .opens s) first
  closes : BeginsAt t (w, .closes s) last
  ends : v.spanEnd? s = some w.place

/-- The first one of a kind stands at one place. -/
theorem eq_of_append_cons_eq {α : Type} {p : α → Prop} {l l' after after' : List α} {x y : α}
    (hl : ∀ a ∈ l, ¬ p a) (hx : p x) (hl' : ∀ a ∈ l', ¬ p a) (hy : p y)
    (h : l ++ x :: after = l' ++ y :: after') : l = l' ∧ x = y := by
  induction l generalizing l' with
  | nil =>
      cases l' with
      | nil => exact ⟨rfl, (List.cons.inj h).1⟩
      | cons b l' =>
          obtain ⟨rfl, -⟩ := List.cons.inj h
          exact absurd hx (hl' _ List.mem_cons_self)
  | cons a l ih =>
      cases l' with
      | nil =>
          obtain ⟨rfl, -⟩ := List.cons.inj h
          exact absurd hy (hl _ List.mem_cons_self)
      | cons b l' =>
          obtain ⟨rfl, hrest⟩ := List.cons.inj h
          have htail : l = l' ∧ x = y :=
            ih (List.forall_mem_cons.mp hl).2 (List.forall_mem_cons.mp hl').2 hrest
          exact ⟨congrArg (a :: ·) htail.1, htail.2⟩

/-- The tags around a span are written for a mark and for the end that was found for it. -/
theorem exists_spanFrom {a b : Nat} (h : SpanIn s (Inline.tokensOf t) a b) :
    ∃ v w, SpanFrom s t a b v w := by
  obtain ⟨before, inner, after, htokens, hinner, rfl, rfl⟩ := h
  have hopening : ∀ i : Inline, s.opening ∈ i.tokens → i.tokens = [s.opening] :=
    fun i hi => by rw [eq_opens_of_mem_tokens hi]; rfl
  have hclosing : ∀ i : Inline, s.closing ∈ i.tokens → i.tokens = [s.closing] :=
    fun i hi => by rw [eq_closes_of_mem_tokens hi]; rfl
  obtain ⟨passed, ⟨v, i⟩, rest, htrace, hi, rfl, hrest⟩ :=
    exists_of_tokensIn_eq_append hopening ((tokensIn_traceOf t).trans htokens)
  obtain rfl : i = .opens s := eq_opens_of_mem_tokens (by rw [hi]; exact List.mem_singleton_self _)
  obtain ⟨written, ⟨w, j⟩, behind, rfl, hj, rfl, rfl⟩ :=
    exists_of_tokensIn_eq_append hclosing hrest.symm
  obtain rfl : j = .closes s :=
    eq_closes_of_mem_tokens (by rw [hj]; exact List.mem_singleton_self _)
  have hwritten : ∀ x ∈ written, ¬ x.2.IsTagOf s := by
    intro x hx htag
    obtain ⟨token, hmem, htoken⟩ := exists_isTag_of_isTagOf htag
    exact hinner token (List.mem_flatMap.mpr ⟨x, hx, hmem⟩) htoken
  obtain ⟨found, w', behind', hfound, hrealizes⟩ := exists_realizes htrace
  obtain ⟨rfl, hw⟩ := eq_of_append_cons_eq (p := fun x => x.2.IsTagOf s) hwritten (.inr rfl)
    hrealizes.noTags (.inr rfl) hfound
  obtain rfl : w = w' := (Prod.mk.inj hw).1
  refine ⟨v, w, ⟨_, _, _, htokens, hinner, rfl, rfl⟩, ⟨_, _, htrace, rfl⟩, ?_, hrealizes.spanEnd⟩
  refine ⟨passed ++ (v, .opens s) :: written, behind, by rw [htrace]; simp, ?_⟩
  rw [tokensIn_append, tokensIn_cons, List.length_append, List.length_append]
  simp [Inline.tokens]
  omega

/-- Each span of an output goes from a mark to the end that was found for it, and two spans lie to
each other as their marks do. So a bold and an underlined span overlap partially where their pairs
of marks interlock in the text, and nowhere else. -/
theorem apart_iff_of_spanFrom (t : Text) :
    read? (Inline.format t) = some (Inline.tokensOf t) ∧
      (∀ s a b, SpanIn s (Inline.tokensOf t) a b → ∃ v w, SpanFrom s t a b v w) ∧
      ∀ a b c d v w v' w', SpanFrom .bold t a b v w → SpanFrom .underline t c d v' w' →
        (Apart a b c d ↔ Apart v.place w.place v'.place w'.place) := by
  refine ⟨?_, fun s a b => exists_spanFrom, fun a b c d v w v' w' hbold hunderline => ?_⟩
  · rw [← Inline.render_tokensOf, read?_render]
  · have hne : ∀ s, (Inline.opens s).tokens ≠ [] ∧ (Inline.closes s).tokens ≠ [] :=
      fun s => ⟨List.cons_ne_nil _ _, List.cons_ne_nil _ _⟩
    rw [Apart, Apart, lt_iff_of_beginsAt hbold.closes hunderline.opens (hne _).2 (hne _).1,
      lt_iff_of_beginsAt hunderline.closes hbold.opens (hne _).2 (hne _).1,
      lt_iff_of_beginsAt hbold.opens hunderline.opens (hne _).1 (hne _).1,
      lt_iff_of_beginsAt hunderline.closes hbold.closes (hne _).2 (hne _).2,
      lt_iff_of_beginsAt hunderline.opens hbold.opens (hne _).1 (hne _).1,
      lt_iff_of_beginsAt hbold.closes hunderline.closes (hne _).2 (hne _).2]

end Commentary.Markup
