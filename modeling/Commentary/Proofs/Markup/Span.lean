import Commentary.Proofs.Markup.Token
import Commentary.Proofs.Markup.Visit

/-!
# Spans

A mark opens a span only if the search finds a mark that closes it, and the walk that writes the
elements comes to that mark while the span is still open. So the tags of a style stand in pairs,
and no pair is empty. Each style is looked for on its own, which lets spans of different styles
overlap.
-/

namespace Commentary.Markup

variable {s : Style} {v : Visit} {vs : List Visit} {spans : Inline.Spans}

/-! ## The search from a visit -/

namespace Visit

/-- The places that are looked at for the end of the span that a visit opens. -/
def search? (s : Style) (v : Visit) : Option (List Nat) :=
  (spanPlaces? s.mark v.piece 0 0 v.after).map (List.map (v.place + 1 + ·))

/-- The place of the mark that ends the span that a visit opens. -/
def spanEnd? (s : Style) (v : Visit) : Option Nat :=
  (openedSpan? s.mark v.before v.after).map (v.place + 1 + ·.length)

/-- A visit with the others behind it. -/
def Leads (v : Visit) (vs : List Visit) : Prop :=
  vs = visitsFrom (v.place + 1) (some v.piece) v.linked v.after

end Visit

theorem reach?_visitsFrom_add (s : Style) (n place : Nat) (before : Option Piece) (skip : Nat)
    (pieces : List Piece) :
    reach? s (visitsFrom (n + place) before skip pieces) =
      (reach? s (visitsFrom place before skip pieces)).map (List.map (n + ·)) := by
  induction pieces generalizing place before skip with
  | nil => rfl
  | cons p rest ih =>
      cases skip with
      | succ skip => exact ih (place + 1) (some p) skip
      | zero =>
          have hrole : Visit.role s ⟨n + place, before, p, rest⟩ =
              Visit.role s ⟨place, before, p, rest⟩ := rfl
          have hlinked : Visit.linked ⟨n + place, before, p, rest⟩ =
              Visit.linked ⟨place, before, p, rest⟩ := rfl
          rw [visitsFrom, visitsFrom, reach?, reach?, hrole, hlinked, Nat.add_assoc, ih]
          cases Visit.role s ⟨place, before, p, rest⟩ with
          | opens => rfl
          | closes => rfl
          | literal => simp only [Option.map_map]; rfl

theorem linked_of_mark (hv : v.piece = .mark s.mark) : v.linked = 0 := by
  refine if_neg ?_
  rw [hv, Piece.mark.injEq]
  exact mark_ne_less s

/-- The search looks at the visits that come next, up to the mark that it finds. -/
theorem search?_eq_reach? (hv : v.piece = .mark s.mark) (h : v.Leads vs) :
    v.search? s = reach? s vs := by
  have hbefore : 0 = 0 → v.piece.endsIn "*_".toList := fun _ => hv ▸ endsIn_mark s
  rw [h, linked_of_mark hv, Visit.search?, spanPlaces?_eq_reach? s hbefore,
    ← reach?_visitsFrom_add, Nat.add_zero]

/-- The mark that closes a span stands behind the pieces in it. -/
theorem drop_of_spanLength? {m : Mark} {before : Piece} {passed skip n : Nat}
    {pieces : List Piece} (h : spanLength? m before passed skip pieces = some n) :
    ∃ inner rest, pieces = inner ++ .mark m :: rest ∧ n = passed + inner.length := by
  induction pieces generalizing before passed skip with
  | nil => cases h
  | cons p rest ih =>
      have hrest : ∀ {skip}, spanLength? m p (passed + 1) skip rest = some n →
          ∃ inner tail, p :: rest = inner ++ .mark m :: tail ∧ n = passed + inner.length := by
        intro skip h
        obtain ⟨inner, tail, rfl, rfl⟩ := ih h
        exact ⟨p :: inner, tail, rfl, by simp; omega⟩
      cases skip with
      | succ skip => exact hrest h
      | zero =>
          rw [spanLength?] at h
          split at h
          · exact hrest h
          · split at h
            · next hp =>
                split at h
                · cases h
                · obtain ⟨-, h⟩ := Option.ite_none_left_eq_some.mp h
                  cases h
                  exact ⟨[], rest, by rw [hp]; rfl, rfl⟩
                · exact hrest h
            · exact hrest h

/-- A span ends at the last place that is looked at for its end. -/
theorem spanEnd?_eq (hv : v.piece = .mark s.mark) (h : v.Leads vs) :
    v.spanEnd? s = if v.role s = .opens then (reach? s vs).bind List.getLast? else none := by
  rw [Visit.spanEnd?, openedSpan?, Visit.role, if_pos hv, ← search?_eq_reach? hv h, Visit.search?]
  split_ifs with hrole
  · have hlength := spanLength?_eq_getLast? s.mark v.piece 0 0 v.after
    rw [hv] at hlength ⊢
    rw [hlength]
    cases hplaces : spanPlaces? s.mark (.mark s.mark) 0 0 v.after with
    | none => rfl
    | some places =>
        have hlast := List.getLast?_eq_some_getLast (ne_nil_of_spanPlaces? hplaces)
        rw [hplaces, Option.bind_some, hlast] at hlength
        obtain ⟨inner, rest, hafter, hn⟩ := drop_of_spanLength? hlength
        simp [hlast, hafter, hn, List.getLast?_map]
  · rfl

theorem ne_nil_of_reach? {places : List Nat} (h : reach? s vs = some places) : places ≠ [] := by
  cases vs with
  | nil => cases h
  | cons v vs =>
      rw [reach?] at h
      split at h
      · cases h
      · cases h
        exact List.cons_ne_nil _ _
      · obtain ⟨more, -, rfl⟩ := Option.map_eq_some_iff.mp h
        exact List.cons_ne_nil _ _

theorem isSome_openedSpan?_iff (hv : v.piece = .mark s.mark) (h : v.Leads vs) :
    (openedSpan? s.mark v.before v.after).isSome ↔ v.role s = .opens ∧ (reach? s vs).isSome := by
  have hend : (openedSpan? s.mark v.before v.after).isSome = (v.spanEnd? s).isSome := by
    rw [Visit.spanEnd?, Option.isSome_map]
  rw [hend, spanEnd?_eq hv h]
  split_ifs with hrole
  · cases hreach : reach? s vs with
    | none => simp
    | some places => simp [hrole, List.getLast?_eq_some_getLast (ne_nil_of_reach? hreach)]
  · simp [hrole]

/-! ## What a visit does to the open spans -/

/-- Whether a span of a style is open. -/
def Inline.Spans.isOpen (s : Style) (spans : Inline.Spans) : Bool :=
  match s with
  | .bold => spans.bold
  | .underline => spans.underline.isSome

/-- A tag of a span. -/
def Inline.IsTagOf (s : Style) (i : Inline) : Prop := i = .opens s ∨ i = .closes s

/-- What the element of a visit does to the spans of a style. A mark that is neither of the first
two stays text, and pieces of other kinds do not touch spans. -/
inductive Writes (s : Style) (spans : Inline.Spans) (v : Visit) (vs : List Visit)
    (step : Inline × Inline.Spans) : Prop
  | opens (hrole : v.role s = .opens) (hreach : (reach? s vs).isSome) (h : step.1 = .opens s)
      (hopen : step.2.isOpen s = true)
  | closes (hrole : v.role s = .closes) (hopen : spans.isOpen s = true) (h : step.1 = .closes s)
      (hclosed : step.2.isOpen s = false)
  | passes (hopens : v.role s = .opens → reach? s vs = none)
      (hcloses : v.role s = .closes → spans.isOpen s = false) (h : ¬ step.1.IsTagOf s)
      (hsame : step.2.isOpen s = spans.isOpen s)

theorem writes_of_mark (hv : v.piece = .mark s.mark) (h : v.Leads vs) (spans : Inline.Spans) :
    Writes s spans v vs (v.element spans) := by
  have hiff := isSome_openedSpan?_iff hv h
  have hrole : v.role s = s.mark.role v.before v.after.head? := if_pos hv
  have hopens : ¬ (openedSpan? s.mark v.before v.after).isSome →
      v.role s = .opens → reach? s vs = none := by
    intro hnone hopens
    by_contra hsome
    exact hnone (hiff.mpr ⟨hopens, Option.isSome_iff_ne_none.mpr hsome⟩)
  cases s with
  | bold =>
      have hstep : v.element spans = Inline.ofStar spans v.before v.after := by
        rw [Visit.element, hv]
        rfl
      rw [hstep, Inline.ofStar]
      by_cases ho : (openedSpan? .star v.before v.after).isSome
      · rw [if_pos ho]
        exact .opens (hiff.mp ho).1 (hiff.mp ho).2 rfl rfl
      · rw [if_neg ho]
        by_cases hc : spans.bold ∧ Mark.role .star v.before v.after.head? = .closes
        · rw [if_pos hc]
          exact .closes (hrole.trans hc.2) hc.1 rfl rfl
        · rw [if_neg hc]
          refine .passes (hopens ho) (fun hcloses => ?_) (by simp [Inline.IsTagOf]) rfl
          exact Bool.eq_false_iff.mpr fun hopen => hc ⟨hopen, hrole.symm.trans hcloses⟩
  | underline =>
      have hstep : v.element spans = Inline.ofUnderscore spans v.before v.after := by
        rw [Visit.element, hv]
        rfl
      rw [hstep, Inline.ofUnderscore]
      cases ho : openedSpan? .underscore v.before v.after with
      | some inner =>
          have hsome : (openedSpan? .underscore v.before v.after).isSome := by rw [ho]; rfl
          exact .opens (hiff.mp hsome).1 (hiff.mp hsome).2 rfl rfl
      | none =>
          have hnone : ¬ (openedSpan? .underscore v.before v.after).isSome := by simp [ho]
          dsimp only
          by_cases hc : spans.underline.isSome ∧
              Mark.role .underscore v.before v.after.head? = .closes
          · rw [if_pos hc]
            exact .closes (hrole.trans hc.2) hc.1 rfl rfl
          · rw [if_neg hc]
            have hcloses : v.role .underline = .closes → spans.isOpen .underline = false :=
              fun hcloses => Bool.eq_false_iff.mpr fun hopen =>
                hc ⟨hopen, hrole.symm.trans hcloses⟩
            split_ifs
            · exact .passes (hopens hnone) hcloses (by simp [Inline.IsTagOf]) rfl
            · exact .passes (hopens hnone) hcloses (by simp [Inline.IsTagOf]) rfl

/-- Only the marks of a style touch its spans. -/
theorem element_of_piece_ne (hv : v.piece ≠ .mark s.mark) (spans : Inline.Spans) :
    ¬ (v.element spans).1.IsTagOf s ∧ (v.element spans).2.isOpen s = spans.isOpen s := by
  obtain ⟨place, before, piece, after⟩ := v
  have hplain : ∀ (i : Inline), (∀ s', i ≠ .opens s' ∧ i ≠ .closes s') → ¬ i.IsTagOf s :=
    fun i hi htag => htag.elim (hi s).1 (hi s).2
  rcases piece with (_ | _ | _ | _) | _ | _ | _
  case mark.star =>
    cases s with
    | bold => exact absurd rfl hv
    | underline =>
        simp only [Visit.element, Inline.ofStar]
        split_ifs <;> simp [Inline.IsTagOf, Inline.Spans.isOpen]
  case mark.underscore =>
    cases s with
    | underline => exact absurd rfl hv
    | bold =>
        simp only [Visit.element, Inline.ofUnderscore]
        split
        · simp [Inline.IsTagOf, Inline.Spans.isOpen]
        · split_ifs <;> simp [Inline.IsTagOf, Inline.Spans.isOpen]
  case mark.less =>
    simp only [Visit.element]
    split <;> simp [Inline.IsTagOf]
  all_goals exact ⟨hplain _ (fun _ => ⟨Inline.noConfusion, Inline.noConfusion⟩), rfl⟩

/-- Every visit does one of three things to the spans of a style. -/
theorem writes (s : Style) (h : v.Leads vs) (spans : Inline.Spans) :
    Writes s spans v vs (v.element spans) := by
  by_cases hv : v.piece = .mark s.mark
  · exact writes_of_mark hv h spans
  · have hrole : v.role s = .literal := if_neg hv
    obtain ⟨htag, hsame⟩ := element_of_piece_ne hv spans
    exact .passes (by simp [hrole]) (by simp [hrole]) htag hsame

/-! ## Runs -/

/-- Visits of a walk. -/
def Walk : List Visit → Prop
  | [] => True
  | v :: vs => v.Leads vs ∧ Walk vs

theorem walk_visitsFrom (place : Nat) (before : Option Piece) (skip : Nat) (pieces : List Piece) :
    Walk (visitsFrom place before skip pieces) := by
  induction pieces generalizing place before skip with
  | nil => trivial
  | cons p rest ih =>
      cases skip with
      | succ skip => exact ih _ _ _
      | zero => exact ⟨rfl, ih _ _ _⟩

/-- An open span is closed at the place that the search has found. -/
theorem exists_closes_of_isOpen {places : List Nat} (h : Walk vs) (hopen : spans.isOpen s = true)
    (hreach : reach? s vs = some places) :
    ∃ inner w after, trace spans vs = inner ++ (w, .closes s) :: after ∧
      places = inner.map (·.1.place) ++ [w.place] ∧ ∀ x ∈ inner, ¬ x.2.IsTagOf s := by
  induction vs generalizing spans places with
  | nil => cases hreach
  | cons v vs ih =>
      rw [reach?] at hreach
      cases writes s h.1 spans with
      | opens hrole =>
          rw [hrole] at hreach
          cases hreach
      | closes hrole _ helement =>
          rw [hrole] at hreach
          cases hreach
          exact ⟨[], v, trace (v.element spans).2 vs, by rw [trace, helement]; rfl, rfl, by simp⟩
      | passes hopens hcloses htag hsame =>
          cases hrole : v.role s with
          | opens =>
              rw [hrole] at hreach
              cases hreach
          | closes =>
              rw [hcloses hrole] at hopen
              cases hopen
          | literal =>
              rw [hrole] at hreach
              obtain ⟨more, hmore, rfl⟩ := Option.map_eq_some_iff.mp hreach
              obtain ⟨inner, w, after, htrace, rfl, hinner⟩ := ih h.2 (hsame.trans hopen) hmore
              refine ⟨(v, (v.element spans).1) :: inner, w, after, ?_, rfl, ?_⟩
              · rw [trace, htrace]
                rfl
              · exact List.forall_mem_cons.mpr ⟨htag, hinner⟩

/-- Where a span is open, the search finds the mark that closes it. -/
def Foreseen (spans : Inline.Spans) (vs : List Visit) : Prop :=
  ∀ s, spans.isOpen s = true → (reach? s vs).isSome

theorem Foreseen.element (h : Foreseen spans (v :: vs)) (hv : v.Leads vs) :
    Foreseen (v.element spans).2 vs := by
  intro s hopen
  cases writes s hv spans with
  | opens _ hreach => exact hreach
  | closes _ _ _ hclosed =>
      rw [hclosed] at hopen
      cases hopen
  | passes _ hcloses _ hsame =>
      have hreach := h s (hsame.symm.trans hopen)
      rw [reach?] at hreach
      cases hrole : v.role s with
      | opens =>
          rw [hrole] at hreach
          cases hreach
      | closes =>
          rw [hsame, hcloses hrole] at hopen
          cases hopen
      | literal => simpa [hrole] using hreach

/-! ## Tags in pairs -/

namespace Style

theorem tagName_injective : Function.Injective tagName := by
  intro s s' h
  cases s <;> cases s' <;> first | rfl | cases h

/-- The tag that opens a span. -/
def opening (s : Style) : Token := .tag { name := s.tagName }

/-- The tag that closes a span. -/
def closing (s : Style) : Token := .tag { closing := true, name := s.tagName }

/-- A tag of a span. -/
def IsTag (s : Style) (token : Token) : Prop := token = s.opening ∨ token = s.closing

instance (s : Style) : DecidablePred s.IsTag := fun token =>
  inferInstanceAs (Decidable (token = s.opening ∨ token = s.closing))

end Style

theorem filter_tokens_opens (s : Style) :
    (Inline.opens s).tokens.filter s.IsTag = [s.opening] := by
  cases s <;> decide

theorem filter_tokens_closes (s : Style) :
    (Inline.closes s).tokens.filter s.IsTag = [s.closing] := by
  cases s <;> decide

theorem filter_tokens_of_not_isTagOf {i : Inline} (h : ¬ i.IsTagOf s) :
    i.tokens.filter s.IsTag = [] := by
  cases i with
  | text t => simp [Inline.tokens, chars, Style.IsTag, Style.opening, Style.closing]
  | opens s' =>
      have hname : s'.tagName ≠ s.tagName := fun e =>
        h (.inl (congrArg Inline.opens (Style.tagName_injective e)))
      simp [Inline.tokens, Style.IsTag, Style.opening, Style.closing, hname]
  | closes s' =>
      have hname : s'.tagName ≠ s.tagName := fun e =>
        h (.inr (congrArg Inline.closes (Style.tagName_injective e)))
      simp [Inline.tokens, Style.IsTag, Style.opening, Style.closing, hname]
  | link target => cases s <;> cases target <;>
      simp [Inline.tokens, Style.IsTag, Style.opening, Style.closing, Style.tagName, Target.tag]

/-- The tags of a style alternate. If a span is open, it is closed first. -/
theorem exists_filter_trace (h : Walk vs) (hforeseen : Foreseen spans vs) :
    ∃ n, (((trace spans vs).map Prod.snd).flatMap Inline.tokens).filter s.IsTag =
      (if spans.isOpen s then [s.closing] else []) ++
        (List.replicate n [s.opening, s.closing]).flatten := by
  induction vs generalizing spans with
  | nil =>
      have hclosed : spans.isOpen s = false := by
        by_contra hopen
        exact Bool.false_ne_true (hforeseen s (by simpa using hopen))
      exact ⟨0, by simp [trace, hclosed]⟩
  | cons v vs ih =>
      obtain ⟨n, hn⟩ := ih h.2 (hforeseen.element h.1)
      rw [trace, List.map_cons, List.flatMap_cons, List.filter_append, hn]
      cases writes s h.1 spans with
      | opens hrole _ helement hopen =>
          -- A search that comes to another mark that opens a span finds nothing.
          have hclosed : spans.isOpen s = false := by
            by_contra hsome
            have hreach := hforeseen s (by simpa using hsome)
            rw [reach?, hrole] at hreach
            cases hreach
          refine ⟨n + 1, ?_⟩
          rw [helement, filter_tokens_opens, hopen, hclosed, List.replicate_succ]
          rfl
      | closes _ hopen helement hclosed =>
          exact ⟨n, by rw [helement, filter_tokens_closes, hopen, hclosed]; rfl⟩
      | passes _ _ htag hsame =>
          exact ⟨n, by rw [filter_tokens_of_not_isTagOf htag, hsame]; rfl⟩

/-! ## What stands in a span -/

/-- An element that shows, unlike the tags of spans. -/
def Inline.IsContent : Inline → Prop
  | .text t => t ≠ []
  | .link _ => True
  | _ => False

theorem piece_eq_of_role_ne (h : v.role s ≠ .literal) : v.piece = .mark s.mark := by
  by_contra hv
  exact h (if_neg hv)

/-- A piece that does nothing to spans shows. -/
theorem isContent_element (hv : v.piece ≠ .text []) (h : ∀ s, ¬ (v.element spans).1.IsTagOf s) :
    (v.element spans).1.IsContent := by
  cases he : (v.element spans).1 with
  | opens s => exact absurd (.inl he) (h s)
  | closes s => exact absurd (.inr he) (h s)
  | link target => trivial
  | text t =>
      rintro rfl
      obtain ⟨place, before, piece, after⟩ := v
      rcases piece with (_ | _ | _ | _) | _ | _ | _
      case mark.star =>
        simp only [Visit.element, Inline.ofStar] at he
        split_ifs at he
        cases he
      case mark.underscore =>
        simp only [Visit.element, Inline.ofUnderscore] at he
        split at he
        · cases he
        · split_ifs at he <;> cases he
      case mark.less =>
        simp only [Visit.element] at he
        split at he <;> cases he
      case mark.greater => cases he
      case text t =>
        cases he
        exact hv rfl
      case email => cases he
      case url => cases he

/-- Behind the mark of a span comes something that shows. -/
theorem isContent_behind_mark (spans : Inline.Spans) {w : Visit} (hv : v.piece = .mark s.mark)
    (h : v.Leads (w :: vs)) (hw : w.Leads vs) (hpiece : w.piece ≠ .text []) :
    (w.element spans).1.IsContent := by
  have hbefore : w.before = some v.piece := by
    rw [Visit.Leads, linked_of_mark hv] at h
    cases hafter : v.after with
    | nil =>
        rw [hafter] at h
        cases h
    | cons p rest =>
        rw [hafter] at h
        cases h
        rfl
  have hrole : ∀ s', w.role s' = .literal := by
    intro s'
    rw [Visit.role, hbefore]
    split_ifs
    · exact role_eq_literal s' (hv ▸ endsIn_mark s) _
    · rfl
  refine isContent_element hpiece fun s' => ?_
  cases writes s' hw spans with
  | opens hopens =>
      rw [hrole] at hopens
      cases hopens
  | closes hcloses =>
      rw [hrole] at hcloses
      cases hcloses
  | passes _ _ htag _ => exact htag

theorem text_nil_not_mem_ofPlain (t : Text) : Piece.text [] ∉ Piece.ofPlain t := by
  induction t with
  | nil => exact List.not_mem_nil
  | cons c t ih =>
      rw [Piece.ofPlain]
      split
      · exact fun h => ih (by simpa using h)
      · next hpieces =>
          rw [hpieces] at ih
          exact fun h => ih (by simp at h; simp [h])
      · exact fun h => ih (by simpa using h)

theorem text_nil_not_mem_ofText (t : Text) : Piece.text [] ∉ Piece.ofText t := by
  intro h
  obtain ⟨segment, -, hp⟩ := List.mem_flatMap.mp h
  cases segment with
  | text t => exact text_nil_not_mem_ofPlain t hp
  | email w address => simp [Piece.ofSegment] at hp
  | url address => simp [Piece.ofSegment] at hp

theorem piece_ne_of_mem_visits {t : Text} (h : v ∈ visits t) : v.piece ≠ .text [] := by
  obtain ⟨passed, hpieces, -⟩ := of_mem_visitsFrom h
  intro hp
  refine text_nil_not_mem_ofText t ?_
  rw [hpieces, hp]
  simp

/-! ## The spans of a text -/

/-- The elements of a text with the visits that write them. -/
def traceOf (t : Text) : List (Visit × Inline) := trace {} (visits t)

theorem map_snd_traceOf (t : Text) : (traceOf t).map Prod.snd = Inline.ofText t :=
  map_snd_trace {} 0 none 0 (Piece.ofText t)

theorem walk_visits (t : Text) : Walk (visits t) := walk_visitsFrom 0 none 0 (Piece.ofText t)

theorem foreseen_empty (vs : List Visit) : Foreseen {} vs := by
  intro s hopen
  cases s <;> cases hopen

/-- A walk goes on from each of its visits in the same way. -/
theorem exists_of_trace_eq_append {before rest : List (Visit × Inline)} {x : Visit × Inline}
    (h : Walk vs) (hforeseen : Foreseen spans vs) (ht : trace spans vs = before ++ x :: rest) :
    ∃ spans' ws, (x.1 :: ws) <:+ vs ∧ Walk (x.1 :: ws) ∧ Foreseen spans' (x.1 :: ws) ∧
      x.2 = (x.1.element spans').1 ∧ rest = trace (x.1.element spans').2 ws := by
  induction before generalizing spans vs with
  | nil =>
      cases vs with
      | nil => cases ht
      | cons v vs =>
          cases ht
          exact ⟨spans, vs, List.suffix_rfl, h, hforeseen, rfl, rfl⟩
  | cons y before ih =>
      cases vs with
      | nil => cases ht
      | cons v vs =>
          obtain ⟨-, ht⟩ := List.cons.inj ht
          obtain ⟨spans', ws, hsuffix, hrest⟩ := ih h.2 (hforeseen.element h.1) ht
          exact ⟨spans', ws, hsuffix.trans (List.suffix_cons v vs), hrest⟩

/-- A span as it is found and as it is written: the mark at `w` that the search finds closes it, the
search looks at the places of the elements between the tags and at no others, and something that
shows stands there. -/
structure Realizes (s : Style) (v w : Visit) (inner : List (Visit × Inline)) : Prop where
  spanEnd : v.spanEnd? s = some w.place
  search : v.search? s = some (inner.map (·.1.place) ++ [w.place])
  noTags : ∀ x ∈ inner, ¬ x.2.IsTagOf s
  content : ∃ x ∈ inner, x.2.IsContent

theorem exists_realizes {t : Text} {before rest : List (Visit × Inline)}
    (h : traceOf t = before ++ (v, .opens s) :: rest) :
    ∃ inner w after, rest = inner ++ (w, .closes s) :: after ∧ Realizes s v w inner := by
  obtain ⟨spans, vs, hsuffix, hwalk, hforeseen, helement, rfl⟩ :=
    exists_of_trace_eq_append (walk_visits t) (foreseen_empty _) h
  cases writes s hwalk.1 spans with
  | closes _ _ hcloses =>
      rw [hcloses] at helement
      cases helement
  | passes _ _ htag => exact absurd (.inl helement.symm) htag
  | opens hrole hreach _ hopen =>
      obtain ⟨places, hplaces⟩ := Option.isSome_iff_exists.mp hreach
      obtain ⟨inner, w, after, htrace, rfl, hinner⟩ := exists_closes_of_isOpen hwalk.2 hopen hplaces
      have hv : v.piece = .mark s.mark := piece_eq_of_role_ne (by simp [hrole])
      refine ⟨inner, w, after, htrace, ?_, ?_, hinner, ?_⟩
      · rw [spanEnd?_eq hv hwalk.1, if_pos hrole, hplaces]
        simp
      · rw [search?_eq_reach? hv hwalk.1, hplaces]
      · cases vs with
        | nil => cases hplaces
        | cons u vs =>
            have hu : u ∈ visits t := hsuffix.subset (by simp)
            have hcontent := isContent_behind_mark (v.element spans).2 hv hwalk.1
              hwalk.2.1 (piece_ne_of_mem_visits hu)
            cases inner with
            | nil =>
                obtain ⟨hhead, -⟩ := List.cons.inj htrace
                rw [(Prod.mk.inj hhead).2] at hcontent
                exact hcontent.elim
            | cons x inner =>
                obtain ⟨rfl, -⟩ := List.cons.inj htrace
                exact ⟨_, List.mem_cons_self, hcontent⟩

/-- The tags of a style pair up in every text: they alternate, and each one that opens a span is
followed by the tag that the mark gives which the search has found, with something between them. -/
theorem paired_format (s : Style) (t : Text) :
    let tokens := ((traceOf t).map Prod.snd).flatMap Inline.tokens
    read? (Inline.format t) = some tokens ∧
      (∃ n, tokens.filter s.IsTag = (List.replicate n [s.opening, s.closing]).flatten) ∧
      ∀ before v rest, traceOf t = before ++ (v, .opens s) :: rest →
        ∃ inner w after, rest = inner ++ (w, .closes s) :: after ∧ Realizes s v w inner := by
  intro tokens
  have htokens : tokens = Inline.tokensOf t := by rw [Inline.tokensOf, ← map_snd_traceOf]
  refine ⟨?_, ?_, fun before v rest h => exists_realizes h⟩
  · rw [htokens, ← Inline.render_tokensOf, read?_render]
  · obtain ⟨n, hn⟩ := exists_filter_trace (s := s) (walk_visits t) (foreseen_empty _)
    have hclosed : Inline.Spans.isOpen s {} = false := by cases s <;> rfl
    rw [hclosed] at hn
    exact ⟨n, hn⟩

end Commentary.Markup
