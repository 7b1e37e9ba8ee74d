import Commentary.Proofs.Markup.Source

/-!
# Two walks through the pieces

The elements of a text are written in one walk through its pieces, and before a span is opened its
end is looked for in another. Both look at the same pieces: they pass over those that belong to a
link, and over no others. These visits are listed here, and each of the walks is read off the list.
-/

namespace Commentary.Markup

/-! ## Visits -/

/-- A piece that is looked at, where it stands. -/
structure Visit where
  /-- The number of pieces before it. -/
  place : Nat
  before : Option Piece
  piece : Piece
  /-- The pieces behind it. -/
  after : List Piece

namespace Visit

/-- The number of pieces behind it that belong to a link that it opens. -/
def linked (v : Visit) : Nat :=
  if v.piece = .mark .less then ((openedLink? v.before v.after).map (·.length + 1)).getD 0 else 0

/-- What it does to the spans of a style. -/
def role (s : Style) (v : Visit) : Role :=
  if v.piece = .mark s.mark then s.mark.role v.before v.after.head? else .literal

end Visit

/-- The pieces that are looked at, where `place` is the place of the first one. `skip` counts the
pieces to come that belong to a link. -/
def visitsFrom (place : Nat) (before : Option Piece) (skip : Nat) : List Piece → List Visit
  | [] => []
  | p :: rest =>
    match skip with
    | skip + 1 => visitsFrom (place + 1) (some p) skip rest
    | 0 =>
      let v : Visit := ⟨place, before, p, rest⟩
      v :: visitsFrom (place + 1) (some p) v.linked rest

/-- The pieces of a text that are looked at. -/
def visits (t : Text) : List Visit := visitsFrom 0 none 0 (Piece.ofText t)

variable {place skip : Nat} {before : Option Piece} {pieces : List Piece} {v : Visit}

/-- A visit is at a piece of the text, and it sees what stands around it. -/
theorem of_mem_visitsFrom (h : v ∈ visitsFrom place before skip pieces) :
    ∃ passed, pieces = passed ++ v.piece :: v.after ∧ v.place = place + passed.length ∧
      v.before = passed.getLast?.or before := by
  induction pieces generalizing place before skip with
  | nil => cases h
  | cons p rest ih =>
      have hrest : ∀ {skip}, v ∈ visitsFrom (place + 1) (some p) skip rest →
          ∃ passed, p :: rest = passed ++ v.piece :: v.after ∧ v.place = place + passed.length ∧
            v.before = passed.getLast?.or before := by
        intro skip hv
        obtain ⟨passed, rfl, hplace, hbefore⟩ := ih hv
        refine ⟨p :: passed, rfl, by simp [hplace]; omega, ?_⟩
        rw [hbefore, List.getLast?_cons]
        cases passed.getLast? <;> rfl
      cases skip with
      | succ skip => exact hrest h
      | zero =>
          rcases List.mem_cons.mp h with rfl | h
          · exact ⟨[], rfl, rfl, rfl⟩
          · exact hrest h

theorem place_le_of_mem_visitsFrom (h : v ∈ visitsFrom place before skip pieces) :
    place ≤ v.place := by
  obtain ⟨passed, -, hplace, -⟩ := of_mem_visitsFrom h
  omega

/-- Visits go through a text from its start to its end. -/
theorem pairwise_place_visitsFrom (place : Nat) (before : Option Piece) (skip : Nat)
    (pieces : List Piece) :
    (visitsFrom place before skip pieces).Pairwise fun v w => v.place < w.place := by
  induction pieces generalizing place before skip with
  | nil => exact .nil
  | cons p rest ih =>
      cases skip with
      | succ skip => exact ih _ _ _
      | zero =>
          refine .cons (fun w hw => ?_) (ih _ _ _)
          exact place_le_of_mem_visitsFrom hw

/-! ## Looking for the end of a span -/

/-- The places that are looked at for the end of a span, counted from its start. The mark that
closes the span stands at the last one. -/
def spanPlaces? (m : Mark) (before : Piece) (place skip : Nat) : List Piece → Option (List Nat)
  | [] => none
  | p :: rest =>
    match skip with
    | skip + 1 => spanPlaces? m p (place + 1) skip rest
    | 0 =>
      if p = .mark .less ∧ Mark.role .less (some before) rest.head? = .opens then
        (spanPlaces? m p (place + 1) (((linkLength? p 0 rest).map (· + 1)).getD 0) rest).map
          (place :: ·)
      else if p = .mark m then
        match m.role (some before) rest.head? with
        | .opens => none
        | .closes => if place = 0 then none else some [place]
        | .literal => (spanPlaces? m p (place + 1) 0 rest).map (place :: ·)
      else (spanPlaces? m p (place + 1) 0 rest).map (place :: ·)

theorem ne_nil_of_spanPlaces? {m : Mark} {before : Piece} {places : List Nat}
    (h : spanPlaces? m before place skip pieces = some places) : places ≠ [] := by
  induction pieces generalizing before place skip places with
  | nil => cases h
  | cons p rest ih =>
      cases skip with
      | succ skip => exact ih h
      | zero =>
          have hmap : ∀ {o : Option (List Nat)},
              o.map (place :: ·) = some places → places ≠ [] := by
            intro o ho
            obtain ⟨more, -, rfl⟩ := Option.map_eq_some_iff.mp ho
            exact List.cons_ne_nil _ _
          rw [spanPlaces?] at h
          split at h
          · exact hmap h
          · split at h
            · split at h
              · cases h
              · obtain ⟨-, h⟩ := Option.ite_none_left_eq_some.mp h
                cases h
                exact List.cons_ne_nil _ _
              · exact hmap h
            · exact hmap h

/-- The length of a span is the last of the places that are looked at for its end. -/
theorem spanLength?_eq_getLast? (m : Mark) (before : Piece) (place skip : Nat)
    (pieces : List Piece) :
    spanLength? m before place skip pieces =
      (spanPlaces? m before place skip pieces).bind List.getLast? := by
  induction pieces generalizing before place skip with
  | nil => rfl
  | cons p rest ih =>
      have hmap : ∀ skip, spanLength? m p (place + 1) skip rest =
          ((spanPlaces? m p (place + 1) skip rest).map (place :: ·)).bind List.getLast? := by
        intro skip
        rw [ih]
        cases hplaces : spanPlaces? m p (place + 1) skip rest with
        | none => rfl
        | some places =>
            have hne := ne_nil_of_spanPlaces? hplaces
            simp [List.getLast?_cons, List.getLast?_eq_some_getLast hne]
      cases skip with
      | succ skip => exact ih p (place + 1) skip
      | zero =>
          rw [spanLength?, spanPlaces?]
          split
          · exact hmap _
          · split
            · cases m.role (some before) rest.head? with
              | opens => rfl
              | closes => by_cases h0 : place = 0 <;> simp [h0]
              | literal => exact hmap 0
            · exact hmap 0

/-! ### Through the visits -/

/-- The places of visits up to the mark that closes a span, if none opens another one before. -/
def reach? (s : Style) : List Visit → Option (List Nat)
  | [] => none
  | v :: vs =>
    match v.role s with
    | .opens => none
    | .closes => some [v.place]
    | .literal => (reach? s vs).map (v.place :: ·)

/-- A mark of a span does nothing right behind another one. -/
theorem role_eq_literal (s : Style) {before : Piece} (h : before.endsIn "*_".toList)
    (after : Option Piece) : s.mark.role (some before) after = .literal := by
  have hopen : s.mark.canOpen (some before) after = false := by
    cases s <;> simp only [Mark.canOpen, Style.mark, Option.all_some, h] <;> simp
  have hclose : s.mark.canClose (some before) after = false := by
    cases s <;> simp only [Mark.canClose, Style.mark, Option.all_some, h] <;> simp
  rw [Mark.role, hopen, hclose]
  rfl

theorem endsIn_mark (s : Style) : (Piece.mark s.mark).endsIn "*_".toList := by
  cases s <;> rfl

theorem mark_ne_less (s : Style) : s.mark ≠ .less := by
  cases s <;> decide

theorem linked_of_ne_less {p : Piece} (h : p ≠ .mark .less) (place : Nat) (before : Option Piece)
    (rest : List Piece) : Visit.linked ⟨place, before, p, rest⟩ = 0 := if_neg h

theorem linked_of_opens (place : Nat) {before : Option Piece} {rest : List Piece}
    (h : Mark.role .less before rest.head? = .opens) :
    Visit.linked ⟨place, before, .mark .less, rest⟩ =
      ((linkLength? (.mark .less) 0 rest).map (· + 1)).getD 0 := by
  rw [Visit.linked, if_pos rfl, openedLink?, if_pos h]
  cases hlength : linkLength? (.mark .less) 0 rest with
  | none => rfl
  | some n =>
      obtain ⟨inner, tail, rfl, rfl⟩ := Inline.drop_of_linkLength? hlength
      simp

theorem linked_of_not_opens (place : Nat) {before : Option Piece} {rest : List Piece}
    (h : Mark.role .less before rest.head? ≠ .opens) :
    Visit.linked ⟨place, before, .mark .less, rest⟩ = 0 := by
  rw [Visit.linked, if_pos rfl, openedLink?, if_neg h]
  rfl

/-- The search for the end of a span makes the same visits as the walk that writes the elements. -/
theorem spanPlaces?_eq_reach? (s : Style) {before : Piece}
    (h : place = 0 → before.endsIn "*_".toList) (skip : Nat) (pieces : List Piece) :
    spanPlaces? s.mark before place skip pieces =
      reach? s (visitsFrom place (some before) skip pieces) := by
  induction pieces generalizing before place skip with
  | nil => rfl
  | cons p rest ih =>
      have hrest : ∀ skip, spanPlaces? s.mark p (place + 1) skip rest =
          reach? s (visitsFrom (place + 1) (some p) skip rest) :=
        ih fun h => absurd h (Nat.succ_ne_zero place)
      cases skip with
      | succ skip => exact hrest skip
      | zero =>
          rw [spanPlaces?, visitsFrom, reach?, ← hrest, Visit.role]
          by_cases hp : p = .mark s.mark
          · have hless : p ≠ .mark .less := by
              rw [hp, Ne, Piece.mark.injEq]
              exact mark_ne_less s
            rw [if_neg (fun ho => hless ho.1), if_pos hp, if_pos hp, linked_of_ne_less hless]
            cases hrole : s.mark.role (some before) rest.head? with
            | opens => rfl
            | literal => rfl
            | closes =>
                -- Right behind the mark that opens the span no mark closes it.
                refine if_neg fun h0 => ?_
                rw [role_eq_literal s (h h0)] at hrole
                cases hrole
          · rw [if_neg hp, if_neg hp]
            by_cases hl : p = .mark .less
            · subst hl
              by_cases ho : Mark.role .less (some before) rest.head? = .opens
              · rw [if_pos ⟨rfl, ho⟩, linked_of_opens place ho]
              · rw [if_neg fun hand => ho hand.2, linked_of_not_opens place ho]
            · rw [if_neg fun hand => hl hand.1, linked_of_ne_less hl]

/-! ## Writing the elements -/

namespace Visit

open Inline

/-- The element that a visit writes, and the spans that are open behind it. -/
def element (spans : Spans) (v : Visit) : Inline × Spans :=
  match v.piece with
  | .text t => (text t, spans)
  | .email _ address => (link (.email address address), spans)
  | .url address => (link (.url address address), spans)
  | .mark .greater => (text ['>'], spans)
  | .mark .less =>
    match openedLink? v.before v.after with
    | some inner => (link (.ofText (inner.flatMap Piece.written)), spans)
    | none => (text ['<'], spans)
  | .mark .star => ofStar spans v.before v.after
  | .mark .underscore => ofUnderscore spans v.before v.after

end Visit

/-- Visits with the elements that they write. -/
def trace (spans : Inline.Spans) : List Visit → List (Visit × Inline)
  | [] => []
  | v :: vs => (v, (v.element spans).1) :: trace (v.element spans).2 vs

theorem map_fst_trace (spans : Inline.Spans) (vs : List Visit) :
    (trace spans vs).map Prod.fst = vs := by
  induction vs generalizing spans with
  | nil => rfl
  | cons v vs ih => exact congrArg (v :: ·) (ih _)

/-- The elements of a text are written one by one at the visits. -/
theorem map_snd_trace (spans : Inline.Spans) (place : Nat) (before : Option Piece) (skip : Nat)
    (pieces : List Piece) :
    (trace spans (visitsFrom place before skip pieces)).map Prod.snd =
      Inline.ofPiecesFrom spans before skip pieces := by
  induction pieces generalizing spans place before skip with
  | nil => rfl
  | cons p rest ih =>
      cases skip with
      | succ skip => exact ih spans (place + 1) (some p) skip
      | zero =>
          rw [visitsFrom, trace, List.map_cons, ih]
          rcases p with (_ | _ | _ | _) | _ | _ | _
          case mark.less =>
            simp only [Inline.ofPiecesFrom, Visit.element, Visit.linked]
            cases openedLink? before rest <;> rfl
          all_goals rfl

end Commentary.Markup
