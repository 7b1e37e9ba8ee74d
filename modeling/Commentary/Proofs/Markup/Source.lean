import Commentary.Markup.Inline
import Mathlib.Data.List.Forall2
import Mathlib.Tactic.SplitIfs

/-!
# Where inline elements come from

A text is cut into segments, its segments into pieces, and the pieces become inline elements. Each
cut gives the text back, so every element stands for a part of the text, and a link to a symbol
stands for the name of the symbol in its brackets.
-/

namespace Commentary.Markup

/-! ## Segments -/

theorem take_append_of_suffix {rest t : Text} (h : rest <:+ t) :
    t.take (t.length - rest.length) ++ rest = t := by
  obtain ⟨s, rfl⟩ := h
  simp

theorem suffix_of_afterWord? {word t rest : Text} (h : Text.afterWord? word t = some rest) :
    rest <:+ t := by
  induction word generalizing t with
  | nil =>
      cases h
      exact List.suffix_rfl
  | cons m word ih =>
      cases t with
      | nil => exact absurd h (by simp [Text.afterWord?])
      | cons c t =>
          obtain ⟨-, h⟩ := Option.ite_none_right_eq_some.mp h
          exact (ih h).trans (List.suffix_cons c t)

namespace Segment

variable {t rest : Text}

theorem suffix_of_topDomain? {d : Text} (h : topDomain? t = some (d, rest)) : rest <:+ t := by
  obtain ⟨-, h⟩ := Option.ite_none_left_eq_some.mp h
  cases h
  exact List.drop_suffix _ t

theorem suffix_of_domain? {inPart : Bool} {d : Text} (h : domain? inPart t = some (d, rest)) :
    rest <:+ t := by
  induction t generalizing inPart d with
  | nil => exact absurd h (by simp [domain?])
  | cons c t ih =>
      refine List.IsSuffix.trans ?_ (List.suffix_cons c t)
      rw [domain?] at h
      split_ifs at h
      · obtain ⟨⟨d', rest'⟩, hor, heq⟩ := Option.map_eq_some_iff.mp h
        cases heq
        rcases Option.or_eq_some_iff.mp hor with hdomain | ⟨-, htop⟩
        · exact ih hdomain
        · exact suffix_of_topDomain? htop
      · obtain ⟨⟨d', rest'⟩, hdomain, heq⟩ := Option.map_eq_some_iff.mp h
        cases heq
        exact ih hdomain

theorem suffix_of_mailAddress? {address : Text} (h : mailAddress? t = some (address, rest)) :
    rest <:+ t := by
  rw [mailAddress?] at h
  split at h
  · next tail htail =>
      obtain ⟨-, h⟩ := Option.ite_none_right_eq_some.mp h
      obtain ⟨⟨d, rest'⟩, hdomain, heq⟩ := Option.map_eq_some_iff.mp h
      cases heq
      have hbehind : '@' :: tail <:+ t := htail ▸ List.dropWhile_suffix _
      exact ((suffix_of_domain? hdomain).trans (List.suffix_cons '@' tail)).trans hbehind
  · cases h

/-- A segment at the start of a text is the part before the rest. -/
theorem written_append_of_emailAt? {s : Segment} (h : emailAt? t = some (s, rest)) :
    s.written ++ rest = t := by
  obtain ⟨⟨address, rest'⟩, haddress, heq⟩ := Option.map_eq_some_iff.mp h
  cases heq
  have hscheme : withoutMailScheme t <:+ t := by
    rw [withoutMailScheme]
    cases hword : Text.afterWord? mailScheme t with
    | none => exact List.suffix_rfl
    | some body => exact suffix_of_afterWord? hword
  exact take_append_of_suffix ((suffix_of_mailAddress? haddress).trans hscheme)

theorem written_append_of_urlAt? {s : Segment} (h : urlAt? t = some (s, rest)) :
    s.written ++ rest = t := by
  rw [urlAt?] at h
  split at h
  · cases h
  · next body hbody =>
      obtain ⟨scheme, -, hscheme⟩ := List.exists_of_findSome?_eq_some hbody
      obtain ⟨-, h⟩ := Option.ite_none_left_eq_some.mp h
      cases h
      exact take_append_of_suffix ((List.drop_suffix _ body).trans (suffix_of_afterWord? hscheme))

/-- The text that was searched. -/
def Found.whole (f : Found) : Text := f.before ++ (f.segment.written ++ f.rest)

theorem whole_of_firstAt {at? : Option Char → Text → Option (Segment × Text)}
    (hat : ∀ before t s rest, at? before t = some (s, rest) → s.written ++ rest = t)
    {before : Option Char} {f : Found} (h : firstAt at? before t = some f) : f.whole = t := by
  induction t generalizing before f with
  | nil => cases h
  | cons c t ih =>
      rw [firstAt] at h
      split at h
      · next hfound =>
          cases h
          exact hat _ _ _ _ hfound
      · obtain ⟨g, hg, rfl⟩ := Option.map_eq_some_iff.mp h
        exact congrArg (c :: ·) (ih hg)

theorem nearer_eq_some {mail link : Option Found} {f : Found} (h : nearer mail link = some f) :
    mail = some f ∨ link = some f := by
  cases mail <;> cases link <;> simp only [nearer] at h
  · cases h
  · exact .inr h
  · exact .inl h
  · split_ifs at h
    · exact .inr h
    · exact .inl h

theorem flatMap_written_cut (fuel : Nat) (before : Option Char) (t : Text) :
    (cut fuel before t).flatMap written = t := by
  have hplain : ∀ t : Text, (if t = [] then [] else [text t]).flatMap written = t := by
    intro t
    split_ifs with ht
    · exact ht.symm
    · exact List.append_nil t
  induction fuel generalizing before t with
  | zero => exact hplain t
  | succ fuel ih =>
      cases hf : nearer (firstAt acceptedEmail? before t) (firstAt acceptedUrl? before t) with
      | none =>
          rw [cut.eq_def, hf]
          exact hplain t
      | some f =>
          have hwhole : f.whole = t := by
            rcases nearer_eq_some hf with h | h
            · exact whole_of_firstAt
                (fun _ _ _ _ h => written_append_of_emailAt? (Option.filter_eq_some_iff.mp h).1) h
            · exact whole_of_firstAt
                (fun _ _ _ _ h => written_append_of_urlAt? (Option.filter_eq_some_iff.mp h).1) h
          rw [cut.eq_def, hf]
          dsimp only
          rw [List.flatMap_append, List.flatMap_cons, hplain, ih]
          exact hwhole

end Segment

/-! ## Pieces -/

namespace Piece

theorem char_of_ofChar? {c : Char} {m : Mark} (h : Mark.ofChar? c = some m) : m.char = c := by
  rw [Mark.ofChar?] at h
  split_ifs at h <;> cases h <;> simp_all [Mark.char]

theorem flatMap_written_ofPlain (t : Text) : (ofPlain t).flatMap written = t := by
  induction t with
  | nil => rfl
  | cons c t ih =>
      rw [ofPlain]
      split
      · next m hm =>
          rw [List.flatMap_cons, ih, written, char_of_ofChar? hm]
          rfl
      · next run pieces hm hpieces =>
          rw [hpieces] at ih
          exact congrArg (c :: ·) ih
      · exact congrArg (c :: ·) ih

theorem flatMap_written_ofText (t : Text) : (ofText t).flatMap written = t := by
  have hsegment : ∀ s : Segment, (ofSegment s).flatMap written = s.written := by
    intro s
    cases s with
    | text t => exact flatMap_written_ofPlain t
    | email w address => exact List.append_nil w
    | url address => exact List.append_nil address
  rw [ofText, List.flatMap_assoc, funext hsegment]
  exact Segment.flatMap_written_cut _ _ t

end Piece

/-! ## Elements -/

theorem Target.eq_of_ofText_eq_symbol {t name : Text} (h : Target.ofText t = .symbol name) :
    t = name := by
  rw [ofText] at h
  repeat' split at h
  all_goals cases h
  rfl

/-- The mark that opens and closes a span. -/
def Style.mark : Style → Mark
  | .bold => .star
  | .underline => .underscore

/-- The part of a text that an element comes from. -/
inductive Inline.CutFrom : Inline → Text → Prop where
  | text (t : Text) : CutFrom (.text t) t
  /-- An underscore in an underlined span. -/
  | space : CutFrom (.text [' ']) ['_']
  | opens (s : Style) : CutFrom (.opens s) [s.mark.char]
  | closes (s : Style) : CutFrom (.closes s) [s.mark.char]
  | address (written address : Text) : CutFrom (.link (.email address address)) written
  | url (address : Text) : CutFrom (.link (.url address address)) address
  | bracketedEmail {t address name : Text} (h : Target.ofText t = .email address name) :
      CutFrom (.link (.email address name)) ('<' :: t ++ ['>'])
  | bracketedUrl {t address name : Text} (h : Target.ofText t = .url address name) :
      CutFrom (.link (.url address name)) ('<' :: t ++ ['>'])
  | bracketedSymbol {name : Text} (h : Target.ofText name = .symbol name) :
      CutFrom (.link (.symbol name)) ('<' :: name ++ ['>'])

namespace Inline

theorem cutFrom_bracketed (t : Text) : CutFrom (.link (.ofText t)) ('<' :: t ++ ['>']) := by
  cases h : Target.ofText t with
  | email address name => exact .bracketedEmail h
  | url address name => exact .bracketedUrl h
  | symbol name =>
      cases Target.eq_of_ofText_eq_symbol h
      exact .bracketedSymbol h

theorem cutFrom_ofStar (spans : Spans) (before : Option Piece) (rest : List Piece) :
    (ofStar spans before rest).1.CutFrom ['*'] := by
  rw [ofStar]
  split_ifs
  · exact .opens .bold
  · exact .closes .bold
  · exact .text ['*']

theorem cutFrom_ofUnderscore (spans : Spans) (before : Option Piece) (rest : List Piece) :
    (ofUnderscore spans before rest).1.CutFrom ['_'] := by
  rw [ofUnderscore]
  split
  · exact .opens .underline
  · split_ifs
    · exact .closes .underline
    · exact .space
    · exact .text ['_']

/-- The mark that closes a link stands behind the pieces in it. -/
theorem drop_of_linkLength? {before : Piece} {passed n : Nat} {pieces : List Piece}
    (h : linkLength? before passed pieces = some n) :
    ∃ inner rest, pieces = inner ++ .mark .greater :: rest ∧ n = passed + inner.length := by
  induction pieces generalizing before passed with
  | nil => cases h
  | cons p rest ih =>
      rw [linkLength?] at h
      split_ifs at h with _ hclose
      · cases h
        exact ⟨[], rest, by rw [hclose.1]; rfl, rfl⟩
      · obtain ⟨inner, tail, rfl, rfl⟩ := ih h
        exact ⟨p :: inner, tail, rfl, by simp; omega⟩

theorem eq_append_of_openedLink? {before : Option Piece} {pieces inner : List Piece}
    (h : openedLink? before pieces = some inner) :
    ∃ rest, pieces = inner ++ .mark .greater :: rest := by
  obtain ⟨-, h⟩ := Option.ite_none_right_eq_some.mp h
  obtain ⟨n, hn, rfl⟩ := Option.map_eq_some_iff.mp h
  obtain ⟨inner, rest, rfl, rfl⟩ := drop_of_linkLength? hn
  exact ⟨rest, by simp⟩

/-- The elements of a text come from parts of it, one behind the other. -/
def Covers (elements : List Inline) (t : Text) : Prop :=
  ∃ parts : List Text, parts.flatten = t ∧ List.Forall₂ CutFrom elements parts

theorem Covers.cons {i : Inline} {part t : Text} {elements : List Inline} (h : i.CutFrom part)
    (hrest : Covers elements t) : Covers (i :: elements) (part ++ t) := by
  obtain ⟨parts, rfl, hparts⟩ := hrest
  exact ⟨part :: parts, rfl, .cons h hparts⟩

theorem covers_ofPiecesFrom (spans : Spans) (before : Option Piece) (skip : Nat)
    (pieces : List Piece) :
    Covers (ofPiecesFrom spans before skip pieces) ((pieces.drop skip).flatMap Piece.written) := by
  induction pieces generalizing spans before skip with
  | nil => exact ⟨[], by simp, .nil⟩
  | cons p rest ih =>
      cases skip with
      | succ skip => exact ih spans (some p) skip
      | zero =>
          have hone : ∀ {i : Inline} {spans : Spans}, i.CutFrom p.written →
              Covers (i :: ofPiecesFrom spans (some p) 0 rest)
                ((p :: rest).flatMap Piece.written) :=
            fun h => .cons h (ih _ _ 0)
          cases p with
          | text t => exact hone (.text t)
          | email w address => exact hone (.address w address)
          | url address => exact hone (.url address)
          | mark m =>
              cases m with
              | greater => exact hone (.text ['>'])
              | star => exact hone (cutFrom_ofStar spans before rest)
              | underscore => exact hone (cutFrom_ofUnderscore spans before rest)
              | less =>
                  rw [ofPiecesFrom]
                  split
                  · next inner hinner =>
                      -- The pieces of the link are skipped, its closing mark included.
                      obtain ⟨tail, rfl⟩ := eq_append_of_openedLink? hinner
                      have hlink := Covers.cons (cutFrom_bracketed (inner.flatMap Piece.written))
                        (ih spans (some (.mark .less)) (inner.length + 1))
                      simpa [Piece.written, Mark.char] using hlink
                  · exact hone (.text ['<'])

theorem covers_ofText (t : Text) : Covers (ofText t) t := by
  have h := covers_ofPiecesFrom {} none 0 (Piece.ofText t)
  rwa [List.drop_zero, Piece.flatMap_written_ofText] at h

end Inline

end Commentary.Markup
