import Commentary.Proofs.Markup.Address
import Commentary.Proofs.Markup.Token

/-!
# What markup shows

A reader of markup sees its characters, and in the place of a link its name. Inline formatting turns
marks into tags, tags into spaces and brackets into links, and all other characters of a text are
seen in their order, each as often as it stands there.
-/

namespace Commentary.Markup

/-- What is seen of a token: a character, the name of a link, and nothing of a span. -/
def Token.shown : Token → Text
  | char c => [c]
  | tag t => (t.attributes.lookup .name).getD []

/-- The text that is seen of markup. -/
def shown? (markup : Text) : Option Text := (read? markup).map (List.flatMap Token.shown)

/-- The characters that are no marks and that no mark becomes. -/
def isPlain (c : Char) : Bool := !"*_<> ".toList.contains c

variable {t part : Text} {i : Inline}

theorem flatMap_shown_chars (t : Text) : (chars t).flatMap Token.shown = t := by
  induction t with
  | nil => rfl
  | cons c t ih => exact congrArg (c :: ·) ih

theorem shown?_format_eq (t : Text) :
    shown? (Inline.format t) =
      some ((Inline.ofText t).flatMap fun i => i.tokens.flatMap Token.shown) := by
  rw [shown?, ← Inline.render_tokensOf, read?_render, Inline.tokensOf, Option.map_some,
    List.flatMap_assoc]

/-- Of the brackets around a link and the marks around a span nothing is plain. -/
theorem filter_isPlain_bracketed (t : Text) :
    ('<' :: t ++ ['>']).filter isPlain = t.filter isPlain := by
  have hless : isPlain '<' = false := by decide
  have hgreater : isPlain '>' = false := by decide
  simp [hless, hgreater]

theorem filter_isPlain_mark (s : Style) : [s.mark.char].filter isPlain = [] := by
  cases s <;> decide

/-- An element shows the part of the text that it comes from, unless it leads to an address. -/
theorem filter_shown_of_cutFrom (hat : '@' ∉ t) (hcolon : ':' ∉ t) (hdrawn : i.DrawnFrom t)
    (hcut : i.CutFrom part) :
    (i.tokens.flatMap Token.shown).filter isPlain = part.filter isPlain := by
  cases hcut with
  | text t => rw [Inline.tokens, flatMap_shown_chars]
  | space => decide
  | opens s => rw [filter_isPlain_mark]; rfl
  | closes s => rw [filter_isPlain_mark]; rfl
  | address written address => exact absurd (hdrawn.1 hdrawn.2.2) hat
  | url address => exact absurd (hdrawn.1 hdrawn.2.2) hcolon
  | bracketedEmail h => exact absurd (hdrawn.1 hdrawn.2.2) hat
  | bracketedUrl h => exact absurd (hdrawn.1 hdrawn.2.2) hcolon
  | bracketedSymbol h =>
      rw [filter_isPlain_bracketed]
      exact congrArg (List.filter isPlain) (List.append_nil _)

/-- Inline formatting loses and reorders nothing but marks and spaces. -/
theorem filter_shown_format (hat : '@' ∉ t) (hcolon : ':' ∉ t) :
    ∃ s, shown? (Inline.format t) = some s ∧ s.filter isPlain = t.filter isPlain := by
  refine ⟨_, shown?_format_eq t, ?_⟩
  obtain ⟨parts, hparts, hcuts⟩ := Inline.covers_ofText t
  have hdrawn : ∀ i ∈ Inline.ofText t, i.DrawnFrom t := fun _ => Inline.drawnFrom_of_mem_ofText
  conv_rhs => rw [← hparts]
  clear hparts
  generalize Inline.ofText t = elements at hcuts hdrawn
  induction hcuts with
  | nil => rfl
  | cons hcut _ ih =>
      obtain ⟨hi, hrest⟩ := List.forall_mem_cons.mp hdrawn
      rw [List.flatMap_cons, List.flatten_cons, List.filter_append, List.filter_append,
        filter_shown_of_cutFrom hat hcolon hi hcut, ih hrest]

/-- A link, an underlined span whose underscores stand for spaces, and marks that stay. -/
theorem filter_shown_format_nested :
    let t := "a _b_c_ <x_y *z> *d* e_f > g".toList
    ('@' ∉ t ∧ ':' ∉ t) ∧
      ∃ s, shown? (Inline.format t) = some s ∧ s.filter isPlain = t.filter isPlain := by
  have h : '@' ∉ "a _b_c_ <x_y *z> *d* e_f > g".toList ∧
      ':' ∉ "a _b_c_ <x_y *z> *d* e_f > g".toList := by decide
  exact ⟨h, filter_shown_format h.1 h.2⟩

end Commentary.Markup
