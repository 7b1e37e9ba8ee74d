import Commentary.Proofs.Markup.Growth
import Commentary.Proofs.Markup.Token

/-!
# The grammar of a body

A body is a sequence of complete blocks. No list in it is empty, and an entry is a symbol only in
a topic that lists symbols. All marks of tags are those of the tags that are written on purpose,
so a reader finds these tags in it and no others.
-/

namespace Commentary.Markup

/-- A complete block of the body of a topic. -/
inductive IsBlock (kind : TopicKind) : Text → Prop where
  | paragraph (t : Text) : IsBlock kind (element "p" (Inline.format t))
  | heading (t : Text) : IsBlock kind (element "h" (Inline.format t))
  | bullets {items : List Text} (h : items ≠ []) :
      IsBlock kind (element "ul" (items.flatMap fun t => element "li" (Inline.format t)))
  | entries {items : List Entry} (h : items ≠ [])
      (hlisted : ∀ e ∈ items, e.isSymbol → kind.isList) :
      IsBlock kind (element "dl" (items.flatMap fun e =>
        element (if e.isSymbol then "ds" else "de") (escape e.term) ++
          element "dd" (Inline.format e.description)))
  | code (t : Text) :
      IsBlock kind ("<code type=\"anonymous\">".toList ++ escape t ++ "</code>".toList)

/-- Complete blocks, one behind the other. -/
inductive IsBody (kind : TopicKind) : Text → Prop where
  | nil : IsBody kind []
  | append {s t : Text} (h : IsBlock kind s) (hrest : IsBody kind t) : IsBody kind (s ++ t)

namespace Block

/-- A list in a body is not empty, and only topics that list symbols have entries for them. -/
def Proper (kind : TopicKind) : Block → Prop
  | bullets items => items ≠ []
  | entries items => items ≠ [] ∧ ∀ e ∈ items, e.isSymbol → kind.isList
  | _ => True

end Block

variable {kind : TopicKind} {line : Text}

/-! ## Every line keeps blocks proper -/

theorem Starts.proper {b : Block} (h : Starts kind line b) : b.Proper kind := by
  cases h with
  | paragraph t => trivial
  | heading t => trivial
  | bullets item => exact List.cons_ne_nil item []
  | entries h => exact ⟨List.cons_ne_nil _ [], by simpa using h.listed⟩
  | code lines => trivial

theorem Grows.proper {b b' : Block} (h : Grows kind line b b') (hb : b.Proper kind) :
    b'.Proper kind := by
  cases h with
  | paragraph t t' => trivial
  | bullets items h => exact h
  | entry items h =>
      refine ⟨by simp, fun x hx => ?_⟩
      rcases List.mem_append.mp hx with hx | hx
      · exact hb.2 x hx
      · exact List.mem_singleton.mp hx ▸ h.listed
  | description items e description =>
      refine ⟨by simp, fun x hx => ?_⟩
      rcases List.mem_append.mp hx with hx | hx
      · exact hb.2 x (by simp [hx])
      · exact List.mem_singleton.mp hx ▸ hb.2 e (by simp)
  | code lines lines' => trivial

theorem Extends.proper {before after : List Block} (h : Extends kind line before after)
    (hbefore : ∀ b ∈ before, b.Proper kind) : ∀ b ∈ after, b.Proper kind := by
  cases h with
  | same => exact hbefore
  | push _ h =>
      rw [List.forall_mem_append]
      exact ⟨hbefore, List.forall_mem_singleton.mpr h.proper⟩
  | grow _ h =>
      rw [List.forall_mem_append] at hbefore ⊢
      exact ⟨hbefore.1, List.forall_mem_singleton.mpr
        (h.proper (List.forall_mem_singleton.mp hbefore.2))⟩

theorem Built.proper {lines : List Text} {before after : List Block}
    (h : Built kind lines before after) (hbefore : ∀ b ∈ before, b.Proper kind) :
    ∀ b ∈ after, b.Proper kind := by
  induction h with
  | nil => exact hbefore
  | cons h _ ih => exact ih (h.proper hbefore)

theorem Block.proper_of_mem_ofLines {lines : List Text} {b : Block}
    (h : b ∈ Block.ofLines kind lines) : b.Proper kind :=
  (built_ofLines kind lines).proper (fun _ hb => absurd hb List.not_mem_nil) b h

/-! ## What is written -/

theorem Block.Proper.isBlock {b : Block} (h : b.Proper kind) : IsBlock kind b.render := by
  unfold Block.render
  cases b with
  | paragraph t => exact .paragraph t
  | heading t => exact .heading t
  | bullets items => exact .bullets h
  | entries items => exact .entries h.1 h.2
  | code lines =>
      have hopen : "<code".toList ++ tagAttribute "type" "anonymous".toList ++ ['>'] =
          "<code type=\"anonymous\">".toList := by simp [tagAttribute]
      have hcode := @IsBlock.code kind (Text.join [Text.lineFeed] lines)
      rw [← hopen] at hcode
      simpa using hcode

theorem isBody_flatMap_render {blocks : List Block} (h : ∀ b ∈ blocks, b.Proper kind) :
    IsBody kind (blocks.flatMap Block.render) := by
  induction blocks with
  | nil => exact .nil
  | cons b blocks ih =>
      obtain ⟨hb, hblocks⟩ := List.forall_mem_cons.mp h
      exact .append hb.isBlock (ih hblocks)

/-- A token of a text is written without the marks of tags. -/
theorem Token.eq_tag_of_isMarkup {token : Token} {c : Char} (hc : c ∈ token.render)
    (h : IsMarkup c) : ∃ t, token = .tag t := by
  cases token with
  | char d => exact absurd h (not_isMarkup_of_mem_escapeChar hc)
  | tag t => exact ⟨t, rfl⟩

/-- The body of a topic consists of complete blocks, whatever its lines are. The marks of tags in
it are those of the tags that its blocks consist of, and a reader of markup finds these tags again,
with the texts that stand between them and in their attributes. -/
theorem isBody_formatBody (kind : TopicKind) (lines : List Text) :
    let tokens := (Block.ofLines kind lines).flatMap Block.tokens
    IsBody kind (formatBody kind lines) ∧
      formatBody kind lines = tokens.flatMap Token.render ∧
      (∀ token ∈ tokens, ∀ c ∈ token.render, IsMarkup c → ∃ t, token = .tag t) ∧
      read? (formatBody kind lines) = some tokens :=
  ⟨isBody_flatMap_render fun _ => Block.proper_of_mem_ofLines,
    (flatMap_render_flatMap Block.render_tokens _).symm,
    fun _ _ _ => Token.eq_tag_of_isMarkup, read?_formatBody kind lines⟩

end Commentary.Markup
