import Commentary.Markup.Block

/-!
# How a body grows

A line that is read adds to the last block, or it begins another one, or it changes nothing that
is written. What each line can do is stated here once, for the body that would be left if it ended
there. All that is said about the blocks of a body follows from that, line by line.
-/

namespace Commentary.Markup

/-- An entry that a line without indentation gives. -/
structure EntryOf (kind : TopicKind) (line : Text) (e : Entry) : Prop where
  listed : e.isSymbol → kind.isList
  defined : definition? line = some (e.term, e.description)

/-- A block that a line begins. -/
inductive Starts (kind : TopicKind) (line : Text) : Block → Prop where
  | paragraph (t : Text) : Starts kind line (.paragraph t)
  | heading (t : Text) : Starts kind line (.heading t)
  | bullets (item : Text) : Starts kind line (.bullets [item])
  | entries {e : Entry} (h : EntryOf kind line e) : Starts kind line (.entries [e])
  | code (lines : List Text) : Starts kind line (.code lines)

/-- A block before and after a line that goes on with it. -/
inductive Grows (kind : TopicKind) (line : Text) : Block → Block → Prop where
  | paragraph (t t' : Text) : Grows kind line (.paragraph t) (.paragraph t')
  | bullets (items : List Text) {items' : List Text} (h : items' ≠ []) :
      Grows kind line (.bullets items) (.bullets items')
  | entry (items : List Entry) {e : Entry} (h : EntryOf kind line e) :
      Grows kind line (.entries items) (.entries (items ++ [e]))
  | description (items : List Entry) (e : Entry) (description : Text) :
      Grows kind line (.entries (items ++ [e])) (.entries (items ++ [{ e with description }]))
  | code (lines lines' : List Text) : Grows kind line (.code lines) (.code lines')

/-- The blocks of a body before and after a line. -/
inductive Extends (kind : TopicKind) (line : Text) : List Block → List Block → Prop where
  | same (blocks : List Block) : Extends kind line blocks blocks
  | push (blocks : List Block) {b : Block} (h : Starts kind line b) :
      Extends kind line blocks (blocks ++ [b])
  | grow (blocks : List Block) {b b' : Block} (h : Grows kind line b b') :
      Extends kind line (blocks ++ [b]) (blocks ++ [b'])

/-- The blocks of a body before and after some lines. -/
inductive Built (kind : TopicKind) : List Text → List Block → List Block → Prop where
  | nil (blocks : List Block) : Built kind [] blocks blocks
  | cons {line : Text} {lines : List Text} {before mid after : List Block}
      (h : Extends kind (Text.trimStart Text.isSpace line) before mid)
      (hrest : Built kind lines mid after) : Built kind (line :: lines) before after

variable {kind : TopicKind} {line : Text} {before after : List Block}

theorem Extends.append_left (h : Extends kind line before after) (blocks : List Block) :
    Extends kind line (blocks ++ before) (blocks ++ after) := by
  cases h with
  | same => exact .same _
  | push _ h =>
      rw [← List.append_assoc]
      exact .push _ h
  | grow rest h =>
      rw [← List.append_assoc, ← List.append_assoc]
      exact .grow _ h

theorem Built.append_left {lines : List Text} (h : Built kind lines before after)
    (blocks : List Block) : Built kind lines (blocks ++ before) (blocks ++ after) := by
  induction h with
  | nil => exact .nil _
  | cons h _ ih => exact .cons (h.append_left blocks) ih

/-! ## A line -/

namespace OpenBlock

/-- Lines of code are read in another way than text. -/
def isCode : OpenBlock → Bool
  | marked .. | verbatim .. => true
  | _ => false

theorem extends_addText {o : OpenBlock} (h : ¬ o.isCode) (t : Text) :
    Extends kind line o.close (o.addText t).close := by
  cases o with
  | none => exact .push [] (.paragraph t)
  | paragraph s => exact .grow [] (.paragraph _ _)
  | bullets done last => exact .grow [] (.bullets _ (by simp))
  | entries done last => exact .grow [] (.description done last _)
  | marked lines thenBlank => exact absurd rfl h
  | verbatim lines => exact absurd rfl h

theorem extends_addBullet (o : OpenBlock) (item : Text) :
    Extends kind line o.close ((o.addBullet item).1 ++ (o.addBullet item).2.close) := by
  cases o with
  | bullets done last => exact .grow [] (.bullets _ (by simp))
  | _ => exact .push _ (.bullets item)

theorem extends_addEntry (o : OpenBlock) {e : Entry} (h : EntryOf kind line e) :
    Extends kind line o.close ((o.addEntry e).1 ++ (o.addEntry e).2.close) := by
  cases o with
  | entries done last => exact .grow [] (.entry _ h)
  | _ => exact .push _ (.entries h)

end OpenBlock

namespace Reader

/-- The blocks that a line ends, and the one that it leaves open, if the body ended there. -/
def given (step : List Block × Reader) : List Block := step.1 ++ step.2.current.close

theorem extends_stepText {r : Reader} (h : ¬ r.current.isCode) :
    Extends kind line r.current.close (given (r.stepText kind line)) := by
  rw [stepText.eq_def]
  split
  · -- A blank line ends a paragraph, and leaves other blocks open.
    cases hc : r.current with
    | paragraph t => exact .same _
    | _ =>
        simp only [given, List.nil_append]
        exact .same _
  · split
    · next item _ => exact r.current.extends_addBullet item
    · split
      · next term description hdefined =>
          refine r.current.extends_addEntry ⟨fun hs => ?_, ?_⟩
          · exact (Bool.and_eq_true_iff.mp hs).1
          · -- Nothing is defined inside of a paragraph.
            split at hdefined
            · cases hdefined
            · exact hdefined
      · split
        · next t _ =>
            simp only [given, OpenBlock.close, List.append_nil]
            exact .push _ (.heading t)
        · split
          · exact .push _ (.code _)
          · split
            · exact .push _ (.paragraph line)
            · exact OpenBlock.extends_addText h line

theorem extends_stepMarked {r : Reader} (h : ¬ r.current matches .verbatim _) :
    Extends kind (Text.trimStart Text.isSpace line) r.current.close
      (given (r.stepMarked kind line)) := by
  rw [stepMarked.eq_def]
  split
  · next code lines thenBlank _ hc =>
      rw [hc]
      exact .grow [] (.code _ _)
  · next code _ _ => exact .push _ (.code _)
  · next lines thenBlank _ hc =>
      rw [hc]
      dsimp only
      split
      · exact .same _
      · let r' : Reader := { r with current := .none, afterBlank := thenBlank }
        have htext : ¬ r'.current.isCode := by simp [r', OpenBlock.isCode]
        exact (extends_stepText htext).append_left [.code (dedent lines)]
  · next hc =>
      refine extends_stepText ?_
      cases ho : r.current with
      | marked lines thenBlank => exact absurd ho (hc lines thenBlank)
      | verbatim lines => simp [ho] at h
      | _ => simp [OpenBlock.isCode]

/-- A line extends what is written of the body. -/
theorem extends_step (r : Reader) (line : Text) :
    Extends kind (Text.trimStart Text.isSpace line) r.current.close (given (r.step kind line)) := by
  rw [step.eq_def]
  split
  · next lines hc =>
      rw [hc]
      split
      · exact .same _
      · exact .grow [] (.code _ _)
  · next hc =>
      refine extends_stepMarked ?_
      cases ho : r.current with
      | verbatim lines => exact absurd ho (hc lines)
      | _ => simp

theorem built_blocks (r : Reader) (lines : List Text) :
    Built kind lines r.current.close (r.blocks kind lines) := by
  induction lines generalizing r with
  | nil => exact .nil _
  | cons line lines ih =>
      exact .cons (r.extends_step line) ((ih (r.step kind line).2).append_left _)

end Reader

/-- The blocks of a body, line by line. -/
theorem built_ofLines (kind : TopicKind) (lines : List Text) :
    Built kind lines [] (Block.ofLines kind lines) :=
  Reader.built_blocks {} lines

end Commentary.Markup
