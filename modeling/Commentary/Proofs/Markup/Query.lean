import Commentary.Markup.Query
import Commentary.Proofs.Markup.Growth
import Commentary.Proofs.Markup.Source
import Commentary.Proofs.Markup.Token
import Commentary.Proofs.Text.Parts

/-!
# What queries find

A query looks for one tag. It passes over text and over all other tags, so what it finds in a body
is what it finds in the parts that the body is written from, one behind the other.
-/

namespace Commentary.Markup

/-! ## Looking through a text -/

section Scan

variable {α β : Type} {s t : Text}

/-- Nothing starts in a text, whatever follows it. -/
def Misses (at? : Text → Option α) : Text → Prop
  | [] => True
  | c :: s => (∀ rest, at? (c :: s ++ rest) = none) ∧ Misses at? s

theorem Misses.append {at? : Text → Option α} (hs : Misses at? s) (ht : Misses at? t) :
    Misses at? (s ++ t) := by
  induction s with
  | nil => exact ht
  | cons c s ih =>
      refine ⟨fun rest => ?_, ih hs.2⟩
      have h := hs.1 (t ++ rest)
      rwa [← List.append_assoc] at h

theorem Misses.flatMap {at? : Text → Option α} {write : β → Text} {l : List β}
    (h : ∀ b ∈ l, Misses at? (write b)) : Misses at? (l.flatMap write) := by
  induction l with
  | nil => trivial
  | cons b l ih =>
      obtain ⟨hb, hl⟩ := List.forall_mem_cons.mp h
      exact hb.append (ih hl)

theorem Misses.cutAt?_append {mark : Text} (h : Misses (Text.afterStart? mark) s) (t : Text) :
    Text.cutAt? mark (s ++ t) =
      (Text.cutAt? mark t).map fun (before, after) => (s ++ before, after) := by
  induction s with
  | nil =>
      rw [List.nil_append]
      cases Text.cutAt? mark t <;> rfl
  | cons c s ih =>
      have hnone : Text.afterStart? mark (c :: (s ++ t)) = none := h.1 t
      rw [List.cons_append, Text.cutAt?, hnone, ih h.2]
      cases Text.cutAt? mark t <;> rfl

theorem cutAt?_append (mark t : Text) : Text.cutAt? mark (mark ++ t) = some ([], t) := by
  cases mark with
  | nil => cases t <;> rfl
  | cons m mark =>
      have h := Text.afterStart?_append (m :: mark) t
      rw [List.cons_append] at h ⊢
      rw [Text.cutAt?, h]

variable {at? : Text → Option (α × Text)}

theorem findAll_eq_drop (skip : Nat) (t : Text) :
    findAll at? skip t = findAll at? 0 (t.drop skip) := by
  induction t generalizing skip with
  | nil => rw [List.drop_nil]; rfl
  | cons c t ih =>
      cases skip with
      | zero => rfl
      | succ skip => exact ih skip

/-- What is found in a text, none of it reaching into what follows. -/
def Finds (at? : Text → Option (α × Text)) (s : Text) (found : List α) : Prop :=
  ∀ rest, findAll at? 0 (s ++ rest) = found ++ findAll at? 0 rest

theorem Misses.finds (h : Misses at? s) : Finds at? s [] := by
  intro rest
  induction s with
  | nil => rfl
  | cons c s ih =>
      have hnone : at? (c :: (s ++ rest)) = none := h.1 rest
      simp only [List.cons_append, findAll, hnone]
      exact ih h.2

theorem finds_of_at? {c : Char} {a : α} (h : ∀ rest, at? (c :: s ++ rest) = some (a, rest)) :
    Finds at? (c :: s) [a] := by
  intro rest
  have hsome : at? (c :: (s ++ rest)) = some (a, rest) := h rest
  simp only [List.cons_append, findAll, hsome, List.nil_append]
  rw [findAll_eq_drop]
  simp

theorem Finds.append {l m : List α} (hs : Finds at? s l) (ht : Finds at? t m) :
    Finds at? (s ++ t) (l ++ m) := by
  intro rest
  rw [List.append_assoc, hs, ht, List.append_assoc]

theorem Finds.flatMap {write : β → Text} {found : β → List α}
    (h : ∀ b, Finds at? (write b) (found b)) (l : List β) :
    Finds at? (l.flatMap write) (l.flatMap found) := by
  induction l with
  | nil => exact fun _ => rfl
  | cons b l ih => exact (h b).append ih

theorem Finds.findAll_eq {l : List α} (h : Finds at? s l) : findAll at? 0 s = l := by
  have hnil := h []
  rwa [List.append_nil, findAll, List.append_nil] at hnil

end Scan

/-! ## Looking for a tag -/

/-- Only tags of one name are looked for. -/
structure Seeks {α : Type} (name : TagName) (at? : Text → Option α) : Prop where
  text : ∀ {c : Char}, c ≠ '<' → ∀ t, at? (c :: t) = none
  tag : ∀ {t : Tag}, t.name ≠ name → ∀ rest, at? (t.render ++ rest) = none

theorem less_not_mem_escape (t : Text) : '<' ∉ escape t :=
  fun h => not_isMarkup_of_mem_escape h (.inl rfl)

theorem less_not_mem_renderAttribute (a : AttributeName × Text) : '<' ∉ renderAttribute a := by
  have hkey : '<' ∉ a.1.text := by cases a.1 <;> decide
  simp [renderAttribute, hkey, less_not_mem_escape]

/-- A tag has no mark in it that could open another tag. -/
theorem less_not_mem_tail_render (t : Tag) : '<' ∉ t.render.tail := by
  have hname : '<' ∉ t.name.text := by cases t.name <;> decide
  have hclosing : '<' ∉ if t.closing then ['/'] else [] := by cases t.closing <;> decide
  have hattributes : '<' ∉ t.attributes.flatMap renderAttribute := by
    intro h
    obtain ⟨a, -, ha⟩ := List.mem_flatMap.mp h
    exact less_not_mem_renderAttribute a ha
  simp only [Tag.render, List.tail_cons, List.mem_append, not_or]
  exact ⟨⟨hclosing, hname⟩, hattributes, by decide⟩

theorem element_eq {name : TagName} {tag : String} (h : tag.toList = name.text) (t : Text) :
    element tag t = Tag.render { name } ++ t ++ Tag.render { closing := true, name } := by
  simp [element, Tag.render, h]

namespace Seeks

variable {α : Type} {name : TagName}

theorem misses_of_not_mem {at? : Text → Option α} (h : Seeks name at?) {s : Text}
    (hs : '<' ∉ s) : Misses at? s := by
  induction s with
  | nil => trivial
  | cons c s ih =>
      obtain ⟨hc, hs⟩ := not_or.mp (mt List.mem_cons.mpr hs)
      exact ⟨fun rest => h.text (Ne.symm hc) (s ++ rest), ih hs⟩

theorem misses_tag {at? : Text → Option α} (h : Seeks name at?) {t : Tag} (ht : t.name ≠ name) :
    Misses at? t.render :=
  ⟨h.tag ht, h.misses_of_not_mem (less_not_mem_tail_render t)⟩

theorem misses_tokens {at? : Text → Option α} (h : Seeks name at?) {tokens : List Token}
    (ht : ∀ t, .tag t ∈ tokens → t.name ≠ name) : Misses at? (tokens.flatMap Token.render) := by
  refine Misses.flatMap fun token hmem => ?_
  cases token with
  | char c =>
      exact h.misses_of_not_mem fun hc => not_isMarkup_of_mem_escapeChar hc (.inl rfl)
  | tag t => exact h.misses_tag (ht t hmem)

theorem finds_element {at? : Text → Option (α × Text)} (h : Seeks name at?) (outer : TagName)
    (hne : outer ≠ name) {tag : String} (htag : tag.toList = outer.text) {s : Text}
    {found : List α} (hs : Finds at? s found) : Finds at? (element tag s) found := by
  have hopen : Finds at? (Tag.render { name := outer }) [] := (h.misses_tag hne).finds
  have hclose : Finds at? (Tag.render { closing := true, name := outer }) [] :=
    (h.misses_tag hne).finds
  rw [element_eq htag]
  simpa using (hopen.append hs).append hclose

theorem misses_code {at? : Text → Option α} (h : Seeks name at?) (hne : .code ≠ name)
    (lines : List Text) : Misses at? (Block.code lines).render := by
  rw [← Block.render_tokens]
  refine h.misses_tokens fun t ht => ?_
  simp only [Block.tokens, chars, List.mem_cons, List.mem_append, List.mem_map, Token.tag.injEq,
    reduceCtorEq, and_false, exists_false, or_false, List.not_mem_nil] at ht
  rcases ht with rfl | rfl <;> exact hne

end Seeks

/-! ## Links -/

namespace Inline

/-- The symbol that an element links to. -/
def symbol? : Inline → Option Text
  | link (.symbol name) => some name
  | _ => none

/-- The symbols that a run of text links to. -/
def symbols (t : Text) : List Text := (ofText t).filterMap symbol?

end Inline

/-- The runs of text of a block that inline markup is looked for in. -/
def Block.texts : Block → List Text
  | paragraph t => [t]
  | heading t => [t]
  | bullets items => items
  | entries items => items.map (·.description)
  | code _ => []

theorem seeks_linkAt? : Seeks .link linkAt? where
  text := by
    intro c hc t
    have hstart : Text.afterStart? "<link".toList (c :: t) = none := if_neg (Ne.symm hc)
    rw [linkAt?, hstart]
    rfl
  tag := by
    rintro ⟨closing, name, attributes⟩ hne rest
    have hstart : Text.afterStart? "<link".toList
        (Tag.render { closing, name, attributes } ++ rest) = none := by
      cases name with
      -- `li` and `link` begin alike, so here the end of the name counts.
      | li => cases closing <;> cases attributes <;> rfl
      | link => exact absurd rfl hne
      | _ => cases closing <;> rfl
    rw [linkAt?, hstart]
    rfl

/-- The value of an attribute is taken up to the quote that ends it. -/
theorem attributeValue?_render {key : AttributeName} {name : String} (h : name.toList = key.text)
    (v rest : Text) :
    attributeValue? name (renderAttribute (key, v) ++ rest) = some (escape v, rest) := by
  have hsplit : renderAttribute (key, v) ++ rest =
      (' ' :: name.toList ++ "=\"".toList) ++ (escape v ++ '"' :: rest) := by
    simp [renderAttribute, h]
  have hvalue : ∀ c ∈ escape v, decide (c ≠ '"') = true := fun c hc =>
    decide_eq_true fun e => not_isMarkup_of_mem_escape hc (.inr (.inr e))
  rw [attributeValue?, hsplit, Text.afterStart?_append, Option.bind_some,
    List.dropWhile_append_of_pos hvalue, List.takeWhile_append_of_pos hvalue]
  simp

theorem linkAt?_symbol (name rest : Text) :
    linkAt? ((Target.symbol name).render ++ rest) = some (name, rest) := by
  have hsplit : (Target.symbol name).render ++ rest =
      "<link".toList ++ (renderAttribute (.target, name) ++ (renderAttribute (.name, name) ++
        (renderAttribute (.original, '<' :: name ++ ['>']) ++ (['>'] ++ rest)))) := by
    rw [← Target.render_tag]
    simp [Target.tag, Tag.render, TagName.text]
  have htarget : "target".toList = AttributeName.target.text := rfl
  have hname : "name".toList = AttributeName.name.text := rfl
  have horiginal : "original".toList = AttributeName.original.text := rfl
  simp only [linkAt?, hsplit, Text.afterStart?_append, attributeValue?_render htarget,
    attributeValue?_render hname, attributeValue?_render horiginal, Option.bind_eq_bind,
    Option.bind_some, unescape_escape]
  rfl

theorem finds_inline (i : Inline) : Finds linkAt? i.render i.symbol?.toList := by
  have hmisses : (∀ t, .tag t ∈ i.tokens → t.name ≠ .link) → Finds linkAt? i.render [] := by
    intro h
    rw [← i.render_tokens]
    exact (seeks_linkAt?.misses_tokens h).finds
  cases i with
  | text t => exact hmisses (by simp [Inline.tokens, chars])
  | opens s => exact hmisses (by cases s <;> simp [Inline.tokens, Style.tagName])
  | closes s => exact hmisses (by cases s <;> simp [Inline.tokens, Style.tagName])
  | link target =>
      cases target with
      | email address name => exact hmisses (by simp [Inline.tokens, Target.tag])
      | url address name => exact hmisses (by simp [Inline.tokens, Target.tag])
      | symbol name => exact finds_of_at? (linkAt?_symbol name)

theorem finds_format (t : Text) : Finds linkAt? (Inline.format t) (Inline.symbols t) := by
  rw [Inline.symbols, List.filterMap_eq_flatMap_toList]
  exact .flatMap finds_inline _

theorem finds_links_entry (e : Entry) :
    Finds linkAt? e.render (Inline.symbols e.description) := by
  have hterm : Finds linkAt? (escape e.term) [] :=
    (seeks_linkAt?.misses_of_not_mem (less_not_mem_escape e.term)).finds
  have hname : Finds linkAt? (element (if e.isSymbol then "ds" else "de") (escape e.term)) [] := by
    cases e.isSymbol with
    | true => exact seeks_linkAt?.finds_element .ds (by decide) rfl hterm
    | false => exact seeks_linkAt?.finds_element .de (by decide) rfl hterm
  exact hname.append (seeks_linkAt?.finds_element .dd (by decide) rfl (finds_format e.description))

theorem finds_links (b : Block) : Finds linkAt? b.render (b.texts.flatMap Inline.symbols) := by
  cases b with
  | paragraph t =>
      rw [Block.texts, List.flatMap_singleton]
      exact seeks_linkAt?.finds_element .p (by decide) rfl (finds_format t)
  | heading t =>
      rw [Block.texts, List.flatMap_singleton]
      exact seeks_linkAt?.finds_element .h (by decide) rfl (finds_format t)
  | bullets items =>
      have hitem : ∀ t, Finds linkAt? (element "li" (Inline.format t)) (Inline.symbols t) :=
        fun t => seeks_linkAt?.finds_element .li (by decide) rfl (finds_format t)
      exact seeks_linkAt?.finds_element .ul (by decide) rfl (.flatMap hitem items)
  | entries items =>
      rw [Block.texts, List.flatMap_map]
      exact seeks_linkAt?.finds_element .dl (by decide) rfl (.flatMap finds_links_entry items)
  | code lines => exact (seeks_linkAt?.misses_code (by decide) lines).finds

/-- The links in a body lead to the symbols that its texts link to. -/
theorem linkTargets_flatMap_render (blocks : List Block) :
    linkTargets (blocks.flatMap Block.render) =
      (blocks.flatMap Block.texts).flatMap Inline.symbols := by
  rw [List.flatMap_assoc]
  exact (Finds.flatMap finds_links blocks).findAll_eq

/-! ## Entries -/

/-- The entries of a block. -/
def Block.listed : Block → List Entry
  | entries items => items
  | _ => []

namespace Entry

/-- An entry for a symbol as a query gives it. -/
def summary (e : Entry) : SymbolEntry :=
  ⟨e.term, (firstSentence? (Inline.format e.description)).bind summaryOf⟩

/-- What a query gives for some entries: those that are symbols. -/
def summaries (items : List Entry) : List SymbolEntry :=
  (items.filter (·.isSymbol)).map summary

theorem summaries_eq_flatMap (items : List Entry) :
    summaries items = items.flatMap fun e => summaries [e] := by
  induction items with
  | nil => rfl
  | cons e items ih =>
      rw [List.flatMap_cons, ← ih, summaries, summaries, summaries, ← List.map_append,
        ← List.filter_append, List.singleton_append]

end Entry

theorem seeks_symbolEntryAt? : Seeks .ds symbolEntryAt? where
  text := by
    intro c hc t
    have hstart : Text.afterStart? "<ds>".toList (c :: t) = none := if_neg (Ne.symm hc)
    rw [symbolEntryAt?, hstart]
    rfl
  tag := by
    rintro ⟨closing, name, attributes⟩ hne rest
    have hstart : Text.afterStart? "<ds>".toList
        (Tag.render { closing, name, attributes } ++ rest) = none := by
      cases name with
      | ds => exact absurd rfl hne
      | _ => cases closing <;> rfl
    rw [symbolEntryAt?, hstart]
    rfl

/-- The tag that ends an element is not found in tags of other names. -/
theorem seeks_closing (name : TagName) :
    Seeks name (Text.afterStart? (Tag.render { closing := true, name })) where
  text := fun hc _ => if_neg (Ne.symm hc)
  tag := by
    rintro ⟨closing, other, attributes⟩ hne rest
    cases closing with
    | false => cases other <;> rfl
    | true =>
        cases name <;> cases other <;> first
          | exact absurd rfl hne
          | rfl
          -- The other name begins the one that is looked for, so here its end counts.
          | cases attributes <;> rfl

/-- The tags that stand in runs of text. -/
def Inline.tagNames : List TagName := [.b, .u, .email, .url, .link]

/-- No tag of a block stands in a run of text. -/
theorem Inline.name_mem_tagNames {s : Text} {t : Tag} (h : .tag t ∈ tokensOf s) :
    t.name ∈ tagNames := by
  obtain ⟨i, -, hi⟩ := List.mem_flatMap.mp h
  cases i with
  | text t => simp [tokens, chars] at hi
  | opens s =>
      cases List.mem_singleton.mp hi
      cases s <;> decide
  | closes s =>
      cases List.mem_singleton.mp hi
      cases s <;> decide
  | link target =>
      cases List.mem_singleton.mp hi
      cases target <;> simp [Target.tag, tagNames]

/-- A query for a tag of a block misses runs of text. -/
theorem Seeks.misses_format {α : Type} {name : TagName} {at? : Text → Option α}
    (h : Seeks name at?) (hname : name ∉ Inline.tagNames) (t : Text) :
    Misses at? (Inline.format t) := by
  rw [← Inline.render_tokensOf]
  exact h.misses_tokens fun _ ht => ne_of_mem_of_not_mem (Inline.name_mem_tagNames ht) hname

theorem finds_entries_format (t : Text) : Finds symbolEntryAt? (Inline.format t) [] :=
  (seeks_symbolEntryAt?.misses_format (by decide) t).finds

/-- A description goes up to the tag that ends it. -/
theorem cutAt?_description (t rest : Text) :
    Text.cutAt? "</dd>".toList (Inline.format t ++ ("</dd>".toList ++ rest)) =
      some (Inline.format t, rest) := by
  have hmisses : Misses (Text.afterStart? "</dd>".toList) (Inline.format t) :=
    (seeks_closing .dd).misses_format (by decide) t
  rw [hmisses.cutAt?_append, cutAt?_append]
  simp

theorem symbolEntryAt?_render {e : Entry} (h : e.isSymbol) (rest : Text) :
    symbolEntryAt? (e.render ++ rest) = some (e.summary, rest) := by
  have hsplit : e.render ++ rest =
      "<ds>".toList ++ (escape e.term ++ ("</ds><dd>".toList ++
        (Inline.format e.description ++ ("</dd>".toList ++ rest)))) := by
    simp [Entry.render, element, h]
  have hterm : ∀ c ∈ escape e.term, decide (c ≠ '<') = true := fun c hc =>
    decide_eq_true fun heq => not_isMarkup_of_mem_escape hc (.inl heq)
  have hdrop : ∀ t : Text,
      ("</ds><dd>".toList ++ t).dropWhile (· ≠ '<') = "</ds><dd>".toList ++ t :=
    fun _ => rfl
  have htake : ∀ t : Text, ("</ds><dd>".toList ++ t).takeWhile (· ≠ '<') = [] := fun _ => rfl
  simp only [symbolEntryAt?, hsplit, Text.afterStart?_append, Option.bind_eq_bind, Option.bind_some,
    List.dropWhile_append_of_pos hterm, List.takeWhile_append_of_pos hterm, hdrop, htake,
    cutAt?_description, List.append_nil, unescape_escape]
  rfl

theorem finds_entry (e : Entry) : Finds symbolEntryAt? e.render (Entry.summaries [e]) := by
  by_cases h : e.isSymbol
  · have hsummaries : Entry.summaries [e] = [e.summary] := by simp [Entry.summaries, h]
    rw [hsummaries]
    exact finds_of_at? (symbolEntryAt?_render h)
  · have hsummaries : Entry.summaries [e] = [] ++ [] := by simp [Entry.summaries, h]
    have hterm : Finds symbolEntryAt? (escape e.term) [] :=
      (seeks_symbolEntryAt?.misses_of_not_mem (less_not_mem_escape e.term)).finds
    rw [hsummaries, Entry.render, if_neg h]
    exact (seeks_symbolEntryAt?.finds_element .de (by decide) rfl hterm).append
      (seeks_symbolEntryAt?.finds_element .dd (by decide) rfl (finds_entries_format _))

theorem finds_entries (b : Block) :
    Finds symbolEntryAt? b.render (Entry.summaries b.listed) := by
  cases b with
  | paragraph t =>
      exact seeks_symbolEntryAt?.finds_element .p (by decide) rfl (finds_entries_format t)
  | heading t =>
      exact seeks_symbolEntryAt?.finds_element .h (by decide) rfl (finds_entries_format t)
  | bullets items =>
      have hitem : ∀ t, Finds symbolEntryAt? (element "li" (Inline.format t)) [] :=
        fun t => seeks_symbolEntryAt?.finds_element .li (by decide) rfl (finds_entries_format t)
      have hitems := Finds.flatMap hitem items
      rw [List.flatMap_eq_nil_iff.mpr fun _ _ => rfl] at hitems
      exact seeks_symbolEntryAt?.finds_element .ul (by decide) rfl hitems
  | entries items =>
      rw [Block.listed, Entry.summaries_eq_flatMap]
      exact seeks_symbolEntryAt?.finds_element .dl (by decide) rfl (.flatMap finds_entry items)
  | code lines => exact (seeks_symbolEntryAt?.misses_code (by decide) lines).finds

/-- The entries in a body are those of its lists that are symbols. -/
theorem symbolEntries_flatMap_render (blocks : List Block) :
    symbolEntries (blocks.flatMap Block.render) =
      Entry.summaries (blocks.flatMap Block.listed) := by
  rw [Entry.summaries_eq_flatMap, List.flatMap_assoc]
  simp only [← Entry.summaries_eq_flatMap]
  exact (Finds.flatMap finds_entries blocks).findAll_eq

/-! ## Terms -/

/-- The term that a line defines where it is read as a definition. -/
def definedTerm? (line : Text) : Option Text :=
  (definition? (Text.trimStart Text.isSpace line)).map Prod.fst

/-- The terms in the lists of some blocks. -/
def termsOf (blocks : List Block) : List Text := (blocks.flatMap Block.listed).map (·.term)

theorem termsOf_append (blocks more : List Block) :
    termsOf (blocks ++ more) = termsOf blocks ++ termsOf more := by
  rw [termsOf, List.flatMap_append, List.map_append]
  rfl

variable {kind : TopicKind} {line : Text} {before after : List Block}

theorem Starts.termsOf_sublist {b : Block} (h : Starts kind line b) :
    (termsOf [b]).Sublist ((definition? line).map Prod.fst).toList := by
  cases h with
  | entries h =>
      rw [h.defined]
      exact List.Sublist.refl _
  | _ => exact List.nil_sublist _

theorem Grows.termsOf_eq_append {b b' : Block} (h : Grows kind line b b') :
    ∃ added, termsOf [b'] = termsOf [b] ++ added ∧
      added.Sublist ((definition? line).map Prod.fst).toList := by
  cases h with
  | @entry items e h =>
      refine ⟨[e.term], by simp [termsOf, Block.listed], ?_⟩
      rw [h.defined]
      exact List.Sublist.refl _
  | description items e description =>
      exact ⟨[], by simp [termsOf, Block.listed], List.nil_sublist _⟩
  | _ => exact ⟨[], rfl, List.nil_sublist _⟩

theorem Extends.termsOf_eq_append (h : Extends kind line before after) :
    ∃ added, termsOf after = termsOf before ++ added ∧
      added.Sublist ((definition? line).map Prod.fst).toList := by
  cases h with
  | same => exact ⟨[], (List.append_nil _).symm, List.nil_sublist _⟩
  | push _ h => exact ⟨_, termsOf_append _ _, h.termsOf_sublist⟩
  | grow blocks h =>
      obtain ⟨added, heq, hadded⟩ := h.termsOf_eq_append
      exact ⟨added, by rw [termsOf_append, termsOf_append, heq, List.append_assoc], hadded⟩

/-- Terms come from lines that are read as definitions, in the order of the lines. -/
theorem Built.termsOf_eq_append {lines : List Text} (h : Built kind lines before after) :
    ∃ added, termsOf after = termsOf before ++ added ∧
      added.Sublist (lines.filterMap definedTerm?) := by
  induction h with
  | nil => exact ⟨[], (List.append_nil _).symm, List.nil_sublist _⟩
  | cons h _ ih =>
      obtain ⟨first, hfirst, hsub⟩ := h.termsOf_eq_append
      obtain ⟨more, hmore, hsubs⟩ := ih
      refine ⟨first ++ more, by rw [hmore, hfirst, List.append_assoc], ?_⟩
      rw [List.filterMap_eq_flatMap_toList] at hsubs ⊢
      exact hsub.append hsubs

/-! ## The body of a topic -/

/-- Queries find in the body of a topic what was written into it. The links lead to the symbols
that its texts link to, each of which stands in the text in its brackets; the entries name the
terms of its symbols, which lines of the body define in the same order. -/
theorem queries_formatBody (kind : TopicKind) (lines : List Text) :
    let blocks := Block.ofLines kind lines
    let body := formatBody kind lines
    linkTargets body = (blocks.flatMap Block.texts).flatMap Inline.symbols ∧
      (∀ t ∈ blocks.flatMap Block.texts, Inline.Covers (Inline.ofText t) t) ∧
      (symbolEntries body).map (·.name) =
        ((blocks.flatMap Block.listed).filter (·.isSymbol)).map (·.term) ∧
      (termsOf blocks).Sublist (lines.filterMap definedTerm?) := by
  intro blocks body
  refine ⟨linkTargets_flatMap_render blocks, fun t _ => Inline.covers_ofText t, ?_, ?_⟩
  · have hentries : symbolEntries body = Entry.summaries (blocks.flatMap Block.listed) :=
      symbolEntries_flatMap_render blocks
    rw [hentries, Entry.summaries, List.map_map]
    rfl
  · obtain ⟨added, heq, hadded⟩ := (built_ofLines kind lines).termsOf_eq_append
    exact heq ▸ hadded

end Commentary.Markup
