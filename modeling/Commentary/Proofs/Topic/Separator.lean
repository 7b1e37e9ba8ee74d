import Commentary.Proofs.Comment.Separator
import Commentary.Proofs.Topic.Compaction
import Commentary.SourceFile

/-!
# Separators in the names of topics

Every name in a topic is the title of a header or was found in code: a package is the title of a
class before it. So where neither the comments nor what was found in code hold the separator of
keys, no name in a topic does.
-/

namespace Commentary

open Index

/-! ## Names -/

/-- The packages of the next topic hold no separator. -/
structure Context.CleanNames (c : Context) : Prop where
  package : CleanScope c.package
  scope : CleanScope c.scope

/-- The title of a topic and its packages hold no separator. -/
structure Topic.CleanNames (t : Topic) : Prop where
  title : Clean t.title
  package : CleanScope t.package
  scope : CleanScope t.scope

/-- The title and the package of what was found in code hold no separator. -/
structure AutoTopic.CleanNames (a : AutoTopic) : Prop where
  title : Clean a.title
  package : CleanScope a.package

/-- A file whose text holds no separator, nor does a name that was found in its code. -/
structure SourceFile.IsClean (f : SourceFile) : Prop where
  text : Clean f.text
  autos : ∀ a ∈ f.autos, a.CleanNames

theorem cleanScope_none : CleanScope none := clean_nil

theorem cleanScope_some {name : Text} : CleanScope (some name) ↔ Clean name := Iff.rfl

theorem Context.cleanNames_empty : ({} : Context).CleanNames := ⟨cleanScope_none, cleanScope_none⟩

namespace KeywordTable

theorem clean_splitHeader? {line keyword title : Text} (h : Clean line)
    (hsplit : splitHeader? line = some (keyword, title)) : Clean title := by
  have hbehind : Clean ((Text.trimStart Text.isSpace line).dropWhile isHeaderChar) :=
    h.of_sublist ((List.dropWhile_sublist _).trans (List.dropWhile_sublist _))
  rw [splitHeader?] at hsplit
  split at hsplit
  · next rest hrest =>
      obtain ⟨-, hsplit⟩ := Option.ite_none_left_eq_some.mp hsplit
      cases hsplit
      rw [hrest, clean_cons, clean_cons] at hbehind
      exact hbehind.2.2.trim _
  · cases hsplit

theorem clean_header? {table : KeywordTable} {line : Text} {header : Header} (h : Clean line)
    (hheader : table.header? line = some header) : Clean header.title := by
  rw [header?] at hheader
  split at hheader
  · cases hheader
  · next keyword title hsplit =>
      obtain ⟨-, hheader⟩ := Option.ite_none_left_eq_some.mp hheader
      obtain ⟨kind, -, rfl⟩ := Option.map_eq_some_iff.mp hheader
      exact clean_splitHeader? h hsplit

end KeywordTable

/-! ## Topics of comments -/

namespace Section

theorem clean_title_of_mem_split {keywords : KeywordTable} {p : Place} {lines : List (Nat × Text)}
    (h : ∀ line ∈ lines, Clean line.2) :
    ∀ s ∈ (split keywords p lines).2, Clean s.header.title := by
  induction lines generalizing p with
  | nil => exact List.forall_mem_nil _
  | cons line lines ih =>
      obtain ⟨number, t⟩ := line
      obtain ⟨ht, hlines⟩ := List.forall_mem_cons.mp h
      rw [split]
      split
      · next header hheader =>
          have htitle := KeywordTable.clean_header? ht (Place.header?_eq_some hheader).2.2
          exact List.forall_mem_cons.mpr ⟨htitle, ih hlines⟩
      · exact ih hlines

variable {s : Section} {context : Context}

theorem cleanNames_contextAfter (hs : Clean s.header.title) (h : context.CleanNames) :
    (s.contextAfter context).CleanNames := by
  rw [contextAfter]
  split
  · exact ⟨hs, hs⟩
  · exact Context.cleanNames_empty
  · exact h
  · exact h

theorem cleanNames_topic (hs : Clean s.header.title) (h : context.CleanNames) :
    (s.topic context).CleanNames := by
  obtain ⟨hpackage, hscope⟩ := cleanNames_contextAfter hs h
  have hwithout : (s.topic context).withoutBody.CleanNames := by
    rw [withoutBody_topic]
    refine ⟨hs, ?_, hscope⟩
    dsimp only
    split_ifs
    · exact cleanScope_none
    · exact hpackage
  exact ⟨hwithout.title, hwithout.package, hwithout.scope⟩

theorem cleanNames_topics {sections : List Section} (hs : ∀ s ∈ sections, Clean s.header.title)
    (h : context.CleanNames) :
    (∀ t ∈ (topics context sections).1, t.CleanNames) ∧
      (topics context sections).2.CleanNames := by
  induction sections generalizing context with
  | nil => exact ⟨List.forall_mem_nil _, h⟩
  | cons s sections ih =>
      obtain ⟨hs, hsections⟩ := List.forall_mem_cons.mp hs
      obtain ⟨htopics, hafter⟩ := ih hsections (cleanNames_contextAfter hs h)
      exact ⟨List.forall_mem_cons.mpr ⟨cleanNames_topic hs h, htopics⟩, hafter⟩

end Section

namespace Topic

theorem CleanNames.withPrototype {t : Topic} (h : t.CleanNames) (prototype : Option Text) :
    (t.withPrototype prototype).CleanNames := by
  rw [Topic.withPrototype]
  split_ifs
  · exact h
  · exact ⟨h.title, h.package, h.scope⟩

theorem CleanNames.withCode {t : Topic} (h : t.CleanNames) (code : Text) :
    (t.withCode code).CleanNames := by
  rw [Topic.withCode]
  split_ifs
  · exact h.withPrototype _
  · exact h

theorem cleanNames_attach {topics : List Topic} (h : ∀ t ∈ topics, t.CleanNames)
    (code : Option Text) : ∀ t ∈ attach code topics, t.CleanNames := by
  rw [attach.eq_def]
  split
  · next t =>
      have ht : t.CleanNames := h t List.mem_cons_self
      refine List.forall_mem_singleton.mpr ?_
      cases code with
      | none => exact ht
      | some code => exact ht.withCode code
  · exact h

theorem cleanNames_ofComment (keywords : KeywordTable) {context : Context}
    {lines : List (Nat × Text)} (hlines : ∀ line ∈ lines, Clean line.2) (h : context.CleanNames)
    (code : Option Text) :
    (∀ t ∈ (ofComment keywords context lines code).1, t.CleanNames) ∧
      (ofComment keywords context lines code).2.CleanNames := by
  have htitles : ∀ s ∈ Section.ofLines keywords lines, Clean s.header.title :=
    Section.clean_title_of_mem_split hlines
  obtain ⟨htopics, hafter⟩ := Section.cleanNames_topics htitles h
  rw [ofComment_eq]
  exact ⟨cleanNames_attach htopics code, hafter⟩

end Topic

/-- Comments that hold no separator give names without it, however often packages open and close
from one comment to the next. -/
theorem Comment.cleanNames_topicsOfAll (settings : Settings) {keywords : KeywordTable}
    {context : Context} {comments : List Comment}
    (hcomments : ∀ c ∈ comments, ∀ t ∈ c.lines, Clean t) (h : context.CleanNames) :
    ∀ t ∈ topicsOfAll settings keywords context comments, t.CleanNames := by
  induction comments generalizing context with
  | nil => exact List.forall_mem_nil _
  | cons c comments ih =>
      obtain ⟨hc, hcomments⟩ := List.forall_mem_cons.mp hcomments
      obtain ⟨hfound, hafter⟩ :=
        Topic.cleanNames_ofComment keywords (clean_cleanedLines settings hc) h c.prototype
      exact List.forall_mem_append.mpr ⟨hfound, ih hcomments hafter⟩

/-! ## Topics from code -/

theorem AutoTopic.CleanNames.toTopic {a : AutoTopic} (h : a.CleanNames) : a.toTopic.CleanNames :=
  ⟨h.title, h.package, h.package⟩

namespace Topic

theorem CleanNames.withPackage {t : Topic} (h : t.CleanNames) {package : Option Text}
    (hpackage : CleanScope package) : (t.withPackage package).CleanNames :=
  ⟨h.title, hpackage, hpackage⟩

theorem CleanNames.withAuto {t : Topic} {a : AutoTopic} (h : t.CleanNames) (ha : a.CleanNames) :
    (t.withAuto a).CleanNames := by
  have hprototype :
      (if a.prototype.isSome then t.withPrototype a.prototype else t).CleanNames := by
    split_ifs
    · exact h.withPrototype _
    · exact h
  rw [Topic.withAuto]
  generalize (if a.prototype.isSome then t.withPrototype a.prototype else t) = u at hprototype
  have hpackage : (if u.scopeRule = .member then u.withPackage a.package else u).CleanNames := by
    split_ifs
    · exact hprototype.withPackage ha.package
    · exact hprototype
  exact ⟨hpackage.title, hpackage.package, hpackage.scope⟩

theorem cleanNames_place (documentedOnly : Bool) (line : Option Nat) (listed : Listed)
    {autos : List AutoTopic} (h : ∀ a ∈ autos, a.CleanNames) :
    (∀ t ∈ (place documentedOnly line listed autos).topics, t.CleanNames) ∧
      ∀ a ∈ (place documentedOnly line listed autos).rest, a.CleanNames := by
  induction autos generalizing listed with
  | nil => exact ⟨List.forall_mem_nil _, h⟩
  | cons a autos ih =>
      obtain ⟨ha, hautos⟩ := List.forall_mem_cons.mp h
      rw [place]
      split_ifs
      · exact ⟨List.forall_mem_nil _, h⟩
      · exact ih _ hautos
      · exact ih listed hautos
      · obtain ⟨htopics, hrest⟩ := ih listed hautos
        exact ⟨List.forall_mem_cons.mpr ⟨ha.toTopic, htopics⟩, hrest⟩

theorem cleanNames_mergeFrom {documentedOnly : Bool} {listed : Listed} {autos : List AutoTopic}
    {topics : List Topic} (hautos : ∀ a ∈ autos, a.CleanNames) (h : ∀ t ∈ topics, t.CleanNames) :
    ∀ t ∈ mergeFrom documentedOnly listed autos topics, t.CleanNames := by
  induction topics generalizing listed autos with
  | nil => exact (cleanNames_place _ _ _ hautos).1
  | cons t topics ih =>
      obtain ⟨ht, htopics⟩ := List.forall_mem_cons.mp h
      obtain ⟨hplaced, hrest⟩ := cleanNames_place documentedOnly (some t.line) listed hautos
      rw [mergeFrom]
      refine List.forall_mem_append.mpr ⟨hplaced, ?_⟩
      split
      · exact h
      · next a rest heq =>
          rw [heq] at hrest
          obtain ⟨ha, hmore⟩ := List.forall_mem_cons.mp hrest
          split_ifs
          · exact List.forall_mem_cons.mpr ⟨ht.withAuto ha, ih hmore htopics⟩
          · exact List.forall_mem_cons.mpr ⟨ht, ih hrest htopics⟩

/-! ## Delineators -/

theorem cleanNames_delineator {package : Option Text} (h : CleanScope package) (wasOpened : Bool)
    (line : Nat) : (delineator package wasOpened line).CleanNames := by
  rw [delineator.eq_def]
  split
  · have hglobal : Clean globalTitle := by decide
    exact ⟨hglobal, cleanScope_none, cleanScope_none⟩
  · dsimp only
    split_ifs
    · exact ⟨h, h, h⟩
    · exact ⟨h, h, h⟩

theorem cleanNames_delineateFrom {current : Option Text} {opened : List Text} {topics : List Topic}
    (h : ∀ t ∈ topics, t.CleanNames) :
    ∀ t ∈ delineateFrom current opened topics, t.CleanNames := by
  induction topics generalizing current opened with
  | nil => exact h
  | cons t topics ih =>
      obtain ⟨ht, htopics⟩ := List.forall_mem_cons.mp h
      have hcons : ∀ {current opened},
          ∀ u ∈ t :: delineateFrom current opened topics, u.CleanNames :=
        List.forall_mem_cons.mpr ⟨ht, ih htopics⟩
      rw [delineateFrom]
      split
      · exact hcons
      · exact hcons
      · exact hcons
      · split_ifs
        · exact hcons
        · exact List.forall_mem_cons.mpr ⟨cleanNames_delineator ht.package _ _, hcons⟩

theorem cleanNames_merge {documentedOnly : Bool} {topics : List Topic} {autos : List AutoTopic}
    (h : ∀ t ∈ topics, t.CleanNames) (hautos : ∀ a ∈ autos, a.CleanNames) :
    ∀ t ∈ merge documentedOnly topics autos, t.CleanNames := by
  refine cleanNames_delineateFrom (cleanNames_mergeFrom (fun a ha => hautos a ?_) h)
  exact List.mem_mergeSort.mp ha

/-- The symbol of a topic is made of its names. -/
theorem CleanNames.symbol {t : Topic} (h : t.CleanNames) : Clean t.symbol := by
  rw [Topic.symbol, symbolOf]
  split
  · next package _ hpackage =>
      have hclean := h.package
      rw [hpackage, cleanScope_some] at hclean
      exact clean_append.mpr ⟨hclean, clean_cons.mpr ⟨by decide, h.title⟩⟩
  · exact h.title

end Topic

/-- No name in the topics of a clean file holds a separator. -/
theorem SourceFile.IsClean.parse {f : SourceFile} (h : f.IsClean) (settings : Settings)
    (keywords : KeywordTable) : ∀ t ∈ (f.parse settings keywords).topics, t.CleanNames := by
  have hcomments : ∀ c ∈ Comment.ofSource f.language keywords f.text, ∀ t ∈ c.lines, Clean t :=
    fun _ => Comment.clean_of_mem_ofSource h.text
  exact Topic.cleanNames_merge
    (Comment.cleanNames_topicsOfAll settings hcomments Context.cleanNames_empty) h.autos

end Commentary
