import Commentary.Proofs.Comment.Origin
import Commentary.Proofs.Topic.Reading
import Commentary.SourceFile

/-!
# The topic that a prototype is meant for

The code behind a comment is taken for a prototype if the comment has one header as it stands. It is
meant for the topic of the comment if that has one, which is cut from the cleaned lines. The only
topic gets the prototype that its kind asks for if its header is found as it stands, and no other
one is. A header in a verbatim section is found as it stands and starts no topic, and then the
prototype is lost.
-/

namespace Commentary

open Text

/-! ## One line among all -/

theorem filterMap_range_eq_singleton_iff {α : Type} {f : Nat → Option α} {n : Nat} {a : α} :
    (List.range n).filterMap f = [a] ↔
      ∃ k < n, f k = some a ∧ ∀ m < n, m ≠ k → f m = none := by
  constructor
  · intro h
    obtain ⟨before, k, behind, hrange, hbefore, hk, hbehind⟩ := List.filterMap_eq_cons_iff.mp h
    have hmem : ∀ m, m < n ↔ m ∈ before ∨ m = k ∨ m ∈ behind := fun m => by
      rw [← List.mem_range, hrange, List.mem_append, List.mem_cons]
    refine ⟨k, (hmem k).mpr (.inr (.inl rfl)), hk, fun m hm hne => ?_⟩
    rcases (hmem m).mp hm with hm | hm | hm
    · exact hbefore m hm
    · exact absurd hm hne
    · exact List.filterMap_eq_nil_iff.mp hbehind m hm
  · rintro ⟨k, hk, hfound, hnone⟩
    obtain ⟨before, behind, hrange⟩ := List.append_of_mem (List.mem_range.mpr hk)
    have hnodup := List.nodup_range (n := n)
    rw [hrange, List.nodup_append, List.nodup_cons] at hnodup
    have hmem : ∀ m, m ∈ before ∨ m ∈ behind → f m = none := fun m hm => by
      refine hnone m ?_ ?_
      · rw [← List.mem_range, hrange, List.mem_append, List.mem_cons]
        exact hm.imp_right .inr
      · rintro rfl
        rcases hm with hm | hm
        · exact hnodup.2.2 m hm m List.mem_cons_self rfl
        · exact hnodup.2.1.1 hm
    rw [hrange, List.filterMap_append, List.filterMap_cons, hfound,
      List.filterMap_eq_nil_iff.mpr fun m hm => hmem m (.inl hm),
      List.filterMap_eq_nil_iff.mpr fun m hm => hmem m (.inr hm)]
    rfl

namespace Comment

/-- A comment has a header as it stands that is none of a topic, told from its lines. -/
def HasStray (keywords : KeywordTable) (cleaner : Cleaner) (lines : List Text) : Prop :=
  ∃ n < lines.length, ∃ header ∈ scannedHeader? keywords lines n, Stray cleaner lines n header

instance (keywords : KeywordTable) (cleaner : Cleaner) (lines : List Text) :
    Decidable (HasStray keywords cleaner lines) :=
  inferInstanceAs (Decidable (∃ n < _, ∃ header ∈ _, _))

/-- The header of the only topic of a comment stands on a line. -/
structure OnlyTopicAt (keywords : KeywordTable) (cleaner : Cleaner) (lines : List Text)
    (header : Header) (n : Nat) : Prop where
  lt_length : n < lines.length
  found : topicHeader? keywords (cleaner.clean lines) n = some header
  only : ∀ m < lines.length, m ≠ n → topicHeader? keywords (cleaner.clean lines) m = none

section

variable {keywords : KeywordTable} {cleaner : Cleaner} {lines : List Text} {header : Header}
  {n m : Nat}

theorem lt_length_of_scannedHeader? (h : scannedHeader? keywords lines n = some header) :
    n < lines.length := by
  obtain ⟨-, line, hline, -⟩ := scannedHeader?_eq_some_iff.mp h
  exact (List.getElem?_eq_some_iff.mp hline).1

/-- A header of a comment as it stands is a stray one if it is none of a topic. -/
theorem topicHeader?_eq_none_iff (hfeed : ∀ line ∈ lines, lineFeed ∉ line)
    (h : scannedHeader? keywords lines n = some header) :
    topicHeader? keywords (cleaner.clean lines) n = none ↔ Stray cleaner lines n header := by
  rw [← Option.map_eq_none_iff (f := Header.kind), kind_topicHeader? cleaner hfeed h]
  simp

namespace OnlyTopicAt

/-- Other headers of the comment as it stands are stray ones. -/
theorem scannedHeader?_eq_none (h : OnlyTopicAt keywords cleaner lines header n)
    (hfeed : ∀ line ∈ lines, lineFeed ∉ line) (hstray : ¬ HasStray keywords cleaner lines)
    (hm : m ≠ n) : scannedHeader? keywords lines m = none := by
  rw [Option.eq_none_iff_forall_ne_some]
  intro other hother
  have hlt := lt_length_of_scannedHeader? hother
  exact hstray ⟨m, hlt, other, hother, (topicHeader?_eq_none_iff hfeed hother).mp (h.only m hlt hm)⟩

/-- Without stray headers the header of the only topic is the only one of the comment as it stands,
if it is one at all. -/
theorem kinds_headersFrom (h : OnlyTopicAt keywords cleaner lines header n)
    (hfeed : ∀ line ∈ lines, lineFeed ∉ line) (hstray : ¬ HasStray keywords cleaner lines)
    (hveiled : ¬ Veiled lines n) :
    (headersFrom keywords true lines).map (·.kind) = [header.kind] := by
  obtain ⟨found, hfound⟩ :=
    Option.ne_none_iff_exists'.mp (mt (scannedHeader?_eq_none_iff hfeed h.found).mp hveiled)
  have hkind := kind_topicHeader? cleaner hfeed hfound
  have hreal : ¬ Stray cleaner lines n found := fun hs => hstray ⟨n, h.lt_length, found, hfound, hs⟩
  rw [h.found, if_neg hreal, Option.map_some, Option.some_inj] at hkind
  have hheaders : headersFrom keywords true lines = [found] := by
    rw [headersFrom_eq_filterMap_scannedHeader?, filterMap_range_eq_singleton_iff]
    exact ⟨n, h.lt_length, hfound, fun m _ hm => h.scannedHeader?_eq_none hfeed hstray hm⟩
  rw [hheaders, List.map_singleton, hkind]

/-- A stray header makes two, and a veiled one none. -/
theorem headersFrom_ne_singleton (h : OnlyTopicAt keywords cleaner lines header n)
    (hfeed : ∀ line ∈ lines, lineFeed ∉ line)
    (hone : Xor (HasStray keywords cleaner lines) (Veiled lines n)) (other : Header) :
    headersFrom keywords true lines ≠ [other] := by
  rw [headersFrom_eq_filterMap_scannedHeader?, Ne, filterMap_range_eq_singleton_iff]
  rintro ⟨k, -, hk, honly⟩
  have hscanned := scannedHeader?_eq_none_iff hfeed h.found
  rcases hone with ⟨⟨m, hm, stray, hstray, hs⟩, hveiled⟩ | ⟨hveiled, hstray⟩
  · -- Both the stray header and that of the topic are found.
    have hmk : m = k := by
      by_contra hne
      rw [honly m hm hne] at hstray
      cases hstray
    have hnk : n = k := by
      by_contra hne
      exact hveiled (hscanned.mp (honly n h.lt_length hne))
    have hnone := (topicHeader?_eq_none_iff hfeed hstray).mpr hs
    rw [hmk, ← hnk, h.found] at hnone
    cases hnone
  · have hkn : k ≠ n := by
      rintro rfl
      rw [hscanned.mpr hveiled] at hk
      cases hk
    rw [h.scannedHeader?_eq_none hfeed hstray hkn] at hk
    cases hk

end OnlyTopicAt

end

/-! ## The prototype of a single topic -/

section

variable {language : Language} {keywords : KeywordTable} {settings : Settings} {context : Context}
  {source : Text} {c : Comment} {t : Topic} {enders : List PrototypeEnder}

/-- The headers of the topics of a comment are those of all its cleaned lines. -/
theorem outlines_cleanedLines (settings : Settings) (keywords : KeywordTable) (c : Comment) :
    Section.outlines keywords .afterBlank (c.cleanedLines settings) =
      (Section.outlines keywords .afterBlank
        (Cleaner.numbered ((c.cleaner settings).clean c.lines))).map
          fun (header, index) => (header, c.span.lineAt index) := by
  rw [cleanedLines]
  dsimp only
  rw [Section.outlines_renumber]
  split_ifs
  · rfl
  · rw [Section.outlines_cleanCompact]
    rfl

theorem exists_onlyTopicAt (htopic : (c.topics settings keywords context).1 = [t]) :
    ∃ n, t.line = c.span.lineAt n ∧
      OnlyTopicAt keywords (c.cleaner settings) c.lines ⟨t.kind, t.title⟩ n := by
  have houtlines :
      Section.outlines keywords .afterBlank (c.cleanedLines settings) = [t.outline] := by
    rw [← Topic.map_outline_ofComment keywords context _ c.prototype, ← topics, htopic]
    rfl
  rw [outlines_cleanedLines, outlines_numbered, List.map_filterMap, Cleaner.length_clean,
    filterMap_range_eq_singleton_iff] at houtlines
  obtain ⟨n, hn, hfound, honly⟩ := houtlines
  rw [Option.map_map, Option.map_eq_some_iff] at hfound
  obtain ⟨header, hheader, heq⟩ := hfound
  obtain ⟨rfl, hline⟩ := Prod.mk.inj heq
  exact ⟨n, hline.symm, hn, hheader, fun m hm hne => by simpa using honly m hm hne⟩

theorem enders?_of_kinds {lines : List Text} {kind : TopicKind}
    (h : (headersFrom keywords true lines).map (·.kind) = [kind]) (htakes : kind.takesPrototype) :
    enders? language keywords lines = language.enders? kind.type := by
  obtain ⟨header, hheaders, rfl⟩ := List.map_eq_singleton_iff.mp h
  rw [enders?, hheaders]
  exact if_pos htakes

theorem enders?_eq_none {lines : List Text}
    (h : ∀ header, headersFrom keywords true lines ≠ [header]) :
    enders? language keywords lines = none := by
  rw [enders?]
  split
  · next header hheaders => exact absurd hheaders (h header)
  · rfl

/-- If a comment has a single topic, of a kind that takes a prototype, then the code behind it is
searched for the end of one as the kind asks for, unless there is a stray header or that of the
topic is veiled. If one of the two is the case, the comment has no prototype. -/
theorem prototype_eq_capture (hlanguage : language.readsWholeFile = false)
    (hc : c ∈ ofSource language keywords source)
    (htopic : (c.topics settings keywords context).1 = [t]) (htakes : t.kind.takesPrototype)
    (henders : language.enders? t.kind.type = some enders) :
    ∃ code,
      (∀ other, FoundIn language (SourceLine.ofSource source) c other ↔ other = code) ∧
      let hasStray := HasStray keywords (c.cleaner settings) c.lines
      let isVeiled := Veiled c.lines (t.line - c.span.first)
      (¬ hasStray → ¬ isVeiled →
        c.prototype = Prototype.capture enders language.extender code) ∧
      (Xor hasStray isVeiled → c.prototype = none) := by
  obtain ⟨code, hcode, hprototype⟩ := foundIn_of_mem_ofSource hlanguage hc
  obtain ⟨n, hline, hn⟩ := exists_onlyTopicAt htopic
  have hfeed := lineFeed_not_mem_of_mem_ofSource hc
  have hplace : t.line - c.span.first = n := by
    rw [hline, LineSpan.lineAt, Nat.add_sub_cancel_left]
  refine ⟨code, fun other => ⟨fun h => h.code_eq hcode, fun h => h ▸ hcode⟩, ?_⟩
  intro hasStray isVeiled
  rw [hprototype, prototypeOf]
  constructor
  · intro hstray hveiled
    have hkinds := hn.kinds_headersFrom hfeed hstray (hplace ▸ hveiled)
    rw [enders?_of_kinds hkinds htakes, henders]
    rfl
  · intro hone
    rw [enders?_eq_none (hn.headersFrom_ne_singleton hfeed (hplace ▸ hone))]
    rfl

end

/-! ## Two comments -/

/-- A language with two ways to mark comments, whose prototypes end with a semicolon. -/
def marked : Language where
  name := ['c']
  lineMarkers := ["//".toList]
  blockMarkers := [⟨"/*".toList, "*/".toList⟩]
  functionEnders := [.symbol [';']]

/-- A table with the keyword `f` for functions. -/
def oneKeyword : KeywordTable := KeywordTable.empty.insert ['f'] (.single .functionType)

/-- A comment in a frame of stars, with a list and a verbatim section. -/
def framed : Comment where
  lines :=
    ["  ***".toList, " * f: a".toList, " *".toList, " * - f: b".toList, " *".toList,
      " * (code)".toList, " * f: c".toList, " * (end)".toList, " ***".toList]
  span := ⟨1, 9⟩
  offset := 0
  opener := some "/*".toList
  prototype := some "int a".toList

/-- The topic of the comment in a frame. -/
def framedTopic : Topic where
  kind := .single .functionType
  title := ['a']
  line := 2
  prototype := some "int a".toList
  body := some "<ul><li>f: b</li></ul><code type=\"anonymous\">f: c</code>".toList

/-- The item is no stray header behind the star, and neither is the line in the section, which does
not stand behind a blank one. -/
theorem prototype_eq_capture_framed :
    let source :=
      "/****\n * f: a\n *\n * - f: b\n *\n * (code)\n * f: c\n * (end)\n ****/\nint a;".toList
    framed ∈ ofSource marked oneKeyword source ∧
      (framed.topics {} oneKeyword {}).1 = [framedTopic] ∧
      ¬ HasStray oneKeyword (framed.cleaner {}) framed.lines ∧ ¬ Veiled framed.lines 1 ∧
      ∃ code, FoundIn marked (SourceLine.ofSource source) framed code ∧
        framed.prototype = Prototype.capture [.symbol [';']] none code := by
  intro source
  have hc : framed ∈ ofSource marked oneKeyword source := by decide +kernel
  have htopic : (framed.topics {} oneKeyword {}).1 = [framedTopic] := by decide +kernel
  have hstray : ¬ HasStray oneKeyword (framed.cleaner {}) framed.lines := by decide +kernel
  have hveiled : ¬ Veiled framed.lines 1 := by decide +kernel
  obtain ⟨code, hcode, hcapture, -⟩ := prototype_eq_capture rfl hc htopic rfl rfl
  exact ⟨hc, htopic, hstray, hveiled, code, (hcode code).mpr rfl, hcapture hstray hveiled⟩

/-- A comment with a header in a verbatim section. -/
def sectioned : Comment where
  lines := ["   f: a".toList, [], "   (code)".toList, [], "   f: b".toList, "   (end)".toList]
  span := ⟨1, 6⟩
  offset := 0

/-- The topic of the comment with a section. -/
def sectionedTopic : Topic where
  kind := .single .functionType
  title := ['a']
  line := 1
  body := some "<code type=\"anonymous\">f: b</code>".toList

/-- The header in a verbatim section is no topic, and yet the code behind the comment is not taken
for the prototype of the only topic that there is. -/
theorem sectioned_prototype_ne_capture :
    let source := "// f: a\n//\n// (code)\n//\n// f: b\n// (end)\nint a;".toList
    let code := ["int a;".toList]
    sectioned ∈ ofSource marked oneKeyword source ∧
      (sectioned.topics {} oneKeyword {}).1 = [sectionedTopic] ∧
      marked.enders? sectionedTopic.kind.type = some [.symbol [';']] ∧
      FoundIn marked (SourceLine.ofSource source) sectioned code ∧
      sectioned.prototype ≠ Prototype.capture [.symbol [';']] none code := by
  intro source code
  have hc : sectioned ∈ ofSource marked oneKeyword source := by decide +kernel
  have htopic : (sectioned.topics {} oneKeyword {}).1 = [sectionedTopic] := by decide +kernel
  let rest : List SourceLine :=
    [⟨8, "//".toList⟩, ⟨11, "// (code)".toList⟩, ⟨21, "//".toList⟩, ⟨24, "// f: b".toList⟩,
      ⟨32, "// (end)".toList⟩, ⟨41, "int a;".toList⟩]
  have hsource : SourceLine.ofSource source = [] ++ ⟨0, "// f: a".toList⟩ :: rest := by
    decide +kernel
  have hstart : startingAt? marked 1 ⟨0, "// f: a".toList⟩ rest =
      some ({ sectioned with prototype := none }, none) := by decide +kernel
  exact ⟨hc, htopic, rfl, .intro hsource hstart, by decide +kernel⟩

end Comment

end Commentary
