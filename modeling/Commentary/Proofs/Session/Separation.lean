import Commentary.Proofs.Topic.Separator
import Commentary.Session.Basic

/-!
# Keys of source files

The key of a link begins with its scope and the key of a step with its class. A clean source file
gives only clean ones, so no two of its links or steps share a key, nor do those of two files, and
every key can be taken apart again. Nothing takes separators out of a source that has them, and
then two links may have one key.
-/

namespace Commentary

open Index

theorem Index.splitLinkKey_linkKey {scope : Option Text} (h : CleanScope scope) (text : Text) :
    splitLinkKey (linkKey scope text) = (scope.filter (· ≠ []), text) := by
  have hcut : unpair? (linkKey scope text) = some (scope.getD [], text) := unpair?_pair h text
  rw [splitLinkKey, hcut]
  cases scope with
  | none => rfl
  | some name => by_cases hname : name = [] <;> simp [hname, Option.filter]

namespace ParsedFile

variable {p : ParsedFile}

/-- The scope of a link is the one of its topic. -/
theorem cleanScope_of_mem_links (h : ∀ t ∈ p.topics, t.CleanNames) {l : Option Text × Text}
    (hl : l ∈ p.links) : CleanScope l.1 := by
  obtain ⟨t, ht, hl⟩ := List.mem_flatMap.mp hl
  obtain ⟨target, -, rfl⟩ := List.mem_map.mp hl
  exact (h t ht).scope

/-- A step starts at the symbol of a topic. -/
theorem clean_of_mem_edges (h : ∀ t ∈ p.topics, t.CleanNames) {e : Text × Text}
    (he : e ∈ p.edges) : Clean e.1 := by
  obtain ⟨t, ht, he⟩ := List.mem_flatMap.mp he
  obtain ⟨parent, -, rfl⟩ := List.mem_map.mp he
  exact (h t ht).symbol

end ParsedFile

namespace Session

/-- The comments of a clean file stay without separators when they are cleaned. Links and steps
that clean files give to a session have different keys if they are different, and a key gives its
parts back. It does not matter what stands behind the separator: the names of parents may be any. -/
theorem keys_parse (s s' : Session) {f f' : SourceFile} (hf : f.IsClean) (hf' : f'.IsClean) :
    (∀ c ∈ Comment.ofSource f.language s.keywords f.text,
      ∀ line ∈ c.cleanedLines s.settings, Clean line.2) ∧
    (∀ l ∈ (s.parse f).links, ∀ l' ∈ (s'.parse f').links,
      linkKey l.1 l.2 = linkKey l'.1 l'.2 → l.1.getD [] = l'.1.getD [] ∧ l.2 = l'.2) ∧
    (∀ e ∈ (s.parse f).edges, ∀ e' ∈ (s'.parse f').edges,
      edgeKey e.1 e.2 = edgeKey e'.1 e'.2 → e = e') ∧
    (∀ l ∈ (s.parse f).links,
      splitLinkKey (linkKey l.1 l.2) = (l.1.filter (· ≠ []), l.2)) ∧
    (∀ e ∈ (s.parse f).edges, splitEdgeKey? (edgeKey e.1 e.2) = some e) := by
  have hnames := hf.parse s.settings s.keywords
  have hnames' := hf'.parse s'.settings s'.keywords
  refine ⟨fun c hc => ?_, fun l hl l' hl' h => ?_, fun e he e' he' h => ?_, fun l hl => ?_,
    fun e he => ?_⟩
  · exact Comment.clean_cleanedLines s.settings (Comment.clean_of_mem_ofSource hf.text hc)
  · exact pair_inj (ParsedFile.cleanScope_of_mem_links hnames hl)
      (ParsedFile.cleanScope_of_mem_links hnames' hl') h
  · obtain ⟨hname, hparent⟩ := pair_inj (ParsedFile.clean_of_mem_edges hnames he)
      (ParsedFile.clean_of_mem_edges hnames' he') h
    exact Prod.ext hname hparent
  · exact splitLinkKey_linkKey (ParsedFile.cleanScope_of_mem_links hnames hl) l.2
  · exact unpair?_pair (ParsedFile.clean_of_mem_edges hnames he) e.2

/-- A session with one keyword, `c` for classes. -/
def classesOnly (settings : Settings) : Session where
  settings := settings
  keywords := KeywordTable.empty.insert ['c'] (.single .classType)

/-- A file with a class that has a parent and a link to it. -/
def derivedClass : SourceFile where
  name := ['f']
  text := "c: A\n\n<B>".toList
  language := .textFile []
  autos := [{ kind := .single .classType, title := ['A'], line := 1, parents := [['B']] }]

theorem keys_parse_derivedClass :
    derivedClass.IsClean ∧ ((classesOnly {}).parse derivedClass).links = [(some ['A'], ['B'])] ∧
      ((classesOnly {}).parse derivedClass).edges = [(['A'], ['B'])] ∧
      splitLinkKey (linkKey (some ['A']) ['B']) = (some ['A'], ['B']) ∧
      splitEdgeKey? (edgeKey ['A'] ['B']) = some (['A'], ['B']) := by
  have hclean : derivedClass.IsClean :=
    ⟨by decide, List.forall_mem_singleton.mpr ⟨by decide, by decide⟩⟩
  have hlinks : ((classesOnly {}).parse derivedClass).links = [(some ['A'], ['B'])] := by
    decide +kernel
  have hedges : ((classesOnly {}).parse derivedClass).edges = [(['A'], ['B'])] := by
    decide +kernel
  obtain ⟨-, -, -, hlink, hedge⟩ := keys_parse (classesOnly {}) (classesOnly {}) hclean hclean
  exact ⟨hclean, hlinks, hedges, hlink _ (hlinks ▸ List.mem_singleton_self _),
    hedge _ (hedges ▸ List.mem_singleton_self _)⟩

/-- A file with separators in the title of a class and in a link. -/
def colliding : SourceFile where
  name := ['f']
  text := "c: A\u001fB\n\n<C>\n\nc: A\n\n<B\u001fC>".toList
  language := .textFile []

/-- Cleaning leaves a separator where it is, and two links of one file that have other scopes and
other texts have one key. -/
theorem linkKey_colliding :
    (Cleaner.ofSettings {}).clean [['a', separator]] = [['a', separator]] ∧
      ((classesOnly {}).parse colliding).links =
        [(some ['A', separator, 'B'], ['C']), (some ['A'], ['B', separator, 'C'])] ∧
      linkKey (some ['A', separator, 'B']) ['C'] = linkKey (some ['A']) ['B', separator, 'C'] := by
  decide +kernel

end Session

end Commentary
