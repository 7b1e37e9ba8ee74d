import Commentary.Proofs.Index.Operation

/-!
# Where links lead

The targets of links are kept in a table and moved only when it seems necessary. The naive way to
resolve a link goes through its candidates and asks the store for each of them. The two agree
after every run of operations whose scopes are clean.
-/

namespace Commentary.Index

variable {t : LinkTable} {s : Store}

/-- What a text in a scope leads to from a file by the store alone: the first candidate with a
definition, with the definition of the file itself if it has one, or else with the authoritative
one. -/
def naive? (s : Store) (scope : Option Text) (text : Text) (file : FileName) :
    Option Resolution :=
  match (candidates scope text).find? fun symbol => s.isDefined (symbolItem symbol) with
  | none => none
  | some symbol =>
    match s.definition? (symbolItem symbol) file with
    | some own => some ⟨symbol, file, own⟩
    | none =>
      (s.authoritative? (symbolItem symbol)).map fun (definer, d) => ⟨symbol, definer, d⟩

/-- Without a separator in a scope, the key of a link says what the link means. -/
theorem target_eq_best? (ht : t.Follows s) (hclean : t.CleanScopes) {scope : Option Text}
    (hscope : CleanScope scope) {text : Text} {link : Link}
    (hl : t.link? scope text = some link) :
    link.target = best? s (candidates scope text) := by
  obtain ⟨hkey, hcandidates⟩ := ht.origin _ link hl
  rw [ht.target _ link hl, hcandidates, candidates_congr (hclean _ link hl) hscope hkey]

/-- A text in a clean scope leads to its best candidate, whether a link with it is known or not. -/
theorem resolve?_eq_bind (ht : t.Follows s) (hclean : t.CleanScopes) {scope : Option Text}
    (hscope : CleanScope scope) (text : Text) (file : FileName) :
    t.resolve? s scope text file =
      (best? s (candidates scope text)).bind (resolve? s file) := by
  simp only [LinkTable.resolve?]
  cases hl : t.link? scope text with
  | none => rfl
  | some link => exact congrArg (Option.bind · _) (target_eq_best? ht hclean hscope hl)

/-- What a text leads to says which candidate is the best. -/
theorem map_symbol_resolve? (s : Store) (l : List Text) (file : FileName) :
    ((best? s l).bind (resolve? s file)).map (·.symbol) = best? s l := by
  cases hbest : best? s l with
  | none => rfl
  | some symbol =>
      have hsome := (Store.isSome_authoritative?_iff s _).mpr (isDefined_of_best?_eq_some hbest)
      rw [Option.bind_some, resolve?_eq]
      cases s.definition? (symbolItem symbol) file with
      | some own => rfl
      | none =>
          obtain ⟨e, he⟩ := Option.isSome_iff_exists.mp hsome
          simp [he]

/-- A file without a definition of its own sees the authoritative one. -/
theorem authoritative?_of_resolve? {file : FileName} {symbol : Text} {r : Resolution}
    (hown : s.definition? (symbolItem symbol) file = none)
    (h : resolve? s file symbol = some r) :
    s.authoritative? (symbolItem symbol) = some (r.file, r.definition) := by
  rw [resolve?_eq, hown] at h
  obtain ⟨e, he, rfl⟩ := Option.map_eq_some_iff.mp h
  exact he

theorem resolve?_eq_naive? (ht : t.Follows s) (hclean : t.CleanScopes) {scope : Option Text}
    (hscope : CleanScope scope) (text : Text) (file : FileName) :
    t.resolve? s scope text file = naive? s scope text file := by
  rw [resolve?_eq_bind ht hclean hscope, naive?, best?]
  cases (candidates scope text).find? fun symbol => s.isDefined (symbolItem symbol) with
  | none => rfl
  | some symbol => exact resolve?_eq s file symbol

/-- Every link that is known leads to its first candidate with a definition, and every text in a
clean scope is resolved as it would be naively, whether a link with it is known or not. -/
structure ResolvesNaively (p : Project) : Prop where
  targets : ∀ key link, p.derived.links.links.get? key = some link →
    key = linkKey link.scope link.text ∧
      link.target = (candidates link.scope link.text).find? fun symbol =>
        p.store.isDefined (symbolItem symbol)
  results : ∀ scope, CleanScope scope → ∀ text file,
    p.derived.links.resolve? p.store scope text file = naive? p.store scope text file

theorem resolvesNaively_of_sound {p : Project} (hp : p.Sound)
    (hclean : p.derived.links.CleanScopes) : ResolvesNaively p := by
  refine ⟨fun key link hl => ?_, fun scope hscope text file => ?_⟩
  · obtain ⟨hkey, hcandidates⟩ := hp.links.origin key link hl
    refine ⟨hkey.symm, ?_⟩
    rw [hp.links.target key link hl, hcandidates, best?]
  · exact resolve?_eq_naive? hp.links hclean hscope text file

/-- The cache of targets is right after every run of operations with clean scopes. -/
theorem resolvesNaively_performAll {os : List Operation}
    (hos : ∀ o ∈ os, o.Claims Claim.CleanLink) : ResolvesNaively (Operation.performAll os) := by
  obtain ⟨hsound, hclean⟩ := Operation.performAll_induction hos Project.cleanScopes_empty
    fun _ _ _ hmove => hmove.cleanScopes fun _ => id
  exact resolvesNaively_of_sound hsound hclean

/-- A link that leads to the singular of its text first, and then into its own scope, where the
file that defined the singular drops it. -/
def sampleRun : List Operation :=
  [.claim ['a'] (.link (some ['p']) ['x', 's']),
    .claim ['b'] (.symbol ['x'] ⟨.single .functionType, none, none⟩),
    .watch ['b'],
    .claim ['b'] (.symbol ['p', '.', 'x'] ⟨.single .variableType, none, none⟩),
    .analyze, .analyze]

theorem resolvesNaively_sampleRun :
    (∀ o ∈ sampleRun, o.Claims Claim.CleanLink) ∧
      ResolvesNaively (Operation.performAll sampleRun) :=
  have hos : ∀ o ∈ sampleRun, o.Claims Claim.CleanLink := by decide
  ⟨hos, resolvesNaively_performAll hos⟩

example :
    (Operation.performAll sampleRun).derived.links.resolve? (Operation.performAll sampleRun).store
        (some ['p']) ['x', 's'] ['a'] =
      some ⟨['p', '.', 'x'], ['b'], .rich ⟨.single .variableType, none, none⟩⟩ := by
  decide

end Commentary.Index
