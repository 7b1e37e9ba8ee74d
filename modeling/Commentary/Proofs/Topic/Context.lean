import Commentary.Proofs.Topic.Compaction
import Commentary.Proofs.Topic.Merge
import Commentary.SourceFile

/-!
# Contexts and open packages

While comments are cut into topics, a context is passed on that says which package the next topic
is placed in. Reading the finished topics again tells the same package at every one of them. So
topics that come from comments alone stand where their packages are open, and get no delineators.
-/

namespace Commentary

/-- The context in a package: links start from there, too. -/
def Context.inside (package : Option Text) : Context := ⟨package, package⟩

namespace Topic

/-- A topic has the package that it leaves open: its links start there, and it lies in it, unless
it is a file. -/
structure InContext (before : List Topic) (t : Topic) : Prop where
  package : t.package = if t.scopeRule = .global then none else packageBehind (before ++ [t])
  scope : t.scope = packageBehind (before ++ [t])

theorem InContext.atHome {before : List Topic} {t : Topic} (h : InContext before t) :
    AtHome before t := by
  intro hrule
  rw [h.package, if_neg (by simp [hrule]), packageBehind_concat, packageAfter, hrule]

variable {before found : List Topic}

theorem packageBehind_append_attach (code : Option Text) (before found : List Topic) :
    packageBehind (before ++ attach code found) = packageBehind (before ++ found) := by
  rcases attach_eq_self_or code found with h | ⟨t, prototype, rfl, h⟩
  · rw [h]
  · rw [h, packageBehind_concat, packageBehind_concat]
    rfl

theorem successive_append_attach (code : Option Text)
    (h : Successive InContext (before ++ found)) :
    Successive InContext (before ++ attach code found) := by
  rcases attach_eq_self_or code found with hsame | ⟨t, prototype, rfl, hattach⟩
  · rwa [hsame]
  · obtain ⟨hbefore, ht⟩ := Successive.concat_iff.mp h
    have hopen : packageBehind (before ++ [{ t with prototype := prototype }]) =
        packageBehind (before ++ [t]) := by
      rw [packageBehind_concat, packageBehind_concat]
      rfl
    rw [hattach]
    refine Successive.concat_iff.mpr ⟨hbefore, ?_, ht.scope.trans hopen.symm⟩
    rw [hopen]
    exact ht.package

end Topic

/-! ## The topics of a comment -/

namespace Section

open Topic

theorem contextAfter_inside (s : Section) (package : Option Text) :
    s.contextAfter (.inside package) =
      .inside (packageAfter package (s.topic (.inside package))) := by
  rw [packageAfter, scopeRule, kind_topic, title_topic, contextAfter]
  cases s.header.kind.type.scopeRule <;> rfl

theorem inContext_topic (s : Section) (before : List Topic) :
    InContext before (s.topic (.inside (packageBehind before))) := by
  have hafter := s.contextAfter_inside (packageBehind before)
  rw [← packageBehind_concat] at hafter
  refine ⟨?_, ?_⟩
  · rw [package_topic, hafter, scopeRule, kind_topic]
    rfl
  · rw [scope_topic, hafter]
    rfl

/-- Cutting a comment into topics passes on the package that the topics leave open. -/
theorem successive_topics {before : List Topic} (h : Successive InContext before)
    (sections : List Section) :
    let found := topics (.inside (packageBehind before)) sections
    Successive InContext (before ++ found.1) ∧
      found.2 = .inside (packageBehind (before ++ found.1)) := by
  induction sections generalizing before with
  | nil => simpa [topics] using h
  | cons s sections ih =>
      have hs := Successive.concat_iff.mpr ⟨h, s.inContext_topic before⟩
      have hafter := s.contextAfter_inside (packageBehind before)
      rw [← packageBehind_concat] at hafter
      simpa [topics, hafter] using ih hs

end Section

/-! ## The topics of a file -/

namespace Comment

open Topic

variable (settings : Settings) (keywords : KeywordTable)

/-- The context behind some comments. -/
def contextBehind (context : Context) (comments : List Comment) : Context :=
  comments.foldl (fun context c => (c.topics settings keywords context).2) context

variable {before : List Topic}

theorem successive_topics (h : Successive InContext before) (c : Comment) :
    let found := c.topics settings keywords (.inside (packageBehind before))
    Successive InContext (before ++ found.1) ∧
      found.2 = .inside (packageBehind (before ++ found.1)) := by
  obtain ⟨hfound, hafter⟩ :=
    Section.successive_topics h (Section.ofLines keywords (c.cleanedLines settings))
  rw [topics, Topic.ofComment_eq]
  exact ⟨successive_append_attach _ hfound, hafter.trans (by rw [packageBehind_append_attach])⟩

theorem successive_topicsOfAll (h : Successive InContext before) (comments : List Comment) :
    let found := topicsOfAll settings keywords (.inside (packageBehind before)) comments
    Successive InContext (before ++ found) ∧
      contextBehind settings keywords (.inside (packageBehind before)) comments =
        .inside (packageBehind (before ++ found)) := by
  induction comments generalizing before with
  | nil => simpa [topicsOfAll, contextBehind] using h
  | cons c comments ih =>
      obtain ⟨hfound, hafter⟩ := successive_topics settings keywords h c
      obtain ⟨hall, hbehind⟩ := ih hfound
      dsimp only
      rw [topicsOfAll]
      dsimp only
      rw [contextBehind, List.foldl_cons, hafter, ← List.append_assoc]
      exact ⟨hall, hbehind⟩

end Comment

namespace SourceFile

open Topic

variable (settings : Settings) (keywords : KeywordTable)

theorem successive_commentTopics (f : SourceFile) :
    Successive InContext (f.commentTopics settings keywords) :=
  (Comment.successive_topicsOfAll settings keywords .nil _).1

/-- Without automatic topics there is nothing to merge and no package to open. -/
theorem topics_parse_of_autos_eq_nil (f : SourceFile) (h : f.autos = []) :
    (f.parse settings keywords).topics = f.commentTopics settings keywords := by
  rw [parse, merge, h, List.mergeSort_nil, mergeFrom_nil]
  exact delineate_eq_self
    ((successive_commentTopics settings keywords f).mono fun _ _ => InContext.atHome)

end SourceFile

end Commentary
