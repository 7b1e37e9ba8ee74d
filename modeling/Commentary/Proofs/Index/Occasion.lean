import Commentary.Proofs.Index.Kinship
import Commentary.Proofs.Index.Referencing
import Commentary.Proofs.Index.Resolution

/-!
# What marks are made for

A mark is made in the middle of a change, when some claims of the file are recorded and some of
its differences are settled. What a single move marks another file for can be told from the stores
before and after the move. It can still be told from the stores before and after the whole change:
nothing that is claimed goes again, and nothing that goes comes back.
-/

namespace Commentary

open Index

/-! ## Stores that rise -/

/-- From the third store to the fourth, items only come. What the first store defines is there all
along, and whatever comes is defined in the first store or in the second. -/
structure Store.Rising (s t x y : Store) : Prop where
  lower : ∀ id, s.isDefined id → x.isDefined id
  step : ∀ id, x.isDefined id → y.isDefined id
  upper : ∀ id, y.isDefined id → s.isDefined id ∨ t.isDefined id

namespace Index

variable {s t u : Store} {l : List Text} {symbol : Text}

theorem best?_cons (s : Store) (other : Text) (l : List Text) :
    best? s (other :: l) = if s.isDefined (symbolItem other) then some other else best? s l := by
  rw [best?, List.find?_cons]
  split <;> simp_all [best?]

/-- The best candidate stays the best when others go. -/
theorem best?_of_fewer (h : best? u l = some symbol)
    (hfewer : ∀ id, t.isDefined id → u.isDefined id) (ht : t.isDefined (symbolItem symbol)) :
    best? t l = some symbol := by
  induction l with
  | nil => cases h
  | cons other l ih =>
      rw [best?_cons] at h ⊢
      by_cases hother : other = symbol
      · rw [hother, if_pos ht]
      · split_ifs at h with hu
        · exact absurd (Option.some.inj h) hother
        · rw [if_neg fun hdefined => hu (hfewer _ hdefined)]
          exact ih h

end Index

namespace Store.Rising

variable {s t x y : Store} (h : Rising s t x y)

include h

theorem isDefined_ne {id : ItemId} (hne : y.isDefined id ≠ x.isDefined id) :
    t.isDefined id ≠ s.isDefined id := by
  by_cases hx : x.isDefined id
  · exact absurd ((h.step id hx).trans hx.symm) hne
  · have hy : y.isDefined id := by
      by_contra hy
      exact hne (by rw [Bool.eq_iff_iff]; exact iff_of_false hy hx)
    have hs : ¬ s.isDefined id := fun hd => hx (h.lower id hd)
    have ht : t.isDefined id := (h.upper id hy).resolve_left hs
    rw [ht]
    exact fun he => hs he.symm

/-- What takes a link over on the way is defined in the second store, and neither it nor anything
better is defined in the first. -/
theorem best?_ne {l : List Text} (hne : best? y l ≠ best? x l) : best? t l ≠ best? s l := by
  induction l with
  | nil => exact hne
  | cons symbol l ih =>
      rw [best?_cons, best?_cons] at hne
      by_cases hx : x.isDefined (symbolItem symbol)
      · rw [if_pos (h.step _ hx), if_pos hx] at hne
        exact absurd rfl hne
      · have hs : ¬ s.isDefined (symbolItem symbol) := fun hd => hx (h.lower _ hd)
        by_cases ht : t.isDefined (symbolItem symbol)
        · rw [best?_cons, if_pos ht]
          exact fun he => hs (isDefined_of_best?_eq_some he.symm)
        · have hy : ¬ y.isDefined (symbolItem symbol) := fun hd => (h.upper _ hd).elim hs ht
          rw [if_neg hx, if_neg hy] at hne
          rw [best?_cons, best?_cons, if_neg hs, if_neg ht]
          exact ih hne

end Store.Rising

/-! ## Occasions -/

/-- One of two classes is a parent of the other. -/
def Store.Akin (s : Store) (a b : Text) : Prop :=
  (Clean a ∧ s.isDefined (edgeItem (edgeKey a b))) ∨
    (Clean b ∧ s.isDefined (edgeItem (edgeKey b a)))

theorem Store.Akin.or_of_isDefined {s t u : Store}
    (h : ∀ id, u.isDefined id → s.isDefined id ∨ t.isDefined id) {a b : Text} (hab : u.Akin a b) :
    s.Akin a b ∨ t.Akin a b := by
  rcases hab with ⟨hclean, hedge⟩ | ⟨hclean, hedge⟩
  · exact (h _ hedge).imp (fun hd => .inl ⟨hclean, hd⟩) fun hd => .inl ⟨hclean, hd⟩
  · exact (h _ hedge).imp (fun hd => .inr ⟨hclean, hd⟩) fun hd => .inr ⟨hclean, hd⟩

theorem Index.ClassGraph.Mirrors.mem_relatives_iff {g : ClassGraph} {s : Store}
    (h : g.Mirrors s) (a b : Text) : b ∈ g.relatives a ↔ s.Akin a b := by
  rw [ClassGraph.mem_relatives, h.parents, h.children, Store.Akin]

/-- A file has a link with a text in a clean scope. -/
structure Store.Holds (s : Store) (g : FileName) (scope : Option Text) (text : Text) : Prop where
  clean : CleanScope scope
  link : g ∈ s.definers (linkItem (linkKey scope text))

/-- A file changes the authoritative definition of an item, or it drops a definition of it. -/
structure Store.TakesBack (file : FileName) (id : ItemId) (s t : Store) : Prop where
  differs : t.definition? id file ≠ s.definition? id file
  counts : (s.authoritative? id).any (·.1 = file) ∨ t.definition? id file = none

theorem Store.TakesBack.mem_definers {file : FileName} {id : ItemId} {s t : Store}
    (h : TakesBack file id s t) : file ∈ s.definers id := by
  by_contra hf
  have hnone := (definition?_eq_none_iff _ _ _).mpr hf
  rcases h.counts with hcounts | hgone
  · exact hf (mem_definers_of_any_authoritative? hcounts)
  · exact h.differs (hgone.trans hnone.symm)

/-- What another file may be marked for when the definitions of a file change. -/
inductive Occasion (file g : FileName) (s t : Store) : Prop where
  /-- A link of it has another best candidate. -/
  | moved (scope : Option Text) (text : Text) (h : s.Holds g scope text)
      (hne : best? t (candidates scope text) ≠ best? s (candidates scope text))
  /-- A link of it leads to a symbol, of which a definition is taken back. -/
  | taken (scope : Option Text) (text symbol : Text) (h : s.Holds g scope text)
      (htarget : best? t (candidates scope text) = some symbol)
      (htaken : Store.TakesBack file (symbolItem symbol) s t)
  /-- A class that it defines gets a parent or a child, or loses it. -/
  | edge (name parent own : Text) (hclean : Clean name) (hown : own = name ∨ own = parent)
      (hclass : g ∈ s.definers (classItem own))
      (hne : t.isDefined (edgeItem (edgeKey name parent)) ≠
        s.isDefined (edgeItem (edgeKey name parent)))
  /-- A relative of a class that it defines gets a definition, or has none any more. -/
  | relative (name own : Text) (hkin : s.Akin own name ∨ t.Akin own name)
      (hclass : g ∈ s.definers (classItem own))
      (hne : t.isDefined (classItem name) ≠ s.isDefined (classItem name))

namespace Project

variable {file g : FileName} {u : Store} {x : Project}

/-! ## Marks of a single move -/

theorem exists_of_mem_rebuild_retarget {symbol : Text} (hx : x.derived.links.Follows x.store)
    (hscopes : x.derived.links.CleanScopes)
    (h : g ∈ (retarget ⟨u, x.derived⟩ symbol).derived.rebuild) :
    g ∈ x.derived.rebuild ∨ ∃ scope text, u.Holds g scope text ∧
      best? u (candidates scope text) ≠ best? x.store (candidates scope text) := by
  rcases mem_rebuild_retarget.mp h with h | ⟨key, hkey, hlink⟩
  · exact .inl h
  · obtain ⟨-, link, hl, hmoved⟩ := (LinkTable.mem_moved_retargetAll _ _ _ _).mp hkey
    obtain ⟨rfl, hcandidates⟩ := hx.origin key link hl
    rw [hx.target _ link hl, hcandidates] at hmoved
    exact .inr ⟨link.scope, link.text, ⟨hscopes _ link hl, hlink⟩, hmoved.symm⟩

theorem exists_of_mem_rebuild_markReferencing {symbol : Text}
    (hx : x.derived.links.Follows x.store) (hscopes : x.derived.links.CleanScopes)
    (h : g ∈ (markReferencing ⟨u, x.derived⟩ symbol).derived.rebuild) :
    g ∈ x.derived.rebuild ∨ ∃ scope text, u.Holds g scope text ∧
      best? x.store (candidates scope text) = some symbol := by
  rcases mem_rebuild_mark.mp h with h | h
  · exact .inl h
  · obtain ⟨key, hkey, hlink⟩ := List.mem_flatMap.mp (OrderedSet.mem_ofList.mp h)
    obtain ⟨link, hl, htarget⟩ := (hx.mem_leadingTo symbol key).mp hkey
    obtain ⟨rfl, hcandidates⟩ := hx.origin key link hl
    rw [hx.target _ link hl, hcandidates] at htarget
    exact .inr ⟨link.scope, link.text, ⟨hscopes _ link hl, hlink⟩, htarget⟩

section Claims

variable (hg : g ≠ file)

include hg

theorem mem_definers_of_claim {id j : ItemId} {d : Definition}
    (h : g ∈ (x.store.claim id file d).2.definers j) : g ∈ x.store.definers j :=
  ((Store.mem_definers_claim _ _ _ _ _ _).mp h).resolve_right fun e => hg e.2

theorem occasion_addSymbol {symbol : Text} {d : SymbolDefinition}
    (hx : x.derived.links.Follows x.store) (hscopes : x.derived.links.CleanScopes)
    (h : g ∈ (x.addSymbol file symbol d).derived.rebuild) :
    g ∈ x.derived.rebuild ∨ Occasion file g x.store (x.addSymbol file symbol d).store := by
  rw [addSymbol_eq] at h ⊢
  split
  · next hd =>
      rw [if_pos hd] at h
      exact .inl h
  · next hd =>
      rw [if_neg hd] at h
      refine (exists_of_mem_rebuild_retarget hx hscopes h).imp_right ?_
      rintro ⟨scope, text, hlink, hne⟩
      exact .moved scope text ⟨hlink.clean, mem_definers_of_claim hg hlink.link⟩ hne

theorem occasion_addClass {name : Text} (hx : x.derived.classes.Mirrors x.store)
    (h : g ∈ (x.addClass file name).derived.rebuild) :
    g ∈ x.derived.rebuild ∨ Occasion file g x.store (x.addClass file name).store := by
  rw [(marked_addClass x file name).store]
  rw [addClass_eq] at h
  dsimp only at h
  split at h
  · exact .inl h
  · next hd =>
      rw [mem_rebuild_markRelatives] at h
      refine h.imp_right ?_
      rintro ⟨own, hown, hclass⟩
      rw [ClassGraph.mem_relatives, ClassGraph.parents_ensure, ClassGraph.children_ensure,
        ← ClassGraph.mem_relatives, hx.mem_relatives_comm, hx.mem_relatives_iff] at hown
      refine .relative name own (.inl hown) (mem_definers_of_claim hg hclass) ?_
      rw [Store.isDefined_claim]
      exact fun he => hd he.symm

theorem occasion_addParent {name parent : Text} (hclean : Clean name)
    (h : g ∈ (x.addParent file name parent).derived.rebuild) :
    g ∈ x.derived.rebuild ∨ Occasion file g x.store (x.addParent file name parent).store := by
  have hself : ∀ (q : Project) (b : Bool),
      g ∈ (if b then q.mark [file] else q).derived.rebuild → g ∈ q.derived.rebuild := by
    intro q b hq
    split at hq
    · exact (mem_rebuild_mark.mp hq).resolve_right fun he => hg (List.mem_singleton.mp he)
    · exact hq
  rw [(marked_addParent x file name parent).store]
  rw [addParent_eq] at h
  have hends := hself _ _ h
  split at hends
  · exact .inl hends
  · next hd =>
      refine (mem_rebuild_markEnds.mp hends).imp_right ?_
      rintro ⟨own, hown, hclass⟩
      refine .edge name parent own hclean hown (mem_definers_of_claim hg hclass) ?_
      rw [Store.isDefined_claim]
      exact fun he => hd he.symm

/-- A claim marks another file only for what comes by it. -/
theorem occasion_accept {c : Claim} (hc : c.CleanStep) (hx : x.derived.links.Follows x.store)
    (hscopes : x.derived.links.CleanScopes) (hmirrors : x.derived.classes.Mirrors x.store)
    (h : g ∈ (x.accept file c).derived.rebuild) :
    g ∈ x.derived.rebuild ∨ Occasion file g x.store (x.accept file c).store := by
  cases c with
  | symbol symbol d => exact occasion_addSymbol hg hx hscopes h
  | link scope text =>
      rw [accept, addLink_eq] at h
      exact .inl h
  | className name => exact occasion_addClass hg hmirrors h
  | edge name parent => exact occasion_addParent hg hc h

end Claims

theorem mem_definers_accept {f : FileName} {id : ItemId} (hf : f ∈ x.store.definers id)
    (file : FileName) (c : Claim) : f ∈ (x.accept file c).store.definers id := by
  rw [store_accept, Store.mem_definers_claim]
  exact .inl hf

/-- A file that has said something about an item does not change that by a claim. -/
theorem definitions_accept_of_mem {id : ItemId} (hf : file ∈ x.store.definers id) (c : Claim) :
    (x.accept file c).store.definitions id = x.store.definitions id := by
  rw [store_accept, Store.definitions_claim, if_neg]
  rintro ⟨rfl, hnew⟩
  exact hnew hf

theorem not_takesBack_accept (x : Project) (file : FileName) (c : Claim) (id : ItemId) :
    ¬ Store.TakesBack file id x.store (x.accept file c).store := by
  intro h
  apply h.differs
  rw [Store.definition?_eq, definitions_accept_of_mem h.mem_definers, ← Store.definition?_eq]

section Differences

variable (hx : x.derived.links.Follows x.store) (hscopes : x.derived.links.CleanScopes)

include hx hscopes

theorem occasion_markReferencing {symbol : Text}
    (hdefined : ∀ id, u.isDefined id = x.store.isDefined id)
    (hothers : ∀ id, g ∈ u.definers id → g ∈ x.store.definers id)
    (htaken : Store.TakesBack file (symbolItem symbol) x.store u)
    (h : g ∈ (markReferencing ⟨u, x.derived⟩ symbol).derived.rebuild) :
    g ∈ x.derived.rebuild ∨ Occasion file g x.store u := by
  refine (exists_of_mem_rebuild_markReferencing hx hscopes h).imp_right ?_
  rintro ⟨scope, text, hlink, htarget⟩
  refine .taken scope text symbol ⟨hlink.clean, hothers _ hlink.link⟩ ?_ htaken
  rw [best?_congr fun other => hdefined (symbolItem other), htarget]

theorem occasion_changed {id : ItemId} {new : Definition}
    (hv : file ∈ x.store.definers id) (hdiffers : x.store.definition? id file ≠ some new)
    (h : g ∈ (x.follow file (.changed id new)).derived.rebuild) :
    g ∈ x.derived.rebuild ∨ Occasion file g x.store (x.store.revise id file new) := by
  obtain ⟨extension, key⟩ := id
  simp only [follow] at h
  split at h
  · next hext =>
      subst hext
      simp only [symbolChanged] at h
      split at h
      · next hcounts =>
          have hself := (Difference.changed ⟨0, key⟩ new).definition?_commit_self hv
          rw [Store.any_authoritative?_revise] at hcounts
          refine occasion_markReferencing hx hscopes (Store.isDefined_revise _ _ _ _)
            (fun j hj => ?_) ⟨fun he => hdiffers (he.symm.trans hself), .inl hcounts⟩ h
          rwa [Store.definers_revise] at hj
      · exact .inl h
  · exact .inl h

theorem occasion_vacate {id : ItemId} (hmirrors : x.derived.classes.Mirrors x.store)
    (hv : file ∈ x.store.definers id) (hlast : ¬ (x.dropped id file).store.isDefined id)
    (h : g ∈ ((x.dropped id file).vacate id).derived.rebuild) :
    g ∈ x.derived.rebuild ∨ Occasion file g x.store (x.store.drop id file) := by
  -- The marks are made when the item is removed, which shows in no query.
  have halike := Store.alike_eraseItem hlast
  have hothers : ∀ j, g ∈ ((x.dropped id file).store.eraseItem id).definers j →
      g ∈ x.store.definers j := by
    intro j hj
    rw [halike.definers] at hj
    exact ((Store.mem_definers_drop _ _ _ _ _).mp hj).1
  have hne : (x.store.drop id file).isDefined id ≠ x.store.isDefined id := by
    have hd : x.store.isDefined id := Store.isDefined_of_mem hv
    rw [hd]
    exact hlast
  obtain ⟨extension, key⟩ := id
  rcases extension with _ | _ | _ | _ | n
  · refine (exists_of_mem_rebuild_retarget hx hscopes h).imp_right ?_
    rintro ⟨scope, text, hlink, hmoved⟩
    refine .moved scope text ⟨hlink.clean, hothers _ hlink.link⟩ ?_
    rwa [best?_congr fun other => halike.isDefined (symbolItem other)] at hmoved
  · exact .inl h
  · refine (mem_rebuild_markRelatives.mp h).imp_right ?_
    rintro ⟨own, hown, hclass⟩
    have hkin : key ∈ x.derived.classes.relatives own := (hmirrors.mem_relatives_comm _ _).mp hown
    rw [hmirrors.mem_relatives_iff] at hkin
    exact .relative key own (.inl hkin) (hothers _ hclass) hne
  · cases hsplit : splitEdgeKey? key with
    | none =>
        simp only [vacate, hsplit] at h
        exact .inl h
    | some step =>
        obtain ⟨name, parent⟩ := step
        obtain ⟨hclean, rfl⟩ := eq_pair_of_unpair?_eq_some hsplit
        rw [vacate_edge hsplit] at h
        refine (mem_rebuild_markEnds.mp h).imp_right ?_
        rintro ⟨own, hown, hclass⟩
        exact .edge name parent own hclean hown (hothers _ hclass) hne
  · exact .inl h

theorem occasion_deleted {id : ItemId} (hmirrors : x.derived.classes.Mirrors x.store)
    (hv : file ∈ x.store.definers id)
    (h : g ∈ (x.follow file (.deleted id)).derived.rebuild) :
    g ∈ x.derived.rebuild ∨ Occasion file g x.store (x.store.drop id file) := by
  by_cases hlast : (x.dropped id file).store.isDefined id
  · simp only [follow] at h
    rw [if_pos hlast] at h
    split at h
    · next hext =>
        obtain ⟨extension, key⟩ := id
        subst hext
        have hgone := (Difference.deleted ⟨0, key⟩).definition?_commit_self hv
        refine occasion_markReferencing hx hscopes (fun j => ?_) (fun j hj => ?_)
          ⟨fun he => ?_, .inr hgone⟩ h
        · have hd : x.store.isDefined ⟨0, key⟩ := Store.isDefined_of_mem hv
          by_cases hj : j = ⟨0, key⟩
          · exact hj ▸ hlast.trans hd.symm
          · exact isDefined_dropped_of_ne x file hj
        · exact ((Store.mem_definers_drop _ _ _ _ _).mp hj).1
        · exact (Store.definition?_eq_none_iff _ _ _).mp (he.symm.trans hgone) hv
    · exact .inl h
  · rw [follow_deleted_of_last hlast] at h
    exact occasion_vacate hx hscopes hmirrors hv hlast h

/-- A difference that is settled marks another file only for what it takes back. -/
theorem occasion_follow {d : Difference} (hmirrors : x.derived.classes.Mirrors x.store)
    (hv : d.Valid file x.store) (hdiffers : x.store.definition? d.item file ≠ d.result)
    (h : g ∈ (x.follow file d).derived.rebuild) :
    g ∈ x.derived.rebuild ∨ Occasion file g x.store (d.commit file x.store) := by
  cases d with
  | changed id new => exact occasion_changed hx hscopes hv.mem_definers hdiffers h
  | deleted id => exact occasion_deleted hx hscopes hmirrors hv h

end Differences

end Project

/-! ## Occasions on the way -/

namespace Occasion

variable {file g : FileName} {s t x y : Store}

/-- What differs on the way differs between the two ends. -/
theorem widen (h : Occasion file g x y) (hway : s.Rising t x y ∨ t.Rising s y x)
    (hothers : ∀ id, g ∈ x.definers id → g ∈ s.definers id)
    (htaken : ∀ l symbol, best? y l = some symbol →
      Store.TakesBack file (symbolItem symbol) x y →
        best? t l = some symbol ∧ Store.TakesBack file (symbolItem symbol) s t) :
    Occasion file g s t := by
  have hholds : ∀ scope text, x.Holds g scope text → s.Holds g scope text :=
    fun scope text hlink => ⟨hlink.clean, hothers _ hlink.link⟩
  have hdefined : ∀ id, y.isDefined id ≠ x.isDefined id → t.isDefined id ≠ s.isDefined id := by
    intro id hne
    rcases hway with hway | hway
    · exact hway.isDefined_ne hne
    · exact (hway.isDefined_ne hne.symm).symm
  have hbest : ∀ l, best? y l ≠ best? x l → best? t l ≠ best? s l := by
    intro l hne
    rcases hway with hway | hway
    · exact hway.best?_ne hne
    · exact (hway.best?_ne hne.symm).symm
  cases h with
  | moved scope text hlink hne => exact .moved scope text (hholds _ _ hlink) (hbest _ hne)
  | taken scope text symbol hlink htarget h =>
      obtain ⟨htarget, h⟩ := htaken _ _ htarget h
      exact .taken scope text symbol (hholds _ _ hlink) htarget h
  | edge name parent own hclean hown hclass hne =>
      exact .edge name parent own hclean hown (hothers _ hclass) (hdefined _ hne)
  | relative name own hkin hclass hne =>
      have hbounds : ∀ id, x.isDefined id ∨ y.isDefined id → s.isDefined id ∨ t.isDefined id := by
        intro id hid
        rcases hway with hway | hway
        · exact hway.upper id (hid.elim (hway.step id) fun hy => hy)
        · exact (hway.upper id (hid.elim (fun hx => hx) (hway.step id))).symm
      have hakin : s.Akin own name ∨ t.Akin own name := by
        rcases hkin with hkin | hkin
        · exact hkin.or_of_isDefined fun id hd => hbounds id (.inl hd)
        · exact hkin.or_of_isDefined fun id hd => hbounds id (.inr hd)
      exact .relative name own hakin (hothers _ hclass) (hdefined _ hne)

end Occasion

end Commentary
