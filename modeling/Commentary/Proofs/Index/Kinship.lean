import Commentary.Proofs.Index.Marking

/-!
# Marks for the relatives of a class

What is written about a class depends on its relatives, and on which of these are defined. Classes
and steps come and go one at a time. Each time the files are marked that define a class with other
relatives than before, as long as the graph mirrors the store when the move begins.
-/

namespace Commentary

open Index

theorem Index.ClassGraph.Mirrors.mem_relatives_comm {g : ClassGraph} {s : Store}
    (h : g.Mirrors s) (name k : Text) : k ∈ g.relatives name ↔ name ∈ g.relatives k := by
  rw [ClassGraph.mem_relatives, ClassGraph.mem_relatives, h.parents, h.children, h.parents,
    h.children]
  exact or_comm

namespace Project

variable {p q r : Project} {g file : FileName} {ok : Claim → Prop} {name n : Text}

/-- The relatives of a class that some file defines. -/
def definedRelatives (p : Project) (name : Text) : List Text :=
  (p.derived.classes.relatives name).filter fun k => p.store.isDefined (classItem k)

theorem mem_definedRelatives {k : Text} :
    k ∈ p.definedRelatives name ↔
      (k ∈ p.derived.classes.parents name ∨ k ∈ p.derived.classes.children name) ∧
        p.store.isDefined (classItem k) := by
  rw [definedRelatives, List.mem_filter, ClassGraph.mem_relatives]

/-- A class has the same parents and the same children in two projects, and the same of them are
defined. -/
structure SameKin (name : Text) (p q : Project) : Prop where
  parents : ∀ k, k ∈ q.derived.classes.parents name ↔ k ∈ p.derived.classes.parents name
  children : ∀ k, k ∈ q.derived.classes.children name ↔ k ∈ p.derived.classes.children name
  defined : ∀ k, k ∈ q.definedRelatives name ↔ k ∈ p.definedRelatives name

namespace SameKin

theorem refl (name : Text) (p : Project) : SameKin name p p :=
  ⟨fun _ => .rfl, fun _ => .rfl, fun _ => .rfl⟩

theorem trans (h : SameKin name p q) (k : SameKin name q r) : SameKin name p r :=
  ⟨fun j => (k.parents j).trans (h.parents j), fun j => (k.children j).trans (h.children j),
    fun j => (k.defined j).trans (h.defined j)⟩

theorem of_relatives
    (hparents : ∀ k, k ∈ q.derived.classes.parents name ↔ k ∈ p.derived.classes.parents name)
    (hchildren : ∀ k, k ∈ q.derived.classes.children name ↔ k ∈ p.derived.classes.children name)
    (hdefined : ∀ k ∈ p.derived.classes.relatives name,
      q.store.isDefined (classItem k) = p.store.isDefined (classItem k)) :
    SameKin name p q := by
  refine ⟨hparents, hchildren, fun k => ?_⟩
  rw [mem_definedRelatives, mem_definedRelatives, hparents, hchildren]
  refine and_congr_right fun hk => ?_
  rw [hdefined k (ClassGraph.mem_relatives.mpr hk)]

theorem of_classes_eq (hclasses : q.derived.classes = p.derived.classes)
    (hdefined : ∀ k, q.store.isDefined (classItem k) = p.store.isDefined (classItem k)) :
    SameKin name p q := by
  refine .of_relatives (fun _ => ?_) (fun _ => ?_) fun k _ => hdefined k
  · rw [hclasses]
  · rw [hclasses]

end SameKin

/-! ## Claims -/

theorem mem_rebuild_markEnds {a b : Text} :
    g ∈ ((p.markDefiners a).markDefiners b).derived.rebuild ↔ g ∈ p.derived.rebuild ∨
      ∃ own, (own = a ∨ own = b) ∧ g ∈ p.store.definers (classItem own) := by
  rw [mem_rebuild_markDefiners, mem_rebuild_markDefiners, (marked_markDefiners p a).store]
  simp [or_and_right, exists_or, or_assoc]

theorem kin_addClass (hp : p.derived.classes.Mirrors p.store)
    (hclass : g ∈ p.store.definers (classItem name)) (file : FileName) (n : Text) :
    g ∈ (p.addClass file n).derived.rebuild ∨ SameKin name p (p.addClass file n) := by
  by_cases hfirst : n ∈ p.derived.classes.relatives name ∧ ¬ p.store.isDefined (classItem n)
  · -- The class gains its first definition, so its relatives are marked, and the file with them.
    rw [addClass_eq]
    dsimp only
    rw [if_neg hfirst.2]
    refine .inl (mem_rebuild_markRelatives.mpr (.inr ⟨name, ?_, ?_⟩))
    · rw [ClassGraph.mem_relatives, ClassGraph.parents_ensure, ClassGraph.children_ensure,
        ← ClassGraph.mem_relatives]
      exact (hp.mem_relatives_comm name n).mp hfirst.1
    · exact (Store.mem_definers_claim _ _ _ _ _ g).mpr (.inl hclass)
  · have hclasses : (p.addClass file n).derived.classes = p.derived.classes.ensure n :=
      (marked_addClass p file n).classes
    refine .inr (.of_relatives (fun k => ?_) (fun k => ?_) fun k hk => ?_)
    · rw [hclasses, ClassGraph.parents_ensure]
    · rw [hclasses, ClassGraph.children_ensure]
    · by_cases hkn : k = n
      · subst hkn
        have hd : p.store.isDefined (classItem k) := by simpa [hk] using hfirst
        exact isDefined_accept_of_isDefined p file (c := .className k) hd _
      · exact isDefined_accept_of_ne p file (c := .className n)
          (by simpa [Claim.item, classItem] using hkn)

theorem mem_rebuild_addParent {parent : Text}
    (hfirst : ¬ p.store.isDefined (edgeItem (edgeKey n parent)))
    (hclass : g ∈ p.store.definers (classItem name)) (hend : name = n ∨ name = parent)
    (file : FileName) : g ∈ (p.addParent file n parent).derived.rebuild := by
  have hconnect : ∀ q : Project, g ∈ q.store.definers (classItem name) →
      g ∈ (q.connect n parent).derived.rebuild := fun _ hq =>
    mem_rebuild_markEnds.mpr (.inr ⟨name, hend, hq⟩)
  have hclaimed :
      g ∈ (p.store.claim (edgeItem (edgeKey n parent)) file .bare).2.definers (classItem name) :=
    (Store.mem_definers_claim _ _ _ _ _ g).mpr (.inl hclass)
  rw [addParent_eq]
  simp only [if_neg hfirst]
  split
  · exact mem_rebuild_mark.mpr (.inl (hconnect _ hclaimed))
  · exact hconnect _ hclaimed

theorem kin_addParent (hclass : g ∈ p.store.definers (classItem name)) (file : FileName)
    (n parent : Text) :
    g ∈ (p.addParent file n parent).derived.rebuild ∨
      SameKin name p (p.addParent file n parent) := by
  have hdefined : ∀ k, (p.addParent file n parent).store.isDefined (classItem k) =
      p.store.isDefined (classItem k) := fun k =>
    isDefined_accept_of_ne p file (c := .edge n parent)
      (by simp [Claim.item, classItem, edgeItem])
  have hclasses := (marked_addParent p file n parent).classes
  by_cases hd : p.store.isDefined (edgeItem (edgeKey n parent))
  · simp only [if_pos hd] at hclasses
    refine .inr (.of_relatives (fun k => ?_) (fun k => ?_) fun k _ => hdefined k)
    · rw [hclasses, ClassGraph.parents_ensure, ClassGraph.parents_ensure]
    · rw [hclasses, ClassGraph.children_ensure, ClassGraph.children_ensure]
  · simp only [if_neg hd] at hclasses
    by_cases hend : name = n ∨ name = parent
    · exact .inl (mem_rebuild_addParent hd hclass hend file)
    · obtain ⟨hn, hparent⟩ := not_or.mp hend
      refine .inr (.of_relatives (fun k => ?_) (fun k => ?_) fun k _ => hdefined k)
      · rw [hclasses, ClassGraph.mem_parents_connect (by simp [ClassGraph.isSome_node?_ensure]),
          ClassGraph.parents_ensure, ClassGraph.parents_ensure]
        exact or_iff_left fun e => hn e.1
      · rw [hclasses, ClassGraph.mem_children_connect (by simp [ClassGraph.isSome_node?_ensure]),
          ClassGraph.children_ensure, ClassGraph.children_ensure]
        exact or_iff_left fun e => hparent e.2

/-! ## Items that go -/

theorem kin_vacate_class (hp : p.derived.classes.Mirrors p.store)
    (hclass : g ∈ (p.dropped ⟨2, n⟩ file).store.definers (classItem name))
    (hlast : ¬ (p.dropped ⟨2, n⟩ file).store.isDefined ⟨2, n⟩) :
    g ∈ ((p.dropped ⟨2, n⟩ file).vacate ⟨2, n⟩).derived.rebuild ∨
      SameKin name p ((p.dropped ⟨2, n⟩ file).vacate ⟨2, n⟩) := by
  by_cases hk : n ∈ p.derived.classes.relatives name
  · -- The class is pruned only when its relatives have been marked.
    refine .inl (mem_rebuild_markRelatives.mpr (.inr ⟨name, ?_, ?_⟩))
    · exact (hp.mem_relatives_comm name n).mp hk
    · exact (Store.alike_eraseItem hlast).definers _ ▸ hclass
  · have hclasses := classes_vacate_class (p.dropped ⟨2, n⟩ file) n
    refine .inr (.of_relatives (fun k => ?_) (fun k => ?_) fun k hkin => ?_)
    · rw [hclasses, ClassGraph.parents_prune]
      rfl
    · rw [hclasses, ClassGraph.children_prune]
      rfl
    · refine isDefined_vacate_dropped_of_ne hlast ?_
      rintro he
      cases he
      exact hk hkin

theorem kin_vacate_edge {key : Text}
    (hclass : g ∈ (p.dropped ⟨3, key⟩ file).store.definers (classItem name))
    (hlast : ¬ (p.dropped ⟨3, key⟩ file).store.isDefined ⟨3, key⟩) :
    g ∈ ((p.dropped ⟨3, key⟩ file).vacate ⟨3, key⟩).derived.rebuild ∨
      SameKin name p ((p.dropped ⟨3, key⟩ file).vacate ⟨3, key⟩) := by
  have hdefined : ∀ k, ((p.dropped ⟨3, key⟩ file).vacate ⟨3, key⟩).store.isDefined (classItem k) =
      p.store.isDefined (classItem k) := fun k =>
    isDefined_vacate_dropped_of_ne hlast (by simp [classItem])
  cases hsplit : splitEdgeKey? key with
  | none =>
      refine .inr (.of_classes_eq ?_ hdefined)
      simp only [vacate, hsplit]
      rfl
  | some step =>
      obtain ⟨n, parent⟩ := step
      rw [vacate_edge hsplit] at hdefined ⊢
      by_cases hend : name = n ∨ name = parent
      · refine .inl (mem_rebuild_markEnds.mpr (.inr ⟨name, hend, ?_⟩))
        exact (Store.alike_eraseItem hlast).definers _ ▸ hclass
      · obtain ⟨hn, hparent⟩ := not_or.mp hend
        refine .inr (.of_relatives (fun k => ?_) (fun k => ?_) fun k _ => hdefined k)
        · rw [classes_disconnect, ClassGraph.parents_prune, ClassGraph.parents_prune,
            ClassGraph.mem_parents_disconnect]
          exact and_iff_left fun e => hn e.1
        · rw [classes_disconnect, ClassGraph.children_prune, ClassGraph.children_prune,
            ClassGraph.mem_children_disconnect]
          exact and_iff_left fun e => hparent e.2

/-! ## Moves -/

/-- No move on behalf of another file changes the relatives of a class that a file defines, or
which of them are defined, unless the file is marked. -/
theorem kin_of_move (hp : p.derived.classes.Mirrors p.store) (hg : g ≠ file)
    (h : Move ok file p q) (hclass : g ∈ p.store.definers (classItem name)) :
    g ∈ q.derived.rebuild ∨ SameKin name p q := by
  obtain h | ⟨c, -, rfl⟩ | ⟨id, hlast, rfl⟩ := h.cases
  · exact .inr (.of_classes_eq h.classes fun _ => h.isDefined _)
  · have hother : c.item.extension < 2 → SameKin name p (p.accept file c) := by
      intro hext
      refine .of_classes_eq (classes_accept p file hext) fun k => isDefined_accept_of_ne p file ?_
      intro he
      simp [← he, classItem] at hext
    cases c with
    | symbol symbol d => exact .inr (hother (by simp [Claim.item, symbolItem]))
    | link scope text => exact .inr (hother (by simp [Claim.item, linkItem]))
    | className n => exact kin_addClass hp hclass file n
    | edge n parent => exact kin_addParent hclass file n parent
  · have hclass' : g ∈ (p.dropped id file).store.definers (classItem name) :=
      (mem_definers_commit hg (.deleted id) p.store _).mpr hclass
    have hother : id.extension ≠ 2 → id.extension ≠ 3 →
        SameKin name p ((p.dropped id file).vacate id) := by
      intro h2 h3
      refine .of_classes_eq (classes_vacate (p := p.dropped id file) h2 h3) fun k =>
        isDefined_vacate_dropped_of_ne hlast ?_
      rintro rfl
      exact h2 rfl
    obtain ⟨extension, key⟩ := id
    rcases extension with _ | _ | _ | _ | n
    · exact .inr (hother (by simp) (by simp))
    · exact .inr (hother (by simp) (by simp))
    · exact kin_vacate_class hp hclass' hlast
    · exact kin_vacate_edge hclass' hlast
    · exact .inr (hother (by simp) (by simp))

theorem kin_of_moves (hok : ∀ c, ok c → c.CleanStep) (hp : p.derived.classes.Mirrors p.store)
    (hg : g ≠ file) (h : Moves ok file p q) (hclass : g ∈ p.store.definers (classItem name)) :
    g ∈ q.derived.rebuild ∨ SameKin name p q :=
  h.marked_or (I := fun p => p.derived.classes.Mirrors p.store) (S := SameKin name)
    (SameKin.refl name) SameKin.trans (fun _ _ hmove => hmove.mirrors hok)
    (fun _ _ hmove hp => kin_of_move hp hg hmove) hg hp hclass

end Project

end Commentary
