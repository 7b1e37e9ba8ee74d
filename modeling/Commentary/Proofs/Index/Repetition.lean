import Commentary.Proofs.Index.Hierarchy

/-!
# Claims that are made again

A claim that a file has made before is noted by the watch, and the classes that it names are put
into the graph if they are not there. With clean names they are always there: every class that a
file defines stands in the graph, and so does every step between clean names, whatever other names
have come into the graph.
-/

namespace Commentary

namespace Index

namespace ClassGraph

variable {g : ClassGraph} {s s' : Store}

/-- Puts classes into the graph, one after the other. -/
def ensureAll (g : ClassGraph) (names : List Text) : ClassGraph := names.foldl ensure g

theorem parents_ensureAll (g : ClassGraph) (names : List Text) (name : Text) :
    (g.ensureAll names).parents name = g.parents name := by
  induction names generalizing g with
  | nil => rfl
  | cons n names ih => exact (ih _).trans (parents_ensure g n name)

theorem children_ensureAll (g : ClassGraph) (names : List Text) (name : Text) :
    (g.ensureAll names).children name = g.children name := by
  induction names generalizing g with
  | nil => rfl
  | cons n names ih => exact (ih _).trans (children_ensure g n name)

theorem ensureAll_of_isSome {names : List Text} (h : ∀ name ∈ names, (g.node? name).isSome) :
    g.ensureAll names = g := by
  induction names with
  | nil => rfl
  | cons name names ih =>
      obtain ⟨hname, hnames⟩ := List.forall_mem_cons.mp h
      have hstep : g.ensureAll (name :: names) = (g.ensure name).ensureAll names := rfl
      rw [hstep, ensure_of_isSome hname]
      exact ih hnames

theorem isSome_node?_of_mem_parents {name parent : Text} (h : parent ∈ g.parents name) :
    (g.node? name).isSome := by
  cases hn : g.node? name with
  | none => simp [parents, hn] at h
  | some n => rfl

theorem isSome_node?_of_mem_children {name parent : Text} (h : name ∈ g.children parent) :
    (g.node? parent).isSome := by
  cases hn : g.node? parent with
  | none => simp [children, hn] at h
  | some n => rfl

/-! ## Graphs that hold what is clean -/

/-- The graph holds at least the classes that files define and their steps between clean names. -/
structure Covers (g : ClassGraph) (s : Store) : Prop where
  classes : ∀ name, s.isDefined (classItem name) → (g.node? name).isSome
  parents : ∀ name parent, Clean name → Clean parent →
    s.isDefined (edgeItem (edgeKey name parent)) → parent ∈ g.parents name
  children : ∀ name parent, Clean name → Clean parent →
    s.isDefined (edgeItem (edgeKey name parent)) → name ∈ g.children parent

namespace Covers

theorem congr (h : g.Covers s)
    (hclasses : ∀ name, s'.isDefined (classItem name) → s.isDefined (classItem name))
    (hedges : ∀ key, s'.isDefined (edgeItem key) → s.isDefined (edgeItem key)) : g.Covers s' :=
  ⟨fun name hd => h.classes name (hclasses name hd),
    fun name parent hn hp hd => h.parents name parent hn hp (hedges _ hd),
    fun name parent hn hp hd => h.children name parent hn hp (hedges _ hd)⟩

/-- A class is put into the graph, whether a file defines it or not. -/
theorem ensure (h : g.Covers s) {name : Text}
    (hclasses : ∀ j, j ≠ name → s'.isDefined (classItem j) → s.isDefined (classItem j))
    (hedges : ∀ key, s'.isDefined (edgeItem key) → s.isDefined (edgeItem key)) :
    (g.ensure name).Covers s' := by
  refine ⟨fun j hd => ?_, fun n p hn hp hd => ?_, fun n p hn hp hd => ?_⟩
  · rw [isSome_node?_ensure]
    exact Classical.or_iff_not_imp_left.mpr fun hj => h.classes j (hclasses j hj hd)
  · rw [parents_ensure]
    exact h.parents n p hn hp (hedges _ hd)
  · rw [children_ensure]
    exact h.children n p hn hp (hedges _ hd)

/-- A step is put into a graph in which both of its ends stand. -/
theorem connect (h : g.Covers s) {name parent : Text} (hname : (g.node? name).isSome)
    (hparent : (g.node? parent).isSome)
    (hrest : ∀ id, id ≠ edgeItem (edgeKey name parent) → s'.isDefined id = s.isDefined id) :
    (g.connect name parent).Covers s' := by
  -- A key with two clean ends is the key of no other step.
  have hsplit : ∀ n p, Clean n → Clean p → s'.isDefined (edgeItem (edgeKey n p)) →
      (n = name ∧ p = parent) ∨ s.isDefined (edgeItem (edgeKey n p)) := by
    intro n p hn hp hd
    by_cases he : edgeItem (edgeKey n p) = edgeItem (edgeKey name parent)
    · obtain ⟨rfl, rfl⟩ := pair_inj_of_clean hn hp (congrArg ItemId.key he).symm
      exact .inl ⟨rfl, rfl⟩
    · exact .inr (hrest _ he ▸ hd)
  refine ⟨fun j hd => ?_, fun n p hn hp hd => ?_, fun n p hn hp hd => ?_⟩
  · rw [node?_connect, Option.isSome_map]
    exact h.classes j (hrest (classItem j) (by simp [classItem, edgeItem]) ▸ hd)
  · rw [mem_parents_connect hname]
    exact (hsplit n p hn hp hd).symm.imp_left (h.parents n p hn hp)
  · rw [mem_children_connect hparent]
    exact (hsplit n p hn hp hd).symm.imp_left (h.children n p hn hp)

theorem prune (h : g.Covers s) (name : Text) : (g.prune s name).Covers s := by
  refine ⟨fun j hd => ?_, fun n p hn hp hd => ?_, fun n p hn hp hd => ?_⟩
  · rw [isSome_node?_prune]
    exact ⟨h.classes j hd, fun _ => .inl hd⟩
  · rw [parents_prune]
    exact h.parents n p hn hp hd
  · rw [children_prune]
    exact h.children n p hn hp hd

/-- A step is taken out of the graph when no file gives it. -/
theorem disconnect (h : g.Covers s) {name parent : Text}
    (hgone : ¬ s.isDefined (edgeItem (edgeKey name parent))) :
    (g.disconnect name parent).Covers s := by
  refine ⟨fun j hd => ?_, fun n p hn hp hd => ?_, fun n p hn hp hd => ?_⟩
  · rw [node?_disconnect, Option.isSome_map]
    exact h.classes j hd
  · rw [mem_parents_disconnect]
    refine ⟨h.parents n p hn hp hd, ?_⟩
    rintro ⟨rfl, rfl⟩
    exact hgone hd
  · rw [mem_children_disconnect]
    refine ⟨h.children n p hn hp hd, ?_⟩
    rintro ⟨rfl, rfl⟩
    exact hgone hd

end Covers

end ClassGraph

end Index

namespace Claim

open Index

/-- The classes that a claim names. -/
def names : Claim → List Text
  | .className name => [name]
  | .edge name parent => [name, parent]
  | _ => []

/-- The classes that a clean claim of some file names stand in the graph. -/
theorem isSome_node?_of_mem_names {g : ClassGraph} {s : Store} (h : g.Covers s) {c : Claim}
    (hc : c.CleanEnds) (hd : s.isDefined c.item) {name : Text} (hname : name ∈ c.names) :
    (g.node? name).isSome := by
  cases c with
  | symbol symbol d => cases hname
  | link scope text => cases hname
  | className n =>
      obtain rfl := List.mem_singleton.mp hname
      exact h.classes name hd
  | edge n parent =>
      obtain rfl | hname := List.mem_cons.mp hname
      · exact ClassGraph.isSome_node?_of_mem_parents (h.parents name parent hc.1 hc.2 hd)
      · obtain rfl := List.mem_singleton.mp hname
        exact ClassGraph.isSome_node?_of_mem_children (h.children n name hc.1 hc.2 hd)

end Claim

namespace Project

open Index

variable {p q : Project} {ok : Claim → Prop} {file : FileName}

/-! ## Every move keeps the graph covering -/

theorem covers_accept (h : p.derived.classes.Covers p.store) (file : FileName) (c : Claim) :
    (p.accept file c).derived.classes.Covers (p.accept file c).store := by
  have hrest : ∀ j, j ≠ c.item → (p.accept file c).store.isDefined j = p.store.isDefined j :=
    fun j hj => isDefined_accept_of_ne p file hj
  have hother : c.item.extension < 2 →
      (p.accept file c).derived.classes.Covers (p.accept file c).store := by
    intro hext
    rw [classes_accept p file hext]
    refine h.congr (fun _ hd => hrest _ ?_ ▸ hd) fun _ hd => hrest _ ?_ ▸ hd
    all_goals
      intro he
      simp [← he, classItem, edgeItem] at hext
  cases c with
  | symbol symbol d => exact hother (by simp [Claim.item, symbolItem])
  | link scope text => exact hother (by simp [Claim.item, linkItem])
  | className name =>
      have hclasses : (p.accept file (.className name)).derived.classes =
          p.derived.classes.ensure name := (marked_addClass p file name).classes
      rw [hclasses]
      refine h.ensure (fun j hj hd => hrest _ ?_ ▸ hd) fun key hd => hrest _ ?_ ▸ hd
      · simpa [Claim.item, classItem] using hj
      · simp [Claim.item, classItem, edgeItem]
  | edge name parent =>
      have hclasses := (marked_addParent p file name parent).classes
      have hends : ((p.derived.classes.ensure name).ensure parent).Covers p.store :=
        (h.ensure (fun _ _ => id) fun _ => id).ensure (fun _ _ => id) fun _ => id
      rw [accept] at hrest ⊢
      rw [hclasses]
      by_cases hd : p.store.isDefined (edgeItem (edgeKey name parent))
      · have hsame := isDefined_accept_of_isDefined p file (c := .edge name parent) hd
        simp only [if_pos hd]
        exact hends.congr (fun _ hd => hsame _ ▸ hd) fun _ hd => hsame _ ▸ hd
      · simp only [if_neg hd]
        exact hends.connect (by simp [ClassGraph.isSome_node?_ensure])
          (by simp [ClassGraph.isSome_node?_ensure]) hrest

theorem covers_vacate {id : ItemId} (h : p.derived.classes.Covers p.store)
    (hgone : ¬ p.store.isDefined id) :
    (p.vacate id).derived.classes.Covers (p.vacate id).store := by
  have halike := alike_vacate hgone
  have hgone' : ¬ (p.vacate id).store.isDefined id := by rwa [halike.isDefined]
  have hcovers : p.derived.classes.Covers (p.vacate id).store :=
    h.congr (fun _ hd => halike.isDefined _ ▸ hd) fun _ hd => halike.isDefined _ ▸ hd
  obtain ⟨extension, key⟩ := id
  rcases extension with _ | _ | _ | _ | n
  · exact hcovers
  · exact hcovers
  · rw [classes_vacate_class]
    exact hcovers.prune key
  · cases hsplit : splitEdgeKey? key with
    | none =>
        have hclasses : (p.vacate ⟨3, key⟩).derived.classes = p.derived.classes := by
          simp only [vacate, hsplit]
        rw [hclasses]
        exact hcovers
    | some step =>
        obtain ⟨name, parent⟩ := step
        rw [vacate_edge hsplit] at hgone' hcovers ⊢
        obtain ⟨-, rfl⟩ := eq_pair_of_unpair?_eq_some hsplit
        exact ((hcovers.disconnect hgone').prune name).prune parent
  · exact hcovers

theorem Move.covers (h : Move ok file p q) (hp : p.derived.classes.Covers p.store) :
    q.derived.classes.Covers q.store := by
  obtain h | ⟨c, -, rfl⟩ | ⟨id, hlast, rfl⟩ := h.cases
  · rw [h.classes]
    exact hp.congr (fun _ hd => h.isDefined _ ▸ hd) fun _ hd => h.isDefined _ ▸ hd
  · exact covers_accept hp file c
  · refine covers_vacate (p := p.dropped id file) (hp.congr (fun _ hd => ?_) fun _ hd => ?_) hlast
    all_goals
      refine isDefined_dropped_of_ne p file (fun he => hlast ?_) ▸ hd
      exact he ▸ hd

/-! ## Claims that have been made -/

/-- A file claims what it has claimed before: nothing changes but the watch and the classes that
the claim names. -/
theorem accept_of_mem_definers (hs : p.store.Consistent) (hlinks : p.derived.links.Follows p.store)
    {c : Claim} (h : file ∈ p.store.definers c.item) :
    p.accept file c =
      { store := { p.store with
          watched := p.store.noteClaim c.item file (p.store.kept c.item c.definition) }
        derived := { p.derived with classes := p.derived.classes.ensureAll c.names } } := by
  have hd : p.store.isDefined c.item := Store.isDefined_of_mem h
  have hclaim := Store.claim_of_mem_definers hs h c.definition
  cases c with
  | symbol symbol d =>
      rw [accept, addSymbol_eq, ← hclaim]
      exact if_pos hd
  | link scope text =>
      rw [accept, addLink_eq, LinkTable.add_of_registered ((hlinks.registered _).mpr hd), ← hclaim]
      rfl
  | className name =>
      rw [accept, addClass_eq, ← hclaim]
      exact if_pos hd
  | edge name parent =>
      have hold : (p.store.definition? (edgeItem (edgeKey name parent)) file).isNone = false :=
        Option.isNone_eq_false_iff.mpr ((Store.isSome_definition?_iff _ _ _).mpr h)
      rw [accept, addParent_eq, ← hclaim, hold]
      exact if_pos hd

end Project

end Commentary
