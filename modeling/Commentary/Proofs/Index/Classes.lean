import Commentary.Index.ClassGraph
import Commentary.Proofs.Index.Key
import Commentary.Proofs.Store.View

/-!
# A class graph that mirrors the store

A class has a parent in the graph, and the parent has it as a child, exactly when some file says
so. The classes that stand in the graph are those that a file defines and those with relatives.
The operations of the graph come with the changes of the store that they are made for.
-/

namespace Commentary.Index.ClassGraph

variable {g : ClassGraph} {s s' : Store}

/-! ## Relatives after an operation -/

theorem mem_relatives {name k : Text} :
    k ∈ g.relatives name ↔ k ∈ g.parents name ∨ k ∈ g.children name := by
  simp only [relatives, parents, children]
  cases g.node? name <;> simp [ClassNode.relatives]

theorem node?_ensure (g : ClassGraph) (name j : Text) :
    (g.ensure name).node? j =
      if j = name ∧ g.node? name = none then some {} else g.node? j :=
  Table.get?_insertNew g.nodes name j {}

theorem isSome_node?_ensure (g : ClassGraph) (name j : Text) :
    ((g.ensure name).node? j).isSome ↔ j = name ∨ (g.node? j).isSome := by
  rw [node?_ensure]
  by_cases hj : j = name
  · subst hj
    cases hn : g.node? j <;> simp
  · simp [hj]

/-- What the node of a class shows in some respect. -/
def shown (f : ClassNode → List Text) (g : ClassGraph) (name : Text) : List Text :=
  ((g.node? name).map f).getD []

/-- A class that is new shows nothing. -/
theorem shown_ensure {f : ClassNode → List Text} (hf : f {} = []) (g : ClassGraph)
    (name j : Text) : shown f (g.ensure name) j = shown f g j := by
  rw [shown, shown, node?_ensure]
  split
  · next h =>
      rw [h.1, h.2]
      exact hf
  · rfl

theorem parents_ensure (g : ClassGraph) (name j : Text) :
    (g.ensure name).parents j = g.parents j :=
  shown_ensure rfl g name j

theorem children_ensure (g : ClassGraph) (name j : Text) :
    (g.ensure name).children j = g.children j :=
  shown_ensure rfl g name j

theorem ensure_of_isSome {name : Text} (h : (g.node? name).isSome) : g.ensure name = g := by
  rw [ensure, Table.insertNew_of_isSome h]

theorem node?_connect (g : ClassGraph) (name parent j : Text) :
    (g.connect name parent).node? j = (g.node? j).map fun n =>
      { parents := if j = name then n.parents.insert parent else n.parents
        children := if j = parent then n.children.insert name else n.children } := by
  simp only [node?, connect, Table.get?_update]
  by_cases hn : j = name <;> by_cases hp : j = parent <;>
    cases hg : g.nodes.get? j <;> simp_all

theorem mem_parents_connect {name parent : Text} (h : (g.node? name).isSome) (j k : Text) :
    k ∈ (g.connect name parent).parents j ↔ k ∈ g.parents j ∨ j = name ∧ k = parent := by
  simp only [parents]
  rw [node?_connect]
  by_cases hj : j = name
  · subst hj
    obtain ⟨n, hn⟩ := Option.isSome_iff_exists.mp h
    have hm := OrderedSet.mem_insert (s := n.parents) (a := parent) (b := k)
    simpa [hn, OrderedSet.mem_def] using hm
  · cases g.node? j <;> simp [hj]

theorem mem_children_connect {name parent : Text} (h : (g.node? parent).isSome) (j k : Text) :
    k ∈ (g.connect name parent).children j ↔ k ∈ g.children j ∨ k = name ∧ j = parent := by
  simp only [children]
  rw [node?_connect]
  by_cases hj : j = parent
  · subst hj
    obtain ⟨n, hn⟩ := Option.isSome_iff_exists.mp h
    have hm := OrderedSet.mem_insert (s := n.children) (a := name) (b := k)
    simpa [hn, OrderedSet.mem_def] using hm
  · cases g.node? j <;> simp [hj]

theorem node?_disconnect (g : ClassGraph) (name parent j : Text) :
    (g.disconnect name parent).node? j = (g.node? j).map fun n =>
      { parents := if j = name then n.parents.erase parent else n.parents
        children := if j = parent then n.children.erase name else n.children } := by
  simp only [node?, disconnect, Table.get?_update]
  by_cases hn : j = name <;> by_cases hp : j = parent <;>
    cases hg : g.nodes.get? j <;> simp_all

theorem mem_parents_disconnect (g : ClassGraph) (name parent j k : Text) :
    k ∈ (g.disconnect name parent).parents j ↔ k ∈ g.parents j ∧ ¬ (j = name ∧ k = parent) := by
  simp only [parents]
  rw [node?_disconnect]
  cases g.node? j with
  | none => simp
  | some n =>
      by_cases hj : j = name
      · have hm := OrderedSet.mem_erase (s := n.parents) (a := parent) (b := k)
        simpa [hj, OrderedSet.mem_def] using hm
      · simp [hj]

theorem mem_children_disconnect (g : ClassGraph) (name parent j k : Text) :
    k ∈ (g.disconnect name parent).children j ↔
      k ∈ g.children j ∧ ¬ (k = name ∧ j = parent) := by
  simp only [children]
  rw [node?_disconnect]
  cases g.node? j with
  | none => simp
  | some n =>
      by_cases hj : j = parent
      · have hm := OrderedSet.mem_erase (s := n.children) (a := name) (b := k)
        simpa [hj, OrderedSet.mem_def] using hm
      · simp [hj]

theorem node?_prune (g : ClassGraph) (s : Store) (name j : Text) :
    (g.prune s name).node? j =
      if j = name ∧ g.relatives name = [] ∧ !s.isDefined (classItem name) then none
      else g.node? j := by
  simp only [prune]
  by_cases h : g.relatives name = [] ∧ !s.isDefined (classItem name)
  · rw [if_pos h]
    simp only [h, and_true]
    exact Table.get?_erase g.nodes name j
  · rw [if_neg h, if_neg fun hj => h hj.2]

/-- A class that is pruned had no relatives, so nobody loses any. -/
theorem shown_prune {f : ClassNode → List Text} (hf : ∀ n, n.relatives = [] → f n = [])
    (g : ClassGraph) (s : Store) (name j : Text) :
    shown f (g.prune s name) j = shown f g j := by
  rw [shown, shown, node?_prune]
  split
  · next h =>
      obtain ⟨rfl, hnil, -⟩ := h
      simp only [relatives] at hnil
      cases hn : g.node? j with
      | none => rfl
      | some n =>
          rw [hn] at hnil
          exact (hf n hnil).symm
  · rfl

theorem parents_prune (g : ClassGraph) (s : Store) (name j : Text) :
    (g.prune s name).parents j = g.parents j :=
  shown_prune (fun _ h => (List.append_eq_nil_iff.mp h).1) g s name j

theorem children_prune (g : ClassGraph) (s : Store) (name j : Text) :
    (g.prune s name).children j = g.children j :=
  shown_prune (fun _ h => (List.append_eq_nil_iff.mp h).2) g s name j

/-! ## Mirroring the store -/

/-- What keeps a class in the graph: a file defines it, or it has relatives. -/
def Stands (g : ClassGraph) (s : Store) (name : Text) : Prop :=
  s.isDefined (classItem name) ∨ ∃ k, k ∈ g.parents name ∨ k ∈ g.children name

theorem stands_congr {name : Text}
    (h : s'.isDefined (classItem name) = s.isDefined (classItem name)) :
    g.Stands s' name ↔ g.Stands s name := by
  rw [Stands, Stands, h]

theorem stands_ensure (g : ClassGraph) (s : Store) (name j : Text) :
    (g.ensure name).Stands s j ↔ g.Stands s j := by
  rw [Stands, Stands, parents_ensure, children_ensure]

theorem stands_prune (g : ClassGraph) (s : Store) (name j : Text) :
    (g.prune s name).Stands s j ↔ g.Stands s j := by
  rw [Stands, Stands, parents_prune, children_prune]

theorem isSome_node?_prune (g : ClassGraph) (s : Store) (name j : Text) :
    ((g.prune s name).node? j).isSome ↔
      (g.node? j).isSome ∧ (j = name → g.Stands s j) := by
  have hstands : g.Stands s name ↔
      ¬ (g.relatives name = [] ∧ !s.isDefined (classItem name)) := by
    simp only [Stands, ← mem_relatives, List.eq_nil_iff_forall_not_mem]
    cases s.isDefined (classItem name) <;> simp
  rw [node?_prune]
  by_cases hj : j = name
  · subst hj
    rw [hstands]
    by_cases h : g.relatives j = [] ∧ !s.isDefined (classItem j)
    · rw [if_pos ⟨rfl, h⟩]
      exact iff_of_false Bool.false_ne_true fun hs => hs.2 rfl h
    · rw [if_neg fun hs => h hs.2]
      exact (and_iff_left fun _ => h).symm
  · rw [if_neg fun hs => hj hs.1]
    exact (and_iff_left fun e => absurd e hj).symm

/-- The graph shows what files say about classes. -/
structure Mirrors (g : ClassGraph) (s : Store) : Prop where
  parents : ∀ name parent, parent ∈ g.parents name ↔
    Clean name ∧ s.isDefined (edgeItem (edgeKey name parent))
  children : ∀ name parent, name ∈ g.children parent ↔
    Clean name ∧ s.isDefined (edgeItem (edgeKey name parent))
  standing : ∀ name, (g.node? name).isSome ↔ g.Stands s name

namespace Mirrors

theorem congr (h : g.Mirrors s)
    (hclasses : ∀ name, s'.isDefined (classItem name) = s.isDefined (classItem name))
    (hedges : ∀ key, s'.isDefined (edgeItem key) = s.isDefined (edgeItem key)) :
    g.Mirrors s' := by
  refine ⟨fun name parent => ?_, fun name parent => ?_, fun name => ?_⟩
  · rw [hedges, h.parents]
  · rw [hedges, h.children]
  · rw [stands_congr (hclasses name), h.standing]

/-- A class is put into the graph when a file defines it. -/
theorem ensure (h : g.Mirrors s) {name : Text} (hnew : s'.isDefined (classItem name))
    (hrest : ∀ id, id ≠ classItem name → s'.isDefined id = s.isDefined id) :
    (g.ensure name).Mirrors s' := by
  have hedges : ∀ key, s'.isDefined (edgeItem key) = s.isDefined (edgeItem key) :=
    fun key => hrest _ (by simp [edgeItem, classItem])
  refine ⟨fun n p => ?_, fun n p => ?_, fun j => ?_⟩
  · rw [parents_ensure, hedges, h.parents]
  · rw [children_ensure, hedges, h.children]
  · rw [isSome_node?_ensure, stands_ensure, h.standing]
    by_cases hj : j = name
    · exact iff_of_true (.inl hj) (.inl (hj ▸ hnew))
    · rw [stands_congr (hrest _ (by simpa [classItem] using hj))]
      exact or_iff_right hj

/-- The two ends of a step that a file gives already stand in the graph. -/
theorem ensure_of_isDefined (h : g.Mirrors s) {name parent : Text} (hname : Clean name)
    (hedge : s.isDefined (edgeItem (edgeKey name parent))) :
    (g.ensure name).ensure parent = g := by
  have hn : (g.node? name).isSome :=
    (h.standing name).mpr (.inr ⟨parent, .inl ((h.parents name parent).mpr ⟨hname, hedge⟩)⟩)
  have hp : (g.node? parent).isSome :=
    (h.standing parent).mpr (.inr ⟨name, .inr ((h.children name parent).mpr ⟨hname, hedge⟩)⟩)
  rw [ensure_of_isSome hn, ensure_of_isSome hp]

/-- A step is put into the graph when the first file gives it. -/
theorem connect (h : g.Mirrors s) {name parent : Text} (hname : Clean name)
    (hnew : s'.isDefined (edgeItem (edgeKey name parent)))
    (hrest : ∀ id, id ≠ edgeItem (edgeKey name parent) → s'.isDefined id = s.isDefined id) :
    (((g.ensure name).ensure parent).connect name parent).Mirrors s' := by
  have hn : (((g.ensure name).ensure parent).node? name).isSome := by
    simp [isSome_node?_ensure]
  have hp : (((g.ensure name).ensure parent).node? parent).isSome := by
    simp [isSome_node?_ensure]
  have hedges : ∀ n p, (Clean n ∧ s'.isDefined (edgeItem (edgeKey n p))) ↔
      (Clean n ∧ s.isDefined (edgeItem (edgeKey n p))) ∨ n = name ∧ p = parent := by
    intro n p
    by_cases he : n = name ∧ p = parent
    · simp [he, hname, hnew]
    · by_cases hc : Clean n
      · rw [hrest _ fun heq => he (edgeItem_inj hc hname heq)]
        simp [he]
      · simp [hc, he]
  refine ⟨fun n p => ?_, fun n p => ?_, fun j => ?_⟩
  · rw [mem_parents_connect hn, parents_ensure, parents_ensure, hedges, h.parents]
  · rw [mem_children_connect hp, children_ensure, children_ensure, hedges, h.children]
  · rw [node?_connect, Option.isSome_map, isSome_node?_ensure, isSome_node?_ensure, h.standing,
      stands_congr (hrest (classItem j) (by simp [edgeItem, classItem]))]
    simp only [Stands, mem_parents_connect hn, mem_children_connect hp, parents_ensure,
      children_ensure]
    constructor
    · rintro (rfl | rfl | hd | ⟨k, hk⟩)
      · exact .inr ⟨name, .inr (.inr ⟨rfl, rfl⟩)⟩
      · exact .inr ⟨parent, .inl (.inr ⟨rfl, rfl⟩)⟩
      · exact .inl hd
      · exact .inr ⟨k, hk.imp .inl .inl⟩
    · rintro (hd | ⟨k, (hk | ⟨rfl, rfl⟩) | (hk | ⟨rfl, rfl⟩)⟩)
      · exact .inr (.inr (.inl hd))
      · exact .inr (.inr (.inr ⟨k, .inl hk⟩))
      · exact .inr (.inl rfl)
      · exact .inr (.inr (.inr ⟨k, .inr hk⟩))
      · exact .inl rfl

/-- A class is pruned when no file defines it any more. -/
theorem prune (h : g.Mirrors s) {name : Text} (hgone : ¬ s'.isDefined (classItem name))
    (hrest : ∀ id, id ≠ classItem name → s'.isDefined id = s.isDefined id) :
    (g.prune s' name).Mirrors s' := by
  have hedges : ∀ key, s'.isDefined (edgeItem key) = s.isDefined (edgeItem key) :=
    fun key => hrest _ (by simp [edgeItem, classItem])
  refine ⟨fun n p => ?_, fun n p => ?_, fun j => ?_⟩
  · rw [parents_prune, hedges, h.parents]
  · rw [children_prune, hedges, h.children]
  · rw [isSome_node?_prune, stands_prune, h.standing]
    by_cases hj : j = name
    · -- The class itself may stand only by its relatives, which are as before.
      have himp : g.Stands s' j → g.Stands s j := fun hs =>
        .inr (hs.resolve_left (hj ▸ hgone))
      exact ⟨fun hs => hs.2 hj, fun hs => ⟨himp hs, fun _ => hs⟩⟩
    · rw [stands_congr (hrest _ (by simpa [classItem] using hj))]
      exact and_iff_left fun he => absurd he hj

/-- A step is taken from the graph when no file gives it any more, and its ends are pruned. -/
theorem disconnect (h : g.Mirrors s) {name parent : Text}
    (hname : Clean name) (hgone : ¬ s'.isDefined (edgeItem (edgeKey name parent)))
    (hrest : ∀ id, id ≠ edgeItem (edgeKey name parent) → s'.isDefined id = s.isDefined id) :
    (((g.disconnect name parent).prune s' name).prune s' parent).Mirrors s' := by
  have hedges : ∀ n p, (Clean n ∧ s'.isDefined (edgeItem (edgeKey n p))) ↔
      (Clean n ∧ s.isDefined (edgeItem (edgeKey n p))) ∧ ¬ (n = name ∧ p = parent) := by
    intro n p
    by_cases he : n = name ∧ p = parent
    · simp [he, hgone]
    · by_cases hc : Clean n
      · rw [hrest _ fun heq => he (edgeItem_inj hc hname heq)]
        simp [he]
      · simp [hc]
  refine ⟨fun n p => ?_, fun n p => ?_, fun j => ?_⟩
  · rw [parents_prune, parents_prune, mem_parents_disconnect, hedges, h.parents]
  · rw [children_prune, children_prune, mem_children_disconnect, hedges, h.children]
  · rw [isSome_node?_prune, isSome_node?_prune, stands_prune, stands_prune, stands_prune,
      node?_disconnect, Option.isSome_map, h.standing]
    have hclass : s'.isDefined (classItem j) = s.isDefined (classItem j) :=
      hrest _ (by simp [edgeItem, classItem])
    simp only [Stands, hclass, mem_parents_disconnect, mem_children_disconnect]
    constructor
    · rintro ⟨⟨hd | ⟨k, hk⟩, hn⟩, hp⟩
      · exact .inl hd
      · by_cases hjn : j = name
        · exact hn hjn
        · by_cases hjp : j = parent
          · exact hp hjp
          · exact .inr ⟨k, hk.imp (⟨·, fun e => hjn e.1⟩) (⟨·, fun e => hjp e.2⟩)⟩
    · intro hs
      exact ⟨⟨hs.imp_right fun ⟨k, hk⟩ => ⟨k, hk.imp And.left And.left⟩, fun _ => hs⟩,
        fun _ => hs⟩

/-- A key that names no step changes nothing in the graph. -/
theorem of_splitEdgeKey?_eq_none (h : g.Mirrors s) {key : Text} (hkey : splitEdgeKey? key = none)
    (hrest : ∀ id, id ≠ edgeItem key → s'.isDefined id = s.isDefined id) : g.Mirrors s' := by
  have hedges : ∀ n p, (Clean n ∧ s'.isDefined (edgeItem (edgeKey n p))) ↔
      (Clean n ∧ s.isDefined (edgeItem (edgeKey n p))) := by
    intro n p
    refine and_congr_right fun hc => ?_
    rw [hrest]
    intro heq
    have hcut : splitEdgeKey? (edgeKey n p) = some (n, p) := unpair?_pair hc p
    rw [show edgeKey n p = key from congrArg ItemId.key heq, hkey] at hcut
    cases hcut
  refine ⟨fun n p => ?_, fun n p => ?_, fun j => ?_⟩
  · rw [hedges, h.parents]
  · rw [hedges, h.children]
  · rw [h.standing, stands_congr (hrest (classItem j) (by simp [edgeItem, classItem]))]

end Mirrors

end Commentary.Index.ClassGraph
