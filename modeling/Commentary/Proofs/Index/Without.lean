import Commentary.Proofs.Index.Invariant
import Commentary.Proofs.Store.Without

/-!
# A project without a file

The links, the keys by candidate and the class graph of a project can be cut down to what a store
defines. Cut down to the store without a file, they do not change when this file makes claims or
drops them: whatever comes and goes on the way belongs to the file alone. A project that does not
know the file is all that is left of it, with every order.
-/

namespace Commentary

namespace Index

/-! ## Links -/

namespace LinkTable

/-- A link with its target in a store, if the store defines it. -/
def linkWithin? (s : Store) (key : Text) (link : Link) : Option Link :=
  if s.isDefined (linkItem key) then some (retargeted s link) else none

/-- The keys of the links that a store defines, if there are any. -/
def keysWithin? (s : Store) (_ : Text) (keys : OrderedSet Text) : Option (OrderedSet Text) :=
  let kept := keys.restrict fun key => s.isDefined (linkItem key)
  if kept.isEmpty then none else some kept

/-- The links that a store defines. -/
def within (t : LinkTable) (s : Store) : LinkTable where
  links := t.links.restrict (linkWithin? s)
  byCandidate := t.byCandidate.restrict (keysWithin? s)

variable {t : LinkTable} {s : Store} {key : Text}

theorem keysWithin?_congr {symbol : Text} {keys keys' : OrderedSet Text}
    (h : (keys.restrict fun key => s.isDefined (linkItem key)) =
      keys'.restrict fun key => s.isDefined (linkItem key)) :
    keysWithin? s symbol keys = keysWithin? s symbol keys' := by
  rw [keysWithin?, keysWithin?, h]

section Undefined

variable (h : ¬ s.isDefined (linkItem key))

include h

theorem keysWithin?_insert (symbol : Text) (keys : OrderedSet Text) :
    keysWithin? s symbol (keys.insert key) = keysWithin? s symbol keys :=
  keysWithin?_congr (OrderedSet.restrict_insert (p := fun key => s.isDefined (linkItem key)) h keys)

theorem keysWithin?_erase (symbol : Text) (keys : OrderedSet Text) :
    keysWithin? s symbol (keys.erase key) = keysWithin? s symbol keys :=
  keysWithin?_congr (OrderedSet.restrict_erase (p := fun key => s.isDefined (linkItem key)) h keys)

theorem restrict_upsertAll (candidates : List Text) (table : Table Text (OrderedSet Text)) :
    (candidates.foldl (fun table candidate => table.upsert candidate ∅ (·.insert key))
        table).restrict (keysWithin? s) = table.restrict (keysWithin? s) := by
  induction candidates generalizing table with
  | nil => rfl
  | cons candidate candidates ih =>
      rw [List.foldl_cons, ih]
      exact Table.restrict_upsert rfl (keysWithin?_insert h candidate) table

theorem restrict_forget (candidate : Text) (table : Table Text (OrderedSet Text)) :
    (forget key candidate table).restrict (keysWithin? s) = table.restrict (keysWithin? s) := by
  have hupdate : (table.update candidate (·.erase key)).restrict (keysWithin? s) =
      table.restrict (keysWithin? s) := Table.restrict_update (keysWithin?_erase h candidate) table
  rw [forget, ← hupdate]
  split
  · next hempty =>
      refine Table.restrict_erase fun keys hkeys => ?_
      -- Only a candidate without keys is dropped, and nothing is left of it in any store.
      rw [hkeys] at hempty
      have hnil : keys = ∅ := OrderedSet.ext (by simpa [OrderedSet.isEmpty] using hempty)
      rw [hnil]
      rfl
  · rfl

theorem restrict_forgetAll (candidates : List Text) (table : Table Text (OrderedSet Text)) :
    (candidates.foldl (fun table candidate => forget key candidate table) table).restrict
      (keysWithin? s) = table.restrict (keysWithin? s) := by
  induction candidates generalizing table with
  | nil => rfl
  | cons candidate candidates ih =>
      rw [List.foldl_cons, ih]
      exact restrict_forget h candidate table

theorem within_remove (t : LinkTable) : (t.remove key).within s = t.within s := by
  cases hl : t.links.get? key with
  | none => rw [remove_of_unregistered hl]
  | some link =>
      have hlinks : (t.links.erase key).restrict (linkWithin? s) =
          t.links.restrict (linkWithin? s) := Table.restrict_erase fun _ _ => if_neg h
      simp only [remove, hl, within]
      rw [hlinks, restrict_forgetAll h]

end Undefined

/-- A link that is new does not show in a store that does not define it. -/
theorem within_add {scope : Option Text} {text : Text}
    (h : s.isDefined (linkItem (linkKey scope text)) →
      (t.links.get? (linkKey scope text)).isSome) (s' : Store) :
    (t.add s' scope text).within s = t.within s := by
  by_cases hl : (t.links.get? (linkKey scope text)).isSome
  · rw [add_of_registered hl]
  · have hd : ¬ s.isDefined (linkItem (linkKey scope text)) := fun hd => hl (h hd)
    have hc : ¬ t.links.contains (linkKey scope text) := by
      rwa [Table.contains_eq_isSome_get?]
    have hnone : ∀ link, linkWithin? s (linkKey scope text) link = none := fun _ => if_neg hd
    have hlinks : ∀ link, (t.links.insertNew (linkKey scope text) link).restrict (linkWithin? s) =
        t.links.restrict (linkWithin? s) :=
      fun link => Table.restrict_insertNew (hnone link) t.links
    simp only [add, if_neg hc, within]
    rw [hlinks, restrict_upsertAll hd]

/-- Where a link leads in another store does not matter. -/
theorem within_retarget (s s' : Store) (t : LinkTable) (key : Text) :
    (retarget s' t key).1.within s = t.within s := by
  have hsame : ∀ target (link : Link),
      linkWithin? s key { link with target := target } = linkWithin? s key link := fun _ _ => rfl
  have hupdate : ∀ target, (t.links.update key fun link => { link with target := target }).restrict
      (linkWithin? s) = t.links.restrict (linkWithin? s) :=
    fun target => Table.restrict_update (hsame target) t.links
  rw [retarget.eq_def]
  split
  · rfl
  · dsimp only
    split
    · rfl
    · simp only [within]
      rw [hupdate]

theorem within_retargetAll (s s' : Store) (t : LinkTable) (keys : List Text) :
    (retargetAll s' t keys).1.within s = t.within s := by
  induction keys generalizing t with
  | nil => rfl
  | cons key keys ih => exact (ih _).trans (within_retarget s s' t key)

/-! ### Candidates without links -/

/-- Every candidate has links that may mean it. -/
def NoneEmpty (table : Table Text (OrderedSet Text)) : Prop :=
  ∀ symbol keys, table.get? symbol = some keys → keys.toList ≠ []

variable {table : Table Text (OrderedSet Text)}

theorem NoneEmpty.upsertAll (h : NoneEmpty table) (key : Text) (candidates : List Text) :
    NoneEmpty (candidates.foldl (fun table candidate =>
      table.upsert candidate ∅ (·.insert key)) table) := by
  induction candidates generalizing table with
  | nil => exact h
  | cons candidate candidates ih =>
      refine ih fun symbol keys hkeys => ?_
      rw [Table.get?_upsert] at hkeys
      split at hkeys
      · cases hkeys
        rw [OrderedSet.toList_insert]
        split
        · next hm => exact List.ne_nil_of_mem hm
        · simp
      · exact h symbol keys hkeys

theorem NoneEmpty.forget (h : NoneEmpty table) (key candidate : Text) :
    NoneEmpty (forget key candidate table) := by
  intro symbol keys hkeys
  simp only [LinkTable.forget] at hkeys
  split at hkeys
  · rw [Table.get?_erase, Table.get?_update] at hkeys
    split at hkeys
    · cases hkeys
    · exact h symbol keys hkeys
  · next hkept =>
      rw [Table.get?_update] at hkeys
      split at hkeys
      · next he =>
          subst he
          rw [Table.get?_update, if_pos rfl, hkeys] at hkept
          simpa [OrderedSet.isEmpty] using hkept
      · exact h symbol keys hkeys

theorem NoneEmpty.forgetAll (h : NoneEmpty table) (key : Text) (candidates : List Text) :
    NoneEmpty (candidates.foldl (fun table candidate => LinkTable.forget key candidate table)
      table) := by
  induction candidates generalizing table with
  | nil => exact h
  | cons candidate candidates ih => exact ih (h.forget key candidate)

theorem noneEmpty_add (h : NoneEmpty t.byCandidate) (s : Store) (scope : Option Text)
    (text : Text) : NoneEmpty (t.add s scope text).byCandidate := by
  simp only [add]
  split
  · exact h
  · exact h.upsertAll _ _

theorem noneEmpty_remove (h : NoneEmpty t.byCandidate) (key : Text) :
    NoneEmpty (t.remove key).byCandidate := by
  simp only [remove]
  split
  · exact h
  · exact h.forgetAll _ _

theorem byCandidate_retargetAll (s : Store) (t : LinkTable) (keys : List Text) :
    (retargetAll s t keys).1.byCandidate = t.byCandidate := by
  induction keys generalizing t with
  | nil => rfl
  | cons key keys ih =>
      have hstep : (retarget s t key).1.byCandidate = t.byCandidate := by
        rw [retarget.eq_def]
        split
        · rfl
        · dsimp only
          split <;> rfl
      exact (ih _).trans hstep

theorem within_eq_self (h : t.Follows s) (hkeys : NoneEmpty t.byCandidate) : t.within s = t := by
  have hdefined : ∀ key, (t.links.get? key).isSome → s.isDefined (linkItem key) :=
    fun key => (h.registered key).mp
  have hlinks : t.links.restrict (linkWithin? s) = t.links := by
    refine Table.restrict_eq_self fun key link hl => ?_
    rw [linkWithin?, if_pos (hdefined key (by simp [hl])), retargeted_of_eq (h.target key link hl)]
  have hcandidates : t.byCandidate.restrict (keysWithin? s) = t.byCandidate := by
    refine Table.restrict_eq_self fun symbol keys hget => ?_
    have hall : ∀ key ∈ keys.toList, s.isDefined (linkItem key) := by
      intro key hkey
      have hm : key ∈ t.mentions symbol := by
        rw [mentions, hget]
        exact hkey
      obtain ⟨link, hl, -⟩ := (h.mentioned key symbol).mp hm
      exact hdefined key (by simp [hl])
    have hne : keys.isEmpty = false := by simpa [OrderedSet.isEmpty] using hkeys symbol keys hget
    rw [keysWithin?, OrderedSet.restrict_eq_self hall]
    exact if_neg (by simp [hne])
  rw [within, hlinks, hcandidates]

end LinkTable

/-! ## Classes -/

/-- A class with the relatives that a store gives it. -/
def ClassNode.within (n : ClassNode) (s : Store) (name : Text) : ClassNode where
  parents := n.parents.restrict fun parent => s.isDefined (edgeItem (edgeKey name parent))
  children := n.children.restrict fun child => s.isDefined (edgeItem (edgeKey child name))

namespace ClassGraph

/-- A class with the relatives that a store gives it, if it has any or the store defines it. -/
def nodeWithin? (s : Store) (name : Text) (n : ClassNode) : Option ClassNode :=
  if s.isDefined (classItem name) ∨ (n.within s name).relatives ≠ [] then some (n.within s name)
  else none

/-- The classes that a store knows of. -/
def within (g : ClassGraph) (s : Store) : ClassGraph := ⟨g.nodes.restrict (nodeWithin? s)⟩

variable {g : ClassGraph} {s : Store} {name parent : Text}

theorem nodeWithin?_congr {n n' : ClassNode} (h : n.within s name = n'.within s name) :
    nodeWithin? s name n = nodeWithin? s name n' := by
  rw [nodeWithin?, nodeWithin?, h]

/-- A class that is new does not show in a store that does not define it. -/
theorem within_ensure (h : s.isDefined (classItem name) → (g.node? name).isSome) :
    (g.ensure name).within s = g.within s := by
  by_cases hn : (g.node? name).isSome
  · rw [ensure_of_isSome hn]
  · have hnone : nodeWithin? s name {} = none :=
      if_neg fun hs => hs.elim (fun hd => hn (h hd)) (· rfl)
    rw [within, within, ensure, Table.restrict_insertNew hnone]

theorem within_connect (h : ¬ s.isDefined (edgeItem (edgeKey name parent))) (g : ClassGraph) :
    (g.connect name parent).within s = g.within s := by
  have hchildren : ∀ n : ClassNode,
      nodeWithin? s parent { n with children := n.children.insert name } = nodeWithin? s parent n :=
    fun n => nodeWithin?_congr (congrArg (ClassNode.mk _)
      (OrderedSet.restrict_insert (p := fun child => s.isDefined (edgeItem (edgeKey child parent)))
        h n.children))
  have hparents : ∀ n : ClassNode,
      nodeWithin? s name { n with parents := n.parents.insert parent } = nodeWithin? s name n :=
    fun n => nodeWithin?_congr (congrArg (ClassNode.mk · _)
      (OrderedSet.restrict_insert (p := fun parent => s.isDefined (edgeItem (edgeKey name parent)))
        h n.parents))
  rw [within, within, connect, Table.restrict_update hchildren, Table.restrict_update hparents]

theorem within_disconnect (h : ¬ s.isDefined (edgeItem (edgeKey name parent))) (g : ClassGraph) :
    (g.disconnect name parent).within s = g.within s := by
  have hchildren : ∀ n : ClassNode,
      nodeWithin? s parent { n with children := n.children.erase name } = nodeWithin? s parent n :=
    fun n => nodeWithin?_congr (congrArg (ClassNode.mk _)
      (OrderedSet.restrict_erase (p := fun child => s.isDefined (edgeItem (edgeKey child parent)))
        h n.children))
  have hparents : ∀ n : ClassNode,
      nodeWithin? s name { n with parents := n.parents.erase parent } = nodeWithin? s name n :=
    fun n => nodeWithin?_congr (congrArg (ClassNode.mk · _)
      (OrderedSet.restrict_erase (p := fun parent => s.isDefined (edgeItem (edgeKey name parent)))
        h n.parents))
  rw [within, within, disconnect, Table.restrict_update hchildren, Table.restrict_update hparents]

/-- A class is pruned only if no store that the pruning one contains could know of it. -/
theorem within_prune {s' : Store} (h : s.isDefined (classItem name) → s'.isDefined (classItem name))
    (g : ClassGraph) : (g.prune s' name).within s = g.within s := by
  rw [prune]
  split
  · next hprune =>
      obtain ⟨hnil, hgone⟩ := hprune
      rw [within, within]
      congr 1
      refine Table.restrict_erase fun n hn => if_neg ?_
      have hrelatives : n.relatives = [] := by simpa [relatives, node?, hn] using hnil
      obtain ⟨hparents, hchildren⟩ := List.append_eq_nil_iff.mp hrelatives
      rintro (hd | hne)
      · simp [h hd] at hgone
      · exact hne (by simp [ClassNode.relatives, ClassNode.within, OrderedSet.restrict, hparents,
          hchildren])
  · rfl

theorem within_eq_self (h : g.Mirrors s) : g.within s = g := by
  rw [within]
  congr 1
  refine Table.restrict_eq_self fun name n hn => ?_
  have hnode : g.node? name = some n := hn
  have hwithin : n.within s name = n := by
    have hparents : ∀ parent ∈ n.parents.toList, s.isDefined (edgeItem (edgeKey name parent)) :=
      fun parent hm => ((h.parents name parent).mp (by simpa [parents, hnode] using hm)).2
    have hchildren : ∀ child ∈ n.children.toList, s.isDefined (edgeItem (edgeKey child name)) :=
      fun child hm => ((h.children child name).mp (by simpa [children, hnode] using hm)).2
    rw [ClassNode.within, OrderedSet.restrict_eq_self hparents,
      OrderedSet.restrict_eq_self hchildren]
  have hstands : s.isDefined (classItem name) ∨ n.relatives ≠ [] := by
    refine ((h.standing name).mp (by simp [hnode])).imp_right fun hrelated => ?_
    obtain ⟨k, hk⟩ := hrelated
    have hm : k ∈ g.relatives name := mem_relatives.mpr hk
    rw [relatives, hnode] at hm
    exact List.ne_nil_of_mem hm
  rw [nodeWithin?, hwithin, if_pos hstands]

end ClassGraph

end Index

/-! ## Projects -/

namespace Project

open Index

/-- The project without a file: what other files say, and the index for that. Nothing is marked
in it. -/
def without (p : Project) (file : FileName) : Project :=
  let s := p.store.without file
  ⟨s, { links := p.derived.links.within s, classes := p.derived.classes.within s }⟩

/-- The project with nothing marked. -/
def unmarked (p : Project) : Project := { p with derived.rebuild := ∅ }

variable {p q : Project} {ok : Claim → Prop} {file : FileName}

theorem without_congr (hstore : q.store.without file = p.store.without file)
    (hlinks : q.derived.links.within (p.store.without file) =
      p.derived.links.within (p.store.without file))
    (hclasses : q.derived.classes.within (p.store.without file) =
      p.derived.classes.within (p.store.without file)) :
    q.without file = p.without file := by
  rw [without, without, hstore, hlinks, hclasses]

theorem Marked.without_eq (h : Marked p q) (file : FileName) : q.without file = p.without file :=
  without_congr (by rw [h.store]) (by rw [h.links]) (by rw [h.classes])

theorem links_within_accept (h : p.derived.links.Follows p.store) (c : Claim) :
    (p.accept file c).derived.links.within (p.store.without file) =
      p.derived.links.within (p.store.without file) := by
  cases c with
  | symbol symbol d =>
      rw [accept, addSymbol_eq]
      split
      · rfl
      · exact LinkTable.within_retargetAll _ _ _ _
  | link scope text =>
      rw [accept, addLink_eq]
      refine LinkTable.within_add (fun hd => ?_) p.store
      exact (h.registered _).mpr (Store.isDefined_of_isDefined_without hd)
  | className name => rw [accept, (marked_addClass p file name).links]
  | edge name parent => rw [accept, (marked_addParent p file name parent).links]

theorem classes_within_accept (h : p.derived.classes.Mirrors p.store) {c : Claim}
    (hc : c.CleanStep) :
    (p.accept file c).derived.classes.within (p.store.without file) =
      p.derived.classes.within (p.store.without file) := by
  have hknown : ∀ name, (p.store.without file).isDefined (classItem name) →
      (p.derived.classes.node? name).isSome :=
    fun name hd => (h.standing name).mpr (.inl (Store.isDefined_of_isDefined_without hd))
  cases c with
  | symbol symbol d => rw [classes_accept p file (by simp [Claim.item, symbolItem])]
  | link scope text => rw [classes_accept p file (by simp [Claim.item, linkItem])]
  | className name =>
      rw [accept, (marked_addClass p file name).classes]
      exact ClassGraph.within_ensure (hknown name)
  | edge name parent =>
      have hensure : ((p.derived.classes.ensure name).ensure parent).within
          (p.store.without file) = p.derived.classes.within (p.store.without file) := by
        rw [ClassGraph.within_ensure, ClassGraph.within_ensure (hknown name)]
        exact fun hd => (ClassGraph.isSome_node?_ensure _ _ _).mpr (.inr (hknown parent hd))
      rw [accept, (marked_addParent p file name parent).classes]
      dsimp only
      split
      · exact hensure
      · next hd =>
          rw [ClassGraph.within_connect fun h => hd (Store.isDefined_of_isDefined_without h)]
          exact hensure

theorem without_accept (hlinks : p.derived.links.Follows p.store)
    (hclasses : p.derived.classes.Mirrors p.store) {c : Claim} (hc : c.CleanStep) :
    (p.accept file c).without file = p.without file := by
  refine without_congr ?_ (links_within_accept hlinks c) (classes_within_accept hclasses hc)
  rw [store_accept]
  exact Store.without_claim _ _ _ _

theorem without_dropped (p : Project) (id : ItemId) (file : FileName) :
    (p.dropped id file).without file = p.without file :=
  without_congr (Store.without_drop _ _ _) rfl rfl

theorem without_vacate {id : ItemId} (h : ¬ p.store.isDefined id) (file : FileName) :
    (p.vacate id).without file = p.without file := by
  have hstore : (p.vacate id).store.without file = p.store.without file := by
    rw [store_vacate]
    split
    · exact Store.without_eraseItem h file
    · rfl
  have hgone : ¬ (p.store.without file).isDefined id :=
    fun hd => h (Store.isDefined_of_isDefined_without hd)
  obtain ⟨extension, key⟩ := id
  rcases extension with _ | _ | _ | _ | n
  · exact without_congr hstore (LinkTable.within_retargetAll _ _ _ _) rfl
  · exact without_congr hstore (LinkTable.within_remove hgone _) rfl
  · refine without_congr hstore (by rw [links_vacate_class]) ?_
    rw [classes_vacate_class]
    refine ClassGraph.within_prune (fun hd => ?_) _
    rw [← hstore] at hd
    exact Store.isDefined_of_isDefined_without hd
  · refine without_congr hstore (by rw [links_vacate_edge]) ?_
    cases hsplit : splitEdgeKey? key with
    | none => simp only [vacate, hsplit]
    | some step =>
        obtain ⟨name, parent⟩ := step
        rw [vacate_edge hsplit] at hstore ⊢
        obtain ⟨-, rfl⟩ := eq_pair_of_unpair?_eq_some hsplit
        have hprune : ∀ (g : ClassGraph) (n : Text),
            (g.prune (p.store.eraseItem ⟨3, edgeKey name parent⟩) n).within (p.store.without file) =
              g.within (p.store.without file) := fun g n =>
          ClassGraph.within_prune (fun hd => Store.isDefined_of_isDefined_without (hstore ▸ hd)) g
        rw [classes_disconnect]
        exact (hprune _ parent).trans ((hprune _ name).trans (ClassGraph.within_disconnect hgone _))
  · rfl

/-- What other files say, and the index for it, stay the same whatever a file says. -/
theorem Move.without_eq (h : Move ok file p q) (hok : ∀ c, ok c → c.CleanStep)
    (hlinks : p.derived.links.Follows p.store) (hclasses : p.derived.classes.Mirrors p.store) :
    q.without file = p.without file := by
  cases h with
  | accept hc => exact without_accept hlinks hclasses (hok _ hc)
  | @follow d hd =>
      cases d with
      | changed id new =>
          have hrevise : Project.without { p with store := p.store.revise id file new } file =
              p.without file := without_congr (Store.without_revise _ _ _ _) rfl rfl
          simp only [Project.follow]
          split
          · rw [(marked_symbolChanged _ id.key file).without_eq, hrevise]
          · exact hrevise
      | deleted id =>
          have hdrop := without_dropped p id file
          simp only [Project.follow]
          split
          · split
            · rw [(marked_markReferencing _ id.key).without_eq, hdrop]
            · exact hdrop
          · next hlast => rw [without_vacate hlast, hdrop]
  | watched w => exact without_congr rfl rfl rfl
  | forgetIfEmpty => exact without_congr (Store.without_forgetIfEmpty _ _) rfl rfl

theorem Moves.without_eq (h : Moves ok file p q) (hok : ∀ c, ok c → c.CleanStep)
    (hlinks : p.derived.links.Follows p.store) (hclasses : p.derived.classes.Mirrors p.store) :
    q.without file = p.without file := by
  have hkept : q.derived.links.Follows q.store ∧ q.derived.classes.Mirrors q.store ∧
      q.without file = p.without file := by
    refine h.preserve (I := fun r => r.derived.links.Follows r.store ∧
      r.derived.classes.Mirrors r.store ∧ r.without file = p.without file) ?_
      ⟨hlinks, hclasses, rfl⟩
    rintro r t hmove ⟨hlinks, hclasses, heq⟩
    exact ⟨hmove.follows hlinks, hmove.mirrors hok hclasses,
      (hmove.without_eq hok hlinks hclasses).trans heq⟩
  exact hkept.2.2

theorem noneEmpty_accept (h : LinkTable.NoneEmpty p.derived.links.byCandidate)
    (file : FileName) (c : Claim) :
    LinkTable.NoneEmpty (p.accept file c).derived.links.byCandidate := by
  cases c with
  | symbol symbol d =>
      rw [accept, addSymbol_eq]
      split
      · exact h
      · rw [links_retarget, LinkTable.byCandidate_retargetAll]
        exact h
  | link scope text =>
      rw [accept, addLink_eq]
      exact LinkTable.noneEmpty_add h p.store scope text
  | className name =>
      rw [accept, (marked_addClass p file name).links]
      exact h
  | edge name parent =>
      rw [accept, (marked_addParent p file name parent).links]
      exact h

theorem noneEmpty_vacate (h : LinkTable.NoneEmpty p.derived.links.byCandidate) (id : ItemId) :
    LinkTable.NoneEmpty (p.vacate id).derived.links.byCandidate := by
  obtain ⟨extension, key⟩ := id
  rcases extension with _ | _ | _ | _ | n
  · have hlinks := LinkTable.byCandidate_retargetAll (p.store.eraseItem ⟨0, key⟩) p.derived.links
      (p.derived.links.mentions key)
    exact (congrArg LinkTable.NoneEmpty hlinks).mpr h
  · exact LinkTable.noneEmpty_remove h key
  · rw [links_vacate_class]
    exact h
  · rw [links_vacate_edge]
    exact h
  · exact h

theorem Move.noneEmpty (h : Move ok file p q)
    (hp : LinkTable.NoneEmpty p.derived.links.byCandidate) :
    LinkTable.NoneEmpty q.derived.links.byCandidate := by
  obtain h | ⟨c, -, rfl⟩ | ⟨id, -, rfl⟩ := h.cases
  · rw [h.links]
    exact hp
  · exact noneEmpty_accept hp file c
  · exact noneEmpty_vacate (p := p.dropped id file) hp id

/-- Nothing is missing in a project without a file that it does not know. -/
theorem without_eq_self (hp : p.Sound) (hwatched : p.store.watched = none)
    (hclasses : p.derived.classes.Mirrors p.store)
    (hkeys : LinkTable.NoneEmpty p.derived.links.byCandidate) (hfile : ¬ p.store.hasFile file) :
    p.without file = p.unmarked := by
  have hstore : p.store.without file = p.store :=
    Store.without_eq_self hp.consistent (fun id hid => (hp.occupied id hid).2) hfile hwatched
  simp only [without, unmarked, hstore, LinkTable.within_eq_self hp.links hkeys,
    ClassGraph.within_eq_self hclasses]

end Project

end Commentary
