import Commentary.Index.Basic
import Commentary.Proofs.Index.Classes
import Commentary.Proofs.Index.Links
import Commentary.Proofs.Store.Difference

/-!
# Moves of a project

Whatever happens to a project comes down to two moves: a file makes a claim, or a difference of a
file is settled and the index follows. What each of them does to the store, to the links and to
the classes is stated here once, and an analysis is shown to be made of such moves.
-/

namespace Commentary

/-- One thing that a file says. -/
inductive Claim where
  | symbol (symbol : Text) (d : SymbolDefinition)
  | link (scope : Option Text) (text : Text)
  | className (name : Text)
  | edge (name parent : Text)

namespace Claim

/-- The item that a claim is about. -/
def item : Claim → ItemId
  | .symbol name _ => Index.symbolItem name
  | .link scope text => Index.linkItem (Index.linkKey scope text)
  | .className name => Index.classItem name
  | .edge name parent => Index.edgeItem (Index.edgeKey name parent)

/-- What a claim says about its item. -/
def definition : Claim → Definition
  | .symbol _ d => .rich d
  | _ => .bare

end Claim

namespace Project

open Index

variable {p : Project}

/-- Records a claim of a file. -/
def accept (p : Project) (file : FileName) : Claim → Project
  | .symbol symbol d => p.addSymbol file symbol d
  | .link scope text => p.addLink file scope text
  | .className name => p.addClass file name
  | .edge name parent => p.addParent file name parent

/-! ## Marks -/

@[simp] theorem mem_rebuild_mark {files : List FileName} {g : FileName} :
    g ∈ (p.mark files).derived.rebuild ↔ g ∈ p.derived.rebuild ∨ g ∈ files :=
  OrderedSet.mem_insertAll

/-- The second project differs from the first at most in more marks. -/
structure Marked (p q : Project) : Prop where
  store : q.store = p.store
  links : q.derived.links = p.derived.links
  classes : q.derived.classes = p.derived.classes
  rebuild : ∀ g ∈ p.derived.rebuild, g ∈ q.derived.rebuild

theorem Marked.refl (p : Project) : Marked p p := ⟨rfl, rfl, rfl, fun _ => id⟩

theorem Marked.trans {q r : Project} (h : Marked p q) (k : Marked q r) : Marked p r :=
  ⟨k.store.trans h.store, k.links.trans h.links, k.classes.trans h.classes,
    fun g hg => k.rebuild g (h.rebuild g hg)⟩

theorem marked_mark (p : Project) (files : List FileName) : Marked p (p.mark files) :=
  ⟨rfl, rfl, rfl, fun _ hg => mem_rebuild_mark.mpr (.inl hg)⟩

theorem marked_markDefiners (p : Project) (name : Text) : Marked p (p.markDefiners name) :=
  marked_mark p _

theorem marked_markRelatives (p : Project) (name : Text) : Marked p (p.markRelatives name) := by
  simp only [markRelatives]
  generalize p.derived.classes.relatives name = names
  induction names generalizing p with
  | nil => exact .refl p
  | cons n names ih => exact (marked_markDefiners p n).trans (ih _)

theorem mem_rebuild_markDefiners {name : Text} {g : FileName} :
    g ∈ (p.markDefiners name).derived.rebuild ↔
      g ∈ p.derived.rebuild ∨ g ∈ p.store.definers (classItem name) :=
  mem_rebuild_mark

theorem mem_rebuild_markRelatives {name : Text} {g : FileName} :
    g ∈ (p.markRelatives name).derived.rebuild ↔ g ∈ p.derived.rebuild ∨
      ∃ k ∈ p.derived.classes.relatives name, g ∈ p.store.definers (classItem k) := by
  simp only [markRelatives]
  generalize p.derived.classes.relatives name = names
  induction names generalizing p with
  | nil => simp
  | cons n names ih =>
      rw [List.foldl_cons, ih, mem_rebuild_markDefiners, (marked_markDefiners p n).store]
      simp [or_assoc]

theorem marked_markReferencing (p : Project) (symbol : Text) :
    Marked p (p.markReferencing symbol) :=
  marked_mark p _

theorem marked_symbolChanged (p : Project) (symbol : Text) (file : FileName) :
    Marked p (p.symbolChanged symbol file) := by
  simp only [symbolChanged]
  split
  · exact marked_markReferencing p symbol
  · exact .refl p

/-! ## Targets -/

@[simp] theorem links_retarget (p : Project) (symbol : Text) :
    (p.retarget symbol).derived.links =
      (LinkTable.retargetAll p.store p.derived.links (p.derived.links.mentions symbol)).1 := rfl

theorem mem_rebuild_retarget {symbol : Text} {g : FileName} :
    g ∈ (p.retarget symbol).derived.rebuild ↔
      g ∈ p.derived.rebuild ∨
        ∃ key ∈ (LinkTable.retargetAll p.store p.derived.links
          (p.derived.links.mentions symbol)).2, g ∈ p.store.definers (linkItem key) := by
  have h : g ∈ (p.retarget symbol).derived.rebuild ↔ g ∈ p.derived.rebuild ∨ _ :=
    mem_rebuild_mark (p := { p with derived.links := _ })
  rw [h, List.mem_flatMap]

/-! ## Claims -/

theorem claim_eq (p : Project) (id : ItemId) (file : FileName) (d : Definition) :
    p.claim id file d =
      (!p.store.isDefined id, { p with store := (p.store.claim id file d).2 }) :=
  Prod.ext (Store.claim_first_iff p.store id file d) rfl

theorem addSymbol_eq (p : Project) (file : FileName) (symbol : Text) (d : SymbolDefinition) :
    p.addSymbol file symbol d =
      if p.store.isDefined (symbolItem symbol) then
        { p with store := (p.store.claim (symbolItem symbol) file (.rich d)).2 }
      else
        retarget { p with store := (p.store.claim (symbolItem symbol) file (.rich d)).2 }
          symbol := by
  rw [addSymbol, claim_eq]
  cases p.store.isDefined (symbolItem symbol) <;> rfl

theorem addLink_eq (p : Project) (file : FileName) (scope : Option Text) (text : Text) :
    p.addLink file scope text =
      { store := (p.store.claim (linkItem (linkKey scope text)) file .bare).2
        derived := { p.derived with links := p.derived.links.add p.store scope text } } := by
  rw [addLink, claim_eq]

theorem addClass_eq (p : Project) (file : FileName) (name : Text) :
    p.addClass file name =
      let q : Project :=
        { store := (p.store.claim (classItem name) file .bare).2
          derived := { p.derived with classes := p.derived.classes.ensure name } }
      if p.store.isDefined (classItem name) then q else q.markRelatives name := by
  rw [addClass, claim_eq]
  cases p.store.isDefined (classItem name) <;> rfl

theorem marked_addClass (p : Project) (file : FileName) (name : Text) :
    Marked
      { store := (p.store.claim (classItem name) file .bare).2
        derived := { p.derived with classes := p.derived.classes.ensure name } }
      (p.addClass file name) := by
  rw [addClass_eq]
  dsimp only
  split
  · exact .refl _
  · exact marked_markRelatives _ name

theorem addParent_eq (p : Project) (file : FileName) (name parent : Text) :
    p.addParent file name parent =
      let q : Project :=
        { store := (p.store.claim (edgeItem (edgeKey name parent)) file .bare).2
          derived := { p.derived with
            classes := (p.derived.classes.ensure name).ensure parent } }
      let q := if p.store.isDefined (edgeItem (edgeKey name parent)) then q
        else q.connect name parent
      if (p.store.definition? (edgeItem (edgeKey name parent)) file).isNone then q.mark [file]
      else q := by
  rw [addParent, claim_eq]
  cases p.store.isDefined (edgeItem (edgeKey name parent)) <;> rfl

theorem marked_addParent (p : Project) (file : FileName) (name parent : Text) :
    Marked
      { store := (p.store.claim (edgeItem (edgeKey name parent)) file .bare).2
        derived := { p.derived with
          classes :=
            let g := (p.derived.classes.ensure name).ensure parent
            if p.store.isDefined (edgeItem (edgeKey name parent)) then g
            else g.connect name parent } }
      (p.addParent file name parent) := by
  have hmark : ∀ q : Project, Marked q
      (if (p.store.definition? (edgeItem (edgeKey name parent)) file).isNone then q.mark [file]
        else q) := by
    intro q
    split
    · exact marked_mark q [file]
    · exact .refl q
  rw [addParent_eq]
  refine .trans ?_ (hmark _)
  by_cases hd : p.store.isDefined (edgeItem (edgeKey name parent))
  · simp only [if_pos hd]
    exact .refl _
  · simp only [if_neg hd]
    exact (marked_markDefiners _ name).trans (marked_markDefiners _ parent)

theorem store_accept (p : Project) (file : FileName) (c : Claim) :
    (p.accept file c).store = (p.store.claim c.item file c.definition).2 := by
  cases c with
  | symbol symbol d =>
      rw [accept, addSymbol_eq]
      split <;> rfl
  | link scope text => rw [accept, addLink_eq]; rfl
  | className name => exact (marked_addClass p file name).store
  | edge name parent => exact (marked_addParent p file name parent).store

/-- Only classes and steps show in the class graph. -/
theorem classes_accept (p : Project) (file : FileName) {c : Claim} (h : c.item.extension < 2) :
    (p.accept file c).derived.classes = p.derived.classes := by
  cases c with
  | symbol symbol d =>
      rw [accept, addSymbol_eq]
      split <;> rfl
  | link scope text => rw [accept, addLink_eq]
  | className name => simp [Claim.item, classItem] at h
  | edge name parent => simp [Claim.item, edgeItem] at h

theorem rebuild_accept (p : Project) (file : FileName) (c : Claim) :
    ∀ g ∈ p.derived.rebuild, g ∈ (p.accept file c).derived.rebuild := by
  intro g hg
  cases c with
  | symbol symbol d =>
      rw [accept, addSymbol_eq]
      split
      · exact hg
      · exact mem_rebuild_retarget.mpr (.inl hg)
  | link scope text =>
      rw [accept, addLink_eq]
      exact hg
  | className name => exact (marked_addClass p file name).rebuild g hg
  | edge name parent => exact (marked_addParent p file name parent).rebuild g hg

/-! ## Differences -/

/-- An item has lost its last definition: it is removed, and the index follows. -/
def vacate (p : Project) (id : ItemId) : Project :=
  let q : Project := { p with store := p.store.eraseItem id }
  match id.extension with
  | 0 => q.retarget id.key
  | 1 => { q with derived.links := q.derived.links.remove id.key }
  | 2 =>
    let q := q.markRelatives id.key
    { q with derived.classes := q.derived.classes.prune q.store id.key }
  | 3 =>
    match splitEdgeKey? id.key with
    | some (name, parent) => q.disconnect name parent
    | none => q
  | _ => p

/-- A file has given up its definition of an item, and the index is still as it was. -/
def dropped (p : Project) (id : ItemId) (file : FileName) : Project :=
  { p with store := p.store.drop id file }

/-- A difference of a file is settled, and the index follows. -/
def follow (p : Project) (file : FileName) : Difference → Project
  | .changed id new =>
    let q : Project := { p with store := p.store.revise id file new }
    if id.extension = 0 then q.symbolChanged id.key file else q
  | .deleted id =>
    let q := p.dropped id file
    if q.store.isDefined id then (if id.extension = 0 then q.markReferencing id.key else q)
    else q.vacate id

theorem exec_changed (id : ItemId) (file : FileName) (p : Project) :
    (listener.changed id file).exec p =
      (.ok (), if id.extension = 0 then p.symbolChanged id.key file else p) := by
  simp only [listener]
  split <;> rfl

theorem exec_deleted (id : ItemId) (file : FileName) (p : Project) :
    (listener.deleted id file !(p.store.isDefined id)).exec p =
      (.ok (), if p.store.isDefined id then
          (if id.extension = 0 then p.markReferencing id.key else p)
        else p.vacate id) := by
  obtain ⟨extension, key⟩ := id
  cases hd : p.store.isDefined ⟨extension, key⟩ with
  | true => rcases extension with _ | _ | _ | _ | n <;> rfl
  | false =>
      have hgone : ¬ p.store.isDefined ⟨extension, key⟩ := by simp [hd]
      have hdelete := Store.deleteItem_eq hgone
      simp only [listener, vacate]
      rcases extension with _ | _ | _ | _ | n
      · simp only [symbolDeleted]
        exact Run.exec_bind_ok (Run.exec_step_ok hdelete) _
      · simp only [linkDeleted]
        refine (Run.exec_bind_ok (Run.exec_modify _ _) _).trans ?_
        exact Run.exec_bind_ok (Run.exec_step_ok hdelete) _
      · simp only [classDeleted]
        exact Run.exec_bind_ok (Run.exec_step_ok hdelete) _
      · simp only [edgeDeleted]
        refine (Run.exec_bind_ok (Run.exec_step_ok hdelete) _).trans ?_
        cases splitEdgeKey? key <;> rfl
      · rfl

theorem store_vacate (p : Project) (id : ItemId) :
    (p.vacate id).store = if id.extension < 4 then p.store.eraseItem id else p.store := by
  obtain ⟨extension, key⟩ := id
  rcases extension with _ | _ | _ | _ | n
  · rfl
  · rfl
  · exact (marked_markRelatives _ key).store
  · simp only [vacate]
    cases splitEdgeKey? key <;> rfl
  · rw [if_neg (by simp)]
    rfl

theorem links_vacate_class (p : Project) (name : Text) :
    (p.vacate ⟨2, name⟩).derived.links = p.derived.links :=
  (marked_markRelatives _ name).links

theorem links_vacate_edge (p : Project) (key : Text) :
    (p.vacate ⟨3, key⟩).derived.links = p.derived.links := by
  simp only [vacate]
  cases splitEdgeKey? key <;> rfl

theorem get?_links_vacate {id : ItemId} (hext : id.extension ≠ 0) {key : Text}
    (hkey : linkItem key ≠ id) :
    (p.vacate id).derived.links.links.get? key = p.derived.links.links.get? key := by
  obtain ⟨extension, removed⟩ := id
  rcases extension with _ | _ | _ | _ | n
  · exact absurd rfl hext
  · have hne : key ≠ removed := fun e => hkey (e ▸ rfl)
    exact (LinkTable.get?_remove p.derived.links removed key).trans (if_neg hne)
  · rw [links_vacate_class]
  · rw [links_vacate_edge]
  · rfl

theorem rebuild_vacate (p : Project) (id : ItemId) :
    ∀ g ∈ p.derived.rebuild, g ∈ (p.vacate id).derived.rebuild := by
  intro g hg
  obtain ⟨extension, key⟩ := id
  rcases extension with _ | _ | _ | _ | n
  · exact mem_rebuild_retarget.mpr (.inl hg)
  · exact hg
  · exact (marked_markRelatives _ key).rebuild g hg
  · simp only [vacate]
    cases splitEdgeKey? key with
    | none => exact hg
    | some step =>
        exact ((marked_markDefiners _ step.1).trans (marked_markDefiners _ step.2)).rebuild g hg
  · exact hg

theorem classes_vacate {id : ItemId} (h : id.extension ≠ 2) (h' : id.extension ≠ 3) :
    (p.vacate id).derived.classes = p.derived.classes := by
  obtain ⟨extension, key⟩ := id
  rcases extension with _ | _ | _ | _ | n
  · rfl
  · rfl
  · exact absurd rfl h
  · exact absurd rfl h'
  · rfl

theorem classes_vacate_class (p : Project) (name : Text) :
    (p.vacate ⟨2, name⟩).derived.classes =
      p.derived.classes.prune (p.vacate ⟨2, name⟩).store name := by
  have h := marked_markRelatives { p with store := p.store.eraseItem ⟨2, name⟩ } name
  exact congrArg (ClassGraph.prune · (p.vacate ⟨2, name⟩).store name) h.classes

theorem vacate_edge {key name parent : Text} (h : splitEdgeKey? key = some (name, parent)) :
    p.vacate ⟨3, key⟩ =
      disconnect { p with store := p.store.eraseItem ⟨3, key⟩ } name parent := by
  simp only [vacate, h]

theorem classes_disconnect (p : Project) (name parent : Text) :
    (p.disconnect name parent).derived.classes =
      ((p.derived.classes.disconnect name parent).prune p.store name).prune p.store parent := rfl

theorem alike_vacate {id : ItemId} (h : ¬ p.store.isDefined id) :
    Store.Alike p.store (p.vacate id).store := by
  rw [store_vacate]
  split
  · exact Store.alike_eraseItem h
  · exact .refl _

theorem harmless_listener : listener.Harmless := by
  refine ⟨fun id file p => ?_, fun id file p => ?_⟩
  · rw [exec_changed]
    split
    · rw [(marked_symbolChanged p id.key file).store]
      exact .refl _
    · exact .refl _
  · rw [exec_deleted]
    by_cases hd : p.store.isDefined id
    · rw [if_pos hd]
      split <;> exact .refl _
    · rw [if_neg hd]
      exact alike_vacate hd

theorem exec_settle_listener {file : FileName} {d : Difference} (h : d.Valid file p.store) :
    (d.settle listener file).exec p = (.ok (), p.follow file d) := by
  rw [Difference.exec_settle_of_valid listener h]
  cases d with
  | changed id new => exact exec_changed id file _
  | deleted id => exact exec_deleted id file (p.dropped id file)

theorem alike_follow (p : Project) (file : FileName) (d : Difference) :
    Store.Alike (d.commit file p.store) (p.follow file d).store := by
  cases d with
  | changed id new =>
      simp only [follow]
      split
      · rw [(marked_symbolChanged _ id.key file).store]
        exact .refl _
      · exact .refl _
  | deleted id =>
      simp only [follow]
      by_cases hd : (p.dropped id file).store.isDefined id
      · rw [if_pos hd]
        split <;> exact .refl _
      · rw [if_neg hd]
        exact alike_vacate hd

theorem rebuild_follow (p : Project) (file : FileName) (d : Difference) :
    ∀ g ∈ p.derived.rebuild, g ∈ (p.follow file d).derived.rebuild := by
  intro g hg
  cases d with
  | changed id new =>
      simp only [follow]
      split
      · exact (marked_symbolChanged _ id.key file).rebuild g hg
      · exact hg
  | deleted id =>
      simp only [follow]
      split
      · split
        · exact (marked_markReferencing _ id.key).rebuild g hg
        · exact hg
      · exact rebuild_vacate _ id g hg

/-! ## Moves -/

/-- One move of a project on behalf of a file, with claims of a certain kind. -/
inductive Move (ok : Claim → Prop) (file : FileName) : Project → Project → Prop where
  | accept (p : Project) {c : Claim} (h : ok c) : Move ok file p (p.accept file c)
  | follow {p : Project} {d : Difference} (h : d.Valid file p.store) :
      Move ok file p (p.follow file d)
  | watched (p : Project) (w : Option Watch) : Move ok file p { p with store.watched := w }
  | forgetIfEmpty (p : Project) : Move ok file p { p with store := p.store.forgetIfEmpty file }

/-- Any number of moves on behalf of a file. -/
abbrev Moves (ok : Claim → Prop) (file : FileName) : Project → Project → Prop :=
  Relation.ReflTransGen (Move ok file)

variable {ok : Claim → Prop} {file : FileName} {q : Project}

/-- What every move keeps is kept by any number of them. -/
theorem Moves.preserve {I : Project → Prop} (h : Moves ok file p q)
    (hstep : ∀ p q, Move ok file p q → I p → I q) (hp : I p) : I q := by
  induction h with
  | refl => exact hp
  | tail _ hmove ih => exact hstep _ _ hmove ih

theorem Move.consistent (h : Move ok file p q) (hp : p.store.Consistent) :
    q.store.Consistent := by
  cases h with
  | @accept c _ =>
      rw [store_accept]
      refine Store.consistent_record (Store.consistent_ensureItem hp _) ?_ file _
      exact (Store.isSome_item?_ensureItem _ _ _).mpr (.inl rfl)
  | @follow d hd =>
      refine (alike_follow p file d).consistent ?_
      cases d with
      | changed id new => exact Store.consistent_revise hp hd.1 file new
      | deleted id => exact Store.consistent_drop hp id file
  | watched w => exact ⟨hp.listed, hp.bare⟩
  | forgetIfEmpty => exact (Store.alike_forgetIfEmpty p.store file).consistent hp

theorem Move.extensions_eq (h : Move ok file p q) : q.store.extensions = p.store.extensions := by
  cases h with
  | @accept c _ =>
      rw [store_accept]
      rfl
  | @follow d _ => exact (alike_follow p file d).extensions.trans (Store.sameBut_commit file d _).1
  | watched w => rfl
  | forgetIfEmpty => exact (Store.alike_forgetIfEmpty p.store file).extensions

theorem moves_accept (cs : List Claim) (hok : ∀ c ∈ cs, ok c) (p : Project) :
    Moves ok file p (cs.foldl (·.accept file ·) p) := by
  induction cs generalizing p with
  | nil => exact .refl
  | cons c cs ih =>
      exact .head (.accept p (hok c (by simp))) (ih (fun c hc => hok c (by simp [hc])) _)

/-- The analysis of a watched file succeeds, and it settles each difference by a move. A file that
says nothing any more is not known afterwards. -/
theorem moves_analyze (ok : Claim → Prop) (hp : p.store.Consistent) {w : Watch}
    (hw : p.store.watched = some w) :
    ∃ q, analyze.exec p = (.ok (), q) ∧ Moves ok w.file p q ∧ q.store.watched = none ∧
      ¬ q.store.Vacant w.file ∧ Store.Settled w.file (p.store.differences w) p.store q.store := by
  obtain ⟨q, hexec, hmoves, hwatched, hsettled⟩ := Store.analyze_ok harmless_listener
    (P := fun _ q => Moves ok w.file p q) hp hw (.single (.watched p none)) (by
      intro done d q _ hv _ hmoves
      exact ⟨follow q w.file d, exec_settle_listener hv, alike_follow q w.file d,
        hmoves.tail (.follow hv)⟩)
  have halike := Store.alike_forgetIfEmpty q.store w.file
  exact ⟨_, hexec, hmoves.tail (.forgetIfEmpty q), halike.watched.trans hwatched,
    fun h => (Store.vacant_forgetIfEmpty h).1 rfl, hsettled.of_alike halike⟩

end Project

end Commentary
