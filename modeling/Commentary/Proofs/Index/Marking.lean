import Commentary.Proofs.Index.Invariant
import Commentary.Proofs.Store.Watch

/-!
# Marks for moved links

A file shows what its links lead to, so it has to be marked whenever that changes. No move on
behalf of another file gets by without it: either a link of the file shows what it showed before,
or the file is marked.
-/

namespace Commentary.Project

open Index

variable {p q r : Project} {g file : FileName} {ok : Claim → Prop}

/-! ## Moves on behalf of another file -/

/-- Another file says what it said before when a difference has been settled. -/
theorem definition?_commit (hg : g ≠ file) (d : Difference) (s : Store) (id : ItemId) :
    (d.commit file s).definition? id g = s.definition? id g :=
  Store.definition?_eq_of_othersOf_eq (Store.othersOf_commit file d s id) hg

theorem mem_definers_commit (hg : g ≠ file) (d : Difference) (s : Store) (id : ItemId) :
    g ∈ (d.commit file s).definers id ↔ g ∈ s.definers id := by
  rw [← Store.isSome_definition?_iff, definition?_commit hg, Store.isSome_definition?_iff]

theorem Move.mem_definers (h : Move ok file p q) (hg : g ≠ file) (id : ItemId) :
    g ∈ q.store.definers id ↔ g ∈ p.store.definers id := by
  cases h with
  | @accept c _ =>
      rw [store_accept, Store.mem_definers_claim]
      exact or_iff_left fun e => hg e.2
  | @follow d _ => rw [(alike_follow p file d).definers, mem_definers_commit hg]
  | watched w => exact .rfl
  | forgetIfEmpty => rw [(Store.alike_forgetIfEmpty p.store file).definers]

/-- No move takes a mark away. -/
theorem Move.mem_rebuild (h : Move ok file p q) (hg : g ∈ p.derived.rebuild) :
    g ∈ q.derived.rebuild := by
  cases h with
  | @accept c _ => exact rebuild_accept p file c g hg
  | @follow d _ => exact rebuild_follow p file d g hg
  | watched w => exact hg
  | forgetIfEmpty => exact hg

theorem Moves.mem_definers (h : Moves ok file p q) (hg : g ≠ file) (id : ItemId) :
    g ∈ q.store.definers id ↔ g ∈ p.store.definers id := by
  induction h with
  | refl => exact .rfl
  | tail _ hmove ih => exact (hmove.mem_definers hg id).trans ih

theorem Moves.mem_rebuild (h : Moves ok file p q) (hg : g ∈ p.derived.rebuild) :
    g ∈ q.derived.rebuild :=
  Moves.preserve (I := fun p => g ∈ p.derived.rebuild) h (fun _ _ => Move.mem_rebuild) hg

/-- A file that defines an item is marked, or it sees the same after any moves of another file, if
each single one of them has it so. -/
theorem Moves.marked_or {S : Project → Project → Prop} {I : Project → Prop} {j : ItemId}
    (hrefl : ∀ p, S p p) (htrans : ∀ {p q r}, S p q → S q r → S p r)
    (hkept : ∀ p q, Move ok file p q → I p → I q)
    (hstep : ∀ p q, Move ok file p q → I p → g ∈ p.store.definers j →
      g ∈ q.derived.rebuild ∨ S p q)
    (hg : g ≠ file) (h : Moves ok file p q) (hp : I p) (hj : g ∈ p.store.definers j) :
    g ∈ q.derived.rebuild ∨ S p q := by
  induction h with
  | refl => exact .inr (hrefl p)
  | @tail q r hmoves hmove ih =>
      have hq : I q := Moves.preserve hmoves hkept hp
      rcases ih with hmarked | hsame
      · exact .inl (hmove.mem_rebuild hmarked)
      · have hj' : g ∈ q.store.definers j := (Moves.mem_definers hmoves hg j).mpr hj
        exact (hstep q r hmove hq hj').imp_right (htrans hsame)

/-! ## Links of a file -/

/-- Every link that a file defines shows what it showed before, unless the file is marked. -/
def LinksNoticed (g : FileName) (p q : Project) : Prop :=
  ∀ scope text, g ∈ p.store.definers (linkItem (linkKey scope text)) →
    g ∈ q.derived.rebuild ∨
      q.derived.links.resolve? q.store scope text g =
        p.derived.links.resolve? p.store scope text g

namespace LinksNoticed

/-- A link that a file defines stands in the table, so only its target and the definition of that
have to be looked at. -/
theorem of_links (hp : p.Sound)
    (hlinks : ∀ key link, g ∈ p.store.definers (linkItem key) →
      p.derived.links.links.get? key = some link → g ∈ q.derived.rebuild ∨
        q.derived.links.links.get? key = some link ∧ ∀ symbol, link.target = some symbol →
          Index.resolve? q.store g symbol = Index.resolve? p.store g symbol) :
    LinksNoticed g p q := by
  intro scope text hg
  have hd : p.store.isDefined (linkItem (linkKey scope text)) :=
    Store.isDefined_of_mem hg
  obtain ⟨link, hl⟩ := Option.isSome_iff_exists.mp ((hp.links.registered _).mpr hd)
  refine (hlinks _ link hg hl).imp_right fun ⟨hl', hresolve⟩ => ?_
  rw [LinkTable.resolve?_of_link hl, LinkTable.resolve?_of_link hl']
  cases ht : link.target with
  | none => rfl
  | some symbol => exact hresolve symbol ht

/-- Nothing has to be marked if the links of the file and all symbols are as before. -/
theorem of_same (hp : p.Sound)
    (hlinks : ∀ key link, g ∈ p.store.definers (linkItem key) →
      p.derived.links.links.get? key = some link → q.derived.links.links.get? key = some link)
    (hresolve : ∀ symbol, Index.resolve? q.store g symbol = Index.resolve? p.store g symbol) :
    LinksNoticed g p q :=
  of_links hp fun key link hg hl => .inr ⟨hlinks key link hg hl, fun symbol _ => hresolve symbol⟩

theorem of_marked (h : LinksNoticed g p q) (hm : Marked q r) : LinksNoticed g p r := by
  intro scope text hg
  rw [hm.store, hm.links]
  exact (h scope text hg).imp_left (hm.rebuild g)

end LinksNoticed

/-! ## A symbol changes -/

section Symbol

variable {s : Store} {symbol : Text}
  (hrest : ∀ id, id ≠ symbolItem symbol → s.definitions id = p.store.definitions id)

include hrest

theorem mem_definers_linkItem (key : Text) :
    g ∈ s.definers (linkItem key) ↔ g ∈ p.store.definers (linkItem key) := by
  rw [Store.definers_eq, Store.definers_eq, hrest _ (by simp [linkItem, symbolItem])]

theorem resolve?_of_symbol_ne {other : Text} (h : other ≠ symbol) :
    Index.resolve? s g other = Index.resolve? p.store g other :=
  resolve?_congr_definitions (hrest _ (by simpa [symbolItem] using h)) g

/-- When the first definition of a symbol comes or the last one goes, the links that move are
marked, and the others do not lead to the symbol. -/
theorem noticed_retarget (hp : p.Sound)
    (hends : ¬ (p.store.isDefined (symbolItem symbol) ∧ s.isDefined (symbolItem symbol))) :
    LinksNoticed g p (retarget ⟨s, p.derived⟩ symbol) := by
  refine .of_links hp fun key link hg hl => ?_
  have htarget := hp.links.target key link hl
  by_cases hmoved : link.target = best? s link.candidates
  · -- The target is defined before and after, so it is another symbol.
    refine .inr ⟨?_, fun other ht => resolve?_of_symbol_ne hrest ?_⟩
    · rw [links_retarget, LinkTable.get?_retargetAll, hl]
      split
      · exact congrArg some (LinkTable.retargeted_of_eq hmoved)
      · rfl
    · rintro rfl
      exact hends ⟨isDefined_of_best?_eq_some (htarget.symm.trans ht),
        isDefined_of_best?_eq_some (hmoved.symm.trans ht)⟩
  · -- Only a link that may mean the symbol can move.
    have hmentioned : key ∈ p.derived.links.mentions symbol := by
      refine (hp.links.mentioned key symbol).mpr ⟨link, hl, ?_⟩
      by_contra hc
      refine hmoved (htarget.trans (best?_eq_of_not_mem hc fun id hid => ?_).symm)
      exact Store.isDefined_congr (hrest id hid)
    refine .inl (mem_rebuild_retarget.mpr (.inr ⟨key, ?_, ?_⟩))
    · exact (LinkTable.mem_moved_retargetAll _ _ _ _).mpr ⟨hmentioned, link, hl, hmoved⟩
    · exact (mem_definers_linkItem hrest key).mpr hg

/-- When the definition of a symbol changes that counts, the links that lead to it are marked. -/
theorem noticed_markReferencing (hp : p.Sound) :
    LinksNoticed g p (markReferencing ⟨s, p.derived⟩ symbol) := by
  refine .of_links hp fun key link hg hl => ?_
  by_cases ht : link.target = some symbol
  · have hbest := (hp.links.target key link hl).symm.trans ht
    have hmentioned : key ∈ p.derived.links.mentions symbol :=
      (hp.links.mentioned key symbol).mpr ⟨link, hl, mem_of_best?_eq_some hbest⟩
    refine .inl (mem_rebuild_mark.mpr (.inr (OrderedSet.mem_ofList.mpr ?_)))
    refine List.mem_flatMap.mpr ⟨key, List.mem_filter.mpr ⟨hmentioned, ?_⟩, ?_⟩
    · simp [hl, ht]
    · exact (mem_definers_linkItem hrest key).mpr hg
  · refine .inr ⟨hl, fun other hother => resolve?_of_symbol_ne hrest ?_⟩
    rintro rfl
    exact ht hother

end Symbol

/-! ## Claims -/

theorem resolve?_claim {s : Store} {id : ItemId} (h : id.extension ≠ 0 ∨ s.isDefined id)
    (hg : g ≠ file) (d : Definition) (symbol : Text) :
    Index.resolve? (s.claim id file d).2 g symbol = Index.resolve? s g symbol := by
  refine resolve?_congr (Store.definition?_claim_of_ne s id hg d _) ?_
  rcases h with h | h
  · have hne : symbolItem symbol ≠ id := by
      rintro rfl
      exact h rfl
    rw [Store.authoritative?_eq, Store.authoritative?_eq, Store.definitions_claim,
      if_neg fun e => hne e.1]
  · exact Store.authoritative?_claim_of_isDefined h file d _

theorem noticed_accept (hp : p.Sound) (hg : g ≠ file) (c : Claim) :
    LinksNoticed g p (p.accept file c) := by
  cases c with
  | symbol symbol d =>
      rw [accept, addSymbol_eq]
      by_cases hd : p.store.isDefined (symbolItem symbol)
      · rw [if_pos hd]
        exact .of_same hp (fun _ _ _ hl => hl) (resolve?_claim (.inr hd) hg _)
      · rw [if_neg hd]
        refine noticed_retarget (fun id hid => ?_) hp fun h => hd h.1
        rw [Store.definitions_claim, if_neg fun e => hid e.1]
  | link scope text =>
      rw [accept, addLink_eq]
      exact .of_same hp (fun _ _ _ hl => LinkTable.get?_add_of_eq_some hl p.store scope text)
        (resolve?_claim (.inl (by simp [linkItem])) hg _)
  | className name =>
      refine .of_marked ?_ (marked_addClass p file name)
      exact .of_same hp (fun _ _ _ hl => hl) (resolve?_claim (.inl (by simp [classItem])) hg _)
  | edge name parent =>
      refine .of_marked ?_ (marked_addParent p file name parent)
      exact .of_same hp (fun _ _ _ hl => hl) (resolve?_claim (.inl (by simp [edgeItem])) hg _)

/-! ## Differences -/

/-- Settling a difference about something else than a symbol leaves every symbol alone. -/
theorem resolve?_commit_of_ne {d : Difference} (h : d.item.extension ≠ 0) (s : Store)
    (symbol : Text) :
    Index.resolve? (d.commit file s) g symbol = Index.resolve? s g symbol := by
  refine resolve?_congr_definitions ?_ g
  rw [Difference.definitions_commit, if_neg]
  intro he
  exact h (he ▸ rfl)

theorem noticed_changed (hp : p.Sound) (hg : g ≠ file) (id : ItemId) (new : Definition) :
    LinksNoticed g p (p.follow file (.changed id new)) := by
  obtain ⟨extension, key⟩ := id
  simp only [follow]
  split
  · next hext =>
      subst hext
      simp only [symbolChanged]
      split
      · exact noticed_markReferencing
          (fun id hid => (Store.definitions_revise _ _ _ _ id).trans (if_neg hid)) hp
      · next hauth =>
          refine .of_same hp (fun _ _ _ hl => hl) fun symbol => ?_
          exact resolve?_congr (definition?_commit hg (.changed ⟨0, key⟩ new) p.store _)
            (Store.authoritative?_revise hauth _)
  · next hext =>
      exact .of_same hp (fun _ _ _ hl => hl)
        (resolve?_commit_of_ne (d := .changed ⟨extension, key⟩ new) hext p.store)

theorem noticed_deleted (hp : p.Sound) (hg : g ≠ file) (id : ItemId) :
    LinksNoticed g p (p.follow file (.deleted id)) := by
  have hresolve : id.extension ≠ 0 → ∀ symbol, Index.resolve? (p.dropped id file).store g symbol =
      Index.resolve? p.store g symbol := fun hext =>
    resolve?_commit_of_ne (d := .deleted id) hext p.store
  have hrest : ∀ j, j ≠ id → (p.dropped id file).store.definitions j = p.store.definitions j :=
    fun j hj => (Store.definitions_drop _ _ _ j).trans (if_neg hj)
  by_cases hd : (p.dropped id file).store.isDefined id
  · simp only [follow, if_pos hd]
    split
    · next hext =>
        obtain ⟨extension, key⟩ := id
        subst hext
        exact noticed_markReferencing hrest hp
    · next hext => exact .of_same hp (fun _ _ _ hl => hl) (hresolve hext)
  · rw [follow_deleted_of_last hd]
    have halike := alike_vacate (p := p.dropped id file) hd
    by_cases hext : id.extension = 0
    · obtain ⟨extension, key⟩ := id
      subst hext
      refine noticed_retarget (fun j hj => (halike.definitions j).trans (hrest j hj)) hp fun h => ?_
      exact hd (halike.isDefined _ ▸ h.2)
    · refine .of_same hp (fun key link hk hl => ?_)
        fun symbol => (resolve?_congr_definitions (halike.definitions _) g).trans
          (hresolve hext symbol)
      -- A link that the file defines is not the one that is removed.
      have hkept : linkItem key ≠ id := by
        rintro rfl
        exact hd (Store.isDefined_of_mem
          ((mem_definers_commit hg (.deleted (linkItem key)) p.store _).mpr hk))
      exact (get?_links_vacate (p := p.dropped id file) hext hkept).trans hl

theorem noticed_of_move (hp : p.Sound) (hg : g ≠ file) (h : Move ok file p q) :
    LinksNoticed g p q := by
  cases h with
  | @accept c _ => exact noticed_accept hp hg c
  | @follow d hd =>
      cases d with
      | changed id new => exact noticed_changed hp hg id new
      | deleted id => exact noticed_deleted hp hg id
  | watched w =>
      exact .of_same hp (fun _ _ _ hl => hl) fun symbol => resolve?_congr_definitions rfl g
  | forgetIfEmpty =>
      have halike := Store.alike_forgetIfEmpty p.store file
      exact .of_same hp (fun _ _ _ hl => hl) fun symbol =>
        resolve?_congr_definitions (halike.definitions _) g

/-- Whatever has changed in the links of a file, the file is marked for it. -/
structure Noticed (g : FileName) (p q : Project) : Prop where
  marks : g ∈ p.derived.rebuild → g ∈ q.derived.rebuild
  definers : ∀ key, g ∈ p.store.definers (linkItem key) → g ∈ q.store.definers (linkItem key)
  results : ∀ scope text, g ∈ p.store.definers (linkItem (linkKey scope text)) →
    g ∈ q.derived.rebuild ∨
      q.derived.links.resolve? q.store scope text g =
        p.derived.links.resolve? p.store scope text g

/-- No moves on behalf of another file change what a link of a file leads to unless the file is
marked. -/
theorem noticed_of_moves (hp : p.Sound) (hg : g ≠ file) (h : Moves ok file p q) :
    Noticed g p q where
  marks := h.mem_rebuild
  definers key := (h.mem_definers hg (linkItem key)).mpr
  results scope text hlink :=
    h.marked_or (I := Sound) (j := linkItem (linkKey scope text))
      (S := fun p q => q.derived.links.resolve? q.store scope text g =
        p.derived.links.resolve? p.store scope text g)
      (fun _ => rfl) (fun h k => k.trans h) (fun _ _ => Move.sound)
      (fun _ _ hmove hp => noticed_of_move hp hg hmove scope text) hg hp hlink

end Commentary.Project
