import Commentary.Index.Link
import Commentary.Proofs.Index.Key
import Commentary.Proofs.Store.View
import Mathlib.Data.List.Find

/-!
# Links that follow the store

The link table holds three things that can be computed from the store: which links there are,
where each of them leads, and which links may mean a symbol. A table follows a store if it holds
what would be computed. Each operation of the table is matched here with the change of the store
after which the table follows again.
-/

namespace Commentary.Index

theorem best?_congr {s t : Store}
    (h : ∀ symbol, t.isDefined (symbolItem symbol) = s.isDefined (symbolItem symbol)) :
    best? t = best? s := by
  funext candidates
  simp only [best?]
  congr 1
  funext symbol
  exact h symbol

theorem isDefined_of_best?_eq_some {s : Store} {candidates : List Text} {symbol : Text}
    (h : best? s candidates = some symbol) : s.isDefined (symbolItem symbol) := by
  simpa using List.find?_some h

theorem mem_of_best?_eq_some {s : Store} {candidates : List Text} {symbol : Text}
    (h : best? s candidates = some symbol) : symbol ∈ candidates :=
  List.mem_of_find?_eq_some h

/-- The best candidate changes only where one of the candidates does. -/
theorem best?_eq_of_not_mem {s t : Store} {candidates : List Text} {symbol : Text}
    (hsymbol : symbol ∉ candidates)
    (h : ∀ id, id ≠ symbolItem symbol → t.isDefined id = s.isDefined id) :
    best? t candidates = best? s candidates := by
  simp only [best?]
  apply List.find?_congr
  intro candidate hc
  apply h
  intro he
  cases he
  exact hsymbol hc

theorem resolve?_eq (s : Store) (file : FileName) (symbol : Text) :
    resolve? s file symbol =
      match s.definition? (symbolItem symbol) file with
      | some own => some ⟨symbol, file, own⟩
      | none =>
        (s.authoritative? (symbolItem symbol)).map fun (definer, d) => ⟨symbol, definer, d⟩ := by
  simp only [resolve?, Store.definition?, Store.authoritative?]
  cases s.item? (symbolItem symbol) with
  | none => rfl
  | some item =>
      cases hf : item.find? file with
      | none => simp [Table.get?, hf]
      | some e =>
          have he : e.1 = file := by simpa using List.find?_some hf
          simp [Table.get?, hf, he]

theorem resolve?_congr {s t : Store} {file : FileName} {symbol : Text}
    (hown : t.definition? (symbolItem symbol) file = s.definition? (symbolItem symbol) file)
    (hauth : t.authoritative? (symbolItem symbol) = s.authoritative? (symbolItem symbol)) :
    resolve? t file symbol = resolve? s file symbol := by
  rw [resolve?_eq, resolve?_eq, hown, hauth]

theorem resolve?_congr_definitions {s t : Store} {symbol : Text}
    (h : t.definitions (symbolItem symbol) = s.definitions (symbolItem symbol))
    (file : FileName) : resolve? t file symbol = resolve? s file symbol := by
  apply resolve?_congr
  · rw [Store.definition?_eq, Store.definition?_eq, h]
  · rw [Store.authoritative?_eq, Store.authoritative?_eq, h]

namespace LinkTable

/-! ## Keys by candidate -/

/-- The keys that a table by candidates holds for a symbol. -/
def listed (table : Table Text (OrderedSet Text)) (symbol : Text) : List Text :=
  ((table.get? symbol).map (·.toList)).getD []

theorem mentions_eq (t : LinkTable) (symbol : Text) :
    t.mentions symbol = listed t.byCandidate symbol := rfl

theorem mem_listed_upsert (table : Table Text (OrderedSet Text)) (key candidate : Text)
    (symbol j : Text) :
    j ∈ listed (table.upsert candidate ∅ (·.insert key)) symbol ↔
      j ∈ listed table symbol ∨ j = key ∧ symbol = candidate := by
  simp only [listed, Table.get?_upsert]
  by_cases hc : symbol = candidate
  · subst hc
    cases table.get? symbol with
    | none => simp [OrderedSet.toList_insert]
    | some keys =>
        have hm := OrderedSet.mem_insert (s := keys) (a := key) (b := j)
        simpa [OrderedSet.mem_def] using hm
  · simp [hc]

theorem mem_listed_forget (table : Table Text (OrderedSet Text)) (key candidate : Text)
    (symbol j : Text) :
    j ∈ listed (forget key candidate table) symbol ↔
      j ∈ listed table symbol ∧ ¬ (j = key ∧ symbol = candidate) := by
  have hupdate : j ∈ listed (table.update candidate (·.erase key)) symbol ↔
      j ∈ listed table symbol ∧ ¬ (j = key ∧ symbol = candidate) := by
    simp only [listed, Table.get?_update]
    by_cases hc : symbol = candidate
    · subst hc
      cases table.get? symbol with
      | none => simp
      | some keys =>
          have hm := OrderedSet.mem_erase (s := keys) (a := key) (b := j)
          simpa [OrderedSet.mem_def] using hm
    · simp [hc]
  rw [← hupdate, forget]
  by_cases he : ((table.update candidate (·.erase key)).get? candidate).any (·.isEmpty)
  · -- Only a candidate without keys is dropped, so nothing is lost with it.
    simp only [if_pos he, listed, Table.get?_erase]
    by_cases hc : symbol = candidate
    · subst hc
      cases hg : (table.update symbol (·.erase key)).get? symbol with
      | none => simp
      | some keys =>
          have hnil : keys.toList = [] := by simpa [hg, OrderedSet.isEmpty] using he
          simp [hnil]
    · simp [hc]
  · simp only [if_neg he]

theorem mem_listed_upsertAll (candidates : List Text) (table : Table Text (OrderedSet Text))
    (key symbol j : Text) :
    j ∈ listed (candidates.foldl (fun table candidate =>
        table.upsert candidate ∅ (·.insert key)) table) symbol ↔
      j ∈ listed table symbol ∨ j = key ∧ symbol ∈ candidates := by
  induction candidates generalizing table with
  | nil => simp
  | cons candidate candidates ih =>
      rw [List.foldl_cons, ih, mem_listed_upsert, List.mem_cons, or_assoc, ← and_or_left]

theorem mem_listed_forgetAll (candidates : List Text) (table : Table Text (OrderedSet Text))
    (key symbol j : Text) :
    j ∈ listed (candidates.foldl (fun table candidate => forget key candidate table) table)
        symbol ↔
      j ∈ listed table symbol ∧ ¬ (j = key ∧ symbol ∈ candidates) := by
  induction candidates generalizing table with
  | nil => simp
  | cons candidate candidates ih =>
      rw [List.foldl_cons, ih, mem_listed_forget, List.mem_cons, and_assoc, ← not_or,
        ← and_or_left]

/-! ## Operations -/

variable {t : LinkTable} {s s' : Store}

theorem add_of_registered {scope : Option Text} {text : Text}
    (h : (t.links.get? (linkKey scope text)).isSome) (s : Store) : t.add s scope text = t := by
  rw [add, if_pos (by rwa [Table.contains_eq_isSome_get?])]

theorem get?_add {scope : Option Text} {text : Text}
    (h : t.links.get? (linkKey scope text) = none) (s : Store) (j : Text) :
    (t.add s scope text).links.get? j =
      if j = linkKey scope text then
        some ⟨scope, text, candidates scope text, best? s (candidates scope text)⟩
      else t.links.get? j := by
  rw [add, if_neg (by simp [Table.contains_eq_isSome_get?, h])]
  simp [Table.get?_insertNew, h]

theorem get?_add_of_eq_some {j : Text} {link : Link} (h : t.links.get? j = some link) (s : Store)
    (scope : Option Text) (text : Text) : (t.add s scope text).links.get? j = some link := by
  cases hl : t.links.get? (linkKey scope text) with
  | some old =>
      rw [add_of_registered (by simp [hl])]
      exact h
  | none =>
      have hne : j ≠ linkKey scope text := by
        rintro rfl
        rw [hl] at h
        cases h
      rw [get?_add hl, if_neg hne]
      exact h

theorem mem_mentions_add {scope : Option Text} {text : Text}
    (h : t.links.get? (linkKey scope text) = none) (s : Store) (symbol j : Text) :
    j ∈ (t.add s scope text).mentions symbol ↔
      j ∈ t.mentions symbol ∨ j = linkKey scope text ∧ symbol ∈ candidates scope text := by
  rw [add, if_neg (by simp [Table.contains_eq_isSome_get?, h])]
  exact mem_listed_upsertAll _ _ _ _ _

theorem remove_of_unregistered {key : Text} (h : t.links.get? key = none) :
    t.remove key = t := by
  rw [remove, h]

theorem get?_remove (t : LinkTable) (key j : Text) :
    (t.remove key).links.get? j = if j = key then none else t.links.get? j := by
  cases h : t.links.get? key with
  | none =>
      rw [remove_of_unregistered h]
      by_cases hj : j = key
      · rw [if_pos hj, hj, h]
      · rw [if_neg hj]
  | some link => simp only [remove, h, Table.get?_erase]

theorem mem_mentions_remove {key : Text} {link : Link} (h : t.links.get? key = some link)
    (symbol j : Text) :
    j ∈ (t.remove key).mentions symbol ↔
      j ∈ t.mentions symbol ∧ ¬ (j = key ∧ symbol ∈ link.candidates) := by
  simp only [mentions_eq, remove, h]
  exact mem_listed_forgetAll _ _ _ _ _

/-- A link with its target found again. -/
def retargeted (s : Store) (link : Link) : Link := { link with target := best? s link.candidates }

theorem retargeted_of_eq {link : Link} (h : link.target = best? s link.candidates) :
    retargeted s link = link := by
  rw [retargeted, ← h]

theorem get?_retarget (s : Store) (t : LinkTable) (key j : Text) :
    (retarget s t key).1.links.get? j =
      if j = key then (t.links.get? j).map (retargeted s) else t.links.get? j := by
  simp only [retarget]
  cases h : t.links.get? key with
  | none =>
      by_cases hj : j = key <;> simp [hj, h]
  | some link =>
      by_cases ht : link.target = best? s link.candidates
      · by_cases hj : j = key
        · simp [ht, hj, h, retargeted_of_eq ht]
        · simp [ht, hj]
      · by_cases hj : j = key <;> simp [ht, hj, Table.get?_update, h, retargeted]

theorem mentions_retarget (s : Store) (t : LinkTable) (key symbol : Text) :
    (retarget s t key).1.mentions symbol = t.mentions symbol := by
  unfold retarget
  split
  · rfl
  · dsimp only
    split <;> rfl

theorem retarget_moved_iff (s : Store) (t : LinkTable) (key : Text) :
    (retarget s t key).2 = true ↔
      ∃ link, t.links.get? key = some link ∧ link.target ≠ best? s link.candidates := by
  simp only [retarget]
  cases h : t.links.get? key with
  | none => simp
  | some link => by_cases ht : link.target = best? s link.candidates <;> simp [ht]

theorem get?_retargetAll (s : Store) (t : LinkTable) (keys : List Text) (j : Text) :
    (retargetAll s t keys).1.links.get? j =
      if j ∈ keys then (t.links.get? j).map (retargeted s) else t.links.get? j := by
  induction keys generalizing t with
  | nil => simp [retargetAll]
  | cons key keys ih =>
      have hstep : (retargetAll s t (key :: keys)).1 =
          (retargetAll s (retarget s t key).1 keys).1 := rfl
      have htwice : retargeted s ∘ retargeted s = retargeted s := rfl
      rw [hstep, ih, get?_retarget]
      by_cases hj : j = key <;> by_cases hk : j ∈ keys <;> simp [hj, hk, htwice]

theorem mentions_retargetAll (s : Store) (t : LinkTable) (keys : List Text) (symbol : Text) :
    (retargetAll s t keys).1.mentions symbol = t.mentions symbol := by
  induction keys generalizing t with
  | nil => rfl
  | cons key keys ih => exact (ih _).trans (mentions_retarget s t key symbol)

theorem mem_moved_retargetAll (s : Store) (t : LinkTable) (keys : List Text) (j : Text) :
    j ∈ (retargetAll s t keys).2 ↔
      j ∈ keys ∧ ∃ link, t.links.get? j = some link ∧ link.target ≠ best? s link.candidates := by
  induction keys generalizing t with
  | nil => simp [retargetAll]
  | cons key keys ih =>
      have hstep : (retargetAll s t (key :: keys)).2 =
          if (retarget s t key).2 then key :: (retargetAll s (retarget s t key).1 keys).2
          else (retargetAll s (retarget s t key).1 keys).2 := rfl
      have hmem : j ∈ (retargetAll s t (key :: keys)).2 ↔
          (j = key ∧ (retarget s t key).2 = true) ∨
            j ∈ (retargetAll s (retarget s t key).1 keys).2 := by
        rw [hstep]
        by_cases hm : (retarget s t key).2 <;> simp [hm]
      rw [hmem, ih, retarget_moved_iff, get?_retarget, List.mem_cons]
      by_cases hj : j = key
      · -- A link that has moved once stays where it is.
        subst hj
        simp [retargeted]
      · simp [hj]

theorem resolve?_of_link {scope : Option Text} {text : Text} {link : Link}
    (h : t.links.get? (linkKey scope text) = some link) (s : Store) (file : FileName) :
    t.resolve? s scope text file = link.target.bind (Index.resolve? s file) := by
  simp only [resolve?, link?, h]

/-! ## Following the store -/

/-- The table holds what can be computed from the store. -/
structure Follows (t : LinkTable) (s : Store) : Prop where
  /-- The links are those that files define. -/
  registered : ∀ key, (t.links.get? key).isSome ↔ s.isDefined (linkItem key)
  origin : ∀ key link, t.links.get? key = some link →
    linkKey link.scope link.text = key ∧ link.candidates = candidates link.scope link.text
  target : ∀ key link, t.links.get? key = some link → link.target = best? s link.candidates
  mentioned : ∀ key symbol, key ∈ t.mentions symbol ↔
    ∃ link, t.links.get? key = some link ∧ symbol ∈ link.candidates

namespace Follows

theorem congr (h : t.Follows s)
    (hsymbols : ∀ symbol, s'.isDefined (symbolItem symbol) = s.isDefined (symbolItem symbol))
    (hlinks : ∀ key, s'.isDefined (linkItem key) = s.isDefined (linkItem key)) :
    t.Follows s' := by
  refine ⟨fun key => ?_, h.origin, fun key link hl => ?_, h.mentioned⟩
  · rw [hlinks]
    exact h.registered key
  · rw [best?_congr hsymbols]
    exact h.target key link hl

/-- A link is put into the table when a file defines it. -/
theorem add (h : t.Follows s) (scope : Option Text) (text : Text)
    (hnew : s'.isDefined (linkItem (linkKey scope text)))
    (hrest : ∀ id, id ≠ linkItem (linkKey scope text) → s'.isDefined id = s.isDefined id) :
    (t.add s scope text).Follows s' := by
  have hsymbols : ∀ symbol, s'.isDefined (symbolItem symbol) = s.isDefined (symbolItem symbol) :=
    fun symbol => hrest _ (by simp [symbolItem, linkItem])
  have hbest := best?_congr hsymbols
  have hregistered : ∀ j, s'.isDefined (linkItem j) ↔
      j = linkKey scope text ∨ s.isDefined (linkItem j) := by
    intro j
    by_cases hj : j = linkKey scope text
    · simp [hj, hnew]
    · rw [hrest _ (by simpa [linkItem] using hj)]
      simp [hj]
  cases hl : t.links.get? (linkKey scope text) with
  | some link =>
      have hsome : (t.links.get? (linkKey scope text)).isSome := by simp [hl]
      rw [add_of_registered hsome]
      refine h.congr hsymbols fun j => ?_
      rw [Bool.eq_iff_iff, hregistered]
      refine ⟨fun hj => hj.elim (fun e => ?_) id, Or.inr⟩
      rw [e]
      exact (h.registered _).mp hsome
  | none =>
      refine ⟨fun j => ?_, fun j link hj => ?_, fun j link hj => ?_, fun j symbol => ?_⟩
      · rw [get?_add hl, hregistered, ← h.registered]
        by_cases hj : j = linkKey scope text <;> simp [hj]
      · rw [get?_add hl] at hj
        split at hj
        · next he =>
            cases hj
            exact ⟨he.symm, rfl⟩
        · exact h.origin j link hj
      · rw [get?_add hl] at hj
        rw [hbest]
        split at hj
        · cases hj
          rfl
        · exact h.target j link hj
      · rw [mem_mentions_add hl, h.mentioned, get?_add hl]
        by_cases hj : j = linkKey scope text
        · subst hj
          simp [hl]
        · simp [hj]

/-- A link is taken from the table when no file defines it any more. -/
theorem remove (h : t.Follows s) (key : Text) (hgone : ¬ s'.isDefined (linkItem key))
    (hrest : ∀ id, id ≠ linkItem key → s'.isDefined id = s.isDefined id) :
    (t.remove key).Follows s' := by
  have hsymbols : ∀ symbol, s'.isDefined (symbolItem symbol) = s.isDefined (symbolItem symbol) :=
    fun symbol => hrest _ (by simp [symbolItem, linkItem])
  have hkept : ∀ j link, (t.remove key).links.get? j = some link ↔
      j ≠ key ∧ t.links.get? j = some link := by
    intro j link
    rw [get?_remove]
    by_cases hj : j = key <;> simp [hj]
  refine ⟨fun j => ?_, fun j link hj => ?_, fun j link hj => ?_, fun j symbol => ?_⟩
  · rw [get?_remove]
    by_cases hj : j = key
    · simpa [hj] using hgone
    · rw [if_neg hj, hrest _ (by simpa [linkItem] using hj)]
      exact h.registered j
  · exact h.origin j link ((hkept j link).mp hj).2
  · rw [best?_congr hsymbols]
    exact h.target j link ((hkept j link).mp hj).2
  · cases hl : t.links.get? key with
    | none =>
        rw [remove_of_unregistered hl]
        exact h.mentioned j symbol
    | some link =>
        rw [mem_mentions_remove hl, h.mentioned]
        simp only [hkept]
        by_cases hj : j = key
        · subst hj
          simp [hl]
        · simp [hj]

/-- The links that may mean a symbol find their targets again when its first definition comes or
its last one goes. -/
theorem retargetAll (h : t.Follows s) (symbol : Text)
    (hrest : ∀ id, id ≠ symbolItem symbol → s'.isDefined id = s.isDefined id) :
    (retargetAll s' t (t.mentions symbol)).1.Follows s' := by
  have hkept : ∀ j link, (LinkTable.retargetAll s' t (t.mentions symbol)).1.links.get? j =
      some link → ∃ old, t.links.get? j = some old ∧ link = retargeted s' old := by
    intro j link hj
    rw [get?_retargetAll] at hj
    split at hj
    · obtain ⟨old, hold, rfl⟩ := Option.map_eq_some_iff.mp hj
      exact ⟨old, hold, rfl⟩
    · next hm =>
        refine ⟨link, hj, (retargeted_of_eq ?_).symm⟩
        rw [h.target j link hj]
        refine (best?_eq_of_not_mem (fun hc => hm ?_) hrest).symm
        exact (h.mentioned j symbol).mpr ⟨link, hj, hc⟩
  refine ⟨fun j => ?_, fun j link hj => ?_, fun j link hj => ?_, fun j candidate => ?_⟩
  · rw [hrest _ (by simp [symbolItem, linkItem]), ← h.registered, get?_retargetAll]
    split <;> simp
  · obtain ⟨old, hold, rfl⟩ := hkept j link hj
    exact h.origin j old hold
  · obtain ⟨old, -, rfl⟩ := hkept j link hj
    rfl
  · rw [mentions_retargetAll, h.mentioned, get?_retargetAll]
    split
    · cases t.links.get? j <;> simp [retargeted]
    · rfl

end Follows

/-! ## Clean scopes -/

/-- No link has a separator in its scope. -/
def CleanScopes (t : LinkTable) : Prop :=
  ∀ key link, t.links.get? key = some link → CleanScope link.scope

namespace CleanScopes

theorem add (h : t.CleanScopes) (s : Store) {scope : Option Text} (hscope : CleanScope scope)
    (text : Text) : (t.add s scope text).CleanScopes := by
  intro j link hj
  cases hl : t.links.get? (linkKey scope text) with
  | some old =>
      rw [add_of_registered (by simp [hl])] at hj
      exact h j link hj
  | none =>
      rw [get?_add hl] at hj
      split at hj
      · cases hj
        exact hscope
      · exact h j link hj

theorem remove (h : t.CleanScopes) (key : Text) : (t.remove key).CleanScopes := by
  intro j link hj
  rw [get?_remove] at hj
  split at hj
  · cases hj
  · exact h j link hj

theorem retargetAll (h : t.CleanScopes) (s : Store) (keys : List Text) :
    (retargetAll s t keys).1.CleanScopes := by
  intro j link hj
  rw [get?_retargetAll] at hj
  split at hj
  · obtain ⟨old, hold, rfl⟩ := Option.map_eq_some_iff.mp hj
    exact h j old hold
  · exact h j link hj

end CleanScopes

theorem follows_empty : ({} : LinkTable).Follows { extensions := Index.extensions } := by
  refine ⟨fun key => ?_, fun key link hl => ?_, fun key link hl => ?_, fun key symbol => ?_⟩
  · exact iff_of_false Bool.false_ne_true Bool.false_ne_true
  · cases hl
  · cases hl
  · exact iff_of_false List.not_mem_nil fun ⟨_, hl, _⟩ => by cases hl

end LinkTable

end Commentary.Index
