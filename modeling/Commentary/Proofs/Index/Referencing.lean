import Commentary.Proofs.Index.Operation
import Commentary.Proofs.Index.Without

/-!
# Which files refer to a symbol

What has to be written again is found by way of the files with links to a symbol, and these files
by way of the keys that the link table holds under it. Nothing is missing from these keys and
nothing stays behind in them, so the files are those that the definitions of links give.
-/

namespace Commentary.Index

namespace LinkTable

variable {t : LinkTable} {s : Store}

namespace Follows

theorem mem_leadingTo (h : t.Follows s) (symbol key : Text) :
    key ∈ t.leadingTo symbol ↔
      ∃ link, t.links.get? key = some link ∧ link.target = some symbol := by
  rw [leadingTo, List.mem_filter, h.mentioned]
  constructor
  · rintro ⟨⟨link, hl, -⟩, htarget⟩
    rw [hl] at htarget
    exact ⟨link, hl, by simpa using htarget⟩
  · rintro ⟨link, hl, htarget⟩
    have hbest : best? s link.candidates = some symbol := (h.target key link hl).symm.trans htarget
    exact ⟨⟨link, hl, mem_of_best?_eq_some hbest⟩, by simp [hl, htarget]⟩

theorem mem_referencingFiles (h : t.Follows s) (symbol : Text) (file : FileName) :
    file ∈ t.referencingFiles s symbol ↔
      ∃ key link, t.links.get? key = some link ∧ link.target = some symbol ∧
        (s.definition? (linkItem key) file).isSome := by
  rw [referencingFiles, OrderedSet.mem_ofList, List.mem_flatMap]
  constructor
  · rintro ⟨key, hkey, hfile⟩
    obtain ⟨link, hl, htarget⟩ := (h.mem_leadingTo symbol key).mp hkey
    exact ⟨key, link, hl, htarget, (Store.isSome_definition?_iff _ _ _).mpr hfile⟩
  · rintro ⟨key, link, hl, htarget, hfile⟩
    exact ⟨key, (h.mem_leadingTo symbol key).mpr ⟨link, hl, htarget⟩,
      (Store.isSome_definition?_iff _ _ _).mp hfile⟩

end Follows

/-- The table knows the links that files define, it holds each of them under its candidates and
under nothing else, and from that it finds the files with links to a symbol. -/
structure Accounts (t : LinkTable) (s : Store) : Prop where
  registered : ∀ key, (t.links.get? key).isSome ↔ ∃ file, (s.definition? (linkItem key) file).isSome
  referencing : ∀ symbol file, file ∈ t.referencingFiles s symbol ↔
    ∃ key link, t.links.get? key = some link ∧ link.target = some symbol ∧
      (s.definition? (linkItem key) file).isSome
  nodup : ∀ symbol, (t.referencingFiles s symbol).Nodup
  listed : ∀ symbol key, (∃ keys, t.byCandidate.get? symbol = some keys ∧ key ∈ keys) ↔
    ∃ link, t.links.get? key = some link ∧ symbol ∈ link.candidates
  noneEmpty : ∀ symbol keys, t.byCandidate.get? symbol = some keys → keys ≠ ∅

theorem Follows.accounts (h : t.Follows s) (hkeys : NoneEmpty t.byCandidate) : t.Accounts s where
  registered key := by
    rw [h.registered, Store.isDefined_iff_exists]
    exact exists_congr fun file => (Store.isSome_definition?_iff s (linkItem key) file).symm
  referencing := h.mem_referencingFiles
  nodup symbol := OrderedSet.nodup _
  listed symbol key := by
    rw [← h.mentioned, mentions]
    cases t.byCandidate.get? symbol with
    | none => simp
    | some keys => simp [OrderedSet.mem_def]
  noneEmpty symbol keys hget := by
    rintro rfl
    exact hkeys symbol ∅ hget rfl

end LinkTable

/-- The link table accounts for the links of the store after every run of operations, whatever
texts they consist of. -/
theorem accounts_performAll (os : List Operation) :
    (Operation.performAll os).derived.links.Accounts (Operation.performAll os).store := by
  have hos : ∀ o ∈ os, o.Claims fun _ => True := by
    rintro (⟨file, c⟩ | file | _) -
    all_goals trivial
  have hempty : LinkTable.NoneEmpty Project.empty.derived.links.byCandidate := by
    intro symbol keys hget
    cases hget
  obtain ⟨hsound, hkeys⟩ := Operation.performAll_induction
    (I := fun p => LinkTable.NoneEmpty p.derived.links.byCandidate) hos hempty
    fun _ _ _ hmove => hmove.noneEmpty
  exact hsound.links.accounts hkeys

end Commentary.Index
