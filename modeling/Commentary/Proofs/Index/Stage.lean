import Commentary.Proofs.Index.Occasion
import Commentary.Proofs.Store.Retry

/-!
# Stages of a change

A file that is read again first claims what it says now, and then its differences are settled. On
the way it may say something that it does not say in the end, or that it did not say before. At
every stage, what a move marks another file for is an occasion of the change as a whole.
-/

namespace Commentary

open Index

namespace Project

variable {file g : FileName} {s t : Store} {x y : Project}

/-- A project on the way from one store to another, between which only one file changes what it
says. Nothing is said that is not said before or afterwards. -/
structure Stage (file : FileName) (s t : Store) (x : Project) : Prop where
  sound : x.Sound
  scopes : x.derived.links.CleanScopes
  mirrors : x.derived.classes.Mirrors x.store
  others : ∀ id g, g ≠ file → (g ∈ t.definers id ↔ g ∈ s.definers id)
  upper : ∀ id g, g ∈ x.store.definers id → g ∈ s.definers id ∨ g ∈ t.definers id

/-- A claim with clean texts that a file makes in the end. -/
def Lasting (file : FileName) (t : Store) (c : Claim) : Prop :=
  c.CleanLink ∧ c.CleanStep ∧ file ∈ t.definers c.item

/-- A move makes no definition but the one that it claims. -/
theorem Move.mem_definers_of_mem {ok : Claim → Prop} (h : Move ok file x y) {id : ItemId}
    (hid : g ∈ y.store.definers id) :
    g ∈ x.store.definers id ∨ ∃ c, ok c ∧ id = c.item ∧ g = file := by
  cases h with
  | @accept c hc =>
      rw [store_accept, Store.mem_definers_claim] at hid
      exact hid.imp_right fun h => ⟨c, hc, h⟩
  | @follow d _ =>
      rw [(alike_follow x file d).definers, Difference.mem_definers_commit_iff] at hid
      exact .inl hid.1
  | watched w => exact .inl hid
  | forgetIfEmpty =>
      rw [(Store.alike_forgetIfEmpty x.store file).definers] at hid
      exact .inl hid

theorem isDefined_of_definers {id : ItemId} (h : ∀ f, f ∈ s.definers id → f ∈ t.definers id)
    (hd : s.isDefined id) : t.isDefined id := by
  obtain ⟨f, hf⟩ := (Store.isDefined_iff_exists s id).mp hd
  exact Store.isDefined_of_mem (h f hf)

namespace Stage

variable (h : Stage file s t x)

include h

theorem move (hmove : Move (Lasting file t) file x y) : Stage file s t y where
  sound := hmove.sound h.sound
  scopes := hmove.cleanScopes (fun _ hc => hc.1) h.scopes
  mirrors := hmove.mirrors (fun _ hc => hc.2.1) h.mirrors
  others := h.others
  upper id g hg := by
    rcases hmove.mem_definers_of_mem hg with hg | ⟨c, hc, rfl, rfl⟩
    · exact h.upper id g hg
    · exact .inr hc.2.2

/-- Another file says on the way what it says before. -/
theorem mem_definers (hg : g ≠ file) {id : ItemId} (hid : g ∈ x.store.definers id) :
    g ∈ s.definers id :=
  (h.upper id g hid).elim (fun hs => hs) (h.others id g hg).mp

theorem isDefined {id : ItemId} (hid : x.store.isDefined id) : s.isDefined id ∨ t.isDefined id := by
  simp only [Store.isDefined_iff_exists] at hid ⊢
  obtain ⟨g, hg⟩ := hid
  exact (h.upper id g hg).imp (⟨g, ·⟩) (⟨g, ·⟩)

end Stage

/-- A stage at which claims are recorded: nothing is missing that is said before. -/
structure Claiming (file : FileName) (s t : Store) (x : Project) : Prop
    extends Stage file s t x where
  lower : ∀ id f, f ∈ s.definers id → f ∈ x.store.definers id

/-- A stage at which differences are settled: nothing is missing that is said afterwards. -/
structure Settling (file : FileName) (s t : Store) (x : Project) : Prop
    extends Stage file s t x where
  lower : ∀ id f, f ∈ t.definers id → f ∈ x.store.definers id

namespace Claiming

variable (h : Claiming file s t x)

include h

theorem accept {c : Claim} (hc : Lasting file t c) : Claiming file s t (x.accept file c) :=
  ⟨h.move (.accept x hc), fun id f hf => mem_definers_accept (h.lower id f hf) file c⟩

theorem occasion_accept (hg : g ≠ file) {c : Claim} (hc : Lasting file t c)
    (hmark : g ∈ (x.accept file c).derived.rebuild) :
    g ∈ x.derived.rebuild ∨ Occasion file g s t := by
  have hway : s.Rising t x.store (x.accept file c).store :=
    ⟨fun id => isDefined_of_definers (h.lower id),
      fun id => isDefined_of_definers fun f hf => mem_definers_accept hf file c,
      fun id => (h.accept hc).isDefined⟩
  refine (Project.occasion_accept hg hc.2.1 h.sound.links h.scopes h.mirrors hmark).imp_right ?_
  intro hoccasion
  refine hoccasion.widen (.inl hway) (fun id => h.mem_definers hg) fun l symbol _ htaken => ?_
  exact absurd htaken (not_takesBack_accept x file c _)

end Claiming

namespace Settling

variable (h : Settling file s t x) {d : Difference}
  (hresult : t.definition? d.item file = d.result)

include h hresult

theorem mem_definers_commit {id : ItemId} {f : FileName} (hf : f ∈ t.definers id) :
    f ∈ (d.commit file x.store).definers id := by
  refine (Difference.mem_definers_commit_iff d x.store id f).mpr ⟨h.lower id f hf, ?_⟩
  rintro ⟨hnone, rfl, rfl⟩
  exact (Store.definition?_eq_none_iff _ _ _).mp (hresult.trans hnone) hf

theorem follow (hv : d.Valid file x.store) : Settling file s t (x.follow file d) := by
  refine ⟨h.move (.follow hv), fun id f hf => ?_⟩
  rw [(alike_follow x file d).definers]
  exact h.mem_definers_commit hresult hf

/-- What is still said after a difference is said in the end. -/
theorem isDefined_of_commit (hv : d.Valid file x.store)
    (hd : (d.commit file x.store).isDefined d.item) : t.isDefined d.item := by
  obtain ⟨f, hf⟩ := (Store.isDefined_iff_exists _ _).mp hd
  have hkept : f ∈ t.definers d.item := by
    by_cases hfile : f = file
    · have hself := d.definition?_commit_self hv.mem_definers
      rw [← Store.isSome_definition?_iff, hfile] at hf ⊢
      rwa [hresult, ← hself]
    · have hbefore := ((Difference.mem_definers_commit_iff d x.store _ f).mp hf).1
      exact (h.others _ f hfile).mpr (h.mem_definers hfile hbefore)
  exact Store.isDefined_of_mem hkept

theorem occasion_follow (hg : g ≠ file) (hv : d.Valid file x.store)
    (hitem : x.store.definitions d.item = s.definitions d.item)
    (hdiffers : s.definition? d.item file ≠ d.result)
    (hmark : g ∈ (x.follow file d).derived.rebuild) :
    g ∈ x.derived.rebuild ∨ Occasion file g s t := by
  have hway : t.Rising s (d.commit file x.store) x.store :=
    ⟨fun id => isDefined_of_definers fun f => h.mem_definers_commit hresult,
      fun id => isDefined_of_definers fun f hf =>
        ((Difference.mem_definers_commit_iff d x.store id f).mp hf).1,
      fun id hd => (h.isDefined hd).symm⟩
  have hdiffers' : x.store.definition? d.item file ≠ d.result := by
    rwa [Store.definition?_eq, hitem, ← Store.definition?_eq]
  refine (Project.occasion_follow h.sound.links h.scopes h.mirrors hv hdiffers' hmark).imp_right ?_
  intro hoccasion
  refine hoccasion.widen (.inr hway) (fun id => h.mem_definers hg) fun l symbol hbest htaken => ?_
  -- The definition that is taken back is the one that differs.
  have hid : symbolItem symbol = d.item := by
    by_contra hne
    apply htaken.differs
    rw [Store.definition?_eq, Difference.definitions_commit, if_neg hne, ← Store.definition?_eq]
  have hkept : t.isDefined (symbolItem symbol) := by
    have hd := isDefined_of_best?_eq_some hbest
    rw [hid] at hd ⊢
    exact h.isDefined_of_commit hresult hv hd
  refine ⟨best?_of_fewer hbest hway.lower hkept, ?_, ?_⟩
  · rw [hid, hresult]
    exact hdiffers.symm
  · have hcounts := htaken.counts
    rw [hid, d.definition?_commit_self hv.mem_definers, Store.authoritative?_eq, hitem,
      ← Store.authoritative?_eq] at hcounts
    rwa [hid, hresult]

end Settling

end Project

end Commentary
