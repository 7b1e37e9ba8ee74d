import Commentary.Proofs.Successive
import Commentary.Topic.Delineate
import Mathlib.Data.List.Induction

/-!
# Packages and their delineators

Reading some topics in order tells which package is open behind them. Delineators are put between
topics so that every member stands where its own package is open. Where it does already nothing is
put in, so a second pass changes nothing.
-/

namespace Commentary.Topic

/-! ## The open package -/

/-- The package that is open behind a topic, from the one that is open before it. -/
def packageAfter (current : Option Text) (t : Topic) : Option Text :=
  match t.scopeRule with
  | .opens => some t.title
  | .closes => none
  | .global | .member => current

/-- The package that is open behind some topics, where none is open at the start. -/
def packageBehind (topics : List Topic) : Option Text := topics.foldl packageAfter none

/-- A package was opened by one of some topics. -/
def Opened (package : Text) (topics : List Topic) : Prop :=
  ∃ t ∈ topics, t.scopeRule = .opens ∧ t.title = package

/-- A topic that is a member of a package has the open one for it. -/
def AtHome (before : List Topic) (t : Topic) : Prop :=
  t.scopeRule = .member → t.package = packageBehind before

instance (package : Text) (topics : List Topic) : Decidable (Opened package topics) :=
  inferInstanceAs (Decidable (∃ t ∈ topics, t.scopeRule = .opens ∧ t.title = package))

instance (before : List Topic) (t : Topic) : Decidable (AtHome before t) :=
  inferInstanceAs (Decidable (_ → _))

theorem packageBehind_concat (topics : List Topic) (t : Topic) :
    packageBehind (topics ++ [t]) = packageAfter (packageBehind topics) t := by
  rw [packageBehind, List.foldl_concat]
  rfl

theorem opened_concat {package : Text} {topics : List Topic} {t : Topic} :
    Opened package (topics ++ [t]) ↔
      Opened package topics ∨ t.scopeRule = .opens ∧ t.title = package := by
  simp [Opened, or_and_right, exists_or]

/-! ## One topic after the other -/

/-- The delineator that a topic needs behind other topics. -/
def delineator? (before : List Topic) (t : Topic) : Option Topic :=
  if AtHome before t then none
  else some (delineator t.package (t.package.any fun p => Opened p before) t.line)

/-- Puts a topic behind others, and its delineator before it. -/
def putBehind (before : List Topic) (t : Topic) : List Topic :=
  before ++ (delineator? before t).toList ++ [t]

/-- What is kept while delineators are put between topics. -/
structure Tracks (before : List Topic) (current : Option Text) (opened : List Text) : Prop where
  current : packageBehind before = current
  opened : ∀ p, p ∈ opened ↔ Opened p before

namespace Tracks

variable {before : List Topic} {current : Option Text} {opened : List Text} {t : Topic}

theorem nil : Tracks [] none [] where
  current := rfl
  opened p := by simp [Opened]

theorem opens (h : Tracks before current opened) (ht : t.scopeRule = .opens) :
    Tracks (before ++ [t]) (some t.title) (t.title :: opened) where
  current := by rw [packageBehind_concat, packageAfter, ht]
  opened p := by
    rw [List.mem_cons, h.opened, opened_concat, or_comm, eq_comm]
    simp [ht]

theorem of_ne_opens (h : Tracks before current opened) (ht : t.scopeRule ≠ .opens) :
    Tracks (before ++ [t]) (packageAfter current t) opened where
  current := by rw [packageBehind_concat, h.current]
  opened p := by simp [h.opened, opened_concat, ht]

/-- The delineator of a package opens it, and the one of no package closes what is open. -/
theorem delineator (h : Tracks before current opened) (package : Option Text) (wasOpened : Bool)
    (line : Nat) : Tracks (before ++ [delineator package wasOpened line]) package
      (package.toList ++ opened) := by
  cases package with
  | none => exact h.of_ne_opens nofun
  | some package => cases wasOpened <;> exact h.opens rfl

end Tracks

theorem putBehind_of_atHome {before : List Topic} {t : Topic} (h : AtHome before t) :
    putBehind before t = before ++ [t] := by
  simp [putBehind, delineator?, h]

theorem putBehind_of_not_atHome {before : List Topic} {t : Topic} (h : ¬ AtHome before t) :
    putBehind before t =
      before ++ [delineator t.package (t.package.any fun p => Opened p before) t.line] ++ [t] := by
  simp [putBehind, delineator?, h]

/-- Delineation puts the next topic behind those before it. -/
theorem Tracks.put {before : List Topic} {current : Option Text} {opened : List Text}
    (h : Tracks before current opened) (t : Topic) :
    ∃ current' opened', Tracks (putBehind before t) current' opened' ∧
      ∀ topics, before ++ delineateFrom current opened (t :: topics) =
        putBehind before t ++ delineateFrom current' opened' topics := by
  by_cases hhome : AtHome before t
  · rw [putBehind_of_atHome hhome]
    cases hrule : t.scopeRule with
    | opens => exact ⟨_, _, h.opens hrule, by simp [delineateFrom, hrule]⟩
    | member =>
        have hpackage : t.package = current := (hhome hrule).trans h.current
        exact ⟨_, _, h.of_ne_opens (by simp [hrule]),
          by simp [delineateFrom, packageAfter, hrule, hpackage]⟩
    | _ =>
        exact ⟨_, _, h.of_ne_opens (by simp [hrule]),
          by simp [delineateFrom, packageAfter, hrule]⟩
  · rw [putBehind_of_not_atHome hhome]
    obtain ⟨hrule, hpackage⟩ := Classical.not_imp.mp hhome
    rw [h.current] at hpackage
    have hopened : (t.package.any fun p => Opened p before) = t.package.any opened.contains := by
      cases t.package <;> simp [h.opened]
    refine ⟨_, _, (h.delineator t.package _ t.line).of_ne_opens (by simp [hrule]), ?_⟩
    simp [delineateFrom, packageAfter, hrule, hpackage, hopened]

/-- Delineation puts one topic after the other behind those before it. -/
theorem append_delineateFrom {before : List Topic} {current : Option Text} {opened : List Text}
    (h : Tracks before current opened) (topics : List Topic) :
    before ++ delineateFrom current opened topics = topics.foldl putBehind before := by
  induction topics generalizing before current opened with
  | nil => exact List.append_nil before
  | cons t topics ih =>
      obtain ⟨current', opened', hput, hrest⟩ := h.put t
      rw [hrest, ih hput, List.foldl_cons]

theorem delineate_eq_foldl (topics : List Topic) : delineate topics = topics.foldl putBehind [] :=
  append_delineateFrom .nil topics

theorem delineate_concat (topics : List Topic) (t : Topic) :
    delineate (topics ++ [t]) = putBehind (delineate topics) t := by
  rw [delineate_eq_foldl, delineate_eq_foldl, List.foldl_concat]

theorem delineate_isPrefix (before after : List Topic) :
    delineate before <+: delineate (before ++ after) := by
  induction after using List.reverseRecOn with
  | nil => simp
  | append_singleton after t ih =>
      rw [← List.append_assoc, delineate_concat, putBehind, List.append_assoc]
      exact ih.trans (List.prefix_append _ _)

/-! ## Members at home -/

theorem packageAfter_delineator (current package : Option Text) (wasOpened : Bool) (line : Nat) :
    packageAfter current (delineator package wasOpened line) = package := by
  cases package with
  | none => rfl
  | some package => cases wasOpened <;> rfl

theorem scopeRule_delineator_ne_member (package : Option Text) (wasOpened : Bool) (line : Nat) :
    (delineator package wasOpened line).scopeRule ≠ .member := by
  cases package with
  | none => nofun
  | some package => cases wasOpened <;> nofun

theorem successive_putBehind {before : List Topic} (h : Successive AtHome before) (t : Topic) :
    Successive AtHome (putBehind before t) := by
  by_cases hhome : AtHome before t
  · rw [putBehind_of_atHome hhome]
    exact Successive.concat_iff.mpr ⟨h, hhome⟩
  · rw [putBehind_of_not_atHome hhome]
    refine Successive.concat_iff.mpr ⟨Successive.concat_iff.mpr ⟨h, fun hrule => ?_⟩, fun _ => ?_⟩
    · exact absurd hrule (scopeRule_delineator_ne_member _ _ _)
    · rw [packageBehind_concat, packageAfter_delineator]

theorem successive_delineate (topics : List Topic) : Successive AtHome (delineate topics) := by
  induction topics using List.reverseRecOn with
  | nil => exact .nil
  | append_singleton topics t ih =>
      rw [delineate_concat]
      exact successive_putBehind ih t

/-- Topics that stand where their packages are open need no delineators. -/
theorem delineate_eq_self {topics : List Topic} (h : Successive AtHome topics) :
    delineate topics = topics := by
  induction topics using List.reverseRecOn with
  | nil => rfl
  | append_singleton topics t ih =>
      obtain ⟨htopics, ht⟩ := Successive.concat_iff.mp h
      rw [delineate_concat, ih htopics, putBehind_of_atHome ht]

theorem sublist_delineate (topics : List Topic) : topics.Sublist (delineate topics) := by
  induction topics using List.reverseRecOn with
  | nil => exact List.nil_sublist _
  | append_singleton topics t ih =>
      rw [delineate_concat, putBehind]
      exact (ih.trans (List.sublist_append_left _ _)).append_right [t]

/-- A delineator for a topic behind other ones: a section where the topic lies in no package, and
the class again where it lies in one, which says so if the class was opened before. -/
structure Introduces (before : List Topic) (t d : Topic) : Prop where
  isDelineator : d.isDelineator = true
  line : d.line = t.line
  closes : t.package = none → d.kind = .single .sectionType ∧ d.title = globalTitle
  opens : ∀ p, t.package = some p → d.kind = .single .classType ∧ d.title = p ∧
    (d.body = some continuedBody ↔ Opened p before)

theorem introduces_restated {before : List Topic} {t : Topic} {p : Text} {wasOpened : Bool}
    (hpackage : t.package = some p) (hopened : wasOpened = true ↔ Opened p before) :
    Introduces before t (delineator (some p) wasOpened t.line) where
  isDelineator := by cases wasOpened <;> rfl
  line := by cases wasOpened <;> rfl
  closes hnone := nomatch hpackage.symm.trans hnone
  opens q hq := by
    obtain rfl := Option.some_inj.mp (hpackage.symm.trans hq)
    rw [← hopened]
    cases wasOpened with
    | false => exact ⟨rfl, rfl, iff_of_false nofun nofun⟩
    | true => exact ⟨rfl, rfl, iff_of_true rfl rfl⟩

theorem introduces_delineator (before : List Topic) (t : Topic) :
    Introduces before t
      (delineator t.package (t.package.any fun p => Opened p before) t.line) := by
  cases hpackage : t.package with
  | none => exact ⟨rfl, rfl, fun _ => ⟨rfl, rfl⟩, fun p hp => nomatch hpackage.symm.trans hp⟩
  | some p => exact introduces_restated hpackage decide_eq_true_iff

theorem introduces_of_delineator? {before : List Topic} {t d : Topic}
    (h : delineator? before t = some d) : Introduces before t d := by
  obtain ⟨-, hd⟩ := Option.ite_none_left_eq_some.mp h
  exact Option.some_inj.mp hd ▸ introduces_delineator before t

/-! ## Lines -/

/-- Topics stand in the order of their lines. -/
def InLineOrder (topics : List Topic) : Prop := topics.Pairwise fun t u => t.line ≤ u.line

theorem exists_line_of_mem_delineate {topics : List Topic} {u : Topic} (h : u ∈ delineate topics) :
    ∃ t ∈ topics, t.line = u.line := by
  induction topics using List.reverseRecOn with
  | nil => cases h
  | append_singleton topics t ih =>
      rw [delineate_concat, putBehind, List.mem_append, List.mem_append] at h
      rcases h with (h | h) | h
      · obtain ⟨t', ht', hline⟩ := ih h
        exact ⟨t', List.mem_append_left _ ht', hline⟩
      · have hline := (introduces_of_delineator? (Option.mem_toList.mp h)).line
        exact ⟨t, List.mem_append_right _ List.mem_cons_self, hline.symm⟩
      · exact ⟨u, List.mem_append_right _ h, rfl⟩

/-- A delineator has the line of the topic that it is put before. -/
theorem inLineOrder_delineate {topics : List Topic} (h : InLineOrder topics) :
    InLineOrder (delineate topics) := by
  induction topics using List.reverseRecOn with
  | nil => exact h
  | append_singleton topics t ih =>
      obtain ⟨htopics, -, hlast⟩ := List.pairwise_append.mp h
      have hle : ∀ u ∈ delineate topics, u.line ≤ t.line := fun u hu => by
        obtain ⟨t', ht', hline⟩ := exists_line_of_mem_delineate hu
        exact hline ▸ hlast t' ht' t List.mem_cons_self
      have hinserted : ∀ d ∈ (delineator? (delineate topics) t).toList, d.line = t.line :=
        fun d hd => (introduces_of_delineator? (Option.mem_toList.mp hd)).line
      rw [delineate_concat, putBehind, List.append_assoc]
      refine List.pairwise_append.mpr ⟨ih htopics, ?_, fun u hu v hv => ?_⟩
      · cases hd : delineator? (delineate topics) t with
        | none => exact List.pairwise_singleton _ _
        | some d =>
            rw [hd] at hinserted
            exact List.pairwise_pair.mpr (Nat.le_of_eq (hinserted d List.mem_cons_self))
      · rcases List.mem_append.mp hv with hv | hv
        · exact hinserted v hv ▸ hle u hu
        · exact List.mem_singleton.mp hv ▸ hle u hu

/-! ## Delineation as a whole -/

/-- Delineation puts every member where its own package is open. It keeps the topics as they are
and in their order, and puts a delineator before a topic exactly if that is a member of another
package than the one that is open there. A second delineation has nothing to do. -/
theorem atHome_delineate (topics : List Topic) :
    Successive AtHome (delineate topics) ∧
      topics.Sublist (delineate topics) ∧
      Successive (fun before t => ∃ inserted : Option Topic,
        delineate (before ++ [t]) = delineate before ++ inserted.toList ++ [t] ∧
          delineate (before ++ [t]) <+: delineate topics ∧
          (inserted.isSome ↔
            t.scopeRule = .member ∧ t.package ≠ packageBehind (delineate before)) ∧
          ∀ d, inserted = some d → Introduces (delineate before) t d) topics ∧
      delineate (delineate topics) = delineate topics := by
  refine ⟨successive_delineate topics, sublist_delineate topics, ?_,
    delineate_eq_self (successive_delineate topics)⟩
  rintro before t after rfl
  refine ⟨delineator? (delineate before) t, delineate_concat before t, ?_, ?_,
    fun d => introduces_of_delineator?⟩
  · simpa using delineate_isPrefix (before ++ [t]) after
  · rw [delineator?, Option.isSome_ite']
    exact Classical.not_imp

/-- A class that is open no longer is continued for a member of it. -/
example :
    let topics : List Topic := [{ kind := .single .classType, title := ['A'], line := 1 },
      { kind := .single .sectionType, title := ['B'], line := 2 },
      { kind := .single .functionType, title := ['f'], line := 3, package := some ['A'] }]
    (delineate topics).map (·.body) = [none, none, some continuedBody, none] := by
  decide +kernel

end Commentary.Topic
