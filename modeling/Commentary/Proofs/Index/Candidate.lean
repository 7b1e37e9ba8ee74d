import Commentary.Proofs.Index.Links
import Commentary.Proofs.Text.Parts
import Mathlib.Data.List.Infix
import Mathlib.Data.List.Nodup

/-!
# The order of candidates

The candidates of a link go through the forms of its text, and for each form through the packages
of its scope from the innermost outwards. The number of dots in a candidate tells its package, so
no candidate comes twice, and what stands before a candidate takes a link away from it.
-/

namespace Commentary

namespace Text

variable {p : Char → Bool} {t before behind : Text}

theorem not_of_cutAtLast? (h : cutAtLast? p t = none) : ∀ c ∈ t, ¬ p c := by
  induction t with
  | nil => simp
  | cons c t ih =>
      rw [cutAtLast?] at h
      split at h
      · cases h
      · next hnone =>
          split_ifs at h with hc
          exact List.forall_mem_cons.mpr ⟨hc, ih hnone⟩

theorem eq_append_of_cutAtLast? (h : cutAtLast? p t = some (before, behind)) :
    ∃ c, p c ∧ t = before ++ c :: behind ∧ ∀ d ∈ behind, ¬ p d := by
  induction t generalizing before with
  | nil => cases h
  | cons c t ih =>
      rw [cutAtLast?] at h
      split at h
      · next start rest hcut =>
          cases h
          obtain ⟨d, hd, rfl, hrest⟩ := ih hcut
          exact ⟨d, hd, rfl, hrest⟩
      · next hnone =>
          split_ifs at h with hc
          cases h
          exact ⟨c, hc, rfl, not_of_cutAtLast? hnone⟩

theorem eq_append_of_beforeEnd? {mark : Text} (h : beforeEnd? mark t = some before) :
    t = before ++ mark := by
  rw [beforeEnd?] at h
  split_ifs at h with hsuffix
  obtain ⟨start, rfl⟩ := List.isSuffixOf_iff_suffix.mp hsuffix
  cases h
  simp

end Text

namespace Name

/-- How many packages a name says it is in. -/
def depth (name : Text) : Nat := name.count separator

@[simp]
theorem depth_qualify (package name : Text) :
    depth (qualify package name) = depth package + 1 + depth name := by
  simp only [depth, qualify, List.count_append, List.count_cons_self]
  omega

theorem not_mem_of_package? {name : Text} (h : package? name = none) : separator ∉ name := by
  intro hmem
  have hnone := Option.map_eq_none_iff.mp h
  simpa using Text.not_of_cutAtLast? hnone separator hmem

theorem eq_qualify_of_package? {name outer : Text} (h : package? name = some outer) :
    ∃ own, name = qualify outer own ∧ separator ∉ own := by
  obtain ⟨⟨before, own⟩, hcut, rfl⟩ := Option.map_eq_some_iff.mp h
  obtain ⟨c, hc, rfl, hown⟩ := Text.eq_append_of_cutAtLast? hcut
  refine ⟨own, ?_, fun hmem => ?_⟩
  · rw [qualify, of_decide_eq_true hc]
  · simpa using hown separator hmem

theorem splitOn_qualify {package own : Text} (h : separator ∉ own) :
    (qualify package own).splitOn separator = package.splitOn separator ++ [own] := by
  rw [qualify, List.splitOn_append_cons_self, List.splitOn_eq_singleton h]

end Name

namespace Index

/-! ## Packages of a scope -/

/-- The prefixes of one or more of some segments, the longest first. -/
def prefixes (segments : List Text) : List (List Text) := segments.inits.tail.reverse

theorem prefixes_concat (segments : List Text) (segment : Text) :
    prefixes (segments ++ [segment]) = (segments ++ [segment]) :: prefixes segments := by
  simp only [prefixes, List.inits_append]
  cases segments <;> simp

/-- The packages that a scope names: all prefixes of one or more of the segments between its dots,
the longest first. An empty scope names none. -/
def levels (scope : Option Text) : List Text :=
  match scope.filter (· ≠ []) with
  | none => []
  | some s => (prefixes (s.splitOn Name.separator)).map ([Name.separator].intercalate ·)

theorem cons_outerPackages {fuel : Nat} {package : Text} (h : package.length ≤ fuel) :
    package :: outerPackages fuel package =
      (prefixes (package.splitOn Name.separator)).map ([Name.separator].intercalate ·) := by
  induction fuel generalizing package with
  | zero =>
      rw [List.eq_nil_of_length_eq_zero (Nat.le_zero.mp h)]
      rfl
  | succ fuel ih =>
      rw [outerPackages]
      cases houter : Name.package? package with
      | none =>
          rw [List.splitOn_eq_singleton (Name.not_mem_of_package? houter)]
          simp [prefixes]
      | some outer =>
          obtain ⟨own, rfl, hown⟩ := Name.eq_qualify_of_package? houter
          have hlength : outer.length ≤ fuel := by
            simp only [Name.qualify, List.length_append, List.length_cons] at h
            omega
          rw [Name.splitOn_qualify hown, prefixes_concat, ← Name.splitOn_qualify hown,
            List.map_cons, List.intercalate_splitOn, ← ih hlength]

theorem scopeChain_eq_levels (scope : Option Text) : scopeChain scope = levels scope := by
  match scope with
  | none => rfl
  | some [] => rfl
  | some (c :: t) => exact cons_outerPackages (Nat.le_refl _)

/-- Each package of a scope lies in fewer packages than the one before it. -/
theorem pairwise_depth_cons_outerPackages (fuel : Nat) (package : Text) :
    (package :: outerPackages fuel package).Pairwise fun a b => Name.depth b < Name.depth a := by
  induction fuel generalizing package with
  | zero => exact List.pairwise_singleton _ _
  | succ fuel ih =>
      rw [outerPackages]
      cases houter : Name.package? package with
      | none => exact List.pairwise_singleton _ _
      | some outer =>
          obtain ⟨own, rfl, hown⟩ := Name.eq_qualify_of_package? houter
          have hdepth : Name.depth outer < Name.depth (Name.qualify outer own) := by
            simp only [Name.depth_qualify]
            omega
          refine List.pairwise_cons.mpr ⟨?_, ih outer⟩
          intro inner hinner
          rcases List.mem_cons.mp hinner with rfl | hinner
          · exact hdepth
          · exact Nat.lt_trans (List.rel_of_pairwise_cons (ih outer) hinner) hdepth

theorem pairwise_depth_scopeChain (scope : Option Text) :
    (scopeChain scope).Pairwise fun a b => Name.depth b < Name.depth a := by
  match scope with
  | none => exact List.Pairwise.nil
  | some [] => exact List.Pairwise.nil
  | some (c :: t) => exact pairwise_depth_cons_outerPackages _ _

/-! ## Forms of a text -/

theorem depth_of_replaceEnd? {ending replacement : String} {t form : Text}
    (h : replaceEnd? ending replacement t = some form) (hending : Name.depth ending.toList = 0)
    (hreplacement : Name.depth replacement.toList = 0) : Name.depth form = Name.depth t := by
  obtain ⟨stem, hstem, rfl⟩ := Option.map_eq_some_iff.mp h
  rw [Text.eq_append_of_beforeEnd? hstem]
  simp only [Name.depth, List.count_append] at *
  omega

/-- No ending of a plural or a possessive holds a dot. -/
theorem depth_of_mem_singularForms {t form : Text} (h : form ∈ singularForms t) :
    Name.depth form = Name.depth t := by
  have hmem := List.mem_of_mem_filter (OrderedSet.mem_ofList.mp h)
  simp only [List.mem_filterMap, List.mem_cons, List.not_mem_nil, or_false, id_eq,
    exists_eq_right] at hmem
  rcases hmem with h | h | h | h | h <;> exact depth_of_replaceEnd? h.symm (by decide) (by decide)

theorem nodup_forms (t : Text) : (t :: singularForms t).Nodup := by
  refine List.nodup_cons.mpr ⟨fun hmem => ?_, OrderedSet.nodup _⟩
  simpa using List.of_mem_filter (OrderedSet.mem_ofList.mp hmem)

theorem depth_of_mem_forms {t form : Text} (h : form ∈ t :: singularForms t) :
    Name.depth form = Name.depth t := by
  rcases List.mem_cons.mp h with rfl | h
  · rfl
  · exact depth_of_mem_singularForms h

/-! ## Ranks -/

theorem eraseDups_of_nodup {l : List Text} (h : l.Nodup) : l.eraseDups = l := by
  induction l with
  | nil => rfl
  | cons a l ih =>
      obtain ⟨ha, hl⟩ := List.nodup_cons.mp h
      have hfilter : l.filter (fun b => !b == a) = l := by
        apply List.filter_eq_self.mpr
        intro b hb
        have hne : b ≠ a := by
          rintro rfl
          exact ha hb
        simp [hne]
      rw [List.eraseDups_cons, hfilter, ih hl]

section

variable {chain : List Text}

theorem injOn_depth (hchain : chain.Pairwise fun a b => Name.depth b < Name.depth a)
    {a b : Text} (ha : a ∈ chain) (hb : b ∈ chain) (h : Name.depth a = Name.depth b) : a = b := by
  obtain ⟨i, hi, rfl⟩ := List.mem_iff_getElem.mp ha
  obtain ⟨j, hj, rfl⟩ := List.mem_iff_getElem.mp hb
  have horder := List.pairwise_iff_getElem.mp hchain
  rcases Nat.lt_trichotomy i j with hlt | rfl | hlt
  · have hdepth := horder i j hi hj hlt
    omega
  · rfl
  · have hdepth := horder j i hj hi hlt
    omega

theorem mem_qualifiedForms {form candidate : Text} :
    candidate ∈ qualifiedForms chain form ↔
      candidate = form ∨ ∃ package ∈ chain, candidate = Name.qualify package form := by
  simp [qualifiedForms, eq_comm, or_comm]

/-- The dots of a candidate tell its package, and with that its form. -/
theorem eq_of_mem_qualifiedForms
    (hchain : chain.Pairwise fun a b => Name.depth b < Name.depth a) {form form' candidate : Text}
    (hdepth : Name.depth form = Name.depth form') (h : candidate ∈ qualifiedForms chain form)
    (h' : candidate ∈ qualifiedForms chain form') : form = form' := by
  rcases mem_qualifiedForms.mp h with rfl | ⟨package, hpackage, rfl⟩
  · rcases mem_qualifiedForms.mp h' with h' | ⟨package, -, rfl⟩
    · exact h'
    · rw [Name.depth_qualify] at hdepth
      omega
  · rcases mem_qualifiedForms.mp h' with rfl | ⟨package', hpackage', heq⟩
    · rw [Name.depth_qualify] at hdepth
      omega
    · have hdepths := congrArg Name.depth heq
      simp only [Name.depth_qualify] at hdepths
      obtain rfl : package = package' := injOn_depth hchain hpackage hpackage' (by omega)
      exact List.cons_inj_right _ |>.mp (List.append_cancel_left heq)

theorem nodup_qualifiedForms (hchain : chain.Pairwise fun a b => Name.depth b < Name.depth a)
    (form : Text) : (qualifiedForms chain form).Nodup := by
  rw [qualifiedForms, List.nodup_append]
  refine ⟨?_, List.nodup_singleton form, ?_⟩
  · refine List.pairwise_map.mpr (hchain.imp fun {a b} hlt heq => ?_)
    have hdepths := congrArg Name.depth heq
    simp only [Name.depth_qualify] at hdepths
    omega
  · intro a ha b hb heq
    obtain ⟨package, -, rfl⟩ := List.mem_map.mp ha
    have hdepths := congrArg Name.depth (heq.trans (List.mem_singleton.mp hb))
    rw [Name.depth_qualify] at hdepths
    omega

end

/-- All forms of a text in all packages of a scope, before repetitions are dropped. -/
def ranked (scope : Option Text) (t : Text) : List Text :=
  (t :: singularForms t).flatMap (qualifiedForms (scopeChain scope))

theorem nodup_ranked (scope : Option Text) (t : Text) : (ranked scope t).Nodup := by
  have hchain := pairwise_depth_scopeChain scope
  refine List.nodup_flatMap.mpr ⟨fun form _ => nodup_qualifiedForms hchain form, ?_⟩
  refine (nodup_forms t).imp_of_mem fun {form form'} hform hform' hne candidate hmem hmem' => ?_
  have hdepth := (depth_of_mem_forms hform).trans (depth_of_mem_forms hform').symm
  exact hne (eq_of_mem_qualifiedForms hchain hdepth hmem hmem')

/-- Wherever the first is defined, no link with these candidates leads to the second. -/
def Beats (candidates : List Text) (a b : Text) : Prop :=
  ∀ s : Store, s.isDefined (symbolItem a) → best? s candidates ≠ some b

/-- Each candidate beats those behind it. -/
theorem pairwise_beats {candidates : List Text} (h : candidates.Nodup) :
    candidates.Pairwise (Beats candidates) := by
  rw [List.pairwise_iff_getElem]
  intro i j hi hj hij s hdefined hbest
  obtain ⟨-, k, hk, hkj, hbefore⟩ := List.find?_eq_some_iff_getElem.mp hbest
  obtain rfl : k = j := (List.Nodup.getElem_inj_iff h).mp hkj
  simpa [hdefined] using hbefore i hij

/-- One form of a text in every package that a scope names, inner ones first, and in none. -/
def named (scope : Option Text) (form : Text) : List Text :=
  (levels scope).map (Name.qualify · form) ++ [form]

theorem named_eq_qualifiedForms (scope : Option Text) :
    named scope = qualifiedForms (scopeChain scope) := by
  rw [scopeChain_eq_levels]
  rfl

/-- The candidates of a link are the forms of its text in the packages that its scope names, and
each of them stands there once. Inner symbols beat outer ones, and the text as it is written beats
its singular forms. -/
theorem candidates_order (scope : Option Text) (t : Text) :
    candidates scope t = ((t :: singularForms t).flatMap (named scope)).eraseDups ∧
      (candidates scope t).Nodup ∧
      (∀ form ∈ t :: singularForms t, (named scope form).Pairwise (Beats (candidates scope t))) ∧
      ∀ form ∈ singularForms t, ∀ a ∈ named scope t, ∀ b ∈ named scope form,
        Beats (candidates scope t) a b := by
  have hnodup := nodup_ranked scope t
  have hcandidates : candidates scope t = (ranked scope t).eraseDups := OrderedSet.toList_ofList _
  have hranked := hcandidates.trans (eraseDups_of_nodup hnodup)
  have hbeats := pairwise_beats hnodup
  rw [named_eq_qualifiedForms]
  refine ⟨hcandidates, hranked ▸ hnodup, ?_⟩
  rw [hranked]
  constructor
  · intro form hform
    have hsublist : (qualifiedForms (scopeChain scope) form).Sublist (ranked scope t) :=
      List.sublist_flatten_of_mem (List.mem_map_of_mem hform)
    exact hbeats.sublist hsublist
  · intro form hform a ha b hb
    have hsplit : ranked scope t = qualifiedForms (scopeChain scope) t ++
        (singularForms t).flatMap (qualifiedForms (scopeChain scope)) := List.flatMap_cons
    have hbehind : b ∈ (singularForms t).flatMap (qualifiedForms (scopeChain scope)) :=
      List.mem_flatMap.mpr ⟨form, hform, hb⟩
    have hparts := hbeats
    rw [hsplit, List.pairwise_append] at hparts
    rw [hsplit]
    exact hparts.2.2 a ha b hbehind

example :
    candidates (some "A.B".toList) "xs".toList =
      ["A.B.xs", "A.xs", "xs", "A.B.x", "A.x", "x"].map String.toList := by
  decide

end Index

end Commentary
