import Commentary.Proofs.Index.Stage
import Commentary.Proofs.Session.Request

/-!
# No needless marks

A change of a file marks other files to be written again. Each of them has a reason that can be
told from what the session shows before and after the change.
-/

namespace Commentary

open Index

/-- The claims of a file have taken the place of all that it said before. -/
def Store.Rewritten (file : FileName) (cs : List Claim) (s t : Store) : Prop :=
  ∀ id g, t.definition? id g = if g = file then Claim.first? id cs else s.definition? id g

namespace Store.Rewritten

variable {file g : FileName} {cs : List Claim} {s t : Store} (h : Rewritten file cs s t)

include h

theorem definition?_of_ne (hg : g ≠ file) (id : ItemId) :
    t.definition? id g = s.definition? id g := by
  rw [h, if_neg hg]

theorem mem_definers_iff (hg : g ≠ file) (id : ItemId) :
    g ∈ t.definers id ↔ g ∈ s.definers id := by
  rw [← isSome_definition?_iff, ← isSome_definition?_iff, h.definition?_of_ne hg]

theorem mem_definers_item {c : Claim} (hc : c ∈ cs) : file ∈ t.definers c.item := by
  rw [← isSome_definition?_iff, h, if_pos rfl, Claim.first?, Option.isSome_map,
    List.find?_isSome]
  exact ⟨c, hc, by simp⟩

end Store.Rewritten

namespace Project

variable {file g : FileName} {s t : Store} {p x : Project}

/-! ## Claims and differences of a change -/

/-- What is marked while claims are recorded has an occasion. -/
theorem Claiming.acceptAll (h : Claiming file s t x) (hg : g ≠ file) {cs : List Claim}
    (hcs : ∀ c ∈ cs, Lasting file t c) :
    Claiming file s t (x.acceptAll file cs) ∧
      (g ∈ (x.acceptAll file cs).derived.rebuild →
        g ∈ x.derived.rebuild ∨ Occasion file g s t) := by
  induction cs generalizing x with
  | nil => exact ⟨h, .inl⟩
  | cons c cs ih =>
      obtain ⟨hc, hcs⟩ := List.forall_mem_cons.mp hcs
      obtain ⟨hstage, hmarks⟩ := ih (h.accept hc) hcs
      refine ⟨hstage, fun hmark => ?_⟩
      rcases hmarks hmark with hmark | hoccasion
      · exact h.occasion_accept hg hc hmark
      · exact .inr hoccasion

theorem definitions_acceptAll_of_mem {id : ItemId} (hf : file ∈ x.store.definers id)
    (cs : List Claim) : (x.acceptAll file cs).store.definitions id = x.store.definitions id := by
  induction cs generalizing x with
  | nil => rfl
  | cons c cs ih =>
      have hstep := definitions_accept_of_mem hf c
      have hf' : file ∈ (x.accept file c).store.definers id := by
        rwa [Store.definers_eq, hstep, ← Store.definers_eq]
      exact (ih hf').trans hstep

section Watched

variable {cs : List Claim} {claims : Table ItemId Definition}
  (hw : Store.Watched file (cs.flatMap (Claim.calls file)) p.store
    ((p.watching file).acceptAll file cs).store claims)
  (hclaims : ∀ id, claims.get? id = Claim.first? id cs)

include hw hclaims

theorem definition?_acceptAll (id : ItemId) :
    ((p.watching file).acceptAll file cs).store.definition? id file =
      (p.store.definition? id file).or (Claim.first? id cs) := by
  rw [hw.definition?, ← hw.claims, hclaims]

/-- A difference is about an item that the file defined before the watch. -/
theorem difference_spec {d : Difference}
    (hd : d ∈ ((p.watching file).acceptAll file cs).store.differences ⟨file, claims⟩) :
    ((p.watching file).acceptAll file cs).store.definitions d.item =
        p.store.definitions d.item ∧
      Claim.first? d.item cs = d.result ∧ p.store.definition? d.item file ≠ d.result := by
  obtain ⟨hresult, hne⟩ := Store.result_of_mem_differences hw.consistent hd
  rw [hclaims] at hresult
  dsimp only at hne
  rw [definition?_acceptAll hw hclaims, hresult] at hne
  have hf : file ∈ p.store.definers d.item := by
    rw [← Store.isSome_definition?_iff, Option.isSome_iff_ne_none]
    intro hnone
    exact hne (by rw [hnone, Option.none_or])
  have hitem : ((p.watching file).acceptAll file cs).store.definitions d.item =
      p.store.definitions d.item := definitions_acceptAll_of_mem (x := p.watching file) hf cs
  refine ⟨hitem, hresult, fun he => hne ?_⟩
  rw [he, Option.or_self]

variable (ht : Store.Rewritten file cs p.store t)
  (hmid : Claiming file p.store t ((p.watching file).acceptAll file cs))

include ht hmid

/-- When everything is claimed, nothing is missing that is said in the end. -/
theorem settling_acceptAll : Settling file p.store t ((p.watching file).acceptAll file cs) := by
  refine ⟨hmid.toStage, fun id f hf => ?_⟩
  by_cases hfile : f = file
  · rw [← Store.isSome_definition?_iff, hfile] at hf ⊢
    rw [ht, if_pos rfl] at hf
    rw [definition?_acceptAll hw hclaims, Option.isSome_or, hf, Bool.or_true]
  · exact hmid.lower id f ((ht.mem_definers_iff hfile id).mp hf)

/-- What is marked while differences are settled has an occasion. -/
theorem exec_analyze_occasions (hg : g ≠ file) :
    ∃ q : Project, analyze.exec ((p.watching file).acceptAll file cs) = (.ok (), q) ∧
      (g ∈ q.derived.rebuild → g ∈ ((p.watching file).acceptAll file cs).derived.rebuild ∨
        Occasion file g p.store t) := by
  have hstart := settling_acceptAll hw hclaims ht hmid
  -- The analysis ends the watch first, and then it settles the differences one by one.
  have hunwatched := hmid.move (.watched _ none)
  obtain ⟨q, hexec, ⟨-, hmarks⟩, -⟩ := Store.analyze_ok harmless_listener
    (P := fun _ u => Settling file p.store t u ∧
      (g ∈ u.derived.rebuild → g ∈ ((p.watching file).acceptAll file cs).derived.rebuild ∨
        Occasion file g p.store t))
    hw.consistent hw.watched ⟨⟨hunwatched, hstart.lower⟩, .inl⟩ (by
      rintro done d u hd hv hitem ⟨hu, hmarks⟩
      obtain ⟨hbefore, hfirst, hne⟩ := difference_spec hw hclaims hd
      have hresult : t.definition? d.item file = d.result := by
        rw [ht, if_pos rfl, hfirst]
      refine ⟨follow u file d, exec_settle_listener hv, alike_follow u file d,
        hu.follow hresult hv, fun hmark => ?_⟩
      rcases hu.occasion_follow hresult hg hv (hitem.trans hbefore) hne hmark with
        hmark | hoccasion
      · exact hmarks hmark
      · exact .inr hoccasion)
  exact ⟨_, hexec, hmarks⟩

end Watched

/-- A file is watched, claims some things, and is analysed: whatever other file is marked by that
has an occasion. -/
theorem exec_rewatch_occasions (hp : p.AtRest) (hscopes : p.derived.links.CleanScopes)
    (hmirrors : p.derived.classes.Mirrors p.store) (file : FileName) {cs : List Claim}
    (hcs : ∀ c ∈ cs, c.CleanLink ∧ c.CleanStep) :
    ∃ q : Project, analyze.exec ((p.watching file).acceptAll file cs) = (.ok (), q) ∧
      Store.Rewritten file cs p.store q.store ∧ ∀ g, g ≠ file → g ∈ q.derived.rebuild →
        g ∈ p.derived.rebuild ∨ Occasion file g p.store q.store := by
  obtain ⟨q, hexec, -, -, -, hq⟩ := exec_rewatch hp file hcs
  replace hq : Store.Rewritten file cs p.store q.store := hq
  refine ⟨q, hexec, hq, fun g hg hmark => ?_⟩
  have hbegin : Move (fun _ => True) file p (p.watching file) := .watched p _
  have hwatching : Claiming file p.store q.store (p.watching file) :=
    ⟨⟨hbegin.sound hp.toSound, hscopes, hmirrors.congr (fun _ => rfl) (fun _ => rfl),
      fun id g hg => hq.mem_definers_iff hg id, fun id g hg => .inl hg⟩, fun id f hf => hf⟩
  obtain ⟨hmid, hclaimed⟩ := hwatching.acceptAll hg fun c hc =>
    ⟨(hcs c hc).1, (hcs c hc).2, hq.mem_definers_item hc⟩
  obtain ⟨claims, hw, hclaims⟩ := exists_watched hp.toSound file cs
  obtain ⟨q', hexec', hsettled⟩ := exec_analyze_occasions hw hclaims hq hmid hg
  have hsame : q = q' := (Prod.mk.inj (hexec.symm.trans hexec')).2
  rw [← hsame] at hsettled
  rcases hsettled hmark with hmark | hoccasion
  · exact hclaimed hmark
  · exact .inr hoccasion

/-! ## Relatives -/

section Kin

variable {q : Project} {name own : Text} (hp : p.derived.classes.Mirrors p.store)
  (hq : q.derived.classes.Mirrors q.store)

include hp hq

theorem not_sameKin_of_edge {parent : Text} (hclean : Clean name)
    (hown : own = name ∨ own = parent)
    (hne : q.store.isDefined (edgeItem (edgeKey name parent)) ≠
      p.store.isDefined (edgeItem (edgeKey name parent))) : ¬ SameKin own p q := by
  intro h
  apply hne
  rw [Bool.eq_iff_iff]
  rcases hown with rfl | rfl
  · have hparents := h.parents parent
    rw [hp.parents, hq.parents] at hparents
    simpa [hclean] using hparents
  · have hchildren := h.children name
    rw [hp.children, hq.children] at hchildren
    simpa [hclean] using hchildren

theorem not_sameKin_of_relative (hkin : p.store.Akin own name ∨ q.store.Akin own name)
    (hne : q.store.isDefined (classItem name) ≠ p.store.isDefined (classItem name)) :
    ¬ SameKin own p q := by
  intro h
  apply hne
  have hsame : name ∈ q.derived.classes.relatives own ↔
      name ∈ p.derived.classes.relatives own := by
    rw [ClassGraph.mem_relatives, ClassGraph.mem_relatives, h.parents, h.children]
  have hrelative : name ∈ p.derived.classes.relatives own := by
    rcases hkin with hkin | hkin
    · exact (hp.mem_relatives_iff own name).mpr hkin
    · exact hsame.mp ((hq.mem_relatives_iff own name).mpr hkin)
  have hdefined := h.defined name
  rw [definedRelatives, definedRelatives, List.mem_filter, List.mem_filter, hsame] at hdefined
  rw [Bool.eq_iff_iff]
  simpa [hrelative] using hdefined

end Kin

end Project

/-- Whatever a file changes, adds or drops, another file gave the definition that counts, and the
file drops no symbol. -/
def Store.Unobtrusive (file : FileName) (s t : Store) : Prop :=
  ∀ id, t.definition? id file ≠ s.definition? id file →
    (∃ e, s.authoritative? id = some e ∧ e.1 ≠ file) ∧
      (id.extension = 0 → file ∈ t.definers id)

theorem Store.Unobtrusive.isDefined_eq {file : FileName} {cs : List Claim} {s t : Store}
    (h : Unobtrusive file s t) (hst : Rewritten file cs s t) (id : ItemId) :
    t.isDefined id = s.isDefined id := by
  by_cases hsame : t.definition? id file = s.definition? id file
  · rw [Bool.eq_iff_iff, isDefined_iff_exists, isDefined_iff_exists]
    refine exists_congr fun f => ?_
    by_cases hf : f = file
    · rw [hf, ← isSome_definition?_iff, ← isSome_definition?_iff, hsame]
    · exact hst.mem_definers_iff hf id
  · -- The item keeps the definition that counts.
    obtain ⟨⟨e, he, hother⟩, -⟩ := h id hsame
    have hbefore : e.1 ∈ s.definers id := by
      rw [← isSome_definition?_iff, definition?_of_authoritative? he]
      rfl
    have hs : s.isDefined id := isDefined_of_mem hbefore
    have ht : t.isDefined id := isDefined_of_mem ((hst.mem_definers_iff hother id).mpr hbefore)
    rw [hs, ht]

theorem Occasion.not_unobtrusive {file g : FileName} {cs : List Claim} {s t : Store}
    (h : Occasion file g s t) (hst : s.Rewritten file cs t) : ¬ s.Unobtrusive file t := by
  intro hquiet
  have hdefined := hquiet.isDefined_eq hst
  cases h with
  | moved scope text hlink hne => exact hne (by rw [best?_congr fun _ => hdefined _])
  | taken scope text symbol hlink htarget htaken =>
      obtain ⟨⟨e, he, hother⟩, hkept⟩ := hquiet _ htaken.differs
      rcases htaken.counts with hcounts | hgone
      · rw [he] at hcounts
        exact hother (by simpa using hcounts)
      · exact (Store.definition?_eq_none_iff _ _ _).mp hgone (hkept rfl)
  | edge name parent own hclean hown hclass hne => exact hne (hdefined _)
  | relative name own hkin hclass hne => exact hne (hdefined _)

/-! ## Reasons -/

namespace Session

/-- Why another file has to be written again when a file changes. -/
inductive Reason (file g : FileName) (s t : Session) : Prop where
  /-- A link of it leads elsewhere, or to another definition. -/
  | link (scope : Option Text) (text : Text)
      (hlink : g ∈ s.project.store.definers (linkItem (linkKey scope text)))
      (hne : t.resolve? scope text g ≠ s.resolve? scope text g)
  /-- A class of it has other relatives, or other ones of them are defined. -/
  | kin (name : Text) (hclass : g ∈ s.project.store.definers (classItem name))
      (hne : ¬ Project.SameKin name s.project t.project)
  /-- A link of it leads to a symbol that it defines itself. The definition that counts for the
  others was given by the file that changes, and that gives it no more or in another way. -/
  | own (scope : Option Text) (text : Text) (r : Resolution)
      (hlink : g ∈ s.project.store.definers (linkItem (linkKey scope text)))
      (hbefore : s.resolve? scope text g = some r) (hafter : t.resolve? scope text g = some r)
      (hown : r.file = g)
      (hcounts : (s.project.store.authoritative? (symbolItem r.symbol)).any (·.1 = file))
      (hdiffers : t.project.store.definition? (symbolItem r.symbol) file ≠
        s.project.store.definition? (symbolItem r.symbol) file)
  /-- A link of it leads to a symbol, of which the file that changes drops a definition that did
  not count for others. -/
  | behind (scope : Option Text) (text : Text) (r : Resolution)
      (hlink : g ∈ s.project.store.definers (linkItem (linkKey scope text)))
      (hbefore : s.resolve? scope text g = some r) (hafter : t.resolve? scope text g = some r)
      (hcounts : ¬ (s.project.store.authoritative? (symbolItem r.symbol)).any (·.1 = file))
      (hdropped : file ∈ s.project.store.definers (symbolItem r.symbol) ∧
        file ∉ t.project.store.definers (symbolItem r.symbol))

/-- If the definition that counts is taken back and a reader still sees the same, then the reader
sees its own definition. -/
theorem file_eq_of_takesBack {file g : FileName} {cs : List Claim} {s t : Store} {symbol : Text}
    {r : Resolution} (hst : s.Rewritten file cs t) (hg : g ≠ file)
    (htaken : Store.TakesBack file (symbolItem symbol) s t)
    (hcounts : (s.authoritative? (symbolItem symbol)).any (·.1 = file))
    (hbefore : Index.resolve? s g symbol = some r) (hafter : Index.resolve? t g symbol = some r) :
    r.file = g := by
  cases hown : s.definition? (symbolItem symbol) g with
  | some own =>
      rw [Index.resolve?_eq, hown] at hbefore
      cases hbefore
      rfl
  | none =>
      have hs := authoritative?_of_resolve? hown hbefore
      have ht := authoritative?_of_resolve? ((hst.definition?_of_ne hg _).trans hown) hafter
      have hfile : r.file = file := by simpa [hs] using hcounts
      have hs' := Store.definition?_of_authoritative? hs
      have ht' := Store.definition?_of_authoritative? ht
      rw [hfile] at hs' ht'
      exact absurd (ht'.trans hs'.symm) htaken.differs

section Reasons

variable {file g : FileName} {cs : List Claim} {s t : Session}
  {version? version'? : FileName → Option ParsedFile} (hs : Project.Reflects version? s.project)
  (ht : Project.Reflects version'? t.project)

include hs in
theorem resolve?_eq_bind {scope : Option Text} (hscope : CleanScope scope) (text : Text)
    (g : FileName) :
    s.resolve? scope text g = (best? s.project.store (candidates scope text)).bind
      (Index.resolve? s.project.store g) :=
  Index.resolve?_eq_bind hs.links hs.cleanScopes hscope text g

include hs in
theorem resolve?_symbol {scope : Option Text} (hscope : CleanScope scope) {text : Text}
    {r : Resolution} (h : s.resolve? scope text g = some r) :
    Index.resolve? s.project.store g r.symbol = some r := by
  rw [resolve?_eq_bind hs hscope] at h
  have hbest := map_symbol_resolve? s.project.store (candidates scope text) g
  rw [h, Option.map_some] at hbest
  rwa [← hbest] at h

include hs ht

theorem resolve?_ne_of_best?_ne {scope : Option Text} (hscope : CleanScope scope) {text : Text}
    (hne : best? t.project.store (candidates scope text) ≠
      best? s.project.store (candidates scope text)) (g : FileName) :
    t.resolve? scope text g ≠ s.resolve? scope text g := by
  rw [resolve?_eq_bind hs hscope, resolve?_eq_bind ht hscope]
  intro he
  apply hne
  rw [← map_symbol_resolve? t.project.store _ g, he, map_symbol_resolve?]

/-- If a definition is taken back that a link leads to, then the link shows something else, or the
reader has a definition of its own, or the definition did not count. -/
theorem reason_of_taken (hst : s.project.store.Rewritten file cs t.project.store) (hg : g ≠ file)
    {scope : Option Text} {text symbol : Text} (hlink : s.project.store.Holds g scope text)
    (htarget : best? t.project.store (candidates scope text) = some symbol)
    (htaken : Store.TakesBack file (symbolItem symbol) s.project.store t.project.store) :
    Reason file g s t := by
  by_cases hsame : t.resolve? scope text g = s.resolve? scope text g
  · have hsymbol := map_symbol_resolve? t.project.store (candidates scope text) g
    rw [← resolve?_eq_bind ht hlink.clean, htarget] at hsymbol
    obtain ⟨r, hafter, rfl⟩ := Option.map_eq_some_iff.mp hsymbol
    have hbefore := hsame.symm.trans hafter
    by_cases hcounts : (s.project.store.authoritative? (symbolItem r.symbol)).any (·.1 = file)
    · have hown : r.file = g := file_eq_of_takesBack hst hg htaken hcounts
        (resolve?_symbol hs hlink.clean hbefore) (resolve?_symbol ht hlink.clean hafter)
      exact .own scope text r hlink.link hbefore hafter hown hcounts htaken.differs
    · have hgone := htaken.counts.resolve_left hcounts
      exact .behind scope text r hlink.link hbefore hafter hcounts
        ⟨htaken.mem_definers, (Store.definition?_eq_none_iff _ _ _).mp hgone⟩
  · exact .link scope text hlink.link hsame

theorem reason_of_occasion (hst : s.project.store.Rewritten file cs t.project.store)
    (hg : g ≠ file) (h : Occasion file g s.project.store t.project.store) :
    Reason file g s t := by
  cases h with
  | moved scope text hlink hne =>
      exact .link scope text hlink.link (resolve?_ne_of_best?_ne hs ht hlink.clean hne g)
  | taken scope text symbol hlink htarget htaken =>
      exact reason_of_taken hs ht hst hg hlink htarget htaken
  | edge name parent own hclean hown hclass hne =>
      exact .kin own hclass (Project.not_sameKin_of_edge hs.mirrors ht.mirrors hclean hown hne)
  | relative name own hkin hclass hne =>
      exact .kin own hclass (Project.not_sameKin_of_relative hs.mirrors ht.mirrors hkin hne)

end Reasons

theorem ReachableBy.reflects {s : Session} (hs : s.ReachableBy Change.Separable) :
    ∃ version?, Project.Reflects version? s.project := by
  induction hs with
  | new settings keywords => exact ⟨_, Project.reflects_empty⟩
  | @change s hs c hc ih =>
      obtain ⟨version?, h⟩ := ih
      rw [project_change]
      exact ⟨_, h.change hc⟩
  | takeRebuild _ ih =>
      obtain ⟨version?, h⟩ := ih
      exact ⟨version?, h.toAtRest.congr rfl rfl, h.cleanScopes, h.mirrors, h.definition?⟩

/-- Every change that can be separated is described by what it leaves of the store, and whatever
other file it marks has an occasion. -/
theorem occasion_of_change {s : Session} (hs : s.ReachableBy Change.Separable) {c : Change}
    (hc : c.Separable) :
    s.project.store.Rewritten c.file c.claims (s.change c).project.store ∧
      ∀ g, g ≠ c.file → g ∈ (s.change c).project.derived.rebuild →
        g ∈ s.project.derived.rebuild ∨
          Occasion c.file g s.project.store (s.change c).project.store := by
  obtain ⟨version?, h⟩ := hs.reflects
  obtain ⟨q, hexec, hq, hmarks⟩ :=
    Project.exec_rewatch_occasions h.toAtRest h.cleanScopes h.mirrors c.file hc.clean
  rw [project_change, Change.exec_program_of_analyze h.unwatched hexec, c.store_conclude]
  exact ⟨hq, fun g hg hmark => hmarks g hg (Change.mem_rebuild_of_conclude hg hmark)⟩

/-- A change marks no other file without a reason, and none at all if the file changes or adds only
definitions that do not count for others, or drops such definitions of anything but symbols. -/
theorem reason_of_mem_rebuild {s : Session} (hs : s.ReachableBy Change.Separable) {c : Change}
    (hc : c.Separable) {g : FileName} (hg : g ≠ c.file) (hbefore : g ∉ s.project.derived.rebuild)
    (hafter : g ∈ (s.change c).project.derived.rebuild) :
    Reason c.file g s (s.change c) ∧
      ¬ s.project.store.Unobtrusive c.file (s.change c).project.store := by
  obtain ⟨hst, hmarks⟩ := occasion_of_change hs hc
  have hoccasion := (hmarks g hg hafter).resolve_left hbefore
  obtain ⟨version?, hs'⟩ := hs.reflects
  obtain ⟨version'?, ht'⟩ := (hs.change hc).reflects
  exact ⟨reason_of_occasion hs' ht' hst hg hoccasion, hoccasion.not_unobtrusive hst⟩

/-- A file that links to a symbol which it defines itself. -/
def owning : ParsedFile where
  file := ['b']
  title := []
  topics :=
    [{ kind := .single .functionType
       title := ['x']
       line := 0
       body := some "<link target=\"x\" name=\"x\" original=\"x\">".toList }]

/-- Another file with the symbol. -/
def rival (kind : TopicType) : ParsedFile where
  file := ['a']
  title := []
  topics := [{ kind := .single kind, title := ['x'], line := 0 }]

/-- A session in which the definition of the other file counts, when its marks have been handed
out. -/
def contested (settings : Settings) : Session :=
  (changeAll { settings } [.commit (rival .functionType), .commit owning]).takeRebuild.2

/-- The session when the other file calls the symbol a variable. -/
def settled (settings : Settings) : Session :=
  (contested settings).change (.commit (rival .variableType))

theorem reachableBy_contested (settings : Settings) :
    (contested settings).ReachableBy Change.Separable :=
  .takeRebuild (.changeAll (.new settings .english) (by decide))

theorem reason_contested :
    (contested {}).ReachableBy Change.Separable ∧
      (Change.commit (rival .variableType)).Separable ∧
      ['b'] ≠ (Change.commit (rival .variableType)).file ∧
      ['b'] ∉ (contested {}).project.derived.rebuild ∧
      ['b'] ∈ (settled {}).project.derived.rebuild ∧
      Reason ['a'] ['b'] (contested {}) (settled {}) ∧
      ¬ (contested {}).project.store.Unobtrusive ['a'] (settled {}).project.store :=
  have hs := reachableBy_contested {}
  have hc : (Change.commit (rival .variableType)).Separable := by decide
  have hg : ['b'] ≠ (Change.commit (rival .variableType)).file := by decide
  have hbefore : ['b'] ∉ (contested {}).project.derived.rebuild := by decide
  have hafter : ['b'] ∈ (settled {}).project.derived.rebuild := by decide
  ⟨hs, hc, hg, hbefore, hafter, reason_of_mem_rebuild hs hc hg hbefore hafter⟩

/-- The mark is not made for a link that shows something else, nor for a class: the reader shows its
own definition before and after the change, and it defines no class. -/
theorem not_link_or_kin_contested :
    (contested {}).ReachableBy Change.Separable ∧
      (Change.commit (rival .variableType)).Separable ∧
      ['b'] ≠ (Change.commit (rival .variableType)).file ∧
      ['b'] ∉ (contested {}).project.derived.rebuild ∧
      ['b'] ∈ (settled {}).project.derived.rebuild ∧
      ¬ ((∃ scope text,
          ['b'] ∈ (contested {}).project.store.definers (linkItem (linkKey scope text)) ∧
            (settled {}).resolve? scope text ['b'] ≠ (contested {}).resolve? scope text ['b']) ∨
        ∃ name, ['b'] ∈ (contested {}).project.store.definers (classItem name) ∧
          ¬ Project.SameKin name (contested {}).project (settled {}).project) := by
  refine ⟨reachableBy_contested {}, by decide, by decide, by decide, by decide, ?_⟩
  have hindex : (contested {}).project.store.index ['b'] =
      [symbolItem ['x'], linkItem (linkKey none ['x'])] := by decide
  have hlisted : ∀ id, ['b'] ∈ (contested {}).project.store.definers id →
      id = symbolItem ['x'] ∨ id = linkItem (linkKey none ['x']) := by
    intro id hid
    have hmem := ((reachableBy_contested {}).atRest.consistent.listed id ['b']).mp hid
    simpa [hindex] using hmem
  have hlink : (contested {}).project.derived.links.links.get? (linkKey none ['x']) =
      some ⟨none, ['x'], [['x']], some ['x']⟩ := by decide
  have hlink' : (settled {}).project.derived.links.links.get? (linkKey none ['x']) =
      some ⟨none, ['x'], [['x']], some ['x']⟩ := by decide
  rintro (⟨scope, text, hid, hne⟩ | ⟨name, hid, -⟩)
  · apply hne
    have hkey : linkKey scope text = linkKey none ['x'] := by
      simpa [linkItem, symbolItem] using hlisted _ hid
    rw [resolve?, resolve?, LinkTable.resolve?_of_link (hkey ▸ hlink),
      LinkTable.resolve?_of_link (hkey ▸ hlink')]
    decide
  · simpa [classItem, linkItem, symbolItem] using hlisted _ hid

end Session

end Commentary
