import Commentary.Proofs.Ordered
import Commentary.Proofs.Topic.Delineation
import Commentary.Topic.Merge
import Mathlib.Data.List.TakeWhile

/-!
# What becomes of automatic topics

The merging of automatic topics into those from comments is told as a list of events, one for each
topic and one for each automatic topic that is not given to a topic. Every event is justified by
those before it, and the events together name every topic and every automatic topic once.
-/

namespace Commentary.Topic

/-- Something that happens while automatic topics are merged into the topics of a file. -/
inductive MergeEvent where
  /-- A topic stays as it is. -/
  | kept (t : Topic)
  /-- A topic is given what an automatic one knows. -/
  | joined (t : Topic) (a : AutoTopic)
  /-- An automatic topic becomes a topic of its own. -/
  | inserted (a : AutoTopic)
  /-- An automatic topic is documented by an entry of a list. The list is named by the number of
  topics before it, and the entry by the number of entries before it. -/
  | absorbed (a : AutoTopic) (list entry : Nat)
  /-- An automatic topic is left out. -/
  | dropped (a : AutoTopic)
  /-- A delineator is put in. -/
  | delineated (d : Topic)

namespace MergeEvent

/-- The topic that is there before. -/
def comment? : MergeEvent → Option Topic
  | kept t | joined t _ => some t
  | _ => none

/-- The automatic topic. -/
def auto? : MergeEvent → Option AutoTopic
  | joined _ a | inserted a | absorbed a _ _ | dropped a => some a
  | _ => none

/-- The topic that is there afterwards, from wherever it comes. -/
def topic? : MergeEvent → Option Topic
  | kept t => some t
  | joined t a => some (t.withAuto a)
  | inserted a => some a.toTopic
  | delineated d => some d
  | _ => none

/-- The topic that is there afterwards, if it was there before. -/
def documented? (e : MergeEvent) : Option Topic := if e.comment?.isSome then e.topic? else none

/-- The entry of a list that documents an automatic topic. -/
def absorbedBy? : MergeEvent → Option (Nat × Nat)
  | absorbed _ list entry => some (list, entry)
  | _ => none

/-- An event may follow other ones. A topic is given only what was found for a thing of its kind
that it names, an entry documents one automatic topic of its type and name and stands in a list
before, and nothing is left out unless only documented topics are wanted. -/
inductive Justified (documentedOnly : Bool) (before : List MergeEvent) : MergeEvent → Prop where
  | kept (t : Topic) : Justified documentedOnly before (kept t)
  | joined {t : Topic} {a : AutoTopic} (hkind : a.kind = t.kind)
      (hname : Text.includes a.name (withoutParameters t.title)) :
      Justified documentedOnly before (joined t a)
  | inserted (a : AutoTopic) (h : documentedOnly = false) :
      Justified documentedOnly before (inserted a)
  | absorbed {a : AutoTopic} {list entry : Nat} {t : Topic}
      (hlist : (before.filterMap comment?)[list]? = some t)
      (hentry : t.listedNames[entry]? = some (a.kind.type, a.name))
      (hfree : (list, entry) ∉ before.filterMap absorbedBy?) :
      Justified documentedOnly before (absorbed a list entry)
  | dropped (a : AutoTopic) (h : documentedOnly = true) :
      Justified documentedOnly before (dropped a)
  | delineated (d : Topic) (h : d.isDelineator = true) :
      Justified documentedOnly before (delineated d)

end MergeEvent

open MergeEvent

/-! ## One event after the other -/

/-- An entry of some list documents a name, and no automatic topic yet. -/
def HasFreeEntry (events : List MergeEvent) (name : TopicType × Text) : Prop :=
  ∃ list entry t, (events.filterMap comment?)[list]? = some t ∧
    t.listedNames[entry]? = some name ∧ (list, entry) ∉ events.filterMap absorbedBy?

/-- What is kept while automatic topics are merged into topics. -/
structure Account (documentedOnly : Bool) (events : List MergeEvent) (listed : Listed) : Prop where
  justified : Successive (Justified documentedOnly) events
  free : ∀ name ∈ listed, HasFreeEntry events name

variable {documentedOnly : Bool} {events : List MergeEvent} {listed : Listed}

/-- Automatic topics are documented by lists that came before. -/
theorem lt_length_of_mem_absorbedBy? (h : Successive (Justified documentedOnly) events)
    {p : Nat × Nat} (hp : p ∈ events.filterMap absorbedBy?) :
    p.1 < (events.filterMap comment?).length := by
  induction events using List.reverseRecOn with
  | nil => cases hp
  | append_singleton events e ih =>
      obtain ⟨hevents, he⟩ := Successive.concat_iff.mp h
      rw [List.filterMap_append, List.mem_append] at hp
      rw [List.filterMap_append, List.length_append]
      rcases hp with hp | hp
      · exact Nat.lt_add_right _ (ih hevents hp)
      · cases he with
        | absorbed hlist =>
            obtain rfl := List.mem_singleton.mp hp
            exact Nat.lt_add_right _ (List.getElem?_eq_some_iff.mp hlist).1
        | _ => cases hp

namespace HasFreeEntry

variable {name : TopicType × Text}

theorem concat {e : MergeEvent} (h : HasFreeEntry events name)
    (he : ∀ list entry t, e.absorbedBy? = some (list, entry) →
      (events.filterMap comment?)[list]? = some t → t.listedNames[entry]? ≠ some name) :
    HasFreeEntry (events ++ [e]) name := by
  obtain ⟨list, entry, t, hlist, hentry, hfree⟩ := h
  refine ⟨list, entry, t, ?_, hentry, fun hmem => ?_⟩
  · have hlt := (List.getElem?_eq_some_iff.mp hlist).1
    rw [List.filterMap_append, List.getElem?_append_left hlt, hlist]
  · rw [List.filterMap_append, List.mem_append] at hmem
    rcases hmem with hmem | hmem
    · exact hfree hmem
    · obtain ⟨e', he', hsome⟩ := List.mem_filterMap.mp hmem
      obtain rfl := List.mem_singleton.mp he'
      exact he list entry t hsome hlist hentry

/-- A list brings free entries for all the names in it. -/
theorem concat_kept {t : Topic} (h : Successive (Justified documentedOnly) events)
    (hname : name ∈ t.listedNames) : HasFreeEntry (events ++ [.kept t]) name := by
  obtain ⟨entry, hentry⟩ := List.mem_iff_getElem?.mp hname
  refine ⟨(events.filterMap comment?).length, entry, t, ?_, hentry, fun hmem => ?_⟩
  · rw [List.filterMap_append]
    exact List.getElem?_concat_length
  · rw [List.filterMap_append, List.mem_append] at hmem
    rcases hmem with hmem | hmem
    · exact absurd (lt_length_of_mem_absorbedBy? h hmem) (Nat.lt_irrefl _)
    · cases hmem

end HasFreeEntry

namespace Account

theorem start (documentedOnly : Bool) : Account documentedOnly [] ∅ where
  justified := .nil
  free _ h := absurd h List.not_mem_nil

/-- An event that takes no entry leaves the listed names free. -/
theorem concat (h : Account documentedOnly events listed) {e : MergeEvent}
    (he : Justified documentedOnly events e) (hentry : e.absorbedBy? = none) :
    Account documentedOnly (events ++ [e]) listed where
  justified := Successive.concat_iff.mpr ⟨h.justified, he⟩
  free name hname := (h.free name hname).concat fun list entry t hsome => by
    rw [hentry] at hsome
    cases hsome

theorem keep (h : Account documentedOnly events listed) (t : Topic) :
    Account documentedOnly (events ++ [.kept t]) (listed.insertAll t.listedNames) where
  justified := Successive.concat_iff.mpr ⟨h.justified, .kept t⟩
  free name hname := by
    rcases OrderedSet.mem_insertAll.mp hname with hname | hname
    · exact (h.concat (.kept t) rfl).free name hname
    · exact .concat_kept h.justified hname

/-- A listed name has an entry for the next automatic topic of that name, and this one only. -/
theorem absorb (h : Account documentedOnly events listed) {a : AutoTopic}
    (ha : (a.kind.type, a.name) ∈ listed) :
    ∃ list entry, Account documentedOnly (events ++ [.absorbed a list entry])
      (listed.erase (a.kind.type, a.name)) := by
  obtain ⟨list, entry, t, hlist, hentry, hfree⟩ := h.free _ ha
  refine ⟨list, entry, Successive.concat_iff.mpr ⟨h.justified, .absorbed hlist hentry hfree⟩,
    fun name hname => ?_⟩
  obtain ⟨hname, hne⟩ := OrderedSet.mem_erase.mp hname
  refine (h.free name hname).concat fun list' entry' t' hsome hlist' hentry' => hne ?_
  cases hsome
  obtain rfl := Option.some_inj.mp (hlist.symm.trans hlist')
  exact Option.some_inj.mp (hentry'.symm.trans hentry)

end Account

/-! ## A whole merging -/

/-- Some events are all that happens to some topics and automatic topics, and these topics are what
comes out of it. -/
structure Tells (events : List MergeEvent) (comments : List Topic) (autos : List AutoTopic)
    (topics : List Topic) : Prop where
  comments : events.filterMap comment? = comments
  autos : events.filterMap auto? = autos
  topics : events.filterMap topic? = topics

namespace Tells

variable {more : List MergeEvent} {comments comments' topics topics' : List Topic}
  {autos autos' : List AutoTopic}

theorem nil : Tells [] [] [] [] := ⟨rfl, rfl, rfl⟩

theorem cons (e : MergeEvent) (h : Tells events comments autos topics) :
    Tells (e :: events) (e.comment?.toList ++ comments) (e.auto?.toList ++ autos)
      (e.topic?.toList ++ topics) where
  comments := by rw [← h.comments]; cases e <;> rfl
  autos := by rw [← h.autos]; cases e <;> rfl
  topics := by rw [← h.topics]; cases e <;> rfl

theorem append (h : Tells events comments autos topics) (h' : Tells more comments' autos' topics') :
    Tells (events ++ more) (comments ++ comments') (autos ++ autos') (topics ++ topics') where
  comments := by rw [List.filterMap_append, h.comments, h'.comments]
  autos := by rw [List.filterMap_append, h.autos, h'.autos]
  topics := by rw [List.filterMap_append, h.topics, h'.topics]

end Tells

/-- The automatic topics before a line are inserted, found in lists, or left out. -/
theorem exists_tells_place (h : Account documentedOnly events listed) (line : Option Nat)
    (autos : List AutoTopic) :
    let placed := place documentedOnly line listed autos
    ∃ more taken, Account documentedOnly (events ++ more) placed.listed ∧
      Tells more [] taken placed.topics ∧ taken ++ placed.rest = autos := by
  induction autos generalizing events listed with
  | nil => exact ⟨[], [], by simpa [place] using h, .nil, rfl⟩
  | cons a autos ih =>
      -- Each branch tells one event, and goes on with the names that are free behind it.
      have hstep : ∀ {e : MergeEvent} {listed' : Listed},
          Account documentedOnly (events ++ [e]) listed' → e.comment? = none → e.auto? = some a →
          ∃ more taken,
            Account documentedOnly (events ++ more)
              (place documentedOnly line listed' autos).listed ∧
            Tells more [] taken
              (e.topic?.toList ++ (place documentedOnly line listed' autos).topics) ∧
            taken ++ (place documentedOnly line listed' autos).rest = a :: autos := by
        intro e listed' he hcomment hauto
        obtain ⟨more, taken, hmore, htells, htaken⟩ := ih he
        refine ⟨e :: more, a :: taken, by simpa using hmore, ?_, congrArg (a :: ·) htaken⟩
        simpa [hcomment, hauto] using htells.cons e
      rw [place]
      split_ifs with hline hlisted honly
      · exact ⟨[], [], by simpa using h, .nil, rfl⟩
      · obtain ⟨list, entry, habsorb⟩ := h.absorb hlisted
        exact hstep habsorb rfl rfl
      · exact hstep (h.concat (.dropped a honly) rfl) rfl rfl
      · exact hstep (h.concat (.inserted a (by simpa using honly)) rfl) rfl rfl

/-- The automatic topics at a line or behind it are left. -/
theorem rest_place (documentedOnly : Bool) (line : Option Nat) (listed : Listed)
    (autos : List AutoTopic) :
    (place documentedOnly line listed autos).rest =
      autos.dropWhile fun a => !line.any (· ≤ a.line) := by
  induction autos generalizing listed with
  | nil => rfl
  | cons a autos ih =>
      rw [place]
      split_ifs with hline
      · simp [hline]
      all_goals simpa [hline] using ih _

theorem exists_tells_kept (h : Successive (Justified documentedOnly) events) (topics : List Topic) :
    ∃ more, Successive (Justified documentedOnly) (events ++ more) ∧
      Tells more topics [] topics := by
  induction topics generalizing events with
  | nil => exact ⟨[], by simpa using h, .nil⟩
  | cons t topics ih =>
      obtain ⟨more, hmore, htells⟩ := ih (Successive.concat_iff.mpr ⟨h, .kept t⟩)
      exact ⟨.kept t :: more, by simpa using hmore, htells.cons (.kept t)⟩

theorem exists_tells_mergeFrom (h : Account documentedOnly events listed)
    (autos : List AutoTopic) (topics : List Topic) :
    ∃ more, Successive (Justified documentedOnly) (events ++ more) ∧
      Tells more topics autos (mergeFrom documentedOnly listed autos topics) := by
  induction topics generalizing events listed autos with
  | nil =>
      obtain ⟨more, taken, hmore, htells, htaken⟩ := exists_tells_place h none autos
      rw [rest_place, List.dropWhile_eq_nil_iff.mpr (by simp), List.append_nil] at htaken
      exact ⟨more, hmore.justified, htaken ▸ htells⟩
  | cons t topics ih =>
      obtain ⟨placing, taken, hplacing, hplaced, htaken⟩ := exists_tells_place h (some t.line) autos
      -- The topic is told behind the automatic topics before its line, alone or with the next one.
      have hstep : ∀ {e : MergeEvent} {listed' : Listed} {rest : List AutoTopic},
          Account documentedOnly (events ++ placing ++ [e]) listed' → e.comment? = some t →
          e.auto?.toList ++ rest = (place documentedOnly (some t.line) listed autos).rest →
          ∃ more, Successive (Justified documentedOnly) (events ++ more) ∧
            Tells more (t :: topics) autos
              ((place documentedOnly (some t.line) listed autos).topics ++
                (e.topic?.toList ++ mergeFrom documentedOnly listed' rest topics)) := by
        intro e listed' rest he hcomment hrest
        obtain ⟨more, hmore, htells⟩ := ih he rest
        refine ⟨placing ++ e :: more, by simpa using hmore, ?_⟩
        simpa [hcomment, hrest, htaken] using hplaced.append (htells.cons e)
      rw [mergeFrom]
      split
      · next hrest =>
          obtain ⟨more, hmore, htells⟩ := exists_tells_kept hplacing.justified (t :: topics)
          rw [hrest, List.append_nil] at htaken
          refine ⟨placing ++ more, by simpa using hmore, ?_⟩
          simpa [htaken] using hplaced.append htells
      · next a rest hrest =>
          split_ifs with hdocuments
          · obtain ⟨hkind, hname⟩ := Bool.and_eq_true_iff.mp hdocuments
            have hjoined := hplacing.concat (.joined (of_decide_eq_true hkind) hname) rfl
            exact hstep hjoined rfl hrest.symm
          · exact hstep (hplacing.keep t) rfl hrest.symm

/-! ## Delineators among the events -/

theorem MergeEvent.Justified.congr {before before' : List MergeEvent} {e : MergeEvent}
    (hcomments : before.filterMap comment? = before'.filterMap comment?)
    (hentries : before.filterMap absorbedBy? = before'.filterMap absorbedBy?)
    (h : Justified documentedOnly before e) : Justified documentedOnly before' e := by
  cases h with
  | kept t => exact .kept t
  | joined hkind hname => exact .joined hkind hname
  | inserted a h => exact .inserted a h
  | absorbed hlist hentry hfree => exact .absorbed (hcomments ▸ hlist) hentry (hentries ▸ hfree)
  | dropped a h => exact .dropped a h
  | delineated d h => exact .delineated d h

/-- Two lists of events name the same topics, automatic topics and entries. -/
structure SameSources (events events' : List MergeEvent) : Prop where
  comments : events.filterMap comment? = events'.filterMap comment?
  autos : events.filterMap auto? = events'.filterMap auto?
  entries : events.filterMap absorbedBy? = events'.filterMap absorbedBy?

namespace SameSources

variable {all : List MergeEvent}

theorem concat (h : SameSources all events) (e : MergeEvent) :
    SameSources (all ++ [e]) (events ++ [e]) where
  comments := by rw [List.filterMap_append, List.filterMap_append, h.comments]
  autos := by rw [List.filterMap_append, List.filterMap_append, h.autos]
  entries := by rw [List.filterMap_append, List.filterMap_append, h.entries]

theorem delineated (h : SameSources all events) (d : Topic) :
    SameSources (all ++ [.delineated d]) events where
  comments := by rw [List.filterMap_append, h.comments]; exact List.append_nil _
  autos := by rw [List.filterMap_append, h.autos]; exact List.append_nil _
  entries := by rw [List.filterMap_append, h.entries]; exact List.append_nil _

end SameSources

theorem filterMap_topic?_concat (events : List MergeEvent) (e : MergeEvent) :
    (events ++ [e]).filterMap topic? = events.filterMap topic? ++ e.topic?.toList := by
  rw [List.filterMap_append]
  cases e <;> rfl

/-- The delineators that an event asks for are put before it. -/
theorem exists_delineate_concat (events : List MergeEvent) (e : MergeEvent) :
    ∃ inserted : Option Topic, (∀ d, inserted = some d → d.isDelineator = true) ∧
      delineate ((events ++ [e]).filterMap topic?) =
        delineate (events.filterMap topic?) ++ inserted.toList ++ e.topic?.toList := by
  rw [filterMap_topic?_concat]
  cases e.topic? with
  | none => exact ⟨none, fun d hd => absurd hd.symm (Option.some_ne_none d), by simp⟩
  | some t =>
      refine ⟨delineator? (delineate (events.filterMap topic?)) t,
        fun d hd => (introduces_of_delineator? hd).isDelineator, ?_⟩
      rw [Option.toList_some, delineate_concat, putBehind]

/-- Delineation puts events of its own between the others. -/
theorem exists_sameSources_delineate (h : Successive (Justified documentedOnly) events) :
    ∃ all, Successive (Justified documentedOnly) all ∧ SameSources all events ∧
      all.filterMap topic? = delineate (events.filterMap topic?) := by
  induction events using List.reverseRecOn with
  | nil => exact ⟨[], .nil, ⟨rfl, rfl, rfl⟩, rfl⟩
  | append_singleton events e ih =>
      obtain ⟨hevents, he⟩ := Successive.concat_iff.mp h
      obtain ⟨all, hall, hsame, htopics⟩ := ih hevents
      obtain ⟨inserted, hinserted, hnext⟩ := exists_delineate_concat events e
      rw [hnext, ← htopics]
      cases inserted with
      | none =>
          refine ⟨all ++ [e], Successive.concat_iff.mpr ⟨hall, ?_⟩, hsame.concat e, ?_⟩
          · exact he.congr hsame.comments.symm hsame.entries.symm
          · rw [filterMap_topic?_concat, Option.toList_none, List.append_nil]
      | some d =>
          have hd := Successive.concat_iff.mpr ⟨hall, .delineated d (hinserted d rfl)⟩
          have hsame' := hsame.delineated d
          refine ⟨all ++ [.delineated d] ++ [e], Successive.concat_iff.mpr ⟨hd, ?_⟩,
            hsame'.concat e, ?_⟩
          · exact he.congr hsame'.comments.symm hsame'.entries.symm
          · rw [filterMap_topic?_concat, filterMap_topic?_concat]
            rfl

/-! ## What is written -/

/-- Two topics have the same header, on the same line, and the same text. -/
structure WrittenAlike (t u : Topic) : Prop where
  kind : u.kind = t.kind
  title : u.title = t.title
  body : u.body = t.body
  summary : u.summary = t.summary
  line : u.line = t.line

theorem WrittenAlike.refl (t : Topic) : WrittenAlike t t := ⟨rfl, rfl, rfl, rfl, rfl⟩

theorem writtenAlike_withAuto (t : Topic) (a : AutoTopic) : WrittenAlike t (t.withAuto a) := by
  dsimp only [withAuto, withPrototype, withPackage]
  split_ifs <;> exact ⟨rfl, rfl, rfl, rfl, rfl⟩

/-- Without the topics that are put in, the topics of the comments are left, as they are written. -/
theorem forall₂_documented? (events : List MergeEvent) :
    List.Forall₂ WrittenAlike (events.filterMap comment?) (events.filterMap documented?) := by
  induction events with
  | nil => exact .nil
  | cons e events ih =>
      cases e with
      | kept t => exact .cons (.refl t) ih
      | joined t a => exact .cons (writtenAlike_withAuto t a) ih
      | _ => exact ih

/-! ## Lines -/

theorem lines_place_sublist (documentedOnly : Bool) (line : Option Nat) (listed : Listed)
    (autos : List AutoTopic) :
    ((place documentedOnly line listed autos).topics.map (·.line)).Sublist
      ((autos.takeWhile fun a => !line.any (· ≤ a.line)).map (·.line)) := by
  induction autos generalizing listed with
  | nil => exact List.nil_sublist _
  | cons a autos ih =>
      rw [place]
      split_ifs with hline hlisted honly
      · exact List.nil_sublist _
      all_goals rw [List.takeWhile_cons_of_pos (by simpa using hline), List.map_cons]
      · exact (ih _).cons a.line
      · exact (ih _).cons a.line
      · exact (ih _).cons_cons a.line

theorem exists_auto_of_mem_place {line : Option Nat} {autos : List AutoTopic} {u : Topic}
    (h : u ∈ (place documentedOnly line listed autos).topics) :
    ∃ a ∈ autos.takeWhile fun a => !line.any (· ≤ a.line), a.line = u.line :=
  List.mem_map.mp ((lines_place_sublist documentedOnly line listed autos).subset
    (List.mem_map_of_mem h))

theorem inLineOrder_place {line : Option Nat} {autos : List AutoTopic}
    (h : autos.Pairwise fun a b => a.line ≤ b.line) :
    InLineOrder (place documentedOnly line listed autos).topics := by
  have hautos := h.sublist (List.takeWhile_sublist fun a => !line.any (· ≤ a.line))
  exact List.pairwise_map.mp ((List.pairwise_map.mpr hautos).sublist
    (lines_place_sublist documentedOnly line listed autos))

theorem mergeFrom_nil (documentedOnly : Bool) (listed : Listed) (topics : List Topic) :
    mergeFrom documentedOnly listed [] topics = topics := by
  cases topics <;> rfl

/-- A topic stands behind the automatic topics before its line, and keeps what is written. -/
theorem exists_mergeFrom_cons (documentedOnly : Bool) (listed : Listed) (autos : List AutoTopic)
    (t : Topic) (topics : List Topic) :
    ∃ t' listed' autos', mergeFrom documentedOnly listed autos (t :: topics) =
        (place documentedOnly (some t.line) listed autos).topics ++
          t' :: mergeFrom documentedOnly listed' autos' topics ∧
      WrittenAlike t t' ∧
      autos'.Sublist (place documentedOnly (some t.line) listed autos).rest := by
  rw [mergeFrom]
  split
  · exact ⟨t, listed, [], by rw [mergeFrom_nil], .refl t, List.nil_sublist _⟩
  · next a rest hrest =>
      rw [hrest]
      split_ifs
      · exact ⟨_, _, _, rfl, writtenAlike_withAuto t a, List.sublist_cons_self a rest⟩
      · exact ⟨_, _, _, rfl, .refl t, List.Sublist.refl _⟩

/-- No topic stands before all of those that are merged. -/
theorem le_line_of_mem_mergeFrom {bound : Nat} {autos : List AutoTopic} {topics : List Topic}
    (hautos : ∀ a ∈ autos, bound ≤ a.line) (htopics : ∀ t ∈ topics, bound ≤ t.line) :
    ∀ u ∈ mergeFrom documentedOnly listed autos topics, bound ≤ u.line := by
  induction topics generalizing listed autos with
  | nil =>
      intro u hu
      obtain ⟨a, ha, hline⟩ := exists_auto_of_mem_place hu
      exact hline ▸ hautos a ((List.takeWhile_sublist _).subset ha)
  | cons t topics ih =>
      obtain ⟨t', listed', autos', hmerge, ht', hautos'⟩ :=
        exists_mergeFrom_cons documentedOnly listed autos t topics
      obtain ⟨ht, hbehind⟩ := List.forall_mem_cons.mp htopics
      rw [rest_place] at hautos'
      rw [hmerge]
      intro u hu
      rcases List.mem_append.mp hu with hu | hu
      · obtain ⟨a, ha, hline⟩ := exists_auto_of_mem_place hu
        exact hline ▸ hautos a ((List.takeWhile_sublist _).subset ha)
      · rcases List.mem_cons.mp hu with rfl | hu
        · exact ht'.line ▸ ht
        · exact ih (fun a ha => hautos a ((hautos'.trans (List.dropWhile_sublist _)).subset ha))
            hbehind u hu

theorem le_line_of_mem_dropWhile {bound : Nat} {autos : List AutoTopic} {a : AutoTopic}
    (hautos : autos.Pairwise fun a b => a.line ≤ b.line)
    (ha : a ∈ autos.dropWhile fun a => !(some bound).any (· ≤ a.line)) : bound ≤ a.line := by
  induction autos with
  | nil => cases ha
  | cons b autos ih =>
      obtain ⟨hfirst, hrest⟩ := List.pairwise_cons.mp hautos
      rw [List.dropWhile_cons] at ha
      split_ifs at ha with hb
      · exact ih hrest ha
      · have hbound : bound ≤ b.line := by simpa using hb
        rcases List.mem_cons.mp ha with rfl | ha
        · exact hbound
        · exact hbound.trans (hfirst a ha)

theorem pairwise_line_mergeSort (autos : List AutoTopic) :
    (autos.mergeSort fun a b => a.line ≤ b.line).Pairwise fun a b => a.line ≤ b.line := by
  refine (List.pairwise_mergeSort (fun a b c hab hbc => ?_) (fun a b => ?_) autos).imp ?_
  · simp only [decide_eq_true_eq] at *
    exact hab.trans hbc
  · simpa using Nat.le_total a.line b.line
  · exact of_decide_eq_true

/-- Automatic topics in the order of their lines are merged into the order of the topics. -/
theorem inLineOrder_mergeFrom {autos : List AutoTopic} {topics : List Topic}
    (hautos : autos.Pairwise fun a b => a.line ≤ b.line) (htopics : InLineOrder topics) :
    InLineOrder (mergeFrom documentedOnly listed autos topics) := by
  induction topics generalizing listed autos with
  | nil => exact inLineOrder_place hautos
  | cons t topics ih =>
      obtain ⟨t', listed', autos', hmerge, ht', hautos'⟩ :=
        exists_mergeFrom_cons documentedOnly listed autos t topics
      obtain ⟨hfirst, hbehind⟩ := List.pairwise_cons.mp htopics
      rw [rest_place] at hautos'
      have hlater : ∀ u ∈ mergeFrom documentedOnly listed' autos' topics, t'.line ≤ u.line := by
        rw [ht'.line]
        exact le_line_of_mem_mergeFrom
          (fun a ha => le_line_of_mem_dropWhile hautos (hautos'.subset ha)) hfirst
      have hsorted := hautos.sublist (hautos'.trans (List.dropWhile_sublist _))
      rw [hmerge]
      refine List.pairwise_append.mpr ⟨inLineOrder_place hautos,
        List.pairwise_cons.mpr ⟨hlater, ih hsorted hbehind⟩, fun u hu v hv => ?_⟩
      obtain ⟨a, ha, hline⟩ := exists_auto_of_mem_place hu
      have hbefore : u.line < t'.line := by
        rw [← hline, ht'.line]
        simpa using List.mem_takeWhile_imp ha
      rcases List.mem_cons.mp hv with rfl | hv
      · exact hbefore.le
      · exact hbefore.le.trans (hlater v hv)

/-! ## Merging as a whole -/

/-- Merging loses no topic and no automatic topic, and has none of them twice. Its events name each
topic once, in order and as it is written, and each automatic topic once; what is there afterwards
comes from them. Topics in the order of their lines stay so. -/
theorem exists_events_merge (documentedOnly : Bool) (topics : List Topic)
    (autos : List AutoTopic) :
    (∃ events : List MergeEvent,
      merge documentedOnly topics autos = events.filterMap topic? ∧
        events.filterMap comment? = topics ∧
        List.Forall₂ WrittenAlike topics (events.filterMap documented?) ∧
        (events.filterMap auto?).Perm autos ∧
        Successive (Justified documentedOnly) events) ∧
      (InLineOrder topics → InLineOrder (merge documentedOnly topics autos)) := by
  constructor
  · obtain ⟨events, hevents, htells⟩ := exists_tells_mergeFrom (.start documentedOnly)
      (autos.mergeSort fun a b => a.line ≤ b.line) topics
    rw [List.nil_append] at hevents
    obtain ⟨all, hall, hsame, hdelineate⟩ := exists_sameSources_delineate hevents
    have hcomments : all.filterMap comment? = topics := hsame.comments.trans htells.comments
    refine ⟨all, ?_, hcomments, hcomments ▸ forall₂_documented? all, ?_, hall⟩
    · rw [hdelineate, htells.topics, merge]
    · rw [hsame.autos, htells.autos]
      exact List.mergeSort_perm _ _
  · intro htopics
    exact inLineOrder_delineate (inLineOrder_mergeFrom (pairwise_line_mergeSort autos) htopics)

end Commentary.Topic
